import ToyKernel.Library.Forest
import ToyKernel.Vfs.Agreement

/-!
Trees of nodes as forests of names. On names without blanks around them, `mkdir` and
`mkfile` are insertions along the path that they are given, however it is spelled: with or
without a leading "./", and a directory with or without a final separator.
-/

namespace ToyKernel.Vfs

open Library

mutual

def Node.inFront (others : Forest Text (List UInt8)) : Node → Forest Text (List UInt8)
  | .file name _ contents => .leaf name contents others
  | .directory name _ nodes => .branch name (forestOf nodes) others

def forestOf : List Node → Forest Text (List UInt8)
  | [] => .nil
  | node :: rest => node.inFront (forestOf rest)

end

theorem forestOf_file (name : Text) (parent : Option Cursor) (contents : List UInt8) (rest : List Node) :
    forestOf (.file name parent contents :: rest) = .leaf name contents (forestOf rest) := rfl

theorem forestOf_directory (name : Text) (parent : Option Cursor) (nodes rest : List Node) :
    forestOf (.directory name parent nodes :: rest) = .branch name (forestOf nodes) (forestOf rest) := rfl

structure ProperName (name : Text) : Prop where
  nonempty : name ≠ []
  plain : kPathSeparator ∉ name
  notDot : name ≠ [kDot]
  front : isspace (name.headD 0) = false
  back : isspace (name.getLastD 0) = false

theorem ProperName.tight {name : Text} (proper : ProperName name) : strip name = name := by
  have solid : Solid name := proper.back
  rw [strip, dropWhile_eq_self proper.front, solid.rdropWhile]

theorem ProperName.simple {name : Text} (proper : ProperName name) : simplified name = name := by
  rw [simplified_plain proper.plain, proper.tight]

section Spelling

def slashed (path : List Text) : Text := path.flatMap fun name => name ++ [kPathSeparator]

def leadingDot : Text := [kDot, kPathSeparator]

theorem slashed_cons (name : Text) (path : List Text) (last : Text) :
    slashed (name :: path) ++ last = name ++ kPathSeparator :: (slashed path ++ last) := by
  simp [slashed]

def childStep (name : Text) : Step := .child name name

variable {path : List Text} {name last : Text}

theorem stepOf_proper (proper : ProperName name) : stepOf name = childStep name := by
  rw [stepOf_plain proper.plain, proper.tight, if_neg proper.nonempty, if_neg proper.notDot]
  rfl

theorem stepOf_slashed (proper : ProperName name) : stepOf (name ++ [kPathSeparator]) = childStep name := by
  rw [stepOf_dir proper.plain, proper.tight, dropWhile_eq_self proper.front, if_neg proper.nonempty,
    if_neg proper.notDot, if_neg proper.notDot]
  rfl

theorem solid_slashed (path : List Text) (solid : Solid last) : Solid (slashed path ++ last) := by
  induction path with
  | nil => exact solid
  | cons name path ih =>
      rw [slashed_cons]
      exact solid_split.mpr ih

theorem pathSteps_slashed (proper : ∀ name ∈ path, ProperName name) :
    pathSteps (slashed path) = path.map childStep := by
  induction path with
  | nil => rfl
  | cons name path ih =>
      have whole := slashed_cons name path []
      rw [List.append_nil, List.append_nil] at whole
      rw [whole, pathSteps_split (proper name (by simp)).plain, stepOf_slashed (proper name (by simp)),
        ih fun other member => proper other (by simp [member])]
      rfl

theorem dirSteps_slashed (proper : ∀ name ∈ path, ProperName name) (plain : kPathSeparator ∉ last) :
    dirSteps (slashed path ++ last) = path.map childStep ∧ lastPiece (slashed path ++ last) = last := by
  induction path with
  | nil => exact ⟨dirSteps_plain plain, lastPiece_plain plain⟩
  | cons name path ih =>
      obtain ⟨steps, piece⟩ := ih fun other member => proper other (by simp [member])
      have plainName := (proper name (by simp)).plain
      rw [slashed_cons, dirSteps_split plainName, lastPiece_split plainName,
        stepOf_slashed (proper name (by simp)), steps]
      exact ⟨rfl, piece⟩

/-- Only a single component loses its separator. -/
theorem simplified_spelled {lead : Text} (leads : lead = [] ∨ lead = leadingDot)
    (proper : ∀ name ∈ path, ProperName name) (ended : last = [] ∨ ProperName last) :
    simplified (lead ++ (slashed path ++ last)) = trimSlash (slashed path ++ last) := by
  have solidLast : Solid last := by
    rcases ended with rfl | properLast
    · rfl
    · exact properLast.back
  have solid := solid_slashed path solidLast
  rcases leads with rfl | rfl
  · rw [List.nil_append]
    cases path with
    | nil =>
        have plain : kPathSeparator ∉ last := by
          rcases ended with rfl | properLast
          · simp
          · exact properLast.plain
        have tight : strip last = last := by
          rcases ended with rfl | properLast
          · rfl
          · exact properLast.tight
        have alone : slashed [] ++ last = last := rfl
        rw [alone, simplified_plain plain, tight, trimSlash_plain plain]
    | cons name path =>
        have first := proper name (by simp)
        rw [slashed_cons] at solid ⊢
        rw [simplified, strip_split solid, dropWhile_eq_self first.front,
          trimDot_concat first.plain first.notDot]
  · have whole : leadingDot ++ (slashed path ++ last) = [kDot] ++ kPathSeparator :: (slashed path ++ last) :=
      rfl
    have solidWhole : Solid ([kDot] ++ kPathSeparator :: (slashed path ++ last)) := solid_split.mpr solid
    rw [whole, simplified, strip_split solidWhole]
    rfl

/-- Behind at least one component, a name keeps the separators before it. -/
theorem trimSlash_slashed (path : List Text) (proper : ∀ name ∈ path, ProperName name)
    (properLast : ProperName last) : trimSlash (slashed path ++ last) = slashed path ++ last := by
  cases path with
  | nil => exact trimSlash_plain properLast.plain
  | cons name path =>
      rw [slashed_cons]
      refine trimSlash_split (proper name (by simp)).plain ?_
      simp [properLast.nonempty]

def SpellsDir (text : Text) (path : List Text) : Prop :=
  ∃ lead, (lead = [] ∨ lead = leadingDot) ∧ (text = lead ++ slashed path ∨
    ∃ front last, path = front ++ [last] ∧ text = lead ++ (slashed front ++ last))

def SpellsFile (text : Text) (path : List Text) (name : Text) : Prop :=
  ∃ lead, (lead = [] ∨ lead = leadingDot) ∧ text = lead ++ (slashed path ++ name)

theorem SpellsDir.steps {text : Text} (spells : SpellsDir text path)
    (proper : ∀ name ∈ path, ProperName name) : pathSteps (simplified text) = path.map childStep := by
  obtain ⟨lead, leads, rfl | ⟨front, last, rfl, rfl⟩⟩ := spells
  · have trimmed := simplified_spelled leads proper (.inl rfl)
    rw [List.append_nil] at trimmed
    rw [trimmed]
    rcases path with _ | ⟨name, _ | ⟨next, rest⟩⟩
    · rfl
    · have single := proper name (by simp)
      have whole : slashed [name] = name ++ [kPathSeparator] := by simp [slashed]
      rw [whole, trimSlash_concat single.plain single.nonempty, pathSteps_plain single.plain single.nonempty,
        stepOf_proper single]
      rfl
    · have whole := slashed_cons name (next :: rest) []
      rw [List.append_nil, List.append_nil] at whole
      have kept : trimSlash (slashed (name :: next :: rest)) = slashed (name :: next :: rest) := by
        rw [whole]
        exact trimSlash_split (proper name (by simp)).plain (by simp [slashed])
      rw [kept, pathSteps_slashed proper]
  · have properFront : ∀ name ∈ front, ProperName name := fun name member => proper name (by simp [member])
    have properLast := proper last (by simp)
    obtain ⟨steps, piece⟩ := dirSteps_slashed properFront properLast.plain
    rw [simplified_spelled leads properFront (.inr properLast), trimSlash_slashed front properFront properLast,
      pathSteps_last _ (by rw [piece]; exact properLast.nonempty), steps, piece, stepOf_proper properLast,
      List.map_append]
    rfl

theorem SpellsFile.simplified {text : Text} (spells : SpellsFile text path name)
    (proper : ∀ name ∈ path, ProperName name) (properName : ProperName name) :
    simplified text = slashed path ++ name := by
  obtain ⟨lead, leads, rfl⟩ := spells
  rw [simplified_spelled leads proper (.inr properName), trimSlash_slashed path proper properName]

theorem headD_slashed (proper : ∀ name ∈ path, ProperName name) (properName : ProperName name) :
    (slashed path ++ name).headD 0 ≠ kPathSeparator := by
  have first : ∀ {text : Text} (rest : Text), ProperName text →
      (text ++ rest).headD 0 ≠ kPathSeparator := by
    intro text rest properText
    cases text with
    | nil => exact absurd rfl properText.nonempty
    | cons c text => exact fun same => properText.plain (by simpa using .inl same.symm)
  cases path with
  | nil => simpa [slashed] using first [] properName
  | cons other path =>
      rw [slashed_cons]
      exact first _ (proper other (by simp))

end Spelling

section Updates

theorem modify_concat (nodes : List Node) (node : Node) (change : Node → Node) :
    (nodes ++ [node]).modify nodes.length change = nodes ++ [change node] := by
  induction nodes with
  | nil => rfl
  | cons first rest ih => simp [ih]

theorem updateAt_append (change : Node → Node) (front back : Cursor) (tree : Node) :
    tree.updateAt change (front ++ back) = tree.updateAt (Node.updateAt change back) front := by
  induction front generalizing tree with
  | nil => rfl
  | cons position rest ih =>
      cases tree with
      | file name parent contents => rfl
      | directory name parent nodes =>
          rw [List.cons_append, Node.updateAt, Node.updateAt]
          congr 2
          funext node
          exact ih node

theorem updateAt_updateAt (first second : Node → Node) (target : Cursor) (tree : Node) :
    (tree.updateAt first target).updateAt second target =
      tree.updateAt (fun node => second (first node)) target := by
  induction target generalizing tree with
  | nil => rfl
  | cons position rest ih =>
      cases tree with
      | file name parent contents => rfl
      | directory name parent nodes =>
          rw [Node.updateAt, Node.updateAt, Node.updateAt, List.modify_modify_eq]
          congr 2
          funext node
          exact ih node

theorem updateAt_congr {tree node : Node} {target : Cursor} {first second : Node → Node}
    (found : tree.at? target = some node) (same : first node = second node) :
    tree.updateAt first target = tree.updateAt second target := by
  induction target generalizing tree with
  | nil =>
      obtain rfl : tree = node := by simpa using found
      exact same
  | cons position rest ih =>
      rw [at?_cons] at found
      obtain ⟨child, inside, below⟩ := Option.bind_eq_some_iff.mp found
      cases tree with
      | file name parent contents => rfl
      | directory name parent nodes =>
          rw [Node.updateAt, Node.updateAt]
          congr 1
          apply List.ext_getElem?
          intro index
          rw [List.getElem?_modify, List.getElem?_modify]
          by_cases here : position = index
          · subst here
            have inNodes : nodes[position]? = some child := inside
            rw [inNodes]
            simp [ih below]
          · simp [here]

theorem updateAt_self {tree node : Node} {target : Cursor} (found : tree.at? target = some node) :
    tree.updateAt (fun _ => node) target = tree := by
  have same : tree.updateAt (fun _ => node) target = tree.updateAt id target := updateAt_congr found rfl
  have idle : ∀ (cursor : Cursor) (tree : Node), tree.updateAt id cursor = tree := by
    intro cursor
    induction cursor with
    | nil => exact fun _ => rfl
    | cons position rest ih =>
        intro tree
        cases tree with
        | file name parent contents => rfl
        | directory name parent nodes =>
            have whole : Node.updateAt id rest = id := funext ih
            rw [Node.updateAt, whole, List.modify_id]
  rw [same, idle]

variable {tree : Node} {dir : Cursor} {name : Text} {parent : Option Cursor} {nodes : List Node}

theorem updateAt_child (found : tree.at? dir = some (.directory name parent nodes)) (position : Nat)
    (new : Node) : tree.updateAt (fun _ => new) (dir ++ [position]) =
      tree.updateAt (fun _ => .directory name parent (nodes.set position new)) dir := by
  rw [updateAt_append]
  refine updateAt_congr found ?_
  have constant : Node.updateAt (fun _ => new) [] = fun _ => new := rfl
  rw [Node.updateAt, constant]
  congr 1
  apply List.ext_getElem?
  intro index
  rw [List.getElem?_modify, List.getElem?_set]
  by_cases here : position = index
  · subst here
    by_cases inside : position < nodes.length
    · simp [inside]
    · simp [inside]
  · simp [here]

theorem at?_updateAt {node : Node} {target : Cursor} (change : Node → Node)
    (found : tree.at? target = some node) : (tree.updateAt change target).at? target = some (change node) := by
  induction target generalizing tree with
  | nil =>
      obtain rfl : tree = node := by simpa using found
      rfl
  | cons position rest ih =>
      rw [at?_cons] at found
      obtain ⟨child, inside, below⟩ := Option.bind_eq_some_iff.mp found
      rw [at?_cons, nodes_updateAt, List.getElem?_modify, inside]
      simp [ih below]

end Updates

section Forests

theorem forestOf_append (front back : List Node) :
    forestOf (front ++ back) = (forestOf front).append (forestOf back) := by
  induction front with
  | nil => rfl
  | cons node rest ih =>
      cases node with
      | file name parent contents => simp only [List.cons_append, forestOf_file, Forest.append, ih]
      | directory name parent nodes => simp only [List.cons_append, forestOf_directory, Forest.append, ih]

/-- The first directory of a key is the one that a change under the key goes to. -/
theorem forestOf_under {key : Text} {nodes : List Node}
    {change : Forest Text (List UInt8) → Option (Forest Text (List UInt8))}
    {after : Forest Text (List UInt8)} (tidy : (forestOf nodes).AllKeys fun name => simplified name = name)
    (done : (forestOf nodes).under key change = some after) :
    (nodes.findIdx? (fun child => decide (key = simplified child.name)) = none ∧
      ∃ entries, change .nil = some entries ∧ after = (forestOf nodes).append (.branch key entries .nil)) ∨
    ∃ position parent below entries,
      nodes.findIdx? (fun child => decide (key = simplified child.name)) = some position ∧
      nodes[position]? = some (.directory key parent below) ∧ change (forestOf below) = some entries ∧
      (forestOf below).AllKeys (fun name => simplified name = name) ∧
      ∀ new, forestOf new = entries →
        forestOf (nodes.set position (.directory key parent new)) = after := by
  induction nodes generalizing after with
  | nil =>
      obtain ⟨entries, changed, rfl⟩ := Option.map_eq_some_iff.mp done
      exact .inl ⟨rfl, entries, changed, rfl⟩
  | cons node rest ih =>
      cases node with
      | file name parent contents =>
          rw [forestOf_file] at tidy done
          rw [Forest.under] at done
          split at done
          · cases done
          · rename_i apart
            have different : ¬key = simplified name := fun same => apart (tidy.1.symm.trans same.symm)
            obtain ⟨later, changed, rfl⟩ := Option.map_eq_some_iff.mp done
            rcases ih tidy.2 changed with ⟨absent, entries, inner, rfl⟩ |
              ⟨position, above, below, entries, found, here, inner, tidyBelow, others⟩
            · refine .inl ⟨?_, entries, inner, rfl⟩
              rw [List.findIdx?_cons, absent]
              simp [Node.name, different]
            · refine .inr ⟨position + 1, above, below, entries, ?_, here, inner, tidyBelow, ?_⟩
              · rw [List.findIdx?_cons, found]
                simp [Node.name, different]
              · intro new holds
                rw [List.set_cons_succ, forestOf_file, others new holds]
      | directory name parent nodes =>
          rw [forestOf_directory] at tidy done
          rw [Forest.under] at done
          split at done
          · rename_i same
            subst same
            obtain ⟨entries, changed, rfl⟩ := Option.map_eq_some_iff.mp done
            refine .inr ⟨0, parent, nodes, entries, ?_, rfl, changed, tidy.2.1, ?_⟩
            · rw [List.findIdx?_cons]
              simp [Node.name, tidy.1]
            · intro new holds
              rw [List.set_cons_zero, forestOf_directory, holds]
          · rename_i apart
            have different : ¬key = simplified name := fun same => apart (tidy.1.symm.trans same.symm)
            obtain ⟨later, changed, rfl⟩ := Option.map_eq_some_iff.mp done
            rcases ih tidy.2.2 changed with ⟨absent, entries, inner, rfl⟩ |
              ⟨position, above, below, entries, found, here, inner, tidyBelow, others⟩
            · refine .inl ⟨?_, entries, inner, rfl⟩
              rw [List.findIdx?_cons, absent]
              simp [Node.name, different]
            · refine .inr ⟨position + 1, above, below, entries, ?_, here, inner, tidyBelow, ?_⟩
              · rw [List.findIdx?_cons, found]
                simp [Node.name, different]
              · intro new holds
                rw [List.set_cons_succ, forestOf_directory, others new holds]

/-- A walk along a path, with a change of the nodes where it ends, alters the forest there. -/
theorem createAll_alter {path : List Text} {tree : Node} {dir : Cursor} {name : Text}
    {parent : Option Cursor} {nodes : List Node}
    {change : Forest Text (List UInt8) → Option (Forest Text (List UInt8))}
    {after : Forest Text (List UInt8)} (found : tree.at? dir = some (.directory name parent nodes))
    (tidy : (forestOf nodes).AllKeys fun name => simplified name = name)
    (done : (forestOf nodes).alter change path = some after) :
    ∃ grown current own above held entries,
      createAll tree dir (path.map childStep) = .ok (grown, current) ∧
      grown.at? current = some (.directory own above held) ∧ change (forestOf held) = some entries ∧
      ∀ new, forestOf new = entries → ∃ all, forestOf all = after ∧
        grown.updateAt (fun _ => .directory own above new) current =
          tree.updateAt (fun _ => .directory name parent all) dir := by
  induction path generalizing tree dir name parent nodes after with
  | nil => exact ⟨tree, dir, name, parent, nodes, after, rfl, found, done, fun new holds => ⟨new, holds, rfl⟩⟩
  | cons key path ih =>
      rw [List.map_cons, createAll_cons, childStep, create]
      rcases forestOf_under tidy done with ⟨absent, entries, changed, rfl⟩ |
        ⟨position, above, below, entries, first, here, changed, tidyBelow, others⟩
      · have missing : childAt tree dir key = none := by
          rw [childAt, found, Option.bind_some, Node.nodes, absent]
          rfl
        have grownHere : (tree.updateAt (Node.pushBack (.directory key (some dir) [])) dir).at? dir =
            some (.directory name parent (nodes ++ [.directory key (some dir) []])) :=
          at?_updateAt _ found
        have newHere : (tree.updateAt (Node.pushBack (.directory key (some dir) [])) dir).at?
            (dir ++ [nodes.length]) = some (.directory key (some dir) []) := by
          rw [at?_concat, grownHere, Option.bind_some, Node.nodes, List.getElem?_concat_length]
        obtain ⟨grown, current, own, top, held, inner, walked, atEnd, changedEnd, placed⟩ :=
          ih newHere trivial changed
        refine ⟨grown, current, own, top, held, inner, ?_, atEnd, changedEnd, ?_⟩
        · rw [missing, addNode, nodesOf_eq found]
          exact walked
        · intro new holds
          obtain ⟨all, built, same⟩ := placed new holds
          refine ⟨nodes ++ [.directory key (some dir) all], ?_, ?_⟩
          · rw [forestOf_append, forestOf_directory, built]
            rfl
          · rw [same, updateAt_child grownHere, updateAt_updateAt, List.set_append_right _ _ (Nat.le_refl _),
              Nat.sub_self]
            rfl
      · have present : childAt tree dir key = some (dir ++ [position]) := by
          rw [childAt, found, Option.bind_some, Node.nodes, first]
          rfl
        have childHere : tree.at? (dir ++ [position]) = some (.directory key above below) := by
          rw [at?_concat, found, Option.bind_some]
          exact here
        obtain ⟨grown, current, own, top, held, inner, walked, atEnd, changedEnd, placed⟩ :=
          ih childHere tidyBelow changed
        refine ⟨grown, current, own, top, held, inner, ?_, atEnd, changedEnd, ?_⟩
        · have isDir : IsDirectoryAt tree (dir ++ [position]) := isDirectoryAt_iff.mpr ⟨_, _, _, childHere⟩
          rw [present]
          dsimp only
          rw [castDirectory_eq isDir]
          exact walked
        · intro new holds
          obtain ⟨all, built, same⟩ := placed new holds
          exact ⟨_, others all built, by rw [same, updateAt_child found]⟩

end Forests

section Calls

variable {name : Text} {parent : Option Cursor} {nodes : List Node} {after : Forest Text (List UInt8)}

theorem mkdir_insert {text : Text} {path : List Text} (rooted : Rooted (.directory name parent nodes))
    (tidy : (forestOf nodes).AllKeys fun name => simplified name = name)
    (proper : ∀ name ∈ path, ProperName name) (spells : SpellsDir text path)
    (inserted : Forest.Entry.insert (.branch path) (forestOf nodes) = some after) :
    ∃ all, perform (.directory name parent nodes) (.mkdir [] text) = .ok (.directory name parent all) ∧
      forestOf all = after := by
  obtain ⟨grown, current, own, above, held, entries, walked, atEnd, changed, placed⟩ :=
    createAll_alter (at?_nil _) tidy inserted
  obtain ⟨all, built, same⟩ := placed held (Option.some.inj changed)
  rw [updateAt_self atEnd] at same
  refine ⟨all, ?_, built⟩
  rw [perform, mkdir_eq rooted (rooted_isDirectory rooted), spells.steps proper, walked, same]
  rfl

theorem mkfile_insert {text last : Text} {path : List Text} {data : List UInt8}
    (rooted : Rooted (.directory name parent nodes))
    (tidy : (forestOf nodes).AllKeys fun name => simplified name = name)
    (proper : ∀ name ∈ path, ProperName name) (properLast : ProperName last)
    (spells : SpellsFile text path last)
    (inserted : Forest.Entry.insert (.leaf path last data) (forestOf nodes) = some after) :
    ∃ all, perform (.directory name parent nodes) (.mkfile [] text data) = .ok (.directory name parent all) ∧
      forestOf all = after := by
  obtain ⟨grown, current, own, above, held, entries, walked, atEnd, changed, placed⟩ :=
    createAll_alter (at?_nil _) tidy inserted
  have appended : forestOf (held ++ [.file last (some []) data]) = entries := by
    rw [forestOf_append, ← Option.some.inj changed]
    rfl
  obtain ⟨all, built, same⟩ := placed _ appended
  obtain ⟨steps, piece⟩ := dirSteps_slashed proper properLast.plain
  refine ⟨all, ?_, built⟩
  have written : (grown.updateAt (Node.pushBack (.file last (some []) [])) current).updateAt
      (Node.write data) (current ++ [held.length]) = .directory name parent all := by
    rw [updateAt_append, updateAt_updateAt]
    refine (updateAt_congr atEnd ?_).trans same
    rw [Node.pushBack, Node.updateAt]
    rw [modify_concat]
    simp [Node.write, Node.updateAt]
  rw [perform, mkfile, simplifyName_eq, ok_bind, spells.simplified proper properLast,
    require_of (headD_slashed proper properLast), ok_bind,
    mkfileLoop_eq rooted (rooted_isDirectory rooted) (Nat.le_refl _), steps, walked, piece]
  simp only [ok_bind, pure, Except.pure]
  rw [require_of properLast.nonempty, ok_bind, addNode, nodesOf_eq atEnd]
  simp only [ok_bind, pure, Except.pure]
  rw [written]

end Calls

end ToyKernel.Vfs
