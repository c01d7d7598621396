import ToyKernel.Vfs.Runs

/-!
Two invariants of the tree under sequences of calls: the parent pointers, and the uniqueness
of names among siblings. Both depend on where a file path leads before the call.
-/

namespace ToyKernel.Vfs

open Library

def callsMeeting (Meets : Node → Op → Prop) : System Node Op where
  initial tree := calls.initial tree
  step tree op after := Meets tree op ∧ calls.step tree op after

def MeetsAlong (Meets : Node → Op → Prop) : Node → List Op → Prop
  | _, [] => True
  | tree, op :: rest => Meets tree op ∧ ∀ after, perform tree op = .ok after → MeetsAlong Meets after rest

theorem meetsAlong_reachable {Meets : Node → Op → Prop} {tree after : Node} {ops : List Op}
    (run : calls.Run tree ops after) (meets : MeetsAlong Meets tree ops)
    (reachable : (callsMeeting Meets).Reachable tree) : (callsMeeting Meets).Reachable after := by
  induction run with
  | done _ => exact reachable
  | step first _ ih => exact ih (meets.2 _ first.2) (reachable.next ⟨meets.1, first⟩)

theorem reachable_of_meeting {Meets : Node → Op → Prop} {tree : Node}
    (reachable : (callsMeeting Meets).Reachable tree) : calls.Reachable tree := by
  induction reachable with
  | start isInitial => exact .start isInitial
  | next _ step ih => exact ih.next step.2

section Walking

/-- Where the steps lead among the nodes that exist. A step that would create a directory
leads out of the tree, and only a step to the root leads back. -/
def walk (tree : Node) : Option Cursor → List Step → Option Cursor
  | place, [] => place
  | _, .root :: rest => walk tree (some []) rest
  | place, .stay :: rest => walk tree place rest
  | _, .nameless :: rest => walk tree none rest
  | place, .child key _ :: rest => walk tree (place.bind fun dir => childAt tree dir key) rest

theorem headerAt_earlier {tree : Node} {dir : Cursor} {position earlier : Nat} {header : Header}
    (found : headerAt tree (dir ++ [position]) = some header) (below : earlier < position) :
    ∃ other, headerAt tree (dir ++ [earlier]) = some other := by
  obtain ⟨name, parent, nodes, here⟩ := isDirectoryAt_iff.mp (headerAt_below found)
  rw [headerAt_concat here, Option.map_eq_some_iff] at found
  obtain ⟨node, inside, _⟩ := found
  have bound : position < nodes.length := (List.getElem?_eq_some_iff.mp inside).1
  refine ⟨(nodes[earlier]).header, ?_⟩
  rw [headerAt_concat here, Node.nodes, List.getElem?_eq_getElem (by omega)]
  rfl

theorem childAt_extends {tree after : Node} {dir child : Cursor} {key : Text}
    (extended : Extends tree after) (found : childAt tree dir key = some child) :
    childAt after dir key = some child := by
  obtain ⟨position, rfl, ⟨header, here, named⟩, before⟩ := childAt_eq_some.mp found
  refine childAt_eq_some.mpr ⟨position, rfl, ⟨header, extended _ _ here, named⟩, ?_⟩
  rintro earlier below ⟨other, now, same⟩
  obtain ⟨old, was⟩ := headerAt_earlier here below
  rw [extended _ _ was, Option.some.injEq] at now
  exact before earlier below ⟨old, was, now ▸ same⟩

theorem childAt_new {tree after : Node} {dir child : Cursor} {key : Text}
    (extended : Extends tree after) (absent : childAt tree dir key = none)
    (found : childAt after dir key = some child) : headerAt tree child = none := by
  obtain ⟨position, rfl, ⟨header, here, named⟩, _⟩ := childAt_eq_some.mp found
  cases old : headerAt tree (dir ++ [position]) with
  | none => rfl
  | some header' =>
      have same := extended _ _ old
      rw [here, Option.some.injEq] at same
      exact absurd ⟨header', old, same ▸ named⟩ (childAt_eq_none.mp absent position)

theorem headerAt_none_below {tree : Node} {dir : Cursor} (absent : headerAt tree dir = none)
    (position : Nat) : headerAt tree (dir ++ [position]) = none := by
  cases found : headerAt tree (dir ++ [position]) with
  | none => rfl
  | some header =>
      obtain ⟨above, here, _⟩ := headerAt_below found
      rw [absent] at here
      cases here

/-- The walk in the old tree tells where a creating walk ends: at the node it names, or at one
that did not exist. -/
theorem walk_createAll {old tree after : Node} {dir current : Cursor} {place : Option Cursor}
    {steps : List Step} (extended : Extends old tree)
    (start : place = some dir ∨ (place = none ∧ headerAt old dir = none))
    (done : createAll tree dir steps = .ok (after, current)) :
    walk old place steps = some current ∨
      (walk old place steps = none ∧ headerAt old current = none) := by
  induction steps generalizing tree dir place with
  | nil =>
      simp only [createAll, Except.ok.injEq, Prod.mk.injEq] at done
      rw [← done.2]
      exact start
  | cons step rest ih =>
      simp only [createAll, bind_eq_ok, Prod.exists] at done
      obtain ⟨middle, next, first, later⟩ := done
      have further := extended.trans (create_extends first)
      rcases create_ok first with ⟨rfl, ⟨rfl, rfl⟩ | ⟨rfl, rfl⟩ | ⟨key, stored, rfl, known, _⟩⟩ |
        ⟨name, added, reason⟩
      · exact ih further (.inl rfl) later
      · exact ih further start later
      · apply ih further _ later
        rcases start with rfl | ⟨rfl, outside⟩
        · rw [Option.bind_some]
          cases before : childAt old dir key with
          | none => exact .inr ⟨rfl, childAt_new extended before known⟩
          | some child =>
              left
              rw [← known, childAt_extends extended before]
        · obtain ⟨position, rfl, _⟩ := childAt_eq_some.mp known
          exact .inr ⟨rfl, headerAt_none_below outside position⟩
      · have fresh : headerAt old next = none := by
          cases was : headerAt old next with
          | none => rfl
          | some header =>
              have still := extended _ _ was
              rw [added.fresh] at still
              cases still
        rcases reason with ⟨rfl, _⟩ | ⟨key, rfl, absent⟩
        · exact ih further (.inr ⟨rfl, fresh⟩) later
        · apply ih further (.inr ⟨?_, fresh⟩) later
          rcases start with rfl | ⟨rfl, _⟩
          · rw [Option.bind_some]
            cases before : childAt old dir key with
            | none => rfl
            | some child =>
                rw [childAt_extends extended before] at absent
                cases absent
          · rfl

end Walking

section Parents

structure BackPointers (tree : Node) : Prop where
  root : ∃ header, headerAt tree [] = some header ∧ header.parent = none
  below : ∀ dir position header, headerAt tree (dir ++ [position]) = some header →
    header.parent = some dir

def ReturnsHome (tree : Node) : Op → Prop
  | .mkdir _ _ => True
  | .mkfile dir path _ => walk tree (some dir) (dirSteps (simplified path)) = some dir

theorem Added.backPointers {tree after : Node} {dir new : Cursor} {header : Header}
    (added : Added tree dir header after new) (pointers : BackPointers tree)
    (parent : header.parent = some dir) : BackPointers after where
  root := by
    obtain ⟨old, found, noParent⟩ := pointers.root
    exact ⟨old, added.keeps found, noParent⟩
  below := by
    intro above position found here
    obtain ⟨count, place, _⟩ := added.behind
    rcases added.cases here with ⟨same, rfl⟩ | old
    · rw [place] at same
      rw [(List.append_inj' same rfl).1]
      exact parent
    · exact pointers.below above position found old

theorem createAll_backPointers {tree after : Node} {dir current : Cursor} {steps : List Step}
    (pointers : BackPointers tree) (done : createAll tree dir steps = .ok (after, current)) :
    BackPointers after :=
  createAll_induction (fun {_ _ _ _ _ _} holds (_ : True) added _ => added.backPointers holds rfl)
    (fun _ _ => trivial) pointers done

theorem Written.backPointers {tree after : Node} {file : Cursor} {data : List UInt8}
    (written : Written tree after file data) (pointers : BackPointers tree) : BackPointers after where
  root := by
    obtain ⟨header, found, noParent⟩ := pointers.root
    obtain ⟨now, here, _, parent, _⟩ := written.forward found
    exact ⟨now, here, by rw [parent, noParent]⟩
  below := by
    intro dir position header found
    obtain ⟨old, here, _, parent, _⟩ := written.cases found
    rw [← parent]
    exact pointers.below dir position old here

/-- A call keeps the parent pointers right exactly when the file lands where it was called. -/
theorem perform_backPointers {tree after : Node} {op : Op} (rooted : Rooted tree)
    (pointers : BackPointers tree) (isDir : IsDirectoryAt tree op.dir)
    (done : perform tree op = .ok after) : BackPointers after ↔ ReturnsHome tree op := by
  rcases perform_ok rooted isDir done with ⟨dir, path, current, rfl, walked⟩ |
    ⟨dir, path, data, middle, current, made, file, rfl, _, walked, added, written⟩
  · exact ⟨fun _ => trivial, fun _ => createAll_backPointers pointers walked⟩
  have leads := walk_createAll (Extends.refl tree) (.inl rfl) walked
  have pointersNow := createAll_backPointers pointers walked
  obtain ⟨header, exists_, _⟩ := isDir
  dsimp only [Op.dir] at exists_
  constructor
  · intro kept
    obtain ⟨count, place, _⟩ := added.behind
    obtain ⟨now, here, _, parent, _⟩ := written.forward added.new_header
    have right := kept.below current count now (place ▸ here)
    rw [parent, Option.some.injEq] at right
    rw [ReturnsHome, right]
    rcases leads with found | ⟨_, absent⟩
    · rw [right] at found
      exact found
    · rw [← right, exists_] at absent
      cases absent
  · intro home
    rw [ReturnsHome] at home
    rw [home, Option.some.injEq] at leads
    have same : dir = current := by
      rcases leads with same | ⟨impossible, _⟩
      · exact same
      · cases impossible
    exact written.backPointers (added.backPointers pointersNow (congrArg some same))

theorem rootDirectory_backPointers : BackPointers rootDirectory where
  root := ⟨_, rootDirectory_headers [], rfl⟩
  below := by
    intro dir position header found
    rw [rootDirectory_headers, if_neg (by simp)] at found
    cases found

theorem reachable_backPointers {tree : Node} (reachable : (callsMeeting ReturnsHome).Reachable tree) :
    Rooted tree ∧ BackPointers tree := by
  apply reachable.invariant fun tree => Rooted tree ∧ BackPointers tree
  · rintro _ rfl
    exact ⟨rootDirectory_rooted, rootDirectory_backPointers⟩
  · rintro tree op after ⟨rooted, pointers⟩ ⟨home, isDir, done⟩
    exact ⟨perform_rooted rooted isDir done, (perform_backPointers rooted pointers isDir done).mpr home⟩

/-- The pointers stay right as long as files land in the directory they are created on, and the
first call for which they do not breaks them. -/
theorem parentPointers_correct (tree : Node) :
    ((callsMeeting ReturnsHome).Reachable tree → BackPointers tree) ∧
    (∀ memory archive ops, archiveOps memory archive = .ok ops →
      MeetsAlong ReturnsHome rootDirectory ops → parseUSTAR memory archive = .ok tree →
      BackPointers tree) ∧
    ∀ op after, calls.Reachable tree → BackPointers tree → calls.step tree op after →
      (BackPointers after ↔ ReturnsHome tree op) := by
  refine ⟨fun reachable => (reachable_backPointers reachable).2, ?_, ?_⟩
  · intro memory archive ops collected meets parsed
    obtain ⟨others, same, run⟩ := parseUSTAR_run parsed
    rw [collected, Except.ok.injEq] at same
    subst same
    exact (reachable_backPointers (meetsAlong_reachable run meets (.start rfl))).2
  · rintro op after reachable pointers ⟨isDir, done⟩
    exact perform_backPointers (reachable_rooted reachable) pointers isDir done

/-- The file of `mkfile("a/b")` on the root is held by "a" and points to the root. -/
theorem mkfile_parent_not_holder : ∃ tree, calls.Reachable tree ∧ ¬BackPointers tree := by
  have made : perform rootDirectory (.mkfile [] [97, 47, 98] []) = .ok
      (.directory [47] none [.directory [97] (some []) [.file [98] (some []) []]]) := by rfl
  have step : calls.step rootDirectory (.mkfile [] [97, 47, 98] []) _ := ⟨⟨_, rfl, rfl⟩, made⟩
  refine ⟨_, .next (.start rfl) step, ?_⟩
  intro pointers
  have wrong := pointers.below [0] 0 ⟨[98], some [], some []⟩ rfl
  exact absurd wrong (by decide)

/-- A directory "a" with a file "f" that was created on it. -/
theorem parentPointers_correct_file : BackPointers
    (.directory [47] none [.directory [97] (some []) [.file [102] (some [0]) [1]]]) := by
  have first : (callsMeeting ReturnsHome).step rootDirectory (.mkdir [] [97])
      (.directory [47] none [.directory [97] (some []) []]) := ⟨trivial, ⟨_, rfl, rfl⟩, rfl⟩
  have second : (callsMeeting ReturnsHome).step (.directory [47] none [.directory [97] (some []) []])
      (.mkfile [0] [102] [1])
      (.directory [47] none [.directory [97] (some []) [.file [102] (some [0]) [1]]]) :=
    ⟨rfl, ⟨_, rfl, rfl⟩, rfl⟩
  apply (parentPointers_correct _).1
  exact .next (.next (.start rfl) first) second

end Parents

section Names

def UniqueNames (tree : Node) : Prop :=
  ∀ dir first second one other, headerAt tree (dir ++ [first]) = some one →
    headerAt tree (dir ++ [second]) = some other → simplified one.name = simplified other.name →
    first = second

def PlainNames (tree : Node) : Prop :=
  ∀ dir position header, headerAt tree (dir ++ [position]) = some header → kPathSeparator ∉ header.name

/-- Every node is the one that its name denotes in its directory. A name that simplifies to nothing or to the
dot denotes no child. -/
def Denotes (tree : Node) : Prop :=
  ∀ dir position header, headerAt tree (dir ++ [position]) = some header →
    simplified header.name ≠ [] → simplified header.name ≠ [kDot] →
    getNode tree dir header.name = .ok (some (dir ++ [position]))

/-- No component is reduced to nothing, and no empty one leads back to the root. -/
def Proper : Op → Prop
  | .mkdir _ path => Step.nameless ∉ pathSteps (simplified path)
  | .mkfile _ path _ =>
      Step.nameless ∉ dirSteps (simplified path) ∧ Step.root ∉ dirSteps (simplified path)

def FreshName (tree : Node) : Op → Prop
  | .mkdir _ _ => True
  | .mkfile dir path _ => ∀ target, walk tree (some dir) (dirSteps (simplified path)) = some target →
      childAt tree target (simplified (lastPiece (simplified path))) = none

theorem Denotes.of_unique {tree : Node} (unique : UniqueNames tree) (plain : PlainNames tree) :
    Denotes tree := by
  intro dir position header here nonempty notDot
  have separators := plain dir position header here
  rw [getNode, getNodeImpl_key (headerAt_below here) rfl nonempty notDot]
  · rw [Except.ok.injEq]
    refine childAt_eq_some.mpr ⟨position, rfl, ⟨header, here, rfl⟩, ?_⟩
    rintro earlier below ⟨other, found, same⟩
    have equal := unique dir earlier position other header found here same
    omega
  · rw [simplified_plain separators]
    exact strip_plain separators

theorem Added.uniqueNames {tree after : Node} {dir new : Cursor} {header : Header}
    (added : Added tree dir header after new) (unique : UniqueNames tree)
    (absent : childAt tree dir (simplified header.name) = none) : UniqueNames after := by
  obtain ⟨count, place, _⟩ := added.behind
  have different := childAt_eq_none.mp absent
  intro above first second one other here there same
  rcases added.cases here with ⟨atNew, rfl⟩ | old
  · rw [place] at atNew
    obtain ⟨rfl, sameCount⟩ := List.append_inj' atNew rfl
    rcases added.cases there with ⟨alsoNew, _⟩ | oldToo
    · rw [place] at alsoNew
      have equal := (List.append_inj' alsoNew rfl).2
      simp_all
    · exact absurd ⟨other, oldToo, same.symm⟩ (different second)
  · rcases added.cases there with ⟨atNew, rfl⟩ | oldToo
    · rw [place] at atNew
      obtain ⟨rfl, _⟩ := List.append_inj' atNew rfl
      exact absurd ⟨one, old, same⟩ (different first)
    · exact unique above first second one other old oldToo same

theorem Added.plainNames {tree after : Node} {dir new : Cursor} {header : Header}
    (added : Added tree dir header after new) (plain : PlainNames tree)
    (separators : kPathSeparator ∉ header.name) : PlainNames after := by
  intro above position found here
  rcases added.cases here with ⟨_, rfl⟩ | old
  · exact separators
  · exact plain above position found old

theorem Written.uniqueNames {tree after : Node} {file : Cursor} {data : List UInt8}
    (written : Written tree after file data) : UniqueNames after ↔ UniqueNames tree := by
  constructor
  · intro unique dir first second one other here there same
    obtain ⟨one', here', name, _⟩ := written.forward here
    obtain ⟨other', there', name', _⟩ := written.forward there
    exact unique dir first second one' other' here' there' (by rw [name, name', same])
  · intro unique dir first second one other here there same
    obtain ⟨one', here', name, _⟩ := written.cases here
    obtain ⟨other', there', name', _⟩ := written.cases there
    exact unique dir first second one' other' here' there' (by rw [name, name', same])

theorem Written.plainNames {tree after : Node} {file : Cursor} {data : List UInt8}
    (written : Written tree after file data) (plain : PlainNames tree) : PlainNames after := by
  intro dir position header here
  obtain ⟨old, was, name, _⟩ := written.cases here
  rw [← name]
  exact plain dir position old was

def WellNamed (step : Step) : Prop :=
  ∀ key stored, step = .child key stored → simplified stored = key ∧ kPathSeparator ∉ stored

theorem stepOf_wellNamed {piece : Text} (isPiece : IsPiece piece) : WellNamed (stepOf piece) := by
  intro key stored asked
  have known := isPiece.key
  unfold stepOf at asked
  dsimp only at asked
  split at asked
  · cases asked
  split at asked
  · cases asked
  split at asked
  · cases asked
  rename_i nonempty _ notRoot
  cases asked
  refine ⟨rfl, ?_⟩
  obtain ⟨name, plain, rfl | rfl⟩ := isPiece
  · rw [simplified_plain plain]
    exact strip_plain plain
  · rw [key_piece plain] at nonempty notRoot
    rw [simplified_piece plain]
    split
    · rename_i blank
      rw [if_pos blank] at notRoot
      exact absurd rfl notRoot
    · split
      · simp
      · exact fun member => plain (List.dropWhile_subset isspace member)

theorem pathSteps_wellNamed (path : Text) : ∀ step ∈ pathSteps path, WellNamed step := by
  intro step member
  obtain ⟨piece, inside, rfl⟩ := List.mem_map.mp member
  exact stepOf_wellNamed (pieces_isPiece path piece inside)

theorem dirSteps_wellNamed (path : Text) : ∀ step ∈ dirSteps path, WellNamed step := by
  intro step member
  obtain ⟨piece, inside, rfl⟩ := List.mem_map.mp member
  obtain ⟨name, plain, rfl⟩ := dirPieces_shape path piece inside
  exact stepOf_wellNamed (isPiece_dir plain)

theorem createAll_plainNames {tree after : Node} {dir current : Cursor} {steps : List Step}
    (named : ∀ step ∈ steps, WellNamed step) (plain : PlainNames tree)
    (done : createAll tree dir steps = .ok (after, current)) : PlainNames after := by
  refine createAll_induction ?_ named plain done
  rintro tree after dir new step name holds allowed added (⟨rfl, rfl⟩ | ⟨key, rfl, _⟩)
  · exact added.plainNames holds (by simp)
  · exact added.plainNames holds (allowed key name rfl).2

theorem createAll_uniqueNames {tree after : Node} {dir current : Cursor} {steps : List Step}
    (named : ∀ step ∈ steps, WellNamed step) (proper : Step.nameless ∉ steps) (unique : UniqueNames tree)
    (done : createAll tree dir steps = .ok (after, current)) : UniqueNames after := by
  have allowed : ∀ step ∈ steps, WellNamed step ∧ step ≠ .nameless :=
    fun step member => ⟨named step member, fun same => proper (same ▸ member)⟩
  refine createAll_induction ?_ allowed unique done
  rintro tree after dir new step name holds ⟨wellNamed, notNameless⟩ added (⟨rfl, _⟩ | ⟨key, rfl, absent⟩)
  · exact absurd rfl notNameless
  · apply added.uniqueNames holds
    rw [(wellNamed key name rfl).1]
    exact absent

theorem walk_empty {tree : Node} {dir place : Cursor} {steps : List Step}
    (empty : ∀ position, headerAt tree (dir ++ [position]) = none) (noRoot : Step.root ∉ steps)
    (leads : walk tree (some dir) steps = some place) : place = dir := by
  have lost : ∀ steps : List Step, Step.root ∉ steps → walk tree none steps = none := by
    intro steps noRoot
    induction steps with
    | nil => rfl
    | cons step rest ih =>
        have later := ih (fun member => noRoot (by simp [member]))
        cases step with
        | root => simp at noRoot
        | stay => exact later
        | nameless => exact later
        | child key stored => exact later
  induction steps with
  | nil => exact (Option.some.inj leads).symm
  | cons step rest ih =>
      have noLater : Step.root ∉ rest := fun member => noRoot (by simp [member])
      cases step with
      | root => simp at noRoot
      | stay => exact ih noLater leads
      | nameless =>
          rw [walk, lost rest noLater] at leads
          cases leads
      | child key stored =>
          have absent : childAt tree dir key = none := by
            refine childAt_eq_none.mpr ?_
            rintro position ⟨header, here, _⟩
            rw [empty position] at here
            cases here
          rw [walk, Option.bind_some, absent, lost rest noLater] at leads
          cases leads

theorem createAll_relative {tree after : Node} {dir current : Cursor} {steps : List Step}
    (noRoot : Step.root ∉ steps) (done : createAll tree dir steps = .ok (after, current)) :
    (after = tree ∧ walk tree (some dir) steps = some current) ∨
      ∀ position, headerAt after (current ++ [position]) = none := by
  induction steps generalizing tree dir with
  | nil =>
      simp only [createAll, Except.ok.injEq, Prod.mk.injEq] at done
      rw [← done.1, ← done.2]
      exact .inl ⟨rfl, rfl⟩
  | cons step rest ih =>
      simp only [createAll, bind_eq_ok, Prod.exists] at done
      obtain ⟨middle, next, first, later⟩ := done
      have noLater : Step.root ∉ rest := fun member => noRoot (by simp [member])
      rcases create_ok first with ⟨rfl, ⟨rfl, rfl⟩ | ⟨rfl, rfl⟩ | ⟨key, stored, rfl, known, _⟩⟩ |
        ⟨name, added, _⟩
      · simp at noRoot
      · exact ih noLater later
      · rcases ih noLater later with ⟨same, leads⟩ | empty
        · left
          rw [walk, Option.bind_some, known]
          exact ⟨same, leads⟩
        · exact .inr empty
      · have bare : ∀ position, headerAt middle (next ++ [position]) = none := by
          intro position
          rw [added.headers, if_neg (by simp)]
          exact headerAt_none_below added.fresh position
        rcases ih noLater later with ⟨rfl, leads⟩ | empty
        · rw [walk_empty bare noLater leads]
          exact .inr bare
        · exact .inr empty

/-- A proper call keeps sibling names apart exactly when the file name is fresh. -/
theorem perform_uniqueNames {tree after : Node} {op : Op} (rooted : Rooted tree)
    (unique : UniqueNames tree) (isDir : IsDirectoryAt tree op.dir) (proper : Proper op)
    (done : perform tree op = .ok after) : UniqueNames after ↔ FreshName tree op := by
  rcases perform_ok rooted isDir done with ⟨dir, path, current, rfl, walked⟩ |
    ⟨dir, path, data, middle, current, made, file, rfl, _, walked, added, written⟩
  · have named := pathSteps_wellNamed (simplified path)
    exact ⟨fun _ => trivial, fun _ => createAll_uniqueNames named proper unique walked⟩
  have named := dirSteps_wellNamed (simplified path)
  have uniqueNow := createAll_uniqueNames named proper.1 unique walked
  rw [written.uniqueNames]
  constructor
  · intro kept target leads
    rcases walk_createAll (Extends.refl tree) (.inl rfl) walked with found | ⟨outside, _⟩
    · rw [leads, Option.some.injEq] at found
      subst found
      refine childAt_eq_none.mpr ?_
      rintro position ⟨header, here, same⟩
      obtain ⟨count, place, bound⟩ := added.behind
      have still := createAll_extends walked _ _ here
      have below : position < count := (bound position).mp (by rw [still]; rfl)
      have equal := kept target position count header _ (added.keeps still) (place ▸ added.new_header) same
      omega
    · rw [leads] at outside
      cases outside
  · intro fresh
    apply added.uniqueNames uniqueNow
    rcases createAll_relative proper.2 walked with ⟨rfl, leads⟩ | empty
    · exact fresh current leads
    · refine childAt_eq_none.mpr ?_
      rintro position ⟨header, here, _⟩
      rw [empty position] at here
      cases here

theorem perform_plainNames {tree after : Node} {op : Op} (rooted : Rooted tree)
    (plain : PlainNames tree) (isDir : IsDirectoryAt tree op.dir)
    (done : perform tree op = .ok after) : PlainNames after := by
  rcases perform_ok rooted isDir done with ⟨dir, path, current, rfl, walked⟩ |
    ⟨dir, path, data, middle, current, made, file, rfl, _, walked, added, written⟩
  · exact createAll_plainNames (pathSteps_wellNamed _) plain walked
  · have plainNow := createAll_plainNames (dirSteps_wellNamed _) plain walked
    exact written.plainNames (added.plainNames plainNow (lastPiece_separator _))

theorem rootDirectory_names : UniqueNames rootDirectory ∧ PlainNames rootDirectory := by
  constructor
  · intro dir first second one other here
    rw [rootDirectory_headers, if_neg (by simp)] at here
    cases here
  · intro dir position header here
    rw [rootDirectory_headers, if_neg (by simp)] at here
    cases here

theorem reachable_plainNames {tree : Node} (reachable : calls.Reachable tree) : PlainNames tree := by
  have both : Rooted tree ∧ PlainNames tree := by
    apply reachable.invariant fun tree => Rooted tree ∧ PlainNames tree
    · rintro _ rfl
      exact ⟨rootDirectory_rooted, rootDirectory_names.2⟩
    · rintro tree op after ⟨rooted, plain⟩ ⟨isDir, done⟩
      exact ⟨perform_rooted rooted isDir done, perform_plainNames rooted plain isDir done⟩
  exact both.2

def KeepsNames (tree : Node) (op : Op) : Prop := Proper op ∧ FreshName tree op

theorem reachable_uniqueNames {tree : Node} (reachable : (callsMeeting KeepsNames).Reachable tree) :
    UniqueNames tree := by
  have both : Rooted tree ∧ UniqueNames tree := by
    apply reachable.invariant fun tree => Rooted tree ∧ UniqueNames tree
    · rintro _ rfl
      exact ⟨rootDirectory_rooted, rootDirectory_names.1⟩
    · rintro tree op after ⟨rooted, unique⟩ ⟨⟨proper, fresh⟩, isDir, done⟩
      exact ⟨perform_rooted rooted isDir done,
        (perform_uniqueNames rooted unique isDir proper done).mpr fresh⟩
  exact both.2

/-- Siblings keep different names, and names denote their nodes, as long as components are
proper and file names are fresh; among proper calls the first that is not fresh ends it. -/
theorem siblingNames_unique (tree : Node) :
    ((callsMeeting KeepsNames).Reachable tree → UniqueNames tree ∧ Denotes tree) ∧
    (∀ memory archive ops, archiveOps memory archive = .ok ops →
      MeetsAlong KeepsNames rootDirectory ops → parseUSTAR memory archive = .ok tree →
      UniqueNames tree ∧ Denotes tree) ∧
    ∀ op after, calls.Reachable tree → UniqueNames tree → Proper op → calls.step tree op after →
      (UniqueNames after ↔ FreshName tree op) := by
  have holds : (callsMeeting KeepsNames).Reachable tree → UniqueNames tree ∧ Denotes tree := by
    intro reachable
    have unique := reachable_uniqueNames reachable
    exact ⟨unique, Denotes.of_unique unique (reachable_plainNames (reachable_of_meeting reachable))⟩
  refine ⟨holds, ?_, ?_⟩
  · intro memory archive ops collected meets parsed
    obtain ⟨others, same, run⟩ := parseUSTAR_run parsed
    rw [collected, Except.ok.injEq] at same
    subst same
    exact holds (meetsAlong_reachable run meets (.start rfl))
  · rintro op after reachable unique proper ⟨isDir, done⟩
    exact perform_uniqueNames (reachable_rooted reachable) unique isDir proper done

/-- Creating the file "f" twice makes two nodes of that name. -/
theorem mkfile_twice_duplicates : ∃ tree, calls.Reachable tree ∧ ¬UniqueNames tree := by
  have first : calls.step rootDirectory (.mkfile [] [102] [])
      (.directory [47] none [.file [102] (some []) []]) := ⟨⟨_, rfl, rfl⟩, rfl⟩
  have second : calls.step (.directory [47] none [.file [102] (some []) []]) (.mkfile [] [102] [])
      (.directory [47] none [.file [102] (some []) [], .file [102] (some []) []]) := ⟨⟨_, rfl, rfl⟩, rfl⟩
  refine ⟨_, .next (.next (.start rfl) first) second, ?_⟩
  intro unique
  have equal := unique [] 0 1 _ _ rfl rfl rfl
  exact absurd equal (by decide)

/-- A directory "a" and a file "f" beside it. -/
theorem siblingNames_unique_two : UniqueNames
    (.directory [47] none [.directory [97] (some []) [], .file [102] (some []) [1]]) := by
  have proper : Step.nameless ∉ pathSteps (simplified [97]) := by decide
  have first : (callsMeeting KeepsNames).step rootDirectory (.mkdir [] [97])
      (.directory [47] none [.directory [97] (some []) []]) :=
    ⟨⟨proper, trivial⟩, ⟨_, rfl, rfl⟩, rfl⟩
  have fresh : FreshName (.directory [47] none [.directory [97] (some []) []]) (.mkfile [] [102] [1]) := by
    intro target leads
    cases leads
    rfl
  have second : (callsMeeting KeepsNames).step (.directory [47] none [.directory [97] (some []) []])
      (.mkfile [] [102] [1])
      (.directory [47] none [.directory [97] (some []) [], .file [102] (some []) [1]]) :=
    ⟨⟨⟨by decide, by decide⟩, fresh⟩, ⟨_, rfl, rfl⟩, rfl⟩
  exact ((siblingNames_unique _).1 (.next (.next (.start rfl) first) second)).1

end Names

end ToyKernel.Vfs
