import ToyKernel.Vfs.Nodes

/-!
The creation loops as walks. On a tree whose directories know their parents, `mkdir_once`
performs one step from the directory it is called on, and `mkdir` and `mkfile` perform the
steps of the pieces of their path one after the other.
-/

namespace ToyKernel.Vfs

open Library

structure Rooted (tree : Node) : Prop where
  root : ∃ header, headerAt tree [] = some header ∧ header.parent = none ∧ header.contents = none
  below : ∀ dir position header, headerAt tree (dir ++ [position]) = some header →
    header.contents = none → header.parent = some dir

section Reading

theorem nodesOf_eq {tree : Node} {dir : Cursor} {name : Text} {parent : Option Cursor}
    {nodes : List Node} (found : tree.at? dir = some (.directory name parent nodes)) :
    nodesOf tree dir = .ok nodes := by
  rw [nodesOf, found]

theorem castDirectory_eq {tree : Node} {dir : Cursor} (isDir : IsDirectoryAt tree dir) :
    castDirectory tree dir = .ok dir := by
  obtain ⟨name, parent, nodes, found⟩ := isDirectoryAt_iff.mp isDir
  rw [castDirectory, found]

theorem castDirectory_ok {tree : Node} {node dir : Cursor} (cast : castDirectory tree node = .ok dir) :
    dir = node ∧ IsDirectoryAt tree node := by
  unfold castDirectory at cast
  split at cast
  · rename_i name parent nodes found
    simp only [Except.ok.injEq] at cast
    exact ⟨cast.symm, isDirectoryAt_iff.mpr ⟨name, parent, nodes, found⟩⟩
  · cases cast
  · cases cast

theorem dynCastDirectory_eq {tree : Node} {dir : Cursor} (isDir : IsDirectoryAt tree dir) :
    dynCastDirectory tree dir = some dir := by
  obtain ⟨name, parent, nodes, found⟩ := isDirectoryAt_iff.mp isDir
  rw [dynCastDirectory, found]

theorem dynCastDirectory_eq_some {tree : Node} {node dir : Cursor}
    (cast : dynCastDirectory tree node = some dir) : dir = node ∧ IsDirectoryAt tree node := by
  unfold dynCastDirectory at cast
  split at cast
  · rename_i name parent nodes found
    simp only [Option.some.injEq] at cast
    exact ⟨cast.symm, isDirectoryAt_iff.mpr ⟨name, parent, nodes, found⟩⟩
  · cases cast

theorem dynCastFile_eq {tree : Node} {file : Cursor} (isFile : IsFileAt tree file) :
    dynCastFile tree file = some file := by
  obtain ⟨name, parent, contents, found⟩ := isFileAt_iff.mp isFile
  rw [dynCastFile, found]

theorem dynCastFile_eq_some {tree : Node} {node file : Cursor}
    (cast : dynCastFile tree node = some file) : file = node ∧ IsFileAt tree node := by
  unfold dynCastFile at cast
  split at cast
  · rename_i name parent contents found
    simp only [Option.some.injEq] at cast
    exact ⟨cast.symm, isFileAt_iff.mpr ⟨name, parent, contents, found⟩⟩
  · cases cast

theorem headerAt_some_at {tree : Node} {cursor : Cursor} {header : Header}
    (found : headerAt tree cursor = some header) : ∃ node, tree.at? cursor = some node ∧
      node.header = header := by
  rw [headerAt, Option.map_eq_some_iff] at found
  exact found

theorem rootDirLoop_eq {tree : Node} (rooted : Rooted tree) {dir : Cursor} {fuel : Nat}
    (enough : dir.length < fuel) (isDir : IsDirectoryAt tree dir) : rootDirLoop tree fuel dir = .ok [] := by
  induction fuel generalizing dir with
  | zero => omega
  | succ fuel ih =>
      obtain ⟨header, found, noContents⟩ := isDir
      obtain ⟨node, here, same⟩ := headerAt_some_at found
      have parent : node.parent = header.parent := by
        rw [← same]
        cases node <;> rfl
      rw [rootDirLoop, here]
      rcases List.eq_nil_or_concat' dir with rfl | ⟨above, position, rfl⟩
      · obtain ⟨rootHeader, rootFound, noParent, _⟩ := rooted.root
        rw [rootFound, Option.some.injEq] at found
        rw [found] at noParent
        simp only [parent, noParent]
        exact castDirectory_eq ⟨header, rootFound.trans (congrArg some found), noContents⟩
      · have up := rooted.below above position header found noContents
        simp only [parent, up]
        apply ih
        · rw [List.length_append, List.length_singleton] at enough
          omega
        · exact headerAt_below found

theorem getRootDir_eq {tree : Node} (rooted : Rooted tree) {dir : Cursor} (isDir : IsDirectoryAt tree dir) :
    getRootDir tree dir = .ok [] :=
  rootDirLoop_eq rooted (Nat.lt_succ_self _) isDir

theorem splitHead_plain {name : Text} (plain : kPathSeparator ∉ name) : splitHead name = (name, []) := by
  have first : name.headD 0 ≠ kPathSeparator := by
    cases name with
    | nil => decide
    | cons c rest => exact fun same => plain (by simpa using .inl same.symm)
  rw [splitHead, if_neg first, find_plain plain]
  simp

theorem getNodeImpl_key {tree : Node} {dir : Cursor} {path key : Text} {fuel : Nat}
    (isDir : IsDirectoryAt tree dir) (simple : simplified path = key) (nonempty : key ≠ [])
    (notDot : key ≠ [kDot]) (plain : kPathSeparator ∉ key) :
    getNodeImpl tree (fuel + 1) dir path = .ok (childAt tree dir key) := by
  obtain ⟨name, parent, nodes, found⟩ := isDirectoryAt_iff.mp isDir
  have notRoot : key ≠ [kPathSeparator] := fun same => plain (by simp [same])
  rw [getNodeImpl, simplifyName_eq, ok_bind, simple, if_neg nonempty, if_neg notDot, if_neg notRoot,
    splitHead_plain plain]
  dsimp only
  rw [if_neg notRoot, if_pos rfl, nodesOf_eq found, ok_bind, findNode_eq, ok_bind, childAt, found]
  rfl

end Reading

section Adding

structure Added (tree : Node) (dir : Cursor) (header : Header) (after : Node) (new : Cursor) : Prop where
  isDir : IsDirectoryAt tree dir
  behind : ∃ count, new = dir ++ [count] ∧
    ∀ position, (headerAt tree (dir ++ [position])).isSome ↔ position < count
  headers : ∀ query, headerAt after query = if query = new then some header else headerAt tree query

theorem addNode_eq {tree : Node} {dir : Cursor} (isDir : IsDirectoryAt tree dir) {child : Node}
    (leaf : child.nodes = []) :
    ∃ after new, addNode tree dir child = .ok (after, new) ∧ Added tree dir child.header after new := by
  obtain ⟨name, parent, nodes, found⟩ := isDirectoryAt_iff.mp isDir
  refine ⟨_, _, by rw [addNode, nodesOf_eq found]; rfl, isDir, ⟨nodes.length, rfl, ?_⟩, ?_⟩
  · intro position
    simp [headerAt_concat found, Node.nodes]
  · exact headerAt_push found leaf

theorem addNode_ok {tree after : Node} {dir new : Cursor} {child : Node}
    (added : addNode tree dir child = .ok (after, new)) (leaf : child.nodes = []) :
    Added tree dir child.header after new := by
  cases found : nodesOf tree dir with
  | error fault =>
      rw [addNode, found] at added
      cases added
  | ok nodes =>
      have isDir : IsDirectoryAt tree dir := by
        unfold nodesOf at found
        split at found
        · rename_i name parent nodes here
          exact isDirectoryAt_iff.mpr ⟨name, parent, nodes, here⟩
        · cases found
      obtain ⟨other, place, same, spec⟩ := addNode_eq isDir leaf
      rw [added, Except.ok.injEq, Prod.mk.injEq] at same
      rw [same.1, same.2]
      exact spec

variable {tree after : Node} {dir new : Cursor} {header : Header}

theorem Added.fresh (added : Added tree dir header after new) : headerAt tree new = none := by
  obtain ⟨count, rfl, bound⟩ := added.behind
  have absent := (bound count).not.mpr (Nat.lt_irrefl count)
  simpa using absent

theorem Added.keeps (added : Added tree dir header after new) {query : Cursor} {old : Header}
    (found : headerAt tree query = some old) : headerAt after query = some old := by
  rw [added.headers, if_neg]
  · exact found
  · rintro rfl
    rw [added.fresh] at found
    cases found

theorem Added.new_header (added : Added tree dir header after new) : headerAt after new = some header := by
  rw [added.headers, if_pos rfl]

theorem Added.cases (added : Added tree dir header after new) {query : Cursor} {found : Header}
    (here : headerAt after query = some found) :
    (query = new ∧ found = header) ∨ headerAt tree query = some found := by
  rw [added.headers] at here
  split at here
  · rename_i same
    exact .inl ⟨same, (Option.some.inj here).symm⟩
  · exact .inr here

theorem Added.rooted (added : Added tree dir header after new) (rooted : Rooted tree)
    (parent : header.contents = none → header.parent = some dir) : Rooted after where
  root := by
    obtain ⟨old, found, facts⟩ := rooted.root
    exact ⟨old, added.keeps found, facts⟩
  below := by
    intro above position found here isDirectory
    obtain ⟨count, place, _⟩ := added.behind
    rcases added.cases here with ⟨same, rfl⟩ | old
    · rw [place] at same
      rw [(List.append_inj' same rfl).1]
      exact parent isDirectory
    · exact rooted.below above position found old isDirectory

end Adding

section Steps

def create (tree : Node) (dir : Cursor) : Step → Except Fault (Node × Cursor)
  | .root => .ok (tree, [])
  | .stay => .ok (tree, dir)
  | .nameless => addNode tree dir (.directory [] (some dir) [])
  | .child key stored =>
      match childAt tree dir key with
      | some node => do
          let found ← castDirectory tree node
          return (tree, found)
      | none => addNode tree dir (.directory stored (some dir) [])

def createAll (tree : Node) (dir : Cursor) : List Step → Except Fault (Node × Cursor)
  | [] => .ok (tree, dir)
  | step :: rest => do
      let (tree, dir) ← create tree dir step
      createAll tree dir rest

theorem createAll_cons (tree : Node) (dir : Cursor) (step : Step) (rest : List Step) :
    createAll tree dir (step :: rest) = (do
      let (tree, dir) ← create tree dir step
      createAll tree dir rest) := rfl

def pathSteps (path : Text) : List Step := (pieces path).map stepOf

def dirSteps (path : Text) : List Step := (dirPieces path).map stepOf

theorem mkdirOnce_eq {tree : Node} {dir : Cursor} {piece : Text} (rooted : Rooted tree)
    (isDir : IsDirectoryAt tree dir) (isPiece : IsPiece piece) :
    mkdirOnce tree dir piece = create tree dir (stepOf piece) := by
  have known := isPiece.key
  have unnamed := isPiece.stored
  rw [mkdirOnce, simplifyName_eq, ok_bind]
  unfold stepOf
  generalize simplified piece = stored at known unnamed
  generalize simple : simplified stored = key at known unnamed
  dsimp only
  rw [simple]
  by_cases empty : key = []
  · rw [if_pos empty, getNode, getNodeImpl, simplifyName_eq, ok_bind, simple, if_pos empty,
      unnamed empty]
    rfl
  rw [if_neg empty]
  by_cases dot : key = [kDot]
  · rw [if_pos dot, getNode, getNodeImpl, simplifyName_eq, ok_bind, simple, if_neg empty, if_pos dot]
    simp [castDirectory_eq isDir, create, pure, Except.pure]
  rw [if_neg dot]
  by_cases root : key = [kPathSeparator]
  · have rootIsDir : IsDirectoryAt tree [] := by
      obtain ⟨header, found, _, noContents⟩ := rooted.root
      exact ⟨header, found, noContents⟩
    rw [if_pos root, getNode, getNodeImpl, simplifyName_eq, ok_bind, simple, if_neg empty, if_neg dot,
      if_pos root, getRootDir_eq rooted isDir]
    simp [castDirectory_eq rootIsDir, create, pure, Except.pure]
  · rw [if_neg root, getNode, getNodeImpl_key isDir simple empty dot (known.resolve_left root), ok_bind]
    cases found : childAt tree dir key <;> simp only [create, found]

/-- What a step leaves: the directory it found, or one that it added. -/
theorem create_ok {tree after : Node} {dir current : Cursor} {step : Step}
    (done : create tree dir step = .ok (after, current)) :
    (after = tree ∧ ((step = .root ∧ current = []) ∨ (step = .stay ∧ current = dir) ∨
      ∃ key stored, step = .child key stored ∧ childAt tree dir key = some current ∧
        IsDirectoryAt tree current)) ∨
    ∃ name, Added tree dir ⟨name, some dir, none⟩ after current ∧
      ((step = .nameless ∧ name = []) ∨
        ∃ key, step = .child key name ∧ childAt tree dir key = none) := by
  cases step with
  | root =>
      simp only [create, Except.ok.injEq, Prod.mk.injEq] at done
      exact .inl ⟨done.1.symm, .inl ⟨rfl, done.2.symm⟩⟩
  | stay =>
      simp only [create, Except.ok.injEq, Prod.mk.injEq] at done
      exact .inl ⟨done.1.symm, .inr (.inl ⟨rfl, done.2.symm⟩)⟩
  | nameless => exact .inr ⟨[], addNode_ok done rfl, .inl ⟨rfl, rfl⟩⟩
  | child key stored =>
      rw [create] at done
      cases known : childAt tree dir key with
      | none =>
          rw [known] at done
          exact .inr ⟨stored, addNode_ok done rfl, .inr ⟨key, rfl, known⟩⟩
      | some node =>
          simp only [known, bind_eq_ok, pure_eq_ok, Prod.mk.injEq] at done
          obtain ⟨found, cast, same, rfl⟩ := done
          obtain ⟨rfl, isDir⟩ := castDirectory_ok cast
          exact .inl ⟨same.symm, .inr (.inr ⟨key, stored, rfl, known, isDir⟩)⟩

theorem rooted_isDirectory {tree : Node} (rooted : Rooted tree) : IsDirectoryAt tree [] := by
  obtain ⟨header, found, _, noContents⟩ := rooted.root
  exact ⟨header, found, noContents⟩

theorem create_rooted {tree after : Node} {dir current : Cursor} {step : Step} (rooted : Rooted tree)
    (isDir : IsDirectoryAt tree dir) (done : create tree dir step = .ok (after, current)) :
    Rooted after ∧ IsDirectoryAt after current := by
  rcases create_ok done with ⟨rfl, ⟨_, rfl⟩ | ⟨_, rfl⟩ | ⟨_, _, _, _, found⟩⟩ | ⟨name, added, _⟩
  · exact ⟨rooted, rooted_isDirectory rooted⟩
  · exact ⟨rooted, isDir⟩
  · exact ⟨rooted, found⟩
  · exact ⟨added.rooted rooted fun _ => rfl, _, added.new_header, rfl⟩

theorem createAll_rooted {tree after : Node} {dir current : Cursor} {steps : List Step}
    (rooted : Rooted tree) (isDir : IsDirectoryAt tree dir)
    (done : createAll tree dir steps = .ok (after, current)) :
    Rooted after ∧ IsDirectoryAt after current := by
  induction steps generalizing tree dir with
  | nil =>
      simp only [createAll, Except.ok.injEq, Prod.mk.injEq] at done
      rw [← done.1, ← done.2]
      exact ⟨rooted, isDir⟩
  | cons step rest ih =>
      simp only [createAll, bind_eq_ok, Prod.exists] at done
      obtain ⟨middle, next, first, later⟩ := done
      obtain ⟨stillRooted, isNext⟩ := create_rooted rooted isDir first
      exact ih stillRooted isNext later

end Steps

section Loops

theorem erase_piece {path : Text} (nonempty : path ≠ []) (count : Nat) :
    erase path 0 (count + 1) = .ok (path.drop (count + 1)) := by
  simp [erase, require, List.length_pos_of_ne_nil nonempty]

theorem take_split (front rest : Text) :
    (front ++ kPathSeparator :: rest).take (front.length + 1) = front ++ [kPathSeparator] := by
  rw [List.take_append, List.take_of_length_le (by omega), Nat.add_sub_cancel_left]
  rfl

theorem drop_split (front rest : Text) :
    (front ++ kPathSeparator :: rest).drop (front.length + 1) = rest := by
  rw [List.drop_append, List.drop_of_length_le (by omega), Nat.add_sub_cancel_left]
  rfl

theorem mkdirLoop_nil (fuel : Nat) (tree : Node) (dir : Cursor) :
    mkdirLoop fuel tree dir [] = .ok (tree, dir) := by
  cases fuel <;> rw [mkdirLoop, if_pos rfl]

theorem mkdirLoop_eq {tree : Node} {dir : Cursor} {fuel : Nat} {path : Text} (rooted : Rooted tree)
    (isDir : IsDirectoryAt tree dir) (enough : path.length ≤ fuel) :
    mkdirLoop fuel tree dir path = createAll tree dir (pathSteps path) := by
  induction path using pathInduction generalizing tree dir fuel with
  | plain path plain =>
      by_cases empty : path = []
      · subst empty
        exact mkdirLoop_nil fuel tree dir
      obtain ⟨fuel, rfl⟩ := Nat.exists_eq_succ_of_ne_zero
        (show fuel ≠ 0 by have := List.length_pos_of_ne_nil empty; omega)
      rw [mkdirLoop, if_neg empty, pathSteps, pieces_plain plain empty, List.map_cons, List.map_nil]
      dsimp only
      rw [find_plain plain, List.take_of_length_le (by omega), erase_piece empty,
        List.drop_of_length_le (by omega), mkdirOnce_eq rooted isDir (isPiece_plain plain), createAll_cons]
      simp only [ok_bind, mkdirLoop_nil, createAll]
  | split front rest plain ih =>
      have nonempty : front ++ kPathSeparator :: rest ≠ [] := by simp
      rw [List.length_append, List.length_cons] at enough
      obtain ⟨fuel, rfl⟩ := Nat.exists_eq_succ_of_ne_zero (show fuel ≠ 0 by omega)
      rw [mkdirLoop, if_neg nonempty, pathSteps, pieces_split plain, List.map_cons]
      dsimp only
      rw [find_split plain, take_split, erase_piece nonempty, drop_split,
        mkdirOnce_eq rooted isDir (isPiece_dir plain), createAll_cons]
      cases first : create tree dir (stepOf (front ++ [kPathSeparator])) with
      | error fault => rfl
      | ok result =>
          obtain ⟨after, current⟩ := result
          obtain ⟨stillRooted, isCurrent⟩ := create_rooted rooted isDir first
          exact ih stillRooted isCurrent (by omega)

theorem mkfileLoop_eq {tree : Node} {dir : Cursor} {fuel : Nat} {path : Text} (rooted : Rooted tree)
    (isDir : IsDirectoryAt tree dir) (enough : path.length ≤ fuel) :
    mkfileLoop fuel tree dir path = (do
      let (after, current) ← createAll tree dir (dirSteps path)
      return (after, current, lastPiece path)) := by
  induction path using pathInduction generalizing tree dir fuel with
  | plain path plain =>
      rw [mkfileLoop.eq_def, dirSteps, dirPieces_plain plain, lastPiece_plain plain]
      dsimp only
      rw [if_pos (find_plain plain)]
      rfl
  | split front rest plain ih =>
      have nonempty : front ++ kPathSeparator :: rest ≠ [] := by simp
      rw [List.length_append, List.length_cons] at enough
      obtain ⟨fuel, rfl⟩ := Nat.exists_eq_succ_of_ne_zero (show fuel ≠ 0 by omega)
      rw [mkfileLoop, dirSteps, dirPieces_split plain, lastPiece_split plain, List.map_cons]
      dsimp only
      rw [find_split plain, if_neg (by simp), take_split, erase_piece nonempty, drop_split,
        mkdirOnce_eq rooted isDir (isPiece_dir plain), createAll_cons]
      cases first : create tree dir (stepOf (front ++ [kPathSeparator])) with
      | error fault => rfl
      | ok result =>
          obtain ⟨after, current⟩ := result
          obtain ⟨stillRooted, isCurrent⟩ := create_rooted rooted isDir first
          exact ih stillRooted isCurrent (by omega)

theorem mkdir_eq {tree : Node} {dir : Cursor} (rooted : Rooted tree) (isDir : IsDirectoryAt tree dir)
    (name : Text) : mkdir tree dir name = createAll tree dir (pathSteps (simplified name)) := by
  rw [mkdir, simplifyName_eq, ok_bind, mkdirLoop_eq rooted isDir (Nat.le_refl _)]

/-- `mkfile` creates the directories of the path and then the file, whose parent is the
directory it was called on. -/
theorem mkfile_ok {tree after : Node} {dir file : Cursor} {name : Text} (rooted : Rooted tree)
    (isDir : IsDirectoryAt tree dir) (made : mkfile tree dir name = .ok (after, file)) :
    (simplified name).headD 0 ≠ kPathSeparator ∧ lastPiece (simplified name) ≠ [] ∧
    ∃ middle current, createAll tree dir (dirSteps (simplified name)) = .ok (middle, current) ∧
      Added middle current ⟨lastPiece (simplified name), some dir, some []⟩ after file := by
  rw [mkfile, simplifyName_eq, ok_bind, mkfileLoop_eq rooted isDir (Nat.le_refl _)] at made
  simp only [bind_eq_ok, require_eq_ok, pure_eq_ok, Prod.exists, Prod.mk.injEq] at made
  obtain ⟨_, relative, middle, current, last, ⟨_, _, walked, rfl, rfl, rfl⟩, _, nonempty, added⟩ := made
  exact ⟨relative, nonempty, _, _, walked, addNode_ok added rfl⟩

end Loops

end ToyKernel.Vfs
