import ToyKernel.Vfs.Runs

/-!
Lookup as a sequence of moves. How `GetNodeImpl` splits a path does not depend on the tree, so
its recursion is a list of moves computed from the path, followed from the directory of the
call.
-/

namespace ToyKernel.Vfs

open Library

inductive Move
  | root
  | missing
  | enter
  | child (key : Text)
deriving DecidableEq, Repr

def follow (tree : Node) : Cursor → List Move → Option Cursor
  | place, [] => some place
  | _, .root :: rest => follow tree [] rest
  | _, .missing :: _ => none
  | place, .enter :: rest => (dynCastDirectory tree place).bind fun dir => follow tree dir rest
  | place, .child key :: rest => (childAt tree place key).bind fun child => follow tree child rest

def moves : Nat → Text → List Move
  | 0, _ => [.missing]
  | fuel + 1, path =>
      let name := simplified path
      if name = [] then [.missing]
      else if name = [kDot] then []
      else if name = [kPathSeparator] then [.root]
      else
        let (head, tail) := splitHead name
        if head = [kPathSeparator] then .root :: moves fuel tail
        else if tail = [] then [.child head]
        else moves fuel head ++ .enter :: moves fuel tail

def lookupMoves (path : Text) : List Move := moves (path.length + 1) path

section Following

variable {tree : Node}

theorem follow_append (place : Cursor) (front back : List Move) :
    follow tree place (front ++ back) =
      (follow tree place front).bind fun middle => follow tree middle back := by
  induction front generalizing place with
  | nil => rfl
  | cons move rest ih =>
      cases move with
      | root => exact ih []
      | missing => rfl
      | enter =>
          rw [List.cons_append, follow, follow, Option.bind_assoc]
          exact Option.bind_congr fun dir _ => ih dir
      | child key =>
          rw [List.cons_append, follow, follow, Option.bind_assoc]
          exact Option.bind_congr fun child _ => ih child

theorem follow_single (place : Cursor) (key : Text) :
    follow tree place [.child key] = childAt tree place key := by
  rw [follow]
  cases childAt tree place key <;> rfl

theorem follow_enter {place : Cursor} (isDir : IsDirectoryAt tree place) (rest : List Move) :
    follow tree place (.enter :: rest) = follow tree place rest := by
  rw [follow, dynCastDirectory_eq isDir, Option.bind_some]

theorem follow_through {place target : Cursor} {front rest : List Move}
    (reached : follow tree place (front ++ .enter :: rest) = some target) :
    ∃ next, IsDirectoryAt tree next ∧ follow tree next rest = some target := by
  rw [follow_append] at reached
  obtain ⟨middle, _, entered⟩ := Option.bind_eq_some_iff.mp reached
  obtain ⟨dir, cast, onward⟩ := Option.bind_eq_some_iff.mp entered
  obtain ⟨rfl, isDir⟩ := dynCastDirectory_eq_some cast
  exact ⟨dir, isDir, onward⟩

end Following

section Lengths

theorem strip_length (name : Text) : (strip name).length ≤ name.length := by
  have front := (List.rdropWhile_prefix isspace (name.dropWhile isspace)).length_le
  have back : (name.dropWhile isspace).length ≤ name.length := (List.dropWhile_suffix isspace).length_le
  exact front.trans back

theorem simplified_length (name : Text) : (simplified name).length ≤ name.length := by
  have stripped := strip_length name
  have dotted : (trimDot (strip name)).length ≤ (strip name).length := by
    rw [trimDot_eq]
    split
    · rw [List.length_drop]
      omega
    · exact Nat.le_refl _
  have slashed : ∀ text : Text, (trimSlash text).length ≤ text.length := by
    intro text
    unfold trimSlash
    split
    · exact Nat.le_refl _
    · split
      · rw [List.length_take]
        omega
      · exact Nat.le_refl _
  have last := slashed (trimDot (strip name))
  rw [simplified]
  omega

theorem splitHead_split {front : Text} (plain : kPathSeparator ∉ front) (nonempty : front ≠ [])
    (rest : Text) : splitHead (front ++ kPathSeparator :: rest) = (front, rest) := by
  have first : (front ++ kPathSeparator :: rest).headD 0 ≠ kPathSeparator := by
    cases front with
    | nil => exact absurd rfl nonempty
    | cons c front => exact fun same => plain (by simpa using .inl same.symm)
  rw [splitHead, if_neg first, find_split plain]
  simp

theorem splitHead_root (rest : Text) :
    splitHead (kPathSeparator :: rest) = ([kPathSeparator], rest) := rfl

theorem splitHead_shorter (name : Text) (nonempty : name ≠ []) :
    (splitHead name).2.length < name.length ∧
      ((splitHead name).2 ≠ [] → (splitHead name).1.length < name.length ∨
        (splitHead name).1 = [kPathSeparator]) := by
  rcases plain_or_split name with plain | ⟨front, rest, plain, rfl⟩
  · rw [splitHead_plain plain]
    exact ⟨List.length_pos_of_ne_nil nonempty, fun more => absurd rfl more⟩
  · by_cases empty : front = []
    · subst empty
      rw [List.nil_append, splitHead_root]
      exact ⟨by simp, fun _ => .inr rfl⟩
    · rw [splitHead_split plain empty]
      simp only [List.length_append, List.length_cons]
      exact ⟨by omega, fun _ => .inl (by omega)⟩

theorem moves_fuel {path : Text} {one other : Nat} (enough : path.length < one)
    (plenty : path.length < other) : moves one path = moves other path := by
  induction one generalizing path other with
  | zero => omega
  | succ one ih =>
      obtain ⟨other, rfl⟩ := Nat.exists_eq_succ_of_ne_zero (show other ≠ 0 by omega)
      have shorter := simplified_length path
      rw [moves, moves]
      dsimp only
      by_cases empty : simplified path = []
      · rw [if_pos empty, if_pos empty]
      have bounds := splitHead_shorter _ empty
      rw [if_neg empty, if_neg empty]
      by_cases dot : simplified path = [kDot]
      · rw [if_pos dot, if_pos dot]
      rw [if_neg dot, if_neg dot]
      by_cases root : simplified path = [kPathSeparator]
      · rw [if_pos root, if_pos root]
      rw [if_neg root, if_neg root]
      by_cases absolute : (splitHead (simplified path)).1 = [kPathSeparator]
      · have tail : moves one (splitHead (simplified path)).2 = moves other (splitHead (simplified path)).2 :=
          ih (by omega) (by omega)
        rw [if_pos absolute, if_pos absolute, tail]
      rw [if_neg absolute, if_neg absolute]
      by_cases single : (splitHead (simplified path)).2 = []
      · rw [if_pos single, if_pos single]
      have smaller := (bounds.2 single).resolve_right absolute
      have head : moves one (splitHead (simplified path)).1 = moves other (splitHead (simplified path)).1 :=
        ih (by omega) (by omega)
      have tail : moves one (splitHead (simplified path)).2 = moves other (splitHead (simplified path)).2 :=
        ih (by omega) (by omega)
      rw [if_neg single, if_neg single, head, tail]

theorem lookupMoves_fuel {path : Text} {fuel : Nat} (enough : path.length < fuel) :
    moves fuel path = lookupMoves path :=
  moves_fuel enough (Nat.lt_succ_self _)

end Lengths

section Names

def nameMoves (name : Text) : List Move :=
  if name = [] then [.missing]
  else if name = [kDot] then []
  else if name = [kPathSeparator] then [.root]
  else if (splitHead name).1 = [kPathSeparator] then .root :: lookupMoves (splitHead name).2
  else if (splitHead name).2 = [] then [.child (splitHead name).1]
  else lookupMoves (splitHead name).1 ++ .enter :: lookupMoves (splitHead name).2

theorem lookupMoves_eq (path : Text) : lookupMoves path = nameMoves (simplified path) := by
  have shorter := simplified_length path
  rw [lookupMoves, moves, nameMoves]
  dsimp only
  by_cases empty : simplified path = []
  · rw [if_pos empty, if_pos empty]
  have bounds := splitHead_shorter _ empty
  rw [if_neg empty, if_neg empty]
  by_cases dot : simplified path = [kDot]
  · rw [if_pos dot, if_pos dot]
  rw [if_neg dot, if_neg dot]
  by_cases root : simplified path = [kPathSeparator]
  · rw [if_pos root, if_pos root]
  rw [if_neg root, if_neg root]
  by_cases absolute : (splitHead (simplified path)).1 = [kPathSeparator]
  · rw [if_pos absolute, if_pos absolute, lookupMoves_fuel (by omega)]
  rw [if_neg absolute, if_neg absolute]
  by_cases single : (splitHead (simplified path)).2 = []
  · rw [if_pos single, if_pos single]
  have smaller := (bounds.2 single).resolve_right absolute
  rw [if_neg single, if_neg single, lookupMoves_fuel (by omega), lookupMoves_fuel (by omega)]

theorem nameMoves_plain {name : Text} (plain : kPathSeparator ∉ name) :
    nameMoves name = if name = [] then [.missing] else if name = [kDot] then [] else [.child name] := by
  have notRoot : name ≠ [kPathSeparator] := fun same => plain (by simp [same])
  unfold nameMoves
  rw [splitHead_plain plain, if_neg notRoot, if_neg notRoot, if_pos rfl]

theorem lookupMoves_plain {name : Text} (plain : kPathSeparator ∉ name) : lookupMoves name =
    if strip name = [] then [.missing] else if strip name = [kDot] then [] else [.child (strip name)] := by
  rw [lookupMoves_eq, simplified_plain plain, nameMoves_plain (strip_plain plain)]

theorem nameMoves_root {rest : Text} (more : rest ≠ []) :
    nameMoves (kPathSeparator :: rest) = .root :: lookupMoves rest := by
  unfold nameMoves
  rw [splitHead_root, if_neg (by simp), if_neg (by simp [kPathSeparator, kDot]), if_neg (by simpa using more),
    if_pos rfl]

theorem nameMoves_split {front rest : Text} (plain : kPathSeparator ∉ front) (nonempty : front ≠ [])
    (more : rest ≠ []) : nameMoves (front ++ kPathSeparator :: rest) =
      lookupMoves front ++ .enter :: lookupMoves rest := by
  have notRoot : front ≠ [kPathSeparator] := fun same => plain (by simp [same])
  have long : 2 ≤ (front ++ kPathSeparator :: rest).length := by
    have first := List.length_pos_of_ne_nil nonempty
    rw [List.length_append, List.length_cons]
    omega
  have notSingle : ∀ c : UInt8, front ++ kPathSeparator :: rest ≠ [c] := by
    intro c same
    rw [same] at long
    simp at long
  unfold nameMoves
  rw [splitHead_split plain nonempty, if_neg (by simp), if_neg (notSingle _), if_neg (notSingle _),
    if_neg notRoot, if_neg more]

theorem getNodeImpl_eq {tree : Node} {dir : Cursor} {path : Text} {fuel : Nat} (rooted : Rooted tree)
    (isDir : IsDirectoryAt tree dir) (enough : path.length < fuel) :
    getNodeImpl tree fuel dir path = .ok (follow tree dir (moves fuel path)) := by
  induction fuel generalizing dir path with
  | zero => omega
  | succ fuel ih =>
      have shorter := simplified_length path
      rw [getNodeImpl, simplifyName_eq, ok_bind, moves]
      dsimp only
      by_cases empty : simplified path = []
      · rw [if_pos empty, if_pos empty]
        rfl
      have bounds := splitHead_shorter _ empty
      rw [if_neg empty, if_neg empty]
      by_cases dot : simplified path = [kDot]
      · rw [if_pos dot, if_pos dot]
        rfl
      rw [if_neg dot, if_neg dot]
      by_cases root : simplified path = [kPathSeparator]
      · rw [if_pos root, if_pos root, getRootDir_eq rooted isDir]
        rfl
      rw [if_neg root, if_neg root]
      by_cases absolute : (splitHead (simplified path)).1 = [kPathSeparator]
      · rw [if_pos absolute, if_pos absolute, getRootDir_eq rooted isDir, ok_bind,
          ih (rooted_isDirectory rooted) (by omega)]
        rfl
      rw [if_neg absolute, if_neg absolute]
      by_cases single : (splitHead (simplified path)).2 = []
      · obtain ⟨name, parent, nodes, found⟩ := isDirectoryAt_iff.mp isDir
        rw [if_pos single, if_pos single, nodesOf_eq found, ok_bind, findNode_eq, ok_bind, follow_single,
          childAt, found]
        rfl
      have smaller := (bounds.2 single).resolve_right absolute
      rw [if_neg single, if_neg single, ih isDir (by omega), ok_bind, follow_append]
      cases first : follow tree dir (moves fuel (splitHead (simplified path)).1) with
      | none => rfl
      | some found =>
          rw [Option.bind_some, Option.bind_some, follow]
          cases cast : dynCastDirectory tree found with
          | none => rfl
          | some subdir =>
              obtain ⟨rfl, isSubdir⟩ := dynCastDirectory_eq_some cast
              exact ih isSubdir (by omega)

def Solid (path : Text) : Prop := isspace (path.getLastD 0) = false

theorem strip_solid (name : Text) : Solid (strip name) := by
  unfold Solid
  by_cases empty : strip name = []
  · rw [empty]
    decide
  · rw [List.getLastD_eq_getLast?, List.getLast?_eq_some_getLast empty]
    have last := List.rdropWhile_last_not isspace (name.dropWhile isspace) empty
    exact Bool.eq_false_iff.mpr last

theorem solid_split {front rest : Text} : Solid (front ++ kPathSeparator :: rest) ↔ Solid rest := by
  unfold Solid
  cases rest with
  | nil => simp [List.getLastD_eq_getLast?, separator_not_blank, show isspace 0 = false from rfl]
  | cons c rest =>
      have same : (front ++ kPathSeparator :: c :: rest).getLast? = (c :: rest).getLast? := by
        rw [List.getLast?_append, List.getLast?_cons_cons, List.getLast?_eq_some_getLast (by simp)]
        rfl
      rw [List.getLastD_eq_getLast?, List.getLastD_eq_getLast?, same]

theorem Solid.rdropWhile {path : Text} (solid : Solid path) : path.rdropWhile isspace = path := by
  refine List.rdropWhile_eq_self_iff.mpr fun nonempty => ?_
  rw [Solid, List.getLastD_eq_getLast?, List.getLast?_eq_some_getLast nonempty] at solid
  simpa using solid

theorem dropWhile_split (front rest : Text) : (front ++ kPathSeparator :: rest).dropWhile isspace =
    front.dropWhile isspace ++ kPathSeparator :: rest := by
  induction front with
  | nil => rfl
  | cons c front ih =>
      rw [List.cons_append]
      by_cases blank : isspace c = true
      · rw [List.dropWhile_cons_of_pos blank, List.dropWhile_cons_of_pos blank, ih]
      · rw [List.dropWhile_cons_of_neg blank, List.dropWhile_cons_of_neg blank, List.cons_append]

theorem strip_split {front rest : Text} (solid : Solid (front ++ kPathSeparator :: rest)) :
    strip (front ++ kPathSeparator :: rest) = front.dropWhile isspace ++ kPathSeparator :: rest := by
  have still : Solid (front.dropWhile isspace ++ kPathSeparator :: rest) :=
    solid_split.mpr (solid_split.mp solid)
  rw [strip, dropWhile_split, still.rdropWhile]

/-- How the lookup reads a path that has a separator: by what stands before the first one. -/
theorem lookupMoves_split {front rest : Text} (plain : kPathSeparator ∉ front)
    (solid : Solid (front ++ kPathSeparator :: rest)) :
    lookupMoves (front ++ kPathSeparator :: rest) =
      if front.dropWhile isspace = [] then
        if rest = [] then [.root] else .root :: lookupMoves rest
      else if front.dropWhile isspace = [kDot] then nameMoves (trimSlash rest)
      else if rest = [] then [.child (front.dropWhile isspace)]
      else lookupMoves front ++ .enter :: lookupMoves rest := by
  have inner : kPathSeparator ∉ front.dropWhile isspace :=
    fun member => plain (List.dropWhile_subset isspace member)
  rw [lookupMoves_eq, simplified, strip_split solid]
  by_cases blank : front.dropWhile isspace = []
  · rw [if_pos blank, blank, List.nil_append]
    by_cases none : rest = []
    · rw [if_pos none, none]
      rfl
    · rw [if_neg none, ← nameMoves_root none]
      exact congrArg nameMoves (trimSlash_split (List.not_mem_nil) none)
  rw [if_neg blank]
  by_cases dot : front.dropWhile isspace = [kDot]
  · rw [if_pos dot, dot]
    rfl
  rw [if_neg dot, trimDot_concat inner dot]
  by_cases none : rest = []
  · rw [if_pos none, none, trimSlash_concat inner blank, nameMoves_plain inner, if_neg blank, if_neg dot]
  · rw [if_neg none, trimSlash_split inner none, nameMoves_split inner blank none, lookupMoves_plain inner,
      lookupMoves_plain plain, strip_dropWhile]

theorem getNode_eq {tree : Node} {dir : Cursor} (rooted : Rooted tree) (isDir : IsDirectoryAt tree dir)
    (path : Text) : getNode tree dir path = .ok (follow tree dir (lookupMoves path)) :=
  getNodeImpl_eq rooted isDir (Nat.lt_succ_self _)

end Names

end ToyKernel.Vfs
