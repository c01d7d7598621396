import ToyKernel.Vfs.Lookup

/-!
Path resolution against a reference walk over the components of the path. The recursion of
`GetNodeImpl` simplifies what is left of the path at every level, so a component means what the
reference says only in some surroundings; which ones is decided from the path alone.
-/

namespace ToyKernel.Vfs

open Library

section Reference

def isName (component : Text) : Bool := decide (component ≠ [] ∧ component ≠ [kDot])

def names (path : Text) : List Text := (components path).filter isName

def followNames (tree : Node) : Cursor → List Text → Option Cursor
  | place, [] => some place
  | place, [name] => childAt tree place name
  | place, name :: next :: rest =>
      (childAt tree place name).bind fun child =>
        (dynCastDirectory tree child).bind fun dir => followNames tree dir (next :: rest)

def isAbsolute (path : Text) : Bool := path.headD 0 == kPathSeparator

def reference (tree : Node) (dir : Cursor) (path : Text) : Option Cursor :=
  followNames tree (if isAbsolute (strip path) then [] else dir) (names (strip path))

/-- What has been read of a path so far: only separators and dots from the root on, only dots
from the directory on, or some name. -/
inductive Mode
  | atRoot
  | relative
  | named
deriving DecidableEq

/-- The components that are left are read as the reference reads them. The flag says that the
dot in front of them was removed by simplifying, which leaves their blanks in place. -/
def regular : Bool → Mode → List Text → Bool
  | _, _, [] => false
  | raw, mode, name :: rest =>
      if rest = [] then
        if name = [kDot] then decide (mode ≠ .named)
        else decide (name ≠ [] ∧ (raw = true ∨ strip name = name))
      else if name = [] then
        decide (mode = .atRoot) && (decide (rest = [[]]) || regular false .atRoot rest)
      else if name = [kDot] then
        if raw = true then
          if rest = [[]] then decide (mode ≠ .named) else regular false mode rest
        else regular true mode rest
      else if rest = [[]] then decide (raw = true ∨ name.dropWhile isspace = name)
      else decide (strip name = name) && regular false .named rest

def regularPath (path : Text) : Bool :=
  regular false (if isAbsolute (strip path) then .atRoot else .relative) (components (strip path))

theorem names_plain {path : Text} (plain : kPathSeparator ∉ path) :
    names path = if isName path then [path] else [] := by
  rw [names, components_plain plain, List.filter_cons, List.filter_nil]

theorem names_split {front : Text} (plain : kPathSeparator ∉ front) (rest : Text) :
    names (front ++ kPathSeparator :: rest) = if isName front then front :: names rest else names rest := by
  rw [names, components_split plain, List.filter_cons, names]

theorem names_nil : names [] = [] := rfl

theorem regular_plain {path : Text} (plain : kPathSeparator ∉ path) (raw : Bool) (mode : Mode) :
    regular raw mode (components path) = if path = [kDot] then decide (mode ≠ .named)
      else decide (path ≠ [] ∧ (raw = true ∨ strip path = path)) := by
  rw [components_plain plain, regular, if_pos rfl]

theorem regular_split {front : Text} (plain : kPathSeparator ∉ front) (rest : Text) (raw : Bool)
    (mode : Mode) : regular raw mode (components (front ++ kPathSeparator :: rest)) =
      if front = [] then
        decide (mode = .atRoot) && (decide (rest = []) || regular false .atRoot (components rest))
      else if front = [kDot] then
        if raw = true then
          if rest = [] then decide (mode ≠ .named) else regular false mode (components rest)
        else regular true mode (components rest)
      else if rest = [] then decide (raw = true ∨ front.dropWhile isspace = front)
      else decide (strip front = front) && regular false .named (components rest) := by
  rw [components_split plain, regular, if_neg (components_ne_nil rest)]
  by_cases none : rest = []
  · have blank := components_eq_blank.mpr none
    simp only [if_pos blank, if_pos none, decide_eq_true blank, decide_eq_true none]
  · have more : components rest ≠ [[]] := fun blank => none (components_eq_blank.mp blank)
    simp only [if_neg more, if_neg none, decide_eq_false more, decide_eq_false none]

end Reference

section Sufficient

variable {tree : Node}

theorem regular_named {path : Text} {raw : Bool} (holds : regular raw .named (components path) = true) :
    names path ≠ [] := by
  induction path using pathInduction generalizing raw with
  | plain path plain =>
      rw [regular_plain plain] at holds
      rw [names_plain plain]
      by_cases dot : path = [kDot]
      · simp [dot] at holds
      · rw [if_neg dot, decide_eq_true_eq] at holds
        simp [isName, dot, holds.1]
  | split front rest plain ih =>
      rw [regular_split plain] at holds
      rw [names_split plain]
      by_cases empty : front = []
      · simp [empty] at holds
      rw [if_neg empty] at holds
      by_cases dot : front = [kDot]
      · rw [if_pos dot] at holds
        rw [if_neg (by simp [isName, dot])]
        split at holds
        · split at holds
          · simp at holds
          · exact ih holds
        · exact ih holds
      · rw [if_pos (by simp [isName, dot, empty])]
        simp

theorem followNames_cons {place : Cursor} {name : Text} {list : List Text} (more : list ≠ []) :
    followNames tree place (name :: list) =
      (childAt tree place name).bind fun child =>
        (dynCastDirectory tree child).bind fun dir => followNames tree dir list := by
  cases list with
  | nil => exact absurd rfl more
  | cons next rest => rfl

theorem nameMoves_trimSlash {front : Text} (plain : kPathSeparator ∉ front) (rest : Text) :
    nameMoves (trimSlash (front ++ kPathSeparator :: rest)) =
      if front = [] then if rest = [] then [.root] else .root :: lookupMoves rest
      else if rest = [] then nameMoves front
      else lookupMoves front ++ .enter :: lookupMoves rest := by
  by_cases empty : front = []
  · subst empty
    rw [if_pos rfl]
    by_cases none : rest = []
    · rw [if_pos none, none]
      rfl
    · rw [if_neg none, trimSlash_split plain none, List.nil_append, nameMoves_root none]
  · rw [if_neg empty]
    by_cases none : rest = []
    · rw [if_pos none, none, trimSlash_concat plain empty]
    · rw [if_neg none, trimSlash_split plain none, nameMoves_split plain empty none]

/-- A name that is followed by others is entered as a directory. -/
theorem follow_names {front rest : Text} {place : Cursor} (plain : kPathSeparator ∉ front)
    (nonempty : front ≠ []) (notDot : front ≠ [kDot]) (tight : strip front = front)
    (more : names rest ≠ [])
    (later : ∀ dir, IsDirectoryAt tree dir →
      follow tree dir (lookupMoves rest) = followNames tree dir (names rest)) :
    follow tree place (lookupMoves front ++ .enter :: lookupMoves rest) =
      followNames tree place (front :: names rest) := by
  rw [lookupMoves_plain plain, tight, if_neg nonempty, if_neg notDot, List.cons_append, List.nil_append,
    follow, followNames_cons more]
  refine Option.bind_congr fun child _ => ?_
  rw [follow]
  refine Option.bind_congr fun dir cast => ?_
  obtain ⟨rfl, isDir⟩ := dynCastDirectory_eq_some cast
  exact later dir isDir

/-- On a regular remainder the recursion of the lookup is the reference walk. The second part is
for a remainder whose leading dot has just been removed. -/
theorem regular_follow {path : Text} (rooted : Rooted tree) (solid : Solid path) {mode : Mode}
    {place : Cursor} (isDir : IsDirectoryAt tree place) (home : mode = .atRoot → place = []) :
    (regular false mode (components path) = true →
      follow tree place (lookupMoves path) = followNames tree place (names path)) ∧
    (regular true mode (components path) = true →
      follow tree place (nameMoves (trimSlash path)) = followNames tree place (names path)) := by
  induction path using pathInduction generalizing mode place with
  | plain path plain =>
      rw [regular_plain plain, regular_plain plain, names_plain plain, trimSlash_plain plain,
        nameMoves_plain plain, lookupMoves_plain plain]
      by_cases dot : path = [kDot]
      · subst dot
        exact ⟨fun _ => rfl, fun _ => rfl⟩
      rw [if_neg dot, if_neg dot, decide_eq_true_eq, decide_eq_true_eq]
      constructor
      · rintro ⟨nonempty, raw | tight⟩
        · cases raw
        · rw [tight, if_neg nonempty, if_neg dot, if_pos (by simp [isName, nonempty, dot]), follow_single]
          rfl
      · rintro ⟨nonempty, _⟩
        rw [if_neg nonempty, if_neg dot, if_pos (by simp [isName, nonempty, dot]), follow_single]
        rfl
  | split front rest plain ih =>
      have later := solid_split.mp solid
      rw [regular_split plain, regular_split plain, names_split plain, nameMoves_trimSlash plain,
        lookupMoves_split plain solid]
      by_cases empty : front = []
      · subst empty
        have notName : isName [] = false := by decide
        simp only [List.dropWhile_nil, if_true, Bool.and_eq_true, Bool.or_eq_true, decide_eq_true_eq, notName,
          Bool.false_eq_true, if_false]
        have both : mode = .atRoot ∧ (rest = [] ∨ regular false .atRoot (components rest) = true) →
            follow tree place (if rest = [] then [.root] else .root :: lookupMoves rest) =
              followNames tree place (names rest) := by
          rintro ⟨atRoot, onward⟩
          rw [home atRoot]
          by_cases none : rest = []
          · rw [if_pos none, none]
            rfl
          · rw [if_neg none, follow]
            exact (ih later (rooted_isDirectory rooted) fun _ => rfl).1 (onward.resolve_left none)
        exact ⟨both, both⟩
      rw [if_neg empty, if_neg empty, if_neg empty]
      by_cases dot : front = [kDot]
      · have stripped : front.dropWhile isspace = [kDot] := by
          rw [dot]
          decide
        have notName : isName front = false := by
          rw [dot]
          decide
        rw [if_pos dot, if_pos dot, stripped, if_neg (by simp), if_pos rfl, notName]
        simp only [Bool.false_eq_true, if_false, if_true]
        refine ⟨fun holds => (ih later isDir home).2 holds, fun holds => ?_⟩
        by_cases none : rest = []
        · rw [if_pos none, none, dot]
          rfl
        · rw [if_neg none] at holds ⊢
          rw [dot]
          exact (follow_enter isDir _).trans ((ih later isDir home).1 holds)
      have isNamed : isName front = true := by simp [isName, empty, dot]
      rw [if_neg dot, if_neg dot, isNamed]
      simp only [if_true]
      by_cases none : rest = []
      · subst none
        simp only [if_true, decide_eq_true_eq, Bool.false_eq_true, false_or, true_or]
        constructor
        · intro unindented
          rw [unindented, if_neg empty, if_neg dot, follow_single]
          rfl
        · intro _
          rw [nameMoves_plain plain, if_neg empty, if_neg dot, follow_single]
          rfl
      · simp only [if_neg none, Bool.and_eq_true, decide_eq_true_eq]
        have both : strip front = front ∧ regular false .named (components rest) = true →
            follow tree place (lookupMoves front ++ .enter :: lookupMoves rest) =
              followNames tree place (front :: names rest) := by
          rintro ⟨tight, onward⟩
          exact follow_names plain empty dot tight (regular_named onward)
            fun dir isNext => (ih later isNext fun wrong => by cases wrong).1 onward
        refine ⟨?_, both⟩
        rintro ⟨tight, onward⟩
        have unindented : front.dropWhile isspace = front := by
          rw [← tight]
          exact dropWhile_eq_self (head_strip front)
        rw [unindented, if_neg empty, if_neg dot]
        exact both ⟨tight, onward⟩

end Sufficient

section Necessary

variable {tree : Node}

def childCount (list : List Move) : Nat := list.countP fun move => match move with
  | .child _ => true
  | _ => false

@[simp] theorem childCount_nil : childCount [] = 0 := rfl

@[simp] theorem childCount_root (rest : List Move) : childCount (.root :: rest) = childCount rest := by
  simp [childCount]

@[simp] theorem childCount_missing (rest : List Move) : childCount (.missing :: rest) = childCount rest := by
  simp [childCount]

@[simp] theorem childCount_enter (rest : List Move) : childCount (.enter :: rest) = childCount rest := by
  simp [childCount]

@[simp] theorem childCount_child (key : Text) (rest : List Move) :
    childCount (.child key :: rest) = childCount rest + 1 := by
  simp [childCount]

@[simp] theorem childCount_append (front back : List Move) :
    childCount (front ++ back) = childCount front + childCount back :=
  List.countP_append

theorem follow_length {place target : Cursor} {list : List Move}
    (reached : follow tree place list = some target) : target.length ≤ place.length + childCount list := by
  induction list generalizing place with
  | nil =>
      cases reached
      simp
  | cons move rest ih =>
      cases move with
      | root =>
          have bound := ih reached
          simp at bound ⊢
          omega
      | missing => cases reached
      | enter =>
          obtain ⟨dir, cast, onward⟩ := Option.bind_eq_some_iff.mp reached
          obtain ⟨rfl, _⟩ := dynCastDirectory_eq_some cast
          simpa using ih onward
      | child key =>
          obtain ⟨child, found, onward⟩ := Option.bind_eq_some_iff.mp reached
          obtain ⟨position, rfl, _⟩ := childAt_eq_some.mp found
          have bound := ih onward
          simp at bound ⊢
          omega

theorem isName_of_strip {name : Text} (nonempty : strip name ≠ []) (notDot : strip name ≠ [kDot]) :
    isName name = true := by
  rw [isName, decide_eq_true_eq]
  constructor
  · rintro rfl
    exact nonempty rfl
  · rintro rfl
    exact notDot (by decide)

/-- A component asks for at most one child, and for none when it is not a name. -/
theorem childCount_plain {name : Text} (plain : kPathSeparator ∉ name) :
    childCount (lookupMoves name) ≤ if isName name then 1 else 0 := by
  rw [lookupMoves_plain plain]
  split
  · simp
  · rename_i nonempty
    split
    · simp
    · rename_i notDot
      simp [isName_of_strip nonempty notDot]

theorem childCount_name {name : Text} (plain : kPathSeparator ∉ name) :
    childCount (nameMoves name) ≤ if isName name then 1 else 0 := by
  rw [nameMoves_plain plain]
  split
  · simp
  · rename_i nonempty
    split
    · simp
    · rename_i notDot
      simp [isName, nonempty, notDot]

theorem childCount_le {path : Text} (solid : Solid path) :
    childCount (lookupMoves path) ≤ (names path).length ∧
      childCount (nameMoves (trimSlash path)) ≤ (names path).length := by
  induction path using pathInduction with
  | plain path plain =>
      have looked := childCount_plain plain
      have named := childCount_name plain
      rw [names_plain plain, trimSlash_plain plain]
      split <;> simp_all
  | split front rest plain ih =>
      obtain ⟨looked, named⟩ := ih (solid_split.mp solid)
      have first := childCount_plain plain
      have alone := childCount_name plain
      have length : (names (front ++ kPathSeparator :: rest)).length =
          (if isName front then 1 else 0) + (names rest).length := by
        rw [names_split plain]
        split <;> simp [Nat.add_comm]
      rw [length, nameMoves_trimSlash plain, lookupMoves_split plain solid]
      constructor
      · split
        · split
          · simp
          · simp only [childCount_root]
            omega
        · split
          · omega
          · split
            · rename_i visible notDot _
              have isNamed : isName front = true := by
                rw [isName, decide_eq_true_eq]
                constructor
                · rintro rfl
                  exact visible rfl
                · rintro rfl
                  exact notDot (by decide)
              simp [isNamed]
            · simp only [childCount_append, childCount_enter]
              omega
      · split
        · split
          · simp
          · simp only [childCount_root]
            omega
        · split
          · omega
          · simp only [childCount_append, childCount_enter]
            omega

def Chain (tree : Node) : Cursor → List Text → Prop
  | _, [] => True
  | place, name :: rest =>
      (∀ key child, childAt tree place key = some child → key = name ∧ child = place ++ [0]) ∧
      (rest = [] → ¬IsDirectoryAt tree (place ++ [0])) ∧ Chain tree (place ++ [0]) rest

theorem not_isName {name : Text} (unnamed : ¬isName name = true) : name = [] ∨ name = [kDot] := by
  by_contra neither
  exact unnamed (by simpa [isName, not_or] using neither)

/-- A walk that restarts at the root gets to the end only from the root and past no name. -/
theorem restart_length {front rest : Text} {place goal : Cursor} (solid : Solid rest)
    (depth : goal.length = place.length + ((if isName front then 1 else 0) + (names rest).length))
    (reached : follow tree place (if rest = [] then [.root] else .root :: lookupMoves rest) = some goal) :
    place = [] ∧ ¬isName front = true := by
  have bound : goal.length ≤ (names rest).length := by
    by_cases none : rest = []
    · rw [if_pos none] at reached
      cases reached
      simp
    · rw [if_neg none] at reached
      have deep : goal.length ≤ ([] : Cursor).length + childCount (lookupMoves rest) := follow_length reached
      have few := (childCount_le solid).1
      rw [List.length_nil] at deep
      omega
  split at depth
  · omega
  · rename_i unnamed
    exact ⟨List.length_eq_zero_iff.mp (by omega), unnamed⟩

/-- Past a name of a chain the walk goes on in the only child. -/
theorem chain_enter {front rest : Text} {place goal : Cursor} (plain : kPathSeparator ∉ front)
    (solid : Solid rest) (chain : Chain tree place (front :: names rest))
    (depth : goal.length = place.length + (1 + (names rest).length))
    (reached : follow tree place (lookupMoves front ++ .enter :: lookupMoves rest) = some goal) :
    strip front = front ∧ IsDirectoryAt tree (place ++ [0]) ∧ names rest ≠ [] ∧
      follow tree (place ++ [0]) (lookupMoves rest) = some goal := by
  rw [lookupMoves_plain plain] at reached
  by_cases blank : strip front = []
  · rw [if_pos blank] at reached
    cases reached
  rw [if_neg blank] at reached
  by_cases dot : strip front = [kDot]
  · rw [if_pos dot] at reached
    have deep := follow_length reached
    have few := (childCount_le solid).1
    rw [List.nil_append, childCount_enter] at deep
    omega
  rw [if_neg dot] at reached
  obtain ⟨child, found, entered⟩ := Option.bind_eq_some_iff.mp reached
  obtain ⟨tight, rfl⟩ := chain.1 _ _ found
  obtain ⟨next, cast, onward⟩ := Option.bind_eq_some_iff.mp entered
  obtain ⟨rfl, isDir⟩ := dynCastDirectory_eq_some cast
  exact ⟨tight, isDir, fun none => chain.2.1 none isDir, onward⟩

/-- Along a chain a lookup reaches the end only if it reads the path as the reference does. -/
theorem regular_of_follow {path : Text} (solid : Solid path) {mode : Mode} {place goal : Cursor}
    (isDir : IsDirectoryAt tree place) (chain : Chain tree place (names path))
    (depth : goal.length = place.length + (names path).length) (home : mode = .atRoot ↔ place = [])
    (ended : mode = .named → names path ≠ []) :
    (follow tree place (lookupMoves path) = some goal → regular false mode (components path) = true) ∧
    (follow tree place (nameMoves (trimSlash path)) = some goal →
      regular true mode (components path) = true) := by
  induction path using pathInduction generalizing mode place with
  | plain path plain =>
      rw [regular_plain plain, regular_plain plain, trimSlash_plain plain, nameMoves_plain plain,
        lookupMoves_plain plain]
      rw [names_plain plain] at chain depth ended
      have dotted : path = [kDot] → mode ≠ .named := by
        rintro rfl named
        exact ended named (by decide)
      constructor
      · intro reached
        by_cases blank : strip path = []
        · rw [if_pos blank] at reached
          cases reached
        rw [if_neg blank] at reached
        by_cases dot : strip path = [kDot]
        · rw [if_pos dot] at reached
          cases reached
          have unnamed : ¬isName path = true := by
            intro named
            rw [if_pos named, List.length_singleton] at depth
            omega
          rcases not_isName unnamed with rfl | isDot
          · exact absurd rfl blank
          · rw [if_pos isDot]
            exact decide_eq_true (dotted isDot)
        · have named := isName_of_strip blank dot
          rw [if_neg dot, follow_single] at reached
          rw [if_pos named] at chain
          obtain ⟨tight, _⟩ := chain.1 _ _ reached
          rw [if_neg (by rwa [tight] at dot)]
          exact decide_eq_true ⟨by rwa [tight] at blank, .inr tight⟩
      · intro reached
        by_cases empty : path = []
        · rw [if_pos empty] at reached
          cases reached
        by_cases dot : path = [kDot]
        · rw [if_pos dot]
          exact decide_eq_true (dotted dot)
        · rw [if_neg dot]
          exact decide_eq_true ⟨empty, .inl rfl⟩
  | split front rest plain ih =>
      have later := solid_split.mp solid
      rw [regular_split plain, regular_split plain, nameMoves_trimSlash plain, lookupMoves_split plain solid]
      rw [names_split plain] at chain depth ended
      have length : goal.length = place.length + ((if isName front then 1 else 0) + (names rest).length) := by
        rw [depth]
        split <;> simp [Nat.add_comm]
      have restarted : follow tree place (if rest = [] then [.root] else .root :: lookupMoves rest) = some goal →
          front ≠ [kDot] → front = [] ∧
            (decide (mode = .atRoot) && (decide (rest = []) || regular false .atRoot (components rest))) =
              true := by
        intro reached notDot
        obtain ⟨rfl, unnamed⟩ := restart_length later length reached
        rw [if_neg unnamed] at chain depth
        refine ⟨(not_isName unnamed).resolve_right notDot, ?_⟩
        rw [Bool.and_eq_true, Bool.or_eq_true, decide_eq_true_eq, decide_eq_true_eq]
        refine ⟨home.mpr rfl, ?_⟩
        by_cases none : rest = []
        · exact .inl none
        · rw [if_neg none] at reached
          exact .inr ((ih later isDir chain depth (by simp) (by simp)).1 reached)
      have entering : isName front = true → follow tree place (lookupMoves front ++ .enter :: lookupMoves rest) =
          some goal → (decide (strip front = front) && regular false .named (components rest)) = true := by
        intro named reached
        rw [if_pos named] at chain length
        obtain ⟨tight, isNext, more, onward⟩ := chain_enter plain later chain length reached
        rw [Bool.and_eq_true, decide_eq_true_eq]
        refine ⟨tight, (ih later isNext chain.2.2 ?_ (by simp) fun _ => more).1 onward⟩
        rw [List.length_append, List.length_singleton]
        omega
      constructor
      · intro reached
        by_cases blank : front.dropWhile isspace = []
        · rw [if_pos blank] at reached
          have notDot : front ≠ [kDot] := by
            rintro rfl
            exact absurd blank (by decide)
          obtain ⟨empty, holds⟩ := restarted reached notDot
          rwa [if_pos empty]
        rw [if_neg blank] at reached
        have nonempty : front ≠ [] := by
          rintro rfl
          exact blank rfl
        rw [if_neg nonempty]
        by_cases dot : front.dropWhile isspace = [kDot]
        · rw [if_pos dot] at reached
          have deep := follow_length reached
          have few := (childCount_le later).2
          have unnamed : ¬isName front = true := by
            intro named
            rw [if_pos named] at length
            omega
          rw [if_neg unnamed] at chain depth ended
          rw [if_pos ((not_isName unnamed).resolve_left nonempty), if_neg Bool.false_ne_true]
          exact (ih later isDir chain depth home ended).2 reached
        rw [if_neg dot] at reached
        have notDot : front ≠ [kDot] := by
          rintro rfl
          exact dot (by decide)
        have named : isName front = true := decide_eq_true ⟨nonempty, notDot⟩
        rw [if_neg notDot]
        by_cases none : rest = []
        · rw [if_pos none, follow_single] at reached
          rw [if_pos named] at chain
          rw [if_pos none]
          exact decide_eq_true (.inr (chain.1 _ _ reached).1)
        · rw [if_neg none] at reached ⊢
          exact entering named reached
      · intro reached
        by_cases empty : front = []
        · rw [if_pos empty] at reached ⊢
          exact (restarted reached (by simp [empty])).2
        rw [if_neg empty] at reached ⊢
        by_cases dot : front = [kDot]
        · have unnamed : ¬isName front = true := by simp [isName, dot]
          rw [if_neg unnamed] at chain depth ended
          rw [if_pos dot, if_pos rfl]
          by_cases none : rest = []
          · rw [if_pos none]
            exact decide_eq_true fun isNamed => ended isNamed (by rw [none, names_nil])
          · rw [if_neg none] at reached ⊢
            rw [dot] at reached
            exact (ih later isDir chain depth home ended).1 ((follow_enter isDir _).symm.trans reached)
        have named : isName front = true := decide_eq_true ⟨empty, dot⟩
        rw [if_neg dot]
        by_cases none : rest = []
        · rw [if_pos none]
          exact decide_eq_true (.inl rfl)
        · rw [if_neg none] at reached ⊢
          exact entering named reached

end Necessary

section Chains

def dressed (name : Text) : Text := kDot :: kPathSeparator :: (name ++ [kPathSeparator])

theorem simplified_dressed {name : Text} (plain : kPathSeparator ∉ name) (nonempty : name ≠ []) :
    simplified (dressed name) = name := by
  have solid : Solid (dressed name) := by
    have slashed : Solid ((kDot :: kPathSeparator :: name) ++ kPathSeparator :: []) := solid_split.mpr rfl
    exact slashed
  have stripped : strip (dressed name) = dressed name := by
    rw [strip, dropWhile_eq_self (show isspace ((dressed name).headD 0) = false from dot_not_blank),
      solid.rdropWhile]
  rw [simplified, stripped]
  exact trimSlash_concat plain nonempty

def chainNodes : Cursor → List Text → List Node
  | _, [] => []
  | place, name :: rest =>
      [if rest = [] then .file (dressed name) (some place) []
        else .directory (dressed name) (some place) (chainNodes (place ++ [0]) rest)]

variable {tree : Node}

theorem chainNodes_childAt {place : Cursor} {name own : Text} {rest : List Text} {parent : Option Cursor}
    (plain : kPathSeparator ∉ name) (nonempty : name ≠ [])
    (here : tree.at? place = some (.directory own parent (chainNodes place (name :: rest)))) (key : Text) :
    childAt tree place key = if key = name then some (place ++ [0]) else none := by
  have simple : simplified (if rest = [] then Node.file (dressed name) (some place) []
      else .directory (dressed name) (some place) (chainNodes (place ++ [0]) rest)).name = name := by
    split <;> exact simplified_dressed plain nonempty
  rw [childAt, here, Option.bind_some, chainNodes, Node.nodes, List.findIdx?_cons, simple]
  by_cases same : key = name
  · simp [same]
  · simp [same]

theorem chainNodes_at {place : Cursor} {name own : Text} {rest : List Text} {parent : Option Cursor}
    (here : tree.at? place = some (.directory own parent (chainNodes place (name :: rest)))) :
    tree.at? (place ++ [0]) = some (if rest = [] then .file (dressed name) (some place) []
      else .directory (dressed name) (some place) (chainNodes (place ++ [0]) rest)) := by
  rw [at?_concat, here]
  rfl

theorem chainNodes_chain {place : Cursor} {list : List Text} {own : Text} {parent : Option Cursor}
    (plain : ∀ name ∈ list, kPathSeparator ∉ name ∧ name ≠ [])
    (here : tree.at? place = some (.directory own parent (chainNodes place list))) :
    Chain tree place list ∧ followNames tree place list = some (place ++ List.replicate list.length 0) := by
  induction list generalizing place own parent with
  | nil => exact ⟨trivial, by simp [followNames]⟩
  | cons name rest ih =>
      obtain ⟨first, others⟩ := List.forall_mem_cons.mp plain
      have child := chainNodes_childAt first.1 first.2 here
      have next := chainNodes_at here
      have only : ∀ key found, childAt tree place key = some found → key = name ∧ found = place ++ [0] := by
        intro key found named
        rw [child] at named
        split at named
        · rename_i same
          exact ⟨same, (Option.some.inj named).symm⟩
        · cases named
      by_cases last : rest = []
      · subst last
        rw [if_pos rfl] at next
        refine ⟨⟨only, fun _ isDir => ?_, trivial⟩, ?_⟩
        · obtain ⟨_, _, _, isDirectory⟩ := isDirectoryAt_iff.mp isDir
          rw [next] at isDirectory
          cases isDirectory
        · rw [followNames, child, if_pos rfl]
          rfl
      · rw [if_neg last] at next
        obtain ⟨chain, walked⟩ := ih others next
        refine ⟨⟨only, fun none => absurd none last, chain⟩, ?_⟩
        have isDir : IsDirectoryAt tree (place ++ [0]) := isDirectoryAt_iff.mpr ⟨_, _, _, next⟩
        rw [followNames_cons last, child, if_pos rfl, Option.bind_some, dynCastDirectory_eq isDir,
          Option.bind_some, walked, List.length_cons, List.replicate_succ, List.append_assoc]
        rfl

theorem chainNodes_parents {place : Cursor} {list : List Text} {own : Text} {parent : Option Cursor}
    (here : tree.at? place = some (.directory own parent (chainNodes place list))) :
    ∀ dir position header, headerAt tree (place ++ dir ++ [position]) = some header →
      header.contents = none → header.parent = some (place ++ dir) := by
  induction list generalizing place own parent with
  | nil =>
      intro dir position header found
      have below : headerAt tree (place ++ (dir ++ [position])) = none := by
        rw [headerAt, at?_append, here, Option.bind_some]
        cases dir <;> rfl
      rw [List.append_assoc, below] at found
      cases found
  | cons name rest ih =>
      intro dir position header found isDirectory
      have next := chainNodes_at here
      cases dir with
      | nil =>
          rw [List.append_nil, headerAt_concat here] at found
          cases position with
          | zero =>
              simp only [Node.nodes, chainNodes, List.getElem?_cons_zero, Option.map_some,
                Option.some.injEq] at found
              rw [← found] at isDirectory ⊢
              rw [List.append_nil]
              split
              · rfl
              · rfl
          | succ position => cases found
      | cons first dir =>
          cases first with
          | zero =>
              have onward : place ++ 0 :: dir = place ++ [0] ++ dir := by simp
              rw [onward] at found ⊢
              by_cases last : rest = []
              · rw [if_pos last] at next
                rw [List.append_assoc, headerAt, at?_append, next, Option.bind_some] at found
                cases dir with
                | nil => cases found
                | cons second dir => cases found
              · rw [if_neg last] at next
                exact ih next dir position header found isDirectory
          | succ first =>
              rw [List.append_assoc, headerAt, at?_append, here] at found
              cases found

def chainTree (absolute : Bool) (list : List Text) : Node :=
  if absolute then .directory [kPathSeparator] none (chainNodes [] list)
  else .directory [kPathSeparator] none [.directory [kDot] (some []) (chainNodes [0] list)]

def chainPlace (absolute : Bool) : Cursor := if absolute then [] else [0]

theorem chainTree_at (absolute : Bool) (list : List Text) : ∃ own parent,
    (chainTree absolute list).at? (chainPlace absolute) =
      some (.directory own parent (chainNodes (chainPlace absolute) list)) := by
  cases absolute with
  | false => exact ⟨[kDot], some [], rfl⟩
  | true => exact ⟨[kPathSeparator], none, rfl⟩

theorem chainTree_rooted (absolute : Bool) (list : List Text) : Rooted (chainTree absolute list) where
  root := by
    cases absolute with
    | false => exact ⟨_, rfl, rfl, rfl⟩
    | true => exact ⟨_, rfl, rfl, rfl⟩
  below := by
    intro dir position header found isDirectory
    obtain ⟨own, parent, here⟩ := chainTree_at absolute list
    have parents := chainNodes_parents here
    cases absolute with
    | true => exact parents dir position header found isDirectory
    | false =>
        cases dir with
        | nil =>
            cases position with
            | zero =>
                cases found
                rfl
            | succ position => cases found
        | cons first dir =>
            cases first with
            | zero => exact parents dir position header found isDirectory
            | succ first => cases found

end Chains

section Main

theorem components_mem {path name : Text} (member : name ∈ components path) : kPathSeparator ∉ name := by
  induction path using pathInduction with
  | plain path plain =>
      rw [components_plain plain, List.mem_singleton] at member
      rwa [member]
  | split front rest plain ih =>
      rw [components_split plain] at member
      rcases List.mem_cons.mp member with rfl | later
      · exact plain
      · exact ih later

theorem names_proper (path : Text) : ∀ name ∈ names path, kPathSeparator ∉ name ∧ name ≠ [] := by
  intro name member
  obtain ⟨inside, named⟩ := List.mem_filter.mp member
  exact ⟨components_mem inside, (of_decide_eq_true named).1⟩

theorem lookupMoves_strip (path : Text) : lookupMoves path = lookupMoves (strip path) := by
  rw [lookupMoves_eq, lookupMoves_eq, simplified, simplified, strip_strip]

/-- An absolute path is looked up from the root, whatever the directory is. -/
theorem follow_absolute {tree : Node} {path : Text} (absolute : isAbsolute (strip path) = true) (dir : Cursor) :
    follow tree dir (lookupMoves path) = follow tree [] (lookupMoves (strip path)) := by
  have solid := strip_solid path
  rw [lookupMoves_strip]
  generalize strip path = stripped at absolute solid
  cases stripped with
  | nil => cases absolute
  | cons c rest =>
      have first : c = kPathSeparator := of_decide_eq_true absolute
      subst first
      have split := lookupMoves_split (List.not_mem_nil) (show Solid ([] ++ kPathSeparator :: rest) from solid)
      rw [List.nil_append, List.dropWhile_nil, if_pos rfl] at split
      rw [split]
      split <;> rfl

theorem regularPath_resolves {tree : Node} {dir : Cursor} {path : Text} (rooted : Rooted tree)
    (isDir : IsDirectoryAt tree dir) (holds : regularPath path = true) :
    follow tree dir (lookupMoves path) = reference tree dir path := by
  have solid := strip_solid path
  rw [reference]
  rw [regularPath] at holds
  by_cases absolute : isAbsolute (strip path) = true
  · rw [if_pos absolute] at holds ⊢
    rw [follow_absolute absolute]
    exact (regular_follow rooted solid (rooted_isDirectory rooted) fun _ => rfl).1 holds
  · rw [if_neg absolute] at holds ⊢
    rw [lookupMoves_strip]
    exact (regular_follow rooted solid isDir (by simp)).1 holds

theorem resolves_regularPath {path : Text}
    (resolves : ∀ tree dir, Rooted tree → IsDirectoryAt tree dir →
      follow tree dir (lookupMoves path) = reference tree dir path) : regularPath path = true := by
  obtain ⟨own, parent, here⟩ := chainTree_at (isAbsolute (strip path)) (names (strip path))
  obtain ⟨chain, walked⟩ := chainNodes_chain (names_proper _) here
  have isDir := isDirectoryAt_iff.mpr ⟨_, _, _, here⟩
  have reached := resolves _ _ (chainTree_rooted _ _) isDir
  have start : (if isAbsolute (strip path) then [] else chainPlace (isAbsolute (strip path))) =
      chainPlace (isAbsolute (strip path)) := by
    cases isAbsolute (strip path) <;> rfl
  rw [reference, start, walked, lookupMoves_strip] at reached
  refine (regular_of_follow (strip_solid path) isDir chain ?_ ?_ ?_).1 reached
  · simp
  · cases isAbsolute (strip path) <;> simp [chainPlace]
  · cases isAbsolute (strip path) <;> simp

/-- Exactly the regular paths resolve as the reference walk says, in every tree and from every
directory. -/
theorem resolution_componentwise (path : Text) :
    (∀ tree dir, Rooted tree → IsDirectoryAt tree dir →
      getNode tree dir path = .ok (reference tree dir path)) ↔ regularPath path = true := by
  constructor
  · intro resolves
    refine resolves_regularPath fun tree dir rooted isDir => ?_
    exact Except.ok.inj ((getNode_eq rooted isDir path).symm.trans (resolves tree dir rooted isDir))
  · intro holds tree dir rooted isDir
    rw [getNode_eq rooted isDir, regularPath_resolves rooted isDir holds]

/-- Below a directory "a" with a file "b", the path "a//b" is not found, and "./" is not the
directory itself. -/
theorem double_separator_lost : ∃ tree, calls.Reachable tree ∧ IsDirectoryAt tree [] ∧
    reference tree [] [97, 47, 47, 98] = some [0, 0] ∧ getNode tree [] [97, 47, 98] = .ok (some [0, 0]) ∧
    getNode tree [] [97, 47, 47, 98] = .ok none ∧
    reference tree [] [46, 47] = some [] ∧ getNode tree [] [46, 47] = .ok none := by
  have made : calls.step rootDirectory (.mkfile [] [97, 47, 98] [1])
      (.directory [47] none [.directory [97] (some []) [.file [98] (some []) [1]]]) := ⟨⟨_, rfl, rfl⟩, rfl⟩
  refine ⟨_, .next (.start rfl) made, ⟨_, rfl, rfl⟩, ?_, rfl, rfl, ?_, rfl⟩
  · decide +kernel
  · decide +kernel

end Main

end ToyKernel.Vfs
