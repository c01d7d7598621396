import ToyKernel.Vfs.Invariants
import ToyKernel.Vfs.Lookup

/-!
Creation against lookup. `mkdir` and `mkfile` cut a path with their own loop and normalise each
piece, while a lookup normalises and splits what is left of the path again and again. Here the
two are compared on the components of the path.
-/

namespace ToyKernel.Vfs

open Library

section Visiting

def visit (tree : Node) : Cursor → List Step → Option Cursor
  | place, [] => some place
  | _, .root :: rest => visit tree [] rest
  | place, .stay :: rest => visit tree place rest
  | _, .nameless :: _ => none
  | place, .child key _ :: rest =>
      (childAt tree place key).bind fun child =>
        (dynCastDirectory tree child).bind fun dir => visit tree dir rest

theorem isDirectoryAt_extends {tree after : Node} {dir : Cursor} (extended : Extends tree after)
    (isDir : IsDirectoryAt tree dir) : IsDirectoryAt after dir := by
  obtain ⟨header, found, noContents⟩ := isDir
  exact ⟨header, extended _ _ found, noContents⟩

theorem visit_child {tree : Node} {place child : Cursor} {key stored : Text} {rest : List Step}
    (found : childAt tree place key = some child) (isDir : IsDirectoryAt tree child) :
    visit tree place (.child key stored :: rest) = visit tree child rest := by
  rw [visit, found, Option.bind_some, dynCastDirectory_eq isDir, Option.bind_some]

theorem visit_extends {tree after : Node} {place target : Cursor} {steps : List Step}
    (extended : Extends tree after) (visited : visit tree place steps = some target) :
    visit after place steps = some target := by
  induction steps generalizing place with
  | nil => exact visited
  | cons step rest ih =>
      cases step with
      | root => exact ih visited
      | stay => exact ih visited
      | nameless => cases visited
      | child key stored =>
          obtain ⟨child, found, entered⟩ := Option.bind_eq_some_iff.mp visited
          obtain ⟨dir, cast, later⟩ := Option.bind_eq_some_iff.mp entered
          obtain ⟨rfl, isDir⟩ := dynCastDirectory_eq_some cast
          rw [visit_child (childAt_extends extended found) (isDirectoryAt_extends extended isDir)]
          exact ih later

theorem createAll_visit {tree after : Node} {dir current : Cursor} {steps : List Step}
    (named : ∀ step ∈ steps, WellNamed step) (proper : Step.nameless ∉ steps)
    (done : createAll tree dir steps = .ok (after, current)) : visit after dir steps = some current := by
  induction steps generalizing tree dir with
  | nil =>
      simp only [createAll, Except.ok.injEq, Prod.mk.injEq] at done
      rw [visit, done.2]
  | cons step rest ih =>
      simp only [createAll, bind_eq_ok, Prod.exists] at done
      obtain ⟨middle, next, first, later⟩ := done
      have extended := createAll_extends later
      have onward := ih (fun step member => named step (by simp [member]))
        (fun member => proper (by simp [member])) later
      rcases create_ok first with ⟨rfl, ⟨rfl, rfl⟩ | ⟨rfl, rfl⟩ | ⟨key, stored, rfl, known, isDir⟩⟩ |
        ⟨name, added, ⟨rfl, _⟩ | ⟨key, rfl, absent⟩⟩
      · exact onward
      · exact onward
      · rw [visit_child (childAt_extends extended known) (isDirectoryAt_extends extended isDir)]
        exact onward
      · simp at proper
      · have known : childAt middle dir key = some next := by
          obtain ⟨count, place, bound⟩ := added.behind
          have header := added.new_header
          rw [place] at header
          refine childAt_eq_some.mpr ⟨count, place, ⟨_, header, (named _ (by simp) key name rfl).1⟩, ?_⟩
          rintro earlier below ⟨other, found, same⟩
          rcases added.cases found with ⟨new, _⟩ | old
          · rw [place] at new
            have equal := (List.append_inj' new rfl).2
            simp at equal
            omega
          · exact childAt_eq_none.mp absent earlier ⟨other, old, same⟩
        rw [visit_child (childAt_extends extended known)
          (isDirectoryAt_extends extended ⟨_, added.new_header, rfl⟩)]
        exact onward

end Visiting

section Directories

/-- What is left of a path is looked up as it is created: no component before a separator is a
single dot, and one before a final separator has no blanks behind it. -/
def tailAgrees : List Text → Bool
  | [] => true
  | name :: rest =>
      if rest = [] then decide (strip name ≠ [])
      else if rest = [[]] then decide (name.dropWhile isspace = [] ∨
        (name.dropWhile isspace ≠ [kDot] ∧ strip name = name.dropWhile isspace))
      else decide (name.dropWhile isspace ≠ [kDot]) && tailAgrees rest

def wholeAgrees : List Text → Bool
  | [] => false
  | name :: rest =>
      if rest = [] then decide (name ≠ [] ∧ strip name = name)
      else decide (name.dropWhile isspace = [] → name = []) && tailAgrees (name :: rest)

def creationAgrees (path : Text) : Bool := wholeAgrees (components (simplified path))

theorem tailAgrees_split (front rest : Text) : tailAgrees (front :: components rest) =
    if rest = [] then decide (front.dropWhile isspace = [] ∨
      (front.dropWhile isspace ≠ [kDot] ∧ strip front = front.dropWhile isspace))
    else decide (front.dropWhile isspace ≠ [kDot]) && tailAgrees (components rest) := by
  rw [tailAgrees, if_neg (components_ne_nil rest)]
  by_cases none : rest = []
  · rw [if_pos (components_eq_blank.mpr none), if_pos none]
  · rw [if_neg (fun blank => none (components_eq_blank.mp blank)), if_neg none]

theorem wholeAgrees_plain {path : Text} (plain : kPathSeparator ∉ path) :
    wholeAgrees (components path) = true ↔ path ≠ [] ∧ strip path = path := by
  rw [components_plain plain, wholeAgrees, if_pos rfl, decide_eq_true_eq]

theorem wholeAgrees_split {front : Text} (plain : kPathSeparator ∉ front) (rest : Text) :
    wholeAgrees (components (front ++ kPathSeparator :: rest)) = true ↔
      (front.dropWhile isspace = [] → front = []) ∧ tailAgrees (front :: components rest) = true := by
  rw [components_split plain, wholeAgrees, if_neg (components_ne_nil rest), Bool.and_eq_true, decide_eq_true_eq]

variable {tree : Node}

theorem follow_piece {place target : Cursor} {name : Text} (isDir : IsDirectoryAt tree place)
    (plain : kPathSeparator ∉ name) (visible : strip name ≠ []) {stored : Text} {steps : List Step}
    (visited : visit tree place
      ((if strip name = [kDot] then Step.stay else .child (strip name) stored) :: steps) = some target) :
    ∃ next, IsDirectoryAt tree next ∧ visit tree next steps = some target ∧
      ∀ rest, follow tree place (lookupMoves name ++ .enter :: rest) = follow tree next rest := by
  rw [lookupMoves_plain plain, if_neg visible]
  by_cases dot : strip name = [kDot]
  · rw [if_pos dot] at visited
    refine ⟨place, isDir, visited, fun rest => ?_⟩
    rw [if_pos dot, List.nil_append, follow_enter isDir]
  · rw [if_neg dot, visit] at visited
    obtain ⟨child, found, entered⟩ := Option.bind_eq_some_iff.mp visited
    obtain ⟨dir, cast, later⟩ := Option.bind_eq_some_iff.mp entered
    obtain ⟨rfl, isChild⟩ := dynCastDirectory_eq_some cast
    refine ⟨dir, isChild, later, fun rest => ?_⟩
    rw [if_neg dot, List.cons_append, List.nil_append, follow, found, Option.bind_some, follow_enter isChild]

theorem tailAgrees_follow {path : Text} (rooted : Rooted tree) (solid : Solid path) (nonempty : path ≠ [])
    (agrees : tailAgrees (components path) = true) {place target : Cursor} (isDir : IsDirectoryAt tree place)
    (visited : visit tree place (pathSteps path) = some target) :
    follow tree place (lookupMoves path) = some target := by
  induction path using pathInduction generalizing place with
  | plain path plain =>
      rw [components_plain plain] at agrees
      have visible : strip path ≠ [] := by simpa [tailAgrees] using agrees
      rw [pathSteps, pieces_plain plain nonempty, List.map_cons, List.map_nil, stepOf_plain plain,
        if_neg visible] at visited
      obtain ⟨next, _, same, leads⟩ := follow_piece isDir plain visible visited
      have entered := leads []
      rw [follow_append] at entered
      obtain ⟨found, here, cast⟩ := Option.bind_eq_some_iff.mp entered
      obtain ⟨dir, isFound, arrived⟩ := Option.bind_eq_some_iff.mp cast
      cases same
      cases arrived
      rw [here, (dynCastDirectory_eq_some isFound).1]
  | split front rest plain ih =>
      rw [components_split plain, tailAgrees_split] at agrees
      rw [pathSteps, pieces_split plain, List.map_cons, stepOf_dir plain] at visited
      rw [lookupMoves_split plain solid]
      by_cases blank : front.dropWhile isspace = []
      · rw [if_pos blank] at visited
        rw [if_pos blank]
        by_cases none : rest = []
        · rw [if_pos none]
          rw [none] at visited
          exact visited
        · rw [if_neg none] at agrees ⊢
          simp only [Bool.and_eq_true] at agrees
          exact ih (solid_split.mp solid) none agrees.2 (rooted_isDirectory rooted) visited
      rw [if_neg blank] at visited ⊢
      by_cases none : rest = []
      · rw [if_pos none] at agrees
        have tight := (of_decide_eq_true agrees).resolve_left blank
        rw [if_neg tight.1, ← tight.2] at visited
        rw [if_neg tight.1, if_pos none, follow_single]
        subst none
        have notDot : strip front ≠ [kDot] := by
          rw [tight.2]
          exact tight.1
        rw [if_neg notDot, visit] at visited
        obtain ⟨child, found, entered⟩ := Option.bind_eq_some_iff.mp visited
        obtain ⟨dir, cast, later⟩ := Option.bind_eq_some_iff.mp entered
        obtain ⟨rfl, _⟩ := dynCastDirectory_eq_some cast
        rw [← tight.2, found]
        exact later
      · rw [if_neg none, Bool.and_eq_true, decide_eq_true_eq] at agrees
        rw [if_neg agrees.1] at visited
        rw [if_neg agrees.1, if_neg none]
        obtain ⟨next, isNext, later, leads⟩ :=
          follow_piece isDir plain (fun empty => blank (strip_eq_nil.mp empty)) visited
        rw [leads]
        exact ih (solid_split.mp solid) none agrees.2 isNext later

theorem pathSteps_plain {path : Text} (plain : kPathSeparator ∉ path) (nonempty : path ≠ []) :
    pathSteps path = [stepOf path] := by
  rw [pathSteps, pieces_plain plain nonempty, List.map_cons, List.map_nil]

theorem pathSteps_split {front : Text} (plain : kPathSeparator ∉ front) (rest : Text) :
    pathSteps (front ++ kPathSeparator :: rest) = stepOf (front ++ [kPathSeparator]) :: pathSteps rest := by
  rw [pathSteps, pieces_split plain, List.map_cons, pathSteps]

theorem tailAgrees_proper {path : Text} (agrees : tailAgrees (components path) = true) :
    Step.nameless ∉ pathSteps path := by
  induction path using pathInduction with
  | plain path plain =>
      by_cases empty : path = []
      · subst empty
        simp [pathSteps, pieces, dirPieces, lastPiece, cut]
      rw [components_plain plain] at agrees
      have visible : strip path ≠ [] := by simpa [tailAgrees] using agrees
      rw [pathSteps_plain plain empty, stepOf_plain plain, if_neg visible, List.mem_singleton]
      split <;> simp
  | split front rest plain ih =>
      rw [components_split plain, tailAgrees_split] at agrees
      have notDot : front.dropWhile isspace ≠ [kDot] := by
        intro dot
        simp [dot] at agrees
      have later : Step.nameless ∉ pathSteps rest := by
        by_cases none : rest = []
        · subst none
          simp [pathSteps, pieces, dirPieces, lastPiece, cut]
        · rw [if_neg none, Bool.and_eq_true] at agrees
          exact ih agrees.2
      rw [pathSteps_split plain, stepOf_dir plain, List.mem_cons, not_or]
      refine ⟨?_, later⟩
      rw [if_neg notDot]
      split
      · simp
      · split <;> simp

theorem trimSlash_cases (name : Text) :
    (trimSlash name = name ∧ ∀ front, kPathSeparator ∉ front → front ≠ [] → name ≠ front ++ [kPathSeparator]) ∨
    ∃ front, kPathSeparator ∉ front ∧ front ≠ [] ∧ name = front ++ [kPathSeparator] ∧ trimSlash name = front := by
  rcases plain_or_split name with plain | ⟨front, rest, plain, rfl⟩
  · left
    refine ⟨trimSlash_plain plain, ?_⟩
    rintro front _ _ rfl
    simp at plain
  by_cases none : rest = []
  · subst none
    by_cases empty : front = []
    · subst empty
      left
      refine ⟨rfl, ?_⟩
      intro front _ nonempty same
      rw [List.nil_append] at same
      have single := congrArg List.length same
      rw [List.length_append, List.length_singleton] at single
      exact nonempty (List.length_eq_zero_iff.mp (by omega))
    · exact .inr ⟨front, plain, empty, rfl, trimSlash_concat plain empty⟩
  · left
    refine ⟨trimSlash_split plain none, ?_⟩
    intro other absent _ same
    have pieces := congrArg components same
    rw [components_split plain, components_split absent, List.cons.injEq] at pieces
    exact none (components_eq_blank.mp pieces.2)

/-- A simplified path keeps a final separator only behind another one. -/
theorem simplified_not_slashed {path front : Text} (plain : kPathSeparator ∉ front)
    (same : simplified path = front ++ [kPathSeparator]) : front = [] := by
  by_contra nonempty
  unfold simplified at same
  rcases trimSlash_cases (trimDot (strip path)) with ⟨whole, unslashed⟩ | ⟨other, absent, _, _, trimmed⟩
  · rw [whole] at same
    exact unslashed front plain nonempty same
  · rw [trimmed] at same
    rw [same] at absent
    simp at absent

theorem simplified_solid {path : Text} (separated : kPathSeparator ∈ simplified path) :
    Solid (simplified path) := by
  have dotted : Solid (trimDot (strip path)) := by
    have whole := strip_solid path
    unfold trimDot
    split
    · rename_i rest same
      rw [same] at whole
      have split : Solid ([kDot] ++ kPathSeparator :: rest) := whole
      exact solid_split.mp split
    · exact whole
  unfold simplified at separated ⊢
  rcases trimSlash_cases (trimDot (strip path)) with ⟨whole, _⟩ | ⟨other, absent, _, _, trimmed⟩
  · rw [whole]
    exact dotted
  · rw [trimmed] at separated
    exact absurd separated absent

/-- On an agreeing path a lookup finds what the steps of the creation lead to. -/
theorem creationAgrees_follow {path : Text} (rooted : Rooted tree) (agrees : creationAgrees path = true)
    {place target : Cursor} (isDir : IsDirectoryAt tree place)
    (visited : visit tree place (pathSteps (simplified path)) = some target) :
    follow tree place (lookupMoves path) = some target := by
  have slashed := fun front => @simplified_not_slashed path front
  have solid := @simplified_solid path
  rw [lookupMoves_eq]
  unfold creationAgrees at agrees
  generalize simplified path = name at agrees visited slashed solid
  rcases plain_or_split name with plain | ⟨front, rest, plain, rfl⟩
  · obtain ⟨nonempty, tight⟩ := (wholeAgrees_plain plain).mp agrees
    rw [pathSteps_plain plain nonempty, stepOf_plain plain, tight, if_neg nonempty] at visited
    rw [nameMoves_plain plain, if_neg nonempty]
    by_cases dot : name = [kDot]
    · rw [if_pos dot] at visited ⊢
      exact visited
    · rw [if_neg dot, visit] at visited
      rw [if_neg dot, follow_single]
      obtain ⟨child, found, entered⟩ := Option.bind_eq_some_iff.mp visited
      obtain ⟨dir, cast, later⟩ := Option.bind_eq_some_iff.mp entered
      obtain ⟨rfl, _⟩ := dynCastDirectory_eq_some cast
      rw [found]
      exact later
  · have solidHere := solid (by simp)
    obtain ⟨first, tail⟩ := (wholeAgrees_split plain rest).mp agrees
    rw [tailAgrees_split] at tail
    rw [pathSteps_split plain, stepOf_dir plain] at visited
    by_cases empty : front = []
    · subst empty
      rw [List.dropWhile_nil, if_pos rfl, visit] at visited
      rw [List.nil_append]
      by_cases none : rest = []
      · subst none
        exact visited
      · rw [if_neg none, Bool.and_eq_true] at tail
        rw [nameMoves_root none, follow]
        exact tailAgrees_follow rooted (solid_split.mp solidHere) none tail.2 (rooted_isDirectory rooted) visited
    · have visible : front.dropWhile isspace ≠ [] := fun blank => empty (first blank)
      have none : rest ≠ [] := fun none => empty (slashed front plain (by rw [none]))
      rw [if_neg none, Bool.and_eq_true, decide_eq_true_eq] at tail
      rw [if_neg visible, if_neg tail.1] at visited
      rw [nameMoves_split plain empty none]
      obtain ⟨next, isNext, later, leads⟩ :=
        follow_piece isDir plain (fun blank => visible (strip_eq_nil.mp blank)) visited
      rw [leads]
      exact tailAgrees_follow rooted (solid_split.mp solidHere) none tail.2 isNext later

theorem creationAgrees_proper {path : Text} (agrees : creationAgrees path = true) :
    Step.nameless ∉ pathSteps (simplified path) := by
  unfold creationAgrees at agrees
  apply tailAgrees_proper
  rcases plain_or_split (simplified path) with plain | ⟨front, rest, plain, same⟩
  · obtain ⟨nonempty, tight⟩ := (wholeAgrees_plain plain).mp agrees
    simp [components_plain plain, tailAgrees, tight, nonempty]
  · rw [same] at agrees
    rw [same, components_split plain]
    exact ((wholeAgrees_split plain rest).mp agrees).2

end Directories

section Disagreement

def NamedBelow (tree : Node) (base place : Cursor) : Prop :=
  base <+: place ∧ ∀ query, base <+: query → query ≠ base → query <+: place →
    ∃ header, headerAt tree query = some header ∧ simplified header.name ≠ []

def Descending (list : List Move) : Prop := Move.root ∉ list ∧ Move.child [] ∉ list

theorem Descending.cons {move : Move} {list : List Move} (descending : Descending (move :: list)) :
    Descending list :=
  ⟨fun member => descending.1 (by simp [member]), fun member => descending.2 (by simp [member])⟩

theorem follow_named {tree : Node} {base place target : Cursor} {list : List Move}
    (descending : Descending list) (below : NamedBelow tree base place)
    (reached : follow tree place list = some target) : NamedBelow tree base target := by
  induction list generalizing place with
  | nil =>
      cases reached
      exact below
  | cons move rest ih =>
      have later := descending.cons
      cases move with
      | root => exact absurd (by simp) descending.1
      | missing => cases reached
      | enter =>
          obtain ⟨dir, cast, onward⟩ := Option.bind_eq_some_iff.mp reached
          obtain ⟨rfl, _⟩ := dynCastDirectory_eq_some cast
          exact ih later below onward
      | child key =>
          obtain ⟨child, found, onward⟩ := Option.bind_eq_some_iff.mp reached
          refine ih later ?_ onward
          obtain ⟨position, rfl, ⟨header, here, same⟩, _⟩ := childAt_eq_some.mp found
          refine ⟨below.1.trans (List.prefix_append place [position]), ?_⟩
          intro query above proper within
          rcases List.prefix_concat_iff.mp within with rfl | inside
          · refine ⟨header, here, fun empty => descending.2 ?_⟩
            rw [← empty, same]
            simp
          · exact below.2 query above proper inside

theorem create_below {tree after : Node} {dir current : Cursor} {step : Step} (relative : step ≠ .root)
    (done : create tree dir step = .ok (after, current)) : dir <+: current := by
  rcases create_ok done with ⟨_, ⟨root, _⟩ | ⟨_, rfl⟩ | ⟨_, _, _, known, _⟩⟩ | ⟨name, added, _⟩
  · exact absurd root relative
  · exact List.prefix_refl _
  · obtain ⟨position, rfl, _⟩ := childAt_eq_some.mp known
    exact List.prefix_append dir [position]
  · obtain ⟨count, rfl, _⟩ := added.behind
    exact List.prefix_append dir [count]

theorem createAll_below {tree after : Node} {dir current : Cursor} {steps : List Step}
    (relative : Step.root ∉ steps) (done : createAll tree dir steps = .ok (after, current)) :
    dir <+: current := by
  induction steps generalizing tree dir with
  | nil =>
      simp only [createAll, Except.ok.injEq, Prod.mk.injEq] at done
      rw [done.2]
  | cons step rest ih =>
      simp only [createAll, bind_eq_ok, Prod.exists] at done
      obtain ⟨middle, next, first, later⟩ := done
      have onward := ih (fun member => relative (by simp [member])) later
      exact (create_below (fun root => relative (by simp [root])) first).trans onward

/-- A piece that is reduced to nothing puts a directory without a name on the way. -/
theorem createAll_nameless {tree after : Node} {dir current : Cursor} {steps : List Step}
    (relative : Step.root ∉ steps) (nameless : Step.nameless ∈ steps)
    (done : createAll tree dir steps = .ok (after, current)) :
    ∃ query header, dir <+: query ∧ query ≠ dir ∧ query <+: current ∧
      headerAt after query = some header ∧ header.name = [] := by
  induction steps generalizing tree dir with
  | nil => cases nameless
  | cons step rest ih =>
      simp only [createAll, bind_eq_ok, Prod.exists] at done
      obtain ⟨middle, next, first, later⟩ := done
      have noRoot : Step.root ∉ rest := fun member => relative (by simp [member])
      have below := create_below (fun root => relative (by simp [root])) first
      rcases List.mem_cons.mp nameless with rfl | member
      · rcases create_ok first with ⟨_, ⟨wrong, _⟩ | ⟨wrong, _⟩ | ⟨_, _, wrong, _⟩⟩ |
          ⟨name, added, ⟨_, rfl⟩ | ⟨_, wrong, _⟩⟩
        · cases wrong
        · cases wrong
        · cases wrong
        · obtain ⟨count, rfl, _⟩ := added.behind
          exact ⟨_, _, below, by simp, createAll_below noRoot later,
            createAll_extends later _ _ added.new_header, rfl⟩
        · cases wrong
      · obtain ⟨query, header, above, proper, within, here, empty⟩ := ih noRoot member later
        refine ⟨query, header, below.trans above, ?_, within, here, empty⟩
        rintro rfl
        exact proper (above.eq_of_length_le below.length_le).symm

theorem nameMoves_descending {name : Text} (plain : kPathSeparator ∉ name) : Descending (nameMoves name) := by
  rw [nameMoves_plain plain]
  split
  · exact ⟨by simp, by simp⟩
  · rename_i nonempty
    split
    · exact ⟨by simp, by simp⟩
    · refine ⟨by simp, ?_⟩
      rw [List.mem_singleton, Move.child.injEq]
      exact fun same => nonempty same.symm

theorem lookupMoves_descending_plain {name : Text} (plain : kPathSeparator ∉ name) :
    Descending (lookupMoves name) := by
  rw [lookupMoves_eq, simplified_plain plain]
  exact nameMoves_descending (strip_plain plain)

theorem descending_enter {front back : List Move} (first : Descending front) (second : Descending back) :
    Descending (front ++ .enter :: back) := by
  constructor
  · simpa using ⟨first.1, second.1⟩
  · simpa using ⟨first.2, second.2⟩

/-- Without an empty component a lookup never goes back to the root. -/
theorem moves_descending {path : Text} (solid : Solid path) (relative : Step.root ∉ pathSteps path) :
    Descending (lookupMoves path) ∧ Descending (nameMoves (trimSlash path)) := by
  induction path using pathInduction with
  | plain path plain =>
      rw [trimSlash_plain plain]
      exact ⟨lookupMoves_descending_plain plain, nameMoves_descending plain⟩
  | split front rest plain ih =>
      have inner : kPathSeparator ∉ front.dropWhile isspace :=
        fun member => plain (List.dropWhile_subset isspace member)
      rw [pathSteps_split plain, stepOf_dir plain, List.mem_cons, not_or] at relative
      have visible : front.dropWhile isspace ≠ [] := by
        intro blank
        exact relative.1 (by rw [if_pos blank])
      have nonempty : front ≠ [] := by
        rintro rfl
        exact visible rfl
      obtain ⟨looked, named⟩ := ih (solid_split.mp solid) relative.2
      rw [lookupMoves_split plain solid, if_neg visible]
      by_cases none : rest = []
      · subst none
        rw [trimSlash_concat plain nonempty, if_pos rfl]
        refine ⟨?_, nameMoves_descending plain⟩
        split
        · exact named
        · refine ⟨by simp, ?_⟩
          rw [List.mem_singleton, Move.child.injEq]
          exact fun same => visible same.symm
      · rw [trimSlash_split plain none, nameMoves_split plain nonempty none, if_neg none]
        have whole := descending_enter (lookupMoves_descending_plain plain) looked
        refine ⟨?_, whole⟩
        split
        · exact named
        · exact whole

theorem lookupMoves_descending {path : Text} (relative : Step.root ∉ pathSteps (simplified path)) :
    Descending (lookupMoves path) := by
  have slashed := fun front => @simplified_not_slashed path front
  have solid := @simplified_solid path
  rw [lookupMoves_eq]
  generalize simplified path = name at relative slashed solid
  rcases plain_or_split name with plain | ⟨front, rest, plain, rfl⟩
  · exact nameMoves_descending plain
  · have whole := (moves_descending (solid (by simp)) relative).2
    have none : rest ≠ [] := by
      rintro rfl
      have empty := slashed front plain rfl
      subst empty
      exact relative (by decide)
    rwa [trimSlash_split plain none] at whole

/-- Names of a tree built by calls are stripped of blanks when they are compared. -/
theorem childAt_tight {tree : Node} {place child : Cursor} {key : Text} (plain : PlainNames tree)
    (found : childAt tree place key = some child) : strip key = key := by
  obtain ⟨position, _, ⟨header, here, rfl⟩, _⟩ := childAt_eq_some.mp found
  rw [simplified_plain (plain place position header here), strip_strip]

theorem stepOf_dir_proper {front : Text} (plain : kPathSeparator ∉ front)
    (notRoot : stepOf (front ++ [kPathSeparator]) ≠ .root)
    (named : stepOf (front ++ [kPathSeparator]) ≠ .nameless) :
    front.dropWhile isspace ≠ [] ∧ front.dropWhile isspace ≠ [kDot] := by
  rw [stepOf_dir plain] at notRoot named
  constructor
  · intro blank
    exact notRoot (by rw [if_pos blank])
  · intro dot
    rw [dot] at named
    exact named rfl

theorem tailAgrees_of_follow {tree : Node} {path : Text} (plainNames : PlainNames tree) (solid : Solid path)
    (nonempty : path ≠ []) (relative : Step.root ∉ pathSteps path) (proper : Step.nameless ∉ pathSteps path)
    {place target : Cursor} (reached : follow tree place (lookupMoves path) = some target) :
    tailAgrees (components path) = true := by
  induction path using pathInduction generalizing place with
  | plain path plain =>
      rw [components_plain plain, tailAgrees, if_pos rfl, decide_eq_true_eq]
      intro blank
      rw [pathSteps_plain plain nonempty, stepOf_plain plain, if_pos blank] at proper
      simp at proper
  | split front rest plain ih =>
      rw [pathSteps_split plain, List.mem_cons, not_or] at relative proper
      obtain ⟨visible, notDot⟩ := stepOf_dir_proper plain (Ne.symm relative.1) (Ne.symm proper.1)
      rw [lookupMoves_split plain solid, if_neg visible, if_neg notDot] at reached
      rw [components_split plain, tailAgrees_split]
      by_cases none : rest = []
      · rw [if_pos none, follow_single] at reached
        rw [if_pos none, decide_eq_true_eq]
        have tight := childAt_tight plainNames reached
        rw [strip_dropWhile] at tight
        exact .inr ⟨notDot, tight⟩
      · rw [if_neg none] at reached
        obtain ⟨next, _, onward⟩ := follow_through reached
        rw [if_neg none, Bool.and_eq_true, decide_eq_true_eq]
        exact ⟨notDot, ih (solid_split.mp solid) none relative.2 proper.2 onward⟩

theorem creationAgrees_of_follow {tree : Node} {path : Text} (plainNames : PlainNames tree)
    (relative : Step.root ∉ pathSteps (simplified path))
    (proper : Step.nameless ∉ pathSteps (simplified path)) {place target : Cursor}
    (reached : follow tree place (lookupMoves path) = some target) : creationAgrees path = true := by
  have slashed := fun front => @simplified_not_slashed path front
  have solid := @simplified_solid path
  rw [lookupMoves_eq] at reached
  unfold creationAgrees
  generalize simplified path = name at relative proper slashed solid reached
  rcases plain_or_split name with plain | ⟨front, rest, plain, rfl⟩
  · rw [wholeAgrees_plain plain]
    rw [nameMoves_plain plain] at reached
    split at reached
    · cases reached
    · rename_i nonempty
      refine ⟨nonempty, ?_⟩
      split at reached
      · rename_i dot
        rw [dot]
        decide
      · rw [follow_single] at reached
        exact childAt_tight plainNames reached
  · rw [wholeAgrees_split plain]
    rw [pathSteps_split plain, List.mem_cons, not_or] at relative proper
    obtain ⟨visible, notDot⟩ := stepOf_dir_proper plain (Ne.symm relative.1) (Ne.symm proper.1)
    have nonempty : front ≠ [] := by
      rintro rfl
      exact visible rfl
    have none : rest ≠ [] := fun none => nonempty (slashed front plain (by rw [none]))
    rw [nameMoves_split plain nonempty none] at reached
    obtain ⟨next, _, onward⟩ := follow_through reached
    refine ⟨fun blank => absurd blank visible, ?_⟩
    rw [tailAgrees_split, if_neg none, Bool.and_eq_true, decide_eq_true_eq]
    exact ⟨notDot, tailAgrees_of_follow plainNames (solid_split.mp (solid (by simp))) none relative.2 proper.2
      onward⟩

/-- What a walk through a directory without a name leads to is never found by a lookup. -/
theorem follow_not_nameless {tree after : Node} {dir current target : Cursor} {path : Text} {steps : List Step}
    (relative : Step.root ∉ steps) (noRoot : Step.root ∉ pathSteps (simplified path))
    (nameless : Step.nameless ∈ steps) (done : createAll tree dir steps = .ok (after, current))
    {final : Node} (extended : Extends after final) (below : current <+: target) :
    follow final dir (lookupMoves path) ≠ some target := by
  intro reached
  have start : NamedBelow final dir dir := by
    refine ⟨List.prefix_refl _, ?_⟩
    intro query above proper within
    exact absurd (within.eq_of_length_le above.length_le) proper
  have named := follow_named (lookupMoves_descending noRoot) start reached
  obtain ⟨query, header, above, proper, within, here, empty⟩ := createAll_nameless relative nameless done
  obtain ⟨other, found, visible⟩ := named.2 query above proper (within.trans below)
  rw [extended _ _ here, Option.some.injEq] at found
  rw [← found, empty] at visible
  exact visible rfl

end Disagreement

section Files

/-- What is left of a file path leads through visible directories other than the dot to a
visible name other than the dot. -/
def tailFileAgrees : List Text → Bool
  | [] => false
  | name :: rest =>
      if rest = [] then decide (strip name ≠ [] ∧ strip name ≠ [kDot])
      else decide (name.dropWhile isspace ≠ [] ∧ name.dropWhile isspace ≠ [kDot]) && tailFileAgrees rest

def wholeFileAgrees : List Text → Bool
  | [] => false
  | name :: rest =>
      if rest = [] then decide (name ≠ [] ∧ name ≠ [kDot] ∧ strip name = name)
      else tailFileAgrees (name :: rest)

def fileAgrees (path : Text) : Bool := wholeFileAgrees (components (simplified path))

theorem tailFileAgrees_plain {path : Text} (plain : kPathSeparator ∉ path) :
    tailFileAgrees (components path) = true ↔ strip path ≠ [] ∧ strip path ≠ [kDot] := by
  rw [components_plain plain, tailFileAgrees, if_pos rfl, decide_eq_true_eq]

theorem tailFileAgrees_split {front : Text} (plain : kPathSeparator ∉ front) (rest : Text) :
    tailFileAgrees (components (front ++ kPathSeparator :: rest)) = true ↔
      (front.dropWhile isspace ≠ [] ∧ front.dropWhile isspace ≠ [kDot]) ∧
        tailFileAgrees (components rest) = true := by
  rw [components_split plain, tailFileAgrees, if_neg (components_ne_nil rest), Bool.and_eq_true,
    decide_eq_true_eq]

theorem wholeFileAgrees_plain {path : Text} (plain : kPathSeparator ∉ path) :
    wholeFileAgrees (components path) = true ↔ path ≠ [] ∧ path ≠ [kDot] ∧ strip path = path := by
  rw [components_plain plain, wholeFileAgrees, if_pos rfl, decide_eq_true_eq]

theorem wholeFileAgrees_split {front : Text} (plain : kPathSeparator ∉ front) (rest : Text) :
    wholeFileAgrees (components (front ++ kPathSeparator :: rest)) =
      tailFileAgrees (components (front ++ kPathSeparator :: rest)) := by
  rw [components_split plain, wholeFileAgrees, if_neg (components_ne_nil rest)]

theorem dirSteps_split {front : Text} (plain : kPathSeparator ∉ front) (rest : Text) :
    dirSteps (front ++ kPathSeparator :: rest) = stepOf (front ++ [kPathSeparator]) :: dirSteps rest := by
  rw [dirSteps, dirPieces_split plain, List.map_cons, dirSteps]

theorem dirSteps_plain {path : Text} (plain : kPathSeparator ∉ path) : dirSteps path = [] := by
  rw [dirSteps, dirPieces_plain plain, List.map_nil]

variable {tree : Node}

theorem tailFileAgrees_follow {path : Text} (solid : Solid path)
    (agrees : tailFileAgrees (components path) = true) {place target : Cursor}
    (isDir : IsDirectoryAt tree place) (visited : visit tree place (dirSteps path) = some target) :
    follow tree place (lookupMoves path) = childAt tree target (strip (lastPiece path)) := by
  induction path using pathInduction generalizing place with
  | plain path plain =>
      obtain ⟨visible, notDot⟩ := (tailFileAgrees_plain plain).mp agrees
      rw [dirSteps_plain plain] at visited
      cases visited
      rw [lookupMoves_plain plain, if_neg visible, if_neg notDot, follow_single, lastPiece_plain plain]
  | split front rest plain ih =>
      obtain ⟨⟨visible, notDot⟩, later⟩ := (tailFileAgrees_split plain rest).mp agrees
      have none : rest ≠ [] := by
        rintro rfl
        exact absurd later (by decide)
      rw [dirSteps_split plain, stepOf_dir plain, if_neg visible, if_neg notDot] at visited
      rw [lookupMoves_split plain solid, if_neg visible, if_neg notDot, if_neg none, lastPiece_split plain]
      obtain ⟨next, isNext, onward, leads⟩ :=
        follow_piece isDir plain (fun blank => visible (strip_eq_nil.mp blank)) visited
      rw [leads]
      exact ih (solid_split.mp solid) later isNext onward

/-- A lookup of an agreeing file path looks for its last component where its steps lead. -/
theorem fileAgrees_follow {path : Text} (agrees : fileAgrees path = true) {place target : Cursor}
    (isDir : IsDirectoryAt tree place)
    (visited : visit tree place (dirSteps (simplified path)) = some target) :
    follow tree place (lookupMoves path) = childAt tree target (strip (lastPiece (simplified path))) := by
  have solid := @simplified_solid path
  rw [lookupMoves_eq]
  unfold fileAgrees at agrees
  generalize simplified path = name at agrees visited solid
  rcases plain_or_split name with plain | ⟨front, rest, plain, rfl⟩
  · obtain ⟨nonempty, notDot, tight⟩ := (wholeFileAgrees_plain plain).mp agrees
    rw [dirSteps_plain plain] at visited
    cases visited
    rw [nameMoves_plain plain, if_neg nonempty, if_neg notDot, follow_single, lastPiece_plain plain, tight]
  · rw [wholeFileAgrees_split plain] at agrees
    obtain ⟨⟨visible, notDot⟩, later⟩ := (tailFileAgrees_split plain rest).mp agrees
    have none : rest ≠ [] := by
      rintro rfl
      exact absurd later (by decide)
    have nonempty : front ≠ [] := by
      rintro rfl
      exact visible rfl
    rw [dirSteps_split plain, stepOf_dir plain, if_neg visible, if_neg notDot] at visited
    rw [nameMoves_split plain nonempty none, lastPiece_split plain]
    obtain ⟨next, isNext, onward, leads⟩ :=
      follow_piece isDir plain (fun blank => visible (strip_eq_nil.mp blank)) visited
    rw [leads]
    exact tailFileAgrees_follow (solid_split.mp (solid (by simp))) later isNext onward

theorem tailFileAgrees_steps {path : Text} (agrees : tailFileAgrees (components path) = true) :
    Step.root ∉ dirSteps path ∧ Step.nameless ∉ dirSteps path := by
  induction path using pathInduction with
  | plain path plain => simp [dirSteps_plain plain]
  | split front rest plain ih =>
      obtain ⟨⟨visible, notDot⟩, later⟩ := (tailFileAgrees_split plain rest).mp agrees
      obtain ⟨noRoot, named⟩ := ih later
      rw [dirSteps_split plain, stepOf_dir plain, if_neg visible, if_neg notDot, List.mem_cons,
        List.mem_cons, not_or, not_or]
      split <;> simp [noRoot, named]

theorem fileAgrees_steps {path : Text} (agrees : fileAgrees path = true) :
    Step.root ∉ dirSteps (simplified path) ∧ Step.nameless ∉ dirSteps (simplified path) := by
  unfold fileAgrees at agrees
  rcases plain_or_split (simplified path) with plain | ⟨front, rest, plain, same⟩
  · simp [dirSteps_plain plain]
  · rw [same] at agrees ⊢
    rw [wholeFileAgrees_split plain] at agrees
    exact tailFileAgrees_steps agrees

theorem not_both {place : Cursor} (isDir : IsDirectoryAt tree place) : ¬IsFileAt tree place := by
  rintro ⟨header, contents, found, has⟩
  obtain ⟨other, here, noContents⟩ := isDir
  rw [found, Option.some.injEq] at here
  rw [← here, has] at noContents
  cases noContents

theorem tailFileAgrees_of_follow {path : Text} (solid : Solid path) (nonempty : lastPiece path ≠ [])
    (relative : Step.root ∉ dirSteps path) (proper : Step.nameless ∉ dirSteps path)
    {place target : Cursor} (isDir : IsDirectoryAt tree place) (isFile : IsFileAt tree target)
    (reached : follow tree place (lookupMoves path) = some target) :
    tailFileAgrees (components path) = true := by
  induction path using pathInduction generalizing place with
  | plain path plain =>
      rw [tailFileAgrees_plain plain]
      rw [lookupMoves_plain plain] at reached
      split at reached
      · cases reached
      · rename_i visible
        split at reached
        · cases reached
          exact absurd isFile (not_both isDir)
        · rename_i notDot
          exact ⟨visible, notDot⟩
  | split front rest plain ih =>
      rw [dirSteps_split plain, List.mem_cons, not_or] at relative proper
      obtain ⟨visible, notDot⟩ := stepOf_dir_proper plain (Ne.symm relative.1) (Ne.symm proper.1)
      rw [lastPiece_split plain] at nonempty
      have none : rest ≠ [] := by
        rintro rfl
        exact nonempty rfl
      rw [lookupMoves_split plain solid, if_neg visible, if_neg notDot, if_neg none] at reached
      obtain ⟨next, isNext, onward⟩ := follow_through reached
      rw [tailFileAgrees_split plain]
      exact ⟨⟨visible, notDot⟩, ih (solid_split.mp solid) nonempty relative.2 proper.2 isNext onward⟩

theorem fileAgrees_of_follow {path : Text} (plainNames : PlainNames tree)
    (nonempty : lastPiece (simplified path) ≠ []) (relative : Step.root ∉ dirSteps (simplified path))
    (proper : Step.nameless ∉ dirSteps (simplified path)) {place target : Cursor}
    (isDir : IsDirectoryAt tree place) (isFile : IsFileAt tree target)
    (reached : follow tree place (lookupMoves path) = some target) : fileAgrees path = true := by
  have solid := @simplified_solid path
  rw [lookupMoves_eq] at reached
  unfold fileAgrees
  generalize simplified path = name at relative proper solid reached nonempty
  rcases plain_or_split name with plain | ⟨front, rest, plain, rfl⟩
  · rw [wholeFileAgrees_plain plain]
    rw [nameMoves_plain plain] at reached
    split at reached
    · cases reached
    · rename_i visible
      split at reached
      · cases reached
        exact absurd isFile (not_both isDir)
      · rename_i notDot
        rw [follow_single] at reached
        exact ⟨visible, notDot, childAt_tight plainNames reached⟩
  · rw [dirSteps_split plain, List.mem_cons, not_or] at relative proper
    obtain ⟨visible, notDot⟩ := stepOf_dir_proper plain (Ne.symm relative.1) (Ne.symm proper.1)
    rw [lastPiece_split plain] at nonempty
    have none : rest ≠ [] := by
      rintro rfl
      exact nonempty rfl
    have some : front ≠ [] := by
      rintro rfl
      exact visible rfl
    rw [nameMoves_split plain some none] at reached
    obtain ⟨next, isNext, onward⟩ := follow_through reached
    rw [wholeFileAgrees_split plain, tailFileAgrees_split plain]
    exact ⟨⟨visible, notDot⟩, tailFileAgrees_of_follow (solid_split.mp (solid (by simp))) nonempty relative.2
      proper.2 isNext isFile onward⟩

end Files

section Agreement

variable {tree after : Node} {dir : Cursor} {path : Text}

theorem mkdir_lookup (rooted : Rooted tree) (plainNames : PlainNames tree) (isDir : IsDirectoryAt tree dir)
    {made : Cursor} (done : mkdir tree dir path = .ok (after, made)) :
    (creationAgrees path = true → getDir after dir path = .ok (some made)) ∧
    (Step.root ∉ pathSteps (simplified path) → getDir after dir path = .ok (some made) →
      creationAgrees path = true) := by
  rw [mkdir_eq rooted isDir] at done
  have named := pathSteps_wellNamed (simplified path)
  obtain ⟨stillRooted, isMade⟩ := createAll_rooted rooted isDir done
  have isDirNow := isDirectoryAt_extends (createAll_extends done) isDir
  rw [getDir, getNode_eq stillRooted isDirNow, ok_bind]
  constructor
  · intro agrees
    have visited := createAll_visit named (creationAgrees_proper agrees) done
    rw [creationAgrees_follow stillRooted agrees isDirNow visited, Option.bind_some, dynCastDirectory_eq isMade]
    rfl
  · intro relative found
    rw [pure_eq_ok] at found
    obtain ⟨node, reached, cast⟩ := Option.bind_eq_some_iff.mp found
    obtain ⟨rfl, _⟩ := dynCastDirectory_eq_some cast
    have proper : Step.nameless ∉ pathSteps (simplified path) := fun nameless =>
      follow_not_nameless relative relative nameless done (Extends.refl after) (List.prefix_refl _) reached
    exact creationAgrees_of_follow (createAll_plainNames named plainNames done) relative proper reached

theorem pathSteps_last (path : Text) (nonempty : lastPiece path ≠ []) :
    pathSteps path = dirSteps path ++ [stepOf (lastPiece path)] := by
  rw [pathSteps, pieces, if_neg nonempty, List.map_append, dirSteps]
  rfl

theorem pathSteps_relative (nonempty : lastPiece path ≠ []) (relative : Step.root ∉ dirSteps path) :
    Step.root ∉ pathSteps path := by
  rw [pathSteps_last path nonempty, List.mem_append, not_or, List.mem_singleton,
    stepOf_plain (lastPiece_separator path)]
  refine ⟨relative, ?_⟩
  split
  · simp
  · split <;> simp

theorem mkfile_lookup (rooted : Rooted tree) (plainNames : PlainNames tree) (isDir : IsDirectoryAt tree dir)
    {file : Cursor} (before : getNode tree dir path = .ok none)
    (done : mkfile tree dir path = .ok (after, file)) :
    (fileAgrees path = true → getFile after dir path = .ok (some file)) ∧
    (Step.root ∉ dirSteps (simplified path) → getFile after dir path = .ok (some file) →
      fileAgrees path = true) := by
  obtain ⟨_, nonempty, middle, current, walked, added⟩ := mkfile_ok rooted isDir done
  obtain ⟨walkedRooted, _⟩ := createAll_rooted rooted isDir walked
  have stillRooted := added.rooted walkedRooted (fun noContents => by cases noContents)
  have extended : Extends middle after := fun _ _ found => added.keeps found
  have isDirMiddle := isDirectoryAt_extends (createAll_extends walked) isDir
  have isDirNow := isDirectoryAt_extends extended isDirMiddle
  have isFile : IsFileAt after file := ⟨_, [], added.new_header, rfl⟩
  have named := dirSteps_wellNamed (simplified path)
  have lastPlain := lastPiece_separator (simplified path)
  rw [getNode_eq rooted isDir, Except.ok.injEq] at before
  rw [getFile, getNode_eq stillRooted isDirNow, ok_bind]
  obtain ⟨count, place, bound⟩ := added.behind
  constructor
  · intro agrees
    obtain ⟨noRoot, proper⟩ := fileAgrees_steps agrees
    have visited := createAll_visit named proper walked
    have fresh : childAt middle current (strip (lastPiece (simplified path))) = none := by
      rcases createAll_relative noRoot walked with ⟨rfl, _⟩ | empty
      · rw [← fileAgrees_follow agrees isDir visited, before]
      · refine childAt_eq_none.mpr ?_
        rintro position ⟨header, here, _⟩
        rw [empty position] at here
        cases here
    have found : childAt after current (strip (lastPiece (simplified path))) = some file := by
      have here := added.new_header
      rw [place] at here
      refine childAt_eq_some.mpr ⟨count, place, ⟨_, here, simplified_plain lastPlain⟩, ?_⟩
      rintro earlier below ⟨header, there, same⟩
      rcases added.cases there with ⟨new, _⟩ | old
      · rw [place] at new
        have equal := (List.append_inj' new rfl).2
        simp at equal
        omega
      · exact childAt_eq_none.mp fresh earlier ⟨header, old, same⟩
    rw [fileAgrees_follow agrees isDirNow (visit_extends extended visited), found, Option.bind_some, dynCastFile_eq isFile]
    rfl
  · intro relative looked
    rw [pure_eq_ok] at looked
    obtain ⟨node, reached, cast⟩ := Option.bind_eq_some_iff.mp looked
    obtain ⟨rfl, _⟩ := dynCastFile_eq_some cast
    have noRoot := pathSteps_relative nonempty relative
    have proper : Step.nameless ∉ dirSteps (simplified path) := fun nameless =>
      follow_not_nameless relative noRoot nameless walked extended (place ▸ List.prefix_append current [count])
        reached
    have plainNow := added.plainNames (createAll_plainNames named plainNames walked) lastPlain
    exact fileAgrees_of_follow plainNow nonempty relative proper isDirNow isFile reached

/-- A lookup finds what a call has just created when the path agrees; among paths without an
empty component it finds it on no others. -/
theorem creation_lookup_agree (reachable : calls.Reachable tree) (isDir : IsDirectoryAt tree dir)
    (path : Text) :
    (∀ after made, mkdir tree dir path = .ok (after, made) →
      (creationAgrees path = true → getDir after dir path = .ok (some made)) ∧
      (Step.root ∉ pathSteps (simplified path) → getDir after dir path = .ok (some made) →
        creationAgrees path = true)) ∧
    (∀ after file, getNode tree dir path = .ok none → mkfile tree dir path = .ok (after, file) →
      (fileAgrees path = true → getFile after dir path = .ok (some file)) ∧
      (Step.root ∉ dirSteps (simplified path) → getFile after dir path = .ok (some file) →
        fileAgrees path = true)) := by
  have rooted := reachable_rooted reachable
  have plainNames := reachable_plainNames reachable
  exact ⟨fun after made done => mkdir_lookup rooted plainNames isDir done,
    fun after file before done => mkfile_lookup rooted plainNames isDir before done⟩

/-- `mkdir("a/./b")` on an empty root returns a directory that `getDir("a/./b")` does not find. -/
theorem mkdir_inner_dot_lost : ∃ after made,
    mkdir rootDirectory [] [97, 47, 46, 47, 98] = .ok (after, made) ∧
      getDir after [] [97, 47, 46, 47, 98] = .ok none :=
  ⟨.directory [47] none [.directory [97] (some []) [.directory [] (some [0]) [.directory [98] (some [0, 0]) []]]],
    [0, 0, 0], rfl, rfl⟩

/-- `mkdir("a/b")` and `mkfile("f")` on an empty root. -/
theorem creation_lookup_agree_nested :
    getDir (.directory [47] none [.directory [97] (some []) [.directory [98] (some [0]) []]]) []
      [97, 47, 98] = .ok (some [0, 0]) ∧
    getFile (.directory [47] none [.file [102] (some []) []]) [] [102] = .ok (some [0]) :=
  ⟨((creation_lookup_agree (.start rfl) (rooted_isDirectory rootDirectory_rooted) [97, 47, 98]).1 _ _ rfl).1 rfl,
    ((creation_lookup_agree (.start rfl) (rooted_isDirectory rootDirectory_rooted) [102]).2 _ _ rfl rfl).1 rfl⟩

end Agreement

end ToyKernel.Vfs
