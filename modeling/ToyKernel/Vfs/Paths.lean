import ToyKernel.Vfs.Strings

/-!
How `SimplifyName` acts on the pieces of a path. The loops of `mkdir` and `mkfile` cut a path
after each separator; every piece is either a component with its separator or the last
component alone.
-/

namespace ToyKernel.Vfs

theorem separator_not_blank : isspace kPathSeparator = false := by decide

theorem dot_not_blank : isspace kDot = false := by decide

section Strip

theorem dropWhile_eq_self {path : Text} (solid : isspace (path.headD 0) = false) :
    path.dropWhile isspace = path := by
  cases path with
  | nil => rfl
  | cons c rest => exact List.dropWhile_cons_of_neg (by simpa using solid)

theorem head_dropWhile (path : Text) : isspace ((path.dropWhile isspace).headD 0) = false := by
  induction path with
  | nil => decide
  | cons c rest ih =>
      by_cases blank : isspace c = true
      · rw [List.dropWhile_cons_of_pos blank]
        exact ih
      · rw [List.dropWhile_cons_of_neg blank]
        simpa using blank

theorem head_rdropWhile {path : Text} (solid : isspace (path.headD 0) = false) :
    isspace ((path.rdropWhile isspace).headD 0) = false := by
  obtain ⟨cut, whole⟩ := List.rdropWhile_prefix isspace path
  cases trimmed : path.rdropWhile isspace with
  | nil => decide
  | cons c rest =>
      rw [trimmed, List.cons_append] at whole
      rw [← whole] at solid
      exact solid

theorem head_strip (name : Text) : isspace ((strip name).headD 0) = false :=
  head_rdropWhile (head_dropWhile name)

theorem strip_dropWhile (name : Text) : strip (name.dropWhile isspace) = strip name := by
  unfold strip
  rw [List.dropWhile_idempotent]

@[simp] theorem strip_strip (name : Text) : strip (strip name) = strip name := by
  have again := dropWhile_eq_self (head_strip name)
  rw [strip, again, strip, List.rdropWhile_idempotent]

theorem strip_subset (name : Text) : strip name ⊆ name := by
  intro c member
  have inside := (List.rdropWhile_prefix isspace (name.dropWhile isspace)).subset member
  exact List.dropWhile_subset isspace inside

theorem strip_plain {name : Text} (plain : kPathSeparator ∉ name) : kPathSeparator ∉ strip name :=
  fun member => plain (strip_subset name member)

/-- A separator at the end shields the component before it. -/
theorem strip_concat_separator (name : Text) :
    strip (name ++ [kPathSeparator]) = name.dropWhile isspace ++ [kPathSeparator] := by
  have front : (name ++ [kPathSeparator]).dropWhile isspace =
      name.dropWhile isspace ++ [kPathSeparator] := by
    induction name with
    | nil => rfl
    | cons c rest ih =>
        rw [List.cons_append]
        by_cases blank : isspace c = true
        · rw [List.dropWhile_cons_of_pos blank, List.dropWhile_cons_of_pos blank, ih]
        · rw [List.dropWhile_cons_of_neg blank, List.dropWhile_cons_of_neg blank, List.cons_append]
  rw [strip, front]
  exact List.rdropWhile_concat_neg _ _ _ (by simp [separator_not_blank])

end Strip

section Find

theorem find_plain {path : Text} {c : UInt8} (absent : c ∉ path) : find path c = path.length := by
  apply List.findIdx_eq_length.mpr
  intro d member
  simpa using fun same : d = c => absent (same ▸ member)

theorem find_split {front : Text} {c : UInt8} (absent : c ∉ front) (rest : Text) :
    find (front ++ c :: rest) c = front.length := by
  induction front with
  | nil => simp [find, List.findIdx_cons]
  | cons d front ih =>
      have other : d ≠ c := fun same => absent (by simp [same])
      have later := ih (fun member => absent (List.mem_cons_of_mem d member))
      simp only [find] at later ⊢
      rw [List.cons_append, List.findIdx_cons, beq_false_of_ne other, later]
      rfl

end Find

section Simplify

theorem trimDot_plain {name : Text} (plain : kPathSeparator ∉ name) : trimDot name = name := by
  unfold trimDot
  split
  · simp [kPathSeparator] at plain
  · rfl

theorem trimSlash_plain {name : Text} (plain : kPathSeparator ∉ name) : trimSlash name = name := by
  unfold trimSlash
  rw [find_plain plain]
  split
  · rfl
  · rw [if_neg (by omega)]

theorem simplified_plain {name : Text} (plain : kPathSeparator ∉ name) :
    simplified name = strip name := by
  have inner := strip_plain plain
  rw [simplified, trimDot_plain inner, trimSlash_plain inner]

theorem trimSlash_concat {name : Text} (plain : kPathSeparator ∉ name) (nonempty : name ≠ []) :
    trimSlash (name ++ [kPathSeparator]) = name := by
  unfold trimSlash
  rw [find_split plain, if_neg, if_pos (by simp), List.take_left]
  intro root
  apply nonempty
  simpa using root

theorem trimSlash_split {front rest : Text} (plain : kPathSeparator ∉ front) (more : rest ≠ []) :
    trimSlash (front ++ kPathSeparator :: rest) = front ++ kPathSeparator :: rest := by
  have longer : 0 < rest.length := List.length_pos_of_ne_nil more
  unfold trimSlash
  rw [find_split plain]
  split
  · rfl
  · rw [if_neg]
    rw [List.length_append, List.length_cons]
    omega

theorem trimDot_concat {name : Text} (plain : kPathSeparator ∉ name) (other : name ≠ [kDot]) (rest : Text) :
    trimDot (name ++ kPathSeparator :: rest) = name ++ kPathSeparator :: rest := by
  rcases name with _ | ⟨c, _ | ⟨d, more⟩⟩
  · rfl
  · have different : c ≠ 46 := fun same => other (by rw [same, kDot])
    unfold trimDot
    split
    · rename_i whole
      simp only [List.cons_append, List.nil_append, List.cons.injEq] at whole
      exact absurd whole.1 different
    · rfl
  · have different : d ≠ 47 := fun same => plain (by simp [same, kPathSeparator])
    unfold trimDot
    split
    · rename_i whole
      simp only [List.cons_append, List.cons.injEq] at whole
      exact absurd whole.2.1 different
    · rfl

/-- The name under which `mkdir_once` creates the directory of a piece. -/
theorem simplified_piece {name : Text} (plain : kPathSeparator ∉ name) :
    simplified (name ++ [kPathSeparator]) =
      if name.dropWhile isspace = [] then [kPathSeparator]
      else if name.dropWhile isspace = [kDot] then []
      else name.dropWhile isspace := by
  have inner : kPathSeparator ∉ name.dropWhile isspace :=
    fun member => plain (List.dropWhile_subset isspace member)
  rw [simplified, strip_concat_separator]
  by_cases blank : name.dropWhile isspace = []
  · rw [if_pos blank, blank]
    rfl
  rw [if_neg blank]
  by_cases dot : name.dropWhile isspace = [kDot]
  · rw [if_pos dot, dot]
    rfl
  rw [if_neg dot, trimDot_concat inner dot, trimSlash_concat inner blank]

end Simplify

section Pieces

def cut : Text → List Text × Text
  | [] => ([], [])
  | c :: rest =>
      if c = kPathSeparator then ([c] :: (cut rest).1, (cut rest).2)
      else
        match (cut rest).1 with
        | [] => ([], c :: (cut rest).2)
        | piece :: pieces => ((c :: piece) :: pieces, (cut rest).2)

def dirPieces (path : Text) : List Text := (cut path).1

def lastPiece (path : Text) : Text := (cut path).2

def pieces (path : Text) : List Text :=
  dirPieces path ++ if lastPiece path = [] then [] else [lastPiece path]

theorem cut_plain {path : Text} (plain : kPathSeparator ∉ path) : cut path = ([], path) := by
  induction path with
  | nil => rfl
  | cons c rest ih =>
      have other : c ≠ kPathSeparator := fun same => plain (by simp [same])
      rw [cut, if_neg other, ih (fun member => plain (List.mem_cons_of_mem c member))]

theorem cut_split {front : Text} (plain : kPathSeparator ∉ front) (rest : Text) :
    cut (front ++ kPathSeparator :: rest) =
      ((front ++ [kPathSeparator]) :: (cut rest).1, (cut rest).2) := by
  induction front with
  | nil => rw [List.nil_append, cut, if_pos rfl]; rfl
  | cons c front ih =>
      have other : c ≠ kPathSeparator := fun same => plain (by simp [same])
      rw [List.cons_append, cut, if_neg other, ih (fun member => plain (List.mem_cons_of_mem c member))]
      rfl

theorem plain_or_split (path : Text) : kPathSeparator ∉ path ∨
    ∃ front rest, kPathSeparator ∉ front ∧ path = front ++ kPathSeparator :: rest := by
  by_cases present : kPathSeparator ∈ path
  · right
    obtain ⟨front, rest, whole, plain⟩ := List.eq_append_cons_of_mem present
    exact ⟨front, rest, plain, whole⟩
  · exact .inl present

/-- Induction over the pieces of a path. -/
@[elab_as_elim]
theorem pathInduction {motive : Text → Prop} (path : Text)
    (plain : ∀ path, kPathSeparator ∉ path → motive path)
    (split : ∀ front rest, kPathSeparator ∉ front → motive rest →
      motive (front ++ kPathSeparator :: rest)) : motive path := by
  induction length : path.length using Nat.strong_induction_on generalizing path with
  | _ size ih =>
      rcases plain_or_split path with absent | ⟨front, rest, absent, rfl⟩
      · exact plain path absent
      · apply split front rest absent
        apply ih rest.length _ rest rfl
        rw [← length, List.length_append, List.length_cons]
        omega

def components (path : Text) : List Text := path.splitOn kPathSeparator

theorem components_plain {path : Text} (plain : kPathSeparator ∉ path) : components path = [path] :=
  List.splitOn_eq_singleton plain

theorem components_split {front : Text} (plain : kPathSeparator ∉ front) (rest : Text) :
    components (front ++ kPathSeparator :: rest) = front :: components rest := by
  rw [components, List.splitOn_append_cons_self, List.splitOn_eq_singleton plain]
  rfl

theorem components_ne_nil (path : Text) : components path ≠ [] := List.splitOn_ne_nil _ _

theorem components_eq_blank {path : Text} : components path = [[]] ↔ path = [] := by
  constructor
  · intro blank
    rcases plain_or_split path with plain | ⟨front, rest, plain, rfl⟩
    · rw [components_plain plain] at blank
      simpa using blank
    · rw [components_split plain, List.cons.injEq] at blank
      exact absurd blank.2 (components_ne_nil rest)
  · rintro rfl
    rfl

theorem dirPieces_plain {path : Text} (plain : kPathSeparator ∉ path) : dirPieces path = [] := by
  rw [dirPieces, cut_plain plain]

theorem lastPiece_plain {path : Text} (plain : kPathSeparator ∉ path) : lastPiece path = path := by
  rw [lastPiece, cut_plain plain]

theorem dirPieces_split {front : Text} (plain : kPathSeparator ∉ front) (rest : Text) :
    dirPieces (front ++ kPathSeparator :: rest) = (front ++ [kPathSeparator]) :: dirPieces rest := by
  rw [dirPieces, cut_split plain, dirPieces]

theorem lastPiece_split {front : Text} (plain : kPathSeparator ∉ front) (rest : Text) :
    lastPiece (front ++ kPathSeparator :: rest) = lastPiece rest := by
  rw [lastPiece, cut_split plain, lastPiece]

theorem pieces_plain {path : Text} (plain : kPathSeparator ∉ path) (nonempty : path ≠ []) :
    pieces path = [path] := by
  rw [pieces, dirPieces_plain plain, lastPiece_plain plain, if_neg nonempty, List.nil_append]

theorem pieces_split {front : Text} (plain : kPathSeparator ∉ front) (rest : Text) :
    pieces (front ++ kPathSeparator :: rest) = (front ++ [kPathSeparator]) :: pieces rest := by
  rw [pieces, dirPieces_split plain, lastPiece_split plain, pieces, List.cons_append]

theorem dirPieces_shape (path : Text) : ∀ piece ∈ dirPieces path,
    ∃ name, kPathSeparator ∉ name ∧ piece = name ++ [kPathSeparator] := by
  induction path using pathInduction with
  | plain path absent => simp [dirPieces_plain absent]
  | split front rest absent ih =>
      intro piece member
      rw [dirPieces_split absent, List.mem_cons] at member
      rcases member with rfl | later
      · exact ⟨front, absent, rfl⟩
      · exact ih piece later

theorem lastPiece_separator (path : Text) : kPathSeparator ∉ lastPiece path := by
  induction path using pathInduction with
  | plain path absent => rwa [lastPiece_plain absent]
  | split front rest absent ih => rwa [lastPiece_split absent]

end Pieces

section Steps

/-- What a piece of a path asks for: the root, the directory itself, a directory without a
name, or the child of a given simplified name, stored under a given name. -/
inductive Step
  | root
  | stay
  | nameless
  | child (key stored : Text)
deriving DecidableEq, Repr

def stepOf (piece : Text) : Step :=
  let stored := simplified piece
  let key := simplified stored
  if key = [] then .nameless
  else if key = [kDot] then .stay
  else if key = [kPathSeparator] then .root
  else .child key stored

def IsPiece (piece : Text) : Prop :=
  ∃ name, kPathSeparator ∉ name ∧ (piece = name ∨ piece = name ++ [kPathSeparator])

theorem isPiece_dir {name : Text} (plain : kPathSeparator ∉ name) : IsPiece (name ++ [kPathSeparator]) :=
  ⟨name, plain, .inr rfl⟩

theorem isPiece_plain {name : Text} (plain : kPathSeparator ∉ name) : IsPiece name :=
  ⟨name, plain, .inl rfl⟩

theorem strip_eq_nil {name : Text} : strip name = [] ↔ name.dropWhile isspace = [] := by
  constructor
  · intro empty
    by_contra visible
    obtain ⟨c, member, solid⟩ := exists_visible visible
    have blank := List.rdropWhile_eq_nil_iff.mp empty c member
    rw [solid] at blank
    cases blank
  · intro empty
    rw [strip, empty, List.rdropWhile_nil]

theorem key_piece {name : Text} (plain : kPathSeparator ∉ name) :
    simplified (simplified (name ++ [kPathSeparator])) =
      if name.dropWhile isspace = [] then [kPathSeparator]
      else if name.dropWhile isspace = [kDot] then []
      else strip name := by
  rw [simplified_piece plain]
  split
  · decide
  · split
    · decide
    · rw [simplified_plain (fun member => plain (List.dropWhile_subset isspace member)), strip_dropWhile]

theorem key_plain {name : Text} (plain : kPathSeparator ∉ name) :
    simplified (simplified name) = strip name := by
  rw [simplified_plain plain, simplified_plain (strip_plain plain), strip_strip]

/-- The simplified name of a piece names the root or has no separator in it. -/
theorem IsPiece.key {piece : Text} (isPiece : IsPiece piece) :
    simplified (simplified piece) = [kPathSeparator] ∨ kPathSeparator ∉ simplified (simplified piece) := by
  obtain ⟨name, plain, rfl | rfl⟩ := isPiece
  · rw [key_plain plain]
    exact .inr (strip_plain plain)
  · rw [key_piece plain]
    split
    · exact .inl rfl
    · right
      split
      · simp
      · exact strip_plain plain

theorem IsPiece.stored {piece : Text} (isPiece : IsPiece piece)
    (empty : simplified (simplified piece) = []) : simplified piece = [] := by
  obtain ⟨name, plain, rfl | rfl⟩ := isPiece
  · rw [simplified_plain plain, ← key_plain plain, empty]
  · rw [key_piece plain] at empty
    rw [simplified_piece plain]
    split at empty
    · cases empty
    · rename_i visible
      rw [if_neg visible]
      split at empty
      · rename_i dot
        rw [if_pos dot]
      · exact absurd (strip_eq_nil.mp empty) visible

theorem stepOf_dir {name : Text} (plain : kPathSeparator ∉ name) : stepOf (name ++ [kPathSeparator]) =
    if name.dropWhile isspace = [] then .root
    else if name.dropWhile isspace = [kDot] then .nameless
    else if strip name = [kDot] then .stay
    else .child (strip name) (name.dropWhile isspace) := by
  have inner := strip_plain plain
  unfold stepOf
  dsimp only
  rw [key_piece plain, simplified_piece plain]
  by_cases blank : name.dropWhile isspace = []
  · simp only [if_pos blank]
    rfl
  simp only [if_neg blank]
  by_cases dot : name.dropWhile isspace = [kDot]
  · simp only [if_pos dot]
    rfl
  simp only [if_neg dot]
  rw [if_neg (fun empty => blank (strip_eq_nil.mp empty)),
    if_neg (fun root : strip name = [kPathSeparator] => inner (by simp [root]))]

theorem stepOf_plain {name : Text} (plain : kPathSeparator ∉ name) : stepOf name =
    if strip name = [] then .nameless
    else if strip name = [kDot] then .stay
    else .child (strip name) (strip name) := by
  have inner := strip_plain plain
  unfold stepOf
  dsimp only
  rw [key_plain plain, simplified_plain plain,
    if_neg (fun root : strip name = [kPathSeparator] => inner (by simp [root]))]

theorem pieces_isPiece (path : Text) : ∀ piece ∈ pieces path, IsPiece piece := by
  intro piece member
  rcases List.mem_append.mp member with dir | last
  · obtain ⟨name, plain, rfl⟩ := dirPieces_shape path piece dir
    exact isPiece_dir plain
  · split at last
    · cases last
    · rw [List.mem_singleton] at last
      rw [last]
      exact isPiece_plain (lastPiece_separator path)

end Steps

end ToyKernel.Vfs
