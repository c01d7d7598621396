import Mathlib.Data.List.DropRight
import ToyKernel.Library.Result

/-!
The path strings of `utils/vfs.cpp`. A `std::string` is the list of its bytes before the
terminating NUL; `erase` keeps the assertions of `libcxx/include/string`, and reading the
first byte of an empty string reads the terminator.
-/

namespace ToyKernel.Vfs

open Library

abbrev Text := List UInt8

inductive Fault
  | eraseOutOfRange | readBeforeBegin | danglingPointer | endlessLoop
  | invalidCast | absoluteFile | missingFilename
  | endlessString | octalDigit | expectedUStar | directoryWithSize | emptyFile
deriving DecidableEq, Repr

def kPathSeparator : UInt8 := 47

def kDot : UInt8 := 46

def isspace (c : UInt8) : Bool :=
  c == 32 || c == 12 || c == 10 || c == 13 || c == 9 || c == 11

def find (path : Text) (c : UInt8) : Nat := path.findIdx (· == c)

def erase (path : Text) (first last : Nat) : Except Fault Text := do
  require (first < path.length) .eraseOutOfRange
  require (0 < last) .eraseOutOfRange
  require (first < last) .eraseOutOfRange
  return path.take first ++ path.drop last

def lstripLoop : Nat → Text → Except Fault Text
  | 0, path => .ok path
  | fuel + 1, path =>
      if isspace (path.headD 0) then do
        let path ← erase path 0 1
        lstripLoop fuel path
      else .ok path

def inplaceLStrip (path : Text) : Except Fault Text :=
  if path = [] then .ok path else lstripLoop path.length path

def rstripLoop : Nat → Text → Except Fault Text
  | 0, _ => .error .readBeforeBegin
  | fuel + 1, path =>
      match path.getLast? with
      | none => .error .readBeforeBegin
      | some c =>
          if isspace c then do
            let path ← erase path (path.length - 1) path.length
            rstripLoop fuel path
          else .ok path

def inplaceRStrip (path : Text) : Except Fault Text :=
  if path = [] then .ok path else rstripLoop path.length path

def simplifyName (name : Text) : Except Fault Text := do
  let name ← inplaceLStrip name
  let name ← inplaceRStrip name
  if name = [] then return name
  if name.length = 1 ∧ name.headD 0 = kDot then return name
  let name ←
    if 2 ≤ name.length ∧ name.headD 0 = kDot ∧ name.getD 1 0 = kPathSeparator then
      erase name 0 2
    else pure name
  let foundSep := find name kPathSeparator
  if foundSep = name.length then return name
  if foundSep = 0 ∧ name.length = 1 then return name
  if foundSep = name.length - 1 then
    erase name foundSep name.length
  else
    return name

def splitHead (path : Text) : Text × Text :=
  if path.headD 0 = kPathSeparator then ([kPathSeparator], path.drop 1)
  else
    let sep := find path kPathSeparator
    if sep ≠ path.length then (path.take sep, path.drop (sep + 1))
    else (path, [])

section Stripping

def strip (name : Text) : Text := (name.dropWhile isspace).rdropWhile isspace

def trimDot : Text → Text
  | 46 :: 47 :: rest => rest
  | name => name

def trimSlash (name : Text) : Text :=
  if name = [kPathSeparator] then name
  else if find name kPathSeparator + 1 = name.length then name.take (find name kPathSeparator)
  else name

def simplified (name : Text) : Text := trimSlash (trimDot (strip name))

theorem erase_front (c : UInt8) (rest : Text) : erase (c :: rest) 0 1 = .ok rest := by
  simp [erase, require]

theorem erase_back (path : Text) (c : UInt8) :
    erase (path ++ [c]) ((path ++ [c]).length - 1) (path ++ [c]).length = .ok path := by
  simp [erase, require]

theorem lstripLoop_eq (path : Text) : lstripLoop path.length path = .ok (path.dropWhile isspace) := by
  induction path with
  | nil => rfl
  | cons c rest ih =>
      rw [List.length_cons, lstripLoop, List.headD_cons]
      by_cases blank : isspace c = true
      · rw [if_pos blank, erase_front, ok_bind, ih, List.dropWhile_cons_of_pos blank]
      · rw [if_neg blank, List.dropWhile_cons_of_neg blank]

theorem inplaceLStrip_eq (path : Text) : inplaceLStrip path = .ok (path.dropWhile isspace) := by
  unfold inplaceLStrip
  split
  · rename_i empty
    rw [empty, List.dropWhile_nil]
  · exact lstripLoop_eq path

/-- The loop stops in time as long as some character is not blank. -/
theorem rstripLoop_eq (path : Text) (visible : ∃ c ∈ path, isspace c = false) :
    rstripLoop path.length path = .ok (path.rdropWhile isspace) := by
  induction path using List.reverseRecOn with
  | nil => simp at visible
  | append_singleton path c ih =>
      rw [List.length_append, List.length_singleton, rstripLoop, List.getLast?_concat]
      by_cases blank : isspace c = true
      · have earlier : ∃ c ∈ path, isspace c = false := by
          obtain ⟨d, member, solid⟩ := visible
          rcases List.mem_append.mp member with inside | last
          · exact ⟨d, inside, solid⟩
          · simp_all
        simp only [blank, if_true]
        rw [erase_back, ok_bind, ih earlier, List.rdropWhile_concat_pos _ _ _ blank]
      · simp only [blank, Bool.false_eq_true, if_false]
        rw [List.rdropWhile_concat_neg _ _ _ blank]

theorem exists_visible {path : Text} (nonblank : path.dropWhile isspace ≠ []) :
    ∃ c ∈ path.dropWhile isspace, isspace c = false := by
  have first := List.head_dropWhile_not isspace nonblank
  exact ⟨_, List.head_mem nonblank, first⟩

theorem inplaceRStrip_eq (name : Text) :
    inplaceRStrip (name.dropWhile isspace) = .ok (strip name) := by
  unfold inplaceRStrip strip
  split
  · rename_i empty
    rw [empty, List.rdropWhile_nil]
  · rename_i nonblank
    exact rstripLoop_eq _ (exists_visible nonblank)

theorem trimDot_eq (name : Text) :
    trimDot name = if 2 ≤ name.length ∧ name.headD 0 = kDot ∧ name.getD 1 0 = kPathSeparator then
      name.drop 2 else name := by
  unfold trimDot
  split
  · simp [kDot, kPathSeparator]
  · rename_i other
    rw [if_neg]
    rintro ⟨long, dot, slash⟩
    rcases name with _ | ⟨first, _ | ⟨second, rest⟩⟩
    · cases dot
    · cases slash
    · simp only [List.headD_cons, List.getD_cons_succ, List.getD_cons_zero, kDot, kPathSeparator] at dot slash
      exact other rest (by rw [dot, slash])

theorem find_le (path : Text) (c : UInt8) : find path c ≤ path.length := List.findIdx_le_length

theorem trimSlash_eq (name : Text) :
    (if find name kPathSeparator = name.length then (pure name : Except Fault Text)
    else if find name kPathSeparator = 0 ∧ name.length = 1 then pure name
    else if find name kPathSeparator = name.length - 1 then
      erase name (find name kPathSeparator) name.length
    else pure name) = .ok (trimSlash name) := by
  have bound := find_le name kPathSeparator
  unfold trimSlash
  by_cases root : name = [kPathSeparator]
  · subst root
    decide
  by_cases absent : find name kPathSeparator = name.length
  · rw [if_pos absent, if_neg root, if_neg (by omega)]
    rfl
  have notRoot : ¬(find name kPathSeparator = 0 ∧ name.length = 1) := by
    rintro ⟨first, single⟩
    obtain ⟨c, rfl⟩ := List.length_eq_one_iff.mp single
    apply root
    simp only [find, List.findIdx_cons, List.findIdx_nil] at first
    by_cases same : c = kPathSeparator
    · rw [same]
    · rw [beq_false_of_ne same] at first
      exact absurd first (by decide)
  rw [if_neg absent, if_neg notRoot, if_neg root]
  by_cases last : find name kPathSeparator + 1 = name.length
  · rw [if_pos (by omega), if_pos last]
    have positive : 0 < name.length := by omega
    simp [erase, require, positive, show find name kPathSeparator < name.length by omega]
  · rw [if_neg (by omega), if_neg last]
    rfl

/-- No assertion fails and no byte outside the string is read. -/
theorem simplifyName_eq (name : Text) : simplifyName name = .ok (simplified name) := by
  unfold simplifyName simplified
  rw [inplaceLStrip_eq, ok_bind, inplaceRStrip_eq, ok_bind]
  by_cases empty : strip name = []
  · rw [if_pos empty, empty]
    rfl
  rw [if_neg empty]
  by_cases current : (strip name).length = 1 ∧ (strip name).headD 0 = kDot
  · rw [if_pos current]
    obtain ⟨c, single⟩ := List.length_eq_one_iff.mp current.1
    have dot : c = kDot := by simpa [single] using current.2
    rw [single, dot]
    rfl
  rw [if_neg current, trimDot_eq]
  dsimp only
  split
  · rename_i leading
    have erased : erase (strip name) 0 2 = .ok ((strip name).drop 2) := by
      simp [erase, require, show 0 < (strip name).length by omega]
    rw [erased, ok_bind, trimSlash_eq]
  · exact trimSlash_eq (strip name)

end Stripping

section Substrings

theorem strip_isInfix (name : Text) : strip name <:+: name :=
  (List.rdropWhile_prefix isspace _).isInfix.trans (List.dropWhile_suffix isspace).isInfix

theorem trimDot_isSuffix (name : Text) : trimDot name <:+ name := by
  rw [trimDot_eq]
  split
  · exact List.drop_suffix 2 name
  · exact List.suffix_rfl

theorem trimSlash_isPrefix (name : Text) : trimSlash name <+: name := by
  unfold trimSlash
  split
  · exact List.prefix_rfl
  · split
    · exact List.take_prefix _ name
    · exact List.prefix_rfl

theorem simplified_isInfix (name : Text) : simplified name <:+: name :=
  (trimSlash_isPrefix _).isInfix.trans ((trimDot_isSuffix _).isInfix.trans (strip_isInfix name))

end Substrings

end ToyKernel.Vfs
