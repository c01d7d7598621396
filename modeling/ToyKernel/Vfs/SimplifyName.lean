import ToyKernel.Containers.StdString
import ToyKernel.Vfs.Strings

/-!
`SimplifyName` of `utils/vfs.cpp` on the string objects it changes in place. Iterators are signed
distances from `begin()`, every read and erasure is checked against the characters and their
terminating NUL, and a loop that runs out of fuel faults.
-/

namespace ToyKernel.Vfs.Objects

open Library Containers

inductive AccessFault
  | readBeforeBegin | readPastNul | eraseOutside | endlessLoop
  | string (fault : StringFault)
deriving DecidableEq, Repr

section Calls

/-- A read reaches the terminating NUL at the latest. -/
def charAt (string : StdString) (it : Int) : Except AccessFault UInt8 := do
  require (0 ≤ it) .readBeforeBegin
  require (it ≤ string.size) .readPastNul
  peek (.string .outOfBounds) string.data it.toNat

/-- The assertions of `erase` are its own; the range is checked first. -/
def erase (string : StdString) (first last : Int) : Except AccessFault StdString := do
  require (0 ≤ first ∧ last ≤ string.size) .eraseOutside
  (string.erase first.toNat last.toNat).mapError .string

def findLoop : Nat → StdString → UInt8 → Int → Except AccessFault Int
  | 0, _, _, _ => .error .endlessLoop
  | fuel + 1, string, c, it =>
      if it = string.size then return it
      else do
        let char ← charAt string it
        if char = c then return it
        else findLoop fuel string c (it + 1)

def find (fuel : Nat) (string : StdString) (c : UInt8) : Except AccessFault Int := findLoop fuel string c 0

def lstripLoop : Nat → StdString → Except AccessFault StdString
  | 0, _ => .error .endlessLoop
  | fuel + 1, path => do
      let c ← charAt path 0
      if isspace c then do
        let path ← erase path 0 1
        lstripLoop fuel path
      else return path

def inplaceLStrip (fuel : Nat) (path : StdString) : Except AccessFault StdString :=
  if path.size = 0 then return path else lstripLoop fuel path

def rstripLoop : Nat → StdString → Except AccessFault StdString
  | 0, _ => .error .endlessLoop
  | fuel + 1, path => do
      let it : Int := path.size - 1
      let c ← charAt path it
      if isspace c then do
        let path ← erase path it (it + 1)
        rstripLoop fuel path
      else return path

def inplaceRStrip (fuel : Nat) (path : StdString) : Except AccessFault StdString :=
  if path.size = 0 then return path else rstripLoop fuel path

def isCurrent (name : StdString) : Except AccessFault Bool :=
  if name.size = 1 then do
    let first ← charAt name 0
    return first == kDot
  else return false

def startsWithDot (name : StdString) : Except AccessFault Bool :=
  if 2 ≤ name.size then do
    let first ← charAt name 0
    if first = kDot then do
      let second ← charAt name 1
      return second == kPathSeparator
    else return false
  else return false

def simplify (fuel : Nat) (name : StdString) : Except AccessFault StdString := do
  let name ← inplaceLStrip fuel name
  let name ← inplaceRStrip fuel name
  if name.size = 0 then return name
  let current ← isCurrent name
  if current then return name
  let leading ← startsWithDot name
  let name ← if leading then erase name 0 2 else pure name
  let foundSep ← find fuel name kPathSeparator
  if foundSep = name.size then return name
  if foundSep = 0 ∧ name.size = 1 then return name
  if foundSep = (name.size : Int) - 1 then
    erase name foundSep name.size
  else
    return name

/-- Strings have no move constructor, so returning the parameter copies it. -/
def simplifyName (fuel : Nat) (name : StdString) : Except AccessFault StdString := do
  let name ← simplify fuel name
  name.copy.mapError .string

end Calls

section Accesses

variable {string : StdString} {text : Text}

theorem charAt_at (front : Text) {rest : Text} {c : UInt8} (ended : Ended string (front ++ c :: rest)) :
    charAt string front.length = .ok c := by
  have size := ended.size
  rw [List.length_append, List.length_cons] at size
  rw [charAt, require_of (by omega), ok_bind, require_of (by omega), ok_bind, Int.toNat_natCast, ended.split,
    List.append_assoc, List.cons_append, peek_at]

theorem charAt_end (ended : Ended string text) : charAt string text.length = .ok 0 := by
  have size := ended.size
  rw [charAt, require_of (by omega), ok_bind, require_of (by omega), ok_bind, Int.toNat_natCast, ended.split,
    peek_at]

theorem erase_ended (ended : Ended string text) {first last : Nat} (nonempty : first < last)
    (inside : last ≤ text.length) :
    ∃ after, erase string first last = .ok after ∧ Ended after (text.take first ++ text.drop last) := by
  obtain ⟨after, erased, short⟩ := Containers.erase_ended ended.toHolds nonempty inside
  have size := ended.size
  refine ⟨after, ?_, short⟩
  rw [erase, require_of (by omega), ok_bind, Int.toNat_natCast, Int.toNat_natCast, erased]
  rfl

theorem erase_first {c : UInt8} (ended : Ended string (c :: text)) :
    ∃ after, erase string 0 1 = .ok after ∧ Ended after text :=
  erase_ended ended Nat.zero_lt_one (by simp)

theorem erase_last {c : UInt8} (ended : Ended string (text ++ [c])) :
    ∃ after, erase string text.length (text.length + 1) = .ok after ∧ Ended after text := by
  obtain ⟨after, erased, shorter⟩ := erase_ended ended (Nat.lt_succ_self text.length) (by simp)
  rw [List.take_left, List.drop_eq_nil_of_le (by simp), List.append_nil] at shorter
  exact ⟨after, erased, shorter⟩

theorem findLoop_ended {fuel : Nat} (front rest : Text) (c : UInt8) (ended : Ended string (front ++ rest))
    (enough : rest.length < fuel) :
    findLoop fuel string c front.length = .ok ((front.length + Vfs.find rest c : Nat) : Int) := by
  have size := ended.size
  rw [List.length_append] at size
  induction rest generalizing front fuel with
  | nil =>
      obtain ⟨fuel, rfl⟩ := Nat.exists_eq_add_of_lt enough
      rw [findLoop, if_pos (by rw [size]; rfl)]
      rfl
  | cons char rest ih =>
      rw [List.length_cons] at size enough
      obtain ⟨fuel, rfl⟩ := Nat.exists_eq_add_of_lt enough
      rw [findLoop, if_neg (by omega), charAt_at _ ended, ok_bind, Vfs.find, List.findIdx_cons]
      by_cases same : char = c
      · rw [if_pos same, same, beq_self_eq_true]
        rfl
      · have next : front ++ char :: rest = (front ++ [char]) ++ rest := by simp
        rw [next] at ended
        have smaller : rest.length < rest.length + 1 + fuel := by omega
        have onward := ih (front ++ [char]) ended smaller (by simp; omega)
        rw [List.length_append, List.length_singleton, Vfs.find] at onward
        rw [if_neg same, beq_false_of_ne same, cond_false, Nat.add_comm (List.findIdx _ _), ← Nat.add_assoc,
          ← onward]
        rfl

theorem find_ended {fuel : Nat} (ended : Ended string text) (enough : text.length < fuel) (c : UInt8) :
    find fuel string c = .ok (Vfs.find text c : Int) := by
  rw [find, ← Int.natCast_zero, ← List.length_nil (α := UInt8), findLoop_ended [] text c ended enough]
  simp

end Accesses

section Stripping

variable {path : StdString} {text : Text} {fuel : Nat}

/-- The loop stops at the terminating NUL, which is not blank. -/
theorem lstripLoop_ended (ended : Ended path text) (enough : text.length < fuel) :
    ∃ after, lstripLoop fuel path = .ok after ∧ Ended after (text.dropWhile isspace) := by
  induction text generalizing path fuel with
  | nil =>
      obtain ⟨fuel, rfl⟩ := Nat.exists_eq_add_of_lt enough
      have read : charAt path 0 = .ok 0 := charAt_end ended
      refine ⟨path, ?_, ended⟩
      rw [lstripLoop, read, ok_bind]
      rfl
  | cons c rest ih =>
      rw [List.length_cons] at enough
      obtain ⟨fuel, rfl⟩ := Nat.exists_eq_add_of_lt enough
      have read : charAt path 0 = .ok c := charAt_at [] ended
      rw [lstripLoop, read, ok_bind]
      by_cases blank : isspace c = true
      · obtain ⟨next, erased, shorter⟩ := erase_first ended
        have smaller : rest.length < rest.length + 1 + fuel := by omega
        obtain ⟨after, done, stripped⟩ := ih shorter smaller
        refine ⟨after, ?_, ?_⟩
        · rw [if_pos blank, erased, ok_bind, done]
        · rw [List.dropWhile_cons_of_pos blank]
          exact stripped
      · refine ⟨path, ?_, ?_⟩
        · rw [if_neg blank]
          rfl
        · rw [List.dropWhile_cons_of_neg blank]
          exact ended

theorem inplaceLStrip_ended (ended : Ended path text) (enough : text.length < fuel) :
    ∃ after, inplaceLStrip fuel path = .ok after ∧ Ended after (text.dropWhile isspace) := by
  unfold inplaceLStrip
  split
  · rename_i empty
    rw [ended.size, List.length_eq_zero_iff] at empty
    subst empty
    exact ⟨path, rfl, ended⟩
  · exact lstripLoop_ended ended enough

/-- The loop stops in time as long as some character is not blank. -/
theorem rstripLoop_ended (ended : Ended path text) (enough : text.length < fuel)
    (visible : ∃ c ∈ text, isspace c = false) :
    ∃ after, rstripLoop fuel path = .ok after ∧ Ended after (text.rdropWhile isspace) := by
  induction text using List.reverseRecOn generalizing path fuel with
  | nil => simp at visible
  | append_singleton text c ih =>
      rw [List.length_append, List.length_singleton] at enough
      obtain ⟨fuel, rfl⟩ := Nat.exists_eq_add_of_lt enough
      have size := ended.size
      rw [List.length_append, List.length_singleton] at size
      have last : (path.size : Int) - 1 = text.length := by omega
      rw [rstripLoop, last, charAt_at _ ended, ok_bind]
      by_cases blank : isspace c = true
      · have earlier : ∃ c ∈ text, isspace c = false := by
          obtain ⟨d, member, solid⟩ := visible
          rcases List.mem_append.mp member with inside | last
          · exact ⟨d, inside, solid⟩
          · simp_all
        obtain ⟨next, erased, shorter⟩ := erase_last ended
        have smaller : text.length < text.length + 1 + fuel := by omega
        obtain ⟨after, done, stripped⟩ := ih shorter smaller earlier
        refine ⟨after, ?_, ?_⟩
        · rw [if_pos blank, erased, ok_bind, done]
        · rw [List.rdropWhile_concat_pos _ _ _ blank]
          exact stripped
      · refine ⟨path, ?_, ?_⟩
        · rw [if_neg blank]
          rfl
        · rw [List.rdropWhile_concat_neg _ _ _ blank]
          exact ended

/-- The first character that is left is not blank, so the second loop stops. -/
theorem inplaceRStrip_ended (ended : Ended path (text.dropWhile isspace)) (enough : text.length < fuel) :
    ∃ after, inplaceRStrip fuel path = .ok after ∧ Ended after (strip text) := by
  unfold inplaceRStrip
  split
  · rename_i empty
    rw [ended.size, List.length_eq_zero_iff] at empty
    refine ⟨path, rfl, ?_⟩
    rw [strip, empty, List.rdropWhile_nil, ← empty]
    exact ended
  · rename_i nonempty
    rw [ended.size, List.length_eq_zero_iff] at nonempty
    have shorter := (List.dropWhile_suffix (l := text) isspace).length_le
    exact rstripLoop_ended ended (by omega) (exists_visible nonempty)

end Stripping

section Trimming

variable {name : StdString} {text : Text} {fuel : Nat}

theorem isCurrent_ended (ended : Ended name text) :
    ∃ current, isCurrent name = .ok current ∧ (current = true → text = [kDot]) := by
  have size := ended.size
  rw [isCurrent, size]
  split
  · rename_i single
    obtain ⟨c, rfl⟩ := List.length_eq_one_iff.mp single
    have read : charAt name 0 = .ok c := charAt_at [] ended
    refine ⟨c == kDot, by rw [read, ok_bind]; rfl, ?_⟩
    intro dot
    rw [eq_of_beq dot]
  · exact ⟨false, rfl, fun dot => absurd dot Bool.false_ne_true⟩

theorem startsWithDot_ended (ended : Ended name text) : startsWithDot name =
    .ok (decide (2 ≤ text.length ∧ text.headD 0 = kDot ∧ text.getD 1 0 = kPathSeparator)) := by
  have size := ended.size
  rw [startsWithDot, size]
  rcases text with _ | ⟨first, _ | ⟨second, rest⟩⟩
  · rfl
  · rfl
  · have atFirst : charAt name 0 = .ok first := charAt_at [] ended
    have atSecond : charAt name 1 = .ok second := charAt_at [first] ended
    rw [if_pos (by simp), atFirst, ok_bind, atSecond, ok_bind]
    by_cases dot : first = kDot
    · rw [if_pos dot]
      by_cases slash : second = kPathSeparator <;> simp [dot, slash, pure, Except.pure]
    · rw [if_neg dot]
      simp [dot, pure, Except.pure]

theorem trimDot_ended (ended : Ended name text) :
    ∃ leading after, startsWithDot name = .ok leading ∧
      (if leading then erase name 0 2 else pure name) = .ok after ∧ Ended after (trimDot text) := by
  have checked := startsWithDot_ended ended
  rw [trimDot_eq]
  by_cases leading : 2 ≤ text.length ∧ text.headD 0 = kDot ∧ text.getD 1 0 = kPathSeparator
  · obtain ⟨after, erased, shorter⟩ := erase_ended ended Nat.zero_lt_two leading.1
    rw [decide_eq_true leading] at checked
    rw [if_pos leading]
    exact ⟨true, after, checked, erased, shorter⟩
  · rw [if_neg leading]
    rw [decide_eq_false leading] at checked
    exact ⟨false, name, checked, rfl, ended⟩

theorem trimSlash_ended (ended : Ended name text) :
    ∃ after, (if (Vfs.find text kPathSeparator : Int) = name.size then (pure name : Except AccessFault StdString)
      else if (Vfs.find text kPathSeparator : Int) = 0 ∧ name.size = 1 then pure name
      else if (Vfs.find text kPathSeparator : Int) = (name.size : Int) - 1 then
        erase name (Vfs.find text kPathSeparator) name.size
      else pure name) = .ok after ∧ Ended after (trimSlash text) := by
  have size := ended.size
  have bound := find_le text kPathSeparator
  have trimmed := trimSlash_eq text
  by_cases absent : Vfs.find text kPathSeparator = text.length
  · rw [if_pos absent] at trimmed
    rw [if_pos (by omega), ← Except.ok.inj trimmed]
    exact ⟨name, rfl, ended⟩
  rw [if_neg absent] at trimmed
  rw [if_neg (by omega)]
  by_cases root : Vfs.find text kPathSeparator = 0 ∧ text.length = 1
  · rw [if_pos root] at trimmed
    rw [if_pos (by omega), ← Except.ok.inj trimmed]
    exact ⟨name, rfl, ended⟩
  rw [if_neg root] at trimmed
  rw [if_neg (by omega)]
  by_cases last : Vfs.find text kPathSeparator = text.length - 1
  · have before : Vfs.find text kPathSeparator < text.length := by omega
    obtain ⟨after, erased, shorter⟩ := erase_ended ended before (Nat.le_refl text.length)
    have spec : Vfs.erase text (Vfs.find text kPathSeparator) text.length =
        .ok (text.take (Vfs.find text kPathSeparator) ++ text.drop text.length) := by
      simp [Vfs.erase, require, before, Nat.zero_lt_of_lt before]
    rw [if_pos last, spec] at trimmed
    rw [if_pos (by omega), size, ← Except.ok.inj trimmed]
    exact ⟨after, erased, shorter⟩
  · rw [if_neg last] at trimmed
    rw [if_neg (by omega), ← Except.ok.inj trimmed]
    exact ⟨name, rfl, ended⟩

/-- No loop runs out of fuel, no access is outside the string and no assertion of `erase` fails. -/
theorem simplify_ended (ended : Ended name text) (enough : text.length < fuel) :
    ∃ after, simplify fuel name = .ok after ∧ Ended after (simplified text) := by
  obtain ⟨left, leftDone, leftEnded⟩ := inplaceLStrip_ended ended enough
  obtain ⟨both, bothDone, bothEnded⟩ := inplaceRStrip_ended leftEnded enough
  obtain ⟨current, currentDone, isDot⟩ := isCurrent_ended bothEnded
  obtain ⟨leading, tail, leadingDone, tailDone, tailEnded⟩ := trimDot_ended bothEnded
  have shorter := ((trimDot_isSuffix (strip text)).isInfix.trans (strip_isInfix text)).length_le
  have found := find_ended tailEnded (by omega : (trimDot (strip text)).length < fuel) kPathSeparator
  unfold simplify simplified
  rw [leftDone, ok_bind, bothDone, ok_bind]
  by_cases empty : both.size = 0
  · rw [if_pos empty]
    rw [bothEnded.size, List.length_eq_zero_iff] at empty
    refine ⟨both, rfl, ?_⟩
    rw [empty] at bothEnded ⊢
    exact bothEnded
  rw [if_neg empty, currentDone, ok_bind]
  by_cases dot : current = true
  · rw [if_pos dot]
    refine ⟨both, rfl, ?_⟩
    rw [isDot dot] at bothEnded ⊢
    exact bothEnded
  rw [if_neg dot, leadingDone, ok_bind]
  dsimp only
  cases leading with
  | true =>
      rw [if_pos rfl] at tailDone
      rw [if_pos rfl, tailDone, ok_bind, found, ok_bind]
      exact trimSlash_ended tailEnded
  | false =>
      rw [if_neg Bool.false_ne_true] at tailDone
      rw [if_neg Bool.false_ne_true, tailDone, ok_bind, found, ok_bind]
      exact trimSlash_ended tailEnded

end Trimming

section Safety

variable {name : StdString} {text : Text} {fuel : Nat}

theorem simplifyName_rep (ended : Ended name text) (enough : text.length < fuel) :
    ∃ result, simplifyName fuel name = .ok result ∧
      StringRep result ((simplified text).takeWhile (· != 0)) := by
  obtain ⟨after, done, held⟩ := simplify_ended ended enough
  obtain ⟨made, copied, rep⟩ := copy_rep held
  refine ⟨made, ?_, rep⟩
  rw [simplifyName, done, ok_bind, copied]
  rfl

/-- What the caller sees is part of what it passed, up to the first NUL. -/
theorem simplifyName_safe (ended : Ended name text) (enough : text.length < fuel) :
    ∃ result shown, simplifyName fuel name = .ok result ∧ StringRep result shown ∧ shown <:+: text ∧
      (0 ∉ text → shown = simplified text) := by
  obtain ⟨result, done, rep⟩ := simplifyName_rep ended enough
  have inside := simplified_isInfix text
  refine ⟨result, _, done, rep, (List.takeWhile_prefix _).isInfix.trans inside, ?_⟩
  intro visible
  refine List.takeWhile_eq_self_iff.mpr fun c member => bne_iff_ne.mpr ?_
  rintro rfl
  exact visible (inside.subset member)

/-- A string of blanks only. -/
theorem simplifyName_safe_blank : ∃ result shown,
    simplifyName 4 ⟨3, 8, [32, 10, 32, 0, 0, 0, 0, 0]⟩ = .ok result ∧ StringRep result shown ∧
      shown <:+: [32, 10, 32] ∧ (0 ∉ ([32, 10, 32] : Text) → shown = simplified [32, 10, 32]) :=
  simplifyName_safe ⟨⟨rfl, rfl, by decide, rfl⟩, rfl⟩ (by decide)

/-- " ./a/ " is simplified to "a". -/
example : simplifyName 7 ⟨6, 8, [32, 46, 47, 97, 47, 32, 0, 0]⟩ =
    .ok ⟨1, 8, [97, 0, 0, 0, 0, 0, 0, 0]⟩ := by decide

end Safety

end ToyKernel.Vfs.Objects
