import ToyKernel.Vfs.Agreement

/-!
When a name is simple after one call. Each removal of `SimplifyName` happens once, in a fixed order,
and can uncover something that an earlier one would have taken.
-/

namespace ToyKernel.Vfs

open Library

section Cores

variable {name core text : Text}

structure Bare (text : Text) : Prop where
  head : ∀ c rest, text = c :: rest → isspace c = false
  last : ∀ front c, text = front ++ [c] → isspace c = false

def HasCore (name core : Text) : Prop :=
  ∃ before after, name = before ++ core ++ after ∧ (∀ c ∈ before, isspace c = true) ∧
    (∀ c ∈ after, isspace c = true) ∧ Bare core

theorem rdropWhile_blank {after : Text} (blank : ∀ c ∈ after, isspace c = true) :
    (text ++ after).rdropWhile isspace = text.rdropWhile isspace := by
  induction after using List.reverseRecOn with
  | nil => rw [List.append_nil]
  | append_singleton after c ih =>
      rw [← List.append_assoc, List.rdropWhile_concat_pos _ _ _ (blank c (by simp))]
      exact ih fun d member => blank d (List.mem_append_left _ member)

theorem Bare.dropWhile (bare : Bare text) : text.dropWhile isspace = text := by
  cases text with
  | nil => rfl
  | cons c rest =>
      have visible := bare.head c rest rfl
      rw [List.dropWhile_cons_of_neg (by simp [visible])]

theorem Bare.rdropWhile (bare : Bare text) : text.rdropWhile isspace = text := by
  rcases List.eq_nil_or_concat' text with rfl | ⟨front, c, rfl⟩
  · rfl
  · have visible := bare.last front c rfl
    rw [List.rdropWhile_concat_neg _ _ _ (by simp [visible])]

theorem strip_bare (name : Text) : Bare (strip name) := by
  constructor
  · intro c rest shape
    obtain ⟨back, split⟩ := List.rdropWhile_prefix isspace (name.dropWhile isspace)
    have front : name.dropWhile isspace = c :: (rest ++ back) := by
      rw [← split, ← strip, shape, List.cons_append]
    have nonempty : name.dropWhile isspace ≠ [] := by simp [front]
    have first := List.head_dropWhile_not isspace nonempty
    simpa only [front, List.head_cons] using first
  · intro front c shape
    have whole : (name.dropWhile isspace).rdropWhile isspace = front ++ [c] := shape
    have nonempty : (name.dropWhile isspace).rdropWhile isspace ≠ [] := by simp [whole]
    have visible := List.rdropWhile_last_not isspace _ nonempty
    simpa [whole] using visible

theorem strip_eq_self_iff : strip text = text ↔ Bare text := by
  constructor
  · intro same
    rw [← same]
    exact strip_bare text
  · intro bare
    rw [strip, bare.dropWhile, bare.rdropWhile]

theorem hasCore_iff : HasCore name core ↔ core = strip name := by
  constructor
  · rintro ⟨before, after, rfl, left, right, bare⟩
    rw [strip, List.append_assoc, List.dropWhile_append_of_pos left]
    cases core with
    | nil =>
        have gone : ([] ++ after).dropWhile isspace = [] := by
          rw [List.dropWhile_eq_nil_iff]
          simpa using right
        rw [gone]
        rfl
    | cons c rest =>
        have visible := bare.head c rest rfl
        rw [List.cons_append, List.dropWhile_cons_of_neg (by simp [visible]), ← List.cons_append,
          rdropWhile_blank right, bare.rdropWhile]
  · rintro rfl
    obtain ⟨after, tail⟩ := List.rdropWhile_prefix isspace (name.dropWhile isspace)
    refine ⟨name.takeWhile isspace, after, ?_, ?_, ?_, strip_bare name⟩
    · rw [List.append_assoc, strip, tail, List.takeWhile_append_dropWhile]
    · intro c member
      exact List.mem_takeWhile_imp member
    · have same : after = (name.dropWhile isspace).rtakeWhile isspace := by
        have whole := List.rdropWhile_append_rtakeWhile (p := isspace) (l := name.dropWhile isspace)
        exact List.append_cancel_left (tail.trans whole.symm)
      rw [same]
      intro c member
      exact List.mem_rtakeWhile_imp member

end Cores

section Removals

variable {name text : Text}

/-- What one call can leave to the next: behind a leading "./" a blank or another "./" that is not
the whole rest, or a blank in front of the only separator when that comes last. -/
inductive Uncovers : Text → Prop
  | blank (c : UInt8) (rest : Text) : isspace c = true → Uncovers (46 :: 47 :: c :: rest)
  | dot (c : UInt8) (rest : Text) : Uncovers (46 :: 47 :: 46 :: 47 :: c :: rest)
  | tail (front component : Text) (c : UInt8) : front = [] ∨ front = [46, 47] → kPathSeparator ∉ component →
      isspace c = true → Uncovers (front ++ component ++ [c, kPathSeparator])

theorem trimDot_cases (name : Text) :
    name = 46 :: 47 :: trimDot name ∨ trimDot name = name ∧ ∀ rest, name ≠ 46 :: 47 :: rest := by
  unfold trimDot
  split
  · exact .inl rfl
  · rename_i other
    exact .inr ⟨rfl, other⟩

/-- A second call changes nothing when no removal finds anything. -/
theorem simplified_eq_self_iff (slashless : trimSlash text = text) :
    simplified text = text ↔ Bare text ∧ ∀ rest, text ≠ 46 :: 47 :: rest := by
  have stripLength : (strip text).length ≤ text.length :=
    (List.rdropWhile_prefix isspace _).length_le.trans (List.dropWhile_suffix isspace).length_le
  constructor
  · intro same
    have slashLength : (simplified text).length ≤ (trimDot (strip text)).length := by
      rcases trimSlash_cases (trimDot (strip text)) with ⟨kept, _⟩ | ⟨component, _, _, shape, cut⟩
      · rw [simplified, kept]
      · rw [simplified, cut, shape]
        simp
    rw [same] at slashLength
    rcases trimDot_cases (strip text) with cut | ⟨kept, other⟩
    · have shorter := congrArg List.length cut
      simp only [List.length_cons] at shorter
      omega
    · rw [kept] at slashLength
      have whole : strip text = text := by
        rw [strip] at stripLength slashLength ⊢
        have front := List.rdropWhile_prefix isspace (text.dropWhile isspace)
        have back := List.dropWhile_suffix (l := text) isspace
        have frontLength := front.length_le
        have backLength := back.length_le
        rw [front.eq_of_length (by omega), back.eq_of_length (by omega)]
      rw [whole] at other
      exact ⟨strip_eq_self_iff.mp whole, other⟩
  · rintro ⟨bare, other⟩
    have kept : trimDot text = text := by
      rcases trimDot_cases text with cut | ⟨kept, _⟩
      · exact absurd cut (other _)
      · exact kept
    rw [simplified, strip_eq_self_iff.mpr bare, kept, slashless]

theorem trimSlash_twice (name : Text) : trimSlash (trimSlash name) = trimSlash name := by
  rcases trimSlash_cases name with ⟨kept, _⟩ | ⟨component, plain, _, _, cut⟩
  · rw [kept, kept]
  · rw [cut, trimSlash_plain plain]

theorem front_unseparated {component : Text} {c : UInt8} (plain : kPathSeparator ∉ component)
    (isBlank : isspace c = true) (rest : Text) : [] ++ component ++ [c, kPathSeparator] ≠ 46 :: 47 :: rest := by
  intro shape
  rcases component with _ | ⟨d, _ | ⟨e, more⟩⟩
  · cases (List.cons.inj shape).1
    exact absurd isBlank (by decide)
  · cases (List.cons.inj (List.cons.inj shape).2).1
    exact absurd isBlank (by decide)
  · have slash := (List.cons.inj (List.cons.inj shape).2).1
    exact plain (by simp [slash, kPathSeparator])

theorem uncovers_iff (bare : Bare text) : Uncovers text ↔
    ¬(Bare (trimSlash (trimDot text)) ∧ ∀ rest, trimSlash (trimDot text) ≠ 46 :: 47 :: rest) := by
  constructor
  · intro uncovers
    rintro ⟨settled, noDot⟩
    cases uncovers with
    | blank c rest isBlank =>
        rw [trimDot] at settled
        have first : ∃ more, trimSlash (c :: rest) = c :: more := by
          rcases trimSlash_cases (c :: rest) with ⟨kept, _⟩ | ⟨component, _, nonempty, shape, cut⟩
          · exact ⟨rest, kept⟩
          · obtain ⟨d, more, rfl⟩ := List.exists_cons_of_ne_nil nonempty
            have same := (List.cons.inj shape).1
            exact ⟨more, by rw [cut, same]⟩
        obtain ⟨more, shape⟩ := first
        rw [settled.head c more shape] at isBlank
        cases isBlank
    | dot c rest =>
        rw [trimDot] at noDot
        rcases trimSlash_cases (46 :: 47 :: c :: rest) with ⟨kept, _⟩ | ⟨component, plain, nonempty, shape, cut⟩
        · exact noDot (c :: rest) kept
        · rcases component with _ | ⟨d, _ | ⟨e, more⟩⟩
          · exact nonempty rfl
          · simp at shape
          · have slash := (List.cons.inj (List.cons.inj shape).2).1
            exact plain (by simp [← slash, kPathSeparator])
    | tail front component c isFront plain isBlank =>
        have blank_ne : c ≠ kPathSeparator := by
          rintro rfl
          exact absurd isBlank (by decide)
        have whole : kPathSeparator ∉ component ++ [c] := by
          simpa using ⟨plain, blank_ne.symm⟩
        have rest : trimDot (front ++ component ++ [c, kPathSeparator]) = component ++ [c] ++ [kPathSeparator] := by
          rcases isFront with rfl | rfl
          · rcases trimDot_cases ([] ++ component ++ [c, kPathSeparator]) with cut | ⟨kept, _⟩
            · exact absurd cut (front_unseparated plain isBlank _)
            · rw [kept]
              simp
          · simp [trimDot]
        rw [rest, trimSlash_concat whole (by simp)] at settled
        rw [settled.last component c rfl] at isBlank
        cases isBlank
  · intro unsettled
    by_contra covered
    apply unsettled
    have suffix : ∃ front, (front = [] ∨ front = [46, 47]) ∧ text = front ++ trimDot text := by
      rcases trimDot_cases text with cut | ⟨kept, _⟩
      · exact ⟨[46, 47], .inr rfl, cut⟩
      · exact ⟨[], .inl rfl, kept.symm⟩
    obtain ⟨front, isFront, split⟩ := suffix
    have visible : ∀ c rest, trimDot text = c :: rest → isspace c = false := by
      intro c rest shape
      rcases isFront with rfl | rfl
      · exact bare.head c rest (split.trans shape)
      · rw [shape] at split
        rw [← Bool.not_eq_true]
        intro isBlank
        exact covered (split ▸ .blank c rest isBlank)
    rcases trimSlash_cases (trimDot text) with ⟨kept, _⟩ | ⟨component, plain, nonempty, shape, cut⟩
    · rw [kept]
      refine ⟨⟨visible, ?_⟩, ?_⟩
      · intro before c shape
        rw [shape, ← List.append_assoc] at split
        exact bare.last _ c split
      · intro rest shape
        cases rest with
        | nil =>
            rw [shape] at kept
            exact absurd kept (by decide)
        | cons c rest =>
            rcases trimDot_cases text with cut | ⟨same, other⟩
            · rw [shape] at cut
              exact covered (cut ▸ .dot c rest)
            · exact other _ (same.symm.trans shape)
    · rw [cut]
      refine ⟨⟨?_, ?_⟩, ?_⟩
      · rintro c rest rfl
        exact visible c (rest ++ [kPathSeparator]) shape
      · rintro before c rfl
        rw [← Bool.not_eq_true]
        intro isBlank
        rw [shape] at split
        have away : kPathSeparator ∉ before := fun member => plain (List.mem_append_left _ member)
        have tail := Uncovers.tail front before c isFront away isBlank
        apply covered
        rw [split]
        simpa using tail
      · rintro rest rfl
        exact plain (by simp [kPathSeparator])

/-- One call is enough exactly when it uncovers nothing for another one. -/
theorem simplifyName_idempotent_iff (name : Text) :
    (simplifyName name >>= simplifyName) = simplifyName name ↔ ∀ core, HasCore name core → ¬Uncovers core := by
  have onlyCore : (∀ core, HasCore name core → ¬Uncovers core) ↔ ¬Uncovers (strip name) := by
    simp only [hasCore_iff, forall_eq]
  rw [onlyCore, simplifyName_eq, ok_bind, simplifyName_eq, Except.ok.injEq, uncovers_iff (strip_bare name), not_not]
  exact simplified_eq_self_iff (trimSlash_twice _)

/-- The name "././a" loses a "./" with each call. -/
theorem simplifyName_twice : simplifyName [46, 47, 46, 47, 97] = .ok [46, 47, 97] ∧
    (simplifyName [46, 47, 46, 47, 97] >>= simplifyName) = .ok [97] ∧
    ¬∀ name, (simplifyName name >>= simplifyName) = simplifyName name := by
  refine ⟨by decide, by decide, ?_⟩
  intro idempotent
  exact absurd (idempotent [46, 47, 46, 47, 97]) (by decide)

end Removals

end ToyKernel.Vfs
