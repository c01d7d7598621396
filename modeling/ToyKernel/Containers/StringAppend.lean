import ToyKernel.Containers.StdString

/-!
`operator+=` of `libcxx/include/string` when the two strings may be the same object. Every round of
the loop reads the size and the character of the right-hand side again.
-/

namespace ToyKernel.Containers

open Library

def appendRound (fresh : Nat → UInt8) (target source i : Nat) (strings : List StdString) :
    Except StringFault (Option (List StdString)) := do
  let other ← peek .noSuchString strings source
  if i < other.size then do
    let c ← peek .outOfBounds other.data i
    let string ← peek .noSuchString strings target
    let changed ← string.pushBack c fresh
    return some (strings.set target changed)
  else return none

def appendLoop (fresh : Nat → UInt8) (target source : Nat) : Nat → Nat → List StdString →
    Option (Except StringFault (List StdString))
  | 0, _, _ => none
  | fuel + 1, i, strings =>
      match appendRound fresh target source i strings with
      | .error fault => some (.error fault)
      | .ok none => some (.ok strings)
      | .ok (some next) => appendLoop fresh target source fuel (i + 1) next

def appendTo (fresh : Nat → UInt8) (target source fuel : Nat) (strings : List StdString) :
    Option (Except StringFault (List StdString)) :=
  appendLoop fresh target source fuel 0 strings

section Rounds

variable {fresh : Nat → UInt8} {target source i : Nat} {strings : List StdString} {texts : List (List UInt8)}
  {string other : StdString} {text otherText : List UInt8}

theorem appendRound_end (there : strings[source]? = some other) (behind : other.size ≤ i) :
    appendRound fresh target source i strings = .ok none := by
  rw [appendRound, peek_some _ there, ok_bind, if_neg (by omega)]
  rfl

theorem appendRound_more (here : strings[target]? = some string) (there : strings[source]? = some other)
    (inside : i < other.size) (inData : i < other.data.length) :
    appendRound fresh target source i strings =
      (string.pushBack other.data[i] fresh).map fun changed => some (strings.set target changed) := by
  rw [appendRound, peek_some _ there, ok_bind, if_pos inside, peek_eq _ inData, ok_bind, peek_some _ here, ok_bind]
  cases string.pushBack other.data[i] fresh <;> rfl

/-- With another string the loop pushes the characters that it had at first. -/
theorem appendLoop_append (apart : target ≠ source) (here : strings[target]? = some string)
    (there : strings[source]? = some other) (sized : other.size ≤ other.data.length) (count : Nat)
    (left : other.size = i + count) :
    appendLoop fresh target source (count + 1) i strings =
      some ((((other.data.take other.size).drop i).foldlM (fun string c => StdString.pushBack string c fresh)
        string).map fun changed => strings.set target changed) := by
  induction count generalizing i strings string with
  | zero =>
      have rest : (other.data.take other.size).drop i = [] :=
        List.drop_eq_nil_of_le (by rw [List.length_take]; omega)
      obtain ⟨inside, same⟩ := List.getElem?_eq_some_iff.mp here
      have kept : strings.set target string = strings := by rw [← same, List.set_getElem_self]
      rw [appendLoop, appendRound_end there (by omega), rest]
      exact congrArg (fun list => some (Except.ok list)) kept.symm
  | succ count ih =>
      have inside : i < other.data.length := by omega
      have rest : (other.data.take other.size).drop i =
          other.data[i] :: (other.data.take other.size).drop (i + 1) := by
        rw [List.drop_eq_getElem_cons (by rw [List.length_take]; omega), List.getElem_take]
      have bound := (List.getElem?_eq_some_iff.mp here).1
      rw [appendLoop, appendRound_more here there (by omega) inside, rest, List.foldlM_cons]
      cases pushed : string.pushBack other.data[i] fresh with
      | error fault => rfl
      | ok changed =>
          have looped := @ih (i + 1) (strings.set target changed) changed (List.getElem?_set_self bound)
            (by rw [List.getElem?_set_ne apart, there]) (by omega)
          simp only [List.set_set] at looped
          exact looped

/-- With itself the string grows by one in each round, and the index stays behind its size. -/
theorem appendLoop_self (reps : List.Forall₂ Holds strings texts) (found : texts[target]? = some text)
    (behind : i < text.length) (fuel : Nat) : appendLoop fresh target target fuel i strings = none := by
  induction fuel generalizing i strings texts text with
  | zero => rfl
  | succ fuel ih =>
      obtain ⟨string, here, holds⟩ := forall₂_getElem? reps found
      have size := holds.size
      have room := holds.room
      have length := holds.length
      have inside := (List.getElem?_eq_some_iff.mp found).1
      have inData : i < string.data.length := by omega
      obtain ⟨changed, pushed, grown, _⟩ := pushBack_holds holds string.data[i] fresh
      have longer : (text ++ [string.data[i]]).length = text.length + 1 := List.length_append
      rw [appendLoop, appendRound_more here here (by omega) inData, pushed]
      exact ih (forall₂_set reps grown target) (List.getElem?_set_self inside) (by omega)

/-- How much fuel there was does not show in the result. -/
theorem appendLoop_unique {fuel more : Nat} {result another : Except StringFault (List StdString)}
    (first : appendLoop fresh target source fuel i strings = some result)
    (second : appendLoop fresh target source more i strings = some another) : result = another := by
  induction fuel generalizing more i strings with
  | zero => cases first
  | succ fuel ih =>
      cases more with
      | zero => cases second
      | succ more =>
          rw [appendLoop] at first second
          cases round : appendRound fresh target source i strings with
          | error fault =>
              rw [round] at first second
              cases first
              cases second
              rfl
          | ok next =>
              rw [round] at first second
              cases next with
              | none =>
                  cases first
                  cases second
                  rfl
              | some next => exact ih first second

theorem appendTo_self_none (reps : List.Forall₂ Holds strings texts) (found : texts[target]? = some text)
    (nonempty : text ≠ []) (fuel : Nat) : appendTo fresh target target fuel strings = none :=
  appendLoop_self reps found (List.length_pos_of_ne_nil nonempty) fuel

theorem appendTo_empty (there : strings[source]? = some other) (holds : Holds other []) :
    appendTo fresh target source 1 strings = some (.ok strings) := by
  have none : other.size ≤ 0 := Nat.le_of_eq holds.size
  rw [appendTo, appendLoop, appendRound_end there none]

theorem appendTo_other (apart : target ≠ source) (here : strings[target]? = some string)
    (there : strings[source]? = some other) (holds : Holds other otherText) {changed : StdString}
    (pushed : otherText.foldlM (fun string c => StdString.pushBack string c fresh) string = .ok changed) :
    appendTo fresh target source (other.size + 1) strings = some (.ok (strings.set target changed)) := by
  have size := holds.size
  have room := holds.room
  have length := holds.length
  have looped : appendLoop fresh target source (other.size + 1) 0 strings = _ :=
    appendLoop_append apart here there (by omega) other.size (Nat.zero_add _).symm
  rw [List.drop_zero, size, holds.chars, pushed] at looped
  rw [appendTo, size]
  exact looped

theorem set_append_nil (found : texts[target]? = some text) : texts.set target (text ++ []) = texts := by
  obtain ⟨inside, same⟩ := List.getElem?_eq_some_iff.mp found
  rw [List.append_nil, ← same, List.set_getElem_self]

end Rounds

/-- Appending ends, with the old contents of both, exactly if the two are different objects or nothing is
appended. The result is terminated as well if a NUL follows the last character that is added. -/
theorem appendTo_iff {strings : List StdString} {texts : List (List UInt8)} {target source : Nat}
    {string : StdString} {text otherText : List UInt8} (reps : List.Forall₂ Holds strings texts)
    (here : strings[target]? = some string) (found : texts[target]? = some text)
    (otherFound : texts[source]? = some otherText) (fresh : Nat → UInt8) :
    ((∃ fuel after, appendTo fresh target source fuel strings = some (.ok after) ∧
      List.Forall₂ Holds after (texts.set target (text ++ otherText))) ↔ target ≠ source ∨ otherText = []) ∧
    (List.Forall₂ StringRep strings texts →
      ((∃ fuel after, appendTo fresh target source fuel strings = some (.ok after) ∧
        List.Forall₂ StringRep after (texts.set target (text ++ otherText))) ↔
        target ≠ source ∧ string.Ends otherText.length ∨ otherText = [])) := by
  obtain ⟨other, there, otherHolds⟩ := forall₂_getElem? reps otherFound
  constructor
  · obtain ⟨_, known, holds⟩ := forall₂_getElem? reps found
    cases here.symm.trans known
    constructor
    · rintro ⟨fuel, after, done, _⟩
      by_contra neither
      push Not at neither
      obtain ⟨rfl, nonempty⟩ := neither
      rw [appendTo_self_none reps otherFound nonempty] at done
      cases done
    · rintro (apart | rfl)
      · obtain ⟨changed, pushed, grown, _⟩ := pushAll_holds holds otherText fresh
        exact ⟨_, _, appendTo_other apart here there otherHolds pushed, forall₂_set reps grown target⟩
      · exact ⟨1, strings, appendTo_empty there otherHolds, by rwa [set_append_nil found]⟩
  · intro terminated
    obtain ⟨_, known, rep⟩ := forall₂_getElem? terminated found
    cases here.symm.trans known
    obtain ⟨_, _, otherRep⟩ := forall₂_getElem? terminated otherFound
    obtain ⟨changed, pushed, kept, lost⟩ := pushAll_rep rep otherRep.visible fresh
    constructor
    · rintro ⟨fuel, after, done, shown⟩
      by_cases none : otherText = []
      · exact .inr none
      · have apart : target ≠ source := by
          rintro rfl
          rw [appendTo_self_none reps otherFound none] at done
          cases done
        refine .inl ⟨apart, ?_⟩
        by_contra unended
        cases appendLoop_unique done (appendTo_other apart here there otherHolds pushed)
        have inside := (List.getElem?_eq_some_iff.mp found).1
        have inStrings := (List.getElem?_eq_some_iff.mp here).1
        obtain ⟨_, now, changedRep⟩ := forall₂_getElem? shown (List.getElem?_set_self inside)
        cases (List.getElem?_set_self inStrings).symm.trans now
        exact lost unended changedRep.ended
    · rintro (⟨apart, ends⟩ | rfl)
      · exact ⟨_, _, appendTo_other apart here there otherHolds pushed, forall₂_set terminated (kept ends) target⟩
      · exact ⟨1, strings, appendTo_empty there otherHolds, by rwa [set_append_nil found]⟩

theorem holds_letter : List.Forall₂ Holds [⟨1, 8, [97, 0, 0, 0, 0, 0, 0, 0]⟩] [[97]] :=
  .cons ⟨rfl, rfl, by decide, rfl⟩ .nil

/-- "a" and itself. -/
theorem appendTo_self_endless : ∃ strings, List.Forall₂ Holds strings [[97]] ∧
    ∀ fuel, appendTo (fun _ => 0) 0 0 fuel strings = none :=
  ⟨_, holds_letter, appendTo_self_none holds_letter rfl (List.cons_ne_nil _ _)⟩

/-- "a" and another "a". -/
theorem appendTo_iff_other : ∃ fuel after,
    appendTo (fun _ => 0) 0 1 fuel
      [⟨1, 8, [97, 0, 0, 0, 0, 0, 0, 0]⟩, ⟨1, 8, [97, 0, 0, 0, 0, 0, 0, 0]⟩] = some (.ok after) ∧
    List.Forall₂ Holds after [[97, 97], [97]] := by
  have found : ∀ index < 2, [[97], [97]][index]? = some [(97 : UInt8)] := by decide
  exact (appendTo_iff (.cons ⟨rfl, rfl, by decide, rfl⟩ holds_letter) rfl (found 0 (by decide)) (found 1 (by decide))
    _).1.mpr (.inl (by decide))

end ToyKernel.Containers
