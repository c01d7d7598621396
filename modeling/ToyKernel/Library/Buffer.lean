import ToyKernel.Library.Result

/-!
Fixed-size buffers with checked accesses: every read and write names the fault that an index
outside the buffer causes.
-/

namespace ToyKernel.Library

variable {α ε : Type}

def peek (fault : ε) (data : List α) (index : Nat) : Except ε α :=
  match data[index]? with
  | some value => .ok value
  | none => .error fault

def poke (fault : ε) (data : List α) (index : Nat) (value : α) : Except ε (List α) := do
  require (index < data.length) fault
  return data.set index value

def fill (fault : ε) (data : List α) (start : Nat) (value : α) (count : Nat) : Except ε (List α) := do
  require (start + count ≤ data.length) fault
  return data.take start ++ List.replicate count value ++ data.drop (start + count)

def move (fault : ε) (data : List α) (target source count : Nat) : Except ε (List α) := do
  require (target + count ≤ data.length) fault
  require (source + count ≤ data.length) fault
  return data.take target ++ (data.drop source).take count ++ data.drop (target + count)

section Buffers

variable (fault : ε)

theorem peek_eq {data : List α} {index : Nat} (inside : index < data.length) :
    peek fault data index = .ok data[index] := by
  rw [peek, List.getElem?_eq_getElem inside]

theorem poke_eq {data : List α} {index : Nat} (inside : index < data.length) (value : α) :
    poke fault data index value = .ok (data.set index value) := by
  rw [poke, require_of inside, ok_bind]
  rfl

theorem poke_length {data after : List α} {index : Nat} {value : α}
    (done : poke fault data index value = .ok after) : after.length = data.length := by
  obtain ⟨_, _, set⟩ := bind_eq_ok.mp done
  cases set
  exact List.length_set

theorem fill_eq {data : List α} {start count : Nat} (inside : start + count ≤ data.length) (value : α) :
    fill fault data start value count =
      .ok (data.take start ++ List.replicate count value ++ data.drop (start + count)) := by
  rw [fill, require_of inside, ok_bind]
  rfl

theorem move_eq {data : List α} {target source count : Nat} (room : target + count ≤ data.length)
    (inside : source + count ≤ data.length) : move fault data target source count =
      .ok (data.take target ++ (data.drop source).take count ++ data.drop (target + count)) := by
  rw [move, require_of room, ok_bind, require_of inside, ok_bind]
  rfl

/-- A buffer that starts with a row of values starts with one more after the next is written. -/
theorem take_set_concat {data front : List α} (starts : data.take front.length = front)
    (inside : front.length < data.length) (value : α) :
    (data.set front.length value).take (front ++ [value]).length = front ++ [value] := by
  have split : data = front ++ data.drop front.length := by
    rw [← List.take_append_drop front.length data, starts]
    simp
  have tail : data.drop front.length ≠ [] := by
    intro empty
    have short := List.drop_eq_nil_iff.mp empty
    omega
  obtain ⟨old, rest, back⟩ := List.exists_cons_of_ne_nil tail
  rw [split, back, List.set_append_right _ _ (Nat.le_refl _), Nat.sub_self, List.set_cons_zero,
    List.length_append, List.length_singleton, List.take_length_add_append]
  rfl

end Buffers

section Text

variable (fault : ε)

def strlen : List UInt8 → Except ε Nat
  | [] => .error fault
  | byte :: rest =>
      if byte = 0 then return 0
      else do
        let length ← strlen rest
        return length + 1

theorem strlen_text {text : List UInt8} (visible : 0 ∉ text) (tail : List UInt8) :
    strlen fault (text ++ 0 :: tail) = .ok text.length := by
  induction text with
  | nil => rfl
  | cons byte rest ih =>
      have shown : byte ≠ 0 := fun zero => visible (by simp [zero])
      rw [List.cons_append, strlen, if_neg shown, ih fun member => visible (by simp [member]), ok_bind]
      rfl

theorem visible_takeWhile (text : List UInt8) : 0 ∉ text.takeWhile (· != 0) := by
  intro member
  have shown := List.all_eq_true.mp List.all_takeWhile 0 member
  simp at shown

/-- A text that is followed by a NUL ends at the first one, its own or that. -/
theorem exists_split_nul (text tail : List UInt8) :
    ∃ rest, text ++ 0 :: tail = text.takeWhile (· != 0) ++ 0 :: rest := by
  induction text with
  | nil => exact ⟨tail, rfl⟩
  | cons c text ih =>
      by_cases zero : c = 0
      · refine ⟨text ++ 0 :: tail, ?_⟩
        rw [zero]
        rfl
      · obtain ⟨rest, split⟩ := ih
        have shown : (c != 0) = true := bne_iff_ne.mpr zero
        refine ⟨rest, ?_⟩
        rw [List.takeWhile_cons, if_pos shown, List.cons_append, split, List.cons_append]

end Text

section Rows

variable (fault : ε)

def copyIn (data : List α) (start : Nat) (values : List α) : Except ε (List α) := do
  require (start + values.length ≤ data.length) fault
  return data.take start ++ values ++ data.drop (start + values.length)

theorem copyIn_eq_ok {data values after : List α} {start : Nat} :
    copyIn fault data start values = .ok after ↔ start + values.length ≤ data.length ∧
      data.take start ++ values ++ data.drop (start + values.length) = after := by
  rw [copyIn, bind_eq_ok]
  constructor
  · rintro ⟨_, inside, result⟩
    exact ⟨require_eq_ok.mp inside, pure_eq_ok.mp result⟩
  · rintro ⟨inside, result⟩
    exact ⟨(), require_eq_ok.mpr inside, pure_eq_ok.mpr result⟩

theorem row_length {data values : List α} {start : Nat} (inside : start + values.length ≤ data.length) :
    (data.take start ++ values ++ data.drop (start + values.length)).length = data.length := by
  simp only [List.length_append, List.length_take, List.length_drop]
  omega

/-- Inside the row the values are read, and outside what was there before. -/
theorem row_getElem? {data values : List α} {start : Nat} (inside : start + values.length ≤ data.length)
    (index : Nat) : (data.take start ++ values ++ data.drop (start + values.length))[index]? =
      if start ≤ index ∧ index < start + values.length then values[index - start]? else data[index]? := by
  have front : (data.take start).length = start := by
    rw [List.length_take]
    omega
  rcases Nat.lt_or_ge index start with before | behind
  · rw [if_neg (by omega), List.append_assoc, List.getElem?_append_left (by omega), List.getElem?_take,
      if_pos before]
  · rcases Nat.lt_or_ge index (start + values.length) with within | beyond
    · rw [if_pos ⟨behind, within⟩, List.append_assoc, List.getElem?_append_right (by omega), front,
        List.getElem?_append_left (by omega)]
    · rw [if_neg (by omega), List.getElem?_append_right (by rw [List.length_append]; omega), List.length_append,
        front, List.getElem?_drop]
      congr 1
      omega

theorem peek_at (front : List α) (value : α) (back : List α) :
    peek fault (front ++ value :: back) front.length = .ok value := by
  rw [peek, List.getElem?_append_right (Nat.le_refl _), Nat.sub_self]
  rfl

theorem poke_at (front : List α) (old : α) (back : List α) (value : α) :
    poke fault (front ++ old :: back) front.length value = .ok (front ++ value :: back) := by
  rw [poke_eq _ (by simp), List.set_append_right _ _ (Nat.le_refl _), Nat.sub_self, List.set_cons_zero]

theorem copyIn_at (front values old back : List α) (same : old.length = values.length) :
    copyIn fault (front ++ (old ++ back)) front.length values = .ok (front ++ (values ++ back)) := by
  have room : front.length + values.length ≤ (front ++ (old ++ back)).length := by
    simp only [List.length_append]
    omega
  have rest : (front ++ (old ++ back)).drop (front.length + values.length) = back := by
    rw [List.drop_length_add_append, ← same, List.drop_left]
  rw [copyIn, require_of room, ok_bind, rest, List.take_left, List.append_assoc]
  rfl

end Rows

section Objects

variable {β : Type} {R : α → β → Prop} {objects : List α} {models : List β}

theorem forall₂_getElem? (related : List.Forall₂ R objects models) {index : Nat} {model : β}
    (found : models[index]? = some model) : ∃ object, objects[index]? = some object ∧ R object model := by
  induction related generalizing index with
  | nil => cases found
  | cons first _ ih =>
      cases index with
      | zero =>
          cases found
          exact ⟨_, rfl, first⟩
      | succ index => exact ih found

theorem forall₂_set (related : List.Forall₂ R objects models) {object : α} {model : β} (new : R object model)
    (index : Nat) : List.Forall₂ R (objects.set index object) (models.set index model) := by
  induction related generalizing index with
  | nil => exact .nil
  | cons first rest ih =>
      cases index with
      | zero => exact .cons new rest
      | succ index => exact .cons first (ih index)

theorem forall₂_concat (related : List.Forall₂ R objects models) {object : α} {model : β}
    (new : R object model) : List.Forall₂ R (objects ++ [object]) (models ++ [model]) :=
  List.rel_append related (.cons new .nil)

theorem getElem?_concat_cases {index : Nat} {new object : α} (found : (objects ++ [new])[index]? = some object) :
    objects[index]? = some object ∨ index = objects.length ∧ object = new := by
  have bound := (List.getElem?_eq_some_iff.mp found).1
  rw [List.length_append, List.length_singleton] at bound
  rcases Nat.lt_or_ge index objects.length with old | late
  · rw [List.getElem?_append_left old] at found
    exact .inl found
  · have last : index = objects.length := by omega
    rw [last, List.getElem?_concat_length] at found
    exact .inr ⟨last, (Option.some.inj found).symm⟩

theorem peek_some (fault : ε) {index : Nat} {object : α} (found : objects[index]? = some object) :
    peek fault objects index = .ok object := by
  rw [peek, found]

theorem forall₂_iff_getElem? : List.Forall₂ R objects models ↔ objects.length = models.length ∧
    ∀ (i : Nat) object model, objects[i]? = some object → models[i]? = some model → R object model := by
  rw [List.forall₂_iff_get]
  refine and_congr_right fun same => ?_
  constructor
  · intro related i object model here there
    obtain ⟨inside, rfl⟩ := List.getElem?_eq_some_iff.mp here
    obtain ⟨within, rfl⟩ := List.getElem?_eq_some_iff.mp there
    exact related i inside within
  · intro related i inside within
    exact related i _ _ (List.getElem?_eq_getElem inside) (List.getElem?_eq_getElem within)

theorem erase_perm_eraseIdx [DecidableEq α] {index : Nat} {object : α} (here : objects[index]? = some object) :
    (objects.erase object).Perm (objects.eraseIdx index) := by
  obtain ⟨inside, rfl⟩ := List.getElem?_eq_some_iff.mp here
  have first := List.perm_cons_erase (List.getElem_mem inside)
  exact (List.perm_cons _).mp (first.symm.trans (List.getElem_cons_eraseIdx_perm inside).symm)

theorem forall₂_set_of {S : α → β → Prop} (related : List.Forall₂ R objects models) {index : Nat} {object : α} {model : β}
    (others : ∀ (j : Nat) other second, j ≠ index → objects[j]? = some other → R other second → S other second)
    (new : S object model) : List.Forall₂ S (objects.set index object) (models.set index model) := by
  rw [forall₂_iff_getElem?] at related ⊢
  refine ⟨by simp [related.1], fun j other second here there => ?_⟩
  rw [List.getElem?_set] at here there
  by_cases same : index = j
  · rw [if_pos same] at here there
    split at here
    · split at there
      · cases here
        cases there
        exact new
      · cases there
    · cases here
  · rw [if_neg same] at here there
    exact others j other second (Ne.symm same) here (related.2 j other second here there)

theorem forall₂_eraseIdx_of {S : α → β → Prop} (related : List.Forall₂ R objects models) {index : Nat}
    (others : ∀ (j : Nat) other second, j ≠ index → objects[j]? = some other → R other second → S other second) :
    List.Forall₂ S (objects.eraseIdx index) (models.eraseIdx index) := by
  rw [forall₂_iff_getElem?] at related ⊢
  refine ⟨by simp [List.length_eraseIdx, related.1], fun j other second here there => ?_⟩
  rw [List.getElem?_eraseIdx] at here there
  split at here
  · rw [if_pos ‹_›] at there
    exact others j other second (by omega) here (related.2 j other second here there)
  · rw [if_neg ‹_›] at there
    exact others (j + 1) other second (by omega) here (related.2 (j + 1) other second here there)

end Objects

end ToyKernel.Library
