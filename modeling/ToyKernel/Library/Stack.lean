import Mathlib.Data.UInt
import Mathlib.Tactic

/-!
Words on a stack that grows down in a 32-bit address space. Addresses wrap around, and
a view takes them to the locations that hold the bytes.
-/

namespace ToyKernel.Library

theorem ofNat_eq_ofNat {left right : Nat} (leftBound : left < 4294967296)
    (rightBound : right < 4294967296) (same : UInt32.ofNat left = UInt32.ofNat right) : left = right := by
  have values := congrArg UInt32.toNat same
  rwa [UInt32.toNat_ofNat', UInt32.toNat_ofNat', Nat.mod_eq_of_lt leftBound,
    Nat.mod_eq_of_lt rightBound] at values

theorem add_ne_sub (address : UInt32) {above below : Nat} (positive : 0 < below)
    (bound : above + below < 4294967296 + 1) (apart : above + below ≠ 4294967296) :
    address + UInt32.ofNat above ≠ address - UInt32.ofNat below := by
  intro same
  have zero : UInt32.ofNat (above + below) = UInt32.ofNat 0 := by
    rw [UInt32.ofNat_add]
    have moved : address + (UInt32.ofNat above + UInt32.ofNat below) = address + 0 := by
      rw [← UInt32.add_assoc, same, UInt32.sub_add_cancel, UInt32.add_zero]
    exact (UInt32.add_right_inj address).mp moved
  have exact_ := ofNat_eq_ofNat (by omega) (by omega) zero
  omega

section

variable {L : Type}

def load32 (view : UInt32 → L) (address : UInt32) (memory : L → UInt8) : UInt32 :=
  UInt32.ofNat ((memory (view address)).toNat + 256 * (memory (view (address + 1))).toNat +
    65536 * (memory (view (address + 2))).toNat + 16777216 * (memory (view (address + 3))).toNat)

def Below (view : UInt32 → L) (address : UInt32) (size : Nat) (location : L) : Prop :=
  ∃ offset, 0 < offset ∧ offset ≤ size ∧ location = view (address - UInt32.ofNat offset)

variable {view : UInt32 → L}

theorem Below.shift {address : UInt32} {size skipped : Nat} {location : L}
    (below : Below view (address - UInt32.ofNat skipped) size location) :
    Below view address (skipped + size) location := by
  obtain ⟨offset, positive, small, rfl⟩ := below
  refine ⟨skipped + offset, by omega, by omega, ?_⟩
  rw [UInt32.ofNat_add]
  congr 1
  grind

theorem Below.mono {address : UInt32} {size larger : Nat} {location : L}
    (below : Below view address size location) (fits : size ≤ larger) :
    Below view address larger location := by
  obtain ⟨offset, positive, small, rfl⟩ := below
  exact ⟨offset, positive, by omega, rfl⟩

theorem not_below_of_above (injective : Function.Injective view) {address : UInt32} {size above : Nat}
    (bound : above + size < 4294967296) : ¬Below view address size (view (address + UInt32.ofNat above)) := by
  rintro ⟨offset, positive, small, same⟩
  exact add_ne_sub address positive (by omega) (by omega) (injective same)

theorem load32_congr {address : UInt32} {memory other : L → UInt8}
    (same : ∀ offset < 4, other (view (address + UInt32.ofNat offset)) =
      memory (view (address + UInt32.ofNat offset))) :
    load32 view address other = load32 view address memory := by
  have first := same 0 (by decide)
  have second := same 1 (by decide)
  have third := same 2 (by decide)
  have fourth := same 3 (by decide)
  simp only [UInt32.reduceOfNat, UInt32.add_zero] at first second third fourth
  rw [load32, load32, first, second, third, fourth]

variable [DecidableEq L]

def store32 (view : UInt32 → L) (address value : UInt32) (memory : L → UInt8) : L → UInt8 :=
  Function.update (Function.update (Function.update (Function.update memory
    (view address) (UInt8.ofNat value.toNat))
    (view (address + 1)) (UInt8.ofNat (value.toNat / 256)))
    (view (address + 2)) (UInt8.ofNat (value.toNat / 65536)))
    (view (address + 3)) (UInt8.ofNat (value.toNat / 16777216))

theorem load32_store32 (injective : Function.Injective view) (address value : UInt32)
    (memory : L → UInt8) : load32 view address (store32 view address value memory) = value := by
  have differ : ∀ left right : Nat, left < 4 → right < 4 → left ≠ right →
      view (address + UInt32.ofNat left) ≠ view (address + UInt32.ofNat right) := by
    intro left right leftBound rightBound different same
    have sums := (UInt32.add_right_inj address).mp (injective same)
    exact different (ofNat_eq_ofNat (by omega) (by omega) sums)
  have d01 := differ 0 1 (by decide) (by decide) (by decide)
  have d02 := differ 0 2 (by decide) (by decide) (by decide)
  have d03 := differ 0 3 (by decide) (by decide) (by decide)
  have d12 := differ 1 2 (by decide) (by decide) (by decide)
  have d13 := differ 1 3 (by decide) (by decide) (by decide)
  have d23 := differ 2 3 (by decide) (by decide) (by decide)
  simp only [UInt32.reduceOfNat, UInt32.add_zero] at d01 d02 d03 d12 d13 d23
  have bound := value.toNat_lt
  simp only [load32, store32, Function.update_self, Function.update_of_ne d01, Function.update_of_ne d02,
    Function.update_of_ne d03, Function.update_of_ne d12, Function.update_of_ne d13,
    Function.update_of_ne d23, UInt8.toNat_ofNat']
  rw [← UInt32.toNat_inj, UInt32.toNat_ofNat']
  omega

theorem store32_other {address value : UInt32} {memory : L → UInt8} {location : L}
    (outside : ¬Below view address 4 location) :
    store32 view (address - 4) value memory location = memory location := by
  have differ : ∀ offset, 0 < offset → offset ≤ 4 → location ≠ view (address - UInt32.ofNat offset) :=
    fun offset positive small same => outside ⟨offset, positive, small, same⟩
  have moved : ∀ offset, offset < 4 →
      address - UInt32.ofNat (4 - offset) = address - 4 + UInt32.ofNat offset := by
    intro offset small
    rw [UInt32.ofNat_sub (by omega), show UInt32.ofNat 4 = 4 from rfl]
    grind
  have first := differ 4 (by decide) (by decide)
  have second := differ 3 (by decide) (by decide)
  have third := differ 2 (by decide) (by decide)
  have fourth := differ 1 (by decide) (by decide)
  rw [show UInt32.ofNat 4 = 4 from rfl] at first
  rw [show 3 = 4 - 1 from rfl, moved 1 (by decide)] at second
  rw [show 2 = 4 - 2 from rfl, moved 2 (by decide)] at third
  rw [show 1 = 4 - 3 from rfl, moved 3 (by decide)] at fourth
  simp only [UInt32.reduceOfNat] at second third fourth
  simp only [store32]
  rw [Function.update_of_ne fourth, Function.update_of_ne third, Function.update_of_ne second,
    Function.update_of_ne first]

/-- The words of a frame are stored apart from each other. -/
theorem load32_store32_word (injective : Function.Injective view) (base value : UInt32) (memory : L → UInt8)
    {left right : Nat} (different : left ≠ right) (leftBound : left < 16) (rightBound : right < 16) :
    load32 view (base + UInt32.ofNat (4 * left)) (store32 view (base + UInt32.ofNat (4 * right)) value memory) =
      load32 view (base + UInt32.ofNat (4 * left)) memory := by
  apply load32_congr
  intro offset small
  rw [show base + UInt32.ofNat (4 * right) = base + UInt32.ofNat (4 * right) + 4 - 4 by grind]
  apply store32_other
  rintro ⟨below, positive, inside, same⟩
  have moved : base + UInt32.ofNat (4 * right) + 4 - UInt32.ofNat below =
      base + UInt32.ofNat (4 * right + (4 - below)) := by
    rw [UInt32.ofNat_add, UInt32.ofNat_sub inside, show UInt32.ofNat 4 = 4 from rfl]
    grind
  rw [moved, UInt32.add_assoc, ← UInt32.ofNat_add] at same
  have sums := ofNat_eq_ofNat (by omega) (by omega) ((UInt32.add_right_inj base).mp (injective same))
  omega

/-- Push the words one after the other, the first of them at the highest address. -/
def pushes (view : UInt32 → L) : List UInt32 → UInt32 → (L → UInt8) → L → UInt8
  | [], _, memory => memory
  | word :: rest, esp, memory => pushes view rest (esp - 4) (store32 view (esp - 4) word memory)

theorem pushes_other {words : List UInt32} {esp : UInt32} {memory : L → UInt8} {location : L}
    (outside : ¬Below view esp (4 * words.length) location) :
    pushes view words esp memory location = memory location := by
  induction words generalizing esp memory with
  | nil => rfl
  | cons word rest ih =>
      rw [List.length_cons] at outside
      rw [pushes, ih, store32_other]
      · intro below
        exact outside (below.mono (by omega))
      · intro below
        have shifted := Below.shift (show Below view (esp - UInt32.ofNat 4) _ _ from below)
        exact outside (shifted.mono (by omega))

theorem load32_pushes (injective : Function.Injective view) {words : List UInt32} {index : Nat}
    {word : UInt32} (found : words[index]? = some word) (fits : 4 * words.length < 4294967296)
    (esp : UInt32) (memory : L → UInt8) :
    load32 view (esp - UInt32.ofNat (4 * (index + 1))) (pushes view words esp memory) = word := by
  induction words generalizing index esp memory with
  | nil => simp at found
  | cons first rest ih =>
      rw [List.length_cons] at fits
      rw [pushes]
      cases index with
      | zero =>
          have isFirst : first = word := by simpa using found
          rw [← isFirst, show UInt32.ofNat (4 * (0 + 1)) = 4 from rfl]
          have kept : load32 view (esp - 4)
              (pushes view rest (esp - 4) (store32 view (esp - 4) first memory)) =
              load32 view (esp - 4) (store32 view (esp - 4) first memory) := by
            apply load32_congr
            intro offset small
            apply pushes_other
            exact not_below_of_above injective (by omega)
          rw [kept, load32_store32 injective]
      | succ index =>
          have later : rest[index]? = some word := by simpa using found
          have deeper := ih later (by omega) (esp - 4) (store32 view (esp - 4) first memory)
          rw [← deeper]
          congr 1
          rw [show 4 * (index + 1 + 1) = 4 * (index + 1) + 4 by omega, UInt32.ofNat_add,
            show UInt32.ofNat 4 = 4 from rfl]
          grind

end

end ToyKernel.Library
