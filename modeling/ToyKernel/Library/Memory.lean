import Mathlib.Tactic

/-!
Byte-addressed memory with little-endian 32-bit words, and the byte loops
`memcpy` and `memset` over it.
-/

namespace ToyKernel.Library

abbrev Memory := Nat → UInt8

/-- Two memories hold the same bytes on the half-open interval `[low, high)`. -/
def AgreeOn (first second : Memory) (low high : Nat) : Prop :=
  ∀ address, low ≤ address → address < high → second address = first address

theorem AgreeOn.refl (memory : Memory) (low high : Nat) : AgreeOn memory memory low high :=
  fun _ _ _ => rfl

theorem AgreeOn.trans {first second third : Memory} {low high : Nat}
    (left : AgreeOn first second low high) (right : AgreeOn second third low high) :
    AgreeOn first third low high := by
  intro address lower upper
  rw [right address lower upper, left address lower upper]

theorem AgreeOn.mono {first second : Memory} {low high low' high' : Nat}
    (agree : AgreeOn first second low high) (lower : low ≤ low') (upper : high' ≤ high) :
    AgreeOn first second low' high' := by
  intro address above below
  exact agree address (by omega) (by omega)

def store (memory : Memory) (address : Nat) (byte : UInt8) : Memory :=
  fun query => if query = address then byte else memory query

@[simp] theorem store_same (memory : Memory) (address : Nat) (byte : UInt8) :
    store memory address byte address = byte := by
  simp [store]

theorem store_other (memory : Memory) {address query : Nat} (byte : UInt8)
    (different : query ≠ address) : store memory address byte query = memory query := by
  simp [store, different]

theorem store_agreeOn (memory : Memory) {address low high : Nat} (byte : UInt8)
    (outside : address < low ∨ high ≤ address) :
    AgreeOn memory (store memory address byte) low high := by
  intro query lower upper
  exact store_other memory byte (by omega)

def read32 (memory : Memory) (address : Nat) : Nat :=
  (memory address).toNat + 256 * (memory (address + 1)).toNat +
    65536 * (memory (address + 2)).toNat + 16777216 * (memory (address + 3)).toNat

def write32 (memory : Memory) (address value : Nat) : Memory :=
  store (store (store (store memory address (UInt8.ofNat value))
    (address + 1) (UInt8.ofNat (value / 256)))
    (address + 2) (UInt8.ofNat (value / 65536)))
    (address + 3) (UInt8.ofNat (value / 16777216))

theorem read32_write32 (memory : Memory) {address value : Nat} (bound : value < 4294967296) :
    read32 (write32 memory address value) address = value := by
  simp [read32, write32, store]
  omega

theorem write32_other (memory : Memory) {address query : Nat} (value : Nat)
    (outside : query < address ∨ address + 4 ≤ query) :
    write32 memory address value query = memory query := by
  simp only [write32, store]
  rw [if_neg (by omega), if_neg (by omega), if_neg (by omega), if_neg (by omega)]

theorem write32_agreeOn (memory : Memory) {address low high : Nat} (value : Nat)
    (outside : high ≤ address ∨ address + 4 ≤ low) :
    AgreeOn memory (write32 memory address value) low high := by
  intro query lower upper
  exact write32_other memory value (by omega)

theorem AgreeOn.read32_eq {first second : Memory} {low high address : Nat}
    (agree : AgreeOn first second low high) (lower : low ≤ address) (upper : address + 4 ≤ high) :
    read32 second address = read32 first address := by
  unfold read32
  rw [agree address (by omega) (by omega), agree (address + 1) (by omega) (by omega),
    agree (address + 2) (by omega) (by omega), agree (address + 3) (by omega) (by omega)]

def memset (memory : Memory) (destination : Nat) (byte : UInt8) : Nat → Memory
  | 0 => memory
  | count + 1 => memset (store memory destination byte) (destination + 1) byte count

def memcpy (memory : Memory) (destination source : Nat) : Nat → Memory
  | 0 => memory
  | count + 1 =>
      memcpy (store memory destination (memory source)) (destination + 1) (source + 1) count

theorem memset_agreeOn (memory : Memory) (destination low high : Nat) (byte : UInt8) (count : Nat)
    (outside : high ≤ destination ∨ destination + count ≤ low) :
    AgreeOn memory (memset memory destination byte count) low high := by
  induction count generalizing memory destination with
  | zero => exact AgreeOn.refl memory low high
  | succ count ih =>
      rw [memset]
      have first : AgreeOn memory (store memory destination byte) low high := by
        intro query lower upper
        exact store_other memory byte (by omega)
      exact first.trans (ih (store memory destination byte) (destination + 1) (by omega))

theorem memcpy_agreeOn (memory : Memory) (destination source low high count : Nat)
    (outside : high ≤ destination ∨ destination + count ≤ low) :
    AgreeOn memory (memcpy memory destination source count) low high := by
  induction count generalizing memory destination source with
  | zero => exact AgreeOn.refl memory low high
  | succ count ih =>
      rw [memcpy]
      have first : AgreeOn memory (store memory destination (memory source)) low high := by
        intro query lower upper
        exact store_other memory _ (by omega)
      exact first.trans (ih _ (destination + 1) (source + 1) (by omega))

theorem memset_fills (memory : Memory) (destination : Nat) (byte : UInt8) (count offset : Nat)
    (inside : offset < count) :
    memset memory destination byte count (destination + offset) = byte := by
  induction count generalizing memory destination offset with
  | zero => omega
  | succ count ih =>
      rw [memset]
      cases offset with
      | zero =>
          have kept := memset_agreeOn (store memory destination byte) (destination + 1) destination
            (destination + 1) byte count (Or.inl (Nat.le_refl _))
          exact (kept destination (Nat.le_refl _) (Nat.lt_succ_self _)).trans (store_same _ _ _)
      | succ offset =>
          have filled := ih (store memory destination byte) (destination + 1) offset (by omega)
          rwa [Nat.add_right_comm, Nat.add_assoc] at filled

theorem memcpy_copies (memory : Memory) (destination source count offset : Nat)
    (apart : destination + count ≤ source ∨ source + count ≤ destination) (inside : offset < count) :
    memcpy memory destination source count (destination + offset) = memory (source + offset) := by
  induction count generalizing memory destination source offset with
  | zero => omega
  | succ count ih =>
      rw [memcpy]
      cases offset with
      | zero =>
          have kept := memcpy_agreeOn (store memory destination (memory source)) (destination + 1)
            (source + 1) destination (destination + 1) count (Or.inl (Nat.le_refl _))
          exact (kept destination (Nat.le_refl _) (Nat.lt_succ_self _)).trans (store_same _ _ _)
      | succ offset =>
          have copied := ih (store memory destination (memory source)) (destination + 1) (source + 1)
            offset (by omega) (by omega)
          rw [store_other memory _ (by omega)] at copied
          rwa [Nat.add_right_comm, Nat.add_assoc, Nat.add_right_comm, Nat.add_assoc] at copied

end ToyKernel.Library
