import ToyKernel.Library.Buffer
import ToyKernel.Library.Refinement

/-!
The string of `libcxx/include/string` against a list of characters. The characters are followed
by a NUL that nothing writes explicitly while the string grows in place: it is whatever the
buffer holds there.
-/

namespace ToyKernel.Containers

open Library

inductive StringFault
  | notEnoughCapacity | eraseFirst | eraseLast | eraseOrder | outOfBounds | noSuchString
deriving DecidableEq, Repr

structure StdString where
  size : Nat
  capacity : Nat
  data : List UInt8
deriving DecidableEq, Repr

def strcmp : List UInt8 → List UInt8 → Except StringFault Int
  | first :: rest, second :: others =>
      if first ≠ 0 ∧ first = second then strcmp rest others
      else return first.toInt8.toInt - second.toInt8.toInt
  | _, _ => .error .outOfBounds

namespace StdString

def kDefaultCapacity : Nat := 8

def ofRange (s : List UInt8) (n : Nat) : Except StringFault StdString := do
  let length ← strlen .outOfBounds s
  let size := min n length
  let capacity := max kDefaultCapacity (size + 1)
  return { size, capacity, data := s.take size ++ List.replicate (capacity - size) 0 }

def ofCString (s : List UInt8) : Except StringFault StdString := do
  let length ← strlen .outOfBounds s
  ofRange s length

def copy (other : StdString) : Except StringFault StdString := ofCString other.data

/-- Allocations succeed, and `fresh` is what a longer block holds behind the old one. The
allocator serves no request of 2^31 bytes, so the doubled capacity does not wrap. -/
def pushBack (string : StdString) (c : UInt8) (fresh : Nat → UInt8) : Except StringFault StdString := do
  let size := string.size + 1
  let grown ←
    if string.capacity ≤ size then do
      let capacity := string.capacity * 2
      require (size ≤ capacity) .notEnoughCapacity
      let moved := string.data ++ (List.range' string.capacity string.capacity).map fresh
      let data ← fill .outOfBounds moved size 0 (capacity - size)
      pure { size, capacity, data : StdString }
    else pure { string with size }
  let data ← poke .outOfBounds grown.data (size - 1) c
  return { grown with data }

def append (string other : StdString) (fresh : Nat → UInt8) : Except StringFault StdString :=
  (other.data.take other.size).foldlM (fun string c => string.pushBack c fresh) string

def erase (string : StdString) (first last : Nat) : Except StringFault StdString := do
  require (first < string.size) .eraseFirst
  require (0 < last) .eraseLast
  require (first < last) .eraseOrder
  let last := if string.size < last then string.size else last
  let remaining := string.size - last
  let moved ← move .outOfBounds string.data first last remaining
  let data ← poke .outOfBounds moved (first + remaining) 0
  return { string with size := string.size - (last - first), data }

def equals (string : StdString) (other : List UInt8) : Except StringFault Bool := do
  let order ← strcmp string.data other
  return decide (order = 0)

end StdString

section Text

theorem toInt8_sub_eq_zero {first second : UInt8} :
    first.toInt8.toInt - second.toInt8.toInt = 0 ↔ first = second := by
  rw [Int.sub_eq_zero, Int8.toInt_inj]
  constructor
  · intro same
    exact congrArg Int8.toUInt8 same
  · intro same
    rw [same]

theorem strcmp_text {text other : List UInt8} (visible : 0 ∉ text) (otherVisible : 0 ∉ other)
    (tail otherTail : List UInt8) :
    ∃ order, strcmp (text ++ 0 :: tail) (other ++ 0 :: otherTail) = .ok order ∧ (order = 0 ↔ text = other) := by
  induction text generalizing other with
  | nil =>
      cases other with
      | nil => exact ⟨0, rfl, by simp⟩
      | cons byte rest =>
          have shown : byte ≠ 0 := fun zero => otherVisible (by simp [zero])
          refine ⟨_, by rw [List.nil_append, List.cons_append, strcmp, if_neg (by simp)]; rfl, ?_⟩
          rw [toInt8_sub_eq_zero]
          simpa using Ne.symm shown
  | cons byte rest ih =>
      have shown : byte ≠ 0 := fun zero => visible (by simp [zero])
      have later : 0 ∉ rest := fun member => visible (by simp [member])
      cases other with
      | nil =>
          refine ⟨_, by rw [List.nil_append, List.cons_append, strcmp, if_neg (by simp [shown])]; rfl, ?_⟩
          rw [toInt8_sub_eq_zero]
          simpa using shown
      | cons second others =>
          rw [List.cons_append, List.cons_append, strcmp]
          by_cases same : byte = second
          · have otherLater : 0 ∉ others := fun member => otherVisible (by simp [member])
            obtain ⟨order, compared, equal⟩ := ih later otherLater
            exact ⟨order, by rw [if_pos ⟨shown, same⟩, compared], by simp [equal, same]⟩
          · refine ⟨_, by rw [if_neg (by simp [same])]; rfl, ?_⟩
            rw [toInt8_sub_eq_zero]
            simp [same]

end Text

section Objects

structure Holds (string : StdString) (text : List UInt8) : Prop where
  size : string.size = text.length
  length : string.data.length = string.capacity
  room : string.size < string.capacity
  chars : string.data.take text.length = text

structure StringRep (string : StdString) (text : List UInt8) : Prop extends Holds string text where
  ended : string.data[text.length]? = some 0
  visible : 0 ∉ text

/-- The text is followed by a NUL, which need not be the first. -/
structure Ended (string : StdString) (text : List UInt8) : Prop extends Holds string text where
  ended : string.data[text.length]? = some 0

variable {string : StdString} {text : List UInt8}

theorem StringRep.toEnded (rep : StringRep string text) : Ended string text := ⟨rep.toHolds, rep.ended⟩

theorem Holds.split (holds : Holds string text) :
    string.data = text ++ string.data.drop text.length := by
  rw [← List.take_append_drop text.length string.data, holds.chars]
  simp

theorem Ended.split (ended : Ended string text) :
    string.data = text ++ 0 :: string.data.drop (text.length + 1) := by
  obtain ⟨inside, isZero⟩ := List.getElem?_eq_some_iff.mp ended.ended
  have tail := List.drop_eq_getElem_cons inside
  rw [isZero] at tail
  rw [← tail]
  exact ended.toHolds.split

theorem StringRep.split (rep : StringRep string text) :
    string.data = text ++ 0 :: string.data.drop (text.length + 1) := rep.toEnded.split

theorem ofCString_rep (visible : 0 ∉ text) (tail : List UInt8) :
    ∃ made, StdString.ofCString (text ++ 0 :: tail) = .ok made ∧ StringRep made text := by
  have length := strlen_text StringFault.outOfBounds visible tail
  refine ⟨_, by rw [StdString.ofCString, length, ok_bind, StdString.ofRange, length, ok_bind]; rfl, ?_⟩
  have capacity : text.length < max StdString.kDefaultCapacity (text.length + 1) := by omega
  refine ⟨⟨?_, ?_, ?_, ?_⟩, ?_, visible⟩
  · simp
  · simp
  · simp
  · simp
  · simp

theorem pushBack_inPlace (room : string.size + 1 < string.capacity)
    (length : string.data.length = string.capacity) (c : UInt8) (fresh : Nat → UInt8) :
    string.pushBack c fresh =
      .ok { string with size := string.size + 1, data := string.data.set string.size c } := by
  rw [StdString.pushBack]
  dsimp only
  rw [if_neg (show ¬string.capacity ≤ string.size + 1 by omega)]
  simp only [pure_bind, Nat.add_sub_cancel]
  rw [poke_eq _ (by omega), ok_bind]
  rfl

theorem pushBack_grown (full : string.capacity ≤ string.size + 1) (room : string.size < string.capacity)
    (length : string.data.length = string.capacity) (c : UInt8) (fresh : Nat → UInt8) :
    string.pushBack c fresh = .ok
      { size := string.size + 1, capacity := string.capacity * 2
        data := (string.data ++ List.replicate string.capacity 0).set string.size c } := by
  have exactly : string.size + 1 = string.capacity := by omega
  have twice : string.capacity * 2 - string.capacity = string.capacity := by omega
  have long : (string.data ++ (List.range' string.capacity string.capacity).map fresh).length =
      string.capacity + string.capacity := by
    simp [length]
  have front : (string.data ++ (List.range' string.capacity string.capacity).map fresh).take string.capacity =
      string.data := by
    rw [List.take_append_of_le_length (by omega), List.take_of_length_le (by omega)]
  have rest : (string.data ++ (List.range' string.capacity string.capacity).map fresh).drop
      (string.capacity + string.capacity) = [] :=
    List.drop_eq_nil_of_le (by omega)
  rw [StdString.pushBack]
  dsimp only
  rw [if_pos full, exactly, require_of (show string.capacity ≤ string.capacity * 2 by omega), ok_bind, twice,
    fill_eq _ (by omega), ok_bind, front, rest, List.append_nil]
  simp only [pure_bind]
  rw [poke_eq _ (by simp; omega), ok_bind, ← exactly, Nat.add_sub_cancel]
  rfl

/-- A push writes one character, in place or into a block of twice the size whose rest is zero. -/
theorem pushBack_holds (holds : Holds string text) (c : UInt8) (fresh : Nat → UInt8) :
    ∃ after, string.pushBack c fresh = .ok after ∧ Holds after (text ++ [c]) ∧
      (text.length + 1 < string.capacity → after.capacity = string.capacity ∧
        ∀ index, text.length + 1 ≤ index → after.data[index]? = string.data[index]?) ∧
      (string.capacity ≤ text.length + 1 →
        ∀ index, text.length + 1 ≤ index → index < after.capacity → after.data[index]? = some 0) := by
  have size := holds.size
  have length := holds.length
  have room := holds.room
  by_cases full : string.capacity ≤ string.size + 1
  · refine ⟨_, pushBack_grown full room length c fresh, ⟨?_, ?_, ?_, ?_⟩, ?_, ?_⟩
    · simp [size]
    · simp
      omega
    · dsimp only
      omega
    · dsimp only
      rw [size]
      refine take_set_concat ?_ (by simp; omega) c
      rw [List.take_append_of_le_length (by omega)]
      exact holds.chars
    · intro fits
      omega
    · intro _ index above below
      dsimp only at below ⊢
      rw [List.getElem?_set_ne (by omega), List.getElem?_append_right (by omega), List.getElem?_replicate,
        if_pos (by omega)]
  · refine ⟨_, pushBack_inPlace (by omega) length c fresh, ⟨?_, ?_, ?_, ?_⟩, ?_, ?_⟩
    · simp [size]
    · simp [length]
    · dsimp only
      omega
    · dsimp only
      rw [size]
      exact take_set_concat holds.chars (by omega) c
    · intro _
      refine ⟨rfl, fun index above => ?_⟩
      exact List.getElem?_set_ne (by omega)
    · intro short
      omega

/-- A run of pushes ends with the bytes that were there behind the new text, or with zeroes if
the block was replaced on the way. -/
theorem pushAll_holds (holds : Holds string text) (chars : List UInt8) (fresh : Nat → UInt8) :
    ∃ after, chars.foldlM (fun string c => StdString.pushBack string c fresh) string = .ok after ∧
      Holds after (text ++ chars) ∧
      after.data[(text ++ chars).length]? =
        if chars = [] ∨ text.length + chars.length < string.capacity then
          string.data[(text ++ chars).length]?
        else some 0 := by
  induction chars generalizing string text with
  | nil => exact ⟨string, rfl, by simpa using holds, by simp⟩
  | cons c rest ih =>
      obtain ⟨next, pushed, held, inPlace, moved⟩ := pushBack_holds holds c fresh
      obtain ⟨after, done, still, ended⟩ := ih held
      have whole : text ++ [c] ++ rest = text ++ c :: rest := by simp
      rw [whole] at still ended
      refine ⟨after, ?_, still, ?_⟩
      · rw [List.foldlM_cons, pushed, ok_bind, done]
      have room := held.room
      have size := held.size
      have longer : (text ++ c :: rest).length = text.length + 1 + rest.length := by simp; omega
      rw [longer] at ended ⊢
      rw [ended]
      rw [List.length_append, List.length_singleton] at size ⊢
      rw [List.length_cons]
      by_cases fits : text.length + 1 < string.capacity
      · obtain ⟨capacity, same⟩ := inPlace fits
        rw [capacity, same _ (by omega)]
        refine if_congr ?_ rfl rfl
        constructor
        · rintro (rfl | short)
          · exact .inr (by simpa using fits)
          · exact .inr (by omega)
        · rintro (wrong | short)
          · cases wrong
          · exact .inr (by omega)
      · have long : ¬(c :: rest = [] ∨ text.length + (rest.length + 1) < string.capacity) := by
          rintro (wrong | short)
          · cases wrong
          · omega
        rw [if_neg long]
        by_cases short : rest = [] ∨ text.length + 1 + rest.length < next.capacity
        · rw [if_pos short]
          refine moved (by omega) (text.length + 1 + rest.length) (by omega) ?_
          rcases short with rfl | short
          · rw [List.length_nil]
            omega
          · exact short
        · rw [if_neg short]

theorem copy_rep (ended : Ended string text) :
    ∃ made, string.copy = .ok made ∧ StringRep made (text.takeWhile (· != 0)) := by
  obtain ⟨rest, split⟩ := exists_split_nul text (string.data.drop (text.length + 1))
  rw [StdString.copy, ended.split, split]
  exact ofCString_rep (visible_takeWhile text) rest

/-- Erasing moves the rest of the text down and ends it with a NUL. -/
theorem erase_ended (holds : Holds string text) {first last : Nat} (nonempty : first < last)
    (inside : last ≤ text.length) :
    ∃ after, string.erase first last = .ok after ∧ Ended after (text.take first ++ text.drop last) := by
  have size := holds.size
  have room := holds.room
  have length := holds.length
  have split := holds.split
  have front : string.data.take first = text.take first := by
    rw [split, List.take_append_of_le_length (by omega)]
  have back : (string.data.drop last).take (text.length - last) = text.drop last := by
    rw [split, List.drop_append_of_le_length inside, List.take_append_of_le_length (by simp)]
    exact List.take_of_length_le (by simp)
  have shorter : (text.take first ++ text.drop last).length = first + (text.length - last) := by
    rw [List.length_append, List.length_take, List.length_drop]
    omega
  rw [StdString.erase, require_of (by omega), ok_bind, require_of (by omega), ok_bind, require_of nonempty,
    ok_bind]
  simp only [size, if_neg (show ¬text.length < last by omega)]
  rw [move_eq _ (by omega) (by omega), ok_bind, front, back, ← shorter]
  have rest : (string.data.drop (text.take first ++ text.drop last).length).length ≠ 0 := by
    rw [List.length_drop]
    omega
  obtain ⟨old, tail, behind⟩ := List.exists_cons_of_length_pos (Nat.pos_of_ne_zero rest)
  rw [behind, poke_eq _ (by simp), ok_bind, List.set_append_right _ _ (Nat.le_refl _), Nat.sub_self,
    List.set_cons_zero]
  refine ⟨_, rfl, ⟨?_, ?_, ?_, ?_⟩, ?_⟩
  · dsimp only
    omega
  · have whole := congrArg List.length behind
    rw [List.length_drop, List.length_cons] at whole
    dsimp only
    rw [List.length_append, List.length_cons]
    omega
  · dsimp only
    omega
  · exact List.take_left
  · exact List.getElem?_append_right (Nat.le_refl _) |>.trans (by simp)

theorem erase_rep (rep : StringRep string text) {first last : Nat} (nonempty : first < last)
    (inside : last ≤ text.length) :
    ∃ after, string.erase first last = .ok after ∧ StringRep after (text.take first ++ text.drop last) := by
  obtain ⟨after, erased, ended⟩ := erase_ended rep.toHolds nonempty inside
  refine ⟨after, erased, ended.toHolds, ended.ended, ?_⟩
  intro member
  rcases List.mem_append.mp member with early | late
  · exact rep.visible (List.mem_of_mem_take early)
  · exact rep.visible (List.mem_of_mem_drop late)

end Objects

section Worlds

inductive StringOp
  | construct (text : List UInt8)
  | copy (source : Nat)
  | pushBack (target : Nat) (c : UInt8) (fresh : Nat → UInt8)
  | append (target source : Nat) (fresh : Nat → UInt8)
  | erase (target first last : Nat)

def performString (strings : List StdString) : StringOp → Except StringFault (List StdString)
  | .construct text => do
      let made ← StdString.ofCString (text ++ [0])
      return strings ++ [made]
  | .copy source => do
      let other ← peek .noSuchString strings source
      let made ← other.copy
      return strings ++ [made]
  | .pushBack target c fresh => do
      let string ← peek .noSuchString strings target
      let changed ← string.pushBack c fresh
      return strings.set target changed
  | .append target source fresh => do
      let string ← peek .noSuchString strings target
      let other ← peek .noSuchString strings source
      let changed ← string.append other fresh
      return strings.set target changed
  | .erase target first last => do
      let string ← peek .noSuchString strings target
      let changed ← string.erase first last
      return strings.set target changed

/-- The reference lists, and which calls are valid. -/
def applyString (texts : List (List UInt8)) : StringOp → Option (List (List UInt8))
  | .construct text => if 0 ∈ text then none else some (texts ++ [text])
  | .copy source => texts[source]?.map fun text => texts ++ [text]
  | .pushBack target c _ =>
      if c = 0 then none else texts[target]?.map fun text => texts.set target (text ++ [c])
  | .append target source _ =>
      if target = source then none
      else texts[target]?.bind fun text => texts[source]?.map fun other => texts.set target (text ++ other)
  | .erase target first last =>
      texts[target]?.bind fun text =>
        if first < last ∧ last ≤ text.length then some (texts.set target (text.take first ++ text.drop last))
        else none

structure ShowsText (string : StdString) (text : List UInt8) : Prop where
  size : string.size = text.length
  room : string.size < string.capacity
  chars : string.data.take text.length = text
  ended : string.data[text.length]? = some 0
  strlen : strlen StringFault.outOfBounds string.data = .ok string.size
  equals : ∀ other, 0 ∉ other → ∀ tail, string.equals (other ++ 0 :: tail) = .ok (decide (text = other))
  copy : ∃ made, string.copy = .ok made ∧ made.size = text.length ∧
    made.data.take (text.length + 1) = text ++ [0]

structure ShowsTexts (strings : List StdString) (texts : List (List UInt8)) : Prop where
  each : List.Forall₂ ShowsText strings texts
  equals : ∀ {first second : Nat} {one other : StdString} {text otherText : List UInt8},
    strings[first]? = some one → strings[second]? = some other → texts[first]? = some text →
    texts[second]? = some otherText → one.equals other.data = .ok (decide (text = otherText))

/-- Adding this many characters replaces the block, or finds a NUL behind the last of them. -/
def StdString.Ends (string : StdString) (count : Nat) : Prop :=
  count = 0 ∨ string.capacity ≤ string.size + count ∨ string.data[string.size + count]? = some 0

def StringClean (strings : List StdString) (_ : List (List UInt8)) : StringOp → Prop
  | .pushBack target _ _ => ∀ string, strings[target]? = some string → string.Ends 1
  | .append target source _ => ∀ string other, strings[target]? = some string →
      strings[source]? = some other → string.Ends other.size
  | _ => True

variable {string : StdString} {text : List UInt8} {strings : List StdString} {texts : List (List UInt8)}

theorem StringRep.equals {bytes other : List UInt8} (rep : StringRep string text) (visible : 0 ∉ other)
    (tail : List UInt8) (same : bytes = other ++ 0 :: tail) :
    string.equals bytes = .ok (decide (text = other)) := by
  obtain ⟨order, compared, equal⟩ := strcmp_text rep.visible visible (string.data.drop (text.length + 1)) tail
  rw [← rep.split] at compared
  rw [StdString.equals, same, compared, ok_bind]
  simp only [equal]
  rfl

theorem StringRep.shows (rep : StringRep string text) : ShowsText string text where
  size := rep.size
  room := rep.room
  chars := rep.chars
  ended := rep.ended
  strlen := by
    rw [rep.size, rep.split]
    exact strlen_text _ rep.visible _
  equals := by
    intro other visible tail
    exact rep.equals visible tail rfl
  copy := by
    obtain ⟨made, done, copied⟩ := ofCString_rep rep.visible (string.data.drop (text.length + 1))
    rw [← rep.split] at done
    refine ⟨made, done, copied.size, ?_⟩
    rw [copied.split, List.take_length_add_append]
    rfl

theorem reps_show (reps : List.Forall₂ StringRep strings texts) : ShowsTexts strings texts where
  each := reps.imp fun _ _ rep => rep.shows
  equals := by
    intro first second one other text otherText atFirst atSecond textFirst textSecond
    obtain ⟨_, foundFirst, rep⟩ := forall₂_getElem? reps textFirst
    obtain ⟨_, foundSecond, otherRep⟩ := forall₂_getElem? reps textSecond
    cases atFirst.symm.trans foundFirst
    cases atSecond.symm.trans foundSecond
    exact rep.equals otherRep.visible _ otherRep.split

/-- Adding characters keeps the string well formed exactly if it ends. -/
theorem pushAll_rep (rep : StringRep string text) {chars : List UInt8} (visible : 0 ∉ chars)
    (fresh : Nat → UInt8) :
    ∃ after, chars.foldlM (fun string c => StdString.pushBack string c fresh) string = .ok after ∧
      (string.Ends chars.length → StringRep after (text ++ chars)) ∧
      (¬string.Ends chars.length → after.data[(text ++ chars).length]? ≠ some 0) := by
  obtain ⟨after, done, holds, ended⟩ := pushAll_holds rep.toHolds chars fresh
  have length : (text ++ chars).length = text.length + chars.length := List.length_append
  have size := rep.size
  refine ⟨after, done, fun ends => ⟨holds, ?_, ?_⟩, fun unended => ?_⟩
  · rw [ended]
    split
    · rename_i short
      rcases ends with none | moved | zero
      · rw [length, none]
        exact rep.ended
      · rcases short with rfl | short
        · rw [List.append_nil]
          exact rep.ended
        · omega
      · rw [length, ← size]
        exact zero
    · rfl
  · intro member
    rcases List.mem_append.mp member with early | late
    · exact rep.visible early
    · exact visible late
  · intro zero
    apply unended
    by_cases moved : string.capacity ≤ string.size + chars.length
    · exact .inr (.inl moved)
    · rw [ended, if_pos (.inr (by omega)), length, ← size] at zero
      exact .inr (.inr zero)

theorem pushBack_eq_pushAll (c : UInt8) (fresh : Nat → UInt8) :
    string.pushBack c fresh = [c].foldlM (fun string c => StdString.pushBack string c fresh) string := by
  simp only [List.foldlM_cons, List.foldlM_nil, bind_pure]

theorem append_eq_pushAll {other : StdString} {otherText : List UInt8} (rep : StringRep other otherText)
    (fresh : Nat → UInt8) : string.append other fresh =
      otherText.foldlM (fun string c => StdString.pushBack string c fresh) string := by
  rw [StdString.append, rep.size, rep.chars]

variable {op : StringOp} {after : List (List UInt8)}

theorem grow_step {target : Nat} {chars : List UInt8} {fresh : Nat → UInt8}
    (reps : List.Forall₂ StringRep strings texts) (found : texts[target]? = some text) (visible : 0 ∉ chars) :
    ∃ string changed, strings[target]? = some string ∧
      chars.foldlM (fun string c => StdString.pushBack string c fresh) string = .ok changed ∧
      (string.Ends chars.length →
        List.Forall₂ StringRep (strings.set target changed) (texts.set target (text ++ chars))) ∧
      (¬string.Ends chars.length →
        ¬ShowsTexts (strings.set target changed) (texts.set target (text ++ chars))) := by
  obtain ⟨string, here, rep⟩ := forall₂_getElem? reps found
  obtain ⟨changed, done, kept, lost⟩ := pushAll_rep rep visible fresh
  refine ⟨string, changed, here, done, fun ends => forall₂_set reps (kept ends) target, ?_⟩
  intro unended shown
  have inside : target < texts.length := (List.getElem?_eq_some_iff.mp found).1
  have now : (texts.set target (text ++ chars))[target]? = some (text ++ chars) := by
    rw [List.getElem?_set_self inside]
  obtain ⟨shownString, there, shows_⟩ := forall₂_getElem? shown.each now
  have bound : target < strings.length := (List.getElem?_eq_some_iff.mp here).1
  rw [List.getElem?_set_self bound] at there
  cases there
  exact lost unended shows_.ended

theorem string_step (reps : List.Forall₂ StringRep strings texts) (valid : applyString texts op = some after) :
    ∃ next, performString strings op = .ok next ∧
      (StringClean strings texts op → List.Forall₂ StringRep next after) ∧
      (¬StringClean strings texts op → ¬ShowsTexts next after) := by
  cases op with
  | construct text =>
      rw [applyString] at valid
      split at valid
      · cases valid
      · rename_i visible
        cases valid
        obtain ⟨made, done, rep⟩ := ofCString_rep visible []
        refine ⟨strings ++ [made], ?_, fun _ => forall₂_concat reps rep, fun unclean => absurd trivial unclean⟩
        rw [performString, done, ok_bind]
        rfl
  | copy source =>
      obtain ⟨text, found, rfl⟩ := Option.map_eq_some_iff.mp valid
      obtain ⟨other, here, otherRep⟩ := forall₂_getElem? reps found
      obtain ⟨made, done, rep⟩ := ofCString_rep otherRep.visible (other.data.drop (text.length + 1))
      rw [← otherRep.split] at done
      refine ⟨strings ++ [made], ?_, fun _ => forall₂_concat reps rep, fun unclean => absurd trivial unclean⟩
      rw [performString, peek_some _ here, ok_bind, StdString.copy, done, ok_bind]
      rfl
  | pushBack target c fresh =>
      rw [applyString] at valid
      split at valid
      · cases valid
      · rename_i shown
        obtain ⟨text, found, rfl⟩ := Option.map_eq_some_iff.mp valid
        have visible : 0 ∉ [c] := by simpa using Ne.symm shown
        obtain ⟨string, changed, here, done, kept, lost⟩ := grow_step reps found visible
        have clean : StringClean strings texts (.pushBack target c fresh) ↔ string.Ends 1 := by
          constructor
          · intro clean
            exact clean string here
          · intro ends other there
            cases here.symm.trans there
            exact ends
        refine ⟨strings.set target changed, ?_, fun isClean => kept (clean.mp isClean),
          fun unclean => lost fun ends => unclean (clean.mpr ends)⟩
        rw [performString, peek_some _ here, ok_bind, pushBack_eq_pushAll, done, ok_bind]
        rfl
  | append target source fresh =>
      rw [applyString] at valid
      split at valid
      · cases valid
      · obtain ⟨text, found, onward⟩ := Option.bind_eq_some_iff.mp valid
        obtain ⟨otherText, otherFound, rfl⟩ := Option.map_eq_some_iff.mp onward
        obtain ⟨other, there, otherRep⟩ := forall₂_getElem? reps otherFound
        obtain ⟨string, changed, here, done, kept, lost⟩ := grow_step reps found otherRep.visible
        have clean : StringClean strings texts (.append target source fresh) ↔
            string.Ends otherText.length := by
          rw [← otherRep.size]
          constructor
          · intro clean
            exact clean string other here there
          · intro ends one another atTarget atSource
            cases here.symm.trans atTarget
            cases there.symm.trans atSource
            exact ends
        refine ⟨strings.set target changed, ?_, fun isClean => kept (clean.mp isClean),
          fun unclean => lost fun ends => unclean (clean.mpr ends)⟩
        rw [performString, peek_some _ here, ok_bind, peek_some _ there, ok_bind, append_eq_pushAll otherRep,
          done, ok_bind]
        rfl
  | erase target first last =>
      obtain ⟨text, found, onward⟩ := Option.bind_eq_some_iff.mp valid
      split at onward
      · rename_i range
        cases onward
        obtain ⟨string, here, rep⟩ := forall₂_getElem? reps found
        obtain ⟨changed, done, erased⟩ := erase_rep rep range.1 range.2
        refine ⟨strings.set target changed, ?_, fun _ => forall₂_set reps erased target,
          fun unclean => absurd trivial unclean⟩
        rw [performString, peek_some _ here, ok_bind, done, ok_bind]
        rfl
      · cases onward

theorem string_refinement : Refinement performString applyString (List.Forall₂ StringRep) ShowsTexts
    StringClean where
  shows_of_rel := reps_show
  clean := by
    intro strings texts op after reps valid clean
    obtain ⟨next, done, kept, _⟩ := string_step reps valid
    exact ⟨next, done, kept clean⟩
  dirty := by
    intro strings texts op after next reps valid unclean done
    obtain ⟨_, made, _, lost⟩ := string_step reps valid
    rw [done] at made
    cases made
    exact lost unclean

/-- A valid sequence of calls shows the reference lists after every call exactly if each call that
adds characters in place finds a NUL behind the last of them. -/
theorem strings_show_texts (ops : List StringOp) (valid : (applyAll applyString [] ops).isSome = true) :
    ShowsAll performString applyString ShowsTexts [] [] ops ↔
      AllClean performString applyString StringClean [] [] ops :=
  string_refinement.showsAll_iff .nil valid

/-- "abc" without its last two characters, followed by "x", reads "axc". -/
theorem pushBack_after_erase_lost :
    performAll performString [] [.construct [97, 98, 99], .erase 0 1 3, .pushBack 0 120 fun _ => 0] =
      .ok [⟨2, 8, [97, 120, 99, 0, 0, 0, 0, 0]⟩] ∧
    applyAll applyString [] [.construct [97, 98, 99], .erase 0 1 3, .pushBack 0 120 fun _ => 0] =
      some [[97, 120]] ∧
    strlen StringFault.outOfBounds [97, 120, 99, 0, 0, 0, 0, 0] = .ok 3 :=
  ⟨rfl, rfl, rfl⟩

/-- "ab" and a character more. -/
theorem strings_show_texts_push : ShowsAll performString applyString ShowsTexts [] []
    [.construct [97, 98], .pushBack 0 99 fun _ => 0] := by
  refine (strings_show_texts _ rfl).mpr (.cons trivial ?_)
  rintro next after made ⟨⟩
  refine .cons ?_ fun _ _ _ _ => allClean_nil
  cases made
  rintro string ⟨⟩
  exact .inr (.inr rfl)

end Worlds

end ToyKernel.Containers
