import ToyKernel.Containers.HeapStrings

/-!
The calls on strings on the heap, one after the other: each does what it does on lists, and fails
with it or because the heap is full.
-/

namespace ToyKernel.Containers

open Library Allocator

section Bytes

variable {memory : Memory} {pointer : Nat}

theorem writeBytes_other (text : List UInt8) {address : Nat}
    (outside : address < pointer ∨ pointer + text.length ≤ address) :
    writeBytes memory pointer text address = memory address := by
  induction text generalizing memory pointer with
  | nil => rfl
  | cons byte rest ih =>
      rw [List.length_cons] at outside
      rw [writeBytes, ih (by omega), store_other _ _ (by omega)]

theorem writeBytes_at (text : List UInt8) {i : Nat} (inside : i < text.length) :
    text[i]? = some (writeBytes memory pointer text (pointer + i)) := by
  induction text generalizing memory pointer i with
  | nil => exact absurd inside (Nat.not_lt_zero _)
  | cons byte rest ih =>
      rw [writeBytes]
      cases i with
      | zero =>
          have first : writeBytes (store memory pointer byte) (pointer + 1) rest pointer =
              store memory pointer byte pointer := writeBytes_other rest (.inl (Nat.lt_succ_self pointer))
          show some byte = some (writeBytes (store memory pointer byte) (pointer + 1) rest pointer)
          rw [first, store_same]
      | succ i =>
          rw [List.getElem?_cons_succ, show pointer + (i + 1) = pointer + 1 + i by omega]
          exact ih (Nat.lt_of_succ_lt_succ inside)

theorem contents_eq {length : Nat} {bytes : List UInt8} (whole : bytes.length = length)
    (same : ∀ i < length, bytes[i]? = some (memory (pointer + i))) : contents memory pointer length = bytes := by
  refine List.ext_getElem? fun i => ?_
  rcases Nat.lt_or_ge i length with below | above
  · rw [contents, List.getElem?_map, List.getElem?_range below, same i below]
    rfl
  · have length_eq : (contents memory pointer length).length = length := by
      rw [contents, List.length_map, List.length_range]
    rw [List.getElem?_eq_none (by omega), List.getElem?_eq_none (by omega)]

theorem strlen_lt {ε : Type} {fault : ε} {bytes : List UInt8} {length : Nat}
    (found : strlen fault bytes = .ok length) : length < bytes.length := by
  induction bytes generalizing length with
  | nil => cases found
  | cons byte rest ih =>
      rw [strlen] at found
      split at found
      · cases found
        exact Nat.zero_lt_succ _
      · obtain ⟨more, there, last⟩ := bind_eq_ok.mp found
        rw [← pure_eq_ok.mp last]
        exact Nat.succ_lt_succ (ih there)

end Bytes

section Made

variable {heapBottom heapTop : Nat} {start session : Session} {world : StringHeap} {strings : List StdString}

def HeapFull (fault : HeapFault) : Prop := ∃ reason, fault = .heap reason ∧ NoSpace reason

theorem returns_onHeap {α : Type} {result : Except Allocator.Fault α} {post : α → Prop}
    (returns : Returns result NoSpace post) : Returns (onHeap result) HeapFull post := by
  cases result with
  | ok value => exact returns_ok.mpr (returns_ok.mp returns)
  | error fault =>
      exact returns_error.mpr ⟨fault, rfl, returns.of_error rfl⟩

def stringOf (text : List UInt8) : StdString :=
  ⟨text.length, max StdString.kDefaultCapacity (text.length + 1),
    text ++ List.replicate (max StdString.kDefaultCapacity (text.length + 1) - text.length) 0⟩

theorem ofCString_eq {bytes : List UInt8} {length : Nat} (found : strlen StringFault.outOfBounds bytes = .ok length) :
    StdString.ofCString bytes = .ok (stringOf (bytes.take length)) := by
  have inside := strlen_lt found
  have taken : (bytes.take length).length = length := by
    rw [List.length_take]
    omega
  rw [StdString.ofCString, found, ok_bind, StdString.ofRange, found, ok_bind, stringOf, taken, Nat.min_self]
  rfl

theorem allocate_backs (space : UserSpace heapBottom heapTop)
    (backs : Backs heapBottom heapTop start session world strings) (text : List UInt8)
    (copyChars : Memory → Nat → Memory) (small : text.length < 1073741824)
    (copies : ∀ middle : Session, (userRuns heapBottom heapTop).Reachable middle →
      (∀ pointer ∈ session.pointers, Keeps session middle pointer) → ∀ data ∈ middle.pointers,
      data ∉ session.pointers → text.length ≤ payloadSize middle.allocator.memory data →
      Confined middle.allocator.memory (copyChars middle.allocator.memory data) data text.length ∧
        ∀ i < text.length, text[i]? = some (copyChars middle.allocator.memory data (data + i))) :
    Returns (StringObject.allocate (usbrk heapTop) text.length copyChars world.heap) HeapFull
      fun made => ∃ after, Backs heapBottom heapTop start after (world.add made) (strings ++ [stringOf text]) := by
  have positive : max StdString.kDefaultCapacity (text.length + 1) ≠ 0 := by
    rw [StdString.kDefaultCapacity]
    omega
  have bound : paddedSize (max StdString.kDefaultCapacity (text.length + 1)) kMaxAlignment < 2147483648 := by
    rw [paddedSize, MallocHeader.headerSize, kMaxAlignment, StdString.kDefaultCapacity]
    omega
  rw [StringObject.allocate, ← backs.allocator]
  refine (returns_onHeap (calloc_fresh space.contract space.aligned space.start (userRuns_runs backs.reachable)
    positive bound)).bind ?_
  rintro ⟨heap, data⟩ ⟨middle, rfl, within, fresh, zeroes⟩
  obtain ⟨block, rfl, live⟩ := fresh.live
  have reached := within_userRuns within backs.reachable
  have keeps : ∀ pointer ∈ session.pointers, Keeps session middle pointer := fun pointer isLive =>
    space.keeps backs.reachable within isLive List.not_mem_nil
  have isLive : block.pointer ∈ middle.pointers := by
    rw [Session.pointers, live]
    exact List.mem_cons_self
  have room : max StdString.kDefaultCapacity (text.length + 1) ≤
      payloadSize middle.allocator.memory block.pointer := fresh.room
  obtain ⟨confined, chars⟩ := copies middle reached keeps block.pointer isLive fresh.fresh (by omega)
  have whole : Confined middle.allocator.memory (copyChars middle.allocator.memory block.pointer) block.pointer
      (payloadSize middle.allocator.memory block.pointer) := fun address outside => confined address (by omega)
  have written := withMemory_within space.contract space.aligned space.start (userRuns_runs reached) isLive whole
  obtain ⟨chunks, consistent⟩ := space.consistent reached
  have size := payloadSize_withMemory consistent (consistent.withMemory isLive whole) isLive
  refine returns_pure.mpr ⟨_, backs.add (fun pointer listed => ?_) (within_userRuns written reached)
    ?_ ⟨rfl, rfl, ?_, ?_, isLive, ?_, ?_⟩⟩
  · refine (keeps pointer listed).trans (space.keeps reached written (keeps pointer listed).isLive ?_)
    rintro listed'
    exact fresh.fresh (List.mem_singleton.mp listed' ▸ listed)
  · show middle.live.map Block.pointer = _
    rw [live]
    rfl
  · rw [stringOf]
    dsimp only
    rw [List.length_append, List.length_replicate]
    omega
  · exact Nat.lt_of_lt_of_le (Nat.lt_succ_self _) (Nat.le_max_right _ _)
  · exact Nat.le_trans room (Nat.le_of_eq size.symm)
  · intro i below
    rw [stringOf] at below ⊢
    dsimp only [Session.withMemory] at below ⊢
    by_cases inText : i < text.length
    · rw [List.getElem?_append_left inText]
      exact chars i inText
    · rw [List.getElem?_append_right (by omega), List.getElem?_replicate, if_pos (by omega), confined _ (by omega)]
      exact congrArg some (zeroes i below).symm

end Made

def Fails {α : Type} (listed : Except StringFault α) (fault : HeapFault) : Prop :=
  HeapFull fault ∨ ∃ reason, fault = .string reason ∧ listed = .error reason

section Steps

variable {heapBottom heapTop : Nat} {start session : Session} {world : StringHeap} {strings : List StdString}

@[simp] theorem asString_ok {α : Type} (value : α) : asString (.ok value) = .ok value := rfl

@[simp] theorem asString_error {α : Type} (reason : StringFault) :
    asString (.error reason : Except StringFault α) = .error (.string reason) := rfl

theorem ofCString_error {bytes : List UInt8} {reason : StringFault}
    (failed : strlen StringFault.outOfBounds bytes = .error reason) : StdString.ofCString bytes = .error reason := by
  rw [StdString.ofCString, failed, error_bind]

theorem Backs.find (backs : Backs heapBottom heapTop start session world strings) (target : Nat) :
    (∃ object string, world.objects[target]? = some object ∧ world.object target = .ok object ∧
      peek StringFault.noSuchString strings target = .ok string ∧ Stored session object string) ∨
    (world.object target = .error (.string .noSuchString) ∧
      peek StringFault.noSuchString strings target = .error .noSuchString) := by
  obtain ⟨same, related⟩ := forall₂_iff_getElem?.mp backs.stored
  by_cases inside : target < strings.length
  · have here := List.getElem?_eq_getElem (show target < world.objects.length by omega)
    have there := List.getElem?_eq_getElem inside
    exact .inl ⟨_, _, here, by rw [StringHeap.object, peek_some _ here, asString_ok], peek_some _ there,
      related target _ _ here there⟩
  · refine .inr ⟨?_, ?_⟩
    · rw [StringHeap.object, peek, List.getElem?_eq_none (by omega), asString_error]
    · rw [peek, List.getElem?_eq_none (by omega)]

theorem construct_backs (space : UserSpace heapBottom heapTop)
    (backs : Backs heapBottom heapTop start session world strings) {text : List UInt8}
    (small : text.length < 1073741824) :
    Returns (world.perform (usbrk heapTop) (.construct text)) (Fails (performCall strings (.construct text)))
      fun next => ∃ made after, performCall strings (.construct text) = .ok made ∧
        Backs heapBottom heapTop start after next made := by
  rw [StringHeap.perform, StringObject.ofCString]
  cases found : strlen StringFault.outOfBounds (text ++ [0]) with
  | error reason =>
      refine returns_error.mpr (.inr ⟨reason, rfl, ?_⟩)
      rw [performCall, performString, ofCString_error found, error_bind]
  | ok length =>
      have inside := strlen_lt found
      have taken : ((text ++ [0]).take length).length = length := by
        rw [List.length_take]
        omega
      rw [List.length_append, List.length_singleton] at inside
      have spec := allocate_backs space backs ((text ++ [0]).take length)
        (fun memory data => writeBytes memory data ((text ++ [0]).take length)) (by omega)
        fun middle _ _ data _ _ _ =>
          ⟨fun address outside => writeBytes_other _ outside, fun i below => writeBytes_at _ below⟩
      rw [taken] at spec
      refine (spec.weaken fun _ full => .inl full).bind fun made there => ?_
      obtain ⟨after, later⟩ := there
      refine returns_pure.mpr ⟨_, after, ?_, later⟩
      rw [performCall, performString, ofCString_eq found, ok_bind]
      rfl

theorem Stored.contents_eq {object : StringObject} {string : StdString} (stored : Stored session object string) :
    contents session.allocator.memory object.data object.capacity = string.data := by
  rw [stored.capacity]
  exact Containers.contents_eq stored.length stored.bytes

theorem copy_backs (space : UserSpace heapBottom heapTop)
    (backs : Backs heapBottom heapTop start session world strings) (source : Nat) :
    Returns (world.perform (usbrk heapTop) (.copy source)) (Fails (performCall strings (.copy source)))
      fun next => ∃ made after, performCall strings (.copy source) = .ok made ∧
        Backs heapBottom heapTop start after next made := by
  rw [StringHeap.perform, performCall, performString]
  rcases backs.find source with ⟨other, string, here, found, there, stored⟩ | ⟨missing, absent⟩
  · rw [found, there, ok_bind, ok_bind, StringObject.copy, ← backs.allocator, stored.contents_eq, StdString.copy]
    cases measured : strlen StringFault.outOfBounds string.data with
    | error reason =>
        refine returns_error.mpr (.inr ⟨reason, rfl, ?_⟩)
        rw [ofCString_error measured, error_bind]
    | ok length =>
        have inside := strlen_lt measured
        have whole := stored.length
        have fits := stored.fits
        have page := space.payloadSize_lt backs.reachable stored.isLive
        have taken : (string.data.take length).length = length := by
          rw [List.length_take]
          omega
        have spec := allocate_backs space backs (string.data.take length)
          (fun memory data => memcpy memory data other.data length) (by omega) (by
            intro middle reached keeps data isLive fresh room
            rw [taken] at room ⊢
            obtain ⟨chunks, consistent⟩ := space.consistent reached
            have kept := keeps other.data stored.isLive
            have apart := consistent.payloads_apart isLive kept.isLive (by
              rintro rfl
              exact fresh stored.isLive)
            rw [kept.size] at apart
            refine ⟨Libc.memcpy_confined (Nat.le_refl _) (Nat.le_refl _), fun i below => ?_⟩
            rw [List.getElem?_take_of_lt below, stored.bytes i (by omega),
              memcpy_copies _ _ _ _ _ (by omega) below, kept.bytes i (by omega)])
        rw [taken, ← backs.allocator] at spec
        refine (spec.weaken fun _ full => .inl full).bind fun made there => ?_
        obtain ⟨after, later⟩ := there
        refine returns_pure.mpr ⟨_, after, ?_, later⟩
        rw [ofCString_eq measured, ok_bind]
        rfl
  · rw [missing, absent, error_bind]
    exact returns_error.mpr (.inr ⟨_, rfl, rfl⟩)

section Pushes

variable {object : StringObject} {string : StdString}

theorem rehoused_same (space : UserSpace heapBottom heapTop)
    (reachable : (userRuns heapBottom heapTop).Reachable session) {pointer : Nat} {memory : Memory}
    (isLive : pointer ∈ session.pointers) (confined : Confined session.allocator.memory memory pointer
      (payloadSize session.allocator.memory pointer)) :
    Rehoused heapBottom heapTop session (session.withMemory memory) pointer pointer := by
  refine ⟨⟨[pointer], fun other listed => .inl (List.mem_singleton.mp listed), ?_⟩, List.perm_cons_erase isLive⟩
  exact withMemory_within space.contract space.aligned space.start (userRuns_runs reachable) isLive confined

theorem push_inPlace (space : UserSpace heapBottom heapTop)
    (reachable : (userRuns heapBottom heapTop).Reachable session) (stored : Stored session object string)
    (room : string.size + 1 < string.capacity) (c : UInt8) :
    ∃ changed after, string.pushBack c (fun _ => 0) = .ok changed ∧
      after.allocator = { session.allocator with
        memory := store session.allocator.memory (object.data + object.size) c } ∧
      Stored after { object with size := object.size + 1 } changed ∧
      Rehoused heapBottom heapTop session after object.data object.data := by
  have fits := stored.fits
  have size := stored.size
  have confined : Confined session.allocator.memory (store session.allocator.memory (object.data + object.size) c)
      object.data (payloadSize session.allocator.memory object.data) := by
    intro address outside
    exact store_other _ _ (by omega)
  obtain ⟨chunks, consistent⟩ := space.consistent reachable
  have kept := payloadSize_withMemory consistent (consistent.withMemory stored.isLive confined) stored.isLive
  refine ⟨_, session.withMemory _, pushBack_inPlace room stored.length c _, rfl, ?_,
    rehoused_same space reachable stored.isLive confined⟩
  refine ⟨congrArg (· + 1) size, stored.capacity, ?_, room, stored.isLive, ?_, fun i below => ?_⟩
  · rw [List.length_set]
    exact stored.length
  · exact Nat.le_trans fits (Nat.le_of_eq kept.symm)
  · dsimp only [Session.withMemory] at below ⊢
    have whole := stored.length
    by_cases last : i = string.size
    · rw [last, ← size, store_same, List.getElem?_set_self (by omega)]
    · rw [List.getElem?_set_ne (Ne.symm last), store_other _ _ (by omega)]
      exact stored.bytes i below

theorem push_grown (space : UserSpace heapBottom heapTop)
    (reachable : (userRuns heapBottom heapTop).Reachable session) (stored : Stored session object string)
    (full : string.capacity ≤ string.size + 1) (c : UInt8) :
    Returns (object.resize (usbrk heapTop) (object.size + 1) session.allocator) HeapFull fun grown =>
      ∃ changed after, string.pushBack c (fun _ => 0) = .ok changed ∧
        after.allocator = { grown.1 with memory := store grown.1.memory (grown.2.data + object.size) c } ∧
        Stored after grown.2 changed ∧
        Rehoused heapBottom heapTop session after object.data grown.2.data := by
  have fits := stored.fits
  have size := stored.size
  have room := stored.room
  have page := space.payloadSize_lt reachable stored.isLive
  have within := userRuns_within reachable
  have twice : wrap32 (object.capacity * 2) = string.capacity * 2 := by
    rw [stored.capacity]
    exact wrap32_of_lt (by omega)
  rw [StringObject.resize, twice]
  refine returns_require_bind (by omega) ?_
  refine (returns_onHeap (realloc_moves space.contract space.aligned space.start (userRuns_runs reachable)
    stored.isLive (by rw [within.1]; exact within.2) (by omega)
    (by rw [paddedSize, MallocHeader.headerSize, kMaxAlignment]; omega))).bind ?_
  rintro ⟨heap, moved⟩ ⟨middle, rfl, nonnull, run, pointers, large, content⟩
  refine returns_require_bind nonnull ?_
  dsimp only at run pointers large content ⊢
  have reached := within_userRuns run reachable
  obtain ⟨chunks, consistent⟩ := space.consistent reached
  have isLive : moved ∈ middle.pointers := pointers.mem_iff.mpr List.mem_cons_self
  have foreign : moved = object.data ∨ moved ∉ session.pointers := by
    have fresh := (List.nodup_cons.mp (pointers.nodup_iff.mp consistent.pointers_nodup)).1
    by_cases same : moved = object.data
    · exact .inl same
    · exact .inr fun listed => fresh ((List.mem_erase_of_ne same).mpr listed)
  have confined : Confined middle.allocator.memory
      (store (memset middle.allocator.memory (moved + (object.size + 1)) 0 (string.capacity * 2 - (object.size + 1)))
        (moved + object.size) c) moved (payloadSize middle.allocator.memory moved) := by
    intro address outside
    rw [store_other _ _ (by omega)]
    exact memset_agreeOn _ _ address (address + 1) _ _ (by omega) address (Nat.le_refl _) (Nat.lt_succ_self _)
  have kept := payloadSize_withMemory consistent (consistent.withMemory isLive confined) isLive
  have written := withMemory_within space.contract space.aligned space.start (userRuns_runs reached) isLive confined
  refine returns_pure.mpr ⟨_, middle.withMemory _, pushBack_grown full room stored.length c _, rfl, ?_, ?_⟩
  · have whole := stored.length
    refine ⟨congrArg (· + 1) size, rfl, ?_, ?_, isLive, ?_, fun i below => ?_⟩
    · dsimp only
      rw [List.length_set, List.length_append, List.length_replicate]
      omega
    · dsimp only
      omega
    · exact Nat.le_trans large (Nat.le_of_eq kept.symm)
    · dsimp only [Session.withMemory] at below ⊢
      by_cases last : i = string.size
      · rw [last, ← size, store_same, List.getElem?_set_self (by rw [List.length_append]; omega)]
      · rw [List.getElem?_set_ne (Ne.symm last), store_other _ _ (by omega)]
        by_cases front : i < string.capacity
        · have same := memset_agreeOn middle.allocator.memory (moved + (object.size + 1)) (moved + i) (moved + i + 1) 0
            (string.capacity * 2 - (object.size + 1)) (by omega) (moved + i) (Nat.le_refl _) (Nat.lt_succ_self _)
          rw [List.getElem?_append_left (by omega), stored.bytes i front, same, content i (by omega)]
        · have filled := memset_fills middle.allocator.memory (moved + (object.size + 1)) 0
            (string.capacity * 2 - (object.size + 1)) (i - (object.size + 1)) (by omega)
          rw [show moved + (object.size + 1) + (i - (object.size + 1)) = moved + i by omega] at filled
          rw [List.getElem?_append_right (by omega), List.getElem?_replicate, if_pos (by omega), filled]
  · refine ⟨⟨[object.data, moved], ?_, ?_⟩, pointers⟩
    · intro pointer listed
      rcases List.mem_pair.mp listed with same | same
      · exact .inl same
      · rw [same]
        exact foreign
    · refine (run.mono fun operation among pointer given => ?_).trans
        (written.mono fun operation among pointer given => ?_)
      · exact List.mem_pair.mpr (.inl (List.mem_singleton.mp (among pointer given)))
      · exact List.mem_pair.mpr (.inr (List.mem_singleton.mp (among pointer given)))

/-- A push writes to the buffer, or to the one that takes its place. -/
theorem push_stored (space : UserSpace heapBottom heapTop)
    (reachable : (userRuns heapBottom heapTop).Reachable session) (stored : Stored session object string) (c : UInt8) :
    Returns (object.pushBack (usbrk heapTop) c session.allocator) HeapFull fun made =>
      ∃ changed after, string.pushBack c (fun _ => 0) = .ok changed ∧ after.allocator = made.1 ∧
        Stored after made.2 changed ∧ Rehoused heapBottom heapTop session after object.data made.2.data := by
  have size := stored.size
  have capacity := stored.capacity
  rw [StringObject.pushBack]
  dsimp only
  by_cases full : object.capacity ≤ object.size + 1
  · rw [if_pos full]
    refine (push_grown space reachable stored (by omega) c).bind fun grown found => ?_
    obtain ⟨changed, after, pushed, heap, held, rehoused⟩ := found
    exact returns_pure.mpr ⟨changed, after, pushed, heap, held, rehoused⟩
  · rw [if_neg full, pure_bind]
    obtain ⟨changed, after, pushed, heap, held, rehoused⟩ := push_inPlace space reachable stored (by omega) c
    exact returns_pure.mpr ⟨changed, after, pushed, heap, held, rehoused⟩

theorem pushBack_backs (space : UserSpace heapBottom heapTop)
    (backs : Backs heapBottom heapTop start session world strings) (target : Nat) (c : UInt8) :
    Returns (world.perform (usbrk heapTop) (.pushBack target c)) (Fails (performCall strings (.pushBack target c)))
      fun next => ∃ made after, performCall strings (.pushBack target c) = .ok made ∧
        Backs heapBottom heapTop start after next made := by
  rw [StringHeap.perform, performCall, performString]
  rcases backs.find target with ⟨object, string, here, found, there, stored⟩ | ⟨missing, absent⟩
  · rw [found, there, ok_bind, ok_bind, ← backs.allocator]
    refine ((push_stored space backs.reachable stored c).weaken fun _ full => .inl full).bind ?_
    rintro ⟨heap, made⟩ ⟨changed, after, pushed, rfl, held, rehoused⟩
    refine returns_pure.mpr ⟨_, after, ?_, backs.change space here rehoused held⟩
    rw [pushed, ok_bind]
    rfl
  · rw [missing, absent, error_bind]
    exact returns_error.mpr (.inr ⟨_, rfl, rfl⟩)

theorem Backs.same (space : UserSpace heapBottom heapTop)
    (backs : Backs heapBottom heapTop start session world strings) {target : Nat}
    (here : world.objects[target]? = some object) (stored : Stored session object string) :
    Backs heapBottom heapTop start session (world.change target (session.allocator, object))
      (strings.set target string) := by
  refine backs.change space here ⟨⟨[], fun pointer listed => absurd listed List.not_mem_nil, .refl session⟩, ?_⟩ stored
  exact List.perm_cons_erase stored.isLive

/-- After each round the target has the characters so far, and the other string is as it was. -/
theorem append_rounds (space : UserSpace heapBottom heapTop)
    (backs : Backs heapBottom heapTop start session world strings) {target source : Nat} (apart : target ≠ source)
    {other : StringObject} {otherString : StdString} (here : world.objects[target]? = some object)
    (there : world.objects[source]? = some other) (stored : Stored session object string)
    (read : Stored session other otherString) (count : Nat) (inside : count ≤ otherString.size) :
    Returns ((List.range count).foldlM (fun (state : Allocator × StringObject) i =>
        state.2.pushBack (usbrk heapTop) (state.1.memory (other.data + i)) state.1) (session.allocator, object))
      HeapFull fun made => ∃ changed after,
        (otherString.data.take count).foldlM (fun string c => StdString.pushBack string c fun _ => 0) string =
          .ok changed ∧
        after.allocator = made.1 ∧ Stored after made.2 changed ∧ Keeps session after other.data ∧
        Backs heapBottom heapTop start after (world.change target made) (strings.set target changed) := by
  have bound := (List.getElem?_eq_some_iff.mp here).1
  induction count with
  | zero => exact returns_pure.mpr ⟨string, session, rfl, rfl, stored, ⟨read.isLive, rfl, fun _ _ => rfl⟩,
      backs.same space here stored⟩
  | succ count ih =>
      have room := read.room
      have fits := read.fits
      rw [List.range_succ, List.foldlM_append]
      refine (ih (by omega)).bind ?_
      rintro ⟨heap, made⟩ ⟨changed, after, pushed, rfl, held, kept, later⟩
      rw [List.foldlM_cons]
      have now : (world.change target (after.allocator, made)).objects[target]? = some made :=
        List.getElem?_set_self bound
      have beside : (world.change target (after.allocator, made)).objects[source]? = some other :=
        (List.getElem?_set_ne apart).trans there
      have char := read.bytes count (by omega)
      rw [← kept.bytes count (by omega)] at char
      refine (push_stored space later.reachable held (after.allocator.memory (other.data + count))).bind ?_
      rintro ⟨_, next⟩ ⟨last, final, more, rfl, holds, rehoused⟩
      have moved := later.change space now rehoused holds
      rw [StringHeap.change, StringHeap.change, List.set_set, List.set_set] at moved
      refine returns_pure.mpr ⟨last, final, ?_, rfl, holds, ?_, moved⟩
      · rw [List.take_add_one, char, List.foldlM_append, pushed, ok_bind, Option.toList_some, List.foldlM_cons, more,
          ok_bind]
        rfl
      · exact kept.trans (rehoused.keeps space later.reachable kept.isLive
          (later.apart space now beside (Ne.symm apart)))

theorem append_backs (space : UserSpace heapBottom heapTop)
    (backs : Backs heapBottom heapTop start session world strings) {target source : Nat} (apart : target ≠ source) :
    Returns (world.perform (usbrk heapTop) (.append target source))
      (Fails (performCall strings (.append target source)))
      fun next => ∃ made after, performCall strings (.append target source) = .ok made ∧
        Backs heapBottom heapTop start after next made := by
  rw [StringHeap.perform, performCall, performString]
  rcases backs.find target with ⟨object, string, here, found, listed, stored⟩ | ⟨missing, absent⟩
  · rcases backs.find source with ⟨other, otherString, there, foundOther, listedOther, read⟩ | ⟨missing, absent⟩
    · rw [found, foundOther, listed, listedOther, ok_bind, ok_bind, ok_bind, ok_bind, StringObject.append, read.size,
        ← backs.allocator]
      refine ((append_rounds space backs apart here there stored read _ (Nat.le_refl _)).weaken
        fun _ full => .inl full).bind ?_
      rintro made ⟨changed, after, pushed, _, _, _, later⟩
      refine returns_pure.mpr ⟨_, after, ?_, later⟩
      rw [StdString.append, pushed, ok_bind]
      rfl
    · rw [found, listed, ok_bind, ok_bind, missing, absent, error_bind]
      exact returns_error.mpr (.inr ⟨_, rfl, rfl⟩)
  · rw [missing, absent, error_bind]
    exact returns_error.mpr (.inr ⟨_, rfl, rfl⟩)

/-- Moving a row down within the buffer and ending it. -/
theorem moved_bytes {memory moved : Memory} {data : List UInt8} {pointer first last remaining : Nat}
    (bytes : ∀ i < data.length, data[i]? = some (memory (pointer + i))) (inside : last + remaining ≤ data.length)
    (ordered : first ≤ last) (same : ∀ i < data.length, moved (pointer + i) =
      if pointer + first ≤ pointer + i ∧ pointer + i < pointer + first + remaining then
        memory (pointer + last + (pointer + i - (pointer + first))) else memory (pointer + i))
    {i : Nat} (below : i < data.length) :
    ((data.take first ++ (data.drop last).take remaining ++ data.drop (first + remaining)).set
        (first + remaining) 0)[i]? = some (store moved (pointer + (first + remaining)) 0 (pointer + i)) := by
  have length : ((data.drop last).take remaining).length = remaining := by
    rw [List.length_take, List.length_drop]
    omega
  have fits : first + ((data.drop last).take remaining).length ≤ data.length := by
    rw [length]
    omega
  have row := row_getElem? fits i
  have whole := row_length fits
  rw [length] at row whole
  by_cases ends : i = first + remaining
  · rw [ends, store_same, List.getElem?_set_self (by omega)]
  · rw [List.getElem?_set_ne (Ne.symm ends), row, store_other _ _ (by omega), same i below]
    by_cases within : first ≤ i ∧ i < first + remaining
    · rw [if_pos within, if_pos (by omega), List.getElem?_take_of_lt (by omega), List.getElem?_drop,
        bytes _ (by omega)]
      congr 2
      omega
    · rw [if_neg within, if_neg (by omega)]
      exact bytes i below

theorem erase_stored (space : UserSpace heapBottom heapTop)
    (reachable : (userRuns heapBottom heapTop).Reachable session) (stored : Stored session object string)
    (first last : Nat) :
    Returns (object.erase (usbrk heapTop) first last session.allocator) (Fails (string.erase first last)) fun made =>
      ∃ changed after, string.erase first last = .ok changed ∧ after.allocator = made.1 ∧
        Stored after made.2 changed ∧ Rehoused heapBottom heapTop session after object.data made.2.data := by
  have size := stored.size
  have whole := stored.length
  have room := stored.room
  have fits := stored.fits
  have page := space.payloadSize_lt reachable stored.isLive
  rw [StringObject.erase, StdString.erase, size]
  refine returns_require (fun outside => .inr ⟨_, rfl, by rw [require, if_neg outside, error_bind]⟩) fun inside => ?_
  rw [require_of inside, ok_bind]
  refine returns_require (fun zero => .inr ⟨_, rfl, by rw [require, if_neg zero, error_bind]⟩) fun positive => ?_
  rw [require_of positive, ok_bind]
  refine returns_require (fun wrong => .inr ⟨_, rfl, by rw [require, if_neg wrong, error_bind]⟩) fun ordered => ?_
  rw [require_of ordered, ok_bind]
  dsimp only
  have clipped : first < (if string.size < last then string.size else last) ∧
      (if string.size < last then string.size else last) ≤ string.size := by
    split
    · exact ⟨inside, Nat.le_refl _⟩
    · exact ⟨ordered, by omega⟩
  generalize (if string.size < last then string.size else last) = stop at clipped ⊢
  obtain ⟨before, upto⟩ := clipped
  have small : paddedSize (string.size - stop) kMaxAlignment < 2147483648 := by
    rw [paddedSize, MallocHeader.headerSize, kMaxAlignment]
    omega
  have source : Libc.Owned session object.data (object.data + stop) (string.size - stop) :=
    ⟨stored.isLive, Nat.le_add_right _ _, by omega⟩
  have target : Libc.Owned session object.data (object.data + first) (string.size - stop) :=
    ⟨stored.isLive, Nat.le_add_right _ _, by omega⟩
  refine ((returns_onHeap (Libc.memmove_run space.contract space.aligned space.start (userRuns_runs reachable) small
    source target)).weaken fun _ full => .inl full).bind ?_
  rintro ⟨heap, _⟩ ⟨-, ⟨temp, fresh, within⟩, moved⟩
  dsimp only at within moved ⊢
  have reached := within_userRuns within reachable
  have isLive : object.data ∈ (⟨heap, session.live⟩ : Session).pointers := stored.isLive
  have sizes := moved.sizes object.data stored.isLive
  have confined : Confined heap.memory (store heap.memory (object.data + (first + (string.size - stop))) 0) object.data
      (payloadSize heap.memory object.data) := by
    intro address outside
    exact store_other _ _ (by omega)
  obtain ⟨chunks, consistent⟩ := space.consistent reached
  have kept := payloadSize_withMemory consistent (consistent.withMemory isLive confined) isLive
  have written := withMemory_within space.contract space.aligned space.start (userRuns_runs reached) isLive confined
  rw [move_eq _ (by omega) (by omega), ok_bind, poke_eq _ (by
    rw [List.length_append, List.length_append, List.length_take, List.length_take, List.length_drop,
      List.length_drop]
    omega), ok_bind]
  refine returns_pure.mpr ⟨_, Session.withMemory ⟨heap, session.live⟩ _, rfl, rfl, ?_, ⟨⟨[temp, object.data], ?_, ?_⟩,
    List.perm_cons_erase stored.isLive⟩⟩
  · refine ⟨rfl, stored.capacity, ?_, ?_, isLive, ?_, fun i below => ?_⟩
    · dsimp only
      rw [List.length_set, List.length_append, List.length_append, List.length_take, List.length_take,
        List.length_drop, List.length_drop]
      omega
    · dsimp only
      omega
    · exact Nat.le_trans fits (Nat.le_of_eq (kept.trans sizes).symm)
    · dsimp only [Session.withMemory] at below ⊢
      refine moved_bytes (fun i inside => stored.bytes i (by omega)) (by omega) (Nat.le_of_lt before) ?_ (by omega)
      intro i inside
      exact moved.bytes object.data stored.isLive i (by omega)
  · intro pointer listed
    rcases List.mem_pair.mp listed with rfl | same
    · exact .inr fresh
    · exact .inl same
  · exact within.trans (written.mono fun operation among pointer given =>
      List.mem_pair.mpr (.inr (List.mem_singleton.mp (among pointer given))))

theorem erase_backs (space : UserSpace heapBottom heapTop)
    (backs : Backs heapBottom heapTop start session world strings) (target first last : Nat) :
    Returns (world.perform (usbrk heapTop) (.erase target first last))
      (Fails (performCall strings (.erase target first last)))
      fun next => ∃ made after, performCall strings (.erase target first last) = .ok made ∧
        Backs heapBottom heapTop start after next made := by
  rw [StringHeap.perform, performCall, performString]
  rcases backs.find target with ⟨object, string, here, found, there, stored⟩ | ⟨missing, absent⟩
  · rw [found, there, ok_bind, ok_bind, ← backs.allocator]
    refine ((erase_stored space backs.reachable stored first last).weaken ?_).bind ?_
    · rintro fault (full | ⟨reason, same, failed⟩)
      · exact .inl full
      · exact .inr ⟨reason, same, by rw [failed, error_bind]⟩
    · rintro ⟨heap, made⟩ ⟨changed, after, erased, rfl, held, rehoused⟩
      refine returns_pure.mpr ⟨_, after, ?_, backs.change space here rehoused held⟩
      rw [erased, ok_bind]
      rfl
  · rw [missing, absent, error_bind]
    exact returns_error.mpr (.inr ⟨_, rfl, rfl⟩)

theorem destroy_backs (space : UserSpace heapBottom heapTop)
    (backs : Backs heapBottom heapTop start session world strings) (target : Nat) :
    Returns (world.perform (usbrk heapTop) (.destroy target)) (Fails (performCall strings (.destroy target)))
      fun next => ∃ made after, performCall strings (.destroy target) = .ok made ∧
        Backs heapBottom heapTop start after next made := by
  rw [StringHeap.perform, performCall]
  rcases backs.find target with ⟨object, string, here, found, there, stored⟩ | ⟨missing, absent⟩
  · obtain ⟨new, freed, within, pointers⟩ := free_removes space.contract space.aligned space.start
      (userRuns_runs backs.reachable) stored.isLive
    have done : StringObject.destroy object session.allocator = .ok new := by
      rw [StringObject.destroy, freed]
      rfl
    rw [found, there, ok_bind, ok_bind, ← backs.allocator, done, ok_bind]
    exact returns_pure.mpr ⟨_, _, rfl, backs.remove space here within pointers⟩
  · rw [missing, absent, error_bind]
    exact returns_error.mpr (.inr ⟨_, rfl, rfl⟩)

end Pushes

theorem perform_backs (space : UserSpace heapBottom heapTop)
    (backs : Backs heapBottom heapTop start session world strings) {call : StringCall} (permitted : call.Permitted) :
    Returns (world.perform (usbrk heapTop) call) (Fails (performCall strings call)) fun next =>
      ∃ made after, performCall strings call = .ok made ∧ Backs heapBottom heapTop start after next made := by
  cases call with
  | construct text => exact construct_backs space backs permitted
  | copy source => exact copy_backs space backs source
  | pushBack target c => exact pushBack_backs space backs target c
  | append target source => exact append_backs space backs permitted
  | erase target first last => exact erase_backs space backs target first last
  | destroy target => exact destroy_backs space backs target

theorem performAll_backs (space : UserSpace heapBottom heapTop)
    (backs : Backs heapBottom heapTop start session world strings) (calls : List StringCall)
    (permitted : ∀ call ∈ calls, call.Permitted) :
    Returns (performAll (StringHeap.perform (usbrk heapTop)) world calls) (Fails (performAll performCall strings calls))
      fun next => ∃ made after, performAll performCall strings calls = .ok made ∧
        Backs heapBottom heapTop start after next made := by
  induction calls generalizing session world strings with
  | nil => exact returns_ok.mpr ⟨strings, session, rfl, backs⟩
  | cons call calls ih =>
      have first := perform_backs space backs (permitted call List.mem_cons_self)
      rw [performAll, performAll, List.foldlM_cons, List.foldlM_cons]
      refine (first.weaken ?_).bind ?_
      · rintro fault (full | ⟨reason, same, failed⟩)
        · exact .inl full
        · exact .inr ⟨reason, same, by rw [failed, error_bind]⟩
      · rintro next ⟨made, after, done, later⟩
        rw [done, ok_bind]
        exact ih later fun call listed => permitted call (List.mem_cons_of_mem _ listed)

/-- What the allocator counts is what it counted before the run, and the buffers. -/
theorem Backs.heapUsed_eq (space : UserSpace heapBottom heapTop) (first : (userRuns heapBottom heapTop).Reachable start)
    (backs : Backs heapBottom heapTop start session world strings) :
    world.heap.heapUsed = start.allocator.heapUsed + (world.objects.map fun object =>
      payloadSize world.heap.memory object.data + MallocHeader.headerSize).sum := by
  obtain ⟨_, before⟩ := space.consistent first
  obtain ⟨_, now⟩ := space.consistent backs.reachable
  have kept : start.pointers.map (fun pointer => payloadSize session.allocator.memory pointer + MallocHeader.headerSize) =
      start.pointers.map fun pointer => payloadSize start.allocator.memory pointer + MallocHeader.headerSize :=
    List.map_congr_left fun pointer old => by rw [(backs.kept pointer old).size]
  have blocks := backs.owned.map fun pointer => payloadSize session.allocator.memory pointer + MallocHeader.headerSize
  rw [← backs.allocator, now.heapUsed_eq, before.heapUsed_eq, blocks.sum_eq, List.map_append, List.sum_append,
    List.map_map, kept]
  exact Nat.add_comm _ _

/-- A run of calls on strings ends as it does on lists, or because the page of the heap is full. -/
theorem strings_on_heap {heapBottom heapTop : Nat} (space : UserSpace heapBottom heapTop) {start : Session}
    (reachable : (userRuns heapBottom heapTop).Reachable start) (calls : List StringCall)
    (permitted : ∀ call ∈ calls, call.Permitted) :
    Returns (performAll (StringHeap.perform (usbrk heapTop)) ⟨start.allocator, []⟩ calls)
      (fun fault => HeapFull fault ∨
        ∃ reason, fault = .string reason ∧ performAll performCall [] calls = .error reason)
      fun world => ∃ strings session, performAll performCall [] calls = .ok strings ∧
        Backs heapBottom heapTop start session world strings ∧ world.heap.heap ≤ heapTop ∧
        world.heap.heapUsed = start.allocator.heapUsed + (world.objects.map fun object =>
          payloadSize world.heap.memory object.data + MallocHeader.headerSize).sum := by
  have nothing : Backs heapBottom heapTop start start ⟨start.allocator, []⟩ [] :=
    ⟨rfl, reachable, .nil, List.Perm.refl _, fun pointer isLive => ⟨isLive, rfl, fun _ _ => rfl⟩⟩
  refine (performAll_backs space nothing calls permitted).mono ?_
  rintro world ⟨strings, session, done, backs⟩
  refine ⟨strings, session, done, backs, ?_, backs.heapUsed_eq space reachable⟩
  rw [← backs.allocator]
  exact (userRuns_within backs.reachable).2

/-- Two strings, one of them moved to a larger buffer. -/
theorem strings_on_heap_two : ∃ start world strings session,
    (userRuns 4096 8192).Reachable start ∧
      performAll (StringHeap.perform (usbrk 8192)) ⟨start.allocator, []⟩
        [.construct [97, 98, 99, 100], .copy 0, .append 0 1, .erase 0 1 3] = .ok world ∧
      world.objects.map StringObject.size = [6, 4] ∧ Backs 4096 8192 start session world strings := by
  have evaluated : (Allocator.init (usbrk 8192) (fun _ => 0) 4096 8192).toOption.any (fun heap =>
      (performAll (StringHeap.perform (usbrk 8192)) ⟨heap, []⟩
        [.construct [97, 98, 99, 100], .copy 0, .append 0 1, .erase 0 1 3]).toOption.any fun world =>
          world.objects.map StringObject.size = [6, 4]) = true := by decide +kernel
  obtain ⟨heap, initialized, rest⟩ := toOption_any.mp evaluated
  obtain ⟨world, ran, sizes⟩ := toOption_any.mp rest
  have reachable : (userRuns 4096 8192).Reachable ⟨heap, []⟩ := .start ⟨rfl, _, initialized⟩
  have runs := strings_on_heap ⟨by decide, by decide, by decide, by decide⟩ reachable
    [.construct [97, 98, 99, 100], .copy 0, .append 0 1, .erase 0 1 3] (by decide)
  obtain ⟨strings, session, _, backs, _⟩ := runs.of_ok ran
  exact ⟨_, world, strings, session, reachable, ran, of_decide_eq_true sizes, backs⟩

end Steps

end ToyKernel.Containers
