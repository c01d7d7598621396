import ToyKernel.Kernel.Edits

/-!
What the copies between address spaces do to physical memory. A copy into another
task's page changes bytes of that page's frame only, and a range of bytes that some
page directory maps keeps its contents as long as its entries and its frames are kept.
-/

namespace ToyKernel

open Library Paging

theorem toNat_and_kPageMask4M (entry : UInt32) :
    (entry &&& kPageMask4M).toNat = pageIndex4M entry * 4194304 := by
  have mask : kPageMask4M.toNat = (2 ^ 10 - 1) * 2 ^ 22 := by decide
  have bound := entry.toNat_lt
  apply Nat.eq_of_testBit_eq
  intro bit
  rw [UInt32.toNat_and, mask, pageIndex4M_shift, show (4194304 : Nat) = 2 ^ 22 by rfl,
    Nat.testBit_and, Nat.testBit_mul_two_pow, Nat.testBit_mul_two_pow, Nat.testBit_shiftRight,
    Nat.testBit_two_pow_sub_one]
  by_cases high : 22 ≤ bit
  · rw [Nat.add_sub_cancel' high]
    by_cases low : bit < 32
    · simp [high, show bit - 22 < 10 by omega]
    · have outside : entry.toNat < 2 ^ bit :=
        Nat.lt_of_lt_of_le bound (Nat.pow_le_pow_right (by decide) (by omega))
      rw [Nat.testBit_lt_two_pow outside]
      simp
  · simp [high]

namespace Kernel

def ChangedIn (frame : Nat) (old new : Memory) : Prop :=
  ∀ address, address / 4194304 ≠ frame → new address = old address

theorem translate_eq_ok {pd : PageDirectory} {vaddr : UInt32} {address : Nat} :
    translate pd vaddr = .ok address ↔ ∃ frame, frameOf (pd (pageIndex4M vaddr)) = some frame ∧
      address = frame * 4194304 + vaddr.toNat % 4194304 := by
  unfold translate
  constructor
  · intro found
    obtain ⟨_, isPresent, done⟩ := bind_eq_ok.mp found
    obtain rfl := pure_eq_ok.mp done
    refine ⟨_, frameOf_eq_some.mpr ⟨require_eq_ok.mp isPresent, rfl⟩, ?_⟩
    rw [toNat_and_kPageMask4M, UInt32.toNat_mod]
    rfl
  · rintro ⟨frame, maps, rfl⟩
    obtain ⟨isPresent, rfl⟩ := frameOf_eq_some.mp maps
    dsimp only
    rw [require_of isPresent, ok_bind, toNat_and_kPageMask4M, UInt32.toNat_mod]
    rfl

def Holds (pd : PageDirectory) (memory : Memory) : UInt32 → List UInt8 → Prop
  | _, [] => True
  | vaddr, byte :: rest =>
      (∃ address, translate pd vaddr = .ok address ∧ memory address = byte) ∧
        Holds pd memory (vaddr + 1) rest

def readBytes (pd : PageDirectory) (memory : Memory) : UInt32 → Nat → Except Fault (List UInt8)
  | _, 0 => pure []
  | vaddr, size + 1 => do
      let address ← translate pd vaddr
      let rest ← readBytes pd memory (vaddr + 1) size
      return memory address :: rest

variable {pd other : PageDirectory} {memory after : Memory} {bytes : List UInt8} {frame : Nat}

theorem readBytes_holds {vaddr : UInt32} {size : Nat}
    (read : readBytes pd memory vaddr size = .ok bytes) :
    bytes.length = size ∧ Holds pd memory vaddr bytes := by
  induction size generalizing vaddr bytes with
  | zero =>
      obtain rfl := pure_eq_ok.mp read
      exact ⟨rfl, True.intro⟩
  | succ size ih =>
      obtain ⟨address, translated, more⟩ := bind_eq_ok.mp read
      obtain ⟨rest, later, done⟩ := bind_eq_ok.mp more
      obtain rfl := pure_eq_ok.mp done
      obtain ⟨length, holds⟩ := ih later
      exact ⟨by rw [List.length_cons, length], ⟨address, translated, rfl⟩, holds⟩

/-- Bytes stay where they are while the entries in use and the bytes of their frames are kept. -/
theorem Holds.kept {vaddr : UInt32} (holds : Holds pd memory vaddr bytes)
    (entries : ∀ index < 1024, present (pd index) = true → other index = pd index)
    (frames : ∀ index < 1024, ∀ frame, frameOf (pd index) = some frame →
      ∀ address, address / 4194304 = frame → after address = memory address) :
    Holds other after vaddr bytes := by
  induction bytes generalizing vaddr with
  | nil => exact True.intro
  | cons byte rest ih =>
      obtain ⟨⟨address, translated, isByte⟩, later⟩ := holds
      obtain ⟨frame, maps, rfl⟩ := translate_eq_ok.mp translated
      have bound := pageIndex4M_lt vaddr
      refine ⟨⟨_, translate_eq_ok.mpr ⟨frame, ?_, rfl⟩, ?_⟩, ih later⟩
      · rw [entries _ bound (frameOf_eq_some.mp maps).1]
        exact maps
      · rw [frames _ bound frame maps _ (by omega)]
        exact isByte

def restrict (keep : Nat → Bool) (pd : PageDirectory) : PageDirectory :=
  fun index => if keep index then pd index else 0

theorem frameOf_restrict {keep : Nat → Bool} {index : Nat} :
    frameOf (restrict keep pd index) = some frame ↔
      keep index = true ∧ frameOf (pd index) = some frame := by
  unfold restrict
  by_cases kept : keep index = true
  · simp [kept]
  · simp [kept]

theorem present_restrict {keep : Nat → Bool} {index : Nat} :
    present (restrict keep pd index) = true ↔ keep index = true ∧ present (pd index) = true := by
  unfold restrict
  by_cases kept : keep index = true
  · simp [kept]
  · simp [kept]

/-- The bytes on some of the pages, while the entries of those pages are kept and nothing is
written to their frames. -/
theorem Holds.restrict_kept {keep : Nat → Bool} {vaddr : UInt32}
    (holds : Holds (restrict keep pd) memory vaddr bytes)
    (entries : ∀ index < 1024, keep index = true → present (pd index) = true → other index = pd index)
    (changed : ChangedIn frame memory after)
    (apart : ∀ index < 1024, keep index = true → frameOf (pd index) ≠ some frame) :
    Holds (restrict keep other) after vaddr bytes := by
  apply holds.kept
  · intro index bound isPresent
    obtain ⟨kept, mapped⟩ := present_restrict.mp isPresent
    rw [restrict, restrict, if_pos kept, if_pos kept]
    exact entries index bound kept mapped
  · intro index bound used maps address inside
    obtain ⟨kept, mapped⟩ := frameOf_restrict.mp maps
    apply changed
    rintro rfl
    rw [inside] at apart
    exact apart index bound kept mapped

theorem Holds.of_restrict {keep : Nat → Bool} {vaddr : UInt32}
    (holds : Holds (restrict keep pd) memory vaddr bytes) : Holds pd memory vaddr bytes := by
  refine holds.kept ?_ fun _ _ _ _ _ _ => rfl
  intro index _ isPresent
  rw [restrict, if_pos (present_restrict.mp isPresent).1]

/-- The next address, as long as it is not the first one of a page. -/
theorem succ_in_page {vaddr : UInt32} (inside : vaddr.toNat % 4194304 + 1 < 4194304) :
    pageIndex4M (vaddr + 1) = pageIndex4M vaddr ∧
      (vaddr + 1).toNat % 4194304 = vaddr.toNat % 4194304 + 1 := by
  have bound := vaddr.toNat_lt
  have sum : (vaddr + 1).toNat = vaddr.toNat + 1 := by
    rw [UInt32.toNat_add]
    exact Nat.mod_eq_of_lt (by change vaddr.toNat + 1 < _; omega)
  rw [pageIndex4M_eq, pageIndex4M_eq, sum]
  omega

theorem Holds.moved {vaddr target : UInt32} {size : Nat} (holds : Holds pd memory vaddr bytes)
    (maps : frameOf (pd (pageIndex4M vaddr)) = some frame)
    (inside : vaddr.toNat % 4194304 + size ≤ 4194304) (length : bytes.length = size)
    (offset : vaddr.toNat % 4194304 = target.toNat % 4194304)
    (mapsTarget : frameOf (other (pageIndex4M target)) = some frame) :
    Holds (restrict (· == pageIndex4M target) other) memory target bytes := by
  induction bytes generalizing vaddr target size with
  | nil => exact True.intro
  | cons byte rest ih =>
      obtain ⟨⟨address, translated, isByte⟩, later⟩ := holds
      obtain ⟨found, mapped, rfl⟩ := translate_eq_ok.mp translated
      obtain rfl : frame = found := by
        rw [maps] at mapped
        exact Option.some.inj mapped
      refine ⟨⟨_, translate_eq_ok.mpr ⟨frame, ?_, rfl⟩, ?_⟩, ?_⟩
      · exact frameOf_restrict.mpr ⟨beq_self_eq_true _, mapsTarget⟩
      · rw [← offset]
        exact isByte
      · cases rest with
        | nil => exact True.intro
        | cons second rest =>
            rw [List.length_cons, List.length_cons] at length
            obtain ⟨sameIndex, nextOffset⟩ :=
              succ_in_page (show vaddr.toNat % 4194304 + 1 < 4194304 by omega)
            obtain ⟨sameTarget, nextTarget⟩ :=
              succ_in_page (show target.toNat % 4194304 + 1 < 4194304 by omega)
            have moved : Holds (restrict (· == pageIndex4M (target + 1)) other) memory (target + 1)
                (second :: rest) := ih later (by rw [sameIndex]; exact maps)
              (show (vaddr + 1).toNat % 4194304 + (rest.length + 1) ≤ 4194304 by omega) rfl
              (by omega) (by rw [sameTarget]; exact mapsTarget)
            rw [sameTarget] at moved
            exact moved

theorem memcpyVirtual_outside {dst src : UInt32} {size : Nat}
    (copied : memcpyVirtual pd dst src size memory = .ok after)
    (maps : frameOf (pd (pageIndex4M dst)) = some frame)
    (inside : dst.toNat % 4194304 + size ≤ 4194304) (address : Nat)
    (outside : address < frame * 4194304 + dst.toNat % 4194304 ∨
      frame * 4194304 + dst.toNat % 4194304 + size ≤ address) : after address = memory address := by
  induction size generalizing dst src memory with
  | zero =>
      obtain rfl := pure_eq_ok.mp copied
      rfl
  | succ size ih =>
      obtain ⟨source, _, rest⟩ := bind_eq_ok.mp copied
      obtain ⟨target, translated, later⟩ := bind_eq_ok.mp rest
      obtain ⟨found, mapped, rfl⟩ := translate_eq_ok.mp translated
      obtain rfl : frame = found := by
        rw [maps] at mapped
        exact Option.some.inj mapped
      have first : store memory (frame * 4194304 + dst.toNat % 4194304) (memory source) address =
          memory address := store_other memory _ (by omega)
      cases size with
      | zero =>
          obtain rfl := pure_eq_ok.mp later
          exact first
      | succ size =>
          obtain ⟨sameIndex, nextOffset⟩ := succ_in_page (show dst.toNat % 4194304 + 1 < 4194304 by omega)
          rw [ih later (by rw [sameIndex]; exact maps) (by omega) (by omega)]
          exact first

theorem memcpyVirtual_holds {dst src : UInt32} {size : Nat}
    (copied : memcpyVirtual pd dst src size memory = .ok after)
    (maps : frameOf (pd (pageIndex4M dst)) = some frame)
    (inside : dst.toNat % 4194304 + size ≤ 4194304) (length : bytes.length = size)
    (source : Holds other memory src bytes)
    (agrees : ∀ index < 1024, present (other index) = true → pd index = other index)
    (apart : ∀ index < 1024, frameOf (other index) ≠ some frame) : Holds pd after dst bytes := by
  induction size generalizing dst src memory bytes with
  | zero =>
      obtain rfl := List.length_eq_zero_iff.mp length
      exact True.intro
  | succ size ih =>
      obtain ⟨byte, rest, rfl⟩ := List.exists_cons_of_length_eq_add_one length
      obtain ⟨⟨origin, found, isByte⟩, others⟩ := source
      obtain ⟨address, translatedSource, more⟩ := bind_eq_ok.mp copied
      obtain ⟨target, translated, later⟩ := bind_eq_ok.mp more
      obtain ⟨mapped, mapsTarget, rfl⟩ := translate_eq_ok.mp translated
      obtain rfl : frame = mapped := by
        rw [maps] at mapsTarget
        exact Option.some.inj mapsTarget
      obtain ⟨used, mapsSource, rfl⟩ := translate_eq_ok.mp found
      have isSource : address = used * 4194304 + src.toNat % 4194304 := by
        obtain ⟨same, mapsSame, rfl⟩ := translate_eq_ok.mp translatedSource
        rw [agrees _ (pageIndex4M_lt src) (frameOf_eq_some.mp mapsSource).1, mapsSource] at mapsSame
        rw [Option.some.inj mapsSame]
      rw [isSource, isByte] at later
      have kept : Holds other (store memory (frame * 4194304 + dst.toNat % 4194304) byte) (src + 1) rest := by
        refine others.kept (fun _ _ _ => rfl) ?_
        intro index bound page mapsPage query isPage
        apply store_other
        rintro rfl
        refine apart index bound ?_
        rw [mapsPage]
        congr 1
        omega
      have stored : after (frame * 4194304 + dst.toNat % 4194304) = byte := by
        cases size with
        | zero =>
            obtain rfl := pure_eq_ok.mp later
            exact store_same _ _ _
        | succ size =>
            obtain ⟨sameIndex, nextOffset⟩ := succ_in_page (show dst.toNat % 4194304 + 1 < 4194304 by omega)
            rw [memcpyVirtual_outside later (by rw [sameIndex]; exact maps) (by omega) _ (by omega)]
            exact store_same _ _ _
      refine ⟨⟨_, translated, stored⟩, ?_⟩
      rw [List.length_cons, Nat.add_right_cancel_iff] at length
      cases size with
      | zero =>
          obtain rfl := List.length_eq_zero_iff.mp length
          exact True.intro
      | succ size =>
          obtain ⟨sameIndex, nextOffset⟩ := succ_in_page (show dst.toNat % 4194304 + 1 < 4194304 by omega)
          exact ih later (by rw [sameIndex]; exact maps) (by omega) length kept

/-- A copy never gets past a page whose successor is not mapped. -/
theorem memcpyVirtual_fits {dst src : UInt32} {size : Nat}
    (copied : memcpyVirtual pd dst src size memory = .ok after) (below : pageIndex4M dst < 1023)
    (gap : present (pd (pageIndex4M dst + 1)) = false) : dst.toNat % 4194304 + size ≤ 4194304 := by
  induction size generalizing dst src memory with
  | zero => omega
  | succ size ih =>
      obtain ⟨source, _, rest⟩ := bind_eq_ok.mp copied
      obtain ⟨target, _, later⟩ := bind_eq_ok.mp rest
      by_cases inside : dst.toNat % 4194304 + 1 < 4194304
      · obtain ⟨sameIndex, nextOffset⟩ := succ_in_page inside
        have fits := ih later (by omega) (by rw [sameIndex]; exact gap)
        omega
      · cases size with
        | zero => omega
        | succ size =>
            obtain ⟨_, _, more⟩ := bind_eq_ok.mp later
            obtain ⟨_, translated, _⟩ := bind_eq_ok.mp more
            obtain ⟨_, maps, _⟩ := translate_eq_ok.mp translated
            have next : pageIndex4M (dst + 1) = pageIndex4M dst + 1 := by
              rw [pageIndex4M_eq] at below ⊢
              rw [pageIndex4M_eq]
              have sum : (dst + 1).toNat = dst.toNat + 1 := by
                rw [UInt32.toNat_add]
                exact Nat.mod_eq_of_lt (by change dst.toNat + 1 < _; omega)
              omega
            rw [next, frameOf_eq_none.mpr gap] at maps
            cases maps

theorem writeBytes_changes {dst : UInt32} (written : writeBytes pd dst bytes memory = .ok after)
    (maps : frameOf (pd (pageIndex4M dst)) = some frame)
    (inside : dst.toNat % 4194304 + bytes.length ≤ 4194304) : ChangedIn frame memory after := by
  induction bytes generalizing dst memory with
  | nil =>
      obtain rfl := pure_eq_ok.mp written
      exact fun _ _ => rfl
  | cons byte rest ih =>
      obtain ⟨target, translated, later⟩ := bind_eq_ok.mp written
      obtain ⟨found, mapped, rfl⟩ := translate_eq_ok.mp translated
      obtain rfl : frame = found := by
        rw [maps] at mapped
        exact Option.some.inj mapped
      have first : ChangedIn frame memory (store memory (frame * 4194304 + dst.toNat % 4194304) byte) := by
        intro address outside
        apply store_other
        omega
      rw [List.length_cons] at inside
      cases rest with
      | nil =>
          obtain rfl := pure_eq_ok.mp later
          exact first
      | cons second rest =>
          rw [List.length_cons] at inside
          obtain ⟨sameIndex, nextOffset⟩ := succ_in_page (show dst.toNat % 4194304 + 1 < 4194304 by omega)
          intro address outside
          rw [ih later (by rw [sameIndex]; exact maps) (by rw [List.length_cons]; omega) address outside]
          exact first address outside

structure Window (kernel : Kernel) (task current : PageDirPtr) (vaddr : UInt32) (frame : Nat)
    (pd : PageDirectory) : Prop where
  source : frameOf (kernel.paging.pageDirs task (pageIndex4M vaddr)) = some frame
  mapped : frameOf (pd (pageIndex4M tmpSharedTaskMemStart)) = some frame
  free : present (kernel.paging.pageDirs current (pageIndex4M tmpSharedTaskMemStart)) = false
  others : ∀ index, index ≠ pageIndex4M tmpSharedTaskMemStart →
    pd index = kernel.paging.pageDirs current index

theorem taskMemcpy_window {task current : PageDirPtr} {vaddr : UInt32}
    {copy : UInt32 → PageDirectory → Memory → Except Fault Memory} {kernel after : Kernel}
    (run : taskMemcpy task current vaddr copy kernel = .ok after) :
    ∃ frame pd, Window kernel task current vaddr frame pd ∧
      copy (tmpSharedTaskMemStart + vaddr % kPageSize4M) pd kernel.memory = .ok after.memory := by
  obtain ⟨paddr, found, rest⟩ := bind_eq_ok.mp run
  obtain ⟨first, added, rest⟩ := bind_eq_ok.mp rest
  obtain ⟨memory, copied, rest⟩ := bind_eq_ok.mp rest
  obtain ⟨new, removed, done⟩ := bind_eq_ok.mp rest
  obtain rfl := pure_eq_ok.mp done
  have maps := getPhysicalAddr_eq_ok found
  rw [pageIndex4M_pageAddr4M (pageIndex4M_lt vaddr)] at maps
  obtain ⟨_, _, _, installed⟩ :=
    (addPage_spec kernel.paging current tmpSharedTaskMemStart paddr 0 true).of_ok added
  rw [targets_own fun _ => by decide] at installed
  refine ⟨pageIndex4M paddr, first.pageDirs current, ⟨maps, ?_, ?_, ?_⟩, copied⟩
  · rw [installed.pageDirs, if_pos ⟨Finset.mem_singleton_self current, rfl⟩, frameOf_pageEntry]
  · exact installed.empty current (Finset.mem_singleton_self current)
  · intro index different
    rw [installed.pageDirs, if_neg fun here => different here.2]

theorem taskMemcpy_heap {task current : PageDirPtr} {vaddr : UInt32}
    {copy : UInt32 → PageDirectory → Memory → Except Fault Memory} {kernel after : Kernel}
    (run : taskMemcpy task current vaddr copy kernel = .ok after) : after.heap = kernel.heap := by
  obtain ⟨_, _, rest⟩ := bind_eq_ok.mp run
  obtain ⟨_, _, rest⟩ := bind_eq_ok.mp rest
  obtain ⟨_, _, rest⟩ := bind_eq_ok.mp rest
  obtain ⟨_, _, done⟩ := bind_eq_ok.mp rest
  obtain rfl := pure_eq_ok.mp done
  rfl

theorem write_edits {task current : PageDirPtr} {dst src size : UInt32} {kernel after : Kernel}
    (run : write task current dst src size kernel = .ok after) :
    Equivalent kernel.paging after.paging ∧ SameTasks kernel after ∧ after.heap = kernel.heap := by
  unfold write at run
  split at run
  · obtain rfl := pure_eq_ok.mp run
    exact ⟨.refl _, .refl _, rfl⟩
  · obtain ⟨equivalent, same⟩ := taskMemcpy_edits run
    exact ⟨equivalent, same, taskMemcpy_heap run⟩

theorem window_address (vaddr : UInt32) :
    pageIndex4M (tmpSharedTaskMemStart + vaddr % kPageSize4M) = pageIndex4M tmpSharedTaskMemStart ∧
      (tmpSharedTaskMemStart + vaddr % kPageSize4M).toNat % 4194304 = vaddr.toNat % 4194304 := by
  have offset : (vaddr % kPageSize4M).toNat = vaddr.toNat % 4194304 := by
    rw [UInt32.toNat_mod]
    rfl
  have base : tmpSharedTaskMemStart.toNat = 20971520 := by decide
  have sum : (tmpSharedTaskMemStart + vaddr % kPageSize4M).toNat = 20971520 + vaddr.toNat % 4194304 := by
    rw [UInt32.toNat_add, offset, base]
    exact Nat.mod_eq_of_lt (by omega)
  rw [pageIndex4M_eq, pageIndex4M_eq, sum, base]
  omega

/-- `Task::Write` of a word changes only the frame behind its address. -/
theorem writeWord_changes {task current : PageDirPtr} {dst word : UInt32} {kernel new : Kernel}
    (run : writeWord task current dst word kernel = .ok new) (inside : dst.toNat % 4194304 + 4 ≤ 4194304) :
    ∃ frame, frameOf (kernel.paging.pageDirs task (pageIndex4M dst)) = some frame ∧
      ChangedIn frame kernel.memory new.memory := by
  obtain ⟨frame, pd, window, written⟩ := taskMemcpy_window run
  obtain ⟨index, offset⟩ := window_address dst
  refine ⟨frame, window.source, writeBytes_changes written ?_ ?_⟩
  · rw [index]
    exact window.mapped
  · rw [offset]
    exact inside

/-- `Task::Write` of bytes to the start of a page that the current address space does not map: the
page holds the bytes afterwards, and no other frame has changed. -/
theorem write_holds {task current : PageDirPtr} {dst src size : UInt32} {kernel new : Kernel}
    (run : write task current dst src size kernel = .ok new) (aligned : dst % kPageSize4M = 0)
    (maps : frameOf (kernel.paging.pageDirs task (pageIndex4M dst)) = some frame)
    (length : bytes.length = size.toNat)
    (source : Holds (kernel.paging.pageDirs current) kernel.memory src bytes)
    (apart : ∀ index < 1024, frameOf (kernel.paging.pageDirs current index) ≠ some frame)
    (gap : present (kernel.paging.pageDirs current (pageIndex4M tmpSharedTaskMemStart + 1)) = false) :
    ChangedIn frame kernel.memory new.memory ∧
      Holds (restrict (· == pageIndex4M dst) (kernel.paging.pageDirs task)) new.memory dst bytes := by
  unfold write at run
  by_cases empty : size = 0
  · rw [if_pos empty] at run
    obtain rfl := pure_eq_ok.mp run
    rw [empty] at length
    obtain rfl := List.length_eq_zero_iff.mp length
    exact ⟨fun _ _ => rfl, True.intro⟩
  · rw [if_neg empty] at run
    obtain ⟨found, pd, window, copied⟩ := taskMemcpy_window run
    obtain rfl : frame = found := by
      have same := window.source
      rw [maps] at same
      exact Option.some.inj same
    obtain ⟨index, offset⟩ := window_address dst
    have start : dst.toNat % 4194304 = 0 := (aligned_iff dst).mp aligned
    have gapOpen : present (pd (pageIndex4M tmpSharedTaskMemStart + 1)) = false := by
      rw [window.others _ (by omega)]
      exact gap
    have mapped := window.mapped
    rw [← index] at mapped gapOpen
    have fits := memcpyVirtual_fits copied (by rw [index]; decide) gapOpen
    have agrees : ∀ i < 1024, present (kernel.paging.pageDirs current i) = true →
        pd i = kernel.paging.pageDirs current i := by
      intro i _ isPresent
      apply window.others
      rintro rfl
      rw [window.free] at isPresent
      cases isPresent
    have shared := memcpyVirtual_holds copied mapped fits length source agrees apart
    constructor
    · intro address outside
      refine memcpyVirtual_outside copied mapped fits address ?_
      omega
    · exact shared.moved mapped fits length (by rw [offset]) maps

/-- A copy function that keeps to the region it is given, as the comment on `CopyArgFunc` asks. -/
structure ArgCopier where
  copy : CopyArgFunc
  confined : ∀ arg pd memory after value,
    copy arg userSharedSpaceStart userSharedSpaceEnd pd memory = .ok (after, value) →
    ∀ address, after address ≠ memory address → ∃ vaddr, userSharedSpaceStart ≤ vaddr ∧
      vaddr < userSharedSpaceEnd ∧ translate pd vaddr = .ok address

theorem pageIndex4M_sharedSpace {vaddr : UInt32} (above : userSharedSpaceStart ≤ vaddr)
    (below : vaddr < userSharedSpaceEnd) : pageIndex4M vaddr = pageIndex4M userSharedSpaceStart := by
  have start : userSharedSpaceStart.toNat = 12582912 := by decide
  have stop : userSharedSpaceEnd.toNat = 16777216 := by decide
  rw [UInt32.le_iff_toNat_le] at above
  rw [UInt32.lt_iff_toNat_lt] at below
  rw [pageIndex4M_eq, pageIndex4M_eq]
  omega

theorem ArgCopier.changes (copier : ArgCopier) {arg value : UInt32}
    (copied : copier.copy arg userSharedSpaceStart userSharedSpaceEnd pd memory = .ok (after, value))
    (maps : frameOf (pd (pageIndex4M userSharedSpaceStart)) = some frame) :
    ChangedIn frame memory after := by
  intro address outside
  by_contra changed
  obtain ⟨vaddr, above, below, translated⟩ := copier.confined arg pd memory after value copied address changed
  obtain ⟨found, mapped, rfl⟩ := translate_eq_ok.mp translated
  rw [pageIndex4M_sharedSpace above below, maps] at mapped
  have same := Option.some.inj mapped
  omega

theorem sharedSpace_translate {address : Nat}
    (maps : frameOf (pd (pageIndex4M userSharedSpaceStart)) = some frame)
    (inside : address / 4194304 = frame) : ∃ vaddr, userSharedSpaceStart ≤ vaddr ∧
      vaddr < userSharedSpaceEnd ∧ translate pd vaddr = .ok address := by
  have value : (UInt32.ofNat (12582912 + address % 4194304)).toNat = 12582912 + address % 4194304 :=
    UInt32.toNat_ofNat_of_lt' (by change _ < 4294967296; omega)
  have above : userSharedSpaceStart ≤ UInt32.ofNat (12582912 + address % 4194304) := by
    rw [UInt32.le_iff_toNat_le, value]
    change 12582912 ≤ _
    omega
  have below : UInt32.ofNat (12582912 + address % 4194304) < userSharedSpaceEnd := by
    rw [UInt32.lt_iff_toNat_lt, value]
    change _ < 16777216
    omega
  refine ⟨_, above, below, translate_eq_ok.mpr ⟨frame, ?_, ?_⟩⟩
  · rw [pageIndex4M_sharedSpace above below]
    exact maps
  · rw [value]
    omega

theorem writeBytes_mapped {dst : UInt32} {byte : UInt8}
    (written : writeBytes pd dst (byte :: bytes) memory = .ok after) :
    ∃ frame, frameOf (pd (pageIndex4M dst)) = some frame := by
  obtain ⟨_, translated, _⟩ := bind_eq_ok.mp written
  obtain ⟨frame, maps, _⟩ := translate_eq_ok.mp translated
  exact ⟨frame, maps⟩

def defaultCopier : ArgCopier where
  copy := copyArgDefault
  confined := by
    intro arg pd memory after value copied address changed
    obtain ⟨written, wrote, done⟩ := bind_eq_ok.mp copied
    obtain ⟨rfl, _⟩ := Prod.mk.inj (pure_eq_ok.mp done)
    have index : pageIndex4M (userSharedSpaceEnd - 4) = pageIndex4M userSharedSpaceStart := by decide
    obtain ⟨frame, maps⟩ := writeBytes_mapped wrote
    have changes := writeBytes_changes wrote maps
      (show (userSharedSpaceEnd - 4).toNat % 4194304 + 4 ≤ 4194304 by decide)
    rw [index] at maps
    exact sharedSpace_translate maps (by_contra fun outside => changed (changes address outside))

/-- The copy function of `KernelJumpToUserEntry`. A size near the end of the address space would
wrap around in its assertion. -/
def initrdCopier (data size : UInt32) (fits : size.toNat + 4 < 4294967296) : ArgCopier where
  copy := copyInitrd data size
  confined := by
    intro arg pd memory after value copied address changed
    obtain ⟨_, checked, rest⟩ := bind_eq_ok.mp copied
    obtain ⟨first, wrote, rest⟩ := bind_eq_ok.mp rest
    obtain ⟨second, moved, done⟩ := bind_eq_ok.mp rest
    obtain ⟨rfl, _⟩ := Prod.mk.inj (pure_eq_ok.mp done)
    have enough := require_eq_ok.mp checked
    rw [UInt32.le_iff_toNat_le, UInt32.toNat_add, show (4 : UInt32).toNat = 4 by rfl,
      Nat.mod_eq_of_lt fits] at enough
    have room : (userSharedSpaceEnd - userSharedSpaceStart).toNat = 4194304 := by decide
    rw [room] at enough
    obtain ⟨frame, maps⟩ := writeBytes_mapped wrote
    have firstChanges := writeBytes_changes wrote maps
      (show userSharedSpaceStart.toNat % 4194304 + 4 ≤ 4194304 by decide)
    refine sharedSpace_translate maps (by_contra fun outside => changed ?_)
    have index : pageIndex4M (userSharedSpaceStart + 4) = pageIndex4M userSharedSpaceStart := by decide
    have offset : (userSharedSpaceStart + 4).toNat % 4194304 = 4 := by decide
    rw [memcpyVirtual_outside moved (by rw [index]; exact maps) (by rw [offset]; omega) address
      (by rw [offset]; omega)]
    exact firstChanges address outside

end Kernel

end ToyKernel
