import ToyKernel.Kernel.Initrd
import ToyKernel.Kernel.TaskCopies
import ToyKernel.Loader.Arguments
import ToyKernel.Vfs.RoundTrip

/-!
What runs in a program before its `main`: `pre_main` of `libc/pre-main.cpp` maps the page of the heap, reads
the `ArgInfo` of the parent and the archive through shared pages, and copies the arguments.
-/

namespace ToyKernel

open Library Paging

namespace Vfs

variable {memory other : Memory} {tar place : Nat} {record : Record} {records : List Record}

theorem HeaderBlock.moved (header : HeaderBlock memory tar record)
    (same : ∀ offset < 512, other (place + offset) = memory (tar + offset)) : HeaderBlock other place record := by
  have field : ∀ start position, start + position < 512 →
      other (place + start + position) = memory (tar + start + position) := by
    intro start position inside
    rw [Nat.add_assoc, Nat.add_assoc, same _ inside]
  constructor
  · intro position inside
    rw [same position (by omega)]
    exact header.name position inside
  · rw [same 100 (by decide)]
    exact header.mode
  · intro position inside
    rw [field TarBlock.sizeField position (show 124 + position < 512 by omega)]
    exact header.size position inside
  · rw [same TarBlock.typeField (by decide)]
    exact header.kind
  · intro position inside
    rw [field TarBlock.ustarField position (show 257 + position < 512 by omega)]
    exact header.magic position inside
  · intro position inside
    rw [field TarBlock.prefixField position (show 345 + position < 512 by omega)]
    exact header.namePrefix position inside
  · rw [same 500 (by decide)]
    exact header.padding

theorem ArchiveAt.moved (laid : ArchiveAt memory tar records) (fits : place + archiveSize records ≤ 4294967296)
    (same : ∀ offset < archiveSize records, other (place + offset) = memory (tar + offset)) :
    ArchiveAt other place records := by
  induction records generalizing tar place with
  | nil =>
      have size : archiveSize [] = 1024 := rfl
      rw [size] at fits same
      refine ⟨fits, ?_⟩
      intro offset below
      rw [same offset below]
      exact laid.2 offset below
  | cons record rest ih =>
      have total : archiveSize (record :: rest) = record.span + archiveSize rest := by
        simp [archiveSize, Nat.add_assoc]
      have blocks : record.span = 512 + numChunks record.contents.length * 512 := rfl
      have enough : record.contents.length ≤ numChunks record.contents.length * 512 := numChunks_ge _
      rw [total] at fits same
      obtain ⟨wellFormed, header, contents, later⟩ := laid
      refine ⟨wellFormed, header.moved fun offset below => same offset (by omega), ?_,
        ih later (by omega) ?_⟩
      · intro offset below
        rw [Nat.add_assoc, same (kTarBlockSize + offset) (show 512 + offset < _ by omega),
          ← contents offset below, Nat.add_assoc]
      · intro offset below
        rw [Nat.add_assoc, same _ (by omega), Nat.add_assoc]

theorem mem_of_placed {found : Nat × Record} (member : found ∈ placed tar records) : found.2 ∈ records := by
  induction records generalizing tar with
  | nil => cases member
  | cons record rest ih =>
      rcases List.mem_cons.mp member with rfl | later
      · exact List.mem_cons_self
      · exact List.mem_cons_of_mem _ (ih later)

/-- The archive is read in the same way wherever it lies. -/
theorem parseUSTAR_moved (laid : ArchiveAt memory tar records)
    (bare : ∀ record ∈ records, record.namePrefix = []) (nonempty : ∀ record ∈ records, ¬record.IsEmptyFile)
    (short : ∀ record ∈ records, record.name.length < 100)
    (fits : place + archiveSize records ≤ 4294967296)
    (same : ∀ offset < archiveSize records, other (place + offset) = memory (tar + offset)) :
    parseUSTAR other place = parseUSTAR memory tar := by
  have modes (bytes : Memory) (start : Nat) : ModesAt (fun _ => []) bytes start records := by
    intro found member full
    have limit := short found.2 (mem_of_placed member)
    omega
  rw [parseUSTAR_records (laid.moved fits same) (modes other place) bare nonempty,
    parseUSTAR_records laid (modes memory tar) bare nonempty]

end Vfs

namespace Kernel

inductive StartFault
  | kernel (fault : Fault)
  | vfs (fault : Vfs.Fault)
  | arg (fault : Loader.ArgFault)
  | noParent | noDirectory
deriving DecidableEq, Repr

structure ArgInfo where
  rawVfsData : UInt32
  rawVfsDataOwner : UInt32
  packedArgv : UInt32
  packedArgvSize : UInt32
  pwd : UInt32
deriving DecidableEq, Repr

def wordOf : List UInt8 → UInt32
  | [first, second, third, fourth] => UInt32.ofNat
      (first.toNat + 256 * second.toNat + 65536 * third.toNat + 16777216 * fourth.toNat)
  | _ => 0

namespace ArgInfo

def bytes (info : ArgInfo) : List UInt8 :=
  wordBytes info.rawVfsData ++ wordBytes info.rawVfsDataOwner ++ wordBytes info.packedArgv ++
    wordBytes info.packedArgvSize ++ wordBytes info.pwd

def ofBytes (bytes : List UInt8) : ArgInfo where
  rawVfsData := wordOf (bytes.take 4)
  rawVfsDataOwner := wordOf ((bytes.drop 4).take 4)
  packedArgv := wordOf ((bytes.drop 8).take 4)
  packedArgvSize := wordOf ((bytes.drop 12).take 4)
  pwd := wordOf ((bytes.drop 16).take 4)

end ArgInfo

/-- The memory in the eyes of a program. What a read gives where nothing is mapped is left open. -/
def programView (pd : PageDirectory) (memory unmapped : Memory) : Memory := fun vaddr =>
  match translate pd (UInt32.ofNat vaddr) with
  | .ok address => memory address
  | .error _ => unmapped vaddr

def withPage {α : Type} (caller owner : Nat) (address : UInt32)
    (use : PageDirectory → Memory → UInt32 → Except StartFault α) (kernel : Kernel) :
    Except StartFault (α × Kernel) := do
  let offset := address % kPageSize4M
  let (shared, page) ← (kernel.sharePage caller owner (address - offset)).mapError .kernel
  let own ← (shared.getTask caller).mapError .kernel
  let value ← use (shared.paging.pageDirs own.pageDirectory) shared.memory (page + offset)
  let kernel ← (shared.unmapPage caller page).mapError .kernel
  return (value, kernel)

def readArgInfo (pd : PageDirectory) (memory : Memory) (arginfo : UInt32) : Except StartFault ArgInfo := do
  let bytes ← (readBytes pd memory arginfo 20).mapError .kernel
  return ArgInfo.ofBytes bytes

def parseUSTARFromRawData (caller : Nat) (info : ArgInfo) (unmapped : Memory) (kernel : Kernel) :
    Except StartFault (Vfs.Node × Kernel) :=
  kernel.withPage caller info.rawVfsDataOwner.toNat info.rawVfsData fun pd memory thisVfs =>
    (Vfs.parseUSTAR (programView pd memory unmapped) thisVfs.toNat).mapError .vfs

def findCWD (root : Vfs.Node) (pwd : UInt32) (view : Memory) : Except StartFault Vfs.Cursor :=
  if pwd = 0 then return []
  else do
    let path ← (Vfs.stringAt view pwd.toNat).mapError .vfs
    let dir ← (Vfs.getDir root [] path).mapError .vfs
    match dir with
    | some dir => return dir
    | none => .error .noDirectory

structure Started where
  root : Vfs.Node
  cwd : Vfs.Cursor
  argc : Nat
  argv : List (List UInt8)

/-- `pre_main` behind the set up of the heap. The argument is a pointer to the address of the `ArgInfo`, and
`packed` is the address of the array on the stack. -/
def runMain (caller : Nat) (argPtr packed : UInt32) (argv : List (Option Nat)) (unmapped : Memory)
    (kernel : Kernel) : Except StartFault (Started × Kernel) := do
  let own ← (kernel.getTask caller).mapError .kernel
  let some parent := own.parent | .error .noParent
  let arginfo ← (readBytes (kernel.paging.pageDirs own.pageDirectory) kernel.memory argPtr 4).mapError .kernel
  let (info, kernel) ← kernel.withPage caller parent (wordOf arginfo) readArgInfo
  let (root, kernel) ← kernel.parseUSTARFromRawData caller info unmapped
  let cwd ← findCWD root info.pwd (programView (kernel.paging.pageDirs own.pageDirectory) kernel.memory unmapped)
  let kernel ← (kernel.copyFromTask caller parent packed info.packedArgv info.packedArgvSize).mapError .kernel
  let copied ← (readBytes (kernel.paging.pageDirs own.pageDirectory) kernel.memory packed
    info.packedArgvSize.toNat).mapError .kernel
  let (argc, argv) ← (Loader.unpackArgv info.packedArgvSize.toNat copied argv).mapError .arg
  let texts ← (Loader.argTexts copied argc argv).mapError .arg
  return (⟨root, cwd, argc, texts⟩, kernel)

def preMain (caller : Nat) (heapStart argPtr packed : UInt32) (argv : List (Option Nat)) (unmapped : Memory)
    (kernel : Kernel) : Except StartFault (Option Started × Kernel) := do
  let (kernel, val) ← (kernel.mapPage caller heapStart).mapError .kernel
  match val with
  | .unalignedAddr | .alreadyMapped | .oom => return (none, kernel)
  | .success => do
      let (started, kernel) ← kernel.runMain caller argPtr packed argv unmapped
      return (some started, kernel)

section Reading

variable {pd other : PageDirectory} {memory unmapped : Memory} {bytes : List UInt8} {vaddr : UInt32} {frame : Nat}

theorem wordOf_wordBytes (word : UInt32) : wordOf (wordBytes word) = word := by
  have bound := word.toNat_lt
  apply UInt32.toNat_inj.mp
  have second : (word >>> 8).toNat = word.toNat / 256 := by
    rw [UInt32.toNat_shiftRight]
    exact Nat.shiftRight_eq_div_pow _ 8
  have third : (word >>> 16).toNat = word.toNat / 65536 := by
    rw [UInt32.toNat_shiftRight]
    exact Nat.shiftRight_eq_div_pow _ 16
  have fourth : (word >>> 24).toNat = word.toNat / 16777216 := by
    rw [UInt32.toNat_shiftRight]
    exact Nat.shiftRight_eq_div_pow _ 24
  have value : (wordOf (wordBytes word)).toNat = (word.toNat % 256 + 256 * (word.toNat / 256 % 256) +
      65536 * (word.toNat / 65536 % 256) + 16777216 * (word.toNat / 16777216 % 256)) % 4294967296 := by
    rw [← second, ← third, ← fourth]
    exact UInt32.toNat_ofNat'
  rw [value]
  omega

theorem ArgInfo.ofBytes_bytes (info : ArgInfo) : ArgInfo.ofBytes info.bytes = info := by
  have first : info.bytes.take 4 = wordBytes info.rawVfsData := rfl
  have second : (info.bytes.drop 4).take 4 = wordBytes info.rawVfsDataOwner := rfl
  have third : (info.bytes.drop 8).take 4 = wordBytes info.packedArgv := rfl
  have fourth : (info.bytes.drop 12).take 4 = wordBytes info.packedArgvSize := rfl
  have fifth : (info.bytes.drop 16).take 4 = wordBytes info.pwd := rfl
  rw [ArgInfo.ofBytes, first, second, third, fourth, fifth]
  simp only [wordOf_wordBytes]

theorem readBytes_of_holds (holds : Holds pd memory vaddr bytes) :
    readBytes pd memory vaddr bytes.length = .ok bytes := by
  induction bytes generalizing vaddr with
  | nil => rfl
  | cons byte rest ih =>
      obtain ⟨⟨address, translated, rfl⟩, later⟩ := holds
      rw [List.length_cons, readBytes, translated, ok_bind, ih later, ok_bind]
      rfl

theorem holds_of_places (same : ∀ i (below : i < bytes.length), ∃ address,
      translate pd (vaddr + UInt32.ofNat i) = .ok address ∧ memory address = bytes[i]) :
    Holds pd memory vaddr bytes := by
  induction bytes generalizing vaddr with
  | nil => exact True.intro
  | cons byte rest ih =>
      have first := same 0 (Nat.zero_lt_succ _)
      rw [first_byte] at first
      refine ⟨first, ih ?_⟩
      intro i below
      have later := same (i + 1) (Nat.succ_lt_succ below)
      rw [← succ_byte] at later
      exact later

/-- Within one page, the program sees the bytes of the frame. -/
theorem programView_page (maps : frameOf (pd (pageIndex4M vaddr)) = some frame) {i : Nat}
    (inside : vaddr.toNat % 4194304 + i < 4194304) :
    programView pd memory unmapped (vaddr.toNat + i) = memory (frame * 4194304 + vaddr.toNat % 4194304 + i) := by
  have index := byte_index inside
  have translated : translate pd (vaddr + UInt32.ofNat i) =
      .ok (frame * 4194304 + (vaddr + UInt32.ofNat i).toNat % 4194304) :=
    translate_eq_ok.mpr ⟨frame, by rw [index]; exact maps, rfl⟩
  have sum : UInt32.ofNat (vaddr.toNat + i) = vaddr + UInt32.ofNat i := by
    rw [UInt32.ofNat_add, UInt32.ofNat_toNat]
  have address : frame * 4194304 + (vaddr + UInt32.ofNat i).toNat % 4194304 =
      frame * 4194304 + vaddr.toNat % 4194304 + i := by
    rw [byte_mod]
    omega
  rw [programView, sum, translated, address]

end Reading

section Pages

variable {kernel : Kernel} {caller owner frame : Nat} {own other : Task} {address : UInt32}

theorem page_offset {base : UInt32} (aligned : base % kPageSize4M = 0) (vaddr : UInt32) :
    pageIndex4M (base + vaddr % kPageSize4M) = pageIndex4M base ∧
      (base + vaddr % kPageSize4M).toNat % 4194304 = vaddr.toNat % 4194304 := by
  have bound := base.toNat_lt
  have start := (aligned_iff base).mp aligned
  have offset : (vaddr % kPageSize4M).toNat = vaddr.toNat % 4194304 := UInt32.toNat_mod vaddr kPageSize4M
  have sum : (base + vaddr % kPageSize4M).toNat = base.toNat + vaddr.toNat % 4194304 := by
    rw [UInt32.toNat_add, offset]
    exact Nat.mod_eq_of_lt (by omega)
  rw [pageIndex4M_eq, pageIndex4M_eq, sum]
  omega

theorem page_start (vaddr : UInt32) : (vaddr - vaddr % kPageSize4M) % kPageSize4M = 0 ∧
    pageIndex4M (vaddr - vaddr % kPageSize4M) = pageIndex4M vaddr := by
  have offset : (vaddr % kPageSize4M).toNat = vaddr.toNat % 4194304 := UInt32.toNat_mod vaddr kPageSize4M
  have below : vaddr % kPageSize4M ≤ vaddr := by
    rw [UInt32.le_iff_toNat_le, offset]
    exact Nat.mod_le _ _
  have difference : (vaddr - vaddr % kPageSize4M).toNat = vaddr.toNat - vaddr.toNat % 4194304 := by
    rw [UInt32.toNat_sub_of_le _ _ below, offset]
  rw [aligned_iff, pageIndex4M_eq, pageIndex4M_eq, difference]
  omega

theorem getNextFreeVirtualUser_finds {pd : PageDirPtr} {paging : Paging}
    (free : ∃ index, 256 ≤ index ∧ index < 1024 ∧ present (paging.pageDirs pd index) = false) :
    ∃ index < 1024, paging.getNextFreeVirtualUser pd = some (pageAddr4M index) ∧
      present (paging.pageDirs pd index) = false := by
  obtain ⟨index, above, below, absent⟩ := free
  have start : pageIndex4M userStart = 256 := by decide
  have listed : index ∈ List.range' 256 (kNumPageDirEntries - 256) :=
    List.mem_range'_1.mpr ⟨above, by rw [kNumPageDirEntries]; omega⟩
  cases found : (List.range' 256 (kNumPageDirEntries - 256)).find? fun index =>
    !present (paging.pageDirs pd index) with
  | none =>
      have isPresent := List.find?_eq_none.mp found index listed
      rw [absent] at isPresent
      exact absurd rfl isPresent
  | some first =>
      have member := List.mem_range'_1.mp (List.mem_of_find?_eq_some found)
      rw [kNumPageDirEntries] at member
      refine ⟨first, by omega, ?_, ?_⟩
      · rw [getNextFreeVirtualUser, start, found]
        rfl
      · simpa using List.find?_some found

/-- A mapped page of another task can be shared while some page of the caller is free. -/
theorem sharePage_succeeds (found : kernel.tasks caller = some own) (foundOther : kernel.tasks owner = some other)
    (isUser : other.isUserTask = true) (different : owner ≠ caller) (notKernel : own.pageDirectory ≠ .kernel)
    (free : ∃ index, 256 ≤ index ∧ index < 1024 ∧
      present (kernel.paging.pageDirs own.pageDirectory index) = false)
    (maps : frameOf (kernel.paging.pageDirs other.pageDirectory (pageIndex4M address)) = some frame)
    (used : kernel.paging.frameUsed frame = true) :
    ∃ paging dst,
      kernel.sharePage caller owner (address - address % kPageSize4M) = .ok ({ kernel with paging }, dst) ∧
      dst % kPageSize4M = 0 ∧ frameOf (paging.pageDirs own.pageDirectory (pageIndex4M dst)) = some frame := by
  obtain ⟨index, bound, next, absent⟩ := getNextFreeVirtualUser_finds free
  obtain ⟨aligned, sameIndex⟩ := page_start address
  obtain ⟨isPresent, isFrame⟩ := frameOf_eq_some.mp maps
  have dstIndex := pageIndex4M_pageAddr4M bound
  have dstAligned := pageAddr4M_aligned bound
  have getOther : kernel.getTask owner = .ok other := getTask_eq_ok.mpr foundOther
  have getOwn : kernel.getTask caller = .ok own := getTask_eq_ok.mpr found
  have paddr : kernel.paging.getPhysicalAddr other.pageDirectory (address - address % kPageSize4M) =
      .ok (kernel.paging.pageDirs other.pageDirectory (pageIndex4M address) &&& kPageMask4M) := by
    have allocated : kernel.paging.physicalBitmap.isPageFrameUsed
        (pageIndex4M (kernel.paging.pageDirs other.pageDirectory (pageIndex4M address))) = true := by
      rw [isFrame]
      exact used
    rw [getPhysicalAddr, require_of aligned, ok_bind]
    dsimp only
    rw [sameIndex, require_of isPresent, ok_bind, pageIndex4M_mask, require_of allocated, ok_bind]
    rfl
  obtain ⟨paging, added, installed⟩ := addPage_own_succeeds pgUser.toUInt8
    (fun isKernel => absurd isKernel notKernel)
    (mask_aligned (kernel.paging.pageDirs other.pageDirectory (pageIndex4M address))) dstAligned
    (fun (reuse : true = false) => absurd reuse Bool.noConfusion)
    (show present (kernel.paging.pageDirs own.pageDirectory (pageIndex4M (pageAddr4M index))) = false by
      rw [dstIndex]
      exact absent)
  refine ⟨paging, pageAddr4M index, ?_, dstAligned, ?_⟩
  · rw [sharePage, getOther, ok_bind, require_of isUser, ok_bind, require_of different, ok_bind, getOwn, ok_bind,
      next]
    dsimp only
    rw [require_of dstAligned, ok_bind, require_of aligned, ok_bind, paddr, ok_bind, added, ok_bind]
    rfl
  · rw [installed.pageDirs, if_pos ⟨Finset.mem_singleton_self _, rfl⟩, frameOf_pageEntry, pageIndex4M_mask, isFrame]

theorem Owned.isLive (owned : Owned kernel) (found : kernel.tasks owner = some other)
    (isUser : other.isUserTask = true) : other.pageDirectory ∈ kernel.paging.live := by
  have uses := owner_of found
  rw [isUser] at uses
  obtain ⟨slot, listed, isSlot⟩ := owned.userTasks owner _ uses
  rw [isSlot]
  exact region_mem_live.mpr listed

theorem counted_of_maps {paging : Paging} {pd : PageDirPtr} {index : Nat}
    (counted : ∀ frame < 1024, Counted paging frame) (isLive : pd ∈ paging.live) (bound : index < 1024)
    (maps : frameOf (paging.pageDirs pd index) = some frame) :
    frame < 1024 ∧ paging.frameUsed frame = true ∧ 0 < paging.count frame := by
  have small : frame < 1024 := by
    rw [← (frameOf_eq_some.mp maps).2]
    exact pageIndex4M_lt _
  have used : paging.frameUsed frame = true := by
    by_contra unused
    exact unmapped_of_mappings ((counted frame small).free (by simpa using unused)).1 isLive bound maps
  exact ⟨small, used, (counted frame small).used.mp used⟩

/-- What is read through a shared page only depends on its frame, and afterwards everything is as before. -/
theorem withPage_eq {α : Type} {use : PageDirectory → Memory → UInt32 → Except StartFault α} {value : α}
    (owned : Owned kernel) (tidy : Tidy kernel.paging) (counted : ∀ frame < 1024, Counted kernel.paging frame)
    (running : kernel.RunningUser caller) (found : kernel.tasks caller = some own)
    (foundOther : kernel.tasks owner = some other) (isUser : other.isUserTask = true) (different : owner ≠ caller)
    (free : ∃ index, 256 ≤ index ∧ index < 1024 ∧
      present (kernel.paging.pageDirs own.pageDirectory index) = false)
    (maps : frameOf (kernel.paging.pageDirs other.pageDirectory (pageIndex4M address)) = some frame)
    (room : kernel.paging.count frame < 65535)
    (reads : ∀ pd vaddr, frameOf (pd (pageIndex4M vaddr)) = some frame →
      vaddr.toNat % 4194304 = address.toNat % 4194304 → use pd kernel.memory vaddr = .ok value) :
    kernel.withPage caller owner address use = .ok (value, kernel) := by
  have used := (counted_of_maps counted (owned.isLive foundOther isUser) (pageIndex4M_lt address) maps).2.1
  obtain ⟨slot, _, uses, _⟩ := owned.caller running (getTask_eq_ok.mpr found)
  obtain ⟨paging, dst, shared, aligned, mapped⟩ := sharePage_succeeds found foundOther isUser different
    (by rw [uses]; exact PageDirPtr.noConfusion) free maps used
  have undone := unmapPage_undoes owned tidy counted running shared (by
    intro task paddr known translated
    obtain rfl := Option.some.inj (foundOther.symm.trans known)
    have same := getPhysicalAddr_eq_ok translated
    rw [(page_start address).2, maps] at same
    rw [← Option.some.inj same]
    exact room)
  have getOwn : Kernel.getTask { kernel with paging } caller = .ok own := getTask_eq_ok.mpr found
  obtain ⟨index, offset⟩ := page_offset aligned address
  have read := reads (paging.pageDirs own.pageDirectory) (dst + address % kPageSize4M) (by rw [index]; exact mapped)
    offset
  rw [withPage, shared, Except.mapError, ok_bind]
  dsimp only
  rw [getOwn, Except.mapError, ok_bind, read, ok_bind, undone, Except.mapError, ok_bind]
  rfl

end Pages

section Arguments

variable {kernel : Kernel} {caller handle : Nat} {own other : Task} {dst src size : UInt32} {bytes : List UInt8}

theorem Holds.place {pd : PageDirectory} {memory : Memory} {vaddr : UInt32} (holds : Holds pd memory vaddr bytes)
    {i : Nat} (below : i < bytes.length) :
    ∃ address, translate pd (vaddr + UInt32.ofNat i) = .ok address ∧ memory address = bytes[i] := by
  induction bytes generalizing vaddr i with
  | nil => exact absurd below (Nat.not_lt_zero i)
  | cons byte rest ih =>
      cases i with
      | zero =>
          rw [first_byte]
          exact holds.1
      | succ i =>
          rw [← succ_byte]
          exact ih holds.2 (Nat.lt_of_succ_lt_succ below)

structure StackRoom (kernel : Kernel) (own other : Task) (dst src : UInt32) (size : Nat) : Prop where
  mapped : present (kernel.paging.pageDirs own.pageDirectory (pageIndex4M dst)) = true
  page : dst.toNat % 4194304 + size ≤ 4194304
  temporary : present (kernel.paging.pageDirs own.pageDirectory (pageIndex4M tmpSharedTaskMemStart)) = false
  apart : frameOf (kernel.paging.pageDirs own.pageDirectory (pageIndex4M dst)) ≠
    frameOf (kernel.paging.pageDirs other.pageDirectory (pageIndex4M src))

theorem StackRoom.range (room : StackRoom kernel own other dst src bytes.length)
    (holds : Holds (kernel.paging.pageDirs other.pageDirectory) kernel.memory src bytes)
    (length : size.toNat = bytes.length) :
    kernel.CopyRange .otherToCurrent other.pageDirectory own.pageDirectory dst src size := by
  have index : ∀ i < size.toNat, pageIndex4M (dst + UInt32.ofNat i) = pageIndex4M dst := by
    intro i below
    have page := room.page
    exact byte_index (by omega)
  refine ⟨?_, ?_, ?_⟩
  · intro i below
    obtain ⟨address, translated, _⟩ := holds.place (length ▸ below)
    exact (translate_eq_place translated).1
  · intro i below
    rw [index i below]
    exact room.mapped
  · intro i below inside
    have same := (temporary_iff (dst + UInt32.ofNat i)).mp inside
    have mapped := room.mapped
    rw [← index i below, same, room.temporary] at mapped
    cases mapped

theorem StackRoom.fits (room : StackRoom kernel own other dst src bytes.length)
    (owned : Owned kernel) (counted : ∀ frame < 1024, Counted kernel.paging frame)
    (few : ∀ frame, frameOf (kernel.paging.pageDirs other.pageDirectory (pageIndex4M src)) = some frame →
      kernel.paging.count frame < 65535)
    (found : kernel.tasks handle = some other) (isUser : other.isUserTask = true)
    (holds : Holds (kernel.paging.pageDirs other.pageDirectory) kernel.memory src bytes)
    (length : size.toNat = bytes.length) (page : src.toNat % 4194304 + bytes.length ≤ 4194304) (nonempty : size ≠ 0) :
    kernel.CopyFits .otherToCurrent other.pageDirectory own.pageDirectory dst src size := by
  have range := room.range holds length
  have mapped : present (kernel.paging.pageDirs other.pageDirectory (pageIndex4M src)) = true :=
    range.taskPresent nonempty
  have maps := frameOf_eq_some.mpr ⟨mapped, rfl⟩
  obtain ⟨_, used, positive⟩ := counted_of_maps counted (owned.isLive found isUser) (pageIndex4M_lt src) maps
  refine (copyFits_page range (by rw [length]; exact page)).mpr ⟨⟨room.temporary, used, positive, few _ maps⟩, ?_⟩
  intro i j before below same
  have stackPage := room.page
  have frames := frameOf_of_place (range.target i (by omega)) (range.source j below) same
  rw [Direction.target, Direction.source, byte_index (by omega), byte_index (by omega)] at frames
  exact room.apart frames

/-- The bytes of the other task arrive, and no other mapped byte changes. -/
theorem copyFromTask_arrives (room : StackRoom kernel own other dst src bytes.length)
    (owned : Owned kernel) (tidy : Tidy kernel.paging) (counted : ∀ frame < 1024, Counted kernel.paging frame)
    (few : ∀ frame, frameOf (kernel.paging.pageDirs other.pageDirectory (pageIndex4M src)) = some frame →
      kernel.paging.count frame < 65535)
    (foundOwn : kernel.tasks caller = some own) (ownUser : own.isUserTask = true)
    (found : kernel.tasks handle = some other) (isUser : other.isUserTask = true) (different : handle ≠ caller)
    (holds : Holds (kernel.paging.pageDirs other.pageDirectory) kernel.memory src bytes)
    (length : size.toNat = bytes.length) (page : src.toNat % 4194304 + bytes.length ≤ 4194304) :
    ∃ memory, kernel.copyFromTask caller handle dst src size = .ok { kernel with memory } ∧
      Holds (kernel.paging.pageDirs own.pageDirectory) memory dst bytes ∧
      ∀ pd ∈ kernel.paging.live, ∀ index < 1024, ∀ address,
        frameOf (kernel.paging.pageDirs pd index) = some (address / 4194304) →
        (∀ i < bytes.length,
          translate (kernel.paging.pageDirs own.pageDirectory) (dst + UInt32.ofNat i) ≠ .ok address) →
        memory address = kernel.memory address := by
  have contract : kernel.CopyContract .otherToCurrent other.pageDirectory own.pageDirectory dst src size := by
    by_cases empty : size = 0
    · rw [empty]
      exact copyContract_empty ..
    · exact (room.fits owned counted few found isUser holds length page empty).contract tidy
        (owned.isLive foundOwn ownUser) (room.range holds length) empty
  obtain ⟨memory, run, arrived, kept⟩ := contract
  refine ⟨memory, ?_, ?_, ?_⟩
  · rw [copyFromTask_other found isUser foundOwn different]
    exact run
  · refine holds_of_places ?_
    intro i below
    obtain ⟨source, target, fromSource, toTarget, same⟩ := arrived i (by rw [length]; exact below)
    obtain ⟨address, translated, isByte⟩ := holds.place below
    obtain rfl : source = address := Except.ok.inj (fromSource.symm.trans translated)
    exact ⟨target, toTarget, same.trans isByte⟩
  · intro pd isLive index bound address maps untouched
    refine kept pd isLive index bound address maps ?_
    intro i below
    exact untouched i (length ▸ below)

end Arguments

/-- What `LoadElfProgram` leaves for the child: the address of the `ArgInfo` on the stack of the child, the
`ArgInfo` and the packed arguments in the parent, and the archive in the task that owns it, each within one page.
No caller of `LoadElfProgram` names a working directory. -/
structure Handover (kernel : Kernel) (own parent owner : Task) (argPtr arginfo : UInt32) (info : ArgInfo)
    (texts : List (List UInt8)) (records : List Vfs.Record) (unmapped : Memory) : Prop where
  argument : Holds (kernel.paging.pageDirs own.pageDirectory) kernel.memory argPtr (wordBytes arginfo)
  members : Holds (kernel.paging.pageDirs parent.pageDirectory) kernel.memory arginfo info.bytes
  membersPage : arginfo.toNat % 4194304 + 20 ≤ 4194304
  packed : Holds (kernel.paging.pageDirs parent.pageDirectory) kernel.memory info.packedArgv (Loader.flat texts)
  packedPage : info.packedArgv.toNat % 4194304 + (Loader.flat texts).length ≤ 4194304
  packedSize : info.packedArgvSize.toNat = (Loader.flat texts).length
  visible : ∀ text ∈ texts, 0 ∉ text
  archive : Vfs.ArchiveAt (programView (kernel.paging.pageDirs owner.pageDirectory) kernel.memory unmapped)
    info.rawVfsData.toNat records
  archivePage : info.rawVfsData.toNat % 4194304 + Vfs.archiveSize records ≤ 4194304
  archiveMapped : present (kernel.paging.pageDirs owner.pageDirectory (pageIndex4M info.rawVfsData)) = true
  plain : ∀ record ∈ records, record.namePrefix = [] ∧ ¬record.IsEmptyFile ∧ record.name.length < 100
  pwd : info.pwd = 0

structure Relatives (kernel : Kernel) (caller parent owner : Nat) (own parentTask ownerTask : Task) : Prop where
  running : kernel.RunningUser caller
  foundOwn : kernel.tasks caller = some own
  isChild : own.parent = some parent
  foundParent : kernel.tasks parent = some parentTask
  parentUser : parentTask.isUserTask = true
  parentOther : parent ≠ caller
  foundOwner : kernel.tasks owner = some ownerTask
  ownerUser : ownerTask.isUserTask = true
  ownerOther : owner ≠ caller

structure CountsFit (paging : Paging) (parentTask ownerTask : Task) (arginfo : UInt32) (info : ArgInfo) : Prop where
  counted : ∀ frame < 1024, Counted paging frame
  members : ∀ frame, frameOf (paging.pageDirs parentTask.pageDirectory (pageIndex4M arginfo)) = some frame →
    paging.count frame < 65535
  packed : ∀ frame, frameOf (paging.pageDirs parentTask.pageDirectory (pageIndex4M info.packedArgv)) = some frame →
    paging.count frame < 65535
  archive : ∀ frame, frameOf (paging.pageDirs ownerTask.pageDirectory (pageIndex4M info.rawVfsData)) = some frame →
    paging.count frame < 65535

section Start

variable {kernel : Kernel} {caller parent : Nat} {own parentTask ownerTask : Task}
  {argPtr arginfo packed : UInt32} {info : ArgInfo} {texts : List (List UInt8)} {records : List Vfs.Record}
  {unmapped : Memory} {root : Vfs.Node} {argv : List (Option Nat)}

theorem Relatives.ownUser {owner : Nat} (relatives : Relatives kernel caller parent owner own parentTask ownerTask) :
    own.isUserTask = true := by
  obtain ⟨task, found, isUser, _⟩ := relatives.running
  obtain rfl := Option.some.inj (relatives.foundOwn.symm.trans found)
  exact isUser

theorem readArgInfo_shared {pd : PageDirectory} {memory : Memory} {frame : Nat}
    (members : Holds pd memory arginfo info.bytes) (page : arginfo.toNat % 4194304 + 20 ≤ 4194304)
    (maps : frameOf (pd (pageIndex4M arginfo)) = some frame) :
    ∀ other vaddr, frameOf (other (pageIndex4M vaddr)) = some frame →
      vaddr.toNat % 4194304 = arginfo.toNat % 4194304 → readArgInfo other memory vaddr = .ok info := by
  intro other vaddr mapped offset
  have length : info.bytes.length = 20 := rfl
  have moved := (members.moved maps page length offset.symm mapped).of_restrict
  have read := readBytes_of_holds moved
  rw [length] at read
  rw [readArgInfo, read, Except.mapError, ok_bind, ArgInfo.ofBytes_bytes]
  rfl

theorem archive_shared
    (handover : Handover kernel own parentTask ownerTask argPtr arginfo info texts records unmapped)
    (parsed : Vfs.parseUSTAR (programView (kernel.paging.pageDirs ownerTask.pageDirectory) kernel.memory unmapped)
      info.rawVfsData.toNat = .ok root) {frame : Nat}
    (maps : frameOf (kernel.paging.pageDirs ownerTask.pageDirectory (pageIndex4M info.rawVfsData)) = some frame) :
    ∀ other vaddr, frameOf (other (pageIndex4M vaddr)) = some frame →
      vaddr.toNat % 4194304 = info.rawVfsData.toNat % 4194304 →
      (Vfs.parseUSTAR (programView other kernel.memory unmapped) vaddr.toNat).mapError StartFault.vfs = .ok root := by
  intro other vaddr mapped offset
  have page := handover.archivePage
  have bound := vaddr.toNat_lt
  have sameBytes : ∀ i < Vfs.archiveSize records, programView other kernel.memory unmapped (vaddr.toNat + i) =
      programView (kernel.paging.pageDirs ownerTask.pageDirectory) kernel.memory unmapped
        (info.rawVfsData.toNat + i) := by
    intro i below
    rw [programView_page mapped (by omega), programView_page maps (by omega), offset]
  have same := Vfs.parseUSTAR_moved handover.archive (fun record member => (handover.plain record member).1)
    (fun record member => (handover.plain record member).2.1)
    (fun record member => (handover.plain record member).2.2) (by omega) sameBytes
  rw [same, parsed]
  rfl

/-- A child that has its heap gets the archive, the working directory and the arguments. -/
theorem runMain_hands_over (owned : Owned kernel) (tidy : Tidy kernel.paging)
    (fits : CountsFit kernel.paging parentTask ownerTask arginfo info)
    (relatives : Relatives kernel caller parent info.rawVfsDataOwner.toNat own parentTask ownerTask)
    (free : ∃ index, 256 ≤ index ∧ index < 1024 ∧
      present (kernel.paging.pageDirs own.pageDirectory index) = false)
    (handover : Handover kernel own parentTask ownerTask argPtr arginfo info texts records unmapped)
    (parsed : Vfs.parseUSTAR (programView (kernel.paging.pageDirs ownerTask.pageDirectory) kernel.memory unmapped)
      info.rawVfsData.toNat = .ok root)
    (room : StackRoom kernel own parentTask packed info.packedArgv (Loader.flat texts).length)
    (slots : texts.length ≤ argv.length) :
    ∃ memory, kernel.runMain caller argPtr packed argv unmapped =
        .ok (⟨root, [], texts.length, texts⟩, { kernel with memory }) ∧
      ∀ pd ∈ kernel.paging.live, ∀ index < 1024, ∀ address,
        frameOf (kernel.paging.pageDirs pd index) = some (address / 4194304) →
        (∀ i < (Loader.flat texts).length,
          translate (kernel.paging.pageDirs own.pageDirectory) (packed + UInt32.ofNat i) ≠ .ok address) →
        memory address = kernel.memory address := by
  have getOwn : kernel.getTask caller = .ok own := getTask_eq_ok.mpr relatives.foundOwn
  have argument := readBytes_of_holds handover.argument
  obtain ⟨frame, maps⟩ : ∃ frame, frameOf (kernel.paging.pageDirs parentTask.pageDirectory
      (pageIndex4M arginfo)) = some frame := by
    obtain ⟨address, translated, _⟩ := handover.members.place (show 0 < info.bytes.length from Nat.zero_lt_succ 19)
    rw [first_byte] at translated
    obtain ⟨frame, maps, _⟩ := translate_eq_ok.mp translated
    exact ⟨frame, maps⟩
  have members : kernel.withPage caller parent arginfo readArgInfo = .ok (info, kernel) :=
    withPage_eq owned tidy fits.counted relatives.running relatives.foundOwn relatives.foundParent
      relatives.parentUser relatives.parentOther free maps (fits.members frame maps)
      (readArgInfo_shared handover.members handover.membersPage maps)
  have archiveMaps : frameOf (kernel.paging.pageDirs ownerTask.pageDirectory (pageIndex4M info.rawVfsData)) =
      some (pageIndex4M (kernel.paging.pageDirs ownerTask.pageDirectory (pageIndex4M info.rawVfsData))) :=
    frameOf_eq_some.mpr ⟨handover.archiveMapped, rfl⟩
  have tree : kernel.parseUSTARFromRawData caller info unmapped = .ok (root, kernel) :=
    withPage_eq owned tidy fits.counted relatives.running relatives.foundOwn relatives.foundOwner
      relatives.ownerUser relatives.ownerOther free archiveMaps (fits.archive _ archiveMaps)
      (archive_shared handover parsed archiveMaps)
  obtain ⟨memory, copied, arrived, kept⟩ := copyFromTask_arrives room owned tidy fits.counted fits.packed
    relatives.foundOwn relatives.ownUser relatives.foundParent relatives.parentUser relatives.parentOther
    handover.packed handover.packedSize handover.packedPage
  have read := readBytes_of_holds arrived
  have unpacked := Loader.unpackLoop_eq handover.visible [] [] argv (Nat.zero_add _).symm
    (Nat.lt_succ_self (Loader.flat texts).length) slots
  have found := Loader.argTexts_eq handover.visible [] (argv.drop texts.length)
  rw [List.append_nil] at found
  simp only [List.length_nil, Nat.zero_add, List.nil_append] at unpacked
  have vector : Loader.unpackArgv (Loader.flat texts).length (Loader.flat texts) argv =
      .ok (texts.length, Loader.offsets 0 texts ++ argv.drop texts.length) := unpacked
  have cwd (view : Memory) : findCWD root info.pwd view = .ok [] := by
    rw [findCWD, if_pos handover.pwd]
    rfl
  refine ⟨memory, ?_, kept⟩
  rw [wordBytes_length] at argument
  rw [runMain, getOwn, Except.mapError, ok_bind, relatives.isChild]
  dsimp only
  rw [argument, Except.mapError, ok_bind, wordOf_wordBytes, members, ok_bind]
  dsimp only
  rw [tree, ok_bind]
  dsimp only
  rw [cwd, ok_bind, copied, Except.mapError, ok_bind]
  dsimp only
  rw [handover.packedSize, read, Except.mapError, ok_bind, vector, Except.mapError, ok_bind]
  dsimp only
  rw [found, Except.mapError, ok_bind]
  rfl

end Start

structure HeapRoom (kernel : Kernel) (own : Task) (heapStart : UInt32) : Prop where
  aligned : heapStart % kPageSize4M = 0
  user : 256 ≤ pageIndex4M heapStart
  unmapped : present (kernel.paging.pageDirs own.pageDirectory (pageIndex4M heapStart)) = false
  spare : ∃ index, 256 ≤ index ∧ index < 1024 ∧ index ≠ pageIndex4M heapStart ∧
    present (kernel.paging.pageDirs own.pageDirectory index) = false
  frame : ∃ frame, 1 ≤ frame ∧ frame < 1024 ∧ kernel.paging.frameUsed frame = false

/-- A kernel in some run, while the programs write to their own memory. -/
def InUse (kernel : Kernel) : Prop :=
  ∃ reached, (runs fun _ _ => True).Reachable reached ∧ kernel = { reached with memory := kernel.memory }

section Heap

variable {kernel : Kernel} {paging : Paging} {caller parent owner frame : Nat} {own parentTask ownerTask : Task}
  {heapStart argPtr arginfo packed : UInt32} {info : ArgInfo} {texts : List (List UInt8)}
  {records : List Vfs.Record} {unmapped : Memory}

theorem InUse.owned (inUse : kernel.InUse) : Owned kernel ∧ Tidy kernel.paging := by
  obtain ⟨reached, reachable, same⟩ := inUse
  obtain ⟨owned, tidy⟩ := reachable_tidy reachable
  rw [same]
  exact ⟨owned.congr rfl (fun _ => rfl) rfl, tidy⟩

theorem Relatives.apart (relatives : Relatives kernel caller parent owner own parentTask ownerTask)
    (owned : Owned kernel) : parentTask.pageDirectory ≠ own.pageDirectory ∧
      ownerTask.pageDirectory ≠ own.pageDirectory := by
  have uses := owner_of relatives.foundOwn
  have parentUses := owner_of relatives.foundParent
  have ownerUses := owner_of relatives.foundOwner
  rw [relatives.ownUser] at uses
  rw [relatives.parentUser] at parentUses
  rw [relatives.ownerUser] at ownerUses
  constructor
  · intro same
    rw [same] at parentUses
    exact relatives.parentOther (owned.distinct _ _ _ parentUses uses)
  · intro same
    rw [same] at ownerUses
    exact relatives.ownerOther (owned.distinct _ _ _ ownerUses uses)

theorem Relatives.withHeap (relatives : Relatives kernel caller parent owner own parentTask ownerTask) :
    Relatives { kernel with paging } caller parent owner own parentTask ownerTask :=
  ⟨relatives.running, relatives.foundOwn, relatives.isChild, relatives.foundParent, relatives.parentUser,
    relatives.parentOther, relatives.foundOwner, relatives.ownerUser, relatives.ownerOther⟩

theorem CountsFit.withHeap {pd : PageDirPtr} {index : Nat} {entry : UInt32}
    (fits : CountsFit kernel.paging parentTask ownerTask arginfo info)
    (installed : Installed kernel.paging paging {pd} index entry frame) (isLive : pd ∈ kernel.paging.live)
    (bound : index < 1024) (maps : frameOf entry = some frame) (zero : kernel.paging.count frame = 0)
    (sameParent : paging.pageDirs parentTask.pageDirectory = kernel.paging.pageDirs parentTask.pageDirectory)
    (sameOwner : paging.pageDirs ownerTask.pageDirectory = kernel.paging.pageDirs ownerTask.pageDirectory) :
    CountsFit paging parentTask ownerTask arginfo info := by
  have listed : {pd} ⊆ kernel.paging.live := Finset.singleton_subset_iff.mpr isLive
  have few : ∀ other, kernel.paging.count other < 65535 → paging.count other < 65535 := by
    intro other small
    rw [installed.count]
    split
    · rename_i same
      rw [same, zero, Finset.card_singleton]
      decide
    · exact small
  refine ⟨?_, ?_, ?_, ?_⟩
  · intro other small
    refine installed.counted (fits.counted other small) listed (Finset.singleton_nonempty pd) bound maps ?_
    have before := (fits.counted other small).count
    have limit := kernel.paging.physicalBitmap.count_lt other
    change kernel.paging.count other < 65536 at limit
    rw [installed.mappings listed bound maps other]
    split
    · rename_i same
      rw [same, zero] at before
      rw [same, Finset.card_singleton]
      omega
    · omega
  · rw [sameParent]
    exact fun other mapped => few other (fits.members other mapped)
  · rw [sameParent]
    exact fun other mapped => few other (fits.packed other mapped)
  · rw [sameOwner]
    exact fun other mapped => few other (fits.archive other mapped)

/-- The page of the heap changes nothing of what the child reads. -/
theorem Handover.withHeap
    (handover : Handover kernel own parentTask ownerTask argPtr arginfo info texts records unmapped)
    (entries : ∀ index, present (kernel.paging.pageDirs own.pageDirectory index) = true →
      paging.pageDirs own.pageDirectory index = kernel.paging.pageDirs own.pageDirectory index)
    (sameParent : paging.pageDirs parentTask.pageDirectory = kernel.paging.pageDirs parentTask.pageDirectory)
    (sameOwner : paging.pageDirs ownerTask.pageDirectory = kernel.paging.pageDirs ownerTask.pageDirectory) :
    Handover { kernel with paging } own parentTask ownerTask argPtr arginfo info texts records unmapped := by
  constructor
  · exact handover.argument.kept (fun index _ isPresent => entries index isPresent) fun _ _ _ _ _ _ => rfl
  · change Holds (paging.pageDirs parentTask.pageDirectory) kernel.memory arginfo info.bytes
    rw [sameParent]
    exact handover.members
  · exact handover.membersPage
  · change Holds (paging.pageDirs parentTask.pageDirectory) kernel.memory info.packedArgv (Loader.flat texts)
    rw [sameParent]
    exact handover.packed
  · exact handover.packedPage
  · exact handover.packedSize
  · exact handover.visible
  · change Vfs.ArchiveAt (programView (paging.pageDirs ownerTask.pageDirectory) kernel.memory unmapped)
      info.rawVfsData.toNat records
    rw [sameOwner]
    exact handover.archive
  · exact handover.archivePage
  · change present (paging.pageDirs ownerTask.pageDirectory (pageIndex4M info.rawVfsData)) = true
    rw [sameOwner]
    exact handover.archiveMapped
  · exact handover.plain
  · exact handover.pwd

theorem StackRoom.withHeap {size : Nat} {src : UInt32} (room : StackRoom kernel own parentTask packed src size)
    (entries : ∀ index, present (kernel.paging.pageDirs own.pageDirectory index) = true →
      paging.pageDirs own.pageDirectory index = kernel.paging.pageDirs own.pageDirectory index)
    (sameTemporary : paging.pageDirs own.pageDirectory (pageIndex4M tmpSharedTaskMemStart) =
      kernel.paging.pageDirs own.pageDirectory (pageIndex4M tmpSharedTaskMemStart))
    (sameParent : paging.pageDirs parentTask.pageDirectory = kernel.paging.pageDirs parentTask.pageDirectory) :
    StackRoom { kernel with paging } own parentTask packed src size := by
  constructor
  · change present (paging.pageDirs own.pageDirectory (pageIndex4M packed)) = true
    rw [entries _ room.mapped]
    exact room.mapped
  · exact room.page
  · change present (paging.pageDirs own.pageDirectory (pageIndex4M tmpSharedTaskMemStart)) = false
    rw [sameTemporary]
    exact room.temporary
  · change frameOf (paging.pageDirs own.pageDirectory (pageIndex4M packed)) ≠
      frameOf (paging.pageDirs parentTask.pageDirectory (pageIndex4M src))
    rw [entries _ room.mapped, sameParent]
    exact room.apart

theorem preMain_unmapped {argv : List (Option Nat)} {val : MapResult}
    (answered : kernel.mapPage caller heapStart = .ok (kernel, val)) (failed : val ≠ .success) :
    kernel.preMain caller heapStart argPtr packed argv unmapped = .ok (none, kernel) := by
  rw [preMain, answered, Except.mapError, ok_bind]
  dsimp only
  cases val with
  | success => exact absurd rfl failed
  | unalignedAddr => rfl
  | alreadyMapped => rfl
  | oom => rfl

end Heap

/-- A program gets the page of its heap, the tree that the owner of the archive sees and the arguments of its
parent, through pages that are gone afterwards; nothing else that is mapped changes. When the page of the heap
is not to be had, `main` is not called. -/
theorem preMain_hands_over (kernel : Kernel) (inUse : kernel.InUse) :
    (∀ caller parent own parentTask ownerTask heapStart argPtr arginfo packed info texts records unmapped root argv,
      CountsFit kernel.paging parentTask ownerTask arginfo info →
      Relatives kernel caller parent info.rawVfsDataOwner.toNat own parentTask ownerTask →
      HeapRoom kernel own heapStart →
      Handover kernel own parentTask ownerTask argPtr arginfo info texts records unmapped →
      Vfs.parseUSTAR (programView (kernel.paging.pageDirs ownerTask.pageDirectory) kernel.memory unmapped)
        info.rawVfsData.toNat = .ok root →
      StackRoom kernel own parentTask packed info.packedArgv (Loader.flat texts).length →
      texts.length ≤ argv.length →
      ∃ paging memory frame, kernel.preMain caller heapStart argPtr packed argv unmapped =
          .ok (some ⟨root, [], texts.length, texts⟩, { kernel with paging, memory }) ∧
        NewUserPage kernel.paging paging own.pageDirectory heapStart frame ∧
        ∀ pd ∈ paging.live, ∀ index < 1024, ∀ address,
          frameOf (paging.pageDirs pd index) = some (address / 4194304) →
          (∀ i < (Loader.flat texts).length,
            translate (paging.pageDirs own.pageDirectory) (packed + UInt32.ofNat i) ≠ .ok address) →
          memory address = kernel.memory address) ∧
    ∀ caller own heapStart argPtr packed argv unmapped, kernel.tasks caller = some own →
      heapStart % kPageSize4M ≠ 0 ∨ kernel.paging.isVirtualMapped own.pageDirectory heapStart = true →
      kernel.preMain caller heapStart argPtr packed argv unmapped = .ok (none, kernel) := by
  refine ⟨?_, ?_⟩
  · intro caller parent own parentTask ownerTask heapStart argPtr arginfo packed info texts records unmapped root
      argv fits relatives heapRoom handover parsed room slots
    obtain ⟨owned, tidy⟩ := inUse.owned
    obtain ⟨frame, lowest⟩ : ∃ frame, kernel.paging.LowestFree frame := by
      rcases lowestFree_or_full kernel.paging with found | full
      · exact found
      · obtain ⟨free, positive, bound, unused⟩ := heapRoom.frame
        rw [full free positive bound] at unused
        cases unused
    have zero := (fits.counted frame lowest.bound).unreferenced lowest.free
    have isLive := owned.isLive relatives.foundOwn relatives.ownUser
    obtain ⟨paging, mapped, installed⟩ := mapPage_lowest owned relatives.running relatives.foundOwn
      heapRoom.aligned heapRoom.unmapped lowest
    have maps : frameOf (pageEntry (UInt32.ofNat frame * kPageSize4M) pgUser.toUInt8) = some frame := by
      rw [frameOf_pageEntry, pageIndex4M_pageAddress lowest.bound]
    have kept : ∀ pd index, ¬(pd = own.pageDirectory ∧ index = pageIndex4M heapStart) →
        paging.pageDirs pd index = kernel.paging.pageDirs pd index :=
      (installed.newUserPage lowest zero).others
    obtain ⟨parentApart, ownerApart⟩ := relatives.apart owned
    have sameParent : paging.pageDirs parentTask.pageDirectory = kernel.paging.pageDirs parentTask.pageDirectory :=
      funext fun index => kept _ index fun same => parentApart same.1
    have sameOwner : paging.pageDirs ownerTask.pageDirectory = kernel.paging.pageDirs ownerTask.pageDirectory :=
      funext fun index => kept _ index fun same => ownerApart same.1
    have entries : ∀ index, present (kernel.paging.pageDirs own.pageDirectory index) = true →
        paging.pageDirs own.pageDirectory index = kernel.paging.pageDirs own.pageDirectory index := by
      intro index isPresent
      refine kept _ index ?_
      rintro ⟨_, rfl⟩
      rw [heapRoom.unmapped] at isPresent
      cases isPresent
    have sameTemporary : paging.pageDirs own.pageDirectory (pageIndex4M tmpSharedTaskMemStart) =
        kernel.paging.pageDirs own.pageDirectory (pageIndex4M tmpSharedTaskMemStart) := by
      have user := heapRoom.user
      have temporary : pageIndex4M tmpSharedTaskMemStart = 5 := by decide
      exact kept _ _ (by omega)
    have free : ∃ index, 256 ≤ index ∧ index < 1024 ∧ present (paging.pageDirs own.pageDirectory index) = false := by
      obtain ⟨index, above, below, different, absent⟩ := heapRoom.spare
      refine ⟨index, above, below, ?_⟩
      rw [kept _ _ fun same => different same.2]
      exact absent
    have newOwned : Owned { kernel with paging } := owned.congr (slots_congr installed.region) (fun _ => rfl) rfl
    obtain ⟨memory, run, rest⟩ := runMain_hands_over newOwned (installed.tidy tidy (present_pageEntry _ _))
      (fits.withHeap installed isLive (pageIndex4M_lt _) maps zero sameParent sameOwner)
      relatives.withHeap
      free (handover.withHeap entries sameParent sameOwner) (by rw [sameOwner]; exact parsed)
      (room.withHeap entries sameTemporary sameParent) slots
    refine ⟨paging, memory, frame, ?_, installed.newUserPage lowest zero, rest⟩
    rw [preMain, mapped, Except.mapError, ok_bind]
    dsimp only
    rw [run, ok_bind]
    rfl
  · intro caller own heapStart argPtr packed argv unmapped found blocked
    by_cases aligned : heapStart % kPageSize4M = 0
    · exact preMain_unmapped (mapPage_mapped found aligned (blocked.resolve_left (not_not.mpr aligned)))
        MapResult.noConfusion
    · exact preMain_unmapped (mapPage_unaligned aligned) MapResult.noConfusion

def smallInfo : ArgInfo where
  rawVfsData := 0x40002000
  rawVfsDataOwner := 1
  packedArgv := 0x40003000
  packedArgvSize := 2
  pwd := 0

def handedMemory (stack : Nat) : Memory := fun address =>
  if stack * 4194304 + 4194300 ≤ address ∧ address < stack * 4194304 + 4194304 then
    (wordBytes 0x40001000).getD (address - (stack * 4194304 + 4194300)) 0
  else if 4096 ≤ address ∧ address < 4116 then smallInfo.bytes.getD (address - 4096) 0
  else if address = 12288 then 97
  else 0

theorem handedMemory_handover {kernel : Kernel} {own parent : Task} {stack : Nat}
    (ownStack : frameOf (kernel.paging.pageDirs own.pageDirectory 3) = some stack)
    (code : frameOf (kernel.paging.pageDirs parent.pageDirectory 256) = some 0) (unmapped : Memory) :
    Handover { kernel with memory := handedMemory stack } own parent parent (userSharedSpaceEnd - 4) 0x40001000
      smallInfo [[97]] [] unmapped := by
  have argPage : pageIndex4M (userSharedSpaceEnd - 4) = 3 := by decide
  have argOffset : (userSharedSpaceEnd - 4).toNat % 4194304 = 4194300 := by decide
  have infoPage : pageIndex4M 0x40001000 = 256 := by decide
  have infoOffset : (0x40001000 : UInt32).toNat % 4194304 = 4096 := by decide
  have argvPage : pageIndex4M smallInfo.packedArgv = 256 := by decide
  have argvOffset : smallInfo.packedArgv.toNat % 4194304 = 12288 := by decide
  have dataPage : pageIndex4M smallInfo.rawVfsData = 256 := by decide
  have dataOffset : smallInfo.rawVfsData.toNat % 4194304 = 8192 := by decide
  have length : smallInfo.bytes.length = 20 := rfl
  constructor
  · refine holds_page (by rw [argPage]; exact ownStack) (by rw [argOffset, wordBytes_length]) ?_
    intro i below
    rw [wordBytes_length] at below
    rw [argOffset]
    change handedMemory stack _ = _
    rw [handedMemory, if_pos (by omega), Nat.add_sub_cancel_left, List.getD_eq_getElem]
  · refine holds_page (by rw [infoPage]; exact code) (by rw [infoOffset, length]; decide) ?_
    intro i below
    rw [length] at below
    rw [infoOffset, Nat.zero_mul, Nat.zero_add]
    change handedMemory stack _ = _
    rw [handedMemory, if_neg (by omega), if_pos (by omega), Nat.add_sub_cancel_left, List.getD_eq_getElem]
  · decide
  · refine holds_page (by rw [argvPage]; exact code) (by rw [argvOffset]; decide) ?_
    intro i below
    rw [argvOffset, Nat.zero_mul, Nat.zero_add]
    change handedMemory stack _ = _
    have small : i < 2 := below
    rw [handedMemory, if_neg (by omega), if_neg (by omega)]
    obtain rfl | rfl : i = 0 ∨ i = 1 := by omega
    · rfl
    · rfl
  · decide
  · rfl
  · decide
  · refine ⟨by decide, ?_⟩
    intro offset below
    rw [programView_page (by rw [dataPage]; exact code) (by omega), dataOffset, Nat.zero_mul, Nat.zero_add]
    change handedMemory stack _ = _
    rw [handedMemory, if_neg (by omega), if_neg (by omega), if_neg (by omega)]
  · decide
  · rw [dataPage]
    exact (frameOf_eq_some.mp code).1
  · intro record member
    cases member
  · rfl

/-- The child of the first user task, with "a" as its argument. -/
theorem preMain_hands_over_child : ∃ kernel : Kernel, kernel.InUse ∧ ∃ paging memory frame,
    kernel.preMain 2 0x40400000 (userSharedSpaceEnd - 4) 0xC01000 (List.replicate Loader.argMax none) (fun _ => 1) =
      .ok (some ⟨Vfs.rootDirectory, [], 1, [[97]]⟩, { kernel with paging, memory }) ∧
    NewUserPage kernel.paging paging (.region 1) 0x40400000 frame := by
  have passed : replayTest KeepsPrivate twoTasks (fun kernel =>
      decide (kernel.RunningUser 2 ∧
        (kernel.tasks 2).map (fun task => (task.pageDirectory, task.parent)) = some (.region 1, some 1) ∧
        (kernel.tasks 1).map (fun task => (task.pageDirectory, task.isUserTask)) = some (.region 0, true) ∧
        frameOf (kernel.paging.pageDirs (.region 0) 256) = some 0 ∧
        frameOf (kernel.paging.pageDirs (.region 1) 3) = some 5 ∧
        present (kernel.paging.pageDirs (.region 1) 5) = false ∧
        present (kernel.paging.pageDirs (.region 1) 257) = false ∧
        present (kernel.paging.pageDirs (.region 1) 258) = false ∧ kernel.paging.frameUsed 7 = false ∧
        kernel.paging.count 0 < 65535)) = true := by
    decide +kernel
  obtain ⟨reached, reachable, tested⟩ := replayTest_reachable _ _ passed
  obtain ⟨running, ownFacts, parentFacts, code, stack, temporary, heap, spare, free, few⟩ :=
    of_decide_eq_true tested
  obtain ⟨own, foundOwn, isOwn⟩ := Option.map_eq_some_iff.mp ownFacts
  obtain ⟨ownUses, isChild⟩ := Prod.mk.inj isOwn
  obtain ⟨parent, foundParent, isParent⟩ := Option.map_eq_some_iff.mp parentFacts
  obtain ⟨parentUses, parentUser⟩ := Prod.mk.inj isParent
  have inUse : InUse { reached with memory := handedMemory 5 } := ⟨reached, reachable_of_runs reachable, rfl⟩
  rw [← ownUses] at stack temporary heap spare
  rw [← parentUses] at code
  have handover := handedMemory_handover stack code (fun _ => 1)
  have parentPage : ∀ {vaddr : UInt32}, pageIndex4M vaddr = 256 → ∀ frame,
      frameOf (reached.paging.pageDirs parent.pageDirectory (pageIndex4M vaddr)) = some frame →
      reached.paging.count frame < 65535 := by
    intro vaddr index frame maps
    rw [index, code] at maps
    rw [← Option.some.inj maps]
    exact few
  have fits : CountsFit reached.paging parent parent 0x40001000 smallInfo :=
    ⟨(reachable_isolated reachable).2.counted, parentPage (by decide), parentPage (by decide), parentPage (by decide)⟩
  have heapIndex : pageIndex4M 0x40400000 = 257 := by decide
  have tree : Vfs.parseUSTAR (programView (reached.paging.pageDirs parent.pageDirectory) (handedMemory 5) fun _ => 1)
      smallInfo.rawVfsData.toNat = .ok Vfs.rootDirectory := by
    have none : ∀ record : Vfs.Record, record ∉ [] := fun _ => List.not_mem_nil
    have modes : Vfs.ModesAt (fun _ => [])
        (programView (reached.paging.pageDirs parent.pageDirectory) (handedMemory 5) fun _ => 1) smallInfo.rawVfsData.toNat [] := fun _ member => absurd member List.not_mem_nil
    exact Vfs.parseUSTAR_records handover.archive modes (fun record member => absurd member (none record))
      (fun record member => absurd member (none record))
  have packedPage : pageIndex4M 0xC01000 = 3 := by decide
  have argvPage : pageIndex4M smallInfo.packedArgv = 256 := by decide
  obtain ⟨paging, memory, frame, started, page, _⟩ := (preMain_hands_over _ inUse).1 2 1 own parent parent 0x40400000
    (userSharedSpaceEnd - 4) 0x40001000 0xC01000 smallInfo [[97]] [] (fun _ => 1) Vfs.rootDirectory
    (List.replicate Loader.argMax none) fits
    ⟨running, foundOwn, isChild, foundParent, parentUser, by decide, foundParent, parentUser, by decide⟩
    ⟨by decide, by rw [heapIndex]; decide, by rw [heapIndex]; exact heap,
      ⟨258, by decide, by decide, by rw [heapIndex]; decide, spare⟩, 7, by decide, by decide, free⟩
    handover tree
    ⟨by rw [packedPage]; exact (frameOf_eq_some.mp stack).1, by decide, temporary, by
      rw [packedPage, argvPage]
      intro same
      exact absurd ((stack.symm.trans same).trans code) (by decide)⟩
    (by rw [List.length_replicate]; decide)
  rw [ownUses] at page
  exact ⟨_, inUse, paging, memory, frame, started, page⟩

end Kernel

end ToyKernel
