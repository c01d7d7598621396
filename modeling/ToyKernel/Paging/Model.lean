import ToyKernel.Paging.BitArray

/-!
The page directories, frame reference counts and bitmaps of `kernel/paging.cpp`.
Page directories are the kernel's own one and the clones in the page directory
region; a clone is named by its slot there.
-/

namespace ToyKernel

open Library

def kernelStart : UInt32 := 0x400000
def kernelEnd : UInt32 := 0x800000
def pageDirectoryRegionStart : UInt32 := kernelEnd
def pageDirectoryRegionEnd : UInt32 := 0xC00000
def userSharedSpaceStart : UInt32 := 0xC00000
def userSharedSpaceEnd : UInt32 := 0x1000000
def tmpSharedTaskMemStart : UInt32 := 0x1400000
def kernHeapBegin : UInt32 := 0x2000000
def kernHeapEnd : UInt32 := 0x40000000
def userStart : UInt32 := 0x40000000

def pgPresent : UInt32 := 0x1
def pgWrite : UInt32 := 0x2
def pgUser : UInt32 := 0x4
def pg4MB : UInt32 := 0x80

def isKernelCode (address : UInt32) : Bool := kernelStart ≤ address && address < kernelEnd

def isPageDirRegion (address : UInt32) : Bool :=
  pageDirectoryRegionStart ≤ address && address < pageDirectoryRegionEnd

def isKernelHeap (address : UInt32) : Bool := kernHeapBegin ≤ address && address < kernHeapEnd

def kPageMask4M : UInt32 := ~~~0x3FFFFF
def kPageSize4M : UInt32 := 0x400000
def kRamAs4MPages : Nat := 1024
def kNumPageDirEntries : Nat := 1024
def kNumPageDirs : Nat := 1024

def pageIndex4M (address : UInt32) : Nat := (address >>> 22).toNat

def pageAddr4M (page : Nat) : UInt32 := UInt32.ofNat page <<< 22

def kPhysicalPages : Nat := 32

structure PhysicalBitmap4M where
  bits : BitArray kRamAs4MPages
  refs : Nat → UInt16

namespace PhysicalBitmap4M

def isPageFrameUsed (bitmap : PhysicalBitmap4M) (page : Nat) : Bool := bitmap.bits.isSet page

def setRef (bitmap : PhysicalBitmap4M) (page : Nat) (count : UInt16) : PhysicalBitmap4M :=
  { bitmap with refs := fun query => if query = page then count else bitmap.refs query }

def ref (page : Nat) (bitmap : PhysicalBitmap4M) : PhysicalBitmap4M :=
  bitmap.setRef page (bitmap.refs page + 1)

def unref (page : Nat) (bitmap : PhysicalBitmap4M) : Except Fault PhysicalBitmap4M := do
  require (bitmap.refs page ≠ 0) .unreferencedPage
  return bitmap.setRef page (bitmap.refs page - 1)

def setPageFrameUsed (page : Nat) (bitmap : PhysicalBitmap4M) : Except Fault PhysicalBitmap4M := do
  let bitmap := ref page bitmap
  let bits ← bitmap.bits.setOne page
  return { bitmap with bits }

def setPageFrameFree (page : Nat) (bitmap : PhysicalBitmap4M) : Except Fault PhysicalBitmap4M := do
  let bitmap ← unref page bitmap
  if bitmap.refs page = 0 then
    let bits ← bitmap.bits.setZero page
    return { bitmap with bits }
  else return bitmap

def reservePhysical (pages : Nat) (bitmap : PhysicalBitmap4M) : Except Fault PhysicalBitmap4M := do
  let bits ← bitmap.bits.reserve pages
  return (List.range' pages (kRamAs4MPages - pages)).foldl (fun bitmap page => ref page bitmap)
    { bitmap with bits }

def nextFreePhysicalPage (start : Nat) (bitmap : PhysicalBitmap4M) : Except Fault UInt32 :=
  match bitmap.bits.getFirstZero start with
  | some page => .ok (UInt32.ofNat page * kPageSize4M)
  | none => .error .memoryFull

end PhysicalBitmap4M

/-- A pointer to a page directory: the kernel's, or the one in a slot of the region. -/
inductive PageDirPtr
  | kernel
  | region (slot : Nat)
deriving DecidableEq, Repr

abbrev PageDirectory := Nat → UInt32

structure Paging where
  pageDirs : PageDirPtr → PageDirectory
  physicalBitmap : PhysicalBitmap4M
  pageDirRegion : BitArray kNumPageDirs

def present (entry : UInt32) : Bool := entry &&& pgPresent != 0

def pageEntry (paddr : UInt32) (flags : UInt8) : UInt32 :=
  (paddr &&& kPageMask4M) ||| (pgPresent ||| pg4MB ||| pgWrite ||| flags.toUInt32)

def userAccessible (entry : UInt32) : Bool := entry &&& pgUser != 0

def isReplicated (address : UInt32) : Bool :=
  isKernelCode address || isKernelHeap address || isPageDirRegion address

namespace Paging

def setEntry (pd : PageDirPtr) (index : Nat) (entry : UInt32) (state : Paging) : Paging :=
  { state with pageDirs := fun query page =>
      if query = pd ∧ page = index then entry else state.pageDirs query page }

def installEntry (pd : PageDirPtr) (index : Nat) (entry : UInt32) (page : Nat) (state : Paging) :
    Except Fault Paging := do
  let state := setEntry pd index entry state
  let physicalBitmap ← state.physicalBitmap.setPageFrameUsed page
  return { state with physicalBitmap }

def clearEntry (pd : PageDirPtr) (index : Nat) (page : Nat) (state : Paging) :
    Except Fault Paging := do
  let state := setEntry pd index 0 state
  let physicalBitmap ← state.physicalBitmap.setPageFrameFree page
  return { state with physicalBitmap }

def propagateAdd (index : Nat) (entry : UInt32) (page : Nat) : List Nat → Paging → Except Fault Paging
  | [], state => pure state
  | bit :: rest, state =>
      if state.pageDirRegion.isSet bit then do
        require (present (state.pageDirs (.region bit) index) = false) .otherEntryUsed
        let state ← installEntry (.region bit) index entry page state
        propagateAdd index entry page rest state
      else propagateAdd index entry page rest state

def addPage (pd : PageDirPtr) (vaddr paddr : UInt32) (flags : UInt8) (allowPhysicalReuse : Bool)
    (state : Paging) : Except Fault Paging := do
  require (paddr % kPageSize4M = 0) .unalignedPhysical
  require (vaddr % kPageSize4M = 0) .unalignedVirtual
  require (allowPhysicalReuse = false →
    state.physicalBitmap.isPageFrameUsed (pageIndex4M paddr) = false) .frameAlreadyUsed
  let index := pageIndex4M vaddr
  require (present (state.pageDirs pd index) = false) .entryAlreadyAssigned
  let entry := pageEntry paddr flags
  let state ← installEntry pd index entry (pageIndex4M paddr) state
  if pd = .kernel ∧ isReplicated vaddr = true then
    propagateAdd index entry (pageIndex4M paddr) (List.range kNumPageDirs) state
  else return state

def propagateRemove (index : Nat) (page : Nat) : List Nat → Paging → Except Fault Paging
  | [], state => pure state
  | bit :: rest, state =>
      if state.pageDirRegion.isSet bit then do
        require (present (state.pageDirs (.region bit) index) = true) .otherEntryMissing
        let state ← clearEntry (.region bit) index page state
        propagateRemove index page rest state
      else propagateRemove index page rest state

def removePage (pd : PageDirPtr) (vaddr : UInt32) (state : Paging) : Except Fault Paging := do
  require (vaddr % kPageSize4M = 0) .unalignedVirtual
  let index := pageIndex4M vaddr
  let paddr := state.pageDirs pd index &&& kPageMask4M
  let state ← clearEntry pd index (pageIndex4M paddr) state
  if pd = .kernel ∧ isReplicated vaddr = true then
    propagateRemove index (pageIndex4M paddr) (List.range kNumPageDirs) state
  else return state

def getPhysicalAddr (pd : PageDirPtr) (vaddr : UInt32) (state : Paging) : Except Fault UInt32 := do
  require (vaddr % kPageSize4M = 0) .unalignedVirtual
  let entry := state.pageDirs pd (pageIndex4M vaddr)
  require (present entry = true) .pageNotPresent
  let paddr := entry &&& kPageMask4M
  require (state.physicalBitmap.isPageFrameUsed (pageIndex4M paddr) = true) .frameNotAllocated
  return paddr

def isVirtualMapped (pd : PageDirPtr) (vaddr : UInt32) (state : Paging) : Bool :=
  present (state.pageDirs pd (pageIndex4M vaddr))

def getNextFreeVirtualUser (pd : PageDirPtr) (state : Paging) : Option UInt32 :=
  let first := pageIndex4M userStart
  ((List.range' first (kNumPageDirEntries - first)).find? fun index =>
    !present (state.pageDirs pd index)).map pageAddr4M

def refEntries : List UInt32 → PhysicalBitmap4M → PhysicalBitmap4M
  | [], bitmap => bitmap
  | entry :: rest, bitmap =>
      if present entry then refEntries rest (bitmap.ref (pageIndex4M entry))
      else refEntries rest bitmap

def entries (state : Paging) (pd : PageDirPtr) : List UInt32 :=
  (List.range kNumPageDirEntries).map (state.pageDirs pd)

def clone (pd : PageDirPtr) (state : Paging) : Except Fault (Paging × Nat) := do
  let some slot := state.pageDirRegion.getFirstZero 0 | .error .pageDirRegionFull
  let pageDirRegion ← state.pageDirRegion.setOne slot
  return ({
    pageDirs := fun query =>
      if query = .region slot then state.pageDirs pd else state.pageDirs query
    physicalBitmap := refEntries (state.entries pd) state.physicalBitmap
    pageDirRegion }, slot)

def freeEntries : List UInt32 → PhysicalBitmap4M → Except Fault PhysicalBitmap4M
  | [], bitmap => pure bitmap
  | entry :: rest, bitmap =>
      if present entry then do
        let bitmap ← bitmap.setPageFrameFree (pageIndex4M entry)
        freeEntries rest bitmap
      else freeEntries rest bitmap

def reclaimPageDirRegion (pd : PageDirPtr) (state : Paging) : Except Fault Paging := do
  let physicalBitmap ← freeEntries (state.entries pd) state.physicalBitmap
  match pd with
  | .kernel => .error .kernelPageDirReclaimed
  | .region slot => do
      let pageDirRegion ← state.pageDirRegion.setZero slot
      return { state with physicalBitmap, pageDirRegion }

/-- Paging as `InitializePaging` leaves it. The slots of the page directory region
hold whatever was in that memory; none of them is in use yet. -/
def initializePaging (highMemKB : UInt32) (slots : Nat → PageDirectory) : Except Fault Paging := do
  let totalMem := highMemKB * 1024
  require (32 ≤ totalMem / kPageSize4M + 1) .notEnoughMemory
  let physicalBitmap ← PhysicalBitmap4M.reservePhysical kPhysicalPages
    ⟨BitArray.clear, fun _ => 0⟩
  let pageDirs : PageDirPtr → PageDirectory
    | .kernel => fun _ => 0
    | .region slot => slots slot
  let flags : UInt8 := (pgPresent ||| pgWrite ||| pg4MB).toUInt8
  let state ← addPage .kernel kernelStart kernelStart flags false
    { pageDirs, physicalBitmap, pageDirRegion := BitArray.clear }
  addPage .kernel pageDirectoryRegionStart pageDirectoryRegionStart flags false state

end Paging

end ToyKernel
