import ToyKernel.Library.Buffer
import ToyKernel.Library.Memory

/-!
The program loader of `libc/elf.cpp`. The file is the memory from `elf_data` on; nothing in the
loader knows where it ends, so what lies behind it can be read too.
-/

namespace ToyKernel.Loader

open Library

inductive LoadFault
  | invalidElf | noLoadableSegment | noProgramHeaders | beforeTable | outOfOrder | entryOutOfRange
  | outOfBounds | noRelocations | emptyRelocations | noSegmentForAddress | endlessTable
deriving DecidableEq, Repr

def userStart : Nat := 0x40000000

def ptLoad : Nat := 1
def ptDynamic : Nat := 2
def dtNull : Nat := 0
def dtRel : Nat := 17
def dtRelsz : Nat := 18
def r386Relative : Nat := 8

structure Phdr where
  type : Nat
  offset : Nat
  vaddr : Nat
  filesz : Nat
  memsz : Nat
deriving DecidableEq, Repr

structure Shdr where
  name : Nat
  addr : Nat
  offset : Nat
  size : Nat
deriving DecidableEq, Repr

section Headers

variable (elf : Memory)

def read16 (address : Nat) : Nat := (elf address).toNat + 256 * (elf (address + 1)).toNat

def isValidElf : Bool := elf 0 == 0x7F && elf 1 == 69 && elf 2 == 76 && elf 3 == 70

def entry : Nat := read32 elf 24
def phoff : Nat := read32 elf 28
def shoff : Nat := read32 elf 32
def phnum : Nat := read16 elf 44
def shnum : Nat := read16 elf 48
def shstrndx : Nat := read16 elf 50

def programHeader (index : Nat) : Phdr :=
  let address := phoff elf + 32 * index
  { type := read32 elf address, offset := read32 elf (address + 4), vaddr := read32 elf (address + 8)
    filesz := read32 elf (address + 16), memsz := read32 elf (address + 20) }

def programHeaders : List Phdr := (List.range (phnum elf)).map (programHeader elf)

def sectionHeader (index : Nat) : Shdr :=
  let address := shoff elf + 40 * index
  { name := read32 elf address, addr := read32 elf (address + 12), offset := read32 elf (address + 16)
    size := read32 elf (address + 20) }

def sectionHdrStrTab : Nat := (sectionHeader elf (shstrndx elf)).offset

def sameText : List UInt8 → Nat → Bool
  | [], address => elf address == 0
  | c :: rest, address => c == elf address && sameText rest (address + 1)

def getSectionHdr (name : List UInt8) : Option Shdr :=
  ((List.range (shnum elf)).map (sectionHeader elf)).find? fun hdr =>
    sameText elf name (sectionHdrStrTab elf + hdr.name)

def bssName : List UInt8 := [46, 98, 115, 115]

end Headers

section Segments

/-- The first loadable segment; without any the scan stops at the last entry of the table. -/
def firstLoadable : List Phdr → Option Phdr
  | [] => none
  | [segment] => some segment
  | segment :: next :: rest =>
      if segment.type = ptLoad then some segment else firstLoadable (next :: rest)

/-- The scan from the end of the table, which is given in reverse. -/
def lastLoadable : List Phdr → Except LoadFault Phdr
  | [] => .error .beforeTable
  | segment :: rest => if segment.type = ptLoad then return segment else lastLoadable rest

def imageOffset (first : Phdr) (vaddr : Nat) : Nat := (vaddr + 4294967296 - first.vaddr) % 4294967296

def sourcePlaces (segment : Phdr) : List Nat := (List.range segment.memsz).map (segment.offset + ·)

def segmentBytes (elf : Memory) (segment : Phdr) : List UInt8 := (sourcePlaces segment).map elf

def copySegment (elf : Memory) (first : Phdr) (image : List UInt8) (segment : Phdr) :
    Except LoadFault (List UInt8) :=
  if segment.type ≠ ptLoad then return image
  else copyIn .outOfBounds image (imageOffset first segment.vaddr) (segmentBytes elf segment)

end Segments

section Relocations

variable (elf : Memory)

def getDynamicEntry (field : Nat) : Nat → Nat → Except LoadFault Nat
  | 0, _ => .error .endlessTable
  | fuel + 1, address =>
      if read32 elf address = dtNull then return 0
      else if read32 elf address = field then return read32 elf (address + 4)
      else getDynamicEntry field fuel (address + 8)

def getOffsetBias (headers : List Phdr) (vaddr : Nat) : Except LoadFault Nat :=
  match headers.find? fun segment =>
      decide (segment.vaddr ≤ vaddr) && decide (vaddr < (segment.vaddr + segment.memsz) % 4294967296) with
  | some segment => return (segment.offset + (vaddr - segment.vaddr)) % 4294967296
  | none => .error .noSegmentForAddress

def relocate (image : List UInt8) (relocation : Nat) : Except LoadFault (List UInt8) :=
  let offset := read32 elf relocation
  if read32 elf (relocation + 4) % 256 = r386Relative then do
    require (offset + 4 ≤ image.length) .outOfBounds
    let memory : Memory := fun index => image.getD index 0
    let changed := write32 memory offset ((read32 memory offset + userStart) % 4294967296)
    return (List.range image.length).map changed
  else return image

def applyRelocations (headers : List Phdr) (image : List UInt8) : Except LoadFault (List UInt8) :=
  match headers.find? fun segment => segment.type == ptDynamic with
  | none => return image
  | some dynamic => do
      let relocs ← getDynamicEntry elf dtRel 536870912 dynamic.offset
      require (relocs ≠ 0) .noRelocations
      let size ← getDynamicEntry elf dtRelsz 536870912 dynamic.offset
      require (size ≠ 0) .emptyRelocations
      let bias ← getOffsetBias headers relocs
      (List.range (size / 8)).foldlM (fun image index => relocate elf image (bias + 8 * index)) image

end Relocations

def clearRange (image : List UInt8) (start count : Nat) : Except LoadFault (List UInt8) :=
  if count = 0 then return image else fill .outOfBounds image start 0 count

def clearBss (elf : Memory) (first : Phdr) (image : List UInt8) : Except LoadFault (List UInt8) :=
  match getSectionHdr elf bssName with
  | none => return image
  | some bss => clearRange image (imageOffset first bss.addr) bss.size

def loadElfProgram (elf : Memory) : Except LoadFault (List UInt8 × Nat) := do
  require (isValidElf elf = true) .invalidElf
  let headers := programHeaders elf
  match firstLoadable headers with
  | none => .error .noLoadableSegment
  | some first => do
      require (0 < phnum elf) .noProgramHeaders
      let last ← lastLoadable headers.reverse
      require (first.vaddr ≤ last.vaddr) .outOfOrder
      require (first.vaddr ≤ entry elf ∧ entry elf < (last.vaddr + last.memsz) % 4294967296) .entryOutOfRange
      let span := imageOffset first (last.vaddr + last.memsz)
      let image ← headers.foldlM (copySegment elf first) (List.replicate span 0)
      let image ← applyRelocations elf headers image
      let image ← clearBss elf first image
      return (image, entry elf - first.vaddr)

section Copying

def loads (elf : Memory) : List Phdr := (programHeaders elf).filter fun segment => segment.type = ptLoad

variable {elf : Memory} {first : Phdr} {image after : List UInt8} {segments : List Phdr}

def copyLoad (elf : Memory) (first : Phdr) (image : List UInt8) (segment : Phdr) :
    Except LoadFault (List UInt8) :=
  copyIn .outOfBounds image (imageOffset first segment.vaddr) (segmentBytes elf segment)

theorem length_segmentBytes (segment : Phdr) : (segmentBytes elf segment).length = segment.memsz := by
  simp [segmentBytes, sourcePlaces]

theorem segmentBytes_getElem? (segment : Phdr) {index : Nat} (bound : index < segment.memsz) :
    (segmentBytes elf segment)[index]? = some (elf (segment.offset + index)) := by
  rw [segmentBytes, sourcePlaces, List.getElem?_map, List.getElem?_map, List.getElem?_range bound]
  rfl

theorem copySegments_eq (segments : List Phdr) (image : List UInt8) :
    segments.foldlM (copySegment elf first) image =
      (segments.filter fun segment => segment.type = ptLoad).foldlM (copyLoad elf first) image := by
  induction segments generalizing image with
  | nil => simp only [List.filter_nil, List.foldlM_nil]
  | cons segment rest ih =>
      rw [List.foldlM_cons]
      by_cases isLoad : segment.type = ptLoad
      · have copied : copySegment elf first image segment = copyLoad elf first image segment := by
          rw [copySegment, if_neg (not_not.mpr isLoad), copyLoad]
        have kept : (segment :: rest).filter (fun segment => decide (segment.type = ptLoad)) =
            segment :: rest.filter fun segment => decide (segment.type = ptLoad) :=
          List.filter_cons_of_pos (by simpa using isLoad)
        rw [copied, kept, List.foldlM_cons]
        exact bind_congr fun next => ih next
      · have skipped : copySegment elf first image segment = .ok image := by
          rw [copySegment, if_pos isLoad]
          rfl
        have dropped : (segment :: rest).filter (fun segment => decide (segment.type = ptLoad)) =
            rest.filter fun segment => decide (segment.type = ptLoad) :=
          List.filter_cons_of_neg (by simpa using isLoad)
        rw [skipped, dropped, ok_bind, ih]

def Covers (first segment : Phdr) (place : Nat) : Prop :=
  imageOffset first segment.vaddr ≤ place ∧ place < imageOffset first segment.vaddr + segment.memsz

theorem copyLoads_fits (done : segments.foldlM (copyLoad elf first) image = .ok after) :
    after.length = image.length ∧
      ∀ segment ∈ segments, imageOffset first segment.vaddr + segment.memsz ≤ image.length := by
  induction segments generalizing image with
  | nil =>
      cases done
      refine ⟨rfl, ?_⟩
      intro segment member
      cases member
  | cons segment rest ih =>
      rw [List.foldlM_cons] at done
      obtain ⟨next, copied, later⟩ := bind_eq_ok.mp done
      rw [copyLoad, copyIn_eq_ok] at copied
      obtain ⟨inside, rfl⟩ := copied
      have length := row_length inside
      rw [length_segmentBytes] at inside
      obtain ⟨laterLength, fits⟩ := ih later
      rw [length] at laterLength fits
      exact ⟨laterLength, List.forall_mem_cons.mpr ⟨inside, fits⟩⟩

variable (elf) in
/-- After the copies every place holds the byte of the segment it belongs to. -/
theorem copyLoads_eq (fits : ∀ segment ∈ segments, imageOffset first segment.vaddr + segment.memsz ≤ image.length)
    (apart : segments.Pairwise fun one other => ∀ place, ¬(Covers first one place ∧ Covers first other place)) :
    ∃ after, segments.foldlM (copyLoad elf first) image = .ok after ∧ after.length = image.length ∧
      (∀ place, (∀ segment ∈ segments, ¬Covers first segment place) → after[place]? = image[place]?) ∧
      ∀ segment ∈ segments, ∀ index < segment.memsz,
        after[imageOffset first segment.vaddr + index]? = some (elf (segment.offset + index)) := by
  induction segments generalizing image with
  | nil =>
      refine ⟨image, rfl, rfl, fun _ _ => rfl, ?_⟩
      intro segment member
      cases member
  | cons segment rest ih =>
      obtain ⟨firstFits, restFits⟩ := List.forall_mem_cons.mp fits
      obtain ⟨away, restApart⟩ := List.pairwise_cons.mp apart
      have inside : imageOffset first segment.vaddr + (segmentBytes elf segment).length ≤ image.length := by
        rw [length_segmentBytes]
        exact firstFits
      have copied := (copyIn_eq_ok LoadFault.outOfBounds).mpr ⟨inside, rfl⟩
      have length := row_length inside
      have reads := row_getElem? inside
      generalize image.take (imageOffset first segment.vaddr) ++ segmentBytes elf segment ++
        image.drop (imageOffset first segment.vaddr + (segmentBytes elf segment).length) = next at copied length reads
      rw [length_segmentBytes] at reads
      obtain ⟨after, done, afterLength, others, own⟩ := ih (by rw [length]; exact restFits) restApart
      refine ⟨after, ?_, afterLength.trans length, ?_, ?_⟩
      · rw [List.foldlM_cons, copyLoad, copied, ok_bind, done]
      · intro place uncovered
        obtain ⟨notFirst, notRest⟩ := List.forall_mem_cons.mp uncovered
        rw [Covers] at notFirst
        rw [others place notRest, reads, if_neg notFirst]
      · intro other member index bound
        rcases List.mem_cons.mp member with rfl | inRest
        · have covered : Covers first other (imageOffset first other.vaddr + index) := ⟨by omega, by omega⟩
          rw [others _ fun third isThird both => away third isThird _ ⟨covered, both⟩, reads,
            if_pos (by omega), Nat.add_sub_cancel_left, segmentBytes_getElem? other bound]
        · exact own other inRest index bound

end Copying

section Bss

variable {elf : Memory} {first : Phdr} {image after : List UInt8}

def InBss (elf : Memory) (first : Phdr) (place : Nat) : Prop :=
  ∃ bss, getSectionHdr elf bssName = some bss ∧ imageOffset first bss.addr ≤ place ∧
    place < imageOffset first bss.addr + bss.size

def BssInside (elf : Memory) (first : Phdr) (length : Nat) : Prop :=
  ∀ bss, getSectionHdr elf bssName = some bss →
    bss.size = 0 ∨ imageOffset first bss.addr + bss.size ≤ length

theorem clearBss_inside (done : clearBss elf first image = .ok after) : BssInside elf first image.length := by
  intro bss found
  rw [clearBss, found] at done
  by_cases empty : bss.size = 0
  · exact .inl empty
  · dsimp only at done
    rw [clearRange, if_neg empty] at done
    obtain ⟨_, inside, _⟩ := bind_eq_ok.mp done
    exact .inr (require_eq_ok.mp inside)

theorem clearBss_eq (inside : BssInside elf first image.length) :
    ∃ after, clearBss elf first image = .ok after ∧ after.length = image.length ∧
      (∀ place, InBss elf first place → after[place]? = some 0) ∧
      ∀ place, ¬InBss elf first place → after[place]? = image[place]? := by
  rw [clearBss]
  cases found : getSectionHdr elf bssName with
  | none =>
      refine ⟨image, rfl, rfl, ?_, fun _ _ => rfl⟩
      rintro place ⟨bss, isBss, _⟩
      rw [found] at isBss
      cases isBss
  | some bss =>
      have same : ∀ place, InBss elf first place ↔ imageOffset first bss.addr ≤ place ∧
          place < imageOffset first bss.addr + bss.size := by
        intro place
        constructor
        · rintro ⟨other, isOther, range⟩
          cases found.symm.trans isOther
          exact range
        · intro range
          exact ⟨bss, found, range⟩
      dsimp only
      rw [clearRange]
      by_cases empty : bss.size = 0
      · refine ⟨image, by rw [if_pos empty]; rfl, rfl, ?_, fun _ _ => rfl⟩
        intro place covered
        have range := (same place).mp covered
        omega
      · have room := (inside bss found).resolve_left empty
        have length := List.length_replicate (n := bss.size) (a := (0 : UInt8))
        have within : imageOffset first bss.addr + (List.replicate bss.size (0 : UInt8)).length ≤ image.length := by
          rw [length]
          exact room
        have reads := row_getElem? within
        have total := row_length within
        rw [length] at reads total
        refine ⟨_, by rw [if_neg empty, fill_eq _ room], total, ?_, ?_⟩
        · intro place covered
          have range := (same place).mp covered
          rw [reads, if_pos range, List.getElem?_replicate, if_pos (by omega)]
        · intro place uncovered
          rw [reads, if_neg fun range => uncovered ((same place).mpr range)]

end Bss

section Image

variable {elf : Memory} {first last : Phdr}

theorem firstLoadable_eq {headers : List Phdr}
    (found : (headers.filter fun segment => segment.type = ptLoad).head? = some first) :
    firstLoadable headers = some first := by
  fun_induction firstLoadable headers with
  | case1 => cases found
  | case2 segment =>
      by_cases isLoad : segment.type = ptLoad
      · simpa [isLoad] using found
      · simp [isLoad] at found
  | case3 segment next rest isLoad => simpa [isLoad] using found
  | case4 segment next rest notLoad ih =>
      rw [List.filter_cons_of_neg (by simpa using notLoad)] at found
      exact ih found

theorem lastLoadable_eq {headers : List Phdr}
    (found : (headers.filter fun segment => segment.type = ptLoad).head? = some last) :
    lastLoadable headers = .ok last := by
  induction headers with
  | nil => cases found
  | cons segment rest ih =>
      rw [lastLoadable]
      by_cases isLoad : segment.type = ptLoad
      · rw [List.filter_cons_of_pos (by simpa using isLoad)] at found
        cases found
        exact if_pos isLoad
      · rw [List.filter_cons_of_neg (by simpa using isLoad)] at found
        rw [if_neg isLoad]
        exact ih found

def Holds (segment : Phdr) (vaddr : Nat) : Prop := segment.vaddr ≤ vaddr ∧ vaddr < segment.vaddr + segment.memsz

/-- The files the loader is meant for: loadable segments in order, apart from each other and below
the end of the address space, nothing to relocate, and an entry point the loader accepts. -/
structure Loadable (elf : Memory) (first last : Phdr) : Prop where
  valid : isValidElf elf = true
  static : ∀ segment ∈ programHeaders elf, segment.type ≠ ptDynamic
  head : (loads elf).head? = some first
  tail : (loads elf).getLast? = some last
  sorted : (loads elf).Pairwise fun one other => one.vaddr ≤ other.vaddr
  apart : (loads elf).Pairwise fun one other => ∀ vaddr, ¬(Holds one vaddr ∧ Holds other vaddr)
  bounded : ∀ segment ∈ loads elf, segment.vaddr + segment.memsz ≤ 4294967296
  backed : ∀ segment ∈ loads elf, segment.filesz ≤ segment.memsz
  entered : first.vaddr ≤ entry elf ∧ entry elf < (last.vaddr + last.memsz) % 4294967296

theorem Loadable.first_le (file : Loadable elf first last) {segment : Phdr} (member : segment ∈ loads elf) :
    first.vaddr ≤ segment.vaddr := by
  obtain ⟨rest, split⟩ := List.head?_eq_some_iff.mp file.head
  have sorted := file.sorted
  rw [split] at sorted member
  rcases List.mem_cons.mp member with rfl | inRest
  · exact Nat.le_refl _
  · exact (List.pairwise_cons.mp sorted).1 segment inRest

theorem Loadable.le_last (file : Loadable elf first last) {segment : Phdr} (member : segment ∈ loads elf) :
    segment.vaddr ≤ last.vaddr := by
  obtain ⟨rest, split⟩ := List.getLast?_eq_some_iff.mp file.tail
  have sorted := file.sorted
  rw [split] at sorted member
  rcases List.mem_append.mp member with inRest | isLast
  · exact (List.pairwise_append.mp sorted).2.2 segment inRest last (by simp)
  · rw [List.mem_singleton.mp isLast]

theorem Loadable.last_mem (file : Loadable elf first last) : last ∈ loads elf :=
  List.mem_of_getLast? file.tail

theorem Loadable.first_mem (file : Loadable elf first last) : first ∈ loads elf :=
  List.mem_of_head? file.head

theorem Loadable.end_lt (file : Loadable elf first last) : last.vaddr + last.memsz < 4294967296 := by
  have bound := file.bounded last file.last_mem
  have entered := file.entered.2
  rcases Nat.lt_or_eq_of_le bound with below | reached
  · exact below
  · rw [reached] at entered
    omega

theorem imageOffset_eq {vaddr : Nat} (above : first.vaddr ≤ vaddr) (below : vaddr < 4294967296) :
    imageOffset first vaddr = vaddr - first.vaddr := by
  rw [imageOffset]
  omega

theorem Loadable.imageOffset_vaddr (file : Loadable elf first last) {segment : Phdr}
    (member : segment ∈ loads elf) : imageOffset first segment.vaddr = segment.vaddr - first.vaddr := by
  have below := file.le_last member
  have room := file.end_lt
  exact imageOffset_eq (file.first_le member) (by omega)

def span (first last : Phdr) : Nat := last.vaddr + last.memsz - first.vaddr

theorem loadElfProgram_eq (file : Loadable elf first last) : loadElfProgram elf = (do
    let image ← (loads elf).foldlM (copyLoad elf first) (List.replicate (span first last) 0)
    let image ← clearBss elf first image
    return (image, entry elf - first.vaddr)) := by
  have above := file.first_le file.last_mem
  have start := firstLoadable_eq file.head
  have finish : lastLoadable (programHeaders elf).reverse = .ok last := by
    apply lastLoadable_eq
    rw [List.filter_reverse, List.head?_reverse]
    exact file.tail
  have some_header : 0 < phnum elf := by
    have member := List.mem_filter.mp file.first_mem
    have nonempty := List.length_pos_of_mem member.1
    simpa [programHeaders] using nonempty
  have size : imageOffset first (last.vaddr + last.memsz) = span first last :=
    imageOffset_eq (by omega) file.end_lt
  have plain : ∀ image, applyRelocations elf (programHeaders elf) image = .ok image := by
    intro image
    have none_dynamic : ((programHeaders elf).find? fun segment => segment.type == ptDynamic) = none := by
      rw [List.find?_eq_none]
      intro segment member isDynamic
      exact file.static segment member (by simpa using isDynamic)
    rw [applyRelocations, none_dynamic]
    rfl
  rw [loadElfProgram, require_of file.valid, ok_bind]
  dsimp only
  rw [start]
  dsimp only
  rw [require_of some_header, ok_bind, finish, ok_bind, require_of above, ok_bind, require_of file.entered,
    ok_bind, size, copySegments_eq]
  simp only [plain, ok_bind]
  rfl

theorem Loadable.covers_iff (file : Loadable elf first last) {segment : Phdr} (member : segment ∈ loads elf)
    (place : Nat) : Covers first segment place ↔ Holds segment (first.vaddr + place) := by
  have above := file.first_le member
  rw [Covers, Holds, file.imageOffset_vaddr member]
  omega

theorem Loadable.covers_apart (file : Loadable elf first last) : (loads elf).Pairwise fun one other =>
    ∀ place, ¬(Covers first one place ∧ Covers first other place) := by
  refine file.apart.imp_of_mem ?_
  intro one other isOne isOther apart place both
  exact apart (first.vaddr + place)
    ⟨(file.covers_iff isOne place).mp both.1, (file.covers_iff isOther place).mp both.2⟩

theorem Loadable.holds_unique (file : Loadable elf first last) {one other : Phdr} {vaddr : Nat}
    (isOne : one ∈ loads elf) (isOther : other ∈ loads elf) (inOne : Holds one vaddr)
    (inOther : Holds other vaddr) : one = other := by
  by_contra different
  have symmetric : Std.Symm fun one other : Phdr => ∀ vaddr, ¬(Holds one vaddr ∧ Holds other vaddr) :=
    ⟨fun _ _ apart vaddr both => apart vaddr both.symm⟩
  exact file.apart.forall isOne isOther different vaddr ⟨inOne, inOther⟩

/-- What the image is when every copy and the cleared section lie inside it. -/
theorem loadElfProgram_image (file : Loadable elf first last)
    (ends : ∀ segment ∈ loads elf, segment.vaddr + segment.memsz ≤ last.vaddr + last.memsz)
    (inside : BssInside elf first (span first last)) :
    ∃ image, loadElfProgram elf = .ok (image, entry elf - first.vaddr) ∧ image.length = span first last ∧
      (∀ place, InBss elf first place → image[place]? = some 0) ∧
      (∀ place < span first last, (∀ segment ∈ loads elf, ¬Holds segment (first.vaddr + place)) →
        image[place]? = some 0) ∧
      ∀ segment ∈ loads elf, ∀ index < segment.memsz,
        ¬InBss elf first (segment.vaddr + index - first.vaddr) →
        image[segment.vaddr + index - first.vaddr]? = some (elf (segment.offset + index)) := by
  have blank := List.length_replicate (n := span first last) (a := (0 : UInt8))
  have fits : ∀ segment ∈ loads elf, imageOffset first segment.vaddr + segment.memsz ≤
      (List.replicate (span first last) (0 : UInt8)).length := by
    intro segment member
    have bound := ends segment member
    have above := file.first_le member
    rw [blank, file.imageOffset_vaddr member, span]
    omega
  obtain ⟨copied, done, copiedLength, gaps, filled⟩ := copyLoads_eq elf fits file.covers_apart
  rw [blank] at copiedLength
  obtain ⟨image, cleared, imageLength, zeroed, kept⟩ := clearBss_eq (copiedLength ▸ inside)
  refine ⟨image, ?_, imageLength.trans copiedLength, zeroed, ?_, ?_⟩
  · rw [loadElfProgram_eq file, done, ok_bind, cleared, ok_bind]
    rfl
  · intro place bound uncovered
    by_cases inBss : InBss elf first place
    · exact zeroed place inBss
    · have empty := gaps place fun segment member covers =>
        uncovered segment member ((file.covers_iff member place).mp covers)
      rw [kept place inBss, empty, List.getElem?_replicate, if_pos bound]
  · intro segment member index bound notBss
    have above := file.first_le member
    have offset : imageOffset first segment.vaddr + index = segment.vaddr + index - first.vaddr := by
      rw [file.imageOffset_vaddr member]
      omega
    have copy := filled segment member index bound
    rw [offset] at copy
    rw [kept _ notBss, copy]

theorem loadElfProgram_fits (file : Loadable elf first last) {image : List UInt8} {offset : Nat}
    (done : loadElfProgram elf = .ok (image, offset)) :
    (∀ segment ∈ loads elf, segment.vaddr + segment.memsz ≤ last.vaddr + last.memsz) ∧
      BssInside elf first (span first last) := by
  rw [loadElfProgram_eq file] at done
  obtain ⟨copied, copies, later⟩ := bind_eq_ok.mp done
  obtain ⟨cleared, clears, _⟩ := bind_eq_ok.mp later
  obtain ⟨length, fits⟩ := copyLoads_fits copies
  rw [List.length_replicate] at length fits
  have ends : ∀ segment ∈ loads elf, segment.vaddr + segment.memsz ≤ last.vaddr + last.memsz := by
    intro segment member
    have bound := fits segment member
    have above := file.first_le member
    have room := file.first_le file.last_mem
    rw [file.imageOffset_vaddr member, span] at bound
    omega
  exact ⟨ends, length ▸ clearBss_inside clears⟩

def FileBacked (elf : Memory) (place : Nat) : Prop :=
  ∃ segment ∈ loads elf, segment.offset ≤ place ∧ place < segment.offset + segment.filesz

structure ImageLaw (elf : Memory) (first last : Phdr) (image : List UInt8) : Prop where
  length : image.length = last.vaddr + last.memsz - first.vaddr
  filled : ∀ segment ∈ loads elf, ∀ index < segment.filesz,
    image[segment.vaddr + index - first.vaddr]? = some (elf (segment.offset + index))
  blank : ∀ place < image.length, (∀ segment ∈ loads elf,
    ¬(segment.vaddr ≤ first.vaddr + place ∧ first.vaddr + place < segment.vaddr + segment.filesz)) →
      image[place]? = some 0
  sources : ∀ segment ∈ loads elf, ∀ place ∈ sourcePlaces segment, FileBacked elf place

/-- What a file must be like for its segments to be copied as if only their file bytes were: what is
read behind those belongs to another segment, and is zero or cleared with `.bss`. -/
structure CopiesCleanly (elf : Memory) (first last : Phdr) : Prop where
  ends : ∀ segment ∈ loads elf, segment.vaddr + segment.memsz ≤ last.vaddr + last.memsz
  bss : BssInside elf first (last.vaddr + last.memsz - first.vaddr)
  tails : ∀ segment ∈ loads elf, ∀ index, segment.filesz ≤ index → index < segment.memsz →
    FileBacked elf (segment.offset + index) ∧
      (InBss elf first (segment.vaddr + index - first.vaddr) ∨ elf (segment.offset + index) = 0)
  kept : ∀ segment ∈ loads elf, ∀ index < segment.filesz,
    InBss elf first (segment.vaddr + index - first.vaddr) → elf (segment.offset + index) = 0

theorem image_law_iff (file : Loadable elf first last) :
    (∃ image offset, loadElfProgram elf = .ok (image, offset) ∧ ImageLaw elf first last image) ↔
      CopiesCleanly elf first last := by
  constructor
  · rintro ⟨image, offset, done, law⟩
    obtain ⟨ends, inside⟩ := loadElfProgram_fits file done
    obtain ⟨same, again, length, zeroed, _, filled⟩ := loadElfProgram_image file ends inside
    cases done.symm.trans again
    refine ⟨ends, inside, ?_, ?_⟩
    · intro segment member index behind bound
      refine ⟨law.sources segment member _ ?_, ?_⟩
      · exact List.mem_map_of_mem (List.mem_range.mpr bound)
      · by_cases inBss : InBss elf first (segment.vaddr + index - first.vaddr)
        · exact .inl inBss
        · have above := file.first_le member
          have below := ends segment member
          have zero := law.blank (segment.vaddr + index - first.vaddr) (by rw [law.length]; omega) ?_
          · rw [filled segment member index bound inBss] at zero
            exact .inr (Option.some.inj zero)
          · intro other isOther inFile
            have size := file.backed other isOther
            have own : Holds segment (segment.vaddr + index) := ⟨by omega, by omega⟩
            have foreign : Holds other (segment.vaddr + index) := ⟨by omega, by omega⟩
            cases file.holds_unique member isOther own foreign
            omega
    · intro segment member index bound inBss
      have byte := law.filled segment member index bound
      rw [zeroed _ inBss] at byte
      exact (Option.some.inj byte).symm
  · intro clean
    obtain ⟨image, done, length, zeroed, gaps, filled⟩ := loadElfProgram_image file clean.ends clean.bss
    refine ⟨image, _, done, ⟨length, ?_, ?_, ?_⟩⟩
    · intro segment member index bound
      have size := file.backed segment member
      by_cases inBss : InBss elf first (segment.vaddr + index - first.vaddr)
      · rw [zeroed _ inBss, clean.kept segment member index bound inBss]
      · exact filled segment member index (by omega) inBss
    · intro place bound unbacked
      by_cases inBss : InBss elf first place
      · exact zeroed place inBss
      · by_cases held : ∃ segment ∈ loads elf, Holds segment (first.vaddr + place)
        · obtain ⟨segment, member, lower, upper⟩ := held
          have behind := unbacked segment member
          have above := file.first_le member
          obtain ⟨index, split⟩ := Nat.exists_eq_add_of_le lower
          have same : place = segment.vaddr + index - first.vaddr := by omega
          have zero := (clean.tails segment member index (by omega) (by omega)).2
          rw [← same] at zero
          have byte := filled segment member index (by omega) (same ▸ inBss)
          rw [same, byte, zero.resolve_left inBss]
        · exact gaps place (length ▸ bound) fun segment member holds => held ⟨segment, member, holds⟩
    · intro segment member place read
      obtain ⟨index, range, rfl⟩ := List.mem_map.mp read
      have bound := List.mem_range.mp range
      rcases Nat.lt_or_ge index segment.filesz with inFile | behind
      · exact ⟨segment, member, by omega, by omega⟩
      · exact (clean.tails segment member index behind bound).1

end Image

section Tiny

def tinyElf (memsz : UInt8) : Memory := fun address =>
  match address with
  | 0 => 0x7F
  | 1 => 69
  | 2 => 76
  | 3 => 70
  | 28 => 52
  | 44 => 1
  | 52 => 1
  | 56 => 84
  | 68 => 1
  | 72 => memsz
  | 84 => 0x90
  | 85 => 0xCC
  | _ => 0

def tinySegment (memsz : Nat) : Phdr := { type := 1, offset := 84, vaddr := 0, filesz := 1, memsz := memsz }

theorem tinyElf_loadable {memsz : UInt8} (headers : programHeaders (tinyElf memsz) = [tinySegment memsz.toNat])
    (positive : 0 < memsz.toNat) :
    Loadable (tinyElf memsz) (tinySegment memsz.toNat) (tinySegment memsz.toNat) := by
  have only : loads (tinyElf memsz) = [tinySegment memsz.toNat] := by
    rw [loads, headers]
    rfl
  have small := memsz.toNat_lt
  constructor
  · rfl
  · rw [headers]
    simp [tinySegment, ptDynamic]
  · rw [only]
    rfl
  · rw [only]
    rfl
  · rw [only]
    exact List.pairwise_singleton _ _
  · rw [only]
    exact List.pairwise_singleton _ _
  · rw [only]
    simp only [List.forall_mem_singleton, tinySegment]
    omega
  · rw [only]
    simp only [List.forall_mem_singleton, tinySegment]
    exact positive
  · have start : entry (tinyElf memsz) = 0 := rfl
    rw [start]
    simp only [tinySegment]
    omega

theorem tail_copied_from_file : Loadable (tinyElf 2) (tinySegment 2) (tinySegment 2) ∧
    loadElfProgram (tinyElf 2) = .ok ([0x90, 0xCC], 0) ∧
    ¬∃ image offset, loadElfProgram (tinyElf 2) = .ok (image, offset) ∧
      ImageLaw (tinyElf 2) (tinySegment 2) (tinySegment 2) image := by
  have loaded : loadElfProgram (tinyElf 2) = .ok ([0x90, 0xCC], 0) := by decide
  have only : loads (tinyElf 2) = [tinySegment 2] := by decide
  refine ⟨tinyElf_loadable (by decide) (by decide), loaded, ?_⟩
  rintro ⟨image, offset, done, law⟩
  cases loaded.symm.trans done
  have zero := law.blank 1 (by decide) (by rw [only]; simp [tinySegment])
  exact absurd zero (by decide)

theorem image_law_iff_full_segment : Loadable (tinyElf 1) (tinySegment 1) (tinySegment 1) ∧
    ∃ image offset, loadElfProgram (tinyElf 1) = .ok (image, offset) ∧
      ImageLaw (tinyElf 1) (tinySegment 1) (tinySegment 1) image := by
  have only : loads (tinyElf 1) = [tinySegment 1] := by decide
  have noBss : getSectionHdr (tinyElf 1) bssName = none := by decide
  have file : Loadable (tinyElf 1) (tinySegment 1) (tinySegment 1) := tinyElf_loadable (by decide) (by decide)
  refine ⟨file, (image_law_iff file).mpr ⟨?_, ?_, ?_, ?_⟩⟩
  · rw [only]
    simp
  · intro bss found
    rw [noBss] at found
    cases found
  · rw [only]
    simp only [List.forall_mem_singleton, tinySegment]
    omega
  · rintro segment member index bound ⟨bss, found, _⟩
    rw [noBss] at found
    cases found

end Tiny

end ToyKernel.Loader
