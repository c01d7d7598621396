import ToyKernel.Loader.Elf

/-!
The loader on files it was not tried with: program header tables without loadable segments, and
relocations of programs that are not linked at address 0.
-/

namespace ToyKernel.Loader

open Library

section Scans

variable {elf : Memory} {headers : List Phdr}

def LoadFault.beforeScan : LoadFault → Bool
  | .invalidElf | .noLoadableSegment | .noProgramHeaders => true
  | _ => false

/-- Both scans find what they look for, or an assertion rejects the file before the table is left. -/
def ScansInside (elf : Memory) : Prop :=
  (∃ first last, firstLoadable (programHeaders elf) = some first ∧
      lastLoadable (programHeaders elf).reverse = .ok last ∧
      (loads elf).head? = some first ∧ (loads elf).getLast? = some last) ∨
    ∃ fault, loadElfProgram elf = .error fault ∧ fault.beforeScan = true

theorem firstLoadable_stops (nonempty : headers ≠ []) : ∃ first, firstLoadable headers = some first := by
  fun_induction firstLoadable headers with
  | case1 => exact absurd rfl nonempty
  | case2 segment => exact ⟨segment, rfl⟩
  | case3 segment next rest isLoad => exact ⟨segment, rfl⟩
  | case4 segment next rest notLoad ih => exact ih (List.cons_ne_nil _ _)

theorem lastLoadable_leaves (absent : ∀ segment ∈ headers, segment.type ≠ ptLoad) :
    lastLoadable headers = .error .beforeTable := by
  induction headers with
  | nil => rfl
  | cons segment rest ih =>
      obtain ⟨notLoad, later⟩ := List.forall_mem_cons.mp absent
      rw [lastLoadable, if_neg notLoad, ih later]

theorem length_programHeaders (elf : Memory) : (programHeaders elf).length = phnum elf := by
  simp [programHeaders]

/-- Without a loadable segment no assertion fires: the first scan stops at the last entry, and the
second one walks out of the table. -/
theorem loadElfProgram_leaves (valid : isValidElf elf = true) (some_header : 0 < phnum elf)
    (absent : ∀ segment ∈ programHeaders elf, segment.type ≠ ptLoad) :
    loadElfProgram elf = .error .beforeTable := by
  have nonempty : programHeaders elf ≠ [] := by
    rw [← length_programHeaders] at some_header
    exact List.ne_nil_of_length_pos some_header
  obtain ⟨first, start⟩ := firstLoadable_stops nonempty
  have finish : lastLoadable (programHeaders elf).reverse = .error .beforeTable := by
    apply lastLoadable_leaves
    intro segment member
    exact absent segment (List.mem_reverse.mp member)
  rw [loadElfProgram, require_of valid, ok_bind]
  dsimp only
  rw [start]
  dsimp only
  rw [require_of some_header, ok_bind, finish]
  rfl

theorem scans_inside_iff (some_header : 1 ≤ phnum elf) : ScansInside elf ↔
    (isValidElf elf = true → ∃ segment ∈ programHeaders elf, segment.type = ptLoad) := by
  constructor
  · intro inside valid
    by_contra absent
    push Not at absent
    rcases inside with ⟨first, last, _, _, head, _⟩ | ⟨fault, rejected, early⟩
    · have member := List.mem_of_head? head
      rw [loads, List.mem_filter] at member
      exact absent first member.1 (by simpa using member.2)
    · rw [loadElfProgram_leaves valid some_header absent] at rejected
      cases rejected
      cases early
  · intro present
    by_cases valid : isValidElf elf = true
    · left
      obtain ⟨segment, member, isLoad⟩ := present valid
      have found : segment ∈ loads elf := by
        rw [loads, List.mem_filter]
        exact ⟨member, by simpa using isLoad⟩
      have nonempty := List.ne_nil_of_mem found
      refine ⟨(loads elf).head nonempty, (loads elf).getLast nonempty, ?_, ?_, ?_, ?_⟩
      · exact firstLoadable_eq (List.head?_eq_some_head nonempty)
      · apply lastLoadable_eq
        rw [List.filter_reverse, List.head?_reverse]
        exact List.getLast?_eq_some_getLast nonempty
      · exact List.head?_eq_some_head nonempty
      · exact List.getLast?_eq_some_getLast nonempty
    · right
      refine ⟨.invalidElf, ?_, rfl⟩
      rw [loadElfProgram, require, if_neg valid]
      rfl

def emptyElf : Memory := fun address =>
  match address with
  | 0 => 0x7F
  | 1 => 69
  | 2 => 76
  | 3 => 70
  | 28 => 52
  | 44 => 1
  | _ => 0

theorem scan_leaves_table : phnum emptyElf = 1 ∧ loadElfProgram emptyElf = .error .beforeTable ∧
    ¬ScansInside emptyElf := by
  have header : programHeaders emptyElf = [⟨0, 0, 0, 0, 0⟩] := by decide
  have absent : ∀ segment ∈ programHeaders emptyElf, segment.type ≠ ptLoad := by
    rw [header]
    decide
  have left := loadElfProgram_leaves (by decide) (by decide) absent
  refine ⟨by decide, left, ?_⟩
  rintro (⟨first, last, _, _, head, _⟩ | ⟨fault, rejected, early⟩)
  · rw [loads, header] at head
    cases head
  · cases left.symm.trans rejected
    cases early

theorem scans_inside_iff_one_segment : 1 ≤ phnum (tinyElf 1) ∧ ScansInside (tinyElf 1) := by
  have some_header : 1 ≤ phnum (tinyElf 1) := by decide
  refine ⟨some_header, (scans_inside_iff some_header).mpr fun _ => ?_⟩
  have headers : programHeaders (tinyElf 1) = [tinySegment 1] := by decide
  rw [headers]
  exact ⟨tinySegment 1, List.mem_singleton_self _, rfl⟩

end Scans

section Relocating

variable {elf : Memory} {first last dynamic : Phdr} {image after : List UInt8} {offsets : List Nat}

def imageMemory (image : List UInt8) : Memory := fun place => image.getD place 0

def bump (image : List UInt8) (offset : Nat) : Except LoadFault (List UInt8) := do
  require (offset + 4 ≤ image.length) .outOfBounds
  let changed := write32 (imageMemory image) offset
    ((read32 (imageMemory image) offset + userStart) % 4294967296)
  return (List.range image.length).map changed

theorem relocate_eq (image : List UInt8) {relocation : Nat}
    (relative : read32 elf (relocation + 4) % 256 = r386Relative) :
    relocate elf image relocation = bump image (read32 elf relocation) := by
  rw [relocate, if_pos relative]
  rfl

theorem bump_spec {offset : Nat} (done : bump image offset = .ok after) : offset + 4 ≤ image.length ∧
    after.length = image.length ∧ imageMemory after = write32 (imageMemory image) offset
      ((read32 (imageMemory image) offset + userStart) % 4294967296) := by
  obtain ⟨_, inside, changed⟩ := bind_eq_ok.mp done
  have fits := require_eq_ok.mp inside
  cases changed
  refine ⟨fits, by simp, ?_⟩
  funext place
  rw [imageMemory, List.getD_eq_getElem?_getD, List.getElem?_map]
  by_cases bound : place < image.length
  · rw [List.getElem?_range bound]
    rfl
  · rw [List.getElem?_eq_none (by simpa using bound), write32_other _ _ (by omega), imageMemory,
      List.getD_eq_getElem?_getD, List.getElem?_eq_none (by omega)]
    rfl

theorem bump_succeeds {offset : Nat} (fits : offset + 4 ≤ image.length) :
    ∃ after, bump image offset = .ok after := by
  rw [bump, require_of fits, ok_bind]
  exact ⟨_, rfl⟩

def Apart (one other : Nat) : Prop := one + 4 ≤ other ∨ other + 4 ≤ one

theorem bumps_succeed (fits : ∀ offset ∈ offsets, offset + 4 ≤ image.length) :
    ∃ after, offsets.foldlM bump image = .ok after := by
  induction offsets generalizing image with
  | nil => exact ⟨image, rfl⟩
  | cons offset rest ih =>
      obtain ⟨room, later⟩ := List.forall_mem_cons.mp fits
      obtain ⟨next, bumped⟩ := bump_succeeds room
      have length := (bump_spec bumped).2.1
      obtain ⟨after, done⟩ := @ih next (by rw [length]; exact later)
      exact ⟨after, by rw [List.foldlM_cons, bumped, ok_bind, done]⟩

/-- Every relocated word gains the load address, and no other byte changes. -/
theorem bumps_spec (apart : offsets.Pairwise Apart) (done : offsets.foldlM bump image = .ok after) :
    after.length = image.length ∧
      (∀ offset ∈ offsets, offset + 4 ≤ image.length ∧ read32 (imageMemory after) offset =
        (read32 (imageMemory image) offset + userStart) % 4294967296) ∧
      ∀ place, (∀ offset ∈ offsets, ¬(offset ≤ place ∧ place < offset + 4)) →
        imageMemory after place = imageMemory image place := by
  induction offsets generalizing image with
  | nil =>
      cases done
      exact ⟨rfl, by simp, fun _ _ => rfl⟩
  | cons offset rest ih =>
      obtain ⟨away, restApart⟩ := List.pairwise_cons.mp apart
      rw [List.foldlM_cons] at done
      obtain ⟨next, bumped, later⟩ := bind_eq_ok.mp done
      obtain ⟨room, nextLength, written⟩ := bump_spec bumped
      obtain ⟨length, words, others⟩ := ih restApart later
      -- the word of the first relocation is left alone by the later ones, and theirs by the first
      have ownWord : AgreeOn (imageMemory next) (imageMemory after) offset (offset + 4) := by
        intro place lower upper
        apply others
        intro other member inside
        rcases away other member with before | behind <;> omega
      have word : read32 (imageMemory next) offset = (read32 (imageMemory image) offset + userStart) % 4294967296 := by
        rw [written, read32_write32 _ (Nat.mod_lt _ (by decide))]
      refine ⟨length.trans nextLength, ?_, ?_⟩
      · rw [List.forall_mem_cons]
        refine ⟨⟨room, by rw [ownWord.read32_eq (Nat.le_refl _) (Nat.le_refl _), word]⟩, ?_⟩
        intro other member
        obtain ⟨inside, bumpedWord⟩ := words other member
        have kept : AgreeOn (imageMemory image) (imageMemory next) other (other + 4) := by
          rw [written]
          exact write32_agreeOn _ _ (away other member).symm
        rw [nextLength] at inside
        exact ⟨inside, by rw [bumpedWord, kept.read32_eq (Nat.le_refl _) (Nat.le_refl _)]⟩
      · intro place outside
        obtain ⟨notFirst, notRest⟩ := List.forall_mem_cons.mp outside
        rw [others place notRest, written, write32_other _ _ (by omega)]

def relocationOffsets (elf : Memory) (bias size : Nat) : List Nat :=
  (List.range (size / 8)).map fun index => read32 elf (bias + 8 * index)

def loadBias (first : Phdr) : Nat := (userStart + 4294967296 - first.vaddr) % 4294967296

def imageSpan (first last : Phdr) : Nat := imageOffset first (last.vaddr + last.memsz)

/-- A dynamic program the loader accepts. Its relocations are relative ones of words that lie in the
loaded range, apart from each other and outside `.bss`. -/
structure Relocatable (elf : Memory) (first last dynamic : Phdr) (relocs size bias : Nat) : Prop where
  valid : isValidElf elf = true
  head : (loads elf).head? = some first
  tail : (loads elf).getLast? = some last
  ordered : first.vaddr ≤ last.vaddr
  entered : first.vaddr ≤ entry elf ∧ entry elf < (last.vaddr + last.memsz) % 4294967296
  described : ((programHeaders elf).find? fun segment => segment.type == ptDynamic) = some dynamic
  table : getDynamicEntry elf dtRel 536870912 dynamic.offset = .ok relocs
  present : relocs ≠ 0
  length : getDynamicEntry elf dtRelsz 536870912 dynamic.offset = .ok size
  nonempty : 8 ≤ size
  place : getOffsetBias (programHeaders elf) relocs = .ok bias
  relative : ∀ index < size / 8, read32 elf (bias + 8 * index + 4) % 256 = r386Relative
  inside : ∀ offset ∈ relocationOffsets elf bias size,
    first.vaddr ≤ offset ∧ offset + 4 ≤ first.vaddr + imageSpan first last
  apart : (relocationOffsets elf bias size).Pairwise Apart
  kept : ∀ offset ∈ relocationOffsets elf bias size, ∀ place, offset - first.vaddr ≤ place →
    place < offset - first.vaddr + 4 → ¬InBss elf first place

structure RelocationLaw (first : Phdr) (offsets : List Nat) (image after : List UInt8) : Prop where
  length : after.length = image.length
  words : ∀ offset ∈ offsets, read32 (imageMemory after) (offset - first.vaddr) =
    (read32 (imageMemory image) (offset - first.vaddr) + loadBias first) % 4294967296
  others : ∀ place < image.length,
    (∀ offset ∈ offsets, ¬(offset - first.vaddr ≤ place ∧ place < offset - first.vaddr + 4)) →
      after[place]? = image[place]?

section Program

variable {relocs size bias : Nat}

theorem relocateAll_eq {places : List Nat}
    (relative : ∀ place ∈ places, read32 elf (place + 4) % 256 = r386Relative) :
    places.foldlM (relocate elf) image = (places.map (read32 elf)).foldlM bump image := by
  induction places generalizing image with
  | nil => rfl
  | cons place rest ih =>
      obtain ⟨own, later⟩ := List.forall_mem_cons.mp relative
      rw [List.foldlM_cons, List.map_cons, List.foldlM_cons, relocate_eq image own]
      exact bind_congr fun next => ih later

theorem Relocatable.applyRelocations_eq (file : Relocatable elf first last dynamic relocs size bias)
    (image : List UInt8) : applyRelocations elf (programHeaders elf) image =
      (relocationOffsets elf bias size).foldlM bump image := by
  have some_size : size ≠ 0 := by
    have many := file.nonempty
    omega
  rw [applyRelocations, file.described]
  dsimp only
  rw [file.table, ok_bind, require_of file.present, ok_bind, file.length, ok_bind, require_of some_size, ok_bind,
    file.place, ok_bind]
  have relative : ∀ place ∈ (List.range (size / 8)).map fun index => bias + 8 * index,
      read32 elf (place + 4) % 256 = r386Relative := by
    intro place member
    obtain ⟨index, range, rfl⟩ := List.mem_map.mp member
    exact file.relative index (List.mem_range.mp range)
  have places := @relocateAll_eq elf image _ relative
  rw [List.foldlM_map, List.map_map] at places
  exact places

theorem top_byte_changes {memory changed : Memory} {offset : Nat}
    (word : read32 changed offset = (read32 memory offset + userStart) % 4294967296) :
    changed (offset + 3) ≠ memory (offset + 3) := by
  intro same
  have first := (memory offset).toNat_lt
  have second := (memory (offset + 1)).toNat_lt
  have third := (memory (offset + 2)).toNat_lt
  have fourth := (memory (offset + 3)).toNat_lt
  have one := (changed offset).toNat_lt
  have two := (changed (offset + 1)).toNat_lt
  have three := (changed (offset + 2)).toNat_lt
  rw [read32, read32, same, userStart] at word
  omega

theorem read32_kept {image after : List UInt8} {offset : Nat}
    (same : ∀ place, offset ≤ place → place < offset + 4 → after[place]? = image[place]?) :
    read32 (imageMemory after) offset = read32 (imageMemory image) offset := by
  have agree : AgreeOn (imageMemory image) (imageMemory after) offset (offset + 4) := by
    intro place lower upper
    simp only [imageMemory, List.getD_eq_getElem?_getD, same place lower upper]
  exact agree.read32_eq (Nat.le_refl _) (Nat.le_refl _)

/-- The words and the bytes around them are right, also after `.bss` is cleared, exactly when the
program is linked at address 0. -/
theorem relocation_law_iff (file : Relocatable elf first last dynamic relocs size bias)
    (copied : (programHeaders elf).foldlM (copySegment elf first) (List.replicate (imageSpan first last) 0) =
      .ok image) :
    (∃ after, applyRelocations elf (programHeaders elf) image = .ok after ∧
      RelocationLaw first (relocationOffsets elf bias size) image after ∧
      ∀ final, clearBss elf first after = .ok final → ∀ offset ∈ relocationOffsets elf bias size,
        read32 (imageMemory final) (offset - first.vaddr) = read32 (imageMemory after) (offset - first.vaddr)) ↔
      first.vaddr = 0 := by
  have imageLength : image.length = imageSpan first last := by
    rw [copySegments_eq] at copied
    rw [(copyLoads_fits copied).1, List.length_replicate]
  rw [file.applyRelocations_eq]
  constructor
  · rintro ⟨after, done, law, _⟩
    by_contra moved
    obtain ⟨length, words, _⟩ := bumps_spec file.apart done
    have many : relocationOffsets elf bias size ≠ [] := by
      have positive := file.nonempty
      simp only [relocationOffsets, ne_eq, List.map_eq_nil_iff, List.range_eq_nil]
      omega
    -- the highest relocated word changes, and no word that should change reaches that far
    obtain ⟨highest, isHighest⟩ := Option.ne_none_iff_exists'.mp (mt List.max?_eq_none_iff.mp many)
    have maximal := List.max?_eq_some_iff.mp isHighest
    obtain ⟨room, word⟩ := words highest maximal.1
    have kept := law.others (highest + 3) (by omega) (by
      intro offset member covered
      have below := maximal.2 offset member
      have above := (file.inside offset member).1
      omega)
    apply top_byte_changes word
    simp only [imageMemory, List.getD_eq_getElem?_getD, kept]
  · intro atZero
    have fits : ∀ offset ∈ relocationOffsets elf bias size, offset + 4 ≤ image.length := by
      intro offset member
      have bound := (file.inside offset member).2
      rw [imageLength]
      omega
    obtain ⟨after, done⟩ := bumps_succeed fits
    obtain ⟨length, words, others⟩ := bumps_spec file.apart done
    have same : ∀ offset : Nat, offset - first.vaddr = offset := by
      intro offset
      rw [atZero, Nat.sub_zero]
    have bias_eq : loadBias first = userStart := by
      rw [loadBias, atZero]
      rfl
    refine ⟨after, done, ⟨length, ?_, ?_⟩, ?_⟩
    · intro offset member
      rw [same, bias_eq, (words offset member).2]
    · intro place bound outside
      have byte := others place (by simpa only [same] using outside)
      rw [List.getElem?_eq_getElem (by omega), List.getElem?_eq_getElem bound]
      simpa [imageMemory, List.getD_eq_getElem?_getD, List.getElem?_eq_getElem, bound, length] using byte
    · intro final cleared offset member
      obtain ⟨again, sameClear, _, _, others⟩ := clearBss_eq (clearBss_inside cleared)
      cases cleared.symm.trans sameClear
      apply read32_kept
      intro place lower upper
      exact others place (file.kept offset member place lower upper)

end Program

section Pointer

def pointerElf (base : UInt8) : Memory := fun address =>
  match address with
  | 0 => 0x7F
  | 1 => 69
  | 2 => 76
  | 3 => 70
  | 24 => base
  | 28 => 52
  | 44 => 2
  | 52 => 1
  | 56 => 116
  | 60 => base
  | 68 => 40
  | 72 => 40
  | 84 => 2
  | 88 => 124
  | 116 => base
  | 124 => 17
  | 128 => base + 32
  | 132 => 18
  | 136 => 8
  | 148 => base
  | 152 => 8
  | _ => 0

def pointerSegment (base : Nat) : Phdr := { type := 1, offset := 116, vaddr := base, filesz := 40, memsz := 40 }

def pointerDynamic : Phdr := { type := 2, offset := 124, vaddr := 0, filesz := 0, memsz := 0 }

def pointerImage (base : UInt8) : List UInt8 := (List.range 40).map fun index => pointerElf base (116 + index)

theorem pointerElf_relocatable {base : UInt8}
    (headers : programHeaders (pointerElf base) = [pointerSegment base.toNat, pointerDynamic])
    (start : entry (pointerElf base) = base.toNat) (small : base.toNat < 128)
    (table : getDynamicEntry (pointerElf base) dtRel 536870912 124 = .ok (base.toNat + 32))
    (length : getDynamicEntry (pointerElf base) dtRelsz 536870912 124 = .ok 8)
    (offsets : relocationOffsets (pointerElf base) 148 8 = [base.toNat])
    (noBss : getSectionHdr (pointerElf base) bssName = none) :
    Relocatable (pointerElf base) (pointerSegment base.toNat) (pointerSegment base.toNat) pointerDynamic
      (base.toNat + 32) 8 148 := by
  have only : loads (pointerElf base) = [pointerSegment base.toNat] := by
    rw [loads, headers]
    rfl
  have span : imageSpan (pointerSegment base.toNat) (pointerSegment base.toNat) = 40 := by
    simp only [imageSpan, imageOffset, pointerSegment]
    omega
  constructor
  · rfl
  · rw [only]
    rfl
  · rw [only]
    rfl
  · exact Nat.le_refl _
  · rw [start]
    simp only [pointerSegment]
    omega
  · rw [headers]
    rfl
  · exact table
  · exact Nat.succ_ne_zero _
  · exact length
  · decide
  · rw [headers, getOffsetBias, List.find?_cons_of_pos]
    · simp only [pointerSegment]
      rw [Nat.add_sub_cancel_left]
      rfl
    · have lower : base.toNat ≤ base.toNat + 32 := Nat.le_add_right _ _
      have upper : base.toNat + 32 < (base.toNat + 40) % 4294967296 := by omega
      simp only [pointerSegment, lower, upper, decide_true, Bool.and_self]
  · intro index bound
    have first : index = 0 := by omega
    rw [first]
    rfl
  · rw [offsets, span]
    simp only [List.forall_mem_singleton, pointerSegment]
    omega
  · rw [offsets]
    exact List.pairwise_singleton _ _
  · rintro offset member place lower upper ⟨bss, found, _⟩
    rw [noBss] at found
    cases found

theorem relocation_misses_word :
    Relocatable (pointerElf 4) (pointerSegment 4) (pointerSegment 4) pointerDynamic 36 8 148 ∧
    (programHeaders (pointerElf 4)).foldlM (copySegment (pointerElf 4) (pointerSegment 4))
      (List.replicate (imageSpan (pointerSegment 4) (pointerSegment 4)) 0) = .ok (pointerImage 4) ∧
    applyRelocations (pointerElf 4) (programHeaders (pointerElf 4)) (pointerImage 4) =
      .ok ([4, 0, 0, 0, 0, 0, 0, 64] ++ (pointerImage 4).drop 8) ∧
    ¬∃ after, applyRelocations (pointerElf 4) (programHeaders (pointerElf 4)) (pointerImage 4) = .ok after ∧
      RelocationLaw (pointerSegment 4) (relocationOffsets (pointerElf 4) 148 8) (pointerImage 4) after := by
  have file : Relocatable (pointerElf 4) (pointerSegment 4) (pointerSegment 4) pointerDynamic 36 8 148 :=
    pointerElf_relocatable (by decide) (by decide) (by decide) (by decide) (by decide) (by decide) (by decide)
  have offsets : relocationOffsets (pointerElf 4) 148 8 = [4] := by decide
  have done : applyRelocations (pointerElf 4) (programHeaders (pointerElf 4)) (pointerImage 4) =
      .ok ([4, 0, 0, 0, 0, 0, 0, 64] ++ (pointerImage 4).drop 8) := by
    rw [file.applyRelocations_eq, offsets]
    decide
  refine ⟨file, by decide, done, ?_⟩
  rintro ⟨after, again, law⟩
  cases done.symm.trans again
  have word := law.words 4 (by rw [offsets]; decide)
  exact absurd word (by decide)

theorem relocation_law_iff_pointer :
    Relocatable (pointerElf 0) (pointerSegment 0) (pointerSegment 0) pointerDynamic 32 8 148 ∧
    ∃ after, applyRelocations (pointerElf 0) (programHeaders (pointerElf 0)) (pointerImage 0) = .ok after ∧
      RelocationLaw (pointerSegment 0) (relocationOffsets (pointerElf 0) 148 8) (pointerImage 0) after := by
  have file : Relocatable (pointerElf 0) (pointerSegment 0) (pointerSegment 0) pointerDynamic 32 8 148 :=
    pointerElf_relocatable (by decide) (by decide) (by decide) (by decide) (by decide) (by decide) (by decide)
  have copied : (programHeaders (pointerElf 0)).foldlM (copySegment (pointerElf 0) (pointerSegment 0))
      (List.replicate (imageSpan (pointerSegment 0) (pointerSegment 0)) 0) = .ok (pointerImage 0) := by
    decide
  obtain ⟨after, done, law, _⟩ := (relocation_law_iff file copied).mpr rfl
  exact ⟨file, after, done, law⟩

end Pointer

end Relocating

end ToyKernel.Loader
