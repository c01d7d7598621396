import ToyKernel.Vfs.Archive
import ToyKernel.Vfs.Trees

/-!
Archives and the trees that `ParseUSTAR` builds from them. Parsing inserts the entry of each
record into an empty forest, so the archive of a tree builds the tree again, and the order of
the records shows only in the order of siblings. A directory whose name fills the name field
is read with the mode behind it.
-/

namespace ToyKernel.Vfs

open Library

section Parsing

def Visit.op (memory : Memory) : Visit → Op
  | .dir info => dirOp info
  | .file info => fileOp memory info

def Record.op (record : Record) (text : Text) : Op :=
  if record.isDirectory then .mkdir [] text else .mkfile [] text record.contents

theorem performAll_visits (memory : Memory) (visits : List Visit) (tree : Node) :
    visits.foldlM (Visit.apply (fun info tree => perform tree (dirOp info))
      fun info tree => perform tree (fileOp memory info)) tree =
        performAll tree (visits.map (Visit.op memory)) := by
  induction visits generalizing tree with
  | nil => rfl
  | cons visit rest ih =>
      rw [List.foldlM_cons, List.map_cons, performAll]
      simp only [ih]
      cases visit <;> rfl

theorem parseUSTAR_visits {memory : Memory} {archive : Nat} {records : List Record}
    (laid : ArchiveAt memory archive records) (nonempty : ∀ record ∈ records, ¬record.IsEmptyFile) :
    ∃ visits, List.Forall₂ (Reads memory) (placed archive records) visits ∧
      parseUSTAR memory archive = performAll rootDirectory (visits.map (Visit.op memory)) := by
  obtain ⟨visits, read, visited⟩ := iterateUSTAR_archive laid nonempty
  refine ⟨visits, read, ?_⟩
  rw [parseUSTAR_eq, ← performAll_visits, ← visited]
  rfl

theorem Describes.op {memory : Memory} {tar : Nat} {record : Record} {visit : Visit}
    (described : Describes memory (tar, record) visit) (bare : record.namePrefix = []) :
    visit.op memory = record.op visit.name := by
  cases visit with
  | dir info =>
      obtain ⟨directory, front, _⟩ := described
      rw [Visit.op, dirOp, DirInfo.getFullPath, front, bare, Record.op, if_pos directory]
      rfl
  | file info =>
      obtain ⟨directory, front, _, _, _, contents⟩ := described
      have notDirectory : ¬record.isDirectory = true := by simpa using directory
      rw [Visit.op, fileOp, FileInfo.getFullPath, front, bare, contents, Record.op, if_neg notDirectory]
      rfl

def Stands : Forest.Entry Text (List UInt8) → Op → Prop
  | .branch path, .mkdir dir text =>
      dir = [] ∧ (∀ name ∈ path, ProperName name) ∧ SpellsDir text path
  | .leaf path name value, .mkfile dir text data =>
      dir = [] ∧ (∀ name ∈ path, ProperName name) ∧ ProperName name ∧ SpellsFile text path name ∧
        data = value
  | _, _ => False

variable {entry : Forest.Entry Text (List UInt8)} {op : Op}

theorem Stands.dir (stands : Stands entry op) : op.dir = [] := by
  cases entry <;> cases op <;> simp_all [Stands, Op.dir]

theorem Stands.proper (stands : Stands entry op) : ∀ name ∈ entry.path, ProperName name := by
  cases entry with
  | branch path =>
      cases op with
      | mkdir dir text => exact stands.2.1
      | mkfile dir text data => exact stands.elim
  | leaf path name value =>
      cases op with
      | mkdir dir text => exact stands.elim
      | mkfile dir text data =>
          intro other member
          rcases List.mem_append.mp member with inside | last
          · exact stands.2.1 other inside
          · rw [List.mem_singleton.mp last]
            exact stands.2.2.1

variable {name : Text} {parent : Option Cursor} {nodes : List Node} {after : Forest Text (List UInt8)}

theorem Stands.perform (stands : Stands entry op) (rooted : Rooted (.directory name parent nodes))
    (tidy : (forestOf nodes).AllKeys fun name => simplified name = name)
    (inserted : entry.insert (forestOf nodes) = some after) :
    ∃ all, perform (.directory name parent nodes) op = .ok (.directory name parent all) ∧
      forestOf all = after := by
  cases entry with
  | branch path =>
      cases op with
      | mkdir dir text =>
          obtain ⟨rfl, proper, spells⟩ := stands
          exact mkdir_insert rooted tidy proper spells inserted
      | mkfile dir text data => exact stands.elim
  | leaf path last value =>
      cases op with
      | mkdir dir text => exact stands.elim
      | mkfile dir text data =>
          obtain ⟨rfl, proper, properLast, spells, rfl⟩ := stands
          exact mkfile_insert rooted tidy proper properLast spells inserted

theorem performAll_insert {entries : List (Forest.Entry Text (List UInt8))} {ops : List Op}
    (stands : List.Forall₂ Stands entries ops) (rooted : Rooted (.directory name parent nodes))
    (tidy : (forestOf nodes).AllKeys fun name => simplified name = name)
    (inserted : (forestOf nodes).insertAll entries = some after) :
    ∃ all, performAll (.directory name parent nodes) ops = .ok (.directory name parent all) ∧
      forestOf all = after := by
  induction stands generalizing nodes with
  | nil => exact ⟨nodes, rfl, Option.some.inj inserted⟩
  | cons here later ih =>
      rw [Forest.insertAll_cons] at inserted
      obtain ⟨middle, first, rest⟩ := Option.bind_eq_some_iff.mp inserted
      obtain ⟨grown, performed, holds⟩ := here.perform rooted tidy first
      have isDir := rooted_isDirectory rooted
      rw [← here.dir] at isDir
      have stillRooted := perform_rooted rooted isDir performed
      have stillTidy : (forestOf grown).AllKeys fun name => simplified name = name := by
        rw [holds]
        exact tidy.insert (fun key member => (here.proper key member).simple) first
      obtain ⟨all, done, built⟩ := ih stillRooted stillTidy (by rwa [holds])
      exact ⟨all, by rw [performAll, performed]; exact done, built⟩

theorem parse_inserts {memory : Memory} {archive : Nat} {ops : List Op}
    {entries : List (Forest.Entry Text (List UInt8))}
    (parsed : parseUSTAR memory archive = performAll rootDirectory ops)
    (stands : List.Forall₂ Stands entries ops)
    (inserted : Forest.nil.insertAll entries = some after) :
    ∃ root, parseUSTAR memory archive = .ok root ∧ root.isDirectory = true ∧
      forestOf root.nodes = after := by
  obtain ⟨all, performed, built⟩ := performAll_insert stands rootDirectory_rooted trivial inserted
  exact ⟨_, parsed.trans performed, rfl, built⟩

end Parsing

section Modes

structure ModeField (memory : Memory) (tar : Nat) (digits : Text) : Prop where
  width : digits.length = 7
  octal : ∀ digit ∈ digits, 48 ≤ digit.toNat ∧ digit.toNat < 56
  stored : ∀ position < 7, memory (tar + 100 + position) = digits.getD position 0
  ended : memory (tar + 107) = 0

def ModesAt (mode : Record → Text) (memory : Memory) (archive : Nat) (records : List Record) : Prop :=
  ∀ place ∈ placed archive records, place.2.name.length = 100 →
    ModeField memory place.1 (mode place.2)

/-- What the name field is read as: a name that fills it runs on into the mode. -/
def Record.readName (mode : Record → Text) (record : Record) : Text :=
  if record.name.length < 100 then record.name else record.name ++ mode record

variable {memory : Memory} {tar : Nat} {record : Record} {digits : Text} {mode : Record → Text}

theorem ModeField.proper (field : ModeField memory tar digits) : ProperName digits := by
  have width := field.width
  have solid : ∀ digit ∈ digits, digit ≠ kPathSeparator ∧ isspace digit = false := by
    intro digit member
    obtain ⟨lower, upper⟩ := field.octal digit member
    obtain ⟨value, rfl⟩ : ∃ value : Fin 8, digit = UInt8.ofNat (48 + value.val) :=
      ⟨⟨digit.toNat - 48, by omega⟩, by rw [Nat.add_sub_cancel' lower, UInt8.ofNat_toNat]⟩
    clear member lower upper
    revert value
    decide
  have nonempty : digits ≠ [] := by
    rintro rfl
    cases width
  refine ⟨nonempty, fun member => (solid _ member).1 rfl, ?_, ?_, ?_⟩
  · rintro rfl
    cases width
  · cases digits with
    | nil => exact absurd rfl nonempty
    | cons first rest => exact (solid first (by simp)).2
  · rw [List.getLastD_eq_getLast?, List.getLast?_eq_some_getLast nonempty]
    exact (solid _ (List.getLast_mem nonempty)).2

theorem ModeField.name_read (field : ModeField memory tar digits) (header : HeaderBlock memory tar record)
    (wellFormed : record.WellFormed) (bound : tar + 512 ≤ 4294967296) (full : record.name.length = 100) :
    stringAt memory tar = .ok (record.name ++ digits) := by
  have width := field.width
  have noZero : 0 ∉ digits := by
    intro member
    have octal := (field.octal 0 member).1
    simp at octal
  have bytes : ∀ position < 107, memory (tar + position) = (record.name ++ digits).getD position 0 := by
    intro position inside
    by_cases early : position < 100
    · rw [header.name position early, List.getD_append _ _ _ _ (by omega)]
    · obtain ⟨offset, rfl⟩ : ∃ offset, position = 100 + offset := ⟨position - 100, by omega⟩
      rw [← Nat.add_assoc, field.stored offset (by omega), List.getD_append_right _ _ _ _ (by omega), full,
        Nat.add_sub_cancel_left]
  refine stringAt_field ?_ ?_ bytes ?_ (by omega)
  · rw [List.mem_append, not_or]
    exact ⟨wellFormed.nameBytes, noZero⟩
  · rw [List.length_append]
    omega
  · rw [List.length_append, full, width]
    exact field.ended

theorem Reads.op {visit : Visit} (read : Reads memory (tar, record) visit) (header : HeaderBlock memory tar record)
    (wellFormed : record.WellFormed) (bound : tar + 512 ≤ 4294967296) (bare : record.namePrefix = [])
    (field : record.name.length = 100 → ModeField memory tar (mode record)) :
    visit.op memory = record.op (record.readName mode) := by
  rw [read.1.op bare]
  congr 1
  have limit := wellFormed.name
  unfold Record.readName
  by_cases short : record.name.length < 100
  · have named : NameRead record visit.name := by
      cases visit with
      | dir info => exact read.1.2.2
      | file info => exact read.1.2.2.1
    rw [if_pos short, named.1 short]
  · have full : record.name.length = 100 := by omega
    have found := (field full).name_read header wellFormed bound full
    have same : Except.ok (record.name ++ mode record) = Except.ok visit.name := found.symm.trans read.2
    rw [if_neg short]
    exact (Except.ok.inj same).symm

theorem reads_ops {records : List Record} {visits : List Visit} (laid : ArchiveAt memory tar records)
    (modes : ModesAt mode memory tar records) (bare : ∀ record ∈ records, record.namePrefix = [])
    (read : List.Forall₂ (Reads memory) (placed tar records) visits) :
    visits.map (Visit.op memory) = records.map fun record => record.op (record.readName mode) := by
  induction records generalizing tar visits with
  | nil =>
      rw [List.forall₂_nil_left_iff.mp read]
      rfl
  | cons record rest ih =>
      obtain ⟨visit, later, here, below, rfl⟩ := List.forall₂_cons_left_iff.mp read
      obtain ⟨wellFormed, header, _, laidRest⟩ := laid
      have bound := laidRest.bound
      simp only [Record.span, kTarBlockSize] at bound
      have first := here.op header wellFormed (by omega) (bare record (by simp))
        (modes (tar, record) (by simp [placed]))
      have others := ih laidRest (fun place member => modes place (by simp [placed, member]))
        (fun other member => bare other (by simp [member])) below
      rw [List.map_cons, List.map_cons, first, others]

theorem parseUSTAR_records {records : List Record} (laid : ArchiveAt memory tar records)
    (modes : ModesAt mode memory tar records) (bare : ∀ record ∈ records, record.namePrefix = [])
    (nonempty : ∀ record ∈ records, ¬record.IsEmptyFile) :
    parseUSTAR memory tar =
      performAll rootDirectory (records.map fun record => record.op (record.readName mode)) := by
  obtain ⟨visits, read, parsed⟩ := parseUSTAR_visits laid nonempty
  rw [parsed, reads_ops laid modes bare read]

end Modes

section Order

/-- The record writes the entry in some spelling. The path is at most 99 bytes long; the final
separator of a directory is not counted. -/
structure Writes (entry : Forest.Entry Text (List UInt8)) (record : Record) : Prop where
  bare : record.namePrefix = []
  nonempty : ¬record.IsEmptyFile
  stands : Stands entry (record.op record.name)
  short : record.name.length ≤ 99 ∨ ∃ path text, entry = .branch path ∧
    record.name = text ++ [kPathSeparator] ∧ text.length ≤ 99

variable {entry other : Forest.Entry Text (List UInt8)} {record : Record} {mode : Record → Text}

theorem slashed_concat (front : List Text) (last : Text) :
    slashed (front ++ [last]) = slashed front ++ last ++ [kPathSeparator] := by
  simp [slashed]

theorem SpellsDir.length {text : Text} {path : List Text} (spells : SpellsDir text path) :
    (slashed path).length ≤ text.length + 1 := by
  obtain ⟨lead, _, rfl | ⟨front, last, rfl, rfl⟩⟩ := spells
  · simp only [List.length_append]
    omega
  · simp only [slashed_concat, List.length_append, List.length_singleton]
    omega

theorem Stands.length {text : Text} (stands : Stands entry (record.op text)) :
    (slashed entry.path).length ≤ text.length + 1 := by
  unfold Record.op at stands
  cases entry with
  | branch path =>
      split at stands
      · exact stands.2.2.length
      · exact stands.elim
  | leaf path name value =>
      split at stands
      · exact stands.elim
      · obtain ⟨lead, _, whole⟩ := stands.2.2.2.1
        simp only [whole, Forest.Entry.path, slashed_concat, List.length_append, List.length_singleton]
        omega

def shown (mode : Record → Text) (record : Record) (entry : Forest.Entry Text (List UInt8)) :
    Forest.Entry Text (List UInt8) :=
  if record.name.length < 100 then entry
  else
    match entry with
    | .branch path => .branch (path ++ [mode record])
    | .leaf path name value => .leaf path name value

theorem Writes.limit (writes : Writes entry record) : record.name.length ≤ 100 := by
  rcases writes.short with short | ⟨_, text, _, whole, short⟩
  · omega
  · rw [whole, List.length_append, List.length_singleton]
    omega

theorem shown_short (short : record.name.length < 100) : shown mode record entry = entry := if_pos short

variable (mode) in
/-- A name that fills its field is that of a directory, with its final separator. -/
theorem Writes.full (writes : Writes entry record) (full : ¬record.name.length < 100) :
    ∃ path lead, entry = .branch path ∧ shown mode record entry = .branch (path ++ [mode record]) ∧
      (lead = [] ∨ lead = leadingDot) ∧ record.name = lead ++ slashed path ∧
      (∀ name ∈ path, ProperName name) ∧ record.isDirectory = true := by
  rcases writes.short with short | ⟨path, text, rfl, whole, _⟩
  · omega
  · have stands := writes.stands
    unfold Record.op at stands
    split at stands
    · rename_i directory
      obtain ⟨_, proper, lead, leads, spelled | ⟨front, last, rfl, spelled⟩⟩ := stands
      · exact ⟨path, lead, rfl, if_neg full, leads, spelled, proper, directory⟩
      · have properLast := proper last (by simp)
        have ends : (lead ++ (slashed front ++ last)).getLast? = some kPathSeparator := by
          rw [← spelled, whole, List.getLast?_concat]
        rw [← List.append_assoc, List.getLast?_append_of_ne_nil _ properLast.nonempty] at ends
        exact absurd (List.mem_of_getLast? ends) properLast.plain
    · exact stands.elim

theorem Writes.shown_stands (writes : Writes entry record)
    (field : record.name.length = 100 → ProperName (mode record)) :
    Stands (shown mode record entry) (record.op (record.readName mode)) := by
  have limit := writes.limit
  unfold Record.readName
  by_cases short : record.name.length < 100
  · rw [shown_short short, if_pos short]
    exact writes.stands
  · obtain ⟨path, lead, _, shows, leads, spelled, proper, directory⟩ := writes.full mode short
    have properMode := field (by omega)
    rw [shows, if_neg short, Record.op, if_pos directory]
    refine ⟨rfl, ?_, lead, leads, .inr ⟨path, mode record, rfl, ?_⟩⟩
    · intro name member
      rcases List.mem_append.mp member with inside | last
      · exact proper name inside
      · rw [List.mem_singleton.mp last]
        exact properMode
    · rw [spelled, List.append_assoc]

/-- No record can write what lies below a directory whose name fills its field. -/
theorem Writes.not_below {recordOther : Record} (writes : Writes entry record)
    (full : ¬record.name.length < 100) (width : (mode record).length = 7)
    (writesOther : Writes other recordOther) : (shown mode record entry).path ≠ other.path := by
  obtain ⟨path, lead, _, shows, leads, spelled, _⟩ := writes.full mode full
  intro same
  have long := writesOther.stands.length
  have limit := writesOther.limit
  have whole : 100 ≤ (lead ++ slashed path).length := by
    rw [← spelled]
    omega
  have leadLength : lead.length ≤ 2 := by
    rcases leads with rfl | rfl <;> decide
  rw [← same, shows, Forest.Entry.path, slashed_concat] at long
  simp only [List.length_append, List.length_singleton] at long whole
  omega

section Lists
variable {entryOf : Record → Forest.Entry Text (List UInt8)} {records : List Record}

theorem shown_kind {value : List UInt8} (writes : Writes entry record)
    (isLeaf : (shown mode record entry).kind = .leaf value) : shown mode record entry = entry := by
  by_cases short : record.name.length < 100
  · exact shown_short short
  · obtain ⟨path, _, _, shows, _⟩ := writes.full mode short
    rw [shows] at isLeaf
    cases isLeaf

/-- The modes that are read along with full names bring no conflict into the entries. -/
theorem shown_consistent (written : ∀ record ∈ records, Writes (entryOf record) record)
    (consistent : Forest.Consistent (records.map entryOf))
    (widths : ∀ record ∈ records, record.name.length = 100 → (mode record).length = 7) :
    Forest.Consistent (records.map fun record => shown mode record (entryOf record)) := by
  have width : ∀ record ∈ records, ¬record.name.length < 100 → (mode record).length = 7 := by
    intro record member full
    have limit := (written record member).limit
    exact widths record member (by omega)
  have apart := List.pairwise_map.mp consistent.distinct
  refine ⟨List.pairwise_map.mpr (apart.imp_of_mem ?_), ?_⟩
  · intro one other memberOne memberOther different same
    by_cases shortOne : one.name.length < 100
    · by_cases shortOther : other.name.length < 100
      · rw [shown_short shortOne, shown_short shortOther] at same
        exact different same
      · rw [shown_short shortOne] at same
        exact (written other memberOther).not_below shortOther (width other memberOther shortOther)
          (written one memberOne) same.symm
    · by_cases shortOther : other.name.length < 100
      · rw [shown_short shortOther] at same
        exact (written one memberOne).not_below shortOne (width one memberOne shortOne)
          (written other memberOther) same
      · obtain ⟨pathOne, _, entryOne, showsOne, _⟩ := (written one memberOne).full mode shortOne
        obtain ⟨pathOther, _, entryOther, showsOther, _⟩ := (written other memberOther).full mode shortOther
        rw [showsOne, showsOther] at same
        rw [entryOne, entryOther] at different
        exact different (List.append_inj' same rfl).1
  · simp only [List.mem_map, forall_exists_index, and_imp, forall_apply_eq_imp_iff₂]
    intro one memberOne other memberOther value isLeaf within
    have unchanged := shown_kind (written one memberOne) isLeaf
    rw [unchanged] at isLeaf within ⊢
    have passable := consistent.passable (entryOf one) (List.mem_map_of_mem memberOne) (entryOf other)
      (List.mem_map_of_mem memberOther) value isLeaf
    by_cases shortOther : other.name.length < 100
    · rw [shown_short shortOther] at within ⊢
      exact passable within
    · obtain ⟨pathOther, _, entryOther, showsOther, _⟩ := (written other memberOther).full mode shortOther
      rw [showsOther] at within
      rcases List.prefix_concat_iff.mp within with whole | inside
      · rw [showsOther]
        exact whole
      · rw [entryOther] at passable
        have same := passable inside
        have distinctRecords : one ≠ other := by
          rintro rfl
          rw [entryOther] at isLeaf
          cases isLeaf
        have : Std.Symm fun one other => (entryOf one).path ≠ (entryOf other).path :=
          ⟨fun _ _ differ => Ne.symm differ⟩
        have different := apart.forall memberOne memberOther distinctRecords
        rw [entryOther] at different
        exact absurd same different

theorem parse_written {memory : Memory} {archive : Nat} {forest : Forest Text (List UInt8)}
    (written : ∀ record ∈ records, Writes (entryOf record) record)
    (laid : ArchiveAt memory archive records) (modes : ModesAt mode memory archive records)
    (proper : ∀ record ∈ records, record.name.length = 100 → ProperName (mode record))
    (inserted : Forest.nil.insertAll (records.map fun record => shown mode record (entryOf record)) =
      some forest) :
    ∃ root, parseUSTAR memory archive = .ok root ∧ root.isDirectory = true ∧
      forestOf root.nodes = forest := by
  have parsed := parseUSTAR_records laid modes (fun record member => (written record member).bare)
    fun record member => (written record member).nonempty
  refine parse_inserts parsed ?_ inserted
  rw [List.forall₂_map_left_iff, List.forall₂_map_right_iff, List.forall₂_same]
  intro record member
  exact (written record member).shown_stands (proper record member)

end Lists

theorem placed_mem {records : List Record} (tar : Nat) (member : record ∈ records) :
    ∃ address, (address, record) ∈ placed tar records := by
  induction records generalizing tar with
  | nil => cases member
  | cons first rest ih =>
      rcases List.mem_cons.mp member with rfl | later
      · exact ⟨tar, by simp [placed]⟩
      · obtain ⟨address, found⟩ := ih (tar + first.span) later
        exact ⟨address, by simp [placed, found]⟩

/-- Archives with the same records in any order give the same tree up to the order of
siblings. -/
theorem parse_order_irrelevant {memory memoryOther : Memory} {archive archiveOther : Nat}
    {records others : List Record} {entryOf : Record → Forest.Entry Text (List UInt8)}
    (written : ∀ record ∈ records, Writes (entryOf record) record)
    (consistent : Forest.Consistent (records.map entryOf)) (perm : records.Perm others)
    (laid : ArchiveAt memory archive records) (modes : ModesAt mode memory archive records)
    (laidOther : ArchiveAt memoryOther archiveOther others)
    (modesOther : ModesAt mode memoryOther archiveOther others) :
    ∃ root rootOther, parseUSTAR memory archive = .ok root ∧
      parseUSTAR memoryOther archiveOther = .ok rootOther ∧
      root.isDirectory = true ∧ rootOther.isDirectory = true ∧
      Forest.Alike (forestOf root.nodes) (forestOf rootOther.nodes) := by
  have fields : ∀ record ∈ records, record.name.length = 100 →
      ∃ address, ModeField memory address (mode record) := by
    intro record member full
    obtain ⟨address, found⟩ := placed_mem archive member
    exact ⟨address, modes _ found full⟩
  have widths : ∀ record ∈ records, record.name.length = 100 → (mode record).length = 7 := by
    intro record member full
    exact (fields record member full).choose_spec.width
  have proper : ∀ record ∈ records, record.name.length = 100 → ProperName (mode record) := by
    intro record member full
    exact (fields record member full).choose_spec.proper
  obtain ⟨forest, forestOther, inserted, insertedOther, alike⟩ :=
    Forest.insertAll_perm (shown_consistent written consistent widths)
      (perm.map fun record => shown mode record (entryOf record))
  obtain ⟨root, parsed, isDir, holds⟩ := parse_written written laid modes proper inserted
  obtain ⟨rootOther, parsedOther, isDirOther, holdsOther⟩ :=
    parse_written (fun record member => written record (perm.mem_iff.mpr member)) laidOther modesOther
      (fun record member => proper record (perm.mem_iff.mpr member)) insertedOther
  refine ⟨root, rootOther, parsed, parsedOther, isDir, isDirOther, ?_⟩
  rw [holds, holdsOther]
  exact alike

def childFirst : List Record := [⟨false, [], [97, 47, 98], [1]⟩, ⟨true, [], [97, 47], []⟩]

def childFirstEntry (record : Record) : Forest.Entry Text (List UInt8) :=
  if record.isDirectory then .branch [[97]] else .leaf [[97]] [98] [1]

theorem parse_order_irrelevant_two : ∃ root rootOther,
    parseUSTAR (archiveMemory 4096 childFirst) 4096 = .ok root ∧
    parseUSTAR (archiveMemory 4096 childFirst.reverse) 4096 = .ok rootOther ∧
    Forest.Alike (forestOf root.nodes) (forestOf rootOther.nodes) := by
  have properA : ProperName [97] := ⟨by decide, by decide, by decide, by decide, by decide⟩
  have properB : ProperName [98] := ⟨by decide, by decide, by decide, by decide, by decide⟩
  have wellFormed : ∀ record ∈ childFirst, record.WellFormed := by
    simp only [childFirst, List.forall_mem_cons, List.not_mem_nil, false_implies, implies_true, and_true]
    exact ⟨⟨by decide, by decide, by decide, by decide, by decide⟩,
      ⟨by decide, by decide, by decide, by decide, by decide⟩⟩
  have laid : ArchiveAt (archiveMemory 4096 childFirst) 4096 childFirst :=
    archiveMemory_holds wellFormed (by decide)
  have laidOther : ArchiveAt (archiveMemory 4096 childFirst.reverse) 4096 childFirst.reverse :=
    archiveMemory_holds (fun record member => wellFormed record (List.mem_reverse.mp member)) (by decide)
  have short : ∀ place ∈ placed 4096 childFirst ++ placed 4096 childFirst.reverse,
      place.2.name.length ≠ 100 := by
    decide
  have modes : ModesAt (fun _ => []) (archiveMemory 4096 childFirst) 4096 childFirst := by
    intro place member full
    exact absurd full (short place (List.mem_append_left _ member))
  have modesOther : ModesAt (fun _ => []) (archiveMemory 4096 childFirst.reverse) 4096
      childFirst.reverse := by
    intro place member full
    exact absurd full (short place (List.mem_append_right _ member))
  have written : ∀ record ∈ childFirst, Writes (childFirstEntry record) record := by
    simp only [childFirst, List.forall_mem_cons, List.not_mem_nil, false_implies, implies_true, and_true]
    refine ⟨⟨rfl, by simp [Record.IsEmptyFile], ?_, .inl (by decide)⟩,
      ⟨rfl, by simp [Record.IsEmptyFile], ?_, .inl (by decide)⟩⟩
    · exact ⟨rfl, by simpa using properA, properB, ⟨[], .inl rfl, rfl⟩, rfl⟩
    · exact ⟨rfl, by simpa using properA, [], .inl rfl, .inl rfl⟩
  have consistent : Forest.Consistent (childFirst.map childFirstEntry) :=
    ⟨by decide, by simp [childFirst, childFirstEntry, Forest.Entry.kind, Forest.Entry.path]⟩
  obtain ⟨root, rootOther, parsed, parsedOther, _, _, alike⟩ := parse_order_irrelevant written consistent
    (List.reverse_perm childFirst).symm laid modes laidOther modesOther
  exact ⟨root, rootOther, parsed, parsedOther, alike⟩

end Order

section Tar

def tarEntries (front : Text) : Forest Text (List UInt8) → List Record
  | .nil => []
  | .leaf name contents rest => ⟨false, [], front ++ name, contents⟩ :: tarEntries front rest
  | .branch name entries rest =>
      ⟨true, [], front ++ (name ++ [kPathSeparator]), []⟩ ::
        (tarEntries (front ++ (name ++ [kPathSeparator])) entries ++ tarEntries front rest)

/-- What `tar --format=ustar -C dir .` writes for a directory with the given entries. -/
def tarRecords (forest : Forest Text (List UInt8)) : List Record :=
  ⟨true, [], leadingDot, []⟩ :: tarEntries leadingDot forest

def filePaths (front : Text) : Forest Text (List UInt8) → List Text
  | .nil => []
  | .leaf name _ rest => (front ++ name) :: filePaths front rest
  | .branch name entries rest =>
      (front ++ name) :: (filePaths (front ++ (name ++ [kPathSeparator])) entries ++ filePaths front rest)

def directoryPaths (front : Text) : Forest Text (List UInt8) → List Text
  | .nil => []
  | .leaf _ _ rest => directoryPaths front rest
  | .branch name entries rest =>
      (front ++ name) ::
        (directoryPaths (front ++ (name ++ [kPathSeparator])) entries ++ directoryPaths front rest)

structure Archivable (forest : Forest Text (List UInt8)) : Prop where
  names : forest.AllKeys fun name => ProperName name ∧ 0 ∉ name
  distinct : forest.Distinct
  files : forest.AllValues fun contents => contents ≠ []
  short : ∀ path ∈ filePaths leadingDot forest, path.length ≤ 99

structure TarArchive (memory : Memory) (archive : Nat) (forest : Forest Text (List UInt8)) : Prop where
  laid : ArchiveAt memory archive (tarRecords forest)
  modes : ∃ mode, ModesAt mode memory archive (tarRecords forest)

variable {mode : Record → Text}

theorem tarEntries_bare (front : Text) (forest : Forest Text (List UInt8)) :
    ∀ record ∈ tarEntries front forest, record.namePrefix = [] := by
  induction forest generalizing front with
  | nil => simp [tarEntries]
  | leaf name contents rest ih =>
      simp only [tarEntries, List.mem_cons, forall_eq_or_imp, true_and]
      exact ih front
  | branch name entries rest ihEntries ih =>
      simp only [tarEntries, List.mem_cons, List.mem_append, forall_eq_or_imp, true_and]
      rintro record (inside | later)
      · exact ihEntries _ record inside
      · exact ih front record later

theorem tarEntries_nonempty (front : Text) {forest : Forest Text (List UInt8)}
    (files : forest.AllValues fun contents => contents ≠ []) :
    ∀ record ∈ tarEntries front forest, ¬record.IsEmptyFile := by
  induction forest generalizing front with
  | nil => simp [tarEntries]
  | leaf name contents rest ih =>
      simp only [tarEntries, List.mem_cons, forall_eq_or_imp]
      exact ⟨fun empty => files.1 empty.2, ih front files.2⟩
  | branch name entries rest ihEntries ih =>
      simp only [tarEntries, List.mem_cons, List.mem_append, forall_eq_or_imp]
      refine ⟨fun empty => Bool.noConfusion empty.1, ?_⟩
      rintro record (inside | later)
      · exact ihEntries _ files.1 record inside
      · exact ih front files.2 record later

/-- Nothing fits below a directory whose path takes up all the 99 bytes. -/
theorem full_directory_empty {front : Text} {entries : Forest Text (List UInt8)}
    (short : ∀ path ∈ filePaths front entries, path.length ≤ 99) (full : front.length = 100) :
    entries = .nil := by
  cases entries with
  | nil => rfl
  | leaf name contents rest =>
      have long := short (front ++ name) (by simp [filePaths])
      rw [List.length_append] at long
      omega
  | branch name entries rest =>
      have long := short (front ++ name) (by simp [filePaths])
      rw [List.length_append] at long
      omega

/-- What the records of a tree list is the tree itself, unless a directory name fills its
field. -/
theorem tarEntries_listed {forest : Forest Text (List UInt8)} (path : List Text)
    (properPath : ∀ name ∈ path, ProperName name)
    (names : forest.AllKeys fun name => ProperName name ∧ 0 ∉ name)
    (short : ∀ file ∈ filePaths (leadingDot ++ slashed path) forest, file.length ≤ 99)
    (proper : ∀ record ∈ tarEntries (leadingDot ++ slashed path) forest,
      record.name.length = 100 → ProperName (mode record)) :
    ∃ entries listed, List.Forall₂ Stands (entries.map (Forest.Entry.beneath path))
        ((tarEntries (leadingDot ++ slashed path) forest).map fun record =>
          record.op (record.readName mode)) ∧
      Forest.Lists entries listed ∧ listed.keys = forest.keys ∧ (forest.Distinct → listed.Distinct) ∧
      (listed = forest ↔ ∀ dir ∈ directoryPaths (leadingDot ++ slashed path) forest, dir.length ≠ 99) := by
  induction forest generalizing path with
  | nil => exact ⟨[], .nil, .nil, .nil, rfl, id, by simp [directoryPaths]⟩
  | leaf name contents rest ih =>
      simp only [tarEntries, filePaths, List.mem_cons, forall_eq_or_imp] at short proper
      obtain ⟨entries, listed, stands, lists, keys, distinct, same⟩ :=
        ih path properPath names.2 short.2 proper.2
      refine ⟨.leaf [] name contents :: entries, .leaf name contents listed, ?_,
        .leaf name contents lists, ?_, ?_, ?_⟩
      · refine .cons ?_ stands
        have fits : (leadingDot ++ slashed path ++ name).length < 100 := by
          have limit := short.1
          omega
        simp only [Record.readName, if_pos fits]
        refine ⟨rfl, by simpa using properPath, names.1.1, ⟨leadingDot, .inr rfl, ?_⟩, rfl⟩
        rw [List.append_nil, List.append_assoc]
      · rw [Forest.keys, Forest.keys, keys]
      · rintro ⟨fresh, later⟩
        exact ⟨by rwa [keys], distinct later⟩
      · rw [directoryPaths, ← same]
        simp
  | branch name inner rest ihInner ih =>
      simp only [tarEntries, filePaths, List.mem_cons, List.mem_append, forall_eq_or_imp] at short proper
      have properBelow : ∀ other ∈ path ++ [name], ProperName other := by
        intro other member
        rcases List.mem_append.mp member with inside | last
        · exact properPath other inside
        · rw [List.mem_singleton.mp last]
          exact names.1.1
      have deeper : leadingDot ++ slashed path ++ (name ++ [kPathSeparator]) =
          leadingDot ++ slashed (path ++ [name]) := by
        rw [slashed_concat]
        simp
      obtain ⟨entries, listed, stands, lists, keys, distinct, same⟩ := ih path properPath names.2.2
        (fun file member => short.2 file (.inr member)) fun record member => proper.2 record (.inr member)
      have limit := short.1
      simp only [tarEntries, directoryPaths, List.map_cons, List.map_append, List.mem_cons, List.mem_append,
        forall_eq_or_imp]
      by_cases full : (leadingDot ++ slashed path ++ name).length = 99
      · have recordFull : (leadingDot ++ slashed path ++ (name ++ [kPathSeparator])).length = 100 := by
          simp only [List.length_append, List.length_singleton] at full ⊢
          omega
        obtain rfl := full_directory_empty (fun file member => short.2 file (.inl member)) recordFull
        obtain ⟨digits, read⟩ : ∃ digits, mode ⟨true, [], leadingDot ++ slashed path ++
            (name ++ [kPathSeparator]), []⟩ = digits := ⟨_, rfl⟩
        have properMode := proper.1 recordFull
        rw [read] at properMode
        refine ⟨.branch [name, digits] :: entries, .branch name (.branch digits .nil .nil) listed, ?_,
          .chain name digits lists, ?_, ?_, ?_⟩
        · refine .cons ?_ stands
          have notShort : ¬(leadingDot ++ slashed path ++ (name ++ [kPathSeparator])).length < 100 := by
            omega
          simp only [Record.readName, if_neg notShort, read]
          refine ⟨rfl, ?_, leadingDot, .inr rfl, .inr ⟨path ++ [name], digits, by simp, ?_⟩⟩
          · intro other member
            have split : other ∈ path ++ [name] ∨ other = digits := by simpa [or_assoc] using member
            rcases split with inside | rfl
            · exact properBelow other inside
            · exact properMode
          · rw [deeper, List.append_assoc]
        · rw [Forest.keys, Forest.keys, keys]
        · rintro ⟨fresh, _, later⟩
          exact ⟨by rwa [keys], ⟨by simp [Forest.keys], trivial, trivial⟩, distinct later⟩
        · constructor
          · intro equal
            cases equal
          · intro condition
            exact absurd full condition.1
      · have recordShort : (leadingDot ++ slashed path ++ (name ++ [kPathSeparator])).length < 100 := by
          simp only [List.length_append, List.length_singleton] at full limit ⊢
          omega
        rw [deeper] at short proper recordShort ⊢
        obtain ⟨innerEntries, innerListed, innerStands, innerLists, innerKeys, innerDistinct, innerSame⟩ :=
          ihInner (path ++ [name]) properBelow names.2.1
            (fun file member => short.2 file (.inl member)) fun record member => proper.2 record (.inl member)
        refine ⟨.branch [name] :: (innerEntries.map (Forest.Entry.below name) ++ entries),
          .branch name innerListed listed, ?_, .branch name innerLists lists, ?_, ?_, ?_⟩
        · rw [List.map_cons, List.map_append, List.map_map]
          refine .cons ?_ (List.rel_append ?_ stands)
          · simp only [Record.readName, if_pos recordShort]
            exact ⟨rfl, properBelow, leadingDot, .inr rfl, .inl rfl⟩
          · have moved : Forest.Entry.beneath path ∘ Forest.Entry.below name =
                Forest.Entry.beneath (α := List UInt8) (path ++ [name]) :=
              funext (Forest.beneath_below path name)
            rw [moved]
            exact innerStands
        · rw [Forest.keys, Forest.keys, keys]
        · rintro ⟨fresh, innerFirst, later⟩
          exact ⟨by rwa [keys], innerDistinct innerFirst, distinct later⟩
        · rw [Forest.branch.injEq, innerSame, same]
          constructor
          · rintro ⟨_, inside, later⟩
            refine ⟨full, ?_⟩
            rintro dir (below | beside)
            · exact inside dir below
            · exact later dir beside
          · rintro ⟨_, others⟩
            exact ⟨rfl, fun dir member => others dir (.inl member), fun dir member => others dir (.inr member)⟩

/-- Parsing the archive of a tree always succeeds, with the tree itself exactly when no directory
name fills its field. -/
theorem parse_tar {memory : Memory} {archive : Nat} {forest : Forest Text (List UInt8)}
    (archivable : Archivable forest) (tar : TarArchive memory archive forest) :
    ∃ root, parseUSTAR memory archive = .ok root ∧ root.isDirectory = true ∧
      (forestOf root.nodes = forest ↔ ∀ dir ∈ directoryPaths leadingDot forest, dir.length ≠ 99) := by
  obtain ⟨mode, modes⟩ := tar.modes
  have proper : ∀ record ∈ tarEntries leadingDot forest, record.name.length = 100 →
      ProperName (mode record) := by
    intro record member full
    have listedRecord : record ∈ tarRecords forest := List.mem_cons_of_mem _ member
    obtain ⟨address, found⟩ := placed_mem archive listedRecord
    exact (modes _ found full).proper
  have bare : ∀ record ∈ tarRecords forest, record.namePrefix = [] := by
    rw [tarRecords, List.forall_mem_cons]
    exact ⟨rfl, tarEntries_bare leadingDot forest⟩
  have nonempty : ∀ record ∈ tarRecords forest, ¬record.IsEmptyFile := by
    rw [tarRecords, List.forall_mem_cons]
    exact ⟨fun empty => Bool.noConfusion empty.1, tarEntries_nonempty leadingDot archivable.files⟩
  obtain ⟨entries, listed, stands, lists, _, distinct, same⟩ :=
    tarEntries_listed [] (by simp) archivable.names archivable.short proper
  have inserted : Forest.nil.insertAll (.branch [] :: entries) = some listed := by
    rw [Forest.insertAll_cons]
    exact Forest.insertAll_lists lists (distinct archivable.distinct)
  have rootStands : Stands (.branch []) (.mkdir [] leadingDot) :=
    ⟨rfl, by simp, leadingDot, .inr rfl, .inl rfl⟩
  have allStand : List.Forall₂ Stands (.branch [] :: entries)
      ((tarRecords forest).map fun record => record.op (record.readName mode)) := by
    refine .cons rootStands ?_
    have unmoved : entries.map (Forest.Entry.beneath []) = entries :=
      (List.map_congr_left fun entry _ => Forest.beneath_nil entry).trans (List.map_id' entries)
    rwa [unmoved] at stands
  obtain ⟨root, parsed, isDir, holds⟩ :=
    parse_inserts (parseUSTAR_records tar.laid modes bare nonempty) allStand inserted
  exact ⟨root, parsed, isDir, by rw [holds]; exact same⟩

theorem roundTrip_iff {memory : Memory} {archive : Nat} {forest : Forest Text (List UInt8)}
    (archivable : Archivable forest) (tar : TarArchive memory archive forest) :
    (∃ root, parseUSTAR memory archive = .ok root ∧ root.isDirectory = true ∧
      forestOf root.nodes = forest) ↔ ∀ dir ∈ directoryPaths leadingDot forest, dir.length ≠ 99 := by
  obtain ⟨root, parsed, isDir, same⟩ := parse_tar archivable tar
  constructor
  · rintro ⟨other, otherParsed, _, holds⟩
    rw [parsed, Except.ok.injEq] at otherParsed
    rw [← same, otherParsed]
    exact holds
  · intro condition
    exact ⟨root, parsed, isDir, same.mpr condition⟩

def nestedTree : Forest Text (List UInt8) := .branch [100] (.leaf [97] [1] .nil) .nil

theorem roundTrip_nested : ∃ root,
    parseUSTAR (archiveMemory 4096 (tarRecords nestedTree)) 4096 = .ok root ∧ root.isDirectory = true ∧
      forestOf root.nodes = nestedTree := by
  have proper : ∀ name : Text, name = [100] ∨ name = [97] → ProperName name ∧ 0 ∉ name := by
    rintro name (rfl | rfl)
    · exact ⟨⟨by decide, by decide, by decide, by decide, by decide⟩, by decide⟩
    · exact ⟨⟨by decide, by decide, by decide, by decide, by decide⟩, by decide⟩
  have archivable : Archivable nestedTree := by
    refine ⟨⟨proper _ (.inl rfl), ⟨proper _ (.inr rfl), trivial⟩, trivial⟩, ?_, ?_, ?_⟩
    · exact ⟨by decide, ⟨by decide, trivial⟩, trivial⟩
    · exact ⟨⟨by decide, trivial⟩, trivial⟩
    · decide
  have tar : TarArchive (archiveMemory 4096 (tarRecords nestedTree)) 4096 nestedTree := by
    refine ⟨archiveMemory_holds ?_ (by decide), fun _ => [], ?_⟩
    · have wellFormed : ∀ record ∈ tarRecords nestedTree, record.name.length ≤ 100 ∧ 0 ∉ record.name ∧
          record.namePrefix.length ≤ 155 ∧ 0 ∉ record.namePrefix ∧
          (record.isDirectory = true → record.contents = []) := by
        decide
      intro record member
      obtain ⟨name, bytes, front, frontBytes, directory⟩ := wellFormed record member
      exact ⟨name, bytes, front, frontBytes, directory⟩
    · have short : ∀ place ∈ placed 4096 (tarRecords nestedTree), place.2.name.length ≠ 100 := by decide
      intro place member full
      exact absurd full (short place member)
  exact (roundTrip_iff archivable tar).mpr (by decide)

def longDirectory : Forest Text (List UInt8) := .branch (List.replicate 97 97) .nil .nil

/-- The name "./a...a/" fills its field, and the mode becomes a directory below it. -/
theorem longDirectory_gains_mode : Archivable longDirectory ∧
    TarArchive (archiveMemory 4096 (tarRecords longDirectory)) 4096 longDirectory ∧
    ¬∃ root, parseUSTAR (archiveMemory 4096 (tarRecords longDirectory)) 4096 = .ok root ∧
      root.isDirectory = true ∧ forestOf root.nodes = longDirectory := by
  have archivable : Archivable longDirectory := by
    refine ⟨⟨⟨⟨?_, ?_, ?_, ?_, ?_⟩, ?_⟩, trivial, trivial⟩, ⟨by decide, trivial, trivial⟩, ⟨trivial, trivial⟩, ?_⟩
    all_goals decide +kernel
  have tar : TarArchive (archiveMemory 4096 (tarRecords longDirectory)) 4096 longDirectory := by
    refine ⟨archiveMemory_holds ?_ (by decide), fun _ => List.replicate 7 48, ?_⟩
    · have wellFormed : ∀ record ∈ tarRecords longDirectory, record.name.length ≤ 100 ∧ 0 ∉ record.name ∧
          record.namePrefix.length ≤ 155 ∧ 0 ∉ record.namePrefix ∧
          (record.isDirectory = true → record.contents = []) := by
        decide +kernel
      intro record member
      obtain ⟨name, bytes, front, frontBytes, directory⟩ := wellFormed record member
      exact ⟨name, bytes, front, frontBytes, directory⟩
    · have fields : ∀ place ∈ placed 4096 (tarRecords longDirectory),
          (∀ position < 7, archiveMemory 4096 (tarRecords longDirectory) (place.1 + 100 + position) =
            (List.replicate 7 48).getD position 0) ∧
          archiveMemory 4096 (tarRecords longDirectory) (place.1 + 107) = 0 := by
        decide +kernel
      have octal : ∀ digit ∈ List.replicate 7 (48 : UInt8), 48 ≤ digit.toNat ∧ digit.toNat < 56 := by
        intro digit member
        rw [List.eq_of_mem_replicate member]
        decide
      intro place member _
      exact ⟨rfl, octal, (fields place member).1, (fields place member).2⟩
  refine ⟨archivable, tar, ?_⟩
  rintro ⟨root, parsed, _, holds⟩
  obtain ⟨other, otherParsed, _, same⟩ := parse_tar archivable tar
  rw [parsed, Except.ok.injEq] at otherParsed
  rw [otherParsed] at holds
  exact same.mp holds _ (by decide +kernel : leadingDot ++ List.replicate 97 97 ∈ _) (by decide)

end Tar

end ToyKernel.Vfs
