import ToyKernel.Libc.Printf
import ToyKernel.Vfs.Archive
import ToyKernel.Vfs.WorkingDirectory

/-!
Directory streams of `libc/opendir.cpp`, and the `ls` program of `userboot/shell/ls.cpp`, which
prints what `readdir` leaves in the entry.
-/

namespace ToyKernel.Vfs

open Library Libc Print

inductive ListingFault
  | vfs (fault : Fault)
  | string (fault : StringFault)
  | print (fault : PrintFault)
  | nullPointer | endlessLoop
deriving DecidableEq, Repr

def dnameSize : Nat := 256

/-- `entry` is the address of `d_name`. -/
structure Dir where
  entry : UInt32
  entryNum : Nat
  dirname : Text

def opendir (tree : Node) (entry : UInt32) (dirname : Text) : Except Fault (Option Dir) := do
  let found ← getDir tree [] dirname
  return found.map fun _ => { entry, entryNum := 0, dirname }

/-- The memory, the stream and the pointer that is returned; `nameOf` is where the string of a node
is. -/
def readdir (tree : Node) (nameOf : Cursor → UInt32) (memory : Memory) (dirp : Dir) :
    Except ListingFault (Memory × Dir × Option UInt32) := do
  let found ← (getDir tree [] dirp.dirname).mapError .vfs
  match found with
  | none => .error .nullPointer
  | some dir => do
      let nodes ← (nodesOf tree dir).mapError .vfs
      match nodes[dirp.entryNum]? with
      | none => return (memory, dirp, none)
      | some node => do
          let name := nameOf (dir ++ [dirp.entryNum])
          let dirp := { dirp with entryNum := dirp.entryNum + 1 }
          let nameLen := node.name.length
          let (memory, _) ← (strncpy memory dirp.entry.toNat name.toNat dnameSize).mapError .string
          let last := if nameLen ≥ dnameSize then dnameSize - 1 else nameLen
          return (store memory (dirp.entry.toNat + last) 0, dirp, some dirp.entry)

def lineFormat : List UInt8 := [percent, 115, 10, 0]

def lsLoop (tree : Node) (nameOf : Cursor → UInt32) : Nat → Memory → Dir →
    Except ListingFault (Memory × List UInt8)
  | 0, _, _ => .error .endlessLoop
  | fuel + 1, memory, dirp => do
      let (memory, dirp, myfile) ← readdir tree nameOf memory dirp
      match myfile with
      | none => return (memory, [])
      | some entry => do
          let line ← (printf (bytesFrom memory) lineFormat [entry]).mapError .print
          let (memory, rest) ← lsLoop tree nameOf fuel memory dirp
          return (memory, line ++ rest)

def missingFormat : List UInt8 :=
  chars "No directory named '".toList ++ [percent, 115] ++ chars ['\'', '\n'] ++ [0]

def failedFormat : List UInt8 := chars "getcwd() failed".toList ++ chars ['\n'] ++ [0]

def lsDirectory (tree : Node) (nameOf : Cursor → UInt32) (fuel : Nat) (entry : UInt32) (memory : Memory)
    (dirname : UInt32) : Except ListingFault (Memory × Int32 × List UInt8) := do
  let path ← (stringAt memory dirname.toNat).mapError .vfs
  let mydir ← (opendir tree entry path).mapError .vfs
  match mydir with
  | none => do
      let missing ← (printf (bytesFrom memory) missingFormat [dirname]).mapError .print
      return (memory, 1, missing)
  | some mydir => do
      let (memory, lines) ← lsLoop tree nameOf fuel memory mydir
      return (memory, 0, lines)

def ls (tree : Node) (nameOf : Cursor → UInt32) (fuel : Nat) (workingDir : Cursor) (cwd entry : UInt32)
    (memory : Memory) (argv : List UInt32) : Except ListingFault (Memory × Int32 × List UInt8) := do
  let memory := memset memory cwd.toNat 0 256
  match argv with
  | _ :: dirname :: _ => lsDirectory tree nameOf fuel entry memory dirname
  | _ => do
      let (memory, ret) ← (getcwd memory (nameOf workingDir).toNat cwd.toNat 256).mapError .string
      if ret = 0 then do
        let failed ← (printf (bytesFrom memory) failedFormat []).mapError .print
        return (memory, 1, failed)
      else lsDirectory tree nameOf fuel entry memory cwd

section Entries

variable {tree : Node} {nameOf : Cursor → UInt32} {memory after : Memory} {dir : Cursor} {nodes : List Node}
  {dirp : Dir}

structure Stored (nameOf : Cursor → UInt32) (memory : Memory) (dir : Cursor) (nodes : List Node)
    (entry : UInt32) : Prop where
  names : ∀ position node, nodes[position]? = some node →
    TextAt memory (nameOf (dir ++ [position])).toNat node.name
  apart : ∀ position node, nodes[position]? = some node →
    entry.toNat + dnameSize ≤ (nameOf (dir ++ [position])).toNat ∨
      (nameOf (dir ++ [position])).toNat + node.name.length + 1 ≤ entry.toNat
  bounded : entry.toNat + dnameSize ≤ 4294967296

def OnlyEntry (memory after : Memory) (entry : UInt32) : Prop :=
  ∀ address, address < entry.toNat ∨ entry.toNat + dnameSize ≤ address → after address = memory address

theorem Stored.kept (stored : Stored nameOf memory dir nodes dirp.entry) (only : OnlyEntry memory after dirp.entry) :
    Stored nameOf after dir nodes dirp.entry where
  apart := stored.apart
  bounded := stored.bounded
  names := by
    intro position node found
    have text := stored.names position node found
    have apart := stored.apart position node found
    refine ⟨fun index inside => ?_, ?_, text.visible, text.bounded⟩
    · rw [only _ (by omega)]
      exact text.chars index inside
    · rw [only _ (by omega)]
      exact text.ended

theorem readdir_end (found : getDir tree [] dirp.dirname = .ok (some dir)) (here : nodesOf tree dir = .ok nodes)
    (ended : nodes[dirp.entryNum]? = none) : readdir tree nameOf memory dirp = .ok (memory, dirp, none) := by
  rw [readdir, found, Except.mapError, ok_bind]
  dsimp only
  rw [here, Except.mapError, ok_bind]
  simp only [ended]
  rfl

/-- The entry holds the name, cut where it does not fit. -/
theorem readdir_next (found : getDir tree [] dirp.dirname = .ok (some dir)) (here : nodesOf tree dir = .ok nodes)
    (stored : Stored nameOf memory dir nodes dirp.entry) {node : Node}
    (next : nodes[dirp.entryNum]? = some node) :
    ∃ after, readdir tree nameOf memory dirp =
        .ok (after, { dirp with entryNum := dirp.entryNum + 1 }, some dirp.entry) ∧
      TextAt after dirp.entry.toNat (node.name.take (dnameSize - 1)) ∧ OnlyEntry memory after dirp.entry := by
  have text := stored.names _ _ next
  have bounded := stored.bounded
  obtain ⟨copied, done, filled⟩ := strncpy_fills text (stored.apart _ _ next)
  have size : dnameSize = 256 := rfl
  refine ⟨store copied (dirp.entry.toNat + if node.name.length ≥ dnameSize then dnameSize - 1 else
    node.name.length) 0, ?_, ?_, ?_⟩
  · rw [readdir, found, Except.mapError, ok_bind]
    dsimp only
    rw [here, Except.mapError, ok_bind]
    simp only [next]
    rw [done, Except.mapError, ok_bind]
    rfl
  · have last : (if node.name.length ≥ dnameSize then dnameSize - 1 else node.name.length) =
        (node.name.take (dnameSize - 1)).length := by
      rw [List.length_take]
      split <;> omega
    have short : (node.name.take (dnameSize - 1)).length < dnameSize := by
      rw [List.length_take]
      omega
    refine ⟨fun index inside => ?_, ?_, ?_, ?_⟩
    · rw [store_other _ _ (by omega), filled.inside index (by omega)]
      rw [List.length_take] at inside
      rw [List.getD_eq_getElem _ _ (by omega), List.getElem_take]
    · rw [last]
      simp [store]
    · exact fun member => text.visible (List.mem_of_mem_take member)
    · omega
  · intro address outside
    rw [store_other _ _ (by split <;> omega)]
    exact filled.outside address outside

def listed (node : Node) : List UInt8 := node.name.take (dnameSize - 1) ++ [10]

/-- By induction on the nodes that are left. -/
theorem lsLoop_lists (found : getDir tree [] dirp.dirname = .ok (some dir)) (here : nodesOf tree dir = .ok nodes)
    (stored : Stored nameOf memory dir nodes dirp.entry) (inside : dirp.entryNum ≤ nodes.length) {fuel : Nat}
    (enough : nodes.length - dirp.entryNum < fuel) :
    ∃ after, lsLoop tree nameOf fuel memory dirp =
        .ok (after, (nodes.drop dirp.entryNum).flatMap listed) ∧ OnlyEntry memory after dirp.entry := by
  induction fuel generalizing memory dirp with
  | zero => exact absurd enough (Nat.not_lt_zero _)
  | succ fuel ih =>
      cases next : nodes[dirp.entryNum]? with
      | none =>
          refine ⟨memory, ?_, fun _ _ => rfl⟩
          rw [lsLoop, readdir_end found here next, ok_bind]
          dsimp only
          rw [List.drop_eq_nil_of_le (List.getElem?_eq_none_iff.mp next)]
          rfl
      | some node =>
          obtain ⟨bound, rfl⟩ := List.getElem?_eq_some_iff.mp next
          obtain ⟨middle, read, text, only⟩ := readdir_next found here stored next
          have still : getDir tree [] ({ dirp with entryNum := dirp.entryNum + 1 } : Dir).dirname =
              .ok (some dir) := found
          obtain ⟨after, looped, later⟩ := ih still
            (stored.kept only) bound (show nodes.length - (dirp.entryNum + 1) < fuel by omega)
          refine ⟨after, ?_, fun address outside => (later address outside).trans (only address outside)⟩
          rw [lsLoop, read, ok_bind]
          dsimp only
          have line : printf (bytesFrom middle) lineFormat [dirp.entry] =
              .ok ([] ++ (nodes[dirp.entryNum].name.take (dnameSize - 1) ++ [10])) :=
            printf_stored [] [10] text ⟨by decide, by decide⟩ ⟨by decide, by decide⟩
          rw [line, Except.mapError, ok_bind, looped, ok_bind, List.drop_eq_getElem_cons bound,
            List.flatMap_cons]
          rfl

end Entries

section Program

variable {tree : Node} {nameOf : Cursor → UInt32} {memory : Memory} {path : Text} {fuel : Nat}
  {dirname entry : UInt32}

theorem getDir_found (reachable : calls.Reachable tree) (path : Text) : getDir tree [] path = .ok none ∨
    ∃ dir nodes, getDir tree [] path = .ok (some dir) ∧ nodesOf tree dir = .ok nodes := by
  have isDir : IsDirectoryAt tree [] := ⟨_, reachable_root reachable, rfl⟩
  rw [getDir, getNode_eq (reachable_rooted reachable) isDir, ok_bind]
  cases result : (follow tree [] (lookupMoves path)).bind (dynCastDirectory tree) with
  | none => exact .inl rfl
  | some dir =>
      obtain ⟨node, _, cast⟩ := Option.bind_eq_some_iff.mp result
      obtain ⟨name, parent, nodes, here⟩ := isDirectoryAt_iff.mp (dynCastDirectory_eq_some cast).2
      have same := (dynCastDirectory_eq_some cast).1
      refine .inr ⟨dir, nodes, rfl, ?_⟩
      rw [nodesOf, same, here]

theorem opendir_found {found : Option Cursor} (looked : getDir tree [] path = .ok found) :
    opendir tree entry path = .ok (found.map fun _ => { entry, entryNum := 0, dirname := path }) := by
  rw [opendir, looked]
  rfl

theorem stringAt_text {str : Nat} (stored : TextAt memory str path) : stringAt memory str = .ok path := by
  refine stringAt_field stored.visible (Nat.le_refl _) (fun position inside => ?_) stored.ended stored.bounded
  rw [List.getD_eq_getElem _ _ inside]
  exact stored.chars position inside

theorem lsDirectory_lists (reachable : calls.Reachable tree) (given : TextAt memory dirname.toNat path)
    (stored : ∀ dir nodes, getDir tree [] path = .ok (some dir) → nodesOf tree dir = .ok nodes →
      Stored nameOf memory dir nodes entry ∧ nodes.length < fuel) :
    (∃ dir nodes after, getDir tree [] path = .ok (some dir) ∧ nodesOf tree dir = .ok nodes ∧
      lsDirectory tree nameOf fuel entry memory dirname = .ok (after, 0, nodes.flatMap listed) ∧
      OnlyEntry memory after entry) ∨
    (getDir tree [] path = .ok none ∧ lsDirectory tree nameOf fuel entry memory dirname =
      .ok (memory, 1, chars "No directory named '".toList ++ (path ++ chars ['\'', '\n']))) := by
  have read : stringAt memory dirname.toNat = .ok path := stringAt_text given
  rcases getDir_found reachable path with missing | ⟨dir, nodes, found, here⟩
  · right
    have message : printf (bytesFrom memory) missingFormat [dirname] =
        .ok (chars "No directory named '".toList ++ (path ++ chars ['\'', '\n'])) :=
      printf_stored (chars "No directory named '".toList) (chars ['\'', '\n']) given
        ⟨by decide, by decide⟩ ⟨by decide, by decide⟩
    refine ⟨missing, ?_⟩
    rw [lsDirectory, read, Except.mapError, ok_bind, opendir_found missing, Except.mapError, ok_bind]
    dsimp only [Option.map_none]
    rw [message, Except.mapError, ok_bind]
    rfl
  · left
    obtain ⟨names, enough⟩ := stored dir nodes found here
    have opened : getDir tree [] ({ entry, entryNum := 0, dirname := path } : Dir).dirname = .ok (some dir) := found
    obtain ⟨after, looped, only⟩ := lsLoop_lists opened here names (Nat.zero_le _) enough
    refine ⟨dir, nodes, after, found, here, ?_, only⟩
    rw [lsDirectory, read, Except.mapError, ok_bind, opendir_found found, Except.mapError, ok_bind]
    dsimp only [Option.map_some]
    rw [looped, ok_bind]
    rfl

inductive Asked (nameOf : Cursor → UInt32) (workingDir : Cursor) (cwd : UInt32) (memory : Memory) :
    List UInt32 → Memory → UInt32 → Text → Prop
  | argument {program dirname more path} : TextAt memory dirname.toNat path →
      Asked nameOf workingDir cwd memory (program :: dirname :: more) memory dirname path
  | workingDirectory {argv after path} : argv.length < 2 → TextAt memory (nameOf workingDir).toNat path →
      path.length < 256 → cwd.toNat + 256 ≤ 4294967296 → (cwd.toNat + 256 ≤ (nameOf workingDir).toNat ∨
        (nameOf workingDir).toNat + path.length + 1 ≤ cwd.toNat) →
      Filled memory after cwd.toNat 256 path → Asked nameOf workingDir cwd memory argv after cwd path

theorem filled_unique {after other : Memory} {dst num : Nat} (first : Filled memory after dst num path)
    (second : Filled memory other dst num path) : after = other := by
  funext address
  by_cases inside : dst ≤ address ∧ address < dst + num
  · obtain ⟨index, rfl⟩ := Nat.exists_eq_add_of_le inside.1
    rw [first.inside index (by omega), second.inside index (by omega)]
  · rw [first.outside address (by omega), second.outside address (by omega)]

/-- For the path that it is asked for, `ls` prints the names in the directory that the path leads to, in
order and each in a line of its own, or the message for no directory, and changes no memory but its entry. -/
theorem ls_lists {workingDir : Cursor} {cwd : UInt32} {argv : List UInt32} {start : Memory}
    (reachable : calls.Reachable tree)
    (asked : Asked nameOf workingDir cwd (memset memory cwd.toNat 0 256) argv start dirname path)
    (stored : ∀ dir nodes, getDir tree [] path = .ok (some dir) → nodesOf tree dir = .ok nodes →
      Stored nameOf start dir nodes entry ∧ nodes.length < fuel) :
    (∃ dir nodes after, getDir tree [] path = .ok (some dir) ∧ nodesOf tree dir = .ok nodes ∧
      ls tree nameOf fuel workingDir cwd entry memory argv = .ok (after, 0, nodes.flatMap listed) ∧
      OnlyEntry start after entry) ∨
    (getDir tree [] path = .ok none ∧ ls tree nameOf fuel workingDir cwd entry memory argv =
      .ok (start, 1, chars "No directory named '".toList ++ (path ++ chars ['\'', '\n']))) := by
  cases asked with
  | argument given => exact lsDirectory_lists reachable given stored
  | workingDirectory few name short bound apart filled =>
      obtain ⟨copied, done, sameFill⟩ := strncpy_fills name apart
      obtain rfl := filled_unique filled sameFill
      have given := filled_textAt filled name.visible short bound
      have named : getcwd (memset memory dirname.toNat 0 256) (nameOf workingDir).toNat dirname.toNat 256 =
          .ok (start, dirname.toNat + 256) := done
      have runs : ls tree nameOf fuel workingDir dirname entry memory argv =
          lsDirectory tree nameOf fuel entry start dirname := by
        rcases argv with _ | ⟨program, _ | ⟨dirname, more⟩⟩
        · unfold ls
          dsimp only
          rw [named, Except.mapError, ok_bind]
          exact if_neg (by omega)
        · unfold ls
          dsimp only
          rw [named, Except.mapError, ok_bind]
          exact if_neg (by omega)
        · rw [List.length_cons, List.length_cons] at few
          omega
      rw [runs]
      exact lsDirectory_lists reachable given stored

/-- The directory "a" of the root, for the argument "/". -/
theorem ls_lists_root :
    (∃ dir nodes after, getDir (.directory [47] none [.directory [97] (some []) []]) [] [47] = .ok (some dir) ∧
      nodesOf (.directory [47] none [.directory [97] (some []) []]) dir = .ok nodes ∧
      ls (.directory [47] none [.directory [97] (some []) []]) (fun _ => 16) 2 [] 1000 2000
        (store (store (fun _ => 0) 8 47) 16 97) [0, 8] = .ok (after, 0, nodes.flatMap listed) ∧
      OnlyEntry (memset (store (store (fun _ => 0) 8 47) 16 97) 1000 0 256) after 2000) ∨
    (getDir (.directory [47] none [.directory [97] (some []) []]) [] [47] = .ok none ∧
      ls (.directory [47] none [.directory [97] (some []) []]) (fun _ => 16) 2 [] 1000 2000
        (store (store (fun _ => 0) 8 47) 16 97) [0, 8] =
          .ok (memset (store (store (fun _ => 0) 8 47) 16 97) 1000 0 256, 1,
            chars "No directory named '".toList ++ ([47] ++ chars ['\'', '\n']))) := by
  have step : calls.step rootDirectory (.mkdir [] [97]) (.directory [47] none [.directory [97] (some []) []]) :=
    ⟨⟨_, rfl, rfl⟩, rfl⟩
  have kept : ∀ address < 1000, memset (store (store (fun _ => 0) 8 47) 16 97) 1000 0 256 address =
      store (store (fun _ => 0) 8 47) 16 97 address := fun address below =>
    memset_agreeOn _ 1000 0 1000 0 256 (.inl (Nat.le_refl _)) address (Nat.zero_le _) below
  have character (address : Nat) (c : UInt8) (below : address < 999) (shown : c ≠ 0)
      (here : store (store (fun _ => 0) 8 47) 16 97 address = c)
      (ended : store (store (fun _ => 0) 8 47) 16 97 (address + 1) = 0) :
      TextAt (memset (store (store (fun _ => 0) 8 47) 16 97) 1000 0 256) address [c] := by
    refine ⟨fun index inside => ?_, ?_, by simpa using shown.symm, by rw [List.length_singleton]; omega⟩
    · obtain rfl : index = 0 := Nat.lt_one_iff.mp inside
      exact (kept address (by omega)).trans here
    · exact (kept (address + 1) (by omega)).trans ended
  refine ls_lists (.next (.start rfl) step) (.argument (character 8 47 (by decide) (by decide) rfl rfl)) ?_
  intro dir nodes found here
  obtain rfl : [] = dir := by
    have looked : getDir (.directory [47] none [.directory [97] (some []) []]) [] [47] = .ok (some []) := rfl
    cases looked.symm.trans found
    rfl
  cases here
  refine ⟨⟨fun position node at_ => ?_, fun position node at_ => ?_, by decide⟩, by decide⟩
  · rcases position with _ | position
    · cases at_
      exact character 16 97 (by decide) (by decide) rfl rfl
    · cases at_
  · rcases position with _ | position
    · cases at_
      exact .inr (by decide)
    · cases at_

end Program

end ToyKernel.Vfs
