import ToyKernel.Library.Run
import ToyKernel.Vfs.Walk

/-!
Sequences of calls on a file system that starts as an empty root directory. Parsing an
archive performs one call per record, in the order of the records.
-/

namespace ToyKernel.Vfs

open Library

/-- A call on a directory of the tree. A file is created and then written. -/
inductive Op
  | mkdir (dir : Cursor) (path : Text)
  | mkfile (dir : Cursor) (path : Text) (data : List UInt8)

def Op.dir : Op → Cursor
  | .mkdir dir _ => dir
  | .mkfile dir _ _ => dir

def perform (tree : Node) : Op → Except Fault Node
  | .mkdir dir path => do
      let (tree, _) ← mkdir tree dir path
      return tree
  | .mkfile dir path data => do
      let (tree, file) ← mkfile tree dir path
      return tree.updateAt (Node.write data) file

def performAll (tree : Node) : List Op → Except Fault Node
  | [] => .ok tree
  | op :: rest => do
      let tree ← perform tree op
      performAll tree rest

def calls : System Node Op where
  initial tree := tree = rootDirectory
  step tree op after := IsDirectoryAt tree op.dir ∧ perform tree op = .ok after

section Preservation

def Extends (tree after : Node) : Prop :=
  ∀ query header, headerAt tree query = some header → headerAt after query = some header

theorem Extends.refl (tree : Node) : Extends tree tree := fun _ _ found => found

theorem Extends.trans {first second third : Node} (left : Extends first second)
    (right : Extends second third) : Extends first third :=
  fun query header found => right query header (left query header found)

theorem create_extends {tree after : Node} {dir current : Cursor} {step : Step}
    (done : create tree dir step = .ok (after, current)) : Extends tree after := by
  rcases create_ok done with ⟨rfl, _⟩ | ⟨name, added, _⟩
  · exact Extends.refl _
  · exact fun _ _ found => added.keeps found

/-- A property that every added directory keeps survives a walk. The additions can be
restricted to those of the steps that the walk takes. -/
theorem createAll_induction {Inv : Node → Prop} {Allowed : Step → Prop}
    (preserved : ∀ {tree after : Node} {dir new : Cursor} {step : Step} {name : Text},
      Inv tree → Allowed step → Added tree dir ⟨name, some dir, none⟩ after new →
      ((step = .nameless ∧ name = []) ∨ ∃ key, step = .child key name ∧ childAt tree dir key = none) →
      Inv after)
    {tree after : Node} {dir current : Cursor} {steps : List Step}
    (allowed : ∀ step ∈ steps, Allowed step) (holds : Inv tree)
    (done : createAll tree dir steps = .ok (after, current)) : Inv after := by
  induction steps generalizing tree dir with
  | nil =>
      simp only [createAll, Except.ok.injEq, Prod.mk.injEq] at done
      rw [← done.1]
      exact holds
  | cons step rest ih =>
      simp only [createAll, bind_eq_ok, Prod.exists] at done
      obtain ⟨middle, next, first, later⟩ := done
      have kept : Inv middle := by
        rcases create_ok first with ⟨rfl, _⟩ | ⟨name, added, reason⟩
        · exact holds
        · exact preserved holds (allowed step (by simp)) added reason
      exact ih (fun step member => allowed step (by simp [member])) kept later

theorem createAll_extends {tree after : Node} {dir current : Cursor} {steps : List Step}
    (done : createAll tree dir steps = .ok (after, current)) : Extends tree after :=
  createAll_induction (fun {_ _ _ _ _ _} extended (_ : True) added _ =>
    extended.trans fun _ _ found => added.keeps found) (fun _ _ => trivial) (Extends.refl tree) done

structure Written (tree after : Node) (file : Cursor) (data : List UInt8) : Prop where
  isFile : ∃ name parent, headerAt tree file = some ⟨name, parent, some []⟩ ∧
    headerAt after file = some ⟨name, parent, some data⟩
  others : ∀ query, query ≠ file → headerAt after query = headerAt tree query

theorem write_new {tree : Node} {file : Cursor} {name : Text} {parent : Option Cursor}
    (fresh : headerAt tree file = some ⟨name, parent, some []⟩) (data : List UInt8) :
    Written tree (tree.updateAt (Node.write data) file) file data := by
  obtain ⟨node, found, same⟩ := headerAt_some_at fresh
  cases node with
  | directory name parent nodes => cases same
  | file name parent contents =>
      cases same
      have headers := headerAt_write found data
      refine ⟨⟨name, parent, fresh, ?_⟩, ?_⟩
      · rw [headers, if_pos rfl, List.drop_nil, List.append_nil]
      · intro query other
        rw [headers, if_neg other]

theorem Written.cases {tree after : Node} {file query : Cursor} {data : List UInt8} {header : Header}
    (written : Written tree after file data) (found : headerAt after query = some header) :
    ∃ old, headerAt tree query = some old ∧ old.name = header.name ∧ old.parent = header.parent ∧
      old.contents.isSome = header.contents.isSome := by
  by_cases same : query = file
  · subst same
    obtain ⟨name, parent, before, now⟩ := written.isFile
    rw [now, Option.some.injEq] at found
    rw [← found]
    exact ⟨_, before, rfl, rfl, rfl⟩
  · rw [written.others query same] at found
    exact ⟨header, found, rfl, rfl, rfl⟩

theorem Written.forward {tree after : Node} {file query : Cursor} {data : List UInt8} {header : Header}
    (written : Written tree after file data) (found : headerAt tree query = some header) :
    ∃ now, headerAt after query = some now ∧ now.name = header.name ∧ now.parent = header.parent ∧
      now.contents.isSome = header.contents.isSome := by
  by_cases same : query = file
  · subst same
    obtain ⟨name, parent, before, now⟩ := written.isFile
    rw [before, Option.some.injEq] at found
    rw [← found]
    exact ⟨_, now, rfl, rfl, rfl⟩
  · exact ⟨header, by rw [written.others query same]; exact found, rfl, rfl, rfl⟩

theorem Written.rooted {tree after : Node} {file : Cursor} {data : List UInt8}
    (written : Written tree after file data) (rooted : Rooted tree) : Rooted after where
  root := by
    obtain ⟨header, found, noParent, noContents⟩ := rooted.root
    obtain ⟨now, here, _, parent, kind⟩ := written.forward found
    refine ⟨now, here, by rw [parent, noParent], ?_⟩
    rw [noContents] at kind
    simpa using kind
  below := by
    intro dir position header found noContents
    obtain ⟨old, here, _, parent, kind⟩ := written.cases found
    rw [← parent]
    apply rooted.below dir position old here
    rw [noContents] at kind
    simpa using kind

theorem rootDirectory_headers (query : Cursor) : headerAt rootDirectory query =
    if query = [] then some ⟨[kPathSeparator], none, none⟩ else none := by
  cases query with
  | nil => rfl
  | cons position rest => simp [headerAt, at?_cons, rootDirectory, Node.nodes]

theorem rootDirectory_rooted : Rooted rootDirectory where
  root := ⟨_, rootDirectory_headers [], rfl, rfl⟩
  below := by
    intro dir position header found
    rw [rootDirectory_headers, if_neg (by simp)] at found
    cases found

/-- What a call does: it walks the directories of the path, and a file call then adds one
written file where the walk ends. -/
theorem perform_ok {tree after : Node} {op : Op} (rooted : Rooted tree)
    (isDir : IsDirectoryAt tree op.dir) (done : perform tree op = .ok after) :
    (∃ dir path current, op = .mkdir dir path ∧
      createAll tree dir (pathSteps (simplified path)) = .ok (after, current)) ∨
    ∃ dir path data middle current made file, op = .mkfile dir path data ∧
      lastPiece (simplified path) ≠ [] ∧
      createAll tree dir (dirSteps (simplified path)) = .ok (middle, current) ∧
      Added middle current ⟨lastPiece (simplified path), some dir, some []⟩ made file ∧
      Written made after file data := by
  cases op with
  | mkdir dir path =>
      dsimp only [Op.dir] at isDir
      simp only [perform, bind_eq_ok, pure_eq_ok, Prod.exists] at done
      obtain ⟨_, current, made, rfl⟩ := done
      rw [mkdir_eq rooted isDir] at made
      exact .inl ⟨dir, path, current, rfl, made⟩
  | mkfile dir path data =>
      simp only [perform, bind_eq_ok, pure_eq_ok, Prod.exists] at done
      obtain ⟨made, file, created, rfl⟩ := done
      obtain ⟨_, nonempty, middle, current, walked, added⟩ := mkfile_ok rooted isDir created
      exact .inr ⟨dir, path, data, middle, current, made, file, rfl, nonempty, walked, added,
        write_new added.new_header data⟩

theorem perform_rooted {tree after : Node} {op : Op} (rooted : Rooted tree)
    (isDir : IsDirectoryAt tree op.dir) (done : perform tree op = .ok after) : Rooted after := by
  rcases perform_ok rooted isDir done with ⟨dir, path, current, rfl, walked⟩ |
    ⟨dir, path, data, middle, current, made, file, rfl, _, walked, added, written⟩
  · exact (createAll_rooted rooted isDir walked).1
  · have walkedRooted := (createAll_rooted rooted isDir walked).1
    apply written.rooted
    apply added.rooted walkedRooted
    intro isDirectory
    cases isDirectory

theorem reachable_rooted {tree : Node} (reachable : calls.Reachable tree) : Rooted tree := by
  apply reachable.invariant Rooted
  · rintro _ rfl
    exact rootDirectory_rooted
  · intro tree op after rooted step
    exact perform_rooted rooted step.1 step.2

end Preservation

section Parsing

def dirOp (info : DirInfo) : Op := .mkdir [] info.getFullPath

def fileOp (memory : Memory) (info : FileInfo) : Op :=
  .mkfile [] info.getFullPath (readBytes memory info.data info.size)

def performing {α : Type} (op : α → Op) (info : α) (tree : Node) : Except Fault (Node × Bool) := do
  let tree ← perform tree (op info)
  return (tree, true)

def collecting {α : Type} (op : α → Op) (info : α) (ops : List Op) : Except Fault (List Op × Bool) :=
  .ok (ops ++ [op info], true)

def archiveOps (memory : Memory) (archive : Nat) : Except Fault (List Op) :=
  iterateUSTAR memory (collecting dirOp) (collecting (fileOp memory)) archive []

theorem parseUSTAR_eq (memory : Memory) (archive : Nat) : parseUSTAR memory archive =
    iterateUSTAR memory (performing dirOp) (performing (fileOp memory)) archive rootDirectory := by
  unfold parseUSTAR
  congr 1
  · funext info tree
    simp only [performing, perform, dirOp]
    cases mkdir tree [] info.getFullPath <;> rfl
  · funext info tree
    simp only [performing, perform, fileOp]
    cases mkfile tree [] info.getFullPath <;> rfl

theorem performAll_append (tree : Node) (front back : List Op) :
    performAll tree (front ++ back) = (do
      let middle ← performAll tree front
      performAll middle back) := by
  induction front generalizing tree with
  | nil => rfl
  | cons op rest ih =>
      rw [List.cons_append, performAll, performAll]
      cases perform tree op with
      | error fault => rfl
      | ok middle => exact ih middle

theorem performAll_concat {start tree next : Node} {ops : List Op} {op : Op}
    (sofar : performAll start ops = .ok tree) (performed : perform tree op = .ok next) :
    performAll start (ops ++ [op]) = .ok next := by
  rw [performAll_append, sofar, ok_bind, performAll, performed]
  rfl

theorem forall_concat {ops : List Op} {op : Op} (onRoot : ∀ other ∈ ops, other.dir = [])
    (here : op.dir = []) : ∀ other ∈ ops ++ [op], other.dir = [] := by
  intro other member
  rcases List.mem_append.mp member with early | last
  · exact onRoot other early
  · rw [List.mem_singleton.mp last]
    exact here

/-- Visiting the records with calls is collecting the calls and performing them. -/
theorem iterateLoop_perform {memory : Memory} {fuel tar : Nat} {start tree after : Node} {ops : List Op}
    (sofar : performAll start ops = .ok tree) (onRoot : ∀ op ∈ ops, op.dir = [])
    (done : iterateLoop memory (performing dirOp) (performing (fileOp memory)) fuel tar tree = .ok after) :
    ∃ all, iterateLoop memory (collecting dirOp) (collecting (fileOp memory)) fuel tar ops = .ok all ∧
      performAll start all = .ok after ∧ ∀ op ∈ all, op.dir = [] := by
  induction fuel generalizing tar tree ops with
  | zero => cases done
  | succ fuel ih =>
      rw [iterateLoop] at done ⊢
      split at done
      · rename_i finished
        rw [if_pos finished]
        cases done
        exact ⟨ops, rfl, sofar, onRoot⟩
      · rename_i unfinished
        rw [if_neg unfinished]
        simp only [bind_eq_ok, require_eq_ok] at done
        obtain ⟨_, magic, filesize, decoded, done⟩ := done
        simp only [require_of magic, decoded, ok_bind]
        split at done
        · rename_i isDir
          simp only [bind_eq_ok, require_eq_ok, performing, pure_eq_ok] at done
          obtain ⟨_, empty, namePrefix, readPrefix, name, readName, _, ⟨next, performed, rfl⟩, later⟩ := done
          simp only [if_pos isDir, require_of empty, readPrefix, readName, ok_bind, collecting, if_true] at later ⊢
          exact ih (performAll_concat sofar performed) (forall_concat onRoot rfl) later
        · rename_i isFile
          simp only [bind_eq_ok, require_eq_ok, performing, pure_eq_ok] at done
          obtain ⟨_, nonempty, namePrefix, readPrefix, name, readName, _, ⟨next, performed, rfl⟩, later⟩ := done
          simp only [if_neg isFile, require_of nonempty, readPrefix, readName, ok_bind, collecting,
            if_true] at later ⊢
          exact ih (performAll_concat sofar performed) (forall_concat onRoot rfl) later

theorem performAll_run {tree after : Node} {ops : List Op} (rooted : Rooted tree)
    (onRoot : ∀ op ∈ ops, op.dir = []) (done : performAll tree ops = .ok after) :
    calls.Run tree ops after := by
  induction ops generalizing tree with
  | nil =>
      cases done
      exact .done _
  | cons op rest ih =>
      simp only [performAll, bind_eq_ok] at done
      obtain ⟨middle, performed, later⟩ := done
      have isDir : IsDirectoryAt tree op.dir := by
        rw [onRoot op (by simp)]
        exact rooted_isDirectory rooted
      exact .step ⟨isDir, performed⟩ (ih (perform_rooted rooted isDir performed)
        (fun other member => onRoot other (by simp [member])) later)

/-- Parsing an archive is a run of the calls that it asks for. -/
theorem parseUSTAR_run {memory : Memory} {archive : Nat} {tree : Node}
    (parsed : parseUSTAR memory archive = .ok tree) :
    ∃ ops, archiveOps memory archive = .ok ops ∧ calls.Run rootDirectory ops tree := by
  rw [parseUSTAR_eq] at parsed
  have nothing : performAll rootDirectory [] = .ok rootDirectory := rfl
  obtain ⟨ops, collected, performed, onRoot⟩ := iterateLoop_perform nothing (by simp) parsed
  exact ⟨ops, collected, performAll_run rootDirectory_rooted onRoot performed⟩

end Parsing

end ToyKernel.Vfs
