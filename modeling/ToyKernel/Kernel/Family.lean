import ToyKernel.Kernel.Pointers

/-!
The tree of tasks. Next to the kernel stands a record of which task created which and
which handles were destroyed, and the child lists of the task objects are compared with
that record. A handle is destroyed at most once, by its creator, after it completed. The lists
are in the kernel's heap, where a store through a pointer of user mode could reach them.
-/

namespace ToyKernel

open Library

structure Family where
  kernel : Kernel
  created : List (Nat × Nat)
  destroyed : List Nat

namespace Family

open Kernel

def undestroyed (family : Family) (creator : Nat) : List Nat :=
  (family.created.filter fun pair => pair.1 = creator ∧ pair.2 ∉ family.destroyed).map Prod.snd

inductive Step
  | call (systemCall : SystemCall)
  | destroy (caller handle : Nat)

def recordCreation (family : Family) : Option Call → List (Nat × Nat)
  | some (.createUserTask caller _ _ _ _ _) => family.created ++ [(caller, family.kernel.nextTid)]
  | some (.kernelJumpToUserEntry _ _ _ _) => family.created ++ [(mainKernelTask, family.kernel.nextTid)]
  | _ => family.created

def perform (family : Family) : Step → Except Fault Family
  | .call systemCall => do
      let kernel ← family.kernel.serve systemCall
      return { family with kernel, created := family.recordCreation systemCall.call }
  | .destroy _ handle => do
      let kernel ← family.kernel.destroyUserTask handle
      return { family with kernel, destroyed := handle :: family.destroyed }

/-- The creator, a running user task or the main kernel task, destroys each handle once. -/
def Permitted (family : Family) : Step → Prop
  | .call (.destroyUserTask _) => False
  | .call systemCall => family.kernel.CanServe systemCall
  | .destroy caller handle =>
      (family.kernel.RunningUser caller ∨ caller = mainKernelTask) ∧
      (caller, handle) ∈ family.created ∧ handle ∉ family.destroyed ∧
      family.kernel.Enabled (.destroyUserTask handle)

def runs (Condition : Family → Step → Prop) : System Family Step where
  initial family := family.created = [] ∧ family.destroyed = [] ∧
    (Kernel.runs fun _ _ => True).initial family.kernel
  step family step after :=
    family.Permitted step ∧ Condition family step ∧ family.perform step = .ok after

def Childless (family : Family) : Step → Prop
  | .call _ => True
  | .destroy _ handle => ∀ child, (handle, child) ∈ family.created → child ∈ family.destroyed

def OwnPointers (family : Family) : Step → Prop
  | .call systemCall => family.kernel.OwnPointers systemCall
  | .destroy _ _ => True

def Careful (family : Family) (step : Step) : Prop :=
  family.OwnPointers step ∧ family.Childless step

def kin (kernel : Kernel) (handle : Nat) : Option (Option Nat × List Nat) :=
  (kernel.tasks handle).map fun task => (task.parent, task.children)

theorem kin_of {kernel : Kernel} {handle : Nat} {task : Task}
    (found : kernel.tasks handle = some task) : kin kernel handle = some (task.parent, task.children) := by
  rw [kin, found]
  rfl

theorem kin_setTask (kernel : Kernel) (handle : Nat) (task : Option Task) (query : Nat) :
    kin (kernel.setTask handle task) query =
      if query = handle then task.map fun task => (task.parent, task.children) else kin kernel query := by
  by_cases same : query = handle
  · simp [kin, setTask, same]
  · simp [kin, setTask, same]

structure Kept (family : Family) : Prop where
  sound : family.kernel.Sound
  main : ∃ parent children, kin family.kernel mainKernelTask = some (parent, children)
  children : ∀ handle parent children, kin family.kernel handle = some (parent, children) →
    children = family.undestroyed handle
  alive : ∀ creator child, (creator, child) ∈ family.created → child ∉ family.destroyed →
    (∃ parent children, kin family.kernel creator = some (parent, children)) ∧
      ∃ children, kin family.kernel child = some (some creator, children)
  distinct : (family.created.map Prod.snd).Nodup
  known : ∀ pair ∈ family.created, pair.1 < family.kernel.nextTid ∧ pair.2 < family.kernel.nextTid ∧
    pair.2 ≠ mainKernelTask
  destroyed : ∀ handle ∈ family.destroyed, handle < family.kernel.nextTid

structure Adopted (old new : Kernel) (caller : Nat) : Prop where
  creator : ∃ parent children, kin old caller = some (parent, children)
  relatives : ∀ query, kin new query =
    if query = old.nextTid then some (some caller, [])
    else if query = caller then
      (kin old query).map fun both => (both.1, both.2 ++ [old.nextTid])
    else kin old query
  nextTid : new.nextTid = old.nextTid + 1

theorem userTask_adopted {caller : Nat} {func codesize arg : UInt32} {copyfunc : CopyArgFunc}
    {entryOffset : UInt32} {growth : Growth} {kernel after : Kernel} {handle : Nat}
    (run : userTask caller func codesize arg copyfunc entryOffset growth kernel = .ok (after, handle)) :
    Adopted kernel after caller := by
  obtain ⟨first, paging, slot, second, _, same1, _, child, laterTasks, _⟩ := userTask_stages run
  obtain ⟨task, found, done⟩ := bind_eq_ok.mp child
  obtain rfl := pure_eq_ok.mp done
  have known : kernel.tasks caller = some task := by
    rw [← same1.tasks]
    exact getTask_eq_ok.mp found
  refine ⟨⟨_, _, kin_of known⟩, ?_, ?_⟩
  · intro query
    rw [kin, laterTasks.tasks]
    change kin (setTask first.nextTid _ _) query = _
    rw [kin_setTask, kin_setTask, same1.nextTid]
    by_cases fresh : query = kernel.nextTid
    · rw [if_pos fresh, if_pos fresh]
      rfl
    · rw [if_neg fresh, if_neg fresh]
      by_cases same : query = caller
      · rw [if_pos same, if_pos same, same, kin_of known]
        rfl
      · rw [if_neg same, if_neg same, kin, kin]
        dsimp only
        rw [same1.tasks]
  · rw [laterTasks.nextTid]
    exact congrArg (· + 1) same1.nextTid

structure Unlinked (old new : Kernel) (creator handle : Nat) : Prop where
  leaf : kin old handle = some (some creator, [])
  relatives : ∀ query, kin new query =
    if query = handle then none
    else if query = creator then (kin old query).map fun both => (both.1, both.2.erase handle)
    else kin old query
  nextTid : new.nextTid = old.nextTid

theorem removeChildTask_relatives {parent child : Nat} {kernel after : Kernel}
    (run : removeChildTask parent child kernel = .ok after) (query : Nat) :
    kin after query =
      if query = parent then (kin kernel query).map fun both => (both.1, both.2.erase child)
      else kin kernel query := by
  obtain ⟨task, found, rest⟩ := bind_eq_ok.mp run
  obtain ⟨_, _, done⟩ := bind_eq_ok.mp rest
  obtain rfl := pure_eq_ok.mp done
  rw [kin_setTask]
  by_cases same : query = parent
  · rw [if_pos same, if_pos same, same, kin_of (getTask_eq_ok.mp found)]
    rfl
  · rw [if_neg same, if_neg same]

theorem destroyUserTask_unlinked {kernel after : Kernel} {creator handle : Nat} {children : List Nat}
    (known : kin kernel handle = some (some creator, children))
    (run : kernel.destroyUserTask handle = .ok after) : Unlinked kernel after creator handle := by
  obtain ⟨task, found, rest⟩ := bind_eq_ok.mp run
  obtain ⟨_, _, rest⟩ := bind_eq_ok.mp rest
  obtain ⟨paging, _, rest⟩ := bind_eq_ok.mp rest
  obtain ⟨_, childless, rest⟩ := bind_eq_ok.mp rest
  have leaf := kin_of (getTask_eq_ok.mp found)
  rw [require_eq_ok.mp childless] at leaf
  rw [leaf] at known
  obtain ⟨parent, _⟩ := Prod.mk.inj (Option.some.inj known)
  rw [parent] at leaf rest
  obtain ⟨unlinked, removed, done⟩ := bind_eq_ok.mp rest
  obtain rfl := pure_eq_ok.mp done
  refine ⟨leaf, ?_, ?_⟩
  · intro query
    rw [kin_setTask]
    by_cases same : query = handle
    · rw [if_pos same, if_pos same]
      rfl
    · rw [if_neg same, if_neg same, removeChildTask_relatives removed]
      rfl
  · exact (removeChildTask_eq removed).2.1

section
variable {family : Family}

theorem Kept.bound (kept : Kept family) {handle : Nat} {relatives : Option Nat × List Nat}
    (found : kin family.kernel handle = some relatives) : handle < family.kernel.nextTid := by
  obtain ⟨task, known, _⟩ := Option.map_eq_some_iff.mp found
  exact kept.sound.owned.known handle _ (owner_of known)

theorem Kept.congr {new : Kernel} (kept : Kept family) (sound : new.Sound)
    (same : ∀ handle, kin new handle = kin family.kernel handle)
    (nextTid : new.nextTid = family.kernel.nextTid) : Kept { family with kernel := new } := by
  constructor
  · exact sound
  · simp only [same]
    exact kept.main
  · intro handle parent children found
    rw [same] at found
    exact kept.children handle parent children found
  · intro creator child pair undestroyed
    simp only [same]
    exact kept.alive creator child pair undestroyed
  · exact kept.distinct
  · simp only [nextTid]
    exact kept.known
  · simp only [nextTid]
    exact kept.destroyed

variable (family) in
theorem undestroyed_append (creator child query : Nat) (fresh : child ∉ family.destroyed) :
    undestroyed { family with created := family.created ++ [(creator, child)] } query =
      if query = creator then family.undestroyed query ++ [child] else family.undestroyed query := by
  unfold undestroyed
  dsimp only
  by_cases same : query = creator
  · subst same
    simp [List.filter_append, fresh]
  · simp [List.filter_append, same, Ne.symm same]

theorem Kept.adopt {new : Kernel} {caller : Nat} (kept : Kept family) (sound : new.Sound)
    (adopted : Adopted family.kernel new caller) :
    Kept { family with
      kernel := new
      created := family.created ++ [(caller, family.kernel.nextTid)] } := by
  obtain ⟨callerParent, callerChildren, callerKin⟩ := adopted.creator
  have callerBound := kept.bound callerKin
  have fresh : family.kernel.nextTid ∉ family.destroyed := by
    intro listed
    exact absurd (kept.destroyed _ listed) (Nat.lt_irrefl _)
  have stays : ∀ handle parent children, kin family.kernel handle = some (parent, children) →
      ∃ more, kin new handle = some (parent, more) := by
    intro handle parent children found
    have bound := kept.bound found
    rw [adopted.relatives, if_neg (Nat.ne_of_lt bound), found]
    split
    · exact ⟨_, rfl⟩
    · exact ⟨_, rfl⟩
  constructor
  · exact sound
  · obtain ⟨parent, children, found⟩ := kept.main
    exact ⟨parent, stays _ _ _ found⟩
  · intro handle parent children found
    have lists := undestroyed_append family caller family.kernel.nextTid handle fresh
    rw [show undestroyed { family with
      kernel := new
      created := family.created ++ [(caller, family.kernel.nextTid)] } handle = _ from lists]
    dsimp only at found
    rw [adopted.relatives] at found
    by_cases leaf : handle = family.kernel.nextTid
    · rw [if_pos leaf] at found
      obtain ⟨_, rfl⟩ := Prod.mk.inj (Option.some.inj found)
      rw [if_neg (by omega), undestroyed, List.filter_eq_nil_iff.mpr, List.map_nil]
      intro pair listed
      have below := (kept.known pair listed).1
      simp only [decide_eq_true_eq, not_and]
      intro same
      omega
    · rw [if_neg leaf] at found
      by_cases same : handle = caller
      · rw [if_pos same, same, callerKin] at found
        obtain ⟨_, rfl⟩ := Prod.mk.inj (Option.some.inj found)
        rw [if_pos same, same, ← kept.children caller _ _ callerKin]
      · rw [if_neg same] at found
        rw [if_neg same]
        exact kept.children handle parent children found
  · intro creator child listed undestroyed
    rcases List.mem_append.mp listed with old | last
    · obtain ⟨⟨parent, children, found⟩, others, childFound⟩ := kept.alive creator child old undestroyed
      obtain ⟨more, creatorStays⟩ := stays _ _ _ found
      exact ⟨⟨parent, more, creatorStays⟩, stays _ _ _ childFound⟩
    · obtain ⟨rfl, rfl⟩ := Prod.mk.inj (List.mem_singleton.mp last)
      obtain ⟨more, callerStays⟩ := stays _ _ _ callerKin
      refine ⟨⟨callerParent, more, callerStays⟩, [], ?_⟩
      rw [adopted.relatives, if_pos rfl]
  · rw [List.map_append, List.nodup_append]
    refine ⟨kept.distinct, by simp, ?_⟩
    intro child listed other last
    obtain ⟨pair, member, rfl⟩ := List.mem_map.mp listed
    have below := (kept.known pair member).2.1
    simp only [List.map_cons, List.map_nil, List.mem_singleton] at last
    omega
  · intro pair listed
    rw [adopted.nextTid]
    rcases List.mem_append.mp listed with old | last
    · obtain ⟨creatorBelow, childBelow, notMain⟩ := kept.known pair old
      exact ⟨by omega, by omega, notMain⟩
    · rw [List.mem_singleton.mp last]
      obtain ⟨_, _, mainFound⟩ := kept.main
      have mainBelow := kept.bound mainFound
      exact ⟨by dsimp only; omega, by dsimp only; omega, by dsimp only; omega⟩
  · intro handle listed
    rw [adopted.nextTid]
    have below := kept.destroyed handle listed
    omega

variable (family) in
theorem undestroyed_cons (distinct : (family.created.map Prod.snd).Nodup) (handle query : Nat) :
    undestroyed { family with destroyed := handle :: family.destroyed } query =
      (family.undestroyed query).erase handle := by
  have nodup : (family.undestroyed query).Nodup :=
    (List.filter_sublist.map Prod.snd).nodup distinct
  rw [nodup.erase_eq_filter]
  unfold undestroyed
  rw [List.filter_map, List.filter_filter]
  congr 1
  apply List.filter_congr
  intro pair _
  simp only [Function.comp, List.mem_cons, not_or, Bool.decide_and]
  grind

theorem mem_undestroyed {creator child : Nat} :
    child ∈ family.undestroyed creator ↔ (creator, child) ∈ family.created ∧ child ∉ family.destroyed := by
  simp [undestroyed]

theorem Kept.creator_unique (kept : Kept family) {first second child : Nat}
    (left : (first, child) ∈ family.created) (right : (second, child) ∈ family.created) :
    first = second :=
  congrArg Prod.fst (List.inj_on_of_nodup_map kept.distinct left right rfl)

theorem Kept.unlink {new : Kernel} {creator handle : Nat} (kept : Kept family) (sound : new.Sound)
    (listed : (creator, handle) ∈ family.created)
    (childless : ∀ child, (handle, child) ∈ family.created → child ∈ family.destroyed)
    (unlinked : Unlinked family.kernel new creator handle) :
    Kept { family with kernel := new, destroyed := handle :: family.destroyed } := by
  have stays : ∀ query parent children, query ≠ handle →
      kin family.kernel query = some (parent, children) → ∃ fewer, kin new query = some (parent, fewer) := by
    intro query parent children different found
    rw [unlinked.relatives, if_neg different, found]
    split
    · exact ⟨_, rfl⟩
    · exact ⟨_, rfl⟩
  obtain ⟨_, handleBound, notMain⟩ := kept.known _ listed
  constructor
  · exact sound
  · obtain ⟨parent, children, found⟩ := kept.main
    exact ⟨parent, stays _ _ _ (Ne.symm notMain) found⟩
  · intro query parent children found
    have lists := undestroyed_cons family kept.distinct handle query
    rw [show undestroyed { family with
      kernel := new, destroyed := handle :: family.destroyed } query = _ from lists]
    dsimp only at found
    rw [unlinked.relatives] at found
    split at found
    · cases found
    · split at found
      · obtain ⟨⟨other, before⟩, known, result⟩ := Option.map_eq_some_iff.mp found
        obtain ⟨_, rfl⟩ := Prod.mk.inj result
        rw [kept.children query _ _ known]
      · rename_i otherQuery
        rw [kept.children query parent children found, List.erase_of_not_mem]
        intro child
        exact otherQuery (kept.creator_unique (mem_undestroyed.mp child).1 listed)
  · intro first child pair remaining
    simp only [List.mem_cons, not_or] at remaining
    obtain ⟨notHandle, remaining⟩ := remaining
    obtain ⟨⟨parent, children, found⟩, others, childFound⟩ := kept.alive first child pair remaining
    have notParent : first ≠ handle := by
      rintro rfl
      exact remaining (childless child pair)
    exact ⟨⟨parent, stays _ _ _ notParent found⟩, stays _ _ _ notHandle childFound⟩
  · exact kept.distinct
  · rw [unlinked.nextTid]
    exact kept.known
  · intro other gone
    rw [unlinked.nextTid]
    rcases List.mem_cons.mp gone with rfl | before
    · exact handleBound
    · exact kept.destroyed other before

theorem SameTasks.relatives {old new : Kernel} (same : SameTasks old new) (handle : Nat) :
    kin new handle = kin old handle := by
  rw [kin, kin, same.tasks]

theorem exitThisTask_relatives {kernel after : Kernel} {caller : Nat}
    (run : kernel.exitThisTask caller = .ok after) (handle : Nat) :
    kin after handle = kin kernel handle := by
  obtain ⟨task, found, done⟩ := bind_eq_ok.mp run
  obtain rfl := pure_eq_ok.mp done
  rw [kin_setTask]
  by_cases same : handle = caller
  · rw [if_pos same, same, kin_of (getTask_eq_ok.mp found)]
    rfl
  · rw [if_neg same]

theorem Kept.sameTasks {new : Kernel} (kept : Kept family) (sound : new.Sound)
    (same : SameTasks family.kernel new) : Kept { family with kernel := new } :=
  kept.congr sound (SameTasks.relatives same) same.nextTid

theorem Kept.call {call : Call} {new : Kernel} (kept : Kept family) (noDestroy : ∀ handle, call ≠ .destroyUserTask handle)
    (enabled : family.kernel.Enabled call) (performed : family.kernel.perform call = .ok new) :
    Kept { family with kernel := new, created := family.recordCreation (some call) } := by
  have owned := kept.sound.owned
  have sound := kept.sound.perform enabled performed
  cases call with
  | createUserTask caller entry codesize arg entryOffset growth =>
      obtain ⟨⟨after, handle⟩, run, done⟩ := bind_eq_ok.mp performed
      obtain rfl := pure_eq_ok.mp done
      exact kept.adopt sound (userTask_adopted run)
  | kernelJumpToUserEntry vfsData vfsSize arg growth =>
      obtain ⟨⟨after, handle⟩, run, done⟩ := bind_eq_ok.mp performed
      obtain rfl := pure_eq_ok.mp done
      exact kept.adopt sound (userTask_adopted run)
  | destroyUserTask handle => exact absurd rfl (noDestroy handle)
  | exit caller =>
      exact kept.congr sound (exitThisTask_relatives performed) (exitThisTask_eq performed).2.1
  | mapPage caller vaddr =>
      obtain ⟨⟨after, result⟩, run, done⟩ := bind_eq_ok.mp performed
      obtain rfl := pure_eq_ok.mp done
      exact kept.sameTasks sound (mapPage_edit owned enabled run).1
  | unmapPage caller vaddr =>
      exact kept.sameTasks sound (unmapPage_edit owned enabled performed).1
  | sharePage caller handle src =>
      obtain ⟨⟨after, dst⟩, run, done⟩ := bind_eq_ok.mp performed
      obtain rfl := pure_eq_ok.mp done
      exact kept.sameTasks sound (sharePage_edit owned enabled run).1
  | growHeap bytes => exact kept.sameTasks sound (growHeap_edits performed).2

theorem Permitted.served {systemCall : SystemCall} (permitted : family.Permitted (.call systemCall)) :
    family.kernel.CanServe systemCall ∧ ∀ handle, systemCall.call ≠ some (.destroyUserTask handle) := by
  cases systemCall with
  | destroyUserTask handle => exact permitted.elim
  | _ => exact ⟨permitted, fun handle => by simp [SystemCall.call]⟩

theorem step_kept {step : Step} {after : Family} (kept : Kept family)
    (stepped : (runs Careful).step family step after) : Kept after := by
  obtain ⟨permitted, ⟨own, childless⟩, performed⟩ := stepped
  have owned := kept.sound.owned
  cases step with
  | call systemCall =>
      obtain ⟨new, run, done⟩ := bind_eq_ok.mp performed
      obtain rfl := pure_eq_ok.mp done
      obtain ⟨can, noDestroy⟩ := Permitted.served permitted
      rcases serve_cases owned kept.sound.anchored can own run with
        ⟨call, middle, memory, isCall, enabled, calls, rfl⟩ | ⟨noCall, paging, memory, equivalent, rfl⟩
      · have called := kept.call (fun handle same => noDestroy handle (same ▸ isCall)) enabled calls
        rw [isCall]
        exact called.congr (called.sound.equivalent (.refl _) memory) (fun _ => rfl) rfl
      · rw [noCall]
        exact kept.congr (kept.sound.equivalent equivalent memory) (fun _ => rfl) rfl
  | destroy caller handle =>
      obtain ⟨new, run, done⟩ := bind_eq_ok.mp performed
      obtain rfl := pure_eq_ok.mp done
      obtain ⟨_, listed, remaining, enabled⟩ := permitted
      obtain ⟨_, children, found⟩ := kept.alive caller handle listed remaining
      have performedCall : family.kernel.perform (.destroyUserTask handle) = .ok new := run
      exact kept.unlink (kept.sound.perform enabled performedCall) listed childless
        (destroyUserTask_unlinked found run)

theorem kernelSetup_relatives {highMemKB : UInt32} {slots : Nat → PageDirectory} {memory : Memory}
    {scheduler : List UInt32} {initrd : Option (List UInt32)} {kernel : Kernel}
    (run : kernelSetup highMemKB slots memory scheduler initrd = .ok kernel) (handle : Nat) :
    kin kernel handle = if handle = mainKernelTask then some (none, []) else none := by
  obtain ⟨start, _, rest⟩ := bind_eq_ok.mp run
  obtain ⟨first, grown, rest⟩ := bind_eq_ok.mp rest
  obtain ⟨second, allocated, rest⟩ := bind_eq_ok.mp rest
  have same := (growHeap_edits grown).2.trans (kmalloc_edits scheduler allocated).2
  have none_before : kin second handle = none := by
    rw [SameTasks.relatives same]
    rfl
  cases initrd with
  | none =>
      obtain rfl := pure_eq_ok.mp rest
      change kin (setTask mainKernelTask _ second) handle = _
      rw [kin_setTask, none_before]
      rfl
  | some requests =>
      obtain ⟨mapped, _, rest⟩ := bind_eq_ok.mp rest
      obtain ⟨third, moduleMalloc, rest⟩ := bind_eq_ok.mp rest
      obtain ⟨new, _, done⟩ := bind_eq_ok.mp rest
      obtain rfl := pure_eq_ok.mp done
      have kept := SameTasks.relatives (kmalloc_edits requests moduleMalloc).2 handle
      change kin third handle = _
      rw [kept]
      change kin (setTask mainKernelTask _ second) handle = _
      rw [kin_setTask, none_before]
      rfl

theorem initial_kept (initial : (runs Careful).initial family) : Kept family := by
  obtain ⟨noneCreated, noneDestroyed, _, _, _, _, _, booted⟩ := initial
  have relatives := kernelSetup_relatives booted
  constructor
  · exact kernelSetup_sound booted
  · exact ⟨none, [], relatives mainKernelTask⟩
  · intro handle parent children found
    rw [relatives] at found
    split at found
    · obtain ⟨_, rfl⟩ := Prod.mk.inj (Option.some.inj found)
      rw [undestroyed, noneCreated]
      rfl
    · cases found
  · simp [noneCreated]
  · simp [noneCreated]
  · simp [noneCreated]
  · simp [noneDestroyed]

theorem destroyUserTask_asserts {caller handle : Nat} (kept : Kept family)
    (permitted : family.Permitted (.destroy caller handle))
    (childless : family.Childless (.destroy caller handle)) :
    Returns (family.kernel.destroyUserTask handle)
      (fun fault => fault ≠ .childrenLeft ∧ fault ≠ .notAChild ∧ fault ≠ .noSuchTask) fun _ => True := by
  obtain ⟨_, listed, remaining, _⟩ := permitted
  obtain ⟨⟨parent, siblings, creatorFound⟩, children, found⟩ := kept.alive caller handle listed remaining
  obtain ⟨task, known, relatives⟩ := Option.map_eq_some_iff.mp found
  obtain ⟨sameParent, sameChildren⟩ := Prod.mk.inj relatives
  obtain ⟨creator, creatorKnown, creatorRelatives⟩ := Option.map_eq_some_iff.mp creatorFound
  have noChildren : task.children = [] := by
    rw [sameChildren, kept.children handle _ _ found, List.eq_nil_iff_forall_not_mem]
    intro child member
    obtain ⟨pair, undestroyed⟩ := mem_undestroyed.mp member
    exact undestroyed (childless child pair)
  have present : handle ∈ creator.children := by
    rw [(Prod.mk.inj creatorRelatives).2, kept.children caller _ _ creatorFound]
    exact mem_undestroyed.mpr ⟨listed, remaining⟩
  unfold destroyUserTask
  rw [getTask_eq_ok.mpr known, ok_bind]
  refine returns_require_or (by decide) ?_
  intro isUser
  have uses := owner_of known
  rw [isUser] at uses
  obtain ⟨slot, region, same⟩ := kept.sound.owned.userTasks handle _ uses
  rw [same]
  refine Returns.then ?_ ?_
  · have spec := Paging.reclaimPageDirRegion_spec family.kernel.paging (Paging.mem_slots.mp region).1
    refine (spec.mono fun _ _ => True.intro).weaken ?_
    rintro fault ⟨rfl, _⟩
    decide
  · intro paging _
    refine returns_require_bind noChildren ?_
    rw [sameParent]
    refine Returns.then ?_ fun _ _ => returns_pure.mpr True.intro
    have creatorStays : getTask { family.kernel with paging } caller = .ok creator :=
      getTask_eq_ok.mpr creatorKnown
    unfold removeChildTask
    rw [creatorStays, ok_bind]
    exact returns_require_bind present (returns_pure.mpr True.intro)

end

instance (family : Family) (step : Step) : Decidable (family.Permitted step) :=
  match step with
  | .call (.destroyUserTask _) => inferInstanceAs (Decidable False)
  | .call (.createUserTask caller _ _ _ _ _ _ _) => inferInstanceAs (Decidable (family.kernel.RunningUser caller))
  | .call (.kernelJumpToUserEntry _ _ _ _) => inferInstanceAs (Decidable True)
  | .call (.exit caller) => inferInstanceAs (Decidable (family.kernel.RunningUser caller))
  | .call (.copyFromTask caller _ _ _ _) => inferInstanceAs (Decidable (family.kernel.RunningUser caller))
  | .call (.mapPage caller _) => inferInstanceAs (Decidable (family.kernel.RunningUser caller))
  | .call (.unmapPage caller _) => inferInstanceAs (Decidable (family.kernel.RunningUser caller))
  | .call (.sharePage caller _ _ _) => inferInstanceAs (Decidable (family.kernel.RunningUser caller))
  | .call (.debugRead caller _ _) => inferInstanceAs (Decidable (family.kernel.RunningUser caller))
  | .call (.getParentTask caller _ _) => inferInstanceAs (Decidable (family.kernel.RunningUser caller))
  | .call (.getParentTaskId caller _) => inferInstanceAs (Decidable (family.kernel.RunningUser caller))
  | .call (.getCurrentTask caller _ _) => inferInstanceAs (Decidable (family.kernel.RunningUser caller))
  | .call (.growHeap _) => inferInstanceAs (Decidable True)
  | .destroy caller handle => inferInstanceAs (Decidable (
      (family.kernel.RunningUser caller ∨ caller = mainKernelTask) ∧
      (caller, handle) ∈ family.created ∧ handle ∉ family.destroyed ∧
      family.kernel.Enabled (.destroyUserTask handle)))

instance (family : Family) (step : Step) : Decidable (family.Childless step) :=
  match step with
  | .call _ => inferInstanceAs (Decidable True)
  | .destroy _ handle =>
      decidable_of_iff (∀ pair ∈ family.created, pair.1 = handle → pair.2 ∈ family.destroyed)
        ⟨fun all child listed => all (handle, child) listed rfl, by
          rintro all ⟨_, child⟩ listed rfl
          exact all child listed⟩

instance (family : Family) (step : Step) : Decidable (family.OwnPointers step) :=
  match step with
  | .call systemCall => inferInstanceAs (Decidable (family.kernel.OwnPointers systemCall))
  | .destroy _ _ => inferInstanceAs (Decidable True)

instance (family : Family) (step : Step) : Decidable (family.Careful step) :=
  inferInstanceAs (Decidable (_ ∧ _))

section Replay

variable {Condition : Family → Step → Prop} [∀ family step, Decidable (Condition family step)]

def tryStep (Condition : Family → Step → Prop) [∀ family step, Decidable (Condition family step)]
    (family : Family) (step : Step) : Option Family :=
  if family.Permitted step ∧ Condition family step then (family.perform step).toOption else none

theorem tryStep_step {family after : Family} {step : Step} (tried : tryStep Condition family step = some after) :
    (runs Condition).step family step after := by
  unfold tryStep at tried
  split at tried
  · rename_i allowed
    exact ⟨allowed.1, allowed.2, toOption_eq_some.mp tried⟩
  · cases tried

def stepsTest (Condition : Family → Step → Prop) [∀ family step, Decidable (Condition family step)]
    (steps : List Step) (test : Family → Bool) : Bool :=
  System.replayTest (tryStep Condition) (bootMachine.toOption.map fun kernel => ⟨kernel, [], []⟩) steps test

theorem stepsTest_reachable (steps : List Step) (test : Family → Bool)
    (passed : stepsTest Condition steps test = true) :
    ∃ family, (runs Condition).Reachable family ∧ test family = true := by
  refine System.replayTest_reachable ?_ (fun _ _ _ => tryStep_step) passed
  intro family booted
  obtain ⟨kernel, boots, rfl⟩ := Option.map_eq_some_iff.mp booted
  exact ⟨rfl, rfl, bootMachine_initial boots⟩

end Replay

def threeGenerations : List Step :=
  [.call (.kernelJumpToUserEntry kernHeapBegin 8 0 noGrowth),
    .call (.createUserTask 1 userStart 4 0 userStart 0 0x2000080 noGrowth),
    .call (.createUserTask 2 userStart 4 0 userStart 0 0x2000100 noGrowth)]

def tidyExit : List Step :=
  threeGenerations ++ [.call (.exit 3), .destroy 2 3, .call (.exit 2)]

end Family

end ToyKernel
