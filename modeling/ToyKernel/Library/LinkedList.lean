import Mathlib.Tactic

/-!
Singly linked lists in a heap of nodes. A segment lists the addresses and values
from one pointer up to another; a list is a segment that ends in the null pointer.
-/

namespace ToyKernel.Library

structure Node (α : Type) where
  value : α
  next : Option Nat

abbrev NodeHeap (α : Type) := Nat → Option (Node α)

namespace NodeHeap

variable {α : Type}

def setNext (heap : NodeHeap α) (address : Nat) (next : Option Nat) : NodeHeap α := fun query =>
  if query = address then (heap address).map fun node => { node with next } else heap query

def set (heap : NodeHeap α) (address : Nat) (node : Option (Node α)) : NodeHeap α := fun query =>
  if query = address then node else heap query

theorem setNext_same {heap : NodeHeap α} {address : Nat} {node : Node α} (next : Option Nat)
    (found : heap address = some node) : heap.setNext address next address = some ⟨node.value, next⟩ := by
  simp [setNext, found]

theorem setNext_other (heap : NodeHeap α) {address query : Nat} (next : Option Nat)
    (different : query ≠ address) : heap.setNext address next query = heap query := by
  simp [setNext, different]

theorem set_same (heap : NodeHeap α) (address : Nat) (node : Option (Node α)) :
    heap.set address node address = node := by
  simp [set]

theorem set_other (heap : NodeHeap α) {address query : Nat} (node : Option (Node α))
    (different : query ≠ address) : heap.set address node query = heap query := by
  simp [set, different]

def Segment (heap : NodeHeap α) : Option Nat → List (Nat × α) → Option Nat → Prop
  | start, [], finish => start = finish
  | start, (address, value) :: rest, finish =>
      start = some address ∧ ∃ next, heap address = some ⟨value, next⟩ ∧ Segment heap next rest finish

variable {heap other : NodeHeap α} {start middle finish : Option Nat}

theorem Segment.append {front back : List (Nat × α)} (first : Segment heap start front middle)
    (second : Segment heap middle back finish) : Segment heap start (front ++ back) finish := by
  induction front generalizing start with
  | nil =>
      cases first
      exact second
  | cons item rest ih =>
      obtain ⟨starts, next, found, later⟩ := first
      exact ⟨starts, next, found, ih later⟩

theorem Segment.split {front back : List (Nat × α)}
    (segment : Segment heap start (front ++ back) finish) :
    ∃ middle, Segment heap start front middle ∧ Segment heap middle back finish := by
  induction front generalizing start with
  | nil => exact ⟨start, rfl, segment⟩
  | cons item rest ih =>
      obtain ⟨starts, next, found, later⟩ := segment
      obtain ⟨middle, first, second⟩ := ih later
      exact ⟨middle, ⟨starts, next, found, first⟩, second⟩

theorem Segment.congr {items : List (Nat × α)} (segment : Segment heap start items finish)
    (same : ∀ item ∈ items, other item.1 = heap item.1) : Segment other start items finish := by
  induction items generalizing start with
  | nil => exact segment
  | cons item rest ih =>
      obtain ⟨starts, next, found, later⟩ := segment
      refine ⟨starts, next, ?_, ih later ?_⟩
      · rw [same item (List.mem_cons_self ..), found]
      · intro query member
        exact same query (List.mem_cons_of_mem _ member)

theorem Segment.found {items : List (Nat × α)} (segment : Segment heap start items finish)
    {item : Nat × α} (member : item ∈ items) : ∃ next, heap item.1 = some ⟨item.2, next⟩ := by
  induction items generalizing start with
  | nil => cases member
  | cons first rest ih =>
      obtain ⟨starts, next, found, later⟩ := segment
      cases List.mem_cons.mp member with
      | inl same => exact ⟨next, by rw [same, found]⟩
      | inr deeper => exact ih later deeper

theorem Segment.rotate {first last : Nat} {value final : α} {items : List (Nat × α)}
    {next : Option Nat} (found : heap first = some ⟨value, next⟩)
    (segment : Segment heap next (items ++ [(last, final)]) none)
    (fresh : first ∉ (items ++ [(last, final)]).map Prod.fst)
    (distinct : ((items ++ [(last, final)]).map Prod.fst).Nodup) :
    Segment ((heap.setNext last (some first)).setNext first none) next
      (items ++ [(last, final)] ++ [(first, value)]) none := by
  obtain ⟨middle, front, rfl, _, lastFound, _⟩ := segment.split
  rw [List.map_append, List.nodup_append'] at distinct
  simp only [List.map_append, List.mem_append, List.map_cons, List.map_nil, List.mem_singleton,
    not_or] at fresh
  have lastOutside : last ∉ items.map Prod.fst := fun inside =>
    distinct.2.2 inside (List.mem_singleton.mpr rfl)
  have frontAfter : Segment ((heap.setNext last (some first)).setNext first none) next items
      (some last) := by
    apply front.congr
    intro item member
    have listed := List.mem_map_of_mem (f := Prod.fst) member
    rw [setNext_other, setNext_other]
    · rintro same
      exact lastOutside (same ▸ listed)
    · rintro same
      exact fresh.1 (same ▸ listed)
  have firstFound : heap.setNext last (some first) first = some ⟨value, next⟩ := by
    rw [setNext_other _ _ fresh.2, found]
  rw [List.append_assoc]
  refine frontAfter.append ⟨rfl, some first, ?_, rfl, none, setNext_same none firstFound, rfl⟩
  rw [setNext_other _ _ (Ne.symm fresh.2), setNext_same _ lastFound]

theorem Segment.unlink {prev address : Nat} {before value : α} {front back : List (Nat × α)}
    {next : Option Nat} (found : heap address = some ⟨value, next⟩)
    (segment : Segment heap start (front ++ (prev, before) :: (address, value) :: back) finish)
    (distinct : ((front ++ (prev, before) :: (address, value) :: back).map Prod.fst).Nodup) :
    Segment ((heap.setNext prev next).set address none) start
      (front ++ (prev, before) :: back) finish := by
  obtain ⟨middle, first, rfl, _, prevFound, rfl, after, addressFound, later⟩ := segment.split
  rw [found] at addressFound
  obtain rfl : next = after := by simpa using addressFound
  simp only [List.map_append, List.map_cons, List.nodup_append', List.nodup_cons, List.mem_cons,
    List.disjoint_cons_right, not_or] at distinct
  obtain ⟨_, ⟨⟨different, prevBack⟩, addressBack, _⟩, prevFront, addressFront, _⟩ := distinct
  have kept : ∀ item : Nat × α, item.1 ≠ prev → item.1 ≠ address →
      (heap.setNext prev next).set address none item.1 = heap item.1 := by
    intro item notPrev notAddress
    rw [set_other _ _ notAddress, setNext_other _ _ notPrev]
  have frontAfter : Segment ((heap.setNext prev next).set address none) start front (some prev) := by
    apply first.congr
    intro item member
    have listed := List.mem_map_of_mem (f := Prod.fst) member
    apply kept
    · rintro same
      exact prevFront (same ▸ listed)
    · rintro same
      exact addressFront (same ▸ listed)
  refine frontAfter.append ⟨rfl, next, ?_, later.congr ?_⟩
  · rw [set_other _ _ different, setNext_same _ prevFound]
  · intro item member
    have listed := List.mem_map_of_mem (f := Prod.fst) member
    apply kept
    · rintro same
      exact prevBack (same ▸ listed)
    · rintro same
      exact addressBack (same ▸ listed)

theorem Segment.unlink_front {address : Nat} {value : α} {back : List (Nat × α)}
    {next : Option Nat} (found : heap address = some ⟨value, next⟩)
    (segment : Segment heap start ((address, value) :: back) finish)
    (fresh : address ∉ back.map Prod.fst) : Segment (heap.set address none) next back finish := by
  obtain ⟨_, after, addressFound, later⟩ := segment
  rw [found] at addressFound
  obtain rfl : next = after := by simpa using addressFound
  apply later.congr
  intro item member
  apply set_other
  rintro same
  exact fresh (same ▸ List.mem_map_of_mem (f := Prod.fst) member)

end NodeHeap

end ToyKernel.Library
