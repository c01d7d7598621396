import ToyKernel.Containers.BitVector
import ToyKernel.Libc.Printf
import ToyKernel.Vfs.Model

/-!
`Node::Dump` of `utils/vfs.cpp`, which draws a tree with a bit vector that says for each directory
on the way whether it was the last one in its own.
-/

namespace ToyKernel.Vfs

open Library Containers Libc Print

inductive DumpFault
  | bit (fault : BitFault)
  | print (fault : PrintFault)
deriving DecidableEq, Repr

def passedLast : List UInt8 := [32, 32, 32]

def passedOther : List UInt8 := [124, 32, 32]

def lastNode : List UInt8 := [96, 45, 45]

def otherNode : List UInt8 := [124, 45, 45]

def printText (text : List UInt8) : Except DumpFault (List UInt8) :=
  (printf (fun _ => []) (text ++ [0]) []).mapError .print

def indentLoop (last : BitVector) : List Nat → Except DumpFault (List UInt8)
  | [] => return []
  | i :: rest => do
      let bit ← (last.get i).mapError .bit
      let text ← printText (if bit then passedLast else passedOther)
      let others ← indentLoop last rest
      return text ++ others

def dumpLine (name : Text) (last : BitVector) : Except DumpFault (List UInt8) := do
  let front ← if last.size = 0 then pure [] else do
    let indent ← indentLoop last (List.range (last.size - 1))
    let bit ← last.getBack.mapError .bit
    let text ← printText (if bit then lastNode else otherNode)
    pure (indent ++ text)
  let shown ← (printf (fun _ => name ++ [0]) [percent, 115, 10, 0] [0]).mapError .print
  return front ++ shown

mutual

def dumpImpl (fresh : Nat → BitVec 8) : Node → BitVector → Except DumpFault (BitVector × List UInt8)
  | .file name _ _, last => do
      let line ← dumpLine name last
      return (last, line)
  | .directory name _ nodes, last => do
      let line ← dumpLine name last
      let (last, below) ← dumpNodes fresh nodes last
      return (last, line ++ below)

def dumpNodes (fresh : Nat → BitVec 8) : List Node → BitVector → Except DumpFault (BitVector × List UInt8)
  | [], last => return (last, [])
  | node :: rest, last => do
      let last ← (last.pushBack rest.isEmpty fresh).mapError .bit
      let (last, shown) ← dumpImpl fresh node last
      let last ← last.popBack.mapError .bit
      let (last, others) ← dumpNodes fresh rest last
      return (last, shown ++ others)

end

def dump (fresh : Nat → BitVec 8) (node : Node) : Except DumpFault (List UInt8) := do
  let (_, shown) ← dumpImpl fresh node .empty
  return shown

section Drawing

def connector (lasts : List Bool) : List UInt8 :=
  if lasts = [] then []
  else (lasts.dropLast.flatMap fun last => if last then passedLast else passedOther) ++
    if lasts.getLastD false then lastNode else otherNode

def drawLine (lasts : List Bool) (name : Text) : List UInt8 :=
  connector lasts ++ (name.takeWhile (· != 0) ++ [10])

mutual

def drawing (lasts : List Bool) : Node → List UInt8
  | .file name _ _ => drawLine lasts name
  | .directory name _ nodes => drawLine lasts name ++ drawings lasts nodes

def drawings (lasts : List Bool) : List Node → List UInt8
  | [] => []
  | node :: rest => drawing (lasts ++ [rest.isEmpty]) node ++ drawings lasts rest

end

mutual

def marks (depth : Nat) : Node → List (Nat × Bool)
  | .file _ _ _ => []
  | .directory _ _ nodes => marksOf depth nodes

def marksOf (depth : Nat) : List Node → List (Nat × Bool)
  | [] => []
  | node :: rest => (depth, rest.isEmpty) :: (marks (depth + 1) node ++ marksOf depth rest)

end

mutual

def height : Node → Nat
  | .file _ _ _ => 0
  | .directory _ _ nodes => heights nodes

def heights : List Node → Nat
  | [] => 0
  | node :: rest => max (height node + 1) (heights rest)

end

/-- A node that is not the last one, behind a last one of the same depth, needs the vector to have left
its word. -/
def CleanMark (front : List (Nat × Bool)) (mark : Nat × Bool) : Prop :=
  mark.2 = false → (mark.1, true) ∈ front → ∃ other ∈ front, 32 ≤ other.1

def CleanFrom : List (Nat × Bool) → List (Nat × Bool) → Prop
  | _, [] => True
  | front, mark :: rest => CleanMark front mark ∧ CleanFrom (front ++ [mark]) rest

theorem cleanFrom_append (front first second : List (Nat × Bool)) :
    CleanFrom front (first ++ second) ↔ CleanFrom front first ∧ CleanFrom (front ++ first) second := by
  induction first generalizing front with
  | nil => simp [CleanFrom]
  | cons mark first ih => rw [List.cons_append, CleanFrom, CleanFrom, ih, and_assoc, List.append_assoc]; rfl

theorem cleanFrom_iff (front marks : List (Nat × Bool)) : CleanFrom front marks ↔
    ∀ before mark behind, marks = before ++ mark :: behind → CleanMark (front ++ before) mark := by
  induction marks generalizing front with
  | nil => simp [CleanFrom]
  | cons first rest ih =>
      rw [CleanFrom, ih]
      constructor
      · rintro ⟨clean, later⟩ before mark behind split
        cases before with
        | nil =>
            cases split
            rwa [List.append_nil]
        | cons head before =>
            obtain ⟨rfl, same⟩ := List.cons.inj split
            have onwards := later before mark behind same
            rwa [List.append_assoc] at onwards
      · intro all
        refine ⟨?_, fun before mark behind split => ?_⟩
        · have here := all [] first rest rfl
          rwa [List.append_nil] at here
        · have onwards := all (first :: before) mark behind (by rw [split]; rfl)
          rwa [List.append_assoc]

end Drawing

section Lines

variable {last : BitVector}

def shownBits (last : BitVector) : List Bool := (List.range last.bits).map last.bitAt

theorem printText_eq {text : List UInt8} (plain : Plain text) : printText text = .ok text := by
  have ended : printf (fun _ => []) [0] [] = .ok [] := rfl
  rw [printText, printf_literal plain, ended]
  show Except.ok (text ++ []) = _
  rw [List.append_nil]

theorem indentLoop_eq (sized : last.Sized) (indices : List Nat) (inside : ∀ i ∈ indices, i < last.bits) :
    indentLoop last indices =
      .ok ((indices.map last.bitAt).flatMap fun bit => if bit then passedLast else passedOther) := by
  induction indices with
  | nil => rfl
  | cons i rest ih =>
      obtain ⟨first, others⟩ := List.forall_mem_cons.mp inside
      have text : printText (if last.bitAt i then passedLast else passedOther) =
          .ok (if last.bitAt i then passedLast else passedOther) := by
        cases last.bitAt i <;> exact printText_eq ⟨by decide, by decide⟩
      rw [indentLoop, BitVector.get_eq sized first, Except.mapError, ok_bind, text, ok_bind, ih others, ok_bind]
      rfl

theorem dumpLine_eq (sized : last.Sized) (name : Text) : dumpLine name last = .ok (drawLine (shownBits last) name) := by
  have line : printf (fun _ => name ++ [0]) [percent, 115, 10, 0] [0] = .ok (name.takeWhile (· != 0) ++ [10]) := by
    have stops : (name ++ [0]).takeWhile (· != (0 : UInt8)) = name.takeWhile (· != 0) := by
      induction name with
      | nil => rfl
      | cons c name ih => rw [List.cons_append, List.takeWhile_cons, List.takeWhile_cons, ih]
    have put : Conversion.string.put (fun _ => name ++ [0]) 0 = .ok (name.takeWhile (· != 0)) :=
      (printString_mem (by simp)).trans (congrArg _ stops)
    have ended : printf (fun _ => name ++ [0]) [10, 0] [] = .ok [10] := rfl
    show printf _ (percent :: Conversion.string.letter :: [10, 0]) [0] = _
    rw [printf_conversion, put, ended]
    rfl
  by_cases none : last.size = 0
  · have empty : shownBits last = [] := by
      rw [shownBits, show last.bits = 0 from none]
      rfl
    rw [dumpLine, if_pos none, line, drawLine, connector, if_pos empty]
    rfl
  · obtain ⟨count, counted⟩ : ∃ count, last.bits = count + 1 := ⟨last.bits - 1, by
      have positive : last.bits ≠ 0 := none
      omega⟩
    have size : last.size - 1 = count := by
      show last.bits - 1 = count
      omega
    have small := sized.small
    have index : last.lastIndex = count := BitVector.lastIndex_eq counted (by omega)
    have split : shownBits last = (List.range count).map last.bitAt ++ [last.bitAt count] := by
      rw [shownBits, counted, List.range_succ, List.map_append]
      rfl
    have text : printText (if last.bitAt count then lastNode else otherNode) =
        .ok (if last.bitAt count then lastNode else otherNode) := by
      cases last.bitAt count <;> exact printText_eq ⟨by decide, by decide⟩
    have indent := indentLoop_eq sized (List.range count) fun i member => by
      have below := List.mem_range.mp member
      omega
    rw [dumpLine, if_neg none, size, indent, BitVector.getBack, index,
      BitVector.get_eq sized (show count < last.bits by omega), Except.mapError, line, drawLine, connector, split,
      if_neg (List.append_ne_nil_of_right_ne_nil _ (List.cons_ne_nil _ _)), List.dropLast_concat,
      List.getLastD_concat]
    simp only [ok_bind, text]
    rfl

end Lines

section Steps

variable {vector : BitVector} {history : BitHistory} {front : List (Nat × Bool)} {x : Bool}

structure Follows (history : BitHistory) (front : List (Nat × Bool)) : Prop where
  raised : ∀ depth, depth ∈ history.raised ↔ (depth, true) ∈ front
  grown : history.grown = true ↔ ∃ mark ∈ front, 32 ≤ mark.1

def pushed (history : BitHistory) (x : Bool) : BitHistory where
  list := history.list ++ [x]
  raised := if x then history.list.length :: history.raised else history.raised
  grown := history.grown || decide (32 < (history.list ++ [x]).length)

theorem apply_pushed (history : BitHistory) (x : Bool) (fresh : Nat → BitVec 8) :
    history.apply (.pushBack x fresh) = some (pushed history x) := by
  cases x <;> rfl

theorem Follows.pushed (follows : Follows history front) (x : Bool) :
    Follows (pushed history x) (front ++ [(history.list.length, x)]) where
  raised := by
    intro depth
    cases x with
    | false => simpa [Vfs.pushed] using follows.raised depth
    | true => simpa [Vfs.pushed, or_comm] using or_congr_right (follows.raised depth)
  grown := by
    have behind : 32 < (history.list ++ [x]).length ↔ 32 ≤ history.list.length := by
      rw [List.length_append, List.length_singleton]
      omega
    simp only [Vfs.pushed, Bool.or_eq_true, decide_eq_true_eq, behind, follows.grown, List.mem_append,
      List.mem_singleton, or_and_right, exists_or, exists_eq_left]

theorem Follows.clean_iff (fresh : Nat → BitVec 8) (follows : Follows history front) (small : history.list.length + 1 < 4294967296) :
    history.Clean (.pushBack x fresh) ↔ CleanMark front (history.list.length, x) := by
  constructor
  · rintro ⟨clean, _⟩ isFalse member
    refine follows.grown.mp (clean history.list.length ?_ ((follows.raised _).mpr member))
    rw [BitHistory.write, show x = false from isFalse]
  · intro clean
    refine ⟨?_, fun _ _ _ => small⟩
    rintro _ ⟨⟩ member
    exact follows.grown.mpr (clean rfl ((follows.raised _).mp member))

theorem push_clean (fresh : Nat → BitVec 8) (represents : Represents vector history) (follows : Follows history front)
    (small : history.list.length + 1 < 4294967296) (clean : CleanMark front (history.list.length, x)) :
    ∃ next, vector.pushBack x fresh = .ok next ∧ Represents next (pushed history x) :=
  step_clean represents (apply_pushed history x fresh) ((follows.clean_iff fresh small).mpr clean)

theorem push_tracks (fresh : Nat → BitVec 8) (x : Bool) (tracks : Tracks vector history) (small : history.list.length + 1 < 4294967296) :
    ∃ next, vector.pushBack x fresh = .ok next ∧ Tracks next (pushed history x) := by
  obtain ⟨next, done⟩ := perform_ok_of_apply tracks (apply_pushed history x fresh) fun _ _ _ => small
  obtain ⟨after, applied, tracked⟩ := tracks_step tracks done
  cases (apply_pushed history x fresh).symm.trans applied
  exact ⟨next, done, tracked⟩

/-- A push that does not arrive shows a one. -/
theorem push_dirty (fresh : Nat → BitVec 8) (represents : Represents vector history) (follows : Follows history front)
    (small : history.list.length + 1 < 4294967296) (unclean : ¬CleanMark front (history.list.length, x)) :
    x = false ∧ ∃ next, vector.pushBack x fresh = .ok next ∧ Tracks next (pushed history x) ∧
      shownBits next = history.list ++ [true] := by
  have tracks := represents.tracks
  obtain ⟨next, done, tracked⟩ := push_tracks fresh x tracks small
  unfold CleanMark at unclean
  push Not at unclean
  obtain ⟨isFalse, member, short⟩ := unclean
  obtain rfl : x = false := isFalse
  have ungrown : history.grown = false := by
    rw [Bool.eq_false_iff]
    intro grown
    obtain ⟨other, among, deep⟩ := follows.grown.mp grown
    exact absurd deep (Nat.not_le.mpr (short other among))
  have old : vector.bitAt history.list.length = true :=
    (tracks.stale ungrown _).trans (decide_eq_true ((follows.raised _).mpr member))
  have inline : next.onHeap = false := tracked.heap.trans
    (write_keeps_word tracks (apply_pushed history false fresh) rfl ungrown old)
  have performed : performBit vector (.pushBack false fresh) = .ok next := done
  obtain ⟨written, kept⟩ := step_reads tracks performed
  have counted : next.bits = history.list.length + 1 := tracked.bits.trans List.length_append
  refine ⟨rfl, next, done, tracked, ?_⟩
  have last : next.bitAt history.list.length = true := by
    rw [written _ _ rfl, inline, if_neg Bool.false_ne_true, old]
    rfl
  rw [shownBits, counted, List.range_succ, List.map_append, List.map_singleton, last]
  congr 1
  refine List.ext_getElem (by simp) fun index inside bound => ?_
  rw [List.getElem_map, List.getElem_range, ← represents.agrees index bound]
  refine kept index (fun val impossible => ?_) (.inr inline)
  obtain rfl : history.list.length = index := congrArg Prod.fst (Option.some.inj impossible)
  exact absurd bound (Nat.lt_irrefl _)

theorem apply_popBack {lasts : List Bool} (sized : Tracks vector history) (split : history.list = lasts ++ [x]) :
    history.apply .popBack = some { history with list := lasts } := by
  have same : (history.grown || decide (32 < lasts.length)) = history.grown :=
    sized.grown_same (by rw [split, List.length_append]; omega)
  have nonempty : history.list ≠ [] := by
    rw [split]
    exact List.append_ne_nil_of_right_ne_nil _ (List.cons_ne_nil _ _)
  rw [BitHistory.apply, applyBit, if_neg nonempty, Option.map_some, split, List.dropLast_concat, same]
  rfl

theorem pop_tracks {lasts : List Bool} (tracks : Tracks vector history) (split : history.list = lasts ++ [x]) :
    ∃ next, vector.popBack = .ok next ∧ Tracks next { history with list := lasts } := by
  have applied := apply_popBack tracks split
  obtain ⟨next, done⟩ := perform_ok_of_apply tracks applied (fun _ _ impossible => by cases impossible)
  obtain ⟨after, known, tracked⟩ := tracks_step tracks done
  cases applied.symm.trans known
  exact ⟨next, done, tracked⟩

theorem pop_clean {lasts : List Bool} (represents : Represents vector history)
    (split : history.list = lasts ++ [x]) :
    ∃ next, vector.popBack = .ok next ∧ Represents next { history with list := lasts } :=
  step_clean represents (apply_popBack represents.tracks split)
    ⟨fun _ impossible => (by cases impossible), fun _ _ impossible => (by cases impossible)⟩

theorem shownBits_represents (represents : Represents vector history) : shownBits vector = history.list := by
  refine List.ext_getElem (by simp [shownBits, represents.bits]) fun index inside bound => ?_
  simp [shownBits, represents.agrees index bound]

end Steps

section Trees

theorem dumpNodes_cons {fresh : Nat → BitVec 8} {node : Node} {rest : List Node} {vector next middle back after : BitVector}
    {shown others : List UInt8} (grew : vector.pushBack rest.isEmpty fresh = .ok next)
    (done : dumpImpl fresh node next = .ok (middle, shown)) (popped : middle.popBack = .ok back)
    (finished : dumpNodes fresh rest back = .ok (after, others)) :
    dumpNodes fresh (node :: rest) vector = .ok (after, shown ++ others) := by
  rw [dumpNodes, grew, Except.mapError, ok_bind, done, ok_bind]
  dsimp only
  rw [popped, Except.mapError, ok_bind, finished, ok_bind]
  rfl

mutual

/-- Whatever the bits are, a node is drawn behind them and they are popped again. -/
theorem dumpImpl_total (fresh : Nat → BitVec 8) (node : Node) {vector : BitVector} {history : BitHistory} (tracks : Tracks vector history)
    (small : history.list.length + height node < 4294967296) :
    ∃ after later below, dumpImpl fresh node vector =
        .ok (after, drawLine (shownBits vector) node.name ++ below) ∧
      Tracks after later ∧ later.list = history.list := by
  cases node with
  | file name parent contents =>
      refine ⟨vector, history, [], ?_, tracks, rfl⟩
      rw [dumpImpl, dumpLine_eq tracks.sized, ok_bind, List.append_nil]
      rfl
  | directory name parent nodes =>
      obtain ⟨after, later, below, done, tracked, same⟩ := dumpNodes_total fresh nodes tracks small
      refine ⟨after, later, below, ?_, tracked, same⟩
      rw [dumpImpl, dumpLine_eq tracks.sized, ok_bind, done, ok_bind]
      rfl

theorem dumpNodes_total (fresh : Nat → BitVec 8) (nodes : List Node) {vector : BitVector} {history : BitHistory}
    (tracks : Tracks vector history) (small : history.list.length + heights nodes < 4294967296) :
    ∃ after later below, dumpNodes fresh nodes vector = .ok (after, below) ∧
      Tracks after later ∧ later.list = history.list := by
  cases nodes with
  | nil => exact ⟨vector, history, [], rfl, tracks, rfl⟩
  | cons node rest =>
      rw [heights] at small
      obtain ⟨next, grew, longer⟩ := push_tracks fresh rest.isEmpty tracks (by omega)
      have length : (pushed history rest.isEmpty).list.length = history.list.length + 1 := List.length_append
      obtain ⟨middle, later, below, done, tracked, same⟩ := dumpImpl_total fresh node longer (by omega)
      obtain ⟨back, popped, shorter⟩ := pop_tracks tracked same
      obtain ⟨after, last, others, finished, tracked, kept⟩ := dumpNodes_total fresh rest shorter
        (show history.list.length + heights rest < 4294967296 by omega)
      exact ⟨after, last, _, dumpNodes_cons grew done popped finished, tracked, kept⟩

end

def Diverges (actual expected : List UInt8) : Prop :=
  ∃ common left right, actual = common ++ 96 :: left ∧ expected = common ++ 124 :: right

theorem Diverges.behind {actual expected : List UInt8} (front : List UInt8) (diverges : Diverges actual expected) :
    Diverges (front ++ actual) (front ++ expected) := by
  obtain ⟨common, left, right, rfl, rfl⟩ := diverges
  exact ⟨front ++ common, left, right, by rw [List.append_assoc], by rw [List.append_assoc]⟩

theorem Diverges.before {actual expected : List UInt8} (diverges : Diverges actual expected)
    (others meant : List UInt8) : Diverges (actual ++ others) (expected ++ meant) := by
  obtain ⟨common, left, right, rfl, rfl⟩ := diverges
  exact ⟨common, left ++ others, right ++ meant, by simp, by simp⟩

theorem Diverges.ne {actual expected : List UInt8} (diverges : Diverges actual expected) : actual ≠ expected := by
  obtain ⟨common, left, right, rfl, rfl⟩ := diverges
  intro same
  have heads := (List.cons.inj (List.append_cancel_left same)).1
  exact absurd heads (by decide)

theorem connector_diverges (lasts : List Bool) (name : Text) (below : List UInt8) (node : Node)
    (same : node.name = name) : Diverges (drawLine (lasts ++ [true]) name ++ below) (drawing (lasts ++ [false]) node) := by
  have line : Diverges (drawLine (lasts ++ [true]) name) (drawLine (lasts ++ [false]) name) := by
    refine ⟨lasts.flatMap fun last => if last then passedLast else passedOther,
      45 :: 45 :: (name.takeWhile (· != 0) ++ [10]), 45 :: 45 :: (name.takeWhile (· != 0) ++ [10]), ?_, ?_⟩
    · simp [drawLine, connector, lastNode]
    · simp [drawLine, connector, otherNode]
  cases node with
  | file _ parent contents =>
      obtain rfl : _ = name := same
      have longer := line.before below []
      rw [List.append_nil] at longer
      exact longer
  | directory _ parent nodes =>
      obtain rfl : _ = name := same
      exact line.before below _

def Draws (result : Except DumpFault (BitVector × List UInt8)) (expected : List UInt8) (lasts : List Bool)
    (front : List (Nat × Bool)) : Prop :=
  ∃ after history, result = .ok (after, expected) ∧ Represents after history ∧ history.list = lasts ∧
    Follows history front

def Strays (result : Except DumpFault (BitVector × List UInt8)) (expected : List UInt8) (lasts : List Bool) : Prop :=
  ∃ after history actual, result = .ok (after, actual) ∧ Diverges actual expected ∧ Tracks after history ∧
    history.list = lasts

mutual

theorem dumpImpl_draws (fresh : Nat → BitVec 8) (node : Node) {vector : BitVector} {history : BitHistory} {front : List (Nat × Bool)}
    (represents : Represents vector history) (follows : Follows history front)
    (small : history.list.length + height node < 4294967296) :
    (CleanFrom front (marks history.list.length node) → Draws (dumpImpl fresh node vector)
      (drawing history.list node) history.list (front ++ marks history.list.length node)) ∧
    (¬CleanFrom front (marks history.list.length node) →
      Strays (dumpImpl fresh node vector) (drawing history.list node) history.list) := by
  cases node with
  | file name parent contents =>
      refine ⟨fun _ => ⟨vector, history, ?_, represents, rfl, ?_⟩, fun unclean => absurd trivial unclean⟩
      · rw [dumpImpl, dumpLine_eq represents.sized, ok_bind, shownBits_represents represents]
        rfl
      · rw [marks, List.append_nil]
        exact follows
  | directory name parent nodes =>
      have runs {after : BitVector} {below : List UInt8} (done : dumpNodes fresh nodes vector = .ok (after, below)) :
          dumpImpl fresh (.directory name parent nodes) vector =
            .ok (after, drawLine history.list name ++ below) := by
        rw [dumpImpl, dumpLine_eq represents.sized, ok_bind, done, ok_bind, shownBits_represents represents]
        rfl
      obtain ⟨clean, stray⟩ := dumpNodes_draws fresh nodes represents follows small
      constructor
      · intro all
        obtain ⟨after, later, done, still, same, onwards⟩ := clean all
        exact ⟨after, later, runs done, still, same, onwards⟩
      · intro unclean
        obtain ⟨after, later, actual, done, diverges, tracked, same⟩ := stray unclean
        exact ⟨after, later, _, runs done, diverges.behind _, tracked, same⟩

theorem dumpNodes_draws (fresh : Nat → BitVec 8) (nodes : List Node) {vector : BitVector} {history : BitHistory}
    {front : List (Nat × Bool)} (represents : Represents vector history) (follows : Follows history front)
    (small : history.list.length + heights nodes < 4294967296) :
    (CleanFrom front (marksOf history.list.length nodes) → Draws (dumpNodes fresh nodes vector)
      (drawings history.list nodes) history.list (front ++ marksOf history.list.length nodes)) ∧
    (¬CleanFrom front (marksOf history.list.length nodes) →
      Strays (dumpNodes fresh nodes vector) (drawings history.list nodes) history.list) := by
  cases nodes with
  | nil =>
      refine ⟨fun _ => ⟨vector, history, rfl, represents, rfl, ?_⟩, fun unclean => absurd trivial unclean⟩
      rw [marksOf, List.append_nil]
      exact follows
  | cons node rest =>
      rw [heights] at small
      rw [marksOf, CleanFrom, cleanFrom_append, drawings]
      have length : (pushed history rest.isEmpty).list.length = history.list.length + 1 := List.length_append
      by_cases first : CleanMark front (history.list.length, rest.isEmpty)
      · obtain ⟨next, grew, longer⟩ := push_clean fresh represents follows (by omega) first
        obtain ⟨clean, stray⟩ := dumpImpl_draws fresh node longer (follows.pushed rest.isEmpty) (by omega)
        rw [length] at clean stray
        by_cases child : CleanFrom (front ++ [(history.list.length, rest.isEmpty)])
            (marks (history.list.length + 1) node)
        · obtain ⟨middle, later, done, still, same, onwards⟩ := clean child
          obtain ⟨back, popped, shorter⟩ := pop_clean still same
          obtain ⟨cleanRest, strayRest⟩ := dumpNodes_draws fresh rest shorter ⟨onwards.raised, onwards.grown⟩
            (show history.list.length + heights rest < 4294967296 by omega)
          constructor
          · rintro ⟨_, _, last⟩
            obtain ⟨after, final, finished, represented, kept, ended⟩ := cleanRest last
            refine ⟨after, final, dumpNodes_cons grew done popped finished, represented, kept, ?_⟩
            rw [List.append_cons, ← List.append_assoc]
            exact ended
          · intro unclean
            obtain ⟨after, final, actual, finished, diverges, tracked, kept⟩ :=
              strayRest fun last => unclean ⟨first, child, last⟩
            exact ⟨after, final, _, dumpNodes_cons grew done popped finished, diverges.behind _, tracked, kept⟩
        · obtain ⟨middle, later, actual, done, diverges, tracked, same⟩ := stray child
          obtain ⟨back, popped, shorter⟩ := pop_tracks tracked same
          obtain ⟨after, final, others, finished, tracked, kept⟩ := dumpNodes_total fresh rest shorter
            (show history.list.length + heights rest < 4294967296 by omega)
          refine ⟨fun all => absurd all.2.1 child, fun _ => ⟨after, final, _,
            dumpNodes_cons grew done popped finished, diverges.before _ _, tracked, kept⟩⟩
      · obtain ⟨notLast, next, grew, longer, shown⟩ := push_dirty fresh represents follows (by omega) first
        obtain ⟨middle, later, below, done, tracked, same⟩ := dumpImpl_total fresh node longer (by omega)
        obtain ⟨back, popped, shorter⟩ := pop_tracks tracked same
        obtain ⟨after, final, others, finished, tracked, kept⟩ := dumpNodes_total fresh rest shorter
          (show history.list.length + heights rest < 4294967296 by omega)
        refine ⟨fun all => absurd all.1 first, fun _ => ⟨after, final, _,
          dumpNodes_cons grew done popped finished, ?_, tracked, kept⟩⟩
        rw [shown, notLast]
        exact (connector_diverges history.list node.name below node rfl).before _ _

end

end Trees

/-- `Dump` draws the tree with the right branches exactly if no node that is not the last of its directory
comes, at its depth, behind one that is, unless a node more than 32 levels deep comes before it; it always
prints something. -/
theorem dump_draws_iff (fresh : Nat → BitVec 8) (tree : Node) (small : height tree < 4294967296) :
    (∃ shown, dump fresh tree = .ok shown) ∧
    (dump fresh tree = .ok (drawing [] tree) ↔ ∀ before mark behind,
      marks 0 tree = before ++ mark :: behind → CleanMark before mark) := by
  have follows : Follows .empty [] := ⟨by simp [BitHistory.empty], by simp [BitHistory.empty]⟩
  obtain ⟨clean, stray⟩ := dumpImpl_draws fresh tree represents_empty follows
    (show 0 + height tree < 4294967296 by omega)
  have condition := cleanFrom_iff [] (marks 0 tree)
  simp only [List.nil_append] at condition
  rw [← condition]
  by_cases tidy : CleanFrom [] (marks 0 tree)
  · obtain ⟨after, history, done, _⟩ := clean tidy
    have dumped : dump fresh tree = .ok (drawing [] tree) := by
      rw [dump, done]
      rfl
    exact ⟨⟨_, dumped⟩, fun _ => tidy, fun _ => dumped⟩
  · obtain ⟨after, history, actual, done, diverges, _⟩ := stray tidy
    have dumped : dump fresh tree = .ok actual := by
      rw [dump, done]
      rfl
    refine ⟨⟨_, dumped⟩, fun drawn => ?_, fun isTidy => absurd isTidy tidy⟩
    cases dumped.symm.trans drawn
    exact absurd rfl diverges.ne

/-- "a" with "b" in it, then "c" with "d" and "e": behind "b", "d" is drawn as a last one too. -/
theorem dump_draws_iff_second : ¬dump (fun _ => 0) (.directory [47] none [.directory [97] none [.file [98] none []],
    .directory [99] none [.file [100] none [], .file [101] none []]]) =
      .ok (drawing [] (.directory [47] none [.directory [97] none [.file [98] none []],
        .directory [99] none [.file [100] none [], .file [101] none []]])) := by
  intro drawn
  have clean := (dump_draws_iff (fun _ => 0) _ (by decide)).2.mp drawn [(0, false), (1, true), (0, true)] (1, false)
    [(1, true)] rfl rfl (by decide)
  exact absurd clean (by decide)

end ToyKernel.Vfs
