import ToyKernel.Vfs.Model
import ToyKernel.Vfs.Paths

/-!
What the operations read and change of a tree. A tree is described by the headers of its
nodes; adding a node defines one new header and keeps all others.
-/

namespace ToyKernel.Vfs

open Library

structure Header where
  name : Text
  parent : Option Cursor
  contents : Option (List UInt8)
deriving DecidableEq, Repr

def Node.header : Node → Header
  | .file name parent contents => { name, parent, contents := some contents }
  | .directory name parent _ => { name, parent, contents := none }

def headerAt (tree : Node) (cursor : Cursor) : Option Header := (tree.at? cursor).map Node.header

def IsDirectoryAt (tree : Node) (cursor : Cursor) : Prop :=
  ∃ header, headerAt tree cursor = some header ∧ header.contents = none

def IsFileAt (tree : Node) (cursor : Cursor) : Prop :=
  ∃ header contents, headerAt tree cursor = some header ∧ header.contents = some contents

section At

@[simp] theorem at?_nil (tree : Node) : tree.at? [] = some tree := rfl

theorem at?_cons (tree : Node) (position : Nat) (rest : Cursor) :
    tree.at? (position :: rest) = tree.nodes[position]?.bind (·.at? rest) := by
  rw [Node.at?]
  cases tree.nodes[position]? <;> rfl

theorem at?_append (tree : Node) (front back : Cursor) :
    tree.at? (front ++ back) = (tree.at? front).bind (·.at? back) := by
  induction front generalizing tree with
  | nil => rfl
  | cons position rest ih =>
      rw [List.cons_append, at?_cons, at?_cons]
      cases tree.nodes[position]? with
      | none => rfl
      | some child => exact ih child

theorem at?_concat (tree : Node) (dir : Cursor) (position : Nat) :
    tree.at? (dir ++ [position]) = (tree.at? dir).bind (·.nodes[position]?) := by
  rw [at?_append]
  cases tree.at? dir with
  | none => rfl
  | some node =>
      rw [Option.bind_some, Option.bind_some, at?_cons]
      cases node.nodes[position]? <;> rfl

theorem headerAt_concat {tree node : Node} {dir : Cursor} (found : tree.at? dir = some node)
    (position : Nat) : headerAt tree (dir ++ [position]) = node.nodes[position]?.map Node.header := by
  rw [headerAt, at?_concat, found, Option.bind_some]

theorem isDirectoryAt_iff {tree : Node} {dir : Cursor} : IsDirectoryAt tree dir ↔
    ∃ name parent nodes, tree.at? dir = some (.directory name parent nodes) := by
  unfold IsDirectoryAt headerAt
  constructor
  · rintro ⟨header, found, noContents⟩
    cases here : tree.at? dir with
    | none => simp [here] at found
    | some node =>
        cases node with
        | file name parent contents =>
            simp only [here, Option.map_some, Option.some.injEq, Node.header] at found
            rw [← found] at noContents
            cases noContents
        | directory name parent nodes => exact ⟨name, parent, nodes, rfl⟩
  · rintro ⟨name, parent, nodes, found⟩
    exact ⟨_, by rw [found]; rfl, rfl⟩

theorem isFileAt_iff {tree : Node} {cursor : Cursor} : IsFileAt tree cursor ↔
    ∃ name parent contents, tree.at? cursor = some (.file name parent contents) := by
  unfold IsFileAt headerAt
  constructor
  · rintro ⟨header, contents, found, has⟩
    cases here : tree.at? cursor with
    | none => simp [here] at found
    | some node =>
        cases node with
        | file name parent contents => exact ⟨name, parent, contents, rfl⟩
        | directory name parent nodes =>
            simp only [here, Option.map_some, Option.some.injEq, Node.header] at found
            rw [← found] at has
            cases has
  · rintro ⟨name, parent, contents, found⟩
    exact ⟨_, contents, by rw [found]; rfl, rfl⟩

theorem headerAt_below {tree : Node} {dir : Cursor} {position : Nat} {header : Header}
    (found : headerAt tree (dir ++ [position]) = some header) : IsDirectoryAt tree dir := by
  cases here : tree.at? dir with
  | none =>
      rw [headerAt, at?_concat, here] at found
      cases found
  | some node =>
      rw [headerAt_concat here] at found
      cases node with
      | file name parent contents => simp [Node.nodes] at found
      | directory name parent nodes => exact isDirectoryAt_iff.mpr ⟨name, parent, nodes, here⟩

end At

section Push

@[simp] theorem header_pushBack (child node : Node) : (Node.pushBack child node).header = node.header := by
  cases node <;> rfl

theorem header_updateAt (change : Node → Node) (position : Nat) (rest : Cursor) (node : Node) :
    (node.updateAt change (position :: rest)).header = node.header := by
  cases node <;> rfl

theorem nodes_updateAt (change : Node → Node) (position : Nat) (rest : Cursor) (node : Node) :
    (node.updateAt change (position :: rest)).nodes = node.nodes.modify position (Node.updateAt change rest) := by
  cases node with
  | file name parent contents => simp [Node.updateAt, Node.nodes]
  | directory name parent nodes => rfl

theorem headerAt_updateAt {tree node : Node} {target : Cursor} (change : Node → Node)
    (found : tree.at? target = some node) (query : Cursor) :
    headerAt (tree.updateAt change target) query =
      if target <+: query then headerAt (change node) (query.drop target.length)
      else headerAt tree query := by
  induction target generalizing tree query with
  | nil =>
      simp only [at?_nil, Option.some.injEq] at found
      rw [found, if_pos (List.nil_prefix), List.length_nil, List.drop_zero]
      rfl
  | cons position rest ih =>
      rw [at?_cons] at found
      obtain ⟨child, inside, below⟩ := Option.bind_eq_some_iff.mp found
      cases query with
      | nil =>
          rw [if_neg (by simp), headerAt, headerAt, at?_nil, at?_nil, Option.map_some, Option.map_some,
            header_updateAt]
      | cons first query =>
          rw [headerAt, at?_cons, nodes_updateAt, List.getElem?_modify, headerAt, headerAt]
          by_cases same : position = first
          · subst same
            have deeper := ih below query
            simp only [headerAt] at deeper
            simp only [if_true, inside, Option.map_eq_map, Option.map_some, Option.bind_some,
              List.prefix_cons_inj, List.length_cons, List.drop_succ_cons, at?_cons, deeper]
          · have apart : ¬position :: rest <+: first :: query :=
              fun front => same (List.cons_prefix_cons.mp front).1
            simp only [same, if_false, if_neg apart, Option.map_eq_map, Option.map_id', at?_cons]

theorem headerAt_push {tree : Node} {dir : Cursor} {name : Text} {parent : Option Cursor}
    {nodes : List Node} (found : tree.at? dir = some (.directory name parent nodes)) {child : Node}
    (leaf : child.nodes = []) (query : Cursor) :
    headerAt (tree.updateAt (Node.pushBack child) dir) query =
      if query = dir ++ [nodes.length] then some child.header else headerAt tree query := by
  rw [headerAt_updateAt _ found]
  split
  · rename_i front
    obtain ⟨rest, rfl⟩ := front
    rw [List.drop_left]
    simp only [List.append_right_inj]
    cases rest with
    | nil => rw [if_neg (by simp), List.append_nil, headerAt, headerAt, found]; rfl
    | cons position rest =>
        have before : headerAt tree (dir ++ position :: rest) =
            (nodes[position]?.bind (·.at? rest)).map Node.header := by
          rw [headerAt, at?_append, found, Option.bind_some, at?_cons]
          rfl
        rw [before, headerAt, at?_cons, Node.pushBack, Node.nodes]
        rcases Nat.lt_trichotomy position nodes.length with inside | same | outside
        · rw [List.getElem?_append_left inside, if_neg]
          intro whole
          simp only [List.cons.injEq] at whole
          omega
        · subst same
          rw [List.getElem?_concat_length, Option.bind_some, List.getElem?_eq_none (Nat.le_refl _)]
          cases rest with
          | nil => rw [if_pos rfl]; rfl
          | cons further rest => rw [if_neg (by simp), at?_cons, leaf]; rfl
        · rw [List.getElem?_eq_none (by simp; omega), List.getElem?_eq_none (by omega), if_neg]
          intro whole
          simp only [List.cons.injEq] at whole
          omega
  · rename_i apart
    rw [if_neg]
    intro new
    exact apart ⟨[nodes.length], new.symm⟩

theorem headerAt_write {tree : Node} {file : Cursor} {name : Text} {parent : Option Cursor}
    {contents : List UInt8} (found : tree.at? file = some (.file name parent contents))
    (data : List UInt8) (query : Cursor) :
    headerAt (tree.updateAt (Node.write data) file) query =
      if query = file then some ⟨name, parent, some (data ++ contents.drop data.length)⟩
      else headerAt tree query := by
  rw [headerAt_updateAt _ found]
  split
  · rename_i front
    obtain ⟨rest, rfl⟩ := front
    rw [List.drop_left]
    cases rest with
    | nil => rw [List.append_nil, if_pos rfl]; rfl
    | cons position rest =>
        rw [if_neg (by simp), headerAt, headerAt, at?_append, found, Option.bind_some, at?_cons, at?_cons]
        rfl
  · rename_i apart
    rw [if_neg]
    intro same
    exact apart (same ▸ List.prefix_refl _)

end Push

section Children

def Named (tree : Node) (dir : Cursor) (key : Text) (position : Nat) : Prop :=
  ∃ header, headerAt tree (dir ++ [position]) = some header ∧ simplified header.name = key

def childAt (tree : Node) (dir : Cursor) (key : Text) : Option Cursor :=
  (tree.at? dir).bind fun node =>
    (node.nodes.findIdx? fun child => decide (key = simplified child.name)).map fun position =>
      dir ++ [position]

theorem findNode_eq (key : Text) (nodes : List Node) :
    findNode key nodes = .ok (nodes.findIdx? fun child => decide (key = simplified child.name)) := by
  induction nodes with
  | nil => rfl
  | cons node rest ih =>
      rw [findNode, simplifyName_eq, ok_bind, List.findIdx?_cons]
      by_cases same : key = simplified node.name
      · rw [if_pos same, if_pos (decide_eq_true same)]
        rfl
      · rw [if_neg same, ih, ok_bind, if_neg (by simpa using same)]
        rfl

theorem named_iff {tree node : Node} {dir : Cursor} (found : tree.at? dir = some node) (key : Text)
    (position : Nat) : Named tree dir key position ↔
      ∃ child, node.nodes[position]? = some child ∧ simplified child.name = key := by
  unfold Named
  rw [headerAt_concat found]
  cases node.nodes[position]? with
  | none => simp
  | some child =>
      have sameName : child.header.name = child.name := by cases child <;> rfl
      simp [sameName]

theorem childAt_eq_some {tree : Node} {dir cursor : Cursor} {key : Text} :
    childAt tree dir key = some cursor ↔ ∃ position, cursor = dir ++ [position] ∧
      Named tree dir key position ∧ ∀ earlier < position, ¬Named tree dir key earlier := by
  unfold childAt
  cases found : tree.at? dir with
  | none =>
      simp only [Option.bind_none, reduceCtorEq, false_iff, not_exists, not_and]
      rintro position _ ⟨header, below, _⟩
      rw [headerAt, at?_concat, found] at below
      cases below
  | some node =>
      simp only [Option.bind_some, Option.map_eq_some_iff, named_iff found]
      constructor
      · rintro ⟨position, first, rfl⟩
        obtain ⟨bound, here, before⟩ := List.findIdx?_eq_some_iff_getElem.mp first
        refine ⟨position, rfl, ⟨_, List.getElem?_eq_getElem bound, (of_decide_eq_true here).symm⟩, ?_⟩
        rintro earlier below ⟨child, inside, named⟩
        have absent := before earlier below
        rw [List.getElem?_eq_getElem (by omega)] at inside
        simp only [Option.some.injEq] at inside
        rw [inside, named] at absent
        simp at absent
      · rintro ⟨position, rfl, ⟨child, inside, named⟩, before⟩
        refine ⟨position, ?_, rfl⟩
        obtain ⟨bound, same⟩ := List.getElem?_eq_some_iff.mp inside
        refine List.findIdx?_eq_some_iff_getElem.mpr ⟨bound, by simp [same, named], ?_⟩
        intro earlier below
        have absent := before earlier below
        rw [Bool.not_eq_true, decide_eq_false_iff_not]
        intro equal
        exact absent ⟨_, List.getElem?_eq_getElem (by omega), equal.symm⟩

theorem childAt_eq_none {tree : Node} {dir : Cursor} {key : Text} :
    childAt tree dir key = none ↔ ∀ position, ¬Named tree dir key position := by
  constructor
  · intro none position named
    classical
    have exists_ : ∃ position, Named tree dir key position := ⟨position, named⟩
    have first : childAt tree dir key = some (dir ++ [Nat.find exists_]) :=
      childAt_eq_some.mpr ⟨_, rfl, Nat.find_spec exists_, fun _ below => Nat.find_min exists_ below⟩
    rw [none] at first
    cases first
  · intro absent
    cases found : childAt tree dir key with
    | none => rfl
    | some cursor =>
        obtain ⟨position, _, named, _⟩ := childAt_eq_some.mp found
        exact absurd named (absent position)

end Children

end ToyKernel.Vfs
