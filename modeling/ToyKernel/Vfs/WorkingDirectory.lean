import ToyKernel.Libc.Strings
import ToyKernel.Vfs.Invariants
import ToyKernel.Vfs.Lookup

/-!
`getcwd` of `libc/getcwd.cpp`. It copies the name that the directory stores, which is the last
component of its path alone.
-/

namespace ToyKernel.Vfs

open Library Libc

/-- The name is the string of the working directory. -/
def getcwd (memory : Memory) (name buf size : Nat) : Except StringFault (Memory × Nat) :=
  strncpy memory buf name size

def pathBelow : Node → Cursor → Text
  | _, [] => []
  | node, position :: rest =>
      match node.nodes[position]? with
      | none => []
      | some child => kPathSeparator :: (child.name ++ pathBelow child rest)

def absolutePath (tree : Node) (dir : Cursor) : Text :=
  if dir = [] then [kPathSeparator] else pathBelow tree dir

def HoldsPath (tree : Node) (dir : Cursor) (memory : Memory) (buf size : Nat) : Prop :=
  ∃ path, TextAt memory buf path ∧ path.length < size ∧ getDir tree [] path = .ok (some dir)

section Names

variable {tree after node : Node} {dir : Cursor} {header : Header} {op : Op}

theorem name_shorter (found : tree.at? dir = some node) (below : dir ≠ []) :
    node.name.length < (pathBelow tree dir).length := by
  induction dir generalizing tree with
  | nil => exact absurd rfl below
  | cons position rest ih =>
      rw [at?_cons] at found
      obtain ⟨child, here, onward⟩ := Option.bind_eq_some_iff.mp found
      rw [pathBelow, here]
      dsimp only
      rw [List.length_cons, List.length_append]
      cases rest with
      | nil =>
          cases onward
          omega
      | cons next rest =>
          have shorter := ih onward (List.cons_ne_nil _ _)
          omega

theorem perform_root (rooted : Rooted tree) (root : headerAt tree [] = some ⟨[kPathSeparator], none, none⟩)
    (isDir : IsDirectoryAt tree op.dir) (done : perform tree op = .ok after) :
    headerAt after [] = some ⟨[kPathSeparator], none, none⟩ := by
  rcases perform_ok rooted isDir done with ⟨dir, path, current, rfl, walked⟩ |
    ⟨dir, path, data, middle, current, made, file, rfl, _, walked, added, written⟩
  · exact createAll_extends walked _ _ root
  · have kept := added.keeps (createAll_extends walked _ _ root)
    rw [written.others [] ?_, kept]
    rintro rfl
    obtain ⟨_, _, isFile, _⟩ := written.isFile
    cases kept.symm.trans isFile

theorem reachable_root (reachable : calls.Reachable tree) :
    headerAt tree [] = some ⟨[kPathSeparator], none, none⟩ := by
  have both : Rooted tree ∧ headerAt tree [] = some ⟨[kPathSeparator], none, none⟩ := by
    apply reachable.invariant fun tree => Rooted tree ∧ headerAt tree [] = some ⟨[kPathSeparator], none, none⟩
    · rintro _ rfl
      exact ⟨rootDirectory_rooted, rootDirectory_headers []⟩
    · rintro tree op after ⟨rooted, root⟩ ⟨isDir, done⟩
      exact ⟨perform_rooted rooted isDir done, perform_root rooted root isDir done⟩
  exact both.2

theorem header_shorter (reachable : calls.Reachable tree) (found : headerAt tree dir = some header) :
    header.name.length ≤ (absolutePath tree dir).length := by
  rw [absolutePath]
  split
  · rename_i isRoot
    rw [isRoot, reachable_root reachable] at found
    cases found
    exact Nat.le_refl _
  · rename_i below
    obtain ⟨node, here, rfl⟩ := headerAt_some_at found
    have shorter := name_shorter here below
    cases node with
    | file name parent contents => exact shorter.le
    | directory name parent nodes => exact shorter.le

end Names

section Lookup

variable {tree : Node} {cwd : Cursor} {header : Header}

def FirstInRoot (tree : Node) (cwd : Cursor) (name : Text) : Prop :=
  ∃ position, cwd = [position] ∧ simplified name ≠ [] ∧ simplified name ≠ [kDot] ∧
    ∀ earlier < position, ∀ other, headerAt tree [earlier] = some other → simplified other.name ≠ simplified name

theorem getDir_root (reachable : calls.Reachable tree) : getDir tree [] [kPathSeparator] = .ok (some []) := by
  have isDir : IsDirectoryAt tree [] := ⟨_, reachable_root reachable, rfl⟩
  have moves : lookupMoves [kPathSeparator] = [.root] := by decide
  rw [getDir, getNode_eq (reachable_rooted reachable) isDir, moves, ok_bind, follow, follow, Option.bind_some,
    dynCastDirectory_eq isDir]
  rfl

theorem getDir_name_iff (reachable : calls.Reachable tree) (found : headerAt tree cwd = some header)
    (isDir : header.contents = none) (below : cwd ≠ []) :
    getDir tree [] header.name = .ok (some cwd) ↔ FirstInRoot tree cwd header.name := by
  have rootDir : IsDirectoryAt tree [] := ⟨_, reachable_root reachable, rfl⟩
  have cwdDir : IsDirectoryAt tree cwd := ⟨header, found, isDir⟩
  have plain : kPathSeparator ∉ header.name := by
    obtain ⟨dir, position, rfl⟩ := (List.eq_nil_or_concat' cwd).resolve_left below
    exact reachable_plainNames reachable dir position header found
  rw [getDir, getNode_eq (reachable_rooted reachable) rootDir, ok_bind, lookupMoves_plain plain,
    ← simplified_plain plain]
  by_cases nameless : simplified header.name = []
  · rw [if_pos nameless]
    constructor
    · intro failed
      cases failed
    · rintro ⟨_, _, named, _⟩
      exact absurd nameless named
  · by_cases dot : simplified header.name = [kDot]
    · rw [if_neg nameless, if_pos dot, follow, Option.bind_some, dynCastDirectory_eq rootDir]
      constructor
      · intro same
        cases same
        exact absurd rfl below
      · rintro ⟨_, _, _, notDot, _⟩
        exact absurd dot notDot
    · rw [if_neg nameless, if_neg dot, follow_single]
      have cast : (pure ((childAt tree [] (simplified header.name)).bind (dynCastDirectory tree)) :
          Except Fault (Option Cursor)) = .ok (some cwd) ↔ childAt tree [] (simplified header.name) = some cwd := by
        rw [pure_eq_ok]
        constructor
        · intro both
          obtain ⟨child, here, isDirectory⟩ := Option.bind_eq_some_iff.mp both
          rw [here, (dynCastDirectory_eq_some isDirectory).1]
        · intro here
          rw [here, Option.bind_some, dynCastDirectory_eq cwdDir]
      rw [cast, childAt_eq_some]
      constructor
      · rintro ⟨position, rfl, _, first⟩
        refine ⟨position, rfl, nameless, dot, fun earlier before other here same => ?_⟩
        exact first earlier before ⟨other, here, same⟩
      · rintro ⟨position, rfl, _, _, first⟩
        refine ⟨position, rfl, ⟨header, found, rfl⟩, ?_⟩
        rintro earlier before ⟨other, here, same⟩
        exact first earlier before other here same

end Lookup

section Copies

variable {memory after : Memory} {address buf size : Nat} {text other : Text}

theorem textAt_unique (first : TextAt memory address text) (second : TextAt memory address other) : text = other := by
  have lengths : text.length = other.length := Except.ok.inj ((strlen_eq first).symm.trans (strlen_eq second))
  refine List.ext_getElem lengths fun index inside otherInside => ?_
  rw [← first.chars index inside, second.chars index otherInside]

theorem filled_textAt (filled : Filled memory after buf size text) (visible : 0 ∉ text) (room : text.length < size)
    (bound : buf + size ≤ 4294967296) : TextAt after buf text where
  chars := by
    intro index inside
    rw [filled.inside index (by omega), List.getD_eq_getElem _ _ inside]
  ended := by
    rw [filled.inside _ room, List.getD_eq_default _ _ (Nat.le_refl _)]
  visible := visible
  bounded := by omega

/-- The string of one character at address 8. -/
theorem textAt_char (c : UInt8) (visible : c ≠ 0) : TextAt (store (fun _ => 0) 8 c) 8 [c] where
  chars := by
    intro index inside
    obtain rfl : index = 0 := Nat.lt_one_iff.mp inside
    rfl
  ended := rfl
  visible := by
    rw [List.mem_singleton]
    exact visible.symm
  bounded := by
    rw [List.length_singleton]
    decide

end Copies

/-- The buffer holds a path to the working directory exactly if that is the root, or the first of its
name in the root. -/
theorem getcwd_resolves_iff {tree : Node} {cwd : Cursor} {header : Header} {memory : Memory} {name buf size : Nat}
    (reachable : calls.Reachable tree) (found : headerAt tree cwd = some header) (isDir : header.contents = none)
    (stored : TextAt memory name header.name)
    (apart : buf + size ≤ name ∨ name + header.name.length + 1 ≤ buf) (bound : buf + size ≤ 4294967296)
    (room : (absolutePath tree cwd).length < size) :
    (∃ after ret, getcwd memory name buf size = .ok (after, ret) ∧ HoldsPath tree cwd after buf size) ↔
      cwd = [] ∨ FirstInRoot tree cwd header.name := by
  have short := (header_shorter reachable found).trans_lt room
  obtain ⟨after, copied, filled⟩ := strncpy_fills stored apart
  have text := filled_textAt filled stored.visible short bound
  have holds : (∃ after ret, getcwd memory name buf size = .ok (after, ret) ∧ HoldsPath tree cwd after buf size) ↔
      getDir tree [] header.name = .ok (some cwd) := by
    constructor
    · rintro ⟨_, _, done, path, held, _, leads⟩
      cases copied.symm.trans done
      rwa [textAt_unique text held]
    · intro leads
      exact ⟨after, _, copied, header.name, text, short, leads⟩
  rw [holds]
  by_cases isRoot : cwd = []
  · subst isRoot
    cases (reachable_root reachable).symm.trans found
    exact ⟨fun _ => .inl rfl, fun _ => getDir_root reachable⟩
  · rw [getDir_name_iff reachable found isDir isRoot, or_iff_right isRoot]

/-- "b" in the directory "a" of the root. -/
theorem getcwd_below_root : ∃ tree memory after ret, calls.Reachable tree ∧ IsDirectoryAt tree [0, 0] ∧
    absolutePath tree [0, 0] = [47, 97, 47, 98] ∧ TextAt memory 8 [98] ∧
    getcwd memory 8 16 16 = .ok (after, ret) ∧ TextAt after 16 [98] ∧ getDir tree [] [98] = .ok none := by
  have step : calls.step rootDirectory (.mkdir [] [97, 47, 98])
      (.directory [47] none [.directory [97] (some []) [.directory [98] (some [0]) []]]) := ⟨⟨_, rfl, rfl⟩, rfl⟩
  have stored := textAt_char 98 (by decide)
  obtain ⟨after, copied, filled⟩ := strncpy_fills stored (.inr (by decide) : 16 + 16 ≤ 8 ∨ 8 + 1 + 1 ≤ 16)
  exact ⟨_, _, after, _, .next (.start rfl) step, ⟨_, rfl, rfl⟩, rfl, stored, copied,
    filled_textAt filled (by decide) (by decide) (by decide), rfl⟩

/-- The directory "a" of the root. -/
theorem getcwd_resolves_iff_child : ∃ after ret, getcwd (store (fun _ => 0) 8 97) 8 16 16 = .ok (after, ret) ∧
    HoldsPath (.directory [47] none [.directory [97] (some []) []]) [0] after 16 16 := by
  have step : calls.step rootDirectory (.mkdir [] [97]) (.directory [47] none [.directory [97] (some []) []]) :=
    ⟨⟨_, rfl, rfl⟩, rfl⟩
  have stored := textAt_char 97 (by decide)
  have found : headerAt (.directory [47] none [.directory [97] (some []) []]) [0] = some ⟨[97], some [], none⟩ := rfl
  refine (getcwd_resolves_iff (.next (.start rfl) step) found rfl stored (.inr (by decide)) (by decide)
    (by decide)).mpr (.inr ⟨0, rfl, by decide, by decide, ?_⟩)
  intro earlier impossible
  exact absurd impossible (Nat.not_lt_zero _)

end ToyKernel.Vfs
