import Mathlib.Tactic

/-!
Forests of named entries: leaves with a value and branches with a forest of their own.
Entries are inserted along paths, creating the branches that are missing. The listing of
a forest in preorder builds it again, and what a set of insertions builds does not depend
on their order, except for the order of siblings.
-/

namespace ToyKernel.Library

inductive Forest (κ α : Type)
  | nil
  | leaf (key : κ) (value : α) (rest : Forest κ α)
  | branch (key : κ) (entries : Forest κ α) (rest : Forest κ α)
deriving DecidableEq, Repr

namespace Forest

variable {κ α : Type}

def append : Forest κ α → Forest κ α → Forest κ α
  | nil, back => back
  | leaf key value rest, back => leaf key value (rest.append back)
  | branch key entries rest, back => branch key entries (rest.append back)

def keys : Forest κ α → List κ
  | nil => []
  | leaf key _ rest => key :: rest.keys
  | branch key _ rest => key :: rest.keys

def Distinct : Forest κ α → Prop
  | nil => True
  | leaf key _ rest => key ∉ rest.keys ∧ rest.Distinct
  | branch key entries rest => key ∉ rest.keys ∧ entries.Distinct ∧ rest.Distinct

def AllKeys (P : κ → Prop) : Forest κ α → Prop
  | nil => True
  | leaf key _ rest => P key ∧ rest.AllKeys P
  | branch key entries rest => P key ∧ entries.AllKeys P ∧ rest.AllKeys P

def AllValues (P : α → Prop) : Forest κ α → Prop
  | nil => True
  | leaf _ value rest => P value ∧ rest.AllValues P
  | branch _ entries rest => entries.AllValues P ∧ rest.AllValues P

@[simp] theorem append_nil (forest : Forest κ α) : forest.append nil = forest := by
  induction forest with
  | nil => rfl
  | leaf key value rest ih => rw [append, ih]
  | branch key entries rest _ ih => rw [append, ih]

theorem append_assoc (front middle back : Forest κ α) :
    (front.append middle).append back = front.append (middle.append back) := by
  induction front with
  | nil => rfl
  | leaf key value rest ih => rw [append, append, append, ih]
  | branch key entries rest _ ih => rw [append, append, append, ih]

@[simp] theorem keys_append (front back : Forest κ α) :
    (front.append back).keys = front.keys ++ back.keys := by
  induction front with
  | nil => rfl
  | leaf key value rest ih => rw [append, keys, keys, ih, List.cons_append]
  | branch key entries rest _ ih => rw [append, keys, keys, ih, List.cons_append]

theorem allKeys_append {P : κ → Prop} {front back : Forest κ α} (left : front.AllKeys P)
    (right : back.AllKeys P) : (front.append back).AllKeys P := by
  induction front with
  | nil => exact right
  | leaf key value rest ih => exact ⟨left.1, ih left.2⟩
  | branch key entries rest _ ih => exact ⟨left.1, left.2.1, ih left.2.2⟩

theorem Distinct.append_disjoint {front back : Forest κ α} (distinct : (front.append back).Distinct)
    {key : κ} (left : key ∈ front.keys) : key ∉ back.keys := by
  induction front with
  | nil => cases left
  | leaf other value rest ih =>
      obtain ⟨fresh, later⟩ := distinct
      rw [keys_append, List.mem_append, not_or] at fresh
      rcases List.mem_cons.mp left with rfl | inside
      · exact fresh.2
      · exact ih later inside
  | branch other entries rest _ ih =>
      obtain ⟨fresh, _, later⟩ := distinct
      rw [keys_append, List.mem_append, not_or] at fresh
      rcases List.mem_cons.mp left with rfl | inside
      · exact fresh.2
      · exact ih later inside

theorem Distinct.append_right {front back : Forest κ α} (distinct : (front.append back).Distinct) :
    back.Distinct := by
  induction front with
  | nil => exact distinct
  | leaf key value rest ih => exact ih distinct.2
  | branch key entries rest _ ih => exact ih distinct.2.2

theorem distinct_append_leaf {forest : Forest κ α} {key : κ} (value : α) (distinct : forest.Distinct)
    (fresh : key ∉ forest.keys) : (forest.append (leaf key value nil)).Distinct := by
  induction forest with
  | nil => exact ⟨by simp [keys], trivial⟩
  | leaf other held rest ih =>
      rw [keys, List.mem_cons, not_or] at fresh
      refine ⟨?_, ih distinct.2 fresh.2⟩
      simp [keys_append, keys, distinct.1, Ne.symm fresh.1]
  | branch other entries rest _ ih =>
      rw [keys, List.mem_cons, not_or] at fresh
      refine ⟨?_, distinct.2.1, ih distinct.2.2 fresh.2⟩
      simp [keys_append, keys, distinct.1, Ne.symm fresh.1]

section Insertion
variable [DecidableEq κ]

def under (key : κ) (change : Forest κ α → Option (Forest κ α)) : Forest κ α → Option (Forest κ α)
  | nil => (change nil).map fun entries => branch key entries nil
  | leaf other value rest =>
      if other = key then none else (rest.under key change).map (leaf other value)
  | branch other entries rest =>
      if other = key then (change entries).map fun entries => branch other entries rest
      else (rest.under key change).map (branch other entries)

def alter (change : Forest κ α → Option (Forest κ α)) : List κ → Forest κ α → Option (Forest κ α)
  | [] => change
  | key :: path => under key (alter change path)

/-- Something to insert: a branch with its path, or a leaf with the path of its branch. -/
inductive Entry (κ α : Type)
  | branch (path : List κ)
  | leaf (path : List κ) (key : κ) (value : α)
deriving DecidableEq, Repr

def Entry.path : Entry κ α → List κ
  | branch path => path
  | leaf path key _ => path ++ [key]

def Entry.below (key : κ) : Entry κ α → Entry κ α
  | branch path => branch (key :: path)
  | leaf path name value => leaf (key :: path) name value

def Entry.beneath (front : List κ) : Entry κ α → Entry κ α
  | branch path => branch (front ++ path)
  | leaf path name value => leaf (front ++ path) name value

def Entry.insert : Entry κ α → Forest κ α → Option (Forest κ α)
  | branch path, forest => forest.alter some path
  | leaf path key value, forest => forest.alter (fun inner => some (inner.append (Forest.leaf key value nil))) path

def insertAll (forest : Forest κ α) (entries : List (Entry κ α)) : Option (Forest κ α) :=
  entries.foldlM (fun forest entry => entry.insert forest) forest

omit [DecidableEq κ] in
theorem beneath_below (front : List κ) (key : κ) (entry : Entry κ α) :
    (entry.below key).beneath front = entry.beneath (front ++ [key]) := by
  cases entry <;> simp [Entry.below, Entry.beneath]

omit [DecidableEq κ] in
@[simp] theorem beneath_nil (entry : Entry κ α) : entry.beneath [] = entry := by
  cases entry <;> rfl

theorem insert_below (key : κ) (entry : Entry κ α) (forest : Forest κ α) :
    (entry.below key).insert forest = forest.under key entry.insert := by
  cases entry <;> rfl

theorem under_bind (key : κ) (first second : Forest κ α → Option (Forest κ α)) (forest : Forest κ α) :
    (forest.under key first).bind (under key second) =
      forest.under key fun inner => (first inner).bind second := by
  induction forest with
  | nil =>
      rw [under, under]
      cases first nil with
      | none => rfl
      | some inner => simp [under]
  | leaf other value rest ih =>
      rw [under, under]
      by_cases same : other = key
      · rw [if_pos same, if_pos same]
        rfl
      · rw [if_neg same, if_neg same, ← ih]
        cases rest.under key first with
        | none => rfl
        | some inner => simp [under, same]
  | branch other entries rest _ ih =>
      rw [under, under]
      by_cases same : other = key
      · rw [if_pos same, if_pos same]
        cases first entries with
        | none => rfl
        | some inner => simp [under, same]
      · rw [if_neg same, if_neg same, ← ih]
        cases rest.under key first with
        | none => rfl
        | some inner => simp [under, same]

theorem insertAll_cons (forest : Forest κ α) (entry : Entry κ α) (rest : List (Entry κ α)) :
    forest.insertAll (entry :: rest) = (entry.insert forest).bind (insertAll · rest) :=
  List.foldlM_cons

theorem insertAll_append (forest : Forest κ α) (front back : List (Entry κ α)) :
    forest.insertAll (front ++ back) = (forest.insertAll front).bind (insertAll · back) :=
  List.foldlM_append

theorem insertAll_below (key : κ) (change : Forest κ α → Option (Forest κ α)) (forest : Forest κ α)
    (entries : List (Entry κ α)) :
    (forest.under key change).bind (insertAll · (entries.map (Entry.below key))) =
      forest.under key fun inner => (change inner).bind (insertAll · entries) := by
  induction entries generalizing change with
  | nil => simp [insertAll]
  | cons entry rest ih =>
      have first := under_bind key change entry.insert forest
      have later := ih fun inner => (change inner).bind entry.insert
      simp only [List.map_cons, insertAll_cons, insert_below, ← Option.bind_assoc]
      rw [first, later]

theorem under_fresh {key : κ} (change : Forest κ α → Option (Forest κ α)) {forest : Forest κ α}
    (fresh : key ∉ forest.keys) :
    forest.under key change = (change nil).map fun entries => forest.append (branch key entries nil) := by
  induction forest with
  | nil => rfl
  | leaf other value rest ih =>
      have different : other ≠ key := fun same => fresh (by simp [keys, same])
      rw [under, if_neg different, ih fun inside => fresh (by simp [keys, inside])]
      cases change nil <;> rfl
  | branch other entries rest _ ih =>
      have different : other ≠ key := fun same => fresh (by simp [keys, same])
      rw [under, if_neg different, ih fun inside => fresh (by simp [keys, inside])]
      cases change nil <;> rfl

end Insertion

section Listing
variable [DecidableEq κ]

/-- The entries in preorder, except that a branch which holds nothing but an empty branch may
be listed by the path of the inner one alone. -/
inductive Lists : List (Entry κ α) → Forest κ α → Prop
  | nil : Lists [] nil
  | leaf (key : κ) (value : α) {entries : List (Entry κ α)} {rest : Forest κ α} :
      Lists entries rest → Lists (.leaf [] key value :: entries) (leaf key value rest)
  | branch (key : κ) {inner entries : List (Entry κ α)} {below rest : Forest κ α} :
      Lists inner below → Lists entries rest →
      Lists (.branch [key] :: (inner.map (Entry.below key) ++ entries)) (branch key below rest)
  | chain (key only : κ) {entries : List (Entry κ α)} {rest : Forest κ α} :
      Lists entries rest →
      Lists (.branch [key, only] :: entries) (branch key (branch only nil nil) rest)

theorem insertAll_lists {entries : List (Entry κ α)} {forest : Forest κ α} (lists : Lists entries forest)
    {start : Forest κ α} (distinct : (start.append forest).Distinct) :
    start.insertAll entries = some (start.append forest) := by
  induction lists generalizing start with
  | nil => rw [append_nil]; rfl
  | leaf key value _ ih =>
      rename_i rest _
      have moved : start.append (Forest.leaf key value rest) =
          (start.append (Forest.leaf key value nil)).append rest := by
        rw [append_assoc]
        rfl
      rw [moved] at distinct ⊢
      rw [insertAll_cons]
      exact ih distinct
  | branch key _ _ ihBelow ih =>
      rename_i inner _ below rest _ _
      have fresh : key ∉ start.keys := fun inside => distinct.append_disjoint inside (by simp [keys])
      have moved : start.append (Forest.branch key below rest) =
          (start.append (Forest.branch key below nil)).append rest := by
        rw [append_assoc]
        rfl
      have built : nil.insertAll inner = some below := ihBelow distinct.append_right.2.1
      have first : (Entry.insert (.branch [key]) start).bind
          (insertAll · (inner.map (Entry.below key))) =
            some (start.append (Forest.branch key below nil)) := by
        change (start.under key some).bind _ = _
        rw [insertAll_below, under_fresh _ fresh, Option.bind_some, built]
        rfl
      rw [moved] at distinct ⊢
      rw [insertAll_cons]
      simp only [insertAll_append]
      rw [← Option.bind_assoc, first]
      exact ih distinct
  | chain key only _ ih =>
      rename_i rest _
      have fresh : key ∉ start.keys := fun inside => distinct.append_disjoint inside (by simp [keys])
      have moved : start.append (Forest.branch key (Forest.branch only nil nil) rest) =
          (start.append (Forest.branch key (Forest.branch only nil nil) nil)).append rest := by
        rw [append_assoc]
        rfl
      have first : Entry.insert (.branch [key, only]) start =
          some (start.append (Forest.branch key (Forest.branch only nil nil) nil)) := by
        change start.under key (under only some) = _
        rw [under_fresh _ fresh]
        rfl
      rw [moved] at distinct ⊢
      rw [insertAll_cons, first]
      exact ih distinct

end Listing

section Kinds
variable [DecidableEq κ]

inductive Kind (α : Type)
  | leaf (value : α)
  | branch
deriving DecidableEq, Repr

def kindAt : Forest κ α → List κ → Option (Kind α)
  | _, [] => some .branch
  | nil, _ :: _ => none
  | leaf other value rest, key :: path =>
      if other = key then if path = [] then some (.leaf value) else none
      else rest.kindAt (key :: path)
  | branch other entries rest, key :: path =>
      if other = key then entries.kindAt path else rest.kindAt (key :: path)

def inner (key : κ) : Forest κ α → Forest κ α
  | nil => nil
  | leaf other _ rest => if other = key then nil else rest.inner key
  | branch other entries rest => if other = key then entries else rest.inner key

def innerAt : List κ → Forest κ α → Forest κ α
  | [], forest => forest
  | key :: path, forest => (forest.inner key).innerAt path

@[simp] theorem kindAt_root (forest : Forest κ α) : forest.kindAt [] = some .branch := by
  cases forest <;> rfl

theorem kindAt_inner (key : κ) {path : List κ} (more : path ≠ []) (forest : Forest κ α) :
    forest.kindAt (key :: path) = (forest.inner key).kindAt path := by
  have absent : (nil : Forest κ α).kindAt path = none := by
    cases path with
    | nil => exact absurd rfl more
    | cons first rest => rfl
  induction forest with
  | nil => exact absent.symm
  | leaf other value rest ih =>
      rw [kindAt, inner]
      by_cases same : other = key
      · rw [if_pos same, if_pos same, if_neg more, absent]
      · rw [if_neg same, if_neg same, ih]
  | branch other entries rest _ ih =>
      rw [kindAt, inner]
      by_cases same : other = key
      · rw [if_pos same, if_pos same]
      · rw [if_neg same, if_neg same, ih]

theorem kindAt_innerAt (path : List κ) {query : List κ} (more : query ≠ []) (forest : Forest κ α) :
    forest.kindAt (path ++ query) = (forest.innerAt path).kindAt query := by
  induction path generalizing forest with
  | nil => rfl
  | cons key path ih =>
      rw [List.cons_append, kindAt_inner key (by simp [more]), ih]
      rfl

theorem kindAt_key {forest : Forest κ α} {key : κ} :
    forest.kindAt [key] = none ↔ key ∉ forest.keys := by
  induction forest with
  | nil => simp [kindAt, keys]
  | leaf other value rest ih =>
      rw [kindAt, keys]
      by_cases same : other = key
      · simp [same]
      · simp [same, ih, Ne.symm same]
  | branch other entries rest _ ih =>
      rw [kindAt, keys]
      by_cases same : other = key
      · simp [same]
      · simp [same, ih, Ne.symm same]

/-- A change under a key is one of the entries there and of nothing else. -/
theorem under_spec {key : κ} {change : Forest κ α → Option (Forest κ α)} {forest after : Forest κ α}
    (done : forest.under key change = some after) :
    change (forest.inner key) = some (after.inner key) ∧ after.kindAt [key] = some .branch ∧
      ∀ other path, other ≠ key → after.kindAt (other :: path) = forest.kindAt (other :: path) := by
  induction forest generalizing after with
  | nil =>
      obtain ⟨entries, changed, rfl⟩ := Option.map_eq_some_iff.mp done
      refine ⟨by simp [inner, changed], by simp [kindAt], ?_⟩
      intro other path different
      simp [kindAt, Ne.symm different]
  | leaf first value rest ih =>
      rw [under] at done
      split at done
      · cases done
      · rename_i apart
        obtain ⟨later, changed, rfl⟩ := Option.map_eq_some_iff.mp done
        obtain ⟨inside, isBranch, others⟩ := ih changed
        refine ⟨by simp [inner, apart, inside], by simp [kindAt, apart, isBranch], ?_⟩
        intro other path different
        rw [kindAt, kindAt, others other path different]
  | branch first entries rest _ ih =>
      rw [under] at done
      split at done
      · rename_i same
        obtain ⟨changedEntries, changed, rfl⟩ := Option.map_eq_some_iff.mp done
        refine ⟨by simp [inner, same, changed], by simp [kindAt, same], ?_⟩
        intro other path different
        have apart : first ≠ other := fun equal => different (equal ▸ same)
        rw [kindAt, kindAt, if_neg apart, if_neg apart]
      · rename_i apart
        obtain ⟨later, changed, rfl⟩ := Option.map_eq_some_iff.mp done
        obtain ⟨inside, isBranch, others⟩ := ih changed
        refine ⟨by simp [inner, apart, inside], by simp [kindAt, apart, isBranch], ?_⟩
        intro other path different
        rw [kindAt, kindAt, others other path different]

theorem under_succeeds {key : κ} {change : Forest κ α → Option (Forest κ α)} {forest entries : Forest κ α}
    (notLeaf : ∀ value, forest.kindAt [key] ≠ some (.leaf value))
    (changed : change (forest.inner key) = some entries) :
    ∃ after, forest.under key change = some after := by
  induction forest with
  | nil => exact ⟨_, by rw [under, show change nil = some entries from changed]; rfl⟩
  | leaf other value rest ih =>
      by_cases same : other = key
      · exact absurd (by simp [kindAt, same]) (notLeaf value)
      · simp only [kindAt, inner, if_neg same] at notLeaf changed
        obtain ⟨after, found⟩ := ih notLeaf changed
        exact ⟨_, by rw [under, if_neg same, found]; rfl⟩
  | branch other inside rest _ ih =>
      by_cases same : other = key
      · simp only [inner, if_pos same] at changed
        exact ⟨_, by rw [under, if_pos same, changed]; rfl⟩
      · simp only [kindAt, inner, if_neg same] at notLeaf changed
        obtain ⟨after, found⟩ := ih notLeaf changed
        exact ⟨_, by rw [under, if_neg same, found]; rfl⟩

/-- A change at the end of a path succeeds unless a leaf is in the way. -/
theorem alter_spec (change : Forest κ α → Option (Forest κ α)) {path : List κ} {forest entries : Forest κ α}
    (passable : ∀ front value, front <+: path → forest.kindAt front ≠ some (.leaf value))
    (changed : change (forest.innerAt path) = some entries) :
    ∃ after, forest.alter change path = some after ∧ ∀ query, after.kindAt query =
      if path <+: query then entries.kindAt (query.drop path.length)
      else if query <+: path then some .branch else forest.kindAt query := by
  induction path generalizing forest with
  | nil => exact ⟨entries, changed, by simp⟩
  | cons key path ih =>
      have passableBelow : ∀ front value, front <+: path →
          (forest.inner key).kindAt front ≠ some (.leaf value) := by
        intro front value within
        by_cases empty : front = []
        · simp [empty]
        · rw [← kindAt_inner key empty]
          exact passable (key :: front) value ((List.prefix_cons_inj key).mpr within)
      obtain ⟨below, altered, kinds⟩ := ih passableBelow changed
      have notLeaf : ∀ value, forest.kindAt [key] ≠ some (.leaf value) := by
        intro value
        exact passable [key] value ((List.prefix_cons_inj key).mpr List.nil_prefix)
      obtain ⟨after, done⟩ := under_succeeds notLeaf altered
      obtain ⟨inside, isBranch, others⟩ := under_spec done
      rw [altered, Option.some.injEq] at inside
      refine ⟨after, done, ?_⟩
      intro query
      cases query with
      | nil => simp
      | cons first query =>
          by_cases same : first = key
          · subst same
            simp only [List.prefix_cons_inj, List.length_cons, List.drop_succ_cons]
            by_cases empty : query = []
            · subst empty
              rw [isBranch]
              by_cases last : path = []
              · simp [last]
              · simp [last]
            · rw [kindAt_inner first empty, ← inside, kinds, ← kindAt_inner first empty]
          · rw [others first query same, if_neg, if_neg]
            · exact fun within => same (List.cons_prefix_cons.mp within).1
            · exact fun within => same (List.cons_prefix_cons.mp within).1.symm

theorem kindAt_append_leaf {forest : Forest κ α} {key : κ} (absent : forest.kindAt [key] = none)
    (value : α) (query : List κ) : (forest.append (leaf key value nil)).kindAt query =
      if query = [key] then some (.leaf value) else forest.kindAt query := by
  cases query with
  | nil => simp
  | cons first query =>
      induction forest with
      | nil =>
          rw [append, kindAt]
          by_cases same : key = first
          · subst same
            simp [kindAt]
          · simp [same, kindAt, Ne.symm same]
      | leaf other held rest ih =>
          have apart : other ≠ key := fun same => by simp [kindAt, same] at absent
          have later : rest.kindAt [key] = none := by simpa [kindAt, apart] using absent
          rw [append, kindAt, kindAt, ih later]
          by_cases here : other = first
          · have notKey : ¬first :: query = [key] := fun whole => apart (here.trans (List.cons.inj whole).1)
            rw [if_pos here, if_pos here, if_neg notKey]
          · rw [if_neg here, if_neg here]
      | branch other entries rest _ ih =>
          have apart : other ≠ key := fun same => by simp [kindAt, same] at absent
          have later : rest.kindAt [key] = none := by simpa [kindAt, apart] using absent
          rw [append, kindAt, kindAt, ih later]
          by_cases here : other = first
          · have notKey : ¬first :: query = [key] := fun whole => apart (here.trans (List.cons.inj whole).1)
            rw [if_pos here, if_pos here, if_neg notKey]
          · rw [if_neg here, if_neg here]

def Entry.kind : Entry κ α → Kind α
  | .branch _ => .branch
  | .leaf _ _ value => .leaf value

/-- An insertion defines its own path and the branches on the way, and nothing else. -/
theorem insert_spec {entry : Entry κ α} {forest : Forest κ α}
    (passable : ∀ front value, front <+: entry.path → forest.kindAt front ≠ some (.leaf value))
    (fresh : ∀ value, entry.kind = .leaf value → forest.kindAt entry.path = none) :
    ∃ after, entry.insert forest = some after ∧ ∀ query, after.kindAt query =
      if query = entry.path then some entry.kind
      else if query <+: entry.path then some .branch else forest.kindAt query := by
  cases entry with
  | branch path =>
      obtain ⟨after, done, kinds⟩ := alter_spec some passable rfl
      refine ⟨after, done, ?_⟩
      intro query
      rw [kinds, Entry.path, Entry.kind]
      by_cases behind : path <+: query
      · obtain ⟨rest, rfl⟩ := behind
        rw [if_pos (List.prefix_append path rest), List.drop_left]
        by_cases empty : rest = []
        · simp [empty]
        · rw [if_neg (by simp [empty]), if_neg, kindAt_innerAt path empty]
          intro within
          have lengths := within.length_le
          rw [List.length_append] at lengths
          exact empty (List.length_eq_zero_iff.mp (by omega))
      · have notPath : query ≠ path := fun whole => behind (whole ▸ List.prefix_refl query)
        rw [if_neg behind, if_neg notPath]
  | leaf path key value =>
      have absent : (forest.innerAt path).kindAt [key] = none := by
        rw [← kindAt_innerAt path (by simp)]
        exact fresh value rfl
      have passableFront : ∀ front value, front <+: path → forest.kindAt front ≠ some (.leaf value) := by
        intro front value within
        exact passable front value (within.trans (List.prefix_append path [key]))
      obtain ⟨after, done, kinds⟩ :=
        alter_spec (fun inner => some (inner.append (leaf key value nil))) passableFront rfl
      refine ⟨after, done, ?_⟩
      intro query
      rw [kinds, Entry.path, Entry.kind]
      by_cases behind : path <+: query
      · obtain ⟨rest, rfl⟩ := behind
        rw [if_pos (List.prefix_append path rest), List.drop_left, kindAt_append_leaf absent]
        simp only [List.append_cancel_left_eq, List.prefix_append_right_inj]
        by_cases here : rest = [key]
        · rw [if_pos here, if_pos here]
        · rw [if_neg here, if_neg here]
          by_cases empty : rest = []
          · simp [empty]
          · rw [if_neg, kindAt_innerAt path empty]
            intro within
            rcases List.prefix_cons_iff.mp within with none | ⟨more, whole, nothing⟩
            · exact empty none
            · exact here (whole.trans (by rw [List.prefix_nil.mp nothing]))
      · rw [if_neg behind]
        have notPath : query ≠ path ++ [key] := fun whole => behind (whole ▸ List.prefix_append path [key])
        rw [if_neg notPath]
        by_cases within : query <+: path
        · rw [if_pos within, if_pos (within.trans (List.prefix_append path [key]))]
        · rw [if_neg within, if_neg]
          intro longer
          rcases List.prefix_concat_iff.mp longer with whole | inside
          · exact notPath whole
          · exact within inside

theorem under_keys {key : κ} {change : Forest κ α → Option (Forest κ α)} {forest after : Forest κ α}
    (done : forest.under key change = some after) {other : κ} (inside : other ∈ after.keys) :
    other = key ∨ other ∈ forest.keys := by
  by_contra outside
  rw [not_or] at outside
  have same := (under_spec done).2.2 other [] outside.1
  rw [kindAt_key.mpr outside.2] at same
  exact kindAt_key.mp same inside

theorem Distinct.inner {forest : Forest κ α} (distinct : forest.Distinct) (key : κ) :
    (forest.inner key).Distinct := by
  induction forest with
  | nil => trivial
  | leaf other value rest ih =>
      rw [Forest.inner]
      split
      · trivial
      · exact ih distinct.2
  | branch other entries rest _ ih =>
      rw [Forest.inner]
      split
      · exact distinct.2.1
      · exact ih distinct.2.2

theorem Distinct.under {key : κ} {change : Forest κ α → Option (Forest κ α)} {forest after : Forest κ α}
    (distinct : forest.Distinct) (done : forest.under key change = some after)
    (inside : (after.inner key).Distinct) : after.Distinct := by
  induction forest generalizing after with
  | nil =>
      obtain ⟨entries, _, rfl⟩ := Option.map_eq_some_iff.mp done
      rw [Forest.inner, if_pos rfl] at inside
      exact ⟨by simp [keys], inside, trivial⟩
  | leaf other value rest ih =>
      rw [Forest.under] at done
      split at done
      · cases done
      · rename_i apart
        obtain ⟨later, changed, rfl⟩ := Option.map_eq_some_iff.mp done
        rw [Forest.inner, if_neg apart] at inside
        refine ⟨?_, ih distinct.2 changed inside⟩
        intro again
        exact (under_keys changed again).elim apart distinct.1
  | branch other entries rest _ ih =>
      rw [Forest.under] at done
      split at done
      · rename_i same
        obtain ⟨changedEntries, _, rfl⟩ := Option.map_eq_some_iff.mp done
        rw [Forest.inner, if_pos same] at inside
        exact ⟨distinct.1, inside, distinct.2.2⟩
      · rename_i apart
        obtain ⟨later, changed, rfl⟩ := Option.map_eq_some_iff.mp done
        rw [Forest.inner, if_neg apart] at inside
        refine ⟨?_, distinct.2.1, ih distinct.2.2 changed inside⟩
        intro again
        exact (under_keys changed again).elim apart distinct.1

/-- A change at the end of a path keeps what it keeps there. -/
theorem Distinct.alter {change : Forest κ α → Option (Forest κ α)} {path : List κ}
    {forest after : Forest κ α} (distinct : forest.Distinct)
    (done : forest.alter change path = some after)
    (keeps : ∀ entries, (forest.innerAt path).Distinct → change (forest.innerAt path) = some entries →
      entries.Distinct) : after.Distinct := by
  induction path generalizing forest after with
  | nil => exact keeps after distinct done
  | cons key path ih =>
      refine distinct.under done ?_
      exact ih (distinct.inner key) (under_spec done).1 keeps

theorem insert_distinct {entry : Entry κ α} {forest after : Forest κ α} (distinct : forest.Distinct)
    (fresh : ∀ value, entry.kind = .leaf value → forest.kindAt entry.path = none)
    (done : entry.insert forest = some after) : after.Distinct := by
  cases entry with
  | branch path =>
      refine distinct.alter done ?_
      intro entries before same
      rwa [← Option.some.inj same]
  | leaf path key value =>
      refine distinct.alter done ?_
      intro entries before same
      rw [← Option.some.inj same]
      refine distinct_append_leaf value before (kindAt_key.mp ?_)
      rw [← kindAt_innerAt path (by simp)]
      exact fresh value rfl

section AllKeys
variable {P : κ → Prop}

theorem AllKeys.inner {forest : Forest κ α} (all : forest.AllKeys P) (key : κ) :
    (forest.inner key).AllKeys P := by
  induction forest with
  | nil => trivial
  | leaf other value rest ih =>
      rw [Forest.inner]
      split
      · trivial
      · exact ih all.2
  | branch other entries rest _ ih =>
      rw [Forest.inner]
      split
      · exact all.2.1
      · exact ih all.2.2

theorem AllKeys.under {key : κ} {change : Forest κ α → Option (Forest κ α)} {forest after : Forest κ α}
    (all : forest.AllKeys P) (named : P key) (done : forest.under key change = some after)
    (inside : (after.inner key).AllKeys P) : after.AllKeys P := by
  induction forest generalizing after with
  | nil =>
      obtain ⟨entries, _, rfl⟩ := Option.map_eq_some_iff.mp done
      rw [Forest.inner, if_pos rfl] at inside
      exact ⟨named, inside, trivial⟩
  | leaf other value rest ih =>
      rw [Forest.under] at done
      split at done
      · cases done
      · rename_i apart
        obtain ⟨later, changed, rfl⟩ := Option.map_eq_some_iff.mp done
        rw [Forest.inner, if_neg apart] at inside
        exact ⟨all.1, ih all.2 changed inside⟩
  | branch other entries rest _ ih =>
      rw [Forest.under] at done
      split at done
      · rename_i same
        obtain ⟨changedEntries, _, rfl⟩ := Option.map_eq_some_iff.mp done
        rw [Forest.inner, if_pos same] at inside
        exact ⟨all.1, inside, all.2.2⟩
      · rename_i apart
        obtain ⟨later, changed, rfl⟩ := Option.map_eq_some_iff.mp done
        rw [Forest.inner, if_neg apart] at inside
        exact ⟨all.1, all.2.1, ih all.2.2 changed inside⟩

theorem AllKeys.alter {change : Forest κ α → Option (Forest κ α)} {path : List κ}
    {forest after : Forest κ α} (all : forest.AllKeys P) (named : ∀ key ∈ path, P key)
    (done : forest.alter change path = some after)
    (keeps : ∀ before entries : Forest κ α, before.AllKeys P → change before = some entries →
      entries.AllKeys P) : after.AllKeys P := by
  induction path generalizing forest after with
  | nil => exact keeps forest after all done
  | cons key path ih =>
      refine all.under (named key (by simp)) done ?_
      exact ih (all.inner key) (fun other member => named other (by simp [member])) (under_spec done).1

theorem AllKeys.insert {entry : Entry κ α} {forest after : Forest κ α} (all : forest.AllKeys P)
    (named : ∀ key ∈ entry.path, P key) (done : entry.insert forest = some after) : after.AllKeys P := by
  cases entry with
  | branch path =>
      refine all.alter named done ?_
      intro before entries allBefore same
      rwa [← Option.some.inj same]
  | leaf path key value =>
      refine all.alter (fun other member => named other (List.mem_append_left _ member)) done ?_
      intro before entries allBefore same
      rw [← Option.some.inj same]
      exact allKeys_append allBefore ⟨named key (List.mem_append_right _ (by simp)), trivial⟩

end AllKeys

end Kinds

inductive Item (κ α : Type)
  | leaf (key : κ) (value : α)
  | branch (key : κ) (entries : Forest κ α)

def Item.key : Item κ α → κ
  | leaf key _ => key
  | branch key _ => key

def cons : Item κ α → Forest κ α → Forest κ α
  | .leaf key value, rest => leaf key value rest
  | .branch key entries, rest => branch key entries rest

inductive Alike : Forest κ α → Forest κ α → Prop
  | nil : Alike nil nil
  | leaf (key : κ) (value : α) {rest other : Forest κ α} :
      Alike rest other → Alike (leaf key value rest) (leaf key value other)
  | branch (key : κ) {entries inside rest other : Forest κ α} :
      Alike entries inside → Alike rest other → Alike (branch key entries rest) (branch key inside other)
  | swap (first second : Item κ α) (rest : Forest κ α) :
      Alike (cons first (cons second rest)) (cons second (cons first rest))
  | trans {first second third : Forest κ α} : Alike first second → Alike second third → Alike first third

theorem alike_refl (forest : Forest κ α) : Alike forest forest := by
  induction forest with
  | nil => exact .nil
  | leaf key value rest ih => exact .leaf key value ih
  | branch key entries rest ihEntries ih => exact .branch key ihEntries ih

theorem Alike.cons {rest other : Forest κ α} (item : Item κ α) (alike : Alike rest other) :
    Alike (cons item rest) (cons item other) := by
  cases item with
  | leaf key value => exact .leaf key value alike
  | branch key entries => exact .branch key (alike_refl entries) alike

theorem keys_cons (item : Item κ α) (rest : Forest κ α) : (cons item rest).keys = item.key :: rest.keys := by
  cases item <;> rfl

section Distinct
variable {item first second : Item κ α} {rest other : Forest κ α}

theorem Distinct.cons_rest (distinct : (cons item rest).Distinct) :
    item.key ∉ rest.keys ∧ rest.Distinct := by
  cases item with
  | leaf key value => exact distinct
  | branch key entries => exact ⟨distinct.1, distinct.2.2⟩

theorem Distinct.cons_congr (distinct : (cons item rest).Distinct) (fresh : item.key ∉ other.keys)
    (others : other.Distinct) : (cons item other).Distinct := by
  cases item with
  | leaf key value => exact ⟨fresh, others⟩
  | branch key entries => exact ⟨fresh, distinct.2.1, others⟩

theorem Distinct.cons_swap (distinct : (cons first (cons second rest)).Distinct) :
    (cons second (cons first rest)).Distinct := by
  obtain ⟨outer, inner⟩ := distinct.cons_rest
  obtain ⟨fresh, others⟩ := inner.cons_rest
  rw [keys_cons, List.mem_cons, not_or] at outer
  refine inner.cons_congr ?_ (distinct.cons_congr outer.2 others)
  rw [keys_cons, List.mem_cons, not_or]
  exact ⟨Ne.symm outer.1, fresh⟩

end Distinct

section Siblings
variable [DecidableEq κ]

theorem kindAt_absent {forest : Forest κ α} {key : κ} (absent : key ∉ forest.keys) (path : List κ) :
    forest.kindAt (key :: path) = none := by
  induction forest with
  | nil => rfl
  | leaf other value rest ih =>
      rw [keys, List.mem_cons, not_or] at absent
      rw [kindAt, if_neg (Ne.symm absent.1), ih absent.2]
  | branch other entries rest _ ih =>
      rw [keys, List.mem_cons, not_or] at absent
      rw [kindAt, if_neg (Ne.symm absent.1), ih absent.2]

theorem kindAt_cons (item : Item κ α) (rest : Forest κ α) {key : κ} (apart : item.key ≠ key)
    (path : List κ) : (cons item rest).kindAt (key :: path) = rest.kindAt (key :: path) := by
  cases item with
  | leaf other value => exact if_neg apart
  | branch other entries => exact if_neg apart

theorem kindAt_cons_congr (item : Item κ α) {rest other : Forest κ α}
    (same : ∀ query, rest.kindAt query = other.kindAt query) (query : List κ) :
    (cons item rest).kindAt query = (cons item other).kindAt query := by
  cases query with
  | nil => simp
  | cons key path => cases item <;> simp only [cons, kindAt, same]

/-- Neighbours of different keys change places unnoticed. -/
theorem kindAt_cons_swap {first second : Item κ α} (apart : first.key ≠ second.key) (rest : Forest κ α)
    (query : List κ) :
    (cons first (cons second rest)).kindAt query = (cons second (cons first rest)).kindAt query := by
  cases query with
  | nil => simp
  | cons key path =>
      by_cases same : first.key = key
      · have other : second.key ≠ key := fun equal => apart (same.trans equal.symm)
        rw [kindAt_cons second _ other]
        cases first with
        | leaf name value => simp only [cons, kindAt, if_pos (show name = key from same)]
        | branch name entries => simp only [cons, kindAt, if_pos (show name = key from same)]
      · rw [kindAt_cons first _ same]
        cases second with
        | leaf name value => simp only [cons, kindAt, ← kindAt_cons first rest same path]
        | branch name entries => simp only [cons, kindAt, ← kindAt_cons first rest same path]

structure Pulled (key : κ) (forest : Forest κ α) (item : Item κ α) (rest : Forest κ α) : Prop where
  key : item.key = key
  alike : Alike (cons item rest) forest
  distinct : (cons item rest).Distinct
  kinds : ∀ query, (cons item rest).kindAt query = forest.kindAt query

theorem Pulled.behind {key : κ} (item : Item κ α) {found : Item κ α} {rest others : Forest κ α}
    (distinct : (cons item rest).Distinct) (apart : item.key ≠ key)
    (pulled : Pulled key rest found others) :
    Pulled key (cons item rest) found (cons item others) := by
  have different : found.key ≠ item.key := fun same => apart (same.symm.trans pulled.key)
  have ordered : (cons item (cons found others)).Distinct := by
    refine distinct.cons_congr ?_ pulled.distinct
    rw [← kindAt_key, pulled.kinds, kindAt_key]
    exact distinct.cons_rest.1
  refine ⟨pulled.key, ?_, ordered.cons_swap, ?_⟩
  · exact .trans (.swap found item others) (pulled.alike.cons item)
  · intro query
    rw [kindAt_cons_swap different]
    exact kindAt_cons_congr item pulled.kinds query

theorem exists_pulled {forest : Forest κ α} {key : κ} (distinct : forest.Distinct)
    (present : key ∈ forest.keys) : ∃ item rest, Pulled key forest item rest := by
  induction forest with
  | nil => cases present
  | leaf other value rest ih =>
      by_cases here : other = key
      · exact ⟨.leaf other value, rest, here, alike_refl _, distinct, fun _ => rfl⟩
      · obtain ⟨item, others, pulled⟩ :=
          ih distinct.2 ((List.mem_cons.mp present).resolve_left (Ne.symm here))
        exact ⟨item, _, pulled.behind (.leaf other value) distinct here⟩
  | branch other entries rest _ ih =>
      by_cases here : other = key
      · exact ⟨.branch other entries, rest, here, alike_refl _, distinct, fun _ => rfl⟩
      · obtain ⟨item, others, pulled⟩ :=
          ih distinct.2.2 ((List.mem_cons.mp present).resolve_left (Ne.symm here))
        exact ⟨item, _, pulled.behind (.branch other entries) distinct here⟩

theorem kindAt_rest (first second : Item κ α) {rest others : Forest κ α} (sameKey : first.key = second.key)
    (left : first.key ∉ rest.keys) (right : second.key ∉ others.keys)
    (same : ∀ query, (cons first rest).kindAt query = (cons second others).kindAt query)
    (query : List κ) : rest.kindAt query = others.kindAt query := by
  cases query with
  | nil => simp
  | cons key path =>
      by_cases own : first.key = key
      · subst own
        rw [kindAt_absent left, sameKey, kindAt_absent right]
      · have apart : second.key ≠ key := fun equal => own (sameKey.trans equal)
        rw [← kindAt_cons first rest own, same, kindAt_cons second others apart]

/-- Forests with the same kinds at all paths differ only in the order of siblings. -/
theorem alike_of_kinds {forest other : Forest κ α} (distinct : forest.Distinct)
    (otherDistinct : other.Distinct) (same : ∀ query, forest.kindAt query = other.kindAt query) :
    Alike forest other := by
  induction forest generalizing other with
  | nil =>
      cases other with
      | nil => exact .nil
      | leaf key value rest => simpa [kindAt] using same [key]
      | branch key entries rest => simpa [kindAt] using same [key]
  | leaf key value rest ih =>
      have here : other.kindAt [key] = some (.leaf value) := by
        rw [← same, kindAt, if_pos rfl, if_pos rfl]
      have present : key ∈ other.keys := by
        by_contra absent
        rw [kindAt_key.mpr absent] at here
        cases here
      obtain ⟨item, others, pulled⟩ := exists_pulled otherDistinct present
      refine .trans ?_ pulled.alike
      have front := pulled.kinds [key]
      rw [here] at front
      cases item with
      | branch name entries =>
          obtain rfl : name = key := pulled.key
          rw [cons, kindAt, if_pos rfl, kindAt_root] at front
          cases front
      | leaf name held =>
          obtain rfl : name = key := pulled.key
          rw [cons, kindAt, if_pos rfl, if_pos rfl] at front
          obtain rfl : held = value := by simpa using front
          refine .leaf name held (ih distinct.2 pulled.distinct.2 ?_)
          refine kindAt_rest (.leaf name held) (.leaf name held) rfl distinct.1
            pulled.distinct.1 ?_
          intro query
          rw [pulled.kinds, ← same]
          rfl
  | branch key entries rest ihEntries ih =>
      have below : ∀ path, other.kindAt (key :: path) = entries.kindAt path := by
        intro path
        rw [← same, kindAt, if_pos rfl]
      have present : key ∈ other.keys := by
        by_contra absent
        have here := below []
        rw [kindAt_key.mpr absent, kindAt_root] at here
        cases here
      obtain ⟨item, others, pulled⟩ := exists_pulled otherDistinct present
      refine .trans ?_ pulled.alike
      have front := pulled.kinds [key]
      rw [below, kindAt_root] at front
      cases item with
      | leaf name held =>
          obtain rfl : name = key := pulled.key
          rw [cons, kindAt, if_pos rfl, if_pos rfl] at front
          cases front
      | branch name inside =>
          obtain rfl : name = key := pulled.key
          refine .branch name (ihEntries distinct.2.1 pulled.distinct.2.1 ?_)
            (ih distinct.2.2 pulled.distinct.2.2 ?_)
          · intro path
            rw [← below, ← pulled.kinds, cons, kindAt, if_pos rfl]
          · refine kindAt_rest (.branch name entries) (.branch name inside) rfl
              distinct.1 pulled.distinct.1 ?_
            intro query
            rw [pulled.kinds, ← same]
            rfl

end Siblings

section Order
variable [DecidableEq κ]

/-- The paths are different, and no leaf is on the way to anything else. -/
structure Consistent (entries : List (Entry κ α)) : Prop where
  distinct : entries.Pairwise fun one other => one.path ≠ other.path
  passable : ∀ one ∈ entries, ∀ other ∈ entries, ∀ value, one.kind = .leaf value →
    one.path <+: other.path → one.path = other.path

omit [DecidableEq κ] in
theorem Consistent.perm {entries others : List (Entry κ α)} (consistent : Consistent entries)
    (perm : entries.Perm others) : Consistent others where
  distinct := perm.pairwise consistent.distinct fun apart => Ne.symm apart
  passable := by
    intro one memberOne other memberOther
    exact consistent.passable one (perm.mem_iff.mpr memberOne) other (perm.mem_iff.mpr memberOther)

structure Built (entries : List (Entry κ α)) (forest : Forest κ α) : Prop where
  distinct : forest.Distinct
  kinds : ∀ query kind, query ≠ [] → (forest.kindAt query = some kind ↔
    (∃ entry ∈ entries, query = entry.path ∧ kind = entry.kind) ∨
      (kind = .branch ∧ ∃ entry ∈ entries, query <+: entry.path ∧ query ≠ entry.path))

theorem built_nil : Built ([] : List (Entry κ α)) nil where
  distinct := trivial
  kinds := by
    intro query kind more
    cases query with
    | nil => exact absurd rfl more
    | cons first query => simp [kindAt]

theorem Built.insert {entries : List (Entry κ α)} {entry : Entry κ α} {forest : Forest κ α}
    (built : Built entries forest) (consistent : Consistent (entries ++ [entry])) :
    ∃ after, entry.insert forest = some after ∧ Built (entries ++ [entry]) after := by
  have apart : ∀ other ∈ entries, other.path ≠ entry.path := by
    intro other member
    exact (List.pairwise_append.mp consistent.distinct).2.2 other member entry (by simp)
  have noLeaf : ∀ other ∈ entries, other.path <+: entry.path → other.kind = .branch := by
    intro other member onTheWay
    cases kind : other.kind with
    | branch => rfl
    | leaf value =>
        exact absurd (consistent.passable other (by simp [member]) entry (by simp) value kind onTheWay)
          (apart other member)
  have nothingBehind : ∀ other ∈ entries, entry.path <+: other.path → entry.kind = .branch := by
    intro other member onTheWay
    cases kind : entry.kind with
    | branch => rfl
    | leaf value =>
        exact absurd (consistent.passable entry (by simp) other (by simp [member]) value kind onTheWay).symm
          (apart other member)
  have passable : ∀ front value, front <+: entry.path → forest.kindAt front ≠ some (.leaf value) := by
    intro front value within found
    by_cases empty : front = []
    · simp [empty] at found
    · rcases (built.kinds front _ empty).mp found with ⟨other, member, rfl, same⟩ | ⟨same, _⟩
      · rw [noLeaf other member within] at same
        cases same
      · cases same
  have fresh : ∀ value, entry.kind = .leaf value → forest.kindAt entry.path = none := by
    intro value isLeaf
    have more : entry.path ≠ [] := by
      cases entry with
      | branch path => cases isLeaf
      | leaf path key held => simp [Entry.path]
    cases found : forest.kindAt entry.path with
    | none => rfl
    | some kind =>
        rcases (built.kinds _ _ more).mp found with ⟨other, member, same, _⟩ | ⟨_, other, member, within, _⟩
        · exact absurd same.symm (apart other member)
        · rw [nothingBehind other member within] at isLeaf
          cases isLeaf
  obtain ⟨after, done, kinds⟩ := insert_spec passable fresh
  refine ⟨after, done, insert_distinct built.distinct fresh done, ?_⟩
  intro query kind more
  rw [kinds]
  simp only [List.mem_append, List.mem_singleton]
  by_cases own : query = entry.path
  · subst own
    rw [if_pos rfl, Option.some.injEq]
    constructor
    · rintro rfl
      exact .inl ⟨entry, .inr rfl, rfl, rfl⟩
    · rintro (⟨other, member | rfl, same, rfl⟩ | ⟨rfl, other, member | rfl, within, different⟩)
      · exact absurd same.symm (apart other member)
      · rfl
      · exact nothingBehind other member within
      · exact absurd rfl different
  · rw [if_neg own]
    by_cases within : query <+: entry.path
    · rw [if_pos within, Option.some.injEq]
      constructor
      · rintro rfl
        exact .inr ⟨rfl, entry, .inr rfl, within, own⟩
      · rintro (⟨other, member | rfl, rfl, rfl⟩ | ⟨rfl, _⟩)
        · exact (noLeaf other member within).symm
        · exact absurd rfl own
        · rfl
    · rw [if_neg within, built.kinds query kind more]
      constructor
      · rintro (⟨other, member, same⟩ | ⟨same, other, member, front⟩)
        · exact .inl ⟨other, .inl member, same⟩
        · exact .inr ⟨same, other, .inl member, front⟩
      · rintro (⟨other, member | rfl, same⟩ | ⟨same, other, member | rfl, front⟩)
        · exact .inl ⟨other, member, same⟩
        · exact absurd same.1 own
        · exact .inr ⟨same, other, member, front⟩
        · exact absurd front.1 within

theorem Built.insertAll {done entries : List (Entry κ α)} {forest : Forest κ α} (built : Built done forest)
    (consistent : Consistent (done ++ entries)) :
    ∃ after, forest.insertAll entries = some after ∧ Built (done ++ entries) after := by
  induction entries generalizing done forest with
  | nil => exact ⟨forest, rfl, by rwa [List.append_nil]⟩
  | cons entry rest ih =>
      have moved : done ++ entry :: rest = (done ++ [entry]) ++ rest := by simp
      rw [moved] at consistent ⊢
      have first : Consistent (done ++ [entry]) := by
        refine ⟨(List.pairwise_append.mp consistent.distinct).1, ?_⟩
        intro one memberOne other memberOther
        exact consistent.passable one (List.mem_append_left _ memberOne) other
          (List.mem_append_left _ memberOther)
      obtain ⟨middle, inserted, builtMiddle⟩ := built.insert first
      obtain ⟨after, later, builtAfter⟩ := ih builtMiddle consistent
      exact ⟨after, by rw [insertAll_cons, inserted]; exact later, builtAfter⟩

/-- What a consistent set of entries builds does not depend on their order. -/
theorem insertAll_perm {entries others : List (Entry κ α)} (consistent : Consistent entries)
    (perm : entries.Perm others) :
    ∃ forest other, nil.insertAll entries = some forest ∧ nil.insertAll others = some other ∧
      Alike forest other := by
  obtain ⟨forest, built, spec⟩ := built_nil.insertAll (show Consistent ([] ++ entries) from consistent)
  obtain ⟨other, otherBuilt, otherSpec⟩ :=
    built_nil.insertAll (show Consistent ([] ++ others) from consistent.perm perm)
  refine ⟨forest, other, built, otherBuilt, alike_of_kinds spec.distinct otherSpec.distinct ?_⟩
  intro query
  by_cases empty : query = []
  · simp [empty]
  · apply Option.ext
    intro kind
    rw [spec.kinds query kind empty, otherSpec.kinds query kind empty]
    simp only [List.nil_append, perm.mem_iff]

end Order

end Forest

end ToyKernel.Library
