import Mathlib.Data.List.AList
import Mathlib.Data.Set.Insert
import Mathlib.Tactic

/-!
# Bounded reverse indexes

A reverse index files keys under the subjects that they depend on: each subject has a bucket of
keys. The number of filed entries is counted and bounded; when the bound stops a key from being
filed under all of its subjects, the index is marked incomplete for good.

## Main definitions

* `ReverseIndex`: the buckets, the count and the mark
* `ReverseIndex.add`, `ReverseIndex.drop`: file a key under subjects, and take it out
* `ReverseIndex.Tracks`: the index is sound for a set of keys, and complete while it is marked so

## Main results

* `ReverseIndex.Tracks.add`, `ReverseIndex.Tracks.drop`: filing a new key and taking a key out
* `ReverseIndex.Tracks.mem_bucket_iff`: a complete index answers exactly
-/

/-- A reverse index from subjects `σ` to keys `κ`. -/
structure ReverseIndex (σ κ : Type) [DecidableEq σ] where
  buckets : AList (fun _ : σ => List κ) := ∅
  entries : ℕ := 0
  complete : Bool := true

namespace ReverseIndex

variable {σ κ : Type} [DecidableEq σ] [DecidableEq κ]

/-! ## Operations -/

/-- The keys filed under a subject. -/
def bucket (index : ReverseIndex σ κ) (s : σ) : List κ := (index.buckets.lookup s).getD []

/-- The number of entries in all buckets. -/
def size (index : ReverseIndex σ κ) : ℕ := (index.buckets.entries.map fun e => e.2.length).sum

/-- One more entry. -/
def pushEntry (key : κ) (index : ReverseIndex σ κ) (s : σ) : ReverseIndex σ κ :=
  { index with
    buckets := index.buckets.insert s (index.bucket s ++ [key])
    entries := index.entries + 1 }

/-- File a key under subjects one after the other, as long as the bound is not reached. -/
def add (limit : ℕ) (key : κ) : List σ → ReverseIndex σ κ → ReverseIndex σ κ
  | [], index => index
  | s :: subjects, index =>
    if index.entries ≥ limit then { index with complete := false }
    else add limit key subjects (index.pushEntry key s)

/-- Take all entries of a key out of one bucket; an empty bucket is removed. -/
def dropEntry (key : κ) (index : ReverseIndex σ κ) (s : σ) : ReverseIndex σ κ :=
  match index.buckets.lookup s with
  | none => index
  | some bucket =>
    let rest := bucket.filter (· ≠ key)
    { index with
      buckets := if rest.isEmpty then index.buckets.erase s else index.buckets.insert s rest
      entries := index.entries - (bucket.length - rest.length) }

/-- Take a key out of the buckets of the subjects. -/
def drop (key : κ) (subjects : List σ) (index : ReverseIndex σ κ) : ReverseIndex σ κ :=
  subjects.foldl (dropEntry key) index

/-! ## Sizes -/

variable {index : ReverseIndex σ κ} {key k : κ} {s t : σ} {subjects : List σ} {limit : ℕ}

omit [DecidableEq κ] in
theorem length_bucket_add_sum_kerase (entries : List (Σ _ : σ, List κ)) :
    ((entries.dlookup s).getD []).length + ((entries.kerase s).map fun e => e.2.length).sum =
      (entries.map fun e => e.2.length).sum := by
  induction entries with
  | nil => rfl
  | cons e entries ih =>
    obtain ⟨t, bucket⟩ := e
    by_cases h : s = t
    · subst h
      rw [List.dlookup_cons_eq, List.kerase_cons_eq (s := (⟨s, bucket⟩ : Σ _ : σ, List κ)) rfl,
        List.map_cons, List.sum_cons, Option.getD_some]
    · rw [List.dlookup_cons_ne entries (⟨t, bucket⟩ : Σ _ : σ, List κ) h,
        List.kerase_cons_ne (s := (⟨t, bucket⟩ : Σ _ : σ, List κ)) h, List.map_cons, List.map_cons,
        List.sum_cons, List.sum_cons]
      omega

omit [DecidableEq κ] in
/-- The entries are those of one bucket and the others. -/
theorem size_eq (index : ReverseIndex σ κ) (s : σ) : index.size =
    (index.bucket s).length + ((index.buckets.erase s).entries.map fun e => e.2.length).sum :=
  (length_bucket_add_sum_kerase index.buckets.entries).symm

omit [DecidableEq κ] in
theorem size_pushEntry : (index.pushEntry key s).size = index.size + 1 := by
  rw [size, pushEntry, AList.entries_insert, List.map_cons, List.sum_cons, List.length_append,
    List.length_singleton, size_eq index s]
  exact Nat.add_right_comm _ _ _

theorem size_dropEntry : (index.dropEntry key s).size + (index.bucket s).length =
    index.size + ((index.bucket s).filter (· ≠ key)).length := by
  rw [size_eq index s]
  cases h : index.buckets.lookup s with
  | none =>
    have hb : index.bucket s = [] := by rw [bucket, h, Option.getD_none]
    rw [hb, dropEntry, h]
    dsimp only
    rw [size_eq index s, hb]
    rfl
  | some bucket =>
    have hb : index.bucket s = bucket := by rw [ReverseIndex.bucket, h, Option.getD_some]
    rw [hb, dropEntry, h]
    dsimp only
    rw [size]
    split_ifs with hrest
    · rw [List.isEmpty_iff.mp hrest, List.length_nil]
      dsimp only
      omega
    · rw [AList.entries_insert, List.map_cons, List.sum_cons]
      dsimp only [AList.erase]
      omega

/-! ## Buckets -/

omit [DecidableEq κ] in
theorem bucket_pushEntry :
    (index.pushEntry key s).bucket t = if t = s then index.bucket s ++ [key] else index.bucket t := by
  unfold bucket pushEntry
  split_ifs with h
  · subst h
    rw [AList.lookup_insert]
    rfl
  · rw [AList.lookup_insert_ne h]

theorem bucket_dropEntry : (index.dropEntry key s).bucket t =
    if t = s then (index.bucket s).filter (· ≠ key) else index.bucket t := by
  unfold dropEntry
  cases h : index.buckets.lookup s with
  | none =>
    split_ifs with hts
    · subst hts
      rw [bucket, h]
      rfl
    · rfl
  | some bucket =>
    have hb : index.bucket s = bucket := by rw [ReverseIndex.bucket, h, Option.getD_some]
    rw [hb]
    dsimp only [ReverseIndex.bucket]
    split_ifs with hrest hts hts
    · subst hts
      rw [AList.lookup_erase, List.isEmpty_iff.mp hrest]
      rfl
    · rw [AList.lookup_erase_ne hts]
    · subst hts
      rw [AList.lookup_insert]
      rfl
    · rw [AList.lookup_insert_ne hts]

theorem mem_bucket_drop : k ∈ (index.drop key subjects).bucket t ↔
    k ∈ index.bucket t ∧ ¬ (k = key ∧ t ∈ subjects) := by
  induction subjects generalizing index with
  | nil => simp [drop]
  | cons s subjects ih =>
    rw [drop, List.foldl_cons, ← drop, ih, bucket_dropEntry]
    by_cases hts : t = s
    · subst hts
      simp only [if_true, List.mem_filter, decide_eq_true_eq, List.mem_cons, true_or, and_true]
      tauto
    · simp [hts]

omit [DecidableEq κ] in
theorem mem_bucket_add_of_mem (h : k ∈ index.bucket t) :
    k ∈ (index.add limit key subjects).bucket t := by
  induction subjects generalizing index with
  | nil => exact h
  | cons s subjects ih =>
    unfold add
    split_ifs
    · exact h
    · apply ih
      rw [bucket_pushEntry]
      split_ifs with hts
      · subst hts
        exact List.mem_append_left _ h
      · exact h

omit [DecidableEq κ] in
theorem of_mem_bucket_add (h : k ∈ (index.add limit key subjects).bucket t) :
    k ∈ index.bucket t ∨ k = key ∧ t ∈ subjects := by
  induction subjects generalizing index with
  | nil => exact Or.inl h
  | cons s subjects ih =>
    unfold add at h
    split_ifs at h
    · exact Or.inl h
    · rcases ih h with h | ⟨hk, ht⟩
      · rw [bucket_pushEntry] at h
        split_ifs at h with hts
        · subst hts
          rcases List.mem_append.mp h with h | h
          · exact Or.inl h
          · exact Or.inr ⟨List.mem_singleton.mp h, List.mem_cons_self⟩
        · exact Or.inl h
      · exact Or.inr ⟨hk, List.mem_cons_of_mem _ ht⟩

omit [DecidableEq κ] in
/-- An index that is still complete has filed the key under all subjects. -/
theorem mem_bucket_of_complete (h : (index.add limit key subjects).complete = true) :
    index.complete = true ∧ ∀ t ∈ subjects, key ∈ (index.add limit key subjects).bucket t := by
  induction subjects generalizing index with
  | nil => exact ⟨h, fun t ht => absurd ht List.not_mem_nil⟩
  | cons s subjects ih =>
    unfold add at h ⊢
    split_ifs at h ⊢
    obtain ⟨hc, hall⟩ := ih h
    refine ⟨hc, fun t ht => ?_⟩
    rcases List.mem_cons.mp ht with rfl | ht
    · apply mem_bucket_add_of_mem
      rw [bucket_pushEntry, if_pos rfl]
      exact List.mem_append_right _ (List.mem_singleton_self key)
    · exact hall t ht

@[simp] theorem drop_complete : (index.drop key subjects).complete = index.complete := by
  induction subjects generalizing index with
  | nil => rfl
  | cons s subjects ih =>
    rw [drop, List.foldl_cons, ← drop, ih]
    unfold dropEntry
    split <;> rfl

/-! ## The count -/

omit [DecidableEq κ] in
theorem counted_add (hc : index.entries = index.size) (hl : index.entries ≤ limit) :
    (index.add limit key subjects).entries = (index.add limit key subjects).size ∧
      (index.add limit key subjects).entries ≤ limit := by
  induction subjects generalizing index with
  | nil => exact ⟨hc, hl⟩
  | cons s subjects ih =>
    unfold add
    split_ifs with h
    · exact ⟨hc, hl⟩
    · apply ih
      · rw [size_pushEntry, ← hc]
        rfl
      · change index.entries + 1 ≤ limit
        omega

theorem counted_drop (hc : index.entries = index.size) :
    (index.drop key subjects).entries = (index.drop key subjects).size ∧
      (index.drop key subjects).entries ≤ index.entries := by
  induction subjects generalizing index with
  | nil => exact ⟨hc, le_rfl⟩
  | cons s subjects ih =>
    have hentries : (index.dropEntry key s).entries = index.entries -
        ((index.bucket s).length - ((index.bucket s).filter (· ≠ key)).length) := by
      unfold dropEntry bucket
      cases index.buckets.lookup s <;> simp
    have hsize : (index.dropEntry key s).size + _ = _ := size_dropEntry
    have hfilter := List.length_filter_le (· ≠ key) (index.bucket s)
    have hbucket : (index.bucket s).length ≤ index.size := size_eq index s ▸ Nat.le_add_right _ _
    rw [drop, List.foldl_cons, ← drop]
    have hcounted : (index.dropEntry key s).entries = (index.dropEntry key s).size := by omega
    obtain ⟨h, hle⟩ := ih hcounted
    exact ⟨h, by omega⟩

/-! ## Tracking a set of keys -/

/-- The index files only keys of the set, each under subjects that it depends on; the count is right
and within the bound; and while the index is complete every such key is filed under all of them. -/
structure Tracks (limit : ℕ) (keys : Set κ) (deps : κ → List σ) (index : ReverseIndex σ κ) :
    Prop where
  counted : index.entries = index.size
  bounded : index.entries ≤ limit
  sound : ∀ s, ∀ k ∈ index.bucket s, k ∈ keys ∧ s ∈ deps k
  filed : index.complete = true → ∀ k ∈ keys, ∀ s ∈ deps k, k ∈ index.bucket s

variable {keys : Set κ} {deps : κ → List σ}

omit [DecidableEq κ] in
/-- The empty index tracks no key. -/
theorem tracks_empty : Tracks limit ∅ deps ({} : ReverseIndex σ κ) where
  counted := rfl
  bounded := Nat.zero_le _
  sound := fun _ k h => absurd h (List.not_mem_nil (a := k))
  filed := fun _ k hk => absurd hk (Set.notMem_empty k)

omit [DecidableEq κ] in
/-- **Filing a key** under all of its subjects. -/
theorem Tracks.add (h : Tracks limit keys deps index) :
    Tracks limit (insert key keys) deps (index.add limit key (deps key)) where
  counted := (counted_add h.counted h.bounded).1
  bounded := (counted_add h.counted h.bounded).2
  sound := by
    intro s k hk
    rcases of_mem_bucket_add hk with hk | ⟨rfl, hs⟩
    · exact ⟨Set.mem_insert_of_mem _ (h.sound s k hk).1, (h.sound s k hk).2⟩
    · exact ⟨Set.mem_insert k keys, hs⟩
  filed := by
    intro hcomplete k hk s hs
    obtain ⟨hc, hall⟩ := mem_bucket_of_complete hcomplete
    rcases Set.mem_insert_iff.mp hk with rfl | hk
    · exact hall s hs
    · exact mem_bucket_add_of_mem (h.filed hc k hk s hs)

/-- **Taking a key out** of the buckets of its subjects. -/
theorem Tracks.drop (h : Tracks limit keys deps index) :
    Tracks limit (keys \ {key}) deps (index.drop key (deps key)) where
  counted := (counted_drop h.counted).1
  bounded := (counted_drop h.counted).2.trans h.bounded
  sound := by
    intro s k hk
    obtain ⟨hk, hne⟩ := mem_bucket_drop.mp hk
    obtain ⟨hkeys, hs⟩ := h.sound s k hk
    -- an entry of the key itself could only stand in a bucket of its subjects
    refine ⟨⟨hkeys, fun heq => hne ⟨heq, ?_⟩⟩, hs⟩
    rw [Set.mem_singleton_iff.mp heq] at hs
    exact hs
  filed := by
    intro hcomplete k hk s hs
    rw [drop_complete] at hcomplete
    exact mem_bucket_drop.mpr ⟨h.filed hcomplete k hk.1 s hs, fun heq => hk.2 heq.1⟩

omit [DecidableEq κ] in
/-- **A complete index answers exactly**: the bucket of a subject lists the keys that depend on
it. -/
theorem Tracks.mem_bucket_iff (h : Tracks limit keys deps index) (hc : index.complete = true) :
    k ∈ index.bucket s ↔ k ∈ keys ∧ s ∈ deps k :=
  ⟨h.sound s k, fun ⟨hk, hs⟩ => h.filed hc k hk s hs⟩

end ReverseIndex
