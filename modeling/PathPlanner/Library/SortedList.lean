import Mathlib.Data.List.Destutter
import Mathlib.Data.List.Sort
import Mathlib.Data.List.Lex
import Mathlib.Data.List.TakeWhile
import Mathlib.Tactic

/-!
# Sorted lists and binary search

Records kept in a list sorted by a key are looked up by the lower bound of the key: the first
position whose record is not below it. On a sorted list that position decides whether the key
occurs.

## Main definitions

* `sortBy key xs`: the records in the order of their keys
* `lowerBound key xs v`, `findIndex? key xs v`, `find? key xs v`: lookup by key
* `binarySearch xs v`: membership in a sorted list
* `unique xs`: removal of adjacent equal entries
* `strictlySortedBy key xs`, `hasDuplicate xs`: the tests for repeated keys

## Main results

* `findIndex?_eq_some_iff`: on a strictly sorted list lookup finds exactly the position of a key
* `find?_isSome_iff`: on a sorted list lookup succeeds exactly on the keys that occur
* `binarySearch_sortBy`: searching a sorted copy is membership
* `hasDuplicate_eq_false_iff`: the duplicate test is `Nodup`
* `pairwise_lt_unique`: sorting and removing adjacent duplicates gives a strictly sorted list
-/

namespace SortedList

variable {α κ : Type} [LinearOrder κ]

/-! ## Sorting -/

/-- The records in the order of their keys; records of one key keep their order. -/
def sortBy (key : α → κ) (xs : List α) : List α := xs.insertionSort (key · ≤ key ·)

/-- Sorted records with pairwise different keys are strictly sorted. -/
theorem pairwise_lt_of_nodup {key : α → κ} {xs : List α} (hs : xs.Pairwise (key · ≤ key ·))
    (hn : (xs.map key).Nodup) : xs.Pairwise (key · < key ·) :=
  hs.imp₂ (fun _ _ hle hne => lt_of_le_of_ne hle hne) (List.pairwise_map.mp hn)

section Sorting

variable (key : α → κ) (xs : List α)

instance total_key : Std.Total (fun a b : α => key a ≤ key b) := ⟨fun a b => le_total (key a) (key b)⟩

instance isTrans_key : IsTrans α (fun a b : α => key a ≤ key b) := ⟨fun _ _ _ => le_trans⟩

theorem pairwise_sortBy : (sortBy key xs).Pairwise (key · ≤ key ·) := List.pairwise_insertionSort _ xs

theorem perm_sortBy : (sortBy key xs).Perm xs := List.perm_insertionSort _ xs

@[simp] theorem mem_sortBy {a : α} : a ∈ sortBy key xs ↔ a ∈ xs := (perm_sortBy key xs).mem_iff

@[simp] theorem length_sortBy : (sortBy key xs).length = xs.length := (perm_sortBy key xs).length_eq

/-- Sorting records with pairwise different keys sorts them strictly. -/
theorem pairwise_lt_sortBy (h : (xs.map key).Nodup) :
    (sortBy key xs).Pairwise (key · < key ·) :=
  pairwise_lt_of_nodup (pairwise_sortBy key xs) (((perm_sortBy key xs).map key).nodup_iff.mpr h)

variable {key xs} in
/-- Records are sorted strictly exactly when their keys are pairwise different. -/
theorem pairwise_lt_sortBy_iff : (sortBy key xs).Pairwise (key · < key ·) ↔ (xs.map key).Nodup := by
  refine ⟨fun h => ?_, pairwise_lt_sortBy key xs⟩
  rw [← ((perm_sortBy key xs).map key).nodup_iff]
  exact List.pairwise_map.mpr (h.imp ne_of_lt)

variable {key xs} in
/-- Records with pairwise different keys are sorted into one list, in whatever order they come. -/
theorem sortBy_eq_of_perm {ys : List α} (h : xs.Perm ys) (hn : (xs.map key).Nodup) :
    sortBy key xs = sortBy key ys := by
  refine ((perm_sortBy key xs).trans (h.trans (perm_sortBy key ys).symm)).eq_of_pairwise
    (fun a b _ _ hab hba => absurd hba (lt_asymm hab)) (pairwise_lt_sortBy key xs hn) ?_
  exact pairwise_lt_sortBy key ys ((h.map key).nodup_iff.mp hn)

/-- A list sorted by its entries does not depend on their order. -/
theorem sortBy_id_eq_of_perm {xs ys : List κ} (h : xs.Perm ys) : sortBy id xs = sortBy id ys :=
  ((perm_sortBy id xs).trans (h.trans (perm_sortBy id ys).symm)).eq_of_pairwise
    (fun _ _ _ _ => le_antisymm) (pairwise_sortBy id xs) (pairwise_sortBy id ys)

end Sorting

/-! ## Lookup -/

/-- The first position whose record is not below `v`. -/
def lowerBound (key : α → κ) (xs : List α) (v : κ) : ℕ :=
  (xs.takeWhile fun x => decide (key x < v)).length

/-- The position of the first record with key `v`, when the lower bound has that key. -/
def findIndex? (key : α → κ) (xs : List α) (v : κ) : Option ℕ :=
  match xs[lowerBound key xs v]? with
  | some x => if key x = v then some (lowerBound key xs v) else none
  | none => none

/-- The first record with key `v`. -/
def find? (key : α → κ) (xs : List α) (v : κ) : Option α :=
  match xs[lowerBound key xs v]? with
  | some x => if key x = v then some x else none
  | none => none

/-- Membership in a sorted list. -/
def binarySearch (xs : List κ) (v : κ) : Bool := (find? id xs v).isSome

section Lookup

variable {key : α → κ} {xs : List α} {v : κ}

/-- Records before the lower bound are below the key. -/
theorem lt_of_lt_lowerBound {i : ℕ} {x : α} (hi : i < lowerBound key xs v) (hx : xs[i]? = some x) :
    key x < v := by
  have hget : (xs.takeWhile fun x => decide (key x < v))[i]? = some x := by
    obtain ⟨t, ht⟩ := List.takeWhile_prefix (l := xs) (fun x => decide (key x < v))
    rw [← ht, List.getElem?_append_left hi] at hx
    exact hx
  have hlt := List.mem_takeWhile_imp (List.mem_of_getElem? hget)
  exact of_decide_eq_true hlt

/-- The record at the lower bound is not below the key. -/
theorem le_of_getElem?_lowerBound {x : α} (hx : xs[lowerBound key xs v]? = some x) : v ≤ key x := by
  induction xs with
  | nil => simp at hx
  | cons a xs ih =>
    by_cases ha : key a < v
    · simp only [lowerBound, List.takeWhile_cons, ha, decide_true, if_true, List.length_cons,
        List.getElem?_cons_succ] at hx
      exact ih hx
    · simp only [lowerBound, List.takeWhile_cons, ha, decide_false, Bool.false_eq_true, if_false,
        List.length_nil, List.getElem?_cons_zero, Option.some.injEq] at hx
      exact hx ▸ not_lt.mp ha

/-- On a sorted list the records from the lower bound on are not below the key. -/
theorem le_of_lowerBound_le (hs : xs.Pairwise (key · ≤ key ·)) {i : ℕ} {x : α}
    (hi : lowerBound key xs v ≤ i) (hx : xs[i]? = some x) : v ≤ key x := by
  have hlen : i < xs.length := (List.getElem?_eq_some_iff.mp hx).1
  have hb := List.getElem?_eq_getElem (l := xs) (i := lowerBound key xs v) (by omega)
  have hle := le_of_getElem?_lowerBound hb
  rcases hi.eq_or_lt with rfl | hlt
  · rw [hx] at hb
    exact Option.some.inj hb ▸ hle
  · obtain ⟨hx', rfl⟩ := List.getElem?_eq_some_iff.mp hx
    exact hle.trans (List.pairwise_iff_getElem.mp hs _ _ (by omega) hlen hlt)

theorem find?_eq_bind : find? key xs v = (findIndex? key xs v).bind (xs[·]?) := by
  unfold find? findIndex?
  cases h : xs[lowerBound key xs v]? with
  | none => rfl
  | some x => by_cases hk : key x = v <;> simp [hk, h]

/-- A position found holds a record with the key. -/
theorem getElem?_of_findIndex? {i : ℕ} (h : findIndex? key xs v = some i) :
    ∃ x, xs[i]? = some x ∧ key x = v := by
  unfold findIndex? at h
  split at h
  · next x hx =>
    split_ifs at h with hk
    exact ⟨x, by rw [← Option.some.inj h]; exact hx, hk⟩
  · cases h

/-- A record found is in the list and has the key. -/
theorem mem_of_find? {x : α} (h : find? key xs v = some x) : x ∈ xs ∧ key x = v := by
  unfold find? at h
  split at h
  · next y hy =>
    split_ifs at h with hk
    cases h
    exact ⟨List.mem_of_getElem? hy, hk⟩
  · cases h

/-- On a sorted list the lower bound of a key that occurs has that key. -/
theorem exists_lowerBound_eq (hs : xs.Pairwise (key · ≤ key ·)) {x : α} (hx : x ∈ xs)
    (hk : key x = v) : ∃ y, xs[lowerBound key xs v]? = some y ∧ key y = v := by
  obtain ⟨i, hi, rfl⟩ := List.mem_iff_getElem.mp hx
  have hget := List.getElem?_eq_getElem hi
  have hle : lowerBound key xs v ≤ i := by
    by_contra hlt
    have := lt_of_lt_lowerBound (not_le.mp hlt) hget
    rw [hk] at this
    exact lt_irrefl v this
  have hb := List.getElem?_eq_getElem (l := xs) (i := lowerBound key xs v) (by omega)
  refine ⟨_, hb, le_antisymm ?_ (le_of_getElem?_lowerBound hb)⟩
  rcases hle.eq_or_lt with he | hlt
  · simp only [he]
    exact hk.le
  · exact (List.pairwise_iff_getElem.mp hs _ _ (by omega) hi hlt).trans hk.le

/-- **Lookup on a sorted list** succeeds exactly on the keys that occur. -/
theorem find?_isSome_iff (hs : xs.Pairwise (key · ≤ key ·)) :
    (find? key xs v).isSome ↔ ∃ x ∈ xs, key x = v := by
  constructor
  · intro h
    obtain ⟨x, hx⟩ := Option.isSome_iff_exists.mp h
    exact ⟨x, mem_of_find? hx⟩
  · rintro ⟨x, hx, hk⟩
    obtain ⟨y, hy, hyk⟩ := exists_lowerBound_eq hs hx hk
    simp [find?, hy, hyk]

theorem find?_eq_none_iff (hs : xs.Pairwise (key · ≤ key ·)) :
    find? key xs v = none ↔ ∀ x ∈ xs, key x ≠ v := by
  rw [← Option.not_isSome_iff_eq_none, find?_isSome_iff hs]
  push Not
  rfl

/-- On a strictly sorted list a key occurs at one position only. -/
theorem eq_of_key_eq (hs : xs.Pairwise (key · < key ·)) {i j : ℕ} {x y : α}
    (hx : xs[i]? = some x) (hy : xs[j]? = some y) (hk : key x = key y) : i = j := by
  obtain ⟨hi, rfl⟩ := List.getElem?_eq_some_iff.mp hx
  obtain ⟨hj, rfl⟩ := List.getElem?_eq_some_iff.mp hy
  rcases lt_trichotomy i j with h | h | h
  · exact absurd (List.pairwise_iff_getElem.mp hs _ _ hi hj h) (hk ▸ lt_irrefl _)
  · exact h
  · exact absurd (List.pairwise_iff_getElem.mp hs _ _ hj hi h) (hk ▸ lt_irrefl _)

/-- **Lookup on a strictly sorted list** finds exactly the position of the key. -/
theorem findIndex?_eq_some_iff (hs : xs.Pairwise (key · < key ·)) {i : ℕ} :
    findIndex? key xs v = some i ↔ ∃ x, xs[i]? = some x ∧ key x = v := by
  refine ⟨getElem?_of_findIndex?, fun ⟨x, hx, hk⟩ => ?_⟩
  obtain ⟨y, hy, hyk⟩ := exists_lowerBound_eq (hs.imp le_of_lt) (List.mem_of_getElem? hx) hk
  rw [findIndex?, hy]
  simp only [hyk, if_true, eq_of_key_eq hs hy hx (hyk.trans hk.symm)]

theorem find?_eq_some_iff (hs : xs.Pairwise (key · < key ·)) {x : α} :
    find? key xs v = some x ↔ x ∈ xs ∧ key x = v := by
  refine ⟨mem_of_find?, fun ⟨hx, hk⟩ => ?_⟩
  obtain ⟨i, hi⟩ := List.mem_iff_getElem?.mp hx
  rw [find?_eq_bind, (findIndex?_eq_some_iff hs).mpr ⟨x, hi, hk⟩]
  exact hi

/-- The position of an entry of a strictly sorted list is the number of entries below it. -/
theorem getElem?_eq_some_iff_countP {xs : List κ} (hs : xs.Pairwise (· < ·)) {i : ℕ} {v : κ} :
    xs[i]? = some v ↔ v ∈ xs ∧ xs.countP (· < v) = i := by
  induction xs generalizing i with
  | nil => simp
  | cons a xs ih =>
    obtain ⟨ha, hs⟩ := List.pairwise_cons.mp hs
    cases i with
    | zero =>
      rw [List.getElem?_cons_zero, Option.some_inj]
      constructor
      · rintro rfl
        refine ⟨List.mem_cons_self, List.countP_eq_zero.mpr fun b hb => ?_⟩
        rcases List.mem_cons.mp hb with rfl | hb
        · simp
        · simpa using (ha b hb).le
      · rintro ⟨hv, hcount⟩
        rcases List.mem_cons.mp hv with rfl | hv
        · rfl
        · have hlt := List.countP_eq_zero.mp hcount a List.mem_cons_self
          exact absurd (ha v hv) (by simpa using hlt)
    | succ i =>
      rw [List.getElem?_cons_succ, ih hs, List.countP_cons, List.mem_cons]
      constructor
      · rintro ⟨hv, hcount⟩
        exact ⟨Or.inr hv, by rw [hcount, if_pos (by simpa using ha v hv)]⟩
      · rintro ⟨rfl | hv, hcount⟩
        · have hzero : xs.countP (· < v) = 0 :=
            List.countP_eq_zero.mpr fun b hb => by simpa using (ha b hb).le
          simp [hzero] at hcount
        · rw [if_pos (by simpa using ha v hv)] at hcount
          exact ⟨hv, by omega⟩

/-- With one record per key, a field with a default for absent keys is the field of the record
with the key, or the default. -/
theorem find?_elim_eq_iff {β : Type} {field : α → β} {d b : β}
    (hs : xs.Pairwise (key · ≤ key ·)) (hn : (xs.map key).Nodup) :
    ((find? key xs v).map field).getD d = b ↔
      (∃ x ∈ xs, key x = v ∧ field x = b) ∨ (b = d ∧ ∀ x ∈ xs, key x ≠ v) := by
  cases hf : find? key xs v with
  | none =>
    have habs := (find?_eq_none_iff hs).mp hf
    constructor
    · intro he
      exact Or.inr ⟨he.symm, habs⟩
    · rintro (⟨x, hx, hk, -⟩ | ⟨he, -⟩)
      · exact absurd hk (habs x hx)
      · exact he.symm
  | some x =>
    obtain ⟨hx, hk⟩ := mem_of_find? hf
    constructor
    · intro he
      exact Or.inl ⟨x, hx, hk, he⟩
    · rintro (⟨y, hy, hky, hfy⟩ | ⟨-, habs⟩)
      · rw [(find?_eq_some_iff (pairwise_lt_of_nodup hs hn)).mpr ⟨hy, hky⟩] at hf
        cases hf
        exact hfy
      · exact absurd hk (habs x hx)

/-- On a sorted list the records from the lower bound while the key lasts are the records with the
key. -/
theorem mem_segment (hs : xs.Pairwise (key · ≤ key ·)) {x : α} :
    x ∈ (xs.drop (lowerBound key xs v)).takeWhile (fun y => decide (key y = v)) ↔
      x ∈ xs ∧ key x = v := by
  constructor
  · intro h
    have hk := List.mem_takeWhile_imp h
    exact ⟨List.mem_of_mem_drop (List.takeWhile_subset _ h), of_decide_eq_true hk⟩
  · rintro ⟨hx, hk⟩
    obtain ⟨i, hi⟩ := List.mem_iff_getElem?.mp hx
    have hle : lowerBound key xs v ≤ i := by
      by_contra hlt
      exact absurd hk (lt_of_lt_lowerBound (not_le.mp hlt) hi).ne
    -- every record from the lower bound up to position `i` has the key
    have hseg : ∀ j, lowerBound key xs v + j ≤ i → ∀ y, xs[lowerBound key xs v + j]? = some y →
        key y = v := by
      intro j hj y hy
      refine le_antisymm ?_ (le_of_lowerBound_le hs (Nat.le_add_right _ _) hy)
      rcases hj.eq_or_lt with he | hlt
      · rw [he, hi] at hy
        cases hy
        exact hk.le
      · obtain ⟨hy', rfl⟩ := List.getElem?_eq_some_iff.mp hy
        obtain ⟨hi', rfl⟩ := List.getElem?_eq_some_iff.mp hi
        exact (List.pairwise_iff_getElem.mp hs _ _ hy' hi' hlt).trans hk.le
    have hd : (xs.drop (lowerBound key xs v))[i - lowerBound key xs v]? = some x := by
      rw [List.getElem?_drop, Nat.add_sub_cancel' hle]
      exact hi
    generalize hys : xs.drop (lowerBound key xs v) = ys at hd ⊢
    have hkey : ∀ j ≤ i - lowerBound key xs v, ∀ y, ys[j]? = some y → key y = v := by
      intro j hj y hy
      rw [← hys, List.getElem?_drop] at hy
      exact hseg j (by omega) y hy
    clear hys hseg
    generalize i - lowerBound key xs v = n at hd hkey
    induction ys generalizing n with
    | nil => simp at hd
    | cons y ys ih =>
      rw [List.takeWhile_cons, if_pos (by simpa using hkey 0 (Nat.zero_le _) y rfl)]
      cases n with
      | zero => exact List.mem_cons.mpr (Or.inl (Option.some.inj hd).symm)
      | succ n =>
        exact List.mem_cons_of_mem _
          (ih n hd fun j hj z hz => hkey (j + 1) (by omega) z hz)

end Lookup

theorem binarySearch_iff {xs : List κ} (hs : xs.Pairwise (· ≤ ·)) {v : κ} :
    binarySearch xs v = true ↔ v ∈ xs := by
  have h : (find? id xs v).isSome ↔ ∃ x ∈ xs, id x = v := find?_isSome_iff hs
  simpa [binarySearch] using h

/-- **Searching a sorted copy** is membership. -/
@[simp] theorem binarySearch_sortBy {xs : List κ} {v : κ} :
    binarySearch (sortBy id xs) v = true ↔ v ∈ xs := by
  rw [binarySearch_iff (pairwise_sortBy id xs), mem_sortBy]

/-! ## Repeated entries -/

/-- Removal of adjacent equal entries. -/
def unique [DecidableEq α] (xs : List α) : List α := xs.destutter (· ≠ ·)

/-- Whether each record has a smaller key than the next. -/
def strictlySortedBy (key : α → κ) : List α → Bool
  | [] => true
  | [_] => true
  | a :: b :: xs => decide (key a < key b) && strictlySortedBy key (b :: xs)

/-- Whether two adjacent entries agree on `same`. -/
def hasAdjacent (same : α → α → Bool) : List α → Bool
  | [] => false
  | [_] => false
  | a :: b :: xs => same a b || hasAdjacent same (b :: xs)

/-- Whether a sorted copy has two adjacent equal entries. -/
def hasDuplicate (xs : List κ) : Bool := hasAdjacent (fun a b => decide (a = b)) (sortBy id xs)

section Repeated

theorem strictlySortedBy_iff {key : α → κ} {xs : List α} :
    strictlySortedBy key xs = true ↔ xs.Pairwise (key · < key ·) := by
  have : IsTrans α (fun a b => key a < key b) := ⟨fun _ _ _ => lt_trans⟩
  rw [← List.isChain_iff_pairwise]
  induction xs with
  | nil => simp [strictlySortedBy]
  | cons a xs ih =>
    cases xs with
    | nil => simp [strictlySortedBy]
    | cons b xs =>
      simp only [strictlySortedBy, Bool.and_eq_true, decide_eq_true_eq, ih, List.isChain_cons_cons]

theorem hasAdjacent_eq_false_iff {same : α → α → Bool} {xs : List α} :
    hasAdjacent same xs = false ↔ xs.IsChain (fun a b => same a b = false) := by
  induction xs with
  | nil => simp [hasAdjacent]
  | cons a xs ih =>
    cases xs with
    | nil => simp [hasAdjacent]
    | cons b xs =>
      simp only [hasAdjacent, Bool.or_eq_false_iff, ih, List.isChain_cons_cons]

/-- A sorted list with no two adjacent equal entries is strictly sorted. -/
theorem pairwise_lt_of_isChain_ne {xs : List κ} (hs : xs.Pairwise (· ≤ ·))
    (hn : xs.IsChain (· ≠ ·)) : xs.Pairwise (· < ·) := by
  rw [← List.isChain_iff_pairwise] at hs ⊢
  induction xs with
  | nil => simp
  | cons a xs ih =>
    cases xs with
    | nil => simp
    | cons b xs =>
      rw [List.isChain_cons_cons] at hs hn ⊢
      exact ⟨lt_of_le_of_ne hs.1 hn.1, ih hs.2 hn.2⟩

/-- **The duplicate test** fails exactly on lists without repeated entries. -/
theorem hasDuplicate_eq_false_iff {xs : List κ} : hasDuplicate xs = false ↔ xs.Nodup := by
  rw [hasDuplicate, hasAdjacent_eq_false_iff, ← (perm_sortBy id xs).nodup_iff]
  simp only [decide_eq_false_iff_not]
  constructor
  · intro h
    exact (pairwise_lt_of_isChain_ne (pairwise_sortBy id xs) h).imp ne_of_lt
  · intro h
    exact List.Pairwise.isChain h

theorem unique_sublist [DecidableEq α] (xs : List α) : (unique xs).Sublist xs :=
  List.destutter_sublist _ xs

theorem unique_of_pairwise {xs : List κ} (hs : xs.Pairwise (· ≤ ·)) : unique xs = xs.dedup :=
  hs.destutter_eq_dedup

/-- **Removing adjacent duplicates** of a sorted list leaves its entries, strictly sorted. -/
theorem pairwise_lt_unique {xs : List κ} (hs : xs.Pairwise (· ≤ ·)) :
    (unique xs).Pairwise (· < ·) :=
  pairwise_lt_of_isChain_ne (hs.sublist (unique_sublist xs)) (List.isChain_destutter _ xs)

theorem mem_unique {xs : List κ} (hs : xs.Pairwise (· ≤ ·)) {a : κ} : a ∈ unique xs ↔ a ∈ xs := by
  rw [unique_of_pairwise hs, List.mem_dedup]

end Repeated

end SortedList
