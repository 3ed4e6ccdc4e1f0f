import Mathlib.Data.List.Basic
import Mathlib.Tactic.Ring

/-!
# Folding a list block by block

A list is divided into blocks of `n` entries, with fewer than `n` entries left over. An iterated
construction folds a function over the blocks; what it makes of two lists one after the other is
found from what it makes of the first one and of the entries left over.

## Main definitions

* `block n xs i`: the `i`-th block
* `foldBlocks n f s xs`: the fold over the whole blocks
* `rest n xs`: the entries behind the last whole block

## Main results

* `foldBlocks_append`, `rest_append`: **a list is folded in two parts**
* `foldBlocks_flatMap`: entries that are spelled with a fixed number of letters
-/

namespace BlockFold

variable {σ α β : Type*} {n : ℕ} {f : σ → List α → σ} {s : σ} {xs ys : List α}

/-- The `i`-th block of `n` entries. -/
def block (n : ℕ) (xs : List α) (i : ℕ) : List α := (xs.drop (n * i)).take n

/-- The fold over the whole blocks. -/
def foldBlocks (n : ℕ) (f : σ → List α → σ) (s : σ) (xs : List α) : σ :=
  (List.range (xs.length / n)).foldl (fun s i => f s (block n xs i)) s

/-- The entries behind the last whole block. -/
def rest (n : ℕ) (xs : List α) : List α := xs.drop (n * (xs.length / n))

theorem length_rest (n : ℕ) (xs : List α) : (rest n xs).length = xs.length % n := by
  have := Nat.mod_add_div xs.length n
  rw [rest, List.length_drop]
  omega

/-! ## Short lists -/

theorem foldBlocks_of_length_lt (h : xs.length < n) : foldBlocks n f s xs = s := by
  rw [foldBlocks, Nat.div_eq_of_lt h]
  rfl

theorem rest_of_length_lt (h : xs.length < n) : rest n xs = xs := by
  rw [rest, Nat.div_eq_of_lt h, Nat.mul_zero, List.drop_zero]

/-! ## The first block -/

theorem block_succ (h : xs.length = n) (i : ℕ) : block n (xs ++ ys) (i + 1) = block n ys i := by
  rw [block, block, Nat.mul_succ, Nat.add_comm, ← h, ← List.drop_drop, List.drop_left]

/-- A first block is folded first. -/
theorem foldBlocks_append_of_length_eq (hn : 0 < n) (h : xs.length = n) :
    foldBlocks n f s (xs ++ ys) = foldBlocks n f (f s xs) ys := by
  have hcount : (xs ++ ys).length / n = ys.length / n + 1 := by
    rw [List.length_append, h, Nat.add_div_left _ hn]
  have hfirst : block n (xs ++ ys) 0 = xs := by
    rw [block, Nat.mul_zero, List.drop_zero, ← h, List.take_left]
  rw [foldBlocks, hcount, List.range_succ_eq_map, List.foldl_cons, List.foldl_map, hfirst]
  simp only [Nat.succ_eq_add_one, block_succ h]
  rfl

theorem rest_append_of_length_eq (hn : 0 < n) (h : xs.length = n) :
    rest n (xs ++ ys) = rest n ys := by
  rw [rest, rest, List.length_append, h, Nat.add_div_left _ hn, Nat.mul_succ, Nat.add_comm, ← h,
    ← List.drop_drop, List.drop_left]

/-! ## Two parts -/

/-- **A list is folded in two parts**: the second one begins with the entries left over. -/
theorem foldBlocks_append (hn : 0 < n) (s : σ) (xs ys : List α) :
    foldBlocks n f s (xs ++ ys) = foldBlocks n f (foldBlocks n f s xs) (rest n xs ++ ys) ∧
      rest n (xs ++ ys) = rest n (rest n xs ++ ys) := by
  induction hlength : xs.length using Nat.strong_induction_on generalizing s xs with
  | _ length ih =>
    rcases lt_or_ge xs.length n with hlt | hge
    · rw [foldBlocks_of_length_lt hlt, rest_of_length_lt hlt]
      exact ⟨rfl, rfl⟩
    · -- the first block is split off
      have htake : (xs.take n).length = n := List.length_take_of_le hge
      obtain ⟨hfold, hrest⟩ := ih (xs.drop n).length
        (by rw [List.length_drop]; omega) (f s (xs.take n)) (xs.drop n) rfl
      have hsplit : xs = xs.take n ++ xs.drop n := (List.take_append_drop n xs).symm
      constructor
      · conv_lhs => rw [hsplit, List.append_assoc, foldBlocks_append_of_length_eq hn htake, hfold]
        conv_rhs => rw [hsplit, foldBlocks_append_of_length_eq hn htake,
          rest_append_of_length_eq hn htake]
      · conv_lhs => rw [hsplit, List.append_assoc, rest_append_of_length_eq hn htake, hrest]
        conv_rhs => rw [hsplit, rest_append_of_length_eq hn htake]

/-- A part that fills the entries left over up to one block. -/
theorem foldBlocks_append_of_rest (hn : 0 < n) (h : (rest n xs).length + ys.length = n) :
    foldBlocks n f s (xs ++ ys) = f (foldBlocks n f s xs) (rest n xs ++ ys) ∧
      rest n (xs ++ ys) = [] := by
  rw [← List.length_append] at h
  obtain ⟨hfold, hrest⟩ := foldBlocks_append (f := f) hn s xs ys
  rw [hfold, hrest, ← List.append_nil (rest n xs ++ ys), foldBlocks_append_of_length_eq hn h,
    rest_append_of_length_eq hn h, List.append_nil]
  exact ⟨foldBlocks_of_length_lt hn, List.drop_nil⟩

/-- A part that leaves room in the block. -/
theorem foldBlocks_append_of_lt (h : (rest n xs).length + ys.length < n) :
    foldBlocks n f s (xs ++ ys) = foldBlocks n f s xs ∧ rest n (xs ++ ys) = rest n xs ++ ys := by
  have hn : 0 < n := by omega
  rw [← List.length_append] at h
  obtain ⟨hfold, hrest⟩ := foldBlocks_append (f := f) hn s xs ys
  rw [hfold, hrest, foldBlocks_of_length_lt h, rest_of_length_lt h]
  exact ⟨rfl, rfl⟩

/-! ## Letters -/

section Letters

variable {k : ℕ} {spell : α → List β} (hspell : ∀ a, (spell a).length = k)

include hspell

theorem length_flatMap_spell (xs : List α) : (xs.flatMap spell).length = k * xs.length := by
  induction xs with
  | nil => rfl
  | cons a xs ih =>
    rw [List.flatMap_cons, List.length_append, hspell, ih, List.length_cons]
    ring

theorem drop_flatMap_spell (xs : List α) (i : ℕ) :
    (xs.flatMap spell).drop (k * i) = (xs.drop i).flatMap spell := by
  induction i generalizing xs with
  | zero => rfl
  | succ i ih =>
    cases xs with
    | nil => exact List.drop_nil
    | cons a xs =>
      have hlength : k * (i + 1) = (spell a).length + k * i := by rw [hspell]; ring
      rw [List.flatMap_cons, hlength, ← List.drop_drop, List.drop_left, ih, List.drop_succ_cons]

theorem take_flatMap_spell (xs : List α) (i : ℕ) :
    (xs.flatMap spell).take (k * i) = (xs.take i).flatMap spell := by
  induction i generalizing xs with
  | zero => rfl
  | succ i ih =>
    cases xs with
    | nil => exact List.take_nil
    | cons a xs =>
      have hlength : k * (i + 1) = (spell a).length + k * i := by rw [hspell]; ring
      rw [List.flatMap_cons, hlength, List.take_length_add_append, ih, List.take_succ_cons,
        List.flatMap_cons]

theorem block_flatMap_spell (xs : List α) (i : ℕ) :
    block (k * n) (xs.flatMap spell) i = (block n xs i).flatMap spell := by
  rw [block, block, Nat.mul_assoc, drop_flatMap_spell hspell, take_flatMap_spell hspell]

/-- **Entries that are spelled with a fixed number of letters** are folded as their letters are. -/
theorem foldBlocks_flatMap (hk : 0 < k) {f : σ → List β → σ} (s : σ) (xs : List α) :
    foldBlocks (k * n) f s (xs.flatMap spell) =
      foldBlocks n (fun s xs => f s (xs.flatMap spell)) s xs := by
  rw [foldBlocks, foldBlocks, length_flatMap_spell hspell, Nat.mul_div_mul_left _ _ hk]
  simp only [block_flatMap_spell hspell]

end Letters

end BlockFold
