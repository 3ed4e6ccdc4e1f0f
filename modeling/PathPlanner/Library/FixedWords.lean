import Mathlib.Data.List.Basic
import Mathlib.Order.Basic

/-!
# Words of a fixed length

Each letter is written as a word of one length, and a list as the words of its letters. When the words
are ordered as the letters are, the writings are ordered as the lists are.

## Main definitions

* `FixedWords.OrdersWords`: words of a fixed length that are ordered as the letters

## Main results

* `append_lt_append_iff`: lists that begin with words of one length
* `OrdersWords.flatMap_lt_flatMap_iff`: **the order of writings** is that of the lists
-/

namespace FixedWords

variable {α β : Type*}

/-- **Lists that begin with words of one length** are ordered by the words first. -/
theorem append_lt_append_iff [LT β] {u v x y : List β} (h : u.length = v.length) :
    u ++ x < v ++ y ↔ u < v ∨ u = v ∧ x < y := by
  induction u generalizing v with
  | nil =>
    obtain rfl := List.length_eq_zero_iff.mp h.symm
    simp
  | cons a u ih =>
    cases v with
    | nil => cases h
    | cons b v =>
      have hlength : u.length = v.length := Nat.succ.inj h
      rw [List.cons_append, List.cons_append, List.cons_lt_cons_iff, List.cons_lt_cons_iff,
        ih hlength, List.cons.injEq]
      constructor
      · rintro (hlt | ⟨rfl, hlt | ⟨rfl, hrest⟩⟩)
        · exact Or.inl (Or.inl hlt)
        · exact Or.inl (Or.inr ⟨rfl, hlt⟩)
        · exact Or.inr ⟨⟨rfl, rfl⟩, hrest⟩
      · rintro ((hlt | ⟨rfl, hlt⟩) | ⟨⟨rfl, rfl⟩, hrest⟩)
        · exact Or.inl hlt
        · exact Or.inr ⟨rfl, Or.inl hlt⟩
        · exact Or.inr ⟨rfl, Or.inr ⟨rfl, hrest⟩⟩

/-- Words of one positive length, ordered as the letters are. -/
structure OrdersWords [LT α] [LT β] (word : α → List β) (length : ℕ) : Prop where
  pos : 0 < length
  length_eq : ∀ a, (word a).length = length
  lt_iff : ∀ a b, word a < word b ↔ a < b
  injective : Function.Injective word

namespace OrdersWords

variable [LT α] [LT β] {word : α → List β} {length : ℕ}

/-- **The order of writings** is that of the lists that are written. -/
theorem flatMap_lt_flatMap_iff (h : OrdersWords word length) {l l' : List α} :
    l.flatMap word < l'.flatMap word ↔ l < l' := by
  induction l generalizing l' with
  | nil =>
    cases l' with
    | nil => simp
    | cons b l' =>
      -- the writing of a list with a letter is not empty
      obtain ⟨c, rest, hword⟩ := List.exists_cons_of_length_pos ((h.length_eq b).symm ▸ h.pos)
      rw [List.flatMap_nil, List.flatMap_cons, hword, List.cons_append]
      exact iff_of_true (List.nil_lt_cons c _) (List.nil_lt_cons b l')
  | cons a l ih =>
    cases l' with
    | nil => exact iff_of_false (List.not_lt_nil _) (List.not_lt_nil _)
    | cons b l' =>
      have hlength : (word a).length = (word b).length := (h.length_eq a).trans (h.length_eq b).symm
      rw [List.flatMap_cons, List.flatMap_cons, append_lt_append_iff hlength,
        List.cons_lt_cons_iff, h.lt_iff, h.injective.eq_iff, ih]

end OrdersWords

end FixedWords
