import Mathlib.Data.List.Forall2
import PathPlanner.Library.Decoder

/-!
# Self-delimiting words

A function from values to words determines a relation when two words that are the same as far as both
are read belong to related values, and end at the same place. Where the relation is equality, the
words are self-delimiting: written one after the other they can be taken apart again. What determines
relations can be put together field by field.

## Main definitions

* `Determines`: equal beginnings are words of related values
* `SelfDelimiting`: equal beginnings are words of the same value

## Main results

* `Determines.append`, `Determines.field`: the rules for the fields of a record
* `Determines.flatMap`, `SelfDelimiting.flatMap`: the rules for lists of one length
* `Determines.of_length`: the rule for parts of fixed length
* `Decoder.Spells.selfDelimiting`: what a decoder spells is self-delimiting
-/

variable {α β ρ : Type}

/-- Whenever two lists that start with the words of acceptable values are equal, the values are
related and the lists go on alike. -/
def Determines (P : ρ → Prop) (E : ρ → ρ → Prop) (word : ρ → List β) : Prop :=
  ∀ a b s t, P a → P b → word a ++ s = word b ++ t → E a b ∧ s = t

/-- The words determine the acceptable values. -/
abbrev SelfDelimiting (P : α → Prop) (word : α → List β) : Prop := Determines P (· = ·) word

namespace Determines

variable {P : ρ → Prop} {Q : α → Prop} {E F : ρ → ρ → Prop} {word word' : ρ → List β}

/-- Whole words. -/
theorem of_eq (h : Determines P E word) {a b : ρ} (ha : P a) (hb : P b) (heq : word a = word b) :
    E a b :=
  (h a b [] [] ha hb (congrArg (· ++ []) heq)).1

/-- A part that does not depend on the value determines nothing. -/
theorem literal (l : List β) : Determines P (fun _ _ => True) (fun _ => l) :=
  fun _ _ _ _ _ _ heq => ⟨trivial, List.append_cancel_left heq⟩

/-- **One part after another**: both determine something. -/
theorem append (h : Determines P E word) (h' : Determines P F word') :
    Determines P (fun a b => E a b ∧ F a b) (fun a => word a ++ word' a) := by
  intro a b s t ha hb heq
  rw [List.append_assoc, List.append_assoc] at heq
  obtain ⟨hfirst, hrest⟩ := h a b _ _ ha hb heq
  obtain ⟨hsecond, hend⟩ := h' a b s t ha hb hrest
  exact ⟨⟨hfirst, hsecond⟩, hend⟩

/-- **A field** of a record. -/
theorem field {R : α → α → Prop} {w : α → List β} (get : ρ → α) (h : Determines Q R w)
    (hP : ∀ r, P r → Q (get r)) :
    Determines P (fun a b => R (get a) (get b)) (fun r => w (get r)) :=
  fun a b s t ha hb heq => h (get a) (get b) s t (hP a ha) (hP b hb) heq

/-- What is determined may be said in another way. -/
theorem mono (h : Determines P E word) (hE : ∀ a b, P a → P b → E a b → F a b) :
    Determines P F word := fun a b s t ha hb heq =>
  (h a b s t ha hb heq).imp_left (hE a b ha hb)

/-- **A part of fixed length** ends at the same place, whatever it says. -/
theorem of_length {n : ℕ} (h : ∀ a, P a → (word a).length = n) :
    Determines P (fun a b => word a = word b) word :=
  fun a b _ _ ha hb heq => List.append_inj heq ((h a ha).trans (h b hb).symm)

/-- **Lists of one length**, element by element. -/
theorem flatMap (h : Determines P E word) {l l' : List ρ} {s t : List β}
    (hl : ∀ a ∈ l, P a) (hl' : ∀ a ∈ l', P a) (hlength : l.length = l'.length)
    (heq : l.flatMap word ++ s = l'.flatMap word ++ t) : List.Forall₂ E l l' ∧ s = t := by
  induction l generalizing l' with
  | nil =>
    obtain rfl := List.length_eq_zero_iff.mp hlength.symm
    exact ⟨.nil, heq⟩
  | cons a l ih =>
    cases l' with
    | nil => cases hlength
    | cons b l' =>
      obtain ⟨ha, hl⟩ := List.forall_mem_cons.mp hl
      obtain ⟨hb, hl'⟩ := List.forall_mem_cons.mp hl'
      rw [List.flatMap_cons, List.flatMap_cons, List.append_assoc, List.append_assoc] at heq
      obtain ⟨hab, hrest⟩ := h a b _ _ ha hb heq
      obtain ⟨htail, hend⟩ := ih hl hl' (Nat.succ.inj hlength) hrest
      exact ⟨.cons hab htail, hend⟩

end Determines

namespace SelfDelimiting

variable {P : α → Prop} {word : α → List β}

/-- **Lists of one length**, element by element. -/
theorem flatMap (h : SelfDelimiting P word) {l l' : List α} {s t : List β}
    (hl : ∀ a ∈ l, P a) (hl' : ∀ a ∈ l', P a) (hlength : l.length = l'.length)
    (heq : l.flatMap word ++ s = l'.flatMap word ++ t) : l = l' ∧ s = t := by
  have hboth := Determines.flatMap h hl hl' hlength heq
  rwa [List.forall₂_eq_eq_eq] at hboth

end SelfDelimiting

/-- **What a decoder spells** is self-delimiting. -/
theorem Decoder.Spells.selfDelimiting {σ ε : Type} [Source σ β] {d : Decoder σ ε α}
    {P : α → Prop} {word : α → List β} (h : d.Spells P word)
    (hsource : ∀ l : List β, ∃ s : σ, Source.rest s = l) : SelfDelimiting P word := by
  intro a b s t ha hb heq
  obtain ⟨source, hrest⟩ := hsource (word a ++ s)
  have hfirst := (h.run_iff source a _).mpr ⟨ha, hrest ▸ List.prefix_append _ _, rfl⟩
  have hsecond := (h.run_iff source b _).mpr ⟨hb, hrest ▸ heq ▸ List.prefix_append _ _, rfl⟩
  -- the decoder returns one value
  obtain ⟨rfl, -⟩ := Prod.mk.inj (Except.ok.inj (hfirst.symm.trans hsecond))
  exact ⟨rfl, List.append_cancel_left heq⟩
