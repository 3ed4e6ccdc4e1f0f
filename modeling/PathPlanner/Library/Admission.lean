import Mathlib.Data.List.Forall2
import Mathlib.Data.List.Perm.Basic
import Mathlib.Tactic

/-!
# Admission in the order of arrival

Records arrive one after the other, each on an occasion. Those that pass the test of the occasion are
admitted, in a form of their own, until a bound is reached, and the others are turned away. So which
records are admitted may depend on the order of arrival, and on who arrives on which occasion. It does
not when nobody is admitted at all, or when the occasion makes no difference and there is room for all
that pass, or they all have the same form.

## Main definitions

* `admitted`: the forms that are admitted
* `Reoffers`: the same records in another order, on the same occasions
* `LeavesNoChoice`: there is no choice among the records that pass the test

## Main results

* `exists_perm_admitted_eq`: what is admitted in one order can be admitted in every order of its own
* `Reoffers.admitted_perm`: without a choice the same forms are admitted in every order
* `exists_reoffers_not_perm`: with a choice, some order admits other forms than the given ones
-/

namespace Admission

variable {α β : Type}

/-- The forms of the records that pass the test. -/
def eligible (p : α → Bool) (f : α → β) (offers : List α) : List β := (offers.filter p).map f

/-- The forms that are admitted: the first ones that are eligible, until the bound is reached. -/
def admitted (p : α → Bool) (f : α → β) (bound : ℕ) (offers : List α) : List β :=
  (eligible p f offers).take bound

/-- There is room for all, or all are the same. -/
def IsForced (bound : ℕ) (eligible : List β) : Prop :=
  eligible.length ≤ bound ∨ ∀ x ∈ eligible, ∀ y ∈ eligible, x = y

variable {p : α → Bool} {f : α → β} {bound : ℕ} {offers offers' : List α} {kept : List β}

theorem eligible_perm (h : offers'.Perm offers) :
    (eligible p f offers').Perm (eligible p f offers) :=
  (h.filter p).map f

/-! ## Arrivals -/

/-- **One more arrival** is admitted when it passes the test and there is room. -/
theorem take_append_eligible_cons {full : List β} (hfull : full.length ≤ bound) (x : α) :
    (full ++ eligible p f (x :: offers)).take bound =
      ((if p x = true ∧ full.length < bound then full ++ [f x] else full) ++
        eligible p f offers).take bound := by
  unfold eligible
  by_cases hp : p x = true
  · rw [List.filter_cons_of_pos hp, List.map_cons]
    by_cases hroom : full.length < bound
    · rw [if_pos ⟨hp, hroom⟩, List.append_assoc]
      rfl
    · -- the collection is full already
      have hlength : full.length = bound := le_antisymm hfull (not_lt.mp hroom)
      rw [if_neg fun h => hroom h.2, List.take_left' hlength, List.take_left' hlength]
  · rw [List.filter_cons_of_neg hp, if_neg fun h => hp h.1]

/-! ## Other orders -/

/-- The first of the forms are the same in every order when they are forced. -/
theorem take_perm {forms forms' : List β} (h : forms'.Perm forms) (hforced : IsForced bound forms) :
    (forms'.take bound).Perm (forms.take bound) := by
  rcases hforced with hroom | hsame
  · rwa [List.take_of_length_le hroom, List.take_of_length_le (h.length_eq.trans_le hroom)]
  · -- both are as many copies of the same form
    have heq : forms'.take bound = forms.take bound := by
      refine List.ext_getElem ?_ fun i hi hi' => hsame _ ?_ _ ?_
      · rw [List.length_take, List.length_take, h.length_eq]
      · exact h.mem_iff.mp (List.mem_of_mem_take (List.getElem_mem hi))
      · exact List.mem_of_mem_take (List.getElem_mem hi')
    rw [heq]

/-- Eligible forms in another order are those of the records in another order. -/
theorem exists_perm_eligible_eq {forms : List β} (h : forms.Perm (eligible p f offers)) :
    ∃ offers', offers'.Perm offers ∧ eligible p f offers' = forms := by
  have hforms : List.Forall₂ (fun form x => form = f x) (eligible p f offers) (offers.filter p) :=
    List.forall₂_map_left_iff.mpr (List.forall₂_same.mpr fun _ _ => rfl)
  obtain ⟨arranged, harranged, hperm⟩ := List.perm_comp_forall₂ h hforms
  have hmap : arranged.map f = forms := by
    rw [← List.forall₂_eq_eq_eq, List.forall₂_map_left_iff]
    exact harranged.flip.imp fun _ _ heq => heq.symm
  have hpass : ∀ x ∈ arranged, p x = true := fun x hx =>
    (List.mem_filter.mp (hperm.mem_iff.mp hx)).2
  refine ⟨arranged ++ offers.filter (fun x => !p x), ?_, ?_⟩
  · exact (hperm.append_right _).trans (List.filter_append_perm p offers)
  · unfold eligible
    rw [List.filter_append, List.filter_eq_self.mpr hpass, List.filter_filter, ← hmap]
    have hnone : offers.filter (fun x => p x && !p x) = [] :=
      List.filter_eq_nil_iff.mpr fun x _ => by simp
    rw [hnone, List.append_nil]

/-- **What is admitted in one order** is admitted in any order of its own. -/
theorem exists_perm_admitted_eq (h : kept.Perm (admitted p f bound offers)) :
    ∃ offers', offers'.Perm offers ∧ admitted p f bound offers' = kept := by
  have hforms : (kept ++ (eligible p f offers).drop bound).Perm (eligible p f offers) := by
    have happend := h.append_right ((eligible p f offers).drop bound)
    unfold admitted at happend
    rwa [List.take_append_drop] at happend
  obtain ⟨offers', hperm, heligible⟩ := exists_perm_eligible_eq hforms
  refine ⟨offers', hperm, ?_⟩
  have hlength : kept.length = min bound (eligible p f offers).length := by
    rw [h.length_eq, admitted, List.length_take]
  unfold admitted
  rw [heligible]
  rcases Nat.le_total bound (eligible p f offers).length with hle | hle
  · exact List.take_left' (hlength.trans (min_eq_left hle))
  · -- all of them are admitted
    rw [List.drop_eq_nil_of_le hle, List.append_nil]
    exact List.take_of_length_le (hlength.le.trans (min_le_left _ _))

/-- The number of copies of a form among the first forms, when its copies come first and when they
come last. -/
theorem exists_perm_count_lt [DecidableEq β] {forms : List β} {x y : β} (hbound : bound ≠ 0)
    (hlength : bound < forms.length) (hx : x ∈ forms) (hy : y ∈ forms) (hne : x ≠ y) :
    ∃ first last : List β, first.Perm forms ∧ last.Perm forms ∧
      (last.take bound).count x < (first.take bound).count x := by
  have hcopies : forms.filter (· = x) = List.replicate (forms.count x) x := by
    rw [← List.filter_beq]
    rfl
  have hothers : (forms.filter (· ≠ x)).count x = 0 :=
    List.count_eq_zero.mpr fun hmem => by simpa using (List.mem_filter.mp hmem).2
  have hsplit : (forms.filter (· = x) ++ forms.filter (· ≠ x)).Perm forms := by
    have hperm := List.filter_append_perm (fun z => decide (z = x)) forms
    simpa using hperm
  have hsum := hsplit.length_eq
  rw [List.length_append, hcopies, List.length_replicate] at hsum
  have hcount : 0 < forms.count x := List.count_pos_iff.mpr hx
  have hother : 0 < (forms.filter (· ≠ x)).length :=
    List.length_pos_of_mem (List.mem_filter.mpr ⟨hy, by simpa using hne.symm⟩)
  refine ⟨_, _, hsplit, List.perm_append_comm.trans hsplit, ?_⟩
  rw [hcopies, List.take_append, List.take_append, List.count_append, List.count_append,
    List.take_replicate, List.take_replicate, List.count_replicate_self, List.count_replicate_self,
    List.length_replicate]
  have hzero (n : ℕ) : ((forms.filter (· ≠ x)).take n).count x = 0 :=
    Nat.le_zero.mp (hothers ▸ (List.take_sublist n _).count_le x)
  rw [hzero, hzero]
  omega

/-- Some order admits other forms than the given ones when the forms are not forced. -/
theorem exists_perm_not_perm_admitted (hbound : bound ≠ 0)
    (hforced : ¬ IsForced bound (eligible p f offers)) (kept : List β) :
    ∃ offers', offers'.Perm offers ∧ ¬ (admitted p f bound offers').Perm kept := by
  classical
  unfold IsForced at hforced
  push Not at hforced
  obtain ⟨hlength, x, hx, y, hy, hne⟩ := hforced
  obtain ⟨first, last, hfirst, hlast, hlt⟩ := exists_perm_count_lt hbound hlength hx hy hne
  obtain ⟨offers₁, hperm₁, heligible₁⟩ := exists_perm_eligible_eq hfirst
  obtain ⟨offers₂, hperm₂, heligible₂⟩ := exists_perm_eligible_eq hlast
  by_contra hall
  push Not at hall
  -- the two orders would admit the same forms
  have hsame := (hall offers₁ hperm₁).trans (hall offers₂ hperm₂).symm
  unfold admitted at hsame
  rw [heligible₁, heligible₂] at hsame
  exact hlt.ne' (hsame.count_eq x)

/-! ## Occasions -/

section Occasions

variable {τ : Type} {p : α × τ → Bool} {offers offers' offers'' : List (α × τ)}

/-- The same records in another order, each on one of the same occasions. -/
structure Reoffers (offers offers' : List (α × τ)) : Prop where
  records : (offers.map Prod.fst).Perm (offers'.map Prod.fst)
  occasions : ∀ o ∈ offers', o.2 ∈ offers.map Prod.snd

/-- The occasion makes no difference to the test. -/
def IsSettled (p : α × τ → Bool) (offers : List (α × τ)) : Prop :=
  ∀ o ∈ offers, ∀ o' ∈ offers, p (o.1, o'.2) = p o

/-- There is no choice among the records: none is admitted, or the occasion makes no difference and
there is room for all that pass, or they are all the same. -/
def LeavesNoChoice (p : α × τ → Bool) (f : α → β) (bound : ℕ) (offers : List (α × τ)) : Prop :=
  bound = 0 ∨ IsSettled p offers ∧ IsForced bound (eligible p (fun o => f o.1) offers)

theorem Reoffers.of_perm (h : offers'.Perm offers) : Reoffers offers offers' where
  records := (h.map Prod.fst).symm
  occasions := fun _ ho => List.mem_map_of_mem (h.mem_iff.mp ho)

theorem Reoffers.trans (h : Reoffers offers offers') (h' : Reoffers offers' offers'') :
    Reoffers offers offers'' where
  records := h.records.trans h'.records
  occasions := fun o ho => by
    obtain ⟨o', ho', heq⟩ := List.mem_map.mp (h'.occasions o ho)
    exact heq ▸ h.occasions o' ho'

/-- When the test looks at the record only, so do the eligible forms. -/
theorem eligible_eq_of_forall {q : α → Bool} (h : ∀ o ∈ offers, p o = q o.1) :
    eligible p (fun o => f o.1) offers = eligible q f (offers.map Prod.fst) := by
  unfold eligible
  rw [List.filter_map, List.map_map, List.filter_congr h]
  rfl

theorem Reoffers.eligible_perm (h : Reoffers offers offers') (hsettled : IsSettled p offers) :
    (eligible p (fun o => f o.1) offers').Perm (eligible p (fun o => f o.1) offers) := by
  cases offers with
  | nil =>
    have hnil : offers' = [] := List.map_eq_nil_iff.mp h.records.nil_eq.symm
    rw [hnil]
  | cons first rest =>
    -- the test of the first occasion is the test of all of them
    have htest : ∀ o ∈ first :: rest, p o = p (o.1, first.2) := fun o ho =>
      (hsettled o ho first List.mem_cons_self).symm
    have htest' : ∀ o ∈ offers', p o = p (o.1, first.2) := fun o ho => by
      obtain ⟨o₁, ho₁, hrecord⟩ := List.mem_map.mp
        (h.records.mem_iff.mpr (List.mem_map_of_mem (f := Prod.fst) ho))
      obtain ⟨o₂, ho₂, hoccasion⟩ := List.mem_map.mp (h.occasions o ho)
      calc p o = p (o₁.1, o₂.2) := by rw [hrecord, hoccasion]
        _ = p o₁ := hsettled o₁ ho₁ o₂ ho₂
        _ = p (o.1, first.2) := by rw [htest o₁ ho₁, hrecord]
    rw [eligible_eq_of_forall (q := fun a => p (a, first.2)) htest,
      eligible_eq_of_forall (q := fun a => p (a, first.2)) htest']
    exact Admission.eligible_perm h.records.symm

/-- **Without a choice** the same forms are admitted in every order. -/
theorem Reoffers.admitted_perm (h : Reoffers offers offers')
    (hchoice : LeavesNoChoice p f bound offers) :
    (admitted p (fun o => f o.1) bound offers').Perm (admitted p (fun o => f o.1) bound offers) := by
  unfold admitted
  rcases hchoice with hnone | ⟨hsettled, hforced⟩
  · rw [hnone, List.take_zero, List.take_zero]
  · exact take_perm (h.eligible_perm hsettled) hforced

/-- A record that passes on one occasion only is admitted in one order only. -/
theorem exists_reoffers_of_not_isSettled (hbound : bound ≠ 0) (hsettled : ¬ IsSettled p offers)
    (hform : ∀ a b t, f a = f b → p (a, t) = p (b, t)) (kept : List β) :
    ∃ offers', Reoffers offers offers' ∧
      ¬ (admitted p (fun o => f o.1) bound offers').Perm kept := by
  -- a record and two occasions, with a different answer on each
  obtain ⟨a, ha, t, ht, t', ht', hpass, hfail⟩ : ∃ a ∈ offers.map Prod.fst,
      ∃ t ∈ offers.map Prod.snd, ∃ t' ∈ offers.map Prod.snd,
        p (a, t) = true ∧ p (a, t') = false := by
    unfold IsSettled at hsettled
    push Not at hsettled
    obtain ⟨o, ho, o', ho', hne⟩ := hsettled
    have hrecord := List.mem_map_of_mem (f := Prod.fst) ho
    have hhere := List.mem_map_of_mem (f := Prod.snd) ho
    have hthere := List.mem_map_of_mem (f := Prod.snd) ho'
    cases hp : p o with
    | true => exact ⟨_, hrecord, _, hhere, _, hthere, hp, by simpa [hp] using hne⟩
    | false => exact ⟨_, hrecord, _, hthere, _, hhere, by simpa [hp] using hne, hp⟩
  have hall {t : τ} (ht : t ∈ offers.map Prod.snd) {records : List α}
      (hrecords : (offers.map Prod.fst).Perm records) :
      Reoffers offers (records.map fun a => (a, t)) := by
    refine ⟨?_, fun o ho => ?_⟩
    · rw [List.map_map]
      exact hrecords.trans (.of_eq (List.map_id _).symm)
    · obtain ⟨b, -, rfl⟩ := List.mem_map.mp ho
      exact ht
  by_contra hperm
  push Not at hperm
  obtain ⟨before, after, hsplit⟩ := List.append_of_mem ha
  have hfirst : f a ∈ kept := by
    -- the record arrives first, on the occasion on which it passes
    refine (hperm _ (hall ht (hsplit ▸ List.perm_middle))).mem_iff.mp ?_
    obtain ⟨n, rfl⟩ := Nat.exists_eq_succ_of_ne_zero hbound
    unfold admitted eligible
    rw [List.map_cons, List.filter_cons_of_pos hpass, List.map_cons, List.take_succ_cons]
    exact List.mem_cons_self
  have hlast := (hperm _ (hall ht' (.refl _))).mem_iff.mpr hfirst
  obtain ⟨o, ho, hsame⟩ := List.mem_map.mp (List.mem_of_mem_take hlast)
  obtain ⟨hmem, hpass'⟩ := List.mem_filter.mp ho
  obtain ⟨b, -, rfl⟩ := List.mem_map.mp hmem
  rw [hform b a t' hsame, hfail] at hpass'
  exact Bool.false_ne_true hpass'

/-- **With a choice** some order admits other forms than the given ones. -/
theorem exists_reoffers_not_perm (hchoice : ¬ LeavesNoChoice p f bound offers)
    (hform : ∀ a b t, f a = f b → p (a, t) = p (b, t)) (kept : List β) :
    ∃ offers', Reoffers offers offers' ∧
      ¬ (admitted p (fun o => f o.1) bound offers').Perm kept := by
  obtain ⟨hbound, hchoice⟩ := not_or.mp hchoice
  by_cases hsettled : IsSettled p offers
  · obtain ⟨offers', hperm, hne⟩ := exists_perm_not_perm_admitted hbound
      (fun hforced => hchoice ⟨hsettled, hforced⟩) kept
    exact ⟨offers', .of_perm hperm, hne⟩
  · exact exists_reoffers_of_not_isSettled hbound hsettled hform kept

end Occasions

end Admission
