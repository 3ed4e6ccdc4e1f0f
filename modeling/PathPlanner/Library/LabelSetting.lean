import Mathlib.Data.Set.Insert
import Mathlib.Tactic

/-!
# Label setting

Label setting keeps one label for every state and a queue of labelled states. The least queued
label is settled and its state's arcs are relaxed; an entry whose state is settled, or has a
smaller label by now, is skipped. The invariant says that settled labels lie below queued ones, so
no settled label improves again; when the queue is empty the labels are closed under relaxation,
and each is produced from another one.

## Main definitions

* `LabelSetting S A L`: states, arcs and labels, with the relaxation of an arc
* `LabelSetting.Invariant`: what holds while the arcs of the state `cur` are relaxed
* `LabelSetting.IsLabelling`: closed labels, each produced by the relaxation of an arc

## Main results

* `Invariant.initial`, `Invariant.stale`, `Invariant.settle`, `Invariant.skip`,
  `Invariant.improve`: one lemma for every step of the algorithm
* `Invariant.isLabelling`: the labels left by an empty queue
-/

/-- States with arcs, and the relaxation of an arc from a label: the state it leads to with its new
label, or nothing. Relaxation never decreases a label. -/
structure LabelSetting (S A L : Type) [LinearOrder L] where
  out : S → List A
  relax : S → A → L → Option (S × L)
  start : S
  init : L
  top : L
  init_le : ∀ l, init ≤ l
  le_of_relax : ∀ {s a l t l'}, relax s a l = some (t, l') → l ≤ l'

namespace LabelSetting

variable {S A L : Type} [LinearOrder L] (R : LabelSetting S A L)

/-- What holds of the labels, the settled states and the queue while the arcs `rest` of the state
`cur` wait for relaxation. No settled label is above `level` and no queued label below it. -/
structure Invariant (dist : S → L) (settled : S → Prop) (queue : Set (L × S)) (level : L)
    (cur : S) (rest : List A) : Prop where
  start : dist R.start = R.init
  le_top : ∀ s, dist s ≤ R.top
  lt_top : ∀ l s, (l, s) ∈ queue → l < R.top
  dist_le : ∀ l s, (l, s) ∈ queue → dist s ≤ l
  level_le : ∀ l s, (l, s) ∈ queue → level ≤ l
  settled_le : ∀ s, settled s → dist s ≤ level
  settled_lt : ∀ s, settled s → dist s < R.top
  queued : ∀ s, dist s < R.top → ¬ settled s → (dist s, s) ∈ queue
  produced : ∀ t, dist t < R.top → t = R.start ∨
    ∃ s a, settled s ∧ a ∈ R.out s ∧ R.relax s a (dist s) = some (t, dist t)
  closed : ∀ s, settled s → ∀ a ∈ R.out s, s = cur ∧ a ∈ rest ∨
    ∀ t l, R.relax s a (dist s) = some (t, l) → dist t ≤ l

/-- Labels that no relaxation improves, each of them produced by one. -/
structure IsLabelling (dist : S → L) : Prop where
  start : dist R.start = R.init
  closed : ∀ s a t l, dist s < R.top → a ∈ R.out s → R.relax s a (dist s) = some (t, l) →
    dist t ≤ l
  produced : ∀ t, dist t < R.top → t = R.start ∨
    ∃ s a, dist s < R.top ∧ a ∈ R.out s ∧ R.relax s a (dist s) = some (t, dist t)

namespace Invariant

variable {R} {dist : S → L} {settled : S → Prop} {queue : Set (L × S)} {level l : L}
  {cur s t : S} {a : A} {rest : List A}

/-- Only the start is labelled and queued. -/
theorem initial [DecidableEq S] (h : R.init < R.top) :
    R.Invariant (Function.update (fun _ => R.top) R.start R.init) (fun _ => False)
      {(R.init, R.start)} R.init R.start [] where
  start := Function.update_self ..
  le_top s := by
    by_cases he : s = R.start
    · subst he
      simpa using h.le
    · simp [he]
  lt_top l s hm := by
    obtain ⟨rfl, rfl⟩ := Prod.mk.inj hm
    exact h
  dist_le l s hm := by
    obtain ⟨rfl, rfl⟩ := Prod.mk.inj hm
    exact (Function.update_self ..).le
  level_le l s _ := R.init_le l
  settled_le _ hs := hs.elim
  settled_lt _ hs := hs.elim
  queued s hs _ := by
    by_cases he : s = R.start
    · subst he
      simp
    · simp [he] at hs
  produced t ht := by
    by_cases he : t = R.start
    · exact Or.inl he
    · simp [he] at ht
  closed _ hs := hs.elim

/-- An entry is dropped when its state is settled or has a smaller label. -/
theorem stale (inv : R.Invariant dist settled (insert (l, s) queue) level cur rest)
    (h : settled s ∨ dist s < l) : R.Invariant dist settled queue level cur rest where
  start := inv.start
  le_top := inv.le_top
  lt_top l' s' hm := inv.lt_top l' s' (Set.mem_insert_of_mem _ hm)
  dist_le l' s' hm := inv.dist_le l' s' (Set.mem_insert_of_mem _ hm)
  level_le l' s' hm := inv.level_le l' s' (Set.mem_insert_of_mem _ hm)
  settled_le := inv.settled_le
  settled_lt := inv.settled_lt
  queued s' hlt hs' := by
    refine Set.mem_of_mem_insert_of_ne (inv.queued s' hlt hs') ?_
    rintro he
    obtain ⟨hl, rfl⟩ := Prod.mk.inj he
    rcases h with h | h
    · exact hs' h
    · exact h.ne hl
  produced := inv.produced
  closed := inv.closed

/-- An entry that is not stale carries the label of its state. -/
theorem eq_of_not_lt (inv : R.Invariant dist settled (insert (l, s) queue) level cur rest)
    (h : ¬ dist s < l) : dist s = l :=
  le_antisymm (inv.dist_le l s (Set.mem_insert _ _)) (not_lt.mp h)

/-- The least entry is settled, and its arcs wait for relaxation. -/
theorem settle (inv : R.Invariant dist settled (insert (l, s) queue) level cur [])
    (hd : dist s = l) (hmin : ∀ l' s', (l', s') ∈ queue → l ≤ l') :
    R.Invariant dist (fun t => settled t ∨ t = s) queue l s (R.out s) where
  start := inv.start
  le_top := inv.le_top
  lt_top l' s' hm := inv.lt_top l' s' (Set.mem_insert_of_mem _ hm)
  dist_le l' s' hm := inv.dist_le l' s' (Set.mem_insert_of_mem _ hm)
  level_le := hmin
  settled_le t ht := by
    rcases ht with ht | rfl
    · exact (inv.settled_le t ht).trans (inv.level_le l s (Set.mem_insert _ _))
    · exact hd.le
  settled_lt t ht := by
    rcases ht with ht | rfl
    · exact inv.settled_lt t ht
    · exact hd ▸ inv.lt_top l t (Set.mem_insert _ _)
  queued t hlt ht := by
    push Not at ht
    refine Set.mem_of_mem_insert_of_ne (inv.queued t hlt ht.1) fun he => ht.2 ?_
    exact (Prod.mk.inj he).2
  produced t ht := by
    rcases inv.produced t ht with h | ⟨s', a, hs', ha, hr⟩
    · exact Or.inl h
    · exact Or.inr ⟨s', a, Or.inl hs', ha, hr⟩
  closed t ht a ha := by
    rcases ht with ht | rfl
    · refine Or.inr fun t' l' hr => ?_
      rcases inv.closed t ht a ha with ⟨-, hmem⟩ | h
      · cases hmem
      · exact h t' l' hr
    · exact Or.inl ⟨rfl, ha⟩

/-- An arc whose relaxation improves nothing is skipped. -/
theorem skip (inv : R.Invariant dist settled queue level cur (a :: rest))
    (h : ∀ t l, R.relax cur a (dist cur) = some (t, l) → dist t ≤ l) :
    R.Invariant dist settled queue level cur rest :=
  { inv with
    closed := by
      intro s hs b hb
      rcases inv.closed s hs b hb with ⟨rfl, hmem⟩ | hcl
      · rcases List.mem_cons.mp hmem with rfl | hmem
        · exact Or.inr h
        · exact Or.inl ⟨rfl, hmem⟩
      · exact Or.inr hcl }

/-- An arc that improves a label: the state reached is not settled, and is queued. -/
theorem improve [DecidableEq S] (inv : R.Invariant dist settled queue level cur (a :: rest))
    (hcur : settled cur) (hlevel : dist cur = level) (ha : a ∈ R.out cur)
    (hr : R.relax cur a (dist cur) = some (t, l)) (hlt : l < dist t) :
    R.Invariant (Function.update dist t l) settled (insert (l, t) queue) level cur rest := by
  have hle : level ≤ l := hlevel ▸ R.le_of_relax hr
  have hns : ¬ settled t := fun hs => absurd (inv.settled_le t hs) (not_le.mpr (hle.trans_lt hlt))
  have hset (s : S) (hs : settled s) : Function.update dist t l s = dist s :=
    Function.update_of_ne (by rintro rfl; exact hns hs) _ _
  have hup (s : S) : Function.update dist t l s ≤ dist s := by
    by_cases he : s = t
    · subst he
      simpa using hlt.le
    · rw [Function.update_of_ne he]
  exact {
    start := by
      by_cases he : R.start = t
      · exact absurd (R.init_le l) (not_le.mpr (by rw [← inv.start, he]; exact hlt))
      · rw [Function.update_of_ne he, inv.start]
    le_top := fun s => (hup s).trans (inv.le_top s)
    lt_top := by
      rintro l' s (he | hm)
      · obtain ⟨rfl, rfl⟩ := Prod.mk.inj he
        exact hlt.trans_le (inv.le_top s)
      · exact inv.lt_top l' s hm
    dist_le := by
      rintro l' s (he | hm)
      · obtain ⟨rfl, rfl⟩ := Prod.mk.inj he
        exact (Function.update_self ..).le
      · exact (hup s).trans (inv.dist_le l' s hm)
    level_le := by
      rintro l' s (he | hm)
      · obtain ⟨rfl, rfl⟩ := Prod.mk.inj he
        exact hle
      · exact inv.level_le l' s hm
    settled_le := fun s hs => (hset s hs).trans_le (inv.settled_le s hs)
    settled_lt := fun s hs => (hset s hs).trans_lt (inv.settled_lt s hs)
    queued := by
      intro s hs hn
      by_cases he : s = t
      · subst he
        simp
      · rw [Function.update_of_ne he] at hs ⊢
        exact Set.mem_insert_of_mem _ (inv.queued s hs hn)
    produced := by
      intro s hs
      by_cases he : s = t
      · subst he
        refine Or.inr ⟨cur, a, hcur, ha, ?_⟩
        rw [hset cur hcur, Function.update_self]
        exact hr
      · rw [Function.update_of_ne he] at hs ⊢
        rcases inv.produced s hs with h | ⟨s', b, hs', hb, hrel⟩
        · exact Or.inl h
        · exact Or.inr ⟨s', b, hs', hb, by rw [hset s' hs']; exact hrel⟩
    closed := by
      intro s hs b hb
      rw [hset s hs]
      rcases inv.closed s hs b hb with ⟨rfl, hmem⟩ | hcl
      · rcases List.mem_cons.mp hmem with rfl | hmem
        · refine Or.inr fun t' l' hr' => ?_
          obtain ⟨rfl, rfl⟩ := Prod.mk.inj (Option.some.inj (hr.symm.trans hr'))
          exact (Function.update_self ..).le
        · exact Or.inl ⟨rfl, hmem⟩
      · exact Or.inr fun t' l' hr' => (hup t').trans (hcl t' l' hr') }

/-- **An empty queue leaves a labelling.** -/
theorem isLabelling (inv : R.Invariant dist settled queue level cur []) (hq : queue = ∅) :
    R.IsLabelling dist where
  start := inv.start
  closed s a t l hlt ha hr := by
    have hs : settled s := by
      by_contra hn
      have := inv.queued s hlt hn
      rw [hq] at this
      exact this
    rcases inv.closed s hs a ha with ⟨-, hmem⟩ | h
    · cases hmem
    · exact h t l hr
  produced t ht := by
    rcases inv.produced t ht with h | ⟨s, a, hs, ha, hr⟩
    · exact Or.inl h
    · exact Or.inr ⟨s, a, inv.settled_lt s hs, ha, hr⟩

end Invariant

end LabelSetting
