import Mathlib.Data.List.Infix
import Mathlib.Tactic.Common

/-!
# Decoders and what they spell

A decoder reads a value from the front of a source, refuses the source for a reason, or faults. It
spells a function from values to words when it succeeds with a value exactly when the value is
acceptable and the source starts with the word of the value, which it then has consumed, and when it
never faults. So what a decoder accepts is the word of what it returns, and every word of an
acceptable value is accepted.

## Main definitions

* `Source`: what can be read from the front
* `Decoder`, `Decoder.refuse`, `Decoder.ensure`, `Decoder.collect`: decoders
* `Decoder.EachAfter`: what holds of each element of a list in view of the elements before it
* `Decoder.Spells`: the decoder accepts exactly the words of the acceptable values

## Main results

* `Decoder.Spells.bind`: the rule for a decoder that depends on a value read before it
* `Decoder.Spells.field`, `Decoder.Spells.ensure`, `Decoder.Spells.done`: the rules for a record that
  is read field by field
* `Decoder.Spells.collect`: the rule for a list
* `Decoder.Spells.run_atEnd_iff`: a source that is read to its end is the word of what was read
-/

/-- How a decoder stops: with an access outside its source, or for a reason. -/
inductive Stop (ε : Type)
  | fault
  | refused (reason : ε)
  deriving DecidableEq

/-- Sources that are read from the front. -/
class Source (σ : Type) (β : outParam Type) where
  rest : σ → List β
  skip : ℕ → σ → σ
  skip_zero : ∀ s, skip 0 s = s
  skip_add : ∀ m n s, skip (m + n) s = skip n (skip m s)
  rest_skip : ∀ n s, rest (skip n s) = (rest s).drop n

/-- A decoder of values of `α` that refuses for reasons of `ε`. -/
abbrev Decoder (σ ε α : Type) := StateT σ (Except (Stop ε)) α

namespace Decoder

open Source

variable {σ β ε α ρ : Type}

/-- Stop for a reason. -/
def refuse (reason : ε) : Decoder σ ε α := fun _ => .error (.refused reason)

/-- Stop for a reason unless the condition holds. -/
def ensure (c : Prop) [Decidable c] (reason : ε) : Decoder σ ε Unit :=
  if c then pure () else refuse reason

/-- A list of `n` more values, each decoded in view of the values before it. -/
def collect (d : List α → Decoder σ ε α) : ℕ → List α → Decoder σ ε (List α)
  | 0, before => pure before
  | n + 1, before => do
    let a ← d before
    collect d n (before ++ [a])

/-- What holds of each element of a list in view of the elements before it. -/
def EachAfter (P : List α → α → Prop) (l : List α) : Prop :=
  ∀ before a after, l = before ++ a :: after → P before a

section EachAfter

variable {P Q : List α → α → Prop} {l : List α} {a : α}

theorem eachAfter_nil : EachAfter P [] := by
  intro before a after h
  cases before <;> cases h

theorem eachAfter_cons_iff :
    EachAfter P (a :: l) ↔ P [] a ∧ EachAfter (fun before => P (a :: before)) l := by
  constructor
  · intro h
    refine ⟨h [] a l rfl, ?_⟩
    rintro before b after rfl
    exact h (a :: before) b after rfl
  · rintro ⟨ha, hl⟩ before b after h
    rcases List.cons_eq_append_iff.mp h with ⟨rfl, hb⟩ | ⟨before, rfl, rfl⟩
    · obtain ⟨rfl, -⟩ := List.cons.inj hb
      exact ha
    · exact hl before b after rfl

theorem eachAfter_concat_iff : EachAfter P (l ++ [a]) ↔ EachAfter P l ∧ P l a := by
  constructor
  · intro h
    refine ⟨?_, h l a [] rfl⟩
    rintro before b after rfl
    exact h before b (after ++ [a]) (by rw [List.append_assoc, List.cons_append])
  · rintro ⟨hl, ha⟩ before b after h
    rcases List.eq_nil_or_concat after with rfl | ⟨after, c, rfl⟩
    · obtain ⟨rfl, hb⟩ := List.append_inj' h rfl
      obtain rfl := List.head_eq_of_cons_eq hb
      exact ha
    · rw [List.concat_eq_append, ← List.cons_append, ← List.append_assoc] at h
      exact hl before b after (List.append_inj_left' h rfl)

theorem EachAfter.imp (h : EachAfter P l) (himp : ∀ before a, P before a → Q before a) :
    EachAfter Q l := fun before a after hl => himp before a (h before a after hl)

/-- A condition without a view of the elements before. -/
theorem eachAfter_const_iff {P : α → Prop} : EachAfter (fun _ => P) l ↔ ∀ a ∈ l, P a := by
  constructor
  · intro h a ha
    obtain ⟨before, after, rfl⟩ := List.append_of_mem ha
    exact h before a after rfl
  · rintro h before a after rfl
    exact h a (by simp)

/-- Elements that are new each time are distinct. -/
theorem eachAfter_notMem_iff {γ : Type} {f : α → γ} :
    EachAfter (fun before a => f a ∉ before.map f) l ↔ (l.map f).Nodup := by
  induction l using List.reverseRecOn with
  | nil => simp [eachAfter_nil]
  | append_singleton l a ih =>
    rw [eachAfter_concat_iff, ih, List.map_append, List.map_singleton, List.nodup_append]
    simp

/-- Elements that say how many there are up to them are numbered. -/
theorem eachAfter_eq_length_iff {f : α → ℕ} :
    EachAfter (fun before a => f a = before.length + 1) l ↔ l.map f = List.range' 1 l.length := by
  induction l using List.reverseRecOn with
  | nil => simp [eachAfter_nil]
  | append_singleton l a ih =>
    rw [eachAfter_concat_iff, ih, List.map_append, List.map_singleton, List.length_append,
      List.length_singleton, List.range'_concat]
    constructor
    · rintro ⟨hl, ha⟩
      rw [hl, ha, Nat.one_mul, Nat.add_comm]
    · intro h
      obtain ⟨hl, ha⟩ := List.append_inj h (by simp)
      refine ⟨hl, ?_⟩
      rw [List.head_eq_of_cons_eq ha, Nat.one_mul, Nat.add_comm]

end EachAfter

/-- A step that succeeded goes on with its value. -/
theorem ok_bind {γ : Type} {a : α} {f : α → Except ε γ} : ((.ok a : Except ε α) >>= f) = f a := rfl

theorem run_bind_eq_ok_iff {d : Decoder σ ε α} {k : α → Decoder σ ε ρ} {s s' : σ} {r : ρ} :
    (d >>= k).run s = .ok (r, s') ↔
      ∃ a t, d.run s = .ok (a, t) ∧ (k a).run t = .ok (r, s') := by
  rw [StateT.run_bind]
  cases h : d.run s with
  | error stop =>
    refine ⟨fun hr => ?_, fun ⟨a, t, ha, _⟩ => ?_⟩
    · cases hr
    · cases ha
  | ok p =>
    constructor
    · exact fun hr => ⟨p.1, p.2, rfl, hr⟩
    · rintro ⟨a, t, ha, hr⟩
      obtain rfl := Except.ok.inj ha
      exact hr

theorem run_bind_eq_fault {d : Decoder σ ε α} {k : α → Decoder σ ε ρ} {s : σ}
    (h : (d >>= k).run s = .error .fault) : d.run s = .error .fault ∨
      ∃ a t, d.run s = .ok (a, t) ∧ (k a).run t = .error .fault := by
  rw [StateT.run_bind] at h
  cases hd : d.run s with
  | error stop =>
    rw [hd] at h
    obtain rfl := Except.error.inj h
    exact Or.inl rfl
  | ok p =>
    rw [hd] at h
    exact Or.inr ⟨p.1, p.2, rfl, h⟩

variable [Source σ β]

/-- **The decoder spells** the words of the acceptable values: it succeeds exactly on the sources
that start with such a word, consumes the word, and never faults. -/
structure Spells (d : Decoder σ ε α) (P : α → Prop) (word : α → List β) : Prop where
  run_iff : ∀ s a s', d.run s = .ok (a, s') ↔
    P a ∧ word a <+: rest s ∧ s' = skip (word a).length s
  safe : ∀ s, d.run s ≠ .error .fault

theorem append_prefix_iff {l₁ l₂ l : List β} :
    l₁ ++ l₂ <+: l ↔ l₁ <+: l ∧ l₂ <+: l.drop l₁.length := by
  constructor
  · rintro ⟨t, rfl⟩
    rw [List.append_assoc]
    exact ⟨List.prefix_append _ _, by rw [List.drop_left]; exact List.prefix_append _ _⟩
  · rintro ⟨⟨t, rfl⟩, h⟩
    rw [List.drop_left] at h
    exact (List.prefix_append_right_inj l₁).mpr h

namespace Spells

variable {d : Decoder σ ε α} {k : α → Decoder σ ε ρ} {P : α → Prop} {word : α → List β}
  {F Q R : ρ → Prop} {word' : ρ → List β}

/-- A decoder that consumes nothing. -/
theorem pure (a : α) : Spells (Pure.pure a : Decoder σ ε α) (· = a) (fun _ => ([] : List β)) where
  run_iff s b s' := by
    change Except.ok (a, s) = Except.ok (b, s') ↔ _
    simp only [Except.ok.injEq, Prod.mk.injEq, List.nil_prefix, List.length_nil, skip_zero, true_and]
    exact and_congr eq_comm eq_comm
  safe s h := by cases h

/-- A decoder that always stops, where nothing is acceptable. -/
theorem refuse {reason : ε} (hP : ∀ a, ¬ P a) : Spells (refuse reason : Decoder σ ε α) P word where
  run_iff s b s' := by
    change Except.error (Stop.refused reason) = Except.ok (b, s') ↔ _
    exact iff_of_false (fun h => by cases h) fun h => hP b h.1
  safe s h := by cases h

/-- A decoder under a condition without which nothing is acceptable. -/
theorem guard {c : Prop} [Decidable c] {reason : ε} (hc : ¬ c → ∀ a, ¬ P a)
    (hd : c → Spells d P word) : Spells (Decoder.ensure c reason >>= fun _ => d) P word := by
  unfold Decoder.ensure
  by_cases h : c
  · rw [if_pos h]
    exact hd h
  · rw [if_neg h]
    exact ⟨fun s a s' => iff_of_false (fun hs => by cases hs) fun hs => hc h a hs.1,
      fun s hs => by cases hs⟩

/-- What is acceptable and what its words are may be said in other ways. -/
theorem congr {Q : α → Prop} {word' : α → List β} (h : Spells d P word) (hQ : ∀ a, Q a ↔ P a)
    (hword : ∀ a, P a → word' a = word a) : Spells d Q word' where
  run_iff s a s' := by
    rw [h.run_iff, hQ]
    constructor
    · rintro ⟨hP, hrest⟩
      rw [hword a hP]
      exact ⟨hP, hrest⟩
    · rintro ⟨hP, hrest⟩
      rw [hword a hP] at hrest
      exact ⟨hP, hrest⟩
  safe := h.safe

/-- **The rule for a sequence**: the word of what is read last is the word of what is read first,
followed by the rest. -/
theorem bind {K : α → ρ → Prop} {w : α → ρ → List β} (h : Spells d P word)
    (hk : ∀ a, P a → Spells (k a) (K a) (w a)) (hR : ∀ r, R r ↔ ∃ a, P a ∧ K a r)
    (hword : ∀ a r, P a → K a r → word' r = word a ++ w a r) : Spells (d >>= k) R word' where
  run_iff s r s' := by
    rw [run_bind_eq_ok_iff, hR]
    constructor
    · rintro ⟨a, t, ha, hr⟩
      obtain ⟨hP, hstarts, rfl⟩ := (h.run_iff s a t).mp ha
      obtain ⟨hK, hstarts', rfl⟩ := ((hk a hP).run_iff _ r s').mp hr
      rw [rest_skip] at hstarts'
      rw [hword a r hP hK, List.length_append, skip_add]
      exact ⟨⟨a, hP, hK⟩, append_prefix_iff.mpr ⟨hstarts, hstarts'⟩, rfl⟩
    · rintro ⟨⟨a, hP, hK⟩, hstarts, rfl⟩
      rw [hword a r hP hK] at hstarts ⊢
      obtain ⟨hfirst, hsecond⟩ := append_prefix_iff.mp hstarts
      refine ⟨a, skip (word a).length s, (h.run_iff _ _ _).mpr ⟨hP, hfirst, rfl⟩,
        ((hk a hP).run_iff _ _ _).mpr ⟨hK, ?_, ?_⟩⟩
      · rw [rest_skip]
        exact hsecond
      · rw [List.length_append, skip_add]
  safe s hs := by
    rcases run_bind_eq_fault hs with hs | ⟨a, t, ha, ht⟩
    · exact h.safe s hs
    · exact (hk a ((h.run_iff s a t).mp ha).1).safe t ht

/-! ### Records

A record is read field by field. `F` collects what is known of the fields that have been read. -/

/-- A field is read, and the rest of the record with it. -/
theorem field (get : ρ → α) (h : Spells d P word)
    (hk : ∀ a, P a → Spells (k a) (fun r => (F r ∧ get r = a) ∧ Q r) word') :
    Spells (d >>= k) (fun r => F r ∧ P (get r) ∧ Q r) (fun r => word (get r) ++ word' r) := by
  refine h.bind hk (fun r => ?_) fun a r _ hr => by rw [hr.1.2]
  constructor
  · rintro ⟨hF, hP, hQ⟩
    exact ⟨get r, hP, ⟨hF, rfl⟩, hQ⟩
  · rintro ⟨a, hP, ⟨hF, rfl⟩, hQ⟩
    exact ⟨hF, hP, hQ⟩

/-- A field whose acceptable values depend on the fields that have been read. -/
theorem dependentField {C : ρ → Prop} (get : ρ → α) (hC : ∀ r, F r → (C r ↔ P (get r)))
    (h : Spells d P word)
    (hk : ∀ a, P a → Spells (k a) (fun r => (F r ∧ get r = a) ∧ Q r) word') :
    Spells (d >>= k) (fun r => F r ∧ C r ∧ Q r) (fun r => word (get r) ++ word' r) :=
  (field get h hk).congr (fun r => and_congr_right fun hF => and_congr_left' (hC r hF))
    fun _ _ => rfl

/-- A value that is not a field, and that turns out to be a given one. -/
theorem value (a : α) (h : Spells d P word) (ha : P a)
    (hk : ∀ b, P b → Spells (k b) (fun r => (F r ∧ b = a) ∧ Q r) word') :
    Spells (d >>= k) (fun r => F r ∧ Q r) (fun r => word a ++ word' r) := by
  refine h.bind hk (fun r => ?_) fun b r _ hr => by rw [hr.1.2]
  constructor
  · rintro ⟨hF, hQ⟩
    exact ⟨a, ha, ⟨hF, rfl⟩, hQ⟩
  · rintro ⟨b, -, ⟨hF, -⟩, hQ⟩
    exact ⟨hF, hQ⟩

/-- A condition on the fields that have been read. -/
theorem ensure {c : Prop} [Decidable c] {reason : ε} {k : Decoder σ ε ρ} (C : ρ → Prop)
    (hC : ∀ r, F r → (C r ↔ c)) (hk : c → Spells k (fun r => F r ∧ Q r) word') :
    Spells (Decoder.ensure c reason >>= fun _ => k) (fun r => F r ∧ C r ∧ Q r) word' := by
  refine guard (fun hc r hr => hc ((hC r hr.1).mp hr.2.1)) fun hc => ?_
  refine (hk hc).congr (fun r => ?_) fun _ _ => rfl
  exact and_congr_right fun hF => and_iff_right ((hC r hF).mpr hc)

/-- A condition that has already been met. -/
theorem ensured {c : Prop} [Decidable c] {reason : ε} {d : Decoder σ ε ρ} (hc : ∀ r, F r → c)
    (hd : c → Spells d (fun r => F r ∧ Q r) word') :
    Spells (Decoder.ensure c reason >>= fun _ => d) (fun r => F r ∧ Q r) word' :=
  guard (fun hnot r hr => hnot (hc r hr.1)) hd

/-- A value that is not a field has to be a given one. -/
theorem literal (a : α) (h : Spells d P word) (ha : P a) {c : α → Prop} [∀ b, Decidable (c b)]
    (hc : ∀ b, c b ↔ b = a) (reason : ε) {k : Decoder σ ε ρ}
    (hk : Spells k (fun r => F r ∧ Q r) word') :
    Spells (d >>= fun b => Decoder.ensure (c b) reason >>= fun _ => k) (fun r => F r ∧ Q r)
      (fun r => word a ++ word' r) :=
  value a h ha fun b _ => ensured (fun _ hr => (hc b).mpr hr.2) fun hb =>
    hk.congr (fun _ => and_congr_left' (and_iff_left ((hc b).mp hb))) fun _ _ => rfl

/-- The record is complete: its fields determine it. -/
theorem done {v : ρ} (h : ∀ r, F r ∧ Q r ↔ r = v) :
    Spells (Pure.pure v : Decoder σ ε ρ) (fun r => F r ∧ Q r) (fun _ => ([] : List β)) :=
  (pure v).congr h fun _ _ => rfl

/-- The rules for records start where nothing has been read. -/
theorem start {d : Decoder σ ε ρ} (h : Spells d (fun r => True ∧ Q r) word') : Spells d Q word' :=
  h.congr (fun _ => (and_iff_right trivial).symm) fun _ _ => rfl

/-! ### Lists and options -/

/-- **The rule for lists**: the word of a list is the words of its elements. -/
theorem collect {d : List α → Decoder σ ε α} {P : List α → α → Prop}
    (h : ∀ before, Spells (d before) (P before) word) (n : ℕ) (before : List α) :
    Spells (collect d n before)
      (fun l => ∃ as, l = before ++ as ∧ as.length = n ∧ EachAfter (fun l => P (before ++ l)) as)
      (fun l => (l.drop before.length).flatMap word) := by
  induction n generalizing before with
  | zero =>
    refine (pure before).congr (fun l => ?_) fun l hl => ?_
    · constructor
      · rintro ⟨as, rfl, hlength, -⟩
        rw [List.length_eq_zero_iff.mp hlength, List.append_nil]
      · rintro rfl
        exact ⟨[], (List.append_nil _).symm, rfl, eachAfter_nil⟩
    · rw [hl, List.drop_length, List.flatMap_nil]
  | succ n ih =>
    refine (h before).bind (fun a _ => ih (before ++ [a])) (fun l => ?_) ?_
    · constructor
      · rintro ⟨as, rfl, hlength, heach⟩
        obtain ⟨a, as, rfl⟩ := List.exists_cons_of_length_eq_add_one hlength
        obtain ⟨ha, has⟩ := eachAfter_cons_iff.mp heach
        rw [List.append_nil] at ha
        refine ⟨a, ha, as, by simp, Nat.succ.inj hlength, ?_⟩
        simpa using has
      · rintro ⟨a, ha, as, rfl, rfl, has⟩
        refine ⟨a :: as, by simp, rfl, eachAfter_cons_iff.mpr ⟨?_, ?_⟩⟩
        · rwa [List.append_nil]
        · simpa using has
    · rintro a l ha ⟨as, rfl, -⟩
      rw [List.drop_left, List.append_assoc, List.drop_left, List.flatMap_append,
        List.flatMap_singleton]

/-- What is decoded may be mapped by a function with an inverse on what is acceptable. -/
theorem map {γ : Type} {f : α → γ} {g : γ → α} {Q : γ → Prop} (h : Spells d P word)
    (hQ : ∀ c, Q c ↔ P (g c) ∧ f (g c) = c) (hg : ∀ a, P a → g (f a) = a) :
    Spells (f <$> d) Q (fun c => word (g c)) := by
  rw [map_eq_pure_bind]
  refine h.bind (K := fun a c => c = f a) (w := fun _ _ => []) (fun a _ => pure _)
    (fun c => ?_) fun a c ha hc => ?_
  · rw [hQ]
    constructor
    · rintro ⟨hP, hc⟩
      exact ⟨g c, hP, hc.symm⟩
    · rintro ⟨a, hP, rfl⟩
      rw [hg a hP]
      exact ⟨hP, rfl⟩
  · rw [hc, hg a ha, List.append_nil]

/-- **A source that is read to its end** is the word of what was read. -/
theorem run_atEnd_iff (h : Spells d P word) {s : σ} {a : α} :
    (∃ s', d.run s = .ok (a, s') ∧ rest s' = []) ↔ P a ∧ rest s = word a := by
  constructor
  · rintro ⟨s', hs, hend⟩
    obtain ⟨hP, ⟨t, ht⟩, rfl⟩ := (h.run_iff s a s').mp hs
    rw [rest_skip, ← ht, List.drop_left] at hend
    rw [← ht, hend, List.append_nil]
    exact ⟨hP, rfl⟩
  · rintro ⟨hP, hrest⟩
    refine ⟨skip (word a).length s, (h.run_iff _ _ _).mpr ⟨hP, hrest ▸ List.prefix_rfl, rfl⟩, ?_⟩
    rw [rest_skip, hrest, List.drop_length]

end Spells

/-! ### Single words -/

/-- The decoder reads the value from every source that starts with the word. -/
def Reads (d : Decoder σ ε α) (word : List β) (a : α) : Prop :=
  ∀ s, word <+: rest s → d.run s = .ok (a, skip word.length s)

namespace Reads

variable {d : Decoder σ ε α} {k : α → Decoder σ ε ρ} {word word' : List β} {a : α} {r : ρ}

theorem pure (a : α) : Reads (Pure.pure a : Decoder σ ε α) ([] : List β) a := by
  intro s _
  rw [List.length_nil, skip_zero]
  rfl

theorem bind (h : Reads d word a) (hk : Reads (k a) word' r) : Reads (d >>= k) (word ++ word') r := by
  intro s hstarts
  obtain ⟨hfirst, hsecond⟩ := append_prefix_iff.mp hstarts
  rw [run_bind_eq_ok_iff]
  refine ⟨a, _, h s hfirst, ?_⟩
  rw [List.length_append, skip_add]
  exact hk _ (by rwa [rest_skip])

/-- A decoder reads every word that it spells. -/
theorem ofSpells {P : α → Prop} {W : α → List β} (h : Spells d P W) (ha : P a) :
    Reads d (W a) a :=
  fun s hstarts => (h.run_iff s a _).mpr ⟨ha, hstarts, rfl⟩

/-- A list is read element by element. -/
theorem collect {γ : Type} {d : Decoder σ ε α} {W : γ → List β} {f : γ → α} {cs : List γ}
    (h : ∀ c ∈ cs, Reads d (W c) (f c)) (before : List α) :
    Reads (Decoder.collect (fun _ => d) cs.length before) (cs.flatMap W) (before ++ cs.map f) := by
  induction cs generalizing before with
  | nil =>
    rw [List.map_nil, List.append_nil]
    exact pure before
  | cons c cs ih =>
    obtain ⟨hc, hcs⟩ := List.forall_mem_cons.mp h
    have hrest := ih hcs (before ++ [f c])
    rw [List.append_assoc, List.singleton_append] at hrest
    exact hc.bind hrest

end Reads

end Decoder
