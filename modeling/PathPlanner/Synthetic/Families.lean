import PathPlanner.Synthetic.Topology

/-!
# The families keep their promise

Each family drafts a simple directed graph in which the source reaches the destination, apart from
the parallel links and from the disconnected components.

## Main definitions

* `IsRoute`: the edges stay among the nodes, and the source reaches the destination
* `IsPromised`, `Topology.KeepsPromise`: what a family promises of a draft and of a topology

## Main results

* `isRoute_chordEdges`: the chords that are accepted do not wrap around 32 bits
* `isRoute_disconnected`: no edge leaves the component of the source
* `isPromised_draftOf`, `keepsPromise_buildTopology`: every family keeps its promise
-/

namespace PathPlanner

open EdgeList

variable {n : ℕ}

/-- The edges stay among the nodes, none is a loop, and the source reaches the destination. -/
structure IsRoute (n : ℕ) (edges : List EdgeDraft) (source destination : ℕ) : Prop where
  source_lt : source < n
  destination_lt : destination < n
  lt : ∀ e ∈ edges, e.1 < n ∧ e.2 < n
  ne : ∀ e ∈ edges, e.1 ≠ e.2
  reaches : Reaches edges source destination

/-! ## Chains -/

theorem mem_chainEdges {e : EdgeDraft} : e ∈ chainEdges n ↔ e.1 + 1 < n ∧ e.2 = e.1 + 1 := by
  unfold chainEdges
  rw [List.mem_map]
  constructor
  · rintro ⟨i, hi, rfl⟩
    exact ⟨by have := List.mem_range.mp hi; omega, rfl⟩
  · rintro ⟨hlt, heq⟩
    exact ⟨e.1, List.mem_range.mpr (by omega), Prod.ext rfl heq.symm⟩

theorem isRoute_chainEdges {destination : ℕ} (h : destination < n) :
    IsRoute n (chainEdges n) 0 destination where
  source_lt := by omega
  destination_lt := h
  lt e he := by
    have := mem_chainEdges.mp he
    omega
  ne e he := by
    have := mem_chainEdges.mp he
    omega
  reaches := reaches_of_steps (Nat.zero_le _) fun i _ hi => mem_chainEdges.mpr ⟨by omega, rfl⟩

theorem nodup_chainEdges (n : ℕ) : (chainEdges n).Nodup :=
  List.nodup_range.map fun _ _ h => congrArg Prod.fst h

/-! ## The ring -/

theorem mem_ringEdges {e : EdgeDraft} :
    e ∈ ringEdges n ↔ e.1 < n ∧ e.2 = if e.1 + 1 = n then 0 else e.1 + 1 := by
  unfold ringEdges
  rw [List.mem_map]
  constructor
  · rintro ⟨i, hi, rfl⟩
    exact ⟨List.mem_range.mp hi, rfl⟩
  · rintro ⟨hlt, heq⟩
    exact ⟨e.1, List.mem_range.mpr hlt, Prod.ext rfl heq.symm⟩

theorem isRoute_ringEdges (hn : 2 ≤ n) : IsRoute n (ringEdges n) 0 (n / 2) where
  source_lt := by omega
  destination_lt := by omega
  lt e he := by
    obtain ⟨hlt, heq⟩ := mem_ringEdges.mp he
    split_ifs at heq <;> omega
  ne e he := by
    obtain ⟨hlt, heq⟩ := mem_ringEdges.mp he
    split_ifs at heq <;> omega
  reaches := reaches_of_steps (Nat.zero_le _) fun i _ hi =>
    mem_ringEdges.mpr ⟨by dsimp only; omega, (if_neg (by dsimp only; omega)).symm⟩

theorem nodup_ringEdges (n : ℕ) : (ringEdges n).Nodup :=
  List.nodup_range.map fun _ _ h => congrArg Prod.fst h

/-! ## Routes over nodes in between -/

theorem routeEdges_eq_path (destination previous : ℕ) (nodes : List ℕ) :
    routeEdges destination previous nodes = path (previous :: (nodes ++ [destination])) := by
  induction nodes generalizing previous with
  | nil => rfl
  | cons node nodes ih =>
    rw [routeEdges, ih]
    rfl

/-- An edge of a route has a node in between at one of its ends. -/
theorem mem_routeEdges {destination previous : ℕ} {nodes : List ℕ} (hnodes : nodes ≠ [])
    {e : EdgeDraft} (he : e ∈ routeEdges destination previous nodes) : e.1 ∈ nodes ∨ e.2 ∈ nodes := by
  induction nodes generalizing previous with
  | nil => exact absurd rfl hnodes
  | cons node nodes ih =>
    rw [routeEdges] at he
    rcases List.mem_cons.mp he with rfl | hrest
    · exact Or.inr List.mem_cons_self
    · cases nodes with
      | nil =>
        obtain rfl := List.mem_singleton.mp hrest
        exact Or.inl List.mem_cons_self
      | cons next nodes =>
        exact (ih (List.cons_ne_nil _ _) hrest).imp (List.mem_cons_of_mem _)
          (List.mem_cons_of_mem _)

/-- The nodes of a route of the diamond. -/
def IsOnRoute (n first count v : ℕ) : Prop := v = 0 ∨ v = n - 1 ∨ first ≤ v ∧ v < first + count

/-- A route of the diamond over the nodes from one number to another. -/
theorem route_range' (first count : ℕ) (hfirst : 0 < first) (hlast : first + count < n) :
    IsProper (routeEdges (n - 1) 0 (List.range' first count)) ∧
      (∀ e ∈ routeEdges (n - 1) 0 (List.range' first count),
        IsOnRoute n first count e.1 ∧ IsOnRoute n first count e.2) ∧
      Reaches (routeEdges (n - 1) 0 (List.range' first count)) 0 (n - 1) := by
  have hmem {v : ℕ} (hv : v ∈ 0 :: (List.range' first count ++ [n - 1])) :
      IsOnRoute n first count v := by
    rcases List.mem_cons.mp hv with rfl | hv
    · exact Or.inl rfl
    · rcases List.mem_append.mp hv with hv | hv
      · exact Or.inr (Or.inr (List.mem_range'_1.mp hv))
      · exact Or.inr (Or.inl (List.mem_singleton.mp hv))
  have hnodup : (0 :: (List.range' first count ++ [n - 1])).Nodup := by
    refine List.nodup_cons.mpr ⟨fun hzero => ?_, ?_⟩
    · rcases List.mem_append.mp hzero with hzero | hzero
      · have := List.mem_range'_1.mp hzero
        omega
      · have := List.mem_singleton.mp hzero
        omega
    · refine List.Nodup.append List.nodup_range' (List.nodup_singleton _) fun v hv hlast => ?_
      have := List.mem_range'_1.mp hv
      have := List.mem_singleton.mp hlast
      omega
  rw [routeEdges_eq_path]
  refine ⟨isProper_path hnodup, fun e he => ?_, ?_⟩
  · exact ⟨hmem (mem_of_mem_path he).1, hmem (mem_of_mem_path he).2⟩
  · have hreaches := reaches_path 0 (List.range' first count ++ [n - 1])
    rw [List.getLast_cons (by simp), List.getLast_append_singleton] at hreaches
    exact hreaches

theorem isRoute_diamondEdges (hn : 2 ≤ n) :
    IsRoute n (diamondEdges n) 0 (n - 1) ∧ (diamondEdges n).Nodup := by
  unfold diamondEdges
  split_ifs with hsmall
  · exact ⟨isRoute_chainEdges (by omega), nodup_chainEdges n⟩
  · dsimp only
    generalize hsplit : 1 + (n - 2 + 1) / 2 = split
    obtain ⟨hproper, hon, hreaches⟩ := route_range' (n := n) 1 (split - 1) (by omega)
      (by omega)
    obtain ⟨hproper', hon', -⟩ := route_range' (n := n) split (n - 1 - split) (by omega)
      (by omega)
    unfold IsOnRoute at hon hon'
    -- the nodes in between of the two routes are different ones
    have hdisjoint : (routeEdges (n - 1) 0 (List.range' 1 (split - 1))).Disjoint
        (routeEdges (n - 1) 0 (List.range' split (n - 1 - split))) := by
      intro e he he'
      have hin := mem_routeEdges (by simp; omega) he
      rw [List.mem_range'_1, List.mem_range'_1] at hin
      have := hon e he
      have := hon' e he'
      omega
    have hboth := isProper_append hproper hproper' hdisjoint
    refine ⟨⟨by omega, by omega, fun e he => ?_, hboth.ne, ?_⟩, hboth.nodup⟩
    · rcases List.mem_append.mp he with he | he
      · have := hon e he
        omega
      · have := hon' e he
        omega
    · exact hreaches.mono (List.subset_append_left _ _)

/-! ## Tiers -/

theorem mem_tierEdges {base size next nextSize : ℕ} {e : EdgeDraft} :
    e ∈ tierEdges base size next nextSize ↔
      (base ≤ e.1 ∧ e.1 < base + size) ∧ next ≤ e.2 ∧ e.2 < next + nextSize := by
  rw [tierEdges, List.mem_product, List.mem_range'_1, List.mem_range'_1]

theorem isProper_tierEdges (base size : ℕ) {next : ℕ} (nextSize : ℕ) (h : base + size ≤ next) :
    IsProper (tierEdges base size next nextSize) :=
  isProper_product List.nodup_range' List.nodup_range' fun v hv hv' => by
    have := List.mem_range'_1.mp hv
    have := List.mem_range'_1.mp hv'
    omega

theorem isRoute_leafSpineEdges (hn : 2 ≤ n) (layers : UInt32) :
    IsRoute n (leafSpineEdges n layers) 0 (n - leafSpineSpines n layers) ∧
      (leafSpineEdges n layers).Nodup := by
  have hspines : 1 ≤ leafSpineSpines n layers ∧ leafSpineSpines n layers < n := by
    unfold leafSpineSpines
    have htiers : 2 ≤ min (max layers.toNat 2) 8 := by omega
    have hdiv : n / min (max layers.toNat 2) 8 ≤ n / 2 := Nat.div_le_div_left htiers (by decide)
    omega
  unfold leafSpineEdges
  dsimp only
  have hproper := isProper_tierEdges 0 (n - leafSpineSpines n layers) (leafSpineSpines n layers)
    (Nat.zero_add _).le
  refine ⟨⟨by omega, by omega, fun e he => ?_, hproper.ne, ?_⟩, hproper.nodup⟩
  · have := mem_tierEdges.mp he
    omega
  · exact reaches_of_mem (mem_tierEdges.mpr ⟨by omega, by omega⟩)

/-- Three tiers, one after the other, and a node of the third one or of a fourth one. -/
theorem isRoute_tierEdges {leaves aggregates spines cores : ℕ} (hleaves : 0 < leaves)
    (haggregates : 0 < aggregates) (hspines : 0 < spines)
    (hn : leaves + aggregates + spines + cores = n) :
    IsRoute n (tierEdges 0 leaves leaves aggregates ++
        tierEdges leaves aggregates (leaves + aggregates) spines ++
        tierEdges (leaves + aggregates) spines (leaves + aggregates + spines) cores) 0 (n - 1) ∧
      (tierEdges 0 leaves leaves aggregates ++
        tierEdges leaves aggregates (leaves + aggregates) spines ++
        tierEdges (leaves + aggregates) spines (leaves + aggregates + spines) cores).Nodup := by
  have hfirst := isProper_tierEdges 0 leaves aggregates (Nat.zero_add _).le
  have hsecond := isProper_tierEdges leaves aggregates spines le_rfl
  have hthird := isProper_tierEdges (leaves + aggregates) spines cores le_rfl
  have hproper := isProper_append
    (isProper_append hfirst hsecond fun e he he' => by
      have := mem_tierEdges.mp he
      have := mem_tierEdges.mp he'
      omega)
    hthird fun e he he' => by
      have := mem_tierEdges.mp he'
      rcases List.mem_append.mp he with he | he
      · have := mem_tierEdges.mp he
        omega
      · have := mem_tierEdges.mp he
        omega
  refine ⟨⟨by omega, by omega, fun e he => ?_, hproper.ne, ?_⟩, hproper.nodup⟩
  · rcases List.mem_append.mp he with he | he
    · rcases List.mem_append.mp he with he | he
      · have := mem_tierEdges.mp he
        omega
      · have := mem_tierEdges.mp he
        omega
    · have := mem_tierEdges.mp he
      omega
  · -- up through the tiers
    have hup (spine : ℕ) (hspine : spine < spines) : Reaches (tierEdges 0 leaves leaves aggregates ++
        tierEdges leaves aggregates (leaves + aggregates) spines ++
        tierEdges (leaves + aggregates) spines (leaves + aggregates + spines) cores) 0
        (leaves + aggregates + spine) := by
      refine (reaches_of_mem (v := leaves) ?_).trans (reaches_of_mem ?_)
      · exact List.mem_append_left _ (List.mem_append_left _
          (mem_tierEdges.mpr ⟨by omega, by omega⟩))
      · exact List.mem_append_left _ (List.mem_append_right _
          (mem_tierEdges.mpr ⟨by dsimp only; omega, by dsimp only; omega⟩))
    rcases Nat.eq_zero_or_pos cores with hzero | hcores
    · have hlast : n - 1 = leaves + aggregates + (spines - 1) := by omega
      rw [hlast]
      exact hup (spines - 1) (by omega)
    · refine (hup 0 hspines).trans (reaches_of_mem ?_)
      exact List.mem_append_right _ (mem_tierEdges.mpr ⟨by dsimp only; omega, by dsimp only; omega⟩)

theorem isRoute_fatTreeEdges (hn : 2 ≤ n) (layers : UInt32) :
    IsRoute n (fatTreeEdges n layers) 0 (n - 1) ∧ (fatTreeEdges n layers).Nodup := by
  unfold fatTreeEdges
  split_ifs with hsmall
  · exact ⟨isRoute_chainEdges (by omega), nodup_chainEdges n⟩
  · dsimp only
    apply isRoute_tierEdges
    · omega
    · omega
    · split_ifs <;> omega
    · split_ifs <;> omega

/-! ## Chords -/

/-- Where a chord ends, when the sum does not exceed 32 bits. -/
theorem chord_target {i step : ℕ} (hi : i < n) (hstep : step < n) (hsum : i + step < 2 ^ 32) :
    (i + step) % 2 ^ 32 % n = if i + step < n then i + step else i + step - n := by
  rw [Nat.mod_eq_of_lt hsum]
  split_ifs with hlt
  · exact Nat.mod_eq_of_lt hlt
  · rw [Nat.mod_eq_sub_mod (not_lt.mp hlt), Nat.mod_eq_of_lt (by omega)]

/-- **Chords**: their number is within 32 bits, so that no sum exceeds them. -/
theorem isRoute_chordEdges {requested : ℕ} (hn : 2 ≤ n) (hrequested : 2 ≤ requested)
    (hlength : (chordEdges n requested).length < 2 ^ 32) :
    IsRoute n (chordEdges n requested) 0 (n / 2) ∧ (chordEdges n requested).Nodup := by
  unfold chordEdges at hlength ⊢
  split_ifs at hlength ⊢ with hsmall
  · exact ⟨isRoute_chainEdges (by omega), nodup_chainEdges n⟩
  · dsimp only at hlength ⊢
    generalize hdistance : min requested ((n - 1) / 2) = distance at hlength ⊢
    have hproduct : ((List.range n).flatMap fun i =>
        (List.range' 1 distance).map fun step => (i, (i + step) % 2 ^ 32 % n)) =
      (List.range n ×ˢ List.range' 1 distance).map
        fun x => (x.1, (x.1 + x.2) % 2 ^ 32 % n) := by
      change _ = ((List.range n).flatMap fun i => (List.range' 1 distance).map (Prod.mk i)).map _
      simp only [List.map_flatMap, List.map_map]
      rfl
    rw [hproduct] at hlength ⊢
    -- there are as many edges as nodes, or at least twice as many
    rw [List.length_map, List.length_product, List.length_range, List.length_range'] at hlength
    have hsum {i step : ℕ} (hi : i < n) (hstep : step < 1 + distance) : i + step < 2 ^ 32 := by
      rcases Nat.lt_or_ge distance 2 with hone | htwo
      · obtain rfl : distance = 1 := by omega
        omega
      · have := Nat.mul_le_mul_left n htwo
        omega
    have hchord {i step : ℕ} (hi : i < n) (hstep : 1 ≤ step ∧ step < 1 + distance) :=
      chord_target hi (show step < n by omega) (hsum hi hstep.2)
    refine ⟨⟨by omega, by omega, ?_, ?_, ?_⟩, ?_⟩
    · refine List.forall_mem_map.mpr fun x hx => ?_
      obtain ⟨hi, hstep⟩ := List.mem_product.mp hx
      rw [List.mem_range] at hi
      dsimp only
      exact ⟨hi, Nat.mod_lt _ (by omega)⟩
    · refine List.forall_mem_map.mpr fun x hx => ?_
      obtain ⟨hi, hstep⟩ := List.mem_product.mp hx
      rw [List.mem_range] at hi
      rw [List.mem_range'_1] at hstep
      dsimp only
      rw [hchord hi hstep]
      split_ifs <;> omega
    · refine reaches_of_steps (Nat.zero_le _) fun i _ hi => ?_
      have htarget := hchord (show i < n by omega) (show 1 ≤ 1 ∧ 1 < 1 + distance by omega)
      rw [if_pos (by omega)] at htarget
      refine List.mem_map.mpr ⟨(i, 1), List.mem_product.mpr ⟨?_, ?_⟩, ?_⟩
      · exact List.mem_range.mpr (by omega)
      · exact List.mem_range'_1.mpr (by omega)
      · exact Prod.ext rfl htarget
    · refine (List.nodup_range.product List.nodup_range').map_on fun x hx y hy heq => ?_
      obtain ⟨hi, hstep⟩ := List.mem_product.mp hx
      obtain ⟨hi', hstep'⟩ := List.mem_product.mp hy
      rw [List.mem_range] at hi hi'
      rw [List.mem_range'_1] at hstep hstep'
      obtain ⟨hsource, htarget⟩ := Prod.mk.inj heq
      rw [hchord hi hstep, hchord hi' hstep', ← hsource] at htarget
      refine Prod.ext hsource ?_
      split_ifs at htarget <;> omega

/-! ## Components -/

/-- The nodes of the components from one that starts at a node. -/
theorem mem_componentEdges {start : ℕ} {components : List ℕ} {e : EdgeDraft}
    (he : e ∈ componentEdges n start components) :
    e.2 = e.1 + 1 ∧ start ≤ e.1 ∧ e.2 < start + (components.map (componentSize n)).sum := by
  induction components generalizing start with
  | nil => cases he
  | cons component components ih =>
    rw [List.map_cons, List.sum_cons]
    rcases List.mem_append.mp he with he | he
    · obtain ⟨i, hi, rfl⟩ := List.mem_map.mp he
      have := List.mem_range.mp hi
      dsimp only
      omega
    · have := ih he
      omega

theorem nodup_componentEdges (start : ℕ) (components : List ℕ) :
    (componentEdges n start components).Nodup := by
  induction components generalizing start with
  | nil => exact List.nodup_nil
  | cons component components ih =>
    refine List.Nodup.append ?_ (ih _) fun e he he' => ?_
    · exact List.nodup_range.map fun i j h => Nat.add_left_cancel (congrArg Prod.fst h)
    · obtain ⟨i, hi, rfl⟩ := List.mem_map.mp he
      have := List.mem_range.mp hi
      have := mem_componentEdges he'
      dsimp only at this
      omega

/-- The components have all the nodes. -/
theorem sum_componentSize (hn : 2 ≤ n) :
    ((List.range (componentCount n)).map (componentSize n)).sum = n := by
  have hpos : 0 < componentCount n := by
    unfold componentCount
    omega
  have hcount (k : ℕ) : ((List.range k).map (componentSize n)).sum =
      k * (n / componentCount n) + min k (n % componentCount n) := by
    induction k with
    | zero => simp
    | succ k ih =>
      rw [List.range_succ, List.map_append, List.sum_append, ih, Nat.succ_mul]
      unfold componentSize
      simp only [List.map_cons, List.map_nil, List.sum_cons, List.sum_nil]
      split_ifs <;> omega
  rw [hcount, Nat.min_eq_right (Nat.mod_lt _ hpos).le]
  exact Nat.div_add_mod n (componentCount n)

theorem isRoute_disconnected (hn : 2 ≤ n) :
    componentSize n 0 < n ∧
      (∀ e ∈ componentEdges n 0 (List.range (componentCount n)), (e.1 < n ∧ e.2 < n) ∧ e.1 ≠ e.2) ∧
      ¬ Reaches (componentEdges n 0 (List.range (componentCount n))) 0 (componentSize n 0) := by
  have hsum := sum_componentSize hn
  have htwo : 2 ≤ componentCount n ∧ componentCount n ≤ n := by
    unfold componentCount
    omega
  have hquotient : 1 ≤ n / componentCount n := Nat.div_pos htwo.2 (by omega)
  have hsize (component : ℕ) : 1 ≤ componentSize n component :=
    hquotient.trans (Nat.le_add_right _ _)
  obtain ⟨k, hk⟩ : ∃ k, componentCount n = k + 2 := ⟨componentCount n - 2, by omega⟩
  have hrange : List.range (componentCount n) = 0 :: 1 :: (List.range k).map (· + 2) := by
    rw [hk, List.range_succ_eq_map, List.range_succ_eq_map, List.map_cons, List.map_map]
    rfl
  rw [hrange] at hsum ⊢
  rw [List.map_cons, List.map_cons, List.sum_cons, List.sum_cons] at hsum
  have hone := hsize 1
  refine ⟨by omega, fun e he => ?_, ?_⟩
  · have := mem_componentEdges he
    rw [List.map_cons, List.map_cons, List.sum_cons, List.sum_cons] at this
    omega
  · -- no edge leaves the first component
    refine not_reaches (S := {v | v < componentSize n 0}) (fun e he hsource => ?_) (hsize 0)
      (lt_irrefl (componentSize n 0))
    rcases List.mem_append.mp he with he | he
    · obtain ⟨i, hi, rfl⟩ := List.mem_map.mp he
      have := List.mem_range.mp hi
      change 0 + i + 1 < componentSize n 0
      omega
    · have := mem_componentEdges he
      have hlt : e.1 < componentSize n 0 := hsource
      omega

/-! ## Parallel links, two-hop routes, the hub and the tree -/

theorem isRoute_parallelEdges (hn : 2 ≤ n) : IsRoute n (parallelEdges n) 0 (n - 1) := by
  have hmem {e : EdgeDraft} (he : e ∈ parallelEdges n) : e.1 + 1 < n ∧ e.2 = e.1 + 1 := by
    rcases List.mem_append.mp he with he | he
    · obtain rfl := (List.mem_replicate.mp he).2
      exact ⟨by dsimp only; omega, rfl⟩
    · obtain ⟨i, hi, rfl⟩ := List.mem_map.mp he
      have := List.mem_range'_1.mp hi
      exact ⟨by dsimp only; omega, rfl⟩
  refine ⟨by omega, by omega, fun e he => ?_, fun e he => ?_,
    reaches_of_steps (Nat.zero_le _) fun i _ hi => ?_⟩
  · have := hmem he
    omega
  · have := hmem he
    omega
  · unfold parallelEdges
    rcases Nat.eq_zero_or_pos i with rfl | hpos
    · refine List.mem_append_left _ (List.mem_replicate.mpr ⟨?_, rfl⟩)
      split_ifs <;> omega
    · exact List.mem_append_right _
        (List.mem_map.mpr ⟨i, List.mem_range'_1.mpr (by omega), rfl⟩)

theorem isRoute_tieStormEdges (hn : 2 ≤ n) :
    IsRoute n (tieStormEdges n) 0 (n - 1) ∧ (tieStormEdges n).Nodup := by
  unfold tieStormEdges
  split_ifs with htwo
  · subst htwo
    refine ⟨⟨by decide, by decide, by decide, by decide, ?_⟩, by decide⟩
    exact reaches_of_mem List.mem_cons_self
  · have hmem {e : EdgeDraft} : e ∈ (List.range' 1 (n - 2)).flatMap
        (fun middle => [(0, middle), (middle, n - 1)]) ↔
        (1 ≤ e.2 ∧ e.2 < n - 1 ∧ e.1 = 0) ∨ (1 ≤ e.1 ∧ e.1 < n - 1 ∧ e.2 = n - 1) := by
      rw [List.mem_flatMap]
      constructor
      · rintro ⟨middle, hmiddle, he⟩
        have := List.mem_range'_1.mp hmiddle
        rcases List.mem_cons.mp he with rfl | he
        · exact Or.inl (by dsimp only; omega)
        · obtain rfl := List.mem_singleton.mp he
          exact Or.inr (by dsimp only; omega)
      · rintro (⟨hlow, hhigh, hzero⟩ | ⟨hlow, hhigh, hlast⟩)
        · refine ⟨e.2, List.mem_range'_1.mpr (by omega), ?_⟩
          rw [← hzero]
          exact List.mem_cons_self
        · refine ⟨e.1, List.mem_range'_1.mpr (by omega), ?_⟩
          rw [← hlast]
          exact List.mem_cons_of_mem _ List.mem_cons_self
    refine ⟨⟨by omega, by omega, fun e he => ?_, fun e he => ?_, ?_⟩, ?_⟩
    · have := hmem.mp he
      omega
    · have := hmem.mp he
      omega
    · refine (reaches_of_mem (v := 1) (hmem.mpr (Or.inl ?_))).trans
        (reaches_of_mem (hmem.mpr (Or.inr ?_)))
      · exact ⟨le_rfl, by dsimp only; omega, rfl⟩
      · exact ⟨le_rfl, by dsimp only; omega, rfl⟩
    · refine List.nodup_flatMap.mpr ⟨fun middle hmiddle => ?_, ?_⟩
      · have := List.mem_range'_1.mp hmiddle
        refine List.nodup_cons.mpr ⟨fun heq => ?_, List.nodup_singleton _⟩
        have := congrArg Prod.fst (List.mem_singleton.mp heq)
        dsimp only at this
        omega
      · refine List.Nodup.pairwise_of_forall_ne List.nodup_range' fun m hm m' hm' hne e he he' => ?_
        have := List.mem_range'_1.mp hm
        have := List.mem_range'_1.mp hm'
        simp only [List.mem_cons, List.not_mem_nil, or_false] at he he'
        rcases he with rfl | rfl
        · simp only [Prod.mk.injEq] at he'
          omega
        · simp only [Prod.mk.injEq] at he'
          omega

theorem isRoute_hubEdges (hn : 2 ≤ n) :
    IsRoute n (hubEdges n) 0 (n - 1) ∧ (hubEdges n).Nodup := by
  have hmem {e : EdgeDraft} : e ∈ hubEdges n ↔ (1 ≤ e.2 ∧ e.2 < n) ∧ e.1 = 0 := by
    unfold hubEdges
    rw [List.mem_map]
    constructor
    · rintro ⟨spoke, hspoke, rfl⟩
      have := List.mem_range'_1.mp hspoke
      exact ⟨by dsimp only; omega, rfl⟩
    · rintro ⟨hspoke, hzero⟩
      exact ⟨e.2, List.mem_range'_1.mpr (by omega), Prod.ext hzero.symm rfl⟩
  refine ⟨⟨by omega, by omega, fun e he => ?_, fun e he => ?_, ?_⟩,
    List.Nodup.map (fun _ _ h => congrArg Prod.snd h) List.nodup_range'⟩
  · have := hmem.mp he
    omega
  · have := hmem.mp he
    omega
  · exact reaches_of_mem (hmem.mpr ⟨by dsimp only; omega, rfl⟩)

theorem isRoute_treeEdges (hn : 2 ≤ n) :
    IsRoute n (treeEdges n) 0 (n - 1) ∧ (treeEdges n).Nodup := by
  have hmem {e : EdgeDraft} : e ∈ treeEdges n ↔ (1 ≤ e.2 ∧ e.2 < n) ∧ e.1 = (e.2 - 1) / 2 := by
    unfold treeEdges
    rw [List.mem_map]
    constructor
    · rintro ⟨i, hi, rfl⟩
      have := List.mem_range'_1.mp hi
      exact ⟨by dsimp only; omega, rfl⟩
    · rintro ⟨hi, hparent⟩
      exact ⟨e.2, List.mem_range'_1.mpr (by omega), Prod.ext hparent.symm rfl⟩
  -- each node is reached from its parent
  have hreaches : ∀ v < n, Reaches (treeEdges n) 0 v := by
    intro v
    induction v using Nat.strong_induction_on with
    | _ v ih =>
      intro hv
      rcases Nat.eq_zero_or_pos v with rfl | hpos
      · exact Relation.ReflTransGen.refl
      · exact (ih ((v - 1) / 2) (by omega) (by omega)).trans
          (reaches_of_mem (hmem.mpr ⟨⟨hpos, hv⟩, rfl⟩))
  refine ⟨⟨by omega, by omega, fun e he => ?_, fun e he => ?_, hreaches _ (by omega)⟩,
    List.Nodup.map (fun _ _ h => congrArg Prod.snd h) List.nodup_range'⟩
  · have := hmem.mp he
    omega
  · have := hmem.mp he
    omega

/-! ## The shuffled chain -/

/-- The order is one of all the nodes. -/
theorem perm_deepChainOrder (n : ℕ) (seed : BitVec 64) :
    (deepChainOrder n seed).toList.Perm (List.range n) := by
  have hswap (order : Array ℕ) (i j : ℕ) : (order.swapIfInBounds i j).Perm order := by
    rw [Array.swapIfInBounds_def]
    split_ifs with hi hj
    · exact Array.swap_perm hi hj
    · exact Array.Perm.refl _
    · exact Array.Perm.refl _
  have hloop : ∀ (steps : List ℕ) (state : Array ℕ × SeededRandom),
      (steps.foldl (fun state i =>
        let drawn := SeededRandom.below state.2 (.ofNat (i + 1))
        (state.1.swapIfInBounds i drawn.1, drawn.2)) state).1.Perm state.1 := by
    intro steps
    induction steps with
    | nil => exact fun state => Array.Perm.refl _
    | cons i steps ih => exact fun state => (ih _).trans (hswap state.1 i _)
  have hperm := Array.perm_iff_toList_perm.mp (hloop (List.range' 1 (n - 1)).reverse
    (Array.range n, ⟨seed ^^^ 0x5DEECE66D⟩))
  rwa [Array.toList_range] at hperm

/-- An entry of an order. -/
theorem getD_eq_getElem_toList {order : Array ℕ} {i : ℕ} (h : i < order.toList.length) :
    order.getD i 0 = order.toList[i] := by
  rw [Array.getD_eq_getD_getElem?, ← Array.getElem?_toList, List.getElem?_eq_getElem h,
    Option.getD_some]

theorem deepChainEdges_eq_path (order : Array ℕ) : deepChainEdges order = path order.toList := by
  unfold deepChainEdges path
  apply List.ext_getElem
  · simp
  · intro i hi _
    rw [List.length_map, List.length_range, ← Array.length_toList] at hi
    rw [List.getElem_map, List.getElem_range, List.getElem_zip, List.getElem_tail,
      getD_eq_getElem_toList (by omega), getD_eq_getElem_toList (by omega)]

theorem isRoute_deepChain (hn : 2 ≤ n) (seed : BitVec 64) :
    IsRoute n (deepChainEdges (deepChainOrder n seed)) ((deepChainOrder n seed).getD 0 0)
        ((deepChainOrder n seed).getD ((deepChainOrder n seed).size - 1) 0) ∧
      (deepChainEdges (deepChainOrder n seed)).Nodup := by
  have hperm := perm_deepChainOrder n seed
  generalize deepChainOrder n seed = order at hperm ⊢
  have hlength : order.toList.length = n := hperm.length_eq.trans List.length_range
  have hlt {v : ℕ} (hv : v ∈ order.toList) : v < n := List.mem_range.mp (hperm.mem_iff.mp hv)
  have hproper := isProper_path (hperm.nodup_iff.mpr List.nodup_range)
  have hfirst : 0 < order.toList.length := by omega
  have hlast : order.size - 1 < order.toList.length := by
    rw [Array.length_toList] at hlength ⊢
    omega
  have hsource := getD_eq_getElem_toList hfirst
  have hdestination := getD_eq_getElem_toList hlast
  rw [deepChainEdges_eq_path, hsource, hdestination]
  refine ⟨⟨hlt (List.getElem_mem _), hlt (List.getElem_mem _), fun e he => ?_, hproper.ne, ?_⟩,
    hproper.nodup⟩
  · exact ⟨hlt (mem_of_mem_path he).1, hlt (mem_of_mem_path he).2⟩
  · -- from the first entry to the last one
    obtain ⟨nodes⟩ := order
    cases nodes with
    | nil => exact absurd hlength (by simp; omega)
    | cons first nodes =>
      have hreaches := reaches_path first nodes
      rw [List.getLast_eq_getElem] at hreaches
      exact hreaches

/-! ## Every family -/

/-- What a family promises of its draft: a simple graph among the nodes, apart from the parallel links,
and a route, apart from the disconnected components. -/
structure IsPromised (family : SyntheticFamily) (n : ℕ) (draft : FamilyDraft) : Prop where
  source_lt : draft.source < n
  destination_lt : draft.destination < n
  lt : ∀ e ∈ draft.edges, e.1 < n ∧ e.2 < n
  ne : ∀ e ∈ draft.edges, e.1 ≠ e.2
  nodup : family ≠ .parallelEqualCost → draft.edges.Nodup
  reaches_iff : Reaches draft.edges draft.source draft.destination ↔ family ≠ .disconnected

/-- A family with a route. -/
theorem IsRoute.isPromised {family : SyntheticFamily} {draft : FamilyDraft}
    (h : IsRoute n draft.edges draft.source draft.destination)
    (hnodup : family ≠ .parallelEqualCost → draft.edges.Nodup) (hfamily : family ≠ .disconnected) :
    IsPromised family n draft where
  source_lt := h.source_lt
  destination_lt := h.destination_lt
  lt := h.lt
  ne := h.ne
  nodup := hnodup
  reaches_iff := ⟨fun _ => hfamily, fun _ => h.reaches⟩

/-- **A draft keeps the promise of its family**, when its edges are numbered by 32 bits. -/
theorem isPromised_draftOf {options : SyntheticOptions} {draft : FamilyDraft} (hn : 2 ≤ n)
    (h : draftOf options n = .ok draft) (hlength : draft.edges.length < 2 ^ 32) :
    IsPromised options.family n draft := by
  unfold draftOf at h
  -- the families of which the edges are distinct and the source has a route
  have hrouted {family : SyntheticFamily} {draft : FamilyDraft} (hfamily : family ≠ .disconnected)
      (h : IsRoute n draft.edges draft.source draft.destination ∧ draft.edges.Nodup) :
      IsPromised family n draft := h.1.isPromised (fun _ => h.2) hfamily
  split at h
  all_goals rename_i hfamily; rw [hfamily]; try obtain rfl := Except.ok.inj h
  · exact hrouted (by decide) ⟨isRoute_chainEdges (Nat.sub_one_lt_of_lt hn), nodup_chainEdges n⟩
  · exact hrouted (by decide) ⟨isRoute_ringEdges hn, nodup_ringEdges n⟩
  · exact hrouted (by decide) (isRoute_diamondEdges hn)
  · exact hrouted (by decide) (isRoute_leafSpineEdges hn _)
  · exact hrouted (by decide) (isRoute_fatTreeEdges hn _)
  · exact hrouted (by decide) (isRoute_chordEdges hn (Nat.le_add_right 2 _) hlength)
  · obtain ⟨hdestination, hedges, hapart⟩ := isRoute_disconnected hn
    exact ⟨by dsimp only; omega, hdestination, fun e he => (hedges e he).1,
      fun e he => (hedges e he).2, fun _ => nodup_componentEdges 0 _,
      ⟨fun hreaches => absurd hreaches hapart, fun hne => absurd rfl hne⟩⟩
  · exact hrouted (by decide) ⟨isRoute_chainEdges (Nat.sub_one_lt_of_lt hn), nodup_chainEdges n⟩
  · exact (isRoute_parallelEdges hn).isPromised (fun hne => absurd rfl hne) (by decide)
  · exact hrouted (by decide) (isRoute_tieStormEdges hn)
  · exact hrouted (by decide) (isRoute_hubEdges hn)
  · exact hrouted (by decide) (isRoute_deepChain hn _)
  · exact hrouted (by decide) (isRoute_treeEdges hn)
  · exact hrouted (by decide) (isRoute_chordEdges hn (by omega) hlength)
  · cases h

/-- What the family of the options promises of the topology. -/
structure Topology.KeepsPromise (topology : Topology) (options : SyntheticOptions) : Prop where
  nodeCount_eq : topology.nodeCount = max 2 options.nodes.toNat
  isPromised : IsPromised options.family topology.nodeCount
    ⟨topology.source, topology.destination, topology.uniformCost, topology.edges⟩
  degree_eq : topology.degree = (List.range topology.nodeCount).map (EdgeList.degree topology.edges)

theorem normalizeNodeCount_eq (requested : UInt32) :
    normalizeNodeCount requested = max 2 requested.toNat := by
  unfold normalizeNodeCount
  have hlt : requested < 2 ↔ requested.toNat < 2 := UInt32.lt_iff_toNat_lt
  split_ifs with h
  · have := hlt.mp h
    omega
  · have := mt hlt.mpr h
    omega

/-- **An accepted topology keeps the promise of its family.** -/
theorem keepsPromise_buildTopology {options : SyntheticOptions} {topology : Topology}
    (h : buildTopology options = .ok topology) : topology.KeepsPromise options := by
  unfold buildTopology at h
  dsimp only at h
  split_ifs at h
  obtain ⟨draft, hdraft, hpush⟩ := bind_eq_ok_iff.mp h
  have hn : 2 ≤ normalizeNodeCount options.nodes := by
    rw [normalizeNodeCount_eq]
    exact le_max_left _ _
  have hstart : Topology.IsCounted
      { nodeCount := normalizeNodeCount options.nodes
        source := draft.source
        destination := draft.destination
        uniformCost := draft.uniformCost
        degree := List.replicate (normalizeNodeCount options.nodes) 0 } options.limits := by
    refine ⟨Nat.zero_le _, List.length_replicate, fun v hv => ?_⟩
    dsimp only
    rw [List.getD_eq_getElem?_getD, List.getElem?_replicate_of_lt hv]
    rfl
  obtain ⟨hcounted, hedges, hcount, hsource, hdestination⟩ := pushEdges_eq_ok hstart hpush
  dsimp only at hcount hsource hdestination
  rw [List.nil_append] at hedges
  have hlength : draft.edges.length < 2 ^ 32 := by
    rw [← hedges]
    exact hcounted.edges_length.trans_lt options.limits.maxEdges.toNat_lt
  have hpromised := isPromised_draftOf hn hdraft hlength
  refine ⟨hcount.trans (normalizeNodeCount_eq _), ?_, ?_⟩
  · rw [hcount, hsource, hdestination, hedges]
    exact ⟨hpromised.source_lt, hpromised.destination_lt, hpromised.lt, hpromised.ne,
      hpromised.nodup, hpromised.reaches_iff⟩
  · apply List.ext_getElem
    · rw [List.length_map, List.length_range, hcounted.degree_length]
    · intro v hv hv'
      rw [List.getElem_map, List.getElem_range, ← hcounted.degree_eq v (hcounted.degree_length ▸ hv),
        List.getD_eq_getElem?_getD, List.getElem?_eq_getElem hv, Option.getD_some]

end PathPlanner
