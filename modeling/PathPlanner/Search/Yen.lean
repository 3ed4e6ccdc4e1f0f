import PathPlanner.Library.DeviationCourse
import PathPlanner.Search.Enumerate

/-!
# Enumeration in canonical order

The loop of the enumeration is an enumeration by deviation: the roots are the beginnings of the
accepted paths, and two roots are the same when they visit the same *nodes*. So the accepted paths
are increasing and begin with the canonical shortest path.

## Main definitions

* `IsCandidatePath`: the simple paths between the endpoints within the hop bound
* `IsEnumerable`: those whose cost is representable
* `spurDeviation`: the enumeration by deviation that the loop carries out
* `countablePaths`: the paths that become pending, of no more hops than can be counted

## Main results

* `mem_deviations_iff`: a spur search ranges over the deviations at its root
* `enumerationLoop_spec`: the loop is an enumeration by deviation
* `enumeratePaths_enumerates`: what is accepted, whatever can be kept
* `enumeratePaths_ok`, `enumeratePaths_error`: what is accepted when all paths can be kept, and when
  nothing is
-/

namespace PathPlanner

open Multigraph

/-- A simple path from `source` to `dest` within the hop bound. -/
structure IsCandidatePath (view : PlanningView) (source dest maxHops : ℕ) (path : List ℕ) :
    Prop where
  isWalk : view.graph.IsWalk source path
  finish : view.graph.finish source path = dest
  isSimple : view.graph.IsSimple source path
  withinHops : WithinHops maxHops path.length

/-- A simple path between the endpoints within the hop bound whose exact cost is representable. -/
structure IsEnumerable (view : PlanningView) (source dest maxHops : ℕ) (path : List ℕ) : Prop where
  isWalk : view.graph.IsWalk source path
  finish : view.graph.finish source path = dest
  isSimple : view.graph.IsSimple source path
  withinHops : WithinHops maxHops path.length
  weight_lt : view.pathWeight path < 2 ^ 64

section Paths

variable {view : PlanningView} {source dest maxHops i : ℕ} {p q t : List ℕ}

theorem PlanningView.pathWeight_drop_le : view.pathWeight (t.drop i) ≤ view.pathWeight t :=
  weight_le_of_sublist (List.drop_sublist i t)

theorem PlanningView.pathWeight_take_add_drop :
    view.pathWeight (t.take i) + view.pathWeight (t.drop i) = view.pathWeight t := by
  unfold PlanningView.pathWeight
  rw [← weight_append, List.take_append_drop]

theorem PlanningView.pathWeight_le_of_key_le
    (h : view.pathKey source p ≤ view.pathKey source q) : view.pathWeight p ≤ view.pathWeight q :=
  Prod.Lex.monotone_fst _ _ h

/-- A path that reached the destination does not go on. -/
theorem IsEnumerable.length_lt (hp : IsEnumerable view source dest maxHops p)
    (hq : IsEnumerable view source dest maxHops q) (h : p.take i = q.take i) (hi : i < q.length) :
    i < p.length := by
  by_contra hle
  rw [List.take_of_length_le (not_lt.mp hle)] at h
  have hdrop : view.graph.finish (view.graph.finish source (q.take i)) (q.drop i) =
      view.graph.finish source (q.take i) := by
    rw [finish_take_drop, ← h, hp.finish, hq.finish]
  have hnil := (hq.isSimple.drop hi.le).eq_nil_of_finish_eq hdrop
  rw [List.drop_eq_nil_iff] at hnil
  omega

theorem isAdmissible_iff : IsAdmissible view {} source dest maxHops t ↔
    IsEnumerable view source dest maxHops t ∧ view.pathWeight t < 2 ^ 64 - 1 := by
  constructor
  · rintro ⟨hw, hf, hs, hh, -, hlt⟩
    exact ⟨⟨hw, hf, hs, hh, by omega⟩, hlt⟩
  · rintro ⟨⟨hw, hf, hs, hh, -⟩, hlt⟩
    exact ⟨hw, hf, hs, hh, by simp, hlt⟩

/-- **The enumeration by deviation** of the paths between the endpoints: a spur search finds paths
whose rest is cheap enough, and roots are the same when they visit the same nodes. -/
def spurDeviation (wf : view.WellFormed) (source dest maxHops : ℕ) :
    Deviation ℕ (ℕ ×ₗ ℕ ×ₗ List NodeId ×ₗ List LinkId) where
  paths := {t | IsEnumerable view source dest maxHops t}
  key := view.pathKey source
  reach i := {t | view.pathWeight (t.drop i) < 2 ^ 64 - 1}
  same r r' := view.graph.nodes source r = view.graph.nodes source r'
  key_injective p hp q hq h := wf.eq_of_pathKey_eq hp.isWalk hq.isWalk h
  same_refl _ := rfl
  length_lt p hp q hq i h hi := hp.length_lt hq h hi
  reach_zero p _ h0 i := PlanningView.pathWeight_drop_le.trans_lt h0
  reach_of_le p hp q hq i h hle hr := by
    have hw := PlanningView.pathWeight_le_of_key_le hle
    rw [← view.pathWeight_take_add_drop (i := i) (t := p),
      ← view.pathWeight_take_add_drop (i := i) (t := q), h] at hw
    exact (Nat.le_of_add_le_add_left hw).trans_lt hr

variable (wf : view.WellFormed)

theorem mem_targets_iff : t ∈ (spurDeviation wf source dest maxHops).targets ↔
    IsAdmissible view {} source dest maxHops t := by
  rw [isAdmissible_iff]
  rfl

include wf in
/-- The paths of representable cost are finitely many. -/
theorem finite_isEnumerable (hsource : source < view.nodeCount) :
    {t | IsEnumerable view source dest maxHops t}.Finite := by
  refine (finite_setOf_isWalk (G := view.graph) source view.nodeCount).subset fun t ht => ?_
  exact ⟨ht.isWalk, (wf.length_lt_of_isSimple hsource ht.isWalk ht.isSimple).le⟩

/-- The paths to enumerate are finitely many. -/
theorem finite_targets (hsource : source < view.nodeCount) :
    (spurDeviation wf source dest maxHops).targets.Finite :=
  (finite_isEnumerable wf hsource).subset fun _ ht => ht.1

/-- The canonical path is the best one to enumerate. -/
theorem isBest_targets_of_isCanonicalPath (h : IsCanonicalPath view {} source dest maxHops t) :
    (spurDeviation wf source dest maxHops).IsBest (spurDeviation wf source dest maxHops).targets
      t := by
  refine ⟨(mem_targets_iff wf).mpr h.admissible, fun p hp => ?_⟩
  by_cases hne : p = t
  · rw [hne]
  · exact (h.least p ((mem_targets_iff wf).mp hp) hne).le

end Paths

/-! ## Spur searches -/

section Spur

variable {view : PlanningView} {source dest maxHops i k v : ℕ} {accepted pending : List RankedRawPath}
  {a t x : List ℕ} {previous : RawPath} {options : EnumerationOptions}

/-- The entries of a ranked path. -/
def RankedRawPath.entries (entry : RankedRawPath) : List ℕ := entry.path.adjacency

/-- Every entry of the list ranks a path from the source. -/
def AllRanked (view : PlanningView) (source : ℕ) (ranked : List RankedRawPath) : Prop :=
  ∀ entry ∈ ranked, entry.Ranks view source entry.entries

theorem foldl_addNode (nodes : List ℕ) (bans : BanSet) :
    nodes.foldl BanSet.addNode bans = { bans with nodes := bans.nodes ++ nodes } := by
  induction nodes generalizing bans with
  | nil => simp
  | cons node nodes ih => simp [ih, BanSet.addNode]

theorem mem_foldl_addAdjacency {p : RankedRawPath → Bool} {f : RankedRawPath → ℕ} (bans : BanSet) :
    (accepted.foldl (fun bans c => if p c then bans.addAdjacency (f c) else bans) bans).nodes =
        bans.nodes ∧
      (k ∈ (accepted.foldl (fun bans c => if p c then bans.addAdjacency (f c) else bans)
        bans).adjacency ↔ k ∈ bans.adjacency ∨ ∃ c ∈ accepted, p c = true ∧ f c = k) := by
  induction accepted generalizing bans with
  | nil => simp
  | cons c accepted ih =>
    rw [List.foldl_cons]
    obtain ⟨hn, ha⟩ := ih (if p c then bans.addAdjacency (f c) else bans)
    rw [hn, ha]
    simp only [List.mem_cons, or_and_right, exists_or, exists_eq_left]
    split_ifs with hp
    · refine ⟨rfl, ?_⟩
      simp only [BanSet.addAdjacency, List.mem_append, List.mem_singleton, hp, true_and,
        eq_comm (a := k), or_assoc]
    · simp [hp]

/-- The nodes before the position are banned. -/
theorem spurBans_nodes : (spurBans accepted previous i).nodes = previous.nodes.take i := by
  unfold spurBans
  rw [(mem_foldl_addAdjacency (k := 0) _).1, foldl_addNode]
  simp

/-- **The entries banned** are those that an accepted path takes after a root with the same
nodes. -/
theorem mem_spurBans_adjacency (wf : view.WellFormed) (h : AllRanked view source accepted) :
    k ∈ (spurBans accepted (view.rawPath source a) i).adjacency ↔
      (spurDeviation wf source dest maxHops).Banned (accepted.map (·.entries)) a i k := by
  unfold spurBans
  rw [(mem_foldl_addAdjacency _).2, foldl_addNode]
  simp only [List.not_mem_nil, false_or, Deviation.Banned, List.mem_map, exists_exists_and_eq_and]
  refine exists_congr fun c => and_congr_right fun hc => ?_
  have hr := h c hc
  have hlen : c.path.nodes.length = c.entries.length + 1 := by
    rw [hr.path_eq]
    exact length_nodes
  have hnodes : c.path.nodes.take (i + 1) = view.graph.nodes source (c.entries.take i) := by
    rw [hr.path_eq]
    exact nodes_take
  have hroot : (view.rawPath source a).nodes.take (i + 1) =
      view.graph.nodes source (a.take i) := nodes_take
  rw [Bool.and_eq_true, decide_eq_true_eq, decide_eq_true_eq, hlen, hnodes, hroot]
  change (_ ∧ _) ∧ c.entries.getD i 0 = k ↔
    view.graph.nodes source (c.entries.take i) = view.graph.nodes source (a.take i) ∧ _
  rw [List.getD_eq_getElem?_getD]
  constructor
  · rintro ⟨⟨hlt, heq⟩, hk⟩
    rw [List.getElem?_eq_getElem (by omega)] at hk ⊢
    exact ⟨heq.symm, congrArg some hk⟩
  · rintro ⟨heq, hk⟩
    have := (List.getElem?_eq_some_iff.mp hk).1
    rw [hk]
    exact ⟨⟨by omega, heq.symm⟩, rfl⟩

/-- The hops left after a beginning within the hop bound are those that keep the bound. -/
theorem EnumerationOptions.withinHops_add_iff (hi : WithinHops options.maxHops i) (n : ℕ) :
    WithinHops options.maxHops (i + n) ↔ WithinHops (options.remainingHops i) n := by
  have hmax := options.maxHops_le
  unfold WithinHops at hi ⊢
  unfold EnumerationOptions.remainingHops
  split_ifs with hbound <;> omega

theorem IsEnumerable.isCandidatePath (h : IsEnumerable view source dest maxHops t) :
    IsCandidatePath view source dest maxHops t :=
  ⟨h.isWalk, h.finish, h.isSimple, h.withinHops⟩

/-- A beginning of a path within the hop bound is within the hop bound. -/
theorem IsCandidatePath.withinHops_take (ha : IsCandidatePath view source dest maxHops a)
    (hi : i ≤ a.length) : WithinHops maxHops i :=
  ha.withinHops.imp id hi.trans

/-- **What a spur search finds** continues a beginning of the path to a candidate path. -/
theorem IsCandidatePath.spur {bans : BanSet}
    (ha : IsCandidatePath view source dest options.maxHops a) (hi : i ≤ a.length)
    (hbans : bans.nodes = (view.graph.nodes source a).take i)
    (hx : IsAdmissible view bans (view.graph.finish source (a.take i)) dest
      (options.remainingHops i) x) :
    IsCandidatePath view source dest options.maxHops (a.take i ++ x) where
  isWalk := by
    rw [isWalk_append]
    exact ⟨ha.isWalk.take i, hx.isWalk⟩
  finish := by
    rw [finish_append]
    exact hx.finish
  isSimple := by
    refine isSimple_append.mpr ⟨ha.isSimple.take i, hx.isSimple, fun k hk hmem => ?_⟩
    -- the nodes before the spur node are banned
    refine (hx.unbanned k hk).2 ?_
    rw [hbans, ← dropLast_nodes_take hi]
    exact hmem
  withinHops := by
    rw [List.length_append, List.length_take_of_le hi,
      EnumerationOptions.withinHops_add_iff (ha.withinHops_take hi)]
    exact hx.withinHops

/-- The path of a spur is the beginning with what was found. -/
theorem spurTotal_rawPath : spurTotal (view.rawPath source a) i
    (view.rawPath (view.graph.finish source (a.take i)) x) =
      view.rawPath source (a.take i ++ x) := by
  unfold spurTotal PlanningView.rawPath
  dsimp only
  rw [nodes_take, nodes_append]
  rfl

/-- The spur node is the end of the beginning. -/
theorem getD_nodes_rawPath (hi : i ≤ a.length) :
    (view.rawPath source a).nodes.getD i 0 = view.graph.finish source (a.take i) := by
  rw [List.getD_eq_getElem?_getD, PlanningView.rawPath, nodes_getElem? hi]
  rfl

/-- **A spur search ranges over the deviations at its root**: what it finds continues the root, and
every continuation is open to it. -/
theorem mem_deviations_iff (wf : view.WellFormed) (h : AllRanked view source accepted)
    (ha : IsEnumerable view source dest options.maxHops a) (hi : i < a.length) :
    t ∈ (spurDeviation wf source dest options.maxHops).deviations (accepted.map (·.entries)) a i ↔
      ∃ x, t = a.take i ++ x ∧ view.pathWeight t < 2 ^ 64 ∧
        IsAdmissible view (spurBans accepted (view.rawPath source a) i)
          (view.graph.finish source (a.take i)) dest (options.remainingHops i) x := by
  have hlen : (a.take i).length = i := by simp [hi.le]
  have hcand := ha.isCandidatePath
  constructor
  · rintro ⟨hp, hroot, hreach, e, he, hban⟩
    obtain ⟨x, rfl⟩ : ∃ x, t = a.take i ++ x :=
      ⟨t.drop i, by rw [← hroot, List.take_append_drop]⟩
    obtain ⟨hw, hf, hs, hh, hlt⟩ := hp
    rw [isWalk_append] at hw
    rw [finish_append] at hf
    obtain ⟨-, hsx, hav⟩ := isSimple_append.mp hs
    change view.pathWeight ((a.take i ++ x).drop i) < 2 ^ 64 - 1 at hreach
    rw [List.drop_left' hlen] at hreach
    rw [List.getElem?_append_right hlen.le, hlen, Nat.sub_self] at he
    refine ⟨x, rfl, hlt, hw.2, hf, hsx, ?_, ?_, hreach⟩
    · rw [List.length_append, hlen,
        EnumerationOptions.withinHops_add_iff (hcand.withinHops_take hi.le)] at hh
      exact hh
    · intro k hk
      refine ⟨fun hkb => ?_, fun hkb => ?_⟩
      · -- a banned entry leaves the spur node, so it could only be the first one
        rw [mem_spurBans_adjacency wf h] at hkb
        cases x with
        | nil => cases hk
        | cons f x =>
          obtain rfl : f = e := Option.some_inj.mp he
          rcases List.mem_cons.mp hk with rfl | hk
          · exact hban hkb
          · obtain ⟨c, hc, hsame, hce⟩ := hkb
            obtain ⟨entry, hentry, rfl⟩ := List.mem_map.mp hc
            obtain ⟨hil, rfl⟩ := List.getElem?_eq_some_iff.mp hce
            have hcw := (h entry hentry).isWalk.drop i
            rw [List.drop_eq_getElem_cons hil] at hcw
            have hspur : view.graph.finish source (entry.entries.take i) =
                view.graph.finish source (a.take i) := by
              have hl := congrArg List.getLast? hsame
              rwa [nodes_eq_dropLast_append, List.getLast?_concat,
                @nodes_eq_dropLast_append _ _ _ _ (a.take i), List.getLast?_concat,
                Option.some_inj] at hl
            obtain ⟨v, hv, hkv⟩ := hw.2.2.exists_out hk
            have hvs := wf.eq_of_mem_out hkv hcw.1
            rw [hspur] at hvs
            exact (isSimple_cons.mp hsx).1 (hvs ▸ hv)
      · rw [spurBans_nodes] at hkb
        exact hav k hk (dropLast_nodes_take hi.le ▸ hkb)
  · rintro ⟨x, rfl, hlt, hx⟩
    have hx0 : x ≠ [] := by
      rintro rfl
      have hnil := (ha.isSimple.drop hi.le).eq_nil_of_finish_eq
        ((finish_take_drop i).trans (ha.finish.trans hx.finish.symm))
      rw [List.drop_eq_nil_iff] at hnil
      omega
    obtain ⟨hwalk, hfinish, hsimple, hhops⟩ := hcand.spur hi.le spurBans_nodes hx
    refine ⟨⟨hwalk, hfinish, hsimple, hhops, hlt⟩, List.take_left' hlen, ?_, ?_⟩
    · change view.pathWeight ((a.take i ++ x).drop i) < 2 ^ 64 - 1
      rw [List.drop_left' hlen]
      exact hx.weight_lt
    · cases x with
      | nil => exact absurd rfl hx0
      | cons e x =>
        refine ⟨e, ?_, ?_⟩
        · rw [List.getElem?_append_right hlen.le, hlen, Nat.sub_self]
          rfl
        · rw [← mem_spurBans_adjacency wf h]
          exact (hx.unbanned e List.mem_cons_self).1

end Spur

/-! ## The pending paths -/

section Pending

variable {view : PlanningView} {source dest maxHops : ℕ} {accepted pending rest : List RankedRawPath}
  {best : RankedRawPath} {p t : List ℕ}

/-- The paths of a list of ranked ones. -/
def pathsOf (ranked : List RankedRawPath) : Set (List ℕ) :=
  {p | p ∈ ranked.map (·.entries)}

/-- A pending list ranks its paths, each once. -/
structure PendingValid (view : PlanningView) (source : ℕ) (pending : List RankedRawPath) :
    Prop where
  ranked : AllRanked view source pending
  nodup : (pending.map (·.entries)).Nodup

theorem containsRawPath_rawPath_iff (h : AllRanked view source accepted) :
    containsRawPath accepted (view.rawPath source t) = true ↔ t ∈ accepted.map (·.entries) := by
  rw [containsRawPath_iff, List.mem_map]
  refine exists_congr fun entry => and_congr_right fun he => ?_
  rw [(h entry he).path_eq]
  exact ⟨fun heq => congrArg RawPath.adjacency heq, fun heq => congrArg _ heq⟩

/-- **A new path is added** to the pending ones, once. -/
theorem addSpur_spec (wf : view.WellFormed) (coh : view.CostCoherent)
    (hacc : AllRanked view source accepted) (hv : PendingValid view source pending)
    (ht : IsEnumerable view source dest maxHops t) (hlen : t.length ≤ maxHopCount)
    (hnew : t ∉ accepted.map (·.entries)) :
    PendingValid view source (addSpur view accepted pending (view.rawPath source t)) ∧
      pathsOf (addSpur view accepted pending (view.rawPath source t)) =
        insert t (pathsOf pending) := by
  have hsimple : rawPathIsSimple (view.rawPath source t) = true :=
    rawPathIsSimple_iff.mpr ht.isSimple
  obtain ⟨cost, hcost⟩ := Option.isSome_iff_exists.mp
    ((PlanningView.computeRawPathCost_isSome_iff wf coh ht.isWalk).mpr ⟨hlen, ht.weight_lt⟩)
  have hacc' : containsRawPath accepted (view.rawPath source t) = false := by
    rw [← Bool.not_eq_true, containsRawPath_rawPath_iff hacc]
    exact hnew
  unfold addSpur
  rw [hsimple, hacc', hcost]
  simp only [Bool.not_true, Bool.false_eq_true, if_false, Bool.false_or]
  split_ifs with hpend
  · rw [containsRawPath_rawPath_iff hv.ranked] at hpend
    have hin : t ∈ pathsOf pending := hpend
    exact ⟨hv, (Set.insert_eq_of_mem hin).symm⟩
  · rw [containsRawPath_rawPath_iff hv.ranked] at hpend
    refine ⟨⟨?_, ?_⟩, ?_⟩
    · intro entry he
      rcases List.mem_append.mp he with he | he
      · exact hv.ranked entry he
      · rw [List.mem_singleton.mp he]
        exact ⟨ht.isWalk, rfl, hcost⟩
    · rw [List.map_append, List.map_singleton]
      exact List.Nodup.append hv.nodup (List.nodup_singleton _)
        (List.disjoint_singleton.mpr hpend)
    · ext p
      simp only [pathsOf, List.map_append, List.map_singleton, List.mem_append, List.mem_singleton,
        Set.mem_ofPred_eq, Set.mem_insert_iff]
      exact or_comm

/-- A path without a cost is left out. -/
theorem addSpur_of_none (hcost : view.computeRawPathCost (view.rawPath source t) = none) :
    addSpur view accepted pending (view.rawPath source t) = pending := by
  unfold addSpur
  rw [hcost]
  simp only [ite_self]

theorem takeBest_eq_none_iff : takeBest view pending = none ↔ pending = [] := by
  cases pending <;> simp [takeBest]

/-- The loop for `best_index` ends at an entry. -/
theorem foldl_rankedBefore_mem (indexed : List (RankedRawPath × ℕ)) (start : RankedRawPath × ℕ) :
    indexed.foldl (fun best entry => if rankedBefore view entry.1 best.1 then entry else best)
      start ∈ start :: indexed := by
  induction indexed generalizing start with
  | nil => simp
  | cons entry indexed ih =>
    rw [List.foldl_cons]
    split_ifs
    · exact List.mem_cons_of_mem _ (ih entry)
    · rcases List.mem_cons.mp (ih start) with hm | hm
      · rw [hm]
        exact List.mem_cons_self
      · exact List.mem_cons_of_mem _ (List.mem_cons_of_mem _ hm)

/-- The entry where the loop for `best_index` ends is a first one. -/
theorem foldl_rankedBefore_le (wf : view.WellFormed) (coh : view.CostCoherent)
    (indexed : List (RankedRawPath × ℕ)) (start : RankedRawPath × ℕ)
    (h : ∀ entry ∈ start :: indexed, entry.1.Ranks view source entry.1.entries) :
    ∀ entry ∈ start :: indexed, view.pathKey source
      (indexed.foldl (fun best entry => if rankedBefore view entry.1 best.1 then entry else best)
        start).1.entries ≤ view.pathKey source entry.1.entries := by
  induction indexed generalizing start with
  | nil => simp
  | cons entry indexed ih =>
    have hstart := h start List.mem_cons_self
    have hentry := h entry (List.mem_cons_of_mem _ List.mem_cons_self)
    have hstep := rankedBefore_iff wf coh hentry hstart
    rw [List.foldl_cons]
    intro e he
    split_ifs with hb
    · rw [hstep] at hb
      have hle := ih entry fun e he => h e (List.mem_cons_of_mem _ he)
      rcases List.mem_cons.mp he with rfl | he
      · exact (hle entry List.mem_cons_self).trans hb.le
      · exact hle e he
    · rw [hstep, not_lt] at hb
      have hle := ih start fun e he => h e (by
        rcases List.mem_cons.mp he with rfl | he
        · exact List.mem_cons_self
        · exact List.mem_cons_of_mem _ (List.mem_cons_of_mem _ he))
      rcases List.mem_cons.mp he with rfl | he
      · exact hle e List.mem_cons_self
      · rcases List.mem_cons.mp he with rfl | he
        · exact (hle start List.mem_cons_self).trans hb
        · exact hle e (List.mem_cons_of_mem _ he)

/-- The path taken and the others are the pending ones. -/
theorem takeBest_perm (h : takeBest view pending = some (best, rest)) :
    (best :: rest).Perm pending := by
  cases pending with
  | nil => cases h
  | cons first others =>
    simp only [takeBest, Option.some_inj, Prod.mk.injEq] at h
    obtain ⟨rfl, rfl⟩ := h
    have hmem : bestPending view first others ∈ (first :: others).zipIdx :=
      foldl_rankedBefore_mem (others.zipIdx 1) (first, 0)
    generalize bestPending view first others = best at hmem ⊢
    obtain ⟨best, index⟩ := best
    obtain ⟨hlt, rfl⟩ := List.getElem?_eq_some_iff.mp (List.mk_mem_zipIdx_iff_getElem?.mp hmem)
    exact List.getElem_cons_eraseIdx_perm hlt

/-- The path taken is a first pending one. -/
theorem takeBest_le (wf : view.WellFormed) (coh : view.CostCoherent)
    (hv : AllRanked view source pending) (h : takeBest view pending = some (best, rest)) :
    ∀ p ∈ pathsOf pending, view.pathKey source best.entries ≤ view.pathKey source p := by
  cases pending with
  | nil => cases h
  | cons first others =>
    simp only [takeBest, Option.some_inj, Prod.mk.injEq] at h
    obtain ⟨rfl, -⟩ := h
    have hindexed : (first, 0) :: others.zipIdx 1 = (first :: others).zipIdx := rfl
    have hle := foldl_rankedBefore_le wf coh (others.zipIdx 1) (first, 0)
      fun entry he => hv entry.1 (List.fst_mem_of_mem_zipIdx (hindexed ▸ he))
    rintro p hp
    obtain ⟨entry, he, rfl⟩ := List.mem_map.mp hp
    obtain ⟨j, hj⟩ := List.mem_iff_getElem?.mp he
    exact hle (entry, j) (List.mk_mem_zipIdx_iff_getElem?.mpr hj)

/-- **The path taken** is a first pending one, and the others stay. -/
theorem takeBest_spec (wf : view.WellFormed) (coh : view.CostCoherent)
    (hv : PendingValid view source pending) (h : takeBest view pending = some (best, rest)) :
    best ∈ pending ∧ (∀ p ∈ pathsOf pending, view.pathKey source best.entries ≤
      view.pathKey source p) ∧ PendingValid view source rest ∧
      pathsOf rest = pathsOf pending \ {best.entries} := by
  have hperm := takeBest_perm h
  have hnodup := (hperm.map (·.entries)).nodup_iff.mpr hv.nodup
  rw [List.map_cons, List.nodup_cons] at hnodup
  refine ⟨hperm.subset List.mem_cons_self, takeBest_le wf coh hv.ranked h,
    ⟨fun e he => hv.ranked e (hperm.subset (List.mem_cons_of_mem _ he)), hnodup.2⟩, ?_⟩
  ext p
  have hin : p ∈ pathsOf pending ↔ p = best.entries ∨ p ∈ pathsOf rest := by
    change p ∈ pending.map (·.entries) ↔ _
    rw [← (hperm.map (·.entries)).mem_iff, List.map_cons, List.mem_cons]
    rfl
  rw [Set.mem_sdiff, hin, Set.mem_singleton_iff]
  constructor
  · intro hp
    exact ⟨Or.inr hp, fun heq => hnodup.1 (heq ▸ hp)⟩
  · rintro ⟨heq | hp, hne⟩
    · exact absurd heq hne
    · exact hp

end Pending

/-! ## The loop -/

/-- The enumeration by deviation between the endpoints of the options. -/
abbrev EnumerationOptions.deviation {view : PlanningView} (options : EnumerationOptions)
    (wf : view.WellFormed) : Deviation ℕ (ℕ ×ₗ ℕ ×ₗ List NodeId ×ₗ List LinkId) :=
  spurDeviation wf options.sourceView options.destinationView options.maxHops

/-- The paths whose hops can be counted in a cost. -/
def countablePaths : Set (List ℕ) := {t | t.length ≤ maxHopCount}

/-- The hops of every candidate path can be counted in its cost. -/
def EnumerationOptions.CountsHops (options : EnumerationOptions) (view : PlanningView) : Prop :=
  ∀ t, IsCandidatePath view options.sourceView options.destinationView options.maxHops t →
    t.length ≤ maxHopCount

theorem EnumerationOptions.countsHops_of_nodeCount_le {view : PlanningView}
    {options : EnumerationOptions} (wf : view.WellFormed)
    (hsource : options.sourceView < view.nodeCount) (h : view.nodeCount ≤ maxHopCount + 1) :
    options.CountsHops view := fun _ ht =>
  Nat.lt_succ_iff.mp ((wf.length_lt_of_isSimple hsource ht.isWalk ht.isSimple).trans_le h)

/-- The search for the first path meets a cost that is not representable. -/
def EnumerationOptions.overflowsFirst (options : EnumerationOptions) (view : PlanningView)
    (work : Work) : Bool :=
  (shortestPath view options.maxHops {} options.sourceView options.destinationView
    work).1.costOverflow

section Loop

variable {view : PlanningView} {options : EnumerationOptions} (wf : view.WellFormed)
  (coh : view.CostCoherent) (hsource : options.sourceView < view.nodeCount)
  {accepted pending pending' : List RankedRawPath} {work work' : Work} {a : List ℕ} {i n : ℕ}

include coh hsource

/-- **One spur search** adds the best deviation at its root, when there is one whose hops can be
counted. -/
theorem spurSearch_spec (hacc : AllRanked view options.sourceView accepted)
    (ha : IsEnumerable view options.sourceView options.destinationView options.maxHops a)
    (hi : i < a.length) (hv : PendingValid view options.sourceView pending)
    (h : spurSearch view options accepted (view.rawPath options.sourceView a) (pending, work) i =
      .ok (pending', work')) :
    PendingValid view options.sourceView pending' ∧
      ∀ q, q ∈ pathsOf pending' ↔ q ∈ pathsOf pending ∨ q ∈ countablePaths ∧
        (options.deviation wf).IsBest
          ((options.deviation wf).deviations (accepted.map (·.entries)) a i) q := by
  have hdev (t : List ℕ) :
      t ∈ (options.deviation wf).deviations (accepted.map (·.entries)) a i ↔ _ :=
    mem_deviations_iff wf hacc ha hi
  have hlt : view.graph.finish options.sourceView (a.take i) < view.nodeCount :=
    wf.lt_of_mem_nodes hsource (ha.isWalk.take i) _ finish_mem_nodes
  -- where nothing deviates, nothing is added
  have hnothing (hnone : ∀ t, t ∉ (options.deviation wf).deviations
      (accepted.map (·.entries)) a i) (q : List ℕ) :
      q ∈ pathsOf pending ↔ q ∈ pathsOf pending ∨ q ∈ countablePaths ∧
        (options.deviation wf).IsBest
          ((options.deviation wf).deviations (accepted.map (·.entries)) a i) q :=
    (or_iff_left fun hq => hnone q hq.2.1).symm
  unfold spurSearch at h
  split at h
  · cases h
  · next work₁ hspend =>
    rw [getD_nodes_rawPath hi.le] at h
    dsimp only at h
    split_ifs at h with hlimit hfound
    · -- nothing found: nothing deviates at this root
      obtain ⟨rfl, rfl⟩ := Prod.mk.inj (Except.ok.inj h)
      rw [Bool.not_eq_true] at hlimit
      rcases shortestPath_spec wf hlt hlimit with ⟨hf, -⟩ | ⟨-, hnone⟩
      · rw [hf] at hfound
        cases hfound
      · refine ⟨hv, hnothing fun t ht => ?_⟩
        obtain ⟨x, -, -, hx⟩ := (hdev t).mp ht
        exact hnone x hx
    · rw [Bool.not_eq_true] at hlimit
      rcases shortestPath_spec wf hlt hlimit with ⟨-, x, hpath, hx⟩ | ⟨hf, -⟩
      · rw [hpath] at h
        obtain ⟨rfl, rfl⟩ := Prod.mk.inj (Except.ok.inj h)
        rw [spurTotal_rawPath]
        -- what the search found is the first continuation of the root
        have hleast : ∀ y, IsAdmissible view
            (spurBans accepted (view.rawPath options.sourceView a) i)
            (view.graph.finish options.sourceView (a.take i)) options.destinationView
            (options.remainingHops i) y →
            view.pathKey options.sourceView (a.take i ++ x) ≤
              view.pathKey options.sourceView (a.take i ++ y) := by
          intro y hy
          refine Ranking.key_append_le_iff.mpr ?_
          by_cases hyx : y = x
          · rw [hyx]
          · exact (hx.least y hy hyx).le
        have hwalk : view.graph.IsWalk options.sourceView (a.take i ++ x) := by
          rw [isWalk_append]
          exact ⟨ha.isWalk.take i, hx.admissible.isWalk⟩
        have hcost := PlanningView.computeRawPathCost_isSome_iff wf coh hwalk
        by_cases hw : view.pathWeight (a.take i ++ x) < 2 ^ 64
        · have hmem := (hdev _).mpr ⟨x, rfl, hw, hx.admissible⟩
          have hbest : (options.deviation wf).IsBest
              ((options.deviation wf).deviations (accepted.map (·.entries)) a i)
              (a.take i ++ x) := by
            refine ⟨hmem, fun t ht => ?_⟩
            obtain ⟨y, rfl, -, hy⟩ := (hdev t).mp ht
            exact hleast y hy
          have hunique {q : List ℕ} (hq : (options.deviation wf).IsBest
              ((options.deviation wf).deviations (accepted.map (·.entries)) a i) q) :
              q = a.take i ++ x := hq.unique (fun _ ht => ht.1) hbest
          by_cases hlen : (a.take i ++ x).length ≤ maxHopCount
          · have hnew : a.take i ++ x ∉ accepted.map (·.entries) := fun hin =>
              Deviation.not_mem_deviations hin hmem.2.1 hmem
            obtain ⟨hv', hpaths⟩ := addSpur_spec wf coh hacc hv hmem.1 hlen hnew
            refine ⟨hv', fun q => ?_⟩
            rw [hpaths, Set.mem_insert_iff, or_comm]
            refine or_congr_right ⟨?_, fun hq => hunique hq.2⟩
            rintro rfl
            exact ⟨hlen, hbest⟩
          · -- its hops cannot be counted
            rw [addSpur_of_none (Option.not_isSome_iff_eq_none.mp fun hs => hlen (hcost.mp hs).1)]
            refine ⟨hv, fun q => (or_iff_left ?_).symm⟩
            rintro ⟨hq, hq'⟩
            exact hlen (hunique hq' ▸ hq)
        · rw [addSpur_of_none (Option.not_isSome_iff_eq_none.mp fun hs => hw (hcost.mp hs).2)]
          refine ⟨hv, hnothing fun t ht => ?_⟩
          obtain ⟨y, rfl, hlt, hy⟩ := (hdev t).mp ht
          exact hw ((PlanningView.pathWeight_le_of_key_le (hleast y hy)).trans_lt hlt)
      · rw [hf] at hfound
        exact absurd rfl hfound

/-- **The loop over the positions** of an accepted path adds the best deviations at its roots. -/
theorem spurLoop_spec (hacc : AllRanked view options.sourceView accepted)
    (ha : IsEnumerable view options.sourceView options.destinationView options.maxHops a)
    (hn : n ≤ a.length) (hv : PendingValid view options.sourceView pending)
    (h : (List.range n).foldlM (spurSearch view options accepted
      (view.rawPath options.sourceView a)) (pending, work) = .ok (pending', work')) :
    PendingValid view options.sourceView pending' ∧
      ∀ q, q ∈ pathsOf pending' ↔ q ∈ pathsOf pending ∨ q ∈ countablePaths ∧ ∃ i < n,
        (options.deviation wf).IsBest
          ((options.deviation wf).deviations (accepted.map (·.entries)) a i) q := by
  induction n generalizing pending' work' with
  | zero =>
    obtain ⟨rfl, rfl⟩ := Prod.mk.inj (Except.ok.inj h)
    refine ⟨hv, fun q => (or_iff_left ?_).symm⟩
    rintro ⟨-, i, hi, -⟩
    exact Nat.not_lt_zero i hi
  | succ n ih =>
    rw [List.range_succ, List.foldlM_append] at h
    cases hfront : (List.range n).foldlM (spurSearch view options accepted
        (view.rawPath options.sourceView a)) (pending, work) with
    | error ended =>
      rw [hfront] at h
      cases h
    | ok state =>
      obtain ⟨mid, workMid⟩ := state
      rw [hfront] at h
      have hlast : spurSearch view options accepted (view.rawPath options.sourceView a)
          (mid, workMid) n = .ok (pending', work') := by
        rw [← h]
        change _ = List.foldlM _ _ [n]
        rw [List.foldlM_cons]
        cases spurSearch view options accepted (view.rawPath options.sourceView a)
          (mid, workMid) n <;> rfl
      obtain ⟨hvmid, hmid⟩ := ih (by omega) hfront
      obtain ⟨hv', hpaths⟩ := spurSearch_spec wf coh hsource hacc ha (by omega) hvmid hlast
      refine ⟨hv', fun q => ?_⟩
      simp only [hpaths, hmid, Nat.lt_succ_iff_lt_or_eq, or_and_right, exists_or, exists_eq_left,
        and_or_left, or_assoc]

omit coh hsource in
variable (options) in
/-- What holds at the head of the loop: the accepted and the pending paths are those of a course. -/
structure EnumerationState.Valid (state : EnumerationState) : Prop where
  ranked : AllRanked view options.sourceView state.accepted
  pending : PendingValid view options.sourceView state.pending
  course : ∃ before a, state.accepted.map (·.entries) = before ++ [a] ∧
    (options.deviation wf).Course countablePaths before a (pathsOf state.pending)

/-- **The loop is an enumeration by deviation** that keeps the paths whose hops can be counted. -/
theorem enumerationLoop_spec {wanted fuel : ℕ} {state state' : EnumerationState}
    (hv : state.Valid options wf) (hlen : state.accepted.length ≤ max wanted 1)
    (hfuel : wanted ≤ state.accepted.length + fuel)
    (h : enumerationLoop view options wanted fuel state = .ok state') :
    AllRanked view options.sourceView state'.accepted ∧
      (options.deviation wf).Enumerates countablePaths (max wanted 1)
        (state'.accepted.map (·.entries)) := by
  have hpos : 0 < state.accepted.length := by
    obtain ⟨before, x, heq, -⟩ := hv.course
    have := congrArg List.length heq
    simp at this
    omega
  -- the loop ends when enough paths are accepted
  have hdone : ¬ state.accepted.length < wanted → (options.deviation wf).Enumerates countablePaths
      (max wanted 1) (state.accepted.map (·.entries)) := fun hge => by
    obtain ⟨before, a, heq, hcourse⟩ := hv.course
    exact ⟨before, a, _, heq, hcourse, Or.inl (by rw [List.length_map]; omega)⟩
  induction fuel generalizing state with
  | zero =>
    obtain rfl := Except.ok.inj h
    exact ⟨hv.ranked, hdone (by omega)⟩
  | succ fuel ih =>
    rw [enumerationLoop] at h
    split_ifs at h with hlt
    · obtain ⟨before, a, hA, hcourse⟩ := hv.course
      obtain ⟨last, hlast⟩ : ∃ last, state.accepted.getLast? = some last :=
        Option.ne_none_iff_exists'.mp fun hnone => by
          rw [List.getLast?_eq_none_iff] at hnone
          simp [hnone] at hpos
      have hlastA : last.entries = a := by
        have := congrArg List.getLast? hA
        rw [List.getLast?_map, hlast, List.getLast?_concat] at this
        exact Option.some_inj.mp this
      have hlastpath : last.path = view.rawPath options.sourceView a :=
        hlastA ▸ (hv.ranked last (List.mem_of_getLast? hlast)).path_eq
      rw [hlast] at h
      dsimp only at h
      split at h
      · cases h
      · next pending work hspurs =>
        rw [hlastpath] at hspurs
        obtain ⟨hv', hpaths⟩ := spurLoop_spec wf coh hsource hv.ranked hcourse.mem_paths.1 le_rfl
          hv.pending hspurs
        have hwaiting : pathsOf pending = pathsOf state.pending ∪
            (options.deviation wf).spurs countablePaths (before ++ [a]) a := by
          rw [← hA]
          exact Set.ext hpaths
        split at h
        · next hnone =>
          -- nothing is pending: the enumeration is exhausted
          obtain rfl := Except.ok.inj h
          rw [takeBest_eq_none_iff] at hnone
          have hempty : pathsOf pending = ∅ := by
            rw [hnone]
            exact Set.eq_empty_of_forall_notMem fun p hp => List.not_mem_nil hp
          refine ⟨hv.ranked, before, a, _, hA, hcourse, Or.inr ⟨?_, ?_⟩⟩
          · rw [List.length_map]
            exact hlt.trans_le (le_max_left _ _)
          · rw [hA, ← hwaiting, hempty]
        · next best rest hsome =>
          obtain ⟨hmem, hle, hvrest, hrest⟩ := takeBest_spec wf coh hv' hsome
          have hbest : (options.deviation wf).IsBest (pathsOf pending) best.entries :=
            ⟨List.mem_map_of_mem hmem, hle⟩
          have hnext : EnumerationState.Valid options wf
              { accepted := state.accepted ++ [best], pending := rest, work := work } := by
            refine ⟨?_, hvrest, before ++ [a], best.entries, ?_, ?_⟩
            · intro entry he
              rcases List.mem_append.mp he with he | he
              · exact hv.ranked entry he
              · rw [List.mem_singleton.mp he]
                exact hv'.ranked best hmem
            · rw [List.map_append, List.map_singleton, hA]
            · rw [hrest, hwaiting]
              exact hcourse.accept (hwaiting ▸ hbest)
          refine ih hnext ?_ ?_ h ?_ ?_
          · simp only [List.length_append, List.length_singleton]
            omega
          · simp only [List.length_append, List.length_singleton]
            omega
          · simp
          · intro hge
            obtain ⟨front, x, heq, hcourse'⟩ := hnext.course
            refine ⟨front, x, _, heq, hcourse', Or.inl ?_⟩
            simp only [List.length_map, List.length_append, List.length_singleton] at hge ⊢
            omega
    · obtain rfl := Except.ok.inj h
      exact ⟨hv.ranked, hdone hlt⟩

/-- **What the enumeration accepts**, once it found a first path. -/
theorem enumeratePaths_enumerates (h : enumeratePaths view options work = .ok (accepted, work')) :
    AllRanked view options.sourceView accepted ∧
      (options.deviation wf).Enumerates countablePaths (max options.wanted 1)
        (accepted.map (·.entries)) := by
  unfold enumeratePaths at h
  dsimp only at h
  split_ifs at h with hlimit hfound
  rw [Bool.not_eq_true] at hlimit
  rcases shortestPath_spec wf hsource hlimit with ⟨-, first, hpath, hfirst⟩ | ⟨hf, -⟩
  · rw [hpath] at h
    have henum := (isAdmissible_iff.mp hfirst.admissible).1
    split at h
    · cases h
    · next cost hcost =>
      split at h
      · cases h
      · next state hloop =>
        obtain ⟨rfl, -⟩ := Prod.mk.inj (Except.ok.inj h)
        have hcounts : first ∈ countablePaths :=
          ((PlanningView.computeRawPathCost_isSome_iff wf coh henum.isWalk).mp (hcost ▸ rfl)).1
        have hempty : pathsOf [] = ∅ := Set.eq_empty_of_forall_notMem fun _ hp =>
          List.not_mem_nil hp
        refine enumerationLoop_spec wf coh hsource ⟨?_, ?_, [], first, rfl, ?_⟩ ?_ ?_ hloop
        · intro entry he
          rw [List.mem_singleton.mp he]
          exact ⟨henum.isWalk, rfl, hcost⟩
        · exact ⟨by simp [AllRanked], List.nodup_nil⟩
        · rw [hempty]
          exact .start (isBest_targets_of_isCanonicalPath wf hfirst) hcounts
        · exact le_max_right _ _
        · simp only [List.length_singleton]
          omega
  · rw [hf] at hfound
    exact absurd rfl hfound

/-- Where the hops of all paths can be counted, this is the unbounded enumeration. -/
theorem enumeratePaths_ok (hhops : options.CountsHops view)
    (h : enumeratePaths view options work = .ok (accepted, work')) :
    AllRanked view options.sourceView accepted ∧
      (options.deviation wf).Finished (max options.wanted 1) (accepted.map (·.entries)) ∧
      ∃ t, IsAdmissible view {} options.sourceView options.destinationView options.maxHops t := by
  obtain ⟨hranked, henum⟩ := enumeratePaths_enumerates wf coh hsource h
  refine ⟨hranked, henum.finished (fun t ht => hhops t (IsEnumerable.isCandidatePath ht))
    (finite_isEnumerable wf hsource), ?_⟩
  obtain ⟨first, -, hfirst⟩ := henum.exists_isBest
  exact ⟨first, (mem_targets_iff wf).mp hfirst.1⟩

omit coh hsource

theorem spurSearch_error {previous : RawPath} {state : List RankedRawPath × Work}
    {ended : EnumerationResult × Work}
    (h : spurSearch view options accepted previous state i = .error ended) :
    ∃ detail, ended.1 = workExhausted detail := by
  unfold spurSearch at h
  split at h
  · exact ⟨_, congrArg Prod.fst (Except.error.inj h).symm⟩
  · dsimp only at h
    split_ifs at h
    exact ⟨_, congrArg Prod.fst (Except.error.inj h).symm⟩

/-- The loop ends early only when the work budget is exhausted. -/
theorem enumerationLoop_error {wanted fuel : ℕ} {state : EnumerationState}
    {ended : EnumerationResult × Work}
    (h : enumerationLoop view options wanted fuel state = .error ended) :
    ∃ detail, ended.1 = workExhausted detail := by
  induction fuel generalizing state with
  | zero => cases h
  | succ fuel ih =>
    rw [enumerationLoop] at h
    split_ifs at h
    split at h
    · cases h
    · split at h
      · next hspurs =>
        obtain ⟨s, x, -, hstep⟩ := exists_mem_error_of_foldlM hspurs
        rw [Except.error.inj h] at hstep
        exact spurSearch_error hstep
      · split at h
        · cases h
        · exact ih h

include wf coh hsource

/-- **Without an accepted path** the enumeration ran out of work, there is no path to find, or the
hops of the first path cannot be counted. -/
theorem enumeratePaths_error {result : EnumerationResult}
    (h : enumeratePaths view options work = .error (result, work')) :
    result.ok = false ∧ result.paths = [] ∧ result.truncated = false ∧
      (result.resourceLimit = false →
        (∀ t, ¬ IsAdmissible view {} options.sourceView options.destinationView options.maxHops t) ∧
          result.failure = (if options.overflowsFirst view work then .costOverflow
            else .noStructuralPath) ∨
        result.failure = .costOverflow ∧ ∃ t, IsCanonicalPath view {} options.sourceView
          options.destinationView options.maxHops t ∧ t ∉ countablePaths) := by
  have hexhausted {P : Prop} : (∃ detail, result = workExhausted detail) →
      result.ok = false ∧ result.paths = [] ∧ result.truncated = false ∧
        (result.resourceLimit = false → P) := by
    rintro ⟨detail, rfl⟩
    exact ⟨rfl, rfl, rfl, fun hl => nomatch hl⟩
  unfold enumeratePaths at h
  dsimp only at h
  by_cases hlimit : (shortestPath view options.maxHops {} options.sourceView
      options.destinationView work).1.resourceLimit = true
  · rw [if_pos hlimit] at h
    exact hexhausted ⟨_, (Prod.mk.inj (Except.error.inj h)).1.symm⟩
  rw [if_neg hlimit] at h
  rw [Bool.not_eq_true] at hlimit
  rcases shortestPath_spec wf hsource hlimit with ⟨hf, first, hpath, hfirst⟩ | ⟨hf, hnone⟩
  · rw [hf, Bool.not_true, if_neg Bool.false_ne_true, hpath] at h
    have hadm := hfirst.admissible
    have hw := hadm.weight_lt
    cases hcost : view.computeRawPathCost (view.rawPath options.sourceView first) with
    | none =>
      rw [hcost] at h
      obtain ⟨rfl, -⟩ := Prod.mk.inj (Except.error.inj h)
      refine ⟨rfl, rfl, rfl, fun _ => Or.inr ⟨rfl, first, hfirst, fun hlen => ?_⟩⟩
      have hsome := (PlanningView.computeRawPathCost_isSome_iff wf coh hadm.isWalk).mpr
        ⟨hlen, by omega⟩
      rw [hcost] at hsome
      cases hsome
    | some cost =>
      rw [hcost] at h
      dsimp only at h
      split at h
      · next hloop =>
        obtain ⟨detail, hd⟩ := enumerationLoop_error hloop
        exact hexhausted ⟨detail, by rw [← hd, Except.error.inj h]⟩
      · cases h
  · rw [hf, Bool.not_false, if_pos rfl] at h
    obtain ⟨rfl, -⟩ := Prod.mk.inj (Except.error.inj h)
    exact ⟨rfl, rfl, rfl, fun _ => Or.inl ⟨hnone, rfl⟩⟩

end Loop

end PathPlanner
