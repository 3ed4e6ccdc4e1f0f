import PathPlanner.Coordinator.Bounds

/-!
# The notices of an epoch advance

An advance collects the boot identities of the registry, in their order, and the sockets of the
worker sessions, in the order of the sessions, and assigns the identities to the sockets by position.
The registry is sorted by identity and forgets workers; the sessions stand in the order of their
connections, and those that have ended are still there. So a notice names the boot identity of its
session only where the two orders happen to agree.

## Main definitions

* `Coordinator.registryRank`, `Coordinator.noticePosition`: the two positions
* `Coordinator.PairsInOrder`: the condition on the state before the advance
* `Coordinator.TellsTruth`: what an accepted advance should do

## Main results

* `Coordinator.filter_advanceNotices`: a worker session gets one notice, that of its position
* `Coordinator.IsKeyed.step`: registrations are found under their own boot identity
* `Coordinator.advanceEpoch_tellsTruth_iff`: **an advance tells the truth** exactly when the sessions
  and the registry are paired in order
-/

namespace PathPlanner

open Run SortedList

/-- The boot identity of a worker session, under which it is released. -/
def Session.identity (session : Session) : Bool × Option WorkerBootId :=
  (session.workerRole, session.bootKey)

namespace Coordinator

variable {sha : List UInt8 → Sha256Digest} {codec : PayloadCodec} {c c' : Coordinator}
  {action : CoordinatorAction} {index : ℕ} {epoch : FabricEpoch} {boot : WorkerBootId}

/-! ## The two orders -/

/-- The number of registered boot identities below one. -/
def registryRank (c : Coordinator) (boot : WorkerBootId) : ℕ := c.workers.keys.countP (· < boot)

/-- The number of worker sessions, ended ones included, before one. -/
def noticePosition (c : Coordinator) (index : ℕ) : ℕ :=
  (c.sessions.take index).countP (·.workerRole)

/-- Each live worker session has as many worker sessions before it as there are registered boot
identities below its own, which is registered; a nil identity may also stand beyond the registry.
And each registered boot identity is that of a worker session, or fenced already. -/
structure PairsInOrder (c : Coordinator) : Prop where
  position : ∀ index session boot, c.sessions[index]? = some session →
    session.workerRole = true → session.isClosed = false → session.bootKey = some boot →
      (boot ∈ c.workers ∧ c.registryRank boot = c.noticePosition index) ∨
        (boot = default ∧ c.workers.keys.length ≤ c.noticePosition index)
  covered : ∀ boot ∈ c.workers, boot ∈ c.fencedBoots ∨
    ∃ session ∈ c.sessions, session.workerRole = true ∧ session.bootKey = some boot

/-- The notice that an advance owes to a worker session. -/
def ownNotice (index : ℕ) (boot : WorkerBootId) (epoch : FabricEpoch) : SentFrame :=
  fenceFrame index boot (FabricEpoch.toWire epoch) .epochStale .coordinatorEpochStale
    "the coordinator epoch advanced; this worker incarnation must restart"

/-- The call has still to send each live worker session one notice, which names the boot identity of
the session; all boot identities that were registered are fenced; and the registry is empty. -/
structure TellsTruth (c c' : Coordinator) (epoch : FabricEpoch) : Prop where
  notices : ∃ notices, c'.calls = c.calls ++ [.advanceRuntime epoch notices] ∧
    ∀ index session, c.sessions[index]? = some session → session.workerRole = true →
      session.isClosed = false → ∃ boot, session.bootKey = some boot ∧
        notices.filter (·.session = index) = [ownNotice index boot epoch]
  fenced : ∀ boot registration, c.workers.lookup boot = some registration →
    registration.boot ∈ c'.fencedBoots
  emptied : c'.workers = ∅

/-! ## Identities -/

/-- The registrations are found under their boot identities, and a worker session has one. -/
structure IsKeyed (c : Coordinator) : Prop where
  boot_eq : ∀ boot registration, c.workers.lookup boot = some registration →
    registration.boot = boot
  bootKey_isSome : ∀ session ∈ c.sessions, session.workerRole = true → session.bootKey.isSome = true

/-- A change of one session that keeps its identity. -/
theorem map_identity_modify {l : List Session} {f : Session → Session}
    (h : ∀ s, (f s).identity = s.identity) :
    (l.modify index f).map Session.identity = l.map Session.identity := by
  rw [map_modify Session.identity id h, List.modify_id]

theorem map_identity_goto (activity : SessionActivity) :
    (c.goto index activity).sessions.map Session.identity = c.sessions.map Session.identity :=
  map_identity_modify fun _ => rfl

/-- The identities after a section: a session is added, or one is registered, or nothing changes. -/
theorem identities_of_step (h : c.step sha codec action = some c') :
    c'.sessions.map Session.identity = c.sessions.map Session.identity ∨
      c'.sessions.map Session.identity = c.sessions.map Session.identity ++ [(false, none)] ∨
        ∃ index boot, c'.sessions.map Session.identity =
          (c.sessions.map Session.identity).modify index fun _ => (true, some boot) := by
  cases change_of_step h with
  | connect =>
    refine Or.inr (Or.inl ?_)
    rw [List.map_append]
    rfl
  | @register index session hs frame hello capture hactivity =>
    exact Or.inr (Or.inr ⟨index, hello.boot, map_modify _ _ fun _ => rfl⟩)
  | quiet => exact Or.inl (map_identity_modify fun _ => rfl)
  | publishing => exact Or.inl (map_identity_modify fun _ => rfl)
  | validated => exact Or.inl (map_identity_modify fun _ => rfl)
  | complete => exact Or.inl (map_identity_modify fun _ => rfl)
  | retain => exact Or.inl (map_identity_modify fun _ => rfl)
  | record => exact Or.inl (map_identity_modify fun _ => rfl)
  | @dispatch index session hs epoch request payload hactivity =>
    refine Or.inl ?_
    unfold Coordinator.dispatch
    split
    · exact map_identity_goto _
    · exact (map_identity_goto _).trans (map_identity_modify fun _ => rfl)
  | relay => exact Or.inl (map_identity_modify fun _ => rfl)
  | sendFails => exact Or.inl (map_identity_modify fun _ => rfl)
  | markUnwritable => exact Or.inl (map_identity_modify fun _ => rfl)
  | @collect index session hs d hactivity =>
    refine Or.inl ((map_identity_goto _).trans ?_)
    dsimp only
    rw [List.map_map]
    refine List.map_congr_left fun session _ => ?_
    change (session.clearOutstanding d.request).identity = session.identity
    unfold Session.clearOutstanding
    split_ifs <;> rfl
  | finish => exact Or.inl (map_identity_modify fun _ => rfl)
  | release => exact Or.inl (map_identity_modify fun _ => rfl)
  | _ => exact Or.inl rfl

theorem bootKey_isSome_iff : (∀ session ∈ c.sessions, session.workerRole = true →
    session.bootKey.isSome = true) ↔
      ∀ identity ∈ c.sessions.map Session.identity, identity.1 = true → identity.2.isSome = true := by
  rw [List.forall_mem_map]
  rfl

/-- **Registrations are found under their own boot identity** after any section. -/
theorem IsKeyed.step (h : c.IsKeyed) (hstep : c.step sha codec action = some c') : c'.IsKeyed where
  boot_eq := by
    intro boot registration hlookup
    cases change_of_step hstep with
    | @complete index session hs publication status detail hactivity =>
      change (c.countPublication publication.frame.workerBoot status).lookup boot = _ at hlookup
      unfold countPublication at hlookup
      split at hlookup
      · exact h.boot_eq boot registration hlookup
      · next old hold =>
        by_cases hboot : boot = publication.frame.workerBoot
        · subst hboot
          rw [AList.lookup_insert] at hlookup
          obtain rfl := Option.some.inj hlookup
          have hcount : (old.count status).boot = old.boot := by
            unfold WorkerRegistration.count
            split_ifs <;> rfl
          exact hcount.trans (h.boot_eq _ old hold)
        · rw [AList.lookup_insert_ne hboot] at hlookup
          exact h.boot_eq boot registration hlookup
    | @register index session hs frame hello capture hactivity =>
      change (c.workers.insert hello.boot (registrationOf hello capture)).lookup boot = _ at hlookup
      by_cases hboot : boot = hello.boot
      · subst hboot
        rw [AList.lookup_insert] at hlookup
        obtain rfl := Option.some.inj hlookup
        rfl
      · rw [AList.lookup_insert_ne hboot] at hlookup
        exact h.boot_eq boot registration hlookup
    | @dispatch index session hs epoch request payload hactivity =>
      rw [(c.dispatch_frame index epoch request payload).1] at hlookup
      exact h.boot_eq boot registration hlookup
    | @release index session hs hactivity =>
      change ((releasedBoot session).elim c.workers c.workers.erase).lookup boot = _ at hlookup
      cases hreleased : releasedBoot session with
      | none =>
        rw [hreleased] at hlookup
        exact h.boot_eq boot registration hlookup
      | some key =>
        rw [hreleased] at hlookup
        change (c.workers.erase key).lookup boot = _ at hlookup
        by_cases hkey : boot = key
        · subst hkey
          rw [AList.lookup_erase] at hlookup
          cases hlookup
        · rw [AList.lookup_erase_ne hkey] at hlookup
          exact h.boot_eq boot registration hlookup
    | @fenceWorker key old hold calls =>
      by_cases hkey : boot = key
      · subst hkey
        rw [AList.lookup_insert] at hlookup
        obtain rfl := Option.some.inj hlookup
        exact h.boot_eq boot old hold
      · rw [AList.lookup_insert_ne hkey] at hlookup
        exact h.boot_eq boot registration hlookup
    | advanceEpoch => cases hlookup
    | _ => exact h.boot_eq boot registration hlookup
  bootKey_isSome := by
    have hbefore := bootKey_isSome_iff.mp h.bootKey_isSome
    refine bootKey_isSome_iff.mpr fun identity hidentity hrole => ?_
    rcases identities_of_step hstep with heq | heq | ⟨i, boot, heq⟩
    · rw [heq] at hidentity
      exact hbefore identity hidentity hrole
    · rw [heq] at hidentity
      rcases List.mem_append.mp hidentity with hmem | hmem
      · exact hbefore identity hmem hrole
      · obtain rfl := List.mem_singleton.mp hmem
        cases hrole
    · rw [heq] at hidentity
      rcases mem_modify hidentity with hmem | ⟨_, _, rfl⟩
      · exact hbefore identity hmem hrole
      · rfl

/-! ## The notices -/

/-- The registered boot identities, in their order. -/
theorem map_boot_workers (h : c.IsKeyed) :
    ((sortBy id c.workers.keys).filterMap c.workers.lookup).map (·.boot) =
      sortBy id c.workers.keys := by
  rw [List.map_filterMap]
  have hself : ∀ boot ∈ sortBy id c.workers.keys,
      (c.workers.lookup boot).map (·.boot) = some boot := by
    intro boot hboot
    rw [mem_sortBy, ← AList.mem_keys, ← AList.lookup_isSome, Option.isSome_iff_exists] at hboot
    obtain ⟨registration, hlookup⟩ := hboot
    rw [hlookup, Option.map_some, h.boot_eq boot registration hlookup]
  exact (List.filterMap_congr hself).trans List.filterMap_some

/-- The identity at a position of the sorted registry. -/
theorem sortedBoots_getD_eq_iff {position : ℕ} :
    (sortBy id c.workers.keys).getD position default = boot ↔
      (boot ∈ c.workers ∧ c.registryRank boot = position) ∨
        (boot = default ∧ c.workers.keys.length ≤ position) := by
  have hsorted : (sortBy id c.workers.keys).Pairwise (· < ·) :=
    pairwise_lt_sortBy id c.workers.keys (by rw [List.map_id]; exact c.workers.keys_nodup)
  have hposition : (sortBy id c.workers.keys)[position]? = some boot ↔
      boot ∈ c.workers ∧ c.registryRank boot = position := by
    rw [getElem?_eq_some_iff_countP hsorted, mem_sortBy, ← AList.mem_keys,
      (perm_sortBy id c.workers.keys).countP_eq]
    rfl
  rw [← hposition, List.getD_eq_getElem?_getD, ← length_sortBy id c.workers.keys,
    ← List.getElem?_eq_none_iff]
  cases (sortBy id c.workers.keys)[position]? with
  | none => simp [eq_comm]
  | some other => simp

/-- What is left of an indexed map that misses a test. -/
theorem filter_mapIdx_eq_nil {β γ : Type*} {l : List β} {f : ℕ → β → γ} {p : γ → Bool}
    (h : ∀ i, ∀ b ∈ l, p (f i b) = false) : (l.mapIdx f).filter p = [] := by
  refine List.filter_eq_nil_iff.mpr fun x hx => ?_
  obtain ⟨i, hi, rfl⟩ := List.mem_mapIdx.mp hx
  rw [h i _ (List.getElem_mem hi)]
  exact Bool.false_ne_true

/-- A position splits a list. -/
theorem exists_split_of_getElem? {β : Type*} {l : List β} {b : β} (h : l[index]? = some b) :
    ∃ before after, l = before ++ b :: after ∧ before.length = index := by
  obtain ⟨hlt, hget⟩ := List.getElem?_eq_some_iff.mp h
  refine ⟨l.take index, l.drop (index + 1), ?_, ?_⟩
  · rw [← hget, List.cons_getElem_drop_succ, List.take_append_drop]
  · rw [List.length_take]
    omega

/-- Of the marked entries of a list, each mapped with its place among them, the one that stands at a
given position. -/
theorem filter_mapIdx_filter_zipIdx {β γ : Type*} {l : List β} {b : β} {p : β → Bool}
    (h : l[index]? = some b) (hb : p b = true) {f : ℕ → β × ℕ → γ} {position : γ → ℕ}
    (hf : ∀ i x, position (f i x) = x.2) :
    ((l.zipIdx.filter (p ·.1)).mapIdx f).filter (fun y => decide (position y = index)) =
      [f ((l.take index).countP p) (b, index)] := by
  obtain ⟨before, after, rfl, rfl⟩ := exists_split_of_getElem? h
  have hplace : (before.zipIdx.filter (p ·.1)).length = before.countP p := by
    rw [← List.countP_eq_length_filter]
    conv_rhs => rw [← List.zipIdx_map_fst 0 before, List.countP_map]
    rfl
  have hsplit : (before ++ b :: after).zipIdx.filter (p ·.1) =
      before.zipIdx.filter (p ·.1) ++
        (b, before.length) :: (after.zipIdx (before.length + 1)).filter (p ·.1) := by
    rw [List.zipIdx_append, List.filter_append, List.zipIdx_cons, Nat.zero_add]
    exact congrArg _ (List.filter_cons_of_pos hb)
  rw [hsplit, List.mapIdx_append, List.mapIdx_cons, List.filter_append, filter_mapIdx_eq_nil,
    List.nil_append, List.filter_cons_of_pos (by simp [hf]), filter_mapIdx_eq_nil, hplace,
    Nat.zero_add, List.take_left]
  · -- the entries behind stand at larger positions
    intro i x hx
    have hle := List.le_snd_of_mem_zipIdx (List.mem_of_mem_filter hx)
    rw [hf]
    exact decide_eq_false (by omega)
  · -- the entries before stand at smaller ones
    intro i x hx
    have hlt := List.snd_lt_of_mem_zipIdx (List.mem_of_mem_filter hx)
    rw [hf]
    exact decide_eq_false (by omega)

/-- **A worker session gets one notice**, with the boot identity that stands in the registry where
the session stands among the worker sessions. -/
theorem filter_advanceNotices (h : c.IsKeyed) {session : Session}
    (hs : c.sessions[index]? = some session) (hrole : session.workerRole = true) :
    (c.advanceNotices epoch).filter (·.session = index) =
      [ownNotice index ((sortBy id c.workers.keys).getD (c.noticePosition index) default)
        epoch] := by
  unfold advanceNotices
  dsimp only
  rw [map_boot_workers h]
  exact filter_mapIdx_filter_zipIdx (p := Session.workerRole) hs hrole fun _ _ => rfl

/-- The notices tell sessions apart by their boot identities. -/
theorem ownNotice_inj {boot' : WorkerBootId} :
    ownNotice index boot epoch = ownNotice index boot' epoch ↔ boot = boot' :=
  ⟨congrArg SentFrame.workerBoot, fun h => h ▸ rfl⟩

theorem mem_workerBoots : boot ∈ c.workerBoots ↔
    ∃ session ∈ c.sessions, session.workerRole = true ∧ session.bootKey = some boot := by
  unfold workerBoots releasedBoot
  rw [List.mem_toFinset, List.mem_filterMap]
  refine exists_congr fun session => and_congr_right fun _ => ?_
  split_ifs with hrole
  · simp [hrole]
  · simp [hrole]

theorem IsStarted.isKeyed (h : c.IsStarted) : c.IsKeyed := by
  refine ⟨fun boot registration hlookup => ?_, ?_⟩
  · rw [h.workers] at hlookup
    cases hlookup
  · rw [h.sessions]
    exact fun session hmem => absurd hmem List.not_mem_nil

theorem isKeyed_of_run {start : Coordinator} {actions : List CoordinatorAction}
    (hstart : start.IsStarted) (hrun : run (step sha codec) start actions = some c) : c.IsKeyed :=
  invariant_of_run (fun _ _ _ hs h => h.step hs) hrun hstart.isKeyed

/-- The notices and the fences of an advance, when registrations are found under their own boot
identity. -/
theorem IsKeyed.tellsTruth_iff (hkeyed : c.IsKeyed) (h : c.advanceEpoch epoch = .ok c') :
    c.TellsTruth c' epoch ↔ c.PairsInOrder := by
  unfold advanceEpoch at h
  split_ifs at h
  obtain rfl := Except.ok.inj h
  constructor
  · rintro ⟨⟨notices, hcalls, hnotices⟩, hfenced, -⟩
    obtain rfl : c.advanceNotices epoch = notices := by
      have hcall := List.append_cancel_left hcalls
      exact (CallRest.advanceRuntime.inj (List.singleton_inj.mp hcall)).2
    refine ⟨fun index session boot hs hrole hlive hkey => ?_, fun boot hboot => ?_⟩
    · obtain ⟨own, hown, hnotice⟩ := hnotices index session hs hrole hlive
      obtain rfl := Option.some.inj (hkey.symm.trans hown)
      rw [filter_advanceNotices hkeyed hs hrole, List.singleton_inj, ownNotice_inj] at hnotice
      exact sortedBoots_getD_eq_iff.mp hnotice
    · obtain ⟨registration, hlookup⟩ := Option.isSome_iff_exists.mp (AList.lookup_isSome.mpr hboot)
      have hmem := hfenced boot registration hlookup
      rw [hkeyed.boot_eq boot registration hlookup] at hmem
      exact (Finset.mem_union.mp hmem).imp_right mem_workerBoots.mp
  · rintro ⟨hposition, hcovered⟩
    refine ⟨⟨_, rfl, fun index session hs hrole hlive => ?_⟩, fun boot registration hlookup => ?_, rfl⟩
    · obtain ⟨boot, hkey⟩ := Option.isSome_iff_exists.mp
        (hkeyed.bootKey_isSome session (List.mem_of_getElem? hs) hrole)
      refine ⟨boot, hkey, ?_⟩
      rw [filter_advanceNotices hkeyed hs hrole,
        sortedBoots_getD_eq_iff.mpr (hposition index session boot hs hrole hlive hkey)]
    · rw [hkeyed.boot_eq boot registration hlookup]
      have hboot := AList.lookup_isSome.mp (Option.isSome_of_mem hlookup)
      exact Finset.mem_union.mpr ((hcovered boot hboot).imp_right mem_workerBoots.mpr)

/-- **An advance tells the truth** in a reachable state exactly when the sessions and the registry
are paired in order. -/
theorem advanceEpoch_tellsTruth_iff {start : Coordinator} {actions : List CoordinatorAction}
    (hstart : start.IsStarted) (hrun : run (step sha codec) start actions = some c)
    (h : c.advanceEpoch epoch = .ok c') : c.TellsTruth c' epoch ↔ c.PairsInOrder :=
  (isKeyed_of_run hstart hrun).tellsTruth_iff h

/-! ## Two workers -/

/-- The condition asks about finitely many sessions and boot identities. -/
theorem pairsInOrder_iff (c : Coordinator) : c.PairsInOrder ↔
    (∀ i : Fin c.sessions.length, c.sessions[i].workerRole = true →
      c.sessions[i].isClosed = false → ∀ boot ∈ c.sessions[i].bootKey,
        (boot ∈ c.workers ∧ c.registryRank boot = c.noticePosition i) ∨
          (boot = default ∧ c.workers.keys.length ≤ c.noticePosition i)) ∧
      ∀ boot ∈ c.workers.keys, boot ∈ c.fencedBoots ∨
        ∃ session ∈ c.sessions, session.workerRole = true ∧ session.bootKey = some boot := by
  constructor
  · rintro ⟨hposition, hcovered⟩
    exact ⟨fun i hrole hlive boot hkey =>
      hposition i _ boot (List.getElem?_eq_getElem i.isLt) hrole hlive hkey, hcovered⟩
  · rintro ⟨hposition, hcovered⟩
    refine ⟨fun index session boot hs hrole hlive hkey => ?_, hcovered⟩
    obtain ⟨hlt, rfl⟩ := List.getElem?_eq_some_iff.mp hs
    exact hposition ⟨index, hlt⟩ hrole hlive boot hkey

instance (c : Coordinator) : Decidable c.PairsInOrder := decidable_of_iff' _ c.pairsInOrder_iff

/-- Two workers register, each on a session of its own. -/
def twoWorkers (first second : UInt8) : List CoordinatorAction :=
  [.connect, .connect] ++ handshake 0 first ++ handshake 1 second

/-- The coordinator whose workers have connected in the order of their boot identities. -/
def orderedCoordinator : Coordinator :=
  (run (step constantHash byteCodec) linkCoordinator (twoWorkers 1 2)).get (by decide +kernel)

/-- The coordinator whose workers have connected the other way round. -/
def swappedCoordinator : Coordinator :=
  (run (step constantHash byteCodec) linkCoordinator (twoWorkers 2 1)).get (by decide +kernel)

theorem advanceEpoch_tellsTruth_iff_orderedCoordinator : ∃ c',
    orderedCoordinator.advanceEpoch (.ofNat 2) = .ok c' ∧
      orderedCoordinator.TellsTruth c' (.ofNat 2) := by
  have hrun : run (step constantHash byteCodec) linkCoordinator (twoWorkers 1 2) =
    some orderedCoordinator := (Option.some_get _).symm
  have hadvance : orderedCoordinator.advanceEpoch (.ofNat 2) = .ok _ :=
    if_neg (by decide +kernel)
  exact ⟨_, hadvance,
    (advanceEpoch_tellsTruth_iff ⟨rfl, rfl, rfl⟩ hrun hadvance).mpr (by decide +kernel)⟩

/-- Each of the two workers is told that the other one is fenced. -/
theorem not_advanceEpoch_tellsTruth_swappedCoordinator :
    ¬ ∀ (c c' : Coordinator) (actions : List CoordinatorAction) (epoch : FabricEpoch),
      run (step constantHash byteCodec) linkCoordinator actions = some c →
      c.advanceEpoch epoch = .ok c' → c.TellsTruth c' epoch := by
  intro h
  have hrun : run (step constantHash byteCodec) linkCoordinator (twoWorkers 2 1) =
    some swappedCoordinator := (Option.some_get _).symm
  have hadvance : swappedCoordinator.advanceEpoch (.ofNat 2) = .ok _ :=
    if_neg (by decide +kernel)
  have hkeyed : swappedCoordinator.IsKeyed := isKeyed_of_run ⟨rfl, rfl, rfl⟩ hrun
  have horder := (hkeyed.tellsTruth_iff hadvance).mp (h _ _ _ _ hrun hadvance)
  revert horder
  decide +kernel

end Coordinator

end PathPlanner
