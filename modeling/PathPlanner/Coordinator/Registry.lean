import PathPlanner.Coordinator.Currentness
import PathPlanner.Coordinator.System

/-!
# The registry of workers

A registration is made by the last section of a handshake, counted on by publications, marked by a
fence, and removed when its session is released or the epoch advances.

## Main definitions

* `Coordinator.standing`: what the registry says about a boot identity
* `Coordinator.Holds`: a live worker session has a boot identity
* `Coordinator.KeepsRegistry`: the section is taken from a state in which it does no harm
* `Coordinator.RegistryValid`: the invariant of the registry

## Main results

* `Coordinator.RegistryValid.step`: the step lemma
* `Coordinator.registry_valid`: the registry is valid after any run of such sections
-/

namespace PathPlanner

open Run

/-- A condition on an element of a list that a modification keeps. -/
theorem any_getElem?_modify {α : Type*} {l : List α} {f : α → α} {p : α → Bool} {i j : ℕ}
    (h : ∀ a, l[i]? = some a → p a = true → p (f a) = true) (hj : (l[j]?).any p = true) :
    ((l.modify i f)[j]?).any p = true := by
  rw [List.getElem?_modify]
  cases ha : l[j]? with
  | none =>
    rw [ha] at hj
    cases hj
  | some a =>
    rw [ha] at hj
    change p (if i = j then f a else a) = true
    split_ifs with hij
    · exact h a (hij ▸ ha) hj
    · exact hj

/-- What the registry says about a boot identity, without the counters. -/
structure Standing where
  fenced : Bool
  snapshot : SnapshotId
  epoch : CoordinatorEpoch

/-- The standing of a registration. -/
def WorkerRegistration.standing (registration : WorkerRegistration) : Standing :=
  ⟨registration.fenced, registration.snapshot, registration.registeredEpoch⟩

@[simp] theorem WorkerRegistration.standing_count (registration : WorkerRegistration)
    (status : WireStatus) : (registration.count status).standing = registration.standing := by
  unfold count
  split_ifs <;> rfl

/-- The handshake that a thread is about to register. -/
def SessionActivity.greeted? : SessionActivity → Option (HelloPayload × HandshakeCapture)
  | .greeted _ hello capture => some (hello, capture)
  | _ => none

/-- The session is a live one of a worker with this boot identity. -/
def Session.holds (key : WorkerBootId) (session : Session) : Bool :=
  session.workerRole && decide (session.bootKey = some key) && !session.isClosed

theorem Session.isClosed_eq_false {session : Session} (h : session.activity ≠ .closed) :
    session.isClosed = false := by
  unfold isClosed
  split
  · next heq => exact absurd heq h
  · rfl

namespace Coordinator

variable {sha : List UInt8 → Sha256Digest} {codec : PayloadCodec} {c c' : Coordinator}
  {action : CoordinatorAction} {key : WorkerBootId} {index j : ℕ}

/-! ## Standings -/

/-- What the registry says about a boot identity. -/
def standing (c : Coordinator) (key : WorkerBootId) : Option Standing :=
  (c.workers.lookup key).map (·.standing)

theorem standing_complete (publication : Publication) (status : WireStatus) (detail : String) :
    (c.complete index publication status detail).standing key = c.standing key := by
  change ((c.countPublication publication.frame.workerBoot status).lookup key).map _ =
    (c.workers.lookup key).map _
  unfold countPublication
  cases hlookup : c.workers.lookup publication.frame.workerBoot with
  | none => rfl
  | some registration =>
    by_cases hkey : key = publication.frame.workerBoot
    · subst hkey
      dsimp only
      rw [AList.lookup_insert, hlookup, Option.map_some, Option.map_some,
        WorkerRegistration.standing_count]
    · dsimp only
      rw [AList.lookup_insert_ne hkey]

theorem standing_register (hello : HelloPayload) (capture : HandshakeCapture) :
    (c.register index hello capture).standing key =
      if key = hello.boot then some ⟨false, hello.snapshot, FabricEpoch.toWire capture.epoch⟩
      else c.standing key := by
  change ((c.workers.insert hello.boot _).lookup key).map _ = _
  split_ifs with hkey
  · subst hkey
    rw [AList.lookup_insert]
    rfl
  · rw [AList.lookup_insert_ne hkey]
    rfl

theorem standing_release (session : Session) :
    (c.release index session).standing key =
      if releasedBoot session = some key then none else c.standing key := by
  change (((releasedBoot session).elim c.workers c.workers.erase).lookup key).map _ = _
  cases releasedBoot session with
  | none => rfl
  | some boot =>
    dsimp only [Option.elim]
    by_cases hkey : key = boot
    · subst hkey
      rw [AList.lookup_erase, if_pos rfl]
      rfl
    · rw [AList.lookup_erase_ne hkey, if_neg (fun h => hkey (Option.some.inj h).symm)]
      rfl

/-! ## Sessions -/

/-- A session is a live one of a worker with a boot identity. -/
def Holds (c : Coordinator) (index : ℕ) (key : WorkerBootId) : Prop :=
  (c.sessions[index]?).any (Session.holds key) = true

instance : Decidable (c.Holds index key) := inferInstanceAs (Decidable (_ = true))

theorem Holds.goto (h : c.Holds j key) {activity : SessionActivity} (hlive : activity ≠ .closed) :
    (c.goto index activity).Holds j key := by
  refine any_getElem?_modify (fun s _ hs => ?_) h
  unfold Session.holds at hs ⊢
  rw [Session.isClosed_eq_false hlive, Bool.not_false, Bool.and_true]
  exact (Bool.and_eq_true_iff.mp hs).1

theorem Holds.finish (h : c.Holds j key) : (c.finish index).Holds j key := by
  refine any_getElem?_modify (fun s _ hs => ?_) h
  have hopen : ({ s with finished := true, activity := .closing } : Session).isClosed = false := rfl
  unfold Session.holds at hs ⊢
  rw [hopen, Bool.not_false, Bool.and_true]
  exact (Bool.and_eq_true_iff.mp hs).1

theorem Holds.connect (h : c.Holds j key) :
    ({ c with sessions := c.sessions ++ [{}], sessionCount := c.sessionCount + 1 } :
      Coordinator).Holds j key := by
  unfold Holds at h ⊢
  cases hj : c.sessions[j]? with
  | none =>
    rw [hj] at h
    cases h
  | some session =>
    dsimp only
    rw [List.getElem?_append_left (List.getElem?_eq_some_iff.mp hj).1]
    exact h

theorem afterCompletion_ne_closed (publication : Publication) (status : WireStatus)
    (detail : String) : c.afterCompletion publication status detail ≠ .closed := by
  unfold afterCompletion
  split_ifs
  · split <;> exact nofun
  · exact nofun

theorem Holds.dispatch (h : c.Holds j key) (epoch : CoordinatorEpoch)
    (request : PlanningRequestId) (payload : List UInt8) :
    (c.dispatch index epoch request payload).Holds j key := by
  unfold Coordinator.dispatch
  split
  · refine Holds.goto ?_ ?_
    · exact h
    · exact nofun
  · refine Holds.goto ?_ ?_
    · exact any_getElem?_modify (fun s _ hs => hs) h
    · exact nofun

/-- A dispatch touches neither the registry nor the runtime. -/
theorem dispatch_frame (c : Coordinator) (index : ℕ) (epoch : CoordinatorEpoch)
    (request : PlanningRequestId) (payload : List UInt8) :
    (c.dispatch index epoch request payload).workers = c.workers ∧
      (c.dispatch index epoch request payload).fencedBoots = c.fencedBoots ∧
      (c.dispatch index epoch request payload).epoch = c.epoch ∧
      (c.dispatch index epoch request payload).runtime = c.runtime := by
  unfold Coordinator.dispatch
  split <;> exact ⟨rfl, rfl, rfl, rfl⟩

theorem Holds.collect (h : c.Holds j key) (d : Dispatch) : (c.collect index d).Holds j key := by
  refine Holds.goto (c := { c with
    pending := c.pending.erase d.request
    sessions := c.sessions.map (Session.clearOutstanding d.request) }) ?_ nofun
  unfold Holds at h ⊢
  dsimp only
  rw [List.getElem?_map]
  cases hj : c.sessions[j]? with
  | none =>
    rw [hj] at h
    cases h
  | some session =>
    rw [hj] at h
    change Session.holds key (session.clearOutstanding d.request) = true
    unfold Session.clearOutstanding
    split_ifs <;> exact h

/-! ## The invariant -/

/-- Every registration that is not fenced belongs to a live worker session, its boot identity is not
in the fenced set, and it was made under the current epoch. -/
structure RegistryValid (c : Coordinator) : Prop where
  live : ∀ key standing, c.standing key = some standing → standing.fenced = false →
    ∃ index, c.Holds index key
  unfenced : ∀ key standing, c.standing key = some standing → standing.fenced = false →
    key ∉ c.fencedBoots
  epoch : ∀ key standing, c.standing key = some standing → standing.fenced = false →
    standing.epoch = c.sendEpoch

/-- The section does the registry no harm: a handshake is registered under the epoch it was checked
under, for a boot identity that is not fenced, and does not replace the only boot identity by which
a live session holds a registration; a snapshot is not published under a later epoch while there is
a registration that is not fenced. -/
def KeepsRegistry (c : Coordinator) : CoordinatorAction → Prop
  | .proceed index => ∀ session ∈ c.sessions[index]?, ∀ greeted ∈ session.activity.greeted?,
      greeted.1.boot ∉ c.fencedBoots ∧ greeted.2.epoch = c.epoch ∧
      ∀ old ∈ session.bootKey, old ≠ greeted.1.boot →
        (∀ standing ∈ c.standing old, standing.fenced = true) ∨
          ∃ other < c.sessions.length, other ≠ index ∧ c.Holds other old
  | .publishSnapshot _ epoch => c.epoch < epoch →
      ∀ key ∈ c.workers.keys, ∀ standing ∈ c.standing key, standing.fenced = true
  | _ => True

instance (c : Coordinator) : (action : CoordinatorAction) → Decidable (c.KeepsRegistry action)
  | .proceed index => inferInstanceAs (Decidable (∀ session ∈ c.sessions[index]?,
      ∀ greeted ∈ session.activity.greeted?,
        greeted.1.boot ∉ c.fencedBoots ∧ greeted.2.epoch = c.epoch ∧
        ∀ old ∈ session.bootKey, old ≠ greeted.1.boot →
          (∀ standing ∈ c.standing old, standing.fenced = true) ∨
            ∃ other < c.sessions.length, other ≠ index ∧ c.Holds other old))
  | .publishSnapshot _ epoch => inferInstanceAs (Decidable (c.epoch < epoch →
      ∀ key ∈ c.workers.keys, ∀ standing ∈ c.standing key, standing.fenced = true))
  | .connect => isTrue trivial
  | .receive _ _ _ => isTrue trivial
  | .sendFails _ => isTrue trivial
  | .finish _ => isTrue trivial
  | .release _ => isTrue trivial
  | .fenceWorker _ => isTrue trivial
  | .advanceEpoch _ => isTrue trivial
  | .finishCall _ => isTrue trivial
  | .runtime _ => isTrue trivial

theorem Holds.lt (h : c.Holds index key) : index < c.sessions.length := by
  by_contra hle
  unfold Holds at h
  rw [List.getElem?_eq_none (not_lt.mp hle)] at h
  cases h

/-- A section that touches neither the standings, nor the boot identities of live sessions, nor the
fenced set, nor the epoch. -/
theorem RegistryValid.of_frame (h : c.RegistryValid)
    (hstanding : ∀ key, c'.standing key = c.standing key)
    (hholds : ∀ index key, c.Holds index key → c'.Holds index key)
    (hfenced : c'.fencedBoots = c.fencedBoots) (hepoch : c'.epoch = c.epoch) :
    c'.RegistryValid where
  live := by
    intro key standing hst hf
    rw [hstanding] at hst
    obtain ⟨index, hindex⟩ := h.live key standing hst hf
    exact ⟨index, hholds index key hindex⟩
  unfenced := by
    intro key standing hst hf
    rw [hstanding] at hst
    exact hfenced ▸ h.unfenced key standing hst hf
  epoch := by
    intro key standing hst hf
    rw [hstanding] at hst
    unfold sendEpoch
    rw [hepoch]
    exact h.epoch key standing hst hf

/-- A handshake is registered. -/
theorem RegistryValid.register (h : c.RegistryValid) {session : Session}
    (hs : c.sessions[index]? = some session) {hello : HelloPayload} {capture : HandshakeCapture}
    (hunfenced : hello.boot ∉ c.fencedBoots) (hepoch : capture.epoch = c.epoch)
    (hold : ∀ old ∈ session.bootKey, old ≠ hello.boot →
      (∀ standing ∈ c.standing old, standing.fenced = true) ∨
        ∃ other < c.sessions.length, other ≠ index ∧ c.Holds other old) :
    (c.register index hello capture).RegistryValid := by
  -- the new registration belongs to the session, any other one is that of another boot identity
  have hcases {key : WorkerBootId} {standing : Standing}
      (hst : (c.register index hello capture).standing key = some standing) :
      (key = hello.boot ∧ standing.epoch = FabricEpoch.toWire capture.epoch) ∨
        (key ≠ hello.boot ∧ c.standing key = some standing) := by
    rw [standing_register] at hst
    split_ifs at hst with hkey
    · exact Or.inl ⟨hkey, (Option.some.inj hst) ▸ rfl⟩
    · exact Or.inr ⟨hkey, hst⟩
  have hheld (other : ℕ) (old : WorkerBootId) (hne : other ≠ index) (hother : c.Holds other old) :
      (c.register index hello capture).Holds other old := by
    unfold Holds at hother ⊢
    change ((c.sessions.modify index _)[other]?).any _ = true
    rw [List.getElem?_modify_ne _ _ hne.symm]
    exact hother
  refine ⟨fun key standing hst hf => ?_, fun key standing hst hf => ?_,
    fun key standing hst hf => ?_⟩
  · rcases hcases hst with ⟨rfl, -⟩ | ⟨hkey, hprior⟩
    · refine ⟨index, ?_⟩
      unfold Holds
      change ((c.sessions.modify index _)[index]?).any _ = true
      rw [List.getElem?_modify_eq, hs]
      simp [Session.holds, Session.isClosed]
    · obtain ⟨other, hother⟩ := h.live key standing hprior hf
      by_cases hne : other = index
      · -- the session replaces this boot identity, which another session holds too
        subst hne
        have hboot : session.bootKey = some key := by
          unfold Holds at hother
          rw [hs] at hother
          have := (Bool.and_eq_true_iff.mp (Bool.and_eq_true_iff.mp hother).1).2
          exact of_decide_eq_true this
        rcases hold key hboot hkey with hall | ⟨other', _, hne, hother'⟩
        · rw [hall standing hprior] at hf
          cases hf
        · exact ⟨other', hheld other' key hne hother'⟩
      · exact ⟨other, hheld other key hne hother⟩
  · rcases hcases hst with ⟨rfl, -⟩ | ⟨-, hst⟩
    · exact hunfenced
    · exact h.unfenced key standing hst hf
  · rcases hcases hst with ⟨rfl, hstanding⟩ | ⟨-, hst⟩
    · rw [hstanding, hepoch]
      rfl
    · exact h.epoch key standing hst hf

/-- A session is released. -/
theorem RegistryValid.release (h : c.RegistryValid) {session : Session}
    (hs : c.sessions[index]? = some session) : (c.release index session).RegistryValid := by
  -- a registration that is left is not that of the session
  have hcases {key : WorkerBootId} {standing : Standing}
      (hst : (c.release index session).standing key = some standing) :
      releasedBoot session ≠ some key ∧ c.standing key = some standing := by
    rw [standing_release] at hst
    split_ifs at hst with hkey
    exact ⟨hkey, hst⟩
  refine ⟨fun key standing hst hf => ?_, fun key standing hst hf => ?_,
    fun key standing hst hf => h.epoch key standing (hcases hst).2 hf⟩
  · obtain ⟨hne, hst⟩ := hcases hst
    obtain ⟨other, hother⟩ := h.live key standing hst hf
    refine ⟨other, ?_⟩
    unfold Holds at hother ⊢
    change ((c.sessions.modify index _)[other]?).any _ = true
    have hindex : index ≠ other := by
      rintro rfl
      rw [hs] at hother
      obtain ⟨hboot, -⟩ := Bool.and_eq_true_iff.mp hother
      obtain ⟨hrole, hboot⟩ := Bool.and_eq_true_iff.mp hboot
      apply hne
      unfold releasedBoot
      rw [if_pos hrole]
      exact of_decide_eq_true hboot
    rw [List.getElem?_modify_ne _ _ hindex]
    exact hother
  · obtain ⟨hne, hst⟩ := hcases hst
    have hold := h.unfenced key standing hst hf
    change key ∉ (releasedBoot session).elim c.fencedBoots (insert · c.fencedBoots)
    cases hboot : releasedBoot session with
    | none => exact hold
    | some boot =>
      rw [Option.elim_some, Finset.mem_insert, not_or]
      exact ⟨fun heq => hne (heq ▸ hboot), hold⟩

/-- A boot identity is fenced. -/
theorem RegistryValid.fenceWorker (h : c.RegistryValid) {boot : WorkerBootId}
    {registration : WorkerRegistration} (calls : List CallRest) :
    ({ c with
      workers := c.workers.insert boot { registration with fenced := true }
      fencedBoots := insert boot c.fencedBoots
      calls := calls } : Coordinator).RegistryValid := by
  -- a registration that is not fenced is that of another boot identity
  have hcases {key : WorkerBootId} {standing : Standing}
      (hst : ((c.workers.insert boot { registration with fenced := true }).lookup key).map
        (·.standing) = some standing) (hf : standing.fenced = false) :
      key ≠ boot ∧ c.standing key = some standing := by
    by_cases hkey : key = boot
    · subst hkey
      rw [AList.lookup_insert] at hst
      obtain rfl := Option.some.inj hst
      cases hf
    · rw [AList.lookup_insert_ne hkey] at hst
      exact ⟨hkey, hst⟩
  refine ⟨fun key standing hst hf => ?_, fun key standing hst hf => ?_,
    fun key standing hst hf => ?_⟩
  · exact h.live key standing (hcases hst hf).2 hf
  · obtain ⟨hne, hst⟩ := hcases hst hf
    rw [Finset.mem_insert, not_or]
    exact ⟨hne, h.unfenced key standing hst hf⟩
  · exact h.epoch key standing (hcases hst hf).2 hf

/-- A snapshot is published. -/
theorem RegistryValid.publishSnapshot (h : c.RegistryValid) (snapshot : Option FabricSnapshot)
    {epoch : FabricEpoch} (hkeeps : c.KeepsRegistry (.publishSnapshot snapshot epoch)) :
    (c.publishSnapshot snapshot epoch).RegistryValid := by
  by_cases hlt : c.epoch < epoch
  · -- every registration is fenced
    have hnone (key : WorkerBootId) (standing : Standing)
        (hst : (c.publishSnapshot snapshot epoch).standing key = some standing) :
        standing.fenced = true := by
      apply hkeeps hlt key _ standing hst
      obtain ⟨registration, hlookup, -⟩ := Option.map_eq_some_iff.mp hst
      exact AList.mem_keys.mp (AList.lookup_isSome.mp (hlookup ▸ rfl))
    refine ⟨fun key standing hst hf => ?_, fun key standing hst hf => ?_,
      fun key standing hst hf => ?_⟩
    all_goals
      rw [hnone key standing hst] at hf
      cases hf
  · exact h.of_frame (fun _ => rfl) (fun _ _ => id) rfl (max_eq_left (not_lt.mp hlt))

/-- **The step lemma of the registry.** -/
theorem RegistryValid.step (hkeeps : c.KeepsRegistry action)
    (hstep : c.step sha codec action = some c') (h : c.RegistryValid) : c'.RegistryValid := by
  cases change_of_step hstep with
  | stay => exact h
  | connect => exact h.of_frame (fun _ => rfl) (fun _ _ hj => hj.connect) rfl rfl
  | quiet hs hquiet activity hquiet' frames =>
    exact h.of_frame (fun _ => rfl) (fun _ _ hj => hj.goto hquiet'.live) rfl rfl
  | publishing => exact h.of_frame (fun _ => rfl) (fun _ _ hj => hj.goto nofun) rfl rfl
  | validated => exact h.of_frame (fun _ => rfl) (fun _ _ hj => hj.goto nofun) rfl rfl
  | @complete index session hs publication status detail =>
    exact h.of_frame (fun _ => standing_complete publication status detail)
      (fun _ _ hj => hj.goto (afterCompletion_ne_closed publication status detail)) rfl rfl
  | @register index session hs frame hello capture hactivity =>
    obtain ⟨hunfenced, hepoch, hold⟩ := hkeeps session hs (hello, capture) (by rw [hactivity]; rfl)
    exact (h.register hs hunfenced hepoch hold).of_frame (fun _ => rfl) (fun _ _ => id) rfl rfl
  | retain hs hactivity activity hquiet =>
    exact h.of_frame (fun _ => rfl) (fun _ _ hj => hj.goto hquiet.live) rfl rfl
  | record => exact h.of_frame (fun _ => rfl) (fun _ _ hj => hj.goto nofun) rfl rfl
  | @dispatch index session hs epoch request payload hactivity =>
    obtain ⟨hworkers, hfenced, hepoch, -⟩ := c.dispatch_frame index epoch request payload
    refine h.of_frame (fun key => ?_) (fun _ _ hj => hj.dispatch epoch request payload) hfenced hepoch
    unfold standing
    rw [hworkers]
  | relay => exact h.of_frame (fun _ => rfl) (fun _ _ hj => hj.goto nofun) rfl rfl
  | sendFails => exact h.of_frame (fun _ => rfl) (fun _ _ hj => hj.goto nofun) rfl rfl
  | markUnwritable => exact h.of_frame (fun _ => rfl) (fun _ _ hj => hj.goto nofun) rfl rfl
  | collect hs hactivity =>
    exact h.of_frame (fun _ => rfl) (fun _ _ hj => hj.collect _) rfl rfl
  | finish => exact h.of_frame (fun _ => rfl) (fun _ _ hj => hj.finish) rfl rfl
  | release hs => exact h.release hs
  | fenceWorker boot hregistered calls => exact h.fenceWorker calls
  | advanceEpoch =>
    -- the registry is empty
    exact ⟨nofun, nofun, nofun⟩
  | publishSnapshot snapshot epoch => exact h.publishSnapshot snapshot hkeeps
  | advanceRuntime => exact h.of_frame (fun _ => rfl) (fun _ _ => id) rfl rfl
  | publishRuntime => exact h.of_frame (fun _ => rfl) (fun _ _ => id) rfl rfl
  | notifyFence => exact h.of_frame (fun _ => rfl) (fun _ _ => id) rfl rfl
  | runtime => exact h.of_frame (fun _ => rfl) (fun _ _ => id) rfl rfl

/-! ## Runs -/

/-- The fenced set only grows. -/
theorem fencedBoots_subset_of_step (h : c.step sha codec action = some c') :
    c.fencedBoots ⊆ c'.fencedBoots := by
  cases change_of_step h with
  | @dispatch index session hs epoch request payload hactivity =>
    rw [(c.dispatch_frame index epoch request payload).2.1]
  | @release index session hs hactivity =>
    change c.fencedBoots ⊆ (releasedBoot session).elim c.fencedBoots (insert · c.fencedBoots)
    cases releasedBoot session with
    | none => exact subset_rfl
    | some boot => exact Finset.subset_insert _ _
  | fenceWorker => exact Finset.subset_insert _ _
  | advanceEpoch => exact Finset.subset_union_left
  | _ => exact subset_rfl

/-- A coordinator that has accepted no session. -/
structure IsStarted (c : Coordinator) : Prop where
  sessions : c.sessions = []
  workers : c.workers = ∅
  pending : c.pending = ∅

theorem IsStarted.registryValid (h : c.IsStarted) : c.RegistryValid := by
  have hnone (key : WorkerBootId) : c.standing key = none := by
    unfold standing
    rw [h.workers]
    rfl
  refine ⟨fun key standing hst _ => ?_, fun key standing hst _ => ?_, fun key standing hst _ => ?_⟩
  all_goals
    rw [hnone] at hst
    cases hst

/-- **The registry is valid** after any run of sections that do it no harm, and a boot identity that
was fenced on the way is not registered unfenced. -/
theorem registry_valid {before after : List CoordinatorAction} {fenced reached : Coordinator}
    (hstart : c.IsStarted) (hkeeps : StepsMeet (step sha codec) KeepsRegistry c (before ++ after))
    (hbefore : run (step sha codec) c before = some fenced)
    (hafter : run (step sha codec) fenced after = some reached) :
    (∀ key registration, reached.workers.lookup key = some registration →
      registration.fenced = false →
        (∃ index, reached.Holds index key) ∧ key ∉ reached.fencedBoots ∧
          registration.registeredEpoch = FabricEpoch.toWire reached.epoch) ∧
      ∀ key ∈ fenced.fencedBoots, ∀ registration, reached.workers.lookup key = some registration →
        registration.fenced = true := by
  have hrun : run (step sha codec) c (before ++ after) = some reached := by
    rw [run_append_of_eq hbefore, hafter]
  have hvalid : reached.RegistryValid :=
    hkeeps.invariant (fun _ _ _ hk hs h => h.step hk hs) hrun hstart.registryValid
  have hsubset : fenced.fencedBoots ⊆ reached.fencedBoots :=
    StepsMeet.le (P := fun _ _ => True) (f := Coordinator.fencedBoots)
      (fun _ _ _ _ hs => fencedBoots_subset_of_step hs) (stepsMeet_of_forall fun _ _ => trivial)
      hafter
  have hstanding {key : WorkerBootId} {registration : WorkerRegistration}
      (hlookup : reached.workers.lookup key = some registration) :
      reached.standing key = some registration.standing := by
    unfold standing
    rw [hlookup, Option.map_some]
  refine ⟨fun key registration hlookup hf => ?_, fun key hkey registration hlookup => ?_⟩
  · exact ⟨hvalid.live key _ (hstanding hlookup) hf, hvalid.unfenced key _ (hstanding hlookup) hf,
      hvalid.epoch key _ (hstanding hlookup) hf⟩
  · by_contra hf
    exact hvalid.unfenced key _ (hstanding hlookup) (Bool.eq_false_of_not_eq_true hf) (hsubset hkey)

/-! ## A session with two boot identities -/

/-- The codec of the runs below: a payload is one byte, the number of a worker or of a request. -/
def byteCodec : PayloadCodec where
  decodeHello
    | [n] => .ok { boot := .tagged 0 n, coordinatorEpoch := .ofNat 1, snapshot := singleLink.id }
    | _ => .error (.malformed, "")
  decodeQuery := fun _ => .error (.malformed, "")
  decodeRequest
    | _, [n] => .ok { PlanningRequest.between 1 2 with id := .tagged 0 n }
    | _, _ => .error (.malformed, "")
  decodeResult := fun _ _ => .error (.malformed, "")

/-- The handshake of a worker on a session, up to its registration. -/
def handshake (session : ℕ) (worker : UInt8) : List CoordinatorAction :=
  [.receive session { type := .hello, workerBoot := .tagged 0 worker, payload := [worker] } none,
    .proceed session, .proceed session]

/-- The sections of one handshake. -/
def oneHandshake : List CoordinatorAction := .connect :: handshake 0 1

/-- A session registers two boot identities and is lost. -/
def twoHandshakes : List CoordinatorAction :=
  .connect :: (handshake 0 1 ++ handshake 0 2 ++ [.finish 0, .release 0])

/-- The coordinator after the handshake. -/
def registeredCoordinator : Coordinator :=
  (run (step constantHash byteCodec) linkCoordinator oneHandshake).get (by decide +kernel)

/-- The coordinator after the loss. -/
def lostCoordinator : Coordinator :=
  (run (step constantHash byteCodec) linkCoordinator twoHandshakes).get (by decide +kernel)

theorem registry_valid_registeredCoordinator : ∃ registration,
    registeredCoordinator.workers.lookup (.tagged 0 1) = some registration ∧
      ∃ index, registeredCoordinator.Holds index (.tagged 0 1) := by
  have hlookup : (registeredCoordinator.workers.lookup (.tagged 0 1)).isSome := by decide +kernel
  have hrun : run (step constantHash byteCodec) linkCoordinator oneHandshake =
    some registeredCoordinator := (Option.some_get _).symm
  have hrest : run (step constantHash byteCodec) registeredCoordinator [] =
    some registeredCoordinator := rfl
  refine ⟨_, (Option.some_get hlookup).symm, ?_⟩
  exact ((registry_valid ⟨rfl, rfl, rfl⟩ (by decide +kernel) hrun hrest).1 (.tagged 0 1) _
    (Option.some_get hlookup).symm (by decide +kernel +revert)).1

/-- A registration outlives its session. -/
theorem not_registry_valid_lostCoordinator :
    ¬ ∀ (c' : Coordinator) (actions : List CoordinatorAction),
      run (step constantHash byteCodec) linkCoordinator actions = some c' →
      ∀ key registration, c'.workers.lookup key = some registration →
        registration.fenced = false → ∃ index, c'.Holds index key := by
  intro h
  have hlookup : (lostCoordinator.workers.lookup (.tagged 0 1)).isSome := by decide +kernel
  obtain ⟨index, hindex⟩ := h lostCoordinator twoHandshakes (Option.some_get _).symm (.tagged 0 1) _
    (Option.some_get hlookup).symm (by decide +kernel +revert)
  have hlt : index < 1 := hindex.lt
  obtain rfl : index = 0 := by omega
  revert hindex
  decide +kernel

end Coordinator

end PathPlanner
