import PathPlanner.Coordinator.Epoch
import PathPlanner.Coordinator.Registry

/-!
# Acceptance of publications

A publication is validated in one section and accepted in a later one. What the validation found
holds at the acceptance as long as the sections in between do not disturb it.

## Main definitions

* `Coordinator.InFlight`: what the validation of an accepted publication has found
* `Coordinator.Undisturbed`: the section leaves the publications in flight as they are

## Main results

* `Coordinator.PublicationsValid.step`: the step lemma
* `Coordinator.accepted_valid`: a publication is accepted in a state that it is valid in
-/

namespace PathPlanner

open Run

/-- A member of a list with a modification. -/
theorem mem_modify {α : Type*} {l : List α} {f : α → α} {i : ℕ} {b : α} (h : b ∈ l.modify i f) :
    b ∈ l ∨ ∃ a, l[i]? = some a ∧ b = f a := by
  obtain ⟨j, hj⟩ := List.mem_iff_getElem?.mp h
  rw [List.getElem?_modify] at hj
  obtain ⟨a, ha, rfl⟩ := Option.map_eq_some_iff.mp hj
  split_ifs with hij
  · subst hij
    exact Or.inr ⟨a, ha, rfl⟩
  · exact Or.inl (List.mem_iff_getElem?.mpr ⟨j, ha⟩)

/-- The publication of a thread that has not been refused. -/
def SessionActivity.inFlight? : SessionActivity → Option Publication
  | .publishing publication => some publication
  | .validated publication .ok _ => some publication
  | _ => none

/-- The publication of a thread that has validated it. -/
def SessionActivity.validated? : SessionActivity → Option Publication
  | .validated publication .ok _ => some publication
  | _ => none

theorem SessionActivity.IsQuiet.inFlight? {activity : SessionActivity} (h : activity.IsQuiet) :
    activity.inFlight? = none := by
  have hnone := h.publication
  cases activity with
  | publishing => cases hnone
  | validated => cases hnone
  | _ => rfl

theorem SessionActivity.inFlight?_of_validated? {activity : SessionActivity} {p : Publication}
    (h : p ∈ activity.validated?) : p ∈ activity.inFlight? := by
  unfold validated? at h
  split at h
  · exact h
  · cases h

/-- The call does not change which snapshot is published. -/
def RuntimeOperation.KeepsSnapshot (state : RuntimeState) : RuntimeOperation → Prop
  | .publishSnapshot snapshot =>
    snapshot.elim default FabricSnapshot.id = state.snapshot.elim default FabricSnapshot.id
  | _ => True

instance (state : RuntimeState) : (op : RuntimeOperation) → Decidable (op.KeepsSnapshot state)
  | .publishSnapshot snapshot => inferInstanceAs (Decidable
      (snapshot.elim default FabricSnapshot.id = state.snapshot.elim default FabricSnapshot.id))
  | .applyInvalidation _ => isTrue trivial
  | .advanceEpoch _ _ => isTrue trivial
  | .retain _ => isTrue trivial

namespace Coordinator

variable {sha : List UInt8 → Sha256Digest} {codec : PayloadCodec} {c c' : Coordinator}
  {action : CoordinatorAction} {p : Publication} {index : ℕ}

/-! ## Validation -/

/-- The registration of the worker, if there is one, is that of the snapshot that was read. -/
def Tracked (c : Coordinator) (p : Publication) : Prop :=
  p.snapshot.isValid = true → ∀ standing, c.standing p.frame.workerBoot = some standing →
    standing.snapshot = p.snapshot

/-- What the validation of an accepted publication finds. -/
structure InFlight (c : Coordinator) (p : Publication) : Prop where
  registered : ∃ standing, c.standing p.frame.workerBoot = some standing ∧
    standing.fenced = false ∧ standing.snapshot = p.snapshot
  unfenced : p.frame.workerBoot ∉ c.fencedBoots
  epoch : p.frame.coordinatorEpoch.value = c.epoch.value
  snapshot : p.snapshot = c.currentSnapshotId

theorem Tracked.inFlight (h : c.Tracked p) {detail : String}
    (hvalidate : c.validatePublication p.frame.workerBoot p.frame.coordinatorEpoch p.snapshot =
      (.ok, detail)) : c.InFlight p := by
  unfold validatePublication at hvalidate
  split_ifs at hvalidate with hfenced hregistered hepoch hsnapshot
  · cases hvalidate
  · cases hvalidate
  · cases hvalidate
  · cases hvalidate
  · simp only [Bool.or_eq_true, Bool.not_eq_true', decide_eq_true_eq, not_or, not_not,
      Bool.not_eq_false] at hsnapshot
    obtain ⟨hvalid, hcurrent⟩ := hsnapshot
    cases hlookup : c.workers.lookup p.frame.workerBoot with
    | none =>
      rw [hlookup] at hregistered
      exact absurd rfl hregistered
    | some registration =>
      rw [hlookup, Option.all_some, Bool.not_eq_true] at hregistered
      have hstanding : c.standing p.frame.workerBoot = some registration.standing := by
        unfold standing
        rw [hlookup, Option.map_some]
      refine ⟨⟨_, hstanding, hregistered, h (hcurrent ▸ hvalid) _ hstanding⟩, hfenced,
        not_not.mp hepoch, hcurrent⟩

/-! ## Sections that leave a publication as it is -/

/-- The section does not register the worker with another snapshot than the one that was read. -/
def KeepsRegistration (c : Coordinator) (p : Publication) : CoordinatorAction → Prop
  | .proceed index => ∀ session ∈ c.sessions[index]?, ∀ greeted ∈ session.activity.greeted?,
      greeted.1.boot = p.frame.workerBoot → greeted.1.snapshot = p.snapshot
  | _ => True

instance (c : Coordinator) (p : Publication) :
    (action : CoordinatorAction) → Decidable (c.KeepsRegistration p action)
  | .proceed index => inferInstanceAs (Decidable (∀ session ∈ c.sessions[index]?,
      ∀ greeted ∈ session.activity.greeted?,
        greeted.1.boot = p.frame.workerBoot → greeted.1.snapshot = p.snapshot))
  | .connect => isTrue trivial
  | .receive _ _ _ => isTrue trivial
  | .sendFails _ => isTrue trivial
  | .finish _ => isTrue trivial
  | .release _ => isTrue trivial
  | .fenceWorker _ => isTrue trivial
  | .advanceEpoch _ => isTrue trivial
  | .publishSnapshot _ _ => isTrue trivial
  | .finishCall _ => isTrue trivial
  | .runtime _ => isTrue trivial

/-- The section does not withdraw what the validation has found: it does not fence the worker,
release its session, advance the epoch or publish another snapshot. -/
def KeepsAcceptance (c : Coordinator) (p : Publication) : CoordinatorAction → Prop
  | .fenceWorker boot => boot ≠ p.frame.workerBoot
  | .advanceEpoch epoch => epoch ≤ c.epoch
  | .publishSnapshot _ epoch => epoch ≤ c.epoch
  | .release index => ∀ session ∈ c.sessions[index]?, releasedBoot session ≠ some p.frame.workerBoot
  | .finishCall index => ∀ op ∈ c.operation (.finishCall index), op.KeepsSnapshot c.runtime
  | .runtime op => op.KeepsSnapshot c.runtime
  | _ => True

instance (c : Coordinator) (p : Publication) :
    (action : CoordinatorAction) → Decidable (c.KeepsAcceptance p action)
  | .fenceWorker boot => inferInstanceAs (Decidable (boot ≠ p.frame.workerBoot))
  | .advanceEpoch epoch => inferInstanceAs (Decidable (epoch ≤ c.epoch))
  | .publishSnapshot _ epoch => inferInstanceAs (Decidable (epoch ≤ c.epoch))
  | .release index => inferInstanceAs (Decidable
      (∀ session ∈ c.sessions[index]?, releasedBoot session ≠ some p.frame.workerBoot))
  | .finishCall index => inferInstanceAs (Decidable
      (∀ op ∈ c.operation (.finishCall index), op.KeepsSnapshot c.runtime))
  | .runtime op => inferInstanceAs (Decidable (op.KeepsSnapshot c.runtime))
  | .connect => isTrue trivial
  | .receive _ _ _ => isTrue trivial
  | .sendFails _ => isTrue trivial
  | .finish _ => isTrue trivial
  | .proceed _ => isTrue trivial

/-- The section leaves the publications in flight as they are. -/
def Undisturbed (c : Coordinator) (action : CoordinatorAction) : Prop :=
  ∀ session ∈ c.sessions,
    (∀ p ∈ session.activity.inFlight?, c.KeepsRegistration p action) ∧
      ∀ p ∈ session.activity.validated?, c.KeepsAcceptance p action

instance (c : Coordinator) (action : CoordinatorAction) : Decidable (c.Undisturbed action) :=
  inferInstanceAs (Decidable (∀ session ∈ c.sessions,
    (∀ p ∈ session.activity.inFlight?, c.KeepsRegistration p action) ∧
      ∀ p ∈ session.activity.validated?, c.KeepsAcceptance p action))

/-- A section that touches neither the standings, nor the fenced set, nor the epoch, nor the
snapshot. -/
structure SameFor (c c' : Coordinator) : Prop where
  standing : ∀ key, c'.standing key = c.standing key
  fencedBoots : c'.fencedBoots = c.fencedBoots
  epoch : c'.epoch = c.epoch
  snapshot : c'.currentSnapshotId = c.currentSnapshotId

theorem Tracked.of_standing (h : c.Tracked p)
    (hstanding : c'.standing p.frame.workerBoot = c.standing p.frame.workerBoot) :
    c'.Tracked p := by
  intro hvalid standing hst
  rw [hstanding] at hst
  exact h hvalid standing hst

theorem InFlight.of_same (h : c.InFlight p) (hsame : c.SameFor c') : c'.InFlight p where
  registered := by
    rw [hsame.standing]
    exact h.registered
  unfenced := hsame.fencedBoots ▸ h.unfenced
  epoch := hsame.epoch ▸ h.epoch
  snapshot := hsame.snapshot ▸ h.snapshot

/-! ## The invariant -/

/-- A thread that handles a publication has read the registration, or found the publication to be
valid. -/
structure Handles (c : Coordinator) (activity : SessionActivity) : Prop where
  tracked : ∀ p, activity = .publishing p → c.Tracked p
  inFlight : ∀ p detail, activity = .validated p .ok detail → c.InFlight p

/-- Every thread handles its publication. -/
def PublicationsValid (c : Coordinator) : Prop := ∀ session ∈ c.sessions, c.Handles session.activity

theorem handles_of_none {activity : SessionActivity} (h : activity.inFlight? = none) :
    c.Handles activity := by
  refine ⟨fun p heq => ?_, fun p detail heq => ?_⟩
  · rw [heq] at h
    cases h
  · rw [heq] at h
    cases h

theorem Handles.of_same {activity : SessionActivity} (h : c.Handles activity)
    (hsame : c.SameFor c') : c'.Handles activity where
  tracked := fun p heq => (h.tracked p heq).of_standing (hsame.standing _)
  inFlight := fun p detail heq => (h.inFlight p detail heq).of_same hsame

theorem afterCompletion_inFlight? (publication : Publication) (status : WireStatus)
    (detail : String) : (c.afterCompletion publication status detail).inFlight? = none := by
  unfold afterCompletion
  split_ifs
  · split <;> rfl
  · rfl

/-- What a section keeps for the publications of the other threads. -/
theorem Handles.of_keeps {activity : SessionActivity} (h : c.Handles activity)
    (htracked : ∀ p ∈ activity.inFlight?, c.Tracked p → c'.Tracked p)
    (hinFlight : ∀ p ∈ activity.validated?, c.InFlight p → c'.InFlight p) :
    c'.Handles activity := by
  refine ⟨fun p heq => ?_, fun p detail heq => ?_⟩
  · exact htracked p (by rw [heq]; rfl) (h.tracked p heq)
  · exact hinFlight p (by rw [heq]; rfl) (h.inFlight p detail heq)

/-- The thread of one session goes to another place. -/
theorem PublicationsValid.of_modify (h : c.PublicationsValid)
    (hkeeps : ∀ session ∈ c.sessions, c.Handles session.activity → c'.Handles session.activity)
    {f : Session → Session} (hsessions : c'.sessions = c.sessions.modify index f)
    (hf : ∀ session, c.sessions[index]? = some session → c'.Handles (f session).activity) :
    c'.PublicationsValid := by
  intro session hmem
  rw [hsessions] at hmem
  rcases mem_modify hmem with hmem | ⟨prior, hprior, rfl⟩
  · exact hkeeps session hmem (h session hmem)
  · exact hf prior hprior

/-- The thread of one session goes to a place without a publication in flight. -/
theorem PublicationsValid.goto (h : c.PublicationsValid) (hsame : c.SameFor c')
    {activity : SessionActivity}
    (hsessions : c'.sessions = c.sessions.modify index fun s => { s with activity })
    (hactivity : activity.inFlight? = none) : c'.PublicationsValid :=
  h.of_modify (fun _ _ hs => hs.of_same hsame) hsessions fun _ _ => handles_of_none hactivity

/-- The sessions stay as they are. -/
theorem PublicationsValid.of_sessions (h : c.PublicationsValid)
    (hsessions : c'.sessions = c.sessions)
    (hkeeps : ∀ session ∈ c.sessions, c.Handles session.activity → c'.Handles session.activity) :
    c'.PublicationsValid := by
  intro session hmem
  rw [hsessions] at hmem
  exact hkeeps session hmem (h session hmem)

theorem PublicationsValid.dispatch (h : c.PublicationsValid) (client : ℕ) (epoch : CoordinatorEpoch)
    (request : PlanningRequestId) (payload : List UInt8) :
    (c.dispatch client epoch request payload).PublicationsValid := by
  unfold Coordinator.dispatch
  split
  · exact h.goto ⟨fun _ => rfl, rfl, rfl, rfl⟩ rfl rfl
  · next worker _ =>
    -- the session of the worker keeps its place, the client goes on to relay the request
    have hworker : ({ c with
        sessions := c.sessions.modify worker fun s => { s with outstandingRequest := some request } }
          : Coordinator).PublicationsValid := by
      refine h.of_modify (fun _ _ hs => hs.of_same ⟨fun _ => rfl, rfl, rfl, rfl⟩) rfl ?_
      intro session hs
      exact (h session (List.mem_of_getElem? hs)).of_same ⟨fun _ => rfl, rfl, rfl, rfl⟩
    exact hworker.goto ⟨fun _ => rfl, rfl, rfl, rfl⟩ rfl rfl

theorem PublicationsValid.collect (h : c.PublicationsValid) (d : Dispatch) :
    (c.collect index d).PublicationsValid := by
  have hcleared : ({ c with sessions := c.sessions.map (Session.clearOutstanding d.request) }
      : Coordinator).PublicationsValid := by
    intro session hmem
    obtain ⟨prior, hprior, rfl⟩ := List.mem_map.mp hmem
    have hactivity : (prior.clearOutstanding d.request).activity = prior.activity := by
      unfold Session.clearOutstanding
      split_ifs <;> rfl
    rw [hactivity]
    exact (h prior hprior).of_same ⟨fun _ => rfl, rfl, rfl, rfl⟩
  exact hcleared.goto ⟨fun _ => rfl, rfl, rfl, rfl⟩ rfl rfl

/-! ## Sections that touch what a publication depends on -/

/-- A call to the runtime that keeps the snapshot. -/
theorem sameFor_perform {op : RuntimeOperation} (hop : op.KeepsSnapshot c.runtime)
    (calls : List CallRest) :
    c.SameFor { c with calls := calls, runtime := c.runtime.perform op } := by
  refine ⟨fun _ => rfl, rfl, rfl, ?_⟩
  change (c.runtime.perform op).snapshot.elim default FabricSnapshot.id = _
  rw [RuntimeState.perform_snapshot]
  cases op with
  | publishSnapshot snapshot => exact hop
  | _ => rfl

/-- The runtime of the coordinator is called. -/
theorem PublicationsValid.perform (h : c.PublicationsValid) {op : RuntimeOperation}
    (hkeeps : ∀ session ∈ c.sessions, ∀ p ∈ session.activity.validated?, op.KeepsSnapshot c.runtime)
    (calls : List CallRest) :
    ({ c with calls := calls, runtime := c.runtime.perform op } : Coordinator).PublicationsValid := by
  refine h.of_sessions rfl fun session hmem hs => ?_
  refine hs.of_keeps (fun p _ hp => hp.of_standing rfl) fun p hvalidated hp => ?_
  exact hp.of_same (sameFor_perform (hkeeps session hmem p hvalidated) calls)

/-- A worker is registered. -/
theorem PublicationsValid.register (h : c.PublicationsValid) {hello : HelloPayload}
    {capture : HandshakeCapture}
    (hkeeps : ∀ session ∈ c.sessions, ∀ p ∈ session.activity.inFlight?,
      hello.boot = p.frame.workerBoot → hello.snapshot = p.snapshot) :
    (c.register index hello capture).PublicationsValid := by
  refine h.of_modify (fun session hmem hs => ?_) rfl fun _ _ => handles_of_none rfl
  refine hs.of_keeps (fun p hinFlight hp hvalid standing hst => ?_) fun p hvalidated hp => ?_
  · rw [standing_register] at hst
    split_ifs at hst with hboot
    · obtain rfl := Option.some.inj hst
      exact hkeeps session hmem p hinFlight hboot.symm
    · exact hp hvalid standing hst
  · have hinFlight : p ∈ session.activity.inFlight? :=
      SessionActivity.inFlight?_of_validated? hvalidated
    refine ⟨?_, hp.unfenced, hp.epoch, hp.snapshot⟩
    rw [standing_register]
    split_ifs with hboot
    · exact ⟨_, rfl, rfl, hkeeps session hmem p hinFlight hboot.symm⟩
    · exact hp.registered

/-- A session is released. -/
theorem PublicationsValid.release (h : c.PublicationsValid) {session : Session}
    (hkeeps : ∀ other ∈ c.sessions, ∀ p ∈ other.activity.validated?,
      releasedBoot session ≠ some p.frame.workerBoot) :
    (c.release index session).PublicationsValid := by
  refine h.of_modify (fun other hmem hs => ?_) rfl fun _ _ => handles_of_none rfl
  refine hs.of_keeps (fun p _ hp hvalid standing hst => ?_) fun p hvalidated hp => ?_
  · rw [standing_release] at hst
    split_ifs at hst
    exact hp hvalid standing hst
  · have hne := hkeeps other hmem p hvalidated
    refine ⟨?_, ?_, hp.epoch, hp.snapshot⟩
    · rw [standing_release, if_neg hne]
      exact hp.registered
    · change p.frame.workerBoot ∉ (releasedBoot session).elim c.fencedBoots (insert · c.fencedBoots)
      cases hboot : releasedBoot session with
      | none => exact hp.unfenced
      | some boot =>
        rw [Option.elim_some, Finset.mem_insert, not_or]
        exact ⟨fun heq => hne (heq ▸ hboot), hp.unfenced⟩

/-- A boot identity is fenced. -/
theorem PublicationsValid.fenceWorker (h : c.PublicationsValid) {boot : WorkerBootId}
    {registration : WorkerRegistration} (hregistered : c.workers.lookup boot = some registration)
    (hkeeps : ∀ session ∈ c.sessions, ∀ p ∈ session.activity.validated?,
      boot ≠ p.frame.workerBoot) (calls : List CallRest) :
    ({ c with
      workers := c.workers.insert boot { registration with fenced := true }
      fencedBoots := insert boot c.fencedBoots
      calls := calls } : Coordinator).PublicationsValid := by
  refine h.of_sessions rfl fun session hmem hs => ?_
  refine hs.of_keeps (fun p _ hp hvalid standing hst => ?_) fun p hvalidated hp => ?_
  · -- the fence does not touch the snapshot of the registration
    by_cases hboot : p.frame.workerBoot = boot
    · unfold Coordinator.standing at hst
      rw [hboot, AList.lookup_insert] at hst
      obtain rfl := Option.some.inj hst
      apply hp hvalid registration.standing
      unfold Coordinator.standing
      rw [hboot, hregistered, Option.map_some]
    · unfold Coordinator.standing at hst
      rw [AList.lookup_insert_ne hboot] at hst
      exact hp hvalid standing hst
  · have hne := (hkeeps session hmem p hvalidated).symm
    refine ⟨?_, ?_, hp.epoch, hp.snapshot⟩
    · unfold Coordinator.standing
      rw [AList.lookup_insert_ne hne]
      exact hp.registered
    · rw [Finset.mem_insert, not_or]
      exact ⟨hne, hp.unfenced⟩

/-- **The step lemma of the publications.** -/
theorem PublicationsValid.step (hkeeps : c.Undisturbed action)
    (hstep : c.step sha codec action = some c') (h : c.PublicationsValid) :
    c'.PublicationsValid := by
  cases change_of_step hstep with
  | stay => exact h
  | connect =>
    intro session hmem
    rcases List.mem_append.mp hmem with hmem | hmem
    · exact (h session hmem).of_same ⟨fun _ => rfl, rfl, rfl, rfl⟩
    · obtain rfl := List.mem_singleton.mp hmem
      exact handles_of_none rfl
  | quiet hs hquiet activity hquiet' frames =>
    exact h.goto ⟨fun _ => rfl, rfl, rfl, rfl⟩ rfl hquiet'.inFlight?
  | @publishing index session hs hreading frame answers =>
    refine h.of_modify (fun _ _ hother => hother.of_same ⟨fun _ => rfl, rfl, rfl, rfl⟩) rfl ?_
    intro prior _
    refine ⟨fun p heq _ standing hst => ?_, nofun⟩
    obtain rfl := SessionActivity.publishing.inj heq
    -- the snapshot is read from the registration itself
    obtain ⟨registration, hlookup, rfl⟩ := Option.map_eq_some_iff.mp hst
    change registration.snapshot = c.registeredSnapshot frame.workerBoot
    unfold registeredSnapshot
    rw [show c.workers.lookup frame.workerBoot = some registration from hlookup]
    rfl
  | @validated index session hs publication hactivity status detail hvalidate =>
    refine h.of_modify (fun _ _ hother => hother.of_same ⟨fun _ => rfl, rfl, rfl, rfl⟩) rfl ?_
    intro prior _
    refine ⟨nofun, fun p detail' heq => ?_⟩
    obtain ⟨rfl, rfl, rfl⟩ := SessionActivity.validated.inj heq
    have htracked := (h session (List.mem_of_getElem? hs)).tracked _ hactivity
    exact (htracked.inFlight hvalidate).of_same ⟨fun _ => rfl, rfl, rfl, rfl⟩
  | @complete index session hs publication status detail hactivity =>
    refine h.goto ⟨fun _ => standing_complete publication status detail, rfl, rfl, rfl⟩ rfl ?_
    exact afterCompletion_inFlight? publication status detail
  | @register index session hs frame hello capture hactivity =>
    have hregister : (c.register index hello capture).PublicationsValid := by
      refine h.register fun other hmem p hp hboot => ?_
      exact (hkeeps other hmem).1 p hp session hs (hello, capture) (by rw [hactivity]; rfl) hboot
    exact hregister.of_sessions rfl fun _ _ hs => hs.of_same ⟨fun _ => rfl, rfl, rfl, rfl⟩
  | @retain index session hs plan hactivity activity hquiet =>
    have hop : (RuntimeOperation.retain plan).KeepsSnapshot c.runtime := trivial
    exact (h.perform (fun _ _ _ _ => hop) c.calls).goto ⟨fun _ => rfl, rfl, rfl, rfl⟩ rfl
      hquiet.inFlight?
  | record => exact h.goto ⟨fun _ => rfl, rfl, rfl, rfl⟩ rfl rfl
  | @dispatch index session hs epoch request payload hactivity =>
    exact h.dispatch index epoch request payload
  | relay => exact h.goto ⟨fun _ => rfl, rfl, rfl, rfl⟩ rfl rfl
  | sendFails => exact h.goto ⟨fun _ => rfl, rfl, rfl, rfl⟩ rfl rfl
  | markUnwritable => exact h.goto ⟨fun _ => rfl, rfl, rfl, rfl⟩ rfl rfl
  | collect hs hactivity => exact h.collect _
  | finish =>
    exact h.of_modify (fun _ _ hother => hother.of_same ⟨fun _ => rfl, rfl, rfl, rfl⟩) rfl
      fun _ _ => handles_of_none rfl
  | @release index session hs hactivity =>
    exact h.release fun other hmem p hp => (hkeeps other hmem).2 p hp session hs
  | fenceWorker boot hregistered calls =>
    exact h.fenceWorker hregistered (fun session hmem p hp => (hkeeps session hmem).2 p hp) calls
  | advanceEpoch hlt calls =>
    refine h.of_sessions rfl fun session hmem hs => ?_
    refine hs.of_keeps (fun p _ hp hvalid standing hst => ?_) fun p hvalidated hp => ?_
    · cases hst
    · exact absurd ((hkeeps session hmem).2 p hvalidated) (not_le.mpr hlt)
  | publishSnapshot snapshot epoch =>
    refine h.of_sessions rfl fun session hmem hs => ?_
    refine hs.of_keeps (fun p _ hp => hp.of_standing rfl) fun p hvalidated hp => ?_
    exact hp.of_same ⟨fun _ => rfl, rfl, max_eq_left ((hkeeps session hmem).2 p hvalidated), rfl⟩
  | @advanceRuntime index epoch notices hcall calls =>
    have hop : (RuntimeOperation.advanceEpoch epoch true).KeepsSnapshot c.runtime := trivial
    exact (h.perform (fun _ _ _ _ => hop) calls).of_sessions rfl
      fun _ _ hs => hs.of_same ⟨fun _ => rfl, rfl, rfl, rfl⟩
  | @publishRuntime index snapshot hcall calls =>
    refine h.perform (fun session hmem p hp => ?_) calls
    exact (hkeeps session hmem).2 p hp (.publishSnapshot snapshot) (by simp [operation, hcall])
  | notifyFence index calls frames =>
    exact h.of_sessions rfl fun _ _ hs => hs.of_same ⟨fun _ => rfl, rfl, rfl, rfl⟩
  | runtime op =>
    exact h.perform (fun session hmem p hp => (hkeeps session hmem).2 p hp) c.calls

/-! ## Runs -/

theorem IsStarted.publicationsValid (h : c.IsStarted) : c.PublicationsValid := by
  intro session hmem
  rw [h.sessions] at hmem
  cases hmem

/-- The section that counts a publication as accepted stores it as the result of a dispatch. -/
theorem accepted_of_step (h : c.step sha codec action = some c')
    (haccepted : c'.acceptedPublications ≠ c.acceptedPublications) :
    ∃ index session publication detail, action = .proceed index ∧
      c.sessions[index]? = some session ∧ session.activity = .validated publication .ok detail ∧
        ∃ slot, c'.pending.lookup publication.frame.request = some slot ∧ slot.ready = true ∧
          slot.status = .ok ∧ slot.payload = publication.frame.payload := by
  cases change_of_step h with
  | @complete index session hs publication status detail hactivity =>
    by_cases haccepts : c.accepts publication status = true
    · have hcond := haccepts
      unfold accepts at hcond
      rw [Bool.and_eq_true, decide_eq_true_eq] at hcond
      obtain ⟨rfl, hopen⟩ := hcond
      refine ⟨index, session, publication, detail, rfl, hs, hactivity, ?_⟩
      obtain ⟨slot, hslot⟩ := Option.isSome_iff_exists.mp hopen
      refine ⟨slot.complete index publication .ok detail, ?_, rfl, rfl, rfl⟩
      change (c.completedPending index publication .ok detail).lookup _ = _
      unfold completedPending
      rw [hslot]
      exact AList.lookup_insert _
    · refine absurd ?_ haccepted
      change (if c.accepts publication status = true then _ else _) = _
      rw [if_neg haccepts]
  | @dispatch index session hs epoch request payload hactivity =>
    refine absurd ?_ haccepted
    unfold Coordinator.dispatch
    split <;> rfl
  | _ => exact absurd rfl haccepted

/-- **A publication is accepted** in a state in which its worker is registered and not fenced, under
the current epoch and with the current snapshot, in every run that does not disturb the publications
in flight. -/
theorem accepted_valid {actions : List CoordinatorAction} {reached next : Coordinator}
    (hstart : c.IsStarted) (hkeeps : StepsMeet (step sha codec) Undisturbed c actions)
    (hrun : run (step sha codec) c actions = some reached)
    (hstep : reached.step sha codec action = some next)
    (haccepted : next.acceptedPublications ≠ reached.acceptedPublications) :
    ∃ index session publication detail, action = .proceed index ∧
      reached.sessions[index]? = some session ∧
      session.activity = .validated publication .ok detail ∧
      (∃ slot, next.pending.lookup publication.frame.request = some slot ∧ slot.ready = true ∧
        slot.status = .ok ∧ slot.payload = publication.frame.payload) ∧
      (∃ registration, reached.workers.lookup publication.frame.workerBoot = some registration ∧
        registration.fenced = false ∧ registration.snapshot = reached.currentSnapshotId) ∧
      publication.frame.workerBoot ∉ reached.fencedBoots ∧
      publication.frame.coordinatorEpoch.value = reached.epoch.value := by
  have hvalid : reached.PublicationsValid :=
    hkeeps.invariant (fun _ _ _ hk hs h => h.step hk hs) hrun hstart.publicationsValid
  obtain ⟨index, session, publication, detail, rfl, hs, hactivity, hslot⟩ :=
    accepted_of_step hstep haccepted
  have hinFlight := (hvalid session (List.mem_of_getElem? hs)).inFlight publication detail hactivity
  refine ⟨index, session, publication, detail, rfl, hs, hactivity, hslot, ?_, hinFlight.unfenced,
    hinFlight.epoch⟩
  obtain ⟨standing, hst, hfenced, hsnapshot⟩ := hinFlight.registered
  obtain ⟨registration, hlookup, rfl⟩ := Option.map_eq_some_iff.mp hst
  exact ⟨registration, hlookup, hfenced, hsnapshot.trans hinFlight.snapshot⟩

/-! ## A fence between the validation and the acceptance -/

/-- A client session dispatches the request of the given number to a worker, which is connected. -/
def dispatchTo (client : ℕ) (request : UInt8) : List CoordinatorAction :=
  [.receive client { type := .planRequest, request := .tagged 0 request, payload := [request] } none,
    .proceed client, .proceed client]

/-- A worker session publishes a result, which is validated. -/
def publishFrom (session : ℕ) (worker request : UInt8) (answers : Option ℕ) (payload : List UInt8) :
    List CoordinatorAction :=
  [.receive session
      { type := .planResult
        coordinatorEpoch := .ofNat 1
        workerBoot := .tagged 0 worker
        request := .tagged 0 request
        payload } answers,
    .proceed session]

/-- A worker and a client are connected, and a result is published. -/
def publishing : List CoordinatorAction :=
  oneHandshake ++ [.connect] ++ dispatchTo 1 7 ++ publishFrom 0 1 7 (some 0) []

/-- The coordinator with a publication that is validated. -/
def publishingCoordinator : Coordinator :=
  (run (step constantHash byteCodec) linkCoordinator publishing).get (by decide +kernel)

/-- The coordinator after a fence of the worker. -/
def fencedCoordinator : Coordinator :=
  (run (step constantHash byteCodec) linkCoordinator
    (publishing ++ [.fenceWorker (.tagged 0 1)])).get (by decide +kernel)

theorem accepted_valid_publishingCoordinator : ∃ boot registration,
    publishingCoordinator.workers.lookup boot = some registration ∧
      registration.fenced = false ∧
      registration.snapshot = publishingCoordinator.currentSnapshotId := by
  have hsome : (publishingCoordinator.step constantHash byteCodec (.proceed 0)).isSome := by
    decide +kernel
  have hrun : run (step constantHash byteCodec) linkCoordinator publishing =
    some publishingCoordinator := (Option.some_get _).symm
  obtain ⟨_, _, publication, _, _, _, _, _, ⟨registration, hregistered⟩, -⟩ :=
    accepted_valid ⟨rfl, rfl, rfl⟩ (by decide +kernel) hrun (Option.some_get hsome).symm
      (by decide +kernel +revert)
  exact ⟨_, registration, hregistered⟩

/-- A publication is accepted after its worker has been fenced. -/
theorem not_accepted_valid_fencedCoordinator :
    ¬ ∀ (actions : List CoordinatorAction) (action : CoordinatorAction) (reached next : Coordinator),
      run (step constantHash byteCodec) linkCoordinator actions = some reached →
      reached.step constantHash byteCodec action = some next →
      next.acceptedPublications ≠ reached.acceptedPublications →
      ∃ index session publication detail, action = .proceed index ∧
        reached.sessions[index]? = some session ∧
        session.activity = .validated publication .ok detail ∧
        publication.frame.workerBoot ∉ reached.fencedBoots := by
  intro h
  have hsome : (fencedCoordinator.step constantHash byteCodec (.proceed 0)).isSome := by
    decide +kernel
  have hrun : run (step constantHash byteCodec) linkCoordinator
    (publishing ++ [.fenceWorker (.tagged 0 1)]) = some fencedCoordinator := (Option.some_get _).symm
  have haccepted : ((fencedCoordinator.step constantHash byteCodec (.proceed 0)).get
      hsome).acceptedPublications ≠ fencedCoordinator.acceptedPublications := by
    decide +kernel +revert
  -- the boot identity of every publication in flight is fenced
  have hfenced : ∀ session ∈ fencedCoordinator.sessions, ∀ p ∈ session.activity.validated?,
      p.frame.workerBoot ∈ fencedCoordinator.fencedBoots := by
    decide +kernel
  obtain ⟨index, session, publication, detail, -, hs, hactivity, hunfenced⟩ :=
    h _ (.proceed 0) fencedCoordinator _ hrun (Option.some_get hsome).symm haccepted
  apply hunfenced
  apply hfenced session (List.mem_of_getElem? hs) publication
  rw [hactivity]
  rfl

end Coordinator

end PathPlanner
