import PathPlanner.Coordinator.Publication

/-!
# Dispatches

A dispatch waits in a slot under its request identity, which a publication, the loss of its worker's
session or a failure to relay it completes. A slot is the dispatch's own as long as no other dispatch
is opened under the identity, and only the worker of the dispatch answers it.

## Main definitions

* `Coordinator.openDispatch`: the dispatch that a client thread waits for
* `Dispatch.Owns`: a slot is that of a dispatch, and was completed on its behalf
* `Coordinator.KeepsDispatches`: the section leaves the slots to their dispatches
* `Coordinator.DispatchesOwn`: the invariant of the slots

## Main results

* `Coordinator.DispatchesOwn.step`: the step lemma
* `Coordinator.dispatch_correlated`: dispatches and results correspond in any run of such sections
-/

namespace PathPlanner

open Run

/-- The dispatch whose frame has been relayed, unless its worker was not writable. -/
def SessionActivity.waiting? : SessionActivity → Option Dispatch
  | .waiting d => some d
  | _ => none

theorem SessionActivity.dispatch?_of_waiting? {activity : SessionActivity} {d : Dispatch}
    (h : activity.waiting? = some d) : activity.dispatch? = some d := by
  unfold waiting? at h
  split at h
  · exact h
  · cases h

theorem SessionActivity.waiting?_of_dispatch? {activity : SessionActivity}
    (h : activity.dispatch? = none) : activity.waiting? = none := by
  cases hwaiting : activity.waiting? with
  | none => rfl
  | some d =>
    rw [dispatch?_of_waiting? hwaiting] at h
    cases h

/-- The identity that a client thread is about to open a dispatch under. -/
def SessionActivity.requested? : SessionActivity → Option PlanningRequestId
  | .requesting _ request _ => some request
  | _ => none

/-- The publication that a worker thread is about to complete a slot with. -/
def SessionActivity.completing? : SessionActivity → Option Publication
  | .validated publication _ _ => some publication
  | _ => none

/-- What completed a slot is what the dispatch itself has brought about. -/
def Dispatch.Completes (d : Dispatch) (slot : Pending) : Completion → Prop
  | .waiting => slot.ready = false
  | .unassigned => slot.ready = true ∧ slot.status ≠ .ok ∧ d.worker = none
  | .unwritable => slot.ready = true ∧ slot.status ≠ .ok
  | .sessionLost session => slot.ready = true ∧ slot.status ≠ .ok ∧ d.worker = some session
  | .published session publication => slot.ready = true ∧ d.worker = some session ∧
      slot.workerKey = some publication.frame.workerBoot ∧
      publication.frame.request = d.request ∧ publication.answers = some d.number ∧
      (slot.status = .ok → slot.payload = publication.frame.payload)

/-- A slot is that of a dispatch, and was completed on its behalf. -/
structure Dispatch.Owns (d : Dispatch) (slot : Pending) : Prop where
  number : slot.dispatch = d.number
  worker : slot.worker = d.worker
  requestPayload : d.worker.isSome = true → slot.requestPayload = d.payload
  completion : d.Completes slot slot.completion

/-- A slot that is completed is not one that was marked. -/
theorem Dispatch.Owns.ne_unwritable {d : Dispatch} {slot : Pending} (h : d.Owns slot)
    (hready : slot.ready = false) : slot.completion ≠ .unwritable := by
  intro hcompletion
  have hcompletes := h.completion
  rw [hcompletion] at hcompletes
  rw [hcompletes.1] at hready
  cases hready

/-- A publication completes the slot of the dispatch that it answers. -/
theorem Dispatch.Owns.complete {d : Dispatch} {slot : Pending} (h : d.Owns slot) {index : ℕ}
    {publication : Publication} (hrequest : d.request = publication.frame.request)
    (hworker : slot.worker = some index)
    (hkey : slot.workerKey = some publication.frame.workerBoot)
    (hanswers : publication.answers = some slot.dispatch) (status : WireStatus) (detail : String) :
    d.Owns (slot.complete index publication status detail) := by
  have hanswers' : publication.answers = some d.number := hanswers.trans (congrArg some h.number)
  have hworker' : d.worker = some index := h.worker.symm.trans hworker
  unfold Pending.complete
  by_cases hstatus : status = .ok
  · rw [if_pos hstatus]
    exact ⟨h.number, h.worker, h.requestPayload,
      rfl, hworker', hkey, hrequest.symm, hanswers', fun _ => rfl⟩
  · rw [if_neg hstatus]
    exact ⟨h.number, h.worker, h.requestPayload,
      rfl, hworker', hkey, hrequest.symm, hanswers', fun hok => absurd hok hstatus⟩

namespace Coordinator

variable {sha : List UInt8 → Sha256Digest} {codec : PayloadCodec} {c c' : Coordinator}
  {action : CoordinatorAction} {index client : ℕ} {d : Dispatch}

/-! ## Open dispatches -/

/-- The dispatch that a client thread has begun and not yet collected. -/
def openDispatch (c : Coordinator) (client : ℕ) : Option Dispatch :=
  c.sessions[client]?.bind (·.activity.dispatch?)

/-- The dispatch that a client thread waits for, once it has sent its frame. -/
def waitingDispatch (c : Coordinator) (client : ℕ) : Option Dispatch :=
  c.sessions[client]?.bind (·.activity.waiting?)

/-- The request that a worker session works on. -/
def outstanding (c : Coordinator) (index : ℕ) : Option PlanningRequestId :=
  c.sessions[index]?.bind (·.outstandingRequest)

theorem openDispatch_of_waitingDispatch (h : c.waitingDispatch client = some d) :
    c.openDispatch client = some d := by
  obtain ⟨session, hs, hwaiting⟩ := Option.bind_eq_some_iff.mp h
  unfold openDispatch
  rw [hs]
  exact SessionActivity.dispatch?_of_waiting? hwaiting

/-- What a modification of one session does to a part of the sessions. -/
theorem bind_getElem?_modify {β : Type*} {l : List Session} {session : Session}
    (hs : l[index]? = some session) (f : Session → Session) (part : Session → Option β) (i : ℕ) :
    (l.modify index f)[i]?.bind part =
      if i = index then part (f session) else l[i]?.bind part := by
  by_cases hi : i = index
  · subst hi
    rw [List.getElem?_modify_eq, hs, if_pos rfl]
    rfl
  · rw [List.getElem?_modify_ne _ _ (Ne.symm hi), if_neg hi]

/-- A modification that keeps a part of the session. -/
theorem bind_getElem?_modify_same {β : Type*} {l : List Session} (f : Session → Session)
    (part : Session → Option β) (h : ∀ s, part (f s) = part s) (i : ℕ) :
    (l.modify index f)[i]?.bind part = l[i]?.bind part := by
  rw [List.getElem?_modify]
  cases l[i]? with
  | none => rfl
  | some session =>
    change part (if index = i then f session else session) = part session
    split_ifs
    · exact h session
    · rfl

theorem bind_getElem?_append {β : Type*} {l : List Session} {session : Session}
    {part : Session → Option β} (h : part session = none) (i : ℕ) :
    (l ++ [session])[i]?.bind part = l[i]?.bind part := by
  rcases lt_or_ge i l.length with hi | hi
  · rw [List.getElem?_append_left hi]
  · rw [List.getElem?_append_right hi, List.getElem?_eq_none hi]
    cases hs : [session][i - l.length]? with
    | none => rfl
    | some s =>
      obtain rfl := List.mem_singleton.mp (List.mem_of_getElem? hs)
      exact h

theorem openDispatch_goto {session : Session} (hs : c.sessions[index]? = some session)
    (activity : SessionActivity) (i : ℕ) : (c.goto index activity).openDispatch i =
      if i = index then activity.dispatch? else c.openDispatch i :=
  bind_getElem?_modify hs _ _ i

theorem waitingDispatch_goto {session : Session} (hs : c.sessions[index]? = some session)
    (activity : SessionActivity) (i : ℕ) : (c.goto index activity).waitingDispatch i =
      if i = index then activity.waiting? else c.waitingDispatch i :=
  bind_getElem?_modify hs _ _ i

theorem outstanding_goto (activity : SessionActivity) (i : ℕ) :
    (c.goto index activity).outstanding i = c.outstanding i :=
  bind_getElem?_modify_same (fun s => { s with activity }) (·.outstandingRequest) (fun _ => rfl) i

/-- The section leaves the slots to their dispatches: a dispatch is opened under an identity that no
slot is pending under, and a publication that completes a slot comes from the worker of the slot, in
answer to its dispatch. -/
def KeepsDispatches (c : Coordinator) : CoordinatorAction → Prop
  | .proceed index => ∀ session ∈ c.sessions[index]?,
      (∀ request ∈ session.activity.requested?, c.pending.lookup request = none) ∧
      ∀ publication ∈ session.activity.completing?,
        ∀ slot ∈ c.openSlot publication.frame.request,
          slot.worker = some index ∧ slot.workerKey = some publication.frame.workerBoot ∧
            publication.answers = some slot.dispatch
  | _ => True

/-- Every open dispatch owns the slot under its identity, which no other dispatch has, and is relayed
before it is waited for; a worker session works on a request whose slot is assigned to it. -/
structure DispatchesOwn (c : Coordinator) : Prop where
  slot : ∀ client d, c.openDispatch client = some d →
    ∃ slot, c.pending.lookup d.request = some slot ∧ d.Owns slot
  distinct : ∀ client client' d d', c.openDispatch client = some d →
    c.openDispatch client' = some d' → d.request = d'.request → client = client'
  outstanding : ∀ index request, c.outstanding index = some request →
    ∃ slot, c.pending.lookup request = some slot ∧ slot.worker = some index
  relayed : ∀ client d worker, c.waitingDispatch client = some d → d.worker = some worker →
    relayFrame d worker ∈ c.sent ∨
      ∃ slot, c.pending.lookup d.request = some slot ∧ slot.completion = .unwritable

/-! ## Frames -/

/-- A section that keeps the slots, the open dispatches and the outstanding requests. -/
theorem DispatchesOwn.of_frame (h : c.DispatchesOwn)
    (hopen : ∀ client, c'.openDispatch client = c.openDispatch client)
    (hwaiting : ∀ client d, c'.waitingDispatch client = some d → c.waitingDispatch client = some d)
    (houtstanding : ∀ index, c'.outstanding index = c.outstanding index)
    (hpending : c'.pending = c.pending) (hsent : c.sent ⊆ c'.sent) : c'.DispatchesOwn where
  slot := by
    intro client d hd
    rw [hopen] at hd
    rw [hpending]
    exact h.slot client d hd
  distinct := by
    intro client client' d d' hd hd'
    rw [hopen] at hd hd'
    exact h.distinct client client' d d' hd hd'
  outstanding := by
    intro index request hrequest
    rw [houtstanding] at hrequest
    rw [hpending]
    exact h.outstanding index request hrequest
  relayed := by
    intro client d worker hd hworker
    rw [hpending]
    exact (h.relayed client d worker (hwaiting client d hd) hworker).imp_left (hsent ·)

/-- A section that keeps the sessions. -/
theorem DispatchesOwn.of_sessions (h : c.DispatchesOwn) (hsessions : c'.sessions = c.sessions)
    (hpending : c'.pending = c.pending) (hsent : c.sent ⊆ c'.sent) : c'.DispatchesOwn := by
  refine h.of_frame (fun client => ?_) (fun client d hd => ?_) (fun index => ?_) hpending hsent
  · unfold openDispatch
    rw [hsessions]
  · unfold waitingDispatch at hd
    rwa [hsessions] at hd
  · unfold Coordinator.outstanding
    rw [hsessions]

/-- The thread of one session goes on with the same dispatch, if it has one. -/
theorem DispatchesOwn.of_modify (h : c.DispatchesOwn) {session : Session}
    (hs : c.sessions[index]? = some session) {f : Session → Session}
    (hsessions : c'.sessions = c.sessions.modify index f)
    (hdispatch : (f session).activity.dispatch? = session.activity.dispatch?)
    (hwaiting : (f session).activity.waiting? = none)
    (houtstanding : (f session).outstandingRequest = session.outstandingRequest)
    (hpending : c'.pending = c.pending) (hsent : c.sent ⊆ c'.sent) : c'.DispatchesOwn := by
  refine h.of_frame (fun client => ?_) (fun client d hd => ?_) (fun i => ?_) hpending hsent
  · unfold openDispatch
    rw [hsessions, bind_getElem?_modify hs]
    split_ifs with hclient
    · subst hclient
      rw [hdispatch, hs]
      rfl
    · rfl
  · unfold waitingDispatch at hd ⊢
    rw [hsessions, bind_getElem?_modify hs] at hd
    split_ifs at hd
    · rw [hwaiting] at hd
      cases hd
    · exact hd
  · unfold Coordinator.outstanding
    rw [hsessions, bind_getElem?_modify hs]
    split_ifs with hi
    · subst hi
      rw [houtstanding, hs]
      rfl
    · rfl

/-- The thread of one session goes from a place without a dispatch to another such place. -/
theorem DispatchesOwn.goto (h : c.DispatchesOwn) {session : Session}
    (hs : c.sessions[index]? = some session) (hnone : session.activity.dispatch? = none)
    {activity : SessionActivity} (hactivity : activity.dispatch? = none)
    (hsessions : c'.sessions = c.sessions.modify index fun s => { s with activity })
    (hpending : c'.pending = c.pending) (hsent : c.sent ⊆ c'.sent) : c'.DispatchesOwn :=
  h.of_modify hs hsessions (hactivity.trans hnone.symm)
    (SessionActivity.waiting?_of_dispatch? hactivity) rfl hpending hsent

/-- A slot is completed. -/
theorem DispatchesOwn.of_insert (h : c.DispatchesOwn) {request : PlanningRequestId}
    {slot slot' : Pending} (hslot : c.pending.lookup request = some slot)
    (hworker : slot'.worker = slot.worker)
    (howns : ∀ d : Dispatch, d.request = request → d.Owns slot → d.Owns slot')
    (hunwritable : ∀ d : Dispatch, d.request = request → d.Owns slot →
      slot.completion = .unwritable → slot'.completion = .unwritable)
    (hopen : ∀ client, c'.openDispatch client = c.openDispatch client)
    (hwaiting : ∀ client, c'.waitingDispatch client = c.waitingDispatch client)
    (houtstanding : ∀ index, c'.outstanding index = c.outstanding index)
    (hpending : c'.pending = c.pending.insert request slot') (hsent : c'.sent = c.sent) :
    c'.DispatchesOwn := by
  -- each slot is the completed one, or as it was
  have hlookup {key : PlanningRequestId} {old : Pending} (hold : c.pending.lookup key = some old) :
      (key = request ∧ old = slot ∧ c'.pending.lookup key = some slot') ∨
        c'.pending.lookup key = some old := by
    rw [hpending]
    by_cases hkey : key = request
    · subst hkey
      refine Or.inl ⟨rfl, ?_, AList.lookup_insert _⟩
      rw [hslot] at hold
      exact (Option.some.inj hold).symm
    · exact Or.inr ((AList.lookup_insert_ne hkey).trans hold)
  refine ⟨fun client d hd => ?_, fun client client' d d' hd hd' => ?_, fun index key hkey => ?_,
    fun client d worker hd hdworker => ?_⟩
  · rw [hopen] at hd
    obtain ⟨old, hold, hown⟩ := h.slot client d hd
    rcases hlookup hold with ⟨hrequest, rfl, hnew⟩ | hnew
    · exact ⟨slot', hnew, howns d hrequest hown⟩
    · exact ⟨old, hnew, hown⟩
  · rw [hopen] at hd hd'
    exact h.distinct client client' d d' hd hd'
  · rw [houtstanding] at hkey
    obtain ⟨old, hold, hassigned⟩ := h.outstanding index key hkey
    rcases hlookup hold with ⟨-, rfl, hnew⟩ | hnew
    · exact ⟨slot', hnew, hworker.trans hassigned⟩
    · exact ⟨old, hnew, hassigned⟩
  · rw [hwaiting] at hd
    rw [hsent]
    refine (h.relayed client d worker hd hdworker).imp_right ?_
    rintro ⟨old, hold, hcompletion⟩
    rcases hlookup hold with ⟨hrequest, rfl, hnew⟩ | hnew
    · obtain ⟨own, hown, howned⟩ := h.slot client d (openDispatch_of_waitingDispatch hd)
      rw [hold] at hown
      obtain rfl := Option.some.inj hown
      exact ⟨slot', hnew, hunwritable d hrequest howned hcompletion⟩
    · exact ⟨old, hnew, hcompletion⟩

/-! ## Sections that touch the slots -/

theorem openSlot_eq_some {request : PlanningRequestId} {slot : Pending}
    (h : c.openSlot request = some slot) :
    c.pending.lookup request = some slot ∧ slot.ready = false := by
  obtain ⟨hlookup, hready⟩ := Option.filter_eq_some_iff.mp h
  rw [Bool.not_eq_true'] at hready
  exact ⟨hlookup, hready⟩

/-- A publication is completed. -/
theorem DispatchesOwn.complete (h : c.DispatchesOwn) {session : Session}
    (hs : c.sessions[index]? = some session) {publication : Publication} {status : WireStatus}
    {detail : String} (hactivity : session.activity = .validated publication status detail)
    (hkeeps : ∀ slot ∈ c.openSlot publication.frame.request,
      slot.worker = some index ∧ slot.workerKey = some publication.frame.workerBoot ∧
        publication.answers = some slot.dispatch) :
    (c.complete index publication status detail).DispatchesOwn := by
  have hnone : session.activity.dispatch? = none := by
    rw [hactivity]
    rfl
  have hafter : (c.afterCompletion publication status detail).dispatch? = none := by
    unfold afterCompletion
    split_ifs
    · split <;> rfl
    · rfl
  -- the slots are completed first, then the thread goes on
  have hcompleted : ({ c with pending := c.completedPending index publication status detail }
      : Coordinator).DispatchesOwn := by
    unfold completedPending
    cases hopen : c.openSlot publication.frame.request with
    | none => exact h.of_sessions rfl rfl (List.Subset.refl _)
    | some slot =>
      obtain ⟨hlookup, hready⟩ := openSlot_eq_some hopen
      obtain ⟨hworker, hkey, hanswers⟩ := hkeeps slot hopen
      refine h.of_insert hlookup ?_ (fun d hrequest hown => ?_) (fun d hrequest hown => ?_)
        (fun _ => rfl) (fun _ => rfl) (fun _ => rfl) rfl rfl
      · unfold Pending.complete
        dsimp only
        split_ifs <;> rfl
      · exact hown.complete hrequest hworker hkey hanswers status detail
      · exact fun hunwritable => absurd hunwritable (hown.ne_unwritable hready)
  exact hcompleted.goto hs hnone hafter rfl rfl (List.Subset.refl _)

/-- A session is released. -/
theorem DispatchesOwn.release (h : c.DispatchesOwn) {session : Session}
    (hs : c.sessions[index]? = some session) (hactivity : session.activity = .closing) :
    (c.release index session).DispatchesOwn := by
  have hnone : session.activity.dispatch? = none := by
    rw [hactivity]
    rfl
  have hreleased : ({ c with pending := c.releaseOutstanding index session }
      : Coordinator).DispatchesOwn := by
    have hkept : ({ c with pending := c.pending } : Coordinator).DispatchesOwn :=
      h.of_sessions rfl rfl (List.Subset.refl _)
    unfold releaseOutstanding
    cases houtstanding : session.outstandingRequest with
    | none => exact hkept
    | some request =>
      have hindex : c.outstanding index = some request := by
        unfold Coordinator.outstanding
        rw [hs]
        exact houtstanding
      obtain ⟨slot, hlookup, hworker⟩ := h.outstanding index request hindex
      dsimp only
      rw [hlookup]
      dsimp only
      split_ifs with hready
      · exact hkept
      · have hopen : slot.ready = false := Bool.eq_false_of_not_eq_true hready
        refine h.of_insert hlookup ?_ (fun d hrequest hown => ?_) (fun d hrequest hown => ?_)
          (fun _ => rfl) (fun _ => rfl) (fun _ => rfl) rfl rfl
        · rfl
        · exact ⟨hown.number, hown.worker, hown.requestPayload,
            rfl, nofun, hown.worker.symm.trans hworker⟩
        · exact fun hunwritable => absurd hunwritable (hown.ne_unwritable hopen)
  exact hreleased.goto hs hnone rfl rfl rfl (List.Subset.refl _)

/-- A dispatch is opened: the client thread has a new dispatch, whose slot is new too. -/
theorem DispatchesOwn.of_open (h : c.DispatchesOwn) (client : ℕ) (d : Dispatch)
    (hfree : c.pending.lookup d.request = none) {slot : Pending} (hown : d.Owns slot)
    (hopen : ∀ i, c'.openDispatch i = if i = client then some d else c.openDispatch i)
    (hwaiting : c'.waitingDispatch client = none ∨ d.worker = none)
    (hother : ∀ i, i ≠ client → c'.waitingDispatch i = c.waitingDispatch i)
    (houtstanding : ∀ i, c'.outstanding i =
      if slot.worker = some i then some d.request else c.outstanding i)
    (hpending : c'.pending = c.pending.insert d.request slot) (hsent : c'.sent = c.sent) :
    c'.DispatchesOwn := by
  -- the slots that are there have other identities
  have hlookup {key : PlanningRequestId} {old : Pending} (hold : c.pending.lookup key = some old) :
      key ≠ d.request ∧ c'.pending.lookup key = some old := by
    have hne : key ≠ d.request := by
      rintro rfl
      rw [hfree] at hold
      cases hold
    rw [hpending]
    exact ⟨hne, (AList.lookup_insert_ne hne).trans hold⟩
  have hnew : c'.pending.lookup d.request = some slot := hpending ▸ AList.lookup_insert _
  refine ⟨fun i e he => ?_, fun i j e e' he he' hrequest => ?_, fun i key hkey => ?_,
    fun i e worker he hworker => ?_⟩
  · rw [hopen] at he
    split_ifs at he
    · obtain rfl := Option.some.inj he
      exact ⟨slot, hnew, hown⟩
    · obtain ⟨old, hold, howned⟩ := h.slot i e he
      exact ⟨old, (hlookup hold).2, howned⟩
  · rw [hopen] at he he'
    split_ifs at he he' with hi hj hj
    · rw [hi, hj]
    · obtain ⟨old, hold, -⟩ := h.slot j e' he'
      rw [← Option.some.inj he] at hrequest
      exact absurd hrequest.symm (hlookup hold).1
    · obtain ⟨old, hold, -⟩ := h.slot i e he
      rw [← Option.some.inj he'] at hrequest
      exact absurd hrequest (hlookup hold).1
    · exact h.distinct i j e e' he he' hrequest
  · rw [houtstanding] at hkey
    split_ifs at hkey with hi
    · obtain rfl := Option.some.inj hkey
      exact ⟨slot, hnew, hi⟩
    · obtain ⟨old, hold, hassigned⟩ := h.outstanding i key hkey
      exact ⟨old, (hlookup hold).2, hassigned⟩
  · by_cases hi : i = client
    · subst hi
      rcases hwaiting with hnone | hnone
      · rw [hnone] at he
        cases he
      · have hopened := openDispatch_of_waitingDispatch he
        rw [hopen, if_pos rfl] at hopened
        rw [← Option.some.inj hopened, hnone] at hworker
        cases hworker
    · rw [hother i hi] at he
      rw [hsent]
      refine (h.relayed i e worker he hworker).imp_right ?_
      rintro ⟨old, hold, hcompletion⟩
      exact ⟨old, (hlookup hold).2, hcompletion⟩

theorem DispatchesOwn.dispatch (h : c.DispatchesOwn) {session : Session}
    (hs : c.sessions[client]? = some session) {epoch : CoordinatorEpoch}
    {request : PlanningRequestId} {payload : List UInt8}
    (hfree : c.pending.lookup request = none) :
    (c.dispatch client epoch request payload).DispatchesOwn := by
  unfold Coordinator.dispatch
  split
  · -- no worker is available
    refine h.of_open client
      { sendEpoch := epoch, request, payload, number := c.dispatches, worker := none }
      hfree ?_ (fun i => ?_) (Or.inr rfl) (fun i hi => ?_) (fun i => ?_) rfl rfl
    · exact ⟨rfl, rfl, nofun, rfl, nofun, rfl⟩
    · exact openDispatch_goto hs _ i
    · exact (waitingDispatch_goto hs _ i).trans (if_neg hi)
    · rw [if_neg nofun]
      exact outstanding_goto _ i
  · next worker hfind =>
    -- the session of the worker takes the request, then the client goes on to relay it
    obtain ⟨hlt, -⟩ := List.findIdx?_eq_some_iff_getElem.mp hfind
    have hworker := List.getElem?_eq_getElem hlt
    set assign : Session → Session := fun s => { s with outstandingRequest := some request }
    obtain ⟨assigned, hassigned⟩ :
        ∃ assigned, (c.sessions.modify worker assign)[client]? = some assigned := by
      rw [List.getElem?_modify, hs]
      exact ⟨_, rfl⟩
    refine h.of_open client
      { sendEpoch := epoch, request, payload, number := c.dispatches, worker := some worker
        relayEpoch := c.sendEpoch, sequence := c.nextSequence }
      hfree ?_ (fun i => ?_) (Or.inl ?_) (fun i hi => ?_) (fun i => ?_) rfl rfl
    · exact ⟨rfl, rfl, fun _ => rfl, rfl⟩
    · rw [openDispatch_goto hassigned]
      congr 1
      exact bind_getElem?_modify_same assign (·.activity.dispatch?) (fun _ => rfl) i
    · exact (waitingDispatch_goto hassigned _ client).trans (if_pos rfl)
    · rw [waitingDispatch_goto hassigned, if_neg hi]
      exact bind_getElem?_modify_same assign (·.activity.waiting?) (fun _ => rfl) i
    · rw [outstanding_goto]
      refine (bind_getElem?_modify hworker assign (·.outstandingRequest) i).trans ?_
      simp only [Option.some.injEq, eq_comm (b := i)]
      rfl

/-! ## Sections that erase a slot -/

/-- The dispatches that the threads of the sessions have, once a request is cleared. -/
theorem bind_getElem?_map_clearOutstanding {β : Type*} {l : List Session}
    (request : PlanningRequestId) (part : SessionActivity → Option β) (i : ℕ) :
    ((l.map (Session.clearOutstanding request))[i]?.bind fun s => part s.activity) =
      l[i]?.bind fun s => part s.activity := by
  rw [List.getElem?_map]
  cases l[i]? with
  | none => rfl
  | some s =>
    change part (s.clearOutstanding request).activity = part s.activity
    unfold Session.clearOutstanding
    split_ifs <;> rfl

/-- The request of a session that is left when a request is cleared is another one. -/
theorem outstanding_of_collect {request : PlanningRequestId}
    (h : (c.collect client d).outstanding index = some request) :
    request ≠ d.request ∧ c.outstanding index = some request := by
  unfold Coordinator.collect at h
  change (Coordinator.goto _ client .reading).outstanding index = some request at h
  rw [outstanding_goto] at h
  unfold Coordinator.outstanding at h ⊢
  rw [List.getElem?_map] at h
  cases hs : c.sessions[index]? with
  | none =>
    rw [hs] at h
    cases h
  | some session =>
    rw [hs] at h
    change (session.clearOutstanding d.request).outstandingRequest = some request at h
    change _ ∧ session.outstandingRequest = some request
    unfold Session.clearOutstanding at h
    split_ifs at h with hcond
    refine ⟨?_, h⟩
    rintro rfl
    exact hcond h

/-- A dispatch is collected: its slot is erased, and the requests under its identity are cleared. -/
theorem DispatchesOwn.collect (h : c.DispatchesOwn) {session : Session}
    (hs : c.sessions[client]? = some session) (hactivity : session.activity = .waiting d) :
    (c.collect client d).DispatchesOwn := by
  have hclient : c.openDispatch client = some d := by
    unfold openDispatch
    rw [hs, Option.bind_some, hactivity]
    rfl
  have hcleared : (c.sessions.map (Session.clearOutstanding d.request))[client]? =
      some (session.clearOutstanding d.request) := by
    rw [List.getElem?_map, hs]
    rfl
  -- the dispatches that are still open are those of the other clients
  have hopen {i : ℕ} {e : Dispatch} (he : (c.collect client d).openDispatch i = some e) :
      c.openDispatch i = some e ∧ e.request ≠ d.request := by
    have hgoto := (openDispatch_goto hcleared .reading i).symm.trans he
    split_ifs at hgoto with hi
    · cases hgoto
    · have hopened : c.openDispatch i = some e :=
        (bind_getElem?_map_clearOutstanding d.request (·.dispatch?) i).symm.trans hgoto
      exact ⟨hopened, fun heq => hi (h.distinct i client e d hopened hclient heq)⟩
  have hlookup {key : PlanningRequestId} (hne : key ≠ d.request) :
      (c.collect client d).pending.lookup key = c.pending.lookup key := AList.lookup_erase_ne hne
  refine ⟨fun i e he => ?_, fun i j e e' he he' hrequest => ?_, fun i key hkey => ?_,
    fun i e worker he hworker => ?_⟩
  · obtain ⟨hopened, hne⟩ := hopen he
    rw [hlookup hne]
    exact h.slot i e hopened
  · exact h.distinct i j e e' (hopen he).1 (hopen he').1 hrequest
  · obtain ⟨hne, hkey⟩ := outstanding_of_collect hkey
    rw [hlookup hne]
    exact h.outstanding i key hkey
  · obtain ⟨-, hne⟩ := hopen (openDispatch_of_waitingDispatch he)
    have hgoto := (waitingDispatch_goto hcleared .reading i).symm.trans he
    split_ifs at hgoto
    · cases hgoto
    · have hwaiting : c.waitingDispatch i = some e :=
        (bind_getElem?_map_clearOutstanding d.request (·.waiting?) i).symm.trans hgoto
      rw [hlookup hne]
      exact (h.relayed i e worker hwaiting hworker).imp_left fun hmem =>
        List.mem_append_left _ hmem

/-! ## The step lemma -/

/-- A client thread goes on to wait for its dispatch. -/
theorem DispatchesOwn.wait (h : c.DispatchesOwn) {session : Session}
    (hs : c.sessions[client]? = some session) (hactivity : session.activity.dispatch? = some d)
    {frames : List SentFrame} (hrelayed : ∀ worker, d.worker = some worker →
      relayFrame d worker ∈ frames ∨
        ∃ slot, c.pending.lookup d.request = some slot ∧ slot.completion = .unwritable) :
    ((c.goto client (.waiting d)).send frames).DispatchesOwn := by
  have hclient : c.openDispatch client = some d := by
    unfold openDispatch
    rw [hs]
    exact hactivity
  have hopen (i : ℕ) :
      ((c.goto client (.waiting d)).send frames).openDispatch i = c.openDispatch i := by
    refine (openDispatch_goto hs (.waiting d) i).trans ?_
    split_ifs with hi
    · rw [hi, hclient]
      rfl
    · rfl
  refine ⟨fun i e he => ?_, fun i j e e' he he' => ?_, fun i request hrequest => ?_,
    fun i e worker he hworker => ?_⟩
  · rw [hopen] at he
    exact h.slot i e he
  · rw [hopen] at he he'
    exact h.distinct i j e e' he he'
  · exact h.outstanding i request ((outstanding_goto (.waiting d) i).symm.trans hrequest)
  · have hgoto := (waitingDispatch_goto hs (.waiting d) i).symm.trans he
    split_ifs at hgoto
    · obtain rfl := Option.some.inj hgoto
      exact (hrelayed worker hworker).imp_left fun hmem => List.mem_append_right _ hmem
    · exact (h.relayed i e worker hgoto hworker).imp_left fun hmem => List.mem_append_left _ hmem

/-- A dispatch is marked whose worker is not writable. -/
theorem DispatchesOwn.markUnwritable (h : c.DispatchesOwn) {session : Session}
    (hs : c.sessions[client]? = some session) (hactivity : session.activity = .unwritable d) :
    (c.markUnwritable client d).DispatchesOwn := by
  have hdispatch : session.activity.dispatch? = some d := by
    rw [hactivity]
    rfl
  have hclient : c.openDispatch client = some d := by
    unfold openDispatch
    rw [hs]
    exact hdispatch
  obtain ⟨slot, hlookup, -⟩ := h.slot client d hclient
  unfold Coordinator.markUnwritable
  rw [hlookup, Option.getD_some]
  -- the slot is marked first, then the thread goes on
  set marked : Pending := { slot with
    ready := true
    status := .noWorkerAvailable
    detail := "worker session is not writable"
    completion := .unwritable }
  have hmarked : ({ c with pending := c.pending.insert d.request marked }
      : Coordinator).DispatchesOwn := by
    refine h.of_insert hlookup ?_ (fun e _ hown => ?_) (fun _ _ _ _ => ?_) (fun _ => rfl)
      (fun _ => rfl) (fun _ => rfl) rfl rfl
    · rfl
    · exact ⟨hown.number, hown.worker, hown.requestPayload, rfl, nofun⟩
    · rfl
  rw [← send_nil (c := Coordinator.goto _ client (.waiting d))]
  refine hmarked.wait hs hdispatch fun worker _ => Or.inr ?_
  exact ⟨marked, AList.lookup_insert _, rfl⟩

/-- **The step lemma of the dispatches.** -/
theorem DispatchesOwn.step (hkeeps : c.KeepsDispatches action)
    (hstep : c.step sha codec action = some c') (h : c.DispatchesOwn) : c'.DispatchesOwn := by
  have hrefl : c.sent ⊆ c.sent := List.Subset.refl _
  cases change_of_step hstep with
  | stay => exact h
  | connect =>
    -- the new session has neither a dispatch nor a request
    exact h.of_frame (bind_getElem?_append rfl)
      (fun client _ hd => (bind_getElem?_append rfl client).symm.trans hd)
      (bind_getElem?_append rfl) rfl hrefl
  | quiet hs hquiet activity hquiet' frames =>
    exact h.goto hs hquiet.dispatch hquiet'.dispatch rfl rfl (List.subset_append_left _ _)
  | publishing hs hreading => exact h.goto hs (by rw [hreading]; rfl) rfl rfl rfl hrefl
  | validated hs hactivity => exact h.goto hs (by rw [hactivity]; rfl) rfl rfl rfl hrefl
  | @complete index session hs publication status detail hactivity =>
    refine h.complete hs hactivity ?_
    exact (hkeeps session hs).2 publication (by rw [hactivity]; rfl)
  | register hs hactivity =>
    refine h.of_modify hs rfl ?_ rfl rfl rfl (List.subset_append_left _ _)
    rw [hactivity]
    rfl
  | retain hs hactivity activity hquiet =>
    exact h.goto hs (by rw [hactivity]; rfl) hquiet.dispatch rfl rfl hrefl
  | record hs hactivity => exact h.goto hs (by rw [hactivity]; rfl) rfl rfl rfl hrefl
  | @dispatch index session hs epoch request payload hactivity =>
    exact h.dispatch hs ((hkeeps session hs).1 request (by rw [hactivity]; rfl))
  | @relay index session hs d hactivity worker hworker =>
    refine h.wait hs (by rw [hactivity]; rfl) fun w hw => Or.inl ?_
    rw [hworker] at hw
    obtain rfl := Option.some.inj hw
    exact List.mem_singleton_self _
  | sendFails hs hactivity =>
    refine h.of_modify hs rfl ?_ rfl rfl rfl hrefl
    rw [hactivity]
    rfl
  | markUnwritable hs hactivity => exact h.markUnwritable hs hactivity
  | collect hs hactivity => exact h.collect hs hactivity
  | finish hs hquiet => exact h.of_modify hs rfl hquiet.dispatch.symm rfl rfl rfl hrefl
  | release hs hactivity => exact h.release hs hactivity
  | fenceWorker => exact h.of_sessions rfl rfl hrefl
  | advanceEpoch => exact h.of_sessions rfl rfl hrefl
  | publishSnapshot => exact h.of_sessions rfl rfl hrefl
  | advanceRuntime => exact h.of_sessions rfl rfl (List.subset_append_left _ _)
  | publishRuntime => exact h.of_sessions rfl rfl hrefl
  | notifyFence => exact h.of_sessions rfl rfl (List.subset_append_left _ _)
  | runtime => exact h.of_sessions rfl rfl hrefl

/-! ## Runs -/

theorem IsStarted.dispatchesOwn (h : c.IsStarted) : c.DispatchesOwn := by
  have hnone {β : Type} (part : Session → Option β) (i : ℕ) : c.sessions[i]?.bind part = none := by
    rw [h.sessions]
    rfl
  refine ⟨fun i d hd => ?_, fun i j d d' hd => ?_, fun i request hrequest => ?_,
    fun i d worker hd => ?_⟩
  · cases (hnone _ i).symm.trans hd
  · cases (hnone _ i).symm.trans hd
  · cases (hnone _ i).symm.trans hrequest
  · cases (hnone _ i).symm.trans hd

/-- What a client that collects its dispatch is sent. -/
theorem step_of_waitingDispatch (hd : c.waitingDispatch client = some d)
    (hstep : c.step sha codec (.proceed client) = some c') :
    c'.sent = c.sent ++ [replyFrame client d (outcomeOf (c.pending.lookup d.request))] := by
  obtain ⟨session, hs, hwaiting⟩ := Option.bind_eq_some_iff.mp hd
  have hactivity : session.activity = .waiting d := by
    unfold SessionActivity.waiting? at hwaiting
    split at hwaiting
    · next heq =>
      obtain rfl := Option.some.inj hwaiting
      exact heq
    · cases hwaiting
  unfold step proceed at hstep
  dsimp only at hstep
  rw [hs, Option.bind_some, hactivity] at hstep
  obtain rfl := Option.some.inj hstep
  rfl

/-- A result that is forwarded is the payload of a slot that is completed. -/
theorem outcomeOf_of_planResult {slot : Option Pending} {payload : List UInt8}
    (h : (replyFrame client d (outcomeOf slot)).message = .planResult payload) :
    ∃ completed, slot = some completed ∧ completed.ready = true ∧ completed.status = .ok ∧
      completed.payload = payload := by
  unfold replyFrame at h
  split_ifs at h with hok
  · have hpayload : (outcomeOf slot).payload = payload := CoordinatorMessage.planResult.inj h
    unfold outcomeOf at hok hpayload
    cases slot with
    | none => cases hok
    | some completed =>
      dsimp only at hok hpayload
      split_ifs at hok hpayload with hready
      exact ⟨completed, rfl, hready, hok, hpayload⟩
  · cases h

/-- **Dispatches and results correspond** in every run that leaves the slots to their dispatches: an
open dispatch has a slot of its own, which nothing else has completed, and a result that is forwarded
to a client is what the worker that its dispatch was relayed to has published in answer to it. -/
theorem dispatch_correlated {actions : List CoordinatorAction} {reached : Coordinator}
    (hstart : c.IsStarted) (hkeeps : StepsMeet (step sha codec) KeepsDispatches c actions)
    (hrun : run (step sha codec) c actions = some reached) :
    (∀ client d, reached.openDispatch client = some d →
      ∃ slot, reached.pending.lookup d.request = some slot ∧ d.Owns slot) ∧
    ∀ client d next frame payload, reached.waitingDispatch client = some d →
      reached.step sha codec (.proceed client) = some next → next.sent = reached.sent ++ [frame] →
      frame.message = .planResult payload → frame.session = client ∧
        ∃ worker publication slot, d.worker = some worker ∧
          relayFrame d worker ∈ reached.sent ∧
          reached.pending.lookup d.request = some slot ∧ slot.requestPayload = d.payload ∧
          slot.completion = .published worker publication ∧
          slot.workerKey = some publication.frame.workerBoot ∧
          publication.frame.request = d.request ∧ publication.answers = some d.number ∧
          publication.frame.payload = payload := by
  have hown : reached.DispatchesOwn :=
    hkeeps.invariant (fun _ _ _ hk hs h => h.step hk hs) hrun hstart.dispatchesOwn
  refine ⟨hown.slot, fun client d next frame payload hd hstep hsent hmessage => ?_⟩
  rw [step_of_waitingDispatch hd hstep] at hsent
  obtain rfl := List.singleton_inj.mp (List.append_cancel_left hsent)
  obtain ⟨slot, hlookup, hready, hok, rfl⟩ := outcomeOf_of_planResult hmessage
  have hsession : (replyFrame client d (outcomeOf (reached.pending.lookup d.request))).session =
      client := by
    unfold replyFrame
    split_ifs <;> rfl
  obtain ⟨own, hown', howns⟩ := hown.slot client d (openDispatch_of_waitingDispatch hd)
  rw [hlookup] at hown'
  obtain rfl := Option.some.inj hown'
  -- only a publication completes a slot with a result
  have hcompletes := howns.completion
  cases hcompletion : slot.completion with
  | published worker publication =>
    rw [hcompletion] at hcompletes
    obtain ⟨-, hworker, hkey, hrequest, hanswers, hpayload⟩ := hcompletes
    have hrelayed : relayFrame d worker ∈ reached.sent := by
      rcases hown.relayed client d worker hd hworker with hmem | ⟨other, hother, hunwritable⟩
      · exact hmem
      · rw [hlookup] at hother
        obtain rfl := Option.some.inj hother
        rw [hcompletion] at hunwritable
        cases hunwritable
    exact ⟨hsession, worker, publication, slot, hworker, hrelayed, hlookup,
      howns.requestPayload (hworker ▸ rfl), hcompletion, hkey, hrequest, hanswers,
      (hpayload hok).symm⟩
  | waiting =>
    rw [hcompletion] at hcompletes
    rw [show slot.ready = false from hcompletes] at hready
    cases hready
  | unassigned =>
    rw [hcompletion] at hcompletes
    exact absurd hok hcompletes.2.1
  | unwritable =>
    rw [hcompletion] at hcompletes
    exact absurd hok hcompletes.2
  | sessionLost session =>
    rw [hcompletion] at hcompletes
    exact absurd hok hcompletes.2.1

/-! ## Two clients with one request identity -/

instance (c : Coordinator) : (action : CoordinatorAction) → Decidable (c.KeepsDispatches action)
  | .proceed index => inferInstanceAs (Decidable (∀ session ∈ c.sessions[index]?,
      (∀ request ∈ session.activity.requested?, c.pending.lookup request = none) ∧
      ∀ publication ∈ session.activity.completing?,
        ∀ slot ∈ c.openSlot publication.frame.request,
          slot.worker = some index ∧ slot.workerKey = some publication.frame.workerBoot ∧
            publication.answers = some slot.dispatch))
  | .connect => isTrue trivial
  | .receive _ _ _ => isTrue trivial
  | .sendFails _ => isTrue trivial
  | .finish _ => isTrue trivial
  | .release _ => isTrue trivial
  | .fenceWorker _ => isTrue trivial
  | .advanceEpoch _ => isTrue trivial
  | .publishSnapshot _ _ => isTrue trivial
  | .finishCall _ => isTrue trivial
  | .runtime _ => isTrue trivial

/-- The coordinator when the result of the dispatch is stored. -/
def answeredCoordinator : Coordinator :=
  (run (step constantHash byteCodec) linkCoordinator (publishing ++ [.proceed 0])).get
    (by decide +kernel)

/-- The sections of a second client that dispatches the same request while the worker is busy. -/
def twoClients : List CoordinatorAction :=
  oneHandshake ++ [.connect, .connect] ++ dispatchTo 1 7 ++ (dispatchTo 2 7).take 2

/-- The coordinator after the second dispatch. -/
def overwrittenCoordinator : Coordinator :=
  (run (step constantHash byteCodec) linkCoordinator twoClients).get (by decide +kernel)

theorem dispatch_correlated_answeredCoordinator : ∃ d worker,
    answeredCoordinator.waitingDispatch 1 = some d ∧ d.worker = some worker ∧
      relayFrame d worker ∈ answeredCoordinator.sent := by
  have hrun : run (step constantHash byteCodec) linkCoordinator (publishing ++ [.proceed 0]) =
    some answeredCoordinator := (Option.some_get _).symm
  have hsome : (answeredCoordinator.waitingDispatch 1).isSome := by decide +kernel
  have hnext : (answeredCoordinator.step constantHash byteCodec (.proceed 1)).isSome := by
    decide +kernel
  have hok : ∀ d ∈ answeredCoordinator.waitingDispatch 1,
      (outcomeOf (answeredCoordinator.pending.lookup d.request)).status = .ok := by
    decide +kernel
  obtain ⟨d, hd⟩ := Option.isSome_iff_exists.mp hsome
  have hstep := (Option.some_get hnext).symm
  obtain ⟨payload, hmessage⟩ : ∃ payload, (replyFrame 1 d (outcomeOf
      (answeredCoordinator.pending.lookup d.request))).message = .planResult payload := by
    unfold replyFrame
    rw [if_pos (hok d hd)]
    exact ⟨_, rfl⟩
  obtain ⟨-, worker, _, _, hworker, hrelayed, -⟩ :=
    (dispatch_correlated ⟨rfl, rfl, rfl⟩ (by decide +kernel) hrun).2 1 d _ _ _ hd hstep
      (step_of_waitingDispatch hd hstep) hmessage
  exact ⟨d, worker, hd, hworker, hrelayed⟩

/-- The slot of a dispatch is overwritten by that of another client. -/
theorem not_dispatch_correlated_overwrittenCoordinator :
    ¬ ∀ (actions : List CoordinatorAction) (reached : Coordinator),
      run (step constantHash byteCodec) linkCoordinator actions = some reached →
      ∀ client d, reached.openDispatch client = some d →
        ∃ slot, reached.pending.lookup d.request = some slot ∧ slot.dispatch = d.number := by
  intro h
  have hd : (overwrittenCoordinator.openDispatch 1).isSome := by decide +kernel
  obtain ⟨slot, hlookup, hnumber⟩ :=
    h twoClients overwrittenCoordinator (Option.some_get _).symm 1 _ (Option.some_get hd).symm
  have hother : ∀ d ∈ overwrittenCoordinator.openDispatch 1,
      ∀ slot ∈ overwrittenCoordinator.pending.lookup d.request, slot.dispatch ≠ d.number := by
    decide +kernel
  exact hother _ (Option.some_get hd).symm slot hlookup hnumber

end Coordinator

end PathPlanner
