import Evrp.Sdk.DispatchLinearization
import Evrp.Sdk.SessionLease

/-!
# Business calls on a posted object

Every business handler first checks the session of its caller on the thread of
the request and only then posts its function to the worker of the wrapped
object. The checks are ordered by the lock of the registry and the functions by
the queue of the worker, and the two orders need not agree. What the object has
been through is nevertheless decided by the checks alone.
-/

namespace Evrp

namespace BusinessCalls

open SessionRegistry Sequential

universe u

/-- What the check reads of a request. -/
structure Request where
  metadata : List (String × String)
  peer : String

/-- The session a request names; without one it is the empty text. -/
def Request.sessionId (q : Request) : String := (sessionIdFromContext q.metadata).getD ""

variable {ι σ : Type*} {R : ι → Type u}

/-- The registry, the answers of the checks made so far, and the posted object. -/
structure State {ι : Type*} (R : ι → Type u) (σ : Type*) where
  registry : SessionRegistry
  checks : ι → Option GrpcStatus
  dispatch : SyncDispatchQueue.State R σ

/-- The check of a call, any other call on the registry, or a step of a posted call. -/
inductive Label (ι : Type*) where
  | session (i : ι) (now : ℤ)
  | registry (c : Call)
  | dispatch (a : SyncDispatchQueue.Label ι)

/-- No call has been checked. -/
def initial (registry : SessionRegistry) (object : σ) : State R σ :=
  ⟨registry, fun _ => none, SyncDispatchQueue.initial object⟩

section Steps

variable [DecidableEq ι] [∀ i, Inhabited (R i)] (request : ι → Request)
  (fn : ∀ i, σ → R i × σ) (finalTask : Option (σ → σ))

/-- The call goes on to the worker only behind an accepted check. -/
def admits (s : State R σ) : SyncDispatchQueue.Label ι → Bool
  | .check i => (s.checks i).any fun status => status.code == .ok
  | _ => true

def step (s : State R σ) : Label ι → Option (State R σ)
  | .session i now =>
    match s.checks i with
    | some _ => none
    | none =>
      let r := s.registry.requireActiveBusinessCall (request i).sessionId (request i).peer now
      some { s with registry := r.1, checks := Function.update s.checks i (some r.2) }
  | .registry c => some { s with registry := (s.registry.step c).1 }
  | .dispatch a =>
    if admits s a then
      (SyncDispatchQueue.step fn finalTask s.dispatch a).map fun d => { s with dispatch := d }
    else none

end Steps

/-- The call on the registry that a label makes. -/
def Label.call (request : ι → Request) : Label ι → Option Call
  | .session i now => some (requireBusinessSession (request i).metadata (request i).peer now)
  | .registry c => some c
  | .dispatch _ => none

/-- The calls of a run on the registry, in the order of its lock. -/
def callsOf (request : ι → Request) (labels : List (Label ι)) : List Call :=
  labels.filterMap (Label.call request)

/-- The step that a label makes on the posted object. -/
def Label.dispatched : Label ι → Option (SyncDispatchQueue.Label ι)
  | .dispatch a => some a
  | _ => none

section Runs

variable [DecidableEq ι] [∀ i, Inhabited (R i)] {request : ι → Request}
  {fn : ∀ i, σ → R i × σ} {finalTask : Option (σ → σ)}

/-- What a step does to the registry, the checks and the object. -/
theorem step_cases {s t : State R σ} {a : Label ι} (h : step request fn finalTask s a = some t) :
    (∃ i now, a = .session i now ∧ s.checks i = none ∧ t.dispatch = s.dispatch ∧
      t.registry = (s.registry.requireActiveBusinessCall (request i).sessionId
        (request i).peer now).1 ∧
      t.checks = Function.update s.checks i (some (s.registry.requireActiveBusinessCall
        (request i).sessionId (request i).peer now).2)) ∨
    (∃ c, a = .registry c ∧ t = { s with registry := (s.registry.step c).1 }) ∨
    (∃ b d, a = .dispatch b ∧ admits s b = true ∧
      SyncDispatchQueue.step fn finalTask s.dispatch b = some d ∧
        t = { s with dispatch := d }) := by
  cases a with
  | session i now =>
    rw [step] at h
    split at h
    · cases h
    · rename_i hnone
      obtain rfl := Option.some.inj h
      exact Or.inl ⟨i, now, rfl, hnone, rfl, rfl, rfl⟩
  | registry c =>
    obtain rfl := Option.some.inj h
    exact Or.inr (Or.inl ⟨c, rfl, rfl⟩)
  | dispatch b =>
    rw [step] at h
    split at h
    · rename_i hadmits
      obtain ⟨d, hd, rfl⟩ := Option.map_eq_some_iff.mp h
      exact Or.inr (Or.inr ⟨b, d, rfl, hadmits, hd, rfl⟩)
    · cases h

/-- The registry is what its calls have made of it. -/
theorem registry_step {s t : State R σ} {a : Label ι} (h : step request fn finalTask s a = some t) :
    t.registry = s.registry.after (callsOf request [a]) := by
  rcases step_cases h with ⟨i, now, rfl, -, -, hregistry, -⟩ | ⟨c, rfl, rfl⟩ |
    ⟨b, d, rfl, -, -, rfl⟩
  · exact hregistry
  · rfl
  · rfl

theorem registry_run {s t : State R σ} {labels : List (Label ι)}
    (h : Machine.run (step request fn finalTask) s labels = some t) :
    t.registry = s.registry.after (callsOf request labels) := by
  induction labels generalizing s with
  | nil => exact Option.some.inj h ▸ rfl
  | cons a labels ih =>
    obtain ⟨u, hu, hrest⟩ := Option.bind_eq_some_iff.mp h
    rw [ih hrest, registry_step hu, ← SessionRegistry.after_append, callsOf, callsOf, callsOf,
      ← List.filterMap_append, List.singleton_append]

/-- The posted object runs on its own steps. -/
theorem dispatch_run {s t : State R σ} {labels : List (Label ι)}
    (h : Machine.run (step request fn finalTask) s labels = some t) :
    Machine.run (SyncDispatchQueue.step fn finalTask) s.dispatch
      (labels.filterMap Label.dispatched) = some t.dispatch := by
  induction labels generalizing s with
  | nil => exact Option.some.inj h ▸ rfl
  | cons a labels ih =>
    obtain ⟨u, hu, hrest⟩ := Option.bind_eq_some_iff.mp h
    have hrun := ih hrest
    rcases step_cases hu with ⟨i, now, rfl, -, hdispatch, -, -⟩ | ⟨c, rfl, rfl⟩ |
      ⟨b, d, rfl, -, hd, rfl⟩
    · rw [hdispatch] at hrun
      exact hrun
    · exact hrun
    · change Machine.run _ s.dispatch (b :: labels.filterMap Label.dispatched) = _
      rw [Machine.run_cons, hd]
      exact hrun

/-- Only checked and accepted calls have left their entry. -/
def State.Admitted (s : State R σ) : Prop :=
  ∀ i, s.dispatch.calls i ≠ .entry → ∃ status, s.checks i = some status ∧ status.code = .ok

/-- Only the first step of a call takes it from its entry. -/
theorem calls_entry_step {s t : SyncDispatchQueue.State R σ} {a : SyncDispatchQueue.Label ι}
    (h : SyncDispatchQueue.step fn finalTask s a = some t) {i : ι} (hi : s.calls i = .entry)
    (ha : a ≠ .check i) : t.calls i = .entry := by
  cases a with
  | check j =>
    obtain ⟨-, rfl⟩ := SyncDispatchQueue.checkStep_eq h
    have hne : i ≠ j := fun heq => ha (heq ▸ rfl)
    rw [SyncDispatchQueue.State.setCall_calls_of_ne s hne, hi]
  | post j =>
    obtain ⟨hchecked, rfl⟩ := SyncDispatchQueue.postStep_eq h
    have hne : i ≠ j := by
      rintro rfl
      cases hchecked.symm.trans hi
    rw [SyncDispatchQueue.State.setCall_calls_of_ne _ hne]
    exact hi
  | wait j =>
    obtain ⟨value, hwaiting, -, rfl⟩ := SyncDispatchQueue.waitStep_eq h
    have hne : i ≠ j := by
      rintro rfl
      cases hwaiting.symm.trans hi
    rw [SyncDispatchQueue.State.setCall_calls_of_ne s hne, hi]
  | shutdownCheck =>
    obtain ⟨-, rfl⟩ := SyncDispatchQueue.shutdownCheckStep_eq h
    exact hi
  | shutdownPost =>
    obtain ⟨-, rfl⟩ := SyncDispatchQueue.shutdownPostStep_eq h
    exact hi
  | shutdownWait =>
    obtain ⟨-, -, rfl⟩ := SyncDispatchQueue.shutdownWaitStep_eq h
    exact hi
  | worker =>
    rw [(SyncDispatchQueue.history_workerStep h).2.1]
    exact hi

theorem admitted_step {s t : State R σ} {a : Label ι} (hs : s.Admitted)
    (h : step request fn finalTask s a = some t) : t.Admitted := by
  intro i hi
  rcases step_cases h with ⟨j, now, rfl, hnone, hdispatch, -, hchecks⟩ | ⟨c, rfl, rfl⟩ |
    ⟨b, d, rfl, hadmits, hd, rfl⟩
  · rw [hdispatch] at hi
    obtain ⟨status, hstatus, hok⟩ := hs i hi
    have hne : i ≠ j := by
      rintro rfl
      cases hnone.symm.trans hstatus
    exact ⟨status, by rw [hchecks, Function.update_of_ne hne, hstatus], hok⟩
  · exact hs i hi
  · by_cases hentry : s.dispatch.calls i = .entry
    · -- the call makes its first step, which was admitted
      obtain rfl : b = .check i := by
        by_contra hb
        exact hi (calls_entry_step hd hentry hb)
      obtain ⟨status, hstatus, hok⟩ := (Option.any_eq_true ..).mp hadmits
      exact ⟨status, hstatus, by simpa using hok⟩
    · exact hs i hentry

/-- An answer of a check is kept; a check that is made now gets the answer of the registry. -/
theorem checks_step {s t : State R σ} {a : Label ι} (h : step request fn finalTask s a = some t)
    (i : ι) (status : GrpcStatus) : t.checks i = some status ↔
      s.checks i = some status ∨ ∃ now, a = .session i now ∧
        (s.registry.step (requireBusinessSession (request i).metadata (request i).peer now)).2 =
          .status status := by
  rcases step_cases h with ⟨j, now, rfl, hnone, -, -, hchecks⟩ | ⟨c, rfl, rfl⟩ |
    ⟨b, d, rfl, -, -, rfl⟩
  · rw [hchecks]
    by_cases hij : i = j
    · subst hij
      simp [hnone, SessionRegistry.step, requireBusinessSession, Request.sessionId]
    · simp [hij, Ne.symm hij]
  · simp
  · simp

/-- The answers of the checks are those that the registry gave at their moments. -/
theorem checks_run {r : SessionRegistry} {object : σ} {labels : List (Label ι)} {t : State R σ}
    (h : Machine.run (step request fn finalTask) (initial r object) labels = some t) (i : ι)
    (status : GrpcStatus) : t.checks i = some status ↔
      ∃ before now rest, labels = before ++ .session i now :: rest ∧
        r.replyAfter (callsOf request before)
          (requireBusinessSession (request i).metadata (request i).peer now) = .status status := by
  induction labels using List.reverseRecOn generalizing t with
  | nil =>
    obtain rfl := Option.some.inj h
    simp [initial]
  | append_singleton labels a ih =>
    obtain ⟨u, hu, hstep⟩ := (Machine.run_concat_some _).mp h
    rw [checks_step hstep, ih hu, registry_run hu]
    constructor
    · rintro (⟨before, now, rest, rfl, hreply⟩ | ⟨now, rfl, hreply⟩)
      · exact ⟨before, now, rest ++ [a], by simp, hreply⟩
      · exact ⟨labels, now, [], rfl, hreply⟩
    · rintro ⟨before, now, rest, hlabels, hreply⟩
      rcases List.eq_nil_or_concat rest with rfl | ⟨rest, b, rfl⟩
      · obtain ⟨rfl, hlast⟩ := List.append_inj' hlabels rfl
        exact Or.inr ⟨now, List.singleton_inj.mp hlast, hreply⟩
      · rw [List.concat_eq_append, ← List.cons_append, ← List.append_assoc] at hlabels
        exact Or.inl ⟨before, now, rest, (List.append_inj' hlabels rfl).1, hreply⟩

/-- The check of a call is accepted exactly if its caller holds the lease. -/
theorem check_ok_iff_leaseHeld {leaseTimeoutMs flagSessionLeaseMs : ℤ} {calls : List Call}
    {q : Request} {now : ℤ} {status : GrpcStatus}
    (htimed : WellTimed (calls ++ [requireBusinessSession q.metadata q.peer now]))
    (hfresh : FreshIds calls)
    (hreply : (make leaseTimeoutMs flagSessionLeaseMs).replyAfter calls
      (requireBusinessSession q.metadata q.peer now) = .status status) :
    status.code = .ok ↔ LeaseHeld (make leaseTimeoutMs flagSessionLeaseMs).leaseNs
      ((make leaseTimeoutMs flagSessionLeaseMs).history calls) q.sessionId q.peer now := by
  have hr := unused_make leaseTimeoutMs flagSessionLeaseMs
  generalize make leaseTimeoutMs flagSessionLeaseMs = r at hr hreply ⊢
  have hchecks : (requireBusinessSession q.metadata q.peer now).Checks q.sessionId q.peer now :=
    Or.inr rfl
  have haccepted : (r.replyAfter calls
      (requireBusinessSession q.metadata q.peer now)).accepted = true ↔ status.code = .ok := by
    rw [hreply]
    simp [Reply.accepted]
  rw [← haccepted]
  by_cases hid : q.sessionId = ""
  · refine iff_of_false (fun hacc => ((step_accepted _ hchecks).mp hacc).1 hid) ?_
    rintro ⟨before, draws, opened, sid, since, -, hsid, -⟩
    exact sid.nonempty (hsid.trans hid)
  · rw [accepted_iff_ledger hr hid hchecks htimed hfresh,
      leaseHeld_iff_ledger hr hid htimed.left hfresh]

theorem admitted_run {r : SessionRegistry} {object : σ} {labels : List (Label ι)} {t : State R σ}
    (h : Machine.run (step request fn finalTask) (initial r object) labels = some t) :
    t.Admitted :=
  Machine.invariant_run (I := State.Admitted) _ (fun _ _ _ hs hstep => admitted_step hs hstep)
    (fun _ hi => absurd rfl hi) h

omit [DecidableEq ι] in
theorem callsOf_split {labels before rest : List (Label ι)} {i : ι} {now : ℤ}
    (h : labels = before ++ .session i now :: rest) :
    callsOf request labels = (callsOf request before ++
      [requireBusinessSession (request i).metadata (request i).peer now]) ++
        callsOf request rest := by
  subst h
  simp [callsOf, Label.call]

/-- The object has been through the functions of lease holders alone, one after the other: each
of them was checked in the run at a moment at which its caller held the lease. A call whose
caller did not hold it is answered with the refusal and never reaches the object. -/
theorem object_served_to_lease_holders {leaseTimeoutMs flagSessionLeaseMs : ℤ} {object : σ}
    {labels : List (Label ι)} {t : State R σ}
    (h : Machine.run (step request fn finalTask)
      (initial (make leaseTimeoutMs flagSessionLeaseMs) object) labels = some t)
    (htimed : WellTimed (callsOf request labels)) (hfresh : FreshIds (callsOf request labels)) :
    ∃ order : List (SyncDispatchQueue.Handler ι), order.Nodup ∧
      t.dispatch.object = after (SyncDispatchQueue.Handler.effect fn finalTask) object order ∧
      (∀ i, .task i ∈ order → ∃ before now rest, labels = before ++ .session i now :: rest ∧
        LeaseHeld (make leaseTimeoutMs flagSessionLeaseMs).leaseNs
          ((make leaseTimeoutMs flagSessionLeaseMs).history (callsOf request before))
          (request i).sessionId (request i).peer now) ∧
      ∀ i before now rest, labels = before ++ .session i now :: rest →
        ¬ LeaseHeld (make leaseTimeoutMs flagSessionLeaseMs).leaseNs
          ((make leaseTimeoutMs flagSessionLeaseMs).history (callsOf request before))
          (request i).sessionId (request i).peer now →
        .task i ∉ order ∧ t.dispatch.calls i = .entry ∧
          ∃ status, t.checks i = some status ∧ status.code ≠ .ok := by
  have hdispatch := SyncDispatchQueue.linearized_run (dispatch_run h)
  have hheld : ∀ {i before now rest status}, labels = before ++ .session i now :: rest →
      (make leaseTimeoutMs flagSessionLeaseMs).replyAfter (callsOf request before)
        (requireBusinessSession (request i).metadata (request i).peer now) = .status status →
      (status.code = .ok ↔ LeaseHeld (make leaseTimeoutMs flagSessionLeaseMs).leaseNs
        ((make leaseTimeoutMs flagSessionLeaseMs).history (callsOf request before))
        (request i).sessionId (request i).peer now) := by
    intro i before now rest status hlabels hreply
    rw [callsOf_split hlabels] at htimed hfresh
    exact check_ok_iff_leaseHeld htimed.left hfresh.left.left hreply
  have hposted : ∀ i, .task i ∈ t.dispatch.completed → t.dispatch.calls i ≠ .entry := by
    intro i hi hentry
    exact hdispatch.coherent.not_mem_order (by rw [hentry]; rfl)
      (hdispatch.coherent.completed_prefix.subset hi)
  refine ⟨t.dispatch.completed, hdispatch.coherent.nodup_completed, hdispatch.linear.object,
    fun i hi => ?_, fun i before now rest hlabels hnot => ?_⟩
  · obtain ⟨status, hstatus, hok⟩ := admitted_run h i (hposted i hi)
    obtain ⟨before, now, rest, hlabels, hreply⟩ := (checks_run h i status).mp hstatus
    exact ⟨before, now, rest, hlabels, (hheld hlabels hreply).mp hok⟩
  · obtain ⟨status, hreply⟩ : ∃ status, (make leaseTimeoutMs flagSessionLeaseMs).replyAfter
        (callsOf request before)
        (requireBusinessSession (request i).metadata (request i).peer now) = .status status :=
      ⟨_, rfl⟩
    have hstatus := (checks_run h i status).mpr ⟨before, now, rest, hlabels, hreply⟩
    have hcode : status.code ≠ .ok := fun hok => hnot ((hheld hlabels hreply).mp hok)
    have hentry : t.dispatch.calls i = .entry := by
      by_contra hleft
      obtain ⟨other, hother, hok⟩ := admitted_run h i hleft
      obtain rfl := Option.some.inj (hstatus.symm.trans hother)
      exact hcode hok
    exact ⟨fun hi => hposted i hi hentry, hentry, status, hstatus, hcode⟩

end Runs

/-- One call of the peer that has connected and one of another peer on the same session. -/
def sharedSession (own : Bool) : Request :=
  ⟨[(kSessionMetadataKey, "12")], if own then "p" else "q"⟩

def countCalls (_ : Bool) (n : ℕ) : ℕ × ℕ := (n, n + 1)

def stolenCall : List (Label Bool) :=
  [.registry (.connect "p" [randomSessionId 1 2] 0), .session true 1, .session false 2,
    .dispatch (.check true), .dispatch (.post true), .dispatch .worker, .dispatch .worker,
    .dispatch (.wait true)]

theorem object_served_to_lease_holders_stolenCall : ∃ t order,
    Machine.run (step sharedSession countCalls none) (initial (make 3000 0) 0) stolenCall =
      some t ∧
      t.dispatch.object = after (SyncDispatchQueue.Handler.effect countCalls none) 0 order ∧
      .task false ∉ order := by
  obtain ⟨t, ht⟩ := Option.isSome_iff_exists.mp (show (Machine.run
    (step sharedSession countCalls none) (initial (make 3000 0) 0) stolenCall).isSome = true by
      decide)
  obtain ⟨order, -, hobject, -, hrefused⟩ :=
    object_served_to_lease_holders ht (by decide) (by decide)
  have hnot := (@check_ok_iff_leaseHeld 3000 0 (callsOf sharedSession (stolenCall.take 2))
    (sharedSession false) 2 ⟨.permissionDenied, "session peer mismatch"⟩ (by decide) (by decide)
    (by decide)).not.mp (by decide)
  exact ⟨t, order, ht, hobject, (hrefused false _ 2 _ rfl hnot).1⟩

end BusinessCalls

end Evrp
