import Mathlib.Data.List.Chain
import Evrp.Lib.Machine
import Evrp.Sdk.SessionIsolation

/-!
# The playback client and its session

The client of a device connects one session and attaches it to every call. The
playback call marks the client as playing under its lock, then waits in the
Playback RPC without the lock, so that a stop can be sent meanwhile. On the
device every RPC starts with the session check. The client never sends a
heartbeat: between two of its checks the lease runs on, and a stop is admitted
exactly if no gap between the client's checks, from that of the Playback RPC on,
is longer than the lease.
-/

namespace Evrp

namespace RemotePlayback

open SessionRegistry

/-- Where the client's playback call stands. -/
inductive Phase where
  | idle
  | starting
  | inRpc
  deriving DecidableEq, Repr

/-- The client and the device's registry. -/
structure State where
  registry : SessionRegistry
  deviceSessionId : Option SessionId
  phase : Phase
  subscribing : Bool
  stopReply : Option Reply

/-- One atomic step. A reading is the clock reading of the device's session check. -/
inductive Label where
  | connect (draws : List SessionId) (now : ℤ)
  | upload (now : ℤ)
  | uploadWhilePlaying
  | beginPlayback (progressNotify : Bool)
  | subscribe (now : ℤ)
  | playback (now : ℤ)
  | playbackReturns
  | stopPlayback (now : ℤ)
  | otherCall (now : ℤ)
  | sweep (now : ℤ)
  | otherPeer (c : Call)
  deriving DecidableEq

variable (peer : String)

/-- A call of the client on its own session. -/
def check (s : State) (sid : SessionId) (now : ℤ) : SessionRegistry × Reply :=
  s.registry.step (requireBusinessSession [(kSessionMetadataKey, sid.text)] peer now)

/-- The client and the device. The lock is held from `beginPlayback` to the start of the RPC,
and by the uploads and stops for the time of their call. -/
def step (s : State) : Label → Option State
  | .connect draws now =>
    match s.deviceSessionId with
    | some _ => none
    | none =>
      let r := s.registry.connect peer draws now
      some { s with registry := r.1, deviceSessionId := r.2 }
  | .upload now =>
    s.deviceSessionId.bind fun sid =>
      if s.phase = .idle then some { s with registry := (check peer s sid now).1 } else none
  | .uploadWhilePlaying => if s.phase = .inRpc then some s else none
  | .beginPlayback progressNotify =>
    s.deviceSessionId.bind fun _ =>
      if s.phase = .idle ∧ s.subscribing = false then
        some { s with phase := .starting, subscribing := progressNotify }
      else none
  | .subscribe now =>
    s.deviceSessionId.bind fun sid =>
      if s.subscribing = true then
        some { s with registry := (check peer s sid now).1, subscribing := false }
      else none
  | .playback now =>
    s.deviceSessionId.bind fun sid =>
      if s.phase = .starting then
        let r := check peer s sid now
        some { s with registry := r.1, phase := if r.2.accepted then .inRpc else .idle }
      else none
  | .playbackReturns => if s.phase = .inRpc then some { s with phase := .idle } else none
  | .stopPlayback now =>
    s.deviceSessionId.bind fun sid =>
      if s.phase = .starting then none
      else
        let r := check peer s sid now
        some { s with registry := r.1, stopReply := some r.2 }
  | .otherCall now =>
    s.deviceSessionId.bind fun sid => some { s with registry := (check peer s sid now).1 }
  | .sweep now => some { s with registry := s.registry.sweepExpiredForLogging now }
  | .otherPeer c =>
    match c.caller with
    | none => none
    | some q => if q = peer then none else some { s with registry := (s.registry.step c).1 }

/-- The reading of a check that the client causes. -/
def Label.checkReading : Label → Option ℤ
  | .upload now => some now
  | .subscribe now => some now
  | .playback now => some now
  | .stopPlayback now => some now
  | .otherCall now => some now
  | _ => none

/-- The reading of a sweep. -/
def Label.sweepReading : Label → Option ℤ
  | .sweep now => some now
  | _ => none

/-- Sweeps read the clock before the lock, so no check that follows has a smaller reading. -/
def SweepsTimed (labels : List Label) : Prop :=
  labels.Pairwise fun a b => ∀ s ∈ a.sweepReading, ∀ t ∈ b.checkReading, s ≤ t

instance (labels : List Label) : Decidable (SweepsTimed labels) :=
  inferInstanceAs (Decidable (List.Pairwise _ _))

/-- The client's record in the device's registry. -/
def own (s : State) (sid : SessionId) : Option SessionRecord :=
  ownEntry peer (s.registry.sessions sid.text)

/-- What a step of the playing client's world does to its record. -/
def ownStep (leaseNs : ℤ) (a : Label) (entry : Option SessionRecord) : Option SessionRecord :=
  match a.checkReading with
  | some now => renewedEntry leaseNs peer now entry
  | none =>
    match a.sweepReading with
    | some now => entry.filter fun e => !decide (leaseNs < now - e.lastHeartbeat)
    | none => entry

private theorem own_check (s : State) (sid : SessionId) (now : ℤ) :
    ownEntry peer ((check peer s sid now).1.sessions sid.text) =
      renewedEntry s.registry.leaseNs peer now (own peer s sid) := by
  have hcall : requireBusinessSession [(kSessionMetadataKey, sid.text)] peer now =
      .business sid.text peer now := rfl
  rw [check, hcall, step_sessions _ _ sid.nonempty, entryStep, if_pos rfl, own,
    ownEntry_renewedEntry]

theorem check_accepted (s : State) (sid : SessionId) (now : ℤ) :
    (check peer s sid now).2.accepted = accepts s.registry.leaseNs peer now (own peer s sid) := by
  have hcall : (requireBusinessSession [(kSessionMetadataKey, sid.text)] peer now).Checks
      sid.text peer now := Or.inr rfl
  rw [Bool.eq_iff_iff, check, step_accepted _ hcall, own, accepts_ownEntry]
  exact and_iff_right sid.nonempty

theorem check_leaseNs (s : State) (sid : SessionId) (now : ℤ) :
    (check peer s sid now).1.leaseNs = s.registry.leaseNs := step_leaseNs ..

theorem step_registry_leaseNs {s t : State} {a : Label} (h : step peer s a = some t) :
    t.registry.leaseNs = s.registry.leaseNs := by
  have hcheck {sid : SessionId} {now : ℤ} :
      (check peer s sid now).1.leaseNs = s.registry.leaseNs := check_leaseNs ..
  cases a with
  | connect draws now =>
    rw [step] at h
    split at h
    · cases h
    · obtain rfl := Option.some.inj h
      exact step_leaseNs s.registry (.connect peer draws now)
  | uploadWhilePlaying =>
    rw [step] at h
    split at h
    · exact congrArg (fun u : State => u.registry.leaseNs) (Option.some.inj h).symm
    · cases h
  | playbackReturns =>
    rw [step] at h
    split at h
    · obtain rfl := Option.some.inj h
      rfl
    · cases h
  | sweep now =>
    obtain rfl := Option.some.inj h
    rfl
  | otherPeer c =>
    rw [step] at h
    split at h
    · cases h
    · split at h
      · cases h
      · obtain rfl := Option.some.inj h
        exact step_leaseNs ..
  | otherCall now =>
    rw [step] at h
    obtain ⟨sid, -, h⟩ := Option.bind_eq_some_iff.mp h
    obtain rfl := Option.some.inj h
    exact hcheck
  | stopPlayback now =>
    rw [step] at h
    obtain ⟨sid, -, h⟩ := Option.bind_eq_some_iff.mp h
    split at h
    · cases h
    · obtain rfl := Option.some.inj h
      exact hcheck
  | beginPlayback progressNotify =>
    rw [step] at h
    obtain ⟨sid, -, h⟩ := Option.bind_eq_some_iff.mp h
    split at h
    · obtain rfl := Option.some.inj h
      rfl
    · cases h
  | _ =>
    rw [step] at h
    obtain ⟨sid, -, h⟩ := Option.bind_eq_some_iff.mp h
    split at h
    · obtain rfl := Option.some.inj h
      exact hcheck
    · cases h

/-- While the Playback RPC is in progress, every step keeps the session and moves the record
as its label says. -/
theorem step_inRpc {s t : State} {a : Label} {sid : SessionId} (hphase : s.phase = .inRpc)
    (hsid : s.deviceSessionId = some sid) (ha : a ≠ .playbackReturns)
    (h : step peer s a = some t) :
    t.phase = .inRpc ∧ t.deviceSessionId = some sid ∧
      own peer t sid = ownStep peer s.registry.leaseNs a (own peer s sid) := by
  cases a with
  | connect draws now =>
    rw [step, hsid] at h
    cases h
  | upload now =>
    rw [step, hsid, hphase] at h
    cases h
  | uploadWhilePlaying =>
    rw [step, if_pos hphase] at h
    obtain rfl := Option.some.inj h
    exact ⟨hphase, hsid, rfl⟩
  | beginPlayback progressNotify =>
    rw [step, hsid, hphase] at h
    exact absurd h (by simp)
  | subscribe now =>
    rw [step, hsid, Option.bind_some] at h
    split at h
    · obtain rfl := Option.some.inj h
      exact ⟨hphase, rfl, own_check peer s sid now⟩
    · cases h
  | playback now =>
    rw [step, hsid, hphase] at h
    cases h
  | playbackReturns => exact absurd rfl ha
  | stopPlayback now =>
    rw [step, hsid, hphase] at h
    obtain rfl := Option.some.inj h
    exact ⟨rfl, rfl, own_check peer s sid now⟩
  | otherCall now =>
    rw [step, hsid, Option.bind_some] at h
    obtain rfl := Option.some.inj h
    exact ⟨hphase, rfl, own_check peer s sid now⟩
  | sweep now =>
    obtain rfl := Option.some.inj h
    refine ⟨hphase, hsid, ?_⟩
    have hentry : (s.registry.sweepExpiredForLogging now).sessions sid.text =
        (s.registry.sessions sid.text).filter
          fun e => !decide (s.registry.leaseNs < now - e.lastHeartbeat) := rfl
    simp only [own, hentry, ownStep, Label.checkReading, Label.sweepReading, ownEntry,
      Option.filter_filter]
    apply congrArg (fun f => Option.filter f (s.registry.sessions sid.text))
    ext e
    exact Bool.and_comm _ _
  | otherPeer c =>
    rw [step] at h
    split at h
    · cases h
    · rename_i q hq
      split at h
      · cases h
      · rename_i hne
        obtain rfl := Option.some.inj h
        exact ⟨hphase, hsid, ownEntry_step_of_ne hq hne _ sid.nonempty⟩

/-- Gaps between consecutive checks within the lease. -/
def WithinLease (leaseNs : ℤ) (readings : List ℤ) : Prop :=
  readings.IsChain fun a b => b - a ≤ leaseNs

instance (leaseNs : ℤ) (readings : List ℤ) : Decidable (WithinLease leaseNs readings) :=
  inferInstanceAs (Decidable (List.IsChain _ _))

/-- The first check after a reading is within the lease. -/
private theorem first_gap {leaseNs last now : ℤ} {mid : List Label}
    (h : WithinLease leaseNs (last :: (mid.filterMap Label.checkReading ++ [now]))) :
    ∃ x ∈ mid ++ [.stopPlayback now], ∃ t ∈ x.checkReading, t - last ≤ leaseNs := by
  have happend : mid.filterMap Label.checkReading ++ [now] =
      (mid ++ [Label.stopPlayback now]).filterMap Label.checkReading := by
    rw [List.filterMap_append]
    rfl
  rw [happend] at h
  cases hreadings : (mid ++ [Label.stopPlayback now]).filterMap Label.checkReading with
  | nil =>
    rw [← happend] at hreadings
    exact absurd hreadings (List.append_ne_nil_of_right_ne_nil _ (List.cons_ne_nil _ _))
  | cons t rest =>
    rw [hreadings, WithinLease, List.isChain_cons_cons] at h
    have hmem : t ∈ (mid ++ [Label.stopPlayback now]).filterMap Label.checkReading := by
      rw [hreadings]
      exact List.mem_cons_self ..
    obtain ⟨x, hx, ht⟩ := List.mem_filterMap.mp hmem
    exact ⟨x, hx, t, ht, h.1⟩

private theorem ownStep_none (leaseNs : ℤ) (a : Label) : ownStep peer leaseNs a none = none := by
  unfold ownStep
  split
  · rfl
  · split <;> rfl

/-- A check renews the client's record within the lease and erases it later. -/
private theorem ownStep_check {a : Label} {r : ℤ} (ha : a.checkReading = some r)
    (leaseNs last : ℤ) : ownStep peer leaseNs a (some ⟨peer, last⟩) =
      if leaseNs < r - last then none else some ⟨peer, r⟩ := by
  simp only [ownStep, ha, renewedEntry, ne_eq, not_true_eq_false, if_false]

/-- A sweep keeps the record within the lease and erases it later. -/
private theorem ownStep_sweep {a : Label} {r : ℤ} (hcheck : a.checkReading = none)
    (ha : a.sweepReading = some r) (leaseNs last : ℤ) :
    ownStep peer leaseNs a (some ⟨peer, last⟩) =
      if leaseNs < r - last then none else some ⟨peer, last⟩ := by
  simp only [ownStep, hcheck, ha, Option.filter_some]
  by_cases hgap : leaseNs < r - last
  · simp [hgap]
  · simp [hgap]

private theorem ownStep_other {a : Label} (hcheck : a.checkReading = none)
    (hsweep : a.sweepReading = none) (leaseNs : ℤ) (entry : Option SessionRecord) :
    ownStep peer leaseNs a entry = entry := by
  simp only [ownStep, hcheck, hsweep]

/-- A stop at the end of a stretch of the Playback RPC: without a record it is refused, and
with a record it is admitted exactly if all gaps stay within the lease. -/
theorem stop_reply_of_own {s u : State} {sid : SessionId} (hphase : s.phase = .inRpc)
    (hsid : s.deviceSessionId = some sid) {mid : List Label} {now : ℤ}
    (hmid : .playbackReturns ∉ mid) (htimed : SweepsTimed (mid ++ [.stopPlayback now]))
    (hrun : Machine.run (step peer) s (mid ++ [.stopPlayback now]) = some u) :
    ∃ reply, u.stopReply = some reply ∧
      (own peer s sid = none → reply.accepted = false) ∧
      (∀ last, own peer s sid = some ⟨peer, last⟩ → (reply.accepted = true ↔
        WithinLease s.registry.leaseNs (last :: (mid.filterMap Label.checkReading ++ [now])))) := by
  induction mid generalizing s with
  | nil =>
    have hstep : step peer s (.stopPlayback now) = some u := by
      simpa only [List.nil_append, Machine.run_cons, Machine.run_nil, Option.bind_fun_some]
        using hrun
    rw [step, hsid, hphase] at hstep
    obtain rfl := Option.some.inj hstep
    refine ⟨_, rfl, fun hnone => ?_, fun last hsome => ?_⟩
    · rw [check_accepted, hnone]
      rfl
    · rw [check_accepted, hsome, accepts, Bool.and_eq_true, decide_eq_true_eq,
        decide_eq_true_eq, WithinLease, List.filterMap_nil, List.nil_append,
        List.isChain_cons_cons]
      exact ⟨fun h => ⟨h.2, List.isChain_singleton _⟩, fun h => ⟨rfl, h.1⟩⟩
  | cons a mid ih =>
    obtain ⟨v, hv, hrest⟩ := Option.bind_eq_some_iff.mp hrun
    have ha : a ≠ .playbackReturns := fun h => hmid (h ▸ List.mem_cons_self ..)
    obtain ⟨hvphase, hvsid, hvown⟩ := step_inRpc peer hphase hsid ha hv
    have hvlease := step_registry_leaseNs peer hv
    obtain ⟨hfirst, htimed'⟩ := List.pairwise_cons.mp htimed
    obtain ⟨reply, hreply, hnone, hsome⟩ := ih hvphase hvsid
      (fun h => hmid (List.mem_cons_of_mem _ h)) htimed' hrest
    rw [hvown] at hnone hsome
    refine ⟨reply, hreply, fun howned => hnone ?_, fun last howned => ?_⟩
    · rw [howned, ownStep_none]
    rw [howned] at hnone hsome
    cases hreading : a.checkReading with
    | some r =>
      rw [ownStep_check peer hreading] at hnone hsome
      rw [List.filterMap_cons_some hreading, List.cons_append, WithinLease,
        List.isChain_cons_cons]
      by_cases hgap : s.registry.leaseNs < r - last
      · rw [hnone (if_pos hgap)]
        exact ⟨fun h => absurd h Bool.false_ne_true, fun h => absurd h.1 (Int.not_le.mpr hgap)⟩
      · rw [hsome r (if_neg hgap), hvlease]
        exact (and_iff_right (Int.not_lt.mp hgap)).symm
    | none =>
      rw [List.filterMap_cons_none hreading]
      cases hsweep : a.sweepReading with
      | none =>
        rw [ownStep_other peer hreading hsweep] at hsome
        rw [hsome last rfl, hvlease]
      | some r =>
        rw [ownStep_sweep peer hreading hsweep] at hnone hsome
        by_cases hgap : s.registry.leaseNs < r - last
        · rw [hnone (if_pos hgap)]
          refine ⟨fun h => absurd h Bool.false_ne_true, fun h => ?_⟩
          -- the next check cannot have been made before the sweep read the clock
          obtain ⟨x, hx, t, ht, hgap'⟩ : ∃ x ∈ mid ++ [.stopPlayback now],
              ∃ t ∈ x.checkReading, t - last ≤ s.registry.leaseNs := first_gap h
          have hle := hfirst x hx r hsweep t ht
          omega
        · rw [hsome last (if_neg hgap), hvlease]

/-- The state of a client before it connects to a device. -/
def initial (leaseTimeoutMs flagSessionLeaseMs : ℤ) : State :=
  ⟨.make leaseTimeoutMs flagSessionLeaseMs, none, .idle, false, none⟩

/-- A playback that has entered its RPC has just renewed its session. -/
theorem playback_renews {s t : State} {now : ℤ} (h : step peer s (.playback now) = some t)
    (hphase : t.phase = .inRpc) :
    ∃ sid, t.deviceSessionId = some sid ∧ t.registry.leaseNs = s.registry.leaseNs ∧
      own peer t sid = some ⟨peer, now⟩ := by
  cases hsid : s.deviceSessionId with
  | none =>
    rw [step, hsid] at h
    cases h
  | some sid =>
    rw [step, hsid, Option.bind_some] at h
    split at h
    · obtain rfl := Option.some.inj h
      simp only at hphase
      have hacc : (check peer s sid now).2.accepted = true := by
        by_contra hne
        rw [if_neg hne] at hphase
        cases hphase
      refine ⟨sid, rfl, check_leaseNs peer s sid now, (own_check peer s sid now).trans ?_⟩
      rw [check_accepted] at hacc
      cases hown : own peer s sid with
      | none =>
        rw [hown] at hacc
        exact absurd hacc Bool.false_ne_true
      | some e =>
        rw [hown, accepts, Bool.and_eq_true, decide_eq_true_eq, decide_eq_true_eq] at hacc
        rw [renewedEntry, if_neg (not_not.mpr hacc.1), if_neg (Int.not_lt.mpr hacc.2), hacc.1]
    · cases h

/-- In every run in which a playback has entered its RPC and is still in it when the client
stops it, the stop passes the session check exactly if the client's checks, from that of the
Playback RPC to that of the stop, are never more than the lease apart. -/
theorem stop_accepted_iff {leaseTimeoutMs flagSessionLeaseMs : ℤ} {before mid : List Label}
    {entered now : ℤ} {s u : State}
    (hentered : Machine.run (step peer) (initial leaseTimeoutMs flagSessionLeaseMs)
      (before ++ [.playback entered]) = some s) (hphase : s.phase = .inRpc)
    (hstop : Machine.run (step peer) s (mid ++ [.stopPlayback now]) = some u)
    (hmid : .playbackReturns ∉ mid) (htimed : SweepsTimed (mid ++ [.stopPlayback now])) :
    (∃ reply, u.stopReply = some reply ∧ reply.accepted = true) ↔
      WithinLease (make leaseTimeoutMs flagSessionLeaseMs).leaseNs
        (entered :: (mid.filterMap Label.checkReading ++ [now])) := by
  obtain ⟨v, hv, hplay⟩ := (Machine.run_concat_some (step peer)).mp hentered
  have hlease : v.registry.leaseNs = (make leaseTimeoutMs flagSessionLeaseMs).leaseNs :=
    Machine.invariant_run (step peer)
      (I := fun x => x.registry.leaseNs = (make leaseTimeoutMs flagSessionLeaseMs).leaseNs)
      (fun x a y hx hxy => (step_registry_leaseNs peer hxy).trans hx) rfl hv
  obtain ⟨sid, hsid, hkept, hown⟩ := playback_renews peer hplay hphase
  obtain ⟨reply, hreply, -, hiff⟩ := stop_reply_of_own peer hphase hsid hmid htimed hstop
  rw [← hlease, ← hkept, ← hiff entered hown]
  constructor
  · rintro ⟨reply', hreply', hacc⟩
    rw [hreply] at hreply'
    obtain rfl := Option.some.inj hreply'
    exact hacc
  · intro hacc
    exact ⟨reply, hreply, hacc⟩

/-- A client that connects, uploads and enters its Playback RPC. -/
def playingClient : List Label :=
  [.connect [randomSessionId 1 2] 0, .upload 1000, .beginPlayback false, .playback 2000]

/-- After 3.2 seconds of playback, with one sweep on the way, the owner cannot stop it. -/
theorem stop_refused_of_long_playback :
    (Machine.run (step "p") (initial 3000 0) playingClient).map State.phase = some .inRpc ∧
      (Machine.run (step "p") (initial 3000 0)
        (playingClient ++ [.sweep 3100000000, .stopPlayback 3200000000])).map
          (fun u => (u.phase, u.stopReply.map Reply.accepted)) = some (.inRpc, some false) := by
  decide

theorem stop_accepted_iff_quick_stop :
    ∃ s u, Machine.run (step "p") (initial 3000 0) playingClient = some s ∧ s.phase = .inRpc ∧
      Machine.run (step "p") s [.otherCall 2000000000, .stopPlayback 4000000000] = some u ∧
      ∃ reply, u.stopReply = some reply ∧ reply.accepted = true := by
  obtain ⟨s, hs⟩ := Option.isSome_iff_exists.mp (show
    (Machine.run (step "p") (initial 3000 0) playingClient).isSome = true by decide)
  have hboth : ((Machine.run (step "p") (initial 3000 0) playingClient).bind fun s =>
      Machine.run (step "p") s [.otherCall 2000000000, .stopPlayback 4000000000]).isSome =
        true := by
    decide
  have hphase : (Machine.run (step "p") (initial 3000 0) playingClient).map State.phase =
      some .inRpc := by
    decide
  rw [hs, Option.bind_some] at hboth
  rw [hs] at hphase
  obtain ⟨u, hu⟩ := Option.isSome_iff_exists.mp hboth
  refine ⟨s, u, hs, Option.some.inj hphase, hu, ?_⟩
  have hentered : Machine.run (step "p") (initial 3000 0)
      (playingClient.dropLast ++ [.playback 2000]) = some s := hs
  have hstop : Machine.run (step "p") s
      ([.otherCall 2000000000] ++ [.stopPlayback 4000000000]) = some u := hu
  exact (stop_accepted_iff "p" hentered (Option.some.inj hphase) hstop (by decide)
    (by decide)).mpr (by decide)

end RemotePlayback

end Evrp
