import Evrp.Lib.Numeral
import Evrp.Sdk.SessionLease
import Evrp.Sdk.SessionIsolation

/-!
# The client of the server and its heartbeats

The client learns the lease of its session from the answer to Connect and sends
a heartbeat every two fifths of it, but never more often than every 200 ms. The
registry judges each heartbeat by the lease itself. A lease below the lower
bound of the interval has lapsed when the first heartbeat arrives; for every
other lease the interval stays within it, in 32-bit arithmetic too, and each
heartbeat renews the session for the next.
-/

namespace Evrp

namespace RemoteEvrp

open SessionRegistry Word

/-- What the client keeps of the answer to Connect. -/
structure SessionInfo where
  sessionId : SessionId
  leaseTimeoutMs : ℤ

/-- The Connect call of the session service: the new id with the lease of the registry. -/
def connect (r : SessionRegistry) (peer : String) (draws : List SessionId) (now : ℤ) :
    SessionRegistry × Option SessionInfo :=
  let s := r.connect peer draws now
  (s.1, s.2.map fun id => ⟨id, s.1.leaseTimeoutMs⟩)

/-- The lease the client works with; one that is not positive is replaced by the default. -/
def leaseTimeoutMs (info : SessionInfo) : ℤ :=
  if 0 < info.leaseTimeoutMs then info.leaseTimeoutMs else 3000

/-- The time between two heartbeats. -/
def intervalMs (leaseTimeoutMs : ℤ) : ℤ := max 200 ((wrap 32 (leaseTimeoutMs * 2)).tdiv 5)

/-- The answers to the heartbeats. A round is what the server handles while the client sleeps,
then the heartbeat of the client. -/
def heartbeatLoop (peer : String) (info : SessionInfo) :
    SessionRegistry → ℤ → List (List Call) → List Reply
  | _, _, [] => []
  | r, now, others :: rounds =>
    let due := now + intervalMs (leaseTimeoutMs info) * 1000000
    let answered := (r.after others).step (.heartbeat info.sessionId.text peer due)
    answered.2 :: heartbeatLoop peer info answered.1 due rounds

/-- A call of another peer, or a sweep that has read the clock before the next heartbeat. -/
def Between (peer : String) (due : ℤ) (c : Call) : Prop :=
  c.caller ≠ some peer ∧ ∀ now, c = .sweep now → now ≤ due

/-- In every round the client makes no call but its heartbeat. -/
def OnlyHeartbeats (peer : String) (info : SessionInfo) : ℤ → List (List Call) → Prop
  | _, [] => True
  | now, others :: rounds =>
    let due := now + intervalMs (leaseTimeoutMs info) * 1000000
    (∀ c ∈ others, Between peer due c) ∧ OnlyHeartbeats peer info due rounds

/-- The interval is within the lease exactly if its lower bound is. From 2 ^ 30 on the product
is negative and the lower bound is taken. -/
theorem intervalMs_le_iff {lease : ℤ} (hpos : 0 < lease) (hfits : Fits32 lease) :
    intervalMs lease ≤ lease ↔ 200 ≤ lease := by
  obtain ⟨-, hlt⟩ := hfits
  rw [intervalMs, max_le_iff, and_iff_left_of_imp]
  intro _
  by_cases hsmall : lease < 2 ^ 30
  · have hwrap : wrap 32 (lease * 2) = lease * 2 := wrap32_of_fits ⟨by omega, by omega⟩
    rw [hwrap, Int.tdiv_eq_ediv_of_nonneg (by omega)]
    omega
  · have hwrap : wrap 32 (lease * 2) = -(2 ^ 32 - lease * 2) := by
      rw [wrap, Int.bmod]
      omega
    rw [hwrap, Int.neg_tdiv, Int.tdiv_eq_ediv_of_nonneg (by omega)]
    omega

/-- The client's record in the registry. -/
def own (peer : String) (r : SessionRegistry) (id : SessionId) : Option SessionRecord :=
  ownEntry peer (r.sessions id.text)

/-- Between two heartbeats only a sweep can touch the client's record, and it does so by
erasing it when it has lapsed. -/
theorem own_step {peer : String} {due : ℤ} {c : Call} (hc : Between peer due c)
    (r : SessionRegistry) (id : SessionId) :
    own peer (r.step c).1 id = own peer r id ∨
      ∃ t ≤ due, own peer (r.step c).1 id =
        (own peer r id).filter fun e => !decide (r.leaseNs < t - e.lastHeartbeat) := by
  obtain ⟨hcaller, hsweep⟩ := hc
  cases hq : c.caller with
  | some q =>
    have hne : q ≠ peer := by
      rintro rfl
      exact hcaller hq
    exact Or.inl (ownEntry_step_of_ne hq hne r id.nonempty)
  | none =>
    cases c <;> simp only [Call.caller, reduceCtorEq] at hq
    case sweep t =>
      refine Or.inr ⟨t, hsweep t rfl, ?_⟩
      simp only [own, step, sweepExpiredForLogging, ownEntry, Option.filter_filter]
      apply congrArg (fun f => Option.filter f (r.sessions id.text))
      ext e
      exact Bool.and_comm _ _

/-- A record renewed at `now` is still there or was swept, and it is there if the lease
reaches to the next heartbeat. -/
theorem own_after {peer : String} {due now : ℤ} {others : List Call}
    (hothers : ∀ c ∈ others, Between peer due c) (r : SessionRegistry) (id : SessionId)
    (hown : own peer r id = some ⟨peer, now⟩) :
    (own peer (r.after others) id = none ∨ own peer (r.after others) id = some ⟨peer, now⟩) ∧
      (due - now ≤ r.leaseNs → own peer (r.after others) id = some ⟨peer, now⟩) := by
  induction others using List.reverseRecOn with
  | nil => exact ⟨Or.inr hown, fun _ => hown⟩
  | append_singleton others c ih =>
    obtain ⟨hkept, hheld⟩ := ih fun c' hc' => hothers c' (List.mem_append_left _ hc')
    have hc : Between peer due c := hothers c (List.mem_append_right _ (List.mem_singleton_self c))
    rw [after_append]
    rcases own_step hc (r.after others) id with hsame | ⟨t, ht, hswept⟩
    · have hstep : own peer ((r.after others).after [c]) id = own peer (r.after others) id := hsame
      rw [hstep]
      exact ⟨hkept, hheld⟩
    · have hstep : own peer ((r.after others).after [c]) id = _ := hswept
      rw [hstep, after_leaseNs]
      constructor
      · rcases hkept with hnone | hsome
        · rw [hnone]
          exact Or.inl rfl
        · rw [hsome, Option.filter_some]
          split
          · exact Or.inr rfl
          · exact Or.inl rfl
      · intro hlease
        rw [hheld hlease, Option.filter_some, if_pos]
        simp only [Bool.not_eq_true', decide_eq_false_iff_not, Int.not_lt]
        omega

/-- A heartbeat on a record of the client that was renewed at `now`: accepted, and renewed, if
the lease reaches to it. -/
theorem heartbeat_own {peer : String} {now : ℤ} {r : SessionRegistry} {id : SessionId} (due : ℤ)
    (hown : own peer r id = none ∨ own peer r id = some ⟨peer, now⟩) :
    ((r.step (.heartbeat id.text peer due)).2.accepted = true ↔
        own peer r id = some ⟨peer, now⟩ ∧ due - now ≤ r.leaseNs) ∧
      (own peer r id = some ⟨peer, now⟩ → due - now ≤ r.leaseNs →
        own peer (r.step (.heartbeat id.text peer due)).1 id = some ⟨peer, due⟩) := by
  constructor
  · rw [step_accepted r (Or.inl rfl), and_iff_right id.nonempty, ← accepts_ownEntry]
    rcases hown with hnone | hsome
    · rw [show ownEntry peer (r.sessions id.text) = none from hnone, hnone]
      simp [accepts]
    · rw [show ownEntry peer (r.sessions id.text) = some ⟨peer, now⟩ from hsome, hsome]
      simp [accepts]
  · intro hsome hlease
    rw [own, step_sessions _ _ id.nonempty, entryStep, if_pos rfl, ownEntry_renewedEntry]
    rw [show ownEntry peer (r.sessions id.text) = some ⟨peer, now⟩ from hsome]
    rw [renewedEntry, if_neg (not_not.mpr rfl), if_neg (Int.not_lt.mpr hlease)]

/-- Within the lease every heartbeat of the loop is accepted. -/
theorem heartbeatLoop_accepted {peer : String} {info : SessionInfo} {r : SessionRegistry}
    {now : ℤ} {rounds : List (List Call)}
    (hown : own peer r info.sessionId = some ⟨peer, now⟩)
    (hlease : intervalMs (leaseTimeoutMs info) * 1000000 ≤ r.leaseNs)
    (honly : OnlyHeartbeats peer info now rounds) :
    ∀ reply ∈ heartbeatLoop peer info r now rounds, reply.accepted = true := by
  induction rounds generalizing r now with
  | nil => nofun
  | cons others rounds ih =>
    obtain ⟨hothers, hrest⟩ := honly
    have hgap : now + intervalMs (leaseTimeoutMs info) * 1000000 - now ≤ r.leaseNs := by omega
    have hkept := (own_after hothers r info.sessionId hown).2 hgap
    rw [← after_leaseNs r others] at hgap hlease
    obtain ⟨hacc, hrenewed⟩ := heartbeat_own (now + intervalMs (leaseTimeoutMs info) * 1000000)
      (Or.inr hkept)
    intro reply hreply
    rcases List.mem_cons.mp hreply with rfl | hreply
    · exact hacc.mpr ⟨hkept, hgap⟩
    · refine ih (hrenewed hkept hgap) ?_ hrest reply hreply
      rw [step_leaseNs]
      exact hlease

/-- Connect opens the session and advertises the lease it will be judged by. -/
theorem connect_own {r₀ r : SessionRegistry} {peer : String} {draws : List SessionId} {now : ℤ}
    {info : SessionInfo} (h : connect r₀ peer draws now = (r, some info)) :
    own peer r info.sessionId = some ⟨peer, now⟩ ∧ info.leaseTimeoutMs = r₀.leaseTimeoutMs ∧
      r.leaseTimeoutMs = r₀.leaseTimeoutMs := by
  simp only [connect, SessionRegistry.connect] at h
  cases hfind : draws.find? fun id => (r₀.sessions id.text).isNone with
  | none =>
    rw [hfind] at h
    cases (Prod.mk.inj h).2
  | some id =>
    rw [hfind] at h
    obtain ⟨rfl, hinfo⟩ := Prod.mk.inj h
    obtain rfl := Option.some.inj hinfo
    refine ⟨?_, rfl, rfl⟩
    rw [own, put_sessions_self, ownEntry_some, if_pos rfl]

/-- The heartbeats of a client that makes no other call are accepted, over any number of rounds
and whatever sweeps and calls of other peers fall between them, exactly if the lease is at
least 200 ms. -/
theorem heartbeats_accepted_iff {lease flagSessionLeaseMs : ℤ} (hlease : Fits32 lease)
    (hflag : Fits32 flagSessionLeaseMs) {before : List Call} {peer : String}
    {draws : List SessionId} {now : ℤ} {r : SessionRegistry} {info : SessionInfo}
    (hconnect : connect ((make lease flagSessionLeaseMs).after before) peer draws now =
      (r, some info)) {rounds : List (List Call)} (hrounds : rounds ≠ [])
    (honly : OnlyHeartbeats peer info now rounds) :
    (∀ reply ∈ heartbeatLoop peer info r now rounds, reply.accepted = true) ↔
      200 ≤ (make lease flagSessionLeaseMs).leaseTimeoutMs := by
  obtain ⟨hown, hinfo, hr⟩ := connect_own hconnect
  have hpos := (make lease flagSessionLeaseMs).lease_pos
  have hfits : Fits32 (make lease flagSessionLeaseMs).leaseTimeoutMs := by
    simp only [make]
    split_ifs
    · exact hlease
    · exact hflag
    · decide
  have hafter := after_leaseNs (make lease flagSessionLeaseMs) before
  simp only [leaseNs] at hafter
  have hmade : ((make lease flagSessionLeaseMs).after before).leaseTimeoutMs =
      (make lease flagSessionLeaseMs).leaseTimeoutMs := by omega
  rw [hmade] at hinfo hr
  have hclient : leaseTimeoutMs info = (make lease flagSessionLeaseMs).leaseTimeoutMs := by
    rw [leaseTimeoutMs, hinfo, if_pos hpos]
  have hns : r.leaseNs = (make lease flagSessionLeaseMs).leaseTimeoutMs * 1000000 := by
    rw [leaseNs, hr]
  rw [← intervalMs_le_iff hpos hfits]
  constructor
  · intro hall
    obtain ⟨others, rest, rfl⟩ := List.exists_cons_of_ne_nil hrounds
    -- the first heartbeat already tells
    obtain ⟨hkept, -⟩ := own_after honly.1 r info.sessionId hown
    obtain ⟨-, hgap⟩ := (heartbeat_own _ hkept).1.mp (hall _ (List.mem_cons_self ..))
    rw [after_leaseNs, hns, hclient] at hgap
    omega
  · intro hinterval
    apply heartbeatLoop_accepted hown _ honly
    rw [hclient, hns]
    omega

/-- A client of a registry with a lease of 100 ms, alone with its server. -/
theorem heartbeat_expired_of_short_lease :
    ((connect (make 100 3000) "p" [randomSessionId 1 2] 0).2.map fun info =>
      heartbeatLoop "p" info (connect (make 100 3000) "p" [randomSessionId 1 2] 0).1 0 [[]]) =
      some [.status ⟨.failedPrecondition,
        "session lease expired before Heartbeat; call Connect again"⟩] := by
  decide

theorem heartbeats_accepted_iff_default_lease : ∃ r,
    connect (make 3000 3000) "p" [randomSessionId 1 2] 0 = (r, some ⟨randomSessionId 1 2, 3000⟩) ∧
      ∀ reply ∈ heartbeatLoop "p" ⟨randomSessionId 1 2, 3000⟩ r 0 [[], [.sweep 2300000000]],
        reply.accepted = true := by
  have hconnect : connect ((make 3000 3000).after []) "p" [randomSessionId 1 2] 0 =
      ((connect (make 3000 3000) "p" [randomSessionId 1 2] 0).1,
        some ⟨randomSessionId 1 2, 3000⟩) := rfl
  have honly : OnlyHeartbeats "p" ⟨randomSessionId 1 2, 3000⟩ 0 [[], [.sweep 2300000000]] := by
    refine ⟨nofun, fun c hc => ?_, trivial⟩
    obtain rfl := List.mem_singleton.mp hc
    refine ⟨by decide, fun now hnow => ?_⟩
    obtain rfl := Call.sweep.inj hnow
    decide
  exact ⟨_, hconnect, (heartbeats_accepted_iff (by decide) (by decide) hconnect
    (List.cons_ne_nil _ _) honly).mpr (by decide)⟩

end RemoteEvrp

end Evrp
