import Mathlib.Logic.Function.Basic
import Mathlib.Data.Int.Notation
import Mathlib.Data.List.Basic

/-!
# The session registry

A session is a record of its peer and of its last renewal. Expiry is lazy: the
record of a lapsed session stays until a call of its peer, or a sweep, finds it.
Every operation runs under one lock, so a run is a list of calls in lock order,
each with the clock reading it took; only the sweep reads the clock before it
takes the lock. Clock readings are nanoseconds.
-/

namespace Evrp

/-- A session id, as the generator makes them. -/
structure SessionId where
  text : String
  nonempty : text ≠ ""
  deriving DecidableEq

/-- Two outputs of the 64-bit generator in hexadecimal. -/
def randomSessionId (first second : UInt64) : SessionId where
  text := String.ofList (Nat.toDigits 16 first.toNat ++ Nat.toDigits 16 second.toNat)
  nonempty := by
    intro h
    have hlist := congrArg String.toList h
    rw [String.toList_ofList, Nat.toDigits_eq_if (by decide)] at hlist
    split at hlist
    · exact List.cons_ne_nil _ _ hlist
    · rw [List.append_assoc] at hlist
      exact List.cons_ne_nil _ _ (List.append_eq_nil_iff.mp hlist).2

/-- The status codes the services answer with. -/
inductive GrpcCode where
  | ok
  | failedPrecondition
  | invalidArgument
  | aborted
  | permissionDenied
  | resourceExhausted
  | cancelled
  | unknown
  deriving DecidableEq, Repr

/-- The status of a call. -/
structure GrpcStatus where
  code : GrpcCode
  message : String
  deriving DecidableEq, Repr

def GrpcStatus.ok : GrpcStatus := ⟨.ok, ""⟩

/-- The metadata key under which a session id travels. -/
def kSessionMetadataKey : String := "x-evrp-session-id"

/-- What the registry stores for a session. -/
structure SessionRecord where
  peer : String
  lastHeartbeat : ℤ
  deriving DecidableEq, Repr

/-- The registry: the lease is positive however the constructor is called. -/
structure SessionRegistry where
  leaseTimeoutMs : ℤ
  lease_pos : 0 < leaseTimeoutMs
  sessions : String → Option SessionRecord

/-- The lease in the unit of the clock. -/
def SessionRegistry.leaseNs (r : SessionRegistry) : ℤ := r.leaseTimeoutMs * 1000000

namespace SessionRegistry

/-- The constructor: a lease that is not positive is replaced by the flag, and a flag that is
not positive by the default. -/
def make (leaseTimeoutMs flagSessionLeaseMs : ℤ) : SessionRegistry where
  leaseTimeoutMs :=
    if 0 < leaseTimeoutMs then leaseTimeoutMs
    else if 0 < flagSessionLeaseMs then flagSessionLeaseMs else 3000
  lease_pos := by
    split_ifs <;> omega
  sessions := fun _ => none

/-- Write or erase one entry of the table. -/
def put (r : SessionRegistry) (sessionId : String) (entry : Option SessionRecord) :
    SessionRegistry :=
  { r with sessions := Function.update r.sessions sessionId entry }

/-- The record has not been renewed for longer than the lease. -/
def expired (r : SessionRegistry) (entry : SessionRecord) (now : ℤ) : Bool :=
  decide (r.leaseNs < now - entry.lastHeartbeat)

/-- Open a session under the first drawn id that is not in use. Without such an id the call
does not return. -/
def connect (r : SessionRegistry) (peer : String) (draws : List SessionId) (now : ℤ) :
    SessionRegistry × Option SessionId :=
  match draws.find? fun id => (r.sessions id.text).isNone with
  | none => (r, none)
  | some id => (r.put id.text (some ⟨peer, now⟩), some id)

/-- The check that heartbeats and business calls share: the peer first, then the lease; a
lapsed record is erased and a live one renewed. -/
def renew (required unknown lapsed : String) (r : SessionRegistry) (sessionId peer : String)
    (now : ℤ) : SessionRegistry × GrpcStatus :=
  if sessionId = "" then (r, ⟨.failedPrecondition, required⟩)
  else
    match r.sessions sessionId with
    | none => (r, ⟨.failedPrecondition, unknown⟩)
    | some entry =>
      if entry.peer ≠ peer then (r, ⟨.permissionDenied, "session peer mismatch"⟩)
      else if r.expired entry now then (r.put sessionId none, ⟨.failedPrecondition, lapsed⟩)
      else (r.put sessionId (some { entry with lastHeartbeat := now }), .ok)

def heartbeat (r : SessionRegistry) (sessionId peer : String) (now : ℤ) :
    SessionRegistry × GrpcStatus :=
  renew ("metadata " ++ kSessionMetadataKey ++ " required for Heartbeat")
    "unknown or expired session; call Connect again"
    "session lease expired before Heartbeat; call Connect again" r sessionId peer now

def requireActiveBusinessCall (r : SessionRegistry) (sessionId peer : String) (now : ℤ) :
    SessionRegistry × GrpcStatus :=
  renew ("business session required: call session Connect then attach metadata " ++
      kSessionMetadataKey ++ " on each RPC")
    "unknown session; call Connect or session was evicted"
    "session lease expired; call Connect and keep Heartbeat within lease_timeout_ms"
    r sessionId peer now

/-- Close a session; an unknown session counts as closed. -/
def disconnect (r : SessionRegistry) (sessionId peer : String) : SessionRegistry × GrpcStatus :=
  if sessionId = "" then
    (r, ⟨.failedPrecondition, "metadata " ++ kSessionMetadataKey ++ " required for Disconnect"⟩)
  else
    match r.sessions sessionId with
    | none => (r, .ok)
    | some entry =>
      if entry.peer ≠ peer then (r, ⟨.permissionDenied, "session peer mismatch"⟩)
      else (r.put sessionId none, .ok)

/-- Erase every lapsed record. -/
def sweepExpiredForLogging (r : SessionRegistry) (now : ℤ) : SessionRegistry :=
  { r with sessions := fun id => (r.sessions id).filter fun entry => !r.expired entry now }

/-- One call on the registry. -/
inductive Call where
  | connect (peer : String) (draws : List SessionId) (now : ℤ)
  | heartbeat (sessionId peer : String) (now : ℤ)
  | disconnect (sessionId peer : String)
  | business (sessionId peer : String) (now : ℤ)
  | sweep (now : ℤ)
  deriving DecidableEq

/-- The answer to a call. -/
inductive Reply where
  | session (id : Option SessionId)
  | status (s : GrpcStatus)
  | swept
  deriving DecidableEq

/-- One call in lock order. -/
def step (r : SessionRegistry) : Call → SessionRegistry × Reply
  | .connect peer draws now => ((r.connect peer draws now).1, .session (r.connect peer draws now).2)
  | .heartbeat id peer now => ((r.heartbeat id peer now).1, .status (r.heartbeat id peer now).2)
  | .disconnect id peer => ((r.disconnect id peer).1, .status (r.disconnect id peer).2)
  | .business id peer now =>
    ((r.requireActiveBusinessCall id peer now).1,
      .status (r.requireActiveBusinessCall id peer now).2)
  | .sweep now => (r.sweepExpiredForLogging now, .swept)

/-- The registry after a list of calls. -/
def after (r : SessionRegistry) (calls : List Call) : SessionRegistry :=
  calls.foldl (fun s c => (s.step c).1) r

/-- The calls with their answers. -/
def history : SessionRegistry → List Call → List (Call × Reply)
  | _, [] => []
  | r, c :: calls => (c, (r.step c).2) :: history (r.step c).1 calls

/-- The answer to a call made after a list of calls. -/
def replyAfter (r : SessionRegistry) (calls : List Call) (c : Call) : Reply :=
  ((r.after calls).step c).2

theorem after_append (r : SessionRegistry) (xs ys : List Call) :
    r.after (xs ++ ys) = (r.after xs).after ys := List.foldl_append

theorem history_append (r : SessionRegistry) (xs ys : List Call) :
    r.history (xs ++ ys) = r.history xs ++ (r.after xs).history ys := by
  induction xs generalizing r with
  | nil => rfl
  | cons c xs ih =>
    rw [List.cons_append, history, history, ih, List.cons_append]
    rfl

theorem history_concat (r : SessionRegistry) (xs : List Call) (c : Call) :
    r.history (xs ++ [c]) = r.history xs ++ [(c, r.replyAfter xs c)] := by
  rw [history_append]
  rfl

@[simp] theorem put_sessions_self (r : SessionRegistry) (sessionId : String)
    (entry : Option SessionRecord) : (r.put sessionId entry).sessions sessionId = entry :=
  Function.update_self ..

theorem put_sessions_of_ne (r : SessionRegistry) {sessionId other : String}
    (entry : Option SessionRecord) (h : other ≠ sessionId) :
    (r.put sessionId entry).sessions other = r.sessions other :=
  Function.update_of_ne h ..

theorem put_self {r : SessionRegistry} {sessionId : String} {entry : Option SessionRecord}
    (h : r.sessions sessionId = entry) : r.put sessionId entry = r := by
  subst h
  rw [put, Function.update_eq_self]

/-- What a heartbeat or a business call of a peer leaves of an entry. -/
def renewedEntry (leaseNs : ℤ) (peer : String) (now : ℤ) :
    Option SessionRecord → Option SessionRecord
  | none => none
  | some entry =>
    if entry.peer ≠ peer then some entry
    else if leaseNs < now - entry.lastHeartbeat then none
    else some { entry with lastHeartbeat := now }

/-- The entry is live for the peer. -/
def accepts (leaseNs : ℤ) (peer : String) (now : ℤ) : Option SessionRecord → Bool
  | none => false
  | some entry => decide (entry.peer = peer) && decide (now - entry.lastHeartbeat ≤ leaseNs)

/-- What a disconnect of a peer leaves of an entry. -/
def closedEntry (peer : String) : Option SessionRecord → Option SessionRecord
  | none => none
  | some entry => if entry.peer ≠ peer then some entry else none

/-- A renewal touches its own entry only and is accepted exactly if the entry is live. -/
theorem renew_spec (required unknown lapsed : String) (r : SessionRegistry)
    {sessionId : String} (hid : sessionId ≠ "") (peer : String) (now : ℤ) :
    (renew required unknown lapsed r sessionId peer now).1 =
        r.put sessionId (renewedEntry r.leaseNs peer now (r.sessions sessionId)) ∧
      ((renew required unknown lapsed r sessionId peer now).2.code = .ok ↔
        accepts r.leaseNs peer now (r.sessions sessionId) = true) := by
  rw [renew, if_neg hid]
  cases hentry : r.sessions sessionId with
  | none => exact ⟨(put_self hentry).symm, by simp [accepts]⟩
  | some entry =>
    simp only [renewedEntry, accepts, expired, Bool.and_eq_true, decide_eq_true_eq]
    by_cases hpeer : entry.peer = peer
    · rw [if_neg (not_not.mpr hpeer), if_neg (not_not.mpr hpeer)]
      by_cases hlapsed : r.leaseNs < now - entry.lastHeartbeat
      · rw [if_pos hlapsed, if_pos hlapsed]
        refine ⟨rfl, ?_⟩
        simp only [reduceCtorEq, false_iff, not_and]
        intro _
        omega
      · rw [if_neg hlapsed, if_neg hlapsed]
        exact ⟨rfl, fun _ => ⟨hpeer, by omega⟩, fun _ => rfl⟩
    · rw [if_pos hpeer, if_pos hpeer]
      exact ⟨(put_self hentry).symm, by simp [hpeer]⟩

/-- A disconnect touches its own entry only. -/
theorem disconnect_spec (r : SessionRegistry) {sessionId : String} (hid : sessionId ≠ "")
    (peer : String) :
    (r.disconnect sessionId peer).1 =
      r.put sessionId (closedEntry peer (r.sessions sessionId)) := by
  rw [disconnect, if_neg hid]
  cases hentry : r.sessions sessionId with
  | none => exact (put_self hentry).symm
  | some entry =>
    by_cases hpeer : entry.peer = peer
    · simp only [closedEntry, hpeer, ne_eq, not_true_eq_false, if_false]
    · simp only [closedEntry, hpeer, ne_eq, not_false_eq_true, if_true]
      exact (put_self hentry).symm

/-- The entry of one session after a call. Which session a connect has opened is told by its
answer; every other call acts on the entry alone. -/
def entryStep (leaseNs : ℤ) (id : String) :
    Call → Reply → Option SessionRecord → Option SessionRecord
  | .connect peer _ now, .session (some sid), entry =>
    if sid.text = id then some ⟨peer, now⟩ else entry
  | .connect .., _, entry => entry
  | .heartbeat sid peer now, _, entry =>
    if sid = id then renewedEntry leaseNs peer now entry else entry
  | .business sid peer now, _, entry =>
    if sid = id then renewedEntry leaseNs peer now entry else entry
  | .disconnect sid peer, _, entry => if sid = id then closedEntry peer entry else entry
  | .sweep now, _, entry => entry.filter fun e => !decide (leaseNs < now - e.lastHeartbeat)

theorem step_leaseNs (r : SessionRegistry) (c : Call) : (r.step c).1.leaseNs = r.leaseNs := by
  cases c with
  | connect peer draws now =>
    simp only [step, connect]
    split <;> rfl
  | heartbeat id peer now =>
    simp only [step, heartbeat, renew]
    split_ifs
    · rfl
    · split
      · rfl
      · split_ifs <;> rfl
  | disconnect id peer =>
    simp only [step, disconnect]
    split_ifs
    · rfl
    · split
      · rfl
      · split_ifs <;> rfl
  | business id peer now =>
    simp only [step, requireActiveBusinessCall, renew]
    split_ifs
    · rfl
    · split
      · rfl
      · split_ifs <;> rfl
  | sweep now => rfl

private theorem renew_sessions (required unknown lapsed : String) (r : SessionRegistry)
    (sessionId peer : String) (now : ℤ) {id : String} (hid : id ≠ "") :
    (renew required unknown lapsed r sessionId peer now).1.sessions id =
      if sessionId = id then renewedEntry r.leaseNs peer now (r.sessions id)
      else r.sessions id := by
  by_cases hempty : sessionId = ""
  · rw [renew, if_pos hempty, if_neg fun h => hid (h.symm.trans hempty)]
  · rw [(renew_spec required unknown lapsed r hempty peer now).1]
    by_cases heq : sessionId = id
    · subst heq
      rw [put_sessions_self, if_pos rfl]
    · rw [put_sessions_of_ne _ _ fun h => heq h.symm, if_neg heq]

/-- Every call moves every entry by the entry step. -/
theorem step_sessions (r : SessionRegistry) (c : Call) {id : String} (hid : id ≠ "") :
    (r.step c).1.sessions id = entryStep r.leaseNs id c (r.step c).2 (r.sessions id) := by
  cases c with
  | connect peer draws now =>
    simp only [step, connect]
    cases draws.find? fun sid => (r.sessions sid.text).isNone with
    | none => rfl
    | some sid =>
      simp only [entryStep]
      by_cases heq : sid.text = id
      · subst heq
        rw [put_sessions_self, if_pos rfl]
      · rw [put_sessions_of_ne _ _ fun h => heq h.symm, if_neg heq]
  | heartbeat sid peer now => exact renew_sessions _ _ _ r sid peer now hid
  | disconnect sid peer =>
    simp only [step, entryStep]
    by_cases hempty : sid = ""
    · rw [disconnect, if_pos hempty, if_neg fun h => hid (h.symm.trans hempty)]
    · rw [disconnect_spec r hempty peer]
      by_cases heq : sid = id
      · subst heq
        rw [put_sessions_self, if_pos rfl]
      · rw [put_sessions_of_ne _ _ fun h => heq h.symm, if_neg heq]
  | business sid peer now => exact renew_sessions _ _ _ r sid peer now hid
  | sweep now => rfl

/-- The call asks whether the session is live for the peer. -/
def Call.Checks (c : Call) (id peer : String) (now : ℤ) : Prop :=
  c = .heartbeat id peer now ∨ c = .business id peer now

/-- The call was answered with OK. -/
def Reply.accepted : Reply → Bool
  | .status s => s.code == .ok
  | _ => false

theorem step_accepted (r : SessionRegistry) {c : Call} {id peer : String} {now : ℤ}
    (hc : c.Checks id peer now) : (r.step c).2.accepted = true ↔
      id ≠ "" ∧ accepts r.leaseNs peer now (r.sessions id) = true := by
  by_cases hid : id = ""
  · rcases hc with rfl | rfl
    · simp [step, heartbeat, renew, hid, Reply.accepted]
    · simp [step, requireActiveBusinessCall, renew, hid, Reply.accepted]
  · rcases hc with rfl | rfl
    · simp only [step, Reply.accepted, beq_iff_eq, ne_eq, hid, not_false_eq_true, true_and]
      exact (renew_spec _ _ _ r hid peer now).2
    · simp only [step, Reply.accepted, beq_iff_eq, ne_eq, hid, not_false_eq_true, true_and]
      exact (renew_spec _ _ _ r hid peer now).2

/-- The session id a request carries. -/
def sessionIdFromContext (metadata : List (String × String)) : Option String :=
  (metadata.find? fun entry => entry.1 == kSessionMetadataKey).map Prod.snd

/-- The check in front of every business handler. -/
def requireBusinessSession (metadata : List (String × String)) (peer : String) (now : ℤ) : Call :=
  .business ((sessionIdFromContext metadata).getD "") peer now

end SessionRegistry

end Evrp
