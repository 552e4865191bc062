import Mathlib.Data.List.Induction
import Evrp.Sdk.SessionRegistry

/-!
# Sessions of different peers do not interfere

The run of one peer is what remains of a run when every connect, heartbeat,
disconnect and business call of the other peers is deleted; its connects are
handed the ids they were handed before. At every moment the table of the
remaining run is the part of the full table that belongs to the peer. No
assumption on the clock or on the ids is needed: a call with a stolen id fails
the check of the peer before it can touch the record.
-/

namespace Evrp

namespace SessionRegistry

/-- The part of one answered call that the run of a peer keeps. -/
def keptCall (p : String) : Call × Reply → Option Call
  | (.connect peer _ now, .session sid) =>
    if peer = p then some (.connect peer sid.toList now) else none
  | (.connect .., _) => none
  | (.heartbeat sid peer now, _) => if peer = p then some (.heartbeat sid peer now) else none
  | (.disconnect sid peer, _) => if peer = p then some (.disconnect sid peer) else none
  | (.business sid peer now, _) => if peer = p then some (.business sid peer now) else none
  | (.sweep now, _) => some (.sweep now)

/-- The run of one peer: its own calls and the sweeps. -/
def restrictTo (p : String) (h : List (Call × Reply)) : List Call := h.filterMap (keptCall p)

/-- The peer of the last connect that was answered with the id. -/
def owner (h : List (Call × Reply)) (id : String) : Option String :=
  h.foldl (fun o x => match x with
    | (.connect peer _ _, .session (some sid)) => if sid.text = id then some peer else o
    | _ => o) none

/-- The entry, if it belongs to the peer. -/
def ownEntry (p : String) (entry : Option SessionRecord) : Option SessionRecord :=
  entry.filter fun e => decide (e.peer = p)

theorem ownEntry_some {p : String} {e : SessionRecord} :
    ownEntry p (some e) = if e.peer = p then some e else none := by
  rw [ownEntry, Option.filter_some]
  simp only [decide_eq_true_eq]

/-- A renewal of the peer acts on its own part of the table. -/
theorem ownEntry_renewedEntry {leaseNs now : ℤ} {p : String}
    (entry : Option SessionRecord) :
    ownEntry p (renewedEntry leaseNs p now entry) =
      renewedEntry leaseNs p now (ownEntry p entry) := by
  cases entry with
  | none => rfl
  | some e =>
    by_cases hpeer : e.peer = p
    · rw [ownEntry_some, if_pos hpeer, renewedEntry, if_neg (not_not.mpr hpeer)]
      split
      · rfl
      · rw [ownEntry_some, if_pos hpeer]
    · have hsame : renewedEntry leaseNs p now (some e) = some e := by
        rw [renewedEntry, if_pos hpeer]
      rw [hsame, ownEntry_some, if_neg hpeer]
      rfl

/-- A renewal of another peer leaves the part alone. -/
private theorem ownEntry_renewedEntry_of_ne {leaseNs now : ℤ} {p peer : String} (h : peer ≠ p)
    (entry : Option SessionRecord) :
    ownEntry p (renewedEntry leaseNs peer now entry) = ownEntry p entry := by
  cases entry with
  | none => rfl
  | some e =>
    rw [renewedEntry]
    split
    · rfl
    · rename_i hpeer
      rw [not_not] at hpeer
      have hother : e.peer ≠ p := fun heq => h (hpeer.symm.trans heq)
      rw [ownEntry_some, if_neg hother]
      split
      · rfl
      · rw [ownEntry_some, if_neg hother]

private theorem ownEntry_closedEntry {p : String} (entry : Option SessionRecord) :
    ownEntry p (closedEntry p entry) = closedEntry p (ownEntry p entry) := by
  cases entry with
  | none => rfl
  | some e =>
    by_cases hpeer : e.peer = p
    · rw [ownEntry_some, if_pos hpeer, closedEntry, if_neg (not_not.mpr hpeer)]
      rfl
    · have hsame : closedEntry p (some e) = some e := by
        rw [closedEntry, if_pos hpeer]
      rw [hsame, ownEntry_some, if_neg hpeer]
      rfl

private theorem ownEntry_closedEntry_of_ne {p peer : String} (h : peer ≠ p)
    (entry : Option SessionRecord) : ownEntry p (closedEntry peer entry) = ownEntry p entry := by
  cases entry with
  | none => rfl
  | some e =>
    rw [closedEntry]
    split
    · rfl
    · rename_i hpeer
      rw [not_not] at hpeer
      have hother : e.peer ≠ p := fun heq => h (hpeer.symm.trans heq)
      rw [ownEntry_some, if_neg hother]
      rfl

/-- The second registry holds exactly the part of the first that belongs to the peer. -/
structure Mirrors (p : String) (r q : SessionRegistry) : Prop where
  lease : q.leaseNs = r.leaseNs
  entries : ∀ id, id ≠ "" → q.sessions id = ownEntry p (r.sessions id)

/-- The id of a connect was not in use. -/
theorem connect_some {r : SessionRegistry} {peer : String} {draws : List SessionId} {now : ℤ}
    {sid : SessionId} (h : (r.connect peer draws now).2 = some sid) :
    r.sessions sid.text = none := by
  rw [connect] at h
  split at h
  · exact absurd h (Option.some_ne_none _).symm
  · rename_i id hfind
    obtain rfl := Option.some.inj h
    have hfree := List.find?_some hfind
    exact Option.isNone_iff_eq_none.mp hfree

/-- The peer that makes a call. -/
def Call.caller : Call → Option String
  | .connect peer _ _ => some peer
  | .heartbeat _ peer _ => some peer
  | .disconnect _ peer => some peer
  | .business _ peer _ => some peer
  | .sweep _ => none

/-- A call of another peer leaves the peer's part of the table alone, whatever id it names. -/
theorem ownEntry_step_of_ne {p peer : String} {c : Call} (hc : c.caller = some peer)
    (hne : peer ≠ p) (r : SessionRegistry) {id : String} (hid : id ≠ "") :
    ownEntry p ((r.step c).1.sessions id) = ownEntry p (r.sessions id) := by
  rw [step_sessions r c hid]
  cases c with
  | connect q draws now =>
    obtain rfl := Option.some.inj hc
    cases hsid : (r.connect q draws now).2 with
    | none =>
      have hreply : (r.step (.connect q draws now)).2 = .session none :=
        congrArg Reply.session hsid
      rw [hreply]
      rfl
    | some sid =>
      have hreply : (r.step (.connect q draws now)).2 = .session (some sid) :=
        congrArg Reply.session hsid
      rw [hreply, entryStep]
      split
      · rename_i heq
        rw [← heq, connect_some hsid, ownEntry_some, if_neg hne]
        rfl
      · rfl
  | heartbeat sid q now =>
    obtain rfl := Option.some.inj hc
    rw [entryStep]
    split
    · exact ownEntry_renewedEntry_of_ne hne _
    · rfl
  | disconnect sid q =>
    obtain rfl := Option.some.inj hc
    rw [entryStep]
    split
    · exact ownEntry_closedEntry_of_ne hne _
    · rfl
  | business sid q now =>
    obtain rfl := Option.some.inj hc
    rw [entryStep]
    split
    · exact ownEntry_renewedEntry_of_ne hne _
    · rfl
  | sweep now => cases hc

/-- A check sees the caller's part of the table only. -/
theorem accepts_ownEntry (leaseNs now : ℤ) (p : String) (entry : Option SessionRecord) :
    accepts leaseNs p now (ownEntry p entry) = accepts leaseNs p now entry := by
  cases entry with
  | none => rfl
  | some e =>
    rw [ownEntry_some]
    split
    · rfl
    · rename_i hne
      simp only [accepts, hne, decide_false, Bool.false_and]

/-- A call of the peer on a session, or a sweep, acts on the peer's part of the table alone. -/
private theorem ownEntry_entryStep {p : String} {c : Call}
    (hc : c.caller = some p ∨ c.caller = none)
    (hconnect : ∀ peer draws now, c ≠ .connect peer draws now) (leaseNs : ℤ) (id : String)
    (reply reply' : Reply) (entry : Option SessionRecord) :
    ownEntry p (entryStep leaseNs id c reply entry) =
      entryStep leaseNs id c reply' (ownEntry p entry) := by
  cases c with
  | connect peer draws now => exact absurd rfl (hconnect peer draws now)
  | heartbeat sid peer now =>
    obtain rfl : peer = p := by simpa [Call.caller] using hc
    rw [entryStep, entryStep]
    split
    · exact ownEntry_renewedEntry _
    · rfl
  | business sid peer now =>
    obtain rfl : peer = p := by simpa [Call.caller] using hc
    rw [entryStep, entryStep]
    split
    · exact ownEntry_renewedEntry _
    · rfl
  | disconnect sid peer =>
    obtain rfl : peer = p := by simpa [Call.caller] using hc
    rw [entryStep, entryStep]
    split
    · exact ownEntry_closedEntry _
    · rfl
  | sweep now =>
    rw [entryStep, entryStep, ownEntry, ownEntry, Option.filter_filter, Option.filter_filter]
    apply congrArg (fun f => Option.filter f entry)
    ext e
    exact Bool.and_comm _ _

/-- A call that the run of the peer does not keep. -/
private theorem Mirrors.drop {p : String} {r q : SessionRegistry} (h : Mirrors p r q) {c : Call}
    (hown : ∀ id, id ≠ "" → ownEntry p ((r.step c).1.sessions id) = ownEntry p (r.sessions id)) :
    Mirrors p (r.step c).1 (q.after []) :=
  ⟨h.lease.trans (step_leaseNs r c).symm,
    fun id hid => (h.entries id hid).trans (hown id hid).symm⟩

/-- A call that the run of the peer keeps, perhaps in another form. -/
private theorem Mirrors.keep {p : String} {r q : SessionRegistry} (h : Mirrors p r q) {c c' : Call}
    (hown : ∀ id, id ≠ "" → ownEntry p ((r.step c).1.sessions id) = (q.step c').1.sessions id) :
    Mirrors p (r.step c).1 (q.after [c']) :=
  ⟨(step_leaseNs q c').trans (h.lease.trans (step_leaseNs r c).symm),
    fun id hid => (hown id hid).symm⟩

/-- A call of the peer on a session, or a sweep, is kept as it stands. -/
private theorem Mirrors.keep_self {p : String} {r q : SessionRegistry} (h : Mirrors p r q)
    {c : Call} (hc : c.caller = some p ∨ c.caller = none)
    (hconnect : ∀ peer draws now, c ≠ .connect peer draws now) :
    Mirrors p (r.step c).1 (q.after [c]) := by
  apply h.keep
  intro id hid
  rw [step_sessions r c hid, step_sessions q c hid, h.lease, h.entries id hid]
  exact ownEntry_entryStep hc hconnect _ _ _ _ _

/-- A connect of the peer is kept with the id that it was handed. -/
private theorem Mirrors.connect {p : String} {r q : SessionRegistry} (h : Mirrors p r q)
    (draws : List SessionId) (now : ℤ) :
    Mirrors p (r.step (.connect p draws now)).1
      (q.after [.connect p (r.connect p draws now).2.toList now]) := by
  apply h.keep
  intro id hid
  rw [step_sessions r _ hid, step_sessions q _ hid]
  cases hsid : (r.connect p draws now).2 with
  | none =>
    have hreply : (r.step (.connect p draws now)).2 = .session none := congrArg Reply.session hsid
    rw [hreply, h.entries id hid]
    rfl
  | some sid =>
    have hreply : (r.step (.connect p draws now)).2 = .session (some sid) :=
      congrArg Reply.session hsid
    have hfree : q.sessions sid.text = none := by
      rw [h.entries _ sid.nonempty, connect_some hsid]
      rfl
    have hpick : (q.step (.connect p [sid] now)).2 = .session (some sid) := by
      simp only [step, SessionRegistry.connect, List.find?_cons, hfree, Option.isNone_none]
    rw [hreply, Option.toList_some, hpick, entryStep, entryStep, h.entries id hid]
    split
    · rw [ownEntry_some, if_pos rfl]
    · rfl

/-- One call of the full run against what the run of the peer keeps of it. -/
theorem mirrors_step {p : String} {r q : SessionRegistry} (h : Mirrors p r q) (c : Call) :
    Mirrors p (r.step c).1
      (q.after ((keptCall p (c, (r.step c).2)).toList)) := by
  cases c with
  | connect peer draws now =>
    rw [step, keptCall]
    split
    · rename_i hpeer
      subst hpeer
      exact h.connect draws now
    · rename_i hpeer
      exact h.drop (c := .connect peer draws now) fun id hid =>
        ownEntry_step_of_ne rfl hpeer r hid
  | heartbeat sid peer now =>
    rw [keptCall]
    split
    · rename_i hpeer
      subst hpeer
      exact h.keep_self (Or.inl rfl) fun _ _ _ => Call.noConfusion
    · rename_i hpeer
      exact h.drop fun id hid => ownEntry_step_of_ne rfl hpeer r hid
  | business sid peer now =>
    rw [keptCall]
    split
    · rename_i hpeer
      subst hpeer
      exact h.keep_self (Or.inl rfl) fun _ _ _ => Call.noConfusion
    · rename_i hpeer
      exact h.drop fun id hid => ownEntry_step_of_ne rfl hpeer r hid
  | disconnect sid peer =>
    rw [keptCall]
    split
    · rename_i hpeer
      subst hpeer
      exact h.keep_self (Or.inl rfl) fun _ _ _ => Call.noConfusion
    · rename_i hpeer
      exact h.drop fun id hid => ownEntry_step_of_ne rfl hpeer r hid
  | sweep now => exact h.keep_self (Or.inr rfl) fun _ _ _ => Call.noConfusion

theorem mirrors_after {p : String} {r q : SessionRegistry} (h : Mirrors p r q)
    (calls : List Call) :
    Mirrors p (r.after calls) (q.after (restrictTo p (r.history calls))) := by
  induction calls generalizing r q with
  | nil => exact h
  | cons c calls ih =>
    have hnext := ih (mirrors_step h c)
    rw [← after_append] at hnext
    have hsplit : restrictTo p (r.history (c :: calls)) =
        (keptCall p (c, (r.step c).2)).toList ++ restrictTo p ((r.step c).1.history calls) := by
      rw [history, restrictTo, restrictTo, List.filterMap_cons]
      cases keptCall p (c, (r.step c).2) with
      | none => rfl
      | some c' => rfl
    rw [hsplit]
    exact hnext

theorem owner_concat (h : List (Call × Reply)) (x : Call × Reply) (id : String) :
    owner (h ++ [x]) id = match x with
      | (.connect peer _ _, .session (some sid)) =>
        if sid.text = id then some peer else owner h id
      | _ => owner h id := by
  rw [owner, List.foldl_append]
  rfl

private theorem renewedEntry_peer {leaseNs now : ℤ} {peer : String}
    {entry : Option SessionRecord} {e : SessionRecord}
    (h : renewedEntry leaseNs peer now entry = some e) :
    ∃ e', entry = some e' ∧ e'.peer = e.peer := by
  cases entry with
  | none => cases h
  | some e' =>
    rw [renewedEntry] at h
    split at h
    · obtain rfl := Option.some.inj h
      exact ⟨_, rfl, rfl⟩
    · split at h
      · cases h
      · obtain rfl := Option.some.inj h
        exact ⟨e', rfl, rfl⟩

/-- Only a connect puts an entry of a new peer. -/
private theorem entryStep_peer {leaseNs : ℤ} {id : String} {c : Call} {reply : Reply}
    {entry : Option SessionRecord} {e : SessionRecord}
    (hconnect : ∀ peer draws now, c ≠ .connect peer draws now)
    (h : entryStep leaseNs id c reply entry = some e) :
    ∃ e', entry = some e' ∧ e'.peer = e.peer := by
  cases c with
  | connect peer draws now => exact absurd rfl (hconnect peer draws now)
  | heartbeat sid peer now =>
    rw [entryStep] at h
    split at h
    · exact renewedEntry_peer h
    · exact ⟨e, h, rfl⟩
  | business sid peer now =>
    rw [entryStep] at h
    split at h
    · exact renewedEntry_peer h
    · exact ⟨e, h, rfl⟩
  | disconnect sid peer =>
    rw [entryStep] at h
    split at h
    · cases entry with
      | none => cases h
      | some e' =>
        rw [closedEntry] at h
        split at h
        · exact ⟨e', rfl, congrArg SessionRecord.peer (Option.some.inj h)⟩
        · cases h
    · exact ⟨e, h, rfl⟩
  | sweep now => exact ⟨e, (Option.filter_eq_some_iff.mp h).1, rfl⟩

/-- Every record belongs to the owner of its id. -/
theorem owner_of_entry {r : SessionRegistry} (hr : ∀ id, r.sessions id = none)
    {calls : List Call} {id : String} (hid : id ≠ "") {e : SessionRecord}
    (h : (r.after calls).sessions id = some e) : owner (r.history calls) id = some e.peer := by
  induction calls using List.reverseRecOn generalizing e with
  | nil =>
    rw [after, List.foldl_nil, hr] at h
    cases h
  | append_singleton calls c ih =>
    rw [after_append] at h
    change ((r.after calls).step c).1.sessions id = some e at h
    rw [step_sessions _ c hid] at h
    rw [history_concat, owner_concat]
    have hreply : ((r.after calls).step c).2 = r.replyAfter calls c := rfl
    rw [hreply] at h
    have hkept (hconnect : ∀ peer draws now, c ≠ .connect peer draws now) :
        owner (r.history calls) id = some e.peer := by
      obtain ⟨e', he', hpeer⟩ := entryStep_peer hconnect h
      rw [ih he', hpeer]
    cases c with
    | connect peer draws now =>
      cases hsid : ((r.after calls).connect peer draws now).2 with
      | none =>
        have hnone : r.replyAfter calls (.connect peer draws now) = .session none :=
          congrArg Reply.session hsid
        rw [hnone] at h ⊢
        exact ih h
      | some sid =>
        have hsome : r.replyAfter calls (.connect peer draws now) = .session (some sid) :=
          congrArg Reply.session hsid
        rw [hsome] at h ⊢
        simp only [entryStep] at h ⊢
        split
        · rename_i heq
          rw [if_pos heq] at h
          obtain rfl := Option.some.inj h
          rfl
        · rename_i hne
          rw [if_neg hne] at h
          exact ih h
    | _ => exact hkept fun _ _ _ => Call.noConfusion

/-- The answer of a call on a session depends on the lease and the session's entry only. -/
theorem step_reply_congr {r q : SessionRegistry} {id : String} (hlease : q.leaseNs = r.leaseNs)
    (hentry : q.sessions id = r.sessions id) (peer : String) (now : ℤ) :
    (q.step (.heartbeat id peer now)).2 = (r.step (.heartbeat id peer now)).2 ∧
      (q.step (.business id peer now)).2 = (r.step (.business id peer now)).2 ∧
      (q.step (.disconnect id peer)).2 = (r.step (.disconnect id peer)).2 := by
  have hrenew (a b d : String) : (renew a b d q id peer now).2 = (renew a b d r id peer now).2 := by
    unfold renew
    rw [hentry]
    split
    · rfl
    · cases r.sessions id with
      | none => rfl
      | some e =>
        have hexpired : q.expired e now = r.expired e now := by
          rw [expired, expired, hlease]
        simp only [hexpired]
        by_cases hpeer : e.peer = peer
        · cases hlapsed : r.expired e now <;> simp [hpeer]
        · simp [hpeer]
  refine ⟨congrArg Reply.status (hrenew _ _ _), congrArg Reply.status (hrenew _ _ _),
    congrArg Reply.status ?_⟩
  unfold disconnect
  rw [hentry]
  split
  · rfl
  · cases r.sessions id with
    | none => rfl
    | some e =>
      simp only
      split_ifs <;> rfl

/-- A call of the peer on a session. -/
def Call.OnSession (c : Call) (id p : String) : Prop :=
  (∃ now, c = .heartbeat id p now) ∨ (∃ now, c = .business id p now) ∨ c = .disconnect id p

/-- A request that carries a session id is a call on that session. -/
theorem requireBusinessSession_onSession {metadata : List (String × String)} {id : String}
    (h : sessionIdFromContext metadata = some id) (p : String) (now : ℤ) :
    (requireBusinessSession metadata p now).OnSession id p := by
  rw [requireBusinessSession, h]
  exact Or.inr (Or.inl ⟨now, rfl⟩)

/-- Deleting the calls of all other peers changes no answer that a peer gets on a session it
owns, and its connects are handed the same ids. -/
theorem replyAfter_restrictTo (leaseTimeoutMs flagSessionLeaseMs : ℤ) (calls : List Call)
    (p : String) :
    (∀ c id, c.OnSession id p →
      owner ((make leaseTimeoutMs flagSessionLeaseMs).history calls) id = some p →
      (make leaseTimeoutMs flagSessionLeaseMs).replyAfter
          (restrictTo p ((make leaseTimeoutMs flagSessionLeaseMs).history calls)) c =
        (make leaseTimeoutMs flagSessionLeaseMs).replyAfter calls c) ∧
    (∀ draws now sid, (make leaseTimeoutMs flagSessionLeaseMs).replyAfter calls
        (.connect p draws now) = .session sid →
      (make leaseTimeoutMs flagSessionLeaseMs).replyAfter
          (restrictTo p ((make leaseTimeoutMs flagSessionLeaseMs).history calls))
          (.connect p sid.toList now) = .session sid) := by
  have hr : ∀ id, (make leaseTimeoutMs flagSessionLeaseMs).sessions id = none := fun _ => rfl
  generalize make leaseTimeoutMs flagSessionLeaseMs = r at hr ⊢
  have hstart : Mirrors p r r := by
    refine ⟨rfl, fun id _ => ?_⟩
    rw [hr]
    rfl
  obtain ⟨hlease, hentries⟩ := mirrors_after hstart calls
  constructor
  · intro c id hc howner
    have hid : id ≠ "" := by
      rintro rfl
      -- no connect is answered with the empty id
      have hnone : ∀ h : List (Call × Reply), owner h "" = none := by
        intro h
        induction h using List.reverseRecOn with
        | nil => rfl
        | append_singleton h x ih =>
          rw [owner_concat]
          split
          · rename_i sid
            rw [if_neg sid.nonempty]
            exact ih
          · exact ih
      rw [hnone] at howner
      cases howner
    have hentry : (r.after (restrictTo p (r.history calls))).sessions id =
        (r.after calls).sessions id := by
      rw [hentries id hid]
      cases hfull : (r.after calls).sessions id with
      | none => rfl
      | some e =>
        have hpeer : e.peer = p :=
          Option.some.inj ((owner_of_entry hr hid hfull).symm.trans howner)
        rw [ownEntry_some, if_pos hpeer]
    rcases hc with ⟨now, rfl⟩ | ⟨now, rfl⟩ | rfl
    · exact (step_reply_congr hlease hentry p now).1
    · exact (step_reply_congr hlease hentry p now).2.1
    · exact (step_reply_congr hlease hentry p 0).2.2
  · intro draws now sid hreply
    cases sid with
    | none => rfl
    | some sid =>
      have hfree : (r.after (restrictTo p (r.history calls))).sessions sid.text = none := by
        rw [hentries _ sid.nonempty, connect_some (Reply.session.inj hreply)]
        rfl
      simp only [replyAfter, step, connect, Option.toList_some, List.find?_cons, hfree,
        Option.isNone_none]

/-- A second peer connects and tries the first peer's session in every way. -/
def stolenRun : List Call :=
  [.connect "p" [randomSessionId 1 2] 0, .connect "q" [randomSessionId 1 2, randomSessionId 3 4] 1,
    .heartbeat "12" "q" 2, .business "12" "q" 3, .disconnect "12" "q", .sweep 4]

theorem replyAfter_restrictTo_stolenRun :
    (make 3000 0).replyAfter (restrictTo "p" ((make 3000 0).history stolenRun))
        (requireBusinessSession [(kSessionMetadataKey, "12")] "p" 5) =
      (make 3000 0).replyAfter stolenRun
        (requireBusinessSession [(kSessionMetadataKey, "12")] "p" 5) :=
  (replyAfter_restrictTo 3000 0 stolenRun "p").1 _ "12"
    (requireBusinessSession_onSession (by decide) "p" 5) (by decide)

end SessionRegistry

end Evrp
