import Mathlib.Data.List.Chain
import Evrp.Sdk.SessionRegistry

/-!
# Session leases

The registry erases lapsed records in three places and at moments that depend on
who calls. Its abstraction is a ledger that never erases a lapsed record: a
session is opened by a connect, renewed by the checks it accepts and closed by a
disconnect of its peer, and sweeps do nothing. The registry refines the ledger:
a record it has erased early was lapsed, and with clock readings that do not
decrease it stays lapsed for every call to come. The lease law is then a fact
about the ledger's history.
-/

namespace Evrp

namespace SessionRegistry

/-- The clock reading a call takes under the lock. -/
def Call.lockReading : Call → Option ℤ
  | .connect _ _ now => some now
  | .heartbeat _ _ now => some now
  | .business _ _ now => some now
  | .disconnect .. => none
  | .sweep _ => none

/-- The clock reading of a call, taken before the lock by a sweep. -/
def Call.reading : Call → Option ℤ
  | .sweep now => some now
  | c => c.lockReading

/-- Readings under the lock are not smaller than any reading of an earlier call. -/
def WellTimed (calls : List Call) : Prop :=
  calls.Pairwise fun a b => ∀ s ∈ a.reading, ∀ t ∈ b.lockReading, s ≤ t

instance (calls : List Call) : Decidable (WellTimed calls) :=
  inferInstanceAs (Decidable (List.Pairwise _ _))

/-- The id a connect draws first. -/
def Call.firstDraw : Call → Option String
  | .connect _ (d :: _) _ => some d.text
  | _ => none

/-- No connect draws an id that an earlier one was given. -/
def FreshIds (calls : List Call) : Prop := (calls.filterMap Call.firstDraw).Nodup

instance (calls : List Call) : Decidable (FreshIds calls) :=
  inferInstanceAs (Decidable (List.Nodup _))

/-- The entry of one session in the ledger after a call. -/
def ledgerStep (leaseNs : ℤ) (id : String) (entry : Option SessionRecord) :
    Call → Option SessionRecord
  | .connect peer (d :: _) now => if d.text = id then some ⟨peer, now⟩ else entry
  | .connect _ [] _ => entry
  | .heartbeat sid peer now =>
    if sid = id ∧ accepts leaseNs peer now entry = true then some ⟨peer, now⟩ else entry
  | .business sid peer now =>
    if sid = id ∧ accepts leaseNs peer now entry = true then some ⟨peer, now⟩ else entry
  | .disconnect sid peer => if sid = id then closedEntry peer entry else entry
  | .sweep _ => entry

/-- The ledger's entry of one session after a list of calls. -/
def ledger (leaseNs : ℤ) (id : String) (calls : List Call) : Option SessionRecord :=
  calls.foldl (ledgerStep leaseNs id) none

/-- The time at which the session was renewed, for an accepted check of its peer. -/
def renewal (id peer : String) : Call × Reply → Option ℤ
  | (.heartbeat sid p now, reply) =>
    if sid = id ∧ p = peer ∧ reply.accepted = true then some now else none
  | (.business sid p now, reply) =>
    if sid = id ∧ p = peer ∧ reply.accepted = true then some now else none
  | _ => none

/-- The peer was given the session, has not disconnected it since, and no gap between its
connect, its accepted renewals and now is longer than the lease. -/
def LeaseHeld (leaseNs : ℤ) (h : List (Call × Reply)) (id peer : String) (now : ℤ) : Prop :=
  ∃ before draws opened sid since,
    h = before ++ (.connect peer draws opened, .session (some sid)) :: since ∧
      sid.text = id ∧ .disconnect id peer ∉ since.map Prod.fst ∧
      (opened :: (since.filterMap (renewal id peer) ++ [now])).IsChain fun a b => b - a ≤ leaseNs

/-- The entry agrees with the ledger, or was erased early and is lapsed for the calls to come. -/
def Agrees (leaseNs : ℤ) (entry ledgerEntry : Option SessionRecord) (rest : List Call) : Prop :=
  entry = ledgerEntry ∨ entry = none ∧ ∃ e, ledgerEntry = some e ∧
    ∀ c ∈ rest, ∀ t ∈ c.lockReading, leaseNs < t - e.lastHeartbeat

/-- No id still to be drawn is in use. -/
def DrawsFree (r : SessionRegistry) (rest : List Call) : Prop :=
  ∀ c ∈ rest, ∀ d ∈ c.firstDraw, r.sessions d = none

theorem connect_of_free {r : SessionRegistry} {peer : String} {d : SessionId}
    {ds : List SessionId} {now : ℤ} (h : r.sessions d.text = none) :
    r.connect peer (d :: ds) now = (r.put d.text (some ⟨peer, now⟩), some d) := by
  rw [connect, List.find?_cons_of_pos (by rw [h]; rfl)]

/-- What a check does to an entry that agrees with the ledger, which accepts it alike. -/
private theorem agrees_renew {leaseNs now : ℤ} (peer : String)
    {entry ledgerEntry : Option SessionRecord} {c : Call} {rest : List Call}
    (hc : c.lockReading = some now) (hr : c.reading = some now)
    (h : Agrees leaseNs entry ledgerEntry (c :: rest)) (htimed : WellTimed (c :: rest)) :
    accepts leaseNs peer now entry = accepts leaseNs peer now ledgerEntry ∧
      Agrees leaseNs (renewedEntry leaseNs peer now entry)
        (if accepts leaseNs peer now ledgerEntry = true then some ⟨peer, now⟩ else ledgerEntry)
        rest := by
  have hlater : ∀ x ∈ rest, ∀ t ∈ x.lockReading, now ≤ t := fun x hx t ht =>
    (List.pairwise_cons.mp htimed).1 x hx now hr t ht
  rcases h with rfl | ⟨rfl, e, rfl, hlapsed⟩
  · refine ⟨rfl, ?_⟩
    cases entry with
    | none => exact Or.inl rfl
    | some e =>
      simp only [renewedEntry, accepts, Bool.and_eq_true, decide_eq_true_eq]
      by_cases hpeer : e.peer = peer
      · rw [if_neg (not_not.mpr hpeer)]
        by_cases hlapsed : leaseNs < now - e.lastHeartbeat
        · rw [if_pos hlapsed, if_neg fun h => absurd h.2 (Int.not_le.mpr hlapsed)]
          refine Or.inr ⟨rfl, e, rfl, fun x hx t ht => ?_⟩
          have := hlater x hx t ht
          omega
        · rw [if_neg hlapsed, if_pos ⟨hpeer, Int.not_lt.mp hlapsed⟩, hpeer]
          exact Or.inl rfl
      · rw [if_pos hpeer, if_neg fun h => hpeer h.1]
        exact Or.inl rfl
  · have hgone := hlapsed c (List.mem_cons_self ..) now hc
    have hrefused : accepts leaseNs peer now (some e) = false := by
      simp only [accepts, Bool.and_eq_false_iff, decide_eq_false_iff_not, Int.not_le]
      exact Or.inr hgone
    rw [hrefused, if_neg Bool.false_ne_true]
    exact ⟨rfl, Or.inr ⟨rfl, e, rfl, fun x hx => hlapsed x (List.mem_cons_of_mem _ hx)⟩⟩

theorem Agrees.tail {leaseNs : ℤ} {entry ledgerEntry : Option SessionRecord} {c : Call}
    {rest : List Call} (h : Agrees leaseNs entry ledgerEntry (c :: rest)) :
    Agrees leaseNs entry ledgerEntry rest := by
  rcases h with h | ⟨hnone, e, he, hlapsed⟩
  · exact Or.inl h
  · exact Or.inr ⟨hnone, e, he, fun x hx => hlapsed x (List.mem_cons_of_mem _ hx)⟩

/-- Every call keeps the agreement of an entry with the ledger. -/
theorem agrees_step {r : SessionRegistry} {id : String} (hid : id ≠ "") {c : Call}
    {rest : List Call} {l : Option SessionRecord} (htimed : WellTimed (c :: rest))
    (hfree : DrawsFree r (c :: rest)) (h : Agrees r.leaseNs (r.sessions id) l (c :: rest)) :
    Agrees r.leaseNs ((r.step c).1.sessions id) (ledgerStep r.leaseNs id l c) rest := by
  rw [step_sessions r c hid]
  cases c with
  | connect peer draws now =>
    cases draws with
    | nil => exact h.tail
    | cons d ds =>
      have hnone := hfree _ (List.mem_cons_self ..) d.text rfl
      simp only [step, connect_of_free hnone, entryStep, ledgerStep]
      split
      · exact Or.inl rfl
      · exact h.tail
  | heartbeat sid peer now =>
    simp only [entryStep, ledgerStep]
    by_cases heq : sid = id
    · simp only [heq, if_true, true_and]
      exact (agrees_renew peer rfl rfl h htimed).2
    · simp only [heq, if_false, false_and]
      exact h.tail
  | disconnect sid peer =>
    simp only [entryStep, ledgerStep]
    by_cases heq : sid = id
    · simp only [heq, if_true]
      rcases h.tail with hsame | ⟨hnone, e, rfl, hlapsed⟩
      · exact Or.inl (congrArg _ hsame)
      · rw [hnone, closedEntry, closedEntry]
        split
        · exact Or.inr ⟨rfl, e, rfl, hlapsed⟩
        · exact Or.inl rfl
    · simp only [heq, if_false]
      exact h.tail
  | business sid peer now =>
    simp only [entryStep, ledgerStep]
    by_cases heq : sid = id
    · simp only [heq, if_true, true_and]
      exact (agrees_renew peer rfl rfl h htimed).2
    · simp only [heq, if_false, false_and]
      exact h.tail
  | sweep now =>
    simp only [entryStep, ledgerStep]
    rcases h.tail with hsame | ⟨hnone, e, he, hlapsed⟩
    · rw [hsame]
      cases l with
      | none => exact Or.inl rfl
      | some e =>
        by_cases hgone : r.leaseNs < now - e.lastHeartbeat
        · rw [Option.filter_some, decide_eq_true hgone, if_neg (by decide)]
          refine Or.inr ⟨rfl, e, rfl, fun x hx t ht => ?_⟩
          have := (List.pairwise_cons.mp htimed).1 x hx now rfl t ht
          omega
        · rw [Option.filter_some, decide_eq_false hgone, if_pos (by decide)]
          exact Or.inl rfl
    · rw [hnone]
      exact Or.inr ⟨rfl, e, he, hlapsed⟩

private theorem firstDraw_ne_empty {c : Call} {d : String} (h : d ∈ c.firstDraw) : d ≠ "" := by
  cases c with
  | connect peer draws now =>
    cases draws with
    | nil => exact absurd h (by simp [Call.firstDraw])
    | cons sid ds =>
      obtain rfl := Option.some.inj h
      exact sid.nonempty
  | _ => exact absurd h (by simp [Call.firstDraw])

private theorem entryStep_none (leaseNs : ℤ) {id : String} {c : Call} {reply : Reply}
    (h : ∀ sid, reply = .session (some sid) → sid.text ≠ id) :
    entryStep leaseNs id c reply none = none := by
  cases c with
  | connect peer draws now =>
    cases reply with
    | session sid =>
      cases sid with
      | none => rfl
      | some sid => exact if_neg (h sid rfl)
    | _ => rfl
  | heartbeat sid peer now => exact ite_self none
  | disconnect sid peer => exact ite_self none
  | business sid peer now => exact ite_self none
  | sweep now => rfl

/-- A connect with a fresh draw is answered with it. -/
theorem step_connect_of_drawsFree {r : SessionRegistry} {peer : String}
    {draws : List SessionId} {now : ℤ} {rest : List Call}
    (h : DrawsFree r (.connect peer draws now :: rest)) :
    (r.step (.connect peer draws now)).2 = .session draws.head? := by
  cases draws with
  | nil => rfl
  | cons d ds =>
    have hnone := h _ (List.mem_cons_self ..) d.text rfl
    simp only [step, connect_of_free hnone, List.head?_cons]

private theorem step_session {r : SessionRegistry} {c : Call} {rest : List Call}
    (hfree : DrawsFree r (c :: rest)) {sid : SessionId}
    (h : (r.step c).2 = .session (some sid)) : c.firstDraw = some sid.text := by
  cases c with
  | connect peer draws now =>
    rw [step_connect_of_drawsFree hfree] at h
    cases draws with
    | nil => exact absurd h (by simp)
    | cons d ds =>
      rw [List.head?_cons] at h
      simp only [Reply.session.injEq, Option.some.injEq] at h
      rw [Call.firstDraw, h]
  | _ => exact absurd h (by simp [step])

/-- The ids still to be drawn stay out of use. -/
theorem drawsFree_step {r : SessionRegistry} {c : Call} {rest : List Call}
    (hfresh : FreshIds (c :: rest)) (h : DrawsFree r (c :: rest)) :
    DrawsFree (r.step c).1 rest := by
  intro x hx d hd
  rw [step_sessions r c (firstDraw_ne_empty hd), h x (List.mem_cons_of_mem _ hx) d hd]
  apply entryStep_none _
  intro sid hsid heq
  have hdraw := step_session h hsid
  rw [FreshIds, List.filterMap_cons_some hdraw, List.nodup_cons] at hfresh
  refine hfresh.1 (List.mem_filterMap.mpr ⟨x, hx, ?_⟩)
  rw [heq]
  exact hd

theorem FreshIds.tail {c : Call} {rest : List Call} (h : FreshIds (c :: rest)) :
    FreshIds rest := by
  refine List.Nodup.sublist ?_ h
  exact (List.sublist_cons_self c rest).filterMap _

theorem after_leaseNs (r : SessionRegistry) (calls : List Call) :
    (r.after calls).leaseNs = r.leaseNs := by
  induction calls generalizing r with
  | nil => rfl
  | cons c calls ih => exact (ih (r.step c).1).trans (step_leaseNs r c)

/-- Along a run the registry keeps refining the ledger. -/
theorem agrees_after {r : SessionRegistry} {id : String} (hid : id ≠ "") {calls rest : List Call}
    {l : Option SessionRecord} (htimed : WellTimed (calls ++ rest))
    (hfresh : FreshIds (calls ++ rest)) (hfree : DrawsFree r (calls ++ rest))
    (h : Agrees r.leaseNs (r.sessions id) l (calls ++ rest)) :
    DrawsFree (r.after calls) rest ∧
      Agrees r.leaseNs ((r.after calls).sessions id)
        (calls.foldl (ledgerStep r.leaseNs id) l) rest := by
  induction calls generalizing r l with
  | nil => exact ⟨hfree, h⟩
  | cons c calls ih =>
    have hnext := agrees_step hid htimed hfree h
    rw [← step_leaseNs r c] at hnext
    have hrun := ih (List.pairwise_cons.mp htimed).2 hfresh.tail (drawsFree_step hfresh hfree) hnext
    rw [step_leaseNs r c] at hrun
    exact hrun

/-- The registry of a fresh process. -/
def Unused (r : SessionRegistry) : Prop := ∀ id, r.sessions id = none

theorem unused_make (leaseTimeoutMs flagSessionLeaseMs : ℤ) :
    Unused (make leaseTimeoutMs flagSessionLeaseMs) := fun _ => rfl

theorem Call.Checks.lockReading {c : Call} {sid p : String} {now : ℤ}
    (hc : c.Checks sid p now) : c.lockReading = some now := by
  rcases hc with rfl | rfl
  · rfl
  · rfl

theorem Call.Checks.reading {c : Call} {sid p : String} {now : ℤ}
    (hc : c.Checks sid p now) : c.reading = some now := by
  rcases hc with rfl | rfl
  · rfl
  · rfl

/-- A check is accepted exactly if the ledger's entry is live. -/
theorem accepted_iff_ledger {r : SessionRegistry} (hr : Unused r) {calls : List Call} {c : Call}
    {id peer : String} {now : ℤ} (hid : id ≠ "") (hc : c.Checks id peer now)
    (htimed : WellTimed (calls ++ [c])) (hfresh : FreshIds calls) :
    (r.replyAfter calls c).accepted = true ↔
      accepts r.leaseNs peer now (ledger r.leaseNs id calls) = true := by
  have hdraw : c.firstDraw = none := by
    rcases hc with rfl | rfl
    · rfl
    · rfl
  have hfresh' : FreshIds (calls ++ [c]) := by
    rw [FreshIds, List.filterMap_append, List.filterMap_cons_none hdraw, List.filterMap_nil,
      List.append_nil]
    exact hfresh
  obtain ⟨-, hagrees⟩ := agrees_after hid htimed hfresh' (fun _ _ d _ => hr d)
    (Or.inl (hr id) : Agrees r.leaseNs (r.sessions id) none (calls ++ [c]))
  have hsame := (agrees_renew peer hc.lockReading hc.reading hagrees
    (List.pairwise_singleton _ _)).1
  rw [replyAfter, step_accepted _ hc, after_leaseNs, hsame]
  exact and_iff_right hid

/-- The lease law up to the last renewal. -/
def HeldAt (leaseNs : ℤ) (h : List (Call × Reply)) (id peer : String) (last : ℤ) : Prop :=
  ∃ before draws opened sid since,
    h = before ++ (.connect peer draws opened, .session (some sid)) :: since ∧
      sid.text = id ∧ .disconnect id peer ∉ since.map Prod.fst ∧
      (opened :: since.filterMap (renewal id peer)).IsChain (fun a b => b - a ≤ leaseNs) ∧
      (opened :: since.filterMap (renewal id peer)).getLast? = some last

theorem leaseHeld_iff_heldAt {leaseNs : ℤ} {h : List (Call × Reply)} {id peer : String}
    {now : ℤ} : LeaseHeld leaseNs h id peer now ↔
      ∃ last, HeldAt leaseNs h id peer last ∧ now - last ≤ leaseNs := by
  constructor
  · rintro ⟨before, draws, opened, sid, since, hh, hid, hclosed, hchain⟩
    rw [← List.cons_append, List.isChain_append] at hchain
    obtain ⟨hgaps, -, hnow⟩ := hchain
    obtain ⟨last, hlast⟩ : ∃ last,
        (opened :: since.filterMap (renewal id peer)).getLast? = some last :=
      ⟨_, List.getLast?_eq_some_getLast (List.cons_ne_nil _ _)⟩
    exact ⟨last, ⟨before, draws, opened, sid, since, hh, hid, hclosed, hgaps, hlast⟩,
      hnow last hlast now rfl⟩
  · rintro ⟨last, ⟨before, draws, opened, sid, since, hh, hid, hclosed, hgaps, hlast⟩, hnow⟩
    refine ⟨before, draws, opened, sid, since, hh, hid, hclosed, ?_⟩
    rw [← List.cons_append, List.isChain_append]
    refine ⟨hgaps, List.isChain_singleton _, fun x hx y hy => ?_⟩
    obtain rfl : last = x := Option.some.inj (hlast.symm.trans hx)
    obtain rfl := Option.some.inj hy
    exact hnow

/-- The session's own connect is the last entry, or the last entry came after it. -/
private theorem heldAt_concat_split {leaseNs : ℤ} {h : List (Call × Reply)} {x : Call × Reply}
    {id peer : String} {last : ℤ} (hheld : HeldAt leaseNs (h ++ [x]) id peer last) :
    (∃ draws sid, x = (.connect peer draws last, .session (some sid)) ∧ sid.text = id) ∨
      x.1 ≠ .disconnect id peer ∧
        (renewal id peer x = none ∧ HeldAt leaseNs h id peer last ∨
          renewal id peer x = some last ∧
            ∃ earlier, HeldAt leaseNs h id peer earlier ∧ last - earlier ≤ leaseNs) := by
  obtain ⟨before, draws, opened, sid, since, hh, hid, hclosed, hgaps, hlast⟩ := hheld
  rcases List.eq_nil_or_concat since with rfl | ⟨since', y, rfl⟩
  · obtain ⟨-, hx⟩ := List.append_inj' hh rfl
    obtain rfl := Option.some.inj hlast
    exact Or.inl ⟨draws, sid, List.singleton_inj.mp hx, hid⟩
  · rw [List.concat_eq_append] at hh hclosed hgaps hlast
    rw [← List.cons_append, ← List.append_assoc] at hh
    obtain ⟨hh', hx⟩ := List.append_inj' hh rfl
    obtain rfl := List.singleton_inj.mp hx
    rw [List.map_append, List.mem_append, not_or] at hclosed
    rw [List.filterMap_append, ← List.cons_append] at hgaps hlast
    refine Or.inr ⟨fun hdis => hclosed.2 (by simp [hdis]), ?_⟩
    cases hr : renewal id peer x with
    | none =>
      rw [List.filterMap_cons_none hr, List.filterMap_nil, List.append_nil] at hgaps hlast
      exact Or.inl ⟨rfl, before, draws, opened, sid, since', hh', hid, hclosed.1, hgaps, hlast⟩
    | some t =>
      rw [List.filterMap_cons_some hr, List.filterMap_nil] at hgaps hlast
      rw [List.getLast?_concat] at hlast
      obtain rfl := Option.some.inj hlast
      obtain ⟨hgaps', -, hgap⟩ := List.isChain_append.mp hgaps
      obtain ⟨earlier, hearlier⟩ : ∃ earlier,
          (opened :: since'.filterMap (renewal id peer)).getLast? = some earlier :=
        ⟨_, List.getLast?_eq_some_getLast (List.cons_ne_nil _ _)⟩
      exact Or.inr ⟨rfl, earlier,
        ⟨before, draws, opened, sid, since', hh', hid, hclosed.1, hgaps', hearlier⟩,
        hgap earlier hearlier t rfl⟩

/-- The lease goes on over an entry that is not a disconnect of its peer. -/
private theorem heldAt_concat {leaseNs : ℤ} {h : List (Call × Reply)} {x : Call × Reply}
    {id peer : String} {last : ℤ} (hheld : HeldAt leaseNs h id peer last)
    (hx : x.1 ≠ .disconnect id peer) (hgap : ∀ t ∈ renewal id peer x, t - last ≤ leaseNs) :
    HeldAt leaseNs (h ++ [x]) id peer ((renewal id peer x).getD last) := by
  obtain ⟨before, draws, opened, sid, since, rfl, hid, hclosed, hgaps, hlast⟩ := hheld
  refine ⟨before, draws, opened, sid, since ++ [x], by simp, hid, ?_, ?_⟩
  · rw [List.map_append, List.mem_append, not_or]
    exact ⟨hclosed, fun hm => hx (List.mem_singleton.mp hm).symm⟩
  · rw [List.filterMap_append, ← List.cons_append]
    cases hr : renewal id peer x with
    | none =>
      rw [List.filterMap_cons_none hr, List.filterMap_nil, List.append_nil]
      exact ⟨hgaps, hlast⟩
    | some t =>
      rw [List.filterMap_cons_some hr, List.filterMap_nil, List.getLast?_concat]
      refine ⟨List.isChain_append.mpr ⟨hgaps, List.isChain_singleton _, fun y hy z hz => ?_⟩, rfl⟩
      obtain rfl : last = y := Option.some.inj (hlast.symm.trans hy)
      obtain rfl := Option.some.inj hz
      exact hgap t hr

/-- An entry that neither opens, renews nor closes the session does not matter to it. -/
private theorem heldAt_concat_quiet {leaseNs : ℤ} {h : List (Call × Reply)} {x : Call × Reply}
    {id peer : String} (hr : renewal id peer x = none) (hx : x.1 ≠ .disconnect id peer)
    (hopen : ∀ sid, x.2 = .session (some sid) → sid.text ≠ id) (last : ℤ) :
    HeldAt leaseNs (h ++ [x]) id peer last ↔ HeldAt leaseNs h id peer last := by
  constructor
  · intro hheld
    rcases heldAt_concat_split hheld with ⟨draws, sid, rfl, hsid⟩ | ⟨-, hrest⟩
    · exact absurd hsid (hopen sid rfl)
    · rcases hrest with ⟨-, hheld⟩ | ⟨hsome, -⟩
      · exact hheld
      · rw [hr] at hsome
        exact absurd hsome.symm (Option.some_ne_none _)
  · intro hheld
    have hnext := heldAt_concat hheld hx (by rw [hr]; nofun)
    rw [hr, Option.getD_none] at hnext
    exact hnext

private theorem renewal_eq {c : Call} {sid p : String} {now : ℤ} (hc : c.Checks sid p now)
    (id peer : String) (reply : Reply) : renewal id peer (c, reply) =
      if sid = id ∧ p = peer ∧ reply.accepted = true then some now else none := by
  rcases hc with rfl | rfl
  · rfl
  · rfl

private theorem ledgerStep_eq {c : Call} {sid p : String} {now : ℤ} (hc : c.Checks sid p now)
    (leaseNs : ℤ) (id : String) (entry : Option SessionRecord) : ledgerStep leaseNs id entry c =
      if sid = id ∧ accepts leaseNs p now entry = true then some ⟨p, now⟩ else entry := by
  rcases hc with rfl | rfl
  · rfl
  · rfl

theorem Call.Checks.ne_disconnect {c : Call} {sid p : String} {now : ℤ}
    (hc : c.Checks sid p now) (id peer : String) : c ≠ .disconnect id peer := by
  rcases hc with rfl | rfl
  · exact nofun
  · exact nofun

private theorem Call.Checks.reply_ne_session {r : SessionRegistry} {calls : List Call} {c : Call}
    {sid p : String} {now : ℤ} (hc : c.Checks sid p now) (s : SessionId) :
    r.replyAfter calls c ≠ .session (some s) := by
  rcases hc with rfl | rfl
  · exact nofun
  · exact nofun

/-- One more check keeps the ledger and the lease law together. -/
private theorem ledger_iff_heldAt_checks {r : SessionRegistry} {calls : List Call} {c : Call}
    {id peer sid p : String} {now : ℤ} (hc : c.Checks sid p now)
    (haccepted : sid = id → ((r.replyAfter calls c).accepted = true ↔
      accepts r.leaseNs p now (ledger r.leaseNs id calls) = true))
    (ih : ∀ last, ledger r.leaseNs id calls = some ⟨peer, last⟩ ↔
      HeldAt r.leaseNs (r.history calls) id peer last) (last : ℤ) :
    ledgerStep r.leaseNs id (ledger r.leaseNs id calls) c = some ⟨peer, last⟩ ↔
      HeldAt r.leaseNs (r.history calls ++ [(c, r.replyAfter calls c)]) id peer last := by
  have hdis : c ≠ .disconnect id peer := hc.ne_disconnect id peer
  have hopen : ∀ s, r.replyAfter calls c = .session (some s) → s.text ≠ id := fun s hs =>
    absurd hs (hc.reply_ne_session s)
  rw [ledgerStep_eq hc]
  by_cases hlive : sid = id ∧ accepts r.leaseNs p now (ledger r.leaseNs id calls) = true
  · obtain ⟨hsid, hentry⟩ := hlive
    rw [if_pos ⟨hsid, hentry⟩]
    have hok := (haccepted hsid).mpr hentry
    cases hl : ledger r.leaseNs id calls with
    | none =>
      rw [hl] at hentry
      exact absurd hentry Bool.false_ne_true
    | some e =>
      rw [hl, accepts, Bool.and_eq_true, decide_eq_true_eq, decide_eq_true_eq] at hentry
      by_cases hpeer : p = peer
      · have hr : renewal id peer (c, r.replyAfter calls c) = some now := by
          rw [renewal_eq hc, if_pos ⟨hsid, hpeer, hok⟩]
        have hbefore : HeldAt r.leaseNs (r.history calls) id peer e.lastHeartbeat := by
          rw [← ih, hl, ← hpeer, ← hentry.1]
        have hnext := heldAt_concat hbefore hdis fun t ht => by
          rw [hr] at ht
          obtain rfl := Option.some.inj ht
          exact hentry.2
        rw [hr, Option.getD_some] at hnext
        constructor
        · intro heq
          obtain rfl : now = last := by simpa [hpeer] using heq
          exact hnext
        · intro hheld
          rcases heldAt_concat_split hheld with ⟨draws, s, hx, -⟩ | ⟨-, hrest⟩
          · exact absurd (congrArg Prod.snd hx) (hc.reply_ne_session s)
          · rcases hrest with ⟨hnone, -⟩ | ⟨hsome, -⟩
            · rw [hr] at hnone
              exact absurd hnone (Option.some_ne_none _)
            · rw [hr] at hsome
              obtain rfl := Option.some.inj hsome
              rw [hpeer]
      · have hr : renewal id peer (c, r.replyAfter calls c) = none := by
          rw [renewal_eq hc, if_neg fun h => hpeer h.2.1]
        rw [heldAt_concat_quiet hr hdis hopen, ← ih, hl]
        constructor
        · intro heq
          exact absurd (congrArg SessionRecord.peer (Option.some.inj heq)) hpeer
        · intro heq
          have := congrArg SessionRecord.peer (Option.some.inj heq)
          exact absurd (hentry.1.symm.trans this) hpeer
  · have hr : renewal id peer (c, r.replyAfter calls c) = none := by
      rw [renewal_eq hc, if_neg]
      rintro ⟨hsid, -, hok⟩
      exact hlive ⟨hsid, (haccepted hsid).mp hok⟩
    rw [if_neg hlive, heldAt_concat_quiet hr hdis hopen, ih]

theorem WellTimed.left {xs ys : List Call} (h : WellTimed (xs ++ ys)) : WellTimed xs :=
  (List.pairwise_append.mp h).1

theorem FreshIds.left {xs ys : List Call} (h : FreshIds (xs ++ ys)) : FreshIds xs := by
  rw [FreshIds, List.filterMap_append] at h
  exact (List.nodup_append.mp h).1

/-- With fresh draws every connect in a run is answered with its first draw. -/
theorem drawsFree_after {r : SessionRegistry} {calls rest : List Call}
    (hfresh : FreshIds (calls ++ rest)) (hfree : DrawsFree r (calls ++ rest)) :
    DrawsFree (r.after calls) rest := by
  induction calls generalizing r with
  | nil => exact hfree
  | cons c calls ih => exact ih hfresh.tail (drawsFree_step hfresh hfree)

/-- An issued id was the first draw of the connect that returned it. -/
theorem firstDraw_of_mem_history {r : SessionRegistry} {calls : List Call}
    (hfresh : FreshIds calls) (hfree : DrawsFree r calls) {c : Call} {sid : SessionId}
    (h : (c, Reply.session (some sid)) ∈ r.history calls) :
    sid.text ∈ calls.filterMap Call.firstDraw := by
  induction calls generalizing r with
  | nil => exact absurd h List.not_mem_nil
  | cons x calls ih =>
    rcases List.mem_cons.mp h with heq | hmem
    · have hreply : (r.step x).2 = .session (some sid) := (congrArg Prod.snd heq).symm
      rw [List.filterMap_cons_some (step_session hfree hreply)]
      exact List.mem_cons_self ..
    · have hin := ih hfresh.tail (drawsFree_step hfresh hfree) hmem
      rw [← List.singleton_append, List.filterMap_append]
      exact List.mem_append_right _ hin

private theorem closedEntry_eq_some {peer : String} {entry : Option SessionRecord}
    {e : SessionRecord} : closedEntry peer entry = some e ↔ entry = some e ∧ e.peer ≠ peer := by
  cases entry with
  | none =>
    constructor
    · intro h
      cases h
    · rintro ⟨h, -⟩
      cases h
  | some x =>
    rw [closedEntry]
    split
    · rename_i hne
      constructor
      · intro h
        obtain rfl := Option.some.inj h
        exact ⟨rfl, hne⟩
      · exact And.left
    · rename_i heq
      constructor
      · intro h
        cases h
      · rintro ⟨h, hne⟩
        obtain rfl := Option.some.inj h
        exact absurd hne heq

/-- A connect answered with a fresh id keeps the ledger and the lease law together. -/
private theorem ledger_iff_heldAt_connect {leaseNs : ℤ} {h : List (Call × Reply)}
    {entry : Option SessionRecord} {id peer p : String} {d : SessionId} {ds : List SessionId}
    {now : ℤ} (hnew : d.text = id → ∀ last, ¬ HeldAt leaseNs h id peer last)
    (ih : ∀ last, entry = some ⟨peer, last⟩ ↔ HeldAt leaseNs h id peer last) (last : ℤ) :
    ledgerStep leaseNs id entry (.connect p (d :: ds) now) = some ⟨peer, last⟩ ↔
      HeldAt leaseNs (h ++ [(.connect p (d :: ds) now, .session (some d))]) id peer last := by
  rw [ledgerStep]
  by_cases heq : d.text = id
  · rw [if_pos heq]
    constructor
    · intro hentry
      obtain ⟨rfl, rfl⟩ : p = peer ∧ now = last := by simpa using hentry
      exact ⟨h, d :: ds, now, d, [], rfl, heq, List.not_mem_nil, List.isChain_singleton _, rfl⟩
    · intro hheld
      rcases heldAt_concat_split hheld with ⟨draws, s, hx, -⟩ | ⟨-, hrest⟩
      · obtain ⟨rfl, -, rfl⟩ : p = peer ∧ d :: ds = draws ∧ now = last := by
          simpa using congrArg Prod.fst hx
        rfl
      · rcases hrest with ⟨-, hheld⟩ | ⟨hsome, -⟩
        · exact absurd hheld (hnew heq last)
        · exact absurd hsome (by simp [renewal])
  · rw [if_neg heq]
    refine (ih last).trans (heldAt_concat_quiet rfl ?_ ?_ last).symm
    · exact nofun
    · intro sid hsid
      simp only [Reply.session.injEq, Option.some.injEq] at hsid
      rw [← hsid]
      exact heq

/-- So does a disconnect. -/
private theorem ledger_iff_heldAt_disconnect {leaseNs : ℤ} {h : List (Call × Reply)}
    {entry : Option SessionRecord} {id peer sid p : String} {s : GrpcStatus}
    (ih : ∀ last, entry = some ⟨peer, last⟩ ↔ HeldAt leaseNs h id peer last) (last : ℤ) :
    ledgerStep leaseNs id entry (.disconnect sid p) = some ⟨peer, last⟩ ↔
      HeldAt leaseNs (h ++ [(.disconnect sid p, .status s)]) id peer last := by
  rw [ledgerStep]
  by_cases heq : sid = id ∧ p = peer
  · obtain ⟨rfl, rfl⟩ := heq
    rw [if_pos rfl, closedEntry_eq_some]
    constructor
    · rintro ⟨-, hpeer⟩
      exact absurd rfl hpeer
    · intro hheld
      rcases heldAt_concat_split hheld with ⟨draws, s, hx, -⟩ | ⟨hdis, -⟩
      · cases congrArg Prod.fst hx
      · exact absurd rfl hdis
  · have hother : Call.disconnect sid p ≠ .disconnect id peer := fun h => by
      injection h with hsid hp
      exact heq ⟨hsid, hp⟩
    have hsame : (if sid = id then closedEntry p entry else entry) = some ⟨peer, last⟩ ↔
        entry = some ⟨peer, last⟩ := by
      split
      · rename_i hsid
        rw [closedEntry_eq_some]
        exact and_iff_left fun hp => heq ⟨hsid, hp.symm⟩
      · rfl
    rw [hsame]
    refine (ih last).trans (heldAt_concat_quiet rfl hother ?_ last).symm
    exact nofun

/-- The ledger's entry is the lease law in executable form. -/
theorem ledger_iff_heldAt {r : SessionRegistry} (hr : Unused r) {calls : List Call}
    {id peer : String} (hid : id ≠ "") (htimed : WellTimed calls) (hfresh : FreshIds calls)
    (last : ℤ) : ledger r.leaseNs id calls = some ⟨peer, last⟩ ↔
      HeldAt r.leaseNs (r.history calls) id peer last := by
  induction calls using List.reverseRecOn generalizing last with
  | nil =>
    refine ⟨nofun, ?_⟩
    rintro ⟨before, draws, opened, sid, since, hh, -⟩
    exact absurd hh.symm (List.append_ne_nil_of_right_ne_nil _ (List.cons_ne_nil _ _))
  | append_singleton calls c ih =>
    have ih := ih htimed.left hfresh.left
    rw [ledger, List.foldl_append, ← ledger, history_concat]
    simp only [List.foldl_cons, List.foldl_nil]
    cases c with
    | connect p draws now =>
      have hreply : r.replyAfter calls (.connect p draws now) = .session draws.head? :=
        step_connect_of_drawsFree (drawsFree_after hfresh fun _ _ d _ => hr d)
      rw [hreply]
      cases draws with
      | nil =>
        refine (ih last).trans (heldAt_concat_quiet rfl ?_ ?_ last).symm
        · exact nofun
        · exact nofun
      | cons d ds =>
        refine ledger_iff_heldAt_connect (fun heq last hheld => ?_) ih last
        -- the id would have been issued twice
        obtain ⟨before, draws, opened, sid, since, hh, hsid, -⟩ := hheld
        have hissued := firstDraw_of_mem_history hfresh.left (fun _ _ d _ => hr d)
          (hh ▸ List.mem_append_right _ (List.mem_cons_self ..))
        rw [FreshIds, List.filterMap_append, List.nodup_append] at hfresh
        exact absurd (hsid.trans heq.symm) (hfresh.2.2 _ hissued _ (List.mem_cons_self ..))
    | heartbeat sid p now =>
      refine ledger_iff_heldAt_checks (Or.inl rfl) (fun hsid => ?_) ih last
      subst hsid
      exact accepted_iff_ledger hr hid (Or.inl rfl) htimed hfresh.left
    | business sid p now =>
      refine ledger_iff_heldAt_checks (Or.inr rfl) (fun hsid => ?_) ih last
      subst hsid
      exact accepted_iff_ledger hr hid (Or.inr rfl) htimed hfresh.left
    | disconnect sid p => exact ledger_iff_heldAt_disconnect ih last
    | sweep now =>
      refine (ih last).trans (heldAt_concat_quiet rfl ?_ ?_ last).symm
      · exact nofun
      · exact nofun

/-- The run with its sweeps deleted. -/
def withoutSweeps (calls : List Call) : List Call :=
  calls.filter fun c => match c with
    | .sweep _ => false
    | _ => true

private theorem ledger_withoutSweeps (leaseNs : ℤ) (id : String) (calls : List Call) :
    ledger leaseNs id (withoutSweeps calls) = ledger leaseNs id calls := by
  rw [ledger, ledger, withoutSweeps, List.foldl_filter]
  apply congrArg (fun f => calls.foldl f none)
  ext entry c
  cases c <;> rfl

private theorem firstDraws_withoutSweeps (calls : List Call) :
    (withoutSweeps calls).filterMap Call.firstDraw = calls.filterMap Call.firstDraw := by
  rw [withoutSweeps, List.filterMap_filter]
  apply List.filterMap_congr
  intro c _
  cases c <;> rfl

theorem accepts_mono {leaseNs s t : ℤ} {peer : String} {entry : Option SessionRecord}
    (hle : s ≤ t) (h : accepts leaseNs peer t entry = true) :
    accepts leaseNs peer s entry = true := by
  cases entry with
  | none => exact h
  | some e =>
    rw [accepts, Bool.and_eq_true, decide_eq_true_eq, decide_eq_true_eq] at h ⊢
    exact ⟨h.1, by omega⟩

/-- Every check of the peer still to come is refused by the ledger's entry. -/
def Refused (leaseNs : ℤ) (peer : String) (entry : Option SessionRecord) (rest : List Call) :
    Prop := ∀ c ∈ rest, ∀ t ∈ c.lockReading, ¬ accepts leaseNs peer t entry = true

theorem refused_of_wellTimed {leaseNs now : ℤ} {peer : String} {entry : Option SessionRecord}
    {c : Call} {rest : List Call} (htimed : WellTimed (c :: rest)) (hc : c.reading = some now)
    (h : ¬ accepts leaseNs peer now entry = true) : Refused leaseNs peer entry rest :=
  fun x hx t ht hacc =>
    h (accepts_mono ((List.pairwise_cons.mp htimed).1 x hx now hc t ht) hacc)

/-- Without a new connect of the session, refusal is for good. -/
theorem refused_step {leaseNs : ℤ} {id peer : String} {entry : Option SessionRecord} {c : Call}
    {rest : List Call} (hdraw : c.firstDraw ≠ some id)
    (h : Refused leaseNs peer entry (c :: rest)) :
    Refused leaseNs peer (ledgerStep leaseNs id entry c) rest := by
  have hrest : Refused leaseNs peer entry rest := fun x hx => h x (List.mem_cons_of_mem _ hx)
  have hchecks {sid p : String} {now : ℤ} (hc : c.Checks sid p now) :
      Refused leaseNs peer (ledgerStep leaseNs id entry c) rest := by
    rw [ledgerStep_eq hc]
    split
    · rename_i hlive
      intro x _ t _ hacc
      rw [accepts, Bool.and_eq_true, decide_eq_true_eq] at hacc
      have hp : p = peer := hacc.1
      exact h c (List.mem_cons_self ..) now hc.lockReading (hp ▸ hlive.2)
    · exact hrest
  cases c with
  | connect p draws now =>
    cases draws with
    | nil => exact hrest
    | cons d ds =>
      rw [ledgerStep, if_neg fun heq => hdraw (congrArg some heq)]
      exact hrest
  | heartbeat sid p now => exact hchecks (Or.inl rfl)
  | business sid p now => exact hchecks (Or.inr rfl)
  | disconnect sid p =>
    rw [ledgerStep]
    split
    · cases entry with
      | none => exact hrest
      | some e =>
        rw [closedEntry]
        split
        · exact hrest
        · intro x _ t _ hacc
          exact Bool.noConfusion hacc
    · exact hrest
  | sweep now => exact hrest

theorem refused_foldl {leaseNs : ℤ} {id peer : String} {entry : Option SessionRecord}
    {calls rest : List Call} (hdraws : id ∉ calls.filterMap Call.firstDraw)
    (h : Refused leaseNs peer entry (calls ++ rest)) :
    Refused leaseNs peer (calls.foldl (ledgerStep leaseNs id) entry) rest := by
  induction calls generalizing entry with
  | nil => exact h
  | cons c calls ih =>
    have hc : c.firstDraw ≠ some id := fun hsome => hdraws <| by
      rw [List.filterMap_cons_some hsome]
      exact List.mem_cons_self ..
    refine ih (fun hmem => hdraws ?_) (refused_step hc h)
    rw [← List.singleton_append, List.filterMap_append]
    exact List.mem_append_right _ hmem

/-- The lease is held exactly if the ledger's entry is live. -/
theorem leaseHeld_iff_ledger {r : SessionRegistry} (hr : Unused r) {calls : List Call}
    {id peer : String} {now : ℤ} (hid : id ≠ "") (htimed : WellTimed calls)
    (hfresh : FreshIds calls) : LeaseHeld r.leaseNs (r.history calls) id peer now ↔
      accepts r.leaseNs peer now (ledger r.leaseNs id calls) = true := by
  rw [leaseHeld_iff_heldAt]
  constructor
  · rintro ⟨last, hheld, hgap⟩
    rw [(ledger_iff_heldAt hr hid htimed hfresh last).mpr hheld, accepts, Bool.and_eq_true,
      decide_eq_true_eq, decide_eq_true_eq]
    exact ⟨rfl, hgap⟩
  · intro hacc
    cases hl : ledger r.leaseNs id calls with
    | none =>
      rw [hl] at hacc
      exact absurd hacc Bool.false_ne_true
    | some e =>
      rw [hl, accepts, Bool.and_eq_true, decide_eq_true_eq, decide_eq_true_eq] at hacc
      refine ⟨e.lastHeartbeat, ?_, hacc.2⟩
      rw [← ledger_iff_heldAt hr hid htimed hfresh, hl, ← hacc.1]

/-- After a refused check of an issued session every later check is refused. -/
theorem refused_ever_after {r : SessionRegistry} (hr : Unused r) {earlier later : List Call}
    {c₀ c : Call} {peer : String} {sid : SessionId} {s now : ℤ} {draws : List SessionId}
    {opened : ℤ} (hc₀ : c₀.Checks sid.text peer s) (hc : c.Checks sid.text peer now)
    (htimed : WellTimed (earlier ++ c₀ :: later ++ [c]))
    (hfresh : FreshIds (earlier ++ c₀ :: later))
    (hissued : (.connect peer draws opened, .session (some sid)) ∈ r.history earlier)
    (hrefused : (r.replyAfter earlier c₀).accepted = false) :
    (r.replyAfter (earlier ++ c₀ :: later) c).accepted = false := by
  have hsplit : WellTimed (earlier ++ [c₀] ++ (later ++ [c])) := by simpa using htimed
  have htail : WellTimed (c₀ :: (later ++ [c])) := by
    rw [List.append_assoc] at hsplit
    exact (List.pairwise_append.mp hsplit).2.1
  have hentry : ¬ accepts r.leaseNs peer s (ledger r.leaseNs sid.text earlier) = true := by
    rw [← accepted_iff_ledger hr sid.nonempty hc₀ hsplit.left hfresh.left, hrefused]
    exact Bool.false_ne_true
  have hstart : Refused r.leaseNs peer (ledger r.leaseNs sid.text earlier)
      (c₀ :: (later ++ [c])) := by
    intro x hx t ht
    rcases List.mem_cons.mp hx with rfl | hx
    · obtain rfl : s = t := Option.some.inj (hc₀.lockReading.symm.trans ht)
      exact hentry
    · exact refused_of_wellTimed htail hc₀.reading hentry x hx t ht
  have hdraws : sid.text ∉ (c₀ :: later).filterMap Call.firstDraw := by
    have hin := firstDraw_of_mem_history hfresh.left (fun _ _ d _ => hr d) hissued
    rw [FreshIds, List.filterMap_append, List.nodup_append] at hfresh
    exact fun hmem => hfresh.2.2 _ hin _ hmem rfl
  have hend := refused_foldl hdraws hstart c (List.mem_singleton.mpr rfl) now hc.lockReading
  apply Bool.eq_false_iff.mpr
  intro hacc
  apply hend
  rw [accepted_iff_ledger hr sid.nonempty hc htimed hfresh, ledger, List.foldl_append] at hacc
  exact hacc

/-- A check is accepted exactly if the lease is held; sweeps anywhere in the run change no
answer; and a session of which a check was refused is refused ever after. -/
theorem accepted_iff_leaseHeld {leaseTimeoutMs flagSessionLeaseMs : ℤ} {calls : List Call}
    {c : Call} {id peer : String} {now : ℤ} (hc : c.Checks id peer now)
    (htimed : WellTimed (calls ++ [c])) (hfresh : FreshIds calls) :
    (((make leaseTimeoutMs flagSessionLeaseMs).replyAfter calls c).accepted = true ↔
      LeaseHeld (make leaseTimeoutMs flagSessionLeaseMs).leaseNs
        ((make leaseTimeoutMs flagSessionLeaseMs).history calls) id peer now) ∧
    (∀ calls', withoutSweeps calls' = withoutSweeps calls → WellTimed (calls' ++ [c]) →
      ((make leaseTimeoutMs flagSessionLeaseMs).replyAfter calls' c).accepted =
        ((make leaseTimeoutMs flagSessionLeaseMs).replyAfter calls c).accepted) ∧
    (∀ earlier c₀ later s draws opened sid, calls = earlier ++ c₀ :: later →
      c₀.Checks id peer s →
      (.connect peer draws opened, .session (some sid)) ∈
        (make leaseTimeoutMs flagSessionLeaseMs).history earlier → sid.text = id →
      ((make leaseTimeoutMs flagSessionLeaseMs).replyAfter earlier c₀).accepted = false →
      ((make leaseTimeoutMs flagSessionLeaseMs).replyAfter calls c).accepted = false) := by
  have hr := unused_make leaseTimeoutMs flagSessionLeaseMs
  generalize make leaseTimeoutMs flagSessionLeaseMs = r at hr
  by_cases hid : id = ""
  · -- the empty id is refused by every registry and never issued
    have hrefused (xs : List Call) : (r.replyAfter xs c).accepted = false := by
      apply Bool.eq_false_iff.mpr
      intro hacc
      exact ((step_accepted (r.after xs) hc).mp hacc).1 hid
    refine ⟨?_, fun calls' _ _ => ?_, fun _ _ _ _ _ _ _ _ _ _ _ _ => hrefused calls⟩
    · rw [hrefused]
      refine ⟨fun h => absurd h Bool.false_ne_true, ?_⟩
      rintro ⟨before, draws, opened, sid, since, -, hsid, -⟩
      exact absurd (hsid.trans hid) sid.nonempty
    · rw [hrefused, hrefused]
  · have hledger := accepted_iff_ledger hr hid hc htimed hfresh
    refine ⟨?_, fun calls' hsweeps htimed' => ?_, ?_⟩
    · rw [hledger, leaseHeld_iff_ledger hr hid htimed.left hfresh]
    · have hfresh' : FreshIds calls' := by
        rw [FreshIds, ← firstDraws_withoutSweeps, hsweeps, firstDraws_withoutSweeps]
        exact hfresh
      have hledger' := accepted_iff_ledger hr hid hc htimed' hfresh'
      rw [← ledger_withoutSweeps, hsweeps, ledger_withoutSweeps] at hledger'
      exact Bool.eq_iff_iff.mpr (hledger'.trans hledger.symm)
    · rintro earlier c₀ later s draws opened sid rfl hc₀ hissued rfl hrefused
      exact refused_ever_after hr hc₀ hc htimed hfresh hissued hrefused

/-- A session that is renewed in time, swept in between and lapsed in the end. -/
def renewedRun : List Call :=
  [.connect "p" [randomSessionId 1 2] 0, .business "12" "p" 2000000000, .sweep 2000000001,
    .heartbeat "12" "q" 2000000002, .heartbeat "12" "p" 4000000000]

theorem accepted_iff_leaseHeld_renewedRun :
    ((make 3000 0).replyAfter renewedRun (.business "12" "p" 7000000000)).accepted = true ∧
      LeaseHeld (make 3000 0).leaseNs ((make 3000 0).history renewedRun) "12" "p" 7000000000 := by
  have hiff := (@accepted_iff_leaseHeld 3000 0 renewedRun _ "12" "p" 7000000000 (Or.inr rfl)
    (by decide) (by decide)).1
  exact ⟨by decide, hiff.mp (by decide)⟩

end SessionRegistry

end Evrp
