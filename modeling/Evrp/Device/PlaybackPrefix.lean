import Evrp.Lib.Attempt
import Evrp.Lib.StepSum
import Evrp.Sdk.CollectorTimeline
import Evrp.Device.PlaybackOutput

/-!
# Playback as a prefix of its batch

A playback may meet a device it cannot open, a write that fails and a stop at
any event. The writer attempts the records of an event's frame one by one, so
what reached the devices is always a prefix of the frames of the batch, and the
result says whether an attempt failed. The waits between the events add up the
positive steps of their times.
-/

namespace Evrp

open Word Attempt StepSum

namespace InputEventWriter

variable {env : Devices}

/-- Attempt one record. -/
def attempt (env : Devices) (w : InputEventWriter) (r : RawWrite) : Bool × InputEventWriter :=
  writeEvent env r.device r.record.type r.record.code r.record.value w

/-- An event and its reports are attempted up to the first failure. -/
theorem writeEventWithSync_eq_writeAll (fd : DeviceKind) (r : RawRecord)
    (w : InputEventWriter) :
    writeEventWithSync env fd r.type r.code r.value w =
      writeAll (attempt env) w (r.frame.map (RawWrite.mk fd)) := by
  unfold writeEventWithSync RawRecord.frame
  by_cases hsyn : r.type = ushort evSyn
  · rw [if_pos hsyn, List.map_singleton, writeAll_singleton, attempt]
    rcases writeEvent env fd r.type r.code r.value w with ⟨_ | _, w'⟩
    · rfl
    · simp only [if_true, hsyn, ne_eq, not_true_eq_false, if_false]
  · simp only [ne_eq, hsyn, not_false_eq_true, if_true, if_false, List.map_cons, List.map_append,
      List.map_nil]
    have hmt := needsMt_iff r
    by_cases hends : r.EndsContact
    · simp only [hmt.mpr hends, hends, if_true, List.map_cons, List.map_nil, List.cons_append,
        List.nil_append]
      rw [writeAll, writeAll, writeAll_singleton]
      rfl
    · simp only [hmt.not.mpr hends, hends, if_false, List.map_nil, List.nil_append]
      rw [writeAll, writeAll_singleton]
      rfl

theorem attempt_numbered (env : Devices) (w : InputEventWriter) (r : RawWrite) :
    (attempt env w r).1 = env.writeFd w.writes ∧ (attempt env w r).2.writes = w.writes + 1 :=
  ⟨rfl, rfl⟩

theorem attempt_part (env : Devices) (w : InputEventWriter) (r : RawWrite) :
    ∃ part, part <+: [r] ∧ (attempt env w r).2.written = w.written ++ part ∧
      ((attempt env w r).1 = true → part = [r]) := by
  simp only [attempt, writeEvent]
  split
  · exact ⟨[r], List.prefix_rfl, rfl, fun _ => rfl⟩
  · rename_i hfailed
    exact ⟨[], List.nil_prefix, (List.append_nil _).symm, fun h => absurd h hfailed⟩

theorem getFd_writes (env : Devices) (device : DeviceKind) (w : InputEventWriter) :
    (getFd env device w).2.writes = w.writes := by
  unfold getFd
  split_ifs
  · rfl
  · split
    · rfl
    · split <;> rfl

/-- A write of playback attempts the records it stands for, after it has looked its device up. -/
theorem write_eq_writeAll {w : InputEventWriter} (hw : Remembers env w) (r : RawWrite) :
    ∃ w', Remembers env w' ∧ w'.written = w.written ∧ w'.writes = w.writes ∧
      write env r.device r.record.type r.record.code r.record.value w =
        writeAll (attempt env) w' (env.played r) := by
  rw [write_eq, Devices.played]
  split
  · exact ⟨w, hw, rfl, rfl, rfl⟩
  · obtain ⟨hfd, hremembers, hwritten⟩ := getFd_spec env r.device hw
    refine ⟨(getFd env r.device w).2, hremembers, hwritten, getFd_writes env r.device w, ?_⟩
    rw [writeRaw, Devices.frame, ← isSome_fileOf]
    simp only [hfd]
    split
    · exact writeEventWithSync_eq_writeAll r.device r.record _
    · rfl

/-- What one write of playback puts out, and how it ends. -/
theorem write_spec {w : InputEventWriter} (hw : Remembers env w) (r : RawWrite) :
    let after := write env r.device r.record.type r.record.code r.record.value w
    Remembers env after.2 ∧ w.writes ≤ after.2.writes ∧
      (after.1 = true ↔ ∀ n, w.writes ≤ n → n < after.2.writes → env.writeFd n = true) ∧
      ∃ part, part <+: env.played r ∧ after.2.written = w.written ++ part ∧
        (after.1 = true → part = env.played r) := by
  obtain ⟨w', hremembers, hwritten, hwrites, heq⟩ := write_eq_writeAll hw r
  obtain ⟨hle, hiff⟩ :=
    writeAll_numbered writes env.writeFd (attempt_numbered env) w' (env.played r)
  have hpart := writeAll_prefix written (fun r => [r]) (attempt_part env) w' (env.played r)
  rw [List.flatMap_singleton', hwritten] at hpart
  rw [hwrites] at hle hiff
  simp only [heq]
  exact ⟨writeAll_invariant (fun _ _ h => h) hremembers _, hle, hiff, hpart⟩

end InputEventWriter

namespace LocalPlayback

open InputEventWriter

/-- The write of one event of the batch. -/
def writeInput (env : Devices) (w : InputEventWriter) (e : InputEvent) : Bool × InputEventWriter :=
  write env e.rawWrite.device e.rawWrite.record.type e.rawWrite.record.code
    e.rawWrite.record.value w

/-- The loop before the event after `e`, if its write succeeds. -/
def Loop.next (env : Devices) (i : ℕ) (l : Loop) (e : InputEvent) : Loop :=
  ⟨(writeInput env l.writer e).2, some e.timeUs, l.waitedUs + waitUs l.prevUs e, i, l.progress + 1⟩

theorem playEvents_cons (env : Devices) {stopRequested : ℕ → Bool} {i : ℕ}
    (hgo : stopRequested i = false) (e : InputEvent) (rest : List InputEvent) (l : Loop) :
    playEvents env stopRequested i (e :: rest) l =
      if (writeInput env l.writer e).1 then
        playEvents env stopRequested (i + 1) rest (l.next env i e)
      else (⟨2, "write event failed during playback"⟩, { l with
        writer := (writeInput env l.writer e).2
        prevUs := some e.timeUs
        waitedUs := l.waitedUs + waitUs l.prevUs e }) := by
  obtain ⟨ok, w, hwrite⟩ : ∃ ok w, writeInput env l.writer e = (ok, w) := ⟨_, _, rfl⟩
  have hwrite' : write env e.device (UInt16.ofNat e.type) (UInt16.ofNat e.code) e.value l.writer =
      (ok, w) := hwrite
  rw [playEvents, hgo, if_neg Bool.false_ne_true, hwrite', Loop.next, hwrite]
  cases ok <;> rfl

theorem playEvents_stopped (env : Devices) {stopRequested : ℕ → Bool} {i : ℕ}
    (hstop : stopRequested i = true) (e : InputEvent) (rest : List InputEvent) (l : Loop) :
    playEvents env stopRequested i (e :: rest) l = (⟨0, ""⟩, l) := by
  rw [playEvents, if_pos hstop]

/-- The attempts of a loop between two moments all succeeded. -/
def NoneFailed (env : Devices) (before after : InputEventWriter) : Prop :=
  ∀ n, before.writes ≤ n → n < after.writes → env.writeFd n = true

theorem NoneFailed.refl (env : Devices) (w : InputEventWriter) : NoneFailed env w w :=
  fun _ hle hlt => absurd hlt (Nat.not_lt.mpr hle)

/-- Behind attempts that succeeded only the later ones count. -/
theorem NoneFailed.iff_of_le {env : Devices} {before between after : InputEventWriter}
    (h : NoneFailed env before between) (hle : before.writes ≤ between.writes) :
    NoneFailed env between after ↔ NoneFailed env before after := by
  refine ⟨fun hafter n hn hlt => ?_, fun hall n hn hlt => hall n (hle.trans hn) hlt⟩
  by_cases hearly : n < between.writes
  · exact h n hn hearly
  · exact hafter n (Nat.not_lt.mp hearly) hlt

/-- What the loop puts out, and how it ends. -/
theorem playEvents_spec (env : Devices) (stopRequested : ℕ → Bool) (i : ℕ)
    (events : List InputEvent) {l : Loop} (hw : Remembers env l.writer) :
    let after := playEvents env stopRequested i events l
    l.writer.writes ≤ after.2.writer.writes ∧
      (after.1.code = 0 ↔ NoneFailed env l.writer after.2.writer) ∧
      (after.1.code = 0 ∨ after.1.code = 2) ∧
      ∃ part, part <+: (events.map InputEvent.rawWrite).flatMap env.played ∧
        after.2.writer.written = l.writer.written ++ part := by
  induction events generalizing i l with
  | nil =>
    exact ⟨Nat.le_refl _, iff_of_true rfl (NoneFailed.refl env _), Or.inl rfl, [],
      List.prefix_rfl, (List.append_nil _).symm⟩
  | cons e rest ih =>
    cases hstop : stopRequested i with
    | true =>
      rw [playEvents_stopped env hstop]
      exact ⟨Nat.le_refl _, iff_of_true rfl (NoneFailed.refl env _), Or.inl rfl, [],
        List.nil_prefix, (List.append_nil _).symm⟩
    | false =>
      obtain ⟨hremembers, hle, hiff, part, hpart, hwritten, hall⟩ := write_spec hw e.rawWrite
      rw [playEvents_cons env hstop, List.map_cons, List.flatMap_cons, writeInput]
      cases hok : (write env e.rawWrite.device e.rawWrite.record.type e.rawWrite.record.code
          e.rawWrite.record.value l.writer).1 with
      | true =>
        obtain ⟨hle', hcode, hcodes, part', hpart', hwritten'⟩ :=
          ih (i + 1) (l := l.next env i e) hremembers
        rw [if_pos rfl]
        have hfirst : NoneFailed env l.writer (l.next env i e).writer := hiff.mp hok
        refine ⟨hle.trans hle', hcode.trans (hfirst.iff_of_le hle), hcodes,
          env.played e.rawWrite ++ part', (List.prefix_append_right_inj _).mpr hpart', ?_⟩
        rw [hwritten', ← List.append_assoc, ← hall hok]
        exact congrArg (· ++ part') hwritten
      | false =>
        rw [if_neg Bool.false_ne_true]
        refine ⟨hle, ⟨fun h => absurd (show (2 : ℤ) = 0 from h) (by decide), fun h => ?_⟩,
          Or.inr rfl, part,
          hpart.trans (List.prefix_append _ _), hwritten⟩
        exact Bool.noConfusion (hok.symm.trans (hiff.mpr h))

/-- Every written event releases the semaphore once and moves the index by one. -/
theorem playEvents_progress (env : Devices) (stopRequested : ℕ → Bool) (i : ℕ)
    (events : List InputEvent) {l : Loop} (hindex : l.currentEventIndex + 1 = i)
    (hprogress : l.progress = i) :
    ((playEvents env stopRequested i events l).2.progress : ℤ) =
      (playEvents env stopRequested i events l).2.currentEventIndex + 1 := by
  have hhere : (l.progress : ℤ) = l.currentEventIndex + 1 := by omega
  induction events generalizing i l with
  | nil => exact hhere
  | cons e rest ih =>
    cases hstop : stopRequested i with
    | true =>
      rw [playEvents_stopped env hstop]
      exact hhere
    | false =>
      rw [playEvents_cons env hstop]
      split
      · have hnext : ((l.next env i e).progress : ℤ) = (l.next env i e).currentEventIndex + 1 := by
          simp only [Loop.next]
          omega
        refine ih (i + 1) ?_ ?_ hnext
        · simp only [Loop.next]
          omega
        · simp only [Loop.next]
          omega
      · exact hhere

/-- The total wait before each event whose writing is begun. -/
def waitsBefore (env : Devices) (stopRequested : ℕ → Bool) :
    ℕ → List InputEvent → Loop → List ℤ
  | _, [], _ => []
  | i, e :: rest, l =>
    if stopRequested i then []
    else
      (l.waitedUs + waitUs l.prevUs e) ::
        if (writeInput env l.writer e).1 then
          waitsBefore env stopRequested (i + 1) rest (l.next env i e)
        else []

/-- The waits of the loop are those of `waitsBefore`, one for each event it begins. -/
theorem waitsBefore_spec (env : Devices) (stopRequested : ℕ → Bool) (i : ℕ)
    (events : List InputEvent) (l : Loop) :
    let after := playEvents env stopRequested i events l
    let waits := waitsBefore env stopRequested i events l
    after.2.waitedUs = waits.getLast?.getD l.waitedUs ∧
      after.2.progress + (if after.1.code = 0 then 0 else 1) = l.progress + waits.length := by
  induction events generalizing i l with
  | nil => exact ⟨rfl, rfl⟩
  | cons e rest ih =>
    cases hstop : stopRequested i with
    | true =>
      rw [playEvents_stopped env hstop, waitsBefore, if_pos hstop]
      exact ⟨rfl, rfl⟩
    | false =>
      have hgo : ¬ stopRequested i = true := Bool.not_eq_true _ ▸ hstop
      rw [playEvents_cons env hstop, waitsBefore, if_neg hgo]
      cases hok : (writeInput env l.writer e).1 with
      | true =>
        obtain ⟨hwaited, hcount⟩ := ih (i + 1) (l.next env i e)
        simp only [if_true]
        refine ⟨?_, ?_⟩
        · rw [hwaited, List.getLast?_cons, Option.getD_some]
          rfl
        · have hnext : (l.next env i e).progress = l.progress + 1 := rfl
          rw [hcount, List.length_cons, hnext, Nat.add_right_comm, Nat.add_assoc]
      | false => exact ⟨rfl, rfl⟩

/-- The positive part of a step of 64-bit times. -/
def rise64 (a b : InputEvent) : ℤ := max 0 (wrap 64 (b.timeUs - a.timeUs))

theorem waitsBefore_eq (env : Devices) (stopRequested : ℕ → Bool) (i : ℕ)
    (events : List InputEvent) {l : Loop} (previous : Option InputEvent)
    (hprev : l.prevUs = previous.map InputEvent.timeUs) {j : ℕ} {w : ℤ}
    (hw : (waitsBefore env stopRequested i events l)[j]? = some w) :
    w = l.waitedUs + stepSum rise64 (previous.toList ++ events) (previous.toList.length + j) := by
  induction events generalizing i l previous j with
  | nil => cases hw
  | cons e rest ih =>
    -- the step from the previous event to this one
    have hstep : l.waitedUs + waitUs l.prevUs e = l.waitedUs +
        stepSum rise64 (previous.toList ++ e :: rest) previous.toList.length := by
      rw [hprev]
      cases previous with
      | none => rw [Option.toList_none, List.length_nil, stepSum_zero]; rfl
      | some a =>
        rw [Option.toList_some, List.length_singleton, List.singleton_append, stepSum_cons_cons,
          stepSum_zero, add_zero]
        rfl
    rw [waitsBefore] at hw
    split at hw
    · cases hw
    · cases j with
      | zero =>
        obtain rfl := Option.some.inj hw
        exact hstep
      | succ j =>
        rw [List.getElem?_cons_succ] at hw
        split at hw
        · rw [ih (i + 1) (l := l.next env i e) (some e) rfl hw, Loop.next, hstep,
            add_assoc]
          cases previous with
          | none => simp [Nat.add_comm 1]
          | some a => simp [Nat.add_comm 1]
        · cases hw

/-- The members of the playback object that playback reads and changes. -/
structure Player where
  cached : List InputEvent
  playing : Bool
  currentEventIndex : ℤ
  deriving DecidableEq

/-- What a call of playback leaves: its result, the object and the end of the loop. -/
structure Played where
  ok : Bool
  status : StatusCode
  player : Player
  loop : Loop

/-- A call of playback with the stores of each way out: without a recording there are none, and a
failed write and the end of the batch each take the flag back. -/
def Player.playback (env : Devices) (stopRequested : ℕ → Bool) (p : Player) : Played :=
  if p.cached.isEmpty then ⟨false, ⟨1, "no recording uploaded"⟩, p, .start⟩
  else
    let begun := { p with playing := true, currentEventIndex := -1 }
    match playEvents env stopRequested 0 begun.cached .start with
    | (status, l) =>
      let played := { begun with currentEventIndex := l.currentEventIndex }
      -- The loop has an error only where it was left over a failed write.
      if status.code ≠ 0 then ⟨false, status, { played with playing := false }, l⟩
      else ⟨true, status, { played with playing := false }, l⟩

theorem Player.playback_cons (env : Devices) (stopRequested : ℕ → Bool) (first : InputEvent)
    (rest : List InputEvent) (playing : Bool) (currentEventIndex : ℤ) :
    let after := playEvents env stopRequested 0 (first :: rest) .start
    Player.playback env stopRequested ⟨first :: rest, playing, currentEventIndex⟩ =
      ⟨after.1.code = 0, after.1, ⟨first :: rest, false, after.2.currentEventIndex⟩, after.2⟩ := by
  simp only [Player.playback, List.isEmpty_cons, Bool.false_eq_true, if_false]
  split
  · rename_i hfailed
    rw [decide_eq_false hfailed]
  · rename_i hdone
    rw [decide_eq_true (not_not.mp hdone)]

/-- The result of a call and what its loop leaves are those of the loop over the cached events. -/
theorem Player.playback_outcome (env : Devices) (stopRequested : ℕ → Bool) (p : Player) :
    let r := p.playback env stopRequested
    let outcome := LocalPlayback.playback env stopRequested p.cached
    r.ok = decide (outcome.1.code = 0) ∧ r.status = outcome.1 ∧ r.loop = outcome.2 ∧
      r.player.cached = p.cached := by
  obtain ⟨cached, playing, currentEventIndex⟩ := p
  cases cached with
  | nil => exact ⟨rfl, rfl, rfl, rfl⟩
  | cons first rest =>
    rw [Player.playback_cons]
    exact ⟨rfl, rfl, rfl, rfl⟩

/-- The 64-bit times of two successive events and their difference are exact. -/
structure StepFits (a b : InputEvent) : Prop where
  before : Fits64 a.micros
  after : Fits64 b.micros
  step : Fits64 (b.micros - a.micros)

theorem StepFits.rise64_eq {a b : InputEvent} (h : StepFits a b) :
    rise64 a b = rise InputEvent.micros a b := by
  have ha : a.timeUs = a.micros := a.timeUs_eq h.before
  have hb : b.timeUs = b.micros := b.timeUs_eq h.after
  rw [rise64, rise, ha, hb, wrap64_of_fits h.step]

theorem waitsBefore_start (env : Devices) (stopRequested : ℕ → Bool) (events : List InputEvent)
    {j : ℕ} {w : ℤ} (hw : (waitsBefore env stopRequested 0 events .start)[j]? = some w) :
    w = stepSum rise64 events j := by
  have heq := waitsBefore_eq env stopRequested 0 events (l := .start) none rfl hw
  rw [heq, Option.toList_none, List.nil_append, List.length_nil, Nat.zero_add]
  exact zero_add _

/-- The waits before the events begun: the positive steps so far, hence no less than the time
since the first event, and exactly that as long as no time falls. -/
theorem waits_of_fit (env : Devices) (stopRequested : ℕ → Bool) (first : InputEvent)
    (rest : List InputEvent) (hfits : (first :: rest).IsChain StepFits) :
    let waits := waitsBefore env stopRequested 0 (first :: rest) .start
    (∀ (i : ℕ) (w : ℤ) (x : InputEvent), waits[i]? = some w →
        (first :: rest)[i]? = some x →
          w = stepSum (rise InputEvent.micros) (first :: rest) i ∧ x.micros - first.micros ≤ w) ∧
      ((∀ (i : ℕ) (w : ℤ) (x : InputEvent), waits[i]? = some w → (first :: rest)[i]? = some x →
          w = x.micros - first.micros) ↔
        ((first :: rest).take waits.length).IsChain fun a b => a.micros ≤ b.micros) := by
  intro waits
  have hsum : ∀ (i : ℕ) (w : ℤ), waits[i]? = some w →
      w = stepSum (rise InputEvent.micros) (first :: rest) i := by
    intro i w hw
    rw [waitsBefore_start env stopRequested _ hw,
      stepSum_congr (hfits.imp fun _ _ h => h.rise64_eq)]
  refine ⟨fun i w x hw hx => ?_, ?_⟩
  · rw [hsum i w hw]
    exact ⟨rfl, le_stepSum_rise InputEvent.micros hx⟩
  · rw [← stepSum_rise_eq_iff InputEvent.micros first rest waits.length]
    constructor
    · intro h i x hi hx
      have hw : waits[i]? = some waits[i] := List.getElem?_eq_getElem hi
      rw [← hsum i _ hw, h i _ x hw hx]
    · intro h i w x hw hx
      obtain ⟨hi, -⟩ := List.getElem?_eq_some_iff.mp hw
      rw [hsum i w hw, h i x hi hx]

/-- Whatever devices open, writes fail and stops arrive, playback of a recording writes a prefix
of the frames of its events, reports whether a write failed, ends not playing, has released the
semaphore once for each event behind it, and has waited the positive steps of the times. -/
theorem playback_faithful_prefix (env : Devices) (stopRequested : ℕ → Bool) (p : Player) :
    let r := p.playback env stopRequested
    let waits := waitsBefore env stopRequested 0 p.cached .start
    (p.cached = [] → r.ok = false ∧ r.status.code = 1 ∧ r.player = p ∧ r.loop = .start) ∧
      ∀ first rest, p.cached = first :: rest →
        r.loop.writer.written <+: (p.cached.map InputEvent.rawWrite).flatMap env.played ∧
        (r.ok = true ∧ r.status.code = 0 ↔ ∀ n < r.loop.writer.writes, env.writeFd n = true) ∧
        (r.ok = false ∧ r.status.code = 2 ↔ ∃ n < r.loop.writer.writes, env.writeFd n = false) ∧
        r.player.playing = false ∧ r.player.cached = p.cached ∧
        (r.loop.progress : ℤ) = r.player.currentEventIndex + 1 ∧
        r.loop.waitedUs = waits.getLast?.getD 0 ∧
        r.loop.progress + (if r.ok then 0 else 1) = waits.length ∧
        (p.cached.IsChain StepFits →
          (∀ (i : ℕ) (w : ℤ) (x : InputEvent), waits[i]? = some w → p.cached[i]? = some x →
            w = stepSum (rise InputEvent.micros) p.cached i ∧ x.micros - first.micros ≤ w) ∧
          ((∀ (i : ℕ) (w : ℤ) (x : InputEvent), waits[i]? = some w → p.cached[i]? = some x →
              w = x.micros - first.micros) ↔
            (p.cached.take waits.length).IsChain fun a b => a.micros ≤ b.micros)) := by
  obtain ⟨cached, playing, currentEventIndex⟩ := p
  refine ⟨?_, ?_⟩
  · rintro rfl
    exact ⟨rfl, rfl, rfl, rfl⟩
  · rintro first rest rfl
    obtain ⟨-, hcode, hcodes, part, hpart, hwritten⟩ :=
      playEvents_spec env stopRequested 0 (first :: rest) (l := .start) (remembers_new env)
    obtain ⟨hwaited, hcount⟩ := waitsBefore_spec env stopRequested 0 (first :: rest) .start
    have hprogress := playEvents_progress env stopRequested 0 (first :: rest) (l := .start) rfl rfl
    have hnone : (playEvents env stopRequested 0 (first :: rest) .start).1.code = 0 ↔
        ∀ n < (playEvents env stopRequested 0 (first :: rest) .start).2.writer.writes,
          env.writeFd n = true :=
      hcode.trans ⟨fun h n hn => h n (Nat.zero_le n) hn, fun h n _ hn => h n hn⟩
    simp only [Player.playback_cons, decide_eq_true_eq, decide_eq_false_iff_not]
    refine ⟨?_, ?_, ?_, trivial, trivial, hprogress, hwaited, ?_,
      waits_of_fit env stopRequested first rest⟩
    · rw [hwritten]
      exact hpart
    · rw [and_self, hnone]
    · constructor
      · intro h
        by_contra hno
        refine h.1 (hnone.mpr fun n hn => ?_)
        rw [← Bool.not_eq_false]
        exact fun hfailed => hno ⟨n, hn, hfailed⟩
      · rintro ⟨n, hn, hfailed⟩
        have hne : (playEvents env stopRequested 0 (first :: rest) .start).1.code ≠ 0 := by
          intro h
          exact Bool.noConfusion (hfailed.symm.trans (hnone.mp h n hn))
        exact ⟨hne, hcodes.resolve_left hne⟩
    · rw [hcount]
      exact Nat.zero_add _

theorem keyTap_fits : keyTap.IsChain StepFits :=
  List.isChain_pair.mpr ⟨by decide, by decide, by decide⟩

theorem playback_faithful_prefix_keyTap :
    ∀ (i : ℕ) (w : ℤ) (x : InputEvent),
      (waitsBefore keyboardAndMouse (fun _ => false) 0 keyTap .start)[i]? = some w →
        keyTap[i]? = some x → w = x.micros - 0 := by
  obtain ⟨-, hplayed⟩ :=
    playback_faithful_prefix keyboardAndMouse (fun _ => false) ⟨keyTap, false, -1⟩
  obtain ⟨-, -, -, -, -, -, -, -, hwaits⟩ := hplayed _ _ rfl
  refine (hwaits keyTap_fits).2.mpr ?_
  decide

/-- Two events further apart than 64-bit microseconds can say. -/
def farApart : List InputEvent :=
  [⟨.keyboard, -9000000000000, 0, evKey, keyA, 1⟩, ⟨.keyboard, 9000000000000, 0, evKey, keyA, 0⟩]

/-- An empty recording is refused although no write failed, and leaves the index of the recording
played before; events too far apart are written without a wait. -/
theorem playback_of_empty_or_farApart :
    let r := Player.playback keyboardAndMouse (fun _ => false) ⟨[], false, 5⟩
    (r.loop.writer.writes = 0 ∧ r.ok = false ∧ r.status.code = 1 ∧
        (r.loop.progress : ℤ) ≠ r.player.currentEventIndex + 1) ∧
      waitsBefore keyboardAndMouse (fun _ => false) 0 farApart .start = [0, 0] ∧
      farApart.map InputEvent.micros = [-9000000000000000000, 9000000000000000000] := by
  decide

end LocalPlayback

end Evrp
