import Mathlib.Data.List.Chain
import Mathlib.Data.List.Induction
import Evrp.Sdk.PlaybackEventCollector

/-!
# The timeline of collected events

Between two resets the collector holds one frame per raw write. Events of a
frame are a microsecond apart, and a frame starts one microsecond after the one
before it, later by the clock's gap between the two writes if that is positive.
A reset starts a new timeline at zero and forgets the clock.
-/

namespace Evrp

/-- The event without its time. -/
def InputEvent.untimed (e : InputEvent) : InputEvent := { e with timeSec := 0, timeUsec := 0 }

/-- The time of an event in microseconds. -/
def InputEvent.micros (e : InputEvent) : ℤ := e.timeSec * 1000000 + e.timeUsec

namespace PlaybackEventCollector

/-- A call on the collector; a raw write reads the clock once. -/
inductive Call where
  | writeRaw (write : RawWrite) (wall : ℤ)
  | clear
  | takeEvents
  deriving DecidableEq

def call (c : PlaybackEventCollector) : Call → PlaybackEventCollector
  | .writeRaw r wall =>
    (writeRaw (fun _ => wall) r.device r.record.type r.record.code r.record.value c).2
  | .clear => c.clear
  | .takeEvents => c.takeEvents.2

/-- The calls in order on a new collector. -/
def after (calls : List Call) : PlaybackEventCollector := calls.foldl call new

/-- The raw writes since the last reset, with the clock readings at their calls. -/
def sinceReset (calls : List Call) : List (RawWrite × ℤ) :=
  calls.foldl (fun pending c =>
    match c with
    | .writeRaw r wall => pending ++ [(r, wall)]
    | .clear => []
    | .takeEvents => []) []

/-- The events a raw write was expanded to. -/
structure CollectedFrame where
  write : RawWrite
  wall : ℤ
  events : List InputEvent

namespace CollectedFrame

/-- The events are the record of the write with its reports, for its device and a microsecond
apart. -/
structure IsFrame (f : CollectedFrame) : Prop where
  records : f.events.map InputEvent.untimed =
    f.write.record.frame.map fun r =>
      ⟨f.write.device, 0, 0, r.type.toNat, r.code.toNat, r.value⟩
  spaced : f.events.IsChain fun a b => b.micros = a.micros + 1

/-- The second frame starts a microsecond after the first, and the clock's gap later. -/
def Follows (f g : CollectedFrame) : Prop :=
  ∀ a ∈ f.events.getLast?, ∀ b ∈ g.events.head?,
    b.micros = a.micros + 1 + max 0 ((g.wall - f.wall).tdiv 1000)

theorem IsFrame.events_ne_nil {f : CollectedFrame} (h : f.IsFrame) : f.events ≠ [] := by
  intro hnil
  have hrecords := h.records
  rw [hnil, RawRecord.frame] at hrecords
  split at hrecords <;> cases hrecords

end CollectedFrame

/-- The event at a time of the timeline. -/
def timed (timelineUs : ℤ) (e : InputEvent) : InputEvent :=
  { e with timeSec := timelineUs.tdiv 1000000, timeUsec := timelineUs.tmod 1000000 }

theorem stamp_cons (t : ℤ) (e : InputEvent) (rest : List InputEvent) :
    stamp t (e :: rest) = (timed t e :: (stamp (t + 1) rest).1, (stamp (t + 1) rest).2) := rfl

theorem micros_timed (t : ℤ) (e : InputEvent) : (timed t e).micros = t :=
  Int.tdiv_mul_add_tmod t 1000000

theorem head_stamp {t : ℤ} {batch : List InputEvent} {e : InputEvent}
    (h : e ∈ (stamp t batch).1.head?) : e.micros = t := by
  cases batch with
  | nil => cases h
  | cons b rest =>
    rw [stamp_cons] at h
    obtain rfl := Option.some.inj h
    exact micros_timed t b

theorem untimed_stamp (t : ℤ) (batch : List InputEvent) :
    (stamp t batch).1.map InputEvent.untimed = batch.map InputEvent.untimed := by
  induction batch generalizing t with
  | nil => rfl
  | cons e rest ih =>
    rw [stamp_cons, List.map_cons, List.map_cons, ih]
    rfl

theorem spaced_stamp (t : ℤ) (batch : List InputEvent) :
    (stamp t batch).1.IsChain fun a b => b.micros = a.micros + 1 := by
  induction batch generalizing t with
  | nil => exact List.isChain_nil
  | cons e rest ih =>
    rw [stamp_cons, List.isChain_cons]
    refine ⟨fun b hb => ?_, ih (t + 1)⟩
    rw [head_stamp hb, micros_timed]

/-- The stamps are those from the given time up to the time returned, which follows the last. -/
theorem stamp_range {t : ℤ} (ht : 0 ≤ t) (batch : List InputEvent) :
    t ≤ (stamp t batch).2 ∧
      (∀ e ∈ (stamp t batch).1, t ≤ e.micros ∧ e.micros < (stamp t batch).2 ∧
        0 ≤ e.timeUsec ∧ e.timeUsec < 1000000) ∧
      ∀ e ∈ (stamp t batch).1.getLast?, (stamp t batch).2 = e.micros + 1 := by
  induction batch generalizing t with
  | nil => exact ⟨le_refl t, fun e he => absurd he List.not_mem_nil, fun e he => by cases he⟩
  | cons b rest ih =>
    obtain ⟨hle, hmem, hlast⟩ := ih (Int.le_add_one ht)
    have hmicros := micros_timed t b
    have hpos : (0 : ℤ) < 1000000 := by decide
    rw [stamp_cons]
    refine ⟨by omega, ?_, ?_⟩
    · intro e he
      rcases List.mem_cons.mp he with rfl | he
      · exact ⟨hmicros.ge, by omega, Int.tmod_nonneg _ ht, Int.tmod_lt_of_pos t hpos⟩
      · obtain ⟨hlow, hrest⟩ := hmem e he
        exact ⟨by omega, hrest⟩
    · intro e he
      cases rest with
      | nil =>
        obtain rfl := Option.some.inj he
        exact congrArg (· + 1) hmicros.symm
      | cons b' rest =>
        refine hlast e ?_
        rw [stamp_cons] at he ⊢
        exact he

theorem increasing_stamp {t : ℤ} (ht : 0 ≤ t) (batch : List InputEvent) :
    (stamp t batch).1.Pairwise fun a b => a.micros < b.micros := by
  induction batch generalizing t with
  | nil => exact List.Pairwise.nil
  | cons b rest ih =>
    rw [stamp_cons, List.pairwise_cons]
    refine ⟨fun e he => ?_, ih (Int.le_add_one ht)⟩
    obtain ⟨hlow, -⟩ := (stamp_range (Int.le_add_one ht) rest).2.1 e he
    rw [micros_timed]
    omega

/-- The collector between two calls, with the frames it has buffered since the last reset. -/
structure Timeline (c : PlaybackEventCollector) (frames : List CollectedFrame) : Prop where
  events_eq : c.events = frames.flatMap CollectedFrame.events
  isFrame : ∀ f ∈ frames, f.IsFrame
  follows : frames.IsChain CollectedFrame.Follows
  lastWall_eq : c.lastWall = frames.getLast?.map CollectedFrame.wall
  starts : frames = [] → c.timelineUs = 0
  resumes : ∀ f ∈ frames.getLast?, ∀ e ∈ f.events.getLast?, c.timelineUs = e.micros + 1
  nonneg : 0 ≤ c.timelineUs
  first : ∀ e ∈ c.events.head?, e.micros = 0
  increasing : c.events.Pairwise fun a b => a.micros < b.micros
  stamped : ∀ e ∈ c.events, e.micros < c.timelineUs ∧ 0 ≤ e.timeUsec ∧ e.timeUsec < 1000000

namespace Timeline

variable {c : PlaybackEventCollector} {frames : List CollectedFrame}

theorem reset {c : PlaybackEventCollector} (hevents : c.events = []) (htime : c.timelineUs = 0)
    (hwall : c.lastWall = none) : Timeline c [] where
  events_eq := hevents
  isFrame := fun f hf => absurd hf List.not_mem_nil
  follows := List.isChain_nil
  lastWall_eq := hwall
  starts := fun _ => htime
  resumes := fun f hf => by cases hf
  nonneg := htime.ge
  first := fun e he => by
    rw [hevents] at he
    cases he
  increasing := hevents ▸ List.Pairwise.nil
  stamped := fun e he => absurd (hevents ▸ he) List.not_mem_nil

/-- The time of the next event never goes back, and passes the clock's gap after a frame. -/
theorem nextTimelineUs_spec (h : Timeline c frames) (wall : ℤ) :
    c.timelineUs ≤ c.nextTimelineUs wall ∧ (frames = [] → c.nextTimelineUs wall = 0) ∧
      ∀ f ∈ frames.getLast?,
        c.nextTimelineUs wall = c.timelineUs + max 0 ((wall - f.wall).tdiv 1000) := by
  have hwall := h.lastWall_eq
  cases hlast : frames.getLast? with
  | none =>
    rw [hlast, Option.map_none] at hwall
    have hnext : c.nextTimelineUs wall = c.timelineUs := by rw [nextTimelineUs, hwall]
    rw [hnext]
    exact ⟨le_refl _, h.starts, fun f hf => by cases hf⟩
  | some f =>
    rw [hlast, Option.map_some] at hwall
    have hnext : c.nextTimelineUs wall =
        c.timelineUs + max 0 ((wall - f.wall).tdiv 1000) := by
      simp only [nextTimelineUs, hwall]
      split <;> omega
    refine ⟨by omega, ?_, ?_⟩
    · intro hnil
      rw [hnil] at hlast
      cases hlast
    · intro g hg
      obtain rfl := Option.some.inj hg
      exact hnext

/-- While nothing is buffered there is no frame. -/
theorem frames_eq_nil (h : Timeline c frames) (hempty : c.events = []) : frames = [] := by
  rw [h.events_eq, List.flatMap_eq_nil_iff] at hempty
  by_contra hframes
  obtain ⟨f, hf⟩ := List.exists_mem_of_ne_nil frames hframes
  exact (h.isFrame f hf).events_ne_nil (hempty f hf)

/-- A raw write buffers one more frame. -/
theorem append (h : Timeline c frames) {wall : ℤ} {r : RawWrite} {batch : List InputEvent}
    (hbatch : batch.map InputEvent.untimed =
      r.record.frame.map fun q => ⟨r.device, 0, 0, q.type.toNat, q.code.toNat, q.value⟩) :
    Timeline (appendBatchWithTimeline (fun _ => wall) batch c)
      (frames ++ [⟨r, wall, (stamp (c.nextTimelineUs wall) batch).1⟩]) := by
  obtain ⟨hle, hstart, hgap⟩ := h.nextTimelineUs_spec wall
  have hnonneg := h.nonneg.trans hle
  obtain ⟨hend, hmem, hlast⟩ := stamp_range hnonneg batch
  have hframe : CollectedFrame.IsFrame ⟨r, wall, (stamp (c.nextTimelineUs wall) batch).1⟩ :=
    ⟨(untimed_stamp _ batch).trans hbatch, spaced_stamp _ batch⟩
  have hne : batch.isEmpty = false := by
    rw [List.isEmpty_eq_false_iff]
    rintro rfl
    exact hframe.events_ne_nil rfl
  have hafter : appendBatchWithTimeline (fun _ => wall) batch c =
      ⟨c.events ++ (stamp (c.nextTimelineUs wall) batch).1, (stamp (c.nextTimelineUs wall) batch).2,
        some wall, c.clockReads + 1⟩ := by
    rw [appendBatchWithTimeline, hne, if_neg Bool.false_ne_true]
  rw [hafter]
  exact {
    events_eq := by rw [List.flatMap_append, ← h.events_eq, List.flatMap_singleton]
    isFrame := by
      intro f hf
      rcases List.mem_append.mp hf with hf | hf
      · exact h.isFrame f hf
      · rw [List.mem_singleton.mp hf]
        exact hframe
    follows := by
      refine List.isChain_append.mpr ⟨h.follows, List.isChain_singleton _, ?_⟩
      intro f hf g hg a ha b hb
      obtain rfl := Option.some.inj hg
      rw [head_stamp hb, hgap f hf, h.resumes f hf a ha]
    lastWall_eq := by rw [List.getLast?_concat, Option.map_some]
    starts := fun hnil => absurd hnil (List.append_ne_nil_of_right_ne_nil _ (List.cons_ne_nil _ _))
    resumes := by
      intro f hf e he
      rw [List.getLast?_concat] at hf
      obtain rfl := Option.some.inj hf
      exact hlast e he
    nonneg := hnonneg.trans hend
    first := by
      intro e he
      rw [List.head?_append] at he
      cases hhead : c.events.head? with
      | some first =>
        rw [hhead] at he
        exact h.first e (hhead.trans he)
      | none =>
        -- nothing is buffered, so this frame opens the timeline
        rw [hhead, Option.none_or] at he
        have hnil := h.frames_eq_nil (List.head?_eq_none_iff.mp hhead)
        rw [head_stamp he, hstart hnil]
    increasing := by
      refine List.pairwise_append.mpr ⟨h.increasing, increasing_stamp hnonneg batch, ?_⟩
      intro a ha b hb
      have hbefore := (h.stamped a ha).1
      have hafter := (hmem b hb).1
      omega
    stamped := by
      intro e he
      rcases List.mem_append.mp he with he | he
      · obtain ⟨hlt, hrange⟩ := h.stamped e he
        exact ⟨hlt.trans_le (hle.trans hend), hrange⟩
      · exact (hmem e he).2 }

end Timeline

theorem batch_untimed (r : RawWrite) (reports : List InputEvent)
    (hreports : reports = if r.record.type ≠ ushort evSyn then
      (if needsMt r.record.type r.record.code r.record.value then
        [push r.device (ushort evSyn) (ushort synMtReport) 0] else []) ++
          [push r.device (ushort evSyn) (ushort synReport) 0] else []) :
    (push r.device r.record.type r.record.code r.record.value :: reports).map InputEvent.untimed =
      r.record.frame.map fun q => ⟨r.device, 0, 0, q.type.toNat, q.code.toNat, q.value⟩ := by
  rw [hreports, RawRecord.frame]
  by_cases hsyn : r.record.type = ushort evSyn
  · rw [if_pos hsyn, if_neg (not_not_intro hsyn)]
    rfl
  · have hmt := needsMt_iff r.record
    rw [if_neg hsyn, if_pos hsyn]
    by_cases hends : r.record.EndsContact
    · rw [if_pos (hmt.mpr hends), if_pos hends]
      rfl
    · rw [if_neg (hmt.not.mpr hends), if_neg hends]
      rfl

theorem sinceReset_concat (calls : List Call) (r : RawWrite) (wall : ℤ) :
    sinceReset (calls ++ [.writeRaw r wall]) = sinceReset calls ++ [(r, wall)] := by
  rw [sinceReset, List.foldl_append]
  rfl

theorem after_concat (calls : List Call) (c : Call) :
    after (calls ++ [c]) = (after calls).call c := by
  rw [after, List.foldl_append]
  rfl

/-- After every sequence of calls the buffered events are the frames of the raw writes since the
last reset. -/
theorem exists_timeline (calls : List Call) :
    ∃ frames : List CollectedFrame,
      frames.map (fun f => (f.write, f.wall)) = sinceReset calls ∧
      Timeline (after calls) frames := by
  induction calls using List.reverseRecOn with
  | nil => exact ⟨[], rfl, Timeline.reset rfl rfl rfl⟩
  | append_singleton calls c ih =>
    obtain ⟨frames, hpending, h⟩ := ih
    rw [after_concat]
    cases c with
    | writeRaw r wall =>
      refine ⟨_, ?_, h.append (batch_untimed r _ rfl)⟩
      rw [sinceReset_concat, ← hpending, List.map_append]
      rfl
    | clear =>
      refine ⟨[], ?_, Timeline.reset rfl rfl rfl⟩
      rw [sinceReset, List.foldl_append]
      rfl
    | takeEvents =>
      refine ⟨[], ?_, Timeline.reset rfl rfl rfl⟩
      rw [sinceReset, List.foldl_append]
      rfl

/-- The timeline of the collector over every sequence of calls and clock readings. -/
theorem collected_timeline (calls : List Call) :
    ∃ frames : List CollectedFrame,
      frames.map (fun f => (f.write, f.wall)) = sinceReset calls ∧
      (after calls).events = frames.flatMap CollectedFrame.events ∧
      (∀ f ∈ frames, f.IsFrame) ∧ frames.IsChain CollectedFrame.Follows ∧
      (∀ e ∈ (after calls).events.head?, e.micros = 0) ∧
      ((after calls).events.Pairwise fun a b => a.micros < b.micros) ∧
      ∀ e ∈ (after calls).events, 0 ≤ e.timeUsec ∧ e.timeUsec < 1000000 := by
  obtain ⟨frames, hpending, h⟩ := exists_timeline calls
  exact ⟨frames, hpending, h.events_eq, h.isFrame, h.follows, h.first, h.increasing,
    fun e he => (h.stamped e he).2⟩

end PlaybackEventCollector

end Evrp
