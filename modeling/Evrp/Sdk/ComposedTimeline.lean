import Evrp.Sdk.CollectorTimeline
import Evrp.Sdk.LuaEventComposer
import Mathlib.Order.Bounds.Basic

/-!
# The timeline of a composed recording

A recording may mix recorded lines with Lua lines. What each line contributes
does not depend on the lines before it; only its place does. The composer moves
every contribution as a whole: all recorded lines by one amount, and each Lua
batch so that it begins where everything before it has ended. The timeline is
moved once more at the end, to begin at zero.
-/

namespace Evrp

open Word

/-- Move an event along the timeline. -/
def InputEvent.shift (d : ℤ) (e : InputEvent) : InputEvent := setEventTimeUs e (e.micros + d)

/-- What a line contributes: a recorded event, or what its chunk collects. -/
inductive Piece where
  | recorded (device : DeviceKind) (line : EventLine)
  | lua (chunk : ℤ × List InputEvent)
  deriving DecidableEq, Repr

namespace Piece

/-- The events of a piece at the times it gives them itself. -/
def content : Piece → List InputEvent
  | recorded device line => [{
      device := device
      timeSec := line.deltaUs.tdiv 1000000
      timeUsec := line.deltaUs.tmod 1000000
      type := line.type
      code := line.code
      value := line.value }]
  | lua chunk => chunk.2

def isRecorded : Piece → Bool
  | recorded _ _ => true
  | lua _ => false

/-- The events of a piece that is moved as a whole. -/
def moved (piece : Piece) (d : ℤ) : List InputEvent := piece.content.map (InputEvent.shift d)

end Piece

/-- The times of some events. -/
def timesOf (events : List InputEvent) : Set ℤ := {t | ∃ e ∈ events, e.micros = t}

section Pieces

variable (lua : List Char → ℤ × List InputEvent)

/-- The piece of a line; empty lines and durations have none. -/
def pieceOf (line : List Char) : Option Piece :=
  let label := parseEventLabel line
  if line.isEmpty ∨ label = "leading".toList ∨ label = "trailing".toList then none
  else if toKind label = .unspecified then some (.lua (lua (cStr line)))
  else
    match parseEventLine line with
    | none => some (.lua (lua (cStr line)))
    | some fields => some (.recorded (toKind label) fields)

/-- The pieces of a text in line order. -/
def pieces (text : List Char) : List Piece := (Text.getLines text).filterMap (pieceOf lua)

/-- The amount by which a recorded line is moved. -/
def ComposerState.adjustUs (s : ComposerState) : ℤ :=
  if !s.sawFirstRecorded && s.hadLua && decide (0 < s.leadingDeltaUs) then s.leadingDeltaUs
  else s.recordedTimeAdjustUs

/-- The place of the next Lua batch. -/
def ComposerState.placementUs (s : ComposerState) : ℤ := max s.streamMaxUs s.fileAnchorUs

/-- The 64-bit sums that place a piece are exact. -/
def ComposerState.PlacesExactly (s : ComposerState) : Piece → Prop
  | .recorded _ line => Fits64 (line.deltaUs + s.adjustUs)
  | .lua chunk =>
    ∀ e ∈ chunk.2, Fits64 e.micros ∧ Fits64 (s.placementUs - vectorMinTimeUs chunk.2) ∧
      Fits64 (e.micros + (s.placementUs - vectorMinTimeUs chunk.2))

instance (s : ComposerState) : DecidablePred s.PlacesExactly
  | .recorded _ line => inferInstanceAs (Decidable (Fits64 (line.deltaUs + s.adjustUs)))
  | .lua chunk => inferInstanceAs (Decidable (∀ e ∈ chunk.2, _ ∧ _ ∧ _))

/-- No 64-bit sum of a composition overflows: neither those that place the pieces nor those that
move the whole timeline to zero at the end. -/
def NoOverflow : ComposerState → List (List Char) → Prop
  | s, [] => ∀ e ∈ s.events, Fits64 (e.micros - vectorMinTimeUs s.events)
  | s, line :: lines =>
    (∀ piece ∈ pieceOf lua line, s.PlacesExactly piece) ∧
      NoOverflow (composeLine lua s line).2 lines

instance decidableNoOverflow : ∀ (s : ComposerState) (lines : List (List Char)),
    Decidable (NoOverflow lua s lines)
  | s, [] =>
    inferInstanceAs (Decidable (∀ e ∈ s.events, Fits64 (e.micros - vectorMinTimeUs s.events)))
  | s, line :: lines =>
    have := decidableNoOverflow (composeLine lua s line).2 lines
    inferInstanceAs (Decidable ((∀ piece ∈ pieceOf lua line, s.PlacesExactly piece) ∧ _))

end Pieces

theorem micros_setEventTimeUs (e : InputEvent) (t : ℤ) : (setEventTimeUs e t).micros = t :=
  Int.tdiv_mul_add_tmod t 1000000

@[simp] theorem micros_shift (d : ℤ) (e : InputEvent) : (e.shift d).micros = e.micros + d :=
  micros_setEventTimeUs e _

@[simp] theorem shift_shift (d d' : ℤ) (e : InputEvent) :
    (e.shift d).shift d' = e.shift (d + d') := by
  rw [InputEvent.shift, micros_shift, Int.add_assoc]
  rfl

theorem timesOf_append (xs ys : List InputEvent) :
    timesOf (xs ++ ys) = timesOf xs ∪ timesOf ys := by
  ext t
  constructor
  · rintro ⟨e, he, rfl⟩
    exact (List.mem_append.mp he).imp (fun h => ⟨e, h, rfl⟩) fun h => ⟨e, h, rfl⟩
  · rintro (⟨e, he, rfl⟩ | ⟨e, he, rfl⟩)
    · exact ⟨e, List.mem_append_left _ he, rfl⟩
    · exact ⟨e, List.mem_append_right _ he, rfl⟩

/-- What a line does to the composer is decided by its piece. -/
theorem composeLine_cases (lua : List Char → ℤ × List InputEvent) (s : ComposerState)
    (line : List Char) :
    (pieceOf lua line = none ∧
        ∃ leading, composeLine lua s line = (0, { s with leadingDeltaUs := leading })) ∨
      (∃ device fields, pieceOf lua line = some (.recorded device fields) ∧
        composeLine lua s line = (0, composeRecorded s device fields)) ∨
      (pieceOf lua line = some (.lua (lua (cStr line))) ∧
        composeLine lua s line = composeLua lua s line) := by
  unfold pieceOf composeLine
  dsimp only
  by_cases hempty : line.isEmpty = true
  · rw [if_pos (Or.inl hempty), if_pos hempty]
    exact Or.inl ⟨rfl, s.leadingDeltaUs, rfl⟩
  rw [if_neg hempty]
  by_cases hleading : parseEventLabel line = "leading".toList
  · rw [if_pos (Or.inr (Or.inl hleading)), if_pos hleading]
    exact Or.inl ⟨rfl, _, rfl⟩
  rw [if_neg hleading]
  by_cases htrailing : parseEventLabel line = "trailing".toList
  · rw [if_pos (Or.inr (Or.inr htrailing)), if_pos htrailing]
    exact Or.inl ⟨rfl, s.leadingDeltaUs, rfl⟩
  rw [if_neg htrailing, if_neg (not_or.mpr ⟨hempty, not_or.mpr ⟨hleading, htrailing⟩⟩)]
  by_cases hkind : toKind (parseEventLabel line) = .unspecified
  · rw [if_pos hkind, if_pos hkind]
    exact Or.inr (Or.inr ⟨rfl, rfl⟩)
  rw [if_neg hkind, if_neg hkind]
  cases hparse : parseEventLine line with
  | none => exact Or.inr (Or.inr ⟨rfl, rfl⟩)
  | some fields => exact Or.inr (Or.inl ⟨_, fields, rfl, rfl⟩)

/-- The events carry their 64-bit times exactly. -/
def Exact (events : List InputEvent) : Prop := ∀ e ∈ events, Fits64 e.micros

theorem Exact.timeUs_eq {events : List InputEvent} (h : Exact events) {e : InputEvent}
    (he : e ∈ events) : e.timeUs = e.micros :=
  e.timeUs_eq (h e he)

theorem Exact.append {xs ys : List InputEvent} (hxs : Exact xs) (hys : Exact ys) :
    Exact (xs ++ ys) :=
  fun e he => (List.mem_append.mp he).elim (hxs e) (hys e)

/-- The least time of a batch. -/
theorem Exact.isLeast_vectorMinTimeUs {events : List InputEvent} (h : Exact events)
    (hne : events ≠ []) : IsLeast (timesOf events) (vectorMinTimeUs events) := by
  obtain ⟨e, he, hmin, hle⟩ := vectorMinTimeUs_spec hne
  rw [hmin, h.timeUs_eq he]
  refine ⟨⟨e, he, rfl⟩, ?_⟩
  rintro t ⟨x, hx, rfl⟩
  rw [← h.timeUs_eq he, ← h.timeUs_eq hx]
  exact hle x hx

private theorem isGreatest_foldl_max {events : List InputEvent} (h : Exact events) (m : ℤ) :
    IsGreatest (insert m (timesOf events)) (events.foldl (fun m e => max m e.timeUs) m) := by
  induction events generalizing m with
  | nil =>
    refine ⟨Set.mem_insert _ _, ?_⟩
    rintro t (rfl | ⟨e, he, -⟩)
    · exact le_refl _
    · exact absurd he List.not_mem_nil
  | cons a events ih =>
    obtain ⟨hmem, hupper⟩ := ih (fun e he => h e (List.mem_cons_of_mem _ he)) (max m a.timeUs)
    have ha : a.timeUs = a.micros := h.timeUs_eq (List.mem_cons_self ..)
    have hfirst := hupper (Set.mem_insert _ _)
    rw [List.foldl_cons]
    refine ⟨?_, ?_⟩
    · rcases hmem with hmax | ⟨e, he, hmax⟩
      · rcases max_choice m a.timeUs with hm | hm
        · exact Or.inl (hmax.trans hm)
        · exact Or.inr ⟨a, List.mem_cons_self .., (ha.symm.trans hm.symm).trans hmax.symm⟩
      · exact Or.inr ⟨e, List.mem_cons_of_mem _ he, hmax⟩
    · rintro t (rfl | ⟨e, he, rfl⟩)
      · exact (le_max_left _ _).trans hfirst
      · rcases List.mem_cons.mp he with rfl | he
        · rw [← ha]
          exact (le_max_right _ _).trans hfirst
        · exact hupper (Or.inr ⟨e, he, rfl⟩)

/-- The scan from zero finds the end of what was composed. -/
theorem Exact.isGreatest_vectorMaxTimeUs {events : List InputEvent} (h : Exact events) :
    IsGreatest (insert 0 (timesOf events)) (vectorMaxTimeUs events) :=
  isGreatest_foldl_max h 0

/-- A Lua batch that fits is moved as a whole. -/
theorem appendShiftedLuaBatch_eq (out : List InputEvent) {batch : List InputEvent} {placementUs : ℤ}
    (h : ∀ e ∈ batch, Fits64 e.micros ∧ Fits64 (placementUs - vectorMinTimeUs batch) ∧
      Fits64 (e.micros + (placementUs - vectorMinTimeUs batch))) :
    appendShiftedLuaBatch out batch placementUs =
      out ++ batch.map (InputEvent.shift (placementUs - vectorMinTimeUs batch)) := by
  unfold appendShiftedLuaBatch
  split
  · rename_i hempty
    rw [List.isEmpty_iff.mp hempty, List.map_nil, List.append_nil]
  · refine congrArg (out ++ ·) (List.map_congr_left fun e he => ?_)
    obtain ⟨hfits, hshift, hsum⟩ := h e he
    have htime : e.timeUs = e.micros := e.timeUs_eq hfits
    rw [wrap64_of_fits hshift, htime, wrap64_of_fits hsum]
    rfl

/-- The pieces in order, each moved by its amount. -/
def movedAll (placed : List (Piece × ℤ)) : List InputEvent :=
  placed.flatMap fun x => x.1.moved x.2

@[simp] theorem movedAll_append (xs ys : List (Piece × ℤ)) :
    movedAll (xs ++ ys) = movedAll xs ++ movedAll ys :=
  List.flatMap_append

theorem movedAll_singleton (piece : Piece) (d : ℤ) : movedAll [(piece, d)] = piece.moved d :=
  List.flatMap_singleton _ _

/-- The events begin exactly where the earlier ones end, and not before zero. -/
def Follows (earlier events : List InputEvent) : Prop :=
  ∃ start, IsGreatest (insert 0 (timesOf earlier)) start ∧ IsLeast (timesOf events) start

/-- Every Lua batch begins where everything before it ends. -/
def BatchesFollow (placed : List (Piece × ℤ)) : Prop :=
  ∀ before piece d after, placed = before ++ (piece, d) :: after → piece.isRecorded = false →
    piece.content ≠ [] → Follows (movedAll before) (piece.moved d)

/-- What holds of the composer behind the pieces it has placed. -/
structure Composed (placed : List (Piece × ℤ)) (s : ComposerState) : Prop where
  events : s.events = movedAll placed
  exact : Exact s.events
  ends : IsGreatest (insert 0 (timesOf s.events)) s.streamMaxUs
  anchored : s.fileAnchorUs ≤ s.streamMaxUs
  offset : ∀ x ∈ placed, x.1.isRecorded = true → x.2 = s.recordedTimeAdjustUs
  unrecorded : s.sawFirstRecorded = false → ∀ x ∈ placed, x.1.isRecorded = false
  batches : BatchesFollow placed

theorem BatchesFollow.snoc {placed : List (Piece × ℤ)} (h : BatchesFollow placed) {piece : Piece}
    {d : ℤ} (hlast : piece.isRecorded = false → piece.content ≠ [] →
      Follows (movedAll placed) (piece.moved d)) : BatchesFollow (placed ++ [(piece, d)]) := by
  intro before other d' after heq hlua hne
  rcases List.eq_nil_or_concat after with rfl | ⟨after, last, rfl⟩
  · obtain ⟨rfl, hsame⟩ := List.append_inj' heq rfl
    cases hsame
    exact hlast hlua hne
  · rw [List.concat_eq_append, ← List.cons_append, ← List.append_assoc] at heq
    obtain ⟨rfl, -⟩ := List.append_inj' heq rfl
    exact h before other d' after rfl hlua hne

theorem composed_initial : Composed [] .initial where
  events := rfl
  exact := fun e he => absurd he List.not_mem_nil
  ends := Exact.isGreatest_vectorMaxTimeUs fun e he => absurd he List.not_mem_nil
  anchored := le_refl _
  offset := fun x hx => absurd hx List.not_mem_nil
  unrecorded := fun _ x hx => absurd hx List.not_mem_nil
  batches := fun before _ _ after heq => absurd heq.symm (by simp)

/-- A duration only changes the leading time. -/
theorem Composed.leading {placed : List (Piece × ℤ)} {s : ComposerState} (h : Composed placed s)
    (leading : ℤ) : Composed placed { s with leadingDeltaUs := leading } :=
  { h with }

/-- A recorded line becomes the event of its fields. -/
theorem content_recorded (device : DeviceKind) (line : EventLine) :
    (Piece.recorded device line).content =
      [setEventTimeUs (recordFieldsToEvent device line.type line.code line.value) line.deltaUs] :=
  rfl

theorem moved_recorded (device : DeviceKind) (line : EventLine) (d : ℤ) :
    (Piece.recorded device line).moved d =
      [setEventTimeUs (recordFieldsToEvent device line.type line.code line.value)
        (line.deltaUs + d)] := by
  rw [Piece.moved, content_recorded, List.map_singleton, InputEvent.shift, micros_setEventTimeUs,
    setEventTimeUs_setEventTimeUs]

theorem timesOf_moved_recorded (device : DeviceKind) (line : EventLine) (d : ℤ) :
    timesOf ((Piece.recorded device line).moved d) = {line.deltaUs + d} := by
  rw [moved_recorded]
  ext t
  simp [timesOf, micros_setEventTimeUs, eq_comm]

theorem composeRecorded_eq {s : ComposerState} (device : DeviceKind) {line : EventLine}
    (hfits : Fits64 (line.deltaUs + s.adjustUs)) :
    composeRecorded s device line = { s with
      events := s.events ++ (Piece.recorded device line).moved s.adjustUs
      fileAnchorUs := line.deltaUs + s.adjustUs
      streamMaxUs := max s.streamMaxUs (line.deltaUs + s.adjustUs)
      recordedTimeAdjustUs := s.adjustUs
      sawFirstRecorded := true } := by
  have htime := setEventTimeUs_timeUs
    (recordFieldsToEvent device line.type line.code line.value) hfits
  have hadjust : (if !s.sawFirstRecorded && s.hadLua && decide (0 < s.leadingDeltaUs) then
      s.leadingDeltaUs else s.recordedTimeAdjustUs) = s.adjustUs := rfl
  rw [moved_recorded]
  unfold composeRecorded
  simp only [hadjust, wrap64_of_fits hfits, htime]

/-- Behind the first recorded line the amount does not change any more. -/
theorem Composed.offset_adjustUs {placed : List (Piece × ℤ)} {s : ComposerState}
    (h : Composed placed s) {x : Piece × ℤ} (hx : x ∈ placed) (hrecorded : x.1.isRecorded = true) :
    x.2 = s.adjustUs := by
  have hsaw : s.sawFirstRecorded = true := by
    rw [← Bool.not_eq_false]
    intro hunseen
    exact Bool.noConfusion (hrecorded.symm.trans (h.unrecorded hunseen x hx))
  have hadjust : s.adjustUs = s.recordedTimeAdjustUs := by
    rw [ComposerState.adjustUs, hsaw]
    rfl
  rw [hadjust, h.offset x hx hrecorded]

/-- A recorded line is moved by the amount that all recorded lines share. -/
theorem Composed.recorded {placed : List (Piece × ℤ)} {s : ComposerState} (h : Composed placed s)
    (device : DeviceKind) {line : EventLine} (hfits : Fits64 (line.deltaUs + s.adjustUs)) :
    Composed (placed ++ [(.recorded device line, s.adjustUs)])
      (composeRecorded s device line) := by
  rw [composeRecorded_eq device hfits]
  refine ⟨?_, ?_, ?_, ?_, ?_, fun hsaw => Bool.noConfusion hsaw, ?_⟩
  · rw [movedAll_append, movedAll_singleton, ← h.events]
  · refine h.exact.append fun e he => ?_
    rw [moved_recorded, List.mem_singleton] at he
    rwa [he, micros_setEventTimeUs]
  · simp only [timesOf_append, timesOf_moved_recorded]
    rw [Set.union_singleton, Set.insert_comm, max_comm]
    exact h.ends.insert _
  · exact le_max_right _ _
  · intro x hx hrecorded
    rcases List.mem_append.mp hx with hx | hx
    · exact h.offset_adjustUs hx hrecorded
    · rw [List.mem_singleton.mp hx]
  · exact h.batches.snoc fun hlua => Bool.noConfusion hlua

theorem Composed.placementUs_eq {placed : List (Piece × ℤ)} {s : ComposerState}
    (h : Composed placed s) : s.placementUs = s.streamMaxUs :=
  max_eq_left h.anchored

/-- A batch moved to a place has its least time there. -/
theorem isLeast_moved {batch : List InputEvent} (hexact : Exact batch) (hne : batch ≠ [])
    (placementUs : ℤ) :
    IsLeast (timesOf (batch.map (InputEvent.shift (placementUs - vectorMinTimeUs batch))))
      placementUs := by
  obtain ⟨⟨e, he, hmin⟩, hlower⟩ := hexact.isLeast_vectorMinTimeUs hne
  refine ⟨⟨_, List.mem_map_of_mem he, ?_⟩, ?_⟩
  · rw [micros_shift, hmin]
    omega
  · rintro t ⟨x, hx, rfl⟩
    obtain ⟨y, hy, rfl⟩ := List.mem_map.mp hx
    have hle := hlower ⟨y, hy, rfl⟩
    rw [micros_shift]
    omega

theorem composeLua_eq {lua : List Char → ℤ × List InputEvent} {s : ComposerState}
    {line : List Char} (hok : (lua (cStr line)).1 = 0)
    (hfits : s.PlacesExactly (.lua (lua (cStr line)))) :
    let events := s.events ++ (Piece.lua (lua (cStr line))).moved
      (s.placementUs - vectorMinTimeUs (lua (cStr line)).2)
    composeLua lua s line = (0, { s with
      events := events
      streamMaxUs := vectorMaxTimeUs events
      hadLua := true }) := by
  have hevents : appendShiftedLuaBatch s.events (lua (cStr line)).2
      (max s.streamMaxUs s.fileAnchorUs) = _ := appendShiftedLuaBatch_eq s.events hfits
  unfold composeLua
  rw [if_neg (not_not.mpr hok), hevents]
  rfl

/-- The events of a piece that is placed exactly carry their times exactly. -/
theorem exact_moved_lua {s : ComposerState} {chunk : ℤ × List InputEvent}
    (hfits : s.PlacesExactly (.lua chunk)) :
    Exact ((Piece.lua chunk).moved (s.placementUs - vectorMinTimeUs chunk.2)) := by
  intro e he
  obtain ⟨x, hx, rfl⟩ := List.mem_map.mp he
  rw [micros_shift]
  exact (hfits x hx).2.2

/-- A Lua batch is moved behind everything composed so far. -/
theorem Composed.lua {lua : List Char → ℤ × List InputEvent} {placed : List (Piece × ℤ)}
    {s : ComposerState} (h : Composed placed s) {line : List Char}
    (hok : (lua (cStr line)).1 = 0) (hfits : s.PlacesExactly (.lua (lua (cStr line)))) :
    ∃ t, composeLua lua s line = (0, t) ∧
      Composed (placed ++ [(.lua (lua (cStr line)),
        s.placementUs - vectorMinTimeUs (lua (cStr line)).2)]) t := by
  refine ⟨_, composeLua_eq hok hfits, ?_⟩
  have hexact := h.exact.append (exact_moved_lua hfits)
  refine ⟨?_, hexact, hexact.isGreatest_vectorMaxTimeUs, ?_, ?_, ?_, ?_⟩
  · rw [movedAll_append, movedAll_singleton, ← h.events]
  · refine h.anchored.trans (hexact.isGreatest_vectorMaxTimeUs.2 ?_)
    rw [timesOf_append]
    exact Set.insert_subset_insert Set.subset_union_left h.ends.1
  · intro x hx hrecorded
    rcases List.mem_append.mp hx with hx | hx
    · exact h.offset x hx hrecorded
    · rw [List.mem_singleton.mp hx] at hrecorded
      cases hrecorded
  · intro hunseen x hx
    rcases List.mem_append.mp hx with hx | hx
    · exact h.unrecorded hunseen x hx
    · rw [List.mem_singleton.mp hx]
      rfl
  · refine h.batches.snoc fun _ hne => ⟨s.streamMaxUs, h.events ▸ h.ends, ?_⟩
    rw [h.placementUs_eq]
    exact isLeast_moved (fun e he => (hfits e he).1) hne s.streamMaxUs

section Compose

variable {lua : List Char → ℤ × List InputEvent}

/-- Every line of a recording keeps the invariant and places its piece. -/
theorem Composed.composeLine {placed : List (Piece × ℤ)} {s : ComposerState}
    (h : Composed placed s) {line : List Char}
    (hok : ∀ chunk, pieceOf lua line = some (.lua chunk) → chunk.1 = 0)
    (hfits : ∀ piece ∈ pieceOf lua line, s.PlacesExactly piece) :
    ∃ next t, composeLine lua s line = (0, t) ∧
      next.map Prod.fst = (pieceOf lua line).toList ∧ Composed (placed ++ next) t := by
  rcases composeLine_cases lua s line with ⟨hnone, leading, heq⟩ | ⟨device, fields, hsome, heq⟩ |
    ⟨hsome, heq⟩
  · refine ⟨[], _, heq, ?_, ?_⟩
    · rw [hnone]
      rfl
    · rw [List.append_nil]
      exact h.leading leading
  · refine ⟨_, _, heq, ?_, h.recorded device (hfits _ hsome)⟩
    rw [hsome]
    rfl
  · obtain ⟨t, ht, hcomposed⟩ := h.lua (hok _ hsome) (hfits _ hsome)
    refine ⟨_, t, heq.trans ht, ?_, hcomposed⟩
    rw [hsome]
    rfl

/-- So does every run over the lines of a recording. -/
theorem Composed.composeLines {placed : List (Piece × ℤ)} {s : ComposerState}
    (h : Composed placed s) {lines : List (List Char)}
    (hok : ∀ chunk, Piece.lua chunk ∈ lines.filterMap (pieceOf lua) → chunk.1 = 0)
    (hfits : NoOverflow lua s lines) :
    ∃ next t, composeLines lua s lines = (0, t) ∧
      next.map Prod.fst = lines.filterMap (pieceOf lua) ∧ Composed (placed ++ next) t ∧
      ∀ e ∈ t.events, Fits64 (e.micros - vectorMinTimeUs t.events) := by
  induction lines generalizing placed s with
  | nil => exact ⟨[], s, rfl, rfl, (List.append_nil placed).symm ▸ h, hfits⟩
  | cons line lines ih =>
    have hcons : (line :: lines).filterMap (pieceOf lua) =
        (pieceOf lua line).toList ++ lines.filterMap (pieceOf lua) := by
      simp only [List.filterMap_eq_flatMap_toList, List.flatMap_cons]
    rw [hcons] at hok ⊢
    obtain ⟨next, t, hline, hnext, ht⟩ := h.composeLine (fun chunk hchunk =>
      hok chunk (List.mem_append_left _ (Option.mem_toList.mpr hchunk))) hfits.1
    have hrest := hfits.2
    rw [hline] at hrest
    obtain ⟨last, u, hlines, hlast, hu, hend⟩ :=
      ih ht (fun chunk hchunk => hok chunk (List.mem_append_right _ hchunk)) hrest
    refine ⟨next ++ last, u, (composeLines_cons lua hline lines).trans hlines, ?_, ?_, hend⟩
    · rw [List.map_append, hnext, hlast]
    · rw [← List.append_assoc]
      exact hu

end Compose

/-- The last step moves the whole timeline. -/
theorem normalizeTimelineToZero_eq {events : List InputEvent} (hexact : Exact events)
    (hfits : ∀ e ∈ events, Fits64 (e.micros - vectorMinTimeUs events)) :
    normalizeTimelineToZero events =
      events.map (InputEvent.shift (0 - vectorMinTimeUs events)) := by
  refine List.map_congr_left fun e he => ?_
  rw [hexact.timeUs_eq he, wrap64_of_fits (hfits e he), InputEvent.shift, zero_sub,
    Int.sub_eq_add_neg]

/-- A timeline moved to zero starts at zero and splits its times at the floor. -/
theorem normalized_spec {events : List InputEvent} (hexact : Exact events) (hne : events ≠ []) :
    let out := events.map (InputEvent.shift (0 - vectorMinTimeUs events))
    IsLeast (timesOf out) 0 ∧ ∀ e ∈ out, 0 ≤ e.timeUsec ∧ e.timeUsec < 1000000 := by
  intro out
  have hleast := isLeast_moved hexact hne 0
  refine ⟨hleast, fun e he => ?_⟩
  have hnonneg : 0 ≤ e.micros := hleast.2 ⟨e, he, rfl⟩
  obtain ⟨x, -, rfl⟩ := List.mem_map.mp he
  rw [micros_shift] at hnonneg
  rw [InputEvent.shift, setEventTimeUs_of_nonneg x hnonneg]
  exact ⟨Int.emod_nonneg _ (by decide), Int.emod_lt_of_pos _ (by decide)⟩

theorem map_shift_movedAll (m : ℤ) (placed : List (Piece × ℤ)) :
    (movedAll placed).map (InputEvent.shift (0 - m)) =
      movedAll (placed.map fun x => (x.1, x.2 - m)) := by
  simp only [movedAll, List.map_flatMap, List.flatMap_map, Piece.moved, List.map_map]
  refine List.flatMap_congr fun x _ => List.map_congr_left fun e _ => ?_
  rw [Function.comp_apply, shift_shift, zero_sub, Int.sub_eq_add_neg]

/-- The times of a moved batch are the times of the batch, all moved alike. -/
theorem map_micros_moved (piece : Piece) (d : ℤ) :
    (piece.moved d).map InputEvent.micros = piece.content.map fun e => e.micros + d := by
  rw [Piece.moved, List.map_map]
  exact List.map_congr_left fun e _ => micros_shift d e

theorem Follows.le {earlier events : List InputEvent} (h : Follows earlier events)
    {e x : InputEvent} (he : e ∈ earlier) (hx : x ∈ events) : e.micros ≤ x.micros := by
  obtain ⟨start, hgreatest, hleast⟩ := h
  exact (hgreatest.2 (Or.inr ⟨e, he, rfl⟩)).trans (hleast.2 ⟨x, hx, rfl⟩)

/-- A recording in which no Lua line fails and no 64-bit sum overflows is composed of its pieces in
line order. Each batch keeps its differences, the recorded events keep theirs, a batch begins
where everything before it ends, and the whole is moved to begin at zero. -/
theorem toEvents_composes_pieces (lua : List Char → ℤ × List InputEvent) (text : List Char)
    (htext : textLooksLikeRecordingFormat text = true)
    (hok : ∀ chunk, Piece.lua chunk ∈ pieces lua text → chunk.1 = 0)
    (hfits : NoOverflow lua .initial (Text.getLines text)) :
    ∃ (placed : List (Piece × ℤ)) (m : ℤ),
      placed.map Prod.fst = pieces lua text ∧
      (composeLines lua .initial (Text.getLines text)).2.events = movedAll placed ∧
      toEvents lua text = (0, movedAll (placed.map fun x => (x.1, x.2 - m))) ∧
      (∀ chunk d, (Piece.lua chunk, d) ∈ placed →
        ((Piece.lua chunk).moved (d - m)).map InputEvent.micros =
          chunk.2.map fun e => e.micros + (d - m)) ∧
      (∃ offset, ∀ device line d, (Piece.recorded device line, d) ∈ placed →
        ((Piece.recorded device line).moved (d - m)).map InputEvent.micros =
          [line.deltaUs + offset]) ∧
      (∀ before chunk d after, placed = before ++ (Piece.lua chunk, d) :: after →
        chunk.2 ≠ [] → Follows (movedAll before) ((Piece.lua chunk).moved d) ∧
          ∀ e ∈ movedAll before, ∀ x ∈ (Piece.lua chunk).moved d, e.micros ≤ x.micros) ∧
      ((toEvents lua text).2 ≠ [] → IsLeast (timesOf (toEvents lua text).2) 0) ∧
      ∀ e ∈ (toEvents lua text).2, 0 ≤ e.timeUsec ∧ e.timeUsec < 1000000 := by
  obtain ⟨placed, t, hrun, hpieces, hcomposed, hend⟩ := composed_initial.composeLines hok hfits
  rw [List.nil_append] at hcomposed
  have hnormal := normalizeTimelineToZero_eq hcomposed.exact hend
  have htoEvents : toEvents lua text =
      (0, t.events.map (InputEvent.shift (0 - vectorMinTimeUs t.events))) := by
    rw [toEvents, htext, hrun, ← hnormal]
    rfl
  refine ⟨placed, vectorMinTimeUs t.events, hpieces, ?_, ?_, fun chunk d _ => map_micros_moved _ _,
    ⟨t.recordedTimeAdjustUs - vectorMinTimeUs t.events, ?_⟩, ?_, ?_, ?_⟩
  · rw [hrun]
    exact hcomposed.events
  · rw [htoEvents, ← map_shift_movedAll, ← hcomposed.events]
  · intro device line d hd
    have hoffset : d = t.recordedTimeAdjustUs := hcomposed.offset _ hd rfl
    rw [map_micros_moved, hoffset, content_recorded]
    exact congrArg (fun t => [t + _]) (micros_setEventTimeUs _ _)
  · intro before chunk d after hsplit hne
    have hfollows := hcomposed.batches before _ d after hsplit rfl hne
    exact ⟨hfollows, fun e he x hx => hfollows.le he hx⟩
  · rw [htoEvents]
    intro hne
    exact (normalized_spec hcomposed.exact fun h => hne (by rw [h]; rfl)).1
  · rw [htoEvents]
    intro e he
    refine (normalized_spec hcomposed.exact fun h => ?_).2 e he
    rw [h] at he
    exact absurd he List.not_mem_nil

/-- An interpreter whose every line collects a press and a release. -/
def tapOnly (_ : List Char) : ℤ × List InputEvent :=
  (0, [⟨.keyboard, 0, 0, evKey, keyA, 1⟩, ⟨.keyboard, 0, 1, evKey, keyA, 0⟩])

/-- A Lua line between two recorded lines, the second of which is earlier. -/
def tapBetween : List Char :=
  "[mouse] 0.5 type=2 code=0 value=1\ntap()\n[mouse] -1.0 type=2 code=0 value=2".toList

theorem toEvents_composes_pieces_tapBetween :
    (toEvents tapOnly tapBetween).1 = 0 ∧
      IsLeast (timesOf (toEvents tapOnly tapBetween).2) 0 ∧
      (toEvents tapOnly tapBetween).2.map InputEvent.micros = [1000005, 1000005, 1000006, 0] := by
  have hpieces : pieces tapOnly tapBetween = [.recorded .mouse ⟨5, 2, 0, 1⟩,
      .lua (tapOnly []), .recorded .mouse ⟨-1000000, 2, 0, 2⟩] := by decide
  have hok : ∀ chunk, Piece.lua chunk ∈ pieces tapOnly tapBetween → chunk.1 = 0 := by
    intro chunk hchunk
    rw [hpieces] at hchunk
    have htap : chunk = tapOnly [] := by simpa using hchunk
    rw [htap]
    rfl
  obtain ⟨placed, m, -, -, hcomposed, -, -, -, hleast, -⟩ :=
    toEvents_composes_pieces tapOnly tapBetween (by decide) hok (by decide)
  refine ⟨by rw [hcomposed], hleast (by decide), by decide⟩

end Evrp
