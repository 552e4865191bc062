import Evrp.Sdk.Event
import Mathlib.Data.List.Chain

/-!
# Touch segments

A touch segment ends when the last contact is lifted. Contacts come from five
sources: the slots of the multi-touch protocol, the touch button and the tool
buttons. The break that closes a segment is not announced at once: if a
timestamp follows it is announced behind it, otherwise in front of whatever
follows. Slot numbers come from the device; a slot for which the vector cannot
be sized, or an access outside of it, is undefined and ends the run.
-/

namespace Evrp

/-- What is known of the contacts of one device. -/
structure TouchSegmentState where
  currentSlot : ℤ
  slotActive : List Bool
  activeMtCount : ℤ
  btnTouchActive : Bool
  toolFingerActive : Bool
  toolDoubletapActive : Bool
  toolTripletapActive : Bool
  toolQuadtapActive : Bool
  pendingSegmentBreak : Bool
  deriving DecidableEq, Repr

/-- The zero state. -/
def TouchSegmentState.initial : TouchSegmentState :=
  ⟨0, [], 0, false, false, false, false, false, false⟩

/-- Where a break is announced around one event. -/
structure TouchSegmentDecision where
  emitBreakBeforeEvent : Bool
  emitBreakAfterEvent : Bool
  deriving DecidableEq, Repr

def isTouchingNow (s : TouchSegmentState) : Bool :=
  let anyToolActive := s.toolFingerActive || s.toolDoubletapActive || s.toolTripletapActive ||
    s.toolQuadtapActive
  decide (0 < s.activeMtCount) || s.btnTouchActive || anyToolActive

/-- Give the vector an entry for a slot that is not negative; `slot + 1` has the width of `int`. -/
def coverSlot (slot : ℤ) (slotActive : List Bool) : Option (List Bool) :=
  if slotActive.length ≤ slot.toNat then
    if slot + 1 < 2 ^ 31 then
      some (slotActive ++ List.replicate ((slot + 1).toNat - slotActive.length) false)
    else none
  else some slotActive

/-- Select a slot. -/
def selectSlot (value : ℤ) (s : TouchSegmentState) : Option TouchSegmentState :=
  let s := { s with currentSlot := value }
  if 0 ≤ s.currentSlot then
    (coverSlot s.currentSlot s.slotActive).map fun slots => { s with slotActive := slots }
  else some s

/-- A tracking id in the current slot: -1 lifts the contact, any other id puts it down. -/
def trackContact (value : ℤ) (s : TouchSegmentState) : Option TouchSegmentState :=
  (coverSlot s.currentSlot s.slotActive).bind fun slots =>
    slots[s.currentSlot.toNat]?.map fun currentActive =>
      if value = -1 then
        if currentActive then
          { s with
            slotActive := slots.set s.currentSlot.toNat false
            activeMtCount := s.activeMtCount - 1 }
        else { s with slotActive := slots }
      else if currentActive then { s with slotActive := slots }
      else
        { s with
          slotActive := slots.set s.currentSlot.toNat true
          activeMtCount := s.activeMtCount + 1 }

/-- A button: the touch button or one of the tools. -/
def updateButton (code : ℕ) (value : ℤ) (s : TouchSegmentState) : TouchSegmentState :=
  let down := decide (value ≠ 0)
  let s := if code = btnTouch then { s with btnTouchActive := down } else s
  let s := if code = btnToolFinger then { s with toolFingerActive := down } else s
  let s := if code = btnToolDoubletap then { s with toolDoubletapActive := down } else s
  let s := if code = btnToolTripletap then { s with toolTripletapActive := down } else s
  if code = btnToolQuadtap then { s with toolQuadtapActive := down } else s

/-- The contacts after an event. -/
def updateContacts (ev : Event) (s : TouchSegmentState) : Option TouchSegmentState :=
  if ev.type = evAbs then
    if ev.code = absMtSlot then selectSlot ev.value s
    else if ev.code = absMtTrackingId ∧ 0 ≤ s.currentSlot then trackContact ev.value s
    else some s
  else if ev.type = evKey then some (updateButton ev.code ev.value s)
  else some s

/-- The contacts after an event, and whether it ended a segment. -/
def updateTouchSegmentState (ev : Event) (s : TouchSegmentState) :
    Option (Bool × TouchSegmentState) :=
  (updateContacts ev s).map fun t => (isTouchingNow s && !isTouchingNow t, t)

def Event.isMscTimestamp (ev : Event) : Bool := ev.type == evMsc && ev.code == mscTimestamp

/-- Process one event: a pending break is announced before it or, if it is a timestamp,
after it. -/
def processTouchEventForSegment (ev : Event) (s : TouchSegmentState) :
    Option (TouchSegmentDecision × TouchSegmentState) :=
  let before := s.pendingSegmentBreak && !ev.isMscTimestamp
  let s := if before then { s with pendingSegmentBreak := false } else s
  (updateTouchSegmentState ev s).map fun (segmentEnded, s) =>
    let s := if segmentEnded then { s with pendingSegmentBreak := true } else s
    let after := s.pendingSegmentBreak && ev.isMscTimestamp
    (⟨before, after⟩, if after then { s with pendingSegmentBreak := false } else s)

/-! ## One break for every segment -/

/-- One call: the states around it, its event and what it announced. -/
structure TouchCall where
  before : TouchSegmentState
  event : Event
  decision : TouchSegmentDecision
  after : TouchSegmentState
  deriving DecidableEq, Repr

/-- The call took the device from touching to not touching. -/
def TouchCall.endsSegment (c : TouchCall) : Bool :=
  isTouchingNow c.before && !isTouchingNow c.after

/-- The calls that process some events. -/
def touchCalls : TouchSegmentState → List Event → Option (List TouchCall)
  | _, [] => some []
  | s, ev :: evs =>
    (processTouchEventForSegment ev s).bind fun r =>
      (touchCalls r.2 evs).map fun calls => ⟨s, ev, r.1, r.2⟩ :: calls

/-- The state behind some calls. -/
def touchStateAfter (s : TouchSegmentState) (calls : List TouchCall) : TouchSegmentState :=
  (calls.getLast?.map TouchCall.after).getD s

theorem touchStateAfter_cons (s : TouchSegmentState) (c : TouchCall) (calls : List TouchCall) :
    touchStateAfter s (c :: calls) = touchStateAfter c.after calls := by
  cases calls with
  | nil => rfl
  | cons d calls => rfl

/-- Every slot that is selected can be counted up. -/
def SlotsCovered (evs : List Event) : Prop :=
  ∀ ev ∈ evs, ev.type = evAbs → ev.code = absMtSlot → ev.value < 2 ^ 31 - 1

instance (evs : List Event) : Decidable (SlotsCovered evs) :=
  inferInstanceAs (Decidable (∀ ev ∈ evs, _))

theorem selectSlot_pending {value : ℤ} {s t : TouchSegmentState} (h : selectSlot value s = some t) :
    t.pendingSegmentBreak = s.pendingSegmentBreak := by
  unfold selectSlot at h
  simp only at h
  split at h
  · obtain ⟨slots, -, rfl⟩ := Option.map_eq_some_iff.mp h
    rfl
  · obtain rfl := Option.some.inj h
    rfl

theorem trackContact_pending {value : ℤ} {s t : TouchSegmentState}
    (h : trackContact value s = some t) : t.pendingSegmentBreak = s.pendingSegmentBreak := by
  obtain ⟨slots, -, h⟩ := Option.bind_eq_some_iff.mp h
  obtain ⟨active, -, rfl⟩ := Option.map_eq_some_iff.mp h
  split_ifs <;> rfl

theorem updateButton_pending (code : ℕ) (value : ℤ) (s : TouchSegmentState) :
    (updateButton code value s).pendingSegmentBreak = s.pendingSegmentBreak := by
  unfold updateButton
  simp only
  split_ifs <;> rfl

/-- The contacts and the pending break are kept apart. -/
theorem updateContacts_pending {ev : Event} {s t : TouchSegmentState}
    (h : updateContacts ev s = some t) : t.pendingSegmentBreak = s.pendingSegmentBreak := by
  unfold updateContacts at h
  split_ifs at h
  · exact selectSlot_pending h
  · exact trackContact_pending h
  · obtain rfl := Option.some.inj h
    rfl
  · obtain rfl := Option.some.inj h
    exact updateButton_pending ev.code ev.value s
  · obtain rfl := Option.some.inj h
    rfl

/-- A timestamp changes no contact. -/
theorem updateContacts_of_timestamp {ev : Event} (hts : ev.isMscTimestamp = true)
    (s : TouchSegmentState) : updateContacts ev s = some s := by
  have htype : ev.type = evMsc := by
    rw [Event.isMscTimestamp, Bool.and_eq_true] at hts
    exact beq_iff_eq.mp hts.1
  rw [updateContacts, htype, if_neg (by decide), if_neg (by decide)]

@[simp] theorem isTouchingNow_pending (s : TouchSegmentState) (pending : Bool) :
    isTouchingNow { s with pendingSegmentBreak := pending } = isTouchingNow s := rfl

/-- A timestamp announces what is pending behind it. -/
theorem processTouchEventForSegment_of_timestamp {ev : Event} (hts : ev.isMscTimestamp = true)
    (s : TouchSegmentState) : processTouchEventForSegment ev s =
      some (⟨false, s.pendingSegmentBreak⟩, { s with pendingSegmentBreak := false }) := by
  simp only [processTouchEventForSegment, updateTouchSegmentState, hts, Bool.not_true,
    Bool.and_false, Bool.false_eq_true, if_false, updateContacts_of_timestamp hts,
    Option.map_some, Bool.and_not_self, Bool.and_true]
  split
  · rfl
  · rename_i hpending
    rw [← Bool.eq_false_iff.mpr hpending]

/-- Any other event announces what is pending in front of it, and a segment it ends is pending
behind it. -/
theorem processTouchEventForSegment_of_other {ev : Event} (hts : ev.isMscTimestamp = false)
    (s : TouchSegmentState) : processTouchEventForSegment ev s =
      (updateContacts ev { s with pendingSegmentBreak := false }).map fun t =>
        (⟨s.pendingSegmentBreak, false⟩,
          { t with pendingSegmentBreak := isTouchingNow s && !isTouchingNow t }) := by
  have hcleared : (if s.pendingSegmentBreak = true then { s with pendingSegmentBreak := false }
      else s) = { s with pendingSegmentBreak := false } := by
    split
    · rfl
    · rename_i hpending
      rw [← Bool.eq_false_iff.mpr hpending]
  simp only [processTouchEventForSegment, updateTouchSegmentState, hts, Bool.not_false,
    Bool.and_true, hcleared, isTouchingNow_pending, Option.map_map, Bool.and_false,
    Bool.false_eq_true, if_false]
  cases hcontacts : updateContacts ev { s with pendingSegmentBreak := false } with
  | none => rfl
  | some t =>
    have hpending : t.pendingSegmentBreak = false := updateContacts_pending hcontacts
    simp only [Option.map_some, Function.comp_apply]
    split
    · rename_i hended
      rw [hended]
    · rename_i hended
      rw [Bool.eq_false_iff.mpr hended, ← hpending]

/-- A break is pending exactly behind an event that ended a segment, and the next event
announces it. -/
theorem processTouchEventForSegment_spec {ev : Event} {s t : TouchSegmentState}
    {d : TouchSegmentDecision} (h : processTouchEventForSegment ev s = some (d, t)) :
    d.emitBreakBeforeEvent = (s.pendingSegmentBreak && !ev.isMscTimestamp) ∧
      d.emitBreakAfterEvent = (s.pendingSegmentBreak && ev.isMscTimestamp) ∧
      t.pendingSegmentBreak = (isTouchingNow s && !isTouchingNow t) := by
  cases hts : ev.isMscTimestamp with
  | true =>
    rw [processTouchEventForSegment_of_timestamp hts] at h
    obtain ⟨rfl, rfl⟩ := Prod.mk.inj (Option.some.inj h)
    simp only [Bool.not_true, Bool.and_false, Bool.and_true, isTouchingNow_pending,
      Bool.and_not_self, and_self]
  | false =>
    rw [processTouchEventForSegment_of_other hts] at h
    obtain ⟨u, -, h⟩ := Option.map_eq_some_iff.mp h
    obtain ⟨rfl, rfl⟩ := Prod.mk.inj h
    simp only [Bool.not_false, Bool.and_true, Bool.and_false, isTouchingNow_pending, and_self]

/-- A slot below the bound gets its entry. -/
theorem coverSlot_covers {slot : ℤ} (hslot : 0 ≤ slot) (hbound : slot < 2 ^ 31 - 1)
    (slotActive : List Bool) :
    ∃ slots, coverSlot slot slotActive = some slots ∧ slot.toNat < slots.length := by
  unfold coverSlot
  split
  · rw [if_pos (by omega)]
    refine ⟨_, rfl, ?_⟩
    rw [List.length_append, List.length_replicate]
    omega
  · exact ⟨slotActive, rfl, by omega⟩

/-- While slots stay below the bound every event can be processed. -/
theorem updateContacts_defined {ev : Event} (hev : SlotsCovered [ev]) {s : TouchSegmentState}
    (hs : s.currentSlot < 2 ^ 31 - 1) :
    ∃ t, updateContacts ev s = some t ∧ t.currentSlot < 2 ^ 31 - 1 := by
  unfold updateContacts
  split_ifs with htype hslot htrack hkey
  · have hvalue := hev ev (List.mem_singleton_self ev) htype hslot
    unfold selectSlot
    simp only
    split
    · rename_i hnonneg
      obtain ⟨slots, hslots, -⟩ := coverSlot_covers hnonneg hvalue s.slotActive
      rw [hslots]
      exact ⟨_, rfl, hvalue⟩
    · exact ⟨_, rfl, hvalue⟩
  · obtain ⟨slots, hslots, hlt⟩ := coverSlot_covers htrack.2 hs s.slotActive
    rw [trackContact, hslots, Option.bind_some, List.getElem?_eq_getElem hlt, Option.map_some]
    refine ⟨_, rfl, ?_⟩
    split_ifs <;> exact hs
  · exact ⟨s, rfl, hs⟩
  · refine ⟨_, rfl, ?_⟩
    unfold updateButton
    simp only
    split_ifs <;> exact hs
  · exact ⟨s, rfl, hs⟩

theorem processTouchEventForSegment_defined {ev : Event} (hev : SlotsCovered [ev])
    {s : TouchSegmentState} (hs : s.currentSlot < 2 ^ 31 - 1) :
    ∃ r, processTouchEventForSegment ev s = some r ∧ r.2.currentSlot < 2 ^ 31 - 1 := by
  cases hts : ev.isMscTimestamp with
  | true => exact ⟨_, processTouchEventForSegment_of_timestamp hts s, hs⟩
  | false =>
    obtain ⟨t, ht, hbound⟩ :=
      updateContacts_defined hev (s := { s with pendingSegmentBreak := false }) hs
    rw [processTouchEventForSegment_of_other hts, ht]
    exact ⟨_, rfl, hbound⟩

theorem touchCalls_defined {evs : List Event} (hevs : SlotsCovered evs) {s : TouchSegmentState}
    (hs : s.currentSlot < 2 ^ 31 - 1) : ∃ calls, touchCalls s evs = some calls := by
  induction evs generalizing s with
  | nil => exact ⟨[], rfl⟩
  | cons ev evs ih =>
    have hev : SlotsCovered [ev] := by
      intro e he
      rw [List.mem_singleton.mp he]
      exact hevs ev List.mem_cons_self
    obtain ⟨r, hr, hbound⟩ := processTouchEventForSegment_defined hev hs
    obtain ⟨calls, hcalls⟩ := ih (fun e he => hevs e (List.mem_cons_of_mem ev he)) hbound
    rw [touchCalls, hr, Option.bind_some, hcalls]
    exact ⟨_, rfl⟩

/-- The number of breaks that are pending. -/
def TouchSegmentState.pendingBreaks (s : TouchSegmentState) : ℕ :=
  if s.pendingSegmentBreak then 1 else 0

/-- The breaks that some calls have announced. -/
def breaksSignalled (calls : List TouchCall) : ℕ :=
  calls.countP (fun c => c.decision.emitBreakBeforeEvent) +
    calls.countP fun c => c.decision.emitBreakAfterEvent

/-- A call announces what is pending on the side its event asks for. -/
def TouchCall.Announces (c : TouchCall) (pending : Bool) : Prop :=
  c.decision = ⟨pending && !c.event.isMscTimestamp, pending && c.event.isMscTimestamp⟩

/-- The first call announces what was pending before, and every later one the break of the call
before it. -/
theorem touchCalls_spec {s : TouchSegmentState} {evs : List Event} {calls : List TouchCall}
    (h : touchCalls s evs = some calls) :
    calls.map TouchCall.event = evs ∧
      (∀ c, calls.head? = some c → c.Announces s.pendingSegmentBreak) ∧
      calls.IsChain (fun b c => c.Announces b.endsSegment) ∧
      (∀ c ∈ calls, ∃ pending, c.Announces pending) ∧
      breaksSignalled calls + (touchStateAfter s calls).pendingBreaks =
        calls.countP TouchCall.endsSegment + s.pendingBreaks := by
  induction evs generalizing s calls with
  | nil =>
    obtain rfl := Option.some.inj h
    refine ⟨rfl, fun c hc => ?_, .nil, fun c hc => absurd hc List.not_mem_nil, rfl⟩
    cases hc
  | cons ev evs ih =>
    obtain ⟨⟨d, t⟩, hcall, h⟩ := Option.bind_eq_some_iff.mp h
    obtain ⟨rest, hrest, rfl⟩ := Option.map_eq_some_iff.mp h
    obtain ⟨hbefore, hafter, hpending⟩ := processTouchEventForSegment_spec hcall
    obtain ⟨hevents, hhead, hchain, hall, hcount⟩ := ih hrest
    have hfirst : (TouchCall.mk s ev d t).Announces s.pendingSegmentBreak := by
      rw [TouchCall.Announces, ← hbefore, ← hafter]
    refine ⟨by rw [List.map_cons, hevents], ?_, ?_, ?_, ?_⟩
    · intro c hc
      obtain rfl := Option.some.inj hc
      exact hfirst
    · rw [List.isChain_cons]
      refine ⟨fun c hc => ?_, hchain⟩
      have hannounced := hhead c hc
      rwa [hpending] at hannounced
    · intro c hc
      rcases List.mem_cons.mp hc with rfl | hc
      · exact ⟨_, hfirst⟩
      · exact hall c hc
    · -- the break pending before is announced on one of the two sides of the event
      have hannounced : d.emitBreakBeforeEvent.toNat + d.emitBreakAfterEvent.toNat =
          s.pendingBreaks := by
        rw [hbefore, hafter, TouchSegmentState.pendingBreaks]
        cases s.pendingSegmentBreak <;> cases ev.isMscTimestamp <;> rfl
      have hended : (TouchCall.endsSegment ⟨s, ev, d, t⟩).toNat = t.pendingBreaks := by
        rw [TouchSegmentState.pendingBreaks, hpending, TouchCall.endsSegment]
        cases isTouchingNow s && !isTouchingNow t <;> rfl
      rw [touchStateAfter_cons]
      simp only [breaksSignalled, List.countP_cons] at hcount ⊢
      have hcounted : ∀ b : Bool, b.toNat = if b = true then 1 else 0 :=
        fun b => Bool.cond_eq_ite b 1 0
      simp only [hcounted] at hannounced hended
      omega

/-- Along every run the announced breaks and the pending one are as many as the segments that
have ended, each break is announced by the call after the one that ended its segment, behind its
event if that is a timestamp and in front of it otherwise, and no call announces two. -/
theorem breaks_match_segments {evs : List Event} (hevs : SlotsCovered evs) :
    ∃ calls, touchCalls .initial evs = some calls ∧ calls.map TouchCall.event = evs ∧
      breaksSignalled calls + (touchStateAfter .initial calls).pendingBreaks =
        calls.countP TouchCall.endsSegment ∧
      (∀ c, calls.head? = some c → c.decision = ⟨false, false⟩) ∧
      calls.IsChain (fun b c => c.decision =
        ⟨b.endsSegment && !c.event.isMscTimestamp, b.endsSegment && c.event.isMscTimestamp⟩) ∧
      ∀ c ∈ calls, (c.decision.emitBreakAfterEvent = true → c.event.isMscTimestamp = true) ∧
        ¬ (c.decision.emitBreakBeforeEvent = true ∧ c.decision.emitBreakAfterEvent = true) := by
  obtain ⟨calls, hcalls⟩ := touchCalls_defined hevs (s := .initial) (by decide)
  obtain ⟨hevents, hhead, hchain, hall, hcount⟩ := touchCalls_spec hcalls
  refine ⟨calls, hcalls, hevents, hcount, fun c hc => hhead c hc, hchain, fun c hc => ?_⟩
  obtain ⟨pending, hannounces⟩ := hall c hc
  rw [hannounces]
  cases pending <;> cases c.event.isMscTimestamp <;> decide

/-- A finger and a second contact, lifted together, then a timestamp and a move. -/
def twoContacts : List Event :=
  [⟨0, 0, evAbs, absMtTrackingId, 7⟩, ⟨0, 1, evAbs, absMtSlot, 1⟩,
    ⟨0, 2, evAbs, absMtTrackingId, 8⟩, ⟨0, 3, evAbs, absMtTrackingId, -1⟩,
    ⟨0, 4, evAbs, absMtSlot, 0⟩, ⟨0, 5, evAbs, absMtTrackingId, -1⟩,
    ⟨0, 6, evMsc, mscTimestamp, 40⟩, ⟨0, 7, evRel, relX, 1⟩]

theorem twoContacts_covered : SlotsCovered twoContacts := by
  decide

theorem breaks_match_segments_twoContacts :
    ∃ calls, touchCalls .initial twoContacts = some calls ∧
      calls.countP TouchCall.endsSegment = 1 ∧
      breaksSignalled calls + (touchStateAfter .initial calls).pendingBreaks = 1 := by
  obtain ⟨calls, hcalls, -, hcount, -⟩ := breaks_match_segments twoContacts_covered
  have hone : (touchCalls .initial twoContacts).map (List.countP TouchCall.endsSegment) =
      some 1 := by decide
  rw [hcalls, Option.map_some, Option.some.injEq] at hone
  exact ⟨calls, hcalls, hone, hcount.trans hone⟩

end Evrp
