import Evrp.Lib.Numeral
import Evrp.Sdk.TouchDevice

/-!
# The contacts behind a touch segment

The multi-touch protocol names a contact by its slot: a slot is selected, and
the tracking ids that follow belong to it until another slot is selected. The
state counts the contacts beside a vector that grows with the slots the device
names. Both are read off the tracking ids: an entry is set if the last id of its
slot put a contact down, and the counter is the number of entries set. The flag
of a button is read off the last value of its key, so that the events alone say
whether the device is touched.
-/

namespace Evrp

open Word

def Event.isSlot (ev : Event) : Bool := ev.type == evAbs && ev.code == absMtSlot

def Event.isTrackingId (ev : Event) : Bool := ev.type == evAbs && ev.code == absMtTrackingId

/-- The slot that is current behind an event. -/
def nextSlot (slot : ℤ) (ev : Event) : ℤ := if ev.isSlot then ev.value else slot

/-- The tracking ids among some events, each with the slot that was current. -/
def contactIds : ℤ → List Event → List (ℤ × ℤ)
  | _, [] => []
  | slot, ev :: evs =>
    (if ev.isTrackingId then [(slot, ev.value)] else []) ++ contactIds (nextSlot slot ev) evs

/-- The last tracking id that a slot has received. -/
def lastContactId (ids : List (ℤ × ℤ)) (slot : ℤ) : Option ℤ :=
  (ids.filter fun x => x.1 == slot).getLast?.map Prod.snd

/-- The tracking id puts a contact down. -/
def putsDown (id : ℤ) : Bool := id != -1

theorem lastContactId_concat (ids : List (ℤ × ℤ)) (slot id other : ℤ) :
    lastContactId (ids ++ [(slot, id)]) other =
      if slot = other then some id else lastContactId ids other := by
  rw [lastContactId, List.filter_append]
  split
  · rename_i heq
    rw [List.filter_singleton, beq_iff_eq.mpr heq, cond_true, List.getLast?_concat,
      Option.map_some]
  · rename_i hne
    rw [List.filter_singleton, beq_eq_false_iff_ne.mpr hne, cond_false, List.append_nil]
    rfl

/-- The entry of a slot; a slot without an entry has no contact. -/
def TouchSegmentState.entry (s : TouchSegmentState) (slot : ℕ) : Bool :=
  s.slotActive[slot]?.getD false

/-- The counter and the vector are what the tracking ids make of them. -/
structure TouchSegmentState.Bookkept (s : TouchSegmentState) (ids : List (ℤ × ℤ)) : Prop where
  counted : s.activeMtCount = s.slotActive.count true
  entries : ∀ slot : ℕ, s.entry slot = (lastContactId ids slot).any putsDown
  length_le : s.slotActive.length ≤ 2 ^ 31 - 1

theorem bookkept_initial : TouchSegmentState.initial.Bookkept [] where
  counted := rfl
  entries _ := rfl
  length_le := Nat.zero_le _

/-- New entries are without contact. -/
theorem coverSlot_spec {slot : ℤ} (hslot : 0 ≤ slot) {slotActive slots : List Bool}
    (h : coverSlot slot slotActive = some slots) :
    slot.toNat < slots.length ∧ slots.count true = slotActive.count true ∧
      (∀ i : ℕ, slots[i]?.getD false = slotActive[i]?.getD false) ∧
      (slotActive.length ≤ 2 ^ 31 - 1 → slots.length ≤ 2 ^ 31 - 1) := by
  unfold coverSlot at h
  split at h
  · rename_i hlength
    split at h
    · rename_i hfits
      obtain rfl := Option.some.inj h
      refine ⟨?_, ?_, fun i => ?_, fun _ => ?_⟩
      · rw [List.length_append, List.length_replicate]
        omega
      · rw [List.count_append, List.count_replicate]
        rfl
      · rw [List.getElem?_append]
        split
        · rfl
        · rename_i hi
          rw [List.getElem?_replicate, List.getElem?_eq_none (Nat.not_lt.mp hi)]
          split <;> rfl
      · rw [List.length_append, List.length_replicate]
        omega
    · cases h
  · obtain rfl := Option.some.inj h
    exact ⟨by omega, rfl, fun _ => rfl, id⟩

/-- A tracking id sets the entry of its slot, and the counter follows the entry. -/
theorem trackContact_spec {value : ℤ} {s t : TouchSegmentState}
    (h : trackContact value s = some t) :
    ∃ slots, ∃ hlt : s.currentSlot.toNat < slots.length,
      coverSlot s.currentSlot s.slotActive = some slots ∧
      t.slotActive = slots.set s.currentSlot.toNat (putsDown value) ∧
      t.activeMtCount =
        s.activeMtCount - slots[s.currentSlot.toNat].toNat + (putsDown value).toNat := by
  obtain ⟨slots, hslots, h⟩ := Option.bind_eq_some_iff.mp h
  obtain ⟨active, hactive, rfl⟩ := Option.map_eq_some_iff.mp h
  obtain ⟨hlt, rfl⟩ := List.getElem?_eq_some_iff.mp hactive
  refine ⟨slots, hlt, hslots, ?_⟩
  have hself : slots.set s.currentSlot.toNat slots[s.currentSlot.toNat] = slots :=
    List.set_getElem_self hlt
  by_cases hvalue : value = -1
  · have hup : putsDown value = false := by
      rw [hvalue]
      rfl
    rw [if_pos hvalue, hup]
    cases hentry : slots[s.currentSlot.toNat] with
    | true => exact ⟨rfl, (Int.add_zero _).symm⟩
    | false =>
      rw [hentry] at hself
      exact ⟨hself.symm, by simp⟩
  · have hdown : putsDown value = true := bne_iff_ne.mpr hvalue
    rw [if_neg hvalue, hdown]
    cases hentry : slots[s.currentSlot.toNat] with
    | true =>
      rw [hentry] at hself
      exact ⟨hself.symm, by simp⟩
    | false => exact ⟨rfl, by simp⟩

theorem trackContact_currentSlot {value : ℤ} {s t : TouchSegmentState}
    (h : trackContact value s = some t) : t.currentSlot = s.currentSlot := by
  obtain ⟨slots, -, h⟩ := Option.bind_eq_some_iff.mp h
  obtain ⟨active, -, rfl⟩ := Option.map_eq_some_iff.mp h
  split_ifs <;> rfl

/-- Buttons and slots are kept apart. -/
theorem updateButton_frame (code : ℕ) (value : ℤ) (s : TouchSegmentState) :
    (updateButton code value s).activeMtCount = s.activeMtCount ∧
      (updateButton code value s).slotActive = s.slotActive ∧
      (updateButton code value s).currentSlot = s.currentSlot := by
  unfold updateButton
  simp only
  split_ifs <;> exact ⟨rfl, rfl, rfl⟩

namespace TouchSegmentState.Bookkept

variable {s t : TouchSegmentState} {ids : List (ℤ × ℤ)}

/-- Only the counter and the vector are kept. -/
theorem congr (h : s.Bookkept ids) (hcount : t.activeMtCount = s.activeMtCount)
    (hslots : t.slotActive = s.slotActive) : t.Bookkept ids := by
  refine ⟨?_, fun slot => ?_, ?_⟩
  · rw [hcount, hslots]
    exact h.counted
  · rw [TouchSegmentState.entry, hslots]
    exact h.entries slot
  · rw [hslots]
    exact h.length_le

theorem selectSlot {value : ℤ} (h : s.Bookkept ids) (hstep : Evrp.selectSlot value s = some t) :
    t.Bookkept ids ∧ t.currentSlot = value := by
  unfold Evrp.selectSlot at hstep
  simp only at hstep
  split at hstep
  · rename_i hnonneg
    obtain ⟨slots, hslots, rfl⟩ := Option.map_eq_some_iff.mp hstep
    obtain ⟨-, hcount, hentries, hlength⟩ := coverSlot_spec hnonneg hslots
    refine ⟨⟨?_, fun slot => ?_, hlength h.length_le⟩, rfl⟩
    · rw [hcount]
      exact h.counted
    · exact (hentries slot).trans (h.entries slot)
  · obtain rfl := Option.some.inj hstep
    exact ⟨h.congr rfl rfl, rfl⟩

theorem trackContact {value : ℤ} (h : s.Bookkept ids) (hslot : 0 ≤ s.currentSlot)
    (hstep : Evrp.trackContact value s = some t) :
    t.Bookkept (ids ++ [(s.currentSlot, value)]) := by
  obtain ⟨slots, hlt, hslots, hset, hactive⟩ := trackContact_spec hstep
  obtain ⟨-, hcount, hentries, hlength⟩ := coverSlot_spec hslot hslots
  refine ⟨?_, fun slot => ?_, ?_⟩
  · have hboole (b : Bool) : (if (b == true) = true then 1 else 0) = b.toNat := by
      cases b <;> rfl
    have hpos := List.boole_getElem_le_count (a := true) hlt
    rw [hset, List.count_set hlt, hactive, h.counted, ← hcount, hboole, hboole]
    rw [hboole] at hpos
    omega
  · rw [TouchSegmentState.entry, hset, lastContactId_concat, List.getElem?_set]
    by_cases heq : s.currentSlot.toNat = slot
    · have hsame : s.currentSlot = slot := by omega
      rw [if_pos heq, if_pos hlt, if_pos hsame]
      rfl
    · have hother : s.currentSlot ≠ slot := by omega
      rw [if_neg heq, if_neg hother]
      exact (hentries slot).trans (h.entries slot)
  · rw [hset, List.length_set]
    exact hlength h.length_le

/-- A tracking id without a slot belongs to no entry. -/
theorem ignored (h : s.Bookkept ids) {slot : ℤ} (hslot : slot < 0) (value : ℤ) :
    s.Bookkept (ids ++ [(slot, value)]) := by
  refine ⟨h.counted, fun other => ?_, h.length_le⟩
  have hother : slot ≠ other := by omega
  rw [lastContactId_concat, if_neg hother]
  exact h.entries other

/-- Every event extends the ids by its own and keeps the books. -/
theorem updateContacts {ev : Event} (h : s.Bookkept ids)
    (hstep : Evrp.updateContacts ev s = some t) :
    t.Bookkept (ids ++ contactIds s.currentSlot [ev]) ∧
      t.currentSlot = nextSlot s.currentSlot ev := by
  have hids : contactIds s.currentSlot [ev] =
      if ev.isTrackingId then [(s.currentSlot, ev.value)] else [] := List.append_nil _
  unfold Evrp.updateContacts at hstep
  split at hstep
  · rename_i htype
    have habs : (ev.type == evAbs) = true := beq_iff_eq.mpr htype
    rw [hids, nextSlot, Event.isTrackingId, Event.isSlot, habs, Bool.true_and, Bool.true_and]
    split at hstep
    · rename_i hcode
      have hother : (ev.code == absMtTrackingId) = false := by
        rw [hcode]
        rfl
      rw [hother, beq_iff_eq.mpr hcode, if_neg Bool.false_ne_true, List.append_nil, if_pos rfl]
      exact h.selectSlot hstep
    · rename_i hcode
      rw [beq_eq_false_iff_ne.mpr hcode, if_neg Bool.false_ne_true]
      split at hstep
      · rename_i htrack
        rw [beq_iff_eq.mpr htrack.1, if_pos rfl]
        exact ⟨h.trackContact htrack.2 hstep, trackContact_currentSlot hstep⟩
      · rename_i htrack
        obtain rfl := Option.some.inj hstep
        refine ⟨?_, rfl⟩
        split
        · rename_i hid
          have hnegative : s.currentSlot < 0 := by
            by_contra hslot
            exact htrack ⟨beq_iff_eq.mp hid, Int.not_lt.mp hslot⟩
          exact h.ignored hnegative ev.value
        · rw [List.append_nil]
          exact h
  · rename_i htype
    have hother : (ev.type == evAbs) = false := beq_eq_false_iff_ne.mpr htype
    rw [hids, nextSlot, Event.isTrackingId, Event.isSlot, hother, Bool.false_and, Bool.false_and,
      if_neg Bool.false_ne_true, if_neg Bool.false_ne_true, List.append_nil]
    split at hstep
    · obtain rfl := Option.some.inj hstep
      obtain ⟨hcount, hslots, hslot⟩ := updateButton_frame ev.code ev.value s
      exact ⟨h.congr hcount hslots, hslot⟩
    · obtain rfl := Option.some.inj hstep
      exact ⟨h, rfl⟩

end TouchSegmentState.Bookkept

theorem contactIds_cons (slot : ℤ) (ev : Event) (evs : List Event) :
    contactIds slot (ev :: evs) = contactIds slot [ev] ++ contactIds (nextSlot slot ev) evs := by
  rw [contactIds, contactIds, contactIds, List.append_nil]

/-- A tracking id without a slot changes no contact. -/
theorem updateContacts_of_negative {ev : Event} (hev : ev.isTrackingId = true)
    {s : TouchSegmentState} (hslot : s.currentSlot < 0) : updateContacts ev s = some s := by
  rw [Event.isTrackingId, Bool.and_eq_true, beq_iff_eq, beq_iff_eq] at hev
  have hcode : ev.code ≠ absMtSlot := by
    rw [hev.2]
    decide
  rw [updateContacts, if_pos hev.1, if_neg hcode, if_neg fun hboth => absurd hboth.2 (by omega)]

/-- An event leaves the contacts that it makes, whatever it does to the pending break. -/
theorem TouchSegmentState.Bookkept.process {ev : Event} {s t : TouchSegmentState}
    {d : TouchSegmentDecision} {ids : List (ℤ × ℤ)} (h : s.Bookkept ids)
    (hstep : processTouchEventForSegment ev s = some (d, t)) :
    t.Bookkept (ids ++ contactIds s.currentSlot [ev]) ∧
      t.currentSlot = nextSlot s.currentSlot ev := by
  cases hts : ev.isMscTimestamp with
  | true =>
    rw [processTouchEventForSegment_of_timestamp hts] at hstep
    obtain ⟨-, rfl⟩ := Prod.mk.inj (Option.some.inj hstep)
    obtain ⟨hbooks, hslot⟩ := h.updateContacts (updateContacts_of_timestamp hts s)
    exact ⟨hbooks.congr rfl rfl, hslot⟩
  | false =>
    rw [processTouchEventForSegment_of_other hts] at hstep
    obtain ⟨u, hu, hstep⟩ := Option.map_eq_some_iff.mp hstep
    obtain ⟨-, rfl⟩ := Prod.mk.inj hstep
    have hcleared : TouchSegmentState.Bookkept { s with pendingSegmentBreak := false } ids :=
      h.congr rfl rfl
    obtain ⟨hbooks, hslot⟩ := hcleared.updateContacts hu
    exact ⟨hbooks.congr rfl rfl, hslot⟩

/-- Along every run the books are those of all tracking ids so far. -/
theorem touchCalls_bookkept {s : TouchSegmentState} {ids : List (ℤ × ℤ)} (h : s.Bookkept ids)
    {evs : List Event} {calls : List TouchCall} (hcalls : touchCalls s evs = some calls) :
    (touchStateAfter s calls).Bookkept (ids ++ contactIds s.currentSlot evs) := by
  induction evs generalizing s ids calls with
  | nil =>
    obtain rfl := Option.some.inj hcalls
    rw [contactIds, List.append_nil]
    exact h
  | cons ev evs ih =>
    obtain ⟨⟨d, t⟩, hcall, hcalls⟩ := Option.bind_eq_some_iff.mp hcalls
    obtain ⟨rest, hrest, rfl⟩ := Option.map_eq_some_iff.mp hcalls
    obtain ⟨hbooks, hslot⟩ := h.process hcall
    have hlast := ih hbooks hrest
    rw [hslot, List.append_assoc, ← contactIds_cons] at hlast
    rw [touchStateAfter_cons]
    exact hlast

/-- Every call processed its event. -/
theorem process_of_mem_touchCalls {s : TouchSegmentState} {evs : List Event}
    {calls : List TouchCall} (h : touchCalls s evs = some calls) {c : TouchCall}
    (hc : c ∈ calls) :
    processTouchEventForSegment c.event c.before = some (c.decision, c.after) := by
  induction evs generalizing s calls with
  | nil =>
    obtain rfl := Option.some.inj h
    exact absurd hc List.not_mem_nil
  | cons ev evs ih =>
    obtain ⟨⟨d, t⟩, hcall, h⟩ := Option.bind_eq_some_iff.mp h
    obtain ⟨rest, hrest, rfl⟩ := Option.map_eq_some_iff.mp h
    rcases List.mem_cons.mp hc with rfl | hc
    · exact hcall
    · exact ih hrest hc

/-- A tracking id without a slot leaves everything but the announced break as it was. -/
theorem process_of_negative {ev : Event} (hev : ev.isTrackingId = true) {s t : TouchSegmentState}
    (hslot : s.currentSlot < 0) {d : TouchSegmentDecision}
    (h : processTouchEventForSegment ev s = some (d, t)) :
    t = { s with pendingSegmentBreak := false } := by
  have htype : ev.type = evAbs := by
    rw [Event.isTrackingId, Bool.and_eq_true, beq_iff_eq] at hev
    exact hev.1
  have hts : ev.isMscTimestamp = false := by
    rw [Event.isMscTimestamp, htype]
    rfl
  rw [processTouchEventForSegment_of_other hts,
    updateContacts_of_negative (s := { s with pendingSegmentBreak := false }) hev hslot] at h
  obtain ⟨-, rfl⟩ := Prod.mk.inj (Option.some.inj h)
  have hsame : (isTouchingNow s && !isTouchingNow { s with pendingSegmentBreak := false }) =
      false := Bool.and_not_self _
  rw [hsame]

/-! ## The buttons -/

def Event.isKey (code : ℕ) (ev : Event) : Bool := ev.type == evKey && ev.code == code

/-- The last value that some events give a key. -/
def lastKeyValue (code : ℕ) (evs : List Event) : Option ℤ :=
  (evs.filter (Event.isKey code)).getLast?.map Event.value

theorem lastKeyValue_cons (code : ℕ) (ev : Event) (evs : List Event) :
    lastKeyValue code (ev :: evs) =
      (lastKeyValue code evs).or (if ev.isKey code then some ev.value else none) := by
  cases hev : ev.isKey code with
  | false =>
    rw [lastKeyValue, List.filter_cons_of_neg (by simp [hev]), if_neg Bool.false_ne_true,
      Option.or_none]
    rfl
  | true =>
    rw [lastKeyValue, List.filter_cons_of_pos hev, List.getLast?_cons, if_pos rfl, lastKeyValue]
    cases (evs.filter (Event.isKey code)).getLast? <;> rfl

/-- The value holds a key down. -/
def holdsDown (value : ℤ) : Bool := value != 0

/-- The touch button and the tools, each with its flag. -/
def touchButtons : List (ℕ × (TouchSegmentState → Bool)) :=
  [(btnTouch, TouchSegmentState.btnTouchActive),
    (btnToolFinger, TouchSegmentState.toolFingerActive),
    (btnToolDoubletap, TouchSegmentState.toolDoubletapActive),
    (btnToolTripletap, TouchSegmentState.toolTripletapActive),
    (btnToolQuadtap, TouchSegmentState.toolQuadtapActive)]

section Buttons

variable {button : ℕ × (TouchSegmentState → Bool)} (hbutton : button ∈ touchButtons)
include hbutton

/-- A flag depends on the flags only. -/
theorem flag_congr {s t : TouchSegmentState}
    (h : (t.btnTouchActive, t.toolFingerActive, t.toolDoubletapActive, t.toolTripletapActive,
        t.toolQuadtapActive) =
      (s.btnTouchActive, s.toolFingerActive, s.toolDoubletapActive, s.toolTripletapActive,
        s.toolQuadtapActive)) : button.2 t = button.2 s := by
  simp only [Prod.mk.injEq] at h
  obtain ⟨h1, h2, h3, h4, h5⟩ := h
  simp only [touchButtons, List.mem_cons, List.not_mem_nil, or_false] at hbutton
  rcases hbutton with rfl | rfl | rfl | rfl | rfl <;> assumption

/-- A key sets the flag of its button and no other. -/
theorem flag_updateButton (code : ℕ) (value : ℤ) (s : TouchSegmentState) :
    button.2 (updateButton code value s) =
      if code = button.1 then holdsDown value else button.2 s := by
  have hdown : decide (value ≠ 0) = holdsDown value := by
    by_cases hvalue : value = 0 <;> simp [holdsDown, hvalue]
  simp only [touchButtons, List.mem_cons, List.not_mem_nil, or_false] at hbutton
  rcases hbutton with rfl | rfl | rfl | rfl | rfl
  all_goals
    simp only [updateButton, hdown, apply_ite TouchSegmentState.btnTouchActive,
      apply_ite TouchSegmentState.toolFingerActive, apply_ite TouchSegmentState.toolDoubletapActive,
      apply_ite TouchSegmentState.toolTripletapActive,
      apply_ite TouchSegmentState.toolQuadtapActive, ite_self]

/-- An event sets the flag of the button whose key it is. -/
theorem flag_updateContacts {ev : Event} {s t : TouchSegmentState}
    (h : updateContacts ev s = some t) :
    button.2 t = if ev.isKey button.1 then holdsDown ev.value else button.2 s := by
  unfold updateContacts at h
  by_cases hkey : ev.type = evKey
  · have habs : ev.type ≠ evAbs := by
      rw [hkey]
      decide
    rw [if_neg habs, if_pos hkey] at h
    obtain rfl := Option.some.inj h
    rw [flag_updateButton hbutton, Event.isKey, beq_iff_eq.mpr hkey, Bool.true_and]
    simp only [beq_iff_eq]
  · rw [Event.isKey, beq_eq_false_iff_ne.mpr hkey, Bool.false_and, if_neg Bool.false_ne_true]
    refine flag_congr hbutton ?_
    rw [if_neg hkey] at h
    split at h
    · split at h
      · unfold selectSlot at h
        simp only at h
        split at h
        · obtain ⟨slots, -, rfl⟩ := Option.map_eq_some_iff.mp h
          rfl
        · obtain rfl := Option.some.inj h
          rfl
      · split at h
        · obtain ⟨slots, -, h⟩ := Option.bind_eq_some_iff.mp h
          obtain ⟨active, -, rfl⟩ := Option.map_eq_some_iff.mp h
          split_ifs <;> rfl
        · obtain rfl := Option.some.inj h
          rfl
    · obtain rfl := Option.some.inj h
      rfl

theorem flag_process {ev : Event} {s t : TouchSegmentState} {d : TouchSegmentDecision}
    (h : processTouchEventForSegment ev s = some (d, t)) :
    button.2 t = if ev.isKey button.1 then holdsDown ev.value else button.2 s := by
  cases hts : ev.isMscTimestamp with
  | true =>
    rw [processTouchEventForSegment_of_timestamp hts] at h
    obtain ⟨-, rfl⟩ := Prod.mk.inj (Option.some.inj h)
    rw [← flag_updateContacts hbutton (updateContacts_of_timestamp hts s)]
    exact flag_congr hbutton rfl
  | false =>
    rw [processTouchEventForSegment_of_other hts] at h
    obtain ⟨u, hu, h⟩ := Option.map_eq_some_iff.mp h
    obtain ⟨-, rfl⟩ := Prod.mk.inj h
    have hcleared : button.2 { s with pendingSegmentBreak := false } = button.2 s :=
      flag_congr hbutton rfl
    rw [← hcleared, ← flag_updateContacts hbutton hu]
    exact flag_congr hbutton rfl

/-- Along every run a flag is what the last value of its key makes of it. -/
theorem touchCalls_flag {s : TouchSegmentState} {evs : List Event} {calls : List TouchCall}
    (hcalls : touchCalls s evs = some calls) :
    button.2 (touchStateAfter s calls) =
      (lastKeyValue button.1 evs).elim (button.2 s) holdsDown := by
  induction evs generalizing s calls with
  | nil =>
    obtain rfl := Option.some.inj hcalls
    rfl
  | cons ev evs ih =>
    obtain ⟨⟨d, t⟩, hcall, hcalls⟩ := Option.bind_eq_some_iff.mp hcalls
    obtain ⟨rest, hrest, rfl⟩ := Option.map_eq_some_iff.mp hcalls
    rw [touchStateAfter_cons, ih hrest, flag_process hbutton hcall, lastKeyValue_cons]
    cases lastKeyValue button.1 evs with
    | some value => rfl
    | none =>
      cases ev.isKey button.1 <;> rfl

end Buttons

/-- The state is touching if a contact is counted or a flag is set. -/
theorem isTouchingNow_iff (s : TouchSegmentState) :
    isTouchingNow s = true ↔
      0 < s.activeMtCount ∨ ∃ button ∈ touchButtons, button.2 s = true := by
  simp [isTouchingNow, touchButtons, or_assoc]

/-- Whether a device is touched is read off its events: some slot has received a tracking id that
puts a contact down as its last, or some button's key is held down by its last value. -/
theorem isTouchingNow_of_events {evs : List Event} {calls : List TouchCall}
    (hcalls : touchCalls .initial evs = some calls) :
    isTouchingNow (touchStateAfter .initial calls) = true ↔
      (∃ (slot : ℕ) (id : ℤ), lastContactId (contactIds 0 evs) slot = some id ∧ id ≠ -1) ∨
        ∃ code ∈ [btnTouch, btnToolFinger, btnToolDoubletap, btnToolTripletap, btnToolQuadtap],
          ∃ value, lastKeyValue code evs = some value ∧ value ≠ 0 := by
  have hbooks := touchCalls_bookkept bookkept_initial hcalls
  rw [List.nil_append] at hbooks
  rw [isTouchingNow_iff]
  refine or_congr ?_ ?_
  · rw [hbooks.counted, Int.natCast_pos, List.count_pos_iff, List.mem_iff_getElem?]
    refine exists_congr fun slot => ?_
    have hentry : (touchStateAfter .initial calls).slotActive[slot]?.getD false =
        (lastContactId (contactIds 0 evs) slot).any putsDown := hbooks.entries slot
    have hset : (touchStateAfter .initial calls).slotActive[slot]? = some true ↔
        (lastContactId (contactIds 0 evs) slot).any putsDown = true := by
      rw [← hentry]
      cases (touchStateAfter .initial calls).slotActive[slot]? <;> simp
    rw [hset, Option.any_eq_true]
    exact exists_congr fun id => and_congr_right fun _ => bne_iff_ne
  · have hcodes : touchButtons.map Prod.fst =
        [btnTouch, btnToolFinger, btnToolDoubletap, btnToolTripletap, btnToolQuadtap] := rfl
    have hup : ∀ button ∈ touchButtons, button.2 .initial = false := by
      simp [touchButtons, TouchSegmentState.initial]
    rw [← hcodes]
    simp only [List.mem_map, exists_exists_and_eq_and]
    refine exists_congr fun button => and_congr_right fun hbutton => ?_
    rw [touchCalls_flag hbutton hcalls, hup button hbutton]
    cases lastKeyValue button.1 evs <;> simp [holdsDown]

/-- Every sequence of events with slots below the bound is processed without an access outside of
the vector. The counter is the number of entries set and fits its word, an entry is set exactly
if the last tracking id of its slot was not -1, and tracking ids without a slot change nothing. -/
theorem contacts_bookkept {evs : List Event} (hevs : SlotsCovered evs) :
    ∃ calls, touchCalls .initial evs = some calls ∧ calls.map TouchCall.event = evs ∧
      (touchStateAfter .initial calls).activeMtCount =
        (touchStateAfter .initial calls).slotActive.count true ∧
      0 ≤ (touchStateAfter .initial calls).activeMtCount ∧
      Fits32 (touchStateAfter .initial calls).activeMtCount ∧
      (∀ slot : ℕ, (touchStateAfter .initial calls).entry slot = true ↔
        ∃ id, lastContactId (contactIds 0 evs) slot = some id ∧ id ≠ -1) ∧
      ∀ c ∈ calls, c.event.isTrackingId = true → c.before.currentSlot < 0 →
        updateTouchSegmentState c.event c.before = some (false, c.before) ∧
          c.after = { c.before with pendingSegmentBreak := false } := by
  obtain ⟨calls, hcalls⟩ := touchCalls_defined hevs (s := .initial) (by decide)
  have hbooks := touchCalls_bookkept bookkept_initial hcalls
  rw [List.nil_append] at hbooks
  have hcount : (touchStateAfter .initial calls).slotActive.count true ≤ 2 ^ 31 - 1 :=
    List.count_le_length.trans hbooks.length_le
  refine ⟨calls, hcalls, (touchCalls_spec hcalls).1, hbooks.counted, ?_, ?_, fun slot => ?_, ?_⟩
  · rw [hbooks.counted]
    exact Int.natCast_nonneg _
  · rw [hbooks.counted, Fits32]
    omega
  · rw [hbooks.entries slot, Option.any_eq_true]
    exact exists_congr fun id => and_congr_right fun _ => bne_iff_ne
  · intro c hc hid hslot
    refine ⟨?_, process_of_negative hid hslot (process_of_mem_touchCalls hcalls hc)⟩
    rw [updateTouchSegmentState, updateContacts_of_negative hid hslot, Option.map_some,
      Bool.and_not_self]

theorem contacts_bookkept_twoContacts :
    ∃ calls, touchCalls .initial (twoContacts.take 3) = some calls ∧
      (touchStateAfter .initial calls).activeMtCount = 2 ∧
      (touchStateAfter .initial calls).entry 1 = true := by
  have hcovered : SlotsCovered (twoContacts.take 3) := by decide
  obtain ⟨calls, hcalls, -, -, -, -, hentry, -⟩ := contacts_bookkept hcovered
  have htwo : (touchCalls .initial (twoContacts.take 3)).map
      (fun calls => (touchStateAfter .initial calls).activeMtCount) = some 2 := by decide
  rw [hcalls, Option.map_some, Option.some.injEq] at htwo
  exact ⟨calls, hcalls, htwo, (hentry 1).mpr ⟨8, by decide, by decide⟩⟩

end Evrp
