import Evrp.Lib.Positions
import Evrp.Sdk.KeyboardWindow
import Mathlib.Data.List.Induction

/-!
# What the Ctrl+C filter deletes

The streaming filter against a declarative account of the whole key sequence. A
position of the sequence determines how many Ctrl keys are held there, and from
that which events leave the buffer empty; the buffer between two of them is a
window. The deleted positions are defined from the windows alone, and the events
the filter emits are the events at all other positions.
-/

namespace Evrp

open Positions

/-- A run of the filter over a sequence: its last state and everything it emitted. -/
def filterEvents (mode : KeyboardCtrlCFilterMode) (s : KeyboardFilterState) (es : List Event) :
    KeyboardFilterState × List Event :=
  es.foldl (fun acc e =>
    let next := processKeyboardEventWithCtrlFilter e mode acc.1
    (next.1, acc.2 ++ next.2)) (s, [])

/-- Everything emitted for a sequence, the flush at its end included. -/
def emittedEvents (mode : KeyboardCtrlCFilterMode) (es : List Event) : List Event :=
  let run := filterEvents mode .initial es
  run.2 ++ (flushKeyboardEventFilter mode run.1).2

theorem filterEvents_concat (mode : KeyboardCtrlCFilterMode) (s : KeyboardFilterState)
    (es : List Event) (e : Event) :
    filterEvents mode s (es ++ [e]) =
      ((processKeyboardEventWithCtrlFilter e mode (filterEvents mode s es).1).1,
        (filterEvents mode s es).2 ++
          (processKeyboardEventWithCtrlFilter e mode (filterEvents mode s es).1).2) := by
  rw [filterEvents, List.foldl_append]
  rfl

namespace KeySequence

/-- The counter: up at a Ctrl press, down but not below zero at a Ctrl release. -/
def count (n : ℕ) (e : Event) : ℕ :=
  if e.isCtrlEvent then if e.value = 1 then n + 1 else if e.value = 0 then n - 1 else n else n

/-- The counter before the event at a position. -/
def held (es : List Event) (i : ℕ) : ℕ := (es.take i).foldl count 0

/-- A Ctrl release that leaves the counter at zero. -/
def closes (es : List Event) (i : ℕ) : Bool :=
  es[i]?.any fun e => e.isCtrlEvent && e.value == 0 && held es (i + 1) == 0

/-- An event of another kind at which the counter is zero. -/
def passes (es : List Event) (i : ℕ) : Bool :=
  es[i]?.any fun e => !e.isCtrlEvent && held es i == 0

/-- The events after which nothing is buffered. -/
def empties (es : List Event) (i : ℕ) : Bool := closes es i || passes es i

/-- A KEY_C press or repeat seen with the counter positive. -/
def chord (es : List Event) (i : ℕ) : Bool :=
  es[i]?.any Event.isCtrlCPress && decide (0 < held es i)

/-- The positions from `a` up to `b`, all of them buffered since the buffer was last empty. -/
structure Buffered (es : List Event) (a b : ℕ) : Prop where
  fresh : a = 0 ∨ empties es (a - 1) = true
  unbroken : ∀ j < b, a ≤ j → empties es j = false

/-- A window begins at `a`, with a Ctrl key event, and goes on at least up to `b`. -/
structure WindowUpTo (es : List Event) (a b : ℕ) : Prop extends Buffered es a b where
  ctrl : es[a]?.any Event.isCtrlEvent = true

/-- A window begins at `a` and closes at `b`. -/
structure ClosedWindow (es : List Event) (a b : ℕ) : Prop extends WindowUpTo es a b where
  closed : closes es b = true

/-- The positions the filter deletes. -/
def Deleted (mode : KeyboardCtrlCFilterMode) (es : List Event) (i : ℕ) : Prop :=
  (∃ a b, a ≤ i ∧ i ≤ b ∧ ClosedWindow es a b ∧
    (∃ c, a ≤ c ∧ c ≤ b ∧ chord es c = true) ∧
    (mode = .endingOnly → ∀ c, a ≤ c → c ≤ b → chord es c = true → c < i)) ∨
  (0 < held es es.length ∧ ∃ a, a ≤ i ∧ WindowUpTo es a es.length)

/-! ## The counter and the filter's own window -/

theorem held_zero (es : List Event) : held es 0 = 0 := rfl

theorem held_succ {es : List Event} {i : ℕ} {e : Event} (he : es[i]? = some e) :
    held es (i + 1) = count (held es i) e := by
  rw [held, List.take_add_one, he, List.foldl_append]
  rfl

theorem closes_eq {es : List Event} {i : ℕ} {e : Event} (he : es[i]? = some e) :
    closes es i = (e.isCtrlEvent && e.value == 0 && held es (i + 1) == 0) := by
  rw [closes, he]
  rfl

theorem passes_eq {es : List Event} {i : ℕ} {e : Event} (he : es[i]? = some e) :
    passes es i = (!e.isCtrlEvent && held es i == 0) := by
  rw [passes, he]
  rfl

theorem chord_eq {es : List Event} {i : ℕ} {e : Event} (he : es[i]? = some e) :
    chord es i = (e.isCtrlCPress && decide (0 < held es i)) := by
  rw [chord, he]
  rfl

theorem lt_length_of_empties {es : List Event} {i : ℕ} (h : empties es i = true) :
    i < es.length := by
  by_contra hge
  have hnone : es[i]? = none := List.getElem?_eq_none (by omega)
  rw [empties, closes, passes, hnone] at h
  exact Bool.noConfusion h

theorem empties_of_closes {es : List Event} {i : ℕ} (h : closes es i = true) :
    empties es i = true := by
  rw [empties, h, Bool.true_or]

/-- The filter leaves its window exactly at the events that empty the buffer. -/
theorem window_closes_eq {es : List Event} {i : ℕ} {e : Event} (he : es[i]? = some e)
    {w : CtrlWindow} (hw : w.depth = held es i) : w.closes e = empties es i := by
  rw [empties, closes_eq he, passes_eq he, held_succ he, CtrlWindow.closes, count, hw]
  cases e.isCtrlEvent with
  | false => simp
  | true =>
    by_cases hvalue : e.value = 0
    · simp only [hvalue, if_true, show ¬ (0 : ℤ) = 1 by omega, if_false]
      rw [Bool.eq_iff_iff]
      simp
      omega
    · have hbeq : (e.value == 0) = false := beq_eq_false_iff_ne.mpr hvalue
      simp only [hbeq, Bool.false_and, Bool.and_false, Bool.not_true, Bool.or_false, if_true]

/-- Nothing is held where the buffer is empty. -/
theorem held_eq_zero_of_empties {es : List Event} {i : ℕ} (h : empties es i = true) :
    held es (i + 1) = 0 := by
  have he := List.getElem?_eq_getElem (lt_length_of_empties h)
  rw [empties, Bool.or_eq_true_iff, closes_eq he, passes_eq he] at h
  rcases h with hclose | hpass
  · simpa using (Bool.and_eq_true_iff.mp hclose).2
  · simp only [Bool.and_eq_true, Bool.not_eq_true', beq_iff_eq] at hpass
    rw [held_succ he, count, hpass.1, hpass.2]
    rfl

/-! ## Windows -/

section Windows

variable {es : List Event} {a b c n i : ℕ} {mode : KeyboardCtrlCFilterMode}

theorem Buffered.held_start (h : Buffered es a b) : held es a = 0 := by
  rcases h.fresh with rfl | hempty
  · rfl
  · have hzero := held_eq_zero_of_empties hempty
    rcases Nat.eq_zero_or_pos a with rfl | hpos
    · rfl
    · rwa [Nat.sub_add_cancel hpos] at hzero

/-- The buffer at a position has one beginning. -/
theorem Buffered.start_unique (h : Buffered es a n) (h' : Buffered es b c) (ha : a ≤ i)
    (hn : i ≤ n) (hb : b ≤ i) (hc : i ≤ c) : a = b := by
  -- the later beginning stands behind an event that breaks the other buffer
  rcases Nat.lt_trichotomy a b with hlt | rfl | hlt
  · rcases h'.fresh with rfl | hempty
    · omega
    · rw [h.unbroken (b - 1) (by omega) (by omega)] at hempty
      exact Bool.noConfusion hempty
  · rfl
  · rcases h.fresh with rfl | hempty
    · omega
    · rw [h'.unbroken (a - 1) (by omega) (by omega)] at hempty
      exact Bool.noConfusion hempty

/-- Whatever is not an event of a Ctrl key is buffered with the counter positive. -/
theorem held_pos_of_not_empties {e : Event} (he : es[i]? = some e)
    (hkeep : empties es i = false) (hctrl : e.isCtrlEvent = false) : 0 < held es i := by
  rw [empties, Bool.or_eq_false_iff, passes_eq he, hctrl] at hkeep
  simpa [Nat.pos_iff_ne_zero] using hkeep.2

/-- The first buffered event is an event of a Ctrl key. -/
theorem Buffered.windowUpTo (h : Buffered es a b) (hlt : a < b) (hlen : a < es.length) :
    WindowUpTo es a b := by
  have he := List.getElem?_eq_getElem hlen
  refine ⟨h, ?_⟩
  rw [he, Option.any_some]
  by_contra hctrl
  have hpos := held_pos_of_not_empties he (h.unbroken a hlt (le_refl a))
    (Bool.eq_false_iff.mpr hctrl)
  rw [h.held_start] at hpos
  exact Nat.lt_irrefl 0 hpos

/-- A window has one close. -/
theorem Buffered.close_unique (h : Buffered es a n) (h' : Buffered es a b)
    (hn : empties es n = true) (hb : empties es b = true) (ha : a ≤ n) (hb' : a ≤ b) :
    b = n := by
  rcases Nat.lt_trichotomy b n with hlt | rfl | hlt
  · rw [h.unbroken b hlt hb'] at hb
    exact Bool.noConfusion hb
  · rfl
  · rw [h'.unbroken n hlt ha] at hn
    exact Bool.noConfusion hn

/-- Inside a closed window the deletions are decided by its chords alone. -/
theorem ClosedWindow.deleted_iff (h : ClosedWindow es a n) (ha : a ≤ i) (hn : i ≤ n) :
    Deleted mode es i ↔ (∃ c, a ≤ c ∧ c ≤ n ∧ chord es c = true) ∧
      (mode = .endingOnly → ∀ c, a ≤ c → c ≤ n → chord es c = true → c < i) := by
  have hempty := empties_of_closes h.closed
  constructor
  · rintro (⟨a', b, ha', hb, hwin, hchord, hmode⟩ | ⟨-, a', ha', hopen⟩)
    · obtain rfl := h.toBuffered.start_unique hwin.toBuffered ha hn ha' hb
      obtain rfl := h.toBuffered.close_unique hwin.toBuffered hempty
        (empties_of_closes hwin.closed) (by omega) (by omega)
      exact ⟨hchord, hmode⟩
    · rw [hopen.unbroken n (lt_length_of_empties hempty) (by omega)] at hempty
      exact Bool.noConfusion hempty
  · rintro ⟨hchord, hmode⟩
    exact Or.inl ⟨a, n, ha, hn, h, hchord, hmode⟩

/-- Nothing is deleted where the buffer ends without a Ctrl release. -/
theorem Buffered.not_deleted_of_passes (h : Buffered es a n) (hempty : empties es n = true)
    (hpass : closes es n = false) (ha : a ≤ i) (hn : i ≤ n) : ¬ Deleted mode es i := by
  rintro (⟨a', b, ha', hb, hwin, -, -⟩ | ⟨-, a', ha', hopen⟩)
  · obtain rfl := h.start_unique hwin.toBuffered ha hn ha' hb
    obtain rfl := h.close_unique hwin.toBuffered hempty (empties_of_closes hwin.closed)
      (by omega) (by omega)
    rw [hwin.closed] at hpass
    exact Bool.noConfusion hpass
  · rw [hopen.unbroken n (lt_length_of_empties hempty) (by omega)] at hempty
    exact Bool.noConfusion hempty

/-- What is still buffered at the end is deleted exactly if a Ctrl key is held there. -/
theorem Buffered.deleted_iff_at_end (h : Buffered es a es.length) (ha : a ≤ i)
    (hi : i < es.length) : Deleted mode es i ↔ 0 < held es es.length := by
  constructor
  · rintro (⟨a', b, ha', hb, hwin, -, -⟩ | ⟨hheld, -⟩)
    · have hempty := empties_of_closes hwin.closed
      rw [h.unbroken b (lt_length_of_empties hempty) (by omega)] at hempty
      exact Bool.noConfusion hempty
    · exact hheld
  · intro hheld
    exact Or.inr ⟨hheld, a, ha, h.windowUpTo (by omega) (by omega)⟩

end Windows

end KeySequence

/-! ## The cut after the last KEY_C press -/

/-- The cut position is the last KEY_C press of the buffer, if there is one. -/
theorem lastCtrlCPress_spec {pending : List Event}
    (h : lastCtrlCPress pending < pending.length) :
    pending[lastCtrlCPress pending]?.any Event.isCtrlCPress = true ∧
      ∀ j, pending[j]?.any Event.isCtrlCPress = true → j ≤ lastCtrlCPress pending := by
  have hfold : ∀ (l : List Event) (last : ℕ), l.length ≤ last →
      let cut := l.zipIdx.foldl (fun last e => if e.1.isCtrlCPress then e.2 else last) last
      (cut < l.length → l[cut]?.any Event.isCtrlCPress = true) ∧ (cut < l.length ∨ cut = last) ∧
        ∀ j, l[j]?.any Event.isCtrlCPress = true → j ≤ cut := by
    intro l last
    induction l using List.reverseRecOn with
    | nil =>
      intro _
      exact ⟨nofun, Or.inr rfl, fun j hj => nomatch hj⟩
    | append_singleton l e ih =>
      intro hlast
      rw [List.length_append, List.length_singleton] at hlast
      obtain ⟨hat, hcut, hlater⟩ := ih (by omega)
      rw [List.zipIdx_append, List.foldl_append]
      simp only [List.zipIdx_singleton, List.foldl_cons, List.foldl_nil, Nat.zero_add,
        List.length_append, List.length_singleton]
      have hbound : ∀ j, (l ++ [e])[j]?.any Event.isCtrlCPress = true → j ≤ l.length := by
        intro j hj
        by_contra hgt
        rw [List.getElem?_eq_none (by rw [List.length_append, List.length_singleton]; omega)] at hj
        exact Bool.noConfusion hj
      by_cases hpress : e.isCtrlCPress = true
      · rw [if_pos hpress, List.getElem?_concat_length]
        exact ⟨fun _ => hpress, Or.inl (Nat.lt_succ_self _), hbound⟩
      · rw [if_neg hpress]
        refine ⟨fun hlt => ?_, hcut.imp_left (by omega), fun j hj => ?_⟩
        · have hlt' := hcut.resolve_right (by omega)
          rw [List.getElem?_append_left hlt']
          exact hat hlt'
        · rcases Nat.lt_or_eq_of_le (hbound j hj) with hlt | rfl
          · rw [List.getElem?_append_left hlt] at hj
            exact hlater j hj
          · rw [List.getElem?_concat_length] at hj
            exact absurd hj hpress
  obtain ⟨hat, -, hlater⟩ := hfold pending pending.length (le_refl _)
  exact ⟨hat h, hlater⟩

namespace KeySequence

section Filter

variable {es : List Event} {mode : KeyboardCtrlCFilterMode}

/-- Inside a buffer every KEY_C press counts as a chord. -/
theorem chord_eq_of_not_empties {i : ℕ} (hkeep : empties es i = false) :
    chord es i = es[i]?.any Event.isCtrlCPress := by
  cases he : es[i]? with
  | none => rw [chord, he]; rfl
  | some e =>
    rw [chord_eq he, Option.any_some]
    cases hpress : e.isCtrlCPress with
    | false => rfl
    | true =>
      have hctrl : e.isCtrlEvent = false := by
        apply Bool.eq_false_iff.mpr
        intro hctrl
        rw [not_isCtrlCPress_of_isCtrlEvent hctrl] at hpress
        exact Bool.noConfusion hpress
      simp only [held_pos_of_not_empties he hkeep hctrl, decide_true, Bool.and_true]

/-- No event of a Ctrl key is a chord. -/
theorem not_chord_of_closes {n : ℕ} (hclose : closes es n = true) : chord es n = false := by
  have he := List.getElem?_eq_getElem (lt_length_of_empties (empties_of_closes hclose))
  rw [closes_eq he, Bool.and_assoc, Bool.and_eq_true_iff] at hclose
  rw [chord_eq he, not_isCtrlCPress_of_isCtrlEvent hclose.1, Bool.false_and]

open Classical in
/-- The positions that stay. -/
noncomputable def kept (mode : KeyboardCtrlCFilterMode) (es : List Event) (i : ℕ) : Bool :=
  decide (¬ Deleted mode es i)

open Classical in
theorem kept_eq_true {i : ℕ} : kept mode es i = true ↔ ¬ Deleted mode es i := by
  rw [kept, decide_eq_true_eq]

theorem kept_eq_false {i : ℕ} : kept mode es i = false ↔ Deleted mode es i := by
  rw [← Bool.not_eq_true, kept_eq_true, not_not]

/-- After `n` events, everything before position `a` is decided and the rest is buffered. -/
structure Progress (mode : KeyboardCtrlCFilterMode) (es : List Event) (n a : ℕ)
    (s : KeyboardFilterState) (out : List Event) : Prop where
  sound : s.Sound
  depth : s.window.depth = held es n
  le : a ≤ n
  buffered : Buffered es a n
  pending : s.pendingEvents = (es.take n).drop a
  saw : s.sawCtrlC = true ↔ ∃ c, a ≤ c ∧ c < n ∧ chord es c = true
  out : out = keep (kept mode es) 0 (es.take a)

section Step

variable {n a : ℕ} {s : KeyboardFilterState} {out : List Event} {e : Event}

theorem Progress.pending_concat (h : Progress mode es n a s out) (he : es[n]? = some e) :
    s.pendingEvents ++ [e] = (es.take (n + 1)).drop a := by
  obtain ⟨hlt, -⟩ := List.getElem?_eq_some_iff.mp he
  have hlen : (es.take n).length = n := by
    rw [List.length_take]
    omega
  rw [h.pending, List.take_add_one, he, List.drop_append_of_le_length (by rw [hlen]; exact h.le)]
  rfl

theorem Progress.closedWindow (h : Progress mode es n a s out) (hclose : closes es n = true) :
    ClosedWindow es a n := by
  have hlen := lt_length_of_empties (empties_of_closes hclose)
  have hle := h.le
  refine ⟨?_, hclose⟩
  rcases Nat.lt_or_eq_of_le hle with hlt | rfl
  · exact h.buffered.windowUpTo hlt (by omega)
  · have he := List.getElem?_eq_getElem hlen
    rw [closes_eq he, Bool.and_assoc, Bool.and_eq_true_iff] at hclose
    exact ⟨h.buffered, by rw [he]; exact hclose.1⟩

/-- A buffer without a chord is left whole. -/
theorem Progress.kept_of_not_saw (h : Progress mode es n a s out)
    (hempty : empties es n = true) (hsaw : s.sawCtrlC = false) {j : ℕ} (ha : a ≤ j)
    (hn : j ≤ n) : kept mode es j = true := by
  rw [kept_eq_true]
  cases hclose : closes es n with
  | false => exact h.buffered.not_deleted_of_passes hempty hclose ha hn
  | true =>
    rw [(h.closedWindow hclose).deleted_iff ha hn]
    rintro ⟨⟨c, hac, hcn, hchord⟩, -⟩
    rcases Nat.lt_or_eq_of_le hcn with hlt | rfl
    · have := h.saw.mpr ⟨c, hac, hlt, hchord⟩
      rw [hsaw] at this
      exact Bool.noConfusion this
    · rw [not_chord_of_closes hclose] at hchord
      exact Bool.noConfusion hchord

/-- A buffer with a chord ends with the release of the last Ctrl key. -/
theorem Progress.closes_of_saw (h : Progress mode es n a s out)
    (hempty : empties es n = true) (hsaw : s.sawCtrlC = true) : closes es n = true := by
  have he := List.getElem?_eq_getElem (lt_length_of_empties hempty)
  have hheld : 0 < held es n := by
    have hpos := h.sound.saw_held hsaw
    have hdepth : s.window.depth = s.ctrlDownCount.toNat := rfl
    rw [← h.depth, hdepth]
    omega
  rcases Bool.or_eq_true_iff.mp hempty with hclose | hpass
  · exact hclose
  · rw [passes_eq he, Bool.and_eq_true_iff, beq_iff_eq] at hpass
    omega

/-- Buffered KEY_C presses are the chords of the window being closed. -/
theorem Progress.chord_iff (h : Progress mode es n a s out) (hclose : closes es n = true)
    {c : ℕ} (ha : a ≤ c) (hn : c ≤ n) :
    chord es c = true ↔
      ((es.take (n + 1)).drop a)[c - a]?.any Event.isCtrlCPress = true := by
  have hget : ((es.take (n + 1)).drop a)[c - a]? = es[c]? := by
    rw [List.getElem?_drop, List.getElem?_take, if_pos (by omega),
      show a + (c - a) = c by omega]
  rw [hget]
  rcases Nat.lt_or_eq_of_le hn with hlt | rfl
  · rw [chord_eq_of_not_empties (h.buffered.unbroken c hlt ha)]
  · rw [not_chord_of_closes hclose]
    have he := List.getElem?_eq_getElem (lt_length_of_empties (empties_of_closes hclose))
    rw [closes_eq he, Bool.and_assoc, Bool.and_eq_true_iff] at hclose
    rw [he, Option.any_some, not_isCtrlCPress_of_isCtrlEvent hclose.1]

/-- Where the buffer empties, the filter emits what stays of it. -/
theorem Progress.keep_block (h : Progress mode es n a s out) (hmode : mode ≠ .off)
    (he : es[n]? = some e) (hempty : empties es n = true) :
    keep (kept mode es) a ((es.take (n + 1)).drop a) =
      KeyboardFilterState.emitPending mode
        { s with pendingEvents := s.pendingEvents ++ [e] } := by
  have hle := h.le
  have hlen : ((es.take (n + 1)).drop a).length = n + 1 - a := by
    rw [List.length_drop, List.length_take]
    have := lt_length_of_empties hempty
    omega
  simp only [KeyboardFilterState.emitPending, h.pending_concat he]
  cases hsaw : s.sawCtrlC with
  | false =>
    rw [if_pos (by rfl)]
    exact keep_eq_self fun j ha hlt => h.kept_of_not_saw hempty hsaw ha (by omega)
  | true =>
    have hclose := h.closes_of_saw hempty hsaw
    have hwin := h.closedWindow hclose
    obtain ⟨c, hac, hcn, hchord⟩ := h.saw.mp hsaw
    rw [if_neg (by decide)]
    cases mode with
    | off => exact absurd rfl hmode
    | full =>
      rw [if_neg (by decide)]
      apply keep_eq_nil
      intro j ha hlt
      rw [kept_eq_false, hwin.deleted_iff ha (by omega)]
      exact ⟨⟨c, hac, by omega, hchord⟩, KeyboardCtrlCFilterMode.noConfusion⟩
    | endingOnly =>
      have hpress := (h.chord_iff hclose hac (by omega)).mp hchord
      have hcut : lastCtrlCPress ((es.take (n + 1)).drop a) <
          ((es.take (n + 1)).drop a).length := by
        obtain ⟨x, hx, hxc⟩ := (Option.any_eq_true _ _).mp hpress
        exact lastCtrlCPress_lt ⟨x, List.mem_of_getElem? hx, hxc⟩
      obtain ⟨hat, hlater⟩ := lastCtrlCPress_spec hcut
      rw [if_pos rfl, emitPendingThroughLastCtrlCPress, if_pos hcut]
      apply keep_eq_take
      intro j ha hlt
      rw [kept_eq_true, hwin.deleted_iff ha (by omega), not_and, Classical.not_imp]
      generalize lastCtrlCPress ((es.take (n + 1)).drop a) = cut at hcut hat hlater
      constructor
      · intro hkept
        by_contra hge
        apply (hkept ⟨c, hac, by omega, hchord⟩).2
        intro c' hac' hcn' hchord'
        have := hlater _ ((h.chord_iff hclose hac' hcn').mp hchord')
        omega
      · rintro hlt' -
        refine ⟨rfl, fun hall => ?_⟩
        have hlast : chord es (a + cut) = true := by
          rw [h.chord_iff hclose (Nat.le_add_right _ _) (by omega), Nat.add_sub_cancel_left]
          exact hat
        have := hall (a + cut) (by omega) (by omega) hlast
        omega

/-- One more event. -/
theorem Progress.next (h : Progress mode es n a s out) (hmode : mode ≠ .off)
    (he : es[n]? = some e) :
    ∃ a', Progress mode es (n + 1) a' (processKeyboardEventWithCtrlFilter e mode s).1
      (out ++ (processKeyboardEventWithCtrlFilter e mode s).2) := by
  have hstep := filterStep e hmode h.sound
  have hcloses := window_closes_eq he h.depth
  have hle := h.le
  cases hempty : empties es n with
  | true =>
    rw [hempty] at hcloses
    have hwindow := hstep.window
    rw [CtrlWindow.next_of_closes hcloses] at hwindow
    refine ⟨n + 1, hstep.sound, ?_, le_refl _, ⟨Or.inr hempty, fun j hj hle => by omega⟩, ?_,
      ?_, ?_⟩
    · rw [hwindow, held_eq_zero_of_empties hempty]
      rfl
    · rw [hstep.emptied hcloses, List.drop_eq_nil_of_le (List.length_take_le _ _)]
    · have hsaw : (processKeyboardEventWithCtrlFilter e mode s).1.sawCtrlC = false :=
        congrArg CtrlWindow.chord hwindow
      rw [hsaw]
      refine iff_of_false Bool.false_ne_true ?_
      rintro ⟨c, hge, hlt, -⟩
      omega
    · have hlen : (es.take a).length = a := by
        have := lt_length_of_empties hempty
        rw [List.length_take]
        omega
      have hsplit := List.take_append_drop a (es.take (n + 1))
      rw [List.take_take, Nat.min_eq_left (by omega)] at hsplit
      rw [process_emitted_of_closes hmode h.sound hcloses, ← h.keep_block hmode he hempty, h.out,
        ← hsplit, keep_append, hlen, Nat.zero_add, hsplit]
  | false =>
    rw [hempty] at hcloses
    obtain ⟨hpending, hout⟩ := hstep.inside hcloses
    have hwindow := hstep.window
    rw [CtrlWindow.next_of_not_closes hcloses] at hwindow
    refine ⟨a, hstep.sound, ?_, by omega, ⟨h.buffered.fresh, fun j hj haj => ?_⟩, ?_, ?_, ?_⟩
    · rw [hwindow, held_succ he, ← h.depth]
      rfl
    · rcases Nat.lt_or_eq_of_le (Nat.le_of_lt_succ hj) with hlt | rfl
      · exact h.buffered.unbroken j hlt haj
      · exact hempty
    · rw [hpending, h.pending_concat he]
    · have hsaw : (processKeyboardEventWithCtrlFilter e mode s).1.sawCtrlC =
          (s.sawCtrlC || e.isCtrlCPress) := congrArg CtrlWindow.chord hwindow
      rw [hsaw, Bool.or_eq_true_iff]
      have hchord : chord es n = e.isCtrlCPress := by
        rw [chord_eq_of_not_empties hempty, he, Option.any_some]
      constructor
      · rintro (hsaw | hpress)
        · obtain ⟨c, hac, hlt, hc⟩ := h.saw.mp hsaw
          exact ⟨c, hac, by omega, hc⟩
        · exact ⟨n, hle, by omega, by rw [hchord]; exact hpress⟩
      · rintro ⟨c, hac, hlt, hc⟩
        rcases Nat.lt_or_eq_of_le (Nat.le_of_lt_succ hlt) with hlt | rfl
        · exact Or.inl (h.saw.mpr ⟨c, hac, hlt, hc⟩)
        · rw [hchord] at hc
          exact Or.inr hc
    · rw [hout, List.append_nil, h.out]

end Step

theorem progress_initial (mode : KeyboardCtrlCFilterMode) (es : List Event) :
    Progress mode es 0 0 .initial [] :=
  ⟨KeyboardFilterState.sound_initial, rfl, le_refl _, ⟨Or.inl rfl, fun _ hj => by omega⟩, rfl,
    iff_of_false Bool.false_ne_true (fun ⟨_, _, hlt, _⟩ => by omega), rfl⟩

/-- The run over every beginning of the sequence. -/
theorem progress_take (hmode : mode ≠ .off) (es : List Event) {n : ℕ} (hn : n ≤ es.length) :
    ∃ a, Progress mode es n a (filterEvents mode .initial (es.take n)).1
      (filterEvents mode .initial (es.take n)).2 := by
  induction n with
  | zero => exact ⟨0, progress_initial mode es⟩
  | succ n ih =>
    obtain ⟨a, h⟩ := ih (by omega)
    have he := List.getElem?_eq_getElem (show n < es.length by omega)
    rw [List.take_add_one, he, Option.toList_some, filterEvents_concat]
    exact h.next hmode he

theorem filterEvents_sound (hmode : mode ≠ .off) (es : List Event) :
    (filterEvents mode .initial es).1.Sound := by
  obtain ⟨a, h⟩ := progress_take hmode es (le_refl es.length)
  rw [List.take_length] at h
  exact h.sound

theorem emittedEvents_eq_keep (hmode : mode ≠ .off) (es : List Event) :
    emittedEvents mode es = keep (kept mode es) 0 es := by
  obtain ⟨a, h⟩ := progress_take hmode es (le_refl es.length)
  rw [List.take_length] at h
  have hle := h.le
  have hlen : (es.take a).length = a := by
    rw [List.length_take]
    omega
  have hdrop : (es.drop a).length = es.length - a := List.length_drop
  simp only [emittedEvents]
  rw [flushKeyboardEventFilter_emitted hmode h.sound, h.depth, h.pending, List.take_length, h.out]
  conv_rhs => rw [← List.take_append_drop a es, keep_append, hlen, Nat.zero_add]
  rw [List.take_append_drop]
  congr 1
  -- what is left in the buffer at the end is deleted or kept as a whole
  by_cases hheld : 0 < held es es.length
  · rw [if_pos hheld, keep_eq_nil]
    intro j ha hlt
    rw [kept_eq_false, h.buffered.deleted_iff_at_end ha (by omega)]
    exact hheld
  · rw [if_neg hheld, keep_eq_self]
    intro j ha hlt
    rw [kept_eq_true, h.buffered.deleted_iff_at_end ha (by omega)]
    exact hheld

end Filter

/-- The filter as windowing: it emits the sequence without the deleted positions, and along
the run Ctrl+C is remembered only while a Ctrl key is held. -/
theorem emitted_eq_undeleted (mode : KeyboardCtrlCFilterMode)
    (hmode : mode = .full ∨ mode = .endingOnly) (es : List Event) :
    emittedEvents mode es = keep (kept mode es) 0 es ∧
      ∀ n, let s := (filterEvents mode .initial (es.take n)).1
        ((s.sawCtrlC = true → 0 < s.ctrlDownCount) ∧ 0 ≤ s.ctrlDownCount) ∧
        let t := (flushKeyboardEventFilter mode s).1
        (t.sawCtrlC = true → 0 < t.ctrlDownCount) ∧ 0 ≤ t.ctrlDownCount := by
  have hon : mode ≠ .off := by
    rcases hmode with rfl | rfl
    · exact KeyboardCtrlCFilterMode.noConfusion
    · exact KeyboardCtrlCFilterMode.noConfusion
  refine ⟨emittedEvents_eq_keep hon es, fun n => ?_⟩
  have hs := filterEvents_sound hon (es.take n)
  refine ⟨⟨hs.saw_held, hs.count_nonneg⟩, ?_⟩
  rw [flushKeyboardEventFilter, if_neg hon]
  split
  · exact ⟨hs.saw_held, hs.count_nonneg⟩
  · exact ⟨Bool.noConfusion, hs.count_nonneg⟩

/-- Ctrl+A and Ctrl+C with both Ctrl keys held, then A: in ending-only mode the releases at the end
of the window are deleted, and the window ends with the release of the second Ctrl key. -/
theorem emitted_eq_undeleted_copy :
    let es := [makeKeyEvent keyLeftctrl 1, makeKeyEvent keyRightctrl 1, makeKeyEvent keyA 1,
      makeKeyEvent keyA 0, makeKeyEvent keyC 1, makeKeyEvent keyC 0, makeKeyEvent keyLeftctrl 0,
      makeKeyEvent keyRightctrl 0, makeKeyEvent keyA 1]
    keep (kept .endingOnly es) 0 es = [makeKeyEvent keyLeftctrl 1, makeKeyEvent keyRightctrl 1,
      makeKeyEvent keyA 1, makeKeyEvent keyA 0, makeKeyEvent keyC 1, makeKeyEvent keyA 1] := by
  intro es
  rw [← (emitted_eq_undeleted .endingOnly (Or.inr rfl) es).1]
  rfl

end KeySequence

end Evrp
