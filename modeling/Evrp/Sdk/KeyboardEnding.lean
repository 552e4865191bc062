import Evrp.Sdk.KeyboardDeletion
import Mathlib.Algebra.Order.Interval.Finset.SuccPred
import Mathlib.Data.Nat.SuccPred
import Mathlib.Order.Interval.Finset.Nat

/-!
# The documented meaning of the default filter mode

Ending-only mode is documented to drop the KEY_C release and the Ctrl release
after a Ctrl+C press. The filter cuts the window behind its last chord, whatever
stands there. The two agree exactly on the sequences whose windows hold nothing
but such releases behind the last chord and in which that chord was pressed, and
not only repeated, inside the window.
-/

namespace Evrp

namespace KeySequence

open Positions

/-- A press of KEY_C; a repeat is none. -/
def isKeyCPress (e : Event) : Bool := e.type == evKey && e.code == keyC && e.value == 1

def isKeyCRelease (e : Event) : Bool := e.type == evKey && e.code == keyC && e.value == 0

def isCtrlPress (e : Event) : Bool := e.isCtrlEvent && e.value == 1

def isCtrlRelease (e : Event) : Bool := e.isCtrlEvent && e.value == 0

/-- The two kinds of release that end a Ctrl+C. -/
def isEnding (e : Event) : Bool := isKeyCRelease e || isCtrlRelease e

/-- Every Ctrl press is matched by a later Ctrl release, two presses by different ones. -/
def CtrlMatched (es : List Event) : Prop :=
  ∃ f : ℕ → ℕ,
    (∀ i, es[i]?.any isCtrlPress = true → i < f i ∧ es[f i]?.any isCtrlRelease = true) ∧
    ∀ i j, es[i]?.any isCtrlPress = true → es[j]?.any isCtrlPress = true → f i = f j → i = j

/-- Whatever is missing from the emitted events is a KEY_C release or a Ctrl release that
follows a KEY_C press in the same window. -/
def DropsOnlyEndings (es emitted : List Event) : Prop :=
  ∃ stays : ℕ → Bool, emitted = keep stays 0 es ∧
    ∀ i < es.length, stays i = false → es[i]?.any isEnding = true ∧
      ∃ a b j, ClosedWindow es a b ∧ a ≤ j ∧ j < i ∧ i ≤ b ∧ es[j]?.any isKeyCPress = true

/-- Every closed window with a chord holds a KEY_C press up to its last chord and nothing
but KEY_C releases and Ctrl releases behind it. -/
def ChordsEndWindows (es : List Event) : Prop :=
  ∀ a b c, ClosedWindow es a b → a ≤ c → c ≤ b → chord es c = true →
    (∀ c', a ≤ c' → c' ≤ b → chord es c' = true → c' ≤ c) →
    (∃ j, a ≤ j ∧ j ≤ c ∧ es[j]?.any isKeyCPress = true) ∧
      ∀ i, c < i → i ≤ b → es[i]?.any isEnding = true

/-! ## Matched presses leave nothing held -/

section Matched

variable {es : List Event}

/-- The number of positions from `i` up to `n` whose event is of a kind. -/
def countBetween (es : List Event) (p : Event → Bool) (i n : ℕ) : ℕ :=
  ((Finset.Ico i n).filter fun j => es[j]?.any p = true).card

theorem countBetween_succ {p : Event → Bool} {i n : ℕ} {e : Event} (hi : i ≤ n)
    (he : es[n]? = some e) :
    countBetween es p i (n + 1) = countBetween es p i n + if p e then 1 else 0 := by
  rw [countBetween, ← Finset.insert_Ico_right_eq_Ico_add_one hi, Finset.filter_insert, he,
    Option.any_some]
  split
  · rw [Finset.card_insert_of_notMem (by simp)]
    rfl
  · rfl

theorem countBetween_self (p : Event → Bool) (n : ℕ) : countBetween es p n n = 0 := by
  rw [countBetween, Finset.Ico_self, Finset.filter_empty, Finset.card_empty]

/-- The counter is the surplus of presses over releases since it was last cut off at zero. -/
theorem exists_held_eq_surplus {n : ℕ} (hn : n ≤ es.length) :
    ∃ i ≤ n, held es n + countBetween es isCtrlRelease i n =
      countBetween es isCtrlPress i n := by
  induction n with
  | zero => exact ⟨0, le_refl 0, by rw [held_zero, countBetween_self, countBetween_self]⟩
  | succ n ih =>
    obtain ⟨i, hi, hsurplus⟩ := ih (by omega)
    have he := List.getElem?_eq_getElem (show n < es.length by omega)
    generalize es[n] = e at he
    have hrelease := countBetween_succ (p := isCtrlRelease) hi he
    have hpress := countBetween_succ (p := isCtrlPress) hi he
    rw [held_succ he, count]
    simp only [isCtrlRelease, isCtrlPress, Bool.and_eq_true, beq_iff_eq] at hrelease hpress
    cases hctrl : e.isCtrlEvent with
    | false =>
      simp only [hctrl, Bool.false_eq_true, false_and, if_false] at hrelease hpress ⊢
      exact ⟨i, by omega, by omega⟩
    | true =>
      simp only [hctrl, true_and, if_true] at hrelease hpress ⊢
      by_cases hone : e.value = 1
      · rw [if_pos hone] at hpress ⊢
        rw [if_neg (by omega)] at hrelease
        exact ⟨i, by omega, by omega⟩
      · rw [if_neg hone] at hpress ⊢
        by_cases hzero : e.value = 0
        · rw [if_pos hzero] at hrelease ⊢
          rcases Nat.eq_zero_or_pos (held es n) with hnone | hpos
          · exact ⟨n + 1, le_refl _, by rw [countBetween_self, countBetween_self, hnone]⟩
          · exact ⟨i, by omega, by omega⟩
        · rw [if_neg hzero] at hrelease ⊢
          exact ⟨i, by omega, by omega⟩

theorem CtrlMatched.held_eq_zero (h : CtrlMatched es) : held es es.length = 0 := by
  obtain ⟨f, hlater, hinj⟩ := h
  obtain ⟨i, -, hsurplus⟩ := exists_held_eq_surplus (le_refl es.length)
  have hle : countBetween es isCtrlPress i es.length ≤
      countBetween es isCtrlRelease i es.length := by
    apply Finset.card_le_card_of_injOn f
    · intro j hj
      obtain ⟨hmem, hpress⟩ := Finset.mem_filter.mp hj
      obtain ⟨hlt, hrelease⟩ := hlater j hpress
      have hle := (Finset.mem_Ico.mp hmem).1
      refine Finset.mem_coe.mpr
        (Finset.mem_filter.mpr ⟨Finset.mem_Ico.mpr ⟨by omega, ?_⟩, hrelease⟩)
      obtain ⟨x, hx, -⟩ := (Option.any_eq_true _ _).mp hrelease
      exact (List.getElem?_eq_some_iff.mp hx).1
    · intro j hj k hk heq
      exact hinj j k (Finset.mem_filter.mp hj).2 (Finset.mem_filter.mp hk).2 heq
  omega

end Matched

/-! ## The cut and the documented endings -/

section Endings

variable {es : List Event} {a b c : ℕ}

/-- A window with a chord has a last one. -/
theorem exists_last_chord (hc : a ≤ c) (hb : c ≤ b) (h : chord es c = true) :
    ∃ d, a ≤ d ∧ d ≤ b ∧ chord es d = true ∧
      ∀ c', a ≤ c' → c' ≤ b → chord es c' = true → c' ≤ d := by
  have hspec := Nat.findGreatest_spec (P := fun d => a ≤ d ∧ chord es d = true) hb ⟨hc, h⟩
  exact ⟨_, hspec.1, Nat.findGreatest_le b, hspec.2,
    fun c' hac' hbc' hchord => Nat.le_findGreatest hbc' ⟨hac', hchord⟩⟩

/-- The positions behind the last chord of a closed window are the deleted ones. -/
theorem ClosedWindow.deleted_of_lt (h : ClosedWindow es a b) (hac : a ≤ c) (hcb : c ≤ b)
    (hchord : chord es c = true)
    (hlast : ∀ c', a ≤ c' → c' ≤ b → chord es c' = true → c' ≤ c) {i : ℕ} (hci : c < i)
    (hib : i ≤ b) : Deleted .endingOnly es i := by
  rw [h.deleted_iff (by omega) hib]
  refine ⟨⟨c, hac, hcb, hchord⟩, fun _ c' hac' hbc' hchord' => ?_⟩
  have := hlast c' hac' hbc' hchord'
  omega

theorem chord_lt_close (h : ClosedWindow es a b) (hcb : c ≤ b) (hchord : chord es c = true) :
    c < b := by
  rcases Nat.lt_or_eq_of_le hcb with hlt | rfl
  · exact hlt
  · rw [not_chord_of_closes h.closed] at hchord
    exact Bool.noConfusion hchord

theorem not_isEnding_of_isCtrlCPress {e : Event} (h : e.isCtrlCPress = true) :
    isEnding e = false := by
  simp only [Event.isCtrlCPress, Bool.and_eq_true, Bool.or_eq_true, beq_iff_eq] at h
  have hvalue : (e.value == 0) = false := by
    rw [beq_eq_false_iff_ne]
    omega
  rw [isEnding, isKeyCRelease, isCtrlRelease, hvalue, Bool.and_false, Bool.and_false]
  rfl

theorem any_not_isEnding {o : Option Event} (h : o.any isEnding = true) :
    (o.any fun e => !isEnding e) = false := by
  obtain ⟨e, rfl, he⟩ := (Option.any_eq_true _ _).mp h
  rw [Option.any_some, he]
  rfl

theorem isCtrlCPress_of_isKeyCPress {e : Event} (h : isKeyCPress e = true) :
    e.isCtrlCPress = true := by
  simp only [isKeyCPress, Bool.and_eq_true] at h
  rw [Event.isCtrlCPress, h.1.1, h.1.2, h.2]
  rfl

theorem emittedEvents_endingOnly (es : List Event) :
    emittedEvents .endingOnly es = keep (kept .endingOnly es) 0 es :=
  emittedEvents_eq_keep (by decide) es

/-- Windows that end behind their chords lose only endings. -/
theorem dropsOnlyEndings_of_chordsEndWindows (hmatched : CtrlMatched es)
    (h : ChordsEndWindows es) : DropsOnlyEndings es (emittedEvents .endingOnly es) := by
  refine ⟨kept .endingOnly es, emittedEvents_endingOnly es, fun i _ hi => ?_⟩
  rw [kept_eq_false] at hi
  rcases hi with ⟨a, b, hai, hib, hwin, ⟨c, hac, hcb, hchord⟩, hcut⟩ | ⟨hheld, -⟩
  · obtain ⟨d, had, hdb, hchord', hlast⟩ := exists_last_chord hac hcb hchord
    obtain ⟨⟨j, haj, hjd, hpress⟩, hreleases⟩ := h a b d hwin had hdb hchord' hlast
    have hdi := hcut rfl d had hdb hchord'
    exact ⟨hreleases i hdi hib, a, b, j, hwin, haj, by omega, hib, hpress⟩
  · rw [hmatched.held_eq_zero] at hheld
    exact absurd hheld (Nat.lt_irrefl 0)

/-- If only endings are missing, the filter deletes only endings: as many events of every
other kind are emitted as there are. -/
theorem spares_kept {stays : ℕ → Bool} (hout : emittedEvents .endingOnly es = keep stays 0 es)
    (hmissing : ∀ i < es.length, stays i = false → es[i]?.any isEnding = true) :
    Spares (fun e => !isEnding e) stays 0 es ∧
      Spares (fun e => !isEnding e) (kept .endingOnly es) 0 es := by
  have hstays : Spares (fun e => !isEnding e) stays 0 es := by
    intro k x hx hN
    rw [Nat.zero_add]
    by_contra hk
    have := hmissing k (List.getElem?_eq_some_iff.mp hx).1 (Bool.eq_false_iff.mpr hk)
    rw [hx, Option.any_some] at this
    simp only [this, Bool.not_true, Bool.false_eq_true] at hN
  refine ⟨hstays, ?_⟩
  rw [spares_iff_countP, ← emittedEvents_endingOnly es, hout, ← spares_iff_countP]
  exact hstays

theorem chordsEndWindows_of_dropsOnlyEndings
    (h : DropsOnlyEndings es (emittedEvents .endingOnly es)) : ChordsEndWindows es := by
  obtain ⟨stays, hout, hmissing⟩ := h
  obtain ⟨hstays, hkept⟩ := spares_kept hout fun i hi hs => (hmissing i hi hs).1
  intro a b c hwin hac hcb hchord hlast
  have hclt := chord_lt_close hwin hcb hchord
  have hblt := lt_length_of_empties (empties_of_closes hwin.closed)
  have hendings : ∀ i, c < i → i ≤ b → es[i]?.any isEnding = true := by
    intro i hci hib
    have hdel := hwin.deleted_of_lt hac hcb hchord hlast hci hib
    have he := List.getElem?_eq_getElem (show i < es.length by omega)
    rw [he, Option.any_some]
    by_contra hN
    have := hkept i _ he (by simpa using hN)
    rw [Nat.zero_add, kept_eq_true] at this
    exact this hdel
  refine ⟨?_, hendings⟩
  -- the window's close is missing from the gap behind the chord, so whatever else the missing
  -- event is taken to be, it stands in that gap, and the KEY_C press it follows does not
  obtain ⟨e, he, hpress⟩ := (Option.any_eq_true _ _).mp (Bool.and_eq_true_iff.mp hchord).1
  obtain ⟨m, hcm, hmlt, hm, hgap⟩ := exists_deleted_in_gap he
    (by rw [not_isEnding_of_isCtrlCPress hpress]; rfl) hstays hkept
    (by rw [← hout, emittedEvents_endingOnly])
    hclt hblt (fun j hcj hjb => any_not_isEnding (hendings j hcj hjb))
    (kept_eq_false.mpr (hwin.deleted_of_lt hac hcb hchord hlast hclt (le_refl b)))
  obtain ⟨-, a', b', j, hwin', haj, hjm, hmb, hj⟩ := hmissing m hmlt hm
  have hjc : j ≤ c := by
    by_contra hcj
    obtain ⟨x, hx, hxpress⟩ := (Option.any_eq_true _ _).mp hj
    have := hgap j (by omega) (by omega)
    rw [hx, Option.any_some,
      not_isEnding_of_isCtrlCPress (isCtrlCPress_of_isKeyCPress hxpress)] at this
    exact Bool.noConfusion this
  obtain rfl := hwin.toBuffered.start_unique hwin'.toBuffered hac hcb (by omega)
    (show c ≤ b' by omega)
  exact ⟨j, haj, hjc, hj⟩

end Endings

/-- The default mode does what it documents exactly where every window with a chord ends
behind it. -/
theorem ending_dropped_iff (es : List Event) (hmatched : CtrlMatched es) :
    DropsOnlyEndings es (emittedEvents .endingOnly es) ↔ ChordsEndWindows es :=
  ⟨chordsEndWindows_of_dropsOnlyEndings, dropsOnlyEndings_of_chordsEndWindows hmatched⟩

/-- A sequence whose only Ctrl press is its first event and whose last event releases it. -/
private theorem ctrlMatched_of_single {es : List Event} {n : ℕ} (hpos : 0 < n)
    (honly : ∀ i < es.length, es[i]?.any isCtrlPress = true → i = 0)
    (hrelease : es[n]?.any isCtrlRelease = true) : CtrlMatched es := by
  have hzero : ∀ i, es[i]?.any isCtrlPress = true → i = 0 := by
    intro i hi
    obtain ⟨x, hx, -⟩ := (Option.any_eq_true _ _).mp hi
    exact honly i (List.getElem?_eq_some_iff.mp hx).1 hi
  refine ⟨fun _ => n, fun i hi => ⟨?_, hrelease⟩, fun i j hi hj _ => ?_⟩
  · rw [hzero i hi]
    exact hpos
  · rw [hzero i hi, hzero j hj]

/-- Ctrl+C alone: the two releases are dropped, as documented. -/
theorem ending_dropped_copy :
    let es := [makeKeyEvent keyLeftctrl 1, makeKeyEvent keyC 1, makeKeyEvent keyC 0,
      makeKeyEvent keyLeftctrl 0]
    emittedEvents .endingOnly es = [makeKeyEvent keyLeftctrl 1, makeKeyEvent keyC 1] ∧
      DropsOnlyEndings es (emittedEvents .endingOnly es) := by
  intro es
  refine ⟨rfl, (ending_dropped_iff es (ctrlMatched_of_single (n := 3) (by decide) (by decide)
    (by decide))).mpr ?_⟩
  intro a b c hwin hac hcb hchord _
  have hblt : b < 4 := lt_length_of_empties (empties_of_closes hwin.closed)
  have hb : b = 3 := (by decide : ∀ b < 4, closes es b = true → b = 3) b hblt hwin.closed
  have hc : c = 1 := (by decide : ∀ c < 4, chord es c = true → c = 1) c (by omega) hchord
  have ha : a = 0 :=
    (by decide : ∀ a < 2, es[a]?.any Event.isCtrlEvent = true → a = 0) a (by omega) hwin.ctrl
  subst ha hb hc
  refine ⟨⟨1, by decide, by decide, by decide⟩, fun i hlt hle => ?_⟩
  exact (by decide : ∀ i < 4, 1 < i → es[i]?.any isEnding = true) i (by omega) hlt

/-- Ctrl+C and Ctrl+V with Ctrl held: the press and the release of V are dropped as well. -/
theorem paste_dropped :
    let es := [makeKeyEvent keyLeftctrl 1, makeKeyEvent keyC 1, makeKeyEvent keyC 0,
      makeKeyEvent keyV 1, makeKeyEvent keyV 0, makeKeyEvent keyLeftctrl 0]
    CtrlMatched es ∧
      emittedEvents .endingOnly es = [makeKeyEvent keyLeftctrl 1, makeKeyEvent keyC 1] ∧
      ¬ DropsOnlyEndings es (emittedEvents .endingOnly es) := by
  intro es
  refine ⟨ctrlMatched_of_single (n := 5) (by decide) (by decide) (by decide), rfl, fun h => ?_⟩
  have hwin : ClosedWindow es 0 5 :=
    ⟨⟨⟨Or.inl rfl, by decide⟩, by decide⟩, by decide⟩
  have hlast : ∀ c', 0 ≤ c' → c' ≤ 5 → chord es c' = true → c' ≤ 1 := by
    intro c' _ hle
    exact (by decide : ∀ c' < 6, chord es c' = true → c' ≤ 1) c' (by omega)
  obtain ⟨-, hendings⟩ := chordsEndWindows_of_dropsOnlyEndings h 0 5 1 hwin (by decide)
    (by decide) (by decide) hlast
  have hV := hendings 3 (by decide) (by decide)
  exact Bool.noConfusion hV

end KeySequence

end Evrp
