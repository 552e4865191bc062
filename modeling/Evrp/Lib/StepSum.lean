import Mathlib.Algebra.Order.Group.Defs
import Mathlib.Data.List.Chain
import Mathlib.Tactic.Abel

/-!
# Sums along the steps of a sequence

The sum of a quantity over the first steps of a list. The positive parts of the
steps of a function sum to at least the difference it makes from the start, and
to exactly that difference at every point just when the function never falls.
-/

namespace StepSum

variable {α β : Type*}

/-- The sum of `d` over the first `i` steps. -/
def stepSum [AddCommGroup β] (d : α → α → β) : List α → ℕ → β
  | a :: b :: xs, i + 1 => d a b + stepSum d (b :: xs) i
  | _, _ => 0

section Group

variable [AddCommGroup β] (d : α → α → β)

@[simp] theorem stepSum_zero (xs : List α) : stepSum d xs 0 = 0 := by
  rcases xs with _ | ⟨a, _ | ⟨b, xs⟩⟩ <;> rfl

@[simp] theorem stepSum_cons_cons (a b : α) (xs : List α) (i : ℕ) :
    stepSum d (a :: b :: xs) (i + 1) = d a b + stepSum d (b :: xs) i := rfl

theorem stepSum_congr {d d' : α → α → β} {xs : List α} (h : xs.IsChain fun a b => d a b = d' a b)
    (i : ℕ) : stepSum d xs i = stepSum d' xs i := by
  induction xs generalizing i with
  | nil => rfl
  | cons a xs ih =>
    cases i with
    | zero => rw [stepSum_zero, stepSum_zero]
    | succ i =>
      cases xs with
      | nil => rfl
      | cons b xs =>
        rw [List.isChain_cons_cons] at h
        rw [stepSum_cons_cons, stepSum_cons_cons, h.1, ih h.2]

end Group

section Ordered

variable [AddCommGroup β] [LinearOrder β] [IsOrderedAddMonoid β] (f : α → β)

/-- The positive part of a step of `f`. -/
def rise (a b : α) : β := max 0 (f b - f a)

theorem le_stepSum_rise {a x : α} {xs : List α} {i : ℕ} (h : (a :: xs)[i]? = some x) :
    f x - f a ≤ stepSum (rise f) (a :: xs) i := by
  induction xs generalizing a i with
  | nil =>
    cases i with
    | zero =>
      obtain rfl := Option.some.inj h
      rw [sub_self, stepSum_zero]
    | succ i => cases h
  | cons b xs ih =>
    cases i with
    | zero =>
      obtain rfl := Option.some.inj h
      rw [sub_self, stepSum_zero]
    | succ i =>
      rw [stepSum_cons_cons]
      calc f x - f a = (f b - f a) + (f x - f b) := by abel
        _ ≤ rise f a b + stepSum (rise f) (b :: xs) i :=
          add_le_add (le_max_right _ _) (ih h)

theorem rise_eq_iff {a b : α} : rise f a b = f b - f a ↔ f a ≤ f b := by
  rw [rise, max_eq_right_iff, sub_nonneg]

omit [IsOrderedAddMonoid β] in
theorem stepSum_rise_head {a x : α} {xs : List α} (h : (a :: xs)[0]? = some x) :
    stepSum (rise f) (a :: xs) 0 = f x - f a := by
  obtain rfl := Option.some.inj h
  rw [stepSum_zero, sub_self]

/-- One step less: the first step is a rise, and the rest starts at its end. -/
theorem stepSum_rise_eq_cons_iff (a b : α) (xs : List α) (n : ℕ) :
    (∀ i x, i < n + 1 → (a :: b :: xs)[i]? = some x →
        stepSum (rise f) (a :: b :: xs) i = f x - f a) ↔
      (0 < n → f a ≤ f b) ∧
        ∀ i x, i < n → (b :: xs)[i]? = some x → stepSum (rise f) (b :: xs) i = f x - f b := by
  constructor
  · intro h
    have hfirst : 0 < n → rise f a b = f b - f a := by
      intro hn
      have hone := h 1 b (Nat.succ_lt_succ hn) rfl
      rwa [stepSum_cons_cons, stepSum_zero, add_zero] at hone
    refine ⟨fun hn => (rise_eq_iff f).mp (hfirst hn), fun i x hi hx => ?_⟩
    have hnext := h (i + 1) x (Nat.succ_lt_succ hi) hx
    rw [stepSum_cons_cons, hfirst (Nat.zero_lt_of_lt hi)] at hnext
    calc stepSum (rise f) (b :: xs) i
        = (f b - f a) + stepSum (rise f) (b :: xs) i - (f b - f a) := by abel
      _ = f x - f b := by rw [hnext]; abel
  · rintro ⟨hfirst, hrest⟩ i x hi hx
    cases i with
    | zero => exact stepSum_rise_head f hx
    | succ i =>
      have hi' := Nat.lt_of_succ_lt_succ hi
      rw [stepSum_cons_cons, (rise_eq_iff f).mpr (hfirst (Nat.zero_lt_of_lt hi')),
        hrest i x hi' hx]
      abel

/-- The sums are the differences from the start exactly as far as `f` never falls. -/
theorem stepSum_rise_eq_iff (a : α) (xs : List α) (n : ℕ) :
    (∀ i x, i < n → (a :: xs)[i]? = some x → stepSum (rise f) (a :: xs) i = f x - f a) ↔
      ((a :: xs).take n).IsChain fun y z => f y ≤ f z := by
  induction xs generalizing a n with
  | nil =>
    refine ⟨fun _ => ?_, fun _ i x _ hx => ?_⟩
    · cases n with
      | zero => exact List.isChain_nil
      | succ n =>
        rw [List.take_succ_cons, List.take_nil]
        exact List.isChain_singleton a
    · cases i with
      | zero => exact stepSum_rise_head f hx
      | succ i => cases hx
  | cons b xs ih =>
    rcases n with _ | _ | n
    · exact ⟨fun _ => List.isChain_nil, fun _ i x hi => absurd hi (Nat.not_lt_zero i)⟩
    · refine ⟨fun _ => List.isChain_singleton a, fun _ i x hi hx => ?_⟩
      obtain rfl := Nat.lt_one_iff.mp hi
      exact stepSum_rise_head f hx
    · rw [stepSum_rise_eq_cons_iff, ih b (n + 1), imp_iff_right (Nat.succ_pos n)]
      simp only [List.take_succ_cons, List.isChain_cons_cons]

end Ordered

end StepSum
