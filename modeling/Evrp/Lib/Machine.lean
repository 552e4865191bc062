import Mathlib.Data.List.Basic

/-!
# Runs of interleaved machines

A machine moves by a partial step. Its label names the thread that moves and
whatever the environment answers it, so a list of labels is one interleaving
and every interleaving is such a list. Safety is proved by an invariant of the
single step; a defect confined to particular steps is excluded by a guard on
the state before the step.
-/

namespace Machine

variable {σ ℓ : Type*} (step : σ → ℓ → Option σ)

/-- Execute the labels in order; a disabled step ends the run with `none`. -/
def run : σ → List ℓ → Option σ
  | s, [] => some s
  | s, a :: as => (step s a).bind fun t => run t as

@[simp] theorem run_nil (s : σ) : run step s [] = some s := rfl

@[simp] theorem run_cons (s : σ) (a : ℓ) (as : List ℓ) :
    run step s (a :: as) = (step s a).bind fun t => run step t as := rfl

/-- A run over two segments passes through one intermediate state. -/
theorem run_append (s : σ) (as bs : List ℓ) :
    run step s (as ++ bs) = (run step s as).bind fun t => run step t bs := by
  induction as generalizing s with
  | nil => rfl
  | cons a as ih =>
    rw [List.cons_append, run_cons, run_cons]
    cases step s a with
    | none => rfl
    | some t => exact ih t

theorem run_append_some {s u : σ} {as bs : List ℓ} :
    run step s (as ++ bs) = some u ↔ ∃ t, run step s as = some t ∧ run step t bs = some u := by
  rw [run_append, Option.bind_eq_some_iff]

/-- Expose the last step of a run. -/
theorem run_concat_some {s u : σ} {as : List ℓ} {a : ℓ} :
    run step s (as ++ [a]) = some u ↔ ∃ t, run step s as = some t ∧ step t a = some u := by
  rw [run_append_some]
  simp only [run_cons, run_nil, Option.bind_fun_some]

/-- A property kept by every step is kept by every run. -/
theorem invariant_run {I : σ → Prop}
    (hstep : ∀ s a t, I s → step s a = some t → I t) {s t : σ} {as : List ℓ}
    (hs : I s) (h : run step s as = some t) : I t := by
  induction as generalizing s with
  | nil => exact Option.some.inj h ▸ hs
  | cons a as ih =>
    obtain ⟨u, hu, hrest⟩ := Option.bind_eq_some_iff.mp h
    exact ih (hstep s a u hs hu) hrest

/-- Every step of the run starts in a state where the guard admits its label. -/
def Guarded (guard : σ → ℓ → Prop) : σ → List ℓ → Prop
  | _, [] => True
  | s, a :: as => guard s a ∧ ∀ t, step s a = some t → Guarded guard t as

instance decidableGuarded (guard : σ → ℓ → Prop) [∀ s a, Decidable (guard s a)] :
    ∀ s as, Decidable (Guarded step guard s as)
  | _, [] => isTrue trivial
  | s, a :: as =>
    match hstep : step s a with
    | none => decidable_of_iff (guard s a)
        ⟨fun hg => ⟨hg, fun _ ht => nomatch hstep.symm.trans ht⟩, And.left⟩
    | some t =>
      have := decidableGuarded guard t as
      decidable_of_iff (guard s a ∧ Guarded step guard t as)
        ⟨fun hg => ⟨hg.1, fun _ ht => Option.some.inj (hstep.symm.trans ht) ▸ hg.2⟩,
          fun hg => ⟨hg.1, hg.2 t hstep⟩⟩

/-- A property kept by the guarded steps is kept by every guarded run. -/
theorem invariant_guarded_run {I : σ → Prop} {guard : σ → ℓ → Prop}
    (hstep : ∀ s a t, I s → guard s a → step s a = some t → I t) {s t : σ} {as : List ℓ}
    (hs : I s) (hg : Guarded step guard s as) (h : run step s as = some t) : I t := by
  induction as generalizing s with
  | nil => exact Option.some.inj h ▸ hs
  | cons a as ih =>
    obtain ⟨u, hu, hrest⟩ := Option.bind_eq_some_iff.mp h
    exact ih (hstep s a u hs hg.1 hu) (hg.2 u hu) hrest

theorem guarded_append {guard : σ → ℓ → Prop} {s : σ} {as bs : List ℓ} :
    Guarded step guard s (as ++ bs) ↔
      Guarded step guard s as ∧ ∀ t, run step s as = some t → Guarded step guard t bs := by
  induction as generalizing s with
  | nil => simp [Guarded]
  | cons a as ih =>
    simp only [List.cons_append, Guarded, run_cons, Option.bind_eq_some_iff, ih]
    constructor
    · rintro ⟨ha, hrest⟩
      exact ⟨⟨ha, fun t ht => (hrest t ht).1⟩, fun u ⟨t, ht, hu⟩ => (hrest t ht).2 u hu⟩
    · rintro ⟨⟨ha, has⟩, hbs⟩
      exact ⟨ha, fun t ht => ⟨has t ht, fun u hu => hbs u ⟨t, ht, hu⟩⟩⟩

/-- A complete run that is not guarded passes through a step the guard refuses. -/
theorem exists_unguarded_step {guard : σ → ℓ → Prop} {s t : σ} {as : List ℓ}
    (h : run step s as = some t) (hg : ¬ Guarded step guard s as) :
    ∃ before a after u v, as = before ++ a :: after ∧ run step s before = some u ∧
      step u a = some v ∧ run step v after = some t ∧ ¬ guard u a := by
  induction as generalizing s with
  | nil => exact absurd trivial hg
  | cons a as ih =>
    obtain ⟨u, hu, hrest⟩ := Option.bind_eq_some_iff.mp h
    by_cases ha : guard s a
    · have hnot : ¬ Guarded step guard u as := by
        intro hguarded
        refine hg ⟨ha, fun v hv => ?_⟩
        rw [hu] at hv
        exact Option.some.inj hv ▸ hguarded
      obtain ⟨before, b, after, x, y, rfl, hx, hy, ht, hb⟩ := ih hrest hnot
      refine ⟨a :: before, b, after, x, y, rfl, ?_, hy, ht, hb⟩
      rw [run_cons, hu]
      exact hx
    · exact ⟨[], a, as, s, u, rfl, rfl, hu, hrest, ha⟩

/-- A measure that every guarded step lowers bounds the guarded runs. -/
theorem length_le_of_measure {I : σ → Prop} {guard : σ → ℓ → Prop} {μ : σ → ℕ}
    (hstep : ∀ s a t, I s → guard s a → step s a = some t → I t ∧ μ t < μ s) {s t : σ}
    {as : List ℓ} (hs : I s) (hg : Guarded step guard s as) (h : run step s as = some t) :
    as.length + μ t ≤ μ s := by
  induction as generalizing s with
  | nil =>
    obtain rfl := Option.some.inj h
    exact Nat.le_of_eq (Nat.zero_add _)
  | cons a as ih =>
    obtain ⟨u, hu, hrest⟩ := Option.bind_eq_some_iff.mp h
    obtain ⟨hinv, hlt⟩ := hstep s a u hs hg.1 hu
    have := ih hinv (hg.2 u hu) hrest
    rw [List.length_cons]
    omega

/-- A label that lowers a measure can be repeated until it is disabled. -/
theorem exists_run_disabled {I : σ → Prop} (μ : σ → ℕ) {a : ℓ}
    (hstep : ∀ s t, I s → step s a = some t → I t ∧ μ t < μ s) {s : σ} (hs : I s) :
    ∃ as t, run step s as = some t ∧ I t ∧ step t a = none := by
  induction hμ : μ s using Nat.strongRecOn generalizing s with
  | ind n ih =>
    cases h : step s a with
    | none => exact ⟨[], s, rfl, hs, h⟩
    | some t =>
      obtain ⟨ht, hlt⟩ := hstep s t hs h
      obtain ⟨as, u, hrun, hu, hdisabled⟩ := ih (μ t) (hμ ▸ hlt) ht rfl
      refine ⟨a :: as, u, ?_, hu, hdisabled⟩
      rw [run_cons, h]
      exact hrun

/-- A condition on the labels alone as a guard. -/
theorem guarded_iff_forall_mem {p : ℓ → Prop} {s t : σ} {as : List ℓ}
    (h : run step s as = some t) : Guarded step (fun _ a => p a) s as ↔ ∀ a ∈ as, p a := by
  induction as generalizing s with
  | nil => simp [Guarded]
  | cons a as ih =>
    obtain ⟨u, hu, hrest⟩ := Option.bind_eq_some_iff.mp h
    rw [Guarded, List.forall_mem_cons, ← ih hrest]
    refine and_congr_right fun _ => ⟨fun hall => hall u hu, fun hall v hv => ?_⟩
    rw [hu] at hv
    exact Option.some.inj hv ▸ hall

/-- Guarded steps that lower a measure can be made until none of them is enabled. -/
theorem exists_run_settled {I : σ → Prop} {guard : σ → ℓ → Prop} (μ : σ → ℕ)
    (hstep : ∀ s a t, I s → guard s a → step s a = some t → I t ∧ μ t < μ s) {s : σ} (hs : I s) :
    ∃ as t, Guarded step guard s as ∧ run step s as = some t ∧
      ∀ a, guard t a → step t a = none := by
  induction hμ : μ s using Nat.strongRecOn generalizing s with
  | ind n ih =>
    by_cases hsettled : ∀ a, guard s a → step s a = none
    · exact ⟨[], s, trivial, rfl, hsettled⟩
    · push Not at hsettled
      obtain ⟨a, ha, henabled⟩ := hsettled
      obtain ⟨t, ht⟩ := Option.ne_none_iff_exists'.mp henabled
      obtain ⟨hinv, hlt⟩ := hstep s a t hs ha ht
      obtain ⟨as, u, has, hrun, hu⟩ := ih (μ t) (hμ ▸ hlt) hinv rfl
      refine ⟨a :: as, u, ⟨ha, fun v hv => ?_⟩, ?_, hu⟩
      · rw [ht] at hv
        exact Option.some.inj hv ▸ has
      · rw [run_cons, ht]
        exact hrun

end Machine
