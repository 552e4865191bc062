import Mathlib.Data.List.Basic

/-!
# Writing until the first failure

A sink takes items one by one and reports for each whether it was taken. Writing
a list stops behind the first item that fails, so longer lists only matter while
nothing has failed. If every single attempt puts at most its own item out, and
all of it on success, then what is out is a prefix of the whole.
-/

namespace Attempt

variable {σ β γ : Type*} (write : σ → β → Bool × σ)

/-- Write the items in order; the first failure ends it. -/
def writeAll : σ → List β → Bool × σ
  | s, [] => (true, s)
  | s, b :: bs => if (write s b).1 then writeAll (write s b).2 bs else (false, (write s b).2)

variable {write}

theorem writeAll_cons_true {s : σ} {b : β} (h : (write s b).1 = true) (bs : List β) :
    writeAll write s (b :: bs) = writeAll write (write s b).2 bs := by
  rw [writeAll, if_pos h]

theorem writeAll_cons_false {s : σ} {b : β} (h : (write s b).1 = false) (bs : List β) :
    writeAll write s (b :: bs) = (false, (write s b).2) := by
  rw [writeAll, if_neg (Bool.not_eq_true _ ▸ h)]

theorem writeAll_singleton (s : σ) (b : β) : writeAll write s [b] = write s b := by
  rcases hb : write s b with ⟨_ | _, t⟩ <;> simp [writeAll, hb]

/-- A list that was written completely is continued. -/
theorem writeAll_append_true {s : σ} {as : List β} (h : (writeAll write s as).1 = true)
    (bs : List β) :
    writeAll write s (as ++ bs) = writeAll write (writeAll write s as).2 bs := by
  induction as generalizing s with
  | nil => rfl
  | cons a as ih =>
    cases ha : (write s a).1 with
    | true =>
      rw [writeAll_cons_true ha] at h ⊢
      rw [List.cons_append, writeAll_cons_true ha, ih h]
    | false =>
      rw [writeAll_cons_false ha] at h
      cases h

/-- A list that failed is not continued. -/
theorem writeAll_append_false {s : σ} {as : List β} (h : (writeAll write s as).1 = false)
    (bs : List β) : writeAll write s (as ++ bs) = writeAll write s as := by
  induction as generalizing s with
  | nil => cases h
  | cons a as ih =>
    cases ha : (write s a).1 with
    | true =>
      rw [writeAll_cons_true ha] at h ⊢
      rw [List.cons_append, writeAll_cons_true ha, ih h]
    | false => rw [List.cons_append, writeAll_cons_false ha, writeAll_cons_false ha]

/-- What every attempt keeps is kept by all of them. -/
theorem writeAll_invariant {I : σ → Prop} (hwrite : ∀ s b, I s → I (write s b).2) {s : σ}
    (hs : I s) (bs : List β) : I (writeAll write s bs).2 := by
  induction bs generalizing s with
  | nil => exact hs
  | cons b bs ih =>
    rw [writeAll]
    split
    · exact ih (hwrite s b hs)
    · exact hwrite s b hs

/-- What is out is a prefix of what was to be written, and all of it if nothing failed. -/
theorem writeAll_prefix (out : σ → List γ) (content : β → List γ)
    (hwrite : ∀ s b, ∃ part, part <+: content b ∧ out (write s b).2 = out s ++ part ∧
      ((write s b).1 = true → part = content b)) (s : σ) (bs : List β) :
    ∃ part, part <+: bs.flatMap content ∧ out (writeAll write s bs).2 = out s ++ part ∧
      ((writeAll write s bs).1 = true → part = bs.flatMap content) := by
  induction bs generalizing s with
  | nil => exact ⟨[], List.prefix_rfl, (List.append_nil _).symm, fun _ => rfl⟩
  | cons b bs ih =>
    obtain ⟨part, hpart, hout, hall⟩ := hwrite s b
    rw [List.flatMap_cons]
    cases hb : (write s b).1 with
    | true =>
      obtain ⟨rest, hrest, hout', hall'⟩ := ih (write s b).2
      rw [writeAll_cons_true hb, hout', hout, hall hb, List.append_assoc]
      exact ⟨_, (List.prefix_append_right_inj _).mpr hrest, rfl, fun hok => by rw [hall' hok]⟩
    | false =>
      rw [writeAll_cons_false hb]
      exact ⟨part, hpart.trans (List.prefix_append _ _), hout, fun hok => by cases hok⟩

/-- If every attempt is numbered and its number decides it, nothing failed exactly when all the
numbers used admit. -/
theorem writeAll_numbered (number : σ → ℕ) (admits : ℕ → Bool)
    (hwrite : ∀ s b, (write s b).1 = admits (number s) ∧ number (write s b).2 = number s + 1)
    (s : σ) (bs : List β) :
    number s ≤ number (writeAll write s bs).2 ∧
      ((writeAll write s bs).1 = true ↔
        ∀ n, number s ≤ n → n < number (writeAll write s bs).2 → admits n = true) := by
  induction bs generalizing s with
  | nil =>
    exact ⟨Nat.le_refl _, fun _ n hle hlt => absurd hlt (Nat.not_lt.mpr hle), fun _ => rfl⟩
  | cons b bs ih =>
    obtain ⟨hdecides, hnext⟩ := hwrite s b
    cases hb : (write s b).1 with
    | true =>
      obtain ⟨hle, hiff⟩ := ih (write s b).2
      rw [writeAll_cons_true hb, hiff]
      refine ⟨by omega, fun h n hn hlt => ?_, fun h n hn hlt => h n (by omega) hlt⟩
      rcases Nat.eq_or_lt_of_le hn with rfl | hn
      · rw [← hdecides, hb]
      · exact h n (by omega) hlt
    | false =>
      simp only [writeAll_cons_false hb, hnext]
      refine ⟨Nat.le_succ _, fun h => Bool.noConfusion h, fun h => ?_⟩
      have hself := h (number s) (Nat.le_refl _) (Nat.lt_succ_self _)
      rw [← hdecides, hb] at hself
      exact hself

end Attempt
