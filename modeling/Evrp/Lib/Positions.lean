import Mathlib.Data.List.TakeWhile

/-!
# Elements kept by position

A list from which elements are deleted by where they stand and not by what they
are. Equal elements at different positions stay apart, so a statement about the
deleted positions says more than a statement about the remaining values.
-/

namespace Positions

variable {α : Type*}

/-- The elements at the admitted positions, the first one standing at position `i`. -/
def keep (p : ℕ → Bool) (i : ℕ) (xs : List α) : List α :=
  ((xs.zipIdx i).filter fun x => p x.2).map Prod.fst

@[simp] theorem keep_nil (p : ℕ → Bool) (i : ℕ) : keep p i ([] : List α) = [] := rfl

theorem keep_cons (p : ℕ → Bool) (i : ℕ) (x : α) (xs : List α) :
    keep p i (x :: xs) = if p i then x :: keep p (i + 1) xs else keep p (i + 1) xs := by
  rw [keep, List.zipIdx_cons, List.filter_cons]
  split
  · rfl
  · rfl

theorem keep_append (p : ℕ → Bool) (i : ℕ) (xs ys : List α) :
    keep p i (xs ++ ys) = keep p i xs ++ keep p (i + xs.length) ys := by
  rw [keep, List.zipIdx_append, List.filter_append, List.map_append]
  rfl

/-- Position by position, only the admissions inside the list matter. -/
theorem keep_congr {p q : ℕ → Bool} {i : ℕ} {xs : List α}
    (h : ∀ j, i ≤ j → j < i + xs.length → p j = q j) : keep p i xs = keep q i xs := by
  induction xs generalizing i with
  | nil => rfl
  | cons x xs ih =>
    rw [List.length_cons] at h
    rw [keep_cons, keep_cons, h i (Nat.le_refl i) (by omega),
      ih fun j hle hlt => h j (by omega) (by omega)]

/-- The positions before `i + k` are a beginning of the list. -/
theorem keep_lt (i k : ℕ) (xs : List α) :
    keep (fun j => decide (j < i + k)) i xs = xs.take k := by
  induction xs generalizing i k with
  | nil => rw [keep_nil, List.take_nil]
  | cons x xs ih =>
    rw [keep_cons]
    cases k with
    | zero =>
      rw [if_neg (by simp), List.take_zero]
      have hnone := ih (i + 1) 0
      rw [List.take_zero] at hnone
      rw [← hnone]
      apply keep_congr
      intro j hle _
      rw [decide_eq_decide]
      omega
    | succ k =>
      rw [if_pos (by simp), List.take_succ_cons, ← ih (i + 1) k]
      congr 1
      apply keep_congr
      intro j _ _
      rw [decide_eq_decide]
      omega

/-- Admitting the positions before `i + k` keeps the first `k` elements. -/
theorem keep_eq_take {p : ℕ → Bool} {i k : ℕ} {xs : List α}
    (h : ∀ j, i ≤ j → j < i + xs.length → (p j = true ↔ j < i + k)) :
    keep p i xs = xs.take k := by
  rw [← keep_lt i k xs]
  apply keep_congr
  intro j hle hlt
  rw [Bool.eq_iff_iff, h j hle hlt, decide_eq_true_eq]

theorem keep_eq_self {p : ℕ → Bool} {i : ℕ} {xs : List α}
    (h : ∀ j, i ≤ j → j < i + xs.length → p j = true) : keep p i xs = xs := by
  rw [keep_eq_take (k := xs.length) fun j hle hlt => iff_of_true (h j hle hlt) hlt,
    List.take_length]

theorem keep_eq_nil {p : ℕ → Bool} {i : ℕ} {xs : List α}
    (h : ∀ j, i ≤ j → j < i + xs.length → p j = false) : keep p i xs = [] := by
  rw [keep_eq_take (k := 0) fun j hle hlt => ?_, List.take_zero]
  rw [h j hle hlt]
  simp only [Bool.false_eq_true, false_iff]
  omega

theorem keep_sublist (p : ℕ → Bool) (i : ℕ) (xs : List α) : (keep p i xs).Sublist xs := by
  induction xs generalizing i with
  | nil => exact List.Sublist.refl []
  | cons x xs ih =>
    rw [keep_cons]
    split
    · exact (ih (i + 1)).cons_cons x
    · exact (ih (i + 1)).cons x

/-! ## Positions that are spared

If every element of one kind stays, the deleted elements stand between elements
of that kind, and the remaining list says how many of them are missing from each
such gap although it cannot say which ones.
-/

/-- Every element of the kind `N` stands at an admitted position. -/
def Spares (N : α → Bool) (p : ℕ → Bool) (i : ℕ) (xs : List α) : Prop :=
  ∀ k x, xs[k]? = some x → N x = true → p (i + k) = true

section Spares

variable {N : α → Bool} {p q : ℕ → Bool} {i : ℕ}

theorem spares_cons {x : α} {xs : List α} :
    Spares N p i (x :: xs) ↔ (N x = true → p i = true) ∧ Spares N p (i + 1) xs := by
  constructor
  · intro h
    refine ⟨fun hx => h 0 x rfl hx, fun k y hy hN => ?_⟩
    have := h (k + 1) y (by rwa [List.getElem?_cons_succ]) hN
    rwa [show i + 1 + k = i + (k + 1) by omega]
  · rintro ⟨hx, hxs⟩ k y hy hN
    cases k with
    | zero =>
      obtain rfl : x = y := Option.some.inj hy
      exact hx hN
    | succ k =>
      rw [List.getElem?_cons_succ] at hy
      have := hxs k y hy hN
      rwa [show i + (k + 1) = i + 1 + k by omega]

/-- All elements of a kind stay exactly if their number stays. -/
theorem spares_iff_countP {xs : List α} :
    Spares N p i xs ↔ (keep p i xs).countP N = xs.countP N := by
  induction xs generalizing i with
  | nil => exact iff_of_true (fun k x hx => nomatch hx) rfl
  | cons x xs ih =>
    have hle : (keep p (i + 1) xs).countP N ≤ xs.countP N := (keep_sublist p (i + 1) xs).countP_le
    rw [spares_cons, ih, keep_cons]
    cases hp : p i with
    | true =>
      rw [if_pos rfl, List.countP_cons, List.countP_cons]
      simp
    | false =>
      rw [if_neg Bool.false_ne_true, List.countP_cons]
      cases hx : N x with
      | true =>
        simp only [Bool.false_eq_true, imp_false, not_true_eq_false, false_and, if_true,
          false_iff]
        omega
      | false => simp

theorem spares_append {xs ys : List α} :
    Spares N p i (xs ++ ys) ↔ Spares N p i xs ∧ Spares N p (i + xs.length) ys := by
  induction xs generalizing i with
  | nil => simp [Spares]
  | cons x xs ih =>
    rw [List.cons_append, spares_cons, ih, spares_cons, List.length_cons, and_assoc,
      show i + 1 + xs.length = i + (xs.length + 1) by omega]

/-- Only a list without deletions is kept whole. -/
theorem admitted_of_keep_eq_self {xs : List α} (h : keep p i xs = xs) {j : ℕ} (hle : i ≤ j)
    (hlt : j < i + xs.length) : p j = true := by
  have hall : Spares (fun _ => true) p i xs := by
    rw [spares_iff_countP, h]
  have hj : j - i < xs.length := by omega
  have := hall (j - i) _ (List.getElem?_eq_getElem hj) rfl
  rwa [show i + (j - i) = j by omega] at this

/-- The gap before the first spared element keeps its own deletions. -/
theorem keep_takeWhile {xs : List α} (h : Spares N p i xs) :
    (keep p i xs).takeWhile (fun x => !N x) = keep p i (xs.takeWhile fun x => !N x) := by
  induction xs generalizing i with
  | nil => rfl
  | cons x xs ih =>
    obtain ⟨hx, hxs⟩ := spares_cons.mp h
    rw [List.takeWhile_cons]
    cases hN : N x with
    | true =>
      rw [keep_cons, if_pos (hx hN), List.takeWhile_cons, hN]
      rfl
    | false =>
      rw [Bool.not_false, if_pos rfl, keep_cons, keep_cons, ← ih hxs]
      split
      · rw [List.takeWhile_cons, hN]
        rfl
      · rfl

/-- Two splits of one list behind elements of a kind agree if as many elements of that
kind stand before them. -/
private theorem append_cons_inj {n n' : α} {ys zs ys' zs' : List α} (hn : N n = true)
    (hn' : N n' = true) (hcount : ys.countP N = ys'.countP N)
    (h : ys ++ n :: zs = ys' ++ n' :: zs') : zs = zs' := by
  induction ys generalizing ys' with
  | nil =>
    cases ys' with
    | nil => exact (List.cons.inj h).2
    | cons y ys' =>
      obtain ⟨rfl, -⟩ := List.cons.inj h
      simp [hn] at hcount
  | cons y ys ih =>
    cases ys' with
    | nil =>
      obtain ⟨rfl, -⟩ := List.cons.inj h
      simp [hn'] at hcount
    | cons y' ys' =>
      obtain ⟨rfl, hrest⟩ := List.cons.inj h
      rw [List.countP_cons, List.countP_cons] at hcount
      exact ih (Nat.add_right_cancel hcount) hrest

/-- Behind a spared element, two deletions with one result have one result again. -/
theorem keep_eq_of_spared {ys zs : List α} {n : α} (hn : N n = true)
    (hp : Spares N p i (ys ++ n :: zs)) (hq : Spares N q i (ys ++ n :: zs))
    (h : keep p i (ys ++ n :: zs) = keep q i (ys ++ n :: zs)) :
    keep p (i + ys.length + 1) zs = keep q (i + ys.length + 1) zs := by
  obtain ⟨hpy, hpz⟩ := spares_append.mp hp
  obtain ⟨hqy, hqz⟩ := spares_append.mp hq
  rw [keep_append, keep_append, keep_cons, keep_cons, if_pos ((spares_cons.mp hpz).1 hn),
    if_pos ((spares_cons.mp hqz).1 hn)] at h
  apply append_cons_inj hn hn _ h
  rw [spares_iff_countP.mp hpy, spares_iff_countP.mp hqy]

/-- The elements behind position `c` up to `b` belong to the gap there if none of them is
spared. -/
private theorem lt_length_gap {xs : List α} {c b : ℕ} (hcb : c < b) (hb : b < xs.length)
    (hgap : ∀ j, c < j → j ≤ b → xs[j]?.any N = false) :
    b - (c + 1) < ((xs.drop (c + 1)).takeWhile fun x => !N x).length := by
  have hsplit := List.take_append_drop (b - c) (xs.drop (c + 1))
  have hall : ∀ x ∈ (xs.drop (c + 1)).take (b - c), (!N x) = true := by
    intro x hx
    obtain ⟨k, hk, rfl⟩ := List.mem_iff_getElem.mp hx
    rw [List.length_take] at hk
    have := hgap (c + 1 + k) (by omega) (by omega)
    rw [List.getElem_take, List.getElem_drop]
    rw [List.getElem?_eq_getElem (by omega), Option.any_some] at this
    rw [this]
    rfl
  rw [← hsplit, List.takeWhile_append_of_pos hall, List.length_append, List.length_take,
    List.length_drop]
  omega

/-- A deletion in the gap behind a spared element is a deletion in the same gap for every
other way to delete the same elements. -/
theorem exists_deleted_in_gap {xs : List α} {c b : ℕ} {n : α} (hc : xs[c]? = some n)
    (hn : N n = true) (hp : Spares N p 0 xs) (hq : Spares N q 0 xs)
    (h : keep p 0 xs = keep q 0 xs) (hcb : c < b) (hb : b < xs.length)
    (hgap : ∀ j, c < j → j ≤ b → xs[j]?.any N = false) (hdel : q b = false) :
    ∃ m, c < m ∧ m < xs.length ∧ p m = false ∧
      ∀ j, c < j → j ≤ m → xs[j]?.any N = false := by
  have hlt := lt_length_gap hcb hb hgap
  have hsplit : xs = xs.take c ++ n :: xs.drop (c + 1) := by
    obtain ⟨hlen, rfl⟩ := List.getElem?_eq_some_iff.mp hc
    rw [← List.drop_eq_getElem_cons, List.take_append_drop]
  have htake : (xs.take c).length = c := by
    rw [List.length_take]
    omega
  rw [hsplit] at hp hq h
  have hrest := keep_eq_of_spared hn hp hq h
  have hpz := (spares_cons.mp (spares_append.mp hp).2).2
  have hqz := (spares_cons.mp (spares_append.mp hq).2).2
  rw [htake, Nat.zero_add] at hrest hpz hqz
  have hprefix := List.takeWhile_prefix (fun x => !N x) (l := xs.drop (c + 1))
  have hkeep : keep p (c + 1) ((xs.drop (c + 1)).takeWhile fun x => !N x) =
      keep q (c + 1) ((xs.drop (c + 1)).takeWhile fun x => !N x) := by
    rw [← keep_takeWhile hpz, ← keep_takeWhile hqz, hrest]
  -- were nothing deleted there by `p`, the gap would be kept whole by `q` as well
  have hexists : ∃ m, c < m ∧ p m = false ∧
      m < c + 1 + ((xs.drop (c + 1)).takeWhile fun x => !N x).length := by
    by_contra hnone
    have hself : keep p (c + 1) ((xs.drop (c + 1)).takeWhile fun x => !N x) =
        (xs.drop (c + 1)).takeWhile fun x => !N x := by
      apply keep_eq_self
      intro j hle hlt
      by_contra hj
      exact hnone ⟨j, hle, Bool.eq_false_iff.mpr hj, hlt⟩
    rw [hkeep] at hself
    have := admitted_of_keep_eq_self hself (show c + 1 ≤ b by omega) (by omega)
    rw [hdel] at this
    exact Bool.noConfusion this
  obtain ⟨m, hcm, hm, hmlt⟩ := hexists
  have hmax := hprefix.length_le
  rw [List.length_drop] at hmax
  refine ⟨m, hcm, by omega, hm, fun j hcj hjm => ?_⟩
  have hjlt : j - (c + 1) < ((xs.drop (c + 1)).takeWhile fun x => !N x).length := by omega
  have hget := hprefix.getElem hjlt
  have hmem := List.mem_takeWhile_imp (List.getElem_mem hjlt)
  rw [hget, List.getElem_drop] at hmem
  have hidx : c + 1 + (j - (c + 1)) = j := by omega
  simp only [hidx] at hmem
  rw [List.getElem?_eq_getElem (show j < xs.length by omega), Option.any_some]
  simpa using hmem

end Spares

end Positions
