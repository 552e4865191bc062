import Mathlib.Data.List.Basic
import Mathlib.Data.List.Induction
import Mathlib.Data.List.Nodup

/-!
# Stable sorting by a rank

A stable sort by a rank leaves the members of one rank in the order they came
in, so it is the classes of the ranks one after the other. Repetitions are
removed by keeping the first occurrence.
-/

namespace Ranking

variable {α : Type*} (rank : α → ℕ)

/-- Sort by the rank; members of one rank keep their order. -/
def stableSort (l : List α) : List α := l.mergeSort fun a b => decide (rank a ≤ rank b)

/-- Those of one rank. -/
def ofRank (l : List α) (k : ℕ) : List α := l.filter fun a => decide (rank a = k)

private theorem rank_trans (a b c : α) (hab : decide (rank a ≤ rank b) = true)
    (hbc : decide (rank b ≤ rank c) = true) : decide (rank a ≤ rank c) = true :=
  decide_eq_true (Nat.le_trans (of_decide_eq_true hab) (of_decide_eq_true hbc))

private theorem rank_total (a b : α) :
    (decide (rank a ≤ rank b) || decide (rank b ≤ rank a)) = true := by
  simpa using Nat.le_total (rank a) (rank b)

theorem pairwise_stableSort (l : List α) :
    (stableSort rank l).Pairwise fun a b => rank a ≤ rank b :=
  (List.pairwise_mergeSort (rank_trans rank) (rank_total rank) l).imp fun h => of_decide_eq_true h

/-- The sort does not reorder one rank. -/
theorem ofRank_stableSort (l : List α) (k : ℕ) :
    ofRank rank (stableSort rank l) k = ofRank rank l k := by
  have hclass : (ofRank rank l k).Pairwise fun a b => decide (rank a ≤ rank b) = true := by
    refine List.pairwise_of_forall_mem_list fun a ha b hb => ?_
    have hka := of_decide_eq_true (List.mem_filter.mp ha).2
    have hkb := of_decide_eq_true (List.mem_filter.mp hb).2
    exact decide_eq_true (by omega)
  have hsub : (ofRank rank l k).Sublist (stableSort rank l) :=
    List.sublist_mergeSort (rank_trans rank) (rank_total rank) hclass List.filter_sublist
  have hfilter := hsub.filter fun a => decide (rank a = k)
  simp only [ofRank, List.filter_filter, Bool.and_self] at hfilter
  have hlength : (ofRank rank l k).length = (ofRank rank (stableSort rank l) k).length :=
    (((List.mergeSort_perm l _).filter _).length_eq).symm
  exact (hfilter.eq_of_length hlength).symm

/-- A list in the order of the ranks ends with its highest rank. -/
theorem split_highest {l : List α} {n : ℕ} (h : l.Pairwise fun a b => rank a ≤ rank b)
    (hle : ∀ a ∈ l, rank a ≤ n) :
    l = l.filter (fun a => decide (rank a < n)) ++ ofRank rank l n := by
  induction l with
  | nil => rfl
  | cons a l ih =>
    obtain ⟨hfirst, hrest⟩ := List.pairwise_cons.mp h
    obtain ⟨ha, hl⟩ := List.forall_mem_cons.mp hle
    by_cases hlt : rank a < n
    · have hne : rank a ≠ n := by omega
      rw [List.filter_cons_of_pos (by simpa using hlt), ofRank,
        List.filter_cons_of_neg (by simpa using hne), List.cons_append]
      exact congrArg (a :: ·) (ih hrest hl)
    · -- The highest rank begins here, so everything that follows has it.
      have heq : ∀ b ∈ a :: l, rank b = n := by
        intro b hb
        have hle' := hle b hb
        rcases List.mem_cons.mp hb with rfl | hb
        · omega
        · have := hfirst b hb
          omega
      have hnone : (a :: l).filter (fun b => decide (rank b < n)) = [] := by
        rw [List.filter_eq_nil_iff]
        intro b hb
        have := heq b hb
        simp only [decide_eq_true_eq]
        omega
      have hall : ofRank rank (a :: l) n = a :: l :=
        List.filter_eq_self.mpr fun b hb => decide_eq_true (heq b hb)
      rw [hnone, hall, List.nil_append]

/-- A list in the order of the ranks is its classes one after the other. -/
theorem eq_flatMap_ofRank {l : List α} {n : ℕ} (h : l.Pairwise fun a b => rank a ≤ rank b)
    (hlt : ∀ a ∈ l, rank a < n) : l = (List.range n).flatMap (ofRank rank l) := by
  induction n generalizing l with
  | zero =>
    cases l with
    | nil => rfl
    | cons a l => exact absurd (hlt a List.mem_cons_self) (Nat.not_lt_zero _)
  | succ n ih =>
    have hsplit := split_highest rank h fun a ha => Nat.le_of_lt_succ (hlt a ha)
    have hlower := @ih (l.filter fun a => decide (rank a < n)) (h.sublist List.filter_sublist)
      fun a ha => of_decide_eq_true (List.mem_filter.mp ha).2
    rw [List.range_succ, List.flatMap_append, List.flatMap_singleton]
    have hclasses : (List.range n).flatMap (ofRank rank l) =
        (List.range n).flatMap (ofRank rank (l.filter fun a => decide (rank a < n))) := by
      refine List.flatMap_congr fun k hk => ?_
      have hkn := List.mem_range.mp hk
      rw [ofRank, ofRank, List.filter_filter]
      refine List.filter_congr fun a _ => ?_
      by_cases hrank : rank a = k
      · simp [hrank, hkn]
      · simp [hrank]
    rw [hclasses, ← hlower]
    exact hsplit

/-- The closed form of the sort. -/
theorem stableSort_eq {l : List α} {n : ℕ} (hlt : ∀ a ∈ l, rank a < n) :
    stableSort rank l = (List.range n).flatMap (ofRank rank l) := by
  have h := eq_flatMap_ofRank rank (pairwise_stableSort rank l) (n := n)
    fun a ha => hlt a (List.mem_mergeSort.mp ha)
  rw [h]
  exact List.flatMap_congr fun k _ => ofRank_stableSort rank l k

/-- The classes together are a rearrangement of the list. -/
theorem flatMap_ofRank_perm {l : List α} {n : ℕ} (hlt : ∀ a ∈ l, rank a < n) :
    ((List.range n).flatMap (ofRank rank l)).Perm l := by
  rw [← stableSort_eq rank hlt]
  exact List.mergeSort_perm l _

theorem pairwise_flatMap_ofRank {l : List α} {n : ℕ} (hlt : ∀ a ∈ l, rank a < n) :
    ((List.range n).flatMap (ofRank rank l)).Pairwise fun a b => rank a ≤ rank b := by
  rw [← stableSort_eq rank hlt]
  exact pairwise_stableSort rank l

variable [DecidableEq α]

/-- Only a new member is added at the end. -/
theorem eraseDups_concat (l : List α) (a : α) :
    (l ++ [a]).eraseDups = if a ∈ l then l.eraseDups else l.eraseDups ++ [a] := by
  rw [List.eraseDups_append]
  split
  · rename_i h
    simp [List.removeAll, h]
  · rename_i h
    simp [List.removeAll, h, List.eraseDups_cons]

theorem nodup_eraseDups (l : List α) : l.eraseDups.Nodup := by
  induction l using List.reverseRecOn with
  | nil => exact List.nodup_nil
  | append_singleton l a ih =>
    rw [eraseDups_concat]
    split
    · exact ih
    · rename_i hnew
      rw [List.nodup_append]
      refine ⟨ih, List.nodup_singleton a, ?_⟩
      rintro b hb c hc rfl
      obtain rfl := List.mem_singleton.mp hc
      exact hnew (List.mem_eraseDups.mp hb)

end Ranking
