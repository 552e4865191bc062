import Mathlib.Data.List.Basic

/-!
# Sequential objects

An object is a state with operations that return an answer and leave a new
state. An order of operations determines every state between them, so it also
determines the answer that each operation gets at its place.
-/

namespace Sequential

variable {ι σ : Type*} {R : ι → Type*} (op : ∀ i, σ → R i × σ)

/-- The object after operations in order. -/
def after (object : σ) (order : List ι) : σ := order.foldl (fun o i => (op i o).2) object

/-- The operation has a place in the order, and this is its answer there. -/
def Answers (object : σ) (order : List ι) (i : ι) (answer : R i) : Prop :=
  ∃ before rest, order = before ++ i :: rest ∧ answer = (op i (after op object before)).1

/-- One operation stands before another. -/
def Precedes (order : List ι) (i j : ι) : Prop :=
  ∃ xs ys zs, order = xs ++ i :: ys ++ j :: zs

theorem after_append (object : σ) (xs ys : List ι) :
    after op object (xs ++ ys) = after op (after op object xs) ys := List.foldl_append

theorem after_concat (object : σ) (order : List ι) (i : ι) :
    after op object (order ++ [i]) = (op i (after op object order)).2 :=
  after_append op object order [i]

variable {op}

/-- Later operations do not change an answer. -/
theorem Answers.append {object : σ} {order : List ι} {i : ι} {answer : R i}
    (h : Answers op object order i answer) (later : List ι) :
    Answers op object (order ++ later) i answer := by
  obtain ⟨before, rest, rfl, hanswer⟩ := h
  exact ⟨before, rest ++ later, by rw [List.append_assoc, List.cons_append], hanswer⟩

theorem answers_concat (object : σ) (order : List ι) (i : ι) :
    Answers op object (order ++ [i]) i (op i (after op object order)).1 := ⟨order, [], rfl, rfl⟩

/-- What stands in the first part of an order precedes what stands in the second. -/
theorem precedes_append {xs ys : List ι} {i j : ι} (hi : i ∈ xs) (hj : j ∈ ys) :
    Precedes (xs ++ ys) i j := by
  obtain ⟨a, b, rfl⟩ := List.append_of_mem hi
  obtain ⟨c, d, rfl⟩ := List.append_of_mem hj
  exact ⟨a, b ++ c, d, by simp⟩

end Sequential
