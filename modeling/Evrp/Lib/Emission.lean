import Mathlib.Data.List.Basic

/-!
# What a sequence of writes emits

A state with an output that only grows. A transformation emits a list if it
keeps the state's invariant and appends exactly that list to the output, from
every state the invariant admits. Emissions compose along append, so a loop of
writes emits the concatenation of what the single writes emit.
-/

namespace Emission

variable {σ β ι : Type*} (I : σ → Prop) (out : σ → List β)

/-- The transformation appends exactly `bs` to the output and keeps the invariant. -/
def Emits (f : σ → σ) (bs : List β) : Prop :=
  ∀ s, I s → out (f s) = out s ++ bs ∧ I (f s)

variable {I out}

theorem emits_id : Emits I out (fun s => s) [] :=
  fun s hs => ⟨(List.append_nil (out s)).symm, hs⟩

theorem Emits.comp {f g : σ → σ} {bs cs : List β} (hf : Emits I out f bs)
    (hg : Emits I out g cs) : Emits I out (fun s => g (f s)) (bs ++ cs) := by
  intro s hs
  obtain ⟨hout, hinv⟩ := hf s hs
  obtain ⟨hout', hinv'⟩ := hg (f s) hinv
  refine ⟨?_, hinv'⟩
  rw [hout', hout, List.append_assoc]

/-- A loop emits what its turns emit, in order. -/
theorem emits_foldl {write : σ → ι → σ} {emitted : ι → List β} (xs : List ι)
    (h : ∀ x ∈ xs, Emits I out (fun s => write s x) (emitted x)) :
    Emits I out (fun s => xs.foldl write s) (xs.flatMap emitted) := by
  induction xs with
  | nil => exact emits_id
  | cons x xs ih =>
    rw [List.flatMap_cons]
    exact (h x List.mem_cons_self).comp (ih fun y hy => h y (List.mem_cons_of_mem x hy))

end Emission
