import Mathlib.Data.List.Basic
import Mathlib.Tactic.Common

/-!
# The old spellings of the command line

Before the flag library reads the arguments, a loop rewrites the old spellings in
place: it runs an index over the arguments, overwrites the argument at the index,
sometimes the next one, and erases an argument that has become the value of the
one before. An erasure leaves the index where it is, so the rewritten argument is
looked at once more. The loop is compared with one pass from the left that never
looks back.
-/

namespace Evrp

namespace LegacyArgs

/-- The value of a switch in the old spelling. -/
def isYes (v : List Char) : Bool :=
  v == "yes".toList || v == "true".toList || v == "1".toList

/-- The next argument is the output path of `-r` if there is one and it is not a flag. -/
def outputOfRecord (a : List (List Char)) (i : ℕ) : Option (List Char) :=
  match a[i + 1]? with
  | some (c :: rest) => if c ≠ '-' then some (c :: rest) else none
  | _ => none

/-- An argument that takes the next one as its value. -/
def takeValue (a : List (List Char)) (i : ℕ) (flag : List Char) : List (List Char) :=
  (a.set i (flag ++ a[i + 1]?.getD [])).eraseIdx (i + 1)

/-- An argument that is rewritten without looking at the next one. -/
def respell (arg : List Char) : List Char :=
  if "--log-level=".toList.isPrefixOf arg then "--log_level=".toList ++ arg.drop 12
  else if "--wait-leading=".toList.isPrefixOf arg then
    if isYes (arg.drop 15) then "--wait_leading".toList else "--nowait_leading".toList
  else if "--wait-trailing=".toList.isPrefixOf arg then
    if isYes (arg.drop 16) then "--wait_trailing".toList else "--nowait_trailing".toList
  else arg

/-- One turn of the loop at an index: the arguments and the next index. -/
def normalizeAt (a : List (List Char)) (i : ℕ) (arg : List Char) : List (List Char) × ℕ :=
  if arg = "-r".toList then
    match outputOfRecord a i with
    | some next => ((a.set i "--record".toList).set (i + 1) ("--output=".toList ++ next), i + 2)
    | none => (a.set i "--record".toList, i + 1)
  else if arg = "-p".toList ∧ i + 1 < a.length then (takeValue a i "--playback=".toList, i)
  else if arg = "-o".toList ∧ i + 1 < a.length then (takeValue a i "--output=".toList, i)
  else (a.set i (respell arg), i + 1)

/-- The loop from an index on; the fuel bounds the number of turns. -/
def normalizeLoop : ℕ → List (List Char) → ℕ → List (List Char)
  | 0, a, _ => a
  | fuel + 1, a, i =>
    match a[i]? with
    | none => a
    | some arg => normalizeLoop fuel (normalizeAt a i arg).1 (normalizeAt a i arg).2

/-- Rewrite the old spellings; every turn brings the index nearer to the end, so the fuel is
enough. -/
def normalizeLegacyArgs (args : List (List Char)) : List (List Char) :=
  normalizeLoop args.length args 1

/-- An argument that cannot be taken for a flag. -/
def isPath (arg : List Char) : Bool := !arg.isEmpty && arg.head? != some '-'

/-- One pass from the left. -/
def modernize : List (List Char) → List (List Char)
  | [] => []
  | [arg] => if arg = "-r".toList then ["--record".toList] else [respell arg]
  | arg :: next :: rest =>
    if arg = "-r".toList then
      if isPath next then "--record".toList :: ("--output=".toList ++ next) :: modernize rest
      else "--record".toList :: modernize (next :: rest)
    else if arg = "-p".toList then ("--playback=".toList ++ next) :: modernize rest
    else if arg = "-o".toList then ("--output=".toList ++ next) :: modernize rest
    else respell arg :: modernize (next :: rest)

/-- No argument has an old spelling, except that `-p` or `-o` may be left without a value. -/
def Modern : List (List Char) → Prop
  | [] => True
  | arg :: rest =>
    arg ≠ "-r".toList ∧ respell arg = arg ∧
      (arg = "-p".toList ∨ arg = "-o".toList → rest = []) ∧ Modern rest

/-- An argument that the loop leaves as it is, whatever follows it. -/
structure Settled (arg : List Char) : Prop where
  record : arg ≠ "-r".toList
  playback : arg ≠ "-p".toList
  output : arg ≠ "-o".toList
  respell : respell arg = arg

theorem settled_record : Settled "--record".toList :=
  ⟨by decide, by decide, by decide, by decide⟩

theorem settled_playback (value : List Char) : Settled ("--playback=".toList ++ value) :=
  ⟨by simp, by simp, by simp, by simp [respell]⟩

theorem settled_output (value : List Char) : Settled ("--output=".toList ++ value) :=
  ⟨by simp, by simp, by simp, by simp [respell]⟩

theorem settled_logLevel (value : List Char) : Settled ("--log_level=".toList ++ value) :=
  ⟨by simp, by simp, by simp, by simp [respell]⟩

/-- What is rewritten on its own is settled, unless it was one of the three short flags. -/
theorem settled_respell {arg : List Char} (hrecord : arg ≠ "-r".toList)
    (hplayback : arg ≠ "-p".toList) (houtput : arg ≠ "-o".toList) : Settled (respell arg) := by
  by_cases hsame : respell arg = arg
  · rw [hsame]
    exact ⟨hrecord, hplayback, houtput, hsame⟩
  · have hfixed (text : List Char) (h : text ∈ ["--wait_leading".toList,
        "--nowait_leading".toList, "--wait_trailing".toList, "--nowait_trailing".toList]) :
        Settled text := by
      simp only [List.mem_cons, List.not_mem_nil, or_false] at h
      rcases h with rfl | rfl | rfl | rfl
      all_goals exact ⟨by decide, by decide, by decide, by decide⟩
    unfold respell at hsame ⊢
    split_ifs at hsame ⊢
    · exact settled_logLevel _
    · exact hfixed _ (by simp)
    · exact hfixed _ (by simp)
    · exact hfixed _ (by simp)
    · exact hfixed _ (by simp)
    · exact absurd rfl hsame

/-! ## The loop is the pass -/

section Turn

variable (before rest : List (List Char)) (arg : List Char)

private theorem getElem?_here : (before ++ arg :: rest)[before.length]? = some arg := by simp

private theorem set_here (text : List Char) :
    (before ++ arg :: rest).set before.length text = before ++ text :: rest := by simp

/-- A turn at an argument that takes no other one. -/
theorem normalizeAt_alone (hrecord : arg ≠ "-r".toList)
    (hshort : arg = "-p".toList ∨ arg = "-o".toList → rest = []) :
    normalizeAt (before ++ arg :: rest) before.length arg =
      (before ++ respell arg :: rest, before.length + 1) := by
  have hend (h : arg = "-p".toList ∨ arg = "-o".toList) :
      ¬ before.length + 1 < (before ++ arg :: rest).length := by
    simp [hshort h]
  rw [normalizeAt, if_neg hrecord, if_neg fun h => hend (Or.inl h.1) h.2,
    if_neg fun h => hend (Or.inr h.1) h.2, set_here]

/-- A turn at an argument that takes the next one as its value. -/
theorem takeValue_here (next flag : List Char) :
    takeValue (before ++ arg :: next :: rest) before.length flag =
      before ++ (flag ++ next) :: rest := by
  have hnext : (before ++ arg :: next :: rest)[before.length + 1]? = some next := by
    rw [List.getElem?_append_right (by omega)]
    simp
  rw [takeValue, hnext, set_here, Option.getD_some, List.eraseIdx_append_of_length_le (by omega)]
  simp

theorem outputOfRecord_here :
    outputOfRecord (before ++ arg :: rest) before.length = rest.head?.filter isPath := by
  have hnext : (before ++ arg :: rest)[before.length + 1]? = rest.head? := by
    rw [List.getElem?_append_right (by omega)]
    simp [List.head?_eq_getElem?]
  rw [outputOfRecord, hnext]
  cases rest with
  | nil => rfl
  | cons next rest =>
    cases next with
    | nil => rfl
    | cons c text => by_cases hc : c = '-' <;> simp [isPath, Option.filter, hc]

end Turn

theorem normalizeLoop_end (fuel : ℕ) (args : List (List Char)) :
    normalizeLoop fuel args args.length = args := by
  cases fuel with
  | zero => rfl
  | succ fuel => rw [normalizeLoop, List.getElem?_eq_none (Nat.le_refl _)]

/-- The loop rewrites an argument that takes no other one and goes on behind it. -/
theorem normalizeLoop_alone {arg : List Char} (hrecord : arg ≠ "-r".toList)
    {rest : List (List Char)} (hshort : arg = "-p".toList ∨ arg = "-o".toList → rest = [])
    (fuel : ℕ) (before : List (List Char)) :
    normalizeLoop (fuel + 1) (before ++ arg :: rest) before.length =
      normalizeLoop fuel ((before ++ [respell arg]) ++ rest) (before ++ [respell arg]).length := by
  rw [normalizeLoop, getElem?_here]
  simp only [normalizeAt_alone before rest arg hrecord hshort]
  simp

/-- The loop passes over a settled argument. -/
theorem normalizeLoop_settled {arg : List Char} (h : Settled arg) (fuel : ℕ)
    (before rest : List (List Char)) :
    normalizeLoop (fuel + 1) (before ++ arg :: rest) before.length =
      normalizeLoop fuel ((before ++ [arg]) ++ rest) (before ++ [arg]).length := by
  have hshort : arg = "-p".toList ∨ arg = "-o".toList → rest = [] := by
    rintro (hp | ho)
    · exact absurd hp h.playback
    · exact absurd ho h.output
  rw [normalizeLoop_alone h.record hshort, h.respell]

/-- The loop at `-r`: the next argument is taken if it is a path. -/
theorem normalizeLoop_record (fuel : ℕ) (before rest : List (List Char)) :
    normalizeLoop (fuel + 1) (before ++ "-r".toList :: rest) before.length =
      match rest.head?.filter isPath with
      | some next => normalizeLoop fuel
          ((before ++ ["--record".toList, "--output=".toList ++ next]) ++ rest.tail)
          (before ++ ["--record".toList, "--output=".toList ++ next]).length
      | none => normalizeLoop fuel ((before ++ ["--record".toList]) ++ rest)
          (before ++ ["--record".toList]).length := by
  rw [normalizeLoop, getElem?_here]
  simp only [normalizeAt, if_true, outputOfRecord_here, set_here]
  cases hnext : rest.head?.filter isPath with
  | none => simp
  | some next =>
    obtain ⟨hhead, -⟩ := Option.filter_eq_some_iff.mp hnext
    obtain ⟨tail, rfl⟩ := List.head?_eq_some_iff.mp hhead
    simp [List.set_append_right]

/-- The loop at `-p` or `-o` with a value: the rewritten argument is looked at once more. -/
theorem normalizeLoop_value {flag arg : List Char} {next : List Char} {fuel : ℕ}
    {before rest : List (List Char)}
    (hturn : normalizeAt (before ++ arg :: next :: rest) before.length arg =
      (takeValue (before ++ arg :: next :: rest) before.length flag, before.length))
    (hsettled : Settled (flag ++ next)) :
    normalizeLoop (fuel + 2) (before ++ arg :: next :: rest) before.length =
      normalizeLoop fuel ((before ++ [flag ++ next]) ++ rest)
        (before ++ [flag ++ next]).length := by
  rw [normalizeLoop, getElem?_here]
  simp only [hturn, takeValue_here]
  exact normalizeLoop_settled hsettled fuel before rest

/-- The loop from an index on is the pass over the arguments from there on. -/
theorem normalizeLoop_eq (rest : List (List Char)) : ∀ (fuel : ℕ) (before : List (List Char)),
    rest.length ≤ fuel →
      normalizeLoop fuel (before ++ rest) before.length = before ++ modernize rest := by
  induction rest using modernize.induct with
  | case1 =>
    intro fuel before _
    rw [List.append_nil, normalizeLoop_end, modernize, List.append_nil]
  | case2 =>
    intro fuel before hfuel
    obtain ⟨fuel, rfl⟩ := Nat.exists_eq_add_of_le' hfuel
    rw [List.length_singleton, normalizeLoop_record, modernize, if_pos rfl]
    simp only [List.head?_nil, Option.filter_none, List.append_nil, normalizeLoop_end]
  | case3 arg hrecord =>
    intro fuel before hfuel
    obtain ⟨fuel, rfl⟩ := Nat.exists_eq_add_of_le' hfuel
    rw [List.length_singleton, normalizeLoop_alone hrecord fun _ => rfl, List.append_nil,
      normalizeLoop_end, modernize, if_neg hrecord]
  | case4 next rest hpath ih =>
    intro fuel before hfuel
    obtain ⟨fuel, rfl⟩ := Nat.exists_eq_add_of_le' (show 1 ≤ fuel by simp at hfuel; omega)
    rw [normalizeLoop_record]
    simp only [List.head?_cons, Option.filter_some, hpath, if_true, List.tail_cons]
    rw [ih _ _ (by simp at hfuel; omega), modernize, if_pos rfl, if_pos hpath]
    simp
  | case5 next rest hpath ih =>
    intro fuel before hfuel
    obtain ⟨fuel, rfl⟩ := Nat.exists_eq_add_of_le' (show 1 ≤ fuel by simp at hfuel; omega)
    rw [normalizeLoop_record]
    simp only [List.head?_cons, Option.filter_some, hpath, if_false, Bool.false_eq_true]
    rw [ih _ _ (by simp at hfuel ⊢; omega), modernize, if_pos rfl, if_neg hpath]
    simp
  | case6 next rest hrecord ih =>
    intro fuel before hfuel
    obtain ⟨fuel, rfl⟩ := Nat.exists_eq_add_of_le' (show 2 ≤ fuel by simp at hfuel; omega)
    rw [normalizeLoop_value (by simp [normalizeAt]) (settled_playback next),
      ih _ _ (by simp at hfuel; omega), modernize, if_neg hrecord, if_pos rfl]
    simp
  | case7 next rest hrecord hplayback ih =>
    intro fuel before hfuel
    obtain ⟨fuel, rfl⟩ := Nat.exists_eq_add_of_le' (show 2 ≤ fuel by simp at hfuel; omega)
    rw [normalizeLoop_value (by simp [normalizeAt]) (settled_output next),
      ih _ _ (by simp at hfuel; omega), modernize, if_neg hrecord, if_neg hplayback, if_pos rfl]
    simp
  | case8 arg next rest hrecord hplayback houtput ih =>
    intro fuel before hfuel
    obtain ⟨fuel, rfl⟩ := Nat.exists_eq_add_of_le' (show 1 ≤ fuel by simp at hfuel; omega)
    have hshort : arg = "-p".toList ∨ arg = "-o".toList → next :: rest = [] :=
      fun h => (h.elim hplayback houtput).elim
    rw [normalizeLoop_alone hrecord hshort, ih _ _ (by simp at hfuel ⊢; omega), modernize,
      if_neg hrecord, if_neg hplayback, if_neg houtput]
    simp

theorem normalizeLegacyArgs_cons (program : List Char) (args : List (List Char)) :
    normalizeLegacyArgs (program :: args) = program :: modernize args :=
  normalizeLoop_eq args (args.length + 1) [program] (by omega)

/-- The program name stays, and the pass goes over the arguments behind it. -/
theorem normalizeLegacyArgs_eq (args : List (List Char)) :
    normalizeLegacyArgs args = args.take 1 ++ modernize args.tail := by
  cases args with
  | nil => rfl
  | cons program args => exact normalizeLegacyArgs_cons program args

/-! ## The pass leaves no old spelling -/

theorem Settled.modern_cons {arg : List Char} (h : Settled arg) {rest : List (List Char)}
    (hrest : Modern rest) : Modern (arg :: rest) :=
  ⟨h.record, h.respell, fun hshort => (hshort.elim h.playback h.output).elim, hrest⟩

theorem modern_modernize (args : List (List Char)) : Modern (modernize args) := by
  induction args using modernize.induct with
  | case1 => trivial
  | case2 => exact settled_record.modern_cons trivial
  | case3 arg hrecord =>
    rw [modernize, if_neg hrecord]
    by_cases hshort : arg = "-p".toList ∨ arg = "-o".toList
    · rcases hshort with rfl | rfl
      all_goals exact ⟨by decide, by decide, fun _ => rfl, trivial⟩
    · obtain ⟨hplayback, houtput⟩ := not_or.mp hshort
      exact (settled_respell hrecord hplayback houtput).modern_cons trivial
  | case4 next rest hpath ih =>
    rw [modernize, if_pos rfl, if_pos hpath]
    exact settled_record.modern_cons ((settled_output next).modern_cons ih)
  | case5 next rest hpath ih =>
    rw [modernize, if_pos rfl, if_neg hpath]
    exact settled_record.modern_cons ih
  | case6 next rest hrecord ih =>
    rw [modernize, if_neg hrecord, if_pos rfl]
    exact (settled_playback next).modern_cons ih
  | case7 next rest hrecord hplayback ih =>
    rw [modernize, if_neg hrecord, if_neg hplayback, if_pos rfl]
    exact (settled_output next).modern_cons ih
  | case8 arg next rest hrecord hplayback houtput ih =>
    rw [modernize, if_neg hrecord, if_neg hplayback, if_neg houtput]
    exact (settled_respell hrecord hplayback houtput).modern_cons ih

/-- A command line without old spellings is left as it is. -/
theorem modernize_of_modern {args : List (List Char)} (h : Modern args) :
    modernize args = args := by
  induction args with
  | nil => rfl
  | cons arg rest ih =>
    obtain ⟨hrecord, hsame, hshort, hrest⟩ := h
    cases rest with
    | nil => rw [modernize, if_neg hrecord, hsame]
    | cons next rest =>
      have hplayback : arg ≠ "-p".toList := fun h => List.cons_ne_nil _ _ (hshort (Or.inl h))
      have houtput : arg ≠ "-o".toList := fun h => List.cons_ne_nil _ _ (hshort (Or.inr h))
      rw [modernize, if_neg hrecord, if_neg hplayback, if_neg houtput, hsame, ih hrest]

theorem length_modernize_le (args : List (List Char)) : (modernize args).length ≤ args.length := by
  induction args using modernize.induct with
  | case1 => exact Nat.le_refl _
  | case2 =>
    rw [modernize, if_pos rfl]
    exact Nat.le_refl _
  | case3 arg hrecord =>
    rw [modernize, if_neg hrecord]
    exact Nat.le_refl _
  | case4 next rest hpath ih =>
    rw [modernize, if_pos rfl, if_pos hpath]
    exact Nat.succ_le_succ (Nat.succ_le_succ ih)
  | case5 next rest hpath ih =>
    rw [modernize, if_pos rfl, if_neg hpath]
    exact Nat.succ_le_succ ih
  | case6 next rest hrecord ih =>
    rw [modernize, if_neg hrecord, if_pos rfl]
    exact Nat.succ_le_succ (Nat.le_succ_of_le ih)
  | case7 next rest hrecord hplayback ih =>
    rw [modernize, if_neg hrecord, if_neg hplayback, if_pos rfl]
    exact Nat.succ_le_succ (Nat.le_succ_of_le ih)
  | case8 arg next rest hrecord hplayback houtput ih =>
    rw [modernize, if_neg hrecord, if_neg hplayback, if_neg houtput]
    exact Nat.succ_le_succ ih

/-- For every command line the loop is the pass from the left over the arguments behind the
program name. It leaves no old spelling, at most a last `-p` or `-o` without a value; it leaves
exactly the command lines without old spellings as they are, so a second loop changes nothing. -/
theorem normalizeLegacyArgs_modernizes (args : List (List Char)) :
    normalizeLegacyArgs args = args.take 1 ++ modernize args.tail ∧
      Modern (normalizeLegacyArgs args).tail ∧
      (normalizeLegacyArgs args = args ↔ Modern args.tail) ∧
      normalizeLegacyArgs (normalizeLegacyArgs args) = normalizeLegacyArgs args ∧
      (normalizeLegacyArgs args).length ≤ args.length ∧
      ∀ fuel, args.length ≤ fuel → normalizeLoop fuel args 1 = normalizeLegacyArgs args := by
  refine ⟨normalizeLegacyArgs_eq args, ?_⟩
  cases args with
  | nil =>
    refine ⟨trivial, iff_of_true rfl trivial, rfl, Nat.le_refl _, fun fuel _ => ?_⟩
    cases fuel <;> rfl
  | cons program args =>
    have hmodern := modern_modernize args
    have hfixed : modernize args = args ↔ Modern args :=
      ⟨fun h => h ▸ hmodern, modernize_of_modern⟩
    simp only [normalizeLegacyArgs_cons, List.tail_cons]
    refine ⟨hmodern, ?_, ?_, ?_, fun fuel hfuel => ?_⟩
    · rw [← hfixed]
      simp
    · rw [modernize_of_modern hmodern]
    · exact Nat.succ_le_succ (length_modernize_le args)
    · exact normalizeLoop_eq args fuel [program] (by simp at hfuel; omega)

-- the value of `-p` may itself look like a flag, the path of `-r` may not
example : normalizeLegacyArgs (["evrp", "-p", "-r", "-r", "-o", "a", "-p"].map String.toList) =
    ["evrp", "--playback=-r", "--record", "--output=a", "-p"].map String.toList := by
  decide

end LegacyArgs

end Evrp
