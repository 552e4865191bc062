import Mathlib.Data.List.TakeWhile

/-!
# Position-based searching in text

Text is a list of characters. The searches start at a position, return a
position of the whole text and fail instead of returning a sentinel, as the
standard string class does. Every lemma is stated for a text already split at
the position searched from, which is how a formatted line presents itself.
-/

namespace Text

/-- First position from `pos` on whose character satisfies `p`. -/
def findIf (p : Char → Bool) (s : List Char) (pos : ℕ) : Option ℕ :=
  ((s.drop pos).findIdx? p).map (pos + ·)

/-- First position from `pos` on of one character. -/
def find (c : Char) (s : List Char) (pos : ℕ) : Option ℕ := findIf (· == c) s pos

/-- First position from `pos` on of any character of a set. -/
def findFirstOf (set s : List Char) (pos : ℕ) : Option ℕ := findIf (set.contains ·) s pos

/-- Last position of one character. -/
def rfind (c : Char) (s : List Char) : Option ℕ :=
  (s.reverse.findIdx? (· == c)).map (s.length - 1 - ·)

/-- Offset of the first occurrence of a pattern. -/
def indexOf (pat : List Char) : List Char → Option ℕ
  | [] => if pat.isEmpty then some 0 else none
  | c :: cs => if pat.isPrefixOf (c :: cs) then some 0 else (indexOf pat cs).map (· + 1)

/-- First position from `pos` on where a pattern occurs. -/
def findStr (pat s : List Char) (pos : ℕ) : Option ℕ :=
  (indexOf pat (s.drop pos)).map (pos + ·)

/-- At most `n` characters from `pos` on. -/
def substr (s : List Char) (pos n : ℕ) : List Char := (s.drop pos).take n

/-- First position from `left` on, and not behind `right`, whose character fails `p`. -/
def skip (p : Char → Bool) (s : List Char) (left right : ℕ) : ℕ :=
  left + ((substr s left (right - left)).takeWhile p).length

/-- The position after the last character between `left` and `right` that fails `p`. -/
def skipBack (p : Char → Bool) (s : List Char) (left right : ℕ) : ℕ :=
  right - ((substr s left (right - left)).reverse.takeWhile p).length

/-- A text without the characters at its two ends that satisfy `p`. -/
def trim (p : Char → Bool) (s : List Char) : List Char :=
  ((s.dropWhile p).reverse.dropWhile p).reverse

/-- The lines a stream reader yields: terminators removed, and no empty line
after a final terminator. -/
def getLines : List Char → List (List Char)
  | [] => []
  | c :: cs =>
    if c = '\n' then [] :: getLines cs
    else
      match getLines cs with
      | [] => [[c]]
      | l :: ls => (c :: l) :: ls

/-- The text of a list of lines, each of them terminated. -/
def unlines (ls : List (List Char)) : List Char := ls.flatMap (· ++ ['\n'])

/-- A search skips a segment without a hit and stops at the hit after it. -/
theorem findIf_append {p : Char → Bool} (pre a b : List Char) {c : Char}
    (ha : ∀ x ∈ a, p x = false) (hc : p c = true) :
    findIf p (pre ++ (a ++ c :: b)) pre.length = some (pre.length + a.length) := by
  have hidx : (a ++ c :: b).findIdx? p = some a.length := by
    rw [List.findIdx?_append, List.findIdx?_eq_none_iff.mpr ha, List.findIdx?_cons, hc]
    simp only [Option.none_or, ite_true, Option.map_some, Nat.zero_add]
  rw [findIf, List.drop_left, hidx, Option.map_some]

theorem findIf_eq_none {p : Char → Bool} (pre a : List Char) (ha : ∀ x ∈ a, p x = false) :
    findIf p (pre ++ a) pre.length = none := by
  rw [findIf, List.drop_left, List.findIdx?_eq_none_iff.mpr ha, Option.map_none]

theorem find_append (pre a b : List Char) {c : Char} (ha : c ∉ a) :
    find c (pre ++ (a ++ c :: b)) pre.length = some (pre.length + a.length) := by
  refine findIf_append pre a b (fun x hx => ?_) (by simp only [beq_self_eq_true])
  exact beq_eq_false_iff_ne.mpr fun he => ha (he ▸ hx)

theorem findFirstOf_append (pre a b : List Char) {set : List Char} {c : Char}
    (ha : ∀ x ∈ a, x ∉ set) (hc : c ∈ set) :
    findFirstOf set (pre ++ (a ++ c :: b)) pre.length = some (pre.length + a.length) := by
  refine findIf_append pre a b (fun x hx => ?_) (List.contains_iff_mem.mpr hc)
  exact Bool.eq_false_iff.mpr fun he => ha x hx (List.contains_iff_mem.mp he)

theorem findFirstOf_eq_none (pre a : List Char) {set : List Char} (ha : ∀ x ∈ a, x ∉ set) :
    findFirstOf set (pre ++ a) pre.length = none :=
  findIf_eq_none pre a fun x hx =>
    Bool.eq_false_iff.mpr fun he => ha x hx (List.contains_iff_mem.mp he)

private theorem findIdx?_reverse_eq_none {c : Char} {s : List Char} (h : c ∉ s) :
    s.reverse.findIdx? (· == c) = none := by
  refine List.findIdx?_eq_none_iff.mpr fun x hx => beq_eq_false_iff_ne.mpr ?_
  rintro rfl
  exact h (List.mem_reverse.mp hx)

theorem rfind_append (a b : List Char) {c : Char} (hb : c ∉ b) :
    rfind c (a ++ c :: b) = some a.length := by
  have hlast : (a ++ c :: b).reverse.findIdx? (· == c) = some b.length := by
    rw [List.reverse_append, List.reverse_cons, List.append_assoc, List.findIdx?_append,
      findIdx?_reverse_eq_none hb]
    simp only [List.singleton_append, List.findIdx?_cons, beq_self_eq_true, if_true,
      Option.map_some, Option.none_or, List.length_reverse, Nat.zero_add]
  rw [rfind, hlast, Option.map_some, List.length_append, List.length_cons, Option.some.injEq]
  omega

theorem rfind_eq_none {c : Char} {s : List Char} (h : c ∉ s) : rfind c s = none := by
  rw [rfind, findIdx?_reverse_eq_none h, Option.map_none]

/-- A text is cut at the last position of a character. -/
theorem rfind_eq_some {c : Char} {s : List Char} {pos : ℕ} (h : rfind c s = some pos) :
    ∃ a b, s = a ++ c :: b ∧ c ∉ b ∧ pos = a.length := by
  have hmem : c ∈ s := by
    by_contra hnot
    rw [rfind_eq_none hnot] at h
    cases h
  obtain ⟨b, a, hsplit, hb⟩ := List.eq_append_cons_of_mem (List.mem_reverse.mpr hmem)
  have hs : s = a.reverse ++ c :: b.reverse := by
    rw [← List.reverse_reverse s, hsplit, List.reverse_append, List.reverse_cons,
      List.append_assoc, List.singleton_append]
  have hlast : c ∉ b.reverse := fun hc => hb (List.mem_reverse.mp hc)
  rw [hs, rfind_append _ _ hlast] at h
  exact ⟨a.reverse, b.reverse, hs, hlast, (Option.some.inj h).symm⟩

/-- A pattern is found after a segment that never shows its first character. -/
theorem indexOf_append (a b : List Char) {c : Char} {k : List Char} (ha : c ∉ a) :
    indexOf (c :: k) (a ++ (c :: k ++ b)) = some a.length := by
  induction a with
  | nil =>
    have hp : (c :: k).isPrefixOf (c :: k ++ b) = true :=
      List.isPrefixOf_iff_prefix.mpr (List.prefix_append _ _)
    rw [List.nil_append, List.cons_append, indexOf, ← List.cons_append, hp]
    rfl
  | cons x a ih =>
    have hne : (c == x) = false := beq_eq_false_iff_ne.mpr fun he => ha (he ▸ List.mem_cons_self ..)
    have hp : (c :: k).isPrefixOf (x :: (a ++ (c :: k ++ b))) = false := by
      rw [List.isPrefixOf, hne, Bool.false_and]
    rw [List.cons_append, indexOf, hp, ih fun hm => ha (List.mem_cons_of_mem _ hm)]
    rfl

theorem findStr_append (pre a b : List Char) {c : Char} {k : List Char} (ha : c ∉ a) :
    findStr (c :: k) (pre ++ (a ++ (c :: k ++ b))) pre.length =
      some (pre.length + a.length) := by
  rw [findStr, List.drop_left, indexOf_append a b ha, Option.map_some]

/-- The segment between two positions. -/
theorem substr_append (pre a b : List Char) :
    substr (pre ++ (a ++ b)) pre.length a.length = a := by
  rw [substr, List.drop_left, List.take_left]

/-- Skipping in a segment passes over its beginning. -/
theorem skip_append (p : Char → Bool) (pre a b : List Char) :
    skip p (pre ++ (a ++ b)) pre.length (pre.length + a.length) =
      pre.length + (a.takeWhile p).length := by
  rw [skip, Nat.add_sub_cancel_left, substr_append]

/-- Skipping from both ends of a segment leaves its trimmed text. -/
theorem substr_skip_skipBack (p : Char → Bool) (pre a b : List Char) :
    let left := skip p (pre ++ (a ++ b)) pre.length (pre.length + a.length)
    let right := skipBack p (pre ++ (a ++ b)) left (pre.length + a.length)
    right = left + (trim p a).length ∧
      substr (pre ++ (a ++ b)) left (right - left) = trim p a := by
  have hleft : skip p (pre ++ (a ++ b)) pre.length (pre.length + a.length) =
      (pre ++ a.takeWhile p).length := by
    rw [skip_append, List.length_append]
  have hsplit : pre ++ (a ++ b) = (pre ++ a.takeWhile p) ++ (a.dropWhile p ++ b) := by
    rw [List.append_assoc, ← List.append_assoc (a.takeWhile p), List.takeWhile_append_dropWhile]
  have hend : pre.length + a.length - (pre ++ a.takeWhile p).length = (a.dropWhile p).length := by
    have ha := congrArg List.length (List.takeWhile_append_dropWhile (p := p) (l := a))
    rw [List.length_append] at ha ⊢
    omega
  have hback : (a.dropWhile p) = trim p a ++ ((a.dropWhile p).reverse.takeWhile p).reverse := by
    rw [trim, ← List.reverse_append, List.takeWhile_append_dropWhile, List.reverse_reverse]
  have hright : skipBack p (pre ++ (a ++ b)) (pre ++ a.takeWhile p).length
      (pre.length + a.length) = (pre ++ a.takeWhile p).length + (trim p a).length := by
    have hlen := congrArg List.length hback
    have ha := congrArg List.length (List.takeWhile_append_dropWhile (p := p) (l := a))
    rw [skipBack, hend, hsplit, substr_append]
    rw [List.length_append, List.length_reverse] at hlen
    rw [List.length_append] at ha ⊢
    omega
  simp only [hleft, hright, true_and, Nat.add_sub_cancel_left]
  rw [hsplit, hback, List.append_assoc (trim p a), substr_append]

theorem trim_of_forall {p : Char → Bool} {s : List Char} (h : ∀ c ∈ s, p c = true) :
    trim p s = [] := by
  rw [trim, List.dropWhile_eq_nil_iff.mpr h]
  rfl

/-- Characters to be trimmed in front of a text do not change its trimmed text. -/
theorem trim_append_left {p : Char → Bool} {a : List Char} (ha : ∀ c ∈ a, p c = true)
    (s : List Char) : trim p (a ++ s) = trim p s := by
  rw [trim, List.dropWhile_append, List.dropWhile_eq_nil_iff.mpr ha]
  rfl

theorem unlines_append (xs ys : List (List Char)) :
    unlines (xs ++ ys) = unlines xs ++ unlines ys := List.flatMap_append

theorem unlines_singleton (l : List Char) : unlines [l] = l ++ ['\n'] := by
  rw [unlines, List.flatMap_singleton]

/-- A terminated line without an inner terminator is read back as itself. -/
theorem getLines_append {l : List Char} (hl : '\n' ∉ l) (rest : List Char) :
    getLines (l ++ '\n' :: rest) = l :: getLines rest := by
  induction l with
  | nil => rfl
  | cons c l ih =>
    have hc : c ≠ '\n' := fun he => hl (he ▸ List.mem_cons_self ..)
    rw [List.cons_append, getLines, if_neg hc, ih fun hm => hl (List.mem_cons_of_mem _ hm)]

/-- Reading undoes writing, line by line. -/
theorem getLines_unlines {ls : List (List Char)} (hls : ∀ l ∈ ls, '\n' ∉ l) :
    getLines (unlines ls) = ls := by
  induction ls with
  | nil => rfl
  | cons l ls ih =>
    have hrest : unlines (l :: ls) = l ++ '\n' :: unlines ls := by
      simp only [unlines, List.flatMap_cons, List.append_assoc, List.singleton_append]
    rw [hrest, getLines_append (hls l (List.mem_cons_self ..)),
      ih fun m hm => hls m (List.mem_cons_of_mem _ hm)]

end Text
