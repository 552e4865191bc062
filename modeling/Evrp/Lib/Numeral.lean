import Mathlib.Data.List.TakeWhile
import Mathlib.Tactic.NormNum

/-!
# Machine integers and decimal numerals

Signed machine arithmetic is integer arithmetic reduced to the centred residue
of its width. Numerals are written as a stream writes them and read as the
standard conversions read them: leading blanks and one sign are accepted,
reading stops at the first character that is not a digit, and a value that does
not fit the result type is refused.
-/

namespace Word

/-- The value of an integer stored in a signed word of `w` bits. -/
def wrap (w : ℕ) (z : ℤ) : ℤ := Int.bmod z (2 ^ w)

/-- The integer fits a signed 64-bit word. -/
def Fits64 (z : ℤ) : Prop := -2 ^ 63 ≤ z ∧ z < 2 ^ 63

instance (z : ℤ) : Decidable (Fits64 z) := inferInstanceAs (Decidable (_ ∧ _))

/-- The integer fits a signed 32-bit word. -/
def Fits32 (z : ℤ) : Prop := -2 ^ 31 ≤ z ∧ z < 2 ^ 31

instance (z : ℤ) : Decidable (Fits32 z) := inferInstanceAs (Decidable (_ ∧ _))

theorem wrap64_of_fits {z : ℤ} (h : Fits64 z) : wrap 64 z = z := by
  obtain ⟨hl, hu⟩ := h
  apply Int.bmod_eq_of_le_mul_two <;> push_cast <;> omega

theorem wrap32_of_fits {z : ℤ} (h : Fits32 z) : wrap 32 z = z := by
  obtain ⟨hl, hu⟩ := h
  apply Int.bmod_eq_of_le_mul_two <;> push_cast <;> omega

theorem fits64_wrap (z : ℤ) : Fits64 (wrap 64 z) := by
  have hpos : 0 < 2 ^ 64 := by decide
  have hle := Int.le_bmod (x := z) hpos
  have hlt := Int.bmod_lt (x := z) hpos
  rw [Fits64, wrap]
  omega

/-- Reduction changes a value by whole turns of the word. -/
theorem wrap64_eq_add (z : ℤ) : ∃ turns : ℤ, wrap 64 z = z + 2 ^ 64 * turns := by
  obtain ⟨turns, hturns⟩ : ((2 ^ 64 : ℕ) : ℤ) ∣ Int.bmod z (2 ^ 64) - z := Int.dvd_bmod_sub_self
  refine ⟨turns, ?_⟩
  rw [wrap]
  omega

/-- An intermediate reduction does not change the final sum. -/
@[simp] theorem wrap_wrap_add (w : ℕ) (x y : ℤ) : wrap w (wrap w x + y) = wrap w (x + y) :=
  Int.bmod_add_bmod

end Word

namespace Numeral

open Word

/-- Stream output of an unsigned integer. -/
def renderNat (n : ℕ) : List Char := Nat.toDigits 10 n

/-- Stream output of a signed integer. -/
def renderInt (z : ℤ) : List Char :=
  if z < 0 then '-' :: renderNat z.natAbs else renderNat z.natAbs

/-- Stream output padded on the left to a field width. -/
def padLeft (width : ℕ) (fill : Char) (s : List Char) : List Char :=
  List.replicate (width - s.length) fill ++ s

/-- The blanks that a conversion skips. -/
def isSpace (c : Char) : Bool :=
  c == ' ' || c == '\t' || c == '\n' || c == '\x0b' || c == '\x0c' || c == '\r'

/-- The sign and the magnitude at the start of a text, if it starts with a numeral. -/
def scan (s : List Char) : Option (Bool × ℕ) :=
  let body := s.dropWhile isSpace
  let negative := body.head? == some '-'
  let rest := if negative || body.head? == some '+' then body.tail else body
  let digits := rest.takeWhile Char.isDigit
  if digits.isEmpty then none else some (negative, Nat.ofDigitChars 10 digits 0)

/-- The integer a sign and a magnitude denote. -/
def signed (negative : Bool) (n : ℕ) : ℤ := if negative then -n else n

/-- Conversion to a signed 64-bit integer. -/
def stoll (s : List Char) : Option ℤ :=
  (scan s).bind fun r => if Fits64 (signed r.1 r.2) then some (signed r.1 r.2) else none

/-- Conversion to a `long`, which has 64 bits. -/
def stol : List Char → Option ℤ := stoll

/-- Conversion to a signed 32-bit integer. -/
def stoi (s : List Char) : Option ℤ :=
  (scan s).bind fun r => if Fits32 (signed r.1 r.2) then some (signed r.1 r.2) else none

/-- Conversion to an unsigned 64-bit integer; a minus sign negates modulo the word. -/
def stoul (s : List Char) : Option ℕ :=
  (scan s).bind fun r =>
    if r.2 < 2 ^ 64 then some (if r.1 then (2 ^ 64 - r.2) % 2 ^ 64 else r.2) else none

/-- The integer at the start of a text, whatever its size. -/
def denotes (s : List Char) : Option ℤ := (scan s).map fun r => signed r.1 r.2

/-- The sign a text starts with, if it starts with one, and the text behind it. -/
def unsign : List Char → Bool × List Char
  | '-' :: s => (true, s)
  | '+' :: s => (false, s)
  | s => (false, s)

/-- The text is digits, and at least one. -/
def IsDigits (s : List Char) : Prop := s ≠ [] ∧ ∀ c ∈ s, c.isDigit = true

instance (s : List Char) : Decidable (IsDigits s) :=
  decidable_of_iff ((!s.isEmpty && s.all Char.isDigit) = true) (by simp [IsDigits])

/-- The integer of a text that is a numeral as a whole: one sign, if any, and digits. -/
def numeral (s : List Char) : Option ℤ :=
  if IsDigits (unsign s).2 then
    some (signed (unsign s).1 (Nat.ofDigitChars 10 (unsign s).2 0))
  else none

/-- A checked conversion returns the integer of the text if that is admitted. -/
private theorem convert_eq_some {s : List Char} {z : ℤ} (admits : ℤ → Prop)
    [DecidablePred admits] :
    ((scan s).bind fun r => if admits (signed r.1 r.2) then some (signed r.1 r.2) else none) =
      some z ↔ denotes s = some z ∧ admits z := by
  rw [denotes]
  cases scan s with
  | none => simp
  | some r =>
    rw [Option.bind_some, Option.map_some, Option.some.injEq]
    constructor
    · intro h
      split at h
      · rename_i hfits
        obtain rfl := Option.some.inj h
        exact ⟨rfl, hfits⟩
      · cases h
    · rintro ⟨rfl, hfits⟩
      rw [if_pos hfits]

theorem stoll_eq_some {s : List Char} {z : ℤ} :
    stoll s = some z ↔ denotes s = some z ∧ Fits64 z :=
  convert_eq_some Fits64

theorem stoi_eq_some {s : List Char} {z : ℤ} :
    stoi s = some z ↔ denotes s = some z ∧ Fits32 z :=
  convert_eq_some Fits32

/-- A conversion to an unsigned integer agrees with the numeral unless that is negative. -/
theorem stoul_eq_of_denotes {s : List Char} {n : ℕ} {z : ℤ} (h : stoul s = some n)
    (hz : denotes s = some z) (hnonneg : 0 ≤ z) : (n : ℤ) = z := by
  rw [denotes, Option.map_eq_some_iff] at hz
  obtain ⟨⟨negative, m⟩, hscan, rfl⟩ := hz
  rw [stoul, hscan, Option.bind_some] at h
  split at h
  · obtain rfl := Option.some.inj h
    cases negative with
    | false => rfl
    | true =>
      have hm : m = 0 := by
        simp only [signed, if_true] at hnonneg
        omega
      subst hm
      rfl
  · cases h

/-- The characters a numeral is written with. -/
def isNumeralChar (c : Char) : Bool := c.isDigit || c == '-'

theorem isDigit_renderNat {n : ℕ} {c : Char} (h : c ∈ renderNat n) : c.isDigit = true :=
  Nat.isDigit_of_mem_toDigits (by decide) (by decide) h

theorem renderNat_ne_nil (n : ℕ) : renderNat n ≠ [] := by
  rw [renderNat, Nat.toDigits_eq_if (by decide)]
  split
  · exact List.cons_ne_nil _ _
  · exact List.append_ne_nil_of_right_ne_nil _ (List.cons_ne_nil _ _)

theorem isDigits_renderNat (n : ℕ) : IsDigits (renderNat n) :=
  ⟨renderNat_ne_nil n, fun _ hc => isDigit_renderNat hc⟩

theorem isNumeralChar_renderInt {z : ℤ} {c : Char} (h : c ∈ renderInt z) :
    isNumeralChar c = true := by
  rw [renderInt] at h
  split at h
  · rcases List.mem_cons.mp h with rfl | h
    · rfl
    · simp only [isNumeralChar, isDigit_renderNat h, Bool.true_or]
  · simp only [isNumeralChar, isDigit_renderNat h, Bool.true_or]

theorem renderInt_ne_nil (z : ℤ) : renderInt z ≠ [] := by
  rw [renderInt]
  split
  · exact List.cons_ne_nil _ _
  · exact renderNat_ne_nil _

theorem isDigit_padLeft {w n : ℕ} {c : Char} (h : c ∈ padLeft w '0' (renderNat n)) :
    c.isDigit = true := by
  rcases List.mem_append.mp h with h | h
  · rw [List.eq_of_mem_replicate h]
    rfl
  · exact isDigit_renderNat h

theorem padLeft_ne_nil (w n : ℕ) : padLeft w '0' (renderNat n) ≠ [] :=
  List.append_ne_nil_of_right_ne_nil _ (renderNat_ne_nil n)

/-- Padding with zeros does not change the value of the digits. -/
theorem ofDigitChars_padLeft (w n : ℕ) :
    Nat.ofDigitChars 10 (padLeft w '0' (renderNat n)) 0 = n := by
  rw [padLeft, Nat.ofDigitChars_append, Nat.ofDigitChars_replicate_zero, Nat.mul_zero, renderNat,
    Nat.ofDigitChars_ten_toDigits]

private theorem digit_facts {c : Char} (h : c.isDigit = true) :
    isSpace c = false ∧ (c == '-') = false ∧ (c == '+') = false := by
  have hne (d : Char) (hd : d.isDigit = false) : (c == d) = false :=
    beq_eq_false_iff_ne.mpr fun he => by simp [he, hd] at h
  refine ⟨?_, hne _ (by decide), hne _ (by decide)⟩
  simp only [isSpace, hne ' ' (by decide), hne '\t' (by decide), hne '\n' (by decide),
    hne '\x0b' (by decide), hne '\x0c' (by decide), hne '\r' (by decide), Bool.or_false]

/-- Plain digits are read as their value. -/
theorem scan_digits {ds : List Char} (h : IsDigits ds) :
    scan ds = some (false, Nat.ofDigitChars 10 ds 0) := by
  cases ds with
  | nil => exact absurd rfl h.1
  | cons c cs =>
    obtain ⟨hs, hm, hp⟩ := digit_facts (h.2 c List.mem_cons_self)
    have hbody : (c :: cs).dropWhile isSpace = c :: cs := by
      rw [List.dropWhile_cons, hs, if_neg Bool.false_ne_true]
    simp only [scan, hbody, List.head?_cons, Option.some_beq_some, hm, hp, Bool.or_self,
      Bool.false_eq_true, if_false, List.takeWhile_eq_self_iff.mpr h.2, List.isEmpty_cons]

/-- Digits denote less than the power of ten of their number. -/
theorem ofDigitChars_lt {ds : List Char} (h : ∀ c ∈ ds, c.isDigit = true) (n : ℕ) :
    Nat.ofDigitChars 10 ds n < (n + 1) * 10 ^ ds.length := by
  induction ds generalizing n with
  | nil => simp
  | cons c cs ih =>
    have hdigit : c.toNat - '0'.toNat < 10 := by
      have hle := (Char.isDigit_iff_toNat.mp (h c List.mem_cons_self)).2
      have hnine : '9'.toNat = 57 := rfl
      have hzero : '0'.toNat = 48 := rfl
      omega
    rw [Nat.ofDigitChars_cons, List.length_cons, Nat.pow_succ]
    calc Nat.ofDigitChars 10 cs (10 * n + (c.toNat - '0'.toNat))
        < (10 * n + (c.toNat - '0'.toNat) + 1) * 10 ^ cs.length :=
          ih (fun d hd => h d (List.mem_cons_of_mem c hd)) _
      _ ≤ ((n + 1) * 10) * 10 ^ cs.length := Nat.mul_le_mul_right _ (by omega)
      _ = (n + 1) * (10 ^ cs.length * 10) := by rw [Nat.mul_assoc, Nat.mul_comm 10]

/-- A sign before the digits is read as the sign. -/
theorem scan_sign {sign : Char} {ds : List Char} (hsign : sign = '-' ∨ sign = '+')
    (h : IsDigits ds) :
    scan (sign :: ds) = some (sign == '-', Nat.ofDigitChars 10 ds 0) := by
  have hempty : ds.isEmpty = false := List.isEmpty_eq_false_iff.mpr h.1
  have hdigits : ds.takeWhile Char.isDigit = ds := List.takeWhile_eq_self_iff.mpr h.2
  rcases hsign with rfl | rfl
  · have hbody : ('-' :: ds).dropWhile isSpace = '-' :: ds := rfl
    simp only [scan, hbody, List.head?_cons, Option.some_beq_some, beq_self_eq_true, Bool.true_or,
      if_true, List.tail_cons, hdigits, hempty, Bool.false_eq_true, if_false]
  · have hbody : ('+' :: ds).dropWhile isSpace = '+' :: ds := rfl
    simp only [scan, hbody, List.head?_cons, Option.some_beq_some, beq_self_eq_true, Bool.or_true,
      if_true, List.tail_cons, hdigits, hempty, Bool.false_eq_true, if_false]

/-- A text that is a numeral as a whole is read as its integer. -/
theorem denotes_of_numeral {s : List Char} {z : ℤ} (h : numeral s = some z) :
    denotes s = some z := by
  rw [numeral] at h
  split at h
  · rename_i hdigits
    obtain rfl := Option.some.inj h
    have hscan : scan s = some ((unsign s).1, Nat.ofDigitChars 10 (unsign s).2 0) := by
      unfold unsign at hdigits ⊢
      split at hdigits
      · exact scan_sign (.inl rfl) hdigits
      · exact scan_sign (.inr rfl) hdigits
      · exact scan_digits hdigits
    rw [denotes, hscan, Option.map_some]
  · cases h

theorem scan_renderInt (z : ℤ) : scan (renderInt z) = some (decide (z < 0), z.natAbs) := by
  by_cases hz : z < 0
  · rw [renderInt, if_pos hz, scan_sign (.inl rfl) (isDigits_renderNat _), renderNat,
      Nat.ofDigitChars_ten_toDigits, decide_eq_true hz, beq_self_eq_true]
  · rw [renderInt, if_neg hz, scan_digits (isDigits_renderNat _), renderNat,
      Nat.ofDigitChars_ten_toDigits, decide_eq_false hz]

private theorem signed_natAbs (z : ℤ) : signed (decide (z < 0)) z.natAbs = z := by
  rw [signed]
  split <;> rename_i h
  · rw [decide_eq_true_eq] at h
    omega
  · rw [decide_eq_true_eq] at h
    omega

/-- A written 64-bit integer is read back. -/
theorem stoll_renderInt {z : ℤ} (h : Fits64 z) : stoll (renderInt z) = some z := by
  rw [stoll, scan_renderInt, Option.bind_some, signed_natAbs, if_pos h]

/-- A written 32-bit integer is read back. -/
theorem stoi_renderInt {z : ℤ} (h : Fits32 z) : stoi (renderInt z) = some z := by
  rw [stoi, scan_renderInt, Option.bind_some, signed_natAbs, if_pos h]

/-- A zero-padded field is read back without its padding. -/
theorem stoll_padLeft {w n : ℕ} (h : n < 2 ^ 63) :
    stoll (padLeft w '0' (renderNat n)) = some (n : ℤ) := by
  have hfits : Fits64 (n : ℤ) := ⟨by omega, by omega⟩
  rw [stoll, scan_digits ⟨padLeft_ne_nil w n, fun c hc => isDigit_padLeft hc⟩,
    ofDigitChars_padLeft, Option.bind_some, signed, if_neg Bool.false_ne_true, if_pos hfits]

/-- A written unsigned integer is read back. -/
theorem stoul_renderNat {n : ℕ} (h : n < 2 ^ 64) : stoul (renderNat n) = some n := by
  rw [stoul, scan_digits (isDigits_renderNat n), Option.bind_some,
    renderNat, Nat.ofDigitChars_ten_toDigits, if_pos h, if_neg Bool.false_ne_true]

end Numeral
