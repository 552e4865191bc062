import Mathlib.Algebra.Order.Field.Rat
import Mathlib.Tactic.FieldSimp
import Mathlib.Tactic.Linarith
import Evrp.Sdk.EventFormat

/-!
# What the numerals of an event line denote

The parser cuts five numerals out of a line and hands each to a conversion of
the standard library. The value is refused when it does not fit; type and code
are narrowed to sixteen bits without a check, and the fraction of a second is
taken as a number of microseconds, whatever the number of its digits. Text
behind the digits of a numeral is passed over. The parsed fields are therefore
the numbers written exactly when every field is a numeral to its end, type and
code are sixteen-bit numbers, the fraction has six digits or is zero, and the
time fits its word.
-/

namespace Evrp

open Text Numeral Word

/-- The five numerals of an event line, the time cut at its dot. -/
structure LineNumerals where
  seconds : List Char
  fraction : List Char
  type : List Char
  code : List Char
  value : List Char
  deriving DecidableEq, Repr

/-- The numerals at the positions where the parser reads them. -/
def lineNumerals (line : List Char) : Option LineNumerals :=
  (findStr "] ".toList line 0).bind fun bracket =>
    let tsStart := bracket + 2
    (find ' ' line tsStart).bind fun tsEnd =>
      if tsEnd ≤ tsStart then none
      else
        let token := substr line tsStart (tsEnd - tsStart)
        (find '.' token 0).bind fun dot =>
          if dot = 0 ∨ token.length ≤ dot + 1 then none
          else
            (fieldToken "type=".toList "( ".toList line tsEnd).bind fun typeField =>
              (fieldToken "code=".toList "( ".toList line typeField.2).bind fun codeField =>
                (fieldToken "value=".toList " /".toList line codeField.2).bind fun valueField =>
                  some ⟨substr token 0 dot, token.drop (dot + 1), typeField.1, codeField.1,
                    valueField.1⟩

namespace LineNumerals

/-- The conversions of the parser. -/
def convert (t : LineNumerals) : Option EventLine :=
  (stoll t.seconds).bind fun sec =>
    (stoll t.fraction).bind fun usec =>
      (stoul t.type).bind fun type =>
        (stoul t.code).bind fun code =>
          (stoi t.value).bind fun value =>
            some ⟨wrap 64 (wrap 64 (sec * 1000000) + usec), type % 65536, code % 65536, value⟩

end LineNumerals

/-- Parsing cuts the numerals out and converts them. -/
theorem parseEventLine_eq (line : List Char) :
    parseEventLine line = (lineNumerals line).bind LineNumerals.convert := by
  unfold parseEventLine lineNumerals parseTimeToken
  cases findStr "] ".toList line 0 with
  | none => rfl
  | some bracket =>
    simp only [Option.bind_some]
    cases find ' ' line (bracket + 2) with
    | none => rfl
    | some tsEnd =>
      simp only [Option.bind_some]
      split
      · rfl
      · generalize substr line (bracket + 2) (tsEnd - (bracket + 2)) = token
        cases find '.' token 0 with
        | none => rfl
        | some dot =>
          simp only [Option.bind_some]
          split
          · rfl
          · -- the parser converts a field before it looks for the next one
            ext r
            simp only [Option.bind_eq_some_iff, Option.some.injEq, LineNumerals.convert]
            constructor
            · rintro ⟨_, ⟨sec, hsec, usec, husec, rfl⟩, typeField, htype, type, htype',
                codeField, hcode, code, hcode', valueField, hvalue, value, hvalue', rfl⟩
              exact ⟨_, ⟨typeField, htype, codeField, hcode, valueField, hvalue, rfl⟩, sec, hsec,
                usec, husec, type, htype', code, hcode', value, hvalue', rfl⟩
            · rintro ⟨_, ⟨typeField, htype, codeField, hcode, valueField, hvalue, rfl⟩, sec, hsec,
                usec, husec, type, htype', code, hcode', value, hvalue', rfl⟩
              exact ⟨_, ⟨sec, hsec, usec, husec, rfl⟩, typeField, htype, type, htype',
                codeField, hcode, code, hcode', valueField, hvalue, value, hvalue', rfl⟩

/-- The microseconds that the digits behind the decimal point of a second stand for. -/
def fractionUs (s : List Char) : Option ℚ :=
  if IsDigits s then some (Nat.ofDigitChars 10 s 0 * 1000000 / 10 ^ s.length) else none

namespace LineNumerals

/-- The parsed fields are the numbers written: every field of the line is a numeral to its end,
type, code and value are those of their numerals, type and code within sixteen bits, and the time
is the decimal number of seconds, with a first product that does not overflow. -/
structure Faithful (t : LineNumerals) (r : EventLine) : Prop where
  type_eq : numeral t.type = some (r.type : ℤ)
  type_lt : r.type < 65536
  code_eq : numeral t.code = some (r.code : ℤ)
  code_lt : r.code < 65536
  value_eq : numeral t.value = some r.value
  time_eq : ∃ (sec : ℤ) (us : ℚ), numeral t.seconds = some sec ∧
    fractionUs t.fraction = some us ∧ (r.deltaUs : ℚ) = sec * 1000000 + us ∧
    Fits64 (sec * 1000000) ∧ Fits64 r.deltaUs

/-- Every field is a numeral to its end, type and code are sixteen-bit numbers, the fraction has
six digits or is zero, and the parser's two sums fit their word. -/
structure WellWritten (t : LineNumerals) : Prop where
  type_range : ∃ n < 65536, numeral t.type = some (n : ℕ)
  code_range : ∃ n < 65536, numeral t.code = some (n : ℕ)
  value_numeral : (numeral t.value).isSome = true
  fraction_digits : IsDigits t.fraction
  six_or_zero : t.fraction.length = 6 ∨ Nat.ofDigitChars 10 t.fraction 0 = 0
  time_fits : ∃ sec : ℤ, numeral t.seconds = some sec ∧ Fits64 (sec * 1000000) ∧
    Fits64 (sec * 1000000 + Nat.ofDigitChars 10 t.fraction 0)

end LineNumerals

/-- Digits count their microseconds exactly when there are six of them, or they are zero. -/
theorem fraction_eq_iff (n k : ℕ) :
    (n : ℚ) * 1000000 / 10 ^ k = n ↔ k = 6 ∨ n = 0 := by
  have hpow : (10 : ℚ) ^ k ≠ 0 := pow_ne_zero k (by norm_num)
  rw [div_eq_iff hpow, mul_eq_mul_left_iff, Nat.cast_eq_zero]
  refine or_congr_left ⟨fun h => ?_, ?_⟩
  · have hnat : 10 ^ 6 = 10 ^ k := by exact_mod_cast h
    exact (Nat.pow_right_injective (by norm_num) hnat).symm
  · rintro rfl
    norm_num

/-- The stored time is the decimal number of seconds exactly when the fraction counts its own
microseconds and the sum fits. -/
theorem time_exact_iff (sec : ℤ) {n k : ℕ} (hn : (n : ℤ) < 2 ^ 63) (hlt : n < 10 ^ k) :
    ((wrap 64 (sec * 1000000 + n) : ℤ) : ℚ) = sec * 1000000 + n * 1000000 / 10 ^ k ↔
      (k = 6 ∨ n = 0) ∧ Fits64 (sec * 1000000 + n) := by
  rw [← fraction_eq_iff]
  obtain ⟨turns, hturns⟩ := wrap64_eq_add (sec * 1000000 + n)
  constructor
  · intro h
    have hpow : (0 : ℚ) < 10 ^ k := by positivity
    have hfraction : (n : ℚ) * 1000000 / 10 ^ k = ((n + 2 ^ 64 * turns : ℤ) : ℚ) := by
      rw [hturns] at h
      push_cast at h ⊢
      linarith
    have hnonneg : (0 : ℚ) ≤ (n : ℚ) * 1000000 / 10 ^ k :=
      div_nonneg (mul_nonneg (Nat.cast_nonneg n) (by norm_num)) hpow.le
    have hsmall : (n : ℚ) * 1000000 / 10 ^ k < 1000000 := by
      rw [div_lt_iff₀ hpow, mul_comm]
      have : (n : ℚ) < 10 ^ k := by exact_mod_cast hlt
      linarith
    -- a whole turn of the word would leave the range of a fraction
    rw [hfraction] at hnonneg hsmall
    have hnonneg' : 0 ≤ (n : ℤ) + 2 ^ 64 * turns := by exact_mod_cast hnonneg
    have hsmall' : (n : ℤ) + 2 ^ 64 * turns < 1000000 := by exact_mod_cast hsmall
    have hzero : turns = 0 := by omega
    subst hzero
    rw [mul_zero, add_zero] at hturns hfraction
    refine ⟨?_, ?_⟩
    · rw [hfraction, Int.cast_natCast]
    · rw [← hturns]
      exact fits64_wrap _
  · rintro ⟨hfraction, hfits⟩
    rw [hfraction, wrap64_of_fits hfits]
    push_cast
    rfl

namespace LineNumerals

/-- The numerals behind an accepted line: those of the time and the value are kept, those of type
and code only modulo the width of the fields. -/
theorem convert_cases {t : LineNumerals} {r : EventLine} (h : t.convert = some r) :
    ∃ sec usec : ℤ, ∃ type code : ℕ,
      denotes t.seconds = some sec ∧ denotes t.fraction = some usec ∧ Fits64 usec ∧
      stoul t.type = some type ∧ stoul t.code = some code ∧ denotes t.value = some r.value ∧
      r.deltaUs = wrap 64 (sec * 1000000 + usec) ∧ r.type = type % 65536 ∧
      r.code = code % 65536 := by
  simp only [convert, Option.bind_eq_some_iff, Option.some.injEq] at h
  obtain ⟨sec, hsec, usec, husec, type, htype, code, hcode, value, hvalue, rfl⟩ := h
  exact ⟨sec, usec, type, code, (stoll_eq_some.mp hsec).1, (stoll_eq_some.mp husec).1,
    (stoll_eq_some.mp husec).2, htype, hcode, (stoi_eq_some.mp hvalue).1, wrap_wrap_add .., rfl,
    rfl⟩

/-- Digits are read as their value, which a conversion that succeeded has found to fit. -/
theorem fraction_value {s : List Char} {usec : ℤ} (hdigits : IsDigits s)
    (h : denotes s = some usec) (hfits : Fits64 usec) :
    usec = Nat.ofDigitChars 10 s 0 ∧ ((Nat.ofDigitChars 10 s 0 : ℕ) : ℤ) < 2 ^ 63 ∧
      Nat.ofDigitChars 10 s 0 < 10 ^ s.length := by
  have hvalue : usec = Nat.ofDigitChars 10 s 0 := by
    rw [denotes, scan_digits hdigits, Option.map_some, Option.some.injEq] at h
    exact h.symm
  have hlt := ofDigitChars_lt hdigits.2 0
  rw [Nat.zero_add, Nat.one_mul] at hlt
  exact ⟨hvalue, hvalue ▸ hfits.2, hlt⟩

/-- A field that is a numeral to its end is read as its integer. -/
theorem numeral_of_denotes {s : List Char} {z : ℤ} (hnumeral : (numeral s).isSome = true)
    (h : denotes s = some z) : numeral s = some z := by
  obtain ⟨z', hz'⟩ := Option.isSome_iff_exists.mp hnumeral
  exact hz'.trans ((denotes_of_numeral hz').symm.trans h)

/-- A sixteen-bit numeral is returned unchanged. -/
theorem narrowed_of_lt {s : List Char} {m n : ℕ} (h : stoul s = some m) (hn : n < 65536)
    (hnumeral : numeral s = some (n : ℤ)) : m % 65536 = n := by
  have hm := stoul_eq_of_denotes h (denotes_of_numeral hnumeral) (Int.natCast_nonneg n)
  omega

theorem WellWritten.faithful {t : LineNumerals} {r : EventLine} (h : t.convert = some r)
    (hw : t.WellWritten) : t.Faithful r := by
  obtain ⟨sec, usec, type, code, hsec, husec, hfits, htype, hcode, hvalue, hdelta, hrtype,
    hrcode⟩ := convert_cases h
  obtain ⟨n, hn, hn'⟩ := hw.type_range
  obtain ⟨m, hm, hm'⟩ := hw.code_range
  have hrn : r.type = n := hrtype.trans (narrowed_of_lt htype hn hn')
  have hrm : r.code = m := hrcode.trans (narrowed_of_lt hcode hm hm')
  refine ⟨hrn.symm ▸ hn', hrn.symm ▸ hn, hrm.symm ▸ hm', hrm.symm ▸ hm,
    numeral_of_denotes hw.value_numeral hvalue, ?_⟩
  obtain ⟨sec', hsec', hproduct, hsum⟩ := hw.time_fits
  obtain rfl := Option.some.inj ((denotes_of_numeral hsec').symm.trans hsec)
  obtain ⟨rfl, hbound, hlt⟩ := fraction_value hw.fraction_digits husec hfits
  have hexact := (time_exact_iff sec' hbound hlt).mpr ⟨hw.six_or_zero, hsum⟩
  exact ⟨sec', _, hsec', if_pos hw.fraction_digits, hdelta ▸ hexact, hproduct,
    hdelta ▸ fits64_wrap _⟩

theorem Faithful.wellWritten {t : LineNumerals} {r : EventLine} (h : t.convert = some r)
    (hf : t.Faithful r) : t.WellWritten := by
  obtain ⟨sec, usec, type, code, hsec, husec, hfits, htype, hcode, hvalue, hdelta, hrtype,
    hrcode⟩ := convert_cases h
  obtain ⟨sec', us, hsec', hus, htime, hproduct, -⟩ := hf.time_eq
  obtain rfl := Option.some.inj ((denotes_of_numeral hsec').symm.trans hsec)
  have hdigits : IsDigits t.fraction := by
    by_contra hnot
    rw [fractionUs, if_neg hnot] at hus
    cases hus
  rw [fractionUs, if_pos hdigits, Option.some.injEq] at hus
  obtain ⟨rfl, hbound, hlt⟩ := fraction_value hdigits husec hfits
  rw [hdelta, ← hus] at htime
  obtain ⟨hsix, hsum⟩ := (time_exact_iff sec' hbound hlt).mp htime
  exact ⟨⟨r.type, hf.type_lt, hf.type_eq⟩, ⟨r.code, hf.code_lt, hf.code_eq⟩,
    Option.isSome_iff_exists.mpr ⟨_, hf.value_eq⟩, hdigits, hsix, sec', hsec', hproduct, hsum⟩

end LineNumerals

/-- On an accepted line the parsed fields are the numbers written exactly when the line is well
written. -/
theorem parseEventLine_faithful_iff {line : List Char} {r : EventLine}
    (h : parseEventLine line = some r) :
    ∃ t, lineNumerals line = some t ∧ (t.Faithful r ↔ t.WellWritten) := by
  rw [parseEventLine_eq] at h
  obtain ⟨t, ht, hconvert⟩ := Option.bind_eq_some_iff.mp h
  exact ⟨t, ht, fun hf => hf.wellWritten hconvert, fun hw => hw.faithful hconvert⟩

/-- Half a second, written with one digit and with six. -/
theorem parseEventLine_faithful_iff_half :
    (∃ t, lineNumerals "[mouse] 0.5 type=2 code=0 value=1".toList = some t ∧
      (t.Faithful ⟨5, 2, 0, 1⟩ ↔ t.WellWritten)) ∧
    ∃ t, lineNumerals "[mouse] 0.500000 type=2 code=0 value=1".toList = some t ∧
      (t.Faithful ⟨500000, 2, 0, 1⟩ ↔ t.WellWritten) :=
  ⟨parseEventLine_faithful_iff (by decide), parseEventLine_faithful_iff (by decide)⟩

-- text behind the digits is passed over, and is no part of a numeral
example : parseEventLine "[mouse] 0.500000 type=0x2 code=0 value=1".toList =
    some ⟨500000, 0, 0, 1⟩ ∧ numeral "0x2".toList = none := by
  decide

/-- A type beyond sixteen bits is read as another type. -/
theorem parseEventLine_not_faithful :
    ¬ ∀ line r, parseEventLine line = some r → ∃ t, lineNumerals line = some t ∧ t.Faithful r := by
  intro hall
  obtain ⟨t, ht, hf⟩ := hall "[mouse] 0.500000 type=65538 code=0 value=1".toList ⟨500000, 2, 0, 1⟩
    (by decide)
  have ht' : lineNumerals "[mouse] 0.500000 type=65538 code=0 value=1".toList =
      some ⟨"0".toList, "500000".toList, "65538".toList, "0".toList, "1".toList⟩ := by decide
  obtain rfl := Option.some.inj (ht.symm.trans ht')
  exact absurd hf.type_eq (by decide)

end Evrp
