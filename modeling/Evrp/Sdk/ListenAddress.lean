import Evrp.Lib.Numeral
import Evrp.Lib.Text

/-!
# The port of a listen address

The port is the number behind the last colon of an address; behind a bracketed
host it is the number behind the colon that follows the last bracket. The text
behind the separator is handed to a conversion of the standard library, which
skips blanks, takes a sign and stops at the first character that is not a digit,
so a text is also accepted if it only starts with a number.
-/

namespace Evrp

open Text Numeral Word

/-- The address has its host in brackets. -/
def bracketed (listenAddress : List Char) : Prop :=
  2 ≤ listenAddress.length ∧ listenAddress.head? = some '['

instance (listenAddress : List Char) : Decidable (bracketed listenAddress) :=
  inferInstanceAs (Decidable (_ ∧ _))

/-- The position of the colon in front of the port. -/
def portSeparator (listenAddress : List Char) : Option ℕ :=
  if bracketed listenAddress then
    (rfind ']' listenAddress).bind fun close =>
      if listenAddress.length < close + 2 ∨ listenAddress[close + 1]? ≠ some ':' then none
      else some (close + 1)
  else rfind ':' listenAddress

/-- The port of an address, written to the place the caller names, if it names one. -/
def parseListenPort (listenAddress : List Char) (outPort : Option ℕ) : Bool × Option ℕ :=
  if outPort.isNone || listenAddress.isEmpty then (false, outPort)
  else
    match portSeparator listenAddress with
    | none => (false, outPort)
    | some pos =>
      if listenAddress.length ≤ pos + 1 then (false, outPort)
      else
        match stol (listenAddress.drop (pos + 1)) with
        | none => (false, outPort)
        | some p =>
          if p < 1 ∨ 65535 < p then (false, outPort) else (true, some (p.toNat % 65536))

/-- The text behind the separator of an address. -/
def IsPortText (listenAddress text : List Char) : Prop :=
  if bracketed listenAddress then
    ∃ host, listenAddress = host ++ ']' :: ':' :: text ∧ ']' ∉ text
  else ∃ host, listenAddress = host ++ ':' :: text ∧ ':' ∉ text

/-- The address names a port: digits only, and a number that a port can have. -/
def NamesPort (listenAddress : List Char) (port : ℕ) : Prop :=
  ∃ text, IsPortText listenAddress text ∧ text ≠ [] ∧ (∀ c ∈ text, c.isDigit = true) ∧
    Nat.ofDigitChars 10 text 0 = port ∧ 1 ≤ port ∧ port ≤ 65535

/-- The separator stands in front of the port text. -/
theorem isPortText_of_portSeparator {listenAddress : List Char} {pos : ℕ}
    (h : portSeparator listenAddress = some pos) :
    IsPortText listenAddress (listenAddress.drop (pos + 1)) := by
  unfold portSeparator at h
  unfold IsPortText
  split at h
  · rename_i hbracketed
    rw [if_pos hbracketed]
    obtain ⟨close, hclose, h⟩ := Option.bind_eq_some_iff.mp h
    split at h
    · cases h
    · rename_i hcolon
      obtain rfl := Option.some.inj h
      obtain ⟨host, rest, hsplit, hlast, rfl⟩ := rfind_eq_some hclose
      have hnext : listenAddress[host.length + 1]? = some ':' := by
        by_contra hne
        exact hcolon (Or.inr hne)
      cases rest with
      | nil =>
        rw [hsplit] at hnext
        simp at hnext
      | cons c text =>
        have hc : c = ':' := by
          rw [hsplit] at hnext
          simpa using hnext
        subst hc
        have hdrop : listenAddress.drop (host.length + (1 + 1)) = text := by
          rw [hsplit, List.drop_length_add_append]
          rfl
        rw [Nat.add_assoc]
        rw [hdrop]
        exact ⟨host, hsplit, fun hmem => hlast (List.mem_cons_of_mem _ hmem)⟩
  · rename_i hbare
    rw [if_neg hbare]
    obtain ⟨host, text, hsplit, hlast, rfl⟩ := rfind_eq_some h
    have hdrop : listenAddress.drop (host.length + 1) = text := by
      rw [hsplit, List.drop_length_add_append]
      rfl
    rw [hdrop]
    exact ⟨host, hsplit, hlast⟩

/-- A port text has its separator in front of it. -/
theorem portSeparator_of_isPortText {listenAddress text : List Char}
    (h : IsPortText listenAddress text) :
    ∃ pos, portSeparator listenAddress = some pos ∧ listenAddress.drop (pos + 1) = text := by
  unfold IsPortText at h
  unfold portSeparator
  split at h
  · rename_i hbracketed
    rw [if_pos hbracketed]
    obtain ⟨host, rfl, hlast⟩ := h
    have hlast' : ']' ∉ ':' :: text := by
      rw [List.mem_cons, not_or]
      exact ⟨by decide, hlast⟩
    rw [rfind_append host _ hlast', Option.bind_some]
    refine ⟨host.length + 1, if_neg ?_, ?_⟩
    · simp
    · rw [Nat.add_assoc, List.drop_length_add_append]
      rfl
  · rename_i hbare
    rw [if_neg hbare]
    obtain ⟨host, rfl, hlast⟩ := h
    refine ⟨host.length, rfind_append host text hlast, ?_⟩
    rw [List.drop_length_add_append]
    rfl

theorem IsPortText.unique {listenAddress text other : List Char}
    (h : IsPortText listenAddress text) (hother : IsPortText listenAddress other) :
    other = text := by
  obtain ⟨pos, hpos, rfl⟩ := portSeparator_of_isPortText h
  obtain ⟨pos', hpos', rfl⟩ := portSeparator_of_isPortText hother
  rw [hpos] at hpos'
  rw [Option.some.inj hpos']

/-- The parser accepts what starts with a number that a port can have. -/
def StartsWithPort (text : List Char) (port : ℕ) : Prop :=
  denotes text = some (port : ℤ) ∧ 1 ≤ port ∧ port ≤ 65535

theorem StartsWithPort.stol_eq {text : List Char} {port : ℕ} (h : StartsWithPort text port) :
    stol text = some (port : ℤ) := by
  obtain ⟨hdenotes, -, hle⟩ := h
  refine stoll_eq_some.mpr ⟨hdenotes, ?_⟩
  rw [Fits64]
  omega

theorem parseListenPort_of_startsWithPort {listenAddress text : List Char} {port : ℕ}
    (htext : IsPortText listenAddress text) (h : StartsWithPort text port) (old : ℕ) :
    parseListenPort listenAddress (some old) = (true, some port) := by
  obtain ⟨pos, hpos, rfl⟩ := portSeparator_of_isPortText htext
  have hne : listenAddress.drop (pos + 1) ≠ [] := by
    intro hnil
    have hdenotes := h.1
    rw [hnil] at hdenotes
    cases hdenotes
  have hlength : ¬ listenAddress.length ≤ pos + 1 := fun hle =>
    hne (List.drop_eq_nil_of_le hle)
  have hempty : listenAddress.isEmpty = false := by
    rw [List.isEmpty_eq_false_iff]
    rintro rfl
    exact hlength (Nat.zero_le _)
  have hrange : ¬ ((port : ℤ) < 1 ∨ 65535 < (port : ℤ)) := by
    obtain ⟨-, hge, hle⟩ := h
    omega
  have hport : (port : ℤ).toNat % 65536 = port := by
    obtain ⟨-, -, hle⟩ := h
    rw [Int.toNat_natCast, Nat.mod_eq_of_lt (by omega)]
  simp only [parseListenPort, Option.isNone_some, hempty, Bool.or_self, Bool.false_eq_true,
    if_false, hpos, if_neg hlength, h.stol_eq, if_neg hrange, hport]

/-- Whatever is not accepted leaves the caller's port alone. -/
theorem parseListenPort_cases (listenAddress : List Char) (old : ℕ) :
    (∃ text port, IsPortText listenAddress text ∧ StartsWithPort text port ∧
        parseListenPort listenAddress (some old) = (true, some port)) ∨
      parseListenPort listenAddress (some old) = (false, some old) := by
  by_cases h : ∃ text port, IsPortText listenAddress text ∧ StartsWithPort text port
  · obtain ⟨text, port, htext, hport⟩ := h
    exact Or.inl ⟨text, port, htext, hport, parseListenPort_of_startsWithPort htext hport old⟩
  · refine Or.inr ?_
    unfold parseListenPort
    split
    · rfl
    · split
      · rfl
      · rename_i pos hpos
        split
        · rfl
        · split
          · rfl
          · rename_i p hp
            split
            · rfl
            · rename_i hrange
              obtain ⟨hdenotes, -⟩ := stoll_eq_some.mp hp
              obtain ⟨port, rfl⟩ : ∃ port : ℕ, p = port := ⟨p.toNat, by omega⟩
              exact absurd ⟨_, port, isPortText_of_portSeparator hpos, hdenotes, by omega, by omega⟩
                h

/-- Digits only are read as the number they write. -/
theorem denotes_of_digits {text : List Char} (hne : text ≠ [])
    (hdigits : ∀ c ∈ text, c.isDigit = true) :
    denotes text = some (Nat.ofDigitChars 10 text 0 : ℤ) := by
  rw [denotes, scan_digits ⟨hne, hdigits⟩]
  rfl

theorem NamesPort.exists_startsWithPort {listenAddress : List Char} {port : ℕ}
    (h : NamesPort listenAddress port) :
    ∃ text, IsPortText listenAddress text ∧ StartsWithPort text port := by
  obtain ⟨text, htext, hne, hdigits, rfl, hrange⟩ := h
  exact ⟨text, htext, denotes_of_digits hne hdigits, hrange⟩

theorem StartsWithPort.namesPort {listenAddress text : List Char} {port : ℕ}
    (h : StartsWithPort text port) (htext : IsPortText listenAddress text)
    (hdigits : ∀ c ∈ text, c.isDigit = true) : NamesPort listenAddress port := by
  obtain ⟨hdenotes, hrange⟩ := h
  have hne : text ≠ [] := by
    rintro rfl
    cases hdenotes
  rw [denotes_of_digits hne hdigits, Option.some.injEq] at hdenotes
  exact ⟨text, htext, hne, hdigits, by exact_mod_cast hdenotes, hrange⟩

/-- The parser accepts exactly the addresses that name a port, returns that port and leaves the
caller's port alone otherwise, if and only if the port text is digits only or does not start with
a number that a port can have. -/
theorem parseListenPort_exact_iff (listenAddress : List Char) (old : ℕ) :
    (((parseListenPort listenAddress (some old)).1 = true ↔ ∃ port, NamesPort listenAddress port) ∧
        (∀ port, NamesPort listenAddress port →
          (parseListenPort listenAddress (some old)).2 = some port) ∧
        ((parseListenPort listenAddress (some old)).1 = false →
          (parseListenPort listenAddress (some old)).2 = some old)) ↔
      ∀ text, IsPortText listenAddress text →
        (∀ c ∈ text, c.isDigit = true) ∨ ∀ port, ¬ StartsWithPort text port := by
  constructor
  · rintro ⟨haccepts, -, -⟩ text htext
    by_cases hdigits : ∀ c ∈ text, c.isDigit = true
    · exact Or.inl hdigits
    · refine Or.inr fun port hport => hdigits ?_
      have htrue : (parseListenPort listenAddress (some old)).1 = true := by
        rw [parseListenPort_of_startsWithPort htext hport old]
      obtain ⟨-, named, hnamed, -, hall, -⟩ := haccepts.mp htrue
      rwa [htext.unique hnamed] at hall
  · intro h
    refine ⟨⟨fun htrue => ?_, ?_⟩, ?_, ?_⟩
    · rcases parseListenPort_cases listenAddress old with ⟨text, port, htext, hport, -⟩ | hfalse
      · rcases h text htext with hdigits | hnone
        · exact ⟨port, hport.namesPort htext hdigits⟩
        · exact absurd hport (hnone port)
      · rw [hfalse] at htrue
        cases htrue
    · rintro ⟨port, hnames⟩
      obtain ⟨text, htext, hport⟩ := hnames.exists_startsWithPort
      rw [parseListenPort_of_startsWithPort htext hport old]
    · intro port hnames
      obtain ⟨text, htext, hport⟩ := hnames.exists_startsWithPort
      rw [parseListenPort_of_startsWithPort htext hport old]
    · intro hfalse
      rcases parseListenPort_cases listenAddress old with ⟨text, port, -, -, htrue⟩ | hold
      · rw [htrue] at hfalse
        cases hfalse
      · rw [hold]

example : parseListenPort "[::1]:9".toList (some 0) = (true, some 9) := by decide

example : parseListenPort "[::1]50051".toList (some 0) = (false, some 0) := by decide

/-- A port text that only starts with a number is accepted. -/
theorem parseListenPort_accepts_trailing_text :
    parseListenPort "0.0.0.0:80abc".toList (some 0) = (true, some 80) ∧
      ∀ port, ¬ NamesPort "0.0.0.0:80abc".toList port := by
  refine ⟨by decide, ?_⟩
  rintro port ⟨text, htext, -, hdigits, -⟩
  have hsplit : IsPortText "0.0.0.0:80abc".toList "80abc".toList := by
    rw [IsPortText, if_neg (by decide)]
    exact ⟨"0.0.0.0".toList, rfl, by decide⟩
  rw [hsplit.unique htext] at hdigits
  exact absurd (hdigits 'a' (by decide)) (by decide)

end Evrp
