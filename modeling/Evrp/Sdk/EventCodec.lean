import Evrp.Sdk.EventFormat

/-!
# Formatted lines are parsed back

The parser's positions are followed through the line segment by segment: each
field lies behind a segment without the first character of its key and before
one of its delimiters. The floor split of the delta is undone by the parser's
single multiplication, negative deltas included.
-/

namespace Evrp

open Text Numeral Word

/-- The formatter splits a delta at the floor to whole seconds. -/
theorem splitDelta_eq (d : ℤ) : splitDelta d = (d / 1000000, d % 1000000) := by
  have hsum := Int.tdiv_mul_add_tmod d 1000000
  have hlt := Int.tmod_lt_of_pos d (show (0 : ℤ) < 1000000 by decide)
  have hgt := Int.lt_tmod_of_pos d (show (0 : ℤ) < 1000000 by decide)
  unfold splitDelta
  generalize d.tdiv 1000000 = q at hsum ⊢
  generalize d.tmod 1000000 = r at hsum hlt hgt ⊢
  simp only
  split
  · rw [Prod.mk.injEq]
    omega
  · rw [Prod.mk.injEq]
    omega

/-- The seconds field of a 64-bit delta is itself a 64-bit integer. -/
private theorem fits64_seconds {d : ℤ} (h : Fits64 d) : Fits64 (d / 1000000) := by
  obtain ⟨hl, hu⟩ := h
  constructor <;> omega

private theorem not_mem_of_numeral {s : List Char} {c : Char}
    (hs : ∀ x ∈ s, isNumeralChar x = true) (hc : isNumeralChar c = false) : c ∉ s := by
  intro hm
  rw [hs c hm] at hc
  exact Bool.noConfusion hc

private theorem isNumeralChar_digits {s : List Char} (hs : ∀ x ∈ s, x.isDigit = true) :
    ∀ x ∈ s, isNumeralChar x = true := by
  intro x hx
  simp only [isNumeralChar, hs x hx, Bool.true_or]

/-- Every character of a time token belongs to a numeral or is its dot. -/
theorem mem_formatTimeToken {d : ℤ} {c : Char} (h : c ∈ formatTimeToken d) :
    isNumeralChar c = true ∨ c = '.' := by
  rcases List.mem_append.mp h with h | h
  · exact Or.inl (isNumeralChar_renderInt h)
  · rcases List.mem_cons.mp h with h | h
    · exact Or.inr h
    · exact Or.inl (isNumeralChar_digits (fun x hx => isDigit_padLeft hx) c h)

private theorem not_mem_formatTimeToken {d : ℤ} {c : Char} (hc : isNumeralChar c = false)
    (hdot : c ≠ '.') : c ∉ formatTimeToken d := by
  intro hm
  rcases mem_formatTimeToken hm with h | h
  · rw [h] at hc
    exact Bool.noConfusion hc
  · exact hdot h

theorem formatTimeToken_ne_nil (d : ℤ) : formatTimeToken d ≠ [] :=
  List.append_ne_nil_of_left_ne_nil (renderInt_ne_nil _) _

/-- The time token of a 64-bit delta is read back as that delta. -/
theorem parseTimeToken_formatTimeToken {d : ℤ} (h : Fits64 d) :
    parseTimeToken (formatTimeToken d) = some d := by
  have hsplit := splitDelta_eq d
  have hmod : 0 ≤ d % 1000000 ∧ d % 1000000 < 1000000 := by omega
  have hdot : find '.' (formatTimeToken d) 0 = some (renderInt (d / 1000000)).length := by
    have hfind := find_append [] (renderInt (d / 1000000))
      (padLeft 6 '0' (renderNat (d % 1000000).natAbs)) (c := '.')
      (not_mem_of_numeral (fun x hx => isNumeralChar_renderInt hx) (by decide))
    simpa only [formatTimeToken, hsplit, List.nil_append, List.length_nil, Nat.zero_add]
      using hfind
  have hpos : 0 < (renderInt (d / 1000000)).length :=
    List.length_pos_iff.mpr (renderInt_ne_nil _)
  have hfrac : 0 < (padLeft 6 '0' (renderNat (d % 1000000).natAbs)).length :=
    List.length_pos_iff.mpr (padLeft_ne_nil _ _)
  have hsec : substr (formatTimeToken d) 0 (renderInt (d / 1000000)).length =
      renderInt (d / 1000000) := by
    simp only [formatTimeToken, hsplit, substr, List.drop_zero, List.take_left]
  have husec : (formatTimeToken d).drop ((renderInt (d / 1000000)).length + 1) =
      padLeft 6 '0' (renderNat (d % 1000000).natAbs) := by
    rw [formatTimeToken, hsplit, ← List.drop_drop, List.drop_left, List.drop_succ_cons,
      List.drop_zero]
  have hlen : ¬ ((renderInt (d / 1000000)).length = 0 ∨
      (formatTimeToken d).length ≤ (renderInt (d / 1000000)).length + 1) := by
    simp only [formatTimeToken, hsplit, List.length_append, List.length_cons]
    omega
  rw [parseTimeToken, hdot, Option.bind_some, if_neg hlen, hsec, stoll_renderInt (fits64_seconds h),
    Option.bind_some, husec, stoll_padLeft (by omega), Option.bind_some, wrap_wrap_add]
  have hback : d / 1000000 * 1000000 + ((d % 1000000).natAbs : ℤ) = d := by omega
  rw [hback, wrap64_of_fits h]

/-- A field lies between a segment that hides its key and one of its delimiters. -/
theorem fieldToken_append (pre a tok rest : List Char) {c : Char} {k delimiters : List Char}
    (ha : c ∉ a) (htok : ∀ x ∈ tok, x ∉ delimiters)
    (hrest : ∀ x, rest.head? = some x → x ∈ delimiters) :
    fieldToken (c :: k) delimiters (pre ++ (a ++ (c :: k ++ (tok ++ rest)))) pre.length =
      some (tok, (pre ++ (a ++ (c :: k ++ tok))).length) := by
  have hline : pre ++ (a ++ (c :: k ++ (tok ++ rest))) =
      (pre ++ (a ++ c :: k)) ++ (tok ++ rest) := by
    simp only [List.append_assoc]
  have hstart : pre.length + a.length + (c :: k).length = (pre ++ (a ++ c :: k)).length := by
    simp only [List.length_append, Nat.add_assoc]
  have hstop : (findFirstOf delimiters (pre ++ (a ++ (c :: k ++ (tok ++ rest))))
      (pre ++ (a ++ c :: k)).length).getD (pre ++ (a ++ (c :: k ++ (tok ++ rest)))).length =
      (pre ++ (a ++ c :: k)).length + tok.length := by
    rw [hline]
    cases rest with
    | nil =>
      rw [List.append_nil, findFirstOf_eq_none _ _ htok, Option.getD_none, List.length_append]
    | cons x rest =>
      rw [findFirstOf_append _ _ _ htok (hrest x rfl), Option.getD_some]
  rw [fieldToken, findStr_append pre a (tok ++ rest) ha, Option.map_some]
  simp only [hstart, hstop, Nat.add_sub_cancel_left]
  rw [hline, substr_append]
  simp only [List.length_append, Nat.add_assoc]

/-- The names a type is annotated with. -/
private def typeNames : List (List Char) :=
  ["EV_SYN".toList, "EV_KEY".toList, "EV_REL".toList, "EV_ABS".toList, "EV_MSC".toList,
    "EV_UNKNOWN".toList]

private theorem eventTypeName_mem (type : ℕ) : eventTypeName type ∈ typeNames := by
  unfold eventTypeName
  split_ifs <;> simp only [typeNames, List.mem_cons, true_or, or_true]

/-- The annotations of a code: four names in parentheses, or nothing. -/
private def codeNotes : List (List Char) :=
  [[], "(MSC_SCAN)".toList, "(MSC_TIMESTAMP)".toList, "(SYN_REPORT)".toList,
    "(SYN_MT_REPORT)".toList]

private theorem codeNote_mem (ev : Event) : codeNote ev ∈ codeNotes := by
  have hname : eventCodeName ev.type ev.code ∈ [[], "MSC_SCAN".toList, "MSC_TIMESTAMP".toList,
      "SYN_REPORT".toList, "SYN_MT_REPORT".toList] := by
    unfold eventCodeName
    split_ifs <;> simp only [List.mem_cons, true_or, or_true]
  have hall : ∀ name ∈ [[], "MSC_SCAN".toList, "MSC_TIMESTAMP".toList, "SYN_REPORT".toList,
      "SYN_MT_REPORT".toList],
      (if name.isEmpty then [] else "(".toList ++ name ++ ")".toList) ∈ codeNotes := by
    decide
  exact hall _ hname

/-- No annotation of a type shows the first character of the next key. -/
private theorem typeNote_hides (type : ℕ) :
    'c' ∉ "(".toList ++ eventTypeName type ++ ")".toList ++ " ".toList := by
  have hall : ∀ name ∈ typeNames, 'c' ∉ "(".toList ++ name ++ ")".toList ++ " ".toList := by
    decide
  exact hall _ (eventTypeName_mem type)

private theorem codeNote_hides (ev : Event) : 'v' ∉ codeNote ev ++ " ".toList := by
  have hall : ∀ ann ∈ codeNotes, 'v' ∉ ann ++ " ".toList := by decide
  exact hall _ (codeNote_mem ev)

private theorem codeNote_head (ev : Event) (rest : List Char) (x : Char)
    (h : (codeNote ev ++ " ".toList ++ rest).head? = some x) : x ∈ "( ".toList := by
  unfold codeNote at h
  split_ifs at h
  · simp only [List.nil_append, List.head?_append, String.reduceToList, List.head?_cons,
      Option.some_or, Option.some.injEq] at h
    subst h
    decide
  · simp only [List.append_assoc, List.head?_append, String.reduceToList, List.head?_cons,
      Option.some_or, Option.some.injEq] at h
    subst h
    decide

private theorem keyboardComment_head (ev : Event) (x : Char)
    (h : (keyboardComment ev).head? = some x) : x ∈ " /".toList := by
  unfold keyboardComment at h
  split_ifs at h
  · simp only [List.append_assoc, List.head?_append, String.reduceToList, List.head?_cons,
      Option.some_or, Option.some.injEq] at h
    subst h
    decide
  · simp only [String.reduceToList, List.head?_cons, Option.some.injEq] at h
    subst h
    decide

/-- The labels of the devices are words of lower-case letters. -/
private theorem isLower_toLabel (k : DeviceKind) : ∀ c ∈ k.toLabel, c.isLower = true := by
  have hall : k.toLabel.all Char.isLower = true := by
    cases k <;> rfl
  exact List.all_eq_true.mp hall

private theorem not_mem_toLabel (k : DeviceKind) {c : Char} (hc : c.isLower = false) :
    c ∉ k.toLabel := by
  intro hm
  rw [isLower_toLabel k c hm] at hc
  exact Bool.noConfusion hc

private theorem label_hides (k : DeviceKind) : ']' ∉ "[".toList ++ k.toLabel := by
  rw [List.mem_append, not_or]
  exact ⟨by decide, not_mem_toLabel k (by decide)⟩

/-- The parser reads the four fields of a line whose segments hide the keys they precede. -/
private theorem parseEventLine_segments (label time typ ann1 code ann2 value tail : List Char)
    {d v : ℤ} {t c : ℕ} (hlabel : ']' ∉ "[".toList ++ label)
    (htime : ' ' ∉ time) (htime' : parseTimeToken time = some d) (hne : time ≠ [])
    (htyp : ∀ x ∈ typ, x ∉ "( ".toList) (htyp' : stoul typ = some t)
    (hann1 : 'c' ∉ "(".toList ++ ann1 ++ ")".toList ++ " ".toList)
    (hcode : ∀ x ∈ code, x ∉ "( ".toList) (hcode' : stoul code = some c)
    (hann2 : 'v' ∉ ann2 ++ " ".toList)
    (hann2' : ∀ rest x, (ann2 ++ " ".toList ++ rest).head? = some x → x ∈ "( ".toList)
    (hvalue : ∀ x ∈ value, x ∉ " /".toList) (hvalue' : stoi value = some v)
    (htail : ∀ x, tail.head? = some x → x ∈ " /".toList) :
    parseEventLine ("[".toList ++ label ++ "] ".toList ++ time ++ " type=".toList ++ typ ++
      "(".toList ++ ann1 ++ ")".toList ++ " code=".toList ++ code ++ ann2 ++ " value=".toList ++
      value ++ tail) = some ⟨d, t % 65536, c % 65536, v⟩ := by
  -- what follows each position the parser searches from, and what precedes it
  let r3 := ann2 ++ " ".toList ++ ("value=".toList ++ (value ++ tail))
  let r2 := "(".toList ++ ann1 ++ ")".toList ++ " ".toList ++ ("code=".toList ++ (code ++ r3))
  let r1 := "type=".toList ++ (typ ++ r2)
  let p1 := "[".toList ++ label ++ "] ".toList
  let p2 := p1 ++ time
  let p3 := p2 ++ (" ".toList ++ ("type=".toList ++ typ))
  let p4 := p3 ++ ("(".toList ++ ann1 ++ ")".toList ++ " ".toList ++ ("code=".toList ++ code))
  generalize hl : "[".toList ++ label ++ "] ".toList ++ time ++ " type=".toList ++ typ ++
    "(".toList ++ ann1 ++ ")".toList ++ " code=".toList ++ code ++ ann2 ++ " value=".toList ++
    value ++ tail = line
  have h0 : line = [] ++ ("[".toList ++ label ++ ("] ".toList ++ (time ++ ' ' :: r1))) := by
    simp [← hl, r1, r2, r3]
  have h1 : line = p1 ++ (time ++ ' ' :: r1) := by simp [← hl, p1, r1, r2, r3]
  have h2 : line = p2 ++ (" ".toList ++ ("type=".toList ++ (typ ++ r2))) := by
    simp [← hl, p1, p2, r2, r3]
  have h3 : line = p3 ++ ("(".toList ++ ann1 ++ ")".toList ++ " ".toList ++
      ("code=".toList ++ (code ++ r3))) := by
    simp [← hl, p1, p2, p3, r3]
  have h4 : line = p4 ++ (ann2 ++ " ".toList ++ ("value=".toList ++ (value ++ tail))) := by
    simp [← hl, p1, p2, p3, p4]
  have hbracket : findStr "] ".toList line 0 = some ("[".toList ++ label).length := by
    have hfind := findStr_append [] ("[".toList ++ label) (time ++ ' ' :: r1)
      (c := ']') (k := " ".toList) hlabel
    rw [List.length_nil, Nat.zero_add] at hfind
    rw [h0]
    exact hfind
  have hspace : find ' ' line p1.length = some p2.length := by
    rw [h1, find_append p1 time r1 htime]
    exact congrArg some List.length_append.symm
  have htoken : substr line p1.length time.length = time := by
    rw [h1, substr_append]
  have htype : fieldToken "type=".toList "( ".toList line p2.length = some (typ, p3.length) := by
    rw [h2]
    refine fieldToken_append p2 " ".toList typ r2 (c := 't') (k := "ype=".toList) (by decide)
      htyp ?_
    intro x hx
    obtain rfl := Option.some.inj hx
    decide
  have hcodeField : fieldToken "code=".toList "( ".toList line p3.length =
      some (code, p4.length) := by
    rw [h3]
    exact fieldToken_append p3 _ code r3 (c := 'c') (k := "ode=".toList) hann1 hcode (hann2' _)
  obtain ⟨stop, hvalueField⟩ : ∃ stop, fieldToken "value=".toList " /".toList line p4.length =
      some (value, stop) := by
    rw [h4]
    exact ⟨_, fieldToken_append p4 _ value tail (c := 'v') (k := "alue=".toList) hann2 hvalue
      htail⟩
  have hstart : ("[".toList ++ label).length + 2 = p1.length := by
    simp only [p1, List.length_append]
    rfl
  have hpos : p1.length < p2.length := by
    have := List.length_pos_iff.mpr hne
    simp only [p2, List.length_append]
    omega
  have hdiff : p2.length - p1.length = time.length := by
    simp only [p2, List.length_append, Nat.add_sub_cancel_left]
  -- the pairs the fields return are compared up to unfolding, so the positions become opaque
  clear_value p1 p2 p3 p4
  rw [parseEventLine, hbracket, Option.bind_some]
  simp only [hstart, hspace, Option.bind_some, if_neg (Nat.not_le.mpr hpos), hdiff, htoken, htime',
    htype, htyp', hcodeField, hcode', hvalueField, hvalue']

private theorem not_mem_delimiters {s : List Char} (hs : ∀ x ∈ s, isNumeralChar x = true)
    {delimiters : List Char} (hd : delimiters.all (fun x => !isNumeralChar x) = true) :
    ∀ x ∈ s, x ∉ delimiters := by
  intro x hx hm
  have hfalse := List.all_eq_true.mp hd x hm
  rw [hs x hx] at hfalse
  exact Bool.noConfusion hfalse

/-- Every event line is parsed back to its delta, type, code and value. -/
theorem parseEventLine_formatEventLine (device : DeviceKind) (ev : Event) {d : ℤ}
    (htype : ev.type < 65536) (hcode : ev.code < 65536) (hvalue : Fits32 ev.value)
    (hd : Fits64 d) :
    parseEventLine (formatEventLine device ev d) = some ⟨d, ev.type, ev.code, ev.value⟩ := by
  have hdigits (n : ℕ) : ∀ x ∈ renderNat n, isNumeralChar x = true :=
    isNumeralChar_digits fun x hx => isDigit_renderNat hx
  have htail : ∀ x, (if device = .keyboard then keyboardComment ev else []).head? = some x →
      x ∈ " /".toList := by
    intro x hx
    split at hx
    · exact keyboardComment_head ev x hx
    · exact absurd hx (by simp)
  have hparse := parseEventLine_segments device.toLabel (formatTimeToken d) (renderNat ev.type)
    (eventTypeName ev.type) (renderNat ev.code) (codeNote ev) (renderInt ev.value) _
    (label_hides device) (not_mem_formatTimeToken (by decide) (by decide))
    (parseTimeToken_formatTimeToken hd) (formatTimeToken_ne_nil d)
    (not_mem_delimiters (hdigits _) (by decide)) (stoul_renderNat (by omega))
    (typeNote_hides ev.type) (not_mem_delimiters (hdigits _) (by decide))
    (stoul_renderNat (by omega)) (codeNote_hides ev) (codeNote_head ev)
    (not_mem_delimiters (fun x hx => isNumeralChar_renderInt hx) (by decide))
    (stoi_renderInt hvalue) htail
  rw [Nat.mod_eq_of_lt htype, Nat.mod_eq_of_lt hcode] at hparse
  exact hparse

/-- The label of a line that starts with a bracketed text without brackets. -/
theorem parseEventLabel_append {label : List Char} (h : ']' ∉ label) (rest : List Char) :
    parseEventLabel ("[".toList ++ label ++ "] ".toList ++ rest) = label := by
  have hline : "[".toList ++ label ++ "] ".toList ++ rest =
      ['['] ++ (label ++ ']' :: (' ' :: rest)) := by simp
  have hopen : find '[' (['['] ++ (label ++ ']' :: (' ' :: rest))) 0 = some 0 :=
    find_append [] [] (label ++ ']' :: (' ' :: rest)) (by simp)
  have hclose : find ']' (['['] ++ (label ++ ']' :: (' ' :: rest))) (0 + 1) =
      some (1 + label.length) := find_append ['['] label (' ' :: rest) h
  have hlen : 1 + label.length - 0 - 1 = label.length := by omega
  rw [hline, parseEventLabel, hopen]
  simp only [hclose, hlen]
  exact substr_append ['['] label (']' :: (' ' :: rest))

theorem parseEventLabel_formatEventLine (device : DeviceKind) (ev : Event) (d : ℤ) :
    parseEventLabel (formatEventLine device ev d) = device.toLabel := by
  have h : ']' ∉ device.toLabel := not_mem_toLabel device (by decide)
  obtain ⟨rest, hline⟩ : ∃ rest, formatEventLine device ev d =
      "[".toList ++ device.toLabel ++ "] ".toList ++ rest := by
    refine ⟨formatTimeToken d ++ " type=".toList ++ renderNat ev.type ++ "(".toList ++
      eventTypeName ev.type ++ ")".toList ++ " code=".toList ++ renderNat ev.code ++
      codeNote ev ++ " value=".toList ++ renderInt ev.value ++
      (if device = .keyboard then keyboardComment ev else []), ?_⟩
    unfold formatEventLine
    simp only [List.append_assoc]
  exact (congrArg parseEventLabel hline).trans (parseEventLabel_append h rest)

theorem parseEventLabel_formatLeadingLine (d : ℤ) :
    parseEventLabel (formatLeadingLine d) = "leading".toList := by
  have h : ']' ∉ "leading".toList := by decide
  rw [formatLeadingLine, formatDurationLine, parseEventLabel_append h]

theorem parseEventLabel_formatTrailingLine (d : ℤ) :
    parseEventLabel (formatTrailingLine d) = "trailing".toList := by
  have h : ']' ∉ "trailing".toList := by decide
  rw [formatTrailingLine, formatDurationLine, parseEventLabel_append h]

private theorem not_mem_ite {c : Char} {a b : List Char} {p : Prop} [Decidable p]
    (ha : c ∉ a) (hb : c ∉ b) : c ∉ if p then a else b := by
  split
  · exact ha
  · exact hb

private theorem newline_not_mem_keyName (code : ℕ) : '\n' ∉ keyboardKeyNameFromCode code := by
  have hletter : ∀ c, c < 45 → '\n' ∉ [Char.ofNat (65 + (c - keyA))] := by decide
  have hdigit : ∀ c, c < 11 → '\n' ∉ [Char.ofNat (49 + (c - key1))] := by decide
  unfold keyboardKeyNameFromCode
  by_cases hA : keyA ≤ code ∧ code ≤ keyZ
  · rw [if_pos hA]
    exact hletter code (Nat.lt_succ_of_le hA.2)
  · rw [if_neg hA]
    by_cases h1 : key1 ≤ code ∧ code ≤ key9
    · rw [if_pos h1]
      exact hdigit code (Nat.lt_succ_of_le h1.2)
    · rw [if_neg h1]
      iterate 12 refine not_mem_ite (by decide) ?_
      simp only [List.mem_append, not_or]
      exact ⟨⟨by decide, fun hm => absurd (isDigit_renderNat hm) (by decide)⟩, by decide⟩

private theorem newline_not_mem_keyAction (value : ℤ) :
    '\n' ∉ keyboardKeyActionFromValue value := by
  unfold keyboardKeyActionFromValue
  iterate 3 refine not_mem_ite (by decide) ?_
  simp only [List.mem_append, not_or]
  exact ⟨⟨by decide, fun hm => absurd (isNumeralChar_renderInt hm) (by decide)⟩, by decide⟩

private theorem newline_not_mem_keyboardComment (ev : Event) : '\n' ∉ keyboardComment ev := by
  unfold keyboardComment
  split_ifs
  · simp only [List.mem_append, not_or]
    exact ⟨⟨⟨by decide, newline_not_mem_keyName _⟩, by decide⟩, newline_not_mem_keyAction _⟩
  · decide

theorem newline_not_mem_formatEventLine (device : DeviceKind) (ev : Event) (d : ℤ) :
    '\n' ∉ formatEventLine device ev d := by
  have hlabel : '\n' ∉ device.toLabel := not_mem_toLabel device (by decide)
  have htime : '\n' ∉ formatTimeToken d := not_mem_formatTimeToken (by decide) (by decide)
  have hnat (n : ℕ) : '\n' ∉ renderNat n := fun hm => absurd (isDigit_renderNat hm) (by decide)
  have hnames : ∀ name ∈ typeNames, '\n' ∉ name := by decide
  have hname := hnames _ (eventTypeName_mem ev.type)
  have hanns : ∀ ann ∈ codeNotes, '\n' ∉ ann := by decide
  have hann := hanns _ (codeNote_mem ev)
  have hvalue : '\n' ∉ renderInt ev.value := fun hm =>
    absurd (isNumeralChar_renderInt hm) (by decide)
  have htail : '\n' ∉ (if device = .keyboard then keyboardComment ev else []) := by
    split
    · exact newline_not_mem_keyboardComment ev
    · exact List.not_mem_nil
  unfold formatEventLine
  simp only [List.mem_append, not_or]
  exact ⟨⟨⟨⟨⟨⟨⟨⟨⟨⟨⟨⟨⟨⟨by decide, hlabel⟩, by decide⟩, htime⟩, by decide⟩, hnat _⟩, by decide⟩,
    hname⟩, by decide⟩, by decide⟩, hnat _⟩, hann⟩, by decide⟩, hvalue⟩, htail⟩

theorem newline_not_mem_formatDurationLine {label : List Char} (h : '\n' ∉ label) (d : ℤ) :
    '\n' ∉ formatDurationLine label d := by
  have htime : '\n' ∉ formatTimeToken d := not_mem_formatTimeToken (by decide) (by decide)
  simp [formatDurationLine, h, htime]

/-- A duration line is parsed back under its own label. -/
theorem parseLabeledDurationLine_formatDurationLine {label : List Char} (h : ']' ∉ label)
    {d : ℤ} (hd : Fits64 d) :
    parseLabeledDurationLine (formatDurationLine label d) label = some d := by
  have hlabel : parseEventLabel (formatDurationLine label d) = label :=
    parseEventLabel_append h (formatTimeToken d)
  have hhide : ']' ∉ "[".toList ++ label := by
    rw [List.mem_append, not_or]
    exact ⟨by decide, h⟩
  have hline : formatDurationLine label d =
      [] ++ ("[".toList ++ label ++ (']' :: " ".toList ++ formatTimeToken d)) := by
    simp [formatDurationLine]
  have hbracket : findStr "] ".toList (formatDurationLine label d) 0 =
      some ("[".toList ++ label).length := by
    have hfind := findStr_append [] ("[".toList ++ label) (formatTimeToken d)
      (c := ']') (k := " ".toList) hhide
    rw [List.length_nil, Nat.zero_add] at hfind
    rw [hline]
    exact hfind
  have hstart : ("[".toList ++ label).length + 2 = ("[".toList ++ label ++ "] ".toList).length := by
    simp only [List.length_append]
    rfl
  have htoken : (formatDurationLine label d).drop (("[".toList ++ label).length + 2) =
      formatTimeToken d := by
    rw [hstart, formatDurationLine, List.drop_left]
  rw [parseLabeledDurationLine, if_neg (not_not_intro hlabel), hbracket, Option.bind_some, htoken,
    parseTimeToken_formatTimeToken hd]

/-- A line with another label is refused. -/
theorem parseLabeledDurationLine_eq_none {line label : List Char}
    (h : parseEventLabel line ≠ label) : parseLabeledDurationLine line label = none := by
  rw [parseLabeledDurationLine, if_pos h]

/-- The deltas whose whole seconds are 64-bit microseconds again, as the parser needs them. -/
def RepresentableDelta (d : ℤ) : Prop := Fits64 d ∧ Fits64 (d / 1000000 * 1000000)

/-- Event lines and the two duration lines are parsed back to what was formatted, and no line is
taken for one of another sort. -/
theorem formatted_lines_parse_back (kind : DeviceKind) (ev : Event) (d : ℤ)
    (htype : ev.type < 65536) (hcode : ev.code < 65536) (hvalue : Fits32 ev.value)
    (hd : RepresentableDelta d) :
    (toKind (parseEventLabel (formatEventLine kind ev d)) = kind ∧
      parseEventLine (formatEventLine kind ev d) = some ⟨d, ev.type, ev.code, ev.value⟩) ∧
    (parseLeadingLine (formatLeadingLine d) = some d ∧
      parseTrailingLine (formatTrailingLine d) = some d) ∧
    parseLeadingLine (formatTrailingLine d) = none ∧
    parseTrailingLine (formatLeadingLine d) = none ∧
    parseLeadingLine (formatEventLine kind ev d) = none ∧
    parseTrailingLine (formatEventLine kind ev d) = none := by
  have hlabel := parseEventLabel_formatEventLine kind ev d
  refine ⟨⟨?_, parseEventLine_formatEventLine kind ev htype hcode hvalue hd.1⟩, ⟨?_, ?_⟩,
    ?_, ?_, ?_, ?_⟩
  · rw [hlabel, toKind_toLabel]
  · exact parseLabeledDurationLine_formatDurationLine (by decide) hd.1
  · exact parseLabeledDurationLine_formatDurationLine (by decide) hd.1
  · refine parseLabeledDurationLine_eq_none ?_
    rw [parseEventLabel_formatTrailingLine]
    decide
  · refine parseLabeledDurationLine_eq_none ?_
    rw [parseEventLabel_formatLeadingLine]
    decide
  · refine parseLabeledDurationLine_eq_none ?_
    rw [hlabel]
    cases kind <;> decide
  · refine parseLabeledDurationLine_eq_none ?_
    rw [hlabel]
    cases kind <;> decide

/-- A key event half a second before the first event. -/
theorem formatted_lines_parse_back_negative :
    parseEventLine (formatEventLine .keyboard ⟨0, 0, evKey, keyA, 1⟩ (-500000)) =
        some ⟨-500000, evKey, keyA, 1⟩ ∧
      parseLeadingLine (formatLeadingLine (-500000)) = some (-500000) := by
  have hall := formatted_lines_parse_back .keyboard ⟨0, 0, evKey, keyA, 1⟩ (-500000) (by decide)
    (by decide) (by decide) ⟨by decide, by decide⟩
  exact ⟨hall.1.2, hall.2.1.1⟩

end Evrp
