import Evrp.Lib.Text
import Evrp.Sdk.ToFromProto

/-!
# The command line of the client

The parsed flags become the settings of a request. The device kinds are read from
a comma-separated list by a tokenizer that moves an index over the text: it skips
blanks, looks for the next comma and trims what is between. An empty result of a
recording is replaced by all four kinds.
-/

namespace Evrp

open Numeral

/-- The flags of the client as the flag library leaves them. -/
structure ClientFlags where
  record : Bool
  playback : String
  output : String
  kind : String
  logLevel : String
  waitLeading : Bool
  waitTrailing : Bool
  device : String
  keyboardCtrlCFilter : String
  discoveryPort : Int32
  discoveryLinkMode : String
  deriving DecidableEq

/-- All kinds, in the order of the default. -/
def allKinds : List DeviceKind := [.touchpad, .touchscreen, .mouse, .keyboard]

/-- The kind a token names, if it does. -/
def kindOfToken (token : List Char) : Option DeviceKind :=
  if toKind token ≠ .unspecified then some (toKind token) else none

/-- The loop over the segments of the flag, from an index on; the fuel bounds the number of
segments. -/
def kindsFromSegments (raw : List Char) : ℕ → ℕ → List DeviceKind → List DeviceKind
  | 0, _, kinds => kinds
  | fuel + 1, segmentStart, kinds =>
    if segmentStart < raw.length then
      let segmentStart := Text.skip isSpace raw segmentStart raw.length
      if raw.length ≤ segmentStart then kinds
      else
        let comma := Text.find ',' raw segmentStart
        let segmentEnd := comma.getD raw.length
        let left := Text.skip isSpace raw segmentStart segmentEnd
        let right := Text.skipBack isSpace raw left segmentEnd
        let kinds :=
          if left < right then kinds ++ (kindOfToken (Text.substr raw left (right - left))).toList
          else kinds
        match comma with
        | none => kinds
        | some comma => kindsFromSegments raw fuel (comma + 1) kinds
    else kinds

/-- The kinds of the flag; every segment is at least one character long, so the fuel is enough. -/
def kindsFromKindFlag (flags : ClientFlags) : List DeviceKind :=
  let raw := flags.kind.toList
  if raw.isEmpty then [] else kindsFromSegments raw raw.length 0 []

/-- The tokens of a comma-separated list. -/
def kindTokens (raw : List Char) : List (List Char) := raw.splitOn ','

/-- The kinds that the trimmed tokens of a list name, in order. -/
def namedKinds (raw : List Char) : List DeviceKind :=
  (kindTokens raw).filterMap fun token => kindOfToken (Text.trim isSpace token)

theorem kindOfToken_nil : kindOfToken [] = none := by decide

/-- A list without a comma is one token. -/
theorem namedKinds_of_not_mem {a : List Char} (h : ',' ∉ a) :
    namedKinds a = (kindOfToken (Text.trim isSpace a)).toList := by
  have hone : kindTokens a = [a] := by
    apply List.splitOnP_eq_singleton
    intro c hc
    apply beq_false_of_ne
    rintro rfl
    exact h hc
  rw [namedKinds, hone, List.filterMap_cons, List.filterMap_nil]
  cases kindOfToken (Text.trim isSpace a) <;> rfl

/-- The first comma ends the first token. -/
theorem namedKinds_append_cons {a : List Char} (h : ',' ∉ a) (b : List Char) :
    namedKinds (a ++ ',' :: b) = (kindOfToken (Text.trim isSpace a)).toList ++ namedKinds b := by
  have hfirst : kindTokens (a ++ ',' :: b) = a :: kindTokens b := by
    apply List.splitOnP_append_cons_of_forall_mem _ _ rfl
    intro c hc
    apply beq_false_of_ne
    rintro rfl
    exact h hc
  rw [namedKinds, hfirst, List.filterMap_cons]
  cases kindOfToken (Text.trim isSpace a) <;> rfl

/-- A list has no comma or a first one. -/
theorem first_comma (l : List Char) : ',' ∉ l ∨ ∃ a b, l = a ++ ',' :: b ∧ ',' ∉ a := by
  by_cases h : ',' ∈ l
  · exact Or.inr (List.eq_append_cons_of_mem h)
  · exact Or.inl h

/-- Blanks in front of a list do not matter. -/
theorem namedKinds_append_left {blanks : List Char} (h : ∀ c ∈ blanks, isSpace c = true)
    (rest : List Char) : namedKinds (blanks ++ rest) = namedKinds rest := by
  have hcomma : ',' ∉ blanks := fun hmem => absurd (h _ hmem) (by decide)
  rcases first_comma rest with hrest | ⟨a, b, rfl, ha⟩
  · have hboth : ',' ∉ blanks ++ rest := by
      rw [List.mem_append]
      exact not_or.mpr ⟨hcomma, hrest⟩
    rw [namedKinds_of_not_mem hboth, namedKinds_of_not_mem hrest, Text.trim_append_left h]
  · have hboth : ',' ∉ blanks ++ a := by
      rw [List.mem_append]
      exact not_or.mpr ⟨hcomma, ha⟩
    rw [← List.append_assoc, namedKinds_append_cons hboth, namedKinds_append_cons ha,
      Text.trim_append_left h]

/-- What the loop takes from one segment is the kind of its trimmed text. -/
private theorem segment_kinds (pre a b : List Char) (kinds : List DeviceKind) :
    let left := Text.skip isSpace (pre ++ (a ++ b)) pre.length (pre.length + a.length)
    let right := Text.skipBack isSpace (pre ++ (a ++ b)) left (pre.length + a.length)
    (if left < right then
        kinds ++ (kindOfToken (Text.substr (pre ++ (a ++ b)) left (right - left))).toList
      else kinds) = kinds ++ (kindOfToken (Text.trim isSpace a)).toList := by
  obtain ⟨hright, htoken⟩ := Text.substr_skip_skipBack isSpace pre a b
  intro left right
  rw [htoken]
  split
  · rfl
  · rename_i hempty
    have hend : right = left + (Text.trim isSpace a).length := hright
    have hnil : Text.trim isSpace a = [] := by
      apply List.eq_nil_of_length_eq_zero
      omega
    rw [hnil, kindOfToken_nil]
    exact (List.append_nil kinds).symm

/-- The tokenizer finds the kinds that the trimmed tokens name. -/
theorem kindsFromSegments_eq {raw : List Char} {fuel segmentStart : ℕ}
    (hfuel : raw.length ≤ segmentStart + fuel) (kinds : List DeviceKind) :
    kindsFromSegments raw fuel segmentStart kinds =
      kinds ++ namedKinds (raw.drop segmentStart) := by
  induction fuel generalizing segmentStart kinds with
  | zero =>
    rw [List.drop_eq_nil_of_le (by omega), kindsFromSegments]
    exact (List.append_nil kinds).symm
  | succ fuel ih =>
    rw [kindsFromSegments]
    split
    · rename_i hstart
      -- the text before the segment, its leading blanks and the rest
      obtain ⟨pre, rest, rfl, rfl⟩ : ∃ pre rest, raw = pre ++ rest ∧ segmentStart = pre.length :=
        ⟨raw.take segmentStart, raw.drop segmentStart, (List.take_append_drop ..).symm, by
          rw [List.length_take]
          omega⟩
      have hblanks : ∀ c ∈ rest.takeWhile isSpace, isSpace c = true :=
        fun c hc => List.mem_takeWhile_imp hc
      have hskip : Text.skip isSpace (pre ++ rest) pre.length (pre ++ rest).length =
          (pre ++ rest.takeWhile isSpace).length := by
        have happ := Text.skip_append isSpace pre rest []
        rw [List.append_nil] at happ
        rw [List.length_append, happ, List.length_append]
      have hsplit : pre ++ rest =
          (pre ++ rest.takeWhile isSpace) ++ rest.dropWhile isSpace := by
        rw [List.append_assoc, List.takeWhile_append_dropWhile]
      have hnamed : namedKinds rest = namedKinds (rest.dropWhile isSpace) := by
        conv_lhs => rw [← List.takeWhile_append_dropWhile (p := isSpace) (l := rest)]
        exact namedKinds_append_left hblanks _
      have hbefore : pre.length ≤ (pre ++ rest.takeWhile isSpace).length := by
        rw [List.length_append]
        omega
      rw [List.drop_left, hskip, hnamed]
      generalize pre ++ rest.takeWhile isSpace = before at hsplit hbefore ⊢
      generalize rest.dropWhile isSpace = tail at hsplit ⊢
      rw [hsplit] at hfuel hstart ih ⊢
      simp only
      split
      · rename_i hend
        have hnil : tail = [] := by
          apply List.eq_nil_of_length_eq_zero
          rw [List.length_append] at hend
          omega
        rw [hnil]
        exact (List.append_nil kinds).symm
      · rcases first_comma tail with htail | ⟨a, b, rfl, ha⟩
        · have hfind : Text.find ',' (before ++ tail) before.length = none := by
            apply Text.findIf_eq_none
            intro c hc
            apply beq_false_of_ne
            rintro rfl
            exact htail hc
          have hsegment := segment_kinds before tail [] kinds
          rw [List.append_nil] at hsegment
          rw [hfind, Option.getD_none, List.length_append, namedKinds_of_not_mem htail]
          exact hsegment
        · rw [Text.find_append before a b ha, Option.getD_some, namedKinds_append_cons ha]
          have hsegment := segment_kinds before a (',' :: b) kinds
          have hnext : (before ++ (a ++ ',' :: b)).drop (before.length + a.length + 1) = b := by
            have hlen : before.length + a.length + 1 = (before ++ (a ++ [','])).length := by
              simp only [List.length_append, List.length_singleton, Nat.add_assoc]
            rw [hlen, show before ++ (a ++ ',' :: b) = before ++ (a ++ [',']) ++ b by simp,
              List.drop_left]
          simp only at hsegment ⊢
          rw [hsegment, ih (by omega), hnext, List.append_assoc]
    · rw [List.drop_eq_nil_of_le (by omega)]
      exact (List.append_nil kinds).symm

theorem kindsFromKindFlag_eq (flags : ClientFlags) :
    kindsFromKindFlag flags = namedKinds flags.kind.toList := by
  simp only [kindsFromKindFlag]
  split
  · rename_i hempty
    rw [List.isEmpty_iff.mp hempty]
    rfl
  · rw [kindsFromSegments_eq (by omega), List.nil_append, List.drop_zero]

/-- The kinds the client asks for: all of them if a recording has none. -/
def kindsOfFlags (flags : ClientFlags) : List DeviceKind :=
  let kinds := kindsFromKindFlag flags
  if flags.record = true ∧ kinds = [] then allKinds else kinds

/-- Store the settings of the parsed flags. -/
def parseArgvInto {fl : Floating} (options : Setting (AnyValue fl)) (program : String)
    (flags : ClientFlags) : Setting (AnyValue fl) :=
  options
    |>.insert "program" (.string program)
    |>.insert "recording" (.bool flags.record)
    |>.insert "playback" (.bool !flags.playback.isEmpty)
    |>.insert "logLevel" (.logLevel (logLevelFromString flags.logLevel))
    |>.insert "playbackPath" (.string flags.playback)
    |>.insert "outputPath" (.string flags.output)
    |>.insert "device" (.string flags.device)
    |>.insert "kinds" (.kinds (kindsOfFlags flags))
    |>.insert "executeWaitBeforeFirst" (.bool flags.waitLeading)
    |>.insert "executeWaitAfterLast" (.bool flags.waitTrailing)
    |>.insert "keyboardCtrlCFilter" (.string flags.keyboardCtrlCFilter)
    |>.insert "discovery_port" (.int32 flags.discoveryPort)
    |>.insert "discovery_link_mode" (.string flags.discoveryLinkMode)

theorem denote_parseArgvInto_kinds {fl : Floating} (options : Setting (AnyValue fl))
    (program : String) (flags : ClientFlags) :
    (parseArgvInto options program flags).denote "kinds" = some (.kinds (kindsOfFlags flags)) := by
  simp [parseArgvInto, Setting.denote_insert]

/-- Every kind a flag names is a specified one. -/
theorem ne_unspecified_of_mem_kindsOfFlags {flags : ClientFlags} {k : DeviceKind}
    (h : k ∈ kindsOfFlags flags) : k ≠ .unspecified := by
  simp only [kindsOfFlags, kindsFromKindFlag_eq] at h
  split at h
  · revert h
    revert k
    decide
  · obtain ⟨token, -, htoken⟩ := List.mem_filterMap.mp h
    obtain ⟨hne, hk⟩ := Option.ite_none_right_eq_some.mp htoken
    exact Option.some.inj hk ▸ hne

end Evrp
