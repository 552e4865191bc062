import Evrp.Client.ArgParser

/-!
# The record call of the server

The server decodes the settings of a record call into a map of its own, adds its
own entries and asks for the device kinds once more: no kinds means all kinds, as
on the client. Between a list of kinds on the command line and the recorder there
are two such defaults and one lossy encoding. The encoding loses nothing the
client sends; the defaults replace a list in which no token names a kind.
-/

namespace Evrp

namespace GrpcEvrpService

open Numeral

variable {fl : Floating}

def mergeIntoMemorySetting (settings : Setting (AnyValue fl)) (fields : SettingMap (AnyValue fl)) :
    Setting (AnyValue fl) :=
  fields.toList.foldl (fun settings entry => settings.insert entry.1 entry.2) settings

/-- The kinds of a request, with the default of the server. -/
def kindsOfSettings (settings : Setting (AnyValue fl)) : List DeviceKind :=
  let kinds := settings.getAs AnyValue.kinds? "kinds" []
  if kinds = [] then allKinds else kinds

/-- The settings with which the server records. -/
def record (request : ProtoStruct fl) (context : Option ℕ) : Setting (AnyValue fl) :=
  let settings := mergeIntoMemorySetting (.memory ∅) (fromProto ∅ request)
  let settings := settings
    |>.insert "program" (.string "evrp-grpc")
    |>.insert "recording" (.bool true)
    |>.insert "playback" (.bool false)
  let settings := settings.insert "kinds" (.kinds (kindsOfSettings settings))
  match context with
  | none => settings
  | some context => settings.insert "__evrpUnaryGrpcServerContext" (.other context)

/-- The settings of the recorder after the server has connected to a device. -/
def connectDevice (settings : Setting (AnyValue fl)) (serverAddress : String) :
    Setting (AnyValue fl) :=
  settings.insert "device" (.string serverAddress)

/-- The kinds the recorder listens to. -/
def recorderKinds (settings : Setting (AnyValue fl)) : List DeviceKind :=
  settings.getAs AnyValue.kinds? "kinds" []

/-- What the flag asks for: all kinds if every token is blank, else the kinds that are named. -/
def requestedKinds (raw : List Char) : List DeviceKind :=
  if ∀ token ∈ kindTokens raw, token.all isSpace = true then allKinds else namedKinds raw

theorem denote_foldl_insert_of_not_mem {entries : List (String × AnyValue fl)} {key : String}
    (h : key ∉ entries.map Prod.fst) (settings : Setting (AnyValue fl)) :
    (entries.foldl (fun s entry => s.insert entry.1 entry.2) settings).denote key =
      settings.denote key := by
  induction entries generalizing settings with
  | nil => rfl
  | cons entry entries ih =>
    obtain ⟨hne, hrest⟩ := not_or.mp (List.mem_cons.not.mp h)
    rw [List.foldl_cons, ih hrest, Setting.denote_insert, Function.update_of_ne hne]

theorem denote_foldl_insert_of_mem {entries : List (String × AnyValue fl)}
    (hnodup : (entries.map Prod.fst).Nodup) {key : String} {a : AnyValue fl}
    (h : (key, a) ∈ entries) (settings : Setting (AnyValue fl)) :
    (entries.foldl (fun s entry => s.insert entry.1 entry.2) settings).denote key = some a := by
  induction entries generalizing settings with
  | nil => exact absurd h List.not_mem_nil
  | cons entry entries ih =>
    obtain ⟨hnew, hrest⟩ := List.nodup_cons.mp hnodup
    rcases List.mem_cons.mp h with rfl | h
    · rw [List.foldl_cons, denote_foldl_insert_of_not_mem hnew, Setting.denote_insert,
        Function.update_self]
    · exact ih hrest h _

/-- Merged fields are found again. -/
theorem denote_mergeIntoMemorySetting (fields : SettingMap (AnyValue fl)) (key : String) :
    (mergeIntoMemorySetting (.memory ∅) fields).denote key = fields[key]? := by
  cases hentry : fields[key]? with
  | some a =>
    exact denote_foldl_insert_of_mem fields.nodup_toList_keys
      (Std.ExtTreeMap.mem_toList_iff_getElem?_eq_some.mpr hentry) _
  | none =>
    have hnew : key ∉ fields.toList.map Prod.fst := by
      intro hmem
      obtain ⟨⟨k, a⟩, ha, rfl⟩ := List.mem_map.mp hmem
      rw [Std.ExtTreeMap.mem_toList_iff_getElem?_eq_some] at ha
      cases hentry.symm.trans ha
    rw [mergeIntoMemorySetting, denote_foldl_insert_of_not_mem hnew, Setting.denote_memory,
      Std.ExtTreeMap.getElem?_empty]

/-- What the client asks for reaches the recorder. -/
theorem recorderKinds_record {program : String} {flags : ClientFlags}
    (hrecord : flags.record = true) {request : ProtoStruct fl}
    (hrequest : request.fields.Perm
      (toProto (parseArgvInto (.memory ∅) program flags).snapshot).fields)
    (context : Option ℕ) (serverAddress : String) :
    recorderKinds (connectDevice (record request context) serverAddress) = kindsOfFlags flags := by
  have hne : kindsOfFlags flags ≠ [] := by
    simp only [kindsOfFlags, hrecord, true_and]
    split
    · decide
    · assumption
  have hsent : (parseArgvInto (.memory ∅) program flags).snapshot["kinds"]? =
      some (.kinds (kindsOfFlags flags) : AnyValue fl) := by
    rw [Setting.getElem?_snapshot, denote_parseArgvInto_kinds]
  have hsurvives : Survives "kinds" (.kinds (kindsOfFlags flags) : AnyValue fl) :=
    Transportable.survives ⟨rfl, hne, fun _ => ne_unspecified_of_mem_kindsOfFlags⟩
  have hreceived := getElem?_fromProto_of_survives hsent hsurvives hrequest
  have hkinds : kindsOfSettings (((mergeIntoMemorySetting (.memory ∅) (fromProto ∅ request)).insert
      "program" (.string "evrp-grpc")).insert "recording" (.bool true) |>.insert "playback"
        (.bool false)) = kindsOfFlags flags := by
    simp [kindsOfSettings, Setting.getAs, Setting.get_eq, Setting.denote_insert,
      denote_mergeIntoMemorySetting, hreceived, AnyValue.kinds?, hne]
  cases context with
  | none =>
    simp [recorderKinds, connectDevice, record, Setting.getAs, Setting.get_eq,
      Setting.denote_insert, AnyValue.kinds?, hkinds]
  | some context =>
    simp [recorderKinds, connectDevice, record, Setting.getAs, Setting.get_eq,
      Setting.denote_insert, AnyValue.kinds?, hkinds]

/-- The recorder listens to the kinds that the flag asks for exactly if every token of the flag
is blank or some token names a kind. -/
theorem recorderKinds_eq_requestedKinds_iff {program : String} {flags : ClientFlags}
    (hrecord : flags.record = true) {request : ProtoStruct fl}
    (hrequest : request.fields.Perm
      (toProto (parseArgvInto (.memory ∅) program flags).snapshot).fields)
    (context : Option ℕ) (serverAddress : String) :
    recorderKinds (connectDevice (record request context) serverAddress) =
        requestedKinds flags.kind.toList ↔
      (∀ token ∈ kindTokens flags.kind.toList, token.all isSpace = true) ∨
        ∃ token ∈ kindTokens flags.kind.toList,
          toKind (Text.trim isSpace token) ≠ .unspecified := by
  have hnamed : namedKinds flags.kind.toList = [] ↔
      ∀ token ∈ kindTokens flags.kind.toList, toKind (Text.trim isSpace token) = .unspecified := by
    rw [namedKinds, List.filterMap_eq_nil_iff]
    simp [kindOfToken]
  rw [recorderKinds_record hrecord hrequest]
  simp only [kindsOfFlags, hrecord, true_and, kindsFromKindFlag_eq, requestedKinds]
  by_cases hblank : ∀ token ∈ kindTokens flags.kind.toList, token.all isSpace = true
  · have hnone : namedKinds flags.kind.toList = [] := by
      rw [hnamed]
      intro token htoken
      rw [Text.trim_of_forall (List.all_eq_true.mp (hblank token htoken))]
      rfl
    rw [if_pos hnone, if_pos hblank]
    exact iff_of_true rfl (Or.inl hblank)
  · rw [if_neg hblank]
    by_cases hnone : namedKinds flags.kind.toList = []
    · rw [if_pos hnone, hnone]
      refine iff_of_false (by decide) ?_
      rintro (hall | ⟨token, htoken, hkind⟩)
      · exact hblank hall
      · exact hkind (hnamed.mp hnone token htoken)
    · rw [if_neg hnone]
      refine iff_of_true rfl (Or.inr ?_)
      simpa using hnamed.not.mp hnone

/-- The request of a recording of the listed kinds. -/
def recordRequest (kind : String) : ProtoStruct rationals :=
  toProto (parseArgvInto (.memory ∅) "evrp"
    ⟨true, "", "", kind, "info", true, true, "", "ending", 53508, "broadcast"⟩).snapshot

/-- A recording of a kind that does not exist records all kinds. -/
theorem joystick_records_all_kinds :
    recorderKinds (connectDevice (record (recordRequest "joystick") none) "10.0.0.5:9999") =
        allKinds ∧ requestedKinds "joystick".toList = [] :=
  ⟨(recorderKinds_record rfl (List.Perm.refl _) none _).trans (by decide), by decide⟩

theorem recorderKinds_eq_requestedKinds_iff_mouse :
    recorderKinds (connectDevice (record (recordRequest " mouse,joystick") none)
        "10.0.0.5:9999") = requestedKinds " mouse,joystick".toList ∧
      requestedKinds " mouse,joystick".toList = [.mouse] :=
  ⟨(recorderKinds_eq_requestedKinds_iff rfl (List.Perm.refl _) none _).mpr (by decide),
    by decide⟩

end GrpcEvrpService

end Evrp
