import Mathlib.Data.Rat.Defs
import Evrp.Sdk.Event
import Evrp.Sdk.LogRelay
import Evrp.Sdk.Setting

/-!
# Settings as protobuf structs

Settings cross the RPC boundary as a protobuf struct. Encoding forgets the type
of a value, and decoding guesses it again from the value and the key: a number
becomes an `int32` if it is one, a string a log level under one key only, a list a
vector of device kinds under another key only. A field is decoded on its own, so
a struct is decoded alike in every order of its fields, and a map survives
exactly if each of its entries does.
-/

namespace Evrp

open LogRelay

/-- The floating-point types, of which the code uses the conversions and one test: whether a
double is a 32-bit integer. -/
structure Floating where
  Double : Type
  Float : Type
  ofInt32 : Int32 → Double
  ofInt64 : Int64 → Double
  ofFloat : Float → Double
  toInt32? : Double → Option Int32
  toInt32?_ofInt32 : ∀ n, toInt32? (ofInt32 n) = some n

variable {fl : Floating}

/-- The value of a setting, by the types the encoder knows; every other type is opaque. -/
inductive AnyValue (fl : Floating) where
  | empty
  | string (s : String)
  | bool (b : Bool)
  | int32 (n : Int32)
  | int64 (n : Int64)
  | double (n : fl.Double)
  | float (n : fl.Float)
  | logLevel (level : LogLevel)
  | kinds (kinds : List DeviceKind)
  | strings (ss : List String)
  | other (tag : ℕ)

instance : Inhabited (AnyValue fl) := ⟨.empty⟩

/-- The value as a string. -/
def AnyValue.string? : AnyValue fl → Option String
  | .string s => some s
  | _ => none

/-- The value as an `int`. -/
def AnyValue.int32? : AnyValue fl → Option Int32
  | .int32 n => some n
  | _ => none

/-- The value as a vector of device kinds. -/
def AnyValue.kinds? : AnyValue fl → Option (List DeviceKind)
  | .kinds ks => some ks
  | _ => none

/-- A protobuf value. -/
inductive ProtoValue (fl : Floating) where
  | notSet
  | null
  | number (n : fl.Double)
  | string (s : String)
  | bool (b : Bool)
  | struct (fields : List (String × ProtoValue fl))
  | list (values : List (ProtoValue fl))

/-- A protobuf struct with its fields in the order of one iteration over them. -/
structure ProtoStruct (fl : Floating) where
  fields : List (String × ProtoValue fl)
  nodup : (fields.map Prod.fst).Nodup

/-- The level a name stands for; every unknown name is the level `Info`. -/
def logLevelFromString (s : String) : LogLevel :=
  let lower := s.toList.map Char.toLower
  if lower = "error".toList then .error
  else if lower = "warn".toList ∨ lower = "warning".toList then .warning
  else if lower = "info".toList then .info
  else if lower = "debug".toList then .debug
  else if lower = "trace".toList then .trace
  else if lower = "off".toList then .off
  else .info

def logLevelName : LogLevel → String
  | .off => "OFF"
  | .error => "ERROR"
  | .warning => "WARN"
  | .info => "INFO"
  | .debug => "DEBUG"
  | .trace => "TRACE"

theorem logLevelFromString_logLevelName (level : LogLevel) :
    logLevelFromString (logLevelName level) = level := by
  cases level <;> decide

/-- The value of a scalar; null, lists, structs and unset values have none. -/
def valueFromProto : ProtoValue fl → Option (AnyValue fl)
  | .number n =>
    match fl.toInt32? n with
    | some i => some (.int32 i)
    | none => some (.double n)
  | .string s => some (.string s)
  | .bool b => some (.bool b)
  | .null | .struct _ | .list _ | .notSet => none

/-- The kinds named in a list; what is not a string or names no kind is skipped. -/
def kindsFromList (values : List (ProtoValue fl)) : List DeviceKind :=
  values.filterMap fun v =>
    match v with
    | .string s => if toKind s.toList ≠ .unspecified then some (toKind s.toList) else none
    | _ => none

/-- Store the kinds of a list unless there are none. -/
def appendKindsFromList (out : SettingMap (AnyValue fl)) (values : List (ProtoValue fl)) :
    SettingMap (AnyValue fl) :=
  if kindsFromList values = [] then out else out.insert "kinds" (.kinds (kindsFromList values))

/-- The encoding of a value; what the encoder does not know is left out. -/
def anyToProtoValue : AnyValue fl → Option (ProtoValue fl)
  | .empty => none
  | .string s => some (.string s)
  | .bool b => some (.bool b)
  | .int32 n => some (.number (fl.ofInt32 n))
  | .int64 n => some (.number (fl.ofInt64 n))
  | .double n => some (.number n)
  | .float n => some (.number (fl.ofFloat n))
  | .logLevel level => some (.string (logLevelName level))
  | .kinds kinds => some (.list (kinds.map fun k => .string (String.ofList k.toLabel)))
  | .strings ss => some (.list (ss.map .string))
  | .other _ => none

/-- Store what one field stands for. -/
def fromProtoField (out : SettingMap (AnyValue fl)) (entry : String × ProtoValue fl) :
    SettingMap (AnyValue fl) :=
  match entry.1 == "kinds", entry.2 with
  | true, .list values => appendKindsFromList out values
  | _, _ =>
    match entry.1 == "logLevel", entry.2 with
    | true, .string s => out.insert entry.1 (.logLevel (logLevelFromString s))
    | _, _ =>
      match valueFromProto entry.2 with
      | none => out
      | some converted => out.insert entry.1 converted

/-- Decode a struct into a map. -/
def fromProto (out : SettingMap (AnyValue fl)) (s : ProtoStruct fl) : SettingMap (AnyValue fl) :=
  s.fields.foldl fromProtoField out

/-- The fields of a map: the entries that have an encoding. -/
def protoFields (entries : List (String × AnyValue fl)) : List (String × ProtoValue fl) :=
  entries.filterMap fun entry => (anyToProtoValue entry.2).map fun v => (entry.1, v)

theorem protoFields_keys (entries : List (String × AnyValue fl)) :
    ((protoFields entries).map Prod.fst).Sublist (entries.map Prod.fst) := by
  induction entries with
  | nil => exact List.Sublist.refl _
  | cons entry entries ih =>
    rw [protoFields, List.filterMap_cons]
    cases anyToProtoValue entry.2 with
    | none => exact ih.cons _
    | some v => exact ih.cons_cons _

/-- Encode a map as a struct. -/
def toProto (snap : SettingMap (AnyValue fl)) : ProtoStruct fl where
  fields := protoFields snap.toList
  nodup := snap.nodup_toList_keys.sublist (protoFields_keys snap.toList)

/-- What a field decodes to. -/
def decodeField (key : String) (val : ProtoValue fl) : Option (AnyValue fl) :=
  match val with
  | .list values =>
    if key = "kinds" ∧ kindsFromList values ≠ [] then some (.kinds (kindsFromList values)) else none
  | .string s =>
    if key = "logLevel" then some (.logLevel (logLevelFromString s)) else some (.string s)
  | val => valueFromProto val

/-- A field is decoded on its own and stored under its key. -/
theorem fromProtoField_eq (out : SettingMap (AnyValue fl)) (key : String) (val : ProtoValue fl) :
    fromProtoField out (key, val) = ((decodeField key val).map (out.insert key)).getD out := by
  cases val with
  | list values =>
    by_cases hkey : key = "kinds"
    · subst hkey
      simp only [fromProtoField, beq_self_eq_true, appendKindsFromList, decodeField]
      by_cases hnone : kindsFromList values = []
      · simp [hnone]
      · simp [hnone]
    · have hbeq : (key == "kinds") = false := beq_false_of_ne hkey
      simp [fromProtoField, hbeq, decodeField, hkey, valueFromProto]
  | string s =>
    by_cases hkey : key = "logLevel"
    · simp [fromProtoField, decodeField, hkey]
    · have hbeq : (key == "logLevel") = false := beq_false_of_ne hkey
      simp [fromProtoField, hbeq, decodeField, hkey, valueFromProto]
  | _ =>
    simp only [fromProtoField, decodeField]
    cases key == "kinds" <;> cases key == "logLevel" <;> cases valueFromProto _ <;> rfl

/-- An entry of the decoded map comes from its own field, or was there before and is not
overwritten. -/
theorem getElem?_foldl_fromProtoField {fields : List (String × ProtoValue fl)}
    (hnodup : (fields.map Prod.fst).Nodup) (out : SettingMap (AnyValue fl)) (key : String)
    (a : AnyValue fl) : (fields.foldl fromProtoField out)[key]? = some a ↔
      (∃ val, (key, val) ∈ fields ∧ decodeField key val = some a) ∨
        out[key]? = some a ∧ ∀ val, (key, val) ∈ fields → decodeField key val = none := by
  induction fields generalizing out with
  | nil => simp
  | cons entry fields ih =>
    obtain ⟨k, v⟩ := entry
    obtain ⟨hnew, hrest⟩ := List.nodup_cons.mp hnodup
    have hkey : ∀ val, (k, val) ∉ fields := fun val hval =>
      hnew (List.mem_map.mpr ⟨(k, val), hval, rfl⟩)
    rw [List.foldl_cons, ih hrest, fromProtoField_eq]
    by_cases heq : key = k
    · -- no later field has the key
      subst heq
      cases hdecode : decodeField key v with
      | none => simp [hkey, hdecode]
      | some b => simp [hkey, hdecode]
    · have hother : ((Option.map (out.insert k) (decodeField k v)).getD out)[key]? = out[key]? := by
        cases decodeField k v with
        | none => rfl
        | some b =>
          rw [Option.map_some, Option.getD_some, SettingMap.getElem?_insert_eq,
            if_neg (Ne.symm heq)]
      rw [hother]
      simp [heq]

/-- The decoded map, field by field. -/
theorem getElem?_fromProto (s : ProtoStruct fl) (key : String) (a : AnyValue fl) :
    (fromProto ∅ s)[key]? = some a ↔
      ∃ val, (key, val) ∈ s.fields ∧ decodeField key val = some a := by
  rw [fromProto, getElem?_foldl_fromProtoField s.nodup]
  simp

/-- The fields of an encoded map, entry by entry. -/
theorem mem_toProto_fields (snap : SettingMap (AnyValue fl)) (key : String)
    (val : ProtoValue fl) : (key, val) ∈ (toProto snap).fields ↔
      ∃ a, snap[key]? = some a ∧ anyToProtoValue a = some val := by
  simp only [toProto, protoFields, List.mem_filterMap, Option.map_eq_some_iff, Prod.exists,
    Prod.mk.injEq, Std.ExtTreeMap.mem_toList_iff_getElem?_eq_some]
  constructor
  · rintro ⟨k, a, ha, v, hv, rfl, rfl⟩
    exact ⟨a, ha, hv⟩
  · rintro ⟨a, ha, hv⟩
    exact ⟨key, a, ha, val, hv, rfl, rfl⟩

/-- The entry comes back with its type. -/
def Survives (key : String) (a : AnyValue fl) : Prop :=
  (anyToProtoValue a).bind (decodeField key) = some a

/-- An entry that survives comes back, whatever the order of the fields. -/
theorem getElem?_fromProto_of_survives {snap : SettingMap (AnyValue fl)} {key : String}
    {a : AnyValue fl} (ha : snap[key]? = some a) (hsurvives : Survives key a)
    {s : ProtoStruct fl} (hs : s.fields.Perm (toProto snap).fields) :
    (fromProto ∅ s)[key]? = some a := by
  obtain ⟨val, hval, hdecode⟩ := Option.bind_eq_some_iff.mp hsurvives
  rw [getElem?_fromProto]
  exact ⟨val, hs.mem_iff.mpr ((mem_toProto_fields snap key val).mpr ⟨a, ha, hval⟩), hdecode⟩

/-- A map all of whose entries survive comes back. -/
theorem fromProto_toProto {snap : SettingMap (AnyValue fl)}
    (hsnap : ∀ key a, snap[key]? = some a → Survives key a) {s : ProtoStruct fl}
    (hs : s.fields.Perm (toProto snap).fields) : fromProto ∅ s = snap := by
  apply Std.ExtTreeMap.ext_getElem?
  intro key
  cases hentry : snap[key]? with
  | some a => exact getElem?_fromProto_of_survives hentry (hsnap key a hentry) hs
  | none =>
    apply Option.eq_none_iff_forall_ne_some.mpr
    intro a ha
    obtain ⟨val, hval, -⟩ := (getElem?_fromProto s key a).mp ha
    obtain ⟨b, hb, -⟩ := (mem_toProto_fields snap key val).mp (hs.mem_iff.mp hval)
    cases hentry.symm.trans hb

/-- The order of the fields does not matter. -/
theorem fromProto_perm {s t : ProtoStruct fl} (h : s.fields.Perm t.fields) :
    fromProto ∅ s = fromProto ∅ t := by
  apply Std.ExtTreeMap.ext_getElem?
  intro key
  apply Option.ext
  intro a
  rw [getElem?_fromProto, getElem?_fromProto]
  simp only [h.mem_iff]

/-- The entries that the settings consist of. -/
def Transportable (key : String) : AnyValue fl → Prop
  | .string _ => key ≠ "logLevel"
  | .bool _ => True
  | .int32 _ => True
  | .logLevel _ => key = "logLevel"
  | .kinds kinds => key = "kinds" ∧ kinds ≠ [] ∧ ∀ k ∈ kinds, k ≠ .unspecified
  | _ => False

theorem ne_unspecified_of_mem_kindsFromList {values : List (ProtoValue fl)} {k : DeviceKind}
    (h : k ∈ kindsFromList values) : k ≠ .unspecified := by
  obtain ⟨v, -, hv⟩ := List.mem_filterMap.mp h
  cases v with
  | string s =>
    obtain ⟨hne, hk⟩ := Option.ite_none_right_eq_some.mp hv
    exact Option.some.inj hk ▸ hne
  | _ => cases hv

/-- The labels of specified kinds are read back as these kinds. -/
theorem kindsFromList_labels {kinds : List DeviceKind} (h : ∀ k ∈ kinds, k ≠ .unspecified) :
    kindsFromList (kinds.map fun k => (ProtoValue.string (String.ofList k.toLabel) :
      ProtoValue fl)) = kinds := by
  induction kinds with
  | nil => rfl
  | cons k kinds ih =>
    have hk : k ≠ .unspecified := h k (List.mem_cons_self ..)
    have hlabel : toKind (String.ofList k.toLabel).toList = k := by
      rw [String.toList_ofList, toKind_toLabel]
    rw [List.map_cons, kindsFromList, List.filterMap_cons_some (b := k)]
    · exact congrArg (k :: ·) (ih fun k' hk' => h k' (List.mem_cons_of_mem _ hk'))
    · simp only [hlabel, ne_eq, hk, not_false_eq_true, if_true]

theorem Transportable.survives {key : String} {a : AnyValue fl} (h : Transportable key a) :
    Survives key a := by
  unfold Survives
  cases a with
  | string s => exact if_neg h
  | bool b => rfl
  | int32 n => simp [anyToProtoValue, decodeField, valueFromProto, fl.toInt32?_ofInt32]
  | logLevel level =>
    obtain rfl : key = "logLevel" := h
    simp [anyToProtoValue, decodeField, logLevelFromString_logLevelName]
  | kinds kinds =>
    obtain ⟨rfl, hne, hspecified⟩ := h
    simp [anyToProtoValue, decodeField, kindsFromList_labels hspecified, hne]
  | _ => exact h.elim

/-- What a field decodes to survives another passage. -/
theorem survives_of_decodeField {key : String} {val : ProtoValue fl} {a : AnyValue fl}
    (h : decodeField key val = some a) : Survives key a := by
  cases val with
  | list values =>
    obtain ⟨⟨hkey, hne⟩, ha⟩ := Option.ite_none_right_eq_some.mp h
    obtain rfl := Option.some.inj ha
    exact Transportable.survives ⟨hkey, hne, fun k => ne_unspecified_of_mem_kindsFromList⟩
  | string s =>
    rw [decodeField] at h
    split at h
    · obtain rfl := Option.some.inj h
      exact Transportable.survives ‹key = "logLevel"›
    · obtain rfl := Option.some.inj h
      exact Transportable.survives ‹key ≠ "logLevel"›
  | number n =>
    simp only [decodeField, valueFromProto] at h
    split at h
    · obtain rfl := Option.some.inj h
      exact Transportable.survives trivial
    · rename_i hint
      obtain rfl := Option.some.inj h
      simp [Survives, anyToProtoValue, decodeField, valueFromProto, hint]
  | bool b =>
    obtain rfl := Option.some.inj h
    exact Transportable.survives trivial
  | _ => cases h

/-- Settings of the listed types come back from a struct as they were, and what was decoded
from a struct comes back as it was decoded, in whatever order fields are iterated. -/
theorem settings_survive (fl : Floating) :
    (∀ snap : SettingMap (AnyValue fl),
      (∀ key a, snap[key]? = some a → Transportable key a) →
        ∀ s : ProtoStruct fl, s.fields.Perm (toProto snap).fields → fromProto ∅ s = snap) ∧
      ∀ s : ProtoStruct fl,
        (∀ t : ProtoStruct fl, t.fields.Perm (toProto (fromProto ∅ s)).fields →
          fromProto ∅ t = fromProto ∅ s) ∧
        ∀ t : ProtoStruct fl, t.fields.Perm s.fields → fromProto ∅ t = fromProto ∅ s := by
  refine ⟨fun snap hsnap s hs => ?_, fun s => ⟨fun t ht => ?_, fun t ht => fromProto_perm ht⟩⟩
  · exact fromProto_toProto (fun key a ha => (hsnap key a ha).survives) hs
  · apply fromProto_toProto _ ht
    intro key a ha
    obtain ⟨val, -, hval⟩ := (getElem?_fromProto s key a).mp ha
    exact survives_of_decodeField hval

/-- Floating-point numbers as rationals. -/
def rationals : Floating where
  Double := ℚ
  Float := ℚ
  ofInt32 n := n.toInt
  ofInt64 n := n.toInt
  ofFloat := id
  toInt32? q :=
    if q.den = 1 ∧ Int32.minValue.toInt ≤ q.num ∧ q.num ≤ Int32.maxValue.toInt then
      some (Int32.ofInt q.num) else none
  toInt32?_ofInt32 n := by
    rw [Rat.den_intCast, Rat.num_intCast, if_pos ⟨rfl, n.minValue_le_toInt, n.toInt_le⟩,
      Int32.ofInt_toInt]

/-- The settings of a recording. -/
def recordingSettings : SettingMap (AnyValue rationals) :=
  (((Std.ExtTreeMap.empty.insert "device" (.string "10.0.0.5:9999")).insert "logLevel"
    (.logLevel .debug)).insert "kinds" (.kinds [.touchpad, .mouse])).insert "port" (.int32 53547)

theorem settings_survive_recording :
    (∀ key a, recordingSettings[key]? = some a → Transportable key a) ∧
      fromProto ∅ (toProto recordingSettings) = recordingSettings := by
  have hentries : ∀ key a, recordingSettings[key]? = some a → Transportable key a := by
    intro key a ha
    simp only [recordingSettings, SettingMap.getElem?_insert_eq] at ha
    split at ha
    · obtain rfl := Option.some.inj ha
      trivial
    split at ha
    · obtain rfl := Option.some.inj ha
      exact ⟨Eq.symm ‹_›, by decide, by decide⟩
    split at ha
    · obtain rfl := Option.some.inj ha
      exact Eq.symm ‹_›
    split at ha
    · rename_i hkey
      obtain rfl := Option.some.inj ha
      subst hkey
      simp [Transportable]
    · simp at ha
  exact ⟨hentries, (settings_survive rationals).1 _ hentries _ (List.Perm.refl _)⟩

end Evrp
