import Mathlib.Data.List.Perm.Basic
import Evrp.Lib.Machine
import Evrp.Sdk.ToFromProto

/-!
# Discovery over UDP

A device answers every datagram that passes for a discovery request with a
response to its source address. A request and a response have the same size,
magic and version, and the check of a request looks at nothing else, so every
response passes for a request. A source address can be forged: if it is one at
which a responder listens, the responders answer each other for ever. As long as
no answered datagram names such an address, every response leaves the circle of
the responders.
-/

namespace Evrp

namespace Discovery

/-- An IPv4 socket address. -/
structure Address where
  ip : UInt32
  port : UInt16
  deriving DecidableEq, Repr

inductive LinkMode where
  | multicast
  | broadcast
  deriving DecidableEq, Repr

/-- The link mode of a label, whose case does not matter. -/
def tryParseDiscoveryLinkMode (s : String) : Option LinkMode :=
  let lower := s.toList.map Char.toLower
  if lower = "multicast".toList then some .multicast
  else if lower = "broadcast".toList then some .broadcast
  else none

/-- The ports and the mode of a responder that runs. -/
structure Responder where
  grpcListenPort : ℤ
  udpPort : ℤ
  linkMode : LinkMode
  grpc_range : 1 ≤ grpcListenPort ∧ grpcListenPort ≤ 65535
  udp_range : 1 ≤ udpPort ∧ udpPort ≤ 65535

def kDeviceDiscoveryUdpPort : Int32 := 53508

/-- Start a responder; with a port out of range or an unknown mode none is started. -/
def start {fl : Floating} (settings : Setting (AnyValue fl)) : Option Responder :=
  let grpc := (settings.getAs AnyValue.int32? "discovery_grpc_listen_port" 0).toInt
  if hgrpc : 1 ≤ grpc ∧ grpc ≤ 65535 then
    let udp := (settings.getAs AnyValue.int32? "discovery_port" kDeviceDiscoveryUdpPort).toInt
    if hudp : 1 ≤ udp ∧ udp ≤ 65535 then
      (tryParseDiscoveryLinkMode
        (settings.getAs AnyValue.string? "discovery_link_mode" "broadcast")).map
          fun mode => ⟨grpc, udp, mode, hgrpc, hudp⟩
    else none
  else none

/-- A request as it lies in memory. -/
structure DeviceDiscoveryRequest where
  magic : UInt8 × UInt8 × UInt8 × UInt8
  version : UInt8
  reserved : UInt8 × UInt8 × UInt8
  deriving DecidableEq

/-- The bytes E, V, R, P. -/
def kMagic : UInt8 × UInt8 × UInt8 × UInt8 := (0x45, 0x56, 0x52, 0x50)

def kDeviceDiscoveryVersion : UInt8 := 1

/-- The request that a datagram leaves in the buffer: a longer datagram is cut to the size of
the buffer, and a shorter one is reported as such. -/
def recvfrom : List UInt8 → Option DeviceDiscoveryRequest
  | e :: v :: r :: p :: version :: r₀ :: r₁ :: r₂ :: _ =>
    some ⟨(e, v, r, p), version, (r₀, r₁, r₂)⟩
  | _ => none

def isValidDeviceDiscoveryRequest (r : DeviceDiscoveryRequest) : Bool :=
  r.magic == kMagic && r.version == kDeviceDiscoveryVersion

/-- The bytes of a response, the port in network order. -/
def response (grpcListenPort : ℤ) : List UInt8 :=
  [0x45, 0x56, 0x52, 0x50, kDeviceDiscoveryVersion, 0,
    UInt8.ofNat (grpcListenPort.toNat / 256), UInt8.ofNat grpcListenPort.toNat]

/-- What a responder sends for a datagram. -/
def answer (r : Responder) (payload : List UInt8) : Option (List UInt8) :=
  match recvfrom payload with
  | none => none
  | some req => if isValidDeviceDiscoveryRequest req then some (response r.grpcListenPort) else none

/-- A datagram in the network, with the mark of those a responder has sent. -/
structure Datagram where
  src : Address
  dst : Address
  payload : List UInt8
  fromResponder : Bool
  deriving DecidableEq, Repr

/-- The datagrams in flight, those the responders have sent and those they have answered. -/
structure State where
  inFlight : List Datagram
  sent : List Datagram
  answered : List Datagram
  deriving DecidableEq, Repr

/-- The injected datagrams are on their way. -/
def initial (injected : List Datagram) : State :=
  ⟨injected.map fun d => { d with fromResponder := false }, [], []⟩

/-- Some datagram in flight is delivered; `source` is the address the network gives to the
answer, if there is one and it can be sent. -/
inductive Label where
  | deliver (i : ℕ) (source : Option Address)
  deriving DecidableEq, Repr

variable {ρ : Type} [DecidableEq ρ] (responder : ρ → Responder) (owner : Address → Option ρ)

/-- Delivery to the responder that listens at the destination. Its answer goes to the source of
the datagram and carries an address of its own. -/
def step (s : State) : Label → Option State
  | .deliver i source =>
    s.inFlight[i]?.bind fun d =>
      let rest := { s with inFlight := s.inFlight.eraseIdx i }
      match owner d.dst with
      | none => some rest
      | some r =>
        match answer (responder r) d.payload with
        | none => some rest
        | some payload =>
          match source with
          | none => some rest
          | some a =>
            if owner a = some r then
              let reply := ⟨a, d.src, payload, true⟩
              some ⟨rest.inFlight ++ [reply], s.sent ++ [reply], s.answered ++ [d]⟩
            else none

/-- A datagram that reaches a responder and passes for a request. -/
def Answerable (d : Datagram) : Prop :=
  ∃ r, owner d.dst = some r ∧ (answer (responder r) d.payload).isSome = true

/-- No datagram sent by a responder was answered, and the responders have sent at most one
datagram for each injected one. -/
def State.Settled (injected : List Datagram) (s : State) : Prop :=
  (∀ d ∈ s.answered, d.fromResponder = false) ∧ s.sent.length ≤ injected.length

/-- A response passes for a request. -/
theorem answer_response (r : Responder) (grpcListenPort : ℤ) :
    answer r (response grpcListenPort) = some (response r.grpcListenPort) := by
  simp [answer, response, recvfrom, isValidDeviceDiscoveryRequest, kMagic]

/-- Every answer is the response of the responder. -/
theorem eq_response_of_answer {r : Responder} {payload reply : List UInt8}
    (h : answer r payload = some reply) : reply = response r.grpcListenPort := by
  simp only [answer] at h
  split at h
  · cases h
  · split at h
    · exact (Option.some.inj h).symm
    · cases h

/-- A responder answers from an address of its own. -/
theorem step_answer {s : State} {i : ℕ} {d : Datagram} {r : ρ} {a : Address}
    {payload : List UInt8} (hd : s.inFlight[i]? = some d) (hr : owner d.dst = some r)
    (hpayload : answer (responder r) d.payload = some payload) (ha : owner a = some r) :
    step responder owner s (.deliver i (some a)) =
      some ⟨s.inFlight.eraseIdx i ++ [⟨a, d.src, payload, true⟩],
        s.sent ++ [⟨a, d.src, payload, true⟩], s.answered ++ [d]⟩ := by
  simp only [step, hd, Option.bind_some, hr, hpayload, ha, if_true]

/-- What one delivery does: the datagram is gone, or a responder has answered it. -/
theorem step_cases {s t : State} {i : ℕ} {source : Option Address}
    (h : step responder owner s (.deliver i source) = some t) :
    ∃ d, s.inFlight.Perm (d :: s.inFlight.eraseIdx i) ∧
      (t = { s with inFlight := s.inFlight.eraseIdx i } ∨
        ∃ r a payload, owner d.dst = some r ∧ answer (responder r) d.payload = some payload ∧
          t = ⟨s.inFlight.eraseIdx i ++ [⟨a, d.src, payload, true⟩],
            s.sent ++ [⟨a, d.src, payload, true⟩], s.answered ++ [d]⟩) := by
  obtain ⟨d, hd, h⟩ := Option.bind_eq_some_iff.mp h
  obtain ⟨hi, rfl⟩ := List.getElem?_eq_some_iff.mp hd
  refine ⟨_, (List.getElem_cons_eraseIdx_perm hi).symm, ?_⟩
  simp only at h
  split at h
  · exact Or.inl (Option.some.inj h).symm
  · rename_i r hr
    split at h
    · exact Or.inl (Option.some.inj h).symm
    · rename_i payload hpayload
      split at h
      · exact Or.inl (Option.some.inj h).symm
      · split at h
        · exact Or.inr ⟨r, _, payload, hr, hpayload, (Option.some.inj h).symm⟩
        · cases h

/-- Every response in flight leaves the circle of the responders, and every answer uses up an
injected datagram. -/
structure State.Outbound (injected : List Datagram) (s : State) : Prop where
  replies : ∀ d ∈ s.inFlight, d.fromResponder = true → owner d.dst = none
  requests : ∀ d ∈ s.inFlight, Answerable responder owner d → owner d.src = none
  answered : ∀ d ∈ s.answered, d.fromResponder = false
  budget : s.sent.length + s.inFlight.countP (fun d => !d.fromResponder) ≤ injected.length

omit [DecidableEq ρ] in
theorem outbound_initial {injected : List Datagram}
    (h : ∀ d ∈ injected, Answerable responder owner d → owner d.src = none) :
    (initial injected).Outbound responder owner injected := by
  refine ⟨?_, ?_, nofun, ?_⟩
  · intro d hd hmark
    obtain ⟨e, -, rfl⟩ := List.mem_map.mp hd
    cases hmark
  · intro d hd hanswerable
    obtain ⟨e, he, rfl⟩ := List.mem_map.mp hd
    exact h e he hanswerable
  · calc (initial injected).sent.length + (initial injected).inFlight.countP _
        = (initial injected).inFlight.countP _ := Nat.zero_add _
      _ ≤ (initial injected).inFlight.length := List.countP_le_length
      _ = injected.length := List.length_map _

theorem outbound_step {injected : List Datagram} {s t : State} {a : Label}
    (hs : s.Outbound responder owner injected) (h : step responder owner s a = some t) :
    t.Outbound responder owner injected := by
  obtain ⟨i, source⟩ := a
  obtain ⟨d, hperm, ht⟩ := step_cases responder owner h
  have hmem : d ∈ s.inFlight := hperm.mem_iff.mpr (List.mem_cons_self ..)
  have hrest : ∀ e ∈ s.inFlight.eraseIdx i, e ∈ s.inFlight := fun e he =>
    hperm.mem_iff.mpr (List.mem_cons_of_mem _ he)
  have hcount := hperm.countP_eq fun d => !d.fromResponder
  have hbudget := hs.budget
  rw [hcount, List.countP_cons] at hbudget
  rcases ht with rfl | ⟨r, source, payload, hr, hpayload, rfl⟩
  · refine ⟨fun e he => hs.replies e (hrest e he), fun e he => hs.requests e (hrest e he),
      hs.answered, ?_⟩
    simp only
    omega
  · -- the answered datagram was an injected one, since no response has a responder ahead
    have hinjected : d.fromResponder = false := by
      by_contra hmark
      rw [hs.replies d hmem (Bool.not_eq_false _ ▸ hmark)] at hr
      cases hr
    have hanswerable : Answerable responder owner d := ⟨r, hr, by rw [hpayload]; rfl⟩
    have hout := hs.requests d hmem hanswerable
    refine ⟨?_, ?_, ?_, ?_⟩
    · intro e he hmark
      rcases List.mem_append.mp he with he | he
      · exact hs.replies e (hrest e he) hmark
      · rw [List.mem_singleton.mp he]
        exact hout
    · intro e he hans
      rcases List.mem_append.mp he with he | he
      · exact hs.requests e (hrest e he) hans
      · obtain ⟨r', hr', -⟩ := hans
        rw [List.mem_singleton.mp he] at hr'
        cases hout.symm.trans hr'
    · intro e he
      rcases List.mem_append.mp he with he | he
      · exact hs.answered e he
      · rw [List.mem_singleton.mp he]
        exact hinjected
    · rw [hinjected] at hbudget
      simp only [List.length_append, List.countP_append, List.length_singleton]
      simp at hbudget ⊢
      omega

/-- A response to an address at which a responder listens is answered in its turn. -/
theorem reply_answered {src : Address} {r : ρ} (hr : owner src = some r) (rest sent : List Datagram)
    (answered : List Datagram) (a : Address) (grpcListenPort : ℤ) :
    ∃ u, step responder owner
        ⟨rest ++ [⟨a, src, response grpcListenPort, true⟩], sent, answered⟩
        (.deliver rest.length (some src)) = some u ∧
      ∃ d ∈ u.answered, d.fromResponder = true := by
  have hlast : (rest ++ [⟨a, src, response grpcListenPort, true⟩])[rest.length]? =
      some ⟨a, src, response grpcListenPort, true⟩ := List.getElem?_concat_length
  refine ⟨_, step_answer responder owner hlast hr (answer_response _ _) hr, ?_⟩
  exact ⟨_, List.mem_append_right _ (List.mem_singleton_self _), rfl⟩

/-- No response is answered, in whatever order the datagrams are delivered, exactly if no
injected datagram that is answered names a responder as its source. -/
theorem settled_iff (injected : List Datagram) :
    (∀ labels t, Machine.run (step responder owner) (initial injected) labels = some t →
        t.Settled injected) ↔
      ∀ d ∈ injected, Answerable responder owner d → owner d.src = none := by
  constructor
  · intro hsettled d hd hanswerable
    obtain ⟨r, hr, hvalid⟩ := hanswerable
    obtain ⟨payload, hpayload⟩ := Option.isSome_iff_exists.mp hvalid
    obtain ⟨i, hi⟩ := List.mem_iff_getElem?.mp hd
    by_contra howned
    obtain ⟨r', hr'⟩ := Option.ne_none_iff_exists'.mp howned
    have hflight : (initial injected).inFlight[i]? = some { d with fromResponder := false } := by
      rw [initial, List.getElem?_map, hi]
      rfl
    have hfirst := step_answer responder owner hflight hr hpayload hr
    obtain rfl := eq_response_of_answer hpayload
    -- the answer is delivered to the responder that the source names
    obtain ⟨u, hu, hmark⟩ := reply_answered responder owner hr'
      ((initial injected).inFlight.eraseIdx i) [⟨d.dst, d.src, _, true⟩]
      [{ d with fromResponder := false }] d.dst (responder r).grpcListenPort
    have hrun : Machine.run (step responder owner) (initial injected)
        [.deliver i (some d.dst),
          .deliver ((initial injected).inFlight.eraseIdx i).length (some d.src)] = some u := by
      rw [Machine.run_cons, hfirst, Option.bind_some, Machine.run_cons]
      exact (congrArg (Option.bind · _) hu).trans rfl
    obtain ⟨e, he, hresponder⟩ := hmark
    have hclean := (hsettled _ _ hrun).1 e he
    exact Bool.noConfusion (hclean.symm.trans hresponder)
  · intro h labels t ht
    have hout : t.Outbound responder owner injected :=
      Machine.invariant_run _ (fun _ _ _ hs hstep => outbound_step responder owner hs hstep)
        (outbound_initial responder owner h) ht
    exact ⟨hout.answered, (Nat.le_add_right _ _).trans hout.budget⟩

/-- The bytes of a request. -/
def fillDeviceDiscoveryRequest : List UInt8 :=
  [0x45, 0x56, 0x52, 0x50, kDeviceDiscoveryVersion, 0, 0, 0]

/-- Two devices on the default port. -/
def pair (_ : Bool) : Responder := ⟨50051, 53508, .broadcast, by decide, by decide⟩

def pairOwner (a : Address) : Option Bool :=
  if a = ⟨1, 53508⟩ then some false else if a = ⟨2, 53508⟩ then some true else none

/-- A request to the first device in the name of the second: the devices answer each other. -/
theorem responses_circulate : ∃ t,
    Machine.run (step pair pairOwner)
      (initial [⟨⟨2, 53508⟩, ⟨1, 53508⟩, fillDeviceDiscoveryRequest, false⟩])
      [.deliver 0 (some ⟨1, 53508⟩), .deliver 0 (some ⟨2, 53508⟩), .deliver 0 (some ⟨1, 53508⟩)] =
        some t ∧
      (∃ d ∈ t.answered, d.fromResponder = true) ∧ t.sent.length = 3 :=
  ⟨_, rfl, ⟨_, List.mem_cons_of_mem _ (List.mem_cons_self ..), rfl⟩, rfl⟩

theorem settled_iff_client : ∀ labels t,
    Machine.run (step pair pairOwner)
      (initial [⟨⟨3, 40000⟩, ⟨1, 53508⟩, fillDeviceDiscoveryRequest, false⟩]) labels = some t →
        t.Settled [⟨⟨3, 40000⟩, ⟨1, 53508⟩, fillDeviceDiscoveryRequest, false⟩] := by
  apply (settled_iff pair pairOwner _).mpr
  intro d hd _
  rw [List.mem_singleton.mp hd]
  decide

end Discovery

end Evrp
