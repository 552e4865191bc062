import Evrp.Lib.Numeral
import Evrp.Lib.Ranking
import Evrp.Lib.Text
import Evrp.Device.DiscoveryResponder

/-!
# Discovery at the client

The client sends probes and listens for responses until a deadline. Every
response becomes a target text, once; the texts are then sorted so that this
host comes first. The order is computed from the texts by cutting them at their
last colon, and is compared with the order of the addresses they stand for.
-/

namespace Evrp

namespace Discovery

open Text Numeral

/-- The part of an interface that discovery looks at. -/
structure Interface where
  up : Bool
  loopback : Bool
  broadcast : Bool
  addr : Option UInt32
  broadaddr : Option UInt32
  deriving DecidableEq, Repr

/-- An octet of an address, the first one is the highest. -/
def octet (ip : UInt32) (i : ℕ) : ℕ := ip.toNat / 256 ^ (3 - i) % 256

/-- The dotted form of an IPv4 address. -/
def inetNtop (ip : UInt32) : List Char :=
  renderNat (octet ip 0) ++ '.' :: (renderNat (octet ip 1) ++ '.' ::
    (renderNat (octet ip 2) ++ '.' :: renderNat (octet ip 3)))

/-- The texts of the addresses of the interfaces that are up. -/
def collectLocalIpv4Addresses (interfaces : Option (List Interface)) : List (List Char) :=
  (interfaces.getD []).filterMap fun i =>
    i.addr.bind fun ip =>
      if i.up = true ∧ inetNtop ip ≠ "0.0.0.0".toList then some (inetNtop ip) else none

/-- The text in front of the last colon. -/
def hostOfIpv4HostPort (hostPort : List Char) : List Char :=
  match rfind ':' hostPort with
  | none => []
  | some colon => substr hostPort 0 colon

def localTargetRank (localIpv4 : List (List Char)) (target : List Char) : ℕ :=
  if hostOfIpv4HostPort target = "127.0.0.1".toList then 0
  else if hostOfIpv4HostPort target ∈ localIpv4 then 1
  else 2

def sortDiscoveredTargetsPreferSameHost (targets localIpv4 : List (List Char)) :
    List (List Char) :=
  Ranking.stableSort (localTargetRank localIpv4) targets

/-- The addresses to which one round of probes goes. -/
def transmitDiscoveryProbes (udpPort : UInt16) (mode : LinkMode)
    (interfaces : Option (List Interface)) : List Address :=
  ⟨0x7f000001, udpPort⟩ ::
    match mode with
    | .multicast => [⟨0xef4c5250, udpPort⟩]
    | .broadcast => ⟨0xffffffff, udpPort⟩ ::
        (interfaces.getD []).filterMap fun i =>
          if i.loopback = false ∧ i.up = true ∧ i.broadcast = true then
            i.broadaddr.map fun ip => ⟨ip, udpPort⟩
          else none

/-- A response as it lies in memory, the port as two octets. -/
structure DeviceDiscoveryResponse where
  magic : UInt8 × UInt8 × UInt8 × UInt8
  version : UInt8
  reserved : UInt8
  grpcPortBe : UInt8 × UInt8
  deriving DecidableEq

/-- The response that a datagram leaves in the buffer, if it fills the buffer. -/
def recvResponse : List UInt8 → Option DeviceDiscoveryResponse
  | e :: v :: r :: p :: version :: reserved :: hi :: lo :: _ =>
    some ⟨(e, v, r, p), version, reserved, (hi, lo)⟩
  | _ => none

def isValidDeviceDiscoveryResponse (r : DeviceDiscoveryResponse) : Bool :=
  r.magic == kMagic && r.version == kDeviceDiscoveryVersion

/-- A port from network order. -/
def ntohs (be : UInt8 × UInt8) : UInt16 := UInt16.ofNat (be.1.toNat * 256 + be.2.toNat)

/-- What `select` and `recvfrom` bring: the octets of a datagram and where it comes from. -/
inductive Ready where
  | failed
  | timeout
  | datagram (received : Option (List UInt8)) (source : Address)
  deriving DecidableEq, Repr

/-- What one turn of the loop gets to see; times are nanoseconds of the steady clock. -/
structure Turn where
  condition : ℤ
  now : ℤ
  interfaces : Option (List Interface)
  ready : Ready
  deriving DecidableEq, Repr

/-- The variables of the loop, with the rounds of probes and the waits it has asked for. -/
structure Loop where
  targets : List (List Char)
  seen : List (List Char)
  nextResend : ℤ
  probes : List (ℤ × List Address)
  waits : List ℤ
  deriving DecidableEq, Repr

def milliseconds (n : ℤ) : ℤ := n * 1000000

/-- The device that a datagram announces. -/
def announced (received : Option (List UInt8)) (source : Address) : Option Address :=
  (received.bind recvResponse).bind fun resp =>
    if isValidDeviceDiscoveryResponse resp = true ∧ ntohs resp.grpcPortBe ≠ 0 then
      some ⟨source.ip, ntohs resp.grpcPortBe⟩
    else none

/-- The target text of a device. -/
def targetText (device : Address) : List Char :=
  inetNtop device.ip ++ ':' :: renderNat device.port.toNat

def Loop.receive (s : Loop) (received : Option (List UInt8)) (source : Address) : Loop :=
  match announced received source with
  | none => s
  | some device =>
    if targetText device ∈ s.seen then s
    else { s with
      targets := s.targets ++ [targetText device]
      seen := targetText device :: s.seen }

def Loop.resend (s : Loop) (udpPort : UInt16) (mode : LinkMode) (turn : Turn) : Loop :=
  if s.nextResend ≤ turn.now then
    { s with
      nextResend := turn.now + milliseconds 200
      probes := s.probes ++
        [(turn.now, transmitDiscoveryProbes udpPort mode turn.interfaces)] }
  else s

/-- The loop, turn by turn; without a turn that ends it it is still running. -/
def discoveryLoop (udpPort : UInt16) (mode : LinkMode) (deadline : ℤ) :
    Loop → List Turn → Option Loop
  | _, [] => none
  | s, turn :: rest =>
    if turn.condition < deadline then
      let s := s.resend udpPort mode turn
      let remainMs := (deadline - turn.now).tdiv 1000000
      if remainMs ≤ 0 then some s
      else
        let s := { s with waits := s.waits ++ [min remainMs 250] }
        match turn.ready with
        | .failed => some s
        | .timeout => discoveryLoop udpPort mode deadline s rest
        | .datagram received source =>
          discoveryLoop udpPort mode deadline (s.receive received source) rest
    else some s

def Loop.start : Loop := ⟨[], [], 0, [], []⟩

/-- The targets, in the order in which they are tried. `started` is the time at which the loop
starts, or nothing if there is no socket. -/
def discoverGrpcTargetsImpl (discoveryUdpPort : ℤ) (mode : LinkMode)
    (interfaces : Option (List Interface)) (started : Option ℤ) (turns : List Turn) :
    Option (List (List Char)) :=
  if discoveryUdpPort < 1 ∨ 65535 < discoveryUdpPort then some []
  else
    match started with
    | none => some []
    | some time =>
      (discoveryLoop (UInt16.ofNat discoveryUdpPort.toNat) mode (time + milliseconds 1500)
        .start turns).map fun s =>
          sortDiscoveredTargetsPreferSameHost s.targets (collectLocalIpv4Addresses interfaces)

/-- The targets for the settings of a client. -/
def discoverGrpcTargets {fl : Floating} (settings : Setting (AnyValue fl))
    (interfaces : Option (List Interface)) (started : Option ℤ) (turns : List Turn) :
    Option (List (List Char)) :=
  let port := (settings.getAs AnyValue.int32? "discovery_port" kDeviceDiscoveryUdpPort).toInt
  match tryParseDiscoveryLinkMode
      (settings.getAs AnyValue.string? "discovery_link_mode" "broadcast") with
  | none => some []
  | some mode => discoverGrpcTargetsImpl port mode interfaces started turns

/-! ## The texts stand for addresses -/

theorem notMem_renderNat {c : Char} (hc : c.isDigit = false) (n : ℕ) : c ∉ renderNat n := by
  intro h
  rw [isDigit_renderNat h] at hc
  cases hc

theorem renderNat_injective {m n : ℕ} (h : renderNat m = renderNat n) : m = n := by
  have := congrArg (Nat.ofDigitChars 10 · 0) h
  simpa only [renderNat, Nat.ofDigitChars_ten_toDigits] using this

/-- A numeral ends where the next separator stands. -/
theorem renderNat_append_inj {m n : ℕ} {c : Char} (hc : c.isDigit = false) {a b : List Char}
    (h : renderNat m ++ c :: a = renderNat n ++ c :: b) : m = n ∧ a = b := by
  have hbegins : ∀ (k : ℕ) (rest : List Char),
      (renderNat k ++ c :: rest).takeWhile Char.isDigit = renderNat k := by
    intro k rest
    rw [List.takeWhile_append_of_pos fun x hx => isDigit_renderNat hx,
      List.takeWhile_cons_of_neg (by simp [hc]), List.append_nil]
  have hnumeral := congrArg (List.takeWhile Char.isDigit) h
  rw [hbegins, hbegins] at hnumeral
  obtain rfl := renderNat_injective hnumeral
  exact ⟨rfl, (List.cons.inj (List.append_cancel_left h)).2⟩

/-- The dotted form names the address. -/
theorem inetNtop_injective {ip ip' : UInt32} (h : inetNtop ip = inetNtop ip') : ip = ip' := by
  obtain ⟨h₀, h⟩ := renderNat_append_inj (by decide) h
  obtain ⟨h₁, h⟩ := renderNat_append_inj (by decide) h
  obtain ⟨h₂, h⟩ := renderNat_append_inj (by decide) h
  have h₃ := renderNat_injective h
  have hlt := ip.toNat_lt
  have hlt' := ip'.toNat_lt
  apply UInt32.toNat_inj.mp
  simp only [octet] at h₀ h₁ h₂ h₃
  omega

/-- Cutting a target text gives the host back. -/
theorem hostOfIpv4HostPort_targetText (device : Address) :
    hostOfIpv4HostPort (targetText device) = inetNtop device.ip := by
  have hcolon := notMem_renderNat (c := ':') (by decide) device.port.toNat
  simp only [hostOfIpv4HostPort, targetText, rfind_append _ _ hcolon, substr, List.drop_zero,
    List.take_left]

theorem targetText_injective {d d' : Address} (h : targetText d = targetText d') : d = d' := by
  have hhost := congrArg hostOfIpv4HostPort h
  rw [hostOfIpv4HostPort_targetText, hostOfIpv4HostPort_targetText] at hhost
  obtain ⟨ip, port⟩ := d
  obtain ⟨ip', port'⟩ := d'
  obtain rfl := inetNtop_injective hhost
  have hport := (List.cons.inj (List.append_cancel_left h)).2
  obtain rfl := UInt16.toNat_inj.mp (renderNat_injective hport)
  rfl

/-- An address of this host. -/
def LocalAddress (interfaces : Option (List Interface)) (ip : UInt32) : Prop :=
  ip ≠ 0 ∧ ∃ i ∈ interfaces.getD [], i.up = true ∧ i.addr = some ip

instance (interfaces : Option (List Interface)) (ip : UInt32) :
    Decidable (LocalAddress interfaces ip) :=
  inferInstanceAs (Decidable (_ ∧ _))

/-- The rank of a device by its address: loopback, this host, another host. -/
def addressRank (interfaces : Option (List Interface)) (device : Address) : ℕ :=
  if device.ip = 0x7f000001 then 0 else if LocalAddress interfaces device.ip then 1 else 2

theorem addressRank_lt (interfaces : Option (List Interface)) (device : Address) :
    addressRank interfaces device < 3 := by
  unfold addressRank
  split_ifs <;> omega

theorem inetNtop_mem_collect (interfaces : Option (List Interface)) (ip : UInt32) :
    inetNtop ip ∈ collectLocalIpv4Addresses interfaces ↔ LocalAddress interfaces ip := by
  have hzero : "0.0.0.0".toList = inetNtop 0 := by decide
  have hne : ∀ other, inetNtop other ≠ "0.0.0.0".toList ↔ other ≠ 0 := by
    intro other
    rw [hzero]
    exact ⟨fun h heq => h (congrArg _ heq), fun h heq => h (inetNtop_injective heq)⟩
  simp only [collectLocalIpv4Addresses, List.mem_filterMap, Option.bind_eq_some_iff,
    Option.ite_none_right_eq_some, Option.some.injEq, hne]
  constructor
  · rintro ⟨i, hi, other, haddr, ⟨hup, hnonzero⟩, htext⟩
    obtain rfl := inetNtop_injective htext
    exact ⟨hnonzero, i, hi, hup, haddr⟩
  · rintro ⟨hnonzero, i, hi, hup, haddr⟩
    exact ⟨i, hi, ip, haddr, ⟨hup, hnonzero⟩, rfl⟩

/-- The rank read off the text is the rank of the address. -/
theorem localTargetRank_targetText (interfaces : Option (List Interface)) (device : Address) :
    localTargetRank (collectLocalIpv4Addresses interfaces) (targetText device) =
      addressRank interfaces device := by
  have hloopback : "127.0.0.1".toList = inetNtop 0x7f000001 := by decide
  have heq : inetNtop device.ip = inetNtop 0x7f000001 ↔ device.ip = 0x7f000001 :=
    ⟨inetNtop_injective, congrArg _⟩
  simp only [localTargetRank, addressRank, hostOfIpv4HostPort_targetText, hloopback, heq,
    inetNtop_mem_collect]

/-! ## The loop -/

/-- The turn does not end the loop. -/
def Turn.continues (deadline : ℤ) (turn : Turn) : Bool :=
  turn.condition < deadline && 0 < (deadline - turn.now).tdiv 1000000 &&
    turn.ready != .failed

def Turn.device (turn : Turn) : Option Address :=
  match turn.ready with
  | .datagram received source => announced received source
  | _ => none

/-- The devices that the client hears, in the order of their responses. -/
def heard (deadline : ℤ) (turns : List Turn) : List Address :=
  (turns.takeWhile (Turn.continues deadline)).filterMap Turn.device

/-- The loop has heard these devices: each has its text, once. -/
structure Loop.Lists (s : Loop) (devices : List Address) : Prop where
  targets : s.targets = devices.eraseDups.map targetText
  seen : ∀ text, text ∈ s.seen ↔ text ∈ s.targets

theorem Loop.Lists.receive {s : Loop} {devices : List Address} (hs : s.Lists devices)
    (received : Option (List UInt8)) (source : Address) :
    (s.receive received source).Lists (devices ++ (announced received source).toList) := by
  unfold Loop.receive
  cases announced received source with
  | none => simpa using hs
  | some device =>
    have hseen : targetText device ∈ s.seen ↔ device ∈ devices := by
      rw [hs.seen, hs.targets, List.mem_map]
      constructor
      · rintro ⟨d, hd, htext⟩
        exact targetText_injective htext ▸ List.mem_eraseDups.mp hd
      · exact fun h => ⟨device, List.mem_eraseDups.mpr h, rfl⟩
    simp only [Option.toList_some, hseen]
    split
    · rename_i hmem
      refine ⟨?_, hs.seen⟩
      rw [Ranking.eraseDups_concat, if_pos hmem]
      exact hs.targets
    · rename_i hnew
      constructor
      · rw [Ranking.eraseDups_concat, if_neg hnew, List.map_append, ← hs.targets]
        rfl
      · intro text
        rw [List.mem_cons, hs.seen, List.mem_append, List.mem_singleton]
        exact Or.comm

/-- Rounds of probes keep their distance, and reach this host each time. -/
structure Loop.Paced (s : Loop) (udpPort : UInt16) : Prop where
  distance : s.probes.Pairwise fun a b => a.1 + milliseconds 200 ≤ b.1
  next : ∀ round ∈ s.probes, round.1 + milliseconds 200 ≤ s.nextResend
  loopback : ∀ round ∈ s.probes, (⟨0x7f000001, udpPort⟩ : Address) ∈ round.2
  waits : ∀ wait ∈ s.waits, 1 ≤ wait ∧ wait ≤ 250

theorem Loop.Paced.resend {s : Loop} {udpPort : UInt16} (hs : s.Paced udpPort) (mode : LinkMode)
    (turn : Turn) : (s.resend udpPort mode turn).Paced udpPort := by
  unfold Loop.resend
  split
  · rename_i hdue
    refine ⟨?_, ?_, ?_, hs.waits⟩
    · rw [List.pairwise_append]
      refine ⟨hs.distance, List.pairwise_singleton _ _, ?_⟩
      intro a ha b hb
      have := hs.next a ha
      obtain rfl := List.mem_singleton.mp hb
      simp only
      omega
    · intro round hround
      rcases List.mem_append.mp hround with hround | hround
      · have := hs.next round hround
        simp only [milliseconds] at this ⊢
        omega
      · obtain rfl := List.mem_singleton.mp hround
        exact Int.le_refl _
    · intro round hround
      rcases List.mem_append.mp hround with hround | hround
      · exact hs.loopback round hround
      · obtain rfl := List.mem_singleton.mp hround
        exact List.mem_cons_self
  · exact hs

theorem Loop.Paced.wait {s : Loop} {udpPort : UInt16} (hs : s.Paced udpPort) {remainMs : ℤ}
    (h : ¬ remainMs ≤ 0) :
    Loop.Paced { s with waits := s.waits ++ [min remainMs 250] } udpPort := by
  refine ⟨hs.distance, hs.next, hs.loopback, fun wait hwait => ?_⟩
  rcases List.mem_append.mp hwait with hwait | hwait
  · exact hs.waits wait hwait
  · obtain rfl := List.mem_singleton.mp hwait
    omega

theorem Loop.Paced.receive {s : Loop} {udpPort : UInt16} (hs : s.Paced udpPort)
    (received : Option (List UInt8)) (source : Address) :
    (s.receive received source).Paced udpPort := by
  unfold Loop.receive
  split
  · exact hs
  · split
    · exact hs
    · exact ⟨hs.distance, hs.next, hs.loopback, hs.waits⟩

theorem Loop.Lists.resend {s : Loop} {devices : List Address} (hs : s.Lists devices)
    (udpPort : UInt16) (mode : LinkMode) (turn : Turn) :
    (s.resend udpPort mode turn).Lists devices := by
  unfold Loop.resend
  split
  · exact ⟨hs.targets, hs.seen⟩
  · exact hs

theorem Loop.Lists.wait {s : Loop} {devices : List Address} (hs : s.Lists devices)
    (waits : List ℤ) : Loop.Lists { s with waits := waits } devices := ⟨hs.targets, hs.seen⟩

/-- The loop ends at the first turn that does not continue it, with the devices heard before. -/
theorem discoveryLoop_spec {udpPort : UInt16} {mode : LinkMode} {deadline : ℤ} {s t : Loop}
    {turns : List Turn} {devices : List Address} (hlists : s.Lists devices)
    (hpaced : s.Paced udpPort) (h : discoveryLoop udpPort mode deadline s turns = some t) :
    t.Lists (devices ++ heard deadline turns) ∧ t.Paced udpPort := by
  induction turns generalizing s devices with
  | nil => cases h
  | cons turn rest ih =>
    have hlists' := hlists.resend udpPort mode turn
    have hpaced' := hpaced.resend mode turn
    simp only [discoveryLoop] at h
    split at h
    · rename_i hbefore
      split at h
      · rename_i hremain
        have hstop : turn.continues deadline = false := by
          simp only [Turn.continues, Bool.and_eq_false_iff, decide_eq_false_iff_not]
          exact Or.inl (Or.inr (Int.not_lt.mpr hremain))
        obtain rfl := Option.some.inj h
        rw [heard, List.takeWhile_cons_of_neg (by simp [hstop]), List.filterMap_nil,
          List.append_nil]
        exact ⟨hlists', hpaced'⟩
      · rename_i hremain
        have hwait := hpaced'.wait hremain
        have hremain' := Int.not_le.mp hremain
        cases hready : turn.ready with
        | failed =>
          have hstop : turn.continues deadline = false := by simp [Turn.continues, hready]
          simp only [hready] at h
          obtain rfl := Option.some.inj h
          rw [heard, List.takeWhile_cons_of_neg (by simp [hstop]), List.filterMap_nil,
            List.append_nil]
          exact ⟨hlists'.wait _, hwait⟩
        | timeout =>
          have hgo : turn.continues deadline = true := by
            simp [Turn.continues, hready, hbefore, hremain']
          simp only [hready] at h
          rw [heard, List.takeWhile_cons_of_pos hgo,
            List.filterMap_cons_none (by simp [Turn.device, hready])]
          exact ih (hlists'.wait _) hwait h
        | datagram received source =>
          have hgo : turn.continues deadline = true := by
            simp [Turn.continues, hready, hbefore, hremain']
          simp only [hready] at h
          have hsplit : heard deadline (turn :: rest) =
              (announced received source).toList ++ heard deadline rest := by
            rw [heard, List.takeWhile_cons_of_pos hgo, List.filterMap_cons]
            simp only [Turn.device, hready]
            cases announced received source <;> rfl
          rw [hsplit, ← List.append_assoc]
          exact ih ((hlists'.wait _).receive received source) (hwait.receive received source) h
    · rename_i hafter
      have hstop : turn.continues deadline = false := by simp [Turn.continues, hafter]
      obtain rfl := Option.some.inj h
      rw [heard, List.takeWhile_cons_of_neg (by simp [hstop]), List.filterMap_nil,
        List.append_nil]
      exact ⟨hlists, hpaced⟩

/-- The loop ends as soon as some turn does not continue it. -/
theorem isSome_discoveryLoop {udpPort : UInt16} {mode : LinkMode} {deadline : ℤ} {s : Loop}
    {turns : List Turn} (h : ∃ turn ∈ turns, turn.continues deadline = false) :
    (discoveryLoop udpPort mode deadline s turns).isSome = true := by
  induction turns generalizing s with
  | nil =>
    obtain ⟨turn, hturn, -⟩ := h
    exact absurd hturn List.not_mem_nil
  | cons turn rest ih =>
    have hrest : turn.continues deadline = true →
        ∃ turn ∈ rest, turn.continues deadline = false := by
      intro hgo
      obtain ⟨other, hother, hstop⟩ := h
      rcases List.mem_cons.mp hother with rfl | hother
      · rw [hgo] at hstop
        cases hstop
      · exact ⟨other, hother, hstop⟩
    simp only [discoveryLoop]
    split
    · rename_i hbefore
      split
      · rfl
      · rename_i hremain
        have hremain' := Int.not_le.mp hremain
        split
        · rfl
        · rename_i hready
          exact ih (hrest (by simp [Turn.continues, hready, hbefore, hremain']))
        · rename_i hready
          exact ih (hrest (by simp [Turn.continues, hready, hbefore, hremain']))
    · rfl

/-- A response announces the port of its responder. -/
theorem announced_response (r : Responder) (source : Address) :
    announced (some (response r.grpcListenPort)) source =
      some ⟨source.ip, UInt16.ofNat r.grpcListenPort.toNat⟩ := by
  obtain ⟨hlow, hhigh⟩ := r.grpc_range
  have hport : ntohs (UInt8.ofNat (r.grpcListenPort.toNat / 256),
      UInt8.ofNat r.grpcListenPort.toNat) = UInt16.ofNat r.grpcListenPort.toNat := by
    simp only [ntohs, UInt8.toNat_ofNat']
    congr 1
    omega
  have hne : UInt16.ofNat r.grpcListenPort.toNat ≠ 0 := by
    intro h
    have := congrArg UInt16.toNat h
    simp only [UInt16.toNat_ofNat', UInt16.toNat_zero] at this
    omega
  simp only [announced, response, recvResponse, Option.bind_some, isValidDeviceDiscoveryResponse,
    hport]
  exact if_pos ⟨by decide, hne⟩

/-- The devices heard, each once: loopback, this host, other hosts, and otherwise in the order of
their first responses. -/
def ranked (interfaces : Option (List Interface)) (deadline : ℤ) (turns : List Turn) :
    List Address :=
  (List.range 3).flatMap (Ranking.ofRank (addressRank interfaces) (heard deadline turns).eraseDups)

theorem ranked_perm (interfaces : Option (List Interface)) (deadline : ℤ) (turns : List Turn) :
    (ranked interfaces deadline turns).Perm (heard deadline turns).eraseDups :=
  Ranking.flatMap_ofRank_perm (addressRank interfaces) fun device _ =>
    addressRank_lt interfaces device

theorem nodup_ranked (interfaces : Option (List Interface)) (deadline : ℤ) (turns : List Turn) :
    (ranked interfaces deadline turns).Nodup :=
  (ranked_perm interfaces deadline turns).nodup_iff.mpr (Ranking.nodup_eraseDups _)

theorem pairwise_ranked (interfaces : Option (List Interface)) (deadline : ℤ)
    (turns : List Turn) : (ranked interfaces deadline turns).Pairwise fun d e =>
      addressRank interfaces d ≤ addressRank interfaces e :=
  Ranking.pairwise_flatMap_ofRank (addressRank interfaces) fun device _ =>
    addressRank_lt interfaces device

/-- A responder is in the list as soon as one of its responses arrives. -/
theorem mem_ranked_of_response {interfaces : Option (List Interface)} {deadline : ℤ}
    {turns : List Turn} {turn : Turn} {r : Responder} {source : Address}
    (hturn : turn ∈ turns.takeWhile (Turn.continues deadline))
    (hready : turn.ready = .datagram (some (response r.grpcListenPort)) source) :
    ⟨source.ip, UInt16.ofNat r.grpcListenPort.toNat⟩ ∈ ranked interfaces deadline turns := by
  have hheard : ⟨source.ip, UInt16.ofNat r.grpcListenPort.toNat⟩ ∈ heard deadline turns :=
    List.mem_filterMap.mpr ⟨turn, hturn, by simp only [Turn.device, hready, announced_response]⟩
  exact (ranked_perm interfaces deadline turns).mem_iff.mpr (List.mem_eraseDups.mpr hheard)

/-- Sorting the texts sorts the devices. -/
theorem sortDiscoveredTargetsPreferSameHost_eq {s : Loop} {deadline : ℤ} {turns : List Turn}
    (interfaces : Option (List Interface)) (h : s.Lists (heard deadline turns)) :
    sortDiscoveredTargetsPreferSameHost s.targets (collectLocalIpv4Addresses interfaces) =
      (ranked interfaces deadline turns).map targetText := by
  rw [sortDiscoveredTargetsPreferSameHost, h.targets, Ranking.stableSort_eq (n := 3), ranked,
    List.map_flatMap]
  · refine List.flatMap_congr fun k _ => ?_
    rw [Ranking.ofRank, Ranking.ofRank, List.filter_map]
    refine congrArg _ (List.filter_congr fun device _ => ?_)
    simp only [Function.comp_apply, localTargetRank_targetText]
  · intro text htext
    obtain ⟨device, -, rfl⟩ := List.mem_map.mp htext
    rw [localTargetRank_targetText]
    exact addressRank_lt interfaces device

/-- The settings under which a client looks for devices. -/
structure Searches {fl : Floating} (settings : Setting (AnyValue fl)) (port : ℤ)
    (mode : LinkMode) : Prop where
  port_eq : (settings.getAs AnyValue.int32? "discovery_port" kDeviceDiscoveryUdpPort).toInt = port
  port_range : 1 ≤ port ∧ port ≤ 65535
  mode_eq : tryParseDiscoveryLinkMode
    (settings.getAs AnyValue.string? "discovery_link_mode" "broadcast") = some mode

variable {fl : Floating} {settings : Setting (AnyValue fl)} {port : ℤ} {mode : LinkMode}
  {interfaces : Option (List Interface)} {time : ℤ} {turns : List Turn}

/-- The course of the whole search. -/
theorem discoverGrpcTargets_spec (h : Searches settings port mode)
    (hends : ∃ turn ∈ turns, turn.continues (time + milliseconds 1500) = false) :
    ∃ s, discoveryLoop (UInt16.ofNat port.toNat) mode (time + milliseconds 1500) .start turns =
        some s ∧
      s.Paced (UInt16.ofNat port.toNat) ∧
      discoverGrpcTargets settings interfaces (some time) turns =
        some ((ranked interfaces (time + milliseconds 1500) turns).map targetText) := by
  obtain ⟨hport, hrange, hmode⟩ := h
  have hreturns : (discoveryLoop (UInt16.ofNat port.toNat) mode (time + milliseconds 1500) .start
      turns).isSome = true := isSome_discoveryLoop hends
  obtain ⟨s, hs⟩ := Option.isSome_iff_exists.mp hreturns
  have hnothing : Loop.start.Lists [] := ⟨rfl, fun _ => Iff.rfl⟩
  obtain ⟨hlists, hpaced⟩ := discoveryLoop_spec hnothing
    ⟨List.Pairwise.nil, by simp [Loop.start], by simp [Loop.start], by simp [Loop.start]⟩ hs
  rw [List.nil_append] at hlists
  have hvalid : ¬ (port < 1 ∨ 65535 < port) := by omega
  refine ⟨s, hs, hpaced, ?_⟩
  simp only [discoverGrpcTargets, hport, hmode, discoverGrpcTargetsImpl, if_neg hvalid, hs,
    Option.map_some, sortDiscoveredTargetsPreferSameHost_eq interfaces hlists]

/-- What a client gets to try, for every course of the loop: the devices it heard before the
loop ended, each once, loopback before this host before other hosts and otherwise in the order
of their first responses. The texts stand for different devices, and a responder is among them
as soon as one of its responses arrives. Meanwhile rounds of probes, each of them to this host as
well, are 200 milliseconds apart at least, and no wait is longer than 250. -/
theorem discovered_devices_ranked (h : Searches settings port mode)
    (hends : ∃ turn ∈ turns, turn.continues (time + milliseconds 1500) = false) :
    discoverGrpcTargets settings interfaces (some time) turns =
        some (((List.range 3).flatMap (Ranking.ofRank (addressRank interfaces)
          (heard (time + milliseconds 1500) turns).eraseDups)).map targetText) ∧
      ((ranked interfaces (time + milliseconds 1500) turns).map targetText).Nodup ∧
      (∀ (r : Responder) source,
        (∃ turn ∈ turns.takeWhile (Turn.continues (time + milliseconds 1500)),
          turn.ready = .datagram (some (response r.grpcListenPort)) source) →
        ⟨source.ip, UInt16.ofNat r.grpcListenPort.toNat⟩ ∈
          ranked interfaces (time + milliseconds 1500) turns) ∧
      ∃ s, discoveryLoop (UInt16.ofNat port.toNat) mode (time + milliseconds 1500) .start turns =
          some s ∧
        s.Paced (UInt16.ofNat port.toNat) := by
  obtain ⟨s, hs, hpaced, htargets⟩ :=
    @discoverGrpcTargets_spec fl settings port mode interfaces time turns h hends
  refine ⟨htargets, ?_, ?_, s, hs, hpaced⟩
  · exact List.Nodup.map (fun _ _ => targetText_injective) (nodup_ranked _ _ _)
  · rintro r source ⟨turn, hturn, hready⟩
    exact mem_ranked_of_response hturn hready

/-- Another host answers before this one, and answers again. -/
def twoHosts : List Turn :=
  [⟨0, 0, none, .datagram (some (response 50051)) ⟨0x0a000005, 53508⟩⟩,
    ⟨1, 1, none, .timeout⟩,
    ⟨2, 2, none, .datagram (some (response 50051)) ⟨0x7f000001, 53508⟩⟩,
    ⟨3, 3, none, .datagram (some (response 50051)) ⟨0x0a000005, 53508⟩⟩,
    ⟨milliseconds 1500, milliseconds 1500, none, .timeout⟩]

/-- Without settings a client searches on the default port by broadcast. -/
theorem searches_default :
    Searches (Setting.memory ∅ : Setting (AnyValue rationals)) 53508 .broadcast := by
  have hnone : ∀ key, (Setting.memory ∅ : Setting (AnyValue rationals)).get key = .empty := by
    intro key
    rw [Setting.get_eq, Setting.denote_memory, Std.ExtTreeMap.getElem?_empty]
    rfl
  refine ⟨?_, by decide, ?_⟩
  · rw [Setting.getAs, hnone]
    rfl
  · rw [Setting.getAs, hnone]
    decide

theorem discovered_devices_ranked_twoHosts :
    discoverGrpcTargets (Setting.memory ∅ : Setting (AnyValue rationals)) none (some 0) twoHosts =
      some ["127.0.0.1:50051".toList, "10.0.0.5:50051".toList] := by
  have hends : ∃ turn ∈ twoHosts, turn.continues (0 + milliseconds 1500) = false := by decide
  obtain ⟨htargets, -⟩ :=
    @discovered_devices_ranked rationals _ _ _ none _ _ searches_default hends
  rw [htargets]
  decide

end Discovery

end Evrp
