import Evrp.Device.DeviceDiscovery
import Evrp.Sdk.ListenAddress
import Evrp.Sdk.SessionIsolation

/-!
# From a device that listens to a client that holds a session

A device reads the port of its listen address, puts it over its settings and
announces it. A client without a device flag tries the targets it finds in
order and keeps the first session it gets. Several targets can lead to one
device: it may be found under the loopback address and under its own. A session
can be opened on a device whose reply misses the deadline; the client goes on
and that session lapses.
-/

namespace Evrp

namespace DeviceClient

open Discovery

variable {fl : Floating}

/-- The listen address of a device. -/
def listenAddress (deviceSettings : Setting (AnyValue fl)) : List Char :=
  (deviceSettings.getAs AnyValue.string? "listen" "").toList

/-- The responder that a device runs: the port of the listen address is put over the settings,
and an address without a port leaves the device unannounced. -/
def announce (deviceSettings : Setting (AnyValue fl)) : Option Responder :=
  match parseListenPort (listenAddress deviceSettings) (some 0) with
  | (true, some grpcPort) =>
    start ((Setting.makeOverlay (some (.memory ∅)) [some deviceSettings]).insert
      "discovery_grpc_listen_port" (.int32 (Int32.ofNat grpcPort)))
  | _ => none

/-- How a Connect call goes. -/
inductive Outcome where
  | unreachable
  /-- The device opens a session, and the reply misses the deadline. -/
  | late (peer : String) (draws : List SessionId) (now : ℤ)
  | answered (peer : String) (draws : List SessionId) (now : ℤ)
  deriving DecidableEq

/-- The registries of the devices. -/
abbrev Fleet (δ : Type*) := δ → SessionRegistry

/-- To which device a target leads, and how a Connect call there goes. -/
structure Net (δ : Type*) where
  device : List Char → δ
  outcome : List Char → Outcome

/-- The part of a client that says where its session is. -/
structure ClientImpl where
  serverAddress : List Char
  sessionId : SessionId
  deriving DecidableEq

/-- Connect on a device: what becomes of its registry and what the client learns. -/
def sessionConnect (r : SessionRegistry) : Outcome → SessionRegistry × Option SessionId
  | .unreachable => (r, none)
  | .late peer draws now => ((r.connect peer draws now).1, none)
  | .answered peer draws now => r.connect peer draws now

section Attempts

variable {δ : Type*} [DecidableEq δ] (net : Net δ)

/-- One attempt; a client is made of a session only. -/
def attempt (fleet : Fleet δ) (target : List Char) : Fleet δ × Option ClientImpl :=
  if target = [] then (fleet, none)
  else
    let answer := sessionConnect (fleet (net.device target)) (net.outcome target)
    (Function.update fleet (net.device target) answer.1, answer.2.map fun id => ⟨target, id⟩)

/-- Without a deadline the call waits for the transport to give up. -/
def create : Fleet δ → List Char → Fleet δ × Option ClientImpl := attempt net

def tryCreateWithDeadline : Fleet δ → List Char → Fleet δ × Option ClientImpl := attempt net

/-- The loop over the discovered targets. -/
def tryTargets : Fleet δ → List (List Char) → Fleet δ × Option ClientImpl
  | fleet, [] => (fleet, none)
  | fleet, target :: rest =>
    match tryCreateWithDeadline net fleet target with
    | (fleet, some client) => (fleet, some client)
    | (fleet, none) => tryTargets fleet rest

/-- The client for a device flag; an empty flag starts the search, which may still be running. -/
def makeClient (settings : Setting (AnyValue fl)) (interfaces : Option (List Interface))
    (started : Option ℤ) (turns : List Turn) (fleet : Fleet δ) (targetHostPort : List Char) :
    Option (Fleet δ × Option ClientImpl) :=
  if targetHostPort = [] then
    (discoverGrpcTargets settings interfaces started turns).map (tryTargets net fleet)
  else some (create net fleet targetHostPort)

/-- The destructor of a client: `delivered` says whether the call reaches the device. -/
def disconnect (delivered : Bool) (peer : String) (fleet : Fleet δ) (client : ClientImpl) :
    Fleet δ :=
  if delivered then
    Function.update fleet (net.device client.serverAddress)
      ((fleet (net.device client.serverAddress)).disconnect client.sessionId.text peer).1
  else fleet

end Attempts

/-! ## What a device announces -/

/-- The overlay shows the port at its key and the settings elsewhere. -/
theorem get_overlay (deviceSettings : Setting (AnyValue fl)) (value : AnyValue fl)
    (key : String) :
    ((Setting.makeOverlay (some (.memory ∅)) [some deviceSettings]).insert
        "discovery_grpc_listen_port" value).get key =
      if key = "discovery_grpc_listen_port" then value else deviceSettings.get key := by
  have hbelow : (Setting.makeOverlay (some (.memory ∅)) [some deviceSettings]).denote key =
      deviceSettings.denote key := by
    rw [Setting.makeOverlay, Option.getD_some, Setting.denote_overlay, Setting.denote_memory,
      Std.ExtTreeMap.getElem?_empty, Option.none_or]
    exact (Setting.firstMatch_layersBelow_cons deviceSettings [] key).trans Option.or_none
  rw [Setting.get_eq, Setting.denote_insert, Function.update_apply]
  split
  · rfl
  · rw [hbelow, Setting.get_eq]

theorem getAs_overlay {τ : Type} (cast : AnyValue fl → Option τ)
    (deviceSettings : Setting (AnyValue fl)) (value : AnyValue fl) {key : String}
    (hkey : key ≠ "discovery_grpc_listen_port") (fallback : τ) :
    ((Setting.makeOverlay (some (.memory ∅)) [some deviceSettings]).insert
        "discovery_grpc_listen_port" value).getAs cast key fallback =
      deviceSettings.getAs cast key fallback := by
  rw [Setting.getAs, Setting.getAs, get_overlay, if_neg hkey]

/-- A device whose address names a port and whose settings are in order announces that port,
whatever its settings say about the announced port. -/
theorem announce_of_namesPort {deviceSettings : Setting (AnyValue fl)} {port : ℕ} {udp : ℤ}
    {mode : LinkMode} (hnames : NamesPort (listenAddress deviceSettings) port)
    (hsettings : Searches deviceSettings udp mode) :
    ∃ r, announce deviceSettings = some r ∧ r.grpcListenPort = port ∧ r.udpPort = udp ∧
      r.linkMode = mode := by
  obtain ⟨text, htext, hport⟩ := hnames.exists_startsWithPort
  obtain ⟨hlow, hhigh⟩ := hport.2
  have hgrpc : ((Setting.makeOverlay (some (.memory ∅)) [some deviceSettings]).insert
      "discovery_grpc_listen_port" (.int32 (Int32.ofNat port))).getAs AnyValue.int32?
        "discovery_grpc_listen_port" 0 = Int32.ofNat port := by
    rw [Setting.getAs, get_overlay, if_pos rfl]
    rfl
  have hint : (Int32.ofNat port).toInt = port := Int32.toInt_ofNat_of_lt (by omega)
  have hrange : 1 ≤ (port : ℤ) ∧ (port : ℤ) ≤ 65535 := by omega
  rw [announce, parseListenPort_of_startsWithPort htext hport 0]
  simp only [start, hgrpc, hint, getAs_overlay AnyValue.int32? deviceSettings _
    (show "discovery_port" ≠ "discovery_grpc_listen_port" by decide),
    getAs_overlay AnyValue.string? deviceSettings _
    (show "discovery_link_mode" ≠ "discovery_grpc_listen_port" by decide),
    hsettings.port_eq, hsettings.mode_eq, dif_pos hrange, dif_pos hsettings.port_range,
    Option.map_some]
  exact ⟨_, rfl, rfl, rfl, rfl⟩

/-! ## Which device the client ends at -/

/-- Connect takes no session away. -/
theorem sessionConnect_keeps {r : SessionRegistry} {sid : String} {entry : SessionRecord}
    (h : r.sessions sid = some entry) (outcome : Outcome) :
    (sessionConnect r outcome).1.sessions sid = some entry := by
  have hconnect (peer : String) (draws : List SessionId) (now : ℤ) :
      (r.connect peer draws now).1.sessions sid = some entry := by
    rw [SessionRegistry.connect]
    split
    · exact h
    · rename_i id hid
      have hne : sid ≠ id.text := by
        rintro rfl
        simpa [h] using List.find?_some hid
      rw [SessionRegistry.put_sessions_of_ne r _ hne, h]
  cases outcome with
  | unreachable => exact h
  | late peer draws now => exact hconnect peer draws now
  | answered peer draws now => exact hconnect peer draws now

/-- A session that the client got is in the registry of the device, and was not there before. -/
theorem sessionConnect_some {r : SessionRegistry} {outcome : Outcome} {id : SessionId}
    (h : (sessionConnect r outcome).2 = some id) :
    ∃ peer draws now, outcome = .answered peer draws now ∧ r.sessions id.text = none ∧
      (sessionConnect r outcome).1 = r.put id.text (some ⟨peer, now⟩) := by
  cases outcome with
  | unreachable => cases h
  | late peer draws now => cases h
  | answered peer draws now =>
    refine ⟨peer, draws, now, rfl, SessionRegistry.connect_some h, ?_⟩
    simp only [sessionConnect, SessionRegistry.connect] at h ⊢
    split at h
    · cases h
    · obtain rfl := Option.some.inj h
      rfl

section Attempts

variable {δ : Type*} [DecidableEq δ] (net : Net δ)

/-- The client gets a session from the target. -/
def Answers (fleet : Fleet δ) (target : List Char) : Prop :=
  (sessionConnect (fleet (net.device target)) (net.outcome target)).2.isSome = true

/-- The registries after an attempt at a target. -/
def contact (fleet : Fleet δ) (target : List Char) : Fleet δ :=
  Function.update fleet (net.device target)
    (sessionConnect (fleet (net.device target)) (net.outcome target)).1

/-- The registries after attempts at some targets. -/
def contacted (fleet : Fleet δ) (tried : List (List Char)) : Fleet δ :=
  tried.foldl (contact net) fleet

/-- No target answers when its turn comes. -/
def NoneAnswers (fleet : Fleet δ) (tried : List (List Char)) : Prop :=
  ∀ before target later, tried = before ++ target :: later →
    ¬ Answers net (contacted net fleet before) target

theorem noneAnswers_nil (fleet : Fleet δ) : NoneAnswers net fleet [] := by
  intro before target later h
  exact absurd h.symm (List.append_ne_nil_of_right_ne_nil _ (List.cons_ne_nil _ _))

variable {net} in
theorem NoneAnswers.cons {fleet : Fleet δ} {target : List Char} {tried : List (List Char)}
    (hfirst : ¬ Answers net fleet target)
    (hrest : NoneAnswers net (contact net fleet target) tried) :
    NoneAnswers net fleet (target :: tried) := by
  intro before other later h
  rcases List.cons_eq_append_iff.mp h with ⟨rfl, heq⟩ | ⟨before, rfl, heq⟩
  · obtain ⟨rfl, -⟩ := List.cons.inj heq
    exact hfirst
  · exact hrest before other later heq

/-- A device that no target in reach leads to keeps its registry. -/
theorem contacted_of_unreachable {tried : List (List Char)} {x : δ} (fleet : Fleet δ)
    (h : ∀ target ∈ tried, net.device target = x → net.outcome target = .unreachable) :
    contacted net fleet tried x = fleet x := by
  induction tried generalizing fleet with
  | nil => rfl
  | cons target tried ih =>
    have hrest := ih (contact net fleet target) fun t ht => h t (List.mem_cons_of_mem _ ht)
    refine hrest.trans ?_
    by_cases hx : x = net.device target
    · subst hx
      rw [contact, Function.update_self, h target List.mem_cons_self rfl]
      rfl
    · exact Function.update_of_ne hx ..

/-- Attempts take no session away. -/
theorem contacted_keeps (tried : List (List Char)) (fleet : Fleet δ) {x : δ} {sid : String}
    {entry : SessionRecord} (h : (fleet x).sessions sid = some entry) :
    (contacted net fleet tried x).sessions sid = some entry := by
  induction tried generalizing fleet with
  | nil => exact h
  | cons target tried ih =>
    refine ih (contact net fleet target) ?_
    by_cases hx : x = net.device target
    · subst hx
      rw [contact, Function.update_self]
      exact sessionConnect_keeps h _
    · rw [contact, Function.update_of_ne hx, h]

theorem contacted_concat (fleet : Fleet δ) (tried : List (List Char)) (target : List Char) :
    contacted net fleet (tried ++ [target]) = contact net (contacted net fleet tried) target :=
  List.foldl_concat ..

/-- The attempts go through the targets up to the first that answers. -/
theorem tryTargets_spec (fleet : Fleet δ) {targets : List (List Char)} (hne : [] ∉ targets) :
    (tryTargets net fleet targets = (contacted net fleet targets, none) ∧
        NoneAnswers net fleet targets) ∨
      ∃ failed target later id, targets = failed ++ target :: later ∧
        NoneAnswers net fleet failed ∧
        (sessionConnect (contacted net fleet failed (net.device target))
          (net.outcome target)).2 = some id ∧
        tryTargets net fleet targets =
          (contacted net fleet (failed ++ [target]), some ⟨target, id⟩) := by
  induction targets generalizing fleet with
  | nil => exact Or.inl ⟨rfl, noneAnswers_nil net fleet⟩
  | cons target rest ih =>
    have htarget : target ≠ [] := fun h => hne (h ▸ List.mem_cons_self)
    have hne' : [] ∉ rest := fun h => hne (List.mem_cons_of_mem _ h)
    cases hid : (sessionConnect (fleet (net.device target)) (net.outcome target)).2 with
    | some id =>
      refine Or.inr ⟨[], target, rest, id, rfl, noneAnswers_nil net fleet, hid, ?_⟩
      simp only [tryTargets, tryCreateWithDeadline, attempt, if_neg htarget, hid, Option.map_some]
      rfl
    | none =>
      have hstep : tryTargets net fleet (target :: rest) =
          tryTargets net (contact net fleet target) rest := by
        simp only [tryTargets, tryCreateWithDeadline, attempt, if_neg htarget, hid,
          Option.map_none, contact]
      have hfails : ¬ Answers net fleet target := by simp [Answers, hid]
      rw [hstep]
      rcases ih (contact net fleet target) hne' with ⟨hrun, hnone⟩ |
        ⟨failed, found, later, id, rfl, hfailed, hfound, hrun⟩
      · exact Or.inl ⟨hrun, .cons hfails hnone⟩
      · exact Or.inr ⟨target :: failed, found, later, id, rfl, .cons hfails hfailed, hfound, hrun⟩

end Attempts

/-- The search ends, and the client goes through the targets in their order. -/
theorem makeClient_search {δ : Type*} [DecidableEq δ] {settings : Setting (AnyValue fl)}
    {port time : ℤ} {mode : LinkMode} {interfaces : Option (List Interface)} {turns : List Turn}
    (h : Searches settings port mode)
    (hends : ∃ turn ∈ turns, turn.continues (time + milliseconds 1500) = false)
    (net : Net δ) (fleet : Fleet δ) :
    makeClient net settings interfaces (some time) turns fleet [] = some (tryTargets net fleet
      ((ranked interfaces (time + milliseconds 1500) turns).map targetText)) := by
  obtain ⟨-, -, -, htargets⟩ :=
    @discoverGrpcTargets_spec fl settings port mode interfaces time turns h hends
  rw [makeClient, if_pos rfl, htargets, Option.map_some]

theorem disconnect_put {r : SessionRegistry} {id : SessionId} {peer : String} {now : ℤ}
    (hfree : r.sessions id.text = none) :
    ((r.put id.text (some ⟨peer, now⟩)).disconnect id.text peer).1 = r := by
  have hundo : Function.update r.sessions id.text none = r.sessions := by
    rw [← hfree]
    exact Function.update_eq_self id.text r.sessions
  simp only [SessionRegistry.disconnect, if_neg id.nonempty, SessionRegistry.put_sessions_self,
    ne_eq, not_true_eq_false, if_false]
  simp only [SessionRegistry.put, Function.update_idem, hundo]

/-- A client without a device flag, for every course of the search and every behaviour of the
devices, of which one may be found under several targets: it gets a session from the first target
in the order of the search that answers when its turn comes, and so from one of the best rank
among those not tried before it; it has none only if none answers. No session of anyone is lost,
and a device that no target in reach leads to is left alone. The session is new on its device,
and closing the client takes it out again, which leaves what the attempts before it have left. A
device whose listen address names a port announces that port, and is tried at that port as soon
as one of its responses arrives. -/
theorem client_of_first_answering_device {δ : Type*} [DecidableEq δ]
    {settings : Setting (AnyValue fl)} {port time : ℤ} {mode : LinkMode}
    {interfaces : Option (List Interface)} {turns : List Turn} (h : Searches settings port mode)
    (hends : ∃ turn ∈ turns, turn.continues (time + milliseconds 1500) = false)
    (net : Net δ) (fleet : Fleet δ) :
    (∃ fleet' client, makeClient net settings interfaces (some time) turns fleet [] =
        some (fleet', client) ∧
      (∀ x sid entry, (fleet x).sessions sid = some entry →
        (fleet' x).sessions sid = some entry) ∧
      (∀ x, (∀ d ∈ ranked interfaces (time + milliseconds 1500) turns,
          net.device (targetText d) = x → net.outcome (targetText d) = .unreachable) →
        fleet' x = fleet x) ∧
      ((client = none ∧ NoneAnswers net fleet
          ((ranked interfaces (time + milliseconds 1500) turns).map targetText)) ∨
        ∃ failed d later id peer now earlier,
          ranked interfaces (time + milliseconds 1500) turns = failed ++ d :: later ∧
          NoneAnswers net fleet (failed.map targetText) ∧
          (∀ e ∈ d :: later, addressRank interfaces d ≤ addressRank interfaces e) ∧
          client = some ⟨targetText d, id⟩ ∧
          earlier = contacted net fleet (failed.map targetText) ∧
          (∀ x, (∀ e ∈ failed,
              net.device (targetText e) = x → net.outcome (targetText e) = .unreachable) →
            earlier x = fleet x) ∧
          (earlier (net.device (targetText d))).sessions id.text = none ∧
          fleet' = Function.update earlier (net.device (targetText d))
            ((earlier (net.device (targetText d))).put id.text (some ⟨peer, now⟩)) ∧
          disconnect net true peer fleet' ⟨targetText d, id⟩ = earlier)) ∧
    ∀ {deviceSettings : Setting (AnyValue fl)} {grpcPort : ℕ} {udp : ℤ} {deviceMode : LinkMode},
      NamesPort (listenAddress deviceSettings) grpcPort →
      Searches deviceSettings udp deviceMode →
      ∃ r, announce deviceSettings = some r ∧ r.udpPort = udp ∧ r.linkMode = deviceMode ∧
        ∀ source, (∃ turn ∈ turns.takeWhile (Turn.continues (time + milliseconds 1500)),
            turn.ready = .datagram (some (response r.grpcListenPort)) source) →
          ⟨source.ip, UInt16.ofNat grpcPort⟩ ∈
            ranked interfaces (time + milliseconds 1500) turns := by
  constructor
  · have hne : [] ∉ (ranked interfaces (time + milliseconds 1500) turns).map targetText := by
      intro hmem
      obtain ⟨d, -, hd⟩ := List.mem_map.mp hmem
      exact absurd hd (List.append_ne_nil_of_right_ne_nil _ (List.cons_ne_nil _ _))
    have halone : ∀ {tried : List Address} {x}, (∀ d ∈ tried,
        net.device (targetText d) = x → net.outcome (targetText d) = .unreachable) →
        contacted net fleet (tried.map targetText) x = fleet x := by
      intro tried x htried
      exact contacted_of_unreachable net fleet (List.forall_mem_map.mpr htried)
    rw [makeClient_search h hends net fleet]
    rcases tryTargets_spec net fleet hne with
      ⟨hrun, hnone⟩ | ⟨failed, target, later, id, hsplit, hfailed, hid, hrun⟩
    · rw [hrun]
      exact ⟨_, _, rfl, fun x sid entry => contacted_keeps net _ fleet, fun x => halone,
        Or.inl ⟨rfl, hnone⟩⟩
    · obtain ⟨before, rest, hranked, rfl, hrest⟩ := List.map_eq_append_iff.mp hsplit
      obtain ⟨d, after, rfl, rfl, rfl⟩ := List.map_eq_cons_iff.mp hrest
      obtain ⟨peer, draws, now, hout, hfree, hput⟩ := sessionConnect_some hid
      have hafter : contacted net fleet (before.map targetText ++ [targetText d]) =
          Function.update (contacted net fleet (before.map targetText))
            (net.device (targetText d)) ((contacted net fleet (before.map targetText)
              (net.device (targetText d))).put id.text (some ⟨peer, now⟩)) := by
        rw [contacted_concat, contact, hput]
      rw [hrun]
      refine ⟨_, _, rfl, fun x sid entry => contacted_keeps net _ fleet, fun x hx => ?_,
        Or.inr ⟨before, d, after, id, peer, now, _, hranked, hfailed, ?_, rfl, rfl,
          fun x => halone, hfree, hafter, ?_⟩⟩
      · rw [← List.map_singleton, ← List.map_append]
        refine halone fun e he => hx e ?_
        rw [hranked]
        rcases List.mem_append.mp he with he | he
        · exact List.mem_append_left _ he
        · exact List.mem_append_right _ (List.mem_singleton.mp he ▸ List.mem_cons_self)
      · have hsorted := pairwise_ranked interfaces (time + milliseconds 1500) turns
        rw [hranked] at hsorted
        intro e he
        rcases List.mem_cons.mp he with rfl | he
        · exact Nat.le_refl _
        · exact List.rel_of_pairwise_cons (List.pairwise_append.mp hsorted).2.1 he
      · rw [hafter, disconnect, if_pos rfl, Function.update_self, disconnect_put hfree,
          Function.update_idem, Function.update_eq_self]
  · intro deviceSettings grpcPort udp deviceMode hnames hsettings
    obtain ⟨r, hr, hgrpc, hudp, hmode⟩ := announce_of_namesPort hnames hsettings
    refine ⟨r, hr, hudp, hmode, ?_⟩
    rintro source ⟨turn, hturn, hready⟩
    have hmem : ⟨source.ip, UInt16.ofNat r.grpcListenPort.toNat⟩ ∈
        ranked interfaces (time + milliseconds 1500) turns := mem_ranked_of_response hturn hready
    rwa [hgrpc, Int.toNat_natCast] at hmem

/-- The ids that a device draws. -/
def drawnIds : List SessionId := [⟨"1f2e", by decide⟩, ⟨"2f2e", by decide⟩]

/-- Every target leads to one device. It opens a session under the loopback address, but its reply
is late, and answers under the others. -/
def loopbackLate : Net Unit where
  device _ := ()
  outcome target :=
    if target = "127.0.0.1:50051".toList then .late "ipv4:127.0.0.1:41000" drawnIds 7
    else .answered "ipv4:10.0.0.7:41000" drawnIds 7

/-- Closing the client leaves the session of the late attempt. -/
theorem client_of_first_answering_device_loopbackLate : ∃ fleet' client peer,
    makeClient loopbackLate (Setting.memory ∅ : Setting (AnyValue rationals)) none (some 0)
        twoHosts (fun _ => .make 3000 3000) [] = some (fleet', some client) ∧
      client.sessionId.text = "2f2e" ∧
      ((disconnect loopbackLate true peer fleet' client ()).sessions "1f2e").isSome = true := by
  have hends : ∃ turn ∈ twoHosts, turn.continues (0 + milliseconds 1500) = false := by decide
  have hranked : ranked none (0 + milliseconds 1500) twoHosts =
      [⟨0x7f000001, 50051⟩, ⟨0x0a000005, 50051⟩] := by decide
  have hfound : (tryTargets loopbackLate (fun _ => .make 3000 3000)
      ["127.0.0.1:50051".toList, "10.0.0.5:50051".toList]).2 =
        some ⟨"10.0.0.5:50051".toList, drawnIds.getLast (by decide)⟩ := by decide
  obtain ⟨⟨fleet', client, hmake, -, -, hcases⟩, -⟩ :=
    @client_of_first_answering_device rationals Unit _ _ _ _ _ none _ searches_default hends
      loopbackLate (fun _ => .make 3000 3000)
  have hsame := hmake.symm.trans (@makeClient_search rationals Unit _ _ _ _ _ none _
    searches_default hends loopbackLate (fun _ => .make 3000 3000))
  rw [hranked] at hsame
  obtain rfl : client = _ := (congrArg Prod.snd (Option.some.inj hsame)).trans hfound
  rcases hcases with ⟨hnone, -⟩ | ⟨failed, d, later, id, peer, now, earlier, hsplit, -, -, hclient,
    rfl, -, -, -, hclosed⟩
  · cases hnone
  · refine ⟨fleet', _, peer, hmake, rfl, ?_⟩
    rw [Option.some.inj hclient, hclosed]
    have htarget : targetText d = "10.0.0.5:50051".toList :=
      (congrArg ClientImpl.serverAddress (Option.some.inj hclient)).symm
    rw [hranked] at hsplit
    rcases failed with _ | ⟨a, _ | ⟨b, failed⟩⟩
    · obtain ⟨rfl, -⟩ := List.cons.inj hsplit
      exact absurd htarget (by decide)
    · obtain ⟨rfl, -⟩ := List.cons.inj hsplit
      decide
    · simp at hsplit

end DeviceClient

end Evrp
