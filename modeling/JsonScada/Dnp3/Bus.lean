import JsonScada.Dnp3.Channel
import JsonScada.Dnp3.Fields
import JsonScada.Library.Assoc

-- Connections of one endpoint on one channel.
namespace JsonScada.Dnp3.Channel

open JsonScada.Library
open JsonScada.Library.Fallible
open JsonScada.Library.Grouping (Members)

-- A connection and its place on a channel. The hosts that may connect are the ipAddresses of a
-- passive connection.
structure StationSpec where
  connectionNumber : ℤ
  name : String := ""
  localLinkAddress : ℤ := 1
  remoteLinkAddress : ℤ := 1
  channel : ChannelSpec
  allowedRemoteIPs : List String := []

structure Station where
  localAddr : UInt16
  remoteAddr : UInt16
  master : Bool
deriving DecidableEq

-- A channel with the stations that share it.
structure Bus where
  channel : CountChannel
  turnaround : ℤ
  queue : ℕ
  stations : List Station := []
deriving DecidableEq

structure Group where
  key : String
  spec : ChannelSpec
  bus : Bus
  channels : List (ℤ × Station) := []
  members : List ℤ := []

section Build

-- The upper bound of what may wait for a session, in frames.
def stationQueue : ℕ := 4096

-- No turns are taken on an endpoint that one connection has for itself, a serial line apart.
def turnaroundFor (spec : ChannelSpec) (stations : ℕ) : ℤ :=
  if stations ≤ 1 ∧ !spec.isSharedMedium then -1 else 0

-- The bus of the protocol library refuses a station that it cannot tell from those it has.
structure BusStack extends Stack where
  refuses : List Station → Station → Option String

variable (lib : BusStack) (master : Bool)

def stationOf (s : StationSpec) : Station where
  localAddr := toUInt16 s.localLinkAddress
  remoteAddr := toUInt16 s.remoteLinkAddress
  master := master

def addStation (g : Group) (s : StationSpec) : Except String Group :=
  let station := stationOf master s
  match lib.refuses g.bus.stations station with
  | some err => .error (s.name ++ " - cannot share " ++ s.channel.endpoint ++ ": " ++ err)
  | none =>
      .ok { g with
        bus := { g.bus with stations := g.bus.stations ++ [station] }
        channels := (s.connectionNumber, station) ::
          g.channels.filter fun c => c.1 ≠ s.connectionNumber
        members := g.members ++ [s.connectionNumber] }

-- The channel of a group is that of its lead.
def buildGroup (line : String × Members StationSpec) : Except String Group :=
  let lead := line.2.lead
  match lead.channel.buildChannel lib.toStack lead.allowedRemoteIPs with
  | .error err => .error (lead.name ++ " - error creating channel: " ++ err)
  | .ok ch =>
      line.2.toList.foldlM (addStation lib master) {
        key := line.1
        spec := lead.channel
        bus := {
          channel := ch
          turnaround := turnaroundFor lead.channel line.2.toList.length
          queue := stationQueue } }

def StationSpec.groupKey (s : StationSpec) : String := s.channel.groupKey lib.toUpper

def buildGroups (specs : List StationSpec) : Except String (List Group) :=
  (Grouping.group (StationSpec.groupKey lib) specs).mapM (buildGroup lib master)

end Build

section Built

variable {lib : BusStack} {master : Bool} {specs : List StationSpec} {groups : List Group}

-- A group has the channel of its lead, and all the connections of its key as stations.
structure BuiltGroup (lib : BusStack) (master : Bool) (line : String × Members StationSpec)
    (g : Group) : Prop where
  key : g.key = line.1
  channel : line.2.lead.channel.buildChannel lib.toStack line.2.lead.allowedRemoteIPs =
    .ok g.bus.channel
  stations : g.bus.stations = line.2.toList.map (stationOf master)
  members : g.members = line.2.toList.map (·.connectionNumber)

theorem addStation_eq {g g' : Group} {s : StationSpec} (h : addStation lib master g s = .ok g') :
    g'.key = g.key ∧ g'.bus.channel = g.bus.channel ∧
      g'.bus.stations = g.bus.stations ++ [stationOf master s] ∧
      g'.members = g.members ++ [s.connectionNumber] := by
  rw [addStation] at h
  dsimp only at h
  split at h
  · cases h
  · obtain rfl := Except.ok.inj h
    exact ⟨rfl, rfl, rfl, rfl⟩

theorem builtGroup {line : String × Members StationSpec} {g : Group}
    (h : buildGroup lib master line = .ok g) : BuiltGroup lib master line g := by
  rw [buildGroup] at h
  split at h
  · cases h
  next ch hch =>
    have hadded := foldlM_induction
      (fun done (g : Group) => g.key = line.1 ∧ g.bus.channel = ch ∧
        g.bus.stations = done.map (stationOf master) ∧
        g.members = done.map (·.connectionNumber)) ?_ [] ⟨rfl, rfl, rfl, rfl⟩ h
    · obtain ⟨hkey, hchannel, hstations, hmembers⟩ := hadded
      exact ⟨hkey, hchannel ▸ hch, hstations, hmembers⟩
    · rintro done g s g' ⟨hkey, hchannel, hstations, hmembers⟩ hstep
      obtain ⟨hkey', hchannel', hstations', hmembers'⟩ := addStation_eq hstep
      refine ⟨hkey'.trans hkey, hchannel'.trans hchannel, ?_, ?_⟩
      · rw [hstations', hstations, List.map_append, List.map_singleton]
      · rw [hmembers', hmembers, List.map_append, List.map_singleton]

-- The first connection of an endpoint.
def leadOf (lib : BusStack) (specs : List StationSpec) (s : StationSpec) : Option StationSpec :=
  specs.find? fun t => t.groupKey lib = s.groupKey lib

def Group.Carries (lib : BusStack) (g : Group) (s : StationSpec) : Prop := g.key = s.groupKey lib

-- A group that carries a connection has the channel of the first one of that endpoint.
theorem channel_of_carries (h : buildGroups lib master specs = .ok groups) {g : Group}
    (hg : g ∈ groups) {s : StationSpec} (hs : g.Carries lib s) :
    ∃ lead, leadOf lib specs s = some lead ∧
      lead.channel.buildChannel lib.toStack lead.allowedRemoteIPs = .ok g.bus.channel := by
  obtain ⟨line, hline, hbuilt⟩ := exists_item h g hg
  have hkey : line.1 = s.groupKey lib := (builtGroup hbuilt).key.symm.trans hs
  refine ⟨line.2.lead, ?_, (builtGroup hbuilt).channel⟩
  rw [leadOf, ← hkey]
  exact Grouping.find?_key hline

-- Every connection is carried, as a station of its own.
theorem exists_carries (h : buildGroups lib master specs = .ok groups) {s : StationSpec}
    (hs : s ∈ specs) :
    ∃ g ∈ groups, g.Carries lib s ∧ stationOf master s ∈ g.bus.stations ∧
      s.connectionNumber ∈ g.members := by
  obtain ⟨line, hline, hkey⟩ : ∃ line ∈ Grouping.group (StationSpec.groupKey lib) specs,
      line.1 = s.groupKey lib := Grouping.exists_group hs
  obtain ⟨g, hg, hbuilt⟩ := exists_result h line hline
  have hmem : s ∈ line.2.toList := (Grouping.mem_toList_of_mem_group hline).mpr ⟨hs, hkey.symm⟩
  have hspec := builtGroup hbuilt
  refine ⟨g, hg, hspec.key.trans hkey, ?_, ?_⟩
  · rw [hspec.stations]
    exact List.mem_map_of_mem hmem
  · rw [hspec.members]
    exact List.mem_map_of_mem hmem

end Built

-- Who reaches a connection that shares its endpoint.
section Purpose

-- The texts of the addresses that a peer may have. None has brackets.
structure Net where
  isAddress : String → Prop
  plain : ∀ host, isAddress host → '[' ∉ host.toList ∧ ']' ∉ host.toList

structure Peer (net : Net) where
  address : String
  port : ℕ
  isAddress : net.isAddress address

variable {net : Net}

-- `RemoteAddr` of the connection of a peer.
def Peer.remoteAddr (p : Peer net) : String :=
  String.ofList (joinHostPort p.address.toList (Nat.toDigits 10 p.port))

def CountChannel.Admits (c : CountChannel) (p : Peer net) : Prop :=
  ∃ arrivals, c.connect arrivals = some (some p.remoteAddr)

variable (net) (lib : BusStack) (specs : List StationSpec) (groups : List Group)

-- Sharing an endpoint neither lets in another peer nor changes the certificates of a connection.
structure KeepsAccess : Prop where
  reached : ∀ s ∈ specs, ∀ g ∈ groups, g.Carries lib s → s.channel.isPassive = true →
    ∀ peer : Peer net, g.bus.channel.Admits peer →
      s.allowedRemoteIPs = [] ∨ peer.address ∈ hostsOf s.allowedRemoteIPs
  secured : ∀ s ∈ specs, ∀ g ∈ groups, g.Carries lib s → s.channel.isTLS = true →
    ∃ cfg, s.channel.tlsConfig = .ok cfg ∧ ∀ inner ∈ g.bus.channel.inners, inner.tls = some cfg

-- The first connection of the endpoint lets in whom the other one lets in as well, and has the same
-- certificates.
structure Fits (lead s : StationSpec) : Prop where
  hosts : s.channel.isPassive = true → s.allowedRemoteIPs = [] ∨
    ∀ address, net.isAddress address →
      hostsOf lead.allowedRemoteIPs = [] ∨ address ∈ hostsOf lead.allowedRemoteIPs →
      address ∈ hostsOf s.allowedRemoteIPs
  config : s.channel.isTLS = true → s.channel.tlsConfig = lead.channel.tlsConfig

end Purpose

section Claim

variable {net : Net} {lib : BusStack} {master : Bool} {specs : List StationSpec}
variable {groups : List Group} {c : CountChannel}

theorem splitHostPort_remoteAddr (peer : Peer net) :
    splitHostPort peer.remoteAddr.toList =
      some (peer.address.toList, Nat.toDigits 10 peer.port) := by
  have hdigit (ch : Char) (hch : ch.isDigit = false) : ch ∉ Nat.toDigits 10 peer.port := fun hmem =>
    absurd (Nat.isDigit_of_mem_toDigits (by decide) (by decide) hmem) (by simp [hch])
  rw [Peer.remoteAddr, String.toList_ofList]
  exact splitHostPort_joinHostPort (net.plain _ peer.isAddress)
    ⟨hdigit _ rfl, hdigit _ rfl, hdigit _ rfl⟩

theorem admits_iff_permitted {peer : Peer net} :
    c.Admits peer ↔ c.permitted (some peer.remoteAddr) = true := by
  refine ⟨fun ⟨arrivals, h⟩ => List.find?_some h, fun h => ⟨[some peer.remoteAddr], ?_⟩⟩
  rw [CountChannel.connect, List.find?_cons_of_pos h]

theorem admits_iff {peer : Peer net} {ips : List String} (hallowed : c.allowed = allowedHosts ips) :
    c.Admits peer ↔ hostsOf ips = [] ∨ peer.address ∈ hostsOf ips := by
  rw [admits_iff_permitted, CountChannel.permitted, hallowed, allowedHosts]
  by_cases hnone : hostsOf ips = []
  · rw [if_pos hnone]
    exact iff_of_true rfl (.inl hnone)
  · rw [if_neg hnone]
    dsimp only
    rw [splitHostPort_remoteAddr]
    simp [hnone]

theorem mode_mem_of_isPassive {s : ChannelSpec} (h : s.isPassive = true) : s.mode ∈ modes := by
  rw [ChannelSpec.isPassive, Bool.or_eq_true, decide_eq_true_iff, decide_eq_true_iff] at h
  rcases h with h | h <;> simp [modes, h]

theorem mode_mem_of_isTLS {s : ChannelSpec} (h : s.isTLS = true) : s.mode ∈ modes := by
  rw [ChannelSpec.isTLS, Bool.or_eq_true, decide_eq_true_iff, decide_eq_true_iff] at h
  rcases h with h | h <;> simp [modes, h]

-- The lead of an endpoint is passive, or runs under TLS, when a connection of the endpoint is.
theorem isPassive_lead {lead s : ChannelSpec} {toUpper : String → String} (hlead : lead.mode ∈ modes)
    (hkey : lead.groupKey toUpper = s.groupKey toUpper) (h : s.isPassive = true) :
    lead.isPassive = true := by
  rw [ChannelSpec.isPassive, mode_of_groupKey hlead (mode_mem_of_isPassive h) hkey]
  exact h

theorem isTLS_lead {lead s : ChannelSpec} {toUpper : String → String} (hlead : lead.mode ∈ modes)
    (hkey : lead.groupKey toUpper = s.groupKey toUpper) (h : s.isTLS = true) :
    lead.isTLS = true := by
  rw [ChannelSpec.isTLS, mode_of_groupKey hlead (mode_mem_of_isTLS h) hkey]
  exact h

theorem groupKey_leadOf {lead s : StationSpec} (h : leadOf lib specs s = some lead) :
    lead.groupKey lib = s.groupKey lib := by
  rw [leadOf] at h
  simpa using List.find?_some h

section Carried

variable {lead s : StationSpec} {g : Group}

theorem fits_hosts_iff (hbuilt : Built lead.channel lead.allowedRemoteIPs g.bus.channel)
    (hkey : lead.groupKey lib = s.groupKey lib) (hpassive : s.channel.isPassive = true) :
    (∀ peer : Peer net, g.bus.channel.Admits peer →
        s.allowedRemoteIPs = [] ∨ peer.address ∈ hostsOf s.allowedRemoteIPs) ↔
      (s.allowedRemoteIPs = [] ∨ ∀ address, net.isAddress address →
        hostsOf lead.allowedRemoteIPs = [] ∨ address ∈ hostsOf lead.allowedRemoteIPs →
        address ∈ hostsOf s.allowedRemoteIPs) := by
  have hallowed := hbuilt.filters (isPassive_lead hbuilt.mode hkey hpassive)
  by_cases hown : s.allowedRemoteIPs = []
  · exact iff_of_true (fun _ _ => .inl hown) (.inl hown)
  · rw [or_iff_right hown]
    refine ⟨fun h address haddress hlead => ?_, fun h peer hadmits => .inr ?_⟩
    · exact (h ⟨address, 0, haddress⟩ ((admits_iff hallowed).mpr hlead)).resolve_left hown
    · exact h peer.address peer.isAddress ((admits_iff hallowed).mp hadmits)

theorem fits_config_iff (hbuilt : Built lead.channel lead.allowedRemoteIPs g.bus.channel)
    (hkey : lead.groupKey lib = s.groupKey lib) (htls : s.channel.isTLS = true) :
    (∃ cfg, s.channel.tlsConfig = .ok cfg ∧ ∀ inner ∈ g.bus.channel.inners, inner.tls = some cfg) ↔
      s.channel.tlsConfig = lead.channel.tlsConfig := by
  obtain ⟨cfg, hcfg, hinners⟩ := hbuilt.secures (isTLS_lead hbuilt.mode hkey htls)
  refine ⟨fun ⟨own, hown, hownInners⟩ => ?_, fun h => ⟨cfg, h.trans hcfg, hinners⟩⟩
  obtain ⟨inner, hinner⟩ := List.exists_mem_of_ne_nil _ hbuilt.listens
  rw [hown, hcfg, ← Option.some.inj ((hinners inner hinner).symm.trans (hownInners inner hinner))]

end Carried

-- Access is kept exactly when every connection fits the first one of its endpoint.
theorem keepsAccess_iff (net : Net) (lib : BusStack) (master : Bool) (specs : List StationSpec)
    (groups : List Group) (haccepted : buildGroups lib master specs = .ok groups) :
    KeepsAccess net lib specs groups ↔
      ∀ s ∈ specs, ∀ lead, leadOf lib specs s = some lead → Fits net lead s := by
  constructor
  · intro h s hs lead hlead
    obtain ⟨g, hg, hcarries, -, -⟩ := exists_carries haccepted hs
    obtain ⟨lead', hlead', hchannel⟩ := channel_of_carries haccepted hg hcarries
    obtain rfl := Option.some.inj (hlead.symm.trans hlead')
    have hbuilt := built_of_buildChannel hchannel
    have hkey := groupKey_leadOf hlead
    exact ⟨fun hpassive => (fits_hosts_iff hbuilt hkey hpassive).mp
        (h.reached s hs g hg hcarries hpassive),
      fun htls => (fits_config_iff hbuilt hkey htls).mp (h.secured s hs g hg hcarries htls)⟩
  · intro h
    constructor
    · intro s hs g hg hcarries hpassive
      obtain ⟨lead, hlead, hchannel⟩ := channel_of_carries haccepted hg hcarries
      exact (fits_hosts_iff (built_of_buildChannel hchannel) (groupKey_leadOf hlead) hpassive).mpr
        ((h s hs lead hlead).hosts hpassive)
    · intro s hs g hg hcarries htls
      obtain ⟨lead, hlead, hchannel⟩ := channel_of_carries haccepted hg hcarries
      exact (fits_config_iff (built_of_buildChannel hchannel) (groupKey_leadOf hlead) htls).mpr
        ((h s hs lead hlead).config htls)

end Claim

section Examples

def plainNet : Net where
  isAddress host := '[' ∉ host.toList ∧ ']' ∉ host.toList
  plain _ h := h

-- Masters are told by their remote addresses and outstations by their local ones.
def plainStack : BusStack where
  toUpper text := text
  tlsClient _ _ := none
  tlsServer _ _ := none
  refuses stations station :=
    if stations.any fun t =>
        if station.master then t.remoteAddr = station.remoteAddr
        else t.localAddr = station.localAddr
    then some "the stations cannot be told apart"
    else none

-- Two outstations on one port, with the certificates and the masters of each.
def outstation (number : ℤ) (cert : String) (ips : List String) : StationSpec where
  connectionNumber := number
  localLinkAddress := number
  channel := {
    mode := modeTLSPassive, ipAddressLocalBind := "0.0.0.0:20000", ipAddresses := ips
    localCertFilePath := cert, privateKeyFilePath := cert, peerCertFilePath := cert }
  allowedRemoteIPs := ips

theorem keepsAccess_iff_alone :
    ∃ groups, buildGroups plainStack false [outstation 1 "a.pem" ["10.0.0.2"]] = .ok groups ∧
      (KeepsAccess plainNet plainStack [outstation 1 "a.pem" ["10.0.0.2"]] groups ↔
        ∀ s ∈ [outstation 1 "a.pem" ["10.0.0.2"]], ∀ lead,
          leadOf plainStack [outstation 1 "a.pem" ["10.0.0.2"]] s = some lead →
            Fits plainNet lead s) := by
  obtain ⟨groups, hgroups⟩ : ∃ groups,
      buildGroups plainStack false [outstation 1 "a.pem" ["10.0.0.2"]] = .ok groups :=
    ok_of_isOk (by decide)
  exact ⟨groups, hgroups, keepsAccess_iff plainNet plainStack false _ groups hgroups⟩

def sharedEndpoint : List StationSpec :=
  [outstation 1 "a.pem" [], outstation 2 "b.pem" ["10.0.0.2"]]

-- The second outstation of the port is reached by the masters of the first one.
theorem sharedEndpoint_reached :
    ∃ groups, buildGroups plainStack false sharedEndpoint = .ok groups ∧
      (∃ g ∈ groups, g.Carries plainStack (outstation 2 "b.pem" ["10.0.0.2"]) ∧
        ∃ peer : Peer plainNet, peer.address = "192.168.0.9" ∧ g.bus.channel.Admits peer) ∧
      ¬KeepsAccess plainNet plainStack sharedEndpoint groups := by
  obtain ⟨groups, hgroups⟩ : ∃ groups, buildGroups plainStack false sharedEndpoint = .ok groups :=
    ok_of_isOk (by decide)
  have hmem : outstation 2 "b.pem" ["10.0.0.2"] ∈ sharedEndpoint := by simp [sharedEndpoint]
  have hlead : leadOf plainStack sharedEndpoint (outstation 2 "b.pem" ["10.0.0.2"]) =
      some (outstation 1 "a.pem" []) := by
    rw [leadOf, sharedEndpoint, List.find?_cons_of_pos]
    decide
  obtain ⟨g, hg, hcarries, -, -⟩ := exists_carries hgroups hmem
  obtain ⟨lead, hlead', hchannel⟩ := channel_of_carries hgroups hg hcarries
  obtain rfl := Option.some.inj (hlead.symm.trans hlead')
  let peer : Peer plainNet := ⟨"192.168.0.9", 50000, by decide, by decide⟩
  have hadmits : g.bus.channel.Admits peer :=
    (admits_iff ((built_of_buildChannel hchannel).filters rfl)).mpr (.inl rfl)
  refine ⟨groups, hgroups, ⟨g, hg, hcarries, peer, rfl, hadmits⟩, fun h => ?_⟩
  rcases h.reached _ hmem g hg hcarries rfl peer hadmits with hnone | hown
  · cases hnone
  · exact absurd hown (by decide)

end Examples

end JsonScada.Dnp3.Channel
