import JsonScada.Library.Decimal
import JsonScada.Library.Outcome
import JsonScada.Processor.HandleChange

-- Addresses of hosts with a port, as both DNP3 drivers read and write them.
namespace JsonScada.Dnp3

open JsonScada.Library

section Net

-- `net.SplitHostPort`: the port follows the last colon, and a host with colons is in brackets.
def splitHostPort (hostport : List Char) : Option (List Char × List Char) :=
  let port := (hostport.reverse.takeWhile (· ≠ ':')).reverse
  let before := hostport.take (hostport.length - port.length - 1)
  if ':' ∉ hostport then none
  else if hostport.head? = some '[' then
    let host := hostport.tail.takeWhile (· ≠ ']')
    -- the first ']' stands right before the last colon
    if before ≠ '[' :: host ++ [']'] then none
    else if '[' ∈ host ++ port ∨ ']' ∈ port then none
    else some (host, port)
  else if ':' ∈ before then none
  else if '[' ∈ hostport ∨ ']' ∈ hostport then none
  else some (before, port)

-- `net.JoinHostPort`
def joinHostPort (host port : List Char) : List Char :=
  if ':' ∈ host then '[' :: host ++ ']' :: ':' :: port else host ++ ':' :: port

-- `strconv.Atoi`
def atoi (s : List Char) : Option ℤ :=
  let (negative, digits) :=
    match s with
    | '-' :: digits => (true, digits)
    | '+' :: digits => (false, digits)
    | _ => (false, s)
  match Strconv.parseUint digits with
  | some n =>
      if negative then if n ≤ 2 ^ 63 then some (-n) else none
      else if n < 2 ^ 63 then some n else none
  | none => none

end Net

section Endpoint

def defaultDNP3Port : ℤ := 20000

def parseEndpoint (text defaultHost : String) : String × ℤ :=
  let text := Processor.trim Processor.isSpace text.toList
  if text = [] then (defaultHost, defaultDNP3Port)
  else
    match splitHostPort text with
    | some (host, port) =>
        match atoi port with
        | some n => (if host = [] then defaultHost else String.ofList host, n)
        | none => (String.ofList text, defaultDNP3Port)
    | none => (String.ofList text, defaultDNP3Port)

def normalizeEndpoint (text defaultHost : String) : String :=
  let (host, port) := parseEndpoint text defaultHost
  String.ofList (joinHostPort host.toList (toString port).toList)

-- The host alone.
def hostOf (text defaultHost : String) : String := (parseEndpoint text defaultHost).1

example : normalizeEndpoint ":20000" "0.0.0.0" = normalizeEndpoint "0.0.0.0" "0.0.0.0" := by
  decide

example : hostOf "[fe80::1]:20001" "" = "fe80::1" := by decide

end Endpoint

section RoundTrip

variable {host port : List Char}

theorem takeWhile_ne_append {c : Char} {front back : List Char} (h : c ∉ front) :
    (front ++ c :: back).takeWhile (· ≠ c) = front := by
  induction front with
  | nil => simp
  | cons d front ih =>
      obtain ⟨hd, hfront⟩ := not_or.mp (List.mem_cons.not.mp h)
      rw [List.cons_append, List.takeWhile_cons, if_pos (by simpa using Ne.symm hd), ih hfront]

-- What follows the last colon.
theorem port_eq {front : List Char} (h : ':' ∉ port) :
    ((front ++ ':' :: port).reverse.takeWhile (· ≠ ':')).reverse = port := by
  rw [List.reverse_append, List.reverse_cons, List.append_assoc, List.singleton_append,
    takeWhile_ne_append (by simpa using h), List.reverse_reverse]

theorem before_eq {front : List Char} :
    (front ++ ':' :: port).take ((front ++ ':' :: port).length - port.length - 1) = front := by
  have hlength : (front ++ ':' :: port).length - port.length - 1 = front.length := by
    rw [List.length_append, List.length_cons]
    omega
  rw [hlength, List.take_left]

theorem splitHostPort_bracketed (hhost : '[' ∉ host ∧ ']' ∉ host)
    (hport : ':' ∉ port ∧ '[' ∉ port ∧ ']' ∉ port) :
    splitHostPort ('[' :: host ++ ']' :: ':' :: port) = some (host, port) := by
  have hshape : '[' :: host ++ ']' :: ':' :: port = ('[' :: host ++ [']']) ++ ':' :: port := by simp
  have hcolon : ':' ∈ '[' :: host ++ ']' :: ':' :: port := by simp
  have hinside : ('[' :: host ++ ']' :: ':' :: port).tail.takeWhile (· ≠ ']') = host :=
    takeWhile_ne_append hhost.2
  have hafter : (('[' :: host ++ ']' :: ':' :: port).reverse.takeWhile (· ≠ ':')).reverse = port := by
    rw [hshape]
    exact port_eq hport.1
  have hbefore : ('[' :: host ++ ']' :: ':' :: port).take
      (('[' :: host ++ ']' :: ':' :: port).length - port.length - 1) = '[' :: host ++ [']'] := by
    rw [hshape]
    exact before_eq
  have hhead : ('[' :: host ++ ']' :: ':' :: port).head? = some '[' := rfl
  have hbrackets : ¬('[' ∈ host ++ port ∨ ']' ∈ port) := by simp [hhost.1, hport.2.1, hport.2.2]
  unfold splitHostPort
  dsimp only
  rw [if_neg (not_not.mpr hcolon), if_pos hhead, hinside, hafter, hbefore, if_neg (not_not.mpr rfl),
    if_neg hbrackets]

theorem splitHostPort_plain (hhost : '[' ∉ host ∧ ']' ∉ host) (hcolon : ':' ∉ host)
    (hport : ':' ∉ port ∧ '[' ∉ port ∧ ']' ∉ port) :
    splitHostPort (host ++ ':' :: port) = some (host, port) := by
  have hmem : ':' ∈ host ++ ':' :: port := by simp
  have hplain : ¬('[' ∈ host ++ ':' :: port ∨ ']' ∈ host ++ ':' :: port) := by
    simp [hhost.1, hhost.2, hport.2.1, hport.2.2]
  have hhead : (host ++ ':' :: port).head? ≠ some '[' := fun hhead =>
    hplain (.inl (List.mem_of_head? hhead))
  unfold splitHostPort
  dsimp only
  rw [if_neg (not_not.mpr hmem), if_neg hhead, port_eq hport.1, before_eq, if_neg hcolon,
    if_neg hplain]

-- Splitting takes apart what joining has put together.
theorem splitHostPort_joinHostPort (hhost : '[' ∉ host ∧ ']' ∉ host)
    (hport : ':' ∉ port ∧ '[' ∉ port ∧ ']' ∉ port) :
    splitHostPort (joinHostPort host port) = some (host, port) := by
  rw [joinHostPort]
  split_ifs with hcolon
  · exact splitHostPort_bracketed hhost hport
  · exact splitHostPort_plain hhost hcolon hport

end RoundTrip

end JsonScada.Dnp3

-- The physical channel of a connection.
namespace JsonScada.Dnp3.Channel

open JsonScada.Library.Fallible

section Spec

def modeTCPActive : String := "TCP ACTIVE"
def modeTCPPassive : String := "TCP PASSIVE"
def modeTLSActive : String := "TLS ACTIVE"
def modeTLSPassive : String := "TLS PASSIVE"
def modeSerial : String := "SERIAL"
def modeUDP : String := "UDP"

def modes : List String :=
  [modeTCPActive, modeTCPPassive, modeTLSActive, modeTLSPassive, modeSerial, modeUDP]

-- Everything about a connection that decides its channel.
structure ChannelSpec where
  name : String := ""
  mode : String
  ipAddresses : List String := []
  ipAddressLocalBind : String := ""
  portName : String := ""
  baudRate : ℤ := 9600
  parity : String := "NONE"
  stopBits : String := "ONE"
  asyncOpenDelayMs : ℤ := 0
  localCertFilePath : String := ""
  peerCertFilePath : String := ""
  privateKeyFilePath : String := ""
  allowTLSv12 : Bool := true
  allowTLSv13 : Bool := true

variable (s : ChannelSpec)

def ChannelSpec.isPassive : Bool := s.mode = modeTCPPassive || s.mode = modeTLSPassive

def ChannelSpec.isTLS : Bool := s.mode = modeTLSActive || s.mode = modeTLSPassive

def ChannelSpec.isSharedMedium : Bool := s.mode = modeSerial

def ChannelSpec.normalizedRemotes : List String := s.ipAddresses.map (normalizeEndpoint · "")

def ChannelSpec.localBind : String := normalizeEndpoint s.ipAddressLocalBind "0.0.0.0"

-- Connections of equal keys share a channel. The upper case is that of `strings.ToUpper`.
def ChannelSpec.groupKey (toUpper : String → String) : String :=
  s.mode ++ "|" ++
    if s.mode = modeTCPActive ∨ s.mode = modeTLSActive then
      String.intercalate "," s.normalizedRemotes
    else if s.mode = modeTCPPassive ∨ s.mode = modeTLSPassive then s.localBind
    else if s.mode = modeSerial then toUpper s.portName
    else if s.mode = modeUDP then s.localBind ++ "|" ++ String.intercalate "," s.normalizedRemotes
    else s.name

-- The channel in a log line.
def ChannelSpec.endpoint : String :=
  if s.mode = modeSerial then s.portName
  else if s.mode = modeTCPActive ∨ s.mode = modeTLSActive then
    match s.ipAddresses with
    | first :: _ => normalizeEndpoint first ""
    | [] => "?"
  else s.localBind

end Spec

section Config

inductive TLSVersion where
  | tls12 | tls13
deriving DecidableEq

structure TLSConfig where
  certFile : String
  keyFile : String
  caFile : String
  minVersion : TLSVersion
deriving DecidableEq

inductive Parity where
  | none | odd | even
deriving DecidableEq

inductive StopBits where
  | one | onePointFive | two
deriving DecidableEq

structure SerialConfig where
  device : String
  baud : ℤ
  dataBits : ℤ
  parity : Parity
  stopBits : StopBits
  readTimeoutMs : ℤ
deriving DecidableEq

variable (s : ChannelSpec)

-- The lowest version is 1.2, and 1.3 when it alone is allowed.
def ChannelSpec.tlsConfig : Except String TLSConfig :=
  if s.localCertFilePath = "" then .error "missing localCertFilePath parameter"
  else if s.privateKeyFilePath = "" then .error "missing privateKeyFilePath parameter"
  else
    .ok {
      certFile := s.localCertFilePath
      keyFile := s.privateKeyFilePath
      caFile := s.peerCertFilePath
      minVersion := if !s.allowTLSv12 && s.allowTLSv13 then .tls13 else .tls12 }

def ChannelSpec.serialConfig (toUpper : String → String) : SerialConfig where
  device := s.portName
  baud := s.baudRate
  dataBits := 8
  parity :=
    if toUpper s.parity = "EVEN" then .even
    else if toUpper s.parity = "ODD" then .odd
    else .none
  stopBits :=
    if toUpper s.stopBits ∈ ["TWO", "2"] then .two
    else if toUpper s.stopBits ∈ ["ONE5", "ONE.FIVE", "1.5"] then .onePointFive
    else .one
  readTimeoutMs := 1000

end Config

section Filter

-- A channel of the protocol library.
inductive Inner where
  | tcpClient (address : String)
  | tcpServer (address : String)
  | tlsClient (address : String) (config : TLSConfig)
  | tlsServer (address : String) (config : TLSConfig)
  | serialChannel (config : SerialConfig)
  | udpChannel (localAddr remoteAddr : String)
deriving DecidableEq

def Inner.tls : Inner → Option TLSConfig
  | tlsClient _ config => some config
  | tlsServer _ config => some config
  | _ => none

-- The wait between the attempts to connect, in milliseconds. Without one a channel tries once.
structure Retry where
  min : ℤ := 0
  max : ℤ := 0
  factor : ℚ := 0
  jitter : ℚ := 0
deriving DecidableEq

def defaultRetry : Retry := { min := 500, max := 60000, factor := 2, jitter := 1 / 5 }

structure CountOptions where
  name : String
  allowedRemoteIPs : List String := []
  openDelayMs : ℤ := 0
  retry : Retry := {}
deriving DecidableEq

-- The channel of a line, with the hosts that may connect to it when not every one may.
structure CountChannel where
  inners : List Inner
  opts : CountOptions
  allowed : Option (List String)
deriving DecidableEq

def hostsOf (ips : List String) : List String := (ips.map (hostOf · "")).filter (· ≠ "")

-- Of an address only the host counts. A list without any host is no filter.
def allowedHosts (ips : List String) : Option (List String) :=
  if hostsOf ips = [] then none else some (hostsOf ips)

def wrapCountingAll (inners : List Inner) (opts : CountOptions) : CountChannel where
  inners := inners
  opts := opts
  allowed := allowedHosts opts.allowedRemoteIPs

variable (c : CountChannel)

-- A connection is told by the address of its peer. One without an address, as the pipe of a test,
-- may always pass.
def CountChannel.permitted : Option String → Bool
  | none => true
  | some addr =>
      match c.allowed with
      | none => true
      | some hosts =>
          match splitHostPort addr.toList with
          | some (host, _) => String.ofList host ∈ hosts
          | none => addr ∈ hosts

-- `Connect` of a passive channel: who may not pass is closed, and the next one is waited for.
def CountChannel.connect (arrivals : List (Option String)) : Option (Option String) :=
  arrivals.find? c.permitted

end Filter

section Build

-- What is used of the protocol library and of the Go library: the loading of the certificates,
-- which may fail, and the upper case.
structure Stack where
  toUpper : String → String
  tlsClient : String → TLSConfig → Option String
  tlsServer : String → TLSConfig → Option String

variable (lib : Stack) (s : ChannelSpec)

-- An active connection may dial every address that is not blank.
def ChannelSpec.remoteEndpoints : Except String (List String) :=
  let remotes := s.ipAddresses.filter fun a => Processor.trim Processor.isSpace a.toList ≠ []
  if remotes = [] then .error "invalid list of ipAddresses parameter"
  else .ok (remotes.map (normalizeEndpoint · ""))

def ChannelSpec.tlsClients (remotes : List String) (cfg : TLSConfig) : Except String (List Inner) :=
  match remotes.findSome? fun addr => lib.tlsClient addr cfg with
  | some err => .error err
  | none => .ok (remotes.map (.tlsClient · cfg))

def ChannelSpec.tlsListener (cfg : TLSConfig) : Except String (List Inner) :=
  match lib.tlsServer s.localBind cfg with
  | some err => .error err
  | none => .ok [.tlsServer s.localBind cfg]

def ChannelSpec.udp : Except String (List Inner) :=
  if s.ipAddressLocalBind = "" then .error "missing ipAddressLocalBind parameter"
  else
    match s.ipAddresses with
    | [] => .error "invalid list of ipAddresses parameter"
    | first :: _ =>
        if Processor.trim Processor.isSpace first.toList = [] then
          .error "invalid list of ipAddresses parameter"
        else .ok [.udpChannel s.localBind (normalizeEndpoint first "")]

def ChannelSpec.inners : Except String (List Inner) :=
  if s.mode = modeTCPActive then s.remoteEndpoints.map fun remotes => remotes.map .tcpClient
  else if s.mode = modeTCPPassive then .ok [.tcpServer s.localBind]
  else if s.mode = modeTLSActive then
    s.remoteEndpoints.bind fun remotes => s.tlsConfig.bind (tlsClients lib remotes)
  else if s.mode = modeTLSPassive then s.tlsConfig.bind (s.tlsListener lib)
  else if s.mode = modeSerial then
    if s.portName = "" then .error "missing portName parameter"
    else .ok [.serialChannel (s.serialConfig lib.toUpper)]
  else if s.mode = modeUDP then s.udp
  else .error ("unsupported connectionMode: " ++ s.mode)

def ChannelSpec.buildChannel (allowedRemoteIPs : List String) : Except String CountChannel :=
  (s.inners lib).map fun inners =>
    wrapCountingAll inners {
      name := s.name
      allowedRemoteIPs := if s.isPassive then allowedRemoteIPs else []
      retry := if s.isPassive then {} else defaultRetry
      openDelayMs := if s.mode = modeSerial ∧ 0 < s.asyncOpenDelayMs then s.asyncOpenDelayMs else 0 }

end Build

section Built

variable {lib : Stack} {s : ChannelSpec} {ips : List String} {inners : List Inner}

-- What the spec of an accepted channel has decided.
structure Built (s : ChannelSpec) (ips : List String) (c : CountChannel) : Prop where
  mode : s.mode ∈ modes
  filters : s.isPassive = true → c.allowed = allowedHosts ips
  listens : c.inners ≠ []
  secures : s.isTLS = true →
    ∃ cfg, s.tlsConfig = .ok cfg ∧ ∀ inner ∈ c.inners, inner.tls = some cfg

theorem remoteEndpoints_ne_nil {remotes : List String} (h : s.remoteEndpoints = .ok remotes) :
    remotes ≠ [] := by
  rw [ChannelSpec.remoteEndpoints] at h
  split_ifs at h with hnone
  obtain rfl := Except.ok.inj h
  simpa using hnone

theorem tls_of_tlsClients {remotes : List String} {cfg : TLSConfig}
    (h : ChannelSpec.tlsClients lib remotes cfg = .ok inners) :
    inners = remotes.map (.tlsClient · cfg) := by
  rw [ChannelSpec.tlsClients] at h
  split at h
  · cases h
  · exact (Except.ok.inj h).symm

theorem tls_of_tlsListener {cfg : TLSConfig} (h : s.tlsListener lib cfg = .ok inners) :
    inners = [.tlsServer s.localBind cfg] := by
  rw [ChannelSpec.tlsListener] at h
  split at h
  · cases h
  · exact (Except.ok.inj h).symm

theorem isTLS_of_mode {mode : String} (hmode : s.mode = mode)
    (hne : mode ≠ modeTLSActive ∧ mode ≠ modeTLSPassive) : s.isTLS = false := by
  simp [ChannelSpec.isTLS, hmode, hne.1, hne.2]

-- The modes one by one: each but the two of TLS runs without a configuration.
theorem inners_spec (h : s.inners lib = .ok inners) :
    s.mode ∈ modes ∧ inners ≠ [] ∧
      (s.isTLS = true → ∃ cfg, s.tlsConfig = .ok cfg ∧ ∀ inner ∈ inners, inner.tls = some cfg) := by
  have hplain {mode : String} (hmode : s.mode = mode)
      (hne : mode ≠ modeTLSActive ∧ mode ≠ modeTLSPassive) (htls : s.isTLS = true) :
      ∃ cfg, s.tlsConfig = .ok cfg ∧ ∀ inner ∈ inners, inner.tls = some cfg := by
    rw [isTLS_of_mode hmode hne] at htls
    cases htls
  rw [ChannelSpec.inners] at h
  split_ifs at h with hactive hpassive htls htlsPassive hserial hport hudp
  · obtain ⟨remotes, hremotes, rfl⟩ := ok_of_map h
    exact ⟨by simp [modes, hactive], by simpa using remoteEndpoints_ne_nil hremotes,
      hplain hactive (by decide)⟩
  · obtain rfl := Except.ok.inj h
    exact ⟨by simp [modes, hpassive], by simp, hplain hpassive (by decide)⟩
  · obtain ⟨remotes, hremotes, hconfig⟩ := ok_of_bind h
    obtain ⟨cfg, hcfg, hclients⟩ := ok_of_bind hconfig
    obtain rfl := tls_of_tlsClients hclients
    refine ⟨by simp [modes, htls], by simpa using remoteEndpoints_ne_nil hremotes,
      fun _ => ⟨cfg, hcfg, fun inner hinner => ?_⟩⟩
    obtain ⟨addr, -, rfl⟩ := List.mem_map.mp hinner
    rfl
  · obtain ⟨cfg, hcfg, hlistener⟩ := ok_of_bind h
    obtain rfl := tls_of_tlsListener hlistener
    refine ⟨by simp [modes, htlsPassive], by simp, fun _ => ⟨cfg, hcfg, fun inner hinner => ?_⟩⟩
    obtain rfl := List.mem_singleton.mp hinner
    rfl
  · obtain rfl := Except.ok.inj h
    exact ⟨by simp [modes, hserial], by simp, hplain hserial (by decide)⟩
  · refine ⟨by simp [modes, hudp], ?_, hplain hudp (by decide)⟩
    rintro rfl
    rw [ChannelSpec.udp] at h
    split_ifs at h
    split at h
    · cases h
    · split_ifs at h
      cases h

theorem built_of_buildChannel {c : CountChannel} (h : s.buildChannel lib ips = .ok c) :
    Built s ips c := by
  obtain ⟨inners, hinners, rfl⟩ := ok_of_map h
  obtain ⟨hmode, hne, htls⟩ := inners_spec hinners
  refine ⟨hmode, fun hpassive => ?_, hne, htls⟩
  rw [wrapCountingAll]
  dsimp only
  rw [if_pos hpassive]

end Built

section Key

variable {s t : ChannelSpec} {toUpper : String → String}

theorem takeWhile_groupKey (hmode : s.mode ∈ modes) :
    (s.groupKey toUpper).toList.takeWhile (· ≠ '|') = s.mode.toList := by
  have hbar : ∀ mode ∈ modes, '|' ∉ mode.toList := by decide
  rw [ChannelSpec.groupKey, String.toList_append, String.toList_append, List.append_assoc]
  exact takeWhile_ne_append (hbar s.mode hmode)

-- Channels of one key are of one mode.
theorem mode_of_groupKey (hs : s.mode ∈ modes) (ht : t.mode ∈ modes)
    (hkey : s.groupKey toUpper = t.groupKey toUpper) : s.mode = t.mode := by
  have hmode : (s.groupKey toUpper).toList.takeWhile (· ≠ '|') = s.mode.toList :=
    takeWhile_groupKey hs
  rw [hkey, takeWhile_groupKey ht] at hmode
  exact (String.toList_inj.mp hmode).symm

end Key

end JsonScada.Dnp3.Channel
