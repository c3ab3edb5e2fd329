import MrBig.Source.ClientlogModules

/-!
# The table of connections

clientlog/winports.c. The tables are those of GetExtendedTcpTable and GetExtendedUdpTable, with
the fields that are read; a text is what the buffer it is printed to holds.
-/

set_option autoImplicit false

namespace MrBig.Source.Winports

/-! ### winports_PrettyIPv6 -/

/-- `BYTE *b`, sixteen of them. -/
abbrev Address6 := Vector UInt8 16

/-- `UINT16 group[8]`. -/
abbrev Groups := Vector UInt16 8

/-- `group[i] = ((UINT16)b1 << 8) + b2`. -/
def groups (b : Address6) : Groups :=
  Vector.ofFn fun i =>
    (b[15 - 2 * i.val].toUInt16 <<< 8) + b[14 - 2 * i.val].toUInt16

/-- largestZeroClusterIx and largestZeroClusterLen. -/
structure Cluster where
  ix : Nat
  len : Nat
  deriving DecidableEq, Repr

/-- `if (len > largestZeroClusterLen)`. -/
def Cluster.larger (largest : Cluster) (curr len : Nat) : Cluster :=
  if len > largest.len then ⟨curr, len⟩ else largest

/-- `len` behind the inner loop, where `curr` is `i`. -/
def clusterLen (group : Groups) (i : Nat) : Nat :=
  if h : i + 1 < 8 then
    if group[i + 1] = 0 then clusterLen group (i + 1) + 1 else 1
  else 1
termination_by 8 - i

/-- The outer loop. The inner one leaves `i` behind the cluster. -/
def largestZeroCluster (group : Groups) (i : Nat) (largest : Cluster) : Cluster :=
  if h : i < 8 then
    if group[i] = 0 then
      let len := clusterLen group i
      largestZeroCluster group (i + len + 1) (largest.larger i len)
    else largestZeroCluster group (i + 1) largest
  else largest
termination_by 8 - i

/-- `%x`. -/
def printHex (n : UInt16) : Text := Nat.toDigits 16 n.toNat

/-- The loops that print groups, from `group[i]` on: a colon behind each but the last. -/
def printGroups (last : Nat) : Nat → List UInt16 → Text
  | _, [] => []
  | i, group :: rest =>
    printHex group ++ (if i ≠ last then [':'] else []) ++ printGroups last (i + 1) rest

/-- The groups but the cluster. -/
def printAround (group : Groups) (ix len : Nat) : Text :=
  printGroups (ix - 1) 0 (group.toList.take ix) ++ (if len > 0 then "::".toList else []) ++
    printGroups 7 (ix + len) (group.toList.drop (ix + len))

/-- What is printed for the groups. -/
def prettyGroups (group : Groups) : Text :=
  let largest := largestZeroCluster group 0 ⟨0, 0⟩
  let ix := if largest.len = 0 then 8 else largest.ix
  ['['] ++ printAround group ix largest.len ++ [']']

/-- winports_PrettyIPv6. -/
def prettyIPv6 (b : Address6) : Text := prettyGroups (groups b)

/-! ### The rows -/

/-- winports_Protocol. -/
inductive Protocol where
  | TCP
  | UDP
  deriving DecidableEq, Repr

/-- winports_IpVersion. -/
inductive IpVersion where
  | IPv4
  | IPv6
  deriving DecidableEq, Repr

/-- A DWORD in network byte order, or sixteen bytes. -/
def Address : IpVersion → Type
  | .IPv4 => UInt32
  | .IPv6 => Address6

instance (af : IpVersion) : DecidableEq (Address af) :=
  match af with
  | .IPv4 => inferInstanceAs (DecidableEq UInt32)
  | .IPv6 => inferInstanceAs (DecidableEq Address6)

/-- MIB_TCPROW_OWNER_PID and MIB_TCP6ROW_OWNER_PID. -/
structure TcpRow (af : IpVersion) where
  state : UInt32
  localAddr : Address af
  localPort : UInt32
  remoteAddr : Address af
  remotePort : UInt32
  owningPid : UInt32

/-- MIB_UDPROW_OWNER_PID and MIB_UDP6ROW_OWNER_PID. -/
structure UdpRow (af : IpVersion) where
  localAddr : Address af
  localPort : UInt32
  owningPid : UInt32

def Row (af : IpVersion) : Protocol → Type
  | .TCP => TcpRow af
  | .UDP => UdpRow af

/-- winports_ConnectionTable, with what it is a table of. -/
structure ConnectionTable where
  af : IpVersion
  proto : Protocol
  table : List (Row af proto)

/-- winports_Record. -/
structure Record where
  localAddress : Text
  remoteAddress : Text
  localPort : Nat
  remotePort : Nat
  state : Nat
  pid : Nat
  deriving DecidableEq, Repr

/-- `%u` and `%lu`. -/
def printUnsigned (n : Nat) : Text := Nat.toDigits 10 n

/-- inet_ntoa: the bytes in memory order, which is the order of the network. -/
def inetNtoa (addr : UInt32) : Text :=
  let byte (i : Nat) := printUnsigned (addr.toNat / 256 ^ i % 256)
  byte 0 ++ '.' :: (byte 1 ++ '.' :: (byte 2 ++ '.' :: byte 3))

/-- ntohs of the low half. -/
def ntohs (port : UInt32) : Nat := port.toNat % 256 * 256 + port.toNat / 256 % 256

def prettyAddress : (af : IpVersion) → Address af → Text
  | .IPv4, addr => inetNtoa addr
  | .IPv6, addr => prettyIPv6 addr

/-- winports_GetRow. What it does not fill in stays as it is. -/
def getRow {af : IpVersion} {proto : Protocol} (row : Row af proto) (out : Record) : Record :=
  match proto, row with
  | .TCP, row =>
    { localAddress := prettyAddress af row.localAddr
      localPort := ntohs row.localPort
      remoteAddress := prettyAddress af row.remoteAddr
      remotePort := ntohs row.remotePort
      state := row.state.toNat
      pid := row.owningPid.toNat }
  | .UDP, row =>
    { out with
      localAddress := prettyAddress af row.localAddr
      localPort := ntohs row.localPort
      remoteAddress := "*:*".toList
      state := 99
      pid := row.owningPid.toNat }

/-! ### winports_AppendConnections -/

/-- MAX_PORT_ENTRIES. -/
def maxPortEntries : Nat := 5000

/-- SIMILAR_ENTRIES_MAX_NUM. -/
def similarEntriesMaxNum : Nat := 20

/-- winports_PrettyPortState. -/
def prettyPortState : Nat → Text
  | 1 => "CLOSED".toList
  | 2 => "LISTENING".toList
  | 3 => "SYN_SENT".toList
  | 4 => "SYN_RECEIVED".toList
  | 5 => "ESTABLISHED".toList
  | 6 => "FIN_WAIT1".toList
  | 7 => "FIN_WAIT2".toList
  | 8 => "CLOSE_WAIT".toList
  | 9 => "CLOSING".toList
  | 10 => "LAST_ACK".toList
  | 11 => "TIME_WAIT".toList
  | 12 => "DELETE_TCB".toList
  | _ => "(Unknown)".toList

def protocolName : Protocol → Text
  | .TCP => "TCP".toList
  | .UDP => "UDP".toList

def versionName : IpVersion → Text
  | .IPv4 => "IPv4".toList
  | .IPv6 => "IPv6".toList

def addressPort (address : Text) (port : Nat) : Text :=
  (address ++ ':' :: printUnsigned port).take 73

/-- A row, behind its newline. -/
def rowLine (proto : Protocol) (r : Record) : Text :=
  let remote := match proto with
    | .TCP => addressPort r.remoteAddress r.remotePort
    | .UDP => r.remoteAddress.take 63
  let state := match proto with
    | .TCP => prettyPortState r.state
    | .UDP => []
  List.rightpad 7 ' ' (protocolName proto) ++ '\t' ::
    List.rightpad 39 ' ' (addressPort r.localAddress r.localPort) ++ '\t' ::
    List.rightpad 39 ' ' remote ++ '\t' :: List.rightpad 15 ' ' state ++ '\t' ::
    List.leftpad 7 ' ' (printUnsigned r.pid)

/-- SKIPPING_FMT, behind its newline. -/
def skippingLine (address : Text) (pid more port : Nat) : Text :=
  "\t...IP ".toList ++ address ++ " and PID ".toList ++ printUnsigned pid ++
    " spans above ".toList ++ printUnsigned similarEntriesMaxNum ++ " entries, and ".toList ++
    printUnsigned more ++ " more with highest local port ".toList ++ printUnsigned port

/-- The line for the rows behind MAX_PORT_ENTRIES, behind its newline. -/
def moreLine (af : IpVersion) (proto : Protocol) (more : Nat) : Text :=
  "(+ ".toList ++ printUnsigned more ++ " more ".toList ++ protocolName proto ++
    ' ' :: versionName af ++ " entries)".toList

/-- The variables of the loop, and the lines appended. -/
structure Listing where
  r : Record
  rPrev : Record
  skipping : Bool
  range : Nat
  lines : List Text

def startListing : Listing where
  r := ⟨[], [], 0, 0, 0, 0⟩
  rPrev := ⟨[], [], 0, 0, 0, 0⟩
  skipping := false
  range := 1
  lines := []

/-- The line for what was skipped, if anything. -/
def skipped (skipping : Bool) (rPrev : Record) (range : Nat) : List Text :=
  if skipping then
    [skippingLine rPrev.localAddress rPrev.pid (range - similarEntriesMaxNum) rPrev.localPort]
  else []

/-- The body of the loop. `r` and `rPrev` are swapped before the row is read. -/
def appendConnection {af : IpVersion} {proto : Protocol} (s : Listing) (row : Row af proto) :
    Listing :=
  let r := getRow row s.rPrev
  let rPrev := s.r
  if r.pid = rPrev.pid ∧ r.localAddress = rPrev.localAddress then
    let range := s.range + 1
    let skipping := s.skipping || decide (range > similarEntriesMaxNum)
    { r, rPrev, skipping, range
      lines := s.lines ++ if skipping then [] else [rowLine proto r] }
  else
    { r, rPrev
      skipping := false
      range := 1
      lines := s.lines ++ skipped s.skipping rPrev s.range ++ [rowLine proto r] }

/-- winports_AppendConnections: the lines, each behind its newline. -/
def connectionLines (connections : ConnectionTable) : List Text :=
  let numEntries := min connections.table.length maxPortEntries
  let s := (connections.table.take numEntries).foldl appendConnection startListing
  s.lines ++ skipped s.skipping s.rPrev s.range ++
    if connections.table.length > maxPortEntries then
      [moreLine connections.af connections.proto (connections.table.length - maxPortEntries)]
    else []

/-- What the module appends for a table, with the line of its statistics. -/
def tableOutcome (statistics : Text) (connections : ConnectionTable) : TableOutcome :=
  .table statistics (connectionLines connections)

end MrBig.Source.Winports
