import BigipCtlr.F5Router.Update
import BigipCtlr.Go.NetLaws

/-!
# Tier-2 addresses

Every HTTP route has a virtual server of its own at an address and port of
the tier-2 range. Addresses given back are kept in `reapedPorts` and handed
out again first; otherwise a cursor walks up the range past the addresses in
`usedPorts`. A Go panic or an endless loop is `none`.
-/

namespace BigipCtlr

open Go

-- ---------------------------------------------------------------------------
-- Virtual addresses
-- ---------------------------------------------------------------------------

def VirtualAddress.string (va : VirtualAddress) : Str := va.bindAddr ++ ':' :: itoa va.port.toInt

/-- What a record's data can decode to: `json.Unmarshal` of `null` succeeds
and leaves the pointer nil. -/
inductive Decoded
  | error (err : Str)
  | null
  | address (va : VirtualAddress)
  deriving DecidableEq, Repr

/-- `Encode` and `ReturnTier2VirtualAddress` on record data: JSON in base64.
The library functions round-trip an address whose host is a textual IP. -/
structure Codec where
  encode : VirtualAddress → Str
  decode : Str → Decoded
  decode_encode : ∀ va, (parseIP va.bindAddr).isSome → decode (encode va) = .address va

def InternalDataGroupRecord.tier2VirtualAddress (codec : Codec) (record : InternalDataGroupRecord) :
    Decoded :=
  codec.decode record.data

/-- The regular expression `^([^%]*)%(\d+)$`. -/
def splitIPWithRouteDomain (address : Str) : Str × Str :=
  match splitN2 address '%' with
  | [ip, rd] => if rd ≠ [] ∧ rd.all Char.isDigit = true then (ip, rd) else (address, [])
  | _ => (address, [])

def verifyDestAddress (va : VirtualAddress) (partition : Str) : Except Str Str :=
  let (ip, rd) := splitIPWithRouteDomain va.bindAddr
  let rd := if 0 < rd.length then '%' :: rd else rd
  match parseIP va.bindAddr with
  | some addr =>
    let sep := if addr.to4.isSome then ':' else '.'
    .ok ('/' :: partition ++ '/' :: ip ++ rd ++ sep :: itoa va.port.toInt)
  | none => .error ("invalid address: ".toList ++ va.bindAddr)

/-- `CreateResources` of a TCP update: the virtual server listens on the
external address at the route's port. -/
def UpdateTCP.createResources (tu : UpdateTCP) (c : Config) : Except Str RouteResources := do
  let dest ← verifyDestAddress ⟨tu.c.bigIP.externalAddr,
    Int32.ofNat tu.routePort.toNat⟩ tu.c.partition
  let poolDescrip := "route-port: ".toList ++ itoa tu.routePort.toNat ++
    ", router-group: ".toList ++ c.tcpRouterGroupName
  let poolPath ← joinBigipPath c.partition tu.name
  pure {
    virtual := {
      virtualServerName := tu.name
      poolName := poolPath
      mode := "tcp".toList
      enabled := true
      destination := dest
      profiles := [⟨"tcp".toList, "Common".toList, "all".toList⟩]
      sourceAddrTranslation := ⟨"automap".toList⟩ }
    pool :=
      makePool tu.name poolDescrip [tu.member] c.bigIP.loadBalancingMode (defaultMonitorNames c) }

/-- `strconv.Atoi`, far from the bounds of `int`; `none` is its error. -/
def atoi (s : Str) : Option Int :=
  let digits (ds : Str) : Option Nat :=
    if ds ≠ [] ∧ ds.all Char.isDigit = true then some (Nat.ofDigitChars 10 ds 0) else none
  match s with
  | '-' :: ds => (digits ds).map fun n => -(n : Int)
  | '+' :: ds => (digits ds).map fun n => (n : Int)
  | ds => (digits ds).map fun n => (n : Int)

def validateTier2Range (s : Str) : Except Str (IP × IPNet) :=
  if '/' ∉ s then .error ("invalid CIDR address - no '/': ".toList ++ s)
  else match split s '/' with
    | [_, ones] =>
      match atoi ones, parseCIDR s with
      | some ones, some (i, n) =>
        if i.isLoopback then .error ("loopback not allowed: ".toList ++ i.toString)
        else
          let bits := if i.to4.isSome then 32 else 128
          let ip := i.mask (cidrMask ones.toNat bits)
          if i.equal ip then .ok (i, n)
          else .error ("invalid CIDR address - must be CIDR network: ".toList ++ s)
      | none, _ =>
        .error ("strconv.ParseInt: parsing \"".toList ++ ones ++ "\": invalid syntax".toList)
      | _, none => .error ("invalid CIDR address: ".toList ++ s)
    | _ => .error ("invalid CIDR address - too many '/': ".toList ++ s)

-- ---------------------------------------------------------------------------
-- The allocator
-- ---------------------------------------------------------------------------

/-- `tier2VSInfo`. A reaped address is a pointer, which may be nil. -/
structure Tier2VSInfo where
  usedPorts : GoMap Str VirtualAddress
  reapedPorts : List (Option VirtualAddress)
  holderPort : Int32
  holderIP : IP
  ipNet : IPNet

def Tier2VSInfo.holder (t : Tier2VSInfo) : VirtualAddress := ⟨t.holderIP.toString, t.holderPort⟩

/-- Add one to a number written in bytes, the last byte first, dropping the
carry out of the last one. -/
def carry : List UInt8 → List UInt8
  | [] => []
  | b :: bs => if b + 1 > 0 then (b + 1) :: bs else (b + 1) :: carry bs

def nextIP (ip : IP) : IP := (carry ip.reverse).reverse

def outOfAddresses : Str :=
  "Ran out of available IP addresses. Restart the controller with a larger address space".toList

def Tier2VSInfo.incrementHolderIP (t : Tier2VSInfo) : Except Str Tier2VSInfo :=
  let ipCopy := nextIP t.holderIP
  if t.ipNet.contains ipCopy then .ok { t with holderIP := ipCopy } else .error outOfAddresses

/-- The loop of `getAvailableVirtualAddress`, entered with `found` true, for
at most `fuel` rounds. A round at the last port moves to the next address but
looks nothing up. -/
def Tier2VSInfo.search : Nat → Tier2VSInfo → Option (Tier2VSInfo × Except Str VirtualAddress)
  | 0, _ => none
  | fuel + 1, t =>
    if t.holderPort = 65535 then
      match t.incrementHolderIP with
      | .error err => some (t, .error err)
      | .ok t => search fuel { t with holderPort := 10000 }
    else
      let t := { t with holderPort := t.holderPort + 1 }
      if t.holder.string ∈ t.usedPorts then search fuel t else some (t, .ok t.holder)

/-- More rounds than there are positions of the cursor: a loop that has not
ended by then has come round to a position it was at before. -/
def Tier2VSInfo.fuel (t : Tier2VSInfo) : Nat := Nat.pow 256 t.holderIP.length * 65536 + 1

/-- What is left of a slice after its first element is deleted: the last one
takes its place. -/
def swapFirst (rest : List α) : List α :=
  match rest.getLast? with
  | some last => last :: rest.dropLast
  | none => []

def Tier2VSInfo.getAvailableVirtualAddress (t : Tier2VSInfo) :
    Option (Tier2VSInfo × Except Str (Option VirtualAddress)) :=
  match t.reapedPorts with
  | va :: rest => some ({ t with reapedPorts := swapFirst rest }, .ok va)
  | [] =>
    let found := if t.holder.string ∈ t.usedPorts then t.search t.fuel else some (t, .ok t.holder)
    match found with
    | none => none
    | some (t, .error err) => some (t, .error err)
    | some (t, .ok va) =>
      some ({ t with usedPorts := t.usedPorts.insert va.string va }, .ok (some va))

end BigipCtlr
