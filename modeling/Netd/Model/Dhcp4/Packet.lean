import Netd.Model.Core.Text

/-! # DHCPv4 messages and leases

`dhcp4/src/packet.rs`: the options of a message, looked up by first occurrence, and the lease that
an ACK describes. The two list-valued options that a server controls completely, classless routes
(option 121) and the domain search list (option 119), are decoded as the source walks them.
-/

namespace Netd.Model.Dhcp4

/-- Option codes this client speaks. -/
abbrev option.subnetMask : U8 := 1
abbrev option.router : U8 := 3
abbrev option.dns : U8 := 6
abbrev option.hostname : U8 := 12
abbrev option.domainName : U8 := 15
abbrev option.mtu : U8 := 26
abbrev option.broadcast : U8 := 28
abbrev option.ntp : U8 := 42
abbrev option.requestedIp : U8 := 50
abbrev option.leaseTime : U8 := 51
abbrev option.messageType : U8 := 53
abbrev option.serverId : U8 := 54
abbrev option.parameterRequestList : U8 := 55
abbrev option.maxMessageSize : U8 := 57
abbrev option.renewalT1 : U8 := 58
abbrev option.rebindingT2 : U8 := 59
abbrev option.clientId : U8 := 61
abbrev option.domainSearch : U8 := 119
abbrev option.classlessStaticRoute : U8 := 121

inductive MessageType where
  | discover
  | offer
  | request
  | decline
  | ack
  | nak
  | release
  | inform
deriving DecidableEq, Repr

namespace MessageType

def toU8 : MessageType → U8
  | discover => 1
  | offer => 2
  | request => 3
  | decline => 4
  | ack => 5
  | nak => 6
  | release => 7
  | inform => 8

def fromU8 (value : U8) : Option MessageType :=
  if value = 1 then some discover
  else if value = 2 then some offer
  else if value = 3 then some request
  else if value = 4 then some decline
  else if value = 5 then some ack
  else if value = 6 then some nak
  else if value = 7 then some release
  else if value = 8 then some inform
  else none

end MessageType

/-- An ordered list of options; first occurrence of a code wins on lookup. -/
abbrev Options := List (U8 × Bytes)

namespace Options

def get (options : Options) (code : U8) : Option Bytes :=
  (options.find? fun entry => decide (entry.1 = code)).map Prod.snd

def push (options : Options) (code : U8) (data : Bytes) : Options := options ++ [(code, data)]

def messageType (options : Options) : Option MessageType :=
  (options.get option.messageType).bind fun data => data.head?.bind MessageType.fromU8

/-- The address in the first four octets, if there are four. -/
def ipv4At (data : Bytes) : Option Ipv4Addr :=
  if 4 ≤ data.length then some (fromBeBytes (data.take 4)) else none

def ipv4 (options : Options) (code : U8) : Option Ipv4Addr := (options.get code).bind ipv4At

/-- Whole groups of four octets; a shorter tail is dropped. -/
def chunksOfFour : Bytes → List Ipv4Addr
  | a :: b :: c :: d :: rest => fromBeBytes [a, b, c, d] :: chunksOfFour rest
  | _ => []

def ipv4List (options : Options) (code : U8) : List Ipv4Addr :=
  ((options.get code).map chunksOfFour).getD []

def u32 (options : Options) (code : U8) : Option U32 :=
  ((options.get code).filter fun data => data.length == 4).map fromBeBytes

def u16 (options : Options) (code : U8) : Option U16 :=
  ((options.get code).filter fun data => data.length == 2).map fromBeBytes

/-- Text up to the first NUL, if it is UTF-8. -/
def string (options : Options) (code : U8) : Option String :=
  (options.get code).bind fun data => fromUtf8 (data.takeWhile (· ≠ 0))

end Options

/-- One DHCP message. -/
structure Message where
  isReply : Bool
  xid : U32
  secs : U16
  broadcast : Bool
  ciaddr : Ipv4Addr
  yiaddr : Ipv4Addr
  siaddr : Ipv4Addr
  giaddr : Ipv4Addr
  chaddr : Mac
  options : Options
deriving DecidableEq, Repr

namespace Message

def request (xid : U32) (chaddr : Mac) : Message where
  isReply := false
  xid := xid
  secs := 0
  broadcast := false
  ciaddr := Ipv4Addr.unspecified
  yiaddr := Ipv4Addr.unspecified
  siaddr := Ipv4Addr.unspecified
  giaddr := Ipv4Addr.unspecified
  chaddr := chaddr
  options := []

def messageType (message : Message) : Option MessageType := message.options.messageType

def pushOption (message : Message) (code : U8) (data : Bytes) : Message :=
  { message with options := message.options.push code data }

end Message

/-- A classless static route (option 121). -/
structure StaticRoute where
  destination : Ipv4Addr
  prefixLength : U8
  gateway : Ipv4Addr
deriving DecidableEq, Repr

/-- What an ACK gave us. -/
structure Lease where
  address : Ipv4Addr
  prefixLength : U8
  server : Ipv4Addr
  routers : List Ipv4Addr
  dns : List Ipv4Addr
  domain : Option String
  search : List String
  hostname : Option String
  mtu : Option U16
  broadcast : Option Ipv4Addr
  ntp : List Ipv4Addr
  staticRoutes : List StaticRoute
  leaseTime : U32
  t1 : U32
  t2 : U32
deriving DecidableEq, Repr

/-- Decode the complete optional route list, or discard all of it. -/
def decodeClasslessRoutes : Bytes → Option (List StaticRoute)
  | [] => some []
  | width :: rest =>
    -- RFC 3442 destination widths are 0..=32.
    if 32 < width.toNat then none
    else
      let octets := (width.toNat + 7) / 8
      let destination := rest.take octets
      let gateway := (rest.drop octets).take 4
      if destination.length < octets then none
      else if gateway.length < 4 then none
      else (decodeClasslessRoutes ((rest.drop octets).drop 4)).map fun routes =>
        { destination := fromBeBytes ((destination ++ List.replicate 4 0).take 4)
          prefixLength := width
          gateway := fromBeBytes gateway } :: routes
termination_by octets => octets.length
decreasing_by
  simp only [List.length_drop, List.length_cons]
  omega

def classfulPrefix (address : Ipv4Addr) : U8 :=
  let first := (address.extractLsb' 24 8).toNat
  if first ≤ 127 then 8 else if first ≤ 191 then 16 else 24

/-- The walk over one name: its labels, where the next name starts, whether a pointer was
followed, and where the walk stopped. `none` ends the whole list. -/
def searchName (octets : Bytes) (position hops : ℕ) (jumped : Bool) (resume : ℕ)
    (labels : List String) : Option (List String × ℕ × Bool × ℕ) :=
  if inside : position < octets.length then
    let length := octets[position]
    if length = 0 then
      some (labels, if jumped then resume else position + 1, jumped, position)
    else if length &&& 0xc0 = 0xc0 then
      match octets[position + 1]? with
      | none => none
      | some low =>
        if 16 < hops + 1 then none
        else searchName octets (((length &&& 0x3f).toNat <<< 8) ||| low.toNat) (hops + 1) true
          (if jumped then resume else position + 2) labels
    else if octets.length < position + 1 + length.toNat then none
    else searchName octets (position + 1 + length.toNat) hops jumped resume
      (labels ++ [fromUtf8Lossy ((octets.drop (position + 1)).take length.toNat)])
  else none
termination_by (17 - hops, octets.length - position)
decreasing_by
  · exact Prod.Lex.left _ _ (by omega)
  · exact Prod.Lex.right _ (by omega)

/-- The next name starts past the one just read. -/
theorem searchName_resume {octets : Bytes} {position hops : ℕ} {jumped : Bool} {resume : ℕ}
    {labels : List String} {found : List String × ℕ × Bool × ℕ}
    (walked : searchName octets position hops jumped resume labels = some found) :
    if jumped then found.2.1 = resume else position < found.2.1 := by
  fun_induction searchName octets position hops jumped resume labels with
  | case1 position hops jumped resume labels inside length zero =>
    cases walked
    cases jumped <;> simp
  | case2 | case3 | case5 | case7 => contradiction
  | case4 position hops jumped resume labels inside length nonzero pointer low present few ih =>
    have jump := ih walked
    cases jumped <;> simp_all
  | case6 position hops jumped resume labels inside length nonzero label fits ih =>
    have advance := ih walked
    cases jumped
    · simp only [Bool.false_eq_true, ↓reduceIte] at advance ⊢
      omega
    · exact advance

/-- The names from `position` on, behind those already read. -/
def searchNames (octets : Bytes) (position : ℕ) (names : List String) : List String :=
  if position < octets.length then
    match _walked : searchName octets position 0 false position [] with
    | none => names
    | some (labels, resume, jumped, stopped) =>
      let names := if labels.isEmpty then names else names ++ [".".intercalate labels]
      if !jumped && resume == stopped then names else searchNames octets resume names
  else names
termination_by octets.length - position
decreasing_by
  have advance := searchName_resume _walked
  simp only [Bool.false_eq_true, ↓reduceIte] at advance
  omega

/-- RFC 3397 domain search list: DNS-encoded names with compression pointers. -/
def decodeDomainSearch (octets : Bytes) : List String := searchNames octets 0 []

def countOnes (mask : U32) : ℕ := ((List.range 32).filter mask.getLsbD).length

/-- A mask of contiguous ones, as its length. -/
def maskPrefix (mask : U32) : Option U8 :=
  if mask ≠ 0 ∧ mask ||| (mask - 1) = BitVec.allOnes 32 then some (BitVec.ofNat 8 (countOnes mask)) else none

namespace Lease

/-- The explicit renewal time where it leaves room for the rebinding time, else half the lease. -/
def renewalTime (options : Options) (leaseTime : U32) : U32 :=
  ((options.u32 option.renewalT1).filter fun t => decide (0 < t) && decide (t < leaseTime - 2)).getD
    (leaseTime / 2)

/-- The explicit rebinding time between `t1` and the end, else seven eighths of the lease. -/
def rebindingTime (options : Options) (leaseTime t1 : U32) : U32 :=
  let standard := min (max ((leaseTime.setWidth 64 * 7 / 8).setWidth 32) (t1 + 1)) (leaseTime - 1)
  ((options.u32 option.rebindingT2).filter fun t => decide (t1 < t) && decide (t < leaseTime)).getD standard

/-- Interpret an ACK. `none` if it lacks the fields a lease needs. -/
def fromAck (message : Message) : Option Lease :=
  let o := message.options
  let address := message.yiaddr
  if address.isUnspecified then none
  else (o.ipv4 option.serverId).bind fun server =>
    (o.u32 option.leaseTime).bind fun leaseTime =>
      if leaseTime < 4 then none
      else
        let staticRoutes := ((o.get option.classlessStaticRoute).bind decodeClasslessRoutes).getD []
        let t1 := renewalTime o leaseTime
        some
          { address := address
            prefixLength := ((o.ipv4 option.subnetMask).bind maskPrefix).getD (classfulPrefix address)
            server := server
            -- RFC 3442: when classless routes are present, option 3 is ignored.
            routers := if staticRoutes.isEmpty then o.ipv4List option.router else []
            dns := o.ipv4List option.dns
            domain := o.string option.domainName
            search := ((o.get option.domainSearch).map decodeDomainSearch).getD []
            hostname := o.string option.hostname
            mtu := (o.u16 option.mtu).filter fun m => decide (68 ≤ m)
            broadcast := o.ipv4 option.broadcast
            ntp := o.ipv4List option.ntp
            staticRoutes := staticRoutes
            leaseTime := leaseTime
            t1 := t1
            t2 := rebindingTime o leaseTime t1 }

def gateway (lease : Lease) : Option Ipv4Addr :=
  lease.routers.head?.or ((lease.staticRoutes.find? fun route => decide (route.prefixLength = 0)).map
    StaticRoute.gateway)

end Lease

end Netd.Model.Dhcp4
