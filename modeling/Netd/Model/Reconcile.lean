import Netd.Model.Kernel

/-! # Desired state, diffed against observed state, applied

`netd/src/reconcile.rs`, with the netlink requests of `netd/src/netlink.rs` that it makes. `Rtnl`
is the source's trait less its dump: what the kernel answers to each request. Two kernels are
given as instances: tables that refuse whatever a caller says they refuse, and the Linux route
table, whose answer to an addition depends on the create flags that `add_route` chooses.
-/

namespace Netd.Model.Reconcile

/-- One IPv6 address the interface should carry. -/
structure DesiredV6 where
  address : Ipv6Addr
  prefixLength : U8
  deprecated : Bool
  noPrefixRoute : Bool
deriving DecidableEq, Repr

/-- What one managed interface should look like. -/
structure Desired where
  index : U32 := 0
  up : Bool := false
  mtu : Option U32 := none
  addresses : List (Ipv4Addr × U8) := []
  addresses6 : List DesiredV6 := []
  broadcast : Option Ipv4Addr := none
  defaultRoute : Option (Ipv4Addr × U32) := none
  defaultRoute6 : Option (Ipv6Addr × U32) := none
  routes : List (Ipv4Addr × U8 × Ipv4Addr × U32) := []
deriving DecidableEq, Repr

/-- Steps the reconciler decided on. -/
inductive Op where
  | linkUp (index : U32)
  | linkDown (index : U32)
  | mtu (index : U32) (mtu : U32)
  | addAddress (address : Address) (broadcast : Option Ipv4Addr)
  | delAddress (address : Address)
  | addRoute (route : Route)
  | delRoute (route : Route)
deriving DecidableEq, Repr

/-- The smallest MTU IPv4 allows, below which a wish is not passed on. -/
def minMtu : U32 := 68

/-- A desired IPv6 address as the kernel would report it. -/
def DesiredV6.onLink (a : DesiredV6) (index : U32) : Address where
  index
  address := .v6 a.address
  prefixLength := a.prefixLength
  deprecated := a.deprecated
  noPrefixRoute := a.noPrefixRoute
  tentative := false

/-- The addresses a desired state asks for. -/
def wantAddresses (desired : Desired) : List Address :=
  (desired.addresses.map (fun (a, p) => Address.new desired.index (.v4 a) p) ++
    desired.addresses6.map fun a : DesiredV6 => a.onLink desired.index).collect

/-- The observed addresses that are netd's to manage, as they compare. -/
def haveAddresses (observed : Observed) (index : U32) : List Address :=
  (((observed.addressesOf index).filter fun a => !a.isLinkLocal6).map Address.settled).collect

def planAddresses (observed : Observed) (desired : Desired) : List Op :=
  let want := wantAddresses desired
  let have_ := haveAddresses observed desired.index
  let wantedKey := fun a : Address =>
    want.any fun w => w.address = a.address ∧ w.prefixLength = a.prefixLength
  (have_.filter fun a => !wantedKey a).map .delAddress ++
    (want.filter fun a => a ∉ have_).map fun a => .addAddress a desired.broadcast

/-- A route netd stamps as its own. -/
def netdRoute (index : U32) (destination : IpAddr) (prefixLength : U8) (gateway : IpAddr)
    (metric : U32) : Route where
  index
  destination
  prefixLength
  gateway := some gateway
  metric
  protocol := rtprotNetd

/-- The metric the kernel stores for an IPv6 route: zero means `IP6_RT_PRIO_USER`. -/
def metric6 (metric : U32) : U32 := if metric = 0 then 1024 else metric

/-- The IPv6 default route a desired state asks for. -/
def wantDefault6 (desired : Desired) : Option Route :=
  desired.defaultRoute6.map fun (gateway, metric) =>
    netdRoute desired.index (.v6 Ipv6Addr.unspecified) 0 (.v6 gateway) (metric6 metric)

/-- The IPv4 routes a desired state asks for, the default route last. -/
def wantRoutes4 (desired : Desired) : List Route :=
  desired.routes.map (fun (d, p, g, m) => netdRoute desired.index (.v4 d) p (.v4 g) m) ++
    (desired.defaultRoute.map fun (gateway, metric) =>
      netdRoute desired.index (.v4 Ipv4Addr.unspecified) 0 (.v4 gateway) metric).toList

def wantRoutes (desired : Desired) : List Route :=
  (wantRoutes4 desired ++ (wantDefault6 desired).toList).collect

/-- The observed routes netd stamped. -/
def haveRoutes (observed : Observed) (index : U32) : List Route :=
  ((observed.routesOf index).filter fun r => r.protocol = rtprotNetd).collect

def planRoutes (observed : Observed) (desired : Desired) : List Op :=
  let want := wantRoutes desired
  let have_ := haveRoutes observed desired.index
  (have_.filter fun r => r ∉ want).map .delRoute ++ (want.filter fun r => r ∉ have_).map .addRoute

def planLinkUp (link : Link) (desired : Desired) : List Op :=
  if desired.up && !link.up then [.linkUp desired.index] else []

def planMtu (link : Link) (desired : Desired) : List Op :=
  match desired.mtu with
  | some mtu => if mtu ≠ link.mtu ∧ minMtu ≤ mtu then [.mtu desired.index mtu] else []
  | none => []

def planLinkDown (link : Link) (desired : Desired) : List Op :=
  if !desired.up && link.up then [.linkDown desired.index] else []

def plan (observed : Observed) (desired : Desired) : List Op :=
  match observed.links.lookup desired.index with
  | none => []
  | some link =>
    planLinkUp link desired ++ planMtu link desired ++ planAddresses observed desired ++
      planRoutes observed desired ++ planLinkDown link desired

/-! ## Applying a plan -/

/-- What `io::Error` says of a failed request: an errno, or a failure that is not the kernel's. -/
inductive IoError where
  | os (code : ℕ)
  | other
deriving DecidableEq, Repr

namespace IoError

def eexist : ℕ := 17
def enoent : ℕ := 2
def esrch : ℕ := 3

def rawOsError : IoError → Option ℕ
  | os code => some code
  | other => none

end IoError

/-- The kernel behind the netlink socket: the answer to each request and the state it leaves. -/
structure Rtnl (σ : Type*) where
  setLinkUp : σ → U32 → Bool → Except IoError σ
  setMtu : σ → U32 → U32 → Except IoError σ
  addAddress : σ → Address → Option Ipv4Addr → Except IoError σ
  delAddress : σ → Address → Except IoError σ
  addRoute : σ → Route → Except IoError σ
  delRoute : σ → Route → Except IoError σ

namespace Rtnl

variable {σ : Type*}

/-- The request an operation makes. -/
def request (rtnl : Rtnl σ) (state : σ) : Op → Except IoError σ
  | .linkUp i => rtnl.setLinkUp state i true
  | .linkDown i => rtnl.setLinkUp state i false
  | .mtu i m => rtnl.setMtu state i m
  | .addAddress a b => rtnl.addAddress state a b
  | .delAddress a => rtnl.delAddress state a
  | .addRoute r => rtnl.addRoute state r
  | .delRoute r => rtnl.delRoute state r

end Rtnl

/-- Errors that mean the kernel got there first. -/
def benign (op : Op) (error : IoError) : Bool :=
  match op, error.rawOsError with
  | .addRoute _, some code | .addAddress _ _, some code => code == IoError.eexist
  | .delRoute _, some code | .delAddress _, some code => code == IoError.enoent || code == IoError.esrch
  | _, _ => false

/-- Every operation is tried in order, whatever became of the ones before; the failures that are
not benign are counted. -/
def apply {σ : Type*} (rtnl : Rtnl σ) (state : σ) (ops : List Op) : σ × ℕ :=
  ops.foldl (fun (state, failures) op =>
    match rtnl.request state op with
    | .ok next => (next, failures)
    | .error error => (state, if benign op error then failures else failures + 1)) (state, 0)

/-! ## Kernels -/

/-- What an accepted operation does to the tables. -/
def perform (o : Observed) : Op → Observed
  | .linkUp i => o.setLinkUp i true
  | .linkDown i => o.setLinkUp i false
  | .mtu i m => o.setMtu i m
  | .addAddress a _ => o.addAddress a
  | .delAddress a => o.delAddress a
  | .addRoute r => o.addRoute r
  | .delRoute r => o.delRoute r

/-- Tables that answer each operation with an error of the given choice, or carry it out. -/
def tables (refuse : Observed → Op → Option IoError) : Rtnl Observed :=
  let answer := fun o op =>
    match refuse o op with
    | some error => .error error
    | none => .ok (perform o op)
  { setLinkUp := fun o i up => answer o (if up then .linkUp i else .linkDown i)
    setMtu := fun o i m => answer o (.mtu i m)
    addAddress := fun o a b => answer o (.addAddress a b)
    delAddress := fun o a => answer o (.delAddress a)
    addRoute := fun o r => answer o (.addRoute r)
    delRoute := fun o r => answer o (.delRoute r) }

/-- Create flags of a route request. -/
inductive CreateFlags where
  | append
  | excl
deriving DecidableEq, Repr

/-- The create flags `add_route` sends. -/
def createFlags (route : Route) : CreateFlags :=
  if route.isV4 then .append else .excl

/-- Routes that an exclusive addition collides with, on whichever interface they are. -/
def sameSlot (first second : Route) : Bool :=
  first.destination = second.destination ∧ first.prefixLength = second.prefixLength ∧
    first.metric = second.metric

/-- How Linux answers a route request; `rest` answers every other one. -/
def linuxRefuse (rest : Observed → Op → Option IoError) (o : Observed) : Op → Option IoError
  | .addRoute r =>
    let occupied :=
      match createFlags r with
      | .append => o.routes.any fun other => other = r
      | .excl => o.routes.any fun other => sameSlot other r
    if occupied then some (.os IoError.eexist) else none
  | .delRoute r => if r ∈ o.routes then none else some (.os IoError.esrch)
  | op => rest o op

/-- The Linux kernel as `LinuxRtnl` talks to it. -/
def linux (rest : Observed → Op → Option IoError) : Rtnl Observed := tables (linuxRefuse rest)

/-- `reconcile_all` over the desired states of the managed interfaces, in their order: every plan
is made against the snapshot at hand, and the kernel is dumped afterwards. -/
def reconcileAll {σ : Type*} (rtnl : Rtnl σ) (observed : Observed) (state : σ)
    (desireds : List Desired) : σ :=
  desireds.foldl (fun state desired => (apply rtnl state (plan observed desired)).1) state

end Netd.Model.Reconcile
