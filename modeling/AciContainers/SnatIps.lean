import AciContainers.Labels
import AciContainers.Maps
import AciContainers.SnatPorts

/-!
# SNAT addresses

The readers of SNAT addresses in `pkg/util/iputil.go` and `pkg/controller/snats.go`. An
entry is a CIDR block or an address; an address that has an IPv4 form is read again with
`/32` behind it, any other with `/128`. A block that is the whole address space is never left
by the loop that expands it: that result is `none`.
-/
namespace AciContainers.Snat

open Bytes Net

/-- `parseIP`; `GetIPsFromCIDR` reads its argument in the same way. -/
def parseIP (cidr : String) : Option (IP × IPNet) :=
  match parseCIDR cidr with
  | some r => some r
  | none =>
    match Net.parseIP cidr with
    | none => none
    | some ip => if (to4 ip).isSome then parseCIDR (cidr ++ "/32") else parseCIDR (cidr ++ "/128")

/-- The stepped address and whether the carry goes on to the left. -/
def incCarry : ByteString → ByteString × Bool
  | [] => ([], true)
  | b :: bs =>
    let (out, carry) := incCarry bs
    if carry then ((b + 1) :: out, b + 1 = 0) else (b :: out, false)

def inc (ip : IP) : IP := (incCarry ip).1

/-- The loop over a block; it comes back to where it was after as many turns as there are
addresses of that length. -/
def cidrLoop (ipnet : IPNet) : Nat → IP → Option (List String)
  | 0, ip => if ipnet.contains ip then none else some []
  | fuel + 1, ip =>
    if ipnet.contains ip then (cidrLoop ipnet fuel (inc ip)).map (ipString ip :: ·) else some []

def getIPsFromCIDR (cidr : String) : Option (List String) :=
  match parseIP cidr with
  | none => some []
  | some (ip, ipnet) =>
    let first := (mask ip ipnet.mask).getD []
    (cidrLoop ipnet (256 ^ first.length) first).map fun output =>
      if output.length = 1 then output else (output.drop 1).dropLast

/-- Sorts by the bytes of the addresses. -/
def sortIps (ips : List String) : List String :=
  ((ips.map fun ip => (Net.parseIP ip).getD []).insertionSort
    fun a b => Bytes.compare a b ≠ .gt).map ipString

def expandCIDRs (currCIDRs : List String) : Option (List String) :=
  (currCIDRs.mapM getIPsFromCIDR).map fun expanded => sortIps expanded.flatten

/-!
# SNAT policies and port allocations of the controller

The handlers of `pkg/controller/snats.go` and `pkg/controller/snatglobalinfo.go` over the
policy cache, the node infos and the global cache, which gives every SNAT address the port
ranges that nodes hold on it. The outcome of writing a status is an argument of a handler, and
so is the order of a loop over a Go map that can stop early or whose turns see each other. A
handler that loops for ever or dereferences nil stops the controller.
-/

open Labels Maps

inductive PolicyState where
  | unset
  | ready
  | failed
  | ipPortsExhausted
  deriving DecidableEq

structure ContPodSelector where
  labels : LabelSet
  ns : String
  deriving DecidableEq

structure SnatPolicySpec where
  snatIp : List String
  selector : ContPodSelector
  destIp : List String
  deriving DecidableEq

/-- A stored policy object. -/
structure SnatPolicy where
  spec : SnatPolicySpec
  state : PolicyState
  deriving DecidableEq

structure ContSnatPolicy where
  snatIp : List String
  selector : ContPodSelector
  expandedSnatIps : List String
  expandedSnatPorts : List PortRange
  deriving DecidableEq

/-- What a node holds on an address; the list of port ranges always has one element. -/
structure GlobalInfo where
  macAddress : String
  portRange : PortRange
  snatIp : String
  snatPolicyName : String
  deriving DecidableEq

abbrev GlobalInfos := Finmap fun _ : String => GlobalInfo

structure NodeInfo where
  name : String
  macaddress : String
  snatPolicyNames : List String
  deriving DecidableEq

structure Service where
  ns : String
  labels : LabelSet
  ingress : List String
  deriving DecidableEq

structure State where
  services : List Service
  snatIndexer : Map String SnatPolicy
  snatPolicyCache : Finmap fun _ : String => ContSnatPolicy
  snatNodeInfoCache : Map String NodeInfo
  snatGlobalInfoCache : Map String GlobalInfos
  stopped : Bool

def start : State := ⟨[], Map.empty, ∅, Map.empty, Map.empty, false⟩

def State.checksnatPolicyPortExhausted (σ : State) (name : String) : Bool :=
  (σ.snatIndexer name).any fun p => p.state = .ipPortsExhausted

/-- The stored object is changed before the write; returns whether the write failed. -/
def State.setSnatPolicyStatus (fails : String → Bool) (σ : State) (name : String)
    (status : PolicyState) : State × Bool :=
  match σ.snatIndexer name with
  | none => (σ, false)
  | some p =>
    if p.state = status then (σ, false)
    else ({ σ with snatIndexer := σ.snatIndexer.put name { p with state := status } }, fails name)

def setStatusTurn (fails : String → Bool) (status : PolicyState) (acc : State × Bool)
    (name : String) : State × Bool :=
  let r := acc.1.setSnatPolicyStatus fails name status
  (r.1, acc.2 || r.2)

/-- Returns whether some write failed. -/
def State.setSnatPoliciesState (fails : String → Bool) (names : List String) (status : PolicyState)
    (σ : State) : State × Bool :=
  names.foldl (setStatusTurn fails status) (σ, false)

/-- An exhausted policy is marked ready again. -/
def State.readyAgain (fails : String → Bool) (σ : State) (name : String) : State × Bool :=
  if σ.checksnatPolicyPortExhausted name then σ.setSnatPolicyStatus fails name .ready
  else (σ, false)

/-- `labels.SelectorFromSet`. -/
def selectorFromSet (ls : LabelSet) : Selector :=
  (Selector.internal []).add (ls.map fun kv => ⟨kv.1, .equals, [kv.2]⟩)

def State.getServicesBySelector (σ : State) (selector : Selector) (ns : String) : List Service :=
  σ.services.filter fun service =>
    selector.matchesLabels service.labels && (ns = "" || ns = service.ns) && !service.ingress.isEmpty

def State.getServiceIps (σ : State) (policy : ContSnatPolicy) : List String :=
  (σ.getServicesBySelector (selectorFromSet policy.selector.labels) policy.selector.ns).flatMap
    Service.ingress

def State.checkIfPolicyApplied (σ : State) (nodename snatpolicyname : String)
    (snatIps : List String) : Bool :=
  snatIps.any fun snatip =>
    (σ.snatGlobalInfoCache snatip).any fun policyEntries =>
      (policyEntries.lookup nodename).any fun glinfo => glinfo.snatPolicyName = snatpolicyname

/-- The starts of the ranges that are taken on an address. -/
def seen (globalInfo : GlobalInfos) : Finset Int :=
  globalInfo.keys.biUnion fun node =>
    match globalInfo.lookup node with
    | some glinfo => {glinfo.portRange.start}
    | none => ∅

def State.allocateIpSnatPortRange (σ : State) (nodename : String) (ports : List PortRange) :
    List String → Option (String × PortRange)
  | [] => none
  | snatip :: snatIps =>
    match ports with
    | [] => none
    | first :: _ =>
      match σ.snatGlobalInfoCache snatip with
      | none => some (snatip, first)
      | some globalInfo =>
        if globalInfo.keys.card < ports.length then
          match globalInfo.lookup nodename with
          | some glinfo => some (glinfo.snatIp, glinfo.portRange)
          | none =>
            match ports.find? fun val => val.start ∉ seen globalInfo with
            | some val => some (snatip, val)
            | none => σ.allocateIpSnatPortRange nodename ports snatIps
        else σ.allocateIpSnatPortRange nodename ports snatIps

/-- `getIpAndPortRange`: an address of the policy, or the address of the service. -/
def State.getIpAndPortRange (σ : State) (nodename : String) (policy : ContSnatPolicy)
    (serviceIp : String) : Option (String × PortRange) :=
  if policy.snatIp ≠ [] then
    σ.allocateIpSnatPortRange nodename policy.expandedSnatPorts policy.expandedSnatIps
  else σ.allocateIpSnatPortRange nodename policy.expandedSnatPorts [serviceIp]

def State.updateGlobalInfoforPolicy (σ : State) (portrange : PortRange)
    (snatIp nodename macaddr plcyname : String) : State :=
  let entries := (σ.snatGlobalInfoCache snatIp).getD ∅
  let entries := entries.insert nodename ⟨macaddr, portrange, snatIp, plcyname⟩
  { σ with snatGlobalInfoCache := σ.snatGlobalInfoCache.put snatIp entries }

/-- Delete a node's entry of an address, and the address with its last entry. -/
def dropNode (nodename : String) (glinfos : GlobalInfos) : Option GlobalInfos :=
  let rest := glinfos.erase nodename
  if rest.keys = ∅ then none else some rest

/-- The global cache with the node's entry of this address deleted. -/
def State.removeEntry (σ : State) (snatip nodename : String) (glinfos : GlobalInfos) : State :=
  { σ with snatGlobalInfoCache := fun ip =>
      if ip = snatip then dropNode nodename glinfos else σ.snatGlobalInfoCache ip }

/-- The loop of `deleteNodeinfoFromGlInfoCache` over the addresses; it ends early when a
status cannot be written. -/
def State.deleteNode (fails : String → Bool) (nodename : String) : List String → State → State × Bool
  | [], σ => (σ, false)
  | snatip :: snatips, σ =>
    match σ.snatGlobalInfoCache snatip with
    | none => σ.deleteNode fails nodename snatips
    | some glinfos =>
      match glinfos.lookup nodename with
      | none => σ.deleteNode fails nodename snatips
      | some v =>
        let r := σ.readyAgain fails v.snatPolicyName
        if r.2 then (r.1, true)
        else (r.1.removeEntry snatip nodename glinfos).deleteNode fails nodename snatips

/-- Mark exhausted policies ready, up to the first failed write. -/
def State.markReady (fails : String → Bool) : List String → State → State × Bool
  | [], σ => (σ, false)
  | name :: names, σ =>
    let r := σ.readyAgain fails name
    if r.2 then (r.1, true) else r.1.markReady fails names

def State.deleteNodeinfoFromGlInfoCache (fails : String → Bool) (order : List String)
    (snatPolicyNames : List String) (nodename : String) (σ : State) : State × Bool :=
  let r := σ.deleteNode fails nodename order
  if r.2 then (r.1, true) else r.1.markReady fails snatPolicyNames

/-- The loop of `clearSnatGlobalCache` over the addresses of a policy. It ends at the first
address without entries, and for one node at the first address that had its entry. -/
def State.clearIps (nodename : String) : List String → State → State
  | [], σ => σ
  | snatip :: snatips, σ =>
    match σ.snatGlobalInfoCache snatip with
    | none => σ
    | some v =>
      if nodename ≠ "" then
        match v.lookup nodename with
        | some _ => σ.removeEntry snatip nodename v
        | none => σ.clearIps nodename snatips
      else
        { σ with snatGlobalInfoCache := σ.snatGlobalInfoCache.erase snatip }.clearIps nodename snatips

def State.clearSnatGlobalCache (σ : State) (policyName nodename : String) : State :=
  match σ.snatPolicyCache.lookup policyName with
  | none => σ
  | some policy =>
    if policy.snatIp ≠ [] then σ.clearIps nodename policy.expandedSnatIps
    else σ.clearIps nodename (σ.getServiceIps policy)

/-- What the loop over the policies of a node info collects. -/
structure Allocating where
  state : State
  allocfailed : List String
  markready : List String

/-- Allocate for one address list and record the outcome under the policy. -/
def Allocating.allocate (nodeinfo : NodeInfo) (name : String) (policy : ContSnatPolicy)
    (acc : Allocating) (serviceIp : String) : Allocating :=
  match acc.state.getIpAndPortRange nodeinfo.name policy serviceIp with
  | none => { acc with allocfailed := acc.allocfailed ++ [name] }
  | some (snatIp, portrange) =>
    { acc with
      markready :=
        if acc.state.checksnatPolicyPortExhausted name then acc.markready ++ [name]
        else acc.markready
      state := acc.state.updateGlobalInfoforPolicy portrange snatIp nodeinfo.name
        nodeinfo.macaddress name }

def Allocating.policy (nodeinfo : NodeInfo) (acc : Allocating) (name : String) : Allocating :=
  match acc.state.snatPolicyCache.lookup name with
  | none => acc
  | some policy =>
    if policy.snatIp ≠ [] then
      if acc.state.checkIfPolicyApplied nodeinfo.name name policy.expandedSnatIps then acc
      else acc.allocate nodeinfo name policy ""
    else
      let snatIps := acc.state.getServiceIps policy
      if acc.state.checkIfPolicyApplied nodeinfo.name name snatIps then acc
      else snatIps.foldl (Allocating.allocate nodeinfo name policy) acc

/-- Returns whether the node info is queued again. -/
def State.handleSnatNodeInfo (fails : String → Bool) (order : List String) (nodeinfo : NodeInfo)
    (σ : State) : State × Bool :=
  if (σ.snatNodeInfoCache nodeinfo.name).isNone ∨ nodeinfo.snatPolicyNames = [] then
    σ.deleteNodeinfoFromGlInfoCache fails order nodeinfo.snatPolicyNames nodeinfo.name
  else
    let acc := nodeinfo.snatPolicyNames.foldl (Allocating.policy nodeinfo) ⟨σ, [], []⟩
    let exhausted := acc.state.setSnatPoliciesState fails acc.allocfailed .ipPortsExhausted
    let marked := exhausted.1.setSnatPoliciesState fails acc.markready .ready
    (marked.1, marked.2 && exhausted.2)

def State.snatNodeInfoAdded (σ : State) (nodeinfo : NodeInfo) : State :=
  { σ with snatNodeInfoCache := σ.snatNodeInfoCache.put nodeinfo.name nodeinfo }

/-- Clear the node's allocations of the policies that it no longer has. -/
def State.updateSnatIpandPorts (fails : String → Bool) (oldNames newNames : List String)
    (nodename : String) (σ : State) : State :=
  (oldNames.filter (· ∉ newNames)).foldl
    (fun σ oldkey => ((σ.clearSnatGlobalCache oldkey nodename).readyAgain fails oldkey).1) σ

def State.snatNodeInfoUpdated (fails : String → Bool) (old new : NodeInfo) (σ : State) : State :=
  if old.macaddress = new.macaddress ∧ old.snatPolicyNames.Perm new.snatPolicyNames then σ
  else
    (σ.updateSnatIpandPorts fails old.snatPolicyNames new.snatPolicyNames new.name).snatNodeInfoAdded new

def State.snatNodeInfoDeleted (fails : String → Bool) (order : List String) (nodeinfo : NodeInfo)
    (σ : State) : State :=
  ({ σ with snatNodeInfoCache := σ.snatNodeInfoCache.erase nodeinfo.name }.handleSnatNodeInfo
    fails order nodeinfo).1

/-- One pair of entries in `validateCr`; a nil network in the cache is dereferenced. -/
def conflict (name cached incoming : String) : Option (Option String) :=
  match parseIP incoming with
  | none => some (some ("Invalid incoming SnatIP " ++ incoming))
  | some (_, net2) =>
    match parseIP cached with
    | none => none
    | some (_, net1) =>
      if net2.contains net1.ip || net1.contains net2.ip then
        some (some ("SnatIP's are conflicting with the snatpolicy " ++ name))
      else some none

/-- The first outcome that is not a pass, of tests that may panic. -/
def firstError {α : Type} (test : α → Option (Option String)) : List α → Option (Option String)
  | [] => some none
  | x :: xs =>
    match test x with
    | some none => firstError test xs
    | r => r

/-- The checks against one cached policy. -/
def conflicts (name : String) (spec : SnatPolicySpec) (item : ContSnatPolicy) :
    Option (Option String) :=
  if item.selector.labels = [] ∧ spec.selector.labels = [] ∧ spec.selector.ns = item.selector.ns then
    some (some ("Namespace is conflicting with the snatpolicy " ++ name))
  else
    firstError (fun val => firstError (conflict name val) spec.snatIp) item.snatIp

def invalidIp (what : String) (ip : String) : Option (Option String) :=
  if (parseIP ip).isNone then some (some ("Invalid incoming " ++ what ++ " " ++ ip)) else some none

/-- `validateCr`, going through the cached policies in the given order: `none` is a panic,
`some none` a pass and `some (some msg)` a refusal. -/
def State.validateCr (σ : State) (order : List String) (name : String) (spec : SnatPolicySpec) :
    Option (Option String) :=
  let snat :=
    if σ.snatPolicyCache.keys ≠ ∅ then
      firstError
        (fun key =>
          match σ.snatPolicyCache.lookup key with
          | none => some none
          | some item => if name = key then some none else conflicts name spec item) order
    else firstError (invalidIp "SnatIP") spec.snatIp
  match snat with
  | some none => firstError (invalidIp "DestIP") spec.destIp
  | r => r

def State.stop (σ : State) : State := { σ with stopped := true }

/-- The policy that is cached for a specification and a configuration. -/
def contSnatPolicy (configMap : Option ConfigData) (spec : SnatPolicySpec) : Option ContSnatPolicy := do
  let ips ← expandCIDRs spec.snatIp
  let ports ← configuredPorts (getPortRangeFromConfigMap configMap)
  some ⟨spec.snatIp, spec.selector, ips, ports⟩

/-- Changed addresses clear what is allocated on the old ones. -/
def State.clearChanged (key : String) (snatIp : List String) (σ : State) : State :=
  match σ.snatPolicyCache.lookup key with
  | some snatInfo => if snatIp ≠ snatInfo.snatIp then σ.clearSnatGlobalCache key "" else σ
  | none => σ

def State.updateSnatPolicyCache (configMap : Option ConfigData) (key : String)
    (spec : SnatPolicySpec) (σ : State) : State :=
  match contSnatPolicy configMap spec with
  | none => σ.stop
  | some policy =>
    let cleared := σ.clearChanged key policy.snatIp
    { cleared with snatPolicyCache := cleared.snatPolicyCache.insert key policy }

/-- A policy without a status is validated, a ready one is cached; the others wait. The
test for exhausted ports inside the first branch is never true. -/
def State.handleSnatUpdate (fails : String → Bool) (order : List String)
    (configMap : Option ConfigData) (name : String) (σ : State) : State :=
  match σ.snatIndexer name with
  | none => σ
  | some policy =>
    match policy.state with
    | .unset =>
      match σ.validateCr order name policy.spec with
      | none => σ.stop
      | some none => (σ.setSnatPolicyStatus fails name .ready).1
      | some (some _) => (σ.setSnatPolicyStatus fails name .failed).1
    | .ready => σ.updateSnatPolicyCache configMap name policy.spec
    | .failed | .ipPortsExhausted => σ

def State.snatPolicyDelete (name : String) (σ : State) : State :=
  let cleared := σ.clearSnatGlobalCache name ""
  { cleared with snatPolicyCache := cleared.snatPolicyCache.erase name }

/-- The loop of `snatCfgUpdate` over the cached policies. -/
def State.reconfigure (config : PortRange × Int) : List String → State → State
  | [], σ => σ
  | name :: names, σ =>
    let cleared := σ.clearSnatGlobalCache name ""
    match configuredPorts config with
    | none => cleared.stop
    | some ports =>
      let updated :=
        match cleared.snatPolicyCache.lookup name with
        | none => cleared
        | some info =>
          { cleared with snatPolicyCache :=
              cleared.snatPolicyCache.insert name { info with expandedSnatPorts := ports } }
      updated.reconfigure config names

def State.snatCfgUpdate (order : List String) (oldData newData : ConfigData) (σ : State) : State :=
  if oldData = newData then σ
  else
    match acceptedConfig newData with
    | none => σ
    | some config => σ.reconfigure config order

/-- Handler calls, and changes of the stores that the handlers read. -/
inductive Event where
  | policyStored (name : String) (spec : SnatPolicySpec)
  | handleSnatUpdate (name : String) (fails : String → Bool) (order : List String)
      (configMap : Option ConfigData)
  | snatPolicyDelete (name : String)
  | servicesStored (services : List Service)
  | snatNodeInfoAdded (nodeinfo : NodeInfo)
  | snatNodeInfoUpdated (old new : NodeInfo) (fails : String → Bool)
  | snatNodeInfoDeleted (nodeinfo : NodeInfo) (fails : String → Bool) (order : List String)
  | handleSnatNodeInfo (nodeinfo : NodeInfo) (fails : String → Bool) (order : List String)
  | snatCfgUpdate (oldData newData : ConfigData) (order : List String)

/-- A changed specification leaves the status of the object as it is. -/
def State.storePolicy (σ : State) (name : String) (spec : SnatPolicySpec) : State :=
  let state := ((σ.snatIndexer name).map SnatPolicy.state).getD .unset
  { σ with snatIndexer := σ.snatIndexer.put name ⟨spec, state⟩ }

def handle (σ : State) : Event → State
  | .policyStored name spec => σ.storePolicy name spec
  | .handleSnatUpdate name fails order configMap => σ.handleSnatUpdate fails order configMap name
  | .snatPolicyDelete name =>
    { σ with snatIndexer := σ.snatIndexer.erase name }.snatPolicyDelete name
  | .servicesStored services => { σ with services := services }
  | .snatNodeInfoAdded nodeinfo => σ.snatNodeInfoAdded nodeinfo
  | .snatNodeInfoUpdated old new fails => σ.snatNodeInfoUpdated fails old new
  | .snatNodeInfoDeleted nodeinfo fails order => σ.snatNodeInfoDeleted fails order nodeinfo
  | .handleSnatNodeInfo nodeinfo fails order => (σ.handleSnatNodeInfo fails order nodeinfo).1
  | .snatCfgUpdate oldData newData order => σ.snatCfgUpdate order oldData newData

def step (σ : State) (e : Event) : State := if σ.stopped then σ else handle σ e

end AciContainers.Snat
