import AciContainers.Outcomes
import AciContainers.SnatIps
import AciContainers.PodSelectorIndex
import AciContainers.Runs

/-!
# SNAT policies of the host agent

`pkg/hostagent/snats.go`. The agent keeps two maps in opposite directions: for each policy
the pods it applies to, with the resources through which it does (`snatPods`), and for each
pod and resource the policies (`opflexSnatLocalInfos`). `updateEpFiles` turns the policies of a
pod into the SNAT addresses that its endpoint file gets.

A set of resources stands for the bit mask of the code. What the informers list, and the order
of loops over maps, come with the event. A handler that dereferences nil, writes into a nil map
or indexes an empty slice stops with a fault.
-/
namespace AciContainers.HostSnat

open Labels Maps Index Net Outcomes

inductive Resource where
  | pod
  | service
  | deployment
  | namespace
  | cluster
  deriving DecidableEq

/-- In the order of their bits. -/
def Resource.all : List Resource := [.pod, .service, .deployment, .namespace, .cluster]

theorem Resource.mem_all (r : Resource) : r ∈ Resource.all := by
  cases r <;> decide

/-- No labels and an empty set of labels differ. -/
structure PodSelector where
  labels : Option LabelSet
  ns : String
  deriving DecidableEq

def PodSelector.set (selector : PodSelector) : LabelSet := selector.labels.getD []

structure SnatPolicy where
  name : String
  state : Snat.PolicyState
  snatIp : List String
  destIp : List String
  selector : PodSelector
  deriving DecidableEq

structure PortRange where
  first : Int
  last : Int
  deriving DecidableEq

/-- An entry of a `SnatGlobalInfo` object. -/
structure GlobalInfoSpec where
  snatIp : String
  macAddress : String
  portRanges : List PortRange
  snatIpUid : String
  snatPolicyName : String
  deriving DecidableEq

structure OpflexSnatGlobalInfo where
  snatIp : String
  macAddress : String
  portRange : PortRange
  snatIpUid : String
  snatPolicyName : String
  deriving DecidableEq

structure OpflexSnatLocalInfo where
  existing : Bool
  snatPolicies : Resource → List String
  plcyUuids : List String

abbrev PolicyPods := Finmap fun _ : String => Finset Resource

abbrev PolicyLabels := Finmap fun _ : String => Finset Resource

structure Agent where
  snatPolicyCache : Finmap fun _ : String => SnatPolicy
  snatPods : Finmap fun _ : String => PolicyPods
  opflexSnatLocalInfos : Map String OpflexSnatLocalInfo
  opflexSnatGlobalInfos : Finmap fun _ : String => List OpflexSnatGlobalInfo
  snatPolicyLabels : Map String PolicyLabels

/-- `populateSnatLocalInfos` enters the pods that had SNAT addresses before a restart. -/
def Agent.start (poduids : Finset String) : Agent where
  snatPolicyCache := ∅
  snatPods := ∅
  opflexSnatLocalInfos uid := if uid ∈ poduids then some ⟨true, fun _ => [], []⟩ else none
  opflexSnatGlobalInfos := ∅
  snatPolicyLabels := Map.empty

inductive Fault where
  | missingPolicy (name : String)
  | badCidr (text : String)
  | noPortRange
  | noLabels (key : String)
  deriving DecidableEq

structure Config where
  nodeName : String
  sorter : SliceSort Fault

/-- A plain IPv4 address counts as a block of its own. -/
def hostMask (a : String) : String :=
  match parseIP a with
  | some ip => if (to4 ip).isSome then a ++ "/32" else a
  | none => a

def compareIps (ipa ipb : String) : Except Fault Bool :=
  match parseCIDR ipa with
  | none => .error (.badCidr ipa)
  | some (_, ipnetA) =>
    match parseCIDR ipb with
    -- The address of a text that is no block is nil.
    | none => if ipnetA.contains [] then .error (.badCidr ipb) else .ok true
    | some (ipB, ipnetB) =>
      if ipnetA.contains ipB then
        .ok (equal ipnetA.ip ipnetB.ip && decide (ipnetB.mask < ipnetA.mask))
      else .ok true

def compareDest (a b : String) : Except Fault Bool := compareIps (hostMask a) (hostMask b)

def setDestIp (cfg : Config) (destIp : List String) : Except Fault (List String) :=
  cfg.sorter.sort compareDest destIp

/-- The unchecked lookup. -/
def Agent.policy (agent : Agent) (name : String) : Except Fault SnatPolicy :=
  match agent.snatPolicyCache.lookup name with
  | none => .error (.missingPolicy name)
  | some policy => .ok policy

/-- The second policy is looked up for every destination of the first. -/
def Agent.compare (agent : Agent) (plcy1 plcy2 : String) : Except Fault Bool := do
  let policy1 ← agent.policy plcy1
  policy1.destIp.foldlM (fun sort a => do
    let policy2 ← agent.policy plcy2
    policy2.destIp.foldlM (fun sort b => do
      let less ← compareDest a b
      .ok (less || sort)) sort) false

/-- The policies of a pod, the most specific resource first. -/
def Agent.policyStack (cfg : Config) (agent : Agent) (localinfo : OpflexSnatLocalInfo) :
    Except Fault (List String) :=
  Resource.all.foldlM (fun policystack r => do
    let sortedpolicies ← cfg.sorter.sort agent.compare (localinfo.snatPolicies r).eraseDups
    .ok (policystack ++ sortedpolicies)) []

def Agent.nodeInfos (cfg : Config) (agent : Agent) : List OpflexSnatGlobalInfo :=
  (agent.opflexSnatGlobalInfos.lookup cfg.nodeName).getD []

/-- Down to the first policy for all destinations. -/
def Agent.stackUuids (cfg : Config) (agent : Agent) : List String → Except Fault (List String)
  | [] => .ok []
  | name :: policystack => do
    let own := ((agent.nodeInfos cfg).filter fun val => val.snatPolicyName = name).map
      OpflexSnatGlobalInfo.snatIpUid
    let policy ← agent.policy name
    if policy.destIp = [] then .ok own
    else
      let more ← agent.stackUuids cfg policystack
      .ok (own ++ more)

/-- One turn of the loop of `updateEpFiles`. A pod that loses its last address loses its
local info. -/
def Agent.updateEpFile (cfg : Config) (agent : Agent) (uid : String) : Except Fault Agent :=
  match agent.opflexSnatLocalInfos uid with
  | none => .ok agent
  | some localinfo => do
    let policystack ← agent.policyStack cfg localinfo
    let uids ← agent.stackUuids cfg policystack
    if localinfo.plcyUuids = uids then .ok agent
    else if uids = [] then
      .ok { agent with opflexSnatLocalInfos := agent.opflexSnatLocalInfos.erase uid }
    else
      .ok { agent with
        opflexSnatLocalInfos := agent.opflexSnatLocalInfos.put uid
          { localinfo with existing := false, plcyUuids := uids } }

def Agent.updateEpFiles (cfg : Config) (agent : Agent) (poduids : List String) :
    Except Fault Agent :=
  poduids.foldlM (Agent.updateEpFile cfg) agent

/-- `snatPods[name][uid] |= res`. -/
def Agent.setBit (agent : Agent) (name uid : String) (res : Resource) : Agent :=
  let pods := (agent.snatPods.lookup name).getD ∅
  { agent with
    snatPods := agent.snatPods.insert name (pods.insert uid (insert res ((pods.lookup uid).getD ∅))) }

def applyOne (res : Resource) (name : String) (agent : Agent) (uid : String) : Agent :=
  match agent.opflexSnatLocalInfos uid with
  | none =>
    { agent with
      opflexSnatLocalInfos := agent.opflexSnatLocalInfos.put uid
        ⟨false, fun r => if r = res then [name] else [], []⟩ }.setBit name uid res
  | some localinfo =>
    if name ∈ localinfo.snatPolicies res then agent
    else
      { agent with
        opflexSnatLocalInfos := agent.opflexSnatLocalInfos.put uid
          { localinfo with snatPolicies := fun r =>
              if r = res then localinfo.snatPolicies r ++ [name]
              else localinfo.snatPolicies r } }.setBit name uid res

/-- A policy that is new on the node waits for its addresses. -/
def Agent.applyPolicy (cfg : Config) (agent : Agent) (poduids : List String) (res : Resource)
    (snatPolicyName : String) : Except Fault Agent :=
  if poduids = [] then .ok agent
  else
    let nodeUpdate := (agent.snatPods.lookup snatPolicyName).isNone
    let agent :=
      if nodeUpdate then { agent with snatPods := agent.snatPods.insert snatPolicyName ∅ } else agent
    let agent := poduids.foldl (applyOne res snatPolicyName) agent
    if nodeUpdate then .ok agent else agent.updateEpFiles cfg poduids

/-- `snatPods[name][uid] &= ^(res)`, and the entries that become empty go. -/
def Agent.clearBits (agent : Agent) (name uid : String) (res : Finset Resource) : Agent :=
  match agent.snatPods.lookup name with
  | none => agent
  | some pods =>
    match pods.lookup uid with
    | none => agent
    | some bits =>
      if bits \ res = ∅ then
        if pods.erase uid = ∅ then { agent with snatPods := agent.snatPods.erase name }
        else { agent with snatPods := agent.snatPods.insert name (pods.erase uid) }
      else { agent with snatPods := agent.snatPods.insert name (pods.insert uid (bits \ res)) }

/-- The turn of the loop of `deleteSnatLocalInfo` at a bit of the mask. -/
def clearResource (poduid : String) (res : Finset Resource) (plcyname : String) (agent : Agent)
    (i : Resource) : Agent :=
  match agent.opflexSnatLocalInfos poduid with
  | none => agent
  | some localinfo =>
    { agent with
      opflexSnatLocalInfos := agent.opflexSnatLocalInfos.put poduid
        { localinfo with snatPolicies := fun r =>
            if r = i then (localinfo.snatPolicies r).filter fun name => name ≠ plcyname
            else localinfo.snatPolicies r } }.clearBits plcyname poduid res

def Agent.deleteSnatLocalInfo (agent : Agent) (poduid : String) (res : Finset Resource)
    (plcyname : String) : Agent :=
  match agent.opflexSnatLocalInfos poduid with
  | none => agent
  | some _ =>
    (Resource.all.filter fun i => i ∈ res).foldl (clearResource poduid res plcyname) agent

def Agent.policyPods (agent : Agent) (name : String) : PolicyPods :=
  (agent.snatPods.lookup name).getD ∅

/-- Take a policy off all its pods. -/
def Agent.clearPolicy (order : RangeOrder String) (agent : Agent) (name : String) :
    Agent × List String :=
  let pods := agent.policyPods name
  let poduids := order.visit pods.keys
  (poduids.foldl (fun agent uuid =>
    agent.deleteSnatLocalInfo uuid ((pods.lookup uuid).getD ∅) name) agent, poduids)

def Agent.writeSnatPolicyLabel (agent : Agent) (key policy : String) (res : Finset Resource) :
    Except Fault Agent :=
  match agent.snatPolicyLabels key with
  | none => .error (.noLabels key)
  | some labels =>
    .ok { agent with snatPolicyLabels := agent.snatPolicyLabels.put key (labels.insert policy res) }

/-- For the callers that check for the labels of the object first. -/
def Agent.rewriteSnatPolicyLabel (agent : Agent) (key policy : String) (res : Finset Resource) :
    Agent :=
  match agent.snatPolicyLabels key with
  | none => agent
  | some labels =>
    { agent with snatPolicyLabels := agent.snatPolicyLabels.put key (labels.insert policy res) }

def Agent.writeNewSnatPolicyLabel (agent : Agent) (key : String) : Agent :=
  { agent with snatPolicyLabels := agent.snatPolicyLabels.put key ∅ }

def Agent.deleteSnatPolicyLabelEntry (agent : Agent) (key policy : String) : Agent :=
  match agent.snatPolicyLabels key with
  | none => agent
  | some labels =>
    { agent with snatPolicyLabels := agent.snatPolicyLabels.put key (labels.erase policy) }

def Agent.deleteSnatPolicyLabel (agent : Agent) (key : String) : Agent :=
  { agent with snatPolicyLabels := agent.snatPolicyLabels.erase key }

def Agent.deleteMatchingSnatPolicyLabel (agent : Agent) (policy : String) : Agent :=
  { agent with snatPolicyLabels := fun key =>
      (agent.snatPolicyLabels key).map fun labels => labels.erase policy }

def Agent.deletePolicy (cfg : Config) (order : RangeOrder String) (agent : Agent) (name : String) :
    Except Fault Agent :=
  match agent.snatPods.lookup name with
  | none => .ok agent
  | some _ => do
    let (agent, poduids) := agent.clearPolicy order name
    let agent ← agent.updateEpFiles cfg poduids
    .ok ({ agent with snatPods := agent.snatPods.erase name }.deleteMatchingSnatPolicyLabel name)

/-!
# SNAT handlers of the host agent

Which pods a policy is for, which policies an object matches, and the handlers of
`pkg/hostagent/snats.go` for policies, objects that select pods, and the global info that gives
nodes their addresses. `InformNodeInfo` updates endpoint files too, when the policies of the
node did not change.
-/

open Runs

structure Pod where
  ns : String
  name : String
  uid : String
  labels : LabelSet
  nodeName : String
  succeeded : Bool
  deriving DecidableEq

structure Deployment where
  ns : String
  name : String
  uid : String
  labels : LabelSet
  selector : Option LabelSelector
  deriving DecidableEq

structure Service where
  ns : String
  name : String
  uid : String
  labels : LabelSet
  selector : Option LabelSet
  deriving DecidableEq

structure Namespace where
  name : String
  uid : String
  labels : LabelSet
  deriving DecidableEq

inductive Obj where
  | pod (pod : Pod)
  | deployment (dep : Deployment)
  | service (service : Service)
  | namespace (ns : Namespace)
  deriving DecidableEq

def Obj.ns : Obj → String
  | .pod p => p.ns
  | .deployment d => d.ns
  | .service s => s.ns
  | .namespace _ => ""

def Obj.uid : Obj → String
  | .pod p => p.uid
  | .deployment d => d.uid
  | .service s => s.uid
  | .namespace n => n.uid

def Obj.labels : Obj → LabelSet
  | .pod p => p.labels
  | .deployment d => d.labels
  | .service s => s.labels
  | .namespace n => n.labels

/-- A pod that has run to its end. -/
def Obj.succeeded : Obj → Bool
  | .pod p => p.succeeded
  | _ => false

def getResourceType : Obj → Resource
  | .pod _ => .pod
  | .deployment _ => .deployment
  | .service _ => .service
  | .namespace _ => .namespace

/-- `MetaNamespaceUIDFunc`. -/
def Obj.key (obj : Obj) : String := metaNamespaceKey obj.ns obj.uid

/-- What a handler reads besides the agent. -/
structure World where
  pods : List Pod
  deployments : List Deployment
  services : List Service
  namespaces : List Namespace
  depPods : PodSelectorIndex
  opflexEps : Finset String
  order : RangeOrder String
  resources : RangeOrder Resource

/-- `cache.ListAllByNamespace`: the empty name stands for all namespaces. -/
def World.podsIn (w : World) (ns : String) (selector : Selector) : List Pod :=
  w.pods.filter fun pod => (ns = "" || pod.ns = ns) && selector.matchesLabels pod.labels

def localUids (cfg : Config) (pods : List Pod) : List String :=
  (pods.filter fun pod => pod.nodeName = cfg.nodeName).map Pod.uid

def World.podByKey (w : World) (podkey : String) : Option Pod :=
  w.pods.find? fun pod => metaNamespaceKey pod.ns pod.name = podkey

def Agent.isPolicyNameSpaceMatches (agent : Agent) (policyName ns : String) : Bool :=
  (agent.snatPolicyCache.lookup policyName).any fun policy =>
    policy.selector.ns = "" || policy.selector.ns = ns

/-- The pods that an object stands for. -/
def World.podUids (cfg : Config) (w : World) : Obj → List String
  | .pod pod => [pod.uid]
  | .deployment dep =>
    (w.order.visit (w.depPods.getPodForObj (metaNamespaceKey dep.ns dep.name))).filterMap fun podkey =>
      (w.podByKey podkey).map Pod.uid
  | .service service =>
    localUids cfg (w.podsIn service.ns (Snat.selectorFromSet (service.selector.getD [])))
  | .namespace ns => localUids cfg (w.podsIn ns.name everything)

/-- For a pod the code returns no resource. -/
def objectResource : Obj → Finset Resource
  | .pod _ => ∅
  | .deployment _ => {.deployment}
  | .service _ => {.service}
  | .namespace _ => {.namespace}

def Agent.getPodsMatchingObject (cfg : Config) (w : World) (agent : Agent) (obj : Obj)
    (policyname : String) : List String × Finset Resource :=
  if agent.isPolicyNameSpaceMatches policyname obj.ns then (w.podUids cfg obj, objectResource obj)
  else ([], ∅)

/-- `util.MatchLabels`. -/
def matchLabels (policylabels reslabels : LabelSet) : Bool :=
  policylabels.all fun kv => reslabels.lookup kv.1 = some kv.2

def World.getMatchingServices (w : World) (ns : String) (label : LabelSet) : List Service :=
  w.services.filter fun service => (ns = "" || service.ns = ns) &&
    service.selector.any fun selector => (Snat.selectorFromSet selector).matchesLabels label

/-- One `SERVICE` if a service of the object has the labels. -/
def serviceMatch (w : World) (obj : Obj) (labels : LabelSet) : List Resource :=
  if (w.getMatchingServices obj.ns obj.labels).any fun service => matchLabels labels service.labels then
    [.service]
  else []

def namespaceMatch (w : World) (obj : Obj) (labels : LabelSet) : List Resource :=
  match w.namespaces.find? fun n => n.name = obj.ns with
  | none => []
  | some n => if matchLabels labels n.labels then [.namespace] else []

/-- The resources through which the relatives of an object match. -/
def relativesMatch (w : World) (obj : Obj) (item : SnatPolicy) : List Resource :=
  let labels := item.selector.set
  match obj with
  | .pod pod =>
    if item.snatIp = [] then serviceMatch w obj labels
    else
      ((w.order.visit (w.depPods.getObjForPod (metaNamespaceKey pod.ns pod.name))).flatMap fun dpkey =>
        match w.deployments.find? fun dep => metaNamespaceKey dep.ns dep.name = dpkey with
        | none => []
        | some dep => if matchLabels labels dep.labels then [Resource.deployment] else []) ++
      namespaceMatch w obj labels
  | .deployment dep =>
    if item.snatIp = [] then serviceMatch w obj labels
    else
      (match dep.selector.bind fun selector => labelSelectorAsSelector (some selector) with
        | none => []
        | some depSelector =>
          if (w.podsIn dep.ns depSelector).any fun pod => matchLabels labels pod.labels then
            [Resource.pod]
          else []) ++
      namespaceMatch w obj labels
  | _ => []

/-- The resources through which the policy is for the object. -/
def matchingResources (w : World) (obj : Obj) (item : SnatPolicy) : List Resource :=
  if item.selector = ⟨none, ""⟩ then [.cluster]
  else if item.selector.set = [] ∧ item.selector.ns = obj.ns then
    if getResourceType obj = .service then
      if item.snatIp = [] then [.service] else []
    else if item.snatIp ≠ [] then [.namespace] else []
  else if item.selector.ns = "" ∨ item.selector.ns = obj.ns then
    (if matchLabels item.selector.set obj.labels then [getResourceType obj] else []) ++
      relativesMatch w obj item
  else []

/-- The resources of a cached policy in the result of `getMatchingSnatPolicy`. -/
def Agent.matchingOf (w : World) (agent : Agent) (obj : Obj) (name : String) : List Resource :=
  match agent.snatPolicyCache.lookup name with
  | none => []
  | some item => matchingResources w obj item

/-- The names in the result of `getMatchingSnatPolicy`. -/
def Agent.matchingNames (w : World) (agent : Agent) (obj : Obj) : Finset String :=
  agent.snatPolicyCache.keys.filter fun name => agent.matchingOf w obj name ≠ []

/-- The pods by resource, and the agent with its labels written. -/
structure Targets where
  agent : Agent
  resources : Finset Resource
  uids : Resource → List String

/-- One turn of the loop over services. -/
def serviceTurn (cfg : Config) (w : World) (policy : SnatPolicy) (acc : Agent × List String)
    (service : Service) : Agent × List String :=
  let poduids := (acc.1.getPodsMatchingObject cfg w (.service service) policy.name).1
  let agent :=
    if policy.selector.set ≠ [] then
      acc.1.rewriteSnatPolicyLabel (Obj.service service).key policy.name {.service}
    else acc.1
  (agent, acc.2 ++ poduids)

/-- `updateSnatPolicyLabels`, as a turn of the loops over objects with the labels. -/
def labelTurn (cfg : Config) (w : World) (policy : SnatPolicy) (acc : Agent × List String)
    (obj : Obj) : Agent × List String :=
  let matched := acc.1.getPodsMatchingObject cfg w obj policy.name
  let agent :=
    if matched.1 ≠ [] then acc.1.rewriteSnatPolicyLabel obj.key policy.name matched.2 else acc.1
  (agent, acc.2 ++ matched.1)

def Agent.policyTargets (cfg : Config) (w : World) (agent : Agent) (policy : SnatPolicy) : Targets :=
  let labels := policy.selector.set
  let selector := Snat.selectorFromSet labels
  if policy.snatIp = [] then
    let services := w.services.filter fun service => selector.matchesLabels service.labels
    let r := services.foldl (serviceTurn cfg w policy) (agent, [])
    ⟨r.1, {.service}, fun _ => r.2⟩
  else if policy.selector = ⟨none, ""⟩ then
    ⟨agent, {.cluster}, fun _ => w.order.visit w.opflexEps⟩
  else if labels = [] then
    ⟨agent, {.namespace}, fun _ => localUids cfg (w.podsIn policy.selector.ns everything)⟩
  else
    let pods := (w.pods.filter fun pod =>
      selector.matchesLabels pod.labels && pod.nodeName = cfg.nodeName).map Obj.pod
    let deps := (w.deployments.filter fun dep => selector.matchesLabels dep.labels).map Obj.deployment
    let nss := (w.namespaces.filter fun n => selector.matchesLabels n.labels).map Obj.namespace
    let rpod := pods.foldl (labelTurn cfg w policy) (agent, [])
    let rdep := deps.foldl (labelTurn cfg w policy) (rpod.1, [])
    let rns := nss.foldl (labelTurn cfg w policy) (rdep.1, [])
    ⟨rns.1, {.pod, .deployment, .namespace}, fun r =>
      match r with
      | .pod => rpod.2
      | .deployment => rdep.2
      | .namespace => rns.2
      | _ => []⟩

def World.getPodUidsSucceeded (cfg : Config) (w : World) : List String :=
  w.namespaces.flatMap fun n =>
    localUids cfg ((w.podsIn n.name everything).filter Pod.succeeded)

def difference (a b : List String) : List String := a.filter fun x => x ∉ b

def Agent.handleSnatUpdate (cfg : Config) (w : World) (agent : Agent) (policy : SnatPolicy) :
    Except Fault Agent :=
  let targets := agent.policyTargets cfg w policy
  (w.resources.visit targets.resources).foldlM (fun agent res =>
    agent.applyPolicy cfg (difference (targets.uids res) (w.getPodUidsSucceeded cfg)) res policy.name)
    targets.agent

/-- The policy enters the cache with its destinations sorted. -/
def Agent.cachePolicy (cfg : Config) (agent : Agent) (policy : SnatPolicy) :
    Except Fault (Agent × SnatPolicy) := do
  let destIp ← setDestIp cfg policy.destIp
  let policy := { policy with destIp := destIp }
  .ok ({ agent with snatPolicyCache := agent.snatPolicyCache.insert policy.name policy }, policy)

def Agent.snatPolicyAdded (cfg : Config) (w : World) (agent : Agent) (policyinfo : SnatPolicy) :
    Except Fault Agent :=
  if policyinfo.state ≠ .ready then .ok agent
  else do
    let (agent, policy) ← agent.cachePolicy cfg policyinfo
    agent.handleSnatUpdate cfg w policy

/-- The policy selects other pods now. -/
def Agent.reselect (cfg : Config) (w : World) (agent : Agent) (policy : SnatPolicy) :
    Except Fault Agent := do
  let (agent, poduids) := agent.clearPolicy w.order policy.name
  let agent ← agent.updateEpFiles cfg poduids
  let agent ← agent.handleSnatUpdate cfg w policy
  let matchingpods := w.order.visit (agent.policyPods policy.name).keys
  if poduids ≠ [] ∧ matchingpods = [] then .ok agent
  else agent.updateEpFiles cfg matchingpods

def Agent.snatPolicyUpdated (cfg : Config) (w : World) (agent : Agent)
    (oldpolicyinfo newpolicyinfo : SnatPolicy) : Except Fault Agent :=
  if oldpolicyinfo = newpolicyinfo then .ok agent
  else if newpolicyinfo.state ≠ .ready then .ok agent
  else do
    let (agent, policy) ← agent.cachePolicy cfg newpolicyinfo
    if policy.state ≠ oldpolicyinfo.state then agent.handleSnatUpdate cfg w policy
    else if oldpolicyinfo.selector ≠ policy.selector then agent.reselect cfg w policy
    else if oldpolicyinfo.destIp ≠ policy.destIp then
      agent.updateEpFiles cfg (w.order.visit (agent.policyPods policy.name).keys)
    else .ok agent

def Agent.snatPolicyDeleted (cfg : Config) (w : World) (agent : Agent) (policyinfo : SnatPolicy) :
    Except Fault Agent := do
  let agent ← agent.deletePolicy cfg w.order policyinfo.name
  .ok { agent with snatPolicyCache := agent.snatPolicyCache.erase policyinfo.name }

def Agent.isPresentInOpflexSnatLocalInfos (agent : Agent) (poduids : List String)
    (res : Finset Resource) (name : String) : Bool :=
  poduids.all fun uid =>
    (agent.opflexSnatLocalInfos uid).any fun localinfo =>
      Resource.all.any fun r => res = {r} && name ∈ localinfo.snatPolicies r

/-- The turn of the loop over the policies of an object that was seen with none. -/
def freshTurn (cfg : Config) (w : World) (obj : Obj) (resources : String → List Resource)
    (agent : Agent) (name : String) : Except Fault Agent :=
  (resources name).foldlM (fun agent res => do
    let poduids := (agent.getPodsMatchingObject cfg w obj name).1
    let policy ← agent.policy name
    let agent ← agent.applyPolicy cfg poduids res name
    if policy.selector.set = [] then .ok agent
    else agent.writeSnatPolicyLabel obj.key name {res}) agent

/-- The turn of the loop over the policies that the object was seen with: the pods whose
policy goes, and the policies that need nothing more. -/
def seenTurn (cfg : Config) (w : World) (obj : Obj) (plcynames : PolicyLabels)
    (matchnames : Finset String) (acc : Agent × List String × Finset String) (name : String) :
    Agent × List String × Finset String :=
  let agent := acc.1
  let res := (plcynames.lookup name).getD ∅
  let poduids := (agent.getPodsMatchingObject cfg w obj name).1
  if name ∉ matchnames then
    let agent := poduids.foldl (fun agent uid => agent.deleteSnatLocalInfo uid res name) agent
    (agent.deleteSnatPolicyLabelEntry obj.key name, acc.2.1 ++ poduids, insert name acc.2.2)
  else if agent.isPresentInOpflexSnatLocalInfos poduids res name then
    (agent, acc.2.1, insert name acc.2.2)
  else acc

/-- The turn of the loop over the policies that the object matches now. -/
def matchTurn (cfg : Config) (w : World) (obj : Obj) (resources : String → List Resource)
    (seen : Finset String) (agent : Agent) (name : String) : Except Fault Agent :=
  if name ∈ seen then .ok agent
  else
    (resources name).foldlM (fun agent res => do
      let poduids := (agent.getPodsMatchingObject cfg w obj name).1
      let agent ← agent.applyPolicy cfg poduids res name
      agent.writeSnatPolicyLabel obj.key name {res}) agent

/-- `delete(agent.snatPods[name], uid)`. -/
def Agent.dropPod (agent : Agent) (uid name : String) : Agent :=
  match agent.snatPods.lookup name with
  | none => agent
  | some pods => { agent with snatPods := agent.snatPods.insert name (pods.erase uid) }

/-- The turn of the loop over the policies of a deleted object. -/
def dropTurn (cfg : Config) (w : World) (obj : Obj) (resources : String → List Resource)
    (acc : Agent × List String) (name : String) : Agent × List String :=
  let poduids := (acc.1.getPodsMatchingObject cfg w obj name).1
  let agent := poduids.foldl (fun agent uid =>
    if getResourceType obj = .service then
      (resources name).foldl (fun agent res => agent.deleteSnatLocalInfo uid {res} name) agent
    else
      { agent with opflexSnatLocalInfos := agent.opflexSnatLocalInfos.erase uid }.dropPod uid name)
    acc.1
  (agent, acc.2 ++ poduids)

/-- The entries that are left for a deleted pod. -/
def Agent.dropPodEntries (agent : Agent) (uid : String) : Agent :=
  match agent.opflexSnatLocalInfos uid with
  | none => agent
  | some localinfo =>
    let agent := (Resource.all.flatMap localinfo.snatPolicies).foldl
      (fun agent name => agent.dropPod uid name) agent
    { agent with opflexSnatLocalInfos := agent.opflexSnatLocalInfos.erase uid }

def Agent.handleObjectDeleteForSnat (cfg : Config) (w : World) (agent : Agent) (obj : Obj) :
    Except Fault Agent :=
  let names := agent.matchingNames w obj
  let r := (w.order.visit names).foldl (dropTurn cfg w obj (agent.matchingOf w obj)) (agent, [])
  let agent := r.1.deleteSnatPolicyLabel obj.key
  match obj with
  | .pod pod => .ok (agent.dropPodEntries pod.uid)
  | .service _ => if names = ∅ then .ok agent else agent.updateEpFiles cfg r.2
  | _ => .ok agent

def Agent.handleObjectUpdateForSnat (cfg : Config) (w : World) (agent : Agent) (obj : Obj) :
    Except Fault Agent :=
  if obj.succeeded then agent.handleObjectDeleteForSnat cfg w obj
  else
    let plcynames := (agent.snatPolicyLabels obj.key).getD ∅
    let agent :=
      if (agent.snatPolicyLabels obj.key).isNone then agent.writeNewSnatPolicyLabel obj.key else agent
    let matchnames := agent.matchingNames w obj
    let resources := agent.matchingOf w obj
    if plcynames = ∅ then
      (w.order.visit matchnames).foldlM (freshTurn cfg w obj resources) agent
    else do
      let r := (w.order.visit plcynames.keys).foldl (seenTurn cfg w obj plcynames matchnames)
        (agent, [], ∅)
      let agent ← if r.2.1 ≠ [] then r.1.updateEpFiles cfg r.2.1 else .ok r.1
      (w.order.visit matchnames).foldlM (matchTurn cfg w obj resources r.2.2) agent

def globalInfo (v : GlobalInfoSpec) : Except Fault OpflexSnatGlobalInfo :=
  match v.portRanges with
  | [] => .error .noPortRange
  | portRange :: _ => .ok ⟨v.snatIp, v.macAddress, portRange, v.snatIpUid, v.snatPolicyName⟩

abbrev GlobalInfos := Finmap fun _ : String => List GlobalInfoSpec

/-- The turn of the loop over the nodes; also whether the own node changed. -/
def nodeTurn (cfg : Config) (infos : GlobalInfos) (acc : Agent × Bool) (nodename : String) :
    Except Fault (Agent × Bool) := do
  let newglobalinfos ← ((infos.lookup nodename).getD []).mapM globalInfo
  if acc.1.opflexSnatGlobalInfos.lookup nodename = some newglobalinfos then .ok acc
  else
    .ok ({ acc.1 with
      opflexSnatGlobalInfos := acc.1.opflexSnatGlobalInfos.insert nodename newglobalinfos },
      acc.2 || nodename = cfg.nodeName)

/-- Nodes go only when the object has fewer nodes than the agent. -/
def Agent.dropNodes (order : RangeOrder String) (agent : Agent) (infos : GlobalInfos) : Agent :=
  if infos.keys.card < agent.opflexSnatGlobalInfos.keys.card then
    { agent with
      opflexSnatGlobalInfos := (order.visit (agent.opflexSnatGlobalInfos.keys \ infos.keys)).foldl
        (fun globalInfos nodename => globalInfos.erase nodename) agent.opflexSnatGlobalInfos }
  else agent

def Agent.snatGlobalInfoChanged (cfg : Config) (w : World) (agent : Agent) (infos : GlobalInfos) :
    Except Fault Agent := do
  let agent := agent.dropNodes w.order infos
  let (agent, updateLocalInfo) ← (w.order.visit infos.keys).foldlM (nodeTurn cfg infos) (agent, false)
  if updateLocalInfo then
    agent.updateEpFiles cfg ((agent.nodeInfos cfg).flatMap fun v =>
      w.order.visit (agent.policyPods v.snatPolicyName).keys)
  else .ok agent

def Agent.snatGlobalInfoDelete (order : RangeOrder String) (agent : Agent) (infos : GlobalInfos) :
    Agent :=
  { agent with
    opflexSnatGlobalInfos := (order.visit infos.keys).foldl
      (fun globalInfos nodename => globalInfos.erase nodename) agent.opflexSnatGlobalInfos }

/-- The branch of `InformNodeInfo` for unchanged policies of the node. -/
def Agent.informNodeInfo (cfg : Config) (w : World) (agent : Agent) (snatpolicies : Finset String) :
    Except Fault Agent :=
  agent.updateEpFiles cfg ((w.order.visit snatpolicies).flatMap fun name =>
    w.order.visit (agent.policyPods name).keys)

inductive Event where
  | policyAdded (policy : SnatPolicy)
  | policyUpdated (oldpolicy newpolicy : SnatPolicy)
  | policyDeleted (policy : SnatPolicy)
  | objectUpdated (obj : Obj)
  | objectDeleted (obj : Obj)
  | globalInfoChanged (infos : GlobalInfos)
  | globalInfoDeleted (infos : GlobalInfos)
  | nodeInfoUnchanged (snatpolicies : Finset String)

def Event.handle (cfg : Config) (w : World) (agent : Agent) : Event → Except Fault Agent
  | .policyAdded policy => agent.snatPolicyAdded cfg w policy
  | .policyUpdated oldpolicy newpolicy => agent.snatPolicyUpdated cfg w oldpolicy newpolicy
  | .policyDeleted policy => agent.snatPolicyDeleted cfg w policy
  | .objectUpdated obj => agent.handleObjectUpdateForSnat cfg w obj
  | .objectDeleted obj => agent.handleObjectDeleteForSnat cfg w obj
  | .globalInfoChanged infos => agent.snatGlobalInfoChanged cfg w infos
  | .globalInfoDeleted infos => .ok (agent.snatGlobalInfoDelete w.order infos)
  | .nodeInfoUnchanged snatpolicies => agent.informNodeInfo cfg w snatpolicies

def step (cfg : Config) (agent : Except Fault Agent) (e : World × Event) : Except Fault Agent :=
  agent >>= fun agent => e.2.handle cfg e.1 agent

end AciContainers.HostSnat
