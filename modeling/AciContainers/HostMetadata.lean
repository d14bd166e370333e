import AciContainers.PolicyHash
import AciContainers.PodSelectorIndexCallbacks

/-!
# Metadata of containers

What the host agent records of the network interfaces of a container, in
`pkg/hostagent/setup.go` and `pkg/metadata`.
-/
namespace AciContainers.Host

open Net Maps

structure ContainerIfaceIP where
  address : IPNet
  gateway : IP

def addresses (ips : List ContainerIfaceIP) : List IP := ips.map fun ip => ip.address.ip

structure ContainerIfaceMd where
  hostVethName : String
  name : String
  mac : String
  sandbox : String
  ips : List ContainerIfaceIP
  vfNetDevice : String

structure ContainerId where
  ns : String
  pod : String
  contId : String
  deviceId : String

structure ContainerNetworkMetadata where
  networkName : String
  chainedMode : Bool
  vfName : String
  pfName : String

structure ContainerMetadata where
  id : ContainerId
  ifaces : List ContainerIfaceMd
  network : ContainerNetworkMetadata

abbrev Containers := Finmap fun _ : String => ContainerMetadata

/-!
# Pods and security groups on the host

`pkg/hostagent/pods.go`, `group_assign.go` and the network policy handlers of
`pod_relatives.go`: how the agent keeps the opflex endpoints of the pods of its node, each with
the security groups that `mergeNetPolSg` puts together from the policies that select the pod.
The network metadata of the containers, the configured and annotated groups, and the namespaces
are fixed. An index out of range stops the agent: the handlers return nothing then.
-/

open Labels Index Policy
open NetPol (Direction)

structure OpflexGroup where
  tenant : String
  policySpace : String
  appProfile : String
  name : String
  deriving DecidableEq

abbrev Annotations := List (String × String)

/-- A pod as its informer stores it; `labels` is the map or nil. -/
structure PodObject where
  ns : String
  name : String
  uid : String
  labels : Option LabelSet
  annotations : Annotations
  nodeName : String
  hostNetwork : Bool
  podIP : String
  podIPs : List String
  deriving DecidableEq

/-- The pod as the selector index reads it. -/
def PodObject.indexed (pod : PodObject) : Index.Pod :=
  ⟨pod.ns, pod.name, pod.labels.getD [], pod.podIP, pod.podIPs⟩

def PodObject.key (pod : PodObject) : String := podKey pod.indexed

def PodObject.epMetaKey (pod : PodObject) : String := pod.ns ++ "/" ++ pod.name

def podFilter (pod : PodObject) : Bool := !pod.hostNetwork

structure OpflexEndpoint where
  uuid : String
  egPolicySpace : String
  endpointGroup : String
  securityGroup : List OpflexGroup
  ipAddress : List String
  macAddress : String
  accessIface : String
  accessUplinkIface : String
  ifaceName : String
  attributes : LabelSet
  registered : Bool
  deriving DecidableEq

structure Node where
  aciPrefix : String
  hppOptimization : Bool
  /-- `DefaultEg.PolicySpace` -/
  policySpace : String
  digest : String → String
  namespaces : List Namespace
  /-- The endpoint group and the security groups of a pod by its key and its annotations,
  from the configuration, its namespace, its deployment and its own annotations. -/
  annotatedEg : String → Annotations → OpflexGroup
  annotatedSg : String → Annotations → List OpflexGroup
  epMetadata : Map String Containers

structure PodAgent where
  pods : List PodObject
  policies : List NetworkPolicy
  netPolPods : PodSelectorIndex
  opflexEps : Map String (List OpflexEndpoint)
  cniToPodID : Map String String
  podIpToName : Map String String
  podUidToName : Map String String

def PodAgent.start : PodAgent :=
  ⟨[], [], newPodSelectorIndex, Map.empty, Map.empty, Map.empty, Map.empty⟩

def PodAgent.podByKey (agent : PodAgent) : String → Option PodObject :=
  getByKey PodObject.key agent.pods

def PodAgent.policyByKey (agent : PodAgent) : String → Option NetworkPolicy :=
  getByKey NetworkPolicy.key agent.policies

/-- The stores that the index reads. -/
def PodAgent.store (node : Node) (agent : PodAgent) : Store NetworkPolicy :=
  ⟨agent.pods.map PodObject.indexed, node.namespaces, agent.policies⟩

/-- The functions that `initNetPolPodIndex` creates the index with. -/
def netPolPodFuncs : Funcs NetworkPolicy where
  getKey := NetworkPolicy.key
  getPodSelector np := podSelectorFromNsAndSelector np.ns (some np.podSelector)
  podHashFunc := none

/-- The groups so far, and the same as a set. -/
structure GroupSet where
  gset : Finset OpflexGroup
  g : List OpflexGroup
  same : g.toFinset = gset

def GroupSet.empty : GroupSet := ⟨∅, [], rfl⟩

/-- Groups that the user names are appended even when they are there already. -/
def GroupSet.append (a : GroupSet) (og : OpflexGroup) : GroupSet :=
  ⟨insert og a.gset, a.g ++ [og], by simp [a.same]⟩

def Node.group (node : Node) (ktype key : String) : OpflexGroup :=
  ⟨"", node.policySpace, "", aciNameForKey node.digest node.aciPrefix ktype key⟩

def GroupSet.addGroup (a : GroupSet) (newg : OpflexGroup) : GroupSet :=
  if newg ∈ a.gset then a else a.append newg

/-- The group of a network policy. -/
def Node.policyGroup (node : Node) (npkey : String) (np : NetworkPolicy) : OpflexGroup :=
  if node.hppOptimization then node.group "np" (createHashFromNetPol node.digest np)
  else node.group "np" npkey

/-- One turn of the loop over the policies that select the pod. -/
def addNetPol (node : Node) (agent : PodAgent) (acc : GroupSet × Finset Direction) (npkey : String) :
    GroupSet × Finset Direction :=
  match agent.policyByKey npkey with
  | none => acc
  | some np =>
    (acc.1.addGroup (node.policyGroup npkey np), acc.2 ∪ (getNetPolPolicyTypes np).toFinset)

def mergeNetPolSg (node : Node) (order : RangeOrder String) (agent : PodAgent) (podkey : String)
    (pod : PodObject) (sgval : List OpflexGroup) : List OpflexGroup :=
  let r := (order.visit (agent.netPolPods.getObjForPod podkey)).foldl (addNetPol node agent)
    (GroupSet.empty, ∅)
  if r.1.gset = ∅ then sgval
  else
    let a := sgval.foldl GroupSet.append r.1
    let a := if pod.nodeName ≠ "" then a.addGroup (node.group "node" pod.nodeName) else a
    let a := a.addGroup (node.group "np" "static-discovery")
    let a := if .ingress ∈ r.2 then a else a.addGroup (node.group "np" "static-ingress")
    let a := if .egress ∈ r.2 then a else a.addGroup (node.group "np" "static-egress")
    if a.g = [] then sgval else a.g

/-- The policies as `mergeNetPolSg` leaves them: the hash sorts the selectors of each policy
that selects the pod. -/
def mergedPolicies (node : Node) (agent : PodAgent) (podkey : String) : List NetworkPolicy :=
  if node.hppOptimization then
    agent.policies.map fun np =>
      if np.key ∈ agent.netPolPods.getObjForPod podkey then np.hashed else np
  else agent.policies

def newEndpoint (epUuid : String) (epmeta : ContainerMetadata) (epGroup : OpflexGroup)
    (epSecGroups : List OpflexGroup) (epAttributes : LabelSet) (iface : ContainerIfaceMd) :
    OpflexEndpoint where
  uuid := epUuid ++ "_" ++ epmeta.id.contId ++ "_" ++ iface.hostVethName
  egPolicySpace := if epGroup.tenant ≠ "" then epGroup.tenant else epGroup.policySpace
  endpointGroup :=
    if epGroup.appProfile ≠ "" then epGroup.appProfile ++ "|" ++ epGroup.name else epGroup.name
  securityGroup := epSecGroups
  ipAddress := ((addresses iface.ips).filter (· ≠ [])).map ipString
  macAddress := iface.mac
  accessIface := iface.hostVethName
  accessUplinkIface := "pa-" ++ iface.hostVethName
  ifaceName := "pi-" ++ iface.hostVethName
  attributes := ("interface-name", iface.hostVethName) ::
    epAttributes.filter fun kv => kv.1 ≠ "interface-name"
  registered := false

def containerEndpoints (epUuid : String) (epGroup : OpflexGroup) (epSecGroups : List OpflexGroup)
    (epAttributes : LabelSet) : Option ContainerMetadata → List OpflexEndpoint
  | none => []
  | some epmeta => epmeta.ifaces.map (newEndpoint epUuid epmeta epGroup epSecGroups epAttributes)

def newEndpoints (order : RangeOrder String) (epUuid : String) (epmetadata : Containers)
    (epGroup : OpflexGroup) (epSecGroups : List OpflexGroup) (epAttributes : LabelSet) :
    List OpflexEndpoint :=
  (order.visit epmetadata.keys).flatMap fun contId =>
    containerEndpoints epUuid epGroup epSecGroups epAttributes (epmetadata.lookup contId)

/-- The loop that copies the registration place by place; it fails on a new list that is
shorter than the old one. -/
def keepRegistered : List OpflexEndpoint → List OpflexEndpoint → Option (List OpflexEndpoint)
  | [], neweps => some neweps
  | _ :: _, [] => none
  | ep :: existing, newep :: neweps =>
    (keepRegistered existing neweps).map ({ newep with registered := ep.registered } :: ·)

/-- Write new endpoints; the log line reads the first one. -/
def putEndpoints (eps : Map String (List OpflexEndpoint)) (epUuid : String)
    (neweps : List OpflexEndpoint) : Option (Map String (List OpflexEndpoint)) :=
  if neweps = [] then none else some (eps.put epUuid neweps)

/-- Write new endpoints unless they are there already. -/
def replaceEndpoints (eps : Map String (List OpflexEndpoint)) (epUuid : String)
    (neweps : List OpflexEndpoint) : Option (Map String (List OpflexEndpoint)) :=
  match eps epUuid with
  | none => putEndpoints eps epUuid neweps
  | some existing =>
    (keepRegistered existing neweps).bind fun neweps =>
      if existing = neweps then some eps else putEndpoints eps epUuid neweps

def epChanged (node : Node) (order : RangeOrder String) (eps : Map String (List OpflexEndpoint))
    (epUuid epMetaKey : String) (epGroup : OpflexGroup) (epSecGroups : List OpflexGroup)
    (epAttributes : LabelSet) : Option (Map String (List OpflexEndpoint)) :=
  match node.epMetadata epMetaKey with
  | none => some (eps.erase epUuid)
  | some epmetadata => replaceEndpoints eps epUuid
      (newEndpoints order epUuid epmetadata epGroup epSecGroups epAttributes)

def setLabel (ls : LabelSet) (k v : String) : LabelSet := (k, v) :: ls.filter fun kv => kv.1 ≠ k

/-- The attributes of the endpoints of a pod. -/
def PodObject.epAttributes (pod : PodObject) : LabelSet :=
  setLabel (setLabel (pod.labels.getD []) "vm-name" pod.name) "namespace" pod.ns

/-- The attributes are added to the label map of the stored pod itself, unless it is nil. -/
def PodObject.attributed (pod : PodObject) : PodObject :=
  { pod with labels := pod.labels.map fun _ => pod.epAttributes }

def podIPSet (pod : PodObject) : List String :=
  if pod.podIP ≠ "" then pod.podIP :: pod.podIPs else []

def podChangedLocked (node : Node) (order : RangeOrder String) (agent : PodAgent) (pod : PodObject) :
    Option PodAgent :=
  if podFilter pod = false then some { agent with opflexEps := agent.opflexEps.erase pod.uid }
  else
    let sgval := mergeNetPolSg node order agent pod.key pod (node.annotatedSg pod.key pod.annotations)
    (epChanged node order agent.opflexEps pod.uid pod.epMetaKey
        (node.annotatedEg pod.key pod.annotations) sgval pod.epAttributes).map fun eps =>
      { agent with
        pods := agent.pods.map fun p => if p.key = pod.key then p.attributed else p
        policies := mergedPolicies node agent pod.key
        opflexEps := eps
        cniToPodID := agent.cniToPodID.put pod.epMetaKey pod.uid
        podIpToName := (podIPSet pod).foldl (fun m ip => m.put ip pod.epMetaKey) agent.podIpToName
        podUidToName := agent.podUidToName.put pod.uid pod.epMetaKey }

def podUpdated (node : Node) (order : RangeOrder String) (agent : PodAgent) (pod : PodObject) :
    Option PodAgent :=
  podChangedLocked node order
    { agent with
      netPolPods := (agent.netPolPods.updatePodNoCallback netPolPodFuncs pod.indexed).1 } pod

def podChanged (node : Node) (order : RangeOrder String) (agent : PodAgent) (podkey : String) :
    Option PodAgent :=
  match agent.podByKey podkey with
  | none => some agent
  | some pod => podChangedLocked node order agent pod

/-- The pod update callback of the index. -/
def podCallback (node : Node) (order : RangeOrder String) (agent : PodAgent) (podkey : String) :
    Option PodAgent :=
  match agent.podByKey podkey with
  | none => some agent
  | some pod => podUpdated node order agent pod

def updatePods (node : Node) (order : RangeOrder String) (agent : PodAgent)
    (updated : Finset String) : Option PodAgent :=
  (order.visit updated).foldlM (podCallback node order) agent

def cniEpDelete (agent : PodAgent) (cniKey : String) : PodAgent :=
  match agent.cniToPodID cniKey with
  | none => agent
  | some epUuid =>
    { agent with
      cniToPodID := agent.cniToPodID.erase cniKey
      opflexEps := agent.opflexEps.erase epUuid }

/-- What clearing the containers of a pod does to its endpoints. -/
def unconfigureAll (node : Node) (order : RangeOrder String) (agent : PodAgent) (podid : String) :
    PodAgent :=
  match node.epMetadata podid with
  | none => agent
  | some mdmap => (order.visit mdmap.keys).foldl (fun agent _ => cniEpDelete agent podid) agent

def podDeletedLocked (agent : PodAgent) (pod : PodObject) : PodAgent :=
  { agent with
    opflexEps := agent.opflexEps.erase pod.uid
    podIpToName := if pod.podIP ≠ "" then agent.podIpToName.erase pod.podIP else agent.podIpToName
    podUidToName := agent.podUidToName.erase pod.uid }

def podDeleted (node : Node) (order : RangeOrder String) (agent : PodAgent) (pod : PodObject) :
    PodAgent :=
  let agent := podDeletedLocked (unconfigureAll node order agent pod.epMetaKey) pod
  { agent with netPolPods := (agent.netPolPods.deletePod pod.indexed).1 }

def networkPolicyAdded (node : Node) (order : RangeOrder String) (agent : PodAgent)
    (np : NetworkPolicy) : Option PodAgent :=
  let r := agent.netPolPods.updateSelectorObj netPolPodFuncs (agent.store node) np
  updatePods node order { agent with netPolPods := r.1 } r.2.pods

/-- A changed pod selector goes to the index, with the callbacks for the pods. -/
def selectorChanged (node : Node) (order : RangeOrder String) (agent : PodAgent)
    (oldnp newnp : NetworkPolicy) : Option PodAgent :=
  if oldnp.podSelector = newnp.podSelector then some agent
  else
    let r := agent.netPolPods.updateSelectorObjNoCallback netPolPodFuncs (agent.store node) newnp
    updatePods node order { agent with netPolPods := r.1 } r.2.1.pods

def sameSpec (node : Node) (oldnp newnp : NetworkPolicy) : Bool :=
  if node.hppOptimization then
    oldnp.podSelector = newnp.podSelector ∧ oldnp.ingress = newnp.ingress ∧
      oldnp.egress = newnp.egress ∧ oldnp.policyTypes = newnp.policyTypes
  else oldnp.policyTypes = newnp.policyTypes

def networkPolicyChanged (node : Node) (order : RangeOrder String) (agent : PodAgent)
    (oldnp newnp : NetworkPolicy) : Option PodAgent :=
  (selectorChanged node order agent oldnp newnp).bind fun agent =>
    if sameSpec node oldnp newnp then some agent
    else (order.visit (agent.netPolPods.getPodForObj newnp.key)).foldlM (podChanged node order) agent

def networkPolicyDeleted (node : Node) (order : RangeOrder String) (agent : PodAgent)
    (np : NetworkPolicy) : Option PodAgent :=
  let r := agent.netPolPods.deleteSelectorObj netPolPodFuncs np
  updatePods node order { agent with netPolPods := r.1 } r.2.pods

/-- What the informers deliver; the first two kinds of a resource are one event, told apart
by what the store has. -/
inductive PodEvent where
  | podSet (order : RangeOrder String) (pod : PodObject)
  | podGone (order : RangeOrder String) (pod : PodObject)
  | policySet (order : RangeOrder String) (np : NetworkPolicy)
  | policyGone (order : RangeOrder String) (np : NetworkPolicy)

/-- The informer changes its store and calls the handler. -/
def PodEvent.handle (node : Node) (agent : PodAgent) : PodEvent → Option PodAgent
  | .podSet order pod =>
    podUpdated node order { agent with pods := setByKey PodObject.key agent.pods pod } pod
  | .podGone order pod =>
    some (podDeleted node order
      { agent with pods := removeByKey PodObject.key agent.pods pod.key } pod)
  | .policySet order np =>
    let stored := { agent with policies := setByKey NetworkPolicy.key agent.policies np }
    match agent.policyByKey np.key with
    | none => networkPolicyAdded node order stored np
    | some oldnp => networkPolicyChanged node order stored oldnp np
  | .policyGone order np =>
    networkPolicyDeleted node order
      { agent with policies := removeByKey NetworkPolicy.key agent.policies np.key } np

def podStep (node : Node) (agent : Option PodAgent) (e : PodEvent) : Option PodAgent :=
  agent.bind fun agent => e.handle node agent

end AciContainers.Host
