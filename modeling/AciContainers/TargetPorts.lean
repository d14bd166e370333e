import AciContainers.PolicyHash

/-!
# The index of target ports

`pkg/controller/network_policy.go` keeps an index from the ports of egress rules to the policies
that name them. A port that is given by name stands for the numbers that the containers of pods
give to the name: for a rule without peers those of all pods, kept in a cache by name, and for a
rule with peers those of the pods that the egress index lists. Ports are keyed by the protocol
and the number or the name. A port without either stops the controller, and the handlers return
nothing then.
-/
namespace AciContainers.TargetPorts

open Index Maps Policy
open NetPol (netPolEgressPods)

inductive Proto where
  | tcp
  | udp
  | sctp
  deriving DecidableEq

/-- Everything that is not UDP or SCTP counts as TCP. -/
def portProto : Option String → Proto
  | some "UDP" => .udp
  | some "SCTP" => .sctp
  | _ => .tcp

inductive PortKey where
  | num (proto : Proto) (n : Int)
  | name (proto : Proto) (name : String)
  deriving DecidableEq

structure TargetPort where
  proto : String
  ports : Finset Int

structure PortIndexEntry where
  port : TargetPort
  serviceKeys : Finset String
  networkPolicyKeys : Finset String

structure ContainerPort where
  name : String
  protocol : String
  containerPort : Nat
  deriving DecidableEq

structure PodPorts where
  pod : Index.Pod
  hostNetwork : Bool
  /-- The ports of each container. -/
  containers : List (List ContainerPort)

def PodPorts.key (pod : PodPorts) : String := podKey pod.pod

def PodPorts.ports (pod : PodPorts) : List ContainerPort := pod.containers.flatten

/-- The first port with the name, whatever its protocol. -/
def lookupContainerPortNumberByName (pod : PodPorts) (name : String) : Option Nat :=
  (pod.ports.find? fun p => p.name = name).map ContainerPort.containerPort

/-- The pods by protocol and number of the port. -/
abbrev CtrPortNameEntry := Finmap fun _ : Proto × Nat => Finset String

structure State where
  policies : Map String NetworkPolicy
  pods : List PodPorts
  netPolEgressPods : PodSelectorIndex
  ctrPortNameCache : Map String CtrPortNameEntry
  nmPortNp : Finset String
  targetPortIndex : Map PortKey PortIndexEntry

def State.start : State := ⟨Map.empty, [], newPodSelectorIndex, Map.empty, ∅, Map.empty⟩

def State.podByKey (s : State) : Map String PodPorts := getByKey PodPorts.key s.pods

def namedPortLoop : List Port → Option Bool
  | [] => some false
  | p :: ports =>
    match p.port with
    | none => none
    | some (.str _) => some true
    | some (.int _) => namedPortLoop ports

def egressPorts (np : NetworkPolicy) : List Port := np.egress.flatMap Rule.ports

def isNamedPortPresenInNp (np : NetworkPolicy) : Option Bool := namedPortLoop (egressPorts np)

def getPortNumsFromPortName (podByKey : Map String PodPorts) (podKeys : Finset String) (portName : String) :
    Finset Int :=
  podKeys.biUnion fun podkey =>
    (((podByKey podkey).bind fun pod => lookupContainerPortNumberByName pod portName).map
      fun n : Nat => (n : Int)).toFinset

/-- The numbers that the cache has for the name. -/
def cachedPortNums (cache : Map String CtrPortNameEntry) (proto : Proto) (portName : String) :
    Finset Int :=
  match cache portName with
  | none => ∅
  | some entry => (entry.keys.filter fun key => key.1 = proto).image fun key => (key.2 : Int)

/-- The key and the numbers of a port of a rule; a name without numbers gives nothing. -/
def portTarget (s : State) (np : NetworkPolicy) (rule : Rule) (p : Port) :
    Option (PortKey × TargetPort) :=
  let proto := portProto p.protocol
  match p.port with
  | none => none
  | some (.int n) => some (.num proto n, ⟨p.protocol.getD "TCP", {n}⟩)
  | some (.str name) =>
    let portnums :=
      if rule.peers ≠ [] then
        getPortNumsFromPortName s.podByKey (s.netPolEgressPods.getPodForObj np.key) name
      else cachedPortNums s.ctrPortNameCache proto name
    if portnums = ∅ then none else some (.name proto name, ⟨p.protocol.getD "TCP", portnums⟩)

def addPortTarget (s : State) (np : NetworkPolicy) (rule : Rule) (ports : Map PortKey TargetPort)
    (p : Port) : Map PortKey TargetPort :=
  match portTarget s np rule p with
  | none => ports
  | some kv => ports.put kv.1 kv.2

/-- Rules with peers count only in a policy with a named port. -/
def ruleTargetPorts (s : State) (np : NetworkPolicy) (ports : Map PortKey TargetPort) (rule : Rule) :
    Option (Map PortKey TargetPort) :=
  if rule.peers = [] then some (rule.ports.foldl (addPortTarget s np rule) ports)
  else
    (isNamedPortPresenInNp np).map fun named =>
      if named then rule.ports.foldl (addPortTarget s np rule) ports else ports

def getNetPolTargetPorts (s : State) (np : NetworkPolicy) : Option (Map PortKey TargetPort) :=
  np.egress.foldlM (ruleTargetPorts s np) Map.empty

/-- The keys of services, or those of policies. -/
def PortIndexEntry.keys (service : Bool) (entry : PortIndexEntry) : Finset String :=
  if service then entry.serviceKeys else entry.networkPolicyKeys

def PortIndexEntry.setKeys (service : Bool) (keys : Finset String) (entry : PortIndexEntry) : PortIndexEntry :=
  if service then { entry with serviceKeys := keys } else { entry with networkPolicyKeys := keys }

/-- What the loop over the old ports does at a key that is not in the new ones. -/
def dropKey (service : Bool) (key : String) : Option PortIndexEntry → Option PortIndexEntry
  | none => none
  | some entry =>
    let entry := entry.setKeys service ((entry.keys service).erase key)
    if entry.serviceKeys = ∅ ∧ entry.networkPolicyKeys = ∅ then none else some entry

/-- What the loop over the new ports does at a key that is not in the old ones. -/
def addKey (service : Bool) (key : String) (port : TargetPort) : Option PortIndexEntry → PortIndexEntry
  | none => PortIndexEntry.setKeys service {key} ⟨port, ∅, ∅⟩
  | some entry =>
    PortIndexEntry.setKeys service (insert key (entry.keys service))
      { entry with port := { entry.port with ports := port.ports } }

/-- For the key of a service or a policy. The two loops touch each port at most once, so they
are one update of every port. -/
def updateTargetPortIndex (service : Bool) (key : String) (oldPorts newPorts : Map PortKey TargetPort)
    (index : Map PortKey PortIndexEntry) : Map PortKey PortIndexEntry := fun portkey =>
  match oldPorts portkey, newPorts portkey with
  | some _, none => dropKey service key (index portkey)
  | none, some port => some (addKey service key port (index portkey))
  | _, _ => index portkey

def networkPolicyAdded (namespaces : List Namespace) (s : State) (np : NetworkPolicy) :
    Option State := do
  let s := { s with netPolEgressPods := (s.netPolEgressPods.updateSelectorObj netPolEgressPods
    ⟨s.pods.map PodPorts.pod, namespaces, []⟩ np).1 }
  let ports ← getNetPolTargetPorts s np
  let named ← isNamedPortPresenInNp np
  some { s with
    targetPortIndex := updateTargetPortIndex false np.key Map.empty ports s.targetPortIndex
    nmPortNp := if named then insert np.key s.nmPortNp else s.nmPortNp }

/-- The ports are compared before the egress index gets the new rules. -/
def networkPolicyChanged (namespaces : List Namespace) (s : State) (oldnp newnp : NetworkPolicy) :
    Option State := do
  let oldPorts ← getNetPolTargetPorts s oldnp
  let newPorts ← getNetPolTargetPorts s newnp
  some { s with
    targetPortIndex := updateTargetPortIndex false newnp.key oldPorts newPorts s.targetPortIndex
    netPolEgressPods :=
      if oldnp.egress = newnp.egress then s.netPolEgressPods
      else (s.netPolEgressPods.updateSelectorObjNoCallback netPolEgressPods
        ⟨s.pods.map PodPorts.pod, namespaces, []⟩ newnp).1 }

def networkPolicyDeleted (s : State) (np : NetworkPolicy) : Option State := do
  let ports ← getNetPolTargetPorts s np
  let named ← isNamedPortPresenInNp np
  some { s with
    targetPortIndex := updateTargetPortIndex false np.key ports Map.empty s.targetPortIndex
    nmPortNp := if named then s.nmPortNp.erase np.key else s.nmPortNp
    netPolEgressPods := (s.netPolEgressPods.deleteSelectorObj netPolEgressPods np).1 }

section

variable {s : State} {np : NetworkPolicy} {key : PortKey} {numbers : Finset Int}

/-- What a port of a rule is to a key: it gives it these numbers, or has another key. -/
def TargetsNumbers (s : State) (np : NetworkPolicy) (key : PortKey) (numbers : Finset Int) (rule : Rule) (p : Port) :
    Prop :=
  ∀ target, portTarget s np rule p = some (key, target) → target.ports = numbers

/-- Nothing, or these numbers; and something if asked for. -/
def Numbered (numbers : Finset Int) (given : Prop) (found : Option TargetPort) : Prop :=
  (∀ target, found = some target → target.ports = numbers) ∧ (given → found.isSome)

theorem numbered_addPortTarget {rule : Rule} {p : Port} {ports : Map PortKey TargetPort} {given : Prop}
    (hp : TargetsNumbers s np key numbers rule p) (h : Numbered numbers given (ports key)) :
    Numbered numbers (given ∨ ∃ target, portTarget s np rule p = some (key, target))
      (addPortTarget s np rule ports p key) := by
  unfold addPortTarget
  cases hkv : portTarget s np rule p with
  | none => exact ⟨h.1, fun hgiven => h.2 (by simpa using hgiven)⟩
  | some kv =>
    by_cases hkey : key = kv.1
    · subst hkey
      refine ⟨fun target ht => hp target ?_, fun _ => by simp⟩
      rw [hkv, ← Option.some.inj ((put_same ports kv.1 kv.2).symm.trans ht)]
    · have hother : ports.put kv.1 kv.2 key = ports key := put_other ports kv.2 hkey
      refine ⟨fun target ht => h.1 target (hother ▸ ht), fun hgiven => ?_⟩
      change (ports.put kv.1 kv.2 key).isSome
      rw [hother]
      refine h.2 (hgiven.resolve_right ?_)
      rintro ⟨target, ht⟩
      exact hkey (congrArg Prod.fst (Option.some.inj ht)).symm

theorem numbered_foldl {rule : Rule} {l : List Port} (hl : ∀ p ∈ l, TargetsNumbers s np key numbers rule p)
    {ports : Map PortKey TargetPort} {given : Prop} (h : Numbered numbers given (ports key)) :
    Numbered numbers (given ∨ ∃ p ∈ l, ∃ target, portTarget s np rule p = some (key, target))
      (l.foldl (addPortTarget s np rule) ports key) := by
  induction l generalizing ports given with
  | nil => simpa using h
  | cons p l ih =>
    rw [List.forall_mem_cons] at hl
    rw [List.exists_mem_cons_iff, ← or_assoc]
    exact ih hl.2 (numbered_addPortTarget hl.1 h)

/-- Where the rules agree on the numbers of a key, `getNetPolTargetPorts` has these. -/
theorem numbered_getNetPolTargetPorts {ports : Map PortKey TargetPort} (h : getNetPolTargetPorts s np = some ports)
    (hnumbers : ∀ rule ∈ np.egress, ∀ p ∈ rule.ports, TargetsNumbers s np key numbers rule p)
    (hnamed : isNamedPortPresenInNp np = some true) :
    Numbered numbers (∃ rule ∈ np.egress, ∃ p ∈ rule.ports, ∃ target, portTarget s np rule p = some (key, target))
      (ports key) := by
  have hrules : ∀ {l : List Rule} {given : Prop} {start}, (∀ rule ∈ l, ∀ p ∈ rule.ports,
      TargetsNumbers s np key numbers rule p) → Numbered numbers given (start key) →
      l.foldlM (ruleTargetPorts s np) start = some ports → Numbered numbers
        (given ∨ ∃ rule ∈ l, ∃ p ∈ rule.ports, ∃ target, portTarget s np rule p = some (key, target)) (ports key) := by
    intro l
    induction l with
    | nil =>
      intro given start _ hstart hl
      obtain rfl := Option.some.inj hl
      simpa using hstart
    | cons rule l ih =>
      intro given start hall hstart hl
      rw [List.forall_mem_cons] at hall
      have hturn : ruleTargetPorts s np start rule = some (rule.ports.foldl (addPortTarget s np rule) start) := by
        simp [ruleTargetPorts, hnamed]
      rw [List.foldlM_cons, hturn] at hl
      rw [List.exists_mem_cons_iff, ← or_assoc]
      exact ih hall.2 (numbered_foldl hall.1 hstart) hl
  have hall := @hrules np.egress False Map.empty hnumbers ⟨by simp, False.elim⟩ h
  rwa [false_or] at hall

theorem namedPortLoop_of_mem {l : List Port} {named : Bool} (h : namedPortLoop l = some named) {p : Port} (hp : p ∈ l)
    {name : String} (hname : p.port = some (.str name)) : named = true := by
  induction l with
  | nil => exact absurd hp List.not_mem_nil
  | cons q l ih =>
    rw [namedPortLoop] at h
    split at h
    · cases h
    · exact (Option.some.inj h).symm
    · next n hq =>
      rcases List.mem_cons.mp hp with rfl | hp
      · cases hname.symm.trans hq
      · exact ih h hp

/-- After a policy is added, a name that its rules agree on has their numbers in the index. -/
theorem index_networkPolicyAdded {namespaces : List Namespace} {s' : State}
    (h : networkPolicyAdded namespaces s np = some s')
    (hnumbers : ∀ rule ∈ np.egress, ∀ p ∈ rule.ports, TargetsNumbers s' np key numbers rule p) {rule : Rule}
    (hrule : rule ∈ np.egress) {p : Port} (hp : p ∈ rule.ports) {name : String} (hname : p.port = some (.str name))
    {target : TargetPort} (ht : portTarget s' np rule p = some (key, target)) :
    ∃ entry, s'.targetPortIndex key = some entry ∧ entry.port.ports = numbers := by
  simp only [networkPolicyAdded, Option.bind_eq_bind, Option.bind_eq_some_iff, Option.some.injEq] at h
  obtain ⟨ports, hports, named, hnamed, rfl⟩ := h
  have htrue : named = true := namedPortLoop_of_mem hnamed (List.mem_flatMap.mpr ⟨rule, hrule, hp⟩) hname
  subst htrue
  obtain ⟨hsame, hsome⟩ := numbered_getNetPolTargetPorts hports hnumbers hnamed
  obtain ⟨found, hfound⟩ := Option.isSome_iff_exists.mp (hsome ⟨rule, hrule, p, hp, target, ht⟩)
  refine ⟨addKey false np.key found (s.targetPortIndex key), by simp [updateTargetPortIndex, hfound], ?_⟩
  rw [← hsame found hfound]
  cases s.targetPortIndex key <;> rfl

end

end AciContainers.TargetPorts
