import AciContainers.IpIndex
import AciContainers.TargetPorts

/-!
# Host protection rules of a network policy

`handleNetPolUpdate` of `pkg/controller/network_policy.go` writes a subject for each direction
of a policy, with a rule for each rule of the policy, port number and kind of address, and,
for egress, a rule for each service port that the policy turns out to allow. A run that
dereferences a nil pointer returns `none`. Loops over maps take their order as an argument.
-/
namespace AciContainers.Hostprot

open Index Maps Net Policy TargetPorts
open NetPol (Direction Peer getPeerRemoteSubnets)

inductive Ethertype where
  | ipv4
  | ipv6
  deriving DecidableEq

def Ethertype.text : Ethertype → String
  | .ipv4 => "ipv4"
  | .ipv6 => "ipv6"

def protoText : Proto → String
  | .tcp => "tcp"
  | .udp => "udp"
  | .sctp => "sctp"

/-- A rule without protocol, port or remote addresses means any of them. -/
structure HostprotRule where
  dn : String
  name : String
  direction : Direction
  ethertype : Ethertype
  protocol : Option Proto
  toPort : Option Int
  remoteIps : List String
  deriving DecidableEq

structure ServicePort where
  name : String
  protocol : String
  port : Int
  targetPort : IntOrString

structure Service where
  ns : String
  name : String
  clusterIP : String
  ingressIps : List String
  ports : List ServicePort

structure EndpointPort where
  name : String
  protocol : String

structure Subset where
  ports : List EndpointPort
  addresses : List String
  notReadyAddresses : List String

structure SlicePort where
  name : Option String
  protocol : Option String

structure Slice where
  ns : String
  /-- The label that names the service. -/
  serviceName : Option String
  ports : List SlicePort
  /-- The addresses of each endpoint. -/
  endpoints : List (List String)

/-- The controller follows the endpoints of services or their slices. -/
inductive Backends where
  | endpoints (byKey : Map String (List Subset))
  | slices (all : List Slice)

structure Controller where
  /-- Whether `configuredPodNetworkIps` has addresses of the kind. -/
  hasV4 : Bool
  hasV6 : Bool
  /-- The pods, and the numbers that the ports of egress rules stand for. -/
  ports : TargetPorts.State
  /-- `GetPodForObj` of the index of the pods of a policy. -/
  netPolPods : String → Finset String
  services : Map String Service
  backends : Backends
  endpointsIpIndex : IpIndex.Index IpIndex.Network
  order : RangeOrder String
  augmentOrder : RangeOrder (Proto × Int)
  /-- The order of the numbers of a port. -/
  portOrder : RangeOrder Int

variable (c : Controller)

def Controller.ethertypes : List Ethertype :=
  (if c.hasV4 then [.ipv4] else []) ++ (if c.hasV6 then [.ipv6] else [])

/-- The kind of a remote: a network, or else an address. -/
def remoteEthertype (subnetStr : String) : Option Ethertype :=
  match parseCIDR subnetStr with
  | some (_, subnet) => if (to4 subnet.ip).isSome then some .ipv4 else some .ipv6
  | none =>
    (Net.parseIP subnetStr).bind fun ip =>
      if (to4 ip).isSome then some .ipv4 else if (to16 ip).isSome then some .ipv6 else none

def buildNetPolSubjRule (subjDn ruleName : String) (direction : Direction) (ethertype : Ethertype)
    (proto : Option Proto) (port : Option Int) (remoteSubnets : List String) : HostprotRule :=
  let name := ruleName ++ "-" ++ ethertype.text
  ⟨subjDn ++ "/rule-" ++ name, name, direction, ethertype, proto, port,
    remoteSubnets.filter fun subnetStr => remoteEthertype subnetStr = some ethertype⟩

def portKey (p : Port) : Option PortKey :=
  p.port.map fun port =>
    match port with
    | .int n => .num (portProto p.protocol) n
    | .str name => .name (portProto p.protocol) name

/-- The key of a port without number or name is the empty text, which the index does not have. -/
def Controller.getPortNums (port : Option Port) : List Int :=
  ((port.bind portKey).bind c.ports.targetPortIndex).elim [] fun entry => c.portOrder.visit entry.port.ports

/-- The numbers that a name stands for in a rule of the policy. -/
def Controller.resolve (np : NetworkPolicy) (direction : Direction) (p : Port) (name : String) : List Int :=
  match direction with
  | .egress => c.getPortNums (some p)
  | .ingress => c.portOrder.visit (getPortNumsFromPortName c.ports.podByKey (c.netPolPods np.key) name)

/-- A name in an ingress rule is not supported where the policy is for all pods. -/
def Controller.portList (np : NetworkPolicy) (direction : Direction) (p : Port) : List Int :=
  match p.port with
  | none => []
  | some (.int n) => [n]
  | some (.str name) =>
    if direction = .ingress ∧ np.podSelector = ⟨[], []⟩ then [] else c.resolve np direction p name

def Controller.buildNetPolSubjRules (ruleName subjDn : String) (direction : Direction) (peers : List Peer)
    (remoteSubnets : List String) (ports : List Port) (np : NetworkPolicy) : List HostprotRule :=
  if peers ≠ [] ∧ remoteSubnets = [] then []
  else if ports = [] then
    c.ethertypes.map fun ethertype =>
      buildNetPolSubjRule subjDn ruleName direction ethertype none none remoteSubnets
  else
    ports.zipIdx.flatMap fun pj =>
      (c.portList np direction pj.1).zipIdx.flatMap fun ni =>
        c.ethertypes.map fun ethertype =>
          buildNetPolSubjRule subjDn (ruleName ++ "_" ++ toString (ni.2 + pj.2)) direction ethertype
            (some (portProto pj.1.protocol)) (some ni.1) remoteSubnets

structure PortRemoteSubnet where
  port : Option Port
  subnetMap : Finset String

/-- A port of a rule, by its key; all ports, and ports without number or name, have none. The
subnets are those of a rule, which has one map that all its ports refer to. -/
structure PortRef where
  key : Option PortKey
  port : Option Port
  rule : Nat

structure PortRefs where
  refs : List PortRef
  subnetMaps : Nat → Finset String

/-- The subnets are written into the map that the key refers to already. -/
def updatePortRemoteSubnets (prss : PortRefs) (ref : PortRef) : PortRefs :=
  match prss.refs.find? fun r => r.key = ref.key with
  | some prs =>
    { prss with
      subnetMaps := Function.update prss.subnetMaps prs.rule
        (prss.subnetMaps prs.rule ∪ prss.subnetMaps ref.rule) }
  | none => { prss with refs := prss.refs ++ [ref] }

/-- The addresses of services by protocol and port. -/
abbrev Augments := Finset (Proto × Int × String)

def updateServiceAugmentForService (augments : Augments) (proto : Proto) (port : Int) (service : Service) :
    Augments :=
  augments ∪ ((service.clusterIP :: service.ingressIps).filter (· ≠ "")).toFinset.image fun ip => (proto, port, ip)

def checkEndpoints (subnetIndex : List IPNet) (addresses : List String) : Bool :=
  addresses.all fun addr => (Net.parseIP addr).any fun ip => subnetIndex.any fun subnet => subnet.contains ip

/-- Whether the rule means the target port of the service port. -/
def Controller.matchesPort (prs : PortRemoteSubnet) (svcPort : ServicePort) : Option Bool :=
  match prs.port with
  | none => some true
  | some p => p.protocol.map fun protocol =>
    svcPort.protocol = protocol && svcPort.targetPort.string ∈ (c.getPortNums (some p)).map toString

def augmentSubset (service : Service) (svcPort : ServicePort) (subnetIndex : List IPNet) (augments : Augments)
    (subset : Subset) : Augments :=
  match subset.ports.find? fun p => p.name = svcPort.name || service.ports.length = 1 && p.name = "" with
  | none => augments
  | some foundEpPort =>
    if checkEndpoints subnetIndex subset.addresses && checkEndpoints subnetIndex subset.notReadyAddresses then
      updateServiceAugmentForService augments (portProto (some foundEpPort.protocol)) svcPort.port service
    else augments

def findSlicePort (service : Service) (svcPort : ServicePort) : List SlicePort → Option (Option SlicePort)
  | [] => some none
  | p :: ports =>
    p.name.bind fun name =>
      if name = svcPort.name || service.ports.length = 1 && name = "" then some (some p)
      else findSlicePort service svcPort ports

/-- The loop over the ports of the service ends at one that the slice does not have. -/
def Controller.augmentSlice (service : Service) (prs : PortRemoteSubnet) (subnetIndex : List IPNet) (slice : Slice) :
    List ServicePort → Augments → Option Augments
  | [], augments => some augments
  | svcPort :: svcPorts, augments =>
    (c.matchesPort prs svcPort).bind fun found =>
      if found then
        (findSlicePort service svcPort slice.ports).bind fun foundEpPort =>
          match foundEpPort with
          | none => some augments
          | some p =>
            Controller.augmentSlice service prs subnetIndex slice svcPorts
              (if slice.endpoints.all (checkEndpoints subnetIndex) then
                updateServiceAugmentForService augments (portProto p.protocol) svcPort.port service
              else augments)
      else Controller.augmentSlice service prs subnetIndex slice svcPorts augments

def Controller.setNpServiceAugmentForService (servicekey : String) (service : Service) (prs : PortRemoteSubnet)
    (subnetIndex : List IPNet) (augments : Augments) : Option Augments :=
  match c.backends with
  | .endpoints byKey =>
    match byKey servicekey with
    | none => some augments
    | some subsets =>
      service.ports.foldlM
        (fun augments svcPort => (c.matchesPort prs svcPort).map fun found =>
          if found then subsets.foldl (augmentSubset service svcPort subnetIndex) augments else augments) augments
  | .slices all =>
    (all.filter fun slice => slice.ns = service.ns && slice.serviceName = some service.name).foldlM
      (fun augments slice => c.augmentSlice service prs subnetIndex slice service.ports augments) augments

/-- A service that is found through several subnets is visited again, and adds the same. -/
def Controller.getServiceAugmentBySubnet (prs : PortRemoteSubnet) (augments : Augments) : Option Augments :=
  let subnetIndex := (c.order.visit prs.subnetMap).filterMap IpIndex.parseSubnet
  let matchedServices := subnetIndex.flatMap fun cidr =>
    (c.endpointsIpIndex.entries.filter fun e => IpIndex.covers (IpIndex.networkOf cidr) e.net).flatMap fun e =>
      c.order.visit e.keys
  matchedServices.foldlM
    (fun augments servicekey =>
      match c.services servicekey with
      | none => some augments
      | some service => c.setNpServiceAugmentForService servicekey service prs subnetIndex augments) augments

/-- The entries that a port stands for, each with the text of its number. -/
def Controller.portEntries (p : Port) (port : IntOrString) : List (String × PortIndexEntry) :=
  match (portKey p).bind c.ports.targetPortIndex with
  | none => []
  | some entry =>
    match port with
    | .str _ =>
      (c.portOrder.visit entry.port.ports).filterMap fun n =>
        (c.ports.targetPortIndex (.num (portProto p.protocol) n)).map fun e => (toString n, e)
    | .int _ => ((c.portOrder.visit entry.port.ports).take 1).map fun n => (toString n, entry)

def Controller.getServiceAugmentByPort (prs : PortRemoteSubnet) (augments : Augments) : Option Augments :=
  match prs.port with
  | none => some augments
  | some p =>
    match p.port with
    | none => some augments
    | some port =>
      (c.portEntries p port).foldlM
        (fun augments ke =>
          (c.order.visit ke.2.serviceKeys).foldlM
            (fun augments servicekey =>
              match c.services servicekey with
              | none => some augments
              | some service =>
                service.ports.foldlM
                  (fun augments svcPort =>
                    p.protocol.map fun protocol =>
                      if svcPort.protocol ≠ protocol ∨ svcPort.targetPort.string ≠ ke.1 then augments
                      else updateServiceAugmentForService augments (portProto (some svcPort.protocol))
                        svcPort.port service)
                  augments)
            augments)
        augments

/-- The addresses of a kind that were collected for a protocol and port. -/
def Controller.augmentIps (augments : Augments) (key : Proto × Int) (ethertype : Ethertype) : List String :=
  (c.order.visit ((augments.filter fun a => (a.1, a.2.1) = key).image fun a => a.2.2)).filter fun ip =>
    (Net.parseIP ip).any fun addr => (to4 addr).isSome = decide (ethertype = .ipv4)

def Controller.augmentRules (subjDn : String) (augments : Augments) : List HostprotRule :=
  (c.augmentOrder.visit (augments.image fun a => (a.1, a.2.1))).flatMap fun key =>
    ([Ethertype.ipv4, .ipv6].filter fun ethertype => c.augmentIps augments key ethertype ≠ []).map fun ethertype =>
      buildNetPolSubjRule subjDn ("service_" ++ protoText key.1 ++ "_" ++ toString key.2) .egress ethertype
        (some key.1) (some key.2) (c.augmentIps augments key ethertype)

def Controller.buildServiceAugment (subjDn : String) (prss : List (Option PortKey × PortRemoteSubnet)) :
    Option (List HostprotRule) :=
  (prss.foldlM
    (fun augments prs =>
      if "0.0.0.0/0" ∈ prs.2.subnetMap then c.getServiceAugmentByPort prs.2 augments
      else c.getServiceAugmentBySubnet prs.2 augments) ∅).map (c.augmentRules subjDn)

variable (remotes : Rule → List String × Finset String)

/-- What is written for the rule at a place of the policy. -/
def Controller.compiledRule (subjDn : String) (np : NetworkPolicy) (direction : Direction) (i : Nat) (rule : Rule) :
    List HostprotRule :=
  c.buildNetPolSubjRules (toString i) subjDn direction rule.peers (remotes rule).1 rule.ports np

def Controller.subjRules (subjDn : String) (np : NetworkPolicy) (direction : Direction) : List HostprotRule :=
  (np.rules direction).zipIdx.flatMap fun ri => c.compiledRule remotes subjDn np direction ri.2 ri.1

def ruleSubnets (rule : Rule) : Finset String := if rule.peers = [] then {"0.0.0.0/0"} else (remotes rule).2

/-- The ports of a rule; a rule without ports is for all of them. -/
def ruleRefs (rule : Rule) (i : Nat) : List PortRef :=
  if rule.ports = [] then [⟨none, none, i⟩] else rule.ports.map fun p => ⟨portKey p, some p, i⟩

/-- The map of a rule is made from the rule alone, so all are there from the start. -/
def collectPorts (rules : List Rule) : PortRefs :=
  (rules.zipIdx.flatMap fun ri => ruleRefs ri.1 ri.2).foldl updatePortRemoteSubnets
    ⟨[], fun i => rules[i]?.elim ∅ (ruleSubnets remotes)⟩

def portRemoteSubs (rules : List Rule) : List (Option PortKey × PortRemoteSubnet) :=
  let prss := collectPorts remotes rules
  prss.refs.map fun r => (r.key, ⟨r.port, prss.subnetMaps r.rule⟩)

def subjDn (polDn : String) : Direction → String
  | .ingress => polDn ++ "/subj-networkpolicy-ingress"
  | .egress => polDn ++ "/subj-networkpolicy-egress"

/-- The rules of the subject of a direction. -/
def Controller.subject (polDn : String) (np : NetworkPolicy) : Direction → Option (List HostprotRule)
  | .ingress => some (c.subjRules remotes (subjDn polDn .ingress) np .ingress)
  | .egress =>
    (c.buildServiceAugment (subjDn polDn .egress) (portRemoteSubs remotes np.egress)).map fun services =>
      c.subjRules remotes (subjDn polDn .egress) np .egress ++ services

/-- The subjects of the policy, for the remotes that the rules have. -/
def Controller.handleNetPolUpdate (polDn : String) (np : NetworkPolicy) :
    Option (List (Direction × List HostprotRule)) :=
  ([Direction.ingress, .egress].filter fun direction => np.policyTypes = [] || direction ∈ np.policyTypes).mapM
    fun direction => (c.subject remotes polDn np direction).map fun rules => (direction, rules)

/-- The remotes of a rule for the pods that the indexes return. -/
def peerRemotes (np : NetworkPolicy) (candidates : List Pod × List Namespace) (rule : Rule) :
    List String × Finset String :=
  getPeerRemoteSubnets rule.peers np.ns candidates.1 candidates.2

/-!
# Subnets of the ports of a policy

The subnets that `handleNetPolUpdate` collects for each port of the egress rules. The ports of a
rule that have no map yet get the map of the rule, one map for all of them, so that a later rule
for one of these ports writes its subnets for the others as well.
-/

open List
open NetPol (getPeerRemoteSubnets)

/-- The rule whose map a key refers to: the first one that lists the key. -/
def homeOf (refs : List PortRef) (key : Option PortKey) : Option Nat :=
  (refs.find? fun r => r.key = key).map PortRef.rule

variable {refs : List PortRef} {ref : PortRef} {key : Option PortKey}

theorem homeOf_append : homeOf (refs ++ [ref]) key =
    (homeOf refs key).or (if ref.key = key then some ref.rule else none) := by
  unfold homeOf
  rw [find?_append]
  cases refs.find? fun r => r.key = key with
  | none => by_cases h : ref.key = key <;> simp [h]
  | some r => simp

theorem homeOf_of_mem (h : ref ∈ refs) : ∃ i, homeOf refs ref.key = some i := by
  have hsome : (refs.find? fun r => r.key = ref.key).isSome := by
    rw [find?_isSome]
    exact ⟨ref, h, by simp⟩
  obtain ⟨r, hr⟩ := Option.isSome_iff_exists.mp hsome
  exact ⟨r.rule, by rw [homeOf, hr]; rfl⟩

/-- Rules come in order, so the first one has the smallest number. -/
theorem homeOf_le (hsorted : refs.Pairwise fun a b => a.rule ≤ b.rule) (h : ref ∈ refs) {i : Nat}
    (hi : homeOf refs ref.key = some i) : i ≤ ref.rule := by
  induction refs with
  | nil => exact absurd h not_mem_nil
  | cons r refs ih =>
    rw [pairwise_cons] at hsorted
    by_cases hr : r.key = ref.key
    · have hri : r.rule = i := by simpa [homeOf, hr] using hi
      rcases mem_cons.mp h with rfl | h
      · exact hri.ge
      · exact hri ▸ hsorted.1 ref h
    · rcases mem_cons.mp h with rfl | h
      · exact absurd rfl hr
      · exact ih hsorted.2 h (by simpa [homeOf, hr] using hi)

/-- What the loop has made of the maps: a map has the subnets of all rules that list a key which
refers to it. -/
structure Collected (start : Nat → Finset String) (refs : List PortRef) (prss : PortRefs) : Prop where
  home : ∀ key, homeOf prss.refs key = homeOf refs key
  own : ∀ r ∈ prss.refs, homeOf refs r.key = some r.rule
  subnets : ∀ i sub, sub ∈ prss.subnetMaps i ↔
    sub ∈ start i ∨ ∃ r ∈ refs, homeOf refs r.key = some i ∧ sub ∈ start r.rule

theorem Collected.update {start : Nat → Finset String} {prss : PortRefs} (h : Collected start refs prss)
    (hsorted : (refs ++ [ref]).Pairwise fun a b => a.rule ≤ b.rule) :
    Collected start (refs ++ [ref]) (updatePortRemoteSubnets prss ref) := by
  obtain ⟨hbefore, -, hlast⟩ := pairwise_append.mp hsorted
  -- The map of the current rule is still as it was made.
  have hcurrent : ∀ sub, sub ∈ prss.subnetMaps ref.rule ↔ sub ∈ start ref.rule := by
    intro sub
    rw [h.subnets]
    refine or_iff_left_of_imp ?_
    rintro ⟨r, hr, hhome, hsub⟩
    rw [← le_antisymm (hlast r hr ref mem_cons_self) (homeOf_le hbefore hr hhome)]
    exact hsub
  have hold : ∀ r ∈ refs, homeOf (refs ++ [ref]) r.key = homeOf refs r.key := by
    intro r hr
    obtain ⟨i, hi⟩ := homeOf_of_mem hr
    rw [homeOf_append, hi, Option.some_or]
  have hhome := h.home ref.key
  unfold updatePortRemoteSubnets
  cases hfind : prss.refs.find? fun r => r.key = ref.key with
  | some prs =>
    have hrule : homeOf refs ref.key = some prs.rule := by
      rw [← hhome, homeOf, hfind]
      rfl
    have hsame : ∀ key, homeOf (refs ++ [ref]) key = homeOf refs key := by
      intro key
      rw [homeOf_append]
      by_cases hkey : ref.key = key
      · rw [← hkey, hrule, Option.some_or]
      · rw [if_neg hkey, Option.or_none]
    refine ⟨fun key => by rw [hsame, ← h.home], fun r hr => (hsame r.key).trans (h.own r hr), fun i sub => ?_⟩
    simp only [hsame, List.mem_append, mem_singleton, or_and_right, exists_or, exists_eq_left, hrule,
      ← or_assoc, ← h.subnets]
    by_cases hi : i = prs.rule
    · subst hi
      simp [hcurrent]
    · have hi' : ¬ prs.rule = i := fun e => hi e.symm
      simp [Function.update_of_ne hi, hi']
  | none =>
    have hnone : homeOf refs ref.key = none := by
      rw [← hhome, homeOf, hfind]
      rfl
    have hnew : homeOf (refs ++ [ref]) ref.key = some ref.rule := by simp [homeOf_append, hnone]
    refine ⟨fun key => by rw [homeOf_append, homeOf_append, h.home], fun r hr => ?_, fun i sub => ?_⟩
    · rcases mem_append.mp hr with hr | hr
      · rw [homeOf_append, h.own r hr, Option.some_or]
      · rw [mem_singleton.mp hr, hnew]
    rw [h.subnets]
    simp only [List.mem_append, mem_singleton, or_and_right, exists_or, exists_eq_left, hnew, Option.some.injEq]
    constructor
    · rintro (hs | ⟨r, hr, hri, hs⟩)
      · exact .inl hs
      · exact .inr (.inl ⟨r, hr, by rw [hold r hr, hri], hs⟩)
    · rintro (hs | ⟨r, hr, hri, hs⟩ | ⟨rfl, hs⟩)
      · exact .inl hs
      · exact .inr ⟨r, hr, by rw [← hold r hr, hri], hs⟩
      · exact .inl hs

theorem collected_foldl {start : Nat → Finset String} (hsorted : refs.Pairwise fun a b => a.rule ≤ b.rule) :
    Collected start refs (refs.foldl updatePortRemoteSubnets ⟨[], start⟩) := by
  induction refs using reverseRecOn with
  | nil => exact ⟨fun _ => rfl, by simp, by simp⟩
  | append_singleton refs ref ih =>
    rw [foldl_append]
    exact (ih (pairwise_append.mp hsorted).1).update hsorted

variable (rules : List Rule)

def portRefs : List PortRef := rules.zipIdx.flatMap fun ri => ruleRefs ri.1 ri.2

theorem rule_of_mem_ruleRefs {rule : Rule} {i : Nat} (h : ref ∈ ruleRefs rule i) : ref.rule = i := by
  unfold ruleRefs at h
  split at h
  · rw [mem_singleton.mp h]
  · obtain ⟨p, -, rfl⟩ := mem_map.mp h
    rfl

theorem pairwise_portRefs : (portRefs rules).Pairwise fun a b => a.rule ≤ b.rule := by
  rw [portRefs, pairwise_flatMap]
  refine ⟨fun ri _ => ?_, ?_⟩
  · refine pairwise_of_forall_mem_list fun a ha b hb => ?_
    rw [rule_of_mem_ruleRefs ha, rule_of_mem_ruleRefs hb]
  · have hlt : (rules.zipIdx.map Prod.snd).Pairwise (· < ·) := by
      rw [zipIdx_map_snd]
      exact pairwise_lt_range'
    refine (pairwise_map.mp hlt).imp fun hij a ha b hb => ?_
    rw [rule_of_mem_ruleRefs ha, rule_of_mem_ruleRefs hb]
    exact hij.le

/-- The keys of the ports of a rule. -/
def ruleKeys (rule : Rule) : List (Option PortKey) := (ruleRefs rule 0).map PortRef.key

theorem mem_ruleKeys {rule : Rule} (i : Nat) : key ∈ ruleKeys rule ↔ ∃ r ∈ ruleRefs rule i, r.key = key := by
  unfold ruleKeys ruleRefs
  split <;> simp [eq_comm]

/-- Both keys are listed first in the same rule. -/
def SharesMap (key key' : Option PortKey) : Prop :=
  rules.findIdx? (fun rule => key ∈ ruleKeys rule) = rules.findIdx? fun rule => key' ∈ ruleKeys rule

/-- The subnets of the rules that list the key. -/
def Allows (key : Option PortKey) (sub : String) : Prop :=
  ∃ rule ∈ rules, key ∈ ruleKeys rule ∧ sub ∈ ruleSubnets remotes rule

theorem homeOf_flatMap (rules : List Rule) (n : Nat) (key : Option PortKey) :
    homeOf ((rules.zipIdx n).flatMap fun ri => ruleRefs ri.1 ri.2) key =
      (rules.findIdx? fun rule => key ∈ ruleKeys rule).map (· + n) := by
  induction rules generalizing n with
  | nil => rfl
  | cons rule rules ih =>
    rw [zipIdx_cons, flatMap_cons, homeOf, find?_append, findIdx?_cons]
    by_cases hkey : key ∈ ruleKeys rule
    · obtain ⟨r, hr, hrkey⟩ := (mem_ruleKeys n).mp hkey
      have hsome : ((ruleRefs rule n).find? fun r => r.key = key).isSome := by
        rw [find?_isSome]
        exact ⟨r, hr, by simpa using hrkey⟩
      obtain ⟨x, hx⟩ := Option.isSome_iff_exists.mp hsome
      simp [hx, hkey, rule_of_mem_ruleRefs (mem_of_find?_eq_some hx)]
    · have hnone : ((ruleRefs rule n).find? fun r => r.key = key) = none := by
        rw [find?_eq_none]
        intro r hr hrkey
        exact hkey ((mem_ruleKeys n).mpr ⟨r, hr, by simpa using hrkey⟩)
      rw [hnone, Option.none_or, ← homeOf, ih]
      simp [hkey, Option.map_map, Function.comp_def, Nat.add_assoc, Nat.add_comm 1 n]

theorem homeOf_portRefs (key : Option PortKey) :
    homeOf (portRefs rules) key = rules.findIdx? fun rule => key ∈ ruleKeys rule := by
  simpa [portRefs] using homeOf_flatMap rules 0 key

/-- The subnets that are recorded for a key. -/
theorem mem_portRemoteSubs {prs : Option PortKey × PortRemoteSubnet} (h : prs ∈ portRemoteSubs remotes rules)
    (sub : String) : sub ∈ prs.2.subnetMap ↔ ∃ key', SharesMap rules key' prs.1 ∧ Allows remotes rules key' sub := by
  obtain ⟨hhome, hown, hsubnets⟩ : Collected (fun i => rules[i]?.elim ∅ (ruleSubnets remotes)) (portRefs rules)
    (collectPorts remotes rules) := collected_foldl (pairwise_portRefs rules)
  obtain ⟨ref, href, rfl⟩ := mem_map.mp h
  have hstart : ∀ r ∈ portRefs rules, ∃ rule ∈ rules, r.key ∈ ruleKeys rule ∧
      rules[r.rule]?.elim ∅ (ruleSubnets remotes) = ruleSubnets remotes rule := by
    intro r hr
    obtain ⟨⟨rule, i⟩, hri, hr⟩ := mem_flatMap.mp hr
    have hget := mem_zipIdx_iff_getElem?.mp hri
    have hrule : r.rule = i := rule_of_mem_ruleRefs hr
    exact ⟨rule, mem_of_getElem? hget, (mem_ruleKeys i).mpr ⟨r, hr, rfl⟩, by rw [hrule, hget]; rfl⟩
  have href' := hown ref href
  rw [hsubnets]
  constructor
  · rintro (hs | ⟨r, hr, hri, hs⟩)
    · obtain ⟨r, hr, hrule⟩ := Option.map_eq_some_iff.mp href'
      have hkey : r.key = ref.key := by simpa using find?_some hr
      obtain ⟨rule, hmem, hlists, hsame⟩ := hstart r (mem_of_find?_eq_some hr)
      rw [← hrule, hsame] at hs
      exact ⟨ref.key, rfl, rule, hmem, hkey ▸ hlists, hs⟩
    · obtain ⟨rule, hmem, hlists, hsame⟩ := hstart r hr
      rw [hsame] at hs
      refine ⟨r.key, ?_, rule, hmem, hlists, hs⟩
      rw [SharesMap, ← homeOf_portRefs, ← homeOf_portRefs, hri, href']
  · rintro ⟨key', hshares, rule, hmem, hlists, hs⟩
    obtain ⟨i, hget⟩ := mem_iff_getElem?.mp hmem
    obtain ⟨r, hr, rfl⟩ := (mem_ruleKeys i).mp hlists
    refine .inr ⟨r, mem_flatMap.mpr ⟨(rule, i), mem_zipIdx_iff_getElem?.mpr hget, hr⟩, ?_, ?_⟩
    · rw [homeOf_portRefs, hshares, ← homeOf_portRefs, href']
    · rw [rule_of_mem_ruleRefs hr, hget]
      exact hs

theorem key_mem_portRemoteSubs {key : Option PortKey} (h : ∃ rule ∈ rules, key ∈ ruleKeys rule) :
    ∃ prs ∈ portRemoteSubs remotes rules, prs.1 = key := by
  have hcollected : Collected (fun i => rules[i]?.elim ∅ (ruleSubnets remotes)) (portRefs rules)
    (collectPorts remotes rules) := collected_foldl (pairwise_portRefs rules)
  obtain ⟨rule, hmem, hkey⟩ := h
  obtain ⟨i, hi⟩ : ∃ i, homeOf (collectPorts remotes rules).refs key = some i := by
    rw [hcollected.home, homeOf_portRefs, ← Option.isSome_iff_exists, findIdx?_isSome, any_eq_true]
    exact ⟨rule, hmem, by simpa using hkey⟩
  obtain ⟨r, hr, -⟩ := Option.map_eq_some_iff.mp hi
  exact ⟨_, mem_map_of_mem (mem_of_find?_eq_some hr), by simpa using find?_some hr⟩

/-- The subnets of every port are those of the rules that list it, when two ports that a rule is
the first to list have the same later subnets. -/
theorem portRemoteSubs_exact_iff (remotes : Rule → List String × Finset String) (rules : List Rule) :
    (∀ key, (∃ rule ∈ rules, key ∈ ruleKeys rule) → ∀ prs ∈ portRemoteSubs remotes rules, prs.1 = key →
      ∀ sub, sub ∈ prs.2.subnetMap ↔ Allows remotes rules key sub) ↔
    ∀ key, (∃ rule ∈ rules, key ∈ ruleKeys rule) → ∀ key', SharesMap rules key' key →
      ∀ sub, Allows remotes rules key' sub → Allows remotes rules key sub := by
  refine forall_congr' fun key => forall_congr' fun hlisted => ?_
  constructor
  · intro h key' hshares sub hsub
    obtain ⟨prs, hprs, rfl⟩ := key_mem_portRemoteSubs remotes rules hlisted
    exact (h prs hprs rfl sub).mp ((mem_portRemoteSubs remotes rules hprs sub).mpr ⟨key', hshares, hsub⟩)
  · rintro h prs hprs rfl sub
    rw [mem_portRemoteSubs remotes rules hprs]
    exact ⟨fun ⟨key', hshares, hsub⟩ => h key' hshares sub hsub, fun hsub => ⟨prs.1, rfl, hsub⟩⟩

/-- A rule for a block of addresses and TCP ports. -/
def blockRule (cidr : String) (ports : List Int) : Rule :=
  ⟨[⟨none, none, some ⟨cidr, []⟩⟩], ports.map fun n => ⟨some "TCP", some (.int n)⟩⟩

/-- The rule for port 80 alone adds its block to port 443 as well. -/
theorem portRemoteSubs_exact_fails :
    let remotes : Rule → List String × Finset String := fun rule => getPeerRemoteSubnets rule.peers "default" [] []
    let rules := [blockRule "10.1.0.0/16" [80, 443], blockRule "10.2.0.0/16" [80]]
    (portRemoteSubs remotes rules).map (fun prs => (prs.1, decide ("10.2.0.0/16" ∈ prs.2.subnetMap))) =
      [(some (.num .tcp 80), true), (some (.num .tcp 443), true)] ∧
    rules.map (fun rule => decide (some (PortKey.num .tcp 443) ∈ ruleKeys rule)) = [true, false] ∧
    "10.2.0.0/16" ∉ ruleSubnets remotes (blockRule "10.1.0.0/16" [80, 443]) := by
  decide +kernel

end AciContainers.Hostprot
