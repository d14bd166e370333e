import AciContainers.Maps
import AciContainers.Net
import AciContainers.Runs

/-!
# Services on the host

`pkg/hostagent/services.go`: the mappings that the agent makes of a service and its endpoints or its
endpoint slices, and which services it keeps. A port of a slice has a number; one without stops the
agent.
-/
namespace AciContainers.HostServices

open Net Maps Runs List

structure ServicePort where
  name : String
  protocol : String
  port : Nat
  nodePort : Nat

structure Service where
  uid : String
  loadBalancer : Bool
  clusterIP : String
  clusterIPs : List String
  ingress : List String
  ports : List ServicePort
  annotations : Map String String

structure ServiceMapping where
  serviceIp : String
  servicePort : Nat
  serviceProto : String
  nextHopIps : List String
  nextHopPort : Nat
  nodePort : Nat
  deriving DecidableEq

structure EndpointAddress where
  ip : String
  nodeName : Option String

structure EndpointPort where
  name : String
  protocol : String
  port : Nat

structure EndpointSubset where
  addresses : List EndpointAddress
  notReadyAddresses : List EndpointAddress
  ports : List EndpointPort

structure SliceEndpoint where
  addresses : List String
  ready : Option Bool
  nodeName : Option String
  /-- `Hints.ForZones` -/
  hints : Option (List String)

structure SlicePort where
  name : Option String
  protocol : Option String
  port : Option Nat

structure EndpointSlice where
  endpoints : List SliceEndpoint
  ports : List SlicePort

/-- The local node, and what the store has of it: its zone label. -/
structure HostNode where
  name : String
  stored : Option (Option String)

def isV4 (ip : String) : Bool := ((parseIP ip).bind to4).isSome

def sameFamily (clusterIP podIP : String) : Bool :=
  (parseIP clusterIP).isSome && (parseIP podIP).isSome && isV4 clusterIP == isV4 podIP

/-- The cluster addresses, which are ranged over as a map. -/
def Service.addresses (as : Service) : Finset String := insert as.clusterIP as.clusterIPs.toFinset

variable (node : HostNode) (as : Service) (external : Bool)

def Service.serviceIp (clusterIP podIP : String) : String :=
  if external then
    if as.loadBalancer then (as.ingress.find? fun ip => isV4 ip == isV4 podIP).getD "" else ""
  else clusterIP

def newMapping (sp : ServicePort) (clusterIP podIP : String) (nextHopPort : Nat) (nextHopIps : List String) :
    ServiceMapping :=
  ⟨as.serviceIp external clusterIP podIP, sp.port % 2 ^ 16, sp.protocol.toLower, nextHopIps,
    nextHopPort % 2 ^ 16, sp.nodePort % 2 ^ 16⟩

def ServiceMapping.valid (sm : ServiceMapping) : Bool := sm.serviceIp ≠ "" ∧ sm.nextHopIps ≠ []

def subsetMappings (sp : ServicePort) (clusterIP : String) (e : EndpointSubset) : List ServiceMapping :=
  match e.addresses with
  | [] => []
  | first :: _ =>
    if sameFamily clusterIP first.ip then
      (e.ports.filter fun p => p.protocol = sp.protocol ∧ p.name = sp.name).map fun p =>
        newMapping as external sp clusterIP first.ip p.port
          ((e.addresses.filter fun a => !external || a.nodeName = some node.name).map EndpointAddress.ip)
    else []

/-- `SetOpflexService` of `serviceEndpoint`: the mappings that it appends. -/
def endpointMappings (subsets : List EndpointSubset) (order : RangeOrder String) (sp : ServicePort) :
    List ServiceMapping :=
  (order.visit as.addresses).flatMap fun clusterIP =>
    subsets.flatMap (subsetMappings node as external sp clusterIP)

def hintsEnabled : Bool :=
  as.annotations "service.kubernetes.io/topology-aware-routing" = some "auto" ∨
    as.annotations "service.kubernetes.io/topology-aware-hints" = some "auto"

/-- The hints of an endpoint, when they count. -/
def zonesOf (zone : Option String) (e : SliceEndpoint) : Option (List String) :=
  if external = false ∧ zone.isSome ∧ hintsEnabled as then e.hints else none

def nexthops (endpoints : List SliceEndpoint) : List String :=
  match node.stored with
  | none => []
  | some zone =>
    let chosen := endpoints.filter fun e => !external || e.nodeName = some node.name
    let topologyawarehints := chosen.flatMap fun e => e.addresses.flatMap fun a =>
      (((zonesOf as external zone e).getD []).filter fun z => zone = some z).map fun _ => a
    let any := (chosen.filter fun e => (zonesOf as external zone e).isNone).flatMap SliceEndpoint.addresses
    if topologyawarehints ≠ [] then topologyawarehints else any

def SlicePort.serves (p : SlicePort) (sp : ServicePort) : Bool :=
  p.protocol.all (· = sp.protocol) ∧ p.name.all (· = sp.name)

/-- `none`: a port without a number is dereferenced. -/
def sliceMappings (sp : ServicePort) (clusterIP : String) (slice : EndpointSlice) : Option (List ServiceMapping) :=
  match slice.endpoints.head?.bind fun e => e.addresses.head? with
  | none => some []
  | some first =>
    if sameFamily clusterIP first then
      (slice.ports.filter fun p => p.serves sp).mapM fun p => p.port.map fun port =>
        newMapping as external sp clusterIP first port (nexthops node as external slice.endpoints)
    else some []

/-- `SetOpflexService` of `serviceEndpointSlice`. -/
def endpointSliceMappings (slices : List EndpointSlice) (order : RangeOrder String) (sp : ServicePort) :
    Option (List ServiceMapping) :=
  ((order.visit as.addresses).mapM fun clusterIP =>
    (slices.mapM (sliceMappings node as external sp clusterIP)).map flatten).map flatten

theorem mapM_hops (sp : ServicePort) (clusterIP podIP : String) (hops : List String) (ports : List SlicePort) :
    (ports.mapM fun p : SlicePort => p.port.map fun port => newMapping as external sp clusterIP podIP port hops).map
        (map ServiceMapping.nextHopIps) =
      if ∀ p ∈ ports, p.port.isSome then some (replicate ports.length hops) else none := by
  induction ports with
  | nil => simp
  | cons p ports ih =>
    rw [mapM_cons]
    cases hp : p.port with
    | none => simp [hp]
    | some port =>
      generalize (mapM _ ports : Option (List ServiceMapping)) = sms at ih ⊢
      cases sms <;> split at ih <;> simp_all [replicate_succ, newMapping]

/-- A hint that names no zone of the node leaves an endpoint without a place among the next hops. -/
def HintsServe (zone : Option String) (endpoints : List SliceEndpoint) : Prop :=
  zone.isSome → hintsEnabled as →
    ∃ e ∈ endpoints, e.addresses ≠ [] ∧ ∀ zones ∈ e.hints, ∃ z ∈ zones, zone = some z

theorem nexthops_ne_nil_iff {node : HostNode} {zone : Option String} (hnode : node.stored = some zone)
    (endpoints : List SliceEndpoint) : nexthops node as false endpoints ≠ [] ↔ ∃ e ∈ endpoints, e.addresses ≠ [] ∧
      ∀ zones ∈ zonesOf as false zone e, ∃ z ∈ zones, zone = some z := by
  have hite : ∀ aware any : List String, (if aware ≠ [] then aware else any) ≠ [] ↔ aware ≠ [] ∨ any ≠ [] := by
    intro aware any
    split <;> simp_all
  simp only [nexthops, hnode, Bool.not_false, Bool.true_or, filter_true, hite]
  simp only [ne_eq, flatMap_eq_nil_iff, map_eq_nil_iff, filter_eq_nil_iff, mem_filter, not_forall, exists_prop]
  rw [← exists_or]
  refine exists_congr fun e => ?_
  cases zonesOf as false zone e with
  | none => simp
  | some zones => cases e.addresses <;> simp

/-- A port of a slice with an address of the family gets next hops exactly when each such port has a
number and the hints serve the zone of the node. -/
theorem sliceMappings_serve_iff {node : HostNode} {zone : Option String} (hnode : node.stored = some zone)
    (sp : ServicePort) (clusterIP : String) (slice : EndpointSlice)
    (hfirst : ∃ first ∈ slice.endpoints.head?.bind fun e => e.addresses.head?, sameFamily clusterIP first)
    (hport : ∃ p ∈ slice.ports, p.serves sp) : (∃ sms ∈ sliceMappings node as false sp clusterIP slice,
        sms ≠ [] ∧ ∀ sm ∈ sms, sm.nextHopIps ≠ []) ↔
      (∀ p ∈ slice.ports, p.serves sp → p.port.isSome) ∧ HintsServe as zone slice.endpoints := by
  obtain ⟨first, hhead, hfamily⟩ := hfirst
  have hmap : ∀ o : Option (List ServiceMapping), (∃ sms ∈ o, sms ≠ [] ∧ ∀ sm ∈ sms, sm.nextHopIps ≠ []) ↔
      ∃ hops ∈ o.map (map ServiceMapping.nextHopIps), hops ≠ [] ∧ ∀ h ∈ hops, h ≠ [] := by
    rintro (_ | _) <;> simp
  have hne : (slice.ports.filter fun p => p.serves sp).length ≠ 0 := by simpa using hport
  rw [hmap, sliceMappings, Option.mem_def.mp hhead]
  simp only [hfamily, if_true, mapM_hops, mem_filter, and_imp, Option.mem_ite_none_right, Option.mem_some_iff,
    and_assoc, exists_and_left, exists_eq_left', ne_eq, replicate_eq_nil_iff, hne, not_false_eq_true, true_and,
    mem_replicate, forall_eq]
  refine and_congr_right fun _ => ?_
  rw [← ne_eq, nexthops_ne_nil_iff as hnode]
  by_cases hcount : zone.isSome = true ∧ hintsEnabled as = true
  · simp [HintsServe, zonesOf, hcount.1, hcount.2]
  · obtain ⟨e, he, haddress⟩ := Option.bind_eq_some_iff.mp hhead
    refine iff_of_true ⟨e, mem_of_head? he, ?_, ?_⟩ fun hz hh => absurd ⟨hz, hh⟩ hcount
    · rintro hnil
      simp [hnil] at haddress
    · simp [zonesOf, hcount]

def webPort : ServicePort := ⟨"http", "TCP", 80, 0⟩

def webService (annotations : Map String String) (ports : List ServicePort) : Service :=
  ⟨"u1", false, "10.96.0.1", [], [], ports, annotations⟩

def zoneSlice (hints : Option (List String)) : EndpointSlice :=
  ⟨[⟨["10.1.0.5"], some true, none, hints⟩], [⟨some "http", some "TCP", some 8080⟩]⟩

def hintedService : Service :=
  webService (Map.empty.put "service.kubernetes.io/topology-aware-hints" "auto") [webPort]

theorem sliceMappings_serve_plain : HintsServe hintedService (some "a") (zoneSlice (some ["b", "a"])).endpoints :=
  And.right <| (@sliceMappings_serve_iff hintedService ⟨"n1", some (some "a")⟩ _ rfl webPort "10.96.0.1"
    (zoneSlice (some ["b", "a"])) ⟨"10.1.0.5", rfl, by decide +kernel⟩ ⟨_, mem_singleton_self _, by decide⟩).mp
    (by decide +kernel)

/-- The only endpoint is hinted for another zone. -/
theorem sliceMappings_serve_fails : ∃ sms ∈ sliceMappings ⟨"n1", some (some "a")⟩ hintedService false webPort
      "10.96.0.1" (zoneSlice (some ["b"])), ¬ ∀ sm ∈ sms, sm.nextHopIps ≠ [] := by
  decide +kernel

def Service.key : String := if external then as.uid ++ "-external" else as.uid

/-- Headless services, and external ones without an uplink, are left as they are. -/
def Service.skipped (uplink : Bool) : Bool := as.clusterIP = "None" ∨ external ∧ !uplink

/-- `opflexServices` after `updateServiceDesc`; each port is mapped in an order of its own. -/
def updateServiceDesc (uplink : Bool) (setOpflexService : RangeOrder String → ServicePort → List ServiceMapping)
    (orders : Nat → RangeOrder String) (opflexServices : Map String (List ServiceMapping)) :
    Map String (List ServiceMapping) :=
  if as.skipped external uplink then opflexServices
  else
    let r := as.ports.zipIdx.foldl (fun (acc : List ServiceMapping × Bool) p =>
      let sms := setOpflexService (orders p.2) p.1
      (acc.1 ++ sms, sms.any ServiceMapping.valid)) ([], false)
    if r.2 then opflexServices.put (as.key external) r.1 else opflexServices.erase (as.key external)

/-- The port has a valid mapping. -/
def PortValid (subsets : List EndpointSubset) (sp : ServicePort) : Prop :=
  ∃ clusterIP ∈ as.addresses, ∃ e ∈ subsets, ∃ sm ∈ subsetMappings node as external sp clusterIP e, sm.valid

instance (subsets : List EndpointSubset) (sp : ServicePort) : Decidable (PortValid node as external subsets sp) := by
  unfold PortValid
  infer_instance

theorem endpointMappings_valid_iff (subsets : List EndpointSubset) (order : RangeOrder String) (sp : ServicePort) :
    (endpointMappings node as external subsets order sp).any ServiceMapping.valid ↔
      PortValid node as external subsets sp := by
  simp [endpointMappings, PortValid, order.mem_visit]

/-- A service is kept exactly when it has a valid mapping if its last port has one or none has. -/
theorem service_kept_iff (uplink : Bool) (subsets : List EndpointSubset) (orders : Nat → RangeOrder String)
    (opflexServices : Map String (List ServiceMapping)) :
    ((updateServiceDesc as external uplink (endpointMappings node as external subsets) orders opflexServices
        (as.key external)).isSome ↔ ∃ sp ∈ as.ports, PortValid node as external subsets sp) ↔
      if as.skipped external uplink then
        ((opflexServices (as.key external)).isSome ↔ ∃ sp ∈ as.ports, PortValid node as external subsets sp)
      else (∃ sp ∈ as.ports, PortValid node as external subsets sp) →
        ∃ sp ∈ as.ports.getLast?, PortValid node as external subsets sp := by
  unfold updateServiceDesc
  split
  · rfl
  · rcases eq_nil_or_concat' as.ports with hports | ⟨init, last, hports⟩
    · simp [hports]
    · rw [hports, zipIdx_append, foldl_append]
      simp only [zipIdx_cons, zipIdx_nil, foldl_cons, foldl_nil, endpointMappings_valid_iff, getLast?_append,
        getLast?_singleton, Option.some_or, Option.mem_some_iff, exists_eq_left']
      by_cases hlast : PortValid node as external subsets last <;> simp [hlast]

def twoPorts : Service := webService Map.empty [webPort, ⟨"admin", "TCP", 81, 0⟩]

def httpSubset : EndpointSubset := ⟨[⟨"10.1.0.5", none⟩], [], [⟨"http", "TCP", 8080⟩]⟩

/-- The first of two ports has an endpoint. -/
theorem service_kept_fails : ¬ ((updateServiceDesc twoPorts false true
    (endpointMappings ⟨"n1", none⟩ twoPorts false [httpSubset]) (fun _ => .sorted) Map.empty "u1").isSome ↔
      ∃ sp ∈ twoPorts.ports, PortValid ⟨"n1", none⟩ twoPorts false [httpSubset] sp) := by
  decide +kernel

structure Backend where
  ip : String
  nodeName : Option String
  ready : Bool

variable (backends : List Backend) (ports : List EndpointPort) (sp : ServicePort) (clusterIP : String)

def subsetOf : EndpointSubset :=
  ⟨(backends.filter Backend.ready).map fun b => ⟨b.ip, b.nodeName⟩,
    (backends.filter fun b => !b.ready).map fun b => ⟨b.ip, b.nodeName⟩, ports⟩

def sliceOf : EndpointSlice :=
  ⟨backends.map fun b => ⟨[b.ip], some b.ready, b.nodeName, none⟩,
    ports.map fun p => ⟨some p.name, some p.protocol, some p.port⟩⟩

def localOf : List Backend := backends.filter fun b => !external || b.nodeName = some node.name

def inFamily (b : Option Backend) : Bool := b.any fun b => sameFamily clusterIP b.ip

/-- The first address and the first ready one are of the cluster address's family or neither is, and
then the slice gives what the ready addresses give. -/
def ReadyServe : Prop :=
  inFamily clusterIP (backends.find? Backend.ready) = inFamily clusterIP backends.head? ∧
    (inFamily clusterIP backends.head? → ∀ b ∈ localOf node external backends, b.ready = node.stored.isSome)

theorem subsetMappings_hops : (subsetMappings node as external sp clusterIP (subsetOf backends ports)).map
    ServiceMapping.nextHopIps = if inFamily clusterIP (backends.find? Backend.ready) then
      replicate (ports.countP fun p => p.protocol = sp.protocol ∧ p.name = sp.name)
        (((localOf node external backends).filter Backend.ready).map Backend.ip) else [] := by
  have hlocal : ((subsetOf backends ports).addresses.filter fun a => !external || a.nodeName = some node.name).map
      EndpointAddress.ip = ((localOf node external backends).filter Backend.ready).map Backend.ip := by
    simp [subsetOf, localOf, filter_map, Function.comp_def, Bool.and_comm]
  rw [← head?_filter, ← hlocal]
  cases hready : backends.filter Backend.ready with
  | nil => simp [subsetMappings, subsetOf, hready, inFamily]
  | cons b l =>
    simp only [subsetMappings, subsetOf, hready, map_cons, head?_cons, inFamily, Option.any_some]
    split <;> simp [newMapping, Function.comp_def, countP_eq_length_filter]

theorem sliceMappings_hops : (sliceMappings node as external sp clusterIP (sliceOf backends ports)).map
    (map ServiceMapping.nextHopIps) = some (if inFamily clusterIP backends.head? then
      replicate (ports.countP fun p => p.protocol = sp.protocol ∧ p.name = sp.name)
        (if node.stored.isSome then (localOf node external backends).map Backend.ip else []) else []) := by
  have hlocal : nexthops node as external (sliceOf backends ports).endpoints =
      if node.stored.isSome then (localOf node external backends).map Backend.ip else [] := by
    cases hzone : node.stored with
    | none => simp [nexthops, hzone]
    | some zone =>
      simp [nexthops, hzone, sliceOf, zonesOf, localOf, filter_map, Function.comp_def, flatMap_map, ← map_eq_flatMap]
  rw [← hlocal]
  cases backends with
  | nil => simp [sliceMappings, sliceOf, inFamily]
  | cons b l =>
    simp only [sliceMappings, sliceOf, map_cons, head?_cons, inFamily, Option.any_some, Option.bind_some]
    split
    · rw [mapM_hops, if_pos (by simp)]
      simp [Function.comp_def, filter_map, SlicePort.serves, countP_eq_length_filter]
    · rfl

theorem hops_eq_iff :
    some ((subsetMappings node as external sp clusterIP (subsetOf backends ports)).map ServiceMapping.nextHopIps) =
        (sliceMappings node as external sp clusterIP (sliceOf backends ports)).map (map ServiceMapping.nextHopIps) ↔
      ((∃ p ∈ ports, p.protocol = sp.protocol ∧ p.name = sp.name) → ReadyServe node external backends clusterIP) := by
  have hlists : ∀ (n : Nat) (x y : List String) (first second : Bool),
      (if first then replicate n x else []) = (if second then replicate n y else []) ↔
        (0 < n → first = second ∧ (second → x = y)) := by
    intro n x y first second
    cases first <;> cases second <;> cases n <;> simp [replicate_inj]
  rw [subsetMappings_hops, sliceMappings_hops, Option.some_inj, hlists, countP_pos_iff]
  simp only [decide_eq_true_eq]
  refine imp_congr_right fun _ => and_congr_right fun _ => imp_congr_right fun _ => ?_
  split
  · next hstored =>
    -- a filtered list as long as the whole one is the whole one
    rw [hstored]
    refine ⟨fun h => filter_eq_self.mp (filter_sublist.eq_of_length ?_), fun h => ?_⟩
    · simpa using congrArg length h
    · rw [filter_eq_self.mpr h]
  · next hstored => simp [hstored]

theorem map_flatten_mapM {α β γ : Type} {f : β → γ} {g : α → Option (List β)} {h : α → List β} {l : List α}
    (hg : ∀ a ∈ l, (g a).map (map f) = some ((h a).map f)) :
    ((l.mapM g).map flatten).map (map f) = some ((l.flatMap h).map f) := by
  induction l with
  | nil => rfl
  | cons a l ih =>
    obtain ⟨bs, hbs, hmap⟩ := Option.map_eq_some_iff.mp (hg a mem_cons_self)
    have hl := ih fun b hb => hg b (mem_cons_of_mem a hb)
    rw [mapM_cons, hbs]
    cases hrest : l.mapM g <;> simp_all

/-- What the two give for a cluster address agrees exactly when no port matches or the ready
addresses are what the slice gives; where it is so for every address, both services are the same. -/
theorem mappings_agree_iff :
    (some ((subsetMappings node as external sp clusterIP (subsetOf backends ports)).map ServiceMapping.nextHopIps) =
        (sliceMappings node as external sp clusterIP (sliceOf backends ports)).map (map ServiceMapping.nextHopIps) ↔
      ((∃ p ∈ ports, p.protocol = sp.protocol ∧ p.name = sp.name) → ReadyServe node external backends clusterIP)) ∧
    ∀ order, ((∃ p ∈ ports, p.protocol = sp.protocol ∧ p.name = sp.name) →
        ∀ ip ∈ as.addresses, ReadyServe node external backends ip) →
      some ((endpointMappings node as external [subsetOf backends ports] order sp).map ServiceMapping.nextHopIps) =
        (endpointSliceMappings node as external [sliceOf backends ports] order sp).map
          (map ServiceMapping.nextHopIps) := by
  refine ⟨hops_eq_iff .., fun order h => (map_flatten_mapM fun ip hip => ?_).symm⟩
  have hip := (hops_eq_iff node as external backends ports sp ip).mpr fun hp => h hp ip ((order.mem_visit _ _).mp hip)
  simpa [Option.map_map, Function.comp_def] using hip.symm

/-- One address, which is not ready. -/
theorem mappings_agree_fails : some ((subsetMappings ⟨"n1", some none⟩ twoPorts false webPort "10.96.0.1"
      (subsetOf [⟨"10.1.0.5", none, false⟩] [⟨"http", "TCP", 8080⟩])).map ServiceMapping.nextHopIps) ≠
    (sliceMappings ⟨"n1", some none⟩ twoPorts false webPort "10.96.0.1"
      (sliceOf [⟨"10.1.0.5", none, false⟩] [⟨"http", "TCP", 8080⟩])).map (map ServiceMapping.nextHopIps) := by
  decide +kernel

/-!
# Pods of a service

Which pods carry the cluster addresses of a service, in `pkg/hostagent/services.go`. The agent
keeps it in both directions.
-/

structure Pod where
  uid : String
  nodeName : String

/-- What the agent knows of the pods: `podIpToName` and the store of its informer. -/
structure PodView where
  podIpToName : Map String String
  pods : Map String Pod

/-- `servicetoPodUids`, and `podtoServiceUids` with both its keys; a missing inner map is empty. -/
structure ServicePods where
  servicetoPodUids : String → Finset String
  podtoServiceUids : Map (String × String) (List String)

def PodView.localUids (view : PodView) (node : HostNode) (podKeys : List String) : List String :=
  ((podKeys.filterMap view.pods).filter fun pod => pod.nodeName = node.name).map Pod.uid

def getPodKeysFromSm (podIpToName : Map String String) (sm : List ServiceMapping) : List String :=
  (sm.head?.elim [] ServiceMapping.nextHopIps).filterMap podIpToName

/-- A turn of the loops that take pods off a service. `deleteServIpFromEp` deletes the entry of the
service at the end. -/
def removePod (suid : String) (s : ServicePods) (poduid : String) : ServicePods :=
  ⟨Function.update s.servicetoPodUids suid ((s.servicetoPodUids suid).erase poduid),
    s.podtoServiceUids.erase (poduid, suid)⟩

def deleteServIpFromEp (order : RangeOrder String) (suid : String) (s : ServicePods) : ServicePods :=
  (order.visit (s.servicetoPodUids suid)).foldl (removePod suid) s

def addPod (as : Service) (orders : String → RangeOrder String) (s : ServicePods) (poduid : String) : ServicePods :=
  ⟨Function.update s.servicetoPodUids as.uid (insert poduid (s.servicetoPodUids as.uid)),
    s.podtoServiceUids.put (poduid, as.uid) ((orders poduid).visit as.addresses)⟩

/-- `ofas` has the mappings of the service in `opflexServices`. The loops over pods go in the order
at the empty uid. -/
def updateEpFileWithClusterIp (node : HostNode) (view : PodView) (as : Service)
    (orders : String → RangeOrder String) (ofas : Option (List ServiceMapping)) (s : ServicePods) : ServicePods :=
  match ofas with
  | none => deleteServIpFromEp (orders "") as.uid s
  | some sms =>
    if as.clusterIP = "None" then s
    else
      let current := view.localUids node (getPodKeysFromSm view.podIpToName sms)
      let s := current.foldl (addPod as orders) s
      (((orders "").visit (s.servicetoPodUids as.uid)).filter (· ∉ current)).foldl (removePod as.uid) s

inductive ServiceCall where
  | update (view : PodView) (as : Service) (orders : String → RangeOrder String)
      (ofas : Option (List ServiceMapping))
  | delete (order : RangeOrder String) (suid : String)

def serviceStep (node : HostNode) (s : ServicePods) : ServiceCall → ServicePods
  | .update view as orders ofas => updateEpFileWithClusterIp node view as orders ofas s
  | .delete order suid => deleteServIpFromEp order suid s

def ServicePods.start : ServicePods := ⟨fun _ => ∅, Map.empty⟩

/-- The two maps hold the same pairs. -/
def Tracked (s : ServicePods) : Prop :=
  ∀ poduid suid, poduid ∈ s.servicetoPodUids suid ↔ (s.podtoServiceUids (poduid, suid)).isSome

variable {s : ServicePods}

theorem Tracked.add (h : Tracked s) (as : Service) (orders : String → RangeOrder String) (u : String) :
    Tracked (addPod as orders s u) := by
  intro poduid suid
  by_cases hsuid : suid = as.uid
  · subst hsuid
    by_cases hu : poduid = u <;> simp [addPod, Map.put, hu, h poduid as.uid]
  · simp [addPod, Map.put, hsuid, h poduid suid]

theorem Tracked.remove (h : Tracked s) (suid u : String) : Tracked (removePod suid s u) := by
  intro poduid other
  by_cases hsuid : other = suid
  · subst hsuid
    by_cases hu : poduid = u <;> simp [removePod, Map.erase, hu, h poduid other]
  · simp [removePod, Map.erase, hsuid, h poduid other]

theorem Tracked.removeAll (h : Tracked s) (suid : String) (poduids : List String) :
    Tracked (poduids.foldl (removePod suid) s) :=
  foldlRecOn poduids _ h fun _ hs u _ => hs.remove suid u

variable (node : HostNode) (view : PodView) (as : Service) (orders : String → RangeOrder String)
  (ofas : Option (List ServiceMapping))

theorem Tracked.addAll (h : Tracked s) (poduids : List String) : Tracked (poduids.foldl (addPod as orders) s) :=
  foldlRecOn poduids _ h fun _ hs u _ => hs.add as orders u

theorem Tracked.update (h : Tracked s) : Tracked (updateEpFileWithClusterIp node view as orders ofas s) := by
  cases ofas with
  | none => exact h.removeAll as.uid _
  | some sms =>
    simp only [updateEpFileWithClusterIp]
    split
    · exact h
    · exact (h.addAll as orders _).removeAll as.uid _

theorem tracked_run (node : HostNode) (calls : List ServiceCall) : Tracked (run (serviceStep node) .start calls) := by
  refine @invariant_run _ _ _ (fun _ _ => True) Tracked (fun s call h _ => ?_) _ _ ?_
    (along_of_forall _ _ fun _ _ => trivial)
  · cases call with
    | update view as orders ofas => exact h.update node view as orders ofas
    | delete order suid => exact h.removeAll suid _
  · simp [Tracked, ServicePods.start]

/-- A pod is listed for a service exactly if the service is listed for the pod. -/
theorem podUids_inverse (node : HostNode) (calls : List ServiceCall) : let s := run (serviceStep node) .start calls
    ∀ poduid suid, poduid ∈ s.servicetoPodUids suid ↔ (s.podtoServiceUids (poduid, suid)).isSome :=
  tracked_run node calls

variable {u suid : String}

theorem entry_addPods (poduids : List String) : (poduids.foldl (addPod as orders) s).podtoServiceUids (u, as.uid) =
    if u ∈ poduids then some ((orders u).visit as.addresses) else s.podtoServiceUids (u, as.uid) := by
  induction poduids generalizing s with
  | nil => simp
  | cons v poduids ih =>
    rw [foldl_cons, ih]
    by_cases hu : u = v <;> simp [addPod, Map.put, hu]

theorem entry_removePods (poduids : List String) : (poduids.foldl (removePod suid) s).podtoServiceUids (u, suid) =
    if u ∈ poduids then none else s.podtoServiceUids (u, suid) := by
  induction poduids generalizing s with
  | nil => simp
  | cons v poduids ih =>
    rw [foldl_cons, ih]
    by_cases hu : u = v <;> simp [removePod, Map.erase, hu]

/-- The listed pods have the addresses of the service, and no other pod has an entry for it. -/
def ServicePods.Carry (s : ServicePods) (as : Service) (poduids : List String) : Prop :=
  ∀ u, (s.podtoServiceUids (u, as.uid)).map toFinset = if u ∈ poduids then some as.addresses else none

theorem Tracked.carry (h : Tracked s) (hip : ¬ (ofas.isSome ∧ as.clusterIP = "None")) :
    (updateEpFileWithClusterIp node view as orders ofas s).Carry as
      (view.localUids node (getPodKeysFromSm view.podIpToName (ofas.getD []))) := by
  intro u
  cases ofas with
  | none =>
    simp [updateEpFileWithClusterIp, deleteServIpFromEp, entry_removePods, RangeOrder.mem_visit, getPodKeysFromSm,
      PodView.localUids, h u as.uid]
  | some sms =>
    simp only [updateEpFileWithClusterIp, not_and.mp hip rfl, entry_removePods, if_false, mem_filter,
      RangeOrder.mem_visit, h.addAll as orders _ u as.uid, entry_addPods]
    split_ifs <;> simp_all [RangeOrder.toFinset_visit]

/-- The local pods with a next hop of some mapping. -/
def PodView.backing (view : PodView) (node : HostNode) (sms : List ServiceMapping) : List String :=
  view.localUids node ((sms.flatMap ServiceMapping.nextHopIps).filterMap view.podIpToName)

/-- The pods that carry the addresses are those of all mappings exactly when the first mapping has
them all; a headless service keeps the pods it had. -/
theorem carriers_iff (calls : List ServiceCall) : let s := run (serviceStep node) .start calls
    let backing := view.backing node (ofas.getD [])
    (updateEpFileWithClusterIp node view as orders ofas s).Carry as backing ↔
      if ofas.isSome ∧ as.clusterIP = "None" then s.Carry as backing
      else backing ⊆ view.backing node ((ofas.getD []).take 1) := by
  intro s backing
  have htake : view.backing node ((ofas.getD []).take 1) =
      view.localUids node (getPodKeysFromSm view.podIpToName (ofas.getD [])) := by
    cases ofas.getD [] <;> simp [getPodKeysFromSm, PodView.backing]
  rw [htake]
  split
  · next hip =>
    obtain ⟨sms, rfl⟩ := Option.isSome_iff_exists.mp hip.1
    simp [updateEpFileWithClusterIp, hip.2]
  · next hip =>
    have hfirst : view.localUids node (getPodKeysFromSm view.podIpToName (ofas.getD [])) ⊆ backing := by
      unfold backing
      cases ofas.getD [] <;> simp [getPodKeysFromSm, PodView.backing, PodView.localUids]
    have hcarry := (tracked_run node calls).carry node view as orders ofas hip
    constructor
    · intro h u hu
      by_contra hnot
      simpa [hnot, hu] using (hcarry u).symm.trans (h u)
    · exact fun h u => (hcarry u).trans (if_congr ⟨@hfirst u, @h u⟩ rfl rfl)

def webPods : PodView :=
  ⟨(Map.empty.put "10.1.0.5" "ns/a").put "10.1.0.6" "ns/b", (Map.empty.put "ns/a" ⟨"a", "n1"⟩).put "ns/b" ⟨"b", "n1"⟩⟩

def webMappings : List ServiceMapping :=
  [⟨"10.96.0.1", 80, "tcp", ["10.1.0.5"], 8080, 0⟩, ⟨"10.96.0.1", 81, "tcp", ["10.1.0.6"], 8081, 0⟩]

/-- The pod of the second mapping is left out. -/
theorem carriers_fail : ¬ (updateEpFileWithClusterIp ⟨"n1", none⟩ webPods (webService Map.empty [webPort])
    (fun _ => .sorted) (some webMappings) (run (serviceStep ⟨"n1", none⟩) .start [])).Carry
      (webService Map.empty [webPort]) (webPods.backing ⟨"n1", none⟩ webMappings) :=
  fun h => absurd (h "b") (by decide +kernel)

end AciContainers.HostServices
