import AciContainers.Maps
import AciContainers.IpCache

/-!
# Pod networks of nodes

The part of `pkg/controller/nodes.go` that gives every node its own pod addresses. Ranges found
in the annotation of a node are taken out of the pool by `syncPodNet`, chunks are added when the
pods use up what there is, and a deleted node keeps its entry. An annotation is kept decoded: the
empty string, the text that `json.Marshal` writes for some ranges, or another text with what it
parses to.
-/
namespace AciContainers.Nodes

open Net Ipam Maps

abbrev NetIps := ByFamily (List IpRange)

inductive Annotation where
  | empty
  | netIps (ips : NetIps)
  | other (text : String) (parsed : Option NetIps)
  deriving DecidableEq

/-- What `json.Unmarshal` reads; `none` is a parse error. -/
def Annotation.parsed : Annotation → Option NetIps
  | .empty => none
  | .netIps ips => some ips
  | .other _ parsed => parsed

/-- A node object: its name and its pod network annotation, if it has one. -/
structure Node where
  name : String
  podNetwork : Option Annotation
  deriving DecidableEq

structure Config where
  podIpPool : List IpRange
  podIpPoolChunkSize : Int
  chainedMode : Bool
  deriving DecidableEq

structure NodePodNetMeta where
  nodePods : List String
  podNetIps : NetIps
  podNetIpsAnnotation : Annotation
  deriving DecidableEq

def newNodePodNetMeta : NodePodNetMeta := ⟨[], ⟨[], []⟩, .empty⟩

structure State where
  configuredPodNetworkIps : NetPools
  podNetworkIps : NetPools
  nodePodNetCache : Map String NodePodNetMeta
  nodeSyncEnabled : Bool

def configuredPools (cfg : Config) : NetPools := loadIpRanges newNetIps cfg.podIpPool

/-- The pod network part of the pools, and the controller before its informers run. -/
def initIpam (cfg : Config) : State where
  configuredPodNetworkIps := configuredPools cfg
  podNetworkIps := ⟨new.addAll (configuredPools cfg).v4, new.addAll (configuredPools cfg).v6⟩
  nodePodNetCache := Map.empty
  nodeSyncEnabled := false

def recomputePodNetAnnotation (podnet : NodePodNetMeta) : NodePodNetMeta :=
  { podnet with podNetIpsAnnotation := .netIps podnet.podNetIps }

/-- What a node holds of one family after its annotation is merged: the ranges it had and the
annotated ones, as far as they are configured. -/
def mergeRanges (configured : IpAlloc) (held existing : List IpRange) : List IpRange :=
  (((newFromRanges held).addRanges existing).intersect configured).freeList

def mergePodNet (s : State) (podnet : NodePodNetMeta) (netval : Annotation) :
    NodePodNetMeta × State :=
  match netval.parsed with
  | none => (podnet, s)
  | some existing =>
    let podNetIps : NetIps :=
      ⟨mergeRanges s.configuredPodNetworkIps.v4 podnet.podNetIps.v4 existing.v4,
        mergeRanges s.configuredPodNetworkIps.v6 podnet.podNetIps.v6 existing.v6⟩
    let podNetworkIps : NetPools :=
      ⟨s.podNetworkIps.v4.removeRanges existing.v4, s.podNetworkIps.v6.removeRanges existing.v6⟩
    let podnet' := recomputePodNetAnnotation { podnet with podNetIps := podNetIps }
    (podnet', { s with podNetworkIps := podNetworkIps })

def syncPodNet (s : State) (node : Node) : State :=
  match node.podNetwork with
  | none => s
  | some netval =>
    let merged := mergePodNet s newNodePodNetMeta netval
    { merged.2 with nodePodNetCache := merged.2.nodePodNetCache.put node.name merged.1 }

/-- A chunk for the node when it has half a chunk left or less; the flag reports a new chunk. -/
def allocateIpChunk (cfg : Config) (s : State) (podnet : NodePodNetMeta) (v4 : Bool) :
    NodePodNetMeta × State × Bool :=
  let podnetipam := newFromRanges (podnet.podNetIps.get v4)
  if (podnet.nodePods.length : Int) > podnetipam.getSize - cfg.podIpPoolChunkSize.tdiv 2 then
    let chunk := (s.podNetworkIps.get v4).getIpChunk cfg.podIpPoolChunkSize
    let s' := { s with podNetworkIps := s.podNetworkIps.set v4 chunk.2 }
    match chunk.1 with
    | none => (podnet, s', false)
    | some r =>
      let podNetIps := podnet.podNetIps.set v4 (podnetipam.addRanges r).freeList
      let podnet' := recomputePodNetAnnotation { podnet with podNetIps := podNetIps }
      (podnet', s', true)
  else (podnet, s, false)

def checkFamily (cfg : Config) (v4 : Bool) (acc : NodePodNetMeta × State × Bool) :
    NodePodNetMeta × State × Bool :=
  if (acc.2.1.configuredPodNetworkIps.get v4).empty then acc
  else
    let next := allocateIpChunk cfg acc.2.1 acc.1 v4
    (next.1, next.2.1, acc.2.2 || next.2.2)

/-- IPv4, then IPv6; the flag asks for a `nodeChanged` of the node later on. -/
def checkNodePodNet (cfg : Config) (s : State) (nodename : String) : State × Bool :=
  match s.nodePodNetCache nodename with
  | none => (s, false)
  | some podnet =>
    let checked := checkFamily cfg false (checkFamily cfg true (podnet, s, false))
    ({ checked.2.1 with
        nodePodNetCache := checked.2.1.nodePodNetCache.put nodename checked.1 }, checked.2.2)

/-- The entry of the node, made empty if there is none. -/
def ensureMeta (s : State) (nodename : String) : State :=
  match s.nodePodNetCache nodename with
  | some _ => s
  | none => { s with nodePodNetCache := s.nodePodNetCache.put nodename newNodePodNetMeta }

/-- The new state, and the annotation to write to the node object if it differs. -/
def nodeChanged (cfg : Config) (s : State) (node : Node) : State × Option Annotation :=
  if cfg.chainedMode then (s, none)
  else if s.nodeSyncEnabled then
    let checked := (checkNodePodNet cfg (ensureMeta s node.name) node.name).1
    match checked.nodePodNetCache node.name with
    | none => (checked, none)
    | some nodePodNet =>
      if node.podNetwork.getD .empty ≠ nodePodNet.podNetIpsAnnotation then
        (checked, some nodePodNet.podNetIpsAnnotation)
      else (checked, none)
  else (ensureMeta s node.name, none)

/-- `nodeDeleted` returns the service addresses of the node; the entry of its pod network and
the pod network pools stay as they are. -/
def nodeDeleted (s : State) (_node : Node) : State := s

def addPodToNode (cfg : Config) (s : State) (nodename key : String) : State × Bool :=
  let s' := ensureMeta s nodename
  match s'.nodePodNetCache nodename with
  | none => (s', false)
  | some existing =>
    if key ∈ existing.nodePods then (s', false)
    else
      let podnet := { existing with nodePods := key :: existing.nodePods }
      checkNodePodNet cfg
        { s' with nodePodNetCache := s'.nodePodNetCache.put nodename podnet } nodename

def removePodFromNode (cfg : Config) (s : State) (nodename key : String) : State × Bool :=
  match s.nodePodNetCache nodename with
  | none => (s, false)
  | some existing =>
    let podnet := { existing with nodePods := existing.nodePods.filter (· ≠ key) }
    checkNodePodNet cfg
      { s with nodePodNetCache := s.nodePodNetCache.put nodename podnet } nodename

/-- The controller, and the pod network annotations that each node object has carried so far:
those it came with and those written for it. -/
structure World where
  state : State
  written : String → List Annotation

inductive Event where
  | nodeAdded (node : Node)
  | nodeChanged (node : Node)
  | nodeDeleted (node : Node)
  | addPodToNode (nodename key : String)
  | removePodFromNode (nodename key : String)
  deriving DecidableEq

def World.record (w : World) (name : String) (a : Option Annotation) : World :=
  { w with written := fun n => if n = name then a.toList ++ w.written n else w.written n }

def World.sync (w : World) (node : Node) : World :=
  { w with state := syncPodNet w.state node }.record node.name node.podNetwork

def World.changed (cfg : Config) (w : World) (node : Node) : World :=
  { w with state := (Nodes.nodeChanged cfg w.state node).1 }.record node.name
    (Nodes.nodeChanged cfg w.state node).2

/-- One event. A node that is added is first synced; `nodeFullSync` does the same for each node. -/
def World.step (cfg : Config) (w : World) : Event → World
  | .nodeAdded node => (w.sync node).changed cfg node
  | .nodeChanged node => w.changed cfg node
  | .nodeDeleted node => { w with state := Nodes.nodeDeleted w.state node }
  | .addPodToNode nodename key => { w with state := (Nodes.addPodToNode cfg w.state nodename key).1 }
  | .removePodFromNode nodename key =>
    { w with state := (Nodes.removePodFromNode cfg w.state nodename key).1 }

/-- All nodes synced, then node sync enabled. -/
def World.start (cfg : Config) (nodes : List Node) : World :=
  let w := nodes.foldl World.sync ⟨initIpam cfg, fun _ => []⟩
  { w with state := { w.state with nodeSyncEnabled := true } }

/-- A node comes with no annotation or with one that its object has carried before. -/
def World.Allowed (w : World) : Event → Prop
  | .nodeAdded node => ∀ a ∈ node.podNetwork, a ∈ w.written node.name
  | _ => True

instance (w : World) : (e : Event) → Decidable (w.Allowed e)
  | .nodeAdded node => inferInstanceAs (Decidable (∀ a ∈ node.podNetwork, a ∈ w.written node.name))
  | .nodeChanged _ => .isTrue trivial
  | .nodeDeleted _ => .isTrue trivial
  | .addPodToNode _ _ => .isTrue trivial
  | .removePodFromNode _ _ => .isTrue trivial

end AciContainers.Nodes
