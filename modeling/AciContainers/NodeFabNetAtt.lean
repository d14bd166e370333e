import AciContainers.Maps
import AciContainers.VlanList

/-!
# The shared VLAN cache

`updateNodeFabNetAttObj` and `deleteNodeFabNetAttObj` of
`pkg/controller/nodefabricnetworkattachments.go` as far as they change the caches of the
controller: which networks use a VLAN, and which pods they have there on each node. `none` is a
nil pointer that is followed, or an index out of range.
-/
namespace AciContainers.NodeFabNetAtt

open Net Maps VlanList

structure ObjRef where
  ns : String
  name : String
  deriving DecidableEq

def ObjRef.str (ref : ObjRef) : String := ref.ns ++ "/" ++ ref.name

/-- Names of nodes, namespaces and networks have no underscore. -/
structure NodeFabricNetworkAttachment where
  networkRef : ObjRef
  vlanList : String
  nodeName : String
  /-- The pods of each interface. -/
  aciTopology : Finmap fun _ : String => List ObjRef
  node_plain : '_' ∉ nodeName.toList
  network_plain : '_' ∉ networkRef.str.toList

namespace NodeFabricNetworkAttachment

def addNetKey (att : NodeFabricNetworkAttachment) : String := att.networkRef.str

/-- `podList` of one interface. -/
def podList (att : NodeFabricNetworkAttachment) (iface : String) : List String :=
  ((att.aciTopology.lookup iface).getD []).map ObjRef.str

/-- One of the links has the pod. -/
def Lists (att : NodeFabricNetworkAttachment) (pod : String) : Prop :=
  ∃ iface ∈ att.aciTopology.keys, pod ∈ att.podList iface

/-- The key that `nodeFabNetAttDeleted` queues, after its mark. -/
def deletedKey (att : NodeFabricNetworkAttachment) : String := att.nodeName ++ "_" ++ att.addNetKey

end NodeFabricNetworkAttachment

/-- Networks and the pods they have on a node. -/
abbrev NodeNads := Finmap fun _ : String => List String

abbrev NodePods := Finmap fun _ : String => NodeNads

structure SharedEncapData where
  pods : NodePods
  /-- The networks; the record of each is the one in the cache of networks. -/
  netRef : Finset String

structure AdditionalNetworkMeta where
  encapVlan : String
  /-- The nodes that have an object for the network. -/
  nodeCache : Finset String
  deriving DecidableEq

abbrev EncapCache := Map Int SharedEncapData

structure Controller where
  indexMutex : Bool
  additionalNetworkCache : Map String AdditionalNetworkMeta
  sharedEncapCache : EncapCache

/-- The orders of the loops over Go maps in one handler, by the position of the VLAN in the loop
that they are in. -/
structure LoopOrders where
  nodes : Nat → RangeOrder String
  links : Nat → RangeOrder String

/-- The loop that takes the network from every node, and the loop that deletes the nodes left
without a network. -/
def deleteNads (order : RangeOrder String) (nodeFabNetAttKey : String) (pods : NodePods) : NodePods :=
  let nodes := order.visit pods.keys
  let nads := fun node => ((pods.lookup node).getD ∅).erase nodeFabNetAttKey
  let toDelete := nodes.filter fun node => (nads node).keys = ∅
  toDelete.foldl (fun pods node => pods.erase node)
    (nodes.foldl (fun pods node => pods.insert node (nads node)) pods)

def deleteNodeFabNetAttGlobalEncapVlanLocked (order : RangeOrder String) (vlan : Int)
    (nodeFabNetAttKey : String) (cache : EncapCache) : Option EncapCache :=
  match cache vlan with
  | none => none
  | some data =>
    let netRef := data.netRef.erase nodeFabNetAttKey
    some (if netRef = ∅ then cache.erase vlan
      else cache.put vlan ⟨deleteNads order nodeFabNetAttKey data.pods, netRef⟩)

/-- The calls for several VLANs, each with its position. -/
def deleteGlobalEncapVlans (orders : Nat → RangeOrder String) (nodeFabNetAttKey : String) :
    List (Int × Nat) → EncapCache → Option EncapCache
  | [], cache => some cache
  | (vlan, i) :: vlans, cache =>
    match deleteNodeFabNetAttGlobalEncapVlanLocked (orders i) vlan nodeFabNetAttKey cache with
    | none => none
    | some cache => deleteGlobalEncapVlans orders nodeFabNetAttKey vlans cache

/-- Old pods go: the network leaves the node. -/
def removeOldPods (nodeName addNetKey : String) (pods : NodePods) : NodePods :=
  let nodeNADs := ((pods.lookup nodeName).getD ∅).erase addNetKey
  if nodeNADs.keys ≠ ∅ then pods.insert nodeName nodeNADs else pods.erase nodeName

/-- The pods of one link take the place of those of the network. -/
def addLinkPods (nodeName addNetKey : String) (pods : NodePods) (podList : List String) : NodePods :=
  if podList = [] then pods
  else pods.insert nodeName (((pods.lookup nodeName).getD ∅).insert addNetKey podList)

def updateNodeFabNetAttPods (order : RangeOrder String) (att : NodeFabricNetworkAttachment) :
    Option SharedEncapData → SharedEncapData
  | some data =>
    ⟨((order.visit att.aciTopology.keys).map att.podList).foldl (addLinkPods att.nodeName att.addNetKey)
      (removeOldPods att.nodeName att.addNetKey data.pods), data.netRef⟩
  | none =>
    ⟨((order.visit att.aciTopology.keys).map att.podList).foldl (addLinkPods att.nodeName att.addNetKey) ∅, ∅⟩

/-- One VLAN of the new list. -/
def updateEncap (order : RangeOrder String) (att : NodeFabricNetworkAttachment) (cache : EncapCache)
    (vlan : Int) : EncapCache :=
  let data := updateNodeFabNetAttPods order att (cache vlan)
  cache.put vlan ⟨data.pods, insert att.addNetKey data.netRef⟩

def updateEncaps (orders : Nat → RangeOrder String) (att : NodeFabricNetworkAttachment)
    (vlans : List (Int × Nat)) (cache : EncapCache) : EncapCache :=
  vlans.foldl (fun cache v => updateEncap (orders v.2) att cache v.1) cache

/-- What goes from the cache when the list of a network changes. -/
def updateNodeFabNetAttVlans (aciUseGlobalScopeVlan : Bool) (orders : Nat → RangeOrder String)
    (att : NodeFabricNetworkAttachment) (vlans : List Int) (addNet : AdditionalNetworkMeta)
    (cache : EncapCache) : Option EncapCache :=
  if aciUseGlobalScopeVlan ∧ addNet.encapVlan ≠ att.vlanList then
    let oldVlans := (parseNodeFabNetAttVlanList addNet.encapVlan).vlans
    deleteGlobalEncapVlans orders att.addNetKey (oldVlans.filter fun vlan => vlan ∉ vlans).zipIdx cache
  else some cache

def updateNodeFabNetAttObj (aciUseGlobalScopeVlan : Bool) (orders : LoopOrders) (cont : Controller)
    (att : NodeFabricNetworkAttachment) : Option Controller :=
  let parsed := parseNodeFabNetAttVlanList att.vlanList
  if parsed.err.isSome then some cont
  else
    let vlans := parsed.vlans
    -- The record of the network, when there is one.
    let found := cont.additionalNetworkCache att.addNetKey
    let nodes := found.elim ∅ AdditionalNetworkMeta.nodeCache
    let cache := found.elim (some cont.sharedEncapCache) fun addNet =>
      updateNodeFabNetAttVlans aciUseGlobalScopeVlan orders.nodes att vlans addNet cont.sharedEncapCache
    cache.map fun cache =>
      ⟨false, cont.additionalNetworkCache.put att.addNetKey ⟨att.vlanList, insert att.nodeName nodes⟩,
        if aciUseGlobalScopeVlan then updateEncaps orders.links att vlans.zipIdx cache else cache⟩

/-- The mutex is left locked on every return but the last. -/
def deleteNodeFabNetAttObj (aciUseGlobalScopeVlan : Bool) (orders : LoopOrders) (cont : Controller)
    (key : String) : Option Controller :=
  match splitOn '_' key.toList with
  | nodeChars :: keyChars :: _ =>
    let nodeName := String.ofList nodeChars
    let nodeFabNetAttKey := String.ofList keyChars
    let locked : Controller := ⟨true, cont.additionalNetworkCache, cont.sharedEncapCache⟩
    match cont.additionalNetworkCache nodeFabNetAttKey with
    | none => some locked
    | some addNet =>
      if nodeName ∉ addNet.nodeCache then some locked
      else
        let nodeCache := addNet.nodeCache.erase nodeName
        if nodeCache = ∅ then
          let networks := cont.additionalNetworkCache.erase nodeFabNetAttKey
          if aciUseGlobalScopeVlan then
            let vlans := (parseNodeFabNetAttVlanList addNet.encapVlan).vlans
            (deleteGlobalEncapVlans orders.nodes nodeFabNetAttKey vlans.zipIdx cont.sharedEncapCache).map
              fun cache => ⟨true, networks, cache⟩
          else some ⟨true, networks, cont.sharedEncapCache⟩
        else
          some ⟨false, cont.additionalNetworkCache.put nodeFabNetAttKey ⟨addNet.encapVlan, nodeCache⟩,
            cont.sharedEncapCache⟩
  | _ => none

open List

/-- `Pods[node][network]`. -/
def NodePods.at (pods : NodePods) (node net : String) : List String :=
  (((pods.lookup node).getD ∅).lookup net).getD []

namespace EncapCache

def netRefAt (cache : EncapCache) (vlan : Int) : Finset String := ((cache vlan).map SharedEncapData.netRef).getD ∅

def podsAt (cache : EncapCache) (vlan : Int) : String → String → List String :=
  NodePods.at (((cache vlan).map SharedEncapData.pods).getD ∅)

/-- Only a network that is referred to has pods. -/
def Tidy (cache : EncapCache) : Prop :=
  ∀ vlan node net pod, pod ∈ cache.podsAt vlan node net → net ∈ cache.netRefAt vlan

end EncapCache

variable {nodes : List String} {node' node net : String} {pods : NodePods}

@[simp] theorem at_empty : NodePods.at ∅ node net = [] := by
  simp [NodePods.at]

theorem at_insert (pods : NodePods) (nads : NodeNads) : NodePods.at (pods.insert node nads) node' net =
      if node' = node then (nads.lookup net).getD [] else pods.at node' net := by
  unfold NodePods.at
  split
  · rename_i h
    subst h
    simp
  · rename_i h
    rw [Finmap.lookup_insert_of_ne _ h]

theorem at_erase (pods : NodePods) (node net : String) :
    NodePods.at (pods.erase node) node' net = if node' = node then [] else pods.at node' net := by
  unfold NodePods.at
  split
  · rename_i h
    subst h
    simp
  · rename_i h
    rw [Finmap.lookup_erase_ne h]

/-- The pods that are left on a node when a network leaves it. -/
theorem lookup_erase_nads (pods : NodePods) (node key net : String) :
    ((((pods.lookup node).getD ∅).erase key).lookup net).getD [] = if net = key then [] else pods.at node net := by
  unfold NodePods.at
  split
  · rename_i h
    subst h
    simp
  · rename_i h
    rw [Finmap.lookup_erase_ne h]

theorem lookup_of_keys_empty {nads : NodeNads} (h : nads.keys = ∅) (net : String) : nads.lookup net = none := by
  rw [Finmap.lookup_eq_none, ← Finmap.mem_keys, h]
  exact Finset.notMem_empty net

theorem at_foldl_insert (nads : String → NodeNads) (pods : NodePods) :
    NodePods.at (nodes.foldl (fun pods node => pods.insert node (nads node)) pods) node net =
      if node ∈ nodes then ((nads node).lookup net).getD [] else pods.at node net := by
  induction nodes generalizing pods with
  | nil => simp
  | cons first nodes ih =>
    rw [foldl_cons, ih, at_insert]
    by_cases hmem : node ∈ nodes
    · simp [hmem]
    · by_cases hfirst : node = first
      · simp [hfirst]
      · simp [hmem, hfirst]

theorem at_foldl_erase (pods : NodePods) : NodePods.at (nodes.foldl (fun pods node => pods.erase node) pods) node net =
      if node ∈ nodes then [] else pods.at node net := by
  induction nodes generalizing pods with
  | nil => simp
  | cons first nodes ih =>
    rw [foldl_cons, ih, at_erase]
    by_cases hmem : node ∈ nodes
    · simp [hmem]
    · by_cases hfirst : node = first
      · simp [hfirst]
      · simp [hmem, hfirst]

theorem at_of_notMem_keys (h : node ∉ pods.keys) (net : String) : pods.at node net = [] := by
  rw [Finmap.mem_keys, ← Finmap.lookup_eq_none] at h
  simp [NodePods.at, h]

/-- The network leaves every node. -/
theorem at_deleteNads (order : RangeOrder String) (key : String) (pods : NodePods) (node net : String) :
    NodePods.at (deleteNads order key pods) node net = if net = key then [] else pods.at node net := by
  unfold deleteNads
  rw [at_foldl_erase, at_foldl_insert, lookup_erase_nads]
  by_cases hnode : node ∈ order.visit pods.keys
  · split
    · rename_i hdel
      rw [mem_filter, decide_eq_true_eq] at hdel
      have hgone := lookup_erase_nads pods node key net
      rw [lookup_of_keys_empty hdel.2] at hgone
      exact hgone
    · rfl
  · have hempty := at_of_notMem_keys (fun h => hnode ((order.mem_visit _ _).mpr h)) net
    have hfilter : node ∉ (order.visit pods.keys).filter fun node =>
        (((pods.lookup node).getD ∅).erase key).keys = ∅ := fun h => hnode (mem_filter.mp h).1
    rw [if_neg hfilter, if_neg hnode, hempty, ite_self]

theorem at_removeOldPods (node key : String) (pods : NodePods) (node' net : String) :
    NodePods.at (removeOldPods node key pods) node' net =
      if node' = node ∧ net = key then [] else pods.at node' net := by
  unfold removeOldPods
  dsimp only
  split
  · rw [at_insert, lookup_erase_nads]
    by_cases hnode : node' = node
    · simp [hnode]
    · simp [hnode]
  · rename_i hempty
    rw [not_not] at hempty
    have hgone := lookup_erase_nads pods node key net
    rw [lookup_of_keys_empty hempty] at hgone
    rw [at_erase]
    by_cases hnode : node' = node
    · subst hnode
      simpa using hgone
    · simp [hnode]

theorem at_addLinkPods (key : String) (pods : NodePods) (podList : List String) :
    NodePods.at (addLinkPods node key pods podList) node' net =
      if podList ≠ [] ∧ node' = node ∧ net = key then podList else pods.at node' net := by
  unfold addLinkPods
  by_cases hlist : podList = []
  · simp [hlist]
  · rw [if_neg hlist, at_insert]
    by_cases hnode : node' = node
    · subst hnode
      by_cases hnet : net = key
      · subst hnet
        simp [hlist]
      · simp [hnet, Finmap.lookup_insert_of_ne _ hnet, NodePods.at]
    · simp [hnode]

/-- The lists of the links agree when they are not empty. -/
def Agree (lists : List (List String)) : Prop := ∀ a ∈ lists, ∀ b ∈ lists, a ≠ [] → b ≠ [] → ∀ pod ∈ a, pod ∈ b

/-- The last list that is not empty stays, so that lists that agree are all there. -/
theorem mem_at_foldl_addLinkPods (key : String) {lists : List (List String)} (hagree : Agree lists) (pod : String) :
    pod ∈ NodePods.at (lists.foldl (addLinkPods node key) pods) node' net ↔
      if (∃ l ∈ lists, l ≠ []) ∧ node' = node ∧ net = key then ∃ l ∈ lists, pod ∈ l else pod ∈ pods.at node' net := by
  induction lists generalizing pods with
  | nil => simp
  | cons first lists ih =>
    have hrest : Agree lists := fun a ha b hb =>
      hagree a (mem_cons_of_mem _ ha) b (mem_cons_of_mem _ hb)
    rw [foldl_cons, ih hrest, at_addLinkPods]
    by_cases hat : node' = node ∧ net = key
    · by_cases hlater : ∃ l ∈ lists, l ≠ []
      · obtain ⟨l, hl, hne⟩ := hlater
        have hsome : ∃ l ∈ lists, l ≠ [] := ⟨l, hl, hne⟩
        have hsome' : ∃ l ∈ first :: lists, l ≠ [] := ⟨l, mem_cons_of_mem _ hl, hne⟩
        rw [if_pos ⟨hsome, hat⟩, if_pos ⟨hsome', hat⟩, exists_mem_cons_iff]
        refine ⟨Or.inr, ?_⟩
        rintro (hpod | h)
        · exact ⟨l, hl, hagree first mem_cons_self l (mem_cons_of_mem _ hl) (ne_nil_of_mem hpod) hne pod hpod⟩
        · exact h
      · have hnone : ¬ ∃ l ∈ lists, pod ∈ l := by
          rintro ⟨l, hl, hpod⟩
          exact hlater ⟨l, hl, ne_nil_of_mem hpod⟩
        by_cases hfirst : first = []
        · simp [hlater, hfirst]
        · simp [hlater, hfirst, hat, hnone]
    · simp [hat]

open EncapCache

section Cache

variable {data : SharedEncapData} {vlans : List Int} {key : String} {cache' middle : EncapCache} {vlan : Int}
  {cache : EncapCache}

theorem netRefAt_put (vlan : Int) (v : Int) :
    netRefAt (cache.put vlan data) v = if v = vlan then data.netRef else cache.netRefAt v := by
  unfold netRefAt Map.put
  split <;> rfl

theorem podsAt_put (vlan : Int) (v : Int) :
    podsAt (cache.put vlan data) v = if v = vlan then data.pods.at else cache.podsAt v := by
  unfold podsAt Map.put
  split <;> rfl

theorem netRefAt_erase (vlan v : Int) : netRefAt (cache.erase vlan) v = if v = vlan then ∅ else cache.netRefAt v := by
  unfold netRefAt Map.erase
  split <;> rfl

theorem podsAt_erase (vlan v : Int) (node net : String) :
    podsAt (cache.erase vlan) v node net = if v = vlan then [] else cache.podsAt v node net := by
  unfold podsAt Map.erase
  split
  · exact at_empty
  · rfl

/-- The cache without the network in some VLANs. -/
structure Without (cache : EncapCache) (vlans : List Int) (key : String) (cache' : EncapCache) : Prop where
  netRef : ∀ v net, net ∈ cache'.netRefAt v ↔ net ∈ cache.netRefAt v ∧ ¬ (v ∈ vlans ∧ net = key)
  pods : ∀ v node net, cache'.podsAt v node net =
    if v ∈ vlans ∧ net = key then [] else cache.podsAt v node net

theorem Without.tidy (h : Without cache vlans key cache') (htidy : cache.Tidy) : cache'.Tidy := by
  intro v node net pod hpod
  rw [h.pods] at hpod
  split at hpod
  · simp at hpod
  · rename_i hkept
    exact (h.netRef v net).mpr ⟨htidy v node net pod hpod, hkept⟩

theorem Without.refl (cache : EncapCache) (key : String) : Without cache [] key cache where
  netRef v net := by simp
  pods v node net := by simp

theorem Without.trans (h₁ : Without cache [vlan] key middle) (h₂ : Without middle vlans key cache') :
    Without cache (vlan :: vlans) key cache' where
  netRef v net := by
    rw [h₂.netRef, h₁.netRef, mem_singleton, mem_cons]
    tauto
  pods v node net := by
    rw [h₂.pods, h₁.pods]
    by_cases hnet : net = key
    · by_cases hv : v = vlan
      · simp [hnet, hv]
      · by_cases hvs : v ∈ vlans
        · simp [hnet, hvs]
        · simp [hv, hvs]
    · simp [hnet]

theorem deleteGlobalEncapVlan_spec (htidy : cache.Tidy) (order : RangeOrder String) (hmem : key ∈ cache.netRefAt vlan) :
    ∃ cache', deleteNodeFabNetAttGlobalEncapVlanLocked order vlan key cache = some cache' ∧
      Without cache [vlan] key cache' := by
  unfold deleteNodeFabNetAttGlobalEncapVlanLocked
  cases hdata : cache vlan with
  | none => simp [netRefAt, hdata] at hmem
  | some data =>
    refine ⟨_, rfl, ?_⟩
    have hnet : cache.netRefAt vlan = data.netRef := by simp [netRefAt, hdata]
    have hpods : cache.podsAt vlan = data.pods.at := by simp [podsAt, hdata]
    split
    · -- The last network is gone, and with it all pods: no other network had any.
      rename_i hempty
      have honly : ∀ net ∈ data.netRef, net = key := by
        intro net hn
        by_contra hne
        have hleft := Finset.mem_erase.mpr ⟨hne, hn⟩
        rw [hempty] at hleft
        exact Finset.notMem_empty net hleft
      refine ⟨?_, ?_⟩
      · intro v net
        rw [netRefAt_erase, mem_singleton]
        split
        · rename_i hv
          subst hv
          rw [hnet]
          tauto
        · rename_i hv
          simp [hv]
      · intro v node net
        rw [podsAt_erase]
        by_cases hv : v = vlan
        · subst hv
          by_cases hkey : net = key
          · simp [hkey]
          · rw [if_pos rfl, if_neg (fun h => hkey h.2), eq_comm, eq_nil_iff_forall_not_mem]
            intro pod hpod
            have hnr := htidy v node net pod hpod
            rw [hnet] at hnr
            exact hkey (honly net hnr)
        · simp [hv]
    · refine ⟨?_, ?_⟩
      · intro v net
        rw [netRefAt_put, mem_singleton]
        split
        · rename_i hv
          subst hv
          rw [hnet, Finset.mem_erase]
          tauto
        · rename_i hv
          simp [hv]
      · intro v node net
        rw [podsAt_put]
        by_cases hv : v = vlan
        · subst hv
          rw [if_pos rfl, hpods, at_deleteNads]
          simp
        · simp [hv]

theorem deleteGlobalEncapVlans_spec (htidy : cache.Tidy) (orders : Nat → RangeOrder String) (key : String)
    (vlans : List (Int × Nat)) (hnodup : (vlans.map Prod.fst).Nodup)
    (hmem : ∀ v ∈ vlans.map Prod.fst, key ∈ cache.netRefAt v) :
    ∃ cache', deleteGlobalEncapVlans orders key vlans cache = some cache' ∧
      Without cache (vlans.map Prod.fst) key cache' := by
  induction vlans generalizing cache with
  | nil => exact ⟨cache, rfl, Without.refl cache key⟩
  | cons first vlans ih =>
    obtain ⟨vlan, i⟩ := first
    rw [map_cons, nodup_cons] at hnodup
    rw [map_cons, forall_mem_cons] at hmem
    obtain ⟨middle, hmiddle, hwithout⟩ := deleteGlobalEncapVlan_spec htidy (orders i) hmem.1
    have hlater : ∀ v ∈ vlans.map Prod.fst, key ∈ middle.netRefAt v := by
      intro v hv
      refine (hwithout.netRef v key).mpr ⟨hmem.2 v hv, ?_⟩
      rintro ⟨hvlan, -⟩
      rw [mem_singleton] at hvlan
      exact hnodup.1 (hvlan ▸ hv)
    obtain ⟨cache', hrest, hwithout'⟩ := ih (hwithout.tidy htidy) hnodup.2 hlater
    refine ⟨cache', ?_, hwithout.trans hwithout'⟩
    simp [deleteGlobalEncapVlans, hmiddle, hrest]

/-- The cache with an object of a node and a network in some VLANs. -/
structure With (cache : EncapCache) (vlans : List Int) (att : NodeFabricNetworkAttachment)
    (cache' : EncapCache) : Prop where
  netRef : ∀ v net, net ∈ cache'.netRefAt v ↔ net ∈ cache.netRefAt v ∨ (v ∈ vlans ∧ net = att.addNetKey)
  pods : ∀ v node net pod, pod ∈ cache'.podsAt v node net ↔
    if v ∈ vlans ∧ node = att.nodeName ∧ net = att.addNetKey then att.Lists pod
    else pod ∈ cache.podsAt v node net

theorem With.refl (cache : EncapCache) (att : NodeFabricNetworkAttachment) : With cache [] att cache where
  netRef v net := by simp
  pods v node net pod := by simp

theorem With.trans {att : NodeFabricNetworkAttachment} (h₁ : With cache [vlan] att middle)
    (h₂ : With middle vlans att cache') : With cache (vlan :: vlans) att cache' where
  netRef v net := by
    rw [h₂.netRef, h₁.netRef, mem_singleton, mem_cons]
    tauto
  pods v node net pod := by
    rw [h₂.pods, h₁.pods]
    by_cases hat : node = att.nodeName ∧ net = att.addNetKey
    · by_cases hv : v = vlan
      · simp [hat, hv]
      · simp [hat, hv]
    · simp [hat]

/-- Links that have pods have the same ones. -/
def LinksAgree (att : NodeFabricNetworkAttachment) : Prop :=
  ∀ a ∈ att.aciTopology.keys, ∀ b ∈ att.aciTopology.keys, att.podList a ≠ [] → att.podList b ≠ [] →
    ∀ pod ∈ att.podList a, pod ∈ att.podList b

section Links

variable {att : NodeFabricNetworkAttachment} (order : RangeOrder String)

theorem agree_links (h : LinksAgree att) : Agree ((order.visit att.aciTopology.keys).map att.podList) := by
  simpa [Agree, LinksAgree, order.mem_visit] using h

theorem exists_link_iff (p : List String → Prop) : (∃ l ∈ (order.visit att.aciTopology.keys).map att.podList, p l) ↔
      ∃ iface ∈ att.aciTopology.keys, p (att.podList iface) := by
  simp [order.mem_visit]

/-- The pods of the node and the network are those of the object. -/
theorem mem_at_links (h : LinksAgree att) {pods : NodePods}
    (hgone : pods.at att.nodeName att.addNetKey = []) (node net pod : String) :
    pod ∈ NodePods.at (((order.visit att.aciTopology.keys).map att.podList).foldl
        (addLinkPods att.nodeName att.addNetKey) pods) node net ↔
      if node = att.nodeName ∧ net = att.addNetKey then att.Lists pod else pod ∈ pods.at node net := by
  rw [mem_at_foldl_addLinkPods _ (agree_links order h)]
  by_cases hat : node = att.nodeName ∧ net = att.addNetKey
  · split
    · exact exists_link_iff order (pod ∈ ·)
    · rename_i hnone
      rw [exists_link_iff order (· ≠ [])] at hnone
      rw [hat.1, hat.2, hgone]
      refine ⟨fun h => absurd h not_mem_nil, ?_⟩
      rintro ⟨iface, hiface, hpod⟩
      exact absurd ⟨⟨iface, hiface, ne_nil_of_mem hpod⟩, hat⟩ hnone
  · rw [if_neg hat, if_neg fun h => hat h.2]

theorem updateEncap_spec (h : LinksAgree att) (cache : EncapCache) (vlan : Int) :
    With cache [vlan] att (updateEncap order att cache vlan) := by
  unfold updateEncap
  constructor
  · intro v net
    rw [netRefAt_put, mem_singleton]
    by_cases hv : v = vlan
    · subst hv
      have hnet : (updateNodeFabNetAttPods order att (cache v)).netRef = cache.netRefAt v := by
        unfold netRefAt
        cases cache v <;> rfl
      rw [if_pos rfl, hnet, Finset.mem_insert]
      tauto
    · simp [hv]
  · intro v node net pod
    rw [podsAt_put]
    by_cases hv : v = vlan
    · subst hv
      cases hdata : cache v with
      | none =>
        have hpods : cache.podsAt v node net = [] := by simp [podsAt, hdata]
        simpa [hpods, updateNodeFabNetAttPods] using mem_at_links order h (at_empty) node net pod
      | some data =>
        have hold := at_removeOldPods att.nodeName att.addNetKey data.pods
        have hpods : cache.podsAt v node net = data.pods.at node net := by simp [podsAt, hdata]
        have hlinks := mem_at_links order h (by rw [hold, if_pos ⟨rfl, rfl⟩]) node net pod
        rw [hold] at hlinks
        by_cases hat : node = att.nodeName ∧ net = att.addNetKey
        · simpa [hat, hpods, updateNodeFabNetAttPods] using hlinks
        · simpa [hat, hpods, updateNodeFabNetAttPods] using hlinks
    · simp [hv]

end Links

theorem updateEncaps_spec {att : NodeFabricNetworkAttachment} (h : LinksAgree att)
    (orders : Nat → RangeOrder String) (vlans : List (Int × Nat)) (cache : EncapCache) :
    With cache (vlans.map Prod.fst) att (updateEncaps orders att vlans cache) := by
  induction vlans generalizing cache with
  | nil => exact With.refl cache att
  | cons first vlans ih => exact (updateEncap_spec (orders first.2) h cache first.1).trans (ih _)

end Cache

end AciContainers.NodeFabNetAtt
