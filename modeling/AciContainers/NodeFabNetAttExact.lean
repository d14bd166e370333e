import AciContainers.NodeFabNetAtt
import AciContainers.Runs

/-!
# Exactness of the shared VLAN cache

The cache against the objects that exist: in which runs of the handlers it refers to the networks
of each VLAN and has their pods.
-/
namespace AciContainers.NodeFabNetAtt

open Net Maps Runs VlanList EncapCache Option Finset
open List hiding splitOn

namespace NodeFabricNetworkAttachment

/-- There is one object for a node and a network. -/
def id (att : NodeFabricNetworkAttachment) : String × String := (att.nodeName, att.addNetKey)

end NodeFabricNetworkAttachment

/-- The objects that exist, and for each network the list of VLANs of its latest update. -/
structure Attachments where
  objs : List NodeFabricNetworkAttachment
  vlanLists : Map String String

namespace Attachments

def Exists (a : Attachments) (net : String) : Prop := ∃ att ∈ a.objs, att.addNetKey = net

/-- The VLANs of the latest list. -/
def vlans (a : Attachments) (net : String) : List Int :=
  ((a.vlanLists net).map fun text => (parseNodeFabNetAttVlanList text).vlans).getD []

/-- The network exists and its current list has the VLAN. -/
def HasVlan (a : Attachments) (net : String) (vlan : Int) : Prop := a.Exists net ∧ vlan ∈ a.vlans net

/-- The object of the node and the network exists and has the pod. -/
def ListsPod (a : Attachments) (node net pod : String) : Prop :=
  ∃ att ∈ a.objs, att.id = (node, net) ∧ att.Lists pod

def update (a : Attachments) (att : NodeFabricNetworkAttachment) : Attachments :=
  ⟨setByKey NodeFabricNetworkAttachment.id a.objs att, a.vlanLists.put att.addNetKey att.vlanList⟩

def delete (a : Attachments) (att : NodeFabricNetworkAttachment) : Attachments :=
  ⟨removeByKey NodeFabricNetworkAttachment.id a.objs att.id, a.vlanLists⟩

end Attachments

structure World where
  cont : Controller
  atts : Attachments

def start : World := ⟨⟨false, Map.empty, Map.empty⟩, ⟨[], Map.empty⟩⟩

inductive Event where
  | update (orders : LoopOrders) (att : NodeFabricNetworkAttachment)
  | delete (orders : LoopOrders) (att : NodeFabricNetworkAttachment)

/-- A handler, with the mutex free when it starts. -/
def World.handle (w : World) : Event → Option World
  | .update orders att =>
    (updateNodeFabNetAttObj true orders { w.cont with indexMutex := false } att).map fun cont =>
      ⟨cont, w.atts.update att⟩
  | .delete orders att =>
    (deleteNodeFabNetAttObj true orders { w.cont with indexMutex := false } att.deletedKey).map fun cont =>
      ⟨cont, w.atts.delete att⟩

def step (s : Option World) (e : Event) : Option World := s.bind fun w => w.handle e

/-- The cache refers to the networks of each VLAN, and has their pods. -/
structure World.Exact (w : World) : Prop where
  netRef : ∀ vlan net, net ∈ w.cont.sharedEncapCache.netRefAt vlan ↔ w.atts.HasVlan net vlan
  pods : ∀ vlan node net pod, pod ∈ w.cont.sharedEncapCache.podsAt vlan node net ↔
    w.atts.HasVlan net vlan ∧ w.atts.ListsPod node net pod

/-- An update has a list that is accepted and names no VLAN twice, links that do not overwrite each
other, and a new VLAN only when no other node has pods for the network. A deletion is of an object
without pods or of the last one of its network. -/
def Allowed (w : World) : Event → Prop
  | .update _ att =>
    let parsed := parseNodeFabNetAttVlanList att.vlanList
    parsed.err = none ∧ parsed.vlans.Nodup ∧ LinksAgree att ∧
      ∀ other ∈ w.atts.objs, other.addNetKey = att.addNetKey → other.nodeName ≠ att.nodeName →
        (∀ iface ∈ other.aciTopology.keys, other.podList iface = []) ∨
          ∀ vlan ∈ parsed.vlans, vlan ∈ w.atts.vlans att.addNetKey
  | .delete _ att =>
    ∀ obj ∈ w.atts.objs, obj.id = att.id → (∀ iface ∈ obj.aciTopology.keys, obj.podList iface = []) ∨
      ∀ other ∈ w.atts.objs, other.addNetKey = att.addNetKey → other.nodeName = att.nodeName

/-- The record of a network. -/
structure Recorded (a : Attachments) (net : String) (addNet : AdditionalNetworkMeta) : Prop where
  encapVlan : a.vlanLists net = some addNet.encapVlan
  nodup : (parseNodeFabNetAttVlanList addNet.encapVlan).vlans.Nodup
  nonempty : addNet.nodeCache ≠ ∅
  node : ∀ node, node ∈ addNet.nodeCache ↔ ∃ att ∈ a.objs, att.id = (node, net)

structure Inv (w : World) : Prop where
  absent : ∀ net, w.cont.additionalNetworkCache net = none → ¬ w.atts.Exists net
  recorded : ∀ net addNet, w.cont.additionalNetworkCache net = some addNet → Recorded w.atts net addNet
  exact : w.Exact

section Attachments

variable (a : Attachments) (att : NodeFabricNetworkAttachment) (net : String)

theorem exists_update : (a.update att).Exists net ↔ net = att.addNetKey ∨ a.Exists net := by
  constructor
  · rintro ⟨x, hx, hnet⟩
    obtain rfl | ⟨hmem, -⟩ := mem_setByKey.mp hx
    · exact .inl hnet.symm
    · exact .inr ⟨x, hmem, hnet⟩
  · rintro (rfl | ⟨x, hx, rfl⟩)
    · exact ⟨att, mem_setByKey.mpr (.inl rfl), rfl⟩
    · by_cases hid : x.id = att.id
      · exact ⟨att, mem_setByKey.mpr (.inl rfl), (Prod.mk.inj hid).2.symm⟩
      · exact ⟨x, mem_setByKey.mpr (.inr ⟨hx, hid⟩), rfl⟩

theorem vlans_update : (a.update att).vlans net =
      if net = att.addNetKey then (parseNodeFabNetAttVlanList att.vlanList).vlans else a.vlans net := by
  unfold Attachments.vlans Attachments.update
  dsimp only
  split
  · rename_i hnet
    rw [hnet, put_same]
    rfl
  · rename_i hnet
    rw [put_other _ _ hnet]

theorem hasVlan_update (vlan : Int) : (a.update att).HasVlan net vlan ↔
      if net = att.addNetKey then vlan ∈ (parseNodeFabNetAttVlanList att.vlanList).vlans else a.HasVlan net vlan := by
  unfold Attachments.HasVlan
  rw [exists_update, vlans_update]
  by_cases hnet : net = att.addNetKey
  · simp [hnet]
  · simp [hnet]

theorem listsPod_update (node net pod : String) : (a.update att).ListsPod node net pod ↔
      if node = att.nodeName ∧ net = att.addNetKey then att.Lists pod else a.ListsPod node net pod := by
  have hid : att.id = (node, net) ↔ node = att.nodeName ∧ net = att.addNetKey := by
    rw [NodeFabricNetworkAttachment.id, Prod.mk.injEq, eq_comm, @eq_comm _ net]
  unfold Attachments.ListsPod Attachments.update
  simp only [mem_setByKey, ← hid]
  split
  · rename_i hat
    rw [← hat]
    constructor
    · rintro ⟨x, rfl | ⟨-, hne⟩, hx, hlists⟩
      · exact hlists
      · exact absurd hx hne
    · exact fun h => ⟨att, .inl rfl, rfl, h⟩
  · rename_i hat
    constructor
    · rintro ⟨x, rfl | ⟨hmem, -⟩, hx, hlists⟩
      · exact absurd hx hat
      · exact ⟨x, hmem, hx, hlists⟩
    · rintro ⟨x, hmem, hx, hlists⟩
      exact ⟨x, .inr ⟨hmem, fun h => hat (h ▸ hx)⟩, hx, hlists⟩

theorem listsPod_delete (node net pod : String) :
    (a.delete att).ListsPod node net pod ↔ (node, net) ≠ att.id ∧ a.ListsPod node net pod := by
  unfold Attachments.ListsPod Attachments.delete
  simp only [mem_removeByKey]
  constructor
  · rintro ⟨x, ⟨hmem, hne⟩, hx, hlists⟩
    exact ⟨hx ▸ hne, x, hmem, hx, hlists⟩
  · rintro ⟨hne, x, hmem, hx, hlists⟩
    exact ⟨x, ⟨hmem, hx ▸ hne⟩, hx, hlists⟩

theorem exists_delete_other {net : String} (hnet : net ≠ att.addNetKey) : (a.delete att).Exists net ↔ a.Exists net := by
  constructor
  · rintro ⟨x, hx, hkey⟩
    exact ⟨x, (mem_removeByKey.mp hx).1, hkey⟩
  · rintro ⟨x, hx, rfl⟩
    exact ⟨x, mem_removeByKey.mpr ⟨hx, fun h => hnet (Prod.mk.inj h).2⟩, rfl⟩

end Attachments

section Steps

variable {net : String} {addNet : AdditionalNetworkMeta} {cache : EncapCache} {w : World} {orders : LoopOrders}
  {att : NodeFabricNetworkAttachment} {a : Attachments}

theorem Recorded.exists (h : Recorded a net addNet) : a.Exists net := by
  obtain ⟨node, hnode⟩ := nonempty_iff_ne_empty.mpr h.nonempty
  obtain ⟨att, hatt, hid⟩ := (h.node node).mp hnode
  exact ⟨att, hatt, (Prod.mk.inj hid).2⟩

theorem Recorded.vlans (h : Recorded a net addNet) :
    a.vlans net = (parseNodeFabNetAttVlanList addNet.encapVlan).vlans := by
  simp [Attachments.vlans, h.encapVlan]

theorem Inv.tidy (hinv : Inv w) : w.cont.sharedEncapCache.Tidy := by
  intro vlan node net pod hpod
  exact (hinv.exact.netRef vlan net).mpr ((hinv.exact.pods vlan node net pod).mp hpod).1

/-- The VLANs that the new list does not have lose the network. -/
theorem removed_spec (hinv : Inv w) (orders : Nat → RangeOrder String)
    (hnet : w.cont.additionalNetworkCache att.addNetKey = some addNet) : ∃ cache gone,
      updateNodeFabNetAttVlans true orders att (parseNodeFabNetAttVlanList att.vlanList).vlans addNet
        w.cont.sharedEncapCache = some cache ∧ Without w.cont.sharedEncapCache gone att.addNetKey cache ∧
      ∀ v, v ∈ gone ↔ w.atts.HasVlan att.addNetKey v ∧ v ∉ (parseNodeFabNetAttVlanList att.vlanList).vlans := by
  have hrec := hinv.recorded _ _ hnet
  have hhas : ∀ v, w.atts.HasVlan att.addNetKey v ↔ v ∈ (parseNodeFabNetAttVlanList addNet.encapVlan).vlans := by
    intro v
    rw [Attachments.HasVlan, hrec.vlans, and_iff_right hrec.exists]
  unfold updateNodeFabNetAttVlans
  by_cases hlist : addNet.encapVlan = att.vlanList
  · refine ⟨_, [], if_neg (fun h => h.2 hlist), Without.refl _ _, ?_⟩
    intro v
    rw [hhas, hlist]
    simp
  · rw [if_pos ⟨rfl, hlist⟩]
    have hspec := deleteGlobalEncapVlans_spec hinv.tidy orders att.addNetKey
      ((parseNodeFabNetAttVlanList addNet.encapVlan).vlans.filter fun vlan =>
        vlan ∉ (parseNodeFabNetAttVlanList att.vlanList).vlans).zipIdx
    rw [zipIdx_map_fst] at hspec
    obtain ⟨cache, hcache, hwithout⟩ := hspec (hrec.nodup.filter _) fun v hv =>
      (hinv.exact.netRef v _).mpr ((hhas v).mpr (mem_filter.mp hv).1)
    refine ⟨cache, _, hcache, hwithout, ?_⟩
    intro v
    rw [mem_filter, hhas, decide_eq_true_eq]

theorem not_lists_nil {att : NodeFabricNetworkAttachment} {pod : String} (h : att.Lists pod) :
    ¬ ∀ iface ∈ att.aciTopology.keys, att.podList iface = [] := by
  obtain ⟨iface, hiface, hpod⟩ := h
  intro hnil
  rw [hnil iface hiface] at hpod
  exact not_mem_nil hpod

/-- The cache after an update, when the VLANs that the list no longer has have been emptied. -/
theorem exact_update (hexact : w.Exact) {cache' : EncapCache} {gone : List Int}
    (hwithout : Without w.cont.sharedEncapCache gone att.addNetKey cache) (hgone : ∀ v, v ∈ gone ↔
      w.atts.HasVlan att.addNetKey v ∧ v ∉ (parseNodeFabNetAttVlanList att.vlanList).vlans)
    (hwith : With cache (parseNodeFabNetAttVlanList att.vlanList).vlans att cache')
    (hnew : ∀ other ∈ w.atts.objs, other.addNetKey = att.addNetKey → other.nodeName ≠ att.nodeName →
      (∀ iface ∈ other.aciTopology.keys, other.podList iface = []) ∨
        ∀ vlan ∈ (parseNodeFabNetAttVlanList att.vlanList).vlans, vlan ∈ w.atts.vlans att.addNetKey)
    (mutex : Bool) (nets : Map String AdditionalNetworkMeta) :
    World.Exact ⟨⟨mutex, nets, cache'⟩, w.atts.update att⟩ := by
  constructor
  · intro vlan net
    rw [hwith.netRef, hwithout.netRef, hexact.netRef, hgone, hasVlan_update]
    by_cases hnet : net = att.addNetKey
    · subst hnet
      simp only [and_true, if_true]
      tauto
    · simp [hnet]
  · intro vlan node net pod
    rw [hwith.pods, hasVlan_update, listsPod_update, hwithout.pods]
    by_cases hnet : net = att.addNetKey
    · subst hnet
      have hbefore := hexact.pods vlan node att.addNetKey pod
      by_cases hvlan : vlan ∈ (parseNodeFabNetAttVlanList att.vlanList).vlans
      · have hkept : vlan ∉ gone := fun h => ((hgone vlan).mp h).2 hvlan
        by_cases hnode : node = att.nodeName
        · simp [hvlan, hnode]
        · -- The pods of another node are there because the VLAN is not new.
          have hhas : w.atts.ListsPod node att.addNetKey pod → w.atts.HasVlan att.addNetKey vlan := by
            rintro ⟨other, hmem, hid, hlists⟩
            obtain ⟨hother, hkey⟩ := Prod.mk.inj hid
            have hvlans := (hnew other hmem hkey (hother ▸ hnode)).resolve_left (not_lists_nil hlists)
            exact ⟨⟨other, hmem, hkey⟩, hvlans vlan hvlan⟩
          simpa [hvlan, hkept, hnode, hbefore] using hhas
      · by_cases hhas : w.atts.HasVlan att.addNetKey vlan
        · have hin : vlan ∈ gone := (hgone vlan).mpr ⟨hhas, hvlan⟩
          simp [hvlan, hin]
        · simp [hvlan, hhas, hbefore]
    · simp [hnet, hexact.pods]

theorem recorded_update {nodes : Finset String}
    (hnodes : ∀ node, node ∈ nodes ↔ ∃ obj ∈ w.atts.objs, obj.id = (node, att.addNetKey))
    (hnodup : (parseNodeFabNetAttVlanList att.vlanList).vlans.Nodup) :
    Recorded (w.atts.update att) att.addNetKey ⟨att.vlanList, insert att.nodeName nodes⟩ where
  encapVlan := put_same _ _ _
  nodup := hnodup
  nonempty := insert_ne_empty _ _
  node node := by
    rw [mem_insert, hnodes]
    constructor
    · rintro (rfl | ⟨obj, hobj, hid⟩)
      · exact ⟨att, mem_setByKey.mpr (.inl rfl), rfl⟩
      · by_cases hsame : obj.id = att.id
        · exact ⟨att, mem_setByKey.mpr (.inl rfl), hsame ▸ hid⟩
        · exact ⟨obj, mem_setByKey.mpr (.inr ⟨hobj, hsame⟩), hid⟩
    · rintro ⟨obj, hobj, hid⟩
      obtain rfl | ⟨hmem, -⟩ := mem_setByKey.mp hobj
      · exact .inl (Prod.mk.inj hid).1.symm
      · exact .inr ⟨obj, hmem, hid⟩

/-- An update of another network leaves the record right. -/
theorem Recorded.update_other (h : Recorded a net addNet) (hnet : net ≠ att.addNetKey) :
    Recorded (a.update att) net addNet where
  encapVlan := by
    rw [← h.encapVlan]
    exact put_other _ _ hnet
  nodup := h.nodup
  nonempty := h.nonempty
  node node := by
    rw [h.node]
    exact (exists_mem_setByKey.trans (or_iff_right fun hid => hnet (congrArg Prod.snd hid))).symm

theorem Recorded.delete_other (h : Recorded a net addNet) (hnet : net ≠ att.addNetKey) :
    Recorded (a.delete att) net addNet where
  encapVlan := h.encapVlan
  nodup := h.nodup
  nonempty := h.nonempty
  node node := by
    rw [h.node]
    exact (exists_mem_removeByKey.trans (and_iff_right fun hid => hnet (congrArg Prod.snd hid))).symm

/-- The cache and the nodes with which an update goes on. -/
theorem updated_network (hinv : Inv w) (orders : Nat → RangeOrder String) (att : NodeFabricNetworkAttachment) :
    ∃ cache gone nodes, ((w.cont.additionalNetworkCache att.addNetKey).elim (some w.cont.sharedEncapCache) fun addNet =>
        updateNodeFabNetAttVlans true orders att (parseNodeFabNetAttVlanList att.vlanList).vlans addNet
          w.cont.sharedEncapCache) = some cache ∧
      (w.cont.additionalNetworkCache att.addNetKey).elim ∅ AdditionalNetworkMeta.nodeCache = nodes ∧
      Without w.cont.sharedEncapCache gone att.addNetKey cache ∧ (∀ v, v ∈ gone ↔
        w.atts.HasVlan att.addNetKey v ∧ v ∉ (parseNodeFabNetAttVlanList att.vlanList).vlans) ∧
      ∀ node, node ∈ nodes ↔ ∃ obj ∈ w.atts.objs, obj.id = (node, att.addNetKey) := by
  cases hnet : w.cont.additionalNetworkCache att.addNetKey with
  | none =>
    have hno := hinv.absent _ hnet
    refine ⟨_, [], ∅, rfl, rfl, Without.refl _ _, ?_, ?_⟩
    · simp [Attachments.HasVlan, hno]
    · intro node
      simp only [notMem_empty, false_iff]
      rintro ⟨obj, hobj, hid⟩
      exact hno ⟨obj, hobj, (Prod.mk.inj hid).2⟩
  | some addNet =>
    obtain ⟨cache, gone, hcache, hwithout, hgone⟩ := removed_spec hinv orders hnet
    exact ⟨cache, gone, _, hcache, rfl, hwithout, hgone, (hinv.recorded _ _ hnet).node⟩

theorem inv_update (hinv : Inv w) (hok : Allowed w (.update orders att)) :
    ∃ w', w.handle (.update orders att) = some w' ∧ Inv w' := by
  obtain ⟨herr, hnodup, hlinks, hnew⟩ := hok
  obtain ⟨cache, gone, nodes, hcache, hnodes, hwithout, hgone, hmem⟩ := updated_network hinv orders.nodes att
  have hwith := updateEncaps_spec hlinks orders.links (parseNodeFabNetAttVlanList att.vlanList).vlans.zipIdx
    cache
  rw [zipIdx_map_fst] at hwith
  refine ⟨⟨⟨false, w.cont.additionalNetworkCache.put att.addNetKey ⟨att.vlanList, insert att.nodeName nodes⟩,
    updateEncaps orders.links att (parseNodeFabNetAttVlanList att.vlanList).vlans.zipIdx cache⟩,
    w.atts.update att⟩, ?_, ?_⟩
  · unfold World.handle updateNodeFabNetAttObj
    simp only [herr, hcache, hnodes]
    rfl
  · refine ⟨?_, ?_, exact_update hinv.exact hwithout hgone hwith hnew _ _⟩
    · intro net hnet hexists
      rw [exists_update] at hexists
      by_cases hkey : net = att.addNetKey
      · subst hkey
        simp at hnet
      · refine hinv.absent net ?_ (hexists.resolve_left hkey)
        simpa [put_other _ _ hkey] using hnet
    · intro net addNet hnet
      by_cases hkey : net = att.addNetKey
      · subst hkey
        simp only [put_same, some_inj] at hnet
        subst hnet
        exact recorded_update hmem hnodup
      · simp only [put_other _ _ hkey] at hnet
        exact (hinv.recorded net addNet hnet).update_other hkey

theorem splitOn_deletedKey (att : NodeFabricNetworkAttachment) :
    splitOn '_' att.deletedKey.toList = [att.nodeName.toList, att.addNetKey.toList] := by
  have htext : att.deletedKey.toList = att.nodeName.toList ++ '_' :: att.addNetKey.toList := by
    simp [NodeFabricNetworkAttachment.deletedKey]
  have hnet : '_' ∉ att.addNetKey.toList := att.network_plain
  rw [htext, splitOn_append att.node_plain, splitOn_plain hnet]

/-- Without the object of the node and the network, a deletion changes nothing. -/
theorem delete_absent (h : ¬ ∃ obj ∈ a.objs, obj.id = att.id) : a.delete att = a := by
  have hobjs : removeByKey NodeFabricNetworkAttachment.id a.objs att.id = a.objs := by
    refine filter_eq_self.mpr ?_
    intro obj hobj
    exact decide_eq_true fun hid => h ⟨obj, hobj, hid⟩
  unfold Attachments.delete
  rw [hobjs]

/-- A deletion from a network that has other objects leaves the cache as it is. -/
theorem exact_delete_other (hexact : w.Exact)
    (hempty : ∀ obj ∈ w.atts.objs, obj.id = att.id → ∀ iface ∈ obj.aciTopology.keys, obj.podList iface = [])
    (hother : (w.atts.delete att).Exists att.addNetKey) (mutex : Bool) (nets : Map String AdditionalNetworkMeta) :
    World.Exact ⟨⟨mutex, nets, w.cont.sharedEncapCache⟩, w.atts.delete att⟩ := by
  have hhas : ∀ net vlan, (w.atts.delete att).HasVlan net vlan ↔ w.atts.HasVlan net vlan := by
    intro net vlan
    refine and_congr ?_ Iff.rfl
    by_cases hnet : net = att.addNetKey
    · subst hnet
      refine iff_of_true hother ?_
      obtain ⟨obj, hobj, hkey⟩ := hother
      exact ⟨obj, (mem_removeByKey.mp hobj).1, hkey⟩
    · exact exists_delete_other _ _ hnet
  constructor
  · intro vlan net
    rw [hhas]
    exact hexact.netRef vlan net
  · intro vlan node net pod
    rw [hhas, listsPod_delete]
    refine (hexact.pods vlan node net pod).trans (and_congr_right fun _ => ?_)
    refine ⟨fun h => ⟨?_, h⟩, And.right⟩
    obtain ⟨obj, hobj, hid, hlists⟩ := h
    intro hsame
    exact not_lists_nil hlists (hempty obj hobj (hid.trans hsame))

/-- The last object of a network takes the network out of its VLANs. -/
theorem exact_delete_last (hexact : w.Exact)
    (hwithout : Without w.cont.sharedEncapCache (w.atts.vlans att.addNetKey) att.addNetKey cache)
    (hlast : ¬ (w.atts.delete att).Exists att.addNetKey) (mutex : Bool) (nets : Map String AdditionalNetworkMeta) :
    World.Exact ⟨⟨mutex, nets, cache⟩, w.atts.delete att⟩ := by
  have hhas : ∀ net vlan, (w.atts.delete att).HasVlan net vlan ↔
      w.atts.HasVlan net vlan ∧ net ≠ att.addNetKey := by
    intro net vlan
    by_cases hnet : net = att.addNetKey
    · subst hnet
      simp [Attachments.HasVlan, hlast]
    · rw [Attachments.HasVlan, exists_delete_other _ _ hnet]
      exact (and_iff_left hnet).symm
  constructor
  · intro vlan net
    rw [hhas, hwithout.netRef, hexact.netRef]
    refine and_congr_right fun h => ?_
    by_cases hnet : net = att.addNetKey
    · subst hnet
      simp [h.2]
    · simp [hnet]
  · intro vlan node net pod
    have hbefore := hexact.pods vlan node net pod
    rw [hhas, hwithout.pods, listsPod_delete]
    by_cases hnet : net = att.addNetKey
    · subst hnet
      by_cases hvlan : vlan ∈ w.atts.vlans att.addNetKey
      · simp [hvlan]
      · simp [hvlan, hbefore, Attachments.HasVlan]
    · have hid : (node, net) ≠ att.id := fun h => hnet (Prod.mk.inj h).2
      simp [hnet, hid, hbefore]

theorem Recorded.delete_node (h : Recorded a att.addNetKey addNet) (hleft : addNet.nodeCache.erase att.nodeName ≠ ∅) :
    Recorded (a.delete att) att.addNetKey ⟨addNet.encapVlan, addNet.nodeCache.erase att.nodeName⟩ where
  encapVlan := h.encapVlan
  nodup := h.nodup
  nonempty := hleft
  node node := by
    rw [mem_erase, h.node]
    have hid : (node, att.addNetKey) ≠ att.id ↔ node ≠ att.nodeName := by simp [NodeFabricNetworkAttachment.id]
    exact (exists_mem_removeByKey.trans (and_congr_left' hid)).symm

/-- Another object of the network is left when another node is. -/
theorem Recorded.exists_delete (h : Recorded a att.addNetKey addNet) :
    (a.delete att).Exists att.addNetKey ↔ addNet.nodeCache.erase att.nodeName ≠ ∅ := by
  refine ⟨?_, fun hleft => (h.delete_node hleft).exists⟩
  rintro ⟨obj, hobj, hkey⟩ hempty
  obtain ⟨hmem, hne⟩ := mem_removeByKey.mp hobj
  have hnode : obj.nodeName ∈ addNet.nodeCache.erase att.nodeName := by
    refine mem_erase.mpr ⟨?_, (h.node _).mpr ⟨obj, hmem, ?_⟩⟩
    · exact fun hn => hne (Prod.ext hn hkey)
    · exact Prod.ext rfl hkey
  rw [hempty] at hnode
  exact notMem_empty _ hnode

theorem inv_delete (hinv : Inv w) (hok : Allowed w (.delete orders att)) :
    ∃ w', w.handle (.delete orders att) = some w' ∧ Inv w' := by
  unfold World.handle deleteNodeFabNetAttObj
  simp only [splitOn_deletedKey, String.ofList_toList]
  have hsame : (¬ ∃ obj ∈ w.atts.objs, obj.id = att.id) →
      Inv ⟨⟨true, w.cont.additionalNetworkCache, w.cont.sharedEncapCache⟩, w.atts.delete att⟩ := by
    intro hno
    rw [delete_absent hno]
    exact ⟨hinv.absent, hinv.recorded, hinv.exact.netRef, hinv.exact.pods⟩
  cases hnet : w.cont.additionalNetworkCache att.addNetKey with
  | none =>
    refine ⟨_, rfl, hsame ?_⟩
    rintro ⟨obj, hobj, hid⟩
    exact hinv.absent _ hnet ⟨obj, hobj, (Prod.mk.inj hid).2⟩
  | some addNet =>
    have hrec := hinv.recorded _ _ hnet
    dsimp only
    split
    · rename_i hnode
      exact ⟨_, rfl, hsame fun h => hnode ((hrec.node _).mpr h)⟩
    · split
      · rename_i hempty
        have hlast : ¬ (w.atts.delete att).Exists att.addNetKey := fun h => hrec.exists_delete.mp h hempty
        have hspec := deleteGlobalEncapVlans_spec hinv.tidy orders.nodes att.addNetKey
          (parseNodeFabNetAttVlanList addNet.encapVlan).vlans.zipIdx
        rw [zipIdx_map_fst, ← hrec.vlans] at hspec
        obtain ⟨cache, hcache, hwithout⟩ := hspec (hrec.vlans ▸ hrec.nodup) fun v hv =>
          (hinv.exact.netRef v _).mpr ⟨hrec.exists, hv⟩
        rw [← hrec.vlans, if_pos trivial, hcache]
        refine ⟨_, rfl, ?_, ?_, exact_delete_last hinv.exact hwithout hlast _ _⟩
        · intro net hget
          by_cases hkey : net = att.addNetKey
          · exact hkey ▸ hlast
          · rw [exists_delete_other _ _ hkey]
            exact hinv.absent net (by simpa [erase_other _ hkey] using hget)
        · intro net addNet' hget
          by_cases hkey : net = att.addNetKey
          · simp [hkey] at hget
          · exact (hinv.recorded net addNet' (by simpa [erase_other _ hkey] using hget)).delete_other hkey
      · rename_i hnode hleft
        refine ⟨_, rfl, ?_, ?_, exact_delete_other hinv.exact ?_ (hrec.exists_delete.mpr hleft) _ _⟩
        · intro net hget
          by_cases hkey : net = att.addNetKey
          · simp [hkey] at hget
          · rw [exists_delete_other _ _ hkey]
            exact hinv.absent net (by simpa [put_other _ _ hkey] using hget)
        · intro net addNet' hget
          by_cases hkey : net = att.addNetKey
          · subst hkey
            simp only [put_same, some_inj] at hget
            subst hget
            exact hrec.delete_node hleft
          · exact (hinv.recorded net addNet' (by simpa [put_other _ _ hkey] using hget)).delete_other hkey
        · intro obj hobj hid
          refine (hok obj hobj hid).resolve_right fun honly => ?_
          obtain ⟨other, hother, hkey⟩ := hrec.exists_delete.mpr hleft
          obtain ⟨hmem, hne⟩ := mem_removeByKey.mp hother
          exact hne (Prod.ext (honly other hmem hkey) hkey)

end Steps

theorem inv_start : Inv start where
  absent net _ := by simp [start, Attachments.Exists]
  recorded net addNet h := by simp [start] at h
  exact := by
    constructor
    · simp [start, Attachments.HasVlan, Attachments.Exists, EncapCache.netRefAt]
    · simp [start, Attachments.HasVlan, Attachments.Exists, EncapCache.podsAt]

instance (att : NodeFabricNetworkAttachment) : Decidable (LinksAgree att) :=
  inferInstanceAs (Decidable (∀ a ∈ att.aciTopology.keys, ∀ b ∈ att.aciTopology.keys, att.podList a ≠ [] →
    att.podList b ≠ [] → ∀ pod ∈ att.podList a, pod ∈ att.podList b))

instance (w : World) (e : Event) : Decidable (Allowed w e) := by
  cases e <;> unfold Allowed <;> infer_instance

/-- In every run whose handlers are allowed, no nil pointer is followed and the cache is exact. -/
theorem sharedEncap_run (events : List Event) (h : Along step (fun s e => ∀ w ∈ s, Allowed w e) (some start) events) :
    ∃ w, run step (some start) events = some w ∧ w.Exact := by
  have hrun : ∃ w, run step (some start) events = some w ∧ Inv w := by
    refine @invariant_run _ _ step _ (fun s => ∃ w, s = some w ∧ Inv w) ?_ (some start) events
      ⟨start, rfl, inv_start⟩ h
    rintro _ e ⟨w, rfl, hinv⟩ hok
    have hok := hok w rfl
    cases e with
    | update orders att => exact inv_update hinv hok
    | delete orders att => exact inv_delete hinv hok
  obtain ⟨w, hw, hinv⟩ := hrun
  exact ⟨w, hw, hinv.exact⟩

def sortedOrders : LoopOrders := ⟨fun _ => .sorted, fun _ => .sorted⟩

/-- An object of the network `shop/data` with one link. -/
def shopData (nodeName vlanList : String) (pods : List ObjRef) (h : '_' ∉ nodeName.toList) :
    NodeFabricNetworkAttachment where
  networkRef := ⟨"shop", "data"⟩
  vlanList := vlanList
  nodeName := nodeName
  aciTopology := Finmap.singleton "bond1" pods
  node_plain := h
  network_plain := by decide

def node1 (vlanList : String) (pods : List ObjRef) : NodeFabricNetworkAttachment :=
  shopData "node-1" vlanList pods (by decide)

def node2 (vlanList : String) (pods : List ObjRef) : NodeFabricNetworkAttachment :=
  shopData "node-2" vlanList pods (by decide)

/-- A pod comes and goes on one node, which is then deleted, and the list changes. -/
def shopRun : List Event :=
  [.update sortedOrders (node1 "[100]" [⟨"shop", "web"⟩]), .update sortedOrders (node2 "[100]" []),
    .update sortedOrders (node1 "[100]" []), .delete sortedOrders (node1 "[100]" []),
    .update sortedOrders (node2 "[101-102]" [⟨"shop", "db"⟩]), .delete sortedOrders (node2 "[101-102]" [])]

theorem sharedEncap_run_shop : Along step (fun s e => ∀ w ∈ s, Allowed w e) (some start) shopRun ∧
      ∃ w, run step (some start) shopRun = some w ∧ w.Exact :=
  ⟨by decide +kernel, sharedEncap_run shopRun (by decide +kernel)⟩

/-- The object of one of two nodes is deleted while it has a pod: the pod stays in the cache. -/
theorem sharedEncap_run_fails : ¬ ∃ w, run step (some start) [.update sortedOrders (node1 "[100]" [⟨"shop", "web"⟩]),
      .update sortedOrders (node2 "[100]" []),
      .delete sortedOrders (node1 "[100]" [⟨"shop", "web"⟩])] = some w ∧ w.Exact := by
  rintro ⟨w, hw, hexact⟩
  have hcache : (run step (some start) [.update sortedOrders (node1 "[100]" [⟨"shop", "web"⟩]),
      .update sortedOrders (node2 "[100]" []), .delete sortedOrders (node1 "[100]" [⟨"shop", "web"⟩])]).map
        (fun w => (w.cont.sharedEncapCache.podsAt 100 "node-1" "shop/data",
          w.atts.objs.map NodeFabricNetworkAttachment.nodeName)) = some (["shop/web"], ["node-2"]) := by
    decide +kernel
  rw [hw, map_some, some_inj, Prod.mk.injEq] at hcache
  have hpod := (hexact.pods 100 "node-1" "shop/data" "shop/web").mp (by simp [hcache.1])
  obtain ⟨-, obj, hobj, hid, -⟩ := hpod
  have hnode : obj.nodeName ∈ w.atts.objs.map NodeFabricNetworkAttachment.nodeName := mem_map_of_mem hobj
  rw [hcache.2, (Prod.mk.inj hid).1] at hnode
  simp at hnode

/-- The mutex is released exactly when other nodes keep the network. -/
theorem deleteNodeFabNetAttObj_unlocks_iff (aciUseGlobalScopeVlan : Bool) (orders : LoopOrders)
    (cont : Controller) (att : NodeFabricNetworkAttachment) :
    (∃ cont', deleteNodeFabNetAttObj aciUseGlobalScopeVlan orders cont att.deletedKey = some cont' ∧
        cont'.indexMutex = false) ↔
      ∃ addNet, cont.additionalNetworkCache att.addNetKey = some addNet ∧ att.nodeName ∈ addNet.nodeCache ∧
        addNet.nodeCache.erase att.nodeName ≠ ∅ := by
  unfold deleteNodeFabNetAttObj
  rw [splitOn_deletedKey]
  simp only [String.ofList_toList]
  cases hnet : cont.additionalNetworkCache att.addNetKey with
  | none => simp
  | some addNet =>
    by_cases hnode : att.nodeName ∈ addNet.nodeCache
    · by_cases hlast : addNet.nodeCache.erase att.nodeName = ∅
      · cases aciUseGlobalScopeVlan <;> simp [hnode, hlast]
      · simp [hnode, hlast]
    · simp [hnode]

/-- The network is not in the cache: the mutex stays locked. -/
theorem deleteNodeFabNetAttObj_unlocks_fails :
    ¬ ∃ cont', deleteNodeFabNetAttObj true sortedOrders start.cont (node1 "[100]" []).deletedKey = some cont' ∧
      cont'.indexMutex = false := by
  rintro ⟨cont', hdel, hfree⟩
  have hlocked : (deleteNodeFabNetAttObj true sortedOrders start.cont
      (node1 "[100]" []).deletedKey).map Controller.indexMutex = some true := by decide
  rw [hdel, map_some, hfree] at hlocked
  cases hlocked

end AciContainers.NodeFabNetAtt
