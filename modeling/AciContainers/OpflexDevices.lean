import AciContainers.Runs

/-!
# Opflex devices of nodes

`opflexDeviceChanged` and `opflexDeviceDeleted` of `pkg/controller/services.go`. Each node has a
list of devices. One pass over all nodes takes a changed device out of the lists of other nodes
and updates it, or appends it, in the list of its own host. The order of the nodes does not
matter.
-/
namespace AciContainers.OpflexDevices

open Runs List

/-- The attributes that the handlers read. -/
structure Device where
  dn : String
  hostName : String
  devType : String
  domName : String
  ctrlrName : String
  mac : String
  fabricPathDn : String
  state : String
  delete : String
  deleteTime : String
  deriving DecidableEq

structure Config where
  opFlexDeviceType : String
  aciVmmDomain : String
  aciVmmController : String

/-- A map from nodes to lists of devices. -/
structure NodeOpflexDevice where
  entries : List (String × List Device)
  nodup : (entries.map Prod.fst).Nodup

namespace NodeOpflexDevice

def empty : NodeOpflexDevice := ⟨[], nodup_nil⟩

/-- A loop over the map that stores a new list at each node. -/
def mapLists (m : NodeOpflexDevice) (f : String → List Device → List Device) : NodeOpflexDevice where
  entries := m.entries.map fun p => (p.1, f p.1 p.2)
  nodup := by
    rw [map_map]
    exact m.nodup

/-- A loop over the map that deletes nodes. -/
def keep (m : NodeOpflexDevice) (p : String × List Device → Bool) : NodeOpflexDevice where
  entries := m.entries.filter p
  nodup := m.nodup.sublist (filter_sublist.map Prod.fst)

/-- A node that is not in the map. -/
def add (m : NodeOpflexDevice) (node : String) (devices : List Device)
    (h : node ∉ m.entries.map Prod.fst) : NodeOpflexDevice where
  entries := (node, devices) :: m.entries
  nodup := nodup_cons.mpr ⟨h, m.nodup⟩

/-- The list of a node; an unknown node has none. -/
def devices (m : NodeOpflexDevice) (node : String) : List Device :=
  ((m.entries.find? fun p => p.1 = node).map Prod.snd).getD []

/-- How often a device occurs, over all nodes. -/
def countDn (m : NodeOpflexDevice) (dn : String) : Nat :=
  (m.entries.map fun p => p.2.countP fun d => d.dn = dn).sum

end NodeOpflexDevice

variable {l devices : List Device} {obj : Device} {node : String} {found : Bool}

def ofThisCluster (cfg : Config) (obj : Device) : Bool :=
  obj.devType = cfg.opFlexDeviceType && obj.domName = cfg.aciVmmDomain && obj.ctrlrName = cfg.aciVmmController

/-- The loop over one list: whether the device was found, and the new list if there is one. An
updated device goes to the end. -/
def scan (obj : Device) (node : String) : List Device → Bool × Option (List Device)
  | [] => (false, none)
  | device :: rest =>
    if device.dn ≠ obj.dn then
      ((scan obj node rest).1, (scan obj node rest).2.map (device :: ·))
    else if obj.hostName ≠ node then (true, some rest)
    else if device.mac ≠ obj.mac ∨ device.fabricPathDn ≠ obj.fabricPathDn ∨ device.state ≠ obj.state then
      (true, some (rest ++ [obj]))
    else (true, (scan obj node rest).2.map (device :: ·))

/-- The turn of a node: its new list, if it gets one. -/
def deviceTurn (obj : Device) (node : String) (devices : List Device) : Option (List Device) :=
  match scan obj node devices with
  | (_, some devices) => some devices
  | (found, none) => if ¬ found ∧ obj.hostName = node then some (devices ++ [obj]) else none

def disconnect (obj : Device) (node : String) (devices : List Device) : List Device :=
  if node = obj.hostName then
    devices.map fun device => if device.dn = obj.dn then { device with state := "disconnected" } else device
  else devices

/-- The pass over all nodes. -/
def turns (m : NodeOpflexDevice) (obj : Device) : NodeOpflexDevice :=
  m.mapLists fun node devices => (deviceTurn obj node devices).getD devices

/-- Returns also the nodes whose services are then updated. -/
def opflexDeviceChanged (cfg : Config) (m : NodeOpflexDevice) (obj : Device) : NodeOpflexDevice × List String :=
  if ofThisCluster cfg obj then
    if obj.state = "disconnected" then (m.mapLists (disconnect obj), [])
    else
      let nodeUpdates := (m.entries.filter fun p => (deviceTurn obj p.1 p.2).isSome).map Prod.fst
      if h : obj.hostName ∈ (turns m obj).entries.map Prod.fst then (turns m obj, nodeUpdates)
      else ((turns m obj).add obj.hostName [obj] h, nodeUpdates ++ [obj.hostName])
  else (m, [])

/-- Nodes without devices are deleted. -/
def opflexDeviceDeleted (m : NodeOpflexDevice) (dn : String) : NodeOpflexDevice × List String :=
  ((m.mapLists fun _ devices => devices.eraseP fun d => d.dn = dn).keep fun p => p.2 ≠ [],
    (m.entries.filter fun p => p.2.any fun d => d.dn = dn).map Prod.fst)

inductive Event where
  | changed (obj : Device)
  | deleted (dn : String)

def Event.dn : Event → String
  | .changed obj => obj.dn
  | .deleted dn => dn

def step (cfg : Config) (m : NodeOpflexDevice) : Event → NodeOpflexDevice
  | .changed obj => (opflexDeviceChanged cfg m obj).1
  | .deleted dn => (opflexDeviceDeleted m dn).1

/-- The devices other than one, in order. -/
def others (dn : String) (devices : List Device) : List Device := devices.filter fun d => d.dn ≠ dn

def count (dn : String) (devices : List Device) : Nat := devices.countP fun d => d.dn = dn

theorem count_eq_of_others {dn dn' : String} (hne : dn' ≠ dn) {l' : List Device}
    (h : others dn l' = others dn l) : count dn' l' = count dn' l := by
  have hcount : ∀ k : List Device, count dn' k = count dn' (others dn k) := by
    intro k
    rw [count, count, others, countP_filter]
    congr 1
    funext d
    by_cases hd : d.dn = dn'
    · simp [hd, hne]
    · simp [hd]
  rw [hcount l', hcount l, h]

theorem scan_some (h : scan obj node devices = (found, some l)) :
    others obj.dn l = others obj.dn devices ∧ 0 < count obj.dn devices ∧
      count obj.dn l + (if obj.hostName = node then 0 else 1) = count obj.dn devices := by
  induction devices generalizing l found with
  | nil => simp [scan] at h
  | cons device rest ih =>
    rw [scan] at h
    by_cases hdn : device.dn = obj.dn
    · by_cases hnode : obj.hostName = node
      · by_cases hdiff : device.mac ≠ obj.mac ∨ device.fabricPathDn ≠ obj.fabricPathDn ∨ device.state ≠ obj.state
        · rw [if_neg (not_not.mpr hdn), if_neg (not_not.mpr hnode), if_pos hdiff] at h
          obtain ⟨-, rfl⟩ := Prod.mk.inj h |>.imp id Option.some.inj
          simp [others, count, hdn, hnode]
        · rw [if_neg (not_not.mpr hdn), if_neg (not_not.mpr hnode), if_neg hdiff] at h
          obtain ⟨l', hl', rfl⟩ := Option.map_eq_some_iff.mp (Prod.mk.inj h).2
          obtain ⟨hothers, -, hcount⟩ := ih (Prod.ext rfl hl')
          simpa [others, count, hdn, hnode] using And.intro hothers hcount
      · rw [if_neg (not_not.mpr hdn), if_pos hnode] at h
        obtain ⟨-, rfl⟩ := Prod.mk.inj h |>.imp id Option.some.inj
        simp [others, count, hdn, hnode]
    · rw [if_pos hdn] at h
      obtain ⟨l', hl', rfl⟩ := Option.map_eq_some_iff.mp (Prod.mk.inj h).2
      obtain ⟨hothers, hcount⟩ := ih (Prod.ext rfl hl')
      simpa [others, count, hdn] using And.intro hothers hcount

theorem scan_none (h : scan obj node devices = (found, none)) : (found = false → count obj.dn devices = 0) ∧
      (found → obj.hostName = node ∧ 0 < count obj.dn devices) := by
  induction devices generalizing found with
  | nil =>
    obtain ⟨rfl, -⟩ := Prod.mk.inj h
    simp [count]
  | cons device rest ih =>
    rw [scan] at h
    by_cases hdn : device.dn = obj.dn
    · by_cases hnode : obj.hostName = node
      · rw [if_neg (not_not.mpr hdn), if_neg (not_not.mpr hnode)] at h
        split at h
        · simp at h
        · obtain ⟨rfl, -⟩ := Prod.mk.inj h
          simp [count, hdn, hnode]
      · rw [if_neg (not_not.mpr hdn), if_pos hnode] at h
        simp at h
    · rw [if_pos hdn] at h
      obtain ⟨hfound, hnone⟩ := Prod.mk.inj h
      have hrest := ih (Prod.ext hfound (Option.map_eq_none_iff.mp hnone))
      simpa [count, hdn] using hrest

/-- The turn of a node keeps the other devices and leaves the device at its host only. -/
theorem deviceTurn_spec (obj : Device) (node : String) {devices : List Device} (hone : count obj.dn devices ≤ 1) :
    others obj.dn ((deviceTurn obj node devices).getD devices) = others obj.dn devices ∧
      count obj.dn ((deviceTurn obj node devices).getD devices) = if obj.hostName = node then 1 else 0 := by
  unfold deviceTurn
  rcases hs : scan obj node devices with ⟨found, new⟩
  cases new with
  | some l =>
    obtain ⟨hothers, hpos, hcount⟩ := scan_some hs
    refine ⟨hothers, ?_⟩
    simp only [Option.getD_some]
    split at hcount <;> split <;> first | omega | contradiction
  | none =>
    obtain ⟨hfalse, htrue⟩ := scan_none hs
    cases found with
    | true =>
      obtain ⟨hnode, hpos⟩ := htrue rfl
      simp only [not_true_eq_false, false_and, if_false, Option.getD_none, if_pos hnode, true_and]
      omega
    | false =>
      have hzero := hfalse rfl
      by_cases hnode : obj.hostName = node
      · simp [hnode, others, count] at hzero ⊢
        exact hzero
      · simp [hnode, hzero]

theorem disconnect_spec (obj : Device) (node : String) (devices : List Device) (dn : String) :
    others obj.dn (disconnect obj node devices) = others obj.dn devices ∧
      count dn (disconnect obj node devices) = count dn devices := by
  unfold disconnect
  split
  · constructor
    · induction devices with
      | nil => rfl
      | cons device rest ih => by_cases hd : device.dn = obj.dn <;> simpa [others, hd] using ih
    · rw [count, countP_map, count]
      congr 1
      funext device
      by_cases hd : device.dn = obj.dn <;> simp [hd]
  · exact ⟨rfl, rfl⟩

theorem eraseP_spec (dn : String) (devices : List Device) :
    others dn (devices.eraseP fun d => d.dn = dn) = others dn devices ∧
      count dn (devices.eraseP fun d => d.dn = dn) = count dn devices - 1 := by
  induction devices with
  | nil => simp [others, count]
  | cons device rest ih =>
    by_cases hd : device.dn = dn
    · simp [others, count, hd]
    · simpa [others, count, hd] using ih

namespace NodeOpflexDevice

variable {m : NodeOpflexDevice}

theorem countDn_eq (m : NodeOpflexDevice) (dn : String) :
    m.countDn dn = (m.entries.map fun p => count dn p.2).sum := rfl

theorem countDn_mapLists (m : NodeOpflexDevice) (f : String → List Device → List Device) (dn : String) :
    (m.mapLists f).countDn dn = (m.entries.map fun p => count dn (f p.1 p.2)).sum := by
  rw [countDn_eq, mapLists, map_map]
  rfl

theorem count_le_countDn {p : String × List Device} (hp : p ∈ m.entries) (dn : String) :
    count dn p.2 ≤ m.countDn dn := by
  exact le_sum_of_mem (mem_map.mpr ⟨p, hp, rfl⟩)

theorem others_mapLists {f : String → List Device → List Device} {dn : String}
    (hf : ∀ p ∈ m.entries, others dn (f p.1 p.2) = others dn p.2) (node : String) :
    others dn ((m.mapLists f).devices node) = others dn (m.devices node) := by
  unfold devices mapLists
  rw [find?_map]
  simp only [Function.comp_def]
  cases hfind : m.entries.find? fun p => p.1 = node with
  | none => rfl
  | some p => exact hf p (mem_of_find?_eq_some hfind)

theorem find_nonempty {entries : List (String × List Device)} (hnodup : (entries.map Prod.fst).Nodup)
    (node : String) : (((entries.filter fun p => p.2 ≠ []).find? fun p => p.1 = node).map Prod.snd).getD [] =
      ((entries.find? fun p => p.1 = node).map Prod.snd).getD [] := by
  induction entries with
  | nil => rfl
  | cons p rest ih =>
    rw [map_cons, nodup_cons] at hnodup
    have hrest := ih hnodup.2
    by_cases hempty : p.2 = []
    · by_cases hnode : p.1 = node
      · have hnone : (rest.filter fun p => p.2 ≠ []).find? (fun p => p.1 = node) = none := by
          rw [find?_eq_none]
          intro q hq hqnode
          refine hnodup.1 (mem_map.mpr ⟨q, mem_of_mem_filter hq, ?_⟩)
          rw [hnode]
          simpa using hqnode
        rw [filter_cons_of_neg (by simpa using hempty), hnone, find?_cons_of_pos (by simpa using hnode)]
        simp [hempty]
      · rw [filter_cons_of_neg (by simpa using hempty), find?_cons_of_neg (by simpa using hnode)]
        exact hrest
    · rw [filter_cons_of_pos (by simpa using hempty)]
      by_cases hnode : p.1 = node
      · rw [find?_cons_of_pos (by simpa using hnode), find?_cons_of_pos (by simpa using hnode)]
      · rw [find?_cons_of_neg (by simpa using hnode), find?_cons_of_neg (by simpa using hnode)]
        exact hrest

/-- Deleting nodes without devices changes no list. -/
theorem devices_keep (m : NodeOpflexDevice) (node : String) :
    (m.keep fun p => p.2 ≠ []).devices node = m.devices node :=
  find_nonempty m.nodup node

theorem sum_count_nonempty (entries : List (String × List Device)) (dn : String) :
    ((entries.filter fun p => p.2 ≠ []).map fun p => count dn p.2).sum = (entries.map fun p => count dn p.2).sum := by
  induction entries with
  | nil => rfl
  | cons p rest ih =>
    by_cases hempty : p.2 = []
    · rw [filter_cons_of_neg (by simpa using hempty), ih, map_cons, sum_cons, hempty]
      simp [count]
    · rw [filter_cons_of_pos (by simpa using hempty), map_cons, sum_cons, ih,
        map_cons, sum_cons]

theorem countDn_keep (m : NodeOpflexDevice) (dn : String) : (m.keep fun p => p.2 ≠ []).countDn dn = m.countDn dn :=
  sum_count_nonempty m.entries dn

theorem devices_add {m : NodeOpflexDevice} {new : String} {devices : List Device}
    (h : new ∉ m.entries.map Prod.fst) (node : String) :
    (m.add new devices h).devices node = if new = node then devices else m.devices node := by
  unfold NodeOpflexDevice.devices add
  by_cases hnode : new = node <;> simp [hnode]

theorem devices_of_not_mem {node : String} (h : node ∉ m.entries.map Prod.fst) : m.devices node = [] := by
  have hnone : (m.entries.find? fun p => p.1 = node) = none := by
    rw [find?_eq_none]
    intro p hp hnode
    exact h (mem_map.mpr ⟨p, hp, by simpa using hnode⟩)
  simp [devices, hnone]

theorem countDn_add {new : String} {devices : List Device} (h : new ∉ m.entries.map Prod.fst)
    (dn : String) : (m.add new devices h).countDn dn = count dn devices + m.countDn dn := by
  simp [countDn_eq, add]

/-- Each node is met once. -/
theorem sum_host (m : NodeOpflexDevice) (host : String) : (m.entries.map fun p => if host = p.1 then 1 else 0).sum =
      if host ∈ m.entries.map Prod.fst then 1 else 0 := by
  have hcount : ∀ entries : List (String × List Device),
      (entries.map fun p => if host = p.1 then 1 else 0).sum = (entries.map Prod.fst).count host := by
    intro entries
    induction entries with
    | nil => rfl
    | cons p rest ih =>
      rw [map_cons, sum_cons, ih, map_cons, count_cons, add_comm]
      by_cases hhost : host = p.1
      · simp [hhost]
      · simp [hhost, Ne.symm hhost]
  rw [hcount, m.nodup.count]

end NodeOpflexDevice

/-- What an event does to the lists. -/
structure Placed (cfg : Config) (m : NodeOpflexDevice) (e : Event) (m' : NodeOpflexDevice) : Prop where
  /-- No device is in two places. -/
  once : ∀ dn, m'.countDn dn ≤ 1
  /-- A changed device is at its host, and nowhere else. -/
  changed : ∀ obj, e = .changed obj → ofThisCluster cfg obj = true → obj.state ≠ "disconnected" →
    m'.countDn obj.dn = 1 ∧ count obj.dn (m'.devices obj.hostName) = 1
  /-- A deleted device is nowhere. -/
  deleted : ∀ dn, e = .deleted dn → m'.countDn dn = 0
  /-- The other devices of each node stay in order. -/
  order : ∀ node, others e.dn (m'.devices node) = others e.dn (m.devices node)

section Changed

open NodeOpflexDevice

variable {m : NodeOpflexDevice}

theorem countDn_turns (hm : ∀ dn, m.countDn dn ≤ 1) (dn : String) : (turns m obj).countDn dn =
      if dn = obj.dn then if obj.hostName ∈ m.entries.map Prod.fst then 1 else 0 else m.countDn dn := by
  have hspec : ∀ p ∈ m.entries, _ := fun p hp =>
    @deviceTurn_spec obj p.1 p.2 ((count_le_countDn hp obj.dn).trans (hm obj.dn))
  rw [turns, countDn_mapLists]
  split
  · next h =>
    rw [h, ← sum_host]
    congr 1
    exact map_congr_left fun p hp => (hspec p hp).2
  · next h =>
    congr 1
    exact map_congr_left fun p hp => count_eq_of_others h (hspec p hp).1

theorem others_turns (hm : ∀ dn, m.countDn dn ≤ 1) (node : String) :
    others obj.dn ((turns m obj).devices node) = others obj.dn (m.devices node) :=
  others_mapLists (fun p hp =>
    (deviceTurn_spec obj p.1 ((count_le_countDn hp obj.dn).trans (hm obj.dn))).1) node

theorem devices_turns {p : String × List Device} (hp : p ∈ m.entries) (hhost : p.1 = obj.hostName)
    (hm : ∀ dn, m.countDn dn ≤ 1) : count obj.dn ((turns m obj).devices obj.hostName) = 1 := by
  unfold turns NodeOpflexDevice.devices mapLists
  rw [find?_map]
  simp only [Function.comp_def]
  have hsome : (m.entries.find? fun p => p.1 = obj.hostName).isSome := by
    rw [find?_isSome]
    exact ⟨p, hp, by simpa using hhost⟩
  obtain ⟨q, hq⟩ := Option.isSome_iff_exists.mp hsome
  have hqhost : q.1 = obj.hostName := by simpa using find?_some hq
  have hspec := deviceTurn_spec obj q.1
    ((count_le_countDn (mem_of_find?_eq_some hq) obj.dn).trans (hm obj.dn))
  rw [hq]
  simpa [hqhost] using hspec.2

theorem placed_connected (cfg : Config) (hm : ∀ dn, m.countDn dn ≤ 1) (hours : ofThisCluster cfg obj)
    (hstate : obj.state ≠ "disconnected") : Placed cfg m (.changed obj) (opflexDeviceChanged cfg m obj).1 := by
  have hkeys : (turns m obj).entries.map Prod.fst = m.entries.map Prod.fst := by
    simp [turns, mapLists]
  unfold opflexDeviceChanged
  rw [if_pos hours, if_neg hstate]
  split
  · next h =>
    have hmem : obj.hostName ∈ m.entries.map Prod.fst := hkeys ▸ h
    obtain ⟨p, hp, hhost⟩ := mem_map.mp hmem
    refine ⟨fun dn => ?_, ?_, fun dn hdn => by simp at hdn, others_turns hm⟩
    · have hcount := @countDn_turns obj m hm dn
      refine hcount.le.trans ?_
      split
      · exact le_rfl
      · exact hm dn
    · rintro _ ⟨⟩ - -
      have hcount := @countDn_turns obj m hm obj.dn
      rw [if_pos rfl, if_pos hmem] at hcount
      exact ⟨hcount, devices_turns hp hhost hm⟩
  · next h =>
    have hmem : obj.hostName ∉ m.entries.map Prod.fst := fun h' => h (hkeys ▸ h')
    have hcount : ∀ dn, ((turns m obj).add obj.hostName [obj] h).countDn dn =
        count dn [obj] + if dn = obj.dn then 0 else m.countDn dn := by
      intro dn
      rw [countDn_add, countDn_turns hm dn, if_neg hmem]
    refine ⟨fun dn => ?_, ?_, fun dn hdn => by simp at hdn, fun node => ?_⟩
    · refine (hcount dn).le.trans ?_
      by_cases hdn : dn = obj.dn
      · simp [hdn, count]
      · simp [hdn, count, Ne.symm hdn, hm dn]
    · rintro _ ⟨⟩ - -
      refine ⟨(hcount obj.dn).trans (by simp [count]), ?_⟩
      have hdev := @devices_add _ _ [obj] h obj.hostName
      exact (congrArg (count obj.dn) hdev).trans (by simp [count])
    · have hdev := @devices_add _ _ [obj] h node
      refine (congrArg (others obj.dn) hdev).trans ?_
      split
      · next hnode =>
        rw [← hnode, devices_of_not_mem hmem]
        simp [others]
      · exact others_turns hm node

end Changed

variable {cfg : Config} {m : NodeOpflexDevice} (hm : ∀ dn, m.countDn dn ≤ 1)
include hm

theorem placed_changed (obj : Device) : Placed cfg m (.changed obj) (opflexDeviceChanged cfg m obj).1 := by
  by_cases hours : ofThisCluster cfg obj
  · by_cases hstate : obj.state = "disconnected"
    · have hcount : ∀ dn, (m.mapLists (disconnect obj)).countDn dn = m.countDn dn := by
        intro dn
        rw [NodeOpflexDevice.countDn_mapLists, NodeOpflexDevice.countDn_eq]
        congr 1
        exact map_congr_left fun p _ => (disconnect_spec obj p.1 p.2 dn).2
      unfold opflexDeviceChanged
      rw [if_pos hours, if_pos hstate]
      refine ⟨fun dn => (hcount dn).le.trans (hm dn), ?_, fun dn hdn => by simp at hdn, fun node => ?_⟩
      · rintro _ ⟨⟩ - h
        exact absurd hstate h
      · exact NodeOpflexDevice.others_mapLists (fun p _ => (disconnect_spec obj p.1 p.2 obj.dn).1) node
    · exact placed_connected cfg hm hours hstate
  · unfold opflexDeviceChanged
    rw [if_neg hours]
    refine ⟨hm, ?_, fun dn hdn => by simp at hdn, fun _ => rfl⟩
    rintro _ ⟨⟩ h
    exact absurd h hours

theorem placed_deleted (dn : String) : Placed cfg m (.deleted dn) (opflexDeviceDeleted m dn).1 := by
  have hzero : ∀ p ∈ m.entries, count dn (p.2.eraseP fun d => d.dn = dn) = 0 := by
    intro p hp
    have hle := (NodeOpflexDevice.count_le_countDn hp dn).trans (hm dn)
    rw [(eraseP_spec dn p.2).2]
    omega
  have hcount : ∀ dn', (opflexDeviceDeleted m dn).1.countDn dn' = if dn' = dn then 0 else m.countDn dn' := by
    intro dn'
    unfold opflexDeviceDeleted
    rw [NodeOpflexDevice.countDn_keep, NodeOpflexDevice.countDn_mapLists]
    split
    · next h =>
      subst h
      rw [map_congr_left hzero]
      simp
    · next h =>
      congr 1
      exact map_congr_left fun p _ => count_eq_of_others h (eraseP_spec dn p.2).1
  refine ⟨fun dn' => (hcount dn').le.trans ?_, fun obj hobj => by simp at hobj, ?_, fun node => ?_⟩
  · split
    · exact Nat.zero_le 1
    · exact hm dn'
  · rintro _ ⟨⟩
    rw [hcount, if_pos rfl]
  · unfold opflexDeviceDeleted
    rw [NodeOpflexDevice.devices_keep]
    exact NodeOpflexDevice.others_mapLists (fun p _ => (eraseP_spec dn p.2).1) node

theorem placed_step (e : Event) : Placed cfg m e (step cfg m e) := by
  cases e with
  | changed obj => exact placed_changed hm obj
  | deleted dn => exact placed_deleted hm dn

omit hm

theorem once_run (events : List Event) (dn : String) :
    (run (step cfg) NodeOpflexDevice.empty events).countDn dn ≤ 1 := by
  refine @invariant_run _ _ (step cfg) (fun _ _ => True) (fun m => ∀ dn, m.countDn dn ≤ 1) ?_ _ events ?_
    (along_of_forall _ _ fun _ _ => trivial) dn
  · intro m e hm _
    exact (placed_step hm e).once
  · exact fun dn => Nat.zero_le 1

/-- From the empty map every event places its device, after any events. -/
theorem opflexDevices_placed (cfg : Config) (events : List Event) (e : Event) :
    Placed cfg (run (step cfg) NodeOpflexDevice.empty events) e
      (run (step cfg) NodeOpflexDevice.empty (events ++ [e])) := by
  rw [run_append]
  exact placed_step (once_run events) e

end AciContainers.OpflexDevices
