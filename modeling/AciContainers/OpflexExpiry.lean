import AciContainers.OpflexDevices

/-!
# Expiring opflex devices

`deleteOldOpflexDevices` and `deleteDevicesFromList` of `pkg/controller/services.go`. The turn of a
node changes only its own entry, so the loop over the map is the turn at every node.
`deleteDevicesFromList` ranges over the indices of the devices to delete and compares each index
with each device, which never are equal.
-/
namespace AciContainers.OpflexExpiry

open OpflexDevices List

/-- The entry of a node. -/
def get (m : NodeOpflexDevice) (node : String) : Option (List Device) :=
  (m.entries.find? fun p => p.1 = node).map Prod.snd

/-- The path of the last connected device. -/
def getActiveFabricPathDn (devices : List Device) : String :=
  ((devices.reverse.find? fun d => d.state = "connected").map Device.fabricPathDn).getD ""

/-- A value of the loops of `deleteDevicesFromList`, as `reflect.DeepEqual` gets it. -/
inductive Value where
  | index (i : Nat)
  | device (d : Device)
  deriving DecidableEq

def deleteDevicesFromList (delDevices devices : List Device) : List Device :=
  (range delDevices.length).flatMap fun delDev =>
    devices.filter fun device => Value.index delDev ≠ Value.device device

variable (timedOut : String → Bool)

/-- The device is to go; a delete time that cannot be parsed has not timed out. -/
def isOutdated (fabricPathDn : String) (d : Device) : Bool :=
  fabricPathDn ≠ "" && d.delete = "true" && d.fabricPathDn ≠ fabricPathDn && timedOut d.deleteTime

def outdated (devices : List Device) : List Device :=
  devices.filter fun d => isOutdated timedOut (getActiveFabricPathDn devices) d

/-- The entry of a node after its turn. -/
def nodeTurn (devices : List Device) : Option (List Device) :=
  if outdated timedOut devices = [] then some devices
  else
    let newDevices := deleteDevicesFromList (outdated timedOut devices) devices
    if newDevices = [] then none else some newDevices

def deleteOldOpflexDevices (m : NodeOpflexDevice) : NodeOpflexDevice :=
  (m.keep fun p => (nodeTurn timedOut p.2).isSome).mapLists fun _ devices => (nodeTurn timedOut devices).getD []

variable {timedOut}

/-- The entry that a node should have. -/
def remaining (timedOut : String → Bool) (devices : List Device) : Option (List Device) :=
  let left := devices.filter fun d => !isOutdated timedOut (getActiveFabricPathDn devices) d
  if left = [] then none else some left

/-- Every device stays, once for each device to delete. -/
theorem length_deleteDevicesFromList (delDevices devices : List Device) :
    (deleteDevicesFromList delDevices devices).length = delDevices.length * devices.length := by
  simp [deleteDevicesFromList, length_flatMap]

theorem nodeTurn_outdated {devices : List Device} (h : outdated timedOut devices ≠ []) :
    nodeTurn timedOut devices ≠ remaining timedOut devices := by
  have hpos := length_pos_of_ne_nil h
  have hlength := length_deleteDevicesFromList (outdated timedOut devices) devices
  have hsplit := devices.length_eq_length_filter_add fun d => isOutdated timedOut (getActiveFabricPathDn devices) d
  have hle := Nat.le_mul_of_pos_left devices.length hpos
  have hnew : deleteDevicesFromList (outdated timedOut devices) devices ≠ [] := by
    intro hnil
    rw [hnil, length_nil] at hlength
    rw [outdated] at hpos
    omega
  simp only [nodeTurn, remaining, h, hnew, if_false]
  split
  · simp
  · intro hsame
    rw [Option.some_inj.mp hsame] at hlength
    rw [outdated] at hpos
    omega

theorem nodeTurn_eq_iff (devices : List Device) : nodeTurn timedOut devices = remaining timedOut devices ↔
      devices ≠ [] ∧ ∀ d ∈ devices, isOutdated timedOut (getActiveFabricPathDn devices) d = false := by
  have hnone : outdated timedOut devices = [] ↔
      ∀ d ∈ devices, isOutdated timedOut (getActiveFabricPathDn devices) d = false := by
    simp [outdated, filter_eq_nil_iff]
  rw [← hnone]
  by_cases h : outdated timedOut devices = []
  · have hleft : (devices.filter fun d => !isOutdated timedOut (getActiveFabricPathDn devices) d) = devices := by
      simpa using hnone.mp h
    simp only [nodeTurn, remaining, h, hleft, if_true, and_true]
    by_cases hnil : devices = []
    · simp [hnil]
    · simp [hnil]
  · exact iff_of_false (nodeTurn_outdated h) fun hboth => h hboth.2

theorem get_deleteOldOpflexDevices (m : NodeOpflexDevice) (node : String) :
    get (deleteOldOpflexDevices timedOut m) node = (get m node).bind (nodeTurn timedOut) := by
  obtain ⟨entries, hnodup⟩ := m
  simp only [get, deleteOldOpflexDevices, NodeOpflexDevice.keep, NodeOpflexDevice.mapLists]
  induction entries with
  | nil => rfl
  | cons p entries ih =>
    obtain ⟨hnot, hrest⟩ := nodup_cons.mp hnodup
    by_cases hp : p.1 = node
    · have hother : ∀ a b, (a, b) ∈ entries → ¬ a = node := fun a b hab ha =>
        hnot (mem_map.mpr ⟨(a, b), hab, ha.trans hp.symm⟩)
      cases hturn : nodeTurn timedOut p.2 with
      | none => simpa [hp, hturn] using fun a b hab _ => hother a b hab
      | some devices => simp [hp, hturn]
    · cases hturn : nodeTurn timedOut p.2 <;> simpa [hp, hturn] using ih hrest

/-- The devices to go are taken out of the map when there are none, and no node without devices. -/
theorem deleteOldOpflexDevices_exact_iff (timedOut : String → Bool) (m : NodeOpflexDevice) :
    (∀ node, get (deleteOldOpflexDevices timedOut m) node = (get m node).bind (remaining timedOut)) ↔
      ∀ node devices, get m node = some devices → devices ≠ [] ∧
        ∀ d ∈ devices, isOutdated timedOut (getActiveFabricPathDn devices) d = false := by
  refine forall_congr' fun node => ?_
  rw [get_deleteOldOpflexDevices]
  cases get m node with
  | none => simp
  | some devices => simpa using nodeTurn_eq_iff devices

def leftDevice : Device :=
  ⟨"odev-1", "node", "k8s", "dom", "ctrl", "", "path-1", "disconnected", "true", "2024-01-01T00:00:00Z"⟩

def activeDevice : Device := ⟨"odev-2", "node", "k8s", "dom", "ctrl", "", "path-2", "connected", "", ""⟩

/-- One device to delete stays; of two, every device is listed twice. -/
theorem deleteOldOpflexDevices_exact_fails :
    let second : Device := { leftDevice with dn := "odev-3" }
    get (deleteOldOpflexDevices (fun _ => true) ⟨[("node", [leftDevice, activeDevice])], by simp⟩) "node" =
        some [leftDevice, activeDevice] ∧
      get (deleteOldOpflexDevices (fun _ => true) ⟨[("node", [leftDevice, second, activeDevice])], by simp⟩) "node" =
        some [leftDevice, second, activeDevice, leftDevice, second, activeDevice] ∧
      remaining (fun _ => true) [leftDevice, second, activeDevice] = some [activeDevice] := by
  decide

end AciContainers.OpflexExpiry
