import AciContainers.HostprotRules

/-!
# Services in the target port index

`serviceAdded`, `serviceUpdated` and `serviceDeleted` of `pkg/controller/services.go` keep in the
target port index the services that have a port. The index is shared with the network policies,
whose updates may come in between. An update with equal ports changes nothing, so the comparison
of the ports is left out.
-/
namespace AciContainers.TargetPorts

open Maps Runs Policy
open Hostprot (Service ServicePort)

/-- `IntValue`: a text that is not a number counts as zero. -/
def intValue : IntOrString → Int
  | .int n => n
  | .str s => Net.atoiIgnoringError s

variable (intValue : IntOrString → Int)

def servicePortNum (port : ServicePort) : Int :=
  if intValue port.targetPort ≤ 0 then port.port else intValue port.targetPort

def servicePortKey (port : ServicePort) : PortKey :=
  .num (portProto (some port.protocol)) (servicePortNum intValue port)

def getServiceTargetPorts (service : Service) : Map PortKey TargetPort :=
  service.ports.foldl
    (fun ports port => ports.put (servicePortKey intValue port) ⟨port.protocol, {servicePortNum intValue port}⟩)
    Map.empty

def serviceKeyOf (service : Service) : String := service.ns ++ "/" ++ service.name

structure ServiceState where
  services : Map String Service
  targetPortIndex : Map PortKey PortIndexEntry

/-- The events of services, and updates of the index for a policy. -/
inductive ServiceEvent where
  | serviceSet (service : Service)
  | serviceGone (key : String)
  | policyPorts (key : String) (oldPorts newPorts : Map PortKey TargetPort)

def ServiceEvent.ofService : ServiceEvent → Prop
  | .serviceSet _ | .serviceGone _ => True
  | .policyPorts _ _ _ => False

/-- The ports that a service of the store has. -/
def storedPorts (service : Option Service) : Map PortKey TargetPort :=
  service.elim Map.empty (getServiceTargetPorts intValue)

def serviceStep (s : ServiceState) : ServiceEvent → ServiceState
  | .serviceSet service =>
    let key := serviceKeyOf service
    ⟨s.services.put key service,
      updateTargetPortIndex true key (storedPorts intValue (s.services key)) (getServiceTargetPorts intValue service)
        s.targetPortIndex⟩
  | .serviceGone key =>
    ⟨s.services.erase key,
      updateTargetPortIndex true key (storedPorts intValue (s.services key)) Map.empty s.targetPortIndex⟩
  | .policyPorts key oldPorts newPorts =>
    { s with targetPortIndex := updateTargetPortIndex false key oldPorts newPorts s.targetPortIndex }

/-- The services, or the policies, that an entry lists. -/
def listedKeys (service : Bool) (x : Option PortIndexEntry) : Finset String := x.elim ∅ (PortIndexEntry.keys service)

def policyKeys : Option PortIndexEntry → Finset String := listedKeys false

def serviceKeys : Option PortIndexEntry → Finset String := listedKeys true

/-- An entry lists a policy and no service. -/
def Shaped (x : Option PortIndexEntry) : Prop :=
  ∀ entry, x = some entry → entry.serviceKeys = ∅ ∧ entry.networkPolicyKeys.Nonempty

/-- An entry lists a service or a policy. -/
def Used (x : Option PortIndexEntry) : Prop :=
  ∀ entry, x = some entry → entry.serviceKeys.Nonempty ∨ entry.networkPolicyKeys.Nonempty

variable {key : String} {oldPorts newPorts : Map PortKey TargetPort} {index : Map PortKey PortIndexEntry}

/-- An entry without keys is not kept, and nothing would be listed for it. -/
theorem listedKeys_dropKey (service kind : Bool) (x : Option PortIndexEntry) :
    listedKeys kind (dropKey service key x) = if kind = service then
      (listedKeys kind x).erase key else listedKeys kind x := by
  cases x with
  | none => simp [dropKey, listedKeys]
  | some entry =>
    by_cases h : (entry.setKeys service ((entry.keys service).erase key)).serviceKeys = ∅ ∧
        (entry.setKeys service ((entry.keys service).erase key)).networkPolicyKeys = ∅
    · simp only [dropKey, if_pos h]
      cases service <;> cases kind <;> simp_all [listedKeys, PortIndexEntry.setKeys, PortIndexEntry.keys]
    · simp only [dropKey, if_neg h]
      cases service <;> cases kind <;> simp [listedKeys, PortIndexEntry.setKeys, PortIndexEntry.keys]

theorem listedKeys_addKey (service kind : Bool) (port : TargetPort) (x : Option PortIndexEntry) :
    listedKeys kind (some (addKey service key port x)) =
      if kind = service then insert key (listedKeys kind x) else listedKeys kind x := by
  cases x <;> cases service <;> cases kind <;> simp [addKey, listedKeys, PortIndexEntry.setKeys, PortIndexEntry.keys]

theorem mem_listedKeys_update (service : Bool) (portkey : PortKey) (k : String) :
    k ∈ listedKeys service (updateTargetPortIndex service key oldPorts newPorts index portkey) ↔ if k = key then
        (newPorts portkey).isSome ∧ ¬ (oldPorts portkey).isSome ∨
          k ∈ listedKeys service (index portkey) ∧ ((newPorts portkey).isSome ∨ ¬ (oldPorts portkey).isSome)
      else k ∈ listedKeys service (index portkey) := by
  unfold updateTargetPortIndex
  cases ho : oldPorts portkey <;> cases hn : newPorts portkey <;> by_cases hk : k = key <;>
    simp [listedKeys_dropKey, listedKeys_addKey, hk]

/-- The keys of the other kind stay. -/
theorem listedKeys_update_other {service kind : Bool} (h : kind ≠ service) (portkey : PortKey) :
    listedKeys kind (updateTargetPortIndex service key oldPorts newPorts index portkey) = listedKeys kind
      (index portkey) := by
  unfold updateTargetPortIndex
  split
  · rw [listedKeys_dropKey, if_neg h]
  · rw [listedKeys_addKey, if_neg h]
  · rfl

theorem used_update (service : Bool) (h : ∀ portkey, Used (index portkey)) (portkey : PortKey) :
    Used (updateTargetPortIndex service key oldPorts newPorts index portkey) := by
  unfold updateTargetPortIndex
  split
  · intro entry he
    cases hindex : index portkey with
    | none => simp [hindex, dropKey] at he
    | some old =>
      simp only [hindex, dropKey, Option.ite_none_left_eq_some, Option.some.injEq] at he
      obtain ⟨hne, rfl⟩ := he
      simp only [Finset.nonempty_iff_ne_empty]
      exact not_and_or.mp hne
  · intro entry he
    obtain rfl := Option.some.inj he
    cases index portkey <;> cases service <;> simp [addKey, PortIndexEntry.setKeys, PortIndexEntry.keys]
  · exact h portkey

theorem getServiceTargetPorts_isSome (service : Service) (portkey : PortKey) :
    (getServiceTargetPorts intValue service portkey).isSome ↔
      ∃ port ∈ service.ports, servicePortKey intValue port = portkey := by
  have hfold : ∀ (ports : List ServicePort) (acc : Map PortKey TargetPort),
      (ports.foldl (fun ports port => ports.put (servicePortKey intValue port)
        ⟨port.protocol, {servicePortNum intValue port}⟩) acc portkey).isSome ↔
        (acc portkey).isSome ∨ ∃ port ∈ ports, servicePortKey intValue port = portkey := by
    intro ports
    induction ports with
    | nil => simp
    | cons port ports ih =>
      intro acc
      rw [List.foldl_cons, ih]
      by_cases hp : servicePortKey intValue port = portkey
      · simp [hp]
      · have hne : portkey ≠ servicePortKey intValue port := fun e => hp e.symm
        simp [put_other _ _ hne, hp]
  simpa [getServiceTargetPorts] using hfold service.ports Map.empty

/-- The service with the key is there and has a port with the key. -/
def Yields (s : ServiceState) (key : String) (portkey : PortKey) : Prop :=
  ∃ service, s.services key = some service ∧ ∃ port ∈ service.ports, servicePortKey intValue port = portkey

structure ServicesIndexed (s : ServiceState) : Prop where
  services : ∀ portkey key, key ∈ serviceKeys (s.targetPortIndex portkey) ↔ Yields intValue s key portkey
  used : ∀ portkey, Used (s.targetPortIndex portkey)

theorem storedPorts_isSome (s : ServiceState) (key : String) (portkey : PortKey) :
    (storedPorts intValue (s.services key) portkey).isSome ↔ Yields intValue s key portkey := by
  unfold storedPorts Yields
  cases s.services key with
  | none => simp
  | some service => simpa using getServiceTargetPorts_isSome intValue service portkey

variable {intValue}

/-- One service changes, from the ports that the store has to those that it will have. -/
theorem ServicesIndexed.update {s : ServiceState} (h : ServicesIndexed intValue s) (key : String)
    (service : Option Service) : ServicesIndexed intValue ⟨fun k => if k = key then service else s.services k,
      updateTargetPortIndex true key (storedPorts intValue (s.services key)) (storedPorts intValue service)
        s.targetPortIndex⟩ := by
  refine ⟨fun portkey k => ?_, used_update true h.used⟩
  rw [serviceKeys, mem_listedKeys_update, ← serviceKeys, h.services, storedPorts_isSome]
  by_cases hk : k = key
  · subst hk
    have hnew := storedPorts_isSome intValue
      ⟨fun i => if i = k then service else s.services i, updateTargetPortIndex true k
        (storedPorts intValue (s.services k))
        (storedPorts intValue service) s.targetPortIndex⟩ k portkey
    rw [if_pos rfl, ← hnew]
    by_cases hold : Yields intValue s k portkey <;> simp [hold]
  · simp [hk, Yields]

theorem ServicesIndexed.step {s : ServiceState} (h : ServicesIndexed intValue s) (e : ServiceEvent) :
    ServicesIndexed intValue (serviceStep intValue s e) := by
  cases e with
  | serviceSet service => exact h.update (serviceKeyOf service) (some service)
  | serviceGone key => exact h.update key none
  | policyPorts key oldPorts newPorts =>
    refine ⟨fun portkey k => ?_, used_update false h.used⟩
    have hsame : serviceKeys (updateTargetPortIndex false key oldPorts newPorts s.targetPortIndex portkey) =
        serviceKeys (s.targetPortIndex portkey) := listedKeys_update_other (by decide) portkey
    exact hsame ▸ h.services portkey k

/-- After any events the index lists the services that are there at the keys of their ports, has no
entry without a service or policy, and no event of a service changes the policies of an entry. -/
theorem serviceIndex_exact (intValue : IntOrString → Int) (index : Map PortKey PortIndexEntry)
    (hindex : ∀ portkey, Shaped (index portkey)) (events : List ServiceEvent) :
    ServicesIndexed intValue (run (serviceStep intValue) ⟨Map.empty, index⟩ events) ∧
      ∀ e : ServiceEvent, e.ofService → ∀ portkey,
        policyKeys ((serviceStep intValue (run (serviceStep intValue) ⟨Map.empty, index⟩ events) e).targetPortIndex
          portkey) = policyKeys ((run (serviceStep intValue) ⟨Map.empty, index⟩ events).targetPortIndex portkey) := by
  have hstart : ServicesIndexed intValue ⟨Map.empty, index⟩ := by
    refine ⟨fun portkey key => ?_, fun portkey entry he => .inr (hindex portkey entry he).2⟩
    have hnone : serviceKeys (index portkey) = ∅ := by
      cases he : index portkey with
      | none => rfl
      | some entry => exact (hindex portkey entry he).1
    simp [hnone, Yields]
  constructor
  · exact invariant_run (fun _ e h _ => h.step e) _ events hstart (along_of_forall _ _ fun _ _ => trivial)
  · intro e he portkey
    cases e with
    | serviceSet service => exact listedKeys_update_other (by decide) portkey
    | serviceGone key => exact listedKeys_update_other (by decide) portkey
    | policyPorts key oldPorts newPorts => exact he.elim

/-- An index that already lists a policy, a service that comes and goes, and one that stays. -/
theorem serviceIndex_exact_shared :
    let index : Map PortKey PortIndexEntry :=
      Map.put Map.empty (.num .tcp 80) ⟨⟨"TCP", {80}⟩, ∅, {"ns/np"}⟩
    let web : Service := ⟨"ns", "web", "10.0.0.1", [], [⟨"http", "TCP", 80, .str "http"⟩]⟩
    let dns : Service := ⟨"ns", "dns", "10.0.0.2", [], [⟨"dns", "UDP", 53, .str "5353"⟩]⟩
    ServicesIndexed TargetPorts.intValue (run (serviceStep TargetPorts.intValue) ⟨Map.empty, index⟩
      [.serviceSet web, .serviceSet dns, .serviceGone "ns/web"]) ∧
    servicePortKey TargetPorts.intValue ⟨"dns", "UDP", 53, .str "5353"⟩ = .num .udp 5353 :=
  ⟨(serviceIndex_exact TargetPorts.intValue _ (fun portkey entry he => by
    by_cases hp : portkey = .num .tcp 80
    · subst hp
      obtain rfl := Option.some.inj he
      simp
    · rw [put_other _ _ hp] at he
      cases he) _).1, by decide⟩

end AciContainers.TargetPorts
