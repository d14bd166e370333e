import AciContainers.HostPodsFresh

/-!
# Registration of endpoints

When `epChanged` keeps the registration of the endpoints of a pod.
-/
namespace AciContainers.Host

open Maps List

variable {old existing neweps : List OpflexEndpoint} {eps : Map String (List OpflexEndpoint)} {epUuid : String}

/-- The flag of the endpoint with a Uuid. -/
def flagOf (old : List OpflexEndpoint) (uuid : String) : Bool :=
  (old.find? fun ep => ep.uuid = uuid).elim false OpflexEndpoint.registered

def withFlags (old neweps : List OpflexEndpoint) : List OpflexEndpoint :=
  neweps.map fun ep => { ep with registered := flagOf old ep.uuid }

/-- No place is out of range, and each place has the flag of the endpoint with the Uuid of the new
endpoint there. -/
def Paired (old : List OpflexEndpoint) : List OpflexEndpoint → List OpflexEndpoint → Prop
  | [], neweps => ∀ ep ∈ neweps, flagOf old ep.uuid = false
  | _ :: _, [] => False
  | ep :: existing, newep :: neweps => ep.registered = flagOf old newep.uuid ∧ Paired old existing neweps

theorem keepRegistered_iff (hnew : ∀ ep ∈ neweps, ep.registered = false) :
    keepRegistered existing neweps = some (withFlags old neweps) ↔ Paired old existing neweps := by
  induction existing generalizing neweps with
  | nil =>
    rw [keepRegistered, Option.some_inj, eq_comm, withFlags, Paired]
    nth_rewrite 2 [← map_id neweps]
    rw [map_inj_left]
    refine forall₂_congr fun ep hep => ?_
    have hflag := hnew ep hep
    cases ep
    simp_all
  | cons ep existing ih =>
    cases neweps with
    | nil => simp [keepRegistered, Paired]
    | cons newep neweps =>
      rw [Paired, ← ih fun ep h => hnew ep (mem_cons_of_mem _ h)]
      simp [keepRegistered, withFlags, and_comm]

theorem replaceEndpoints_keeps_iff (hnew : ∀ ep ∈ neweps, ep.registered = false) :
    (∃ eps', replaceEndpoints eps epUuid neweps = some eps' ∧
        eps' epUuid = some (withFlags ((eps epUuid).getD []) neweps)) ↔
      (neweps = [] → eps epUuid = some []) ∧ Paired ((eps epUuid).getD []) ((eps epUuid).getD []) neweps := by
  have hnil : ∀ old, withFlags old neweps = [] ↔ neweps = [] := fun old => map_eq_nil_iff
  unfold replaceEndpoints putEndpoints
  rw [← keepRegistered_iff hnew]
  cases hold : eps epUuid with
  | none =>
    by_cases hempty : neweps = [] <;> simp [hempty, keepRegistered]
  | some existing =>
    simp only [Option.getD_some, Option.some_inj]
    cases keepRegistered existing neweps with
    | none => simp
    | some l =>
      by_cases hsame : existing = l
      · subst hsame
        simpa [hold] using fun h hempty => h.trans ((hnil _).mpr hempty)
      · by_cases hempty : l = []
        · subst hempty
          simpa [hsame] using fun h hflags => h ((hnil _).mp hflags)
        · simpa [hsame, hempty] using fun h hnew => absurd (h.trans ((hnil _).mpr hnew)) hempty

theorem registered_newEndpoints (order : RangeOrder String) (epmetadata : Containers) (epGroup : OpflexGroup)
    (epSecGroups : List OpflexGroup) (epAttributes : Labels.LabelSet) :
    ∀ ep ∈ newEndpoints order epUuid epmetadata epGroup epSecGroups epAttributes, ep.registered = false := by
  intro ep hep
  obtain ⟨contId, -, hep⟩ := mem_flatMap.mp hep
  cases hmeta : epmetadata.lookup contId with
  | none => simp [hmeta, containerEndpoints] at hep
  | some epmeta =>
    rw [hmeta] at hep
    obtain ⟨iface, -, rfl⟩ := mem_map.mp hep
    rfl

/-- `epChanged` is in range and keeps the registration by Uuid exactly when old and new endpoints
have the same places. -/
theorem epChanged_registered_iff (node : Node) (order : RangeOrder String)
    (eps : Map String (List OpflexEndpoint)) (epUuid epMetaKey : String) (epGroup : OpflexGroup)
    (epSecGroups : List OpflexGroup) (epAttributes : Labels.LabelSet) :
    (∃ eps', epChanged node order eps epUuid epMetaKey epGroup epSecGroups epAttributes = some eps' ∧
        ∀ md ∈ node.epMetadata epMetaKey, eps' epUuid = some (withFlags ((eps epUuid).getD [])
          (newEndpoints order epUuid md epGroup epSecGroups epAttributes))) ↔ ∀ md ∈ node.epMetadata epMetaKey,
        (newEndpoints order epUuid md epGroup epSecGroups epAttributes = [] → eps epUuid = some []) ∧
          Paired ((eps epUuid).getD []) ((eps epUuid).getD [])
            (newEndpoints order epUuid md epGroup epSecGroups epAttributes) := by
  unfold epChanged
  cases node.epMetadata epMetaKey with
  | none => simp
  | some md =>
    simp only [Option.mem_some_iff, forall_eq']
    exact replaceEndpoints_keeps_iff (registered_newEndpoints order md epGroup epSecGroups epAttributes)

/-- Two endpoints become one. -/
theorem epChanged_registered_fails :
    ¬ (epChanged shopNode .sorted (Map.empty.put "u1" [⟨"u1_c1_veth1", "", "", [], [], "", "", "", "", [], true⟩,
      ⟨"u1_c1_veth2", "", "", [], [], "", "", "", "", [], true⟩]) "u1" "shop/web" ⟨"", "", "", ""⟩ [] []).isSome := by
  decide +kernel

end AciContainers.Host
