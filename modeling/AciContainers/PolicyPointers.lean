import AciContainers.HostprotNames
import AciContainers.Outcomes

/-!
# Nil pointers in the handlers of network policies

Two helpers read the port of an egress rule without asking whether there is one. Adding and
deleting a policy always go through the first of them, which stops at the first port that is
given by name; a change does only for policies with an egress rule that has peers.
-/
namespace AciContainers.Hostprot

open Maps Policy TargetPorts List Option

/-- A port without number or name comes before all that are given by name. -/
def BarePort (ports : List Port) : Prop :=
  ∃ before p after, ports = before ++ p :: after ∧ p.port = none ∧ ∀ q ∈ before, ∃ n, q.port = some (.int n)

theorem namedPortLoop_eq_none_iff (ports : List Port) : namedPortLoop ports = none ↔ BarePort ports := by
  induction ports with
  | nil => simp [namedPortLoop, BarePort]
  | cons p ports ih =>
    rw [namedPortLoop]
    split
    · next hp => exact iff_of_true rfl ⟨[], p, ports, rfl, hp, by simp⟩
    · next name hp =>
      refine iff_of_false (by simp) ?_
      rintro ⟨before, q, after, heq, hq, hbefore⟩
      cases before with
      | nil =>
        rw [← (cons.inj heq).1, hp] at hq
        simp at hq
      | cons r before =>
        obtain ⟨n, hn⟩ := hbefore r mem_cons_self
        rw [← (cons.inj heq).1, hp] at hn
        simp at hn
    · next n hp =>
      rw [ih]
      constructor
      · rintro ⟨before, q, after, rfl, hq, hbefore⟩
        exact ⟨p :: before, q, after, rfl, hq, forall_mem_cons.mpr ⟨⟨n, hp⟩, hbefore⟩⟩
      · rintro ⟨before, q, after, heq, hq, hbefore⟩
        cases before with
        | nil =>
          rw [← (cons.inj heq).1, hp] at hq
          simp at hq
        | cons r before =>
          exact ⟨before, q, after, (cons.inj heq).2, hq, (forall_mem_cons.mp hbefore).2⟩

theorem isNamedPortPresenInNp_isSome_iff (np : NetworkPolicy) :
    (isNamedPortPresenInNp np).isSome ↔ ¬ BarePort (egressPorts np) := by
  rw [← namedPortLoop_eq_none_iff, ← ne_none_iff_isSome]
  rfl

/-- A loop that can go wrong at each element goes through if none does. -/
theorem foldlM_isSome {α β : Type} {f : β → α → Option β} {l : List α} (h : ∀ b, ∀ a ∈ l, (f b a).isSome) (b : β) :
    (l.foldlM f b).isSome := by
  induction l generalizing b with
  | nil => rfl
  | cons a l ih =>
    obtain ⟨b', hb'⟩ := isSome_iff_exists.mp (h b a mem_cons_self)
    rw [foldlM_cons, hb']
    exact ih (fun b a ha => h b a (mem_cons_of_mem _ ha)) b'

theorem getNetPolTargetPorts_isSome_iff (s : State) (np : NetworkPolicy) :
    (getNetPolTargetPorts s np).isSome ↔ (∀ rule ∈ np.egress, rule.peers = []) ∨ ¬ BarePort (egressPorts np) := by
  rw [← isNamedPortPresenInNp_isSome_iff, getNetPolTargetPorts]
  cases hnamed : isNamedPortPresenInNp np with
  | some named =>
    refine iff_of_true (foldlM_isSome (fun ports rule _ => ?_) _) (.inr rfl)
    rw [ruleTargetPorts, hnamed]
    split <;> rfl
  | none =>
    generalize np.egress = rules
    generalize Map.empty = ports
    induction rules generalizing ports with
    | nil => simp
    | cons rule rules ih =>
      rw [foldlM_cons, ruleTargetPorts, hnamed, forall_mem_cons]
      by_cases hpeers : rule.peers = []
      · simpa [hpeers] using ih _
      · simp [hpeers]

/-- The API fills in the protocol of every port. -/
def Defaulted (np : NetworkPolicy) : Prop := ∀ rule ∈ np.egress, ∀ p ∈ rule.ports, p.protocol.isSome

/-- And the name of every port of a slice. -/
def Backends.Defaulted : Backends → Prop
  | .endpoints _ => True
  | .slices all => ∀ slice ∈ all, ∀ p ∈ slice.ports, p.name.isSome

def PortRemoteSubnet.Defaulted (prs : PortRemoteSubnet) : Prop := ∀ p ∈ prs.port, p.protocol.isSome

def AllDefaulted (prss : List (Option PortKey × PortRemoteSubnet)) : Prop := ∀ prs ∈ prss, prs.2.Defaulted

/-- The ports are those of the rules. -/
theorem refs_updatePortRemoteSubnets {prss : PortRefs} {refs : List PortRef} (h : ∀ r ∈ prss.refs, r ∈ refs)
    {ref : PortRef} (href : ref ∈ refs) : ∀ r ∈ (updatePortRemoteSubnets prss ref).refs, r ∈ refs := by
  unfold updatePortRemoteSubnets
  split
  · exact h
  · intro r hr
    rcases mem_append.mp hr with hr | hr
    · exact h r hr
    · rw [mem_singleton.mp hr]
      exact href

variable (c : Controller) (remotes : Rule → List String × Finset String)

theorem defaulted_portRemoteSubs {np : NetworkPolicy} (h : Defaulted np) :
    AllDefaulted (portRemoteSubs remotes np.egress) := by
  have hrefs : ∀ r ∈ (collectPorts remotes np.egress).refs,
      r ∈ np.egress.zipIdx.flatMap fun ri => ruleRefs ri.1 ri.2 := by
    refine @Outcomes.foldl_invariant _ _ (fun prss : PortRefs => ∀ r ∈ prss.refs, r ∈ _) _ _ _
      (fun r hr => absurd hr not_mem_nil) fun prss ref href hprss => ?_
    exact refs_updatePortRemoteSubnets hprss href
  intro prs hprs p hp
  obtain ⟨r, hr, rfl⟩ := mem_map.mp hprs
  obtain ⟨ri, hri, hmem⟩ := mem_flatMap.mp (hrefs r hr)
  have hrule : ri.1 ∈ np.egress := by
    have hget := mem_zipIdx_iff_getElem?.mp hri
    exact mem_of_getElem? hget
  unfold ruleRefs at hmem
  split at hmem
  · rw [mem_singleton.mp hmem] at hp
    cases hp
  · obtain ⟨port, hport, rfl⟩ := mem_map.mp hmem
    obtain rfl := some.inj hp
    exact h ri.1 hrule port hport

variable {c}

theorem matchesPort_isSome {prs : PortRemoteSubnet} (h : prs.Defaulted) (svcPort : ServicePort) :
    (c.matchesPort prs svcPort).isSome := by
  rw [Controller.matchesPort]
  split
  · rfl
  · next p hp => rw [isSome_map, h p hp]

theorem findSlicePort_isSome (service : Service) (svcPort : ServicePort) {ports : List SlicePort}
    (h : ∀ p ∈ ports, p.name.isSome) : (findSlicePort service svcPort ports).isSome := by
  induction ports with
  | nil => rfl
  | cons p ports ih =>
    obtain ⟨hp, hports⟩ := forall_mem_cons.mp h
    obtain ⟨name, hname⟩ := isSome_iff_exists.mp hp
    rw [findSlicePort, hname, bind_some]
    split
    · rfl
    · exact ih hports

variable {prs : PortRemoteSubnet}

theorem augmentSlice_isSome (service : Service) (h : prs.Defaulted) (subnetIndex : List Net.IPNet)
    {slice : Slice} (hslice : ∀ p ∈ slice.ports, p.name.isSome) (svcPorts : List ServicePort) (augments : Augments) :
    (c.augmentSlice service prs subnetIndex slice svcPorts augments).isSome := by
  induction svcPorts generalizing augments with
  | nil => rfl
  | cons svcPort svcPorts ih =>
    obtain ⟨found, hfound⟩ := isSome_iff_exists.mp (@matchesPort_isSome c prs h svcPort)
    obtain ⟨foundEpPort, hep⟩ := isSome_iff_exists.mp (findSlicePort_isSome service svcPort hslice)
    rw [Controller.augmentSlice, hfound, bind_some, hep, bind_some]
    split
    · split
      · rfl
      · exact ih _
    · exact ih _

theorem setNpServiceAugmentForService_isSome (hbackends : c.backends.Defaulted)
    (servicekey : String) (service : Service) (h : prs.Defaulted) (subnetIndex : List Net.IPNet)
    (augments : Augments) : (c.setNpServiceAugmentForService servicekey service prs subnetIndex augments).isSome := by
  rw [Controller.setNpServiceAugmentForService]
  split
  · split
    · rfl
    · refine foldlM_isSome (fun augments svcPort _ => ?_) _
      rw [isSome_map, matchesPort_isSome h]
  · next all hall =>
    rw [hall] at hbackends
    exact foldlM_isSome (fun augments slice hslice =>
      augmentSlice_isSome service h subnetIndex (hbackends slice (mem_filter.mp hslice).1) _ _) _

theorem getServiceAugmentBySubnet_isSome (hbackends : c.backends.Defaulted) (h : prs.Defaulted)
    (augments : Augments) : (c.getServiceAugmentBySubnet prs augments).isSome := by
  refine foldlM_isSome (fun augments servicekey _ => ?_) _
  split
  · rfl
  · exact setNpServiceAugmentForService_isSome hbackends _ _ h _ _

theorem getServiceAugmentByPort_isSome (h : prs.Defaulted) (augments : Augments) :
    (c.getServiceAugmentByPort prs augments).isSome := by
  rw [Controller.getServiceAugmentByPort]
  split
  · rfl
  · next p hp =>
    split
    · rfl
    · refine foldlM_isSome (fun augments ke _ => foldlM_isSome (fun augments servicekey _ => ?_) _) _
      split
      · rfl
      · refine foldlM_isSome (fun augments svcPort _ => ?_) _
        rw [isSome_map, h p hp]

theorem subject_isSome (hbackends : c.backends.Defaulted) {np : NetworkPolicy} (h : Defaulted np) (polDn : String)
    (direction : NetPol.Direction) : (c.subject remotes polDn np direction).isSome := by
  cases direction with
  | ingress => rfl
  | egress =>
    rw [Controller.subject, isSome_map, Controller.buildServiceAugment, isSome_map]
    refine foldlM_isSome (fun augments prs hprs => ?_) _
    have hprs' := defaulted_portRemoteSubs remotes h prs hprs
    split
    · exact getServiceAugmentByPort_isSome hprs' _
    · exact getServiceAugmentBySubnet_isSome hbackends hprs' _

theorem mapM_isSome {α β : Type} {f : α → Option β} {l : List α} (h : ∀ a ∈ l, (f a).isSome) : (l.mapM f).isSome := by
  induction l with
  | nil => simp
  | cons a l ih =>
    obtain ⟨ha, hl⟩ := forall_mem_cons.mp h
    obtain ⟨b, hb⟩ := isSome_iff_exists.mp ha
    obtain ⟨bs, hbs⟩ := isSome_iff_exists.mp (ih hl)
    simp [mapM_cons, hb, hbs]

/-- Which handlers of a policy meet a nil pointer: adding and deleting it if it has a port
without number or name before all that are given by name, a change if the old or the new policy
is like that and has an egress rule with peers, and the update never. -/
theorem policy_handlers_pointers_iff (namespaces : List Index.Namespace) (s : State) (oldnp np : NetworkPolicy)
    (hnp : Defaulted np) (c : Controller) (hbackends : c.backends.Defaulted)
    (remotes : Rule → List String × Finset String) (polDn : String) :
    ((networkPolicyAdded namespaces s np).isSome ↔ ¬ BarePort (egressPorts np)) ∧
    ((networkPolicyChanged namespaces s oldnp np).isSome ↔ ∀ x ∈ [oldnp, np],
      (∀ rule ∈ x.egress, rule.peers = []) ∨ ¬ BarePort (egressPorts x)) ∧
    ((networkPolicyDeleted s np).isSome ↔ ¬ BarePort (egressPorts np)) ∧
    (c.handleNetPolUpdate remotes polDn np).isSome := by
  have hboth : ∀ (s : State) (f : Map PortKey TargetPort → Bool → State),
      (((getNetPolTargetPorts s np).bind fun ports => (isNamedPortPresenInNp np).bind fun named =>
        some (f ports named)).isSome ↔ ¬ BarePort (egressPorts np)) := by
    intro s f
    rw [← isNamedPortPresenInNp_isSome_iff]
    cases hports : getNetPolTargetPorts s np with
    | some ports => cases isNamedPortPresenInNp np <;> simp
    | none =>
      have hnone := mt (getNetPolTargetPorts_isSome_iff s np).mpr (by simp [hports])
      rw [not_or, ← isNamedPortPresenInNp_isSome_iff] at hnone
      simp [hnone.2]
  refine ⟨hboth _ _, ?_, hboth _ _, ?_⟩
  · simp only [forall_mem_cons, not_mem_nil, false_implies, implies_true, and_true,
      ← getNetPolTargetPorts_isSome_iff s]
    rw [networkPolicyChanged]
    cases getNetPolTargetPorts s oldnp <;> cases getNetPolTargetPorts s np <;> simp
  · exact mapM_isSome fun direction _ => by rw [isSome_map]; exact subject_isSome remotes hbackends hnp _ _

/-- A policy that lets its pods connect anywhere on the ports. -/
def egressPolicy (ports : List Port) : NetworkPolicy :=
  { webPolicy [] with ingress := [], egress := [⟨[], ports⟩], policyTypes := [.egress] }

theorem policy_handlers_pointers_https : (networkPolicyAdded [] State.start (egressPolicy [httpsPort])).isSome ∧
    (networkPolicyDeleted State.start (egressPolicy [httpsPort])).isSome ∧
    (webController.handleNetPolUpdate (fun _ => ([], ∅)) "uni/tn-t/pol-p" (egressPolicy [httpsPort])).isSome := by
  have hmain := policy_handlers_pointers_iff [] State.start (egressPolicy []) (egressPolicy [httpsPort])
    (by simp [Defaulted, egressPolicy, httpsPort]) webController (fun slice hslice => absurd hslice not_mem_nil)
    (fun _ => ([], ∅)) "uni/tn-t/pol-p"
  have hports : ¬ BarePort (egressPorts (egressPolicy [httpsPort])) := by
    rw [← namedPortLoop_eq_none_iff]
    decide
  exact ⟨hmain.1.mpr hports, hmain.2.2.1.mpr hports, hmain.2.2.2⟩

/-- Adding a policy for all TCP ports. -/
theorem policy_handlers_pointers_fails : Defaulted (egressPolicy [⟨some "TCP", none⟩]) ∧
    networkPolicyAdded [] State.start (egressPolicy [⟨some "TCP", none⟩]) = none := by
  refine ⟨by simp [Defaulted, egressPolicy], rfl⟩

end AciContainers.Hostprot
