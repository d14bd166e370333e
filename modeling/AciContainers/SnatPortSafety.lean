import AciContainers.Runs
import AciContainers.SnatIps

/-!
# Exclusive SNAT ports

On every SNAT address two nodes hold port ranges without a common port, as long as all
allocations were made under one cut of the ports: a free range is found by its start only,
and ranges of different cuts can overlap with different starts. The clearing before a new cut
ends early, at the first address of a policy that has no entries.
-/
namespace AciContainers.Snat

open Maps Runs List Option Finmap

variable {ports old : List PortRange} {σ τ : State} {nodename ip name x : String} {nodeinfo : NodeInfo}
  {policy : ContSnatPolicy} {acc : Allocating} {config : PortRange × Int} {front order : List String}

/-- The node holds this on the address. -/
def Entry (σ : State) (ip node : String) (info : GlobalInfo) : Prop :=
  ∃ glinfos, σ.snatGlobalInfoCache ip = some glinfos ∧ glinfos.lookup node = some info

def PortsExclusive (σ : State) : Prop :=
  ∀ ip n m a b, Entry σ ip n a → Entry σ ip m b → n ≠ m →
    ∀ port, ¬ (a.portRange.Contains port ∧ b.portRange.Contains port)

/-- All allocations are ranges of one cut, different ones for different nodes of an
address. -/
structure Allocated (ports : List PortRange) (σ : State) : Prop where
  apart : Apart ports
  policies : ∀ name policy, σ.snatPolicyCache.lookup name = some policy →
    policy.expandedSnatPorts = ports
  ranges : ∀ ip n a, Entry σ ip n a → a.portRange ∈ ports ∧ a.snatIp = ip
  starts : ∀ ip n m a b, Entry σ ip n a → Entry σ ip m b → n ≠ m →
    a.portRange.start ≠ b.portRange.start

theorem Allocated.exclusive (h : Allocated ports σ) : PortsExclusive σ := by
  intro ip n m a b ha hb hne
  exact h.apart _ (h.ranges ip n a ha).1 _ (h.ranges ip m b hb).1 (h.starts ip n m a b ha hb hne)

theorem allocated_start : Allocated [] start where
  apart := by
    intro r hr
    exact absurd hr not_mem_nil
  policies := by
    intro name policy h
    exact absurd h (by simp [start])
  ranges := by
    intro ip n a h
    obtain ⟨g, hg, -⟩ := h
    exact absurd hg (by simp [start])
  starts := by
    intro ip n m a b h
    obtain ⟨g, hg, -⟩ := h
    exact absurd hg (by simp [start])

/-- The second state has the policies of the first and no other allocations. -/
structure Shrinks (σ τ : State) : Prop where
  policies : τ.snatPolicyCache = σ.snatPolicyCache
  entries : ∀ ip n a, Entry τ ip n a → Entry σ ip n a

theorem Shrinks.refl (σ : State) : Shrinks σ σ := ⟨rfl, fun _ _ _ h => h⟩

theorem Shrinks.trans {υ : State} (h : Shrinks σ τ) (h' : Shrinks τ υ) : Shrinks σ υ :=
  ⟨h'.policies.trans h.policies, fun ip n a he => h.entries ip n a (h'.entries ip n a he)⟩

theorem Shrinks.of_eq (hp : τ.snatPolicyCache = σ.snatPolicyCache)
    (hg : τ.snatGlobalInfoCache = σ.snatGlobalInfoCache) : Shrinks σ τ := by
  refine ⟨hp, ?_⟩
  intro ip n a h
  unfold Entry at h
  rwa [hg] at h

theorem Allocated.shrink (h : Allocated ports σ) (hs : Shrinks σ τ) : Allocated ports τ where
  apart := h.apart
  policies := by
    rw [hs.policies]
    exact h.policies
  ranges ip n a ha := h.ranges ip n a (hs.entries ip n a ha)
  starts ip n m a b ha hb := h.starts ip n m a b (hs.entries ip n a ha) (hs.entries ip m b hb)

variable (fails : String → Bool)

theorem shrinks_setSnatPolicyStatus (σ : State) (name : String) (status : PolicyState) :
    Shrinks σ (σ.setSnatPolicyStatus fails name status).1 := by
  unfold State.setSnatPolicyStatus
  split
  · exact Shrinks.refl σ
  · split
    · exact Shrinks.refl σ
    · exact Shrinks.of_eq rfl rfl

theorem shrinks_setSnatPoliciesState (names : List String) (status : PolicyState) (σ : State) :
    Shrinks σ (σ.setSnatPoliciesState fails names status).1 := by
  have hloop : ∀ acc : State × Bool,
      Shrinks acc.1 (names.foldl (setStatusTurn fails status) acc).1 := by
    induction names with
    | nil => exact fun acc => Shrinks.refl acc.1
    | cons name names ih =>
      intro acc
      exact (shrinks_setSnatPolicyStatus fails acc.1 name status).trans
        (ih (setStatusTurn fails status acc name))
  exact hloop (σ, false)

theorem shrinks_readyAgain (σ : State) (name : String) : Shrinks σ (σ.readyAgain fails name).1 := by
  unfold State.readyAgain
  split
  · exact shrinks_setSnatPolicyStatus fails σ name .ready
  · exact Shrinks.refl σ

theorem readyAgain_cache (σ : State) (name : String) :
    (σ.readyAgain fails name).1.snatGlobalInfoCache = σ.snatGlobalInfoCache := by
  unfold State.readyAgain
  split
  · unfold State.setSnatPolicyStatus
    split
    · rfl
    · split <;> rfl
  · rfl

theorem shrinks_removeEntry {snatip : String} {glinfos : GlobalInfos}
    (h : σ.snatGlobalInfoCache snatip = some glinfos) : Shrinks σ (σ.removeEntry snatip nodename glinfos) := by
  refine ⟨rfl, ?_⟩
  intro ip n a he
  obtain ⟨g, hg, hl⟩ := he
  simp only [State.removeEntry] at hg
  by_cases hip : ip = snatip
  · rw [if_pos hip] at hg
    simp only [dropNode] at hg
    split at hg
    · simp at hg
    · rw [← some.inj hg] at hl
      have hn : n ≠ nodename := by
        intro he
        rw [he, lookup_erase] at hl
        simp at hl
      rw [lookup_erase_ne hn] at hl
      exact ⟨glinfos, hip ▸ h, hl⟩
  · rw [if_neg hip] at hg
    exact ⟨g, hg, hl⟩

theorem shrinks_eraseIp (σ : State) (snatip : String) :
    Shrinks σ { σ with snatGlobalInfoCache := σ.snatGlobalInfoCache.erase snatip } := by
  refine ⟨rfl, ?_⟩
  intro ip n a he
  obtain ⟨g, hg, hl⟩ := he
  by_cases hip : ip = snatip
  · simp [hip] at hg
  · exact ⟨g, (erase_other _ hip).symm.trans hg, hl⟩

theorem shrinks_clearIps (nodename : String) (snatips : List String) (σ : State) :
    Shrinks σ (σ.clearIps nodename snatips) := by
  induction snatips generalizing σ with
  | nil => exact Shrinks.refl σ
  | cons snatip snatips ih =>
    rw [State.clearIps]
    split
    · exact Shrinks.refl σ
    · rename_i v hv
      split
      · split
        · exact shrinks_removeEntry hv
        · exact ih σ
      · exact (shrinks_eraseIp σ snatip).trans (ih _)

theorem shrinks_clearSnatGlobalCache (σ : State) (policyName nodename : String) :
    Shrinks σ (σ.clearSnatGlobalCache policyName nodename) := by
  unfold State.clearSnatGlobalCache
  split
  · exact Shrinks.refl σ
  · split
    · exact shrinks_clearIps _ _ σ
    · exact shrinks_clearIps _ _ σ

theorem shrinks_deleteNode (nodename : String) (snatips : List String) (σ : State) :
    Shrinks σ (σ.deleteNode fails nodename snatips).1 := by
  induction snatips generalizing σ with
  | nil => exact Shrinks.refl σ
  | cons snatip snatips ih =>
    rw [State.deleteNode]
    split
    · exact ih σ
    rename_i glinfos hg
    split
    · exact ih σ
    rename_i v hv
    have hready := shrinks_readyAgain fails σ v.snatPolicyName
    have hcache := readyAgain_cache fails σ v.snatPolicyName
    simp only
    split
    · exact hready
    · apply hready.trans
      apply Shrinks.trans _ (ih _)
      apply shrinks_removeEntry
      rw [hcache, hg]

theorem shrinks_markReady (names : List String) (σ : State) : Shrinks σ (σ.markReady fails names).1 := by
  induction names generalizing σ with
  | nil => exact Shrinks.refl σ
  | cons name names ih =>
    rw [State.markReady]
    split
    · exact shrinks_readyAgain fails σ name
    · exact (shrinks_readyAgain fails σ name).trans (ih _)

theorem shrinks_deleteNodeinfoFromGlInfoCache (order names : List String) (nodename : String)
    (σ : State) : Shrinks σ (σ.deleteNodeinfoFromGlInfoCache fails order names nodename).1 := by
  have hdel := shrinks_deleteNode fails nodename order σ
  unfold State.deleteNodeinfoFromGlInfoCache
  simp only
  split
  · exact hdel
  · exact hdel.trans (shrinks_markReady _ _ _)

theorem shrinks_updateSnatIpandPorts (oldNames newNames : List String) (nodename : String) (σ : State) :
    Shrinks σ (σ.updateSnatIpandPorts fails oldNames newNames nodename) := by
  unfold State.updateSnatIpandPorts
  induction oldNames.filter (· ∉ newNames) generalizing σ with
  | nil => exact Shrinks.refl σ
  | cons oldkey names ih =>
    exact ((shrinks_clearSnatGlobalCache _ _ _).trans (shrinks_readyAgain _ _ _)).trans (ih _)

theorem mem_seen {globalInfo : GlobalInfos} {node : String} {info : GlobalInfo}
    (h : globalInfo.lookup node = some info) : info.portRange.start ∈ seen globalInfo := by
  simp only [seen, Finset.mem_biUnion, Finmap.mem_keys, Finmap.mem_iff]
  exact ⟨node, ⟨info, h⟩, by simp [h]⟩

/-- An allocated range belongs to the cut, and no other node of the address has its
start. -/
theorem allocateIpSnatPortRange_spec (hranges : ∀ ip n a, Entry σ ip n a → a.portRange ∈ ports ∧ a.snatIp = ip)
    (hstarts : ∀ ip n m a b, Entry σ ip n a → Entry σ ip m b → n ≠ m → a.portRange.start ≠ b.portRange.start)
    {snatIps : List String} {r : PortRange} (ha : σ.allocateIpSnatPortRange nodename ports snatIps = some (ip, r)) :
    r ∈ ports ∧ ip ∈ snatIps ∧ ∀ m b, Entry σ ip m b → m ≠ nodename → b.portRange.start ≠ r.start := by
  induction snatIps with
  | nil => exact absurd ha (by simp [State.allocateIpSnatPortRange])
  | cons snatip snatIps ih =>
    unfold State.allocateIpSnatPortRange at ha
    cases ports with
    | nil => simp at ha
    | cons first rest =>
      simp only at ha
      split at ha
      · rename_i hnone
        obtain ⟨rfl, rfl⟩ := Prod.mk.inj (some.inj ha)
        refine ⟨mem_cons_self, mem_cons_self, ?_⟩
        intro m b hb
        obtain ⟨g, hg, -⟩ := hb
        rw [hnone] at hg
        simp at hg
      rename_i globalInfo hsome
      have hlater : σ.allocateIpSnatPortRange nodename (first :: rest) snatIps = some (ip, r) →
          r ∈ first :: rest ∧ ip ∈ snatip :: snatIps ∧
            ∀ m b, Entry σ ip m b → m ≠ nodename → b.portRange.start ≠ r.start := by
        intro ha
        obtain ⟨hr, hip, hfree⟩ := ih ha
        exact ⟨hr, mem_cons_of_mem _ hip, hfree⟩
      split at ha
      · split at ha
        · rename_i glinfo hl
          have hentry : Entry σ snatip nodename glinfo := ⟨globalInfo, hsome, hl⟩
          obtain ⟨hmem, hip⟩ := hranges _ _ _ hentry
          obtain ⟨hip', rfl⟩ := Prod.mk.inj (some.inj ha)
          rw [← hip', hip]
          refine ⟨hmem, mem_cons_self, ?_⟩
          intro m b hb hm
          exact hstarts _ _ _ _ _ hb hentry hm
        · split at ha
          · rename_i val hfind
            obtain ⟨rfl, rfl⟩ := Prod.mk.inj (some.inj ha)
            refine ⟨mem_of_find?_eq_some hfind, mem_cons_self, ?_⟩
            intro m b hb _ he
            obtain ⟨g, hg, hl⟩ := hb
            rw [hsome] at hg
            rw [← some.inj hg] at hl
            have hfree : val.start ∉ seen globalInfo := by simpa using find?_some hfind
            exact hfree (he ▸ mem_seen hl)
          · exact hlater ha
      · exact hlater ha

theorem entry_updateGlobalInfoforPolicy (σ : State) (r : PortRange) (ip node mac name : String)
    (ip' n : String) (a : GlobalInfo) : Entry (σ.updateGlobalInfoforPolicy r ip node mac name) ip' n a ↔
      if ip' = ip ∧ n = node then a = ⟨mac, r, ip, name⟩ else Entry σ ip' n a := by
  unfold Entry State.updateGlobalInfoforPolicy
  by_cases hip : ip' = ip
  · subst hip
    simp only [put_same, some.injEq, exists_eq_left']
    by_cases hn : n = node
    · subst hn
      simp [eq_comm]
    · rw [lookup_insert_of_ne _ hn]
      simp only [hn, and_false, if_false]
      cases σ.snatGlobalInfoCache ip' with
      | none => simp
      | some g => simp
  · simp [put_other _ _ hip, hip]

theorem Allocated.update {ports : List PortRange} {σ : State} (h : Allocated ports σ) {r : PortRange}
    {ip node : String} (hr : r ∈ ports)
    (hfree : ∀ m b, Entry σ ip m b → m ≠ node → b.portRange.start ≠ r.start) (mac name : String) :
    Allocated ports (σ.updateGlobalInfoforPolicy r ip node mac name) where
  apart := h.apart
  policies := h.policies
  ranges := by
    intro ip' n a ha
    rw [entry_updateGlobalInfoforPolicy] at ha
    split at ha
    · rename_i hc
      rw [ha]
      exact ⟨hr, hc.1.symm⟩
    · exact h.ranges ip' n a ha
  starts := by
    intro ip' n m a b ha hb hne
    rw [entry_updateGlobalInfoforPolicy] at ha hb
    split at ha
    · rename_i hc
      have hm : ¬ (ip' = ip ∧ m = node) := fun hc' => hne (hc.2.trans hc'.2.symm)
      rw [if_neg hm, hc.1] at hb
      rw [ha]
      exact (hfree m b hb fun e => hm ⟨hc.1, e⟩).symm
    · rename_i hc
      split at hb
      · rename_i hc'
        rw [hb]
        rw [hc'.1] at ha
        exact hfree n a ha fun e => hc ⟨hc'.1, e⟩
      · exact h.starts ip' n m a b ha hb hne

theorem allocated_allocate (h : Allocated ports acc.state) (hp : policy.expandedSnatPorts = ports)
    (serviceIp : String) : Allocated ports (acc.allocate nodeinfo name policy serviceIp).state := by
  unfold Allocating.allocate
  split
  · exact h
  · rename_i snatIp portrange ha
    have hspec : portrange ∈ ports ∧ ∀ m b, Entry acc.state snatIp m b → m ≠ nodeinfo.name →
        b.portRange.start ≠ portrange.start := by
      have hfound : ∃ snatIps, acc.state.allocateIpSnatPortRange nodeinfo.name ports snatIps = some
        (snatIp, portrange) := by
        unfold State.getIpAndPortRange at ha
        rw [hp] at ha
        split at ha
        · exact ⟨_, ha⟩
        · exact ⟨_, ha⟩
      obtain ⟨snatIps, ha⟩ := hfound
      obtain ⟨hr, -, hfree⟩ := allocateIpSnatPortRange_spec h.ranges h.starts ha
      exact ⟨hr, hfree⟩
    exact h.update hspec.1 hspec.2 _ _

theorem allocated_foldl_allocate (hp : policy.expandedSnatPorts = ports) (ips : List String)
    (h : Allocated ports acc.state) :
    Allocated ports (ips.foldl (Allocating.allocate nodeinfo name policy) acc).state := by
  induction ips generalizing acc with
  | nil => exact h
  | cons ip ips ih => exact ih (allocated_allocate h hp ip)

theorem allocated_policy (h : Allocated ports acc.state) (name : String) :
    Allocated ports (acc.policy nodeinfo name).state := by
  unfold Allocating.policy
  split
  · exact h
  rename_i policy hl
  have hp := h.policies name policy hl
  split
  · split
    · exact h
    · exact allocated_allocate h hp _
  · simp only
    split
    · exact h
    · exact allocated_foldl_allocate hp _ h

theorem allocated_handleSnatNodeInfo (h : Allocated ports σ) (fails : String → Bool)
    (order : List String) (nodeinfo : NodeInfo) : Allocated ports (σ.handleSnatNodeInfo fails order nodeinfo).1 := by
  unfold State.handleSnatNodeInfo
  split
  · exact h.shrink (shrinks_deleteNodeinfoFromGlInfoCache _ _ _ _ σ)
  · have hloop : ∀ (names : List String) (acc : Allocating), Allocated ports acc.state →
        Allocated ports (names.foldl (Allocating.policy nodeinfo) acc).state := by
      intro names
      induction names with
      | nil => exact fun acc hacc => hacc
      | cons name names ih => exact fun acc hacc => ih _ (allocated_policy hacc name)
    have hacc := hloop nodeinfo.snatPolicyNames ⟨σ, [], []⟩ h
    exact (hacc.shrink (shrinks_setSnatPoliciesState _ _ _ _)).shrink
      (shrinks_setSnatPoliciesState _ _ _ _)

/-- Every allocation of the state is one of these ranges. -/
def AllOf (ports : List PortRange) (σ : State) : Prop :=
  ∀ ip n a, Entry σ ip n a → a.portRange ∈ ports

/-- The addresses that the clearing of a policy goes through. -/
def State.addresses (σ : State) (policy : ContSnatPolicy) : List String :=
  if policy.snatIp ≠ [] then policy.expandedSnatIps else σ.getServiceIps policy

/-- The clearing gets to an address: of those in front of it, none is without allocations and
none comes twice. -/
def Reached (σ : State) (policy : ContSnatPolicy) (front : List String) (ip : String) : Prop :=
  (front ++ [ip]).IsPrefix (σ.addresses policy) ∧ front.Nodup ∧
    ∀ x ∈ front, (σ.snatGlobalInfoCache x).isSome

/-- A change of the ports settles when the clearing gets to every allocation that is not a
range of the new cut, and when a policy reads the configuration that the other cached
policies have. -/
def Settles (σ : State) : Event → Prop
  | .handleSnatUpdate name _ _ configMap =>
    ∀ spec, σ.snatIndexer name = some ⟨spec, .ready⟩ →
      ∀ ports, configuredPorts (getPortRangeFromConfigMap configMap) = some ports →
        (∀ ip n a, Entry σ ip n a → a.portRange ∉ ports →
          ∃ old front, σ.snatPolicyCache.lookup name = some old ∧ spec.snatIp ≠ old.snatIp ∧
            Reached σ old front ip) ∧
        ∀ other policy, other ≠ name → σ.snatPolicyCache.lookup other = some policy →
          policy.expandedSnatPorts = ports
  | .snatCfgUpdate oldData newData _ =>
    oldData ≠ newData → σ.snatPolicyCache ≠ ∅ →
      ∀ config ports, acceptedConfig newData = some config → configuredPorts config = some ports →
        ∀ ip n a, Entry σ ip n a → a.portRange ∉ ports →
          ∃ name policy front, σ.snatPolicyCache.lookup name = some policy ∧
            Reached σ policy front ip ∧
            ∀ x ∈ front, ∀ other item, other ≠ name → σ.snatPolicyCache.lookup other = some item →
              x ∉ σ.addresses item
  | _ => True

/-- The loop over the policy cache takes every policy. -/
def Listed (σ : State) : Event → Prop
  | .snatCfgUpdate _ _ order => ∀ name ∈ σ.snatPolicyCache.keys, name ∈ order
  | _ => True

instance (σ : State) (e : Event) : Decidable (Listed σ e) :=
  match e with
  | .snatCfgUpdate _ _ order => inferInstanceAs (Decidable (∀ name ∈ σ.snatPolicyCache.keys, name ∈ order))
  | .policyStored _ _ | .handleSnatUpdate _ _ _ _ | .snatPolicyDelete _ | .servicesStored _
  | .snatNodeInfoAdded _ | .snatNodeInfoUpdated _ _ _ | .snatNodeInfoDeleted _ _ _
  | .handleSnatNodeInfo _ _ _ => .isTrue trivial

theorem allocated_stop (h : Allocated ports σ) :
    Allocated ports σ.stop := h.shrink (Shrinks.of_eq rfl rfl)

/-- A new cut under which all that remains falls. -/
theorem Allocated.recut (h : Allocated old σ) (hsub : ∀ ip n a, Entry τ ip n a → Entry σ ip n a)
    (hapart : Apart ports) (hpol : ∀ name policy, τ.snatPolicyCache.lookup name = some policy →
      policy.expandedSnatPorts = ports) (hall : AllOf ports τ) : Allocated ports τ where
  apart := hapart
  policies := hpol
  ranges ip n a ha := ⟨hall ip n a ha, (h.ranges ip n a (hsub ip n a ha)).2⟩
  starts ip n m a b ha hb := h.starts ip n m a b (hsub ip n a ha) (hsub ip m b hb)

/-- The state after one turn of `reconfigure`, where the loop goes on. -/
def State.recut (σ : State) (ports : List PortRange) (name : String) : State :=
  match (σ.clearSnatGlobalCache name "").snatPolicyCache.lookup name with
  | none => σ.clearSnatGlobalCache name ""
  | some info =>
    { σ.clearSnatGlobalCache name "" with
      snatPolicyCache := (σ.clearSnatGlobalCache name "").snatPolicyCache.insert name
        { info with expandedSnatPorts := ports } }

theorem reconfigure_cons (hc : configuredPorts config = some ports) (σ : State) (name : String)
    (names : List String) : σ.reconfigure config (name :: names) = (σ.recut ports name).reconfigure config names := by
  rw [State.reconfigure, hc]
  rfl

theorem recut_cache (σ : State) (ports : List PortRange) (name : String) :
    (σ.recut ports name).snatGlobalInfoCache = (σ.clearSnatGlobalCache name "").snatGlobalInfoCache := by
  unfold State.recut
  split <;> rfl

theorem recut_lookup (σ : State) (ports : List PortRange) (name other : String) :
    (σ.recut ports name).snatPolicyCache.lookup other = (σ.snatPolicyCache.lookup other).map fun info =>
        if other = name then { info with expandedSnatPorts := ports } else info := by
  have hclear := (shrinks_clearSnatGlobalCache σ name "").policies
  unfold State.recut
  rw [hclear]
  by_cases ho : other = name
  · subst ho
    cases hl : σ.snatPolicyCache.lookup other with
    | none => simp [hclear, hl]
    | some info => simp
  · cases hl : σ.snatPolicyCache.lookup name with
    | none => simp [hclear, ho]
    | some info => simp [ho, lookup_insert_of_ne _ ho]

/-- The loop adds no allocation and no policy, and gives the policies it takes the new
ports. -/
theorem reconfigure_spec (hc : configuredPorts config = some ports) (order : List String) (σ : State) :
    (∀ ip n a, Entry (σ.reconfigure config order) ip n a → Entry σ ip n a) ∧
      ∀ name policy, (σ.reconfigure config order).snatPolicyCache.lookup name = some policy →
        ∃ info, σ.snatPolicyCache.lookup name = some info ∧
          (policy.expandedSnatPorts = ports ∨ name ∉ order ∧ policy = info) := by
  induction order generalizing σ with
  | nil =>
    refine ⟨fun _ _ _ h => h, ?_⟩
    intro name policy h
    exact ⟨policy, h, .inr ⟨not_mem_nil, rfl⟩⟩
  | cons name names ih =>
    obtain ⟨hent, hpol⟩ := ih (σ.recut ports name)
    rw [reconfigure_cons hc]
    refine ⟨fun ip n a he => ?_, fun other policy ho => ?_⟩
    · obtain ⟨g, hg, hlook⟩ := hent ip n a he
      rw [recut_cache] at hg
      exact (shrinks_clearSnatGlobalCache σ name "").entries ip n a ⟨g, hg, hlook⟩
    · obtain ⟨info, hinfo, hcase⟩ := hpol other policy ho
      rw [recut_lookup, map_eq_some_iff] at hinfo
      obtain ⟨old, hold, rfl⟩ := hinfo
      refine ⟨old, hold, ?_⟩
      by_cases hne : other = name
      · rw [if_pos hne] at hcase
        exact .inl (hcase.elim id fun h => h.2 ▸ rfl)
      · rw [if_neg hne] at hcase
        exact hcase.imp id fun h => ⟨by simp [hne, h.1], h.2⟩

theorem clearSnatGlobalCache_eq (h : σ.snatPolicyCache.lookup name = some policy) (nodename : String) :
    σ.clearSnatGlobalCache name nodename = σ.clearIps nodename (σ.addresses policy) := by
  simp only [State.clearSnatGlobalCache, h, State.addresses]
  split <;> rfl

theorem services_clearIps (nodename : String) (snatips : List String) (σ : State) :
    (σ.clearIps nodename snatips).services = σ.services := by
  induction snatips generalizing σ with
  | nil => rfl
  | cons snatip snatips ih =>
    rw [State.clearIps]
    split
    · rfl
    · split
      · split
        · rfl
        · exact ih σ
      · exact ih _

theorem clearIps_other (nodename : String) (snatips : List String) (σ : State) (h : x ∉ snatips) :
    (σ.clearIps nodename snatips).snatGlobalInfoCache x = σ.snatGlobalInfoCache x := by
  induction snatips generalizing σ with
  | nil => rfl
  | cons snatip snatips ih =>
    obtain ⟨hx, hrest⟩ := ne_and_not_mem_of_not_mem_cons h
    rw [State.clearIps]
    split
    · rfl
    · split
      · split
        · exact if_neg hx
        · exact ih σ hrest
      · rw [ih _ hrest]
        exact erase_other _ hx

/-- Nothing is left on an address that the loop gets to. -/
theorem not_entry_clearIps (front : List String) {snatips : List String} (σ : State)
    (hpre : (front ++ [ip]).IsPrefix snatips) (hnodup : front.Nodup)
    (hfront : ∀ x ∈ front, (σ.snatGlobalInfoCache x).isSome) (n : String) (a : GlobalInfo) :
    ¬ Entry (σ.clearIps "" snatips) ip n a := by
  induction front generalizing σ snatips with
  | nil =>
    obtain ⟨rest, rfl⟩ := hpre
    intro he
    rw [nil_append, cons_append, State.clearIps] at he
    cases hc : σ.snatGlobalInfoCache ip with
    | none =>
      simp only [hc] at he
      obtain ⟨g, hg, -⟩ := he
      rw [hc] at hg
      simp at hg
    | some v =>
      simp only [hc, ne_eq, not_true_eq_false, if_false] at he
      obtain ⟨g, hg, -⟩ := (shrinks_clearIps "" _ _).entries ip n a he
      simp at hg
  | cons x front ih =>
    obtain ⟨hx, hnodup⟩ := nodup_cons.mp hnodup
    obtain ⟨rest, rfl⟩ := hpre
    obtain ⟨v, hv⟩ := isSome_iff_exists.mp (hfront x mem_cons_self)
    simp only [cons_append, State.clearIps, hv, ne_eq, not_true_eq_false, if_false]
    refine ih _ ⟨rest, rfl⟩ hnodup fun y hy => ?_
    have hyx : y ≠ x := fun he => hx (he ▸ hy)
    simp only [erase_other _ hyx]
    exact hfront y (mem_cons_of_mem _ hy)

theorem Reached.not_entry (h : Reached σ policy front ip)
    (hl : σ.snatPolicyCache.lookup name = some policy) (n : String) (a : GlobalInfo) :
    ¬ Entry (σ.clearSnatGlobalCache name "") ip n a := by
  rw [clearSnatGlobalCache_eq hl]
  exact not_entry_clearIps front σ h.1 h.2.1 h.2.2 n a

theorem addresses_congr (h : τ.services = σ.services) (policy : ContSnatPolicy) :
    τ.addresses policy = σ.addresses policy := by
  simp [State.addresses, State.getServiceIps, State.getServicesBySelector, h]

theorem services_clearSnatGlobalCache (σ : State) (name nodename : String) :
    (σ.clearSnatGlobalCache name nodename).services = σ.services := by
  cases hl : σ.snatPolicyCache.lookup name with
  | none => simp [State.clearSnatGlobalCache, hl]
  | some policy =>
    rw [clearSnatGlobalCache_eq hl]
    exact services_clearIps nodename _ σ

/-- The clearing of a policy leaves the addresses of the others alone. -/
theorem clearSnatGlobalCache_other (h : ∀ item, σ.snatPolicyCache.lookup name = some item → x ∉ σ.addresses item) :
    (σ.clearSnatGlobalCache name "").snatGlobalInfoCache x = σ.snatGlobalInfoCache x := by
  cases hl : σ.snatPolicyCache.lookup name with
  | none => simp [State.clearSnatGlobalCache, hl]
  | some policy =>
    rw [clearSnatGlobalCache_eq hl]
    exact clearIps_other "" _ σ (h policy hl)

/-- New ports leave the addresses of a policy as they are. -/
theorem addresses_ports (σ : State) (info : ContSnatPolicy) (ports : List PortRange) (c : Prop) [Decidable c] :
    σ.addresses (if c then { info with expandedSnatPorts := ports } else info) = σ.addresses info := by
  split <;> rfl

theorem recut_services (σ : State) (ports : List PortRange) (name : String) :
    (σ.recut ports name).services = σ.services := by
  rw [← services_clearSnatGlobalCache σ name ""]
  unfold State.recut
  split <;> rfl

/-- Nothing is left on an address that the clearing of one policy gets to, whatever the
order of the policies, if the addresses in front of it are of that policy alone. -/
theorem not_entry_reconfigure (hc : configuredPorts config = some ports) (order : List String)
    (σ : State) (hname : name ∈ order) (hl : σ.snatPolicyCache.lookup name = some policy)
    (hr : Reached σ policy front ip) (halone : ∀ x ∈ front, ∀ other item, other ≠ name →
      σ.snatPolicyCache.lookup other = some item → x ∉ σ.addresses item) (n : String) (a : GlobalInfo) :
    ¬ Entry (σ.reconfigure config order) ip n a := by
  induction order generalizing σ with
  | nil => exact absurd hname not_mem_nil
  | cons key keys ih =>
    rw [reconfigure_cons hc]
    by_cases hkey : key = name
    · intro he
      obtain ⟨g, hg, hlook⟩ := (reconfigure_spec hc keys _).1 ip n a he
      rw [recut_cache, hkey] at hg
      exact hr.not_entry hl n a ⟨g, hg, hlook⟩
    · have haddr : ∀ item, (σ.recut ports key).addresses item = σ.addresses item :=
        addresses_congr (recut_services σ ports key)
      refine ih (σ.recut ports key) ((mem_cons.mp hname).resolve_left (Ne.symm hkey)) ?_ ?_ ?_
      · rw [recut_lookup, hl, map_some, if_neg (Ne.symm hkey)]
      · refine ⟨haddr policy ▸ hr.1, hr.2.1, fun x hx => ?_⟩
        rw [recut_cache, clearSnatGlobalCache_other fun item hitem => halone x hx key item hkey hitem]
        exact hr.2.2 x hx
      · intro x hx other item hne hitem
        rw [recut_lookup, map_eq_some_iff] at hitem
        obtain ⟨old, hold, rfl⟩ := hitem
        rw [haddr, addresses_ports]
        exact halone x hx other old hne hold

theorem allocated_reconfigure (h : Allocated old σ) (config : PortRange × Int)
    (hlist : ∀ name ∈ σ.snatPolicyCache.keys, name ∈ order)
    (hall : σ.snatPolicyCache ≠ ∅ → ∀ ports, configuredPorts config = some ports →
      AllOf ports (σ.reconfigure config order)) : ∃ ports, Allocated ports (σ.reconfigure config order) := by
  cases hc : configuredPorts config with
  | none =>
    cases order with
    | nil => exact ⟨old, h⟩
    | cons name names =>
      simp only [State.reconfigure, hc]
      exact ⟨old, allocated_stop (h.shrink (shrinks_clearSnatGlobalCache σ name ""))⟩
  | some ports =>
    obtain ⟨hent, hpol⟩ := reconfigure_spec hc order σ
    by_cases hempty : σ.snatPolicyCache = ∅
    · refine ⟨old, h.recut hent h.apart ?_ fun ip n a ha => (h.ranges ip n a (hent ip n a ha)).1⟩
      intro name policy hl
      obtain ⟨info, hinfo, -⟩ := hpol name policy hl
      rw [hempty, lookup_empty] at hinfo
      simp at hinfo
    · refine ⟨ports, h.recut hent (apart_configuredPorts hc) ?_ (hall hempty ports hc)⟩
      intro name policy hl
      obtain ⟨info, hinfo, hcase⟩ := hpol name policy hl
      have hkey : name ∈ σ.snatPolicyCache.keys :=
        mem_keys.mpr (mem_of_lookup_eq_some hinfo)
      exact hcase.resolve_right fun hn => hn.1 (hlist name hkey)

theorem shrinks_clearChanged (key : String) (snatIp : List String) (σ : State) :
    Shrinks σ (σ.clearChanged key snatIp) := by
  unfold State.clearChanged
  split
  · split
    · exact shrinks_clearSnatGlobalCache σ key ""
    · exact Shrinks.refl σ
  · exact Shrinks.refl σ

theorem allOf_clearChanged {snatIp : List String} (h : ∀ ip n a, Entry σ ip n a → a.portRange ∉ ports →
      ∃ old front, σ.snatPolicyCache.lookup name = some old ∧ snatIp ≠ old.snatIp ∧
        Reached σ old front ip) : AllOf ports (σ.clearChanged name snatIp) := by
  intro ip n a he
  by_contra hout
  obtain ⟨old, front, hl, hne, hr⟩ := h ip n a ((shrinks_clearChanged name snatIp σ).entries ip n a he) hout
  simp only [State.clearChanged, hl, if_pos hne] at he
  exact hr.not_entry hl n a he

theorem allocated_updateSnatPolicyCache (h : Allocated old σ) (configMap : Option ConfigData)
    (key : String) (spec : SnatPolicySpec)
    (hset : ∀ ports, configuredPorts (getPortRangeFromConfigMap configMap) = some ports →
      AllOf ports (σ.clearChanged key spec.snatIp) ∧
      ∀ other policy, other ≠ key → σ.snatPolicyCache.lookup other = some policy → policy.expandedSnatPorts = ports) :
    ∃ ports, Allocated ports (σ.updateSnatPolicyCache configMap key spec) := by
  cases hp : contSnatPolicy configMap spec with
  | none =>
    simp only [State.updateSnatPolicyCache, hp]
    exact ⟨old, allocated_stop h⟩
  | some policy =>
    simp only [State.updateSnatPolicyCache, hp]
    simp only [contSnatPolicy, bind_eq_bind, bind_eq_some_iff, some.injEq] at hp
    obtain ⟨ips, -, ports, hports, hpol⟩ := hp
    obtain ⟨hall, hothers⟩ := hset ports hports
    have hip : policy.snatIp = spec.snatIp := by rw [← hpol]
    rw [hip]
    have hshrink := shrinks_clearChanged key spec.snatIp σ
    refine ⟨ports, h.recut hshrink.entries (apart_configuredPorts hports) ?_ hall⟩
    intro name other hl
    by_cases hn : name = key
    · rw [hn, lookup_insert] at hl
      rw [← some.inj hl, ← hpol]
    · rw [lookup_insert_of_ne _ hn, hshrink.policies] at hl
      exact hothers name other hn hl

theorem allocated_handleSnatUpdate (h : Allocated old σ) {fails : String → Bool}
    {configMap : Option ConfigData} (hset : Settles σ (.handleSnatUpdate name fails order configMap)) :
    ∃ ports, Allocated ports (handle σ (.handleSnatUpdate name fails order configMap)) := by
  simp only [Settles, handle, State.handleSnatUpdate] at hset ⊢
  cases hp : σ.snatIndexer name with
  | none => exact ⟨old, h⟩
  | some policy =>
    obtain ⟨spec, state⟩ := policy
    cases state with
    | unset =>
      refine ⟨old, ?_⟩
      simp only
      split
      · exact allocated_stop h
      · exact h.shrink (shrinks_setSnatPolicyStatus _ _ _ _)
      · exact h.shrink (shrinks_setSnatPolicyStatus _ _ _ _)
    | ready =>
      refine allocated_updateSnatPolicyCache h configMap name spec fun ports hports => ?_
      obtain ⟨hreach, hothers⟩ := hset spec hp ports hports
      exact ⟨allOf_clearChanged hreach, hothers⟩
    | failed => exact ⟨old, h⟩
    | ipPortsExhausted => exact ⟨old, h⟩

theorem allocated_step (σ : State) (e : Event) (h : ∃ ports, Allocated ports σ)
    (he : Listed σ e ∧ Settles σ e) : ∃ ports, Allocated ports (step σ e) := by
  obtain ⟨ports, h⟩ := h
  unfold step
  split
  · exact ⟨ports, h⟩
  cases e with
  | policyStored name spec => exact ⟨ports, h.shrink (Shrinks.of_eq rfl rfl)⟩
  | handleSnatUpdate name fails order configMap => exact allocated_handleSnatUpdate h he.2
  | snatPolicyDelete name =>
    refine ⟨ports, ?_⟩
    have hsame : Shrinks σ { σ with snatIndexer := σ.snatIndexer.erase name } := Shrinks.of_eq rfl rfl
    have hdel := h.shrink (hsame.trans (shrinks_clearSnatGlobalCache _ name ""))
    refine ⟨hdel.apart, ?_, hdel.ranges, hdel.starts⟩
    intro other policy hl
    by_cases hn : other = name
    · rw [hn] at hl
      exact absurd hl (by simp [handle, State.snatPolicyDelete])
    · exact hdel.policies other policy ((lookup_erase_ne hn).symm.trans hl)
  | servicesStored services => exact ⟨ports, h.shrink (Shrinks.of_eq rfl rfl)⟩
  | snatNodeInfoAdded nodeinfo => exact ⟨ports, h.shrink (Shrinks.of_eq rfl rfl)⟩
  | snatNodeInfoUpdated old new fails =>
    refine ⟨ports, ?_⟩
    simp only [handle, State.snatNodeInfoUpdated]
    split
    · exact h
    · exact (h.shrink (shrinks_updateSnatIpandPorts _ _ _ _ σ)).shrink (Shrinks.of_eq rfl rfl)
  | snatNodeInfoDeleted nodeinfo fails order =>
    have hsame : Shrinks σ { σ with snatNodeInfoCache := σ.snatNodeInfoCache.erase nodeinfo.name } :=
      Shrinks.of_eq rfl rfl
    exact ⟨ports, allocated_handleSnatNodeInfo (h.shrink hsame) fails order nodeinfo⟩
  | handleSnatNodeInfo nodeinfo fails order =>
    exact ⟨ports, allocated_handleSnatNodeInfo h fails order nodeinfo⟩
  | snatCfgUpdate oldData newData order =>
    obtain ⟨hlist, hset⟩ := he
    simp only [Settles, handle, State.snatCfgUpdate] at hset ⊢
    split
    · exact ⟨ports, h⟩
    · rename_i hne
      split
      · exact ⟨ports, h⟩
      · rename_i config hc
        apply allocated_reconfigure h config hlist
        intro hempty ports' hports ip n a hent
        by_contra hout
        obtain ⟨name, policy, front, hl, hr, halone⟩ := hset hne hempty config ports' hc hports ip n a
          ((reconfigure_spec hports order σ).1 ip n a hent) hout
        have hname := hlist name (mem_keys.mpr (mem_of_lookup_eq_some hl))
        exact not_entry_reconfigure hports order σ hname hl hr halone n a hent

/-- In every run in which the changes of the ports settle, at every point and on every
address, two nodes hold no port in common. -/
theorem portsExclusive_of_settles (events : List Event)
    (h : Along step (fun σ e => Listed σ e ∧ Settles σ e) start events) (k : Nat) :
    PortsExclusive (run step start (events.take k)) := by
  obtain ⟨ports, hports⟩ := @invariant_take _ _ step (fun σ e => Listed σ e ∧ Settles σ e)
    (fun σ => ∃ ports, Allocated ports σ) allocated_step start events ⟨[], allocated_start⟩ h k
  exact hports.exclusive

def written : String → Bool := fun _ => false

def webSpec : SnatPolicySpec := ⟨["10.0.0.8", "10.0.0.9"], ⟨[("app", "web")], ""⟩, []⟩

def oneRange : ConfigData := ⟨"5000", "8000", "3000"⟩

def twoRanges : ConfigData := ⟨"5500", "9500", "2000"⟩

/-- The node appears with the policy and is handled. -/
def nodeComes (name : String) : List Event :=
  [.snatNodeInfoAdded ⟨name, "", ["web"]⟩, .handleSnatNodeInfo ⟨name, "", ["web"]⟩ written []]

/-- The policy is stored, validated and cached. -/
def policyComes : List Event :=
  [.policyStored "web" webSpec, .handleSnatUpdate "web" written [] (some oneRange),
    .handleSnatUpdate "web" written [] (some oneRange)]

theorem portsExclusive_two_nodes :
    let events := policyComes ++ nodeComes "n1" ++ nodeComes "n2"
    Along step (fun σ e => Listed σ e ∧ Settles σ e) start events ∧ PortsExclusive (run step start events) := by
  intro events
  have hok : Along step (fun σ e => Listed σ e ∧ Settles σ e) start events := by
    refine ⟨⟨trivial, trivial⟩, ⟨trivial, ?_⟩, ⟨trivial, ?_⟩, ⟨trivial, trivial⟩, ⟨trivial, trivial⟩,
      ⟨trivial, trivial⟩, ⟨trivial, trivial⟩, trivial⟩
    · intro spec hs
      have hstate : ((step start (.policyStored "web" webSpec)).snatIndexer "web").map SnatPolicy.state =
        some .unset := by decide
      rw [hs] at hstate
      simp at hstate
    · intro spec _ ports _
      let σ := step (step start (.policyStored "web" webSpec))
        (.handleSnatUpdate "web" written [] (some oneRange))
      have hpolicies : σ.snatPolicyCache = ∅ := by decide
      have hcache : σ.snatGlobalInfoCache = Map.empty := by rfl
      constructor
      · intro ip n a he
        obtain ⟨g, hg, -⟩ : Entry σ ip n a := he
        rw [hcache] at hg
        simp at hg
      · intro other policy _ hl
        have hl' : σ.snatPolicyCache.lookup other = some policy := hl
        rw [hpolicies] at hl'
        exact absurd hl' (by simp)
  exact ⟨hok, portsExclusive_of_settles events hok 7⟩

theorem portsExclusive_fails :
    let events := policyComes ++ nodeComes "n1" ++ nodeComes "n2" ++
      [.snatNodeInfoDeleted ⟨"n1", "", ["web"]⟩ written ["10.0.0.8", "10.0.0.9"],
        .snatCfgUpdate oneRange twoRanges ["web"]] ++ nodeComes "n3" ++ nodeComes "n4" ++ nodeComes "n5"
    Along step Listed start events ∧ ¬ PortsExclusive (run step start events) := by
  intro events
  refine ⟨by decide, ?_⟩
  intro h
  have hn2 : ((run step start events).snatGlobalInfoCache "10.0.0.9").bind
      (fun g => g.lookup "n2") = some ⟨"", ⟨5000, 7999⟩, "10.0.0.9", "web"⟩ := by decide
  have hn5 : ((run step start events).snatGlobalInfoCache "10.0.0.9").bind
      (fun g => g.lookup "n5") = some ⟨"", ⟨5500, 7499⟩, "10.0.0.9", "web"⟩ := by decide
  have he2 := bind_eq_some_iff.mp hn2
  have he5 := bind_eq_some_iff.mp hn5
  exact h "10.0.0.9" "n2" "n5" _ _ he2 he5 (by decide) 5500 (by decide)

/-!
# When a SNAT allocation fails

`allocateIpSnatPortRange` skips the addresses on which every range is taken. On an address with
fewer entries than there are ranges it never comes away with nothing: the nodes there occupy
too few starts for all of the list.
-/

/-- The number of nodes that hold a range on the address. -/
def State.entries (σ : State) (ip : String) : Nat :=
  ((σ.snatGlobalInfoCache ip).map fun globalInfo => globalInfo.keys.card).getD 0

/-- Every entry of the cache is a range of the list under the address it names, and
different nodes of an address hold different ranges. -/
structure HoldsRanges (ports : List PortRange) (σ : State) : Prop where
  ranges : ∀ ip n a, Entry σ ip n a → a.portRange ∈ ports ∧ a.snatIp = ip
  differ : ∀ ip n m a b, Entry σ ip n a → Entry σ ip m b → n ≠ m → a.portRange ≠ b.portRange

/-- Ranges without a common port and without a common start. -/
def DisjointRanges (ports : List PortRange) : Prop :=
  ports.Pairwise fun r s => r.start ≠ s.start ∧ ∀ port, ¬ (r.Contains port ∧ s.Contains port)

section Ranges

variable (hports : DisjointRanges ports)
include hports

theorem starts_nodup : (ports.map PortRange.start).Nodup :=
  pairwise_map.mpr (hports.imp fun h => h.1)

/-- Two different ranges of the list have neither a start nor a port in common. -/
theorem ranges_apart {r s : PortRange} (hr : r ∈ ports) (hs : s ∈ ports) (hne : r ≠ s) :
    r.start ≠ s.start ∧ ∀ port, ¬ (r.Contains port ∧ s.Contains port) := by
  have hsymm : Std.Symm fun r s : PortRange => r.start ≠ s.start ∧ ∀ port, ¬ (r.Contains port ∧ s.Contains port) :=
    ⟨fun x y h => ⟨h.1.symm, fun port hboth => h.2 port hboth.symm⟩⟩
  exact List.Pairwise.forall hports hr hs hne

theorem HoldsRanges.starts {σ : State} (h : HoldsRanges ports σ) :
    ∀ ip n m a b, Entry σ ip n a → Entry σ ip m b → n ≠ m → a.portRange.start ≠ b.portRange.start := by
  intro ip n m a b ha hb hne
  exact (ranges_apart hports (h.ranges ip n a ha).1 (h.ranges ip m b hb).1 (h.differ ip n m a b ha hb hne)).1

end Ranges

theorem card_seen_le (globalInfo : GlobalInfos) : (seen globalInfo).card ≤ globalInfo.keys.card := by
  refine le_trans Finset.card_biUnion_le ?_
  refine le_trans (Finset.sum_le_card_nsmul _ _ 1 fun node _ => ?_) (by simp)
  split <;> simp

/-- With fewer entries than ranges one start is free. -/
theorem exists_free (hports : DisjointRanges ports) {globalInfo : GlobalInfos}
    (h : globalInfo.keys.card < ports.length) :
    ∃ val, ports.find? (fun val => val.start ∉ seen globalInfo) = some val := by
  by_contra hno
  have hnone : ports.find? (fun val => val.start ∉ seen globalInfo) = none := by
    cases hf : ports.find? (fun val => val.start ∉ seen globalInfo) with
    | none => rfl
    | some val => exact absurd ⟨val, hf⟩ hno
  have hall : (ports.map PortRange.start).toFinset ⊆ seen globalInfo := by
    intro s hs
    obtain ⟨r, hr, rfl⟩ := mem_map.mp (mem_toFinset.mp hs)
    have hseen := find?_eq_none.mp hnone r hr
    simpa using hseen
  have hcard := Finset.card_le_card hall
  rw [toFinset_card_of_nodup (starts_nodup hports), length_map] at hcard
  have hle := card_seen_le globalInfo
  omega

/-- No address has more entries than there are ranges. -/
theorem HoldsRanges.entries_le (h : HoldsRanges ports σ) (ip : String) : σ.entries ip ≤ ports.length := by
  unfold State.entries
  cases hg : σ.snatGlobalInfoCache ip with
  | none => simp
  | some globalInfo =>
    have hheld : ∀ node ∈ globalInfo.keys, ∃ info, Entry σ ip node info := by
      intro node hnode
      obtain ⟨info, hinfo⟩ := Finmap.mem_iff.mp (Finmap.mem_keys.mp hnode)
      exact ⟨info, globalInfo, hg, hinfo⟩
    have hsome : Nonempty GlobalInfo := ⟨⟨"", ⟨0, 0⟩, "", ""⟩⟩
    choose! held hentry using hheld
    refine le_trans ?_ (toFinset_card_le ports)
    refine Finset.card_le_card_of_injOn (fun node => (held node).portRange) ?_ ?_
    · intro node hnode
      exact mem_toFinset.mpr (h.ranges ip node _ (hentry node hnode)).1
    · intro n hn m hm heq
      by_contra hne
      exact h.differ ip n m _ _ (hentry n hn) (hentry m hm) hne heq

theorem allocateIpSnatPortRange_none (hne : ports ≠ []) (hports : DisjointRanges ports)
    (h : HoldsRanges ports σ) (nodename : String) (snatIps : List String) :
    σ.allocateIpSnatPortRange nodename ports snatIps = none ↔ ∀ ip ∈ snatIps, σ.entries ip = ports.length := by
  induction snatIps with
  | nil => simp [State.allocateIpSnatPortRange]
  | cons snatip snatIps ih =>
    have hle := h.entries_le snatip
    rw [forall_mem_cons, ← ih]
    cases ports with
    | nil => exact absurd rfl hne
    | cons first rest =>
      rw [State.allocateIpSnatPortRange]
      cases hg : σ.snatGlobalInfoCache snatip with
      | none =>
        have hzero : σ.entries snatip = 0 := by simp [State.entries, hg]
        rw [hzero]
        simp
      | some globalInfo =>
        have hcount : σ.entries snatip = globalInfo.keys.card := by simp [State.entries, hg]
        rw [hcount] at hle ⊢
        by_cases hlt : globalInfo.keys.card < (first :: rest).length
        · have hfull : ¬ globalInfo.keys.card = (first :: rest).length := by omega
          simp only [if_pos hlt, hfull, false_and, iff_false]
          cases globalInfo.lookup nodename with
          | some glinfo => simp
          | none =>
            obtain ⟨val, hval⟩ := exists_free hports hlt
            rw [hval]
            simp
        · have hfull : globalInfo.keys.card = (first :: rest).length := by omega
          simp only [if_neg hlt]
          rw [and_iff_right hfull]

/-- An allocation fails exactly when every address is full, and otherwise gives a range of
the list that no other node of the address has a port of. -/
theorem allocateIpSnatPortRange_exact (ports : List PortRange) (hne : ports ≠ []) (hports : DisjointRanges ports)
    (σ : State) (h : HoldsRanges ports σ) (nodename : String) (snatIps : List String) :
    (σ.allocateIpSnatPortRange nodename ports snatIps = none ↔ ∀ ip ∈ snatIps, σ.entries ip = ports.length) ∧
      ∀ ip r, σ.allocateIpSnatPortRange nodename ports snatIps = some (ip, r) → r ∈ ports ∧ ip ∈ snatIps ∧
          ∀ m b, Entry σ ip m b → m ≠ nodename → ∀ port, ¬ (b.portRange.Contains port ∧ r.Contains port) := by
  refine ⟨allocateIpSnatPortRange_none hne hports h nodename snatIps, fun ip r ha => ?_⟩
  obtain ⟨hr, hip, hfree⟩ := allocateIpSnatPortRange_spec h.ranges (h.starts hports) ha
  refine ⟨hr, hip, fun m b hb hm => ?_⟩
  have hdiff : b.portRange ≠ r := fun heq => hfree m b hb hm (congrArg PortRange.start heq)
  exact (ranges_apart hports (h.ranges ip m b hb).1 hr hdiff).2

/-- One of two ranges is taken on the first address. -/
def oneTaken : State := start.updateGlobalInfoforPolicy ⟨5000, 5999⟩ "10.0.0.1" "node1" "" "p"

theorem entry_oneTaken {ip n : String} {a : GlobalInfo} (h : Entry oneTaken ip n a) :
    ip = "10.0.0.1" ∧ n = "node1" ∧ a = ⟨"", ⟨5000, 5999⟩, "10.0.0.1", "p"⟩ := by
  rw [oneTaken, entry_updateGlobalInfoforPolicy] at h
  split at h
  · next hkey => exact ⟨hkey.1, hkey.2, h⟩
  · obtain ⟨g, hg, -⟩ := h
    exact absurd hg (by simp [start])

theorem allocateIpSnatPortRange_exact_second : HoldsRanges [⟨5000, 5999⟩, ⟨6000, 6999⟩] oneTaken ∧
      oneTaken.allocateIpSnatPortRange "node2" [⟨5000, 5999⟩, ⟨6000, 6999⟩] ["10.0.0.1"] =
        some ("10.0.0.1", ⟨6000, 6999⟩) ∧ ∀ m b, Entry oneTaken "10.0.0.1" m b → m ≠ "node2" →
        ∀ port, ¬ (b.portRange.Contains port ∧ PortRange.Contains ⟨6000, 6999⟩ port) := by
  have hheld : HoldsRanges [⟨5000, 5999⟩, ⟨6000, 6999⟩] oneTaken := by
    refine ⟨fun ip n a h => ?_, fun ip n m a b ha hb hne => ?_⟩
    · obtain ⟨rfl, -, rfl⟩ := entry_oneTaken h
      exact ⟨by simp, rfl⟩
    · exact absurd ((entry_oneTaken ha).2.1.trans (entry_oneTaken hb).2.1.symm) hne
  have hports : DisjointRanges [⟨5000, 5999⟩, ⟨6000, 6999⟩] := by
    simp only [DisjointRanges, pairwise_cons, List.mem_singleton, forall_eq, not_mem_nil, false_implies,
      implies_true, List.Pairwise.nil, and_true, PortRange.Contains]
    exact ⟨by decide, fun port => by omega⟩
  have hsome : oneTaken.allocateIpSnatPortRange "node2" [⟨5000, 5999⟩, ⟨6000, 6999⟩] ["10.0.0.1"] =
      some ("10.0.0.1", ⟨6000, 6999⟩) := by decide +kernel
  have hexact := allocateIpSnatPortRange_exact [⟨5000, 5999⟩, ⟨6000, 6999⟩] (by simp) hports oneTaken hheld "node2"
    ["10.0.0.1"]
  exact ⟨hheld, hsome, (hexact.2 _ _ hsome).2.2⟩

end AciContainers.Snat
