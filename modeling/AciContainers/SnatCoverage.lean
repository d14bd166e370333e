import AciContainers.SnatPolicyIps
import AciContainers.SnatStatusRetry

/-!
# Which SNAT allocations a node ends up with

A policy without an allocation of the node on any of its addresses gets one from
`handleSnatNodeInfo`, on the first listed address that has room or on every address of its
services; any other policy is passed over. A policy that takes an address which another one has
takes the allocation from it.
-/
namespace AciContainers.Snat

open Maps Outcomes Runs List

variable {σ : State} {node ip name serviceIp : String} {ips : List String} {r : PortRange} {acc : Allocating}
  {nodeinfo : NodeInfo} {policy : ContSnatPolicy}

/-- The node has an allocation of the policy on the address. -/
def Holds (σ : State) (node name ip : String) : Prop := ∃ a, Entry σ ip node a ∧ a.snatPolicyName = name

/-- Allocations are kept under the address they name. -/
def KeyedEntries (σ : State) : Prop := ∀ ip n a, Entry σ ip n a → a.snatIp = ip

theorem Holds.unique {m n : String} (hm : Holds σ node m ip) (hn : Holds σ node n ip) : m = n := by
  obtain ⟨a, ⟨g, hg, ha⟩, rfl⟩ := hm
  obtain ⟨b, ⟨g', hg', hb⟩, rfl⟩ := hn
  rw [hg, Option.some.injEq] at hg'
  subst hg'
  rw [ha, Option.some.injEq] at hb
  rw [hb]

theorem applied_iff (σ : State) (node name : String) :
    σ.checkIfPolicyApplied node name ips = true ↔ ∃ ip ∈ ips, Holds σ node name ip := by
  simp only [State.checkIfPolicyApplied, any_eq_true, Option.any_eq_true, decide_eq_true_eq, Holds, Entry]
  grind

/-- An allocation is on one of the addresses it was asked for. -/
theorem allocateIpSnatPortRange_mem (hkeyed : KeyedEntries σ) {nodename : String}
    {ports : List PortRange} {snatIps : List String}
    (h : σ.allocateIpSnatPortRange nodename ports snatIps = some (ip, r)) : ip ∈ snatIps := by
  induction snatIps with
  | nil => exact absurd h (by simp [State.allocateIpSnatPortRange])
  | cons snatip snatIps ih =>
    unfold State.allocateIpSnatPortRange at h
    cases ports with
    | nil => simp at h
    | cons first rest =>
      simp only at h
      split at h
      · rw [← (Prod.mk.inj (Option.some.inj h)).1]
        exact mem_cons_self
      · next globalInfo hg =>
        split at h
        · split at h
          · next glinfo hl =>
            rw [← (Prod.mk.inj (Option.some.inj h)).1, hkeyed snatip nodename glinfo ⟨globalInfo, hg, hl⟩]
            exact mem_cons_self
          · split at h
            · rw [← (Prod.mk.inj (Option.some.inj h)).1]
              exact mem_cons_self
            · exact mem_cons_of_mem _ (ih h)
        · exact mem_cons_of_mem _ (ih h)

theorem keyed_updateGlobalInfoforPolicy (h : KeyedEntries σ) (r : PortRange) (ip node mac name : String) :
    KeyedEntries (σ.updateGlobalInfoforPolicy r ip node mac name) := by
  intro ip' n a ha
  rw [entry_updateGlobalInfoforPolicy] at ha
  split at ha
  · next hkey => rw [ha, hkey.1]
  · exact h ip' n a ha

theorem holds_updateGlobalInfoforPolicy (σ : State) (r : PortRange) (ip node mac name m ip' : String) :
    Holds (σ.updateGlobalInfoforPolicy r ip node mac name) node m ip' ↔
      if ip' = ip then m = name else Holds σ node m ip' := by
  unfold Holds
  by_cases hip : ip' = ip
  · simp [entry_updateGlobalInfoforPolicy, hip, eq_comm]
  · simp [entry_updateGlobalInfoforPolicy, hip]

/-- Some allocations were made for the policy, on these addresses, and none failed. -/
structure Turned (node name : String) (taken : List String) (acc acc' : Allocating) : Prop where
  failed : acc'.allocfailed = acc.allocfailed
  keyed : KeyedEntries acc'.state
  services : acc'.state.services = acc.state.services
  policies : acc'.state.snatPolicyCache = acc.state.snatPolicyCache
  holds : ∀ m ip, Holds acc'.state node m ip ↔ ip ∈ taken ∧ m = name ∨ ip ∉ taken ∧ Holds acc.state node m ip

theorem Turned.refl (hkeyed : KeyedEntries acc.state) :
    Turned node name [] acc acc := ⟨rfl, hkeyed, rfl, rfl, fun m ip => by simp⟩

theorem Turned.trans {ips ips' : List String} {acc' acc'' : Allocating}
    (h : Turned node name ips acc acc') (h' : Turned node name ips' acc' acc'') :
    Turned node name (ips ++ ips') acc acc'' where
  failed := h'.failed.trans h.failed
  keyed := h'.keyed
  services := h'.services.trans h.services
  policies := h'.policies.trans h.policies
  holds m ip := by
    rw [h'.holds, h.holds, mem_append]
    tauto

theorem turned_allocate (hkeyed : KeyedEntries acc.state)
    (h : acc.state.getIpAndPortRange nodeinfo.name policy serviceIp = some (ip, r)) :
    Turned nodeinfo.name name [ip] acc (acc.allocate nodeinfo name policy serviceIp) := by
  unfold Allocating.allocate
  rw [h]
  refine ⟨rfl, keyed_updateGlobalInfoforPolicy hkeyed _ _ _ _ _, rfl, rfl, fun m ip' => ?_⟩
  rw [holds_updateGlobalInfoforPolicy]
  by_cases hip : ip' = ip <;> simp [hip]

theorem allocfailed_allocate (nodeinfo : NodeInfo) (name : String) (policy : ContSnatPolicy)
    (acc : Allocating) (serviceIp : String) :
    acc.allocfailed.IsPrefix (acc.allocate nodeinfo name policy serviceIp).allocfailed := by
  unfold Allocating.allocate
  split
  · exact prefix_append _ _
  · exact prefix_rfl

theorem allocfailed_foldl {f : Allocating → String → Allocating}
    (hf : ∀ (acc : Allocating) x, acc.allocfailed.IsPrefix (f acc x).allocfailed) (xs : List String)
    (acc : Allocating) :
    acc.allocfailed.IsPrefix (xs.foldl f acc).allocfailed := by
  induction xs generalizing acc with
  | nil => exact prefix_rfl
  | cons x xs ih => exact (hf acc x).trans (ih (f acc x))

theorem allocfailed_policy (nodeinfo : NodeInfo) (acc : Allocating) (name : String) :
    acc.allocfailed.IsPrefix (acc.policy nodeinfo name).allocfailed := by
  unfold Allocating.policy
  split
  · exact prefix_rfl
  · next policy _ =>
    split
    · split
      · exact prefix_rfl
      · exact allocfailed_allocate nodeinfo name policy acc ""
    · simp only
      split
      · exact prefix_rfl
      · exact allocfailed_foldl (allocfailed_allocate nodeinfo name policy) _ acc

/-- Without a failure there was an allocation. -/
theorem getIpAndPortRange_of_allocate (h : (acc.allocate nodeinfo name policy serviceIp).allocfailed =
    acc.allocfailed) :
    ∃ ip r, acc.state.getIpAndPortRange nodeinfo.name policy serviceIp = some (ip, r) := by
  unfold Allocating.allocate at h
  split at h
  · simp at h
  · next ip r hsome => exact ⟨ip, r, hsome⟩

/-- The addresses that the policy takes in its turn, as long as no allocation fails. -/
def State.takes (σ : State) (node name : String) (policy : ContSnatPolicy) : List String :=
  if σ.checkIfPolicyApplied node name (σ.addresses policy) then []
  else if policy.snatIp ≠ [] then ((σ.getIpAndPortRange node policy "").map Prod.fst).toList
  else σ.getServiceIps policy

theorem turned_services (hlisted : policy.snatIp = []) (hkeyed : KeyedEntries acc.state)
    (h : (ips.foldl (Allocating.allocate nodeinfo name policy) acc).allocfailed = []) :
    Turned nodeinfo.name name ips acc (ips.foldl (Allocating.allocate nodeinfo name policy) acc) := by
  induction ips generalizing acc with
  | nil => exact Turned.refl hkeyed
  | cons sip ips ih =>
    rw [foldl_cons] at h ⊢
    have hrest := allocfailed_foldl (allocfailed_allocate nodeinfo name policy) ips
      (acc.allocate nodeinfo name policy sip)
    rw [h, prefix_nil] at hrest
    have hfirst := allocfailed_allocate nodeinfo name policy acc sip
    rw [hrest, prefix_nil] at hfirst
    obtain ⟨ip, r, hsome⟩ := getIpAndPortRange_of_allocate (hrest.trans hfirst.symm)
    have hip : ip = sip := by
      have hmem := hsome
      rw [State.getIpAndPortRange, if_neg (not_not.mpr hlisted)] at hmem
      exact mem_singleton.mp (allocateIpSnatPortRange_mem hkeyed hmem)
    subst hip
    have hturned : Turned nodeinfo.name name [ip] acc (acc.allocate nodeinfo name policy ip) :=
      turned_allocate hkeyed hsome
    exact hturned.trans (ih hturned.keyed h)

theorem turned_policy (hl : acc.state.snatPolicyCache.lookup name = some policy)
    (hkeyed : KeyedEntries acc.state) (h : (acc.policy nodeinfo name).allocfailed = []) :
    Turned nodeinfo.name name (acc.state.takes nodeinfo.name name policy) acc (acc.policy nodeinfo name) := by
  have hbefore := allocfailed_policy nodeinfo acc name
  rw [h, prefix_nil] at hbefore
  unfold Allocating.policy at h ⊢
  simp only [hl] at h ⊢
  unfold State.takes State.addresses
  by_cases hlisted : policy.snatIp ≠ []
  · simp only [if_pos hlisted] at h ⊢
    split
    · exact Turned.refl hkeyed
    · next happlied =>
      rw [if_neg happlied] at h
      obtain ⟨ip, r, hsome⟩ := getIpAndPortRange_of_allocate (h.trans hbefore.symm)
      rw [hsome]
      exact turned_allocate hkeyed hsome
  · simp only [if_neg hlisted] at h ⊢
    split
    · exact Turned.refl hkeyed
    · next happlied =>
      rw [if_neg happlied] at h
      exact turned_services (not_not.mp hlisted) hkeyed h

/-- A policy with listed addresses that is not passed over takes one of them. -/
theorem takes_listed (hl : acc.state.snatPolicyCache.lookup name = some policy)
    (hlisted : policy.snatIp ≠ []) (h : (acc.policy nodeinfo name).allocfailed = [])
    (hno : ¬ acc.state.checkIfPolicyApplied nodeinfo.name name (acc.state.addresses policy)) :
    ∃ ip, acc.state.takes nodeinfo.name name policy = [ip] := by
  have hbefore := allocfailed_policy nodeinfo acc name
  rw [h, prefix_nil] at hbefore
  have hno' : ¬ acc.state.checkIfPolicyApplied nodeinfo.name name policy.expandedSnatIps := by
    rwa [State.addresses, if_pos hlisted] at hno
  unfold Allocating.policy at h
  simp only [hl, if_pos hlisted, if_neg hno'] at h
  obtain ⟨ip, r, hsome⟩ := getIpAndPortRange_of_allocate (h.trans hbefore.symm)
  exact ⟨ip, by simp [State.takes, hno, hlisted, hsome]⟩

theorem takes_subset (hkeyed : KeyedEntries σ) (h : ip ∈ σ.takes node name policy) : ip ∈ σ.addresses policy := by
  unfold State.takes at h
  unfold State.addresses
  split at h
  · exact absurd h not_mem_nil
  · split at h
    · next hlisted =>
      rw [if_pos hlisted]
      simp only [Option.mem_toList, Option.map_eq_some_iff] at h
      obtain ⟨⟨ip', r⟩, hsome, rfl⟩ := h
      rw [State.getIpAndPortRange, if_pos hlisted] at hsome
      exact allocateIpSnatPortRange_mem hkeyed hsome
    · next hlisted => rwa [if_neg hlisted]

/-- The loop over the policies, up to the turn that comes after these. -/
def State.after (σ : State) (nodeinfo : NodeInfo) (front : List String) : Allocating :=
  front.foldl (Allocating.policy nodeinfo) ⟨σ, [], []⟩

/-- The node's allocations when these policies had their turns. -/
def held (σ : State) (nodeinfo : NodeInfo) (front : List String) (name ip : String) : Prop :=
  Holds (σ.after nodeinfo front).state nodeinfo.name name ip

/-- The addresses of a cached policy. -/
def wanted (σ : State) (name ip : String) : Prop :=
  ∃ policy, σ.snatPolicyCache.lookup name = some policy ∧ ip ∈ σ.addresses policy

/-- A policy with listed addresses has an allocation on one of them, one for services on each
of theirs. -/
def Covered (σ : State) (nodeinfo : NodeInfo) (τ : State) : Prop :=
  ∀ name ∈ nodeinfo.snatPolicyNames, ∀ policy, σ.snatPolicyCache.lookup name = some policy →
    if policy.snatIp ≠ [] then ∃ ip ∈ policy.expandedSnatIps, Holds τ nodeinfo.name name ip
    else ∀ ip ∈ σ.getServiceIps policy, Holds τ nodeinfo.name name ip

/-- No other policy of the node has an address of the policy. -/
def OwnAddresses (σ : State) (nodeinfo : NodeInfo) (name : String) (policy : ContSnatPolicy) : Prop :=
  ∀ n ∈ nodeinfo.snatPolicyNames, n ≠ name → ∀ ip ∈ σ.addresses policy, ¬ wanted σ n ip

section Turns

variable {front back : List String} (hkeyed : KeyedEntries σ) (hok : (σ.allocations nodeinfo).allocfailed = [])
include hkeyed hok

/-- What the loop has not changed, and that nothing failed, when some policies had their
turns. -/
theorem after_spec (hnames : nodeinfo.snatPolicyNames = front ++ back) :
    (σ.after nodeinfo front).allocfailed = [] ∧ KeyedEntries (σ.after nodeinfo front).state ∧
      (σ.after nodeinfo front).state.services = σ.services ∧
      (σ.after nodeinfo front).state.snatPolicyCache = σ.snatPolicyCache := by
  have hsome : ∀ {front back}, nodeinfo.snatPolicyNames = front ++ back → (σ.after nodeinfo front).allocfailed =
    [] := by
    intro front back hnames
    have hlater := allocfailed_foldl (allocfailed_policy nodeinfo) back (σ.after nodeinfo front)
    rw [State.after, ← foldl_append, ← hnames] at hlater
    exact prefix_nil.mp (hok ▸ hlater)
  induction front using reverseRecOn generalizing back with
  | nil => exact ⟨rfl, hkeyed, rfl, rfl⟩
  | append_singleton front name ih =>
    have hsplit : nodeinfo.snatPolicyNames = front ++ name :: back := by simpa using hnames
    obtain ⟨-, hk, hs, hp⟩ := ih hsplit
    have hturn := hsome hnames
    rw [State.after, foldl_append, foldl_cons, foldl_nil] at hturn ⊢
    refine ⟨hturn, ?_⟩
    cases hl : σ.snatPolicyCache.lookup name with
    | none =>
      have hidle : Allocating.policy nodeinfo (σ.after nodeinfo front) name = σ.after nodeinfo front := by
        simp [Allocating.policy, hp, hl]
      rw [State.after] at hidle
      rw [hidle]
      exact ⟨hk, hs, hp⟩
    | some policy =>
      have ht := turned_policy (by rw [hp]; exact hl) hk hturn
      exact ⟨ht.keyed, ht.services.trans hs, ht.policies.trans hp⟩

/-- The turn of a cached policy, over the addresses it has from the beginning. -/
theorem turn_spec {name : String} {policy : ContSnatPolicy}
    (hnames : nodeinfo.snatPolicyNames = front ++ name :: back) (hl : σ.snatPolicyCache.lookup name = some policy) :
    Turned nodeinfo.name name ((σ.after nodeinfo front).state.takes nodeinfo.name name policy)
        (σ.after nodeinfo front) (σ.after nodeinfo (front ++ [name])) ∧
      (σ.after nodeinfo front).state.addresses policy = σ.addresses policy ∧
      (policy.snatIp ≠ [] → (¬ ∃ ip, wanted σ name ip ∧ held σ nodeinfo front name ip) →
        ∃ ip, (σ.after nodeinfo front).state.takes nodeinfo.name name policy = [ip]) := by
  obtain ⟨-, hk, hs, hp⟩ := after_spec hkeyed hok hnames
  have hl' : (σ.after nodeinfo front).state.snatPolicyCache.lookup name = some policy := by rwa [hp]
  have hsplit : nodeinfo.snatPolicyNames = (front ++ [name]) ++ back := by simpa using hnames
  have hend := (after_spec hkeyed hok hsplit).1
  have hafter : σ.after nodeinfo (front ++ [name]) = (σ.after nodeinfo front).policy nodeinfo name := by
    simp [State.after]
  have haddr := addresses_congr hs policy
  rw [hafter] at hend ⊢
  refine ⟨turned_policy hl' hk hend, haddr, fun hlisted hno => takes_listed hl' hlisted hend ?_⟩
  rw [applied_iff, haddr]
  rintro ⟨ip, hip, hheld⟩
  exact hno ⟨ip, ⟨policy, hl, hip⟩, hheld⟩

/-- Only the policies whose address it is change who has an allocation on it. -/
theorem held_frame {mid : List String} (hnames : nodeinfo.snatPolicyNames = front ++ mid ++ back)
    (hmid : ∀ n ∈ mid, ¬ wanted σ n ip) (m : String) :
    held σ nodeinfo (front ++ mid) m ip ↔ held σ nodeinfo front m ip := by
  induction mid using reverseRecOn generalizing back with
  | nil => simp
  | append_singleton mid n ih =>
    have hsplit : nodeinfo.snatPolicyNames = (front ++ mid) ++ n :: back := by simpa using hnames
    rw [← append_assoc]
    refine Iff.trans ?_ (ih (by simpa using hsplit) fun k hk => hmid k (mem_append_left _ hk))
    cases hl : σ.snatPolicyCache.lookup n with
    | none =>
      have hp := (after_spec hkeyed hok hsplit).2.2.2
      have hidle : σ.after nodeinfo (front ++ mid ++ [n]) = σ.after nodeinfo (front ++ mid) := by
        rw [State.after, foldl_append, foldl_cons, foldl_nil]
        change (σ.after nodeinfo (front ++ mid)).policy nodeinfo n = _
        simp [Allocating.policy, hp, hl]
      rw [held, hidle]
      rfl
    | some policy =>
      obtain ⟨hturned, haddr, -⟩ := turn_spec hkeyed hok hsplit hl
      have hfree : ip ∉ (σ.after nodeinfo (front ++ mid)).state.takes nodeinfo.name n policy := by
        intro hip
        refine hmid n (by simp) ⟨policy, hl, haddr ▸ takes_subset (after_spec hkeyed hok hsplit).2.1 hip⟩
      rw [held, hturned.holds]
      simp [hfree, held]

section Own

variable (hnodup : nodeinfo.snatPolicyNames.Nodup) (hnames : nodeinfo.snatPolicyNames = front ++ name :: back)
  (hown : OwnAddresses σ nodeinfo name policy)
include hnodup hnames hown

/-- Before its turn and after it, a policy whose addresses are its own keeps its allocations. -/
theorem held_own (hip : ip ∈ σ.addresses policy) :
    (held σ nodeinfo front name ip ↔ Holds σ nodeinfo.name name ip) ∧
      (held σ nodeinfo nodeinfo.snatPolicyNames name ip ↔ held σ nodeinfo (front ++ [name]) name ip) := by
  rw [hnames] at hnodup
  obtain ⟨-, hback, hdisjoint⟩ := nodup_append.mp hnodup
  have hfront : ∀ n ∈ front, ¬ wanted σ n ip := fun n hn =>
    hown n (by simp [hnames, hn]) (fun h => hdisjoint n hn name mem_cons_self h) ip hip
  have hrest : ∀ n ∈ back, ¬ wanted σ n ip := fun n hn =>
    hown n (by simp [hnames, hn]) (fun h => (nodup_cons.mp hback).1 (h ▸ hn)) ip hip
  have hsplit : nodeinfo.snatPolicyNames = (front ++ [name]) ++ back := by simpa using hnames
  have hafter := held_frame hkeyed hok (hsplit.trans (append_nil _).symm) hrest name
  rw [← hsplit] at hafter
  have hnil : nodeinfo.snatPolicyNames = [] ++ front ++ name :: back := hnames
  exact ⟨held_frame hkeyed hok hnil hfront name, hafter⟩

/-- The policy is passed over if the node had an allocation on one of the addresses. -/
theorem passed_over_iff (hl : σ.snatPolicyCache.lookup name = some policy) :
    (σ.after nodeinfo front).state.checkIfPolicyApplied nodeinfo.name name
        ((σ.after nodeinfo front).state.addresses policy) ↔
      ∃ ip ∈ σ.addresses policy, Holds σ nodeinfo.name name ip := by
  rw [applied_iff, (turn_spec hkeyed hok hnames hl).2.1]
  exact exists_congr fun ip => and_congr_right fun hip => (held_own hkeyed hok hnodup hnames hown hip).1

/-- A listed policy has an allocation on one of its addresses in the end. -/
theorem listed_held (hl : σ.snatPolicyCache.lookup name = some policy) (hlisted : policy.snatIp ≠ []) :
    ∃ ip ∈ policy.expandedSnatIps, held σ nodeinfo nodeinfo.snatPolicyNames name ip := by
  have haddr : σ.addresses policy = policy.expandedSnatIps := by rw [State.addresses, if_pos hlisted]
  obtain ⟨hturned, haddr', hone⟩ := turn_spec hkeyed hok hnames hl
  rw [← haddr]
  by_cases hbefore : ∃ ip ∈ σ.addresses policy, Holds σ nodeinfo.name name ip
  · have htakes : (σ.after nodeinfo front).state.takes nodeinfo.name name policy = [] := by
      rw [State.takes, if_pos ((passed_over_iff hkeyed hok hnodup hnames hown hl).mpr hbefore)]
    obtain ⟨ip, hip, hheld⟩ := hbefore
    obtain ⟨hfirst, hlast⟩ := held_own hkeyed hok hnodup hnames hown hip
    refine ⟨ip, hip, hlast.mpr ((hturned.holds name ip).mpr (.inr ⟨by simp [htakes], hfirst.mpr hheld⟩))⟩
  · obtain ⟨ip, htakes⟩ := hone hlisted (by
      rintro ⟨ip, ⟨policy', hl', hip⟩, hheld⟩
      obtain rfl : policy = policy' := Option.some.inj (hl.symm.trans hl')
      exact hbefore ⟨ip, hip, (held_own hkeyed hok hnodup hnames hown hip).1.mp hheld⟩)
    have hip : ip ∈ σ.addresses policy :=
      haddr' ▸ takes_subset (after_spec hkeyed hok hnames).2.1 (by rw [htakes]; exact mem_singleton_self ip)
    exact ⟨ip, hip, (held_own hkeyed hok hnodup hnames hown hip).2.mpr
      ((hturned.holds name ip).mpr (.inl ⟨by simp [htakes], rfl⟩))⟩

/-- A policy for services is covered in the end if it started with all or nothing. -/
theorem services_held_iff (hl : σ.snatPolicyCache.lookup name = some policy) (hservices : policy.snatIp = []) :
    (∀ ip ∈ σ.getServiceIps policy, held σ nodeinfo nodeinfo.snatPolicyNames name ip) ↔
      ((∃ ip ∈ σ.getServiceIps policy, Holds σ nodeinfo.name name ip) →
        ∀ ip ∈ σ.getServiceIps policy, Holds σ nodeinfo.name name ip) := by
  have haddr : σ.addresses policy = σ.getServiceIps policy := by rw [State.addresses, if_neg (not_not.mpr hservices)]
  obtain ⟨hturned, haddr', -⟩ := turn_spec hkeyed hok hnames hl
  have hpassed := passed_over_iff hkeyed hok hnodup hnames hown hl
  rw [← haddr]
  have hend : ∀ ip ∈ σ.addresses policy, held σ nodeinfo nodeinfo.snatPolicyNames name ip ↔
      ip ∈ (σ.after nodeinfo front).state.takes nodeinfo.name name policy ∨ Holds σ nodeinfo.name name ip := by
    intro ip hip
    obtain ⟨hfirst, hlast⟩ := held_own hkeyed hok hnodup hnames hown hip
    rw [hlast, held, hturned.holds, ← hfirst, held]
    tauto
  rw [forall₂_congr hend]
  by_cases hbefore : ∃ ip ∈ σ.addresses policy, Holds σ nodeinfo.name name ip
  · simp [State.takes, hpassed.mpr hbefore, hbefore]
  · have hnot := mt hpassed.mp hbefore
    have hall : ∀ ip ∈ σ.addresses policy, ip ∈ (σ.after nodeinfo front).state.takes nodeinfo.name name policy := by
      intro ip hip
      rw [← haddr', State.addresses, if_neg (not_not.mpr hservices)] at hip
      rwa [State.takes, if_neg hnot, if_neg (not_not.mpr hservices)]
    exact ⟨fun _ h => absurd h hbefore, fun _ ip hip => .inl (hall ip hip)⟩

end Own

end Turns

variable {order : List String} {fails : String → Bool}

theorem cache_setSnatPoliciesState (names : List String) (status : PolicyState) (σ : State) :
    (σ.setSnatPoliciesState fails names status).1.snatGlobalInfoCache = σ.snatGlobalInfoCache := by
  refine @foldl_invariant _ _ (fun acc : State × Bool => acc.1.snatGlobalInfoCache = σ.snatGlobalInfoCache)
    _ names _ rfl fun acc name _ hacc => ?_
  simp only [setStatusTurn]
  unfold State.setSnatPolicyStatus
  split
  · exact hacc
  · split <;> exact hacc

theorem KeyedEntries.of_entries {σ τ : State} (h : KeyedEntries σ)
    (hsub : ∀ ip n a, Entry τ ip n a → Entry σ ip n a) : KeyedEntries τ :=
  fun ip n a ha => h ip n a (hsub ip n a ha)

theorem keyed_handleSnatNodeInfo {σ : State} (h : KeyedEntries σ) (nodeinfo : NodeInfo) :
    KeyedEntries (σ.handleSnatNodeInfo fails order nodeinfo).1 := by
  have hallocate : ∀ (name : String) (policy : ContSnatPolicy) (acc : Allocating) (ip : String),
      KeyedEntries acc.state → KeyedEntries (acc.allocate nodeinfo name policy ip).state := by
    intro name policy acc ip hacc
    unfold Allocating.allocate
    split
    · exact hacc
    · exact keyed_updateGlobalInfoforPolicy hacc _ _ _ _ _
  have hpolicy : ∀ (acc : Allocating) (name : String), KeyedEntries acc.state →
      KeyedEntries (acc.policy nodeinfo name).state := by
    intro acc name hacc
    unfold Allocating.policy
    split
    · exact hacc
    · next policy _ =>
      split
      · split
        · exact hacc
        · exact hallocate name policy acc "" hacc
      · simp only
        split
        · exact hacc
        · exact @foldl_invariant _ _ (fun acc : Allocating => KeyedEntries acc.state) _ _ _ hacc
            fun acc ip _ => hallocate name policy acc ip
  unfold State.handleSnatNodeInfo
  split
  · exact h.of_entries (shrinks_deleteNodeinfoFromGlInfoCache _ _ _ _ σ).entries
  · have hloop := @foldl_invariant _ _ (fun acc : Allocating => KeyedEntries acc.state) _
      nodeinfo.snatPolicyNames ⟨σ, [], []⟩ h fun acc name _ => hpolicy acc name
    exact hloop.of_entries ((shrinks_setSnatPoliciesState _ _ _ _).trans (shrinks_setSnatPoliciesState _ _ _ _)).entries

theorem entries_reconfigure (config : PortRange × Int) (σ : State) (ip n : String) (a : GlobalInfo) :
    Entry (σ.reconfigure config order) ip n a → Entry σ ip n a := by
  cases hc : configuredPorts config with
  | some ports => exact (reconfigure_spec hc order σ).1 ip n a
  | none =>
    cases order with
    | nil => exact id
    | cons name names =>
      simp only [State.reconfigure, hc]
      exact (shrinks_clearSnatGlobalCache σ name "").entries ip n a

theorem keyed_handleSnatUpdate {σ : State} (h : KeyedEntries σ) (configMap : Option ConfigData)
    (name : String) : KeyedEntries (σ.handleSnatUpdate fails order configMap name) := by
  unfold State.handleSnatUpdate
  split
  · exact h
  · split
    · split
      · exact h
      · exact h.of_entries (shrinks_setSnatPolicyStatus _ _ _ _).entries
      · exact h.of_entries (shrinks_setSnatPolicyStatus _ _ _ _).entries
    · unfold State.updateSnatPolicyCache
      split
      · exact h
      · exact h.of_entries (shrinks_clearChanged _ _ _).entries
    · exact h
    · exact h

theorem keyed_step (σ : State) (e : Event) (h : KeyedEntries σ) (_ : True) : KeyedEntries (step σ e) := by
  unfold step
  split
  · exact h
  · cases e with
    | policyStored name spec => exact h
    | handleSnatUpdate name fails order configMap => exact keyed_handleSnatUpdate h configMap name
    | snatPolicyDelete name => exact h.of_entries (shrinks_clearSnatGlobalCache _ name "").entries
    | servicesStored services => exact h
    | snatNodeInfoAdded nodeinfo => exact h
    | snatNodeInfoUpdated old new fails =>
      simp only [handle, State.snatNodeInfoUpdated]
      split
      · exact h
      · exact h.of_entries (shrinks_updateSnatIpandPorts _ _ _ _ σ).entries
    | snatNodeInfoDeleted nodeinfo fails order =>
      have herased : KeyedEntries { σ with snatNodeInfoCache := σ.snatNodeInfoCache.erase nodeinfo.name } := h
      exact keyed_handleSnatNodeInfo herased nodeinfo
    | handleSnatNodeInfo nodeinfo fails order => exact keyed_handleSnatNodeInfo h nodeinfo
    | snatCfgUpdate oldData newData order =>
      simp only [handle, State.snatCfgUpdate]
      split
      · exact h
      · split
        · exact h
        · exact h.of_entries (entries_reconfigure _ σ)

theorem keyed_run (events : List Event) : KeyedEntries (run step start events) := by
  refine @invariant_run _ _ step (fun _ _ => True) KeyedEntries keyed_step start events ?_
    (along_of_forall step start (p := fun _ => True) fun _ _ => trivial)
  rintro ip n a ⟨g, hg, -⟩
  exact absurd hg (by simp [start])

def webService (ip : String) : Service := ⟨"default", [("app", "web")], [ip]⟩

def webNode : NodeInfo := ⟨"n1", "", ["web"]⟩

/-- A policy for services is cached and a node has it. -/
def servicesCome (ips : List String) : List Event :=
  .servicesStored (ips.map webService) :: policyTaken "web" [] [] ++ [.snatNodeInfoAdded webNode]

end AciContainers.Snat
