import AciContainers.SnatPortSafety

/-!
# Addresses of SNAT policies

`validateCr` compares the addresses of a policy with those of the cached ones when the status of
the policy is not set yet. The policy enters the cache later, and every later change of its
addresses goes into the cache without being compared again. Where the comparison still holds at
the moment of caching, the cached policies never share an address, but for IPv4-mapped ones.
-/
namespace AciContainers.Snat

open Net Runs List Option Finmap

/-- The addresses an entry of `SnatIp` stands for. -/
def Denotes (entry : String) (x : IP) : Prop :=
  match parseCIDR entry with
  | some (_, n) => n.contains x = true
  | none =>
    match Net.parseIP entry with
    | some ip => equal ip x = true
    | none => False

instance (entry : String) (x : IP) : Decidable (Denotes entry x) := by
  unfold Denotes
  split
  · infer_instance
  · split <;> infer_instance

/-- The entries of a cached policy. -/
def State.snatIpOf (σ : State) (name : String) : List String :=
  ((σ.snatPolicyCache.lookup name).map ContSnatPolicy.snatIp).getD []

/-- No address belongs to two cached policies. -/
def IpsDisjoint (σ : State) : Prop :=
  ∀ p q, p ≠ q → ∀ a ∈ σ.snatIpOf p, ∀ b ∈ σ.snatIpOf q, ∀ x, ¬ (Denotes a x ∧ Denotes b x)

/-- A single address in IPv4-mapped form, such as `::ffff:10.0.0.8`. -/
def mappedText (entry : String) : Bool :=
  (parseCIDR entry).isNone && bitLen entry.toList = 128 &&
    ((Net.parseIP entry).bind to4).isSome

/-- Other entries are read as blocks that have the addresses they stand for. -/
theorem Denotes.parseIP {entry : String} {x : IP} (h : Denotes entry x) (hplain : mappedText entry = false) :
    ∃ ip n, parseIP entry = some (ip, n) ∧ IsBlock n ∧ n.contains x = true := by
  unfold Denotes at h
  unfold Snat.parseIP
  cases hc : parseCIDR entry with
  | some r =>
    rw [hc] at h
    exact ⟨r.1, r.2, rfl, isBlock_parseCIDR hc, h⟩
  | none =>
    rw [hc] at h
    cases hi : Net.parseIP entry with
    | none =>
      rw [hi] at h
      exact absurd h id
    | some ip =>
      rw [hi] at h
      simp only
      cases h4 : to4 ip with
      | none =>
        obtain ⟨hn, hcontains⟩ := parseCIDR_host6 hi h4
        exact ⟨ip, _, hn, isBlock_parseCIDR hn, hcontains x h⟩
      | some ip4 =>
        have hbits : bitLen entry.toList = 32 := by
          refine (bitLen_eq entry.toList).resolve_right fun hbits => ?_
          exact absurd hplain (by simp [mappedText, hc, hi, h4, hbits])
        obtain ⟨fields, -, -, hn, hcontains⟩ := parseCIDR_host4 hi hbits
        exact ⟨ip, _, hn, isBlock_parseCIDR hn, hcontains x h⟩

/-- Entries that pass the comparison have no address in common. -/
theorem disjoint_of_conflict {name cached incoming : String}
    (h : conflict name cached incoming = some none) (hcached : mappedText cached = false)
    (hincoming : mappedText incoming = false) (x : IP) : ¬ (Denotes cached x ∧ Denotes incoming x) := by
  intro ⟨hc, hi⟩
  obtain ⟨ip1, net1, hp1, hb1, hx1⟩ := hc.parseIP hcached
  obtain ⟨ip2, net2, hp2, hb2, hx2⟩ := hi.parseIP hincoming
  simp only [conflict, hp1, hp2] at h
  split at h
  · simp at h
  · next hcond =>
    have hcond' : net2.contains net1.ip = false ∧ net1.contains net2.ip = false := by
      simpa using hcond
    exact blocks_disjoint hb1 hb2 hcond'.2 hcond'.1 x ⟨hx1, hx2⟩

theorem firstError_pass {α : Type} {test : α → Option (Option String)} {xs : List α}
    (h : firstError test xs = some none) : ∀ x ∈ xs, test x = some none := by
  induction xs with
  | nil => exact fun x hx => absurd hx not_mem_nil
  | cons y ys ih =>
    rw [firstError] at h
    split at h
    · next hy => exact forall_mem_cons.mpr ⟨hy, ih h⟩
    · next hy => exact absurd h hy

/-- A specification that `validateCr` accepts passes the comparison with every other cached
policy. -/
theorem conflict_of_validateCr {σ : State} {order : List String} {name : String}
    {spec : SnatPolicySpec} (h : σ.validateCr order name spec = some none)
    (hlist : ∀ key ∈ σ.snatPolicyCache.keys, key ∈ order) {other : String} (hne : other ≠ name) :
    ∀ val ∈ σ.snatIpOf other, ∀ ip ∈ spec.snatIp, conflict name val ip = some none := by
  intro val hval ip hip
  unfold State.snatIpOf at hval
  cases hl : σ.snatPolicyCache.lookup other with
  | none =>
    rw [hl] at hval
    exact absurd hval not_mem_nil
  | some item =>
    rw [hl] at hval
    have hkey : other ∈ σ.snatPolicyCache.keys :=
      mem_keys.mpr (mem_of_lookup_eq_some hl)
    have hcache : σ.snatPolicyCache.keys ≠ ∅ := Finset.ne_empty_of_mem hkey
    simp only [State.validateCr, if_pos hcache] at h
    split at h
    · next hsnat =>
      have hother := firstError_pass hsnat other (hlist other hkey)
      simp only [hl, if_neg hne.symm, conflicts] at hother
      split at hother
      · simp at hother
      · exact firstError_pass (firstError_pass hother val hval) ip hip
    · next hsnat => exact absurd h hsnat

theorem snatIpOf_of_policies {σ τ : State} (h : τ.snatPolicyCache = σ.snatPolicyCache)
    (name : String) : τ.snatIpOf name = σ.snatIpOf name := by
  unfold State.snatIpOf
  rw [h]

theorem policies_allocate (nodeinfo : NodeInfo) (name : String) (policy : ContSnatPolicy)
    (acc : Allocating) (serviceIp : String) : (acc.allocate nodeinfo name policy serviceIp).state.snatPolicyCache =
      acc.state.snatPolicyCache := by
  unfold Allocating.allocate
  split
  · rfl
  · rfl

theorem policies_policy (nodeinfo : NodeInfo) (acc : Allocating) (name : String) :
    (acc.policy nodeinfo name).state.snatPolicyCache = acc.state.snatPolicyCache := by
  have hloop : ∀ (policy : ContSnatPolicy) (ips : List String) (acc : Allocating),
      (ips.foldl (Allocating.allocate nodeinfo name policy) acc).state.snatPolicyCache =
        acc.state.snatPolicyCache := by
    intro policy ips
    induction ips with
    | nil => exact fun acc => rfl
    | cons ip ips ih => exact fun acc => (ih _).trans (policies_allocate nodeinfo name policy acc ip)
  unfold Allocating.policy
  split
  · rfl
  · next policy _ =>
    split
    · split
      · rfl
      · exact policies_allocate nodeinfo name policy acc ""
    · simp only
      split
      · rfl
      · exact hloop policy _ acc

theorem policies_handleSnatNodeInfo (fails : String → Bool) (order : List String) (nodeinfo : NodeInfo) (σ : State) :
    (σ.handleSnatNodeInfo fails order nodeinfo).1.snatPolicyCache = σ.snatPolicyCache := by
  have hloop : ∀ (names : List String) (acc : Allocating),
      (names.foldl (Allocating.policy nodeinfo) acc).state.snatPolicyCache =
        acc.state.snatPolicyCache := by
    intro names
    induction names with
    | nil => exact fun acc => rfl
    | cons name names ih => exact fun acc => (ih _).trans (policies_policy nodeinfo acc name)
  unfold State.handleSnatNodeInfo
  split
  · exact (shrinks_deleteNodeinfoFromGlInfoCache _ _ _ _ σ).policies
  · have hacc := hloop nodeinfo.snatPolicyNames ⟨σ, [], []⟩
    exact ((shrinks_setSnatPoliciesState _ _ _ _).trans (shrinks_setSnatPoliciesState _ _ _ _)).policies.trans hacc

theorem snatIpOf_insert (σ : State) (key name : String) (policy : ContSnatPolicy) :
    State.snatIpOf { σ with snatPolicyCache := σ.snatPolicyCache.insert key policy } name =
      if name = key then policy.snatIp else σ.snatIpOf name := by
  unfold State.snatIpOf
  by_cases hn : name = key
  · rw [if_pos hn, hn]
    simp only [lookup_insert]
    rfl
  · rw [if_neg hn]
    simp [lookup_insert_of_ne _ hn]

/-- New ports leave the addresses as they are. -/
theorem snatIpOf_reconfigure (config : PortRange × Int) (order : List String) (σ : State)
    (name : String) : (σ.reconfigure config order).snatIpOf name = σ.snatIpOf name := by
  induction order generalizing σ with
  | nil => rfl
  | cons key keys ih =>
    cases hc : configuredPorts config with
    | none =>
      rw [State.reconfigure]
      simp only [hc]
      exact snatIpOf_of_policies (shrinks_clearSnatGlobalCache σ key "").policies name
    | some ports =>
      rw [reconfigure_cons hc, ih]
      unfold State.snatIpOf
      rw [recut_lookup]
      cases σ.snatPolicyCache.lookup name with
      | none => rfl
      | some info =>
        split <;> rfl

theorem snatIpOf_snatPolicyDelete (σ : State) (key name : String) :
    (σ.snatPolicyDelete key).snatIpOf name = if name = key then [] else σ.snatIpOf name := by
  rw [← snatIpOf_of_policies (shrinks_clearSnatGlobalCache σ key "").policies name]
  unfold State.snatPolicyDelete State.snatIpOf
  by_cases hn : name = key
  · rw [if_pos hn, hn]
    simp [lookup_erase, map_none, getD_none]
  · rw [if_neg hn]
    simp [lookup_erase_ne hn]

theorem snatIpOf_updateSnatPolicyCache (configMap : Option ConfigData) (key : String)
    (spec : SnatPolicySpec) (σ : State) (name : String) :
    (σ.updateSnatPolicyCache configMap key spec).snatIpOf name = σ.snatIpOf name ∨
      name = key ∧ (σ.updateSnatPolicyCache configMap key spec).snatIpOf name = spec.snatIp := by
  cases hp : contSnatPolicy configMap spec with
  | none =>
    simp only [State.updateSnatPolicyCache, hp]
    exact .inl rfl
  | some policy =>
    simp only [State.updateSnatPolicyCache, hp]
    simp only [contSnatPolicy, bind_eq_bind, bind_eq_some_iff, some.injEq] at hp
    obtain ⟨ips, -, ports, -, hpol⟩ := hp
    rw [snatIpOf_insert]
    split
    · next hn => exact .inr ⟨hn, by rw [← hpol]⟩
    · exact .inl (snatIpOf_of_policies (shrinks_clearChanged key policy.snatIp σ).policies name)

/-- An event takes entries away from a policy, or it is the handling of that policy with
the status ready. -/
theorem snatIpOf_step (σ : State) (e : Event) (name : String) : (∀ a ∈ (step σ e).snatIpOf name, a ∈ σ.snatIpOf name) ∨
      ∃ fails order configMap spec, e = .handleSnatUpdate name fails order configMap ∧
        σ.snatIndexer name = some ⟨spec, .ready⟩ ∧ (step σ e).snatIpOf name = spec.snatIp := by
  have hsame : ∀ τ : State, τ.snatIpOf name = σ.snatIpOf name →
      ∀ a ∈ τ.snatIpOf name, a ∈ σ.snatIpOf name := fun τ h a ha => h ▸ ha
  unfold step
  split
  · exact .inl fun a ha => ha
  cases e with
  | policyStored key spec => exact .inl (hsame _ rfl)
  | handleSnatUpdate key fails order configMap =>
    simp only [handle, State.handleSnatUpdate]
    cases hp : σ.snatIndexer key with
    | none => exact .inl (hsame _ rfl)
    | some policy =>
      obtain ⟨spec, state⟩ := policy
      cases state with
      | unset =>
        left
        simp only
        split
        · exact hsame _ rfl
        · exact hsame _ (snatIpOf_of_policies (shrinks_setSnatPolicyStatus _ _ _ _).policies name)
        · exact hsame _ (snatIpOf_of_policies (shrinks_setSnatPolicyStatus _ _ _ _).policies name)
      | ready =>
        rcases snatIpOf_updateSnatPolicyCache configMap key spec σ name with h | ⟨rfl, h⟩
        · exact .inl (hsame _ h)
        · exact .inr ⟨fails, order, configMap, spec, rfl, hp, h⟩
      | failed => exact .inl (hsame _ rfl)
      | ipPortsExhausted => exact .inl (hsame _ rfl)
  | snatPolicyDelete key =>
    left
    intro a ha
    simp only [handle] at ha
    rw [snatIpOf_snatPolicyDelete] at ha
    split at ha
    · exact absurd ha not_mem_nil
    · exact ha
  | servicesStored services => exact .inl (hsame _ rfl)
  | snatNodeInfoAdded nodeinfo => exact .inl (hsame _ rfl)
  | snatNodeInfoUpdated old new fails =>
    left
    simp only [handle, State.snatNodeInfoUpdated]
    split
    · exact hsame _ rfl
    · exact hsame _ (snatIpOf_of_policies (shrinks_updateSnatIpandPorts _ _ _ _ σ).policies name)
  | snatNodeInfoDeleted nodeinfo fails order =>
    exact .inl (hsame _ (snatIpOf_of_policies (policies_handleSnatNodeInfo fails order nodeinfo _) name))
  | handleSnatNodeInfo nodeinfo fails order =>
    exact .inl (hsame _ (snatIpOf_of_policies (policies_handleSnatNodeInfo fails order nodeinfo σ) name))
  | snatCfgUpdate oldData newData order =>
    left
    simp only [handle, State.snatCfgUpdate]
    split
    · exact hsame _ rfl
    · split
      · exact hsame _ rfl
      · exact hsame _ (snatIpOf_reconfigure _ order σ name)

/-- A ready policy that brings new addresses still passes the comparison with the other
policies cached at that moment, and has no single address in IPv4-mapped form. -/
def Validated (σ : State) : Event → Prop
  | .handleSnatUpdate name _ _ _ =>
    ∀ spec, σ.snatIndexer name = some ⟨spec, .ready⟩ → spec.snatIp ≠ σ.snatIpOf name →
      (∀ ip ∈ spec.snatIp, mappedText ip = false) ∧
      ∀ other, other ≠ name → ∀ val ∈ σ.snatIpOf other, ∀ ip ∈ spec.snatIp,
        conflict name val ip = some none
  | _ => True

/-- A policy that waits for its validation is not cached by its handling. -/
theorem validated_of_unset {σ : State} {name : String} {spec : SnatPolicySpec}
    (h : σ.snatIndexer name = some ⟨spec, .unset⟩) (fails : String → Bool) (order : List String)
    (configMap : Option ConfigData) : Validated σ (.handleSnatUpdate name fails order configMap) := by
  intro spec' h'
  rw [h] at h'
  exact absurd (SnatPolicy.mk.inj (some.inj h')).2 (by decide)

/-- It is enough that `validateCr` accepts the policy again when it is cached. -/
theorem validated_of_validateCr {σ : State} {name : String} {spec : SnatPolicySpec}
    {order : List String} (h : σ.snatIndexer name = some ⟨spec, .ready⟩)
    (hplain : ∀ ip ∈ spec.snatIp, mappedText ip = false) (hlist : ∀ key ∈ σ.snatPolicyCache.keys, key ∈ order)
    (hvalid : σ.validateCr order name spec = some none) (fails : String → Bool) (configMap : Option ConfigData) :
    Validated σ (.handleSnatUpdate name fails order configMap) := by
  intro spec' h' _
  rw [h] at h'
  rw [← (SnatPolicy.mk.inj (some.inj h')).1]
  exact ⟨hplain, fun other hne => conflict_of_validateCr hvalid hlist hne⟩

structure Separate (σ : State) : Prop where
  plain : ∀ name, ∀ a ∈ σ.snatIpOf name, mappedText a = false
  disjoint : IpsDisjoint σ

theorem separate_start : Separate start where
  plain name a ha := absurd ha (by simp [State.snatIpOf, start])
  disjoint p q _ a ha := absurd ha (by simp [State.snatIpOf, start])

/-- What an event leaves in the entries of a policy: old entries, or compared ones. -/
theorem Separate.step_cases {σ : State} {e : Event} (he : Validated σ e) (name : String) :
    (∀ a ∈ (step σ e).snatIpOf name, a ∈ σ.snatIpOf name) ∨
      (∃ fails order configMap, e = .handleSnatUpdate name fails order configMap) ∧
      (∀ a ∈ (step σ e).snatIpOf name, mappedText a = false) ∧
      ∀ other, other ≠ name → ∀ val ∈ σ.snatIpOf other, ∀ a ∈ (step σ e).snatIpOf name,
        conflict name val a = some none := by
  rcases snatIpOf_step σ e name with h | ⟨fails, order, configMap, spec, rfl, hp, hips⟩
  · exact .inl h
  · by_cases hsame : spec.snatIp = σ.snatIpOf name
    · left
      rw [hips, hsame]
      exact fun a ha => ha
    · right
      rw [hips]
      exact ⟨⟨fails, order, configMap, rfl⟩, he spec hp hsame⟩

theorem separate_step (σ : State) (e : Event) (h : Separate σ) (he : Validated σ e) : Separate (step σ e) := by
  have hplain : ∀ name, ∀ a ∈ (step σ e).snatIpOf name, mappedText a = false := by
    intro name a ha
    rcases Separate.step_cases he name with hold | ⟨-, hnew, -⟩
    · exact h.plain name a (hold a ha)
    · exact hnew a ha
  refine ⟨hplain, ?_⟩
  intro p q hpq a ha b hb x
  rcases Separate.step_cases he p with hp | ⟨⟨f, o, c, hep⟩, -, hp⟩
  · rcases Separate.step_cases he q with hq | ⟨-, -, hq⟩
    · exact h.disjoint p q hpq a (hp a ha) b (hq b hb) x
    · exact disjoint_of_conflict (hq p hpq a (hp a ha) b hb) (hplain p a ha) (hplain q b hb) x
  · rcases Separate.step_cases he q with hq | ⟨⟨f', o', c', heq⟩, -, -⟩
    · intro ⟨hxa, hxb⟩
      exact disjoint_of_conflict (hp q hpq.symm b (hq b hb) a ha) (hplain q b hb) (hplain p a ha) x
        ⟨hxb, hxa⟩
    · rw [hep] at heq
      exact absurd (Event.handleSnatUpdate.inj heq).1 hpq

/-- In every run in which the policies are still valid when they are cached, at every point
no address belongs to two cached policies. -/
theorem ipsDisjoint_of_validated (events : List Event) (h : Along step Validated start events) (k : Nat) :
    IpsDisjoint (run step start (events.take k)) :=
  (@invariant_take _ _ step Validated Separate separate_step start events separate_start h k).disjoint

def specOf (snatIp : List String) : SnatPolicySpec := ⟨snatIp, ⟨[("app", "web")], ""⟩, []⟩

/-- The policy is stored, validated and cached. -/
def policyTaken (name : String) (snatIp order : List String) : List Event :=
  [.policyStored name (specOf snatIp), .handleSnatUpdate name written order none,
    .handleSnatUpdate name written order none]

/-- Two policies with addresses of their own, cached one after the other. -/
theorem ipsDisjoint_two_policies :
    let events := policyTaken "web" ["10.0.0.8/30"] [] ++ policyTaken "db" ["10.0.0.12"] ["web"]
    Along step Validated start events ∧ IpsDisjoint (run step start (events.take 6)) := by
  intro events
  have hok : Along step Validated start events := by
    refine ⟨trivial, ?_, ?_, trivial, ?_, ?_, trivial⟩
    · exact @validated_of_unset _ _ (specOf ["10.0.0.8/30"]) (by decide) _ _ _
    · exact @validated_of_validateCr _ _ (specOf ["10.0.0.8/30"]) _ (by decide) (by decide)
        (by decide) (by decide) _ _
    · exact @validated_of_unset _ _ (specOf ["10.0.0.12"]) (by decide) _ _ _
    · exact @validated_of_validateCr _ _ (specOf ["10.0.0.12"]) _ (by decide) (by decide)
        (by decide) (by decide) _ _
  exact ⟨hok, ipsDisjoint_of_validated events hok 6⟩

/-- A policy that changes its address to that of another one is cached again as it is. -/
theorem ipsDisjoint_fails :
    let events := policyTaken "web" ["10.0.0.8"] [] ++ policyTaken "db" ["10.0.0.9"] ["web"] ++
      [.policyStored "db" (specOf ["10.0.0.8"]), .handleSnatUpdate "db" written ["web", "db"] none]
    ¬ IpsDisjoint (run step start events) := by
  intro events h
  have hweb : (run step start events).snatIpOf "web" = ["10.0.0.8"] := by decide
  have hdb : (run step start events).snatIpOf "db" = ["10.0.0.8"] := by decide
  refine h "web" "db" (by decide) "10.0.0.8" (by rw [hweb]; exact mem_cons_self) "10.0.0.8"
    (by rw [hdb]; exact mem_cons_self) [10, 0, 0, 8] ?_
  exact ⟨by decide, by decide⟩

/-!
# What a validated SNAT policy is good for

Where the cache has policies but none of the others lists an address, `validateCr` does not read
the SNAT addresses of a policy at all. And an IPv4 address in IPv6 form gets `/32` behind it.
Apart from these two cases an accepted policy has entries that can be read and that share no
address with another cached policy.
-/

open Bytes

variable {ip x : IP} {entry name a b cached incoming : String}

/-- An entry that is an address or a CIDR block. -/
def Parses (entry : String) : Prop := (parseCIDR entry).isSome ∨ (Net.parseIP entry).isSome

instance (entry : String) : Decidable (Parses entry) := inferInstanceAs (Decidable (_ ∨ _))

/-- What the text of an IPv4 address in IPv6 form is read as. -/
def mappedNet : IPNet := ⟨replicate 16 0, cidrMaskBytes 16 32⟩

theorem eq_mapped_of_to4 (hlen : ip.length = 16) (h4 : (to4 ip).isSome) : ∃ a b c d, ip = mapped a b c d := by
  have htake : ip.take 12 = v4InV6Prefix := by
    by_contra hne
    simp [to4, hlen, hne] at h4
  have hdrop : (ip.drop 12).length = 4 := by simp [hlen]
  obtain ⟨a, b, c, d, habcd⟩ : ∃ a b c d, ip.drop 12 = [a, b, c, d] := length_eq_four.mp hdrop
  exact ⟨a, b, c, d, by rw [mapped, ← htake, ← habcd, take_append_drop]⟩

theorem mask_mapped (hlen : ip.length = 16) (h4 : (to4 ip).isSome) :
    mask ip (cidrMaskBytes 16 32) = some (replicate 16 0) := by
  obtain ⟨a, b, c, d, rfl⟩ := eq_mapped_of_to4 hlen h4
  rw [mask_v6 hlen]
  have hlow : ~~~ (255 : UInt8) = 0 := by decide
  simp [mapped, v4InV6Prefix, cidrMaskBytes, replicate, hlow]

theorem parseCIDR_mapped {s : String} (h : Net.parseIP s = some ip) (hbits : bitLen s.toList = 128)
    (h4 : (to4 ip).isSome) : parseCIDR (s ++ "/32") = some (ip, mappedNet) := by
  have hp := @parseCIDR_append s ip (replicate 16 0) (cidrMaskBytes 16 32) "32" 32 h (by decide)
    (by rw [hbits]; rfl) (mask_mapped (length_parseIPChars h) h4)
  rwa [String.append_assoc] at hp

/-- The entries that are read are those that are addresses or blocks. -/
theorem parses_iff (entry : String) : Parses entry ↔ (parseIP entry).isSome := by
  unfold Parses parseIP
  cases hc : parseCIDR entry with
  | some r => simp
  | none =>
    cases hi : Net.parseIP entry with
    | none => simp
    | some ip =>
      simp only [isSome_none, Bool.false_eq_true, isSome_some, or_true, true_iff]
      cases h4 : to4 ip with
      | none =>
        obtain ⟨hn, -⟩ := parseCIDR_host6 hi h4
        simp [hn]
      | some ip4 =>
        rcases bitLen_eq entry.toList with hbits | hbits
        · obtain ⟨fields, -, -, hn, -⟩ := parseCIDR_host4 hi hbits
          simp [hn]
        · simp [parseCIDR_mapped hi hbits (by simp [h4])]

theorem parseCIDR_of_mappedText (h : mappedText entry) : parseCIDR entry = none := by
  simp only [mappedText, Bool.and_eq_true, isNone_iff_eq_none] at h
  exact h.1.1

theorem parseIP_of_mappedText (h : mappedText entry) :
    ∃ ip, Net.parseIP entry = some ip ∧ parseIP entry = some (ip, mappedNet) := by
  simp only [mappedText, Bool.and_eq_true, isNone_iff_eq_none, decide_eq_true_eq] at h
  obtain ⟨⟨hc, hbits⟩, h4⟩ := h
  cases hi : Net.parseIP entry with
  | none => simp [hi] at h4
  | some ip =>
    rw [hi, bind_some] at h4
    exact ⟨ip, rfl, by simp [parseIP, hc, hi, h4, parseCIDR_mapped hi hbits h4]⟩

/-- Two of them never pass the comparison. -/
theorem conflict_of_mappedText (ha : mappedText a) (hb : mappedText b) : conflict name a b ≠ some none := by
  obtain ⟨ipa, -, hpa⟩ := parseIP_of_mappedText ha
  obtain ⟨ipb, -, hpb⟩ := parseIP_of_mappedText hb
  have hself : mappedNet.contains mappedNet.ip = true := by decide
  simp [conflict, hpa, hpb, hself]

theorem to4_of_length (hlen : ip.length = 16) :
    (to4 ip).getD ip = if ip.take 12 = v4InV6Prefix then ip.drop 12 else ip := by
  by_cases h : ip.take 12 = v4InV6Prefix <;> simp [to4, hlen, h]

/-- The shortest form of an address of sixteen bytes tells which one it is. -/
theorem shortest_inj (hlen : ip.length = 16) (hx : x.length = 16) (h : (to4 ip).getD ip = (to4 x).getD x) : ip = x := by
  rw [to4_of_length hlen, to4_of_length hx] at h
  have hlength := congrArg length h
  split at h
  · next hip =>
    split at h
    · next hx' => rw [← take_append_drop 12 ip, ← take_append_drop 12 x, hip, hx', h]
    · next hx' => simp [hip, hx', hlen, hx] at hlength
  · next hip =>
    split at h
    · next hx' => simp [hip, hx', hlen, hx] at hlength
    · exact h

theorem contains_congr (n : IPNet) {y : IP} (h : (to4 x).getD x = (to4 y).getD y) : n.contains x = n.contains y := by
  simp [IPNet.contains, h]

/-- An entry that stands for an address stands for every other form of it. -/
theorem Denotes.of_equal (h : Denotes entry x) (hlen : ip.length = 16) (heq : equal ip x) : Denotes entry ip := by
  have hform := to4_getD_of_equal hlen heq
  unfold Denotes at h ⊢
  cases hc : parseCIDR entry with
  | some r =>
    simp only [hc] at h ⊢
    rwa [← contains_congr r.2 hform]
  | none =>
    simp only [hc] at h ⊢
    cases hi : Net.parseIP entry with
    | none => simp [hi] at h
    | some ip' =>
      simp only [hi] at h ⊢
      have hlen' : ip'.length = 16 := length_parseIPChars hi
      have hsame : ip' = ip := shortest_inj hlen' hlen ((to4_getD_of_equal hlen' h).symm.trans hform)
      rw [hsame, equal_iff rfl]

/-- A single address in IPv6 form that the other entry has too. -/
def MappedClash (a b : String) : Prop :=
  mappedText a = true ∧ mappedText b = false ∧ ∃ ip, Net.parseIP a = some ip ∧ Denotes b ip

theorem MappedClash.common (h : MappedClash a b) : ∃ x, Denotes a x ∧ Denotes b x := by
  obtain ⟨ha, -, ip, hip, hb⟩ := h
  refine ⟨ip, ?_, hb⟩
  simp [Denotes, parseCIDR_of_mappedText ha, hip, equal]

theorem mappedClash_of_common (ha : mappedText a) (hb : mappedText b = false) (hxa : Denotes a x)
    (hxb : Denotes b x) : MappedClash a b := by
  obtain ⟨ip, hip, -⟩ := parseIP_of_mappedText ha
  simp only [Denotes, parseCIDR_of_mappedText ha, hip] at hxa
  exact ⟨ha, hb, ip, hip, hxb.of_equal (length_parseIPChars hip) hxa⟩

/-- Entries that pass the comparison share an address exactly if one of them is a single
address in IPv6 form that the other one has. -/
theorem common_iff_of_conflict (h : conflict name cached incoming = some none) :
    (∃ x, Denotes cached x ∧ Denotes incoming x) ↔ MappedClash cached incoming ∨ MappedClash incoming cached := by
  constructor
  · rintro ⟨x, hc, hi⟩
    cases hmc : mappedText cached with
    | true =>
      cases hmi : mappedText incoming with
      | true => exact absurd h (conflict_of_mappedText hmc hmi)
      | false => exact .inl (mappedClash_of_common hmc hmi hc hi)
    | false =>
      cases hmi : mappedText incoming with
      | true => exact .inr (mappedClash_of_common hmi hmc hi hc)
      | false => exact absurd ⟨hc, hi⟩ (disjoint_of_conflict h hmc hmi x)
  · rintro (hclash | hclash)
    · exact hclash.common
    · obtain ⟨x, hi, hc⟩ := hclash.common
      exact ⟨x, hc, hi⟩

/-- The entries of the policy can be read, and its addresses are those of no other cached
policy. -/
structure Valid (σ : State) (name : String) (spec : SnatPolicySpec) : Prop where
  snatIp : ∀ ip ∈ spec.snatIp, Parses ip
  destIp : ∀ ip ∈ spec.destIp, Parses ip
  disjoint : ∀ other, other ≠ name → ∀ a ∈ σ.snatIpOf other, ∀ b ∈ spec.snatIp, ∀ x,
    ¬ (Denotes a x ∧ Denotes b x)

/-- There are cached policies, but none with an address to compare an unreadable entry
with. -/
def Unchecked (σ : State) (name : String) (spec : SnatPolicySpec) : Prop :=
  σ.snatPolicyCache.keys ≠ ∅ ∧ (∀ other, other ≠ name → σ.snatIpOf other = []) ∧
    ∃ ip ∈ spec.snatIp, ¬ Parses ip

theorem parses_of_invalidIp {what ip : String} (h : invalidIp what ip = some none) : Parses ip := by
  rw [parses_iff]
  by_contra hnone
  rw [not_isSome_iff_eq_none] at hnone
  simp [invalidIp, hnone] at h

theorem parses_of_conflict (h : conflict name cached incoming = some none) : Parses incoming := by
  rw [parses_iff]
  by_contra hnone
  rw [not_isSome_iff_eq_none] at hnone
  simp [conflict, hnone] at h

/-- The two halves of `validateCr`. -/
theorem validateCr_parts {σ : State} {order : List String} {spec : SnatPolicySpec}
    (h : σ.validateCr order name spec = some none) :
    (σ.snatPolicyCache.keys = ∅ → ∀ ip ∈ spec.snatIp, Parses ip) ∧ ∀ ip ∈ spec.destIp, Parses ip := by
  simp only [State.validateCr] at h
  split at h
  · next hsnat =>
    refine ⟨fun hempty ip hip => ?_, fun ip hip => parses_of_invalidIp (firstError_pass h ip hip)⟩
    rw [if_neg (not_not.mpr hempty)] at hsnat
    exact parses_of_invalidIp (firstError_pass hsnat ip hip)
  · next hsnat => exact absurd h hsnat

/-- A policy that `validateCr` accepts is valid exactly if its entries were read and no single
address in IPv6 form is shared. -/
theorem validateCr_valid_iff (σ : State) (order : List String) (name : String) (spec : SnatPolicySpec)
    (hlist : ∀ key ∈ σ.snatPolicyCache.keys, key ∈ order) (h : σ.validateCr order name spec = some none) :
    Valid σ name spec ↔ ¬ Unchecked σ name spec ∧ ∀ other, other ≠ name → ∀ a ∈ σ.snatIpOf other, ∀ b ∈ spec.snatIp,
        ¬ MappedClash a b ∧ ¬ MappedClash b a := by
  obtain ⟨hempty, hdest⟩ := validateCr_parts h
  have hpass : ∀ other, other ≠ name → ∀ a ∈ σ.snatIpOf other, ∀ b ∈ spec.snatIp,
      conflict name a b = some none := fun other hne => conflict_of_validateCr h hlist hne
  have hcommon : ∀ other, other ≠ name → ∀ a ∈ σ.snatIpOf other, ∀ b ∈ spec.snatIp,
      ((∀ x, ¬ (Denotes a x ∧ Denotes b x)) ↔ ¬ MappedClash a b ∧ ¬ MappedClash b a) := by
    intro other hne a ha b hb
    rw [← not_or, ← common_iff_of_conflict (hpass other hne a ha b hb), not_exists]
  constructor
  · intro hvalid
    refine ⟨?_, fun other hne a ha b hb =>
      (hcommon other hne a ha b hb).mp (hvalid.disjoint other hne a ha b hb)⟩
    rintro ⟨-, -, ip, hip, hbad⟩
    exact hbad (hvalid.snatIp ip hip)
  · rintro ⟨hread, hclash⟩
    refine ⟨fun ip hip => ?_, hdest, fun other hne a ha b hb =>
      (hcommon other hne a ha b hb).mpr (hclash other hne a ha b hb)⟩
    by_contra hbad
    have hkeys : σ.snatPolicyCache.keys ≠ ∅ := fun he => hbad (hempty he ip hip)
    refine hread ⟨hkeys, fun other hne => ?_, ip, hip, hbad⟩
    -- an address of another policy would have had the entry read
    by_contra hsome
    obtain ⟨a, ha⟩ := exists_mem_of_ne_nil _ hsome
    exact hbad (parses_of_conflict (hpass other hne a ha ip hip))

/-- A policy is validated against another one that lists an address. -/
theorem validateCr_valid_second :
    let σ := run step start (policyTaken "web" ["10.0.0.8/30"] [])
    σ.validateCr ["web"] "db" (specOf ["10.0.0.12"]) = some none ∧ Valid σ "db" (specOf ["10.0.0.12"]) := by
  intro σ
  have hpass : σ.validateCr ["web"] "db" (specOf ["10.0.0.12"]) = some none := by decide
  have hweb : σ.snatIpOf "web" = ["10.0.0.8/30"] := by decide
  have hkeys : σ.snatPolicyCache.keys = {"web"} := by decide
  refine ⟨hpass, (validateCr_valid_iff σ ["web"] "db" (specOf ["10.0.0.12"]) (by rw [hkeys]; simp) hpass).mpr
    ⟨?_, ?_⟩⟩
  · rintro ⟨-, hnone, -⟩
    exact absurd (hweb.symm.trans (hnone "web" (by decide))) (by simp)
  · intro other hne a ha b hb
    have hother : other = "web" := by
      by_contra hno
      have hl : σ.snatPolicyCache.lookup other = none := by
        rw [Finmap.lookup_eq_none, ← Finmap.mem_keys, hkeys]
        simpa using hno
      simp [State.snatIpOf, hl] at ha
    rw [hother, hweb, List.mem_singleton] at ha
    rw [mem_singleton.mp hb, ha]
    exact ⟨fun hclash => absurd hclash.1 (by decide), fun hclash => absurd hclash.1 (by decide)⟩

/-- The only cached policy is for services. An address that is none is accepted. -/
theorem validateCr_valid_fails :
    let σ := run step start (policyTaken "web" [] [])
    σ.validateCr ["web"] "db" (specOf ["10.0.0.300"]) = some none ∧ ¬ Valid σ "db" (specOf ["10.0.0.300"]) := by
  refine ⟨by decide, fun h => ?_⟩
  exact absurd (h.snatIp "10.0.0.300" (by decide)) (by decide)

end AciContainers.Snat
