import AciContainers.HostSnat

/-!
# The two directions of the SNAT index

`bits` and `listed` read the two maps of the agent: the resources through which a policy is
on a pod, and the policies of a pod at a resource. Each operation on the maps is described by
what it does to the two.
-/
namespace AciContainers.HostSnat

open Maps Index Outcomes List

variable {res : Finset Resource} {uid : String} {a b agent : Agent} {β : Type} {name : String}

def Agent.listed (agent : Agent) (uid : String) (r : Resource) : List String :=
  match agent.opflexSnatLocalInfos uid with
  | none => []
  | some localinfo => localinfo.snatPolicies r

def Agent.bits (agent : Agent) (name uid : String) : Finset Resource :=
  ((agent.policyPods name).lookup uid).getD ∅

/-- The addresses in the endpoint file of a pod. -/
def Agent.uuids (agent : Agent) (uid : String) : List String :=
  match agent.opflexSnatLocalInfos uid with
  | none => []
  | some localinfo => localinfo.plcyUuids

theorem listed_of_infos (h : b.opflexSnatLocalInfos uid = a.opflexSnatLocalInfos uid) (r : Resource) :
    b.listed uid r = a.listed uid r := by
  unfold Agent.listed
  rw [h]

theorem bits_of_pods (h : b.snatPods = a.snatPods) (name : String) : b.bits name uid = a.bits name uid := by
  unfold Agent.bits Agent.policyPods
  rw [h]

theorem lookup_insert_getD (m : Finmap fun _ : String => β) (k k' : String) (v d : β) :
    ((m.insert k v).lookup k').getD d = if k' = k then v else (m.lookup k').getD d := by
  by_cases hk : k' = k
  · subst hk
    simp
  · rw [if_neg hk, Finmap.lookup_insert_of_ne _ hk]

theorem lookup_erase_getD (m : Finmap fun _ : String => β) (k k' : String) (d : β) :
    ((m.erase k).lookup k').getD d = if k' = k then d else (m.lookup k').getD d := by
  by_cases hk : k' = k
  · subst hk
    simp
  · rw [if_neg hk, Finmap.lookup_erase_ne hk]

theorem bits_insert (agent : Agent) (name p : String) (pods : PolicyPods) :
    { agent with snatPods := agent.snatPods.insert name pods }.bits p uid =
      if p = name then (pods.lookup uid).getD ∅ else agent.bits p uid := by
  simp only [Agent.bits, Agent.policyPods, lookup_insert_getD]
  by_cases hp : p = name <;> simp [hp]

theorem bits_erase (agent : Agent) (name p : String) :
    { agent with snatPods := agent.snatPods.erase name }.bits p uid = if p = name then ∅ else agent.bits p uid := by
  simp only [Agent.bits, Agent.policyPods, lookup_erase_getD]
  by_cases hp : p = name <;> simp [hp]

theorem bits_of_lookup {pods : PolicyPods} (h : agent.snatPods.lookup name = some pods) :
    agent.bits name uid = (pods.lookup uid).getD ∅ := by
  simp [Agent.bits, Agent.policyPods, h]

theorem bits_of_lookup_none (h : agent.snatPods.lookup name = none) (uid : String) : agent.bits name uid = ∅ := by
  simp [Agent.bits, Agent.policyPods, h]

theorem bits_setBit (agent : Agent) (name p u : String) (res : Resource) : (agent.setBit name uid res).bits p u =
      if p = name ∧ u = uid then insert res (agent.bits p u) else agent.bits p u := by
  unfold Agent.setBit
  rw [bits_insert, lookup_insert_getD]
  by_cases hp : p = name
  · subst hp
    by_cases hu : u = uid
    · subst hu
      simp [Agent.bits, Agent.policyPods]
    · simp [hu, Agent.bits, Agent.policyPods]
  · simp [hp]

theorem bits_clearBits (agent : Agent) (name p u : String) : (agent.clearBits name uid res).bits p u =
      if p = name ∧ u = uid then agent.bits p u \ res else agent.bits p u := by
  unfold Agent.clearBits
  cases hpods : agent.snatPods.lookup name with
  | none =>
    by_cases hp : p = name
    · simp [hp, bits_of_lookup_none hpods]
    · simp [hp]
  | some pods =>
    cases hbits : pods.lookup uid with
    | none =>
      simp only [hbits]
      by_cases hp : p = name ∧ u = uid
      · obtain ⟨rfl, rfl⟩ := hp
        simp [bits_of_lookup hpods, hbits]
      · rw [if_neg hp]
    | some bits =>
      have hname : ∀ pods' : PolicyPods, pods'.lookup uid = some (bits \ res) ∨
          (bits \ res = ∅ ∧ pods'.lookup uid = none) →
          (∀ v, v ≠ uid → pods'.lookup v = pods.lookup v) →
          (if p = name then (pods'.lookup u).getD ∅ else agent.bits p u) =
            if p = name ∧ u = uid then agent.bits p u \ res else agent.bits p u := by
        intro pods' hat hother
        by_cases hp : p = name
        · subst hp
          rw [bits_of_lookup hpods]
          by_cases hu : u = uid
          · subst hu
            rcases hat with hat | ⟨hempty, hat⟩
            · simp [hat, hbits]
            · simp [hat, hbits, hempty]
          · simp [hu, hother u hu]
        · simp [hp]
      simp only [hbits]
      by_cases hempty : bits \ res = ∅
      · have hat : (pods.erase uid).lookup uid = none := by simp
        have hother : ∀ v, v ≠ uid → (pods.erase uid).lookup v = pods.lookup v :=
          fun v hv => Finmap.lookup_erase_ne hv
        by_cases hlast : pods.erase uid = ∅
        · simp only [hempty, hlast, if_true, bits_erase]
          rw [hlast] at hat hother
          rw [← hname ∅ (.inr ⟨hempty, hat⟩) hother]
          simp
        · simp only [hempty, hlast, if_true, if_false, bits_insert]
          exact hname (pods.erase uid) (.inr ⟨hempty, hat⟩) hother
      · simp only [hempty, if_false, bits_insert]
        refine hname (pods.insert uid (bits \ res)) (.inl (by simp)) ?_
        exact fun v hv => Finmap.lookup_insert_of_ne _ hv

@[simp] theorem infos_setBit (agent : Agent) (name : String) (res : Resource) :
    (agent.setBit name uid res).opflexSnatLocalInfos = agent.opflexSnatLocalInfos := rfl

@[simp] theorem infos_clearBits (agent : Agent) (name : String) :
    (agent.clearBits name uid res).opflexSnatLocalInfos = agent.opflexSnatLocalInfos := by
  unfold Agent.clearBits
  split
  · rfl
  · split
    · rfl
    · split
      · split <;> rfl
      · rfl

/-- What no operation on the two maps touches. -/
structure SameRest (a b : Agent) : Prop where
  cache : b.snatPolicyCache = a.snatPolicyCache
  infos : b.opflexSnatGlobalInfos = a.opflexSnatGlobalInfos

theorem SameRest.refl (a : Agent) : SameRest a a := ⟨rfl, rfl⟩

theorem SameRest.trans {c : Agent} (h : SameRest a b) (h' : SameRest b c) : SameRest a c :=
  ⟨h'.cache.trans h.cache, h'.infos.trans h.infos⟩

theorem sameRest_clearBits (agent : Agent) (name : String) : SameRest agent (agent.clearBits name uid res) := by
  unfold Agent.clearBits
  split
  · exact SameRest.refl _
  · split
    · exact SameRest.refl _
    · split
      · split <;> exact ⟨rfl, rfl⟩
      · exact ⟨rfl, rfl⟩

section ApplyOne

variable (res : Resource) (name : String) (agent : Agent) (uid : String)

theorem sameRest_applyOne : SameRest agent (applyOne res name agent uid) := by
  unfold applyOne
  split
  · exact ⟨rfl, rfl⟩
  · split <;> exact ⟨rfl, rfl⟩

theorem mem_listed_applyOne (p u : String) (r : Resource) : p ∈ (applyOne res name agent uid).listed u r ↔
      p ∈ agent.listed u r ∨ p = name ∧ u = uid ∧ r = res := by
  unfold applyOne
  cases hinfo : agent.opflexSnatLocalInfos uid with
  | none =>
    by_cases hu : u = uid
    · subst hu
      by_cases hr : r = res <;> simp [Agent.listed, hinfo, hr]
    · simp [Agent.listed, hu, put_other _ _ hu]
  | some localinfo =>
    by_cases hin : name ∈ localinfo.snatPolicies res
    · simp only [hin, if_true]
      refine ⟨.inl, ?_⟩
      rintro (h | ⟨rfl, rfl, rfl⟩)
      · exact h
      · simpa [Agent.listed, hinfo] using hin
    · by_cases hu : u = uid
      · subst hu
        by_cases hr : r = res <;> simp [Agent.listed, hinfo, hin, hr]
      · simp [Agent.listed, hin, hu, put_other _ _ hu]

/-- The bit is set unless the policy is listed, and then it stays. -/
theorem mem_bits_applyOne (h : name ∈ agent.listed uid res → res ∈ agent.bits name uid)
    (p u : String) (r : Resource) : r ∈ (applyOne res name agent uid).bits p u ↔
      r ∈ agent.bits p u ∨ p = name ∧ u = uid ∧ r = res := by
  have hset : ∀ b : Agent, b.snatPods = agent.snatPods →
      (r ∈ (b.setBit name uid res).bits p u ↔ r ∈ agent.bits p u ∨ p = name ∧ u = uid ∧ r = res) := by
    intro b hb
    rw [bits_setBit, bits_of_pods hb]
    by_cases hp : p = name ∧ u = uid
    · rw [if_pos hp, Finset.mem_insert]
      tauto
    · rw [if_neg hp]
      tauto
  unfold applyOne
  cases hinfo : agent.opflexSnatLocalInfos uid with
  | none => exact hset _ rfl
  | some localinfo =>
    by_cases hin : name ∈ localinfo.snatPolicies res
    · simp only [hin, if_true]
      refine ⟨.inl, ?_⟩
      rintro (hr | ⟨rfl, rfl, rfl⟩)
      · exact hr
      · exact h (by simpa [Agent.listed, hinfo] using hin)
    · simp only [hin, if_false]
      exact hset _ rfl

theorem uuids_applyOne (u : String) : (applyOne res name agent uid).uuids u = agent.uuids u := by
  unfold applyOne
  cases hinfo : agent.opflexSnatLocalInfos uid with
  | none =>
    by_cases hu : u = uid
    · subst hu
      simp [Agent.uuids, hinfo]
    · simp [Agent.uuids, put_other _ _ hu]
  | some localinfo =>
    by_cases hin : name ∈ localinfo.snatPolicies res
    · simp [hin]
    · by_cases hu : u = uid
      · subst hu
        simp [Agent.uuids, hinfo, hin]
      · simp [Agent.uuids, hin, put_other _ _ hu]

end ApplyOne

variable {a b : Agent} {r : Resource} {cfg : Config}

/-- What taking a policy off a pod with a local info leaves, for the resources that are
through. -/
structure Cleared (uid : String) (res : Finset Resource) (name : String) (rs : List Resource)
    (a b : Agent) : Prop where
  rest : SameRest a b
  present : ∀ u, (b.opflexSnatLocalInfos u).isSome = (a.opflexSnatLocalInfos u).isSome
  listed : ∀ p u r, p ∈ b.listed u r ↔ p ∈ a.listed u r ∧ ¬ (p = name ∧ u = uid ∧ r ∈ rs)
  bits : ∀ p u r, r ∈ b.bits p u ↔ r ∈ a.bits p u ∧ ¬ (rs ≠ [] ∧ p = name ∧ u = uid ∧ r ∈ res)
  uuids : ∀ u, b.uuids u = a.uuids u

theorem Cleared.nil (uid : String) (res : Finset Resource) (name : String) (a : Agent) :
    Cleared uid res name [] a a where
  rest := SameRest.refl a
  present := fun _ => rfl
  listed := by simp
  bits := by simp
  uuids := fun _ => rfl

theorem cleared_clearResource {uid : String} {res : Finset Resource} {name : String} {a : Agent}
    (h : (a.opflexSnatLocalInfos uid).isSome) (i : Resource) :
    Cleared uid res name [i] a (clearResource uid res name a i) := by
  obtain ⟨localinfo, hinfo⟩ := Option.isSome_iff_exists.mp h
  let filtered : OpflexSnatLocalInfo := { localinfo with
    snatPolicies := fun r =>
      if r = i then (localinfo.snatPolicies r).filter fun p => p ≠ name
      else localinfo.snatPolicies r }
  let mid : Agent := { a with opflexSnatLocalInfos := a.opflexSnatLocalInfos.put uid filtered }
  have hmid : clearResource uid res name a i = mid.clearBits name uid res := by
    simp only [clearResource, hinfo]
    rfl
  have hinfos : (mid.clearBits name uid res).opflexSnatLocalInfos =
      a.opflexSnatLocalInfos.put uid filtered := infos_clearBits mid name
  rw [hmid]
  refine ⟨?_, ?_, ?_, ?_, ?_⟩
  · have hstart : SameRest a mid := ⟨rfl, rfl⟩
    exact hstart.trans (sameRest_clearBits mid name)
  · intro u
    rw [hinfos]
    by_cases hu : u = uid
    · subst hu
      simp [hinfo]
    · simp [put_other _ _ hu]
  · intro p u r
    unfold Agent.listed
    rw [hinfos]
    by_cases hu : u = uid
    · subst hu
      by_cases hr : r = i <;> simp [filtered, hinfo, hr]
    · simp [hu, put_other _ _ hu]
  · intro p u r
    rw [bits_clearBits, bits_of_pods (show mid.snatPods = a.snatPods from rfl)]
    by_cases hp : p = name ∧ u = uid
    · simp [hp]
    · rw [if_neg hp]
      have hno : ¬ (p = name ∧ u = uid ∧ r ∈ res) := fun h => hp ⟨h.1, h.2.1⟩
      simp [hno]
  · intro u
    unfold Agent.uuids
    rw [hinfos]
    by_cases hu : u = uid
    · subst hu
      simp [filtered, hinfo]
    · simp [put_other _ _ hu]

theorem Cleared.cons {uid : String} {res : Finset Resource} {name : String} {i : Resource}
    {rs : List Resource} {c : Agent} (h : Cleared uid res name [i] a b)
    (h' : Cleared uid res name rs b c) : Cleared uid res name (i :: rs) a c where
  rest := h.rest.trans h'.rest
  present := fun u => (h'.present u).trans (h.present u)
  listed := by
    intro p u r
    rw [h'.listed, h.listed, mem_singleton, mem_cons]
    tauto
  bits := by
    intro p u r
    rw [h'.bits, h.bits]
    tauto
  uuids := fun u => (h'.uuids u).trans (h.uuids u)

theorem cleared_foldl {uid : String} {res : Finset Resource} {name : String} (rs : List Resource)
    {a : Agent} (h : (a.opflexSnatLocalInfos uid).isSome) :
    Cleared uid res name rs a (rs.foldl (clearResource uid res name) a) := by
  induction rs generalizing a with
  | nil => exact Cleared.nil uid res name a
  | cons i rs ih =>
    have hone := @cleared_clearResource uid res name a h i
    exact hone.cons (ih (by rw [hone.present]; exact h))

/-- What `deleteSnatLocalInfo` does. Bits of a pod without a local info stay. -/
structure TakenOff (uid : String) (res : Finset Resource) (name : String) (a b : Agent) : Prop where
  rest : SameRest a b
  present : ∀ u, (b.opflexSnatLocalInfos u).isSome = (a.opflexSnatLocalInfos u).isSome
  listed : ∀ p u r, p ∈ b.listed u r ↔ p ∈ a.listed u r ∧ ¬ (p = name ∧ u = uid ∧ r ∈ res)
  bits : ∀ p u r, r ∈ b.bits p u ↔ r ∈ a.bits p u ∧
    ¬ (p = name ∧ u = uid ∧ r ∈ res ∧ (a.opflexSnatLocalInfos uid).isSome)
  uuids : ∀ u, b.uuids u = a.uuids u

theorem deleteSnatLocalInfo_spec (a : Agent) (uid : String) (res : Finset Resource) (name : String) :
    TakenOff uid res name a (a.deleteSnatLocalInfo uid res name) := by
  unfold Agent.deleteSnatLocalInfo
  cases hinfo : a.opflexSnatLocalInfos uid with
  | none =>
    refine ⟨SameRest.refl a, fun _ => rfl, ?_, by simp [hinfo], fun _ => rfl⟩
    intro p u r
    refine ⟨fun h => ⟨h, ?_⟩, And.left⟩
    rintro ⟨-, rfl, -⟩
    simp [Agent.listed, hinfo] at h
  | some localinfo =>
    have h := @cleared_foldl uid res name (Resource.all.filter fun i => i ∈ res) a (by simp [hinfo])
    have hmem : ∀ r, (r ∈ Resource.all.filter fun i => i ∈ res) ↔ r ∈ res := by
      simp [Resource.mem_all]
    refine ⟨h.rest, h.present, ?_, ?_, h.uuids⟩
    · intro p u r
      rw [h.listed, hmem]
    · intro p u r
      have hne : r ∈ res → (Resource.all.filter fun i => i ∈ res) ≠ [] :=
        fun hr => ne_nil_of_mem ((hmem r).mpr hr)
      rw [h.bits, hinfo]
      tauto

/-- What taking a policy off all its pods does. -/
structure TakenOffAll (name : String) (pods : PolicyPods) (uids : List String) (a b : Agent) : Prop where
  rest : SameRest a b
  present : ∀ u, (b.opflexSnatLocalInfos u).isSome = (a.opflexSnatLocalInfos u).isSome
  listed : ∀ p u r, p ∈ b.listed u r ↔
    p ∈ a.listed u r ∧ ¬ (p = name ∧ u ∈ uids ∧ r ∈ (pods.lookup u).getD ∅)
  bits : ∀ p u r, r ∈ b.bits p u ↔ r ∈ a.bits p u ∧
    ¬ (p = name ∧ u ∈ uids ∧ r ∈ (pods.lookup u).getD ∅ ∧ (a.opflexSnatLocalInfos u).isSome)

theorem clearPolicy_foldl (name : String) (pods : PolicyPods) (uids : List String) (a : Agent) :
    TakenOffAll name pods uids a (uids.foldl (fun agent uuid =>
      agent.deleteSnatLocalInfo uuid ((pods.lookup uuid).getD ∅) name) a) := by
  induction uids generalizing a with
  | nil => exact ⟨SameRest.refl a, fun _ => rfl, by simp, by simp⟩
  | cons uid uids ih =>
    have hone := deleteSnatLocalInfo_spec a uid ((pods.lookup uid).getD ∅) name
    have hrest := ih (a.deleteSnatLocalInfo uid ((pods.lookup uid).getD ∅) name)
    refine ⟨hone.rest.trans hrest.rest, fun u => (hrest.present u).trans (hone.present u), ?_, ?_⟩
    · intro p u r
      rw [foldl_cons, hrest.listed, hone.listed, mem_cons]
      by_cases hu : u = uid
      · subst hu
        tauto
      · tauto
    · intro p u r
      rw [foldl_cons, hrest.bits, hone.bits, hone.present, mem_cons]
      by_cases hu : u = uid
      · subst hu
        tauto
      · tauto

theorem clearPolicy_spec (order : RangeOrder String) (a : Agent) (name : String) :
    TakenOffAll name (a.policyPods name) (order.visit (a.policyPods name).keys) a (a.clearPolicy order name).1 :=
  clearPolicy_foldl name _ _ a

/-- A resource in the entry of a pod makes the pod one of the visited ones. -/
theorem mem_visit_of_bits {order : RangeOrder String} {name uid : String} (h : r ∈ a.bits name uid) :
    uid ∈ order.visit (a.policyPods name).keys := by
  rw [order.mem_visit, Finmap.mem_keys, Finmap.mem_iff]
  cases hl : (a.policyPods name).lookup uid with
  | none => simp [Agent.bits, hl] at h
  | some res => exact ⟨res, rfl⟩

theorem bits_dropPod (a : Agent) (uid name p u : String) :
    (a.dropPod uid name).bits p u = if p = name ∧ u = uid then ∅ else a.bits p u := by
  unfold Agent.dropPod
  cases hl : a.snatPods.lookup name with
  | none =>
    by_cases hp : p = name
    · simp [hp, bits_of_lookup_none hl]
    · simp [hp]
  | some pods =>
    simp only [bits_insert]
    by_cases hp : p = name
    · subst hp
      by_cases hu : u = uid
      · subst hu
        simp
      · simp [hu, bits_of_lookup hl, Finmap.lookup_erase_ne hu]
    · simp [hp]

/-- Only the entries of policies differ. -/
theorem dropPod_eq (a : Agent) (uid name : String) : ∃ pods, a.dropPod uid name = { a with snatPods := pods } := by
  unfold Agent.dropPod
  split
  · exact ⟨a.snatPods, rfl⟩
  · exact ⟨_, rfl⟩

/-- The entries of one pod go, at the given policies. -/
theorem foldl_dropPod (uid : String) (names : List String) (a : Agent) :
    ∃ pods, names.foldl (fun agent name => agent.dropPod uid name) a = { a with snatPods := pods } ∧
      ∀ p u, { a with snatPods := pods }.bits p u = if p ∈ names ∧ u = uid then ∅ else a.bits p u := by
  induction names generalizing a with
  | nil => exact ⟨a.snatPods, rfl, fun p u => by simp [Agent.bits, Agent.policyPods]⟩
  | cons name names ih =>
    obtain ⟨first, hfirst⟩ := dropPod_eq a uid name
    obtain ⟨pods, hrun, hbits⟩ := ih { a with snatPods := first }
    refine ⟨pods, by rw [foldl_cons, hfirst, hrun], fun p u => ?_⟩
    have hone := bits_dropPod a uid name p u
    rw [hfirst] at hone
    rw [hbits, hone]
    simp only [mem_cons]
    by_cases hp : p ∈ names ∧ u = uid
    · simp [hp]
    · by_cases hn : p = name ∧ u = uid
      · simp [hn]
      · rw [if_neg hp, if_neg hn, if_neg (by tauto)]

theorem listed_erase (a : Agent) (uid u : String) (r : Resource) :
    { a with opflexSnatLocalInfos := a.opflexSnatLocalInfos.erase uid }.listed u r =
      if u = uid then [] else a.listed u r := by
  by_cases hu : u = uid
  · simp [Agent.listed, hu]
  · simp [Agent.listed, hu, erase_other _ hu]

/-- Every listed policy is cached. -/
def Agent.Cached (agent : Agent) : Prop :=
  ∀ uid r, ∀ p ∈ agent.listed uid r, p ∈ agent.snatPolicyCache

/-- The faults other than a lookup of a policy that is not cached. -/
def NotMissing (f : Fault) : Prop := ∀ name, f ≠ .missingPolicy name

theorem compareDest_ends (a b : String) : Ends NotMissing (fun _ => True) (compareDest a b) := by
  unfold compareDest compareIps
  split
  · intro name h
    cases h
  · split
    · split
      · intro name h
        cases h
      · exact trivial
    · split <;> exact trivial

theorem setDestIp_ends (cfg : Config) (destIp : List String) :
    Ends NotMissing (fun _ => True) (setDestIp cfg destIp) := by
  have h := cfg.sorter.sort_ends compareDest destIp NotMissing fun a _ b _ => compareDest_ends a b
  exact h.mono fun _ _ => trivial

theorem policy_ends {name : String} (h : name ∈ a.snatPolicyCache) :
    Ends NotMissing (fun policy => a.snatPolicyCache.lookup name = some policy) (a.policy name) := by
  obtain ⟨policy, hp⟩ := Finmap.mem_iff.mp h
  simp [Agent.policy, hp]

theorem compare_ends {p q : String} (hp : p ∈ a.snatPolicyCache) (hq : q ∈ a.snatPolicyCache) :
    Ends NotMissing (fun _ => True) (a.compare p q) := by
  refine (policy_ends hp).bind fun policy1 _ => ?_
  refine Ends.foldlM trivial fun _ x _ _ => ?_
  refine (policy_ends hq).bind fun policy2 _ => ?_
  refine Ends.foldlM trivial fun _ y _ _ => ?_
  exact (compareDest_ends x y).bind fun _ _ => trivial

/-- The stack has the policies of the local info. -/
theorem policyStack_ends (cfg : Config) {localinfo : OpflexSnatLocalInfo}
    (h : ∀ r, ∀ p ∈ localinfo.snatPolicies r, p ∈ a.snatPolicyCache) :
    Ends NotMissing (fun stack => ∀ p, p ∈ stack ↔ ∃ r, p ∈ localinfo.snatPolicies r)
      (a.policyStack cfg localinfo) := by
  have hloop : ∀ rs : List Resource, ∀ stack : List String,
      Ends NotMissing (fun out => ∀ p, p ∈ out ↔ p ∈ stack ∨ ∃ r ∈ rs, p ∈ localinfo.snatPolicies r)
        (rs.foldlM (fun policystack r => do
          let sortedpolicies ← cfg.sorter.sort a.compare (localinfo.snatPolicies r).eraseDups
          .ok (policystack ++ sortedpolicies)) stack) := by
    intro rs
    induction rs with
    | nil => simp
    | cons r rs ih =>
      intro stack
      have hsort := cfg.sorter.sort_ends a.compare (localinfo.snatPolicies r).eraseDups NotMissing
        fun p hp q hq => compare_ends (h r p (mem_eraseDups.mp hp)) (h r q (mem_eraseDups.mp hq))
      have hturn : Ends NotMissing
          (fun stack' => ∀ p, p ∈ stack' ↔ p ∈ stack ∨ p ∈ localinfo.snatPolicies r) (do
            let sortedpolicies ← cfg.sorter.sort a.compare (localinfo.snatPolicies r).eraseDups
            .ok (stack ++ sortedpolicies)) := by
        refine hsort.bind fun sorted hsorted => ?_
        intro p
        rw [List.mem_append, hsorted.mem_iff, mem_eraseDups]
      refine hturn.bind fun mid hmid => (ih mid).mono fun out hout p => ?_
      rw [hout, hmid, exists_mem_cons_iff, or_assoc]
  refine (hloop Resource.all []).mono fun out hout p => ?_
  rw [hout]
  simp [Resource.mem_all]

/-- The policies that have an address on the node. -/
def Agent.allocated (cfg : Config) (a : Agent) (name : String) : Prop :=
  ∃ v ∈ a.nodeInfos cfg, v.snatPolicyName = name

/-- The first policy of the stack gives its addresses, and only policies with an address do. -/
structure UuidsOf (cfg : Config) (a : Agent) (stack uids : List String) : Prop where
  first : ∀ name, stack.head? = some name → a.allocated cfg name → uids ≠ []
  none : (∀ name ∈ stack, ¬ a.allocated cfg name) → uids = []

theorem stackUuids_ends (cfg : Config) (stack : List String) (h : ∀ name ∈ stack, name ∈ a.snatPolicyCache) :
    Ends NotMissing (UuidsOf cfg a stack) (a.stackUuids cfg stack) := by
  induction stack with
  | nil => exact ⟨by simp, fun _ => rfl⟩
  | cons name stack ih =>
    rw [forall_mem_cons] at h
    have hown : ((a.nodeInfos cfg).filter fun val => val.snatPolicyName = name).map
        OpflexSnatGlobalInfo.snatIpUid = [] ↔ ¬ a.allocated cfg name := by
      simp [Agent.allocated]
    refine (policy_ends h.1).bind fun policy _ => ?_
    by_cases hd : policy.destIp = []
    · rw [if_pos hd]
      refine ⟨?_, ?_⟩
      · intro first hf hal he
        obtain rfl : name = first := by simpa using hf
        exact hown.mp he hal
      · intro hno
        exact hown.mpr (hno name mem_cons_self)
    · rw [if_neg hd]
      refine (ih h.2).bind fun more hmore => ⟨?_, ?_⟩
      · intro first hf hal he
        obtain rfl : name = first := by simpa using hf
        exact hown.mp (append_eq_nil_iff.mp he).1 hal
      · intro hno
        rw [hown.mpr (hno name mem_cons_self), nil_append]
        exact hmore.none fun p hp => hno p (mem_cons_of_mem _ hp)

/-- What `updateEpFile` can do: nothing, drop the local info of the pod, or write its
addresses. -/
inductive EpFile (cfg : Config) (uid : String) (a : Agent) : Agent → Prop where
  | same : EpFile cfg uid a a
  | dropped (localinfo : OpflexSnatLocalInfo) (stack : List String)
      (hinfo : a.opflexSnatLocalInfos uid = some localinfo)
      (hstack : ∀ p, p ∈ stack ↔ ∃ r, p ∈ localinfo.snatPolicies r)
      (huids : UuidsOf cfg a stack []) (hne : localinfo.plcyUuids ≠ []) :
      EpFile cfg uid a { a with opflexSnatLocalInfos := a.opflexSnatLocalInfos.erase uid }
  | written (localinfo : OpflexSnatLocalInfo) (stack uids : List String)
      (hinfo : a.opflexSnatLocalInfos uid = some localinfo)
      (hstack : ∀ p, p ∈ stack ↔ ∃ r, p ∈ localinfo.snatPolicies r)
      (huids : UuidsOf cfg a stack uids) (hne : uids ≠ []) :
      EpFile cfg uid a { a with
        opflexSnatLocalInfos := a.opflexSnatLocalInfos.put uid
          { localinfo with existing := false, plcyUuids := uids } }

theorem updateEpFile_ends (cfg : Config) (h : a.Cached) (uid : String) :
    Ends NotMissing (EpFile cfg uid a) (a.updateEpFile cfg uid) := by
  unfold Agent.updateEpFile
  cases hinfo : a.opflexSnatLocalInfos uid with
  | none => exact .same
  | some localinfo =>
    have hcached : ∀ r, ∀ p ∈ localinfo.snatPolicies r, p ∈ a.snatPolicyCache := by
      intro r p hp
      exact h uid r p (by simpa [Agent.listed, hinfo] using hp)
    refine (policyStack_ends cfg hcached).bind fun stack hstack => ?_
    have hnames : ∀ name ∈ stack, name ∈ a.snatPolicyCache := by
      intro name hn
      obtain ⟨r, hr⟩ := (hstack name).mp hn
      exact hcached r name hr
    refine (stackUuids_ends cfg stack hnames).bind fun uids huids => ?_
    by_cases heq : localinfo.plcyUuids = uids
    · rw [if_pos heq]
      exact .same
    · rw [if_neg heq]
      by_cases hempty : uids = []
      · subst hempty
        exact .dropped localinfo stack hinfo hstack huids heq
      · rw [if_neg hempty]
        exact .written localinfo stack uids hinfo hstack huids hempty

theorem EpFile.pods {uid : String} (h : EpFile cfg uid a b) : b.snatPods = a.snatPods ∧ SameRest a b := by
  cases h with
  | same => exact ⟨rfl, SameRest.refl a⟩
  | dropped => exact ⟨rfl, rfl, rfl⟩
  | written => exact ⟨rfl, rfl, rfl⟩

/-- The policies of a pod stay or all go. -/
theorem EpFile.listed {uid : String} (h : EpFile cfg uid a b) {p u : String} (hp : p ∈ b.listed u r) :
    p ∈ a.listed u r := by
  cases h with
  | same => exact hp
  | dropped =>
    by_cases hu : u = uid
    · simp [Agent.listed, hu] at hp
    · simpa [Agent.listed, erase_other _ hu] using hp
  | written localinfo stack uids hinfo =>
    by_cases hu : u = uid
    · subst hu
      simpa [Agent.listed, hinfo] using hp
    · simpa [Agent.listed, put_other _ _ hu] using hp

end AciContainers.HostSnat
