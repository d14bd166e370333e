import AciContainers.HostMetadata

/-!
# Endpoints carry the current security groups

The endpoints of a pod are rebuilt for the informer of the pod, for a pod whose policies changed
in the selector index, and by the handler of a policy whose types or contents changed. The
proof keeps a set of pods that may be out of date; at the end of each event it is empty.
-/
namespace AciContainers.Host

open Labels Index Maps Net Policy Relations Runs List Option Finmap
open NetPol (Direction)

variable {g : OpflexGroup} {sgval : List OpflexGroup} {a : GroupSet} {node : Node}
  {eps : Map String (List OpflexEndpoint)} {epUuid podkey key npkey : String} {order : RangeOrder String}
  {pod : PodObject} {np oldnp : NetworkPolicy} {owner : String → String} {agent agent' : PodAgent}
  {dirty dirty' : Set String}

@[simp] theorem gset_append (og : OpflexGroup) : (a.append og).gset = insert og a.gset :=
  rfl

@[simp] theorem gset_addGroup : (a.addGroup g).gset = a.gset ∪ {g} := by
  rw [Finset.union_comm, ← Finset.insert_eq]
  unfold GroupSet.addGroup
  by_cases h : g ∈ a.gset
  · rw [if_pos h, Finset.insert_eq_of_mem h]
  · rw [if_neg h]
    rfl

theorem gset_addGroup_unless (c : Prop) [Decidable c] :
    (if c then a else a.addGroup g).gset = a.gset ∪ if c then ∅ else {g} := by
  by_cases h : c <;> simp [h]

theorem gset_foldl_append : (sgval.foldl GroupSet.append a).gset = a.gset ∪ sgval.toFinset := by
  induction sgval generalizing a with
  | nil => simp
  | cons og sgval ih => simp [ih]

/-- What a stored policy adds to the pods it selects: its group and its directions. -/
def Node.view (node : Node) (agent : PodAgent) (npkey : String) :
    Option (OpflexGroup × Finset Direction) :=
  (agent.policyByKey npkey).map fun np =>
    (node.policyGroup npkey np, (getNetPolPolicyTypes np).toFinset)

/-- The security groups of a pod with the given policies. -/
def securityGroups (node : Node) (selected : Finset String)
    (view : String → Option (OpflexGroup × Finset Direction)) (nodeName : String)
    (sgval : Finset OpflexGroup) : Finset OpflexGroup :=
  let found := selected.biUnion fun npkey => (view npkey).toFinset
  let missing (d : Direction) (g : OpflexGroup) : Finset OpflexGroup :=
    if d ∈ found.biUnion Prod.snd then ∅ else {g}
  if found = ∅ then sgval
  else found.image Prod.fst ∪ sgval ∪
    (if nodeName ≠ "" then {node.group "node" nodeName} else ∅) ∪
    {node.group "np" "static-discovery"} ∪
    missing .ingress (node.group "np" "static-ingress") ∪
    missing .egress (node.group "np" "static-egress")

theorem addNetPol_eq (node : Node) (agent : PodAgent) (acc : GroupSet × Finset Direction) (npkey : String) :
    (addNetPol node agent acc npkey).1.gset = acc.1.gset ∪ (node.view agent npkey).toFinset.image Prod.fst ∧
      (addNetPol node agent acc npkey).2 = acc.2 ∪ (node.view agent npkey).toFinset.biUnion Prod.snd := by
  unfold addNetPol Node.view
  cases agent.policyByKey npkey with
  | none => simp
  | some np => simp

theorem foldl_addNetPol (node : Node) (agent : PodAgent) (keys : List String) (acc : GroupSet × Finset Direction) :
    let found := keys.toFinset.biUnion fun npkey => (node.view agent npkey).toFinset
    (keys.foldl (addNetPol node agent) acc).1.gset = acc.1.gset ∪ found.image Prod.fst ∧
      (keys.foldl (addNetPol node agent) acc).2 = acc.2 ∪ found.biUnion Prod.snd := by
  induction keys generalizing acc with
  | nil => simp
  | cons npkey keys ih =>
    obtain ⟨hg, ht⟩ := ih (addNetPol node agent acc npkey)
    obtain ⟨hg', ht'⟩ := addNetPol_eq node agent acc npkey
    simp [hg, ht, hg', ht', Finset.image_union, Finset.union_biUnion]

/-- Whatever the order of the loops, the merged groups are those of the policies that
select the pod. -/
theorem toFinset_mergeNetPolSg (node : Node) (agent : PodAgent) (podkey : String) (pod : PodObject) :
    (mergeNetPolSg node order agent podkey pod sgval).toFinset =
      securityGroups node (agent.netPolPods.getObjForPod podkey) (node.view agent) pod.nodeName sgval.toFinset := by
  obtain ⟨hg, ht⟩ := foldl_addNetPol node agent
    (order.visit (agent.netPolPods.getObjForPod podkey)) (GroupSet.empty, ∅)
  rw [order.toFinset_visit] at hg ht
  unfold mergeNetPolSg securityGroups
  generalize (order.visit (agent.netPolPods.getObjForPod podkey)).foldl (addNetPol node agent)
    (GroupSet.empty, ∅) = r at hg ht ⊢
  generalize (agent.netPolPods.getObjForPod podkey).biUnion
    (fun npkey => (node.view agent npkey).toFinset) = found at hg ht ⊢
  have hg : r.1.gset = found.image Prod.fst := by simpa [GroupSet.empty] using hg
  have ht : r.2 = found.biUnion Prod.snd := by simpa using ht
  simp only [hg, Finset.image_eq_empty, ht]
  by_cases hf : found = ∅
  · rw [if_pos hf, if_pos hf]
  rw [if_neg hf, if_neg hf]
  -- the list of the last accumulator is its set, which has the discovery group
  generalize hlast : (if Direction.egress ∈ found.biUnion Prod.snd then _ else _ : GroupSet) = last
  have hset : last.gset = found.image Prod.fst ∪ sgval.toFinset ∪
      (if pod.nodeName ≠ "" then {node.group "node" pod.nodeName} else ∅) ∪
      {node.group "np" "static-discovery"} ∪
      (if Direction.ingress ∈ found.biUnion Prod.snd then ∅
        else {node.group "np" "static-ingress"}) ∪
      (if Direction.egress ∈ found.biUnion Prod.snd then ∅
        else {node.group "np" "static-egress"}) := by
    simp [← hlast, gset_addGroup_unless, gset_addGroup, gset_foldl_append, hg]
  have hne : last.g ≠ [] := by
    intro hnil
    have hmem : node.group "np" "static-discovery" ∈ last.gset := by
      rw [hset]
      simp
    rw [← last.same, hnil] at hmem
    simp at hmem
  rw [if_neg hne, last.same, hset]

/-- Only the policies that select the pod matter. -/
theorem securityGroups_congr {selected : Finset String} {view view' : String → Option (OpflexGroup × Finset Direction)}
    (h : ∀ npkey ∈ selected, view' npkey = view npkey) (nodeName : String) (sgval : Finset OpflexGroup) :
    securityGroups node selected view' nodeName sgval = securityGroups node selected view nodeName sgval := by
  have hf : (selected.biUnion fun npkey => (view' npkey).toFinset) =
      selected.biUnion fun npkey => (view npkey).toFinset :=
    Finset.biUnion_congr rfl fun npkey hk => by rw [h npkey hk]
  unfold securityGroups
  rw [hf]

def ifaceCount (epmetadata : Containers) : Nat :=
  ∑ contId ∈ epmetadata.keys, ((epmetadata.lookup contId).map fun md => md.ifaces.length).getD 0

section

variable (order : RangeOrder String) (epUuid : String) (epmetadata : Containers) (epGroup : OpflexGroup)
  (epSecGroups : List OpflexGroup) (epAttributes : LabelSet)

theorem length_newEndpoints : (newEndpoints order epUuid epmetadata epGroup epSecGroups epAttributes).length =
      ifaceCount epmetadata := by
  unfold newEndpoints ifaceCount
  conv_rhs => rw [← order.toFinset_visit epmetadata.keys, sum_toFinset _ (order.nodup _)]
  rw [length_flatMap]
  congr 1
  apply map_congr_left
  intro contId _
  cases epmetadata.lookup contId with
  | none => rfl
  | some md => simp [containerEndpoints]

theorem securityGroup_newEndpoints : ∀ ep ∈ newEndpoints order epUuid epmetadata epGroup epSecGroups epAttributes,
      ep.securityGroup = epSecGroups := by
  intro ep hep
  obtain ⟨contId, -, hep⟩ := mem_flatMap.mp hep
  cases hl : epmetadata.lookup contId with
  | none => simp [hl, containerEndpoints] at hep
  | some md =>
    rw [hl] at hep
    obtain ⟨iface, -, rfl⟩ := mem_map.mp hep
    rfl

end

/-- A list that is not shorter gets the registrations and nothing else. -/
theorem keepRegistered_spec (existing neweps : List OpflexEndpoint) (h : existing.length ≤ neweps.length) :
    ∃ out, keepRegistered existing neweps = some out ∧ out.length = neweps.length ∧
      ∀ ep ∈ out, ∃ newep ∈ neweps, ep.securityGroup = newep.securityGroup := by
  induction existing generalizing neweps with
  | nil => exact ⟨neweps, rfl, rfl, fun ep hep => ⟨ep, hep, rfl⟩⟩
  | cons old existing ih =>
    cases neweps with
    | nil => simp at h
    | cons newep neweps =>
      obtain ⟨out, hout, hlen, hsg⟩ := ih neweps (by simpa using h)
      refine ⟨{ newep with registered := old.registered } :: out, by simp [keepRegistered, hout],
        by simp [hlen], ?_⟩
      intro ep hep
      rcases mem_cons.mp hep with rfl | hep
      · exact ⟨newep, mem_cons_self, rfl⟩
      · obtain ⟨n, hn, he⟩ := hsg ep hep
        exact ⟨n, mem_cons_of_mem _ hn, he⟩

/-- Every pod with metadata has an interface. -/
def Node.Wired (node : Node) : Prop :=
  ∀ epMetaKey epmetadata, node.epMetadata epMetaKey = some epmetadata → 0 < ifaceCount epmetadata

/-- The endpoints of a uid are as many as the interfaces that the metadata lists. -/
def Fits (node : Node) (epMetaKey : String) (eps : List OpflexEndpoint) : Prop :=
  ∀ epmetadata, node.epMetadata epMetaKey = some epmetadata → eps.length = ifaceCount epmetadata

theorem replaceEndpoints_spec {neweps : List OpflexEndpoint} (hne : neweps ≠ [])
    (hlen : ∀ existing, eps epUuid = some existing → existing.length ≤ neweps.length) :
    ∃ eps' new, replaceEndpoints eps epUuid neweps = some eps' ∧ eps' epUuid = some new ∧
      (∀ u, u ≠ epUuid → eps' u = eps u) ∧ new.length = neweps.length ∧
      ∀ ep ∈ new, ∃ newep ∈ neweps, ep.securityGroup = newep.securityGroup := by
  unfold replaceEndpoints
  cases he : eps epUuid with
  | none =>
    exact ⟨eps.put epUuid neweps, neweps, if_neg hne, put_same _ _ _, fun u hu => put_other _ _ hu,
      rfl, fun ep hep => ⟨ep, hep, rfl⟩⟩
  | some existing =>
    obtain ⟨out, hout, holen, hosg⟩ := keepRegistered_spec existing neweps (hlen existing he)
    have hone : out ≠ [] := by
      intro hnil
      rw [hnil, length_nil] at holen
      exact hne (length_eq_zero_iff.mp holen.symm)
    simp only [hout, bind_some]
    by_cases hsame : existing = out
    · rw [if_pos hsame]
      exact ⟨eps, out, rfl, hsame ▸ he, fun _ _ => rfl, holen, hosg⟩
    · rw [if_neg hsame]
      exact ⟨eps.put epUuid out, out, if_neg hone, put_same _ _ _, fun u hu => put_other _ _ hu,
        holen, hosg⟩

theorem epChanged_spec (hw : node.Wired) {epMetaKey : String}
    (hfit : ∀ existing, eps epUuid = some existing → Fits node epMetaKey existing)
    (epGroup : OpflexGroup) (epSecGroups : List OpflexGroup) (epAttributes : LabelSet) :
    ∃ eps', epChanged node order eps epUuid epMetaKey epGroup epSecGroups epAttributes = some eps' ∧
      (∀ u, u ≠ epUuid → eps' u = eps u) ∧ (∀ new, eps' epUuid = some new → Fits node epMetaKey new) ∧
      ∀ epmetadata, node.epMetadata epMetaKey = some epmetadata →
        ∃ new, eps' epUuid = some new ∧ new ≠ [] ∧ ∀ ep ∈ new, ep.securityGroup = epSecGroups := by
  unfold epChanged
  cases hm : node.epMetadata epMetaKey with
  | none =>
    refine ⟨_, rfl, fun u hu => erase_other _ hu, ?_, ?_⟩
    · intro new hnew
      simp at hnew
    · intro epmetadata h
      simp at h
  | some epmetadata =>
    dsimp only
    have hlen := length_newEndpoints order epUuid epmetadata epGroup epSecGroups epAttributes
    have hsg := securityGroup_newEndpoints order epUuid epmetadata epGroup epSecGroups epAttributes
    generalize newEndpoints order epUuid epmetadata epGroup epSecGroups epAttributes = neweps
      at hlen hsg ⊢
    have hpos : 0 < neweps.length := hlen ▸ hw epMetaKey epmetadata hm
    obtain ⟨eps', new, hrep, hnew, hothers, hnlen, hnsg⟩ :=
      replaceEndpoints_spec (length_pos_iff.mp hpos) fun existing he =>
        ((hfit existing he epmetadata hm).trans hlen.symm).le
    refine ⟨eps', hrep, hothers, ?_, ?_⟩
    · intro new' hnew' md hmd
      rw [hnew, some.injEq] at hnew'
      rw [hm, some.injEq] at hmd
      rw [← hnew', ← hmd, hnlen, hlen]
    · intro md _
      refine ⟨new, hnew, length_pos_iff.mp (hnlen ▸ hpos), ?_⟩
      intro ep hep
      obtain ⟨newep, hmem, heq⟩ := hnsg ep hep
      rw [heq, hsg newep hmem]

def PodAgent.col (agent : PodAgent) (podkey : String) : Finset String :=
  agent.netPolPods.getObjForPod podkey

/-- The groups of the pod with the current policies. -/
def currentGroups (node : Node) (agent : PodAgent) (podkey : String) (pod : PodObject) :
    Finset OpflexGroup :=
  securityGroups node (agent.col podkey) (node.view agent) pod.nodeName
    (node.annotatedSg podkey pod.annotations).toFinset

def Fresh (node : Node) (agent : PodAgent) (podkey : String) (pod : PodObject) : Prop :=
  podFilter pod = true → ∀ epmetadata, node.epMetadata pod.epMetaKey = some epmetadata →
    ∃ eps, agent.opflexEps pod.uid = some eps ∧ eps ≠ [] ∧
      ∀ ep ∈ eps, ep.securityGroup.toFinset = currentGroups node agent podkey pod

def FreshOutside (node : Node) (agent : PodAgent) (dirty : Set String) : Prop :=
  ∀ podkey pod, agent.podByKey podkey = some pod → podkey ∉ dirty → Fresh node agent podkey pod

/-- Namespaces have names without a slash, so that a key names one namespace. -/
def Namespaced (ns : String) : Prop := ns ≠ "" ∧ '/' ∉ ns.toList

instance (ns : String) : Decidable (Namespaced ns) := inferInstanceAs (Decidable (_ ∧ _))

theorem epMetaKey_eq_key (h : Namespaced pod.ns) : pod.epMetaKey = pod.key := by
  simp [PodObject.epMetaKey, PodObject.key, podKey, metaNamespaceKey, PodObject.indexed, h.1]

/-- The namespace is what stands before the first slash of the key. -/
theorem ns_of_key {np' : NetworkPolicy} (h : Namespaced np.ns) (h' : Namespaced np'.ns)
    (hk : np.key = np'.key) : np.ns = np'.ns := by
  have hhead : ∀ q : NetworkPolicy, Namespaced q.ns →
      q.key.toList.takeWhile (· ≠ '/') = q.ns.toList := by
    intro q hq
    have hall : ∀ c ∈ q.ns.toList, decide (c ≠ '/') = true := by
      intro c hc
      simpa using fun e : c = '/' => hq.2 (e ▸ hc)
    simp only [NetworkPolicy.key, metaNamespaceKey, if_neg hq.1, String.toList_append]
    rw [append_assoc, takeWhile_append_of_pos hall]
    simp
  rw [← String.toList_inj, ← hhead np h, ← hhead np' h', hk]

/-- What holds of the agent between and within events. A uid is only ever used for the pod
of one key. -/
structure Sound (node : Node) (owner : String → String) (agent : PodAgent) : Prop where
  holds : ∃ t, Holds agent.netPolPods t
  owned : ∀ podkey pod, agent.podByKey podkey = some pod →
    Namespaced pod.ns ∧ owner pod.uid = podkey
  fits : ∀ u eps, agent.opflexEps u = some eps → Fits node (owner u) eps
  cni : ∀ podid u, agent.cniToPodID podid = some u → owner u = podid
  policies : ∀ npkey np, agent.policyByKey npkey = some np →
    Namespaced np.ns ∧ np.policyTypes ≠ []
  indexed : ∀ npkey, npkey ∈ agent.netPolPods.objNsIndex → agent.policyByKey npkey ≠ none
  selected : ∀ podkey, ∀ npkey ∈ agent.col podkey, agent.policyByKey npkey ≠ none

/-- Nothing that the groups of the pod depend on has changed. -/
theorem Fresh.congr {node : Node} {agent agent' : PodAgent} {podkey : String} {pod : PodObject}
    (h : Fresh node agent podkey pod) (hcol : agent'.col podkey = agent.col podkey)
    (hview : ∀ npkey ∈ agent.col podkey, node.view agent' npkey = node.view agent npkey)
    (heps : agent'.opflexEps pod.uid = agent.opflexEps pod.uid) : Fresh node agent' podkey pod := by
  have hgroups : currentGroups node agent' podkey pod = currentGroups node agent podkey pod := by
    unfold currentGroups
    rw [hcol]
    exact securityGroups_congr hview _ _
  unfold Fresh
  rw [heps, hgroups]
  exact h

/-- An uid other than those of the pods of a key belongs to another pod. -/
theorem Sound.uid_ne (h : Sound node owner agent) {u : String} (hp : agent.podByKey podkey = some pod)
    (hne : podkey ≠ key) (hu : owner u = key) : pod.uid ≠ u := by
  intro he
  exact hne (((h.owned podkey pod hp).2.symm.trans (congrArg owner he)).trans hu)

theorem policyByKey_merged (node : Node) (agent : PodAgent) (podkey npkey : String) :
    getByKey NetworkPolicy.key (mergedPolicies node agent podkey) npkey = (agent.policyByKey npkey).map fun np =>
        if node.hppOptimization ∧ np.key ∈ agent.netPolPods.getObjForPod podkey then np.hashed else np := by
  unfold mergedPolicies PodAgent.policyByKey
  by_cases hh : node.hppOptimization
  · rw [if_pos hh, getByKey_map]
    · simp [hh]
    · intro np
      by_cases hm : np.key ∈ agent.netPolPods.getObjForPod podkey <;> simp [hm]
  · simp [hh]

theorem view_eq_of_policies (h : agent'.policies = mergedPolicies node agent podkey) :
    node.view agent' npkey = node.view agent npkey := by
  unfold Node.view
  have hp : agent'.policyByKey npkey = _ :=
    (congrArg (getByKey NetworkPolicy.key · npkey) h).trans (policyByKey_merged node agent podkey npkey)
  rw [hp]
  cases agent.policyByKey npkey with
  | none => rfl
  | some np =>
    by_cases hm : node.hppOptimization ∧ np.key ∈ agent.netPolPods.getObjForPod podkey
    · simp [hm, Node.policyGroup]
    · simp [hm]

@[simp] theorem attributed_key (pod : PodObject) : pod.attributed.key = pod.key := rfl

theorem podByKey_attributed {agent agent' : PodAgent} {key podkey : String}
    (h : agent'.pods = agent.pods.map fun p => if p.key = key then p.attributed else p) : agent'.podByKey podkey =
      (agent.podByKey podkey).map fun p => if p.key = key then p.attributed else p := by
  unfold PodAgent.podByKey
  rw [h]
  apply getByKey_map
  intro p
  by_cases hp : p.key = key <;> simp [hp]

/-- What asking for a pod again leaves. -/
structure Rebuilt (node : Node) (owner : String → String) (dirty keys : Set String)
    (agent agent' : PodAgent) : Prop where
  sound : Sound node owner agent'
  fresh : FreshOutside node agent' (dirty \ keys)
  cols : ∀ podkey, podkey ∉ keys → agent'.col podkey = agent.col podkey

/-- The parts of the agent that rebuilding one pod may touch. -/
structure Touches (node : Node) (agent : PodAgent) (pod : PodObject) (agent' : PodAgent) : Prop where
  index : agent'.netPolPods = agent.netPolPods
  pods : ∀ podkey q, agent'.podByKey podkey = some q →
    ∃ p, agent.podByKey podkey = some p ∧ (q = p ∨ q = p.attributed)
  policies : ∀ npkey, agent'.policyByKey npkey = agent.policyByKey npkey ∨
    agent'.policyByKey npkey = (agent.policyByKey npkey).map NetworkPolicy.hashed
  view : ∀ npkey, node.view agent' npkey = node.view agent npkey
  eps : ∀ u, u ≠ pod.uid → agent'.opflexEps u = agent.opflexEps u
  cni : agent'.cniToPodID = agent.cniToPodID ∨
    agent'.cniToPodID = agent.cniToPodID.put pod.epMetaKey pod.uid

section

variable (ht : Touches node agent pod agent') (hs : Sound node owner agent)
  (hp : agent.podByKey pod.key = some pod)
include ht hs hp

theorem Touches.sound (hfits : ∀ new, agent'.opflexEps pod.uid = some new → Fits node pod.epMetaKey new) :
    Sound node owner agent' := by
  obtain ⟨hns, howner⟩ := hs.owned pod.key pod hp
  have hmeta : pod.epMetaKey = owner pod.uid := (epMetaKey_eq_key hns).trans howner.symm
  have hsome : ∀ npkey, agent.policyByKey npkey ≠ none → agent'.policyByKey npkey ≠ none := by
    intro npkey hne
    rcases ht.policies npkey with h | h <;> simpa [h] using hne
  refine ⟨ht.index ▸ hs.holds, ?_, ?_, ?_, ?_, ?_, ?_⟩
  · intro podkey q hq
    obtain ⟨p, hpk, rfl | rfl⟩ := ht.pods podkey q hq
    · exact hs.owned podkey q hpk
    · exact hs.owned podkey p hpk
  · intro u eps he
    by_cases hu : u = pod.uid
    · subst hu
      exact hmeta ▸ hfits eps he
    · rw [ht.eps u hu] at he
      exact hs.fits u eps he
  · intro podid u hu
    rcases ht.cni with h | h
    · exact hs.cni podid u (h ▸ hu)
    · rw [h] at hu
      by_cases hk : podid = pod.epMetaKey
      · rw [hk, put_same, some.injEq] at hu
        rw [hk, hmeta, hu]
      · rw [put_other _ _ hk] at hu
        exact hs.cni podid u hu
  · intro npkey q hq
    rcases ht.policies npkey with h | h
    · exact hs.policies npkey q (h ▸ hq)
    · rw [h, map_eq_some_iff] at hq
      obtain ⟨np, hnp, rfl⟩ := hq
      exact hs.policies npkey np hnp
  · intro npkey hn
    exact hsome npkey (hs.indexed npkey (ht.index ▸ hn))
  · intro podkey npkey hn
    unfold PodAgent.col at hn
    rw [ht.index] at hn
    exact hsome npkey (hs.selected podkey npkey hn)

theorem Touches.rebuilt (hf : FreshOutside node agent dirty)
    (hfits : ∀ new, agent'.opflexEps pod.uid = some new → Fits node pod.epMetaKey new)
    (hfresh : Fresh node agent' pod.key pod) : Rebuilt node owner dirty {pod.key} agent agent' := by
  have hcol : ∀ podkey, agent'.col podkey = agent.col podkey := by
    intro podkey
    unfold PodAgent.col
    rw [ht.index]
  refine ⟨ht.sound hs hp hfits, ?_, fun podkey _ => hcol podkey⟩
  intro podkey q hq hclean
  -- the labels that are added are not read
  suffices h : ∀ p, agent.podByKey podkey = some p → Fresh node agent' podkey p by
    obtain ⟨p, hpk, rfl | rfl⟩ := ht.pods podkey q hq
    · exact h q hpk
    · exact h p hpk
  intro p hpk
  by_cases hk : podkey = pod.key
  · subst hk
    rw [hp, some.injEq] at hpk
    exact hpk ▸ hfresh
  · have hclean : podkey ∉ dirty := fun hd => hclean ⟨hd, hk⟩
    apply (hf podkey p hpk hclean).congr (hcol podkey) fun npkey _ => ht.view npkey
    exact ht.eps p.uid (hs.uid_ne hpk hk (hs.owned pod.key pod hp).2)

end

theorem podChangedLocked_spec (hw : node.Wired) (hs : Sound node owner agent)
    (hf : FreshOutside node agent dirty) (hp : agent.podByKey pod.key = some pod) :
    ∃ agent', podChangedLocked node order agent pod = some agent' ∧
      Rebuilt node owner dirty {pod.key} agent agent' := by
  obtain ⟨hns, howner⟩ := hs.owned pod.key pod hp
  unfold podChangedLocked
  by_cases hfil : podFilter pod = false
  · rw [if_pos hfil]
    refine ⟨_, rfl, Touches.rebuilt ?_ hs hp hf ?_ ?_⟩
    · exact ⟨rfl, fun _ q hq => ⟨q, hq, .inl rfl⟩, fun _ => .inl rfl, fun _ => rfl,
        fun u hu => erase_other _ hu, .inl rfl⟩
    · intro new hnew
      simp at hnew
    · intro htrue
      simp [hfil] at htrue
  rw [if_neg hfil]
  obtain ⟨eps', heps', hothers, hfits, hnew⟩ := epChanged_spec hw
    (fun existing he => (epMetaKey_eq_key hns).trans howner.symm ▸ hs.fits pod.uid existing he)
    (node.annotatedEg pod.key pod.annotations)
    (mergeNetPolSg node order agent pod.key pod (node.annotatedSg pod.key pod.annotations))
    pod.epAttributes
  dsimp only
  rw [heps', map_some]
  refine ⟨_, rfl, Touches.rebuilt ?_ hs hp hf hfits ?_⟩
  · refine ⟨rfl, ?_, ?_, fun npkey => view_eq_of_policies rfl, hothers, .inr rfl⟩
    · intro podkey q hq
      rw [@podByKey_attributed agent _ pod.key podkey rfl, map_eq_some_iff] at hq
      obtain ⟨p, hpk, rfl⟩ := hq
      by_cases hk : p.key = pod.key
      · exact ⟨p, hpk, .inr (if_pos hk)⟩
      · exact ⟨p, hpk, .inl (if_neg hk)⟩
    · intro npkey
      have hmerged := policyByKey_merged node agent pod.key npkey
      by_cases hm : node.hppOptimization ∧ npkey ∈ agent.netPolPods.getObjForPod pod.key
      · refine .inr (hmerged.trans (map_congr fun np hnp => if_pos ?_))
        exact (key_of_getByKey hnp).symm ▸ hm
      · refine .inl (hmerged.trans ((map_congr fun np hnp => if_neg ?_).trans map_id'))
        exact (key_of_getByKey hnp).symm ▸ hm
  · intro _ epmetadata hm
    obtain ⟨new, he, hne, hsg⟩ := hnew epmetadata hm
    refine ⟨new, he, hne, ?_⟩
    intro ep hep
    rw [hsg ep hep, toFinset_mergeNetPolSg]
    exact (securityGroups_congr (fun npkey _ => view_eq_of_policies rfl) _ _).symm

section

variable (hf : FreshOutside node agent dirty) (hsub : dirty ⊆ dirty')
include hf hsub

/-- Stores, index and endpoints changed, but for no pod outside the new set anything that its
groups depend on. -/
theorem FreshOutside.change (h : ∀ podkey pod, agent'.podByKey podkey = some pod → podkey ∉ dirty' →
      agent.podByKey podkey = some pod ∧ agent'.col podkey = agent.col podkey ∧
        (∀ npkey ∈ agent.col podkey, node.view agent' npkey = node.view agent npkey) ∧
        agent'.opflexEps pod.uid = agent.opflexEps pod.uid) : FreshOutside node agent' dirty' := by
  intro podkey pod hp hclean
  obtain ⟨hold, hcol, hview, heps⟩ := h podkey pod hp hclean
  exact (hf podkey pod hold fun hd => hclean (hsub hd)).congr hcol hview heps

theorem FreshOutside.mono : FreshOutside node agent dirty' :=
  hf.change hsub fun _ _ hp _ => ⟨hp, rfl, fun _ _ => rfl, rfl⟩

end

theorem podUpdated_spec (hw : node.Wired) (hs : Sound node owner agent)
    (hf : FreshOutside node agent dirty) (hp : agent.podByKey pod.key = some pod) :
    ∃ agent', podUpdated node order agent pod = some agent' ∧ Rebuilt node owner dirty {pod.key} agent agent' := by
  unfold podUpdated
  obtain ⟨t, ht⟩ := hs.holds
  have hht := holds_updatePodNoCallback netPolPodFuncs ht pod.indexed
  have hns := objNsIndex_updatePodNoCallback netPolPodFuncs agent.netPolPods pod.indexed
  generalize hu : (agent.netPolPods.updatePodNoCallback netPolPodFuncs pod.indexed).1 = index
    at hht hns ⊢
  have hcol : ∀ podkey, podkey ≠ pod.key → index.getObjForPod podkey = agent.col podkey := by
    intro podkey hk
    rw [hht.cols, setCol_cols]
    exact (if_neg hk).trans (ht.cols podkey).symm
  have hs' : Sound node owner { agent with netPolPods := index } := by
    refine ⟨⟨_, hht⟩, hs.owned, hs.fits, hs.cni, hs.policies, ?_, ?_⟩
    · intro npkey hn
      exact hs.indexed npkey (hns ▸ hn)
    · intro podkey npkey hn
      by_cases hk : podkey = pod.key
      · subst hk
        have hn : npkey ∈ agent.netPolPods.matchedObjs pod.indexed := by
          have hsame : index.getObjForPod pod.key = agent.netPolPods.matchedObjs pod.indexed := by
            rw [hht.cols, setCol_cols]
            exact if_pos rfl
          exact hsame ▸ hn
        obtain ⟨namespaces, hl, -⟩ := (mem_matchedObjs _ _ _).mp hn
        exact hs.indexed npkey (mem_iff.mpr ⟨namespaces, hl⟩)
      · exact hs.selected podkey npkey (hcol podkey hk ▸ hn)
  have hf' : FreshOutside node { agent with netPolPods := index } (dirty ∪ {pod.key}) := by
    apply hf.change Set.subset_union_left
    intro podkey q hq hclean
    exact ⟨hq, hcol podkey fun hk => hclean (.inr hk), fun _ _ => rfl, rfl⟩
  obtain ⟨agent', hagent', hr⟩ := podChangedLocked_spec hw hs' hf' hp
  refine ⟨agent', hagent', hr.sound, hr.fresh.mono ?_, ?_⟩
  · intro podkey hd
    exact ⟨hd.1.resolve_right hd.2, hd.2⟩
  · intro podkey hk
    exact (hr.cols podkey hk).trans (hcol podkey hk)

/-- Asks for the pod of a key again, if it is there. -/
def Rebuilds (node : Node) (owner : String → String)
    (f : PodAgent → String → Option PodAgent) : Prop :=
  ∀ agent dirty podkey, Sound node owner agent → FreshOutside node agent dirty →
    ∃ agent', f agent podkey = some agent' ∧ Rebuilt node owner dirty {podkey} agent agent'

theorem rebuilt_missing (hs : Sound node owner agent) (hf : FreshOutside node agent dirty)
    (hp : agent.podByKey podkey = none) : Rebuilt node owner dirty {podkey} agent agent := by
  refine ⟨hs, ?_, fun _ _ => rfl⟩
  intro key pod hpod hclean
  apply hf key pod hpod
  intro hd
  apply hclean
  refine ⟨hd, ?_⟩
  intro hk
  rw [Set.mem_singleton_iff.mp hk, hp] at hpod
  cases hpod

theorem rebuilds_podChanged (hw : node.Wired) (owner : String → String) :
    Rebuilds node owner (podChanged node order) := by
  intro agent dirty podkey hs hf
  unfold podChanged
  cases hp : agent.podByKey podkey with
  | none => exact ⟨agent, rfl, rebuilt_missing hs hf hp⟩
  | some pod =>
    obtain rfl : pod.key = podkey := key_of_getByKey hp
    exact podChangedLocked_spec hw hs hf hp

theorem rebuilds_podCallback (hw : node.Wired) (owner : String → String) :
    Rebuilds node owner (podCallback node order) := by
  intro agent dirty podkey hs hf
  unfold podCallback
  cases hp : agent.podByKey podkey with
  | none => exact ⟨agent, rfl, rebuilt_missing hs hf hp⟩
  | some pod =>
    obtain rfl : pod.key = podkey := key_of_getByKey hp
    exact podUpdated_spec hw hs hf hp

theorem Rebuilds.foldlM {node : Node} {owner : String → String}
    {f : PodAgent → String → Option PodAgent} (h : Rebuilds node owner f) (keys : List String)
    {agent : PodAgent} {dirty : Set String} (hs : Sound node owner agent) (hf : FreshOutside node agent dirty) :
    ∃ agent', keys.foldlM f agent = some agent' ∧ Rebuilt node owner dirty {podkey | podkey ∈ keys} agent agent' := by
  induction keys generalizing agent dirty with
  | nil =>
    refine ⟨agent, rfl, hs, ?_, fun _ _ => rfl⟩
    exact hf.mono fun podkey hd => ⟨hd, by simp⟩
  | cons key keys ih =>
    obtain ⟨mid, hmid, hr⟩ := h agent dirty key hs hf
    obtain ⟨agent', hagent', hr'⟩ := ih hr.sound hr.fresh
    refine ⟨agent', by simp [hmid, hagent'], hr'.sound, hr'.fresh.mono ?_, ?_⟩
    · intro podkey hd
      refine ⟨hd.1.1, ?_⟩
      intro hmem
      rcases mem_cons.mp hmem with rfl | hmem
      · exact hd.1.2 rfl
      · exact hd.2 hmem
    · intro podkey hk
      have hk : podkey ≠ key ∧ podkey ∉ keys := by simpa using hk
      exact (hr'.cols podkey hk.2).trans (hr.cols podkey hk.1)

theorem updatePods_spec (hw : node.Wired) (hs : Sound node owner agent)
    (hf : FreshOutside node agent dirty) (updated : Finset String) :
    ∃ agent', updatePods node order agent updated = some agent' ∧ Rebuilt node owner dirty ↑updated agent agent' := by
  obtain ⟨agent', hagent', hr⟩ :=
    (rebuilds_podCallback hw owner).foldlM (order.visit updated) hs hf
  have hkeys : {podkey | podkey ∈ order.visit updated} = (↑updated : Set String) := by
    ext podkey
    exact order.mem_visit updated podkey
  exact ⟨agent', hagent', hkeys ▸ hr⟩

theorem policyByKey_set {agent agent' : PodAgent} {np : NetworkPolicy}
    (h : agent'.policies = setByKey NetworkPolicy.key agent.policies np) (npkey : String) :
    agent'.policyByKey npkey = if npkey = np.key then some np else agent.policyByKey npkey := by
  unfold PodAgent.policyByKey
  rw [h]
  by_cases hk : npkey = np.key
  · rw [hk, if_pos rfl, getByKey_setByKey_same]
  · rw [if_neg hk, getByKey_setByKey_other _ hk]

theorem policyByKey_remove {agent agent' : PodAgent} {key : String}
    (h : agent'.policies = removeByKey NetworkPolicy.key agent.policies key) (npkey : String) :
    agent'.policyByKey npkey = if npkey = key then none else agent.policyByKey npkey := by
  unfold PodAgent.policyByKey
  rw [h, getByKey_removeByKey]

theorem view_congr (h : agent'.policyByKey npkey = agent.policyByKey npkey) :
    node.view agent' npkey = node.view agent npkey := by
  unfold Node.view
  rw [h]

/-- What the API server accepts as a policy, with the defaults it fills in. -/
def PolicyOk (np : NetworkPolicy) : Prop := Namespaced np.ns ∧ np.policyTypes ≠ []

instance (np : NetworkPolicy) : Decidable (PolicyOk np) := inferInstanceAs (Decidable (_ ∧ _))

/-- A change that the handler does not see leaves the policy with its group and directions. -/
theorem view_of_sameSpec (hold : agent.policyByKey np.key = some oldnp)
    (hnew : agent'.policyByKey np.key = some np) (hoi : PolicyOk oldnp) (hni : PolicyOk np)
    (hsame : sameSpec node oldnp np) : node.view agent' np.key = node.view agent np.key := by
  have hns : oldnp.ns = np.ns := ns_of_key hoi.1 hni.1 (key_of_getByKey hold)
  unfold Node.view
  rw [hold, hnew]
  unfold sameSpec at hsame
  by_cases hh : node.hppOptimization
  · simp only [hh, if_true, decide_eq_true_eq] at hsame
    obtain ⟨-, hin, heg, hty⟩ := hsame
    simp [Node.policyGroup, hh, createHashFromNetPol, getNetPolPolicyTypes, hns, hin, heg, hty]
  · have hty : oldnp.policyTypes = np.policyTypes := by simpa [hh] using hsame
    simp [Node.policyGroup, hh, getNetPolPolicyTypes, ← hty, hoi.2]

/-- A policy is put in the store, and the index changes at most for this policy. -/
theorem Sound.withPolicy (hs : Sound node owner agent) (hok : PolicyOk np) {index : PodSelectorIndex}
    (hh : ∃ t, Holds index t) (hns : ∀ npkey ∈ index.objNsIndex, npkey ≠ np.key → npkey ∈ agent.netPolPods.objNsIndex)
    (hcols : ∀ podkey, ∀ npkey ∈ index.getObjForPod podkey, npkey ≠ np.key → npkey ∈ agent.col podkey) :
    Sound node owner { agent with
      policies := setByKey NetworkPolicy.key agent.policies np
      netPolPods := index } := by
  have hpol := @policyByKey_set agent { agent with
    policies := setByKey NetworkPolicy.key agent.policies np
    netPolPods := index } np rfl
  have hsome : ∀ npkey, (npkey ≠ np.key → agent.policyByKey npkey ≠ none) →
      (if npkey = np.key then some np else agent.policyByKey npkey) ≠ none := by
    intro npkey h
    by_cases hk : npkey = np.key
    · simp [hk]
    · simpa [hk] using h hk
  refine ⟨hh, hs.owned, hs.fits, hs.cni, ?_, ?_, ?_⟩
  · intro npkey q hq
    rw [hpol] at hq
    by_cases hk : npkey = np.key
    · rw [if_pos hk, some.injEq] at hq
      exact hq ▸ hok
    · rw [if_neg hk] at hq
      exact hs.policies npkey q hq
  · intro npkey hn
    rw [hpol]
    exact hsome npkey fun hk => hs.indexed npkey (hns npkey hn hk)
  · intro podkey npkey hn
    rw [hpol]
    exact hsome npkey fun hk => hs.selected podkey npkey (hcols podkey npkey hn hk)

theorem Sound.reindexed (hs : Sound node owner agent) (hok : PolicyOk np) (pods : List Index.Pod)
    (namespaces : NsMap) : Sound node owner { agent with
      policies := setByKey NetworkPolicy.key agent.policies np
      netPolPods := (agent.netPolPods.updateSelectorObjForNs pods np.key namespaces).1 } := by
  obtain ⟨t, ht⟩ := hs.holds
  have hht := holds_updateSelectorObjForNs ht pods np.key namespaces
  refine hs.withPolicy hok ⟨_, hht⟩ ?_ ?_
  · intro npkey hn hk
    exact (mem_insert.mp hn).resolve_left hk
  · intro podkey npkey hn hk
    unfold PodAgent.col
    rw [hht.cols, setRow_cols] at hn
    rw [ht.cols]
    by_cases hm : podkey ∈ listedPods pods namespaces
    · rw [if_pos hm] at hn
      exact (Finset.mem_insert.mp hn).resolve_left hk
    · rw [if_neg hm] at hn
      exact Finset.mem_of_mem_erase hn

section

variable (hw : node.Wired) (hs : Sound node owner agent) (hf : FreshOutside node agent ∅)
include hw hs hf

variable (hok : PolicyOk np)
include hok

/-- After the store and the index took the policy and the index called back, only pods that
the policy selects may be out of date, and none if its group and directions are the same or
it selected none before. -/
theorem reindexed_spec (pods : List Index.Pod) (namespaces : NsMap) :
    let r := agent.netPolPods.updateSelectorObjForNs pods np.key namespaces
    ∃ agent', updatePods node order { agent with
        policies := setByKey NetworkPolicy.key agent.policies np, netPolPods := r.1 } r.2.1 = some agent' ∧
      Sound node owner agent' ∧ FreshOutside node agent' {podkey |
        node.view { agent with policies := setByKey NetworkPolicy.key agent.policies np } np.key ≠
          node.view agent np.key ∧ np.key ∈ agent.col podkey ∧ np.key ∈ agent'.col podkey} := by
  intro r
  obtain ⟨t, ht⟩ := hs.holds
  have hpol := @policyByKey_set agent
    { agent with policies := setByKey NetworkPolicy.key agent.policies np } np rfl
  have hwithin := colsWithin_updateSelectorObjForNs ht pods np.key namespaces
  have hcol : ∀ podkey, podkey ∉ r.2.1 → r.1.getObjForPod podkey = agent.col podkey := by
    intro podkey hn
    by_contra hne
    exact hn (hwithin podkey hne)
  let changed : Prop :=
    node.view { agent with policies := setByKey NetworkPolicy.key agent.policies np } np.key ≠
      node.view agent np.key
  have hf' : FreshOutside node { agent with
      policies := setByKey NetworkPolicy.key agent.policies np, netPolPods := r.1 }
      ({podkey | changed ∧ np.key ∈ agent.col podkey} ∪ ↑r.2.1) := by
    apply hf.change (Set.empty_subset _)
    intro podkey pod hp hclean
    have hclean : ¬ (changed ∧ np.key ∈ agent.col podkey) ∧ podkey ∉ r.2.1 := by
      simpa using hclean
    refine ⟨hp, hcol podkey hclean.2, ?_, rfl⟩
    intro npkey hn
    by_cases hk : npkey = np.key
    · subst hk
      by_contra hne
      exact hclean.1 ⟨hne, hn⟩
    · exact view_congr ((hpol npkey).trans (if_neg hk))
  obtain ⟨agent', hagent', hr⟩ :=
    updatePods_spec hw (hs.reindexed hok pods namespaces) hf' r.2.1
  refine ⟨agent', hagent', hr.sound, hr.fresh.mono ?_⟩
  intro podkey hd
  obtain ⟨hdirty, hout⟩ := hd
  obtain ⟨hchanged, hmem⟩ := hdirty.resolve_right hout
  have hsame : agent'.col podkey = agent.col podkey :=
    (hr.cols podkey hout).trans (hcol podkey hout)
  exact ⟨hchanged, hmem, hsame ▸ hmem⟩

theorem networkPolicyAdded_spec (hnew : agent.policyByKey np.key = none) : ∃ agent', networkPolicyAdded node order
        { agent with policies := setByKey NetworkPolicy.key agent.policies np } np = some agent' ∧
      Sound node owner agent' ∧ FreshOutside node agent' ∅ := by
  obtain ⟨agent', hagent', hs', hf'⟩ := reindexed_spec hw hs hf hok
    (agent.pods.map PodObject.indexed) (getObjNamespaces netPolPodFuncs node.namespaces np)
  refine ⟨agent', hagent', hs', hf'.mono ?_⟩
  intro podkey hd
  exact hs.selected podkey np.key hd.2.1 hnew

theorem selectorChanged_spec (hold : agent.policyByKey np.key = some oldnp) : ∃ agent', selectorChanged node order
        { agent with policies := setByKey NetworkPolicy.key agent.policies np } oldnp np = some agent' ∧
      Sound node owner agent' ∧
      FreshOutside node agent' {podkey | sameSpec node oldnp np = false ∧ np.key ∈ agent'.col podkey} := by
  have hpol := @policyByKey_set agent
    { agent with policies := setByKey NetworkPolicy.key agent.policies np } np rfl
  -- a change of the group or the directions is one that the handler sees
  have hseen : node.view { agent with policies := setByKey NetworkPolicy.key agent.policies np } np.key ≠
      node.view agent np.key → sameSpec node oldnp np = false := by
    intro hne
    by_contra hsame
    apply hne
    exact view_of_sameSpec hold ((hpol np.key).trans (if_pos rfl)) (hs.policies np.key oldnp hold) hok
      (Bool.not_eq_false _ ▸ hsame)
  unfold selectorChanged
  by_cases hsel : oldnp.podSelector = np.podSelector
  · rw [if_pos hsel]
    refine ⟨_, rfl, hs.withPolicy hok hs.holds (fun _ h _ => h) fun _ _ h _ => h, ?_⟩
    apply hf.change (Set.empty_subset _)
    intro podkey pod hp hclean
    refine ⟨hp, rfl, ?_, rfl⟩
    intro npkey hn
    by_cases hk : npkey = np.key
    · subst hk
      by_contra hne
      exact hclean ⟨hseen hne, hn⟩
    · exact view_congr ((hpol npkey).trans (if_neg hk))
  · rw [if_neg hsel]
    obtain ⟨agent', hagent', hs', hf'⟩ := reindexed_spec hw hs hf hok
      (agent.pods.map PodObject.indexed) (getObjNamespaces netPolPodFuncs node.namespaces np)
    refine ⟨agent', hagent', hs', hf'.mono ?_⟩
    intro podkey hd
    exact ⟨hseen hd.1, hd.2.2⟩

theorem networkPolicyChanged_spec (hold : agent.policyByKey np.key = some oldnp) :
    ∃ agent', networkPolicyChanged node order
        { agent with policies := setByKey NetworkPolicy.key agent.policies np } oldnp np = some agent' ∧
      Sound node owner agent' ∧ FreshOutside node agent' ∅ := by
  unfold networkPolicyChanged
  obtain ⟨mid, hmid, hs', hf'⟩ := selectorChanged_spec hw hs hf hok hold
  rw [hmid, bind_some]
  by_cases hsame : sameSpec node oldnp np
  · rw [if_pos hsame]
    refine ⟨mid, rfl, hs', hf'.mono ?_⟩
    intro podkey hd
    simp [hsame] at hd
  · rw [if_neg hsame]
    obtain ⟨agent', hagent', hr⟩ := (rebuilds_podChanged hw owner).foldlM
      (order.visit (mid.netPolPods.getPodForObj np.key)) hs' hf'
    refine ⟨agent', hagent', hr.sound, hr.fresh.mono ?_⟩
    intro podkey hd
    -- the index lists the pods of a policy and the policies of a pod alike
    obtain ⟨⟨-, hmem⟩, hout⟩ := hd
    obtain ⟨t, ht⟩ := hs'.holds
    apply hout
    unfold PodAgent.col at hmem
    rw [ht.cols, ← t.agree, ← ht.rows] at hmem
    exact (order.mem_visit _ podkey).mpr hmem

omit hok

theorem networkPolicyDeleted_spec (np : NetworkPolicy) : ∃ agent', networkPolicyDeleted node order
        { agent with policies := removeByKey NetworkPolicy.key agent.policies np.key } np = some agent' ∧
      Sound node owner agent' ∧ FreshOutside node agent' ∅ := by
  obtain ⟨t, ht⟩ := hs.holds
  have hht := holds_deleteSelectorObj netPolPodFuncs ht np
  have hwithin := colsWithin_deleteSelectorObj netPolPodFuncs ht np
  unfold networkPolicyDeleted
  generalize hr : agent.netPolPods.deleteSelectorObj netPolPodFuncs np = r at hht hwithin ⊢
  have hpol := @policyByKey_remove agent { agent with
    policies := removeByKey NetworkPolicy.key agent.policies np.key, netPolPods := r.1 } np.key rfl
  have hcols : ∀ podkey, r.1.getObjForPod podkey = (agent.col podkey).erase np.key := by
    intro podkey
    rw [hht.cols, setRow_cols, if_neg (Finset.notMem_empty podkey), ← ht.cols]
    rfl
  have hs' : Sound node owner { agent with
      policies := removeByKey NetworkPolicy.key agent.policies np.key, netPolPods := r.1 } := by
    refine ⟨⟨_, hht⟩, hs.owned, hs.fits, hs.cni, ?_, ?_, ?_⟩
    · intro npkey q hq
      rw [hpol] at hq
      by_cases hk : npkey = np.key
      · simp [hk] at hq
      · rw [if_neg hk] at hq
        exact hs.policies npkey q hq
    · intro npkey hn
      rw [← hr] at hn
      obtain ⟨hk, hn⟩ := mem_erase.mp hn
      have hk : npkey ≠ np.key := hk
      rw [hpol, if_neg hk]
      exact hs.indexed npkey hn
    · intro podkey npkey hn
      unfold PodAgent.col at hn
      rw [hcols] at hn
      rw [hpol, if_neg (Finset.ne_of_mem_erase hn)]
      exact hs.selected podkey npkey (Finset.mem_of_mem_erase hn)
  have hf' : FreshOutside node { agent with
      policies := removeByKey NetworkPolicy.key agent.policies np.key, netPolPods := r.1 }
      ↑r.2.pods := by
    apply hf.change (Set.empty_subset _)
    intro podkey pod hp hclean
    have hcol : r.1.getObjForPod podkey = agent.col podkey := by
      by_contra hne
      exact hclean (hwithin podkey hne)
    refine ⟨hp, hcol, ?_, rfl⟩
    intro npkey hn
    rw [← hcol, hcols] at hn
    exact view_congr ((hpol npkey).trans (if_neg (Finset.ne_of_mem_erase hn)))
  obtain ⟨agent', hagent', hrb⟩ := updatePods_spec hw hs' hf' r.2.pods
  refine ⟨agent', hagent', hrb.sound, hrb.fresh.mono ?_⟩
  intro podkey hd
  exact hd.2 hd.1

/-- What the API server guarantees of a pod: a namespace, and a uid of its own. -/
def PodOk (owner : String → String) (pod : PodObject) : Prop :=
  Namespaced pod.ns ∧ owner pod.uid = pod.key

theorem podSet_spec (hok : PodOk owner pod) : ∃ agent', podUpdated node order
        { agent with pods := setByKey PodObject.key agent.pods pod } pod = some agent' ∧
      Sound node owner agent' ∧ FreshOutside node agent' ∅ := by
  have hother : ∀ podkey, podkey ≠ pod.key →
      getByKey PodObject.key (setByKey PodObject.key agent.pods pod) podkey = agent.podByKey podkey :=
    fun podkey hk => getByKey_setByKey_other _ hk
  have hs' : Sound node owner { agent with pods := setByKey PodObject.key agent.pods pod } := by
    refine ⟨hs.holds, ?_, hs.fits, hs.cni, hs.policies, hs.indexed, hs.selected⟩
    intro podkey q hq
    by_cases hk : podkey = pod.key
    · subst hk
      obtain rfl : pod = q := some.inj ((getByKey_setByKey_same agent.pods pod).symm.trans hq)
      exact hok
    · exact hs.owned podkey q ((hother podkey hk).symm.trans hq)
  have hf' : FreshOutside node { agent with pods := setByKey PodObject.key agent.pods pod }
      {pod.key} := by
    apply hf.change (Set.empty_subset _)
    intro podkey q hq hclean
    exact ⟨(hother podkey hclean).symm.trans hq, rfl, fun _ _ => rfl, rfl⟩
  obtain ⟨agent', hagent', hr⟩ :=
    podUpdated_spec hw hs' hf' (getByKey_setByKey_same agent.pods pod)
  refine ⟨agent', hagent', hr.sound, hr.fresh.mono ?_⟩
  intro podkey hd
  exact hd.2 hd.1

end

/-- Only endpoints of the pod of this key go, and no other pod gets a CNI entry. -/
structure Forgets (owner : String → String) (key : String) (agent agent' : PodAgent) : Prop where
  pods : agent'.pods = agent.pods
  policies : agent'.policies = agent.policies
  index : agent'.netPolPods = agent.netPolPods
  eps : ∀ u, agent'.opflexEps u = agent.opflexEps u ∨ agent'.opflexEps u = none ∧ owner u = key
  cni : ∀ podid u, agent'.cniToPodID podid = some u → agent.cniToPodID podid = some u

theorem Forgets.trans {a b c : PodAgent} (hab : Forgets owner key a b) (hbc : Forgets owner key b c) :
    Forgets owner key a c := by
  refine ⟨hbc.pods.trans hab.pods, hbc.policies.trans hab.policies, hbc.index.trans hab.index, ?_,
    fun podid u hu => hab.cni podid u (hbc.cni podid u hu)⟩
  intro u
  rcases hbc.eps u with h | h
  · exact h ▸ hab.eps u
  · exact .inr h

theorem Forgets.sound (h : Forgets owner key agent agent') (hs : Sound node owner agent) : Sound node owner agent' := by
  obtain ⟨pods, policies, index, eps, cni, ips, uids⟩ := agent'
  obtain ⟨rfl, rfl, rfl, heps, hcni⟩ := h
  refine ⟨hs.holds, hs.owned, ?_, fun podid u hu => hs.cni podid u (hcni podid u hu), hs.policies,
    hs.indexed, hs.selected⟩
  intro u new hu
  rcases heps u with h | h
  · exact hs.fits u new (h ▸ hu)
  · rw [h.1] at hu
    cases hu

theorem forgets_cniEpDelete (hs : Sound node owner agent) (podid : String) :
    Forgets owner podid agent (cniEpDelete agent podid) := by
  unfold cniEpDelete
  cases hc : agent.cniToPodID podid with
  | none => exact ⟨rfl, rfl, rfl, fun _ => .inl rfl, fun _ _ h => h⟩
  | some uid =>
    refine ⟨rfl, rfl, rfl, ?_, ?_⟩
    · intro u
      by_cases hu : u = uid
      · exact .inr ⟨hu ▸ erase_same _ _, hu ▸ hs.cni podid uid hc⟩
      · exact .inl (erase_other _ hu)
    · intro k u hk
      by_cases he : k = podid
      · subst he
        simp at hk
      · exact (erase_other _ he).symm.trans hk

theorem forgets_foldl (podid : String) (conts : List String) (hs : Sound node owner agent) :
    Forgets owner podid agent (conts.foldl (fun agent _ => cniEpDelete agent podid) agent) := by
  induction conts generalizing agent with
  | nil => exact ⟨rfl, rfl, rfl, fun _ => .inl rfl, fun _ _ h => h⟩
  | cons cont conts ih =>
    have h := forgets_cniEpDelete hs podid
    exact h.trans (ih (h.sound hs))

theorem forgets_podDeletedLocked (order : RangeOrder String) (hs : Sound node owner agent) (hok : PodOk owner pod) :
    Forgets owner pod.key agent (podDeletedLocked (unconfigureAll node order agent pod.epMetaKey) pod) := by
  have hclear : Forgets owner pod.key agent (unconfigureAll node order agent pod.epMetaKey) := by
    rw [epMetaKey_eq_key hok.1]
    unfold unconfigureAll
    cases node.epMetadata pod.key with
    | none => exact ⟨rfl, rfl, rfl, fun _ => .inl rfl, fun _ _ h => h⟩
    | some mdmap => exact forgets_foldl pod.key _ hs
  refine hclear.trans ⟨rfl, rfl, rfl, ?_, fun _ _ h => h⟩
  intro u
  by_cases hu : u = pod.uid
  · exact .inr ⟨hu ▸ erase_same _ _, hu ▸ hok.2⟩
  · exact .inl (erase_other _ hu)

theorem podGone_spec (hs : Sound node owner agent) (hf : FreshOutside node agent ∅) (hok : PodOk owner pod) :
    let agent' := podDeleted node order
      { agent with pods := removeByKey PodObject.key agent.pods pod.key } pod
    Sound node owner agent' ∧ FreshOutside node agent' ∅ := by
  have hpods : ∀ podkey q,
      getByKey PodObject.key (removeByKey PodObject.key agent.pods pod.key) podkey = some q →
      podkey ≠ pod.key ∧ agent.podByKey podkey = some q := by
    intro podkey q hq
    rw [getByKey_removeByKey] at hq
    by_cases hk : podkey = pod.key
    · simp [hk] at hq
    · rw [if_neg hk] at hq
      exact ⟨hk, hq⟩
  have hs1 : Sound node owner
      { agent with pods := removeByKey PodObject.key agent.pods pod.key } :=
    ⟨hs.holds, fun podkey q hq => hs.owned podkey q (hpods podkey q hq).2, hs.fits, hs.cni,
      hs.policies, hs.indexed, hs.selected⟩
  have hforget := forgets_podDeletedLocked order hs1 hok
  have hs2 := hforget.sound hs1
  unfold podDeleted
  generalize podDeletedLocked (unconfigureAll node order
    { agent with pods := removeByKey PodObject.key agent.pods pod.key } pod.epMetaKey) pod = left
    at hforget hs2 ⊢
  obtain ⟨t, ht⟩ := hs2.holds
  have hht := holds_deletePod ht pod.indexed
  have hcol : ∀ podkey, (left.netPolPods.deletePod pod.indexed).1.getObjForPod podkey =
      if podkey = pod.key then ∅ else left.col podkey := by
    intro podkey
    rw [hht.cols, setCol_cols, ← ht.cols]
    rfl
  constructor
  · refine ⟨⟨_, hht⟩, hs2.owned, hs2.fits, hs2.cni, hs2.policies, hs2.indexed, ?_⟩
    intro podkey npkey hn
    unfold PodAgent.col at hn
    rw [hcol] at hn
    by_cases hk : podkey = pod.key
    · simp [hk] at hn
    · rw [if_neg hk] at hn
      exact hs2.selected podkey npkey hn
  · apply hf.change (Set.empty_subset _)
    intro podkey q hq _
    have hq : getByKey PodObject.key left.pods podkey = some q := hq
    rw [hforget.pods] at hq
    obtain ⟨hk, hold⟩ := hpods podkey q hq
    refine ⟨hold, ?_, ?_, ?_⟩
    · refine (hcol podkey).trans ((if_neg hk).trans ?_)
      unfold PodAgent.col
      rw [hforget.index]
    · intro npkey _
      apply view_congr
      exact congrArg (getByKey NetworkPolicy.key · npkey) hforget.policies
    · -- the endpoints of another pod are not those of the deleted one
      rcases hforget.eps q.uid with h | h
      · exact h
      · exact absurd rfl (hs.uid_ne hold hk h.2)

def PodEvent.Ok (owner : String → String) : PodEvent → Prop
  | .podSet _ pod | .podGone _ pod => PodOk owner pod
  | .policySet _ np => PolicyOk np
  | .policyGone _ _ => True

/-- The agent runs and every pod has the groups it should have. -/
def UpToDate (node : Node) (owner : String → String) (agent : Option PodAgent) : Prop :=
  ∃ a, agent = some a ∧ Sound node owner a ∧ FreshOutside node a ∅

theorem upToDate_step (hw : node.Wired) (agent : Option PodAgent) (e : PodEvent)
    (h : UpToDate node owner agent) (hok : e.Ok owner) : UpToDate node owner (podStep node agent e) := by
  obtain ⟨a, rfl, hs, hf⟩ := h
  show UpToDate node owner (e.handle node a)
  cases e with
  | podSet order pod => exact podSet_spec hw hs hf hok
  | podGone order pod => exact ⟨_, rfl, podGone_spec hs hf hok⟩
  | policySet order np =>
    cases hold : a.policyByKey np.key with
    | none =>
      simp only [PodEvent.handle, hold]
      exact networkPolicyAdded_spec hw hs hf hok hold
    | some oldnp =>
      simp only [PodEvent.handle, hold]
      exact networkPolicyChanged_spec hw hs hf hok hold
  | policyGone order np => exact networkPolicyDeleted_spec hw hs hf np

theorem upToDate_start (node : Node) (owner : String → String) : UpToDate node owner (some PodAgent.start) := by
  refine ⟨_, rfl, ⟨⟨_, holds_new⟩, ?_, ?_, ?_, ?_, ?_, ?_⟩, ?_⟩
  · intro podkey pod h
    cases h
  · intro u eps h
    cases h
  · intro podid u h
    cases h
  · intro npkey np h
    cases h
  · intro npkey h
    exact absurd h notMem_empty
  · intro podkey npkey h
    exact absurd h (Finset.notMem_empty npkey)
  · intro podkey pod h
    cases h

/-- After every run of pod and policy events the agent still runs, and every pod that is not
on the host network and has metadata has endpoints, each with the set of security groups
that `mergeNetPolSg` computes from the index and the policies as they are then. -/
theorem endpoints_have_current_groups (node : Node) (hw : node.Wired) (owner : String → String)
    (events : List PodEvent) (hok : ∀ e ∈ events, e.Ok owner) :
    ∃ agent, run (podStep node) (some PodAgent.start) events = some agent ∧
      ∀ podkey pod, agent.podByKey podkey = some pod → podFilter pod = true →
        ∀ epmetadata, node.epMetadata pod.epMetaKey = some epmetadata →
          ∃ eps, agent.opflexEps pod.uid = some eps ∧ eps ≠ [] ∧ ∀ ep ∈ eps, ∀ order, ep.securityGroup.toFinset =
              (mergeNetPolSg node order agent podkey pod (node.annotatedSg podkey pod.annotations)).toFinset := by
  obtain ⟨agent, hrun, -, hf⟩ :=
    invariant_run (upToDate_step hw) _ events (upToDate_start node owner) (along_of_forall _ _ hok)
  refine ⟨agent, hrun, ?_⟩
  intro podkey pod hp hfil epmetadata hm
  obtain ⟨eps, heps, hne, hsg⟩ := hf podkey pod hp (Set.notMem_empty podkey) hfil epmetadata hm
  refine ⟨eps, heps, hne, ?_⟩
  intro ep hep order
  rw [hsg ep hep, toFinset_mergeNetPolSg]
  rfl

def shopContainers : Containers := singleton "c1"
  ⟨⟨"shop", "web", "c1", ""⟩, [⟨"veth1", "eth0", "", "", [], ""⟩], ⟨"", false, "", ""⟩⟩

def shopNode : Node where
  aciPrefix := "kube"
  hppOptimization := true
  policySpace := "tenant"
  digest s := s
  namespaces := []
  annotatedEg _ _ := ⟨"", "tenant", "", "eg"⟩
  annotatedSg _ _ := []
  epMetadata := Map.empty.put "shop/web" shopContainers

def webPodObject : PodObject :=
  ⟨"shop", "web", "u1", some [("app", "web")], [], "node1", false, "10.1.0.4", []⟩

def webPolicy (app : String) : NetworkPolicy :=
  ⟨"shop", "allow", ⟨[("app", app)], []⟩, [], [], [.ingress]⟩

/-- The policy comes to select the pod by a change of its selector. -/
def shopEvents : List PodEvent :=
  [.policySet .sorted (webPolicy "db"), .podSet .sorted webPodObject,
    .policySet .sorted (webPolicy "web")]

theorem shopNode_wired : shopNode.Wired := by
  intro key md hmd
  by_cases hk : key = "shop/web"
  · subst hk
    obtain rfl : shopContainers = md := some.inj hmd
    decide
  · simp [shopNode, put_other, hk] at hmd

theorem endpoints_have_current_groups_shop :
    ∃ agent, run (podStep shopNode) (some PodAgent.start) shopEvents = some agent ∧
      ∃ eps, agent.opflexEps "u1" = some eps ∧ eps ≠ [] ∧ ∀ ep ∈ eps, ∀ order, ep.securityGroup.toFinset =
          (mergeNetPolSg shopNode order agent "shop/web" webPodObject.attributed []).toFinset := by
  obtain ⟨agent, hrun, hall⟩ := endpoints_have_current_groups shopNode shopNode_wired
    (fun _ => "shop/web") shopEvents (by
      intro e he
      simp only [shopEvents, mem_cons, not_mem_nil, or_false] at he
      rcases he with rfl | rfl | rfl
      · show PolicyOk _
        decide
      · exact ⟨by decide, by decide⟩
      · show PolicyOk _
        decide)
  have hpod : (run (podStep shopNode) (some PodAgent.start) shopEvents).bind
      (fun a => a.podByKey "shop/web") = some webPodObject.attributed := by decide +kernel
  rw [hrun, bind_some] at hpod
  exact ⟨agent, hrun, hall "shop/web" _ hpod (by decide) shopContainers rfl⟩

end AciContainers.Host
