import AciContainers.HostprotNames

/-!
# What host protection rules allow

The rules that are written for a rule of a policy, as what they allow: the remotes, and the ports
for a remote that the rule selects. A rule that is written for one kind of addresses has the
remotes of this kind only; if there are none, it is for any remote of the kind.
-/
namespace AciContainers.Hostprot

open Index Maps Policy TargetPorts List
open NetPol

def HostprotRule.AllowsRemote (r : HostprotRule) (remote : String) : Prop :=
  remoteEthertype remote = some r.ethertype ∧ (r.remoteIps = [] ∨ remote ∈ r.remoteIps)

variable {c : Controller} {np : NetworkPolicy} {direction : Direction} {rule : Rule} {remotes : List String}

theorem peerRemotes_nil (candidates : List Pod × List Namespace) (h : rule.peers = []) :
    (peerRemotes np candidates rule).1 = [] := by
  have hpods : ∀ r : Remotes, candidates.1.foldl (fun r _ => r) r = r := by
    intro r
    induction candidates.1 with
    | nil => rfl
    | cons pod pods ih => exact ih
  simp [peerRemotes, getPeerRemoteSubnets, h, hpods]

/-- The rule gives a port number, or is for all ports. -/
def Controller.GivesPort (c : Controller) (np : NetworkPolicy) (direction : Direction) (rule : Rule) : Prop :=
  rule.ports = [] ∨ ∃ p ∈ rule.ports, c.portList np direction p ≠ []

instance : Decidable (c.GivesPort np direction rule) := inferInstanceAs (Decidable (_ ∨ _))

/-- The remote is among those of the rule, or none of its kind is. -/
def Takes (rule : Rule) (remotes : List String) (remote : String) : Prop :=
  ¬ (rule.peers ≠ [] ∧ remotes = []) ∧
    ((∀ x ∈ remotes, remoteEthertype x ≠ remoteEthertype remote) ∨ remote ∈ remotes)

section

variable {remote : String} (hkind : ∃ e ∈ c.ethertypes, remoteEthertype remote = some e) (ruleName subjDn : String)
include hkind

/-- What is written for a rule to a remote, for whatever it tells of protocols and ports. -/
theorem exists_rule_iff (tells : Option Proto → Option Int → Prop) :
    (∃ r ∈ c.buildNetPolSubjRules ruleName subjDn direction rule.peers remotes rule.ports np,
      r.AllowsRemote remote ∧ tells r.protocol r.toPort) ↔ Takes rule remotes remote ∧
        (rule.ports = [] ∧ tells none none ∨ ∃ p ∈ rule.ports, ∃ n ∈ c.portList np direction p,
          tells (some (portProto p.protocol)) (some n)) := by
  obtain ⟨e, he, hkind⟩ := hkind
  have hbuild : ∀ {ruleName ethertype proto port},
      (buildNetPolSubjRule subjDn ruleName direction ethertype proto port remotes).AllowsRemote remote ↔
        remoteEthertype remote = some ethertype ∧
          ((∀ x ∈ remotes, remoteEthertype x ≠ remoteEthertype remote) ∨ remote ∈ remotes) := by
    intro ruleName ethertype proto port
    refine and_congr_right fun hkind => ?_
    simp [buildNetPolSubjRule, hkind]
  unfold Controller.buildNetPolSubjRules Takes
  by_cases hnone : rule.peers ≠ [] ∧ remotes = []
  · simp [hnone]
  · rw [if_neg hnone]
    by_cases hports : rule.ports = []
    · simp only [hports, if_true, mem_map, not_mem_nil, false_and, exists_false, or_false, true_and]
      constructor
      · rintro ⟨r, ⟨e', -, rfl⟩, hallows, htells⟩
        exact ⟨⟨hnone, (hbuild.mp hallows).2⟩, htells⟩
      · rintro ⟨⟨-, hallows⟩, htells⟩
        exact ⟨_, ⟨e, he, rfl⟩, hbuild.mpr ⟨hkind, hallows⟩, htells⟩
    · simp only [hports, if_false, mem_flatMap, mem_map, false_and, false_or]
      constructor
      · rintro ⟨r, ⟨pj, hpj, ni, hni, e', -, rfl⟩, hallows, htells⟩
        exact ⟨⟨hnone, (hbuild.mp hallows).2⟩, pj.1, fst_mem_of_mem_zipIdx hpj, ni.1, fst_mem_of_mem_zipIdx hni, htells⟩
      · rintro ⟨⟨-, hallows⟩, p, hp, n, hn, htells⟩
        obtain ⟨j, hj⟩ := getElem?_of_mem hp
        obtain ⟨k, hk⟩ := getElem?_of_mem hn
        exact ⟨_, ⟨(p, j), mem_zipIdx_iff_getElem?.mpr hj, (n, k), mem_zipIdx_iff_getElem?.mpr hk, e, he, rfl⟩,
          hbuild.mpr ⟨hkind, hallows⟩, htells⟩

theorem allowsRemote_iff :
    (∃ r ∈ c.buildNetPolSubjRules ruleName subjDn direction rule.peers remotes rule.ports np, r.AllowsRemote remote) ↔
      c.GivesPort np direction rule ∧ Takes rule remotes remote := by
  have hiff : (∃ r ∈ c.buildNetPolSubjRules ruleName subjDn direction rule.peers remotes rule.ports np,
      r.AllowsRemote remote ∧ True) ↔ _ := exists_rule_iff hkind ruleName subjDn fun _ _ => True
  have hnums : ∀ p, c.portList np direction p ≠ [] ↔ ∃ n, n ∈ c.portList np direction p := fun p =>
    ⟨exists_mem_of_ne_nil _, fun hex => ne_nil_of_mem hex.choose_spec⟩
  simp only [and_true] at hiff
  simp only [hiff, Controller.GivesPort, hnums]
  exact and_comm

end

/-- Some pod of the cluster has the address. -/
def PodAddress (cluster : Cluster) (ip : String) : Prop := ∃ pod ∈ cluster.pods, ip ∈ ipsForPod pod

/-- A rule that allows anything allows something of each kind of address that pods have. -/
def Balanced (cluster : Cluster) (np : NetworkPolicy) (rule : Rule) : Prop :=
  (∃ x, RuleAllows cluster np.ns rule x) → ∀ ip, PodAddress cluster ip →
    ∃ x, RuleAllows cluster np.ns rule x ∧ remoteEthertype x = remoteEthertype ip

/-- The rule gives a port, half of a peer means no more than the rule does, and the rule is
balanced; or it gives none, and no pod either. -/
def Controller.Faithful (c : Controller) (cluster : Cluster) (np : NetworkPolicy) (direction : Direction)
    (rule : Rule) : Prop :=
  if c.GivesPort np direction rule then HalvesAllowed cluster np rule ∧ Balanced cluster np rule
  else ∀ ip, PodAddress cluster ip → ¬ RuleAllows cluster np.ns rule ip

section

variable {cluster : Cluster} {ingressPods egressPods : List String} (h : ValidPolicy np)
  (hin : Reflects cluster np netPolIngressPods ingressPods) (heg : Reflects cluster np netPolEgressPods egressPods)
  (hrule : rule ∈ np.rules direction)
include h hin heg hrule

theorem mem_peerRemotes (hpeers : rule.peers ≠ []) (ip : String) :
    (RuleAllows cluster np.ns rule ip → ip ∈ (peerRemotes np (peerPods cluster (ingressPods ++ egressPods)) rule).1) ∧
    (HalvesAllowed cluster np rule → ip ∈ (peerRemotes np (peerPods cluster (ingressPods ++ egressPods)) rule).1 →
      RuleAllows cluster np.ns rule ip) := by
  have hmem := mem_remotes h hin heg hrule ip
  refine ⟨fun hallows => hmem.mpr ?_, fun hhalves hip => ?_⟩
  · rcases hallows with hnone | ⟨pod, hpod, ⟨peer, hpeer, hsel⟩, hip⟩ | hblock
    · exact absurd hnone hpeers
    · exact .inl ⟨pod, hpod, ⟨direction, rule, hrule, peer, hpeer, hsel⟩, ⟨peer, hpeer, .inl hsel⟩, hip⟩
    · exact .inr hblock
  · rcases hmem.mp hip with ⟨pod, hpod, hcand, ⟨peer, hpeer, hsel | hhalf⟩, hip⟩ | hblock
    · exact .inr (.inl ⟨pod, hpod, ⟨peer, hpeer, hsel⟩, hip⟩)
    · exact hhalves pod hpod hcand peer hpeer hhalf ip hip
    · exact .inr (.inr hblock)

theorem exact_of_halves (hpeers : rule.peers ≠ []) (hhalves : HalvesAllowed cluster np rule)
    (hbalanced : Balanced cluster np rule) {ip : String} (hip : PodAddress cluster ip) :
    Takes rule (peerRemotes np (peerPods cluster (ingressPods ++ egressPods)) rule).1 ip ↔
      RuleAllows cluster np.ns rule ip := by
  have hmem : ∀ x, x ∈ (peerRemotes np (peerPods cluster (ingressPods ++ egressPods)) rule).1 ↔
      RuleAllows cluster np.ns rule x := fun x =>
    ⟨(mem_peerRemotes h hin heg hrule hpeers x).2 hhalves, (mem_peerRemotes h hin heg hrule hpeers x).1⟩
  generalize (peerRemotes np (peerPods cluster (ingressPods ++ egressPods)) rule).1 = remotes at hmem ⊢
  rw [← hmem]
  constructor
  · rintro ⟨hsome, hallowed⟩
    refine hallowed.resolve_left fun hnokind => ?_
    obtain ⟨x, hx⟩ := exists_mem_of_ne_nil remotes fun hnil => hsome ⟨hpeers, hnil⟩
    obtain ⟨y, hy, hkind⟩ := hbalanced ⟨x, (hmem x).mp hx⟩ ip hip
    exact hnokind y ((hmem y).mpr hy) hkind
  · exact fun hip => ⟨fun hnil => ne_nil_of_mem hip hnil.2, .inr hip⟩

theorem halves_of_exact (hpeers : rule.peers ≠ [])
    (hexact : ∀ ip, PodAddress cluster ip →
      (Takes rule (peerRemotes np (peerPods cluster (ingressPods ++ egressPods)) rule).1 ip ↔
        RuleAllows cluster np.ns rule ip)) :
    HalvesAllowed cluster np rule ∧ Balanced cluster np rule := by
  have hhalves : HalvesAllowed cluster np rule := by
    intro pod hpod hcand peer hpeer hhalf ip hip
    have hmem := (mem_remotes h hin heg hrule ip).mpr (.inl ⟨pod, hpod, hcand, ⟨peer, hpeer, .inr hhalf⟩, hip⟩)
    exact (hexact ip ⟨pod, hpod, hip⟩).mp ⟨fun hnil => ne_nil_of_mem hmem hnil.2, .inr hmem⟩
  refine ⟨hhalves, ?_⟩
  rintro ⟨x, hx⟩ ip hip
  have hx' := (mem_peerRemotes h hin heg hrule hpeers x).1 hx
  by_cases hkind : ∃ y ∈ (peerRemotes np (peerPods cluster (ingressPods ++ egressPods)) rule).1,
      remoteEthertype y = remoteEthertype ip
  · obtain ⟨y, hy, hkind⟩ := hkind
    exact ⟨y, (mem_peerRemotes h hin heg hrule hpeers y).2 hhalves hy, hkind⟩
  · have hnokind := fun y hy he => hkind ⟨y, hy, he⟩
    exact ⟨ip, (hexact ip hip).mp ⟨fun hnil => ne_nil_of_mem hx' hnil.2, .inl hnokind⟩, rfl⟩

end

theorem mem_of_mapM {α β : Type} {f : α → Option β} {l : List α} {out : List β} (h : l.mapM f = some out) {b : β}
    (hb : b ∈ out) : ∃ a ∈ l, f a = some b := by
  induction l generalizing out with
  | nil =>
    obtain rfl : [] = out := by simpa using h
    exact absurd hb not_mem_nil
  | cons a l ih =>
    simp only [mapM_cons, Option.bind_eq_bind, Option.bind_eq_some_iff, Option.pure_def, Option.some.injEq] at h
    obtain ⟨b', ha, bs, hbs, rfl⟩ := h
    rcases mem_cons.mp hb with rfl | hb
    · exact ⟨a, mem_cons_self, ha⟩
    · obtain ⟨a', ha', hf⟩ := ih hbs hb
      exact ⟨a', mem_cons_of_mem _ ha', hf⟩

theorem compiledRule_subset {remotes : Rule → List String × Finset String} {polDn : String}
    {subjects : List (Direction × List HostprotRule)}
    (hsubjects : c.handleNetPolUpdate remotes polDn np = some subjects)
    {rules : List HostprotRule} (hrules : (direction, rules) ∈ subjects) {i : Nat}
    (hrule : (np.rules direction)[i]? = some rule) :
    c.compiledRule remotes (subjDn polDn direction) np direction i rule ⊆ rules := by
  have hsubject : c.subject remotes polDn np direction = some rules := by
    obtain ⟨d, -, hd⟩ := mem_of_mapM hsubjects hrules
    obtain ⟨rules', hrules', heq⟩ := Option.map_eq_some_iff.mp hd
    obtain ⟨rfl, rfl⟩ := Prod.mk.inj heq
    exact hrules'
  have hpart : c.compiledRule remotes (subjDn polDn direction) np direction i rule ⊆
      c.subjRules remotes (subjDn polDn direction) np direction := fun r hr =>
    mem_flatMap.mpr ⟨(rule, i), mem_zipIdx_iff_getElem?.mpr hrule, hr⟩
  cases direction with
  | ingress => exact fun r hr => Option.some.inj hsubject ▸ hpart hr
  | egress =>
    obtain ⟨services, -, rfl⟩ := Option.map_eq_some_iff.mp hsubject
    exact fun r hr => mem_append_left _ (hpart hr)

/-- Where the indexes reflect the cluster and pods have addresses of the kinds of the pod network,
what is written for a rule allows the pod addresses that it means if and only if it is `Faithful`. -/
theorem compiledRule_remotes_iff (c : Controller) (cluster : Cluster) (np : NetworkPolicy) (h : ValidPolicy np)
    (ingressPods egressPods : List String) (hin : Reflects cluster np netPolIngressPods ingressPods)
    (heg : Reflects cluster np netPolEgressPods egressPods)
    (hkinds : ∀ ip, PodAddress cluster ip → ∃ e ∈ c.ethertypes, remoteEthertype ip = some e)
    (direction : Direction) (i : Nat) (rule : Rule) (hrule : (np.rules direction)[i]? = some rule) (polDn : String)
    (subjects : List (Direction × List HostprotRule)) (rules : List HostprotRule)
    (hsubjects : c.handleNetPolUpdate (peerRemotes np (peerPods cluster (ingressPods ++ egressPods))) polDn np =
      some subjects) (hrules : (direction, rules) ∈ subjects) :
    let compiled := c.compiledRule (peerRemotes np (peerPods cluster (ingressPods ++ egressPods)))
      (subjDn polDn direction) np direction i rule
    compiled ⊆ rules ∧
      ((∀ ip, PodAddress cluster ip → ((∃ r ∈ compiled, r.AllowsRemote ip) ↔ RuleAllows cluster np.ns rule ip)) ↔
        c.Faithful cluster np direction rule) := by
  intro compiled
  refine ⟨compiledRule_subset hsubjects hrules hrule, ?_⟩
  have hmem : rule ∈ np.rules direction := mem_of_getElem? hrule
  have hallows : ∀ ip, PodAddress cluster ip → ((∃ r ∈ compiled, r.AllowsRemote ip) ↔ _) :=
    fun ip hip => allowsRemote_iff (hkinds ip hip) _ _
  rw [forall₂_congr fun ip hip => iff_congr (hallows ip hip) Iff.rfl]
  unfold Controller.Faithful
  split
  · next hport =>
    simp only [hport, true_and]
    by_cases hpeers : rule.peers = []
    · have hall : ∀ ip, RuleAllows cluster np.ns rule ip := fun ip => .inl hpeers
      refine iff_of_true (fun ip _ => ?_) ⟨fun pod _ _ peer hpeer => ?_, fun _ ip _ => ⟨ip, hall ip, rfl⟩⟩
      · simp [Takes, hall, hpeers, peerRemotes_nil]
      · exact absurd hpeer (by simp [hpeers])
    · refine ⟨fun hexact => halves_of_exact h hin heg hmem hpeers hexact, ?_⟩
      rintro ⟨hhalves, hbalanced⟩ ip hip
      exact exact_of_halves h hin heg hmem hpeers hhalves hbalanced hip
  · next hport => simp [hport]

/-- Two ingress rules: web pods of the team's namespaces, and all pods of these. -/
def teamPolicy : NetworkPolicy where
  ns := "shop"
  name := "db"
  podSelector := ⟨[], []⟩
  ingress :=
    [⟨[⟨some ⟨[("app", "web")], []⟩, some ⟨[("team", "a")], []⟩, none⟩], []⟩,
      ⟨[⟨none, some ⟨[("team", "a")], []⟩, none⟩], []⟩]
  egress := []
  policyTypes := [.ingress]

def jobCluster : Cluster where
  namespaces := [⟨"dev", [("team", "a")]⟩]
  pods := [⟨"dev", "job", [("app", "job")], "10.1.0.9", []⟩]
  names_nodup := by decide
  podKeys_nodup := by decide
  homed := by decide

theorem teamPolicy_valid : ValidPolicy teamPolicy := by
  have hweb : (Labels.LabelSelector.mk [("app", "web")] []).Valid := by decide
  have hteam : (Labels.LabelSelector.mk [("team", "a")] []).Valid := by decide
  intro d rule hrule peer hpeer
  cases d with
  | ingress =>
    simp only [NetworkPolicy.rules, teamPolicy, mem_cons, not_mem_nil, or_false] at hrule
    rcases hrule with rfl | rfl
    · rw [mem_singleton.mp hpeer]
      exact ⟨by simpa using hweb, by simpa using hteam, by simp⟩
    · rw [mem_singleton.mp hpeer]
      exact ⟨by simp, by simpa using hteam, by simp⟩
  | egress => exact absurd hrule not_mem_nil

theorem jobCluster_reflects_team : Reflects jobCluster teamPolicy netPolIngressPods ["dev/job"] ∧
    Reflects jobCluster teamPolicy netPolEgressPods [] := by
  have hteam : (Labels.LabelSelector.mk [("team", "a")] []).matchesLabels [("team", "a")] = true := by decide
  have hkey : podKey ⟨"dev", "job", [("app", "job")], "10.1.0.9", []⟩ = "dev/job" := by decide
  constructor
  · intro k
    have hsel := selects_iff teamPolicy_valid .ingress jobCluster.namespaces
    simp only [netPolIngressPods, ingressPodSelector, hsel]
    simp only [jobCluster, teamPolicy, NetworkPolicy.rules, Peer.Selects, NamespaceMatches, mem_cons,
      not_mem_nil, or_false, exists_eq_or_imp, exists_eq_left, hkey, hteam, and_true, or_true]
    exact eq_comm
  · intro k
    have hsel := selects_iff teamPolicy_valid .egress jobCluster.namespaces
    simp only [netPolEgressPods, egressPodSelector, hsel]
    simp [teamPolicy, NetworkPolicy.rules]

theorem podAddress_job {ip : String} : PodAddress jobCluster ip ↔ ip = "10.1.0.9" := by
  simp [PodAddress, jobCluster, ipsForPod]

/-- The rule whose peer has one selector allows what it tells. -/
theorem compiledRule_remotes_team :
    let remotes := peerRemotes teamPolicy (peerPods jobCluster (["dev/job"] ++ []))
    ∃ rules, webController.handleNetPolUpdate remotes "uni/tn-t/pol-p" teamPolicy = some [(.ingress, rules)] ∧
      ∀ ip, PodAddress jobCluster ip →
        ((∃ r ∈ webController.compiledRule remotes (subjDn "uni/tn-t/pol-p" .ingress) teamPolicy .ingress 1
            ⟨[⟨none, some ⟨[("team", "a")], []⟩, none⟩], []⟩, r.AllowsRemote ip) ↔
          RuleAllows jobCluster "shop" ⟨[⟨none, some ⟨[("team", "a")], []⟩, none⟩], []⟩ ip) := by
  intro remotes
  refine ⟨_, rfl, ?_⟩
  refine (compiledRule_remotes_iff webController jobCluster teamPolicy teamPolicy_valid ["dev/job"] []
    jobCluster_reflects_team.1 jobCluster_reflects_team.2 ?_ .ingress 1 _ rfl "uni/tn-t/pol-p" _ _ rfl
    (mem_singleton_self _)).2.mpr ?_
  · intro ip hip
    rw [podAddress_job.mp hip]
    exact ⟨.ipv4, by decide, by decide⟩
  · rw [Controller.Faithful, if_pos (.inl rfl)]
    refine ⟨fun pod _ _ peer hpeer hhalf => ?_, fun _ ip hip => ⟨ip, .inr (.inl ?_), rfl⟩⟩
    · rw [mem_singleton.mp hpeer] at hhalf
      exact hhalf.elim
    · obtain ⟨pod, hpod, hip⟩ := hip
      refine ⟨pod, hpod, ⟨_, mem_singleton_self _, ?_⟩, hip⟩
      rw [mem_singleton.mp hpod]
      exact ⟨_, mem_singleton_self _, rfl, by decide⟩

/-- The other rule allows the job pod, which its peer does not select: the pod is a candidate of
the second rule, and the first rule tests it by its namespace only. -/
theorem compiledRule_remotes_fails :
    ValidPolicy teamPolicy ∧ Reflects jobCluster teamPolicy netPolIngressPods ["dev/job"] ∧
      Reflects jobCluster teamPolicy netPolEgressPods [] ∧ ∃ rule, (teamPolicy.rules .ingress)[0]? = some rule ∧
      (∃ r ∈ webController.compiledRule (peerRemotes teamPolicy (peerPods jobCluster ["dev/job"])) "subj" teamPolicy
        .ingress 0 rule, r.AllowsRemote "10.1.0.9") ∧ ¬ RuleAllows jobCluster "shop" rule "10.1.0.9" := by
  refine ⟨teamPolicy_valid, jobCluster_reflects_team.1, jobCluster_reflects_team.2, _, rfl, ?_, ?_⟩
  · exact (allowsRemote_iff ⟨.ipv4, by decide, by decide⟩ _ _).mpr ⟨.inl rfl, by decide, .inr (by decide)⟩
  · have hjob : (Labels.LabelSelector.mk [("app", "web")] []).matchesLabels [("app", "job")] = false := by decide
    rintro (hnil | ⟨pod, hpod, ⟨peer, hpeer, hsel⟩, -⟩ | ⟨peer, hpeer, ipblock, -, hblock, -⟩)
    · simp at hnil
    · rw [mem_singleton.mp hpeer, mem_singleton.mp hpod] at hsel
      exact absurd hsel.1 (by simp [hjob])
    · rw [mem_singleton.mp hpeer] at hblock
      simp at hblock

/-!
# Ports

For a remote that a rule selects, the rules written for it allow the numbers that the ports of the
rule stand for. The numbers of a name come from the pods of the policy for ingress, by the first
port of a pod that has the name. For egress they come from the index of target ports, which has one
entry a name and protocol for all policies: each policy that is added puts its own numbers there.
-/

/-- The protocol of a port as the API writes it. -/
def protocolText : Proto → String
  | .tcp => "TCP"
  | .udp => "UDP"
  | .sctp => "SCTP"

theorem protocolText_portProto {protocol : Option String}
    (h : ∀ s ∈ protocol, s = "TCP" ∨ s = "UDP" ∨ s = "SCTP") (proto : Proto) :
    protocol.getD "TCP" = protocolText proto ↔ portProto protocol = proto := by
  match protocol, h with
  | none, _ => cases proto <;> decide
  | some s, h =>
    rcases h s rfl with rfl | rfl | rfl <;> cases proto <;> decide

def HostprotRule.Allows (r : HostprotRule) (remote : String) (proto : Proto) (port : Int) : Prop :=
  r.AllowsRemote remote ∧ (∀ p ∈ r.protocol, p = proto) ∧ ∀ n ∈ r.toPort, n = port

/-- The pods whose ports the rule is about: those of the policy for ingress, and for egress those
that the rule selects. -/
def Controller.Target (c : Controller) (namespaces : List Namespace) (np : NetworkPolicy) (direction : Direction)
    (rule : Rule) (pod : PodPorts) : Prop :=
  pod ∈ c.ports.pods ∧
    match direction with
    | .ingress => pod.pod.ns = np.ns ∧ np.podSelector.matchesLabels pod.pod.labels
    | .egress => rule.peers = [] ∨ ∃ peer ∈ rule.peers, peer.Selects namespaces np.ns pod.pod

/-- One of the pods has a port with the name, the protocol and the number. -/
def Named (pods : PodPorts → Prop) (name : String) (proto : Proto) (n : Int) : Prop :=
  ∃ pod, pods pod ∧ ∃ q ∈ pod.ports, q.name = name ∧ q.protocol = protocolText proto ∧ (q.containerPort : Int) = n

/-- The port means the number, for a name by the pods. -/
def PortMeans (pods : PodPorts → Prop) (p : Port) (proto : Proto) (n : Int) : Prop :=
  p.protocol.getD "TCP" = protocolText proto ∧
    (p.port = none ∨ p.port = some (.int n) ∨ ∃ name, p.port = some (.str name) ∧ Named pods name proto n)

/-- The remote is one of those of the rule, of a kind that the pod network has. -/
def Controller.Selected (c : Controller) (remotes : List String) (rule : Rule) (remote : String) : Prop :=
  (rule.peers = [] ∨ remote ∈ remotes) ∧ ∃ e ∈ c.ethertypes, remoteEthertype remote = some e

/-- What the generated rules allow to a remote that the rule selects. -/
theorem allowed_iff (hnil : rule.peers = [] → remotes = []) {remote : String} (h : c.Selected remotes rule remote)
    (ruleName subjDn : String) (proto : Proto) (port : Int) :
    (∃ r ∈ c.buildNetPolSubjRules ruleName subjDn direction rule.peers remotes rule.ports np,
      r.Allows remote proto port) ↔
      rule.ports = [] ∨ ∃ p ∈ rule.ports, portProto p.protocol = proto ∧ port ∈ c.portList np direction p := by
  obtain ⟨hselected, hkind⟩ := h
  have htakes : Takes rule remotes remote := by
    refine ⟨?_, hselected.imp_left fun hpeers => by simp [hnil hpeers]⟩
    rintro ⟨hpeers, rfl⟩
    exact hselected.elim hpeers not_mem_nil
  refine (exists_rule_iff hkind ruleName subjDn
    fun protocol toPort => (∀ p ∈ protocol, p = proto) ∧ ∀ n ∈ toPort, n = port).trans ?_
  simp [htakes, and_comm]

/-- The index of the pods of policies has those that the policy selects. -/
def Controller.PodsIndexed (c : Controller) (np : NetworkPolicy) : Prop :=
  (c.ports.pods.map PodPorts.key).Nodup ∧ ∀ podkey, podkey ∈ c.netPolPods np.key ↔ ∃ pod ∈ c.ports.pods,
    pod.key = podkey ∧ pod.pod.ns = np.ns ∧ np.podSelector.matchesLabels pod.pod.labels

/-- The number is known for a port of a rule. For a name in an egress rule it is in the index; for
one in an ingress rule, of a policy with a selector, it is that of the first port with the name of
a pod of the policy. -/
def Controller.Knows (c : Controller) (np : NetworkPolicy) (direction : Direction) (p : Port) (n : Int) : Prop :=
  p.port = some (.int n) ∨ ∃ name, p.port = some (.str name) ∧
    match direction with
    | .ingress => np.podSelector ≠ ⟨[], []⟩ ∧ ∃ pod ∈ c.ports.pods, pod.pod.ns = np.ns ∧
        np.podSelector.matchesLabels pod.pod.labels ∧ (lookupContainerPortNumberByName pod name).map Int.ofNat = some n
    | .egress => ∃ entry, c.ports.targetPortIndex (.name (portProto p.protocol) name) = some entry ∧
      n ∈ entry.port.ports

theorem mem_getPortNumsFromPortName {pods : List PodPorts} (hnodup : (pods.map PodPorts.key).Nodup)
    {podKeys : Finset String} {chosen : PodPorts → Prop}
    (hkeys : ∀ k, k ∈ podKeys ↔ ∃ pod ∈ pods, pod.key = k ∧ chosen pod) (name : String) (n : Int) :
    n ∈ getPortNumsFromPortName (getByKey PodPorts.key pods) podKeys name ↔
      ∃ pod ∈ pods, chosen pod ∧ (lookupContainerPortNumberByName pod name).map Int.ofNat = some n := by
  simp only [getPortNumsFromPortName, Finset.mem_biUnion, hkeys, Option.mem_toFinset, Option.mem_def,
    Option.map_eq_some_iff, Option.bind_eq_some_iff, getByKey_eq_some_iff hnodup]
  constructor
  · rintro ⟨k, ⟨pod, hpod, rfl, hchosen⟩, m, ⟨pod', ⟨hpod', hkey⟩, hm⟩, rfl⟩
    obtain rfl : pod' = pod := inj_on_of_nodup_map hnodup hpod' hpod hkey
    exact ⟨pod', hpod, hchosen, m, hm, rfl⟩
  · rintro ⟨pod, hpod, hchosen, m, hm, rfl⟩
    exact ⟨pod.key, ⟨pod, hpod, rfl, hchosen⟩, m, ⟨pod, ⟨hpod, rfl⟩, hm⟩, rfl⟩

theorem mem_portList (hindexed : c.PodsIndexed np) (p : Port) (n : Int) :
    n ∈ c.portList np direction p ↔ c.Knows np direction p n := by
  unfold Controller.portList Controller.Knows
  cases hp : p.port with
  | none => simp
  | some port =>
    cases port with
    | int m =>
      simp only [mem_singleton, Option.some.injEq, IntOrString.int.injEq, reduceCtorEq, false_and, exists_false,
        or_false]
      exact eq_comm
    | str name =>
      cases direction with
      | ingress =>
        have hmem : n ∈ getPortNumsFromPortName c.ports.podByKey (c.netPolPods np.key) name ↔ _ :=
          mem_getPortNumsFromPortName hindexed.1 hindexed.2 name n
        by_cases hselector : np.podSelector = ⟨[], []⟩
        · simp [hselector]
        · simpa [hselector, Controller.resolve, c.portOrder.mem_visit, and_assoc] using hmem
      | egress =>
        cases hindex : c.ports.targetPortIndex (.name (portProto p.protocol) name) with
        | none => simp [Controller.resolve, Controller.getPortNums, portKey, hp, hindex]
        | some entry => simp [Controller.resolve, Controller.getPortNums, portKey, hp, hindex, c.portOrder.mem_visit]

/-- Every port has a number or a name. A number that is known for a name is one that the rule means,
and one that a pod gives to the name is known for a port of the rule. -/
def Controller.Listing (c : Controller) (namespaces : List Namespace) (np : NetworkPolicy) (direction : Direction)
    (rule : Rule) : Prop :=
  ∀ p ∈ rule.ports, p.port ≠ none ∧ ∀ name, p.port = some (.str name) →
    (∀ n, c.Knows np direction p n →
      ∃ q ∈ rule.ports, PortMeans (c.Target namespaces np direction rule) q (portProto p.protocol) n) ∧
    ∀ n, Named (c.Target namespaces np direction rule) name (portProto p.protocol) n →
      ∃ q ∈ rule.ports, portProto q.protocol = portProto p.protocol ∧ c.Knows np direction q n

/-- The rules allow to the remote the ports that the rule means. -/
def Controller.PortsExact (c : Controller) (namespaces : List Namespace) (np : NetworkPolicy) (direction : Direction)
    (rule : Rule) (remote : String) (compiled : List HostprotRule) : Prop :=
  ∀ proto port, (∃ r ∈ compiled, r.Allows remote proto port) ↔ rule.ports = [] ∨
    ∃ p ∈ rule.ports, PortMeans (c.Target namespaces np direction rule) p proto port

theorem portsExact_iff (namespaces : List Namespace)
    (hvalid : ∀ p ∈ rule.ports, ∀ s ∈ p.protocol, s = "TCP" ∨ s = "UDP" ∨ s = "SCTP") (hindexed : c.PodsIndexed np)
    (hnil : rule.peers = [] → remotes = []) {remote : String} (hremote : c.Selected remotes rule remote)
    (ruleName subjDn : String) :
    c.PortsExact namespaces np direction rule remote
        (c.buildNetPolSubjRules ruleName subjDn direction rule.peers remotes rule.ports np) ↔
      c.Listing namespaces np direction rule := by
  simp only [Controller.PortsExact, allowed_iff hnil hremote, mem_portList hindexed]
  have hproto : ∀ p ∈ rule.ports, ∀ proto, p.protocol.getD "TCP" = protocolText proto ↔ portProto p.protocol = proto :=
    fun p hp => protocolText_portProto (hvalid p hp)
  constructor
  · intro h p hp
    have hknown : ∀ n, PortMeans (c.Target namespaces np direction rule) p (portProto p.protocol) n →
        ∃ q ∈ rule.ports, portProto q.protocol = portProto p.protocol ∧ c.Knows np direction q n := fun n hn =>
      ((h _ n).mpr (.inr ⟨p, hp, hn⟩)).resolve_left (ne_nil_of_mem hp)
    refine ⟨fun hnone => ?_, fun name hname => ⟨fun n hn => ?_, fun n hn => ?_⟩⟩
    · -- a number that no port of the rule stands for
      obtain ⟨n, hn⟩ := Infinite.exists_notMem_finset (rule.ports.flatMap (c.portList np direction)).toFinset
      obtain ⟨q, hq, -, hknows⟩ := hknown n ⟨(hproto p hp _).mpr rfl, .inl hnone⟩
      rw [mem_toFinset] at hn
      exact hn (mem_flatMap.mpr ⟨q, hq, (mem_portList hindexed q n).mpr hknows⟩)
    · exact ((h _ n).mp (.inr ⟨p, hp, rfl, hn⟩)).resolve_left (ne_nil_of_mem hp)
    · exact hknown n ⟨(hproto p hp _).mpr rfl, .inr (.inr ⟨name, hname, hn⟩)⟩
  · intro h proto port
    refine or_congr_right ⟨?_, ?_⟩
    · rintro ⟨p, hp, rfl, hknows⟩
      rcases id hknows with hint | ⟨name, hname, -⟩
      · exact ⟨p, hp, (hproto p hp _).mpr rfl, .inr (.inl hint)⟩
      · exact ((h p hp).2 name hname).1 port hknows
    · rintro ⟨p, hp, hpp, hnone | hint | ⟨name, hname, hn⟩⟩
      · exact absurd hnone (h p hp).1
      · exact ⟨p, hp, (hproto p hp proto).mp hpp, .inl hint⟩
      · obtain rfl := (hproto p hp proto).mp hpp
        exact ((h p hp).2 name hname).2 port hn

/-- A peer of an egress rule of the policy selects the pod. -/
def EgressPod (namespaces : List Namespace) (np : NetworkPolicy) (pod : PodPorts) : Prop :=
  ∃ rule ∈ np.egress, ∃ peer ∈ rule.peers, peer.Selects namespaces np.ns pod.pod

/-- The egress rules of the policy that have the name all have peers or all have none. Without
peers, the cache has the numbers that pods give to the name; with peers, every pod of the policy
has the name once, for the protocol, and at a number that pods of the rule give it. Some pod of the
rule has the name: for a name without numbers the index keeps what other policies left there. -/
structure Controller.Told (c : Controller) (namespaces : List Namespace) (np : NetworkPolicy) (rule : Rule) (p : Port)
    (name : String) : Prop where
  alike : ∀ other ∈ np.egress, ∀ q ∈ other.ports, portKey q = portKey p → (other.peers = [] ↔ rule.peers = [])
  cached : rule.peers = [] → ∀ n, n ∈ cachedPortNums c.ports.ctrPortNameCache (portProto p.protocol) name ↔
    Named (c.Target namespaces np .egress rule) name (portProto p.protocol) n
  once : rule.peers ≠ [] → ∀ pod ∈ c.ports.pods, EgressPod namespaces np pod → ∀ q ∈ pod.ports, q.name = name →
    lookupContainerPortNumberByName pod name = some q.containerPort ∧
      Named (c.Target namespaces np .egress rule) name (portProto p.protocol) q.containerPort
  given : ∃ n, Named (c.Target namespaces np .egress rule) name (portProto p.protocol) n

section

variable {namespaces : List Namespace} (hnodup : (c.ports.pods.map PodPorts.key).Nodup)
  (hegress : ∀ podkey, podkey ∈ c.ports.netPolEgressPods.getPodForObj np.key ↔
    ∃ pod ∈ c.ports.pods, pod.key = podkey ∧ EgressPod namespaces np pod)
  (hrule : rule ∈ np.egress) {p : Port} (hp : p ∈ rule.ports) {name : String}
include hnodup hegress hrule

theorem Controller.Told.numbers (h : c.Told namespaces np rule p name) (n : Int) :
    n ∈ (if rule.peers ≠ [] then
        getPortNumsFromPortName c.ports.podByKey (c.ports.netPolEgressPods.getPodForObj np.key) name
      else cachedPortNums c.ports.ctrPortNameCache (portProto p.protocol) name) ↔
      Named (c.Target namespaces np .egress rule) name (portProto p.protocol) n := by
  by_cases hpeers : rule.peers = []
  · rw [if_neg (not_not.mpr hpeers)]
    exact h.cached hpeers n
  · rw [if_pos hpeers]
    refine (mem_getPortNumsFromPortName hnodup hegress name n).trans ⟨?_, ?_⟩
    · rintro ⟨pod, hpod, hegressPod, hn⟩
      obtain ⟨m, hm, rfl⟩ := Option.map_eq_some_iff.mp hn
      obtain ⟨q, hq, rfl⟩ := Option.map_eq_some_iff.mp hm
      exact (h.once hpeers pod hpod hegressPod q (mem_of_find?_eq_some hq) (by simpa using find?_some hq)).2
    · rintro ⟨pod, ⟨hpod, hselected⟩, q, hq, hname, -, rfl⟩
      obtain ⟨peer, hpeer, hsel⟩ := hselected.resolve_left hpeers
      have hegressPod : EgressPod namespaces np pod := ⟨rule, hrule, peer, hpeer, hsel⟩
      exact ⟨pod, hpod, hegressPod, by rw [(h.once hpeers pod hpod hegressPod q hq hname).1]; rfl⟩

include hp

/-- The index has the numbers of the name once the policy is added. -/
theorem Controller.Told.index (h : c.Told namespaces np rule p name) {s : State}
    (hadded : networkPolicyAdded namespaces s np = some c.ports) (hname : p.port = some (.str name)) :
    ∃ entry, c.ports.targetPortIndex (.name (portProto p.protocol) name) = some entry ∧
      ∀ n, n ∈ entry.port.ports ↔ Named (c.Target namespaces np .egress rule) name (portProto p.protocol) n := by
  have hnumbers := h.numbers hnodup hegress hrule
  generalize hset : (if rule.peers ≠ [] then
      getPortNumsFromPortName c.ports.podByKey (c.ports.netPolEgressPods.getPodForObj np.key) name
    else cachedPortNums c.ports.ctrPortNameCache (portProto p.protocol) name) = numbers at hnumbers
  have hsome : numbers ≠ ∅ := by
    obtain ⟨n, hn⟩ := h.given
    exact Finset.ne_empty_of_mem ((hnumbers n).mpr hn)
  have htarget : ∀ other ∈ np.egress, ∀ q ∈ other.ports,
      TargetsNumbers c.ports np (.name (portProto p.protocol) name) numbers other q := by
    intro other hother q hq target ht
    unfold portTarget at ht
    cases hport : q.port with
    | none => simp [hport] at ht
    | some port =>
      cases port with
      | int n => simp [hport] at ht
      | str name' =>
        simp only [hport, Option.ite_none_left_eq_some, Option.some.injEq, Prod.mk.injEq, PortKey.name.injEq] at ht
        obtain ⟨-, ⟨hproto, rfl⟩, rfl⟩ := ht
        have hpeers := h.alike other hother q hq (by simp [portKey, hport, hname, hproto])
        simp only [ne_eq, hpeers, hproto]
        exact hset
  have hown : portTarget c.ports np rule p =
      some (.name (portProto p.protocol) name, ⟨p.protocol.getD "TCP", numbers⟩) := by
    simp only [portTarget, hname, hset, if_neg hsome]
  obtain ⟨entry, hentry, hports⟩ := index_networkPolicyAdded hadded htarget hrule hp hname hown
  exact ⟨entry, hentry, fun n => by rw [hports, hnumbers]⟩

end

/-- The rules written for a rule of a policy allow to a remote that it selects exactly the ports
that it means if and only if its ports are listed; and for an egress rule of a policy that was just
added, names are as long as they are told. -/
theorem compiledRule_ports_iff (c : Controller) (namespaces : List Namespace) (np : NetworkPolicy)
    (direction : Direction) (i : Nat) (rule : Rule) (hrule : (np.rules direction)[i]? = some rule)
    (hvalid : ∀ p ∈ rule.ports, ∀ s ∈ p.protocol, s = "TCP" ∨ s = "UDP" ∨ s = "SCTP") (hindexed : c.PodsIndexed np)
    (candidates : List Pod × List Namespace) (remote : String)
    (hremote : c.Selected (peerRemotes np candidates rule).1 rule remote) (subjDn : String) :
    let compiled := c.compiledRule (peerRemotes np candidates) subjDn np direction i rule
    (c.PortsExact namespaces np direction rule remote compiled ↔ c.Listing namespaces np direction rule) ∧
      (direction = .egress → ∀ s, networkPolicyAdded namespaces s np = some c.ports →
        (∀ podkey, podkey ∈ c.ports.netPolEgressPods.getPodForObj np.key ↔
          ∃ pod ∈ c.ports.pods, pod.key = podkey ∧ EgressPod namespaces np pod) →
        (∀ p ∈ rule.ports, p.port ≠ none ∧ ∀ name, p.port = some (.str name) → c.Told namespaces np rule p name) →
          c.PortsExact namespaces np direction rule remote compiled) := by
  intro compiled
  have hiff : c.PortsExact namespaces np direction rule remote compiled ↔ c.Listing namespaces np direction rule :=
    portsExact_iff namespaces hvalid hindexed (peerRemotes_nil candidates) hremote _ _
  refine ⟨hiff, ?_⟩
  rintro rfl s hadded hegress htold
  refine hiff.mpr fun p hp => ⟨(htold p hp).1, fun name hname => ?_⟩
  obtain ⟨entry, hentry, hnumbers⟩ := ((htold p hp).2 name hname).index hindexed.1 hegress (mem_of_getElem? hrule) hp
    hadded hname
  refine ⟨fun n hn => ⟨p, hp, (protocolText_portProto (hvalid p hp) _).mpr rfl, ?_⟩, fun n hn => ?_⟩
  · rcases hn with hint | ⟨name', hname', entry', hentry', hn⟩
    · exact .inr (.inl hint)
    · obtain rfl : name' = name := by simpa using hname'.symm.trans hname
      obtain rfl := Option.some.inj (hentry.symm.trans hentry')
      exact .inr (.inr ⟨name', hname, (hnumbers n).mp hn⟩)
  · exact ⟨p, hp, rfl, .inr ⟨name, hname, entry, hentry, (hnumbers n).mpr hn⟩⟩

def httpPort : Port := ⟨some "TCP", some (.str "http")⟩

/-- A pod that gives the name `http` to the port. -/
def appPod (name podIP : String) (port : Nat) : PodPorts :=
  ⟨⟨"default", name, [("app", name)], podIP, []⟩, false, [[⟨"http", "TCP", port⟩]]⟩

def appRule (name : String) : Rule := ⟨[⟨some ⟨[("app", name)], []⟩, none, none⟩], [httpPort]⟩

/-- Clients may use the port `http` of the pods of the app. -/
def appPolicy (name : String) : NetworkPolicy :=
  ⟨"default", "to-" ++ name, ⟨[("app", "client")], []⟩, [], [appRule name], [.egress]⟩

def appStart : TargetPorts.State :=
  { State.start with pods := [appPod "a" "10.1.0.4" 8080, appPod "b" "10.1.0.5" 9090] }

def defaultNs : Namespace := ⟨"default", []⟩

noncomputable def appController (ports : TargetPorts.State) : Controller :=
  { webController with
    ports := ports
    netPolPods := fun _ => ∅ }

theorem podsIndexed_app {ports : TargetPorts.State} (hpods : ports.pods = appStart.pods) :
    (appController ports).PodsIndexed (appPolicy "a") := by
  have hother : ∀ pod ∈ appStart.pods, (appPolicy "a").podSelector.matchesLabels pod.pod.labels = false := by decide
  refine ⟨by change (ports.pods.map PodPorts.key).Nodup; rw [hpods]; decide, fun podkey => ?_⟩
  refine iff_of_false (Finset.notMem_empty _) ?_
  rintro ⟨pod, hpod, -, -, hmatches⟩
  exact absurd hmatches (by simp [hother pod (hpods ▸ hpod)])

theorem pods_networkPolicyAdded {namespaces : List Namespace} {s s' : TargetPorts.State}
    (h : networkPolicyAdded namespaces s np = some s') : s'.pods = s.pods := by
  simp only [networkPolicyAdded, Option.bind_eq_bind, Option.bind_eq_some_iff, Option.some.injEq] at h
  obtain ⟨ports, -, named, -, rfl⟩ := h
  rfl

/-- The policy for the app `a` means the port of its pod. -/
theorem named_app {ports : TargetPorts.State} (hpods : ports.pods = appStart.pods) :
    Named ((appController ports).Target [defaultNs] (appPolicy "a") .egress (appRule "a")) "http" .tcp 8080 := by
  refine ⟨appPod "a" "10.1.0.4" 8080, ⟨?_, .inr ⟨_, mem_singleton_self _, rfl, by decide⟩⟩, ⟨"http", "TCP", 8080⟩,
    by decide, rfl, rfl, rfl⟩
  change _ ∈ ports.pods
  rw [hpods]
  exact mem_cons_self

def appCandidates : List Pod × List Namespace := ([(appPod "a" "10.1.0.4" 8080).pod], [defaultNs])

noncomputable def appCompiled (ports : TargetPorts.State) : List HostprotRule :=
  (appController ports).compiledRule (peerRemotes (appPolicy "a") appCandidates) "subj" (appPolicy "a") .egress 0
    (appRule "a")

theorem selected_app (ports : TargetPorts.State) : (appController ports).Selected
    (peerRemotes (appPolicy "a") appCandidates (appRule "a")).1 (appRule "a") "10.1.0.4" :=
  ⟨.inr (by decide), .ipv4, mem_cons_self, by decide⟩

/-- Once its policy is added, the rule allows the port of the app. -/
theorem compiledRule_ports_app : ∃ ports, networkPolicyAdded [defaultNs] appStart (appPolicy "a") = some ports ∧
    (appController ports).PortsExact [defaultNs] (appPolicy "a") .egress (appRule "a") "10.1.0.4" (appCompiled ports) ∧
    PortMeans ((appController ports).Target [defaultNs] (appPolicy "a") .egress (appRule "a")) httpPort .tcp 8080 := by
  obtain ⟨ports, hadded⟩ := Option.isSome_iff_exists.mp
    (show (networkPolicyAdded [defaultNs] appStart (appPolicy "a")).isSome by decide +kernel)
  have hkeys : (networkPolicyAdded [defaultNs] appStart (appPolicy "a")).map
      (fun s => s.netPolEgressPods.getPodForObj "default/to-a") = some {"default/a"} := by decide +kernel
  rw [hadded, Option.map_some, Option.some.injEq] at hkeys
  have hpods : ports.pods = _ := pods_networkPolicyAdded hadded
  have hegress : ∀ pod ∈ ports.pods, EgressPod [defaultNs] (appPolicy "a") pod ↔ pod.key = "default/a" := by
    rw [hpods]
    have hsel : ∀ pod ∈ appStart.pods, (pod.pod.ns = "default" ∧
      (Labels.LabelSelector.mk [("app", "a")] []).matchesLabels pod.pod.labels = true) ↔ pod.key =
        "default/a" := by decide
    intro pod hpod
    rw [← hsel pod hpod]
    simp [EgressPod, appPolicy, appRule, Peer.Selects]
  have hport : ∀ pod ∈ ports.pods, pod.key = "default/a" → ∀ q ∈ pod.ports,
      lookupContainerPortNumberByName pod "http" = some q.containerPort ∧ q.containerPort = 8080 := by
    rw [hpods]
    decide
  refine ⟨ports, hadded, ?_, rfl, .inr (.inr ⟨"http", rfl, named_app hpods⟩)⟩
  refine (compiledRule_ports_iff (appController ports) [defaultNs] (appPolicy "a") .egress 0 (appRule "a") rfl
    (by decide)
    (podsIndexed_app hpods) appCandidates "10.1.0.4" (selected_app ports)
    "subj").2 rfl appStart hadded (fun podkey => ?_) fun p hp => ?_
  · change podkey ∈ ports.netPolEgressPods.getPodForObj "default/to-a" ↔ _
    rw [hkeys, Finset.mem_singleton]
    constructor
    · rintro rfl
      have hmem : appPod "a" "10.1.0.4" 8080 ∈ ports.pods := by
        rw [hpods]
        exact mem_cons_self
      exact ⟨_, hmem, by decide, (hegress _ hmem).mpr (by decide)⟩
    · rintro ⟨pod, hpod, rfl, hpodEgress⟩
      exact (hegress pod hpod).mp hpodEgress
  · obtain rfl := mem_singleton.mp hp
    refine ⟨by decide, fun name hname => ?_⟩
    obtain rfl : "http" = name := by simpa [httpPort] using hname
    refine ⟨fun other hother q _ _ => by rw [mem_singleton.mp hother], fun hnil => absurd hnil (by decide), ?_,
      8080, named_app hpods⟩
    intro _ pod hpod hpodEgress q hq _
    obtain ⟨hlookup, hnumber⟩ := hport pod hpod ((hegress pod hpod).mp hpodEgress) q hq
    exact ⟨hlookup, by rw [hnumber]; exact named_app hpods⟩

/-- A port that is only a protocol allows nothing. A policy that is added later puts its own numbers
in the place of those of another one, whose rule then allows these. -/
theorem compiledRule_ports_fails :
    (webController.compiledRule (peerRemotes (webPolicy [⟨some "TCP", none⟩]) ([], [])) "subj"
        (webPolicy [⟨some "TCP", none⟩]) .ingress 0 ⟨[], [⟨some "TCP", none⟩]⟩ = [] ∧
      ∀ pods, PortMeans pods ⟨some "TCP", none⟩ .tcp 80) ∧
    ∃ first ports, networkPolicyAdded [defaultNs] appStart (appPolicy "a") = some first ∧
      networkPolicyAdded [defaultNs] first (appPolicy "b") = some ports ∧
      (¬ ∃ r ∈ appCompiled ports, r.Allows "10.1.0.4" .tcp 8080) ∧
      PortMeans ((appController ports).Target [defaultNs] (appPolicy "a") .egress
        (appRule "a")) httpPort .tcp 8080 := by
  refine ⟨⟨by decide, fun pods => ⟨by decide, .inl rfl⟩⟩, ?_⟩
  obtain ⟨ports, hboth⟩ := Option.isSome_iff_exists.mp (show ((networkPolicyAdded [defaultNs] appStart
    (appPolicy "a")).bind fun s => networkPolicyAdded [defaultNs] s (appPolicy "b")).isSome by decide +kernel)
  obtain ⟨first, hfirst, hports⟩ := Option.bind_eq_some_iff.mp hboth
  have hpods : ports.pods = appStart.pods := (pods_networkPolicyAdded hports).trans (pods_networkPolicyAdded hfirst)
  have hnumbers : ((networkPolicyAdded [defaultNs] appStart (appPolicy "a")).bind fun s =>
      networkPolicyAdded [defaultNs] s (appPolicy "b")).map (fun s =>
        (s.targetPortIndex (.name .tcp "http")).map fun entry => entry.port.ports) = some (some {9090}) := by
    decide +kernel
  rw [hboth, Option.map_some, Option.some.injEq] at hnumbers
  obtain ⟨entry, hentry, hentryPorts⟩ := Option.map_eq_some_iff.mp hnumbers
  refine ⟨first, ports, hfirst, hports, fun hallowed => ?_, rfl, .inr (.inr ⟨"http", rfl, named_app hpods⟩)⟩
  rcases (allowed_iff (fun hnil => absurd hnil (by decide)) (selected_app ports) _ _ _ _).mp hallowed with hnil |
    ⟨p, hp, -, hn⟩
  · cases hnil
  · obtain rfl := mem_singleton.mp hp
    rcases (mem_portList (podsIndexed_app hpods) _ _).mp hn with hint | ⟨name, hname, entry', hentry', hn⟩
    · cases hint
    · obtain rfl : "http" = name := by simpa [httpPort] using hname
      obtain rfl := Option.some.inj (hentry.symm.trans hentry')
      rw [hentryPorts] at hn
      exact absurd hn (by decide)

end AciContainers.Hostprot
