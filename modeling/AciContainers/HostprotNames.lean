import AciContainers.HostprotRules

/-!
# Names of host protection rules

The rules of a subject are named by the number of the rule of the policy and, for the ports,
by the sum of two counters: the place of the port in the list and the place of the number
among those that a name stands for. Two ports get one name if the first stands for more
numbers than the second is behind it.
-/
namespace AciContainers.Hostprot

open Index Maps Net Policy TargetPorts List
open NetPol (Direction Peer)

/-- A rule of the policy, with the counter of its ports if it has any, or a service port. -/
inductive RuleName where
  | rule (i : Nat) (k : Option Nat)
  | service (proto : Proto) (port : Int)

def RuleName.text : RuleName → String
  | .rule i none => toString i
  | .rule i (some k) => toString i ++ "_" ++ toString k
  | .service proto port => "service_" ++ protoText proto ++ "_" ++ toString port

theorem toList_toString (n : Nat) : (toString n).toList = Nat.toDigits 10 n := by
  simp [toString, Nat.repr]

theorem notMem_toString {c : Char} (hc : digitValue c = none) (n : Nat) : c ∉ (toString n).toList := by
  intro h
  rw [toList_toString] at h
  have hdigit := digits_of_decimal (decimal_toDigits n) c h
  simp [hc] at hdigit

theorem toString_inj {m n : Nat} (h : toString m = toString n) : m = n := by
  have hdecimal := congrArg (fun s : String => decimal s.toList) h
  simpa [toList_toString, decimal_toDigits] using hdecimal

theorem intToString_inj {m n : Int} (h : toString m = toString n) : m = n := by
  have hminus : ∀ k l : Nat, toString k ≠ "-" ++ toString (l + 1) := fun k l he =>
    notMem_toString (by decide) k (he ▸ by simp : '-' ∈ (toString k).toList)
  match m, n, h with
  | .ofNat k, .ofNat l, h => rw [toString_inj h]
  | .ofNat k, .negSucc l, h => exact absurd h (hminus k l)
  | .negSucc k, .ofNat l, h => exact absurd h.symm (hminus l k)
  | .negSucc k, .negSucc l, h =>
    have hlist : ("-" ++ toString (k + 1)).toList = ("-" ++ toString (l + 1)).toList := congrArg String.toList h
    have hnat : toString (k + 1) = toString (l + 1) := String.toList_inj.mp (by simpa using hlist)
    have := toString_inj hnat
    omega

theorem protoText_inj {p q : Proto} (h : protoText p = protoText q) : p = q := by
  revert h
  cases p <;> cases q <;> decide

/-- Where a name is cut at its first underscore. -/
def RuleName.parts : RuleName → Option (List Char × List Char)
  | .rule _ none => none
  | .rule i (some k) => some ((toString i).toList, (toString k).toList)
  | .service proto port => some ("service".toList, (protoText proto).toList ++ '_' :: (toString port).toList)

theorem cut_text (n : RuleName) : cut '_' n.text.toList = n.parts := by
  match n with
  | .rule i none => exact IpIndex.cut_none (notMem_toString (by decide) i)
  | .rule i (some k) =>
    have happ : (RuleName.rule i (some k)).text.toList = (toString i).toList ++ '_' :: (toString k).toList := by
      simp [RuleName.text]
    rw [happ]
    exact cut_append (notMem_toString (by decide) i)
  | .service proto port =>
    have happ : (RuleName.service proto port).text.toList =
        "service".toList ++ '_' :: ((protoText proto).toList ++ '_' :: (toString port).toList) := by
      simp [RuleName.text]
    rw [happ]
    exact cut_append (by decide)

theorem text_inj {m n : RuleName} (h : m.text = n.text) : m = n := by
  have hparts : m.parts = n.parts := by rw [← cut_text, ← cut_text, h]
  have hdigits : ∀ i, "service".toList ≠ (toString i).toList := fun i he =>
    @notMem_toString 's' (by decide) i (he ▸ by decide)
  match m, n, h, hparts with
  | .rule i none, .rule j none, h, _ => rw [toString_inj h]
  | .rule i (some k), .rule j (some l), _, hparts =>
    simp only [RuleName.parts, Option.some.injEq, Prod.mk.injEq, String.toList_inj] at hparts
    rw [toString_inj hparts.1, toString_inj hparts.2]
  | .rule i (some k), .service q b, _, hparts =>
    simp only [RuleName.parts, Option.some.injEq, Prod.mk.injEq] at hparts
    exact absurd hparts.1.symm (hdigits i)
  | .service p a, .rule j (some l), _, hparts =>
    simp only [RuleName.parts, Option.some.injEq, Prod.mk.injEq] at hparts
    exact absurd hparts.1 (hdigits j)
  | .service p a, .service q b, _, hparts =>
    simp only [RuleName.parts, Option.some.injEq, Prod.mk.injEq, true_and] at hparts
    have hplain : ∀ r : Proto, '_' ∉ (protoText r).toList := by
      intro r
      cases r <;> decide
    have hcut := congrArg (cut '_') hparts
    rw [cut_append (hplain p), cut_append (hplain q), Option.some.injEq, Prod.mk.injEq, String.toList_inj,
      String.toList_inj] at hcut
    rw [protoText_inj hcut.1, intToString_inj hcut.2]

/-- The DN of the rule with a name. -/
def ruleDn (subjDn : String) (n : RuleName × Ethertype) : String := subjDn ++ "/rule-" ++ (n.1.text ++ "-" ++ n.2.text)

theorem ruleDn_inj (subjDn : String) : Function.Injective (ruleDn subjDn) := by
  rintro ⟨m, d⟩ ⟨n, e⟩ h
  have hlist := congrArg String.toList h
  simp only [ruleDn, String.toList_append, append_assoc, append_cancel_left_eq] at hlist
  have hlen : ∀ e : Ethertype, ("-".toList ++ e.text.toList).length = 5 := by
    intro e
    cases e <;> rfl
  obtain ⟨htext, hether⟩ := append_inj' hlist ((hlen d).trans (hlen e).symm)
  have hd : d = e := by
    revert hether
    cases d <;> cases e <;> decide
  rw [text_inj (String.toList_inj.mp htext), hd]

variable (c : Controller)

/-- The counters of the rules that a rule of the policy gives. -/
def Controller.counters (np : NetworkPolicy) (direction : Direction) (peers : List Peer) (remoteSubnets : List String)
    (ports : List Port) : List (Option Nat) :=
  if peers ≠ [] ∧ remoteSubnets = [] then []
  else if ports = [] then [none]
  else ports.zipIdx.flatMap fun pj => (range' pj.2 (c.portList np direction pj.1).length).map some

theorem buildNetPolSubjRules_dns (i : Nat) (subjDn : String) (direction : Direction) (peers : List Peer)
    (remoteSubnets : List String) (ports : List Port) (np : NetworkPolicy) :
    (c.buildNetPolSubjRules (toString i) subjDn direction peers remoteSubnets ports np).map HostprotRule.dn =
      ((c.counters np direction peers remoteSubnets ports).flatMap fun k =>
        c.ethertypes.map fun e => (RuleName.rule i k, e)).map (ruleDn subjDn) := by
  unfold Controller.buildNetPolSubjRules Controller.counters
  split
  · rfl
  · split
    · simp only [flatMap_cons, flatMap_nil, append_nil, map_map]
      rfl
    · simp only [map_flatMap, flatMap_assoc, flatMap_map, map_map]
      refine flatMap_congr fun pj _ => ?_
      -- only the place of a number counts for the name
      have hplaces : ∀ (l : List Int) (f : Nat → List String), (l.zipIdx.flatMap fun ni => f (ni.2 + pj.2)) =
          (range' pj.2 l.length).flatMap f := by
        intro l f
        have hmap : range' pj.2 l.length = (l.zipIdx.map Prod.snd).map (pj.2 + ·) := by
          rw [zipIdx_map_snd, map_add_range', Nat.add_zero]
        rw [hmap, flatMap_map, flatMap_map]
        simp [Nat.add_comm]
      exact hplaces (c.portList np direction pj.1) fun k => c.ethertypes.map
        (ruleDn subjDn ∘ fun e => (RuleName.rule i (some k), e))

/-- No port stands for more numbers than a later one with numbers is behind it. -/
def Controller.Spaced (np : NetworkPolicy) (direction : Direction) (ports : List Port) : Prop :=
  ports.zipIdx.Pairwise fun pj qk =>
    c.portList np direction qk.1 = [] ∨ pj.2 + (c.portList np direction pj.1).length ≤ qk.2

instance (np : NetworkPolicy) (direction : Direction) (ports : List Port) :
    Decidable (c.Spaced np direction ports) := inferInstanceAs (Decidable (List.Pairwise _ _))

/-- Each element comes with its place. -/
theorem zipIdx_places {α : Type} (l : List α) : l.zipIdx.Pairwise fun x y => x.2 < y.2 := by
  rw [← pairwise_map (f := Prod.snd), zipIdx_map_snd]
  exact pairwise_lt_range'

theorem counters_nodup_iff (np : NetworkPolicy) (direction : Direction) (peers : List Peer)
    (remoteSubnets : List String)
    (ports : List Port) : (c.counters np direction peers remoteSubnets ports).Nodup ↔
      peers ≠ [] ∧ remoteSubnets = [] ∨ c.Spaced np direction ports := by
  unfold Controller.counters
  split
  · next hdropped => simp [hdropped]
  · next hkept =>
    simp only [hkept, false_or]
    split
    · next hnil => simp [hnil, Controller.Spaced]
    · have heach : ∀ pj ∈ ports.zipIdx, ((range' pj.2 (c.portList np direction pj.1).length).map some).Nodup :=
        fun pj _ => List.Nodup.map (Option.some_injective _) nodup_range'
      rw [nodup_flatMap, and_iff_right heach, Controller.Spaced]
      -- the numbers of two ports are intervals
      have hdisjoint : ∀ pj qk : Port × Nat, pj.2 < qk.2 →
          (Function.onFun List.Disjoint
            (fun pj => (range' pj.2 (c.portList np direction pj.1).length).map some) pj qk ↔
          c.portList np direction qk.1 = [] ∨ pj.2 + (c.portList np direction pj.1).length ≤ qk.2) := by
        intro pj qk hlt
        rw [Function.onFun, ← length_eq_zero_iff]
        constructor
        · intro h
          by_contra hno
          exact h (mem_map_of_mem (mem_range'_1.mpr (by omega : pj.2 ≤ qk.2 ∧ qk.2 < _)))
            (mem_map_of_mem (mem_range'_1.mpr (by omega)))
        · rintro h k hk hk'
          obtain ⟨m, hm, rfl⟩ := mem_map.mp hk
          obtain ⟨m', hm', hmm⟩ := mem_map.mp hk'
          rw [Option.some.inj hmm] at hm'
          rw [mem_range'_1] at hm hm'
          omega
      exact ⟨fun h => (h.and (zipIdx_places ports)).imp fun {pj qk} hpq => (hdisjoint pj qk hpq.2).mp hpq.1,
        fun h => (h.and (zipIdx_places ports)).imp fun {pj qk} hpq => (hdisjoint pj qk hpq.2).mpr hpq.1⟩

/-- Distinct counters make distinct names, where there are names at all. -/
theorem names_nodup_iff (i : Nat) (ks : List (Option Nat)) (es : List Ethertype) (hes : es.Nodup) :
    (ks.flatMap fun k => es.map fun e => (RuleName.rule i k, e)).Nodup ↔ es = [] ∨ ks.Nodup := by
  have heach : ∀ k ∈ ks, (es.map fun e => (RuleName.rule i k, e)).Nodup :=
    fun k _ => hes.map fun a b hab => (Prod.mk.inj hab).2
  rw [nodup_flatMap, and_iff_right heach]
  cases es with
  | nil =>
    simp only [map_nil, true_or, iff_true]
    exact pairwise_of_forall fun k l x hx => absurd hx not_mem_nil
  | cons e es =>
    simp only [reduceCtorEq, false_or, List.Nodup]
    refine List.Pairwise.iff fun {k l} => ⟨fun h hkl => ?_, fun h x hx hx' => ?_⟩
    · exact h (mem_map_of_mem (mem_cons_self (a := e))) (hkl ▸ mem_map_of_mem mem_cons_self)
    · obtain ⟨a, -, rfl⟩ := mem_map.mp hx
      obtain ⟨b, -, hb⟩ := mem_map.mp hx'
      simp only [Prod.mk.injEq, RuleName.rule.injEq, true_and] at hb
      exact h hb.1.symm

variable (remotes : Rule → List String × Finset String)

def Controller.ruleNames (np : NetworkPolicy) (direction : Direction) : List (RuleName × Ethertype) :=
  (np.rules direction).zipIdx.flatMap fun ri =>
    (c.counters np direction ri.1.peers (remotes ri.1).1 ri.1.ports).flatMap fun k =>
      c.ethertypes.map fun e => (RuleName.rule ri.2 k, e)

theorem subjRules_dns (subjDn : String) (np : NetworkPolicy) (direction : Direction) :
    (c.subjRules remotes subjDn np direction).map HostprotRule.dn =
      (c.ruleNames remotes np direction).map (ruleDn subjDn) := by
  rw [Controller.subjRules, Controller.ruleNames, map_flatMap, map_flatMap]
  exact flatMap_congr fun ri _ => buildNetPolSubjRules_dns c _ _ _ _ _ _ _

theorem ethertypes_nodup : c.ethertypes.Nodup := by
  unfold Controller.ethertypes
  cases c.hasV4 <;> cases c.hasV6 <;> decide

theorem ruleNames_nodup_iff (np : NetworkPolicy) (direction : Direction) :
    (c.ruleNames remotes np direction).Nodup ↔ c.ethertypes = [] ∨ ∀ rule ∈ np.rules direction,
      rule.peers ≠ [] ∧ (remotes rule).1 = [] ∨ c.Spaced np direction rule.ports := by
  have hapart : (np.rules direction).zipIdx.Pairwise (Function.onFun List.Disjoint fun ri =>
      (c.counters np direction ri.1.peers (remotes ri.1).1 ri.1.ports).flatMap fun k =>
        c.ethertypes.map fun e => (RuleName.rule ri.2 k, e)) := by
    refine (zipIdx_places _).imp fun {ri sj} hlt x hx hx' => ?_
    obtain ⟨k, -, hk⟩ := mem_flatMap.mp hx
    obtain ⟨l, -, hl⟩ := mem_flatMap.mp hx'
    obtain ⟨e, -, rfl⟩ := mem_map.mp hk
    obtain ⟨e', -, he'⟩ := mem_map.mp hl
    simp only [Prod.mk.injEq, RuleName.rule.injEq] at he'
    omega
  rw [Controller.ruleNames, nodup_flatMap, and_iff_left hapart]
  simp only [names_nodup_iff _ _ _ (ethertypes_nodup c), counters_nodup_iff]
  constructor
  · intro h
    by_cases hes : c.ethertypes = []
    · exact .inl hes
    · refine .inr fun rule hrule => ?_
      obtain ⟨i, hi, rfl⟩ := getElem_of_mem hrule
      have hmem : ((np.rules direction)[i], i) ∈ (np.rules direction).zipIdx :=
        mem_zipIdx_iff_getElem?.mpr (getElem?_eq_getElem hi)
      exact (h _ hmem).resolve_left hes
  · rintro (hes | h) ri hri
    · exact .inl hes
    · exact .inr (h ri.1 (fst_mem_of_mem_zipIdx hri))

/-- The rules for services have names of their own. -/
theorem augmentRules_dns (subjDn : String) (augments : Augments) :
    ∃ names : List (RuleName × Ethertype), (c.augmentRules subjDn augments).map HostprotRule.dn = names.map
      (ruleDn subjDn) ∧
      names.Nodup ∧ ∀ n ∈ names, ∃ proto port, n.1 = .service proto port := by
  refine ⟨(c.augmentOrder.visit (augments.image fun a => (a.1, a.2.1))).flatMap fun key =>
    ([Ethertype.ipv4, .ipv6].filter fun e => c.augmentIps augments key e ≠ []).map fun e =>
      (RuleName.service key.1 key.2, e), ?_, nodup_flatMap.mpr ⟨fun key _ => ?_, ?_⟩, fun n hn => ?_⟩
  · rw [Controller.augmentRules, map_flatMap, map_flatMap]
    refine flatMap_congr fun key _ => ?_
    rw [map_map, map_map]
    rfl
  · exact (List.Nodup.filter _ (by decide)).map fun a b hab => (Prod.mk.inj hab).2
  · refine (c.augmentOrder.nodup _).imp fun {k l} hkl x hx hx' => ?_
    obtain ⟨e, -, rfl⟩ := mem_map.mp hx
    obtain ⟨e', -, he'⟩ := mem_map.mp hx'
    simp only [Prod.mk.injEq, RuleName.service.injEq] at he'
    exact hkl (Prod.ext he'.1.1.symm he'.1.2.symm)
  · obtain ⟨key, -, hkey⟩ := mem_flatMap.mp hn
    obtain ⟨e, -, rfl⟩ := mem_map.mp hkey
    exact ⟨key.1, key.2, rfl⟩

/-- The rules of a subject have distinct DNs if and only if there is no kind of addresses to
write them for, or the ports of each of its rules are spaced. -/
theorem subject_dns_nodup_iff (polDn : String) (np : NetworkPolicy) (direction : Direction)
    (rules : List HostprotRule) (h : c.subject remotes polDn np direction = some rules) :
    (rules.map HostprotRule.dn).Nodup ↔ c.ethertypes = [] ∨ ∀ rule ∈ np.rules direction,
      rule.peers ≠ [] ∧ (remotes rule).1 = [] ∨ c.Spaced np direction rule.ports := by
  rw [← ruleNames_nodup_iff]
  cases direction with
  | ingress =>
    rw [← Option.some.inj h, subjRules_dns, nodup_map_iff (ruleDn_inj _)]
  | egress =>
    obtain ⟨services, hservices, rfl⟩ := Option.map_eq_some_iff.mp h
    obtain ⟨augments, -, rfl⟩ := Option.map_eq_some_iff.mp hservices
    obtain ⟨names, hnames, hnodup, hservice⟩ := augmentRules_dns c (subjDn polDn .egress) augments
    rw [map_append, subjRules_dns, hnames, ← map_append, nodup_map_iff (ruleDn_inj _), nodup_append']
    refine and_iff_left_of_imp fun _ => ⟨hnodup, fun x hx hx' => ?_⟩
    obtain ⟨proto, port, hname⟩ := hservice x hx'
    simp only [Controller.ruleNames, mem_flatMap, mem_map] at hx
    obtain ⟨ri, _, k, _, e, _, rfl⟩ := hx
    simp at hname

def webPod (name : String) (port : Nat) : PodPorts :=
  ⟨⟨"default", name, [("app", "web")], "", []⟩, false, [[⟨"web", "TCP", port⟩]]⟩

/-- Pods `a` and `b` give one name to port 80 and port 8080. -/
noncomputable def webController : Controller where
  hasV4 := true
  hasV6 := false
  ports := { State.start with pods := [webPod "a" 80, webPod "b" 8080] }
  netPolPods _ := {"default/a", "default/b"}
  services := Map.empty
  backends := .slices []
  endpointsIpIndex := IpIndex.Index.empty
  order := RangeOrder.sorted
  augmentOrder := RangeOrder.chosen _
  portOrder := RangeOrder.sorted

/-- A policy that lets everyone connect to the ports. -/
def webPolicy (ports : List Port) : NetworkPolicy where
  ns := "default"
  name := "web"
  podSelector := ⟨[("app", "web")], []⟩
  ingress := [⟨[], ports⟩]
  egress := []
  policyTypes := [.ingress]

def webPort : Port := ⟨some "TCP", some (.str "web")⟩

def httpsPort : Port := ⟨some "TCP", some (.int 443)⟩

theorem subject_dns_nodup_web : ∃ rules,
    webController.subject (fun _ => ([], ∅)) "uni/tn-t/pol-p" (webPolicy [httpsPort, webPort]) .ingress = some rules ∧
      rules.length = 3 ∧ (rules.map HostprotRule.dn).Nodup := by
  refine ⟨_, rfl, by decide +kernel, ?_⟩
  exact (subject_dns_nodup_iff webController (fun _ => ([], ∅)) "uni/tn-t/pol-p" (webPolicy [httpsPort, webPort])
    .ingress _ rfl).mpr (.inr (by decide +kernel))

/-- The number that the second port stands for comes as one of the numbers of the first one. -/
theorem subject_dns_nodup_fails : ∃ rules,
    webController.subject (fun _ => ([], ∅)) "uni/tn-t/pol-p" (webPolicy [webPort, httpsPort]) .ingress = some rules ∧
      rules.map HostprotRule.dn = ["uni/tn-t/pol-p/subj-networkpolicy-ingress/rule-0_0-ipv4",
        "uni/tn-t/pol-p/subj-networkpolicy-ingress/rule-0_1-ipv4",
        "uni/tn-t/pol-p/subj-networkpolicy-ingress/rule-0_1-ipv4"] ∧ ¬ (rules.map HostprotRule.dn).Nodup := by
  have hdns : (webController.subjRules (fun _ => ([], ∅)) "uni/tn-t/pol-p/subj-networkpolicy-ingress"
      (webPolicy [webPort, httpsPort]) .ingress).map HostprotRule.dn =
      ["uni/tn-t/pol-p/subj-networkpolicy-ingress/rule-0_0-ipv4",
        "uni/tn-t/pol-p/subj-networkpolicy-ingress/rule-0_1-ipv4",
        "uni/tn-t/pol-p/subj-networkpolicy-ingress/rule-0_1-ipv4"] := by decide +kernel
  refine ⟨_, rfl, hdns, ?_⟩
  decide +kernel

end AciContainers.Hostprot
