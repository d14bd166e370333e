import AciContainers.IpRange
import AciContainers.PodSelectorIndexExact
import AciContainers.IpAllocRemove
import AciContainers.NetRoundTrip

/-!
# Remote addresses of network policy rules

The part of `pkg/controller/network_policy.go` that turns the peers of a rule into remote
addresses. The candidate pods come from two indexes over the peers of all the rules of a policy;
`peerMatchesPod` then decides rule by rule which candidates the peers mean. For a peer with both
selectors it looks at one only, depending on the namespace of the pod.
-/
namespace AciContainers.NetPol

open Labels

structure IPBlock where
  cidr : String
  exceptions : List String
  deriving DecidableEq

structure Peer where
  podSelector : Option LabelSelector
  namespaceSelector : Option LabelSelector
  ipBlock : Option IPBlock
  deriving DecidableEq

inductive Direction where
  | ingress
  | egress
  deriving DecidableEq

end AciContainers.NetPol

namespace AciContainers.Policy

open Labels Index NetPol

inductive IntOrString where
  | int (n : Int)
  | str (s : String)
  deriving DecidableEq

def IntOrString.string : IntOrString → String
  | .int n => toString n
  | .str s => s

structure Port where
  protocol : Option String
  port : Option IntOrString
  deriving DecidableEq

/-- An ingress or egress rule; its peers are `From` or `To`. -/
structure Rule where
  peers : List Peer
  ports : List Port
  deriving DecidableEq

/-- Without policy types a policy is for both directions. -/
structure NetworkPolicy where
  ns : String
  name : String
  podSelector : LabelSelector
  ingress : List Rule
  egress : List Rule
  policyTypes : List Direction
  deriving DecidableEq

def NetworkPolicy.rules (np : NetworkPolicy) : Direction → List Rule
  | .ingress => np.ingress
  | .egress => np.egress

def NetworkPolicy.key (np : NetworkPolicy) : String := metaNamespaceKey np.ns np.name

end AciContainers.Policy

namespace AciContainers.NetPol

open Labels Index Net Ipam Policy

/-- One turn of the loop of `peerPodSelector`; a peer with a broken selector is skipped. -/
def peerSelectors (npNs : String) (peer : Peer) : List PodSelector :=
  match labelSelectorAsSelector peer.podSelector,
      labelSelectorAsSelector peer.namespaceSelector with
  | some podselector, some nsselector =>
    match peer.podSelector, peer.namespaceSelector with
    | some _, some _ => [⟨none, some nsselector, podselector⟩]
    | some _, none => [⟨some npNs, none, podselector⟩]
    | none, some _ => [⟨none, some nsselector, everything⟩]
    | none, none => []
  | _, _ => []

def peerPodSelector (npNs : String) (peers : List Peer) : List PodSelector :=
  peers.flatMap (peerSelectors npNs)

def rulePodSelector (d : Direction) (np : NetworkPolicy) : List PodSelector :=
  (np.rules d).flatMap fun rule => peerPodSelector np.ns rule.peers

def egressPodSelector : NetworkPolicy → List PodSelector := rulePodSelector .egress

def ingressPodSelector : NetworkPolicy → List PodSelector := rulePodSelector .ingress

/-- An index over the policies; the pod hash is the pod IP. -/
def netPolFuncs (selectors : NetworkPolicy → List PodSelector) : Funcs NetworkPolicy where
  getKey := NetworkPolicy.key
  getPodSelector := selectors
  podHashFunc := some Pod.podIP

def netPolIngressPods : Funcs NetworkPolicy := netPolFuncs ingressPodSelector

def netPolEgressPods : Funcs NetworkPolicy := netPolFuncs egressPodSelector

def peerMatchesNamespace (peer : Peer) (podNs : Namespace) : Bool :=
  match peer.namespaceSelector with
  | none => false
  | some _ =>
    match labelSelectorAsSelector peer.namespaceSelector with
    | none => false
    | some selector => selector.matchesLabels podNs.labels

def peerMatchesPod (npNs : String) (peer : Peer) (pod : Pod) (podNs : Namespace) : Bool :=
  if peer.podSelector.isSome ∧ npNs = pod.ns then
    match labelSelectorAsSelector peer.podSelector with
    | none => peerMatchesNamespace peer podNs
    | some selector => selector.matchesLabels pod.labels
  else peerMatchesNamespace peer podNs

def ipsForPod (pod : Pod) : List String :=
  if pod.podIPs ≠ [] then pod.podIPs else if pod.podIP ≠ "" then [pod.podIP] else []

def ipBlockToSubnets (ipblock : IPBlock) : Option (List String) := do
  let nw ← parseCIDR ipblock.cidr
  let ips ← ipblock.exceptions.foldlM
    (fun ips ex => (parseCIDR ex).map fun nw => (ips.removeSubnet nw.2).1) (new.addSubnet nw.2)
  some (ips.freeList.flatMap fun r => (range2Cidr r.start r.stop).map IPNet.string)

/-- The remote subnets of a rule so far, and the same as a set. -/
structure Remotes where
  remoteSubnets : List String
  subnetMap : Finset String

def Remotes.addIp (r : Remotes) (ip : String) : Remotes :=
  if ip ∈ r.subnetMap then r else ⟨r.remoteSubnets ++ [ip], insert ip r.subnetMap⟩

def Remotes.addPod (npNs : String) (peerNs : List Namespace) (pod : Pod) (r : Remotes) (peer : Peer) :
    Remotes :=
  match peerNs.find? fun n => n.name = pod.ns with
  | none => r
  | some n => if peerMatchesPod npNs peer pod n then (ipsForPod pod).foldl Remotes.addIp r else r

/-- The subnets of a block are appended even when they are there already. -/
def Remotes.addBlock (r : Remotes) (peer : Peer) : Remotes :=
  match peer.ipBlock with
  | none => r
  | some ipblock =>
    match ipBlockToSubnets ipblock with
    | none => r
    | some subs => ⟨r.remoteSubnets ++ subs, r.subnetMap ∪ subs.toFinset⟩

def getPeerRemoteSubnets (peers : List Peer) (npNs : String) (peerPods : List Pod)
    (peerNs : List Namespace) : List String × Finset String :=
  let pods := peerPods.foldl (fun r pod => peers.foldl (Remotes.addPod npNs peerNs pod) r) ⟨[], ∅⟩
  let r := peers.foldl Remotes.addBlock pods
  (r.remoteSubnets.insertionSort (· ≤ ·), r.subnetMap)

/-- Namespaces and pods as the informers store them: each key once, and every pod in a
namespace that is there. -/
structure Cluster where
  namespaces : List Namespace
  pods : List Pod
  names_nodup : (namespaces.map Namespace.name).Nodup
  podKeys_nodup : (pods.map podKey).Nodup
  homed : ∀ pod ∈ pods, ∃ n ∈ namespaces, n.name = pod.ns

def Cluster.podByKey (c : Cluster) (podkey : String) : Option Pod :=
  c.pods.find? fun p => podKey p = podkey

def Cluster.namespaceByKey (c : Cluster) (name : String) : Option Namespace :=
  c.namespaces.find? fun n => n.name = name

/-- One candidate: a pod whose namespace is not known is left out. -/
def addPeerPod (c : Cluster) (acc : List Pod × List Namespace) (podkey : String) :
    List Pod × List Namespace :=
  match c.podByKey podkey with
  | none => acc
  | some pod =>
    if (acc.2.find? fun n => n.name = pod.ns).isSome then (acc.1 ++ [pod], acc.2)
    else
      match c.namespaceByKey pod.ns with
      | none => acc
      | some n => (acc.1 ++ [pod], acc.2 ++ [n])

def peerPods (c : Cluster) (peerPodKeys : List String) : List Pod × List Namespace :=
  peerPodKeys.foldl (addPeerPod c) ([], [])

/-!
# IP blocks with exceptions

`ipBlockToSubnets` puts the addresses of a block in a pool, takes those of every exception
out of it and writes the ranges that are left as CIDR texts. Read back, these texts are
disjoint and stand for exactly the addresses of the block that no exception has, but for
IPv6 blocks that concern IPv4-mapped addresses.
-/

open Bytes Intervals List

/-- What `ParseCIDR` returns is a block of the width of its mask. -/
theorem isCidr_parseCIDR {s : String} {nw : IP × IPNet} (h : parseCIDR s = some nw) :
    (nw.2.mask.length = 4 ∨ nw.2.mask.length = 16) ∧ IsCidr nw.2.mask.length nw.2 := by
  obtain ⟨ip, n⟩ := nw
  simp only [parseCIDR, parseCIDRChars, Option.bind_eq_bind, Option.bind_eq_some_iff,
    Prod.exists, Option.some.injEq, Prod.mk.injEq] at h
  obtain ⟨addr, text, -, ip', hip, ones, -, m, hm, masked, hmask, -, hn⟩ := h
  subst hn
  rcases bitLen_eq addr with hbits | hbits
  · rw [hbits] at hm
    obtain ⟨hle, rfl⟩ := @cidrMask_some ones 4 m hm
    obtain ⟨fields, hfields, heq⟩ := fields_of_bitLen hip hbits
    rw [heq, mask_v4 hfields, Option.some.injEq] at hmask
    have hlen : masked.length = 4 := by
      rw [← hmask, length_zipWith_mask _ _ (by rw [hfields, length_cidrMaskBytes]), hfields]
    rw [length_cidrMaskBytes]
    refine ⟨.inl rfl, hlen, ⟨ones, hm⟩, ?_⟩
    rw [mask_of_length (by rw [hlen, length_cidrMaskBytes]), ← hmask, zipWith_and_idem]
  · rw [hbits] at hm
    obtain ⟨hle, rfl⟩ := @cidrMask_some ones 16 m hm
    have hip' := length_parseIPChars hip
    rw [mask_v6 hip', Option.some.injEq] at hmask
    have hlen : masked.length = 16 := by
      rw [← hmask, length_zipWith_mask _ _ (by rw [hip', length_cidrMaskBytes]), hip']
    rw [length_cidrMaskBytes]
    refine ⟨.inr rfl, hlen, ⟨ones, hm⟩, ?_⟩
    rw [mask_of_length (by rw [hlen, length_cidrMaskBytes]), ← hmask, zipWith_and_idem]

theorem subnetRange_isCidr {n : Nat} {b : IPNet} (h : IsCidr n b) :
    (subnetRange b).Width n ∧ iv (subnetRange b) = blockIv b := by
  obtain ⟨l, -, hmask, -, -⟩ := h.shape
  have hrange : subnetRange b = ⟨b.ip, last b.ip b.mask⟩ := by rw [subnetRange, h.2.2, Option.getD_some]
  rw [hrange]
  refine ⟨⟨h.1, ?_⟩, rfl⟩
  rw [hmask]
  simp [last, length_cidrMaskBytes, h.1]

/-- The text of a block is read back as the block. -/
theorem parseCIDR_block {n : Nat} {b : IPNet} (h : IsCidr n b) (hn : n = 4 ∨ n = 16 ∧ to4 b.ip = none) :
    (parseCIDR b.string).map Prod.snd = some b := by
  obtain ⟨l, hle, hmask, -, -⟩ := h.shape
  have hself := h.2.2
  rw [hmask, mask_of_length (by rw [h.1, length_cidrMaskBytes]), Option.some.injEq] at hself
  obtain ⟨x, hx⟩ := parseCIDR_string h.1 hn hle hself
  have hb : b = ⟨b.ip, cidrMaskBytes n l⟩ := by rw [← hmask]
  rw [hb, hx]
  rfl

theorem removeExceptions_none (exceptions : List String) (ips : IpAlloc) :
    exceptions.foldlM (fun ips ex => (parseCIDR ex).map fun nw => (ips.removeSubnet nw.2).1) ips = none ↔
      ∃ ex ∈ exceptions, parseCIDR ex = none := by
  induction exceptions generalizing ips with
  | nil => simp
  | cons ex rest ih =>
    rw [foldlM_cons, exists_mem_cons_iff]
    cases hex : parseCIDR ex with
    | none => simp
    | some nw => simpa using ih _

/-- Exceptions that parse are removed one after the other. -/
theorem removeExceptions_some (exceptions : List String) (ips : IpAlloc) (h : ∀ ex ∈ exceptions, parseCIDR ex ≠ none) :
    exceptions.foldlM (fun ips ex => (parseCIDR ex).map fun nw => (ips.removeSubnet nw.2).1) ips =
      some (ips.removeRanges ((exceptions.filterMap parseCIDR).map fun nw => subnetRange nw.2)) := by
  induction exceptions generalizing ips with
  | nil => rfl
  | cons ex rest ih =>
    rw [forall_mem_cons] at h
    obtain ⟨nw, hnw⟩ := Option.ne_none_iff_exists'.mp h.1
    rw [foldlM_cons, hnw, filterMap_cons_some hnw, map_cons]
    exact ih _ h.2

theorem ipBlockToSubnets_none (ipblock : IPBlock) : ipBlockToSubnets ipblock = none ↔
      parseCIDR ipblock.cidr = none ∨ ∃ ex ∈ ipblock.exceptions, parseCIDR ex = none := by
  unfold ipBlockToSubnets
  cases hcidr : parseCIDR ipblock.cidr with
  | none => simp
  | some nw =>
    rw [← removeExceptions_none ipblock.exceptions (new.addSubnet nw.2)]
    simp only [Option.bind_eq_bind, Option.bind_some, Option.bind_eq_none_iff, reduceCtorEq, imp_false, false_or]
    exact Option.eq_none_iff_forall_ne_some.symm

def poolBlocks (ipa : IpAlloc) : List IPNet := ipa.freeList.flatMap fun r => range2Cidr r.start r.stop

section Pool

variable {n : Nat} (hn : n = 4 ∨ n = 16) {ipa : IpAlloc} (h : Canonical n ipa)
include hn h

theorem isCidr_poolBlocks : ∀ b ∈ poolBlocks ipa, IsCidr n b := by
  intro b hb
  obtain ⟨r, hr, hb⟩ := mem_flatMap.mp hb
  exact (cidrCover_range2Cidr hn (h.width r hr)).aligned b hb

/-- An address is in a block of the range it is in. -/
theorem inBlock_poolBlocks {ip : IP} (hip : ip.length = n) : (∃ b ∈ poolBlocks ipa, InBlock b ip) ↔ ipa.Free ip := by
  constructor
  · rintro ⟨b, hb, hin⟩
    obtain ⟨r, hr, hb⟩ := mem_flatMap.mp hb
    exact ⟨r, hr, ((cidrCover_range2Cidr hn (h.width r hr)).union ip hip).mp ⟨b, hb, hin⟩⟩
  · rintro ⟨r, hr, hin⟩
    obtain ⟨b, hb, hin⟩ := ((cidrCover_range2Cidr hn (h.width r hr)).union ip hip).mpr hin
    exact ⟨b, mem_flatMap.mpr ⟨r, hr, hb⟩, hin⟩

theorem disjoint_poolBlocks :
    (poolBlocks ipa).Pairwise fun a b => ∀ ip : IP, ip.length = n → InBlock a ip → ¬ InBlock b ip := by
  refine pairwise_flatMap.mpr ⟨fun r hr => (cidrCover_range2Cidr hn (h.width r hr)).disjoint, ?_⟩
  have hsep := h.separated
  rw [Separated, pairwise_map] at hsep
  refine hsep.imp_of_mem fun hr hr' hlt a ha b hb ip hip hina hinb => ?_
  have hfirst := ((cidrCover_range2Cidr hn (h.width _ hr)).union ip hip).mp ⟨a, ha, hina⟩
  have hsecond := ((cidrCover_range2Cidr hn (h.width _ hr')).union ip hip).mp ⟨b, hb, hinb⟩
  rw [contains_iff (h.width _ hr) hip] at hfirst
  rw [contains_iff (h.width _ hr') hip] at hsecond
  exact absurd (le_trans hsecond.1 hfirst.2) (Nat.not_le_of_lt hlt)

end Pool

/-- The pool of the block without its exceptions. -/
theorem pool_exact {n : Nat} {nw : IPNet} (hnw : IsCidr n nw) {exceptions : List IPNet}
    (hex : ∀ e ∈ exceptions, IsCidr n e) : Canonical n ((new.addSubnet nw).removeRanges (exceptions.map subnetRange)) ∧
      ∀ ip : IP, ip.length = n → (((new.addSubnet nw).removeRanges (exceptions.map subnetRange)).Free ip ↔
        InBlock nw ip ∧ ∀ e ∈ exceptions, ¬ InBlock e ip) := by
  obtain ⟨hwidth, hiv⟩ := subnetRange_isCidr hnw
  have hadd : Canonical n (new.addSubnet nw) :=
    canonical_addRange_of_disjoint (canonical_new n) hwidth.1 hwidth.2 (by simp [new])
  have hranges : AllWidth n (exceptions.map subnetRange) := by
    intro r hr
    obtain ⟨e, he, rfl⟩ := mem_map.mp hr
    exact (subnetRange_isCidr (hex e he)).1
  have hcan := canonical_removeRanges (new.addSubnet nw) _ hadd hranges
  refine ⟨hcan, fun ip hip => ?_⟩
  have hblock : Covers ((new.addSubnet nw).freeList.map iv) (value ip) ↔ InBlock nw ip := by
    rw [IpAlloc.addSubnet, covers_addRange hwidth.1 hwidth.2 (canonical_new n).sorted, hnw.inBlock_iff hip, ← hiv]
    simp [new, Iv.Has]
  have hexcept : Covers ((exceptions.map subnetRange).map iv) (value ip) ↔ ∃ e ∈ exceptions, InBlock e ip := by
    simp only [Covers, mem_map, exists_exists_and_eq_and]
    refine exists_congr fun e => and_congr_right fun he => ?_
    rw [(subnetRange_isCidr (hex e he)).2, (hex e he).inBlock_iff hip]
  rw [free_iff hcan.width hip, covers_removeRanges _ _ hadd hranges, hblock, hexcept]
  simp

/-- The texts stand for disjoint subnets, and together for the block without its
exceptions. -/
theorem ipBlockToSubnets_exact (ipblock : IPBlock) : (ipBlockToSubnets ipblock = none ↔
        parseCIDR ipblock.cidr = none ∨ ∃ ex ∈ ipblock.exceptions, parseCIDR ex = none) ∧
      ∀ nw : IP × IPNet, parseCIDR ipblock.cidr = some nw →
        (∀ ex ∈ ipblock.exceptions, ∃ e, parseCIDR ex = some e ∧ e.2.mask.length = nw.2.mask.length) →
        (nw.2.mask.length = 16 → ∀ ip : IP, ip.length = 16 → InBlock nw.2 ip → to4 ip = none) →
        ∃ (subnets : List String) (blocks : List IPNet), ipBlockToSubnets ipblock = some subnets ∧
          subnets.map (fun s => (parseCIDR s).map Prod.snd) = blocks.map some ∧
          (blocks.Pairwise fun a b => ∀ ip : IP, ip.length = nw.2.mask.length → InBlock a ip → ¬ InBlock b ip) ∧
          ∀ ip : IP, ip.length = nw.2.mask.length → ((∃ b ∈ blocks, InBlock b ip) ↔
            InBlock nw.2 ip ∧ ∀ ex ∈ ipblock.exceptions, ∀ e, parseCIDR ex = some e → ¬ InBlock e.2 ip) := by
  refine ⟨ipBlockToSubnets_none ipblock, fun nw hcidr hex hmapped => ?_⟩
  obtain ⟨hn, hnw⟩ := isCidr_parseCIDR hcidr
  have hparsed : ∀ ex ∈ ipblock.exceptions, parseCIDR ex ≠ none := by
    intro ex hmem
    obtain ⟨e, he, -⟩ := hex ex hmem
    simp [he]
  have hexcidr : ∀ e ∈ (ipblock.exceptions.filterMap parseCIDR).map Prod.snd, IsCidr nw.2.mask.length e := by
    intro e he
    obtain ⟨p, hp, rfl⟩ := mem_map.mp he
    obtain ⟨ex, hmem, hp⟩ := mem_filterMap.mp hp
    obtain ⟨p', hp', hlen⟩ := hex ex hmem
    rw [hp, Option.some.injEq] at hp'
    rw [← hlen, ← hp']
    exact (isCidr_parseCIDR hp).2
  obtain ⟨hcan, hfree⟩ := pool_exact hnw hexcidr
  rw [map_map] at hcan hfree
  generalize hpool : (new.addSubnet nw.2).removeRanges
    ((ipblock.exceptions.filterMap parseCIDR).map (subnetRange ∘ Prod.snd)) = pool at hcan hfree
  have hcidrs := isCidr_poolBlocks hn hcan
  have hout : ipBlockToSubnets ipblock = some ((poolBlocks pool).map IPNet.string) := by
    have hremove := removeExceptions_some ipblock.exceptions (new.addSubnet nw.2) hparsed
    simp only [ipBlockToSubnets, hcidr, Option.bind_eq_bind, Option.bind_some, hremove, poolBlocks, map_flatMap]
    rw [← hpool]
    rfl
  have hunion : ∀ ip : IP, ip.length = nw.2.mask.length → ((∃ b ∈ poolBlocks pool, InBlock b ip) ↔
      InBlock nw.2 ip ∧ ∀ ex ∈ ipblock.exceptions, ∀ e, parseCIDR ex = some e → ¬ InBlock e.2 ip) := by
    intro ip hip
    rw [inBlock_poolBlocks hn hcan hip, hfree ip hip]
    simp only [mem_map, mem_filterMap]
    refine and_congr_right fun _ => ⟨fun h ex hmem e he => h e.2 ⟨e, ⟨ex, hmem, he⟩, rfl⟩, ?_⟩
    rintro h _ ⟨e, ⟨ex, hmem, he⟩, rfl⟩
    exact h ex hmem e he
  refine ⟨_, poolBlocks pool, hout, ?_, disjoint_poolBlocks hn hcan, hunion⟩
  rw [map_map]
  refine map_congr_left fun b hb => parseCIDR_block (hcidrs b hb) ?_
  rcases hn with h4 | h16
  · exact .inl h4
  · have hself := (hunion b.ip (hcidrs b hb).1).mp ⟨b, hb, (hcidrs b hb).2.2⟩
    exact .inr ⟨h16, hmapped h16 b.ip ((hcidrs b hb).1.trans h16) hself.1⟩

/-- Two exceptions, one inside of the other. -/
theorem ipBlockToSubnets_exact_nested :
    ipBlockToSubnets ⟨"10.0.0.0/29", ["10.0.0.4/30", "10.0.0.5/32"]⟩ = some ["10.0.0.0/30"] ∧
      ∃ (subnets : List String) (blocks : List IPNet),
        ipBlockToSubnets ⟨"10.0.0.0/29", ["10.0.0.4/30", "10.0.0.5/32"]⟩ = some subnets ∧
        subnets.map (fun s => (parseCIDR s).map Prod.snd) = blocks.map some ∧
        (blocks.Pairwise fun a b => ∀ ip : IP, ip.length = 4 → InBlock a ip → ¬ InBlock b ip) ∧
        ∀ ip : IP, ip.length = 4 → ((∃ b ∈ blocks, InBlock b ip) ↔ InBlock ⟨[10, 0, 0, 0], [255, 255, 255, 248]⟩ ip ∧
            ∀ ex ∈ ["10.0.0.4/30", "10.0.0.5/32"], ∀ e, parseCIDR ex = some e → ¬ InBlock e.2 ip) := by
  refine ⟨by decide +kernel, ?_⟩
  refine (ipBlockToSubnets_exact ⟨"10.0.0.0/29", ["10.0.0.4/30", "10.0.0.5/32"]⟩).2
    (mapped 10 0 0 0, ⟨[10, 0, 0, 0], [255, 255, 255, 248]⟩) (by decide +kernel) ?_ (fun h => absurd h (by decide))
  intro ex hex
  simp only [mem_cons, not_mem_nil, or_false] at hex
  rcases hex with rfl | rfl
  · exact ⟨(mapped 10 0 0 4, ⟨[10, 0, 0, 4], [255, 255, 255, 252]⟩), by decide +kernel, rfl⟩
  · exact ⟨(mapped 10 0 0 5, ⟨[10, 0, 0, 5], [255, 255, 255, 255]⟩), by decide +kernel, rfl⟩

/-!
# Which pods a rule allows

Every pod that a peer of a rule selects is among the candidates and passes `peerMatchesPod`, so
its addresses are in the rule. The converse fails for a peer with both selectors: in the
namespace of the policy only its pod selector is tested, elsewhere only its namespace selector.
The rule is exact if and only if every address that enters through such a half test belongs
there anyway.
-/

open List

variable {peer : Peer} {np : NetworkPolicy} {pod : Pod} {n : Namespace} {α : Type} {c : Cluster}
  {acc : List Pod × List Namespace} {ingressPods egressPods : List String}

/-- The namespace of this name is there and its labels match. -/
def NamespaceMatches (namespaces : List Namespace) (s : LabelSelector) (ns : String) : Prop :=
  ∃ n ∈ namespaces, n.name = ns ∧ s.matchesLabels n.labels = true

def Peer.Selects (namespaces : List Namespace) (npNs : String) (peer : Peer) (pod : Pod) : Prop :=
  match peer.podSelector, peer.namespaceSelector with
  | some ps, some nss => ps.matchesLabels pod.labels = true ∧ NamespaceMatches namespaces nss pod.ns
  | some ps, none => pod.ns = npNs ∧ ps.matchesLabels pod.labels = true
  | none, some nss => NamespaceMatches namespaces nss pod.ns
  | none, none => False

/-- A peer with both selectors of which the one that counts for the pod's namespace
matches. -/
def Peer.HalfSelects (namespaces : List Namespace) (npNs : String) (peer : Peer) (pod : Pod) : Prop :=
  match peer.podSelector, peer.namespaceSelector with
  | some ps, some nss =>
    (npNs = pod.ns ∧ ps.matchesLabels pod.labels = true) ∨
      (npNs ≠ pod.ns ∧ NamespaceMatches namespaces nss pod.ns)
  | _, _ => False

/-- What the API server accepts: selectors that can be read, and either a block or
selectors. -/
structure Peer.Valid (peer : Peer) : Prop where
  podSelector : ∀ s, peer.podSelector = some s → s.Valid
  namespaceSelector : ∀ s, peer.namespaceSelector = some s → s.Valid
  oneKind : peer.ipBlock.isSome ↔ peer.podSelector = none ∧ peer.namespaceSelector = none

def ValidPolicy (np : NetworkPolicy) : Prop :=
  ∀ d, ∀ rule ∈ np.rules d, ∀ peer ∈ rule.peers, peer.Valid

theorem covers_namespace (namespaces : List Namespace) (nss : LabelSelector) (s p : Selector)
    (hs : ∀ ls, s.matchesLabels ls = nss.matchesLabels ls) (ns : String) :
    PodSelector.Covers ⟨none, some s, p⟩ namespaces ns ↔ NamespaceMatches namespaces nss ns := by
  simp [PodSelector.Covers, NamespaceMatches, hs]

/-- The index selectors of a peer say what the peer says. -/
theorem peerSelectors_selects (h : peer.Valid) (namespaces : List Namespace) (npNs : String) (pod : Pod) :
    (∃ selector ∈ peerSelectors npNs peer, selector.podSelector.matchesLabels pod.labels ∧
      selector.Covers namespaces pod.ns) ↔ peer.Selects namespaces npNs pod := by
  obtain ⟨podSelector, namespaceSelector, ipBlock⟩ := peer
  cases podSelector with
  | none =>
    cases namespaceSelector with
    | none => simp [peerSelectors, labelSelectorAsSelector, Peer.Selects]
    | some nss =>
      obtain ⟨s, hs, hm⟩ := (h.namespaceSelector nss rfl).asSelector
      have hn : labelSelectorAsSelector none = some .nothing := rfl
      simp [peerSelectors, hs, hn, Peer.Selects, covers_namespace namespaces nss s _ hm]
  | some ps =>
    obtain ⟨s, hs, hm⟩ := (h.podSelector ps rfl).asSelector
    cases namespaceSelector with
    | none =>
      have hn : labelSelectorAsSelector none = some .nothing := rfl
      simp only [peerSelectors, hs, hn, Peer.Selects, PodSelector.Covers, mem_singleton,
        exists_eq_left, hm, Option.some.injEq, reduceCtorEq, false_and, exists_false, or_false]
      rw [and_comm, eq_comm]
    | some nss =>
      obtain ⟨s', hs', hm'⟩ := (h.namespaceSelector nss rfl).asSelector
      simp [peerSelectors, hs, hs', Peer.Selects, hm, covers_namespace namespaces nss s' _ hm']

theorem selects_iff (h : ValidPolicy np) (d : Direction) (namespaces : List Namespace) (pod : Pod) :
    Index.Selects (netPolFuncs (rulePodSelector d)) namespaces np pod ↔
      ∃ rule ∈ np.rules d, ∃ peer ∈ rule.peers, peer.Selects namespaces np.ns pod := by
  simp only [Index.Selects, netPolFuncs, rulePodSelector, peerPodSelector, mem_flatMap]
  constructor
  · intro hs
    obtain ⟨selector, ⟨rule, hrule, peer, hpeer, hsel⟩, hm⟩ := hs
    exact ⟨rule, hrule, peer, hpeer,
      (peerSelectors_selects (h d rule hrule peer hpeer) namespaces np.ns pod).mp ⟨selector, hsel, hm⟩⟩
  · intro hs
    obtain ⟨rule, hrule, peer, hpeer, hsel⟩ := hs
    obtain ⟨selector, hmem, hm⟩ :=
      (peerSelectors_selects (h d rule hrule peer hpeer) namespaces np.ns pod).mpr hsel
    exact ⟨selector, ⟨rule, hrule, peer, hpeer, hmem⟩, hm⟩

/-- `peerMatchesPod` tests a peer with one selector as a whole and a peer with two by
half. -/
theorem peerMatchesPod_iff (h : peer.Valid) {namespaces : List Namespace} {npNs : String}
    (hn : ∀ s : LabelSelector, s.matchesLabels n.labels ↔ NamespaceMatches namespaces s pod.ns) :
    peerMatchesPod npNs peer pod n ↔ peer.Selects namespaces npNs pod ∨ peer.HalfSelects namespaces npNs pod := by
  obtain ⟨podSelector, namespaceSelector, ipBlock⟩ := peer
  cases podSelector with
  | none =>
    cases namespaceSelector with
    | none => simp [peerMatchesPod, peerMatchesNamespace, Peer.Selects, Peer.HalfSelects]
    | some nss =>
      obtain ⟨s, hs, hm⟩ := (h.namespaceSelector nss rfl).asSelector
      simp [peerMatchesPod, peerMatchesNamespace, hs, hm, hn, Peer.Selects, Peer.HalfSelects]
  | some ps =>
    obtain ⟨s, hs, hm⟩ := (h.podSelector ps rfl).asSelector
    cases namespaceSelector with
    | none =>
      by_cases hns : npNs = pod.ns
      · simp [peerMatchesPod, hs, hm, hns, Peer.Selects, Peer.HalfSelects]
      · have hns' : pod.ns ≠ npNs := fun e => hns e.symm
        simp [peerMatchesPod, peerMatchesNamespace, hns, hns', Peer.Selects, Peer.HalfSelects]
    | some nss =>
      obtain ⟨s', hs', hm'⟩ := (h.namespaceSelector nss rfl).asSelector
      by_cases hns : npNs = pod.ns
      · have himp : ps.matchesLabels pod.labels ∧ NamespaceMatches namespaces nss pod.ns →
            ps.matchesLabels pod.labels := And.left
        simpa [peerMatchesPod, hs, hm, hns, Peer.Selects, Peer.HalfSelects] using himp
      · simp [peerMatchesPod, peerMatchesNamespace, hs', hm', hns, hn, Peer.Selects, Peer.HalfSelects]

theorem namespaceByKey_iff (c : Cluster) (name : String) (n : Namespace) :
    c.namespaceByKey name = some n ↔ n ∈ c.namespaces ∧ n.name = name :=
  Maps.getByKey_eq_some_iff c.names_nodup

theorem podByKey_iff (c : Cluster) (podkey : String) (pod : Pod) :
    c.podByKey podkey = some pod ↔ pod ∈ c.pods ∧ podKey pod = podkey :=
  Maps.getByKey_eq_some_iff c.podKeys_nodup

/-- The labels of a namespace are those that count for its pods. -/
theorem namespaceMatches_iff (c : Cluster) {ns : String} (hn : n ∈ c.namespaces) (he : n.name = ns)
    (s : LabelSelector) : s.matchesLabels n.labels ↔ NamespaceMatches c.namespaces s ns := by
  constructor
  · intro h
    exact ⟨n, hn, he, h⟩
  · intro h
    obtain ⟨m, hm, hname, hmatch⟩ := h
    have heq : some m = some n :=
      ((namespaceByKey_iff c ns m).mpr ⟨hm, hname⟩).symm.trans ((namespaceByKey_iff c ns n).mpr ⟨hn, he⟩)
    rw [← Option.some.inj heq]
    exact hmatch

/-- Collected pods are in collected namespaces, and these come from the store. -/
structure Collected (c : Cluster) (acc : List Pod × List Namespace) : Prop where
  stored : ∀ n ∈ acc.2, n ∈ c.namespaces
  homed : ∀ pod ∈ acc.1, ∃ n ∈ acc.2, n.name = pod.ns

theorem Collected.snoc (h : Collected c acc) (ns : List Namespace) (hns : ∀ n ∈ ns, n ∈ c.namespaces)
    (hpod : ∃ n ∈ acc.2 ++ ns, n.name = pod.ns) : Collected c (acc.1 ++ [pod], acc.2 ++ ns) := by
  constructor
  · intro n hn
    cases mem_append.mp hn with
    | inl hn => exact h.stored n hn
    | inr hn => exact hns n hn
  · intro q hq
    cases mem_append.mp hq with
    | inl hq =>
      obtain ⟨n, hn, hname⟩ := h.homed q hq
      exact ⟨n, mem_append_left _ hn, hname⟩
    | inr hq =>
      rw [mem_singleton.mp hq]
      exact hpod

theorem addPeerPod_spec (h : Collected c acc) (podkey : String) : Collected c (addPeerPod c acc podkey) ∧
      ∀ pod, pod ∈ (addPeerPod c acc podkey).1 ↔ pod ∈ acc.1 ∨ pod ∈ c.pods ∧ podKey pod = podkey := by
  simp only [← podByKey_iff]
  unfold addPeerPod
  cases hp : c.podByKey podkey with
  | none => simp [h]
  | some p =>
    by_cases hs : (acc.2.find? fun n => n.name = p.ns).isSome
    · obtain ⟨n, hn⟩ := Option.isSome_iff_exists.mp hs
      have hmem : n ∈ acc.2 ++ [] := by simpa using mem_of_find?_eq_some hn
      have hname : n.name = p.ns := by simpa using find?_some hn
      have hsnoc := h.snoc [] (by simp) ⟨n, hmem, hname⟩
      rw [append_nil] at hsnoc
      simp only [hs, if_true]
      exact ⟨hsnoc, by simp [eq_comm]⟩
    · obtain ⟨n, hn, hname⟩ := c.homed p ((podByKey_iff c podkey p).mp hp).1
      have hlook : c.namespaceByKey p.ns = some n := (namespaceByKey_iff c p.ns n).mpr ⟨hn, hname⟩
      simp only [hs, hlook]
      exact ⟨h.snoc [n] (by simpa using hn) ⟨n, by simp, hname⟩, by simp [eq_comm]⟩

theorem foldl_addPeerPod_spec (keys : List String) (h : Collected c acc) :
    Collected c (keys.foldl (addPeerPod c) acc) ∧ ∀ pod, pod ∈ (keys.foldl (addPeerPod c) acc).1 ↔
        pod ∈ acc.1 ∨ pod ∈ c.pods ∧ podKey pod ∈ keys := by
  induction keys generalizing acc with
  | nil => simp [h]
  | cons k keys ih =>
    obtain ⟨hk, hmem⟩ := addPeerPod_spec h k
    obtain ⟨hout, hall⟩ := ih hk
    refine ⟨hout, ?_⟩
    intro pod
    rw [foldl_cons, hall, hmem, or_assoc, ← and_or_left, mem_cons]

theorem collected_peerPods (c : Cluster) (keys : List String) : Collected c (peerPods c keys) :=
  (foldl_addPeerPod_spec keys ⟨by simp, by simp⟩).1

theorem mem_peerPods (c : Cluster) (keys : List String) (pod : Pod) :
    pod ∈ (peerPods c keys).1 ↔ pod ∈ c.pods ∧ podKey pod ∈ keys := by
  rw [peerPods, (foldl_addPeerPod_spec keys ⟨by simp, by simp⟩).2]
  simp

def Remotes.Ok (r : Remotes) : Prop := ∀ ip, ip ∈ r.remoteSubnets ↔ ip ∈ r.subnetMap

/-- The loop body adds exactly these subnets. -/
def Adds {α : Type} (f : Remotes → α → Remotes) (P : α → String → Prop) : Prop :=
  ∀ r x, r.Ok → (f r x).Ok ∧ ∀ ip, ip ∈ (f r x).remoteSubnets ↔ ip ∈ r.remoteSubnets ∨ P x ip

/-- The loop adds what its turns add. -/
theorem Adds.foldl {f : Remotes → α → Remotes} {P : α → String → Prop} (h : Adds f P) :
    Adds (fun r (xs : List α) => xs.foldl f r) fun xs ip => ∃ x ∈ xs, P x ip := by
  intro r xs hr
  induction xs generalizing r with
  | nil => simp [hr]
  | cons x xs ih =>
    obtain ⟨hx, hmem⟩ := h r x hr
    obtain ⟨hout, hall⟩ := ih (f r x) hx
    refine ⟨hout, ?_⟩
    intro ip
    simp only [foldl_cons, mem_cons, exists_eq_or_imp]
    rw [hall, hmem, or_assoc]

theorem adds_addIp : Adds Remotes.addIp fun x ip => ip = x := by
  intro r x hr
  unfold Remotes.addIp
  by_cases hx : x ∈ r.subnetMap
  · simp only [hx, if_true]
    refine ⟨hr, ?_⟩
    intro ip
    constructor
    · intro hip
      exact .inl hip
    · intro hip
      exact hip.elim id fun he => he ▸ (hr x).mpr hx
  · simp only [hx, if_false]
    refine ⟨?_, by simp⟩
    intro ip
    simp [hr ip, or_comm]

theorem adds_addPod (npNs : String) (peerNs : List Namespace) (pod : Pod) :
    Adds (Remotes.addPod npNs peerNs pod) fun peer ip => ∃ n, peerNs.find? (fun n => n.name = pod.ns) = some n ∧
        peerMatchesPod npNs peer pod n ∧ ip ∈ ipsForPod pod := by
  intro r peer hr
  unfold Remotes.addPod
  cases hn : peerNs.find? fun n => n.name = pod.ns with
  | none => simp [hr]
  | some n =>
    by_cases hm : peerMatchesPod npNs peer pod n
    · simpa [hm] using adds_addIp.foldl r (ipsForPod pod) hr
    · simp [hm, hr]

def BlockSubnet (peer : Peer) (ip : String) : Prop :=
  ∃ ipblock subs, peer.ipBlock = some ipblock ∧ ipBlockToSubnets ipblock = some subs ∧ ip ∈ subs

theorem adds_addBlock : Adds Remotes.addBlock BlockSubnet := by
  intro r peer hr
  unfold Remotes.addBlock BlockSubnet
  cases peer.ipBlock with
  | none => simp [hr]
  | some ipblock =>
    cases hs : ipBlockToSubnets ipblock with
    | none => simp [hr, hs]
    | some subs =>
      refine ⟨?_, by simp [hs]⟩
      intro ip
      simp [hs, hr ip]

theorem mem_getPeerRemoteSubnets (peers : List Peer) (npNs : String) (pods : List Pod)
    (peerNs : List Namespace) (ip : String) : ip ∈ (getPeerRemoteSubnets peers npNs pods peerNs).1 ↔
      (∃ pod ∈ pods, ∃ peer ∈ peers, ∃ n, peerNs.find? (fun n => n.name = pod.ns) = some n ∧
        peerMatchesPod npNs peer pod n ∧ ip ∈ ipsForPod pod) ∨ ∃ peer ∈ peers, BlockSubnet peer ip := by
  have hpods : Adds (fun r pod => peers.foldl (Remotes.addPod npNs peerNs pod) r) fun pod ip =>
      ∃ peer ∈ peers, ∃ n, peerNs.find? (fun n => n.name = pod.ns) = some n ∧
        peerMatchesPod npNs peer pod n ∧ ip ∈ ipsForPod pod :=
    fun r pod hr => (adds_addPod npNs peerNs pod).foldl r peers hr
  have hempty : Remotes.Ok ⟨[], ∅⟩ := by
    intro x
    simp
  obtain ⟨hok, hmem⟩ := hpods.foldl _ pods hempty
  obtain ⟨-, hall⟩ := adds_addBlock.foldl _ peers hok
  rw [getPeerRemoteSubnets, mem_insertionSort, hall, hmem]
  simp

/-- Some peer of the rule selects the pod. -/
def RuleSelects (c : Cluster) (npNs : String) (rule : Rule) (pod : Pod) : Prop :=
  ∃ peer ∈ rule.peers, peer.Selects c.namespaces npNs pod

/-- An address of a selected pod, or a subnet of a block of the rule; a rule without peers is for
all addresses. -/
def RuleAllows (c : Cluster) (npNs : String) (rule : Rule) (ip : String) : Prop :=
  rule.peers = [] ∨ (∃ pod ∈ c.pods, RuleSelects c npNs rule pod ∧ ip ∈ ipsForPod pod) ∨
    ∃ peer ∈ rule.peers, BlockSubnet peer ip

/-- The index of one direction returns exactly the pods its selectors select. -/
def Reflects (c : Cluster) (np : NetworkPolicy) (fn : Funcs NetworkPolicy) (podkeys : List String) :
    Prop :=
  ∀ k, k ∈ podkeys ↔ ∃ pod ∈ c.pods, podKey pod = k ∧ Index.Selects fn c.namespaces np pod

/-- Each candidate that only half of a peer of the rule means has its addresses allowed
otherwise. -/
def HalvesAllowed (c : Cluster) (np : NetworkPolicy) (rule : Rule) : Prop :=
  ∀ pod ∈ c.pods, (∃ d, ∃ other ∈ np.rules d, RuleSelects c np.ns other pod) →
    ∀ peer ∈ rule.peers, peer.HalfSelects c.namespaces np.ns pod →
      ∀ ip ∈ ipsForPod pod, RuleAllows c np.ns rule ip

section

variable (h : ValidPolicy np) (hin : Reflects c np netPolIngressPods ingressPods)
  (heg : Reflects c np netPolEgressPods egressPods)
include h hin heg

theorem mem_candidates (pod : Pod) : pod ∈ (peerPods c (ingressPods ++ egressPods)).1 ↔
      pod ∈ c.pods ∧ ∃ d, ∃ other ∈ np.rules d, RuleSelects c np.ns other pod := by
  have hkey : ∀ q ∈ c.pods, podKey q = podKey pod → pod ∈ c.pods → q = pod := by
    intro q hq he hpod
    exact Option.some.inj
      (((podByKey_iff c _ q).mpr ⟨hq, he⟩).symm.trans ((podByKey_iff c _ pod).mpr ⟨hpod, rfl⟩))
  rw [mem_peerPods, List.mem_append, hin, heg]
  constructor
  · intro hp
    obtain ⟨hpod, hsel⟩ := hp
    refine ⟨hpod, ?_⟩
    cases hsel with
    | inl hs =>
      obtain ⟨q, hq, he, hsel⟩ := hs
      rw [hkey q hq he hpod] at hsel
      exact ⟨.ingress, (selects_iff h .ingress c.namespaces pod).mp hsel⟩
    | inr hs =>
      obtain ⟨q, hq, he, hsel⟩ := hs
      rw [hkey q hq he hpod] at hsel
      exact ⟨.egress, (selects_iff h .egress c.namespaces pod).mp hsel⟩
  · intro hp
    obtain ⟨hpod, d, hsel⟩ := hp
    refine ⟨hpod, ?_⟩
    cases d with
    | ingress => exact .inl ⟨pod, hpod, rfl, (selects_iff h .ingress c.namespaces pod).mpr hsel⟩
    | egress => exact .inr ⟨pod, hpod, rfl, (selects_iff h .egress c.namespaces pod).mpr hsel⟩

/-- What the compiled rule holds: the addresses of candidates that a peer means as a whole
or by half, and the subnets of its blocks. -/
theorem mem_remotes {d : Direction} {rule : Rule} (hrule : rule ∈ np.rules d) (ip : String) :
    let candidates := peerPods c (ingressPods ++ egressPods)
    ip ∈ (getPeerRemoteSubnets rule.peers np.ns candidates.1 candidates.2).1 ↔
      (∃ pod ∈ c.pods, (∃ d, ∃ other ∈ np.rules d, RuleSelects c np.ns other pod) ∧
        (∃ peer ∈ rule.peers, peer.Selects c.namespaces np.ns pod ∨
          peer.HalfSelects c.namespaces np.ns pod) ∧ ip ∈ ipsForPod pod) ∨
      ∃ peer ∈ rule.peers, BlockSubnet peer ip := by
  intro candidates
  have hcol : Collected c candidates := collected_peerPods c _
  have hmatch : ∀ pod ∈ candidates.1, ∀ peer ∈ rule.peers,
      ((∃ n, candidates.2.find? (fun n => n.name = pod.ns) = some n ∧
        peerMatchesPod np.ns peer pod n ∧ ip ∈ ipsForPod pod) ↔
      (peer.Selects c.namespaces np.ns pod ∨ peer.HalfSelects c.namespaces np.ns pod) ∧
        ip ∈ ipsForPod pod) := by
    intro pod hpod peer hpeer
    obtain ⟨m, hm, hmname⟩ := hcol.homed pod hpod
    have hsome : (candidates.2.find? fun n => n.name = pod.ns).isSome :=
      find?_isSome.mpr ⟨m, hm, by simpa using hmname⟩
    obtain ⟨n, hn⟩ := Option.isSome_iff_exists.mp hsome
    have hname : n.name = pod.ns := by simpa using find?_some hn
    have hstored := hcol.stored n (mem_of_find?_eq_some hn)
    rw [hn]
    simp [peerMatchesPod_iff (h d rule hrule peer hpeer) (namespaceMatches_iff c hstored hname)]
  rw [mem_getPeerRemoteSubnets]
  apply or_congr_left
  constructor
  · intro hp
    obtain ⟨pod, hpod, peer, hpeer, hx⟩ := hp
    obtain ⟨hsel, hip⟩ := (hmatch pod hpod peer hpeer).mp hx
    obtain ⟨hmem, hcand⟩ := (mem_candidates h hin heg pod).mp hpod
    exact ⟨pod, hmem, hcand, ⟨peer, hpeer, hsel⟩, hip⟩
  · intro hp
    obtain ⟨pod, hmem, hcand, ⟨peer, hpeer, hsel⟩, hip⟩ := hp
    have hpod := (mem_candidates h hin heg pod).mpr ⟨hmem, hcand⟩
    exact ⟨pod, hpod, peer, hpeer, (hmatch pod hpod peer hpeer).mpr ⟨hsel, hip⟩⟩

end

end AciContainers.NetPol
