import AciContainers.IpAllocIntersect
import AciContainers.NodePodNet
import AciContainers.Ownership

/-!
# Exclusive pod networks

Every handler lets at most one node take addresses out of the pool; none puts an
address back. So an address that was ever given to a node, in its entry or in an
annotation of its object, is not in the pool and was never given to another node.
The pool must start as a disjoint list, which the load of overlapping configured
ranges does not guarantee.
-/
namespace AciContainers.Nodes

open Bytes Net Intervals Ipam Maps Ownership Runs List

def HasIp (ips : NetIps) (v : Bool) (x : Nat) : Prop := Covers ((ips.get v).map iv) x

@[simp] theorem hasIp_empty (v : Bool) (x : Nat) : ¬ HasIp ⟨[], []⟩ v x := by
  cases v <;> simp [HasIp, ByFamily.get]

structure MetaOk (configured : NetPools) (m : NodePodNetMeta) : Prop where
  sorted : ∀ v, Sorted 16 ⟨m.podNetIps.get v⟩
  inside : ∀ v x, HasIp m.podNetIps v x → NetPools.Has configured v x
  annotated : m.podNetIpsAnnotation = .empty ∨ m.podNetIpsAnnotation = .netIps m.podNetIps

theorem metaOk_new (configured : NetPools) : MetaOk configured newNodePodNetMeta where
  sorted v := by
    cases v <;> exact (canonical_new 16).sorted
  inside v x hx := absurd hx (hasIp_empty v x)
  annotated := .inl rfl

structure StateOk (s : State) : Prop where
  width : ∀ v, AllWidth 16 (s.configuredPodNetworkIps.get v).freeList
  families : ∀ x, NetPools.Has s.configuredPodNetworkIps true x →
    ¬ NetPools.Has s.configuredPodNetworkIps false x
  canonical : ∀ v, Canonical 16 (s.podNetworkIps.get v)
  inside : ∀ v x, NetPools.Has s.podNetworkIps v x → NetPools.Has s.configuredPodNetworkIps v x
  metas : ∀ n m, s.nodePodNetCache n = some m → MetaOk s.configuredPodNetworkIps m

/-- Node `n`, and no other, may have taken addresses out of the pool. -/
structure Takes (n : String) (s s' : State) : Prop where
  configured : s'.configuredPodNetworkIps = s.configuredPodNetworkIps
  others : ∀ k, k ≠ n → s'.nodePodNetCache k = s.nodePodNetCache k
  shrinks : ∀ v x, NetPools.Has s'.podNetworkIps v x → NetPools.Has s.podNetworkIps v x
  gains : ∀ m', s'.nodePodNetCache n = some m' → ∀ v x, HasIp m'.podNetIps v x →
    (∃ m, s.nodePodNetCache n = some m ∧ HasIp m.podNetIps v x) ∨
      NetPools.Has s.podNetworkIps v x ∧ ¬ NetPools.Has s'.podNetworkIps v x

theorem Takes.refl (n : String) (s : State) : Takes n s s where
  configured := rfl
  others _ _ := rfl
  shrinks _ _ hx := hx
  gains m hm _ _ hx := .inl ⟨m, hm, hx⟩

variable {s : State}

theorem Takes.trans {n : String} {t u : State} (hst : Takes n s t) (htu : Takes n t u) : Takes n s u where
  configured := htu.configured.trans hst.configured
  others k hk := (htu.others k hk).trans (hst.others k hk)
  shrinks v x hx := hst.shrinks v x (htu.shrinks v x hx)
  gains m'' hm'' v x hx := by
    cases htu.gains m'' hm'' v x hx with
    | inl h =>
      obtain ⟨m', hm', hx'⟩ := h
      cases hst.gains m' hm' v x hx' with
      | inl h => exact .inl h
      | inr h => exact .inr ⟨h.1, fun hu => h.2 (htu.shrinks v x hu)⟩
    | inr h => exact .inr ⟨hst.shrinks v x h.1, h.2⟩

section Chunk

variable {podnet : NodePodNetMeta}

/-- The pool may lose addresses of one family, and the node gains some of these. -/
structure ChunkStep (s : State) (podnet : NodePodNetMeta) (s' : State) (podnet' : NodePodNetMeta) :
    Prop where
  frame : s' = { s with podNetworkIps := s'.podNetworkIps }
  canonical : ∀ v, Canonical 16 (s'.podNetworkIps.get v)
  shrinks : ∀ v x, NetPools.Has s'.podNetworkIps v x → NetPools.Has s.podNetworkIps v x
  ok : MetaOk s.configuredPodNetworkIps podnet'
  gains : ∀ v x, HasIp podnet'.podNetIps v x → HasIp podnet.podNetIps v x ∨
    NetPools.Has s.podNetworkIps v x ∧ ¬ NetPools.Has s'.podNetworkIps v x

theorem ChunkStep.refl (h : StateOk s) (hm : MetaOk s.configuredPodNetworkIps podnet) : ChunkStep s podnet s podnet :=
  ⟨rfl, h.canonical, fun _ _ hx => hx, hm, fun _ _ hx => .inl hx⟩

theorem ChunkStep.stateOk {s' : State} {podnet' : NodePodNetMeta} (h : StateOk s)
    (hc : ChunkStep s podnet s' podnet') : StateOk s' := by
  rw [hc.frame]
  exact ⟨h.width, h.families, hc.canonical, fun v x hx => h.inside v x (hc.shrinks v x hx), h.metas⟩

theorem allocateIpChunk_step (cfg : Config) (v : Bool) (h : StateOk s) (hm : MetaOk s.configuredPodNetworkIps podnet) :
    ChunkStep s podnet (allocateIpChunk cfg s podnet v).2.1 (allocateIpChunk cfg s podnet v).1 := by
  unfold allocateIpChunk
  by_cases hneed : (podnet.nodePods.length : Int) >
      (newFromRanges (podnet.podNetIps.get v)).getSize - cfg.podIpPoolChunkSize.tdiv 2
  · simp only [hneed, ↓reduceIte]
    obtain ⟨hcan, hsplit⟩ := getIpChunk_split (h.canonical v) cfg.podIpPoolChunkSize
    generalize hg : (s.podNetworkIps.get v).getIpChunk cfg.podIpPoolChunkSize = g at hcan hsplit ⊢
    obtain ⟨res, pool⟩ := g
    have hcan' : ∀ w, Canonical 16 ((s.podNetworkIps.set v pool).get w) := by
      intro w
      rw [get_set]
      split
      · exact hcan
      · exact h.canonical w
    cases res with
    | none =>
      refine ⟨rfl, hcan', ?_, hm, fun _ _ hx => .inl hx⟩
      intro w x hx
      simp only [NetPools.Has, get_set] at hx ⊢
      split at hx
      · next hw => exact hw ▸ (hsplit x).mp hx
      · exact hx
    | some r =>
      obtain ⟨hr, hdis, hcov⟩ := hsplit
      have hadd : ∀ x, Covers (((newFromRanges (podnet.podNetIps.get v)).addRanges r).freeList.map
          iv) x ↔ HasIp podnet.podNetIps v x ∨ Covers (r.map iv) x :=
        covers_addRanges _ _ (hm.sorted v) hr.width
      refine ⟨rfl, hcan', ?_, ⟨?_, ?_, .inr rfl⟩, ?_⟩
      · intro w x hx
        simp only [NetPools.Has, get_set] at hx ⊢
        split at hx
        · next hw => exact hw ▸ (hcov x).mp (.inl hx)
        · exact hx
      · intro w
        simp only [ recomputePodNetAnnotation, get_set]
        split
        · exact sorted_addRanges _ _ (hm.sorted v) hr.width
        · exact hm.sorted w
      · intro w x hx
        simp only [HasIp, recomputePodNetAnnotation, get_set] at hx
        split at hx
        · next hw =>
          subst hw
          cases (hadd x).mp hx with
          | inl hx => exact hm.inside w x hx
          | inr hx => exact h.inside w x ((hcov x).mp (.inr hx))
        · exact hm.inside w x hx
      · intro w x hx
        simp only [HasIp, recomputePodNetAnnotation, get_set] at hx
        split at hx
        · next hw =>
          subst hw
          refine ((hadd x).mp hx).imp id fun hx => ⟨(hcov x).mp (.inr hx), ?_⟩
          simp only [NetPools.Has, get_set, if_true]
          exact fun hp => hdis x hp hx
        · exact .inl hx
  · simp only [hneed, ↓reduceIte]
    exact ChunkStep.refl h hm

theorem ChunkStep.trans {t u : State} {p q r : NodePodNetMeta} (hst : ChunkStep s p t q)
    (htu : ChunkStep t q u r) : ChunkStep s p u r where
  frame := by
    rw [htu.frame, hst.frame]
  canonical := htu.canonical
  shrinks w x hx := hst.shrinks w x (htu.shrinks w x hx)
  ok := by
    have hok := htu.ok
    rwa [hst.frame] at hok
  gains w x hx := by
    cases htu.gains w x hx with
    | inl hx => exact (hst.gains w x hx).imp id fun h => ⟨h.1, fun hu => h.2 (htu.shrinks w x hu)⟩
    | inr hx => exact .inr ⟨hst.shrinks w x hx.1, hx.2⟩

theorem checkFamily_step (cfg : Config) (v : Bool) (acc : NodePodNetMeta × State × Bool)
    (h : StateOk acc.2.1) (hm : MetaOk acc.2.1.configuredPodNetworkIps acc.1) :
    ChunkStep acc.2.1 acc.1 (checkFamily cfg v acc).2.1 (checkFamily cfg v acc).1 := by
  rw [checkFamily]
  split
  · exact ChunkStep.refl h hm
  · exact allocateIpChunk_step cfg v h hm

theorem checkFamilies_step (cfg : Config) (h : StateOk s) (hm : MetaOk s.configuredPodNetworkIps podnet) :
    ChunkStep s podnet (checkFamily cfg false (checkFamily cfg true (podnet, s, false))).2.1
      (checkFamily cfg false (checkFamily cfg true (podnet, s, false))).1 := by
  have h₄ := checkFamily_step cfg true (podnet, s, false) h hm
  have hok : MetaOk (checkFamily cfg true (podnet, s, false)).2.1.configuredPodNetworkIps
      (checkFamily cfg true (podnet, s, false)).1 := by
    rw [h₄.frame]
    exact h₄.ok
  exact h₄.trans (checkFamily_step cfg false _ (h₄.stateOk h) hok)

end Chunk

variable {n : String} {m : NodePodNetMeta} {w : World} {a : Option Annotation}

/-- The entry of one node is replaced. -/
theorem stateOk_put (h : StateOk s) (hm : MetaOk s.configuredPodNetworkIps m) :
    StateOk { s with nodePodNetCache := s.nodePodNetCache.put n m } where
  width := h.width
  families := h.families
  canonical := h.canonical
  inside := h.inside
  metas k q hq := by
    by_cases hk : k = n
    · rw [hk] at hq
      have he : m = q := by simpa using hq
      exact he ▸ hm
    · have hq' : s.nodePodNetCache.put n m k = some q := hq
      rw [put_other _ _ hk] at hq'
      exact h.metas k q hq'

theorem takes_put (hm : ∀ v x, HasIp m.podNetIps v x → ∃ q, s.nodePodNetCache n = some q ∧ HasIp q.podNetIps v x) :
    Takes n s { s with nodePodNetCache := s.nodePodNetCache.put n m } where
  configured := rfl
  others k hk := put_other _ _ hk
  shrinks _ _ hx := hx
  gains q hq v x hx := by
    have he : m = q := by simpa using hq
    exact .inl (hm v x (he ▸ hx))

theorem checkNodePodNet_spec (cfg : Config) (n : String) (h : StateOk s) :
    StateOk (checkNodePodNet cfg s n).1 ∧ Takes n s (checkNodePodNet cfg s n).1 := by
  unfold checkNodePodNet
  cases hc : s.nodePodNetCache n with
  | none => exact ⟨h, Takes.refl n s⟩
  | some podnet =>
    have hstep := checkFamilies_step cfg h (h.metas n podnet hc)
    simp only
    generalize checkFamily cfg false (checkFamily cfg true (podnet, s, false)) = res at hstep ⊢
    have hres : res.2.1.nodePodNetCache = s.nodePodNetCache := by rw [hstep.frame]
    have hconf : res.2.1.configuredPodNetworkIps = s.configuredPodNetworkIps := by rw [hstep.frame]
    constructor
    · refine stateOk_put (hstep.stateOk h) ?_
      rw [hconf]
      exact hstep.ok
    · refine ⟨hconf, ?_, hstep.shrinks, ?_⟩
      · intro k hk
        simp [put_other _ _ hk, hres]
      · intro m' hm' v x hx
        have he : res.1 = m' := by simpa using hm'
        exact (hstep.gains v x (he ▸ hx)).imp (fun hx => ⟨podnet, hc, hx⟩) id

theorem ensureMeta_spec (n : String) (h : StateOk s) : StateOk (ensureMeta s n) ∧ Takes n s (ensureMeta s n) := by
  unfold ensureMeta
  split
  · exact ⟨h, Takes.refl n s⟩
  · exact ⟨stateOk_put h (metaOk_new _), takes_put fun v x hx => absurd hx (hasIp_empty v x)⟩

/-- The pods of a node are not part of what is exclusive. -/
theorem nodePods_spec (pods : List String) (h : StateOk s) (hm : s.nodePodNetCache n = some m) :
    StateOk { s with nodePodNetCache := s.nodePodNetCache.put n { m with nodePods := pods } } ∧ Takes n s
        { s with nodePodNetCache := s.nodePodNetCache.put n { m with nodePods := pods } } := by
  have hok := h.metas n m hm
  exact ⟨stateOk_put h ⟨hok.sorted, hok.inside, hok.annotated⟩, takes_put fun v x hx => ⟨m, hm, hx⟩⟩

theorem addPodToNode_spec (cfg : Config) (n key : String) (h : StateOk s) :
    StateOk (addPodToNode cfg s n key).1 ∧ Takes n s (addPodToNode cfg s n key).1 := by
  unfold addPodToNode
  obtain ⟨he, ht⟩ := ensureMeta_spec n h
  cases hc : (ensureMeta s n).nodePodNetCache n with
  | none => simpa only [hc] using ⟨he, ht⟩
  | some m =>
    simp only [hc]
    split
    · exact ⟨he, ht⟩
    · obtain ⟨hp, htp⟩ := nodePods_spec (key :: m.nodePods) he hc
      obtain ⟨hch, htc⟩ := checkNodePodNet_spec cfg n hp
      exact ⟨hch, (ht.trans htp).trans htc⟩

theorem removePodFromNode_spec (cfg : Config) (n key : String) (h : StateOk s) :
    StateOk (removePodFromNode cfg s n key).1 ∧ Takes n s (removePodFromNode cfg s n key).1 := by
  unfold removePodFromNode
  cases hc : s.nodePodNetCache n with
  | none => exact ⟨h, Takes.refl n s⟩
  | some m =>
    obtain ⟨hp, htp⟩ := nodePods_spec (m.nodePods.filter (· ≠ key)) h hc
    obtain ⟨hch, htc⟩ := checkNodePodNet_spec cfg n hp
    exact ⟨hch, htp.trans htc⟩

/-- What `nodeChanged` writes is the annotation of the entry it leaves. -/
theorem nodeChanged_spec (cfg : Config) (node : Node) (h : StateOk s) :
    StateOk (nodeChanged cfg s node).1 ∧ Takes node.name s (nodeChanged cfg s node).1 ∧
      ∀ a, (nodeChanged cfg s node).2 = some a → ∃ m, (nodeChanged cfg s node).1.nodePodNetCache node.name = some m ∧
          m.podNetIpsAnnotation = a := by
  unfold nodeChanged
  obtain ⟨he, ht⟩ := ensureMeta_spec node.name h
  obtain ⟨hch, htc⟩ := checkNodePodNet_spec cfg node.name he
  split
  · exact ⟨h, Takes.refl _ s, by simp⟩
  · split
    · cases hc : (checkNodePodNet cfg (ensureMeta s node.name) node.name).1.nodePodNetCache
          node.name with
      | none => simpa [hc] using ⟨hch, ht.trans htc⟩
      | some m =>
        simp only [hc]
        split
        · exact ⟨hch, ht.trans htc, fun a ha => ⟨m, hc, by simpa using ha⟩⟩
        · exact ⟨hch, ht.trans htc, by simp⟩
    · exact ⟨he, ht, by simp⟩

/-- The text lists address number `x` for the family. -/
def Annotation.Lists (a : Annotation) (v : Bool) (x : Nat) : Prop :=
  ∃ ips, a.parsed = some ips ∧ HasIp ips v x

def Annotation.Width (a : Annotation) : Prop :=
  ∀ ips ∈ a.parsed, AllWidth 16 ips.v4 ∧ AllWidth 16 ips.v6

instance (a : Annotation) : Decidable a.Width :=
  inferInstanceAs (Decidable (∀ ips ∈ a.parsed, AllWidth 16 ips.v4 ∧ AllWidth 16 ips.v6))

theorem Annotation.Width.get {a : Annotation} (h : a.Width) {ips : NetIps} (hp : a.parsed = some ips)
    (v : Bool) : AllWidth 16 (ips.get v) := by
  have hw := h ips hp
  cases v with
  | true => exact hw.1
  | false => exact hw.2

/-- Address number `x` was given to the node: it is in its entry or in a text that its object
has carried. -/
def World.Given (w : World) (v : Bool) (n : String) (x : Nat) : Prop :=
  (∃ m, w.state.nodePodNetCache n = some m ∧ HasIp m.podNetIps v x) ∨
    ∃ a ∈ w.written n, a.Lists v x

structure World.Inv (w : World) : Prop where
  ok : StateOk w.state
  width : ∀ n, ∀ a ∈ w.written n, a.Width
  exclusive : ∀ v, Exclusive (NetPools.Has w.state.podNetworkIps v) (w.Given v)

theorem World.inv_takes {s' : State} (h : w.Inv) (hs : StateOk s') (ht : Takes n w.state s') :
    { w with state := s' }.Inv where
  ok := hs
  width := h.width
  exclusive v := by
    refine (h.exclusive v).take n (ht.shrinks v) ?_
    rintro k x (⟨m, hm, hx⟩ | hx)
    · by_cases hk : k = n
      · subst hk
        exact (ht.gains m hm v x hx).imp .inl fun hg => ⟨rfl, hg⟩
      · exact .inl (.inl ⟨m, (ht.others k hk).symm.trans hm, hx⟩)
    · exact .inl (.inr hx)

theorem World.mem_written_record {k : String} {b : Annotation} (hb : b ∈ (w.record n a).written k) :
    b ∈ w.written k ∨ k = n ∧ a = some b := by
  simp only [World.record] at hb
  split at hb
  · next hk =>
    cases mem_append.mp hb with
    | inl hb => exact .inr ⟨hk, by simpa using hb⟩
    | inr hb => exact .inl hb
  · exact .inl hb

/-- Writing down addresses that the node was given before changes nothing. -/
theorem World.inv_record (h : w.Inv) (hw : ∀ b ∈ a, b.Width) (ha : ∀ b ∈ a, ∀ v x, b.Lists v x → w.Given v n x) :
    (w.record n a).Inv where
  ok := h.ok
  width k b hb := by
    cases mem_written_record hb with
    | inl hb => exact h.width k b hb
    | inr hb => exact hw b hb.2
  exclusive v := by
    refine (h.exclusive v).take n (fun x hx => hx) ?_
    rintro k x (hx | ⟨b, hb, hx⟩)
    · exact .inl (.inl hx)
    · cases mem_written_record hb with
      | inl hb => exact .inl (.inr ⟨b, hb, hx⟩)
      | inr hb => exact .inl (hb.1 ▸ ha b hb.2 v x hx)

theorem World.inv_changed (cfg : Config) (node : Node) (h : w.Inv) : (w.changed cfg node).Inv := by
  obtain ⟨hok, ht, hwrite⟩ := nodeChanged_spec cfg node h.ok
  have hinv := World.inv_takes h hok ht
  refine World.inv_record hinv ?_ ?_
  · intro b hb
    obtain ⟨m, hm, rfl⟩ := hwrite b hb
    have hm' := hok.metas _ m hm
    intro ips hips
    cases hm'.annotated with
    | inl he => simp [he, Annotation.parsed] at hips
    | inr he =>
      have hi : m.podNetIps = ips := by simpa [he, Annotation.parsed] using hips
      exact hi ▸ ⟨(hm'.sorted true).width, (hm'.sorted false).width⟩
  · rintro b hb v x ⟨ips, hips, hx⟩
    obtain ⟨m, hm, rfl⟩ := hwrite b hb
    cases (hok.metas _ m hm).annotated with
    | inl he => simp [he, Annotation.parsed] at hips
    | inr he =>
      have hi : m.podNetIps = ips := by simpa [he, Annotation.parsed] using hips
      exact .inl ⟨m, hm, hi ▸ hx⟩

def Node.Lists (node : Node) (v : Bool) (x : Nat) : Prop := ∃ a ∈ node.podNetwork, a.Lists v x

section Sync

variable {node : Node} {a : Annotation} {ips : NetIps}

theorem merge_pool (h : ∀ v, Canonical 16 (s.podNetworkIps.get v)) (hw : a.Width) (hp : a.parsed = some ips)
    (v : Bool) :
    Canonical 16 ((mergePodNet s newNodePodNetMeta a).2.podNetworkIps.get v) ∧
      ∀ x, NetPools.Has (mergePodNet s newNodePodNetMeta a).2.podNetworkIps v x ↔
        NetPools.Has s.podNetworkIps v x ∧ ¬ HasIp ips v x := by
  have he : (mergePodNet s newNodePodNetMeta a).2.podNetworkIps.get v =
      (s.podNetworkIps.get v).removeRanges (ips.get v) := by
    cases v <;> simp [mergePodNet, hp, ByFamily.get]
  refine ⟨?_, fun x => ?_⟩
  · rw [he]
    exact canonical_removeRanges _ _ (h v) (hw.get hp v)
  · rw [NetPools.Has, he]
    exact covers_removeRanges _ _ (h v) (hw.get hp v) x

theorem merge_meta (h : StateOk s) (hw : a.Width) (hp : a.parsed = some ips) :
    MetaOk s.configuredPodNetworkIps (mergePodNet s newNodePodNetMeta a).1 ∧
      ∀ v x, HasIp (mergePodNet s newNodePodNetMeta a).1.podNetIps v x → HasIp ips v x := by
  have he : ∀ v, (mergePodNet s newNodePodNetMeta a).1.podNetIps.get v =
      mergeRanges (s.configuredPodNetworkIps.get v) [] (ips.get v) := by
    intro v
    cases v <;>
      simp [mergePodNet, hp, ByFamily.get, recomputePodNetAnnotation, newNodePodNetMeta]
  have hsound := fun v => intersect_sound
    (sorted_addRanges new _ (canonical_new 16).sorted (hw.get hp v)).width (h.width v)
  refine ⟨⟨?_, ?_, .inr ?_⟩, ?_⟩
  · intro v
    rw [he]
    exact (hsound v).1
  · intro v x hx
    rw [HasIp, he] at hx
    exact ((hsound v).2 x hx).2
  · simp [mergePodNet, hp, recomputePodNetAnnotation]
  · intro v x hx
    rw [HasIp, he] at hx
    have hadd := (covers_addRanges new _ (canonical_new 16).sorted (hw.get hp v) x).mp
      ((hsound v).2 x hx).1
    exact hadd.resolve_left (holds_new x)

/-- Syncing a node removes what it lists from the pool; the entry has nothing else. -/
structure Synced (node : Node) (s s' : State) : Prop where
  ok : StateOk s'
  pool : ∀ v x, NetPools.Has s'.podNetworkIps v x → NetPools.Has s.podNetworkIps v x ∧ ¬ node.Lists v x
  others : ∀ k, k ≠ node.name → s'.nodePodNetCache k = s.nodePodNetCache k
  entry : ∀ m', s'.nodePodNetCache node.name = some m' → ∀ v x, HasIp m'.podNetIps v x →
    (∃ m, s.nodePodNetCache node.name = some m ∧ HasIp m.podNetIps v x) ∨ node.Lists v x

theorem syncPodNet_spec (node : Node) (h : StateOk s) (hw : ∀ a ∈ node.podNetwork, a.Width) :
    Synced node s (syncPodNet s node) := by
  cases hn : node.podNetwork with
  | none =>
    have he : syncPodNet s node = s := by simp [syncPodNet, hn]
    have hno : ∀ v x, ¬ node.Lists v x := by simp [Node.Lists, hn]
    rw [he]
    exact ⟨h, fun v x hx => ⟨hx, hno v x⟩, fun _ _ => rfl, fun m hm v x hx => .inl ⟨m, hm, hx⟩⟩
  | some a =>
    have hlists : ∀ v x, node.Lists v x ↔ a.Lists v x := by simp [Node.Lists, hn]
    have haw := hw a hn
    cases hp : a.parsed with
    | none =>
      have he : syncPodNet s node =
          { s with nodePodNetCache := s.nodePodNetCache.put node.name newNodePodNetMeta } := by
        simp [syncPodNet, hn, mergePodNet, hp]
      have hno : ∀ v x, ¬ node.Lists v x := by simp [hlists, Annotation.Lists, hp]
      rw [he]
      refine ⟨stateOk_put h (metaOk_new _), fun v x hx => ⟨hx, hno v x⟩, ?_, ?_⟩
      · exact fun k hk => put_other _ _ hk
      · intro m' hm' v x hx
        have hnew : newNodePodNetMeta = m' := by simpa using hm'
        subst hnew
        exact absurd hx (hasIp_empty v x)
    | some ips =>
      have hl : ∀ v x, node.Lists v x ↔ HasIp ips v x := by simp [hlists, Annotation.Lists, hp]
      have hpool := merge_pool h.canonical haw hp
      obtain ⟨hmeta, hheld⟩ := merge_meta h haw hp
      have hconf : (mergePodNet s newNodePodNetMeta a).2.configuredPodNetworkIps =
          s.configuredPodNetworkIps := by simp [mergePodNet, hp]
      have hcache : (mergePodNet s newNodePodNetMeta a).2.nodePodNetCache = s.nodePodNetCache := by
        simp [mergePodNet, hp]
      have he : syncPodNet s node = { (mergePodNet s newNodePodNetMeta a).2 with
          nodePodNetCache := (mergePodNet s newNodePodNetMeta a).2.nodePodNetCache.put node.name
            (mergePodNet s newNodePodNetMeta a).1 } := by
        simp [syncPodNet, hn]
      rw [he]
      generalize mergePodNet s newNodePodNetMeta a = merged at hpool hmeta hheld hconf hcache ⊢
      have hok : StateOk merged.2 := by
        refine ⟨hconf ▸ h.width, hconf ▸ h.families, fun v => (hpool v).1, ?_, ?_⟩
        · intro v x hx
          rw [hconf]
          exact h.inside v x (((hpool v).2 x).mp hx).1
        · rw [hconf, hcache]
          exact h.metas
      refine ⟨stateOk_put hok (hconf ▸ hmeta), ?_, ?_, ?_⟩
      · intro v x hx
        rw [hl]
        exact ((hpool v).2 x).mp hx
      · intro k hk
        simp [put_other _ _ hk, hcache]
      · intro m' hm' v x hx
        have hnew : merged.1 = m' := by simpa using hm'
        rw [hl]
        exact .inr (hheld v x (hnew ▸ hx))

theorem World.given_sync (h : Synced node w.state (syncPodNet w.state node)) {v : Bool} {k : String}
    {x : Nat} (hx : (w.sync node).Given v k x) : w.Given v k x ∨ k = node.name ∧ node.Lists v x := by
  rcases hx with ⟨m, hm, hx⟩ | ⟨b, hb, hx⟩
  · by_cases hk : k = node.name
    · subst hk
      exact (h.entry m hm v x hx).imp .inl fun hl => ⟨rfl, hl⟩
    · exact .inl (.inl ⟨m, (h.others k hk).symm.trans hm, hx⟩)
  · cases World.mem_written_record hb with
    | inl hb => exact .inl (.inr ⟨b, hb, hx⟩)
    | inr hb => exact .inr ⟨hb.1, b, hb.2, hx⟩

/-- A node may bring addresses that no other node was given. -/
theorem World.inv_sync (h : w.Inv) (hw : ∀ a ∈ node.podNetwork, a.Width)
    (hnew : ∀ v x, node.Lists v x → ∀ k, k ≠ node.name → ¬ w.Given v k x) : (w.sync node).Inv := by
  have hs := syncPodNet_spec node h.ok hw
  refine ⟨hs.ok, ?_, ?_⟩
  · intro k b hb
    cases World.mem_written_record hb with
    | inl hb => exact h.width k b hb
    | inr hb => exact hw b hb.2
  · intro v
    refine (h.exclusive v).give node.name (fun x hx => (hs.pool v x hx).1) ?_
    intro k x hx
    refine (World.given_sync hs hx).imp id fun hl => ⟨hl.1, ?_, hnew v x hl.2⟩
    exact fun hp => (hs.pool v x hp).2 hl.2

end Sync

variable {cfg : Config}

/-- The list that is loaded for each family settles in the empty pool, and no address is
configured for both families. -/
def ConfigOk (cfg : Config) : Prop :=
  (∀ v, AddsSettle new ((configuredPools cfg).get v).freeList) ∧
    ∀ ip : IP, ip.length = 16 →
      ((configuredPools cfg).get true).Free ip → ¬ ((configuredPools cfg).get false).Free ip

theorem sorted_configuredPools (hw : AllWidth 16 cfg.podIpPool) (v : Bool) :
    Sorted 16 ((configuredPools cfg).get v) := by
  refine sorted_loadIpRanges _ _ ?_ hw v
  intro u
  rw [get_newNetIps]
  exact (canonical_new 16).sorted

theorem initIpam_pool (cfg : Config) (v : Bool) :
    (initIpam cfg).podNetworkIps.get v = new.addRanges ((configuredPools cfg).get v).freeList := by
  cases v <;> rfl

theorem canonical_initIpam (hw : AllWidth 16 cfg.podIpPool)
    (hs : ∀ v, AddsSettle new ((configuredPools cfg).get v).freeList) (v : Bool) :
    Canonical 16 ((initIpam cfg).podNetworkIps.get v) := by
  rw [initIpam_pool]
  exact canonical_addRanges new _ (canonical_new 16) (sorted_configuredPools hw v).width (hs v)

theorem stateOk_initIpam (hw : AllWidth 16 cfg.podIpPool) (hc : ConfigOk cfg) : StateOk (initIpam cfg) := by
  have hsorted := sorted_configuredPools hw
  refine ⟨fun v => (hsorted v).width, ?_, ?_, ?_, ?_⟩
  · intro x h₄ h₆
    have hlt : x < 256 ^ 16 := covers_lt (hsorted true).width h₄
    have hlen := length_ofNat 16 x
    have hval := value_ofNat 16 x hlt
    refine hc.2 (ofNat 16 x) hlen ?_ ?_
    · rw [free_iff (hsorted true).width hlen, hval]
      exact h₄
    · rw [free_iff (hsorted false).width hlen, hval]
      exact h₆
  · exact canonical_initIpam hw hc.1
  · intro v x hx
    rw [NetPools.Has, initIpam_pool] at hx
    exact ((covers_addRanges new _ (canonical_new 16).sorted (hsorted v).width x).mp hx).resolve_left
      (holds_new x)
  · intro n m hm
    simp [initIpam] at hm

/-- Any number of nodes that list disjoint addresses can be synced. -/
theorem World.inv_syncs (w : World) (nodes : List Node) (h : w.Inv)
    (hw : ∀ node ∈ nodes, ∀ a ∈ node.podNetwork, a.Width)
    (hd : nodes.Pairwise fun a b => ∀ v x, a.Lists v x → ¬ b.Lists v x)
    (hnew : ∀ node ∈ nodes, ∀ v x, node.Lists v x → ∀ k, ¬ w.Given v k x) : (nodes.foldl World.sync w).Inv := by
  induction nodes generalizing w with
  | nil => exact h
  | cons node rest ih =>
    obtain ⟨hfirst, hrest⟩ := pairwise_cons.mp hd
    have hwn := hw node mem_cons_self
    have hsync := World.inv_sync h hwn (fun v x hx k _ => hnew node mem_cons_self v x hx k)
    refine ih _ hsync (fun q hq => hw q (mem_cons_of_mem _ hq)) hrest ?_
    intro q hq v x hx k hg
    cases World.given_sync (syncPodNet_spec node h.ok hwn) hg with
    | inl hg => exact hnew q (mem_cons_of_mem _ hq) v x hx k hg
    | inr hl => exact hfirst q hq v x hl.2 hx

theorem World.inv_step (cfg : Config) (w : World) (e : Event) (h : w.Inv) (ha : w.Allowed e) : (w.step cfg e).Inv := by
  cases e with
  | nodeAdded node =>
    refine World.inv_changed cfg node (World.inv_sync h ?_ ?_)
    · intro a hn
      exact h.width node.name a (ha a hn)
    · rintro v x ⟨a, hn, hx⟩ k hk hg
      exact hk ((h.exclusive v).unique k node.name x hg (.inr ⟨a, ha a hn, hx⟩))
  | nodeChanged node => exact World.inv_changed cfg node h
  | nodeDeleted node => exact h
  | addPodToNode n key =>
    obtain ⟨hok, ht⟩ := addPodToNode_spec cfg n key h.ok
    exact World.inv_takes h hok ht
  | removePodFromNode n key =>
    obtain ⟨hok, ht⟩ := removePodFromNode_spec cfg n key h.ok
    exact World.inv_takes h hok ht

def World.NodeHas (w : World) (n : String) (ip : IP) : Prop :=
  ∃ m, w.state.nodePodNetCache n = some m ∧ ∃ v, ∃ r ∈ m.podNetIps.get v, r.Contains ip

def World.PoolHas (w : World) (ip : IP) : Prop := ∃ v, (w.state.podNetworkIps.get v).Free ip

/-- No address belongs to two nodes, or to a node and the pool. -/
def World.Disjoint (w : World) : Prop :=
  ∀ ip : IP, ip.length = 16 →
    (∀ n k, w.NodeHas n ip → w.NodeHas k ip → n = k) ∧ ∀ n, w.NodeHas n ip → ¬ w.PoolHas ip

/-- Address `ip` is in the annotation of the node. -/
def Node.Annotates (node : Node) (v : Bool) (ip : IP) : Prop :=
  ∃ a ∈ node.podNetwork, ∃ ips ∈ a.parsed, ∃ r ∈ ByFamily.get ips v, r.Contains ip

theorem World.Inv.disjoint {w : World} (h : w.Inv) : w.Disjoint := by
  intro ip hip
  have hnode : ∀ n, w.NodeHas n ip → ∃ v, w.Given v n (value ip) ∧
      NetPools.Has w.state.configuredPodNetworkIps v (value ip) := by
    rintro n ⟨m, hm, v, hr⟩
    have hok := h.ok.metas n m hm
    have hx : HasIp m.podNetIps v (value ip) := (@free_iff 16 ⟨_⟩ ip (hok.sorted v).width hip).mp hr
    exact ⟨v, .inl ⟨m, hm, hx⟩, hok.inside v _ hx⟩
  have hsame : ∀ v u, NetPools.Has w.state.configuredPodNetworkIps v (value ip) →
      NetPools.Has w.state.configuredPodNetworkIps u (value ip) → v = u := by
    intro v u hv hu
    cases v <;> cases u
    · rfl
    · exact absurd hv (h.ok.families _ hu)
    · exact absurd hu (h.ok.families _ hv)
    · rfl
  constructor
  · intro n k hn hk
    obtain ⟨v, hgn, hcn⟩ := hnode n hn
    obtain ⟨u, hgk, hck⟩ := hnode k hk
    have hvu := hsame v u hcn hck
    subst hvu
    exact (h.exclusive v).unique n k _ hgn hgk
  · rintro n hn ⟨u, hp⟩
    obtain ⟨v, hgn, hcn⟩ := hnode n hn
    have hpool : NetPools.Has w.state.podNetworkIps u (value ip) :=
      (free_iff (h.ok.canonical u).width hip).mp hp
    have hvu := hsame v u hcn (h.ok.inside u _ hpool)
    subst hvu
    exact (h.exclusive v).apart n _ hgn hpool

theorem World.inv_start {nodes : List Node} (hw : AllWidth 16 cfg.podIpPool) (hc : ConfigOk cfg)
    (ha : ∀ node ∈ nodes, ∀ a ∈ node.podNetwork, a.Width)
    (hd : nodes.Pairwise fun a b => ∀ v (ip : IP), ip.length = 16 →
      a.Annotates v ip → ¬ b.Annotates v ip) : (World.start cfg nodes).Inv := by
  have hinit : World.Inv ⟨initIpam cfg, fun _ => []⟩ := by
    refine ⟨stateOk_initIpam hw hc, by simp, fun v => ⟨?_, ?_⟩⟩
    · intro n x hx
      simp [World.Given, initIpam] at hx
    · intro n m x hx
      simp [World.Given, initIpam] at hx
  have hlists : ∀ node ∈ nodes, ∀ v x, node.Lists v x →
      x < 256 ^ 16 ∧ node.Annotates v (ofNat 16 x) := by
    rintro node hn v x ⟨a, hna, ips, hp, hx⟩
    have hwid := (ha node hn a hna).get hp v
    have hlt := covers_lt hwid hx
    refine ⟨hlt, a, hna, ips, hp, ?_⟩
    rw [← value_ofNat 16 x hlt] at hx
    exact (@free_iff 16 ⟨_⟩ _ hwid (length_ofNat 16 x)).mpr hx
  have hsync : (nodes.foldl World.sync ⟨initIpam cfg, fun _ => []⟩).Inv := by
    refine World.inv_syncs _ nodes hinit ha ?_ ?_
    · refine hd.imp_of_mem ?_
      intro a b hna hnb hab v x hax hbx
      exact hab v _ (length_ofNat 16 x) (hlists a hna v x hax).2 (hlists b hnb v x hbx).2
    · intro node _ v x _ k hg
      simp [World.Given, initIpam] at hg
  obtain ⟨⟨hwid, hfam, hcan, hin, hmeta⟩, hwr, hex⟩ := hsync
  exact ⟨⟨hwid, hfam, hcan, hin, hmeta⟩, hwr, hex⟩

/-- Pod networks are exclusive in every run from disjointly annotated nodes, if the configured
ranges load as a disjoint list. -/
theorem podNet_disjoint (cfg : Config) (nodes : List Node) (events : List Event)
    (hw : AllWidth 16 cfg.podIpPool) (ha : ∀ node ∈ nodes, ∀ a ∈ node.podNetwork, a.Width)
    (hd : nodes.Pairwise fun a b => ∀ v (ip : IP), ip.length = 16 → a.Annotates v ip → ¬ b.Annotates v ip)
    (he : Along (World.step cfg) World.Allowed (World.start cfg nodes) events) (hc : ConfigOk cfg) (k : Nat) :
    (run (World.step cfg) (World.start cfg nodes) (events.take k)).Disjoint :=
  (invariant_take (World.inv_step cfg) _ events (World.inv_start hw hc ha hd) he k).disjoint

/-- Two nodes, one of them annotated, deleted and added again. -/
theorem podNet_disjoint_two_nodes :
    (run (World.step ⟨[lan 1 4, lan 8 9], 2, false⟩)
      (World.start ⟨[lan 1 4, lan 8 9], 2, false⟩ [⟨"a", some (.netIps ⟨[lan 2 3], []⟩)⟩, ⟨"b", none⟩])
      ([.nodeChanged ⟨"b", none⟩, .nodeDeleted ⟨"a", none⟩,
        .nodeAdded ⟨"a", some (.netIps ⟨[lan 2 3], []⟩)⟩,
        .addPodToNode "a" "default/p", .addPodToNode "a" "default/q"].take 5)).Disjoint := by
  refine podNet_disjoint _ _ _ (by decide) (by decide) ?_ (by decide) ⟨by decide, ?_⟩ 5
  · simp [Node.Annotates]
  · have hnil : ((configuredPools ⟨[lan 1 4, lan 8 9], 2, false⟩).get false).freeList = [] := by decide
    simp [IpAlloc.Free, hnil]

/-- With `10.0.0.5-10.0.0.9` and `10.0.0.5-10.0.0.6` configured the pool has both ranges, in the
wrong order; the search of `removeRange` then misses what a chunk takes, and two nodes get
`10.0.0.7-10.0.0.8`. -/
theorem podNet_disjoint_fails : ¬ ∀ (cfg : Config) (nodes : List Node) (events : List Event),
    AllWidth 16 cfg.podIpPool →
      (∀ node ∈ nodes, ∀ a ∈ node.podNetwork, a.Width) →
      (∀ node ∈ nodes, ∀ v (ip : IP), node.Annotates v ip → ((configuredPools cfg).get v).Free ip) →
      (nodes.Pairwise fun a b => ∀ v (ip : IP), ip.length = 16 → a.Annotates v ip → ¬ b.Annotates v ip) →
      Along (World.step cfg) World.Allowed (World.start cfg nodes) events →
      ∀ k, (run (World.step cfg) (World.start cfg nodes) (events.take k)).Disjoint := by
  intro h
  have hd := h ⟨[lan 1 2, lan 5 9, lan 5 6], 2, false⟩ []
    [.nodeChanged ⟨"a", none⟩, .nodeChanged ⟨"b", none⟩, .nodeChanged ⟨"c", none⟩,
      .nodeChanged ⟨"d", none⟩] (by decide) (by simp) (by simp) List.Pairwise.nil (by decide) 4
  have hcd := (hd (mapped 10 0 0 7) (by decide)).1 "c" "d"
    ⟨⟨[], ⟨[lan 7 8], []⟩, .netIps ⟨[lan 7 8], []⟩⟩, by decide, true, by decide⟩
    ⟨⟨[], ⟨[lan 7 8], []⟩, .netIps ⟨[lan 7 8], []⟩⟩, by decide, true, by decide⟩
  simp at hcd

end AciContainers.Nodes
