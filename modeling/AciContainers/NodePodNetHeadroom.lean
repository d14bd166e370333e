import AciContainers.IpAllocChunk
import AciContainers.NodePodNetSafety

/-!
# Headroom of pod networks

A node that has half a chunk left or less is given one more chunk, at most one for each
call, which adds at most one pod; so a node never has more than half a chunk and one chunk beyond
the most pods it has had. Both counts need the chunks of a node to be disjoint, which a pool with
overlapping ranges does not give.
-/
namespace AciContainers.Nodes

open Bytes Net Intervals Ipam Maps Runs List

variable {s : State} {m : NodePodNetMeta} {v : Bool}

/-- The test of `allocateIpChunk`. -/
def needsChunk (cfg : Config) (podnet : NodePodNetMeta) (v : Bool) : Prop :=
  (podnet.nodePods.length : Int) >
    (newFromRanges (podnet.podNetIps.get v)).getSize - cfg.podIpPoolChunkSize.tdiv 2

instance (cfg : Config) (podnet : NodePodNetMeta) (v : Bool) : Decidable (needsChunk cfg podnet v) :=
  inferInstanceAs (Decidable (_ > _))

def chunkFails (cfg : Config) (s : State) (podnet : NodePodNetMeta) (v : Bool) : Bool :=
  !(s.configuredPodNetworkIps.get v).empty && decide (needsChunk cfg podnet v) &&
    ((s.podNetworkIps.get v).getIpChunk cfg.podIpPoolChunkSize).1.isNone

def checkFails (cfg : Config) (s : State) (nodename : String) : Bool :=
  match s.nodePodNetCache nodename with
  | none => false
  | some podnet =>
    let first := checkFamily cfg true (podnet, s, false)
    chunkFails cfg s podnet true || chunkFails cfg first.2.1 first.1 false

/-- Some call of `getIpChunk` fails while the event is handled. -/
def World.chunkFails (cfg : Config) (w : World) : Event → Bool
  | .nodeAdded node => checkFails cfg (ensureMeta (syncPodNet w.state node) node.name) node.name
  | .nodeChanged node => checkFails cfg (ensureMeta w.state node.name) node.name
  | .nodeDeleted _ => false
  | .addPodToNode nodename key =>
    match (ensureMeta w.state nodename).nodePodNetCache nodename with
    | none => false
    | some existing =>
      key ∉ existing.nodePods && checkFails cfg
        { ensureMeta w.state nodename with
          nodePodNetCache := (ensureMeta w.state nodename).nodePodNetCache.put nodename
            { existing with nodePods := key :: existing.nodePods } } nodename
  | .removePodFromNode nodename key =>
    match w.state.nodePodNetCache nodename with
    | none => false
    | some existing =>
      checkFails cfg
        { w.state with
          nodePodNetCache := w.state.nodePodNetCache.put nodename
            { existing with nodePods := existing.nodePods.filter (· ≠ key) } } nodename

/-- The calls of a run: no node comes, goes or is synced in between. -/
def Event.isCall : Event → Bool
  | .nodeAdded _ => false
  | .nodeDeleted _ => false
  | _ => true

/-- The event checks the node even if it is new. -/
def Event.checks (n : String) : Event → Bool
  | .nodeChanged node => node.name = n
  | .addPodToNode nodename _ => nodename = n
  | _ => false

def State.podCount (s : State) (n : String) : Nat :=
  ((s.nodePodNetCache n).map fun m => m.nodePods.length).getD 0

/-- The most pods the node has had in a run. -/
def mostPods (cfg : Config) (n : String) : World → List Event → Nat
  | w, [] => w.state.podCount n
  | w, e :: events => max (w.state.podCount n) (mostPods cfg n (w.step cfg e) events)

/-- The number of addresses of the ranges of a node. -/
noncomputable def NodePodNetMeta.rangeSize (m : NodePodNetMeta) (v : Bool) : Nat :=
  (IpAlloc.addresses 16 ⟨m.podNetIps.get v⟩).ncard

/-- At least half a chunk is free, and there is less than half a chunk and one chunk beyond
the most pods so far. -/
def Roomy (cfg : Config) (most : Nat) (m : NodePodNetMeta) (v : Bool) : Prop :=
  (m.nodePods.length : Int) + cfg.podIpPoolChunkSize / 2 ≤ m.rangeSize v ∧
    (m.rangeSize v : Int) < most + cfg.podIpPoolChunkSize / 2 + cfg.podIpPoolChunkSize

/-- The pools stay in order and lose addresses only; nothing else changes but entries. -/
structure PoolStep (s s' : State) : Prop where
  sync : s'.nodeSyncEnabled = s.nodeSyncEnabled
  configured : s'.configuredPodNetworkIps = s.configuredPodNetworkIps
  canonical : ∀ v, Canonical 16 (s'.podNetworkIps.get v)
  shrinks : ∀ v x, NetPools.Has s'.podNetworkIps v x → NetPools.Has s.podNetworkIps v x

theorem PoolStep.refl (h : ∀ v, Canonical 16 (s.podNetworkIps.get v)) : PoolStep s s :=
  ⟨rfl, rfl, h, fun _ _ hx => hx⟩

theorem PoolStep.trans {t u : State} (hst : PoolStep s t) (htu : PoolStep t u) : PoolStep s u :=
  ⟨htu.sync.trans hst.sync, htu.configured.trans hst.configured, htu.canonical,
    fun v x hx => hst.shrinks v x (htu.shrinks v x hx)⟩

variable {s' : State}

/-- Entries may be written at any time. -/
theorem PoolStep.entries (h : PoolStep s s') (cache : Map String NodePodNetMeta) :
    PoolStep s { s' with nodePodNetCache := cache } :=
  ⟨h.sync, h.configured, h.canonical, h.shrinks⟩

/-- The ranges of a node are in order and not in the pool. -/
structure Held (s : State) (m : NodePodNetMeta) (v : Bool) : Prop where
  canonical : Canonical 16 ⟨m.podNetIps.get v⟩
  apart : ∀ x, HasIp m.podNetIps v x → ¬ NetPools.Has s.podNetworkIps v x

theorem Held.of_step (h : Held s m v) (hs : PoolStep s s') : Held s' m v :=
  ⟨h.canonical, fun x hx hp => h.apart x hx (hs.shrinks v x hp)⟩

theorem rangeSize_of_held (h : Held s m v) :
    m.rangeSize v = size ((m.podNetIps.get v).map iv) := ncard_addresses h.canonical

def State.setPool (s : State) (v : Bool) (pool : IpAlloc) : State :=
  { s with podNetworkIps := s.podNetworkIps.set v pool }

/-- The entry with a chunk added to its ranges. -/
def NodePodNetMeta.gain (m : NodePodNetMeta) (v : Bool) (rs : List IpRange) : NodePodNetMeta :=
  let podNetIps := m.podNetIps.set v ((newFromRanges (m.podNetIps.get v)).addRanges rs).freeList
  recomputePodNetAnnotation { m with podNetIps := podNetIps }

section Check

variable {podnet : NodePodNetMeta} (cfg : Config)

theorem poolStep_set {v : Bool} {pool : IpAlloc} (hpool : Canonical 16 pool)
    (h : ∀ w, Canonical 16 (s.podNetworkIps.get w))
    (hsub : ∀ x, Covers (pool.freeList.map iv) x → NetPools.Has s.podNetworkIps v x) :
    PoolStep s (s.setPool v pool) where
  sync := rfl
  configured := rfl
  canonical w := by
    rw [State.setPool, get_set]
    split
    · exact hpool
    · exact h w
  shrinks w x hx := by
    simp only [State.setPool, NetPools.Has, get_set] at hx ⊢
    split at hx
    · next hw => exact hw ▸ hsub x hx
    · exact hx

theorem allocateIpChunk_pool (h : ∀ v, Canonical 16 (s.podNetworkIps.get v)) (v : Bool) :
    PoolStep s (allocateIpChunk cfg s podnet v).2.1 ∧
      (allocateIpChunk cfg s podnet v).2.1.nodePodNetCache = s.nodePodNetCache := by
  unfold allocateIpChunk
  dsimp only
  split
  · obtain ⟨hcan, hsplit⟩ := getIpChunk_split (h v) cfg.podIpPoolChunkSize
    split
    · next hnone =>
      rw [hnone] at hsplit
      exact ⟨poolStep_set hcan h fun x hx => (hsplit x).mp hx, rfl⟩
    · next rs hsome =>
      rw [hsome] at hsplit
      exact ⟨poolStep_set hcan h fun x hx => (hsplit.2.2 x).mp (.inl hx), rfl⟩
  · exact ⟨PoolStep.refl h, rfl⟩

/-- What one family of a check does to the entry. -/
structure FamilyStep (s : State) (m : NodePodNetMeta) (v : Bool) (s' : State) (m' : NodePodNetMeta) : Prop where
  pods : m'.nodePods = m.nodePods
  others : ∀ w, w ≠ v → m'.podNetIps.get w = m.podNetIps.get w
  held : ∀ w, Held s' m' w
  count : (s.configuredPodNetworkIps.get v).empty = false →
    (m'.rangeSize v : Int) = m.rangeSize v + if needsChunk cfg m v then cfg.podIpPoolChunkSize else 0

section Gain

variable {rs : List IpRange} {pool : IpAlloc} (hheld : ∀ w, Held s podnet w) (hrcan : Canonical 16 ⟨rs⟩)
  (hdis : ∀ x, Covers (pool.freeList.map iv) x → ¬ Covers (rs.map iv) x)
  (hunion : ∀ x, Covers (pool.freeList.map iv) x ∨ Covers (rs.map iv) x ↔ NetPools.Has s.podNetworkIps v x)
include hheld hrcan hunion

omit hrcan in
/-- A chunk of the pool is new to the node. -/
theorem chunk_new : ∀ x, Covers (rs.map iv) x → ¬ Covers ((podnet.podNetIps.get v).map iv) x :=
  fun x hx hmine => (hheld v).apart x hmine ((hunion x).mp (.inr hx))

theorem canonical_gain : Canonical 16 ⟨(podnet.gain v rs).podNetIps.get v⟩ := by
  have hcan := canonical_addRanges_of_disjoint ⟨podnet.podNetIps.get v⟩ rs (hheld v).canonical hrcan
    (chunk_new hheld hunion)
  simpa [NodePodNetMeta.gain, recomputePodNetAnnotation, newFromRanges] using hcan

omit hunion in
theorem hasIp_gain (x : Nat) :
    HasIp (podnet.gain v rs).podNetIps v x ↔ HasIp podnet.podNetIps v x ∨ Covers (rs.map iv) x := by
  have hcov := covers_addRanges ⟨podnet.podNetIps.get v⟩ rs (hheld v).canonical.sorted hrcan.width x
  simpa [HasIp, NodePodNetMeta.gain, recomputePodNetAnnotation, newFromRanges] using hcov

include hdis in
theorem held_gain (w : Bool) : Held (s.setPool v pool) (podnet.gain v rs) w := by
  by_cases hw : w = v
  · subst hw
    refine ⟨canonical_gain hheld hrcan hunion, fun x hx hp => ?_⟩
    simp only [State.setPool, NetPools.Has, get_set, if_true] at hp
    cases (hasIp_gain hheld hrcan x).mp hx with
    | inl hold => exact (hheld w).apart x hold ((hunion x).mp (.inl hp))
    | inr hchunk => exact hdis x hp hchunk
  · refine ⟨by simpa [NodePodNetMeta.gain, recomputePodNetAnnotation, hw] using (hheld w).canonical, fun x hx hp => ?_⟩
    simp only [HasIp, NodePodNetMeta.gain, recomputePodNetAnnotation, get_set, hw, if_false] at hx
    simp only [State.setPool, NetPools.Has, get_set, hw, if_false] at hp
    exact (hheld w).apart x hx hp

theorem rangeSize_gain : (podnet.gain v rs).rangeSize v = podnet.rangeSize v + size (rs.map iv) := by
  have hcan := canonical_gain hheld hrcan hunion
  rw [rangeSize_of_held (hheld v), NodePodNetMeta.rangeSize, ncard_addresses hcan]
  exact size_union (hheld v).canonical.separated hrcan.separated hcan.separated (hasIp_gain hheld hrcan)
    fun x hx hchunk => chunk_new hheld hunion x hchunk hx

end Gain

theorem allocateIpChunk_count (hsize : 0 ≤ cfg.podIpPoolChunkSize) (h : ∀ v, Canonical 16 (s.podNetworkIps.get v))
    (hheld : ∀ v, Held s podnet v) (v : Bool)
    (hok : needsChunk cfg podnet v → ((s.podNetworkIps.get v).getIpChunk cfg.podIpPoolChunkSize).1 ≠ none) :
    FamilyStep cfg s podnet v (allocateIpChunk cfg s podnet v).2.1 (allocateIpChunk cfg s podnet v).1 := by
  by_cases hneed : needsChunk cfg podnet v
  · obtain ⟨rs, hrs⟩ := Option.ne_none_iff_exists'.mp (hok hneed)
    obtain ⟨-, hsplit⟩ := getIpChunk_split (h v) cfg.podIpPoolChunkSize
    rw [hrs] at hsplit
    obtain ⟨hrcan, hdis, hunion⟩ := hsplit
    have hout : allocateIpChunk cfg s podnet v =
        (podnet.gain v rs, s.setPool v ((s.podNetworkIps.get v).getIpChunk cfg.podIpPoolChunkSize).2, true) := by
      have htest := hneed
      unfold needsChunk at htest
      unfold allocateIpChunk
      dsimp only
      rw [if_pos htest, hrs]
      rfl
    rw [hout]
    refine ⟨rfl, fun w hw => by simp [NodePodNetMeta.gain, recomputePodNetAnnotation, hw],
      held_gain hheld hrcan hdis hunion, fun _ => ?_⟩
    have hchunk := size_chunk (h v) hrs
    rw [max_eq_left hsize] at hchunk
    rw [if_pos hneed, rangeSize_gain hheld hrcan hunion, Nat.cast_add, hchunk]
  · have hout : allocateIpChunk cfg s podnet v = (podnet, s, false) := by
      unfold allocateIpChunk
      exact if_neg hneed
    rw [hout]
    exact ⟨rfl, fun _ _ => rfl, hheld, fun _ => by rw [if_neg hneed, Int.add_zero]⟩

theorem checkFamily_pool (v : Bool) (acc : NodePodNetMeta × State × Bool)
    (h : ∀ v, Canonical 16 (acc.2.1.podNetworkIps.get v)) : PoolStep acc.2.1 (checkFamily cfg v acc).2.1 ∧
      (checkFamily cfg v acc).2.1.nodePodNetCache = acc.2.1.nodePodNetCache := by
  rw [checkFamily]
  split
  · exact ⟨PoolStep.refl h, rfl⟩
  · exact allocateIpChunk_pool cfg h v

theorem checkFamily_count (hsize : 0 ≤ cfg.podIpPoolChunkSize) (v : Bool) (acc : NodePodNetMeta × State × Bool)
    (h : ∀ v, Canonical 16 (acc.2.1.podNetworkIps.get v)) (hheld : ∀ v, Held acc.2.1 acc.1 v)
    (hok : chunkFails cfg acc.2.1 acc.1 v = false) :
    FamilyStep cfg acc.2.1 acc.1 v (checkFamily cfg v acc).2.1 (checkFamily cfg v acc).1 := by
  rw [checkFamily]
  by_cases hempty : (acc.2.1.configuredPodNetworkIps.get v).empty
  · rw [if_pos hempty]
    exact ⟨rfl, fun _ _ => rfl, hheld, fun hno => absurd hempty (by simp [hno])⟩
  · rw [if_neg hempty]
    refine allocateIpChunk_count cfg hsize h hheld v fun hneed hnone => ?_
    simp [chunkFails, hempty, hneed, hnone] at hok

/-- A check of another node leaves the entry of this one. -/
theorem checkNodePodNet_pool (h : ∀ v, Canonical 16 (s.podNetworkIps.get v)) (k : String) :
    PoolStep s (checkNodePodNet cfg s k).1 ∧
      ∀ n, n ≠ k → (checkNodePodNet cfg s k).1.nodePodNetCache n = s.nodePodNetCache n := by
  unfold checkNodePodNet
  split
  · exact ⟨PoolStep.refl h, fun _ _ => rfl⟩
  · next podnet hentry =>
    obtain ⟨h₄, hc₄⟩ := checkFamily_pool cfg true (podnet, s, false) h
    obtain ⟨h₆, hc₆⟩ := checkFamily_pool cfg false _ h₄.canonical
    refine ⟨(h₄.trans h₆).entries _, fun n hn => ?_⟩
    dsimp only
    rw [put_other _ _ hn, hc₆, hc₄]

end Check

variable {most : Nat} {n : String}

theorem checkFamily_pods (cfg : Config) (v : Bool) (acc : NodePodNetMeta × State × Bool) :
    (checkFamily cfg v acc).1.nodePods = acc.1.nodePods := by
  unfold checkFamily allocateIpChunk
  dsimp only
  split
  · rfl
  · split
    · split <;> rfl
    · rfl

/-- An entry that one chunk brings back above its mark. -/
def Served (cfg : Config) (most : Nat) (m : NodePodNetMeta) (v : Bool) : Prop :=
  (m.nodePods.length : Int) + cfg.podIpPoolChunkSize / 2 ≤ m.rangeSize v + cfg.podIpPoolChunkSize ∧
    (m.rangeSize v : Int) < most + cfg.podIpPoolChunkSize / 2 + cfg.podIpPoolChunkSize

/-- A chunk is positive and fits the type of the setting. -/
def ChunkSizeOk (cfg : Config) : Prop := 1 ≤ cfg.podIpPoolChunkSize ∧ cfg.podIpPoolChunkSize < 2 ^ 63

theorem roomy_arith {p s s' c most : Int} (hc : 1 ≤ c) (hbig : c < 2 ^ 63) (hmost : most < 2 ^ 62) (hp : p ≤ most)
    (hroom : p + c / 2 ≤ s + c) (hup : s < most + c / 2 + c)
    (hcount : s' = s + if p > min s (2 ^ 63 - 1) - c / 2 then c else 0) : p + c / 2 ≤ s' ∧ s' < most + c / 2 + c := by
  split at hcount <;> omega

variable {cfg : Config}

theorem needsChunk_iff (hc : ChunkSizeOk cfg) {s : State} {v : Bool} (h : Held s m v) : needsChunk cfg m v ↔
      (m.nodePods.length : Int) > min (m.rangeSize v : Int) (2 ^ 63 - 1) - cfg.podIpPoolChunkSize / 2 := by
  have hc₁ := hc.1
  rw [needsChunk, newFromRanges, getSize_eq h.canonical, rangeSize_of_held h, Int.tdiv_eq_ediv_of_nonneg (by omega)]
  rfl

theorem roomy_of_count (hc : ChunkSizeOk cfg) {s : State} {m' : NodePodNetMeta} {v : Bool}
    (hheld : Held s m v) (hmost : most < 2 ^ 62) (hp : m.nodePods.length ≤ most)
    (hserved : Served cfg most m v) (hpods : m'.nodePods = m.nodePods)
    (hcount : (m'.rangeSize v : Int) = m.rangeSize v + if needsChunk cfg m v then cfg.podIpPoolChunkSize else 0) :
    Roomy cfg most m' v := by
  simp only [needsChunk_iff hc hheld] at hcount
  rw [Roomy, hpods]
  exact roomy_arith hc.1 hc.2 (by exact_mod_cast hmost) (by exact_mod_cast hp) hserved.1 hserved.2 hcount

/-- A check of a node that one chunk can serve. -/
theorem checkNodePodNet_roomy (hc : ChunkSizeOk cfg) {s : State}
    (h : ∀ v, Canonical 16 (s.podNetworkIps.get v)) (hentry : s.nodePodNetCache n = some m)
    (hheld : ∀ v, Held s m v) (hok : checkFails cfg s n = false) (hmost : most < 2 ^ 62) (hp : m.nodePods.length ≤ most)
    (hserved : ∀ v, (s.configuredPodNetworkIps.get v).empty = false → Served cfg most m v) :
    ∃ m', (checkNodePodNet cfg s n).1.nodePodNetCache n = some m' ∧ m'.nodePods = m.nodePods ∧
      (∀ v, Held (checkNodePodNet cfg s n).1 m' v) ∧
      ∀ v, (s.configuredPodNetworkIps.get v).empty = false → Roomy cfg most m' v := by
  have hc₁ := hc.1
  simp only [checkFails, hentry, Bool.or_eq_false_iff] at hok
  have hpool := (checkFamily_pool cfg true (m, s, false) h).1
  have h₄ := checkFamily_count cfg (by omega) true (m, s, false) h hheld hok.1
  have h₆ := checkFamily_count cfg (by omega) false (checkFamily cfg true (m, s, false)) hpool.canonical h₄.held hok.2
  simp only [checkNodePodNet, hentry, put_same]
  generalize checkFamily cfg true (m, s, false) = first at hpool h₄ h₆
  generalize checkFamily cfg false first = second at h₆
  have hpods := h₆.pods.trans h₄.pods
  refine ⟨second.1, rfl, hpods, fun v => ⟨(h₆.held v).canonical, (h₆.held v).apart⟩, fun v hv => ?_⟩
  cases v with
  | true =>
    refine roomy_of_count hc (hheld true) hmost hp (hserved true hv) hpods ?_
    rw [NodePodNetMeta.rangeSize, h₆.others true (by decide)]
    exact h₄.count hv
  | false =>
    -- the first family has not touched the second
    have hsame : first.1.podNetIps.get false = m.podNetIps.get false := h₄.others false (by decide)
    have hcount := h₆.count (by rw [hpool.configured]; exact hv)
    have hneed : needsChunk cfg first.1 false ↔ needsChunk cfg m false := by
      rw [needsChunk, needsChunk, hsame, h₄.pods]
    simp only [hneed] at hcount
    refine roomy_of_count hc (hheld false) hmost hp (hserved false hv) hpods ?_
    rw [hcount, NodePodNetMeta.rangeSize, hsame]
    rfl

structure Sized (cfg : Config) (n : String) (most : Nat) (s : State) : Prop where
  sync : s.nodeSyncEnabled = true
  configured : s.configuredPodNetworkIps = configuredPools cfg
  canonical : ∀ v, Canonical 16 (s.podNetworkIps.get v)
  held : ∀ m, s.nodePodNetCache n = some m → ∀ v, Held s m v
  pods : ∀ m, s.nodePodNetCache n = some m → m.nodePods.length ≤ most
  roomy : ∀ m, s.nodePodNetCache n = some m → ∀ v, ((configuredPools cfg).get v).empty = false → Roomy cfg most m v

/-- A call for another node. -/
theorem Sized.other {s : State} (h : Sized cfg n most s) (hs : PoolStep s s')
    (hcache : s'.nodePodNetCache n = s.nodePodNetCache n) : Sized cfg n most s' where
  sync := hs.sync.trans h.sync
  configured := hs.configured.trans h.configured
  canonical := hs.canonical
  held m hm v := (h.held m (hcache ▸ hm) v).of_step hs
  pods m hm := h.pods m (hcache ▸ hm)
  roomy m hm := h.roomy m (hcache ▸ hm)

section Call

variable {s₁ : State}

/-- A call that checks this node. -/
theorem Sized.check (h : Sized cfg n most s) (hc : ChunkSizeOk cfg) (hs : PoolStep s s₁)
    (hentry : s₁.nodePodNetCache n = some m) (hheld : ∀ v, Held s₁ m v)
    (hok : checkFails cfg s₁ n = false) (hmost : most < 2 ^ 62) (hp : m.nodePods.length ≤ most)
    (hserved : ∀ v, ((configuredPools cfg).get v).empty = false → Served cfg most m v) :
    Sized cfg n most (checkNodePodNet cfg s₁ n).1 := by
  have hconf : s₁.configuredPodNetworkIps = configuredPools cfg := hs.configured.trans h.configured
  obtain ⟨m', hm', hpods, hheld', hroomy⟩ := checkNodePodNet_roomy hc hs.canonical hentry hheld hok hmost hp
    (by rw [hconf]; exact hserved)
  have hpool := hs.trans (checkNodePodNet_pool cfg hs.canonical n).1
  refine ⟨hpool.sync.trans h.sync, hpool.configured.trans h.configured, hpool.canonical, ?_, ?_, ?_⟩
  · intro q hq
    rw [hm', Option.some.injEq] at hq
    exact hq ▸ hheld'
  · intro q hq
    rw [hm', Option.some.injEq] at hq
    rw [← hq, hpods]
    exact hp
  · intro q hq v hv
    rw [hm', Option.some.injEq] at hq
    rw [← hq]
    exact hroomy v (by rw [hconf]; exact hv)

theorem ensureMeta_pool (h : ∀ v, Canonical 16 (s.podNetworkIps.get v)) (k : String) :
    PoolStep s (ensureMeta s k) ∧ ∀ n, n ≠ k → (ensureMeta s k).nodePodNetCache n = s.nodePodNetCache n := by
  unfold ensureMeta
  split
  · exact ⟨PoolStep.refl h, fun _ _ => rfl⟩
  · exact ⟨(PoolStep.refl h).entries _, fun n hn => put_other _ _ hn⟩

/-- After `ensureMeta` there is an entry, and it could take one more pod. -/
theorem Sized.ensured (h : Sized cfg n most s) (hc : ChunkSizeOk cfg) :
    ∃ m, (ensureMeta s n).nodePodNetCache n = some m ∧ (∀ v, Held (ensureMeta s n) m v) ∧ m.nodePods.length ≤ most ∧
      ∀ v, ((configuredPools cfg).get v).empty = false →
        (m.nodePods.length : Int) + 1 + cfg.podIpPoolChunkSize / 2 ≤ m.rangeSize v + cfg.podIpPoolChunkSize ∧
          (m.rangeSize v : Int) < most + cfg.podIpPoolChunkSize / 2 + cfg.podIpPoolChunkSize := by
  have hc₁ := hc.1
  unfold ensureMeta
  split
  · next m hm =>
    refine ⟨m, hm, h.held m hm, h.pods m hm, fun v hv => ?_⟩
    obtain ⟨hlo, hhi⟩ := h.roomy m hm v hv
    exact ⟨by omega, hhi⟩
  · have hnew : ∀ v, Held s newNodePodNetMeta v := by
      intro v
      refine ⟨?_, fun x hx => absurd hx (hasIp_empty v x)⟩
      cases v <;> exact canonical_new 16
    have hzero : ∀ v, newNodePodNetMeta.rangeSize v = 0 := by
      intro v
      rw [rangeSize_of_held (hnew v)]
      cases v <;> rfl
    refine ⟨newNodePodNetMeta, put_same _ _ _, fun v => ⟨(hnew v).canonical, (hnew v).apart⟩, Nat.zero_le _,
      fun v _ => ?_⟩
    rw [hzero]
    simp only [newNodePodNetMeta, length_nil, Nat.cast_zero]
    omega

theorem podCount_of_entry (h : s.nodePodNetCache n = some m) : s.podCount n = m.nodePods.length := by
  simp [State.podCount, h]

theorem podCount_check (cfg : Config) (s : State) (n : String) :
    (checkNodePodNet cfg s n).1.podCount n = s.podCount n := by
  unfold checkNodePodNet State.podCount
  split
  · rfl
  · next podnet hentry =>
    simp only [put_same, hentry, Option.map_some, Option.getD_some]
    rw [checkFamily_pods, checkFamily_pods]

theorem Sized.nodeChanged (h : Sized cfg n most s) (hc : ChunkSizeOk cfg) (hmode : cfg.chainedMode = false)
    (node : Node)
    (hok : checkFails cfg (ensureMeta s node.name) node.name = false) (hmost : most < 2 ^ 62) :
    Sized cfg n most (Nodes.nodeChanged cfg s node).1 := by
  have hout : (Nodes.nodeChanged cfg s node).1 = (checkNodePodNet cfg (ensureMeta s node.name) node.name).1 := by
    unfold Nodes.nodeChanged
    simp only [hmode, h.sync, Bool.false_eq_true, if_false, if_true]
    split
    · rfl
    · split <;> rfl
  obtain ⟨hpool, hkeep⟩ := ensureMeta_pool h.canonical node.name
  rw [hout]
  by_cases hn : n = node.name
  · subst hn
    obtain ⟨m, hm, hheld, hp, hserved⟩ := h.ensured hc
    refine h.check hc hpool hm hheld hok hmost hp fun v hv => ?_
    obtain ⟨hlo, hhi⟩ := hserved v hv
    exact ⟨by omega, hhi⟩
  · obtain ⟨hcheck, hkeep'⟩ := checkNodePodNet_pool cfg hpool.canonical node.name
    exact h.other (hpool.trans hcheck) ((hkeep' n hn).trans (hkeep n hn))

/-- The entry of this node with other pods, once it is written. -/
theorem Held.withPods (h : ∀ v, Held s m v) (pods : List String) (k : String) (v : Bool) :
    Held { s with nodePodNetCache := s.nodePodNetCache.put k { m with nodePods := pods } }
      { m with nodePods := pods } v :=
  ⟨(h v).canonical, (h v).apart⟩

theorem Sized.addPodToNode (h : Sized cfg n most s) (hc : ChunkSizeOk cfg) (k key : String)
    (hok : World.chunkFails cfg ⟨s, fun _ => []⟩ (.addPodToNode k key) = false)
    (hp : (Nodes.addPodToNode cfg s k key).1.podCount n ≤ most) (hmost : most < 2 ^ 62) :
    Sized cfg n most (Nodes.addPodToNode cfg s k key).1 := by
  obtain ⟨hpool, hkeep⟩ := ensureMeta_pool h.canonical k
  simp only [World.chunkFails] at hok
  simp only [Nodes.addPodToNode] at hp ⊢
  by_cases hn : n = k
  · subst hn
    obtain ⟨m, hm, hheld, hpods, hserved⟩ := h.ensured hc
    rw [hm] at hok hp ⊢
    dsimp only at hok hp ⊢
    by_cases hmem : key ∈ m.nodePods
    · -- the pod is known, so the entry was there and nothing changes
      rw [if_pos hmem]
      have hsame : ensureMeta s n = s := by
        unfold ensureMeta at hm ⊢
        split
        · rfl
        · next hnone =>
          rw [hnone] at hm
          simp only [put_same, Option.some.injEq] at hm
          rw [← hm] at hmem
          exact absurd hmem not_mem_nil
      rw [hsame]
      exact h
    · simp only [hmem, not_false_eq_true, decide_true, Bool.true_and] at hok
      rw [if_neg hmem, podCount_check, podCount_of_entry (put_same _ _ _)] at hp
      rw [if_neg hmem]
      refine h.check hc (hpool.entries _) (put_same _ _ _) (Held.withPods hheld _ _) hok hmost hp fun v hv => ?_
      obtain ⟨hlo, hhi⟩ := hserved v hv
      refine ⟨?_, hhi⟩
      exact hlo
  · cases hm : (ensureMeta s k).nodePodNetCache k with
    | none => exact h.other hpool (hkeep n hn)
    | some m =>
      dsimp only
      split
      · exact h.other hpool (hkeep n hn)
      · obtain ⟨hcheck, hkeep'⟩ := checkNodePodNet_pool cfg
          (s := { ensureMeta s k with
            nodePodNetCache := (ensureMeta s k).nodePodNetCache.put k { m with nodePods := key :: m.nodePods } })
          hpool.canonical k
        exact h.other ((hpool.entries _).trans hcheck) ((hkeep' n hn).trans ((put_other _ _ hn).trans (hkeep n hn)))

theorem Sized.removePodFromNode (h : Sized cfg n most s) (hc : ChunkSizeOk cfg) (k key : String)
    (hok : World.chunkFails cfg ⟨s, fun _ => []⟩ (.removePodFromNode k key) = false) (hmost : most < 2 ^ 62) :
    Sized cfg n most (Nodes.removePodFromNode cfg s k key).1 := by
  have hpool := PoolStep.refl h.canonical
  simp only [World.chunkFails] at hok
  simp only [Nodes.removePodFromNode]
  cases hm : s.nodePodNetCache k with
  | none => exact h
  | some m =>
    rw [hm] at hok
    by_cases hn : n = k
    · subst hn
      have hfewer : (m.nodePods.filter (· ≠ key)).length ≤ m.nodePods.length := length_filter_le _ _
      have hpods := h.pods m hm
      refine h.check hc (hpool.entries _) (put_same _ _ _) (Held.withPods (h.held m hm) _ _) hok hmost
        (le_trans hfewer hpods) fun v hv => ?_
      obtain ⟨hlo, hhi⟩ := h.roomy m hm v hv
      have hc₁ := hc.1
      refine ⟨?_, hhi⟩
      change (((m.nodePods.filter (· ≠ key)).length : Nat) : Int) + _ ≤ (m.rangeSize v : Int) + _
      omega
    · obtain ⟨hcheck, hkeep⟩ := checkNodePodNet_pool cfg
        (s := { s with nodePodNetCache := s.nodePodNetCache.put k { m with nodePods := m.nodePods.filter (· ≠ key) } })
        h.canonical k
      exact h.other ((hpool.entries _).trans hcheck) ((hkeep n hn).trans (put_other _ _ hn))

end Call

section Entry

theorem isSome_check (h : ∀ v, Canonical 16 (s.podNetworkIps.get v)) (k : String)
    (hsome : (s.nodePodNetCache n).isSome) : ((checkNodePodNet cfg s k).1.nodePodNetCache n).isSome := by
  by_cases hn : n = k
  · subst hn
    obtain ⟨m, hm⟩ := Option.isSome_iff_exists.mp hsome
    simp [checkNodePodNet, hm]
  · rw [(checkNodePodNet_pool cfg h k).2 n hn]
    exact hsome

theorem isSome_put {m : NodePodNetMeta} (k : String) (hsome : (s.nodePodNetCache n).isSome) :
    ((s.nodePodNetCache.put k m) n).isSome := by
  by_cases hn : n = k
  · rw [hn, put_same]
    rfl
  · rw [put_other _ _ hn]
    exact hsome

theorem isSome_ensureMeta (k : String) (h : (s.nodePodNetCache n).isSome ∨ k = n) :
    ((ensureMeta s k).nodePodNetCache n).isSome := by
  unfold ensureMeta
  split
  · next m hm =>
    rcases h with h | rfl
    · exact h
    · rw [hm]
      rfl
  · rcases h with h | rfl
    · exact isSome_put k h
    · exact congrArg Option.isSome (put_same _ k _)

/-- An entry stays, and a call that checks the node makes one. -/
theorem World.isSome_step {w : World} {e : Event} {most : Nat} (h : Sized cfg n most w.state)
    (hmode : cfg.chainedMode = false) (hcall : e.isCall) (hsome : (w.state.nodePodNetCache n).isSome ∨ e.checks n) :
    ((w.step cfg e).state.nodePodNetCache n).isSome := by
  cases e with
  | nodeAdded node => exact absurd hcall (by simp [Event.isCall])
  | nodeDeleted node => exact absurd hcall (by simp [Event.isCall])
  | nodeChanged node =>
    have hens := isSome_ensureMeta node.name (hsome.imp id fun hc => by simpa [Event.checks] using hc)
    have hcheck := @isSome_check _ n cfg (ensureMeta_pool h.canonical node.name).1.canonical node.name hens
    simp only [World.step, World.changed, World.record, Nodes.nodeChanged, hmode, h.sync, Bool.false_eq_true, if_false,
      if_true]
    split
    · exact hcheck
    · split <;> exact hcheck
  | addPodToNode k key =>
    have hens := isSome_ensureMeta k (hsome.imp id fun hc => by simpa [Event.checks] using hc)
    simp only [World.step, Nodes.addPodToNode]
    split
    · exact hens
    · split
      · exact hens
      · refine isSome_check ?_ k ?_
        · exact (ensureMeta_pool h.canonical k).1.canonical
        · exact isSome_put k hens
  | removePodFromNode k key =>
    have hold : (w.state.nodePodNetCache n).isSome := hsome.resolve_right (by simp [Event.checks])
    simp only [World.step, Nodes.removePodFromNode]
    split
    · exact hold
    · refine isSome_check ?_ k ?_
      · exact h.canonical
      · exact isSome_put k hold

end Entry

section Run

theorem World.sized_step (hc : ChunkSizeOk cfg) (hmode : cfg.chainedMode = false) {w : World} {e : Event} {most : Nat}
    (h : Sized cfg n most w.state) (hcall : e.isCall) (hok : w.chunkFails cfg e = false)
    (hp : (w.step cfg e).state.podCount n ≤ most) (hmost : most < 2 ^ 62) : Sized cfg n most (w.step cfg e).state := by
  cases e with
  | nodeAdded node => exact absurd hcall (by simp [Event.isCall])
  | nodeDeleted node => exact absurd hcall (by simp [Event.isCall])
  | nodeChanged node => exact h.nodeChanged hc hmode node hok hmost
  | addPodToNode k key => exact h.addPodToNode hc k key hok hp hmost
  | removePodFromNode k key => exact h.removePodFromNode hc k key hok hmost

theorem podCount_le_mostPods (cfg : Config) (n : String) (w : World) (events : List Event) :
    w.state.podCount n ≤ mostPods cfg n w events := by
  cases events with
  | nil => exact Nat.le_refl _
  | cons e events => exact le_max_left _ _

theorem World.sized_run (hc : ChunkSizeOk cfg) (hmode : cfg.chainedMode = false) (events : List Event) (w : World)
    (most : Nat) (h : Sized cfg n most w.state) (hcalls : ∀ e ∈ events, e.isCall)
    (hok : Along (World.step cfg) (fun w e => w.chunkFails cfg e = false) w events)
    (hle : mostPods cfg n w events ≤ most) (hmost : most < 2 ^ 62) :
    Sized cfg n most (run (World.step cfg) w events).state ∧
      ((w.state.nodePodNetCache n).isSome ∨ (∃ e ∈ events, e.checks n) →
        ((run (World.step cfg) w events).state.nodePodNetCache n).isSome) := by
  induction events generalizing w with
  | nil => exact ⟨h, fun hsome => hsome.resolve_right (by simp)⟩
  | cons e events ih =>
    rw [forall_mem_cons] at hcalls
    have hrest : mostPods cfg n (w.step cfg e) events ≤ most := le_trans (le_max_right _ _) hle
    have hp := le_trans (podCount_le_mostPods cfg n (w.step cfg e) events) hrest
    have hstep := World.sized_step hc hmode h hcalls.1 hok.1 hp hmost
    obtain ⟨hrun, hentry⟩ := ih (w.step cfg e) hstep hcalls.2 hok.2 hrest
    refine ⟨hrun, fun hsome => hentry ?_⟩
    rw [exists_mem_cons_iff, ← or_assoc] at hsome
    exact hsome.imp (World.isSome_step h hmode hcalls.1) id

/-- The nodes are synced; this one has no annotation, so it has no entry yet. -/
theorem World.sized_start (most : Nat) {nodes : List Node} (hw : AllWidth 16 cfg.podIpPool)
    (ha : ∀ node ∈ nodes, ∀ a ∈ node.podNetwork, a.Width) (hn : ∀ node ∈ nodes, node.name = n → node.podNetwork = none)
    (hload : ∀ v, AddsSettle new ((configuredPools cfg).get v).freeList) :
    Sized cfg n most (World.start cfg nodes).state := by
  have hsyncs : ∀ (nodes : List Node) (w : World), (∀ node ∈ nodes, ∀ a ∈ node.podNetwork, a.Width) →
      (∀ node ∈ nodes, node.name = n → node.podNetwork = none) → w.state.configuredPodNetworkIps = configuredPools cfg →
      (∀ v, Canonical 16 (w.state.podNetworkIps.get v)) → w.state.nodePodNetCache n = none →
      (nodes.foldl World.sync w).state.configuredPodNetworkIps = configuredPools cfg ∧
        (∀ v, Canonical 16 ((nodes.foldl World.sync w).state.podNetworkIps.get v)) ∧
        (nodes.foldl World.sync w).state.nodePodNetCache n = none := by
    intro nodes
    induction nodes with
    | nil => exact fun w _ _ hconf hcan hnone => ⟨hconf, hcan, hnone⟩
    | cons node nodes ih =>
      intro w ha hn hconf hcan hnone
      rw [forall_mem_cons] at ha hn
      refine ih (w.sync node) ha.2 hn.2 ?_ ?_ ?_
      · simp only [World.sync, World.record, syncPodNet]
        split
        · exact hconf
        · simp only [mergePodNet]
          split <;> exact hconf
      · intro v
        simp only [World.sync, World.record, syncPodNet]
        split
        · exact hcan v
        · next netval hnet =>
          cases hparsed : netval.parsed with
          | none => simpa [mergePodNet, hparsed] using hcan v
          | some ips => exact (merge_pool hcan (ha.1 netval (by simp [hnet])) hparsed v).1
      · simp only [World.sync, World.record, syncPodNet]
        split
        · exact hnone
        · next netval hnet =>
          have hne : n ≠ node.name := fun heq => by simp [hn.1 heq.symm] at hnet
          have hkeep : (mergePodNet w.state newNodePodNetMeta netval).2.nodePodNetCache = w.state.nodePodNetCache := by
            simp only [mergePodNet]
            split <;> rfl
          exact (put_other _ _ hne).trans (by rw [hkeep]; exact hnone)
  obtain ⟨hconf, hcan, hnone⟩ := hsyncs nodes ⟨initIpam cfg, fun _ => []⟩ ha hn rfl (canonical_initIpam hw hload) rfl
  refine ⟨rfl, hconf, hcan, ?_, ?_, ?_⟩
  · exact fun m hm => absurd (hnone.symm.trans hm) (by simp)
  · exact fun m hm => absurd (hnone.symm.trans hm) (by simp)
  · exact fun m hm => absurd (hnone.symm.trans hm) (by simp)

end Run

/-- A node keeps half a chunk free and less than half a chunk and one chunk beyond its most
pods, if the configured ranges load as a disjoint list. -/
theorem podNet_headroom (cfg : Config) (nodes : List Node) (n : String) (events : List Event)
    (hw : AllWidth 16 cfg.podIpPool) (ha : ∀ node ∈ nodes, ∀ a ∈ node.podNetwork, a.Width)
    (hn : ∀ node ∈ nodes, node.name = n → node.podNetwork = none) (hc : ChunkSizeOk cfg)
    (hmode : cfg.chainedMode = false) (hcalls : ∀ e ∈ events, e.isCall = true)
    (hok : Along (World.step cfg) (fun w e => w.chunkFails cfg e = false) (World.start cfg nodes) events)
    (hfirst : ∃ e ∈ events, e.checks n = true) (hmost : mostPods cfg n (World.start cfg nodes) events < 2 ^ 62)
    (hload : ∀ v, AddsSettle new ((configuredPools cfg).get v).freeList) :
    ∃ m, (run (World.step cfg) (World.start cfg nodes) events).state.nodePodNetCache n = some m ∧
      ∀ v, ((configuredPools cfg).get v).empty = false →
        Roomy cfg (mostPods cfg n (World.start cfg nodes) events) m v := by
  obtain ⟨hsized, hentry⟩ := World.sized_run hc hmode events (World.start cfg nodes) _
    (World.sized_start _ hw ha hn hload) hcalls hok (Nat.le_refl _) hmost
  obtain ⟨m, hm⟩ := Option.isSome_iff_exists.mp (hentry (.inr hfirst))
  exact ⟨m, hm, hsized.roomy m hm⟩

/-- Chunks of two: two pods come and one of them goes. -/
theorem podNet_headroom_two_pods : ∃ m, (run (World.step ⟨[lan 1 8], 2, false⟩)
        (World.start ⟨[lan 1 8], 2, false⟩ [⟨"a", none⟩])
        [.nodeChanged ⟨"a", none⟩, .addPodToNode "a" "default/p", .addPodToNode "a" "default/q",
          .removePodFromNode "a" "default/p"]).state.nodePodNetCache "a" = some m ∧
      ∀ v, ((configuredPools ⟨[lan 1 8], 2, false⟩).get v).empty = false → Roomy ⟨[lan 1 8], 2, false⟩ 2 m v :=
  podNet_headroom _ _ _ _ (by decide) (by decide) (by decide) ⟨by decide, by decide⟩ rfl (by decide)
    (by decide +kernel) (by decide) (by decide +kernel) (by decide +kernel)

/-- With `10.0.0.5-10.0.0.9` and `10.0.0.5-10.0.0.6` configured the pool has both ranges, in the
wrong order; what the third chunk takes stays in the pool, so the fourth one is the same and
the node has six addresses for six pods. -/
theorem podNet_headroom_fails :
    ¬ ∀ (cfg : Config) (nodes : List Node) (n : String) (events : List Event), AllWidth 16 cfg.podIpPool →
      (∀ node ∈ nodes, ∀ a ∈ node.podNetwork, a.Width) →
      (∀ node ∈ nodes, node.name = n → node.podNetwork = none) → ChunkSizeOk cfg → cfg.chainedMode = false →
      (∀ e ∈ events, e.isCall = true) →
      Along (World.step cfg) (fun w e => w.chunkFails cfg e = false) (World.start cfg nodes) events →
      (∃ e ∈ events, e.checks n = true) → mostPods cfg n (World.start cfg nodes) events < 2 ^ 62 →
      ∃ m, (run (World.step cfg) (World.start cfg nodes) events).state.nodePodNetCache n = some m ∧
        ∀ v, ((configuredPools cfg).get v).empty = false →
          Roomy cfg (mostPods cfg n (World.start cfg nodes) events) m v := by
  intro h
  obtain ⟨m, hm, hroomy⟩ := h ⟨[lan 1 2, lan 5 9, lan 5 6], 2, false⟩ [] "a"
    [.nodeChanged ⟨"a", none⟩, .addPodToNode "a" "p1", .addPodToNode "a" "p2", .addPodToNode "a" "p3",
      .addPodToNode "a" "p4", .addPodToNode "a" "p5", .addPodToNode "a" "p6"]
    (by decide) (by simp) (by simp) ⟨by decide, by decide⟩ rfl (by decide) (by decide +kernel) (by decide)
    (by decide +kernel)
  have hranges : m.nodePods.length = 6 ∧ m.podNetIps.get true = [lan 1 2, lan 5 8] := by
    have hentry : (some m).map (fun m => (m.nodePods.length, m.podNetIps.get true)) = some (6,
        [lan 1 2, lan 5 8]) := by
      rw [← hm]
      decide +kernel
    simpa using hentry
  have hcan : Canonical 16 ⟨[lan 1 2, lan 5 8]⟩ :=
    ⟨by decide, by simp [Proper, iv, value, lan, mapped, v4InV6Prefix],
      by simp [Separated, iv, value, lan, mapped, v4InV6Prefix]⟩
  have hsize : m.rangeSize true = 6 := by
    rw [NodePodNetMeta.rangeSize, hranges.2, ncard_addresses hcan]
    decide +kernel
  have hlow := (hroomy true (by decide +kernel)).1
  rw [hsize, hranges.1] at hlow
  exact absurd hlow (by decide)

end AciContainers.Nodes
