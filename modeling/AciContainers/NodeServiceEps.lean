import AciContainers.IpCacheRuns
import AciContainers.Maps

/-!
# Service endpoints of nodes

`createServiceEndpoint`, and the parts of `nodeChanged` and `nodeDeleted` of
`pkg/controller/nodes.go` around it. A node keeps the addresses it has; else it claims the
ones in its annotation, if they are still free, or takes the first free ones. The pools and
the nodes together always hold the configured addresses, each once.
-/
namespace AciContainers.NodeServiceEps

open Bytes Net Ipam Maps Runs Intervals Option

structure ServiceEndpoint where
  healthGroupDn : String
  mac : String
  ipv4 : Option IP
  ipv6 : Option IP
  deriving DecidableEq

def ServiceEndpoint.empty : ServiceEndpoint := ⟨"", "", none, none⟩

def ServiceEndpoint.ip (ep : ServiceEndpoint) (v4 : Bool) : Option IP := if v4 then ep.ipv4 else ep.ipv6

/-- A member of the JSON object in the annotation; others are ignored. -/
inductive Member where
  | mac (value : String)
  | ipv4 (value : String)
  | ipv6 (value : String)
  deriving DecidableEq

/-- `net.IP.UnmarshalText`: the empty text is the nil address. -/
def unmarshalIP (text : String) : Option (Option IP) :=
  if text = "" then some none else (parseIP text).map some

/-- Decoding stops at the first bad address; what came before it stays. -/
def unmarshal (ep : ServiceEndpoint) : List Member → ServiceEndpoint
  | [] => ep
  | .mac s :: rest => unmarshal { ep with mac := s } rest
  | .ipv4 s :: rest =>
    match unmarshalIP s with
    | none => ep
    | some ip => unmarshal { ep with ipv4 := ip } rest
  | .ipv6 s :: rest =>
    match unmarshalIP s with
    | none => ep
    | some ip => unmarshal { ep with ipv6 := ip } rest

structure Config where
  parseMAC : String → Bool
  /-- The name of a node's health group, when services are monitored. -/
  healthGroupDn : Option (String → String)

structure State where
  nodeServiceIps : NetPools
  nodeServiceMetaCache : Map String ServiceEndpoint

/-- `none` when there is no address to read and the random source fails. -/
def chooseMac (cfg : Config) (deviceMac existingMac : String) (random : Option String) : Option String :=
  if cfg.parseMAC deviceMac ∧ deviceMac ≠ "00:00:00:00:00:00" then some deviceMac
  else if cfg.parseMAC existingMac then some existingMac
  else random

/-- One family of the endpoint. -/
def assignIp (pool : IpAlloc) (current existing : Option IP) : IpAlloc × Option IP :=
  let claimed :=
    match current, existing with
    | none, some ip =>
      let removed := pool.removeIp ip
      (removed.1, if removed.2 then some ip else none)
    | _, _ => (pool, current)
  match claimed.2 with
  | some ip => (claimed.1, some ip)
  | none =>
    let got := claimed.1.getIp
    (got.2, got.1)

/-- Returns also whether the endpoint was created; its caller does not look. -/
def createServiceEndpoint (cfg : Config) (pools : NetPools) (existing ep : ServiceEndpoint)
    (deviceMac nodeName : String) (random : Option String) : NetPools × ServiceEndpoint × Bool :=
  match chooseMac cfg deviceMac existing.mac random with
  | none => (pools, ep, false)
  | some mac =>
    let v4 := assignIp pools.v4 ep.ipv4 existing.ipv4
    let v6 := assignIp pools.v6 ep.ipv6 existing.ipv6
    let ep := { ep with
      mac := mac
      ipv4 := v4.2
      ipv6 := v6.2 }
    if v4.2 = none ∧ v6.2 = none then (⟨v4.1, v6.1⟩, ep, false)
    else
      let healthGroupDn :=
        if ep.healthGroupDn = "" then (cfg.healthGroupDn.map fun dn => dn nodeName).getD ""
        else ep.healthGroupDn
      (⟨v4.1, v6.1⟩, { ep with healthGroupDn := healthGroupDn }, true)

inductive Event where
  | nodeChanged (name : String) (annot : List Member) (nodeSyncEnabled : Bool)
      (device : Option String) (random : Option String)
  | nodeDeleted (name : String)

def nodeChanged (cfg : Config) (s : State) (name : String) (annot : List Member)
    (nodeSyncEnabled : Bool) (device random : Option String) : State :=
  match device with
  | none => s
  | some deviceMac =>
    if nodeSyncEnabled then
      let nodeMeta := (s.nodeServiceMetaCache name).getD ServiceEndpoint.empty
      let existing := unmarshal ServiceEndpoint.empty annot
      let r := createServiceEndpoint cfg s.nodeServiceIps existing nodeMeta deviceMac name random
      ⟨r.1, s.nodeServiceMetaCache.put name r.2.1⟩
    else s

/-- An address goes back to the pool of its family. -/
def giveBack (pool : IpAlloc) : Option IP → IpAlloc
  | none => pool
  | some ip => pool.addIp ip

def nodeDeleted (s : State) (name : String) : State :=
  match s.nodeServiceMetaCache name with
  | none => s
  | some existing =>
    ⟨⟨giveBack s.nodeServiceIps.v4 existing.ipv4, giveBack s.nodeServiceIps.v6 existing.ipv6⟩,
      s.nodeServiceMetaCache.erase name⟩

def step (cfg : Config) (s : State) : Event → State
  | .nodeChanged name annot nodeSyncEnabled device random =>
    nodeChanged cfg s name annot nodeSyncEnabled device random
  | .nodeDeleted name => nodeDeleted s name

/-- `initIpam` for this pool. -/
def start (nodeServiceIpPool : List IpRange) : State :=
  ⟨loadIpRanges newNetIps nodeServiceIpPool, Map.empty⟩

/-- The address of a node in a family. -/
def State.assigned (s : State) (v4 : Bool) (name : String) : Option IP :=
  (s.nodeServiceMetaCache name).bind fun ep => ep.ip v4

/-- Free addresses and those of nodes are apart, and together they are the pool at home. -/
structure FamilyOk (home : Nat → Prop) (pool : IpAlloc) (held : String → Option IP) : Prop where
  canonical : Canonical 16 pool
  width : ∀ n ip, held n = some ip → ip.length = 16
  apart : ∀ n ip, held n = some ip → ¬ pool.Holds (value ip)
  unique : ∀ n m ip, held n = some ip → held m = some ip → n = m
  all : ∀ x, home x ↔ pool.Holds x ∨ ∃ n ip, held n = some ip ∧ value ip = x

section Family

variable {home : Nat → Prop} {pool : IpAlloc} {held held' : String → Option IP} {name : String}

theorem FamilyOk.congr (h : FamilyOk home pool held) (heq : ∀ n, held' n = held n) : FamilyOk home pool held' := by
  have he : held' = held := funext heq
  exact he ▸ h

variable (h : FamilyOk home pool held)
include h

/-- A node without an address gets one that was free. -/
theorem FamilyOk.take (hname : held name = none) {ip : IP} (hip : ip.length = 16)
    (hfree : pool.Holds (value ip)) {pool' : IpAlloc} (hcan : Canonical 16 pool')
    (hrest : ∀ x, pool'.Holds x ↔ pool.Holds x ∧ x ≠ value ip)
    (hheld : ∀ n, held' n = if n = name then some ip else held n) : FamilyOk home pool' held' := by
  have hold : ∀ n, n ≠ name → held' n = held n := fun n hn => by rw [hheld, if_neg hn]
  have hnew : held' name = some ip := by rw [hheld, if_pos rfl]
  refine ⟨hcan, ?_, ?_, ?_, ?_⟩
  · intro n a ha
    by_cases hn : n = name
    · rw [hn, hnew] at ha
      exact some.inj ha ▸ hip
    · exact h.width n a (hold n hn ▸ ha)
  · intro n a ha hx
    by_cases hn : n = name
    · rw [hn, hnew] at ha
      exact ((hrest _).mp hx).2 (congrArg value (some.inj ha).symm)
    · exact h.apart n a (hold n hn ▸ ha) ((hrest _).mp hx).1
  · intro n m a hn hm
    -- The new address was free, so no other node has it.
    have hfresh : ∀ k, k ≠ name → held' k = some a → a ≠ ip := by
      rintro k hk hka rfl
      exact h.apart k a (hold k hk ▸ hka) hfree
    by_cases hnn : n = name
    · by_cases hmn : m = name
      · rw [hnn, hmn]
      · rw [hnn, hnew] at hn
        exact absurd (some.inj hn).symm (hfresh m hmn hm)
    · by_cases hmn : m = name
      · rw [hmn, hnew] at hm
        exact absurd (some.inj hm).symm (hfresh n hnn hn)
      · exact h.unique n m a (hold n hnn ▸ hn) (hold m hmn ▸ hm)
  · intro x
    rw [h.all x, hrest x]
    constructor
    · rintro (hx | ⟨n, a, ha, rfl⟩)
      · by_cases he : x = value ip
        · exact .inr ⟨name, ip, hnew, he.symm⟩
        · exact .inl ⟨hx, he⟩
      · have hn : n ≠ name := by
          rintro rfl
          simp [hname] at ha
        exact .inr ⟨n, a, (hold n hn).trans ha, rfl⟩
    · rintro (hx | ⟨n, a, ha, rfl⟩)
      · exact .inl hx.1
      · by_cases hn : n = name
        · rw [hn, hnew] at ha
          exact .inl (some.inj ha ▸ hfree)
        · exact .inr ⟨n, a, hold n hn ▸ ha, rfl⟩

theorem FamilyOk.giveBack (hheld : ∀ n, held' n = if n = name then none else held n) :
    FamilyOk home (giveBack pool (held name)) held' := by
  have hold : ∀ n a, held' n = some a → n ≠ name ∧ held n = some a := by
    intro n a ha
    rw [hheld] at ha
    by_cases hn : n = name
    · simp [hn] at ha
    · exact ⟨hn, by rwa [if_neg hn] at ha⟩
  cases hip : held name with
  | none =>
    refine h.congr fun n => ?_
    rw [hheld]
    by_cases hn : n = name
    · rw [if_pos hn, hn, hip]
    · rw [if_neg hn]
  | some ip =>
    have hlen := h.width name ip hip
    have hfresh := h.apart name ip hip
    have hadd : ∀ x, (pool.addIp ip).Holds x ↔ pool.Holds x ∨ x = value ip := by
      intro x
      refine (covers_addRange hlen hlen h.canonical.sorted x).trans (or_congr Iff.rfl ?_)
      omega
    refine ⟨canonical_addRange_of_disjoint h.canonical hlen hlen ?_, ?_, ?_, ?_, ?_⟩
    · intro x h₁ h₂ hx
      exact hfresh (le_antisymm h₂ h₁ ▸ hx)
    · exact fun n a ha => h.width n a (hold n a ha).2
    · intro n a ha hx
      obtain ⟨hn, ha⟩ := hold n a ha
      rcases (hadd _).mp hx with hx | hx
      · exact h.apart n a ha hx
      · obtain rfl := value_inj ((h.width n a ha).trans hlen.symm) hx
        exact hn (h.unique n name a ha hip)
    · exact fun n m a ha hb => h.unique n m a (hold n a ha).2 (hold m a hb).2
    · intro x
      rw [h.all x]
      change _ ↔ (pool.addIp ip).Holds x ∨ _
      rw [hadd x]
      constructor
      · rintro (hx | ⟨n, a, ha, rfl⟩)
        · exact .inl (.inl hx)
        · by_cases hn : n = name
          · rw [hn, hip] at ha
            exact .inl (.inr (congrArg value (some.inj ha).symm))
          · exact .inr ⟨n, a, by rw [hheld, if_neg hn, ha], rfl⟩
      · rintro ((hx | rfl) | ⟨n, a, ha, rfl⟩)
        · exact .inl hx
        · exact .inr ⟨name, ip, hip, rfl⟩
        · exact .inr ⟨n, a, (hold n a ha).2, rfl⟩

/-- Whatever the annotation claims, only a free address is taken. -/
theorem FamilyOk.assignIp {existing : Option IP} (hex : ∀ ip, existing = some ip → ip.length = 16)
    (hheld : ∀ n, held' n = if n = name then (assignIp pool (held name) existing).2 else held n) :
    FamilyOk home (assignIp pool (held name) existing).1 held' := by
  -- Taking the first free address of a pool that lost none.
  have hget : ∀ p : IpAlloc, Canonical 16 p → (∀ x, p.Holds x ↔ pool.Holds x) → held name = none →
      (∀ n, held' n = if n = name then p.getIp.1 else held n) → FamilyOk home p.getIp.2 held' := by
    intro p hcan hsame hname hheld
    have hp : FamilyOk home p held := ⟨hcan, h.width, fun n ip hip hx => h.apart n ip hip ((hsame _).mp hx),
      h.unique, fun x => by rw [h.all x, hsame x]⟩
    cases hip : p.getIp.1 with
    | none =>
      have hnil := (getIp_none_iff p).mp hip
      have hsec : p.getIp.2 = p := by simp [IpAlloc.getIp, hnil]
      rw [hsec]
      refine hp.congr fun n => ?_
      rw [hheld, hip]
      by_cases hn : n = name
      · rw [if_pos hn, hn, hname]
      · rw [if_neg hn]
    | some ip =>
      obtain ⟨hlen, hfree, hcan', hrest⟩ := getIp_spec hcan hip
      exact hp.take hname hlen hfree hcan' hrest fun n => by rw [hheld, hip]
  unfold NodeServiceEps.assignIp at hheld ⊢
  cases hname : held name with
  | some ip =>
    refine h.congr fun n => ?_
    rw [hheld]
    by_cases hn : n = name
    · rw [if_pos hn, hn, hname]
    · rw [if_neg hn]
  | none =>
    cases existing with
    | none =>
      simp only [hname] at hheld ⊢
      exact hget pool h.canonical (fun _ => Iff.rfl) hname hheld
    | some ip =>
      have hlen := hex ip rfl
      obtain ⟨hcan, hflag, hrest⟩ := removeIp_spec h.canonical hlen
      cases hrem : (pool.removeIp ip).2 with
      | true =>
        simp only [hname, hrem, if_true] at hheld ⊢
        exact h.take hname hlen (hflag.mp hrem) hcan hrest hheld
      | false =>
        simp only [hname, hrem, Bool.false_eq_true, if_false] at hheld ⊢
        refine hget _ hcan (fun x => ?_) hname hheld
        rw [hrest]
        refine ⟨And.left, fun hx => ⟨hx, ?_⟩⟩
        rintro rfl
        simp [hflag.mpr hx] at hrem

omit h

end Family

theorem unmarshalIP_length {text : String} {ip : IP} (h : unmarshalIP text = some (some ip)) : ip.length = 16 := by
  unfold unmarshalIP at h
  split at h
  · simp at h
  · exact length_parseIP (by simpa using h)

/-- Addresses in annotations are nil or have 16 bytes. -/
theorem unmarshal_length (annot : List Member) {ep : ServiceEndpoint} (h : ∀ v ip, ep.ip v = some ip → ip.length = 16) :
    ∀ v ip, (unmarshal ep annot).ip v = some ip → ip.length = 16 := by
  induction annot generalizing ep with
  | nil => exact h
  | cons m rest ih =>
    cases m with
    | mac s => exact ih h
    | ipv4 s =>
      simp only [unmarshal]
      cases hs : unmarshalIP s with
      | none => exact h
      | some ip =>
        refine ih fun v a ha => ?_
        cases v with
        | true => exact unmarshalIP_length (hs.trans (congrArg some ha))
        | false => exact h false a ha
    | ipv6 s =>
      simp only [unmarshal]
      cases hs : unmarshalIP s with
      | none => exact h
      | some ip =>
        refine ih fun v a ha => ?_
        cases v with
        | true => exact h true a ha
        | false => exact unmarshalIP_length (hs.trans (congrArg some ha))

/-- What `createServiceEndpoint` does to one family. -/
theorem createServiceEndpoint_cases (cfg : Config) (pools : NetPools) (existing ep : ServiceEndpoint)
    (deviceMac nodeName : String) (random : Option String) (v : Bool) :
    ((createServiceEndpoint cfg pools existing ep deviceMac nodeName random).1.get v,
        (createServiceEndpoint cfg pools existing ep deviceMac nodeName random).2.1.ip v) = (pools.get v, ep.ip v) ∨
    ((createServiceEndpoint cfg pools existing ep deviceMac nodeName random).1.get v,
        (createServiceEndpoint cfg pools existing ep deviceMac nodeName random).2.1.ip v) =
      assignIp (pools.get v) (ep.ip v) (existing.ip v) := by
  unfold createServiceEndpoint
  cases chooseMac cfg deviceMac existing.mac random with
  | none => exact .inl rfl
  | some mac =>
    right
    dsimp only
    split <;> cases v <;> rfl

def Inv (home : Bool → Nat → Prop) (s : State) : Prop :=
  ∀ v, FamilyOk (home v) (s.nodeServiceIps.get v) (s.assigned v)

variable {home : Bool → Nat → Prop} {s : State}

theorem inv_nodeChanged {cfg : Config} (h : Inv home s) (name : String) (annot : List Member)
    (nodeSyncEnabled : Bool) (device random : Option String) :
    Inv home (nodeChanged cfg s name annot nodeSyncEnabled device random) := by
  unfold nodeChanged
  cases device with
  | none => exact h
  | some deviceMac =>
    cases nodeSyncEnabled with
    | false => exact h
    | true =>
      intro v
      simp only [if_true]
      generalize hr : createServiceEndpoint cfg s.nodeServiceIps
        (unmarshal ServiceEndpoint.empty annot)
        ((s.nodeServiceMetaCache name).getD ServiceEndpoint.empty) deviceMac name random = r
      have hcases := createServiceEndpoint_cases cfg s.nodeServiceIps
        (unmarshal ServiceEndpoint.empty annot)
        ((s.nodeServiceMetaCache name).getD ServiceEndpoint.empty) deviceMac name random v
      rw [hr] at hcases
      have hcur : ((s.nodeServiceMetaCache name).getD ServiceEndpoint.empty).ip v = s.assigned v name := by
        unfold State.assigned
        cases s.nodeServiceMetaCache name with
        | none => cases v <;> rfl
        | some ep => rfl
      have hheld : ∀ n, State.assigned ⟨r.1, s.nodeServiceMetaCache.put name r.2.1⟩ v n =
          if n = name then r.2.1.ip v else s.assigned v n := by
        intro n
        by_cases hn : n = name
        · simp [State.assigned, hn]
        · simp [State.assigned, hn, put_other _ _ hn]
      rw [hcur] at hcases
      rcases hcases with hsame | hassign
      · have hpool := congrArg Prod.fst hsame
        have hip := congrArg Prod.snd hsame
        dsimp only at hpool hip
        rw [hpool]
        refine (h v).congr fun n => ?_
        rw [hheld, hip]
        by_cases hn : n = name
        · rw [if_pos hn, hn]
        · rw [if_neg hn]
      · have hpool := congrArg Prod.fst hassign
        have hip := congrArg Prod.snd hassign
        dsimp only at hpool hip
        rw [hpool]
        refine (h v).assignIp (fun ip hex => ?_) fun n => by rw [hheld, hip]
        refine unmarshal_length annot ?_ v ip hex
        intro u a ha
        cases u <;> simp [ServiceEndpoint.empty, ServiceEndpoint.ip] at ha

theorem inv_nodeDeleted (h : Inv home s) (name : String) : Inv home (nodeDeleted s name) := by
  unfold nodeDeleted
  cases hname : s.nodeServiceMetaCache name with
  | none => exact h
  | some existing =>
    intro v
    have hip : s.assigned v name = existing.ip v := by simp [State.assigned, hname]
    have hheld : ∀ n, State.assigned
        ⟨⟨giveBack s.nodeServiceIps.v4 existing.ipv4, giveBack s.nodeServiceIps.v6 existing.ipv6⟩,
          s.nodeServiceMetaCache.erase name⟩ v n = if n = name then none else s.assigned v n := by
      intro n
      by_cases hn : n = name
      · simp [State.assigned, hn]
      · simp [State.assigned, hn, erase_other _ hn]
    have hback := (h v).giveBack hheld
    rw [hip] at hback
    cases v <;> exact hback

theorem inv_step (cfg : Config) (s : State) (e : Event) (h : Inv home s) : Inv home (step cfg s e) := by
  cases e with
  | nodeChanged name annot nodeSyncEnabled device random =>
    exact inv_nodeChanged h name annot nodeSyncEnabled device random
  | nodeDeleted name => exact inv_nodeDeleted h name

theorem inv_start {ranges : List IpRange} (hw : AllWidth 16 ranges) (hd : DisjointRanges ranges) :
    Inv (fun v x => ((start ranges).nodeServiceIps.get v).Holds x) (start ranges) := by
  have hload := (loadIpRanges_spec newNetIps ranges NetPools.ok_new hw (disjointRanges_iv hw hd)
    (by simp [NetPools.Holds, NetPools.Has])).1
  intro v
  have hnone : ∀ n, (start ranges).assigned v n = none := fun n => rfl
  refine ⟨hload.canonical v, ?_, ?_, ?_, ?_⟩
  · intro n ip hip
    simp [hnone] at hip
  · intro n ip hip
    simp [hnone] at hip
  · intro n m ip hip
    simp [hnone] at hip
  · simp [hnone]

/-- Nodes have different addresses, none of them free, and nothing of the first pool is lost. -/
structure Exclusive (first s : State) (v4 : Bool) : Prop where
  different : ∀ n m ip, s.assigned v4 n = some ip → s.assigned v4 m = some ip → n = m
  not_free : ∀ n ip, s.assigned v4 n = some ip → ¬ (s.nodeServiceIps.get v4).Free ip
  all : ∀ ip : IP, ip.length = 16 → ((first.nodeServiceIps.get v4).Free ip ↔
    (s.nodeServiceIps.get v4).Free ip ∨ ∃ n, s.assigned v4 n = some ip)

/-- The addresses of service endpoints are exclusive in both families after every event. -/
theorem serviceEndpoints_exclusive (cfg : Config) (ranges : List IpRange) (hw : AllWidth 16 ranges)
    (hd : DisjointRanges ranges) (events : List Event) (v4 : Bool) :
    Exclusive (start ranges) (run (step cfg) (start ranges) events) v4 := by
  have hstart := inv_start hw hd
  have hinv : Inv _ (run (step cfg) (start ranges) events) :=
    @invariant_run _ _ (step cfg) (fun _ _ => True) _ (fun s e h _ => inv_step cfg s e h) _ events
      hstart (along_of_forall _ _ fun _ _ => trivial)
  have h := hinv v4
  refine ⟨h.unique, ?_, ?_⟩
  · intro n ip hip hfree
    exact h.apart n ip hip ((free_iff h.canonical.width (h.width n ip hip)).mp hfree)
  · intro ip hip
    rw [free_iff (hstart v4).canonical.width hip, free_iff h.canonical.width hip]
    refine (h.all (value ip)).trans (or_congr Iff.rfl ?_)
    constructor
    · rintro ⟨n, a, ha, hx⟩
      obtain rfl := value_inj ((h.width n a ha).trans hip.symm) hx
      exact ⟨n, ha⟩
    · rintro ⟨n, ha⟩
      exact ⟨n, ip, ha, rfl⟩

/-- The second node claims the address of the first and gets another one. -/
theorem serviceEndpoints_exclusive_claim :
    let s := run (step ⟨fun _ => true, none⟩) (start [⟨mapped 10 6 0 2, mapped 10 6 0 3⟩])
      [.nodeChanged "a" [] true (some "02:00:00:00:00:01") none,
        .nodeChanged "b" [.ipv4 "10.6.0.2"] true (some "02:00:00:00:00:02") none]
    s.assigned true "a" = some (mapped 10 6 0 2) ∧ s.assigned true "b" = some (mapped 10 6 0 3) ∧
      Exclusive (start [⟨mapped 10 6 0 2, mapped 10 6 0 3⟩]) s true :=
  ⟨by decide, by decide, serviceEndpoints_exclusive ⟨fun _ => true, none⟩ _ (by decide)
    (List.pairwise_singleton _ _) _ true⟩

theorem ip_createServiceEndpoint {cfg : Config} {pools : NetPools} {existing ep : ServiceEndpoint}
    {deviceMac nodeName : String} {random : Option String} {v4 : Bool} {ip : IP} (h : ep.ip v4 = some ip) :
    (createServiceEndpoint cfg pools existing ep deviceMac nodeName random).2.1.ip v4 = some ip := by
  unfold createServiceEndpoint
  cases chooseMac cfg deviceMac existing.mac random with
  | none => exact h
  | some mac =>
    cases v4 with
    | true =>
      have h4 : ep.ipv4 = some ip := h
      simp [h4, assignIp, ServiceEndpoint.ip]
    | false =>
      have h6 : ep.ipv6 = some ip := h
      dsimp only
      split <;> simp [h6, assignIp, ServiceEndpoint.ip]

theorem assigned_step (cfg : Config) {s : State} {v4 : Bool} {name : String} {ip : IP}
    (h : s.assigned v4 name = some ip)
    {e : Event} (he : e ≠ .nodeDeleted name) : (step cfg s e).assigned v4 name = some ip := by
  cases e with
  | nodeDeleted other =>
    have hother : name ≠ other := fun heq => he (heq ▸ rfl)
    simp only [step, nodeDeleted]
    cases s.nodeServiceMetaCache other with
    | none => exact h
    | some existing => simpa only [State.assigned, erase_other _ hother] using h
  | nodeChanged other annot nodeSyncEnabled device random =>
    simp only [step, nodeChanged]
    split
    · exact h
    · split
      · by_cases hn : name = other
        · subst hn
          obtain ⟨ep, hep, hip⟩ := Option.bind_eq_some_iff.mp h
          simp only [State.assigned, put_same, Option.bind_some, hep]
          exact ip_createServiceEndpoint hip
        · simpa only [State.assigned, put_other _ _ hn] using h
      · exact h

/-- A node keeps its address until it is deleted, whatever happens to its annotation and to others. -/
theorem assigned_kept (cfg : Config) (s : State) (v4 : Bool) (name : String) (ip : IP)
    (h : s.assigned v4 name = some ip)
    (events : List Event) (hkept : ∀ e ∈ events, e ≠ .nodeDeleted name) :
    (run (step cfg) s events).assigned v4 name = some ip :=
  @invariant_run _ _ (step cfg) (fun _ e => e ≠ .nodeDeleted name) (fun s => s.assigned v4 name = some ip)
    (fun _ _ h he => assigned_step cfg h he) s events h (along_of_forall _ _ hkept)

/-- Another node claims the address. -/
theorem assigned_kept_claimed :
    let s := run (step ⟨fun _ => true, none⟩) (start [⟨mapped 10 6 0 2, mapped 10 6 0 3⟩])
      [.nodeChanged "a" [] true (some "02:00:00:00:00:01") none, .nodeChanged "b" [.ipv4 "10.6.0.2"] true
        (some "") none]
    s.assigned true "a" = some (mapped 10 6 0 2) :=
  assigned_kept _ _ true "a" _ (by decide) [.nodeChanged "b" [.ipv4 "10.6.0.2"] true (some "") none] (by simp)

end AciContainers.NodeServiceEps
