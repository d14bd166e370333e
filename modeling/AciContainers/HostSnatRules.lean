import AciContainers.HostSnatViews

/-!
# Rules for the SNAT handlers

An invariant that every small operation of the handlers keeps is kept by the handlers. The
operations are: updating one endpoint file, putting a policy on a pod that it may be on,
taking a policy off a pod, and writing labels. The policy cache stays while a handler runs.
-/
namespace AciContainers.HostSnat

open Labels Maps Index Outcomes List

section Congr

variable {a b : Agent} (cfg : Config) (w : World)

section

variable (h : b.snatPolicyCache = a.snatPolicyCache) (obj : Obj)
include h

theorem getPodsMatchingObject_congr (name : String) :
    b.getPodsMatchingObject cfg w obj name = a.getPodsMatchingObject cfg w obj name := by
  unfold Agent.getPodsMatchingObject Agent.isPolicyNameSpaceMatches
  rw [h]

theorem matchingOf_congr : b.matchingOf w obj = a.matchingOf w obj := by
  funext name
  simp [Agent.matchingOf, h]

theorem matchingNames_congr : b.matchingNames w obj = a.matchingNames w obj := by
  simp [Agent.matchingNames, matchingOf_congr w h, h]

end

theorem mem_cache_of_matchingNames {obj : Obj} {name : String} (h : name ∈ a.matchingNames w obj) :
    name ∈ a.snatPolicyCache :=
  Finmap.mem_keys.mp (Finset.mem_filter.mp h).1

end Congr

/-- The pods of an object in a namespace of the policy. -/
def World.uidsIn (cfg : Config) (w : World) (policy : SnatPolicy) (obj : Obj) : List String :=
  if policy.selector.ns = "" ∨ policy.selector.ns = obj.ns then w.podUids cfg obj else []

/-- The pods that a policy is for, by resource. -/
def World.policyUids (cfg : Config) (w : World) (policy : SnatPolicy) : Resource → List String :=
  let labels := policy.selector.set
  let selector := Snat.selectorFromSet labels
  if policy.snatIp = [] then fun _ =>
    (w.services.filter fun service => selector.matchesLabels service.labels).flatMap fun service =>
      w.uidsIn cfg policy (.service service)
  else if policy.selector = ⟨none, ""⟩ then fun _ => w.order.visit w.opflexEps
  else if labels = [] then fun _ => localUids cfg (w.podsIn policy.selector.ns everything)
  else fun r =>
    match r with
    | .pod => ((w.pods.filter fun pod =>
        selector.matchesLabels pod.labels && pod.nodeName = cfg.nodeName).map Obj.pod).flatMap
        (w.uidsIn cfg policy)
    | .deployment => ((w.deployments.filter fun dep =>
        selector.matchesLabels dep.labels).map Obj.deployment).flatMap (w.uidsIn cfg policy)
    | .namespace => ((w.namespaces.filter fun n =>
        selector.matchesLabels n.labels).map Obj.namespace).flatMap (w.uidsIn cfg policy)
    | _ => []

variable {a : Agent}

theorem getPodsMatchingObject_cached {cfg : Config} {w : World} {policy : SnatPolicy}
    (h : a.snatPolicyCache.lookup policy.name = some policy) (obj : Obj) :
    (a.getPodsMatchingObject cfg w obj policy.name).1 = w.uidsIn cfg policy obj := by
  unfold Agent.getPodsMatchingObject Agent.isPolicyNameSpaceMatches World.uidsIn
  rw [h]
  by_cases hns : policy.selector.ns = "" ∨ policy.selector.ns = obj.ns
  · simp [hns]
  · simp [hns]

/-- Only labels differ. -/
def Relabelled (a b : Agent) : Prop := ∃ labels, b = { a with snatPolicyLabels := labels }

theorem Relabelled.refl (a : Agent) : Relabelled a a := ⟨a.snatPolicyLabels, rfl⟩

variable {b : Agent}

theorem Relabelled.trans {c : Agent} (h : Relabelled a b) (h' : Relabelled b c) : Relabelled a c := by
  obtain ⟨labels, rfl⟩ := h
  obtain ⟨labels', rfl⟩ := h'
  exact ⟨labels', rfl⟩

theorem Relabelled.cache (h : Relabelled a b) : b.snatPolicyCache = a.snatPolicyCache := by
  obtain ⟨labels, rfl⟩ := h
  rfl

theorem relabelled_rewrite (a : Agent) (key policy : String) (res : Finset Resource) :
    Relabelled a (a.rewriteSnatPolicyLabel key policy res) := by
  unfold Agent.rewriteSnatPolicyLabel
  split
  · exact Relabelled.refl a
  · exact ⟨_, rfl⟩

section Targets

variable {cfg : Config} {w : World} {policy : SnatPolicy}

/-- A loop whose turns relabel objects and add the UIDs of their pods. -/
theorem foldl_turn {α : Type} {turn : Agent × List String → α → Agent × List String} {uidsIn : α → List String}
    (hturn : ∀ a uids x, a.snatPolicyCache.lookup policy.name = some policy →
      Relabelled a (turn (a, uids) x).1 ∧ (turn (a, uids) x).2 = uids ++ uidsIn x)
    (l : List α) {a : Agent} (uids : List String) (h : a.snatPolicyCache.lookup policy.name = some policy) :
    Relabelled a (l.foldl turn (a, uids)).1 ∧ (l.foldl turn (a, uids)).2 = uids ++ l.flatMap uidsIn := by
  induction l generalizing a uids with
  | nil => exact ⟨Relabelled.refl a, by simp⟩
  | cons x l ih =>
    obtain ⟨hone, huids⟩ := hturn a uids x h
    have hrest := @ih (turn (a, uids) x).1 (turn (a, uids) x).2 (by rw [hone.cache, h])
    refine ⟨hone.trans hrest.1, ?_⟩
    rw [foldl_cons, flatMap_cons, ← append_assoc, ← huids]
    exact hrest.2

theorem serviceTurn_spec (a : Agent) (uids : List String) (service : Service)
    (h : a.snatPolicyCache.lookup policy.name = some policy) :
    Relabelled a (serviceTurn cfg w policy (a, uids) service).1 ∧
      (serviceTurn cfg w policy (a, uids) service).2 = uids ++ w.uidsIn cfg policy (.service service) := by
  unfold serviceTurn
  dsimp only
  rw [getPodsMatchingObject_cached h]
  refine ⟨?_, rfl⟩
  split
  · exact relabelled_rewrite a _ _ _
  · exact Relabelled.refl a

theorem labelTurn_spec (a : Agent) (uids : List String) (obj : Obj)
    (h : a.snatPolicyCache.lookup policy.name = some policy) : Relabelled a (labelTurn cfg w policy (a, uids) obj).1 ∧
      (labelTurn cfg w policy (a, uids) obj).2 = uids ++ w.uidsIn cfg policy obj := by
  unfold labelTurn
  dsimp only
  rw [getPodsMatchingObject_cached h]
  refine ⟨?_, rfl⟩
  split
  · exact relabelled_rewrite a _ _ _
  · exact Relabelled.refl a

theorem policyTargets_spec {a : Agent} (h : a.snatPolicyCache.lookup policy.name = some policy) :
    Relabelled a (a.policyTargets cfg w policy).agent ∧
      (a.policyTargets cfg w policy).uids = w.policyUids cfg policy := by
  unfold Agent.policyTargets World.policyUids
  by_cases hip : policy.snatIp = []
  · simp only [hip, if_true]
    have hs := foldl_turn (@serviceTurn_spec cfg w policy) (w.services.filter fun service =>
      (Snat.selectorFromSet policy.selector.set).matchesLabels service.labels) [] h
    exact ⟨hs.1, by rw [hs.2, nil_append]⟩
  simp only [hip, if_false]
  by_cases hsel : policy.selector = ⟨none, ""⟩
  · simp only [hsel, if_true]
    exact ⟨Relabelled.refl a, trivial⟩
  simp only [hsel, if_false]
  by_cases hlab : policy.selector.set = []
  · simp only [hlab, if_true]
    exact ⟨Relabelled.refl a, trivial⟩
  simp only [hlab, if_false]
  -- Pods, deployments and namespaces are listed one after the other.
  obtain ⟨hpod, hpodu⟩ := foldl_turn (@labelTurn_spec cfg w policy) ((w.pods.filter fun pod =>
    (Snat.selectorFromSet policy.selector.set).matchesLabels pod.labels &&
      pod.nodeName = cfg.nodeName).map Obj.pod) [] h
  obtain ⟨hdep, hdepu⟩ := foldl_turn (@labelTurn_spec cfg w policy) ((w.deployments.filter fun dep =>
    (Snat.selectorFromSet policy.selector.set).matchesLabels dep.labels).map Obj.deployment) []
    (by rw [hpod.cache, h])
  obtain ⟨hns, hnsu⟩ := foldl_turn (@labelTurn_spec cfg w policy) ((w.namespaces.filter fun n =>
    (Snat.selectorFromSet policy.selector.set).matchesLabels n.labels).map Obj.namespace) []
    (by rw [hdep.cache, hpod.cache, h])
  refine ⟨(hpod.trans hdep).trans hns, ?_⟩
  funext r
  cases r with
  | pod => exact hpodu
  | deployment => exact hdepu
  | «namespace» => exact hnsu
  | service => rfl
  | cluster => rfl

end Targets

/-- The invariant is kept by every operation of a handler. The policy cache is fixed, and
`may` says which policy may come on which pod. -/
structure Closed (cfg : Config) (cache : Finmap fun _ : String => SnatPolicy)
    (may : String → String → Prop) (inv : Agent → Prop) : Prop where
  cache : ∀ a, inv a → a.snatPolicyCache = cache
  cached : ∀ a, inv a → a.Cached
  epFile : ∀ a b uid, inv a → EpFile cfg uid a b → inv b
  enter : ∀ a name, inv a → a.snatPods.lookup name = none →
    inv { a with snatPods := a.snatPods.insert name ∅ }
  put : ∀ a res name uid, inv a → may uid name → inv (applyOne res name a uid)
  clear : ∀ a uid res name, inv a → inv (a.deleteSnatLocalInfo uid res name)
  labels : ∀ a labels, inv a → inv { a with snatPolicyLabels := labels }

namespace Closed

variable {cfg : Config} {cache : Finmap fun _ : String => SnatPolicy} {may : String → String → Prop}
  {inv : Agent → Prop} {w : World} {a : Agent}

theorem relabel (h : Closed cfg cache may inv) {b : Agent} (ha : inv a) (hb : Relabelled a b) : inv b := by
  obtain ⟨labels, rfl⟩ := hb
  exact h.labels a labels ha

theorem updateEpFiles (h : Closed cfg cache may inv) (ha : inv a) (poduids : List String) :
    Ends NotMissing inv (a.updateEpFiles cfg poduids) := by
  refine Ends.foldlM ha fun b uid _ hb => ?_
  exact (updateEpFile_ends cfg (h.cached b hb) uid).mono fun c hc => h.epFile b c uid hb hc

variable {name : String}

theorem applyPolicy (h : Closed cfg cache may inv) (ha : inv a) {poduids : List String}
    (res : Resource) (hmay : ∀ uid ∈ poduids, may uid name) :
    Ends NotMissing inv (a.applyPolicy cfg poduids res name) := by
  have hput : ∀ b : Agent, inv b → inv (poduids.foldl (applyOne res name) b) := fun b hb =>
    foldl_invariant hb fun c uid huid hc => h.put c res name uid hc (hmay uid huid)
  unfold Agent.applyPolicy
  by_cases hempty : poduids = []
  · rw [if_pos hempty]
    exact ha
  rw [if_neg hempty]
  cases hl : a.snatPods.lookup name with
  | none =>
    exact hput _ (h.enter a name ha hl)
  | some pods =>
    exact h.updateEpFiles (hput a ha) poduids

theorem clearPolicy (h : Closed cfg cache may inv) (ha : inv a) (order : RangeOrder String)
    (name : String) : inv (a.clearPolicy order name).1 :=
  foldl_invariant ha fun b uid _ hb => h.clear b uid _ name hb

variable {policy : SnatPolicy} (h : Closed cfg cache may inv)
include h

theorem handleSnatUpdate (ha : inv a) (hcache : cache.lookup policy.name = some policy)
    (hmay : ∀ r, ∀ uid ∈ w.policyUids cfg policy r, may uid policy.name) :
    Ends NotMissing inv (a.handleSnatUpdate cfg w policy) := by
  have hlookup : a.snatPolicyCache.lookup policy.name = some policy := by rw [h.cache a ha, hcache]
  obtain ⟨hlabels, huids⟩ := @policyTargets_spec cfg w policy a hlookup
  refine Ends.foldlM (h.relabel ha hlabels) fun b res _ hb => ?_
  refine h.applyPolicy hb res fun uid hu => hmay res uid ?_
  rw [huids] at hu
  exact (mem_filter.mp hu).1

theorem reselect (ha : inv a) (hcache : cache.lookup policy.name = some policy)
    (hmay : ∀ r, ∀ uid ∈ w.policyUids cfg policy r, may uid policy.name) :
    Ends NotMissing inv (a.reselect cfg w policy) := by
  refine (h.updateEpFiles (h.clearPolicy ha w.order policy.name) _).bind fun b hb => ?_
  refine (h.handleSnatUpdate hb hcache hmay).bind fun c hc => ?_
  dsimp only
  split
  · exact hc
  · exact h.updateEpFiles hc _

theorem writeLabel (ha : inv a) (key policy : String) (res : Finset Resource) :
    Ends NotMissing inv (a.writeSnatPolicyLabel key policy res) := by
  unfold Agent.writeSnatPolicyLabel
  split
  · intro name he
    cases he
  · exact h.labels a _ ha

omit h

variable {obj : Obj} (h : Closed cfg cache may inv)
include h

theorem freshTurn (ha : inv a) (resources : String → List Resource) (hname : name ∈ cache)
    (hmay : ∀ uid ∈ (a.getPodsMatchingObject cfg w obj name).1, may uid name) :
    Ends NotMissing inv (freshTurn cfg w obj resources a name) := by
  refine Ends.foldlM ha fun b res _ hb => ?_
  have hcache : b.snatPolicyCache = a.snatPolicyCache := (h.cache b hb).trans (h.cache a ha).symm
  refine (policy_ends (show name ∈ b.snatPolicyCache by rw [h.cache b hb]; exact hname)).bind
    fun policy _ => ?_
  refine (h.applyPolicy hb res ?_).bind fun c hc => ?_
  · rw [getPodsMatchingObject_congr cfg w hcache]
    exact hmay
  · split
    · exact hc
    · exact h.writeLabel hc _ _ _

theorem matchTurn (ha : inv a) (resources : String → List Resource) (seen : Finset String)
    (hmay : ∀ uid ∈ (a.getPodsMatchingObject cfg w obj name).1, may uid name) :
    Ends NotMissing inv (matchTurn cfg w obj resources seen a name) := by
  unfold HostSnat.matchTurn
  split
  · exact ha
  · refine Ends.foldlM ha fun b res _ hb => ?_
    have hcache : b.snatPolicyCache = a.snatPolicyCache := (h.cache b hb).trans (h.cache a ha).symm
    refine (h.applyPolicy hb res ?_).bind fun c hc => h.writeLabel hc _ _ _
    rw [getPodsMatchingObject_congr cfg w hcache]
    exact hmay

theorem seenTurn (plcynames : PolicyLabels) (matchnames : Finset String)
    {acc : Agent × List String × Finset String} (ha : inv acc.1) (name : String) :
    inv (seenTurn cfg w obj plcynames matchnames acc name).1 := by
  unfold HostSnat.seenTurn
  dsimp only
  split
  · have hdel : inv ((acc.1.getPodsMatchingObject cfg w obj name).1.foldl (fun agent uid =>
        agent.deleteSnatLocalInfo uid ((plcynames.lookup name).getD ∅) name) acc.1) :=
      foldl_invariant ha fun b uid _ hb => h.clear b uid _ name hb
    unfold Agent.deleteSnatPolicyLabelEntry
    split
    · exact hdel
    · exact h.labels _ _ hdel
  · split
    · exact ha
    · exact ha

theorem objectUpdated (ha : inv a) (hobj : obj.succeeded = false) (hmay : ∀ name ∈ a.matchingNames w obj,
      ∀ uid ∈ (a.getPodsMatchingObject cfg w obj name).1, may uid name) :
    Ends NotMissing inv (a.handleObjectUpdateForSnat cfg w obj) := by
  unfold Agent.handleObjectUpdateForSnat
  rw [if_neg (by simp [hobj])]
  -- The labels of the object are there from here on.
  generalize hb : (if (a.snatPolicyLabels obj.key).isNone then a.writeNewSnatPolicyLabel obj.key else a) = b
  have hrel : Relabelled a b := by
    rw [← hb]
    split
    · exact ⟨_, rfl⟩
    · exact Relabelled.refl a
  have hinvb : inv b := h.relabel ha hrel
  have hmayOf : ∀ c : Agent, inv c → ∀ name ∈ w.order.visit (b.matchingNames w obj),
      ∀ uid ∈ (c.getPodsMatchingObject cfg w obj name).1, may uid name := by
    intro c hc name hn
    rw [w.order.mem_visit, matchingNames_congr w hrel.cache] at hn
    rw [getPodsMatchingObject_congr cfg w ((h.cache c hc).trans (h.cache a ha).symm)]
    exact hmay name hn
  have hin : ∀ name ∈ w.order.visit (b.matchingNames w obj), name ∈ cache := by
    intro name hn
    rw [w.order.mem_visit] at hn
    rw [← h.cache b hinvb]
    exact mem_cache_of_matchingNames w hn
  dsimp only
  split
  · exact Ends.foldlM hinvb fun c name hn hc => h.freshTurn hc _ (hin name hn) (hmayOf c hc name hn)
  · generalize hr : (w.order.visit ((a.snatPolicyLabels obj.key).getD ∅).keys).foldl
      (HostSnat.seenTurn cfg w obj ((a.snatPolicyLabels obj.key).getD ∅) (b.matchingNames w obj))
      (b, [], ∅) = r
    have hinvr : inv r.1 := by
      rw [← hr]
      exact @foldl_invariant _ _ (fun acc : Agent × List String × Finset String => inv acc.1) _ _ _ hinvb
        fun acc name _ hacc => h.seenTurn _ _ hacc name
    have hmatch : ∀ c, inv c → Ends NotMissing inv ((w.order.visit (b.matchingNames w obj)).foldlM
        (HostSnat.matchTurn cfg w obj (b.matchingOf w obj) r.2.2) c) := fun c hc =>
      Ends.foldlM hc fun d name hn hd => h.matchTurn hd _ _ (hmayOf d hd name hn)
    split
    · exact (h.updateEpFiles hinvr _).bind hmatch
    · exact hmatch r.1 hinvr

omit h

end Closed

/-!
# Lookups of SNAT policies hit

`updateEpFiles` and `compare` look policies up in the cache without a check. A listed policy
has its bit in `snatPods`, whatever else goes wrong with the two maps, so deleting a policy
clears all its lists before the cache forgets it.
-/

open Runs Finmap

variable {cfg : Config} {name : String}

/-- Every listed policy has its bit and is cached. -/
structure Linked (a : Agent) : Prop where
  bit : ∀ p u r, p ∈ a.listed u r → r ∈ a.bits p u
  cached : a.Cached

theorem linked_start (poduids : Finset String) : Linked (Agent.start poduids) := by
  have hnone : ∀ u r, (Agent.start poduids).listed u r = [] := by
    intro u r
    unfold Agent.listed Agent.start
    by_cases hu : u ∈ poduids <;> simp [hu]
  refine ⟨?_, ?_⟩
  · intro p u r hp
    simp [hnone] at hp
  · intro u r p hp
    simp [hnone] at hp

theorem Linked.epFile {uid : String} {b : Agent} (h : Linked a) (hb : EpFile cfg uid a b) : Linked b := by
  obtain ⟨hpods, hrest⟩ := hb.pods
  refine ⟨?_, ?_⟩
  · intro p u r hp
    rw [bits_of_pods hpods]
    exact h.bit p u r (hb.listed hp)
  · intro u r p hp
    rw [hrest.cache]
    exact h.cached u r p (hb.listed hp)

theorem Linked.enter (h : Linked a) (hnone : a.snatPods.lookup name = none) :
    Linked { a with snatPods := a.snatPods.insert name ∅ } := by
  refine ⟨?_, h.cached⟩
  intro p u r hp
  have hr := h.bit p u r hp
  rw [bits_insert]
  by_cases hpn : p = name
  · rw [hpn, bits_of_lookup_none hnone] at hr
    exact absurd hr (Finset.notMem_empty r)
  · rw [if_neg hpn]
    exact hr

theorem Linked.put (h : Linked a) (res : Resource) (uid : String) (hname : name ∈ a.snatPolicyCache) :
    Linked (applyOne res name a uid) := by
  refine ⟨?_, ?_⟩
  · intro p u r hp
    rw [mem_bits_applyOne res name a uid (h.bit name uid res)]
    rw [mem_listed_applyOne] at hp
    exact hp.imp (h.bit p u r) id
  · intro u r p hp
    rw [(sameRest_applyOne res name a uid).cache]
    rcases (mem_listed_applyOne res name a uid p u r).mp hp with hp | ⟨rfl, -, -⟩
    · exact h.cached u r p hp
    · exact hname

theorem Linked.clear (h : Linked a) (uid : String) (res : Finset Resource) (name : String) :
    Linked (a.deleteSnatLocalInfo uid res name) := by
  have hspec := deleteSnatLocalInfo_spec a uid res name
  refine ⟨?_, ?_⟩
  · intro p u r hp
    obtain ⟨hp, hno⟩ := (hspec.listed p u r).mp hp
    rw [hspec.bits]
    exact ⟨h.bit p u r hp, fun hc => hno ⟨hc.1, hc.2.1, hc.2.2.1⟩⟩
  · intro u r p hp
    rw [hspec.rest.cache]
    exact h.cached u r p ((hspec.listed p u r).mp hp).1

theorem closed_linked (cfg : Config) (cache : Finmap fun _ : String => SnatPolicy) :
    Closed cfg cache (fun _ name => name ∈ cache) (fun a => a.snatPolicyCache = cache ∧ Linked a) where
  cache := fun _ h => h.1
  cached := fun _ h => h.2.cached
  epFile := fun _ _ _ h hb => ⟨hb.pods.2.cache.trans h.1, h.2.epFile hb⟩
  enter := fun _ _ h hnone => ⟨h.1, h.2.enter hnone⟩
  put := fun a res name uid h hname =>
    ⟨(sameRest_applyOne res name a uid).cache.trans h.1, h.2.put res uid (by rw [h.1]; exact hname)⟩
  clear := fun a uid res name h =>
    ⟨(deleteSnatLocalInfo_spec a uid res name).rest.cache.trans h.1, h.2.clear uid res name⟩
  labels := fun _ _ h => ⟨h.1, h.2.bit, h.2.cached⟩

theorem cachePolicy_ends (cfg : Config) (a : Agent) (policy : SnatPolicy) : Ends NotMissing (fun out => ∃ destIp, out =
        ({ a with snatPolicyCache :=
            a.snatPolicyCache.insert policy.name { policy with destIp := destIp } },
          { policy with destIp := destIp }))
      (a.cachePolicy cfg policy) := by
  exact (setDestIp_ends cfg policy.destIp).bind fun destIp _ => ⟨destIp, rfl⟩

theorem Linked.cachePolicy (h : Linked a) (policy : SnatPolicy) (name : String) :
    Linked { a with snatPolicyCache := a.snatPolicyCache.insert name policy } := by
  refine ⟨h.bit, ?_⟩
  intro u r p hp
  rw [mem_insert]
  exact .inr (h.cached u r p hp)

theorem linked_policyAdded (h : Linked a) (w : World) (policy : SnatPolicy) :
    Ends NotMissing Linked (a.snatPolicyAdded cfg w policy) := by
  unfold Agent.snatPolicyAdded
  split
  · exact h
  · refine (cachePolicy_ends cfg a policy).bind fun out hout => ?_
    obtain ⟨destIp, rfl⟩ := hout
    have hinv := h.cachePolicy { policy with destIp := destIp } policy.name
    refine ((closed_linked cfg _).handleSnatUpdate ⟨rfl, hinv⟩ ?_ ?_).mono fun _ hb => hb.2
    · exact lookup_insert _
    · intro r uid _
      exact mem_insert.mpr (.inl rfl)

theorem linked_policyUpdated (h : Linked a) (w : World) (oldpolicy newpolicy : SnatPolicy) :
    Ends NotMissing Linked (a.snatPolicyUpdated cfg w oldpolicy newpolicy) := by
  unfold Agent.snatPolicyUpdated
  split
  · exact h
  split
  · exact h
  refine (cachePolicy_ends cfg a newpolicy).bind fun out hout => ?_
  obtain ⟨destIp, rfl⟩ := hout
  have hinv := h.cachePolicy { newpolicy with destIp := destIp } newpolicy.name
  have hclosed := closed_linked cfg
    (a.snatPolicyCache.insert newpolicy.name { newpolicy with destIp := destIp })
  have hmem : newpolicy.name ∈
      a.snatPolicyCache.insert newpolicy.name { newpolicy with destIp := destIp } :=
    mem_insert.mpr (.inl rfl)
  dsimp only
  split
  · refine (hclosed.handleSnatUpdate ⟨rfl, hinv⟩ ?_ ?_).mono fun _ hb => hb.2
    · exact lookup_insert _
    · exact fun _ _ _ => hmem
  split
  · refine (hclosed.reselect ⟨rfl, hinv⟩ ?_ ?_).mono fun _ hb => hb.2
    · exact lookup_insert _
    · exact fun _ _ _ => hmem
  split
  · exact (hclosed.updateEpFiles ⟨rfl, hinv⟩ _).mono fun _ hb => hb.2
  · exact hinv

/-- No pod lists the policy. -/
def Unlisted (name : String) (a : Agent) : Prop := ∀ u r, name ∉ a.listed u r

/-- The lists of a deleted policy are found through its bits. -/
theorem linked_deletePolicy (h : Linked a) (order : RangeOrder String) (name : String) :
    Ends NotMissing (fun b => Linked b ∧ Unlisted name b ∧ SameRest a b) (a.deletePolicy cfg order name) := by
  unfold Agent.deletePolicy
  cases hpods : a.snatPods.lookup name with
  | none =>
    refine ⟨h, ?_, SameRest.refl a⟩
    intro u r hp
    have hr := h.bit name u r hp
    rw [bits_of_lookup_none hpods] at hr
    exact Finset.notMem_empty r hr
  | some pods =>
    have hspec := clearPolicy_spec order a name
    have hclear : Linked (a.clearPolicy order name).1 :=
      foldl_invariant h fun b uid _ hb => hb.clear uid _ name
    have hun : Unlisted name (a.clearPolicy order name).1 := by
      intro u r hp
      obtain ⟨hp, hno⟩ := (hspec.listed name u r).mp hp
      have hr := h.bit name u r hp
      exact hno ⟨rfl, mem_visit_of_bits hr, hr⟩
    have hloop : Ends NotMissing (fun b => Linked b ∧ Unlisted name b ∧ SameRest a b)
        ((a.clearPolicy order name).1.updateEpFiles cfg (a.clearPolicy order name).2) := by
      refine Ends.foldlM ⟨hclear, hun, hspec.rest⟩ fun b uid _ hb => ?_
      refine (updateEpFile_ends cfg hb.1.cached uid).mono fun c hc => ⟨hb.1.epFile hc, ?_, ?_⟩
      · exact fun u r hp => hb.2.1 u r (hc.listed hp)
      · exact hb.2.2.trans hc.pods.2
    refine hloop.bind fun b hb => ⟨⟨?_, hb.1.cached⟩, hb.2.1, hb.2.2.cache, hb.2.2.infos⟩
    intro p u r hp
    have hne : p ≠ name := by
      rintro rfl
      exact hb.2.1 u r hp
    have hr := hb.1.bit p u r hp
    change r ∈ ({ b with snatPods := b.snatPods.erase name } : Agent).bits p u
    rw [bits_erase, if_neg hne]
    exact hr

theorem linked_policyDeleted (h : Linked a) (w : World) (policy : SnatPolicy) :
    Ends NotMissing Linked (a.snatPolicyDeleted cfg w policy) := by
  refine (linked_deletePolicy h w.order policy.name).bind fun b hb => ⟨hb.1.bit, ?_⟩
  intro u r p hp
  have hne : p ≠ policy.name := by
    rintro rfl
    exact hb.2.1 u r hp
  rw [mem_erase]
  exact ⟨hne, hb.1.cached u r p hp⟩

theorem Linked.dropPods (h : Linked a) (uid name : String) :
    Linked ({ a with opflexSnatLocalInfos := a.opflexSnatLocalInfos.erase uid }.dropPod uid name) := by
  let b : Agent := { a with opflexSnatLocalInfos := a.opflexSnatLocalInfos.erase uid }
  obtain ⟨pods, heq⟩ := dropPod_eq b uid name
  have hlisted : ∀ u r, (b.dropPod uid name).listed u r = if u = uid then [] else a.listed u r := by
    intro u r
    rw [← listed_erase a uid u r, heq]
    rfl
  refine ⟨?_, ?_⟩
  · intro p u r hp
    rw [hlisted] at hp
    by_cases hu : u = uid
    · simp [hu] at hp
    · rw [if_neg hu] at hp
      rw [bits_dropPod, if_neg fun hc => hu hc.2]
      exact h.bit p u r hp
  · intro u r p hp
    rw [hlisted] at hp
    by_cases hu : u = uid
    · simp [hu] at hp
    · rw [if_neg hu] at hp
      have hcache : (b.dropPod uid name).snatPolicyCache = a.snatPolicyCache := by
        rw [heq]
      rw [hcache]
      exact h.cached u r p hp

theorem Linked.dropTurn {w : World} {obj : Obj} {resources : String → List Resource}
    {acc : Agent × List String} (h : Linked acc.1) (name : String) :
    Linked (dropTurn cfg w obj resources acc name).1 := by
  refine foldl_invariant h fun b uid _ hb => ?_
  split
  · exact foldl_invariant hb fun c res _ hc => hc.clear uid {res} name
  · exact hb.dropPods uid name

/-- The entries of a pod go with its local info. -/
theorem Linked.dropPodEntries (h : Linked a) (uid : String) : Linked (a.dropPodEntries uid) := by
  unfold Agent.dropPodEntries
  cases hinfo : a.opflexSnatLocalInfos uid with
  | none => exact h
  | some localinfo =>
    obtain ⟨pods, heq, hbits⟩ := foldl_dropPod uid (Resource.all.flatMap localinfo.snatPolicies) a
    dsimp only
    rw [heq]
    have hlisted := listed_erase { a with snatPods := pods } uid
    refine ⟨?_, ?_⟩
    · intro p u r hp
      rw [hlisted] at hp
      by_cases hu : u = uid
      · simp [hu] at hp
      · rw [if_neg hu] at hp
        have hr := hbits p u
        rw [if_neg fun hc => hu hc.2] at hr
        exact hr ▸ h.bit p u r hp
    · intro u r p hp
      rw [hlisted] at hp
      by_cases hu : u = uid
      · simp [hu] at hp
      · rw [if_neg hu] at hp
        exact h.cached u r p hp

theorem linked_objectDeleted (h : Linked a) (w : World) (obj : Obj) :
    Ends NotMissing Linked (a.handleObjectDeleteForSnat cfg w obj) := by
  unfold Agent.handleObjectDeleteForSnat
  dsimp only
  generalize hr : (w.order.visit (a.matchingNames w obj)).foldl
    (HostSnat.dropTurn cfg w obj (a.matchingOf w obj)) (a, []) = r
  have hlinked : Linked r.1 := by
    rw [← hr]
    exact @foldl_invariant _ _ (fun acc : Agent × List String => Linked acc.1) _ _ _ h
      fun acc name _ hacc => hacc.dropTurn name
  have hlabels : Linked (r.1.deleteSnatPolicyLabel obj.key) := ⟨hlinked.bit, hlinked.cached⟩
  cases obj with
  | pod pod => exact hlabels.dropPodEntries pod.uid
  | deployment dep => exact hlabels
  | service service =>
    dsimp only
    split
    · exact hlabels
    · exact ((closed_linked cfg _).updateEpFiles ⟨rfl, hlabels⟩ _).mono fun _ hb => hb.2
  | «namespace» ns => exact hlabels

theorem linked_objectUpdated (h : Linked a) (w : World) (obj : Obj) :
    Ends NotMissing Linked (a.handleObjectUpdateForSnat cfg w obj) := by
  cases hobj : obj.succeeded with
  | true =>
    unfold Agent.handleObjectUpdateForSnat
    rw [if_pos hobj]
    exact linked_objectDeleted h w obj
  | false =>
    refine ((closed_linked cfg a.snatPolicyCache).objectUpdated ⟨rfl, h⟩ hobj ?_).mono fun _ hb => hb.2
    exact fun name hn _ _ => mem_cache_of_matchingNames w hn

/-- Only the infos of nodes differ. -/
def Reinformed (a b : Agent) : Prop := ∃ infos, b = { a with opflexSnatGlobalInfos := infos }

theorem globalInfo_ends (v : GlobalInfoSpec) :
    Ends NotMissing (fun info => info.snatPolicyName = v.snatPolicyName) (globalInfo v) := by
  unfold globalInfo
  split
  · intro name he
    cases he
  · rfl

theorem reinformed_dropNodes (order : RangeOrder String) (a : Agent) (infos : GlobalInfos) :
    Reinformed a (a.dropNodes order infos) := by
  unfold Agent.dropNodes
  split
  · exact ⟨_, rfl⟩
  · exact ⟨a.opflexSnatGlobalInfos, rfl⟩

theorem nodeTurn_ends (cfg : Config) (infos : GlobalInfos) {acc : Agent × Bool} (h : Reinformed a acc.1)
    (nodename : String) : Ends NotMissing (fun out => Reinformed a out.1) (nodeTurn cfg infos acc nodename) := by
  obtain ⟨old, hold⟩ := h
  refine (Ends.mapM fun v _ => globalInfo_ends v).bind fun new _ => ?_
  split
  · exact ⟨old, hold⟩
  · refine ⟨acc.1.opflexSnatGlobalInfos.insert nodename new, ?_⟩
    rw [hold]

theorem Linked.reinformed {b : Agent} (h : Linked a) (hb : Reinformed a b) : Linked b := by
  obtain ⟨infos, rfl⟩ := hb
  exact ⟨h.bit, h.cached⟩

theorem linked_globalInfoChanged (h : Linked a) (w : World) (infos : GlobalInfos) :
    Ends NotMissing Linked (a.snatGlobalInfoChanged cfg w infos) := by
  have hloop : Ends NotMissing (fun out : Agent × Bool => Reinformed a out.1)
      ((w.order.visit infos.keys).foldlM (nodeTurn cfg infos) (a.dropNodes w.order infos, false)) :=
    @Ends.foldlM _ _ _ _ (fun out : Agent × Bool => Reinformed a out.1) _ _ _
      (reinformed_dropNodes w.order a infos) fun acc nodename _ hacc =>
        nodeTurn_ends cfg infos hacc nodename
  refine hloop.bind fun out hout => ?_
  have hlinked := h.reinformed hout
  dsimp only
  split
  · exact ((closed_linked cfg _).updateEpFiles ⟨rfl, hlinked⟩ _).mono fun _ hb => hb.2
  · exact hlinked

theorem linked_handle (cfg : Config) (h : Linked a) (w : World) (e : Event) :
    Ends NotMissing Linked (e.handle cfg w a) := by
  cases e with
  | policyAdded policy => exact linked_policyAdded h w policy
  | policyUpdated oldpolicy newpolicy => exact linked_policyUpdated h w oldpolicy newpolicy
  | policyDeleted policy => exact linked_policyDeleted h w policy
  | objectUpdated obj => exact linked_objectUpdated h w obj
  | objectDeleted obj => exact linked_objectDeleted h w obj
  | globalInfoChanged infos => exact linked_globalInfoChanged h w infos
  | globalInfoDeleted infos => exact h.reinformed ⟨_, rfl⟩
  | nodeInfoUnchanged names =>
    exact ((closed_linked cfg _).updateEpFiles ⟨rfl, h⟩ _).mono fun _ hb => hb.2

theorem linked_run (cfg : Config) (poduids : Finset String) (events : List (World × Event)) :
    Ends NotMissing Linked (run (step cfg) (.ok (Agent.start poduids)) events) := by
  refine @invariant_run _ _ (step cfg) (fun _ _ => True) (Ends NotMissing Linked) ?_ _ events
    (linked_start poduids) ?_
  · intro s e hs _
    exact hs.bind fun a ha => linked_handle cfg ha e.1 e.2
  · exact (along_of_forall _ _ fun _ _ => trivial)

/-- In every run no lookup of a policy misses, and in every state between two handlers each
policy that is listed for a pod is cached. -/
theorem snatPolicy_lookups_hit (cfg : Config) (poduids : Finset String) (events : List (World × Event)) :
    (∀ name, run (step cfg) (.ok (Agent.start poduids)) events ≠ .error (.missingPolicy name)) ∧
      ∀ a, run (step cfg) (.ok (Agent.start poduids)) events = .ok a →
        ∀ uid r, ∀ p ∈ a.listed uid r, p ∈ a.snatPolicyCache := by
  have h := linked_run cfg poduids events
  constructor
  · intro name hrun
    rw [hrun] at h
    exact h name rfl
  · intro a hrun
    exact (h.of_ok hrun).cached

end AciContainers.HostSnat
