import AciContainers.HostSnatRules

/-!
# The two directions agree while addresses are settled

`updateEpFile` removes the local info of a pod without the bits of its policies when the pod loses
its last address, and so does the deletion of an object for policies that the object itself does
not match. The two directions agree in every run that keeps away from both.
-/
namespace AciContainers.HostSnat

open Maps Index Outcomes Runs List Finmap

/-- The resources in the entry of a policy are those that the policy is listed at. -/
def Consistent (a : Agent) : Prop := ∀ p u r, r ∈ a.bits p u ↔ p ∈ a.listed u r

theorem Consistent.congr {a b : Agent} (h : Consistent a) (hpods : b.snatPods = a.snatPods)
    (hinfos : b.opflexSnatLocalInfos = a.opflexSnatLocalInfos) : Consistent b := by
  intro p u r
  rw [bits_of_pods hpods, listed_of_infos (congrFun hinfos u)]
  exact h p u r

variable {a : Agent}

theorem Consistent.linked (h : Consistent a) (hc : a.Cached) : Linked a :=
  ⟨fun p u r hp => (h p u r).mpr hp, hc⟩

theorem consistent_start (poduids : Finset String) : Consistent (Agent.start poduids) := by
  intro p u r
  have hbits : (Agent.start poduids).bits p u = ∅ :=
    bits_of_lookup_none (lookup_empty p) u
  rw [hbits]
  refine ⟨fun h => absurd h (Finset.notMem_empty r), fun h => ?_⟩
  exact (linked_start poduids).bit p u r h

variable {cfg : Config}

theorem allocated_congr {b : Agent} (h : SameRest a b) (name : String) :
    b.allocated cfg name ↔ a.allocated cfg name := by
  unfold Agent.allocated Agent.nodeInfos
  rw [h.infos]

/-- The two directions agree, and every pod has either all its policies on the node or none
and no address. `may` holds the policies that the pods have or can get. -/
structure Steady (cfg : Config) (start : Agent) (may : String → String → Prop) (a : Agent) : Prop where
  rest : SameRest start a
  consistent : Consistent a
  cached : a.Cached
  listed : ∀ p u r, p ∈ a.listed u r → may u p
  settled : ∀ u, (∀ p, may u p → start.allocated cfg p) ∨
    a.uuids u = [] ∧ ∀ p, may u p → ¬ start.allocated cfg p

section Steady

variable {start : Agent} {may : String → String → Prop} {uid : String}

/-- The local info of a pod with a listed policy is not dropped. -/
theorem Steady.listed_dropped (h : Steady cfg start may a) {localinfo : OpflexSnatLocalInfo}
    {stack : List String} (hinfo : a.opflexSnatLocalInfos uid = some localinfo)
    (hstack : ∀ p, p ∈ stack ↔ ∃ r, p ∈ localinfo.snatPolicies r) (huids : UuidsOf cfg a stack [])
    (hne : localinfo.plcyUuids ≠ []) (r : Resource) : a.listed uid r = [] := by
  have hlisted : ∀ r, a.listed uid r = localinfo.snatPolicies r := fun r => by
    simp [Agent.listed, hinfo]
  rcases h.settled uid with hall | ⟨hnil, -⟩
  · cases stack with
    | nil =>
      rw [hlisted, eq_nil_iff_forall_not_mem]
      intro p hp
      simpa using (hstack p).mpr ⟨r, hp⟩
    | cons name stack =>
      obtain ⟨r', hr'⟩ := (hstack name).mp mem_cons_self
      have hmay : may uid name := h.listed name uid r' (by rw [hlisted]; exact hr')
      have halloc := (allocated_congr h.rest name).mpr (hall name hmay)
      exact absurd rfl (huids.first name rfl halloc)
  · exact absurd (by simpa [Agent.uuids, hinfo] using hnil) hne

theorem Steady.epFile (h : Steady cfg start may a) {b : Agent} (hb : EpFile cfg uid a b) : Steady cfg start may b := by
  have hrest := h.rest.trans hb.pods.2
  have hpods := hb.pods.1
  have hcached := (h.consistent.linked h.cached).epFile hb
  cases hb with
  | same => exact h
  | dropped localinfo stack hinfo hstack huids hne =>
    have hlisted := fun u r => listed_erase a uid u r
    have hsame : ∀ u r, (if u = uid then [] else a.listed u r) = a.listed u r := by
      intro u r
      by_cases hu : u = uid
      · rw [if_pos hu, hu, h.listed_dropped hinfo hstack huids hne]
      · rw [if_neg hu]
    refine ⟨hrest, ?_, hcached.cached, fun p u r hp => h.listed p u r ?_, ?_⟩
    · intro p u r
      rw [hlisted, hsame, bits_of_pods hpods]
      exact h.consistent p u r
    · rwa [hlisted, hsame] at hp
    · intro u
      refine (h.settled u).imp id fun hno => ⟨?_, hno.2⟩
      by_cases hu : u = uid
      · simp [Agent.uuids, hu]
      · simpa [Agent.uuids, erase_other _ hu] using hno.1
  | written localinfo stack uids hinfo hstack huids hne =>
    have hlisted : ∀ u r, { a with
        opflexSnatLocalInfos := a.opflexSnatLocalInfos.put uid
          { localinfo with
            existing := false
            plcyUuids := uids } }.listed u r = a.listed u r := by
      intro u r
      by_cases hu : u = uid
      · subst hu
        simp [Agent.listed, hinfo]
      · simp [Agent.listed, put_other _ _ hu]
    refine ⟨hrest, ?_, hcached.cached, fun p u r hp => h.listed p u r ?_, ?_⟩
    · intro p u r
      rw [hlisted, bits_of_pods hpods]
      exact h.consistent p u r
    · rwa [hlisted] at hp
    · intro u
      by_cases hu : u = uid
      · subst hu
        refine (h.settled u).imp id fun hno => absurd (huids.none ?_) hne
        intro name hname
        obtain ⟨r, hr⟩ := (hstack name).mp hname
        rw [allocated_congr h.rest]
        exact hno.2 name (h.listed name u r (by simpa [Agent.listed, hinfo] using hr))
      · refine (h.settled u).imp id fun hno => ⟨?_, hno.2⟩
        simpa [Agent.uuids, put_other _ _ hu] using hno.1

variable {name : String} (h : Steady cfg start may a)
include h

theorem Steady.put (res : Resource) (hmay : may uid name) (hname : name ∈ start.snatPolicyCache) :
    Steady cfg start may (applyOne res name a uid) := by
  have hlinked := h.consistent.linked h.cached
  refine ⟨h.rest.trans (sameRest_applyOne res name a uid), ?_, ?_, ?_, ?_⟩
  · intro p u r
    rw [mem_bits_applyOne res name a uid (hlinked.bit name uid res), mem_listed_applyOne, h.consistent p u r]
  · exact (hlinked.put res uid (by rw [h.rest.cache]; exact hname)).cached
  · intro p u r hp
    rcases (mem_listed_applyOne res name a uid p u r).mp hp with hp | ⟨rfl, rfl, -⟩
    · exact h.listed p u r hp
    · exact hmay
  · intro u
    rw [uuids_applyOne]
    exact h.settled u

theorem Steady.clear (uid : String) (res : Finset Resource) (name : String) :
    Steady cfg start may (a.deleteSnatLocalInfo uid res name) := by
  have hspec := deleteSnatLocalInfo_spec a uid res name
  refine ⟨h.rest.trans hspec.rest, ?_, ?_, ?_, ?_⟩
  · intro p u r
    rw [hspec.bits, hspec.listed, h.consistent p u r]
    -- A pod with a listed policy has a local info.
    have hinfo : p ∈ a.listed u r → (a.opflexSnatLocalInfos u).isSome := by
      unfold Agent.listed
      cases a.opflexSnatLocalInfos u <;> simp
    constructor
    · rintro ⟨hp, hno⟩
      exact ⟨hp, fun hc => hno ⟨hc.1, hc.2.1, hc.2.2, hc.2.1 ▸ hinfo hp⟩⟩
    · rintro ⟨hp, hno⟩
      exact ⟨hp, fun hc => hno ⟨hc.1, hc.2.1, hc.2.2.1⟩⟩
  · exact ((h.consistent.linked h.cached).clear uid res name).cached
  · exact fun p u r hp => h.listed p u r ((hspec.listed p u r).mp hp).1
  · intro u
    rw [hspec.uuids]
    exact h.settled u

theorem Steady.enter (hnone : a.snatPods.lookup name = none) :
    Steady cfg start may { a with snatPods := a.snatPods.insert name ∅ } := by
  refine ⟨⟨h.rest.cache, h.rest.infos⟩, ?_, h.cached, h.listed, h.settled⟩
  intro p u r
  rw [bits_insert]
  have hold := h.consistent p u r
  by_cases hp : p = name
  · subst hp
    rw [bits_of_lookup_none hnone] at hold
    rw [if_pos rfl, lookup_empty]
    exact hold
  · rw [if_neg hp]
    exact hold

omit h

theorem closed_steady (cfg : Config) (start : Agent) (may : String → String → Prop) :
    Closed cfg start.snatPolicyCache (fun u p => may u p ∧ p ∈ start.snatPolicyCache) (Steady cfg start may) where
  cache := fun _ h => h.rest.cache
  cached := fun _ h => h.cached
  epFile := fun _ _ _ h hb => h.epFile hb
  enter := fun _ _ h hnone => h.enter hnone
  put := fun _ res _ _ h hname => h.put res hname.1 hname.2
  clear := fun _ uid res name h => h.clear uid res name
  labels := fun _ _ h =>
    ⟨⟨h.rest.cache, h.rest.infos⟩, h.consistent, h.cached, h.listed, h.settled⟩

end Steady

/-- The policies that a pod has, and those it may get, are all on the node; or none of them
is and the pod has no address. -/
def Settled (names : String → Prop) (may : String → String → Prop) (a : Agent) : Prop :=
  ∀ u, (∀ p, (∃ r, p ∈ a.listed u r) ∨ may u p → names p) ∨
    a.uuids u = [] ∧ ∀ p, (∃ r, p ∈ a.listed u r) ∨ may u p → ¬ names p

/-- The object matches every policy of the pods whose local infos go with it. -/
def Covered (cfg : Config) (w : World) (a : Agent) (obj : Obj) : Prop :=
  ∀ name ∈ a.matchingNames w obj, ∀ u ∈ (a.getPodsMatchingObject cfg w obj name).1,
    ∀ p r, p ∈ a.listed u r →
      p ∈ a.matchingNames w obj ∧ u ∈ (a.getPodsMatchingObject cfg w obj p).1

def StepOk (cfg : Config) (w : World) (a : Agent) : Event → Prop
  | .policyAdded policy | .policyUpdated _ policy => Settled (a.allocated cfg)
      (fun u name => name = policy.name ∧ ∃ r, u ∈ w.policyUids cfg policy r) a
  | .policyDeleted _ | .nodeInfoUnchanged _ => Settled (a.allocated cfg) (fun _ _ => False) a
  | .objectUpdated obj =>
    if obj.succeeded then Covered cfg w a obj
    else Settled (a.allocated cfg) (fun u name => name ∈ a.matchingNames w obj ∧
      u ∈ (a.getPodsMatchingObject cfg w obj name).1) a
  | .objectDeleted obj =>
    if getResourceType obj = .service then Settled (a.allocated cfg) (fun _ _ => False) a
    else Covered cfg w a obj
  | .globalInfoChanged infos => ∀ vs, infos.lookup cfg.nodeName = some vs →
      Settled (fun name => ∃ v ∈ vs, v.snatPolicyName = name) (fun _ _ => False) a
  | .globalInfoDeleted _ => True

/-- A settled agent may start a handler. -/
theorem Settled.steady {names : String → Prop} {may : String → String → Prop}
    (h : Settled names may a) (hconsistent : Consistent a) (start : Agent)
    (hlisted : start.opflexSnatLocalInfos = a.opflexSnatLocalInfos)
    (hpods : start.snatPods = a.snatPods) (hcached : start.Cached)
    (hnames : ∀ name, start.allocated cfg name ↔ names name) :
    Steady cfg start (fun u p => (∃ r, p ∈ a.listed u r) ∨ may u p) start where
  rest := SameRest.refl start
  consistent := hconsistent.congr hpods hlisted
  cached := hcached
  listed := by
    intro p u r hp
    rw [listed_of_infos (congrFun hlisted u)] at hp
    exact .inl ⟨r, hp⟩
  settled := by
    intro u
    have huuids : start.uuids u = a.uuids u := by
      unfold Agent.uuids
      rw [hlisted]
    rw [huuids]
    refine (h u).imp (fun hall p hp => (hnames p).mpr (hall p hp)) ?_
    exact fun hno => ⟨hno.1, fun p hp hal => hno.2 p hp ((hnames p).mp hal)⟩

section Handlers

variable (w : World)

/-- The state in which a policy handler goes on once the policy is cached. -/
theorem Settled.cachePolicy {may : String → String → Prop} (h : Settled (a.allocated cfg) may a)
    (hconsistent : Consistent a) (hc : a.Cached) (name : String) (policy : SnatPolicy) :
    Steady cfg { a with snatPolicyCache := a.snatPolicyCache.insert name policy }
      (fun u p => (∃ r, p ∈ a.listed u r) ∨ may u p)
      { a with snatPolicyCache := a.snatPolicyCache.insert name policy } := by
  let b : Agent := { a with snatPolicyCache := a.snatPolicyCache.insert name policy }
  have hlinked : Linked b := (hconsistent.linked hc).cachePolicy policy name
  exact h.steady hconsistent b rfl rfl hlinked.cached fun _ => Iff.rfl

theorem consistent_policyAdded (h : Consistent a) (hc : a.Cached) (policy : SnatPolicy)
    (hok : StepOk cfg w a (.policyAdded policy)) : Ends NotMissing Consistent (a.snatPolicyAdded cfg w policy) := by
  unfold Agent.snatPolicyAdded
  split
  · exact h
  refine (cachePolicy_ends cfg a policy).bind fun out hout => ?_
  obtain ⟨destIp, rfl⟩ := hout
  have hsteady := Settled.cachePolicy hok h hc policy.name { policy with destIp := destIp }
  refine ((closed_steady cfg _ _).handleSnatUpdate hsteady (lookup_insert _) ?_).mono fun _ hb => hb.consistent
  exact fun r uid hu => ⟨.inr ⟨rfl, r, hu⟩, mem_insert.mpr (.inl rfl)⟩

theorem consistent_policyUpdated (h : Consistent a) (hc : a.Cached) (oldpolicy newpolicy : SnatPolicy)
    (hok : StepOk cfg w a (.policyUpdated oldpolicy newpolicy)) :
    Ends NotMissing Consistent (a.snatPolicyUpdated cfg w oldpolicy newpolicy) := by
  unfold Agent.snatPolicyUpdated
  split
  · exact h
  split
  · exact h
  refine (cachePolicy_ends cfg a newpolicy).bind fun out hout => ?_
  obtain ⟨destIp, rfl⟩ := hout
  have hsteady := Settled.cachePolicy hok h hc newpolicy.name { newpolicy with destIp := destIp }
  dsimp only
  split
  · refine ((closed_steady cfg _ _).handleSnatUpdate hsteady (lookup_insert _) ?_).mono fun _ hb => hb.consistent
    exact fun r uid hu => ⟨.inr ⟨rfl, r, hu⟩, mem_insert.mpr (.inl rfl)⟩
  split
  · refine ((closed_steady cfg _ _).reselect hsteady (lookup_insert _) ?_).mono fun _ hb => hb.consistent
    exact fun r uid hu => ⟨.inr ⟨rfl, r, hu⟩, mem_insert.mpr (.inl rfl)⟩
  split
  · exact ((closed_steady cfg _ _).updateEpFiles hsteady _).mono fun _ hb => hb.consistent
  · exact hsteady.consistent

theorem consistent_policyDeleted (h : Consistent a) (hc : a.Cached) (policy : SnatPolicy)
    (hok : StepOk cfg w a (.policyDeleted policy)) : Ends NotMissing Consistent (a.snatPolicyDeleted cfg w policy) := by
  have hsteady := Settled.steady hok h a rfl rfl hc fun _ => Iff.rfl
  have hclosed := closed_steady cfg a fun u p => (∃ r, p ∈ a.listed u r) ∨ False
  -- The other policies keep agreeing, and the deleted one loses its entry.
  have hother : Ends NotMissing (fun b => (∀ u, b.bits policy.name u = ∅) ∧
      ∀ p u r, p ≠ policy.name → (r ∈ b.bits p u ↔ p ∈ b.listed u r))
      (a.deletePolicy cfg w.order policy.name) := by
    unfold Agent.deletePolicy
    cases hpods : a.snatPods.lookup policy.name with
    | none => exact ⟨bits_of_lookup_none hpods, fun p u r _ => h p u r⟩
    | some pods =>
      refine (hclosed.updateEpFiles (hclosed.clearPolicy hsteady w.order policy.name) _).bind
        fun b hb => ⟨fun u => ?_, fun p u r hp => ?_⟩
      · change ({ b with snatPods := b.snatPods.erase policy.name } : Agent).bits policy.name u = ∅
        rw [bits_erase, if_pos rfl]
      · change r ∈ ({ b with snatPods := b.snatPods.erase policy.name } : Agent).bits p u ↔ _
        rw [bits_erase, if_neg hp]
        exact hb.consistent p u r
  refine ((linked_deletePolicy (h.linked hc) w.order policy.name).and hother).bind fun b hb => ?_
  intro p u r
  change r ∈ b.bits p u ↔ p ∈ b.listed u r
  by_cases hp : p = policy.name
  · rw [hp, hb.2.1 u]
    exact ⟨fun hr => absurd hr (Finset.notMem_empty r), fun hl => absurd hl (hb.1.2.1 u r)⟩
  · exact hb.2.2 p u r hp

/-- Local infos of pods went, and their entries at the given policies. -/
structure Dropped (pairs : List (String × String)) (a b : Agent) : Prop where
  rest : SameRest a b
  listed : ∀ p u r, p ∈ b.listed u r ↔ p ∈ a.listed u r ∧ ∀ name, (name, u) ∉ pairs
  bits : ∀ p u r, r ∈ b.bits p u ↔ r ∈ a.bits p u ∧ (p, u) ∉ pairs

theorem Dropped.nil (a : Agent) : Dropped [] a a := ⟨SameRest.refl a, by simp, by simp⟩

theorem Dropped.append {xs ys : List (String × String)} {a b c : Agent} (h : Dropped xs a b)
    (h' : Dropped ys b c) : Dropped (xs ++ ys) a c where
  rest := h.rest.trans h'.rest
  listed := by
    intro p u r
    simp [h'.listed, h.listed, List.mem_append, not_or, forall_and, and_assoc]
  bits := by
    intro p u r
    simp [h'.bits, h.bits, List.mem_append, not_or, and_assoc]

theorem dropped_one (a : Agent) (uid name : String) : Dropped [(name, uid)] a
      ({ a with opflexSnatLocalInfos := a.opflexSnatLocalInfos.erase uid }.dropPod uid name) := by
  let b : Agent := { a with opflexSnatLocalInfos := a.opflexSnatLocalInfos.erase uid }
  obtain ⟨pods, heq⟩ := dropPod_eq b uid name
  refine ⟨by rw [show _ = _ from heq]; exact ⟨rfl, rfl⟩, ?_, ?_⟩
  · intro p u r
    rw [show _ = _ from heq]
    change p ∈ b.listed u r ↔ _
    rw [listed_erase]
    by_cases hu : u = uid <;> simp [hu]
  · intro p u r
    rw [bits_dropPod]
    change r ∈ (if p = name ∧ u = uid then ∅ else a.bits p u) ↔ _
    by_cases hp : p = name ∧ u = uid <;> simp [hp]

theorem dropped_uids (name : String) (uids : List String) (a : Agent) :
    Dropped (uids.map fun uid => (name, uid)) a (uids.foldl (fun agent uid =>
      { agent with opflexSnatLocalInfos := agent.opflexSnatLocalInfos.erase uid }.dropPod uid name) a) := by
  induction uids generalizing a with
  | nil => exact Dropped.nil a
  | cons uid uids ih => exact (dropped_one a uid name).append (ih _)

/-- What the turns of a deleted object that is no service leave. -/
theorem dropped_turns {obj : Obj} (hobj : getResourceType obj ≠ .service)
    (resources : String → List Resource) (names : List String) {acc : Agent × List String}
    (hcache : acc.1.snatPolicyCache = a.snatPolicyCache) : Dropped (names.flatMap fun name =>
        (a.getPodsMatchingObject cfg w obj name).1.map fun uid => (name, uid))
      acc.1 (names.foldl (dropTurn cfg w obj resources) acc).1 := by
  induction names generalizing acc with
  | nil => exact Dropped.nil acc.1
  | cons name names ih =>
    have hone : Dropped ((a.getPodsMatchingObject cfg w obj name).1.map fun uid => (name, uid))
        acc.1 (dropTurn cfg w obj resources acc name).1 := by
      unfold dropTurn
      simp only [hobj, if_false, getPodsMatchingObject_congr cfg w hcache]
      exact dropped_uids name _ acc.1
    exact hone.append (ih (hone.rest.cache.trans hcache))

variable {obj : Obj}

/-- Where the object matches all policies of its pods, no entry is left behind. -/
theorem Covered.turns (h : Covered cfg w a obj) (hconsistent : Consistent a)
    (hobj : getResourceType obj ≠ .service) (resources : String → List Resource) :
    Consistent ((w.order.visit (a.matchingNames w obj)).foldl (dropTurn cfg w obj resources) (a, [])).1 := by
  have hspec := @dropped_turns a cfg w obj hobj resources (w.order.visit (a.matchingNames w obj))
    (a, []) rfl
  have hmem : ∀ p u, ((p, u) ∈ (w.order.visit (a.matchingNames w obj)).flatMap fun name =>
      (a.getPodsMatchingObject cfg w obj name).1.map fun uid => (name, uid)) ↔
      p ∈ a.matchingNames w obj ∧ u ∈ (a.getPodsMatchingObject cfg w obj p).1 := by
    intro p u
    simp only [mem_flatMap, mem_map, Prod.mk.injEq, w.order.mem_visit]
    constructor
    · rintro ⟨name, hn, uid, hu, rfl, rfl⟩
      exact ⟨hn, hu⟩
    · rintro ⟨hn, hu⟩
      exact ⟨p, hn, u, hu, rfl, rfl⟩
  intro p u r
  rw [hspec.bits, hspec.listed, hconsistent p u r]
  refine and_congr_right fun hp => ⟨fun hno name hin => ?_, fun hno => hno p⟩
  obtain ⟨hn, hu⟩ := (hmem name u).mp hin
  exact hno ((hmem p u).mpr (h name hn u hu p r hp))

variable (h : Consistent a)
include h

theorem Consistent.dropPodEntries (uid : String) : Consistent (a.dropPodEntries uid) := by
  unfold Agent.dropPodEntries
  cases hinfo : a.opflexSnatLocalInfos uid with
  | none => exact h
  | some localinfo =>
    obtain ⟨pods, heq, hbits⟩ := foldl_dropPod uid (Resource.all.flatMap localinfo.snatPolicies) a
    dsimp only
    rw [heq]
    intro p u r
    rw [listed_erase { a with snatPods := pods } uid]
    change r ∈ ({ a with snatPods := pods } : Agent).bits p u ↔ p ∈ if u = uid then [] else a.listed u r
    rw [hbits]
    by_cases hu : u = uid
    · subst hu
      -- Every resource in an entry of the pod is one that the policy is listed at.
      have hin : r ∈ a.bits p u → p ∈ Resource.all.flatMap localinfo.snatPolicies := by
        intro hr
        have hp := (h p u r).mp hr
        rw [Agent.listed, hinfo] at hp
        exact mem_flatMap.mpr ⟨r, Resource.mem_all r, hp⟩
      by_cases hp : p ∈ Resource.all.flatMap localinfo.snatPolicies
      · simp [hp]
      · simp [hp, mt hin hp]
    · simp only [hu, and_false, if_false]
      exact h p u r

theorem consistent_objectDropped (hobj : getResourceType obj ≠ .service) (hok : Covered cfg w a obj) :
    Ends NotMissing Consistent (a.handleObjectDeleteForSnat cfg w obj) := by
  have hturns := hok.turns w h hobj (a.matchingOf w obj)
  have hlabels := hturns.congr (b := ((w.order.visit (a.matchingNames w obj)).foldl
    (dropTurn cfg w obj (a.matchingOf w obj)) (a, [])).1.deleteSnatPolicyLabel obj.key) rfl rfl
  cases obj with
  | pod pod => exact hlabels.dropPodEntries pod.uid
  | deployment dep => exact hlabels
  | service service => exact absurd rfl hobj
  | «namespace» ns => exact hlabels

theorem consistent_objectDeleted (hc : a.Cached) (obj : Obj) (hok : StepOk cfg w a (.objectDeleted obj)) :
    Ends NotMissing Consistent (a.handleObjectDeleteForSnat cfg w obj) := by
  by_cases hobj : getResourceType obj = .service
  · rw [StepOk, if_pos hobj] at hok
    have hclosed := closed_steady cfg a fun u p => (∃ r, p ∈ a.listed u r) ∨ False
    have hsteady := Settled.steady hok h a rfl rfl hc fun _ => Iff.rfl
    have hturns : Steady cfg a (fun u p => (∃ r, p ∈ a.listed u r) ∨ False)
        ((w.order.visit (a.matchingNames w obj)).foldl
          (dropTurn cfg w obj (a.matchingOf w obj)) (a, [])).1 := by
      refine @foldl_invariant _ _ (fun acc : Agent × List String =>
        Steady cfg a (fun u p => (∃ r, p ∈ a.listed u r) ∨ False) acc.1) _ _ _ hsteady ?_
      intro acc name _ hacc
      refine foldl_invariant hacc fun b uid _ hb => ?_
      rw [if_pos hobj]
      exact foldl_invariant hb fun c res _ hc => hc.clear uid {res} name
    unfold Agent.handleObjectDeleteForSnat
    dsimp only
    generalize (w.order.visit (a.matchingNames w obj)).foldl
      (dropTurn cfg w obj (a.matchingOf w obj)) (a, []) = r at hturns ⊢
    have hlabels := hclosed.relabel hturns
      (show Relabelled r.1 (r.1.deleteSnatPolicyLabel obj.key) from ⟨_, rfl⟩)
    cases obj with
    | service service =>
      dsimp only
      split
      · exact hlabels.consistent
      · exact (hclosed.updateEpFiles hlabels _).mono fun _ hb => hb.consistent
    | pod pod => cases hobj
    | deployment dep => cases hobj
    | «namespace» ns => cases hobj
  · rw [StepOk, if_neg hobj] at hok
    exact consistent_objectDropped w h hobj hok

theorem consistent_objectUpdated (hc : a.Cached) (obj : Obj) (hok : StepOk cfg w a (.objectUpdated obj)) :
    Ends NotMissing Consistent (a.handleObjectUpdateForSnat cfg w obj) := by
  cases hobj : obj.succeeded with
  | true =>
    rw [StepOk, if_pos hobj] at hok
    have hpod : getResourceType obj ≠ .service := by
      cases obj <;> simp_all [Obj.succeeded, getResourceType]
    unfold Agent.handleObjectUpdateForSnat
    rw [if_pos hobj]
    exact consistent_objectDropped w h hpod hok
  | false =>
    rw [StepOk, if_neg (by simp [hobj])] at hok
    have hsteady := Settled.steady hok h a rfl rfl hc fun _ => Iff.rfl
    refine ((closed_steady cfg a _).objectUpdated hsteady hobj ?_).mono fun _ hb => hb.consistent
    exact fun name hn uid hu => ⟨.inr ⟨hn, hu⟩, mem_cache_of_matchingNames w hn⟩

omit h

/-- Once the own node changed, its infos are those of the object. -/
def OwnNode (cfg : Config) (infos : GlobalInfos) (acc : Agent × Bool) : Prop :=
  acc.2 = true → ∃ vs, infos.lookup cfg.nodeName = some vs ∧
    ∀ name, acc.1.allocated cfg name ↔ ∃ v ∈ vs, v.snatPolicyName = name

theorem map_names {vs : List GlobalInfoSpec} {new : List OpflexSnatGlobalInfo}
    (h : List.Forall₂ (fun v info => info.snatPolicyName = v.snatPolicyName) vs new) :
    new.map OpflexSnatGlobalInfo.snatPolicyName = vs.map GlobalInfoSpec.snatPolicyName := by
  induction h with
  | nil => rfl
  | cons hv _ ih => rw [map_cons, map_cons, hv, ih]

theorem ownNode_nodeTurn {infos : GlobalInfos} {acc : Agent × Bool} (h : OwnNode cfg infos acc)
    {nodename : String} (hin : nodename ∈ infos) :
    Ends NotMissing (OwnNode cfg infos) (nodeTurn cfg infos acc nodename) := by
  refine (Ends.mapM fun v _ => globalInfo_ends v).bind fun new hnew => ?_
  split
  · exact h
  obtain ⟨vs, hvs⟩ := mem_iff.mp hin
  rw [hvs, Option.getD_some] at hnew
  by_cases hnode : nodename = cfg.nodeName
  · subst hnode
    refine fun _ => ⟨vs, hvs, fun name => ?_⟩
    have hmem := congrArg (name ∈ ·) (map_names hnew)
    simpa [Agent.allocated, Agent.nodeInfos] using hmem
  · intro hflag
    obtain ⟨vs, hvs, hnames⟩ := h (by simpa [hnode] using hflag)
    refine ⟨vs, hvs, fun name => ?_⟩
    rw [← hnames name, Agent.allocated, Agent.allocated, Agent.nodeInfos, Agent.nodeInfos,
      lookup_insert_of_ne _ (Ne.symm hnode)]

theorem consistent_globalInfoChanged (h : Consistent a) (hc : a.Cached) (infos : GlobalInfos)
    (hok : StepOk cfg w a (.globalInfoChanged infos)) :
    Ends NotMissing Consistent (a.snatGlobalInfoChanged cfg w infos) := by
  have hloop : Ends NotMissing (fun out : Agent × Bool => Reinformed a out.1 ∧ OwnNode cfg infos out)
      ((w.order.visit infos.keys).foldlM (nodeTurn cfg infos) (a.dropNodes w.order infos, false)) := by
    refine @Ends.foldlM _ _ _ _ (fun out : Agent × Bool => Reinformed a out.1 ∧ OwnNode cfg infos out)
      _ _ _ ⟨reinformed_dropNodes w.order a infos, by simp [OwnNode]⟩ ?_
    intro acc nodename hin hacc
    rw [w.order.mem_visit, Finmap.mem_keys] at hin
    exact (nodeTurn_ends cfg infos hacc.1 nodename).and (ownNode_nodeTurn hacc.2 hin)
  refine hloop.bind fun out hout => ?_
  obtain ⟨⟨agent, updateLocalInfo⟩, rfl⟩ : ∃ x, x = out := ⟨out, rfl⟩
  obtain ⟨⟨new, rfl⟩, hown⟩ := hout
  dsimp only
  split
  · next hflag =>
    obtain ⟨vs, hvs, hnames⟩ := hown hflag
    have hsteady := (hok vs hvs).steady h { a with opflexSnatGlobalInfos := new } rfl rfl hc hnames
    exact ((closed_steady cfg _ _).updateEpFiles hsteady _).mono fun _ hb => hb.consistent
  · exact h.congr rfl rfl

end Handlers

theorem consistent_handle {w : World} {e : Event} (h : Consistent a) (hc : a.Cached)
    (hok : StepOk cfg w a e) : Ends NotMissing Consistent (e.handle cfg w a) := by
  cases e with
  | policyAdded policy => exact consistent_policyAdded w h hc policy hok
  | policyUpdated oldpolicy newpolicy => exact consistent_policyUpdated w h hc oldpolicy newpolicy hok
  | policyDeleted policy => exact consistent_policyDeleted w h hc policy hok
  | objectUpdated obj => exact consistent_objectUpdated w h hc obj hok
  | objectDeleted obj => exact consistent_objectDeleted w h hc obj hok
  | globalInfoChanged infos => exact consistent_globalInfoChanged w h hc infos hok
  | globalInfoDeleted infos => exact h.congr rfl rfl
  | nodeInfoUnchanged names =>
    have hsteady := Settled.steady hok h a rfl rfl hc fun _ => Iff.rfl
    exact ((closed_steady cfg a _).updateEpFiles hsteady _).mono fun _ hb => hb.consistent

/-- The step meets its condition unless the agent has stopped. -/
def RunOk (cfg : Config) (s : Except Fault Agent) (e : World × Event) : Prop :=
  ∀ a, s = .ok a → StepOk cfg e.1 a e.2

/-- In every run whose steps meet the condition, the two directions agree. -/
theorem snatIndex_consistent (cfg : Config) (poduids : Finset String) (events : List (World × Event))
    (hok : Along (step cfg) (RunOk cfg) (.ok (Agent.start poduids)) events) (a : Agent)
    (hrun : run (step cfg) (.ok (Agent.start poduids)) events = .ok a) (p u : String) (r : Resource) :
    r ∈ a.bits p u ↔ p ∈ a.listed u r := by
  have h : Ends NotMissing (fun b => Consistent b ∧ Linked b)
      (run (step cfg) (.ok (Agent.start poduids)) events) := by
    refine @invariant_run _ _ (step cfg) (RunOk cfg)
      (Ends NotMissing fun b => Consistent b ∧ Linked b) ?_ _ events
      ⟨consistent_start poduids, linked_start poduids⟩ hok
    intro s e hs hstep
    cases s with
    | error f => exact hs
    | ok b =>
      exact (consistent_handle hs.1 hs.2.cached (hstep b rfl)).and (linked_handle cfg hs.2 e.1 e.2)
  exact (h.of_ok hrun).1 p u r

def Resource.order : RangeOrder Resource where
  visit keys := Resource.all.filter fun r => r ∈ keys
  nodup keys := List.Nodup.filter _ (by decide)
  mem_visit keys r := by simp [Resource.mem_all]

def nodeConfig : Config := ⟨"node-1", SliceSort.insertion Fault⟩

def onePod : World where
  pods := [⟨"default", "web", "uid-1", [], "node-1", false⟩]
  deployments := []
  services := []
  namespaces := []
  depPods := newPodSelectorIndex
  opflexEps := {"uid-1"}
  order := RangeOrder.sorted
  resources := Resource.order

def clusterPolicy : SnatPolicy := ⟨"snat", .ready, ["10.4.4.7"], [], ⟨none, ""⟩⟩

def nodeInfo : GlobalInfoSpec := ⟨"10.4.4.7", "00:00:00:00:00:01", [⟨5000, 7999⟩], "snat-uid", "snat"⟩

theorem runOk_clusterPolicy : RunOk nodeConfig (.ok (Agent.start ∅)) (onePod, .policyAdded clusterPolicy) := by
  intro a ha u
  cases ha
  exact .inr ⟨rfl, fun p _ hp => by simp [Agent.allocated, Agent.nodeInfos, Agent.start] at hp⟩

/-- Only the one policy can be listed, and the node gets an address for it. -/
theorem runOk_nodeInfo : RunOk nodeConfig (step nodeConfig (.ok (Agent.start ∅)) (onePod, .policyAdded clusterPolicy))
      (onePod, .globalInfoChanged (singleton "node-1" [nodeInfo])) := by
  intro a ha vs hvs u
  have hlinked := linked_run nodeConfig ∅ [(onePod, .policyAdded clusterPolicy)]
  have hcached := (hlinked.of_ok ha).cached
  have hkeys : a.snatPolicyCache.keys = {"snat"} := by
    have hmap : (step nodeConfig (.ok (Agent.start ∅)) (onePod, .policyAdded clusterPolicy)).map
        (fun b => b.snatPolicyCache.keys) = .ok {"snat"} := by
      with_unfolding_all rfl
    rw [ha] at hmap
    exact Except.ok.inj hmap
  obtain rfl : [nodeInfo] = vs := Option.some.inj hvs
  refine .inl fun p hp => ⟨nodeInfo, mem_singleton_self _, ?_⟩
  obtain ⟨r, hr⟩ := hp.resolve_right id
  have hin := mem_keys.mpr (hcached u r p hr)
  rw [hkeys, Finset.mem_singleton] at hin
  exact hin.symm

theorem snatIndex_consistent_cluster : ∃ a, run (step nodeConfig) (.ok (Agent.start ∅))
        [(onePod, .policyAdded clusterPolicy), (onePod, .globalInfoChanged (singleton "node-1" [nodeInfo]))] = .ok a ∧
      a.uuids "uid-1" = ["snat-uid"] ∧ a.bits "snat" "uid-1" = {.cluster} ∧
      ∀ p u r, r ∈ a.bits p u ↔ p ∈ a.listed u r := by
  refine ⟨_, by with_unfolding_all rfl, by decide +kernel, by decide +kernel, ?_⟩
  refine snatIndex_consistent nodeConfig ∅ [(onePod, .policyAdded clusterPolicy),
    (onePod, .globalInfoChanged (singleton "node-1" [nodeInfo]))] ?_ _ (by with_unfolding_all rfl)
  exact ⟨runOk_clusterPolicy, runOk_nodeInfo, trivial⟩

/-- The node loses its addresses, and the next event of the pod drops its local info but not
the entry of the policy. -/
theorem snatIndex_consistent_fails : ∃ a, run (step nodeConfig) (.ok (Agent.start ∅))
        [(onePod, .policyAdded clusterPolicy), (onePod, .globalInfoChanged (singleton "node-1" [nodeInfo])),
          (onePod, .globalInfoChanged ∅),
          (onePod, .objectUpdated (.pod ⟨"default", "web", "uid-1", [], "node-1", false⟩))] = .ok a ∧
      a.bits "snat" "uid-1" = {.cluster} ∧ a.listed "uid-1" .cluster = [] := by
  refine ⟨_, by with_unfolding_all rfl, by decide +kernel, by decide +kernel⟩

end AciContainers.HostSnat
