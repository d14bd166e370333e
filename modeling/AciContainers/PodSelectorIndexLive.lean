import AciContainers.NetworkPolicy

/-!
# Pods without an address in the index

An index with a pod hash leaves out pods whose hash is empty, but only where the event is
about the pod: when a selector object or its namespaces change, the pods are listed from the
store whatever their hash. As long as no such listing finds a pod without a hash, the index
behaves as one over the pods that have one.
-/
namespace AciContainers.Index

open Labels Maps Relations Runs List

variable {Obj : Type}

/-- The pod has a hash, or the index has no hash function. -/
def Funcs.live (fn : Funcs Obj) (pod : Pod) : Bool := !(fn.podHashFunc.isSome && fn.podHash pod == "")

def Store.live (fn : Funcs Obj) (store : Store Obj) : Store Obj :=
  { store with pods := store.pods.filter fn.live }

/-- Every stored pod that the object selects is live. -/
def SelectsLive (fn : Funcs Obj) (store : Store Obj) (obj : Obj) : Prop :=
  ∀ pod ∈ store.pods, (getObjNamespaces fn store.namespaces obj).selectsPod pod = true →
    fn.live pod = true

/-- The objects whose pods the event lists select live pods only. -/
def ListsLive (fn : Funcs Obj) (σ : State Obj) (e : Event Obj) : Prop :=
  match e with
  | .updateNamespace _ _ | .deleteNamespace _ _ => ∀ obj ∈ σ.store.objs,
      getObjNamespaces fn (e.store fn σ.store).namespaces obj ≠
        getObjNamespaces fn σ.store.namespaces obj → SelectsLive fn (e.store fn σ.store) obj
  | .updateSelectorObj obj | .updateSelectorObjNoCallback obj => SelectsLive fn σ.store obj
  | _ => True

instance (fn : Funcs Obj) (store : Store Obj) (obj : Obj) : Decidable (SelectsLive fn store obj) :=
  inferInstanceAs (Decidable (∀ _ ∈ _, _))

instance (fn : Funcs Obj) (σ : State Obj) (e : Event Obj) : Decidable (ListsLive fn σ e) :=
  match e with
  | .updateNamespace _ _ | .deleteNamespace _ _ => inferInstanceAs (Decidable (∀ _ ∈ _, _))
  | .updateSelectorObj obj | .updateSelectorObjNoCallback obj =>
    inferInstanceAs (Decidable (SelectsLive fn σ.store obj))
  | .updatePod _ | .updatePodNoCallback _ | .deletePod _ | .deleteSelectorObj _ => .isTrue trivial

section Store

variable (fn : Funcs Obj) (store : Store Obj) {pod : Pod}

theorem live_setPod (h : fn.live pod) : (store.setPod pod).live fn = (store.live fn).setPod pod := by
  simp [Store.live, Store.setPod, h, filter_filter, Bool.and_comm]

theorem live_setPod_of_not (h : fn.live pod = false) : (store.setPod pod).live fn = (store.live fn).removePod pod := by
  simp [Store.live, Store.setPod, Store.removePod, h, Bool.and_comm]

theorem live_removePod (pod : Pod) : (store.removePod pod).live fn = (store.live fn).removePod pod := by
  simp [Store.live, Store.removePod, filter_filter, Bool.and_comm]

variable {fn store}

theorem listedPods_live {obj : Obj} (hn : (getObjNamespaces fn store.namespaces obj).Named)
    (h : SelectsLive fn store obj) : listedPods (store.live fn).pods (getObjNamespaces fn store.namespaces obj) =
      listedPods store.pods (getObjNamespaces fn store.namespaces obj) := by
  ext p
  rw [mem_listedPods hn, mem_listedPods hn]
  constructor
  · rintro ⟨pod, hpod, hk, hs⟩
    exact ⟨pod, (mem_filter.mp hpod).1, hk, hs⟩
  · rintro ⟨pod, hpod, hk, hs⟩
    exact ⟨pod, mem_filter.mpr ⟨hpod, h pod hpod hs⟩, hk, hs⟩

end Store

theorem updateSelectorObjForNs_congr (i : PodSelectorIndex) {pods pods' : List Pod} (objkey : String)
    {namespaces : NsMap} (h : listedPods pods' namespaces = listedPods pods namespaces) :
    i.updateSelectorObjForNs pods' objkey namespaces = i.updateSelectorObjForNs pods objkey namespaces := by
  unfold PodSelectorIndex.updateSelectorObjForNs
  rw [h]

variable {fn : Funcs Obj} {store : Store Obj}

/-- A turn lists the pods only if the namespaces of its object changed. -/
theorem refreshObj_live {acc : PodSelectorIndex × Callbacks} {obj : Obj}
    (hn : (getObjNamespaces fn store.namespaces obj).Named)
    (h : acc.1.objNsIndex.lookup (fn.getKey obj) ≠ some (getObjNamespaces fn store.namespaces obj) →
      SelectsLive fn store obj) : PodSelectorIndex.refreshObj fn (store.live fn) acc obj =
      PodSelectorIndex.refreshObj fn store acc obj := by
  unfold PodSelectorIndex.refreshObj
  have hns : (store.live fn).namespaces = store.namespaces := rfl
  by_cases hs : acc.1.objNsIndex.lookup (fn.getKey obj) =
      some (getObjNamespaces fn store.namespaces obj)
  · simp [hns, hs]
  · simp [hns, hs, updateSelectorObjForNs_congr acc.1 (fn.getKey obj) (listedPods_live hn (h hs))]

theorem refresh_live (order : List Obj) (acc : PodSelectorIndex × Callbacks) (hnd : (order.map fn.getKey).Nodup)
    (hn : ∀ obj ∈ order, (getObjNamespaces fn store.namespaces obj).Named) (h : ∀ obj ∈ order,
      acc.1.objNsIndex.lookup (fn.getKey obj) ≠ some (getObjNamespaces fn store.namespaces obj) →
        SelectsLive fn store obj) : order.foldl (PodSelectorIndex.refreshObj fn (store.live fn)) acc =
      order.foldl (PodSelectorIndex.refreshObj fn store) acc := by
  induction order generalizing acc with
  | nil => rfl
  | cons obj order ih =>
    rw [map_cons, nodup_cons] at hnd
    rw [forall_mem_cons] at hn h
    rw [foldl_cons, foldl_cons, refreshObj_live hn.1 h.1]
    refine ih _ hnd.2 hn.2 fun x hx hne => h.2 x hx ?_
    -- The turns of other objects leave the entry of this one.
    have hkey : fn.getKey x ≠ fn.getKey obj := fun e => hnd.1 (e ▸ mem_map_of_mem hx)
    rwa [lookup_refreshObj, if_neg hkey] at hne

/-- The index is right for the store of live pods, and pods have one entry each. -/
structure LiveInv (fn : Funcs Obj) (σ : State Obj) : Prop where
  inv : Inv fn ⟨σ.store.live fn, σ.index⟩
  podKeys : (σ.store.pods.map podKey).Nodup

theorem nodup_setPod (h : (store.pods.map podKey).Nodup) (pod : Pod) :
    ((store.setPod pod).pods.map podKey).Nodup ∧ ((store.removePod pod).pods.map podKey).Nodup := by
  have hf : ((store.pods.filter fun p => podKey p ≠ podKey pod).map podKey).Nodup :=
    h.sublist (filter_sublist.map _)
  refine ⟨?_, hf⟩
  simp only [Store.setPod, map_cons, nodup_cons]
  refine ⟨?_, hf⟩
  simp

variable {σ : State Obj}

theorem LiveInv.updatePod (h : LiveInv fn σ) (pod : Pod) :
    LiveInv fn ⟨σ.store.setPod pod, (σ.index.updatePodNoCallback fn pod).1⟩ := by
  refine ⟨?_, (nodup_setPod h.podKeys pod).1⟩
  cases hl : fn.live pod with
  | true =>
    have hhash : ¬ (fn.podHashFunc.isSome && fn.podHash pod == "") := by
      rw [Funcs.live, Bool.not_eq_true'] at hl
      rw [hl]
      exact Bool.false_ne_true
    rw [live_setPod fn σ.store hl]
    exact h.inv.updatePod (by rw [PodSelectorIndex.newCol, if_neg hhash])
  | false =>
    have hhash : (fn.podHashFunc.isSome && fn.podHash pod == "") := by
      simpa [Funcs.live] using hl
    have hdel : (σ.index.updatePodNoCallback fn pod).1 = (σ.index.deletePod pod).1 := by
      rw [PodSelectorIndex.updatePodNoCallback, if_pos hhash]
    rw [live_setPod_of_not fn σ.store hl, hdel]
    exact h.inv.deletePod pod

theorem LiveInv.updateSelectorObj (h : LiveInv fn σ) (obj : Obj)
    (hn : ∀ selector ∈ fn.getPodSelector obj, selector.ns ≠ some "")
    (hl : SelectsLive fn σ.store obj) : LiveInv fn ⟨σ.store.setObj fn obj,
      (σ.index.updateSelectorObjNoCallback fn (σ.store.setObj fn obj) obj).1⟩ := by
  refine ⟨?_, h.podKeys⟩
  have hnamed : (getObjNamespaces fn σ.store.namespaces obj).Named :=
    named_getObjNamespaces h.inv.named.namespaces hn
  have hrow : (σ.index.updateSelectorObjNoCallback fn ((σ.store.live fn).setObj fn obj) obj).1 =
      (σ.index.updateSelectorObjNoCallback fn (σ.store.setObj fn obj) obj).1 := by
    have hcongr := congrArg Prod.fst
      (updateSelectorObjForNs_congr σ.index (fn.getKey obj) (listedPods_live hnamed hl))
    exact hcongr
  rw [← hrow]
  exact h.inv.updateSelectorObj obj hn

theorem LiveInv.refresh (h : LiveInv fn σ) (store' : Store Obj) (ho : store'.objs = σ.store.objs)
    (hpods : store'.pods = σ.store.pods) (hn : ∀ n ∈ store'.namespaces, n.name ≠ "")
    {order : List Obj} (hp : order.Perm σ.store.objs)
    (hl : ∀ obj ∈ σ.store.objs, getObjNamespaces fn store'.namespaces obj ≠
      getObjNamespaces fn σ.store.namespaces obj → SelectsLive fn store' obj) :
    LiveInv fn ⟨store', (σ.index.updateNamespace fn store' order).1⟩ := by
  refine ⟨?_, by rw [hpods]; exact h.podKeys⟩
  have hnamed : ∀ obj ∈ order, (getObjNamespaces fn store'.namespaces obj).Named :=
    fun obj hobj => named_getObjNamespaces hn (h.inv.named.objs obj (hp.mem_iff.mp hobj))
  have hloop : order.foldl (PodSelectorIndex.refreshObj fn (store'.live fn)) (σ.index, ⟨∅, ∅⟩) =
      order.foldl (PodSelectorIndex.refreshObj fn store') (σ.index, ⟨∅, ∅⟩) := by
    refine refresh_live order _ ((hp.map fn.getKey).nodup_iff.mpr h.inv.keys) hnamed ?_
    intro obj hobj hne
    refine hl obj (hp.mem_iff.mp hobj) fun he => hne ?_
    rw [he]
    exact h.inv.ns.present obj (hp.mem_iff.mp hobj)
  have hstep := h.inv.refresh (store'.live fn) ho
    (show (store'.live fn).pods = (σ.store.live fn).pods by simp only [Store.live, hpods]) hn hp
  unfold PodSelectorIndex.updateNamespace at hstep ⊢
  rw [← hloop]
  exact hstep

theorem liveInv_step (fn : Funcs Obj) (σ : State Obj) (e : Event Obj) (h : LiveInv fn σ)
    (he : (Listed σ e ∧ NamesNamespaces fn e) ∧ ListsLive fn σ e) : LiveInv fn (step fn σ e) := by
  obtain ⟨⟨hlist, hn⟩, hl⟩ := he
  cases e with
  | updateNamespace ns order =>
    exact h.refresh (σ.store.setNamespace ns) rfl rfl (names_setNamespace h.inv.named.namespaces hn) hlist hl
  | deleteNamespace ns order =>
    refine h.refresh (σ.store.removeNamespace ns) rfl rfl ?_ hlist hl
    intro n hmem
    exact h.inv.named.namespaces n (mem_filter.mp hmem).1
  | updatePod pod => exact h.updatePod pod
  | updatePodNoCallback pod => exact h.updatePod pod
  | deletePod pod =>
    refine ⟨?_, (nodup_setPod h.podKeys pod).2⟩
    have hstep := h.inv.deletePod pod
    rw [← live_removePod] at hstep
    exact hstep
  | updateSelectorObj obj => exact h.updateSelectorObj obj hn hl
  | updateSelectorObjNoCallback obj => exact h.updateSelectorObj obj hn hl
  | deleteSelectorObj obj => exact ⟨h.inv.deleteSelectorObj obj, h.podKeys⟩

theorem liveInv_start (fn : Funcs Obj) : LiveInv fn start := ⟨inv_start fn, by simp [start]⟩

/-- The stores have the same pods, namespaces and objects. -/
structure SameContent (s t : Store Obj) : Prop where
  pods : ∀ pod, pod ∈ s.pods ↔ pod ∈ t.pods
  namespaces : ∀ ns, ns ∈ s.namespaces ↔ ns ∈ t.namespaces
  objs : ∀ obj, obj ∈ s.objs ↔ obj ∈ t.objs

variable {s t : Store Obj}

theorem SameContent.selects (h : SameContent s t) (obj : Obj) (pod : Pod) :
    Selects fn s.namespaces obj pod ↔ Selects fn t.namespaces obj pod := by
  simp [Selects, PodSelector.Covers, h.namespaces]

theorem SameContent.selected (h : SameContent s t) (o p : String) :
    Selected fn (s.live fn) o p ↔ Selected fn (t.live fn) o p := by
  have hns : ∀ store : Store Obj, (store.live fn).namespaces = store.namespaces := fun _ => rfl
  have hobjs : ∀ store : Store Obj, (store.live fn).objs = store.objs := fun _ => rfl
  simp only [Selected, hns, hobjs, h.objs, h.selects]
  simp [Store.live, mem_filter, h.pods]

variable {τ : State Obj}

theorem LiveInv.getPodForObj (h : LiveInv fn σ) (h' : LiveInv fn τ) (hs : SameContent σ.store τ.store) (o : String) :
    σ.index.getPodForObj o = τ.index.getPodForObj o := by
  ext p
  exact (h.inv.exact o p).trans ((hs.selected o p).trans (h'.inv.exact o p).symm)

theorem LiveInv.getObjForPod (h : LiveInv fn σ) (h' : LiveInv fn τ) (hs : SameContent σ.store τ.store) (p : String) :
    σ.index.getObjForPod p = τ.index.getObjForPod p := by
  obtain ⟨t, ht⟩ := h.inv.holds
  obtain ⟨t', ht'⟩ := h'.inv.holds
  ext o
  rw [ht.cols, ht'.cols, ← t.agree, ← t'.agree, ← ht.rows, ← ht'.rows]
  exact Eq.to_iff (congrArg (p ∈ ·) (h.getPodForObj h' hs o))

end AciContainers.Index

namespace AciContainers.NetPol

open Labels Index Policy Runs

variable (selectors : NetworkPolicy → List PodSelector)

/-- The condition on the events of a run of the index. -/
def LiveRun (events : List (Event NetworkPolicy)) : Prop :=
  Along (step (netPolFuncs selectors)) (fun σ e =>
    (Listed σ e ∧ NamesNamespaces (netPolFuncs selectors) e) ∧ ListsLive (netPolFuncs selectors) σ e)
    start events

/-- While no listing finds a pod without an address, the index has no such pod, and runs that
end with the same stores end with the same index. -/
theorem netPolIndex_live (events : List (Event NetworkPolicy)) (h : LiveRun selectors events) :
    let σ := run (step (netPolFuncs selectors)) start events
    (∀ pod ∈ σ.store.pods, pod.podIP = "" → ∀ o, podKey pod ∉ σ.index.getPodForObj o) ∧
      ∀ events', LiveRun selectors events' →
        let τ := run (step (netPolFuncs selectors)) start events'
        SameContent σ.store τ.store → ∀ key, σ.index.getPodForObj key = τ.index.getPodForObj key ∧
          σ.index.getObjForPod key = τ.index.getObjForPod key := by
  have hinv : ∀ events, LiveRun selectors events →
      LiveInv (netPolFuncs selectors) (run (step (netPolFuncs selectors)) start events) :=
    fun events h => invariant_run (liveInv_step _) start events (liveInv_start _) h
  have hσ := hinv events h
  refine ⟨?_, ?_⟩
  · intro pod hpod hip o hin
    obtain ⟨-, -, -, q, hq, hk, -⟩ := (hσ.inv.exact o (podKey pod)).mp hin
    obtain ⟨hq, hlive⟩ := List.mem_filter.mp hq
    have heq : q = pod := List.inj_on_of_nodup_map hσ.podKeys hq hpod hk
    simp [Funcs.live, Funcs.podHash, netPolFuncs, heq, hip] at hlive
  · intro events' h' τ hs key
    exact ⟨hσ.getPodForObj (hinv events' h') hs key, hσ.getObjForPod (hinv events' h') hs key⟩

def allowPolicy : NetworkPolicy :=
  ⟨"shop", "allow", ⟨[], []⟩, [⟨[⟨some ⟨[], []⟩, none, none⟩], []⟩], [], []⟩

def startingPod : Pod := ⟨"shop", "new", [], "", []⟩

def runningPod : Pod := ⟨"shop", "web", [], "10.1.0.4", []⟩

theorem netPolIndex_live_allow :
    let σ := run (step netPolIngressPods) start
      [.updatePod runningPod, .updateSelectorObj allowPolicy, .updatePod startingPod]
    σ.index.getPodForObj "shop/allow" = {"shop/web"} ∧ ∀ o, podKey startingPod ∉ σ.index.getPodForObj o := by
  refine ⟨by decide, ?_⟩
  refine (netPolIndex_live ingressPodSelector
    [.updatePod runningPod, .updateSelectorObj allowPolicy, .updatePod startingPod] ?_).1
    startingPod (by decide) rfl
  exact ⟨⟨⟨trivial, trivial⟩, trivial⟩, ⟨⟨trivial, by decide⟩, by decide⟩,
    ⟨⟨trivial, trivial⟩, trivial⟩, trivial⟩

/-- A pod without an address is indexed when the policy comes after it, and not when it comes
after the policy. -/
theorem netPolIndex_live_fails :
    let σ := run (step netPolIngressPods) start [.updatePod startingPod, .updateSelectorObj allowPolicy]
    let τ := run (step netPolIngressPods) start [.updateSelectorObj allowPolicy, .updatePod startingPod]
    startingPod ∈ σ.store.pods ∧ startingPod.podIP = "" ∧
      podKey startingPod ∈ σ.index.getPodForObj "shop/allow" ∧ SameContent σ.store τ.store ∧
      σ.index.getPodForObj "shop/allow" ≠ τ.index.getPodForObj "shop/allow" := by
  refine ⟨by decide, rfl, by decide, ⟨fun _ => Iff.rfl, fun _ => Iff.rfl, fun _ => Iff.rfl⟩, by decide⟩

end AciContainers.NetPol
