import AciContainers.PodSelectorIndex
import AciContainers.Relations
import AciContainers.Runs

/-!
# The index holds the selection relation

The two pod maps of the index are one relation kept in both directions: a pod event replaces a
column, an object event a row. What a row or a column is replaced by comes from the namespace
map of the objects, which follows the stores. So after every event an object is related to
exactly the pods it selects, as long as nobody names the empty namespace: the listing reads it
as all namespaces, the pod events read it literally.
-/
namespace AciContainers.Index

open Labels Maps Relations Runs List Finmap

variable {namespaces : NsMap} {pods : List Pod} {i j : PodSelectorIndex} {p : String} {t : TwoWay String String}
  {store : Store Obj} {Obj : Type}

/-- The selector reaches into the namespace of this name. -/
def PodSelector.Covers (selector : PodSelector) (namespaces : List Namespace) (ns : String) : Prop :=
  selector.ns = some ns ∨ ∃ s, selector.nsSelector = some s ∧
    ∃ n ∈ namespaces, n.name = ns ∧ s.matchesLabels n.labels = true

theorem mem_append (ret : NsMap) (ns m : String) (s selector : Selector) :
    s ∈ (ret.append ns selector).selectors m ↔ s ∈ ret.selectors m ∨ ns = m ∧ s = selector := by
  by_cases h : m = ns
  · subst h
    simp [NsMap.append, NsMap.selectors]
  · have h' : ns ≠ m := fun e => h e.symm
    simp [NsMap.append, NsMap.selectors, lookup_insert_of_ne, h, h']

theorem mem_appendMatching (selector nsSelector s : Selector) (namespaces : List Namespace)
    (ret : NsMap) (m : String) : s ∈ (appendMatching selector nsSelector namespaces ret).selectors m ↔
      s ∈ ret.selectors m ∨ (∃ n ∈ namespaces, n.name = m ∧ nsSelector.matchesLabels n.labels) ∧ s = selector := by
  unfold appendMatching
  induction namespaces generalizing ret with
  | nil => simp
  | cons n namespaces ih =>
    by_cases hn : nsSelector.matchesLabels n.labels
    · rw [filter_cons, if_pos hn, foldl_cons, ih, mem_append, or_assoc, ← or_and_right]
      simp [hn]
    · rw [filter_cons, if_neg hn, ih]
      simp [hn]

theorem mem_addNamespaces (namespaces : List Namespace) (ret : NsMap) (selector : PodSelector)
    (m : String) (s : Selector) : s ∈ (addNamespaces namespaces ret selector).selectors m ↔
      s ∈ ret.selectors m ∨ selector.Covers namespaces m ∧ s = selector.podSelector := by
  obtain ⟨ns, nsSelector, podSelector⟩ := selector
  cases ns <;> cases nsSelector <;>
    simp [addNamespaces, PodSelector.Covers, mem_append, mem_appendMatching, or_assoc, or_and_right]

theorem mem_foldl_addNamespaces (namespaces : List Namespace) (selectors : List PodSelector)
    (ret : NsMap) (m : String) (s : Selector) :
    s ∈ NsMap.selectors (selectors.foldl (addNamespaces namespaces) ret) m ↔ s ∈ ret.selectors m ∨
        ∃ selector ∈ selectors, selector.Covers namespaces m ∧ s = selector.podSelector := by
  induction selectors generalizing ret with
  | nil => simp
  | cons selector selectors ih => simp [ih, mem_addNamespaces, or_assoc]

theorem mem_getObjNamespaces (fn : Funcs Obj) (namespaces : List Namespace) (obj : Obj) (m : String) (s : Selector) :
    s ∈ (getObjNamespaces fn namespaces obj).selectors m ↔
      ∃ selector ∈ fn.getPodSelector obj, selector.Covers namespaces m ∧ s = selector.podSelector := by
  unfold getObjNamespaces
  rw [mem_foldl_addNamespaces]
  simp [NsMap.selectors]

/-- Some selector of the object matches the labels and the namespace of the pod. -/
def Selects (fn : Funcs Obj) (namespaces : List Namespace) (obj : Obj) (pod : Pod) : Prop :=
  ∃ selector ∈ fn.getPodSelector obj, selector.podSelector.matchesLabels pod.labels = true ∧
    selector.Covers namespaces pod.ns

theorem selectsPod_iff (fn : Funcs Obj) (namespaces : List Namespace) (obj : Obj) (pod : Pod) :
    (getObjNamespaces fn namespaces obj).selectsPod pod ↔ Selects fn namespaces obj pod := by
  simp only [NsMap.selectsPod, any_eq_true, mem_getObjNamespaces, Selects]
  constructor
  · intro h
    obtain ⟨s, ⟨selector, hsel, hcov, rfl⟩, hm⟩ := h
    exact ⟨selector, hsel, hm, hcov⟩
  · intro h
    obtain ⟨selector, hsel, hm, hcov⟩ := h
    exact ⟨_, ⟨selector, hsel, hcov, rfl⟩, hm⟩

/-- No selector is kept for the empty name. -/
def NsMap.Named (namespaces : NsMap) : Prop := namespaces.selectors "" = []

theorem mem_keys_of_selectors {ns : String} {s : Selector} (h : s ∈ namespaces.selectors ns) :
    ns ∈ namespaces.keys := by
  rw [Finmap.mem_keys, Finmap.mem_iff]
  cases hl : namespaces.lookup ns with
  | none => simp [NsMap.selectors, hl] at h
  | some l => exact ⟨l, rfl⟩

theorem mem_listedPods (h : namespaces.Named) (p : String) : p ∈ listedPods pods namespaces ↔
      ∃ pod ∈ pods, podKey pod = p ∧ namespaces.selectsPod pod := by
  simp only [listedPods, listAllByNamespace, Finset.mem_biUnion, mem_toFinset, mem_flatMap,
    mem_map, mem_filter, NsMap.selectsPod, any_eq_true]
  constructor
  · intro hp
    obtain ⟨ns, -, s, hs, pod, ⟨hpod, hsel⟩, hkey⟩ := hp
    have hne : ns ≠ "" := by
      intro he
      rw [he, h] at hs
      exact absurd hs not_mem_nil
    simp only [Bool.and_eq_true, Bool.or_eq_true, beq_iff_eq, hne, false_or] at hsel
    exact ⟨pod, hpod, hkey, s, hsel.1 ▸ hs, hsel.2⟩
  · intro hp
    obtain ⟨pod, hpod, hkey, s, hs, hm⟩ := hp
    exact ⟨pod.ns, mem_keys_of_selectors hs, s, hs, pod, ⟨hpod, by simp [hm]⟩, hkey⟩

theorem mem_matchedObjs (i : PodSelectorIndex) (pod : Pod) (o : String) : o ∈ i.matchedObjs pod ↔
      ∃ namespaces, i.objNsIndex.lookup o = some namespaces ∧ namespaces.selectsPod pod := by
  simp only [PodSelectorIndex.matchedObjs, Finset.mem_filter, Finmap.mem_keys, Finmap.mem_iff, Option.any_eq_true]
  constructor
  · intro h
    exact h.2
  · intro h
    obtain ⟨namespaces, hl, hs⟩ := h
    exact ⟨⟨namespaces, hl⟩, namespaces, hl, hs⟩

/-- The two pod maps hold this relation. -/
structure Holds (i : PodSelectorIndex) (t : TwoWay String String) : Prop where
  rows : ∀ o, i.getPodForObj o = t.rows o
  cols : ∀ p, i.getObjForPod p = t.cols p

theorem holds_new : Holds newPodSelectorIndex TwoWay.empty := ⟨fun _ => rfl, fun _ => rfl⟩

@[simp] theorem getD_dropPod (p : String) (x : Option (Finset String)) : (dropPod p x).getD ∅ = (x.getD ∅).erase p := by
  cases x with
  | none => rfl
  | some objm =>
    by_cases h : objm.erase p = ∅ <;> simp [dropPod, h]

theorem getObjForPod_of_dropObj {o : String} (h : j.podIndex p = dropObj o (i.podIndex p)) :
    j.getObjForPod p = (i.getObjForPod p).erase o := by
  unfold PodSelectorIndex.getObjForPod
  rw [h]
  cases i.podIndex p with
  | none => rfl
  | some state =>
    by_cases he : state.objKeys.erase o = ∅ <;> simp [dropObj, he]

theorem getObjForPod_congr (h : j.podIndex p = i.podIndex p) : j.getObjForPod p = i.getObjForPod p := by
  unfold PodSelectorIndex.getObjForPod
  rw [h]

theorem holds_deletePod (h : Holds i t) (pod : Pod) : Holds (i.deletePod pod).1 (t.setCol (podKey pod) ∅) := by
  constructor
  · intro o
    simp only [setCol_rows, Finset.notMem_empty, if_false, ← h.rows]
    by_cases ho : o ∈ i.getObjForPod (podKey pod)
    · simp [PodSelectorIndex.deletePod, PodSelectorIndex.getPodForObj, ho]
    · rw [h.cols, ← t.agree, ← h.rows] at ho
      rw [Finset.erase_eq_of_notMem ho]
      rw [h.rows, t.agree, ← h.cols] at ho
      simp [PodSelectorIndex.deletePod, PodSelectorIndex.getPodForObj, ho]
  · intro p
    rw [setCol_cols]
    by_cases hp : p = podKey pod
    · simp [PodSelectorIndex.deletePod, PodSelectorIndex.getObjForPod, hp]
    · rw [if_neg hp, ← h.cols]
      exact getObjForPod_congr (erase_other _ hp)

/-- The objects a pod event leaves the pod with. -/
def PodSelectorIndex.newCol (fn : Funcs Obj) (i : PodSelectorIndex) (pod : Pod) : Finset String :=
  if fn.podHashFunc.isSome && fn.podHash pod == "" then ∅ else i.matchedObjs pod

theorem holds_updatePodNoCallback (fn : Funcs Obj) (h : Holds i t) (pod : Pod) :
    Holds (i.updatePodNoCallback fn pod).1 (t.setCol (podKey pod) (i.newCol fn pod)) := by
  unfold PodSelectorIndex.updatePodNoCallback PodSelectorIndex.newCol
  by_cases hh : (fn.podHashFunc.isSome && fn.podHash pod == "")
  · rw [if_pos hh, if_pos hh]
    exact holds_deletePod h pod
  rw [if_neg hh, if_neg hh]
  constructor
  · intro o
    simp only [setCol_rows, ← h.rows]
    by_cases ho : o ∈ i.matchedObjs pod
    · simp [PodSelectorIndex.getPodForObj, ho]
    by_cases hs : o ∈ i.getObjForPod (podKey pod)
    · simp [PodSelectorIndex.getPodForObj, ho, hs]
    · have hp : podKey pod ∉ i.getPodForObj o := by rwa [h.rows, t.agree, ← h.cols]
      rw [if_neg ho, Finset.erase_eq_of_notMem hp]
      simp [PodSelectorIndex.getPodForObj, ho, hs]
  · intro p
    rw [setCol_cols]
    by_cases hp : p = podKey pod
    · simp [PodSelectorIndex.getObjForPod, hp]
    · rw [if_neg hp, ← h.cols]
      exact getObjForPod_congr (put_other _ _ hp)

theorem holds_updateSelectorObjForNs (h : Holds i t) (pods : List Pod) (objkey : String) (namespaces : NsMap) :
    Holds (i.updateSelectorObjForNs pods objkey namespaces).1 (t.setRow objkey (listedPods pods namespaces)) := by
  constructor
  · intro o
    rw [setRow_rows, ← h.rows]
    by_cases hu : i.objPodIndex objkey = some (listedPods pods namespaces)
    · by_cases ho : o = objkey
      · simp [PodSelectorIndex.updateSelectorObjForNs, PodSelectorIndex.getPodForObj, ho, hu]
      · simp [PodSelectorIndex.updateSelectorObjForNs, PodSelectorIndex.getPodForObj, ho, hu]
    · by_cases ho : o = objkey
      · simp [PodSelectorIndex.updateSelectorObjForNs, PodSelectorIndex.getPodForObj, ho, hu]
      · simp [PodSelectorIndex.updateSelectorObjForNs, PodSelectorIndex.getPodForObj, ho, hu, put_other]
  · intro p
    rw [setRow_cols, ← h.cols]
    by_cases hm : p ∈ listedPods pods namespaces
    · cases hp : i.podIndex p <;>
        simp [PodSelectorIndex.updateSelectorObjForNs, PodSelectorIndex.getObjForPod, hm, hp]
    rw [if_neg hm]
    by_cases ho : p ∈ i.getPodForObj objkey
    · apply getObjForPod_of_dropObj
      simp [PodSelectorIndex.updateSelectorObjForNs, hm, ho]
    · have hc : objkey ∉ i.getObjForPod p := by rwa [h.cols, ← t.agree, ← h.rows]
      rw [Finset.erase_eq_of_notMem hc]
      apply getObjForPod_congr
      simp [PodSelectorIndex.updateSelectorObjForNs, hm, ho]

theorem holds_deleteSelectorObj (fn : Funcs Obj) (h : Holds i t) (obj : Obj) :
    Holds (i.deleteSelectorObj fn obj).1 (t.setRow (fn.getKey obj) ∅) := by
  constructor
  · intro o
    rw [setRow_rows, ← h.rows]
    by_cases ho : o = fn.getKey obj
    · simp [PodSelectorIndex.deleteSelectorObj, PodSelectorIndex.getPodForObj, ho]
    · simp [PodSelectorIndex.deleteSelectorObj, PodSelectorIndex.getPodForObj, ho, erase_other]
  · intro p
    rw [setRow_cols, if_neg (Finset.notMem_empty p), ← h.cols]
    by_cases ho : p ∈ i.getPodForObj (fn.getKey obj)
    · apply getObjForPod_of_dropObj
      simp [PodSelectorIndex.deleteSelectorObj, ho]
    · have hc : fn.getKey obj ∉ i.getObjForPod p := by rwa [h.cols, ← t.agree, ← h.rows]
      rw [Finset.erase_eq_of_notMem hc]
      apply getObjForPod_congr
      simp [PodSelectorIndex.deleteSelectorObj, ho]

/-- An object is related to the stored pods that its kept selectors match. -/
def RowsOk (pods : List Pod) (i : PodSelectorIndex) : Prop :=
  ∀ o p, p ∈ i.getPodForObj o ↔ ∃ pod ∈ pods, podKey pod = p ∧ o ∈ i.matchedObjs pod

@[simp] theorem objNsIndex_deletePod (i : PodSelectorIndex) (pod : Pod) :
    (i.deletePod pod).1.objNsIndex = i.objNsIndex := rfl

@[simp] theorem objNsIndex_updatePodNoCallback (fn : Funcs Obj) (i : PodSelectorIndex) (pod : Pod) :
    (i.updatePodNoCallback fn pod).1.objNsIndex = i.objNsIndex := by
  unfold PodSelectorIndex.updatePodNoCallback
  by_cases hh : (fn.podHashFunc.isSome && fn.podHash pod == "")
  · rw [if_pos hh]
    rfl
  · rw [if_neg hh]

theorem matchedObjs_congr (h : j.objNsIndex = i.objNsIndex) (pod : Pod) : j.matchedObjs pod = i.matchedObjs pod := by
  unfold PodSelectorIndex.matchedObjs
  rw [h]

theorem rowsOk_deletePod (h : Holds i t) (hr : RowsOk store.pods i) (pod : Pod) :
    RowsOk (store.removePod pod).pods (i.deletePod pod).1 := by
  intro o p
  rw [(holds_deletePod h pod).rows, setCol_rows, if_neg (Finset.notMem_empty o), Finset.mem_erase, ← h.rows, hr]
  simp only [matchedObjs_congr (objNsIndex_deletePod i pod), Store.removePod, mem_filter, decide_eq_true_eq]
  constructor
  · intro hp
    obtain ⟨hne, q, hq, rfl, ho⟩ := hp
    exact ⟨q, ⟨hq, hne⟩, rfl, ho⟩
  · intro hp
    obtain ⟨q, ⟨hq, hne⟩, rfl, ho⟩ := hp
    exact ⟨hne, q, hq, rfl, ho⟩

variable {fn : Funcs Obj} {pod : Pod}

theorem rowsOk_updatePodNoCallback (h : Holds i t) (hr : RowsOk store.pods i)
    (hcol : i.newCol fn pod = i.matchedObjs pod) : RowsOk (store.setPod pod).pods (i.updatePodNoCallback fn pod).1 := by
  intro o p
  rw [(holds_updatePodNoCallback fn h pod).rows, setCol_rows, hcol, ← h.rows]
  simp only [matchedObjs_congr (objNsIndex_updatePodNoCallback fn i pod), Store.setPod,
    mem_cons, mem_filter, decide_eq_true_eq, exists_eq_or_imp]
  by_cases hp : podKey pod = p
  · by_cases ho : o ∈ i.matchedObjs pod
    · simp [ho, hp]
    · simp only [ho, if_false, hp, Finset.mem_erase, ne_eq, not_true_eq_false, false_and, and_false,
        false_or, false_iff]
      intro hq
      obtain ⟨q, ⟨-, hne⟩, hk, -⟩ := hq
      exact hne hk
  · have hrow : p ∈ (if o ∈ i.matchedObjs pod then insert (podKey pod) (i.getPodForObj o)
        else (i.getPodForObj o).erase (podKey pod)) ↔ p ∈ i.getPodForObj o := by
      have hp' : p ≠ podKey pod := fun e => hp e.symm
      by_cases ho : o ∈ i.matchedObjs pod <;> simp [ho, hp']
    rw [hrow, hr]
    simp only [hp, false_and, false_or]
    constructor
    · intro hq
      obtain ⟨q, hq, rfl, ho⟩ := hq
      exact ⟨q, ⟨hq, fun e => hp e.symm⟩, rfl, ho⟩
    · intro hq
      obtain ⟨q, ⟨hq, -⟩, hk, ho⟩ := hq
      exact ⟨q, hq, hk, ho⟩

theorem rowsOk_updateSelectorObjForNs (h : Holds i t) (hr : RowsOk pods i) (objkey : String)
    (hn : namespaces.Named) : RowsOk pods (i.updateSelectorObjForNs pods objkey namespaces).1 := by
  intro o p
  have hns : (i.updateSelectorObjForNs pods objkey namespaces).1.objNsIndex =
      i.objNsIndex.insert objkey namespaces := rfl
  rw [(holds_updateSelectorObjForNs h pods objkey namespaces).rows, setRow_rows, ← h.rows]
  simp only [mem_matchedObjs, hns]
  by_cases ho : o = objkey
  · subst ho
    simp [mem_listedPods hn]
  · simp only [ho, if_false, lookup_insert_of_ne _ ho, ← mem_matchedObjs]
    exact hr o p

theorem rowsOk_deleteSelectorObj (fn : Funcs Obj) (h : Holds i t) (hr : RowsOk pods i) (obj : Obj) :
    RowsOk pods (i.deleteSelectorObj fn obj).1 := by
  intro o p
  have hns : (i.deleteSelectorObj fn obj).1.objNsIndex = i.objNsIndex.erase (fn.getKey obj) := rfl
  rw [(holds_deleteSelectorObj fn h obj).rows, setRow_rows, ← h.rows]
  simp only [mem_matchedObjs, hns]
  by_cases ho : o = fn.getKey obj
  · subst ho
    simp
  · simp only [ho, if_false, lookup_erase_ne ho, ← mem_matchedObjs]
    exact hr o p

section Loop

variable {obj : Obj} {acc : PodSelectorIndex × Callbacks} (fn : Funcs Obj) (store : Store Obj)

theorem lookup_refreshObj (acc : PodSelectorIndex × Callbacks) (obj : Obj) (o : String) :
    (PodSelectorIndex.refreshObj fn store acc obj).1.objNsIndex.lookup o =
      if o = fn.getKey obj then some (getObjNamespaces fn store.namespaces obj) else acc.1.objNsIndex.lookup o := by
  unfold PodSelectorIndex.refreshObj
  by_cases hs : acc.1.objNsIndex.lookup (fn.getKey obj) =
      some (getObjNamespaces fn store.namespaces obj)
  · simp only [hs, if_true]
    by_cases ho : o = fn.getKey obj
    · rw [if_pos ho, ho, hs]
    · rw [if_neg ho]
  · simp only [hs, if_false, PodSelectorIndex.updateSelectorObjForNs]
    by_cases ho : o = fn.getKey obj
    · rw [if_pos ho, ho, lookup_insert]
    · rw [if_neg ho, lookup_insert_of_ne _ ho]

theorem lookup_refresh_other (order : List Obj) (acc : PodSelectorIndex × Callbacks) {o : String}
    (h : ∀ obj ∈ order, fn.getKey obj ≠ o) :
    (order.foldl (PodSelectorIndex.refreshObj fn store) acc).1.objNsIndex.lookup o = acc.1.objNsIndex.lookup o := by
  induction order generalizing acc with
  | nil => rfl
  | cons obj order ih =>
    rw [foldl_cons, ih _ fun x hx => h x (mem_cons_of_mem _ hx), lookup_refreshObj,
      if_neg fun e => h obj mem_cons_self e.symm]

theorem lookup_refresh (order : List Obj) (acc : PodSelectorIndex × Callbacks)
    (hnd : (order.map fn.getKey).Nodup) (h : obj ∈ order) :
    (order.foldl (PodSelectorIndex.refreshObj fn store) acc).1.objNsIndex.lookup (fn.getKey obj) =
      some (getObjNamespaces fn store.namespaces obj) := by
  induction order generalizing acc with
  | nil => exact absurd h not_mem_nil
  | cons x order ih =>
    rw [map_cons, nodup_cons] at hnd
    cases mem_cons.mp h with
    | inl hx =>
      subst hx
      have hother : ∀ y ∈ order, fn.getKey y ≠ fn.getKey obj := by
        intro y hy he
        exact hnd.1 (he ▸ mem_map_of_mem hy)
      rw [foldl_cons, lookup_refresh_other fn store order _ hother, lookup_refreshObj, if_pos rfl]
    | inr hx => exact ih _ hnd.2 hx

/-- A turn of the loop replaces at most the row of its object. -/
theorem holds_refreshObj (h : Holds acc.1 t) (obj : Obj) :
    ∃ t', Holds (PodSelectorIndex.refreshObj fn store acc obj).1 t' := by
  unfold PodSelectorIndex.refreshObj
  dsimp only
  split
  · exact ⟨t, h⟩
  · exact ⟨_, holds_updateSelectorObjForNs h _ _ _⟩

theorem rowsOk_refreshObj (h : Holds acc.1 t) (hr : RowsOk store.pods acc.1)
    (hn : (getObjNamespaces fn store.namespaces obj).Named) :
    RowsOk store.pods (PodSelectorIndex.refreshObj fn store acc obj).1 := by
  unfold PodSelectorIndex.refreshObj
  dsimp only
  split
  · exact hr
  · exact rowsOk_updateSelectorObjForNs h hr _ hn

theorem holds_refresh (order : List Obj) {acc : PodSelectorIndex × Callbacks}
    {t : TwoWay String String} (h : Holds acc.1 t) :
    ∃ t', Holds (order.foldl (PodSelectorIndex.refreshObj fn store) acc).1 t' := by
  induction order generalizing acc t with
  | nil => exact ⟨t, h⟩
  | cons obj order ih =>
    obtain ⟨t', h'⟩ := holds_refreshObj fn store h obj
    exact ih h'

theorem rowsOk_refresh (order : List Obj) {acc : PodSelectorIndex × Callbacks}
    {t : TwoWay String String} (h : Holds acc.1 t) (hr : RowsOk store.pods acc.1)
    (hn : ∀ obj ∈ order, (getObjNamespaces fn store.namespaces obj).Named) :
    RowsOk store.pods (order.foldl (PodSelectorIndex.refreshObj fn store) acc).1 := by
  induction order generalizing acc t with
  | nil => exact hr
  | cons obj order ih =>
    obtain ⟨t', h'⟩ := holds_refreshObj fn store h obj
    exact ih h' (rowsOk_refreshObj fn store h hr (hn obj mem_cons_self))
      fun x hx => hn x (mem_cons_of_mem _ hx)

end Loop

variable {store' : Store Obj} {order : List Obj} {σ : State Obj}

/-- The namespace map holds what the stores say, for the stored objects only. -/
structure NsOk (fn : Funcs Obj) (store : Store Obj) (i : PodSelectorIndex) : Prop where
  present : ∀ obj ∈ store.objs,
    i.objNsIndex.lookup (fn.getKey obj) = some (getObjNamespaces fn store.namespaces obj)
  absent : ∀ o, (∀ obj ∈ store.objs, fn.getKey obj ≠ o) → i.objNsIndex.lookup o = none

/-- A namespace event lists the stored objects, each once. -/
def Listed (σ : State Obj) : Event Obj → Prop
  | .updateNamespace _ order | .deleteNamespace _ order => order.Perm σ.store.objs
  | _ => True

/-- No object in the event names the empty namespace, and namespaces have a name. -/
def NamesNamespaces (fn : Funcs Obj) : Event Obj → Prop
  | .updateNamespace ns _ => ns.name ≠ ""
  | .updateSelectorObj obj | .updateSelectorObjNoCallback obj =>
    ∀ selector ∈ fn.getPodSelector obj, selector.ns ≠ some ""
  | _ => True

instance [DecidableEq Obj] (σ : State Obj) (e : Event Obj) : Decidable (Listed σ e) :=
  match e with
  | .updateNamespace _ order | .deleteNamespace _ order => inferInstanceAs (Decidable (order.Perm _))
  | .updatePod _ | .updatePodNoCallback _ | .deletePod _ | .updateSelectorObj _
  | .updateSelectorObjNoCallback _ | .deleteSelectorObj _ => .isTrue trivial

instance (fn : Funcs Obj) (e : Event Obj) : Decidable (NamesNamespaces fn e) :=
  match e with
  | .updateNamespace ns _ => inferInstanceAs (Decidable (ns.name ≠ ""))
  | .updateSelectorObj obj | .updateSelectorObjNoCallback obj =>
    inferInstanceAs (Decidable (∀ selector ∈ fn.getPodSelector obj, selector.ns ≠ some ""))
  | .deleteNamespace _ _ | .updatePod _ | .updatePodNoCallback _ | .deletePod _
  | .deleteSelectorObj _ => .isTrue trivial

/-- The same of everything stored. -/
structure Named (fn : Funcs Obj) (store : Store Obj) : Prop where
  namespaces : ∀ n ∈ store.namespaces, n.name ≠ ""
  objs : ∀ obj ∈ store.objs, ∀ selector ∈ fn.getPodSelector obj, selector.ns ≠ some ""

theorem named_getObjNamespaces {namespaces : List Namespace} {obj : Obj} (hn : ∀ n ∈ namespaces, n.name ≠ "")
    (ho : ∀ selector ∈ fn.getPodSelector obj, selector.ns ≠ some "") : (getObjNamespaces fn namespaces obj).Named := by
  unfold NsMap.Named
  rw [eq_nil_iff_forall_not_mem]
  intro s hs
  obtain ⟨selector, hsel, hcov, -⟩ := (mem_getObjNamespaces fn namespaces obj "" s).mp hs
  cases hcov with
  | inl h => exact ho selector hsel h
  | inr h =>
    obtain ⟨-, -, n, hmem, hname, -⟩ := h
    exact hn n hmem hname

/-- The object with this key and the pod with this key are stored, and the object
selects the pod over the stored namespaces. -/
def Selected (fn : Funcs Obj) (store : Store Obj) (o p : String) : Prop :=
  ∃ obj ∈ store.objs, fn.getKey obj = o ∧
    ∃ pod ∈ store.pods, podKey pod = p ∧ Selects fn store.namespaces obj pod

structure Inv (fn : Funcs Obj) (σ : State Obj) : Prop where
  holds : ∃ t, Holds σ.index t
  rows : RowsOk σ.store.pods σ.index
  ns : NsOk fn σ.store σ.index
  keys : (σ.store.objs.map fn.getKey).Nodup
  named : Named fn σ.store

theorem Inv.exact {σ : State Obj} (h : Inv fn σ) (o p : String) :
    p ∈ σ.index.getPodForObj o ↔ Selected fn σ.store o p := by
  rw [h.rows o p]
  simp only [mem_matchedObjs]
  constructor
  · intro hp
    obtain ⟨pod, hpod, hk, m, hl, hs⟩ := hp
    by_cases ho : ∃ obj ∈ σ.store.objs, fn.getKey obj = o
    · obtain ⟨obj, hobj, rfl⟩ := ho
      have hm : getObjNamespaces fn σ.store.namespaces obj = m :=
        Option.some.inj ((h.ns.present obj hobj).symm.trans hl)
      subst hm
      exact ⟨obj, hobj, rfl, pod, hpod, hk, (selectsPod_iff fn _ obj pod).mp hs⟩
    · have hnone := h.ns.absent o fun obj hobj he => ho ⟨obj, hobj, he⟩
      rw [hnone] at hl
      simp at hl
  · intro hp
    obtain ⟨obj, hobj, rfl, pod, hpod, hk, hs⟩ := hp
    exact ⟨pod, hpod, hk, _, h.ns.present obj hobj, (selectsPod_iff fn _ obj pod).mpr hs⟩

theorem inv_start (fn : Funcs Obj) : Inv fn start where
  holds := ⟨_, holds_new⟩
  rows := by
    intro o p
    simp [start, newPodSelectorIndex, PodSelectorIndex.getPodForObj]
  ns := ⟨by simp [start], by simp [start, newPodSelectorIndex]⟩
  keys := by simp [start]
  named := ⟨by simp [start], by simp [start]⟩

theorem nsOk_congr {store : Store Obj} (h : NsOk fn store i) (hi : j.objNsIndex = i.objNsIndex)
    (ho : store'.objs = store.objs) (hn : store'.namespaces = store.namespaces) : NsOk fn store' j := by
  constructor
  · rw [ho, hi, hn]
    exact h.present
  · rw [ho, hi]
    exact h.absent

theorem nsOk_setObj {store : Store Obj} (h : NsOk fn store i) (obj : Obj) (hj : j.objNsIndex =
      i.objNsIndex.insert (fn.getKey obj) (getObjNamespaces fn store.namespaces obj)) :
    NsOk fn (store.setObj fn obj) j := by
  constructor
  · intro x hx
    simp only [Store.setObj, mem_cons, mem_filter, decide_eq_true_eq] at hx
    cases hx with
    | inl hx =>
      subst hx
      rw [hj, lookup_insert]
      rfl
    | inr hx =>
      rw [hj, lookup_insert_of_ne _ hx.2]
      exact h.present x hx.1
  · intro o ho
    simp only [Store.setObj, mem_cons, mem_filter, decide_eq_true_eq] at ho
    have hkey : o ≠ fn.getKey obj := fun e => ho obj (.inl rfl) e.symm
    rw [hj, lookup_insert_of_ne _ hkey]
    apply h.absent
    intro x hx he
    by_cases hxo : fn.getKey x = fn.getKey obj
    · exact hkey (he.symm.trans hxo)
    · exact ho x (.inr ⟨hx, hxo⟩) he

theorem nsOk_removeObj {store : Store Obj} (h : NsOk fn store i) (obj : Obj)
    (hj : j.objNsIndex = i.objNsIndex.erase (fn.getKey obj)) : NsOk fn (store.removeObj fn obj) j := by
  constructor
  · intro x hx
    simp only [Store.removeObj, mem_filter, decide_eq_true_eq] at hx
    rw [hj, lookup_erase_ne hx.2]
    exact h.present x hx.1
  · intro o ho
    simp only [Store.removeObj, mem_filter, decide_eq_true_eq] at ho
    by_cases hkey : o = fn.getKey obj
    · rw [hj, hkey, lookup_erase]
    rw [hj, lookup_erase_ne hkey]
    apply h.absent
    intro x hx he
    exact ho x ⟨hx, fun e => hkey (he.symm.trans e)⟩ he

/-- After the loop the namespace map follows the changed namespaces. -/
theorem nsOk_refresh {store : Store Obj} (h : NsOk fn store i) (ho : store'.objs = store.objs)
    (hnd : (store.objs.map fn.getKey).Nodup) (hp : order.Perm store.objs) (cb : Callbacks) :
    NsOk fn store' (order.foldl (PodSelectorIndex.refreshObj fn store') (i, cb)).1 := by
  have hnd' : (order.map fn.getKey).Nodup := (hp.map fn.getKey).nodup_iff.mpr hnd
  constructor
  · intro obj hobj
    rw [ho] at hobj
    exact lookup_refresh fn store' order (i, cb) hnd' (hp.mem_iff.mpr hobj)
  · intro o hno
    rw [ho] at hno
    rw [lookup_refresh_other fn store' order (i, cb) fun obj hobj => hno obj (hp.mem_iff.mp hobj)]
    exact h.absent o hno

theorem nodup_setObj {store : Store Obj} (h : (store.objs.map fn.getKey).Nodup) (obj : Obj) :
    ((store.setObj fn obj).objs.map fn.getKey).Nodup ∧ ((store.removeObj fn obj).objs.map fn.getKey).Nodup := by
  have hf : ((store.objs.filter fun o => fn.getKey o ≠ fn.getKey obj).map fn.getKey).Nodup :=
    h.sublist (filter_sublist.map _)
  refine ⟨?_, hf⟩
  simp only [Store.setObj, map_cons, nodup_cons]
  refine ⟨?_, hf⟩
  simp

/-- A change of the namespaces, followed by the loop. -/
theorem Inv.refresh (h : Inv fn σ) (store' : Store Obj) (ho : store'.objs = σ.store.objs)
    (hpods : store'.pods = σ.store.pods) (hn : ∀ n ∈ store'.namespaces, n.name ≠ "") (hp : order.Perm σ.store.objs) :
    Inv fn ⟨store', (σ.index.updateNamespace fn store' order).1⟩ := by
  obtain ⟨t, ht⟩ := h.holds
  have hnamed : ∀ obj ∈ order, (getObjNamespaces fn store'.namespaces obj).Named :=
    fun obj hobj => named_getObjNamespaces hn (h.named.objs obj (hp.mem_iff.mp hobj))
  have hrows : RowsOk store'.pods σ.index := by
    rw [hpods]
    exact h.rows
  exact {
    holds := @holds_refresh _ fn store' order (σ.index, ⟨∅, ∅⟩) t ht
    rows := @rowsOk_refresh _ fn store' order (σ.index, ⟨∅, ∅⟩) t ht hrows hnamed
    ns := nsOk_refresh h.ns ho h.keys hp _
    keys := by
      rw [ho]
      exact h.keys
    named := ⟨hn, by
      rw [ho]
      exact h.named.objs⟩ }

theorem Inv.updatePod (h : Inv fn σ) (hcol : σ.index.newCol fn pod = σ.index.matchedObjs pod) :
    Inv fn ⟨σ.store.setPod pod, (σ.index.updatePodNoCallback fn pod).1⟩ := by
  obtain ⟨t, ht⟩ := h.holds
  exact {
    holds := ⟨_, holds_updatePodNoCallback fn ht pod⟩
    rows := rowsOk_updatePodNoCallback ht h.rows hcol
    ns := nsOk_congr h.ns (objNsIndex_updatePodNoCallback fn σ.index pod) rfl rfl
    keys := h.keys
    named := ⟨h.named.namespaces, h.named.objs⟩ }

theorem Inv.deletePod (h : Inv fn σ) (pod : Pod) : Inv fn ⟨σ.store.removePod pod, (σ.index.deletePod pod).1⟩ := by
  obtain ⟨t, ht⟩ := h.holds
  exact {
    holds := ⟨_, holds_deletePod ht pod⟩
    rows := rowsOk_deletePod ht h.rows pod
    ns := nsOk_congr h.ns rfl rfl rfl
    keys := h.keys
    named := ⟨h.named.namespaces, h.named.objs⟩ }

theorem Inv.updateSelectorObj (h : Inv fn σ) (obj : Obj)
    (hn : ∀ selector ∈ fn.getPodSelector obj, selector.ns ≠ some "") : Inv fn ⟨σ.store.setObj fn obj,
      (σ.index.updateSelectorObjNoCallback fn (σ.store.setObj fn obj) obj).1⟩ := by
  obtain ⟨t, ht⟩ := h.holds
  exact {
    holds := ⟨_, holds_updateSelectorObjForNs ht _ _ _⟩
    rows := rowsOk_updateSelectorObjForNs ht h.rows _ (named_getObjNamespaces h.named.namespaces hn)
    ns := nsOk_setObj h.ns obj rfl
    keys := (nodup_setObj h.keys obj).1
    named := ⟨h.named.namespaces, by
      intro x hx
      simp only [Store.setObj, mem_cons, mem_filter] at hx
      cases hx with
      | inl hx => exact hx ▸ hn
      | inr hx => exact h.named.objs x hx.1⟩ }

theorem Inv.deleteSelectorObj (h : Inv fn σ) (obj : Obj) :
    Inv fn ⟨σ.store.removeObj fn obj, (σ.index.deleteSelectorObj fn obj).1⟩ := by
  obtain ⟨t, ht⟩ := h.holds
  exact {
    holds := ⟨_, holds_deleteSelectorObj fn ht obj⟩
    rows := rowsOk_deleteSelectorObj fn ht h.rows obj
    ns := nsOk_removeObj h.ns obj rfl
    keys := (nodup_setObj h.keys obj).2
    named := ⟨h.named.namespaces, fun x hx => h.named.objs x (mem_filter.mp hx).1⟩ }

theorem names_setNamespace {s : Store Obj} {ns : Namespace} (h : ∀ n ∈ s.namespaces, n.name ≠ "") (hn : ns.name ≠ "") :
    ∀ n ∈ (s.setNamespace ns).namespaces, n.name ≠ "" :=
  forall_mem_cons.mpr ⟨hn, fun n hmem => h n (mem_filter.mp hmem).1⟩

theorem inv_step (hh : fn.podHashFunc = none) (σ : State Obj) (e : Event Obj) (h : Inv fn σ)
    (he : Listed σ e ∧ NamesNamespaces fn e) : Inv fn (step fn σ e) := by
  obtain ⟨hl, hn⟩ := he
  cases e with
  | updateNamespace ns order =>
    exact h.refresh (σ.store.setNamespace ns) rfl rfl (names_setNamespace h.named.namespaces hn) hl
  | deleteNamespace ns order =>
    apply h.refresh (σ.store.removeNamespace ns) rfl rfl _ hl
    intro n hmem
    exact h.named.namespaces n (mem_filter.mp hmem).1
  | updatePod pod => exact h.updatePod (by simp [PodSelectorIndex.newCol, hh])
  | updatePodNoCallback pod => exact h.updatePod (by simp [PodSelectorIndex.newCol, hh])
  | deletePod pod => exact h.deletePod pod
  | updateSelectorObj obj => exact h.updateSelectorObj obj hn
  | updateSelectorObjNoCallback obj => exact h.updateSelectorObj obj hn
  | deleteSelectorObj obj => exact h.deleteSelectorObj obj

/-- Without a pod hash the index relates, after every prefix of every run in which no
object names the empty namespace, exactly the objects and pods that the selectors
relate, and both lookups read the same relation. -/
theorem index_exact (fn : Funcs Obj) (hh : fn.podHashFunc = none) (events : List (Event Obj))
    (h : Along (step fn) (fun σ e => Listed σ e ∧ NamesNamespaces fn e) start events) (k : Nat) :
    ∀ o p, let σ := run (step fn) start (events.take k)
      (p ∈ σ.index.getPodForObj o ↔ o ∈ σ.index.getObjForPod p) ∧
      (p ∈ σ.index.getPodForObj o ↔ Selected fn σ.store o p) := by
  intro o p
  have hinv : Inv fn (run (step fn) start (events.take k)) :=
    invariant_take (inv_step hh) start events (inv_start fn) h k
  obtain ⟨t, ht⟩ := hinv.holds
  constructor
  · rw [ht.rows, ht.cols]
    exact t.agree o p
  · exact hinv.exact o p

/-- Selector objects that are a key with a list of selectors. -/
def plainFuncs : Funcs (String × List PodSelector) := ⟨Prod.fst, Prod.snd, none⟩

def webPod : Pod := ⟨"shop", "web", [("app", "web")], "10.1.0.4", []⟩

def shopNamespace : Namespace := ⟨"shop", [("team", "a")]⟩

def teamSelector : String × List PodSelector :=
  ("team", [⟨none, some (.internal [⟨"team", .equals, ["a"]⟩]), everything⟩])

theorem index_exact_team :
    let events := [.updatePod webPod, .updateSelectorObj teamSelector,
      .updateNamespace shopNamespace [teamSelector]]
    Along (step plainFuncs) (fun σ e => Listed σ e ∧ NamesNamespaces plainFuncs e) start events ∧
    "shop/web" ∈ (run (step plainFuncs) start events).index.getPodForObj "team" ∧
    Selected plainFuncs (run (step plainFuncs) start events).store "team" "shop/web" := by
  intro events
  have hok : Along (step plainFuncs) (fun σ e => Listed σ e ∧ NamesNamespaces plainFuncs e) start
    events := by decide
  have hin : "shop/web" ∈ (run (step plainFuncs) start events).index.getPodForObj "team" := by decide
  exact ⟨hok, hin, (index_exact plainFuncs rfl events hok 3 "team" "shop/web").2.mp hin⟩

/-- An object that names the empty namespace. -/
def spanSelector : String × List PodSelector := ("span", podSelectorFromNsAndSelector "" (some ⟨[], []⟩))

/-- With the empty namespace named, the object gets the pod that is already stored,
though the pod is in another namespace, and does not get it when the pod comes later. -/
theorem index_exact_fails :
    let σ := run (step plainFuncs) start [.updatePod webPod, .updateSelectorObj spanSelector]
    let τ := run (step plainFuncs) start [.updateSelectorObj spanSelector, .updatePod webPod]
    "shop/web" ∈ σ.index.getPodForObj "span" ∧ ¬ Selected plainFuncs σ.store "span" "shop/web" ∧
      σ.store.pods = τ.store.pods ∧ σ.store.objs = τ.store.objs ∧ "shop/web" ∉ τ.index.getPodForObj "span" := by
  intro σ τ
  have hsel : ¬ Selected plainFuncs σ.store "span" "shop/web" := by
    intro h
    obtain ⟨obj, hobj, -, pod, hpod, -, selector, hs, -, hcov⟩ := h
    have ho : obj = spanSelector := mem_singleton.mp hobj
    have hp : pod = webPod := mem_singleton.mp hpod
    subst ho hp
    have hss : selector = ⟨some "", none, everything⟩ := mem_singleton.mp hs
    subst hss
    simp [PodSelector.Covers, webPod] at hcov
  exact ⟨by decide, hsel, by decide, by decide, by decide⟩

end AciContainers.Index
