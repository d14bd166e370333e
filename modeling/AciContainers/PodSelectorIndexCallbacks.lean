import AciContainers.PodSelectorIndexExact

/-!
# Callbacks of the pod selector index

In every reachable state, with or without a pod hash and whatever the selectors name, an event
hands to the object callback each object whose pods it changes or rehashes, and to the pod
callback each pod whose objects it changes. This rests on two invariants: the two directions
agree, and the hash kept for a pod is empty or that of the stored pod.
-/
namespace AciContainers.Index

open Labels Maps Relations Runs Finset

variable {pods : List Pod} {p o : String} {i j k : PodSelectorIndex} {fn : Funcs Obj} {store store' : Store Obj}
  {pod : Pod} {t : TwoWay String String} {s u : Finset String} {Obj : Type}

/-- The hash of the stored pod with this key, empty when there is none. -/
def storedHash (fn : Funcs Obj) (store : Store Obj) (p : String) : String :=
  ((store.pods.find? fun pod => podKey pod = p).map fn.podHash).getD ""

theorem find?_filter_key {k : String} (h : p ≠ k) :
    (pods.filter fun pod => podKey pod ≠ k).find? (fun pod => podKey pod = p) =
      pods.find? fun pod => podKey pod = p := by
  induction pods with
  | nil => rfl
  | cons pod pods ih =>
    by_cases hk : podKey pod = k
    · have hp : ¬ podKey pod = p := fun e => h (e.symm.trans hk)
      rw [List.filter_cons, if_neg (by simpa using hk), ih, List.find?_cons_of_neg (by simpa using hp)]
    · rw [List.filter_cons, if_pos (by simpa using hk)]
      simp only [List.find?_cons, ih]

theorem storedHash_setPod (fn : Funcs Obj) (store : Store Obj) (pod : Pod) (p : String) :
    storedHash fn (store.setPod pod) p = if p = podKey pod then fn.podHash pod else storedHash fn store p := by
  by_cases hp : p = podKey pod
  · simp [storedHash, Store.setPod, hp]
  · have hp' : ¬ podKey pod = p := fun e => hp e.symm
    rw [if_neg hp]
    simp only [storedHash, Store.setPod, List.find?_cons, hp', decide_false]
    rw [find?_filter_key hp]

theorem storedHash_removePod (fn : Funcs Obj) (store : Store Obj) (pod : Pod) (h : p ≠ podKey pod) :
    storedHash fn (store.removePod pod) p = storedHash fn store p := by
  simp only [storedHash, Store.removePod]
  rw [find?_filter_key h]

/-- The kept hashes are those of the stored pods, or none was computed yet. -/
def HashOk (fn : Funcs Obj) (store : Store Obj) (i : PodSelectorIndex) : Prop :=
  ∀ p state, i.podIndex p = some state →
    state.podHash = "" ∨ state.podHash = storedHash fn store p

/-- Pod entries of the second index have the hash they had, or none. -/
def KeepsHash (i j : PodSelectorIndex) : Prop :=
  ∀ p state, j.podIndex p = some state →
    state.podHash = "" ∨ ∃ old, i.podIndex p = some old ∧ state.podHash = old.podHash

theorem KeepsHash.refl (i : PodSelectorIndex) : KeepsHash i i :=
  fun _ state h => .inr ⟨state, h, rfl⟩

theorem KeepsHash.trans (hij : KeepsHash i j) (hjk : KeepsHash j k) : KeepsHash i k := by
  intro p state hs
  cases hjk p state hs with
  | inl h => exact .inl h
  | inr h =>
    obtain ⟨mid, hm, he⟩ := h
    rw [he]
    exact hij p mid hm

theorem KeepsHash.hashOk (hk : KeepsHash i j) (h : HashOk fn store i) (hp : store'.pods = store.pods) :
    HashOk fn store' j := by
  intro p state hs
  cases hk p state hs with
  | inl he => exact .inl he
  | inr hold =>
    obtain ⟨old, ho, he⟩ := hold
    rw [he, storedHash, hp]
    exact h p old ho

theorem podHash_of_dropObj {x : Option PodIndexState} {state : PodIndexState}
    (h : dropObj o x = some state) : ∃ old, x = some old ∧ state.podHash = old.podHash := by
  cases x with
  | none => exact absurd h (by simp [dropObj])
  | some old =>
    by_cases he : old.objKeys.erase o = ∅
    · simp [dropObj, he] at h
    · simp only [dropObj, he, if_false, Option.some.injEq] at h
      exact ⟨old, rfl, h ▸ rfl⟩

theorem keepsHash_updateSelectorObjForNs (i : PodSelectorIndex) (objkey : String) (namespaces : NsMap) :
    KeepsHash i (i.updateSelectorObjForNs pods objkey namespaces).1 := by
  intro p state hs
  simp only [PodSelectorIndex.updateSelectorObjForNs] at hs
  by_cases hm : p ∈ listedPods pods namespaces
  · rw [if_pos hm] at hs
    cases hp : i.podIndex p with
    | none =>
      simp only [hp, Option.some.injEq] at hs
      exact .inl (hs ▸ rfl)
    | some old =>
      simp only [hp, Option.some.injEq] at hs
      exact .inr ⟨old, rfl, hs ▸ rfl⟩
  rw [if_neg hm] at hs
  by_cases ho : p ∈ i.getPodForObj objkey
  · rw [if_pos ho] at hs
    exact .inr (podHash_of_dropObj hs)
  · rw [if_neg ho] at hs
    exact .inr ⟨state, hs, rfl⟩

theorem keepsHash_deleteSelectorObj (fn : Funcs Obj) (i : PodSelectorIndex) (obj : Obj) :
    KeepsHash i (i.deleteSelectorObj fn obj).1 := by
  intro p state hs
  simp only [PodSelectorIndex.deleteSelectorObj] at hs
  by_cases ho : p ∈ i.getPodForObj (fn.getKey obj)
  · rw [if_pos ho] at hs
    exact .inr (podHash_of_dropObj hs)
  · rw [if_neg ho] at hs
    exact .inr ⟨state, hs, rfl⟩

theorem keepsHash_refresh (fn : Funcs Obj) (store : Store Obj) (order : List Obj) (acc : PodSelectorIndex × Callbacks) :
    KeepsHash acc.1 (order.foldl (PodSelectorIndex.refreshObj fn store) acc).1 := by
  induction order generalizing acc with
  | nil => exact KeepsHash.refl acc.1
  | cons obj order ih =>
    apply KeepsHash.trans _ (ih _)
    unfold PodSelectorIndex.refreshObj
    dsimp only
    split
    · exact KeepsHash.refl acc.1
    · exact keepsHash_updateSelectorObjForNs _ _ _

/-- The pod event finds no hash. -/
def HashEmpty (fn : Funcs Obj) (pod : Pod) : Prop :=
  (fn.podHashFunc.isSome && fn.podHash pod == "") = true

theorem updatePodNoCallback_of_empty (h : HashEmpty fn pod) (i : PodSelectorIndex) :
    i.updatePodNoCallback fn pod = ((i.deletePod pod).1, (i.deletePod pod).2, false) := by
  exact if_pos h

theorem updatePodNoCallback_podIndex (h : ¬ HashEmpty fn pod) (i : PodSelectorIndex) :
    (i.updatePodNoCallback fn pod).1.podIndex = i.podIndex.put (podKey pod) ⟨i.matchedObjs pod, fn.podHash pod⟩ := by
  unfold PodSelectorIndex.updatePodNoCallback
  unfold HashEmpty at h
  rw [if_neg h]

theorem hashOk_deletePod (h : HashOk fn store i) (pod : Pod)
    (hs : ∀ p, p ≠ podKey pod → storedHash fn store' p = storedHash fn store p) :
    HashOk fn store' (i.deletePod pod).1 := by
  intro p state hp
  simp only [PodSelectorIndex.deletePod] at hp
  by_cases hk : p = podKey pod
  · rw [hk, erase_same] at hp
    simp at hp
  · rw [erase_other _ hk] at hp
    rw [hs p hk]
    exact h p state hp

theorem hashOk_updatePod (h : HashOk fn store i) (pod : Pod) :
    HashOk fn (store.setPod pod) (i.updatePodNoCallback fn pod).1 := by
  have hother : ∀ p, p ≠ podKey pod →
      storedHash fn (store.setPod pod) p = storedHash fn store p := by
    intro p hp
    rw [storedHash_setPod, if_neg hp]
  by_cases hh : HashEmpty fn pod
  · rw [updatePodNoCallback_of_empty hh]
    exact hashOk_deletePod h pod hother
  intro p state hp
  rw [updatePodNoCallback_podIndex hh] at hp
  by_cases hk : p = podKey pod
  · rw [hk, put_same, Option.some.injEq] at hp
    rw [storedHash_setPod, if_pos hk]
    exact .inr (hp ▸ rfl)
  · rw [put_other _ _ hk] at hp
    rw [hother p hk]
    exact h p state hp

structure Consistent (fn : Funcs Obj) (σ : State Obj) : Prop where
  holds : ∃ t, Holds σ.index t
  hash : HashOk fn σ.store σ.index

theorem consistent_start (fn : Funcs Obj) : Consistent fn start :=
  ⟨⟨_, holds_new⟩, fun p state h => absurd h (by simp [start, newPodSelectorIndex])⟩

theorem consistent_step (fn : Funcs Obj) (σ : State Obj) (e : Event Obj) (h : Consistent fn σ) :
    Consistent fn (step fn σ e) := by
  obtain ⟨⟨t, ht⟩, hh⟩ := h
  cases e with
  | updateNamespace ns order =>
    exact ⟨@holds_refresh _ fn _ order (σ.index, ⟨∅, ∅⟩) t ht, (keepsHash_refresh fn _ order _).hashOk hh rfl⟩
  | deleteNamespace ns order =>
    exact ⟨@holds_refresh _ fn _ order (σ.index, ⟨∅, ∅⟩) t ht, (keepsHash_refresh fn _ order _).hashOk hh rfl⟩
  | updatePod pod => exact ⟨⟨_, holds_updatePodNoCallback fn ht pod⟩, hashOk_updatePod hh pod⟩
  | updatePodNoCallback pod =>
    exact ⟨⟨_, holds_updatePodNoCallback fn ht pod⟩, hashOk_updatePod hh pod⟩
  | deletePod pod =>
    exact ⟨⟨_, holds_deletePod ht pod⟩, hashOk_deletePod hh pod fun p hp => storedHash_removePod fn σ.store pod hp⟩
  | updateSelectorObj obj =>
    exact ⟨⟨_, holds_updateSelectorObjForNs ht _ _ _⟩, (keepsHash_updateSelectorObjForNs _ _ _).hashOk hh rfl⟩
  | updateSelectorObjNoCallback obj =>
    exact ⟨⟨_, holds_updateSelectorObjForNs ht _ _ _⟩, (keepsHash_updateSelectorObjForNs _ _ _).hashOk hh rfl⟩
  | deleteSelectorObj obj =>
    exact ⟨⟨_, holds_deleteSelectorObj fn ht obj⟩, (keepsHash_deleteSelectorObj fn _ obj).hashOk hh rfl⟩

theorem consistent_run (fn : Funcs Obj) (events : List (Event Obj)) : Consistent fn (run (step fn) start events) := by
  exact invariant_run (fun s e hs _ => consistent_step fn s e hs) start events (consistent_start fn)
    (along_of_forall _ _ fun _ _ => trivial)

/-- Whatever the pod hash and the selectors, the two lookups of the index agree after every run, and
the hash kept for a pod is empty or that of the stored pod. -/
theorem lookups_agree (fn : Funcs Obj) (events : List (Event Obj)) :
    let σ := run (step fn) start events
    (∀ o p, p ∈ σ.index.getPodForObj o ↔ o ∈ σ.index.getObjForPod p) ∧ HashOk fn σ.store σ.index := by
  obtain ⟨⟨t, ht⟩, hhash⟩ := consistent_run fn events
  refine ⟨fun o p => ?_, hhash⟩
  rw [ht.rows, ht.cols]
  exact t.agree o p

/-- Between the two indexes only the given objects change their pods. -/
def RowsWithin (i j : PodSelectorIndex) (objs : Finset String) : Prop :=
  ∀ o, j.getPodForObj o ≠ i.getPodForObj o → o ∈ objs

/-- Between the two indexes only the given pods change their objects. -/
def ColsWithin (i j : PodSelectorIndex) (pods : Finset String) : Prop :=
  ∀ p, j.getObjForPod p ≠ i.getObjForPod p → p ∈ pods

theorem rowsWithin_deletePod (h : Holds i t) (pod : Pod) :
    RowsWithin i (i.deletePod pod).1 (i.deletePod pod).2.objs := by
  intro o ho
  rw [(holds_deletePod h pod).rows, h.rows] at ho
  have hmem : o ∈ t.cols (podKey pod) := by
    by_contra hn
    exact ho (setCol_rows_of_stable t _ _ (by simp [hn]))
  have hpod : podKey pod ∈ i.getPodForObj o := by rwa [h.rows, t.agree]
  simp only [PodSelectorIndex.deletePod, mem_filter]
  refine ⟨by rwa [h.cols], ?_⟩
  cases hs : i.objPodIndex o with
  | none => simp [PodSelectorIndex.getPodForObj, hs] at hpod
  | some objm => rfl

theorem mem_fresh_or_stale (h : Holds i t) (ho : ¬ (o ∈ i.matchedObjs pod ↔ o ∈ t.cols (podKey pod))) :
    o ∈ ((i.matchedObjs pod).filter fun objkey => podKey pod ∉ i.getPodForObj objkey) ∪
      (i.getObjForPod (podKey pod) \ i.matchedObjs pod) := by
  by_cases hm : o ∈ i.matchedObjs pod
  · have hc : o ∉ t.cols (podKey pod) := fun hc => ho (iff_of_true hm hc)
    rw [← t.agree, ← h.rows] at hc
    exact mem_union_left _ (mem_filter.mpr ⟨hm, hc⟩)
  · have hc : o ∈ t.cols (podKey pod) := by
      by_contra hc
      exact ho (iff_of_false hm hc)
    rw [← h.cols] at hc
    exact mem_union_right _ (mem_sdiff.mpr ⟨hc, hm⟩)

theorem rowsWithin_updatePodNoCallback (fn : Funcs Obj) (h : Holds i t) (pod : Pod) :
    RowsWithin i (i.updatePodNoCallback fn pod).1 (i.updatePodNoCallback fn pod).2.1.objs := by
  by_cases hh : HashEmpty fn pod
  · rw [updatePodNoCallback_of_empty hh]
    exact rowsWithin_deletePod h pod
  intro o ho
  rw [(holds_updatePodNoCallback fn h pod).rows, h.rows] at ho
  unfold HashEmpty at hh
  have hcol : i.newCol fn pod = i.matchedObjs pod := if_neg hh
  rw [hcol] at ho
  have hmem := mem_fresh_or_stale h fun hs => ho (setCol_rows_of_stable t _ _ hs)
  unfold PodSelectorIndex.updatePodNoCallback
  rw [if_neg hh]
  exact mem_union_left _ hmem

/-- A pod that keeps its object while its hash changes. -/
theorem rehashed_updatePodNoCallback (h : Holds i t) (hs : HashOk fn store i) (pod : Pod)
    (hp : p ∈ (i.updatePodNoCallback fn pod).1.getPodForObj o)
    (hc : storedHash fn (store.setPod pod) p ≠ storedHash fn store p) :
    o ∈ (i.updatePodNoCallback fn pod).2.1.objs := by
  rw [storedHash_setPod] at hc
  by_cases hk : p = podKey pod
  swap
  · rw [if_neg hk] at hc
    exact absurd rfl hc
  rw [if_pos hk] at hc
  rw [(holds_updatePodNoCallback fn h pod).rows, TwoWay.agree, setCol_cols, if_pos hk] at hp
  unfold PodSelectorIndex.newCol at hp
  by_cases hh : (fn.podHashFunc.isSome && fn.podHash pod == "") = true
  · rw [if_pos hh] at hp
    exact absurd hp (notMem_empty o)
  rw [if_neg hh] at hp
  have hne : fn.podHash pod ≠ ((i.podIndex (podKey pod)).map PodIndexState.podHash).getD "" := by
    have hempty : fn.podHash pod = "" → fn.podHashFunc = none := by
      intro he
      simpa [he] using hh
    have hzero : fn.podHash pod ≠ "" := by
      intro he
      have hnone := hempty he
      apply hc
      have hconst : ∀ q, fn.podHash q = "" := fun q => by simp [Funcs.podHash, hnone]
      rw [he]
      unfold storedHash
      cases store.pods.find? fun q => decide (podKey q = p) with
      | none => rfl
      | some q => exact (hconst q).symm
    cases hst : i.podIndex (podKey pod) with
    | none => simpa using hzero
    | some state =>
      cases hs (podKey pod) state hst with
      | inl he => simpa [he] using hzero
      | inr he =>
        rw [← hk] at he
        simpa [he] using hc
  unfold PodSelectorIndex.updatePodNoCallback
  rw [if_neg hh]
  apply mem_union_right
  rw [if_pos hne]
  exact hp

theorem rowsWithin_updateSelectorObjForNs (h : Holds i t) (pods : List Pod) (objkey : String) (namespaces : NsMap) :
    RowsWithin i (i.updateSelectorObjForNs pods objkey namespaces).1
      (if (i.updateSelectorObjForNs pods objkey namespaces).2.2 then {objkey} else ∅) := by
  intro o ho
  rw [(holds_updateSelectorObjForNs h pods objkey namespaces).rows, setRow_rows, ← h.rows] at ho
  by_cases hk : o = objkey
  · rw [if_pos hk] at ho
    have hu : i.objPodIndex objkey ≠ some (listedPods pods namespaces) := by
      intro he
      apply ho
      rw [hk, PodSelectorIndex.getPodForObj, he]
      rfl
    simp [PodSelectorIndex.updateSelectorObjForNs, hu, hk]
  · rw [if_neg hk] at ho
    exact absurd rfl ho

theorem colsWithin_updateSelectorObjForNs (h : Holds i t) (pods : List Pod) (objkey : String) (namespaces : NsMap) :
    ColsWithin i (i.updateSelectorObjForNs pods objkey namespaces).1
      (i.updateSelectorObjForNs pods objkey namespaces).2.1 := by
  intro p hp
  rw [(holds_updateSelectorObjForNs h pods objkey namespaces).cols, h.cols] at hp
  have hdiff : ¬ (p ∈ listedPods pods namespaces ↔ p ∈ t.rows objkey) :=
    fun hs => hp (setRow_cols_of_stable t _ _ hs)
  simp only [PodSelectorIndex.updateSelectorObjForNs, mem_union, mem_filter, mem_sdiff, h.cols, h.rows, ← t.agree]
  by_cases hm : p ∈ listedPods pods namespaces
  · exact .inl ⟨hm, fun hr => hdiff (iff_of_true hm hr)⟩
  · refine .inr ⟨?_, hm⟩
    by_contra hr
    exact hdiff (iff_of_false hm hr)

theorem colsWithin_deleteSelectorObj (fn : Funcs Obj) (h : Holds i t) (obj : Obj) :
    ColsWithin i (i.deleteSelectorObj fn obj).1 (i.deleteSelectorObj fn obj).2.pods := by
  intro p hp
  rw [(holds_deleteSelectorObj fn h obj).cols, h.cols] at hp
  have hmem : p ∈ t.rows (fn.getKey obj) := by
    by_contra hn
    exact hp (setRow_cols_of_stable t _ _ (by simp [hn]))
  have hobj : fn.getKey obj ∈ i.getObjForPod p := by rwa [h.cols, ← t.agree]
  simp only [PodSelectorIndex.deleteSelectorObj, mem_filter]
  refine ⟨by rwa [h.rows], ?_⟩
  cases hs : i.podIndex p with
  | none => simp [PodSelectorIndex.getObjForPod, hs] at hobj
  | some state => rfl

theorem RowsWithin.trans (hij : RowsWithin i j s) (hjk : RowsWithin j k u) (hsub : s ⊆ u) : RowsWithin i k u := by
  intro o ho
  by_cases hsame : j.getPodForObj o = i.getPodForObj o
  · exact hjk o (hsame ▸ ho)
  · exact hsub (hij o hsame)

theorem ColsWithin.trans (hij : ColsWithin i j s) (hjk : ColsWithin j k u) (hsub : s ⊆ u) : ColsWithin i k u := by
  intro p hp
  by_cases hsame : j.getObjForPod p = i.getObjForPod p
  · exact hjk p (hsame ▸ hp)
  · exact hsub (hij p hsame)

/-- A turn of the loop collects what it changes. -/
theorem within_refreshObj (fn : Funcs Obj) (store : Store Obj) {acc : PodSelectorIndex × Callbacks}
    (h : Holds acc.1 t) (obj : Obj) :
    let out := PodSelectorIndex.refreshObj fn store acc obj
    (RowsWithin acc.1 out.1 out.2.objs ∧ acc.2.objs ⊆ out.2.objs) ∧
      ColsWithin acc.1 out.1 out.2.pods ∧ acc.2.pods ⊆ out.2.pods := by
  unfold PodSelectorIndex.refreshObj
  dsimp only
  split
  · exact ⟨⟨fun o ho => absurd rfl ho, subset_rfl⟩, fun p hp => absurd rfl hp, subset_rfl⟩
  have hrows := rowsWithin_updateSelectorObjForNs h store.pods (fn.getKey obj)
    (getObjNamespaces fn store.namespaces obj)
  have hcols := colsWithin_updateSelectorObjForNs h store.pods (fn.getKey obj)
    (getObjNamespaces fn store.namespaces obj)
  refine ⟨?_, fun p hp => mem_union_right _ (hcols p hp), subset_union_left⟩
  split
  · rename_i hu
    rw [if_pos hu] at hrows
    exact ⟨fun o ho => mem_insert.mpr (.inl (mem_singleton.mp (hrows o ho))),
      subset_insert _ _⟩
  · rename_i hu
    rw [if_neg hu] at hrows
    exact ⟨fun o ho => absurd (hrows o ho) (notMem_empty o), subset_rfl⟩

/-- The loop collects what its turns change. -/
theorem within_refresh (fn : Funcs Obj) (store : Store Obj) (order : List Obj)
    {acc : PodSelectorIndex × Callbacks} {t : TwoWay String String} (h : Holds acc.1 t)
    {i : PodSelectorIndex} (hr : RowsWithin i acc.1 acc.2.objs) (hc : ColsWithin i acc.1 acc.2.pods) :
    let out := order.foldl (PodSelectorIndex.refreshObj fn store) acc
    RowsWithin i out.1 out.2.objs ∧ ColsWithin i out.1 out.2.pods := by
  induction order generalizing acc t with
  | nil => exact ⟨hr, hc⟩
  | cons obj order ih =>
    obtain ⟨t', h'⟩ := holds_refreshObj fn store h obj
    obtain ⟨⟨hrow, hobjs⟩, hcol, hpods⟩ := within_refreshObj fn store h obj
    exact ih h' (hr.trans hrow hobjs) (hc.trans hcol hpods)

theorem within_updateNamespace (fn : Funcs Obj) (store : Store Obj) (order : List Obj) (h : Holds i t) :
    RowsWithin i (i.updateNamespace fn store order).1 (i.updateNamespace fn store order).2.objs ∧
      ColsWithin i (i.updateNamespace fn store order).1 (i.updateNamespace fn store order).2.pods :=
  @within_refresh _ fn store order (i, ⟨∅, ∅⟩) t h i (fun _ ho => absurd rfl ho)
    fun _ hp => absurd rfl hp

/-- Without a pod hash the result of a pod event tells that the objects of its pod, the
only one concerned, changed. -/
theorem reports_updatePodNoCallback (hh : fn.podHashFunc = none) (h : Holds i t) (pod : Pod)
    (hp : (i.updatePodNoCallback fn pod).1.getObjForPod p ≠ i.getObjForPod p) :
    p = podKey pod ∧ (i.updatePodNoCallback fn pod).2.2 = true := by
  have hne : ¬ HashEmpty fn pod := by simp [HashEmpty, hh]
  unfold HashEmpty at hne
  have hcol : i.newCol fn pod = i.matchedObjs pod := if_neg hne
  rw [(holds_updatePodNoCallback fn h pod).cols, setCol_cols, hcol, h.cols] at hp
  by_cases hk : p = podKey pod
  swap
  · rw [if_neg hk] at hp
    exact absurd rfl hp
  rw [if_pos hk, hk] at hp
  have hdiff : ∃ o, ¬ (o ∈ i.matchedObjs pod ↔ o ∈ t.cols (podKey pod)) := by
    by_contra hall
    push Not at hall
    exact hp (ext hall)
  obtain ⟨o, ho⟩ := hdiff
  have hmem := mem_fresh_or_stale h ho
  unfold PodSelectorIndex.updatePodNoCallback
  rw [if_neg hne]
  exact ⟨hk, decide_eq_true (ne_empty_of_mem hmem)⟩

/-- The event calls the object callback for what it changes. -/
def Event.callsObjs : Event Obj → Prop
  | .updateSelectorObjNoCallback _ => False
  | _ => True

def Event.deletedObj (fn : Funcs Obj) : Event Obj → Option String
  | .deleteSelectorObj obj => some (fn.getKey obj)
  | _ => none

def Event.deletedPod : Event Obj → Option String
  | .deletePod pod => some (podKey pod)
  | _ => none

/-- The result of the event asks for an update of this pod. -/
def Event.reports (fn : Funcs Obj) (i : PodSelectorIndex) (p : String) : Event Obj → Prop
  | .updatePodNoCallback pod => p = podKey pod ∧ (i.updatePodNoCallback fn pod).2.2 = true
  | _ => False

/-- The object changed its pods, or kept a pod whose hash changed. -/
def Affected (fn : Funcs Obj) (σ τ : State Obj) (o : String) : Prop :=
  τ.index.getPodForObj o ≠ σ.index.getPodForObj o ∨
    ∃ p, p ∈ σ.index.getPodForObj o ∧ p ∈ τ.index.getPodForObj o ∧
      storedHash fn τ.store p ≠ storedHash fn σ.store p

theorem Affected.rows_ne {fn : Funcs Obj} {σ τ : State Obj} {o : String}
    (h : Affected fn σ τ o) (hp : τ.store.pods = σ.store.pods) : τ.index.getPodForObj o ≠ σ.index.getPodForObj o := by
  cases h with
  | inl h => exact h
  | inr h =>
    obtain ⟨p, -, -, hne⟩ := h
    exact absurd (by rw [storedHash, hp]; rfl) hne

theorem objs_complete (fn : Funcs Obj) {σ : State Obj} (h : Consistent fn σ) (e : Event Obj)
    (o : String) (hcb : e.callsObjs) (hdel : e.deletedObj fn ≠ some o)
    (ha : Affected fn σ (step fn σ e) o) : o ∈ (callbacks fn σ e).objs := by
  obtain ⟨⟨t, ht⟩, hh⟩ := h
  cases e with
  | updateNamespace ns order =>
    exact (within_updateNamespace fn _ order ht).1 o (ha.rows_ne rfl)
  | deleteNamespace ns order =>
    exact (within_updateNamespace fn _ order ht).1 o (ha.rows_ne rfl)
  | updatePod pod =>
    cases ha with
    | inl hrow => exact rowsWithin_updatePodNoCallback fn ht pod o hrow
    | inr hp =>
      obtain ⟨p, -, hp, hne⟩ := hp
      exact rehashed_updatePodNoCallback ht hh pod hp hne
  | updatePodNoCallback pod =>
    cases ha with
    | inl hrow => exact rowsWithin_updatePodNoCallback fn ht pod o hrow
    | inr hp =>
      obtain ⟨p, -, hp, hne⟩ := hp
      exact rehashed_updatePodNoCallback ht hh pod hp hne
  | deletePod pod =>
    cases ha with
    | inl hrow => exact rowsWithin_deletePod ht pod o hrow
    | inr hp =>
      obtain ⟨p, -, hp, hne⟩ := hp
      have hrow : p ∈ (t.setCol (podKey pod) ∅).rows o := (holds_deletePod ht pod).rows o ▸ hp
      rw [TwoWay.agree, setCol_cols] at hrow
      by_cases hk : p = podKey pod
      · rw [if_pos hk] at hrow
        exact absurd hrow (notMem_empty o)
      · exact absurd (storedHash_removePod fn σ.store pod hk) hne
  | updateSelectorObj obj =>
    exact rowsWithin_updateSelectorObjForNs ht _ _ _ o (ha.rows_ne rfl)
  | updateSelectorObjNoCallback obj => exact hcb.elim
  | deleteSelectorObj obj =>
    have hrow := ha.rows_ne rfl
    have ho : o ≠ fn.getKey obj := fun he => hdel (congrArg some he.symm)
    have hsame := (holds_deleteSelectorObj fn ht obj).rows o
    rw [setRow_rows, if_neg ho, ← ht.rows] at hsame
    exact absurd hsame hrow

theorem pods_complete {fn : Funcs Obj} (hf : fn.podHashFunc = none) {σ : State Obj}
    (h : Consistent fn σ) (e : Event Obj) (p : String) (hdel : e.deletedPod ≠ some p)
    (hp : (step fn σ e).index.getObjForPod p ≠ σ.index.getObjForPod p) :
    p ∈ (callbacks fn σ e).pods ∨ e.reports fn σ.index p := by
  obtain ⟨⟨t, ht⟩, -⟩ := h
  cases e with
  | updateNamespace ns order => exact .inl ((within_updateNamespace fn _ order ht).2 p hp)
  | deleteNamespace ns order => exact .inl ((within_updateNamespace fn _ order ht).2 p hp)
  | updatePod pod =>
    obtain ⟨hk, hres⟩ := reports_updatePodNoCallback hf ht pod hp
    simp [callbacks, Event.handle, PodSelectorIndex.updatePod, hres, hk]
  | updatePodNoCallback pod => exact .inr (reports_updatePodNoCallback hf ht pod hp)
  | deletePod pod =>
    have hk : p ≠ podKey pod := fun he => hdel (congrArg some he.symm)
    exact absurd (getObjForPod_congr (erase_other _ hk)) hp
  | updateSelectorObj obj => exact .inl (colsWithin_updateSelectorObjForNs ht _ _ _ p hp)
  | updateSelectorObjNoCallback obj => exact .inl (colsWithin_updateSelectorObjForNs ht _ _ _ p hp)
  | deleteSelectorObj obj => exact .inl (colsWithin_deleteSelectorObj fn ht obj p hp)

/-- After every run, the next event calls the object callback for each object that it
affects, other than the one it deletes; and without a pod hash the pod callback for
each pod whose objects it changes, other than the one it deletes, unless the result of
the event reports that. -/
theorem callbacks_complete (fn : Funcs Obj) (events : List (Event Obj)) (e : Event Obj) :
    let σ := run (step fn) start events
    (∀ o, e.callsObjs → e.deletedObj fn ≠ some o → Affected fn σ (step fn σ e) o → o ∈ (callbacks fn σ e).objs) ∧
    (fn.podHashFunc = none → ∀ p, e.deletedPod ≠ some p →
      (step fn σ e).index.getObjForPod p ≠ σ.index.getObjForPod p →
      p ∈ (callbacks fn σ e).pods ∨ e.reports fn σ.index p) := by
  intro σ
  have h : Consistent fn σ := consistent_run fn events
  exact ⟨fun o hcb hdel ha => objs_complete fn h e o hcb hdel ha,
    fun hf p hdel hp => pods_complete hf h e p hdel hp⟩

/-- The pod of the team's namespace gets another address, and the namespace gets its
label after the pod. -/
theorem callbacks_complete_team :
    let fn : Funcs (String × List PodSelector) := { plainFuncs with podHashFunc := some Pod.podIP }
    let early := [.updateNamespace shopNamespace [], .updateSelectorObj teamSelector, .updatePod webPod]
    let late := [.updatePod webPod, .updateSelectorObj teamSelector]
    let moved : Event (String × List PodSelector) := .updatePod { webPod with podIP := "10.1.0.5" }
    let labelled := .updateNamespace shopNamespace [teamSelector]
    "team" ∈ (callbacks fn (run (step fn) start early) moved).objs ∧
      "shop/web" ∈ (callbacks plainFuncs (run (step plainFuncs) start late) labelled).pods := by
  intro fn early late moved labelled
  constructor
  · apply (callbacks_complete fn early moved).1 "team" trivial (by decide)
    exact .inr ⟨"shop/web", by decide, by decide, by decide⟩
  · have h := (callbacks_complete plainFuncs late labelled).2 rfl "shop/web" (by decide) (by decide)
    exact h.resolve_right id

end AciContainers.Index
