import AciContainers.Labels
import AciContainers.Maps

/-!
# The pod selector index

`pkg/index/pod_selector_index.go`: for selector objects of any kind, which pods each
selects and which objects select each pod. A loop over a Go map whose iterations touch different
keys is one pointwise update; the loop over the selector objects takes its order as an argument.
The keys handed to the two callbacks are returned as sets.
-/
namespace AciContainers.Index

open Labels Maps

structure Pod where
  ns : String
  name : String
  labels : LabelSet
  podIP : String
  podIPs : List String
  deriving DecidableEq

structure Namespace where
  name : String
  labels : LabelSet
  deriving DecidableEq

/-- `MetaNamespaceKeyFunc`. -/
def metaNamespaceKey (ns name : String) : String := if ns = "" then name else ns ++ "/" ++ name

def podKey (pod : Pod) : String := metaNamespaceKey pod.ns pod.name

structure PodSelector where
  ns : Option String
  nsSelector : Option Selector
  podSelector : Selector
  deriving DecidableEq

def podSelectorFromNsAndSelector (ns : String) (selector : Option LabelSelector) :
    List PodSelector :=
  match labelSelectorAsSelector selector with
  | none => []
  | some s => [⟨some ns, none, s⟩]

/-- The informer stores the index reads. -/
structure Store (Obj : Type) where
  pods : List Pod
  namespaces : List Namespace
  objs : List Obj

/-- The functions an index is created with. -/
structure Funcs (Obj : Type) where
  getKey : Obj → String
  getPodSelector : Obj → List PodSelector
  podHashFunc : Option (Pod → String)

abbrev NsMap := Finmap fun _ : String => List Selector

structure PodIndexState where
  objKeys : Finset String
  podHash : String

structure PodSelectorIndex where
  podIndex : Map String PodIndexState
  objPodIndex : Map String (Finset String)
  objNsIndex : Finmap fun _ : String => NsMap

def newPodSelectorIndex : PodSelectorIndex := ⟨Map.empty, Map.empty, ∅⟩

def PodSelectorIndex.getObjForPod (i : PodSelectorIndex) (podkey : String) : Finset String :=
  match i.podIndex podkey with
  | some state => state.objKeys
  | none => ∅

def PodSelectorIndex.getPodForObj (i : PodSelectorIndex) (objkey : String) : Finset String :=
  (i.objPodIndex objkey).getD ∅

/-- Delete an object from a pod's entry, and the entry with its last object. -/
def dropObj (objkey : String) : Option PodIndexState → Option PodIndexState
  | none => none
  | some state =>
    if state.objKeys.erase objkey = ∅ then none
    else some { state with objKeys := state.objKeys.erase objkey }

/-- Delete a pod from an object's set, and the set with its last pod. -/
def dropPod (podkey : String) : Option (Finset String) → Option (Finset String)
  | none => none
  | some objm => if objm.erase podkey = ∅ then none else some (objm.erase podkey)

/-- Keys passed to the pod and the object update callbacks. -/
structure Callbacks where
  pods : Finset String
  objs : Finset String

def PodSelectorIndex.deletePod (i : PodSelectorIndex) (pod : Pod) :
    PodSelectorIndex × Callbacks :=
  let podkey := podKey pod
  let objs := i.getObjForPod podkey
  ({ i with
      objPodIndex := fun objkey =>
        if objkey ∈ objs then dropPod podkey (i.objPodIndex objkey) else i.objPodIndex objkey
      podIndex := i.podIndex.erase podkey },
    ⟨∅, objs.filter fun objkey => (i.objPodIndex objkey).isSome⟩)

variable {Obj : Type}

def Funcs.podHash (fn : Funcs Obj) (pod : Pod) : String :=
  match fn.podHashFunc with
  | some f => f pod
  | none => ""

def NsMap.selectors (namespaces : NsMap) (ns : String) : List Selector :=
  (namespaces.lookup ns).getD []

/-- Some selector kept for the pod's own namespace matches its labels. -/
def NsMap.selectsPod (namespaces : NsMap) (pod : Pod) : Bool :=
  (namespaces.selectors pod.ns).any fun s => s.matchesLabels pod.labels

def PodSelectorIndex.matchedObjs (i : PodSelectorIndex) (pod : Pod) : Finset String :=
  i.objNsIndex.keys.filter fun objkey =>
    (i.objNsIndex.lookup objkey).any fun namespaces => namespaces.selectsPod pod

/-- Returns also whether a pod update should be queued. -/
def PodSelectorIndex.updatePodNoCallback (fn : Funcs Obj) (i : PodSelectorIndex) (pod : Pod) :
    PodSelectorIndex × Callbacks × Bool :=
  if fn.podHashFunc.isSome && fn.podHash pod == "" then
    let r := i.deletePod pod
    (r.1, r.2, false)
  else
    let podkey := podKey pod
    let matched := i.matchedObjs pod
    let fresh := matched.filter fun objkey => podkey ∉ i.getPodForObj objkey
    let stale := i.getObjForPod podkey \ matched
    let oldHash := ((i.podIndex podkey).map PodIndexState.podHash).getD ""
    let rehashed := if fn.podHash pod ≠ oldHash then matched else ∅
    ({ i with
        objPodIndex := fun objkey =>
          if objkey ∈ matched then some (insert podkey (i.getPodForObj objkey))
          else if objkey ∈ stale then dropPod podkey (i.objPodIndex objkey)
          else i.objPodIndex objkey
        podIndex := i.podIndex.put podkey ⟨matched, fn.podHash pod⟩ },
      ⟨∅, fresh ∪ stale ∪ rehashed⟩, fresh ∪ stale ≠ ∅)

def PodSelectorIndex.updatePod (fn : Funcs Obj) (i : PodSelectorIndex) (pod : Pod) :
    PodSelectorIndex × Callbacks :=
  let r := i.updatePodNoCallback fn pod
  (r.1, { r.2.1 with pods := if r.2.2 then {podKey pod} else ∅ })

def NsMap.append (ret : NsMap) (ns : String) (selector : Selector) : NsMap :=
  ret.insert ns (ret.selectors ns ++ [selector])

/-- `ListAll` over the namespaces, appending for every name. -/
def appendMatching (selector : Selector) (nsSelector : Selector) (namespaces : List Namespace)
    (ret : NsMap) : NsMap :=
  (namespaces.filter fun n => nsSelector.matchesLabels n.labels).foldl
    (fun ret n => ret.append n.name selector) ret

def addNamespaces (namespaces : List Namespace) (ret : NsMap) (selector : PodSelector) : NsMap :=
  let ret := match selector.ns with
    | some ns => ret.append ns selector.podSelector
    | none => ret
  match selector.nsSelector with
  | some nsSelector => appendMatching selector.podSelector nsSelector namespaces ret
  | none => ret

def getObjNamespaces (fn : Funcs Obj) (namespaces : List Namespace) (obj : Obj) : NsMap :=
  (fn.getPodSelector obj).foldl (addNamespaces namespaces) ∅

/-- `cache.ListAllByNamespace`: the empty name stands for all namespaces. -/
def listAllByNamespace (pods : List Pod) (ns : String) (selector : Selector) : List Pod :=
  pods.filter fun pod => (ns == "" || pod.ns == ns) && selector.matchesLabels pod.labels

def listedPods (pods : List Pod) (namespaces : NsMap) : Finset String :=
  namespaces.keys.biUnion fun ns =>
    ((namespaces.selectors ns).flatMap fun selector =>
      (listAllByNamespace pods ns selector).map podKey).toFinset

/-- Returns the updated pods and whether the pods of the object changed. A missing
entry is the nil map, which differs from an empty one. -/
def PodSelectorIndex.updateSelectorObjForNs (i : PodSelectorIndex) (pods : List Pod)
    (objkey : String) (namespaces : NsMap) : PodSelectorIndex × Finset String × Bool :=
  let matched := listedPods pods namespaces
  let old := i.getPodForObj objkey
  let objUpdated := i.objPodIndex objkey ≠ some matched
  ({  objNsIndex := i.objNsIndex.insert objkey namespaces
      podIndex := fun podkey =>
        if podkey ∈ matched then
          match i.podIndex podkey with
          | none => some ⟨{objkey}, ""⟩
          | some state => some { state with objKeys := insert objkey state.objKeys }
        else if podkey ∈ old then dropObj objkey (i.podIndex podkey)
        else i.podIndex podkey
      objPodIndex := if objUpdated then i.objPodIndex.put objkey matched else i.objPodIndex },
    matched.filter (fun podkey => objkey ∉ i.getObjForPod podkey) ∪ (old \ matched),
    objUpdated)

/-- One turn of the loop over the selector objects. -/
def PodSelectorIndex.refreshObj (fn : Funcs Obj) (store : Store Obj)
    (acc : PodSelectorIndex × Callbacks) (obj : Obj) : PodSelectorIndex × Callbacks :=
  let objkey := fn.getKey obj
  let namespaces := getObjNamespaces fn store.namespaces obj
  if acc.1.objNsIndex.lookup objkey = some namespaces then acc
  else
    let r := acc.1.updateSelectorObjForNs store.pods objkey namespaces
    (r.1, ⟨acc.2.pods ∪ r.2.1, if r.2.2 then insert objkey acc.2.objs else acc.2.objs⟩)

/-- `UpdateNamespace`, and `DeleteNamespace`, which calls it. -/
def PodSelectorIndex.updateNamespace (fn : Funcs Obj) (store : Store Obj) (order : List Obj)
    (i : PodSelectorIndex) : PodSelectorIndex × Callbacks :=
  order.foldl (PodSelectorIndex.refreshObj fn store) (i, ⟨∅, ∅⟩)

/-- Returns also whether the pods of the object changed. -/
def PodSelectorIndex.updateSelectorObjNoCallback (fn : Funcs Obj) (store : Store Obj)
    (i : PodSelectorIndex) (obj : Obj) : PodSelectorIndex × Callbacks × Bool :=
  let namespaces := getObjNamespaces fn store.namespaces obj
  let r := i.updateSelectorObjForNs store.pods (fn.getKey obj) namespaces
  (r.1, ⟨r.2.1, ∅⟩, r.2.2)

def PodSelectorIndex.updateSelectorObj (fn : Funcs Obj) (store : Store Obj)
    (i : PodSelectorIndex) (obj : Obj) : PodSelectorIndex × Callbacks :=
  let r := i.updateSelectorObjNoCallback fn store obj
  (r.1, { r.2.1 with objs := if r.2.2 then {fn.getKey obj} else ∅ })

def PodSelectorIndex.deleteSelectorObj (fn : Funcs Obj) (i : PodSelectorIndex) (obj : Obj) :
    PodSelectorIndex × Callbacks :=
  let objkey := fn.getKey obj
  let old := i.getPodForObj objkey
  ({  podIndex := fun podkey =>
        if podkey ∈ old then dropObj objkey (i.podIndex podkey) else i.podIndex podkey
      objPodIndex := i.objPodIndex.erase objkey
      objNsIndex := i.objNsIndex.erase objkey },
    ⟨old.filter fun podkey => (i.podIndex podkey).isSome, ∅⟩)

def Store.setPod (store : Store Obj) (pod : Pod) : Store Obj :=
  { store with pods := pod :: store.pods.filter fun p => podKey p ≠ podKey pod }

def Store.removePod (store : Store Obj) (pod : Pod) : Store Obj :=
  { store with pods := store.pods.filter fun p => podKey p ≠ podKey pod }

def Store.setNamespace (store : Store Obj) (ns : Namespace) : Store Obj :=
  { store with namespaces := ns :: store.namespaces.filter fun n => n.name ≠ ns.name }

def Store.removeNamespace (store : Store Obj) (ns : Namespace) : Store Obj :=
  { store with namespaces := store.namespaces.filter fun n => n.name ≠ ns.name }

def Store.setObj (fn : Funcs Obj) (store : Store Obj) (obj : Obj) : Store Obj :=
  { store with objs := obj :: store.objs.filter fun o => fn.getKey o ≠ fn.getKey obj }

def Store.removeObj (fn : Funcs Obj) (store : Store Obj) (obj : Obj) : Store Obj :=
  { store with objs := store.objs.filter fun o => fn.getKey o ≠ fn.getKey obj }

/-- The events of the informers, each with the change of its store. A namespace event
carries the order in which the store lists the selector objects. -/
inductive Event (Obj : Type) where
  | updateNamespace (ns : Namespace) (order : List Obj)
  | deleteNamespace (ns : Namespace) (order : List Obj)
  | updatePod (pod : Pod)
  | updatePodNoCallback (pod : Pod)
  | deletePod (pod : Pod)
  | updateSelectorObj (obj : Obj)
  | updateSelectorObjNoCallback (obj : Obj)
  | deleteSelectorObj (obj : Obj)

structure State (Obj : Type) where
  store : Store Obj
  index : PodSelectorIndex

def start : State Obj := ⟨⟨[], [], []⟩, newPodSelectorIndex⟩

def Event.store (fn : Funcs Obj) (s : Store Obj) : Event Obj → Store Obj
  | .updateNamespace ns _ => s.setNamespace ns
  | .deleteNamespace ns _ => s.removeNamespace ns
  | .updatePod pod | .updatePodNoCallback pod => s.setPod pod
  | .deletePod pod => s.removePod pod
  | .updateSelectorObj obj | .updateSelectorObjNoCallback obj => s.setObj fn obj
  | .deleteSelectorObj obj => s.removeObj fn obj

/-- The handler of an event over the changed store. -/
def Event.handle (fn : Funcs Obj) (s : Store Obj) (i : PodSelectorIndex) :
    Event Obj → PodSelectorIndex × Callbacks
  | .updateNamespace _ order | .deleteNamespace _ order => i.updateNamespace fn s order
  | .updatePod pod => i.updatePod fn pod
  | .updatePodNoCallback pod =>
    let r := i.updatePodNoCallback fn pod
    (r.1, r.2.1)
  | .deletePod pod => i.deletePod pod
  | .updateSelectorObj obj => i.updateSelectorObj fn s obj
  | .updateSelectorObjNoCallback obj =>
    let r := i.updateSelectorObjNoCallback fn s obj
    (r.1, r.2.1)
  | .deleteSelectorObj obj => i.deleteSelectorObj fn obj

def callbacks (fn : Funcs Obj) (σ : State Obj) (e : Event Obj) : Callbacks :=
  (e.handle fn (e.store fn σ.store) σ.index).2

def step (fn : Funcs Obj) (σ : State Obj) (e : Event Obj) : State Obj :=
  ⟨e.store fn σ.store, (e.handle fn (e.store fn σ.store) σ.index).1⟩

end AciContainers.Index
