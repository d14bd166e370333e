import AciContainers.ApicMetadata

/-!
# Writing objects and the DN index

`doWriteApicObjects` of `pkg/apicapi/apic_sync.go`: the objects of a key are tagged and sorted,
compared with those that the key had before, and put in their place. In the index from DNs to
desired objects the new objects are entered, then the DNs that the comparison deletes are
removed, each with what is below it. The hash that makes a tag of a key and the version of the
APIC are arguments.
-/
namespace AciContainers.Apic

open Maps Merge List Finmap

structure Naming where
  apicVersion : String
  getTagFromKey : String → String

def aciContainersAnnotKey : String := "aci-containers-controller-tag"

def aciContainersOwnerAnnotation : String := "orchestrator:aci-containers-controller"

def newApicObject (className : String) : ApicObject :=
  ⟨className, "", fun p => ((metadata className).bind (·.attributes.lookup p)).map .str, []⟩

def newTagAnnotation (apicVersion parentDn key : String) : ApicObject :=
  let dn := if apicVersion ≥ "4.1" then parentDn ++ "/annotationKey-[" ++ key ++ "]"
    else parentDn ++ "/annotationKey-" ++ key
  let ret := newApicObject "tagAnnotation"
  { ret with attributes := (ret.attributes.put "key" (.str key)).put "dn" (.str dn) }

/-- The walk of `SetTag` through the children, last one first: it ends at the controller's own
tag, and any other tag annotation that it passes is taken out. -/
def setTagLoop (tag : String) : List ApicObject → Bool × List ApicObject
  | [] => (false, [])
  | c :: rest =>
    if c.className = "tagAnnotation" then
      if c.attributes "key" = some (.str aciContainersAnnotKey) then
        (true, { c with attributes := c.attributes.put "value" (.str tag) } :: rest)
      else setTagLoop tag rest
    else ((setTagLoop tag rest).1, c :: (setTagLoop tag rest).2)

/-- The children of an object after `SetTag`. -/
def setTag (naming : Naming) (tag attrDn : String) (children : List ApicObject) :
    List ApicObject :=
  let walk := setTagLoop tag children.reverse
  if walk.1 || attrDn = "" then walk.2.reverse
  else
    let ret := newTagAnnotation naming.apicVersion attrDn aciContainersAnnotKey
    walk.2.reverse ++ [{ ret with attributes := ret.attributes.put "value" (.str tag) }]

def portNormalizations : List (String × String) :=
  [("0", "unspecified"), ("20", "ftpData"), ("25", "smtp"), ("53", "dns"), ("80", "http"),
    ("110", "pop3"), ("443", "https"), ("554", "rtsp")]

def protoNormalizations : List (String × String) :=
  [("0", "unspecified"), ("1", "icmp"), ("2", "igmp"), ("6", "tcp"), ("8", "egp"), ("9", "igp"),
    ("17", "udp"), ("58", "icmpv6"), ("88", "eigrp"), ("89", "ospfigp"), ("103", "pim"),
    ("115", "l2tp"), ("132", "sctp")]

def normalizePort (port : String) : String := (portNormalizations.lookup port).getD port

def normalizeProto (proto : String) : String := (protoNormalizations.lookup proto).getD proto

/-- Rewrite the named attributes that are strings. -/
def rewriteStrs (f : String → String) (names : List String) (attributes : Attributes) :
    Attributes := fun p =>
  match attributes p with
  | some (.str v) => some (.str (if p ∈ names then f v else v))
  | other => other

def ruleNormalizer (attributes : Attributes) : Attributes :=
  rewriteStrs normalizeProto ["proto"] (rewriteStrs normalizePort ["toPort", "fromPort"] attributes)

def redirectDestNormalizer (attributes : Attributes) : Attributes :=
  rewriteStrs String.toUpper ["mac"] attributes

def filterEntryNormalizer (attributes : Attributes) : Attributes :=
  rewriteStrs normalizeProto ["prot"]
    (rewriteStrs normalizePort ["dToPort", "dFromPort", "sToPort", "sFromPort"] attributes)

def injectedSvcPortNormalizer (attributes : Attributes) : Attributes :=
  rewriteStrs normalizeProto ["protocol"] (rewriteStrs normalizePort ["port", "nodePort"] attributes)

def normalizer (className : String) : Attributes → Attributes :=
  if className = "hostprotRule" then ruleNormalizer
  else if className = "vnsRedirectDest" then redirectDestNormalizer
  else if className = "vzEntry" then filterEntryNormalizer
  else if className = "vmmInjectedSvcPort" then injectedSvcPortNormalizer
  else id

/-- `sort.Sort` leaves the order of equal DNs open; here they keep it. -/
def sortByDn (os : List ApicObject) : List ApicObject :=
  os.insertionSort fun a b => a.getDn ≤ b.getDn

def annotate (className : String) (attributes : Attributes) : Attributes :=
  if annotated className then
    attributes.put "annotation" (.str aciContainersOwnerAnnotation)
  else attributes

/-- The children that `SetTag` leaves to an object of a class. -/
def tagged (naming : Naming) (tag className : String) (attributes : Attributes)
    (children : List ApicObject) : List ApicObject :=
  if annotated className then setTag naming tag (attributes.getStr "dn") children else children

mutual

/-- One turn of `prepareApicSliceTag`. The children are prepared before the tag is set and
before they are sorted, so that the recursion is on the children as they came; see
`prepareObject_eq` for the order of the source. -/
def prepareObject (naming : Naming) (tag : String) : ApicObject → ApicObject
  | ⟨className, hintDn, attributes, children⟩ =>
    ⟨className, hintDn, normalizer className (annotate className attributes),
      sortByDn (tagged naming tag className attributes (prepareEach naming tag children))⟩

def prepareEach (naming : Naming) (tag : String) : List ApicObject → List ApicObject
  | [] => []
  | o :: os => prepareObject naming tag o :: prepareEach naming tag os

end

def prepareApicSliceTag (naming : Naming) (tag : String) (objects : List ApicObject) :
    List ApicObject :=
  (sortByDn objects).map (prepareObject naming tag)

variable (naming : Naming) (tag className : String) (attributes : Attributes) (o : ApicObject)

theorem prepareEach_eq (os : List ApicObject) : prepareEach naming tag os = os.map (prepareObject naming tag) := by
  induction os with
  | nil => rfl
  | cons o os ih => rw [prepareEach, ih, map_cons]

theorem getStr_rewriteStrs {f : String → String} {names : List String} {p : String} (h : p ∉ names)
    (attributes : Attributes) : (rewriteStrs f names attributes).getStr p = attributes.getStr p := by
  unfold Attributes.getStr rewriteStrs
  cases attributes p with
  | none => rfl
  | some v => cases v <;> simp [h]

@[simp] theorem getStr_normalizer : (normalizer className attributes).getStr "dn" = attributes.getStr "dn" := by
  unfold normalizer
  split
  · rw [ruleNormalizer, getStr_rewriteStrs (by decide), getStr_rewriteStrs (by decide)]
  · split
    · rw [redirectDestNormalizer, getStr_rewriteStrs (by decide)]
    · split
      · rw [filterEntryNormalizer, getStr_rewriteStrs (by decide), getStr_rewriteStrs (by decide)]
      · split
        · rw [injectedSvcPortNormalizer, getStr_rewriteStrs (by decide),
            getStr_rewriteStrs (by decide)]
        · rfl

@[simp] theorem getStr_annotate : (annotate className attributes).getStr "dn" = attributes.getStr "dn" := by
  unfold annotate
  split
  · rw [Attributes.getStr, put_other _ _ (by decide), Attributes.getStr]
  · rfl

@[simp] theorem prepareObject_getDn : (prepareObject naming tag o).getDn = o.getDn := by
  cases o
  simp [prepareObject, ApicObject.getDn]

@[simp] theorem prepareObject_className : (prepareObject naming tag o).className = o.className := by
  cases o
  rw [prepareObject]

/-- A tag annotation keeps its attributes. -/
theorem prepareObject_tag {o : ApicObject} (h : o.className = "tagAnnotation") (f : Attributes → Attributes) :
    prepareObject naming tag { o with attributes := f o.attributes } =
      { prepareObject naming tag o with attributes := f (prepareObject naming tag o).attributes } := by
  obtain ⟨className, hintDn, attributes, children⟩ := o
  obtain rfl : className = "tagAnnotation" := h
  rfl

theorem setTagLoop_map (cs : List ApicObject) : setTagLoop tag (cs.map (prepareObject naming tag)) =
      ((setTagLoop tag cs).1, (setTagLoop tag cs).2.map (prepareObject naming tag)) := by
  induction cs with
  | nil => rfl
  | cons c cs ih =>
    rw [map_cons, setTagLoop, setTagLoop, prepareObject_className, ih]
    by_cases hclass : c.className = "tagAnnotation"
    · have hkey : (prepareObject naming tag c).attributes = c.attributes := by
        obtain ⟨className, hintDn, attributes, children⟩ := c
        obtain rfl : className = "tagAnnotation" := hclass
        rfl
      rw [if_pos hclass, if_pos hclass, hkey]
      split
      · rw [map_cons, prepareObject_tag naming tag hclass fun a => a.put "value" (.str tag)]
        simp [hkey, prepareObject_className]
      · rfl
    · rw [if_neg hclass, if_neg hclass, map_cons]

theorem tagged_map (cs : List ApicObject) : tagged naming tag className attributes (cs.map (prepareObject naming tag)) =
      (tagged naming tag className attributes cs).map (prepareObject naming tag) := by
  unfold tagged setTag
  simp only [← map_reverse, setTagLoop_map]
  split
  · split
    · rw [map_reverse]
    · rw [map_append, map_reverse]
      rfl
  · rfl

theorem sortByDn_map {f : ApicObject → ApicObject} (hf : ∀ o, (f o).getDn = o.getDn)
    (os : List ApicObject) : sortByDn (os.map f) = (sortByDn os).map f := by
  refine (map_insertionSort (fun a b : ApicObject => a.getDn ≤ b.getDn)
    (fun a b : ApicObject => a.getDn ≤ b.getDn) f os fun a _ b _ => ?_).symm
  rw [hf, hf]

/-- The order of the source: the tag is set, then the children are sorted and prepared. -/
theorem prepareObject_eq : prepareObject naming tag o = { o with
        attributes := normalizer o.className (annotate o.className o.attributes)
        children := prepareApicSliceTag naming tag
          (tagged naming tag o.className o.attributes o.children) } := by
  cases o
  rw [prepareObject, prepareEach_eq, tagged_map, sortByDn_map (prepareObject_getDn naming tag), prepareApicSliceTag]

abbrev DnIndex := Finmap fun _ : String => ApicObject

mutual

def updateDnIndexOne : DnIndex → ApicObject → DnIndex
  | index, ⟨className, hintDn, attributes, children⟩ =>
    let obj : ApicObject := ⟨className, hintDn, attributes, children⟩
    if obj.getDn = "" then index else updateDnIndex (index.insert obj.getDn obj) children

def updateDnIndex : DnIndex → List ApicObject → DnIndex
  | index, [] => index
  | index, obj :: objects => updateDnIndex (updateDnIndexOne index obj) objects

end

/-- Every call that goes on to the children has taken an entry out of the index, so the number
of entries bounds the depth of the recursion. -/
def removeLoop : Nat → DnIndex → String → DnIndex
  | 0, index, _ => index
  | fuel + 1, index, dn =>
    if dn = "" then index
    else
      match index.lookup dn with
      | none => index
      | some obj =>
        obj.children.foldl (fun index child => removeLoop fuel index child.getDn) (index.erase dn)

def removeFromDnIndex (index : DnIndex) (dn : String) : DnIndex :=
  removeLoop index.keys.card index dn

theorem card_removeLoop_le (fuel : Nat) (index : DnIndex) (dn : String) :
    (removeLoop fuel index dn).keys.card ≤ index.keys.card := by
  induction fuel generalizing index dn with
  | zero => exact le_refl _
  | succ fuel ih =>
    rw [removeLoop]
    split
    · exact le_refl _
    · split
      · exact le_refl _
      · next obj _ =>
        have hfold : ∀ (cs : List ApicObject) (i : DnIndex),
            (cs.foldl (fun i child => removeLoop fuel i child.getDn) i).keys.card ≤ i.keys.card := by
          intro cs
          induction cs with
          | nil => exact fun i => le_refl _
          | cons c cs ihc => exact fun i => (ihc _).trans (ih i c.getDn)
        refine (hfold obj.children (index.erase dn)).trans ?_
        rw [keys_erase]
        exact Finset.card_erase_le

/-- More fuel than there are entries makes no difference. -/
theorem removeLoop_succ (fuel : Nat) (index : DnIndex) (dn : String)
    (h : index.keys.card ≤ fuel) : removeLoop (fuel + 1) index dn = removeLoop fuel index dn := by
  induction fuel generalizing index dn with
  | zero =>
    have hempty : index.lookup dn = none := by
      rw [Finmap.lookup_eq_none, ← Finmap.mem_keys, Finset.card_eq_zero.mp (Nat.le_zero.mp h)]
      exact Finset.notMem_empty dn
    rw [removeLoop, removeLoop, hempty, ite_self]
  | succ fuel ih =>
    have hfold : ∀ (cs : List ApicObject) (i : DnIndex), i.keys.card ≤ fuel →
        cs.foldl (fun i child => removeLoop (fuel + 1) i child.getDn) i =
          cs.foldl (fun i child => removeLoop fuel i child.getDn) i := by
      intro cs
      induction cs with
      | nil => exact fun i _ => rfl
      | cons c cs ihc =>
        intro i hi
        rw [foldl_cons, foldl_cons, ih i c.getDn hi]
        exact ihc _ ((card_removeLoop_le fuel i c.getDn).trans hi)
    rw [removeLoop, removeLoop]
    split
    · rfl
    · split
      · rfl
      · next obj hobj =>
        refine hfold obj.children _ ?_
        have hmem : dn ∈ index.keys := by
          rw [Finmap.mem_keys, ← Finmap.lookup_isSome, hobj]
          rfl
        rw [keys_erase, Finset.card_erase_of_mem hmem]
        omega

theorem removeLoop_eq {fuel : Nat} {index : DnIndex} (h : index.keys.card ≤ fuel) (dn : String) :
    removeLoop fuel index dn = removeFromDnIndex index dn := by
  induction fuel, h using Nat.le_induction with
  | base => rfl
  | succ fuel hle ih => rw [removeLoop_succ fuel index dn hle, ih]

/-- The recursion of the source. -/
theorem removeFromDnIndex_eq (index : DnIndex) (dn : String) : removeFromDnIndex index dn = if dn = "" then index else
        match index.lookup dn with
        | none => index
        | some obj => obj.children.foldl (fun index child => removeFromDnIndex index child.getDn) (index.erase dn) := by
  rw [← removeLoop_eq (Nat.le_succ _) dn, removeLoop]
  split
  · rfl
  · split
    · rfl
    · next obj _ =>
      have hfold : ∀ (cs : List ApicObject) (i : DnIndex), i.keys.card ≤ index.keys.card →
          cs.foldl (fun i child => removeLoop index.keys.card i child.getDn) i =
            cs.foldl (fun i child => removeFromDnIndex i child.getDn) i := by
        intro cs
        induction cs with
        | nil => exact fun i _ => rfl
        | cons c cs ihc =>
          intro i hi
          have hnext := (card_removeLoop_le index.keys.card i c.getDn).trans hi
          rw [foldl_cons, foldl_cons, ← removeLoop_eq hi]
          exact ihc _ hnext
      refine hfold obj.children _ ?_
      rw [keys_erase]
      exact Finset.card_erase_le

structure Conn where
  desiredState : Map String (List ApicObject)
  desiredStateDn : DnIndex
  keyHashes : Map String String
  containerDns : String → Bool
  syncEnabled : Bool
  /-- The DNs given to `queueDn`. -/
  queued : List String
  /-- A call that returned without unlocking the index blocks every later one. -/
  locked : Bool

def newConn (syncEnabled : Bool) : Conn :=
  ⟨Map.empty, ∅, Map.empty, fun _ => false, syncEnabled, [], false⟩

def isRedirectPol (dn : String) : Bool := "svcRedirectPol".toList <:+: dn.toList

def redirectDestDns (policy : ApicObject) : List String :=
  (policy.children.filter fun child => child.className = "vnsRedirectDest").map ApicObject.getDn

/-- The destinations of the redirect policies among the deletes, which are to be deleted too;
`none` where such a policy is not in the index. -/
def redirectDests (index : DnIndex) (deletes : List String) : Option (List String) :=
  ((deletes.filter isRedirectPol).mapM fun dn => index.lookup dn).map fun policies =>
    policies.flatMap redirectDestDns

def applyDiff (updates : List ApicObject) (deletes : List String) : List String :=
  deletes.insertionSort (· ≤ ·) ++ (sortByDn updates).map ApicObject.getDn

def Conn.doWriteApicObjects (naming : Naming) (conn : Conn) (key : String)
    (objects : Option (List ApicObject)) (container : Bool) : Conn :=
  if conn.locked then conn
  else
    let tag := naming.getTagFromKey key
    let prepared := prepareApicSliceTag naming tag (objects.getD [])
    let diff := diffApicState conn.containerDns ((conn.desiredState key).getD []) prepared
    match redirectDests conn.desiredStateDn diff.deletes with
    | none => { conn with locked := true }
    | some dests =>
      let deletes := diff.deletes ++ dests
      { desiredState :=
          if objects.isNone then conn.desiredState.erase key
          else conn.desiredState.put key diff.desired
        desiredStateDn :=
          deletes.foldl removeFromDnIndex (updateDnIndex conn.desiredStateDn diff.desired)
        keyHashes :=
          if objects.isNone then conn.keyHashes.erase tag else conn.keyHashes.put tag key
        containerDns :=
          if container then fun dn =>
            dn ∈ diff.updates.map ApicObject.getDn || conn.containerDns dn && dn ∉ deletes
          else conn.containerDns
        syncEnabled := conn.syncEnabled
        queued :=
          if conn.syncEnabled then conn.queued ++ applyDiff diff.updates deletes else conn.queued
        locked := false }

def Conn.writeApicObjects (naming : Naming) (conn : Conn) (key : String)
    (objects : Option (List ApicObject)) : Conn :=
  conn.doWriteApicObjects naming key objects false

def Conn.clearApicObjects (naming : Naming) (conn : Conn) (key : String) : Conn :=
  conn.writeApicObjects naming key none

inductive WriteEvent where
  | writeApicObjects (key : String) (objects : Option (List ApicObject))
  | clearApicObjects (key : String)

def writeStep (naming : Naming) (conn : Conn) : WriteEvent → Conn
  | .writeApicObjects key objects => conn.writeApicObjects naming key objects
  | .clearApicObjects key => conn.clearApicObjects naming key

end AciContainers.Apic
