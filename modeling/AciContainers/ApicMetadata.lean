import Mathlib.Data.List.Basic
import AciContainers.Maps
import AciContainers.Merge

/-!
# Metadata of the APIC classes

The table of `pkg/apicapi/apic_metadata.go`: for every class the attributes that are compared,
with the value an absent one is read as, and whether its objects may be deleted. All values
of the table are strings, and the only hint that is read here is `deletable`.
-/
namespace AciContainers.Apic

structure ApicMeta where
  attributes : List (String × String)
  deletable : Bool

def metadataTable : List (String × ApicMeta) := [
  ("fvTenant", ⟨[("name", ""), ("nameAlias", "")], true⟩),
  ("cloudAwsProvider", ⟨[("region", ""), ("accessKeyId", "\x7b\x7baccessKeyId\x7d\x7d"),
    ("secretAccessKey", "\x7b\x7bsecretAccessKey\x7d\x7d"), ("providerId", "")], true⟩),
  ("cloudDomP", ⟨[("name", "")], true⟩),
  ("cloudBgpAsP", ⟨[("asn", "")], true⟩),
  ("cloudProvP", ⟨[("vendor", "")], true⟩),
  ("cloudRegion", ⟨[("name", ""), ("adminSt", "managed")], true⟩),
  ("cloudCtxProfile", ⟨[("name", "")], true⟩),
  ("cloudRsToCtx", ⟨[("tnFvCtxName", "")], true⟩),
  ("cloudRsCtxProfileToRegion", ⟨[("tDn", "")], true⟩),
  ("cloudCidr", ⟨[("addr", ""), ("primary", "yes")], true⟩),
  ("cloudSubnet", ⟨[("ip", ""), ("scope", "shared,public")], true⟩),
  ("fvCtx", ⟨[("name", ""), ("nameAlias", ""), ("pcEnfPref", "enforced")], true⟩),
  ("fvAp", ⟨[("name", ""), ("nameAlias", "")], true⟩),
  ("cloudApp", ⟨[("name", ""), ("nameAlias", "")], true⟩),
  ("fvAEPg", ⟨[("name", ""), ("nameAlias", "")], true⟩),
  ("infraGeneric", ⟨[("name", ""), ("nameAlias", "")], true⟩),
  ("infraRsFuncToEpg", ⟨[("tDn", ""), ("encap", ""), ("mode", "")], true⟩),
  ("cloudEPg", ⟨[("name", ""), ("nameAlias", "")], true⟩),
  ("cloudEPSelector", ⟨[("name", ""), ("matchExpression", "")], true⟩),
  ("fvRsBd", ⟨[("tnFvBDName", "")], false⟩),
  ("fvBD", ⟨[("arpFlood", "no"), ("ipLearning", "yes"), ("name", ""), ("nameAlias", ""),
    ("unicastRoute", "yes"), ("unkMacUcastAct", "proxy")], true⟩),
  ("fvRsCtx", ⟨[("tnFvCtxName", "")], false⟩),
  ("fvRsBDToOut", ⟨[("tnL3extOutName", "")], true⟩),
  ("fvSubnet", ⟨[("ip", ""), ("virtual", "no"), ("preferred", "no")], true⟩),
  ("fvRsDomAtt", ⟨[("tDn", "")], true⟩),
  ("fvRsPathAtt", ⟨[("tDn", ""), ("encap", "")], true⟩),
  ("fvnsVlanInstP", ⟨[("name", ""), ("allocMode", "")], true⟩),
  ("fvnsEncapBlk", ⟨[("from", ""), ("to", ""), ("allocMode", "")], true⟩),
  ("physDomP", ⟨[("name", "")], true⟩),
  ("infraRsDomP", ⟨[("tDn", "")], true⟩),
  ("infraRsVlanNs", ⟨[("tDn", "")], true⟩),
  ("tagInst", ⟨[("name", "")], true⟩),
  ("tagAnnotation", ⟨[("key", "")], true⟩),
  ("hostprotPol", ⟨[("name", "")], true⟩),
  ("hostprotSubj", ⟨[("name", "")], true⟩),
  ("hostprotRule", ⟨[("name", ""), ("connTrack", "reflexive"), ("direction", "ingress"),
    ("ethertype", "undefined"), ("protocol", "unspecified"), ("fromPort", "unspecified"),
    ("toPort", "unspecified")], true⟩),
  ("hostprotRemoteIp", ⟨[("addr", "")], true⟩),
  ("qosRequirement", ⟨[("name", "")], true⟩),
  ("qosRsEgressDppPol", ⟨[("tnQosDppPolName", "")], true⟩),
  ("qosRsIngressDppPol", ⟨[("tnQosDppPolName", "")], true⟩),
  ("qosDppPol", ⟨[("name", ""), ("burst", "unspecified"), ("burstUnit", "kilo"), ("rate", "0"),
    ("rateUnit", "kilo")], true⟩),
  ("qosEpDscpMarking", ⟨[("mark", "")], true⟩),
  ("vnsLDevVip", ⟨[("name", ""), ("devtype", "PHYSICAL"), ("svcType", "OTHERS"),
    ("contextAware", "single-Context"), ("managed", "yes")], true⟩),
  ("vnsRsALDevToPhysDomP", ⟨[("tDn", "")], true⟩),
  ("vnsLIf", ⟨[("name", ""), ("encap", "")], true⟩),
  ("vnsRsCIfAttN", ⟨[("tDn", "")], true⟩),
  ("vnsCDev", ⟨[("name", ""), ("devCtxLbl", "")], true⟩),
  ("vnsCIf", ⟨[("name", "")], true⟩),
  ("vnsRsCIfPathAtt", ⟨[("tDn", "")], true⟩),
  ("vnsAbsGraph", ⟨[("name", ""), ("uiTemplateType", "UNSPECIFIED")], true⟩),
  ("vnsAbsTermNodeCon", ⟨[("name", "")], true⟩),
  ("vnsAbsTermNodeProv", ⟨[("name", "")], true⟩),
  ("vnsAbsTermConn", ⟨[], true⟩),
  ("vnsInTerm", ⟨[], true⟩),
  ("vnsOutTerm", ⟨[], true⟩),
  ("vnsAbsConnection", ⟨[("name", ""), ("adjType", "L3"), ("connDir", "unknown"),
    ("connType", "external"), ("directConnect", "no"), ("unicastRoute", "yes")], true⟩),
  ("vnsRsAbsConnectionConns", ⟨[("tDn", "")], true⟩),
  ("vnsAbsNode", ⟨[("name", ""), ("funcTemplateType", "OTHER"), ("funcType", "GoTo"),
    ("isCopy", "no"), ("managed", "yes"), ("routingMode", "unspecified"), ("shareEncap", "no")
    ], true⟩),
  ("vnsAbsFuncConn", ⟨[("name", "")], true⟩),
  ("vnsRsNodeToLDev", ⟨[("tDn", "")], true⟩),
  ("vnsSvcRedirectPol", ⟨[("name", ""), ("thresholdDownAction", "permit")], true⟩),
  ("vnsRedirectDest", ⟨[("ip", ""), ("mac", ""), ("descr", "")], true⟩),
  ("fvIPSLAMonitoringPol", ⟨[("name", ""), ("slaType", "icmp"), ("slaFrequency", "60")], true⟩),
  ("vnsRsIPSLAMonitoringPol", ⟨[("tDn", "")], true⟩),
  ("vnsRedirectHealthGroup", ⟨[("name", "")], true⟩),
  ("vnsRsRedirectHealthGroup", ⟨[("tDn", "")], true⟩),
  ("vnsLDevCtx", ⟨[("ctrctNameOrLbl", ""), ("graphNameOrLbl", ""), ("nodeNameOrLbl", "")], true⟩),
  ("vnsRsLDevCtxToLDev", ⟨[("tDn", "")], true⟩),
  ("vnsLIfCtx", ⟨[("connNameOrLbl", "")], true⟩),
  ("vnsRsLIfCtxToSvcRedirectPol", ⟨[("tDn", "")], true⟩),
  ("vnsRsLIfCtxToBD", ⟨[("tDn", "")], true⟩),
  ("vnsRsLIfCtxToLIf", ⟨[("tDn", "")], true⟩),
  ("vzBrCP", ⟨[("name", ""), ("scope", "context")], true⟩),
  ("vzSubj", ⟨[("name", ""), ("revFltPorts", "yes")], true⟩),
  ("vzInTerm", ⟨[("name", "")], true⟩),
  ("vzOutTerm", ⟨[("name", "")], true⟩),
  ("vzRsInTermGraphAtt", ⟨[("tnVnsAbsGraphName", "")], true⟩),
  ("vzRsOutTermGraphAtt", ⟨[("tnVnsAbsGraphName", "")], true⟩),
  ("vzRsFiltAtt", ⟨[("tnVzFilterName", "")], true⟩),
  ("vzRsSubjFiltAtt", ⟨[("tnVzFilterName", "")], true⟩),
  ("vzRsSubjGraphAtt", ⟨[("tnVnsAbsGraphName", "")], true⟩),
  ("vzFilter", ⟨[("name", "")], true⟩),
  ("vzEntry", ⟨[("name", ""), ("applyToFrag", "no"), ("arpOpc", "unspecified"),
    ("dFromPort", "unspecified"), ("dToPort", "unspecified"), ("etherT", "unspecified"),
    ("prot", "unspecified"), ("sFromPort", "unspecified"), ("sToPort", "unspecified"),
    ("tcpRules", ""), ("stateful", "no")], true⟩),
  ("l3extInstP", ⟨[("name", "")], true⟩),
  ("l3extSubnet", ⟨[("ip", ""), ("scope", "import-security")], true⟩),
  ("fvRsProv", ⟨[("tnVzBrCPName", "")], true⟩),
  ("fvRsCons", ⟨[("tnVzBrCPName", "")], true⟩),
  ("vmmInjectedContGrp", ⟨[("guid", ""), ("name", ""), ("replicaSetName", ""),
    ("hostName", ""), ("computeNodeName", "")], true⟩),
  ("vmmInjectedDepl", ⟨[("guid", ""), ("name", ""), ("replicas", "")], true⟩),
  ("vmmInjectedReplSet", ⟨[("guid", ""), ("name", ""), ("deploymentName", "")], true⟩),
  ("vmmInjectedSvc", ⟨[("guid", ""), ("name", ""), ("clusterIp", "0.0.0.0"),
    ("lbIp", "0.0.0.0"), ("type", "clusterUp")], true⟩),
  ("vmmInjectedSvcEp", ⟨[("name", ""), ("contGrpName", "")], true⟩),
  ("vmmInjectedSvcPort", ⟨[("protocol", ""), ("port", ""), ("nodePort", ""), ("targetPort", "")
    ], true⟩),
  ("vmmInjectedHost", ⟨[("name", ""), ("hostName", ""), ("kernelVer", ""), ("os", "")], true⟩),
  ("vmmInjectedNs", ⟨[("name", "")], true⟩),
  ("vmmInjectedNwPol", ⟨[("name", "")], true⟩),
  ("vmmInjectedOrg", ⟨[("name", "")], true⟩),
  ("vmmInjectedOrgUnit", ⟨[("name", "")], true⟩),
  ("infraInfra", ⟨[("name", "")], true⟩),
  ("netflowVmmExporterPol", ⟨[("name", ""), ("ver", "v5"), ("dstAddr", ""), ("dstPort", "2055")
    ], true⟩),
  ("vmmVSwitchPolicyCont", ⟨[], true⟩),
  ("vmmRsVswitchExporterPol", ⟨[("tDn", ""), ("activeFlowTimeOut", "60"),
    ("idleFlowTimeOut", "15"), ("samplingRate", "0")], true⟩),
  ("spanVSrcGrp", ⟨[("name", ""), ("adminSt", "start")], true⟩),
  ("spanVSrc", ⟨[("name", ""), ("dir", "both")], true⟩),
  ("spanRsSrcToVPort", ⟨[("tDn", "")], true⟩),
  ("spanVDestGrp", ⟨[("name", "")], true⟩),
  ("spanVDest", ⟨[("name", "")], true⟩),
  ("spanVEpgSummary", ⟨[("dstIp", ""), ("flowId", "1")], true⟩),
  ("spanSpanLbl", ⟨[("name", "")], true⟩),
  ("infraAccBndlGrp", ⟨[("name", ""), ("lagT", "node")], true⟩),
  ("infraAccPortGrp", ⟨[("name", "")], true⟩),
  ("infraRsSpanVSrcGrp", ⟨[("tnSpanVSrcGrpName", "")], true⟩),
  ("infraRsSpanVDestGrp", ⟨[("tnSpanVDestGrpName", "")], true⟩),
  ("vmmInjectedClusterInfo", ⟨[("accountName", ""), ("version", ""), ("provider", "")], true⟩),
  ("vmmClusterFaultInfo", ⟨[("faultDesc", ""), ("faultSeverity", ""), ("faultCode", "")], true⟩),
  ("vmmInjectedLabel", ⟨[("name", ""), ("value", "")], true⟩)]

def metadata (className : String) : Option ApicMeta := metadataTable.lookup className

def checkNonDeletable (className : String) : Bool :=
  match metadata className with
  | some entry => entry.deletable
  | none => true

/-!
# Comparing APIC state

The comparison of `pkg/apicapi/apic_sync.go` between the objects that the APIC has and those
that the controller wants, level by level, two lists sorted by DN at a time. A comparison can
write into the desired object: where a service graph attachment is customised, the graph name of
the current object is taken over. The comparisons return that object too.
-/

open Maps Merge

/-- The dynamic values of an attribute; values of different types are different. -/
inductive Value where
  | null
  | str (s : String)
  | bool (b : Bool)
  | num (n : Int)
  deriving DecidableEq

abbrev Attributes := Map String Value

structure ApicObject where
  className : String
  hintDn : String
  attributes : Attributes
  children : List ApicObject

def Attributes.getStr (attributes : Attributes) (name : String) : String :=
  match attributes name with
  | some (.str s) => s
  | _ => ""

def ApicObject.getDn (o : ApicObject) : String :=
  if o.attributes.getStr "dn" = "" then o.hintDn else o.attributes.getStr "dn"

def cmpApicObject (a b : ApicObject) : Ordering := cmp a.getDn b.getDn

/-- An attribute, read as a default where it is absent. -/
def Attributes.read (attributes : Attributes) (name default : String) : Value :=
  (attributes name).getD (.str default)

/-- Whether the graph name of an attachment is left to the current object. -/
def customGraph (className : String) (bodyc bodyd : Attributes) (p : String) : Bool :=
  className = "vzRsSubjGraphAtt" && p = "tnVnsAbsGraphName" && (bodyc "forceResolve").isSome &&
    (bodyd "customSG").isSome

/-- The loop over the attributes of the metadata, with the desired attributes as they are
left. -/
def attrLoop (className : String) (bodyc : Attributes) :
    List (String × String) → Attributes → Bool × Attributes
  | [], bodyd => (true, bodyd)
  | (p, default) :: rest, bodyd =>
    if customGraph className bodyc bodyd p then
      attrLoop className bodyc rest (bodyd.put p ((bodyc p).getD .null))
    else if bodyc.read p default ≠ bodyd.read p default then (false, bodyd)
    else attrLoop className bodyc rest bodyd

/-- Tags carry no annotation of their own. -/
def annotated (className : String) : Bool :=
  className ≠ "tagAnnotation" && className ≠ "tagInst"

def apicBodyAttrCmp (className : String) (bodyc bodyd : Attributes) : Bool × Attributes :=
  match metadata className with
  | none => (true, bodyd)
  | some entry =>
    match attrLoop className bodyc entry.attributes bodyd with
    | (false, bodyd) => (false, bodyd)
    | (true, bodyd) =>
      if annotated className && bodyc.read "annotation" "" ≠ bodyd.read "annotation" "" then
        (false, bodyd)
      else (true, bodyd)

/-- Compares two objects without their children. -/
def apicCntCmp (current desired : ApicObject) : Bool × ApicObject :=
  if current.className ≠ desired.className then (false, desired)
  else
    let body := apicBodyAttrCmp current.className current.attributes desired.attributes
    (body.1, { desired with attributes := body.2 })

/-- What a comparison returns: whether the desired object has to be written, the DNs to be
deleted, and the desired objects as they are left. -/
structure Cmp (δ : Type) where
  update : Bool
  deletes : List String
  desired : δ

/-- An object that only the current state has. -/
def extraDeletes (current : ApicObject) : List String :=
  if checkNonDeletable current.className then [current.getDn] else []

/-- One turn of the walk through the children; a current child comes with its comparison. -/
def childCmp : Pairing (ApicObject × (ApicObject → Cmp ApicObject)) ApicObject →
    Cmp (List ApicObject)
  | .left c => ⟨false, extraDeletes c.1, []⟩
  | .right d => ⟨true, [], [d]⟩
  | .both c d => ⟨(c.2 d).update, (c.2 d).deletes, [(c.2 d).desired]⟩

mutual

def apicObjCmp : ApicObject → ApicObject → Cmp ApicObject
  | ⟨classc, _, bodyc, cs⟩, desired =>
    if classc ≠ desired.className then ⟨false, [], desired⟩
    else
      let body := apicBodyAttrCmp classc bodyc desired.attributes
      let turns := (align (fun c d => cmpApicObject c.1 d) (apicObjCmps cs) desired.children).map childCmp
      ⟨!body.1 || turns.any Cmp.update, turns.flatMap Cmp.deletes,
        { desired with attributes := body.2, children := turns.flatMap Cmp.desired }⟩

/-- Every object with its comparison. -/
def apicObjCmps : List ApicObject → List (ApicObject × (ApicObject → Cmp ApicObject))
  | [] => []
  | c :: cs => (c, apicObjCmp c) :: apicObjCmps cs

end

/-- The updates and deletes that `diffApicState` returns, and the desired state as it is
left. -/
structure Diff where
  updates : List ApicObject
  deletes : List String
  desired : List ApicObject

/-- One turn of the walk through the roots. -/
def rootDiff (containerDns : String → Bool) : Pairing ApicObject ApicObject → Diff
  | .left c => ⟨[], extraDeletes c, []⟩
  | .right d => ⟨[d], [], [d]⟩
  | .both c d =>
    if containerDns c.getDn then
      let r := apicCntCmp c d
      ⟨if r.1 then [] else [r.2], [], [r.2]⟩
    else
      let r := apicObjCmp c d
      ⟨if r.update then [r.desired] else [], r.deletes, [r.desired]⟩

def diffApicState (containerDns : String → Bool) (currentState desiredState : List ApicObject) :
    Diff :=
  let turns := (align cmpApicObject currentState desiredState).map (rootDiff containerDns)
  ⟨turns.flatMap Diff.updates, turns.flatMap Diff.deletes, turns.flatMap Diff.desired⟩

/-!
# What the APIC makes of deletes and updates

The store of the APIC is a forest of objects that are known by their DNs. A delete removes
an object with all that is below it. An update merges a whole object: attributes that it does not
carry stay, its children are merged in the same way, and what is not there yet is added.
-/

open List

theorem ApicObject.induction {P : ApicObject → Prop}
    (h : ∀ o : ApicObject, (∀ c ∈ o.children, P c) → P o) : ∀ o, P o
  | ⟨className, hintDn, attributes, children⟩ =>
    h ⟨className, hintDn, attributes, children⟩ fun c hc => by
      exact ApicObject.induction h c

mutual

/-- The object and all below it, each with the DN of its parent. -/
def places : ApicObject → Option String → List (Option String × ApicObject)
  | ⟨className, hintDn, attributes, children⟩, parent =>
    let o : ApicObject := ⟨className, hintDn, attributes, children⟩
    (parent, o) :: placesAll children (some o.getDn)

def placesAll : List ApicObject → Option String → List (Option String × ApicObject)
  | [], _ => []
  | o :: os, parent => places o parent ++ placesAll os parent

end

theorem places_eq (o : ApicObject) (parent : Option String) :
    places o parent = (parent, o) :: placesAll o.children (some o.getDn) := by
  cases o
  rw [places]

theorem mem_placesAll {os : List ApicObject} {parent : Option String} {x : Option String × ApicObject} :
    x ∈ placesAll os parent ↔ ∃ o ∈ os, x = (parent, o) ∨ x ∈ placesAll o.children (some o.getDn) := by
  induction os with
  | nil => simp [placesAll]
  | cons o os ih =>
    rw [placesAll, mem_append, ih, places_eq, mem_cons]
    simp

/-- The DNs of a forest. -/
def dns (os : List ApicObject) (parent : Option String) : List String :=
  (placesAll os parent).map fun x => x.2.getDn

mutual

/-- The object without all below it that has one of the DNs. -/
def prune (deletes : List String) : ApicObject → ApicObject
  | ⟨className, hintDn, attributes, children⟩ =>
    ⟨className, hintDn, attributes, pruneAll deletes children⟩

def pruneAll (deletes : List String) : List ApicObject → List ApicObject
  | [] => []
  | o :: os => if o.getDn ∈ deletes then pruneAll deletes os else prune deletes o :: pruneAll deletes os

end

/-- Delete one DN after the other. -/
def deleteDns (deletes : List String) (os : List ApicObject) : List ApicObject :=
  deletes.foldl (fun os dn => pruneAll [dn] os) os

variable (deletes : List String) (o : ApicObject) (os : List ApicObject)

theorem prune_eq : prune deletes o = { o with children := pruneAll deletes o.children } := by
  cases o
  rw [prune]

@[simp] theorem prune_getDn : (prune deletes o).getDn = o.getDn := by
  rw [prune_eq]
  rfl

@[simp] theorem prune_className : (prune deletes o).className = o.className := by
  rw [prune_eq]

theorem pruneAll_eq : pruneAll deletes os = (os.filter fun o => o.getDn ∉ deletes).map (prune deletes) := by
  induction os with
  | nil => rfl
  | cons o os ih =>
    rw [pruneAll, filter_cons, ih]
    by_cases ho : o.getDn ∈ deletes
    · simp [ho]
    · simp [ho]

variable {r : ApicObject}

theorem mem_pruneAll {deletes : List String} {os : List ApicObject} :
    r ∈ pruneAll deletes os ↔ ∃ o ∈ os, o.getDn ∉ deletes ∧ r = prune deletes o := by
  simp only [pruneAll_eq, mem_map, mem_filter, decide_eq_true_eq, and_assoc]
  constructor
  · rintro ⟨o, ho, hdn, rfl⟩
    exact ⟨o, ho, hdn, rfl⟩
  · rintro ⟨o, ho, hdn, rfl⟩
    exact ⟨o, ho, hdn, rfl⟩

/-- Only the DNs that occur below an object matter. -/
theorem prune_congr {deletes deletes' : List String} :
    (∀ dn ∈ dns o.children (some o.getDn), dn ∈ deletes ↔ dn ∈ deletes') → prune deletes o = prune deletes' o := by
  induction o using ApicObject.induction with
  | h o ih =>
    intro hdns
    have hplace : ∀ x ∈ placesAll o.children (some o.getDn),
        x.2.getDn ∈ deletes ↔ x.2.getDn ∈ deletes' :=
      fun x hx => hdns _ (mem_map_of_mem hx)
    have hfilter : (o.children.filter fun c => c.getDn ∉ deletes) =
        o.children.filter fun c => c.getDn ∉ deletes' :=
      filter_congr fun c hc => by
        simp [hplace (some o.getDn, c) (mem_placesAll.mpr ⟨c, hc, .inl rfl⟩)]
    rw [prune_eq, prune_eq, pruneAll_eq, pruneAll_eq, hfilter]
    congr 1
    refine map_congr_left fun c hc => ?_
    have hc' := (mem_filter.mp hc).1
    refine ih c hc' fun dn hdn => ?_
    obtain ⟨x, hx, rfl⟩ := mem_map.mp hdn
    exact hplace x (mem_placesAll.mpr ⟨c, hc', .inr hx⟩)

theorem prune_prune (dn : String) (o : ApicObject) : prune deletes (prune [dn] o) = prune (dn :: deletes) o := by
  induction o using ApicObject.induction with
  | h o ih =>
    rw [prune_eq, prune_eq, prune_eq]
    simp only [pruneAll_eq, filter_map, map_map, filter_filter]
    congr 1
    have hfilter : ∀ c : ApicObject, (((fun o : ApicObject => decide (o.getDn ∉ deletes)) ∘ prune [dn]) c &&
        decide (c.getDn ∉ [dn])) = decide (c.getDn ∉ dn :: deletes) := by
      intro c
      by_cases hdn : c.getDn = dn <;> simp [hdn]
    simp only [hfilter]
    exact map_congr_left fun c hc => ih c (mem_filter.mp hc).1

theorem pruneAll_pruneAll (dn : String) (os : List ApicObject) :
    pruneAll deletes (pruneAll [dn] os) = pruneAll (dn :: deletes) os := by
  have h := prune_prune deletes dn ⟨"", "", Map.empty, os⟩
  exact (ApicObject.mk.inj h).2.2.2

theorem pruneAll_nil : pruneAll [] os = os := by
  have hobj : ∀ o : ApicObject, prune [] o = o := by
    intro o
    induction o using ApicObject.induction with
    | h o ih =>
      cases o
      rw [prune, pruneAll_eq]
      simp only [not_mem_nil, not_false_eq_true, decide_true, filter_true]
      congr 1
      exact (map_congr_left ih).trans (map_id' _)
  rw [pruneAll_eq]
  simp only [not_mem_nil, not_false_eq_true, decide_true, filter_true]
  exact (map_congr_left fun o _ => hobj o).trans (map_id' _)

/-- The deletes one after the other remove what all of them remove together. -/
theorem deleteDns_eq : deleteDns deletes os = pruneAll deletes os := by
  induction deletes generalizing os with
  | nil => exact (pruneAll_nil os).symm
  | cons dn deletes ih =>
    rw [← pruneAll_pruneAll, ← ih]
    rfl

/-- The attributes of an update are written over those that are there; the DN is what
an object is known by and stays. -/
def overlay (update there : Attributes) : Attributes := fun p =>
  if p = "dn" then there p else (update p).or (there p)

/-- Merge one object into a level, given how it is merged into the object of its DN. -/
def mergeOne (update : ApicObject) (into : ApicObject → ApicObject) (os : List ApicObject) :
    List ApicObject :=
  if update.getDn ∈ os.map ApicObject.getDn then
    os.map fun o => if o.getDn = update.getDn then into o else o
  else os ++ [update]

mutual

def mergeObject : ApicObject → ApicObject → ApicObject
  | ⟨_, _, attributes, children⟩, there =>
    { there with
      attributes := overlay attributes there.attributes
      children := mergeAll children there.children }

/-- Merge one update after the other. -/
def mergeAll : List ApicObject → List ApicObject → List ApicObject
  | [], os => os
  | update :: updates, os => mergeAll updates (mergeOne update (mergeObject update) os)

end

theorem mergeObject_eq (update there : ApicObject) : mergeObject update there = { there with
        attributes := overlay update.attributes there.attributes
        children := mergeAll update.children there.children } := by
  cases update
  rw [mergeObject]

@[simp] theorem mergeObject_getDn (update there : ApicObject) : (mergeObject update there).getDn = there.getDn := by
  have hdn : (overlay update.attributes there.attributes).getStr "dn" =
      there.attributes.getStr "dn" := by
    unfold Attributes.getStr
    rw [show overlay update.attributes there.attributes "dn" = there.attributes "dn" from if_pos rfl]
  rw [mergeObject_eq]
  unfold ApicObject.getDn
  rw [hdn]

variable {update : ApicObject}

theorem mem_mergeOne {os : List ApicObject} : r ∈ mergeOne update (mergeObject update) os ↔
      (r ∈ os ∧ r.getDn ≠ update.getDn) ∨ (∃ o ∈ os, o.getDn = update.getDn ∧ r = mergeObject update o) ∨
      (update.getDn ∉ os.map ApicObject.getDn ∧ r = update) := by
  unfold mergeOne
  by_cases hmem : update.getDn ∈ os.map ApicObject.getDn
  · rw [if_pos hmem, mem_map]
    constructor
    · rintro ⟨o, ho, rfl⟩
      by_cases hdn : o.getDn = update.getDn
      · rw [if_pos hdn]
        exact .inr (.inl ⟨o, ho, hdn, rfl⟩)
      · rw [if_neg hdn]
        exact .inl ⟨ho, hdn⟩
    · rintro (⟨hr, hdn⟩ | ⟨o, ho, hdn, rfl⟩ | ⟨hno, -⟩)
      · exact ⟨r, hr, if_neg hdn⟩
      · exact ⟨o, ho, if_pos hdn⟩
      · exact absurd hmem hno
  · rw [if_neg hmem, mem_append, mem_singleton]
    have hne : ∀ o ∈ os, o.getDn ≠ update.getDn :=
      fun o ho he => hmem (he ▸ mem_map_of_mem ho)
    constructor
    · rintro (hr | rfl)
      · exact .inl ⟨hr, hne r hr⟩
      · exact .inr (.inr ⟨hmem, rfl⟩)
    · rintro (⟨hr, -⟩ | ⟨o, ho, hdn, -⟩ | ⟨-, rfl⟩)
      · exact .inl hr
      · exact absurd hdn (hne o ho)
      · exact .inr rfl

theorem dns_mergeOne {os : List ApicObject} {dn : String} :
    dn ∈ (mergeOne update (mergeObject update) os).map ApicObject.getDn ↔
      dn ∈ os.map ApicObject.getDn ∨ dn = update.getDn := by
  unfold mergeOne
  split
  · next hmem =>
    have hmap : (fun o => (if o.getDn = update.getDn then mergeObject update o else o).getDn) =
        ApicObject.getDn := by
      funext o
      split
      · exact mergeObject_getDn update o
      · rfl
    rw [map_map]
    change dn ∈ os.map (fun o => (if o.getDn = update.getDn then mergeObject update o else o).getDn) ↔ _
    rw [hmap]
    exact ⟨.inl, fun h => h.elim id fun he => he ▸ hmem⟩
  · rw [map_append, mem_append, map_singleton, mem_singleton]

/-- Updates of different DNs do not meet: an object stays, or is merged with the update of
its DN, or it is an update that found no object. -/
theorem mem_mergeAll {updates os : List ApicObject} (hnodup : (updates.map ApicObject.getDn).Nodup) :
    r ∈ mergeAll updates os ↔ (r ∈ os ∧ r.getDn ∉ updates.map ApicObject.getDn) ∨
      (∃ u ∈ updates, ∃ o ∈ os, o.getDn = u.getDn ∧ r = mergeObject u o) ∨
      (r ∈ updates ∧ r.getDn ∉ os.map ApicObject.getDn) := by
  induction updates generalizing os with
  | nil => simp [mergeAll]
  | cons u us ih =>
    rw [map_cons, nodup_cons] at hnodup
    obtain ⟨hu, hus⟩ := hnodup
    have hne : ∀ u' ∈ us, u'.getDn ≠ u.getDn := fun u' hu' he => hu (he ▸ mem_map_of_mem hu')
    rw [mergeAll, ih hus, mem_mergeOne, dns_mergeOne, map_cons, mem_cons, mem_cons]
    constructor
    · rintro (⟨⟨hr, hdn⟩ | ⟨o, ho, hdn, rfl⟩ | ⟨hno, rfl⟩, hr'⟩ | ⟨u', hu', o, ho, hdn, rfl⟩ | ⟨hr, hno⟩)
      · exact .inl ⟨hr, not_or.mpr ⟨hdn, hr'⟩⟩
      · exact .inr (.inl ⟨u, mem_cons_self, o, ho, hdn, rfl⟩)
      · exact .inr (.inr ⟨.inl rfl, hno⟩)
      · rcases mem_mergeOne.mp ho with ⟨ho', -⟩ | ⟨o', -, hdn', rfl⟩ | ⟨-, rfl⟩
        · exact .inr (.inl ⟨u', mem_cons_of_mem _ hu', o, ho', hdn, rfl⟩)
        · rw [mergeObject_getDn, hdn'] at hdn
          exact absurd hdn.symm (hne u' hu')
        · exact absurd hdn.symm (hne u' hu')
      · exact .inr (.inr ⟨.inr hr, fun h => hno (.inl h)⟩)
    · rintro (⟨hr, hdn⟩ | ⟨u', hu', o, ho, hdn, rfl⟩ | ⟨rfl | hr, hno⟩)
      · exact .inl ⟨.inl ⟨hr, fun h => hdn (.inl h)⟩, fun h => hdn (.inr h)⟩
      · rcases mem_cons.mp hu' with rfl | hu'
        · exact .inl ⟨.inr (.inl ⟨o, ho, hdn, rfl⟩), by rwa [mergeObject_getDn, hdn]⟩
        · exact .inr (.inl ⟨u', hu', o, mem_mergeOne.mpr (.inl ⟨ho, hdn ▸ hne u' hu'⟩), hdn, rfl⟩)
      · exact .inl ⟨.inr (.inr ⟨hno, rfl⟩), hu⟩
      · exact .inr (.inr ⟨hr, fun h => h.elim hno (hne r hr)⟩)

end AciContainers.Apic
