import AciContainers.Maps
import AciContainers.Net
import AciContainers.Outcomes

/-!
# The managed objects of the GBP server

`gbp_common.go` and `gbp.go` of `pkg/gbpserver`. The database maps a URI to an object. The code
holds pointers to saved objects and goes on to change them; every such change is made while the
object is still the one saved under its URI, so it is written as a change at that URI.
-/
namespace AciContainers.Gbp

open Maps Net

inductive Subject where
  | root
  | domainConfig
  | invUniverse
  | policyUniverse
  | platformConfig
  | invRemoteEndpointInventory
  | domainConfigToConfigRSrc
  | domainConfigToRemoteEndpointInventoryRSrc
  | epg
  | epgToFD
  | epgToSnet
  | epgToCC
  | epgToPC
  | fd
  | fdMcast
  | fdToBD
  | bd
  | eic
  | bdToVrf
  | bdToSubnets
  | contract
  | subject
  | rule
  | classRsrc
  | l24Class
  | action
  | actionRsrc
  | vrf
  | subnetSet
  | subnet
  | secGroup
  | sgSubj
  | sgRule
  | sgRuleToCidr
  deriving DecidableEq

def Subject.text : Subject → String
  | .root => "DmtreeRoot"
  | .domainConfig => "DomainConfig"
  | .invUniverse => "InvUniverse"
  | .policyUniverse => "PolicyUniverse"
  | .platformConfig => "PlatformConfig"
  | .invRemoteEndpointInventory => "InvRemoteEndpointInventory"
  | .domainConfigToConfigRSrc => "DomainConfigToConfigRSrc"
  | .domainConfigToRemoteEndpointInventoryRSrc => "DomainConfigToRemoteEndpointInventoryRSrc"
  | .epg => "GbpEpGroup"
  | .epgToFD => "GbpEpGroupToNetworkRSrc"
  | .epgToSnet => "GbpEpGroupToSubnetsRSrc"
  | .epgToCC => "GbpEpGroupToConsContractRSrc"
  | .epgToPC => "GbpEpGroupToProvContractRSrc"
  | .fd => "GbpFloodDomain"
  | .fdMcast => "GbpeFloodContext"
  | .fdToBD => "GbpFloodDomainToNetworkRSrc"
  | .bd => "GbpBridgeDomain"
  | .eic => "GbpeInstContext"
  | .bdToVrf => "GbpBridgeDomainToNetworkRSrc"
  | .bdToSubnets => "GbpForwardingBehavioralGroupToSubnetsRSrc"
  | .contract => "GbpContract"
  | .subject => "GbpSubject"
  | .rule => "GbpRule"
  | .classRsrc => "GbpRuleToClassifierRSrc"
  | .l24Class => "GbpeL24Classifier"
  | .action => "GbpAllowDenyAction"
  | .actionRsrc => "GbpRuleToActionRSrc"
  | .vrf => "GbpRoutingDomain"
  | .subnetSet => "GbpSubnets"
  | .subnet => "GbpSubnet"
  | .secGroup => "GbpSecGroup"
  | .sgSubj => "GbpSecGroupSubject"
  | .sgRule => "GbpSecGroupRule"
  | .sgRuleToCidr => "GbpSecGroupRuleToRemoteAddressRSrc"

structure Reference where
  subject : Subject
  referenceUri : String
  deriving DecidableEq

inductive Value where
  | strVal (s : String)
  | intVal (i : Int)
  | refVal (r : Reference)
  deriving DecidableEq

structure Property where
  name : String
  value : Value
  deriving DecidableEq

/-- What `SetParent` sets. -/
structure Parent where
  subject : Subject
  relation : Subject
  uri : String
  deriving DecidableEq

structure Mo where
  subject : Subject
  uri : String
  parent : Option Parent := none
  children : List String := []
  properties : List Property := []
  isRef : Bool := false
  permanent : Bool := false
  deriving DecidableEq

abbrev Db := Map String Mo

def propName := "name"
def propIntraPolicy := "intraGroupPolicy"
def propRoutingMode := "routingMode"
def propEncapID := "encapId"
def propClassID := "classid"
def propTarget := "target"
def propGw := "virtualRouterIp"
def propPrefix := "prefixLen"
def propNw := "address"
def propEther := "etherT"
def propProt := "prot"
def propDToPort := "dToPort"
def propDFromPort := "dFromPort"
def propSToPort := "sToPort"
def propSFromPort := "sFromPort"
def propMcast := "multicastGroupIP"
def propConnTrack := "connectionTracking"
def propOrder := "order"

/-- The conversion to `int32`. -/
def int32 (i : Int) : Int := i.bmod (2 ^ 32)

namespace Property

def str (name data : String) : Property := ⟨name, .strVal data⟩

def int (name : String) (data : Int) : Property := ⟨name, .intVal (int32 data)⟩

def ref (name : String) (data : Reference) : Property := ⟨name, .refVal data⟩

end Property

namespace Mo

def addChild (g : Mo) (uri : String) : Mo := { g with children := g.children ++ [uri] }

def getStringProperty (g : Mo) (name : String) : String :=
  match g.properties.find? (·.name = name) with
  | some ⟨_, .strVal s⟩ => s
  | _ => ""

def getIntProperty (g : Mo) (name : String) : Int :=
  match g.properties.find? (·.name = name) with
  | some ⟨_, .intVal i⟩ => i
  | some _ => 0
  | none => -1

/-- `none` is an error: no target, or one that is no reference. -/
def getTarget (g : Mo) : Option String :=
  match g.properties.find? (·.name = propTarget) with
  | some ⟨_, .refVal r⟩ => some r.referenceUri
  | _ => none

end Mo

/-- A forward reference (`gbpToMo`) with its target. -/
def toMo (refSubj : Subject) (uri : String) (target : Reference) (parent : Parent) : Mo where
  subject := refSubj
  uri := uri
  parent := some parent
  properties := [.ref propTarget target]
  isRef := true

namespace Db

def save (db : Db) (g : Mo) : Db := db.put g.uri g

def addChild (db : Db) (uri child : String) : Db := fun u =>
  if u = uri then (db u).map (·.addChild child) else db u

end Db

/-- What the `Make` functions do to the database. -/
inductive Write where
  | save (g : Mo)
  | addChild (uri child : String)
  deriving DecidableEq

def Db.write (db : Db) : Write → Db
  | .save g => db.save g
  | .addChild uri child => db.addChild uri child

def Db.writes (db : Db) (ws : List Write) : Db := ws.foldl Db.write db

/-- An object saved and listed by its parent. -/
def linked (pUri : String) (g : Mo) : List Write := [.save g, .addChild pUri g.uri]

def escapeChar : Char → List Char
  | '/' => ['%', '2', 'f']
  | '[' => ['%', '5', 'b']
  | ']' => ['%', '5', 'd']
  | '|' => ['%', '7', 'c']
  | c => [c]

/-- The replacements are of single characters and bring in none of the others. -/
def escapeName (n : String) : String := String.ofList (n.toList.flatMap escapeChar)

/-- The segments of a rooted path that `filepath.Clean` leaves, last one first. -/
def cleanStep (stack : List (List Char)) (segment : List Char) : List (List Char) :=
  if segment = [] ∨ segment = ['.'] then stack
  else if segment = ['.', '.'] then stack.tail
  else segment :: stack

def cleanSegments (path : List Char) : List (List Char) := (splitOn '/' path).foldl cleanStep []

/-- `filepath.Join(uri, name) + "/"`, for a rooted URI. -/
def joinUri (uri name : String) : String :=
  String.ofList (((cleanSegments (uri ++ "/" ++ name).toList).reverse.flatMap fun s => '/' :: s) ++ ['/'])

/-- `GetRefURIs`: the references of one class, by target. `none` is an error. -/
def getRefURIs (db : Db) (refSubj : Subject) :
    List String → (Finmap fun _ : String => String) → Option (Finmap fun _ : String => String)
  | [], result => some result
  | c :: children, result =>
    match db c with
    | none => none
    | some cMo =>
      if cMo.isRef ∧ cMo.subject = refSubj then
        match cMo.getTarget with
        | none => none
        | some target => getRefURIs db refSubj children (result.insert target c)
      else getRefURIs db refSubj children result

/-- `AddRef`; `none` is an error. -/
def addRef (db : Db) (g : String) (gSubj : Subject) (refSubj : Subject) (targetURI : String) : Option Db :=
  match db targetURI with
  | none => none
  | some targetMo =>
    let refURI := g ++ refSubj.text ++ "/288/" ++ escapeName (targetMo.getStringProperty propName) ++ "/"
    some ((db.save (toMo refSubj refURI ⟨targetMo.subject, targetURI⟩ ⟨gSubj, refSubj, g⟩)).addChild g refURI)

/-- What ends the process: no class was free in all the attempts (`log.Fatalf`), a slice bound
out of range, a stack that overflows. -/
inductive Crash where
  | attempts
  | slice
  | stack
  deriving DecidableEq

/-- The loop of `DelChild` over the array behind the slice, of which the first `len` elements are
still in use; the range is the length before the loop. -/
def delChildLoop (uri : String) : Nat → Nat → List String → Nat → Except Crash (List String)
  | 0, _, array, len => .ok (array.take len)
  | n + 1, ix, array, len =>
    if array[ix]? = some uri then
      if ix + 1 ≤ len then
        delChildLoop uri n (ix + 1) (array.take ix ++ (array.take len).drop (ix + 1) ++ array.drop (len - 1)) (len - 1)
      else .error .slice
    else delChildLoop uri n (ix + 1) array len

def delChild (uri : String) (children : List String) : Except Crash (List String) :=
  delChildLoop uri children.length 0 children children.length

/-- `delRecursive`, with a stack of the given depth. -/
def delRecursive : Nat → Mo → Db → Except Crash Db
  | 0, _, _ => .error .stack
  | depth + 1, g, db =>
    if g.permanent then .ok db
    else do
      let db ← g.children.foldlM
        (fun db c =>
          match db c with
          | some cMo => delRecursive depth cMo db
          | none => .ok db) db
      let db ← match g.getTarget.bind db with
        | some rMo => delRecursive depth rMo db
        | none => .ok db
      .ok (db.erase g.uri)

def Subject.needParent : Subject → Bool
  | .contract | .epg | .vrf | .fd | .bd | .l24Class | .action | .subnetSet => false
  | _ => true

/-- The reference that `Verify` reads: it marshals the wrapper of the value, whose only key is
`RefVal`, `StrVal` or `IntVal`, and unmarshals that into a reference, which has none of them. -/
def Value.unmarshalledUri : Value → String := fun _ => ""

def Mo.verify (g : Mo) (db : Db) : Bool :=
  (!g.subject.needParent || g.parent.any (·.uri ≠ "")) &&
    g.children.all (fun u => (db u).isSome) &&
    g.properties.all (fun p => p.name ≠ propTarget || (db p.value.unmarshalledUri).isSome)

/-!
# Contracts and network policies of the GBP server

`policy.go` of `pkg/gbpserver`. A contract and a network policy are made object by object; the
objects are given as the writes that the code makes, in its order. The push to the cloud APIC is
left out.
-/

/-- The URI below which the objects of a tenant are. -/
def tenantUri (tenant : String) : String := "/PolicyUniverse/PolicySpace/" ++ tenant ++ "/"

/-- `GBPSubnet.Make`; `none` is an error, with nothing saved. -/
def makeSubnet (name uri : String) : Option Mo :=
  match splitOn '/' name.toList with
  | [gw, len] =>
    match parseCIDR name with
    | some (_, ipnet) =>
      some {
        subject := .subnet
        uri := uri
        properties := [
          .str propName name,
          .str propGw (String.ofList gw),
          .int propPrefix (atoiIgnoringError (String.ofList len)),
          .str propNw (String.ofList ((splitOn '/' ipnet.string.toList).headD []))] }
    | none => none
  | _ => none

/-- A subnet made and linked to its set. After an error the subnet has no URI, and that is what
the set lists. -/
def addSubnet (ssUri name uri : String) : List Write :=
  match makeSubnet name uri with
  | some s => linked ssUri { s with parent := some ⟨.subnetSet, .subnet, ssUri⟩ }
  | none => [.addChild ssUri ""]

def actionUri (tenantName : String) : String := tenantUri tenantName ++ "GbpAllowDenyAction/allow/"

def actionRefUri (tenantName pUri : String) : String :=
  pUri ++ "GbpRuleToActionRSrc/286/" ++ escapeName (actionUri tenantName) ++ "/"

def actionMo (tenantName : String) : Mo where
  subject := .action
  uri := actionUri tenantName
  properties := [.str propName "allow", .int "allow" 1]
  permanent := true

def addActionRef (tenantName : String) (pSubj : Subject) (pUri : String) : List Write :=
  .save (actionMo tenantName) ::
    linked pUri (toMo .actionRsrc (actionRefUri tenantName pUri) ⟨.action, actionUri tenantName⟩
      ⟨pSubj, .actionRsrc, pUri⟩)

structure IntRange where
  start : Int
  stop : Int
  deriving DecidableEq

structure WLRule where
  protocol : String
  ports : IntRange
  deriving DecidableEq

structure Contract where
  name : String
  tenant : String
  allowList : List WLRule
  deriving DecidableEq

def emptyRule : WLRule := ⟨"", 0, 0⟩

def revClassify := "rev"

/-- `none` for an unspecified protocol. -/
def protToValues (prot : String) : Option (Int × String) :=
  if prot = "" then none
  else if prot = "udp" then some (17, "ipv4")
  else if prot = "icmp" then some (1, "ipv4")
  else some (6, "ipv4")

namespace Contract

variable (c : Contract)

def getURI : String := tenantUri c.tenant ++ "GbpContract/" ++ c.name ++ "/"

def subjName : String := c.name ++ "-subj"

def subjURI : String := c.getURI ++ "GbpSubject/" ++ c.subjName ++ "/"

def getFilterURI : String :=
  c.getURI ++ "GbpSubject/" ++ c.name ++ "-subj/GbpRule/" ++ c.name ++ "-filter/"

def getToCfURI (name : String) : String := c.getFilterURI ++ "GbpRuleToClassifierRSrc/178/" ++ name ++ "/"

def classifierName (dir : String) (wr : WLRule) : String :=
  c.name ++ "-" ++ (if wr.protocol = "" then "ANY" else wr.protocol) ++ "-" ++ dir ++ "-" ++
    toString wr.ports.start ++ "-" ++ toString wr.ports.stop

def getClassifierURI (dir : String) (wr : WLRule) : String :=
  tenantUri c.tenant ++ "GbpeL24Classifier/" ++ c.classifierName dir wr ++ "/"

def portProperties (r : WLRule) (dir : String) : List Property :=
  (if r.ports.start ≠ 0 then
    [.int (if dir = revClassify then propSFromPort else propDFromPort) r.ports.start] else []) ++
  (if r.ports.stop ≠ 0 then
    [.int (if dir = revClassify then propSToPort else propDToPort) r.ports.stop] else [])

def classifier (r : WLRule) (dir : String) : Mo where
  subject := .l24Class
  uri := c.getClassifierURI dir r
  properties := [
    .str propName (c.classifierName dir r),
    .str propConnTrack "normal",
    .int propOrder 1] ++
    (match protToValues r.protocol with
      | some (prot, ether) => [.int propProt prot, .str propEther ether]
      | none => []) ++
    portProperties r dir

def toCfURI (r : WLRule) (dir : String) : String := c.getToCfURI (escapeName (c.getClassifierURI dir r))

def ruleWrites (r : WLRule) (dir : String) : List Write :=
  .save (c.classifier r dir) ::
    linked c.getFilterURI (toMo .classRsrc (c.toCfURI r dir) ⟨.l24Class, c.getClassifierURI dir r⟩
      ⟨.rule, .classRsrc, c.getFilterURI⟩)

/-- `none` is an error: the filter is missing. -/
def addRule (db : Db) (r : WLRule) (dir : String) : Option Db :=
  match db c.getFilterURI with
  | none => none
  | some _ => some (db.writes (c.ruleWrites r dir))

/-- The rules with their directions, as the loop of `makeClassifiers` adds them. -/
def directedRules : List (WLRule × String) :=
  (if c.allowList = [] then [emptyRule] else c.allowList).flatMap fun r =>
    (r, "") :: if r.ports.start ≠ 0 ∨ r.ports.stop ≠ 0 then [(r, revClassify)] else []

/-- What was added before an error stays. -/
def addRules : List (WLRule × String) → Db → Db × Option String
  | [], db => (db, none)
  | (r, dir) :: rest, db =>
    match c.addRule db r dir with
    | none => (db, some "FilterMO missing")
    | some db => addRules rest db

def makeClassifiers (db : Db) : Db × Option String := c.addRules c.directedRules db

def contractMo : Mo where
  subject := .contract
  uri := c.getURI
  properties := [.str propName c.name]

def subjMo : Mo where
  subject := .subject
  uri := c.subjURI
  parent := some ⟨.contract, .subject, c.getURI⟩
  properties := [.str propName c.subjName]

def filterMo : Mo where
  subject := .rule
  uri := c.getFilterURI
  parent := some ⟨.subject, .rule, c.subjURI⟩
  properties := [.str propName (c.name ++ "-filter"), .str "direction" "bidirectional", .int "order" 1]

/-- The contract, its subject and its filter. -/
def treeWrites : List Write :=
  .save c.contractMo :: (linked c.getURI c.subjMo ++ linked c.subjURI c.filterMo)

def make (tenantName : String) (db : Db) : Db × Option String :=
  match c.makeClassifiers (db.writes c.treeWrites) with
  | (db, some err) => (db, some err)
  | (db, none) => (db.writes (addActionRef tenantName .rule c.getFilterURI), none)

end Contract

/-- A map that may be absent. -/
abbrev Attributes := Option (Map String String)

/-- Reading a map that is absent gives nothing. -/
def Attributes.get? (a : Attributes) (key : String) : Option String := a.bind (· key)

def Attributes.get (a : Attributes) (key : String) : String := (a.get? key).getD ""

structure HpSubjGrandchild where
  attributes : Attributes

structure HpSubjChild where
  attributes : Attributes
  children : List (Map String HpSubjGrandchild)

structure HpSubj where
  attributes : Attributes
  children : List (Map String HpSubjChild)

/-- The children of a policy are pointers, which may be null. -/
structure Hpp where
  attributes : Attributes
  children : List (Map String (Option HpSubj))

structure NetworkPolicy where
  hostprotPol : Hpp

def Hpp.getChild (hpp : Hpp) (key : String) : Option HpSubj := (hpp.children.findSome? (· key)).join

def HpSubj.getChildren (hs : HpSubj) (key : String) : List HpSubjChild := hs.children.filterMap (· key)

def HpSubj.arpRule (hs : HpSubj) : HpSubjChild where
  attributes := some fun key =>
    if key = "ethertype" then some "arp"
    else if key = "direction" then some "bidirectional"
    else if key = "connTrack" then some "normal"
    else if key = "name" then some (hs.attributes.get propName ++ "-arp")
    else none
  children := []

/-- `strings.ToLower`, as far as the names of the port table go: two letters outside ASCII have an
ASCII letter as their lower case. -/
def lowerChar (c : Char) : Char :=
  if c = Char.ofNat 0x130 then 'i' else if c = Char.ofNat 0x212a then 'k' else c.toLower

def toLower (s : String) : String := String.ofList (s.toList.map lowerChar)

def services (prot port : String) : Option Int :=
  if prot = "udp" then if port = "domain" then some 53 else none
  else if prot = "tcp" then
    match port with
    | "ftp" => some 21
    | "ftps" => some 990
    | "gopher" => some 70
    | "http" => some 80
    | "https" => some 443
    | "imap2" => some 143
    | "imap3" => some 220
    | "imaps" => some 993
    | "pop3" => some 110
    | "pop3s" => some 995
    | "smtp" => some 25
    | "ssh" => some 22
    | "telnet" => some 23
    | _ => none
  else none

def convNameToPort (prot port : String) : Int :=
  (services (toLower prot) (toLower port)).getD (atoiIgnoringError (toLower port))

def attrToProperties (a : Attributes) : Map String Property := fun key =>
  if key = propEther then some (.str key (a.get "ethertype"))
  else if key = propConnTrack then (a.get? "connTrack").map (.str key)
  else if key = propProt then
    match a.get "protocol" with
    | "udp" => some (.int key 17)
    | "icmp" => some (.int key 1)
    | "tcp" => some (.int key 6)
    | _ => none
  else none

namespace HpSubjChild

variable (hsc : HpSubjChild) (tenantName : String)

def getRemoteIPs : List String :=
  hsc.children.filterMap fun cm => (cm "hostprotRemoteIp").bind fun hri => hri.attributes.get? "addr"

def portProperty (apicName gbpName : String) : List Property :=
  let att := hsc.attributes.get apicName
  if att ≠ "unspecified" ∧ att ≠ "" then
    [.int gbpName (convNameToPort (hsc.attributes.get "protocol") att)] else []

def classifierName (subjName npName : String) : String :=
  npName ++ "|" ++ subjName ++ "|" ++ hsc.attributes.get propName

def classifierUri (cname : String) : String :=
  tenantUri tenantName ++ "GbpeL24Classifier/" ++ escapeName cname ++ "/"

/-- The order is that of the loop over the map of properties. -/
def classifier (order : RangeOrder String) (cname : String) : Mo where
  subject := .l24Class
  uri := classifierUri tenantName cname
  properties := .str propName cname ::
    ((order.visit {propEther, propConnTrack, propProt}).filterMap (attrToProperties hsc.attributes) ++
    hsc.portProperty "toPort" propDToPort ++ hsc.portProperty "fromPort" propDFromPort)

def subnetSetUri (name : String) : String :=
  tenantUri tenantName ++ "GbpSubnets/" ++ escapeName name ++ "/"

def subnetName (addr : String) : String :=
  if (splitOn '/' addr.toList).length = 1 then addr ++ "/32" else addr

def subnetSet (uri name : String) : Mo where
  subject := .subnetSet
  uri := uri
  properties := [.str propName name]

def ssRefURI (pUri name : String) : String :=
  pUri ++ "GbpSecGroupRuleToRemoteAddressRSrc/205/" ++ escapeName name ++ "/"

def addSubnets (pUri name : String) : List Write :=
  let ssUri := subnetSetUri tenantName name
  .save (subnetSet ssUri name) ::
    (hsc.getRemoteIPs.flatMap fun addr =>
      addSubnet ssUri (subnetName addr) (ssUri ++ "GbpSubnet/" ++ escapeName (subnetName addr) ++ "/")) ++
    linked pUri (toMo .sgRuleToCidr (ssRefURI pUri name) ⟨.subnetSet, ssUri⟩ ⟨.sgRule, .sgRuleToCidr, pUri⟩)

def tocfURI (ruleUri cname : String) : String :=
  ruleUri ++ "GbpRuleToClassifierRSrc/42/" ++ escapeName cname

def make (order : RangeOrder String) (ruleUri subjName npName : String) : List Write :=
  let cname := hsc.classifierName subjName npName
  .save (hsc.classifier tenantName order cname) ::
    (linked ruleUri (toMo .classRsrc (tocfURI ruleUri cname) ⟨.l24Class, classifierUri tenantName cname⟩
      ⟨.sgRule, .classRsrc, ruleUri⟩) ++
    addActionRef tenantName .sgRule ruleUri ++ hsc.addSubnets tenantName ruleUri cname)

def direction : String :=
  if hsc.attributes.get "direction" = "ingress" then "in"
  else if hsc.attributes.get "direction" = "egress" then "out"
  else "bidirectional"

def ruleUri (hsUri : String) : String :=
  hsUri ++ "GbpSecGroupRule/" ++ hsc.attributes.get propName ++ "/"

def ruleMo (hsUri : String) : Mo where
  subject := .sgRule
  uri := hsc.ruleUri hsUri
  parent := some ⟨.sgSubj, .sgRule, hsUri⟩
  properties := [.str propName (hsc.attributes.get propName), .str "direction" hsc.direction, .int "order" 1]

end HpSubjChild

namespace HpSubj

variable (hs : HpSubj) (tenantName : String) (order : RangeOrder String) (hsUri npName : String)

def makeRules : List HpSubjChild → List Write × Option String
  | [] => ([], none)
  | c :: cList =>
    if c.attributes.isNone then ([], some "Malformed network policy rule")
    else
      let rest := makeRules cList
      (linked hsUri (c.ruleMo hsUri) ++
        c.make tenantName order (c.ruleUri hsUri) (hs.attributes.get propName) npName ++ rest.1, rest.2)

/-- The rules, and one for ARP if there are any. -/
def rules : List HpSubjChild :=
  let cList := hs.getChildren "hostprotRule"
  if cList.length > 0 then cList ++ [hs.arpRule] else cList

def make : List Write × Option String := hs.makeRules tenantName order hsUri npName hs.rules

end HpSubj

namespace NetworkPolicy

variable (np : NetworkPolicy) (tenantName : String)

def name : String := np.hostprotPol.attributes.get propName

def uriOf (name : String) : String := tenantUri tenantName ++ "GbpSecGroup/" ++ name ++ "/"

def getURI : String := uriOf tenantName np.name

def subjUri (hs : HpSubj) : String :=
  np.getURI tenantName ++ "GbpSecGroupSubject/" ++ hs.attributes.get propName ++ "/"

def groupMo : Mo where
  subject := .secGroup
  uri := np.getURI tenantName
  properties := [.str propName np.name]

def subjMo (hs : HpSubj) : Mo where
  subject := .sgSubj
  uri := np.subjUri tenantName hs
  parent := some ⟨.secGroup, .sgSubj, np.getURI tenantName⟩
  properties := [.str propName (hs.attributes.get propName)]

/-- The writes up to the error, if there is one. -/
def make (order : RangeOrder String) : List Write × Option String :=
  if np.hostprotPol.attributes.isNone then ([], some "Malformed network policy")
  else
    match np.hostprotPol.getChild "hostprotSubj" with
    | none => ([.save (np.groupMo tenantName)], some "hostprotSubj not found")
    | some c =>
      if c.attributes.isNone then ([.save (np.groupMo tenantName)], some "Malformed network policy subject")
      else
        let tree := c.make tenantName order (np.subjUri tenantName c) np.name
        (.save (np.groupMo tenantName) ::
          (linked (np.getURI tenantName) (np.subjMo tenantName c) ++ tree.1), tree.2)

end NetworkPolicy

def trimPrefix (lead s : List Char) : List Char := if lead.isPrefixOf s then s.drop lead.length else s

def npNameFromDn (tenantName dn : String) : String :=
  let trimDn := trimPrefix ("/api/mo/uni/tn-" ++ tenantName ++ "/pol-").toList dn.toList
  let trimDn := (trimPrefix ".json".toList.reverse trimDn.reverse).reverse
  String.ofList ((splitOn '/' trimDn).headD [])

end AciContainers.Gbp
