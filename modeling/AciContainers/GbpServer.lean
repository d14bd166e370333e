import AciContainers.GbpMo

/-!
# The GBP server

The class IDs of `server.go`, the endpoint groups of `policy.go` and the initial database of
`gbp.go` and `gbp_common.go`. Class IDs are drawn at random; the draws are a tape, which a restart
reads on. Endpoints, tunnels, listeners and custom objects are left out.
-/
namespace AciContainers.Gbp

open Maps Net

structure Config where
  aciPolicyTenant : String
  aciVmmDomain : String
  aciVrf : String
  vrfEncapID : Int
  podSubnet : String
  nodeSubnet : String
  deriving DecidableEq

def numClassIDs := 32000
def firstClassID := 32000
def rdClassID := 31999
def firstEncapID := 7700000
def maxAttempts := 4096

def encapFromClass (classID : Nat) : Nat := firstEncapID + classID

abbrev ClassIDs := Finmap fun _ : String => Nat

/-- `state` is what `writeState` last wrote, `drawn` the number of draws so far. -/
structure Server where
  policyDB : Db
  usedClassIDs : Finset Nat
  instToClassID : ClassIDs
  state : ClassIDs
  drawn : Nat

/-- The orders in which the loops of `setContracts` go through their maps. -/
structure LoopOrders where
  current : RangeOrder String
  desired : RangeOrder String

/-- What a run of the server depends on: its configuration, the draws, the depth of the stack and
the loop orders while the database is set up. -/
structure World where
  config : Config
  draws : Nat → Fin numClassIDs
  depth : Nat
  orders : LoopOrders

namespace Server

/-- A server that starts from a written state. -/
def initState (state : ClassIDs) (drawn : Nat) : Server where
  policyDB := Map.empty
  usedClassIDs := (state.entries.map Sigma.snd).toFinset
  instToClassID := state
  state := state
  drawn := drawn

def writeState (s : Server) : Server := { s with state := s.instToClassID }

/-- The first of the next draws that is not in use, with the number of draws after it. -/
def drawClass (draws : Nat → Fin numClassIDs) (used : Finset Nat) : Nat → Nat → Option (Nat × Nat)
  | 0, _ => none
  | n + 1, drawn =>
    if draws drawn + firstClassID ∈ used then drawClass draws used n (drawn + 1)
    else some (draws drawn + firstClassID, drawn + 1)

/-- The class of an instance; its encap is `encapFromClass` of that. -/
def getEncapClass (draws : Nat → Fin numClassIDs) (s : Server) (instURL : String) :
    Except Crash (Nat × Server) :=
  match s.instToClassID.lookup instURL with
  | some classID => .ok (classID, s)
  | none =>
    match drawClass draws s.usedClassIDs maxAttempts s.drawn with
    | none => .error .attempts
    | some (classID, drawn) =>
      .ok (classID, writeState {
        s with
        usedClassIDs := insert classID s.usedClassIDs
        instToClassID := s.instToClassID.insert instURL classID
        drawn := drawn })

/-- For an instance without a class this takes class 0, which is never in use. -/
def freeEncapClass (s : Server) (instURL : String) : Server :=
  writeState {
    s with
    usedClassIDs := s.usedClassIDs.erase ((s.instToClassID.lookup instURL).getD 0)
    instToClassID := s.instToClassID.erase instURL }

def writes (s : Server) (ws : List Write) : Server := { s with policyDB := s.policyDB.writes ws }

end Server

def eicUri (pURI : String) : String := joinUri pURI "GbpeInstContext"

def eicMo (pSub : Subject) (pURI : String) (enc : Int) (classID : Nat) (more : List Property) : Mo where
  subject := .eic
  uri := eicUri pURI
  parent := some ⟨pSub, .eic, pURI⟩
  properties := [.int propEncapID enc, .int propClassID classID] ++ more

def createEIC (draws : Nat → Fin numClassIDs) (pSub : Subject) (pURI : String) (more : List Property)
    (s : Server) : Except Crash Server := do
  let (classID, s) ← s.getEncapClass draws (eicUri pURI)
  .ok (s.writes [.save (eicMo pSub pURI (encapFromClass classID) classID more)])

structure BDSubnet where
  bdName : String
  mcastGroup : String
  fdName : String
  subnetsName : String
  snet : String
  deriving DecidableEq

def Config.vrfUri (cfg : Config) : String :=
  tenantUri cfg.aciPolicyTenant ++ "GbpRoutingDomain/" ++ cfg.aciVrf ++ "/"

namespace BDSubnet

variable (bds : BDSubnet) (cfg : Config)

def subnetsUri : String := tenantUri cfg.aciPolicyTenant ++ "GbpSubnets/" ++ bds.subnetsName ++ "/"

def snUri : String := bds.subnetsUri cfg ++ "GbpSubnet/" ++ escapeName bds.snet ++ "/"

def bdUri : String := tenantUri cfg.aciPolicyTenant ++ "GbpBridgeDomain/" ++ bds.bdName ++ "/"

def fdUri : String := tenantUri cfg.aciPolicyTenant ++ "GbpFloodDomain/" ++ bds.fdName ++ "/"

def fdMcastUri : String := bds.fdUri cfg ++ "GbpeFloodContext/"

def fdToBDUri : String := bds.fdUri cfg ++ "GbpFloodDomainToNetworkRSrc/"

def createSubnet : List Write :=
  .save (HpSubjChild.subnetSet (bds.subnetsUri cfg) bds.subnetsName) ::
    addSubnet (bds.subnetsUri cfg) bds.snet (bds.snUri cfg)

def netRsUri : String := joinUri (bds.bdUri cfg) "GbpForwardingBehavioralGroupToSubnetsRSrc"

def bdnwUri : String := joinUri (bds.bdUri cfg) "GbpBridgeDomainToNetworkRSrc"

def bdMo : Mo where
  subject := .bd
  uri := bds.bdUri cfg
  children := [eicUri (bds.bdUri cfg), bds.netRsUri cfg, bds.bdnwUri cfg]
  properties := [.str propName bds.bdName, .str propRoutingMode "enabled"]

/-- The bridge domain without its instance context, which is made first. -/
def bdWrites : List Write := [
  .save (toMo .bdToSubnets (bds.netRsUri cfg) ⟨.subnetSet, bds.subnetsUri cfg⟩
    ⟨.bd, .bdToSubnets, bds.bdUri cfg⟩),
  .save (toMo .bdToVrf (bds.bdnwUri cfg) ⟨.vrf, cfg.vrfUri⟩ ⟨.bd, .bdToVrf, bds.bdUri cfg⟩),
  .save (bds.bdMo cfg)]

def fdMcastMo : Mo where
  subject := .fdMcast
  uri := bds.fdMcastUri cfg
  parent := some ⟨.fd, .fdMcast, bds.fdUri cfg⟩
  properties := [.str propMcast bds.mcastGroup]

def fdMo : Mo where
  subject := .fd
  uri := bds.fdUri cfg
  children := [bds.fdMcastUri cfg, bds.fdToBDUri cfg]
  properties := [
    .str propName bds.fdName,
    .str "unknownFloodMode" "drop",
    .str "arpMode" "unicast",
    .str "neighborDiscMode" "unicast"]

def createFD : List Write := [
  .save (bds.fdMcastMo cfg),
  .save (toMo .fdToBD (bds.fdToBDUri cfg) ⟨.bd, bds.bdUri cfg⟩ ⟨.fd, .fdToBD, bds.fdUri cfg⟩),
  .save (bds.fdMo cfg)]

def setup (draws : Nat → Fin numClassIDs) (s : Server) : Except Crash Server := do
  let s ← createEIC draws .bd (bds.bdUri cfg) [] (s.writes (bds.createSubnet cfg))
  .ok (s.writes (bds.bdWrites cfg ++ bds.createFD cfg))

def epgMo (name uri : String) : Mo where
  subject := .epg
  uri := uri
  children := [eicUri uri]
  properties := [.str propName name, .str propIntraPolicy "allow"]

def fdRef (uri : String) : Mo :=
  toMo .epgToFD (uri ++ "GbpEpGroupToNetworkRSrc/") ⟨.fd, bds.fdUri cfg⟩ ⟨.epg, .epgToFD, uri⟩

def snetRef (uri : String) : Mo :=
  toMo .epgToSnet (uri ++ "GbpEpGroupToSubnetsRSrc/") ⟨.subnetSet, bds.subnetsUri cfg⟩ ⟨.epg, .epgToSnet, uri⟩

/-- The endpoint group without its instance context, with its references. -/
def epgWrites (name uri : String) : List Write :=
  .save (epgMo name uri) :: (linked uri (bds.fdRef cfg uri) ++ linked uri (bds.snetRef cfg uri))

def createEPG (draws : Nat → Fin numClassIDs) (name uri : String) (s : Server) : Except Crash Server := do
  let s ← createEIC draws .epg uri [.str propMcast "225.107.24.233"] s
  .ok (s.writes (bds.epgWrites cfg name uri))

end BDSubnet

def Config.podBDS (cfg : Config) : BDSubnet where
  bdName := "defaultBD"
  mcastGroup := "225.0.193.80"
  fdName := "defaultFD"
  subnetsName := "allsubnets"
  snet := cfg.podSubnet

def Config.nodeBDS (cfg : Config) : BDSubnet where
  bdName := "nodeBD"
  mcastGroup := "225.0.193.81"
  fdName := "nodeFD"
  subnetsName := "nodesubnets"
  snet := cfg.nodeSubnet

/-- The field `bds` is an argument of `make`: only `InitDB` sets it. -/
structure EPG where
  tenant : String
  name : String
  consContracts : List String
  provContracts : List String
  apicDN : String
  deriving DecidableEq

namespace EPG

variable (e : EPG)

def getURI : String := tenantUri e.tenant ++ "GbpEpGroup/" ++ escapeName e.name ++ "/"

def contractURI (name : String) : String :=
  match splitOn '/' name.toList with
  | tenant :: contract :: _ =>
    tenantUri (String.ofList tenant) ++ "GbpContract/" ++ String.ofList contract ++ "/"
  | _ => tenantUri e.tenant ++ "GbpContract/" ++ name ++ "/"

def getContractURIs (contracts : List String) : Finset String := (contracts.map e.contractURI).toFinset

def dropChild (uri ref : String) (db : Db) : Except Crash Db :=
  match db uri with
  | some mo => do
    let children ← delChild ref mo.children
    .ok (db.put uri { mo with children := children })
  | none => .ok db

/-- The first loop of `setContracts`: references no longer required. -/
def dropRefs (uri : String) (currentC : Finmap fun _ : String => String) (desiredC : Finset String) :
    List String → Db → Except Crash Db
  | [], db => .ok db
  | tgt :: rest, db =>
    if tgt ∈ desiredC then dropRefs uri currentC desiredC rest db
    else do
      let db ← dropChild uri ((currentC.lookup tgt).getD "") db
      dropRefs uri currentC desiredC rest (db.erase ((currentC.lookup tgt).getD ""))

/-- The second loop, which stops at the first error. -/
def addRefs (uri : String) (gSubj refSubj : Subject) (currentC : Finmap fun _ : String => String) :
    List String → Db → Db
  | [], db => db
  | tgt :: rest, db =>
    if tgt ∈ currentC then addRefs uri gSubj refSubj currentC rest db
    else
      match addRef db uri gSubj refSubj tgt with
      | some db => addRefs uri gSubj refSubj currentC rest db
      | none => db

/-- An error is logged only, and what was done before it stays. -/
def setContracts (orders : LoopOrders) (contracts : List String) (refSubj : Subject) (db : Db) :
    Except Crash Db :=
  match db e.getURI with
  | none => .ok db
  | some mo =>
    match getRefURIs db refSubj mo.children ∅ with
    | none => .ok db
    | some currentC => do
      let desiredC := e.getContractURIs contracts
      let db ← dropRefs e.getURI currentC desiredC (orders.current.visit currentC.keys) db
      .ok (addRefs e.getURI mo.subject refSubj currentC (orders.desired.visit desiredC) db)

/-- The group, created if it is not there. -/
def create (w : World) (bds : Option BDSubnet) (s : Server) : Except Crash Server :=
  match s.policyDB e.getURI with
  | some _ => .ok s
  | none => (bds.getD w.config.podBDS).createEPG w.config w.draws e.name e.getURI s

def setAllContracts (cons prov : LoopOrders) (db : Db) : Except Crash Db := do
  let db ← e.setContracts cons e.consContracts .epgToCC db
  e.setContracts prov e.provContracts .epgToPC db

def make (w : World) (bds : Option BDSubnet) (cons prov : LoopOrders) (s : Server) :
    Except Crash Server := do
  let s ← e.create w bds s
  let db ← e.setAllContracts cons prov s.policyDB
  .ok { s with policyDB := db }

def deleteChild (s : Server) (cUri : String) : Server :=
  let s : Server := match s.policyDB cUri with
    | some cMo => if cMo.subject = Subject.eic then s.freeEncapClass cMo.uri else s
    | none => s
  { s with policyDB := s.policyDB.erase cUri }

def delete (s : Server) : Server :=
  match s.policyDB e.getURI with
  | none => s
  | some base =>
    let s := base.children.foldl deleteChild s
    { s with policyDB := s.policyDB.erase e.getURI }

end EPG

/-- A child that `CreateRoot` makes, and its link. -/
def rootChild (pSubj : Subject) (pUri : String) (childSub : Subject) (uri : String)
    (properties : List Property) : List Write :=
  linked pUri {
    subject := childSub
    uri := uri
    parent := some ⟨pSubj, childSub, pUri⟩
    properties := properties }

def Config.pConfigName (cfg : Config) : String :=
  "comp/prov-Kubernetes/ctrlr-[" ++ cfg.aciVmmDomain ++ "]-" ++ cfg.aciVmmDomain ++ "/sw-InsiemeLSOid"

def Config.pConfURI (cfg : Config) : String :=
  "/PolicyUniverse/PlatformConfig/" ++ escapeName cfg.pConfigName ++ "/"

def createRoot (cfg : Config) : List Write :=
  .save { subject := .root, uri := "/" } ::
  (rootChild .root "/" .domainConfig "/DomainConfig/" [] ++
    rootChild .root "/" .invUniverse "/InvUniverse/" [] ++
    rootChild .root "/" .policyUniverse "/PolicyUniverse/" [] ++
    rootChild .policyUniverse "/PolicyUniverse/" .platformConfig cfg.pConfURI [
      .str "multicastGroupIP" "225.1.2.3",
      .str "inventoryType" "ON_LINK",
      .str "encapType" "vxlan",
      .str "mode" "intra_epg",
      .str "name" cfg.pConfigName] ++
    rootChild .invUniverse "/InvUniverse/" .invRemoteEndpointInventory
      "/InvUniverse/InvRemoteEndpointInventory/" [] ++
    rootChild .domainConfig "/DomainConfig/" .domainConfigToConfigRSrc
      "/DomainConfig/DomainConfigToConfigRSrc/" [.ref propTarget ⟨.platformConfig, cfg.pConfURI⟩] ++
    rootChild .domainConfig "/DomainConfig/" .domainConfigToRemoteEndpointInventoryRSrc
      "/DomainConfig/DomainConfigToRemoteEndpointInventoryRSrc/"
      [.ref propTarget ⟨.invRemoteEndpointInventory, "/InvUniverse/InvRemoteEndpointInventory/"⟩])

def createDefVrf (cfg : Config) : List Write := [
  .save (eicMo .vrf cfg.vrfUri cfg.vrfEncapID rdClassID []),
  .save {
    subject := .vrf
    uri := cfg.vrfUri
    children := [eicUri cfg.vrfUri]
    properties := [.str propName cfg.aciVrf] }]

def anyConName := "all-all"

def anyContract (cfg : Config) : Contract := ⟨anyConName, cfg.aciPolicyTenant, [emptyRule]⟩

def defaultEpg (cfg : Config) (name : String) : EPG :=
  ⟨cfg.aciPolicyTenant, name, [anyConName], [anyConName], ""⟩

def epgList (cfg : Config) : List (EPG × Option BDSubnet) := [
  (defaultEpg cfg "kubernetes|kube-default", none),
  (defaultEpg cfg "kubernetes|kube-system", none),
  (defaultEpg cfg "kubernetes|kube-nodes", some cfg.nodeBDS)]

/-- An error is logged only. -/
def Server.addContract (s : Server) (cfg : Config) (c : Contract) : Server :=
  { s with policyDB := (c.make cfg.aciPolicyTenant s.policyDB).1 }

@[irreducible] def initDB (w : World) (s : Server) : Except Crash Server := do
  let s := { s with policyDB := Map.empty }
  let s ← w.config.podBDS.setup w.config w.draws
    (s.writes (createRoot w.config ++ createDefVrf w.config))
  let s ← w.config.nodeBDS.setup w.config w.draws s
  (epgList w.config).foldlM (fun s e => e.1.make w e.2 w.orders w.orders s)
    (s.addContract w.config (anyContract w.config))

/-- `StartNewServer`, from a written state. -/
def start (w : World) (state : ClassIDs) (drawn : Nat) : Except Crash Server :=
  initDB w (Server.initState state drawn)

inductive Msg where
  | addEPG (epg : EPG) (cons prov : LoopOrders)
  | delEPG (epg : EPG)
  | addContract (c : Contract)
  | delContract (c : Contract)
  | addNetPol (np : NetworkPolicy) (order : RangeOrder String)
  | delNetPol (dn : String)

/-- Delete an object if it is there. -/
def deleteTree (depth : Nat) (key : String) (db : Db) : Except Crash Db :=
  match db key with
  | some mo => delRecursive depth mo db
  | none => .ok db

def handleMsg (w : World) (s : Server) : Msg → Except Crash Server
  | .addEPG epg cons prov => epg.make w none cons prov s
  | .delEPG epg => .ok (epg.delete s)
  | .addContract c => .ok (s.addContract w.config c)
  | .delContract c => do
    let db ← deleteTree w.depth c.getURI s.policyDB
    .ok { s with policyDB := db }
  | .addNetPol np order => .ok (s.writes (np.make w.config.aciPolicyTenant order).1)
  | .delNetPol dn => do
    let key := NetworkPolicy.uriOf w.config.aciPolicyTenant (npNameFromDn w.config.aciPolicyTenant dn)
    let db ← deleteTree w.depth key s.policyDB
    .ok { s with policyDB := db }

open Outcomes List

variable {u : String} {ws : List Write} {db : Db} {g : Mo}

@[simp] theorem save_same (db : Db) (g : Mo) : db.save g g.uri = some g := put_same _ _ _

theorem save_other (db : Db) (g : Mo) (h : u ≠ g.uri) : db.save g u = db u :=
  put_other _ _ h

theorem addChild_same (db : Db) (u c : String) : db.addChild u c u = (db u).map (·.addChild c) :=
  if_pos rfl

theorem addChild_other (db : Db) {k : String} (c : String) (h : k ≠ u) :
    db.addChild u c k = db k := if_neg h

@[simp] theorem writes_nil (db : Db) : db.writes [] = db := rfl
@[simp] theorem writes_cons (db : Db) (x : Write) (ws : List Write) :
    db.writes (x :: ws) = (db.write x).writes ws := rfl

theorem writes_append (db : Db) (ws ws' : List Write) :
    db.writes (ws ++ ws') = (db.writes ws).writes ws' := foldl_append

/-- The rule for what every write keeps. -/
theorem writes_invariant {P : Db → Prop} (h : P db) (hw : ∀ db, ∀ x ∈ ws, P db → P (db.write x)) : P (db.writes ws) :=
  foldl_invariant h hw

/-- Every object is stored under its own URI. -/
def Keyed (db : Db) : Prop := ∀ u g, db u = some g → g.uri = u

theorem keyed_empty : Keyed Map.empty := by
  intro u g h
  cases h

theorem Keyed.put (h : Keyed db) (hg : g.uri = u) : Keyed (Map.put db u g) := by
  intro k x hx
  by_cases hk : k = u
  · subst hk
    rw [put_same, Option.some_inj] at hx
    exact hx ▸ hg
  · exact h k x ((put_other _ _ hk).symm.trans hx)

theorem Keyed.erase (h : Keyed db) (u : String) : Keyed (Map.erase db u) := by
  intro k x hx
  by_cases hk : k = u
  · rw [hk, erase_same] at hx
    cases hx
  · exact h k x ((erase_other _ hk).symm.trans hx)

theorem Keyed.write (h : Keyed db) (x : Write) : Keyed (db.write x) := by
  cases x with
  | save g => exact h.put rfl
  | addChild u c =>
    intro k g hg
    by_cases hk : k = u
    · subst hk
      rw [Db.write, addChild_same, Option.map_eq_some_iff] at hg
      obtain ⟨y, hy, rfl⟩ := hg
      exact h k y hy
    · rw [Db.write, addChild_other _ _ hk] at hg
      exact h k g hg

theorem Keyed.writes (h : Keyed db) (ws : List Write) : Keyed (db.writes ws) :=
  writes_invariant h fun _ x _ h => h.write x

theorem isSome_write (h : (db u).isSome) (x : Write) : (db.write x u).isSome := by
  cases x with
  | save g =>
    by_cases hu : u = g.uri
    · rw [hu, Db.write, save_same]
      rfl
    · rw [Db.write, save_other _ _ hu]
      exact h
  | addChild k c =>
    by_cases hu : u = k
    · rw [hu] at h
      rw [hu, Db.write, addChild_same, Option.isSome_map]
      exact h
    · rw [Db.write, addChild_other _ _ hu]
      exact h

/-- Writes remove nothing. -/
theorem isSome_writes (h : (db u).isSome) (ws : List Write) : (db.writes ws u).isSome :=
  writes_invariant (P := fun db => (db u).isSome) h fun _ x _ h => isSome_write h x

theorem isSome_writes_of_save (h : .save g ∈ ws) : (db.writes ws g.uri).isSome := by
  obtain ⟨before, after, rfl⟩ := append_of_mem h
  rw [writes_append, writes_cons]
  refine isSome_writes ?_ after
  rw [Db.write, save_same]
  rfl

namespace Contract

variable (c : Contract)

/-- All writes of a contract, its classifiers and the allow action. -/
def allWrites (tenantName : String) : List Write :=
  c.treeWrites ++ c.directedRules.flatMap (fun r => c.ruleWrites r.1 r.2) ++
    addActionRef tenantName .rule c.getFilterURI

theorem addRules_eq (rules : List (WLRule × String)) {db : Db} (h : (db c.getFilterURI).isSome) :
    c.addRules rules db = (db.writes (rules.flatMap fun r => c.ruleWrites r.1 r.2), none) := by
  induction rules generalizing db with
  | nil => rfl
  | cons r rules ih =>
    obtain ⟨f, hf⟩ := Option.isSome_iff_exists.mp h
    have hadd : c.addRule db r.1 r.2 = some (db.writes (c.ruleWrites r.1 r.2)) := by
      rw [addRule, hf]
    rw [addRules, hadd, flatMap_cons, writes_append]
    exact ih (isSome_writes h _)

theorem make_eq (tenantName : String) (db : Db) :
    c.make tenantName db = (db.writes (c.allWrites tenantName), none) := by
  have hf : (db.writes c.treeWrites c.getFilterURI).isSome :=
    isSome_writes_of_save (g := c.filterMo) (by simp [treeWrites, linked])
  have hc := c.addRules_eq c.directedRules hf
  rw [make, makeClassifiers, hc, allWrites, writes_append, writes_append]

end Contract

theorem addContract_eq (s : Server) (cfg : Config) (c : Contract) :
    s.addContract cfg c = s.writes (c.allWrites cfg.aciPolicyTenant) := by
  rw [Server.addContract, c.make_eq, Server.writes]

/-- Nothing comes into a list of children by deletion. -/
theorem mem_delChildLoop {uri : String} (n ix : Nat) (array : List String) (len : Nat) :
    Ends (fun _ => True) (fun out => ∀ c ∈ out, c ∈ array) (delChildLoop uri n ix array len) := by
  induction n generalizing ix array len with
  | zero => exact fun c hc => mem_of_mem_take hc
  | succ n ih =>
    rw [delChildLoop]
    split
    · split
      · refine (ih _ _ _).mono fun out hout c hc => ?_
        have hmem := hout c hc
        simp only [mem_append] at hmem
        rcases hmem with (hmem | hmem) | hmem
        · exact mem_of_mem_take hmem
        · exact mem_of_mem_take (mem_of_mem_drop hmem)
        · exact mem_of_mem_drop hmem
      · trivial
    · exact ih _ _ _

theorem mem_delChild (uri : String) (children : List String) :
    Ends (fun _ => True) (fun out => ∀ c ∈ out, c ∈ children) (delChild uri children) :=
  mem_delChildLoop _ _ _ _

/-!
# Class IDs of the GBP server

The class IDs in use are those of the instances, each in one place, and what is written is what
a restart reads. An endpoint group carries the encap of the instance context it lists; the
context's class stays its own as long as the group is there, so no two groups carry one encap.
-/

open Option Finmap

variable {s s' : Server} {draws : Nat → Fin numClassIDs} {c : Nat}

def Server.classOf (s : Server) : Map String Nat := fun u => s.instToClassID.lookup u

/-- The two maps agree with each other and with what is written. -/
structure Server.ClassesOk (s : Server) : Prop where
  inj : ∀ u u' c, s.classOf u = some c → s.classOf u' = some c → u = u'
  used_iff : ∀ c, c ∈ s.usedClassIDs ↔ ∃ u, s.classOf u = some c
  range : ∀ u c, s.classOf u = some c → firstClassID ≤ c ∧ c < firstClassID + numClassIDs
  written : s.state = s.instToClassID

theorem Server.ClassesOk.withDb (h : s.ClassesOk) (db : Db) : Server.ClassesOk { s with policyDB := db } :=
  ⟨h.inj, h.used_iff, h.range, h.written⟩

theorem lookup_insert_eq_put (m : ClassIDs) (k : String) (c : Nat) :
    (fun u => (m.insert k c).lookup u) = Map.put (fun u => m.lookup u) k c := by
  funext u
  by_cases hu : u = k
  · subst hu
    rw [lookup_insert, put_same]
  · rw [lookup_insert_of_ne _ hu, put_other _ _ hu]

theorem lookup_erase_eq_erase (m : ClassIDs) (k : String) :
    (fun u => (m.erase k).lookup u) = Map.erase (fun u => m.lookup u) k := by
  funext u
  by_cases hu : u = k
  · subst hu
    rw [lookup_erase, erase_same]
  · rw [lookup_erase_ne hu, erase_other _ hu]

theorem drawClass_spec {used : Finset Nat} {n drawn drawn' : Nat}
    (h : Server.drawClass draws used n drawn = some (c, drawn')) :
    c ∉ used ∧ firstClassID ≤ c ∧ c < firstClassID + numClassIDs := by
  induction n generalizing drawn with
  | zero => cases h
  | succ n ih =>
    rw [Server.drawClass] at h
    split at h
    · exact ih h
    · next hfree =>
      simp only [some.injEq, Prod.mk.injEq] at h
      rw [← h.1]
      exact ⟨hfree, by omega, by omega⟩

/-- Either the instance has the class, or it gets a free one. -/
theorem getEncapClass_cases (h : s.getEncapClass draws u = .ok (c, s')) : s.classOf u = some c ∧ s' = s ∨
      s.classOf u = none ∧ c ∉ s.usedClassIDs ∧ (firstClassID ≤ c ∧ c < firstClassID + numClassIDs) ∧
        s'.policyDB = s.policyDB ∧ s'.usedClassIDs = insert c s.usedClassIDs ∧
        s'.classOf = s.classOf.put u c ∧ s'.state = s'.instToClassID := by
  rw [Server.getEncapClass] at h
  cases hu : s.instToClassID.lookup u with
  | some c' =>
    rw [hu] at h
    obtain ⟨rfl, rfl⟩ : c' = c ∧ s = s' := by simpa using h
    exact .inl ⟨hu, rfl⟩
  | none =>
    rw [hu] at h
    cases hd : Server.drawClass draws s.usedClassIDs maxAttempts s.drawn with
    | none =>
      rw [hd] at h
      cases h
    | some r =>
      obtain ⟨c', drawn⟩ := r
      rw [hd] at h
      obtain ⟨rfl, rfl⟩ : c' = c ∧ _ = s' := by simpa using h
      obtain ⟨hfree, hrange⟩ := drawClass_spec hd
      exact .inr ⟨hu, hfree, hrange, rfl, rfl, lookup_insert_eq_put _ _ _, rfl⟩

theorem Server.ClassesOk.getEncapClass (h : s.ClassesOk) (hget : s.getEncapClass draws u = .ok (c, s')) :
    s'.ClassesOk := by
  obtain ⟨-, rfl⟩ | ⟨hnone, hfree, hrange, -, hused, hclass, hwritten⟩ := getEncapClass_cases hget
  · exact h
  · have hother : ∀ k, s.classOf k ≠ some c := fun k hk => hfree ((h.used_iff c).mpr ⟨k, hk⟩)
    refine ⟨?_, ?_, ?_, hwritten⟩
    · intro k k' d hk hk'
      rw [hclass] at hk hk'
      by_cases hku : k = u <;> by_cases hku' : k' = u
      · rw [hku, hku']
      · rw [hku, put_same, some_inj] at hk
        rw [put_other _ _ hku', ← hk] at hk'
        exact absurd hk' (hother k')
      · rw [hku', put_same, some_inj] at hk'
        rw [put_other _ _ hku, ← hk'] at hk
        exact absurd hk (hother k)
      · rw [put_other _ _ hku] at hk
        rw [put_other _ _ hku'] at hk'
        exact h.inj k k' d hk hk'
    · intro d
      rw [hused, hclass, Finset.mem_insert, h.used_iff]
      constructor
      · rintro (rfl | ⟨k, hk⟩)
        · exact ⟨u, put_same _ _ _⟩
        · refine ⟨k, ?_⟩
          rw [put_other]
          · exact hk
          · rintro rfl
            rw [hnone] at hk
            cases hk
      · rintro ⟨k, hk⟩
        by_cases hku : k = u
        · rw [hku, put_same, some_inj] at hk
          exact .inl hk.symm
        · rw [put_other _ _ hku] at hk
          exact .inr ⟨k, hk⟩
    · intro k d hk
      rw [hclass] at hk
      by_cases hku : k = u
      · rw [hku, put_same, some_inj] at hk
        exact hk ▸ hrange
      · rw [put_other _ _ hku] at hk
        exact h.range k d hk

theorem classOf_freeEncapClass (s : Server) (u : String) :
    (s.freeEncapClass u).classOf = s.classOf.erase u := lookup_erase_eq_erase _ _

theorem Server.ClassesOk.freeEncapClass (h : s.ClassesOk) (u : String) : (s.freeEncapClass u).ClassesOk := by
  have hold : ∀ k c, (s.freeEncapClass u).classOf k = some c → k ≠ u ∧ s.classOf k = some c := by
    intro k c hk
    rw [classOf_freeEncapClass] at hk
    by_cases hku : k = u
    · rw [hku, erase_same] at hk
      cases hk
    · rw [erase_other _ hku] at hk
      exact ⟨hku, hk⟩
  refine ⟨?_, ?_, ?_, rfl⟩
  · intro k k' c hk hk'
    exact h.inj k k' c (hold k c hk).2 (hold k' c hk').2
  · intro c
    have hused : (s.freeEncapClass u).usedClassIDs = s.usedClassIDs.erase ((s.classOf u).getD 0) := rfl
    rw [hused, Finset.mem_erase, h.used_iff]
    constructor
    · rintro ⟨hne, k, hk⟩
      refine ⟨k, ?_⟩
      rw [classOf_freeEncapClass, erase_other]
      · exact hk
      · rintro rfl
        rw [hk, getD_some] at hne
        exact hne rfl
    · rintro ⟨k, hk⟩
      obtain ⟨hku, hk⟩ := hold k c hk
      refine ⟨?_, k, hk⟩
      rintro rfl
      cases hu : s.classOf u with
      | some d =>
        rw [hu, getD_some] at hk
        exact hku (h.inj k u d hk hu)
      | none =>
        -- Class 0 is below all classes.
        rw [hu, getD_none] at hk
        exact absurd (h.range k 0 hk).1 (by decide)
  · intro k c hk
    exact h.range k c (hold k c hk).2

/-- A written state that can be started from gives agreeing maps. -/
theorem classesOk_initState {state : ClassIDs} (drawn : Nat)
    (hinj : ∀ u u' c, state.lookup u = some c → state.lookup u' = some c → u = u')
    (hrange : ∀ u c, state.lookup u = some c → firstClassID ≤ c ∧ c < firstClassID + numClassIDs) :
    (Server.initState state drawn).ClassesOk := by
  refine ⟨hinj, ?_, hrange, rfl⟩
  intro c
  have hmem : c ∈ (Server.initState state drawn).usedClassIDs ↔
      ∃ u, (⟨u, c⟩ : Sigma fun _ : String => Nat) ∈ state.entries := by
    simp [Server.initState]
  rw [hmem]
  exact exists_congr fun u => lookup_eq_some_iff.symm

theorem Server.ClassesOk.initState (h : s.ClassesOk) (drawn : Nat) : (Server.initState s.state drawn).ClassesOk := by
  refine classesOk_initState drawn ?_ ?_
  · rw [h.written]
    exact h.inj
  · rw [h.written]
    exact h.range

theorem classesOk_empty (drawn : Nat) : (Server.initState ∅ drawn).ClassesOk :=
  classesOk_initState drawn (by simp) (by simp)

end AciContainers.Gbp
