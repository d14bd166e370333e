import AciContainers.GbpServer
import AciContainers.Replay

/-!
# The intent database

`pkg/gbpserver/watchers/intent_db.go`: filters, contracts and EPGs as the watchers save and delete
them, with references from a filter to the contracts that name it and from a contract to the EPGs
that use it. A change is sent to the server and trickles along the references. The map of EPGs of
a contract is shared between its nodes, so it is kept under a number. `none` is a write to a nil
map.
-/
namespace AciContainers.Gbp

def Contract.nodeName (c : Contract) : String := c.tenant ++ "/" ++ c.name

def EPG.nodeName (e : EPG) : String := e.tenant ++ "/" ++ e.name

end AciContainers.Gbp

namespace AciContainers.IntentDb

open Maps Replay
open Gbp (Contract EPG WLRule)

structure ApicContract where
  tenant : String
  name : String
  filters : List String
  deriving DecidableEq

def ApicContract.nodeName (c : ApicContract) : String := c.tenant ++ "/" ++ c.name

structure ContractNode where
  a : Option ApicContract
  g : Option Contract
  /-- The number of its map of EPGs. -/
  refs : Nat
  deriving DecidableEq

structure FilterNode where
  rules : Option (List WLRule)
  /-- The contracts that name the filter; `none` is the nil map. -/
  refs : Option (Finmap fun _ : String => ContractNode)

/-- The calls to the server. -/
inductive Msg where
  | addContract (c : Contract)
  | delContract (c : Contract)
  | addEPG (e : EPG)
  | delEPG (e : EPG)
  deriving DecidableEq

structure IntentDB where
  filters : Map String FilterNode
  contracts : Finmap fun _ : String => ContractNode
  epgs : Map String EPG
  epgRefs : Nat → Finmap fun _ : String => EPG
  /-- The number of the next map. -/
  next : Nat

def newIntentDB : IntentDB := ⟨Map.empty, ∅, Map.empty, fun _ => ∅, 0⟩

/-- The orders of the loops over the references in one call. -/
structure TrickleOrders where
  contracts : RangeOrder String
  epgs : String → RangeOrder String

/-- The loop of `genGbpContract`: rules so far, and whether all was resolved. -/
def genRules (idb : IntentDB) : List String → List WLRule → Bool → List WLRule × Bool
  | [], allowList, resolved => (allowList, resolved)
  | f :: filters, allowList, resolved =>
    match idb.filters f with
    | none => (allowList, false)
    | some r => genRules idb filters (allowList ++ r.rules.getD []) (resolved && r.rules.isSome)

def genGbpContract (idb : IntentDB) (a : ApicContract) : Contract × Bool :=
  let (allowList, resolved) := genRules idb a.filters [] true
  (⟨a.name, a.tenant, allowList⟩, resolved)

/-- What a contract node stands for, unless only EPGs have named it so far. -/
def ContractNode.contract (idb : IntentDB) (c : ContractNode) : Option (Contract × Bool) :=
  match c.g with
  | some g => some (g, true)
  | none => c.a.map (genGbpContract idb)

def trickleContract (idb : IntentDB) (orders : TrickleOrders) (add : Bool) (c : ContractNode) : List Msg :=
  match c.contract idb with
  | none => []
  | some (ct, resolved) =>
    let refs := idb.epgRefs c.refs
    (if add && resolved then .addContract ct else .delContract ct) ::
      (((orders.epgs ct.nodeName).visit refs.keys).filterMap refs.lookup).map .addEPG

def trickleFilter (idb : IntentDB) (orders : TrickleOrders) (add : Bool) (f : FilterNode) : List Msg :=
  let refs := f.refs.getD ∅
  ((orders.contracts.visit refs.keys).filterMap refs.lookup).flatMap (trickleContract idb orders add)

/-- `adder`: the contract gets a node when it has none. -/
def addEpgRef (e : EPG) (idb : IntentDB) (c : String) : IntentDB :=
  match idb.contracts.lookup c with
  | some cnode =>
    let refs := (idb.epgRefs cnode.refs).insert e.nodeName e
    { idb with epgRefs := Function.update idb.epgRefs cnode.refs refs }
  | none =>
    { idb with
      contracts := idb.contracts.insert c ⟨none, none, idb.next⟩
      epgRefs := Function.update idb.epgRefs idb.next (Finmap.singleton e.nodeName e)
      next := idb.next + 1 }

def saveEPG (idb : IntentDB) (e : EPG) : IntentDB × List Msg :=
  if idb.epgs e.nodeName = some e then (idb, [])
  else
    ((e.consContracts ++ e.provContracts).foldl (addEpgRef e)
      { idb with epgs := idb.epgs.put e.nodeName e }, [.addEPG e])

/-- Some contract has this map. -/
def IntentDB.Live (idb : IntentDB) (i : Nat) : Prop :=
  ∃ n ∈ idb.contracts.keys, (idb.contracts.lookup n).map ContractNode.refs = some i

instance (idb : IntentDB) (i : Nat) : Decidable (idb.Live i) :=
  inferInstanceAs (Decidable (∃ n ∈ idb.contracts.keys, (idb.contracts.lookup n).map ContractNode.refs = some i))

def deleteEPG (idb : IntentDB) (e : EPG) : IntentDB × List Msg :=
  match idb.epgs e.nodeName with
  | none => (idb, [])
  | some curr =>
    ({ idb with
      epgs := idb.epgs.erase e.nodeName
      epgRefs := fun i => if idb.Live i then (idb.epgRefs i).erase e.nodeName else idb.epgRefs i },
      [.delEPG curr])

/-- `saveContract`, for a node that has taken over the map of the current one. -/
def saveContract (idb : IntentDB) (orders : TrickleOrders) (name : String) (cn : ContractNode) :
    IntentDB × List Msg :=
  if idb.contracts.lookup name = some cn then (idb, [])
  else
    let idb := { idb with contracts := idb.contracts.insert name cn }
    (idb, trickleContract idb orders true cn)

def deleteContract (idb : IntentDB) (orders : TrickleOrders) (name : String) : IntentDB × List Msg :=
  match idb.contracts.lookup name with
  | none => (idb, [])
  | some curr =>
    let idb := { idb with contracts := idb.contracts.erase name }
    (idb, trickleContract idb orders false curr)

/-- The map of the current node, or a new one. -/
def refsFor (idb : IntentDB) (name : String) : Nat :=
  ((idb.contracts.lookup name).map ContractNode.refs).getD idb.next

def delFilterRefs (filters : Map String FilterNode) (name : String) : Map String FilterNode :=
  fun f => (filters f).map fun fn => { fn with refs := fn.refs.map fun refs => refs.erase name }

/-- A filter that is not there is declared without rules. -/
def addFilterRefs (name : String) (cn : ContractNode) :
    List String → Map String FilterNode → Option (Map String FilterNode)
  | [], filters => some filters
  | f :: fs, filters =>
    match filters f with
    | none => addFilterRefs name cn fs (filters.put f ⟨none, some (Finmap.singleton name cn)⟩)
    | some ⟨_, none⟩ => none
    | some ⟨rules, some refs⟩ => addFilterRefs name cn fs (filters.put f ⟨rules, some (refs.insert name cn)⟩)

/-- The node is referred to before it takes over the map, but by pointer. -/
def saveApicContract (idb : IntentDB) (orders : TrickleOrders) (c : ApicContract) :
    Option (IntentDB × List Msg) :=
  let cn : ContractNode := ⟨some c, none, refsFor idb c.nodeName⟩
  (addFilterRefs c.nodeName cn c.filters (delFilterRefs idb.filters c.nodeName)).map fun filters =>
    saveContract { idb with filters := filters, next := idb.next + 1 } orders c.nodeName cn

def deleteApicContract (idb : IntentDB) (orders : TrickleOrders) (c : ApicContract) : IntentDB × List Msg :=
  deleteContract { idb with
    filters := delFilterRefs idb.filters c.nodeName
    next := idb.next + 1 } orders c.nodeName

def saveGbpContract (idb : IntentDB) (orders : TrickleOrders) (c : Contract) : IntentDB × List Msg :=
  saveContract { idb with next := idb.next + 1 } orders c.nodeName ⟨none, some c, refsFor idb c.nodeName⟩

def deleteGbpContract (idb : IntentDB) (orders : TrickleOrders) (c : Contract) : IntentDB × List Msg :=
  deleteContract { idb with next := idb.next + 1 } orders c.nodeName

/-- A filter that was not there gets the nil map. -/
def saveFilter (idb : IntentDB) (orders : TrickleOrders) (name : String) (rules : Option (List WLRule)) :
    IntentDB × List Msg :=
  match idb.filters name with
  | none =>
    let fn : FilterNode := ⟨rules, none⟩
    let idb := { idb with filters := idb.filters.put name fn }
    (idb, trickleFilter idb orders true fn)
  | some curr =>
    if curr.rules = rules then (idb, [])
    else
      let fn : FilterNode := ⟨rules, curr.refs⟩
      let idb := { idb with filters := idb.filters.put name fn }
      (idb, trickleFilter idb orders true fn)

def deleteFilter (idb : IntentDB) (orders : TrickleOrders) (name : String) : IntentDB × List Msg :=
  match idb.filters name with
  | none => (idb, [])
  | some curr =>
    let idb := { idb with filters := idb.filters.erase name }
    (idb, trickleFilter idb orders false curr)

inductive Call where
  | saveFilter (name : String) (rules : Option (List WLRule))
  | deleteFilter (name : String)
  | saveApicContract (c : ApicContract)
  | deleteApicContract (c : ApicContract)
  | saveGbpContract (c : Contract)
  | deleteGbpContract (c : Contract)
  | saveEPG (e : EPG)
  | deleteEPG (e : EPG)
  deriving DecidableEq

def IntentDB.call (idb : IntentDB) (orders : TrickleOrders) : Call → Option (IntentDB × List Msg)
  | .saveFilter name rules => some (IntentDb.saveFilter idb orders name rules)
  | .deleteFilter name => some (IntentDb.deleteFilter idb orders name)
  | .saveApicContract c => IntentDb.saveApicContract idb orders c
  | .deleteApicContract c => some (IntentDb.deleteApicContract idb orders c)
  | .saveGbpContract c => some (IntentDb.saveGbpContract idb orders c)
  | .deleteGbpContract c => some (IntentDb.deleteGbpContract idb orders c)
  | .saveEPG e => some (IntentDb.saveEPG idb e)
  | .deleteEPG e => some (IntentDb.deleteEPG idb e)

end AciContainers.IntentDb
