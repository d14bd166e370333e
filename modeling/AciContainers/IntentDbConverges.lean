import AciContainers.IntentDb
import AciContainers.Runs

/-!
# Convergence of the intent database

The messages sent to the server, folded by name, against the intents. References are what carries
a change, so the invariant says which references are there and that none of them is stale.
-/
namespace AciContainers.IntentDb

open Maps Replay Runs List
open Gbp (Contract EPG WLRule)
open Finmap (ext_lookup lookup_erase lookup_erase_ne lookup_insert lookup_insert_of_ne mem_of_lookup_eq_some)
open Option (map_some some_inj)

/-- What is saved and not deleted since. -/
structure Intents where
  /-- A filter may be saved with the nil list. -/
  filters : Map String (Option (List WLRule))
  contracts : Map String ApicContract
  epgs : Map String EPG

/-- The rules of the filters one after the other, when all have some. -/
def rulesOf (rules : String → Option (List WLRule)) : List String → Option (List WLRule)
  | [] => some []
  | f :: fs =>
    match rules f, rulesOf rules fs with
    | some r, some rs => some (r ++ rs)
    | _, _ => none

namespace Intents

/-- The rules of a filter that is saved with some. -/
def rules (i : Intents) (f : String) : Option (List WLRule) := (i.filters f).bind id

def resolve (i : Intents) (c : ApicContract) : Option Contract :=
  (rulesOf i.rules c.filters).map fun allowList => ⟨c.name, c.tenant, allowList⟩

/-- The contract that the server should have under a name. -/
def contract (i : Intents) (n : String) : Option Contract := (i.contracts n).bind i.resolve

def call (i : Intents) : Call → Intents
  | .saveFilter name rules => { i with filters := i.filters.put name rules }
  | .deleteFilter name => { i with filters := i.filters.erase name }
  | .saveApicContract c => { i with contracts := i.contracts.put c.nodeName c }
  | .deleteApicContract c => { i with contracts := i.contracts.erase c.nodeName }
  | .saveEPG e => { i with epgs := i.epgs.put e.nodeName e }
  | .deleteEPG e => { i with epgs := i.epgs.erase e.nodeName }
  | .saveGbpContract _ => i
  | .deleteGbpContract _ => i

end Intents

def Msg.contractEntry : Msg → Option (String × Option Contract)
  | .addContract c => some (c.nodeName, some c)
  | .delContract c => some (c.nodeName, none)
  | _ => none

def Msg.epgEntry : Msg → Option (String × Option EPG)
  | .addEPG e => some (e.nodeName, some e)
  | .delEPG e => some (e.nodeName, none)
  | _ => none

def contractLog (msgs : List Msg) : Log String Contract := msgs.filterMap Msg.contractEntry

def epgLog (msgs : List Msg) : Log String EPG := msgs.filterMap Msg.epgEntry

theorem contractLog_append (msgs msgs' : List Msg) :
    contractLog (msgs ++ msgs') = contractLog msgs ++ contractLog msgs' := filterMap_append

theorem epgLog_append (msgs msgs' : List Msg) : epgLog (msgs ++ msgs') = epgLog msgs ++ epgLog msgs' :=
  filterMap_append

theorem contractLog_cons (m : Msg) (msgs : List Msg) :
    contractLog (m :: msgs) = m.contractEntry.toList ++ contractLog msgs := by
  cases m <;> rfl

theorem epgLog_cons (m : Msg) (msgs : List Msg) : epgLog (m :: msgs) = m.epgEntry.toList ++ epgLog msgs := by
  cases m <;> rfl

structure World where
  idb : IntentDB
  sent : List Msg
  intents : Intents

def start : World := ⟨newIntentDB, [], Map.empty, Map.empty, Map.empty⟩

/-- A call, with the orders of its loops. -/
abbrev Event := TrickleOrders × Call

def step (s : Option World) (e : Event) : Option World :=
  s.bind fun w => (w.idb.call e.1 e.2).map fun r => ⟨r.1, w.sent ++ r.2, w.intents.call e.2⟩

/-- The server has been told the intents. -/
def World.Converged (w : World) : Prop :=
  replay Map.empty (contractLog w.sent) = w.intents.contract ∧
    replay Map.empty (epgLog w.sent) = w.intents.epgs

variable {fs : List String}

theorem rulesOf_congr {rules rules' : String → Option (List WLRule)}
    (h : ∀ f ∈ fs, rules' f = rules f) : rulesOf rules' fs = rulesOf rules fs := by
  induction fs with
  | nil => rfl
  | cons f fs ih =>
    rw [forall_mem_cons] at h
    rw [rulesOf, rulesOf, h.1, ih h.2]

variable {f : String}

theorem rulesOf_none {rules : String → Option (List WLRule)} (hf : f ∈ fs) (h : rules f = none) :
    rulesOf rules fs = none := by
  induction fs with
  | nil => exact absurd hf not_mem_nil
  | cons g fs ih =>
    rw [rulesOf]
    obtain rfl | hf := mem_cons.mp hf
    · rw [h]
    · rw [ih hf]
      cases rules g <;> rfl

variable {c : ApicContract} {i' i : Intents}

theorem resolve_congr (h : ∀ f ∈ c.filters, i'.rules f = i.rules f) : i'.resolve c = i.resolve c := by
  rw [Intents.resolve, rulesOf_congr h, Intents.resolve]

section

variable (idb : IntentDB) (fs : List String) (allowList : List WLRule)

theorem genRules_unresolved : (genRules idb fs allowList false).2 = false := by
  induction fs generalizing allowList with
  | nil => rfl
  | cons f fs ih =>
    rw [genRules]
    cases idb.filters f with
    | none => rfl
    | some r => exact ih _

/-- The rules of a filter in the database. -/
def IntentDB.rules (idb : IntentDB) (f : String) : Option (List WLRule) := (idb.filters f).bind FilterNode.rules

theorem genRules_spec : match rulesOf idb.rules fs with
    | some rs => genRules idb fs allowList true = (allowList ++ rs, true)
    | none => (genRules idb fs allowList true).2 = false := by
  induction fs generalizing allowList with
  | nil => simp [rulesOf, genRules]
  | cons f fs ih =>
    rw [rulesOf, genRules]
    cases hf : idb.filters f with
    | none => simp [IntentDB.rules, hf]
    | some r =>
      cases hr : r.rules with
      | none => simpa [IntentDB.rules, hf, hr] using genRules_unresolved idb fs allowList
      | some rs =>
        have h := ih (allowList ++ rs)
        cases hrest : rulesOf idb.rules fs with
        | none => simpa [IntentDB.rules, hf, hr, hrest] using h
        | some rest => simpa [IntentDB.rules, hf, hr, hrest] using h

end

variable {idb : IntentDB}

/-- The generated contract is the one of the intents, when the filters agree with them. -/
theorem genGbpContract_spec (h : idb.rules = i.rules) (c : ApicContract) :
    (if (genGbpContract idb c).2 then some (genGbpContract idb c).1 else none) = i.resolve c := by
  have hspec := genRules_spec idb c.filters []
  unfold genGbpContract Intents.resolve
  rw [← h]
  cases hrules : rulesOf idb.rules c.filters with
  | none =>
    rw [hrules] at hspec
    simp only [hspec]
    rfl
  | some rs =>
    rw [hrules] at hspec
    simp only [hspec]
    rfl

/-- The contracts to which a filter refers. -/
def IntentDB.refsOf (idb : IntentDB) (f : String) : Finmap fun _ : String => ContractNode :=
  ((idb.filters f).bind FilterNode.refs).getD ∅

/-- Filters and contracts against the intents. -/
structure Linked (idb : IntentDB) (i : Intents) : Prop where
  rules : idb.rules = i.rules
  contract : ∀ n, (idb.contracts.lookup n).bind ContractNode.a = i.contracts n
  node : ∀ n cn, idb.contracts.lookup n = some cn →
    cn.g = none ∧ cn.refs < idb.next ∧ ∀ c ∈ cn.a, c.nodeName = n
  /-- A filter with rules refers to the contracts that name it. -/
  listed : ∀ n c, i.contracts n = some c → ∀ f ∈ c.filters, idb.rules f ≠ none → n ∈ idb.refsOf f
  /-- What a filter refers to is the current node of a contract that names it. -/
  referred : ∀ f n cn, (idb.refsOf f).lookup n = some cn →
    idb.contracts.lookup n = some cn ∧ ∃ c, cn.a = some c ∧ f ∈ c.filters
  unused : ∀ j, idb.next ≤ j → idb.epgRefs j = ∅

/-- What contracts refer to is current, but for one EPG in contracts still to be visited. -/
def Current (idb : IntentDB) (epgs : Map String EPG) (name : String) (pending : List String) : Prop :=
  ∀ n cn, idb.contracts.lookup n = some cn → ∀ k e, (idb.epgRefs cn.refs).lookup k = some e →
    epgs k = some e ∨ k = name ∧ n ∈ pending

/-- The database against the intents. -/
structure DbInv (idb : IntentDB) (i : Intents) : Prop extends Linked idb i where
  /-- What a contract refers to is the current version of an EPG. -/
  current : ∀ n cn, idb.contracts.lookup n = some cn → ∀ k e, (idb.epgRefs cn.refs).lookup k = some e →
    i.epgs k = some e
  epgs : idb.epgs = i.epgs
  epgName : ∀ k e, i.epgs k = some e → e.nodeName = k

/-- The messages tell what the intents have become where they have changed. -/
structure Tells (i i' : Intents) (msgs : List Msg) : Prop where
  contracts : ∀ e ∈ contractLog msgs, e.2 = i'.contract e.1
  contractsSame : ∀ n, ¬ Touches (contractLog msgs) n → i'.contract n = i.contract n
  epgs : ∀ e ∈ epgLog msgs, e.2 = i'.epgs e.1
  epgsSame : ∀ n, ¬ Touches (epgLog msgs) n → i'.epgs n = i.epgs n

theorem Tells.converged {w : World} (h : w.Converged) {msgs : List Msg}
    (htells : Tells w.intents i' msgs) : World.Converged ⟨idb, w.sent ++ msgs, i'⟩ := by
  constructor
  · rw [contractLog_append, replay_append, h.1]
    exact replay_follows htells.contracts htells.contractsSame
  · rw [epgLog_append, replay_append, h.2]
    exact replay_follows htells.epgs htells.epgsSame

/-- No message tells that nothing has changed. -/
theorem Tells.nil (hcontract : ∀ n, i'.contract n = i.contract n) (hepgs : i'.epgs = i.epgs) : Tells i i' [] where
  contracts e h := absurd h not_mem_nil
  contractsSame n _ := hcontract n
  epgs e h := absurd h not_mem_nil
  epgsSame n _ := by rw [hepgs]

section Trickle

variable {orders : TrickleOrders} {add : Bool} {cn : ContractNode}

theorem contract_apic (hg : cn.g = none) (ha : cn.a = some c) : cn.contract idb = some (genGbpContract idb c) := by
  rw [ContractNode.contract, hg, ha]
  rfl

theorem contractLog_addEPGs (es : List EPG) : contractLog (es.map .addEPG) = [] := by
  simp [contractLog, filterMap_map, Msg.contractEntry]

theorem epgLog_addEPGs (es : List EPG) : epgLog (es.map .addEPG) = es.map fun e => (e.nodeName, some e) := by
  rw [epgLog, filterMap_map]
  exact congrFun filterMap_eq_map es

/-- A contract sends what it resolves to, or its end. -/
theorem contractLog_trickle (hrules : idb.rules = i.rules) (hg : cn.g = none) (ha : cn.a = some c) :
    contractLog (trickleContract idb orders add cn) = [(c.nodeName, if add then i.resolve c else none)] := by
  have hgen := genGbpContract_spec hrules c
  have hname : (genGbpContract idb c).1.nodeName = c.nodeName := rfl
  unfold trickleContract
  rw [contract_apic hg ha, ← hgen]
  generalize genGbpContract idb c = r at hname ⊢
  rw [contractLog_cons, contractLog_addEPGs, append_nil]
  cases add <;> cases r.2 <;> simp [Msg.contractEntry, hname]

/-- The EPGs that a contract sends again are those it refers to. -/
theorem mem_epgLog_trickle {entry : String × Option EPG} (h : entry ∈ epgLog (trickleContract idb orders add cn)) :
    ∃ k e, (idb.epgRefs cn.refs).lookup k = some e ∧ entry = (e.nodeName, some e) := by
  unfold trickleContract at h
  cases hc : cn.contract idb with
  | none => simp [hc, epgLog] at h
  | some r =>
    rw [hc] at h
    have hhead : Msg.epgEntry (if (add && r.2) = true then Msg.addContract r.1 else Msg.delContract r.1) = none := by
      split <;> rfl
    rw [epgLog_cons, hhead, Option.toList_none, nil_append, epgLog_addEPGs, mem_map] at h
    obtain ⟨e, he, rfl⟩ := h
    obtain ⟨k, -, hk⟩ := mem_filterMap.mp he
    exact ⟨k, e, hk, rfl⟩

variable {α : Type}

theorem contractLog_flatMap (f : α → List Msg) (xs : List α) :
    contractLog (xs.flatMap f) = xs.flatMap fun x => contractLog (f x) :=
  filterMap_flatMap

theorem epgLog_flatMap (f : α → List Msg) (xs : List α) : epgLog (xs.flatMap f) = xs.flatMap fun x => epgLog (f x) :=
  filterMap_flatMap

/-- The nodes to which a filter trickles. -/
theorem mem_filter_nodes {refs : Finmap fun _ : String => ContractNode} :
    cn ∈ (orders.contracts.visit refs.keys).filterMap refs.lookup ↔ ∃ n, refs.lookup n = some cn := by
  rw [mem_filterMap]
  constructor
  · rintro ⟨n, -, hn⟩
    exact ⟨n, hn⟩
  · rintro ⟨n, hn⟩
    refine ⟨n, ?_, hn⟩
    rw [orders.contracts.mem_visit, Finmap.mem_keys]
    exact mem_of_lookup_eq_some hn

end Trickle

section Filters

variable {orders : TrickleOrders} {name : String} {cn : ContractNode} {n : String}

/-- The contract of a node that a filter refers to. -/
theorem Linked.referredContract (h : Linked idb i) (hn : (idb.refsOf name).lookup n = some cn) :
    ∃ c, cn.a = some c ∧ cn.g = none ∧ name ∈ c.filters ∧ c.nodeName = n ∧ i.contracts n = some c := by
  obtain ⟨hcn, c, ha, hname⟩ := h.referred name n cn hn
  obtain ⟨hg, -, hnode⟩ := h.node n cn hcn
  refine ⟨c, ha, hg, hname, hnode c ha, ?_⟩
  rw [← h.contract n, hcn]
  exact ha

variable {fn : FilterNode}

/-- A filter that changes tells the contracts that name it. -/
theorem tells_filter (h : DbInv idb i) {idb' : IntentDB} (hrules : idb'.rules = i'.rules)
    (hepgRefs : idb'.epgRefs = idb.epgRefs) (hother : ∀ f, f ≠ name → i'.rules f = i.rules f)
    (hcontracts : i'.contracts = i.contracts) (hepgs : i'.epgs = i.epgs)
    (hlisted : i'.rules name ≠ i.rules name → ∀ n c, i.contracts n = some c → name ∈ c.filters →
      n ∈ idb.refsOf name) {add : Bool} (hadd : add = false → i'.rules name = none)
    (hfn : fn.refs.getD ∅ = idb.refsOf name) : Tells i i' (trickleFilter idb' orders add fn) := by
  unfold trickleFilter
  rw [hfn]
  constructor
  · intro entry hentry
    rw [contractLog_flatMap, mem_flatMap] at hentry
    obtain ⟨cn, hcn, hentry⟩ := hentry
    obtain ⟨n, hn⟩ := mem_filter_nodes.mp hcn
    obtain ⟨c, ha, hg, hname, rfl, hc⟩ := h.referredContract hn
    rw [contractLog_trickle hrules hg ha, mem_singleton] at hentry
    subst hentry
    have hspec : i'.contract c.nodeName = i'.resolve c := by
      rw [Intents.contract, hcontracts, hc]
      rfl
    rw [hspec]
    cases add with
    | true => rfl
    | false => simp [Intents.resolve, rulesOf_none hname (hadd rfl)]
  · intro n hn
    rw [Intents.contract, Intents.contract, hcontracts]
    cases hc : i.contracts n with
    | none => rfl
    | some c =>
      refine resolve_congr fun f hf => ?_
      by_cases hname : f = name
      · subst hname
        by_contra hchanged
        -- the contract is reached, against the choice of `n`
        obtain ⟨cn, hcn⟩ := Option.isSome_iff_exists.mp (Finmap.lookup_isSome.mpr (hlisted hchanged n c hc hf))
        obtain ⟨c', ha, hg, -, rfl, -⟩ := h.referredContract hcn
        refine hn ?_
        rw [contractLog_flatMap, Touches, mem_map]
        refine ⟨(c'.nodeName, if add then i'.resolve c' else none), ?_, rfl⟩
        refine mem_flatMap.mpr ⟨cn, mem_filter_nodes.mpr ⟨_, hcn⟩, ?_⟩
        rw [contractLog_trickle hrules hg ha]
        exact mem_singleton_self _
      · exact hother f hname
  · intro entry hentry
    rw [epgLog_flatMap, mem_flatMap] at hentry
    obtain ⟨cn, hcn, hentry⟩ := hentry
    obtain ⟨n, hn⟩ := mem_filter_nodes.mp hcn
    obtain ⟨k, e, he, rfl⟩ := mem_epgLog_trickle hentry
    rw [hepgRefs] at he
    have hcurrent := h.current n cn (h.referred name n cn hn).1 k e he
    rw [hepgs, h.epgName k e hcurrent, hcurrent]
  · intro n _
    rw [hepgs]

/-- A change of filters that adds no reference. -/
theorem DbInv.setFilters (h : DbInv idb i) {filters : Map String FilterNode} {saved : Map String (Option (List WLRule))}
    (hrules : IntentDB.rules { idb with filters := filters } = Intents.rules { i with filters := saved })
    (hlisted : ∀ n c, i.contracts n = some c → ∀ f ∈ c.filters,
      IntentDB.rules { idb with filters := filters } f ≠ none →
      n ∈ IntentDB.refsOf { idb with filters := filters } f)
    (hreferred : ∀ f n cn, (IntentDB.refsOf { idb with filters := filters } f).lookup n = some cn →
      (idb.refsOf f).lookup n = some cn) : DbInv { idb with filters := filters } { i with filters := saved } where
  rules := hrules
  contract := h.contract
  node := h.node
  listed := hlisted
  referred f n cn hn := h.referred f n cn (hreferred f n cn hn)
  unused := h.unused
  current := h.current
  epgs := h.epgs
  epgName := h.epgName

theorem rules_put (i : Intents) (rules : Option (List WLRule)) (f : String) :
    Intents.rules { i with filters := i.filters.put name rules } f = if f = name then rules else i.rules f :=
  bind_put i.filters name rules f id

theorem rules_erase (i : Intents) (f : String) :
    Intents.rules { i with filters := i.filters.erase name } f = if f = name then none else i.rules f :=
  bind_erase i.filters name f id

theorem dbRules_put (fn : FilterNode) (f : String) :
    IntentDB.rules { idb with filters := idb.filters.put name fn } f = if f = name then fn.rules else idb.rules f :=
  bind_put idb.filters name fn f FilterNode.rules

theorem dbRules_erase (f : String) :
    IntentDB.rules { idb with filters := idb.filters.erase name } f = if f = name then none else idb.rules f :=
  bind_erase idb.filters name f FilterNode.rules

/-- A filter node that takes over the references of the current one. -/
theorem refsOf_put (hfn : fn.refs.getD ∅ = idb.refsOf name) (f : String) :
    IntentDB.refsOf { idb with filters := idb.filters.put name fn } f = idb.refsOf f := by
  by_cases hf : f = name
  · subst hf
    simpa [IntentDB.refsOf] using hfn
  · simp [IntentDB.refsOf, put_other _ _ hf]

theorem lookup_refsOf_erase (h : (IntentDB.refsOf { idb with filters := idb.filters.erase name } f).lookup n =
    some cn) :
    f ≠ name ∧ (idb.refsOf f).lookup n = some cn := by
  by_cases hf : f = name
  · subst hf
    simp [IntentDB.refsOf] at h
  · refine ⟨hf, ?_⟩
    simpa [IntentDB.refsOf, erase_other _ hf] using h

/-- A filter that gets rules is referred to by the contracts that name it. -/
def FilterReady (idb : IntentDB) (name : String) (rules : Option (List WLRule)) : Prop :=
  idb.rules name = rules ∨ ∀ n ∈ idb.contracts.keys, ∀ cn ∈ idb.contracts.lookup n, ∀ c ∈ cn.a,
    name ∈ c.filters → n ∈ idb.refsOf name

variable {rules : Option (List WLRule)}

theorem FilterReady.listed (h : Linked idb i) (hready : FilterReady idb name rules)
    (hrules : rules ≠ i.rules name) (hc : i.contracts n = some c) (hname : name ∈ c.filters) : n ∈ idb.refsOf name := by
  rcases hready with hsame | hready
  · rw [h.rules] at hsame
    exact absurd hsame.symm hrules
  · rw [← h.contract n, Option.bind_eq_some_iff] at hc
    obtain ⟨cn, hcn, ha⟩ := hc
    exact hready n (Finmap.mem_keys.mpr (mem_of_lookup_eq_some hcn)) cn hcn c ha hname

/-- A node with new rules that keeps the references. -/
theorem inv_putFilter (h : DbInv idb i) (hready : FilterReady idb name rules)
    (hrules : fn.rules = rules) (hfn : fn.refs.getD ∅ = idb.refsOf name) :
    DbInv { idb with filters := idb.filters.put name fn } { i with filters := i.filters.put name rules } := by
  refine h.setFilters ?_ ?_ ?_
  · funext f
    rw [dbRules_put, rules_put, hrules, h.rules]
  · intro n c hc f hf hne
    rw [refsOf_put hfn]
    rw [dbRules_put] at hne
    by_cases hname : f = name
    · subst hname
      by_cases hchanged : rules = i.rules f
      · rw [if_pos rfl, hrules, hchanged, ← h.rules] at hne
        exact h.listed n c hc f hf hne
      · exact hready.listed h.toLinked hchanged hc hf
    · rw [if_neg hname] at hne
      exact h.listed n c hc f hf hne
  · intro f n cn hn
    rwa [refsOf_put hfn] at hn

theorem saveFilter_spec (h : DbInv idb i) (hready : FilterReady idb name rules) :
    DbInv (saveFilter idb orders name rules).1 (i.call (.saveFilter name rules)) ∧
      Tells i (i.call (.saveFilter name rules)) (saveFilter idb orders name rules).2 := by
  have hput : ∀ fn : FilterNode, fn.rules = rules → fn.refs.getD ∅ = idb.refsOf name →
      DbInv { idb with filters := idb.filters.put name fn } (i.call (.saveFilter name rules)) ∧
        Tells i (i.call (.saveFilter name rules))
          (trickleFilter { idb with filters := idb.filters.put name fn } orders true fn) := by
    intro fn hrules hfn
    have hinv := inv_putFilter h hready hrules hfn
    refine ⟨hinv, tells_filter h hinv.rules rfl (fun f hf => ?_) rfl rfl (fun hchanged n c hc hname => ?_)
      (by simp) hfn⟩
    · exact (rules_put i rules f).trans (if_neg hf)
    · refine hready.listed h.toLinked ?_ hc hname
      rwa [rules_put, if_pos rfl] at hchanged
  unfold saveFilter
  cases hcurr : idb.filters name with
  | none => exact hput ⟨rules, none⟩ rfl (by simp [IntentDB.refsOf, hcurr])
  | some curr =>
    dsimp only
    split
    case isTrue hsame =>
      have hrules : ∀ f, Intents.rules (i.call (.saveFilter name rules)) f = i.rules f := by
        intro f
        rw [Intents.call, rules_put, ← h.rules]
        split
        case isTrue hf => rw [hf, IntentDB.rules, hcurr, ← hsame]; rfl
        case isFalse hf => rfl
      refine ⟨h.setFilters ?_ h.listed fun f n cn hn => hn, Tells.nil (fun n => ?_) rfl⟩
      · rw [h.rules]
        exact (funext hrules).symm
      · exact congrArg (bind _) (funext fun c => resolve_congr fun f _ => hrules f)
    case isFalse hne => exact hput ⟨rules, curr.refs⟩ rfl (by simp [IntentDB.refsOf, hcurr])

theorem deleteFilter_spec (h : DbInv idb i) : DbInv (deleteFilter idb orders name).1 (i.call (.deleteFilter name)) ∧
      Tells i (i.call (.deleteFilter name)) (deleteFilter idb orders name).2 := by
  have hrules : IntentDB.rules { idb with filters := idb.filters.erase name } =
      Intents.rules (i.call (.deleteFilter name)) := by
    funext f
    rw [Intents.call, dbRules_erase, rules_erase, h.rules]
  unfold deleteFilter
  cases hcurr : idb.filters name with
  | none =>
    have hsame : idb.filters.erase name = idb.filters := by
      funext f
      by_cases hf : f = name
      · rw [hf, erase_same, hcurr]
      · rw [erase_other _ hf]
    rw [hsame] at hrules
    refine ⟨h.setFilters hrules h.listed fun f n cn hn => hn, Tells.nil (fun n => ?_) rfl⟩
    refine congrArg (bind _) (funext fun c => resolve_congr fun f _ => ?_)
    rw [← hrules, ← h.rules]
  | some curr =>
    have hfn : curr.refs.getD ∅ = idb.refsOf name := by simp [IntentDB.refsOf, hcurr]
    refine ⟨h.setFilters hrules ?_ fun f n cn hn => (lookup_refsOf_erase hn).2, ?_⟩
    · intro n c hc f hf hne
      rw [dbRules_erase] at hne
      split at hne
      case isTrue => exact absurd rfl hne
      case isFalse hname =>
        simpa [IntentDB.refsOf, erase_other _ hname] using h.listed n c hc f hf hne
    · refine tells_filter h hrules rfl (fun f hf => ?_) rfl rfl (fun hchanged n c hc hname => ?_) (fun _ => ?_) hfn
      · exact (rules_erase i f).trans (if_neg hf)
      · refine h.listed n c hc name hname fun hnone => hchanged ?_
        rw [Intents.call, rules_erase, if_pos rfl, ← h.rules, hnone]
      · exact (rules_erase i name).trans (if_pos rfl)

end Filters

section References

/-- The node of a contract to which a filter refers. -/
def refIn (filters : Map String FilterNode) (f n : String) : Option ContractNode :=
  (filters f).bind fun fn => fn.refs.bind fun refs => refs.lookup n

theorem lookup_refsOf (idb : IntentDB) (f n : String) : (idb.refsOf f).lookup n = refIn idb.filters f n := by
  unfold IntentDB.refsOf refIn
  cases idb.filters f with
  | none => rfl
  | some fn => cases hrefs : fn.refs <;> simp [hrefs]

theorem mem_refsOf {idb : IntentDB} {n : String} : n ∈ idb.refsOf f ↔ (refIn idb.filters f n).isSome := by
  rw [← lookup_refsOf, Finmap.lookup_isSome]

section

variable (filters : Map String FilterNode)

theorem refIn_put (f : String) (fn : FilterNode) (g n : String) :
    refIn (filters.put f fn) g n = if g = f then fn.refs.bind fun refs => refs.lookup n else refIn filters g n :=
  bind_put filters f fn g _

theorem refIn_delFilterRefs (name f n : String) :
    refIn (delFilterRefs filters name) f n = if n = name then none else refIn filters f n := by
  unfold refIn delFilterRefs
  cases filters f with
  | none => simp
  | some fn =>
    cases hrefs : fn.refs with
    | none => simp [hrefs]
    | some refs =>
      by_cases hn : n = name
      · subst hn
        simp [hrefs, lookup_erase]
      · simp [hrefs, lookup_erase_ne hn, hn]

theorem rules_delFilterRefs (name f : String) :
    (delFilterRefs filters name f).bind FilterNode.rules = (filters f).bind FilterNode.rules := by
  unfold delFilterRefs
  cases filters f <;> rfl

end

/-- No filter of a list has the nil map. -/
def Writable (filters : Map String FilterNode) (fs : List String) : Prop := ∀ f ∈ fs, ∀ fn ∈ filters f, fn.refs ≠ none

variable {filters : Map String FilterNode}

theorem Writable.put (h : Writable filters (f :: fs)) (fn : FilterNode) (hfn : fn.refs ≠ none) :
    Writable (filters.put f fn) fs := by
  intro g hg gn hgn
  by_cases hf : g = f
  · rw [hf, put_same, Option.mem_some_iff] at hgn
    exact hgn ▸ hfn
  · rw [put_other _ _ hf] at hgn
    exact h g (mem_cons_of_mem f hg) gn hgn

theorem Writable.delFilterRefs (h : Writable filters fs) (name : String) :
    Writable (delFilterRefs filters name) fs := by
  intro f hf fn hfn
  obtain ⟨fn', hfn', rfl⟩ := Option.map_eq_some_iff.mp hfn
  have hrefs := h f hf fn' hfn'
  simpa using hrefs

/-- The loop refers from every filter of the list to the node, and writes to no nil map. -/
theorem addFilterRefs_spec (name : String) (cn : ContractNode) (fs : List String) (filters : Map String FilterNode)
    (h : Writable filters fs) : ∃ filters', addFilterRefs name cn fs filters = some filters' ∧
      (∀ f, (filters' f).bind FilterNode.rules = (filters f).bind FilterNode.rules) ∧
      ∀ f n, refIn filters' f n = if f ∈ fs ∧ n = name then some cn else refIn filters f n := by
  induction fs generalizing filters with
  | nil => exact ⟨filters, rfl, fun f => rfl, fun f n => by simp⟩
  | cons f fs ih =>
    -- one turn of the loop, for the node it leaves at `f`
    have hturn : ∀ fn : FilterNode, fn.refs ≠ none → fn.rules = (filters f).bind FilterNode.rules →
        (∀ n, (fn.refs.bind fun refs => refs.lookup n) = if n = name then some cn else refIn filters f n) →
        ∃ filters', addFilterRefs name cn fs (filters.put f fn) = some filters' ∧
          (∀ g, (filters' g).bind FilterNode.rules = (filters g).bind FilterNode.rules) ∧
          ∀ g n, refIn filters' g n = if g ∈ f :: fs ∧ n = name then some cn else refIn filters g n := by
      intro fn hne hrules hrefs
      obtain ⟨filters', hrun, hrules', hrefs'⟩ := ih (filters.put f fn) (h.put fn hne)
      refine ⟨filters', hrun, fun g => ?_, fun g n => ?_⟩
      · rw [hrules', bind_put]
        split
        case isTrue hg => rw [hg, hrules]
        case isFalse => rfl
      · rw [hrefs', refIn_put]
        by_cases hg : g = f
        · subst hg
          rw [if_pos rfl, hrefs]
          by_cases hn : n = name <;> simp [hn]
        · simp [hg]
    rw [addFilterRefs]
    cases hf : filters f with
    | none =>
      refine hturn ⟨none, some (Finmap.singleton name cn)⟩ (by simp) (by simp [hf]) fun n => ?_
      by_cases hn : n = name
      · subst hn
        simp
      · simp [hn, refIn, hf, Finmap.lookup_eq_none, Finmap.mem_singleton]
    | some fn =>
      obtain ⟨rules, refs⟩ := fn
      cases refs with
      | none => exact absurd rfl (h f mem_cons_self ⟨rules, none⟩ hf)
      | some refs =>
        refine hturn ⟨rules, some (refs.insert name cn)⟩ (by simp) (by simp [hf]) fun n => ?_
        by_cases hn : n = name
        · subst hn
          simp
        · simp [hn, refIn, hf, lookup_insert_of_ne _ hn]

end References

section Contracts

variable {k : String}

theorem lookup_erase_eq_some {ν : Type} {m : Finmap fun _ : String => ν} {n : String} {v : ν} :
    (m.erase k).lookup n = some v ↔ n ≠ k ∧ m.lookup n = some v := by
  by_cases hn : n = k
  · subst hn
    simp [lookup_erase]
  · simp [lookup_erase_ne hn, hn]

variable {orders : TrickleOrders}

/-- Saving what is there is no change. -/
theorem saveContract_fst (idb : IntentDB) (orders : TrickleOrders) (name : String) (cn : ContractNode) :
    (saveContract idb orders name cn).1 = { idb with contracts := idb.contracts.insert name cn } := by
  unfold saveContract
  split
  case isTrue hsame =>
    have hinsert : idb.contracts.insert name cn = idb.contracts := by
      refine ext_lookup fun n => ?_
      by_cases hn : n = name
      · subst hn
        rw [lookup_insert, hsame]
      · rw [lookup_insert_of_ne _ hn]
    rw [hinsert]
  case isFalse => rfl

theorem deleteContract_fst (idb : IntentDB) (orders : TrickleOrders) (name : String) :
    (deleteContract idb orders name).1 = { idb with contracts := idb.contracts.erase name } := by
  unfold deleteContract
  cases hcurr : idb.contracts.lookup name with
  | none =>
    have herase : idb.contracts.erase name = idb.contracts := by
      refine ext_lookup fun n => ?_
      by_cases hn : n = name
      · subst hn
        rw [lookup_erase, hcurr]
      · rw [lookup_erase_ne hn]
    rw [herase]
  | some curr => rfl

variable {e : EPG}

/-- A node that takes over the map of the current one refers to EPGs as they are. -/
theorem DbInv.refsFor_current (h : DbInv idb i) {name : String}
    (he : (idb.epgRefs (refsFor idb name)).lookup k = some e) : i.epgs k = some e := by
  unfold refsFor at he
  cases hcurr : idb.contracts.lookup name with
  | none => simp [hcurr, h.unused idb.next le_rfl] at he
  | some curr => exact h.current name curr hcurr k e (by simpa [hcurr] using he)

theorem DbInv.refsFor_lt (h : DbInv idb i) (name : String) : refsFor idb name < idb.next + 1 := by
  unfold refsFor
  cases hcurr : idb.contracts.lookup name with
  | none => simp
  | some curr =>
    have hlt := (h.node name curr hcurr).2.1
    simp only [map_some, Option.getD_some]
    omega

/-- The references to a contract that is saved. -/
theorem inv_saveApic (h : DbInv idb i) (c : ApicContract) {filters : Map String FilterNode}
    (hrules : ∀ f, (filters f).bind FilterNode.rules = (idb.filters f).bind FilterNode.rules)
    (hrefs : ∀ f n, refIn filters f n = if n = c.nodeName
      then (if f ∈ c.filters then some ⟨some c, none, refsFor idb c.nodeName⟩ else none) else refIn idb.filters f n) :
    DbInv { idb with
      filters := filters
      next := idb.next + 1
      contracts := idb.contracts.insert c.nodeName ⟨some c, none, refsFor idb c.nodeName⟩ }
      (i.call (.saveApicContract c)) where
  rules := (funext hrules).trans h.rules
  contract n := by
    by_cases hn : n = c.nodeName
    · subst hn
      simp [Intents.call]
    · simpa [Intents.call, lookup_insert_of_ne _ hn, put_other _ _ hn] using h.contract n
  node n cn hcn := by
    by_cases hn : n = c.nodeName
    · subst hn
      rw [lookup_insert, some_inj] at hcn
      subst hcn
      exact ⟨rfl, h.refsFor_lt _, fun c' hc' => Option.some_inj.mp hc' ▸ rfl⟩
    · rw [lookup_insert_of_ne _ hn] at hcn
      obtain ⟨hg, hlt, hname⟩ := h.node n cn hcn
      exact ⟨hg, hlt.trans (Nat.lt_succ_self _), hname⟩
  listed n c' hc' f hf hne := by
    rw [mem_refsOf]
    rw [hrefs]
    by_cases hn : n = c.nodeName
    · subst hn
      simp only [Intents.call, put_same, some_inj] at hc'
      subst hc'
      simp [hf]
    · simp only [Intents.call, put_other _ _ hn] at hc'
      rw [if_neg hn, ← mem_refsOf]
      exact h.listed n c' hc' f hf fun hnone => hne ((hrules f).trans hnone)
  referred f n cn hn := by
    rw [lookup_refsOf] at hn
    rw [hrefs] at hn
    by_cases hname : n = c.nodeName
    · subst hname
      rw [if_pos rfl] at hn
      split at hn
      case isTrue hf =>
        rw [some_inj] at hn
        subst hn
        exact ⟨lookup_insert _, c, rfl, hf⟩
      case isFalse => nomatch hn
    · rw [if_neg hname, ← lookup_refsOf] at hn
      exact ⟨(lookup_insert_of_ne _ hname).trans (h.referred f n cn hn).1, (h.referred f n cn hn).2⟩
  unused j hj := h.unused j (Nat.le_of_succ_le hj)
  current n cn hcn k e he := by
    by_cases hn : n = c.nodeName
    · subst hn
      rw [lookup_insert, some_inj] at hcn
      subst hcn
      exact h.refsFor_current he
    · rw [lookup_insert_of_ne _ hn] at hcn
      exact h.current n cn hcn k e he
  epgs := h.epgs
  epgName := h.epgName

theorem Intents.contract_saveApic (i : Intents) (c : ApicContract) (n : String) :
    (i.call (.saveApicContract c)).contract n = if n = c.nodeName then i.resolve c else i.contract n :=
  bind_put i.contracts c.nodeName c n i.resolve

theorem Intents.contract_deleteApic (i : Intents) (c : ApicContract) (n : String) :
    (i.call (.deleteApicContract c)).contract n = if n = c.nodeName then none else i.contract n :=
  bind_erase i.contracts c.nodeName n i.resolve

/-- A node that sends itself tells of its contract only. -/
theorem tells_contract (i i' : Intents) {idb' : IntentDB} {add : Bool}
    (hrules : idb'.rules = i.rules) (hepgs : i'.epgs = i.epgs) {cn : ContractNode}
    (hg : cn.g = none) (ha : cn.a = some c) (hcontract : ∀ n, i'.contract n =
      if n = c.nodeName then (if add then i.resolve c else none) else i.contract n)
    (hcurrent : ∀ k e, (idb'.epgRefs cn.refs).lookup k = some e → i.epgs e.nodeName = some e) :
    Tells i i' (trickleContract idb' orders add cn) where
  contracts entry hentry := by
    rw [contractLog_trickle hrules hg ha, mem_singleton] at hentry
    subst hentry
    rw [hcontract, if_pos rfl]
  contractsSame n hn := by
    rw [hcontract, if_neg]
    rintro rfl
    refine hn ?_
    rw [contractLog_trickle hrules hg ha]
    exact mem_singleton_self _
  epgs entry hentry := by
    obtain ⟨k, e, he, rfl⟩ := mem_epgLog_trickle hentry
    rw [hepgs]
    exact (hcurrent k e he).symm
  epgsSame n _ := by rw [hepgs]

variable (h : DbInv idb i)
include h

/-- What a node refers to, under the name by which it is sent. -/
theorem DbInv.byName (he : i.epgs k = some e) : i.epgs e.nodeName = some e := by
  rw [h.epgName k e he, he]

theorem saveApicContract_spec (hwrite : Writable idb.filters c.filters) :
    ∃ r, saveApicContract idb orders c = some r ∧ DbInv r.1 (i.call (.saveApicContract c)) ∧
      Tells i (i.call (.saveApicContract c)) r.2 := by
  obtain ⟨filters, hrun, hrules, hrefs⟩ := addFilterRefs_spec c.nodeName ⟨some c, none, refsFor idb c.nodeName⟩
    c.filters _ (hwrite.delFilterRefs c.nodeName)
  have hinv := inv_saveApic h c (fun f => (hrules f).trans (rules_delFilterRefs _ _ f)) fun f n => by
    rw [hrefs, refIn_delFilterRefs]
    by_cases hn : n = c.nodeName <;> simp [hn]
  refine ⟨_, by rw [saveApicContract, hrun]; rfl, ?_, ?_⟩
  · rw [saveContract_fst]
    exact hinv
  · dsimp only
    by_cases hsame : idb.contracts.lookup c.nodeName = some ⟨some c, none, refsFor idb c.nodeName⟩
    · rw [saveContract, if_pos hsame]
      refine Tells.nil (fun n => ?_) rfl
      rw [Intents.contract_saveApic]
      split
      case isTrue hn =>
        rw [hn, Intents.contract, ← h.contract, hsame]
        rfl
      case isFalse => rfl
    · rw [saveContract, if_neg hsame]
      dsimp only
      refine tells_contract i (i.call (.saveApicContract c)) hinv.rules rfl rfl rfl (fun n => ?_) fun k e he => ?_
      · rw [Intents.contract_saveApic]
        rfl
      · exact h.byName (h.refsFor_current he)

/-- The references to a contract that is deleted. -/
theorem inv_deleteApic (c : ApicContract) : DbInv { idb with
      filters := delFilterRefs idb.filters c.nodeName
      next := idb.next + 1
      contracts := idb.contracts.erase c.nodeName } (i.call (.deleteApicContract c)) where
  rules := (funext (rules_delFilterRefs _ _)).trans h.rules
  contract n := by
    by_cases hn : n = c.nodeName
    · subst hn
      simp [Intents.call, lookup_erase]
    · simpa [Intents.call, lookup_erase_ne hn, erase_other _ hn] using h.contract n
  node n cn hcn := by
    obtain ⟨-, hcn⟩ := lookup_erase_eq_some.mp hcn
    obtain ⟨hg, hlt, hname⟩ := h.node n cn hcn
    exact ⟨hg, hlt.trans (Nat.lt_succ_self _), hname⟩
  listed n c' hc' f hf hne := by
    have hn : n ≠ c.nodeName := by
      rintro rfl
      simp [Intents.call] at hc'
    simp only [Intents.call, erase_other _ hn] at hc'
    rw [mem_refsOf]
    rw [refIn_delFilterRefs, if_neg hn, ← mem_refsOf]
    exact h.listed n c' hc' f hf fun hnone => hne ((rules_delFilterRefs _ _ f).trans hnone)
  referred f n cn hn := by
    rw [lookup_refsOf] at hn
    rw [refIn_delFilterRefs] at hn
    split at hn
    case isTrue => nomatch hn
    case isFalse hname =>
      rw [← lookup_refsOf] at hn
      exact ⟨lookup_erase_eq_some.mpr ⟨hname, (h.referred f n cn hn).1⟩, (h.referred f n cn hn).2⟩
  unused j hj := h.unused j (Nat.le_of_succ_le hj)
  current n cn hcn := h.current n cn (lookup_erase_eq_some.mp hcn).2
  epgs := h.epgs
  epgName := h.epgName

theorem deleteApicContract_spec : DbInv (deleteApicContract idb orders c).1 (i.call (.deleteApicContract c)) ∧
      Tells i (i.call (.deleteApicContract c)) (deleteApicContract idb orders c).2 := by
  have hinv := inv_deleteApic h c
  unfold deleteApicContract
  refine ⟨?_, ?_⟩
  · rw [deleteContract_fst]
    exact hinv
  · have hgone : i.contracts c.nodeName = none → ∀ n, (i.call (.deleteApicContract c)).contract n = i.contract n := by
      intro hnone n
      rw [Intents.contract_deleteApic]
      split
      case isTrue hn => rw [hn, Intents.contract, hnone]; rfl
      case isFalse => rfl
    have hcontract := h.contract c.nodeName
    unfold deleteContract
    cases hcurr : idb.contracts.lookup c.nodeName with
    | none =>
      rw [hcurr] at hcontract
      exact Tells.nil (hgone hcontract.symm) rfl
    | some curr =>
      rw [hcurr] at hcontract
      obtain ⟨hg, -, hname⟩ := h.node c.nodeName curr hcurr
      cases ha : curr.a with
      | none =>
        -- only EPGs have named the contract
        have hnone : curr.contract { idb with
            filters := delFilterRefs idb.filters c.nodeName
            next := idb.next + 1
            contracts := idb.contracts.erase c.nodeName } = none := by
          rw [ContractNode.contract, hg, ha]
          rfl
        dsimp only
        rw [trickleContract, hnone]
        exact Tells.nil (hgone (by rw [← hcontract]; exact ha)) rfl
      | some c' =>
        have hc' := hname c' ha
        refine tells_contract i (i.call (.deleteApicContract c)) hinv.rules rfl hg ha (fun n => ?_)
          fun k e he => h.byName (h.current c.nodeName curr hcurr k e he)
        rw [Intents.contract_deleteApic, hc']
        rfl

omit h

end Contracts

section EPGs

theorem addEpgRef_epgs (e : EPG) (idb : IntentDB) (c : String) : (addEpgRef e idb c).epgs = idb.epgs := by
  unfold addEpgRef
  split <;> rfl

theorem Linked.addEpgRef (h : Linked idb i) (e : EPG) (c : String) : Linked (addEpgRef e idb c) i := by
  unfold IntentDb.addEpgRef
  cases hc : idb.contracts.lookup c with
  | some cnode =>
    have hlt := (h.node c cnode hc).2.1
    refine ⟨h.rules, h.contract, h.node, h.listed, h.referred, fun j hj => ?_⟩
    have hne : j ≠ cnode.refs := fun heq => absurd hlt (by simpa [heq] using hj)
    exact (Function.update_of_ne hne _ _).trans (h.unused j hj)
  | none =>
    refine ⟨h.rules, fun n => ?_, fun n cn hcn => ?_, h.listed, fun f n cn hn => ?_, fun j hj => ?_⟩
    · by_cases hn : n = c
      · subst hn
        simpa [hc] using h.contract n
      · simpa [lookup_insert_of_ne _ hn] using h.contract n
    · by_cases hn : n = c
      · subst hn
        rw [lookup_insert, some_inj] at hcn
        subst hcn
        simp
      · rw [lookup_insert_of_ne _ hn] at hcn
        obtain ⟨hg, hlt, hname⟩ := h.node n cn hcn
        exact ⟨hg, hlt.trans (Nat.lt_succ_self _), hname⟩
    · obtain ⟨hcn, ha⟩ := h.referred f n cn hn
      refine ⟨(lookup_insert_of_ne _ ?_).trans hcn, ha⟩
      rintro rfl
      rw [hc] at hcn
      nomatch hcn
    · have hne : j ≠ idb.next := Nat.ne_of_gt hj
      exact (Function.update_of_ne hne _ _).trans (h.unused j (Nat.le_of_succ_le hj))

variable {epgs : Map String EPG} {cs : List String} {e : EPG}

/-- One turn of the loop makes one contract refer to the new version. -/
theorem Current.addEpgRef {c : String} (h : Linked idb i)
    (hcur : Current idb epgs e.nodeName (c :: cs)) (he : epgs e.nodeName = some e) :
    Current (addEpgRef e idb c) epgs e.nodeName cs := by
  unfold IntentDb.addEpgRef
  cases hc : idb.contracts.lookup c with
  | some cnode =>
    intro n cn hcn k e' hk
    by_cases hrefs : cn.refs = cnode.refs
    · dsimp only at hk
      rw [hrefs, Function.update_self] at hk
      by_cases hname : k = e.nodeName
      · subst hname
        rw [lookup_insert, some_inj] at hk
        exact .inl (hk ▸ he)
      · rw [lookup_insert_of_ne _ hname, ← hrefs] at hk
        exact (hcur n cn hcn k e' hk).imp_right fun hpending => absurd hpending.1 hname
    · simp only [Function.update_of_ne hrefs] at hk
      refine (hcur n cn hcn k e' hk).imp_right fun ⟨hname, hn⟩ => ⟨hname, ?_⟩
      refine (mem_cons.mp hn).resolve_left ?_
      rintro rfl
      rw [hc, some_inj] at hcn
      exact hrefs (hcn ▸ rfl)
  | none =>
    intro n cn hcn k e' hk
    by_cases hn : n = c
    · subst hn
      rw [lookup_insert, some_inj] at hcn
      subst hcn
      simp only [Function.update_self] at hk
      have hname : k = e.nodeName := by simpa [Finmap.mem_singleton] using mem_of_lookup_eq_some hk
      subst hname
      rw [Finmap.lookup_singleton_eq, some_inj] at hk
      exact .inl (hk ▸ he)
    · simp only [lookup_insert_of_ne _ hn] at hcn
      have hne : cn.refs ≠ idb.next := Nat.ne_of_lt (h.node n cn hcn).2.1
      simp only [Function.update_of_ne hne] at hk
      exact (hcur n cn hcn k e' hk).imp_right fun ⟨hname, hmem⟩ =>
        ⟨hname, (mem_cons.mp hmem).resolve_left hn⟩

theorem foldl_addEpgRef (he : epgs e.nodeName = some e) (h : Linked idb i)
    (hcur : Current idb epgs e.nodeName cs) : Linked (cs.foldl (IntentDb.addEpgRef e) idb) i ∧
      Current (cs.foldl (IntentDb.addEpgRef e) idb) epgs e.nodeName [] ∧
      (cs.foldl (IntentDb.addEpgRef e) idb).epgs = idb.epgs := by
  induction cs generalizing idb with
  | nil => exact ⟨h, hcur, rfl⟩
  | cons c cs ih =>
    obtain ⟨hlinked, hcurrent, hepgs⟩ := ih (h.addEpgRef e c) (hcur.addEpgRef h he)
    exact ⟨hlinked, hcurrent, hepgs.trans (addEpgRef_epgs e idb c)⟩

/-- The contracts that refer to an EPG are still among its contracts. -/
def EpgReady (idb : IntentDB) (e : EPG) : Prop :=
  idb.epgs e.nodeName = some e ∨ ∀ n ∈ idb.contracts.keys, ∀ cn ∈ idb.contracts.lookup n,
    e.nodeName ∈ idb.epgRefs cn.refs → n ∈ e.consContracts ++ e.provContracts

variable {k : String}

/-- A message about an EPG. -/
theorem tells_epg {m : Msg} {o : Option EPG} (hcontract : m.contractEntry = none)
    (hentry : m.epgEntry = some (k, o)) (hk : epgs k = o) (hother : ∀ n, n ≠ k → epgs n = i.epgs n) :
    Tells i { i with epgs := epgs } [m] where
  contracts entry h := by simp [contractLog, hcontract] at h
  contractsSame n _ := rfl
  epgs entry h := by
    simp only [epgLog, filterMap_cons, hentry, filterMap_nil, mem_singleton] at h
    subst h
    exact hk.symm
  epgsSame n hn := by
    refine hother n ?_
    rintro rfl
    exact hn (by simp [epgLog, hentry, Touches])

theorem saveEPG_spec (h : DbInv idb i) (hready : EpgReady idb e) :
    DbInv (saveEPG idb e).1 (i.call (.saveEPG e)) ∧ Tells i (i.call (.saveEPG e)) (saveEPG idb e).2 := by
  by_cases hsame : idb.epgs e.nodeName = some e
  · have hput : i.call (.saveEPG e) = i := by
      rw [Intents.call, put_of_eq (h.epgs ▸ hsame)]
    rw [saveEPG, if_pos hsame, hput]
    exact ⟨h, Tells.nil (fun n => rfl) rfl⟩
  · rw [saveEPG, if_neg hsame]
    have hnode : (i.epgs.put e.nodeName e) e.nodeName = some e := put_same _ _ _
    have hlinked : Linked { idb with epgs := idb.epgs.put e.nodeName e } (i.call (.saveEPG e)) :=
      ⟨h.rules, h.contract, h.node, h.listed, h.referred, h.unused⟩
    have hcur : Current { idb with epgs := idb.epgs.put e.nodeName e } (i.epgs.put e.nodeName e) e.nodeName
        (e.consContracts ++ e.provContracts) := by
      intro n cn hcn k e' hk
      by_cases hname : k = e.nodeName
      · subst hname
        refine .inr ⟨rfl, hready.resolve_left hsame n ?_ cn hcn (mem_of_lookup_eq_some hk)⟩
        exact Finmap.mem_keys.mpr (mem_of_lookup_eq_some hcn)
      · rw [put_other _ _ hname]
        exact .inl (h.current n cn hcn k e' hk)
    obtain ⟨hlinked', hcur', hepgs'⟩ := foldl_addEpgRef hnode hlinked hcur
    refine ⟨⟨hlinked', fun n cn hcn k e' hk => ?_, ?_, fun k e' hk => ?_⟩, ?_⟩
    · exact (hcur' n cn hcn k e' hk).resolve_right fun hpending => not_mem_nil hpending.2
    · rw [hepgs', h.epgs]
      rfl
    · by_cases hname : k = e.nodeName
      · subst hname
        exact congrArg EPG.nodeName (Option.some_inj.mp (hk.symm.trans hnode))
      · exact h.epgName k e' ((put_other _ _ hname).symm.trans hk)
    · exact tells_epg rfl rfl hnode fun n hn => put_other _ _ hn

theorem deleteEPG_spec (h : DbInv idb i) :
    DbInv (deleteEPG idb e).1 (i.call (.deleteEPG e)) ∧ Tells i (i.call (.deleteEPG e)) (deleteEPG idb e).2 := by
  unfold deleteEPG
  cases hcurr : idb.epgs e.nodeName with
  | none =>
    have herase : i.call (.deleteEPG e) = i := by
      rw [Intents.call, erase_of_eq (h.epgs ▸ hcurr)]
    rw [herase]
    exact ⟨h, Tells.nil (fun n => rfl) rfl⟩
  | some curr =>
    have hname : curr.nodeName = e.nodeName := h.epgName _ curr (h.epgs ▸ hcurr)
    refine ⟨⟨⟨h.rules, h.contract, h.node, h.listed, h.referred, fun j hj => ?_⟩, ?_, ?_, fun k e' hk => ?_⟩, ?_⟩
    · have hempty := h.unused j hj
      dsimp only
      split
      case isTrue =>
        refine ext_lookup fun k => ?_
        rw [hempty, Finmap.lookup_empty, Finmap.lookup_eq_none, Finmap.mem_erase]
        exact fun hk => Finmap.notMem_empty hk.2
      case isFalse => exact hempty
    · intro n cn hcn k e' hk
      have hlive : idb.Live cn.refs := by
        refine ⟨n, Finmap.mem_keys.mpr (mem_of_lookup_eq_some hcn), ?_⟩
        rw [show idb.contracts.lookup n = some cn from hcn]
        rfl
      simp only [if_pos hlive] at hk
      obtain ⟨hne, hk⟩ := lookup_erase_eq_some.mp hk
      exact (erase_other _ hne).trans (h.current n cn hcn k e' hk)
    · rw [h.epgs]
      rfl
    · by_cases hk' : k = e.nodeName
      · subst hk'
        simp [Intents.call] at hk
      · exact h.epgName k e' ((erase_other _ hk').symm.trans hk)
    · refine tells_epg (k := e.nodeName) rfl ?_ (erase_same _ _) fun n hn => erase_other _ hn
      rw [Msg.epgEntry, hname]

end EPGs

/-- The calls of the APIC watcher, where the references are there and are not stale. -/
def Allowed (idb : IntentDB) : Call → Prop
  | .saveFilter name rules => FilterReady idb name rules
  | .saveApicContract c => Writable idb.filters c.filters
  | .saveEPG e => EpgReady idb e
  | .deleteFilter _ | .deleteApicContract _ | .deleteEPG _ => True
  | .saveGbpContract _ | .deleteGbpContract _ => False

theorem inv_start : DbInv start.idb start.intents where
  rules := rfl
  contract n := rfl
  node n cn h := by simp [start, newIntentDB] at h
  listed n c h := by simp [start] at h
  referred f n cn h := by simp [start, newIntentDB, IntentDB.refsOf] at h
  unused j _ := rfl
  current n cn h := by simp [start, newIntentDB] at h
  epgs := rfl
  epgName k e h := by simp [start] at h

theorem converged_start : start.Converged := ⟨rfl, rfl⟩

theorem call_spec (h : DbInv idb i) (orders : TrickleOrders) {call : Call} (hok : Allowed idb call) :
    ∃ r, idb.call orders call = some r ∧ DbInv r.1 (i.call call) ∧ Tells i (i.call call) r.2 := by
  cases call with
  | saveFilter name rules => exact ⟨_, rfl, saveFilter_spec h hok⟩
  | deleteFilter name => exact ⟨_, rfl, deleteFilter_spec h⟩
  | saveApicContract c => exact saveApicContract_spec h hok
  | deleteApicContract c => exact ⟨_, rfl, deleteApicContract_spec h⟩
  | saveGbpContract c => exact hok.elim
  | deleteGbpContract c => exact hok.elim
  | saveEPG e => exact ⟨_, rfl, saveEPG_spec h hok⟩
  | deleteEPG e => exact ⟨_, rfl, deleteEPG_spec h⟩

instance (idb : IntentDB) (name : String) (rules : Option (List WLRule)) : Decidable (FilterReady idb name rules) :=
  inferInstanceAs (Decidable (idb.rules name = rules ∨ ∀ n ∈ idb.contracts.keys, ∀ cn ∈ idb.contracts.lookup n,
    ∀ c ∈ cn.a, name ∈ c.filters → n ∈ idb.refsOf name))

instance (filters : Map String FilterNode) (fs : List String) : Decidable (Writable filters fs) :=
  inferInstanceAs (Decidable (∀ f ∈ fs, ∀ fn ∈ filters f, ¬ fn.refs = none))

instance (idb : IntentDB) (e : EPG) : Decidable (EpgReady idb e) :=
  inferInstanceAs (Decidable (idb.epgs e.nodeName = some e ∨ ∀ n ∈ idb.contracts.keys,
    ∀ cn ∈ idb.contracts.lookup n, e.nodeName ∈ idb.epgRefs cn.refs → n ∈ e.consContracts ++ e.provContracts))

instance (idb : IntentDB) (call : Call) : Decidable (Allowed idb call) :=
  match call with
  | .saveFilter name rules => inferInstanceAs (Decidable (FilterReady idb name rules))
  | .saveApicContract c => inferInstanceAs (Decidable (Writable idb.filters c.filters))
  | .saveEPG e => inferInstanceAs (Decidable (EpgReady idb e))
  | .deleteFilter _ | .deleteApicContract _ | .deleteEPG _ => .isTrue trivial
  | .saveGbpContract _ | .deleteGbpContract _ => .isFalse id

/-- In every run whose calls are allowed, no nil map is written and the server has been told
exactly the intents. -/
theorem intents_converge (events : List Event)
    (h : Along step (fun s e => ∀ w ∈ s, Allowed w.idb e.2) (some start) events) :
    ∃ w, run step (some start) events = some w ∧ w.Converged := by
  have hrun : ∃ w, run step (some start) events = some w ∧ DbInv w.idb w.intents ∧ w.Converged := by
    refine @invariant_run _ _ step _ (fun s => ∃ w, s = some w ∧ DbInv w.idb w.intents ∧ w.Converged) ?_
      (some start) events ⟨start, rfl, inv_start, converged_start⟩ h
    rintro _ ⟨orders, call⟩ ⟨w, rfl, hinv, hconverged⟩ hok
    obtain ⟨r, hr, hinv', htells⟩ := call_spec hinv orders (hok w rfl)
    refine ⟨⟨r.1, w.sent ++ r.2, w.intents.call call⟩, ?_, hinv', htells.converged hconverged⟩
    rw [step, Option.bind_some, hr, map_some]
  obtain ⟨w, hw, -, hconverged⟩ := hrun
  exact ⟨w, hw, hconverged⟩

def sortedOrders : TrickleOrders := ⟨.sorted, fun _ => .sorted⟩

def events (calls : List Call) : List Event := calls.map fun call => (sortedOrders, call)

def tcp (port : Int) : List WLRule := [⟨"tcp", ⟨port, port⟩⟩]

def webContract : ApicContract := ⟨"shop", "web", ["http"]⟩

def frontEPG (consContracts : List String) : EPG := ⟨"shop", "front", consContracts, [], ""⟩

/-- An EPG that names a contract, then the contract, then its filter, which changes and goes. -/
def forwardCalls : List Call :=
  [.saveEPG (frontEPG ["shop/web"]), .saveApicContract webContract, .saveFilter "http" (some (tcp 80)),
    .saveFilter "http" (some (tcp 8080)), .deleteFilter "http", .deleteEPG (frontEPG []), .saveEPG (frontEPG [])]

theorem intents_converge_forward :
    Along step (fun s e => ∀ w ∈ s, Allowed w.idb e.2) (some start) (events forwardCalls) ∧
      ∃ w, run step (some start) (events forwardCalls) = some w ∧ w.Converged :=
  ⟨by decide +kernel, intents_converge (events forwardCalls) (by decide +kernel)⟩

/-- A filter that is saved before its contract. -/
def filterFirst : List Call := [.saveFilter "http" (some (tcp 80)), .saveApicContract webContract]

/-- A filter that is deleted and saved again. -/
def filterAgain : List Call :=
  [.saveApicContract webContract, .saveFilter "http" (some (tcp 80)), .deleteFilter "http",
    .saveFilter "http" (some (tcp 80))]

/-- An EPG that gives up a contract, which then changes. -/
def contractGivenUp : List Call :=
  [.saveApicContract webContract, .saveEPG (frontEPG ["shop/web"]), .saveEPG (frontEPG []),
    .saveApicContract ⟨"shop", "web", []⟩]

theorem intents_converge_fails : (¬ ∃ w, run step (some start) (events filterFirst) = some w ∧ w.Converged) ∧
    (¬ ∃ w, run step (some start) (events filterAgain) = some w ∧ w.Converged) ∧
    ¬ ∃ w, run step (some start) (events contractGivenUp) = some w ∧ w.Converged := by
  have hfirst : (run step (some start) (events filterFirst)).isNone := by decide +kernel
  have hagain : (run step (some start) (events filterAgain)).map (fun w =>
      (replay Map.empty (contractLog w.sent) "shop/web", w.intents.contract "shop/web")) =
        some (none, some ⟨"web", "shop", tcp 80⟩) := by decide +kernel
  have hgivenUp : (run step (some start) (events contractGivenUp)).map (fun w =>
      (replay Map.empty (epgLog w.sent) "shop/front", w.intents.epgs "shop/front")) =
        some (some (frontEPG ["shop/web"]), some (frontEPG [])) := by decide +kernel
  refine ⟨?_, ?_, ?_⟩
  · rintro ⟨w, hw, -⟩
    simp [hw] at hfirst
  · rintro ⟨w, hw, hcontracts, -⟩
    rw [hw, map_some, some_inj, Prod.mk.injEq, hcontracts] at hagain
    simp [hagain.1] at hagain
  · rintro ⟨w, hw, -, hepgs⟩
    rw [hw, map_some, some_inj, Prod.mk.injEq, hepgs] at hgivenUp
    simp [hgivenUp.1, frontEPG] at hgivenUp

/-- For each filter that has a node, whether its map is nil. -/
def nils (filters : Map String FilterNode) : Map String Bool := fun f =>
  (filters f).bind fun fn => some fn.refs.isNone

/-- For each filter that has a node, whether `saveFilter` created it. -/
def Call.origins (o : Map String Bool) : Call → Map String Bool
  | .saveFilter name _ => o.put name ((o name).getD true)
  | .deleteFilter name => o.erase name
  | .saveApicContract c => fun f => if f ∈ c.filters then some false else o f
  | _ => o

/-- `saveFilter` created the node of no filter that the contract names. -/
def Call.Writable (o : Map String Bool) : Call → Prop
  | .saveApicContract c => ∀ f ∈ c.filters, o f ≠ some true
  | _ => True

variable {filters : Map String FilterNode}

theorem nils_put (f : String) (fn : FilterNode) : nils (filters.put f fn) = (nils filters).put f fn.refs.isNone :=
  funext fun g => bind_put filters f fn g _

theorem nils_delFilterRefs (name : String) : nils (delFilterRefs filters name) = nils filters := by
  funext f
  cases h : filters f <;> simp [nils, delFilterRefs, h]

/-- Whether the loop succeeds, and the nil maps that it leaves. -/
theorem addFilterRefs_nils (name : String) (cn : ContractNode) (fs : List String) (filters : Map String FilterNode) :
    (∀ f ∈ fs, nils filters f ≠ some true) ∧ (∃ filters', addFilterRefs name cn fs filters = some filters' ∧
      ∀ f, nils filters' f = if f ∈ fs then some false else nils filters f) ∨
    ¬ (∀ f ∈ fs, nils filters f ≠ some true) ∧ addFilterRefs name cn fs filters = none := by
  induction fs generalizing filters with
  | nil => simp [addFilterRefs]
  | cons g fs ih =>
    rw [addFilterRefs]
    cases hg : filters g with
    | none =>
      have hrest := ih (filters.put g ⟨none, some (Finmap.singleton name cn)⟩)
      rw [nils_put] at hrest
      grind [nils, Map.put]
    | some fn =>
      obtain ⟨rules, refs⟩ := fn
      cases refs with
      | none => exact .inr ⟨fun h => h g mem_cons_self (by simp [nils, hg]), rfl⟩
      | some refs =>
        have hrest := ih (filters.put g ⟨rules, some (refs.insert name cn)⟩)
        rw [nils_put] at hrest
        grind [nils, Map.put]

theorem filters_saveEPG (e : EPG) : (saveEPG idb e).1.filters = idb.filters := by
  unfold saveEPG
  split
  · rfl
  · refine foldlRecOn (motive := fun s : IntentDB => s.filters = idb.filters) _ _ rfl fun s hs c _ => ?_
    rw [← hs, addEpgRef]
    split <;> rfl

/-- A call stops at a nil map, or keeps track of the nil maps. -/
theorem call_nils (idb : IntentDB) (orders : TrickleOrders) (call : Call) : call.Writable (nils idb.filters) ∧
      (∃ r, idb.call orders call = some r ∧ nils r.1.filters = call.origins (nils idb.filters)) ∨
    ¬ call.Writable (nils idb.filters) ∧ idb.call orders call = none := by
  cases call with
  | saveFilter name rules =>
    refine .inl ⟨trivial, _, rfl, ?_⟩
    rw [saveFilter, Call.origins]
    cases h : idb.filters name with
    | none =>
      have hnil : nils idb.filters name = none := by rw [nils, h]; rfl
      rw [hnil]
      exact nils_put name _
    | some curr =>
      have hnil : nils idb.filters name = some curr.refs.isNone := by rw [nils, h]; rfl
      rw [hnil]
      dsimp only
      split
      · exact (put_of_eq hnil).symm
      · exact nils_put name _
  | deleteFilter name =>
    refine .inl ⟨trivial, _, rfl, ?_⟩
    rw [deleteFilter, Call.origins]
    cases h : idb.filters name with
    | none => exact (erase_of_eq (by rw [nils, h]; rfl)).symm
    | some curr => exact funext fun f => bind_erase idb.filters name f _
  | saveApicContract c =>
    have hadd := addFilterRefs_nils c.nodeName ⟨some c, none, refsFor idb c.nodeName⟩ c.filters
      (delFilterRefs idb.filters c.nodeName)
    rw [nils_delFilterRefs] at hadd
    obtain ⟨h, filters, hrun, hnils⟩ | ⟨h, hrun⟩ := hadd
    · exact .inl ⟨h, _, by rw [IntentDB.call, saveApicContract, hrun]; rfl,
      by rw [saveContract_fst]; exact funext hnils⟩
    · exact .inr ⟨h, by rw [IntentDB.call, saveApicContract, hrun]; rfl⟩
  | deleteApicContract c =>
    refine .inl ⟨trivial, _, rfl, ?_⟩
    rw [deleteApicContract, deleteContract_fst]
    exact nils_delFilterRefs c.nodeName
  | saveGbpContract c => exact .inl ⟨trivial, _, rfl, by rw [saveGbpContract, saveContract_fst]; rfl⟩
  | deleteGbpContract c => exact .inl ⟨trivial, _, rfl, by rw [deleteGbpContract, deleteContract_fst]; rfl⟩
  | saveEPG e => exact .inl ⟨trivial, _, rfl, congrArg nils (filters_saveEPG e)⟩
  | deleteEPG e =>
    refine .inl ⟨trivial, _, rfl, ?_⟩
    unfold deleteEPG
    split <;> rfl

theorem run_nils (w : World) (events : List Event) : (run step (some w) events).isSome ↔
      Along Call.origins Call.Writable (nils w.idb.filters) (events.map Prod.snd) := by
  induction events generalizing w with
  | nil => simp
  | cons e events ih =>
    rw [run_cons, map_cons, along_cons, step, Option.bind_some]
    obtain ⟨hw, r, hr, hnils⟩ | ⟨hw, hnone⟩ := call_nils w.idb e.1 e.2
    · rw [hr, map_some, ih, hnils, and_iff_right hw]
    · have hstop : run step none events = none := foldl_fixed' (fun _ => rfl) events
      simp [hnone, hstop, hw]

/-- No nil map is written exactly if no contract names a filter whose node `saveFilter` created. -/
theorem refs_written_iff (events : List Event) : (run step (some start) events).isSome ↔
    Along Call.origins Call.Writable Map.empty (events.map Prod.snd) := run_nils start events

theorem refs_nil : run step (some start) (events filterFirst) = none :=
  Option.isNone_iff_eq_none.mp (by decide +kernel)

end AciContainers.IntentDb
