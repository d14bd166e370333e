import AciContainers.NetworkPolicy

/-!
# Network policies and their names

Network policies with everything that the two agents read of them, the name that
`util.AciNameForKey` makes from a key, and the hash of the contents that
`util.CreateHashFromNetPol` makes. Both take the digest as an argument: the hexadecimal text of
the first half of SHA-256. A nil list is an empty one, as in the API.
-/
namespace AciContainers.Policy

open Labels Index NetPol

/-- `GetNetPolPolicyTypes` for a policy that is in the store. -/
def getNetPolPolicyTypes (np : NetworkPolicy) : List Direction :=
  if np.policyTypes ≠ [] then np.policyTypes
  else if np.egress ≠ [] then [.ingress, .egress]
  else [.ingress]

def aciNameForKey (digest : String → String) (aciPrefix ktype key : String) : String :=
  let name := aciPrefix ++ "_" ++ ktype ++ "_" ++
    String.ofList (key.toList.map fun c => if c = '/' then '_' else c)
  if name.utf8ByteSize < 64 then name
  else if aciPrefix.utf8ByteSize > 31 then digest (aciPrefix ++ "_" ++ ktype ++ "_" ++ key)
  else if aciPrefix.utf8ByteSize + ktype.utf8ByteSize + 1 > 31 then
    aciPrefix ++ "_" ++ digest (ktype ++ "_" ++ key)
  else aciPrefix ++ "_" ++ ktype ++ "_" ++ digest key

/-- `strings.TrimSuffix` of a plus sign. -/
def trimPlus (s : String) : String :=
  match s.toList.reverse with
  | '+' :: cs => String.ofList cs.reverse
  | _ => s

def ipBlockStr (b : IPBlock) : String :=
  b.cidr ++
    (if b.exceptions ≠ [] then "[except" ++ String.join (b.exceptions.map ("-" ++ ·)) ++ "]" else "") ++
    "+"

def peersToStr (peers : List Peer) : String :=
  trimPlus ("[" ++ String.join (peers.map fun p => (p.ipBlock.map ipBlockStr).getD "")) ++ "]"

def portStr (p : Port) : String :=
  p.protocol.getD "" ++ ((p.port.map fun port => ":" ++ port.string).getD "") ++ "+"

def portsToStr (ports : List Port) : String :=
  trimPlus ("[" ++ String.join (ports.map portStr)) ++ "]"

/-- The expressions in the order of their keys. `sort.Slice` sorts up to twelve in this
stable way. -/
def sortByKey (exprs : List LabelSelectorRequirement) : List LabelSelectorRequirement :=
  exprs.insertionSort fun a b => a.key ≤ b.key

def labelSelectorToStr : Option LabelSelector → String
  | none => ""
  | some labelsel =>
    let matchLKeys := (labelsel.matchLabels.map Prod.fst).insertionSort (· ≤ ·)
    "[" ++ String.join (matchLKeys.map fun key => key ++ "_" ++ get labelsel.matchLabels key) ++
      String.join ((sortByKey labelsel.matchExpressions).map fun e =>
        e.key ++ e.operator ++ String.join e.values) ++ "]"

def selectorsToStr (peers : List Peer) (ns : String) : String :=
  String.join (peers.map fun p =>
    let podSel := labelSelectorToStr p.podSelector
    let nsSel := labelSelectorToStr p.namespaceSelector
    podSel ++ if podSel ≠ "" ∧ nsSel = "" then ns else nsSel)

def ruleStr (ns : String) (rule : Rule) : String :=
  selectorsToStr rule.peers ns ++ peersToStr rule.peers ++ portsToStr rule.ports

/-- `ingressStrSorted` and `egressStrSorted`; the empty text for no rules. -/
def rulesStrSorted (ns : String) (rules : List Rule) : String :=
  trimPlus (String.join (((rules.map (ruleStr ns)).insertionSort (· ≤ ·)).map (· ++ "+")))

def policyTypeStr : Direction → String
  | .ingress => "Ingress"
  | .egress => "Egress"

def sortPolicyTypes (policyTypes : List Direction) : List String :=
  (policyTypes.map policyTypeStr).insertionSort (· ≤ ·)

/-- The key of a policy object can always be made, so there is no error. -/
def createHashFromNetPol (digest : String → String) (np : NetworkPolicy) : String :=
  digest (rulesStrSorted np.ns np.ingress ++ rulesStrSorted np.ns np.egress ++
    String.join (sortPolicyTypes np.policyTypes))

def sortSelector (labelsel : LabelSelector) : LabelSelector :=
  { labelsel with matchExpressions := sortByKey labelsel.matchExpressions }

def sortPeer (p : Peer) : Peer :=
  { p with
    podSelector := p.podSelector.map sortSelector
    namespaceSelector := p.namespaceSelector.map sortSelector }

def sortRule (rule : Rule) : Rule := { rule with peers := rule.peers.map sortPeer }

/-- The policy as `CreateHashFromNetPol` leaves it: the expressions are sorted in place. -/
def NetworkPolicy.hashed (np : NetworkPolicy) : NetworkPolicy :=
  { np with ingress := np.ingress.map sortRule, egress := np.egress.map sortRule }

@[simp] theorem hashed_key (np : NetworkPolicy) : np.hashed.key = np.key := rfl

instance : Std.Total fun a b : LabelSelectorRequirement => a.key ≤ b.key :=
  ⟨fun a b => le_total a.key b.key⟩

instance : IsTrans LabelSelectorRequirement fun a b => a.key ≤ b.key :=
  ⟨fun _ _ _ => le_trans⟩

theorem sortByKey_sortByKey (exprs : List LabelSelectorRequirement) : sortByKey (sortByKey exprs) = sortByKey exprs :=
  (List.pairwise_insertionSort _ exprs).insertionSort_eq

theorem labelSelectorToStr_sort (s : Option LabelSelector) :
    labelSelectorToStr (s.map sortSelector) = labelSelectorToStr s := by
  cases s with
  | none => rfl
  | some labelsel => simp [labelSelectorToStr, sortSelector, sortByKey_sortByKey]

theorem ruleStr_sort (ns : String) (rule : Rule) : ruleStr ns (sortRule rule) = ruleStr ns rule := by
  simp [ruleStr, sortRule, selectorsToStr, peersToStr, Function.comp_def, sortPeer, labelSelectorToStr_sort]

theorem rulesStrSorted_sort (ns : String) (rules : List Rule) :
    rulesStrSorted ns (rules.map sortRule) = rulesStrSorted ns rules := by
  simp [rulesStrSorted, Function.comp_def, ruleStr_sort]

/-- Hashing a policy again gives the same hash. -/
@[simp] theorem createHashFromNetPol_hashed (digest : String → String) (np : NetworkPolicy) :
    createHashFromNetPol digest np.hashed = createHashFromNetPol digest np := by
  simp [createHashFromNetPol, NetworkPolicy.hashed, rulesStrSorted_sort]

@[simp] theorem getNetPolPolicyTypes_hashed (np : NetworkPolicy) :
    getNetPolPolicyTypes np.hashed = getNetPolPolicyTypes np := by
  simp [getNetPolPolicyTypes, NetworkPolicy.hashed]

end AciContainers.Policy
