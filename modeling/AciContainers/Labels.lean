import AciContainers.Net

/-!
# Labels and label selectors

The label selectors of the Kubernetes API as `metav1.LabelSelectorAsSelector` reads
them. A missing selector matches nothing, an empty one everything, and any other is
the conjunction of its requirements. A selector that breaks the syntax of keys and
values, or has the wrong number of values for an operator, gives an error.
-/
namespace AciContainers.Labels

abbrev LabelSet := List (String × String)

def has (ls : LabelSet) (key : String) : Bool := (ls.lookup key).isSome

def get (ls : LabelSet) (key : String) : String := (ls.lookup key).getD ""

inductive Operator where
  | equals
  | opIn
  | notIn
  | opExists
  | doesNotExist
  deriving DecidableEq

structure Requirement where
  key : String
  operator : Operator
  strValues : List String
  deriving DecidableEq

def Requirement.matchesLabels (r : Requirement) (ls : LabelSet) : Bool :=
  match r.operator with
  | .opIn | .equals => has ls r.key && r.strValues.contains (get ls r.key)
  | .notIn => !has ls r.key || !r.strValues.contains (get ls r.key)
  | .opExists => has ls r.key
  | .doesNotExist => !has ls r.key

inductive Selector where
  | nothing
  | internal (requirements : List Requirement)
  deriving DecidableEq

def everything : Selector := .internal []

def Selector.matchesLabels : Selector → LabelSet → Bool
  | .nothing, _ => false
  | .internal rs, ls => rs.all fun r => r.matchesLabels ls

@[simp] theorem everything_matchesLabels (ls : LabelSet) : everything.matchesLabels ls = true := rfl

/-- `Add`: the requirements are kept sorted by key. -/
def Selector.add : Selector → List Requirement → Selector
  | .nothing, _ => .nothing
  | .internal rs, more => .internal ((rs ++ more).insertionSort fun a b => a.key ≤ b.key)

def isAlnum (c : Char) : Bool := c.isAlphanum

def isLowerAlnum (c : Char) : Bool := c.isLower || c.isDigit

/-- `[first][middle]*[first]`, a single character of the first class included. -/
def bracketed (first middle : Char → Bool) (cs : List Char) : Bool :=
  cs.all middle && cs.head?.any first && cs.getLast?.any first

def isQualifiedNamePart (cs : List Char) : Bool :=
  cs.length ≤ 63 && bracketed isAlnum (fun c => isAlnum c || ['-', '_', '.'].contains c) cs

def isDNS1123Subdomain (cs : List Char) : Bool :=
  cs.length ≤ 253 &&
    (Net.splitOn '.' cs).all (bracketed isLowerAlnum fun c => isLowerAlnum c || c == '-')

def isQualifiedName (s : String) : Bool :=
  match Net.splitOn '/' s.toList with
  | [name] => isQualifiedNamePart name
  | [pre, name] => isDNS1123Subdomain pre && isQualifiedNamePart name
  | _ => false

def isValidLabelValue (s : String) : Bool := s.toList.isEmpty || isQualifiedNamePart s.toList

def valueCountOk : Operator → List String → Bool
  | .opIn, vals | .notIn, vals => !vals.isEmpty
  | .equals, vals => vals.length == 1
  | .opExists, vals | .doesNotExist, vals => vals.isEmpty

/-- `NewRequirement`; `none` stands for the list of errors. -/
def newRequirement (key : String) (op : Operator) (vals : List String) : Option Requirement :=
  if isQualifiedName key && valueCountOk op vals && vals.all isValidLabelValue then
    some ⟨key, op, vals⟩
  else none

/-- The operator of a match expression, as text in the object. -/
def selectionOperator (operator : String) : Option Operator :=
  if operator = "In" then some .opIn
  else if operator = "NotIn" then some .notIn
  else if operator = "Exists" then some .opExists
  else if operator = "DoesNotExist" then some .doesNotExist
  else none

structure LabelSelectorRequirement where
  key : String
  operator : String
  values : List String
  deriving DecidableEq

structure LabelSelector where
  matchLabels : List (String × String)
  matchExpressions : List LabelSelectorRequirement
  deriving DecidableEq

def expressionRequirement (expr : LabelSelectorRequirement) : Option Requirement :=
  (selectionOperator expr.operator).bind fun op => newRequirement expr.key op expr.values

def labelSelectorAsSelector : Option LabelSelector → Option Selector
  | none => some .nothing
  | some ps =>
    if ps.matchLabels.isEmpty && ps.matchExpressions.isEmpty then some everything
    else do
      let fromLabels ← ps.matchLabels.mapM fun kv => newRequirement kv.1 .equals [kv.2]
      let fromExprs ← ps.matchExpressions.mapM expressionRequirement
      some ((Selector.internal []).add (fromLabels ++ fromExprs))

/-- What the API server accepts as a label selector. -/
def LabelSelector.Valid (ps : LabelSelector) : Prop := (labelSelectorAsSelector (some ps)).isSome

instance (ps : LabelSelector) : Decidable ps.Valid := inferInstanceAs (Decidable (_ = true))

/-- An accepted selector matches the labels. -/
def LabelSelector.matchesLabels (ps : LabelSelector) (ls : LabelSet) : Bool :=
  (labelSelectorAsSelector (some ps)).any fun s => s.matchesLabels ls

theorem LabelSelector.Valid.asSelector {ps : LabelSelector} (h : ps.Valid) :
    ∃ s, labelSelectorAsSelector (some ps) = some s ∧ ∀ ls, s.matchesLabels ls = ps.matchesLabels ls := by
  obtain ⟨s, hs⟩ := Option.isSome_iff_exists.mp h
  refine ⟨s, hs, ?_⟩
  simp [LabelSelector.matchesLabels, hs]

example : (LabelSelector.mk [("app", "a")] [⟨"tier", "NotIn", ["db"]⟩]).matchesLabels
    [("app", "a"), ("tier", "web")] = true := by decide

end AciContainers.Labels
