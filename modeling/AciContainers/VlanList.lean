import AciContainers.SnatPorts

/-!
# VLAN lists in the controller

`parseNodeFabNetAttVlanList` of `pkg/controller/nodefabricnetworkattachments.go`. On an error it
still returns the numbers and blocks read so far.
-/
namespace AciContainers.VlanList

open Net Snat

/-- `unicode.IsSpace`. -/
def isSpace (c : Char) : Bool :=
  let n := c.toNat
  (9 ≤ n && n ≤ 13) || n == 32 || n == 0x85 || n == 0xA0 || n == 0x1680 ||
    (0x2000 ≤ n && n ≤ 0x200a) || n == 0x2028 || n == 0x2029 || n == 0x202f || n == 0x205f || n == 0x3000

def trimSpace (cs : List Char) : List Char :=
  ((cs.dropWhile isSpace).reverse.dropWhile isSpace).reverse

/-- `strings.Cut` at one character. -/
def cut (sep : Char) : List Char → Option (List Char × List Char)
  | [] => none
  | c :: cs => if c = sep then some ([], cs) else (cut sep cs).map fun p => (c :: p.1, p.2)

/-- `strconv.Atoi`. -/
def atoiChars (cs : List Char) : Option Int := atoi (String.ofList cs)

inductive VlanListError where
  | mismatchedBrackets (vlan : List Char)
  | rangeUnformed (vlan vlanStr : List Char)
  | vlanIncorrect (vlanStr : List Char)
  deriving DecidableEq

/-- What is returned. -/
structure Parsed where
  vlans : List Int
  vlanBlks : List (List Char)
  err : Option VlanListError
  deriving DecidableEq

/-- The numbers from the first to the second. -/
def expand (vlanFrom vlanTo : Int) : List Int :=
  (List.range (vlanTo - vlanFrom + 1).toNat).map fun i => vlanFrom + i

/-- The numbers of one element. -/
def parseVlanElem (vlan vlanStr : List Char) : Except VlanListError (List Int) :=
  if '-' ∈ vlanStr then
    match splitOn '-' vlanStr with
    | [lo, hi] =>
      match atoiChars lo, atoiChars hi with
      | some vlanFrom, some vlanTo =>
        if vlanFrom > vlanTo ∨ vlanTo > 4095 then .error (.rangeUnformed vlan vlanStr)
        else .ok (expand vlanFrom vlanTo)
      | _, _ => .error (.rangeUnformed vlan vlanStr)
    | _ => .error (.rangeUnformed vlan vlanStr)
  else
    match atoiChars vlanStr with
    | some v => if v > 4095 then .error (.vlanIncorrect vlanStr) else .ok [v]
    | none => .error (.vlanIncorrect vlanStr)

/-- The loop over the elements. -/
def parseVlanElems (vlan : List Char) : List (List Char) → List Int → List (List Char) → Parsed
  | [], vlans, vlanBlks => ⟨vlans, vlanBlks, none⟩
  | elem :: elems, vlans, vlanBlks =>
    let vlanStr := trimSpace elem
    match parseVlanElem vlan vlanStr with
    | .error err => ⟨vlans, vlanBlks, some err⟩
    | .ok vs => parseVlanElems vlan elems (vlans ++ vs) (vlanBlks ++ [vlanStr])

def parseNodeFabNetAttVlanList (text : String) : Parsed :=
  let vlan := text.toList
  match cut '[' vlan with
  | none => parseVlanElems vlan (splitOn ',' vlan) [] []
  | some (_, after) =>
    match cut ']' after with
    | none => ⟨[], [], some (.mismatchedBrackets vlan)⟩
    | some (listContents, _) => parseVlanElems vlan (splitOn ',' listContents) [] []

example : parseNodeFabNetAttVlanList "[100, 200-202]" =
    ⟨[100, 200, 201, 202], ["100".toList, "200-202".toList], none⟩ := by decide

end AciContainers.VlanList
