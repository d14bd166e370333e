import AciContainers.Bytes

/-!
# Addresses and networks of Go's `net` package

An address is its byte string: four bytes for IPv4, sixteen bytes for IPv6 and
for the IPv4-mapped form that `net.ParseIP` returns. A failed conversion, which
Go reports as a nil slice, is `none`.
-/
namespace AciContainers.Net

open Bytes

abbrev IP := ByteString
abbrev IPMask := ByteString

structure IPNet where
  ip : IP
  mask : IPMask
  deriving DecidableEq

/-- The twelve bytes in front of an IPv4 address in its sixteen byte form. -/
def v4InV6Prefix : ByteString := [0, 0, 0, 0, 0, 0, 0, 0, 0, 0, 0xff, 0xff]

/-- `net.IPv4`: the sixteen byte form of an IPv4 address. -/
def mapped (a b c d : UInt8) : IP := v4InV6Prefix ++ [a, b, c, d]

def to4 (ip : IP) : Option IP :=
  if ip.length = 4 then some ip
  else if ip.length = 16 ∧ ip.take 12 = v4InV6Prefix then some (ip.drop 12)
  else none

def to16 (ip : IP) : Option IP :=
  if ip.length = 4 then some (v4InV6Prefix ++ ip)
  else if ip.length = 16 then some ip
  else none

/-- `IP.Equal` reads an IPv4 address and its mapped form as the same address. -/
def equal (ip x : IP) : Bool :=
  if ip.length = x.length then ip = x
  else if ip.length = 4 ∧ x.length = 16 then x.take 12 = v4InV6Prefix ∧ ip = x.drop 12
  else if ip.length = 16 ∧ x.length = 4 then ip.take 12 = v4InV6Prefix ∧ ip.drop 12 = x
  else false

/-- Bring an address and a mask to one length where the family allows it. -/
def maskOperands (ip : IP) (mask : IPMask) : IP × IPMask :=
  let mask' :=
    if mask.length = 16 ∧ ip.length = 4 ∧ (mask.take 12).all (· = 0xff) then mask.drop 12 else mask
  let ip' :=
    if mask'.length = 4 ∧ ip.length = 16 ∧ ip.take 12 = v4InV6Prefix then ip.drop 12 else ip
  (ip', mask')

def mask (ip : IP) (m : IPMask) : Option IP :=
  if (maskOperands ip m).1.length = (maskOperands ip m).2.length then
    some (List.zipWith (· &&& ·) (maskOperands ip m).1 (maskOperands ip m).2)
  else none

theorem equal_iff {ip x : IP} (h : ip.length = x.length) : equal ip x = true ↔ ip = x := by
  simp [equal, h]

/-- The numbers of the IPv4-mapped addresses. -/
def V4Value (x : Nat) : Prop := 0xffff * 2 ^ 32 ≤ x ∧ x < 0x10000 * 2 ^ 32

instance (x : Nat) : Decidable (V4Value x) := inferInstanceAs (Decidable (_ ∧ _))

theorem value_split {ip : IP} (h : ip.length = 16) :
    value ip = value (ip.take 12) * 2 ^ 32 + value (ip.drop 12) ∧ value (ip.drop 12) < 2 ^ 32 := by
  have hl : (ip.drop 12).length = 4 := by simp [h]
  have happ := value_append (ip.take 12) (ip.drop 12)
  have hlt := value_lt (ip.drop 12)
  rw [List.take_append_drop, hl] at happ
  rw [hl] at hlt
  exact ⟨happ, hlt⟩

theorem to4_isSome_iff {ip : IP} (h : ip.length = 16) : (to4 ip).isSome ↔ V4Value (value ip) := by
  have hpre : ip.take 12 = v4InV6Prefix ↔ value (ip.take 12) = 0xffff := by
    constructor
    · intro he
      rw [he]
      decide
    · intro hv
      exact value_inj (by simp [h, v4InV6Prefix]) hv
  have hsplit := value_split h
  have hto4 : (to4 ip).isSome ↔ ip.take 12 = v4InV6Prefix := by
    by_cases hp : ip.take 12 = v4InV6Prefix <;> simp [to4, h, hp]
  rw [hto4, hpre, V4Value]
  omega

/-!
# Textual addresses

`net.ParseIP`, `IP.String` and `strings.Split`, on lists of characters so that they
compute. `ParseIP` returns sixteen bytes for either family: four decimal
fields without leading zeros, or up to eight groups of at most four hexadecimal digits,
one run of zero groups written `::`, the last four bytes possibly in decimal. A zone is
refused.
-/

open List Option

/-- `strings.Split` at one character: never the empty list. -/
def splitOn (sep : Char) : List Char → List (List Char)
  | [] => [[]]
  | c :: cs =>
    if c = sep then [] :: splitOn sep cs
    else
      match splitOn sep cs with
      | [] => [[c]]
      | f :: fs => (c :: f) :: fs

theorem splitOn_plain {sep : Char} {cs : List Char} (h : sep ∉ cs) : splitOn sep cs = [cs] := by
  induction cs with
  | nil => rfl
  | cons c cs ih =>
    rw [mem_cons, not_or] at h
    rw [splitOn, if_neg (Ne.symm h.1), ih h.2]

/-- The text before the first separator is the first field. -/
theorem splitOn_append {sep : Char} {xs : List Char} (h : sep ∉ xs) (ys : List Char) :
    splitOn sep (xs ++ sep :: ys) = xs :: splitOn sep ys := by
  induction xs with
  | nil => simp [splitOn]
  | cons x xs ih =>
    rw [mem_cons, not_or] at h
    rw [cons_append, splitOn, if_neg (Ne.symm h.1), ih h.2]

def digitValue (c : Char) : Option Nat :=
  if '0' ≤ c ∧ c ≤ '9' then some (c.toNat - '0'.toNat) else none

def hexValue (c : Char) : Option Nat :=
  if '0' ≤ c ∧ c ≤ '9' then some (c.toNat - '0'.toNat)
  else if 'a' ≤ c ∧ c ≤ 'f' then some (c.toNat - 'a'.toNat + 10)
  else if 'A' ≤ c ∧ c ≤ 'F' then some (c.toNat - 'A'.toNat + 10)
  else none

/-- The number that a string of decimal digits writes; `none` for the empty string. -/
def decimal (cs : List Char) : Option Nat :=
  if cs.isEmpty then none
  else cs.foldl (fun acc c => acc.bind fun n => (digitValue c).map (10 * n + ·)) (some 0)

/-- `strconv.Atoi` where the error is ignored: out of range gives the nearest bound. -/
def atoiIgnoringError (s : String) : Int :=
  let signed (digits : List Char) (sign : Int) : Int :=
    match decimal digits with
    | some n => max (-2 ^ 63) (min (2 ^ 63 - 1) (sign * n))
    | none => 0
  match s.toList with
  | '-' :: digits => signed digits (-1)
  | '+' :: digits => signed digits 1
  | digits => signed digits 1

theorem digitValue_digitChar {d : Nat} (h : d < 10) : digitValue d.digitChar = some d := by
  interval_cases d <;> decide

theorem decimal_append_digit {cs : List Char} {n d : Nat} (hcs : decimal cs = some n) (hd : d < 10) :
    decimal (cs ++ [d.digitChar]) = some (10 * n + d) := by
  unfold decimal at hcs ⊢
  cases cs with
  | nil => simp at hcs
  | cons c cs =>
    simp only [isEmpty_cons, Bool.false_eq_true, if_false, cons_append] at hcs ⊢
    rw [← cons_append, foldl_append, hcs]
    simp [digitValue_digitChar hd]

theorem decimal_toDigits (n : Nat) : decimal (Nat.toDigits 10 n) = some n := by
  induction n using Nat.strongRecOn with
  | ind n ih =>
    rw [Nat.toDigits_eq_if (by decide)]
    split
    · next h =>
      have hd := digitValue_digitChar h
      simp [decimal, hd]
    · next h =>
      rw [decimal_append_digit (ih (n / 10) (by omega)) (Nat.mod_lt n (by decide))]
      congr 1
      omega

def parseOctet (cs : List Char) : Option UInt8 :=
  if cs.length > 1 ∧ cs.head? = some '0' then none
  else
    match decimal cs with
    | some n => if n ≤ 255 then some (UInt8.ofNat n) else none
    | none => none

def parseIPv4Fields (cs : List Char) : Option ByteString :=
  match splitOn '.' cs with
  | [a, b, c, d] =>
    match parseOctet a, parseOctet b, parseOctet c, parseOctet d with
    | some a, some b, some c, some d => some [a, b, c, d]
    | _, _, _, _ => none
  | _ => none

/-- The leading hexadecimal digits: their number, how many they are, and the rest. More than
four digits are refused. -/
def takeHex : List Char → Nat → Nat → Option (Nat × Nat × List Char)
  | [], acc, off => some (acc, off, [])
  | c :: cs, acc, off =>
    match hexValue c with
    | none => some (acc, off, c :: cs)
    | some d => if off > 3 then none else takeHex cs (acc * 16 + d) (off + 1)

def group (n : Nat) : ByteString := [UInt8.ofNat (n / 256), UInt8.ofNat n]

/-- The groups of an IPv6 address: what is left of the text, the bytes read so far and where
the run of zeros goes. The fuel is the number of groups that still fit. -/
def parseIPv6Loop : Nat → List Char → ByteString → Option Nat →
    Option (List Char × ByteString × Option Nat)
  | 0, s, ip, ellipsis => some (s, ip, ellipsis)
  | fuel + 1, s, ip, ellipsis =>
    match takeHex s 0 0 with
    | none => none
    | some (acc, off, rest) =>
      if off = 0 then none
      else
        match rest with
        | [] => some ([], ip ++ group acc, ellipsis)
        | '.' :: _ =>
          if ellipsis.isNone ∧ ip.length ≠ 12 then none
          else if ip.length + 4 > 16 then none
          else (parseIPv4Fields s).map fun fields => ([], ip ++ fields, ellipsis)
        | [':'] => none
        | [':', ':'] =>
          if ellipsis.isSome then none else some ([], ip ++ group acc, some (ip.length + 2))
        | ':' :: ':' :: more =>
          if ellipsis.isSome then none
          else parseIPv6Loop fuel more (ip ++ group acc) (some (ip.length + 2))
        | ':' :: more => parseIPv6Loop fuel more (ip ++ group acc) ellipsis
        | _ => none

/-- Fill the run of zeros; it must stand for at least one group, and without it all sixteen
bytes must be there. -/
def expandEllipsis (ip : ByteString) (ellipsis : Option Nat) : Option IP :=
  if ip.length < 16 then
    ellipsis.map fun k => ip.take k ++ replicate (16 - ip.length) 0 ++ ip.drop k
  else if ellipsis.isSome then none
  else some ip

def parseIPv6 (cs : List Char) : Option IP :=
  let parsed :=
    match cs with
    | [':', ':'] => some ([], [], some 0)
    | ':' :: ':' :: rest => parseIPv6Loop 8 rest [] (some 0)
    | _ => parseIPv6Loop 8 cs [] none
  match parsed with
  | some ([], ip, ellipsis) => expandEllipsis ip ellipsis
  | _ => none

/-- The first `.`, `:` or `%` decides how the text is read. -/
def parseIPChars (cs : List Char) : Option IP :=
  match cs.find? (fun c => c = '.' || c = ':' || c = '%') with
  | some '.' => (parseIPv4Fields cs).map (v4InV6Prefix ++ ·)
  | some ':' => if '%' ∈ cs then none else parseIPv6 cs
  | _ => none

def parseIP (s : String) : Option IP := parseIPChars s.toList

def groups : ByteString → List Nat
  | a :: b :: rest => (a.toNat * 256 + b.toNat) :: groups rest
  | _ => []

/-- The first longest run of at least two zero groups: where it starts and how long it is. -/
def zeroRun (gs : List Nat) : Nat × Nat :=
  (range gs.length).foldl
    (fun best i =>
      let run := ((gs.drop i).takeWhile (· = 0)).length
      if 2 ≤ run ∧ best.2 < run then (i, run) else best) (0, 0)

def hexGroups (gs : List Nat) : List Char := [':'].intercalate (gs.map (Nat.toDigits 16))

def hexByte (b : UInt8) : List Char :=
  Nat.toDigits 16 (b.toNat / 16) ++ Nat.toDigits 16 (b.toNat % 16)

/-- `IP.String`. -/
def ipString (ip : IP) : String :=
  match to4 ip with
  | some b => String.ofList (['.'].intercalate (b.map fun x => Nat.toDigits 10 x.toNat))
  | none =>
    if ip.length = 16 then
      let gs := groups ip
      let (start, len) := zeroRun gs
      if len = 0 then String.ofList (hexGroups gs)
      else String.ofList
        (hexGroups (gs.take start) ++ [':', ':'] ++ hexGroups (gs.drop (start + len)))
    else if ip.isEmpty then "<nil>"
    else String.ofList ('?' :: ip.flatMap hexByte)

theorem length_parseIPv4Fields {cs : List Char} {fields : ByteString}
    (h : parseIPv4Fields cs = some fields) : fields.length = 4 := by
  unfold parseIPv4Fields at h
  split at h
  · split at h
    · cases h
      rfl
    · simp at h
  · simp at h

/-- The loop never reads more bytes than fit. -/
theorem length_parseIPv6Loop (fuel : Nat) (s : List Char) (ip : ByteString) (ellipsis : Option Nat)
    (hlen : ip.length + 2 * fuel ≤ 16) {rest : List Char} {ip' : ByteString} {e : Option Nat}
    (h : parseIPv6Loop fuel s ip ellipsis = some (rest, ip', e)) : ip'.length ≤ 16 := by
  induction fuel generalizing s ip ellipsis with
  | zero =>
    simp only [parseIPv6Loop, some.injEq, Prod.mk.injEq] at h
    rw [← h.2.1]
    omega
  | succ fuel ih =>
    rw [parseIPv6Loop] at h
    have hgroup : ∀ n, (ip ++ group n).length = ip.length + 2 := by simp [group]
    split at h
    · simp at h
    · split at h
      · simp at h
      · split at h
        · simp only [some.injEq, Prod.mk.injEq] at h
          rw [← h.2.1, hgroup]
          omega
        · split at h
          · simp at h
          · split at h
            · simp at h
            · next hroom =>
              cases hf : parseIPv4Fields s with
              | none => simp [hf] at h
              | some fields =>
                simp only [hf, map_some, some.injEq, Prod.mk.injEq] at h
                rw [← h.2.1, length_append, length_parseIPv4Fields hf]
                omega
        · simp at h
        · split at h
          · simp at h
          · simp only [some.injEq, Prod.mk.injEq] at h
            rw [← h.2.1, hgroup]
            omega
        · split at h
          · simp at h
          · exact ih _ _ _ (by rw [hgroup]; omega) h
        · exact ih _ _ _ (by rw [hgroup]; omega) h
        · simp at h

theorem length_expandEllipsis {ip : ByteString} {ellipsis : Option Nat} {out : IP}
    (hlen : ip.length ≤ 16) (h : expandEllipsis ip ellipsis = some out) : out.length = 16 := by
  unfold expandEllipsis at h
  split at h
  · cases ellipsis with
    | none => simp at h
    | some k =>
      simp only [map_some, some.injEq] at h
      rw [← h]
      simp only [length_append, length_take, length_replicate, length_drop]
      omega
  · split at h
    · simp at h
    · simp only [some.injEq] at h
      rw [← h]
      omega

theorem length_parseIP {s : String} {ip : IP} (h : parseIP s = some ip) : ip.length = 16 := by
  unfold parseIP parseIPChars at h
  split at h
  · cases hf : parseIPv4Fields s.toList with
    | none => simp [hf] at h
    | some fields =>
      simp only [hf, map_some, some.injEq] at h
      rw [← h, length_append, length_parseIPv4Fields hf]
      rfl
  · split at h
    · simp at h
    · unfold parseIPv6 at h
      simp only at h
      split at h
      · next ip' ellipsis hp =>
        refine length_expandEllipsis ?_ h
        split at hp
        · simp only [some.injEq, Prod.mk.injEq] at hp
          rw [← hp.2.1]
          simp
        · exact length_parseIPv6Loop 8 _ [] _ (by simp) hp
        · exact length_parseIPv6Loop 8 _ [] _ (by simp) hp
      · simp at h
  · simp at h

/-!
# Networks in CIDR form

`net.ParseCIDR`, `net.CIDRMask` and the methods of `net.IPNet`. A network read from an
IPv4 text has four bytes, one read from an IPv6 text sixteen, also when the address is
an IPv4-mapped one. Where Go returns nil or an error the result is `none`.
-/

def cidrMaskBytes : Nat → Nat → IPMask
  | 0, _ => []
  | l + 1, n =>
    if 8 ≤ n then 0xff :: cidrMaskBytes l (n - 8)
    else ~~~ (0xff >>> UInt8.ofNat n) :: cidrMaskBytes l 0

def cidrMask (ones bits : Nat) : Option IPMask :=
  if (bits = 32 ∨ bits = 128) ∧ ones ≤ bits then some (cidrMaskBytes (bits / 8) ones) else none

/-- `strings.Cut` at the first separator. -/
def cut (sep : Char) : List Char → Option (List Char × List Char)
  | [] => none
  | c :: cs => if c = sep then some ([], cs) else (cut sep cs).map fun r => (c :: r.1, r.2)

/-- `BitLen` of the address a text is read as. -/
def bitLen (cs : List Char) : Nat :=
  if cs.find? (fun c => c = '.' || c = ':' || c = '%') = some '.' then 32 else 128

def parseCIDRChars (cs : List Char) : Option (IP × IPNet) := do
  let (addr, maskText) ← cut '/' cs
  let ip ← parseIPChars addr
  let n ← decimal maskText
  let m ← cidrMask n (bitLen addr)
  let masked ← mask ip m
  some (ip, ⟨masked, m⟩)

def parseCIDR (s : String) : Option (IP × IPNet) := parseCIDRChars s.toList

def networkNumberAndMask (n : IPNet) : Option (IP × IPMask) :=
  let ip := (to4 n.ip).getD n.ip
  if ip.length ≠ 4 ∧ ip.length ≠ 16 then none
  else if n.mask.length = 4 then (if ip.length = 4 then some (ip, n.mask) else none)
  else if n.mask.length = 16 then
    (if ip.length = 4 then some (ip, n.mask.drop 12) else some (ip, n.mask))
  else none

def IPNet.contains (n : IPNet) (ip : IP) : Bool :=
  let x := (to4 ip).getD ip
  match networkNumberAndMask n with
  | none => x.isEmpty
  | some (nn, m) =>
    x.length = nn.length && List.zipWith (· &&& ·) nn m = List.zipWith (· &&& ·) x m

/-- Leading ones of a byte other than `0xff`, if nothing but zeros follows them. -/
def leadingOnes (b : UInt8) : Option Nat :=
  (List.range 8).find? fun n => b = ~~~ (0xff >>> UInt8.ofNat n)

def simpleMaskLength : IPMask → Option Nat
  | [] => some 0
  | b :: bs =>
    if b = 0xff then (simpleMaskLength bs).map (8 + ·)
    else if bs.all (· = 0) then leadingOnes b
    else none

def IPNet.string (n : IPNet) : String :=
  match networkNumberAndMask n with
  | none => "<nil>"
  | some (nn, m) =>
    match simpleMaskLength m with
    | none => ipString nn ++ "/" ++ String.ofList (m.flatMap hexByte)
    | some l => ipString nn ++ "/" ++ String.ofList (Nat.toDigits 10 l)

theorem length_cidrMaskBytes (l n : Nat) : (cidrMaskBytes l n).length = l := by
  induction l generalizing n with
  | zero => rfl
  | succ l ih =>
    rw [cidrMaskBytes]
    split <;> simp [ih]

/-!
# CIDR blocks as sets of addresses

Two blocks that share an address are nested, so it is enough to look for the network number
of either block in the other one. An address text is read as a block of its own once `/32` or
`/128` is put behind it, since no address text has a slash in it.
-/

open List Option

variable {n : IPNet} {ip : IP} {cs rest : List Char} {fields : ByteString} {s : String}

theorem maskByte_absorb : ∀ m < 8, ∀ n < 8, m ≤ n →
    (~~~ (0xff >>> UInt8.ofNat n) &&& ~~~ (0xff >>> UInt8.ofNat m) : UInt8) = ~~~ (0xff >>> UInt8.ofNat m) := by decide

theorem ones_and (b : UInt8) : 0xff &&& b = b := by
  rw [UInt8.and_comm]
  exact UInt8.and_neg_one

theorem cidrMaskBytes_zero_and (l : Nat) (bs : ByteString) (h : bs.length = l) :
    zipWith (· &&& ·) bs (cidrMaskBytes l 0) = cidrMaskBytes l 0 := by
  induction l generalizing bs with
  | zero =>
    rw [eq_nil_of_length_eq_zero h]
    rfl
  | succ l ih =>
    cases bs with
    | nil => simp at h
    | cons b bs =>
      have hb : ~~~ ((0xff : UInt8) >>> UInt8.ofNat 0) = 0 := by decide
      rw [cidrMaskBytes, if_neg (by omega), zipWith_cons_cons, ih bs (by simpa using h), hb,
        UInt8.and_zero]

/-- The shorter of two masks absorbs the longer one. -/
theorem cidrMaskBytes_absorb (l : Nat) {m n : Nat} (h : m ≤ n) :
    zipWith (· &&& ·) (cidrMaskBytes l n) (cidrMaskBytes l m) = cidrMaskBytes l m := by
  induction l generalizing m n with
  | zero => rfl
  | succ l ih =>
    by_cases hm : 8 ≤ m
    · have hn : 8 ≤ n := by omega
      simp only [cidrMaskBytes, if_pos hm, if_pos hn, zipWith_cons_cons]
      rw [ih (by omega), ones_and]
    · by_cases hn : 8 ≤ n
      · simp only [cidrMaskBytes, if_neg hm, if_pos hn, zipWith_cons_cons]
        rw [cidrMaskBytes_zero_and l _ (length_cidrMaskBytes l _), ones_and]
      · simp only [cidrMaskBytes, if_neg hm, if_neg hn, zipWith_cons_cons]
        rw [ih (Nat.le_refl 0), maskByte_absorb m (by omega) n (by omega) h]

theorem drop_cidrMaskBytes (k l n : Nat) : (cidrMaskBytes (k + l) n).drop k = cidrMaskBytes l (n - 8 * k) := by
  induction k generalizing n with
  | zero => simp
  | succ k ih =>
    rw [Nat.succ_add, cidrMaskBytes]
    split
    · rw [drop_succ_cons, ih]
      congr 1
      omega
    · rw [drop_succ_cons, ih]
      congr 1
      omega

theorem zipWith_and_assoc (xs ms ns : ByteString) : zipWith (· &&& ·) (zipWith (· &&& ·) xs ms) ns =
      zipWith (· &&& ·) xs (zipWith (· &&& ·) ms ns) := by
  induction xs generalizing ms ns with
  | nil => rfl
  | cons x xs ih =>
    cases ms with
    | nil => rfl
    | cons m ms =>
      cases ns with
      | nil => rfl
      | cons n ns =>
        simp [zipWith_cons_cons, ih, UInt8.and_assoc]

/-- A network as `ParseCIDR` returns it: its number has no bits outside of its mask. -/
def IsBlock (n : IPNet) : Prop :=
  ∃ nn ones, networkNumberAndMask n = some (nn, cidrMaskBytes nn.length ones) ∧
    zipWith (· &&& ·) nn (cidrMaskBytes nn.length ones) = nn

/-- The number of a block is what its own address is compared as. -/
theorem networkNumber_eq {nn : IP} {m : IPMask} (h : networkNumberAndMask n = some (nn, m)) :
    (to4 n.ip).getD n.ip = nn := by
  simp only [networkNumberAndMask] at h
  split at h
  · simp at h
  · split at h
    · split at h
      · exact (Prod.mk.inj (some.inj h)).1
      · simp at h
    · split at h
      · split at h
        · exact (Prod.mk.inj (some.inj h)).1
        · exact (Prod.mk.inj (some.inj h)).1
      · simp at h

theorem contains_iff {n : IPNet} {nn : IP} {m : IPMask} (h : networkNumberAndMask n = some (nn, m)) (x : IP) :
    n.contains x ↔ ((to4 x).getD x).length = nn.length ∧
      zipWith (· &&& ·) nn m = zipWith (· &&& ·) ((to4 x).getD x) m := by
  simp [IPNet.contains, h]

/-- The block with the shorter mask contains the number of the other. -/
theorem contains_of_shorter {a b : IPNet} {na nb : IP} {m n : Nat} {x : IP}
    (ha : networkNumberAndMask a = some (na, cidrMaskBytes na.length m))
    (hb : networkNumberAndMask b = some (nb, cidrMaskBytes nb.length n))
    (hmasked : zipWith (· &&& ·) nb (cidrMaskBytes nb.length n) = nb)
    (hxa : a.contains x) (hxb : b.contains x) (hle : m ≤ n) : a.contains b.ip := by
  obtain ⟨hla, hea⟩ := (contains_iff ha x).mp hxa
  obtain ⟨hlb, heb⟩ := (contains_iff hb x).mp hxb
  have hlen : nb.length = na.length := hlb.symm.trans hla
  rw [contains_iff ha, networkNumber_eq hb]
  refine ⟨hlen, ?_⟩
  calc zipWith (· &&& ·) na (cidrMaskBytes na.length m)
      = zipWith (· &&& ·) ((to4 x).getD x) (cidrMaskBytes na.length m) := hea
    _ = zipWith (· &&& ·) ((to4 x).getD x)
          (zipWith (· &&& ·) (cidrMaskBytes na.length n) (cidrMaskBytes na.length m)) := by
        rw [cidrMaskBytes_absorb na.length hle]
    _ = zipWith (· &&& ·) (zipWith (· &&& ·) nb (cidrMaskBytes nb.length n))
          (cidrMaskBytes na.length m) := by
        rw [heb, zipWith_and_assoc, hlen]
    _ = zipWith (· &&& ·) nb (cidrMaskBytes na.length m) := by rw [hmasked]

/-- Blocks of which neither contains the number of the other have no address in common. -/
theorem blocks_disjoint {a b : IPNet} (ha : IsBlock a) (hb : IsBlock b)
    (hab : a.contains b.ip = false) (hba : b.contains a.ip = false) (x : IP) : ¬ (a.contains x ∧ b.contains x) := by
  intro ⟨hxa, hxb⟩
  obtain ⟨na, m, hna, hma⟩ := ha
  obtain ⟨nb, n, hnb, hmb⟩ := hb
  rcases Nat.le_total m n with hle | hle
  · have h := contains_of_shorter hna hnb hmb hxa hxb hle
    rw [hab] at h
    exact Bool.false_ne_true h
  · have h := contains_of_shorter hnb hna hma hxb hxa hle
    rw [hba] at h
    exact Bool.false_ne_true h

theorem length_zipWith_mask (ip : IP) (m : IPMask) (h : ip.length = m.length) :
    (zipWith (· &&& ·) ip m).length = ip.length := by
  simp [h]

theorem zipWith_and_idem (l n : Nat) (ip : IP) :
    zipWith (· &&& ·) (zipWith (· &&& ·) ip (cidrMaskBytes l n)) (cidrMaskBytes l n) =
      zipWith (· &&& ·) ip (cidrMaskBytes l n) := by
  rw [zipWith_and_assoc, cidrMaskBytes_absorb l (Nat.le_refl n)]

/-- Four bytes under a mask of four bytes. -/
theorem isBlock_four (n : Nat) (h : ip.length = 4) :
    IsBlock ⟨zipWith (· &&& ·) ip (cidrMaskBytes 4 n), cidrMaskBytes 4 n⟩ := by
  have hlen : (zipWith (· &&& ·) ip (cidrMaskBytes 4 n)).length = 4 := by
    rw [length_zipWith_mask ip _ (by rw [h, length_cidrMaskBytes]), h]
  refine ⟨zipWith (· &&& ·) ip (cidrMaskBytes 4 n), n, ?_, ?_⟩
  · simp [networkNumberAndMask, to4, hlen, length_cidrMaskBytes]
  · rw [hlen]
    exact zipWith_and_idem 4 n ip

/-- Sixteen bytes under a mask of sixteen; an IPv4-mapped number counts with its last
four. -/
theorem isBlock_sixteen (n : Nat) (h : ip.length = 16) :
    IsBlock ⟨zipWith (· &&& ·) ip (cidrMaskBytes 16 n), cidrMaskBytes 16 n⟩ := by
  have hlen : (zipWith (· &&& ·) ip (cidrMaskBytes 16 n)).length = 16 := by
    rw [length_zipWith_mask ip _ (by rw [h, length_cidrMaskBytes]), h]
  have hidem := zipWith_and_idem 16 n ip
  generalize zipWith (· &&& ·) ip (cidrMaskBytes 16 n) = masked at hlen hidem
  by_cases hmapped : masked.take 12 = v4InV6Prefix
  · have hfour : (masked.drop 12).length = 4 := by simp [hlen]
    have hdrop : (cidrMaskBytes 16 n).drop 12 = cidrMaskBytes 4 (n - 96) :=
      drop_cidrMaskBytes 12 4 n
    refine ⟨masked.drop 12, n - 96, ?_, ?_⟩
    · rw [hfour, ← hdrop]
      simp [networkNumberAndMask, to4, hlen, hmapped, length_cidrMaskBytes]
    · rw [hfour, ← hdrop, ← drop_zipWith, hidem]
  · refine ⟨masked, n, ?_, ?_⟩
    · simp [networkNumberAndMask, to4, hlen, hmapped, length_cidrMaskBytes]
    · rw [hlen, hidem]

/-- A text that is read as an address of 32 bits is one of four fields. -/
theorem fields_of_bitLen (h : parseIPChars cs = some ip) (hbits : bitLen cs = 32) :
    ∃ fields, fields.length = 4 ∧ ip = v4InV6Prefix ++ fields := by
  unfold parseIPChars at h
  unfold bitLen at hbits
  split at h
  · cases hf : parseIPv4Fields cs with
    | none => exact absurd h (by simp [hf])
    | some fields =>
      simp only [hf, map_some, some.injEq] at h
      exact ⟨fields, length_parseIPv4Fields hf, h.symm⟩
  · next hfind => exact absurd hbits (by simp [hfind])
  · simp at h

theorem bitLen_eq (cs : List Char) : bitLen cs = 32 ∨ bitLen cs = 128 := by
  unfold bitLen
  split
  · exact .inl rfl
  · exact .inr rfl

/-- The network of an address under a mask of its own width. -/
theorem mask_v4 (h : fields.length = 4) (n : Nat) : mask (v4InV6Prefix ++ fields) (cidrMaskBytes 4 n) =
      some (zipWith (· &&& ·) fields (cidrMaskBytes 4 n)) := by
  have hop : maskOperands (v4InV6Prefix ++ fields) (cidrMaskBytes 4 n) =
      (fields, cidrMaskBytes 4 n) := by
    simp [maskOperands, length_cidrMaskBytes, h, v4InV6Prefix]
  unfold mask
  rw [hop, if_pos (by rw [h, length_cidrMaskBytes])]

theorem mask_v6 (h : ip.length = 16) (n : Nat) :
    mask ip (cidrMaskBytes 16 n) = some (zipWith (· &&& ·) ip (cidrMaskBytes 16 n)) := by
  have hop : maskOperands ip (cidrMaskBytes 16 n) = (ip, cidrMaskBytes 16 n) := by
    simp [maskOperands, length_cidrMaskBytes, h]
  unfold mask
  rw [hop, if_pos (by rw [h, length_cidrMaskBytes])]

theorem length_parseIPChars (h : parseIPChars cs = some ip) : ip.length = 16 := by
  have hs : Net.parseIP (String.ofList cs) = some ip := by
    rw [Net.parseIP, String.toList_ofList, h]
  exact length_parseIP hs

/-- Everything `ParseCIDR` accepts is a block. -/
theorem isBlock_parseCIDR (h : parseCIDR s = some (ip, n)) : IsBlock n := by
  simp only [parseCIDR, parseCIDRChars, bind_eq_bind, bind_eq_some_iff, Prod.exists, some.injEq, Prod.mk.injEq] at h
  obtain ⟨addr, text, -, ip', hip, ones, -, m, hm, masked, hmask, -, hn⟩ := h
  unfold cidrMask at hm
  split at hm
  · rw [← hn, ← some.inj hm]
    rw [← some.inj hm] at hmask
    rcases bitLen_eq addr with hbits | hbits
    · obtain ⟨fields, hfields, heq⟩ := fields_of_bitLen hip hbits
      rw [hbits, heq, mask_v4 hfields] at hmask
      rw [hbits, ← some.inj hmask]
      exact isBlock_four ones hfields
    · have hlen := length_parseIPChars hip
      rw [hbits, mask_v6 hlen] at hmask
      rw [hbits, ← some.inj hmask]
      exact isBlock_sixteen ones hlen
  · simp at hm

theorem splitOn_ne_nil (sep : Char) (cs : List Char) : splitOn sep cs ≠ [] := by
  cases cs with
  | nil => simp [splitOn]
  | cons c cs =>
    rw [splitOn]
    split
    · simp
    · split <;> simp

/-- Every character other than the separator is in a field. -/
theorem mem_splitOn {sep c : Char} {cs : List Char} (h : c ∈ cs) (hsep : c ≠ sep) : ∃ f ∈ splitOn sep cs, c ∈ f := by
  induction cs with
  | nil => exact absurd h not_mem_nil
  | cons d cs ih =>
    rw [splitOn]
    split
    · next hd =>
      have hc : c ∈ cs := (mem_cons.mp h).resolve_left (fun hcd => hsep (hcd.trans hd))
      obtain ⟨f, hf, hcf⟩ := ih hc
      exact ⟨f, mem_cons_of_mem _ hf, hcf⟩
    · split
      · next hs => exact absurd hs (splitOn_ne_nil sep cs)
      · next f fs hs =>
        rcases mem_cons.mp h with hc | hc
        · exact ⟨d :: f, mem_cons_self, by rw [hc]; exact mem_cons_self⟩
        · obtain ⟨g, hg, hcg⟩ := ih hc
          rw [hs] at hg
          rcases mem_cons.mp hg with hgf | hgf
          · exact ⟨d :: f, mem_cons_self, mem_cons_of_mem _ (by rwa [← hgf])⟩
          · exact ⟨g, mem_cons_of_mem _ hgf, hcg⟩

theorem digits_of_decimal {n : Nat} (h : decimal cs = some n) : ∀ c ∈ cs, (digitValue c).isSome := by
  have hfold : ∀ (cs : List Char) (acc : Option Nat),
      (cs.foldl (fun acc c => acc.bind fun n => (digitValue c).map (10 * n + ·)) acc).isSome →
        acc.isSome ∧ ∀ c ∈ cs, (digitValue c).isSome := by
    intro cs
    induction cs with
    | nil => exact fun acc h => ⟨h, by simp⟩
    | cons d cs ih =>
      intro acc h
      obtain ⟨hacc, hcs⟩ := ih _ h
      cases acc with
      | none => simp at hacc
      | some k =>
        have hd : (digitValue d).isSome := by simpa using hacc
        exact ⟨rfl, forall_mem_cons.mpr ⟨hd, hcs⟩⟩
  unfold decimal at h
  split at h
  · simp at h
  · exact (hfold cs (some 0) (by rw [h]; rfl)).2

theorem slash_not_mem_octet {b : UInt8} (h : parseOctet cs = some b) : '/' ∉ cs := by
  intro hmem
  unfold parseOctet at h
  split at h
  · simp at h
  · split at h
    · next n hn => exact absurd (digits_of_decimal hn '/' hmem) (by decide)
    · simp at h

theorem slash_not_mem_fields (h : parseIPv4Fields cs = some fields) : '/' ∉ cs := by
  intro hmem
  obtain ⟨f, hf, hslash⟩ := @mem_splitOn '.' '/' cs hmem (by decide)
  unfold parseIPv4Fields at h
  split at h
  · next a b c d hs =>
    rw [hs] at hf
    split at h
    · next ha hb hc hd =>
      simp only [mem_cons, not_mem_nil, or_false] at hf
      rcases hf with rfl | rfl | rfl | rfl
      · exact slash_not_mem_octet ha hslash
      · exact slash_not_mem_octet hb hslash
      · exact slash_not_mem_octet hc hslash
      · exact slash_not_mem_octet hd hslash
    · simp at h
  · simp at h

/-- Hexadecimal digits are taken off the text, so a slash stays in it. -/
theorem slash_takeHex {s : List Char} {acc off acc' off' : Nat}
    (h : takeHex s acc off = some (acc', off', rest)) (hmem : '/' ∈ s) : '/' ∈ rest := by
  induction s generalizing acc off with
  | nil => exact absurd hmem not_mem_nil
  | cons c cs ih =>
    rw [takeHex] at h
    split at h
    · simp only [some.injEq, Prod.mk.injEq] at h
      rw [← h.2.2]
      exact hmem
    · next d hd =>
      split at h
      · simp at h
      · have hc : '/' ≠ c := by
          intro he
          have hnone : hexValue '/' = none := by decide
          rw [← he, hnone] at hd
          simp at hd
        exact ih h ((mem_cons.mp hmem).resolve_left hc)

theorem slash_parseIPv6Loop {fuel : Nat} {s : List Char} {ip ip' : ByteString} {ellipsis e : Option Nat}
    (h : parseIPv6Loop fuel s ip ellipsis = some (rest, ip', e)) (hmem : '/' ∈ s) : '/' ∈ rest := by
  induction fuel generalizing s ip ellipsis with
  | zero =>
    simp only [parseIPv6Loop, some.injEq, Prod.mk.injEq] at h
    rw [← h.1]
    exact hmem
  | succ fuel ih =>
    rw [parseIPv6Loop] at h
    split at h
    · simp at h
    · next acc off rest' hhex =>
      have hrest := slash_takeHex hhex hmem
      split at h
      · simp at h
      · split at h
        · exact absurd hrest not_mem_nil
        · split at h
          · simp at h
          · split at h
            · simp at h
            · cases hf : parseIPv4Fields s with
              | none => exact absurd h (by simp [hf])
              | some fields => exact absurd hmem (slash_not_mem_fields hf)
        · simp at h
        · exact absurd hrest (by decide)
        · split at h
          · simp at h
          · exact ih h (by simpa using hrest)
        · exact ih h (by simpa using hrest)
        · simp at h

theorem slash_not_mem_parseIPv6 (h : parseIPv6 cs = some ip) : '/' ∉ cs := by
  intro hmem
  unfold parseIPv6 at h
  simp only at h
  split at h
  · next hp =>
    split at hp
    · exact absurd hmem (by decide)
    · exact not_mem_nil (slash_parseIPv6Loop hp (by simpa using hmem))
    · exact not_mem_nil (slash_parseIPv6Loop hp hmem)
  · simp at h

/-- No address text has a slash in it. -/
theorem slash_not_mem_parseIPChars (h : parseIPChars cs = some ip) : '/' ∉ cs := by
  unfold parseIPChars at h
  split at h
  · cases hf : parseIPv4Fields cs with
    | none => exact absurd h (by simp [hf])
    | some fields => exact slash_not_mem_fields hf
  · split at h
    · simp at h
    · exact slash_not_mem_parseIPv6 h
  · simp at h

theorem cut_append {sep : Char} (h : sep ∉ cs) : cut sep (cs ++ sep :: rest) = some (cs, rest) := by
  induction cs with
  | nil => simp [cut]
  | cons c cs ih =>
    have hc : c ≠ sep := fun he => h (he ▸ mem_cons_self)
    rw [cons_append, cut, if_neg hc, ih (fun hm => h (mem_cons_of_mem _ hm))]
    rfl

theorem zipWith_and_full (bs : ByteString) : zipWith (· &&& ·) bs (cidrMaskBytes bs.length (8 * bs.length)) = bs := by
  induction bs with
  | nil => rfl
  | cons b bs ih =>
    have hlen : 8 * (bs.length + 1) - 8 = 8 * bs.length := by omega
    rw [length_cons, cidrMaskBytes, if_pos (by omega), zipWith_cons_cons, hlen, ih,
      UInt8.and_comm, ones_and]

/-- Equal addresses are compared as the same bytes. -/
theorem to4_getD_of_equal {x : IP} (hlen : ip.length = 16) (h : equal ip x) : (to4 x).getD x = (to4 ip).getD ip := by
  unfold equal at h
  split at h
  · rw [of_decide_eq_true h]
  · split at h
    · next h4 => omega
    · split at h
      · next hne _ hx =>
        obtain ⟨htake, hdrop⟩ := of_decide_eq_true h
        simp [to4, hx.2, hlen, htake, hdrop]
      · simp at h

/-- `/n` behind an address text is read as its mask. -/
theorem parseCIDR_append {s : String} {ip masked : IP} {m : IPMask} {text : String} {n : Nat}
    (h : parseIP s = some ip) (htext : decimal text.toList = some n)
    (hm : cidrMask n (bitLen s.toList) = some m) (hmask : mask ip m = some masked) :
    parseCIDR (s ++ "/" ++ text) = some (ip, ⟨masked, m⟩) := by
  have hcut : cut '/' (s ++ "/" ++ text).toList = some (s.toList, text.toList) := by
    have happ : (s ++ "/" ++ text).toList = s.toList ++ '/' :: text.toList := by simp
    rw [happ]
    exact cut_append (slash_not_mem_parseIPChars h)
  simp only [parseCIDR, parseCIDRChars, hcut, bind_eq_bind, bind_some]
  rw [show parseIPChars s.toList = some ip from h]
  simp [htext, hm, hmask, bind_some]

/-- An address in four fields, with `/32` behind it, is the block of that address. -/
theorem parseCIDR_host4 (h : parseIP s = some ip) (hbits : bitLen s.toList = 32) :
    ∃ fields, fields.length = 4 ∧ ip = v4InV6Prefix ++ fields ∧
      parseCIDR (s ++ "/32") = some (ip, ⟨fields, cidrMaskBytes 4 32⟩) ∧
      ∀ x, equal ip x → IPNet.contains ⟨fields, cidrMaskBytes 4 32⟩ x := by
  obtain ⟨fields, hfields, heq⟩ := fields_of_bitLen h hbits
  have hfull : zipWith (· &&& ·) fields (cidrMaskBytes 4 32) = fields := by
    have hf := zipWith_and_full fields
    rwa [hfields] at hf
  have hmask : mask ip (cidrMaskBytes 4 32) = some fields := by
    rw [heq, mask_v4 hfields, hfull]
  have hnum : networkNumberAndMask ⟨fields, cidrMaskBytes 4 32⟩ =
      some (fields, cidrMaskBytes 4 32) := by
    simp [networkNumberAndMask, to4, hfields, length_cidrMaskBytes]
  refine ⟨fields, hfields, heq, ?_, ?_⟩
  · have hp := @parseCIDR_append s ip fields (cidrMaskBytes 4 32) "32" 32 h (by decide)
      (by rw [hbits]; rfl) hmask
    rwa [String.append_assoc] at hp
  · intro x hx
    have hx4 : (to4 x).getD x = fields := by
      rw [to4_getD_of_equal (length_parseIP h) hx, heq]
      simp [to4, hfields, v4InV6Prefix]
    rw [contains_iff hnum, hx4]
    exact ⟨rfl, rfl⟩

/-- An address without an IPv4 form, with `/128` behind it, is the block of that
address. -/
theorem parseCIDR_host6 (h : parseIP s = some ip) (hto4 : to4 ip = none) :
    parseCIDR (s ++ "/128") = some (ip, ⟨ip, cidrMaskBytes 16 128⟩) ∧
      ∀ x, equal ip x → IPNet.contains ⟨ip, cidrMaskBytes 16 128⟩ x := by
  have hlen := length_parseIP h
  have hbits : bitLen s.toList = 128 := by
    refine (bitLen_eq s.toList).resolve_left fun hbits => ?_
    obtain ⟨fields, hfields, heq⟩ := fields_of_bitLen h hbits
    rw [heq] at hto4
    exact absurd hto4 (by simp [to4, hfields, v4InV6Prefix])
  have hfull : zipWith (· &&& ·) ip (cidrMaskBytes 16 128) = ip := by
    have hf := zipWith_and_full ip
    rwa [hlen] at hf
  have hmask : mask ip (cidrMaskBytes 16 128) = some ip := by
    rw [mask_v6 hlen, hfull]
  have hnum : networkNumberAndMask ⟨ip, cidrMaskBytes 16 128⟩ =
      some (ip, cidrMaskBytes 16 128) := by
    simp [networkNumberAndMask, hto4, hlen, length_cidrMaskBytes]
  refine ⟨?_, ?_⟩
  · have hp := @parseCIDR_append s ip ip (cidrMaskBytes 16 128) "128" 128 h (by decide)
      (by rw [hbits]; rfl) hmask
    rwa [String.append_assoc] at hp
  · intro x hx
    have hx6 : (to4 x).getD x = ip := by
      rw [to4_getD_of_equal hlen hx, hto4]
      rfl
    rw [contains_iff hnum, hx6]
    exact ⟨rfl, rfl⟩

end AciContainers.Net
