import AciContainers.NetworkPolicy
import AciContainers.SnatPolicyIps

/-!
# Expanding SNAT addresses

`GetIPsFromCIDR` steps through a block with a carry, until it is outside of it, and cuts off
the first and the last address. The block of all IPv4 addresses is never left. A block of
IPv6 addresses around the IPv4-mapped ones is left where these begin. And a single address in
IPv4-mapped form is expanded as the block that `parseIP` makes of it.
-/
namespace AciContainers.Snat

open Bytes Net Ipam List Nat

variable {n lo hi : Nat} {ip x : IP} {b : IPNet} {entry : String} {entries : List String}

theorem incCarry_eq (ip : ByteString) : incCarry ip = carryIncrement ip := by
  induction ip with
  | nil => rfl
  | cons b bs ih =>
    have hlast : b + 1 = 0 ↔ ¬ b < 255 := by
      rw [UInt8.lt_iff_toNat_lt, ← UInt8.toNat_inj, UInt8.toNat_add]
      have hb := byte_lt b
      simp only [UInt8.reduceToNat]
      omega
    simp only [incCarry, carryIncrement, ih]
    by_cases hb : b < 255
    · simp [hb, hlast]
    · have hzero : b + 1 = 0 := hlast.mpr hb
      simp [hb, hzero]

theorem length_inc (ip : IP) : (inc ip).length = ip.length := by
  simp [inc, incCarry_eq]

theorem value_inc (ip : IP) : value (inc ip) = (value ip + 1) % 256 ^ ip.length := by
  rw [inc, incCarry_eq, value_increment]

theorem ofNat_value (h : ip.length = n) : ofNat n (value ip) = ip :=
  value_inj (by rw [length_ofNat, h]) (value_ofNat n _ (h ▸ value_lt ip))

/-- The loop lists the addresses up to the last one before it is outside. -/
theorem cidrLoop_eq (hin : ∀ x : IP, x.length = n → lo ≤ value x → value x ≤ hi → b.contains x)
    (hout : ∀ x : IP, x.length = n → value x = (hi + 1) % 256 ^ n → b.contains x = false)
    (hhi : hi < 256 ^ n) (fuel : Nat) (hx : x.length = n) (hlo : lo ≤ value x) (hle : value x ≤ hi)
    (hfuel : hi + 1 - value x ≤ fuel) : cidrLoop b fuel x =
      some ((range' (value x) (hi + 1 - value x)).map fun v => ipString (ofNat n v)) := by
  induction fuel generalizing x with
  | zero => omega
  | succ fuel ih =>
    rw [cidrLoop, if_pos (hin x hx hlo hle)]
    have hstep : (inc x).length = n := (length_inc x).trans hx
    have hvalue := value_inc x
    rw [hx] at hvalue
    by_cases hlast : value x = hi
    · rw [hlast] at hvalue
      have hstop : cidrLoop b fuel (inc x) = some [] := by
        cases fuel <;> simp [cidrLoop, hout (inc x) hstep hvalue]
      have hone : hi + 1 - hi = 1 := by omega
      rw [hstop, hlast, hone]
      simp [← hlast, ofNat_value hx]
    · rw [mod_eq_of_lt (by omega)] at hvalue
      have hcount : hi + 1 - value x = hi + 1 - (value x + 1) + 1 := by omega
      rw [ih hstep (by omega) (by omega) (by omega), hvalue, hcount, range'_succ, map_cons,
        ofNat_value hx, Option.map_some]

/-- A block that no address is outside of is never left. -/
theorem cidrLoop_all (hall : ∀ x : IP, x.length = n → b.contains x) (fuel : Nat)
    (hx : x.length = n) : cidrLoop b fuel x = none := by
  induction fuel generalizing x with
  | zero => rw [cidrLoop, if_pos (hall x hx)]
  | succ fuel ih => rw [cidrLoop, if_pos (hall x hx), ih ((length_inc x).trans hx), Option.map_none]

theorem contains_four (h : IsCidr 4 b) (hx : x.length = 4) : b.contains x ↔ InBlock b x := by
  obtain ⟨l, -, hmask, -, -⟩ := h.shape
  have hself := h.2.2
  rw [mask_of_length (by rw [h.1, hmask, length_cidrMaskBytes]), Option.some.injEq] at hself
  have hnum : networkNumberAndMask b = some (b.ip, b.mask) := by
    simp [networkNumberAndMask, to4, h.1, hmask, length_cidrMaskBytes]
  rw [contains_iff hnum, InBlock, mask_of_length (by rw [hx, hmask, length_cidrMaskBytes]), Option.some.injEq, hself]
  simp [to4, hx, h.1, eq_comm]

theorem contains_sixteen (h : IsCidr 16 b) (h4 : to4 b.ip = none) (hx : x.length = 16) :
    b.contains x ↔ to4 x = none ∧ InBlock b x := by
  obtain ⟨l, -, hmask, -, -⟩ := h.shape
  have hself := h.2.2
  rw [mask_of_length (by rw [h.1, hmask, length_cidrMaskBytes]), Option.some.injEq] at hself
  have hnum : networkNumberAndMask b = some (b.ip, b.mask) := by
    simp [networkNumberAndMask, h4, h.1, hmask, length_cidrMaskBytes]
  rw [contains_iff hnum, InBlock, mask_of_length (by rw [hx, hmask, length_cidrMaskBytes]), Option.some.injEq, hself]
  cases hx4 : to4 x with
  | none => simp [hx, h.1, eq_comm]
  | some v =>
    have hlen : v.length = 4 := by
      simp only [to4, hx] at hx4
      split at hx4
      · omega
      · split at hx4
        · rw [← Option.some.inj hx4]
          simp [hx]
        · simp at hx4
    simp [hlen, h.1]

/-- The number of the first IPv4-mapped address. -/
def mappedStart : Nat := 0xffff * 2 ^ 32

theorem value_mapped (v : ByteString) (hv : v.length = 4) : value (v4InV6Prefix ++ v) = mappedStart + value v := by
  have hprefix : value v4InV6Prefix = 0xffff := by decide
  rw [value_append, hv, hprefix, mappedStart]
  norm_num

theorem to4_eq_none_iff (hx : x.length = 16) :
    to4 x = none ↔ ¬ (mappedStart ≤ value x ∧ value x < mappedStart + 2 ^ 32) := by
  have h := to4_isSome_iff hx
  rw [← Option.not_isSome_iff_eq_none, h, V4Value, mappedStart]
  omega

/-- A mask that is long enough leaves the leading bytes alone. -/
theorem zipWith_leading (x : IP) {k l n : Nat} (h : 8 * k ≤ n) (hx : k ≤ x.length) :
    zipWith (· &&& ·) x (cidrMaskBytes (k + l) n) =
      x.take k ++ zipWith (· &&& ·) (x.drop k) (cidrMaskBytes l (n - 8 * k)) := by
  induction k generalizing x n with
  | zero => simp
  | succ k ih =>
    cases x with
    | nil => simp at hx
    | cons b x =>
      have hones : b &&& 0xff = b := (UInt8.and_comm b 0xff).trans (ones_and b)
      have hlen : k + 1 + l = k + l + 1 := by omega
      have hbits : n - 8 * (k + 1) = n - 8 - 8 * k := by omega
      rw [hlen, cidrMaskBytes, if_pos (by omega), zipWith_cons_cons, hones, hbits,
        ih x (by omega) (by simpa using hx)]
      rfl

/-- A block whose number is an IPv4-mapped address is a block of IPv4 addresses. -/
theorem contains_mapped (h : IsCidr 16 b) (h4 : (to4 b.ip).isSome) :
    (∀ x : IP, x.length = 16 → (b.contains x ↔ InBlock b x)) ∧ 0 < value b.ip := by
  obtain ⟨l, hle, hmask, hdvd, -⟩ := h.shape
  obtain ⟨a₁, a₂, a₃, a₄, hip⟩ := eq_mapped_of_to4 h.1 h4
  have hlo : value b.ip = mappedStart + value [a₁, a₂, a₃, a₄] := by rw [hip, mapped, value_mapped _ rfl]
  have hlt := value_lt [a₁, a₂, a₃, a₄]
  simp only [length_cons, length_nil] at hlt
  -- a larger block than the IPv4-mapped ones starts at a multiple of its size, and this does not
  have hl : 8 * 12 ≤ l := by
    by_contra hshort
    have hbig : 2 ^ 33 ∣ value b.ip := (pow_dvd_pow 2 (by omega)).trans hdvd
    rw [hlo, mappedStart] at hbig
    omega
  refine ⟨fun x hx => ?_, by rw [hlo, mappedStart]; omega⟩
  have hsplit : ∀ y : IP, y.length = 16 → zipWith (· &&& ·) y b.mask =
      y.take 12 ++ zipWith (· &&& ·) (y.drop 12) (cidrMaskBytes 4 (l - 8 * 12)) := by
    intro y hy
    rw [hmask]
    exact @zipWith_leading y 12 4 l hl (by omega)
  have hself := h.2.2
  rw [mask_of_length (by rw [h.1, hmask, length_cidrMaskBytes]), Option.some.injEq, hsplit b.ip h.1, hip] at hself
  have hnn : zipWith (· &&& ·) [a₁, a₂, a₃, a₄] (cidrMaskBytes 4 (l - 8 * 12)) = [a₁, a₂, a₃, a₄] :=
    append_cancel_left hself
  have hnum : networkNumberAndMask b = some ([a₁, a₂, a₃, a₄], cidrMaskBytes 4 (l - 8 * 12)) := by
    have hdrop : b.mask.drop 12 = cidrMaskBytes 4 (l - 8 * 12) := by rw [hmask, drop_cidrMaskBytes 12 4 l]
    simp [networkNumberAndMask, hip, mapped, to4, v4InV6Prefix, ← hdrop, hmask, length_cidrMaskBytes]
  rw [contains_iff hnum, hnn, InBlock, mask_of_length (by rw [hx, hmask, length_cidrMaskBytes]), Option.some.injEq,
    hsplit x hx, hip, mapped, to4_of_length hx]
  by_cases hpre : x.take 12 = v4InV6Prefix
  · simp [hpre, hx, eq_comm]
  · have hne : x.take 12 ++ zipWith (· &&& ·) (x.drop 12) (cidrMaskBytes 4 (l - 8 * 12)) ≠
        v4InV6Prefix ++ [a₁, a₂, a₃, a₄] := fun he => hpre (append_inj_left he (by simp [hx, v4InV6Prefix]))
    simp [hpre, hx, hne]

/-- The addresses of `n` bytes between two, these left out, or the one address. -/
def hosts (n lo hi : Nat) : List IP :=
  if lo = hi then [ofNat n lo] else (range' (lo + 1) (hi - lo - 1)).map (ofNat n)

theorem mem_hosts (hlo : lo ≤ hi) (hhi : hi < 256 ^ n) :
    x ∈ hosts n lo hi ↔ x.length = n ∧ lo ≤ value x ∧ value x ≤ hi ∧ (lo = hi ∨ value x ≠ lo ∧ value x ≠ hi) := by
  have hof : ∀ v ≤ hi, x = ofNat n v ↔ x.length = n ∧ value x = v := by
    intro v hv
    have hlt : v < 256 ^ n := lt_of_le_of_lt hv hhi
    constructor
    · rintro rfl
      exact ⟨length_ofNat n v, value_ofNat n v hlt⟩
    · rintro ⟨hlen, rfl⟩
      exact (ofNat_value hlen).symm
  unfold hosts
  split
  · next heq =>
    rw [mem_singleton, hof lo hlo]
    omega
  · next hne =>
    simp only [mem_map, mem_range'_1]
    constructor
    · rintro ⟨v, hv, hx⟩
      obtain ⟨hlen, rfl⟩ := (hof v (by omega)).mp hx.symm
      omega
    · rintro ⟨hlen, h⟩
      exact ⟨value x, by omega, ofNat_value hlen⟩

theorem pairwise_hosts (hhi : hi < 256 ^ n) : (hosts n lo hi).Pairwise (value · < value ·) := by
  unfold hosts
  split
  · exact pairwise_singleton _ _
  · rw [pairwise_map]
    refine (pairwise_lt_range' (s := lo + 1) (n := hi - lo - 1)).imp_of_mem fun {v w} hv hw hlt => ?_
    rw [mem_range'_1] at hv hw
    rw [value_ofNat n v (by omega), value_ofNat n w (by omega)]
    exact hlt

/-- Stepping from the first address of the block, the first one outside comes after `hi`. -/
structure Stops (b : IPNet) (hi : Nat) : Prop where
  inside : ∀ x : IP, x.length = b.ip.length → value b.ip ≤ value x → value x ≤ hi → b.contains x = true
  outside : ∀ x : IP, x.length = b.ip.length → value x = (hi + 1) % 256 ^ b.ip.length → b.contains x = false
  first : value b.ip ≤ hi
  fits : hi < 256 ^ b.ip.length

theorem mask_of_parseCIDR {s : String} (h : parseCIDR s = some (ip, b)) : mask ip b.mask = some b.ip := by
  simp only [parseCIDR, parseCIDRChars, Option.bind_eq_bind, Option.bind_eq_some_iff,
    Prod.exists, Option.some.injEq, Prod.mk.injEq] at h
  obtain ⟨addr, text, -, ip', -, ones, -, m, -, masked, hmask, rfl, rfl⟩ := h
  exact hmask

theorem text_of_parseIP {r : IP × IPNet} (h : parseIP entry = some r) : ∃ text, parseCIDR text = some r := by
  unfold parseIP at h
  split at h
  · next hr => exact ⟨entry, hr.trans h⟩
  · split at h
    · simp at h
    · split at h
      · exact ⟨_, h⟩
      · exact ⟨_, h⟩

section

variable (h : parseIP entry = some (ip, b))
include h

theorem mask_of_parseIP : mask ip b.mask = some b.ip :=
  have ⟨_, htext⟩ := text_of_parseIP h
  mask_of_parseCIDR htext

/-- What is left after the first and the last address are cut off. -/
theorem getIPsFromCIDR_eq (hb : Stops b hi) :
    getIPsFromCIDR entry = some ((hosts b.ip.length (value b.ip) hi).map ipString) := by
  obtain ⟨d, hd⟩ : ∃ d, hi = value b.ip + d := ⟨hi - value b.ip, by have := hb.first; omega⟩
  have hloop := cidrLoop_eq hb.inside hb.outside hb.fits (256 ^ b.ip.length) rfl le_rfl hb.first
    (by have := hb.fits; omega)
  have hcount : hi + 1 - value b.ip = d + 1 := by omega
  rw [getIPsFromCIDR, h]
  simp only [mask_of_parseIP h, Option.getD_some]
  rw [hloop, hcount, Option.map_some, hosts]
  cases d with
  | zero => simp [hd]
  | succ d =>
    have hne : value b.ip ≠ hi := by omega
    have hrest : hi - value b.ip - 1 = d := by omega
    rw [if_neg hne, hrest, range'_succ, range'_concat]
    simp

theorem getIPsFromCIDR_none (hall : ∀ x : IP, x.length = b.ip.length → b.contains x) : getIPsFromCIDR entry = none := by
  rw [getIPsFromCIDR, h]
  simp only [mask_of_parseIP h, Option.getD_some]
  rw [cidrLoop_all hall _ rfl, Option.map_none]

end

theorem last_lt (h : IsCidr n b) : value (last b.ip b.mask) < 256 ^ n := by
  obtain ⟨l, -, hmask, -, -⟩ := h.shape
  have hlt := value_lt (last b.ip b.mask)
  rwa [hmask, show (last b.ip (cidrMaskBytes n l)).length = n by simp [last, h.1, length_cidrMaskBytes], ← hmask] at hlt

theorem first_le (h : IsCidr n b) : value b.ip ≤ value (last b.ip b.mask) := by
  obtain ⟨l, -, -, -, hsize⟩ := h.shape
  have hpos := Nat.two_pow_pos (8 * n - l)
  omega

/-- A block whose addresses all count, and that is not the whole space, is left after its
last address. -/
theorem stops_of_contains (h : IsCidr n b) (hin : ∀ x : IP, x.length = n → (b.contains x ↔ InBlock b x))
    (hpart : 0 < value b.ip ∨ value (last b.ip b.mask) + 1 < 256 ^ n) : Stops b (value (last b.ip b.mask)) := by
  have hhas : ∀ x : IP, x.length = n → (b.contains x ↔ value b.ip ≤ value x ∧ value x ≤ value (last b.ip b.mask)) :=
    fun x hx => (hin x hx).trans (h.inBlock_iff hx)
  have hlt := last_lt h
  have hlen := h.1
  subst hlen
  refine ⟨fun x hx hlo hhi => (hhas x hx).mpr ⟨hlo, hhi⟩, fun x hx hv => ?_, first_le h, hlt⟩
  rw [Bool.eq_false_iff, Ne, hhas x hx, hv]
  by_cases htop : value (last b.ip b.mask) + 1 < 256 ^ b.ip.length
  · rw [mod_eq_of_lt htop]
    omega
  · have hwrap : value (last b.ip b.mask) + 1 = 256 ^ b.ip.length := by omega
    rw [hwrap, mod_self]
    omega

theorem stops_four (h : IsCidr 4 b) (hpart : b.mask ≠ cidrMaskBytes 4 0) : Stops b (value (last b.ip b.mask)) := by
  refine stops_of_contains h (fun x hx => contains_four h hx) ?_
  obtain ⟨l, hle, hmask, -, hsize⟩ := h.shape
  have hpos : l ≠ 0 := by
    rintro rfl
    exact hpart hmask
  have hsmall : 2 ^ (8 * 4 - l) ≤ 2 ^ 31 := Nat.pow_le_pow_right (by omega) (by omega)
  omega

theorem contains_whole (h : IsCidr 4 b) (hwhole : b.mask = cidrMaskBytes 4 0) (hx : x.length = 4) : b.contains x := by
  have hzero : ∀ y : IP, y.length = 4 → mask y b.mask = some (replicate 4 0) := by
    intro y hy
    rw [hwhole, mask_of_length (by rw [hy, length_cidrMaskBytes]), Option.some.injEq]
    obtain ⟨a, b, c, d, rfl⟩ := length_eq_four.mp hy
    have hlow : ~~~ (255 : UInt8) = 0 := by decide
    simp [cidrMaskBytes, hlow, replicate]
  rw [contains_four h hx, InBlock, hzero x hx, ← hzero b.ip h.1, h.2.2]

/-- A block of IPv6 addresses around the IPv4-mapped ones. -/
def Around (b : IPNet) : Prop := to4 b.ip = none ∧ InBlock b (mapped 0 0 0 0)

instance (b : IPNet) : Decidable (Around b) := inferInstanceAs (Decidable (_ ∧ mask _ _ = _))

theorem value_mapped_zero : value (mapped 0 0 0 0) = mappedStart := by
  rfl

theorem around_iff (h : IsCidr 16 b) (h4 : to4 b.ip = none) :
    Around b ↔ value b.ip < mappedStart ∧ mappedStart ≤ value (last b.ip b.mask) := by
  have hlow := (to4_eq_none_iff h.1).mp h4
  rw [Around, h.inBlock_iff rfl, Intervals.Iv.Has, blockIv, value_mapped_zero]
  simp only [h4, true_and]
  omega

theorem stops_sixteen (h : IsCidr 16 b) (hout : ¬ Around b) : Stops b (value (last b.ip b.mask)) := by
  cases h4 : to4 b.ip with
  | some v =>
    obtain ⟨hin, hpos⟩ := contains_mapped h (by simp [h4])
    exact stops_of_contains h hin (.inl hpos)
  | none =>
    have hlow := (to4_eq_none_iff h.1).mp h4
    rw [around_iff h h4] at hout
    refine stops_of_contains h (fun x hx => ?_) ?_
    · rw [contains_sixteen h h4 hx, to4_eq_none_iff hx, h.inBlock_iff hx, Intervals.Iv.Has, blockIv]
      simp only
      omega
    · have hbig : mappedStart + 1 < 256 ^ 16 := by rw [mappedStart]; norm_num
      omega

theorem stops_around (h : IsCidr 16 b) (haround : Around b) : Stops b (mappedStart - 1) := by
  obtain ⟨hlo, hhi⟩ := (around_iff h haround.1).mp haround
  have hlt := last_lt h
  have hlen := h.1
  refine ⟨fun x hx hvlo hvhi => ?_, fun x hx hv => ?_, by omega, by rw [hlen]; omega⟩
  · rw [hlen] at hx
    rw [contains_sixteen h haround.1 hx, to4_eq_none_iff hx, h.inBlock_iff hx, Intervals.Iv.Has, blockIv]
    simp only
    omega
  · rw [hlen] at hx hv
    rw [Bool.eq_false_iff, Ne, contains_sixteen h haround.1 hx, to4_eq_none_iff hx]
    omega

theorem ipString_mapped {v : ByteString} (hv : v.length = 4) : ipString (v4InV6Prefix ++ v) = ipString v := by
  have hmapped : to4 (v4InV6Prefix ++ v) = some v := by simp [to4, v4InV6Prefix, hv]
  have hfour : to4 v = some v := by simp [to4, hv]
  rw [ipString, ipString, hmapped, hfour]

/-- The text of an address is read as the address in sixteen bytes. -/
theorem parseIP_ipString (h : x.length = 4 ∨ x.length = 16) :
    Net.parseIP (ipString x) = some (if x.length = 4 then v4InV6Prefix ++ x else x) := by
  have hfour : ∀ v : ByteString, v.length = 4 → Net.parseIP (ipString v) = some (v4InV6Prefix ++ v) := by
    intro v hv
    obtain ⟨a, b, c, d, rfl⟩ := length_eq_four.mp hv
    exact (parseIP_four a b c d).1
  rcases h with h | h
  · rw [if_pos h, hfour x h]
  · rw [if_neg (by omega)]
    cases h4 : to4 x with
    | none => exact (parseIP_sixteen h h4).1
    | some v =>
      obtain ⟨a, b, c, d, rfl⟩ := eq_mapped_of_to4 h (by simp [h4])
      rw [mapped, ipString_mapped rfl, hfour _ rfl]

theorem ipString_inj (hn : n = 4 ∨ n = 16) {y : IP} (hx : x.length = n) (hy : y.length = n)
    (h : ipString x = ipString y) : x = y := by
  have hparse := congrArg Net.parseIP h
  rw [parseIP_ipString (hx ▸ hn), parseIP_ipString (hy ▸ hn), Option.some.injEq, hx, hy] at hparse
  split at hparse
  · exact append_cancel_left hparse
  · exact hparse

/-- The addresses an entry should be expanded to: an address itself, the address of a block
that has only one, and of other blocks all but the first and the last. -/
def HostOf (entry : String) (x : IP) : Prop :=
  match parseCIDR entry with
  | some (_, b) =>
    x.length = b.ip.length ∧ InBlock b x ∧ (b.ip = last b.ip b.mask ∨ x ≠ b.ip ∧ x ≠ last b.ip b.mask)
  | none => Net.parseIP entry = some x

/-- The expansion ends and lists these addresses in ascending order, each once. -/
def Expands (entry : String) : Prop :=
  ∃ ips : List IP, getIPsFromCIDR entry = some (ips.map ipString) ∧ ips.Pairwise (value · < value ·) ∧
    (ips.map ipString).Nodup ∧ ∀ x, x ∈ ips ↔ HostOf entry x

/-- Neither all IPv4 addresses, nor a block around the IPv4-mapped ones, nor an address in
IPv4-mapped form. -/
def Expandable (entry : String) : Prop :=
  match parseCIDR entry with
  | some (_, b) => b.mask ≠ cidrMaskBytes 4 0 ∧ ¬ Around b
  | none => mappedText entry = false

theorem nodup_hosts (hn : n = 4 ∨ n = 16) (hlo : lo ≤ hi) (hhi : hi < 256 ^ n) :
    ((hosts n lo hi).map ipString).Nodup := by
  refine List.Nodup.map_on (fun x hx y hy h => ?_) ((pairwise_hosts hhi).imp fun hlt he => by rw [he] at hlt; omega)
  exact ipString_inj hn ((mem_hosts hlo hhi).mp hx).1 ((mem_hosts hlo hhi).mp hy).1 h

/-- A block is never left, or it is left after its last address or before the IPv4-mapped
ones. -/
theorem left_cases (hn : n = 4 ∨ n = 16) (h : IsCidr n b) :
    (b.mask = cidrMaskBytes 4 0 ∧ ∀ x : IP, x.length = b.ip.length → b.contains x) ∨
    (b.mask ≠ cidrMaskBytes 4 0 ∧ ¬ Around b ∧ Stops b (value (last b.ip b.mask))) ∨
    (Around b ∧ n = 16 ∧ Stops b (mappedStart - 1)) := by
  rcases hn with rfl | rfl
  · have hplain : ¬ Around b := fun haround => by
      have h4 := haround.1
      simp [to4, h.1] at h4
    by_cases hwhole : b.mask = cidrMaskBytes 4 0
    · exact .inl ⟨hwhole, fun x hx => contains_whole h hwhole (hx.trans h.1)⟩
    · exact .inr (.inl ⟨hwhole, hplain, stops_four h hwhole⟩)
  · obtain ⟨l, -, hmask, -, -⟩ := h.shape
    have hpart : b.mask ≠ cidrMaskBytes 4 0 := fun he => by
      have hlen := congrArg length (hmask.symm.trans he)
      simp [length_cidrMaskBytes] at hlen
    by_cases haround : Around b
    · exact .inr (.inr ⟨haround, rfl, stops_around h haround⟩)
    · exact .inr (.inl ⟨hpart, haround, stops_sixteen h haround⟩)

section

variable (h : parseCIDR entry = some (ip, b))
include h

theorem hostOf_block (hb : IsCidr n b) (x : IP) :
    HostOf entry x ↔ x ∈ hosts b.ip.length (value b.ip) (value (last b.ip b.mask)) := by
  obtain ⟨l, -, hmask, -, -⟩ := hb.shape
  have hlast : (last b.ip b.mask).length = b.ip.length := by simp [last, hmask, hb.1, length_cidrMaskBytes]
  have heq : ∀ {y z : IP}, y.length = b.ip.length → z.length = b.ip.length → (y = z ↔ value y = value z) :=
    fun hy hz => ⟨fun he => by rw [he], fun he => value_inj (hy.trans hz.symm) he⟩
  rw [mem_hosts (first_le hb) (hb.1 ▸ last_lt hb), HostOf, h]
  refine and_congr_right fun hx => ?_
  rw [hb.inBlock_iff (hx.trans hb.1), Intervals.Iv.Has, blockIv, and_assoc, heq rfl hlast, Ne, heq hx rfl,
    Ne, heq hx hlast]

/-- A block around the IPv4-mapped addresses should list the first of them. -/
theorem hostOf_of_around (hb : IsCidr 16 b) (haround : Around b) : HostOf entry (mapped 0 0 0 0) := by
  obtain ⟨hlo, hhi⟩ := (around_iff hb haround.1).mp haround
  obtain ⟨l, hle, -, hdvd, hsize⟩ := hb.shape
  -- the last address of the block is odd, the first IPv4-mapped one is not
  have heven : 2 ∣ 2 ^ (8 * 16 - l) := by
    refine dvd_pow_self 2 fun hzero => ?_
    rw [hzero] at hsize
    omega
  have hdvd2 : 2 ∣ value b.ip := heven.trans hdvd
  rw [hostOf_block h hb, mem_hosts (first_le hb) (hb.1 ▸ last_lt hb), value_mapped_zero]
  have hstart : mappedStart = 2 * (0xffff * 2 ^ 31) := by norm_num [mappedStart]
  refine ⟨hb.1.symm, hlo.le, hhi, .inr ⟨hlo.ne', fun he => ?_⟩⟩
  omega

theorem expands_block : Expands entry ↔ Expandable entry := by
  obtain ⟨hn, hb⟩ := NetPol.isCidr_parseCIDR h
  have hparse : parseIP entry = some (ip, b) := by rw [parseIP, h]
  have hlen := hb.1
  simp only [Expandable, h]
  rcases left_cases hn hb with ⟨hwhole, hall⟩ | ⟨hpart, hplain, hstops⟩ | ⟨haround, hn16, hstops⟩
  · refine iff_of_false ?_ fun hno => hno.1 hwhole
    rintro ⟨ips, hips, -⟩
    rw [getIPsFromCIDR_none hparse hall] at hips
    simp at hips
  · refine iff_of_true ?_ ⟨hpart, hplain⟩
    exact ⟨_, getIPsFromCIDR_eq hparse hstops, pairwise_hosts hstops.fits,
      nodup_hosts (hlen ▸ hn) hstops.first hstops.fits, fun x => (hostOf_block h hb x).symm⟩
  · refine iff_of_false ?_ fun hno => hno.2 haround
    rintro ⟨ips, hips, -, -, hmem⟩
    rw [hn16] at hb hlen
    have hin : ipString (mapped 0 0 0 0) ∈ ips.map ipString :=
      mem_map_of_mem ((hmem _).mpr (hostOf_of_around h hb haround))
    rw [getIPsFromCIDR_eq hparse hstops, Option.some.injEq] at hips
    rw [← hips] at hin
    obtain ⟨y, hy, hstring⟩ := mem_map.mp hin
    rw [mem_hosts hstops.first hstops.fits, hlen] at hy
    rw [ipString_inj (.inr rfl) hy.1 rfl hstring, value_mapped_zero] at hy
    have hpos : 0 < mappedStart := by rw [mappedStart]; norm_num
    omega

end

/-- An address by itself is the one address of its block. -/
theorem getIPsFromCIDR_host {entry : String} {ip nn : IP} (n : Nat) (hn : n = 4 ∨ n = 16) (hlen : nn.length = n)
    (h : parseIP entry = some (ip, ⟨nn, cidrMaskBytes n (8 * n)⟩)) : getIPsFromCIDR entry = some [ipString nn] := by
  obtain ⟨text, htext⟩ := text_of_parseIP h
  obtain ⟨-, hb⟩ := NetPol.isCidr_parseCIDR htext
  rw [length_cidrMaskBytes] at hb
  have hlast : value (last nn (cidrMaskBytes n (8 * n))) = value nn := by
    have hvalue := value_last nn (8 * n) (by omega)
    rw [hlen, Nat.sub_self] at hvalue
    simpa using hvalue
  rcases left_cases hn hb with ⟨hwhole, -⟩ | ⟨-, -, hstops⟩ | ⟨haround, rfl, -⟩
  · have hbytes : cidrMaskBytes n (8 * n) = cidrMaskBytes 4 0 := hwhole
    rcases hn with rfl | rfl
    · exact absurd hbytes (by decide)
    · exact absurd hbytes (by decide)
  · rw [getIPsFromCIDR_eq h hstops, hosts]
    simp [hlast, ofNat_value rfl]
  · obtain ⟨hlo, hhi⟩ := (around_iff hb haround.1).mp haround
    simp only [hlast] at hhi hlo
    omega

theorem expands_of_text (hc : parseCIDR entry = none) (hi : Net.parseIP entry = some ip)
    (h : getIPsFromCIDR entry = some [ipString ip]) : Expands entry := by
  refine ⟨[ip], h, pairwise_singleton _ _, nodup_singleton _, fun x => ?_⟩
  simp only [HostOf, hc, hi, mem_singleton, Option.some.injEq]
  exact eq_comm

theorem expands_address (hc : parseCIDR entry = none) (hi : Net.parseIP entry = some ip) :
    Expands entry ↔ Expandable entry := by
  have hlen : ip.length = 16 := length_parseIPChars hi
  simp only [Expandable, hc]
  cases hm : mappedText entry with
  | true =>
    refine iff_of_false ?_ (by simp)
    rintro ⟨ips, hips, -, -, hmem⟩
    obtain ⟨ip', hi', hparse⟩ := parseIP_of_mappedText hm
    obtain ⟨text, htext⟩ := text_of_parseIP hparse
    obtain ⟨-, hb⟩ := NetPol.isCidr_parseCIDR htext
    have hstops : Stops mappedNet (mappedStart - 1) := stops_around hb (by decide +kernel)
    -- the list starts right behind the unspecified address
    have hone : ofNat 16 1 ∈ hosts 16 0 (mappedStart - 1) := by
      have hvalue : value (ofNat 16 1) = 1 := by decide
      rw [mem_hosts (zero_le _) (by norm_num [mappedStart]), hvalue]
      norm_num [mappedStart]
    rw [getIPsFromCIDR_eq hparse hstops, Option.some.injEq] at hips
    have hin : ipString (ofNat 16 1) ∈ ips.map ipString := by
      rw [← hips]
      exact mem_map_of_mem hone
    obtain ⟨y, hy, hstring⟩ := mem_map.mp hin
    rw [hmem, HostOf, hc, hi] at hy
    have hy1 : ofNat 16 1 = y := (ipString_inj (.inr rfl) ((Option.some.inj hy) ▸ hlen) rfl hstring).symm
    simp only [mappedText, hi, hy, ← hy1, Bool.and_eq_true] at hm
    exact absurd hm.2 (by decide +kernel)
  | false =>
    refine iff_of_true (expands_of_text hc hi ?_) rfl
    cases h4 : to4 ip with
    | none =>
      refine @getIPsFromCIDR_host entry ip ip 16 (.inr rfl) hlen ?_
      simp only [parseIP, hc, hi, h4]
      exact (parseCIDR_host6 hi h4).1
    | some v =>
      have hbits : bitLen entry.toList = 32 := by
        refine (bitLen_eq entry.toList).resolve_right fun hbits => ?_
        exact absurd hm (by simp [mappedText, hc, hi, h4, hbits])
      obtain ⟨fields, hfields, heq, hn, -⟩ := parseCIDR_host4 hi hbits
      rw [heq, ipString_mapped hfields]
      refine @getIPsFromCIDR_host entry ip fields 4 (.inl rfl) hfields ?_
      simp only [parseIP, hc, hi, h4]
      exact hn

/-- The block of all IPv4 addresses. -/
def AllIPv4 (entry : String) : Prop := ∃ r, parseCIDR entry = some r ∧ r.2.mask = cidrMaskBytes 4 0

/-- The number of the address that a text is read as. -/
def address (s : String) : Nat := value ((Net.parseIP s).getD [])

/-- The expansion of a list ends with what the entries are expanded to, sorted by address. -/
def Sorts (entries : List String) : Prop :=
  ∃ parts out, entries.mapM getIPsFromCIDR = some parts ∧ expandCIDRs entries = some out ∧
    out.Perm parts.flatten ∧ out.Pairwise fun a b => address a ≤ address b

/-- Only the block of all IPv4 addresses has no expansion; others are made of the texts of
addresses. -/
theorem getIPsFromCIDR_cases (h : Parses entry) : (AllIPv4 entry ∧ getIPsFromCIDR entry = none) ∨
    (¬ AllIPv4 entry ∧ ∃ out, getIPsFromCIDR entry = some out ∧
      ∀ s ∈ out, ∃ x : IP, (x.length = 4 ∨ x.length = 16) ∧ s = ipString x) := by
  obtain ⟨⟨ip, b⟩, hparse⟩ := Option.isSome_iff_exists.mp ((parses_iff entry).mp h)
  obtain ⟨text, htext⟩ := text_of_parseIP hparse
  obtain ⟨hn, hb⟩ := NetPol.isCidr_parseCIDR htext
  have hlist : ∀ hi, Stops b hi → ∃ out, getIPsFromCIDR entry = some out ∧
      ∀ s ∈ out, ∃ x : IP, (x.length = 4 ∨ x.length = 16) ∧ s = ipString x := by
    intro hi hstops
    refine ⟨_, getIPsFromCIDR_eq hparse hstops, fun s hs => ?_⟩
    obtain ⟨x, hx, rfl⟩ := mem_map.mp hs
    rw [mem_hosts hstops.first hstops.fits, hb.1] at hx
    exact ⟨x, hx.1 ▸ hn, rfl⟩
  have hnone : (∀ x : IP, x.length = b.ip.length → b.contains x) → getIPsFromCIDR entry = none :=
    getIPsFromCIDR_none hparse
  cases hc : parseCIDR entry with
  | some r =>
    have hr : r = (ip, b) := by
      rw [parseIP, hc] at hparse
      exact Option.some.inj hparse
    have hall : AllIPv4 entry ↔ b.mask = cidrMaskBytes 4 0 := by simp [AllIPv4, hc, hr]
    rcases left_cases hn hb with ⟨hwhole, hinside⟩ | ⟨hpart, -, hstops⟩ | ⟨-, hn16, hstops⟩
    · exact .inl ⟨hall.mpr hwhole, hnone hinside⟩
    · exact .inr ⟨fun he => hpart (hall.mp he), hlist _ hstops⟩
    · refine .inr ⟨fun he => ?_, hlist _ hstops⟩
      have hlen := congrArg length (hall.mp he)
      simp [hn16, length_cidrMaskBytes] at hlen
  | none =>
    have hno : ¬ AllIPv4 entry := by simp [AllIPv4, hc]
    refine .inr ⟨hno, ?_⟩
    obtain ⟨addr, hi⟩ := Option.isSome_iff_exists.mp (h.resolve_left (by simp [hc]))
    cases hm : mappedText entry with
    | false =>
      obtain ⟨ips, hips, -, -, hmem⟩ := (expands_address hc hi).mpr (by simp only [Expandable, hc, hm])
      refine ⟨_, hips, fun s hs => ?_⟩
      obtain ⟨x, hx, rfl⟩ := mem_map.mp hs
      rw [hmem, HostOf, hc] at hx
      exact ⟨x, .inr (length_parseIPChars hx), rfl⟩
    | true =>
      obtain ⟨ip', -, hmapped⟩ := parseIP_of_mappedText hm
      rw [hparse, Option.some.injEq, Prod.mk.injEq] at hmapped
      rw [hmapped.2] at hb hlist
      exact hlist _ (stops_around hb (by decide +kernel))

/-- Sorting keeps the texts and puts them in the order of their addresses. -/
theorem sortIps_spec {ips : List String} (h : ∀ s ∈ ips, ∃ x : IP, (x.length = 4 ∨ x.length = 16) ∧ s = ipString x) :
    (sortIps ips).Perm ips ∧ (sortIps ips).Pairwise fun a b => address a ≤ address b := by
  have hread : ∀ s ∈ ips, ((Net.parseIP s).getD []).length = 16 ∧ ipString ((Net.parseIP s).getD []) = s := by
    intro s hs
    obtain ⟨x, hx, rfl⟩ := h s hs
    rw [parseIP_ipString hx, Option.getD_some]
    split
    · next h4 => exact ⟨by simp [v4InV6Prefix, h4], ipString_mapped h4⟩
    · next h4 => exact ⟨hx.resolve_left h4, rfl⟩
  have hlen : ∀ x ∈ ips.map fun ip => (Net.parseIP ip).getD [], x.length = 16 := by
    intro x hx
    obtain ⟨s, hs, rfl⟩ := mem_map.mp hx
    exact (hread s hs).1
  constructor
  · refine ((perm_insertionSort _ _).map ipString).trans (List.Perm.of_eq ?_)
    rw [map_map]
    exact (map_congr_left fun s hs => (hread s hs).2).trans (map_id _)
  · -- on addresses of one length the order of the bytes is that of the numbers
    have hvalues : ((ips.map fun ip => (Net.parseIP ip).getD []).insertionSort
        fun a b => Bytes.compare a b ≠ .gt).Pairwise fun a b => value a ≤ value b := by
      rw [← pairwise_map, map_insertionSort (fun a b => Bytes.compare a b ≠ .gt) (· ≤ ·) value]
      · exact pairwise_insertionSort _ _
      · intro a ha b hb
        rw [Ne, compare_gt ((hlen a ha).trans (hlen b hb).symm), not_lt]
    rw [sortIps, pairwise_map]
    refine hvalues.imp_of_mem fun {a b} ha hb hab => ?_
    have hself : ∀ x ∈ (ips.map fun ip => (Net.parseIP ip).getD []).insertionSort
        fun a b => Bytes.compare a b ≠ .gt, address (ipString x) = value x := by
      intro x hx
      have h16 := hlen x ((mem_insertionSort _).mp hx)
      rw [address, parseIP_ipString (.inr h16), if_neg (by omega), Option.getD_some]
    rw [hself a ha, hself b hb]
    exact hab

theorem mapM_getIPsFromCIDR_cases (h : ∀ e ∈ entries, Parses e) :
    ((∃ e ∈ entries, AllIPv4 e) ∧ entries.mapM getIPsFromCIDR = none) ∨
    ((∀ e ∈ entries, ¬ AllIPv4 e) ∧ ∃ parts, entries.mapM getIPsFromCIDR = some parts ∧
      ∀ s ∈ parts.flatten, ∃ x : IP, (x.length = 4 ∨ x.length = 16) ∧ s = ipString x) := by
  induction entries with
  | nil => exact .inr ⟨by simp, [], by simp, by simp⟩
  | cons entry rest ih =>
    obtain ⟨hentry, hrest⟩ := forall_mem_cons.mp h
    rw [mapM_cons, forall_mem_cons]
    rcases getIPsFromCIDR_cases hentry with ⟨hall, hnone⟩ | ⟨hno, out, hout, htexts⟩
    · exact .inl ⟨⟨entry, mem_cons_self, hall⟩, by simp [hnone]⟩
    · rcases ih hrest with ⟨⟨e, he, hall⟩, hnone⟩ | ⟨hnos, parts, hparts, hmem⟩
      · exact .inl ⟨⟨e, mem_cons_of_mem _ he, hall⟩, by simp [hout, hnone]⟩
      · refine .inr ⟨⟨hno, hnos⟩, out :: parts, by simp [hout, hparts], fun s hs => ?_⟩
        rw [flatten_cons, mem_append] at hs
        exact hs.elim (htexts s) (hmem s)

theorem sorts_iff (h : ∀ e ∈ entries, Parses e) : Sorts entries ↔ ∀ e ∈ entries, ¬ AllIPv4 e := by
  rcases mapM_getIPsFromCIDR_cases h with ⟨⟨e, he, hall⟩, hnone⟩ | ⟨hno, parts, hparts, hmem⟩
  · refine iff_of_false ?_ fun hnos => hnos e he hall
    rintro ⟨parts, out, hparts, -⟩
    rw [hnone] at hparts
    simp at hparts
  · refine iff_of_true ?_ hno
    obtain ⟨hperm, hsorted⟩ := sortIps_spec hmem
    exact ⟨parts, sortIps parts.flatten, hparts, by rw [expandCIDRs, hparts, Option.map_some], hperm, hsorted⟩

/-- An entry is expanded to its addresses if it can be, and a list of entries to the sorted
list of what they are expanded to if none of them is the block of all IPv4 addresses. -/
theorem expandCIDRs_exact_iff (entry : String) (hentry : Parses entry) (entries : List String)
    (hentries : ∀ e ∈ entries, Parses e) :
    (Expands entry ↔ Expandable entry) ∧ (Sorts entries ↔ ∀ e ∈ entries, ¬ AllIPv4 e) := by
  refine ⟨?_, sorts_iff hentries⟩
  cases hc : parseCIDR entry with
  | some r => exact expands_block hc
  | none =>
    obtain ⟨ip, hi⟩ := Option.isSome_iff_exists.mp (hentry.resolve_left (by simp [hc]))
    exact expands_address hc hi

theorem expandCIDRs_exact_pool : Parses "10.0.0.4/30" ∧ Parses "10.0.0.9" ∧ Expands "10.0.0.4/30" ∧
    Sorts ["10.0.0.9", "10.0.0.4/30"] := by
  have hblock : parseCIDR "10.0.0.4/30" = some (mapped 10 0 0 4, ⟨[10, 0, 0, 4], cidrMaskBytes 4 30⟩) := by decide
  have haddress : parseCIDR "10.0.0.9" = none := by decide
  have hparses : Parses "10.0.0.4/30" ∧ Parses "10.0.0.9" := by decide
  have hmain := expandCIDRs_exact_iff "10.0.0.4/30" hparses.1 ["10.0.0.9", "10.0.0.4/30"]
    (by simpa using hparses.symm)
  refine ⟨hparses.1, hparses.2, hmain.1.mpr ?_, hmain.2.mpr ?_⟩
  · simp only [Expandable, hblock]
    decide
  · rintro e he ⟨r, hr, hwhole⟩
    rcases mem_pair.mp he with rfl | rfl
    · exact absurd (haddress.symm.trans hr) (by simp)
    · rw [← Option.some.inj (hblock.symm.trans hr)] at hwhole
      exact absurd hwhole (by decide)

/-- The loop over all IPv4 addresses goes on from the last one to the first. -/
theorem expandCIDRs_exact_fails : Parses "0.0.0.0/0" ∧ ¬ Expands "0.0.0.0/0" ∧ ¬ Sorts ["0.0.0.0/0"] ∧
    ∀ fuel, cidrLoop ⟨[0, 0, 0, 0], [0, 0, 0, 0]⟩ fuel [0, 0, 0, 0] = none := by
  have hblock : parseCIDR "0.0.0.0/0" = some (mapped 0 0 0 0, ⟨[0, 0, 0, 0], cidrMaskBytes 4 0⟩) := by decide
  have hparses : Parses "0.0.0.0/0" := by decide
  obtain ⟨-, hb⟩ := NetPol.isCidr_parseCIDR hblock
  refine ⟨hparses, ?_, ?_, fun fuel => ?_⟩
  · rw [expands_block hblock]
    simp [Expandable, hblock]
  · rw [sorts_iff (by simpa using hparses)]
    simp [AllIPv4, hblock]
  · exact cidrLoop_all (fun x hx => contains_whole hb rfl hx) fuel rfl

end AciContainers.Snat
