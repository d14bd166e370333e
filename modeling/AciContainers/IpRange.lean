import AciContainers.IpAlloc

/-!
# Ranges as CIDR blocks

`Range2Cidr` of `pkg/ipam/iprange.go` splits an address range into CIDR blocks: from the
first address it takes the widest block that starts there and does not pass the end, and
goes on behind that block. Of each length at most two blocks are needed, which bounds
the turns of the loop.
-/
namespace AciContainers.Ipam

open Bytes Net

/-- The successor and whether the carry was absorbed. -/
def nextCarry : ByteString → ByteString × Bool
  | [] => ([], false)
  | b :: bs =>
    let (out, copy) := nextCarry bs
    if copy then (b :: out, true)
    else if b < 255 then ((b + 1) :: out, true)
    else (0 :: out, false)

def next (ip : IP) : IP := (nextCarry ip).1

/-- The shortest prefix length with which the block of `start` starts at `start` and ends by
`stop`. -/
def prefixLength (start stop : IP) : Nat → Nat
  | 0 => 0
  | l + 1 =>
    let m := cidrMaskBytes start.length l
    if Bytes.compare start ((mask start m).getD []) ≠ .eq ∨
        Bytes.compare (last start m) stop = .gt then l + 1
    else prefixLength start stop l

def range2CidrLoop : Nat → IP → IP → List IPNet
  | 0, _, _ => []
  | fuel + 1, start, stop =>
    if Bytes.compare start stop = .gt then []
    else
      let m := cidrMaskBytes start.length (prefixLength start stop (8 * start.length))
      let lastAddr := last start m
      if lastAddr.all (· = 0xff) then [⟨start, m⟩]
      else ⟨start, m⟩ :: range2CidrLoop fuel (next lastAddr) stop

def range2Cidr (start stop : IP) : List IPNet := range2CidrLoop (16 * start.length) start stop

example : (range2Cidr [10, 0, 0, 1] [10, 0, 0, 6]).map IPNet.string =
    ["10.0.0.1/32", "10.0.0.2/31", "10.0.0.4/31", "10.0.0.6/32"] := by decide

/-!
# Ranges as CIDR blocks: exact and minimal

In numbers a mask rounds an address down to a multiple of the size of its block, `last`
goes to the end of the block and `next` adds one. So the list is the greedy cover of the
range: exact, ascending, and no cover by blocks is shorter. It has at most two blocks of
each size, which is why the loop ends.
-/

open Intervals List Nat

variable {l n : Nat} {ip : IP} {b : IPNet}

theorem maskByte_and : ∀ (l : Fin 8) (b : Fin 256),
    (UInt8.ofNat b &&& ~~~ (0xff >>> UInt8.ofNat l)).toNat = b / 2 ^ (8 - l.val) * 2 ^ (8 - l.val) := by
  decide +kernel

theorem toNat_and_maskByte (b : UInt8) (h : l < 8) :
    (b &&& ~~~ (0xff >>> UInt8.ofNat l)).toNat = b.toNat / 2 ^ (8 - l) * 2 ^ (8 - l) := by
  have hb := maskByte_and ⟨l, h⟩ ⟨b.toNat, byte_lt b⟩
  simpa using hb

theorem pow_bytes (n : Nat) : 256 ^ n = 2 ^ (8 * n) := by
  rw [Nat.pow_mul]

/-- Rounding down leaves a leading digit alone whose weight is a multiple of the size. -/
theorem round_digit (b v : Nat) {h : Nat} (hh : h ≤ 8 * n) :
    (b * 256 ^ n + v) / 2 ^ h * 2 ^ h = b * 256 ^ n + v / 2 ^ h * 2 ^ h := by
  obtain ⟨c, hc⟩ : 2 ^ h ∣ 256 ^ n := by
    rw [pow_bytes]
    exact pow_dvd_pow 2 hh
  have hassoc : b * 256 ^ n = 2 ^ h * (b * c) := by
    rw [hc]
    ring
  rw [hassoc, Nat.mul_add_div (Nat.two_pow_pos h), Nat.add_mul, Nat.mul_comm (b * c)]

/-- Rounding down to more than the weight of the leading digit rounds that digit. -/
theorem round_leading (b : Nat) {v : Nat} (hv : v < 256 ^ n) (hl : l < 8) :
    (b * 256 ^ n + v) / 2 ^ (8 * (n + 1) - l) * 2 ^ (8 * (n + 1) - l) = b / 2 ^ (8 - l) * 2 ^ (8 - l) * 256 ^ n := by
  have hpow : 2 ^ (8 * (n + 1) - l) = 256 ^ n * 2 ^ (8 - l) := by
    rw [pow_bytes, ← pow_add]
    congr 1
    omega
  have hdiv : (b * 256 ^ n + v) / 256 ^ n = b := by
    rw [mul_comm, mul_add_div (by positivity), div_eq_of_lt hv, add_zero]
  rw [hpow, ← Nat.div_div_eq_div_mul, hdiv]
  ring

/-- Masking rounds down to the first address of the block. -/
theorem value_and_cidrMask (ip : IP) (l : Nat) (hl : l ≤ 8 * ip.length) :
    value (zipWith (· &&& ·) ip (cidrMaskBytes ip.length l)) =
      value ip / 2 ^ (8 * ip.length - l) * 2 ^ (8 * ip.length - l) := by
  induction ip generalizing l with
  | nil =>
    have hzero : l = 0 := by simpa using hl
    simp [hzero, cidrMaskBytes]
  | cons b bs ih =>
    rw [length_cons, cidrMaskBytes]
    by_cases h8 : 8 ≤ l
    · have hones : b &&& 0xff = b := (UInt8.and_comm b 0xff).trans (ones_and b)
      have hbits : 8 * (bs.length + 1) - l = 8 * bs.length - (l - 8) := by omega
      rw [if_pos h8, zipWith_cons_cons, hones, value_cons, value_cons, hbits,
        round_digit _ _ (by omega), ih (l - 8) (by rw [length_cons] at hl; omega)]
      simp [length_cidrMaskBytes]
    · have hrest := ih 0 (zero_le _)
      rw [Nat.sub_zero, Nat.div_eq_of_lt (by rw [← pow_bytes]; exact value_lt bs), Nat.zero_mul] at hrest
      rw [if_neg h8, zipWith_cons_cons, value_cons, value_cons, hrest,
        round_leading _ (value_lt bs) (by omega), toNat_and_maskByte b (by omega)]
      simp [length_cidrMaskBytes]

theorem value_not (a : ByteString) : value (a.map (~~~ ·)) + value a + 1 = 256 ^ a.length := by
  induction a with
  | nil => rfl
  | cons b bs ih =>
    have hb : (~~~ b).toNat + b.toNat = 255 := by
      have hlt := byte_lt b
      rw [UInt8.toNat_not, UInt8.size]
      omega
    have hsum : (~~~ b).toNat * 256 ^ bs.length + b.toNat * 256 ^ bs.length = 255 * 256 ^ bs.length := by
      rw [← add_mul, hb]
    rw [map_cons, value_cons, value_cons, length_map, length_cons, pow_succ]
    omega

/-- `last` goes to the last address of the block. -/
theorem value_last (ip : IP) (l : Nat) (hl : l ≤ 8 * ip.length) : value (last ip (cidrMaskBytes ip.length l)) =
      value ip / 2 ^ (8 * ip.length - l) * 2 ^ (8 * ip.length - l) + (2 ^ (8 * ip.length - l) - 1) := by
  have hlast : last ip (cidrMaskBytes ip.length l) =
      (zipWith (· &&& ·) (ip.map (~~~ ·)) (cidrMaskBytes ip.length l)).map (~~~ ·) := by
    have hbyte : ∀ b m : UInt8, ~~~ (~~~ b &&& m) = b ||| ~~~ m := fun b m => by
      rw [← UInt8.toBitVec_inj]
      simp [BitVec.not_and]
    simp [last, map_zipWith, zipWith_map_left, hbyte]
  have hand := value_and_cidrMask (ip.map (~~~ ·)) l (by rw [length_map]; exact hl)
  have hnot := value_not (zipWith (· &&& ·) (ip.map (~~~ ·)) (cidrMaskBytes ip.length l))
  have hip := value_not ip
  rw [length_map] at hand
  rw [hand, ← hlast, length_zipWith, length_map, length_cidrMaskBytes, min_self] at hnot
  have hsize : 256 ^ ip.length = 2 ^ (8 * ip.length - l) * 2 ^ l := by
    rw [pow_bytes, ← pow_add, Nat.sub_add_cancel hl]
  have hpos := Nat.two_pow_pos (8 * ip.length - l)
  generalize 2 ^ (8 * ip.length - l) = s at *
  have hflip : value (ip.map (~~~ ·)) = s * 2 ^ l - (value ip + 1) := by omega
  have hlt : value ip / s + 1 ≤ 2 ^ l := Nat.div_lt_of_lt_mul (by omega)
  have hle := Nat.mul_le_mul_left s hlt
  rw [hflip, Nat.mul_sub_div _ _ _ (by omega), Nat.sub_mul, Nat.mul_comm (2 ^ l)] at hnot
  rw [Nat.mul_comm s, Nat.add_mul, Nat.one_mul] at hle
  rw [Nat.add_mul, Nat.one_mul] at hnot
  omega

theorem nextCarry_eq (ip : ByteString) : nextCarry ip = ((carryIncrement ip).1, !(carryIncrement ip).2) := by
  induction ip with
  | nil => rfl
  | cons b bs ih =>
    simp only [nextCarry, carryIncrement, ih]
    cases (carryIncrement bs).2 with
    | false => rfl
    | true =>
      by_cases hb : b < 255
      · simp [hb]
      · simp [hb]

/-- Both steps are addition modulo the number of addresses, each undoes the other, and the carry
tells the wrap. -/
theorem carry_steps (a : ByteString) :
    (carryDecrement (carryIncrement a).1).1 = a ∧ (carryIncrement (carryDecrement a).1).1 = a ∧
      value (carryIncrement a).1 = (value a + 1) % 256 ^ a.length ∧
      value (carryDecrement a).1 = (value a + (256 ^ a.length - 1)) % 256 ^ a.length ∧
      ((carryIncrement a).2 ↔ value a + 1 = 256 ^ a.length) ∧ ((carryDecrement a).2 ↔ value a = 0) ∧
      next a = (carryIncrement a).1 := by
  have hlt := value_lt a
  refine ⟨value_inj (by simp) ?_, value_inj (by simp) ?_, value_increment a, ?_, ?_, ?_, by rw [next, nextCarry_eq]⟩
  · have hback := decrement_spec (carryIncrement a).1
    rw [length_carryIncrement] at hback
    rcases increment_spec a with h | h <;> omega
  · have hnext := increment_spec (carryDecrement a).1
    rw [length_carryDecrement] at hnext
    rcases decrement_spec a with h | h <;> omega
  · rcases decrement_spec a with h | h
    · have hsum : value a + (256 ^ a.length - 1) = value (carryDecrement a).1 + 256 ^ a.length := by omega
      rw [hsum, add_mod_right, mod_eq_of_lt (by omega)]
    · rw [mod_eq_of_lt (by omega)]
      omega
  · rcases increment_spec a with h | h
    · simp only [h.1, Bool.false_eq_true, false_iff]
      omega
    · simp [h]
  · rcases decrement_spec a with h | h
    · simp only [h.1, Bool.false_eq_true, false_iff]
      omega
    · simp [h]

theorem length_next (ip : IP) : (next ip).length = ip.length := by
  simp [next, nextCarry_eq]

theorem value_next (h : value ip + 1 < 256 ^ ip.length) : value (next ip) = value ip + 1 := by
  rw [next, nextCarry_eq]
  exact increment_of_lt h

/-- The last address of all has every bit set. -/
theorem all_ones_iff (ip : IP) : ip.all (· = 0xff) = true ↔ value ip + 1 = 256 ^ ip.length := by
  induction ip with
  | nil => simp
  | cons b bs ih =>
    have hv := value_lt bs
    have hb := byte_lt b
    rw [all_cons, Bool.and_eq_true, ih, value_cons, length_cons, pow_succ, decide_eq_true_eq]
    constructor
    · rintro ⟨rfl, hrest⟩
      have h255 : (0xff : UInt8).toNat = 255 := rfl
      rw [h255]
      omega
    · intro heq
      have h255 : b.toNat = 255 := by
        by_contra hne
        have hle : (b.toNat + 1) * 256 ^ bs.length ≤ 255 * 256 ^ bs.length := mul_le_mul_right _ (by omega)
        rw [add_mul, one_mul] at hle
        omega
      refine ⟨UInt8.toNat_inj.mp h255, ?_⟩
      rw [h255] at heq
      omega

theorem mask_of_length {ip : IP} {m : IPMask} (h : ip.length = m.length) :
    mask ip m = some (zipWith (· &&& ·) ip m) := by
  have hop : maskOperands ip m = (ip, m) := by
    unfold maskOperands
    rw [h]
    have hone : ¬ (m.length = 16 ∧ m.length = 4 ∧ (m.take 12).all (· = 0xff) = true) := by omega
    have htwo : ¬ (m.length = 4 ∧ m.length = 16 ∧ ip.take 12 = v4InV6Prefix) := by omega
    simp only [if_neg hone, if_neg htwo]
  rw [mask, hop, if_pos h]

/-- A CIDR block of addresses of `n` bytes: a mask of Go's `CIDRMask`, and no bits of the
address outside of it. -/
def IsCidr (n : Nat) (b : IPNet) : Prop :=
  b.ip.length = n ∧ (∃ l, cidrMask l (8 * n) = some b.mask) ∧ mask b.ip b.mask = some b.ip

/-- The address is in the block. -/
def InBlock (b : IPNet) (ip : IP) : Prop := mask ip b.mask = some b.ip

def blockIv (b : IPNet) : Iv := ⟨value b.ip, value (last b.ip b.mask)⟩

theorem cidrMask_some {l n : Nat} {m : IPMask} (h : cidrMask l (8 * n) = some m) :
    l ≤ 8 * n ∧ m = cidrMaskBytes n l := by
  unfold cidrMask at h
  split at h
  · next hl =>
    rw [Nat.mul_div_cancel_left n (by omega)] at h
    exact ⟨hl.2, (Option.some.inj h).symm⟩
  · simp at h

/-- A block is the multiple of its size that it starts at. -/
theorem IsCidr.shape (h : IsCidr n b) : ∃ l ≤ 8 * n, b.mask = cidrMaskBytes n l ∧ 2 ^ (8 * n - l) ∣ value b.ip ∧
      value (last b.ip b.mask) + 1 = value b.ip + 2 ^ (8 * n - l) := by
  obtain ⟨hlen, ⟨l, hl⟩, hmask⟩ := h
  obtain ⟨hle, hm⟩ := cidrMask_some hl
  rw [mask_of_length (by rw [hlen, hm, length_cidrMaskBytes]), Option.some.injEq] at hmask
  have hround := value_and_cidrMask b.ip l (by omega)
  have hlast := value_last b.ip l (by omega)
  have hpos := Nat.two_pow_pos (8 * n - l)
  rw [hlen, ← hm, hmask] at hround
  rw [hlen, ← hm, ← hround] at hlast
  exact ⟨l, hle, hm, ⟨_, hround.trans (mul_comm _ _)⟩, by omega⟩

theorem IsCidr.aligned (h : IsCidr n b) : Aligned (blockIv b) := by
  obtain ⟨l, -, -, hdvd, hsize⟩ := h.shape
  exact ⟨8 * n - l, hdvd, hsize⟩

theorem IsCidr.inBlock_iff (h : IsCidr n b) (hip : ip.length = n) : InBlock b ip ↔ (blockIv b).Has (value ip) := by
  obtain ⟨l, hle, hm, ⟨c, hc⟩, hsize⟩ := h.shape
  have hpos := Nat.two_pow_pos (8 * n - l)
  have hround := value_and_cidrMask ip l (by omega)
  have hlen : (zipWith (· &&& ·) ip b.mask).length = b.ip.length := by
    rw [h.1, hm]
    simp [hip, length_cidrMaskBytes]
  rw [hip, ← hm] at hround
  rw [InBlock, mask_of_length (by rw [hip, hm, length_cidrMaskBytes]), Option.some.injEq, Iv.Has, blockIv]
  dsimp only
  constructor
  · intro heq
    rw [heq] at hround
    have hmod := div_add_mod' (value ip) (2 ^ (8 * n - l))
    omega
  · rintro ⟨hlo, hhi⟩
    have hdiv : value ip / 2 ^ (8 * n - l) = c := by
      refine Nat.div_eq_of_lt_le (by rw [Nat.mul_comm]; omega) ?_
      rw [Nat.add_mul, Nat.one_mul, Nat.mul_comm c]
      omega
    exact value_inj hlen (by rw [hround, hdiv, hc, mul_comm])

/-- A block is known by its interval. -/
theorem blockIv_inj {a : IPNet} (ha : IsCidr n a) (hb : IsCidr n b) (h : blockIv a = blockIv b) : a = b := by
  obtain ⟨k, hk, hmask, -, hsize⟩ := ha.shape
  obtain ⟨l, hl, hmask', -, hsize'⟩ := hb.shape
  rw [blockIv, blockIv, Iv.mk.injEq] at h
  have hip : a.ip = b.ip := value_inj (ha.1.trans hb.1.symm) h.1
  have hpow : 2 ^ (8 * n - k) = 2 ^ (8 * n - l) := by omega
  have hbits := Nat.pow_right_injective (Nat.le_refl 2) hpow
  have hlen : k = l := by omega
  cases a
  cases b
  simp_all

section Turn

variable {start stop : IP} (hs : start.length = n) (he : stop.length = n)
include hs he

/-- The test of the inner loop asks whether the block of that length fits. -/
theorem block_test {l : Nat} (hl : l ≤ 8 * n) :
    (Bytes.compare start ((mask start (cidrMaskBytes start.length l)).getD []) ≠ .eq ∨
        Bytes.compare (last start (cidrMaskBytes start.length l)) stop = .gt) ↔
      ¬ Fits (value start) (value stop) (8 * n - l) := by
  have hmask := @mask_of_length start (cidrMaskBytes start.length l) (length_cidrMaskBytes _ l).symm
  have hround := value_and_cidrMask start l (by omega)
  have hlast := value_last start l (by omega)
  have hwidth : (zipWith (· &&& ·) start (cidrMaskBytes start.length l)).length = n := by
    simp [length_cidrMaskBytes, hs]
  have hlwidth : (last start (cidrMaskBytes start.length l)).length = n := by
    simp [last, length_cidrMaskBytes, hs]
  have hdvd : value start / 2 ^ (8 * n - l) * 2 ^ (8 * n - l) = value start ↔ 2 ^ (8 * n - l) ∣ value start :=
    ⟨fun h => ⟨_, (h.symm.trans (Nat.mul_comm _ _))⟩, Nat.div_mul_cancel⟩
  rw [hmask, Option.getD_some, ne_eq, compare_eq_iff hs hwidth, compare_gt_iff hlwidth he, hround, hlast, hs,
    Fits, ← hdvd]
  constructor
  · rintro (hne | hgt) ⟨heq, hend⟩
    · exact hne heq.symm
    · omega
  · intro hno
    by_cases heq : value start = value start / 2 ^ (8 * n - l) * 2 ^ (8 * n - l)
    · refine Or.inr (Nat.lt_of_not_le fun hle => hno ⟨heq.symm, ?_⟩)
      omega
    · exact Or.inl heq

/-- The inner loop ends at the largest block that fits. -/
theorem prefixLength_spec (l : Nat) (hl : l ≤ 8 * n) (hfits : Fits (value start) (value stop) (8 * n - l)) :
    prefixLength start stop l ≤ 8 * n ∧ Fits (value start) (value stop) (8 * n - prefixLength start stop l) ∧
      ¬ Fits (value start) (value stop) (8 * n - prefixLength start stop l + 1) := by
  induction l with
  | zero =>
    refine ⟨zero_le _, hfits, fun htwice => ?_⟩
    have hbound := value_lt stop
    have hend := htwice.2
    rw [he, pow_bytes] at hbound
    simp only [prefixLength, Nat.sub_zero] at hend
    omega
  | succ l ih =>
    have htest := block_test hs he (show l ≤ 8 * n by omega)
    rw [prefixLength]
    by_cases hlarger : Fits (value start) (value stop) (8 * n - l)
    · simp only [if_neg (mt htest.mp (not_not.mpr hlarger))]
      exact ih (by omega) hlarger
    · simp only [if_pos (htest.mpr hlarger)]
      refine ⟨hl, hfits, ?_⟩
      rwa [show 8 * n - (l + 1) + 1 = 8 * n - l by omega]

end Turn

variable {l : List Iv} {blocks : List IPNet} {r : IpRange}

/-- The loop computes the greedy cover once it has a turn for each block. -/
theorem range2CidrLoop_greedy {n : Nat} (hn : n = 4 ∨ n = 16) {stop : IP} (he : stop.length = n)
    {s e : Nat} (h : Greedy s e l) (hend : value stop = e) (start : IP) (hs : start.length = n)
    (hstart : value start = s) (fuel : Nat) (hfuel : l.length ≤ fuel) :
    (range2CidrLoop fuel start stop).map blockIv = l ∧ ∀ b ∈ range2CidrLoop fuel start stop, IsCidr n b := by
  induction h generalizing start fuel with
  | done hlt =>
    cases fuel with
    | zero => simp [range2CidrLoop]
    | succ fuel =>
      have hgt : Bytes.compare start stop = .gt := (compare_gt_iff hs he).mpr (by omega)
      simp [range2CidrLoop, hgt]
  | @block s e k l hfits hmax hrest ih =>
    obtain ⟨fuel, rfl⟩ : ∃ f, fuel = f + 1 := ⟨fuel - 1, by rw [length_cons] at hfuel; omega⟩
    have hkpos := Nat.two_pow_pos k
    have hle : Bytes.compare start stop ≠ .gt := by
      rw [ne_eq, compare_gt_iff hs he]
      have hin := hfits.2
      omega
    have hfits₀ : Fits (value start) (value stop) (8 * n - 8 * n) := by
      rw [hstart, hend]
      exact hfits.of_le (by omega)
    obtain ⟨hlen, hfit, hover⟩ := prefixLength_spec hs he (8 * n) (le_refl _) hfits₀
    -- the length of the inner loop is the one of the greedy block
    have hk : 8 * n - prefixLength start stop (8 * n) = k := by
      rw [hstart, hend] at hfit hover
      rcases lt_trichotomy (8 * n - prefixLength start stop (8 * n)) k with hlt | heq | hgt
      · exact absurd (hfits.of_le hlt) hover
      · exact heq
      · exact absurd (hfit.of_le hgt) hmax
    rw [range2CidrLoop, if_neg hle, hs]
    generalize prefixLength start stop (8 * n) = p at hlen hk
    have hround := value_and_cidrMask start p (by omega)
    have hlast := value_last start p (by omega)
    have hlwidth : (last start (cidrMaskBytes n p)).length = n := by
      simp [last, length_cidrMaskBytes, hs]
    have hcancel : s / 2 ^ k * 2 ^ k = s := Nat.div_mul_cancel hfits.1
    rw [hs, hk, hstart, hcancel] at hround hlast
    have hmask : zipWith (· &&& ·) start (cidrMaskBytes n p) = start :=
      value_inj (by simp [length_cidrMaskBytes, hs]) (hround.trans hstart.symm)
    have hcidr : IsCidr n ⟨start, cidrMaskBytes n p⟩ := by
      refine ⟨hs, ⟨p, ?_⟩, ?_⟩
      · rw [cidrMask, if_pos ⟨by omega, hlen⟩, Nat.mul_div_cancel_left n (by omega)]
      · rw [mask_of_length (by rw [hs, length_cidrMaskBytes]), hmask]
    have hblock : blockIv ⟨start, cidrMaskBytes n p⟩ = ⟨s, s + 2 ^ k - 1⟩ := by
      rw [blockIv]
      rw [hlast, hstart, Nat.add_sub_assoc (by omega)]
    by_cases htop : (last start (cidrMaskBytes n p)).all (· = 0xff) = true
    · -- the block reaches the last address of all, and so does the range
      rw [if_pos htop]
      have hones := (all_ones_iff _).mp htop
      rw [hlast, hlwidth] at hones
      have hbound := value_lt stop
      rw [he] at hbound
      have hnil : l = [] := by
        cases hrest with
        | done hlt => rfl
        | @block _ _ j _ hfits' _ _ =>
          have hmore := hfits'.2
          have hjpos := Nat.two_pow_pos j
          omega
      refine ⟨by simp [hblock, hnil], ?_⟩
      intro b hb
      rw [mem_singleton.mp hb]
      exact hcidr
    · rw [if_neg htop]
      have hnot := mt (all_ones_iff _).mpr htop
      have hlt := value_lt (last start (cidrMaskBytes n p))
      rw [hlast, hlwidth] at hnot
      rw [hlwidth] at hlt
      have hnext : value (next (last start (cidrMaskBytes n p))) = s + 2 ^ k := by
        rw [value_next (by rw [hlwidth]; omega), hlast]
        omega
      obtain ⟨hmap, hall⟩ := ih hend (next (last start (cidrMaskBytes n p))) (by rw [length_next, hlwidth]) hnext fuel
        (by rw [length_cons] at hfuel; omega)
      exact ⟨by rw [map_cons, hmap, hblock], forall_mem_cons.mpr ⟨hcidr, hall⟩⟩

/-- Two blocks of each size are enough turns. -/
theorem greedy_length_le {n : Nat} (hn : n = 4 ∨ n = 16) {s : Nat} {stop : IP} (he : stop.length = n)
    (h : Greedy s (value stop) l) : l.length ≤ 16 * n := by
  have hbound := value_lt stop
  rw [he, pow_bytes] at hbound
  have hlen := h.length_le (by omega) hbound
  omega

/-- What a list of networks has to be for a range: blocks in ascending order, disjoint, and
together the range. -/
structure CidrCover (n : Nat) (r : IpRange) (blocks : List IPNet) : Prop where
  aligned : ∀ b ∈ blocks, IsCidr n b
  ascending : blocks.Pairwise fun a b => Bytes.compare a.ip b.ip = .lt
  disjoint : blocks.Pairwise fun a b => ∀ ip : IP, ip.length = n → InBlock a ip → ¬ InBlock b ip
  union : ∀ ip : IP, ip.length = n → ((∃ b ∈ blocks, InBlock b ip) ↔ r.Contains ip)

theorem covers_blocks {n : Nat} (h : ∀ b ∈ blocks, IsCidr n b) {ip : IP} (hip : ip.length = n) :
    (∃ b ∈ blocks, InBlock b ip) ↔ Covers (blocks.map blockIv) (value ip) := by
  simp only [Covers, mem_map, exists_exists_and_eq_and]
  exact exists_congr fun b => and_congr_right fun hb => (h b hb).inBlock_iff hip

/-- Blocks whose intervals are the greedy cover of a range. -/
theorem cidrCover_of_greedy {n : Nat} (hr : r.Width n) (h : Greedy (value r.start) (value r.stop) l)
    (hmap : blocks.map blockIv = l) (hcidr : ∀ b ∈ blocks, IsCidr n b) : CidrCover n r blocks := by
  have hsep := h.separated
  rw [← hmap, Separated, pairwise_map] at hsep
  refine ⟨hcidr, ?_, ?_, fun ip hip => ?_⟩
  · refine hsep.imp_of_mem fun ha hb hab => ?_
    obtain ⟨k, -, hsize⟩ := (hcidr _ ha).aligned
    have hpos := Nat.two_pow_pos k
    rw [compare_lt_iff (hcidr _ ha).1 (hcidr _ hb).1]
    simp only [blockIv] at hab hsize
    omega
  · refine hsep.imp_of_mem fun ha hb hab ip hip hxa hxb => ?_
    have hina := ((hcidr _ ha).inBlock_iff hip).mp hxa
    have hinb := ((hcidr _ hb).inBlock_iff hip).mp hxb
    exact absurd (le_trans hinb.1 hina.2) (Nat.not_le_of_lt hab)
  · rw [covers_blocks hcidr hip, hmap, h.covers, contains_iff hr hip]
    rfl

theorem range2Cidr_greedy {n : Nat} (hn : n = 4 ∨ n = 16) {start stop : IP} (hs : start.length = n)
    (he : stop.length = n) : ∃ l, Greedy (value start) (value stop) l ∧ (range2Cidr start stop).map blockIv = l ∧
      (∀ b ∈ range2Cidr start stop, IsCidr n b) ∧
      ∀ fuel, 16 * n ≤ fuel → range2CidrLoop fuel start stop = range2Cidr start stop := by
  obtain ⟨l, hl⟩ := exists_greedy (value start) (value stop)
  have hlen := greedy_length_le hn he hl
  have hloop := range2CidrLoop_greedy hn he hl rfl start hs rfl
  obtain ⟨hmap, hcidr⟩ := hloop (16 * start.length) (by rw [hs]; exact hlen)
  refine ⟨l, hl, hmap, hcidr, fun fuel hfuel => ?_⟩
  obtain ⟨hmap', hcidr'⟩ := hloop fuel (le_trans hlen hfuel)
  exact map_inj_of (fun _ _ => blockIv_inj) hcidr' hcidr (hmap'.trans hmap.symm)

theorem cidrCover_range2Cidr {n : Nat} (hn : n = 4 ∨ n = 16) (hr : r.Width n) :
    CidrCover n r (range2Cidr r.start r.stop) := by
  obtain ⟨l, hl, hmap, hcidr, -⟩ := range2Cidr_greedy hn hr.1 hr.2
  exact cidrCover_of_greedy hr hl hmap hcidr

/-- The blocks of a range are exact, and no further turn of the loop would change them. -/
theorem range2Cidr_cover (n : Nat) (hn : n = 4 ∨ n = 16) (start stop : IP) (hs : start.length = n)
    (he : stop.length = n) : CidrCover n ⟨start, stop⟩ (range2Cidr start stop) ∧
      ∀ fuel, 16 * n ≤ fuel → range2CidrLoop fuel start stop = range2Cidr start stop := by
  obtain ⟨l, hl, hmap, hcidr, hfuel⟩ := range2Cidr_greedy hn hs he
  exact ⟨cidrCover_of_greedy ⟨hs, he⟩ hl hmap hcidr, hfuel⟩

/-- Up to the last address of all. -/
theorem range2Cidr_cover_top : CidrCover 4 ⟨[255, 255, 255, 253], [255, 255, 255, 255]⟩
        [⟨[255, 255, 255, 253], [255, 255, 255, 255]⟩, ⟨[255, 255, 255, 254], [255, 255, 255, 254]⟩] ∧
      ∀ fuel, 64 ≤ fuel → range2CidrLoop fuel [255, 255, 255, 253] [255, 255, 255, 255] =
        [⟨[255, 255, 255, 253], [255, 255, 255, 255]⟩, ⟨[255, 255, 255, 254], [255, 255, 255, 254]⟩] := by
  have h := range2Cidr_cover 4 (Or.inl rfl) [255, 255, 255, 253] [255, 255, 255, 255] rfl rfl
  exact h

/-- No list of blocks for the same addresses is shorter. -/
theorem range2Cidr_minimal (n : Nat) (hn : n = 4 ∨ n = 16) (start stop : IP) (hs : start.length = n)
    (he : stop.length = n) (blocks : List IPNet) (hcidr : ∀ b ∈ blocks, IsCidr n b)
    (hunion : ∀ ip : IP, ip.length = n → ((∃ b ∈ blocks, InBlock b ip) ↔ (IpRange.mk start stop).Contains ip)) :
    (range2Cidr start stop).length ≤ blocks.length := by
  obtain ⟨l, hl, hmap, -, -⟩ := range2Cidr_greedy hn hs he
  have hnum : ∀ x < 256 ^ n, Covers (blocks.map blockIv) x ↔ value start ≤ x ∧ x ≤ value stop := by
    intro x hx
    have hu := hunion (ofNat n x) (length_ofNat n x)
    rw [covers_blocks hcidr (length_ofNat n x), contains_iff ⟨hs, he⟩ (length_ofNat n x), value_ofNat n x hx] at hu
    exact hu
  have hopt := hl.optimal (blocks.map blockIv) (fun r hr => ?_) fun x => ?_
  · rw [← length_map blockIv, hmap]
    simpa using hopt
  · obtain ⟨b, hb, rfl⟩ := mem_map.mp hr
    exact (hcidr b hb).aligned
  · constructor
    · intro hx
      refine (hnum x ?_).mp hx
      obtain ⟨r, hr, hin⟩ := hx
      obtain ⟨b, hb, rfl⟩ := mem_map.mp hr
      have hlast := value_lt (last b.ip b.mask)
      obtain ⟨k, -, hmask, -, -⟩ := (hcidr b hb).shape
      have hlen : (last b.ip b.mask).length = n := by
        rw [hmask]
        simp [last, length_cidrMaskBytes, (hcidr b hb).1]
      rw [hlen] at hlast
      exact lt_of_le_of_lt hin.2 hlast
    · intro hx
      have hbound := value_lt stop
      rw [he] at hbound
      exact (hnum x (by omega)).mpr hx

/-- Two addresses as two blocks: the list of `range2Cidr` has one. -/
theorem range2Cidr_minimal_pair : (range2Cidr [10, 0, 0, 2] [10, 0, 0, 3]).length = 1 ∧
      (range2Cidr [10, 0, 0, 2] [10, 0, 0, 3]).length ≤
        [IPNet.mk [10, 0, 0, 2] [255, 255, 255, 255], IPNet.mk [10, 0, 0, 3] [255, 255, 255, 255]].length := by
  have htwo : IsCidr 4 ⟨[10, 0, 0, 2], [255, 255, 255, 255]⟩ := ⟨rfl, ⟨32, rfl⟩, by decide⟩
  have hthree : IsCidr 4 ⟨[10, 0, 0, 3], [255, 255, 255, 255]⟩ := ⟨rfl, ⟨32, rfl⟩, by decide⟩
  refine ⟨by decide +kernel, range2Cidr_minimal 4 (Or.inl rfl) [10, 0, 0, 2] [10, 0, 0, 3] rfl rfl _ ?_ ?_⟩
  · intro b hb
    simp only [mem_cons, not_mem_nil, or_false] at hb
    rcases hb with rfl | rfl
    · exact htwo
    · exact hthree
  · intro ip hip
    have htwoIv : blockIv ⟨[10, 0, 0, 2], [255, 255, 255, 255]⟩ = ⟨167772162, 167772162⟩ := by decide +kernel
    have hthreeIv : blockIv ⟨[10, 0, 0, 3], [255, 255, 255, 255]⟩ = ⟨167772163, 167772163⟩ := by decide +kernel
    have hpair : iv ⟨[10, 0, 0, 2], [10, 0, 0, 3]⟩ = ⟨167772162, 167772163⟩ := by decide +kernel
    rw [contains_iff ⟨rfl, rfl⟩ hip, hpair]
    simp only [mem_cons, not_mem_nil, or_false, exists_eq_or_imp, exists_eq_left]
    rw [htwo.inBlock_iff hip, hthree.inBlock_iff hip, htwoIv, hthreeIv]
    simp only [Iv.Has]
    omega

end AciContainers.Ipam
