import AciContainers.Search
import AciContainers.Intervals
import AciContainers.Net

/-!
# Address pools

The free list of `pkg/ipam` and its operations as the source computes them: `addRange` inserts
by binary search and merges from the range before the insertion point, `removeRange` cuts a
window of ranges found by two binary searches, `getIp` and `getIpChunk` take addresses from the
front. Every comparison of addresses is the one of byte strings.
-/
namespace AciContainers.Ipam

open Bytes Net Search

/-- All addresses from `start` to `stop`, both included. -/
structure IpRange where
  start : IP
  stop : IP
  deriving DecidableEq

structure IpAlloc where
  freeList : List IpRange
  deriving DecidableEq

def new : IpAlloc := ⟨[]⟩

def newFromRanges (ranges : List IpRange) : IpAlloc := ⟨ranges⟩

/-- Add one from the last byte; the flag reports a carry out of the first byte. -/
def carryIncrement : ByteString → ByteString × Bool
  | [] => ([], true)
  | b :: bs =>
    if (carryIncrement bs).2 then
      if b < 255 then ((b + 1) :: (carryIncrement bs).1, false)
      else (0 :: (carryIncrement bs).1, true)
    else (b :: (carryIncrement bs).1, false)

/-- Subtract one from the last byte; the flag reports a borrow past the first byte. -/
def carryDecrement : ByteString → ByteString × Bool
  | [] => ([], true)
  | b :: bs =>
    if (carryDecrement bs).2 then
      if b > 0 then ((b - 1) :: (carryDecrement bs).1, false)
      else (255 :: (carryDecrement bs).1, true)
    else (b :: (carryDecrement bs).1, false)

def isAdjOrGreater (a b : IP) : Bool :=
  if (carryIncrement a).2 then true else Bytes.compare (carryIncrement a).1 b != .lt

/-- The merge loop at a fixed index: the range there swallows its successors until
the first one that is neither adjacent nor overlapping. -/
def fixRangeLoop : IpRange → List IpRange → List IpRange
  | a, [] => [a]
  | a, b :: rest =>
    if isAdjOrGreater a.stop b.start then
      fixRangeLoop ⟨a.start, if Bytes.compare a.stop b.stop = .lt then b.stop else a.stop⟩ rest
    else a :: b :: rest

def IpAlloc.fixRange (ipa : IpAlloc) (index : Nat) : IpAlloc :=
  match ipa.freeList.drop (index - 1) with
  | [] => ipa
  | a :: rest => ⟨ipa.freeList.take (index - 1) ++ fixRangeLoop a rest⟩

def IpAlloc.addToFree (ipa : IpAlloc) (item : IpRange) (pos : Nat) : IpAlloc × Nat :=
  if pos ≥ ipa.freeList.length then (⟨ipa.freeList ++ [item]⟩, ipa.freeList.length)
  else (⟨ipa.freeList.take pos ++ item :: ipa.freeList.drop pos⟩, pos)

/-- The insertion point: the first range that does not start before `start`. -/
def IpAlloc.startIndex (ipa : IpAlloc) (start : IP) : Nat :=
  searchBy (fun r => Bytes.compare r.start start != .lt) ipa.freeList

def IpAlloc.addRange (ipa : IpAlloc) (start stop : IP) : IpAlloc :=
  if Bytes.compare start stop = .gt then ipa
  else
    let added := ipa.addToFree ⟨start, stop⟩ (ipa.startIndex start)
    added.1.fixRange added.2

def IpAlloc.addIp (ipa : IpAlloc) (ip : IP) : IpAlloc := ipa.addRange ip ip

/-- The last address of the network: the host bits of `ip` all set. -/
def last (ip : IP) (mask : IPMask) : IP := List.zipWith (fun b m => b ||| ~~~ m) ip mask

def subnetRange (subnet : IPNet) : IpRange :=
  ⟨(mask subnet.ip subnet.mask).getD [], last ((mask subnet.ip subnet.mask).getD []) subnet.mask⟩

def IpAlloc.addSubnet (ipa : IpAlloc) (subnet : IPNet) : IpAlloc :=
  ipa.addRange (subnetRange subnet).start (subnetRange subnet).stop

/-- What remains of `target` without `[start, stop]`, and whether that differs from it. -/
def cutRange (target : IpRange) (start stop : IP) : List IpRange × Bool :=
  let left :=
    if Bytes.compare target.start start = .lt then
      if Bytes.compare target.stop start ≠ .lt then
        ([⟨target.start, (carryDecrement start).1⟩], true)
      else ([target], false)
    else ([], true)
  let right :=
    if Bytes.compare target.stop stop = .gt then
      if Bytes.compare target.start stop ≠ .gt then
        ([⟨(carryIncrement stop).1, target.stop⟩], true)
      else ([target], false)
    else ([], true)
  (left.1 ++ right.1, left.2 && right.2)

/-- Step back from the search position while the range there may still reach `start`. -/
def removeFrom (l : List IpRange) (start : IP) : Nat → Nat
  | 0 => 0
  | i + 1 =>
    if ((l[i + 1]?).map (fun r => Bytes.compare r.stop start != .lt)).getD true then
      removeFrom l start i
    else i + 1

/-- Cut the ranges of `rest` one by one while their index, the length of what is
already done, is at most `endind`. -/
def cutLoop (start stop : IP) (endind : Nat) :
    List IpRange → List IpRange → Bool → List IpRange × Bool
  | done, [], changed => (done, changed)
  | done, r :: rest, changed =>
    if done.length ≤ endind then
      cutLoop start stop endind (done ++ (cutRange r start stop).1) rest
        (changed || (cutRange r start stop).2)
    else (done ++ r :: rest, changed)

def IpAlloc.removeRange (ipa : IpAlloc) (start stop : IP) : IpAlloc × Bool :=
  if Bytes.compare start stop = .gt then (ipa, false)
  else
    let endind := searchBy (fun r => Bytes.compare r.stop stop != .lt) ipa.freeList
    let i := removeFrom ipa.freeList start (ipa.startIndex start)
    let res := cutLoop start stop endind (ipa.freeList.take i) (ipa.freeList.drop i) false
    (⟨res.1⟩, res.2)

def IpAlloc.removeSubnet (ipa : IpAlloc) (subnet : IPNet) : IpAlloc × Bool :=
  ipa.removeRange (subnetRange subnet).start (subnetRange subnet).stop

def IpAlloc.removeIp (ipa : IpAlloc) (ip : IP) : IpAlloc × Bool := ipa.removeRange ip ip

/-- The first free address, taken out of the list; `none` when the list is empty. -/
def IpAlloc.getIp (ipa : IpAlloc) : Option IP × IpAlloc :=
  match ipa.freeList with
  | [] => (none, ipa)
  | r :: rest =>
    if Bytes.compare r.start r.stop = .eq then (some r.start, ⟨rest⟩)
    else (some r.start, ⟨⟨(carryIncrement r.start).1, r.stop⟩ :: rest⟩)

def IpAlloc.addRanges (ipa : IpAlloc) (ranges : List IpRange) : IpAlloc :=
  ranges.foldl (fun p r => p.addRange r.start r.stop) ipa

def IpAlloc.addAll (ipa other : IpAlloc) : IpAlloc := ipa.addRanges other.freeList

def IpAlloc.removeRanges (ipa : IpAlloc) (ranges : List IpRange) : IpAlloc :=
  ranges.foldl (fun p r => (p.removeRange r.start r.stop).1) ipa

/-- The number of addresses in a range, as the big integers of the source compute it. -/
def rangeSize (r : IpRange) : Int := 1 + ((value r.stop : Int) - value r.start)

/-- The loop of `getIpChunk`. Every round on a range with `start ≤ stop` takes at least
one of the addresses still needed, which is what the fuel counts. -/
def getIpChunkLoop (chunkSize : Int) :
    Nat → IpAlloc → IpAlloc → Int → Option (List IpRange) × IpAlloc
  | 0, ipa, result, _ => (some result.freeList, ipa)
  | fuel + 1, ipa, result, currentSize =>
    if currentSize < chunkSize then
      match ipa.freeList with
      | [] => (none, ipa.addRanges result.freeList)
      | r :: _ =>
        let needed := chunkSize - currentSize
        if rangeSize r ≤ needed then
          getIpChunkLoop chunkSize fuel (ipa.removeRange r.start r.stop).1
            (result.addRange r.start r.stop) (currentSize + rangeSize r)
        else
          let newend := ofNat r.stop.length ((value r.start : Int) + needed - 1).toNat
          getIpChunkLoop chunkSize fuel (ipa.removeRange r.start newend).1
            (result.addRange r.start newend) (currentSize + needed)
    else (some result.freeList, ipa)

def IpAlloc.getIpChunk (ipa : IpAlloc) (chunkSize : Int) : Option (List IpRange) × IpAlloc :=
  getIpChunkLoop chunkSize chunkSize.toNat ipa new 0

def maxInt64 : Int := 2 ^ 63 - 1

def IpAlloc.getSize (ipa : IpAlloc) : Int :=
  let size := (ipa.freeList.map rangeSize).sum
  if maxInt64 ≤ size then maxInt64 else size

def IpAlloc.empty (ipa : IpAlloc) : Bool := ipa.freeList.isEmpty

/-- One comparison of `intersect` with `a` starting first: which of the two lists
advances, and the pool with the common part added. -/
def intersectLeft (result : IpAlloc) (a b : IpRange) : Bool × Bool × IpAlloc :=
  if Bytes.compare a.stop b.start = .lt then (true, false, result)
  else
    match Bytes.compare a.stop b.stop with
    | .lt => (true, false, result.addRange b.start a.stop)
    | .eq => (true, true, result.addRange b.start a.stop)
    | .gt => (false, true, result.addRange b.start b.stop)

def advance (move : Bool) (l : List IpRange) : List IpRange := if move then l.tail else l

def intersectLoop : Nat → List IpRange → List IpRange → IpAlloc → IpAlloc
  | 0, _, _, result => result
  | _ + 1, [], _, result => result
  | _ + 1, _ :: _, [], result => result
  | fuel + 1, a :: l, b :: m, result =>
    if Bytes.compare a.start b.start = .lt then
      let step := intersectLeft result a b
      intersectLoop fuel (advance step.1 (a :: l)) (advance step.2.1 (b :: m)) step.2.2
    else
      let step := intersectLeft result b a
      intersectLoop fuel (advance step.2.1 (a :: l)) (advance step.1 (b :: m)) step.2.2

/-- Every round leaves one range behind, so the two lengths bound the rounds. -/
def IpAlloc.intersect (ipa other : IpAlloc) : IpAlloc :=
  intersectLoop (ipa.freeList.length + other.freeList.length) ipa.freeList other.freeList new

/-!
# Adding ranges to a pool

Read through `iv`, which keeps only the number of an address, the merge loop is `absorb` and
`addRange` is insertion followed by `absorb`. On a list sorted by start the addresses added are
exactly those of the range. The list stays disjoint exactly when the new range settles.
-/

open Intervals List Nat

variable {a : ByteString}

@[simp] theorem length_carryIncrement (a : ByteString) : (carryIncrement a).1.length = a.length := by
  induction a with
  | nil => rfl
  | cons b bs ih => simp only [carryIncrement]; split <;> (try split) <;> simp [ih]

@[simp] theorem length_carryDecrement (a : ByteString) : (carryDecrement a).1.length = a.length := by
  induction a with
  | nil => rfl
  | cons b bs ih => simp only [carryDecrement]; split <;> (try split) <;> simp [ih]

/-- The increment together with its carry is exact addition of one. -/
theorem value_carryIncrement (a : ByteString) :
    value (carryIncrement a).1 + (if (carryIncrement a).2 then 256 ^ a.length else 0) = value a + 1 := by
  induction a with
  | nil => rfl
  | cons b bs ih =>
    simp only [carryIncrement]
    by_cases hc : (carryIncrement bs).2
    · simp only [hc, ↓reduceIte] at ih ⊢
      by_cases hb : b < 255
      · rw [if_pos hb]
        simp only [value_cons, length_carryIncrement, toNat_add_one hb, add_mul, one_mul,
          Bool.false_eq_true, ↓reduceIte]
        omega
      · have hb' : b.toNat = 255 := by
          have := byte_lt b
          rw [UInt8.lt_iff_toNat_lt, show (255 : UInt8).toNat = 255 from rfl] at hb
          omega
        rw [if_neg hb]
        simp only [value_cons, length_carryIncrement, length_cons, pow_succ, hb',
          show (0 : UInt8).toNat = 0 from rfl, zero_mul, zero_add, ↓reduceIte]
        omega
    · simp only [hc, Bool.false_eq_true, ↓reduceIte] at ih ⊢
      simp only [value_cons, length_carryIncrement]
      omega

/-- The decrement together with its borrow is exact subtraction of one. -/
theorem value_carryDecrement (a : ByteString) : value (carryDecrement a).1 + 1 =
      value a + (if (carryDecrement a).2 then 256 ^ a.length else 0) := by
  induction a with
  | nil => rfl
  | cons b bs ih =>
    simp only [carryDecrement]
    by_cases hc : (carryDecrement bs).2
    · simp only [hc, ↓reduceIte] at ih ⊢
      by_cases hb : b > 0
      · have hs := toNat_sub_one hb
        rw [if_pos hb]
        simp only [value_cons, length_carryDecrement, ← hs, add_mul, one_mul, Bool.false_eq_true, ↓reduceIte]
        omega
      · have hb' : b.toNat = 0 := by
          rw [gt_iff_lt, UInt8.lt_iff_toNat_lt, show (0 : UInt8).toNat = 0 from rfl] at hb
          omega
        rw [if_neg hb]
        simp only [value_cons, length_carryDecrement, length_cons, pow_succ, hb',
          show (255 : UInt8).toNat = 255 from rfl, zero_mul, zero_add, ↓reduceIte]
        omega
    · simp only [hc, Bool.false_eq_true, ↓reduceIte] at ih ⊢
      simp only [value_cons, length_carryDecrement]
      omega

/-- Without a carry the increment is the successor; with one the input was all ones. -/
theorem increment_spec (a : ByteString) :
    ((carryIncrement a).2 = false ∧ value (carryIncrement a).1 = value a + 1 ∧ value a + 1 < 256 ^ a.length) ∨
      ((carryIncrement a).2 ∧ value a + 1 = 256 ^ a.length ∧ value (carryIncrement a).1 = 0) := by
  have h := value_carryIncrement a
  have hlt := value_lt a
  have hlt' := value_lt (carryIncrement a).1
  rw [length_carryIncrement] at hlt'
  cases hc : (carryIncrement a).2 <;> simp only [hc, Bool.false_eq_true, ↓reduceIte] at h
  · exact Or.inl ⟨rfl, by omega, by omega⟩
  · exact Or.inr ⟨rfl, by omega, by omega⟩

theorem value_increment (a : ByteString) : value (carryIncrement a).1 = (value a + 1) % 256 ^ a.length := by
  obtain ⟨-, h, hlt⟩ | ⟨-, hall, h⟩ := increment_spec a
  · rw [h, mod_eq_of_lt hlt]
  · rw [h, hall, mod_self]

/-- With a borrow the input was zero and the result is all ones. -/
theorem decrement_spec (a : ByteString) : ((carryDecrement a).2 = false ∧ value (carryDecrement a).1 + 1 = value a) ∨
      ((carryDecrement a).2 ∧ value a = 0 ∧ value (carryDecrement a).1 + 1 = 256 ^ a.length) := by
  have h := value_carryDecrement a
  have hlt := value_lt (carryDecrement a).1
  rw [length_carryDecrement] at hlt
  cases hc : (carryDecrement a).2 with
  | false => exact Or.inl ⟨rfl, by simpa [hc] using h⟩
  | true =>
    simp only [hc, ↓reduceIte] at h
    exact Or.inr ⟨rfl, by omega, by omega⟩

theorem increment_of_lt (h : value a + 1 < 256 ^ a.length) : value (carryIncrement a).1 = value a + 1 := by
  rcases increment_spec a with h' | h' <;> omega

theorem decrement_of_pos (h : 0 < value a) : value (carryDecrement a).1 + 1 = value a := by
  rcases decrement_spec a with h' | h' <;> omega

/-- Both ends of the range have `n` bytes. -/
def IpRange.Width (n : Nat) (r : IpRange) : Prop := r.start.length = n ∧ r.stop.length = n

/-- The numbers of a range of addresses. -/
def iv (r : IpRange) : Iv := ⟨value r.start, value r.stop⟩

@[simp] theorem iv_lo (r : IpRange) : (iv r).lo = value r.start := rfl
@[simp] theorem iv_hi (r : IpRange) : (iv r).hi = value r.stop := rfl

def AllWidth (n : Nat) (l : List IpRange) : Prop := ∀ r ∈ l, r.Width n

instance (n : Nat) (r : IpRange) : Decidable (r.Width n) := inferInstanceAs (Decidable (_ ∧ _))
instance (n : Nat) (l : List IpRange) : Decidable (AllWidth n l) :=
  inferInstanceAs (Decidable (∀ r ∈ l, r.Width n))

@[simp] theorem allWidth_nil (n : Nat) : AllWidth n [] := by simp [AllWidth]
@[simp] theorem allWidth_cons (n : Nat) (r : IpRange) (l : List IpRange) :
    AllWidth n (r :: l) ↔ r.Width n ∧ AllWidth n l := by simp [AllWidth]
@[simp] theorem allWidth_append (n : Nat) (l m : List IpRange) : AllWidth n (l ++ m) ↔ AllWidth n l ∧ AllWidth n m := by
  simp [AllWidth, or_imp, forall_and]

variable {l : List IpRange} {n : Nat}

theorem AllWidth.take (h : AllWidth n l) (k : Nat) :
    AllWidth n (l.take k) := fun r hr => h r (mem_of_mem_take hr)

theorem AllWidth.drop (h : AllWidth n l) (k : Nat) :
    AllWidth n (l.drop k) := fun r hr => h r (mem_of_mem_drop hr)

section Comparisons

variable {a b : IP} (ha : a.length = n) (hb : b.length = n)

include ha hb

theorem isAdjOrGreater_iff : isAdjOrGreater a b ↔ value b ≤ value a + 1 := by
  have hlt := value_lt b
  rcases increment_spec a with ⟨hc, hv, -⟩ | ⟨hc, hv⟩
  · have hl : (carryIncrement a).1.length = b.length := by simp [ha, hb]
    simp only [isAdjOrGreater, hc, Bool.false_eq_true, ↓reduceIte, bne_iff_ne, ne_eq, compare_lt hl, hv]
    omega
  · rw [hb, ← ha] at hlt
    simp only [isAdjOrGreater, hc, ↓reduceIte, true_iff]
    omega

theorem compare_lt_iff : Bytes.compare a b = .lt ↔ value a < value b := compare_lt (ha.trans hb.symm)

theorem compare_gt_iff : Bytes.compare a b = .gt ↔ value b < value a := compare_gt (ha.trans hb.symm)

theorem compare_eq_iff : Bytes.compare a b = .eq ↔ value a = value b := compare_eq (ha.trans hb.symm)

theorem value_le_of_not_gt (hgt : Bytes.compare a b ≠ .gt) : value a ≤ value b := by
  rwa [ne_eq, compare_gt_iff ha hb, not_lt] at hgt

end Comparisons

variable {ipa : IpAlloc} {start : IP}

theorem fixRangeLoop_spec (a : IpRange) (l : List IpRange) (ha : a.Width n) (hl : AllWidth n l) :
    AllWidth n (fixRangeLoop a l) ∧ (fixRangeLoop a l).map iv = absorb (iv a) (l.map iv) := by
  induction l generalizing a with
  | nil => simp [fixRangeLoop, absorb, ha]
  | cons b l ih =>
    rw [allWidth_cons] at hl
    have hadj := isAdjOrGreater_iff ha.2 hl.1.1
    by_cases ht : isAdjOrGreater a.stop b.start
    · have hlo : (iv b).lo ≤ (iv a).hi + 1 := hadj.mp ht
      let m : IpRange := ⟨a.start, if Bytes.compare a.stop b.stop = .lt then b.stop else a.stop⟩
      have hm : m.Width n := by
        refine ⟨ha.1, ?_⟩
        by_cases hc : Bytes.compare a.stop b.stop = .lt
        · simpa [m, hc] using hl.1.2
        · simpa [m, hc] using ha.2
      have hv : iv m = ⟨(iv a).lo, max (iv a).hi (iv b).hi⟩ := by
        have hc := compare_lt_iff ha.2 hl.1.2
        by_cases hlt : Bytes.compare a.stop b.stop = .lt
        · have := hc.mp hlt
          simp only [iv, m, hlt, ↓reduceIte, Iv.mk.injEq, true_and]
          omega
        · have := mt hc.mpr hlt
          simp only [iv, m, hlt, ↓reduceIte, Iv.mk.injEq, true_and]
          omega
      have h := ih m hm hl.2
      rw [fixRangeLoop, if_pos ht, map_cons, absorb, if_pos hlo, ← hv]
      exact h
    · have hlo : ¬ (iv b).lo ≤ (iv a).hi + 1 := mt hadj.mpr ht
      have habs : absorb (iv a) ((b :: l).map iv) = (a :: b :: l).map iv := by
        simp only [map_cons, absorb, if_neg hlo]
      rw [fixRangeLoop, if_neg ht, habs]
      simp [ha, hl]

theorem fixRange_spec (ipa : IpAlloc) (index : Nat) (h : AllWidth n ipa.freeList) :
    AllWidth n (ipa.fixRange index).freeList ∧
      (ipa.fixRange index).freeList.map iv = absorbAt (index - 1) (ipa.freeList.map iv) := by
  unfold IpAlloc.fixRange absorbAt
  rw [← map_drop]
  cases hd : ipa.freeList.drop (index - 1) with
  | nil => exact ⟨h, rfl⟩
  | cons a rest =>
    have hdw := h.drop (index - 1)
    rw [hd, allWidth_cons] at hdw
    have hs := fixRangeLoop_spec a rest hdw.1 hdw.2
    simp only [allWidth_append, map_append, map_cons, map_take, hs.2, and_true]
    exact ⟨h.take _, hs.1⟩

theorem addToFree_spec (ipa : IpAlloc) (item : IpRange) (pos : Nat) (hpos : pos ≤ ipa.freeList.length) :
    (ipa.addToFree item pos).1.freeList = ipa.freeList.take pos ++ item :: ipa.freeList.drop pos ∧
      (ipa.addToFree item pos).2 = pos := by
  unfold IpAlloc.addToFree
  by_cases h : pos ≥ ipa.freeList.length
  · have he : pos = ipa.freeList.length := by omega
    simp [he]
  · simp [h]

/-- The insertion of a range, read as intervals. -/
theorem addRange_spec (ipa : IpAlloc) (start stop : IP) (h : AllWidth n ipa.freeList)
    (hs : start.length = n) (he : stop.length = n) (hle : value start ≤ value stop) :
    AllWidth n (ipa.addRange start stop).freeList ∧ (ipa.addRange start stop).freeList.map iv =
        insertBetween ((ipa.freeList.take (ipa.startIndex start)).map iv) ⟨value start, value stop⟩
          ((ipa.freeList.drop (ipa.startIndex start)).map iv) := by
  have hk : ipa.startIndex start ≤ ipa.freeList.length := searchBy_le _ _
  have hgt : ¬ Bytes.compare start stop = .gt := by
    rw [compare_gt_iff hs he]
    omega
  have hadd := addToFree_spec ipa ⟨start, stop⟩ (ipa.startIndex start) hk
  have hw : AllWidth n (ipa.addToFree ⟨start, stop⟩ (ipa.startIndex start)).1.freeList := by
    rw [hadd.1, allWidth_append, allWidth_cons]
    exact ⟨h.take _, ⟨hs, he⟩, h.drop _⟩
  have hfix := fixRange_spec _ (ipa.addToFree ⟨start, stop⟩ (ipa.startIndex start)).2 hw
  unfold IpAlloc.addRange
  rw [if_neg hgt]
  refine ⟨hfix.1, ?_⟩
  rw [hfix.2, hadd.1, hadd.2]
  have hlen : ((ipa.freeList.take (ipa.startIndex start)).map iv).length = ipa.startIndex start := by
    simp [hk]
  simp only [insertBetween, hlen, map_append, map_cons]
  rfl

/-- The address lies between the two ends, in the order of byte strings. -/
def IpRange.Contains (r : IpRange) (ip : IP) : Prop :=
  Bytes.compare r.start ip ≠ .gt ∧ Bytes.compare ip r.stop ≠ .gt

instance (r : IpRange) (ip : IP) : Decidable (r.Contains ip) := inferInstanceAs (Decidable (_ ∧ _))

/-- Some range of the free list contains the address. -/
def IpAlloc.Free (ipa : IpAlloc) (ip : IP) : Prop := ∃ r ∈ ipa.freeList, r.Contains ip

instance (ipa : IpAlloc) (ip : IP) : Decidable (ipa.Free ip) :=
  inferInstanceAs (Decidable (∃ r ∈ ipa.freeList, r.Contains ip))

theorem contains_iff {r : IpRange} {ip : IP} (hr : r.Width n) (hip : ip.length = n) :
    r.Contains ip ↔ (iv r).Has (value ip) := by
  simp only [IpRange.Contains, Iv.Has, ne_eq, compare_gt_iff hr.1 hip, compare_gt_iff hip hr.2,
    not_lt, iv_lo, iv_hi]

theorem free_iff {n : Nat} {ipa : IpAlloc} {ip : IP} (h : AllWidth n ipa.freeList)
    (hip : ip.length = n) : ipa.Free ip ↔ Covers (ipa.freeList.map iv) (value ip) := by
  simp only [IpAlloc.Free, Covers, mem_map, exists_exists_and_eq_and]
  exact exists_congr (fun r => and_congr_right (fun hr => contains_iff (h r hr) hip))

/-- A free list in the order of its starts; ranges may overlap. -/
structure Sorted (n : Nat) (ipa : IpAlloc) : Prop where
  width : AllWidth n ipa.freeList
  proper : Proper (ipa.freeList.map iv)
  ordered : Ordered (ipa.freeList.map iv)

/-- A free list whose ranges are proper, in order and disjoint. -/
structure Canonical (n : Nat) (ipa : IpAlloc) : Prop where
  width : AllWidth n ipa.freeList
  proper : Proper (ipa.freeList.map iv)
  separated : Separated (ipa.freeList.map iv)

theorem Canonical.sorted (h : Canonical n ipa) : Sorted n ipa :=
  ⟨h.width, h.proper, h.separated.ordered h.proper⟩

theorem canonical_new (n : Nat) : Canonical n new :=
  ⟨by simp [new], by simp [new], by simp [new, Separated]⟩

theorem start_monotone (h : Sorted n ipa) (hs : start.length = n) :
    ipa.freeList.Pairwise (fun a b => (Bytes.compare a.start start != .lt) → (Bytes.compare b.start start != .lt)) := by
  refine (pairwise_map.mp h.ordered).imp_of_mem ?_
  intro a b ha hb hab
  simp only [bne_iff_ne, ne_eq, compare_lt_iff (h.width a ha).1 hs,
    compare_lt_iff (h.width b hb).1 hs, iv_lo] at hab ⊢
  omega

theorem take_startIndex (h : Sorted n ipa) (hs : start.length = n) :
    ∀ r ∈ (ipa.freeList.take (ipa.startIndex start)).map iv, r.lo < value start := by
  intro r hr
  obtain ⟨a, ha, rfl⟩ := mem_map.mp hr
  have hf := searchBy_take _ _ (start_monotone h hs) a ha
  have hw := h.width a (mem_of_mem_take ha)
  simpa [compare_lt_iff hw.1 hs] using hf

theorem drop_startIndex (h : Sorted n ipa) (hs : start.length = n) :
    ∀ r ∈ (ipa.freeList.drop (ipa.startIndex start)).map iv, value start ≤ r.lo := by
  intro r hr
  obtain ⟨a, ha, rfl⟩ := mem_map.mp hr
  have ht := searchBy_drop _ _ (start_monotone h hs) a ha
  have hw := h.width a (mem_of_mem_drop ha)
  simpa [compare_lt_iff hw.1 hs] using ht

theorem take_append_drop_iv (l : List IpRange) (k : Nat) : (l.take k).map iv ++ (l.drop k).map iv = l.map iv := by
  rw [← map_append, take_append_drop]

variable {stop : IP}

theorem addRange_of_gt (h : Bytes.compare start stop = .gt) :
    ipa.addRange start stop = ipa := by simp [IpAlloc.addRange, h]

section AddRange

variable (hs : start.length = n) (he : stop.length = n)

include hs he

/-- Adding a range to a sorted list, overlapping or not, adds exactly its addresses. -/
theorem covers_addRange (h : Sorted n ipa) (x : Nat) : Covers ((ipa.addRange start stop).freeList.map iv) x ↔
      Covers (ipa.freeList.map iv) x ∨ value start ≤ x ∧ x ≤ value stop := by
  by_cases hgt : Bytes.compare start stop = .gt
  · have hlt := (compare_gt_iff hs he).mp hgt
    rw [addRange_of_gt hgt, or_iff_left]
    omega
  · have hle := value_le_of_not_gt hs he hgt
    have hord := h.ordered
    rw [← take_append_drop_iv _ (ipa.startIndex start)] at hord
    rw [(addRange_spec ipa start stop h.width hs he hle).2, covers_insertBetween hord
      (fun r hr => le_of_lt (take_startIndex h hs r hr)) (drop_startIndex h hs),
      take_append_drop_iv]
    rfl

theorem sorted_addRange (h : Sorted n ipa) : Sorted n (ipa.addRange start stop) := by
  by_cases hgt : Bytes.compare start stop = .gt
  · rwa [addRange_of_gt hgt]
  · have hle := value_le_of_not_gt hs he hgt
    have hspec := addRange_spec ipa start stop h.width hs he hle
    have hord := h.ordered
    have hprop := h.proper
    rw [← take_append_drop_iv _ (ipa.startIndex start)] at hord hprop
    refine ⟨hspec.1, ?_, ?_⟩
    · rw [hspec.2]
      apply proper_absorbAt
      rw [proper_append] at hprop
      rw [proper_append, proper_cons]
      exact ⟨hprop.1, hle, hprop.2⟩
    · rw [hspec.2]
      apply ordered_absorbAt
      exact ordered_insert hord (fun r hr => le_of_lt (take_startIndex h hs r hr))
        (drop_startIndex h hs)

end AddRange

/-- The range before the insertion point. -/
def IpAlloc.predecessor (ipa : IpAlloc) (start : IP) : Option IpRange :=
  (ipa.freeList.take (ipa.startIndex start)).getLast?

/-- The range at the insertion point. -/
def IpAlloc.successor (ipa : IpAlloc) (start : IP) : Option IpRange :=
  (ipa.freeList.drop (ipa.startIndex start)).head?

/-- The merge loop starts at the range before the insertion point and stops at the first
gap, so a range that overlaps its successor is merged only when it has no predecessor or
touches it. -/
def IpAlloc.AddSettles (ipa : IpAlloc) (start stop : IP) : Prop :=
  Bytes.compare start stop = .gt ∨
    (∀ p ∈ ipa.predecessor start, isAdjOrGreater p.stop start = true) ∨
    ∀ q ∈ ipa.successor start, Bytes.compare stop q.start = .lt

instance (ipa : IpAlloc) (start stop : IP) : Decidable (ipa.AddSettles start stop) :=
  inferInstanceAs (Decidable (_ ∨ _ ∨ _))

theorem settles_iff {ipa : IpAlloc} {start : IP} (h : AllWidth n ipa.freeList)
    (hs : start.length = n) (he : stop.length = n) (hle : value start ≤ value stop) : ipa.AddSettles start stop ↔
      Settles ((ipa.freeList.take (ipa.startIndex start)).map iv) ⟨value start, value stop⟩
        ((ipa.freeList.drop (ipa.startIndex start)).map iv) := by
  have hgt : ¬ Bytes.compare start stop = .gt := by
    rw [compare_gt_iff hs he]
    omega
  simp only [IpAlloc.AddSettles, hgt, false_or, Settles, getLast?_map, head?_map,
    Option.mem_def, Option.map_eq_some_iff, forall_exists_index, and_imp,
    forall_apply_eq_imp_iff₂, IpAlloc.predecessor, IpAlloc.successor]
  apply or_congr
  · refine forall₂_congr (fun p hp => ?_)
    have hw := h p (mem_of_mem_take (mem_of_getLast? hp))
    exact isAdjOrGreater_iff hw.2 hs
  · refine forall₂_congr (fun q hq => ?_)
    have hw := h q (mem_of_mem_drop (mem_of_mem_head? hq))
    exact compare_lt_iff he hw.1

/-- On a disjoint list the merge restores disjointness exactly when the range settles. -/
theorem canonical_addRange_iff {ipa : IpAlloc} {start : IP} (h : Canonical n ipa)
    (hs : start.length = n) (he : stop.length = n) :
    Canonical n (ipa.addRange start stop) ↔ ipa.AddSettles start stop := by
  by_cases hgt : Bytes.compare start stop = .gt
  · rw [addRange_of_gt hgt]
    exact iff_of_true h (Or.inl hgt)
  · have hle := value_le_of_not_gt hs he hgt
    have hspec := addRange_spec ipa start stop h.width hs he hle
    have hsorted := sorted_addRange hs he h.sorted
    rw [settles_iff h.width hs he hle]
    constructor
    · intro hc
      have hsep := hc.separated
      rw [hspec.2] at hsep
      exact settles_of_separated hsep
    · intro hset
      have hsep := h.separated
      have hprop := h.proper
      rw [← take_append_drop_iv _ (ipa.startIndex start)] at hsep hprop
      refine ⟨hspec.1, hsorted.proper, ?_⟩
      rw [hspec.2]
      exact separated_insertBetween hsep hprop
        (fun r hr => le_of_lt (take_startIndex h.sorted hs r hr)) hset

/-- Ranges with `start ≤ stop` in the order of their starts; they may overlap. -/
def SortedByStart (ipa : IpAlloc) : Prop :=
  (∀ r ∈ ipa.freeList, Bytes.compare r.start r.stop ≠ .gt) ∧
    ipa.freeList.Pairwise (fun a b => Bytes.compare a.start b.start ≠ .gt)

instance (ipa : IpAlloc) : Decidable (SortedByStart ipa) := inferInstanceAs (Decidable (_ ∧ _))

theorem SortedByStart.sorted {ipa : IpAlloc} (hw : AllWidth n ipa.freeList) (h : SortedByStart ipa) : Sorted n ipa := by
  refine ⟨hw, ?_, pairwise_map.mpr (h.2.imp_of_mem ?_)⟩
  · intro r hr
    obtain ⟨a, ha, rfl⟩ := mem_map.mp hr
    have hle := h.1 a ha
    rwa [ne_eq, compare_gt_iff (hw a ha).1 (hw a ha).2, not_lt] at hle
  · intro a b ha hb hab
    rwa [ne_eq, compare_gt_iff (hw a ha).1 (hw b hb).1, not_lt] at hab

theorem Sorted.sortedByStart {ipa : IpAlloc} (h : Sorted n ipa) : SortedByStart ipa := by
  refine ⟨?_, (pairwise_map.mp h.ordered).imp_of_mem ?_⟩
  · intro r hr
    rw [ne_eq, compare_gt_iff (h.width r hr).1 (h.width r hr).2, not_lt]
    exact h.proper (iv r) (mem_map_of_mem hr)
  · intro a b ha hb hab
    rw [ne_eq, compare_gt_iff (h.width a ha).1 (h.width b hb).1, not_lt]
    exact hab

/-- On every sorted list, overlaps or not, addition is the union of addresses. -/
theorem addRange_union (n : Nat) (ipa : IpAlloc) (start stop : IP) (hw : AllWidth n ipa.freeList)
    (hsorted : SortedByStart ipa) (hs : start.length = n) (he : stop.length = n) : (Bytes.compare start stop ≠ .gt →
      AllWidth n (ipa.addRange start stop).freeList ∧ SortedByStart (ipa.addRange start stop) ∧
        ∀ ip : IP, ip.length = n →
          ((ipa.addRange start stop).Free ip ↔ ipa.Free ip ∨ (IpRange.mk start stop).Contains ip)) ∧
      (Bytes.compare start stop = .gt → ipa.addRange start stop = ipa) := by
  have hin := hsorted.sorted hw
  have hout := sorted_addRange hs he hin
  refine ⟨fun _ => ⟨hout.width, hout.sortedByStart, fun ip hip => ?_⟩, addRange_of_gt⟩
  rw [free_iff hout.width hip, free_iff hw hip, contains_iff ⟨hs, he⟩ hip, covers_addRange hs he hin]
  rfl

/-- A range that bridges two of three overlapping ranges. -/
theorem addRange_union_bridge : SortedByStart ⟨[⟨[10, 0, 0, 1], [10, 0, 0, 4]⟩, ⟨[10, 0, 0, 3], [10, 0, 0, 9]⟩,
        ⟨[10, 0, 0, 255], [10, 0, 1, 4]⟩]⟩ ∧ ∀ ip : IP, ip.length = 4 →
        ((IpAlloc.mk [⟨[10, 0, 0, 1], [10, 0, 0, 4]⟩, ⟨[10, 0, 0, 3], [10, 0, 1, 4]⟩]).Free ip ↔
          (IpAlloc.mk [⟨[10, 0, 0, 1], [10, 0, 0, 4]⟩, ⟨[10, 0, 0, 3], [10, 0, 0, 9]⟩,
              ⟨[10, 0, 0, 255], [10, 0, 1, 4]⟩]).Free ip ∨ (IpRange.mk [10, 0, 0, 9] [10, 0, 0, 254]).Contains ip) :=
  ⟨by decide, ((addRange_union 4 ⟨[⟨[10, 0, 0, 1], [10, 0, 0, 4]⟩, ⟨[10, 0, 0, 3], [10, 0, 0, 9]⟩,
    ⟨[10, 0, 0, 255], [10, 0, 1, 4]⟩]⟩ [10, 0, 0, 9] [10, 0, 0, 254] (by decide) (by decide) rfl rfl).1
      (by decide)).2.2⟩

end AciContainers.Ipam
