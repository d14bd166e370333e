import AciContainers.IpAllocRemove

/-!
# Taking exact amounts from a pool

`getIpChunk` takes whole ranges from the front and part of the last one, so what it has taken are
the lowest addresses, as many as the counter says. `getIp` takes one at a time; as many calls
succeed as `getSize` counts.
-/
namespace AciContainers.Ipam

open Bytes Net Search Intervals List

variable {n : Nat} {ipa result : IpAlloc} {r : IpRange} {l rest : List IpRange}
  {currentSize chunkSize : Int} {stop : IP}

/-- The addresses of `n` bytes in a pool. -/
def IpAlloc.addresses (n : Nat) (ipa : IpAlloc) : Set IP := {ip | ip.length = n ∧ ipa.Free ip}

/-- Addresses of one length are counted by their numbers. -/
theorem ncard_addresses (h : Canonical n ipa) : (ipa.addresses n).ncard = size (ipa.freeList.map iv) := by
  have himage : value '' ipa.addresses n = {x | Covers (ipa.freeList.map iv) x} := by
    ext x
    constructor
    · rintro ⟨ip, ⟨hip, hfree⟩, rfl⟩
      exact (free_iff h.width hip).mp hfree
    · intro hx
      have hval := value_ofNat n x (covers_lt h.width hx)
      refine ⟨ofNat n x, ⟨length_ofNat n x, ?_⟩, hval⟩
      rw [free_iff h.width (length_ofNat n x), hval]
      exact hx
  have hinj : Set.InjOn value (ipa.addresses n) := fun a ha b hb hv => value_inj (ha.1.trans hb.1.symm) hv
  rw [← ncard_covers h.separated, ← himage, hinj.ncard_image]

theorem rangeSize_eq (h : value r.start ≤ value r.stop) : rangeSize r = ((iv r).size : Int) := by
  simp only [rangeSize, Iv.size, iv_lo, iv_hi]
  omega

theorem sum_rangeSize (h : Proper (l.map iv)) : (l.map rangeSize).sum = (size (l.map iv) : Int) := by
  induction l with
  | nil => rfl
  | cons r l ih =>
    rw [map_cons, proper_cons] at h
    rw [map_cons, sum_cons, ih h.2, rangeSize_eq h.1, map_cons, size_cons, Nat.cast_add]

/-- The state of the loop: what is taken lies below what is left, and the counter counts it. -/
structure Taking (n : Nat) (ipa result : IpAlloc) (currentSize : Int) : Prop where
  pool : Canonical n ipa
  taken : Canonical n result
  below : ∀ x y, Covers (result.freeList.map iv) x → Covers (ipa.freeList.map iv) y → x < y
  count : currentSize = (size (result.freeList.map iv) : Int)

/-- Taking the addresses up to `stop` from the first range. -/
theorem Taking.take (h : Taking n ipa result currentSize) (hl : ipa.freeList = r :: rest)
    (hstop : stop.length = n) (hlo : value r.start ≤ value stop) (hhi : value stop ≤ value r.stop) :
    Taking n (ipa.removeRange r.start stop).1 (result.addRange r.start stop)
        (currentSize + ((value stop : Int) + 1 - value r.start)) ∧ size (ipa.freeList.map iv) =
        size ((ipa.removeRange r.start stop).1.freeList.map iv) + (value stop + 1 - value r.start) := by
  have hw : r.Width n := h.pool.width r (by simp [hl])
  have hp := h.pool.proper (iv r) (by simp [hl])
  have hsep := h.pool.separated
  rw [hl, map_cons] at hsep
  have hhas : ∀ x, value r.start ≤ x → x ≤ value stop → Covers (ipa.freeList.map iv) x := by
    intro x h₁ h₂
    rw [hl, map_cons, covers_cons]
    exact Or.inl ⟨h₁, le_trans h₂ hhi⟩
  have hdis : ∀ x, Covers (ipa.freeList.map iv) x → ¬ Covers (result.freeList.map iv) x :=
    fun x hx hx' => lt_irrefl x (h.below x x hx' hx)
  obtain ⟨hpool, htaken, -, -⟩ := chunk_move h.pool h.taken hdis hw.1 hstop hhas
  have hleft := covers_removeRange hw.1 hstop h.pool
  have hadd := covers_addRange hw.1 hstop h.taken.sorted
  refine ⟨⟨hpool, htaken, ?_, ?_⟩, ?_⟩
  · intro x y hx hy
    obtain ⟨hy, hno⟩ := (hleft y).mp hy
    rcases (hadd x).mp hx with hx | hx
    · exact h.below x y hx hy
    · rw [hl, map_cons] at hy
      have hfirst := hsep.head_le hp hy
      simp only [iv_lo] at hfirst
      omega
  · have hsize := size_add h.taken.separated htaken.separated hadd fun x hx hin =>
      hdis x (hhas x hin.1 hin.2) hx
    rw [hsize, h.count]
    omega
  · refine size_add hpool.separated h.pool.separated (fun x => ?_) fun x hx => ((hleft x).mp hx).2
    rw [hleft]
    constructor
    · intro hx
      by_cases hin : value r.start ≤ x ∧ x ≤ value stop
      · exact Or.inr hin
      · exact Or.inl ⟨hx, hin⟩
    · rintro (hx | hx)
      · exact hx.1
      · exact hhas x hx.1 hx.2

/-- What the loop returns, when it may take as many turns as addresses are missing. -/
structure TakesExactly (total : Nat) (chunkSize : Int) (out : Option (List IpRange) × IpAlloc) : Prop where
  enough : chunkSize ≤ total → ∃ rs, out.1 = some rs ∧ (size (rs.map iv) : Int) = max chunkSize 0 ∧
    ∀ x y, Covers (rs.map iv) x → Covers (out.2.freeList.map iv) y → x < y
  short : total < chunkSize → out.1 = none

/-- The counter has reached the request. -/
theorem takesExactly_done (h : Taking n ipa result currentSize) (hle : currentSize ≤ max chunkSize 0)
    (hge : chunkSize ≤ currentSize) : TakesExactly
    (size (ipa.freeList.map iv) + size (result.freeList.map iv)) chunkSize
      (some result.freeList, ipa) := by
  have hcount := h.count
  refine ⟨fun _ => ⟨result.freeList, rfl, ?_, h.below⟩, fun hshort => ?_⟩
  · omega
  · omega

theorem getIpChunkLoop_exact (chunkSize : Int) (fuel : Nat) (ipa result : IpAlloc) (currentSize : Int)
    (h : Taking n ipa result currentSize) (hle : currentSize ≤ max chunkSize 0)
    (hfuel : chunkSize - currentSize ≤ fuel) :
    TakesExactly (size (ipa.freeList.map iv) + size (result.freeList.map iv)) chunkSize
      (getIpChunkLoop chunkSize fuel ipa result currentSize) := by
  induction fuel generalizing ipa result currentSize with
  | zero => exact takesExactly_done h hle (by omega)
  | succ fuel ih =>
    by_cases hlt : currentSize < chunkSize
    · cases hl : ipa.freeList with
      | nil =>
        simp only [getIpChunkLoop, hlt, ↓reduceIte, hl]
        have hcount := h.count
        refine ⟨fun henough => ?_, fun _ => rfl⟩
        simp only [map_nil, size_nil, zero_add] at henough
        omega
      | cons r rest =>
        have hw : r.Width n := h.pool.width r (by simp [hl])
        have hp := h.pool.proper (iv r) (by simp [hl])
        -- one turn takes the addresses of the first range up to `stop`
        have hturn : ∀ stop : IP, stop.length = n → value r.start ≤ value stop → value stop ≤ value r.stop →
            ∀ next : Int, next = currentSize + ((value stop : Int) + 1 - value r.start) → next ≤ chunkSize →
            TakesExactly (size (ipa.freeList.map iv) + size (result.freeList.map iv)) chunkSize
              (getIpChunkLoop chunkSize fuel (ipa.removeRange r.start stop).1 (result.addRange r.start stop) next) := by
          intro stop hstop hlo hhi next hnext hsmall
          obtain ⟨htaking, hsize⟩ := h.take hl hstop hlo hhi
          rw [← hnext] at htaking
          have htotal : size (ipa.freeList.map iv) + size (result.freeList.map iv) =
              size ((ipa.removeRange r.start stop).1.freeList.map iv) +
                size ((result.addRange r.start stop).freeList.map iv) := by
            have hbefore := h.count
            have hafter := htaking.count
            omega
          rw [htotal]
          exact ih _ _ next htaking (by omega) (by omega)
        simp only [getIpChunkLoop, hlt, ↓reduceIte, hl]
        rw [← hl]
        split
        case isTrue hwhole =>
          unfold rangeSize at hwhole ⊢
          exact hturn r.stop hw.2 hp (le_refl _) _ (by omega) (by omega)
        case isFalse hpart =>
          have hlast := value_lt r.stop
          unfold rangeSize at hpart
          have hval : value (ofNat r.stop.length ((value r.start : Int) + (chunkSize - currentSize) - 1).toNat) =
              ((value r.start : Int) + (chunkSize - currentSize) - 1).toNat := value_ofNat _ _ (by omega)
          exact hturn _ ((length_ofNat r.stop.length _).trans hw.2) (by omega) (by omega) _ (by omega) (by omega)
    · simp only [getIpChunkLoop, hlt, ↓reduceIte]
      exact takesExactly_done h hle (by omega)

/-- The ranges are determined by their numbers. -/
theorem map_iv_inj {m : List IpRange} (hl : AllWidth n l) (hm : AllWidth n m) (h : l.map iv = m.map iv) : l = m := by
  refine map_inj_of (fun a b ha hb hab => ?_) hl hm h
  rw [iv, iv, Iv.mk.injEq] at hab
  have hstart := value_inj (ha.1.trans hb.1.symm) hab.1
  have hstop := value_inj (ha.2.trans hb.2.symm) hab.2
  cases a
  cases b
  simp_all

/-- Between any two ranges there is an address. -/
def Apart (l : List IpRange) : Prop := l.Pairwise (fun a b => value a.stop + 1 < value b.start)

/-- A range behind a gap is put at the end. -/
theorem addRange_behind {start : IP} (h : Canonical n ipa) (hs : start.length = n)
    (he : stop.length = n) (hle : value start ≤ value stop)
    (hgap : ∀ r ∈ ipa.freeList, value r.stop + 1 < value start) :
    (ipa.addRange start stop).freeList = ipa.freeList ++ [⟨start, stop⟩] := by
  have hdrop : ipa.freeList.drop (ipa.startIndex start) = [] := by
    rw [eq_nil_iff_forall_not_mem]
    intro r hr
    have hlo := drop_startIndex h.sorted hs (iv r) (mem_map_of_mem hr)
    have hmem := mem_of_mem_drop hr
    have hp := h.proper (iv r) (mem_map_of_mem hmem)
    have hhi := hgap r hmem
    simp only [iv_lo, iv_hi] at hlo hp
    omega
  have htake : ipa.freeList.take (ipa.startIndex start) = ipa.freeList := by
    have happ := take_append_drop (ipa.startIndex start) ipa.freeList
    rwa [hdrop, append_nil] at happ
  have hspec := addRange_spec ipa start stop h.width hs he hle
  rw [hdrop, htake] at hspec
  have hw : AllWidth n (ipa.freeList ++ [⟨start, stop⟩]) := by
    rw [allWidth_append, allWidth_cons]
    exact ⟨h.width, ⟨hs, he⟩, allWidth_nil n⟩
  refine map_iv_inj hspec.1 hw ?_
  rw [hspec.2, map_append, map_cons, map_nil]
  rcases eq_nil_or_concat ipa.freeList with hnil | ⟨init, p, hp⟩
  · rw [hnil]
    rfl
  · have hp' : p ∈ ipa.freeList := by simp [hp]
    have hfar : ¬ (Iv.mk (value start) (value stop)).lo ≤ (iv p).hi + 1 := Nat.not_le.mpr (hgap p hp')
    rw [hp, concat_eq_append, map_append, map_cons, map_nil, insertBetween_snoc, absorb, if_neg hfar, append_assoc]
    rfl

/-- The first range is removed as a whole. -/
theorem removeRange_head (h : Canonical n ipa) (hl : ipa.freeList = r :: rest) :
    (ipa.removeRange r.start r.stop).1.freeList = rest := by
  have hw := h.width
  have hp := h.proper
  have hsep := h.separated
  rw [hl, allWidth_cons] at hw
  rw [hl, map_cons, proper_cons] at hp
  rw [hl, map_cons, separated_cons] at hsep
  have hspec := removeRange_spec hw.1.1 hw.1.2 h hp.1
  refine map_iv_inj hspec.1 hw.2 ?_
  have hfirst : cut (value r.start) (value r.stop) (iv r) = [] := by simp [Intervals.cut]
  have hrest : (rest.map iv).flatMap (cut (value r.start) (value r.stop)) = rest.map iv :=
    flatMap_cut_of_apart hp.1 _ hp.2 fun c hc => Or.inr (hsep.1 c hc)
  rw [hspec.2.1, hl, map_cons, flatMap_cons, hfirst, hrest, nil_append]

/-- Ranges that lie apart are put back one behind the other. -/
theorem addRanges_apart (ipa : IpAlloc) (ranges : List IpRange) (h : Canonical n ipa)
    (hr : Canonical n ⟨ranges⟩) (hapart : Apart (ipa.freeList ++ ranges)) :
    (ipa.addRanges ranges).freeList = ipa.freeList ++ ranges := by
  induction ranges generalizing ipa with
  | nil => simp [IpAlloc.addRanges]
  | cons r rest ih =>
    have hw := hr.width
    have hp := hr.proper
    have hsep := hr.separated
    simp only [allWidth_cons, map_cons, proper_cons, separated_cons] at hw hp hsep
    have hgap : ∀ c ∈ ipa.freeList, value c.stop + 1 < value r.start :=
      fun c hc => (pairwise_append.mp hapart).2.2 c hc r mem_cons_self
    have hend := addRange_behind h hw.1.1 hw.1.2 hp.1 hgap
    have hcan : Canonical n (ipa.addRange r.start r.stop) := by
      refine canonical_addRange_of_disjoint h hw.1.1 hw.1.2 fun x hlo _ hx => ?_
      obtain ⟨v, hv, hx⟩ := hx
      obtain ⟨c, hc, rfl⟩ := mem_map.mp hv
      have hhi := hx.2
      have hlt := hgap c hc
      simp only [iv_hi] at hhi
      omega
    have hrest := ih (ipa.addRange r.start r.stop) hcan ⟨hw.2, hp.2, hsep.2⟩
      (by rwa [hend, append_assoc, singleton_append])
    rw [hend, append_assoc, singleton_append] at hrest
    exact hrest

/-- A request that cannot be met leaves a list of ranges that lie apart as it was. -/
theorem getIpChunkLoop_restores (chunkSize : Int) (fuel : Nat) (ipa result : IpAlloc)
    (currentSize : Int) (h : Taking n ipa result currentSize) (hapart : Apart (result.freeList ++ ipa.freeList))
    (hnone : (getIpChunkLoop chunkSize fuel ipa result currentSize).1 = none) :
    (getIpChunkLoop chunkSize fuel ipa result currentSize).2.freeList = result.freeList ++ ipa.freeList := by
  induction fuel generalizing ipa result currentSize with
  | zero => simp [getIpChunkLoop] at hnone
  | succ fuel ih =>
    by_cases hlt : currentSize < chunkSize
    · cases hl : ipa.freeList with
      | nil =>
        simp only [getIpChunkLoop, hlt, ↓reduceIte, hl]
        have hempty := addRanges_apart ipa result.freeList h.pool h.taken (by simpa [hl] using hapart)
        simpa [hl] using hempty
      | cons r rest =>
        have hw : r.Width n := h.pool.width r (by simp [hl])
        have hp := h.pool.proper (iv r) (by simp [hl])
        simp only [getIpChunkLoop, hlt, ↓reduceIte, hl] at hnone ⊢
        rw [← hl]
        split at hnone
        case isTrue hwhole =>
          rw [if_pos hwhole]
          have hgap : ∀ c ∈ result.freeList, value c.stop + 1 < value r.start :=
            fun c hc => (pairwise_append.mp hapart).2.2 c hc r (by simp [hl])
          have htaken := addRange_behind h.taken hw.1 hw.2 hp hgap
          have hleft := removeRange_head h.pool hl
          have hlists : (result.addRange r.start r.stop).freeList ++ (ipa.removeRange r.start r.stop).1.freeList =
              result.freeList ++ ipa.freeList := by
            rw [htaken, hleft, hl, append_assoc, singleton_append]
          have hnext := (h.take hl hw.2 hp (le_refl _)).1
          have hsize : currentSize + rangeSize r = currentSize + ((value r.stop : Int) + 1 - value r.start) := by
            unfold rangeSize
            omega
          rw [hsize] at hnone ⊢
          rw [← hlists] at hapart ⊢
          exact ih _ _ _ hnext hapart hnone
        case isFalse hpart =>
          -- the part that is taken completes the request
          exfalso
          have hfull : currentSize + (chunkSize - currentSize) = chunkSize := by omega
          cases fuel <;> simp [getIpChunkLoop] at hnone
    · simp [getIpChunkLoop, hlt] at hnone

/-- No range starts at the address after the end of an earlier one. -/
def NoneAdjacent (ipa : IpAlloc) : Prop :=
  ipa.freeList.Pairwise (fun a b => (carryIncrement a.stop).1 ≠ b.start)

theorem NoneAdjacent.apart (h : NoneAdjacent ipa) (hcan : Canonical n ipa) : Apart ipa.freeList := by
  refine (h.and (pairwise_map.mp hcan.separated)).imp_of_mem ?_
  rintro a b ha hb ⟨hne, hlt⟩
  have hwa := hcan.width a ha
  have hwb := hcan.width b hb
  simp only [iv_lo, iv_hi] at hlt
  have hbound := value_lt b.start
  rw [hwb.1, ← hwa.2] at hbound
  have hinc : value (carryIncrement a.stop).1 = value a.stop + 1 := increment_of_lt (by omega)
  have hdiff : value a.stop + 1 ≠ value b.start := by
    intro heq
    exact hne (value_inj (by simp [hwa.2, hwb.1]) (hinc.trans heq))
  omega

theorem taking_start (h : Canonical n ipa) : Taking n ipa new 0 :=
  ⟨h, canonical_new n, by simp [new], by simp [new]⟩

/-- What `getIpChunk` owes its caller. -/
structure ChunkExact (n : Nat) (ipa : IpAlloc) (chunkSize : Int) (out : Option (List IpRange) × IpAlloc) : Prop where
  /-- Enough addresses: the lowest ones, as many as asked for. -/
  enough : chunkSize ≤ (ipa.addresses n).ncard → ∃ rs, out.1 = some rs ∧
    AllWidth n rs ∧ FreeListOk n ⟨rs⟩ ∧ ((IpAlloc.addresses n ⟨rs⟩).ncard : Int) = max chunkSize 0 ∧
    (∀ ip : IP, ip.length = n → (out.2.Free ip ↔ ipa.Free ip ∧ ¬ (IpAlloc.mk rs).Free ip)) ∧
    (∀ ip : IP, ip.length = n → (IpAlloc.mk rs).Free ip → ipa.Free ip) ∧
    ∀ a b : IP, a.length = n → b.length = n → (IpAlloc.mk rs).Free a → out.2.Free b → Bytes.compare a b = .lt
  /-- Too few: an error, and nothing is lost. -/
  short : (ipa.addresses n).ncard < chunkSize → out.1 = none ∧
    (∀ ip : IP, ip.length = n → (out.2.Free ip ↔ ipa.Free ip)) ∧
    (NoneAdjacent ipa → out.2 = ipa)
  /-- The pool stays in order. -/
  pool : AllWidth n out.2.freeList ∧ FreeListOk n out.2

theorem takesExactly_getIpChunk (h : Canonical n ipa) (chunkSize : Int) :
    TakesExactly (size (ipa.freeList.map iv)) chunkSize (ipa.getIpChunk chunkSize) := by
  have hexact := getIpChunkLoop_exact chunkSize chunkSize.toNat ipa new 0 (taking_start h) (by omega) (by omega)
  have htotal : size (ipa.freeList.map iv) + size (new.freeList.map iv) = size (ipa.freeList.map iv) := rfl
  rwa [htotal] at hexact

/-- A chunk has as many addresses as were asked for. -/
theorem size_chunk (h : Canonical n ipa) {rs : List IpRange}
    (hrs : (ipa.getIpChunk chunkSize).1 = some rs) : (size (rs.map iv) : Int) = max chunkSize 0 := by
  have hexact := takesExactly_getIpChunk h chunkSize
  rcases le_or_gt chunkSize (size (ipa.freeList.map iv) : Int) with hle | hlt
  · obtain ⟨rs', hrs', hcount, -⟩ := hexact.enough hle
    rw [hrs, Option.some.injEq] at hrs'
    rw [hrs', hcount]
  · rw [hexact.short hlt] at hrs
    simp at hrs

theorem getIpChunk_exact (n : Nat) (ipa : IpAlloc) (chunkSize : Int) (hw : AllWidth n ipa.freeList)
    (hok : FreeListOk n ipa) : ChunkExact n ipa chunkSize (ipa.getIpChunk chunkSize) := by
  have hcan := hok.canonical hw
  have hexact := takesExactly_getIpChunk hcan chunkSize
  rw [← ncard_addresses hcan] at hexact
  obtain ⟨hpool, hparts⟩ := getIpChunk_split hcan chunkSize
  refine ⟨fun henough => ?_, fun hshort => ?_, hpool.width, hpool.freeListOk⟩
  · obtain ⟨rs, hrs, hcount, hbelow⟩ := hexact.enough henough
    rw [hrs] at hparts
    obtain ⟨hrcan, hdis, hunion⟩ := hparts
    refine ⟨rs, hrs, hrcan.width, hrcan.freeListOk, ?_, fun ip hip => ?_, fun ip hip hfree => ?_, ?_⟩
    · rw [ncard_addresses hrcan]
      exact hcount
    · rw [free_iff hpool.width hip, free_iff hw hip, free_iff hrcan.width hip, ← hunion]
      tauto
    · rw [free_iff hw hip, ← hunion]
      exact Or.inr ((free_iff hrcan.width hip).mp hfree)
    · intro a b ha hb hfa hfb
      rw [compare_lt_iff ha hb]
      exact hbelow _ _ ((free_iff hrcan.width ha).mp hfa) ((free_iff hpool.width hb).mp hfb)
  · have hnone := hexact.short hshort
    rw [hnone] at hparts
    refine ⟨hnone, fun ip hip => ?_, fun hadj => ?_⟩
    · rw [free_iff hpool.width hip, free_iff hw hip, hparts]
    · have hrest := getIpChunkLoop_restores chunkSize chunkSize.toNat ipa new 0 (taking_start hcan)
        (by simpa [new] using hadj.apart hcan) hnone
      exact congrArg IpAlloc.mk hrest

def twoRanges : IpAlloc := ⟨[⟨[10, 0, 0, 1], [10, 0, 0, 3]⟩, ⟨[10, 0, 0, 255], [10, 0, 1, 0]⟩]⟩

theorem freeListOk_twoRanges : FreeListOk 4 twoRanges :=
  Canonical.freeListOk ⟨by decide, by simp [Proper, iv, value, twoRanges], by simp [Separated, iv, value, twoRanges]⟩

/-- A request that takes part of the second range, and one for more than there is. -/
theorem getIpChunk_exact_two_ranges : ChunkExact 4 twoRanges 4
        (some [⟨[10, 0, 0, 1], [10, 0, 0, 3]⟩, ⟨[10, 0, 0, 255], [10, 0, 0, 255]⟩],
          ⟨[⟨[10, 0, 1, 0], [10, 0, 1, 0]⟩]⟩) ∧ ChunkExact 4 twoRanges 6 (none, twoRanges) := by
  have hfour := getIpChunk_exact 4 twoRanges 4 (by decide) freeListOk_twoRanges
  have hsix := getIpChunk_exact 4 twoRanges 6 (by decide) freeListOk_twoRanges
  rw [show twoRanges.getIpChunk 4 =
    (some [⟨[10, 0, 0, 1], [10, 0, 0, 3]⟩, ⟨[10, 0, 0, 255], [10, 0, 0, 255]⟩], ⟨[⟨[10, 0, 1, 0], [10, 0, 1, 0]⟩]⟩)
    by decide +kernel] at hfour
  rw [show twoRanges.getIpChunk 6 = (none, twoRanges) by decide +kernel] at hsix
  exact ⟨hfour, hsix⟩

/-- The results of consecutive calls of `getIp`. -/
def getIps : Nat → IpAlloc → List (Option IP)
  | 0, _ => []
  | k + 1, ipa => ipa.getIp.1 :: getIps k ipa.getIp.2

/-- One call takes the lowest address. -/
theorem getIp_lowest (h : Canonical n ipa) (hne : ipa.freeList ≠ []) :
    ∃ ip, ipa.getIp.1 = some ip ∧ ip.length = n ∧ Canonical n ipa.getIp.2 ∧
      size (ipa.freeList.map iv) = size (ipa.getIp.2.freeList.map iv) + 1 ∧
      (∀ x, Covers (ipa.freeList.map iv) x ↔ Covers (ipa.getIp.2.freeList.map iv) x ∨ x = value ip) ∧
      ∀ x, Covers (ipa.getIp.2.freeList.map iv) x → value ip < x := by
  obtain ⟨ip, hip⟩ := Option.ne_none_iff_exists'.mp (mt (getIp_none_iff ipa).mp hne)
  obtain ⟨hlen, hfree, hcan, hleft⟩ := getIp_spec h hip
  have hunion : ∀ x, Covers (ipa.freeList.map iv) x ↔ Covers (ipa.getIp.2.freeList.map iv) x ∨ x = value ip := by
    intro x
    rw [hleft]
    by_cases hx : x = value ip
    · simp [hx, hfree]
    · simp [hx]
  have hfirst : ∀ x, Covers (ipa.freeList.map iv) x → value ip ≤ x := by
    cases hl : ipa.freeList with
    | nil => exact absurd hl hne
    | cons r rest =>
      have hstart : ip = r.start := by
        unfold IpAlloc.getIp at hip
        rw [hl] at hip
        dsimp only at hip
        split at hip <;> exact (Option.some.inj hip).symm
      have hsep := h.separated
      rw [hl, map_cons] at hsep
      rw [hstart]
      exact fun x hx => hsep.head_le (h.proper (iv r) (by simp [hl])) hx
  refine ⟨ip, hip, hlen, hcan, ?_, hunion, ?_⟩
  · have hadd := @size_add _ _ (value ip) (value ip) hcan.separated h.separated
      (fun x => by rw [hunion]; exact or_congr_right (by omega)) fun x hx => by
        have hne := ((hleft x).mp hx).2
        omega
    omega
  · intro x hx
    have hne := ((hleft x).mp hx).2
    have hle := hfirst x ((hleft x).mp hx).1
    omega

/-- A pool of `k` addresses is drained by `k` calls. -/
theorem getIps_drain (k : Nat) (ipa : IpAlloc) (h : Canonical n ipa) (hk : size (ipa.freeList.map iv) = k) :
    ∃ ips : List IP, getIps (k + 1) ipa = ips.map some ++ [none] ∧ ips.length = k ∧ (∀ ip ∈ ips, ip.length = n) ∧
      ips.Pairwise (fun a b => value a < value b) ∧ ∀ x, Covers (ipa.freeList.map iv) x ↔ ∃ ip ∈ ips, value ip = x := by
  induction k generalizing ipa with
  | zero =>
    have hnil : ipa.freeList = [] := by
      by_contra hne
      obtain ⟨ip, -, -, -, hsize, -⟩ := getIp_lowest h hne
      omega
    refine ⟨[], ?_, rfl, by simp, List.Pairwise.nil, by simp [hnil]⟩
    simp [getIps, (getIp_none_iff ipa).mpr hnil]
  | succ k ih =>
    have hne : ipa.freeList ≠ [] := by
      intro hnil
      simp [hnil] at hk
    obtain ⟨ip, hip, hlen, hcan, hsize, hunion, hlow⟩ := getIp_lowest h hne
    obtain ⟨ips, hrun, hcount, hlens, hsorted, hcov⟩ := ih ipa.getIp.2 hcan (by omega)
    refine ⟨ip :: ips, ?_, by simp [hcount], ?_, ?_, fun x => ?_⟩
    · rw [getIps, hip, hrun]
      rfl
    · exact forall_mem_cons.mpr ⟨hlen, hlens⟩
    · refine pairwise_cons.mpr ⟨fun b hb => ?_, hsorted⟩
      exact hlow (value b) ((hcov (value b)).mpr ⟨b, hb, rfl⟩)
    · rw [hunion, hcov]
      simp only [mem_cons, exists_eq_or_imp]
      rw [or_comm, eq_comm]

/-- The size is the number of addresses, as far as it fits. -/
theorem getSize_eq (h : Canonical n ipa) : ipa.getSize = min (size (ipa.freeList.map iv) : Int) maxInt64 := by
  unfold IpAlloc.getSize
  rw [sum_rangeSize h.proper]
  dsimp only
  split <;> omega

/-- `getSize` counts the calls of `getIp` that succeed; they return the pool in order. -/
theorem getSize_getIps (n : Nat) (ipa : IpAlloc) (hw : AllWidth n ipa.freeList) (hok : FreeListOk n ipa)
    (hsmall : (ipa.addresses n).ncard < 2 ^ 63) :
    ∃ ips : List IP, (ips.length : Int) = ipa.getSize ∧ getIps (ips.length + 1) ipa = ips.map some ++ [none] ∧
      ips.Pairwise (fun a b => Bytes.compare a b = .lt) ∧ ∀ ip : IP, ip ∈ ips ↔ ip ∈ ipa.addresses n := by
  have hcan := hok.canonical hw
  obtain ⟨ips, hrun, hcount, hlens, hsorted, hcov⟩ := getIps_drain _ ipa hcan rfl
  refine ⟨ips, ?_, ?_, ?_, fun ip => ?_⟩
  · rw [ncard_addresses hcan] at hsmall
    rw [getSize_eq hcan, hcount, min_eq_left (by unfold maxInt64; omega)]
  · rw [hcount, hrun]
  · refine hsorted.imp_of_mem fun ha hb hlt => ?_
    exact (compare_lt_iff (hlens _ ha) (hlens _ hb)).mpr hlt
  · constructor
    · intro hip
      refine ⟨hlens ip hip, (free_iff hw (hlens ip hip)).mpr ((hcov _).mpr ⟨ip, hip, rfl⟩)⟩
    · rintro ⟨hip, hfree⟩
      obtain ⟨ip', hip', hval⟩ := (hcov _).mp ((free_iff hw hip).mp hfree)
      rwa [← value_inj ((hlens ip' hip').trans hip.symm) hval]

theorem getSize_getIps_two_ranges : (twoRanges.addresses 4).ncard < 2 ^ 63 ∧
      ∃ ips : List IP, (ips.length : Int) = 5 ∧ getIps (ips.length + 1) twoRanges = ips.map some ++ [none] ∧
        ips.Pairwise (fun a b => Bytes.compare a b = .lt) ∧ ∀ ip : IP, ip ∈ ips ↔ ip ∈ twoRanges.addresses 4 := by
  have hsmall : (twoRanges.addresses 4).ncard < 2 ^ 63 := by
    rw [ncard_addresses (freeListOk_twoRanges.canonical (by decide))]
    decide +kernel
  have hdrain := getSize_getIps 4 twoRanges (by decide) freeListOk_twoRanges hsmall
  rw [show twoRanges.getSize = 5 by decide +kernel] at hdrain
  exact ⟨hsmall, hdrain⟩

end AciContainers.Ipam
