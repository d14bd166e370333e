import AciContainers.IpAlloc
import AciContainers.Runs

/-!
# Removing ranges from a pool

`cutRange` is `cut` on the numbers of the addresses. On a disjoint list the two
binary searches of `removeRange` delimit a window that reaches every range to be
cut, so removal is exact difference of address sets, and its flag reports
whether an address was removed.
-/
namespace AciContainers.Ipam

open Bytes Net Search Intervals List

variable {n : Nat} {r : IpRange} {start stop : IP}

theorem cutRange_spec (hr : r.Width n) (hs : start.length = n) (he : stop.length = n) :
    AllWidth n (cutRange r start stop).1 ∧ (cutRange r start stop).1.map iv = cut (value start) (value stop)
      (iv r) := by
  have h₁ := compare_lt_iff hr.1 hs
  have h₂ := compare_lt_iff hr.2 hs
  have h₃ := compare_gt_iff hr.2 he
  have h₄ := compare_gt_iff hr.1 he
  have hdec : value r.start < value start →
      value (carryDecrement start).1 = value start - 1 := by
    intro hlt
    have := decrement_of_pos (a := start) (by omega)
    omega
  have hinc : value stop < value r.stop → value (carryIncrement stop).1 = value stop + 1 := by
    intro hlt
    have hb := value_lt r.stop
    rw [hr.2, ← he] at hb
    exact increment_of_lt (by omega)
  simp only [cutRange, Intervals.cut, iv_lo, iv_hi, ne_eq, h₁, h₂, h₃, h₄, Nat.not_lt, map_append, allWidth_append]
  refine ⟨⟨?_, ?_⟩, congrArg₂ _ ?_ ?_⟩
  · split
    · split <;> simp [IpRange.Width, hr.1, hr.2, hs]
    · simp
  · split
    · split <;> simp [IpRange.Width, hr.1, hr.2, he]
    · simp
  · by_cases hlt : value r.start < value start
    · by_cases hle : value start ≤ value r.stop <;> simp [iv, hlt, hle, hdec hlt]
    · simp [hlt]
  · by_cases hlt : value stop < value r.stop
    · by_cases hle : value r.start ≤ value stop <;> simp [iv, hlt, hle, hinc hlt]
    · simp [hlt]

/-- The flag of a cut says whether the range and the window meet. -/
theorem cutRange_changed (hr : r.Width n) (hp : value r.start ≤ value r.stop) (hs : start.length = n)
    (he : stop.length = n) : (cutRange r start stop).2 ↔ value r.start ≤ value stop ∧ value start ≤ value r.stop := by
  have h₁ := compare_lt_iff hr.1 hs
  have h₂ := compare_lt_iff hr.2 hs
  have h₃ := compare_gt_iff hr.2 he
  have h₄ := compare_gt_iff hr.1 he
  simp only [cutRange, ne_eq, h₁, h₂, h₃, h₄, Nat.not_lt, Bool.and_eq_true]
  split <;> split <;> (try split) <;> (try split) <;>
    simp only [and_self, and_true, and_false, Bool.false_eq_true, true_iff, false_iff] <;> omega

/-- The back loop ends at a range that ends before `start`, or at the front. -/
theorem removeFrom_spec (l : List IpRange) (start : IP) (i : Nat) :
    removeFrom l start i ≤ i ∧ (removeFrom l start i = 0 ∨
      ∃ r, l[removeFrom l start i]? = some r ∧ Bytes.compare r.stop start = .lt) := by
  induction i with
  | zero => simp [removeFrom]
  | succ i ih =>
    by_cases h : ((l[i + 1]?).map (fun r => Bytes.compare r.stop start != .lt)).getD true
    · rw [removeFrom, if_pos h]
      exact ⟨by omega, ih.2⟩
    · rw [removeFrom, if_neg h]
      refine ⟨le_refl _, Or.inr ?_⟩
      cases hg : l[i + 1]? with
      | none => simp [hg] at h
      | some r => exact ⟨r, rfl, by simpa [hg] using h⟩

/-- The length of what is done exceeds the index of the next range only after a range was
split in two, and then everything behind it starts after `stop`. -/
theorem cut_bound (hr : r.Width n) (hs : start.length = n) (he : stop.length = n) {endind : Nat}
    {done rest : List IpRange} (hsep : ∀ c ∈ rest.map iv, (iv r).hi < c.lo)
    (hbound : ∀ k c, (r :: rest)[k]? = some c → endind < done.length + k → value stop < value c.start) :
    ∀ k c, rest[k]? = some c → endind < (done ++ (cutRange r start stop).1).length + k →
      value stop < value c.start := by
  intro k c hc hk
  have hlen : (cutRange r start stop).1.length = (cut (value start) (value stop) (iv r)).length := by
    rw [← (cutRange_spec hr hs he).2, length_map]
  by_cases hlt : value stop < value r.stop
  · have hnext := hsep (iv c) (mem_map_of_mem (mem_of_getElem? hc))
    simp only [iv_lo, iv_hi] at hnext
    omega
  · have hone : (cut (value start) (value stop) (iv r)).length ≤ 1 := length_cut_le hlt
    refine hbound (k + 1) c (by simpa using hc) ?_
    rw [length_append, hlen] at hk
    omega

/-- The window of ranges that the loop visits reaches every range up to `stop`. -/
theorem cutLoop_spec (hs : start.length = n) (he : stop.length = n) (hse : value start ≤ value stop)
    (endind : Nat) (done rest : List IpRange) (changed : Bool) (hd : AllWidth n done)
    (hw : AllWidth n rest) (hp : Proper (rest.map iv)) (hsep : Separated (rest.map iv))
    (hbound : ∀ k r, rest[k]? = some r → endind < done.length + k → value stop < value r.start) :
    AllWidth n (cutLoop start stop endind done rest changed).1 ∧
      (cutLoop start stop endind done rest changed).1.map iv =
        done.map iv ++ (rest.map iv).flatMap (cut (value start) (value stop)) ∧
      ((cutLoop start stop endind done rest changed).2 ↔
        changed ∨ ∃ x, Covers (rest.map iv) x ∧ value start ≤ x ∧ x ≤ value stop) := by
  induction rest generalizing done changed with
  | nil => simp [cutLoop, hd]
  | cons r rest ih =>
    rw [allWidth_cons] at hw
    rw [map_cons, proper_cons] at hp
    rw [map_cons, separated_cons] at hsep
    have hcut := cutRange_spec hw.1 hs he
    have hch := cutRange_changed hw.1 hp.1 hs he
    by_cases hi : done.length ≤ endind
    · have hd' : AllWidth n (done ++ (cutRange r start stop).1) := by
        rw [allWidth_append]
        exact ⟨hd, hcut.1⟩
      have h := ih (done ++ (cutRange r start stop).1) (changed || (cutRange r start stop).2) hd'
        hw.2 hp.2 hsep.2 (cut_bound hw.1 hs he hsep.1 hbound)
      rw [cutLoop, if_pos hi]
      refine ⟨h.1, ?_, ?_⟩
      · rw [h.2.1, map_append, hcut.2, map_cons, flatMap_cons, append_assoc]
      · rw [h.2.2, Bool.or_eq_true, hch, map_cons, or_assoc]
        apply or_congr_right
        simp only [covers_cons, or_and_right, exists_or]
        apply or_congr_left
        exact (Iv.meets_iff hp.1 hse).symm
    · have hafter : ∀ c ∈ r :: rest, value stop < value c.start := by
        intro c hc
        obtain ⟨k, hk, hck⟩ := mem_iff_getElem.mp hc
        exact hbound k c (by rw [getElem?_eq_getElem hk, hck]) (by omega)
      have hkeep : ((r :: rest).map iv).flatMap (cut (value start) (value stop)) =
          (r :: rest).map iv := by
        apply flatMap_cut_of_apart hse
        · rw [map_cons, proper_cons]
          exact hp
        · intro c hc
          obtain ⟨a, ha, rfl⟩ := mem_map.mp hc
          exact Or.inr (hafter a ha)
      rw [cutLoop, if_neg hi]
      refine ⟨by simp [hd, hw], by rw [hkeep, map_append], ?_⟩
      · refine ⟨Or.inl, ?_⟩
        rintro (h | ⟨x, ⟨c, hc, hx⟩, hx'⟩)
        · exact h
        · obtain ⟨a, ha, rfl⟩ := mem_map.mp hc
          have h₁ := hafter a ha
          have h₂ := hx.1
          simp only [iv_lo] at h₂
          omega

section RemoveRange

variable {ipa : IpAlloc} (hs : start.length = n) (he : stop.length = n)

include hs he

/-- On a disjoint list the visited window is wide enough: the loop cuts the whole list. -/
theorem removeRange_spec (h : Canonical n ipa) (hse : value start ≤ value stop) :
    AllWidth n (ipa.removeRange start stop).1.freeList ∧ (ipa.removeRange start stop).1.freeList.map iv =
        (ipa.freeList.map iv).flatMap (cut (value start) (value stop)) ∧ ((ipa.removeRange start stop).2 ↔
        ∃ x, Covers (ipa.freeList.map iv) x ∧ value start ≤ x ∧ x ≤ value stop) := by
  have hgt : ¬ Bytes.compare start stop = .gt := by
    rw [compare_gt_iff hs he]
    omega
  let endind := searchBy (fun r => Bytes.compare r.stop stop != .lt) ipa.freeList
  let i := removeFrom ipa.freeList start (ipa.startIndex start)
  have hback := removeFrom_spec ipa.freeList start (ipa.startIndex start)
  have hi : i ≤ ipa.freeList.length := le_trans hback.1 (searchBy_le _ _)
  have hsplit := take_append_drop_iv ipa.freeList i
  have hsep := h.separated
  have hprop := h.proper
  rw [← hsplit] at hsep hprop
  have hbefore : ∀ r ∈ (ipa.freeList.take i).map iv, r.hi < value start := by
    rcases hback.2 with h0 | ⟨q, hq, hlt⟩
    · have : i = 0 := h0
      simp [this]
    · intro r hr
      have hqi : ipa.freeList[i]? = some q := hq
      have hmem : iv q ∈ (ipa.freeList.drop i).map iv := by
        apply mem_map_of_mem
        rw [mem_iff_getElem?]
        exact ⟨0, by simpa using hqi⟩
      have h₁ := (separated_append.mp hsep).2.2 r hr (iv q) hmem
      have h₂ := h.proper (iv q) (mem_map_of_mem (mem_of_getElem? hqi))
      have h₃ := (compare_lt_iff (h.width q (mem_of_getElem? hqi)).2 hs).mp hlt
      simp only [iv_lo, iv_hi] at h₁ h₂
      omega
  have hbound : ∀ k r, (ipa.freeList.drop i)[k]? = some r →
      endind < (ipa.freeList.take i).length + k → value stop < value r.start := by
    intro k r hr hk
    rw [length_take, Nat.min_eq_left hi] at hk
    rw [getElem?_drop] at hr
    obtain ⟨hlt, hget⟩ := List.getElem?_eq_some_iff.mp hr
    have hend : endind < ipa.freeList.length := by omega
    have hhit := searchBy_true (fun r => Bytes.compare r.stop stop != .lt) ipa.freeList _
      (getElem?_eq_getElem hend)
    have hpair := pairwise_iff_getElem.mp (pairwise_map.mp h.separated) endind (i + k)
      hend hlt hk
    rw [hget] at hpair
    have hw := h.width _ (getElem_mem hend)
    simp only [bne_iff_ne, ne_eq, compare_lt_iff hw.2 he, iv_lo, iv_hi] at hhit hpair
    omega
  have hloop := cutLoop_spec hs he hse endind (ipa.freeList.take i) (ipa.freeList.drop i) false
    (h.width.take i) (h.width.drop i) (proper_append _ _ |>.mp hprop).2
    (separated_append.mp hsep).2.1 hbound
  have hkeep : ((ipa.freeList.take i).map iv).flatMap (cut (value start) (value stop)) =
      (ipa.freeList.take i).map iv :=
    flatMap_cut_of_apart hse _ (proper_append _ _ |>.mp hprop).1 (fun r hr => Or.inl (hbefore r hr))
  unfold IpAlloc.removeRange
  rw [if_neg hgt]
  refine ⟨hloop.1, ?_, ?_⟩
  · rw [← hsplit, flatMap_append, hkeep]
    exact hloop.2.1
  · rw [← hsplit]
    refine hloop.2.2.trans ?_
    simp only [Bool.false_eq_true, false_or, covers_append, or_and_right, exists_or]
    refine ⟨Or.inr, ?_⟩
    rintro (⟨x, ⟨r, hr, hx⟩, hx'⟩ | hx)
    · have h₁ := hbefore r hr
      have h₂ := hx.2
      omega
    · exact hx

theorem canonical_removeRange (h : Canonical n ipa) : Canonical n (ipa.removeRange start stop).1 := by
  by_cases hgt : Bytes.compare start stop = .gt
  · simpa [IpAlloc.removeRange, hgt] using h
  · have hse := value_le_of_not_gt hs he hgt
    have hspec := removeRange_spec hs he h hse
    refine ⟨hspec.1, ?_, ?_⟩
    · rw [hspec.2.1]
      exact proper_flatMap_cut _ h.proper
    · rw [hspec.2.1]
      exact separated_flatMap_cut hse _ h.separated h.proper

/-- Removing a range from a disjoint list removes exactly its addresses. -/
theorem covers_removeRange (h : Canonical n ipa) (x : Nat) : Covers ((ipa.removeRange start stop).1.freeList.map iv) x ↔
      Covers (ipa.freeList.map iv) x ∧ ¬ (value start ≤ x ∧ x ≤ value stop) := by
  by_cases hgt : Bytes.compare start stop = .gt
  · have hlt := (compare_gt_iff hs he).mp hgt
    have hno : ¬ (value start ≤ x ∧ x ≤ value stop) := by omega
    simp [IpAlloc.removeRange, hgt, hno]
  · have hse := value_le_of_not_gt hs he hgt
    rw [(removeRange_spec hs he h hse).2.1, covers_flatMap_cut hse]

end RemoveRange

theorem covers_lt {n : Nat} {l : List IpRange} (h : AllWidth n l) {x : Nat}
    (hx : Covers (l.map iv) x) : x < 256 ^ n := by
  obtain ⟨r, hr, hx⟩ := hx
  obtain ⟨a, ha, rfl⟩ := mem_map.mp hr
  have hlt := value_lt a.stop
  rw [(h a ha).2] at hlt
  exact lt_of_le_of_lt hx.2 hlt

/-- A range none of whose addresses is free is inserted without a merge to miss. -/
theorem addSettles_of_disjoint {n : Nat} {ipa : IpAlloc} {start stop : IP} (h : Canonical n ipa)
    (hs : start.length = n) (he : stop.length = n)
    (hdis : ∀ x, value start ≤ x → x ≤ value stop → ¬ Covers (ipa.freeList.map iv) x) : ipa.AddSettles start stop := by
  right; right
  intro q hq
  have hmem := mem_of_mem_head? hq
  have hlo := drop_startIndex h.sorted hs (iv q) (mem_map_of_mem hmem)
  have hmem' := mem_of_mem_drop hmem
  have hp := h.proper (iv q) (mem_map_of_mem hmem')
  rw [compare_lt_iff he (h.width q hmem').1]
  by_contra hge
  refine hdis (value q.start) hlo (by omega) ⟨iv q, mem_map_of_mem hmem', le_refl _, hp⟩

theorem canonical_addRange_of_disjoint {n : Nat} {ipa : IpAlloc} {start stop : IP}
    (h : Canonical n ipa) (hs : start.length = n) (he : stop.length = n)
    (hdis : ∀ x, value start ≤ x → x ≤ value stop → ¬ Covers (ipa.freeList.map iv) x) :
    Canonical n (ipa.addRange start stop) :=
  (canonical_addRange_iff h hs he).mpr (addSettles_of_disjoint h hs he hdis)

section

variable (ipa : IpAlloc) (ranges : List IpRange)

theorem sorted_addRanges {n : Nat} (h : Sorted n ipa) (hr : AllWidth n ranges) : Sorted n (ipa.addRanges ranges) := by
  induction ranges generalizing ipa with
  | nil => exact h
  | cons r rest ih =>
    rw [allWidth_cons] at hr
    exact ih _ (sorted_addRange hr.1.1 hr.1.2 h) hr.2

theorem covers_addRanges {n : Nat} (h : Sorted n ipa) (hr : AllWidth n ranges) (x : Nat) :
    Covers ((ipa.addRanges ranges).freeList.map iv) x ↔ Covers (ipa.freeList.map iv) x ∨ Covers (ranges.map iv) x := by
  induction ranges generalizing ipa with
  | nil => simp [IpAlloc.addRanges]
  | cons r rest ih =>
    rw [allWidth_cons] at hr
    have hstep := ih _ (sorted_addRange hr.1.1 hr.1.2 h) hr.2
    rw [covers_addRange hr.1.1 hr.1.2 h] at hstep
    rw [map_cons, covers_cons, ← or_assoc]
    exact hstep

variable (h : Canonical n ipa)
include h

theorem canonical_addRanges_of_disjoint (hr : Canonical n ⟨ranges⟩)
    (hdis : ∀ x, Covers (ranges.map iv) x → ¬ Covers (ipa.freeList.map iv) x) : Canonical n (ipa.addRanges ranges) := by
  induction ranges generalizing ipa with
  | nil => exact h
  | cons r rest ih =>
    obtain ⟨hw, hp, hsep⟩ := hr
    rw [allWidth_cons] at hw
    rw [map_cons, proper_cons] at hp
    rw [map_cons, separated_cons] at hsep
    have hc := canonical_addRange_of_disjoint h hw.1.1 hw.1.2
      (fun x h₁ h₂ => hdis x (by rw [map_cons, covers_cons]; exact Or.inl ⟨h₁, h₂⟩))
    refine ih _ hc ⟨hw.2, hp.2, hsep.2⟩ ?_
    intro x hx
    rw [covers_addRange hw.1.1 hw.1.2 h.sorted]
    rintro (hf | hf)
    · exact hdis x (by rw [map_cons, covers_cons]; exact Or.inr hx) hf
    · obtain ⟨c, hc, hcx⟩ := hx
      have h₁ := hsep.1 c hc
      have h₂ := hcx.1
      simp only [iv_hi] at h₁
      omega

theorem canonical_removeRanges (hr : AllWidth n ranges) : Canonical n (ipa.removeRanges ranges) := by
  induction ranges generalizing ipa with
  | nil => exact h
  | cons r rest ih =>
    rw [allWidth_cons] at hr
    exact ih _ (canonical_removeRange hr.1.1 hr.1.2 h) hr.2

theorem covers_removeRanges (hr : AllWidth n ranges) (x : Nat) : Covers ((ipa.removeRanges ranges).freeList.map iv) x ↔
      Covers (ipa.freeList.map iv) x ∧ ¬ Covers (ranges.map iv) x := by
  induction ranges generalizing ipa with
  | nil => simp [IpAlloc.removeRanges]
  | cons r rest ih =>
    rw [allWidth_cons] at hr
    have hstep := ih _ (canonical_removeRange hr.1.1 hr.1.2 h) hr.2
    rw [covers_removeRange hr.1.1 hr.1.2 h] at hstep
    rw [map_cons, covers_cons, not_or, ← and_assoc]
    exact hstep

omit h

end

/-!
# Taking addresses from a pool

`getIp` takes the first address; `getIpChunk` moves ranges from the front of the pool to a
result pool. Both split the free addresses into what is handed out and what is left, and a
request that cannot be met gives everything back.
-/

theorem getIp_none_iff (ipa : IpAlloc) : ipa.getIp.1 = none ↔ ipa.freeList = [] := by
  unfold IpAlloc.getIp
  split
  · simp_all
  · split <;> simp_all

variable {ipa : IpAlloc}

/-- `getIp` takes the first address out of a disjoint list and leaves the rest. -/
theorem getIp_spec (h : Canonical n ipa) {ip : IP} (hip : ipa.getIp.1 = some ip) :
    ip.length = n ∧ Covers (ipa.freeList.map iv) (value ip) ∧ Canonical n ipa.getIp.2 ∧
      ∀ x, Covers (ipa.getIp.2.freeList.map iv) x ↔ Covers (ipa.freeList.map iv) x ∧ x ≠ value ip := by
  obtain ⟨hw, hp, hsep⟩ := h
  unfold IpAlloc.getIp at hip ⊢
  cases hl : ipa.freeList with
  | nil => simp [hl] at hip
  | cons r rest =>
    rw [hl, allWidth_cons] at hw
    rw [hl, map_cons, proper_cons] at hp
    rw [hl, map_cons] at hsep
    have hcmp := compare_eq_iff hw.1.1 hw.1.2
    have hp₁ := hp.1
    simp only [iv_lo, iv_hi] at hp₁
    by_cases heq : Bytes.compare r.start r.stop = .eq
    · simp only [hl, heq, ↓reduceIte, Option.some.injEq] at hip ⊢
      subst hip
      refine ⟨hw.1.1, by simp [Iv.Has, hp₁], ⟨hw.2, hp.2, (separated_cons.mp hsep).2⟩, ?_⟩
      exact covers_tail hsep (hcmp.mp heq)
    · simp only [hl, heq, ↓reduceIte, Option.some.injEq] at hip ⊢
      subst hip
      have hlt : value r.start < value r.stop := by
        have hne := mt hcmp.mpr heq
        omega
      have hinc : value (carryIncrement r.start).1 = value r.start + 1 := by
        have hb := value_lt r.stop
        rw [hw.1.2, ← hw.1.1] at hb
        exact increment_of_lt (by omega)
      have hiv : iv ⟨(carryIncrement r.start).1, r.stop⟩ = ⟨(iv r).lo + 1, (iv r).hi⟩ := by
        simp [iv, hinc]
      refine ⟨hw.1.1, by simp [Iv.Has, hp₁], ⟨?_, ?_, ?_⟩, ?_⟩
      · rw [allWidth_cons]
        exact ⟨⟨by simp [hw.1.1], hw.1.2⟩, hw.2⟩
      · rw [map_cons, proper_cons]
        exact ⟨by simp only [iv_lo, iv_hi, hinc]; omega, hp.2⟩
      · rw [map_cons, separated_cons]
        exact ⟨(separated_cons.mp hsep).1, (separated_cons.mp hsep).2⟩
      · rw [map_cons, map_cons, hiv]
        exact covers_succ hsep hlt

/-- What a chunk request leaves: on success the chunk and the pool split the old pool,
on failure the pool is as it was. -/
def ChunkSplit (n : Nat) (held : Nat → Prop) (out : Option (List IpRange) × IpAlloc) : Prop :=
  Canonical n out.2 ∧
    match out.1 with
    | some rs => Canonical n ⟨rs⟩ ∧
        (∀ x, Covers (out.2.freeList.map iv) x → ¬ Covers (rs.map iv) x) ∧
        ∀ x, Covers (out.2.freeList.map iv) x ∨ Covers (rs.map iv) x ↔ held x
    | none => ∀ x, Covers (out.2.freeList.map iv) x ↔ held x

theorem ChunkSplit.congr {n : Nat} {held held' : Nat → Prop} (h : ∀ x, held x ↔ held' x)
    {out : Option (List IpRange) × IpAlloc} (hs : ChunkSplit n held out) : ChunkSplit n held' out := by
  have he : held = held' := funext (fun x => propext (h x))
  rwa [← he]

/-- Moving a part `[start, stop]` of the pool to the result keeps both disjoint. -/
theorem chunk_move {result : IpAlloc} {start stop : IP} (h : Canonical n ipa) (hr : Canonical n result)
    (hdis : ∀ x, Covers (ipa.freeList.map iv) x → ¬ Covers (result.freeList.map iv) x)
    (hs : start.length = n) (he : stop.length = n)
    (hin : ∀ x, value start ≤ x → x ≤ value stop → Covers (ipa.freeList.map iv) x) :
    Canonical n (ipa.removeRange start stop).1 ∧ Canonical n (result.addRange start stop) ∧
      (∀ x, Covers ((ipa.removeRange start stop).1.freeList.map iv) x →
        ¬ Covers ((result.addRange start stop).freeList.map iv) x) ∧
      ∀ x, Covers ((ipa.removeRange start stop).1.freeList.map iv) x ∨
          Covers ((result.addRange start stop).freeList.map iv) x ↔
        Covers (ipa.freeList.map iv) x ∨ Covers (result.freeList.map iv) x := by
  refine ⟨canonical_removeRange hs he h, canonical_addRange_of_disjoint hr hs he
    (fun x h₁ h₂ => hdis x (hin x h₁ h₂)), ?_, ?_⟩
  · intro x
    rw [covers_removeRange hs he h, covers_addRange hs he hr.sorted]
    rintro ⟨hx, hno⟩ (hx' | hx')
    · exact hdis x hx hx'
    · exact hno hx'
  · intro x
    rw [covers_removeRange hs he h, covers_addRange hs he hr.sorted]
    by_cases hx : value start ≤ x ∧ x ≤ value stop
    · tauto
    · tauto

theorem getIpChunkLoop_split (chunkSize : Int) (fuel : Nat) (ipa result : IpAlloc)
    (currentSize : Int) (h : Canonical n ipa) (hr : Canonical n result)
    (hdis : ∀ x, Covers (ipa.freeList.map iv) x → ¬ Covers (result.freeList.map iv) x) :
    ChunkSplit n (fun x => Covers (ipa.freeList.map iv) x ∨ Covers (result.freeList.map iv) x)
      (getIpChunkLoop chunkSize fuel ipa result currentSize) := by
  induction fuel generalizing ipa result currentSize with
  | zero => exact ⟨h, hr, hdis, fun x => Iff.rfl⟩
  | succ fuel ih =>
    by_cases hlt : currentSize < chunkSize
    · cases hl : ipa.freeList with
      | nil =>
        simp only [getIpChunkLoop, hlt, ↓reduceIte, hl]
        have hempty : ∀ x, ¬ Covers (ipa.freeList.map iv) x := by simp [hl]
        refine ⟨canonical_addRanges_of_disjoint ipa _ h hr (fun x _ => hempty x), ?_⟩
        intro x
        rw [covers_addRanges ipa _ h.sorted hr.width, hl]
      | cons r rest =>
        have hw : r.Width n := h.width r (by simp [hl])
        have hp := h.proper (iv r) (by simp [hl])
        have hhas : ∀ x, value r.start ≤ x → x ≤ value r.stop →
            Covers (ipa.freeList.map iv) x := by
          intro x h₁ h₂
          rw [hl, map_cons, covers_cons]
          exact Or.inl ⟨h₁, h₂⟩
        simp only [getIpChunkLoop, hlt, ↓reduceIte, hl]
        rw [← hl]
        split
        · have hm := chunk_move h hr hdis hw.1 hw.2 hhas
          exact (ih _ _ _ hm.1 hm.2.1 hm.2.2.1).congr hm.2.2.2
        · rename_i hbig
          have hb := value_lt r.stop
          have hval : value (ofNat r.stop.length
              ((value r.start : Int) + (chunkSize - currentSize) - 1).toNat) ≤ value r.stop := by
            unfold rangeSize at hbig
            rw [value_ofNat _ _ (by omega)]
            omega
          have hm := chunk_move h hr hdis hw.1 ((length_ofNat r.stop.length _).trans hw.2)
            (fun x h₁ h₂ => hhas x h₁ (le_trans h₂ hval))
          exact (ih _ _ _ hm.1 hm.2.1 hm.2.2.1).congr hm.2.2.2
    · simp only [getIpChunkLoop, hlt, ↓reduceIte]
      exact ⟨h, hr, hdis, fun x => Iff.rfl⟩

theorem getIpChunk_split (h : Canonical n ipa) (chunkSize : Int) :
    ChunkSplit n (Covers (ipa.freeList.map iv)) (ipa.getIpChunk chunkSize) := by
  have hs := getIpChunkLoop_split chunkSize chunkSize.toNat ipa new 0 h (canonical_new n)
    (by simp [new])
  exact hs.congr (by simp [new])

/-!
# Call sequences on one pool

The list stays sorted and disjoint as long as every range that is added settles, and then
`getIp` never hands out an address twice without a call in between that adds it again. A range
that does not settle breaks the list: the merge loop stops at the gap before the range and
never sees that the range reaches its successor.
-/

open Runs

inductive Call where
  | addRange (start stop : IP)
  | addIp (ip : IP)
  | addSubnet (subnet : IPNet)
  | addRanges (ranges : List IpRange)
  | addAll (other : IpAlloc)
  | removeRange (start stop : IP)
  | removeIp (ip : IP)
  | removeSubnet (subnet : IPNet)
  | removeRanges (ranges : List IpRange)
  | getIp
  | getIpChunk (chunkSize : Int)
  deriving DecidableEq

def call (ipa : IpAlloc) : Call → IpAlloc
  | .addRange start stop => ipa.addRange start stop
  | .addIp ip => ipa.addIp ip
  | .addSubnet subnet => ipa.addSubnet subnet
  | .addRanges ranges => ipa.addRanges ranges
  | .addAll other => ipa.addAll other
  | .removeRange start stop => (ipa.removeRange start stop).1
  | .removeIp ip => (ipa.removeIp ip).1
  | .removeSubnet subnet => (ipa.removeSubnet subnet).1
  | .removeRanges ranges => ipa.removeRanges ranges
  | .getIp => ipa.getIp.2
  | .getIpChunk chunkSize => (ipa.getIpChunk chunkSize).2

/-- The ranges that a call adds to the list, in order. -/
def Call.added : Call → List IpRange
  | .addRange start stop => [⟨start, stop⟩]
  | .addIp ip => [⟨ip, ip⟩]
  | .addSubnet subnet => [subnetRange subnet]
  | .addRanges ranges => ranges
  | .addAll other => other.freeList
  | _ => []

/-- The ranges that a call takes out of the list, in order. -/
def Call.removed : Call → List IpRange
  | .removeRange start stop => [⟨start, stop⟩]
  | .removeIp ip => [⟨ip, ip⟩]
  | .removeSubnet subnet => [subnetRange subnet]
  | .removeRanges ranges => ranges
  | _ => []

/-- All addresses of the call have `n` bytes. -/
def Call.Width (n : Nat) (c : Call) : Prop := AllWidth n c.added ∧ AllWidth n c.removed

instance (n : Nat) (c : Call) : Decidable (c.Width n) := inferInstanceAs (Decidable (_ ∧ _))

def Call.Adds (c : Call) (ip : IP) : Prop := ∃ r ∈ c.added, r.Contains ip

/-- Every range settles in the list it is added to. -/
def AddsSettle : IpAlloc → List IpRange → Prop
  | _, [] => True
  | ipa, r :: rest => ipa.AddSettles r.start r.stop ∧ AddsSettle (ipa.addRange r.start r.stop) rest

instance decidableAddsSettle (ipa : IpAlloc) : (ranges : List IpRange) →
    Decidable (AddsSettle ipa ranges)
  | [] => .isTrue trivial
  | r :: rest =>
    have := decidableAddsSettle (ipa.addRange r.start r.stop) rest
    inferInstanceAs (Decidable (_ ∧ _))

def Settles (ipa : IpAlloc) (c : Call) : Prop := AddsSettle ipa c.added

instance (ipa : IpAlloc) (c : Call) : Decidable (Settles ipa c) :=
  inferInstanceAs (Decidable (AddsSettle ipa c.added))

theorem canonical_addRanges (ipa : IpAlloc) (ranges : List IpRange) (h : Canonical n ipa)
    (hw : AllWidth n ranges) (hs : AddsSettle ipa ranges) : Canonical n (ipa.addRanges ranges) := by
  induction ranges generalizing ipa with
  | nil => exact h
  | cons r rest ih =>
    rw [allWidth_cons] at hw
    exact ih _ ((canonical_addRange_iff h hw.1.1 hw.1.2).mpr hs.1) hw.2 hs.2

/-- A call adds its ranges, or removes its ranges, or takes from the front. -/
theorem call_cases (ipa : IpAlloc) (c : Call) :
    call ipa c = ipa.addRanges c.added ∨ call ipa c = ipa.removeRanges c.removed ∨
      (c = .getIp ∧ call ipa c = ipa.getIp.2) ∨ ∃ k, c = .getIpChunk k ∧ call ipa c = (ipa.getIpChunk k).2 := by
  cases c with
  | addRange start stop => exact .inl rfl
  | addIp ip => exact .inl rfl
  | addSubnet subnet => exact .inl rfl
  | addRanges ranges => exact .inl rfl
  | addAll other => exact .inl rfl
  | removeRange start stop => exact .inr (.inl rfl)
  | removeIp ip => exact .inr (.inl rfl)
  | removeSubnet subnet => exact .inr (.inl rfl)
  | removeRanges ranges => exact .inr (.inl rfl)
  | getIp => exact .inr (.inr (.inl ⟨rfl, rfl⟩))
  | getIpChunk k => exact .inr (.inr (.inr ⟨k, rfl, rfl⟩))

theorem canonical_getIp (h : Canonical n ipa) : Canonical n ipa.getIp.2 := by
  cases hip : ipa.getIp.1 with
  | some ip => exact (getIp_spec h hip).2.2.1
  | none =>
    have hnil := (getIp_none_iff ipa).mp hip
    have he : ipa.getIp.2 = ipa := by simp [IpAlloc.getIp, hnil]
    rwa [he]

theorem canonical_call (ipa : IpAlloc) (c : Call) (h : Canonical n ipa)
    (hc : c.Width n ∧ Settles ipa c) : Canonical n (call ipa c) := by
  rcases call_cases ipa c with he | he | ⟨-, he⟩ | ⟨k, -, he⟩ <;> rw [he]
  · exact canonical_addRanges ipa _ h hc.1.1 hc.2
  · exact canonical_removeRanges ipa _ h hc.1.2
  · exact canonical_getIp h
  · exact (getIpChunk_split h k).1

/-- A call makes no address free that it does not add. -/
theorem covers_call (ipa : IpAlloc) (c : Call) (h : Canonical n ipa) (hw : c.Width n) (x : Nat)
    (hx : Covers ((call ipa c).freeList.map iv) x) : Covers (ipa.freeList.map iv) x ∨ Covers (c.added.map iv) x := by
  rcases call_cases ipa c with he | he | ⟨-, he⟩ | ⟨k, -, he⟩ <;> rw [he] at hx
  · exact (covers_addRanges ipa _ h.sorted hw.1 x).mp hx
  · exact .inl ((covers_removeRanges ipa _ h hw.2 x).mp hx).1
  · cases hip : ipa.getIp.1 with
    | some ip => exact .inl (((getIp_spec h hip).2.2.2 x).mp hx).1
    | none =>
      have hnil := (getIp_none_iff ipa).mp hip
      simp [IpAlloc.getIp, hnil] at hx
  · have hsplit := (getIpChunk_split h k).2
    cases hres : (ipa.getIpChunk k).1 with
    | some rs =>
      simp only [hres] at hsplit
      exact .inl ((hsplit.2.2 x).mp (.inl hx))
    | none =>
      simp only [hres] at hsplit
      exact .inl ((hsplit x).mp hx)

/-- Ranges with `start ≤ stop`, strictly increasing starts, and no address in two ranges. -/
def FreeListOk (n : Nat) (ipa : IpAlloc) : Prop :=
  (∀ r ∈ ipa.freeList, Bytes.compare r.start r.stop ≠ .gt) ∧
    ipa.freeList.Pairwise (fun a b => Bytes.compare a.start b.start = .lt) ∧
    ipa.freeList.Pairwise (fun a b => ∀ ip : IP, ip.length = n → a.Contains ip → ¬ b.Contains ip)

theorem Canonical.freeListOk (h : Canonical n ipa) : FreeListOk n ipa := by
  obtain ⟨hlt, hdis⟩ := (separated_iff h.proper).mp h.separated
  refine ⟨?_, ?_, ?_⟩
  · intro r hr
    have hp := h.proper (iv r) (mem_map_of_mem hr)
    rw [ne_eq, compare_gt_iff (h.width r hr).1 (h.width r hr).2]
    exact Nat.not_lt.mpr hp
  · refine (pairwise_map.mp hlt).imp_of_mem ?_
    intro a b ha hb hab
    exact (compare_lt_iff (h.width a ha).1 (h.width b hb).1).mpr hab
  · refine (pairwise_map.mp hdis).imp_of_mem ?_
    intro a b ha hb hab ip hip
    rw [contains_iff (h.width a ha) hip, contains_iff (h.width b hb) hip]
    exact hab (value ip)

/-- Every number of a range is the number of an address, so ranges without a common address
have no common number. -/
theorem FreeListOk.canonical (hw : AllWidth n ipa.freeList) (h : FreeListOk n ipa) : Canonical n ipa := by
  obtain ⟨hle, hlt, hdis⟩ := h
  have hp : Proper (ipa.freeList.map iv) := by
    intro r hr
    obtain ⟨a, ha, rfl⟩ := mem_map.mp hr
    have hgt := hle a ha
    rw [ne_eq, compare_gt_iff (hw a ha).1 (hw a ha).2, Nat.not_lt] at hgt
    exact hgt
  refine ⟨hw, hp, (separated_iff hp).mpr ⟨pairwise_map.mpr ?_, pairwise_map.mpr ?_⟩⟩
  · refine hlt.imp_of_mem ?_
    intro a b ha hb hab
    exact (compare_lt_iff (hw a ha).1 (hw b hb).1).mp hab
  · refine hdis.imp_of_mem ?_
    intro a b ha hb hab x hx hx'
    have hbound : x < 256 ^ n := covers_lt hw ⟨iv a, mem_map_of_mem ha, hx⟩
    have hip := length_ofNat n x
    have hval := value_ofNat n x hbound
    refine hab (ofNat n x) hip ?_ ?_
    · rw [contains_iff (hw a ha) hip, hval]
      exact hx
    · rw [contains_iff (hw b hb) hip, hval]
      exact hx'

/-- What `removeRange` owes its caller: the list stays in order, exactly the addresses of the
range are gone, and the result says whether there were any. -/
structure RemovesExactly (n : Nat) (ipa : IpAlloc) (start stop : IP) (out : IpAlloc × Bool) : Prop where
  width : AllWidth n out.1.freeList
  ok : FreeListOk n out.1
  free : ∀ ip : IP, ip.length = n →
    (out.1.Free ip ↔ ipa.Free ip ∧ ¬ (IpRange.mk start stop).Contains ip)
  removed : out.2 = true ↔
    ∃ ip : IP, ip.length = n ∧ ipa.Free ip ∧ (IpRange.mk start stop).Contains ip

/-- Removal is exact on every ordered and disjoint list, for every range of its width. -/
theorem removeRange_exact (n : Nat) (ipa : IpAlloc) (start stop : IP)
    (hw : AllWidth n ipa.freeList) (hok : FreeListOk n ipa) (hs : start.length = n)
    (he : stop.length = n) : RemovesExactly n ipa start stop (ipa.removeRange start stop) := by
  have hcan := hok.canonical hw
  have hcan' := canonical_removeRange hs he hcan
  have hrange : (IpRange.mk start stop).Width n := ⟨hs, he⟩
  refine ⟨hcan'.width, hcan'.freeListOk, ?_, ?_⟩
  · intro ip hip
    rw [free_iff hcan'.width hip, free_iff hw hip, contains_iff hrange hip, covers_removeRange hs he hcan]
    rfl
  · by_cases hse : value start ≤ value stop
    · rw [(removeRange_spec hs he hcan hse).2.2]
      constructor
      · rintro ⟨x, hx, hin⟩
        have hval := value_ofNat n x (covers_lt hw hx)
        refine ⟨ofNat n x, length_ofNat n x, ?_, ?_⟩
        · rw [free_iff hw (length_ofNat n x), hval]
          exact hx
        · rw [contains_iff hrange (length_ofNat n x), hval]
          exact hin
      · rintro ⟨ip, hip, hfree, hin⟩
        exact ⟨value ip, (free_iff hw hip).mp hfree, (contains_iff hrange hip).mp hin⟩
    · -- An empty range: nothing is looked at.
      have hgt : Bytes.compare start stop = .gt := (compare_gt_iff hs he).mpr (by omega)
      have hflag : (ipa.removeRange start stop).2 = false := by simp [IpAlloc.removeRange, hgt]
      rw [hflag]
      refine ⟨fun h => absurd h (by simp), ?_⟩
      rintro ⟨ip, hip, -, hin⟩
      have hx := (contains_iff hrange hip).mp hin
      have h₁ := hx.1
      have h₂ := hx.2
      simp only [iv_lo, iv_hi] at h₁ h₂
      omega

/-- A cut across three ranges that leaves the ends of two of them. -/
theorem removeRange_exact_window : RemovesExactly 4 ⟨[⟨[10, 0, 0, 1], [10, 0, 0, 9]⟩, ⟨[10, 0, 0, 20], [10, 0, 0, 29]⟩,
        ⟨[10, 0, 0, 255], [10, 0, 1, 4]⟩]⟩ [10, 0, 0, 5] [10, 0, 1, 0]
      (⟨[⟨[10, 0, 0, 1], [10, 0, 0, 4]⟩, ⟨[10, 0, 1, 1], [10, 0, 1, 4]⟩]⟩, true) := by
  refine removeRange_exact 4 ⟨[⟨[10, 0, 0, 1], [10, 0, 0, 9]⟩, ⟨[10, 0, 0, 20], [10, 0, 0, 29]⟩,
    ⟨[10, 0, 0, 255], [10, 0, 1, 4]⟩]⟩ [10, 0, 0, 5] [10, 0, 1, 0] (by decide) ?_ rfl rfl
  exact Canonical.freeListOk ⟨by decide, by simp [Proper, iv, value], by simp [Separated, iv, value]⟩

/-- An address that a run of calls does not add stays out of the pool. -/
theorem not_free_run (ipa : IpAlloc) (calls : List Call) (ip : IP) (hip : ip.length = n)
    (h : Canonical n ipa) (hc : Along call (fun s c => c.Width n ∧ Settles s c) ipa calls)
    (hno : ∀ c ∈ calls, ¬ c.Adds ip) (hx : ¬ Covers (ipa.freeList.map iv) (value ip)) :
    ¬ Covers ((run call ipa calls).freeList.map iv) (value ip) := by
  induction calls generalizing ipa with
  | nil => exact hx
  | cons c calls ih =>
    refine ih _ (canonical_call ipa c h hc.1) hc.2
      (fun d hd => hno d (mem_cons_of_mem _ hd)) ?_
    intro hf
    rcases covers_call ipa c h hc.1.1 _ hf with hf | ⟨v, hv, hf⟩
    · exact hx hf
    · obtain ⟨r, hr, rfl⟩ := mem_map.mp hv
      exact hno c (by simp) ⟨r, hr, (contains_iff (hc.1.1.1 r hr) hip).mpr hf⟩

/-- After every call the free list is in order and disjoint, and between two `getIp` calls
that return the same address some call adds it again. -/
def ExclusivePool (n : Nat) (calls : List Call) : Prop :=
  (∀ k, FreeListOk n (run call new (calls.take k))) ∧
    ∀ pre mid post ip, calls = pre ++ .getIp :: (mid ++ .getIp :: post) →
      (run call new pre).getIp.1 = some ip →
      (run call new (pre ++ .getIp :: mid)).getIp.1 = some ip → ∃ c ∈ mid, c.Adds ip

/-- The pool invariant, for every sequence of calls in which every added range settles in
the list it meets. -/
theorem exclusivePool_of_settles (n : Nat) (calls : List Call) (hw : ∀ c ∈ calls, c.Width n)
    (hs : Along call Settles new calls) : ExclusivePool n calls := by
  have hboth : ∀ (s : IpAlloc) (l : List Call), (∀ c ∈ l, c.Width n) → Along call Settles s l →
      Along call (fun s c => c.Width n ∧ Settles s c) s l := by
    intro s l
    induction l generalizing s with
    | nil => simp
    | cons c l ih =>
      intro hl ha
      exact ⟨⟨hl c (by simp), ha.1⟩, ih _ (fun d hd => hl d (mem_cons_of_mem _ hd)) ha.2⟩
  have halong := hboth new calls hw hs
  constructor
  · intro k
    exact (invariant_take canonical_call new calls (canonical_new n) halong k).freeListOk
  · intro pre mid post ip he hfirst hsecond
    by_contra hno
    push Not at hno
    rw [he, along_append, along_cons, along_append] at halong
    obtain ⟨hpre, -, hmid, -⟩ := halong
    have hcan := invariant_run canonical_call new pre (canonical_new n) hpre
    have hget := getIp_spec hcan hfirst
    have hout : ¬ Covers ((call (run call new pre) .getIp).freeList.map iv) (value ip) := by
      intro hx
      exact ((hget.2.2.2 _).mp hx).2 rfl
    have hstay := not_free_run _ mid ip hget.1 (canonical_getIp hcan) hmid hno hout
    have hcan' := invariant_run canonical_call _ mid (canonical_getIp hcan) hmid
    rw [run_append, run_cons] at hsecond
    exact hstay (getIp_spec hcan' hsecond).2.1

/-- Two separate ranges, a third one that meets both, and every address taken. -/
theorem exclusivePool_settled_run :
    ExclusivePool 4 [.addRange [10, 0, 0, 1] [10, 0, 0, 2], .addRange [10, 0, 0, 5] [10, 0, 0, 6],
      .addRange [10, 0, 0, 3] [10, 0, 0, 5], .getIp, .addIp [10, 0, 0, 1], .getIp] :=
  exclusivePool_of_settles 4 _ (by decide) (by decide)

/-- `10.0.0.3-10.0.0.5` overlaps the range behind it, but the merge loop stops at the gap in
front of it: `10.0.0.5` lies in two ranges and is handed out twice. -/
theorem exclusivePool_fails : ¬ ∀ n calls, (∀ c ∈ calls, Call.Width n c) → ExclusivePool n calls := by
  intro h
  have hx := h 4 [.addRange [10, 0, 0, 1] [10, 0, 0, 1], .addRange [10, 0, 0, 5] [10, 0, 0, 6],
    .addRange [10, 0, 0, 3] [10, 0, 0, 5], .getIp, .getIp, .getIp, .getIp, .getIp] (by decide)
  obtain ⟨c, hc, -⟩ := hx.2 [.addRange [10, 0, 0, 1] [10, 0, 0, 1],
    .addRange [10, 0, 0, 5] [10, 0, 0, 6], .addRange [10, 0, 0, 3] [10, 0, 0, 5],
    .getIp, .getIp, .getIp] [] [] [10, 0, 0, 5] rfl (by decide) (by decide)
  simp at hc

end AciContainers.Ipam
