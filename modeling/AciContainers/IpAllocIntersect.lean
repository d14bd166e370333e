import AciContainers.IpAllocRemove

/-!
# Intersection of pools

Two cursors run over the lists and every common part is added to a new pool. What is
added lies in the two ranges under the cursors, whatever order the lists are in. On
ordered and disjoint lists a cursor that moves leaves behind a range whose common part
with the other list has been added, so the result is the intersection.
-/
namespace AciContainers.Ipam

open Bytes Net Intervals List

variable {n x : Nat} {result out : IpAlloc} {a b : IpRange} {l m : List IpRange}

/-- One comparison adds nothing that is not in both ranges. -/
theorem intersectLeft_sound (hr : Sorted n result) (ha : a.Width n) (hb : b.Width n)
    (hab : value a.start ≤ value b.start) : Sorted n (intersectLeft result a b).2.2 ∧
      ∀ x, Covers ((intersectLeft result a b).2.2.freeList.map iv) x →
        Covers (result.freeList.map iv) x ∨ (iv a).Has x ∧ (iv b).Has x := by
  unfold intersectLeft
  by_cases hlt : Bytes.compare a.stop b.start = .lt
  · rw [if_pos hlt]
    exact ⟨hr, fun x hx => .inl hx⟩
  · rw [if_neg hlt]
    cases hc : Bytes.compare a.stop b.stop with
    | lt =>
      have hle := (compare_lt_iff ha.2 hb.2).mp hc
      refine ⟨sorted_addRange hb.1 ha.2 hr, ?_⟩
      intro x hx
      refine ((covers_addRange hb.1 ha.2 hr x).mp hx).imp id ?_
      intro h
      exact ⟨⟨le_trans hab h.1, h.2⟩, ⟨h.1, le_trans h.2 (le_of_lt hle)⟩⟩
    | eq =>
      have he := (compare_eq_iff ha.2 hb.2).mp hc
      refine ⟨sorted_addRange hb.1 ha.2 hr, ?_⟩
      intro x hx
      refine ((covers_addRange hb.1 ha.2 hr x).mp hx).imp id ?_
      intro h
      exact ⟨⟨le_trans hab h.1, h.2⟩, ⟨h.1, le_trans h.2 (le_of_eq he)⟩⟩
    | gt =>
      have hle := (compare_gt_iff ha.2 hb.2).mp hc
      refine ⟨sorted_addRange hb.1 hb.2 hr, ?_⟩
      intro x hx
      refine ((covers_addRange hb.1 hb.2 hr x).mp hx).imp id ?_
      intro h
      exact ⟨⟨le_trans hab h.1, le_trans h.2 (le_of_lt hle)⟩, h⟩

theorem advance_subset (move : Bool) (l : List IpRange) : ∀ r ∈ advance move l, r ∈ l := by
  intro r hr
  cases move with
  | true => exact mem_of_mem_tail hr
  | false => exact hr

theorem covers_of_subset (h : ∀ r ∈ l, r ∈ m) (hx : Covers (l.map iv) x) : Covers (m.map iv) x := by
  obtain ⟨v, hv, hx⟩ := hx
  obtain ⟨r, hr, rfl⟩ := mem_map.mp hv
  exact ⟨iv r, mem_map_of_mem (h r hr), hx⟩

theorem intersectLoop_sound (fuel : Nat) (l m : List IpRange) (result : IpAlloc) (hl : AllWidth n l)
    (hm : AllWidth n m) (hr : Sorted n result) : Sorted n (intersectLoop fuel l m result) ∧
      ∀ x, Covers ((intersectLoop fuel l m result).freeList.map iv) x →
        Covers (result.freeList.map iv) x ∨ Covers (l.map iv) x ∧ Covers (m.map iv) x := by
  induction fuel generalizing l m result with
  | zero => exact ⟨hr, fun x hx => .inl hx⟩
  | succ fuel ih =>
    cases l with
    | nil => exact ⟨hr, fun x hx => .inl hx⟩
    | cons a l =>
      cases m with
      | nil => exact ⟨hr, fun x hx => .inl hx⟩
      | cons b m =>
        have ha := hl a mem_cons_self
        have hb := hm b mem_cons_self
        rw [intersectLoop]
        have hnext : ∀ (p q : Bool) (res : IpAlloc), Sorted n res →
            (∀ x, Covers (res.freeList.map iv) x →
              Covers (result.freeList.map iv) x ∨ (iv a).Has x ∧ (iv b).Has x) →
            Sorted n (intersectLoop fuel (advance p (a :: l)) (advance q (b :: m)) res) ∧
              ∀ x, Covers ((intersectLoop fuel (advance p (a :: l)) (advance q (b :: m)) res).freeList.map iv) x →
                Covers (result.freeList.map iv) x ∨
                  Covers ((a :: l).map iv) x ∧ Covers ((b :: m).map iv) x := by
          intro p q res hres hcov
          obtain ⟨hs, hx⟩ := ih _ _ res (fun r hr => hl r (advance_subset p _ r hr))
            (fun r hr => hm r (advance_subset q _ r hr)) hres
          refine ⟨hs, fun x hxc => ?_⟩
          cases hx x hxc with
          | inl h =>
            refine (hcov x h).imp id fun hab => ?_
            exact ⟨⟨iv a, by simp, hab.1⟩, ⟨iv b, by simp, hab.2⟩⟩
          | inr h =>
            exact .inr ⟨covers_of_subset (advance_subset p _) h.1, covers_of_subset (advance_subset q _) h.2⟩
        by_cases hlt : Bytes.compare a.start b.start = .lt
        · rw [if_pos hlt]
          have hle := (compare_lt_iff ha.1 hb.1).mp hlt
          obtain ⟨hs, hx⟩ := intersectLeft_sound hr ha hb (le_of_lt hle)
          exact hnext _ _ _ hs hx
        · rw [if_neg hlt]
          have hle := mt (compare_lt_iff ha.1 hb.1).mpr hlt
          obtain ⟨hs, hx⟩ := intersectLeft_sound hr hb ha (by omega)
          exact hnext _ _ _ hs (fun x h => (hx x h).imp id And.symm)

/-- The intersection is sorted and lies in both pools. -/
theorem intersect_sound {ipa other : IpAlloc} (h : AllWidth n ipa.freeList) (ho : AllWidth n other.freeList) :
    Sorted n (ipa.intersect other) ∧ ∀ x, Covers ((ipa.intersect other).freeList.map iv) x →
      Covers (ipa.freeList.map iv) x ∧ Covers (other.freeList.map iv) x := by
  obtain ⟨hs, hx⟩ := intersectLoop_sound (ipa.freeList.length + other.freeList.length)
    ipa.freeList other.freeList new h ho (canonical_new n).sorted
  refine ⟨hs, fun x hc => ?_⟩
  cases hx x hc with
  | inl h => exact absurd h (by simp [new])
  | inr h => exact h

/-- What one comparison of the ranges `a` and `b` does: the one that ends first is left
behind, and their common part is in the result. -/
structure Swept (n : Nat) (result : IpAlloc) (a b : IpRange) (movesA movesB : Bool) (out : IpAlloc) : Prop where
  moves : movesA = true ∨ movesB = true
  left : movesA = true → value a.stop ≤ value b.stop
  right : movesB = true → value b.stop ≤ value a.stop
  canonical : Canonical n out
  covers : ∀ x, Covers (out.freeList.map iv) x ↔ Covers (result.freeList.map iv) x ∨ (iv a).Has x ∧ (iv b).Has x

theorem Swept.swap {movesA movesB : Bool} (h : Swept n result a b movesA movesB out) :
    Swept n result b a movesB movesA out :=
  ⟨h.moves.symm, h.right, h.left, h.canonical, fun x => (h.covers x).trans (or_congr_right And.comm)⟩

/-- Adding the common part of two ranges that overlap. -/
theorem covers_common {n : Nat} {result : IpAlloc} {a b : IpRange} {start stop : IP} (hr : Canonical n result)
    (hs : start.length = n) (he : stop.length = n)
    (hcommon : ∀ x, value start ≤ x ∧ x ≤ value stop ↔ (iv a).Has x ∧ (iv b).Has x)
    (hdis : ∀ x, (iv a).Has x → (iv b).Has x → ¬ Covers (result.freeList.map iv) x) :
    Canonical n (result.addRange start stop) ∧ ∀ x, Covers ((result.addRange start stop).freeList.map iv) x ↔
      Covers (result.freeList.map iv) x ∨ (iv a).Has x ∧ (iv b).Has x := by
  constructor
  · refine canonical_addRange_of_disjoint hr hs he fun x hlo hhi => ?_
    obtain ⟨hxa, hxb⟩ := (hcommon x).mp ⟨hlo, hhi⟩
    exact hdis x hxa hxb
  · intro x
    rw [covers_addRange hs he hr.sorted, ← hcommon]

theorem swept_intersectLeft (hr : Canonical n result) (ha : a.Width n) (hb : b.Width n)
    (hab : value a.start ≤ value b.start) (hp : value b.start ≤ value b.stop)
    (hdis : ∀ x, (iv a).Has x → (iv b).Has x → ¬ Covers (result.freeList.map iv) x) :
    Swept n result a b (intersectLeft result a b).1 (intersectLeft result a b).2.1 (intersectLeft result a b).2.2 := by
  unfold intersectLeft
  by_cases hlt : Bytes.compare a.stop b.start = .lt
  · rw [if_pos hlt]
    have hgap := (compare_lt_iff ha.2 hb.1).mp hlt
    refine ⟨.inl rfl, fun _ => by omega, by simp, hr, fun x => ?_⟩
    simp only [Iv.Has, iv_lo, iv_hi]
    constructor
    · exact .inl
    · rintro (hx | hx)
      · exact hx
      · omega
  · rw [if_neg hlt]
    cases hc : Bytes.compare a.stop b.stop with
    | lt =>
      have hle := (compare_lt_iff ha.2 hb.2).mp hc
      obtain ⟨hcan, hcov⟩ := @covers_common n result a b _ _ hr hb.1 ha.2
        (fun x => by simp only [Iv.Has, iv_lo, iv_hi]; omega) hdis
      exact ⟨.inl rfl, fun _ => by omega, by simp, hcan, hcov⟩
    | eq =>
      have heq := (compare_eq_iff ha.2 hb.2).mp hc
      obtain ⟨hcan, hcov⟩ := @covers_common n result a b _ _ hr hb.1 ha.2
        (fun x => by simp only [Iv.Has, iv_lo, iv_hi]; omega) hdis
      exact ⟨.inl rfl, fun _ => by omega, fun _ => by omega, hcan, hcov⟩
    | gt =>
      have hle := (compare_gt_iff ha.2 hb.2).mp hc
      obtain ⟨hcan, hcov⟩ := @covers_common n result a b _ _ hr hb.1 hb.2
        (fun x => by simp only [Iv.Has, iv_lo, iv_hi]; omega) hdis
      exact ⟨.inr rfl, by simp, fun _ => by omega, hcan, hcov⟩

/-- A cursor that moves gives up the addresses up to the end of the range it leaves. -/
theorem covers_advance (h : Canonical n ⟨a :: l⟩) (move : Bool) (x : Nat) :
    Covers ((advance move (a :: l)).map iv) x ↔ Covers ((a :: l).map iv) x ∧ (move → value a.stop < x) := by
  have hsep := h.separated
  cases move with
  | false => simp [advance]
  | true =>
    simp only [advance, if_true, tail_cons, map_cons, covers_cons, true_implies]
    constructor
    · intro hx
      exact ⟨.inr hx, hsep.lt_of_covers hx⟩
    · rintro ⟨hx | hx, hlt⟩
      · have hle := hx.2
        simp only [iv_hi] at hle
        omega
      · exact hx

theorem canonical_advance (h : Canonical n ⟨l⟩) (move : Bool) : Canonical n ⟨advance move l⟩ := by
  cases move with
  | false => exact h
  | true =>
    refine ⟨fun r hr => h.width r (mem_of_mem_tail hr), ?_, ?_⟩
    · intro v hv
      obtain ⟨r, hr, rfl⟩ := mem_map.mp hv
      exact h.proper (iv r) (mem_map_of_mem (mem_of_mem_tail hr))
    · exact h.separated.sublist ((tail_sublist l).map iv)

theorem length_advance (move : Bool) (a : IpRange) (l : List IpRange) :
    (advance move (a :: l)).length + move.toNat = (a :: l).length := by
  cases move <;> simp [advance]

/-- An address of the first list up to the end of its first range is in that range. -/
theorem head_has (h : Canonical n ⟨a :: l⟩) (hx : Covers ((a :: l).map iv) x) (hle : x ≤ value a.stop) :
    (iv a).Has x := by
  have hsep := h.separated
  rw [map_cons, covers_cons] at hx
  cases hx with
  | inl hx => exact hx
  | inr hx =>
    have hlt := hsep.lt_of_covers hx
    simp only [iv_hi] at hlt
    omega

/-- After a round the common part is split between the result and what lies ahead. -/
theorem Swept.split {p q : Bool} (h : Swept n result a b p q out) (hl : Canonical n ⟨a :: l⟩)
    (hm : Canonical n ⟨b :: m⟩) (x : Nat) : Covers (out.freeList.map iv) x ∨
        Covers ((advance p (a :: l)).map iv) x ∧ Covers ((advance q (b :: m)).map iv) x ↔
      Covers (result.freeList.map iv) x ∨ Covers ((a :: l).map iv) x ∧ Covers ((b :: m).map iv) x := by
  rw [h.covers, covers_advance hl, covers_advance hm]
  constructor
  · rintro ((hx | ⟨hxa, hxb⟩) | ⟨⟨hxl, -⟩, hxm, -⟩)
    · exact .inl hx
    · exact .inr ⟨⟨iv a, by simp, hxa⟩, ⟨iv b, by simp, hxb⟩⟩
    · exact .inr ⟨hxl, hxm⟩
  · rintro (hx | ⟨hxl, hxm⟩)
    · exact .inl (.inl hx)
    · by_cases hp : p ∧ x ≤ value a.stop
      · have hle := h.left hp.1
        exact .inl (.inr ⟨head_has hl hxl hp.2, head_has hm hxm (by omega)⟩)
      · by_cases hq : q ∧ x ≤ value b.stop
        · have hle := h.right hq.1
          exact .inl (.inr ⟨head_has hl hxl (by omega), head_has hm hxm hq.2⟩)
        · refine .inr ⟨⟨hxl, fun h => ?_⟩, hxm, fun h => ?_⟩
          · exact Nat.lt_of_not_le fun hle => hp ⟨h, hle⟩
          · exact Nat.lt_of_not_le fun hle => hq ⟨h, hle⟩

/-- What lies ahead of both cursors is never in the result. -/
theorem Swept.ahead {p q : Bool} (h : Swept n result a b p q out) (hl : Canonical n ⟨a :: l⟩)
    (hm : Canonical n ⟨b :: m⟩)
    (hdis : ∀ x, Covers ((a :: l).map iv) x → Covers ((b :: m).map iv) x → ¬ Covers (result.freeList.map iv) x)
    (x : Nat) (hxl : Covers ((advance p (a :: l)).map iv) x)
    (hxm : Covers ((advance q (b :: m)).map iv) x) : ¬ Covers (out.freeList.map iv) x := by
  rw [covers_advance hl] at hxl
  rw [covers_advance hm] at hxm
  rw [h.covers]
  rintro (hx | ⟨hxa, hxb⟩)
  · exact hdis x hxl.1 hxm.1 hx
  · have hea := hxa.2
    have heb := hxb.2
    simp only [iv_hi] at hea heb
    cases h.moves with
    | inl hp => have hlt := hxl.2 hp; omega
    | inr hq => have hlt := hxm.2 hq; omega

theorem intersectLoop_exact (fuel : Nat) (l m : List IpRange) (result : IpAlloc) (hl : Canonical n ⟨l⟩)
    (hm : Canonical n ⟨m⟩) (hr : Canonical n result) (hfuel : l.length + m.length ≤ fuel)
    (hdis : ∀ x, Covers (l.map iv) x → Covers (m.map iv) x → ¬ Covers (result.freeList.map iv) x) :
    Canonical n (intersectLoop fuel l m result) ∧ ∀ x, Covers ((intersectLoop fuel l m result).freeList.map iv) x ↔
        Covers (result.freeList.map iv) x ∨ Covers (l.map iv) x ∧ Covers (m.map iv) x := by
  induction fuel generalizing l m result with
  | zero =>
    have hnil : l = [] := eq_nil_of_length_eq_zero (by omega)
    exact ⟨hr, by simp [intersectLoop, hnil]⟩
  | succ fuel ih =>
    cases l with
    | nil => exact ⟨hr, by simp [intersectLoop]⟩
    | cons a l =>
      cases m with
      | nil => exact ⟨hr, by simp [intersectLoop]⟩
      | cons b m =>
        have ha := hl.width a mem_cons_self
        have hb := hm.width b mem_cons_self
        have hpa : value a.start ≤ value a.stop := hl.proper (iv a) (by simp)
        have hpb : value b.start ≤ value b.stop := hm.proper (iv b) (by simp)
        have hhead : ∀ x, (iv a).Has x → (iv b).Has x → ¬ Covers (result.freeList.map iv) x :=
          fun x hxa hxb => hdis x ⟨iv a, by simp, hxa⟩ ⟨iv b, by simp, hxb⟩
        have hnext : ∀ (p q : Bool) (out : IpAlloc), Swept n result a b p q out →
            Canonical n (intersectLoop fuel (advance p (a :: l)) (advance q (b :: m)) out) ∧
              ∀ x, Covers ((intersectLoop fuel (advance p (a :: l)) (advance q (b :: m)) out).freeList.map iv) x ↔
                Covers (result.freeList.map iv) x ∨ Covers ((a :: l).map iv) x ∧ Covers ((b :: m).map iv) x := by
          intro p q out h
          have hp := length_advance p a l
          have hq := length_advance q b m
          have hmove : 1 ≤ p.toNat + q.toNat := by
            cases h.moves with
            | inl hp => simp [hp]
            | inr hq => simp [hq]
          obtain ⟨hcan, hcov⟩ := ih _ _ out (canonical_advance hl p) (canonical_advance hm q) h.canonical
            (by omega) (h.ahead hl hm hdis)
          exact ⟨hcan, fun x => (hcov x).trans (h.split hl hm x)⟩
        rw [intersectLoop]
        by_cases hlt : Bytes.compare a.start b.start = .lt
        · rw [if_pos hlt]
          have hle := (compare_lt_iff ha.1 hb.1).mp hlt
          exact hnext _ _ _ (swept_intersectLeft hr ha hb (le_of_lt hle) hpb hhead)
        · rw [if_neg hlt]
          have hle := mt (compare_lt_iff ha.1 hb.1).mpr hlt
          have hswept := swept_intersectLeft hr hb ha (by omega) hpa fun x hxb hxa => hhead x hxa hxb
          exact hnext _ _ _ hswept.swap

/-- The intersection of two ordered and disjoint lists is ordered and disjoint and
denotes the addresses in both, whichever list comes first. -/
theorem intersect_exact (n : Nat) (ipa other : IpAlloc) (hw : AllWidth n ipa.freeList) (hok : FreeListOk n ipa)
    (hw' : AllWidth n other.freeList) (hok' : FreeListOk n other) :
    AllWidth n (ipa.intersect other).freeList ∧ FreeListOk n (ipa.intersect other) ∧
      (∀ ip : IP, ip.length = n → ((ipa.intersect other).Free ip ↔ ipa.Free ip ∧ other.Free ip)) ∧
      ∀ ip : IP, ip.length = n → ((other.intersect ipa).Free ip ↔ (ipa.intersect other).Free ip) := by
  have hcan := hok.canonical hw
  have hcan' := hok'.canonical hw'
  have hexact := intersectLoop_exact (ipa.freeList.length + other.freeList.length) ipa.freeList other.freeList new
    hcan hcan' (canonical_new n) (le_refl _) (by simp [new])
  have hexact' := intersectLoop_exact (other.freeList.length + ipa.freeList.length) other.freeList ipa.freeList new
    hcan' hcan (canonical_new n) (le_refl _) (by simp [new])
  obtain ⟨hinter, hcov⟩ := hexact
  obtain ⟨hinter', hcov'⟩ := hexact'
  refine ⟨hinter.width, hinter.freeListOk, fun ip hip => ?_, fun ip hip => ?_⟩
  · rw [free_iff hw hip, free_iff hw' hip]
    refine (free_iff hinter.width hip).trans ((hcov _).trans ?_)
    simp [new]
  · refine (free_iff hinter'.width hip).trans ((hcov' _).trans ?_)
    refine Iff.trans ?_ ((hcov _).symm.trans (free_iff hinter.width hip).symm)
    simp [new, and_comm]

/-- Two lists where each cursor moves alone and both move at once. -/
theorem intersect_exact_two_lists : FreeListOk 4 ⟨[⟨[10, 0, 0, 3], [10, 0, 0, 4]⟩, ⟨[10, 0, 0, 8], [10, 0, 0, 9]⟩]⟩ ∧
      ∀ ip : IP, ip.length = 4 → ((IpAlloc.mk [⟨[10, 0, 0, 3], [10, 0, 0, 4]⟩,
        ⟨[10, 0, 0, 8], [10, 0, 0, 9]⟩]).Free ip ↔
          (IpAlloc.mk [⟨[10, 0, 0, 1], [10, 0, 0, 4]⟩, ⟨[10, 0, 0, 6], [10, 0, 0, 9]⟩]).Free ip ∧
            (IpAlloc.mk [⟨[10, 0, 0, 3], [10, 0, 0, 5]⟩, ⟨[10, 0, 0, 8], [10, 0, 0, 9]⟩]).Free ip) := by
  have h := intersect_exact 4 ⟨[⟨[10, 0, 0, 1], [10, 0, 0, 4]⟩, ⟨[10, 0, 0, 6], [10, 0, 0, 9]⟩]⟩
    ⟨[⟨[10, 0, 0, 3], [10, 0, 0, 5]⟩, ⟨[10, 0, 0, 8], [10, 0, 0, 9]⟩]⟩ (by decide)
    (Canonical.freeListOk ⟨by decide, by simp [Proper, iv, value], by simp [Separated, iv, value]⟩) (by decide)
    (Canonical.freeListOk ⟨by decide, by simp [Proper, iv, value], by simp [Separated, iv, value]⟩)
  exact ⟨h.2.1, h.2.2.1⟩

end AciContainers.Ipam
