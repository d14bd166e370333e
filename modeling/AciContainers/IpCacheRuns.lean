import AciContainers.IpCache

/-!
# Allocation histories of the address cache

A ledger keeps, beside the cache, which addresses are out and which ones a
successful `removeIp` took away. Free, allocated and removed addresses stay
disjoint and together are the loaded ones. A removal that finds nothing reports
failure and counts for nothing, also when the address is merely allocated.
-/
namespace AciContainers.Ipam

open Bytes Net Intervals Runs List

/-- The cache, with the addresses that are out, those that `removeIp` was asked to remove and
those for which it reported success. -/
structure Ledger where
  cache : IpCache
  allocated : List IP
  asked : List IP
  removed : List IP
  deriving DecidableEq

inductive CacheCall where
  | allocateIp (ipv4 : Bool)
  | deallocateIp (ip : IP)
  | removeIp (ip : IP)
  deriving DecidableEq

def Ledger.step (s : Ledger) : CacheCall → Ledger
  | .allocateIp ipv4 =>
    { s with
      cache := (s.cache.allocateIp ipv4).2
      allocated := (s.cache.allocateIp ipv4).1.toList ++ s.allocated }
  | .deallocateIp ip =>
    { s with cache := s.cache.deallocateIp ip, allocated := s.allocated.erase ip }
  | .removeIp ip =>
    { s with
      cache := (s.cache.removeIp ip).1
      asked := ip :: s.asked
      removed := if (s.cache.removeIp ip).2 then ip :: s.removed else s.removed }

def Ledger.load (ranges : List IpRange) : Ledger := ⟨newIpCache.loadRanges ranges, [], [], []⟩

/-- Only addresses that are out are given back. -/
def Ledger.Allowed (s : Ledger) : CacheCall → Prop
  | .deallocateIp ip => ip ∈ s.allocated
  | _ => True

instance (s : Ledger) : (c : CacheCall) → Decidable (s.Allowed c)
  | .allocateIp _ => .isTrue trivial
  | .deallocateIp ip => inferInstanceAs (Decidable (ip ∈ s.allocated))
  | .removeIp _ => .isTrue trivial

def IpLists.Free (l : IpLists) (ip : IP) : Prop := l.front.Free ip ∨ l.back.Free ip

def IpCache.Free (c : IpCache) (ip : IP) : Prop := (c.lists true).Free ip ∨ (c.lists false).Free ip

instance (l : IpLists) (ip : IP) : Decidable (l.Free ip) := inferInstanceAs (Decidable (_ ∨ _))
instance (c : IpCache) (ip : IP) : Decidable (c.Free ip) := inferInstanceAs (Decidable (_ ∨ _))

def DisjointRanges (ranges : List IpRange) : Prop :=
  ranges.Pairwise fun r q => ∀ ip : IP, ip.length = 16 → r.Contains ip → ¬ q.Contains ip

def Loaded (ranges : List IpRange) (ip : IP) : Prop := ∃ r ∈ ranges, r.Contains ip

theorem IpLists.free_iff {l : IpLists} {ip : IP} (h : l.Ok) (hip : ip.length = 16) : l.Free ip ↔ l.Holds (value ip) :=
  or_congr (Ipam.free_iff h.front.width hip) (Ipam.free_iff h.back.width hip)

theorem IpCache.free_iff {c : IpCache} {ip : IP} (h : c.Ok) (hip : ip.length = 16) : c.Free ip ↔ c.Holds (value ip) :=
  or_congr (IpLists.free_iff (h.lists true) hip) (IpLists.free_iff (h.lists false) hip)

theorem value_eq_iff {n : Nat} {a b : IP} (ha : a.length = n) (hb : b.length = n) : value a = value b ↔ a = b :=
  ⟨value_inj (ha.trans hb.symm), fun h => h ▸ rfl⟩

theorem loaded_iff {n : Nat} {ranges : List IpRange} {ip : IP} (h : AllWidth n ranges)
    (hip : ip.length = n) : Loaded ranges ip ↔ Covers (ranges.map iv) (value ip) :=
  @Ipam.free_iff n ⟨ranges⟩ ip h hip

/-- The addresses of the ledger, given by their numbers in the cache. `pure` says what is
gained when no loaded range has addresses of both families. -/
structure Ledger.Inv (ranges : List IpRange) (s : Ledger) : Prop where
  ok : s.cache.Ok
  pure : (∀ r ∈ ranges, OneFamily r) → ∀ x, (s.cache.lists false).Holds x → ¬ V4Value x
  width : ∀ ip ∈ s.allocated, ip.length = 16
  removed_width : ∀ ip ∈ s.removed, ip.length = 16
  nodup : s.allocated.Nodup
  allocated_apart : ∀ ip ∈ s.allocated, ¬ s.cache.Holds (value ip)
  conserve : ∀ ip : IP, ip.length = 16 →
    (s.cache.Holds (value ip) ∨ ip ∈ s.allocated ↔
      Covers (ranges.map iv) (value ip) ∧ ip ∉ s.removed)

variable {r : IpRange}

theorem not_v4Value_of_oneFamily (hr : r.Width 16) (h : OneFamily r)
    (hend : ¬ V4Value (value r.start) ∨ ¬ V4Value (value r.stop)) {x : Nat} (hx : (iv r).Has x) : ¬ V4Value x := by
  have hlt : x < 256 ^ 16 := by
    have h₁ := value_lt r.stop
    rw [hr.2] at h₁
    exact lt_of_le_of_lt hx.2 h₁
  have hlen : (ofNat 16 x).length = 16 := length_ofNat 16 x
  have hval : value (ofNat 16 x) = x := value_ofNat 16 x hlt
  have hle : value r.start ≤ value r.stop := le_trans hx.1 hx.2
  have hall : ∀ e : IP, e.length = 16 → r.Contains e → ¬ V4Value (value e) → ¬ V4Value x := by
    intro e he hre hne hv
    have hcon : r.Contains (ofNat 16 x) := by
      rw [contains_iff hr hlen, hval]
      exact hx
    have hsame := h _ e hlen he hcon hre
    rw [Bool.eq_iff_iff, to4_isSome_iff hlen, to4_isSome_iff he, hval] at hsame
    exact hne (hsame.mp hv)
  cases hend with
  | inl hs => exact hall r.start hr.1 ((contains_iff hr hr.1).mpr ⟨le_refl _, hle⟩) hs
  | inr hs => exact hall r.stop hr.2 ((contains_iff hr hr.2).mpr ⟨hle, le_refl _⟩) hs

/-- Loading disjoint ranges makes exactly their addresses free. -/
theorem loadRanges_spec (done ranges : List IpRange) (c : IpCache) (hw : AllWidth 16 (done ++ ranges))
    (hd : (done ++ ranges).Pairwise fun r q => ∀ x, (iv r).Has x → ¬ (iv q).Has x) (h : c.Ok)
    (hx : ∀ x, c.Holds x ↔ Covers (done.map iv) x)
    (hp : (∀ r ∈ done, OneFamily r) → ∀ x, (c.lists false).Holds x → ¬ V4Value x) : (c.loadRanges ranges).Ok ∧
      (∀ x, (c.loadRanges ranges).Holds x ↔ Covers ((done ++ ranges).map iv) x) ∧
      ((∀ r ∈ done ++ ranges, OneFamily r) → ∀ x, ((c.loadRanges ranges).lists false).Holds x → ¬ V4Value x) := by
  induction ranges generalizing done c with
  | nil =>
    rw [append_nil] at *
    exact ⟨h, hx, hp⟩
  | cons r rest ih =>
    have hr : r.Width 16 := hw r (by simp)
    have hfresh : ∀ x, (iv r).Has x → ¬ c.Holds x := by
      intro x hrx hc
      obtain ⟨v, hv, hvx⟩ := (hx x).mp hc
      obtain ⟨q, hq, rfl⟩ := mem_map.mp hv
      exact (pairwise_append.mp hd).2.2 q hq r (by simp) x hvx hrx
    obtain ⟨hok, v, hv4, hv6, hload⟩ := IpCache.loadRange_spec h hr hfresh
    have happ : done ++ r :: rest = (done ++ [r]) ++ rest := by simp
    rw [happ] at hw hd ⊢
    refine ih (done ++ [r]) (c.loadRange r) hw hd hok ?_ ?_
    · intro x
      rw [IpCache.holds_iff _ v, hload, hload, map_append, covers_append, ← hx x, IpCache.holds_iff c v]
      simp
      tauto
    · intro hone x hxr
      cases (hload false x).mp hxr with
      | inl hc => exact hp (fun q hq => hone q (by simp [hq])) x hc
      | inr hc => exact not_v4Value_of_oneFamily hr (hone r (by simp)) (hv6 hc.1.symm) hc.2

variable {ranges : List IpRange}

theorem disjointRanges_iv (hw : AllWidth 16 ranges) (hd : DisjointRanges ranges) :
    ranges.Pairwise fun r q => ∀ x, (iv r).Has x → ¬ (iv q).Has x := by
  refine List.Pairwise.imp_of_mem ?_ hd
  intro r q hr hq hrq x hrx hqx
  have hlt : x < 256 ^ 16 := by
    have h₁ := value_lt r.stop
    rw [(hw r hr).2] at h₁
    exact lt_of_le_of_lt hrx.2 h₁
  have hval := value_ofNat 16 x hlt
  refine hrq (ofNat 16 x) (length_ofNat 16 x) ?_ ?_
  · rw [contains_iff (hw r hr) (length_ofNat 16 x), hval]
    exact hrx
  · rw [contains_iff (hw q hq) (length_ofNat 16 x), hval]
    exact hqx

theorem disjointRanges_pair {q : IpRange} (hr : r.Width 16) (hq : q.Width 16)
    (h : value r.stop < value q.start) : DisjointRanges [r, q] := by
  refine pairwise_cons.mpr ⟨?_, pairwise_singleton _ _⟩
  intro c hc ip hip hri hci
  rw [mem_singleton.mp hc, contains_iff hq hip] at hci
  rw [contains_iff hr hip] at hri
  exact absurd (le_trans hci.1 hri.2) (not_le.mpr h)

theorem Ledger.inv_load (hw : AllWidth 16 ranges) (hd : DisjointRanges ranges) : (Ledger.load ranges).Inv ranges := by
  have hd' := disjointRanges_iv hw hd
  obtain ⟨hok, hholds, hpure⟩ := loadRanges_spec [] ranges newIpCache hw hd' IpCache.ok_new
    (by simp [IpCache.Holds, IpLists.Holds]) (by simp [IpLists.Holds])
  refine ⟨hok, hpure, ?_, ?_, nodup_nil, ?_, ?_⟩
  · simp [Ledger.load]
  · simp [Ledger.load]
  · simp [Ledger.load]
  · intro ip _
    simpa [Ledger.load] using hholds (value ip)

section Step

variable {s : Ledger}

theorem Ledger.inv_allocateIp (h : s.Inv ranges) (v : Bool) : (s.step (.allocateIp v)).Inv ranges := by
  cases hip : (s.cache.allocateIp v).1 with
  | none =>
    have hs : s.step (.allocateIp v) = s := by
      simp [Ledger.step, hip, IpCache.allocateIp_of_none hip]
    rwa [hs]
  | some ip =>
    obtain ⟨hlen, hhas, hok, hrest⟩ := IpCache.allocateIp_spec h.ok hip
    have hin : s.cache.Holds (value ip) := (s.cache.holds_iff v _).mpr (Or.inl hhas)
    have hout : ip ∉ s.allocated := fun hm => h.allocated_apart ip hm hin
    have hholds : ∀ x, (s.cache.allocateIp v).2.Holds x ↔ s.cache.Holds x ∧ x ≠ value ip := by
      intro x
      rw [IpCache.Holds, hrest, hrest, ← or_and_right]
      rfl
    simp only [Ledger.step, hip, Option.toList_some, singleton_append]
    refine ⟨hok, ?_, ?_, h.removed_width, nodup_cons.mpr ⟨hout, h.nodup⟩, ?_, ?_⟩
    · intro hone x hx
      exact h.pure hone x ((hrest false x).mp hx).1
    · intro q hq
      cases mem_cons.mp hq with
      | inl he => rw [he, hlen]
      | inr hm => exact h.width q hm
    · intro q hq hx
      cases mem_cons.mp hq with
      | inl he => exact ((hholds _).mp hx).2 (congrArg value he)
      | inr hm => exact h.allocated_apart q hm ((hholds _).mp hx).1
    · intro q hq
      rw [← h.conserve q hq, hholds, ne_eq, value_eq_iff hq hlen, mem_cons]
      by_cases he : q = ip
      · subst he
        simp [hin]
      · simp [he]

theorem Ledger.inv_deallocateIp (h : s.Inv ranges) {ip : IP} (hip : ip ∈ s.allocated) :
    (s.step (.deallocateIp ip)).Inv ranges := by
  have hlen := h.width ip hip
  have hfresh := h.allocated_apart ip hip
  obtain ⟨hok, hadd⟩ := IpCache.deallocateIp_spec h.ok hlen hfresh
  have hholds : ∀ x, (s.cache.deallocateIp ip).Holds x ↔ s.cache.Holds x ∨ x = value ip := by
    intro x
    rw [IpCache.holds_iff _ (decide (V4Value (value ip))), hadd, hadd,
      IpCache.holds_iff s.cache (decide (V4Value (value ip)))]
    tauto
  have hmem : ∀ q, q ∈ s.allocated.erase ip ↔ q ≠ ip ∧ q ∈ s.allocated :=
    fun q => h.nodup.mem_erase_iff
  refine ⟨hok, ?_, ?_, h.removed_width, h.nodup.erase ip, ?_, ?_⟩
  · intro hone x hx
    cases (hadd false x).mp hx with
    | inl hx => exact h.pure hone x hx
    | inr hx => exact hx.2 ▸ of_decide_eq_false hx.1.symm
  · intro q hq
    exact h.width q ((hmem q).mp hq).2
  · intro q hq hx
    obtain ⟨hne, hm⟩ := (hmem q).mp hq
    cases (hholds _).mp hx with
    | inl hx => exact h.allocated_apart q hm hx
    | inr he => exact hne ((value_eq_iff (h.width q hm) hlen).mp he)
  · intro q hq
    refine Iff.trans ?_ (h.conserve q hq)
    simp only [Ledger.step, hholds, hmem, value_eq_iff hq hlen]
    by_cases he : q = ip
    · subst he
      simp [hip]
    · simp [he]

theorem Ledger.inv_removeIp (h : s.Inv ranges) (ip : IP) : (s.step (.removeIp ip)).Inv ranges := by
  obtain ⟨hok, hflag, hrest⟩ := IpCache.removeIp_spec ip h.ok
  have hholds : ∀ x, (s.cache.removeIp ip).1.Holds x ↔
      s.cache.Holds x ∧ ¬ ((s.cache.removeIp ip).2 ∧ x = value ip) := by
    intro x
    rw [IpCache.Holds, hrest, hrest, ← or_and_right]
    rfl
  refine ⟨hok, ?_, h.width, ?_, h.nodup, ?_, ?_⟩
  · intro hone x hx
    exact h.pure hone x ((hrest false x).mp hx).1
  · intro q hq
    by_cases hf : (s.cache.removeIp ip).2
    · simp only [Ledger.step, hf, if_true, mem_cons] at hq
      cases hq with
      | inl he => rw [he, (hflag.mp hf).1]
      | inr hm => exact h.removed_width q hm
    · simp only [Ledger.step, hf] at hq
      exact h.removed_width q hq
  · intro q hq hx
    exact h.allocated_apart q hq ((hholds _).mp hx).1
  · intro q hq
    by_cases hf : (s.cache.removeIp ip).2
    · obtain ⟨hlen, hin⟩ := hflag.mp hf
      have hin' := (s.cache.holds_iff _ _).mpr (Or.inl hin)
      have hout : ip ∉ s.allocated := fun hm => h.allocated_apart ip hm hin'
      have hc := h.conserve q hq
      simp only [Ledger.step, hholds, hf, if_true, true_and, value_eq_iff hq hlen, mem_cons]
      by_cases he : q = ip
      · subst he
        simp [hout]
      · simpa [he] using hc
    · simpa [Ledger.step, hholds, hf] using h.conserve q hq

end Step

theorem Ledger.inv_step (s : Ledger) (c : CacheCall) (h : s.Inv ranges) (hc : s.Allowed c) : (s.step c).Inv ranges := by
  cases c with
  | allocateIp v => exact Ledger.inv_allocateIp h v
  | deallocateIp ip => exact Ledger.inv_deallocateIp h hc
  | removeIp ip => exact Ledger.inv_removeIp h ip

/-- Free, allocated and removed addresses are apart and make up the loaded ones; allocation
returns a free address and fails only when both lists of the family are empty. -/
structure Ledger.Conserved (ranges : List IpRange) (s : Ledger) : Prop where
  loaded_iff : ∀ ip : IP, ip.length = 16 →
    (s.cache.Free ip ∨ ip ∈ s.allocated ↔ Loaded ranges ip ∧ ip ∉ s.removed)
  free_not_allocated : ∀ ip : IP, ip.length = 16 → s.cache.Free ip → ip ∉ s.allocated
  allocated_once : s.allocated.Nodup
  allocate_some : ∀ v ip, (s.cache.allocateIp v).1 = some ip →
    (s.cache.lists v).Free ip ∧ ip ∉ s.allocated ∧ ip ∉ s.removed
  allocate_none_iff : ∀ v, (s.cache.allocateIp v).1 = none ↔
    ∀ ip : IP, ip.length = 16 → ¬ (s.cache.lists v).Free ip
  remove_iff : ∀ ip : IP, ip.length = 16 →
    ((s.cache.removeIp ip).2 = true ↔ (s.cache.lists (to4 ip).isSome).Free ip)

/-- The family argument and the family of an address decide: allocation and removal see
exactly the free addresses of their family. -/
structure Ledger.FamilyExact (s : Ledger) : Prop where
  allocate_some : ∀ v ip, (s.cache.allocateIp v).1 = some ip → (to4 ip).isSome = v
  allocate_none_iff : ∀ v, (s.cache.allocateIp v).1 = none ↔
    ∀ ip : IP, ip.length = 16 → s.cache.Free ip → (to4 ip).isSome ≠ v
  remove_iff : ∀ ip : IP, ip.length = 16 → ((s.cache.removeIp ip).2 = true ↔ s.cache.Free ip)

variable {s : Ledger}

theorem Ledger.Inv.conserved (hw : AllWidth 16 ranges) (h : s.Inv ranges) : s.Conserved ranges where
  loaded_iff ip hip := by
    rw [IpCache.free_iff h.ok hip, Ipam.loaded_iff hw hip]
    exact h.conserve ip hip
  free_not_allocated ip hip hf hm :=
    h.allocated_apart ip hm ((IpCache.free_iff h.ok hip).mp hf)
  allocated_once := h.nodup
  allocate_some v ip hip := by
    obtain ⟨hlen, hhas, -, -⟩ := IpCache.allocateIp_spec h.ok hip
    have hin := (s.cache.holds_iff v _).mpr (Or.inl hhas)
    refine ⟨(IpLists.free_iff (h.ok.lists v) hlen).mpr hhas, ?_, ?_⟩
    · exact fun hm => h.allocated_apart ip hm hin
    · exact ((h.conserve ip hlen).mp (Or.inl hin)).2
  allocate_none_iff v := by
    rw [IpCache.allocateIp_none_iff h.ok]
    constructor
    · intro hno ip hip hf
      exact hno _ ((IpLists.free_iff (h.ok.lists v) hip).mp hf)
    · intro hno x hx
      have hlt : x < 256 ^ 16 := by
        cases hx with
        | inl hx => exact covers_lt (h.ok.lists v).front.width hx
        | inr hx => exact covers_lt (h.ok.lists v).back.width hx
      refine hno (ofNat 16 x) (length_ofNat 16 x) ?_
      rw [IpLists.free_iff (h.ok.lists v) (length_ofNat 16 x), value_ofNat 16 x hlt]
      exact hx
  remove_iff ip hip := by
    rw [(IpCache.removeIp_spec ip h.ok).2.1, IpLists.free_iff (h.ok.lists _) hip]
    have hv : decide (V4Value (value ip)) = (to4 ip).isSome := by
      rw [Bool.eq_iff_iff, decide_eq_true_iff, to4_isSome_iff hip]
    rw [hv]
    simp [hip]

theorem Ledger.Inv.lists_free_iff (h : s.Inv ranges) (hone : ∀ r ∈ ranges, OneFamily r) (v : Bool)
    {ip : IP} (hip : ip.length = 16) : (s.cache.lists v).Free ip ↔ s.cache.Free ip ∧ (to4 ip).isSome = v := by
  have h4 := to4_isSome_iff hip
  have hv4 := h.ok.v4 (value ip)
  have hv6 := h.pure hone (value ip)
  rw [IpCache.free_iff h.ok hip, IpLists.free_iff (h.ok.lists v) hip, IpCache.Holds]
  cases v with
  | true =>
    rw [h4]
    constructor
    · intro hx
      exact ⟨Or.inl hx, hv4 hx⟩
    · rintro ⟨hx | hx, hv⟩
      · exact hx
      · exact absurd hv (hv6 hx)
  | false =>
    rw [Bool.eq_false_iff, ne_eq, h4]
    constructor
    · intro hx
      exact ⟨Or.inr hx, hv6 hx⟩
    · rintro ⟨hx | hx, hv⟩
      · exact absurd (hv4 hx) hv
      · exact hx

theorem Ledger.Inv.familyExact (hw : AllWidth 16 ranges) (h : s.Inv ranges)
    (hone : ∀ r ∈ ranges, OneFamily r) : s.FamilyExact where
  allocate_some v ip hip := by
    have hlen := (IpCache.allocateIp_spec h.ok hip).1
    exact ((h.lists_free_iff hone v hlen).mp ((h.conserved hw).allocate_some v ip hip).1).2
  allocate_none_iff v := by
    rw [(h.conserved hw).allocate_none_iff]
    refine forall₂_congr fun ip hip => ?_
    rw [h.lists_free_iff hone v hip, not_and]
  remove_iff ip hip := by
    rw [(h.conserved hw).remove_iff ip hip, h.lists_free_iff hone _ hip, and_iff_left rfl]

/-- Conservation and no double allocation, after every call of a history in which only
allocated addresses are given back. -/
theorem conserved_run (ranges : List IpRange) (calls : List CacheCall) (hw : AllWidth 16 ranges)
    (hd : DisjointRanges ranges) (hc : Along Ledger.step Ledger.Allowed (Ledger.load ranges) calls) (k : Nat) :
    (run Ledger.step (Ledger.load ranges) (calls.take k)).Conserved ranges ∧ ((∀ r ∈ ranges, OneFamily r) →
        (run Ledger.step (Ledger.load ranges) (calls.take k)).FamilyExact) := by
  have hinv := invariant_take Ledger.inv_step _ calls (Ledger.inv_load hw hd) hc k
  exact ⟨hinv.conserved hw, hinv.familyExact hw⟩

theorem oneFamily_v4 (hr : r.Width 16) (hs : V4Value (value r.start)) (he : V4Value (value r.stop)) : OneFamily r := by
  have hall : ∀ a : IP, a.length = 16 → r.Contains a → (to4 a).isSome := by
    intro a ha hra
    obtain ⟨h₁, h₂⟩ := (contains_iff hr ha).mp hra
    exact (to4_isSome_iff ha).mpr ⟨le_trans hs.1 h₁, lt_of_le_of_lt h₂ he.2⟩
  intro a b ha hb hra hrb
  rw [hall a ha hra, hall b hb hrb]

/-- Three addresses loaded, two handed out, one of them given back and removed. -/
theorem conserved_run_three :
    let ranges : List IpRange := [lan 1 3]
    let s := run Ledger.step (Ledger.load ranges) ([.allocateIp true, .allocateIp true,
      .deallocateIp (mapped 10 0 0 1), .removeIp (mapped 10 0 0 1)].take 4)
    s.Conserved ranges ∧ s.FamilyExact := by
  have hw : AllWidth 16 [lan 1 3] := by decide
  have h := conserved_run [lan 1 3] [.allocateIp true, .allocateIp true,
    .deallocateIp (mapped 10 0 0 1), .removeIp (mapped 10 0 0 1)] hw
    (pairwise_singleton _ _) (by decide) 4
  refine ⟨h.1, h.2 ?_⟩
  intro r hr
  rw [mem_singleton.mp hr]
  exact oneFamily_v4 (hw _ (by simp)) (by decide) (by decide)

/-- Removal of an address that is out does nothing, so a later allocation returns it; and a
range that runs from IPv6 into the mapped block hides its IPv4 addresses. -/
theorem conserved_run_literal_fails : (¬ ∀ (ranges : List IpRange) (calls : List CacheCall), AllWidth 16 ranges →
        DisjointRanges ranges → Along Ledger.step Ledger.Allowed (Ledger.load ranges) calls →
        ∀ v ip, ((run Ledger.step (Ledger.load ranges) calls).cache.allocateIp v).1 = some ip →
          ip ∉ (run Ledger.step (Ledger.load ranges) calls).asked) ∧
      ¬ ∀ (ranges : List IpRange) (calls : List CacheCall), AllWidth 16 ranges →
        DisjointRanges ranges → Along Ledger.step Ledger.Allowed (Ledger.load ranges) calls →
        ∀ v, ((run Ledger.step (Ledger.load ranges) calls).cache.allocateIp v).1 = none ↔
          ∀ ip : IP, ip.length = 16 → (run Ledger.step (Ledger.load ranges) calls).cache.Free ip →
            (to4 ip).isSome ≠ v := by
  constructor
  · intro h
    exact h [lan 1 1] [.allocateIp true, .removeIp (mapped 10 0 0 1),
      .deallocateIp (mapped 10 0 0 1)] (by decide) (pairwise_singleton _ _) (by decide)
      true (mapped 10 0 0 1) (by decide) (by decide)
  · intro h
    have hx := h [⟨[0, 0, 0, 0, 0, 0, 0, 0, 0, 0, 0, 0, 0, 0, 0, 1], mapped 10 0 0 1⟩] []
      (by decide) (pairwise_singleton _ _) (by decide) true
    exact hx.mp (by decide) (mapped 10 0 0 1) (by decide) (Or.inr (Or.inl (by decide))) (by decide)

theorem IpLists.combine_spec {l : IpLists} (h : l.Ok) : Canonical 16 ⟨l.combine⟩ ∧
    ∀ x, Covers (l.combine.map iv) x ↔ l.Holds x := by
  have hfirst : ∀ x, Covers ((new.addAll l.front).freeList.map iv) x ↔ l.front.Holds x := by
    intro x
    rw [IpAlloc.addAll, covers_addRanges _ _ (canonical_new 16).sorted h.front.width]
    simp [new]
  have hcan : Canonical 16 (new.addAll l.front) :=
    canonical_addRanges_of_disjoint _ _ (canonical_new 16) h.front fun x _ => holds_new x
  refine ⟨canonical_addRanges_of_disjoint _ _ hcan h.back fun x hx hf => h.apart x ((hfirst x).mp hf) hx, fun x => ?_⟩
  rw [IpLists.combine, IpAlloc.addAll, covers_addRanges _ _ hcan.sorted h.back.width, hfirst]
  rfl

/-- The reported ranges are ordered and disjoint, and have the loaded addresses that are neither out
nor removed. -/
theorem combine_exact (ranges : List IpRange) (calls : List CacheCall) (hw : AllWidth 16 ranges)
    (hd : DisjointRanges ranges) (hc : Along Ledger.step Ledger.Allowed (Ledger.load ranges) calls) :
    let s := run Ledger.step (Ledger.load ranges) calls
    FreeListOk 16 ⟨s.cache.combineV4⟩ ∧ FreeListOk 16 ⟨s.cache.combineV6⟩ ∧ ∀ ip : IP, ip.length = 16 →
      (Loaded s.cache.combineV4 ip ∨ Loaded s.cache.combineV6 ip ↔
        Loaded ranges ip ∧ ip ∉ s.removed ∧ ip ∉ s.allocated) := by
  intro s
  have hinv : s.Inv ranges := invariant_run Ledger.inv_step _ calls (Ledger.inv_load hw hd) hc
  obtain ⟨hcan, hcov⟩ := IpLists.combine_spec (hinv.ok.lists true)
  obtain ⟨hcan', hcov'⟩ := IpLists.combine_spec (hinv.ok.lists false)
  refine ⟨hcan.freeListOk, hcan'.freeListOk, fun ip hip => ?_⟩
  have hreported : Loaded s.cache.combineV4 ip ∨ Loaded s.cache.combineV6 ip ↔ s.cache.Holds (value ip) :=
    or_congr ((loaded_iff hcan.width hip).trans (hcov _)) ((loaded_iff hcan'.width hip).trans (hcov' _))
  have hall := hinv.conserve ip hip
  have hout := hinv.allocated_apart ip
  rw [hreported, loaded_iff hw hip, ← and_assoc, ← hall]
  constructor
  · intro hin
    exact ⟨.inl hin, fun hm => hout hm hin⟩
  · rintro ⟨hin | hm, hnot⟩
    · exact hin
    · exact absurd hm hnot

theorem combine_exact_two :
    let s := run Ledger.step (Ledger.load [lan 1 3]) [.allocateIp true, .allocateIp true]
    Loaded s.cache.combineV4 (mapped 10 0 0 3) ∨ Loaded s.cache.combineV6 (mapped 10 0 0 3) :=
  ((combine_exact _ _ (by decide) (pairwise_singleton _ _) (by decide)).2.2 _ rfl).mpr
    ⟨⟨_, mem_cons_self, by decide⟩, by decide⟩

/-!
# Delayed reuse of released addresses

An address that is given back waits in the second pool of its family. The first pool
gains nothing until it runs dry, and loses only what a call hands out or removes, so
the address cannot come back before everything in front of it is gone.
-/

/-- The address that a call hands out or reports as removed. -/
def Ledger.taken (s : Ledger) : CacheCall → Option IP
  | .allocateIp ipv4 => (s.cache.allocateIp ipv4).1
  | .deallocateIp _ => none
  | .removeIp ip => if (s.cache.removeIp ip).2 then some ip else none

/-- All addresses that the calls of a history hand out or remove. -/
def Ledger.takenIn (s : Ledger) : List CacheCall → List IP
  | [] => []
  | c :: calls => (s.taken c).toList ++ (s.step c).takenIn calls

/-- The first list of a family. -/
def Ledger.front (s : Ledger) (ipv4 : Bool) : IpAlloc := (s.cache.lists ipv4).front

variable {ip : IP}

theorem IpLists.allocateIp_front {l : IpLists} (h : l.Ok) (hne : ∃ x, l.front.Holds x)
    (hip : l.allocateIp.1 = some ip) : l.front.Holds (value ip) ∧
      ∀ x, l.allocateIp.2.front.Holds x ↔ l.front.Holds x ∧ x ≠ value ip := by
  have hfull : l.front.empty = false := by
    obtain ⟨x, hx⟩ := hne
    rw [Bool.eq_false_iff]
    intro he
    exact (freeList_eq_nil_iff h.front).mp (by simpa [IpAlloc.empty] using he) x hx
  simp only [IpLists.allocateIp, IpLists.rotate, hfull, Bool.false_and, Bool.false_eq_true, if_false] at hip ⊢
  obtain ⟨-, hhas, -, hrest⟩ := getIp_spec h.front hip
  exact ⟨hhas, hrest⟩

theorem IpLists.removeIp_front {l : IpLists} (h : l.Ok) (hlen : ip.length = 16) (x : Nat) :
    (l.removeIp ip).1.front.Holds x ↔ l.front.Holds x ∧ x ≠ value ip := by
  have hfront : (l.removeIp ip).1.front = (l.front.removeIp ip).1 := by
    rw [IpLists.removeIp]
    split <;> rfl
  rw [hfront]
  exact (Ipam.removeIp_spec h.front hlen).2.2 x

theorem IpCache.removeIp_front {c : IpCache} (h : c.Ok) (v : Bool) (x : Nat) :
    ((c.removeIp ip).1.lists v).front.Holds x ↔
      (c.lists v).front.Holds x ∧ ¬ ((c.removeIp ip).2 = true ∧ x = value ip) := by
  obtain ⟨-, hflag, -⟩ := IpCache.removeIp_spec ip h
  by_cases hlen : ip.length = 16
  · have hfam := family_of_length hlen
    generalize decide (V4Value (value ip)) = w at hfam hflag
    have hin : (c.removeIp ip).2 = true ↔ (c.lists w).Holds (value ip) := by
      rw [hflag, and_iff_right hlen]
    rw [hin]
    simp only [IpCache.removeIp, hfam, lists_setLists]
    by_cases hv : v = w
    · subst hv
      rw [if_pos rfl, IpLists.removeIp_front (h.lists v) hlen]
      refine and_congr_right fun hx => not_congr ⟨fun he => ⟨he ▸ Or.inl hx, he⟩, And.right⟩
    · have hvw : v = !w := by
        cases v <;> cases w <;> simp_all
      rw [if_neg hv, hvw]
      exact ⟨fun hx => ⟨hx, fun hb => h.apart w _ (hb.2 ▸ hb.1) (Or.inl hx)⟩, And.left⟩
  · simp [IpCache.removeIp_of_length_ne h hlen]

theorem IpCache.deallocateIp_front (c : IpCache) (ip : IP) (v : Bool) :
    ((c.deallocateIp ip).lists v).front = (c.lists v).front := by
  rw [IpCache.deallocateIp]
  cases family ip with
  | none => rfl
  | some w =>
    rw [lists_setLists]
    split
    · next hw => rw [hw, IpLists.deallocateIp]
    · rfl

section Step

theorem Ledger.length_taken (h : s.Inv ranges) {c : CacheCall} (ht : s.taken c = some ip) : ip.length = 16 := by
  cases c with
  | allocateIp v => exact (IpCache.allocateIp_spec h.ok ht).1
  | deallocateIp q => cases ht
  | removeIp q =>
    obtain ⟨hf, rfl⟩ : (s.cache.removeIp q).2 = true ∧ q = ip := by
      simpa [Ledger.taken] using ht
    exact ((IpCache.removeIp_spec q h.ok).2.1.mp hf).1

/-- As long as a first list is not empty, a call takes from it what it hands out or removes, and
nothing is added. -/
theorem Ledger.front_step (h : s.Inv ranges) (v : Bool) (hne : ∃ x, (s.front v).Holds x) (c : CacheCall) (x : Nat) :
    ((s.step c).front v).Holds x ↔ (s.front v).Holds x ∧ ∀ ip, s.taken c = some ip → x ≠ value ip := by
  cases c with
  | allocateIp w =>
    cases hip : (s.cache.allocateIp w).1 with
    | none =>
      simp [Ledger.front, Ledger.step, Ledger.taken, hip, IpCache.allocateIp_of_none hip]
    | some ip =>
      have hhas := (IpCache.allocateIp_spec h.ok hip).2.1
      simp only [Ledger.taken, hip, Option.some.injEq, forall_eq']
      simp only [Ledger.front, Ledger.step, IpCache.allocateIp, lists_setLists]
      by_cases hv : v = w
      · subst hv
        rw [if_pos rfl]
        exact (IpLists.allocateIp_front (h.ok.lists v) hne hip).2 x
      · have hvw : v = !w := by
          cases v <;> cases w <;> simp_all
        rw [if_neg hv, hvw]
        exact ⟨fun hx => ⟨hx, fun he => h.ok.apart w _ hhas (he ▸ Or.inl hx)⟩, And.left⟩
  | deallocateIp ip =>
    simp [Ledger.front, Ledger.step, Ledger.taken, IpCache.deallocateIp_front]
  | removeIp ip =>
    refine (IpCache.removeIp_front h.ok v x).trans ?_
    simp [Ledger.front, Ledger.taken]

/-- Only the family of an address gets it back. -/
theorem Ledger.holds_step (h : s.Inv ranges) {c : CacheCall} (hc : s.Allowed c)
    (hx : ((s.step c).cache.lists !decide (V4Value (value ip))).Holds (value ip)) :
    (s.cache.lists !decide (V4Value (value ip))).Holds (value ip) := by
  cases c with
  | allocateIp w =>
    cases hip : (s.cache.allocateIp w).1 with
    | none => simpa [Ledger.step, IpCache.allocateIp_of_none hip] using hx
    | some q => exact (((IpCache.allocateIp_spec h.ok hip).2.2.2 _ _).mp hx).1
  | deallocateIp q =>
    have hadd := (IpCache.deallocateIp_spec h.ok (h.width q hc) (h.allocated_apart q hc)).2
    cases (hadd _ _).mp hx with
    | inl hx => exact hx
    | inr hq =>
      rw [hq.2] at hq
      simp at hq
  | removeIp q => exact (((IpCache.removeIp_spec q h.ok).2.2 _ _).mp hx).1

end Step

/-- An address outside the first list of its family and outside the lists of the other family
is handed out only after all of that first list was. -/
theorem Ledger.taken_of_allocateIp {ranges : List IpRange} {x : IP} {v : Bool} (s : Ledger)
    (calls : List CacheCall) (h : s.Inv ranges) (hc : Along Ledger.step Ledger.Allowed s calls)
    (hfront : ¬ (s.front (decide (V4Value (value ip)))).Holds (value ip))
    (hother : ¬ (s.cache.lists !decide (V4Value (value ip))).Holds (value ip))
    (hip : ((run Ledger.step s calls).cache.allocateIp v).1 = some ip) (hlen : x.length = 16)
    (hx : (s.front (decide (V4Value (value ip)))).Holds (value x)) : x ∈ s.takenIn calls := by
  induction calls generalizing s with
  | nil =>
    have hhas := (IpCache.allocateIp_spec h.ok hip).2.1
    have hv : v = decide (V4Value (value ip)) := by
      by_contra hv
      exact hother (Bool.eq_not.mpr hv ▸ hhas)
    subst hv
    exact absurd (IpLists.allocateIp_front (h.ok.lists _) ⟨_, hx⟩ hip).1 hfront
  | cons c calls ih =>
    have hstep := Ledger.front_step h (decide (V4Value (value ip))) ⟨_, hx⟩ c
    have hnext := ih (s.step c) (Ledger.inv_step s c h hc.1) hc.2
      (fun hf => hfront ((hstep _).mp hf).1) (fun ho => hother (Ledger.holds_step h hc.1 ho)) hip
    rw [Ledger.takenIn, List.mem_append, Option.mem_toList]
    by_cases ht : s.taken c = some x
    · exact Or.inl ht
    · refine Or.inr (hnext ((hstep _).mpr ⟨hx, fun q hq he => ht ?_⟩))
      rw [hq, (value_eq_iff hlen (Ledger.length_taken h hq)).mp he]

/-- An address that was given back is not handed out again before every address that was then in
the first list of its family has been handed out or removed. -/
theorem deallocateIp_reuse (ranges : List IpRange) (pre post : List CacheCall) (ip : IP)
    (hw : AllWidth 16 ranges) (hd : DisjointRanges ranges)
    (hc : Along Ledger.step Ledger.Allowed (Ledger.load ranges) (pre ++ .deallocateIp ip :: post)) (v : Bool)
    (hip : ((run Ledger.step (Ledger.load ranges) (pre ++ .deallocateIp ip :: post)).cache.allocateIp v).1 = some ip) :
    let s := run Ledger.step (Ledger.load ranges) (pre ++ [.deallocateIp ip])
    ∀ x : IP, x.length = 16 → (s.front (to4 ip).isSome).Free x → x ∈ s.takenIn post := by
  intro s x hlen hx
  have hsplit : pre ++ .deallocateIp ip :: post = (pre ++ [.deallocateIp ip]) ++ post := by simp
  rw [hsplit, along_append] at hc
  rw [hsplit, run_append] at hip
  have hinv : s.Inv ranges := invariant_run Ledger.inv_step _ _ (Ledger.inv_load hw hd) hc.1
  obtain ⟨hpre, hmem, -⟩ := (along_append _ _ _ _ _).mp hc.1
  have hbefore := invariant_run Ledger.inv_step _ _ (Ledger.inv_load hw hd) hpre
  have hs : s = (run Ledger.step (Ledger.load ranges) pre).step (.deallocateIp ip) := run_append ..
  -- Before the call the address is out, so it is in no list.
  generalize run Ledger.step (Ledger.load ranges) pre = t at hmem hbefore hs
  have hout := hbefore.allocated_apart ip hmem
  rw [t.cache.holds_iff (decide (V4Value (value ip))), not_or] at hout
  have hfam : (to4 ip).isSome = decide (V4Value (value ip)) := by
    rw [Bool.eq_iff_iff, decide_eq_true_iff, to4_isSome_iff (hbefore.width ip hmem)]
  rw [hfam] at hx
  refine Ledger.taken_of_allocateIp s post hinv hc.2 ?_ ?_ hip hlen ?_
  · intro hf
    rw [hs, Ledger.front, Ledger.step, IpCache.deallocateIp_front] at hf
    exact hout.1 (Or.inl hf)
  · intro ho
    rw [hs] at ho
    exact hout.2 (Ledger.holds_step hbefore hmem ho)
  · exact (Ipam.free_iff (hinv.ok.lists _).front.width hlen).mp hx

/-- The first of three addresses comes back after one of the others is handed out and the last
one removed. -/
theorem deallocateIp_reuse_first :
    let ranges : List IpRange := [lan 1 3]
    let s := run Ledger.step (Ledger.load ranges)
      ([.allocateIp true] ++ [.deallocateIp (mapped 10 0 0 1)])
    ∀ x : IP, x.length = 16 → (s.front true).Free x →
      x ∈ s.takenIn [.allocateIp true, .removeIp (mapped 10 0 0 3)] :=
  deallocateIp_reuse _ _ _ _ (by decide) (List.pairwise_singleton _ _) (by decide) true (by decide)

end AciContainers.Ipam
