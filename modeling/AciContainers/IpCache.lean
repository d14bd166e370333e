import AciContainers.IpAllocRemove

/-!
# The address cache of the host agent

Two pools for each family: addresses are taken from the first, given back to the
second, and the second becomes the first when that one runs dry. The family of an
address decides which lists give back and removal look at, the family of both ends
of a range decides which list the range is loaded into.
-/
namespace AciContainers.Ipam

open Bytes Net Intervals Runs List

variable {n : Nat} {ipa : IpAlloc} {ip : IP} {r : IpRange} {v : Bool}

/-- The two pools of one family, `cacheIps[0]` and `cacheIps[1]`. -/
structure IpLists where
  front : IpAlloc
  back : IpAlloc
  deriving DecidableEq

def IpLists.rotate (l : IpLists) : IpLists := if l.front.empty then ⟨l.back, new⟩ else l

def IpLists.allocateIp (l : IpLists) : Option IP × IpLists :=
  if l.front.empty && l.back.empty then (none, l)
  else (l.rotate.front.getIp.1, ⟨l.rotate.front.getIp.2, l.rotate.back⟩)

def IpLists.deallocateIp (l : IpLists) (ip : IP) : IpLists := ⟨l.front, l.back.addIp ip⟩

def IpLists.loadRange (l : IpLists) (r : IpRange) : IpLists :=
  ⟨l.front.addRange r.start r.stop, l.back⟩

def IpLists.removeIp (l : IpLists) (ip : IP) : IpLists × Bool :=
  if (l.front.removeIp ip).2 then (⟨(l.front.removeIp ip).1, l.back⟩, true)
  else (⟨(l.front.removeIp ip).1, (l.back.removeIp ip).1⟩, (l.back.removeIp ip).2)

structure IpCache where
  cacheIpsV4 : IpLists
  cacheIpsV6 : IpLists
  deriving DecidableEq

def newIpCache : IpCache := ⟨⟨new, new⟩, ⟨new, new⟩⟩

def IpCache.lists (c : IpCache) (ipv4 : Bool) : IpLists :=
  if ipv4 then c.cacheIpsV4 else c.cacheIpsV6

def IpCache.setLists (c : IpCache) (ipv4 : Bool) (l : IpLists) : IpCache :=
  if ipv4 then { c with cacheIpsV4 := l } else { c with cacheIpsV6 := l }

def IpCache.allocateIp (c : IpCache) (ipv4 : Bool) : Option IP × IpCache :=
  ((c.lists ipv4).allocateIp.1, c.setLists ipv4 (c.lists ipv4).allocateIp.2)

/-- The lists that an address belongs to; `none` when it is neither four nor sixteen bytes. -/
def family (ip : IP) : Option Bool :=
  if (to4 ip).isSome then some true else if (to16 ip).isSome then some false else none

def IpCache.deallocateIp (c : IpCache) (ip : IP) : IpCache :=
  match family ip with
  | some ipv4 => c.setLists ipv4 ((c.lists ipv4).deallocateIp ip)
  | none => c

/-- The lists that a range is loaded into: the IPv4 ones only if both ends are IPv4. -/
def rangeFamily (r : IpRange) : Option Bool :=
  if (to4 r.start).isSome && (to4 r.stop).isSome then some true
  else if (to16 r.start).isSome && (to16 r.stop).isSome then some false
  else none

def IpCache.loadRange (c : IpCache) (r : IpRange) : IpCache :=
  match rangeFamily r with
  | some ipv4 => c.setLists ipv4 ((c.lists ipv4).loadRange r)
  | none => c

def IpCache.loadRanges (c : IpCache) (ranges : List IpRange) : IpCache :=
  ranges.foldl IpCache.loadRange c

def IpCache.removeIp (c : IpCache) (ip : IP) : IpCache × Bool :=
  match family ip with
  | some ipv4 => (c.setLists ipv4 ((c.lists ipv4).removeIp ip).1, ((c.lists ipv4).removeIp ip).2)
  | none => (c, false)

/-- The lists of a family in one. -/
def IpLists.combine (l : IpLists) : List IpRange := ((new.addAll l.front).addAll l.back).freeList

def IpCache.combineV4 (c : IpCache) : List IpRange := c.cacheIpsV4.combine

def IpCache.combineV6 (c : IpCache) : List IpRange := c.cacheIpsV6.combine

@[simp] theorem lists_setLists (c : IpCache) (v w : Bool) (l : IpLists) :
    (c.setLists v l).lists w = if w = v then l else c.lists w := by
  cases v <;> cases w <;> rfl

@[simp] theorem setLists_lists (c : IpCache) (v : Bool) : c.setLists v (c.lists v) = c := by
  cases v <;> rfl

@[simp] theorem lists_newIpCache (v : Bool) : newIpCache.lists v = ⟨new, new⟩ := by
  cases v <;> rfl

/-- The address with number `x` is free in the pool. -/
abbrev IpAlloc.Holds (ipa : IpAlloc) (x : Nat) : Prop := Covers (ipa.freeList.map iv) x

@[simp] theorem holds_new (x : Nat) : ¬ new.Holds x := by
  simp [IpAlloc.Holds, new]

theorem freeList_eq_nil_iff (h : Canonical n ipa) : ipa.freeList = [] ↔ ∀ x, ¬ ipa.Holds x := by
  constructor
  · intro hnil x
    simp [IpAlloc.Holds, hnil]
  · intro hno
    cases hl : ipa.freeList with
    | nil => rfl
    | cons r rest =>
      have hr : iv r ∈ ipa.freeList.map iv := by simp [hl]
      exact absurd ⟨iv r, hr, le_refl _, h.proper _ hr⟩ (hno (iv r).lo)

def IpLists.Holds (l : IpLists) (x : Nat) : Prop := l.front.Holds x ∨ l.back.Holds x

structure IpLists.Ok (l : IpLists) : Prop where
  front : Canonical 16 l.front
  back : Canonical 16 l.back
  apart : ∀ x, l.front.Holds x → ¬ l.back.Holds x

theorem IpLists.ok_new : IpLists.Ok ⟨new, new⟩ :=
  ⟨canonical_new 16, canonical_new 16, fun x hx => absurd hx (holds_new x)⟩

variable {l : IpLists} {c : IpCache}

theorem IpLists.ok_rotate (h : l.Ok) : l.rotate.Ok := by
  by_cases he : l.front.empty
  · rw [IpLists.rotate, if_pos he]
    exact ⟨h.back, canonical_new 16, fun x _ => holds_new x⟩
  · rw [IpLists.rotate, if_neg he]
    exact h

theorem IpLists.holds_rotate (l : IpLists) (x : Nat) : l.rotate.Holds x ↔ l.Holds x := by
  by_cases he : l.front.empty
  · have hnil : l.front.freeList = [] := by simpa [IpAlloc.empty] using he
    simp [IpLists.rotate, IpLists.Holds, IpAlloc.Holds, he, hnil, new]
  · rw [IpLists.rotate, if_neg he]

theorem IpLists.allocateIp_none_iff (l : IpLists) :
    l.allocateIp.1 = none ↔ l.front.freeList = [] ∧ l.back.freeList = [] := by
  cases hf : l.front.freeList with
  | nil =>
    cases hb : l.back.freeList with
    | nil => simp [IpLists.allocateIp, IpAlloc.empty, hf, hb]
    | cons r rest =>
      simp [IpLists.allocateIp, IpLists.rotate, IpAlloc.empty, hf, hb, getIp_none_iff]
  | cons r rest => simp [IpLists.allocateIp, IpLists.rotate, IpAlloc.empty, hf, getIp_none_iff]

theorem IpLists.allocateIp_of_none (h : l.allocateIp.1 = none) : l.allocateIp.2 = l := by
  obtain ⟨hf, hb⟩ := l.allocateIp_none_iff.mp h
  simp [IpLists.allocateIp, IpAlloc.empty, hf, hb]

theorem IpLists.allocateIp_spec (h : l.Ok) (hip : l.allocateIp.1 = some ip) :
    ip.length = 16 ∧ l.Holds (value ip) ∧ l.allocateIp.2.Ok ∧
      ∀ x, l.allocateIp.2.Holds x ↔ l.Holds x ∧ x ≠ value ip := by
  have hne : ¬ (l.front.empty && l.back.empty) := by
    intro he
    simp [IpLists.allocateIp, he] at hip
  have hrot := l.ok_rotate h
  rw [IpLists.allocateIp, if_neg hne] at hip ⊢
  obtain ⟨hlen, hhas, hcan, hrest⟩ := getIp_spec hrot.front hip
  refine ⟨hlen, (l.holds_rotate _).mp (Or.inl hhas), ⟨hcan, hrot.back, ?_⟩, ?_⟩
  · intro x hx
    exact hrot.apart x ((hrest x).mp hx).1
  · intro x
    rw [← l.holds_rotate]
    simp only [IpLists.Holds, IpAlloc.Holds, hrest]
    constructor
    · rintro (hx | hx)
      · exact ⟨Or.inl hx.1, hx.2⟩
      · exact ⟨Or.inr hx, fun he => hrot.apart _ hhas (he ▸ hx)⟩
    · rintro ⟨hx | hx, hxip⟩
      · exact Or.inl ⟨hx, hxip⟩
      · exact Or.inr hx

theorem IpLists.deallocateIp_spec (h : l.Ok) (hlen : ip.length = 16) (hfresh : ¬ l.Holds (value ip)) :
    (l.deallocateIp ip).Ok ∧ ∀ x, (l.deallocateIp ip).Holds x ↔ l.Holds x ∨ x = value ip := by
  have hadd : ∀ x, (l.back.addIp ip).Holds x ↔ l.back.Holds x ∨ x = value ip := by
    intro x
    refine (covers_addRange hlen hlen h.back.sorted x).trans ?_
    have he : value ip ≤ x ∧ x ≤ value ip ↔ x = value ip := by omega
    rw [he]
  constructor
  · refine ⟨h.front, canonical_addRange_of_disjoint h.back hlen hlen ?_, ?_⟩
    · intro x h₁ h₂ hx
      exact hfresh (Or.inr (le_antisymm h₂ h₁ ▸ hx))
    · intro x hx hb
      cases (hadd x).mp hb with
      | inl hb => exact h.apart x hx hb
      | inr he => exact hfresh (Or.inl (he ▸ hx))
  · intro x
    rw [IpLists.Holds, IpLists.deallocateIp, hadd, ← or_assoc]
    rfl

theorem IpLists.loadRange_spec (h : l.Ok) (hr : r.Width 16) (hfresh : ∀ x, (iv r).Has x → ¬ l.Holds x) :
    (l.loadRange r).Ok ∧ ∀ x, (l.loadRange r).Holds x ↔ l.Holds x ∨ (iv r).Has x := by
  have hadd : ∀ x, (l.front.addRange r.start r.stop).Holds x ↔ l.front.Holds x ∨ (iv r).Has x :=
    covers_addRange hr.1 hr.2 h.front.sorted
  constructor
  · refine ⟨canonical_addRange_of_disjoint h.front hr.1 hr.2 ?_, h.back, ?_⟩
    · intro x h₁ h₂ hx
      exact hfresh x ⟨h₁, h₂⟩ (Or.inl hx)
    · intro x hx hb
      cases (hadd x).mp hx with
      | inl hx => exact h.apart x hx hb
      | inr hx => exact hfresh x hx (Or.inr hb)
  · intro x
    rw [IpLists.Holds, IpLists.loadRange, hadd, or_right_comm]
    rfl

theorem removeIp_spec (h : Canonical n ipa) (hlen : ip.length = n) :
    Canonical n (ipa.removeIp ip).1 ∧ ((ipa.removeIp ip).2 ↔ ipa.Holds (value ip)) ∧
      ∀ x, (ipa.removeIp ip).1.Holds x ↔ ipa.Holds x ∧ x ≠ value ip := by
  refine ⟨canonical_removeRange hlen hlen h, ?_, ?_⟩
  · refine (removeRange_spec hlen hlen h (le_refl _)).2.2.trans ?_
    constructor
    · rintro ⟨x, hx, h₁, h₂⟩
      exact le_antisymm h₂ h₁ ▸ hx
    · intro hx
      exact ⟨value ip, hx, le_refl _, le_refl _⟩
  · intro x
    refine (covers_removeRange hlen hlen h x).trans ?_
    have he : (value ip ≤ x ∧ x ≤ value ip) ↔ x = value ip := by omega
    rw [he]

/-- Removal of a sixteen byte address reports whether the address was free. -/
theorem IpLists.removeIp_spec (h : l.Ok) (hlen : ip.length = 16) :
    (l.removeIp ip).1.Ok ∧ ((l.removeIp ip).2 ↔ l.Holds (value ip)) ∧
      ∀ x, (l.removeIp ip).1.Holds x ↔ l.Holds x ∧ x ≠ value ip := by
  obtain ⟨hfc, hff, hfx⟩ := Ipam.removeIp_spec h.front hlen
  obtain ⟨hbc, hbf, hbx⟩ := Ipam.removeIp_spec h.back hlen
  by_cases hf : (l.front.removeIp ip).2
  · have hin := hff.mp hf
    rw [IpLists.removeIp, if_pos hf]
    refine ⟨⟨hfc, h.back, fun x hx => h.apart x ((hfx x).mp hx).1⟩, ?_, ?_⟩
    · simp only [true_iff]
      exact Or.inl hin
    · intro x
      simp only [IpLists.Holds, hfx, or_and_right]
      have hback : l.back.Holds x ↔ l.back.Holds x ∧ x ≠ value ip :=
        ⟨fun hx => ⟨hx, fun he => h.apart _ hin (he ▸ hx)⟩, And.left⟩
      rw [← hback]
  · have hout : ¬ l.front.Holds (value ip) := fun hx => hf (hff.mpr hx)
    rw [IpLists.removeIp, if_neg hf]
    refine ⟨⟨hfc, hbc, fun x hx hb => h.apart x ((hfx x).mp hx).1 ((hbx x).mp hb).1⟩, ?_, ?_⟩
    · rw [hbf, IpLists.Holds, or_iff_right hout]
    · intro x
      simp [IpLists.Holds, hfx, hbx, or_and_right]

theorem cutLoop_untouched {start stop : IP} (endind : Nat) (done rest : List IpRange)
    (changed : Bool) (h : ∀ r ∈ rest, cutRange r start stop = ([r], false)) :
    cutLoop start stop endind done rest changed = (done ++ rest, changed) := by
  induction rest generalizing done with
  | nil => simp [cutLoop]
  | cons r rest ih =>
    have hrest := ih (done ++ [r]) (fun q hq => h q (mem_cons_of_mem _ hq))
    rw [cutLoop, h r mem_cons_self]
    split
    · simpa using hrest
    · rfl

theorem removeRange_untouched {start stop : IP} (h : ∀ r ∈ ipa.freeList, cutRange r start stop = ([r], false)) :
    ipa.removeRange start stop = (ipa, false) := by
  rw [IpAlloc.removeRange]
  split
  · rfl
  · simp only
    rw [cutLoop_untouched _ _ _ _ (fun r hr => h r (mem_of_mem_drop hr)), take_append_drop]

/-- All mapped addresses compare in the same way with a four byte address. -/
theorem compare_mapped {a : IP} (ha : a.length = 16) (hv : V4Value (value a)) (hip : ip.length = 4) :
    Bytes.compare a ip = if ip = [0, 0, 0, 0] then .gt else .lt := by
  have hpre : a.take 12 = v4InV6Prefix := by
    have hs := (to4_isSome_iff ha).mpr hv
    by_contra hp
    simp [to4, ha, hp] at hs
  obtain ⟨p, q, r, s, rfl⟩ := length_eq_four.mp hip
  rw [← take_append_drop 12 a, hpre]
  have hpos : ∀ b : UInt8, b ≠ 0 → 0 < b := fun b hb => UInt8.pos_iff_ne_zero.mpr hb
  by_cases hp : p = 0
  · by_cases hq : q = 0
    · by_cases hr : r = 0
      · by_cases hs : s = 0
        · simp [v4InV6Prefix, Bytes.compare, hp, hq, hr, hs]
        · simp [v4InV6Prefix, Bytes.compare, hp, hq, hr, hs, hpos s hs]
      · simp [v4InV6Prefix, Bytes.compare, hp, hq, hr, hpos r hr]
    · simp [v4InV6Prefix, Bytes.compare, hp, hq, hpos q hq]
  · simp [v4InV6Prefix, Bytes.compare, hp, hpos p hp]

theorem removeIp_short (h : Canonical 16 ipa) (hv : ∀ x, ipa.Holds x → V4Value x) (hip : ip.length = 4) :
    ipa.removeIp ip = (ipa, false) := by
  refine removeRange_untouched ?_
  intro r hr
  have hmem := mem_map_of_mem (f := iv) hr
  have hp := h.proper _ hmem
  have hs := compare_mapped (h.width r hr).1 (hv _ ⟨iv r, hmem, le_refl _, hp⟩) hip
  have he := compare_mapped (h.width r hr).2 (hv _ ⟨iv r, hmem, hp, le_refl _⟩) hip
  by_cases h0 : ip = [0, 0, 0, 0]
  · rw [if_pos h0] at hs he
    simp [cutRange, hs, he]
  · rw [if_neg h0] at hs he
    simp [cutRange, hs, he]

theorem IpLists.removeIp_short (h : l.Ok) (hv : ∀ x, l.Holds x → V4Value x) (hip : ip.length = 4) :
    l.removeIp ip = (l, false) := by
  have hf := Ipam.removeIp_short h.front (fun x hx => hv x (Or.inl hx)) hip
  have hb := Ipam.removeIp_short h.back (fun x hx => hv x (Or.inr hx)) hip
  simp [IpLists.removeIp, hf, hb]

def IpCache.Holds (c : IpCache) (x : Nat) : Prop := (c.lists true).Holds x ∨ (c.lists false).Holds x

theorem IpCache.holds_iff (c : IpCache) (v : Bool) (x : Nat) :
    c.Holds x ↔ (c.lists v).Holds x ∨ (c.lists !v).Holds x := by
  cases v with
  | true => rfl
  | false => exact or_comm

theorem IpCache.holds_setLists (c : IpCache) (v : Bool) (l : IpLists) (x : Nat) :
    (c.setLists v l).Holds x ↔ l.Holds x ∨ (c.lists !v).Holds x := by
  rw [IpCache.holds_iff _ v]
  simp

/-- Both families in order and apart, and only IPv4 addresses in the IPv4 lists. -/
structure IpCache.Ok (c : IpCache) : Prop where
  lists : ∀ v, (c.lists v).Ok
  apart : ∀ v x, (c.lists v).Holds x → ¬ (c.lists !v).Holds x
  v4 : ∀ x, (c.lists true).Holds x → V4Value x

theorem IpCache.ok_new : newIpCache.Ok where
  lists v := by
    rw [lists_newIpCache]
    exact IpLists.ok_new
  apart v x hx := by
    simp [IpLists.Holds] at hx
  v4 x hx := by
    simp [IpLists.Holds] at hx

theorem IpCache.ok_setLists (h : c.Ok) (hl : l.Ok) (hapart : ∀ x, l.Holds x → ¬ (c.lists !v).Holds x)
    (hv4 : v → ∀ x, l.Holds x → V4Value x) : (c.setLists v l).Ok where
  lists w := by
    rw [lists_setLists]
    split
    · exact hl
    · exact h.lists w
  apart w x := by
    by_cases hw : w = v
    · subst hw
      simpa using hapart x
    · have hwv := Bool.eq_not_iff.mpr hw
      subst hwv
      intro hx hx'
      exact hapart x (by simpa using hx') (by simpa using hx)
  v4 x := by
    rw [lists_setLists]
    split
    · next hv => exact hv4 hv.symm x
    · exact h.v4 x

theorem family_of_length (h : ip.length = 16) : family ip = some (decide (V4Value (value ip))) := by
  by_cases hv : V4Value (value ip)
  · rw [family, if_pos ((to4_isSome_iff h).mpr hv), decide_eq_true hv]
  · rw [family, if_neg (fun hs => hv ((to4_isSome_iff h).mp hs)), decide_eq_false hv]
    simp [to16, h]

theorem IpCache.allocateIp_spec (h : c.Ok) (hip : (c.allocateIp v).1 = some ip) :
    ip.length = 16 ∧ (c.lists v).Holds (value ip) ∧ (c.allocateIp v).2.Ok ∧
      ∀ w x, ((c.allocateIp v).2.lists w).Holds x ↔ (c.lists w).Holds x ∧ x ≠ value ip := by
  obtain ⟨hlen, hhas, hok, hrest⟩ := IpLists.allocateIp_spec (h.lists v) hip
  refine ⟨hlen, hhas, IpCache.ok_setLists h hok ?_ ?_, ?_⟩
  · intro x hx
    exact h.apart v x ((hrest x).mp hx).1
  · rintro rfl x hx
    exact h.v4 x ((hrest x).mp hx).1
  · intro w x
    rw [IpCache.allocateIp, lists_setLists]
    split
    · next hw => rw [hw, hrest]
    · next hw =>
      have hwv : v = !w := by
        cases v <;> cases w <;> simp_all
      exact ⟨fun hx => ⟨hx, fun he => h.apart w x hx (hwv ▸ he ▸ hhas)⟩, And.left⟩

theorem IpCache.allocateIp_of_none (h : (c.allocateIp v).1 = none) : (c.allocateIp v).2 = c := by
  have hl : (c.lists v).allocateIp.2 = c.lists v := IpLists.allocateIp_of_none h
  rw [IpCache.allocateIp, hl, setLists_lists]

theorem IpCache.allocateIp_none_iff (h : c.Ok) (v : Bool) : (c.allocateIp v).1 = none ↔ ∀ x, ¬ (c.lists v).Holds x := by
  refine (IpLists.allocateIp_none_iff _).trans ?_
  rw [freeList_eq_nil_iff (h.lists v).front, freeList_eq_nil_iff (h.lists v).back]
  simp [IpLists.Holds, not_or, forall_and]

theorem IpCache.deallocateIp_spec (h : c.Ok) (hlen : ip.length = 16) (hfresh : ¬ c.Holds (value ip)) :
    (c.deallocateIp ip).Ok ∧ ∀ w x, ((c.deallocateIp ip).lists w).Holds x ↔
      (c.lists w).Holds x ∨ w = decide (V4Value (value ip)) ∧ x = value ip := by
  have hfam := family_of_length hlen
  generalize hv : decide (V4Value (value ip)) = v at hfam ⊢
  rw [IpCache.holds_iff c v, not_or] at hfresh
  obtain ⟨hok, hadd⟩ := IpLists.deallocateIp_spec (h.lists v) hlen hfresh.1
  rw [IpCache.deallocateIp, hfam]
  constructor
  · refine IpCache.ok_setLists h hok ?_ ?_
    · intro x hx
      cases (hadd x).mp hx with
      | inl hx => exact h.apart v x hx
      | inr he => exact he ▸ hfresh.2
    · rintro rfl x hx
      cases (hadd x).mp hx with
      | inl hx => exact h.v4 x hx
      | inr he => exact he ▸ of_decide_eq_true hv
  · intro w x
    by_cases hw : w = v
    · subst hw
      simp [hadd]
    · simp [hw]

theorem IpCache.removeIp_of_length_ne (h : c.Ok) (hlen : ip.length ≠ 16) : c.removeIp ip = (c, false) := by
  by_cases h4 : ip.length = 4
  · have hfam : family ip = some true := by simp [family, to4, h4]
    have hl := IpLists.removeIp_short (h.lists true) h.v4 h4
    simp [IpCache.removeIp, hfam, hl, setLists_lists]
  · have hfam : family ip = none := by simp [family, to4, to16, h4, hlen]
    simp [IpCache.removeIp, hfam]

/-- What `removeIp` takes out is the address it reports, which was free. -/
theorem IpCache.removeIp_spec (ip : IP) (h : c.Ok) : (c.removeIp ip).1.Ok ∧ ((c.removeIp ip).2 ↔
        ip.length = 16 ∧ (c.lists (decide (V4Value (value ip)))).Holds (value ip)) ∧
      ∀ w x, ((c.removeIp ip).1.lists w).Holds x ↔ (c.lists w).Holds x ∧ ¬ ((c.removeIp ip).2 ∧ x = value ip) := by
  by_cases hlen : ip.length = 16
  · have hfam := family_of_length hlen
    generalize hv : decide (V4Value (value ip)) = v at hfam ⊢
    obtain ⟨hok, hflag, hrest⟩ := IpLists.removeIp_spec (h.lists v) hlen
    simp only [IpCache.removeIp, hfam, hflag, hlen, true_and]
    refine ⟨IpCache.ok_setLists h hok ?_ ?_, ?_⟩
    · intro x hx
      exact h.apart v x ((hrest x).mp hx).1
    · rintro rfl x hx
      exact h.v4 x ((hrest x).mp hx).1
    · intro w x
      rw [lists_setLists]
      by_cases hw : w = v
      · subst hw
        rw [if_pos rfl, hrest]
        refine and_congr_right fun hx => not_congr ⟨fun he => ⟨he ▸ hx, he⟩, And.right⟩
      · have hwv := Bool.eq_not_iff.mpr hw
        rw [if_neg hw, hwv]
        exact ⟨fun hx => ⟨hx, fun hb => h.apart v _ (hb.2 ▸ hb.1) hx⟩, And.left⟩
  · simp [IpCache.removeIp_of_length_ne h hlen, hlen, h]

/-- All addresses of the range belong to one family. -/
def OneFamily (r : IpRange) : Prop :=
  ∀ a b : IP, a.length = 16 → b.length = 16 → r.Contains a → r.Contains b →
    (to4 a).isSome = (to4 b).isSome

theorem IpCache.loadRange_spec (h : c.Ok) (hr : r.Width 16) (hfresh : ∀ x, (iv r).Has x → ¬ c.Holds x) :
    (c.loadRange r).Ok ∧ ∃ v, (v = true → ∀ x, (iv r).Has x → V4Value x) ∧
      (v = false → ¬ V4Value (value r.start) ∨ ¬ V4Value (value r.stop)) ∧
      ∀ w x, ((c.loadRange r).lists w).Holds x ↔ (c.lists w).Holds x ∨ w = v ∧ (iv r).Has x := by
  obtain ⟨v, hfam, hv4, hv6⟩ : ∃ v, rangeFamily r = some v ∧
      (v = true → ∀ x, (iv r).Has x → V4Value x) ∧
      (v = false → ¬ V4Value (value r.start) ∨ ¬ V4Value (value r.stop)) := by
    by_cases hs : V4Value (value r.start)
    · by_cases he : V4Value (value r.stop)
      · refine ⟨true, ?_, fun _ x hx => ⟨le_trans hs.1 hx.1, lt_of_le_of_lt hx.2 he.2⟩, by simp⟩
        simp [rangeFamily, (to4_isSome_iff hr.1).mpr hs, (to4_isSome_iff hr.2).mpr he]
      · refine ⟨false, ?_, by simp, fun _ => Or.inr he⟩
        have hn := mt (to4_isSome_iff hr.2).mp he
        simp [rangeFamily, hn, to16, hr.1, hr.2]
    · refine ⟨false, ?_, by simp, fun _ => Or.inl hs⟩
      have hn := mt (to4_isSome_iff hr.1).mp hs
      simp [rangeFamily, hn, to16, hr.1, hr.2]
  have hfree : ∀ x, (iv r).Has x → ¬ (c.lists v).Holds x ∧ ¬ (c.lists !v).Holds x := by
    intro x hx
    rw [← not_or, ← IpCache.holds_iff]
    exact hfresh x hx
  obtain ⟨hok, hadd⟩ := IpLists.loadRange_spec (h.lists v) hr (fun x hx => (hfree x hx).1)
  rw [IpCache.loadRange, hfam]
  refine ⟨IpCache.ok_setLists h hok ?_ ?_, v, hv4, hv6, ?_⟩
  · intro x hx
    cases (hadd x).mp hx with
    | inl hx => exact h.apart v x hx
    | inr hx => exact (hfree x hx).2
  · rintro rfl x hx
    cases (hadd x).mp hx with
    | inl hx => exact h.v4 x hx
    | inr hx => exact hv4 rfl x hx
  · intro w x
    by_cases hw : w = v
    · subst hw
      simp [hadd]
    · simp [hw]

/-- `HasIp`. -/
def hasIp (list : IpAlloc) (ip : IP) : Bool :=
  let ranges := list.freeList
  if ranges = [] then false
  else
    let i := Search.search ranges.length fun i => ranges[i]?.any fun r =>
      Bytes.compare r.start ip != .lt || Bytes.compare r.stop ip == .eq
    if ranges[i]?.any fun r => Bytes.compare r.start ip == .eq || Bytes.compare r.stop ip == .eq then true
    else ranges.any fun r => Bytes.compare r.start ip != .gt && Bytes.compare r.stop ip != .lt

/-- Whatever the search finds, a range that it accepts has the address, and the loop looks at all. -/
theorem hasIp_iff (hip : ip.length = n) (h : ∀ r ∈ ipa.freeList, r.Width n ∧ value r.start ≤ value r.stop) :
    hasIp ipa ip ↔ ∃ r ∈ ipa.freeList, value r.start ≤ value ip ∧ value ip ≤ value r.stop := by
  unfold hasIp
  dsimp only
  split
  · next hnil => simp [hnil]
  · split
    · next hfound =>
      obtain ⟨r, hr, hends⟩ := (Option.any_eq_true _ _).mp hfound
      obtain ⟨hw, hle⟩ := h r (mem_of_getElem? hr)
      rw [Bool.or_eq_true, beq_iff_eq, beq_iff_eq, compare_eq_iff hw.1 hip, compare_eq_iff hw.2 hip] at hends
      exact iff_of_true rfl ⟨r, mem_of_getElem? hr, by omega, by omega⟩
    · rw [any_eq_true]
      refine exists_congr fun r => and_congr_right fun hr => ?_
      obtain ⟨hw, -⟩ := h r hr
      rw [Bool.and_eq_true, bne_iff_ne, bne_iff_ne, Ne, Ne, compare_gt_iff hw.1 hip, compare_lt_iff hw.2 hip,
        Nat.not_lt, Nat.not_lt]

/-- Two ranges that overlap, the later one first. -/
def overlapping : IpAlloc := ⟨[⟨[10], [20]⟩, ⟨[1], [12]⟩]⟩

theorem hasIp_unsorted : (∀ r ∈ overlapping.freeList, r.Width 1 ∧ value r.start ≤ value r.stop) ∧
    (hasIp overlapping [5] ↔ ∃ r ∈ overlapping.freeList, value r.start ≤ 5 ∧ 5 ≤ value r.stop) :=
  ⟨by decide, @hasIp_iff 1 overlapping [5] rfl (by decide)⟩

/-!
# Pools of both families

The `netIps` of `pkg/controller/config.go`: one pool for IPv4 and one for IPv6, how
configured ranges are loaded into them, and how single addresses leave and come back.
-/

/-- One value for IPv4 and one for IPv6. -/
structure ByFamily (α : Type) where
  v4 : α
  v6 : α
  deriving DecidableEq

def ByFamily.get {α : Type} (b : ByFamily α) (v4 : Bool) : α := if v4 then b.v4 else b.v6

def ByFamily.set {α : Type} (b : ByFamily α) (v4 : Bool) (a : α) : ByFamily α :=
  if v4 then { b with v4 := a } else { b with v6 := a }

@[simp] theorem get_set {α : Type} (b : ByFamily α) (v w : Bool) (a : α) :
    (b.set v a).get w = if w = v then a else b.get w := by
  cases v <;> cases w <;> rfl

abbrev NetPools := ByFamily IpAlloc

def newNetIps : NetPools := ⟨new, new⟩

@[simp] theorem get_newNetIps (v : Bool) : newNetIps.get v = new := by
  cases v <;> rfl

def loadIpRange (pools : NetPools) (r : IpRange) : NetPools :=
  match rangeFamily r with
  | some v => pools.set v ((pools.get v).addRange r.start r.stop)
  | none => pools

def loadIpRanges (pools : NetPools) (ranges : List IpRange) : NetPools :=
  ranges.foldl loadIpRange pools

def NetPools.removeIp (pools : NetPools) (v4 : Bool) (ip : IP) : NetPools × Bool :=
  (pools.set v4 ((pools.get v4).removeIp ip).1, ((pools.get v4).removeIp ip).2)

def returnIp (pool : NetPools) (ip : IP) : NetPools :=
  match family ip with
  | some v4 => pool.set v4 ((pool.get v4).addIp ip)
  | none => pool

def returnIps (pool : NetPools) (ips : List IP) : NetPools := ips.foldl returnIp pool

def NetPools.Has (pools : NetPools) (v : Bool) (x : Nat) : Prop := (pools.get v).Holds x

theorem sorted_loadIpRanges (pools : NetPools) (ranges : List IpRange)
    (h : ∀ v, Sorted 16 (pools.get v)) (hw : AllWidth 16 ranges) (v : Bool) :
    Sorted 16 ((loadIpRanges pools ranges).get v) := by
  induction ranges generalizing pools with
  | nil => exact h v
  | cons r rest ih =>
    rw [allWidth_cons] at hw
    refine ih (loadIpRange pools r) ?_ hw.2
    intro u
    unfold loadIpRange
    split
    · rw [get_set]
      split
      · exact sorted_addRange hw.1.1 hw.1.2 (h _)
      · exact h u
    · exact h u

def NetPools.Holds (pools : NetPools) (x : Nat) : Prop := pools.Has true x ∨ pools.Has false x

theorem NetPools.holds_iff (pools : NetPools) (v : Bool) (x : Nat) :
    pools.Holds x ↔ pools.Has v x ∨ pools.Has (!v) x := by
  cases v with
  | true => rfl
  | false => exact or_comm

/-- Both pools in order and apart. -/
structure NetPools.Ok (pools : NetPools) : Prop where
  canonical : ∀ v, Canonical 16 (pools.get v)
  apart : ∀ v x, pools.Has v x → ¬ pools.Has (!v) x

theorem NetPools.ok_new : newNetIps.Ok where
  canonical v := by
    rw [get_newNetIps]
    exact canonical_new 16
  apart v x hx := by
    simp [NetPools.Has] at hx

theorem NetPools.has_set (pools : NetPools) (v w : Bool) (p : IpAlloc) (x : Nat) :
    NetPools.Has (pools.set v p) w x ↔ if w = v then p.Holds x else pools.Has w x := by
  rw [NetPools.Has, get_set]
  split <;> rfl

variable {pools : NetPools}

theorem NetPools.ok_set {v : Bool} {p : IpAlloc} (h : pools.Ok) (hp : Canonical 16 p)
    (hapart : ∀ x, p.Holds x → ¬ pools.Has (!v) x) : NetPools.Ok (pools.set v p) where
  canonical w := by
    rw [get_set]
    split
    · exact hp
    · exact h.canonical w
  apart w x := by
    rw [NetPools.has_set, NetPools.has_set]
    by_cases hw : w = v
    · subst hw
      simpa using hapart x
    · have hwv := Bool.eq_not_iff.mpr hw
      subst hwv
      simpa using fun hx hp => hapart x hp hx

theorem NetPools.removeIp_spec (v : Bool) {ip : IP} (h : pools.Ok) (hip : ip.length = 16) :
    (pools.removeIp v ip).1.Ok ∧ ((pools.removeIp v ip).2 = true → pools.Holds (value ip)) ∧
      ∀ x, (pools.removeIp v ip).1.Holds x ↔ pools.Holds x ∧ ¬ ((pools.removeIp v ip).2 = true ∧ x = value ip) := by
  obtain ⟨hcan, hflag, hrest⟩ := Ipam.removeIp_spec (h.canonical v) hip
  have hflag' : (pools.removeIp v ip).2 = true ↔ pools.Has v (value ip) := hflag
  refine ⟨NetPools.ok_set h hcan fun x hx => h.apart v x ((hrest x).mp hx).1, ?_, ?_⟩
  · intro hf
    exact (pools.holds_iff v _).mpr (Or.inl (hflag'.mp hf))
  · intro x
    rw [NetPools.holds_iff _ v, NetPools.removeIp, NetPools.has_set, NetPools.has_set,
      pools.holds_iff v, if_pos rfl, if_neg (by simp), hrest, hflag]
    constructor
    · rintro (⟨hx, hne⟩ | hx)
      · exact ⟨Or.inl hx, fun hb => hne hb.2⟩
      · exact ⟨Or.inr hx, fun hb => h.apart v _ (hb.2 ▸ hb.1) hx⟩
    · rintro ⟨hx | hx, hno⟩
      · exact Or.inl ⟨hx, fun he => hno ⟨he ▸ hx, he⟩⟩
      · exact Or.inr hx

theorem returnIp_spec {ip : IP} (h : pools.Ok) (hip : ip.length = 16)
    (hfresh : ¬ pools.Holds (value ip)) : NetPools.Ok (returnIp pools ip) ∧
      ∀ x, NetPools.Holds (returnIp pools ip) x ↔ pools.Holds x ∨ x = value ip := by
  rw [returnIp, family_of_length hip]
  generalize decide (V4Value (value ip)) = v
  rw [pools.holds_iff v, not_or] at hfresh
  have hadd : ∀ x, ((pools.get v).addIp ip).Holds x ↔ pools.Has v x ∨ x = value ip := by
    intro x
    refine (covers_addRange hip hip (h.canonical v).sorted x).trans (or_congr Iff.rfl ?_)
    omega
  constructor
  · refine NetPools.ok_set h (canonical_addRange_of_disjoint (h.canonical v) hip hip ?_) ?_
    · intro x h₁ h₂ hx
      exact hfresh.1 (le_antisymm h₂ h₁ ▸ hx)
    · intro x hx
      cases (hadd x).mp hx with
      | inl hx => exact h.apart v x hx
      | inr he => exact he ▸ hfresh.2
  · intro x
    rw [NetPools.holds_iff _ v, NetPools.has_set, NetPools.has_set, if_pos rfl,
      if_neg (by simp), hadd, pools.holds_iff v, or_right_comm]

theorem loadIpRange_spec {r : IpRange} (h : pools.Ok) (hr : r.Width 16)
    (hfresh : ∀ x, (iv r).Has x → ¬ pools.Holds x) : (loadIpRange pools r).Ok ∧
      ∀ x, (loadIpRange pools r).Holds x ↔ pools.Holds x ∨ (iv r).Has x := by
  obtain ⟨v, hv⟩ : ∃ v, rangeFamily r = some v := by
    unfold rangeFamily
    split
    · exact ⟨true, rfl⟩
    · exact ⟨false, by simp [to16, hr.1, hr.2]⟩
  rw [loadIpRange, hv]
  have hfree : ∀ x, (iv r).Has x → ¬ pools.Has v x ∧ ¬ pools.Has (!v) x := by
    intro x hx
    rw [← not_or, ← pools.holds_iff]
    exact hfresh x hx
  have hadd : ∀ x, ((pools.get v).addRange r.start r.stop).Holds x ↔
      pools.Has v x ∨ (iv r).Has x := covers_addRange hr.1 hr.2 (h.canonical v).sorted
  constructor
  · refine NetPools.ok_set h (canonical_addRange_of_disjoint (h.canonical v) hr.1 hr.2 ?_) ?_
    · intro x h₁ h₂
      exact (hfree x ⟨h₁, h₂⟩).1
    · intro x hx
      cases (hadd x).mp hx with
      | inl hx => exact h.apart v x hx
      | inr hx => exact (hfree x hx).2
  · intro x
    rw [NetPools.holds_iff _ v, NetPools.has_set, NetPools.has_set, if_pos rfl,
      if_neg (by simp), hadd, pools.holds_iff v, or_right_comm]

/-- Loading disjoint ranges makes exactly their addresses free. -/
theorem loadIpRanges_spec (pools : NetPools) (ranges : List IpRange) (h : pools.Ok) (hw : AllWidth 16 ranges)
    (hd : ranges.Pairwise fun r q => ∀ x, (iv r).Has x → ¬ (iv q).Has x)
    (hfresh : ∀ r ∈ ranges, ∀ x, (iv r).Has x → ¬ pools.Holds x) : (loadIpRanges pools ranges).Ok ∧
      ∀ x, (loadIpRanges pools ranges).Holds x ↔ pools.Holds x ∨ Covers (ranges.map iv) x := by
  induction ranges generalizing pools with
  | nil => simp [loadIpRanges, h]
  | cons r rest ih =>
    rw [allWidth_cons] at hw
    obtain ⟨hfirst, hrest⟩ := List.pairwise_cons.mp hd
    obtain ⟨hok, hload⟩ := loadIpRange_spec h hw.1 (hfresh r List.mem_cons_self)
    obtain ⟨hok', hload'⟩ := ih (loadIpRange pools r) hok hw.2 hrest (by
      intro q hq x hx hp
      cases (hload x).mp hp with
      | inl hp => exact hfresh q (List.mem_cons_of_mem _ hq) x hx hp
      | inr hp => exact hfirst q hq x hp hx)
    refine ⟨hok', fun x => ?_⟩
    rw [List.map_cons, covers_cons, ← or_assoc, ← hload x]
    exact hload' x

/-- The addresses from `10.0.0.a` to `10.0.0.b`. -/
def lan (a b : UInt8) : IpRange := ⟨mapped 10 0 0 a, mapped 10 0 0 b⟩

end AciContainers.Ipam
