import AciContainers.Net
import AciContainers.Maps

/-!
# Indexes of networks

`updateIpIndex` of `pkg/controller/network_policy.go`: an index gives each network a set of keys.
The ranger below it holds one entry for each network and finds those that a network covers. A key
that leaves a network leaves every network that this one covers. The first part is about any
covering relation; the second reads networks from text as the controller does.
-/
namespace AciContainers.IpIndex

open Bytes Net Maps List

section Index

variable {ν : Type} [DecidableEq ν]

structure Entry (ν : Type) where
  net : ν
  keys : Finset String
  deriving DecidableEq

/-- A ranger. -/
structure Index (ν : Type) where
  entries : List (Entry ν)
  nodup : (entries.map Entry.net).Nodup

def Index.empty : Index ν := ⟨[], nodup_nil⟩

/-- The entry of a network replaces one that was there. -/
def Index.insert (index : Index ν) (e : Entry ν) : Index ν where
  entries := e :: index.entries.filter fun x => x.net ≠ e.net
  nodup := by
    refine nodup_cons.mpr ⟨?_, index.nodup.sublist (filter_sublist.map Entry.net)⟩
    rw [mem_map]
    rintro ⟨x, hx, hnet⟩
    simp [hnet] at hx

/-- Entries are changed in place, or removed. -/
def Index.change (index : Index ν) (f : Entry ν → Option (Finset String)) : Index ν where
  entries := index.entries.filterMap fun e => (f e).map fun keys => ⟨e.net, keys⟩
  nodup := by
    have hsub : ((index.entries.filterMap fun e => (f e).map fun keys => (⟨e.net, keys⟩ : Entry ν)).map
        Entry.net).Sublist (index.entries.map Entry.net) := by
      generalize index.entries = es
      induction es with
      | nil => exact List.Sublist.slnil
      | cons e es ih =>
        cases hf : f e with
        | none => simpa [hf] using ih.cons e.net
        | some keys => simpa [hf] using ih.cons_cons e.net
    exact index.nodup.sublist hsub

/-- The keys of a network; a network without an entry has none. -/
def Index.keysAt (index : Index ν) (net : ν) : Finset String :=
  ((index.entries.find? fun e => e.net = net).map Entry.keys).getD ∅

variable (covers : ν → ν → Bool)

/-- Whether the key is new there is returned. -/
def addKey (index : Index ν) (net : ν) (key : String) : Index ν × Bool :=
  match (index.entries.filter fun e => covers net e.net).find? fun e => e.net = net with
  | some entry => (index.insert ⟨net, insert key entry.keys⟩, key ∉ entry.keys)
  | none => (index.insert ⟨net, {key}⟩, true)

/-- Entries without keys are removed. -/
def removeKey (index : Index ν) (net : ν) (key : String) : Index ν × Bool :=
  (index.change fun e =>
    if covers net e.net then
      if e.keys.erase key = ∅ then none else some (e.keys.erase key)
    else some e.keys,
    (index.entries.filter fun e => covers net e.net).any fun e => key ∈ e.keys)

/-- Texts that are no networks are skipped. -/
def updateIpIndexEntry (parse : String → Option ν) (index : Index ν) (subnetStr key : String)
    (add : Bool) : Index ν × Bool :=
  match parse subnetStr with
  | none => (index, false)
  | some net => if add then addKey covers index net key else removeKey covers index net key

def updateIpIndex (parse : String → Option ν) (order : RangeOrder String) (index : Index ν)
    (oldSubnets newSubnets : Finset String) (key : String) : Index ν :=
  let index := ((order.visit oldSubnets).filter fun s => s ∉ newSubnets).foldl
    (fun index s => (updateIpIndexEntry covers parse index s key false).1) index
  ((order.visit newSubnets).filter fun s => s ∉ oldSubnets).foldl
    (fun index s => (updateIpIndexEntry covers parse index s key true).1) index

@[simp] theorem keysAt_empty (net : ν) : (Index.empty : Index ν).keysAt net = ∅ := rfl

theorem keysAt_insert (index : Index ν) (e : Entry ν) (net : ν) :
    (index.insert e).keysAt net = if net = e.net then e.keys else index.keysAt net := by
  unfold Index.keysAt Index.insert
  by_cases h : net = e.net
  · simp [h]
  · have hne : ¬ e.net = net := fun h' => h h'.symm
    rw [if_neg h, find?_cons_of_neg (by simpa using hne), find?_filter]
    congr 3
    funext x
    by_cases hx : x.net = net
    · simp [hx, h]
    · simp [hx]

theorem find_change {entries : List (Entry ν)} (hnodup : (entries.map Entry.net).Nodup)
    (f : Entry ν → Option (Finset String)) (net : ν) :
    (entries.filterMap fun e => (f e).map fun keys => (⟨e.net, keys⟩ : Entry ν)).find? (fun e => e.net = net) =
      (entries.find? fun e => e.net = net).bind fun e => (f e).map fun keys => ⟨e.net, keys⟩ := by
  induction entries with
  | nil => rfl
  | cons e es ih =>
    rw [map_cons, nodup_cons] at hnodup
    have hes := ih hnodup.2
    by_cases hnet : e.net = net
    · rw [find?_cons_of_pos (by simpa using hnet)]
      cases hf : f e with
      | none =>
        have hnone : es.find? (fun e => e.net = net) = none := by
          rw [find?_eq_none]
          intro x hx hxnet
          refine hnodup.1 (mem_map.mpr ⟨x, hx, ?_⟩)
          rw [hnet]
          simpa using hxnet
        rw [hnone] at hes
        simpa [hf] using hes
      | some keys => simp [hf, hnet]
    · rw [find?_cons_of_neg (by simpa using hnet)]
      cases hf : f e with
      | none => simpa [hf] using hes
      | some keys => simpa [hf, hnet] using hes

theorem mem_keysAt_addKey {covers : ν → ν → Bool} (index : Index ν) {net : ν} (hrefl : covers net net)
    (key : String) (k : String) (net' : ν) :
    k ∈ (addKey covers index net key).1.keysAt net' ↔ k ∈ index.keysAt net' ∨ (k = key ∧ net' = net) := by
  have hfind : (index.entries.filter fun e => covers net e.net).find? (fun e => e.net = net) =
      index.entries.find? fun e => e.net = net := by
    rw [find?_filter]
    congr 1
    funext e
    by_cases he : e.net = net
    · simp [he, hrefl]
    · simp [he]
  unfold addKey
  rw [hfind]
  cases hentry : index.entries.find? fun e => e.net = net with
  | none =>
    have hkeys : index.keysAt net = ∅ := by simp [Index.keysAt, hentry]
    rw [keysAt_insert]
    by_cases hnet : net' = net
    · simp [hnet, hkeys]
    · simp [hnet]
  | some entry =>
    have hkeys : index.keysAt net = entry.keys := by simp [Index.keysAt, hentry]
    rw [keysAt_insert]
    by_cases hnet : net' = net
    · simp [hnet, hkeys, or_comm]
    · simp [hnet]

theorem mem_keysAt_removeKey (covers : ν → ν → Bool) (index : Index ν) (net : ν) (key k : String) (net' : ν) :
    k ∈ (removeKey covers index net key).1.keysAt net' ↔ k ∈ index.keysAt net' ∧ ¬ (k = key ∧ covers net net') := by
  unfold removeKey Index.change Index.keysAt
  rw [find_change index.nodup]
  cases hentry : index.entries.find? fun e => e.net = net' with
  | none => simp
  | some entry =>
    have hnet : entry.net = net' := by simpa using find?_some hentry
    subst hnet
    by_cases hcov : covers net entry.net
    · by_cases hempty : entry.keys.erase key = ∅
      · have hkey : ∀ x ∈ entry.keys, x = key := by
          intro x hx
          by_contra hne
          have hmem : x ∈ entry.keys.erase key := Finset.mem_erase.mpr ⟨hne, hx⟩
          simp [hempty] at hmem
        simp only [Option.bind_some, hcov, if_true, hempty, Option.map_none, Option.getD_none,
          Finset.notMem_empty, Option.map_some, Option.getD_some, false_iff, not_and, not_not, and_true]
        exact fun hk => hkey k hk
      · simp [hcov, hempty, and_comm]
    · simp [hcov]

section Update

variable {covers : ν → ν → Bool} {parse : String → Option ν}

theorem mem_keysAt_removals (index : Index ν) (key : String) (texts : List String) (k : String) (net : ν) :
    k ∈ (texts.foldl (fun index s => (updateIpIndexEntry covers parse index s key false).1) index).keysAt net ↔
      k ∈ index.keysAt net ∧ ¬ (k = key ∧ ∃ s ∈ texts, ∃ n, parse s = some n ∧ covers n net) := by
  induction texts generalizing index with
  | nil => simp
  | cons s texts ih =>
    rw [foldl_cons, ih]
    have hstep : k ∈ (updateIpIndexEntry covers parse index s key false).1.keysAt net ↔
        k ∈ index.keysAt net ∧ ¬ (k = key ∧ ∃ n, parse s = some n ∧ covers n net) := by
      unfold updateIpIndexEntry
      cases hs : parse s with
      | none => simp
      | some n => simpa using mem_keysAt_removeKey covers index n key k net
    rw [hstep]
    simp [mem_cons, exists_eq_or_imp, and_or_left, not_or, and_assoc]

theorem mem_keysAt_additions (index : Index ν) (key : String) {texts : List String}
    (hrefl : ∀ s ∈ texts, ∀ n, parse s = some n → covers n n) (k : String) (net : ν) :
    k ∈ (texts.foldl (fun index s => (updateIpIndexEntry covers parse index s key true).1) index).keysAt net ↔
      k ∈ index.keysAt net ∨ (k = key ∧ ∃ s ∈ texts, parse s = some net) := by
  induction texts generalizing index with
  | nil => simp
  | cons s texts ih =>
    rw [forall_mem_cons] at hrefl
    rw [foldl_cons, ih _ hrefl.2]
    have hstep : k ∈ (updateIpIndexEntry covers parse index s key true).1.keysAt net ↔
        k ∈ index.keysAt net ∨ (k = key ∧ parse s = some net) := by
      unfold updateIpIndexEntry
      cases hs : parse s with
      | none => simp
      | some n =>
        have hadd := mem_keysAt_addKey index (hrefl.1 n hs) key k net
        simpa [eq_comm] using hadd
    simp only [exists_mem_cons_iff]
    tauto

/-- A key leaves what the dropped networks cover, and is then added at the new ones. -/
theorem mem_keysAt_updateIpIndex (order : RangeOrder String) (index : Index ν) {oldSubnets newSubnets : Finset String}
    (hrefl : ∀ s ∈ newSubnets, ∀ n, parse s = some n → covers n n) (key k : String) (net : ν) :
    k ∈ (updateIpIndex covers parse order index oldSubnets newSubnets key).keysAt net ↔ (k ∈ index.keysAt net ∧
        ¬ (k = key ∧ ∃ s ∈ oldSubnets, s ∉ newSubnets ∧ ∃ n, parse s = some n ∧ covers n net)) ∨
      (k = key ∧ ∃ s ∈ newSubnets, s ∉ oldSubnets ∧ parse s = some net) := by
  unfold updateIpIndex
  rw [mem_keysAt_additions, mem_keysAt_removals]
  · simp [order.mem_visit, and_assoc]
  · intro s hs
    rw [mem_filter, order.mem_visit] at hs
    exact hrefl s hs.1

end Update

end Index

/-- The number and the mask that make a network; `netEqual` compares them. -/
abbrev Network := IP × IPMask

def networkOf (n : IPNet) : Network := ((to4 n.ip).getD n.ip, n.mask)

/-- `parseCIDR`: a network, or the network of one address. -/
def parseSubnet (sub : String) : Option IPNet :=
  match parseCIDR sub with
  | some (_, netw) => some netw
  | none =>
    (parseIP sub).bind fun ip =>
      if (to4 ip).isSome then some ⟨ip, cidrMaskBytes 4 32⟩
      else if (to16 ip).isSome then some ⟨ip, cidrMaskBytes 16 128⟩
      else none

/-- `Covers` of the ranger. -/
def covers (n o : Network) : Bool :=
  n.1.length = o.1.length && n.2.length = o.1.length && zipWith (· &&& ·) o.1 n.2 = n.1 &&
    (simpleMaskLength n.2).getD 0 ≤ (simpleMaskLength o.2).getD 0

def parseNetwork (sub : String) : Option Network := (parseSubnet sub).map networkOf

/-- The network of one address. -/
def hostNetwork (ip : IP) : Network :=
  ((to4 ip).getD ip, if (to4 ip).isSome then cidrMaskBytes 4 32 else cidrMaskBytes 16 128)

theorem cut_none {sep : Char} {cs : List Char} (h : sep ∉ cs) : cut sep cs = none := by
  induction cs with
  | nil => rfl
  | cons c cs ih =>
    rw [mem_cons, not_or] at h
    have hc : ¬ c = sep := fun e => h.1 e.symm
    simp [cut, hc, ih h.2]

/-- A text without a slash is read as an address. -/
theorem parseNetwork_plain {s : String} (h : '/' ∉ s.toList) : parseNetwork s = (parseIP s).map hostNetwork := by
  have hcidr : parseCIDR s = none := by
    rw [parseCIDR, parseCIDRChars, cut_none h]
    rfl
  unfold parseNetwork parseSubnet
  rw [hcidr]
  cases hip : parseIP s with
  | none => rfl
  | some ip =>
    have hlen := length_parseIP hip
    have h16 : (to16 ip).isSome := by simp [to16, hlen]
    by_cases h4 : (to4 ip).isSome
    · simp [h4, networkOf, hostNetwork]
    · simp [h4, h16, networkOf, hostNetwork]

theorem hostNetwork_inj {a b : IP} (ha : a.length = 16) (hb : b.length = 16)
    (h : hostNetwork a = hostNetwork b) : a = b := by
  have hnum : (to4 a).getD a = (to4 b).getD b := congrArg Prod.fst h
  have hform : ∀ {ip : IP}, ip.length = 16 →
      (ip.take 12 = v4InV6Prefix ∧ (to4 ip).getD ip = ip.drop 12 ∧ (ip.drop 12).length = 4) ∨
        (ip.take 12 ≠ v4InV6Prefix ∧ (to4 ip).getD ip = ip) := by
    intro ip hip
    by_cases hmap : ip.take 12 = v4InV6Prefix
    · exact .inl ⟨hmap, by simp [to4, hip, hmap], by simp [hip]⟩
    · exact .inr ⟨hmap, by simp [to4, hip, hmap]⟩
  rcases hform ha with ⟨hta, hga, hla⟩ | ⟨hta, hga⟩ <;> rcases hform hb with ⟨htb, hgb, hlb⟩ | ⟨htb, hgb⟩ <;>
    rw [hga, hgb] at hnum
  · rw [← take_append_drop 12 a, ← take_append_drop 12 b, hta, htb, hnum]
  · rw [hnum, hb] at hla
    omega
  · rw [← hnum, ha] at hlb
    omega
  · exact hnum

theorem hostNetwork_mask {ip : IP} (h : ip.length = 16) : hostNetwork ip = ((to4 ip).getD ip,
      cidrMaskBytes ((to4 ip).getD ip).length (8 * ((to4 ip).getD ip).length)) := by
  by_cases hmap : ip.take 12 = v4InV6Prefix
  · simp [hostNetwork, to4, h, hmap]
  · simp [hostNetwork, to4, h, hmap]

theorem covers_hostNetwork {ip : IP} (h : ip.length = 16) : covers (hostNetwork ip) (hostNetwork ip) := by
  rw [hostNetwork_mask h]
  simp [covers, length_cidrMaskBytes, zipWith_and_full]

/-- The network of an address covers no other one. -/
theorem covers_hostNetwork_iff {a b : IP} (ha : a.length = 16) (hb : b.length = 16) :
    covers (hostNetwork a) (hostNetwork b) ↔ a = b := by
  constructor
  · intro h
    rw [hostNetwork_mask ha, hostNetwork_mask hb] at h
    simp only [covers, Bool.and_eq_true, decide_eq_true_eq] at h
    obtain ⟨⟨⟨hlen, -⟩, hand⟩, -⟩ := h
    rw [hlen, zipWith_and_full] at hand
    refine hostNetwork_inj ha hb ?_
    rw [hostNetwork_mask ha, hostNetwork_mask hb, hand]
  · rintro rfl
    exact covers_hostNetwork ha

def NoEmpty (index : Index Network) : Prop := ∀ e ∈ index.entries, e.keys ≠ ∅

theorem NoEmpty.updateIpIndexEntry {covers : Network → Network → Bool} {index : Index Network}
    (h : NoEmpty index) (subnetStr key : String) (add : Bool) :
    NoEmpty (IpIndex.updateIpIndexEntry covers parseNetwork index subnetStr key add).1 := by
  have hinsert : ∀ e : Entry Network, e.keys ≠ ∅ → NoEmpty (index.insert e) := by
    intro e he x hx
    rcases mem_cons.mp hx with rfl | hx
    · exact he
    · exact h x (mem_filter.mp hx).1
  unfold IpIndex.updateIpIndexEntry
  cases parseNetwork subnetStr with
  | none => exact h
  | some net =>
    cases add with
    | true =>
      simp only [if_true, addKey]
      split
      · exact hinsert _ (Finset.insert_ne_empty _ _)
      · exact hinsert _ (Finset.singleton_ne_empty _)
    | false =>
      intro e he
      simp only [Bool.false_eq_true, if_false, removeKey, Index.change, mem_filterMap, Option.map_eq_some_iff] at he
      obtain ⟨x, hx, keys, hkeys, rfl⟩ := he
      split at hkeys
      · split at hkeys
        · simp at hkeys
        · next hne => exact Option.some.inj hkeys ▸ hne
      · exact Option.some.inj hkeys ▸ h x hx

theorem NoEmpty.foldl {covers : Network → Network → Bool} {index : Index Network} (h : NoEmpty index)
    (texts : List String) (key : String) (add : Bool) : NoEmpty (texts.foldl
      (fun index s => (IpIndex.updateIpIndexEntry covers parseNetwork index s key add).1) index) := by
  induction texts generalizing index with
  | nil => exact h
  | cons s texts ih => exact ih (h.updateIpIndexEntry s key add)

/-- Each network has one text. -/
def Canonical (texts : Finset String) : Prop :=
  ∀ s ∈ texts, ∀ t ∈ texts, ∀ n ∈ parseNetwork s, n ∈ parseNetwork t → s = t

instance (texts : Finset String) : Decidable (Canonical texts) :=
  inferInstanceAs (Decidable (∀ s ∈ texts, ∀ t ∈ texts, ∀ n ∈ parseNetwork s, n ∈ parseNetwork t → s = t))

/-- The key has the entries of the texts. -/
def RecordedAt (index : Index Network) (key : String) (texts : Finset String) : Prop :=
  ∀ net, key ∈ index.keysAt net ↔ ∃ s ∈ texts, parseNetwork s = some net

/-- The key moves to its new networks, and nothing else changes. -/
structure Moved (index after : Index Network) (key : String) (newSubnets : Finset String) : Prop where
  recorded : RecordedAt after key newSubnets
  others : ∀ k, k ≠ key → ∀ net, k ∈ after.keysAt net ↔ k ∈ index.keysAt net
  noEmpty : NoEmpty after

/-- A key moves to its new networks when no network that it leaves covers one that it keeps. -/
theorem updateIpIndex_moved_iff (covers : Network → Network → Bool) (hrefl : ∀ n, covers n n = true)
    (order : RangeOrder String) (index : Index Network) (hindex : NoEmpty index)
    (oldSubnets newSubnets : Finset String) (hcanonical : Canonical (oldSubnets ∪ newSubnets)) (key : String)
    (hold : RecordedAt index key oldSubnets) :
    Moved index (updateIpIndex covers parseNetwork order index oldSubnets newSubnets key) key newSubnets ↔
      ∀ s ∈ oldSubnets, s ∉ newSubnets → ∀ t ∈ oldSubnets, t ∈ newSubnets →
        ∀ n ∈ parseNetwork s, ∀ m ∈ parseNetwork t, covers n m = false := by
  have hmem := fun k net => @mem_keysAt_updateIpIndex _ _ covers parseNetwork order index
    oldSubnets newSubnets (fun _ _ n _ => hrefl n) key k net
  have hinj : ∀ s ∈ oldSubnets, ∀ t ∈ newSubnets, ∀ n ∈ parseNetwork s, n ∈ parseNetwork t → s = t :=
    fun s hs t ht => hcanonical s (Finset.mem_union_left _ hs) t (Finset.mem_union_right _ ht)
  constructor
  · intro h s hs hsn t ht htn n hn m hm
    by_contra hcov
    have hkey := (h.recorded m).mpr ⟨t, htn, hm⟩
    rw [hmem] at hkey
    rcases hkey with ⟨-, hkept⟩ | ⟨-, t', ht', hto, hm'⟩
    · exact hkept ⟨rfl, s, hs, hsn, n, hn, by simpa using hcov⟩
    · exact hto (hinj t ht t' ht' m hm hm' ▸ ht)
  · intro h
    refine ⟨fun net => ?_, fun k hk net => ?_, (hindex.foldl _ _ _).foldl _ _ _⟩
    · rw [hmem, hold]
      constructor
      · rintro (⟨⟨s, hs, hnet⟩, hkept⟩ | ⟨-, s, hs, -, hnet⟩)
        · by_cases hsn : s ∈ newSubnets
          · exact ⟨s, hsn, hnet⟩
          · exact absurd ⟨rfl, s, hs, hsn, net, hnet, hrefl net⟩ hkept
        · exact ⟨s, hs, hnet⟩
      · rintro ⟨t, ht, hnet⟩
        by_cases hto : t ∈ oldSubnets
        · refine .inl ⟨⟨t, hto, hnet⟩, ?_⟩
          rintro ⟨-, s, hs, hsn, n, hn, hcov⟩
          rw [h s hs hsn t hto ht n hn net hnet] at hcov
          simp at hcov
        · exact .inr ⟨rfl, t, ht, hto, hnet⟩
    · rw [hmem]
      simp [hk]

/-- The networks that a network covers, and itself. -/
def coversOrSame (n o : Network) : Bool := n = o || covers n o

/-- A policy gets two nested networks and loses the inner one. -/
theorem updateIpIndex_moved_inner :
    let outer := "10.0.0.0/8"
    let both : Finset String := {outer, "10.1.0.0/16"}
    let index := updateIpIndex coversOrSame parseNetwork RangeOrder.sorted Index.empty ∅ both "np"
    Moved index (updateIpIndex coversOrSame parseNetwork RangeOrder.sorted index both {outer} "np") "np" {outer} := by
  intro outer both index
  have hrefl : ∀ n, coversOrSame n n := by simp [coversOrSame]
  have hfirst : Moved Index.empty index "np" both :=
    (updateIpIndex_moved_iff coversOrSame hrefl RangeOrder.sorted Index.empty
      (fun e he => absurd he not_mem_nil) ∅ both (by decide +kernel) "np" (by simp [RecordedAt])).mpr (by simp)
  exact (updateIpIndex_moved_iff coversOrSame hrefl RangeOrder.sorted index hfirst.noEmpty both {outer}
    (by decide +kernel) "np" hfirst.recorded).mpr (by decide +kernel)

/-- When the outer network goes, the inner one loses the key as well, which is not put back. -/
theorem updateIpIndex_moved_fails :
    let outerNet : Network := ([10, 0, 0, 0], [255, 0, 0, 0])
    let innerNet : Network := ([10, 1, 0, 0], [255, 255, 0, 0])
    let index : Index Network := ⟨[⟨outerNet, {"np"}⟩, ⟨innerNet, {"np"}⟩], by decide⟩
    parseNetwork "10.0.0.0/8" = some outerNet ∧ parseNetwork "10.1.0.0/16" = some innerNet ∧
    ∀ order, "np" ∉ (updateIpIndex covers parseNetwork order index {"10.0.0.0/8", "10.1.0.0/16"}
      {"10.1.0.0/16"} "np").keysAt innerNet := by
  intro outerNet innerNet index
  have hinner : parseNetwork "10.1.0.0/16" = some innerNet := by decide +kernel
  have houter : parseNetwork "10.0.0.0/8" = some outerNet := by decide +kernel
  refine ⟨houter, hinner, fun order hmem => ?_⟩
  rw [mem_keysAt_updateIpIndex order index] at hmem
  · rcases hmem with ⟨-, hkept⟩ | ⟨-, s, hs, hnot, -⟩
    · exact hkept ⟨rfl, "10.0.0.0/8", by decide, by decide, outerNet, houter, by decide +kernel⟩
    · exact hnot (Finset.mem_insert_of_mem hs)
  · intro s hs n hn
    rw [Finset.mem_singleton.mp hs, hinner] at hn
    obtain rfl := Option.some.inj hn
    decide +kernel

end AciContainers.IpIndex
