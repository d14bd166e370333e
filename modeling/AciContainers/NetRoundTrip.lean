import AciContainers.Net

/-!
# Addresses and networks through their text

`ParseIP` reads back what `IP.String` writes, and `ParseCIDR` what `IPNet.String` writes.
The text of an IPv6 address leaves out its first longest run of zero groups, which is filled in
again. An IPv4-mapped address of sixteen bytes is written in the IPv4 form and is not read back
as it was.
-/
namespace AciContainers.Net

open Bytes List Option Nat

variable {d b : Nat} {c : Char} {cs : List Char} {ip : IP} {ellipsis : Option Nat}

/-- The characters that decide how an address text is read. -/
def decides (c : Char) : Bool := c = '.' || c = ':' || c = '%'

theorem digitChar_plain (h : d < 16) : decides d.digitChar = false := by
  interval_cases d <;> decide

/-- The digits of a number, as numbers. -/
theorem toDigits_eq_map (hb : 1 < b) (n : Nat) : ∃ ds : List Nat, toDigits b n = ds.map digitChar ∧
    ds ≠ [] ∧ (∀ d ∈ ds, d < b) ∧ ds.foldl (fun acc d => acc * b + d) 0 = n := by
  induction n using Nat.strongRecOn with
  | ind n ih =>
    rw [toDigits_eq_if hb]
    split
    · next h => exact ⟨[n], by simp, by simp, by simpa using h, by simp⟩
    · next h =>
      obtain ⟨ds, hds, -, hlt, hval⟩ := ih (n / b) (div_lt_self (by omega) hb)
      refine ⟨ds ++ [n % b], by simp [hds], by simp, ?_, ?_⟩
      · intro d hd
        rcases mem_append.mp hd with hd | hd
        · exact hlt d hd
        · rw [mem_singleton.mp hd]
          exact mod_lt n (by omega)
      · rw [foldl_append, hval]
        exact div_add_mod' n b

theorem toDigits_plain (hb : 1 < b) (hle : b ≤ 16) (n : Nat) : ∀ c ∈ toDigits b n, decides c = false := by
  obtain ⟨ds, hds, -, hlt, -⟩ := toDigits_eq_map hb n
  rw [hds]
  intro c hc
  obtain ⟨d, hd, rfl⟩ := mem_map.mp hc
  exact digitChar_plain (lt_of_lt_of_le (hlt d hd) hle)

/-- Only zero itself is written with a leading zero. -/
theorem toDigits_head_ne_zero (n : Nat) (hn : n ≠ 0) : (toDigits 10 n).head? ≠ some '0' := by
  induction n using Nat.strongRecOn with
  | ind n ih =>
    rw [toDigits_eq_if (by decide)]
    split
    · next h => interval_cases n <;> first | exact absurd rfl hn | decide
    · next h =>
      obtain ⟨ds, hds, hne, -, -⟩ := toDigits_eq_map (show 1 < 10 by decide) (n / 10)
      have hhead := ih (n / 10) (by omega) (by omega)
      rw [hds] at hhead ⊢
      cases ds with
      | nil => exact absurd rfl hne
      | cons d ds => exact hhead

theorem parseOctet_toDigits (b : UInt8) : parseOctet (toDigits 10 b.toNat) = some b := by
  have hb := byte_lt b
  have hlead : ¬ ((toDigits 10 b.toNat).length > 1 ∧ (toDigits 10 b.toNat).head? = some '0') := by
    rintro ⟨hlen, hhead⟩
    have hzero : b.toNat = 0 := Classical.byContradiction fun h => toDigits_head_ne_zero b.toNat h hhead
    rw [hzero] at hlen
    exact absurd hlen (by decide)
  rw [parseOctet, if_neg hlead, decimal_toDigits]
  dsimp only
  rw [if_pos (by omega), UInt8.ofNat_toNat]

def dotted (a b c d : UInt8) : List Char :=
  toDigits 10 a.toNat ++ '.' :: (toDigits 10 b.toNat ++ '.' :: (toDigits 10 c.toNat ++
    '.' :: toDigits 10 d.toNat))

theorem parseIPv4Fields_dotted (a b c d : UInt8) : parseIPv4Fields (dotted a b c d) = some [a, b, c, d] := by
  have hplain : ∀ x : UInt8, '.' ∉ toDigits 10 x.toNat := fun x hx =>
    absurd (toDigits_plain (by decide) (by decide) x.toNat '.' hx) (by decide)
  unfold parseIPv4Fields dotted
  rw [splitOn_append (hplain a), splitOn_append (hplain b), splitOn_append (hplain c), splitOn_plain (hplain d)]
  simp [parseOctet_toDigits]

theorem find_decides {xs ys : List Char} (hxs : ∀ x ∈ xs, decides x = false) (hc : decides c = true) :
    (xs ++ c :: ys).find? decides = some c := by
  have hnone : xs.find? decides = none := find?_eq_none.mpr fun x hx => by simp [hxs x hx]
  rw [find?_append, hnone, find?_cons_of_pos hc]
  rfl

theorem find_dotted (a b c d : UInt8) : (dotted a b c d).find? decides = some '.' :=
  find_decides (toDigits_plain (by decide) (by decide) a.toNat) rfl

theorem ipString_four (a b c d : UInt8) : ipString [a, b, c, d] = String.ofList (dotted a b c d) := by
  simp [ipString, to4, dotted, intercalate]

theorem parseIP_four (a b c d : UInt8) : parseIP (ipString [a, b, c, d]) = some (v4InV6Prefix ++ [a, b, c, d]) ∧
      bitLen (ipString [a, b, c, d]).toList = 32 := by
  have hfind := find_dotted a b c d
  unfold decides at hfind
  rw [parseIP, ipString_four, String.toList_ofList, parseIPChars, bitLen, hfind, parseIPv4Fields_dotted]
  exact ⟨rfl, rfl⟩

theorem hexValue_digitChar (h : d < 16) : hexValue d.digitChar = some d := by
  interval_cases d <;> decide

theorem takeHex_map (ds : List Nat) (hds : ∀ d ∈ ds, d < 16) (rest : List Char) (acc off : Nat)
    (hoff : off + ds.length ≤ 4) : takeHex (ds.map digitChar ++ rest) acc off =
      takeHex rest (ds.foldl (fun acc d => acc * 16 + d) acc) (off + ds.length) := by
  induction ds generalizing acc off with
  | nil => simp
  | cons d ds ih =>
    rw [forall_mem_cons] at hds
    rw [length_cons] at hoff
    have hnot : ¬ off > 3 := by omega
    simp only [map_cons, cons_append, takeHex, hexValue_digitChar hds.1, if_neg hnot]
    rw [ih hds.2 _ _ (by omega), foldl_cons, length_cons]
    congr 1
    omega

/-- A group is read up to the colon behind it, or to the end. -/
theorem takeHex_group {g : Nat} (hg : g < 65536) {rest : List Char} (hrest : ∀ c ∈ rest.head?, hexValue c = none) :
    ∃ off, off ≠ 0 ∧ takeHex (toDigits 16 g ++ rest) 0 0 = some (g, off, rest) := by
  obtain ⟨ds, hds, hne, hlt, hval⟩ := toDigits_eq_map (show 1 < 16 by decide) g
  have hlen : ds.length ≤ 4 := by
    have h := (length_toDigits_le_iff (b := 16) (k := 4) (n := g) (by decide) (by decide)).mpr (by omega)
    rwa [hds, length_map] at h
  refine ⟨ds.length, fun h => hne (eq_nil_of_length_eq_zero h), ?_⟩
  rw [hds, takeHex_map ds hlt rest 0 0 (by omega), hval, zero_add]
  cases rest with
  | nil => rfl
  | cons c cs =>
    have hc := hrest c (by simp)
    rw [takeHex, hc]

@[simp] theorem hexGroups_nil : hexGroups [] = [] := rfl

@[simp] theorem hexGroups_singleton (g : Nat) : hexGroups [g] = toDigits 16 g := by
  simp [hexGroups, intercalate]

@[simp] theorem hexGroups_cons_cons (g g' : Nat) (gs : List Nat) :
    hexGroups (g :: g' :: gs) = toDigits 16 g ++ ':' :: hexGroups (g' :: gs) := by
  rfl

/-- The text of one or more groups begins with a digit. -/
theorem hexGroups_head (g : Nat) (gs : List Nat) : ∃ c cs, hexGroups (g :: gs) = c :: cs ∧ decides c = false := by
  obtain ⟨ds, hds, hne, hlt, -⟩ := toDigits_eq_map (show 1 < 16 by decide) g
  cases ds with
  | nil => exact absurd rfl hne
  | cons d ds =>
    have hd := digitChar_plain (hlt d mem_cons_self)
    cases gs with
    | nil => exact ⟨d.digitChar, ds.map digitChar, by simp [hds], hd⟩
    | cons g' gs => exact ⟨d.digitChar, ds.map digitChar ++ ':' :: hexGroups (g' :: gs), by simp [hds], hd⟩

theorem ne_colon (h : decides c = false) : c ≠ ':' := by
  rintro rfl
  exact absurd h (by decide)

/-- One turn of the loop in front of another group. -/
theorem parseIPv6Loop_colon {g : Nat} (hg : g < 65536) (hc : decides c = false) (fuel : Nat)
    (ip : ByteString) (ellipsis : Option Nat) : parseIPv6Loop (fuel + 1) (toDigits 16 g ++ ':' :: c :: cs) ip ellipsis =
      parseIPv6Loop fuel (c :: cs) (ip ++ group g) ellipsis := by
  obtain ⟨off, hoff, htake⟩ := @takeHex_group g hg (':' :: c :: cs) (by simp; decide)
  have hne := ne_colon hc
  simp only [parseIPv6Loop, htake, if_neg hoff]
  split
  · next h => simp at h
  · next h => simp at h
  · next h => simp at h
  · next h =>
    simp only [cons.injEq, true_and] at h
    exact absurd h.1 hne
  · next h =>
    simp only [cons.injEq, true_and] at h
    exact absurd h.1 hne
  · next h =>
    rw [(cons.inj h).2]
  · next h => exact absurd rfl (h _)

theorem parseIPv6Loop_groups (gs : List Nat) (hne : gs ≠ []) (hgs : ∀ g ∈ gs, g < 65536) (fuel : Nat)
    (hfuel : gs.length ≤ fuel) (ip : ByteString) (ellipsis : Option Nat) :
    parseIPv6Loop fuel (hexGroups gs) ip ellipsis = some ([], ip ++ gs.flatMap group, ellipsis) := by
  induction gs generalizing fuel ip with
  | nil => exact absurd rfl hne
  | cons g gs ih =>
    rw [forall_mem_cons] at hgs
    obtain ⟨fuel, rfl⟩ : ∃ f, fuel = f + 1 := ⟨fuel - 1, by rw [length_cons] at hfuel; omega⟩
    rw [length_cons] at hfuel
    cases gs with
    | nil =>
      obtain ⟨off, hoff, htake⟩ := @takeHex_group g hgs.1 [] (by simp)
      rw [append_nil] at htake
      simp [parseIPv6Loop, htake, hoff]
    | cons g' gs =>
      obtain ⟨c, cs, hcs, hc⟩ := hexGroups_head g' gs
      have hrest := ih (by simp) hgs.2 fuel (by omega) (ip ++ group g)
      rw [hexGroups_cons_cons, hcs, parseIPv6Loop_colon hgs.1 hc, ← hcs, hrest]
      simp

/-- Groups on both sides of the run of zeros. -/
theorem parseIPv6Loop_ellipsis (gs post : List Nat) (hne : gs ≠ []) (hgs : ∀ g ∈ gs, g < 65536)
    (hpost : ∀ g ∈ post, g < 65536) (fuel : Nat) (hfuel : gs.length + post.length ≤ fuel) (ip : ByteString) :
    parseIPv6Loop fuel (hexGroups gs ++ ':' :: ':' :: hexGroups post) ip none =
      some ([], ip ++ gs.flatMap group ++ post.flatMap group, some (ip ++ gs.flatMap group).length) := by
  induction gs generalizing fuel ip with
  | nil => exact absurd rfl hne
  | cons g gs ih =>
    rw [forall_mem_cons] at hgs
    rw [length_cons] at hfuel
    obtain ⟨fuel, rfl⟩ : ∃ f, fuel = f + 1 := ⟨fuel - 1, by omega⟩
    cases gs with
    | nil =>
      obtain ⟨off, hoff, htake⟩ := @takeHex_group g hgs.1 (':' :: ':' :: hexGroups post) (by simp; decide)
      rw [hexGroups_singleton]
      cases post with
      | nil =>
        rw [hexGroups_nil] at htake ⊢
        simp [parseIPv6Loop, htake, hoff, group]
      | cons g' post =>
        obtain ⟨c, cs, hcs, -⟩ := hexGroups_head g' post
        have hrest := parseIPv6Loop_groups (g' :: post) (by simp) hpost fuel (by rw [length_nil] at hfuel; omega)
          (ip ++ group g)
          (some (ip.length + 2))
        rw [hcs] at htake hrest ⊢
        simp only [parseIPv6Loop, htake, if_neg hoff]
        simp only [isSome_none, Bool.false_eq_true, if_false, hrest]
        simp [group]
    | cons g' gs =>
      obtain ⟨c, cs, hcs, hc⟩ := hexGroups_head g' gs
      have hrest := ih (by simp) hgs.2 fuel (by omega) (ip ++ group g)
      rw [hexGroups_cons_cons, append_assoc, cons_append]
      rw [hcs] at hrest ⊢
      rw [cons_append] at hrest ⊢
      rw [parseIPv6Loop_colon hgs.1 hc, hrest]
      simp

/-- `len` zero groups stand at `start`. -/
def ZerosAt (gs : List Nat) (run : Nat × Nat) : Prop :=
  gs.drop run.1 = replicate run.2 0 ++ gs.drop (run.1 + run.2)

theorem zerosAt_takeWhile (gs : List Nat) (i : Nat) : ZerosAt gs (i, ((gs.drop i).takeWhile (· = 0)).length) := by
  have hsplit := @takeWhile_append_dropWhile Nat (fun g => decide (g = 0)) (gs.drop i)
  have hzeros : (gs.drop i).takeWhile (· = 0) = replicate ((gs.drop i).takeWhile (· = 0)).length 0 :=
    eq_replicate_of_mem fun g hg => by simpa using mem_takeWhile_imp hg
  have hdrop : (gs.drop i).drop ((gs.drop i).takeWhile (· = 0)).length = (gs.drop i).dropWhile (· = 0) := by
    conv_lhs => rw [← hsplit]
    rw [drop_append_of_le_length (le_of_eq (by rw [hsplit])), hsplit]
    simp
  rw [ZerosAt]
  rw [← hzeros, ← drop_drop, hdrop, hsplit]

theorem zerosAt_zeroRun (gs : List Nat) : ZerosAt gs (zeroRun gs) := by
  refine foldlRecOn (range gs.length) _ (by simp [ZerosAt]) ?_
  intro best hbest i hi
  dsimp only
  split
  · exact zerosAt_takeWhile gs i
  · exact hbest

theorem length_groups : ∀ {ip : ByteString} {k : Nat}, ip.length = 2 * k → (groups ip).length = k
  | [], k, h => by simp at h; simp [groups, h]
  | [_], k, h => by simp at h; omega
  | _ :: _ :: rest, k, h => by
    have hrest := @length_groups rest (k - 1) (by simp at h; omega)
    simp only [groups, length_cons, hrest]
    simp at h
    omega

theorem group_bytes (a b : UInt8) : group (a.toNat * 256 + b.toNat) = [a, b] := by
  have hb := byte_lt b
  have hdiv : (a.toNat * 256 + b.toNat) / 256 = a.toNat := by omega
  have hlow : UInt8.ofNat (a.toNat * 256 + b.toNat) = b := by
    refine UInt8.toNat_inj.mp ?_
    rw [UInt8.toNat_ofNat']
    omega
  rw [group, hdiv, hlow]
  simp

theorem flatMap_groups : ∀ {ip : ByteString} {k : Nat}, ip.length = 2 * k → (groups ip).flatMap group = ip
  | [], k, h => rfl
  | [_], k, h => by simp at h; omega
  | a :: b :: rest, k, h => by
    have hrest := @flatMap_groups rest (k - 1) (by simp at h; omega)
    rw [groups, flatMap_cons, group_bytes, hrest]
    rfl

theorem groups_lt : ∀ ip : ByteString, ∀ g ∈ groups ip, g < 65536
  | [], g, h => by simp [groups] at h
  | [_], g, h => by simp [groups] at h
  | a :: b :: rest, g, h => by
    have ha := byte_lt a
    have hb := byte_lt b
    rw [groups, mem_cons] at h
    rcases h with h | h
    · omega
    · exact groups_lt rest g h

/-- The text of the address, as `IP.String` writes it. -/
def hexText (gs : List Nat) : List Char :=
  if (zeroRun gs).2 = 0 then hexGroups gs
  else hexGroups (gs.take (zeroRun gs).1) ++ ':' :: ':' :: hexGroups (gs.drop ((zeroRun gs).1 + (zeroRun gs).2))

theorem ipString_sixteen (hlen : ip.length = 16) (hto4 : to4 ip = none) :
    ipString ip = String.ofList (hexText (groups ip)) := by
  unfold ipString hexText
  rw [hto4]
  simp only [hlen, if_true]
  split
  · rfl
  · simp

theorem flatMap_zeros (k : Nat) : (replicate k 0).flatMap group = replicate (2 * k) 0 := by
  induction k with
  | zero => rfl
  | succ k ih =>
    rw [replicate_succ, flatMap_cons, ih, show 2 * (k + 1) = 2 * k + 1 + 1 by omega, replicate_succ,
      replicate_succ]
    rfl

theorem length_flatMap_group (gs : List Nat) : (gs.flatMap group).length = 2 * gs.length := by
  induction gs with
  | nil => rfl
  | cons g gs ih =>
    rw [flatMap_cons, length_append, ih, length_cons, group]
    simp only [length_cons, length_nil]
    omega

/-- The address is the groups before the run, the run and the groups behind it. -/
theorem split_at_run (hlen : ip.length = 16) : ip = ((groups ip).take (zeroRun (groups ip)).1).flatMap group ++
        replicate (2 * (zeroRun (groups ip)).2) 0 ++
        ((groups ip).drop ((zeroRun (groups ip)).1 + (zeroRun (groups ip)).2)).flatMap group := by
  have hrun := zerosAt_zeroRun (groups ip)
  have hbytes := @flatMap_groups ip 8 hlen
  conv_lhs => rw [← hbytes, ← take_append_drop (zeroRun (groups ip)).1 (groups ip), hrun]
  rw [flatMap_append, flatMap_append, flatMap_zeros, append_assoc]

theorem expandEllipsis_split {pre post : ByteString} (h : (pre ++ post).length < 16) :
    expandEllipsis (pre ++ post) (some pre.length) = some (pre ++ replicate (16 - (pre ++ post).length) 0 ++ post) := by
  rw [expandEllipsis, if_pos h, map_some, take_left, drop_left]

/-- A text that does not begin with a colon is read from its first group on. -/
theorem parseIPv6_digit (hc : decides c = false) {ip : ByteString}
    (h : parseIPv6Loop 8 (c :: cs) [] none = some ([], ip, ellipsis)) :
    parseIPv6 (c :: cs) = expandEllipsis ip ellipsis := by
  have hne := ne_colon hc
  unfold parseIPv6
  dsimp only
  split
  · next ip' ellipsis' hp =>
    split at hp
    · next heq => exact absurd (cons.inj heq).1 hne
    · next heq => exact absurd (cons.inj heq).1 hne
    · rw [h] at hp
      simp only [some.injEq, Prod.mk.injEq, true_and] at hp
      rw [hp.1, hp.2]
  · next hno =>
    split at hno
    · next heq => exact absurd (cons.inj heq).1 hne
    · next heq => exact absurd (cons.inj heq).1 hne
    · exact absurd h (hno ip ellipsis)

theorem parseIPv6_colons {ip : ByteString} (h : parseIPv6Loop 8 (c :: cs) [] (some 0) = some ([], ip, ellipsis)) :
    parseIPv6 (':' :: ':' :: c :: cs) = expandEllipsis ip ellipsis := by
  simp [parseIPv6, h]

theorem parseIPv6_hexText (hlen : ip.length = 16) : parseIPv6 (hexText (groups ip)) = some ip := by
  have hcount : (groups ip).length = 8 := @length_groups ip 8 hlen
  have hbound := groups_lt ip
  have hsplit := split_at_run hlen
  unfold hexText
  by_cases hzero : (zeroRun (groups ip)).2 = 0
  · rw [if_pos hzero]
    have hloop := parseIPv6Loop_groups (groups ip) (by intro h; simp [h] at hcount) hbound 8 (by omega) [] none
    rw [@flatMap_groups ip 8 hlen, nil_append] at hloop
    cases hgs : groups ip with
    | nil => simp [hgs] at hcount
    | cons g gs =>
      obtain ⟨c, cs, hcs, hc⟩ := hexGroups_head g gs
      rw [hgs, hcs] at hloop
      rw [hcs, parseIPv6_digit hc hloop, expandEllipsis, if_neg (by omega)]
      rfl
  · rw [if_neg hzero]
    generalize hrun : zeroRun (groups ip) = run at hzero hsplit
    have hpre : ∀ g ∈ (groups ip).take run.1, g < 65536 := fun g hg => hbound g (mem_of_mem_take hg)
    have hpost : ∀ g ∈ (groups ip).drop (run.1 + run.2), g < 65536 := fun g hg => hbound g (mem_of_mem_drop hg)
    generalize (groups ip).take run.1 = pre at hpre hsplit
    generalize (groups ip).drop (run.1 + run.2) = post at hpost hsplit
    have htotal : 2 * pre.length + 2 * run.2 + 2 * post.length = 16 := by
      have h := congrArg length hsplit
      simp only [hlen, length_append, length_flatMap_group, length_replicate] at h
      omega
    have hsize : (pre.flatMap group ++ post.flatMap group).length = 16 - 2 * run.2 := by
      rw [length_append, length_flatMap_group, length_flatMap_group]
      omega
    have hfill : expandEllipsis (pre.flatMap group ++ post.flatMap group) (some (pre.flatMap group).length) =
      some ip := by
      rw [expandEllipsis_split (by omega), hsize, show 16 - (16 - 2 * run.2) = 2 * run.2 by omega, ← hsplit]
    cases pre with
    | nil =>
      cases post with
      | nil => exact hfill
      | cons g post =>
        obtain ⟨c, cs, hcs, hc⟩ := hexGroups_head g post
        have hloop := parseIPv6Loop_groups (g :: post) (by simp) hpost 8 (by simp at htotal ⊢; omega) [] (some 0)
        rw [hcs] at hloop
        rw [hexGroups_nil, nil_append, hcs, parseIPv6_colons hloop]
        exact hfill
    | cons g pre =>
      obtain ⟨c, cs, hcs, hc⟩ := hexGroups_head g pre
      have hloop := parseIPv6Loop_ellipsis (g :: pre) post (by simp) hpre hpost 8 (by simp at htotal ⊢; omega) []
      rw [hcs, cons_append] at hloop ⊢
      rw [parseIPv6_digit hc hloop]
      exact hfill

theorem hexGroups_chars (gs : List Nat) : ∀ c ∈ hexGroups gs, decides c = false ∨ c = ':' := by
  induction gs with
  | nil => simp
  | cons g gs ih =>
    intro c hc
    cases gs with
    | nil =>
      rw [hexGroups_singleton] at hc
      exact .inl (toDigits_plain (by decide) (by decide) g c hc)
    | cons g' gs =>
      rw [hexGroups_cons_cons, mem_append, mem_cons] at hc
      rcases hc with hc | hc | hc
      · exact .inl (toDigits_plain (by decide) (by decide) g c hc)
      · exact .inr hc
      · exact ih c hc

theorem hexText_chars (gs : List Nat) : ∀ c ∈ hexText gs, decides c = false ∨ c = ':' := by
  intro c hc
  unfold hexText at hc
  split at hc
  · exact hexGroups_chars gs c hc
  · rw [mem_append, mem_cons, mem_cons] at hc
    rcases hc with hc | hc | hc | hc
    · exact hexGroups_chars _ c hc
    · exact .inr hc
    · exact .inr hc
    · exact hexGroups_chars _ c hc

theorem colon_mem_hexText {gs : List Nat} (h : 2 ≤ gs.length) : ':' ∈ hexText gs := by
  unfold hexText
  split
  · match gs, h with
    | g :: g' :: gs, _ => simp
  · simp

theorem find_hexText {gs : List Nat} (h : 2 ≤ gs.length) : (hexText gs).find? decides = some ':' := by
  cases hfind : (hexText gs).find? decides with
  | none => exact absurd (find?_eq_none.mp hfind ':' (colon_mem_hexText h)) (by decide)
  | some c =>
    rcases hexText_chars gs c (mem_of_find?_eq_some hfind) with hc | hc
    · exact absurd (find?_some hfind) (by simp [hc])
    · rw [hc]

theorem parseIP_sixteen (hlen : ip.length = 16) (hto4 : to4 ip = none) :
    parseIP (ipString ip) = some ip ∧ bitLen (ipString ip).toList = 128 := by
  have hcount : (groups ip).length = 8 := @length_groups ip 8 hlen
  have hfind := @find_hexText (groups ip) (by omega)
  have hzone : '%' ∉ hexText (groups ip) := by
    intro hmem
    rcases hexText_chars _ _ hmem with h | h
    · exact absurd h (by decide)
    · exact absurd h (by decide)
  unfold decides at hfind
  rw [parseIP, ipString_sixteen hlen hto4, String.toList_ofList, parseIPChars, bitLen, hfind]
  exact ⟨by simp only [if_neg hzone, parseIPv6_hexText hlen], rfl⟩

theorem leadingOnes_maskByte : ∀ l : Fin 8, (~~~ (0xff >>> UInt8.ofNat l) : UInt8) ≠ 0xff ∧
    leadingOnes (~~~ (0xff >>> UInt8.ofNat l)) = some l.val := by
  decide

theorem cidrMaskBytes_zero_all (n : Nat) : (cidrMaskBytes n 0).all (· = 0) = true := by
  induction n with
  | zero => rfl
  | succ n ih =>
    rw [cidrMaskBytes, if_neg (by omega), all_cons, ih]
    decide

theorem simpleMaskLength_cidrMaskBytes (n l : Nat) (hl : l ≤ 8 * n) :
    simpleMaskLength (cidrMaskBytes n l) = some l := by
  induction n generalizing l with
  | zero =>
    rw [show l = 0 by omega]
    rfl
  | succ n ih =>
    rw [cidrMaskBytes]
    by_cases h8 : 8 ≤ l
    · rw [if_pos h8, simpleMaskLength, if_pos rfl, ih (l - 8) (by omega), map_some]
      congr 1
      omega
    · obtain ⟨hne, hones⟩ := leadingOnes_maskByte ⟨l, by omega⟩
      rw [if_neg h8, simpleMaskLength, if_neg hne, if_pos (cidrMaskBytes_zero_all n), hones]

/-- `ParseCIDR` reads a network back from its text. -/
theorem parseCIDR_string {n l : Nat} (hlen : ip.length = n) (hn : n = 4 ∨ n = 16 ∧ to4 ip = none)
    (hl : l ≤ 8 * n) (hmask : zipWith (· &&& ·) ip (cidrMaskBytes n l) = ip) :
    ∃ x, parseCIDR (IPNet.string ⟨ip, cidrMaskBytes n l⟩) = some (x, ⟨ip, cidrMaskBytes n l⟩) := by
  have htext : decimal (String.ofList (toDigits 10 l)).toList = some l := by
    rw [String.toList_ofList, decimal_toDigits]
  have hsimple := simpleMaskLength_cidrMaskBytes n l hl
  rcases hn with rfl | ⟨rfl, hto4⟩
  · have hnum : networkNumberAndMask ⟨ip, cidrMaskBytes 4 l⟩ = some (ip, cidrMaskBytes 4 l) := by
      simp [networkNumberAndMask, to4, hlen, length_cidrMaskBytes]
    obtain ⟨hparse, hbits⟩ : parseIP (ipString ip) = some (v4InV6Prefix ++ ip) ∧ bitLen (ipString ip).toList = 32 := by
      obtain ⟨a, b, c, d, rfl⟩ := length_eq_four.mp hlen
      exact parseIP_four a b c d
    rw [IPNet.string, hnum]
    dsimp only
    rw [hsimple]
    refine ⟨_, parseCIDR_append hparse htext (by rw [hbits, cidrMask, if_pos ⟨.inl rfl, hl⟩]) ?_⟩
    rw [mask_v4 hlen, hmask]
  · have hnum : networkNumberAndMask ⟨ip, cidrMaskBytes 16 l⟩ = some (ip, cidrMaskBytes 16 l) := by
      simp [networkNumberAndMask, hto4, hlen, length_cidrMaskBytes]
    obtain ⟨hparse, hbits⟩ := parseIP_sixteen hlen hto4
    rw [IPNet.string, hnum]
    dsimp only
    rw [hsimple]
    refine ⟨_, parseCIDR_append hparse htext (by rw [hbits, cidrMask, if_pos ⟨.inr rfl, hl⟩]) ?_⟩
    rw [mask_v6 hlen, hmask]

end AciContainers.Net
