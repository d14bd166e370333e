import AciContainers.IpCacheRuns
import AciContainers.Ownership
import AciContainers.ServiceIps

/-!
# Ownership of load-balancer addresses

Every address of the two pools is free in its own pool or listed by one service, as
long as no step gives back an address that a service lists as static together with its
dynamic ones. A granted static address is also put into `ingressIps`, and everything in
that list goes to the dynamic pool when the service is cleared.
-/
namespace AciContainers.Services

open Bytes Net Intervals Ipam Maps Ownership Runs
open List hiding splitOn

/-- Free addresses, in the dynamic pool for `true` and in the static pool for `false`. -/
def freeOf (p : Pools) (dynamic : Bool) (x : Nat) : Prop :=
  if dynamic then p.serviceIps.Holds x else p.staticServiceIps.Holds x

/-- Pools in order, and one service's held addresses against those of all others. -/
structure Books (home : Bool → Nat → Prop) (others : Nat → Prop) (p : Pools) (held : Nat → Prop) :
    Prop where
  dynamic : p.serviceIps.Ok
  static : p.staticServiceIps.Ok
  accounts : Accounts home (freeOf p) held others

section Moves

variable {x : Nat} {l : List IP} {home : Bool → Nat → Prop} {others held : Nat → Prop} {p : Pools} {ip : IP}

theorem Books.congr (h : Books home others p held) {held' : Nat → Prop}
    (hh : ∀ x, held' x ↔ held x) : Books home others p held' :=
  ⟨h.dynamic, h.static, h.accounts.congr (fun _ _ => Iff.rfl) hh⟩

section

variable (h : Books home others p held) (hip : ip.length = 16) (hheld : held (value ip))
include h hip hheld

theorem Books.deallocate (hhome : home true (value ip)) :
    Books home others { p with serviceIps := p.serviceIps.deallocateIp ip } (fun x => held x ∧ x ≠ value ip) := by
  have hfresh : ¬ p.serviceIps.Holds (value ip) := fun hx => (h.accounts.free_apart true _ hx).1 hheld
  obtain ⟨hok, hadd⟩ := IpCache.deallocateIp_spec h.dynamic hip hfresh
  refine ⟨hok, h.static, h.accounts.giveBack hheld hhome ?_ (fun x => Iff.rfl)⟩
  intro q x
  cases q with
  | true =>
    simp only [freeOf, if_true, true_and]
    rw [IpCache.holds_iff _ (decide (V4Value (value ip))), hadd, hadd,
      IpCache.holds_iff p.serviceIps (decide (V4Value (value ip)))]
    tauto
  | false => simp [freeOf]

theorem Books.returnStatic (hhome : home false (value ip)) :
    Books home others { p with staticServiceIps := returnIp p.staticServiceIps ip }
      (fun x => held x ∧ x ≠ value ip) := by
  have hfresh : ¬ p.staticServiceIps.Holds (value ip) :=
    fun hx => (h.accounts.free_apart false _ hx).1 hheld
  obtain ⟨hok, hadd⟩ := returnIp_spec h.static hip hfresh
  refine ⟨h.dynamic, hok, h.accounts.giveBack hheld hhome ?_ (fun x => Iff.rfl)⟩
  intro q x
  cases q with
  | true => simp [freeOf]
  | false => simp [freeOf, hadd]

end

theorem Books.allocate (h : Books home others p held) (v : Bool) (hip : (p.serviceIps.allocateIp v).1 = some ip) :
    ip.length = 16 ∧ home true (value ip) ∧ ¬ held (value ip) ∧
      Books home others { p with serviceIps := (p.serviceIps.allocateIp v).2 } (fun x => held x ∨ x = value ip) := by
  obtain ⟨hlen, hhas, hok, hrest⟩ := IpCache.allocateIp_spec h.dynamic hip
  have hfree : freeOf p true (value ip) := (p.serviceIps.holds_iff v _).mpr (.inl hhas)
  refine ⟨hlen, h.accounts.home_of_free true _ hfree, (h.accounts.free_apart true _ hfree).1, hok,
    h.static, h.accounts.take hfree ?_ (fun x => Iff.rfl)⟩
  intro q x
  cases q with
  | true =>
    simp only [freeOf, if_true, true_and]
    rw [IpCache.Holds, hrest, hrest, ← or_and_right]
    rfl
  | false => simp [freeOf]

theorem removeFirst_spec {c : IpCache} (v : Bool) (h : c.Ok) (hip : ip.length = 16) :
    (removeFirst c v ip).1.Ok ∧ ((removeFirst c v ip).2 → c.Holds (value ip)) ∧ ∀ x, (removeFirst c v ip).1.Holds x ↔
        c.Holds x ∧ ¬ ((removeFirst c v ip).2 ∧ x = value ip) := by
  obtain ⟨hcan, hflag, hrest⟩ := removeIp_spec (h.lists v).front hip
  have hflag' : (removeFirst c v ip).2 ↔ (c.lists v).front.Holds (value ip) := hflag
  have hlists : ∀ x, IpLists.Holds ⟨((c.lists v).front.removeIp ip).1, (c.lists v).back⟩ x ↔
      (c.lists v).Holds x ∧ ¬ ((c.lists v).front.Holds (value ip) ∧ x = value ip) := by
    intro x
    rw [IpLists.Holds, IpLists.Holds, hrest]
    constructor
    · rintro (⟨hx, hne⟩ | hx)
      · exact ⟨.inl hx, fun hb => hne hb.2⟩
      · exact ⟨.inr hx, fun hb => (h.lists v).apart _ hb.1 (hb.2 ▸ hx)⟩
    · rintro ⟨hx | hx, hno⟩
      · exact .inl ⟨hx, fun he => hno ⟨he ▸ hx, he⟩⟩
      · exact .inr hx
  refine ⟨IpCache.ok_setLists h ⟨hcan, (h.lists v).back, ?_⟩ ?_ ?_, ?_, ?_⟩
  · exact fun x hx => (h.lists v).apart x ((hrest x).mp hx).1
  · exact fun x hx => h.apart v x ((hlists x).mp hx).1
  · rintro rfl x hx
    exact h.v4 x ((hlists x).mp hx).1
  · intro hf
    exact (c.holds_iff v _).mpr (.inl (.inl (hflag'.mp hf)))
  · intro x
    rw [hflag', removeFirst, IpCache.holds_setLists, hlists, c.holds_iff v]
    constructor
    · rintro (⟨hx, hno⟩ | hx)
      · exact ⟨.inl hx, hno⟩
      · exact ⟨.inr hx, fun hb => h.apart v _ (.inl hb.1) (hb.2 ▸ hx)⟩
    · rintro ⟨hx | hx, hno⟩
      · exact .inl ⟨hx, hno⟩
      · exact .inr hx

/-- An address that a pool may have given. -/
theorem Books.takes {p' : Pools} {taken : Bool} (h : Books home others p held) (dynamic : Bool)
    (hdynamic : p'.serviceIps.Ok) (hstatic : p'.staticServiceIps.Ok) (hflag : taken → freeOf p dynamic (value ip))
    (hrest : ∀ q x, freeOf p' q x ↔ freeOf p q x ∧ ¬ (q = dynamic ∧ taken ∧ x = value ip)) :
    Books home others p' (fun x => held x ∨ taken ∧ x = value ip) ∧
      (taken → home dynamic (value ip) ∧ ¬ held (value ip)) := by
  cases taken with
  | true =>
    have hfree := hflag rfl
    refine ⟨⟨hdynamic, hstatic, h.accounts.take hfree (by simpa using hrest) (by simp)⟩, fun _ => ?_⟩
    exact ⟨h.accounts.home_of_free dynamic _ hfree, (h.accounts.free_apart dynamic _ hfree).1⟩
  | false => exact ⟨⟨hdynamic, hstatic, h.accounts.congr (by simpa using hrest) (by simp)⟩, nofun⟩

/-- Removing from a pool takes the address if the flag says so, and nothing else. -/
theorem Books.removeFirst (h : Books home others p held) (v : Bool) (hip : ip.length = 16) :
    Books home others { p with serviceIps := (removeFirst p.serviceIps v ip).1 }
      (fun x => held x ∨ (Services.removeFirst p.serviceIps v ip).2 ∧ x = value ip) ∧
      ((Services.removeFirst p.serviceIps v ip).2 → home true (value ip) ∧ ¬ held (value ip)) := by
  obtain ⟨hok, hflag, hrest⟩ := removeFirst_spec v h.dynamic hip
  refine h.takes true hok h.static hflag fun q x => ?_
  cases q <;> simp [freeOf, hrest]

theorem Books.removeStatic (h : Books home others p held) (v : Bool) (hip : ip.length = 16) :
    Books home others { p with staticServiceIps := (p.staticServiceIps.removeIp v ip).1 }
      (fun x => held x ∨ (p.staticServiceIps.removeIp v ip).2 ∧ x = value ip) ∧
      ((p.staticServiceIps.removeIp v ip).2 → home false (value ip) ∧ ¬ held (value ip)) := by
  obtain ⟨hok, hflag, hrest⟩ := NetPools.removeIp_spec v h.static hip
  refine h.takes false h.dynamic hok hflag fun q x => ?_
  cases q <;> simp [freeOf, hrest]

/-- The numbers of a list of addresses. -/
def Listed (l : List IP) (x : Nat) : Prop := ∃ ip ∈ l, value ip = x

@[simp] theorem listed_nil : ¬ Listed [] x := by simp [Listed]
@[simp] theorem listed_cons (ip : IP) : Listed (ip :: l) x ↔ x = value ip ∨ Listed l x := by simp [Listed, eq_comm]
@[simp] theorem listed_append (m : List IP) : Listed (l ++ m) x ↔ Listed l x ∨ Listed m x := by
  simp [Listed, or_and_right, exists_or]

theorem listed_iff {a : IP} (hl : ∀ ip ∈ l, ip.length = 16) (ha : a.length = 16) : Listed l (value a) ↔ a ∈ l := by
  constructor
  · rintro ⟨ip, hip, he⟩
    exact value_inj ((hl ip hip).trans ha.symm) he ▸ hip
  · intro h
    exact ⟨a, h, rfl⟩

/-- Addresses given back one after the other, for either pool. -/
theorem Books.foldl_giveBack {dynamic : Bool} {put : Pools → IP → Pools}
    (hput : ∀ {p : Pools} {held : Nat → Prop} {ip : IP}, Books home others p held → ip.length = 16 →
      held (value ip) → home dynamic (value ip) →
        Books home others (put p ip) (fun x => held x ∧ x ≠ value ip)) (h : Books home others p held)
    (hw : ∀ ip ∈ l, ip.length = 16) (hn : l.Nodup) (hheld : ∀ ip ∈ l, held (value ip))
    (hhome : ∀ ip ∈ l, home dynamic (value ip)) :
    Books home others (l.foldl put p) (fun x => held x ∧ ¬ Listed l x) := by
  induction l generalizing p held with
  | nil => exact h.congr (by simp)
  | cons ip l ih =>
    obtain ⟨hip, hn'⟩ := nodup_cons.mp hn
    simp only [forall_mem_cons] at hw hheld hhome
    have hne : ∀ q ∈ l, value q ≠ value ip := by
      intro q hq he
      exact hip (value_inj ((hw.2 q hq).trans hw.1.symm) he ▸ hq)
    have hnext := ih (hput h hw.1 hheld.1 hhome.1) hw.2 hn'
      (fun q hq => ⟨hheld.2 q hq, hne q hq⟩) hhome.2
    refine hnext.congr fun x => ?_
    rw [listed_cons, not_or, and_assoc]

theorem Books.returnServiceIps (l : List IP) (h : Books home others p held)
    (hw : ∀ ip ∈ l, ip.length = 16) (hn : l.Nodup) (hheld : ∀ ip ∈ l, held (value ip))
    (hhome : ∀ ip ∈ l, home true (value ip)) :
    Books home others { p with serviceIps := Services.returnServiceIps p.serviceIps l }
      (fun x => held x ∧ ¬ Listed l x) := by
  have hfold := Books.foldl_giveBack Books.deallocate h hw hn hheld hhome
  have heq : l.foldl (fun q ip => { q with serviceIps := q.serviceIps.deallocateIp ip }) p =
      { p with serviceIps := Services.returnServiceIps p.serviceIps l } :=
    foldl_hom (fun c => ({ p with serviceIps := c } : Pools)) fun _ _ => rfl
  exact heq ▸ hfold

theorem Books.returnIps (l : List IP) (h : Books home others p held)
    (hw : ∀ ip ∈ l, ip.length = 16) (hn : l.Nodup) (hheld : ∀ ip ∈ l, held (value ip))
    (hhome : ∀ ip ∈ l, home false (value ip)) :
    Books home others { p with staticServiceIps := Ipam.returnIps p.staticServiceIps l }
      (fun x => held x ∧ ¬ Listed l x) := by
  have hfold := Books.foldl_giveBack Books.returnStatic h hw hn hheld hhome
  have heq : l.foldl (fun q ip => { q with staticServiceIps := returnIp q.staticServiceIps ip }) p =
      { p with staticServiceIps := Ipam.returnIps p.staticServiceIps l } :=
    foldl_hom (fun c => ({ p with staticServiceIps := c } : Pools)) fun _ _ => rfl
  exact heq ▸ hfold

end Moves

/-- The lists of a service: static addresses come from the static pool, all others of
`ingressIps` from the dynamic pool, and none of these is listed twice. -/
structure MetaOk (home : Bool → Nat → Prop) (m : ServiceMeta) : Prop where
  ingress_width : ∀ ip ∈ m.ingressIps, ip.length = 16
  static_width : ∀ ip ∈ m.staticIngressIps, ip.length = 16
  ingress_home : ∀ ip ∈ m.ingressIps, ip ∉ m.staticIngressIps → home true (value ip)
  static_home : ∀ ip ∈ m.staticIngressIps, home false (value ip)
  static_once : m.staticIngressIps.Nodup
  ingress_once : ∀ ip, ip ∉ m.staticIngressIps → m.ingressIps.count ip ≤ 1

def owned (m : ServiceMeta) : Nat → Prop := Listed (m.ingressIps ++ m.staticIngressIps)

/-- No address is listed both as dynamic and as static. -/
def ServiceMeta.Apart (m : ServiceMeta) : Prop := ∀ ip ∈ m.ingressIps, ip ∉ m.staticIngressIps

instance (m : ServiceMeta) : Decidable m.Apart :=
  inferInstanceAs (Decidable (∀ ip ∈ m.ingressIps, ip ∉ m.staticIngressIps))

section Restore

variable {home : Bool → Nat → Prop} {others : Nat → Prop} {p : Pools} {m : ServiceMeta} {ip : IP}

section

variable (h : MetaOk home m) (hip : ip.length = 16)
include h hip

theorem MetaOk.not_mem_of_not_owned (hno : ¬ owned m (value ip)) : ip ∉ m.ingressIps ∧ ip ∉ m.staticIngressIps := by
  rw [owned, listed_append, not_or, listed_iff h.ingress_width hip, listed_iff h.static_width hip] at hno
  exact hno

theorem MetaOk.add_ingress (hhome : home true (value ip)) (hno : ¬ owned m (value ip)) :
    MetaOk home { m with ingressIps := m.ingressIps ++ [ip] } where
  ingress_width := forall_mem_append.mpr ⟨h.ingress_width, forall_mem_singleton.mpr hip⟩
  static_width := h.static_width
  ingress_home := forall_mem_append.mpr
    ⟨h.ingress_home, forall_mem_singleton.mpr fun _ => hhome⟩
  static_home := h.static_home
  static_once := h.static_once
  ingress_once q hq := by
    have hone := h.ingress_once q hq
    by_cases he : q = ip
    · subst he
      have hzero := count_eq_zero_of_not_mem (h.not_mem_of_not_owned hip hno).1
      simp [hzero]
    · have hz : count q [ip] = 0 := count_eq_zero_of_not_mem (by simpa using he)
      simpa [hz] using hone

theorem MetaOk.add_static (hhome : home false (value ip)) (hno : ¬ owned m (value ip)) :
    MetaOk home { m with staticIngressIps := m.staticIngressIps ++ [ip] } where
  ingress_width := h.ingress_width
  static_width := forall_mem_append.mpr ⟨h.static_width, forall_mem_singleton.mpr hip⟩
  ingress_home q hq hs := h.ingress_home q hq fun hm => hs (mem_append_left _ hm)
  static_home := forall_mem_append.mpr ⟨h.static_home, forall_mem_singleton.mpr hhome⟩
  static_once := by
    have hout := (h.not_mem_of_not_owned hip hno).2
    exact h.static_once.append (nodup_singleton ip) (by simpa using hout)
  ingress_once q hq := h.ingress_once q fun hm => hq (mem_append_left _ hm)

end

/-- Restoring an address of the status takes it out of the pool that has it. -/
theorem restoreIngress_spec (ingress : LoadBalancerIngress) (h : Books home others p (owned m)) (hm : MetaOk home m) :
    Books home others (restoreIngress (m, p) ingress).2 (owned (restoreIngress (m, p) ingress).1) ∧
      MetaOk home (restoreIngress (m, p) ingress).1 ∧ (m.Apart → (restoreIngress (m, p) ingress).1.Apart) := by
  unfold restoreIngress
  cases hp : parseIP ingress.ip with
  | none => exact ⟨h, hm, id⟩
  | some ip =>
    have hip := length_parseIP hp
    simp only [family_of_length hip]
    generalize decide (V4Value (value ip)) = v
    obtain ⟨hfirst, hfirst'⟩ := h.removeFirst v hip
    by_cases hf : (removeFirst p.serviceIps v ip).2
    · obtain ⟨hhome, hno⟩ := hfirst' hf
      simp only [hf, if_true, true_and] at hfirst ⊢
      refine ⟨hfirst.congr fun x => ?_, hm.add_ingress hip hhome hno, fun ha q hq => ?_⟩
      · simp only [owned, listed_append, listed_cons, listed_nil, or_false]
        tauto
      · cases mem_append.mp hq with
        | inl hq => exact ha q hq
        | inr hq => exact mem_singleton.mp hq ▸ (hm.not_mem_of_not_owned hip hno).2
    · have hsame := @Books.congr _ _ _ _ hfirst (owned m) (by simp [hf])
      obtain ⟨hstatic, hstatic'⟩ := hsame.removeStatic v hip
      simp only [hf, Bool.false_eq_true, if_false]
      by_cases hs : (p.staticServiceIps.removeIp v ip).2
      · obtain ⟨hhome, hno⟩ := hstatic' hs
        simp only [hs, true_and] at hstatic
        simp only [hs, if_true]
        refine ⟨hstatic.congr fun x => ?_, hm.add_static hip hhome hno, fun ha q hq hs' => ?_⟩
        · simp only [owned, listed_append, listed_cons, listed_nil, or_false]
          tauto
        · cases mem_append.mp hs' with
          | inl hs' => exact ha q hq hs'
          | inr hs' =>
            exact (hm.not_mem_of_not_owned hip hno).1 (mem_singleton.mp hs' ▸ hq)
      · simp only [hs, Bool.false_eq_true, if_false]
        exact ⟨hstatic.congr (by simp [hs]), hm, id⟩

theorem restore_spec (ingress : List LoadBalancerIngress) (h : Books home others p (owned m)) (hm : MetaOk home m) :
    Books home others (ingress.foldl restoreIngress (m, p)).2 (owned (ingress.foldl restoreIngress (m, p)).1) ∧
      MetaOk home (ingress.foldl restoreIngress (m, p)).1 ∧
      (m.Apart → (ingress.foldl restoreIngress (m, p)).1.Apart) := by
  induction ingress generalizing m p with
  | nil => exact ⟨h, hm, id⟩
  | cons i rest ih =>
    obtain ⟨h', hm', ha'⟩ := restoreIngress_spec i h hm
    obtain ⟨hb, hmeta, ha⟩ := ih h' hm'
    exact ⟨hb, hmeta, fun hapart => ha (ha' hapart)⟩

/-- The addresses in the status of a service. -/
def statusIps (ingress : List LoadBalancerIngress) : List IP :=
  ingress.filterMap fun i => parseIP i.ip

theorem restoreIngress_lists (acc : ServiceMeta × Pools) (i : LoadBalancerIngress) :
    (restoreIngress acc i).1.requestedIps = acc.1.requestedIps ∧
      (∀ ip ∈ (restoreIngress acc i).1.ingressIps, ip ∈ acc.1.ingressIps ∨ parseIP i.ip = some ip) ∧
      ∀ ip ∈ (restoreIngress acc i).1.staticIngressIps, ip ∈ acc.1.staticIngressIps ∨ parseIP i.ip = some ip := by
  unfold restoreIngress
  cases hp : parseIP i.ip with
  | none => exact ⟨rfl, fun ip h => .inl h, fun ip h => .inl h⟩
  | some ip =>
    simp only
    split
    · exact ⟨rfl, fun ip h => .inl h, fun ip h => .inl h⟩
    · split
      · refine ⟨rfl, fun q hq => ?_, fun q hq => .inl hq⟩
        simpa [eq_comm] using hq
      · split
        · refine ⟨rfl, fun q hq => .inl hq, fun q hq => ?_⟩
          simpa [eq_comm] using hq
        · exact ⟨rfl, fun q hq => .inl hq, fun q hq => .inl hq⟩

/-- A restored service lists addresses of its status only. -/
theorem restore_lists (ingress : List LoadBalancerIngress) (acc : ServiceMeta × Pools) :
    (ingress.foldl restoreIngress acc).1.requestedIps = acc.1.requestedIps ∧
      (∀ ip ∈ (ingress.foldl restoreIngress acc).1.ingressIps, ip ∈ acc.1.ingressIps ∨ ip ∈ statusIps ingress) ∧
      ∀ ip ∈ (ingress.foldl restoreIngress acc).1.staticIngressIps,
        ip ∈ acc.1.staticIngressIps ∨ ip ∈ statusIps ingress := by
  induction ingress generalizing acc with
  | nil => exact ⟨rfl, fun ip h => .inl h, fun ip h => .inl h⟩
  | cons i rest ih =>
    obtain ⟨hreq, hing, hsta⟩ := ih (restoreIngress acc i)
    obtain ⟨hreq', hing', hsta'⟩ := restoreIngress_lists acc i
    have hmem : ∀ ip, ip ∈ statusIps (i :: rest) ↔ parseIP i.ip = some ip ∨ ip ∈ statusIps rest := by
      simp [statusIps]
    refine ⟨hreq.trans hreq', fun ip h => ?_, fun ip h => ?_⟩
    · rw [hmem, ← or_assoc]
      exact (hing ip h).imp (hing' ip) id
    · rw [hmem, ← or_assoc]
      exact (hsta ip h).imp (hsta' ip) id

theorem readMeta_spec {s : State} {servicekey : String} (service : Service)
    (hm : ∀ m, s.serviceMetaCache servicekey = some m → Books home others s.pools (owned m) ∧ MetaOk home m)
    (hnone : s.serviceMetaCache servicekey = none → Books home others s.pools (fun _ => False)) :
    Books home others (readMeta s servicekey service).2 (owned (readMeta s servicekey service).1) ∧
      MetaOk home (readMeta s servicekey service).1 ∧
      (s.serviceMetaCache servicekey = none → (readMeta s servicekey service).1.Apart) := by
  unfold readMeta
  cases hc : s.serviceMetaCache servicekey with
  | some m => exact ⟨(hm m hc).1, (hm m hc).2, fun h => absurd h (by simp)⟩
  | none =>
    obtain ⟨hb, hmeta, ha⟩ := @restore_spec home others s.pools ⟨[], [], []⟩ service.ingress
      ((hnone hc).congr (by simp [owned])) (by constructor <;> simp)
    exact ⟨hb, hmeta, fun _ => ha fun ip hip => absurd hip not_mem_nil⟩

end Restore

theorem validateRequestedIpsLoop_spec (l : List (List Char)) (ipv4 ipv6 : Option IP)
    (h₄ : ∀ ip ∈ ipv4, ip.length = 16 ∧ family ip = some true)
    (h₆ : ∀ ip ∈ ipv6, ip.length = 16 ∧ family ip = some false) :
    (∀ ip ∈ (validateRequestedIpsLoop l ipv4 ipv6).1, ip.length = 16 ∧ family ip = some true) ∧
      ∀ ip ∈ (validateRequestedIpsLoop l ipv4 ipv6).2.1, ip.length = 16 ∧ family ip = some false := by
  induction l generalizing ipv4 ipv6 with
  | nil => exact ⟨h₄, h₆⟩
  | cons lbIp rest ih =>
    rw [validateRequestedIpsLoop]
    cases hp : parseIPChars lbIp with
    | none => exact ih ipv4 ipv6 h₄ h₆
    | some ip =>
      have hlen : ip.length = 16 := by
        refine length_parseIP (s := String.ofList lbIp) ?_
        rw [parseIP, String.toList_ofList, hp]
      simp only
      split
      · next hfam =>
        split
        · exact ih (some ip) ipv6 (by simpa using ⟨hlen, hfam⟩) h₆
        · exact ⟨h₄, h₆⟩
      · next hfam =>
        split
        · exact ih ipv4 (some ip) h₄ (by simpa using ⟨hlen, hfam⟩)
        · exact ⟨h₄, h₆⟩
      · exact ih ipv4 ipv6 h₄ h₆

variable {service : Service}

/-- A request names distinct addresses of sixteen bytes. -/
theorem requestedIps_spec {requested : List IP} (h : requestedIps service = some requested) :
    requested.Nodup ∧ ∀ ip ∈ requested, ip.length = 16 := by
  unfold requestedIps at h
  split at h
  · next lbIps _ =>
    have hv := validateRequestedIpsLoop_spec (splitOn ',' lbIps.toList) none none (by simp) (by simp)
    unfold validateRequestedIps at h
    split at h
    · next ipv4 ipv6 he =>
      rw [he] at hv
      simp only [Option.some.injEq] at h
      subst h
      cases ipv4 with
      | none =>
        cases ipv6 with
        | none => simp
        | some b => simpa using (hv.2 b rfl).1
      | some a =>
        cases ipv6 with
        | none => simpa using (hv.1 a rfl).1
        | some b =>
          have ha := hv.1 a rfl
          have hb := hv.2 b rfl
          have hab : a ≠ b := by
            rintro rfl
            simp [ha.2] at hb
          simpa [hab] using ⟨ha.1, hb.1⟩
    · simp at h
  · simp only [Option.some.injEq] at h
    subst h
    cases hp : parseIP service.loadBalancerIP with
    | none => simp
    | some ip => simpa using length_parseIP hp

section Request

variable {acc : NetPools × List IP} {static requested : List IP} {g : IP} {home : Bool → Nat → Prop}
  {others held : Nat → Prop} {p : Pools} {m : ServiceMeta} {ip : IP}

/-- A removal that is only tried under a condition. -/
theorem Books.tryStatic (h : Books home others p held) (cond v : Bool) (hip : ip.length = 16) (res : NetPools × Bool)
    (hres : res = if cond then p.staticServiceIps.removeIp v ip else (p.staticServiceIps, false)) :
    Books home others { p with staticServiceIps := res.1 } (fun x => held x ∨ res.2 ∧ x = value ip) ∧
      (res.2 → home false (value ip) ∧ ¬ held (value ip)) := by
  cases cond with
  | true =>
    subst hres
    exact h.removeStatic v hip
  | false =>
    subst hres
    exact ⟨h.congr (by simp), by simp⟩

/-- What is granted so far: distinct addresses of the static pool, held together with the
addresses of the service. -/
structure Granting (home : Bool → Nat → Prop) (others : Nat → Prop) (p : Pools) (m : ServiceMeta)
    (acc : NetPools × List IP) : Prop where
  books : Books home others { p with staticServiceIps := acc.1 }
    (fun x => owned m x ∨ Listed acc.2 x)
  width : ∀ ip ∈ acc.2, ip.length = 16
  home_static : ∀ ip ∈ acc.2, home false (value ip)
  nodup : acc.2.Nodup

theorem Granting.add {q : NetPools} (h : Granting home others p m acc) (hip : ip.length = 16)
    (hhome : home false (value ip)) (hnew : ip ∉ acc.2) (hb : Books home others { p with staticServiceIps := q }
      (fun x => owned m x ∨ Listed (acc.2 ++ [ip]) x)) : Granting home others p m (q, acc.2 ++ [ip]) where
  books := hb
  width := forall_mem_append.mpr ⟨h.width, forall_mem_singleton.mpr hip⟩
  home_static := forall_mem_append.mpr ⟨h.home_static, forall_mem_singleton.mpr hhome⟩
  nodup := h.nodup.append (nodup_singleton ip) (by simpa using hnew)

theorem grantRequested_spec (h : Granting home others p m acc) (hm : MetaOk home m)
    (hip : ip.length = 16) (hnew : ip ∉ acc.2) :
    Granting home others p m (grantRequested m.staticIngressIps acc ip) := by
  unfold grantRequested
  by_cases hs : ip ∈ m.staticIngressIps
  · rw [if_pos hs]
    refine h.add hip (hm.static_home ip hs) hnew (h.books.congr fun x => ?_)
    have hown : x = value ip → owned m x := by
      rintro rfl
      exact ⟨ip, mem_append_right _ hs, rfl⟩
    simp only [listed_append, listed_cons, listed_nil, or_false]
    tauto
  · rw [if_neg hs]
    simp only
    generalize hfirst : (if (to4 ip).isSome then acc.1.removeIp true ip else (acc.1, false)) = first
    obtain ⟨hb₁, hf₁⟩ := h.books.tryStatic (to4 ip).isSome true hip first hfirst.symm
    by_cases h₁ : first.2
    · rw [if_pos h₁]
      refine h.add hip (hf₁ h₁).1 hnew (hb₁.congr fun x => ?_)
      simp only [listed_append, listed_cons, listed_nil, or_false, h₁, true_and]
      tauto
    · rw [if_neg h₁]
      have hb₁' := @Books.congr _ _ _ _ hb₁ (fun x => owned m x ∨ Listed acc.2 x) (by simp [h₁])
      generalize hsecond : (if (to16 ip).isSome then first.1.removeIp false ip else (first.1, false)) = second
      obtain ⟨hb₂, hf₂⟩ := hb₁'.tryStatic (to16 ip).isSome false hip second hsecond.symm
      by_cases h₂ : second.2
      · rw [if_pos h₂]
        refine h.add hip (hf₂ h₂).1 hnew (hb₂.congr fun x => ?_)
        simp only [listed_append, listed_cons, listed_nil, or_false, h₂, true_and]
        tauto
      · rw [if_neg h₂]
        exact ⟨hb₂.congr (by simp [h₂]), h.width, h.home_static, h.nodup⟩

theorem mem_grantRequested (h : g ∈ (grantRequested static acc ip).2) : g ∈ acc.2 ∨ g = ip := by
  have hgrown : ∀ (c : Prop) [Decidable c], g ∈ (if c then acc.2 ++ [ip] else acc.2) →
      g ∈ acc.2 ∨ g = ip := by
    intro c _ hg
    split at hg
    · simpa using hg
    · exact .inl hg
  unfold grantRequested at h
  simp only [apply_ite Prod.snd, ← ite_or] at h
  exact hgrown _ h

theorem mem_foldl_grantRequested (h : g ∈ (requested.foldl (grantRequested static) acc).2) :
    g ∈ acc.2 ∨ g ∈ requested := by
  induction requested generalizing acc with
  | nil => exact .inl h
  | cons ip rest ih =>
    rcases ih h with h | h
    · cases mem_grantRequested h with
      | inl h => exact .inl h
      | inr he => exact .inr (he ▸ mem_cons_self)
    · exact .inr (mem_cons_of_mem _ h)

/-- A request is granted addresses that it names. -/
theorem mem_grantAll (h : g ∈ (grantAll requested m p).2) : g ∈ requested :=
  (mem_foldl_grantRequested h).resolve_left not_mem_nil

theorem grantAll_spec (requested : List IP) (acc : NetPools × List IP)
    (h : Granting home others p m acc) (hm : MetaOk home m) (hw : ∀ ip ∈ requested, ip.length = 16)
    (hn : requested.Nodup) (hnew : ∀ ip ∈ requested, ip ∉ acc.2) :
    Granting home others p m (requested.foldl (grantRequested m.staticIngressIps) acc) := by
  induction requested generalizing acc with
  | nil => exact h
  | cons ip rest ih =>
    obtain ⟨hip, hn'⟩ := nodup_cons.mp hn
    have hstep := grantRequested_spec h hm (hw ip mem_cons_self) (hnew ip mem_cons_self)
    refine ih _ hstep (fun q hq => hw q (mem_cons_of_mem _ hq)) hn' ?_
    intro q hq hg
    cases mem_grantRequested hg with
    | inl hg => exact hnew q (mem_cons_of_mem _ hq) hg
    | inr he => exact hip (he ▸ hq)

theorem returnUnused_eq (pool : NetPools) (static requested : List IP) :
    returnUnusedStaticIngressIps pool static requested =
      Ipam.returnIps pool (static.filter fun ip => !requested.any (equal · ip)) := by
  induction static generalizing pool with
  | nil => rfl
  | cons ip rest ih =>
    rw [returnUnusedStaticIngressIps, foldl_cons, filter_cons]
    by_cases hr : requested.any (equal · ip)
    · simp only [hr, if_true, Bool.not_true, Bool.false_eq_true, if_false]
      exact ih pool
    · simp only [hr, Bool.false_eq_true, if_false, Bool.not_false, if_true]
      exact ih (returnIps pool [ip])

theorem MetaOk.ingress_nodup (hm : MetaOk home m) (ha : m.Apart) : m.ingressIps.Nodup := by
  rw [nodup_iff_count_le_one]
  intro ip
  by_cases hs : ip ∈ m.staticIngressIps
  · have hz := count_eq_zero_of_not_mem fun hi => ha ip hi hs
    omega
  · exact hm.ingress_once ip hs

theorem owned_of_ingress (h : ip ∈ m.ingressIps) : owned m (value ip) :=
  ⟨ip, mem_append_left _ h, rfl⟩

theorem owned_of_static (h : ip ∈ m.staticIngressIps) : owned m (value ip) :=
  ⟨ip, mem_append_right _ h, rfl⟩

section

variable (h : Books home others p (owned m)) (hm : MetaOk home m)
include h hm

theorem request_spec (hw : ∀ ip ∈ requested, ip.length = 16) (hn : requested.Nodup) (ha : m.Apart) : Books home others
        ⟨returnServiceIps p.serviceIps m.ingressIps,
          returnUnusedStaticIngressIps (grantAll requested m p).1 m.staticIngressIps (grantAll requested m p).2⟩
        (Listed (grantAll requested m p).2) ∧
      MetaOk home ⟨(grantAll requested m p).2, [], (grantAll requested m p).2⟩ := by
  have hstart : Granting home others p m (p.staticServiceIps, []) :=
    ⟨h.congr (by simp), by simp, by simp, nodup_nil⟩
  have hgrant := grantAll_spec requested _ hstart hm hw hn (by simp)
  change Granting home others p m (grantAll requested m p) at hgrant
  generalize grantAll requested m p = granted at hgrant ⊢
  have hmeta : MetaOk home ⟨granted.2, [], granted.2⟩ :=
    ⟨by simp, hgrant.width, by simp, hgrant.home_static, hgrant.nodup, by simp⟩
  refine ⟨?_, hmeta⟩
  rw [returnUnused_eq]
  have hunused : ∀ ip, ip ∈ m.staticIngressIps.filter (fun ip => !granted.2.any (equal · ip)) ↔
      ip ∈ m.staticIngressIps ∧ ip ∉ granted.2 := by
    intro ip
    rw [mem_filter]
    refine and_congr_right fun hs => ?_
    have hany : granted.2.any (equal · ip) ↔ ip ∈ granted.2 := by
      rw [any_eq_true]
      constructor
      · rintro ⟨g, hg, he⟩
        have hlen := (hgrant.width g hg).trans (hm.static_width ip hs).symm
        exact (equal_iff hlen).mp he ▸ hg
      · intro hg
        exact ⟨ip, hg, (equal_iff rfl).mpr rfl⟩
    rw [← hany]
    simp
  generalize hu : m.staticIngressIps.filter (fun ip => !granted.2.any (equal · ip)) = unused
    at hunused
  have huw : ∀ ip ∈ unused, ip.length = 16 := fun ip hi => hm.static_width ip ((hunused ip).mp hi).1
  have hun : unused.Nodup := hu ▸ hm.static_once.filter _
  have hback := hgrant.books.returnIps unused huw hun
    (fun ip hi => .inl (owned_of_static ((hunused ip).mp hi).1))
    (fun ip hi => hm.static_home ip ((hunused ip).mp hi).1)
  have hdyn := hback.returnServiceIps m.ingressIps hm.ingress_width (hm.ingress_nodup ha)
    (by
      intro ip hi
      refine ⟨.inl (owned_of_ingress hi), ?_⟩
      rw [listed_iff huw (hm.ingress_width ip hi), hunused]
      exact fun hs => ha ip hi hs.1)
    (fun ip hi => hm.ingress_home ip hi (ha ip hi))
  refine hdyn.congr fun x => ?_
  constructor
  · rintro ⟨g, hg, rfl⟩
    refine ⟨⟨.inr ⟨g, hg, rfl⟩, ?_⟩, ?_⟩
    · rw [listed_iff huw (hgrant.width g hg), hunused]
      exact fun hs => hs.2 hg
    · rw [listed_iff hm.ingress_width (hgrant.width g hg)]
      intro hi
      have htrue := hm.ingress_home g hi (ha g hi)
      exact absurd (h.accounts.homes true false _ htrue (hgrant.home_static g hg)) (by simp)
  · rintro ⟨⟨⟨ip, hi, rfl⟩ | hx, hno⟩, hdyn'⟩
    · cases mem_append.mp hi with
      | inl hi => exact absurd ⟨ip, hi, rfl⟩ hdyn'
      | inr hs =>
        by_contra hg
        rw [listed_iff hgrant.width (hm.static_width ip hs)] at hg
        exact hno ⟨ip, (hunused ip).mpr ⟨hs, hg⟩, rfl⟩
    · exact hx

theorem dropRequest_spec (ha : m.Apart) :
    Books home others { p with staticServiceIps := returnIps p.staticServiceIps m.staticIngressIps }
        (Listed m.ingressIps) ∧ MetaOk home { m with requestedIps := [], staticIngressIps := [] } := by
  have hback := h.returnIps m.staticIngressIps hm.static_width hm.static_once
    (fun ip hi => owned_of_static hi) hm.static_home
  constructor
  · refine hback.congr fun x => ?_
    rw [owned, listed_append]
    constructor
    · rintro ⟨ip, hi, rfl⟩
      refine ⟨.inl ⟨ip, hi, rfl⟩, ?_⟩
      rw [listed_iff hm.static_width (hm.ingress_width ip hi)]
      exact ha ip hi
    · rintro ⟨hx | hx, hno⟩
      · exact hx
      · exact absurd hx hno
  · have hnd := nodup_iff_count_le_one.mp (hm.ingress_nodup ha)
    exact ⟨hm.ingress_width, by simp, fun ip hi _ => hm.ingress_home ip hi (ha ip hi), by simp,
      nodup_nil, fun ip _ => hnd ip⟩

theorem applyRequest_spec (hw : ∀ ip ∈ requested, ip.length = 16) (hn : requested.Nodup)
    (ha : requested ≠ [] ∨ m.requestedIps ≠ [] → m.Apart) :
    Books home others (applyRequest requested m p).2 (owned (applyRequest requested m p).1) ∧
      MetaOk home (applyRequest requested m p).1 := by
  unfold applyRequest
  by_cases hr : requested = []
  · rw [if_neg (by simpa using hr)]
    by_cases hq : m.requestedIps = []
    · rw [if_neg (by simpa using hq)]
      exact ⟨h, hm⟩
    · rw [if_pos hq]
      obtain ⟨hb, hmeta⟩ := dropRequest_spec h hm (ha (.inr hq))
      exact ⟨hb.congr (by simp [owned]), hmeta⟩
  · rw [if_pos hr]
    obtain ⟨hb, hmeta⟩ := request_spec h hm hw hn (ha (.inl hr))
    exact ⟨hb.congr (by simp [owned]), hmeta⟩

end

end Request

section Families

variable {acc : IpCache × List IP} {l : List IP} {v : Bool} {home : Bool → Nat → Prop} {others : Nat → Prop}
  {p : Pools} {m : ServiceMeta}

/-- The ingress list under construction, with the dynamic pool it is taken from. -/
structure Balancing (home : Bool → Nat → Prop) (others : Nat → Prop) (p : Pools) (m : ServiceMeta)
    (acc : IpCache × List IP) : Prop where
  books : Books home others { p with serviceIps := acc.1 } (owned { m with ingressIps := acc.2 })
  ok : MetaOk home { m with ingressIps := acc.2 }

theorem balancing_start (h : Books home others p (owned m)) (hm : MetaOk home m) :
    Balancing home others p m (p.serviceIps, m.ingressIps ++ m.staticIngressIps) where
  books := by
    refine h.congr fun x => ?_
    simp only [owned, listed_append]
    tauto
  ok := by
    refine ⟨?_, hm.static_width, ?_, hm.static_home, hm.static_once, ?_⟩
    · exact forall_mem_append.mpr ⟨hm.ingress_width, hm.static_width⟩
    · intro ip hi hs
      cases mem_append.mp hi with
      | inl hi => exact hm.ingress_home ip hi hs
      | inr hi => exact absurd hi hs
    · intro ip hs
      have hz := count_eq_zero_of_not_mem hs
      have hone := hm.ingress_once ip hs
      simpa [hz] using hone

theorem Balancing.allocate (h : Balancing home others p m acc) (v : Bool) :
    Balancing home others p m ((acc.1.allocateIp v).2, acc.2 ++ (acc.1.allocateIp v).1.toList) := by
  cases hip : (acc.1.allocateIp v).1 with
  | none =>
    rw [IpCache.allocateIp_of_none hip]
    simpa using h
  | some ip =>
    obtain ⟨hlen, hhome, hno, hb⟩ := h.books.allocate v hip
    refine ⟨hb.congr fun x => ?_, ?_⟩
    · simp only [owned, listed_append, Option.toList_some, listed_cons, listed_nil, or_false]
      tauto
    · exact h.ok.add_ingress hlen hhome hno

variable {ip : IP}

theorem eraseP_equal (hl : ∀ q ∈ l, q.length = 16) (hip : ip.length = 16) : l.eraseP (equal · ip) = l.erase ip := by
  induction l with
  | nil => rfl
  | cons q l ih =>
    simp only [forall_mem_cons] at hl
    have hq : equal q ip ↔ q = ip := equal_iff (hl.1.trans hip.symm)
    by_cases he : q = ip
    · rw [eraseP_cons_of_pos (by simpa using hq.mpr he), he, erase_cons_head]
    · rw [eraseP_cons_of_neg (by simpa using fun hb => he (hq.mp hb)),
        erase_cons_tail (by simpa using he), ih hl.2]

theorem Balancing.remove (h : Balancing home others p m acc) (hi : ip ∈ acc.2) (hs : ip ∉ m.staticIngressIps) :
    Balancing home others p m (removeIpFromIngressIPList acc.1 acc.2 ip) := by
  have hlen := h.ok.ingress_width ip hi
  have hout : ip ∉ acc.2.erase ip := by
    have hcount := h.ok.ingress_once ip hs
    rw [← count_eq_zero, count_erase_self]
    simp only at hcount
    omega
  have hback := h.books.returnServiceIps [ip] (by simpa using hlen) (nodup_singleton ip)
    (by simpa using owned_of_ingress (m := { m with ingressIps := acc.2 }) hi)
    (by simpa using h.ok.ingress_home ip hi hs)
  unfold removeIpFromIngressIPList
  rw [eraseP_equal h.ok.ingress_width hlen]
  refine ⟨hback.congr fun x => ?_, ?_⟩
  · simp only [owned, listed_append, listed_cons, listed_nil, or_false]
    constructor
    · rintro (⟨q, hq, rfl⟩ | ⟨q, hq, rfl⟩)
      · refine ⟨.inl ⟨q, mem_of_mem_erase hq, rfl⟩, fun he => hout ?_⟩
        exact value_inj ((h.ok.ingress_width q (mem_of_mem_erase hq)).trans hlen.symm) he ▸ hq
      · refine ⟨.inr ⟨q, hq, rfl⟩, fun he => hs ?_⟩
        exact value_inj ((h.ok.static_width q hq).trans hlen.symm) he ▸ hq
    · rintro ⟨⟨q, hq, rfl⟩ | hx, hne⟩
      · have hqne : q ≠ ip := fun he => hne (congrArg value he)
        exact .inl ⟨q, (mem_erase_of_ne hqne).mpr hq, rfl⟩
      · exact .inr hx
  · refine ⟨fun q hq => h.ok.ingress_width q (mem_of_mem_erase hq), h.ok.static_width,
      fun q hq => h.ok.ingress_home q (mem_of_mem_erase hq), h.ok.static_home,
      h.ok.static_once, fun q hq => ?_⟩
    exact le_trans ((erase_sublist).count_le q) (h.ok.ingress_once q hq)

/-- No static address is held for a family without cluster address. -/
def FamiliesOk (service : Service) (static : List IP) : Prop :=
  ∀ v, clusterFamily service v = none → ∀ ip ∈ static, family ip ≠ some v

instance (service : Service) (static : List IP) : Decidable (FamiliesOk service static) :=
  inferInstanceAs
    (Decidable (∀ v, clusterFamily service v = none → ∀ ip ∈ static, family ip ≠ some v))

theorem familyStep_spec (requested : List IP) {current : Option IP} (h : Balancing home others p m acc)
    (hf : FamiliesOk service m.staticIngressIps) (hc : ∀ ip ∈ current, ip ∈ acc.2 ∧ family ip = some v) :
    Balancing home others p m (familyStep service requested v current acc).1 ∧
      ∀ q ∈ acc.2, family q ≠ some v → q ∈ (familyStep service requested v current acc).1.2 := by
  unfold familyStep
  split
  · split
    · exact ⟨h.allocate v, fun q hq _ => mem_append_left _ hq⟩
    · exact ⟨h, fun q hq _ => hq⟩
  · next ip hcluster =>
    obtain ⟨hi, hfam⟩ := hc ip rfl
    have hs : ip ∉ m.staticIngressIps := fun hs => hf v hcluster ip hs hfam
    refine ⟨h.remove hi hs, fun q hq hne => ?_⟩
    unfold removeIpFromIngressIPList
    rw [eraseP_equal h.ok.ingress_width (h.ok.ingress_width ip hi)]
    have hqne : q ≠ ip := fun he => hne (he ▸ hfam)
    exact (mem_erase_of_ne hqne).mpr hq
  · exact ⟨h, fun q hq _ => hq⟩

theorem lastOfFamily_spec : ∀ ip ∈ lastOfFamily l v, ip ∈ l ∧ family ip = some v := by
  intro ip hip
  have hm := mem_of_getLast? hip
  simpa using mem_filter.mp hm

/-- Both families of the list that a reconcile leaves. -/
theorem families_spec (requested : List IP) (h : Books home others p (owned m)) (hm : MetaOk home m)
    (hf : FamiliesOk service m.staticIngressIps) :
    let ingressIps := m.ingressIps ++ m.staticIngressIps
    let four := familyStep service requested true (lastOfFamily ingressIps true)
      (p.serviceIps, ingressIps)
    Balancing home others p m
      (familyStep service requested false (lastOfFamily ingressIps false) four.1).1 := by
  intro ingressIps four
  obtain ⟨hfour, hkeep⟩ := familyStep_spec requested (balancing_start h hm) hf
    (lastOfFamily_spec (l := ingressIps) (v := true))
  refine (familyStep_spec requested hfour hf ?_).1
  intro ip hip
  obtain ⟨hi, hfam⟩ := lastOfFamily_spec ip hip
  exact ⟨hkeep ip hi (by simp [hfam]), hfam⟩

end Families

variable {home : Bool → Nat → Prop} {s : State} {key : String}

def ownedBy (s : State) (key : String) (x : Nat) : Prop :=
  ∃ m, s.serviceMetaCache key = some m ∧ owned m x

def ownedByOthers (s : State) (key : String) (x : Nat) : Prop := ∃ k, k ≠ key ∧ ownedBy s k x

structure Inv (home : Bool → Nat → Prop) (s : State) : Prop where
  metas : ∀ key m, s.serviceMetaCache key = some m → MetaOk home m
  books : ∀ key, Books home (ownedByOthers s key) s.pools (ownedBy s key)

/-- A step that touches one service only has to keep the books of that service. -/
theorem Inv.update {s' : State} (h : Inv home s) (hother : ∀ k, k ≠ key → s'.serviceMetaCache k = s.serviceMetaCache k)
    (hmeta : ∀ m, s'.serviceMetaCache key = some m → MetaOk home m)
    (hb : Books home (ownedByOthers s key) s'.pools (ownedBy s' key)) : Inv home s' := by
  have hsame : ∀ k, k ≠ key → ∀ x, ownedBy s' k x ↔ ownedBy s k x := by
    intro k hk x
    rw [ownedBy, hother k hk]
    rfl
  refine ⟨?_, ?_⟩
  · intro k m hm
    by_cases hk : k = key
    · exact hmeta m (hk ▸ hm)
    · exact h.metas k m ((hother k hk).symm.trans hm)
  · intro k
    refine ⟨hb.dynamic, hb.static, hb.accounts.regroup ?_ ?_ ?_⟩
    · intro x
      constructor
      · rintro (hx | ⟨j, -, hx⟩)
        · by_cases hk : k = key
          · exact .inl (hk ▸ hx)
          · exact .inr ⟨k, hk, (hsame k hk x).mp hx⟩
        · by_cases hj : j = key
          · exact .inl (hj ▸ hx)
          · exact .inr ⟨j, hj, (hsame j hj x).mp hx⟩
      · rintro (hx | ⟨j, hj, hx⟩)
        · by_cases hk : k = key
          · exact .inl (hk ▸ hx)
          · exact .inr ⟨key, fun he => hk he.symm, hx⟩
        · by_cases hk : j = k
          · exact .inl ((hsame k (hk ▸ hj) x).mpr (hk ▸ hx))
          · exact .inr ⟨j, hk, (hsame j hj x).mpr hx⟩
    · intro x hx
      by_cases hk : k = key
      · exact hb.accounts.home_of_held x (hk ▸ hx)
      · exact (h.books k).accounts.home_of_held x ((hsame k hk x).mp hx)
    · rintro x hx ⟨j, hjk, hj⟩
      by_cases hk : k = key
      · subst hk
        exact hb.accounts.held_apart x hx ⟨j, hjk, (hsame j hjk x).mp hj⟩
      · have hx' := (hsame k hk x).mp hx
        by_cases hjkey : j = key
        · subst hjkey
          exact hb.accounts.held_apart x hj ⟨k, hk, hx'⟩
        · exact (h.books k).accounts.held_apart x hx' ⟨j, hjk, (hsame j hjkey x).mp hj⟩

variable {p : Pools}

/-- The books of the service that a step puts back into the cache. -/
theorem Inv.put {m : ServiceMeta} (h : Inv home s) (hm : MetaOk home m)
    (hb : Books home (ownedByOthers s key) p (owned m)) :
    Inv home { s with pools := p, serviceMetaCache := s.serviceMetaCache.put key m } := by
  refine @Inv.update _ _ key _ h (fun k hk => put_other _ _ hk) ?_ (hb.congr fun x => ?_)
  · intro q hq
    have he : m = q := by simpa using hq
    exact he ▸ hm
  · simp [ownedBy]

/-- What a step that settles one service can have got an address of that service from. -/
theorem Inv.source {held : Nat → Prop} {x : Nat} {dynamic : Bool} (h : Inv home s)
    (hb : Books home (ownedByOthers s key) p held) (hx : held x) (hhome : home dynamic x) :
    freeOf s.pools dynamic x ∨ ownedBy s key x := by
  rcases (h.books key).accounts.all dynamic x hhome with hf | ho | ho
  · exact .inl hf
  · exact .inr ho
  · exact absurd ho (hb.accounts.held_apart x hx)

def State.StaticFree (s : State) (ip : IP) : Prop := ∃ v, (s.pools.staticServiceIps.get v).Free ip

instance (s : State) (ip : IP) : Decidable (s.StaticFree ip) :=
  inferInstanceAs (Decidable (∃ v, (s.pools.staticServiceIps.get v).Free ip))

theorem Inv.free_iff {ip : IP} (h : Inv home s)
    (hip : ip.length = 16) : s.pools.serviceIps.Free ip ↔ freeOf s.pools true (value ip) :=
  IpCache.free_iff (h.books "").dynamic hip

theorem Inv.staticFree_iff {ip : IP} (h : Inv home s) (hip : ip.length = 16) :
    s.StaticFree ip ↔ freeOf s.pools false (value ip) := by
  have hv := fun v => Ipam.free_iff ((h.books "").static.canonical v).width hip
  simp only [State.StaticFree, hv, Bool.exists_bool, freeOf, NetPools.Holds, NetPools.Has]
  exact or_comm

/-- The dynamic addresses that a service has, or can claim by its status after a restart. -/
def State.dynamicsOf (s : State) (servicekey : String) (service : Service) : List IP :=
  match s.serviceMetaCache servicekey with
  | some m => m.ingressIps
  | none => (statusIps service.ingress).filter fun ip => s.pools.serviceIps.Free ip

local instance : LawfulBEq IP := inferInstance

/-- The static addresses that a service has or asks for, and that are its own or free. -/
def State.staticsOf (s : State) (servicekey : String) (service : Service) (requested : List IP) :
    List IP :=
  match s.serviceMetaCache servicekey with
  | some m =>
    if requested ≠ [] then requested.filter fun ip => ip ∈ m.staticIngressIps ∨ s.StaticFree ip
    else if m.requestedIps ≠ [] then []
    else m.staticIngressIps
  | none =>
    (if requested ≠ [] then requested else statusIps service.ingress).filter fun ip =>
      s.StaticFree ip

/-- When a step is safe for the books. -/
def StepOk (s : State) : Event → Prop
  | .clearLbService servicekey => ∀ m ∈ s.serviceMetaCache servicekey, m.Apart
  | .allocateServiceIps servicekey service _ =>
    match requestedIps service with
    | none => s.dynamicsOf servicekey service = []
    | some requested =>
      (∀ m ∈ s.serviceMetaCache servicekey, requested ≠ [] ∨ m.requestedIps ≠ [] → m.Apart) ∧
        FamiliesOk service (s.staticsOf servicekey service requested)

instance (s : State) : (e : Event) → Decidable (StepOk s e)
  | .clearLbService servicekey =>
    inferInstanceAs (Decidable (∀ m ∈ s.serviceMetaCache servicekey, m.Apart))
  | .allocateServiceIps servicekey service _ =>
    match h : requestedIps service with
    | none => decidable_of_iff (s.dynamicsOf servicekey service = []) (by simp [StepOk, h])
    | some requested => decidable_of_iff
        ((∀ m ∈ s.serviceMetaCache servicekey, requested ≠ [] ∨ m.requestedIps ≠ [] → m.Apart) ∧
          FamiliesOk service (s.staticsOf servicekey service requested))
        (by simp [StepOk, h])

theorem inv_clearLbService (h : Inv home s)
    (hok : StepOk s (.clearLbService key)) : Inv home (clearLbService s key) := by
  unfold clearLbService
  cases hc : s.serviceMetaCache key with
  | none => exact h
  | some m =>
    have hm := h.metas key m hc
    have ha : m.Apart := hok m hc
    have hb := @Books.congr _ _ _ _ (h.books key) (owned m) (by simp [ownedBy, hc])
    obtain ⟨hstatic, hm'⟩ := dropRequest_spec hb hm ha
    have hdyn := hstatic.returnServiceIps m.ingressIps hm.ingress_width (hm.ingress_nodup ha)
      (fun ip hi => ⟨ip, hi, rfl⟩) (fun ip hi => hm.ingress_home ip hi (ha ip hi))
    refine @Inv.update _ _ key _ h (fun k hk => erase_other _ hk) ?_ (hdyn.congr fun x => ?_)
    · intro q hq
      simp at hq
    · simp [ownedBy]

section Read

variable {requested : List IP}

theorem Inv.readMeta (h : Inv home s) (key : String) (service : Service) :
    Books home (ownedByOthers s key) (readMeta s key service).2 (owned (Services.readMeta s key service).1) ∧
      MetaOk home (Services.readMeta s key service).1 ∧
      (s.serviceMetaCache key = none → (Services.readMeta s key service).1.Apart) := by
  refine readMeta_spec service ?_ ?_
  · intro m hc
    exact ⟨(h.books key).congr (by simp [ownedBy, hc]), h.metas key m hc⟩
  · intro hc
    exact (h.books key).congr (by simp [ownedBy, hc])

/-- A service that can claim no dynamic address is read without one. -/
theorem Inv.readMeta_ingress (h : Inv home s) (hnone : s.dynamicsOf key service = []) :
    (Services.readMeta s key service).1.ingressIps = [] := by
  obtain ⟨hb, hm, ha⟩ := h.readMeta key service
  cases hc : s.serviceMetaCache key with
  | some m => simpa [State.dynamicsOf, Services.readMeta, hc] using hnone
  | none =>
    rw [eq_nil_iff_forall_not_mem]
    intro ip hip
    have hstatus : ip ∈ statusIps service.ingress := by
      simp only [Services.readMeta, hc] at hip
      exact ((restore_lists _ _).2.1 ip hip).resolve_left not_mem_nil
    have hfree : s.pools.serviceIps.Free ip := by
      rw [h.free_iff (hm.ingress_width ip hip)]
      refine (h.source hb (owned_of_ingress hip) ?_).resolve_right (by simp [ownedBy, hc])
      exact hm.ingress_home ip hip (ha hc ip hip)
    have hin : ip ∈ s.dynamicsOf key service := by simp [State.dynamicsOf, hc, hstatus, hfree]
    exact not_mem_nil (hnone ▸ hin)

section

variable (h : Inv home s)
  (hapart : ∀ m ∈ s.serviceMetaCache key, requested ≠ [] ∨ m.requestedIps ≠ [] → m.Apart)
include h hapart

/-- A request of a service finds its lists apart if those in the cache are. -/
theorem Inv.readMeta_apart (hr : requested ≠ [] ∨ (Services.readMeta s key service).1.requestedIps ≠ []) :
    (Services.readMeta s key service).1.Apart := by
  cases hc : s.serviceMetaCache key with
  | some m =>
    simp only [Services.readMeta, hc] at hr ⊢
    exact hapart m hc hr
  | none => exact (h.readMeta key service).2.2 hc

/-- The static addresses after a request are those the service could claim. -/
theorem Inv.mem_staticsOf {req : ServiceMeta × Pools} {ip : IP}
    (hreq : applyRequest requested (Services.readMeta s key service).1 (Services.readMeta s key service).2 = req)
    (hb : Books home (ownedByOthers s key) req.2 (owned req.1)) (hm : MetaOk home req.1)
    (hip : ip ∈ req.1.staticIngressIps) : ip ∈ s.staticsOf key service requested := by
  have hfalse := hm.static_home ip hip
  have hsource := h.source hb (owned_of_static hip) hfalse
  rw [← h.staticFree_iff (hm.static_width ip hip)] at hsource
  subst hreq
  unfold applyRequest at hip
  cases hc : s.serviceMetaCache key with
  | none =>
    have hfree : s.StaticFree ip := hsource.resolve_right (by simp [ownedBy, hc])
    simp only [State.staticsOf, hc, mem_filter, hfree, decide_true, and_true]
    obtain ⟨hnoreq, -, hstatus⟩ := restore_lists service.ingress (⟨[], [], []⟩, s.pools)
    simp only [Services.readMeta, hc] at hip
    by_cases hr : requested = []
    · simp only [hr, hnoreq, ne_eq, not_true_eq_false, if_false] at hip ⊢
      exact (hstatus ip hip).resolve_left not_mem_nil
    · simp only [hr, ne_eq, not_false_eq_true, if_true] at hip ⊢
      exact mem_grantAll hip
  | some m =>
    simp only [State.staticsOf, hc]
    simp only [Services.readMeta, hc] at hip
    by_cases hr : requested = []
    · by_cases hq : m.requestedIps = []
      · simpa [hr, hq] using hip
      · simp [hr, hq] at hip
    · simp only [hr, ne_eq, not_false_eq_true, if_true] at hip ⊢
      have hlisted : ownedBy s key (value ip) → ip ∈ m.staticIngressIps := by
        rintro ⟨q, hq, hx⟩
        obtain rfl : m = q := Option.some.inj (hc.symm.trans hq)
        have hmeta := h.metas key m hc
        have hlen := hm.static_width ip (by simpa [applyRequest, Services.readMeta, hc, hr] using hip)
        rw [owned, listed_append, listed_iff hmeta.ingress_width hlen, listed_iff hmeta.static_width hlen] at hx
        refine hx.resolve_left fun hi => ?_
        have htrue := hmeta.ingress_home ip hi (hapart m hc (.inl hr) ip hi)
        exact absurd ((h.books key).accounts.homes true false _ htrue hfalse) (by simp)
      simpa using ⟨mem_grantAll hip, (hsource.imp id hlisted).symm⟩

end

end Read

variable {pool static : List IpRange}

theorem inv_allocateServiceIps {writes : Bool × Bool} (h : Inv home s)
    (hok : StepOk s (.allocateServiceIps key service writes)) :
    Inv home (allocateServiceIps s key service writes).state := by
  obtain ⟨hb, hm, -⟩ := h.readMeta key service
  unfold allocateServiceIps
  cases hr : requestedIps service with
  | none =>
    have hempty := h.readMeta_ingress (by simpa [StepOk, hr] using hok)
    simp only [hempty]
    split
    · exact h.put hm hb
    · exact h.put hm hb
  | some requested =>
    simp only [StepOk, hr] at hok
    obtain ⟨hn, hw⟩ := requestedIps_spec hr
    obtain ⟨hb', hm'⟩ := applyRequest_spec hb hm hw hn (h.readMeta_apart hok.1)
    have hf : FamiliesOk service (applyRequest requested (readMeta s key service).1
        (readMeta s key service).2).1.staticIngressIps := fun v hv ip hip =>
      hok.2 v hv ip (h.mem_staticsOf hok.1 rfl hb' hm' hip)
    simp only
    generalize applyRequest requested (readMeta s key service).1 (readMeta s key service).2 = req
      at hb' hm' hf ⊢
    split
    · exact h.put hm hb
    · split
      · exact h.put hm' hb'
      · have hfam := families_spec requested hb' hm' hf
        split
        · exact h.put hfam.ok hfam.books
        · exact h.put hfam.ok hfam.books

theorem inv_step (s : State) (e : Event) (h : Inv home s) (hok : StepOk s e) : Inv home (step s e) := by
  cases e with
  | allocateServiceIps key service writes => exact inv_allocateServiceIps h hok
  | clearLbService key => exact inv_clearLbService h hok

/-- The addresses of the configured ranges, dynamic for `true` and static for `false`. -/
def homeOf (serviceIpPool staticServiceIpPool : List IpRange) (dynamic : Bool) (x : Nat) : Prop :=
  Covers ((if dynamic then serviceIpPool else staticServiceIpPool).map iv) x

theorem inv_initIpam (hw : AllWidth 16 (pool ++ static)) (hd : DisjointRanges (pool ++ static)) :
    Inv (homeOf pool static) (initIpam pool static) := by
  have hd' := disjointRanges_iv hw hd
  obtain ⟨hwp, hws⟩ := (allWidth_append 16 pool static).mp hw
  obtain ⟨hdp, hds, hcross⟩ := pairwise_append.mp hd'
  obtain ⟨hdyn, hdynx, -⟩ := loadRanges_spec [] pool newIpCache hwp hdp IpCache.ok_new
    (by simp [IpCache.Holds, IpLists.Holds]) (by simp [IpLists.Holds])
  obtain ⟨hsta, hstax⟩ := loadIpRanges_spec newNetIps static NetPools.ok_new hws hds
    (by simp [NetPools.Holds, NetPools.Has])
  refine ⟨by simp [initIpam], fun key => ⟨hdyn, hsta, ?_⟩⟩
  have hfree : ∀ d x, freeOf (initIpam pool static).pools d x ↔ homeOf pool static d x := by
    intro d x
    cases d with
    | true => simpa [freeOf, homeOf, initIpam] using hdynx x
    | false => simpa [freeOf, homeOf, initIpam, NetPools.Holds, NetPools.Has] using hstax x
  have hnone : ∀ k x, ¬ ownedBy (initIpam pool static) k x := by simp [ownedBy, initIpam]
  constructor
  · have hno : ∀ x, homeOf pool static true x → ¬ homeOf pool static false x := by
      rintro x ⟨v, hv, hx⟩ ⟨u, hu, hx'⟩
      obtain ⟨r, hr, rfl⟩ := mem_map.mp hv
      obtain ⟨q, hq, rfl⟩ := mem_map.mp hu
      exact hcross r hr q hq x hx hx'
    intro d e x hdx hex
    cases d <;> cases e
    · rfl
    · exact absurd hdx (hno x hex)
    · exact absurd hex (hno x hdx)
    · rfl
  · exact fun d x hx => (hfree d x).mp hx
  · exact fun d x _ => ⟨hnone key x, fun h => h.elim fun k hk => hnone k x hk.2⟩
  · exact fun x hx => absurd hx (hnone key x)
  · exact fun x hx => absurd hx (hnone key x)
  · exact fun d x hx => .inl ((hfree d x).mpr hx)

def State.Owns (s : State) (key : String) (ip : IP) : Prop :=
  ∃ m, s.serviceMetaCache key = some m ∧ (ip ∈ m.ingressIps ∨ ip ∈ m.staticIngressIps)

/-- Every configured address is in exactly one place, and free only in its own pool. -/
structure OnePlace (pool static : List IpRange) (s : State) : Prop where
  somewhere : ∀ ip : IP, ip.length = 16 → Loaded pool ip ∨ Loaded static ip →
    s.pools.serviceIps.Free ip ∨ s.StaticFree ip ∨ ∃ key, s.Owns key ip
  one_pool : ∀ ip : IP, ip.length = 16 → s.pools.serviceIps.Free ip → ¬ s.StaticFree ip
  not_free : ∀ key ip, s.Owns key ip → ¬ s.pools.serviceIps.Free ip ∧ ¬ s.StaticFree ip
  one_owner : ∀ key key' ip, s.Owns key ip → s.Owns key' ip → key = key'
  dynamic_home : ∀ ip : IP, ip.length = 16 → s.pools.serviceIps.Free ip → Loaded pool ip
  static_home : ∀ ip : IP, ip.length = 16 → s.StaticFree ip → Loaded static ip

theorem Inv.onePlace {s : State} (hw : AllWidth 16 (pool ++ static)) (h : Inv (homeOf pool static) s) :
    OnePlace pool static s := by
  obtain ⟨hwp, hws⟩ := (allWidth_append 16 pool static).mp hw
  have hbooks := h.books ""
  have hwidth : ∀ key ip, s.Owns key ip → ip.length = 16 := by
    rintro key ip ⟨m, hm, hi | hi⟩
    · exact (h.metas key m hm).ingress_width ip hi
    · exact (h.metas key m hm).static_width ip hi
  have howns : ∀ key ip, s.Owns key ip → ownedBy s key (value ip) := by
    rintro key ip ⟨m, hm, hi | hi⟩
    · exact ⟨m, hm, owned_of_ingress hi⟩
    · exact ⟨m, hm, owned_of_static hi⟩
  have howned : ∀ key (ip : IP), ip.length = 16 → ownedBy s key (value ip) → s.Owns key ip := by
    rintro key ip hip ⟨m, hm, hx⟩
    rw [owned, listed_append, listed_iff (h.metas key m hm).ingress_width hip,
      listed_iff (h.metas key m hm).static_width hip] at hx
    exact ⟨m, hm, hx⟩
  have hloadp := fun ip hip => @loaded_iff 16 pool ip hwp hip
  have hloads := fun ip hip => @loaded_iff 16 static ip hws hip
  constructor
  · intro ip hip hload
    have hall : (∃ d, freeOf s.pools d (value ip)) ∨ ∃ key, ownedBy s key (value ip) := by
      obtain ⟨d, hd⟩ : ∃ d, homeOf pool static d (value ip) := by
        cases hload with
        | inl hl => exact ⟨true, (hloadp ip hip).mp hl⟩
        | inr hl => exact ⟨false, (hloads ip hip).mp hl⟩
      rcases hbooks.accounts.all d _ hd with hf | hx | ⟨k, -, hx⟩
      · exact .inl ⟨d, hf⟩
      · exact .inr ⟨_, hx⟩
      · exact .inr ⟨k, hx⟩
    rcases hall with ⟨d, hf⟩ | ⟨key, hx⟩
    · cases d with
      | true => exact .inl ((h.free_iff hip).mpr hf)
      | false => exact .inr (.inl ((h.staticFree_iff hip).mpr hf))
    · exact .inr (.inr ⟨key, howned key ip hip hx⟩)
  · intro ip hip hf hs
    have ht := hbooks.accounts.home_of_free true _ ((h.free_iff hip).mp hf)
    have hf' := hbooks.accounts.home_of_free false _ ((h.staticFree_iff hip).mp hs)
    exact absurd (hbooks.accounts.homes true false _ ht hf') (by simp)
  · intro key ip ho
    have hip := hwidth key ip ho
    rw [h.free_iff hip, h.staticFree_iff hip]
    have hno := fun d hf => ((h.books key).accounts.free_apart d (value ip) hf).1 (howns key ip ho)
    exact ⟨hno true, hno false⟩
  · intro key key' ip ho ho'
    by_contra hne
    exact (h.books key).accounts.held_apart _ (howns key ip ho)
      ⟨key', fun he => hne he.symm, howns key' ip ho'⟩
  · intro ip hip hf
    exact (hloadp ip hip).mpr (hbooks.accounts.home_of_free true _ ((h.free_iff hip).mp hf))
  · intro ip hip hf
    exact (hloads ip hip).mpr (hbooks.accounts.home_of_free false _ ((h.staticFree_iff hip).mp hf))

/-- Load-balancer addresses have one place after every step of a run whose steps are safe. -/
theorem serviceIps_onePlace (pool static : List IpRange) (events : List Event)
    (hw : AllWidth 16 (pool ++ static)) (hd : DisjointRanges (pool ++ static))
    (hok : Along step StepOk (initIpam pool static) events) (k : Nat) :
    OnePlace pool static (run step (initIpam pool static) (events.take k)) :=
  (invariant_take inv_step _ events (inv_initIpam hw hd) hok k).onePlace hw

/-- One service with a dynamic address that is cleared, one with a static address. -/
theorem serviceIps_onePlace_two_services :
    OnePlace [lan 1 2] [lan 50 51]
      (run step (initIpam [lan 1 2] [lan 50 51])
        ([.allocateServiceIps "default/a" ⟨none, "", "10.96.0.1", [], [], []⟩ (true, true),
          .allocateServiceIps "default/b" ⟨some "10.0.0.50", "", "10.96.0.2", [], [], []⟩ (true, true),
          .clearLbService "default/a"].take 3)) := by
  exact serviceIps_onePlace _ _ _ (by decide)
    (disjointRanges_pair (by decide) (by decide) (by decide)) (by decide) 3

/-- The requested static address `10.0.0.50` is listed in both lists of the service, so clearing
the service gives it back to both pools. -/
theorem serviceIps_onePlace_fails :
    ¬ ∀ (pool static : List IpRange) (events : List Event), AllWidth 16 (pool ++ static) →
      DisjointRanges (pool ++ static) → ∀ k, OnePlace pool static
        (run step (initIpam pool static) (events.take k)) := by
  intro h
  have hone := h [lan 1 2] [lan 50 51]
    [.allocateServiceIps "default/b" ⟨none, "10.0.0.50", "10.96.0.2", [], [], []⟩ (true, true),
      .clearLbService "default/b"] (by decide)
    (disjointRanges_pair (by decide) (by decide) (by decide)) 2
  exact hone.one_pool (mapped 10 0 0 50) (by decide) (.inl (.inr (by decide)))
    ⟨true, by decide⟩

end AciContainers.Services
