import AciContainers.SnatPortSafety

/-!
# Clearing SNAT allocations

`clearSnatGlobalCache` goes through the addresses of a policy to take allocations away, of
one node or of all. Its loop has two exits: at an address without allocations, and for one
node also behind the first address that had one of it. What it takes away is right, and
what it leaves is what stands behind an exit.
-/
namespace AciContainers.Snat

open Maps Runs List Option Finmap

variable {σ : State} {snatip ip nodename : String} {ips : List String} {v : GlobalInfos}

/-- No allocation is left on the addresses, and the other addresses are as before. -/
structure ClearsAll (ips : List String) (σ τ : State) : Prop where
  gone : ∀ ip ∈ ips, τ.snatGlobalInfoCache ip = none
  others : ∀ ip, ip ∉ ips → τ.snatGlobalInfoCache ip = σ.snatGlobalInfoCache ip

/-- The node has no allocation left on the addresses; the other nodes keep theirs, and the
other addresses are as before. -/
structure ClearsNode (ips : List String) (nodename : String) (σ τ : State) : Prop where
  gone : ∀ ip ∈ ips, ∀ a, ¬ Entry τ ip nodename a
  kept : ∀ ip m a, m ≠ nodename → (Entry τ ip m a ↔ Entry σ ip m a)
  others : ∀ ip, ip ∉ ips → τ.snatGlobalInfoCache ip = σ.snatGlobalInfoCache ip

/-- In the list, only addresses with allocations stand in front of this one, and none of them
twice. -/
def ReachedAll (σ : State) (ips : List String) (ip : String) : Prop :=
  ∃ front, (front ++ [ip]).IsPrefix ips ∧ front.Nodup ∧ ∀ x ∈ front, (σ.snatGlobalInfoCache x).isSome

/-- In the list, only addresses with allocations of other nodes stand in front of this one. -/
def ReachedNode (σ : State) (ips : List String) (nodename ip : String) : Prop :=
  ∃ front, (front ++ [ip]).IsPrefix ips ∧
    ∀ x ∈ front, (σ.snatGlobalInfoCache x).isSome ∧ ∀ a, ¬ Entry σ x nodename a

theorem clearIps_all_none (h : σ.snatGlobalInfoCache snatip = none) (nodename : String)
    (snatips : List String) : σ.clearIps nodename (snatip :: snatips) = σ := by
  simp [State.clearIps, h]

theorem clearIps_all_some (h : (σ.snatGlobalInfoCache snatip).isSome) (snatips : List String) :
    σ.clearIps "" (snatip :: snatips) =
      { σ with snatGlobalInfoCache := σ.snatGlobalInfoCache.erase snatip }.clearIps "" snatips := by
  obtain ⟨v, hv⟩ := isSome_iff_exists.mp h
  simp [State.clearIps, hv, ne_eq, not_true_eq_false]

/-- The loop adds no address. -/
theorem clearIps_none (h : σ.snatGlobalInfoCache ip = none) (snatips : List String) :
    (σ.clearIps "" snatips).snatGlobalInfoCache ip = none := by
  induction snatips generalizing σ with
  | nil => exact h
  | cons snatip snatips ih =>
    cases hs : σ.snatGlobalInfoCache snatip with
    | none => rwa [clearIps_all_none hs]
    | some v =>
      rw [clearIps_all_some (by simp [hs])]
      refine ih ?_
      by_cases hip : ip = snatip
      · simp [hip]
      · exact (erase_other _ hip).trans h

theorem ReachedAll.gone (h : ReachedAll σ ips ip) : (σ.clearIps "" ips).snatGlobalInfoCache ip = none := by
  obtain ⟨front, hpre, hnodup, hfront⟩ := h
  induction front generalizing σ ips with
  | nil =>
    obtain ⟨rest, rfl⟩ := hpre
    cases hs : σ.snatGlobalInfoCache ip with
    | none => exact clearIps_none hs _
    | some v =>
      rw [nil_append, cons_append, clearIps_all_some (by simp [hs])]
      exact clearIps_none (by simp) _
  | cons x front ih =>
    obtain ⟨hx, hnodup⟩ := nodup_cons.mp hnodup
    obtain ⟨rest, rfl⟩ := hpre
    rw [cons_append, cons_append, clearIps_all_some (hfront x mem_cons_self)]
    refine ih ⟨rest, rfl⟩ hnodup fun y hy => ?_
    have hne : y ≠ x := fun he => hx (he ▸ hy)
    simpa only [erase_other _ hne] using hfront y (mem_cons_of_mem _ hy)

/-- Where an allocation is gone, the loop got to its address. -/
theorem reachedAll_of_gone (hip : ip ∈ ips) (hsome : (σ.snatGlobalInfoCache ip).isSome)
    (h : (σ.clearIps "" ips).snatGlobalInfoCache ip = none) : ReachedAll σ ips ip := by
  induction ips generalizing σ with
  | nil => exact absurd hip not_mem_nil
  | cons snatip snatips ih =>
    by_cases hhead : ip = snatip
    · exact ⟨[], ⟨snatips, by simp [hhead]⟩, nodup_nil, by simp⟩
    · cases hs : σ.snatGlobalInfoCache snatip with
      | none =>
        rw [clearIps_all_none hs] at h
        simp [h] at hsome
      | some v =>
        rw [clearIps_all_some (by simp [hs])] at h
        obtain ⟨front, hpre, hnodup, hfront⟩ :=
          ih ((mem_cons.mp hip).resolve_left hhead) (by simpa only [erase_other _ hhead] using hsome) h
        -- the first address is without allocations from here on
        have hnew : snatip ∉ front := fun hmem => by simpa using hfront snatip hmem
        refine ⟨snatip :: front, by simpa using hpre, nodup_cons.mpr ⟨hnew, hnodup⟩, ?_⟩
        refine forall_mem_cons.mpr ⟨by simp [hs], fun x hx => ?_⟩
        have hne : x ≠ snatip := fun he => hnew (he ▸ hx)
        simpa only [erase_other _ hne] using hfront x hx

theorem clearsAll_iff (σ : State) (ips : List String) : ClearsAll ips σ (σ.clearIps "" ips) ↔
      ∀ ip ∈ ips, (σ.snatGlobalInfoCache ip).isSome → ReachedAll σ ips ip := by
  constructor
  · intro h ip hip hsome
    exact reachedAll_of_gone hip hsome (h.gone ip hip)
  · intro h
    refine ⟨fun ip hip => ?_, fun ip hip => clearIps_other "" ips σ hip⟩
    cases hs : σ.snatGlobalInfoCache ip with
    | none => exact clearIps_none hs ips
    | some v => exact (h ip hip (by simp [hs])).gone

theorem entry_removeEntry (h : σ.snatGlobalInfoCache snatip = some v) (ip m : String) (a : GlobalInfo) :
    Entry (σ.removeEntry snatip nodename v) ip m a ↔ Entry σ ip m a ∧ ¬ (ip = snatip ∧ m = nodename) := by
  constructor
  · intro he
    refine ⟨(shrinks_removeEntry h).entries ip m a he, ?_⟩
    rintro ⟨rfl, rfl⟩
    obtain ⟨g, hg, hl⟩ := he
    simp only [State.removeEntry, if_true, dropNode] at hg
    split at hg
    · simp at hg
    · rw [← some.inj hg, lookup_erase] at hl
      simp at hl
  · rintro ⟨⟨g, hg, hl⟩, hother⟩
    by_cases hip : ip = snatip
    · subst hip
      have hm : m ≠ nodename := fun he => hother ⟨rfl, he⟩
      rw [h, some.injEq] at hg
      subst hg
      have hrest : (v.erase nodename).lookup m = some a := (lookup_erase_ne hm).trans hl
      have hkeys : (v.erase nodename).keys ≠ ∅ :=
        Finset.ne_empty_of_mem (mem_keys.mpr (mem_of_lookup_eq_some hrest))
      exact ⟨v.erase nodename, by simp only [State.removeEntry, dropNode, if_true, if_neg hkeys], hrest⟩
    · exact ⟨g, (if_neg hip).trans hg, hl⟩

/-- What the loop does at the first address that the node has an allocation on, or behind an
address that only other nodes have allocations on. -/
theorem clearIps_node_cons (hn : nodename ≠ "") (h : σ.snatGlobalInfoCache snatip = some v) (snatips : List String) :
    σ.clearIps nodename (snatip :: snatips) = if (v.lookup nodename).isSome then σ.removeEntry snatip nodename v
      else σ.clearIps nodename snatips := by
  simp only [State.clearIps, h, if_pos hn]
  cases v.lookup nodename with
  | none => rfl
  | some info => rfl

theorem entry_iff_lookup (h : σ.snatGlobalInfoCache ip = some v) (node : String) (a : GlobalInfo) :
    Entry σ ip node a ↔ v.lookup node = some a := by
  simp [Entry, h]

variable (hn : nodename ≠ "")
include hn

theorem clearIps_kept (snatips : List String) (σ : State) {m : String} (hm : m ≠ nodename)
    (ip : String) (a : GlobalInfo) : Entry (σ.clearIps nodename snatips) ip m a ↔ Entry σ ip m a := by
  induction snatips with
  | nil => rfl
  | cons snatip snatips ih =>
    cases hs : σ.snatGlobalInfoCache snatip with
    | none => rw [clearIps_all_none hs]
    | some v =>
      rw [clearIps_node_cons hn hs]
      split
      · rw [entry_removeEntry hs, and_iff_left fun hboth => hm hboth.2]
      · exact ih

theorem ReachedNode.gone (h : ReachedNode σ ips nodename ip) (a : GlobalInfo) :
    ¬ Entry (σ.clearIps nodename ips) ip nodename a := by
  obtain ⟨front, hpre, hfront⟩ := h
  induction front generalizing ips with
  | nil =>
    obtain ⟨rest, rfl⟩ := hpre
    intro he
    have hbefore := (shrinks_clearIps nodename _ σ).entries ip nodename a he
    obtain ⟨v, hv, hl⟩ := hbefore
    rw [nil_append, cons_append, clearIps_node_cons hn hv, hl, isSome_some, if_pos rfl, entry_removeEntry hv] at he
    exact he.2 ⟨rfl, rfl⟩
  | cons x front ih =>
    obtain ⟨rest, rfl⟩ := hpre
    obtain ⟨hsome, hnone⟩ := hfront x mem_cons_self
    obtain ⟨v, hv⟩ := isSome_iff_exists.mp hsome
    have hlookup : v.lookup nodename = none :=
      eq_none_iff_forall_ne_some.mpr fun a hl => hnone a ((entry_iff_lookup hv nodename a).mpr hl)
    rw [cons_append, cons_append, clearIps_node_cons hn hv, hlookup]
    exact ih ⟨rest, rfl⟩ fun y hy => hfront y (mem_cons_of_mem _ hy)

theorem reachedNode_of_gone (hip : ip ∈ ips) {a : GlobalInfo} (hent : Entry σ ip nodename a)
    (h : ¬ Entry (σ.clearIps nodename ips) ip nodename a) : ReachedNode σ ips nodename ip := by
  induction ips with
  | nil => exact absurd hip not_mem_nil
  | cons snatip snatips ih =>
    by_cases hhead : ip = snatip
    · exact ⟨[], ⟨snatips, by simp [hhead]⟩, by simp⟩
    · cases hs : σ.snatGlobalInfoCache snatip with
      | none =>
        rw [clearIps_all_none hs] at h
        exact absurd hent h
      | some v =>
        rw [clearIps_node_cons hn hs] at h
        split at h
        · rw [entry_removeEntry hs] at h
          exact absurd ⟨hent, fun hboth => hhead hboth.1⟩ h
        · next hnone =>
          obtain ⟨front, hpre, hfront⟩ := ih ((mem_cons.mp hip).resolve_left hhead) h
          refine ⟨snatip :: front, by simpa using hpre, ?_⟩
          refine forall_mem_cons.mpr ⟨⟨by simp [hs], fun b hb => ?_⟩, hfront⟩
          rw [entry_iff_lookup hs] at hb
          exact hnone (by simp [hb])

theorem clearsNode_iff (σ : State) (ips : List String) : ClearsNode ips nodename σ (σ.clearIps nodename ips) ↔
      ∀ ip ∈ ips, (∃ a, Entry σ ip nodename a) → ReachedNode σ ips nodename ip := by
  constructor
  · rintro h ip hip ⟨a, ha⟩
    exact reachedNode_of_gone hn hip ha (h.gone ip hip a)
  · intro h
    refine ⟨fun ip hip a he => ?_, fun ip m a hm => clearIps_kept hn ips σ hm ip a,
      fun ip hip => clearIps_other nodename ips σ hip⟩
    have hbefore := (shrinks_clearIps nodename ips σ).entries ip nodename a he
    exact (h ip hip ⟨a, hbefore⟩).gone hn a he

omit hn

/-- The clearing of a policy does what it is for exactly if its loop gets to every address
that has something to be cleared. -/
theorem clearSnatGlobalCache_clears_iff (σ : State) (name : String) (policy : ContSnatPolicy)
    (h : σ.snatPolicyCache.lookup name = some policy) :
    (ClearsAll (σ.addresses policy) σ (σ.clearSnatGlobalCache name "") ↔
      ∀ ip ∈ σ.addresses policy, (σ.snatGlobalInfoCache ip).isSome → ReachedAll σ (σ.addresses policy) ip) ∧
    ∀ nodename, nodename ≠ "" → (ClearsNode (σ.addresses policy) nodename σ (σ.clearSnatGlobalCache name nodename) ↔
        ∀ ip ∈ σ.addresses policy, (∃ a, Entry σ ip nodename a) → ReachedNode σ (σ.addresses policy) nodename ip) := by
  refine ⟨?_, fun nodename hn => ?_⟩
  · rw [clearSnatGlobalCache_eq h]
    exact clearsAll_iff σ (σ.addresses policy)
  · rw [clearSnatGlobalCache_eq h]
    exact clearsNode_iff hn σ (σ.addresses policy)

/-- What is cached for the specification with two addresses. -/
def webPolicy : ContSnatPolicy :=
  ⟨webSpec.snatIp, webSpec.selector, ["10.0.0.8", "10.0.0.9"], [⟨5000, 7999⟩]⟩

/-- One node holds a range on the first of two addresses. -/
theorem clearSnatGlobalCache_clears_first :
    let σ := run step start (policyComes ++ nodeComes "n1")
    σ.snatPolicyCache.lookup "web" = some webPolicy ∧
      ClearsAll (σ.addresses webPolicy) σ (σ.clearSnatGlobalCache "web" "") ∧
      ClearsNode (σ.addresses webPolicy) "n1" σ (σ.clearSnatGlobalCache "web" "n1") := by
  intro σ
  have hl : σ.snatPolicyCache.lookup "web" = some webPolicy := by decide
  have hips : σ.addresses webPolicy = ["10.0.0.8", "10.0.0.9"] := by decide
  have hsecond : σ.snatGlobalInfoCache "10.0.0.9" = none := by decide
  obtain ⟨hall, hnode⟩ := clearSnatGlobalCache_clears_iff σ "web" webPolicy hl
  refine ⟨hl, hall.mpr ?_, (hnode "n1" (by decide)).mpr ?_⟩
  · rw [hips]
    intro ip hip hsome
    rcases mem_pair.mp hip with rfl | rfl
    · exact ⟨[], by simp, by simp, by simp⟩
    · simp [hsecond] at hsome
  · rw [hips]
    rintro ip hip ⟨a, ha⟩
    rcases mem_pair.mp hip with rfl | rfl
    · exact ⟨[], by simp, by simp⟩
    · obtain ⟨g, hg, -⟩ := ha
      simp [hsecond] at hg

/-- The node on the first address has left. Neither clearing gets to the second address,
where another node holds a range. -/
theorem clearSnatGlobalCache_clears_fails :
    let σ := run step start (policyComes ++ nodeComes "n1" ++ nodeComes "n2" ++
      [.snatNodeInfoDeleted ⟨"n1", "", ["web"]⟩ written ["10.0.0.8", "10.0.0.9"]])
    σ.snatPolicyCache.lookup "web" = some webPolicy ∧
      ¬ ClearsAll (σ.addresses webPolicy) σ (σ.clearSnatGlobalCache "web" "") ∧
      ¬ ClearsNode (σ.addresses webPolicy) "n2" σ (σ.clearSnatGlobalCache "web" "n2") := by
  intro σ
  refine ⟨by decide, fun h => ?_, fun h => ?_⟩
  · exact absurd (h.gone "10.0.0.9" (by decide)) (by decide)
  · have hleft : ((σ.clearSnatGlobalCache "web" "n2").snatGlobalInfoCache "10.0.0.9").bind
        (fun g => g.lookup "n2") = some ⟨"", ⟨5000, 7999⟩, "10.0.0.9", "web"⟩ := by decide
    exact h.gone "10.0.0.9" (by decide) _ (bind_eq_some_iff.mp hleft)

end AciContainers.Snat
