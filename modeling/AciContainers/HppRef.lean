import AciContainers.PolicyHash

/-!
# Shared host protection profiles

With the optimisation on, the controller of `pkg/controller/network_policy.go` writes one
host protection profile for all policies of equal contents, named by the hash of the contents;
`hppRef` counts the policies that share it. Handlers of the policy informer take a policy out of
the count and queue its key; the worker of the queue puts it in and writes the profile. A change
takes the policy out of the count before it looks whether there is anything to queue, and drops
the answer that the old profile has no user left.
-/
namespace AciContainers.Hpp

open Maps Policy Runs List Option Finset

variable {np : NetworkPolicy} {key : String}

structure Config where
  aciPrefix : String
  digest : String → String
  chainedMode : Bool
  digest_ne : ∀ text, digest text ≠ ""

/-- `aciNameForKey` of the hash of the policy. -/
def Config.labelKey (cfg : Config) (np : NetworkPolicy) : String :=
  aciNameForKey cfg.digest cfg.aciPrefix "np" (createHashFromNetPol cfg.digest np)

variable {Obj : Type}

structure HppReference (Obj : Type) where
  refCount : Nat
  npkeys : List String
  hppObj : Obj

structure State (Obj : Type) where
  /-- The store of the policy informer. -/
  policies : Map String NetworkPolicy
  netPolQueue : Finset String
  hppRef : Map String (HppReference Obj)
  /-- The profiles in the desired state, by the key they are written with. -/
  desired : Map String Obj

def State.start : State Obj := ⟨Map.empty, ∅, Map.empty, Map.empty⟩

def addToHppCache (hppRef : Map String (HppReference Obj)) (labelKey key : String) (hpp : Obj) :
    Map String (HppReference Obj) :=
  match hppRef labelKey with
  | some ref =>
    if key ∈ ref.npkeys then hppRef.put labelKey { ref with hppObj := hpp }
    else hppRef.put labelKey ⟨ref.refCount + 1, ref.npkeys ++ [key], hpp⟩
  | none => hppRef.put labelKey ⟨1, [key], hpp⟩

/-- The reference without one policy; the count goes down only for a listed one. -/
def HppReference.remove (ref : HppReference Obj) (key : String) : HppReference Obj :=
  if key ∈ ref.npkeys then { ref with npkeys := ref.npkeys.erase key, refCount := ref.refCount - 1 }
  else ref

/-- Returns also the label and whether its reference went away. -/
def removeFromHppCache (cfg : Config) (hppRef : Map String (HppReference Obj)) (np : NetworkPolicy)
    (key : String) : Map String (HppReference Obj) × String × Bool :=
  let labelKey := cfg.labelKey np
  match hppRef labelKey with
  | none => (hppRef, labelKey, false)
  | some ref =>
    let ref := ref.remove key
    if ref.refCount > 0 then (hppRef.put labelKey ref, labelKey, false)
    else (hppRef.erase labelKey, labelKey, true)

/-- The end of `handleNetPolUpdate`: the profile is counted and written. Hashing sorts the selectors of
the stored policy. -/
def finishNetPolUpdate (cfg : Config) (s : State Obj) (key : String) (np : NetworkPolicy) (hpp : Obj) :
    State Obj :=
  if cfg.chainedMode then s
  else
    { s with
      policies := s.policies.put key np.hashed
      hppRef := addToHppCache s.hppRef (cfg.labelKey np) key hpp
      desired := s.desired.put (cfg.labelKey np) hpp }

def networkPolicyAdded (cfg : Config) (s : State Obj) (np : NetworkPolicy) : State Obj :=
  if cfg.chainedMode then s else { s with netPolQueue := insert np.key s.netPolQueue }

/-- The old policy is hashed first, so its selectors are sorted when it is compared. -/
def networkPolicyChanged (cfg : Config) (s : State Obj) (oldnp newnp : NetworkPolicy) : State Obj :=
  let r := removeFromHppCache cfg s.hppRef oldnp newnp.key
  { s with
    hppRef := r.1
    netPolQueue :=
      if oldnp.hashed.ingress ≠ newnp.ingress ∨ oldnp.hashed.egress ≠ newnp.egress then
        insert newnp.key s.netPolQueue
      else s.netPolQueue }

def networkPolicyDeleted (cfg : Config) (s : State Obj) (np : NetworkPolicy) : State Obj :=
  let r := removeFromHppCache cfg s.hppRef np np.key
  { s with
    hppRef := r.1
    desired := if r.2.2 = true ∧ r.2.1 ≠ "" then s.desired.erase r.2.1 else s.desired }

/-- The informer delivers an added or changed policy or a deleted one; the worker takes a key
of the queue. -/
inductive Event (Obj : Type) where
  | policySet (np : NetworkPolicy)
  | policyGone (key : String)
  | process (key : String) (hpp : Obj)

def step (cfg : Config) (s : State Obj) : Event Obj → State Obj
  | .policySet np =>
    let stored := { s with policies := s.policies.put np.key np }
    match s.policies np.key with
    | none => networkPolicyAdded cfg stored np
    | some oldnp => networkPolicyChanged cfg stored oldnp np
  | .policyGone key =>
    match s.policies key with
    | none => s
    | some np => networkPolicyDeleted cfg { s with policies := s.policies.erase key } np
  | .process key hpp =>
    if key ∈ s.netPolQueue then
      let taken := { s with netPolQueue := s.netPolQueue.erase key }
      match s.policies key with
      | none => taken
      | some np => finishNetPolUpdate cfg taken key np hpp
    else s

/-- The policy of this key exists and has this label. -/
def State.Has (cfg : Config) (s : State Obj) (label key : String) : Prop :=
  ∃ np, s.policies key = some np ∧ cfg.labelKey np = label

/-- The reference of the label lists the policies that have it and counts them, there is one
if there are any, and the profile is written exactly when there is one. -/
structure Counted (cfg : Config) (s : State Obj) (label : String) : Prop where
  ref_iff : (s.hppRef label).isSome ↔ ∃ key, s.Has cfg label key
  npkeys : ∀ ref, s.hppRef label = some ref → ref.npkeys.Nodup ∧
    ∀ key, key ∈ ref.npkeys ↔ s.Has cfg label key
  refCount : ∀ ref, s.hppRef label = some ref → ref.refCount = ref.npkeys.length
  profile_iff : (s.desired label).isSome ↔ (s.hppRef label).isSome

/-- Nothing is left behind at a label when this policy leaves it: no profile is written
there, or another policy has the label. -/
def Unneeded (cfg : Config) (s : State Obj) (label key : String) : Prop :=
  s.desired label = none ∨ ∃ other, other ≠ key ∧ s.Has cfg label other

/-- A change must change the rules or find the policy in the queue, and must keep the label
or leave nothing behind; a delete must find a reference of its label or leave nothing
behind. -/
def StepOk (cfg : Config) (s : State Obj) : Event Obj → Prop
  | .policySet np => ∀ oldnp, s.policies np.key = some oldnp →
    (oldnp.hashed.ingress ≠ np.ingress ∨ oldnp.hashed.egress ≠ np.egress ∨ np.key ∈ s.netPolQueue) ∧
      (cfg.labelKey oldnp = cfg.labelKey np ∨ Unneeded cfg s (cfg.labelKey oldnp) np.key)
  | .policyGone key => ∀ np, s.policies key = some np →
    (s.hppRef (cfg.labelKey np)).isSome ∨ Unneeded cfg s (cfg.labelKey np) key
  | .process _ _ => True

structure Inv (cfg : Config) (s : State Obj) : Prop where
  keyed : ∀ key np, s.policies key = some np → np.key = key
  entries : ∀ label ref, s.hppRef label = some ref → ref.npkeys ≠ [] ∧ ref.npkeys.Nodup ∧
    ref.refCount = ref.npkeys.length ∧ ∀ key ∈ ref.npkeys, s.Has cfg label key
  listed : ∀ label key, s.Has cfg label key → key ∉ s.netPolQueue →
    ∃ ref, s.hppRef label = some ref ∧ key ∈ ref.npkeys
  /-- A profile has a reference, or the worker is going to make one. -/
  profiles : ∀ label, s.desired label ≠ none →
    s.hppRef label ≠ none ∨ ∃ key ∈ s.netPolQueue, s.Has cfg label key
  written : ∀ label, s.hppRef label ≠ none → s.desired label ≠ none

theorem inv_start (cfg : Config) : Inv cfg (State.start : State Obj) := by
  refine ⟨?_, ?_, ?_, ?_, ?_⟩
  · intro key np h
    cases h
  · intro label ref h
    cases h
  · rintro label key ⟨np, h, -⟩
    cases h
  · intro label h
    exact absurd rfl h
  · intro label h
    exact absurd rfl h

variable {cfg : Config} {s : State Obj}

/-- When nothing is queued the count is right. -/
theorem Inv.counted (h : Inv cfg s) (hq : s.netPolQueue = ∅) (label : String) : Counted cfg s label := by
  have hin : ∀ key, s.Has cfg label key → ∃ ref, s.hppRef label = some ref ∧ key ∈ ref.npkeys := by
    intro key hkey
    exact h.listed label key hkey (by simp [hq])
  refine ⟨?_, ?_, fun ref href => (h.entries label ref href).2.2.1, ?_⟩
  · rw [isSome_iff_exists]
    constructor
    · rintro ⟨ref, href⟩
      obtain ⟨hne, -, -, hall⟩ := h.entries label ref href
      obtain ⟨key, hkey⟩ := exists_mem_of_ne_nil _ hne
      exact ⟨key, hall key hkey⟩
    · rintro ⟨key, hkey⟩
      obtain ⟨ref, href, -⟩ := hin key hkey
      exact ⟨ref, href⟩
  · intro ref href
    obtain ⟨-, hnd, -, hall⟩ := h.entries label ref href
    refine ⟨hnd, fun key => ⟨hall key, ?_⟩⟩
    intro hkey
    obtain ⟨ref', href', hmem⟩ := hin key hkey
    obtain rfl : ref = ref' := some.inj (href.symm.trans href')
    exact hmem
  · rw [isSome_iff_ne_none, isSome_iff_ne_none]
    refine ⟨?_, h.written label⟩
    intro hd
    refine (h.profiles label hd).resolve_right ?_
    rintro ⟨key, hkey, -⟩
    simp [hq] at hkey

theorem append_ne_empty {a b : String} (h : a ≠ "") : a ++ b ≠ "" := by
  intro he
  have hl := congrArg String.toList he
  rw [String.toList_append] at hl
  exact h (String.toList_inj.mp (append_eq_nil_iff.mp hl).1)

theorem Config.labelKey_ne (cfg : Config) (np : NetworkPolicy) : cfg.labelKey np ≠ "" := by
  have hunder : cfg.aciPrefix ++ "_" ≠ "" := by
    intro he
    have hl := congrArg String.toList he
    simp at hl
  unfold Config.labelKey aciNameForKey
  dsimp only
  split
  · exact append_ne_empty (append_ne_empty (append_ne_empty hunder))
  split
  · exact cfg.digest_ne _
  split
  · exact append_ne_empty hunder
  · exact append_ne_empty (append_ne_empty (append_ne_empty hunder))

@[simp] theorem Config.labelKey_hashed (cfg : Config) (np : NetworkPolicy) :
    cfg.labelKey np.hashed = cfg.labelKey np := by
  simp [Config.labelKey]

@[simp] theorem remove_npkeys (ref : HppReference Obj) (key : String) :
    (ref.remove key).npkeys = ref.npkeys.erase key := by
  unfold HppReference.remove
  by_cases h : key ∈ ref.npkeys
  · rw [if_pos h]
  · rw [if_neg h, erase_of_not_mem h]

theorem remove_refCount {ref : HppReference Obj} (h : ref.refCount = ref.npkeys.length) (key : String) :
    (ref.remove key).refCount = (ref.npkeys.erase key).length := by
  unfold HppReference.remove
  by_cases hk : key ∈ ref.npkeys
  · rw [if_pos hk, length_erase_of_mem hk, h]
  · rw [if_neg hk, erase_of_not_mem hk, h]

section

variable (h : Inv cfg s)
include h

/-- What taking a policy out leaves at its label. -/
theorem removeFromHppCache_spec (np : NetworkPolicy) (key : String) :
    let r := removeFromHppCache cfg s.hppRef np key
    r.2.1 = cfg.labelKey np ∧ (∀ label, label ≠ cfg.labelKey np → r.1 label = s.hppRef label) ∧
      (r.1 (cfg.labelKey np) = (s.hppRef (cfg.labelKey np)).bind fun ref =>
        if ref.npkeys.erase key = [] then none else some (ref.remove key)) ∧
      (r.2.2 ↔ s.hppRef (cfg.labelKey np) ≠ none ∧ r.1 (cfg.labelKey np) = none) := by
  intro r
  cases hl : s.hppRef (cfg.labelKey np) with
  | none =>
    have hr : r = (s.hppRef, cfg.labelKey np, false) := by
      simp [r, removeFromHppCache, hl]
    rw [hr]
    exact ⟨rfl, fun _ _ => rfl, hl, by simp⟩
  | some ref =>
    have hcount := remove_refCount (h.entries _ ref hl).2.2.1 key
    by_cases hnil : ref.npkeys.erase key = []
    · have hr : r = (s.hppRef.erase (cfg.labelKey np), cfg.labelKey np, true) := by
        simp [r, removeFromHppCache, hl, hcount, hnil]
      rw [hr]
      exact ⟨rfl, fun _ hne => erase_other _ hne,
        (erase_same _ _).trans (if_pos hnil).symm, by simp⟩
    · have hpos : 0 < (ref.npkeys.erase key).length := length_pos_iff.mpr hnil
      have hr : r = (s.hppRef.put (cfg.labelKey np) (ref.remove key), cfg.labelKey np, false) := by
        simp [r, removeFromHppCache, hl, hcount, hpos]
      rw [hr]
      exact ⟨rfl, fun _ hne => put_other _ _ hne,
        (put_same _ _ _).trans (if_neg hnil).symm, by simp⟩

/-- Another policy of the label keeps its reference, or waits in the queue. -/
theorem Inv.kept {other : String} (hne : other ≠ key) (hhas : s.Has cfg (cfg.labelKey np) other) :
    (removeFromHppCache cfg s.hppRef np key).1 (cfg.labelKey np) ≠ none ∨ other ∈ s.netPolQueue := by
  by_cases hq : other ∈ s.netPolQueue
  · exact .inr hq
  · obtain ⟨ref, href, hmem⟩ := h.listed _ other hhas hq
    obtain ⟨-, -, hat, -⟩ := removeFromHppCache_spec h np key
    have hleft : other ∈ ref.npkeys.erase key := (mem_erase_of_ne hne).mpr hmem
    refine .inl ?_
    rw [hat, href, bind_some, if_neg (ne_nil_of_mem hleft)]
    exact some_ne_none _

/-- The references after the policy of a key left its label, in a state where the other
policies are as before. -/
theorem Inv.entries_remove {s' : State Obj} (hnp : s.policies key = some np)
    (hother : ∀ k, k ≠ key → s'.policies k = s.policies k)
    (href' : s'.hppRef = (removeFromHppCache cfg s.hppRef np key).1) :
    (∀ label ref, s'.hppRef label = some ref → ref.npkeys ≠ [] ∧ ref.npkeys.Nodup ∧
      ref.refCount = ref.npkeys.length ∧ ∀ k ∈ ref.npkeys, s'.Has cfg label k) ∧
    ∀ label k, k ≠ key → s.Has cfg label k → k ∉ s.netPolQueue → ∃ ref, s'.hppRef label = some ref ∧
      k ∈ ref.npkeys := by
  obtain ⟨-, hothers, hat, -⟩ := removeFromHppCache_spec h np key
  rw [← href'] at hothers hat
  have hkeep : ∀ label k, k ≠ key → s.Has cfg label k → s'.Has cfg label k := by
    intro label k hk hhas
    unfold State.Has
    rw [hother k hk]
    exact hhas
  constructor
  · intro label ref href
    by_cases hl : label = cfg.labelKey np
    · subst hl
      rw [hat, bind_eq_some_iff] at href
      obtain ⟨old, hold, href⟩ := href
      by_cases hnil : old.npkeys.erase key = []
      · simp [hnil] at href
      rw [if_neg hnil, some.injEq] at href
      subst href
      obtain ⟨-, hnd, hcount, hall⟩ := h.entries _ old hold
      rw [remove_npkeys, remove_refCount hcount]
      refine ⟨hnil, hnd.erase key, rfl, ?_⟩
      intro k hk
      rw [hnd.mem_erase_iff] at hk
      exact hkeep _ k hk.1 (hall k hk.2)
    · rw [hothers label hl] at href
      obtain ⟨hne, hnd, hcount, hall⟩ := h.entries label ref href
      refine ⟨hne, hnd, hcount, ?_⟩
      intro k hk
      refine hkeep label k ?_ (hall k hk)
      -- the policy itself has only its own label
      rintro rfl
      obtain ⟨np', hnp', hlabel⟩ := hall k hk
      obtain rfl : np = np' := some.inj (hnp.symm.trans hnp')
      exact hl hlabel.symm
  · intro label k hk hhas hq
    obtain ⟨ref, href, hmem⟩ := h.listed label k hhas hq
    by_cases hl : label = cfg.labelKey np
    · subst hl
      have hleft : k ∈ ref.npkeys.erase key := (mem_erase_of_ne hk).mpr hmem
      refine ⟨ref.remove key, ?_, by rwa [remove_npkeys]⟩
      rw [hat, href, bind_some, if_neg (ne_nil_of_mem hleft)]
    · exact ⟨ref, (hothers label hl).trans href, hmem⟩

/-- At another label than its own a policy does not matter. -/
theorem Inv.profiles_other {label : String} (hnp : s.policies key = some np)
    (hl : label ≠ cfg.labelKey np) (hd : s.desired label ≠ none) :
    s.hppRef label ≠ none ∨ ∃ k ∈ s.netPolQueue, k ≠ key ∧ s.Has cfg label k := by
  rcases h.profiles label hd with hr | ⟨k, hk, hhas⟩
  · exact .inl hr
  · refine .inr ⟨k, hk, ?_, hhas⟩
    rintro rfl
    obtain ⟨np', hnp', hl'⟩ := hhas
    obtain rfl : np = np' := some.inj (hnp.symm.trans hnp')
    exact hl hl'.symm

theorem inv_added (hnew : s.policies np.key = none) : Inv cfg { s with
      policies := s.policies.put np.key np
      netPolQueue := insert np.key s.netPolQueue } := by
  -- no other policy is touched, and no reference lists the new one
  have hhas : ∀ label key, s.Has cfg label key →
      ∃ np', s.policies.put np.key np key = some np' ∧ cfg.labelKey np' = label := by
    rintro label key ⟨np', hnp', hl⟩
    refine ⟨np', ?_, hl⟩
    rw [put_other]
    · exact hnp'
    · rintro rfl
      simp [hnew] at hnp'
  refine ⟨?_, ?_, ?_, ?_, h.written⟩
  · intro key np' hk
    by_cases he : key = np.key
    · subst he
      obtain rfl : np = np' := some.inj ((put_same _ _ _).symm.trans hk)
      rfl
    · exact h.keyed key np' ((put_other _ _ he).symm.trans hk)
  · intro label ref href
    obtain ⟨hne, hnd, hcount, hall⟩ := h.entries label ref href
    exact ⟨hne, hnd, hcount, fun key hk => hhas label key (hall key hk)⟩
  · rintro label key ⟨np', hnp', hl⟩ hq
    have hq : key ≠ np.key ∧ key ∉ s.netPolQueue := by simpa using hq
    exact h.listed label key ⟨np', (put_other _ _ hq.1).symm.trans hnp', hl⟩ hq.2
  · intro label hd
    rcases h.profiles label hd with href | ⟨key, hkey, hk⟩
    · exact .inl href
    · exact .inr ⟨key, mem_insert_of_mem hkey, hhas label key hk⟩

theorem inv_changed {oldnp : NetworkPolicy} (hold : s.policies np.key = some oldnp)
    (hok : StepOk cfg s (.policySet np)) :
    Inv cfg (networkPolicyChanged cfg { s with policies := s.policies.put np.key np } oldnp np) := by
  obtain ⟨hqueue, hlabel⟩ := hok oldnp hold
  obtain ⟨-, hothers, hat, -⟩ := removeFromHppCache_spec h oldnp np.key
  -- the policy is queued now, and nothing leaves the queue
  obtain ⟨hqmem, hqsub⟩ : np.key ∈ (networkPolicyChanged cfg
        { s with policies := s.policies.put np.key np } oldnp np).netPolQueue ∧
      s.netPolQueue ⊆ (networkPolicyChanged cfg
        { s with policies := s.policies.put np.key np } oldnp np).netPolQueue := by
    unfold networkPolicyChanged
    by_cases hdiff : oldnp.hashed.ingress ≠ np.ingress ∨ oldnp.hashed.egress ≠ np.egress
    · rw [if_pos hdiff]
      exact ⟨mem_insert_self _ _, subset_insert _ _⟩
    · rw [if_neg hdiff]
      rw [not_or] at hdiff
      exact ⟨(hqueue.resolve_left hdiff.1).resolve_left hdiff.2, Finset.Subset.refl _⟩
  generalize hs' : networkPolicyChanged cfg { s with policies := s.policies.put np.key np } oldnp np = s'
    at hqmem hqsub ⊢
  have hpol : s'.policies = s.policies.put np.key np := by rw [← hs']; rfl
  have hdes : s'.desired = s.desired := by rw [← hs']; rfl
  have href : s'.hppRef = (removeFromHppCache cfg s.hppRef oldnp np.key).1 := by rw [← hs']; rfl
  have hother : ∀ k, k ≠ np.key → s'.policies k = s.policies k := by
    intro k hk
    rw [hpol, put_other _ _ hk]
  obtain ⟨hentries, hlisted⟩ := h.entries_remove hold hother href
  have hhas : ∀ label k, k ≠ np.key → (s'.Has cfg label k ↔ s.Has cfg label k) := by
    intro label k hk
    unfold State.Has
    rw [hother k hk]
  refine ⟨?_, hentries, ?_, ?_, ?_⟩
  · intro key np' hk
    by_cases he : key = np.key
    · subst he
      rw [hpol, put_same, some.injEq] at hk
      rw [hk]
    · exact h.keyed key np' ((hother key he).symm.trans hk)
  · intro label key hkey hq
    have hne : key ≠ np.key := fun he => hq (he ▸ hqmem)
    exact hlisted label key hne ((hhas label key hne).mp hkey) fun hm => hq (hqsub hm)
  · intro label hd
    rw [hdes] at hd
    -- the old label is the one that may lose its reference
    by_cases hl : label = cfg.labelKey oldnp
    · subst hl
      rcases hlabel with hsame | hnone | ⟨other, hne, hhas'⟩
      · exact .inr ⟨np.key, hqmem, np, hpol ▸ put_same _ _ _, hsame.symm⟩
      · exact absurd hnone hd
      · rcases h.kept hne hhas' with hk | hk
        · exact .inl (href ▸ hk)
        · exact .inr ⟨other, hqsub hk, (hhas _ other hne).mpr hhas'⟩
    · rcases h.profiles_other hold hl hd with hr | ⟨key, hkey, hne, hk⟩
      · exact .inl (by rwa [href, hothers label hl])
      · exact .inr ⟨key, hqsub hkey, (hhas label key hne).mpr hk⟩
  · intro label hr
    rw [hdes]
    apply h.written
    rw [href] at hr
    by_cases hl : label = cfg.labelKey oldnp
    · subst hl
      rw [hat] at hr
      intro hnone
      simp [hnone] at hr
    · rwa [hothers label hl] at hr

theorem inv_deleted (hnp : s.policies key = some np) (hok : StepOk cfg s (.policyGone key)) :
    Inv cfg (networkPolicyDeleted cfg { s with policies := s.policies.erase key } np) := by
  obtain rfl : np.key = key := h.keyed key np hnp
  obtain ⟨hlabel, hothers, hat, hgone⟩ := removeFromHppCache_spec h np np.key
  have hdes : ∀ label, (networkPolicyDeleted cfg
      { s with policies := s.policies.erase np.key } np).desired label =
      if (removeFromHppCache cfg s.hppRef np np.key).2.2 ∧ label = cfg.labelKey np then none
      else s.desired label := by
    intro label
    simp only [networkPolicyDeleted, hlabel, ne_eq, cfg.labelKey_ne np, not_false_eq_true, and_true]
    by_cases hg : (removeFromHppCache cfg s.hppRef np np.key).2.2 <;>
      by_cases hl : label = cfg.labelKey np <;> simp [hg, hl, erase_other]
  generalize hs' : networkPolicyDeleted cfg { s with policies := s.policies.erase np.key } np = s'
    at hdes ⊢
  have hpol : s'.policies = s.policies.erase np.key := by rw [← hs']; rfl
  have hq : s'.netPolQueue = s.netPolQueue := by rw [← hs']; rfl
  have href : s'.hppRef = (removeFromHppCache cfg s.hppRef np np.key).1 := by rw [← hs']; rfl
  have hother : ∀ k, k ≠ np.key → s'.policies k = s.policies k := by
    intro k hk
    rw [hpol, erase_other _ hk]
  obtain ⟨hentries, hlisted⟩ := h.entries_remove hnp hother href
  have hhas : ∀ label k, k ≠ np.key → (s'.Has cfg label k ↔ s.Has cfg label k) := by
    intro label k hk
    unfold State.Has
    rw [hother k hk]
  have hne : ∀ label k, s'.Has cfg label k → k ≠ np.key := by
    rintro label k ⟨np', hnp', -⟩ rfl
    rw [hpol, erase_same] at hnp'
    cases hnp'
  refine ⟨?_, hentries, ?_, ?_, ?_⟩
  · intro k np' hk
    by_cases he : k = np.key
    · rw [he, hpol, erase_same] at hk
      cases hk
    · exact h.keyed k np' ((hother k he).symm.trans hk)
  · intro label k hk hnq
    have hkne := hne label k hk
    exact hlisted label k hkne ((hhas label k hkne).mp hk) (hq ▸ hnq)
  · intro label hd
    rw [hdes] at hd
    rw [hq]
    by_cases hl : label = cfg.labelKey np
    · subst hl
      have hstay : (removeFromHppCache cfg s.hppRef np np.key).2.2 ≠ true := by
        intro hg
        simp [hg] at hd
      have hd : s.desired (cfg.labelKey np) ≠ none := by simpa [hstay] using hd
      rw [Ne, hgone, not_and, ← href] at hstay
      rcases hok np hnp with hr | hnone | ⟨other, hone, hhas'⟩
      · exact .inl (hstay (isSome_iff_ne_none.mp hr))
      · exact absurd hnone hd
      · rcases h.kept hone hhas' with hk | hk
        · exact .inl (href ▸ hk)
        · exact .inr ⟨other, hk, (hhas _ other hone).mpr hhas'⟩
    · have hd : s.desired label ≠ none := by simpa [hl] using hd
      rcases h.profiles_other hnp hl hd with hr | ⟨k, hk, hkne, hk'⟩
      · exact .inl (by rwa [href, hothers label hl])
      · exact .inr ⟨k, hk, (hhas label k hkne).mpr hk'⟩
  · intro label hr
    rw [hdes]
    by_cases hl : label = cfg.labelKey np
    · subst hl
      have hstay : (removeFromHppCache cfg s.hppRef np np.key).2.2 ≠ true := by
        rw [Ne, hgone]
        exact fun hg => hr (href ▸ hg.2)
      rw [if_neg fun hg => hstay hg.1]
      apply h.written
      intro hnone
      rw [href, hat, hnone] at hr
      exact hr rfl
    · rw [if_neg fun hg => hl hg.2]
      apply h.written
      rwa [href, hothers label hl] at hr

/-- Adding lists the policy at its label and keeps what was listed. -/
theorem addToHppCache_spec (labelKey key : String) (hpp : Obj) :
    let m := addToHppCache s.hppRef labelKey key hpp
    (∀ label, label ≠ labelKey → m label = s.hppRef label) ∧
      ∃ ref, m labelKey = some ref ∧ ref.npkeys.Nodup ∧ ref.refCount = ref.npkeys.length ∧
        ∀ k, k ∈ ref.npkeys ↔ k = key ∨ ∃ old, s.hppRef labelKey = some old ∧ k ∈ old.npkeys := by
  intro m
  cases hl : s.hppRef labelKey with
  | none =>
    have hm : m = s.hppRef.put labelKey ⟨1, [key], hpp⟩ := by simp only [m, addToHppCache, hl]
    rw [hm]
    exact ⟨fun _ hne => put_other _ _ hne, _, put_same _ _ _, by simp, rfl, by simp⟩
  | some old =>
    obtain ⟨-, hnd, hcount, -⟩ := h.entries labelKey old hl
    by_cases hk : key ∈ old.npkeys
    · have hm : m = s.hppRef.put labelKey { old with hppObj := hpp } := by
        simp [m, addToHppCache, hl, if_pos hk]
      rw [hm]
      refine ⟨fun _ hne => put_other _ _ hne, _, put_same _ _ _, hnd, hcount, ?_⟩
      intro k
      constructor
      · intro hmem
        exact .inr ⟨old, rfl, hmem⟩
      · rintro (rfl | ⟨_, he, hmem⟩)
        · exact hk
        · exact some.inj he ▸ hmem
    · have hm : m = s.hppRef.put labelKey ⟨old.refCount + 1, old.npkeys ++ [key], hpp⟩ := by
        simp [m, addToHppCache, hl, if_neg hk]
      rw [hm]
      refine ⟨fun _ hne => put_other _ _ hne, _, put_same _ _ _, ?_, by simp [hcount], ?_⟩
      · exact hnd.append (nodup_singleton key) (by simpa using hk)
      · simp [or_comm]

theorem inv_handled (hnp : s.policies key = some np) (hc : cfg.chainedMode = false) (hpp : Obj) :
    Inv cfg (finishNetPolUpdate cfg { s with netPolQueue := s.netPolQueue.erase key } key np hpp) := by
  unfold finishNetPolUpdate
  rw [if_neg (by simp [hc])]
  obtain ⟨hothers, ref, href, hnd, hcount, hmem⟩ := addToHppCache_spec h (cfg.labelKey np) key hpp
  -- sorting the selectors does not change the label
  have hhas : ∀ label k, (∃ np', s.policies.put key np.hashed k = some np' ∧ cfg.labelKey np' = label) ↔
      s.Has cfg label k := by
    intro label k
    unfold State.Has
    by_cases hk : k = key
    · subst hk
      simp [hnp]
    · rw [put_other _ _ hk]
  refine ⟨?_, ?_, ?_, ?_, ?_⟩
  · intro k np' hk
    by_cases he : k = key
    · subst he
      obtain rfl : np.hashed = np' := some.inj ((put_same _ _ _).symm.trans hk)
      exact h.keyed k np hnp
    · exact h.keyed k np' ((put_other _ _ he).symm.trans hk)
  · intro label ref' href'
    by_cases hl : label = cfg.labelKey np
    · subst hl
      obtain rfl : ref = ref' := some.inj (href.symm.trans href')
      refine ⟨ne_nil_of_mem ((hmem key).mpr (.inl rfl)), hnd, hcount, ?_⟩
      intro k hk
      refine (hhas _ k).mpr ?_
      rcases (hmem k).mp hk with rfl | ⟨old, hold, hk⟩
      · exact ⟨np, hnp, rfl⟩
      · exact (h.entries _ old hold).2.2.2 k hk
    · obtain ⟨hne, hnd', hcount', hall⟩ := h.entries label ref' ((hothers label hl).symm.trans href')
      exact ⟨hne, hnd', hcount', fun k hk => (hhas label k).mpr (hall k hk)⟩
  · intro label k hk hq
    replace hk : s.Has cfg label k := (hhas label k).mp hk
    by_cases he : k = key
    · subst he
      obtain ⟨np', hnp', hl⟩ := hk
      obtain rfl : np = np' := some.inj (hnp.symm.trans hnp')
      exact ⟨ref, hl ▸ href, (hmem k).mpr (.inl rfl)⟩
    · have hq : k ∉ s.netPolQueue := fun hm => hq (mem_erase.mpr ⟨he, hm⟩)
      obtain ⟨old, hold, hin⟩ := h.listed label k hk hq
      by_cases hl : label = cfg.labelKey np
      · subst hl
        exact ⟨ref, href, (hmem k).mpr (.inr ⟨old, hold, hin⟩)⟩
      · exact ⟨old, (hothers label hl).trans hold, hin⟩
  · intro label hd
    by_cases hl : label = cfg.labelKey np
    · subst hl
      exact .inl (by simp [href])
    · have hd : s.desired label ≠ none := by simpa [put_other, hl] using hd
      rcases h.profiles_other hnp hl hd with hr | ⟨k, hk, hkne, hk'⟩
      · exact .inl (by simpa [hothers label hl] using hr)
      · exact .inr ⟨k, mem_erase.mpr ⟨hkne, hk⟩, (hhas label k).mpr hk'⟩
  · intro label hr
    by_cases hl : label = cfg.labelKey np
    · subst hl
      simp
    · have hr : s.hppRef label ≠ none := by simpa [hothers label hl] using hr
      simpa [put_other, hl] using h.written label hr

end

theorem inv_step (hc : cfg.chainedMode = false) (s : State Obj) (e : Event Obj) (h : Inv cfg s)
    (hok : StepOk cfg s e) : Inv cfg (step cfg s e) := by
  cases e with
  | policySet np =>
    cases hold : s.policies np.key with
    | none =>
      simp only [step, hold, networkPolicyAdded, hc]
      exact inv_added h hold
    | some oldnp =>
      simp only [step, hold]
      exact inv_changed h hold hok
  | policyGone key =>
    cases hnp : s.policies key with
    | none =>
      simp only [step, hnp]
      exact h
    | some np =>
      simp only [step, hnp]
      exact inv_deleted h hnp hok
  | process key hpp =>
    by_cases hq : key ∈ s.netPolQueue
    · cases hnp : s.policies key with
      | none =>
        simp only [step, if_pos hq, hnp]
        have hkne : ∀ label k, s.Has cfg label k → k ≠ key := by
          rintro label k ⟨np, hk, -⟩ rfl
          simp [hnp] at hk
        refine ⟨h.keyed, h.entries, ?_, ?_, h.written⟩
        · intro label k hk hnq
          exact h.listed label k hk fun hm => hnq (mem_erase.mpr ⟨hkne label k hk, hm⟩)
        · intro label hd
          rcases h.profiles label hd with hr | ⟨k, hk, hhas⟩
          · exact .inl hr
          · exact .inr ⟨k, mem_erase.mpr ⟨hkne label k hhas, hk⟩, hhas⟩
      | some np =>
        simp only [step, if_pos hq, hnp]
        exact inv_handled h hnp hc hpp
    · simp only [step, if_neg hq]
      exact h

/-- In every run whose steps meet the condition, whenever the queue is empty the references
count the policies and the profiles are those of the references. -/
theorem hppRef_counts (cfg : Config) (hc : cfg.chainedMode = false) (events : List (Event Obj))
    (hok : Along (step cfg) (StepOk cfg) State.start events) : (run (step cfg) State.start events).netPolQueue = ∅ →
      ∀ label, Counted cfg (run (step cfg) State.start events) label := by
  intro hq label
  exact (invariant_run (inv_step hc) _ events (inv_start cfg) hok).counted hq label

def kubeConfig : Config := ⟨"kube", fun text => "h" ++ text, false, fun text => by
  intro he
  have hl := congrArg String.toList he
  simp at hl⟩

/-- A policy for the pods of an application that lets a port in. -/
def portPolicy (name app : String) (port : Int) : NetworkPolicy :=
  ⟨"shop", name, ⟨[("app", app)], []⟩, [⟨[], [⟨some "TCP", some (.int port)⟩]⟩], [], [.ingress]⟩

/-- Two policies share a profile, then one of them changes its port and the other goes. -/
def sharedEvents : List (Event Unit) :=
  [.policySet (portPolicy "a" "web" 80), .policySet (portPolicy "b" "db" 80),
    .process "shop/a" (), .process "shop/b" (),
    .policySet (portPolicy "a" "web" 81), .process "shop/a" (), .policyGone "shop/b"]

theorem hppRef_counts_shared : (run (step kubeConfig) State.start sharedEvents).netPolQueue = ∅ ∧
      ∀ label, Counted kubeConfig (run (step kubeConfig) State.start sharedEvents) label := by
  have hq : (run (step kubeConfig) State.start sharedEvents).netPolQueue = ∅ := by decide +kernel
  refine ⟨hq, hppRef_counts kubeConfig rfl sharedEvents ?_ hq⟩
  refine ⟨?_, ?_, trivial, trivial, ?_, trivial, ?_, trivial⟩
  · intro oldnp hold
    cases hold
  · intro oldnp hold
    cases hold
  · intro oldnp hold
    obtain rfl : (portPolicy "a" "web" 80).hashed = oldnp := some.inj hold
    exact ⟨by decide +kernel, .inr (.inr ⟨"shop/b", by decide, (portPolicy "b" "db" 80).hashed, rfl,
      by decide +kernel⟩)⟩
  · intro np hnp
    obtain rfl : (portPolicy "b" "db" 80).hashed = np := some.inj hnp
    exact .inl (by decide +kernel)

/-- A change of the pod selector alone takes the policy out of the count and queues
nothing: the policy is there, its profile is written, and it has no reference. -/
theorem hppRef_counts_fails :
    let events : List (Event Unit) := [.policySet (portPolicy "a" "web" 80), .process "shop/a" (),
      .policySet (portPolicy "a" "db" 80)]
    (run (step kubeConfig) State.start events).netPolQueue = ∅ ∧
      ¬ Counted kubeConfig (run (step kubeConfig) State.start events)
        (kubeConfig.labelKey (portPolicy "a" "db" 80)) := by
  intro events
  refine ⟨by decide +kernel, ?_⟩
  intro h
  have hsome := h.ref_iff.mpr ⟨"shop/a", portPolicy "a" "db" 80, rfl, rfl⟩
  have hnone : ((run (step kubeConfig) State.start events).hppRef
      (kubeConfig.labelKey (portPolicy "a" "db" 80))).isSome = false := by decide +kernel
  cases hsome

end AciContainers.Hpp
