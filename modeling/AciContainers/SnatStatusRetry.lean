import AciContainers.Outcomes
import AciContainers.SnatPortSafety

/-!
# Failed status writes and the retry of a node info

`handleSnatNodeInfo` returns whether the node info is to be queued again. A node that is
gone, or has no policies, is queued again as soon as a status cannot be written. Otherwise the
result is the conjunction of the outcomes of two batches: a failure in one only is forgotten.
-/
namespace AciContainers.Snat

open Maps Outcomes Runs List

/-- `setSnatPolicyStatus` goes to the API server. -/
def State.writesStatus (σ : State) (name : String) (status : PolicyState) : Bool :=
  (σ.snatIndexer name).any fun p => p.state ≠ status

/-- The policies whose status `setSnatPoliciesState` writes. -/
def State.batchWrites (fails : String → Bool) (status : PolicyState) : List String → State → List String
  | [], _ => []
  | name :: names, σ =>
    (if σ.writesStatus name status then [name] else []) ++
      (σ.setSnatPolicyStatus fails name status).1.batchWrites fails status names

def State.readyWrites (σ : State) (name : String) : List String :=
  if σ.checksnatPolicyPortExhausted name then [name] else []

def State.deleteNodeWrites (fails : String → Bool) (nodename : String) : List String → State → List String
  | [], _ => []
  | snatip :: snatips, σ =>
    match σ.snatGlobalInfoCache snatip with
    | none => σ.deleteNodeWrites fails nodename snatips
    | some glinfos =>
      match glinfos.lookup nodename with
      | none => σ.deleteNodeWrites fails nodename snatips
      | some v =>
        let r := σ.readyAgain fails v.snatPolicyName
        σ.readyWrites v.snatPolicyName ++
          if r.2 then [] else (r.1.removeEntry snatip nodename glinfos).deleteNodeWrites fails nodename snatips

def State.markReadyWrites (fails : String → Bool) : List String → State → List String
  | [], _ => []
  | name :: names, σ =>
    let r := σ.readyAgain fails name
    σ.readyWrites name ++ if r.2 then [] else r.1.markReadyWrites fails names

/-- The loop of `handleSnatNodeInfo` over the policies of the node info. -/
def State.allocations (σ : State) (nodeinfo : NodeInfo) : Allocating :=
  nodeinfo.snatPolicyNames.foldl (Allocating.policy nodeinfo) ⟨σ, [], []⟩

/-- The policies whose status `handleSnatNodeInfo` writes. -/
def State.statusWrites (fails : String → Bool) (order : List String) (nodeinfo : NodeInfo)
    (σ : State) : List String :=
  if (σ.snatNodeInfoCache nodeinfo.name).isNone ∨ nodeinfo.snatPolicyNames = [] then
    let r := σ.deleteNode fails nodeinfo.name order
    σ.deleteNodeWrites fails nodeinfo.name order ++
      if r.2 then [] else r.1.markReadyWrites fails nodeinfo.snatPolicyNames
  else
    let acc := σ.allocations nodeinfo
    let exhausted := acc.state.setSnatPoliciesState fails acc.allocfailed .ipPortsExhausted
    acc.state.batchWrites fails .ipPortsExhausted acc.allocfailed ++
      exhausted.1.batchWrites fails .ready acc.markready

variable (fails : String → Bool) (σ : State) (name : String) (status : PolicyState)
  (names : List String) (nodeinfo : NodeInfo)

theorem setSnatPolicyStatus_failed :
    (σ.setSnatPolicyStatus fails name status).2 = (σ.writesStatus name status && fails name) := by
  unfold State.setSnatPolicyStatus State.writesStatus
  cases σ.snatIndexer name with
  | none => rfl
  | some p =>
    by_cases h : p.state = status
    · simp [h]
    · simp [h]

/-- Afterwards a status write is due where it was due before, except for this policy. -/
theorem writesStatus_setSnatPolicyStatus (other : String) :
    (σ.setSnatPolicyStatus fails name status).1.writesStatus other status =
      (σ.writesStatus other status && !decide (other = name)) := by
  unfold State.setSnatPolicyStatus State.writesStatus
  cases hp : σ.snatIndexer name with
  | none =>
    by_cases ho : other = name
    · simp [ho, hp]
    · simp [ho]
  | some p =>
    by_cases h : p.state = status
    · by_cases ho : other = name
      · simp [h, ho, hp]
      · simp [h, ho]
    · by_cases ho : other = name
      · simp [h, ho]
      · simp [h, ho, put_other _ _ ho]

theorem writesStatus_of_exhausted {σ : State} {p : String} (h : σ.checksnatPolicyPortExhausted p) :
    σ.writesStatus p .ready := by
  unfold State.checksnatPolicyPortExhausted at h
  unfold State.writesStatus
  cases hp : σ.snatIndexer p with
  | none => simp [hp] at h
  | some object =>
    simp_all

/-- An exhausted policy is always written when it is marked ready. -/
theorem readyAgain_failed : (σ.readyAgain fails name).2 = (σ.readyWrites name).any fails := by
  unfold State.readyAgain State.readyWrites
  by_cases h : σ.checksnatPolicyPortExhausted name
  · rw [if_pos h, if_pos h, setSnatPolicyStatus_failed, writesStatus_of_exhausted h]
    simp
  · rw [if_neg h, if_neg h]
    rfl

theorem setStatusTurn_foldl (acc : State × Bool) : (names.foldl (setStatusTurn fails status) acc).2 =
      (acc.2 || (acc.1.batchWrites fails status names).any fails) := by
  induction names generalizing acc with
  | nil => simp [State.batchWrites]
  | cons name names ih =>
    rw [foldl_cons, ih, State.batchWrites, any_append]
    simp only [setStatusTurn, setSnatPolicyStatus_failed]
    cases acc.1.writesStatus name status <;> simp [Bool.or_assoc]

theorem setSnatPoliciesState_failed (status : PolicyState) (σ : State) :
    (σ.setSnatPoliciesState fails names status).2 = (σ.batchWrites fails status names).any fails := by
  simp [State.setSnatPoliciesState, setStatusTurn_foldl]

/-- A batch writes the policies of its list that do not have the status yet. -/
theorem mem_batchWrites (σ : State) (p : String) :
    p ∈ σ.batchWrites fails status names ↔ p ∈ names ∧ σ.writesStatus p status := by
  induction names generalizing σ with
  | nil => simp [State.batchWrites]
  | cons name names ih =>
    rw [State.batchWrites, mem_append, ih, writesStatus_setSnatPolicyStatus]
    by_cases hp : p = name
    · subst hp
      cases h : σ.writesStatus p status <;> simp
    · cases h : σ.writesStatus name status <;> simp [hp]

theorem deleteNode_failed (nodename : String) (snatips : List String) (σ : State) :
    (σ.deleteNode fails nodename snatips).2 = (σ.deleteNodeWrites fails nodename snatips).any fails := by
  induction snatips generalizing σ with
  | nil => rfl
  | cons snatip snatips ih =>
    rw [State.deleteNode, State.deleteNodeWrites]
    cases σ.snatGlobalInfoCache snatip with
    | none => exact ih σ
    | some glinfos =>
      cases hl : glinfos.lookup nodename with
      | none => simp [hl, ih]
      | some v =>
        simp only [hl, any_append, ← readyAgain_failed]
        split
        · next hfail => simp [hfail]
        · next hfail => simp [hfail, ih]

theorem markReady_failed (σ : State) : (σ.markReady fails names).2 = (σ.markReadyWrites fails names).any fails := by
  induction names generalizing σ with
  | nil => rfl
  | cons name names ih =>
    rw [State.markReady, State.markReadyWrites]
    simp only [any_append, ← readyAgain_failed]
    split
    · next hfail => simp [hfail]
    · next hfail => simp [hfail, ih]

/-- The loop over the policies leaves the stored objects as they are, and what it lists as
ready again is exhausted. -/
structure Listing (σ : State) (acc : Allocating) : Prop where
  indexer : acc.state.snatIndexer = σ.snatIndexer
  ready : ∀ p ∈ acc.markready, σ.checksnatPolicyPortExhausted p = true

theorem exhausted_congr {σ τ : State} (h : τ.snatIndexer = σ.snatIndexer) (p : String) :
    τ.checksnatPolicyPortExhausted p = σ.checksnatPolicyPortExhausted p := by
  unfold State.checksnatPolicyPortExhausted
  rw [h]

theorem Listing.allocate {σ : State} {acc : Allocating} (h : Listing σ acc) (nodeinfo : NodeInfo)
    (name : String) (policy : ContSnatPolicy) (serviceIp : String) :
    Listing σ (acc.allocate nodeinfo name policy serviceIp) := by
  unfold Allocating.allocate
  split
  · exact ⟨h.indexer, h.ready⟩
  · refine ⟨h.indexer, ?_⟩
    split
    · next hex =>
      rw [exhausted_congr h.indexer] at hex
      exact forall_mem_append.mpr ⟨h.ready, forall_mem_singleton.mpr hex⟩
    · exact h.ready

theorem Listing.policy {σ : State} {acc : Allocating} (h : Listing σ acc) (nodeinfo : NodeInfo)
    (name : String) : Listing σ (acc.policy nodeinfo name) := by
  unfold Allocating.policy
  split
  · exact h
  · next policy _ =>
    split
    · split
      · exact h
      · exact h.allocate nodeinfo name policy ""
    · simp only
      split
      · exact h
      · exact foldl_invariant h fun _ ip _ hacc => Listing.allocate hacc nodeinfo name policy ip

theorem listing_allocations : Listing σ (σ.allocations nodeinfo) :=
  foldl_invariant ⟨rfl, by simp⟩ fun _ name _ hacc => Listing.policy hacc nodeinfo name

/-- Marking policies as exhausted leaves those that are as they are. -/
theorem exhausted_setSnatPoliciesState (σ : State) {p : String} (h : σ.checksnatPolicyPortExhausted p) :
    (σ.setSnatPoliciesState fails names .ipPortsExhausted).1.checksnatPolicyPortExhausted p := by
  refine @foldl_invariant _ _ (fun acc : State × Bool => acc.1.checksnatPolicyPortExhausted p)
    _ names _ h fun acc name _ hacc => ?_
  simp only [setStatusTurn]
  unfold State.setSnatPolicyStatus
  split
  · exact hacc
  · split
    · exact hacc
    · by_cases hp : p = name
      · simp [State.checksnatPolicyPortExhausted, hp]
      · simpa [State.checksnatPolicyPortExhausted, put_other _ _ hp] using hacc

/-- A policy that is not marked so yet runs out of ports, and writing that fails. -/
def ExhaustedLost (fails : String → Bool) (σ : State) (nodeinfo : NodeInfo) : Prop :=
  ∃ p ∈ (σ.allocations nodeinfo).allocfailed, σ.writesStatus p .ipPortsExhausted = true ∧ fails p = true

/-- A policy that is marked as exhausted gets ports, and writing that fails. -/
def ReadyLost (fails : String → Bool) (σ : State) (nodeinfo : NodeInfo) : Prop :=
  ∃ p ∈ (σ.allocations nodeinfo).markready, fails p = true

theorem exhausted_failed_iff : ((σ.allocations nodeinfo).state.batchWrites fails .ipPortsExhausted
      (σ.allocations nodeinfo).allocfailed).any fails ↔ ExhaustedLost fails σ nodeinfo := by
  have hindexer := (listing_allocations σ nodeinfo).indexer
  simp [any_eq_true, mem_batchWrites, ExhaustedLost, State.writesStatus, hindexer, and_assoc]

theorem ready_failed_iff :
    (((σ.allocations nodeinfo).state.setSnatPoliciesState fails (σ.allocations nodeinfo).allocfailed
      .ipPortsExhausted).1.batchWrites fails .ready (σ.allocations nodeinfo).markready).any fails ↔
      ReadyLost fails σ nodeinfo := by
  have hlisting := listing_allocations σ nodeinfo
  simp only [any_eq_true, mem_batchWrites, ReadyLost]
  constructor
  · rintro ⟨p, ⟨hp, -⟩, hfail⟩
    exact ⟨p, hp, hfail⟩
  · rintro ⟨p, hp, hfail⟩
    have hex := (exhausted_congr hlisting.indexer p).trans (hlisting.ready p hp)
    exact ⟨p, ⟨hp, writesStatus_of_exhausted (exhausted_setSnatPoliciesState fails _ _ hex)⟩, hfail⟩

/-- A failed status write always has the node info queued again exactly if the node is gone
or without policies, or the failed writes are in both batches or in none. -/
theorem handleSnatNodeInfo_retry_iff (fails : String → Bool) (order : List String) (nodeinfo : NodeInfo) (σ : State) :
    ((∃ p ∈ σ.statusWrites fails order nodeinfo, fails p = true) →
        (σ.handleSnatNodeInfo fails order nodeinfo).2 = true) ↔
      (σ.snatNodeInfoCache nodeinfo.name).isNone ∨ nodeinfo.snatPolicyNames = [] ∨
        (ExhaustedLost fails σ nodeinfo ↔ ReadyLost fails σ nodeinfo) := by
  rw [← or_assoc, ← any_eq_true]
  by_cases hgone : (σ.snatNodeInfoCache nodeinfo.name).isNone ∨ nodeinfo.snatPolicyNames = []
  · simp only [hgone, true_or, iff_true, State.statusWrites, State.handleSnatNodeInfo, if_true,
      State.deleteNodeinfoFromGlInfoCache, any_append, ← deleteNode_failed]
    split
    · simp
    · next hfail => simp [hfail, markReady_failed]
  · simp only [hgone, false_or, State.statusWrites, State.handleSnatNodeInfo, if_false, any_append,
      setSnatPoliciesState_failed, Bool.or_eq_true, Bool.and_eq_true]
    have hloop : nodeinfo.snatPolicyNames.foldl (Allocating.policy nodeinfo) ⟨σ, [], []⟩ =
      σ.allocations nodeinfo := rfl
    rw [hloop, exhausted_failed_iff, ready_failed_iff]
    constructor
    · intro h
      exact ⟨fun hex => (h (.inl hex)).1, fun hready => (h (.inr hready)).2⟩
    · rintro h (hex | hready)
      · exact ⟨h.mp hex, hex⟩
      · exact ⟨hready, h.mpr hready⟩

/-- The third node finds both addresses taken, and the status of the policy cannot be
written. The node info is not queued again. -/
theorem handleSnatNodeInfo_retry_fails :
    let σ := run step start (policyComes ++ nodeComes "n1" ++ nodeComes "n2" ++
      [.snatNodeInfoAdded ⟨"n3", "", ["web"]⟩])
    let fails : String → Bool := fun _ => true
    "web" ∈ σ.statusWrites fails [] ⟨"n3", "", ["web"]⟩ ∧ fails "web" = true ∧
      (σ.handleSnatNodeInfo fails [] ⟨"n3", "", ["web"]⟩).2 = false := by
  decide

end AciContainers.Snat
