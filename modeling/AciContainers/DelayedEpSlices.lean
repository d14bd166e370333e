import Mathlib

/-!
# Delayed updates of endpoint slices

`processDelayedEpSlices`, `isDeleteEndpointSlice` and `doendpointSliceUpdatedDelay` of
`pkg/controller/services.go`. An update for a service in the delay list waits in a list of its
own; an update that removes an endpoint is applied at once as well. The loop over the waiting
updates deletes from the list that it indexes, so that it passes the update after a deleted one.
-/
namespace AciContainers.DelayedEpSlices

open List

structure Endpoint where
  addresses : List String
  ready : Option Bool
  terminating : Option Bool
  deriving DecidableEq

structure EndpointSlice where
  ns : String
  /-- The label that names the service. -/
  serviceName : Option String
  endpoints : List Endpoint
  deriving DecidableEq

structure DelayService where
  name : String
  ns : String
  delay : Int

/-- `ServiceGraphEndpointAddDelay`, in seconds. -/
structure AddDelay where
  delay : Int
  services : List DelayService

structure DelayedEpSlice where
  serviceKey : String
  oldEpSlice : EndpointSlice
  newEpSlice : EndpointSlice
  delayedTime : Int
  deriving DecidableEq

/-- The arguments of a call of `doendpointSliceUpdated`. -/
abbrev Update := EndpointSlice × EndpointSlice

def notReadyEndpointPresent (slice : EndpointSlice) : Bool :=
  slice.endpoints.any fun e => e.ready = some false && e.terminating ≠ some true

def getEndpointSliceEpIps (e : Endpoint) : Finset String := e.addresses.toFinset

def DelayedEpSlice.expired (now : Int) (e : DelayedEpSlice) : Bool := e.delayedTime < now

/-- The loop over the list, from an index on. A turn for each entry of the list is enough. -/
def expireLoop (now : Int) : Nat → Nat → List DelayedEpSlice → List DelayedEpSlice →
    List DelayedEpSlice × List DelayedEpSlice
  | 0, _, delayed, processEps => (delayed, processEps)
  | turns + 1, i, delayed, processEps =>
    match delayed[i]? with
    | none => (delayed, processEps)
    | some e =>
      if e.expired now then expireLoop now turns (i + 1) (delayed.eraseIdx i) (processEps ++ [e])
      else expireLoop now turns (i + 1) delayed processEps

/-- What one call leaves, what it takes out, and the updates that it applies. -/
structure Processed where
  delayedEpSlices : List DelayedEpSlice
  processEps : List DelayedEpSlice
  updates : List Update
  deriving DecidableEq

def handled (e : DelayedEpSlice) : Option Update :=
  if notReadyEndpointPresent e.newEpSlice then none else some (e.oldEpSlice, e.newEpSlice)

def processDelayedEpSlices (now : Int) (delayed : List DelayedEpSlice) : Processed :=
  let r := expireLoop now delayed.length 0 delayed []
  ⟨r.1, r.2, r.2.filterMap handled⟩

variable {now : Int} {old new : EndpointSlice}

/-- The loop on the entries that are left: the one after a deleted one stays. -/
def pass (now : Int) : List DelayedEpSlice → List DelayedEpSlice × List DelayedEpSlice
  | [] => ([], [])
  | [e] => if e.expired now then ([], [e]) else ([e], [])
  | e :: f :: rest =>
    if e.expired now then (f :: (pass now rest).1, e :: (pass now rest).2)
    else (e :: (pass now (f :: rest)).1, (pass now (f :: rest)).2)

theorem expireLoop_end {turns i : Nat} {delayed : List DelayedEpSlice} (h : delayed.length ≤ i)
    (processEps : List DelayedEpSlice) : expireLoop now turns i delayed processEps = (delayed, processEps) := by
  cases turns with
  | zero => rfl
  | succ turns => simp [expireLoop, h]

theorem eraseIdx_length (kept : List DelayedEpSlice) (e : DelayedEpSlice) (rest : List DelayedEpSlice) :
    (kept ++ e :: rest).eraseIdx kept.length = kept ++ rest := by
  simp [eraseIdx_append_of_length_le]

theorem expireLoop_eq {turns : Nat} (rest : List DelayedEpSlice) (h : rest.length ≤ turns)
    (kept processEps : List DelayedEpSlice) : expireLoop now turns kept.length (kept ++ rest) processEps =
      (kept ++ (pass now rest).1, processEps ++ (pass now rest).2) := by
  -- The entries before the index are kept; one turn takes one or two off the rest.
  induction turns generalizing rest kept processEps with
  | zero => simp [expireLoop, pass, eq_nil_of_length_eq_zero (Nat.le_zero.mp h)]
  | succ turns ih =>
    match rest with
    | [] => simp [expireLoop, pass]
    | [e] =>
      by_cases he : e.expired now
      · simp [expireLoop, pass, he, eraseIdx_length, expireLoop_end]
      · simp [expireLoop, pass, he, expireLoop_end]
    | e :: f :: rest =>
      rw [expireLoop]
      by_cases he : e.expired now
      · have hnext := ih rest (by simp at h; omega) (kept ++ [f]) (processEps ++ [e])
        simpa [pass, he, eraseIdx_length] using hnext
      · have hnext := ih (f :: rest) (by simpa using h) (kept ++ [e]) processEps
        simpa [pass, he] using hnext

/-- No two neighbours have both expired. -/
def Spread (now : Int) (delayed : List DelayedEpSlice) : Prop :=
  delayed.IsChain fun e f => ¬ (e.expired now = true ∧ f.expired now = true)

theorem spread_cons {e : DelayedEpSlice} (he : e.expired now = false) (rest : List DelayedEpSlice) :
    Spread now (e :: rest) ↔ Spread now rest := by
  cases rest <;> simp [Spread, he]

theorem pass_eq_iff (delayed : List DelayedEpSlice) :
    pass now delayed = (delayed.filter fun e => !e.expired now, delayed.filter fun e => e.expired now) ↔
      Spread now delayed := by
  induction delayed using pass.induct now with
  | case1 => simp [pass, Spread]
  | case2 e he => simp [pass, Spread, he]
  | case3 e he => simp [pass, Spread, he]
  | case4 e f rest he ih =>
    cases hf : f.expired now with
    | true =>
      have hmem : f ∉ rest.filter fun e => !e.expired now := by simp [hf]
      simp only [pass, he, hf, Spread, isChain_cons_cons, if_true]
      refine iff_of_false (fun h => hmem ?_) (fun h => h.1 ⟨trivial, trivial⟩)
      have hkept := congrArg Prod.fst h
      simp only [filter_cons, he, hf, Bool.not_true, Bool.false_eq_true, if_false] at hkept
      rw [← hkept]
      exact mem_cons_self
    | false =>
      have hchain : Spread now (e :: f :: rest) ↔ Spread now (f :: rest) := by
        simp [Spread, hf]
      rw [hchain, spread_cons hf, ← ih]
      simp [pass, he, hf, Prod.ext_iff]
  | case5 e f rest he ih =>
    rw [spread_cons (by simpa using he), ← ih]
    simp [pass, he, Prod.ext_iff]

/-- One call takes out and goes through exactly the expired updates, in order, when no two
neighbours have expired. -/
theorem processDelayedEpSlices_exact_iff (now : Int) (delayed : List DelayedEpSlice) :
    processDelayedEpSlices now delayed = ⟨delayed.filter fun e => !e.expired now, delayed.filter fun e => e.expired now,
        (delayed.filter fun e => e.expired now).filterMap handled⟩ ↔ Spread now delayed := by
  have hloop := @expireLoop_eq now delayed.length delayed le_rfl [] []
  simp only [length_nil, nil_append] at hloop
  rw [processDelayedEpSlices, hloop, ← pass_eq_iff, Prod.ext_iff]
  constructor
  · intro h
    exact ⟨congrArg Processed.delayedEpSlices h, congrArg Processed.processEps h⟩
  · rintro ⟨hkept, hexpired⟩
    simp [hkept, hexpired]

def readySlice (addresses : List String) : EndpointSlice :=
  ⟨"default", some "web", [⟨addresses, some true, none⟩]⟩

def waiting (delayedTime : Int) (addresses : List String) : DelayedEpSlice :=
  ⟨"default/web", readySlice [], readySlice addresses, delayedTime⟩

/-- Of two expired updates the second stays and is not applied. -/
theorem processDelayedEpSlices_exact_fails :
    let first := waiting 1 ["10.2.0.1"]
    let second := waiting 2 ["10.2.0.2"]
    processDelayedEpSlices 5 [first, second] = ⟨[second], [first], [(readySlice [], readySlice ["10.2.0.1"])]⟩ ∧
      second.expired 5 = true := by
  decide

/-- What calls at the given times take out, and what they leave. -/
def drain : List Int → List DelayedEpSlice → List DelayedEpSlice × List DelayedEpSlice
  | [], delayed => ([], delayed)
  | now :: times, delayed =>
    let r := processDelayedEpSlices now delayed
    let rest := drain times r.delayedEpSlices
    (r.processEps ++ rest.1, rest.2)

theorem processDelayedEpSlices_eq (delayed : List DelayedEpSlice) :
    processDelayedEpSlices now delayed =
      ⟨(pass now delayed).1, (pass now delayed).2, (pass now delayed).2.filterMap handled⟩ := by
  have hloop := @expireLoop_eq now delayed.length delayed le_rfl [] []
  simp only [length_nil, nil_append] at hloop
  rw [processDelayedEpSlices, hloop]

theorem pass_perm (delayed : List DelayedEpSlice) : (pass now delayed).2 ++ (pass now delayed).1 ~ delayed := by
  induction delayed using pass.induct now with
  | case1 => rfl
  | case2 e he => simp [pass, he]
  | case3 e he => simp [pass, he]
  | case4 e f rest he ih =>
    simpa [pass, he] using perm_middle.trans (ih.cons f)
  | case5 e f rest he ih =>
    simpa [pass, he] using perm_middle.trans (ih.cons e)

theorem length_pass {delayed : List DelayedEpSlice} (h : ∀ e ∈ delayed, e.expired now) :
    (pass now delayed).1.length = delayed.length / 2 := by
  induction delayed using pass.induct now with
  | case1 => rfl
  | case2 e he => simp [pass, he]
  | case3 e he => exact absurd (h e mem_cons_self) he
  | case4 e f rest he ih =>
    simp only [pass, he, if_true, length_cons, ih fun g hg => h g (by simp [hg])]
    omega
  | case5 e f rest he ih => exact absurd (h e mem_cons_self) he

/-- No waiting update is lost or taken out twice; and each call after all have expired takes out
every second one, the longer half of an odd number. -/
theorem drain_exact (times : List Int) (delayed : List DelayedEpSlice) :
    (drain times delayed).1 ++ (drain times delayed).2 ~ delayed ∧
      ((∀ now ∈ times, ∀ e ∈ delayed, e.expired now) →
        (drain times delayed).2.length = delayed.length / 2 ^ times.length) := by
  induction times generalizing delayed with
  | nil => simp [drain]
  | cons now times ih =>
    have hperm := @pass_perm now delayed
    obtain ⟨hrest, hcount⟩ := ih (pass now delayed).1
    simp only [drain, processDelayedEpSlices_eq, append_assoc]
    refine ⟨(hrest.append_left _).trans hperm, fun h => ?_⟩
    rw [forall_mem_cons] at h
    rw [hcount fun t ht e he => h.2 t ht e (hperm.subset (mem_append_right _ he)), length_pass h.1,
      Nat.div_div_eq_div_mul, length_cons, pow_succ']

/-- The delay of a service, if it is in the list. -/
def svcInAddDelayList (cfg : AddDelay) (name ns : String) : Int × Bool :=
  match cfg.services.find? fun svc => svc.name = name && svc.ns = ns with
  | some svc => (svc.delay, true)
  | none => (0, false)

def isDeleteEndpointSlice (old new : EndpointSlice) : Bool :=
  if new.endpoints.length < old.endpoints.length then true
  else if new.endpoints.any fun e => e.terminating = some true then true
  else old.endpoints.any fun o =>
    -- The inner loop stops at the first endpoint with the same addresses.
    match new.endpoints.find? fun n => getEndpointSliceEpIps o = getEndpointSliceEpIps n with
    | some n => o.ready = some true && n.ready = some false
    | none => false

/-- The delay in seconds that applies to a service. -/
def delayOf (cfg : AddDelay) (svc ns : String) : Int :=
  if 0 < (svcInAddDelayList cfg svc ns).1 then (svcInAddDelayList cfg svc ns).1 else cfg.delay

def delayedSvc (cfg : AddDelay) (svc ns : String) : Bool :=
  (svcInAddDelayList cfg svc ns).2 && 0 < delayOf cfg svc ns

/-- Returns the waiting updates and the updates that are applied, in order. -/
def doendpointSliceUpdatedDelay (cfg : AddDelay) (now : Int) (old new : EndpointSlice)
    (delayed : List DelayedEpSlice) : List DelayedEpSlice × List Update :=
  match new.serviceName with
  | none => (delayed, [])
  | some svc =>
    if delayedSvc cfg svc new.ns then
      (delayed ++ [⟨new.ns ++ "/" ++ svc, old, new, now + delayOf cfg svc new.ns⟩],
        if isDeleteEndpointSlice old new then [(old, new)] else [])
    else (delayed, [(old, new)])

/-- The addresses of an old endpoint are those of no new one. -/
def Loses (old new : EndpointSlice) : Prop :=
  ∃ o ∈ old.endpoints, ∀ n ∈ new.endpoints, getEndpointSliceEpIps o ≠ getEndpointSliceEpIps n

def Terminates (new : EndpointSlice) : Prop := ∃ n ∈ new.endpoints, n.terminating = some true

/-- An endpoint, known by its addresses, was ready and is not. -/
def TurnsNotReady (old new : EndpointSlice) : Prop :=
  ∃ o ∈ old.endpoints, ∃ n ∈ new.endpoints, getEndpointSliceEpIps o = getEndpointSliceEpIps n ∧
    o.ready = some true ∧ n.ready = some false

/-- A ready endpoint is not ready where its addresses first occur in the new slice. -/
def TurnsFirst (old new : EndpointSlice) : Prop :=
  ∃ o ∈ old.endpoints, ∃ n ∈ new.endpoints.find? fun n => getEndpointSliceEpIps o = getEndpointSliceEpIps n,
    o.ready = some true ∧ n.ready = some false

theorem isDeleteEndpointSlice_iff : isDeleteEndpointSlice old new ↔
      new.endpoints.length < old.endpoints.length ∨ Terminates new ∨ TurnsFirst old new := by
  have hturns : (old.endpoints.any fun o =>
      match new.endpoints.find? fun n => getEndpointSliceEpIps o = getEndpointSliceEpIps n with
      | some n => o.ready = some true && n.ready = some false
      | none => false) ↔ TurnsFirst old new := by
    rw [any_eq_true, TurnsFirst]
    refine exists_congr fun o => and_congr_right fun _ => ?_
    cases new.endpoints.find? fun n => getEndpointSliceEpIps o = getEndpointSliceEpIps n with
    | none => simp
    | some n => simp
  unfold isDeleteEndpointSlice
  split
  · next hlen => simp [hlen]
  · next hlen =>
    split
    · next hterm => simpa [Terminates, hlen] using Or.inl (by simpa using hterm)
    · next hterm =>
      have hno : ¬ Terminates new := by simpa [Terminates] using hterm
      rw [hturns]
      simp [hlen, hno]

/-- When addresses are gone or an endpoint is no longer ready, the slice is shorter, an endpoint
terminates, or one is not ready where its addresses first occur. -/
def Shows (old new : EndpointSlice) : Prop :=
  Loses old new ∨ TurnsNotReady old new →
    new.endpoints.length < old.endpoints.length ∨ Terminates new ∨ TurnsFirst old new

/-- An update of a delayed service that removes an endpoint is applied at once when the removal
shows. -/
theorem removal_immediate_iff (cfg : AddDelay) (now : Int) (old new : EndpointSlice)
    (delayed : List DelayedEpSlice) (svc : String) (hsvc : new.serviceName = some svc)
    (hdelay : delayedSvc cfg svc new.ns = true) : (Loses old new ∨ Terminates new ∨ TurnsNotReady old new →
      (old, new) ∈ (doendpointSliceUpdatedDelay cfg now old new delayed).2) ↔ Shows old new := by
  have happlied : (old, new) ∈ (doendpointSliceUpdatedDelay cfg now old new delayed).2 ↔
      isDeleteEndpointSlice old new := by
    simp only [doendpointSliceUpdatedDelay, hsvc, hdelay, if_true]
    cases isDeleteEndpointSlice old new with
    | true => simp
    | false => simp
  rw [happlied, isDeleteEndpointSlice_iff, Shows]
  constructor
  · rintro h (hloses | hturns)
    · exact h (Or.inl hloses)
    · exact h (Or.inr (Or.inr hturns))
  · rintro h (hloses | hterm | hturns)
    · exact h (Or.inl hloses)
    · exact Or.inr (Or.inl hterm)
    · exact h (Or.inr hturns)

def webDelay : AddDelay := ⟨10, [⟨"web", "default", 0⟩]⟩

theorem removal_immediate_shorter :
    (⟨"default", some "web", [⟨["10.2.0.1"], some true, none⟩, ⟨["10.2.0.2"], some true, none⟩]⟩,
        readySlice ["10.2.0.1"]) ∈ (doendpointSliceUpdatedDelay webDelay 0
        ⟨"default", some "web", [⟨["10.2.0.1"], some true, none⟩, ⟨["10.2.0.2"], some true, none⟩]⟩
        (readySlice ["10.2.0.1"]) []).2 :=
  (removal_immediate_iff webDelay 0 _ _ [] "web" rfl (by decide)).mpr (fun _ => Or.inl (by decide))
    (Or.inl ⟨⟨["10.2.0.2"], some true, none⟩, by decide, by decide⟩)

/-- An endpoint is replaced by another in one update, which only waits. -/
theorem removal_immediate_fails : Loses (readySlice ["10.2.0.1"]) (readySlice ["10.2.0.2"]) ∧
    delayedSvc webDelay "web" "default" = true ∧
    doendpointSliceUpdatedDelay webDelay 0 (readySlice ["10.2.0.1"]) (readySlice ["10.2.0.2"]) [] =
      ([⟨"default/web", readySlice ["10.2.0.1"], readySlice ["10.2.0.2"], 10⟩], []) :=
  ⟨⟨⟨["10.2.0.1"], some true, none⟩, by decide, by decide⟩, by decide, by decide⟩

end AciContainers.DelayedEpSlices
