import Mathlib

/-!
# Computations that stop with a fault

A computation ends with a value or stops with a fault. `Ends` says which faults it may stop
with and what holds of its value; there is one rule for each way of putting computations
together. A sort of a slice whose comparison may stop is given by what it must do: it puts the
slice in some order, and it stops only where the comparison does.
-/
namespace AciContainers.Outcomes

open List

variable {ε α β : Type}

def Ends (allowed : ε → Prop) (post : α → Prop) : Except ε α → Prop
  | .ok a => post a
  | .error e => allowed e

variable {allowed : ε → Prop} {post : α → Prop}

@[simp] theorem ends_ok (a : α) : Ends allowed post (.ok a) ↔ post a := Iff.rfl
@[simp] theorem ends_pure (a : α) : Ends allowed post (pure a : Except ε α) ↔ post a := Iff.rfl
@[simp] theorem ends_error (e : ε) : Ends allowed post (.error e : Except ε α) ↔ allowed e := Iff.rfl

@[simp] theorem ok_bind (a : α) (f : α → Except ε β) : (Except.ok a >>= f) = f a := rfl
@[simp] theorem error_bind (e : ε) (f : α → Except ε β) : (Except.error e >>= f) = .error e := rfl

variable {x : Except ε α} {post' : α → Prop}

theorem Ends.mono (h : Ends allowed post x) (hp : ∀ a, post a → post' a) : Ends allowed post' x := by
  cases x with
  | ok a => exact hp a h
  | error e => exact h

theorem Ends.bind {post' : β → Prop} {f : α → Except ε β} (h : Ends allowed post x)
    (hf : ∀ a, post a → Ends allowed post' (f a)) : Ends allowed post' (x >>= f) := by
  cases x with
  | ok a => exact hf a h
  | error e => exact h

/-- The invariant rule for loops. -/
theorem Ends.foldlM {inv : α → Prop} {f : α → β → Except ε α} {xs : List β} {a : α} (ha : inv a)
    (hf : ∀ a, ∀ x ∈ xs, inv a → Ends allowed inv (f a x)) : Ends allowed inv (xs.foldlM f a) := by
  induction xs generalizing a with
  | nil => exact ha
  | cons x xs ih =>
    refine (hf a x mem_cons_self ha).bind fun b hb => ?_
    exact ih hb fun c y hy => hf c y (mem_cons_of_mem x hy)

theorem Ends.and (h : Ends allowed post x) (h' : Ends allowed post' x) :
    Ends allowed (fun a => post a ∧ post' a) x := by
  cases x with
  | ok a => exact ⟨h, h'⟩
  | error e => exact h

/-- Each result of a loop is related to the element that it comes from. -/
theorem Ends.mapM {rel : β → α → Prop} {f : β → Except ε α} {xs : List β}
    (hf : ∀ x ∈ xs, Ends allowed (rel x) (f x)) : Ends allowed (fun out => List.Forall₂ rel xs out) (xs.mapM f) := by
  induction xs with
  | nil => exact List.Forall₂.nil
  | cons x xs ih =>
    rw [forall_mem_cons] at hf
    rw [mapM_cons]
    refine hf.1.bind fun a ha => (ih hf.2).bind fun out hout => ?_
    exact List.Forall₂.cons ha hout

theorem Ends.of_ok {a : α} (h : Ends allowed post x) (hx : x = .ok a) : post a := by
  rw [hx] at h
  exact h

theorem foldl_invariant {inv : α → Prop} {f : α → β → α} {xs : List β} {a : α} (ha : inv a)
    (hf : ∀ a, ∀ x ∈ xs, inv a → inv (f a x)) : inv (xs.foldl f a) :=
  foldlRecOn xs f ha fun b hb x hx => hf b x hx hb

/-- Every event that is reached meets the condition in the state it is applied to. -/
def Guarded (step : α → β → Except ε α) (ok : α → β → Prop) : α → List β → Prop
  | _, [] => True
  | s, e :: events => ok s e ∧ ∀ s', step s e = .ok s' → Guarded step ok s' events

theorem Ends.guarded {inv : α → Prop} {step : α → β → Except ε α} {ok : α → β → Prop}
    (hstep : ∀ s e, inv s → ok s e → Ends allowed inv (step s e)) (s : α) (events : List β)
    (hs : inv s) (h : Guarded step ok s events) : Ends allowed inv (events.foldlM step s) := by
  induction events generalizing s with
  | nil => exact hs
  | cons e events ih =>
    have he := hstep s e hs h.1
    rw [foldlM_cons]
    cases hnext : step s e with
    | error fault =>
      rw [hnext] at he
      exact he
    | ok s' =>
      rw [hnext] at he
      exact ih s' he (h.2 s' hnext)

/-- `sort.Slice`. -/
structure SliceSort (ε : Type) where
  sort : (String → String → Except ε Bool) → List String → Except ε (List String)
  sort_ends : ∀ (less : String → String → Except ε Bool) (l : List String) (allowed : ε → Prop),
    (∀ a ∈ l, ∀ b ∈ l, Ends allowed (fun _ => True) (less a b)) →
      Ends allowed (fun out => out.Perm l) (sort less l)

/-- An element moves to the front of the sorted ones, kept in reverse, while it is less. -/
def insertBack (less : String → String → Except ε Bool) (x : String) :
    List String → Except ε (List String)
  | [] => .ok [x]
  | y :: ys => do
    if ← less x y then
      let out ← insertBack less x ys
      .ok (y :: out)
    else .ok (x :: y :: ys)

/-- The insertion sort that `sort.Slice` uses for short slices. -/
def insertionSlice (less : String → String → Except ε Bool) (l : List String) :
    Except ε (List String) := do
  let out ← l.foldlM (fun sorted x => insertBack less x sorted) []
  .ok out.reverse

variable {l : List String} {less : String → String → Except ε Bool}

theorem insertBack_ends {x : String} (h : ∀ y ∈ l, Ends allowed (fun _ => True) (less x y)) :
    Ends allowed (fun out => out.Perm (x :: l)) (insertBack less x l) := by
  induction l with
  | nil => exact List.Perm.refl _
  | cons y ys ih =>
    rw [forall_mem_cons] at h
    refine h.1.bind fun b _ => ?_
    cases b with
    | false => exact List.Perm.refl _
    | true =>
      refine (ih h.2).bind fun out hout => ?_
      exact (hout.cons y).trans (List.Perm.swap x y ys)

theorem insertAll_ends (h : ∀ a ∈ l, ∀ b ∈ l, Ends allowed (fun _ => True) (less a b))
    (rest done : List String) (hl : l = done ++ rest) (sorted : List String) (hs : sorted.Perm done) :
    Ends allowed (fun out => out.Perm l) (rest.foldlM (fun sorted x => insertBack less x sorted) sorted) := by
  induction rest generalizing done sorted with
  | nil =>
    rw [append_nil] at hl
    rw [hl]
    exact hs
  | cons x rest ih =>
    have hx : x ∈ l := by simp [hl]
    have hmem : ∀ y ∈ sorted, y ∈ l := fun y hy => by
      rw [hl]
      exact mem_append_left _ (hs.subset hy)
    refine (insertBack_ends fun y hy => h x hx y (hmem y hy)).bind fun out hout => ?_
    refine ih (done ++ [x]) (by simp [hl]) out (hout.trans ?_)
    exact (hs.cons x).trans (perm_append_singleton x done).symm

def SliceSort.insertion (ε : Type) : SliceSort ε where
  sort := insertionSlice
  sort_ends less l allowed h := by
    refine (insertAll_ends h l [] rfl [] (List.Perm.refl _)).bind fun out hout => ?_
    exact (reverse_perm out).trans hout

end AciContainers.Outcomes
