import Mathlib

/-!
# Runs of a state machine

A run is a list of events applied in order. A condition on single steps holds
along a run when every step meets it in the state where that step is taken; it
may speak about states that only this run reaches. `invariant_run` is the one
induction over runs: an invariant kept by every step that meets the condition
holds after every prefix of such a run.
-/
namespace AciContainers.Runs

variable {σ ε : Type}

def run (step : σ → ε → σ) (s : σ) (events : List ε) : σ := events.foldl step s

section

variable (step : σ → ε → σ)

@[simp] theorem run_nil (s : σ) : run step s [] = s := rfl
@[simp] theorem run_cons (s : σ) (e : ε) (events : List ε) :
    run step s (e :: events) = run step (step s e) events := rfl

theorem run_append (s : σ) (pre post : List ε) :
    run step s (pre ++ post) = run step (run step s pre) post := List.foldl_append

/-- Every event meets the condition in the state it is applied to. -/
def Along (step : σ → ε → σ) (ok : σ → ε → Prop) : σ → List ε → Prop
  | _, [] => True
  | s, e :: events => ok s e ∧ Along step ok (step s e) events

@[simp] theorem along_nil (ok : σ → ε → Prop) (s : σ) : Along step ok s [] := trivial
@[simp] theorem along_cons (ok : σ → ε → Prop) (s : σ) (e : ε) (events : List ε) :
    Along step ok s (e :: events) ↔ ok s e ∧ Along step ok (step s e) events := Iff.rfl

instance (step : σ → ε → σ) (ok : σ → ε → Prop) [∀ s e, Decidable (ok s e)] (s : σ)
    (events : List ε) : Decidable (Along step ok s events) :=
  match events with
  | [] => .isTrue trivial
  | e :: events =>
    have := instDecidableAlong step ok (step s e) events
    inferInstanceAs (Decidable (ok s e ∧ Along step ok (step s e) events))

theorem along_append (ok : σ → ε → Prop) (s : σ) (pre post : List ε) :
    Along step ok s (pre ++ post) ↔ Along step ok s pre ∧ Along step ok (run step s pre) post := by
  induction pre generalizing s with
  | nil => simp
  | cons e pre ih => simp [ih, and_assoc]

theorem along_of_forall {p : ε → Prop} (s : σ) {events : List ε} (h : ∀ e ∈ events, p e) :
    Along step (fun _ e => p e) s events := by
  induction events generalizing s with
  | nil => exact trivial
  | cons e events ih =>
    rw [List.forall_mem_cons] at h
    exact ⟨h.1, ih (step s e) h.2⟩

end

/-- What holds of every event may be used at its step. -/
theorem Along.and_mem {step : σ → ε → σ} {ok : σ → ε → Prop} {p : ε → Prop} {s : σ}
    {events : List ε} (h : Along step ok s events) (hp : ∀ e ∈ events, p e) :
    Along step (fun s e => ok s e ∧ p e) s events := by
  induction events generalizing s with
  | nil => exact trivial
  | cons e events ih =>
    rw [List.forall_mem_cons] at hp
    exact ⟨⟨h.1, hp.1⟩, ih h.2 hp.2⟩

variable {step : σ → ε → σ} {ok : σ → ε → Prop} {Inv : σ → Prop}

/-- The invariant rule for runs. -/
theorem invariant_run (hstep : ∀ s e, Inv s → ok s e → Inv (step s e)) (s : σ) (events : List ε)
    (hs : Inv s) (h : Along step ok s events) : Inv (run step s events) := by
  induction events generalizing s with
  | nil => exact hs
  | cons e events ih => exact ih (step s e) (hstep s e hs h.1) h.2

/-- The invariant rule for every state on the way. -/
theorem invariant_take (hstep : ∀ s e, Inv s → ok s e → Inv (step s e)) (s : σ) (events : List ε)
    (hs : Inv s) (h : Along step ok s events) (k : Nat) : Inv (run step s (events.take k)) := by
  rw [← List.take_append_drop k events, along_append] at h
  exact invariant_run hstep s _ hs h.1

end AciContainers.Runs
