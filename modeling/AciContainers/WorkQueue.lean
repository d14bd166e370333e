import Mathlib

/-!
# A work queue with delayed entries

The queue of `k8s.io/client-go/util/workqueue`. An item is in line at most once: while it is
worked on, adding it only marks it, and it is put in line again when the worker is done with
it. An item added with a delay waits beside the line until it is ready. That a marked item is
never forgotten is part of the type.
-/
namespace AciContainers

open Finset

variable {α : Type} [DecidableEq α]

structure WorkQueue (α : Type) [DecidableEq α] where
  queue : List α
  dirty : Finset α
  processing : Finset α
  waiting : Finset α
  kept : ∀ x ∈ dirty, x ∈ queue ∨ x ∈ processing

namespace WorkQueue

variable {q q' : WorkQueue α} {x item : α}

def empty : WorkQueue α := ⟨[], ∅, ∅, ∅, fun _ h => absurd h (notMem_empty _)⟩

def add (q : WorkQueue α) (item : α) : WorkQueue α where
  queue := if item ∈ q.dirty ∨ item ∈ q.processing then q.queue else q.queue ++ [item]
  dirty := insert item q.dirty
  processing := q.processing
  waiting := q.waiting
  kept := by
    intro x hx
    rcases mem_insert.mp hx with rfl | hx
    · by_cases h : x ∈ q.dirty ∨ x ∈ q.processing
      · rw [if_pos h]
        exact h.elim (q.kept x) .inr
      · rw [if_neg h]
        exact .inl List.mem_concat_self
    · refine (q.kept x hx).imp_left fun h => ?_
      split
      · exact h
      · exact List.mem_append_left _ h

def get (q : WorkQueue α) : Option (α × WorkQueue α) :=
  match h : q.queue with
  | [] => none
  | item :: rest => some (item, {
      queue := rest
      dirty := q.dirty.erase item
      processing := insert item q.processing
      waiting := q.waiting
      kept := by
        intro x hx
        obtain ⟨hne, hx⟩ := mem_erase.mp hx
        rcases q.kept x hx with hq | hp
        · rw [h] at hq
          exact .inl ((List.mem_cons.mp hq).resolve_left hne)
        · exact .inr (mem_insert_of_mem hp) })

def done (q : WorkQueue α) (item : α) : WorkQueue α where
  queue := if item ∈ q.dirty then q.queue ++ [item] else q.queue
  dirty := q.dirty
  processing := q.processing.erase item
  waiting := q.waiting
  kept := by
    intro x hx
    by_cases hxi : x = item
    · subst hxi
      rw [if_pos hx]
      exact .inl List.mem_concat_self
    · refine (q.kept x hx).imp (fun h => ?_) fun h => mem_erase.mpr ⟨hxi, h⟩
      split
      · exact List.mem_append_left _ h
      · exact h

/-- Adds an item with a delay. -/
def addAfter (q : WorkQueue α) (item : α) : WorkQueue α :=
  { q with waiting := insert item q.waiting }

/-- The delay of an item is over. -/
def ready (q : WorkQueue α) (item : α) : WorkQueue α :=
  if item ∈ q.waiting then add { q with waiting := q.waiting.erase item } item else q

/-- The item will be worked on again, whatever the worker does now. -/
def Owes (q : WorkQueue α) (x : α) : Prop := x ∈ q.dirty ∨ x ∈ q.waiting

def HasEntry (q : WorkQueue α) (x : α) : Prop :=
  x ∈ q.queue ∨ x ∈ q.processing ∨ x ∈ q.waiting

instance (q : WorkQueue α) (x : α) : Decidable (q.Owes x) :=
  inferInstanceAs (Decidable (_ ∨ _))

instance (q : WorkQueue α) (x : α) : Decidable (q.HasEntry x) :=
  inferInstanceAs (Decidable (_ ∨ _))

theorem Owes.hasEntry (h : q.Owes x) : q.HasEntry x := by
  rcases h with h | h
  · exact (q.kept x h).imp_right .inl
  · exact .inr (.inr h)

@[simp] theorem owes_add : (q.add item).Owes x ↔ x = item ∨ q.Owes x := by
  simp [Owes, add, or_assoc]

@[simp] theorem owes_addAfter : (q.addAfter item).Owes x ↔ x = item ∨ q.Owes x := by
  simp only [Owes, addAfter, mem_insert]
  tauto

@[simp] theorem owes_ready : (q.ready item).Owes x ↔ q.Owes x := by
  unfold ready
  split
  · next hw =>
    rw [owes_add]
    simp only [Owes, mem_erase]
    by_cases h : x = item
    · subst h
      simp [hw]
    · simp [h]
  · rfl

theorem get_eq (h : q.get = some (item, q')) :
    q'.dirty = q.dirty.erase item ∧ q'.processing = insert item q.processing ∧ q'.waiting = q.waiting := by
  unfold get at h
  split at h
  · exact nomatch h
  · cases h
    exact ⟨rfl, rfl, rfl⟩

/-- Taking an item keeps what is owed to the others. -/
theorem Owes.get (h : q.get = some (item, q')) (hx : q.Owes x) (hne : x ≠ item) : q'.Owes x := by
  obtain ⟨hd, -, hw⟩ := get_eq h
  rw [Owes, hd, hw]
  exact hx.imp_left fun hx => mem_erase.mpr ⟨hne, hx⟩

@[simp] theorem processing_ready (q : WorkQueue α) (item : α) : (q.ready item).processing = q.processing := by
  unfold ready
  split <;> rfl

end WorkQueue

end AciContainers
