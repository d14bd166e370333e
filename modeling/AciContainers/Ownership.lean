import Mathlib

/-!
# Exclusive ownership of the elements of a pool

Elements are free in a pool or given to an owner. A step that only shrinks the pool
and gives an owner elements that are neither left in the pool nor given to anybody
else keeps ownership exclusive. With several pools every element has a home, and one
owner's moves are followed against everything the other owners hold.
-/
namespace AciContainers.Ownership

variable {ι α : Type}

/-- No element is free and given, and none is given to two owners. -/
structure Exclusive (free : α → Prop) (given : ι → α → Prop) : Prop where
  apart : ∀ n x, given n x → ¬ free x
  unique : ∀ n m x, given n x → given m x → n = m

variable {free free' : α → Prop} {given given' : ι → α → Prop}

theorem Exclusive.give (h : Exclusive free given) (n : ι) (hfree : ∀ x, free' x → free x) (hgiven : ∀ m x, given' m x →
      given m x ∨ m = n ∧ ¬ free' x ∧ ∀ k, k ≠ n → ¬ given k x) : Exclusive free' given' where
  apart m x hx hf := by
    cases hgiven m x hx with
    | inl hold => exact h.apart m x hold (hfree x hf)
    | inr hnew => exact hnew.2.1 hf
  unique m k x hm hk := by
    cases hgiven m x hm with
    | inl hm =>
      cases hgiven k x hk with
      | inl hk => exact h.unique m k x hm hk
      | inr hk =>
        by_contra hne
        exact hk.2.2 m (fun he => hne (he.trans hk.1.symm)) hm
    | inr hm =>
      cases hgiven k x hk with
      | inl hk =>
        by_contra hne
        exact hm.2.2 k (fun he => hne (hm.1.trans he.symm)) hk
      | inr hk => exact hm.1.trans hk.1.symm

/-- Elements that leave the pool go to one owner. -/
theorem Exclusive.take (h : Exclusive free given) (n : ι) (hfree : ∀ x, free' x → free x)
    (hgiven : ∀ m x, given' m x → given m x ∨ m = n ∧ free x ∧ ¬ free' x) : Exclusive free' given' := by
  refine h.give n hfree ?_
  intro m x hx
  cases hgiven m x hx with
  | inl hold => exact Or.inl hold
  | inr hnew => exact Or.inr ⟨hnew.1, hnew.2.2, fun k _ hk => h.apart k x hk hnew.2.1⟩

/-- Every element of a pool is free in its home, held by one owner, or held by another one. -/
structure Accounts {π : Type} (home free : π → α → Prop) (held others : α → Prop) : Prop where
  homes : ∀ p q x, home p x → home q x → p = q
  home_of_free : ∀ p x, free p x → home p x
  free_apart : ∀ p x, free p x → ¬ held x ∧ ¬ others x
  held_apart : ∀ x, held x → ¬ others x
  home_of_held : ∀ x, held x → ∃ p, home p x
  all : ∀ p x, home p x → free p x ∨ held x ∨ others x

section Accounts

variable {π : Type} {home free free' : π → α → Prop} {held held' others : α → Prop}

theorem Accounts.congr (h : Accounts home free held others) (hf : ∀ p x, free' p x ↔ free p x)
    (hh : ∀ x, held' x ↔ held x) : Accounts home free' held' others := by
  have hfe : free' = free := funext fun p => funext fun x => propext (hf p x)
  have hhe : held' = held := funext fun x => propext (hh x)
  rwa [hfe, hhe]

variable {a : α} {p : π} (h : Accounts home free held others)
include h

/-- The owner takes a free element. -/
theorem Accounts.take (ha : free p a) (hf : ∀ q x, free' q x ↔ free q x ∧ ¬ (q = p ∧ x = a))
    (hh : ∀ x, held' x ↔ held x ∨ x = a) : Accounts home free' held' others where
  homes := h.homes
  home_of_free q x hx := h.home_of_free q x ((hf q x).mp hx).1
  free_apart q x hx := by
    obtain ⟨hfx, hne⟩ := (hf q x).mp hx
    refine ⟨?_, (h.free_apart q x hfx).2⟩
    intro hheld
    cases (hh x).mp hheld with
    | inl hheld => exact (h.free_apart q x hfx).1 hheld
    | inr he =>
      subst he
      exact hne ⟨h.homes q p x (h.home_of_free q x hfx) (h.home_of_free p x ha), rfl⟩
  held_apart x hx := by
    cases (hh x).mp hx with
    | inl hx => exact h.held_apart x hx
    | inr he => exact he ▸ (h.free_apart p a ha).2
  home_of_held x hx := by
    cases (hh x).mp hx with
    | inl hx => exact h.home_of_held x hx
    | inr he => exact ⟨p, he ▸ h.home_of_free p a ha⟩
  all q x hx := by
    by_cases he : x = a
    · exact Or.inr (Or.inl ((hh x).mpr (Or.inr he)))
    · refine (h.all q x hx).imp (fun hfx => (hf q x).mpr ⟨hfx, fun hb => he hb.2⟩) ?_
      exact Or.imp (fun hheld => (hh x).mpr (Or.inl hheld)) id

/-- The owner gives an element back to its home. -/
theorem Accounts.giveBack (ha : held a) (hp : home p a)
    (hf : ∀ q x, free' q x ↔ free q x ∨ q = p ∧ x = a) (hh : ∀ x, held' x ↔ held x ∧ x ≠ a) :
    Accounts home free' held' others where
  homes := h.homes
  home_of_free q x hx := by
    cases (hf q x).mp hx with
    | inl hx => exact h.home_of_free q x hx
    | inr he => exact he.1 ▸ he.2 ▸ hp
  free_apart q x hx := by
    cases (hf q x).mp hx with
    | inl hx => exact (h.free_apart q x hx).imp (fun hno hheld => hno ((hh x).mp hheld).1) id
    | inr he => exact ⟨fun hheld => ((hh x).mp hheld).2 he.2, he.2 ▸ h.held_apart a ha⟩
  held_apart x hx := h.held_apart x ((hh x).mp hx).1
  home_of_held x hx := h.home_of_held x ((hh x).mp hx).1
  all q x hx := by
    by_cases he : x = a
    · subst he
      exact Or.inl ((hf q x).mpr (Or.inr ⟨h.homes q p x hx hp, rfl⟩))
    · refine (h.all q x hx).imp (fun hfx => (hf q x).mpr (Or.inl hfx)) ?_
      exact Or.imp (fun hheld => (hh x).mpr ⟨hheld, he⟩) id

/-- The same holdings seen from another owner. -/
theorem Accounts.regroup {others' : α → Prop} (hall : ∀ x, held' x ∨ others' x ↔ held x ∨ others x)
    (hhome : ∀ x, held' x → ∃ p, home p x) (hapart : ∀ x, held' x → ¬ others' x) :
    Accounts home free held' others' where
  homes := h.homes
  home_of_free := h.home_of_free
  free_apart p x hx := by
    rw [← not_or, hall, not_or]
    exact h.free_apart p x hx
  held_apart := hapart
  home_of_held := hhome
  all p x hx := by
    rw [hall]
    exact h.all p x hx

omit h

end Accounts

end AciContainers.Ownership
