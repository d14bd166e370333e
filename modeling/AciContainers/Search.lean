import Mathlib

/-!
# Binary search over an index range

The search of Go's `sort` package halves a range of indices and never looks at
the data itself, only at a Boolean predicate on indices. The predicate need not
be monotone: the boundary facts `search_true` and `search_false` hold for every
predicate, and monotonicity turns them into the exact split of a list.
-/
namespace AciContainers.Search

open List

/-- The halving loop on `[i, j)`. The fuel bounds the number of rounds. -/
def searchLoop (f : Nat → Bool) : Nat → Nat → Nat → Nat
  | 0, i, _ => i
  | fuel + 1, i, j =>
    if i < j then
      if f ((i + j) / 2) then searchLoop f fuel i ((i + j) / 2)
      else searchLoop f fuel ((i + j) / 2 + 1) j
    else i

def search (n : Nat) (f : Nat → Bool) : Nat := searchLoop f n 0 n

/-- The loop keeps `f (i - 1) = false` and `f j = true` for the two moving ends. -/
theorem searchLoop_spec (f : Nat → Bool) (fuel i j : Nat) (hij : i ≤ j) (hfuel : j - i ≤ fuel) :
    i ≤ searchLoop f fuel i j ∧ searchLoop f fuel i j ≤ j ∧
      (searchLoop f fuel i j = i ∨ f (searchLoop f fuel i j - 1) = false) ∧
      (searchLoop f fuel i j = j ∨ f (searchLoop f fuel i j)) := by
  induction fuel generalizing i j with
  | zero =>
    have he : i = j := by omega
    simp [searchLoop, he]
  | succ fuel ih =>
    by_cases hlt : i < j
    · cases hm : f ((i + j) / 2) with
      | true =>
        have h := ih i ((i + j) / 2) (by omega) (by omega)
        simp only [searchLoop, hlt, hm, ↓reduceIte]
        refine ⟨h.1, by omega, h.2.2.1, ?_⟩
        rcases h.2.2.2 with he | ht
        · exact Or.inr (by rw [he]; exact hm)
        · exact Or.inr ht
      | false =>
        have h := ih ((i + j) / 2 + 1) j (by omega) (by omega)
        simp only [searchLoop, hlt, hm, ↓reduceIte, Bool.false_eq_true]
        refine ⟨by omega, h.2.1, ?_, h.2.2.2⟩
        rcases h.2.2.1 with he | hf
        · exact Or.inr (by rw [he]; simpa using hm)
        · exact Or.inr hf
    · have he : i = j := by omega
      simp [searchLoop, he]

theorem search_le (n : Nat) (f : Nat → Bool) : search n f ≤ n :=
  (searchLoop_spec f n 0 n (by omega) (by omega)).2.1

theorem search_true (n : Nat) (f : Nat → Bool) (h : search n f < n) : f (search n f) := by
  rcases (searchLoop_spec f n 0 n (by omega) (by omega)).2.2.2 with he | ht
  · unfold search at h; omega
  · exact ht

theorem search_false (n : Nat) (f : Nat → Bool) (h : 0 < search n f) : f (search n f - 1) = false := by
  rcases (searchLoop_spec f n 0 n (by omega) (by omega)).2.2.1 with he | hf
  · unfold search at h; omega
  · exact hf

variable {α : Type}

/-- Search a list for the first element with `p`, as `sort.Search` sees it. -/
def searchBy (p : α → Bool) (l : List α) : Nat :=
  search l.length (fun i => (l[i]?.map p).getD true)

section

variable (p : α → Bool) (l : List α)

theorem searchBy_le : searchBy p l ≤ l.length := search_le _ _

theorem searchBy_true (a : α) (h : l[searchBy p l]? = some a) : p a := by
  have hlt : searchBy p l < l.length := (List.getElem?_eq_some_iff.mp h).1
  have ht := search_true l.length (fun i => (l[i]?.map p).getD true) hlt
  change ((l[searchBy p l]?.map p).getD true) at ht
  simpa [h] using ht

theorem searchBy_false (a : α) (hpos : 0 < searchBy p l) (h : l[searchBy p l - 1]? = some a) : p a = false := by
  have hf := search_false l.length (fun i => (l[i]?.map p).getD true) hpos
  change ((l[searchBy p l - 1]?.map p).getD true) = false at hf
  simpa [h] using hf

/-- A predicate that stays true along the list fails on everything before the hit. -/
theorem searchBy_take (hp : l.Pairwise (fun a b => p a → p b)) (a : α)
    (ha : a ∈ l.take (searchBy p l)) : p a = false := by
  obtain ⟨i, hi, hia⟩ := mem_iff_getElem.mp ha
  have hik : i < searchBy p l := by
    have h := hi
    rw [length_take] at h
    omega
  have hkl := searchBy_le p l
  have hlast : l[searchBy p l - 1]? = some l[searchBy p l - 1] := getElem?_eq_getElem (by omega)
  have hf := searchBy_false p l _ (by omega) hlast
  have hia' : l[i] = a := by simpa using hia
  cases hpa : p a with
  | false => rfl
  | true =>
    rcases Nat.lt_or_ge i (searchBy p l - 1) with hlt | hge
    · have hmono := pairwise_iff_getElem.mp hp i (searchBy p l - 1) (by omega) (by omega) hlt
      have := hmono (by rw [hia']; exact hpa)
      rw [hf] at this
      exact this.symm
    · have he : i = searchBy p l - 1 := by omega
      subst he
      rw [hia', hpa] at hf
      exact hf

/-- A predicate that stays true along the list holds from the hit on. -/
theorem searchBy_drop (hp : l.Pairwise (fun a b => p a → p b)) (a : α) (ha : a ∈ l.drop (searchBy p l)) : p a := by
  obtain ⟨i, hi, hia⟩ := mem_iff_getElem.mp ha
  rw [length_drop] at hi
  have hia' : l[searchBy p l + i] = a := by simpa using hia
  have hhit := searchBy_true p l _ (getElem?_eq_getElem (show searchBy p l < l.length by omega))
  cases i with
  | zero => rw [← hia']; exact hhit
  | succ i =>
    have hmono := pairwise_iff_getElem.mp hp (searchBy p l) (searchBy p l + (i + 1))
      (by omega) (by omega) (by omega)
    rw [← hia']
    exact hmono hhit

end

end AciContainers.Search
