import Mathlib

/-!
# Relations kept in both directions

A finite relation stored twice, once by row and once by column, with the agreement of
the two copies as a field. Replacing a row rewrites the columns it meets, and
replacing a column is the same operation on the transposed relation. A row changes
only by the elements in which a replaced column differs from the old one.
-/
namespace AciContainers.Relations

structure TwoWay (α β : Type) where
  rows : α → Finset β
  cols : β → Finset α
  agree : ∀ a b, b ∈ rows a ↔ a ∈ cols b

variable {α β : Type}

def TwoWay.empty : TwoWay α β := ⟨fun _ => ∅, fun _ => ∅, by simp⟩

def TwoWay.swap (t : TwoWay α β) : TwoWay β α := ⟨t.cols, t.rows, fun a b => (t.agree b a).symm⟩

variable [DecidableEq α] [DecidableEq β]

def TwoWay.setRow (t : TwoWay α β) (a : α) (s : Finset β) : TwoWay α β where
  rows x := if x = a then s else t.rows x
  cols b := if b ∈ s then insert a (t.cols b) else (t.cols b).erase a
  agree x b := by
    by_cases hx : x = a
    · by_cases hb : b ∈ s <;> simp [hx, hb]
    · by_cases hb : b ∈ s <;> simp [hx, hb, t.agree]

def TwoWay.setCol (t : TwoWay α β) (b : β) (s : Finset α) : TwoWay α β := (t.swap.setRow b s).swap

variable (t : TwoWay α β)

theorem setRow_rows (a x : α) (s : Finset β) :
    (t.setRow a s).rows x = if x = a then s else t.rows x := rfl

theorem setRow_cols (a : α) (s : Finset β) (b : β) :
    (t.setRow a s).cols b = if b ∈ s then insert a (t.cols b) else (t.cols b).erase a := rfl

theorem setCol_cols (b y : β) (s : Finset α) :
    (t.setCol b s).cols y = if y = b then s else t.cols y := rfl

theorem setCol_rows (b : β) (s : Finset α) (a : α) :
    (t.setCol b s).rows a = if a ∈ s then insert b (t.rows a) else (t.rows a).erase b := rfl

/-- A column that does not meet the difference of the old and the new row stays. -/
theorem setRow_cols_of_stable (a : α) (s : Finset β) {b : β} (h : b ∈ s ↔ b ∈ t.rows a) :
    (t.setRow a s).cols b = t.cols b := by
  rw [setRow_cols]
  by_cases hb : b ∈ s
  · rw [if_pos hb]
    exact Finset.insert_eq_self.mpr ((t.agree a b).mp (h.mp hb))
  · rw [if_neg hb]
    exact Finset.erase_eq_of_notMem fun ha => hb (h.mpr ((t.agree a b).mpr ha))

theorem setCol_rows_of_stable (b : β) (s : Finset α) {a : α} (h : a ∈ s ↔ a ∈ t.cols b) :
    (t.setCol b s).rows a = t.rows a := setRow_cols_of_stable t.swap b s h

end AciContainers.Relations
