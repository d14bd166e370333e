import Mathlib

/-!
# Walking two sorted lists side by side

`align` goes through two lists with one cursor in each and compares what the cursors are
at: the smaller element is passed alone, equal ones are passed together, and what is left
of either list at the end is passed alone. On lists that are sorted by a key it pairs up
exactly the elements of the same key.
-/
namespace AciContainers.Merge

open List

variable {α β γ κ : Type}

inductive Pairing (α β : Type) where
  | left (a : α)
  | right (b : β)
  | both (a : α) (b : β)

def Pairing.mapLeft (f : α → γ) : Pairing α β → Pairing γ β
  | .left a => .left (f a)
  | .right b => .right b
  | .both a b => .both (f a) b

def Pairing.second : Pairing α β → List β
  | .left _ => []
  | .right b => [b]
  | .both _ b => [b]

/-- The walk through the second list while the first cursor is at one element. -/
def alignOne (cmp : α → β → Ordering) (a : α) (rest : List β → List (Pairing α β)) :
    List β → List (Pairing α β)
  | [] => .left a :: rest []
  | b :: bs =>
    match cmp a b with
    | .lt => .left a :: rest (b :: bs)
    | .gt => .right b :: alignOne cmp a rest bs
    | .eq => .both a b :: rest bs

def align (cmp : α → β → Ordering) : List α → List β → List (Pairing α β)
  | [], bs => bs.map .right
  | a :: as, bs => alignOne cmp a (align cmp as) bs

theorem align_map (cmp : γ → β → Ordering) (f : α → γ) (as : List α) (bs : List β) :
    align cmp (as.map f) bs = (align (fun a => cmp (f a)) as bs).map (Pairing.mapLeft f) := by
  induction as generalizing bs with
  | nil =>
    simp only [map_nil, align, map_map]
    rfl
  | cons a as ih =>
    simp only [map_cons, align]
    induction bs with
    | nil => simp [alignOne, Pairing.mapLeft, ih]
    | cons b bs ihb =>
      rw [alignOne, alignOne]
      cases cmp (f a) b with
      | lt => simp [Pairing.mapLeft, ih]
      | gt => simp [Pairing.mapLeft, ihb]
      | eq => simp [Pairing.mapLeft, ih]

/-- Aligned with itself, a list pairs every element with itself. -/
theorem align_self (cmp : α → α → Ordering) (as : List α) (h : ∀ a ∈ as, cmp a a = .eq) :
    align cmp as as = as.map fun a => .both a a := by
  induction as with
  | nil => rfl
  | cons a as ih =>
    rw [align, alignOne, h a mem_cons_self, map_cons]
    rw [ih fun b hb => h b (mem_cons_of_mem _ hb)]

section

variable (cmp : α → β → Ordering) (as : List α) (bs : List β)

/-- What the second cursor passes is the second list. -/
theorem align_second : (align cmp as bs).flatMap Pairing.second = bs := by
  induction as generalizing bs with
  | nil =>
    rw [align, flatMap_map]
    exact flatMap_singleton' bs
  | cons a as ih =>
    rw [align]
    induction bs with
    | nil => simp [alignOne, Pairing.second, ih]
    | cons b bs ihb =>
      rw [alignOne]
      cases cmp a b with
      | lt => simp [Pairing.second, ih]
      | gt => simp [Pairing.second, ihb]
      | eq => simp [Pairing.second, ih]

theorem mem_align_left {a : α} (ha : a ∈ as) : .left a ∈ align cmp as bs ∨ ∃ b, .both a b ∈ align cmp as bs := by
  induction as generalizing bs with
  | nil => exact absurd ha not_mem_nil
  | cons a' as ih =>
    rw [align]
    rcases mem_cons.mp ha with rfl | ha
    · induction bs with
      | nil => exact Or.inl mem_cons_self
      | cons b bs ihb =>
        rw [alignOne]
        cases cmp a b with
        | lt => exact Or.inl mem_cons_self
        | gt => simpa using ihb
        | eq => exact Or.inr ⟨b, mem_cons_self⟩
    · induction bs with
      | nil => simpa [alignOne, ha] using Or.imp_left Or.inr (ih [] ha)
      | cons b bs ihb =>
        rw [alignOne]
        cases cmp a' b with
        | lt => simpa using Or.imp_left Or.inr (ih (b :: bs) ha)
        | gt => simpa using ihb
        | eq => simpa using (ih bs ha).imp id fun ⟨b', hb'⟩ => ⟨b', Or.inr hb'⟩

theorem mem_align_right {b : β} (hb : b ∈ bs) : .right b ∈ align cmp as bs ∨ ∃ a, .both a b ∈ align cmp as bs := by
  induction as generalizing bs with
  | nil => exact Or.inl (mem_map_of_mem hb)
  | cons a as ih =>
    rw [align]
    induction bs with
    | nil => exact absurd hb not_mem_nil
    | cons b' bs ihb =>
      rw [alignOne]
      cases cmp a b' with
      | lt => simpa using ih (b' :: bs) hb
      | gt =>
        rcases mem_cons.mp hb with rfl | hb
        · exact Or.inl mem_cons_self
        · simpa using (ihb hb).imp_left (Or.inr (a := b = b'))
      | eq =>
        rcases mem_cons.mp hb with rfl | hb
        · exact Or.inr ⟨a, mem_cons_self⟩
        · simpa using (ih bs hb).imp id fun ⟨a', ha'⟩ => ⟨a', Or.inr ha'⟩

end

/-- What is passed is of the lists, and what is passed together compares equal. -/
theorem mem_of_align {cmp : α → β → Ordering} {as : List α} {bs : List β} {x : Pairing α β} (h : x ∈ align cmp as bs) :
    (∀ a, x = .left a → a ∈ as) ∧ ∀ a b, x = .both a b → a ∈ as ∧ b ∈ bs ∧ cmp a b = .eq := by
  induction as generalizing bs with
  | nil =>
    obtain ⟨_, -, rfl⟩ := mem_map.mp h
    simp
  | cons a' as ih =>
    rw [align] at h
    induction bs with
    | nil =>
      rcases mem_cons.mp h with rfl | h
      · simp
      · exact (ih h).imp (fun hl a ha => mem_cons_of_mem _ (hl a ha)) fun hb a b hx =>
          absurd (hb a b hx).2.1 not_mem_nil
    | cons b' bs ihb =>
      rw [alignOne] at h
      cases hcmp : cmp a' b' <;> simp only [hcmp, mem_cons] at h <;> rcases h with rfl | h
      · simp
      · have hrest := ih h
        grind
      · simp [hcmp]
      · have hrest := ih h
        grind
      · simp
      · have hrest := ihb h
        grind

theorem mem_of_align_both {cmp : α → β → Ordering} {as : List α} {bs : List β} {a : α} {b : β}
    (h : .both a b ∈ align cmp as bs) : a ∈ as ∧ b ∈ bs ∧ cmp a b = .eq := (mem_of_align h).2 a b rfl

theorem mem_of_align_left {cmp : α → β → Ordering} {as : List α} {bs : List β} {a : α}
    (h : .left a ∈ align cmp as bs) : a ∈ as := (mem_of_align h).1 a rfl

/-- Where the first parts of both lists are before the second parts, the walk goes through the
first parts and then through the second ones. -/
theorem align_append (cmp : α → β → Ordering) (as as' : List α) (bs bs' : List β)
    (hlt : ∀ a ∈ as, ∀ b ∈ bs', cmp a b = .lt) (hgt : ∀ a ∈ as', ∀ b ∈ bs, cmp a b = .gt) :
    align cmp (as ++ as') (bs ++ bs') = align cmp as bs ++ align cmp as' bs' := by
  induction as generalizing bs with
  | nil =>
    induction bs with
    | nil => rfl
    | cons b bs ihb =>
      have hrest := ihb fun a ha b' hb' => hgt a ha b' (mem_cons_of_mem _ hb')
      rw [nil_append, align] at hrest
      rw [nil_append, align, map_cons, cons_append, cons_append, ← hrest]
      cases as' with
      | nil => rfl
      | cons a' as' => rw [align, alignOne, hgt a' mem_cons_self b mem_cons_self]; rfl
  | cons a as ih =>
    have hlt' : ∀ a ∈ as, ∀ b ∈ bs', cmp a b = .lt :=
      fun a' ha' => hlt a' (mem_cons_of_mem _ ha')
    rw [cons_append, align, align]
    induction bs with
    | nil =>
      have hrest := ih [] hlt' hgt
      rw [nil_append] at hrest ⊢
      rw [alignOne, cons_append, ← hrest]
      cases bs' with
      | nil => rfl
      | cons b' bs' => rw [alignOne, hlt a mem_cons_self b' mem_cons_self]
    | cons b bs ihb =>
      have hgt' : ∀ a ∈ as', ∀ b ∈ bs, cmp a b = .gt :=
        fun a' ha' b' hb' => hgt a' ha' b' (mem_cons_of_mem _ hb')
      rw [cons_append, alignOne, alignOne]
      cases cmp a b with
      | lt => rw [cons_append, ← ih (b :: bs) hlt' hgt]; rfl
      | gt => rw [cons_append, ← ihb hgt']
      | eq => rw [cons_append, ← ih bs hlt' hgt']

section Sorted

variable [LinearOrder κ] (keyL : α → κ) (keyR : β → κ)

/-- A pairing says where its elements come from and whether they have a partner. -/
def Fits (as : List α) (bs : List β) : Pairing α β → Prop
  | .left a => a ∈ as ∧ ∀ b ∈ bs, keyR b ≠ keyL a
  | .right b => b ∈ bs ∧ ∀ a ∈ as, keyL a ≠ keyR b
  | .both a b => a ∈ as ∧ b ∈ bs ∧ keyL a = keyR b

variable {keyL keyR} {as : List α} {bs : List β} {x : Pairing α β} (h : Fits keyL keyR as bs x)
include h

theorem Fits.consLeft {a : α} (ha : ∀ b ∈ bs, keyL a < keyR b) : Fits keyL keyR (a :: as) bs x := by
  cases x with
  | left a' => exact ⟨mem_cons_of_mem _ h.1, h.2⟩
  | right b => exact ⟨h.1, forall_mem_cons.mpr ⟨(ha b h.1).ne, h.2⟩⟩
  | both a' b => exact ⟨mem_cons_of_mem _ h.1, h.2⟩

theorem Fits.consRight {b : β} (hb : ∀ a ∈ as, keyR b < keyL a) : Fits keyL keyR as (b :: bs) x := by
  cases x with
  | left a => exact ⟨h.1, forall_mem_cons.mpr ⟨(hb a h.1).ne, h.2⟩⟩
  | right b' => exact ⟨mem_cons_of_mem _ h.1, h.2⟩
  | both a b' => exact ⟨h.1, mem_cons_of_mem _ h.2.1, h.2.2⟩

theorem Fits.consBoth {a : α} {b : β} (ha : ∀ b' ∈ bs, keyL a < keyR b')
    (hb : ∀ a' ∈ as, keyR b < keyL a') : Fits keyL keyR (a :: as) (b :: bs) x := by
  cases x with
  | left a' =>
    exact ⟨mem_cons_of_mem _ h.1, forall_mem_cons.mpr ⟨(hb a' h.1).ne, h.2⟩⟩
  | right b' =>
    exact ⟨mem_cons_of_mem _ h.1, forall_mem_cons.mpr ⟨(ha b' h.1).ne, h.2⟩⟩
  | both a' b' => exact ⟨mem_cons_of_mem _ h.1, mem_cons_of_mem _ h.2.1, h.2.2⟩

omit h

/-- The pairings of sorted lists are those of the keys. -/
theorem fits_align (has : as.Pairwise fun a a' => keyL a < keyL a') (hbs : bs.Pairwise fun b b' => keyR b < keyR b') :
    ∀ x ∈ align (fun a b => cmp (keyL a) (keyR b)) as bs, Fits keyL keyR as bs x := by
  induction as generalizing bs with
  | nil =>
    intro x hx
    obtain ⟨b, hb, rfl⟩ := mem_map.mp hx
    exact ⟨hb, fun a ha => absurd ha not_mem_nil⟩
  | cons a as ih =>
    obtain ⟨ha, has⟩ := pairwise_cons.mp has
    rw [align]
    induction bs with
    | nil =>
      intro x hx
      rcases mem_cons.mp hx with rfl | hx
      · exact ⟨mem_cons_self, fun b hb => absurd hb not_mem_nil⟩
      · exact (ih has List.Pairwise.nil x hx).consLeft fun b hb => absurd hb not_mem_nil
    | cons b bs ihb =>
      obtain ⟨hb, hbs'⟩ := pairwise_cons.mp hbs
      intro x hx
      rw [alignOne] at hx
      cases hcmp : cmp (keyL a) (keyR b) with
      | lt =>
        have hab : keyL a < keyR b := cmp_eq_lt_iff _ _ |>.mp hcmp
        have hlt : ∀ b' ∈ b :: bs, keyL a < keyR b' :=
          forall_mem_cons.mpr ⟨hab, fun b' hb' => hab.trans (hb b' hb')⟩
        simp only [hcmp] at hx
        rcases mem_cons.mp hx with rfl | hx
        · exact ⟨mem_cons_self, fun b' hb' => (hlt b' hb').ne'⟩
        · exact (ih has hbs x hx).consLeft hlt
      | gt =>
        have hba : keyR b < keyL a := cmp_eq_gt_iff _ _ |>.mp hcmp
        have hlt : ∀ a' ∈ a :: as, keyR b < keyL a' :=
          forall_mem_cons.mpr ⟨hba, fun a' ha' => hba.trans (ha a' ha')⟩
        simp only [hcmp] at hx
        rcases mem_cons.mp hx with rfl | hx
        · exact ⟨mem_cons_self, fun a' ha' => (hlt a' ha').ne'⟩
        · exact (ihb hbs' x hx).consRight hlt
      | eq =>
        have hab : keyL a = keyR b := cmp_eq_eq_iff _ _ |>.mp hcmp
        simp only [hcmp] at hx
        rcases mem_cons.mp hx with rfl | hx
        · exact ⟨mem_cons_self, mem_cons_self, hab⟩
        · exact (ih has hbs' x hx).consBoth (fun b' hb' => hab ▸ hb b' hb')
            fun a' ha' => hab ▸ ha a' ha'

end Sorted

end AciContainers.Merge
