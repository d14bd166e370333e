import Mathlib

/-!
# Lists of closed intervals of natural numbers

A list of intervals stands for the set of numbers it covers. `absorb` grows one interval over
the successors it touches, `cut` takes a window out of one interval; both are exact on the
covered set and keep a list separated. Overlapping lists are allowed wherever only the order of
the lower ends matters.
-/
namespace AciContainers.Intervals

open List

@[ext] structure Iv where
  lo : Nat
  hi : Nat
  deriving DecidableEq

/-- Lists of items that are known by their intervals. -/
theorem map_inj_of {α : Type} {f : α → Iv} {p : α → Prop} (hinj : ∀ a b, p a → p b → f a = f b → a = b)
    {l m : List α} (hl : ∀ a ∈ l, p a) (hm : ∀ b ∈ m, p b) (h : l.map f = m.map f) : l = m := by
  induction l generalizing m with
  | nil => exact (map_eq_nil_iff.mp h.symm).symm
  | cons a l ih =>
    cases m with
    | nil => simp at h
    | cons b m =>
      rw [map_cons, map_cons, cons.injEq] at h
      rw [forall_mem_cons] at hl hm
      rw [hinj a b hl.1 hm.1 h.1, ih hl.2 hm.2 h.2]

def Iv.Has (r : Iv) (x : Nat) : Prop := r.lo ≤ x ∧ x ≤ r.hi

instance (r : Iv) (x : Nat) : Decidable (r.Has x) := inferInstanceAs (Decidable (_ ∧ _))

def Covers (l : List Iv) (x : Nat) : Prop := ∃ r ∈ l, r.Has x

def Proper (l : List Iv) : Prop := ∀ r ∈ l, r.lo ≤ r.hi

/-- Lower ends in nondecreasing order; overlaps are allowed. -/
def Ordered (l : List Iv) : Prop := l.Pairwise (fun a b => a.lo ≤ b.lo)

/-- Every interval ends before the next ones begin. -/
def Separated (l : List Iv) : Prop := l.Pairwise (fun a b => a.hi < b.lo)

@[simp] theorem covers_nil (x : Nat) : ¬ Covers [] x := by simp [Covers]
@[simp] theorem covers_cons (r : Iv) (l : List Iv) (x : Nat) :
    Covers (r :: l) x ↔ r.Has x ∨ Covers l x := by simp [Covers]
@[simp] theorem covers_append (l m : List Iv) (x : Nat) : Covers (l ++ m) x ↔ Covers l x ∨ Covers m x := by
  simp [Covers, or_and_right, exists_or]

@[simp] theorem proper_nil : Proper [] := by simp [Proper]
@[simp] theorem proper_cons (r : Iv) (l : List Iv) : Proper (r :: l) ↔ r.lo ≤ r.hi ∧ Proper l := by
  simp [Proper]
@[simp] theorem proper_append (l m : List Iv) : Proper (l ++ m) ↔ Proper l ∧ Proper m := by
  simp [Proper, or_imp, forall_and]

variable {l : List Iv}

theorem Separated.ordered (h : Separated l) (hp : Proper l) : Ordered l :=
  h.imp_of_mem (fun ha _ hab => le_trans (hp _ ha) (le_of_lt hab))

variable {r : Iv}

/-- A proper interval meets a window unless one ends before the other begins. -/
theorem Iv.meets_iff {s e : Nat} (hr : r.lo ≤ r.hi) (hse : s ≤ e) :
    (∃ x, r.Has x ∧ s ≤ x ∧ x ≤ e) ↔ r.lo ≤ e ∧ s ≤ r.hi := by
  constructor
  · rintro ⟨x, hx, hx'⟩
    simp only [Iv.Has] at hx
    omega
  · intro hm
    refine ⟨max r.lo s, ?_⟩
    simp only [Iv.Has]
    omega

/-- For proper intervals separation is strict order of the lower ends together with
the absence of a number in two intervals. -/
theorem separated_iff (hp : Proper l) : Separated l ↔ l.Pairwise (fun a b => a.lo < b.lo) ∧
      l.Pairwise (fun a b => ∀ x, a.Has x → ¬ b.Has x) := by
  constructor
  · intro h
    refine ⟨h.imp_of_mem (fun ha _ hab => lt_of_le_of_lt (hp _ ha) hab), h.imp ?_⟩
    intro a b hab x hx hx'
    have h₁ := hx.2
    have h₂ := hx'.1
    omega
  · rintro ⟨hlt, hdis⟩
    refine (hlt.and hdis).imp_of_mem ?_
    intro a b _ hb hab
    by_contra hge
    exact hab.2 b.lo ⟨by omega, by omega⟩ ⟨le_refl _, hp b hb⟩

variable {m : List Iv}

theorem separated_append : Separated (l ++ m) ↔ Separated l ∧ Separated m ∧ ∀ a ∈ l, ∀ b ∈ m, a.hi < b.lo :=
  pairwise_append

theorem separated_cons : Separated (r :: l) ↔ (∀ b ∈ l, r.hi < b.lo) ∧ Separated l := pairwise_cons

variable {x : Nat}

theorem Separated.lt_of_covers (h : Separated (r :: l)) (hx : Covers l x) : r.hi < x := by
  obtain ⟨c, hc, hx⟩ := hx
  exact lt_of_lt_of_le ((separated_cons.mp h).1 c hc) hx.1

/-- Without an interval of one number that number is gone. -/
theorem covers_tail (h : Separated (r :: l)) (hr : r.lo = r.hi) (x : Nat) :
    Covers l x ↔ Covers (r :: l) x ∧ x ≠ r.lo := by
  rw [covers_cons]
  constructor
  · intro hx
    have hlt := h.lt_of_covers hx
    exact ⟨Or.inr hx, by omega⟩
  · rintro ⟨hx | hx, hne⟩
    · simp only [Iv.Has] at hx
      omega
    · exact hx

/-- An interval that starts one later has lost its first number. -/
theorem covers_succ (h : Separated (r :: l)) (hr : r.lo < r.hi) (x : Nat) :
    Covers (⟨r.lo + 1, r.hi⟩ :: l) x ↔ Covers (r :: l) x ∧ x ≠ r.lo := by
  rw [covers_cons, covers_cons]
  constructor
  · rintro (hx | hx)
    · simp only [Iv.Has] at hx ⊢
      exact ⟨Or.inl (by omega), by omega⟩
    · have hlt := h.lt_of_covers hx
      exact ⟨Or.inr hx, by omega⟩
  · rintro ⟨hx | hx, hne⟩
    · left
      simp only [Iv.Has] at hx ⊢
      omega
    · exact Or.inr hx

theorem ordered_append : Ordered (l ++ m) ↔ Ordered l ∧ Ordered m ∧ ∀ a ∈ l, ∀ b ∈ m, a.lo ≤ b.lo :=
  pairwise_append

theorem ordered_cons : Ordered (r :: l) ↔ (∀ b ∈ l, r.lo ≤ b.lo) ∧ Ordered l := pairwise_cons

/-- Grow the first interval over every successor it overlaps or is adjacent to,
stopping at the first gap. -/
def absorb : Iv → List Iv → List Iv
  | a, [] => [a]
  | a, b :: l => if b.lo ≤ a.hi + 1 then absorb ⟨a.lo, max a.hi b.hi⟩ l else a :: b :: l

section

variable (a : Iv) (l : List Iv)

theorem covers_absorb (x : Nat) (hlo : ∀ b ∈ l, a.lo ≤ b.lo) : Covers (absorb a l) x ↔ a.Has x ∨ Covers l x := by
  induction l generalizing a with
  | nil => simp [absorb]
  | cons b l ih =>
    by_cases ht : b.lo ≤ a.hi + 1
    · have hb := hlo b (by simp)
      have h := ih ⟨a.lo, max a.hi b.hi⟩ (fun c hc => hlo c (mem_cons_of_mem _ hc))
      rw [absorb, if_pos ht, h, covers_cons, ← or_assoc]
      apply or_congr_left
      simp only [Iv.Has]
      omega
    · simp [absorb, ht]

theorem absorb_lo (hlo : ∀ b ∈ l, a.lo ≤ b.lo) : ∀ r ∈ absorb a l, a.lo ≤ r.lo := by
  induction l generalizing a with
  | nil => simp [absorb]
  | cons b l ih =>
    by_cases ht : b.lo ≤ a.hi + 1
    · rw [absorb, if_pos ht]
      exact ih ⟨a.lo, max a.hi b.hi⟩ (fun c hc => hlo c (mem_cons_of_mem _ hc))
    · rw [absorb, if_neg ht]
      intro r hr
      rcases mem_cons.mp hr with he | hr
      · rw [he]
      · exact hlo r hr

theorem proper_absorb (ha : a.lo ≤ a.hi) (hl : Proper l) : Proper (absorb a l) := by
  induction l generalizing a with
  | nil => simpa [absorb] using ha
  | cons b l ih =>
    rw [proper_cons] at hl
    by_cases ht : b.lo ≤ a.hi + 1
    · rw [absorb, if_pos ht]
      exact ih _ (by simp only; omega) hl.2
    · rw [absorb, if_neg ht]
      simp [ha, hl]

theorem ordered_absorb (h : Ordered (a :: l)) : Ordered (absorb a l) := by
  induction l generalizing a with
  | nil => simpa [absorb] using h
  | cons b l ih =>
    by_cases ht : b.lo ≤ a.hi + 1
    · rw [absorb, if_pos ht]
      apply ih
      rw [ordered_cons] at h ⊢
      exact ⟨fun c hc => h.1 c (mem_cons_of_mem _ hc), (ordered_cons.mp h.2).2⟩
    · rw [absorb, if_neg ht]
      exact h

/-- Whatever the first interval overlaps, the result is separated again. -/
theorem separated_absorb (hl : Separated l) (hp : Proper l) : Separated (absorb a l) := by
  induction l generalizing a with
  | nil => simp [absorb, Separated]
  | cons b l ih =>
    by_cases ht : b.lo ≤ a.hi + 1
    · rw [absorb, if_pos ht]
      exact ih _ (separated_cons.mp hl).2 (proper_cons b l |>.mp hp).2
    · rw [absorb, if_neg ht]
      refine separated_cons.mpr ⟨?_, hl⟩
      intro c hc
      rcases mem_cons.mp hc with he | hc
      · rw [he]; omega
      · have h₁ := (separated_cons.mp hl).1 c hc
        have h₂ := hp b (by simp)
        omega

end

/-- Run `absorb` from position `i` on. -/
def absorbAt (i : Nat) (l : List Iv) : List Iv :=
  match l.drop i with
  | [] => l
  | a :: rest => l.take i ++ absorb a rest

theorem absorbAt_append (pre : List Iv) (a : Iv) (post : List Iv) :
    absorbAt pre.length (pre ++ a :: post) = pre ++ absorb a post := by
  simp [absorbAt]

section

variable (i : Nat) (l : List Iv)

theorem absorbAt_cases :
    absorbAt i l = l ∨ ∃ pre a post, l = pre ++ a :: post ∧ absorbAt i l = pre ++ absorb a post := by
  unfold absorbAt
  split
  · exact Or.inl rfl
  · rename_i a rest he
    exact Or.inr ⟨l.take i, a, rest, by rw [← he, take_append_drop], rfl⟩

theorem covers_absorbAt (x : Nat) (h : Ordered l) : Covers (absorbAt i l) x ↔ Covers l x := by
  rcases absorbAt_cases i l with he | ⟨pre, a, post, hl, he⟩
  · rw [he]
  · subst hl
    have ho := (ordered_cons.mp (ordered_append.mp h).2.1).1
    rw [he, covers_append, covers_append, covers_absorb a post x ho, covers_cons]

theorem proper_absorbAt (h : Proper l) : Proper (absorbAt i l) := by
  rcases absorbAt_cases i l with he | ⟨pre, a, post, hl, he⟩
  · rwa [he]
  · subst hl
    rw [proper_append, proper_cons] at h
    rw [he, proper_append]
    exact ⟨h.1, proper_absorb a post h.2.1 h.2.2⟩

theorem ordered_absorbAt (h : Ordered l) : Ordered (absorbAt i l) := by
  rcases absorbAt_cases i l with he | ⟨pre, a, post, hl, he⟩
  · rwa [he]
  · subst hl
    obtain ⟨hpre, hrest, hcross⟩ := ordered_append.mp h
    rw [he]
    refine ordered_append.mpr ⟨hpre, ordered_absorb a post hrest, ?_⟩
    intro c hc b hb
    have hlo := absorb_lo a post (ordered_cons.mp hrest).1 b hb
    exact le_trans (hcross c hc a (by simp)) hlo

end

/-- Insert `a` between two list pieces and absorb from the interval before it. -/
def insertBetween (pre : List Iv) (a : Iv) (post : List Iv) : List Iv :=
  absorbAt (pre.length - 1) (pre ++ a :: post)

@[simp] theorem insertBetween_snoc (init : List Iv) (p a : Iv) (post : List Iv) :
    insertBetween (init ++ [p]) a post = init ++ absorb p (a :: post) := by
  have h := absorbAt_append init p (a :: post)
  simpa [insertBetween] using h

variable {post pre : List Iv} {a : Iv}

theorem ordered_insert (h : Ordered (pre ++ post)) (hpre : ∀ r ∈ pre, r.lo ≤ a.lo)
    (hpost : ∀ r ∈ post, a.lo ≤ r.lo) : Ordered (pre ++ a :: post) := by
  obtain ⟨h₁, h₂, h₃⟩ := ordered_append.mp h
  refine ordered_append.mpr ⟨h₁, ordered_cons.mpr ⟨hpost, h₂⟩, ?_⟩
  intro c hc b hb
  rcases mem_cons.mp hb with he | hb
  · rw [he]; exact hpre c hc
  · exact h₃ c hc b hb

/-- Insertion at its place in the order of lower ends is exact union. -/
theorem covers_insertBetween (h : Ordered (pre ++ post)) (hpre : ∀ r ∈ pre, r.lo ≤ a.lo)
    (hpost : ∀ r ∈ post, a.lo ≤ r.lo) (x : Nat) :
    Covers (insertBetween pre a post) x ↔ Covers (pre ++ post) x ∨ a.Has x := by
  rw [insertBetween, covers_absorbAt _ _ _ (ordered_insert h hpre hpost)]
  simp only [covers_append, covers_cons]
  tauto

/-- The absorbing pass leaves the inserted interval apart from its successor exactly when
it has no predecessor, touches it, or does not reach the successor. -/
def Settles (pre : List Iv) (a : Iv) (post : List Iv) : Prop :=
  (∀ p ∈ pre.getLast?, a.lo ≤ p.hi + 1) ∨ ∀ q ∈ post.head?, a.hi < q.lo

/-- An interval that ends before the first one of a separated list ends before them all. -/
theorem Separated.lt_of_lt_head {n : Nat} (h : Separated l) (hp : Proper l)
    (hn : ∀ q ∈ l.head?, n < q.lo) : ∀ b ∈ l, n < b.lo := by
  cases l with
  | nil => simp
  | cons q rest =>
    have hq : n < q.lo := hn q (by simp)
    have hqq : q.lo ≤ q.hi := hp q (by simp)
    intro b hb
    cases mem_cons.mp hb with
    | inl he => exact he ▸ hq
    | inr hb =>
      have hlt := (separated_cons.mp h).1 b hb
      omega

theorem separated_insertBetween (h : Separated (pre ++ post)) (hp : Proper (pre ++ post))
    (hpre : ∀ r ∈ pre, r.lo ≤ a.lo) (hs : Settles pre a post) : Separated (insertBetween pre a post) := by
  obtain ⟨h₁, h₂, h₃⟩ := separated_append.mp h
  obtain ⟨hp₁, hp₂⟩ := (proper_append pre post).mp hp
  rcases eq_nil_or_concat pre with he | ⟨init, p, he⟩
  · subst he
    exact separated_absorb a post h₂ hp₂
  · rw [concat_eq_append] at he
    subst he
    obtain ⟨hi₁, hi₂, hi₃⟩ := separated_append.mp h₁
    have hpp : p.lo ≤ p.hi := hp₁ p (by simp)
    have hpa : p.lo ≤ a.lo := hpre p (by simp)
    have hinit : ∀ c ∈ init, c.hi < p.lo := fun c hc => hi₃ c hc p (by simp)
    have hpost : ∀ b ∈ post, p.hi < b.lo := fun b hb => h₃ p (by simp) b hb
    rw [insertBetween_snoc]
    -- whatever stands behind `init` starts at the predecessor or later
    have hjoin : ∀ l : List Iv, Separated l → (∀ b ∈ l, p.lo ≤ b.lo) → Separated (init ++ l) :=
      fun l hl hlo => separated_append.mpr
        ⟨hi₁, hl, fun c hc b hb => lt_of_lt_of_le (hinit c hc) (hlo b hb)⟩
    by_cases ht : a.lo ≤ p.hi + 1
    · rw [absorb, if_pos ht]
      refine hjoin _ (separated_absorb _ post h₂ hp₂) (absorb_lo _ _ fun b hb => ?_)
      have hlt := hpost b hb
      simp only
      omega
    · have hnext : ∀ b ∈ post, a.hi < b.lo :=
        h₂.lt_of_lt_head hp₂ (hs.resolve_left fun hs => ht (hs p (by simp)))
      rw [absorb, if_neg ht]
      refine hjoin _ (separated_cons.mpr ⟨?_, separated_cons.mpr ⟨hnext, h₂⟩⟩) ?_
      · simp only [forall_mem_cons]
        exact ⟨by omega, hpost⟩
      · simp only [forall_mem_cons]
        exact ⟨le_refl _, hpa, fun b hb => le_trans hpp (le_of_lt (hpost b hb))⟩

/-- An insertion that does not settle leaves the successor's first number covered twice. -/
theorem settles_of_separated (h : Separated (insertBetween pre a post)) : Settles pre a post := by
  rcases eq_nil_or_concat pre with he | ⟨init, p, he⟩
  · exact Or.inl (by simp [he])
  · rw [concat_eq_append] at he
    subst he
    rw [insertBetween_snoc] at h
    by_cases ht : a.lo ≤ p.hi + 1
    · exact Or.inl (by simpa using ht)
    · rw [absorb, if_neg ht] at h
      have h' := (separated_cons.mp (separated_cons.mp (separated_append.mp h).2.1).2).1
      right
      intro q hq
      exact h' q (mem_of_mem_head? hq)

/-- What is left of an interval when the window `[s, e]` is taken out of it. -/
def cut (s e : Nat) (r : Iv) : List Iv :=
  (if r.lo < s then if s ≤ r.hi then [⟨r.lo, s - 1⟩] else [r] else []) ++
    (if e < r.hi then if r.lo ≤ e then [⟨e + 1, r.hi⟩] else [r] else [])

section Cut

variable {s e : Nat} (hse : s ≤ e)

include hse in
theorem covers_cut (r : Iv) (x : Nat) : Covers (cut s e r) x ↔ r.Has x ∧ ¬ (s ≤ x ∧ x ≤ e) := by
  unfold cut
  split <;> split <;> (try split) <;> (try split) <;>
    simp only [nil_append, append_nil, covers_append, covers_cons, covers_nil, Iv.Has,
      or_false, false_iff] <;> omega

theorem mem_cut {c : Iv} (hr : r.lo ≤ r.hi) (h : c ∈ cut s e r) : r.lo ≤ c.lo ∧ c.lo ≤ c.hi ∧ c.hi ≤ r.hi := by
  rcases mem_append.mp h with h | h
  · split at h
    · split at h
      · obtain rfl := mem_singleton.mp h
        simp only
        omega
      · obtain rfl := mem_singleton.mp h
        omega
    · simp at h
  · split at h
    · split at h
      · obtain rfl := mem_singleton.mp h
        simp only
        omega
      · obtain rfl := mem_singleton.mp h
        omega
    · simp at h

include hse in
theorem separated_cut (r : Iv) : Separated (cut s e r) := by
  unfold cut
  split <;> split <;> (try split) <;> (try split) <;>
    simp only [Separated, nil_append, append_nil, cons_append, pairwise_cons,
      mem_singleton, not_mem_nil, List.Pairwise.nil, forall_eq, false_imp_iff, implies_true, and_true] <;> omega

theorem cut_of_hi_lt (hr : r.lo ≤ r.hi) (hse : s ≤ e) (h : r.hi < s) : cut s e r = [r] := by
  have h₁ : r.lo < s := by omega
  have h₂ : ¬ s ≤ r.hi := by omega
  have h₃ : ¬ e < r.hi := by omega
  simp [cut, h₁, h₂, h₃]

theorem cut_of_lt_lo (hr : r.lo ≤ r.hi) (hse : s ≤ e) (h : e < r.lo) : cut s e r = [r] := by
  have h₁ : ¬ r.lo < s := by omega
  have h₂ : e < r.hi := by omega
  have h₃ : ¬ r.lo ≤ e := by omega
  simp [cut, h₁, h₂, h₃]

theorem length_cut_le (h : ¬ e < r.hi) : (cut s e r).length ≤ 1 := by
  unfold cut
  split
  · split <;> simp
  · simp

/-- Intervals apart from the window stay as they are. -/
theorem flatMap_cut_of_apart (hse : s ≤ e) (l : List Iv) (hp : Proper l)
    (h : ∀ r ∈ l, r.hi < s ∨ e < r.lo) : l.flatMap (cut s e) = l := by
  induction l with
  | nil => rfl
  | cons r l ih =>
    rw [proper_cons] at hp
    have hr : cut s e r = [r] := by
      rcases h r (by simp) with hlt | hlt
      · exact cut_of_hi_lt hp.1 hse hlt
      · exact cut_of_lt_lo hp.1 hse hlt
    rw [flatMap_cons, hr, ih hp.2 (fun c hc => h c (mem_cons_of_mem _ hc))]
    rfl

/-- Taking the window out of every interval is exact difference. -/
theorem covers_flatMap_cut (hse : s ≤ e) (l : List Iv) (x : Nat) :
    Covers (l.flatMap (cut s e)) x ↔ Covers l x ∧ ¬ (s ≤ x ∧ x ≤ e) := by
  induction l with
  | nil => simp
  | cons r l ih =>
    rw [flatMap_cons, covers_append, covers_cons, covers_cut hse, ih]
    tauto

theorem proper_flatMap_cut (l : List Iv) (h : Proper l) : Proper (l.flatMap (cut s e)) := by
  intro c hc
  obtain ⟨r, hr, hc⟩ := mem_flatMap.mp hc
  exact (mem_cut (h r hr) hc).2.1

theorem separated_flatMap_cut (hse : s ≤ e) (l : List Iv) (h : Separated l) (hp : Proper l) :
    Separated (l.flatMap (cut s e)) := by
  induction l with
  | nil => simp [Separated]
  | cons r l ih =>
    rw [proper_cons] at hp
    obtain ⟨hr, hl⟩ := separated_cons.mp h
    refine separated_append.mpr ⟨separated_cut hse r, ih hl hp.2, ?_⟩
    intro a ha b hb
    obtain ⟨r', hr', hb⟩ := mem_flatMap.mp hb
    have h₁ := mem_cut hp.1 ha
    have h₂ := mem_cut (hp.2 r' hr') hb
    have h₃ := hr r' hr'
    omega

end Cut

def Iv.size (r : Iv) : Nat := r.hi + 1 - r.lo

/-- The number of numbers that a separated list covers. -/
def size (l : List Iv) : Nat := (l.map Iv.size).sum

@[simp] theorem size_nil : size [] = 0 := rfl
@[simp] theorem size_cons (r : Iv) (l : List Iv) : size (r :: l) = r.size + size l := by simp [size]

theorem ncard_has (r : Iv) : {x | r.Has x}.ncard = r.size := by
  have hset : {x | r.Has x} = (Finset.Icc r.lo r.hi : Set Nat) := by
    ext x
    simp [Iv.Has]
  rw [hset, Set.ncard_coe_finset, Nat.card_Icc]
  rfl

theorem finite_covers (l : List Iv) : {x | Covers l x}.Finite := by
  refine (Set.finite_Iic (l.map Iv.hi).sum).subset ?_
  rintro x ⟨r, hr, hx⟩
  exact le_trans hx.2 (single_le_sum (by simp) _ (mem_map_of_mem hr))

theorem ncard_covers (h : Separated l) : {x | Covers l x}.ncard = size l := by
  induction l with
  | nil => simp
  | cons r l ih =>
    have hset : {x | Covers (r :: l) x} = {x | r.Has x} ∪ {x | Covers l x} := by
      ext x
      simp
    have hdis : Disjoint {x | r.Has x} {x | Covers l x} := by
      rw [Set.disjoint_left]
      intro x hx hl
      exact absurd hx.2 (not_le_of_gt (h.lt_of_covers hl))
    have hfin : {x | r.Has x}.Finite := (finite_covers [r]).subset fun x hx => ⟨r, by simp, hx⟩
    rw [hset, Set.ncard_union_eq hdis hfin (finite_covers l), ncard_has, ih (separated_cons.mp h).2, size_cons]

/-- Two lists without a common number, in one. -/
theorem size_union {l m u : List Iv} (hl : Separated l) (hm : Separated m) (hu : Separated u)
    (h : ∀ x, Covers u x ↔ Covers l x ∨ Covers m x) (hdis : ∀ x, Covers l x → ¬ Covers m x) :
    size u = size l + size m := by
  have hset : {x | Covers u x} = {x | Covers l x} ∪ {x | Covers m x} := by
    ext x
    exact h x
  have hd : Disjoint {x | Covers l x} {x | Covers m x} := Set.disjoint_left.mpr hdis
  rw [← ncard_covers hu, hset, Set.ncard_union_eq hd (finite_covers l) (finite_covers m), ncard_covers hl,
    ncard_covers hm]

/-- A list that covers one window more. -/
theorem size_add {l m : List Iv} {s e : Nat} (hl : Separated l) (hm : Separated m)
    (h : ∀ x, Covers m x ↔ Covers l x ∨ s ≤ x ∧ x ≤ e) (hdis : ∀ x, Covers l x → ¬ (s ≤ x ∧ x ≤ e)) :
    size m = size l + (e + 1 - s) := by
  have hone : ∀ x, Covers [⟨s, e⟩] x ↔ s ≤ x ∧ x ≤ e := by simp [Iv.Has]
  have hadd := @size_union l [⟨s, e⟩] m hl (pairwise_singleton _ _) hm (fun x => by rw [h, hone])
    fun x hx => mt (hone x).mp (hdis x hx)
  rw [hadd, size_cons, size_nil]
  rfl

/-- Nothing comes before the first interval. -/
theorem Separated.head_le (h : Separated (r :: l)) (hr : r.lo ≤ r.hi) (hx : Covers (r :: l) x) : r.lo ≤ x := by
  rcases (covers_cons r l x).mp hx with hx | hx
  · exact hx.1
  · exact le_of_lt (lt_of_le_of_lt hr (h.lt_of_covers hx))

/-!
# Aligned blocks

A block is an interval of `2 ^ k` numbers that starts at a multiple of `2 ^ k`. Going
through an interval and always taking the largest block that starts here and does not pass
the end is exact, takes at most two blocks of each size and is optimal.
-/

open Nat

def Aligned (r : Iv) : Prop := ∃ k, 2 ^ k ∣ r.lo ∧ r.hi + 1 = r.lo + 2 ^ k

/-- The block of `2 ^ k` numbers at `s` is aligned and ends by `e`. -/
def Fits (s e k : Nat) : Prop := 2 ^ k ∣ s ∧ s + 2 ^ k ≤ e + 1

theorem Fits.of_le {s e j k : Nat} (h : Fits s e k) (hjk : j ≤ k) : Fits s e j := by
  have hdvd : (2 : Nat) ^ j ∣ 2 ^ k := pow_dvd_pow 2 hjk
  have hle : (2 : Nat) ^ j ≤ 2 ^ k := Nat.pow_le_pow_right (by omega) hjk
  have hend := h.2
  exact ⟨hdvd.trans h.1, by omega⟩

/-- The block after the last one that fits is too large. -/
theorem exists_fits {s e : Nat} (h : s ≤ e) : ∃ k, Fits s e k ∧ ¬ Fits s e (k + 1) := by
  by_contra hno
  have hall : ∀ k, Fits s e k := by
    intro k
    induction k with
    | zero => exact ⟨by simp, by omega⟩
    | succ k ih => exact Classical.byContradiction fun hk => hno ⟨k, ih, hk⟩
  have hend := (hall (e + 1)).2
  have hlt : e + 1 < 2 ^ (e + 1) := Nat.lt_two_pow_self
  omega

/-- The blocks of the greedy choice. -/
inductive Greedy : Nat → Nat → List Iv → Prop
  | done {s e : Nat} : e < s → Greedy s e []
  | block {s e k : Nat} {l : List Iv} :
      Fits s e k → ¬ Fits s e (k + 1) → Greedy (s + 2 ^ k) e l → Greedy s e (⟨s, s + 2 ^ k - 1⟩ :: l)

theorem exists_greedy (s e : Nat) : ∃ l, Greedy s e l := by
  induction hn : e + 1 - s using Nat.strong_induction_on generalizing s with
  | h n ih =>
    by_cases hlt : e < s
    · exact ⟨[], .done hlt⟩
    · obtain ⟨k, hfits, hmax⟩ := exists_fits (Nat.le_of_not_lt hlt)
      have hpos : 0 < 2 ^ k := Nat.two_pow_pos k
      obtain ⟨l, hl⟩ := ih (e + 1 - (s + 2 ^ k)) (by omega) (s + 2 ^ k) rfl
      exact ⟨_, .block hfits hmax hl⟩

namespace Greedy

variable {s e : Nat}

section

variable (h : Greedy s e l)
include h

theorem covers (x : Nat) : Covers l x ↔ s ≤ x ∧ x ≤ e := by
  induction h with
  | done hlt =>
    simp only [covers_nil, false_iff]
    omega
  | @block s e k l hfits hmax hrest ih =>
    have hpos : 0 < 2 ^ k := Nat.two_pow_pos k
    have hend := hfits.2
    rw [covers_cons, ih, Iv.Has]
    dsimp only
    omega

theorem lo_ge : ∀ r ∈ l, s ≤ r.lo := by
  induction h with
  | done hlt => simp
  | @block s e k l hfits hmax hrest ih =>
    refine forall_mem_cons.mpr ⟨le_refl s, fun r hr => ?_⟩
    exact le_trans (le_add_right s _) (ih r hr)

theorem separated : Separated l := by
  induction h with
  | done hlt => exact List.Pairwise.nil
  | @block s e k l hfits hmax hrest ih =>
    have hpos : 0 < 2 ^ k := Nat.two_pow_pos k
    refine separated_cons.mpr ⟨fun r hr => ?_, ih⟩
    have hlo := hrest.lo_ge r hr
    dsimp only
    omega

/-- Once the end is nearer than the alignment of the start, the sizes go down. -/
theorem length_falling (k : Nat) (hdvd : 2 ^ k ∣ s) (hnear : e + 1 < s + 2 ^ k) : l.length ≤ k := by
  induction h generalizing k with
  | done hlt => simp
  | @block s e j l hfits hmax hrest ih =>
    have hj : j < k := by
      by_contra hge
      have hpow : (2 : Nat) ^ k ≤ 2 ^ j := Nat.pow_le_pow_right (by omega) (Nat.le_of_not_lt hge)
      have hend := hfits.2
      omega
    have hnext : (2 : Nat) ^ (j + 1) ∣ s := (pow_dvd_pow 2 hj).trans hdvd
    have hover : ¬ s + 2 ^ (j + 1) ≤ e + 1 := fun hle => hmax ⟨hnext, hle⟩
    have hlen := ih j (Dvd.dvd.add hfits.1 (dvd_refl _)) (by omega)
    rw [length_cons]
    omega

/-- Below `2 ^ m` at most `m` blocks grow with the alignment and at most `m` fall. -/
theorem length_rising {m : Nat} (hm : 1 ≤ m) (hbound : e < 2 ^ m) (j : Nat) (hj : j ≤ m)
    (hdvd : 2 ^ j ∣ s) : l.length ≤ (m - j) + m := by
  induction h generalizing j with
  | done hlt => simp
  | @block s e k l hfits hmax hrest ih =>
    have hend := hfits.2
    rw [length_cons]
    by_cases hnext : 2 ^ (k + 1) ∣ s
    · have hover : ¬ s + 2 ^ (k + 1) ≤ e + 1 := fun hle => hmax ⟨hnext, hle⟩
      have hlen := hrest.length_falling k (Dvd.dvd.add hfits.1 (dvd_refl _)) (by omega)
      have hk : k ≤ m := by
        by_contra hlt
        have hmore : (2 : Nat) ^ (m + 1) ≤ 2 ^ k := Nat.pow_le_pow_right (by omega) (by omega)
        omega
      by_cases hkm : k = m
      · -- the block is everything below `2 ^ m`, so nothing is left
        subst hkm
        have hnil : l = [] := by
          cases hrest with
          | done hlt => rfl
          | @block _ _ i _ hfits' _ _ =>
            have hmore := hfits'.2
            have hpos := Nat.two_pow_pos i
            omega
        simp [hnil]
        omega
      · omega
    · have hs : 2 ^ k ≤ s := by
        refine le_of_dvd (pos_of_ne_zero fun hzero => ?_) hfits.1
        exact hnext (by simp [hzero])
      have hkm : k < m := by
        by_contra hge
        have hpow : (2 : Nat) ^ m ≤ 2 ^ k := Nat.pow_le_pow_right (by omega) (Nat.le_of_not_lt hge)
        omega
      have hjk : j ≤ k := by
        by_contra hlt
        exact hnext ((pow_dvd_pow 2 (Nat.lt_of_not_le hlt)).trans hdvd)
      obtain ⟨c, hc⟩ := hfits.1
      have hodd : ¬ 2 ∣ c := by
        rintro ⟨d, rfl⟩
        exact hnext ⟨d, by rw [hc, pow_succ, mul_assoc]⟩
      have hstep : (2 : Nat) ^ (k + 1) ∣ s + 2 ^ k := by
        refine ⟨(c + 1) / 2, ?_⟩
        rw [hc, pow_succ, mul_assoc, show 2 * ((c + 1) / 2) = c + 1 by omega, mul_add, mul_one]
      have hlen := ih hbound (k + 1) hkm hstep
      omega

theorem length_le {m : Nat} (hm : 1 ≤ m) (hbound : e < 2 ^ m) : l.length ≤ 2 * m := by
  have hlen := h.length_rising hm hbound 0 (zero_le m) (by simp)
  omega

end

/-- A block that begins in the greedy one lies inside it. -/
theorem inside {k : Nat} {c : Iv} (hfits : Fits s e k) (hmax : ¬ Fits s e (k + 1)) (hc : Aligned c)
    (hlo : s ≤ c.lo) (hhi : c.hi ≤ e) (hbegin : c.lo < s + 2 ^ k) : c.hi < s + 2 ^ k := by
  obtain ⟨j, hdvd, hsize⟩ := hc
  by_cases hjk : j ≤ k
  · -- both ends are multiples of the smaller size
    have hpow : (2 : Nat) ^ j ∣ 2 ^ k := pow_dvd_pow 2 hjk
    have hend : 2 ^ j ∣ s + 2 ^ k := Dvd.dvd.add (hpow.trans hfits.1) hpow
    have hgap : 2 ^ j ≤ s + 2 ^ k - c.lo := le_of_dvd (by omega) (dvd_sub hend hdvd)
    omega
  · -- a larger block could only begin at `s`, where it would have been taken
    have hpow : (2 : Nat) ^ k ∣ 2 ^ j := pow_dvd_pow 2 (by omega)
    have hstart : c.lo = s := by
      by_contra hne
      have hgap : 2 ^ k ≤ c.lo - s := le_of_dvd (by omega) (dvd_sub (hpow.trans hdvd) hfits.1)
      omega
    rw [hstart] at hdvd hsize
    exact absurd (Fits.of_le ⟨hdvd, by omega⟩ (by omega)) hmax

/-- No list of blocks covers the interval with fewer of them. -/
theorem optimal (h : Greedy s e l) (c : List Iv) (hc : ∀ r ∈ c, Aligned r)
    (hcov : ∀ x, Covers c x ↔ s ≤ x ∧ x ≤ e) : l.length ≤ c.length := by
  induction h generalizing c with
  | done hlt => simp
  | @block s e k l hfits hmax hrest ih =>
    have hpos : 0 < 2 ^ k := Nat.two_pow_pos k
    have hend := hfits.2
    have hwithin : ∀ r ∈ c, s ≤ r.lo ∧ r.hi ≤ e := by
      intro r hr
      obtain ⟨j, -, hsize⟩ := hc r hr
      have hjpos := Nat.two_pow_pos j
      have hfirst := (hcov r.lo).mp ⟨r, hr, le_refl _, by omega⟩
      have hlast := (hcov r.hi).mp ⟨r, hr, by omega, le_refl _⟩
      exact ⟨hfirst.1, hlast.2⟩
    -- without the blocks that begin in the greedy one the rest is still covered
    have hlen := ih (c.filter fun r => s + 2 ^ k ≤ r.lo) (fun r hr => hc r (mem_of_mem_filter hr)) fun x => by
      constructor
      · rintro ⟨r, hr, hx⟩
        obtain ⟨hr, hlo⟩ := mem_filter.mp hr
        have hle := of_decide_eq_true hlo
        have hin := hwithin r hr
        exact ⟨le_trans hle hx.1, le_trans hx.2 hin.2⟩
      · rintro ⟨hlo, hhi⟩
        obtain ⟨r, hr, hx⟩ := (hcov x).mpr ⟨by omega, hhi⟩
        refine ⟨r, mem_filter.mpr ⟨hr, ?_⟩, hx⟩
        rw [decide_eq_true_eq]
        by_contra hbegin
        have hin := hwithin r hr
        have hlast := inside hfits hmax (hc r hr) hin.1 hin.2 (Nat.lt_of_not_le hbegin)
        have hxhi := hx.2
        omega
    have hdrop : (c.filter fun r => s + 2 ^ k ≤ r.lo).length < c.length := by
      obtain ⟨r, hr, hx⟩ := (hcov s).mpr ⟨le_refl s, by omega⟩
      refine length_filter_lt_length_iff_exists.mpr ⟨r, hr, ?_⟩
      have hlo := hx.1
      rw [decide_eq_true_eq]
      omega
    rw [length_cons]
    omega

end Greedy

end AciContainers.Intervals
