import Mathlib

/-!
# Finite maps as functions

A map gives each key a value or nothing. Iteration over a map is never a function
of the map alone, so code that iterates takes the order as an argument.
-/
namespace AciContainers.Maps

open List

abbrev Map (κ ν : Type) := κ → Option ν

variable {κ ν : Type} [DecidableEq κ]

def Map.empty : Map κ ν := fun _ => none

def Map.put (m : Map κ ν) (k : κ) (v : ν) : Map κ ν := fun i => if i = k then some v else m i

def Map.erase (m : Map κ ν) (k : κ) : Map κ ν := fun i => if i = k then none else m i

omit [DecidableEq κ] in
@[simp] theorem empty_apply (k : κ) : (Map.empty : Map κ ν) k = none := rfl

@[simp] theorem put_same (m : Map κ ν) (k : κ) (v : ν) : m.put k v k = some v := by simp [Map.put]

variable {k : κ}

theorem put_other (m : Map κ ν) {i : κ} (v : ν) (h : i ≠ k) : m.put k v i = m i := by
  simp [Map.put, h]

@[simp] theorem erase_same (m : Map κ ν) (k : κ) : m.erase k k = none := by simp [Map.erase]

theorem erase_other (m : Map κ ν) {i : κ} (h : i ≠ k) : m.erase k i = m i := by
  simp [Map.erase, h]

theorem put_of_eq {m : Map κ ν} {v : ν} (h : m k = some v) : m.put k v = m := by
  funext i
  by_cases hi : i = k
  · rw [hi, put_same, h]
  · rw [put_other _ _ hi]

theorem erase_of_eq {m : Map κ ν} (h : m k = none) : m.erase k = m := by
  funext i
  by_cases hi : i = k
  · rw [hi, erase_same, h]
  · rw [erase_other _ hi]

theorem bind_put {α : Type} (m : Map κ ν) (k : κ) (v : ν) (i : κ) (g : ν → Option α) :
    (m.put k v i).bind g = if i = k then g v else (m i).bind g := by
  by_cases h : i = k <;> simp [Map.put, h]

theorem bind_erase {α : Type} (m : Map κ ν) (k i : κ) (g : ν → Option α) :
    (m.erase k i).bind g = if i = k then none else (m i).bind g := by
  by_cases h : i = k <;> simp [Map.erase, h]

/-- The order in which a loop over a map visits its keys. -/
structure RangeOrder (κ : Type) where
  visit : Finset κ → List κ
  nodup : ∀ keys, (visit keys).Nodup
  mem_visit : ∀ keys k, k ∈ visit keys ↔ k ∈ keys

theorem RangeOrder.toFinset_visit (order : RangeOrder κ) (keys : Finset κ) : (order.visit keys).toFinset = keys := by
  ext k
  rw [mem_toFinset, order.mem_visit]

def RangeOrder.sorted {κ : Type} [LinearOrder κ] : RangeOrder κ where
  visit keys := Quot.liftOn keys.val (insertionSort (· ≤ ·)) fun l l' h =>
    ((perm_insertionSort _ l).trans (h.trans (perm_insertionSort _ l').symm)).eq_of_pairwise
      (fun _ _ _ _ => le_antisymm) (pairwise_insertionSort _ l) (pairwise_insertionSort _ l')
  nodup keys := by
    rcases keys with ⟨⟨l⟩, h⟩
    exact (perm_insertionSort _ l).nodup_iff.mpr h
  mem_visit keys k := by
    rcases keys with ⟨⟨l⟩, h⟩
    exact mem_insertionSort _

noncomputable def RangeOrder.chosen (κ : Type) : RangeOrder κ :=
  ⟨Finset.toList, Finset.nodup_toList, fun _ _ => Finset.mem_toList⟩

variable {α : Type} (key : α → κ)

/-- `GetByKey`. -/
def getByKey (objs : List α) (k : κ) : Option α := objs.find? fun o => key o = k

def setByKey (objs : List α) (o : α) : List α := o :: objs.filter fun x => key x ≠ key o

def removeByKey (objs : List α) (k : κ) : List α := objs.filter fun x => key x ≠ k

variable {key} {o : α} {objs : List α}

theorem key_of_getByKey (h : getByKey key objs k = some o) : key o = k := by
  simpa using find?_some h

theorem mem_of_getByKey (h : getByKey key objs k = some o) : o ∈ objs :=
  mem_of_find?_eq_some h

theorem getByKey_eq_some_iff (hnodup : (objs.map key).Nodup) : getByKey key objs k = some o ↔ o ∈ objs ∧ key o = k := by
  refine ⟨fun h => ⟨mem_of_getByKey h, key_of_getByKey h⟩, ?_⟩
  rintro ⟨hmem, hkey⟩
  cases hget : getByKey key objs k with
  | none =>
    have hno := find?_eq_none.mp hget o hmem
    simp [hkey] at hno
  | some o' =>
    have hkey' : key o' = key o := by rw [key_of_getByKey hget, hkey]
    rw [inj_on_of_nodup_map hnodup (mem_of_getByKey hget) hmem hkey']

theorem mem_setByKey {x : α} : x ∈ setByKey key objs o ↔ x = o ∨ (x ∈ objs ∧ key x ≠ key o) := by
  simp [setByKey]

theorem mem_removeByKey {x : α} : x ∈ removeByKey key objs k ↔ x ∈ objs ∧ key x ≠ k := by
  simp [removeByKey]

theorem exists_mem_setByKey {i : κ} : (∃ x ∈ setByKey key objs o, key x = i) ↔ i = key o ∨ ∃ x ∈ objs, key x = i := by
  grind [mem_setByKey]

theorem exists_mem_removeByKey {i : κ} : (∃ x ∈ removeByKey key objs k, key x = i) ↔ i ≠ k ∧ ∃ x ∈ objs, key x = i := by
  grind [mem_removeByKey]

theorem nodup_removeByKey (h : (objs.map key).Nodup) (k : κ) : ((removeByKey key objs k).map key).Nodup :=
  h.sublist (filter_sublist.map key)

theorem nodup_setByKey (h : (objs.map key).Nodup) (o : α) : ((setByKey key objs o).map key).Nodup := by
  have htail : ((objs.filter fun x => key x ≠ key o).map key).Nodup := nodup_removeByKey h (key o)
  have hhead : key o ∉ (objs.filter fun x => key x ≠ key o).map key := by simp
  exact nodup_cons.mpr ⟨hhead, htail⟩

theorem getByKey_removeByKey (objs : List α) (k i : κ) :
    getByKey key (removeByKey key objs k) i = if i = k then none else getByKey key objs i := by
  unfold getByKey removeByKey
  rw [find?_filter]
  by_cases hi : i = k
  · rw [if_pos hi, find?_eq_none]
    simp [hi]
  · rw [if_neg hi]
    congr 1
    funext o
    by_cases ho : key o = i
    · simp [ho, hi]
    · simp [ho]

@[simp] theorem getByKey_setByKey_same (objs : List α) (o : α) :
    getByKey key (setByKey key objs o) (key o) = some o := by
  simp [getByKey, setByKey]

theorem getByKey_setByKey_other (objs : List α) (h : k ≠ key o) :
    getByKey key (setByKey key objs o) k = getByKey key objs k := by
  have hne : ¬ key o = k := fun e => h e.symm
  have hr := @getByKey_removeByKey κ _ α key objs (key o) k
  simpa [getByKey, setByKey, removeByKey, hne, h] using hr

/-- A change that keeps the keys is a change of what is found. -/
theorem getByKey_map {f : α → α} (hf : ∀ o, key (f o) = key o) (objs : List α) (k : κ) :
    getByKey key (objs.map f) k = (getByKey key objs k).map f := by
  simp [getByKey, find?_map, hf]

end AciContainers.Maps
