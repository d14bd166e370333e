import AciContainers.Maps

/-!
# Replay of a log of changes

A log gives keys new values, or takes them away. Replayed over a map, the last entry of a key
decides; a key without an entry keeps what the map has.
-/
namespace AciContainers.Replay

open Maps

variable {κ ν : Type} [DecidableEq κ]

/-- The newest entry is last; `none` takes the key away. -/
abbrev Log (κ ν : Type) := List (κ × Option ν)

def assign (m : Map κ ν) (k : κ) (v : Option ν) : Map κ ν := fun i => if i = k then v else m i

variable (m : Map κ ν) (k : κ) (v : Option ν) (e : κ × Option ν) (log : Log κ ν)

@[simp] theorem assign_same : assign m k v k = v := if_pos rfl

theorem assign_other {k i : κ} (h : i ≠ k) : assign m k v i = m i := if_neg h

@[simp] theorem assign_assign : assign (assign m k v) k v = assign m k v := by
  funext i
  by_cases h : i = k
  · rw [h, assign_same, assign_same]
  · rw [assign_other _ _ h]

def replay (m : Map κ ν) (log : Log κ ν) : Map κ ν := log.foldl (fun m e => assign m e.1 e.2) m

@[simp] theorem replay_nil : replay m [] = m := rfl

@[simp] theorem replay_cons :
    replay m (e :: log) = replay (assign m e.1 e.2) log := rfl

theorem replay_append (log' : Log κ ν) :
    replay m (log ++ log') = replay (replay m log) log' := List.foldl_append

@[simp] theorem replay_snoc (e : κ × Option ν) :
    replay m (log ++ [e]) = assign (replay m log) e.1 e.2 := replay_append m log [e]

/-- The log has an entry of the key. -/
def Touches (log : Log κ ν) (k : κ) : Prop := k ∈ log.map Prod.fst

instance (log : Log κ ν) (k : κ) : Decidable (Touches log k) :=
  inferInstanceAs (Decidable (k ∈ log.map Prod.fst))

omit [DecidableEq κ] in
@[simp] theorem not_touches_nil : ¬ Touches ([] : Log κ ν) k := List.not_mem_nil

omit [DecidableEq κ] in
@[simp] theorem touches_cons (k : κ) : Touches (e :: log) k ↔ k = e.1 ∨ Touches log k := by
  simp [Touches]

omit [DecidableEq κ] in
@[simp] theorem touches_append (log' : Log κ ν) (k : κ) : Touches (log ++ log') k ↔ Touches log k ∨ Touches log' k := by
  simp [Touches]

theorem replay_of_not_touches {log : Log κ ν} {k : κ} (h : ¬ Touches log k) (m : Map κ ν) : replay m log k = m k := by
  induction log generalizing m with
  | nil => rfl
  | cons e log ih =>
    rw [touches_cons, not_or] at h
    rw [replay_cons, ih h.2, assign_other _ _ h.1]

/-- What a log says about a key of its own does not depend on the map. -/
theorem replay_of_touches {log : Log κ ν} {k : κ} (h : Touches log k) (m m' : Map κ ν) :
    replay m log k = replay m' log k := by
  induction log generalizing m m' with
  | nil => exact absurd h (not_touches_nil k)
  | cons e log ih =>
    by_cases hlater : Touches log k
    · exact ih hlater _ _
    · obtain rfl := ((touches_cons e log k).mp h).resolve_right hlater
      rw [replay_cons, replay_cons, replay_of_not_touches hlater, replay_of_not_touches hlater,
        assign_same, assign_same]

/-- A log that only says what a map has gives that map at the keys it has entries of. -/
theorem replay_of_agrees {log : Log κ ν} {g : Map κ ν} (h : ∀ e ∈ log, e.2 = g e.1) (m : Map κ ν) (k : κ) :
    replay m log k = if Touches log k then g k else m k := by
  induction log generalizing m with
  | nil => simp
  | cons e log ih =>
    rw [List.forall_mem_cons] at h
    rw [replay_cons, ih h.2]
    by_cases hlater : Touches log k
    · simp [hlater]
    · by_cases hk : k = e.1
      · subst hk
        simp [hlater, h.1]
      · simp [hlater, hk, assign_other]

/-- A map follows a log that says what the map has become where it has changed. -/
theorem replay_follows {log : Log κ ν} {m g : Map κ ν} (hagrees : ∀ e ∈ log, e.2 = g e.1)
    (hsame : ∀ k, ¬ Touches log k → g k = m k) : replay m log = g := by
  funext k
  rw [replay_of_agrees hagrees]
  split
  · rfl
  · rename_i htouch
    exact (hsame k htouch).symm

/-- A map that is overlaid by the values that another one has. -/
def overlay (m : Map κ ν) (d : Option (Option ν)) (k : κ) : Option ν := d.getD (m k)

end AciContainers.Replay
