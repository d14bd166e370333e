import AciContainers.Net

/-!
# SNAT port ranges

`ExpandPortRanges` of `pkg/util/snat.go` cuts the configured port range into ranges of
equal size, and the two readers of the operator's configuration decide which
configurations count. A size that is not positive is accepted by both, and cutting by it
does not end: that result is `none`.
-/
namespace AciContainers.Snat

open Net List Option

/-- Ports from `start` to `stop`, both included. -/
structure PortRange where
  start : Int
  stop : Int
  deriving DecidableEq

def PortRange.Contains (r : PortRange) (port : Int) : Prop := r.start ≤ port ∧ port ≤ r.stop

instance (r : PortRange) (port : Int) : Decidable (r.Contains port) :=
  inferInstanceAs (Decidable (_ ∧ _))

/-- The loop over one range. With a positive step it ends within as many turns as there
are ports, so a loop that has not ended by then does not end, short of an overflow of its
counter. -/
def expandRange (stop step : Int) : Nat → Int → Option (List PortRange)
  | 0, temp => if temp < stop - 1 then none else some []
  | fuel + 1, temp =>
    if temp < stop - 1 then
      (expandRange stop step fuel (temp + step)).map fun rest =>
        if temp + step - 1 ≤ stop - 1 then ⟨temp, temp + step - 1⟩ :: rest else rest
    else some []

def expandPortRanges (currPortRange : List PortRange) (step : Int) : Option (List PortRange) :=
  (currPortRange.mapM fun item =>
    expandRange item.stop step (item.stop - item.start).toNat item.start).map
      fun expanded => expanded.flatten.insertionSort fun a b => a.start ≤ b.start

/-- `strconv.Atoi` in 64 bits. -/
def atoi (s : String) : Option Int :=
  let signed (digits : List Char) (sign : Int) : Option Int :=
    (decimal digits).bind fun n =>
      let v := sign * (n : Int)
      if -2 ^ 63 ≤ v ∧ v < 2 ^ 63 then some v else none
  match s.toList with
  | '-' :: digits => signed digits (-1)
  | '+' :: digits => signed digits 1
  | digits => signed digits 1

/-- The data of the operator's config map; a missing key is the empty string. -/
structure ConfigData where
  start : String
  stop : String
  portsPerNode : String
  deriving DecidableEq

/-- The check that both readers make. -/
def acceptedConfig (data : ConfigData) : Option (PortRange × Int) := do
  let start ← atoi data.start
  let stop ← atoi data.stop
  let portsPerNode ← atoi data.portsPerNode
  if start < 5000 ∨ stop > 65000 ∨ start > stop ∨ portsPerNode > stop - start + 1 then none
  else some (⟨start, stop⟩, portsPerNode)

/-- `GetPortRangeFromConfigMap`, with the defaults for a missing or refused one. -/
def getPortRangeFromConfigMap (configMap : Option ConfigData) : PortRange × Int :=
  (configMap.bind acceptedConfig).getD (⟨5000, 65000⟩, 3000)

/-- The ranges that a policy gets under a configuration. -/
def configuredPorts (config : PortRange × Int) : Option (List PortRange) :=
  expandPortRanges [config.1] config.2

/-- Ranges of the list with different starts share no port. -/
def Apart (ports : List PortRange) : Prop :=
  ∀ r ∈ ports, ∀ s ∈ ports, r.start ≠ s.start → ∀ port, ¬ (r.Contains port ∧ s.Contains port)

/-- Every range lies on the grid of the step from the first port on. -/
theorem expandRange_grid (stop step : Int) (fuel : Nat) (temp : Int) (ports : List PortRange)
    (h : expandRange stop step fuel temp = some ports) :
    ∀ r ∈ ports, ∃ k : Nat, r = ⟨temp + k * step, temp + k * step + step - 1⟩ := by
  induction fuel generalizing temp ports with
  | zero =>
    rw [expandRange] at h
    split at h
    · simp at h
    · rw [← some.inj h]
      simp
  | succ fuel ih =>
    rw [expandRange] at h
    split at h
    · obtain ⟨rest, hrest, hports⟩ := map_eq_some_iff.mp h
      have hshift : ∀ r ∈ rest, ∃ k : Nat, r = ⟨temp + k * step, temp + k * step + step - 1⟩ := by
        intro r hr
        obtain ⟨k, hk⟩ := ih (temp + step) rest hrest r hr
        refine ⟨k + 1, ?_⟩
        have hcast : temp + step + (k : Int) * step = temp + ((k + 1 : Nat) : Int) * step := by
          push_cast
          ring
        rw [hk, hcast]
      split at hports
      · intro r hr
        rw [← hports] at hr
        cases mem_cons.mp hr with
        | inl he => exact ⟨0, by simp [he]⟩
        | inr hr => exact hshift r hr
      · rw [← hports]
        exact hshift
    · rw [← some.inj h]
      simp

variable {config : PortRange × Int} {ports : List PortRange}

theorem mem_configuredPorts (h : configuredPorts config = some ports) {r : PortRange} (hr : r ∈ ports) :
    ∃ k : Nat, r = ⟨config.1.start + k * config.2, config.1.start + k * config.2 + config.2 - 1⟩ := by
  simp only [configuredPorts, expandPortRanges, mapM_cons, mapM_nil] at h
  obtain ⟨expanded, hexp, hports⟩ := map_eq_some_iff.mp h
  simp only [Option.pure_def, Option.bind_eq_bind, Option.bind_some, Option.bind_eq_some_iff,
    Option.some.injEq] at hexp
  obtain ⟨ranges, hranges, hsingle⟩ := hexp
  rw [← hports, mem_insertionSort, ← hsingle] at hr
  simp only [flatten_cons, flatten_nil, append_nil] at hr
  exact expandRange_grid _ _ _ _ ranges hranges r hr

/-- Two blocks of a grid that share a point are the same block. -/
theorem grid_eq {a step x : Int} {j k : Nat} (hj : a + j * step ≤ x) (hj' : x ≤ a + j * step + step - 1)
    (hk : a + k * step ≤ x) (hk' : x ≤ a + k * step + step - 1) : a + j * step = a + k * step := by
  have hstep : 0 < step := by omega
  have hle : ∀ m n : Nat, m < n → (m : Int) * step + step ≤ n * step := by
    intro m n hmn
    have hcast : ((m : Int) + 1) ≤ n := by exact_mod_cast hmn
    have := mul_le_mul_of_nonneg_right hcast hstep.le
    linarith
  by_cases hlt : j < k
  · have := hle j k hlt
    omega
  by_cases hgt : k < j
  · have := hle k j hgt
    omega
  have heq : j = k := by omega
  rw [heq]

theorem apart_configuredPorts (h : configuredPorts config = some ports) : Apart ports := by
  intro r hr s hs hne port hboth
  obtain ⟨j, hj⟩ := mem_configuredPorts h hr
  obtain ⟨k, hk⟩ := mem_configuredPorts h hs
  subst hj hk
  exact hne (grid_eq hboth.1.1 hboth.1.2 hboth.2.1 hboth.2.2)

/-!
# How many port ranges a configuration gives

`ExpandPortRanges` keeps a range only if it ends before the last configured port, while
both readers of the configuration count that port in. A size that divides the number of
ports therefore loses its last range. For every other size the cut is the one expected.
-/

variable {temp step stop : Int}

/-- The first `n` blocks of the size `step`, from the port `temp` on. -/
def grid (temp step : Int) (n : Nat) : List PortRange :=
  (range n).map fun k : Nat => ⟨temp + k * step, temp + k * step + step - 1⟩

theorem grid_succ (temp step : Int) (n : Nat) :
    grid temp step (n + 1) = ⟨temp, temp + step - 1⟩ :: grid (temp + step) step n := by
  have hshift : ∀ k : Nat, temp + ((k + 1 : Nat) : Int) * step = temp + step + k * step := by
    intro k
    push_cast
    ring
  simp only [grid, range_succ_eq_map, map_cons, List.map_map]
  refine congrArg₂ cons (by simp) (List.map_congr_left fun k _ => ?_)
  simp only [Function.comp_apply, Nat.succ_eq_add_one, hshift]

theorem mem_grid {n : Nat} {r : PortRange} :
    r ∈ grid temp step n ↔ ∃ k < n, r = ⟨temp + k * step, temp + k * step + step - 1⟩ := by
  simp [grid, eq_comm]

/-- Of two blocks of a grid the earlier one ends before the later one starts. -/
theorem grid_ordered (hstep : 0 < step) (n : Nat) :
    (grid temp step n).Pairwise fun r s => r.start ≤ s.start ∧ r.stop < s.start := by
  refine pairwise_map.mpr (pairwise_lt_range.imp fun {j k} hjk => ?_)
  have hcast : (j : Int) + 1 ≤ k := by exact_mod_cast hjk
  have hmul := mul_le_mul_of_nonneg_right hcast hstep.le
  rw [add_mul, one_mul] at hmul
  simp only
  omega

/-- The number of ranges the loop keeps from the port `temp` on. -/
def kept (stop step temp : Int) : Nat :=
  if step = 1 then (stop - 1 - temp).toNat else ((stop - temp) / step).toNat

theorem kept_end (hstep : 0 < step) (h : ¬ temp < stop - 1) : kept stop step temp = 0 := by
  unfold kept
  split
  · omega
  · next hone =>
    rw [Int.toNat_eq_zero]
    exact Int.lt_add_one_iff.mp (Int.ediv_lt_of_lt_mul hstep (by omega))

theorem kept_short (hlt : temp < stop - 1) (h : ¬ temp + step - 1 ≤ stop - 1) : kept stop step temp = 0 := by
  unfold kept
  rw [if_neg (by omega), Int.ediv_eq_zero_of_lt (by omega) (by omega)]
  rfl

theorem kept_next (hstep : 0 < step) (hlt : temp < stop - 1) (h : temp + step - 1 ≤ stop - 1) :
    kept stop step temp = kept stop step (temp + step) + 1 := by
  unfold kept
  split
  · omega
  · have hsplit : stop - temp = stop - (temp + step) + 1 * step := by ring
    have hnonneg : 0 ≤ (stop - (temp + step)) / step := Int.ediv_nonneg (by omega) hstep.le
    rw [hsplit, Int.add_mul_ediv_right _ _ hstep.ne']
    omega

/-- With a positive size the loop ends, and it keeps a grid. -/
theorem expandRange_pos (hstep : 0 < step) (fuel : Nat) (temp : Int) (hfuel : (stop - temp).toNat ≤ fuel) :
    expandRange stop step fuel temp = some (grid temp step (kept stop step temp)) := by
  induction fuel generalizing temp with
  | zero =>
    have hend : ¬ temp < stop - 1 := by omega
    rw [expandRange, if_neg hend, kept_end hstep hend]
    rfl
  | succ fuel ih =>
    rw [expandRange]
    by_cases hlt : temp < stop - 1
    · rw [if_pos hlt, ih (temp + step) (by omega), Option.map_some]
      by_cases h : temp + step - 1 ≤ stop - 1
      · rw [if_pos h, kept_next hstep hlt h, grid_succ]
      · rw [if_neg h, kept_short hlt h, kept_end hstep (by omega)]
        rfl
    · rw [if_neg hlt, kept_end hstep hlt]
      rfl

theorem configuredPorts_eq (config : PortRange × Int) : configuredPorts config =
      (expandRange config.1.stop config.2 (config.1.stop - config.1.start).toNat config.1.start).map
        fun ports => ports.insertionSort fun a b => a.start ≤ b.start := by
  simp only [configuredPorts, expandPortRanges, mapM_cons, mapM_nil]
  cases expandRange config.1.stop config.2 (config.1.stop - config.1.start).toNat config.1.start with
  | none => rfl
  | some ports => simp

theorem configuredPorts_pos (hstep : 0 < config.2) : configuredPorts config =
      some (grid config.1.start config.2 (kept config.1.stop config.2 config.1.start)) := by
  rw [configuredPorts_eq, expandRange_pos hstep _ _ le_rfl, Option.map_some,
    ((grid_ordered hstep _).imp fun h => h.1).insertionSort_eq]

/-- The configured range cut into as many ranges of the given size as it has room for. -/
structure Cut (config : PortRange × Int) (ports : List PortRange) : Prop where
  nonzero : config.2 ≠ 0
  count : (ports.length : Int) = (config.1.stop - config.1.start + 1).fdiv config.2
  sorted : ports.Pairwise fun r s => r.start ≤ s.start
  disjoint : ports.Pairwise fun r s => ∀ port, ¬ (r.Contains port ∧ s.Contains port)
  size : ∀ r ∈ ports, r.stop - r.start + 1 = config.2
  inside : ∀ r ∈ ports, config.1.start ≤ r.start ∧ r.stop ≤ config.1.stop

/-- What `GetPortRangeFromConfigMap` returns or `snatCfgUpdate` lets through. -/
def Accepted (config : PortRange × Int) : Prop :=
  (∃ configMap, getPortRangeFromConfigMap configMap = config) ∨
    ∃ data, acceptedConfig data = some config

theorem acceptedConfig_range {data : ConfigData} (h : acceptedConfig data = some config) :
    config.1.start ≤ config.1.stop := by
  simp only [acceptedConfig, Option.bind_eq_bind, Option.bind_eq_some_iff] at h
  obtain ⟨start, -, stop, -, portsPerNode, -, h⟩ := h
  split at h
  · simp at h
  · next hok =>
    rw [← Option.some.inj h]
    simp only
    omega

theorem Accepted.range (h : Accepted config) : config.1.start ≤ config.1.stop := by
  rcases h with ⟨configMap, rfl⟩ | ⟨data, hdata⟩
  · unfold getPortRangeFromConfigMap
    cases hc : configMap.bind acceptedConfig with
    | none => decide
    | some config =>
      obtain ⟨data, -, hdata⟩ := Option.bind_eq_some_iff.mp hc
      exact acceptedConfig_range hdata
  · exact acceptedConfig_range hdata

/-- All that is missing from the cut is the last range, where it ends at the last port. -/
theorem kept_eq_iff {start : Int} (hstep : 0 < step) (hle : start ≤ stop) :
    (kept stop step start : Int) = (stop - start + 1) / step ↔ ¬ step ∣ stop - start + 1 := by
  unfold kept
  split
  · next hone =>
    subst hone
    omega
  · next hone =>
    have hnonneg : 0 ≤ (stop - start) / step := Int.ediv_nonneg (by omega) hstep.le
    rw [Int.toNat_of_nonneg hnonneg]
    constructor
    · rintro heq ⟨q, hq⟩
      rw [hq, Int.mul_ediv_cancel_left _ hstep.ne'] at heq
      have hlt : (stop - start) / step < q := Int.ediv_lt_of_lt_mul hstep (by rw [mul_comm]; omega)
      omega
    · intro hdvd
      refine le_antisymm (Int.ediv_le_ediv hstep (by omega)) (Int.le_ediv_of_mul_le hstep ?_)
      have hle' := Int.ediv_mul_le (stop - start + 1) hstep.ne'
      have hne : (stop - start + 1) / step * step ≠ stop - start + 1 :=
        fun he => hdvd (Dvd.intro_left _ he)
      omega

theorem cut_grid (hstep : 0 < config.2) (hle : config.1.start ≤ config.1.stop)
    (hdvd : ¬ config.2 ∣ config.1.stop - config.1.start + 1) :
    Cut config (grid config.1.start config.2 (kept config.1.stop config.2 config.1.start)) := by
  have hcount := (kept_eq_iff hstep hle).mpr hdvd
  have hmem : ∀ r ∈ grid config.1.start config.2 (kept config.1.stop config.2 config.1.start),
      config.1.start ≤ r.start ∧ r.stop ≤ config.1.stop := by
    intro r hr
    obtain ⟨k, hk, rfl⟩ := mem_grid.mp hr
    have hk' : (k : Int) + 1 ≤ (config.1.stop - config.1.start + 1) / config.2 := by omega
    have hmul := Int.mul_le_of_le_ediv hstep hk'
    have hnonneg : 0 ≤ (k : Int) * config.2 := mul_nonneg (by omega) hstep.le
    rw [add_mul, one_mul] at hmul
    simp only
    omega
  refine ⟨hstep.ne', ?_, (grid_ordered hstep _).imp fun h => h.1, ?_, ?_, hmem⟩
  · rw [Int.fdiv_eq_ediv_of_nonneg _ hstep.le, ← hcount]
    simp [grid]
  · refine (grid_ordered hstep _).imp fun {r s} h port hboth => ?_
    have h1 := hboth.1.2
    have h2 := hboth.2.1
    omega
  · intro r hr
    obtain ⟨k, -, rfl⟩ := mem_grid.mp hr
    simp only
    omega

/-- An accepted configuration is cut as expected exactly if the size is positive and does not
divide the number of ports. -/
theorem configuredPorts_cut_iff (config : PortRange × Int) (h : Accepted config) :
    (∃ ports, configuredPorts config = some ports ∧ Cut config ports) ↔
      0 < config.2 ∧ ¬ config.2 ∣ config.1.stop - config.1.start + 1 := by
  have hle := h.range
  constructor
  · rintro ⟨ports, hports, hcut⟩
    by_cases hstep : 0 < config.2
    · rw [configuredPorts_pos hstep, Option.some.injEq] at hports
      have hcount := hcut.count
      rw [← hports, Int.fdiv_eq_ediv_of_nonneg _ hstep.le] at hcount
      refine ⟨hstep, (kept_eq_iff hstep hle).mp ?_⟩
      rw [← hcount]
      simp [grid]
    · -- a floor of at least one port over a negative size is negative, a length is not
      have hneg : (config.1.stop - config.1.start + 1).fdiv config.2 < 0 := by
        rw [← Int.neg_fdiv_neg]
        exact Int.fdiv_neg_of_neg_of_pos (by omega) (by have := hcut.nonzero; omega)
      have hcount := hcut.count
      omega
  · rintro ⟨hstep, hdvd⟩
    exact ⟨_, configuredPorts_pos hstep, cut_grid hstep hle hdvd⟩

/-- The configuration that the controller falls back to is cut into twenty ranges. -/
theorem configuredPorts_cut_default : Accepted (⟨5000, 65000⟩, 3000) ∧
      ∃ ports, configuredPorts (⟨5000, 65000⟩, 3000) = some ports ∧ Cut (⟨5000, 65000⟩, 3000) ports := by
  have haccepted : Accepted (⟨5000, 65000⟩, 3000) := .inl ⟨none, rfl⟩
  exact ⟨haccepted, (configuredPorts_cut_iff _ haccepted).mpr ⟨by decide, by decide⟩⟩

/-- Two thousand ports in ranges of one thousand: the second range is missing. -/
theorem configuredPorts_cut_fails : acceptedConfig ⟨"5000", "6999", "1000"⟩ = some (⟨5000, 6999⟩, 1000) ∧
      configuredPorts (⟨5000, 6999⟩, 1000) = some [⟨5000, 5999⟩] ∧
      ¬ ∃ ports, configuredPorts (⟨5000, 6999⟩, 1000) = some ports ∧ Cut (⟨5000, 6999⟩, 1000) ports := by
  have hports : configuredPorts (⟨5000, 6999⟩, 1000) = some [⟨5000, 5999⟩] := by decide
  refine ⟨by decide, hports, ?_⟩
  rintro ⟨ports, hsome, hcut⟩
  rw [hports, Option.some.injEq] at hsome
  have hcount := hcut.count
  rw [← hsome] at hcount
  exact absurd hcount (by decide)

end AciContainers.Snat
