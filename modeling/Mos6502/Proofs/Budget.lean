import Mos6502.Proofs.Slicing

namespace Mos6502

theorem readCost_le (source : Source) (r : Registers) (m : Memory) : source.readCost r m ≤ 6 := by
  cases source with
  | immediate => simp [Source.readCost]
  | cell l =>
    have hcarry := Bool.toNat_le (l.carries r m)
    cases l <;> simp only [Source.readCost] <;> omega

namespace Machine

variable {m : Machine} {budget : UInt32} {j k : Nat} {fault : Fault}

/-- A step that fails takes a cycle at least and one less than the longest instruction at most,
since only an operation that reads is ever refused. -/
theorem cycles_of_error (h : m.cpu.halted = none) (hf : m.step.1 = .error fault) :
    1 ≤ fault.cycles.toNat ∧ fault.cycles.toNat ≤ 6 := by
  rcases m.running_cases h with hi | ⟨i, hi, hr⟩ | ⟨i, hp⟩
  · rw [m.step_unknown h hi] at hf
    cases hf
    change 1 ≤ 1 ∧ 1 ≤ 6
    omega
  · have hcost := toNat_reported_cost hi
    have hleast := cost_ge i m.cpu.toRegisters m.memory
    rw [m.step_refused i h hi hr] at hf
    cases hf
    rw [hcost]
    cases i with
    | read op source => exact ⟨by omega, readCost_le source _ _⟩
    | _ => cases hr
  · rw [hp.step_eq] at hf
    cases hf

/-- Every step of a run takes seven cycles at most. -/
theorem Runs.spent_le (hk : m.Runs k) : m.spent k ≤ 7 * k := by
  induction k with
  | zero => exact Nat.le_of_eq m.spent_zero
  | succ k ih =>
    obtain ⟨used, ha⟩ := hk k (Nat.lt_succ_self k)
    obtain ⟨i, hp, hc, -⟩ := cost_of_ok ha
    have hcost := cost_le hp.current (m.after k).cpu.toRegisters (m.after k).memory
    have hprefix := ih hk.init
    rw [spent_succ, ha]
    change _ + used.toNat ≤ _
    omega

/-- A call leaves the memory and the registers that its steps leave. -/
theorem Slices.leaves (hk : m.Slices budget.toNat 0 k) (h : m.cpu.halted = none) :
    (m.execute budget).2.memory = (m.after k).memory ∧
      (m.execute budget).2.cpu.toRegisters = (m.after k).cpu.toRegisters := by
  have hexec := call_running (Burst.run budget.toNat) m h
  rw [← execute, hk.state] at hexec
  rw [hexec]
  exact ⟨rfl, rfl⟩

/-- A call that succeeds has come to the end of its budget, and answers what its steps took. -/
theorem Slices.of_ok {used : UInt32} (hk : m.Slices budget.toNat 0 k) (h : m.cpu.halted = none)
    (hu : (m.execute budget).1 = .ok used) :
    m.Reaches 0 budget.toNat budget.toNat k ∧ used = reported (m.spent k) := by
  have hspent : ((m.burst 0).run budget.toNat).2.spent = 0 + m.spent k := by rw [hk.state, burst]
  have hcases := hk.reaches_or_fails 0
  rw [execute, call_running _ m h] at hu
  simp only [Nat.zero_add] at hspent hcases
  rcases hcases with ⟨hreach, hn⟩ | ⟨j, fault, -, -, hf⟩
  · simp only [hn, hspent] at hu
    cases hu
    exact ⟨hreach, rfl⟩
  · simp only [hf] at hu
    cases hu

/-- A call that fails does so in its last step, with the cycles of all. -/
theorem Slices.of_error (hk : m.Slices budget.toNat 0 k) (h : m.cpu.halted = none)
    (hf : (m.execute budget).1 = .error fault) :
    ∃ j last, k = j + 1 ∧ m.Fails 0 budget.toNat j last ∧ fault.cycles = reported (m.spent k) := by
  have hcases := hk.reaches_or_fails 0
  rw [execute, call_running _ m h] at hf
  simp only [Nat.zero_add] at hcases
  rcases hcases with ⟨-, hn⟩ | ⟨j, last, hj, hfails, hlast⟩
  · simp only [hn] at hf
    cases hf
  · simp only [hlast] at hf
    cases hf
    exact ⟨j, last, hj, hfails, rfl⟩

/-- What a call with a budget comes to: it ends with the first step that spends the budget or
fails, after as many steps as the budget at most, and overruns by less than an instruction. -/
structure Spends (m : Machine) (budget : UInt32) (k : Nat) : Prop where
  least : IsLeast {k | m.Ends budget.toNat k} k
  steps_le : k ≤ budget.toNat
  memory : (m.execute budget).2.memory = (m.after k).memory
  registers : (m.execute budget).2.cpu.toRegisters = (m.after k).cpu.toRegisters
  idle : budget = 0 → m.execute budget = (.ok 0, m)
  bounds : ∀ used, (m.execute budget).1 = .ok used →
    budget.toNat ≤ used.toNat ∧ used.toNat ≤ budget.toNat + 6 ∧ (used = 0 ↔ budget = 0)
  counted : budget.toNat ≤ 2 ^ 32 - 7 → ∀ used, (m.execute budget).1 = .ok used →
    m.Runs k ∧ 2 * k ≤ used.toNat ∧ used.toNat ≤ 7 * k ∧
      ∀ j, k = j + 1 → m.spent j < budget.toNat
  failed : ∀ fault, (m.execute budget).1 = .error fault →
    1 ≤ fault.cycles.toNat ∧ fault.cycles.toNat ≤ budget.toNat + 5

theorem Slices.steps_le {budget : Nat} (hk : m.Slices budget 0 k) : k ≤ budget := by
  rcases hk.reaches_or_fails 0 with ⟨hreach, -⟩ | ⟨j, fault, rfl, hfails, -⟩
  · cases k with
    | zero => exact Nat.zero_le _
    | succ j =>
      have hleast := hreach.runs.init.le_spent (Nat.zero_le j)
      have hearly := hreach.early j (Nat.lt_succ_self j)
      omega
  · have hleast := hfails.runs.le_spent (Nat.zero_le j)
    have hearly := hfails.early
    omega

theorem execute_zero (h : m.cpu.halted = none) : m.execute 0 = (.ok 0, m) := by
  have htotal : m.cpu.totalCycles + (reported 0).toUInt64 = m.cpu.totalCycles := UInt64.add_zero _
  have hrun : (m.burst 0).run (UInt32.toNat 0) = (none, m.burst 0) := m.run_spent (Nat.le_refl 0)
  rw [execute, call_running _ m h, hrun]
  simp only [burst, htotal, ← h]
  rfl

/-- However close the budget is to the largest count, the clamped count is not below it. -/
theorem Slices.bounds {used : UInt32} (hk : m.Slices budget.toNat 0 k) (h : m.cpu.halted = none)
    (hu : (m.execute budget).1 = .ok used) :
    budget.toNat ≤ used.toNat ∧ used.toNat ≤ budget.toNat + 6 ∧ (used = 0 ↔ budget = 0) := by
  obtain ⟨hreach, rfl⟩ := hk.of_ok h hu
  have hbudget := budget.toNat_lt
  have hgoal := hreach.goal
  have hover := hreach.spent_le h (Nat.zero_le _)
  have hsteps := hk.steps_le
  have hmost := hreach.runs.spent_le
  have htold : (reported (m.spent k)).toNat = min (m.spent k) (2 ^ 32 - 1) := toNat_reported _
  refine ⟨by omega, by omega, ?_⟩
  rw [← UInt32.toNat_inj, ← UInt32.toNat_inj, htold]
  change _ = 0 ↔ _ = 0
  omega

theorem Slices.counted {used : UInt32} (hk : m.Slices budget.toNat 0 k) (h : m.cpu.halted = none)
    (hbudget : budget.toNat ≤ 2 ^ 32 - 7) (hu : (m.execute budget).1 = .ok used) :
    m.Runs k ∧ 2 * k ≤ used.toNat ∧ used.toNat ≤ 7 * k ∧
      ∀ j, k = j + 1 → m.spent j < budget.toNat := by
  obtain ⟨hreach, rfl⟩ := hk.of_ok h hu
  have hover := hreach.spent_le h (Nat.zero_le _)
  have htold : (reported (m.spent k)).toNat = min (m.spent k) (2 ^ 32 - 1) := toNat_reported _
  have hleast := hreach.runs.le_spent (Nat.zero_le k)
  have hmost := hreach.runs.spent_le
  refine ⟨hreach.runs, by omega, by omega, ?_⟩
  rintro j rfl
  have hearly := hreach.early j (Nat.lt_succ_self j)
  omega

theorem Slices.cycles_of_error (hk : m.Slices budget.toNat 0 k) (h : m.cpu.halted = none)
    (hf : (m.execute budget).1 = .error fault) :
    1 ≤ fault.cycles.toNat ∧ fault.cycles.toNat ≤ budget.toNat + 5 := by
  obtain ⟨j, last, rfl, hfails, hcycles⟩ := hk.of_error h hf
  have hlast := Machine.cycles_of_error (hfails.runs.running h) hfails.answer
  have hearly := hfails.early
  have hspent : m.spent (j + 1) = m.spent j + last.cycles.toNat := by
    rw [spent_succ, hfails.answer]
    rfl
  have htold : (reported (m.spent (j + 1))).toNat = min (m.spent (j + 1)) (2 ^ 32 - 1) :=
    toNat_reported _
  rw [hcycles]
  omega

/-- Every call of a running machine ends, whatever program runs and however it changes itself. -/
theorem execute_spends (m : Machine) (budget : UInt32) (h : m.cpu.halted = none) :
    ∃ k, m.Spends budget k := by
  obtain ⟨k, hk⟩ := exists_slices m h budget.toNat 0
  obtain ⟨hmemory, hregisters⟩ := hk.leaves h
  refine ⟨k, hk.least, hk.steps_le, hmemory, hregisters, ?_, fun used => hk.bounds h,
    fun hbudget used => hk.counted h hbudget, fun fault => hk.cycles_of_error h⟩
  rintro rfl
  exact execute_zero h

/-- A software interrupt overruns a budget of one cycle by six. -/
theorem execute_spends_overrun :
    ({} : Machine).cpu.halted = none ∧ (({} : Machine).execute 1).1 = .ok 7 ∧
      ({} : Machine).Spends 1 1 := by
  have hi : ({} : Machine).instruction = some .softwareInterrupt :=
    congrArg decode (Memory.read_zero _)
  have hp : ({} : Machine).Performs .softwareInterrupt := ⟨rfl, hi, rfl⟩
  have hok : (({} : Machine).execute 1).1 = .ok 7 := by
    rw [execute_one rfl, hp.step_eq]
    rfl
  obtain ⟨k, hk⟩ := execute_spends {} 1 rfl
  have hsteps : k ≤ 1 := hk.steps_le
  obtain ⟨-, -, hmost, -⟩ := hk.counted (by decide) 7 hok
  change 7 ≤ 7 * k at hmost
  obtain rfl : k = 1 := by omega
  exact ⟨rfl, hok, hk⟩

end Machine

end Mos6502
