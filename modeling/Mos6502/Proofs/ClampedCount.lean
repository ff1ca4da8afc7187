import Mos6502.Proofs.Budget
import Mos6502.Proofs.Faults
import Mos6502.Proofs.Idle

namespace Mos6502

namespace Machine

variable {m : Machine} {budget used : UInt32} {k : Nat}

/-- What a call that succeeds tells of its cycles: all that its steps took, up to the largest count
of 32 bits. What is missing beyond that is less than an instruction. -/
structure Tells (m : Machine) (budget used : UInt32) (k : Nat) : Prop where
  least : IsLeast {k | m.Ends budget.toNat k} k
  runs : m.Runs k
  memory : (m.execute budget).2.memory = (m.after k).memory
  registers : (m.execute budget).2.cpu.toRegisters = (m.after k).cpu.toRegisters
  told : used.toNat = min (m.spent k) (2 ^ 32 - 1)
  counted : (m.execute budget).2.cpu.totalCycles.toNat = m.cpu.totalCycles.toNat + used.toNat
  exact : budget.toNat ≤ 2 ^ 32 - 7 → used.toNat = m.spent k
  missing : m.spent k ≤ used.toNat + 6

theorem Slices.tells (hk : m.Slices budget.toNat 0 k) (h : m.cpu.halted = none)
    (htotal : m.cpu.totalCycles.toNat + 2 ^ 33 < 2 ^ 64) (hu : (m.execute budget).1 = .ok used) :
    m.Tells budget used k := by
  obtain ⟨hmemory, hregisters⟩ := hk.leaves h
  have hcounter := totalCycles_execute h budget
  rw [hu] at hcounter
  obtain ⟨hreach, hused⟩ := hk.of_ok h hu
  have hover := hreach.spent_le h (Nat.zero_le _)
  have htold : used.toNat = min (m.spent k) (2 ^ 32 - 1) := by
    rw [hused]
    exact toNat_reported _
  refine ⟨hk.least, hreach.runs, hmemory, hregisters, htold, ?_, ?_, ?_⟩
  · have hused_lt := used.toNat_lt
    have hfits : m.cpu.totalCycles.toNat + used.toNat < 2 ^ 64 := by omega
    rw [hcounter]
    exact toNat_add_cycles hfits
  · intro hbudget
    omega
  · have hbudget := budget.toNat_lt
    omega

/-- A call that succeeds answers the cycles that its steps took, and adds them to the counter. Only a
call whose last instruction leads beyond the largest count answers that count instead. -/
theorem execute_tells (m : Machine) (budget used : UInt32) (h : m.cpu.halted = none)
    (htotal : m.cpu.totalCycles.toNat + 2 ^ 33 < 2 ^ 64) (hu : (m.execute budget).1 = .ok used) :
    ∃ k, m.Tells budget used k := by
  obtain ⟨k, hk⟩ := exists_slices m h budget.toNat 0
  exact ⟨k, hk.tells h htotal hu⟩

/-- The count is exact with the largest budget that is a number of rounds of the loop. -/
theorem execute_tells_largest :
    loopMachine.cpu.halted = none ∧ loopMachine.cpu.totalCycles.toNat + 2 ^ 33 < 2 ^ 64 ∧
      (loopMachine.execute 0xFFFFFFFC).1 = .ok 0xFFFFFFFC ∧
      ∃ k, loopMachine.Tells 0xFFFFFFFC 0xFFFFFFFC k := by
  have hok : (loopMachine.execute 0xFFFFFFFC).1 = .ok 0xFFFFFFFC := by
    rw [idles_loopMachine.execute_eq]
    rfl
  exact ⟨rfl, by decide, hok, loopMachine.execute_tells _ _ rfl (by decide) hok⟩

/-- With the largest budget the last instruction goes one cycle beyond the largest count. -/
theorem execute_clamps :
    loopMachine.cpu.halted = none ∧ loopMachine.cpu.totalCycles.toNat + 2 ^ 33 < 2 ^ 64 ∧
      ∃ used : UInt32, (loopMachine.execute 0xFFFFFFFF).1 = .ok used ∧
      ∃ k, IsLeast {k | loopMachine.Ends (UInt32.toNat 0xFFFFFFFF) k} k ∧ loopMachine.Runs k ∧
        used.toNat ≠ loopMachine.spent k ∧
        (loopMachine.execute 0xFFFFFFFF).2.cpu.totalCycles.toNat ≠
          loopMachine.cpu.totalCycles.toNat + loopMachine.spent k := by
  have hok : (loopMachine.execute 0xFFFFFFFF).1 = .ok 0xFFFFFFFF := by
    rw [idles_loopMachine.execute_eq]
    rfl
  obtain ⟨k, hk⟩ := exists_slices loopMachine rfl (UInt32.toNat 0xFFFFFFFF) 0
  have htells := hk.tells rfl (by decide) hok
  have hgoal := (hk.of_ok rfl hok).1.goal
  have hspent := idles_loopMachine.spent_eq k
  have hcounted := htells.counted
  change UInt32.toNat 0xFFFFFFFF ≤ 0 + _ at hgoal
  have hlargest : UInt32.toNat 0xFFFFFFFF = 2 ^ 32 - 1 := by decide
  -- the cycles come in fours, and the budget is one less than a multiple of four
  have hmore : UInt32.toNat 0xFFFFFFFF ≠ loopMachine.spent k := by omega
  refine ⟨rfl, by decide, 0xFFFFFFFF, hok, k, hk.least, htells.runs, hmore, ?_⟩
  rw [hcounted]
  omega

end Machine

end Mos6502
