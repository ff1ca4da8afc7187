import Mathlib.Algebra.BigOperators.Group.Finset.Basic
import Mathlib.Order.Bounds.Basic
import Mos6502.Proofs.Step

namespace Mos6502

namespace Burst

variable {b : Burst} {budget : Nat} {fault : Fault}

theorem run_spent (h : ¬ b.spent < budget) : b.run budget = (none, b) := by
  rw [run, if_neg h]

theorem run_next (h : b.spent < budget) (hn : b.advance.1 = none) :
    b.run budget = b.advance.2.run budget := by
  rw [run, if_pos h]
  simp only [hn]

theorem run_faulted (h : b.spent < budget) (hf : b.advance.1 = some fault) :
    b.run budget = b.advance := by
  rw [run, if_pos h]
  simp only [hf]
  rw [← hf]

theorem cycles_advance (h : b.advance.1 = some fault) :
    fault.cycles = reported b.advance.2.spent := by
  simp only [advance] at h ⊢
  split at h
  · cases h
  · cases h
    rfl

theorem cycles_run (h : (b.run budget).1 = some fault) :
    fault.cycles = reported (b.run budget).2.spent := by
  fun_induction Burst.run budget b with
  | case1 b hb next hn ih => exact ih h
  | case2 b hb next first hf =>
    cases h
    exact cycles_advance hf
  | case3 b hb => cases h

end Burst

namespace Machine

/-- A call that runs instructions tells the cycles that they spent, whether it succeeds or fails. -/
theorem cyclesTold_call {m : Machine} {runs : Burst → Option Fault × Burst}
    (h : m.cpu.halted = none)
    (hf : ∀ fault, (runs (m.burst 0)).1 = some fault →
      fault.cycles = reported (runs (m.burst 0)).2.spent) :
    cyclesTold (m.call runs).1 = reported (runs (m.burst 0)).2.spent := by
  rw [call_running runs m h]
  cases hr : (runs (m.burst 0)).1 with
  | none => rfl
  | some fault => exact hf fault hr

theorem totalCycles_call {m : Machine} {runs : Burst → Option Fault × Burst}
    (h : m.cpu.halted = none)
    (hf : ∀ fault, (runs (m.burst 0)).1 = some fault →
      fault.cycles = reported (runs (m.burst 0)).2.spent) :
    (m.call runs).2.cpu.totalCycles =
      m.cpu.totalCycles + (cyclesTold (m.call runs).1).toUInt64 := by
  rw [cyclesTold_call h hf, call_running runs m h]

theorem totalCycles_execute {m : Machine} (h : m.cpu.halted = none) (budget : UInt32) :
    (m.execute budget).2.cpu.totalCycles =
      m.cpu.totalCycles + (cyclesTold (m.execute budget).1).toUInt64 :=
  totalCycles_call h fun _ => Burst.cycles_run

/-- The cycles that the first `k` single steps tell of. -/
def spent (m : Machine) (k : Nat) : Nat := ∑ j ∈ Finset.range k, (cyclesTold (m.answer j)).toNat

/-- After `k` single steps a budget is spent, or the last of them failed. -/
def Ends (m : Machine) (budget k : Nat) : Prop :=
  (∃ j fault, k = j + 1 ∧ m.answer j = .error fault) ∨ budget ≤ m.spent k

theorem spent_zero (m : Machine) : m.spent 0 = 0 := Finset.sum_range_zero _

theorem spent_succ (m : Machine) (k : Nat) :
    m.spent (k + 1) = m.spent k + (cyclesTold (m.answer k)).toNat :=
  Finset.sum_range_succ _ k

theorem spent_succ_front (m : Machine) (k : Nat) :
    m.spent (k + 1) = (cyclesTold m.step.1).toNat + m.step.2.spent k := by
  rw [spent, Finset.sum_range_succ', Nat.add_comm]
  rfl

theorem ends_zero_iff (m : Machine) (budget : Nat) : m.Ends budget 0 ↔ budget = 0 := by
  rw [Ends, spent_zero]
  constructor
  · rintro (⟨j, fault, hk, -⟩ | h)
    · cases hk
    · omega
  · intro h
    exact .inr (by omega)

/-- After a first step that succeeds, what is left of the budget is spent from there. -/
theorem ends_succ_iff {m : Machine} {used : UInt32} (h : m.step.1 = .ok used) (budget k : Nat) :
    m.Ends budget (k + 1) ↔ m.step.2.Ends (budget - used.toNat) k := by
  have hs : m.spent (k + 1) = used.toNat + m.step.2.spent k := by
    rw [spent_succ_front, h]
    rfl
  have hf : (∃ j fault, k + 1 = j + 1 ∧ m.answer j = .error fault) ↔
      ∃ j fault, k = j + 1 ∧ m.step.2.answer j = .error fault := by
    constructor
    · rintro ⟨j, fault, hk, ha⟩
      cases hk
      cases k with
      | zero =>
        change m.step.1 = .error fault at ha
        rw [h] at ha
        cases ha
      | succ k => exact ⟨k, fault, rfl, ha⟩
    · rintro ⟨j, fault, rfl, ha⟩
      exact ⟨j + 1, fault, rfl, ha⟩
  rw [Ends, Ends, hf, hs]
  have hb : budget ≤ used.toNat + m.step.2.spent k ↔ budget - used.toNat ≤ m.step.2.spent k := by
    omega
  rw [hb]

/-- A call that has spent `before` cycles of its budget goes on as single steps do, up to the
first one after which the budget is spent or that fails. -/
structure Slices (m : Machine) (budget before k : Nat) : Prop where
  least : IsLeast {k | m.Ends (budget - before) k} k
  state : ((m.burst before).run budget).2 = (m.after k).burst (before + m.spent k)
  result : ((m.burst before).run budget).1 = none ∧ m.Runs k ∨
    ∃ j fault, k = j + 1 ∧ m.Runs j ∧ m.answer j = .error fault ∧
      ((m.burst before).run budget).1 =
        some { fault with cycles := reported (before + m.spent k) }

theorem run_spent (m : Machine) {budget before : Nat} (hb : budget ≤ before) :
    (m.burst before).run budget = (none, m.burst before) := by
  rw [Burst.run, if_neg (by simpa [burst] using hb)]

theorem run_failed {m : Machine} {fault : Fault} (h : m.cpu.halted = none)
    (hs : m.step.1 = .error fault) {budget before : Nat} (hb : before < budget) :
    (m.burst before).run budget =
      (some { fault with cycles := reported (before + fault.cycles.toNat) },
        m.step.2.burst (before + fault.cycles.toNat)) := by
  rw [Burst.run, if_pos (by simpa [burst] using hb), advance_burst m h, hs]
  rfl

theorem run_ok {m : Machine} {used : UInt32} (h : m.cpu.halted = none)
    (hs : m.step.1 = .ok used) {budget before : Nat} (hb : before < budget) :
    (m.burst before).run budget = (m.step.2.burst (before + used.toNat)).run budget := by
  rw [Burst.run, if_pos (by simpa [burst] using hb), advance_burst m h, hs]
  rfl

theorem Slices.zero (m : Machine) {budget before : Nat} (hb : budget ≤ before) :
    m.Slices budget before 0 := by
  refine ⟨⟨?_, ?_⟩, ?_, .inl ?_⟩
  · exact (m.ends_zero_iff _).mpr (by omega)
  · intro k hk
    exact Nat.zero_le k
  · rw [m.run_spent hb, spent_zero]
    rfl
  · rw [m.run_spent hb]
    exact ⟨rfl, fun k hk => absurd hk (Nat.not_lt_zero k)⟩

theorem Slices.failed {m : Machine} {fault : Fault} (h : m.cpu.halted = none)
    (hs : m.step.1 = .error fault) {budget before : Nat} (hb : before < budget) :
    m.Slices budget before 1 := by
  have hspent : m.spent 1 = fault.cycles.toNat := by
    rw [spent_succ_front, hs]
    exact Nat.add_zero _
  refine ⟨⟨.inl ⟨0, fault, rfl, hs⟩, ?_⟩, ?_, .inr ⟨0, fault, rfl, ?_, hs, ?_⟩⟩
  · intro k hk
    cases k with
    | zero =>
      have hz := (m.ends_zero_iff _).mp hk
      omega
    | succ k => omega
  · rw [run_failed h hs hb, hspent]
    rfl
  · exact fun k hk => absurd hk (Nat.not_lt_zero k)
  · rw [run_failed h hs hb, hspent]

theorem Slices.succ {m : Machine} {used : UInt32} (h : m.cpu.halted = none)
    (hs : m.step.1 = .ok used) {budget before k : Nat} (hb : before < budget)
    (hk : m.step.2.Slices budget (before + used.toNat) k) : m.Slices budget before (k + 1) := by
  obtain ⟨⟨hends, hleast⟩, hstate, hresult⟩ := hk
  have hspent : m.spent (k + 1) = used.toNat + m.step.2.spent k := by
    rw [spent_succ_front, hs]
    rfl
  have hleft : budget - before - used.toNat = budget - (before + used.toNat) := by omega
  refine ⟨⟨?_, ?_⟩, ?_, ?_⟩
  · apply (ends_succ_iff hs _ k).mpr
    rw [hleft]
    exact hends
  · intro k' hk'
    cases k' with
    | zero =>
      have hz := (m.ends_zero_iff _).mp hk'
      omega
    | succ k' =>
      have he := (ends_succ_iff hs _ k').mp hk'
      rw [hleft] at he
      exact Nat.succ_le_succ (hleast he)
  · rw [run_ok h hs hb, hstate, hspent, Nat.add_assoc]
    rfl
  · rw [run_ok h hs hb, hspent, ← Nat.add_assoc]
    rcases hresult with ⟨hn, hr⟩ | ⟨j, fault, rfl, hr, ha, hf⟩
    · exact .inl ⟨hn, runs_succ hs hr⟩
    · exact .inr ⟨j + 1, fault, rfl, runs_succ hs hr, ha, hf⟩

/-- By induction on the budget that is left: every step takes some of it. -/
theorem exists_slices (m : Machine) (h : m.cpu.halted = none) (budget before : Nat) :
    ∃ k, m.Slices budget before k := by
  induction hn : budget - before using Nat.strongRecOn generalizing m before with
  | ind n ih =>
    by_cases hb : before < budget
    · cases hs : m.step.1 with
      | error fault => exact ⟨1, .failed h hs hb⟩
      | ok used =>
        obtain ⟨i, hp, hc, hh⟩ := cost_of_ok hs
        have hge := cost_ge i m.cpu.toRegisters m.memory
        obtain ⟨k, hk⟩ := ih _ (by omega) m.step.2 hh (before + used.toNat) rfl
        exact ⟨k + 1, hk.succ h hs hb⟩
    · exact ⟨0, .zero m (by omega)⟩

/-- Running a budget is stepping up to the first step that spends it or fails. Memory, registers
and fault are those of the steps; the cycles of the call are those of its steps together. -/
theorem execute_refines_steps (m : Machine) (budget : UInt32) (h : m.cpu.halted = none) :
    ∃ k, IsLeast {k | m.Ends budget.toNat k} k ∧ (budget = 0 → k = 0) ∧
      (m.execute budget).2.memory = (m.after k).memory ∧
      (m.execute budget).2.cpu.toRegisters = (m.after k).cpu.toRegisters ∧
      ∃ used : UInt32,
        ((m.Runs k ∧ used.toNat = min (m.spent k) (2 ^ 32 - 1) ∧
            (m.execute budget).1 = .ok used ∧ (m.execute budget).2.cpu.halted = none) ∨
          ∃ j fault, k = j + 1 ∧ m.Runs j ∧ m.answer j = .error fault ∧
            used.toNat = min (m.spent j + fault.cycles.toNat) (2 ^ 32 - 1) ∧
            (m.execute budget).1 = .error { fault with cycles := used } ∧
            (m.execute budget).2.cpu.halted = some { fault with cycles := used }) ∧
        (m.cpu.totalCycles.toNat + used.toNat < 2 ^ 64 →
          (m.execute budget).2.cpu.totalCycles.toNat = m.cpu.totalCycles.toNat + used.toNat) := by
  obtain ⟨k, hleast, hstate, hresult⟩ := exists_slices m h budget.toNat 0
  simp only [Nat.zero_add] at hstate hresult
  have hexec := call_running (Burst.run budget.toNat) m h
  rw [← execute, hstate] at hexec
  refine ⟨k, hleast, ?_, by rw [hexec]; rfl, by rw [hexec]; rfl, reported (m.spent k), ?_, ?_⟩
  · intro hb
    have hz : k ≤ 0 := hleast.2 ((m.ends_zero_iff _).mpr (by rw [hb]; rfl))
    omega
  · rcases hresult with ⟨hn, hr⟩ | ⟨j, fault, rfl, hr, ha, hf⟩
    · rw [hn] at hexec
      exact .inl ⟨hr, toNat_reported _, by rw [hexec]; rfl, by rw [hexec]⟩
    · rw [hf] at hexec
      have hs : m.spent (j + 1) = m.spent j + fault.cycles.toNat := by
        rw [spent_succ, ha]
        rfl
      exact .inr ⟨j, fault, rfl, hr, ha, by rw [← hs]; exact toNat_reported _, by rw [hexec],
        by rw [hexec]⟩
  · intro ht
    have hadd : (m.execute budget).2.cpu.totalCycles =
        m.cpu.totalCycles + (reported (m.spent k)).toUInt64 := by
      rw [hexec]
      rfl
    rw [hadd, UInt64.toNat_add, UInt32.toNat_toUInt64]
    exact Nat.mod_eq_of_lt ht

/-- A program that writes its own second opcode, which the call then carries out. -/
theorem execute_refines_steps_rewritten :
    let m : Machine := { holding [0x85, 0x02, 0x02] with cpu := { a := 0xEA } }
    m.cpu.halted = none ∧ IsLeast {k | m.Ends (UInt32.toNat 4) k} 2 ∧
      (m.execute 4).1 = .ok 5 ∧ (m.execute 4).2.cpu.halted = none ∧
      (m.execute 4).2.cpu.totalCycles.toNat = 5 ∧ (m.execute 4).2.cpu.pc = 3 ∧
      (m.execute 4).2.memory = m.memory.write 2 0xEA := by
  intro m
  have hread : ∀ a, m.memory.read a = [0x85, 0x02, 0x02].getD a.toNat 0 :=
    read_holding [0x85, 0x02, 0x02] (by decide)
  have h0 : (m.after 0).Performs (.store .a .zeroPage) := ⟨rfl, congrArg decode (hread 0), rfl⟩
  obtain ⟨hregs, hmem, hrunning⟩ := h0.after_succ
  have hpc : (m.after 1).cpu.pc = 2 := congrArg Registers.pc hregs
  have hwritten : (m.after 1).memory = m.memory.write 2 0xEA := by
    rw [hmem]
    change m.memory.write (m.memory.read 1).toUInt16 0xEA = _
    rw [hread]
    rfl
  have h1 : (m.after 1).Performs .noOperation := by
    refine ⟨hrunning, ?_, rfl⟩
    rw [instruction, hpc, hwritten, Memory.read_write_self]
    rfl
  obtain ⟨hregs', hmem', -⟩ := h1.after_succ
  have hfirst : m.answer 0 = .ok 3 := congrArg Prod.fst h0.step_eq
  have hsecond : m.answer 1 = .ok 2 := congrArg Prod.fst h1.step_eq
  have hspent : m.spent 2 = 5 := by
    rw [spent_succ, spent_succ, spent_zero, hfirst, hsecond]
    rfl
  have hleast : IsLeast {k | m.Ends (UInt32.toNat 4) k} 2 := by
    constructor
    · exact .inr (by rw [hspent]; decide)
    · intro k hk
      match k, hk with
      | 0, hk => cases (m.ends_zero_iff 4).mp hk
      | 1, hk => cases (ends_zero_iff _ 1).mp ((ends_succ_iff hfirst 4 0).mp hk)
      | k + 2, _ => exact Nat.le_add_left 2 k
  obtain ⟨k, hk, -, hmemory, hregisters, used, hresult, htotal⟩ := m.execute_refines_steps 4 rfl
  obtain rfl : k = 2 := hk.unique hleast
  rcases hresult with ⟨-, hused, hanswer, hhalted⟩ | ⟨j, fault, hj, -, hfault, -⟩
  · obtain rfl : used = 5 := UInt32.toNat_inj.mp (by rw [hused, hspent]; rfl)
    refine ⟨rfl, hleast, hanswer, hhalted, htotal (by decide), ?_, ?_⟩
    · rw [hregisters, hregs']
      change (m.after 1).cpu.pc + 1 = 3
      rw [hpc]
      rfl
    · rw [hmemory, hmem', ← hwritten]
      rfl
  · obtain rfl : j = 1 := (Nat.succ.inj hj).symm
    rw [hsecond] at hfault
    cases hfault

end Machine

end Mos6502
