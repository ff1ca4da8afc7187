import Mos6502.Idle
import Mos6502.Proofs.NextAddress
import Mos6502.Proofs.Slicing

namespace Mos6502

theorem afterRounds_of_le {budget spent : Nat} (h : budget ≤ spent) (cost : Nat) :
    afterRounds budget spent cost = spent := by
  cases cost with
  | zero => simp [afterRounds]
  | succ cost =>
    have hnone : (budget - spent + (cost + 1) - 1) / (cost + 1) = 0 := by
      apply Nat.div_eq_of_lt
      omega
    rw [afterRounds, hnone, Nat.mul_zero, Nat.add_zero]

theorem afterRounds_add {budget spent cost : Nat} (hcost : 0 < cost) (h : spent < budget) :
    afterRounds budget (spent + cost) cost = afterRounds budget spent cost := by
  have hround : (budget - spent + cost - 1) / cost = (budget - spent - 1) / cost + 1 := by
    have hshift : budget - spent + cost - 1 = budget - spent - 1 + cost := by omega
    rw [hshift, Nat.add_div_right _ hcost]
  have hleft : (budget - (spent + cost) + cost - 1) / cost = (budget - spent - 1) / cost := by
    by_cases hlast : budget - spent ≤ cost
    · rw [Nat.div_eq_of_lt (by omega), Nat.div_eq_of_lt (by omega)]
    · have hsame : budget - (spent + cost) + cost - 1 = budget - spent - 1 := by omega
      rw [hsame]
  rw [afterRounds, afterRounds, hround, hleft, Nat.mul_succ]
  omega

namespace Instruction

variable (r : Registers) (m : Memory) {i : Instruction}

theorem writes_onlyLeads (h : i.onlyLeads = true) : i.writes r m = [] := by
  cases i with
  | branch | jump | jumpIndirect => rfl
  | _ => cases h

theorem after_onlyLeads (h : i.onlyLeads = true) : i.after r m = { r with pc := i.next r m } := by
  cases i with
  | branch | jump | jumpIndirect => rfl
  | _ => cases h

theorem refused_onlyLeads (h : i.onlyLeads = true) (s : Status) : i.refused s = false := by
  cases i with
  | branch | jump | jumpIndirect => rfl
  | _ => cases h

end Instruction

namespace Burst

variable {b : Burst} {i : Instruction} {cost : Nat}

/-- The next instruction of a burst leaves all as it was, whatever has been spent, but spends
`cost` cycles. -/
structure Idles (b : Burst) (cost : Nat) : Prop where
  positive : 0 < cost
  advance : ∀ spent, ({ b with spent } : Burst).advance = (none, { b with spent := spent + cost })

theorem exists_of_isQuiet (h : b.isQuiet = true) :
    ∃ i, decode (b.memory.read b.registers.pc) = some i ∧ i.onlyLeads = true ∧
      b.journal.admits (.dispatched b.registers.pc (b.memory.read b.registers.pc) i) = false := by
  simp only [isQuiet] at h
  split at h
  · cases h
  · next i hi =>
    rw [Bool.and_eq_true, Bool.not_eq_true'] at h
    exact ⟨i, hi, h⟩

theorem advance_onlyLeads (hi : decode (b.memory.read b.registers.pc) = some i)
    (hleads : i.onlyLeads = true)
    (hkept : b.journal.admits (.dispatched b.registers.pc (b.memory.read b.registers.pc) i) =
      false) :
    b.advance = (none, { b with
      registers := { b.registers with pc := i.next b.registers b.memory }
      spent := b.spent + i.cost b.registers b.memory }) := by
  have hjournal : b.journal.record
      (.dispatched b.registers.pc (b.memory.read b.registers.pc) i) = b.journal := by
    rw [Journal.record, hkept]
    rfl
  rw [b.advance_admitted i hi (i.refused_onlyLeads hleads _), hjournal,
    Instruction.writes_onlyLeads _ _ hleads, Instruction.after_onlyLeads _ _ hleads]
  rfl

/-- An instruction that leads to itself and is not told of goes on for ever. -/
theorem idles_of_next (hi : decode (b.memory.read b.registers.pc) = some i)
    (hleads : i.onlyLeads = true)
    (hkept : b.journal.admits (.dispatched b.registers.pc (b.memory.read b.registers.pc) i) = false)
    (hnext : i.next b.registers b.memory = b.registers.pc) :
    b.Idles (i.cost b.registers b.memory) where
  positive := Nat.lt_of_lt_of_le (by decide) (cost_ge i b.registers b.memory)
  advance := by
    intro spent
    have hadvance := advance_onlyLeads (b := { b with spent }) hi hleads hkept
    simp only [hnext] at hadvance
    exact hadvance

/-- By induction on the budget that is left, of which every round takes some. -/
theorem Idles.run_eq (h : b.Idles cost) (budget spent : Nat) :
    ({ b with spent } : Burst).run budget =
      (none, { b with spent := afterRounds budget spent cost }) := by
  have hpositive := h.positive
  induction hn : budget - spent using Nat.strongRecOn generalizing spent with
  | ind n ih =>
    by_cases hs : spent < budget
    · have hrest := ih (budget - (spent + cost)) (by omega) (spent + cost) rfl
      rw [afterRounds_add hpositive hs] at hrest
      have hfirst := h.advance spent
      rw [run_next hs (congrArg Prod.fst hfirst), hfirst]
      exact hrest
    · rw [run_spent hs, afterRounds_of_le (Nat.le_of_not_lt hs)]

/-- An instruction that comes back to itself is known by the program counter. -/
theorem exists_idles (hquiet : b.isQuiet = true)
    (hpc : b.advance.2.registers.pc = b.registers.pc) : ∃ cost, b.Idles cost := by
  obtain ⟨i, hi, hleads, hkept⟩ := exists_of_isQuiet hquiet
  rw [advance_onlyLeads hi hleads hkept] at hpc
  exact ⟨_, idles_of_next hi hleads hkept hpc⟩

theorem runLeaping_next {budget : Nat} (h : b.spent < budget) (hn : b.advance.1 = none) :
    b.runLeaping budget =
      if b.isQuiet = true ∧ b.advance.2.registers.pc = b.registers.pc then
        (none, { b.advance.2 with
          spent := afterRounds budget b.spent (b.advance.2.spent - b.spent) })
      else b.advance.2.runLeaping budget := by
  rw [runLeaping, if_pos h]
  simp only [hn, Bool.and_eq_true, decide_eq_true_eq]

theorem runLeaping_faulted {budget : Nat} {fault : Fault} (h : b.spent < budget)
    (hf : b.advance.1 = some fault) : b.runLeaping budget = (some fault, b.advance.2) := by
  rw [runLeaping, if_pos h]
  simp only [hf]

theorem runLeaping_eq (budget : Nat) (b : Burst) : b.runLeaping budget = b.run budget := by
  fun_induction Burst.run budget b with
  | case1 b h next hn ih =>
    rw [runLeaping_next h hn]
    split
    · next hloop =>
      obtain ⟨cost, hidles⟩ := exists_idles hloop.1 hloop.2
      have hadvance : b.advance = (none, { b with spent := b.spent + cost }) :=
        hidles.advance b.spent
      rw [← run_next h hn, hadvance]
      simp only [Nat.add_sub_cancel_left]
      exact (hidles.run_eq budget b.spent).symm
    · exact ih
  | case2 b h next fault hf => exact runLeaping_faulted h hf
  | case3 b h => rw [runLeaping, if_neg h]

end Burst

namespace Machine

variable {m : Machine} {i : Instruction} {cost : Nat}

theorem executeLeaping_eq (m : Machine) (budget : UInt32) :
    m.executeLeaping budget = m.execute budget := by
  have hruns : Burst.runLeaping budget.toNat = Burst.run budget.toNat :=
    funext (Burst.runLeaping_eq budget.toNat)
  rw [executeLeaping, hruns]
  rfl

/-- The machine with more cycles on its counter. -/
def waited (m : Machine) (cycles : Nat) : Machine :=
  { m with cpu := { m.cpu with totalCycles := m.cpu.totalCycles + UInt64.ofNat cycles } }

/-- Every step of the machine leaves it as it was, but for `cost` cycles on its counter. -/
structure Idles (m : Machine) (cost : Nat) : Prop where
  running : m.cpu.halted = none
  burst : (m.burst 0).Idles cost

theorem waited_zero (m : Machine) : m.waited 0 = m := by
  have htotal : m.cpu.totalCycles + UInt64.ofNat 0 = m.cpu.totalCycles := UInt64.add_zero _
  rw [waited, htotal]

theorem waited_waited (m : Machine) (a b : Nat) : (m.waited a).waited b = m.waited (a + b) := by
  rw [waited, waited, waited, UInt64.ofNat_add, ← UInt64.add_assoc]

theorem Performs.idles (h : m.Performs i) (hleads : i.onlyLeads = true)
    (hkept : m.journal.admits (.dispatched m.cpu.pc (m.memory.read m.cpu.pc) i) = false)
    (hnext : i.next m.cpu.toRegisters m.memory = m.cpu.pc) :
    m.Idles (i.cost m.cpu.toRegisters m.memory) where
  running := h.running
  burst := Burst.idles_of_next (b := m.burst 0) h.current hleads hkept hnext

theorem branchTarget_back (pc : UInt16) : branchTarget pc 0xFE = pc := by
  apply UInt16.toNat_inj.mp
  have htarget := toNat_add_displacement (Mode.relative.following pc) 0xFE
  have hfollowing := toNat_following .relative pc
  have hdistance : signed 0xFE = -2 := by decide
  have hpc := pc.toNat_lt
  rw [← branchTarget, hdistance, hfollowing] at htarget
  change (_ : Int) = (((pc.toNat + 1 + 1) % 65536 : Nat) + -2) % 65536 at htarget
  omega

/-- A branch back to itself goes on for ever once it is taken. -/
theorem Performs.idles_branch {c : Condition} (h : m.Performs (.branch c))
    (hc : m.cpu.status.get c.flag = c.value) (hback : m.memory.read (m.cpu.pc + 1) = 0xFE)
    (hkept : m.journal.limit = none) :
    m.Idles (if high m.cpu.pc = high (Mode.relative.following m.cpu.pc) then 3 else 4) := by
  have hnext : Instruction.next m.cpu.toRegisters m.memory (.branch c) = m.cpu.pc := by
    rw [Instruction.next_taken _ _ hc, hback]
    exact branchTarget_back m.cpu.pc
  have hcost : Instruction.cost m.cpu.toRegisters m.memory (.branch c) =
      if high m.cpu.pc = high (Mode.relative.following m.cpu.pc) then 3 else 4 := by
    rw [Instruction.cost, Instruction.branchCost, if_pos ((holds_iff c _).mpr hc), hback,
      branchTarget_back]
  have hquiet : m.journal.admits (.dispatched m.cpu.pc (m.memory.read m.cpu.pc) (.branch c)) =
      false := by
    rw [Journal.admits, hkept]
  rw [← hcost]
  exact h.idles rfl hquiet hnext

theorem Idles.waited (h : m.Idles cost) (cycles : Nat) : (m.waited cycles).Idles cost where
  running := h.running
  burst := h.burst

/-- A call that only spends cycles counts those that it reports. -/
theorem call_waiting {runs : Burst → Option Fault × Burst} {cycles : Nat}
    (h : m.cpu.halted = none) (hruns : runs (m.burst 0) = (none, m.burst cycles)) :
    m.call runs = (.ok (reported cycles), m.waited (reported cycles).toNat) := by
  rw [call_running runs m h, hruns]
  simp only [burst, Machine.waited, toUInt64_eq, ← h]

theorem Idles.execute_eq (h : m.Idles cost) (budget : UInt32) :
    m.execute budget = (.ok (reported (afterRounds budget.toNat 0 cost)),
      m.waited (reported (afterRounds budget.toNat 0 cost)).toNat) :=
  call_waiting h.running (h.burst.run_eq budget.toNat 0)

theorem Idles.step_told (h : m.Idles cost) :
    m.step = (.ok (reported cost), m.waited (reported cost).toNat) := by
  have hadvance := h.burst.advance 0
  rw [Nat.zero_add] at hadvance
  exact call_waiting h.running hadvance

theorem Idles.toNat_reported (h : m.Idles cost) : (reported cost).toNat = cost := by
  have hcost := cyclesTold_step_le h.running
  rw [h.step_told] at hcost
  change (reported cost).toNat ≤ 7 at hcost
  have htold : (reported cost).toNat = min cost (2 ^ 32 - 1) := Mos6502.toNat_reported _
  omega

theorem Idles.step_eq (h : m.Idles cost) : m.step = (.ok (reported cost), m.waited cost) := by
  rw [h.step_told, h.toNat_reported]

theorem Idles.after_eq (h : m.Idles cost) (k : Nat) : m.after k = m.waited (cost * k) := by
  induction k with
  | zero => exact m.waited_zero.symm
  | succ k ih =>
    rw [after_succ, ih, (h.waited _).step_eq, waited_waited]
    rfl

theorem Idles.spent_eq (h : m.Idles cost) (k : Nat) : m.spent k = cost * k := by
  induction k with
  | zero => exact m.spent_zero
  | succ k ih =>
    rw [spent_succ, ih, answer, h.after_eq, (h.waited _).step_eq]
    exact congrArg (cost * k + ·) h.toNat_reported

end Machine

/-- A branch at the end of a page that leads back to itself. -/
def loopImage : List UInt8 := [0xFE, 0x10, 0x90, 0xFE]

/-- The machine that is about to run it. -/
def loopMachine : Machine := ((Machine.reset {}).load loopImage).2.launched 0x10FE 0x10FE

theorem idles_loopMachine : loopMachine.Idles 4 := by
  have hread : ∀ a, loopMachine.memory.read a = [0x90, 0xFE].getD (a - 0x10FE).toNat 0 := by
    intro a
    change (Memory.zero.writeAll 0x10FE [0x90, 0xFE]).read a = _
    rw [Memory.read_writeAll _ _ _ _ (by decide), Memory.read_zero]
  have hp : loopMachine.Performs (.branch .carryClear) :=
    ⟨rfl, congrArg decode (hread 0x10FE), rfl⟩
  exact hp.idles_branch rfl (hread 0x10FF) rfl

end Mos6502
