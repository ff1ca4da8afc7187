import Mos6502.Machine

namespace Mos6502

/-- Does nothing but lead elsewhere. -/
def Instruction.onlyLeads : Instruction → Bool
  | branch _ | jump | jumpIndirect => true
  | _ => false

/-- The cycles after as many rounds of `cost` cycles as it takes to spend a budget. -/
def afterRounds (budget spent cost : Nat) : Nat :=
  spent + cost * ((budget - spent + cost - 1) / cost)

namespace Burst

/-- The next instruction does nothing but lead elsewhere, and the journal does not keep that. -/
def isQuiet (b : Burst) : Bool :=
  let address := b.registers.pc
  let opcode := b.memory.read address
  match decode opcode with
  | none => false
  | some i => i.onlyLeads && !b.journal.admits (.dispatched address opcode i)

/-- What `run` does, in a step for all rounds of an instruction that leads to itself. -/
def runLeaping (budget : Nat) : Burst → Option Fault × Burst
  | ⟨registers, memory, journal, spent⟩ =>
    if spent < budget then
      let quiet := isQuiet ⟨registers, memory, journal, spent⟩
      let next := advance ⟨registers, memory, journal, spent⟩
      match next.1 with
      | none =>
        if quiet && next.2.registers.pc = registers.pc then
          (none, { next.2 with spent := afterRounds budget spent (next.2.spent - spent) })
        else next.2.runLeaping budget
      | some fault => (some fault, next.2)
    else (none, ⟨registers, memory, journal, spent⟩)
termination_by b => budget - b.spent
decreasing_by
  have hs : spent < _ := spent_lt_advance ⟨registers, memory, journal, spent⟩
  omega

end Burst

namespace Machine

/-- What `execute` does, without running an instruction again that leads to itself. -/
def executeLeaping (budget : UInt32) : Machine → Except Fault UInt32 × Machine :=
  call (Burst.runLeaping budget.toNat)

end Machine

end Mos6502
