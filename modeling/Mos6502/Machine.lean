import Mos6502.Execution
import Mos6502.Journal

namespace Mos6502

/-- The registers, the cycles spent since the last reset, and the fault that halted the CPU. -/
@[ext] structure Cpu extends Registers where
  totalCycles : UInt64 := 0
  halted : Option Fault := none
  deriving DecidableEq

structure Machine where
  cpu : Cpu := {}
  memory : Memory := .zero
  journal : Journal := {}
  deriving DecidableEq

/-- The events of one dispatch, told from the registers before it. -/
def dispatchEvents (before : Registers) (opcode : UInt8) (result : Except Cause Unit) :
    List Event :=
  match decode opcode, result with
  | none, _ => [.unknownOpcode opcode before]
  | some i, .ok _ => [.dispatched before.pc opcode i]
  | some i, .error _ => [.dispatched before.pc opcode i, .decimalRefused i before.pc]

/-- A count of cycles as a call reports it: a count beyond 32 bits becomes the largest one. -/
def reported (cycles : Nat) : UInt32 := UInt32.ofNatClamp cycles

/-- The middle of a call: what runs, and the cycles that the call has spent. -/
structure Burst where
  registers : Registers
  memory : Memory
  journal : Journal
  spent : Nat

namespace Burst

/-- One instruction, with its fault if it has one. -/
def advance : Burst → Option Fault × Burst
  | ⟨registers, memory, journal, before⟩ =>
    let o := (dispatch registers).run memory
    let opcode := o.value.1.1
    let result := o.value.1.2
    let spent := before + o.cycles
    let fault := match result with
      | .ok _ => none
      | .error cause => some ⟨cause, opcode, registers.pc, reported spent⟩
    (fault, ⟨o.value.2, o.memory, journal.recordAll (dispatchEvents registers opcode result), spent⟩)

theorem spent_lt_advance (b : Burst) : b.spent < b.advance.2.spent := by
  have h : ∀ r m, 0 < ((dispatch r).run m).cycles := fun r m => by
    change 0 < Bus.Outcome.cycles (Bus.Outcome.after _ 1)
    simp only [Bus.Outcome.after]
    omega
  exact Nat.lt_add_of_pos_right (h b.registers b.memory)

/-- Instructions one after another, until the budget is spent or one of them faults. The budget is
looked at between instructions only, so that the last one may spend more. -/
def run (budget : Nat) (b : Burst) : Option Fault × Burst :=
  if b.spent < budget then
    let next := b.advance
    match next.1 with
    | none => next.2.run budget
    | some fault => (some fault, next.2)
  else (none, b)
termination_by budget - b.spent
decreasing_by
  have hs := spent_lt_advance b
  omega

end Burst

namespace Machine

def record (m : Machine) (e : Event) : Machine := { m with journal := m.journal.record e }

def resetVector : UInt16 := 0xFFFC

def resetStackPointer : UInt8 := 0xFF

/-- Clears registers, flags, counter, halt and memory, and puts the program counter at `start`. -/
def resetTo (m : Machine) (start : UInt16) : Machine :=
  { cpu := { pc := start, sp := resetStackPointer }, memory := .zero,
    journal := m.journal.record (.reset start) }

def reset (m : Machine) : Machine := m.resetTo resetVector

/-- A call that runs instructions. A halted machine answers with its fault and runs none; another
one adds what was spent to its counter, and a fault halts it. -/
def call (runs : Burst → Option Fault × Burst) : Machine → Except Fault UInt32 × Machine
  | ⟨cpu, memory, journal⟩ =>
    match cpu.halted with
    | some fault => (.error fault, ⟨cpu, memory, journal⟩)
    | none =>
      let (halted, b) := runs ⟨cpu.toRegisters, memory, journal, 0⟩
      let used := reported b.spent
      let cpu := { toRegisters := b.registers, totalCycles := cpu.totalCycles + used.toUInt64, halted }
      let result := match halted with
        | none => .ok used
        | some fault => .error fault
      (result, ⟨cpu, b.memory, b.journal⟩)

def step : Machine → Except Fault UInt32 × Machine := call Burst.advance

/-- Runs instructions until at least `budget` cycles are spent. -/
def execute (budget : UInt32) : Machine → Except Fault UInt32 × Machine :=
  call (Burst.run budget.toNat)

theorem call_halted (runs : Burst → Option Fault × Burst) (m : Machine) (fault : Fault)
    (h : m.cpu.halted = some fault) : m.call runs = (.error fault, m) := by
  obtain ⟨cpu, memory, journal⟩ := m
  dsimp only at h
  simp [call, h]

end Machine

end Mos6502
