import Mathlib.Logic.Function.Iterate
import Mos6502.Machine
import Mos6502.Proofs.Dispatch

namespace Mos6502

theorem toNat_reported (n : Nat) : (reported n).toNat = min n (UInt32.size - 1) := by
  rw [reported, UInt32.ofNatClamp]
  split
  · rw [UInt32.toNat_ofNatLT]
    omega
  · rw [UInt32.toNat_ofNatLT]
    omega

theorem toUInt64_eq (n : UInt32) : n.toUInt64 = UInt64.ofNat n.toNat := by
  apply UInt64.toNat_inj.mp
  rw [UInt32.toNat_toUInt64, UInt64.toNat_ofNat']
  exact (Nat.mod_eq_of_lt (Nat.lt_trans n.toNat_lt (by decide))).symm

namespace Burst

variable (b : Burst) (i : Instruction)

theorem advance_unknown (h : decode (b.memory.read b.registers.pc) = none) :
    b.advance =
      (some ⟨.unknownOpcode, b.memory.read b.registers.pc, b.registers.pc, reported (b.spent + 1)⟩,
        { registers := { b.registers with pc := b.registers.pc + 1 }
          memory := b.memory
          journal := b.journal.record (.unknownOpcode (b.memory.read b.registers.pc) b.registers)
          spent := b.spent + 1 }) := by
  have ho := outcome_dispatch_unknown b.registers b.memory h
  rw [Processor.outcome] at ho
  simp only [Burst.advance, ho, dispatchEvents, h]
  rfl

theorem advance_refused (h : decode (b.memory.read b.registers.pc) = some i)
    (hr : i.refused b.registers.status = true) :
    b.advance =
      (some ⟨.decimalMode, b.memory.read b.registers.pc, b.registers.pc,
          reported (b.spent + i.cost b.registers b.memory)⟩,
        { registers := { b.registers with pc := i.mode.following b.registers.pc }
          memory := b.memory
          journal := b.journal.recordAll
            [.dispatched b.registers.pc (b.memory.read b.registers.pc) i,
              .decimalRefused i b.registers.pc]
          spent := b.spent + i.cost b.registers b.memory }) := by
  have ho := outcome_dispatch_refused b.registers b.memory i h hr
  rw [Processor.outcome] at ho
  simp only [Burst.advance, ho, dispatchEvents, h]

theorem advance_admitted (h : decode (b.memory.read b.registers.pc) = some i)
    (hr : i.refused b.registers.status = false) :
    b.advance =
      (none,
        { registers := i.after b.registers b.memory
          memory := b.memory.writeCells (i.writes b.registers b.memory)
          journal := b.journal.record
            (.dispatched b.registers.pc (b.memory.read b.registers.pc) i)
          spent := b.spent + i.cost b.registers b.memory }) := by
  have ho := outcome_dispatch b.registers b.memory i h hr
  rw [Processor.outcome] at ho
  simp only [Burst.advance, ho, dispatchEvents, h]
  rfl

end Burst

def cyclesTold : Except Fault UInt32 → UInt32
  | .ok used => used
  | .error fault => fault.cycles

namespace Machine

/-- The instruction at the program counter, if its opcode is documented. -/
def instruction (m : Machine) : Option Instruction := decode (m.memory.read m.cpu.pc)

/-- The middle of a call that has spent some cycles. -/
def burst (m : Machine) (spent : Nat) : Burst := ⟨m.cpu.toRegisters, m.memory, m.journal, spent⟩

theorem call_running (runs : Burst → Option Fault × Burst) (m : Machine)
    (h : m.cpu.halted = none) :
    m.call runs =
      (match (runs (m.burst 0)).1 with
        | none => .ok (reported (runs (m.burst 0)).2.spent)
        | some fault => .error fault,
      { cpu :=
          { toRegisters := (runs (m.burst 0)).2.registers
            totalCycles := m.cpu.totalCycles + (reported (runs (m.burst 0)).2.spent).toUInt64
            halted := (runs (m.burst 0)).1 }
        memory := (runs (m.burst 0)).2.memory
        journal := (runs (m.burst 0)).2.journal }) := by
  simp only [call, h]
  rfl

/-- The next step carries out `i`. -/
structure Performs (m : Machine) (i : Instruction) : Prop where
  running : m.cpu.halted = none
  current : m.instruction = some i
  admitted : i.refused m.cpu.status = false

theorem step_unknown (m : Machine) (h : m.cpu.halted = none) (hi : m.instruction = none) :
    m.step =
      (.error ⟨.unknownOpcode, m.memory.read m.cpu.pc, m.cpu.pc, 1⟩,
      { cpu :=
          { toRegisters := { m.cpu.toRegisters with pc := m.cpu.pc + 1 }
            totalCycles := m.cpu.totalCycles + 1
            halted := some ⟨.unknownOpcode, m.memory.read m.cpu.pc, m.cpu.pc, 1⟩ }
        memory := m.memory
        journal := m.journal.record
          (.unknownOpcode (m.memory.read m.cpu.pc) m.cpu.toRegisters) }) := by
  rw [step, call_running _ m h, (m.burst 0).advance_unknown hi]
  rfl

theorem step_refused (m : Machine) (i : Instruction) (h : m.cpu.halted = none)
    (hi : m.instruction = some i) (hr : i.refused m.cpu.status = true) :
    let fault : Fault := ⟨.decimalMode, m.memory.read m.cpu.pc, m.cpu.pc,
      reported (i.cost m.cpu.toRegisters m.memory)⟩
    m.step =
      (.error fault,
      { cpu :=
          { toRegisters := { m.cpu.toRegisters with pc := i.mode.following m.cpu.pc }
            totalCycles := m.cpu.totalCycles + fault.cycles.toUInt64
            halted := some fault }
        memory := m.memory
        journal := m.journal.recordAll
          [.dispatched m.cpu.pc (m.memory.read m.cpu.pc) i, .decimalRefused i m.cpu.pc] }) := by
  rw [step, call_running _ m h, (m.burst 0).advance_refused i hi hr]
  simp only [burst, Nat.zero_add]

theorem Performs.step_eq {m : Machine} {i : Instruction} (h : m.Performs i) :
    m.step =
      (.ok (reported (i.cost m.cpu.toRegisters m.memory)),
      { cpu :=
          { toRegisters := i.after m.cpu.toRegisters m.memory
            totalCycles := m.cpu.totalCycles +
              (reported (i.cost m.cpu.toRegisters m.memory)).toUInt64
            halted := none }
        memory := m.memory.writeCells (i.writes m.cpu.toRegisters m.memory)
        journal := m.journal.record (.dispatched m.cpu.pc (m.memory.read m.cpu.pc) i) }) := by
  rw [step, call_running _ m h.running, (m.burst 0).advance_admitted i h.current h.admitted]
  simp only [burst, Nat.zero_add]

theorem Performs.instruction_step {m : Machine} {i : Instruction} (h : m.Performs i) :
    m.step.2.instruction =
      decode ((m.memory.writeCells (i.writes m.cpu.toRegisters m.memory)).read
        (i.next m.cpu.toRegisters m.memory)) := by
  rw [h.step_eq]
  rfl

/-- The three ways that a step of a running machine goes. -/
theorem running_cases (m : Machine) (h : m.cpu.halted = none) :
    m.instruction = none ∨
    (∃ i, m.instruction = some i ∧ i.refused m.cpu.status = true) ∨
    ∃ i, m.Performs i := by
  cases hi : m.instruction with
  | none => exact .inl rfl
  | some i =>
    cases hr : i.refused m.cpu.status with
    | true => exact .inr (.inl ⟨i, rfl, hr⟩)
    | false => exact .inr (.inr ⟨i, h, hi, hr⟩)

/-- Only a step that carries out an instruction succeeds. -/
theorem performs_of_ok {m : Machine} {used : UInt32} (h : m.step.1 = .ok used) :
    ∃ i, m.Performs i := by
  cases hh : m.cpu.halted with
  | some fault =>
    rw [step, call_halted _ m fault hh] at h
    cases h
  | none =>
    rcases m.running_cases hh with hi | ⟨i, hi, hr⟩ | hp
    · rw [step_unknown m hh hi] at h
      cases h
    · rw [step_refused m i hh hi hr] at h
      cases h
    · exact hp

/-- The cycles of an instruction fit into the count that a step answers. -/
theorem toNat_reported_cost {m : Machine} {i : Instruction} (h : m.instruction = some i) :
    (reported (i.cost m.cpu.toRegisters m.memory)).toNat = i.cost m.cpu.toRegisters m.memory := by
  have hc := cost_le h m.cpu.toRegisters m.memory
  rw [toNat_reported]
  exact Nat.min_eq_left (Nat.le_trans hc (by decide))

/-- The middle of a call goes on as a single step does, whatever the call has spent before. -/
theorem advance_burst (m : Machine) (h : m.cpu.halted = none) (spent : Nat) :
    (m.burst spent).advance =
      (match m.step.1 with
        | .ok _ => none
        | .error fault => some { fault with cycles := reported (spent + fault.cycles.toNat) },
      m.step.2.burst (spent + (cyclesTold m.step.1).toNat)) := by
  rcases m.running_cases h with hi | ⟨i, hi, hr⟩ | ⟨i, hp⟩
  · rw [step_unknown m h hi, (m.burst spent).advance_unknown hi]
    rfl
  · have hc := toNat_reported_cost hi
    rw [step_refused m i h hi hr, (m.burst spent).advance_refused i hi hr]
    simp only [burst, cyclesTold, hc]
  · have hc := toNat_reported_cost hp.current
    rw [hp.step_eq, (m.burst spent).advance_admitted i hp.current hp.admitted]
    simp only [burst, cyclesTold, hc]

def after (m : Machine) (k : Nat) : Machine := (fun m => m.step.2)^[k] m

/-- What step number `k` answers, counted from 0. -/
def answer (m : Machine) (k : Nat) : Except Fault UInt32 := (m.after k).step.1

/-- The first `n` single steps succeed. -/
def Runs (m : Machine) (n : Nat) : Prop := ∀ k < n, ∃ used, m.answer k = .ok used

theorem after_succ (m : Machine) (k : Nat) : m.after (k + 1) = (m.after k).step.2 :=
  Function.iterate_succ_apply' _ k m

theorem Runs.performs {m : Machine} {n k : Nat} (h : m.Runs n) (hk : k < n) :
    ∃ i, (m.after k).Performs i := by
  obtain ⟨used, ha⟩ := h k hk
  exact performs_of_ok ha

theorem Performs.after_succ {m : Machine} {k : Nat} {i : Instruction}
    (h : (m.after k).Performs i) :
    (m.after (k + 1)).cpu.toRegisters =
        i.after (m.after k).cpu.toRegisters (m.after k).memory ∧
      (m.after (k + 1)).memory =
        (m.after k).memory.writeCells (i.writes (m.after k).cpu.toRegisters (m.after k).memory) ∧
      (m.after (k + 1)).cpu.halted = none := by
  rw [Machine.after_succ, h.step_eq]
  exact ⟨rfl, rfl, rfl⟩

theorem runs_succ {m : Machine} {used : UInt32} (h : m.step.1 = .ok used) {n : Nat}
    (hn : m.step.2.Runs n) : m.Runs (n + 1) := by
  intro k hk
  cases k with
  | zero => exact ⟨used, h⟩
  | succ k => exact hn k (Nat.lt_of_succ_lt_succ hk)

/-- A step that succeeds answers the cost of its instruction, and the machine runs on. -/
theorem cost_of_ok {m : Machine} {used : UInt32} (h : m.step.1 = .ok used) :
    ∃ i, m.Performs i ∧ used.toNat = i.cost m.cpu.toRegisters m.memory ∧
      m.step.2.cpu.halted = none := by
  obtain ⟨i, hp⟩ := performs_of_ok h
  rw [hp.step_eq] at h ⊢
  cases h
  exact ⟨i, hp, toNat_reported_cost hp.current, rfl⟩

/-- A machine that holds a program from address 0 on. -/
def holding (program : List UInt8) : Machine := { memory := Memory.zero.writeAll 0 program }

theorem read_holding (program : List UInt8) (h : program.length ≤ UInt16.size) (a : UInt16) :
    (holding program).memory.read a = program.getD a.toNat 0 := by
  rw [holding, Memory.read_writeAll _ _ _ _ h, UInt16.sub_zero, Memory.read_zero]

/-- A step costs what is published of its instruction, between 2 and 7 cycles. -/
theorem step_cost (m : Machine) (h : m.cpu.halted = none) :
    (∀ i, m.instruction = some i → i.refused m.cpu.status = false →
      ∃ used, m.step.1 = .ok used ∧ used.toNat = i.cost m.cpu.toRegisters m.memory) ∧
    ∀ used, m.step.1 = .ok used → ∃ i, m.instruction = some i ∧
      used.toNat = i.cost m.cpu.toRegisters m.memory ∧ 2 ≤ used.toNat ∧ used.toNat ≤ 7 := by
  constructor
  · intro i hi hr
    have hp : m.Performs i := ⟨h, hi, hr⟩
    rw [hp.step_eq]
    exact ⟨_, rfl, toNat_reported_cost hi⟩
  · intro used hu
    obtain ⟨i, hp, hc, -⟩ := cost_of_ok hu
    rw [hc]
    exact ⟨i, hp.current, rfl, cost_ge i _ _, cost_le hp.current _ _⟩

theorem step_cost_crossing :
    let m : Machine := { holding [0xBD, 0xFF, 0x10] with cpu := { x := 1 } }
    let i : Instruction := .read (.load .a) (.cell (.absoluteIndexed .x))
    m.cpu.halted = none ∧ m.instruction = some i ∧ i.refused m.cpu.status = false ∧
      ∃ used, m.step.1 = .ok used ∧ used.toNat = 5 := by
  intro m i
  have hread : ∀ a, m.memory.read a = [0xBD, 0xFF, 0x10].getD a.toNat 0 :=
    read_holding [0xBD, 0xFF, 0x10] (by decide)
  have hi : m.instruction = some i := congrArg decode (hread 0)
  obtain ⟨used, hu, hc⟩ := (m.step_cost rfl).1 i hi rfl
  have hcarries : Location.carries m.cpu.toRegisters m.memory (.absoluteIndexed .x) = true := by
    change decide (255 < (low (m.memory.wordAt 1)).toNat + 1) = true
    rw [Memory.wordAt, hread, hread]
    rfl
  refine ⟨rfl, hi, rfl, used, hu, ?_⟩
  rw [hc, Instruction.cost, Source.readCost, hcarries]
  rfl

end Machine

end Mos6502
