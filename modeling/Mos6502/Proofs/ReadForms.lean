import Mos6502.Proofs.Faults
import Mos6502.Proofs.History

namespace Mos6502

theorem add_one_ne (a : UInt16) : a + 1 ≠ a := by
  intro heq
  have hnat := congrArg UInt16.toNat heq
  have ha := a.toNat_lt
  change (a.toNat + 1) % 65536 = a.toNat at hnat
  omega

/-- The opcode of an operation on the byte behind it: `LDA`, `LDX`, `LDY`, `CMP`, `CPX`, `CPY`,
`AND`, `ORA`, `EOR`, `ADC`, `SBC`. A bit test has none. -/
def ReadOp.immediateOpcode : ReadOp → Option UInt8
  | load .a => some 0xA9
  | load .x => some 0xA2
  | load .y => some 0xA0
  | compare .a => some 0xC9
  | compare .x => some 0xE0
  | compare .y => some 0xC0
  | and => some 0x29
  | or => some 0x09
  | xor => some 0x49
  | add => some 0x69
  | subtract => some 0xE9
  | test => none

theorem decode_immediateOpcode {op : ReadOp} {opcode : UInt8}
    (h : op.immediateOpcode = some opcode) : decode opcode = some (.read op .immediate) := by
  cases op with
  | load reg => cases reg <;> cases h <;> rfl
  | compare reg => cases reg <;> cases h <;> rfl
  | _ => cases h <;> rfl

/-- Why and where an instruction was not carried out. -/
def Fault.reason (fault : Fault) : Cause × UInt16 := (fault.cause, fault.address)

namespace Machine

/-- Steps that differ at most in the program counter, the cycles and the opcode that a fault
names, and that leave memory as it was. -/
structure StepsAlike (m m' : Machine) : Prop where
  answer : (faultTold m'.step.1).map Fault.reason = (faultTold m.step.1).map Fault.reason
  registers : m'.step.2.cpu.toRegisters =
    { m.step.2.cpu.toRegisters with pc := m'.step.2.cpu.pc }
  halted : m'.step.2.cpu.halted.map Fault.reason = m.step.2.cpu.halted.map Fault.reason
  kept : m.step.2.memory = m.memory
  kept' : m'.step.2.memory = m'.memory

/-- What a step does whose instruction reads a byte. Refused or not, it leaves memory and goes on
behind the instruction. -/
structure ReadStep (m : Machine) (op : ReadOp) (source : Source) : Prop where
  memory : m.step.2.memory = m.memory
  answer : (faultTold m.step.1).map Fault.reason =
    if op.isArithmetic && m.cpu.status.decimal then some (.decimalMode, m.cpu.pc) else none
  registers : m.step.2.cpu.toRegisters =
    { (if op.isArithmetic && m.cpu.status.decimal then m.cpu.toRegisters
       else op.apply m.cpu.toRegisters (source.operand m.cpu.toRegisters m.memory)) with
      pc := source.mode.following m.cpu.pc }
  halted : m.step.2.cpu.halted = faultTold m.step.1

variable {m m' : Machine} {op : ReadOp} {source source' : Source}

theorem readStep (h : m.cpu.halted = none) (hi : m.instruction = some (.read op source)) :
    m.ReadStep op source := by
  cases hr : op.isArithmetic && m.cpu.status.decimal with
  | true =>
    have hstep := m.step_refused (.read op source) h hi hr
    refine ⟨?_, ?_, ?_, ?_⟩
    · rw [hstep]
    · rw [hstep, hr]
      rfl
    · rw [hstep, hr]
      rfl
    · rw [hstep]
      rfl
  | false =>
    have hp : m.Performs (.read op source) := ⟨h, hi, hr⟩
    refine ⟨?_, ?_, ?_, ?_⟩
    · rw [hp.step_eq]
      rfl
    · rw [hp.step_eq, hr]
      rfl
    · rw [hp.step_eq, hr]
      rfl
    · rw [hp.step_eq]
      rfl

/-- An operation depends on where its byte is through the byte alone. -/
theorem ReadStep.alike (h : m.ReadStep op source) (h' : m'.ReadStep op source')
    (hcpu : m'.cpu = m.cpu) (hbyte : source'.operand m'.cpu.toRegisters m'.memory =
      source.operand m.cpu.toRegisters m.memory) : m.StepsAlike m' := by
  have hanswer : (faultTold m'.step.1).map Fault.reason =
      (faultTold m.step.1).map Fault.reason := by
    rw [h'.answer, h.answer, hcpu]
  refine ⟨hanswer, ?_, ?_, h.memory, h'.memory⟩
  · rw [h'.registers, h.registers, hbyte, hcpu]
  · rw [h'.halted, h.halted, hanswer]

/-- The machine with another opcode at its program counter. -/
def withOpcode (m : Machine) (opcode : UInt8) : Machine :=
  { m with memory := m.memory.write m.cpu.pc opcode }

theorem instruction_withOpcode (m : Machine) (opcode : UInt8) :
    (m.withOpcode opcode).instruction = decode opcode :=
  congrArg decode (Memory.read_write_self _ _ _)

/-- The machine with other bytes for its instruction: an opcode and the byte that it works on. -/
def withImmediate (m : Machine) (opcode operand : UInt8) : Machine :=
  { m with memory := (m.memory.write m.cpu.pc opcode).write (m.cpu.pc + 1) operand }

theorem instruction_withImmediate (m : Machine) {opcode : UInt8}
    (h : op.immediateOpcode = some opcode) (operand : UInt8) :
    (m.withImmediate opcode operand).instruction = some (.read op .immediate) := by
  rw [instruction]
  change decode (((m.memory.write m.cpu.pc opcode).write (m.cpu.pc + 1) operand).read m.cpu.pc) = _
  rw [Memory.read_write_of_ne _ _ (add_one_ne _), Memory.read_write_self]
  exact decode_immediateOpcode h

theorem operand_withImmediate (m : Machine) (opcode operand : UInt8) :
    Source.immediate.operand (m.withImmediate opcode operand).cpu.toRegisters
      (m.withImmediate opcode operand).memory = operand :=
  Memory.read_write_self _ _ _

/-- Every form of an operation that reads is its immediate form, applied to the byte of the cell
that the location names: where that cell is matters to the program counter and the cycles only. -/
theorem step_read_cell (m : Machine) (op : ReadOp) (l : Location) (opcode : UInt8)
    (h : m.cpu.halted = none) (hi : m.instruction = some (.read op (.cell l)))
    (hopcode : op.immediateOpcode = some opcode) :
    let direct :=
      m.withImmediate opcode (m.memory.read (l.effective m.cpu.toRegisters m.memory))
    direct.instruction = some (.read op .immediate) ∧
    m.StepsAlike direct ∧
    (faultTold m.step.1).map Fault.reason =
      (if op.isArithmetic && m.cpu.status.decimal then some (.decimalMode, m.cpu.pc) else none) ∧
    m.step.2.cpu.pc = l.mode.following m.cpu.pc ∧
    direct.step.2.cpu.pc = Mode.immediate.following m.cpu.pc := by
  intro direct
  have hdirect : direct.instruction = some (.read op .immediate) :=
    m.instruction_withImmediate hopcode _
  have hread := readStep h hi
  have hread' : direct.ReadStep op .immediate := readStep h hdirect
  have hbyte := m.operand_withImmediate opcode
    (m.memory.read (l.effective m.cpu.toRegisters m.memory))
  refine ⟨hdirect, hread.alike hread' rfl hbyte, hread.answer, ?_, ?_⟩
  · rw [hread.registers]
    rfl
  · rw [hread'.registers]
    rfl

/-- The operand byte is also the high byte of the pointer, which goes on at the start of page zero
as the instruction does. -/
theorem step_read_cell_wrapped :
    let memory := (((Memory.zero.write 0xFFFF 0x61).write 0 0x12).write 0xFF 0x34).write 0x1234 0x7F
    let m : Machine := { memory, cpu := { pc := 0xFFFF, a := 1, x := 0xED } }
    let direct := m.withImmediate 0x69 0x7F
    m.instruction = some (.read .add (.cell .indirectX)) ∧
    direct.instruction = some (.read .add .immediate) ∧
    m.StepsAlike direct ∧ faultTold m.step.1 = none ∧
    m.step.2.cpu.pc = 1 ∧ direct.step.2.cpu.pc = 1 := by
  intro memory m direct
  have hread : ∀ a, m.memory.read a =
      if 0x1234 = a then 0x7F else if 0xFF = a then 0x34 else if 0 = a then 0x12
      else if 0xFFFF = a then 0x61 else 0 := by
    intro a
    simp only [m, memory, Memory.read_write, Memory.read_zero]
  have hopcode : m.memory.read 0xFFFF = 0x61 := hread 0xFFFF
  have hlow : m.memory.read 0xFF = 0x34 := hread 0xFF
  have hhigh : m.memory.read 0 = 0x12 := hread 0
  have hbyte : m.memory.read 0x1234 = 0x7F := hread 0x1234
  have hi : m.instruction = some (.read .add (.cell .indirectX)) := congrArg decode hopcode
  have heffective : Location.indirectX.effective m.cpu.toRegisters m.memory = 0x1234 := by
    have hnext : m.cpu.pc + 1 = 0 := by decide
    have hpointer : 0x12 + m.cpu.x = 0xFF := by decide
    rw [Location.effective, hnext, hhigh, hpointer]
    change word (m.memory.read 0xFF) (m.memory.read 0) = 0x1234
    rw [hlow, hhigh]
    decide
  obtain ⟨hdirect, halike, hanswer, hpc, hpc'⟩ :=
    m.step_read_cell .add .indirectX 0x69 rfl hi rfl
  rw [heffective, hbyte] at hdirect halike hpc'
  exact ⟨hi, hdirect, halike, Option.map_eq_none_iff.mp hanswer, hpc.trans (by decide),
    hpc'.trans (by decide)⟩

end Machine

end Mos6502
