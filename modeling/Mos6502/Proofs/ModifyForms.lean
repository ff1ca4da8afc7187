import Mos6502.Proofs.NextAddress
import Mos6502.Proofs.ReadForms

namespace Mos6502

/-- The instructions that change a cell in place: `ASL`, `ROL`, `LSR`, `ROR`, `DEC`, `INC`. -/
def modifyTable : List (UInt8 × ModifyOp × Location) :=
  [(0x06, .shiftLeft, .zeroPage), (0x16, .shiftLeft, .zeroPageIndexed .x),
    (0x0E, .shiftLeft, .absolute), (0x1E, .shiftLeft, .absoluteIndexed .x),
    (0x26, .rotateLeft, .zeroPage), (0x36, .rotateLeft, .zeroPageIndexed .x),
    (0x2E, .rotateLeft, .absolute), (0x3E, .rotateLeft, .absoluteIndexed .x),
    (0x46, .shiftRight, .zeroPage), (0x56, .shiftRight, .zeroPageIndexed .x),
    (0x4E, .shiftRight, .absolute), (0x5E, .shiftRight, .absoluteIndexed .x),
    (0x66, .rotateRight, .zeroPage), (0x76, .rotateRight, .zeroPageIndexed .x),
    (0x6E, .rotateRight, .absolute), (0x7E, .rotateRight, .absoluteIndexed .x),
    (0xC6, .decrement, .zeroPage), (0xD6, .decrement, .zeroPageIndexed .x),
    (0xCE, .decrement, .absolute), (0xDE, .decrement, .absoluteIndexed .x),
    (0xE6, .increment, .zeroPage), (0xF6, .increment, .zeroPageIndexed .x),
    (0xEE, .increment, .absolute), (0xFE, .increment, .absoluteIndexed .x)]

/-- The same operations on a register: the shifts of `A`, then `INX`, `INY`, `DEX`, `DEY`. -/
def registerTable : List (UInt8 × ModifyOp × Register) :=
  [(0x0A, .shiftLeft, .a), (0x2A, .rotateLeft, .a), (0x4A, .shiftRight, .a),
    (0x6A, .rotateRight, .a), (0xE8, .increment, .x), (0xC8, .increment, .y),
    (0xCA, .decrement, .x), (0x88, .decrement, .y)]

theorem decode_of_mem_modifyTable {opcode : UInt8} {op : ModifyOp} {l : Location}
    (h : (opcode, op, l) ∈ modifyTable) : decode opcode = some (.modify op (.cell l)) := by
  have hall : ∀ row ∈ modifyTable, decode row.1 = some (.modify row.2.1 (.cell row.2.2)) := by
    decide
  exact hall _ h

/-- An instruction that does an operation to a register and lets the flags tell of it. -/
structure Instruction.Modifies (i : Instruction) (op : ModifyOp) (reg : Register) : Prop where
  admitted : ∀ s, i.refused s = false
  value : ∀ r m, (i.after r m).get reg = op.result r.status (r.get reg)
  status : ∀ r m, (i.after r m).status = op.status r.status (r.get reg)

/-- A shift of the accumulator is an instruction of its kind with another target. The steps of the
index registers are instructions of their own, and load what they count. -/
theorem modifies_of_mem_registerTable {opcode : UInt8} {op : ModifyOp} {reg : Register}
    (h : (opcode, op, reg) ∈ registerTable) :
    ∃ i, decode opcode = some i ∧ i.Modifies op reg := by
  simp only [registerTable, List.mem_cons, Prod.mk.injEq, List.not_mem_nil, or_false] at h
  rcases h with ⟨rfl, rfl, rfl⟩ | ⟨rfl, rfl, rfl⟩ | ⟨rfl, rfl, rfl⟩ | ⟨rfl, rfl, rfl⟩ |
    ⟨rfl, rfl, rfl⟩ | ⟨rfl, rfl, rfl⟩ | ⟨rfl, rfl, rfl⟩ | ⟨rfl, rfl, rfl⟩
  all_goals exact ⟨_, rfl, ⟨fun _ => rfl, fun _ _ => rfl, fun _ _ => rfl⟩⟩

/-- The address of a cell as a number: an index wraps modulo 256 in page zero, and modulo 65536
elsewhere. -/
structure Location.Names (l : Location) (r : Registers) (m : Memory) (a : UInt16) : Prop where
  zeroPage : l = .zeroPage → a.toNat = (m.read (r.pc + 1)).toNat
  zeroPageIndexed : ∀ i, l = .zeroPageIndexed i →
    a.toNat = ((m.read (r.pc + 1)).toNat + (r.get i.register).toNat) % 256
  absolute : l = .absolute →
    a.toNat = (m.read (r.pc + 1)).toNat + 256 * (m.read (r.pc + 2)).toNat
  absoluteIndexed : ∀ i, l = .absoluteIndexed i →
    a.toNat = ((m.read (r.pc + 1)).toNat + 256 * (m.read (r.pc + 2)).toNat +
      (r.get i.register).toNat) % 65536

theorem names_effective (l : Location) (r : Registers) (m : Memory) :
    l.Names r m (l.effective r m) where
  zeroPage := by
    rintro rfl
    exact UInt8.toNat_toUInt16 _
  zeroPageIndexed := by
    rintro i rfl
    rw [Location.effective, UInt8.toNat_toUInt16, UInt8.toNat_add]
  absolute := by
    rintro rfl
    exact toNat_operandWord m r.pc
  absoluteIndexed := by
    rintro i rfl
    rw [Location.effective, UInt16.toNat_add, UInt8.toNat_toUInt16, toNat_operandWord]

namespace Machine

/-- The machine with another value in a data register. -/
def withRegister (m : Machine) (reg : Register) (v : UInt8) : Machine :=
  { m with cpu := { m.cpu with toRegisters := m.cpu.toRegisters.set reg v } }

/-- A step that changes no cell but one, and no register but the flags and the program counter. -/
structure ChangesOnly (m : Machine) (a : UInt16) : Prop where
  answer : ∃ used, m.step.1 = .ok used
  kept : ∀ b, b ≠ a → m.step.2.memory.read b = m.memory.read b
  a : m.step.2.cpu.a = m.cpu.a
  x : m.step.2.cpu.x = m.cpu.x
  y : m.step.2.cpu.y = m.cpu.y
  sp : m.step.2.cpu.sp = m.cpu.sp

/-- A step does to a cell what another does to a register. -/
structure ModifiesLike (m m' : Machine) (a : UInt16) (reg : Register) : Prop where
  answer : ∃ used, m'.step.1 = .ok used
  value : m.step.2.memory.read a = m'.step.2.cpu.get reg
  status : m.step.2.cpu.status = m'.step.2.cpu.status

variable {m : Machine} {op : ModifyOp} {l : Location} {reg : Register}

theorem Performs.changesOnly (h : m.Performs (.modify op (.cell l))) :
    m.ChangesOnly (l.effective m.cpu.toRegisters m.memory) := by
  refine ⟨⟨_, congrArg Prod.fst h.step_eq⟩, ?_, ?_, ?_, ?_, ?_⟩
  · intro b hb
    rw [h.step_eq]
    exact Memory.read_write_of_ne _ _ (Ne.symm hb)
  · rw [h.step_eq]
    rfl
  · rw [h.step_eq]
    rfl
  · rw [h.step_eq]
    rfl
  · rw [h.step_eq]
    rfl

/-- An operation on a register that was given a value makes of it what it would of a cell. -/
theorem performs_register {i : Instruction} {opcode : UInt8} (h : m.cpu.halted = none)
    (hdecode : decode opcode = some i) (hi : i.Modifies op reg) (v : UInt8) :
    let m' := (m.withRegister reg v).withOpcode opcode
    (∃ used, m'.step.1 = .ok used) ∧
      m'.step.2.cpu.get reg = op.result m.cpu.status v ∧
      m'.step.2.cpu.status = op.status m.cpu.status v := by
  intro m'
  have hp : m'.Performs i :=
    ⟨h, ((m.withRegister reg v).instruction_withOpcode opcode).trans hdecode, hi.admitted _⟩
  have hreg : m'.cpu.get reg = v := Registers.get_set_self _ _ _
  have hstatus : m'.cpu.status = m.cpu.status := by
    change (m.cpu.toRegisters.set reg v).status = _
    cases reg <;> rfl
  refine ⟨⟨_, congrArg Prod.fst hp.step_eq⟩, ?_, ?_⟩
  · rw [hp.step_eq, ← hstatus]
    exact (hi.value _ _).trans (congrArg (op.result m'.cpu.status) hreg)
  · rw [hp.step_eq, ← hstatus]
    exact (hi.status _ _).trans (congrArg (op.status m'.cpu.status) hreg)

/-- The forms of a shift or a step by one that change a cell do to it what the form of the same name
does to a register, with the same flags, even if the cell is a byte of the instruction itself. -/
theorem step_modify_cell (m : Machine) (opcode : UInt8) (op : ModifyOp) (l : Location)
    (h : m.cpu.halted = none) (hrow : (opcode, op, l) ∈ modifyTable)
    (hopcode : m.memory.read m.cpu.pc = opcode) :
    let a := l.effective m.cpu.toRegisters m.memory
    l.Names m.cpu.toRegisters m.memory a ∧
    m.ChangesOnly a ∧
    ∀ opcode' reg, (opcode', op, reg) ∈ registerTable →
      m.ModifiesLike ((m.withRegister reg (m.memory.read a)).withOpcode opcode') a reg := by
  intro a
  have hp : m.Performs (.modify op (.cell l)) :=
    ⟨h, (congrArg decode hopcode).trans (decode_of_mem_modifyTable hrow), rfl⟩
  refine ⟨names_effective l _ _, hp.changesOnly, ?_⟩
  intro opcode' reg hrow'
  obtain ⟨i, hdecode, hi⟩ := modifies_of_mem_registerTable hrow'
  obtain ⟨hanswer, hvalue, hstatus⟩ := performs_register h hdecode hi (m.memory.read a)
  refine ⟨hanswer, ?_, ?_⟩
  · rw [hvalue, hp.step_eq]
    exact Instruction.read_modified _ _ op l
  · rw [hstatus, hp.step_eq]
    rfl

/-- `INC` of its own operand byte: the cell is the one that the old operand names. -/
theorem step_modify_cell_own_operand :
    let m := holding [0xEE, 0x01, 0x00]
    m.cpu.halted = none ∧ m.memory.read m.cpu.pc = 0xEE ∧
      m.step.2.memory.read 1 = 2 ∧ m.step.2.memory.read 2 = 0 ∧
      m.ModifiesLike ((m.withRegister .x 1).withOpcode 0xE8) 1 .x := by
  intro m
  have hread : ∀ a, m.memory.read a = [0xEE, 0x01, 0x00].getD a.toNat 0 :=
    read_holding [0xEE, 0x01, 0x00] (by decide)
  have hopcode : m.memory.read m.cpu.pc = 0xEE := hread 0
  have heffective : Location.absolute.effective m.cpu.toRegisters m.memory = 1 := by
    change m.memory.wordAt 1 = 1
    rw [Memory.wordAt, hread, hread]
    rfl
  obtain ⟨-, hchanges, hlike⟩ :=
    m.step_modify_cell 0xEE .increment .absolute rfl (by decide) hopcode
  have hx := hlike 0xE8 .x (by decide)
  rw [heffective, hread] at hx
  rw [heffective] at hchanges
  have hi : ((m.withRegister .x 1).withOpcode 0xE8).Performs (.incrementIndex .x) :=
    ⟨rfl, (m.withRegister .x 1).instruction_withOpcode 0xE8, rfl⟩
  have hvalue : ((m.withRegister .x 1).withOpcode 0xE8).step.2.cpu.get .x = 2 := by
    rw [hi.step_eq]
    rfl
  exact ⟨rfl, hopcode, hx.value.trans hvalue, (hchanges.kept 2 (by decide)).trans (hread 2), hx⟩

end Machine

end Mos6502
