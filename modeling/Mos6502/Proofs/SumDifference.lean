import Mos6502.Proofs.Digits
import Mos6502.Proofs.Faults

namespace Mos6502

/-- `ADC`, then `SBC`, with the operand that each of their opcodes works on. -/
def arithmeticTable : List (UInt8 × ReadOp × Source) :=
  [(0x61, .add, .cell .indirectX),
    (0x65, .add, .cell .zeroPage),
    (0x69, .add, .immediate),
    (0x6D, .add, .cell .absolute),
    (0x71, .add, .cell .indirectY),
    (0x75, .add, .cell (.zeroPageIndexed .x)),
    (0x79, .add, .cell (.absoluteIndexed .y)),
    (0x7D, .add, .cell (.absoluteIndexed .x)),
    (0xE1, .subtract, .cell .indirectX),
    (0xE5, .subtract, .cell .zeroPage),
    (0xE9, .subtract, .immediate),
    (0xED, .subtract, .cell .absolute),
    (0xF1, .subtract, .cell .indirectY),
    (0xF5, .subtract, .cell (.zeroPageIndexed .x)),
    (0xF9, .subtract, .cell (.absoluteIndexed .y)),
    (0xFD, .subtract, .cell (.absoluteIndexed .x))]

theorem exists_mem_arithmeticTable {opcode : UInt8} (h : opcode ∈ arithmeticOpcodes) :
    ∃ op source, (opcode, op, source) ∈ arithmeticTable := by
  have hopcodes : arithmeticOpcodes = arithmeticTable.map Prod.fst := rfl
  rw [hopcodes] at h
  obtain ⟨⟨opcode, op, source⟩, hrow, rfl⟩ := List.mem_map.mp h
  exact ⟨op, source, hrow⟩

theorem decode_of_mem_arithmeticTable {opcode : UInt8} {op : ReadOp} {source : Source}
    (h : (opcode, op, source) ∈ arithmeticTable) :
    decode opcode = some (.read op source) ∧ op.isArithmetic = true := by
  have hall : ∀ row ∈ arithmeticTable,
      decode row.1 = some (.read row.2.1 row.2.2) ∧ row.2.1.isArithmetic = true := by
    decide
  exact hall _ h

namespace Registers

variable (r : Registers) (b : UInt8)

/-- `r'` holds the sum of the accumulator of `r`, a byte and the carry. Its carry tells that the
sum exceeds a byte, its overflow that the sum exceeds a signed byte. -/
structure Adds (r : Registers) (b : UInt8) (r' : Registers) : Prop where
  a : r'.a.toNat = (r.a.toNat + b.toNat + r.status.carry.toNat) % 256
  carry : r'.status.carry = true ↔ 255 < r.a.toNat + b.toNat + r.status.carry.toNat
  overflow : r'.status.overflow = true ↔ ¬ SumFits r.a b r.status.carry

/-- `r'` holds the difference of the accumulator of `r` and a byte, less one if the carry is clear.
Its carry tells that nothing is borrowed, its overflow that the difference exceeds a signed byte. -/
structure Subtracts (r : Registers) (b : UInt8) (r' : Registers) : Prop where
  a : (r'.a.toNat : Int) = (r.a.toNat - b.toNat - (!r.status.carry).toNat) % 256
  carry : r'.status.carry = true ↔ b.toNat + (!r.status.carry).toNat ≤ r.a.toNat
  overflow : r'.status.overflow = true ↔ ¬ DifferenceFits r.a b r.status.carry

/-- All that an arithmetic operation does to the registers, the program counter apart. -/
structure Computes (r : Registers) (op : ReadOp) (b : UInt8) (r' : Registers) : Prop where
  sum : op = .add → r.Adds b r'
  difference : op = .subtract → r.Subtracts b r'
  tells : r'.status.Tells r'.a
  x : r'.x = r.x
  y : r'.y = r.y
  sp : r'.sp = r.sp
  kept : ∀ f ∉ [Flag.carry, .zero, .overflow, .negative], r'.status.get f = r.status.get f

theorem adds_addWithCarry : r.Adds b (r.addWithCarry b) := by
  obtain ⟨ha, hcarry⟩ := mod_of_digits (r.addWithCarry b).a.toNat_lt (r.value_addWithCarry b)
  exact ⟨ha, hcarry, r.overflow_addWithCarry b⟩

theorem subtracts_subtractWithBorrow : r.Subtracts b (r.subtractWithBorrow b) where
  a := by
    have hb := b.toNat_lt
    have hnot : (~~~b).toNat = 255 - b.toNat := UInt8.toNat_not b
    have hborrow := toNat_borrow r.status.carry
    have ha := (r.adds_addWithCarry (~~~b)).a
    rw [subtractWithBorrow, ha, hnot]
    omega
  carry := r.carry_subtractWithBorrow b
  overflow := r.overflow_subtractWithBorrow b

/-- Either operation is a sum, of another byte for a difference. -/
theorem apply_eq_addWithCarry {op : ReadOp} (h : op.isArithmetic = true) :
    ∃ term, op.apply r b = r.addWithCarry term := by
  cases op with
  | add => exact ⟨b, rfl⟩
  | subtract => exact ⟨~~~b, rfl⟩
  | _ => cases h

theorem computes_apply {op : ReadOp} (h : op.isArithmetic = true) (pc : UInt16) :
    r.Computes op b { op.apply r b with pc := pc } := by
  obtain ⟨term, hterm⟩ := r.apply_eq_addWithCarry b h
  constructor
  · rintro rfl
    have hsum := r.adds_addWithCarry b
    exact ⟨hsum.a, hsum.carry, hsum.overflow⟩
  · rintro rfl
    have hdifference := r.subtracts_subtractWithBorrow b
    exact ⟨hdifference.a, hdifference.carry, hdifference.overflow⟩
  · rw [hterm]
    exact ⟨rfl, rfl⟩
  · rw [hterm]
    rfl
  · rw [hterm]
    rfl
  · rw [hterm]
    rfl
  · intro f hf
    rw [hterm]
    have hstatus := Instruction.status_apply r .add term
    exact (congrArg (Status.get · f) hstatus).trans (r.status.get_updated _ hf)

end Registers

namespace Machine

/-- With the decimal flag clear, each of the sixteen arithmetic opcodes is carried out, and comes to
the exact sum or difference with the byte that its mode names. -/
theorem step_arithmetic (m : Machine) (h : m.cpu.halted = none)
    (hbinary : m.cpu.status.decimal = false)
    (hopcode : m.memory.read m.cpu.pc ∈ arithmeticOpcodes) :
    ∃ op source, (m.memory.read m.cpu.pc, op, source) ∈ arithmeticTable ∧
      (∃ used, m.step.1 = .ok used) ∧ m.step.2.memory = m.memory ∧
      m.cpu.toRegisters.Computes op (source.operand m.cpu.toRegisters m.memory)
        m.step.2.cpu.toRegisters := by
  obtain ⟨op, source, hrow⟩ := exists_mem_arithmeticTable hopcode
  obtain ⟨hdecode, hop⟩ := decode_of_mem_arithmeticTable hrow
  have hadmitted : (Instruction.read op source).refused m.cpu.status = false := by
    rw [Instruction.refused, hbinary, Bool.and_false]
  have hp : m.Performs (.read op source) := ⟨h, hdecode, hadmitted⟩
  refine ⟨op, source, hrow, ?_, ?_, ?_⟩
  · rw [hp.step_eq]
    exact ⟨_, rfl⟩
  · rw [hp.step_eq]
    rfl
  · rw [hp.step_eq]
    exact Registers.computes_apply _ _ hop _

/-- The greatest signed byte less the least one, with a borrow: it borrows and overflows. -/
theorem step_arithmetic_overflowed :
    let m : Machine := { holding [0xE5, 0x02, 0x80] with cpu := { a := 0x7F } }
    m.cpu.halted = none ∧ m.cpu.status.decimal = false ∧
    m.memory.read m.cpu.pc ∈ arithmeticOpcodes ∧
    m.step.2.cpu.a = 0xFE ∧ m.step.2.cpu.status.carry = false ∧
    m.step.2.cpu.status.overflow = true := by
  intro m
  have hread : ∀ a, m.memory.read a = [0xE5, 0x02, 0x80].getD a.toNat 0 :=
    read_holding [0xE5, 0x02, 0x80] (by decide)
  have hopcode : m.memory.read m.cpu.pc = 0xE5 := hread 0
  have hmem : m.memory.read m.cpu.pc ∈ arithmeticOpcodes := by
    rw [hopcode]
    decide
  obtain ⟨op, source, hrow, -, -, hresult⟩ := m.step_arithmetic rfl rfl hmem
  rw [hopcode] at hrow
  obtain ⟨rfl, rfl⟩ : op = .subtract ∧ source = .cell .zeroPage := by
    simpa [arithmeticTable] using hrow
  have hbyte : (Source.cell .zeroPage).operand m.cpu.toRegisters m.memory = 0x80 := by
    change m.memory.read (m.memory.read 1).toUInt16 = 0x80
    rw [hread, hread]
    decide
  have hdifference := hresult.difference rfl
  rw [hbyte] at hdifference
  have hvalue : (m.step.2.cpu.a.toNat : Int) = 0xFE := hdifference.a
  have hcarry : m.step.2.cpu.status.carry ≠ true := fun hset =>
    absurd (hdifference.carry.mp hset) (by decide)
  have hoverflow : m.step.2.cpu.status.overflow = true :=
    hdifference.overflow.mpr fun hfits => absurd hfits.2 (by decide)
  exact ⟨rfl, rfl, hmem, UInt8.toNat_inj.mp (Int.ofNat_inj.mp hvalue),
    Bool.eq_false_of_not_eq_true hcarry, hoverflow⟩

end Machine

end Mos6502
