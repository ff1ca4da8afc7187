import Mos6502.Proofs.NextAddress
import Mos6502.Proofs.ReadForms
import Mos6502.Proofs.SumDifference

namespace Mos6502

/-- `CMP` in its eight modes, each with the `SBC` of the same mode and the operand of both. -/
def comparisonTable : List (UInt8 × UInt8 × Source) :=
  [(0xC1, 0xE1, .cell .indirectX),
    (0xC5, 0xE5, .cell .zeroPage),
    (0xC9, 0xE9, .immediate),
    (0xCD, 0xED, .cell .absolute),
    (0xD1, 0xF1, .cell .indirectY),
    (0xD5, 0xF5, .cell (.zeroPageIndexed .x)),
    (0xD9, 0xF9, .cell (.absoluteIndexed .y)),
    (0xDD, 0xFD, .cell (.absoluteIndexed .x))]

theorem decode_of_mem_comparisonTable {opcode opcode' : UInt8} {source : Source}
    (h : (opcode, opcode', source) ∈ comparisonTable) :
    decode opcode = some (.read (.compare .a) source) ∧
      decode opcode' = some (.read .subtract source) := by
  have hall : ∀ row ∈ comparisonTable,
      decode row.1 = some (.read (.compare .a) row.2.2) ∧
        decode row.2.1 = some (.read .subtract row.2.2) := by
    decide
  exact hall _ h

/-- The bytes behind an address do not come round to it. -/
theorem notMem_addressesFrom_succ (a : UInt16) {n : Nat} (h : n < UInt16.size) :
    a ∉ addressesFrom (a + 1) n := by
  intro hmem
  obtain ⟨i, hi, heq⟩ := mem_addressesFrom.mp hmem
  have hnat := congrArg UInt16.toNat heq
  have ha := a.toNat_lt
  have hsize : UInt16.size = 65536 := rfl
  rw [← add_ofNat_succ, UInt16.toNat_add, UInt16.toNat_ofNat'] at hnat
  omega

theorem operandLength_le (mode : Mode) : mode.operandLength ≤ 2 := by
  cases mode <;> decide

/-- An operand and what it costs depend on the bytes that it is looked up in. -/
theorem operand_congr (source : Source) (op : ReadOp) (r : Registers) {m m' : Memory}
    (h : ∀ a ∈ addressesFrom (r.pc + 1) source.mode.operandLength ++
      Instruction.lookups r m (.read op source), m'.read a = m.read a) :
    source.operand r m' = source.operand r m ∧ source.readCost r m' = source.readCost r m := by
  rw [← reads_byte] at h
  obtain ⟨hvalue, hcycles⟩ := Bus.run_congr (source.byte { r with pc := r.pc + 1 }) h
  have hbyte := outcome_byte source r m
  have hbyte' := outcome_byte source r m'
  have hoperand := congrArg (fun o => o.value.1) hbyte
  have hoperand' := congrArg (fun o => o.value.1) hbyte'
  have hcost := congrArg Bus.Outcome.cycles hbyte
  have hcost' := congrArg Bus.Outcome.cycles hbyte'
  constructor
  · exact hoperand'.symm.trans ((congrArg Prod.fst hvalue).trans hoperand)
  · exact hcost'.symm.trans ((congrArg (1 + ·) hcycles).trans hcost)

namespace Registers

variable (r : Registers) (b : UInt8)

/-- With nothing borrowed before, the accumulator takes the difference modulo 256. -/
theorem a_subtractWithBorrow (h : r.status.carry = true) : (r.subtractWithBorrow b).a = r.a - b := by
  have hdifference := (r.subtracts_subtractWithBorrow b).a
  have hb := b.toNat_lt
  apply UInt8.toNat_inj.mp
  rw [h] at hdifference
  rw [UInt8.toNat_sub]
  change _ = (_ - _ - (0 : Nat) : Int) % 256 at hdifference
  omega

/-- A comparison tells of the difference what taking it would, if nothing is borrowed before. -/
theorem compare_as_difference (h : r.status.carry = true) :
    ∀ f ∈ [Flag.carry, .zero, .negative],
      (r.compare .a b).status.get f = (r.subtractWithBorrow b).status.get f := by
  have hdestination : ReadOp.subtract.destination = some .a := rfl
  have htells := Instruction.tells_apply r hdestination b
  change (r.subtractWithBorrow b).status.Tells (r.subtractWithBorrow b).a at htells
  rw [r.a_subtractWithBorrow b h] at htells
  have hcarry : (r.compare .a b).status.carry = (r.subtractWithBorrow b).status.carry := by
    rw [Bool.eq_iff_iff, r.carry_subtractWithBorrow b, h]
    exact decide_eq_true_iff
  intro f hf
  cases f with
  | carry => exact hcarry
  | zero => exact htells.1.symm
  | negative => exact htells.2.symm
  | _ => simp at hf

end Registers

namespace Machine

variable {m : Machine} {c : Condition} {source : Source} {reg : Register}

/-- Another opcode works on the same byte at the same cost, unless the byte or its pointer is the
opcode. -/
theorem operand_withOpcode (op : ReadOp) (opcode : UInt8)
    (h : m.cpu.pc ∉ Instruction.lookups m.cpu.toRegisters m.memory (.read op source)) :
    source.operand m.cpu.toRegisters (m.withOpcode opcode).memory =
        source.operand m.cpu.toRegisters m.memory ∧
      source.readCost m.cpu.toRegisters (m.withOpcode opcode).memory =
        source.readCost m.cpu.toRegisters m.memory := by
  apply operand_congr source op
  intro a ha
  apply Memory.read_write_of_ne
  rintro rfl
  rcases List.mem_append.mp ha with hown | hlooked
  · have hlength : source.mode.operandLength < UInt16.size :=
      Nat.lt_of_le_of_lt (operandLength_le _) (by decide)
    exact notMem_addressesFrom_succ _ hlength hown
  · exact h hlooked

/-- A step over a branch. Whether it is taken shows in the program counter and in the cycles. -/
structure Branches (m : Machine) (taken : Prop) : Prop where
  leads : taken → m.step.2.cpu.pc = branchTarget m.cpu.pc (m.memory.read (m.cpu.pc + 1)) ∧
    ∃ used, m.step.1 = .ok used ∧ (used = 3 ∨ used = 4)
  passes : ¬ taken → m.step.2.cpu.pc = Mode.relative.following m.cpu.pc ∧ m.step.1 = .ok 2

theorem Performs.branches (h : m.Performs (.branch c)) :
    m.Branches (m.cpu.status.get c.flag = c.value) where
  leads := by
    intro hc
    have hholds := (holds_iff c m.cpu.status).mpr hc
    have hcost : Instruction.cost m.cpu.toRegisters m.memory (.branch c) = 3 ∨
        Instruction.cost m.cpu.toRegisters m.memory (.branch c) = 4 := by
      rw [Instruction.cost, Instruction.branchCost, if_pos hholds]
      split_ifs
      · exact .inl rfl
      · exact .inr rfl
    rw [h.step_eq]
    refine ⟨Instruction.next_taken _ _ hc, _, rfl, ?_⟩
    rcases hcost with hcost | hcost
    · exact .inl (congrArg reported hcost)
    · exact .inr (congrArg reported hcost)
  passes := by
    intro hc
    have hcost : Instruction.cost m.cpu.toRegisters m.memory (.branch c) = 2 :=
      if_neg fun hholds => hc ((holds_iff c m.cpu.status).mp hholds)
    rw [h.step_eq]
    exact ⟨Instruction.next_untaken _ _ hc, congrArg (Except.ok ∘ reported) hcost⟩

theorem Branches.congr {taken taken' : Prop} (h : m.Branches taken) (hiff : taken ↔ taken') :
    m.Branches taken' := by
  rwa [← hiff]

/-- The branch that is next decides the order of two bytes without a sign. -/
structure Decides (m : Machine) (v b : UInt8) : Prop where
  atLeast : m.instruction = some (.branch .carrySet) → m.Branches (b.toNat ≤ v.toNat)
  below : m.instruction = some (.branch .carryClear) → m.Branches (v.toNat < b.toNat)
  equal : m.instruction = some (.branch .equal) → m.Branches (v = b)
  different : m.instruction = some (.branch .notEqual) → m.Branches (v ≠ b)

theorem decides_of_flags {v b : UInt8} (h : m.cpu.halted = none)
    (hcarry : m.cpu.status.carry = decide (b ≤ v)) (hzero : m.cpu.status.zero = (v == b)) :
    m.Decides v b := by
  have hbranches {c : Condition} (hi : m.instruction = some (.branch c)) :
      m.Branches (m.cpu.status.get c.flag = c.value) :=
    Performs.branches ⟨h, hi, rfl⟩
  constructor
  · intro hi
    apply (hbranches hi).congr
    change m.cpu.status.carry = true ↔ _
    rw [hcarry, decide_eq_true_iff, UInt8.le_iff_toNat_le]
  · intro hi
    apply (hbranches hi).congr
    change m.cpu.status.carry = false ↔ _
    rw [hcarry, decide_eq_false_iff_not, UInt8.le_iff_toNat_le, Nat.not_le]
  · intro hi
    apply (hbranches hi).congr
    change m.cpu.status.zero = true ↔ _
    rw [hzero, beq_iff_eq]
  · intro hi
    apply (hbranches hi).congr
    change m.cpu.status.zero = false ↔ _
    rw [hzero, beq_eq_false_iff_ne]

theorem performs_compare (h : m.cpu.halted = none)
    (hi : m.instruction = some (.read (.compare reg) source)) :
    m.Performs (.read (.compare reg) source) := ⟨h, hi, rfl⟩

/-- What a step over `CMP` has in common with the step over the `SBC` that stands in its place. -/
structure ComparesLike (m m' : Machine) : Prop where
  answer : ∃ used, m.step.1 = .ok used ∧ m'.step.1 = .ok used
  flags : ∀ f ∈ [Flag.carry, .zero, .negative],
    m.step.2.cpu.status.get f = m'.step.2.cpu.status.get f
  pc : m.step.2.cpu.pc = m'.step.2.cpu.pc
  a : m.step.2.cpu.a = m.cpu.a
  overflow : m.step.2.cpu.status.overflow = m.cpu.status.overflow
  memory : m.step.2.memory = m.memory

theorem comparesLike_subtract {opcode opcode' : UInt8} (h : m.cpu.halted = none)
    (hrow : (opcode, opcode', source) ∈ comparisonTable)
    (hopcode : m.memory.read m.cpu.pc = opcode) (hbinary : m.cpu.status.decimal = false)
    (hcarry : m.cpu.status.carry = true)
    (hcells : m.cpu.pc ∉
      Instruction.lookups m.cpu.toRegisters m.memory (.read (.compare .a) source)) :
    m.ComparesLike (m.withOpcode opcode') := by
  obtain ⟨hdecode, hdecode'⟩ := decode_of_mem_comparisonTable hrow
  have hp : m.Performs (.read (.compare .a) source) :=
    performs_compare h ((congrArg decode hopcode).trans hdecode)
  have hp' : (m.withOpcode opcode').Performs (.read .subtract source) :=
    ⟨h, (m.instruction_withOpcode opcode').trans hdecode', hbinary⟩
  obtain ⟨hoperand, hcost⟩ := operand_withOpcode (.compare .a) opcode' hcells
  refine ⟨⟨_, congrArg Prod.fst hp.step_eq, ?_⟩, ?_, ?_, ?_, ?_, ?_⟩
  · rw [hp'.step_eq]
    exact congrArg (Except.ok ∘ reported) hcost
  · intro f hf
    rw [hp.step_eq, hp'.step_eq]
    change (m.cpu.toRegisters.compare .a (source.operand _ m.memory)).status.get f =
      (m.cpu.toRegisters.subtractWithBorrow (source.operand m.cpu.toRegisters _)).status.get f
    rw [hoperand]
    exact m.cpu.toRegisters.compare_as_difference _ hcarry f hf
  · rw [hp.step_eq, hp'.step_eq]
    rfl
  · rw [hp.step_eq]
    rfl
  · rw [hp.step_eq]
    rfl
  · rw [hp.step_eq]
    rfl

/-- A comparison agrees with the difference that is taken in its place, and the branch behind it
decides the order of the register and the byte, whatever the flags were before. -/
theorem step_compare (m : Machine) (h : m.cpu.halted = none) :
    (∀ opcode opcode' source, (opcode, opcode', source) ∈ comparisonTable →
      m.memory.read m.cpu.pc = opcode → m.cpu.status.decimal = false →
      m.cpu.status.carry = true →
      m.cpu.pc ∉ Instruction.lookups m.cpu.toRegisters m.memory (.read (.compare .a) source) →
      m.ComparesLike (m.withOpcode opcode')) ∧
    ∀ reg source, m.instruction = some (.read (.compare reg) source) →
      (∃ used, m.step.1 = .ok used) ∧
        m.step.2.Decides (m.cpu.get reg) (source.operand m.cpu.toRegisters m.memory) := by
  constructor
  · intro opcode opcode' source hrow hopcode hbinary hcarry hcells
    exact comparesLike_subtract h hrow hopcode hbinary hcarry hcells
  · intro reg source hi
    have hp := performs_compare h hi
    obtain ⟨hcarry, hzero, -⟩ :=
      (Instruction.flags_after m.cpu.toRegisters m.memory (.read (.compare reg) source)).compared
        reg source rfl
    rw [hp.step_eq]
    exact ⟨⟨_, rfl⟩, decides_of_flags rfl hcarry hzero⟩

/-- The greatest byte that is positive with a sign is below the least one that is negative. -/
theorem step_compare_unsigned :
    let m : Machine := { holding [0xC5, 0x04, 0x90, 0x10, 0x80] with
      cpu := { a := 0x7F, status := { carry := true } } }
    m.cpu.halted = none ∧ m.memory.read m.cpu.pc = 0xC5 ∧ m.cpu.status.decimal = false ∧
      m.cpu.status.carry = true ∧
      m.cpu.pc ∉ Instruction.lookups m.cpu.toRegisters m.memory
        (.read (.compare .a) (.cell .zeroPage)) ∧
      m.ComparesLike (m.withOpcode 0xE5) ∧ m.step.2.step.2.cpu.pc = 0x14 := by
  intro m
  have hread : ∀ a, m.memory.read a = [0xC5, 0x04, 0x90, 0x10, 0x80].getD a.toNat 0 :=
    read_holding [0xC5, 0x04, 0x90, 0x10, 0x80] (by decide)
  have hopcode : m.memory.read m.cpu.pc = 0xC5 := hread 0
  have hlooked : Instruction.lookups m.cpu.toRegisters m.memory
      (.read (.compare .a) (.cell .zeroPage)) = [0x04] := by
    change [(m.memory.read 1).toUInt16] = [0x04]
    rw [hread]
    rfl
  have hcells : m.cpu.pc ∉ Instruction.lookups m.cpu.toRegisters m.memory
      (.read (.compare .a) (.cell .zeroPage)) := by
    rw [hlooked]
    decide
  obtain ⟨hlike, hdecides⟩ := m.step_compare rfl
  have hi : m.instruction = some (.read (.compare .a) (.cell .zeroPage)) :=
    congrArg decode hopcode
  obtain ⟨-, hdecides⟩ := hdecides .a (.cell .zeroPage) hi
  have hbyte : (Source.cell .zeroPage).operand m.cpu.toRegisters m.memory = 0x80 := by
    change m.memory.read (m.memory.read 1).toUInt16 = 0x80
    rw [hread, hread]
    rfl
  have hp := performs_compare rfl hi
  have hpc : m.step.2.cpu.pc = 2 := by
    rw [hp.step_eq]
    rfl
  have hmemory : m.step.2.memory = m.memory := by
    rw [hp.step_eq]
    rfl
  have hbranch : m.step.2.instruction = some (.branch .carryClear) := by
    rw [instruction, hpc, hmemory, hread]
    rfl
  have hbelow := hdecides.below hbranch
  rw [hbyte] at hbelow
  obtain ⟨htarget, -⟩ := hbelow.leads (by decide)
  rw [hpc, hmemory, hread] at htarget
  exact ⟨rfl, hopcode, rfl, rfl, hcells,
    hlike 0xC5 0xE5 (.cell .zeroPage) (by decide) hopcode rfl rfl hcells, htarget⟩

end Machine

end Mos6502
