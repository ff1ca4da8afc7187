import Mathlib.Algebra.Group.Nat.Defs
import Mos6502.Proofs.Step

namespace Mos6502

/-- The documented opcodes, in a row for each high digit. -/
def documentedOpcodes : List UInt8 :=
  [0x00, 0x01, 0x05, 0x06, 0x08, 0x09, 0x0A, 0x0D, 0x0E,
    0x10, 0x11, 0x15, 0x16, 0x18, 0x19, 0x1D, 0x1E,
    0x20, 0x21, 0x24, 0x25, 0x26, 0x28, 0x29, 0x2A, 0x2C, 0x2D, 0x2E,
    0x30, 0x31, 0x35, 0x36, 0x38, 0x39, 0x3D, 0x3E,
    0x40, 0x41, 0x45, 0x46, 0x48, 0x49, 0x4A, 0x4C, 0x4D, 0x4E,
    0x50, 0x51, 0x55, 0x56, 0x58, 0x59, 0x5D, 0x5E,
    0x60, 0x61, 0x65, 0x66, 0x68, 0x69, 0x6A, 0x6C, 0x6D, 0x6E,
    0x70, 0x71, 0x75, 0x76, 0x78, 0x79, 0x7D, 0x7E,
    0x81, 0x84, 0x85, 0x86, 0x88, 0x8A, 0x8C, 0x8D, 0x8E,
    0x90, 0x91, 0x94, 0x95, 0x96, 0x98, 0x99, 0x9A, 0x9D,
    0xA0, 0xA1, 0xA2, 0xA4, 0xA5, 0xA6, 0xA8, 0xA9, 0xAA, 0xAC, 0xAD, 0xAE,
    0xB0, 0xB1, 0xB4, 0xB5, 0xB6, 0xB8, 0xB9, 0xBA, 0xBC, 0xBD, 0xBE,
    0xC0, 0xC1, 0xC4, 0xC5, 0xC6, 0xC8, 0xC9, 0xCA, 0xCC, 0xCD, 0xCE,
    0xD0, 0xD1, 0xD5, 0xD6, 0xD8, 0xD9, 0xDD, 0xDE,
    0xE0, 0xE1, 0xE4, 0xE5, 0xE6, 0xE8, 0xE9, 0xEA, 0xEC, 0xED, 0xEE,
    0xF0, 0xF1, 0xF5, 0xF6, 0xF8, 0xF9, 0xFD, 0xFE]

/-- `ADC` and `SBC` in their eight modes. -/
def arithmeticOpcodes : List UInt8 :=
  [0x61, 0x65, 0x69, 0x6D, 0x71, 0x75, 0x79, 0x7D,
    0xE1, 0xE5, 0xE9, 0xED, 0xF1, 0xF5, 0xF9, 0xFD]

theorem length_documentedOpcodes : documentedOpcodes.length = 151 := by decide +kernel

theorem mem_filter_bytes (p : UInt8 → Bool) (b : UInt8) :
    b ∈ ((List.range 256).map UInt8.ofNat).filter p ↔ p b = true := by
  have hmem : b ∈ (List.range 256).map UInt8.ofNat :=
    List.mem_map.mpr ⟨b.toNat, List.mem_range.mpr b.toNat_lt, UInt8.ofNat_toNat⟩
  simp [List.mem_filter, hmem]

theorem mem_documentedOpcodes (opcode : UInt8) :
    opcode ∈ documentedOpcodes ↔ (decode opcode).isSome = true := by
  have hall : documentedOpcodes =
      ((List.range 256).map UInt8.ofNat).filter fun opcode => (decode opcode).isSome := by
    decide +kernel
  rw [hall, mem_filter_bytes]

/-- The arithmetic opcodes are those that a set decimal flag refuses. -/
theorem mem_arithmeticOpcodes (opcode : UInt8) :
    opcode ∈ arithmeticOpcodes ↔
      (decode opcode).any (Instruction.refused { decimal := true }) = true := by
  have hall : arithmeticOpcodes = ((List.range 256).map UInt8.ofNat).filter fun opcode =>
      (decode opcode).any (Instruction.refused { decimal := true }) := by
    decide +kernel
  rw [hall, mem_filter_bytes]

theorem documented_of_arithmetic {opcode : UInt8} (h : opcode ∈ arithmeticOpcodes) :
    opcode ∈ documentedOpcodes := by
  rw [mem_arithmeticOpcodes] at h
  rw [mem_documentedOpcodes]
  cases hi : decode opcode with
  | none =>
    rw [hi] at h
    cases h
  | some i => rfl

theorem refused_iff {opcode : UInt8} {i : Instruction} (h : decode opcode = some i) (s : Status) :
    i.refused s = true ↔ opcode ∈ arithmeticOpcodes ∧ s.decimal = true := by
  rw [mem_arithmeticOpcodes, h, Option.any_some]
  cases i with
  | read op source => simp [Instruction.refused]
  | _ => simp [Instruction.refused]

/-- The effective address in each mode, from the operand bytes behind the opcode. Four modes have
none. -/
def Mode.address (r : Registers) (m : Memory) : Mode → Option UInt16
  | zeroPage => some (m.read (r.pc + 1)).toUInt16
  | zeroPageX => some (m.read (r.pc + 1) + r.x).toUInt16
  | zeroPageY => some (m.read (r.pc + 1) + r.y).toUInt16
  | absolute => some (m.wordAt (r.pc + 1))
  | absoluteX => some (m.wordAt (r.pc + 1) + r.x.toUInt16)
  | absoluteY => some (m.wordAt (r.pc + 1) + r.y.toUInt16)
  | indirect =>
    let pointer := m.wordAt (r.pc + 1)
    some (word (m.read pointer) (m.read (nextInPage pointer)))
  | indirectX => some (m.pointerAt (m.read (r.pc + 1) + r.x))
  | indirectY => some (m.pointerAt (m.read (r.pc + 1)) + r.y.toUInt16)
  | implied | accumulator | immediate | relative => none

theorem Location.mode_address (l : Location) (r : Registers) (m : Memory) :
    l.mode.address r m = some (l.effective r m) := by
  cases l with
  | zeroPageIndexed i => cases i <;> rfl
  | absoluteIndexed i => cases i <;> rfl
  | _ => rfl

namespace Instruction

/-- Asks its mode for an effective address. A bit test does so always, any other read unless its
byte is in the instruction, and a change in place unless it is about the accumulator. -/
def resolves : Instruction → Bool
  | read .test _ | store _ _ | jump | jumpIndirect => true
  | read _ source => source.mode ≠ .immediate
  | modify _ target => target.mode ≠ .accumulator
  | _ => false

/-- The address that an instruction works at: the cell that it reads, writes or changes, or where
a jump leads. -/
def workedAt (r : Registers) (m : Memory) : Instruction → Option UInt16
  | read _ (.cell l) | store _ l | modify _ (.cell l) => some (l.effective r m)
  | jump => some (jump.next r m)
  | jumpIndirect => some (jumpIndirect.next r m)
  | _ => none

end Instruction

/-- There is no bit test of a byte in the instruction. -/
theorem decode_ne_testImmediate (opcode : UInt8) :
    decode opcode ≠ some (.read .test .immediate) := by
  intro h
  have hall : ∀ n < 256, (decode (UInt8.ofNat n)).all (· ≠ .read .test .immediate) = true := by
    decide +kernel
  have hne := decode_all hall h
  rw [decide_eq_true_eq] at hne
  exact hne rfl

/-- Every instruction that asks for an effective address is paired with a mode that has one. -/
theorem address_of_resolves {opcode : UInt8} {i : Instruction} (h : decode opcode = some i)
    (hr : i.resolves = true) (r : Registers) (m : Memory) :
    ∃ a, i.mode.address r m = some a ∧ i.workedAt r m = some a := by
  cases i with
  | read op source =>
    cases source with
    | immediate =>
      cases op with
      | test => exact absurd h (decode_ne_testImmediate opcode)
      | _ => cases hr
    | cell l => exact ⟨_, l.mode_address r m, rfl⟩
  | store reg l => exact ⟨_, l.mode_address r m, rfl⟩
  | modify op target =>
    cases target with
    | accumulator => cases hr
    | cell l => exact ⟨_, l.mode_address r m, rfl⟩
  | jump => exact ⟨_, rfl, rfl⟩
  | jumpIndirect => exact ⟨_, rfl, rfl⟩
  | _ => cases hr

theorem readCost_status (source : Source) (r : Registers) (m : Memory) (s : Status) :
    source.readCost { r with status := s } m = source.readCost r m := by
  cases source with
  | immediate => rfl
  | cell l =>
    cases l with
    | absoluteIndexed i => cases i <;> rfl
    | _ => rfl

namespace Machine

/-- The machine with the decimal flag clear. -/
def binary (m : Machine) : Machine :=
  { m with cpu := { m.cpu with status := { m.cpu.status with decimal := false } } }

/-- With the decimal flag clear, an instruction that the flag refuses is carried out, and costs what
its refusal did. -/
theorem step_binary {m : Machine} {i : Instruction} (h : m.cpu.halted = none)
    (hi : m.instruction = some i) (hr : i.refused m.cpu.status = true) :
    m.binary.step.1 = .ok (reported (i.cost m.cpu.toRegisters m.memory)) := by
  cases i with
  | read op source =>
    have hadmitted : (Instruction.read op source).refused m.binary.cpu.status = false :=
      Bool.and_false _
    have hp : m.binary.Performs (.read op source) := ⟨h, hi, hadmitted⟩
    have hcost := readCost_status source m.cpu.toRegisters m.memory m.binary.cpu.status
    rw [hp.step_eq]
    exact congrArg (fun cost => Except.ok (reported cost)) hcost
  | _ => cases hr

/-- What a step that fails has done: it names the opcode at the program counter, which went on
behind the bytes that were fetched, and it took cycles. All else is as before. -/
structure FaultsWith (m : Machine) (fault : Fault) : Prop where
  opcode : fault.opcode = m.memory.read m.cpu.pc
  address : fault.address = m.cpu.pc
  memory : m.step.2.memory = m.memory
  registers : m.step.2.cpu.toRegisters = { m.cpu.toRegisters with pc := m.step.2.cpu.pc }
  halted : m.step.2.cpu.halted = some fault
  counted : m.cpu.totalCycles.toNat + fault.cycles.toNat < 2 ^ 64 →
    m.step.2.cpu.totalCycles.toNat = m.cpu.totalCycles.toNat + fault.cycles.toNat
  unknown : fault.cause = .unknownOpcode → m.step.2.cpu.pc = m.cpu.pc + 1 ∧ fault.cycles = 1
  decimal : fault.cause = .decimalMode → ∃ i, m.instruction = some i ∧
    m.step.2.cpu.pc = m.cpu.pc + 1 + UInt16.ofNat i.mode.operandLength ∧
    fault.cycles.toNat = i.cost m.cpu.toRegisters m.memory ∧
    m.binary.step.1 = .ok fault.cycles

theorem toNat_add_cycles {total : UInt64} {cycles : UInt32}
    (h : total.toNat + cycles.toNat < 2 ^ 64) :
    (total + cycles.toUInt64).toNat = total.toNat + cycles.toNat := by
  rw [UInt64.toNat_add, UInt32.toNat_toUInt64]
  exact Nat.mod_eq_of_lt h

theorem faultsWith_unknown {m : Machine} (h : m.cpu.halted = none) (hi : m.instruction = none) :
    m.FaultsWith ⟨.unknownOpcode, m.memory.read m.cpu.pc, m.cpu.pc, 1⟩ := by
  have hstep := m.step_unknown h hi
  refine ⟨rfl, rfl, ?_, ?_, ?_, ?_, ?_, nofun⟩
  · rw [hstep]
  · rw [hstep]
  · rw [hstep]
  · intro hfits
    rw [hstep]
    exact toNat_add_cycles hfits
  · intro _
    rw [hstep]
    exact ⟨rfl, rfl⟩

theorem faultsWith_refused {m : Machine} {i : Instruction} (h : m.cpu.halted = none)
    (hi : m.instruction = some i) (hr : i.refused m.cpu.status = true) :
    m.FaultsWith ⟨.decimalMode, m.memory.read m.cpu.pc, m.cpu.pc,
      reported (i.cost m.cpu.toRegisters m.memory)⟩ := by
  have hstep := m.step_refused i h hi hr
  refine ⟨rfl, rfl, ?_, ?_, ?_, ?_, nofun, ?_⟩
  · rw [hstep]
  · rw [hstep]
  · rw [hstep]
  · intro hfits
    rw [hstep]
    exact toNat_add_cycles hfits
  · intro _
    refine ⟨i, hi, ?_, toNat_reported_cost hi, step_binary h hi hr⟩
    rw [hstep]
    exact following_eq i.mode m.cpu.pc

theorem error_cause_iff (fault : Fault) (cause : Cause) :
    (∃ f, (Except.error fault : Except Fault UInt32) = .error f ∧ f.cause = cause) ↔
      fault.cause = cause := by
  constructor
  · rintro ⟨f, ⟨⟩, hc⟩
    exact hc
  · exact fun hc => ⟨fault, rfl, hc⟩

/-- Each way that a step ends, told by the opcode at the program counter and the decimal flag. -/
theorem step_faults (m : Machine) (h : m.cpu.halted = none) :
    let opcode := m.memory.read m.cpu.pc
    let refused := opcode ∈ arithmeticOpcodes ∧ m.cpu.status.decimal = true
    (∀ i, m.instruction = some i → i.resolves = true →
      ∃ a, i.mode.address m.cpu.toRegisters m.memory = some a ∧
        i.workedAt m.cpu.toRegisters m.memory = some a) ∧
    ((∃ fault, m.step.1 = .error fault ∧ fault.cause = .unknownOpcode) ↔
      opcode ∉ documentedOpcodes) ∧
    ((∃ fault, m.step.1 = .error fault ∧ fault.cause = .decimalMode) ↔ refused) ∧
    ((∃ used, m.step.1 = .ok used) ↔ opcode ∈ documentedOpcodes ∧ ¬ refused) ∧
    ∀ fault, m.step.1 = .error fault → m.FaultsWith fault := by
  intro opcode refused
  have hdocumented : opcode ∈ documentedOpcodes ↔ m.instruction.isSome = true :=
    mem_documentedOpcodes opcode
  refine ⟨fun i hi hr => address_of_resolves hi hr _ _, ?_⟩
  rcases m.running_cases h with hi | ⟨i, hi, hr⟩ | ⟨i, hp⟩
  · have ha : m.step.1 = .error ⟨.unknownOpcode, opcode, m.cpu.pc, 1⟩ := by
      rw [m.step_unknown h hi]
    have hunknown : opcode ∉ documentedOpcodes := by simp [hdocumented, hi]
    have hrefused : ¬ refused := fun hr => hunknown (documented_of_arithmetic hr.1)
    simp only [ha, error_cause_iff]
    refine ⟨iff_of_true trivial hunknown, iff_of_false nofun hrefused,
      iff_of_false nofun fun hd => hunknown hd.1, ?_⟩
    rintro fault ⟨⟩
    exact faultsWith_unknown h hi
  · have ha : m.step.1 = .error ⟨.decimalMode, opcode, m.cpu.pc,
        reported (i.cost m.cpu.toRegisters m.memory)⟩ := by
      rw [m.step_refused i h hi hr]
    have hknown : opcode ∈ documentedOpcodes := by simp [hdocumented, hi]
    have hrefused : refused := (refused_iff hi _).mp hr
    simp only [ha, error_cause_iff]
    refine ⟨iff_of_false nofun fun hu => hu hknown, iff_of_true trivial hrefused,
      iff_of_false nofun fun hd => hd.2 hrefused, ?_⟩
    rintro fault ⟨⟩
    exact faultsWith_refused h hi hr
  · have ha : m.step.1 = .ok (reported (i.cost m.cpu.toRegisters m.memory)) := by
      rw [hp.step_eq]
    have hknown : opcode ∈ documentedOpcodes := by simp [hdocumented, hp.current]
    have hrefused : ¬ refused := by
      intro hr
      have hset := (refused_iff hp.current _).mpr hr
      rw [hp.admitted] at hset
      cases hset
    simp only [ha]
    exact ⟨iff_of_false nofun fun hu => hu hknown, iff_of_false nofun hrefused,
      iff_of_true ⟨_, rfl⟩ ⟨hknown, hrefused⟩, nofun⟩

theorem step_faults_crossing :
    let m : Machine :=
      { holding [0x7D, 0xFF, 0x10] with cpu := { x := 1, status := { decimal := true } } }
    m.cpu.halted = none ∧ ∃ fault, m.step.1 = .error fault ∧ fault.cause = .decimalMode ∧
      fault.cycles = 5 ∧ m.step.2.cpu.pc = 3 ∧ m.binary.step.1 = .ok 5 := by
  intro m
  have hread : ∀ a, m.memory.read a = [0x7D, 0xFF, 0x10].getD a.toNat 0 :=
    read_holding [0x7D, 0xFF, 0x10] (by decide)
  let i : Instruction := .read .add (.cell (.absoluteIndexed .x))
  have hi : m.instruction = some i := congrArg decode (hread 0)
  obtain ⟨-, -, hdecimal, -, hfault⟩ := m.step_faults rfl
  have harithmetic : m.memory.read m.cpu.pc ∈ arithmeticOpcodes := by
    rw [hread]
    decide
  obtain ⟨fault, ha, hcause⟩ := hdecimal.mpr ⟨harithmetic, rfl⟩
  obtain ⟨i', hi', hpc, hcost, hbinary⟩ := (hfault fault ha).decimal hcause
  obtain rfl : i = i' := Option.some.inj (hi.symm.trans hi')
  have hcarries : Location.carries m.cpu.toRegisters m.memory (.absoluteIndexed .x) = true := by
    change decide (255 < (low (m.memory.wordAt 1)).toNat + 1) = true
    rw [Memory.wordAt, hread, hread]
    rfl
  have hcycles : fault.cycles = 5 := by
    apply UInt32.toNat_inj.mp
    rw [hcost]
    change 4 + (Location.carries m.cpu.toRegisters m.memory (.absoluteIndexed .x)).toNat = 5
    rw [hcarries]
    rfl
  rw [hcycles] at hbinary
  exact ⟨rfl, fault, ha, hcause, hcycles, hpc, hbinary⟩

end Machine

end Mos6502
