import Mathlib.Tactic.SplitIfs
import Mos6502.Execution
import Mos6502.Proofs.Operand

namespace Mos6502

/-- The byte that a reading instruction at the program counter works on. -/
def Source.operand (r : Registers) (m : Memory) : Source → UInt8
  | immediate => m.read (r.pc + 1)
  | cell l => m.read (l.effective r m)

def Source.readCost (r : Registers) (m : Memory) : Source → Nat
  | immediate => 2
  | cell .zeroPage => 3
  | cell (.zeroPageIndexed _) | cell .absolute => 4
  | cell (.absoluteIndexed i) => 4 + ((Location.absoluteIndexed i).carries r m).toNat
  | cell .indirectX => 6
  | cell .indirectY => 5 + (Location.indirectY.carries r m).toNat

def Location.storeCost : Location → Nat
  | zeroPage => 3
  | zeroPageIndexed _ | absolute => 4
  | absoluteIndexed _ => 5
  | indirectX | indirectY => 6

def Target.modifyCost : Target → Nat
  | accumulator => 2
  | cell .zeroPage => 5
  | cell (.zeroPageIndexed _) | cell .absolute => 6
  | cell (.absoluteIndexed _) => 7
  | cell .indirectX | cell .indirectY => 8

/-- Where a taken branch at `pc` leads: from the next instruction by a signed byte. -/
def branchTarget (pc : UInt16) (distance : UInt8) : UInt16 :=
  Mode.relative.following pc + displacement distance

namespace Instruction

/-- A branch costs a cycle more when it is taken, and two when it is taken to another page than
that of the next instruction. -/
def branchCost (r : Registers) (m : Memory) (c : Condition) : Nat :=
  if c.holds r.status then
    if high (branchTarget r.pc (m.read (r.pc + 1))) = high (Mode.relative.following r.pc) then 3
    else 4
  else 2

/-- Cycles of an instruction at the program counter. -/
def cost (r : Registers) (m : Memory) : Instruction → Nat
  | read _ source => source.readCost r m
  | store _ l => l.storeCost
  | modify _ target => target.modifyCost
  | branch c => branchCost r m c
  | jump => 3
  | jumpIndirect => 5
  | call | returnFromCall | returnFromInterrupt => 6
  | softwareInterrupt => 7
  | pushA | pushStatus => 3
  | pullA | pullStatus => 4
  | incrementIndex _ | decrementIndex _ | transfer _ | changeFlag _ | noOperation => 2

/-- The program counter after an instruction. -/
def next (r : Registers) (m : Memory) : Instruction → UInt16
  | branch c =>
    if c.holds r.status then branchTarget r.pc (m.read (r.pc + 1))
    else Mode.relative.following r.pc
  | jump | call => m.wordAt (r.pc + 1)
  | jumpIndirect =>
    let pointer := m.wordAt (r.pc + 1)
    word (m.read pointer) (m.read (nextInPage pointer))
  | returnFromCall =>
    word (m.read (stackCell (r.sp + 1))) (m.read (stackCell (r.sp + 2))) + 1
  | softwareInterrupt => word (m.read 0xFFFE) (m.read 0xFFFF)
  | returnFromInterrupt => word (m.read (stackCell (r.sp + 2))) (m.read (stackCell (r.sp + 3)))
  | i => i.mode.following r.pc

/-- The registers after an instruction, the program counter apart. -/
def registers (r : Registers) (m : Memory) : Instruction → Registers
  | read op source => op.apply r (source.operand r m)
  | modify op .accumulator =>
    { r with a := op.result r.status r.a, status := op.status r.status r.a }
  | modify op (.cell l) => { r with status := op.status r.status (m.read (l.effective r m)) }
  | incrementIndex i => r.load i.register (r.get i.register + 1)
  | decrementIndex i => r.load i.register (r.get i.register - 1)
  | transfer t => t.apply r
  | changeFlag c => { r with status := r.status.set c.flag c.value }
  | call => { r with sp := r.sp - 2 }
  | returnFromCall => { r with sp := r.sp + 2 }
  | softwareInterrupt =>
    { r with sp := r.sp - 3, status := { r.status with interruptDisable := true } }
  | returnFromInterrupt =>
    { r with sp := r.sp + 3, status := r.status.pull (m.read (stackCell (r.sp + 1))) }
  | pushA | pushStatus => { r with sp := r.sp - 1 }
  | pullA => { r with sp := r.sp + 1 }.load .a (m.read (stackCell (r.sp + 1)))
  | pullStatus =>
    { r with sp := r.sp + 1, status := r.status.pull (m.read (stackCell (r.sp + 1))) }
  | store _ _ | branch _ | jump | jumpIndirect | noOperation => r

/-- The cells that an instruction writes, in order, with their new values. -/
def writes (r : Registers) (m : Memory) : Instruction → List (UInt16 × UInt8)
  | store reg l => [(l.effective r m, r.get reg)]
  | modify op (.cell l) =>
    [(l.effective r m, op.result r.status (m.read (l.effective r m)))]
  | pushA => [(stackCell r.sp, r.a)]
  | pushStatus => [(stackCell r.sp, r.status.pushed)]
  | call => [(stackCell r.sp, high (r.pc + 2)), (stackCell (r.sp - 1), low (r.pc + 2))]
  | softwareInterrupt =>
    [(stackCell r.sp, high (r.pc + 2)), (stackCell (r.sp - 1), low (r.pc + 2)),
      (stackCell (r.sp - 2), r.status.pushed)]
  | _ => []

def after (r : Registers) (m : Memory) (i : Instruction) : Registers :=
  { i.registers r m with pc := i.next r m }

/-- Refused while the decimal flag is set. -/
def refused (s : Status) : Instruction → Bool
  | read op _ => op.isArithmetic && s.decimal
  | _ => false

end Instruction

def Memory.writeCells (m : Memory) (ws : List (UInt16 × UInt8)) : Memory :=
  ws.foldl (fun m w => m.write w.1 w.2) m

/-- What holds of every entry of the opcode map holds of what is decoded. -/
theorem decode_all {p : Instruction → Bool}
    (h : ∀ n < 256, (decode (UInt8.ofNat n)).all p = true) {opcode : UInt8} {i : Instruction}
    (hi : decode opcode = some i) : p i = true := by
  have hall : ∀ opcode, (decode opcode).all p = true := forall_byte h
  have hopcode := hall opcode
  rw [hi] at hopcode
  exact hopcode

/-- No opcode changes a byte that is found through a pointer. -/
theorem modifyCost_le {opcode : UInt8} {op : ModifyOp} {target : Target}
    (h : decode opcode = some (.modify op target)) : target.modifyCost ≤ 7 := by
  let p : Instruction → Bool
    | .modify _ target => target.modifyCost ≤ 7
    | _ => true
  have hall : ∀ n < 256, (decode (UInt8.ofNat n)).all p = true := by decide +kernel
  have hp := decode_all hall h
  simpa only [p, decide_eq_true_eq] using hp

theorem cost_ge (i : Instruction) (r : Registers) (m : Memory) : 2 ≤ i.cost r m := by
  cases i with
  | read op source =>
    rcases source with _ | l
    · exact Nat.le_refl _
    · cases l <;> simp only [Instruction.cost, Source.readCost] <;> omega
  | store reg l => cases l <;> simp [Instruction.cost, Location.storeCost]
  | modify op target =>
    rcases target with _ | l
    · exact Nat.le_refl _
    · cases l <;> simp [Instruction.cost, Target.modifyCost]
  | branch c =>
    simp only [Instruction.cost, Instruction.branchCost]
    split_ifs <;> omega
  | _ => simp [Instruction.cost]

theorem cost_le {opcode : UInt8} {i : Instruction} (h : decode opcode = some i) (r : Registers)
    (m : Memory) : i.cost r m ≤ 7 := by
  cases i with
  | read op source =>
    rcases source with _ | l
    · simp [Instruction.cost, Source.readCost]
    · have hc := Bool.toNat_le (l.carries r m)
      cases l <;> simp only [Instruction.cost, Source.readCost] <;> omega
  | store reg l => cases l <;> simp [Instruction.cost, Location.storeCost]
  | modify op target => exact modifyCost_le h
  | branch c =>
    simp only [Instruction.cost, Instruction.branchCost]
    split_ifs <;> omega
  | _ => simp [Instruction.cost]

end Mos6502
