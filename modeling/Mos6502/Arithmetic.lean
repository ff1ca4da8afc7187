import Mos6502.Instruction

namespace Mos6502

namespace Registers

/-- The accumulator takes its sum with `b` and the carry. Overflow says that two operands of one
sign gave a result of the other sign. -/
def addWithCarry (r : Registers) (b : UInt8) : Registers :=
  let sum := r.a.toNat + b.toNat + r.status.carry.toNat
  let result := UInt8.ofNat sum
  let status := { r.status with
    carry := 255 < sum
    overflow := bit r.a 7 == bit b 7 && bit r.a 7 != bit result 7 }
  { r with status := status }.load .a result

/-- The difference is the sum with the complement; the carry stands for "no borrow". -/
def subtractWithBorrow (r : Registers) (b : UInt8) : Registers := r.addWithCarry (~~~b)

def compare (r : Registers) (reg : Register) (b : UInt8) : Registers :=
  let v := r.get reg
  { r with status := { r.status with carry := b ≤ v } }.noting (v - b)

/-- Zero tells of the bits shared with the accumulator, negative and overflow of the byte alone. -/
def testBits (r : Registers) (b : UInt8) : Registers :=
  { r with status := { r.status with
    zero := r.a &&& b == 0
    overflow := bit b 6
    negative := bit b 7 } }

end Registers

def ReadOp.apply (r : Registers) (b : UInt8) : ReadOp → Registers
  | load reg => r.load reg b
  | compare reg => r.compare reg b
  | and => r.load .a (r.a &&& b)
  | or => r.load .a (r.a ||| b)
  | xor => r.load .a (r.a ^^^ b)
  | test => r.testBits b
  | add => r.addWithCarry b
  | subtract => r.subtractWithBorrow b

def ModifyOp.result (s : Status) (b : UInt8) : ModifyOp → UInt8
  | shiftLeft => b <<< 1
  | shiftRight => b >>> 1
  | rotateLeft => b <<< 1 ||| (if s.carry then 0x01 else 0)
  | rotateRight => b >>> 1 ||| (if s.carry then 0x80 else 0)
  | increment => b + 1
  | decrement => b - 1

/-- The carry afterwards: the bit shifted out, or what it was. -/
def ModifyOp.carry (s : Status) (b : UInt8) : ModifyOp → Bool
  | shiftLeft | rotateLeft => bit b 7
  | shiftRight | rotateRight => bit b 0
  | increment | decrement => s.carry

def ModifyOp.status (s : Status) (b : UInt8) (op : ModifyOp) : Status :=
  { s with carry := op.carry s b }.noting (op.result s b)

end Mos6502
