import Mos6502.Instruction

namespace Mos6502

/-! An opcode is three fields: a row (bits 7 to 5), a column (bits 4 to 2) and a block (bits 1
and 0). Block 1 is regular. Blocks 0 and 2 follow their rows and columns less closely, and block 3
is empty. -/

namespace Opcode

/-- Columns of block 1. -/
def accumulatorSource : Nat → Source
  | 0 => .cell .indirectX
  | 1 => .cell .zeroPage
  | 2 => .immediate
  | 3 => .cell .absolute
  | 4 => .cell .indirectY
  | 5 => .cell (.zeroPageIndexed .x)
  | 6 => .cell (.absoluteIndexed .y)
  | _ => .cell (.absoluteIndexed .x)

/-- Rows of block 1. A store needs a cell. -/
def accumulatorOp : Nat → Source → Option Instruction
  | 0, s => some (.read .or s)
  | 1, s => some (.read .and s)
  | 2, s => some (.read .xor s)
  | 3, s => some (.read .add s)
  | 4, .cell l => some (.store .a l)
  | 4, .immediate => none
  | 5, s => some (.read (.load .a) s)
  | 6, s => some (.read (.compare .a) s)
  | _, s => some (.read .subtract s)

/-- Rows of block 2 that change a byte in place. -/
def modifyOp : Nat → Option ModifyOp
  | 0 => some .shiftLeft
  | 1 => some .rotateLeft
  | 2 => some .shiftRight
  | 3 => some .rotateRight
  | 6 => some .decrement
  | 7 => some .increment
  | _ => none

/-- Block 2 at a cell: rows 4 and 5 move X, indexed by Y where the others are indexed by X. -/
def cellOp (row : Nat) (location : Index → Location) : Option Instruction :=
  match row with
  | 4 => some (.store .x (location .y))
  | 5 => some (.read (.load .x) (.cell (location .y)))
  | _ => (modifyOp row).map fun op => .modify op (.cell (location .x))

def block2 (row : Nat) : Nat → Option Instruction
  | 0 => if row = 5 then some (.read (.load .x) .immediate) else none
  | 1 => cellOp row fun _ => .zeroPage
  | 2 =>
    match row with
    | 4 => some (.transfer .xToA)
    | 5 => some (.transfer .aToX)
    | 6 => some (.decrementIndex .x)
    | 7 => some .noOperation
    | _ => (modifyOp row).map fun op => .modify op .accumulator
  | 3 => cellOp row fun _ => .absolute
  | 5 => cellOp row .zeroPageIndexed
  | 6 =>
    match row with
    | 4 => some (.transfer .xToSp)
    | 5 => some (.transfer .spToX)
    | _ => none
  | 7 => if row = 4 then none else cellOp row .absoluteIndexed
  | _ => none

/-- Rows of block 0 that read a byte. -/
def indexOp : Nat → Option ReadOp
  | 1 => some .test
  | 5 => some (.load .y)
  | 6 => some (.compare .y)
  | 7 => some (.compare .x)
  | _ => none

/-- Columns 0, 2, 4 and 6 of block 0, the instructions that name no cell. -/
def block0Even (row : Nat) : Nat → Option Instruction
  | 0 =>
    match row with
    | 0 => some .softwareInterrupt
    | 1 => some .call
    | 2 => some .returnFromInterrupt
    | 3 => some .returnFromCall
    | 4 => none
    | _ => (indexOp row).map fun op => .read op .immediate
  | 2 =>
    match row with
    | 0 => some .pushStatus
    | 1 => some .pullStatus
    | 2 => some .pushA
    | 3 => some .pullA
    | 4 => some (.decrementIndex .y)
    | 5 => some (.transfer .aToY)
    | 6 => some (.incrementIndex .y)
    | _ => some (.incrementIndex .x)
  | 4 =>
    some <| .branch <|
      match row with
      | 0 => .plus
      | 1 => .minus
      | 2 => .overflowClear
      | 3 => .overflowSet
      | 4 => .carryClear
      | 5 => .carrySet
      | 6 => .notEqual
      | _ => .equal
  | _ =>
    match row with
    | 0 => some (.changeFlag .clearCarry)
    | 1 => some (.changeFlag .setCarry)
    | 2 => some (.changeFlag .clearInterrupt)
    | 3 => some (.changeFlag .setInterrupt)
    | 4 => some (.transfer .yToA)
    | 5 => some (.changeFlag .clearOverflow)
    | 6 => some (.changeFlag .clearDecimal)
    | _ => some (.changeFlag .setDecimal)

def block0 (row column : Nat) : Option Instruction :=
  match column, row with
  | 1, 4 => some (.store .y .zeroPage)
  | 1, _ => (indexOp row).map fun op => .read op (.cell .zeroPage)
  | 3, 2 => some .jump
  | 3, 3 => some .jumpIndirect
  | 3, 4 => some (.store .y .absolute)
  | 3, _ => (indexOp row).map fun op => .read op (.cell .absolute)
  | 5, 4 => some (.store .y (.zeroPageIndexed .x))
  | 5, 5 => some (.read (.load .y) (.cell (.zeroPageIndexed .x)))
  | 5, _ => none
  | 7, 5 => some (.read (.load .y) (.cell (.absoluteIndexed .x)))
  | 7, _ => none
  | _, _ => block0Even row column

end Opcode

/-- The documented instruction of an opcode, if it has one. -/
def decode (opcode : UInt8) : Option Instruction :=
  let row := opcode.toNat / 32
  let column := opcode.toNat / 4 % 8
  match opcode.toNat % 4 with
  | 0 => Opcode.block0 row column
  | 1 => Opcode.accumulatorOp row (Opcode.accumulatorSource column)
  | 2 => Opcode.block2 row column
  | _ => none

end Mos6502
