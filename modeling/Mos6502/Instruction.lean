import Mos6502.Registers

namespace Mos6502

/-- How the operand of an instruction is given. -/
inductive Mode where
  | implied | accumulator | immediate | zeroPage | zeroPageX | zeroPageY
  | absolute | absoluteX | absoluteY | indirect | indirectX | indirectY | relative
  deriving DecidableEq

namespace Mode

def name : Mode → String
  | implied => "Implied"
  | accumulator => "Accumulator"
  | immediate => "Immediate"
  | zeroPage => "ZeroPage"
  | zeroPageX => "ZeroPageX"
  | zeroPageY => "ZeroPageY"
  | absolute => "Absolute"
  | absoluteX => "AbsoluteX"
  | absoluteY => "AbsoluteY"
  | indirect => "Indirect"
  | indirectX => "IndirectX"
  | indirectY => "IndirectY"
  | relative => "Relative"

/-- Operand bytes after the opcode. -/
def operandLength : Mode → Nat
  | implied | accumulator => 0
  | immediate | zeroPage | zeroPageX | zeroPageY | indirectX | indirectY | relative => 1
  | absolute | absoluteX | absoluteY | indirect => 2

end Mode

inductive Index where
  | x | y
  deriving DecidableEq

inductive Location where
  | zeroPage
  | zeroPageIndexed (index : Index)
  | absolute
  | absoluteIndexed (index : Index)
  | indirectX
  | indirectY
  deriving DecidableEq

/-- Where an instruction that only reads finds its byte. -/
inductive Source where
  | immediate
  | cell (location : Location)
  deriving DecidableEq

/-- What an instruction that changes a byte in place works on. -/
inductive Target where
  | accumulator
  | cell (location : Location)
  deriving DecidableEq

inductive ReadOp where
  | load (register : Register)
  | compare (register : Register)
  | and | or | xor | test | add | subtract
  deriving DecidableEq

inductive ModifyOp where
  | shiftLeft | shiftRight | rotateLeft | rotateRight | increment | decrement
  deriving DecidableEq

inductive Condition where
  | carryClear | carrySet | equal | notEqual | minus | plus | overflowClear | overflowSet
  deriving DecidableEq

inductive Transfer where
  | aToX | aToY | xToA | yToA | spToX | xToSp
  deriving DecidableEq

/-- The flags that have an instruction of their own, with the value it gives them. -/
inductive FlagChange where
  | clearCarry | setCarry | clearInterrupt | setInterrupt | clearDecimal | setDecimal
  | clearOverflow
  deriving DecidableEq

inductive Instruction where
  | read (op : ReadOp) (source : Source)
  | store (register : Register) (location : Location)
  | modify (op : ModifyOp) (target : Target)
  | incrementIndex (index : Index)
  | decrementIndex (index : Index)
  | transfer (which : Transfer)
  | changeFlag (which : FlagChange)
  | branch (condition : Condition)
  | jump | jumpIndirect | call | returnFromCall | softwareInterrupt | returnFromInterrupt
  | pushA | pushStatus | pullA | pullStatus
  | noOperation
  deriving DecidableEq

def Index.register : Index → Register
  | x => .x
  | y => .y

def Condition.holds (s : Status) : Condition → Bool
  | carryClear => !s.carry
  | carrySet => s.carry
  | equal => s.zero
  | notEqual => !s.zero
  | minus => s.negative
  | plus => !s.negative
  | overflowClear => !s.overflow
  | overflowSet => s.overflow

namespace FlagChange

def flag : FlagChange → Flag
  | clearCarry | setCarry => .carry
  | clearInterrupt | setInterrupt => .interruptDisable
  | clearDecimal | setDecimal => .decimal
  | clearOverflow => .overflow

def value : FlagChange → Bool
  | setCarry | setInterrupt | setDecimal => true
  | clearCarry | clearInterrupt | clearDecimal | clearOverflow => false

end FlagChange

/-- Sums and differences, the two operations that the decimal flag concerns. -/
def ReadOp.isArithmetic : ReadOp → Bool
  | add | subtract => true
  | load _ | compare _ | and | or | xor | test => false

def Location.mode : Location → Mode
  | zeroPage => .zeroPage
  | zeroPageIndexed .x => .zeroPageX
  | zeroPageIndexed .y => .zeroPageY
  | absolute => .absolute
  | absoluteIndexed .x => .absoluteX
  | absoluteIndexed .y => .absoluteY
  | indirectX => .indirectX
  | indirectY => .indirectY

def Source.mode : Source → Mode
  | immediate => .immediate
  | cell l => l.mode

def Target.mode : Target → Mode
  | accumulator => .accumulator
  | cell l => l.mode

def Instruction.mode : Instruction → Mode
  | read _ source => source.mode
  | store _ location => location.mode
  | modify _ target => target.mode
  | branch _ => .relative
  | jump | call => .absolute
  | jumpIndirect => .indirect
  | _ => .implied

def ReadOp.mnemonic : ReadOp → String
  | load .a => "LDA"
  | load .x => "LDX"
  | load .y => "LDY"
  | compare .a => "CMP"
  | compare .x => "CPX"
  | compare .y => "CPY"
  | and => "AND"
  | or => "ORA"
  | xor => "EOR"
  | test => "BIT"
  | add => "ADC"
  | subtract => "SBC"

def ModifyOp.mnemonic : ModifyOp → String
  | shiftLeft => "ASL"
  | shiftRight => "LSR"
  | rotateLeft => "ROL"
  | rotateRight => "ROR"
  | increment => "INC"
  | decrement => "DEC"

def Condition.mnemonic : Condition → String
  | carryClear => "BCC"
  | carrySet => "BCS"
  | equal => "BEQ"
  | notEqual => "BNE"
  | minus => "BMI"
  | plus => "BPL"
  | overflowClear => "BVC"
  | overflowSet => "BVS"

def Transfer.mnemonic : Transfer → String
  | aToX => "TAX"
  | aToY => "TAY"
  | xToA => "TXA"
  | yToA => "TYA"
  | spToX => "TSX"
  | xToSp => "TXS"

def FlagChange.mnemonic : FlagChange → String
  | clearCarry => "CLC"
  | setCarry => "SEC"
  | clearInterrupt => "CLI"
  | setInterrupt => "SEI"
  | clearDecimal => "CLD"
  | setDecimal => "SED"
  | clearOverflow => "CLV"

def Instruction.mnemonic : Instruction → String
  | read op _ => op.mnemonic
  | store .a _ => "STA"
  | store .x _ => "STX"
  | store .y _ => "STY"
  | modify op _ => op.mnemonic
  | incrementIndex .x => "INX"
  | incrementIndex .y => "INY"
  | decrementIndex .x => "DEX"
  | decrementIndex .y => "DEY"
  | transfer t => t.mnemonic
  | changeFlag c => c.mnemonic
  | branch c => c.mnemonic
  | jump | jumpIndirect => "JMP"
  | call => "JSR"
  | returnFromCall => "RTS"
  | softwareInterrupt => "BRK"
  | returnFromInterrupt => "RTI"
  | pushA => "PHA"
  | pushStatus => "PHP"
  | pullA => "PLA"
  | pullStatus => "PLP"
  | noOperation => "NOP"

end Mos6502
