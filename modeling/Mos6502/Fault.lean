import Mos6502.Byte

namespace Mos6502

/-- Why an instruction was not carried out. -/
inductive Cause where
  | unknownOpcode
  | decimalMode
  deriving DecidableEq

/-- A fault with the opcode and its address; `cycles` counts what the failed call spent. -/
structure Fault where
  cause : Cause
  opcode : UInt8
  address : UInt16
  cycles : UInt32
  deriving DecidableEq

def Fault.message (f : Fault) : String :=
  let opcode := hexByte f.opcode
  let address := hexWord f.address
  match f.cause with
  | .unknownOpcode => s!"unknown opcode 0x{opcode} at 0x{address}"
  | .decimalMode =>
    s!"decimal mode arithmetic is not supported (opcode 0x{opcode} at 0x{address})"

end Mos6502
