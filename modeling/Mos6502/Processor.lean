import Mos6502.Bus
import Mos6502.Registers

namespace Mos6502

/-- A computation over the bus that also sees and changes the registers. -/
abbrev Processor := StateT Registers Bus

namespace Processor

def read (a : UInt16) : Processor UInt8 := fun r => .read a fun b => .done (b, r)

def write (a : UInt16) (b : UInt8) : Processor Unit := fun r => .write a b (.done ((), r))

def idle : Processor Unit := fun r => .idle (.done ((), r))

/-- Reads the byte at the program counter, which moves on. -/
def fetch : Processor UInt8 := fun r => .read r.pc fun b => .done (b, { r with pc := r.pc + 1 })

def update (f : Registers → Registers) : Processor Unit := fun r => .done ((), f r)

def fetchWord : Processor UInt16 := do
  let lo ← fetch
  let hi ← fetch
  return word lo hi

/-- The word whose low byte is at `a` and whose high byte is at `b`. -/
def readWord (a b : UInt16) : Processor UInt16 := do
  let lo ← read a
  let hi ← read b
  return word lo hi

def jumpTo (target : UInt16) : Processor Unit := update fun r => { r with pc := target }

end Processor

end Mos6502
