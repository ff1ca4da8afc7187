import Mos6502.Processor

namespace Mos6502

namespace Processor

/-- Writes to page one at the stack pointer, which moves down and wraps within the page. -/
def push (b : UInt8) : Processor Unit := do
  let r ← get
  write r.stackAddress b
  set { r with sp := r.sp - 1 }

def pull : Processor UInt8 := do
  update fun r => { r with sp := r.sp + 1 }
  let r ← get
  read r.stackAddress

/-- High byte first, so that the word lies in memory low byte first. -/
def pushWord (w : UInt16) : Processor Unit := do
  push (high w)
  push (low w)

def pullWord : Processor UInt16 := do
  let lo ← pull
  let hi ← pull
  return word lo hi

end Processor

end Mos6502
