import Mos6502.Processor
import Mos6502.Instruction

namespace Mos6502

/-- Whether the cell that is looked up will be written. -/
inductive Access where
  | read | write
  deriving DecidableEq

/-- Adds an index to an address. The carry into the high byte takes a cycle, and an access that
writes takes that cycle always. -/
def addIndex (access : Access) (base : UInt16) (index : UInt8) : Processor UInt16 := do
  let target := base + index.toUInt16
  if access = .write || crossesPage base target then
    Processor.idle
  return target

/-- The word at an address of page zero; its high byte never lies outside that page. -/
def zeroPageWord (b : UInt8) : Processor UInt16 := Processor.readWord (zeroPage b) (zeroPage (b + 1))

/-- The address next to `a` in the same page. -/
def nextInPage (a : UInt16) : UInt16 := word (low a + 1) (high a)

namespace Location

/-- The address of the cell, from the operand bytes at the program counter. -/
def address (access : Access) : Location → Processor UInt16
  | zeroPage => do
    let b ← Processor.fetch
    return Mos6502.zeroPage b
  | zeroPageIndexed index => do
    let b ← Processor.fetch
    Processor.idle
    let r ← get
    return Mos6502.zeroPage (b + r.get index.register)
  | absolute => Processor.fetchWord
  | absoluteIndexed index => do
    let base ← Processor.fetchWord
    let r ← get
    addIndex access base (r.get index.register)
  | indirectX => do
    let b ← Processor.fetch
    Processor.idle
    let r ← get
    zeroPageWord (b + r.x)
  | indirectY => do
    let b ← Processor.fetch
    let base ← zeroPageWord b
    let r ← get
    addIndex access base r.y

end Location

def Source.byte : Source → Processor UInt8
  | immediate => Processor.fetch
  | cell l => do
    let a ← l.address .read
    Processor.read a

end Mos6502
