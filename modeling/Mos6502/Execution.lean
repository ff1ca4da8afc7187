import Mos6502.Addressing
import Mos6502.Arithmetic
import Mos6502.Fault
import Mos6502.Opcode
import Mos6502.Stack

namespace Mos6502

open Processor

def interruptVector : UInt16 := 0xFFFE

def Transfer.apply (r : Registers) : Transfer → Registers
  | aToX => r.load .x r.a
  | aToY => r.load .y r.a
  | xToA => r.load .a r.x
  | yToA => r.load .a r.y
  | spToX => r.load .x r.sp
  | xToSp => { r with sp := r.x }

/-- Sums and differences are refused while the decimal flag is set, after their byte was read. -/
def ReadOp.perform (op : ReadOp) (source : Source) : Processor (Except Cause Unit) := do
  let b ← source.byte
  let r ← get
  if op.isArithmetic && r.status.decimal then
    return .error .decimalMode
  set (op.apply r b)
  return .ok ()

def ModifyOp.perform (op : ModifyOp) : Target → Processor Unit
  | .accumulator => do
    idle
    update fun r => { r with a := op.result r.status r.a, status := op.status r.status r.a }
  | .cell l => do
    let a ← l.address .write
    let b ← read a
    idle
    let r ← get
    write a (op.result r.status b)
    set { r with status := op.status r.status b }

/-- A taken branch spends a cycle, and one more to leave the page of the next instruction. -/
def Condition.perform (c : Condition) : Processor Unit := do
  let distance ← fetch
  let r ← get
  if c.holds r.status then
    idle
    let target := r.pc + displacement distance
    if crossesPage r.pc target then
      idle
    jumpTo target

namespace Processor

def jumpIndirect : Processor Unit := do
  let pointer ← fetchWord
  let target ← readWord pointer (nextInPage pointer)
  jumpTo target

/-- What goes on the stack is the address of the call's last byte. -/
def call : Processor Unit := do
  let target ← fetchWord
  idle
  let r ← get
  pushWord (r.pc - 1)
  jumpTo target

def returnFromCall : Processor Unit := do
  idle
  idle
  let w ← pullWord
  jumpTo (w + 1)
  idle

/-- Pushes the address after the byte that follows the opcode, then the status. -/
def softwareInterrupt : Processor Unit := do
  let _ ← fetch
  let r ← get
  pushWord r.pc
  push r.status.pushed
  update fun r => { r with status := { r.status with interruptDisable := true } }
  let target ← readWord interruptVector (interruptVector + 1)
  jumpTo target

def pullStatus : Processor Unit := do
  let b ← pull
  update fun r => { r with status := r.status.pull b }

def returnFromInterrupt : Processor Unit := do
  idle
  idle
  pullStatus
  let w ← pullWord
  jumpTo w

/-- A computation that is never refused. -/
def completing (p : Processor Unit) : Processor (Except Cause Unit) := do
  p
  return .ok ()

end Processor

/-- Everything an instruction does after its opcode was fetched. -/
def Instruction.perform : Instruction → Processor (Except Cause Unit)
  | read op source => op.perform source
  | store reg l => completing do
    let a ← l.address .write
    let r ← get
    Processor.write a (r.get reg)
  | modify op target => completing (op.perform target)
  | incrementIndex i => completing do
    idle
    update fun r => r.load i.register (r.get i.register + 1)
  | decrementIndex i => completing do
    idle
    update fun r => r.load i.register (r.get i.register - 1)
  | transfer t => completing do
    idle
    update t.apply
  | changeFlag c => completing do
    idle
    update fun r => { r with status := r.status.set c.flag c.value }
  | branch c => completing c.perform
  | jump => completing do
    let target ← fetchWord
    jumpTo target
  | jumpIndirect => completing Processor.jumpIndirect
  | call => completing Processor.call
  | returnFromCall => completing Processor.returnFromCall
  | softwareInterrupt => completing Processor.softwareInterrupt
  | returnFromInterrupt => completing Processor.returnFromInterrupt
  | pushA => completing do
    idle
    let r ← get
    push r.a
  | pushStatus => completing do
    idle
    let r ← get
    push r.status.pushed
  | pullA => completing do
    idle
    idle
    let b ← pull
    update fun r => r.load .a b
  | pullStatus => completing do
    idle
    idle
    Processor.pullStatus
  | noOperation => completing idle

def dispatch : Processor (UInt8 × Except Cause Unit) := do
  let opcode ← fetch
  match decode opcode with
  | none => return (opcode, .error .unknownOpcode)
  | some i =>
    let result ← i.perform
    return (opcode, result)

end Mos6502
