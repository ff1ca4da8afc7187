import Mos6502.Status

namespace Mos6502

inductive Register where
  | a | x | y
  deriving DecidableEq

/-- The registers an instruction can see: program counter, stack pointer, data and flags. -/
@[ext] structure Registers where
  pc : UInt16 := 0
  sp : UInt8 := 0
  a : UInt8 := 0
  x : UInt8 := 0
  y : UInt8 := 0
  status : Status := {}
  deriving DecidableEq

namespace Registers

def get (r : Registers) : Register → UInt8
  | .a => r.a
  | .x => r.x
  | .y => r.y

def set (r : Registers) : Register → UInt8 → Registers
  | .a, v => { r with a := v }
  | .x, v => { r with x := v }
  | .y, v => { r with y := v }

/-- The cell of page one that the next push writes. -/
def stackAddress (r : Registers) : UInt16 := word r.sp 1

/-- Zero and negative as told by a result. -/
def noting (r : Registers) (result : UInt8) : Registers :=
  { r with status := r.status.noting result }

/-- A register takes a value, and zero and negative tell of it. -/
def load (r : Registers) (reg : Register) (v : UInt8) : Registers := (r.set reg v).noting v

/-- Three lines for a reader: data registers, pointers, status. -/
def summary (r : Registers) : String :=
  let a := hexByte r.a
  let x := hexByte r.x
  let y := hexByte r.y
  let pc := hexWord r.pc
  let sp := hexByte r.sp
  let p := hexByte r.status.toByte
  let strip := r.status.strip
  s!"A: 0x{a} X: 0x{x} Y: 0x{y}\nPC: 0x{pc} SP: 0x{sp}\nPS: 0x{p} [{strip}]"

theorem get_set_self (r : Registers) (reg : Register) (v : UInt8) : (r.set reg v).get reg = v := by
  cases reg <;> rfl

theorem get_set_of_ne (r : Registers) {reg reg' : Register} (v : UInt8) (h : reg' ≠ reg) :
    (r.set reg v).get reg' = r.get reg' := by
  cases reg <;> cases reg' <;> simp_all [get, set]

end Registers

end Mos6502
