import Mos6502.Instruction

namespace Mos6502

inductive Level where
  | error | warn | info | debug | trace
  deriving DecidableEq

namespace Level

def rank : Level → Nat
  | error => 1
  | warn => 2
  | info => 3
  | debug => 4
  | trace => 5

def name : Level → String
  | error => "ERROR"
  | warn => "WARN"
  | info => "INFO"
  | debug => "DEBUG"
  | trace => "TRACE"

end Level

/-- What is worth telling about a run. -/
inductive Event where
  | reset (start : UInt16)
  | loaded (size : Nat) (first last : UInt16)
  | dispatched (address : UInt16) (opcode : UInt8) (instruction : Instruction)
  | unknownOpcode (opcode : UInt8) (registers : Registers)
  | decimalRefused (instruction : Instruction) (address : UInt16)
  | opened (path : String) (size : Nat)
  | started (load start : UInt16)
  | finished (cycles : UInt64) (slices : Nat) (pc : UInt16)
  deriving DecidableEq

namespace Event

def level : Event → Level
  | reset _ | loaded _ _ _ | started _ _ => .debug
  | dispatched _ _ _ => .trace
  | unknownOpcode _ _ | decimalRefused _ _ => .error
  | opened _ _ | finished _ _ _ => .info

def text : Event → String
  | reset start => "CPU reset, PC=0x" ++ hexWord start
  | loaded size first last =>
    s!"Loaded {size} bytes at 0x" ++ hexWord first ++ "..0x" ++ hexWord last
  | dispatched address opcode i =>
    hexWord address ++ "  " ++ hexByte opcode ++ "  " ++ i.mnemonic ++ " " ++ i.mode.name
  | unknownOpcode opcode r =>
    "Unknown opcode 0x" ++ hexByte opcode ++ " at PC=0x" ++ hexWord r.pc ++ " (A=0x" ++ hexByte r.a
      ++ " X=0x" ++ hexByte r.x ++ " Y=0x" ++ hexByte r.y ++ " SP=0x" ++ hexByte r.sp
      ++ " P=0x" ++ hexByte r.status.toByte ++ ")"
  | decimalRefused i address =>
    i.mnemonic ++ " at PC=0x" ++ hexWord address ++ " with decimal flag set"
  | opened path size => s!"Running '{path}' ({size} bytes)"
  | started load start =>
    "Program loaded at 0x" ++ hexWord load ++ ", starting at 0x" ++ hexWord start
  | finished cycles slices pc => s!"Ran {cycles} cycles in {slices} slices, PC=0x" ++ hexWord pc

def line (e : Event) : String := e.level.name ++ " " ++ e.text

end Event

/-- Events in order, up to a level; no level means that none is kept. -/
structure Journal where
  limit : Option Level := none
  events : Array Event := #[]
  deriving DecidableEq

namespace Journal

def admits (j : Journal) (e : Event) : Bool :=
  match j.limit with
  | none => false
  | some l => e.level.rank ≤ l.rank

def record (j : Journal) (e : Event) : Journal :=
  if j.admits e then { j with events := j.events.push e } else j

def recordAll (j : Journal) (es : List Event) : Journal := es.foldl record j

end Journal

end Mos6502
