import Mos6502.Numeral

namespace Mos6502

/-- What to run, for how long and in which slices. -/
structure Settings where
  program : String
  totalCycles : UInt64 := 10000
  sliceCycles : UInt32 := 20
  start : Option UInt16 := none
  printsStatus : Bool := true
  deriving DecidableEq

def usage : String := "Usage: retro6502 <program.prg> [total_cycles] [slice_cycles]"

inductive ArgumentError where
  | missingProgram
  | badTotal (text : String) (reason : NumberError)
  | badSlice (text : String) (reason : NumberError)
  | unexpected (text : String)
  deriving DecidableEq

def ArgumentError.chain : ArgumentError → List String
  | missingProgram => ["missing program path\n" ++ usage]
  | badTotal text reason => [s!"invalid total_cycles '{text}'", reason.message]
  | badSlice text reason => [s!"invalid slice_cycles '{text}'", reason.message]
  | unexpected text => [s!"unexpected argument '{text}'\n" ++ usage]

namespace Settings

def withTotal (s : Settings) (text : String) : Except ArgumentError Settings :=
  match Numeral.parse (UInt64.size - 1) text with
  | .ok n => .ok { s with totalCycles := UInt64.ofNat n }
  | .error e => .error (.badTotal text e)

def withSlice (s : Settings) (text : String) : Except ArgumentError Settings :=
  match Numeral.parse (UInt32.size - 1) text with
  | .ok n => .ok { s with sliceCycles := UInt32.ofNat n }
  | .error e => .error (.badSlice text e)

/-- A program, then the two counts if they are given. The counts are checked before an argument
too many is. -/
def ofArguments : List String → Except ArgumentError Settings
  | [] => .error .missingProgram
  | [program] => .ok { program }
  | [program, total] => withTotal { program } total
  | program :: total :: slice :: rest => do
    let s ← withTotal { program } total
    let s ← s.withSlice slice
    match rest with
    | [] => return s
    | extra :: _ => throw (.unexpected extra)

end Settings

end Mos6502
