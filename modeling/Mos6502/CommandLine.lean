import Mos6502.Run

namespace Mos6502

/-- How the command ends: its exit code and what it writes. -/
structure Response where
  exitCode : UInt32
  output : String := ""
  errors : String := ""
  deriving DecidableEq

/-- Runs the program that the arguments name and shows the registers, or tells what failed. -/
def respond {M : Type → Type} [Monad M] (read : String → M (Except ReadError (List UInt8)))
    (arguments : List String) : M Response := do
  match Settings.ofArguments arguments with
  | .error e => return { exitCode := 1, errors := joined e.chain ++ "\n" }
  | .ok settings =>
    let (result, _) ← runFile read settings {}
    match result with
    | .error e => return { exitCode := 1, errors := "Error: " ++ joined e.chain ++ "\n" }
    | .ok report =>
      if settings.printsStatus then
        return { exitCode := 0, output := report.machine.cpu.summary ++ "\n" }
      else return { exitCode := 0 }

end Mos6502
