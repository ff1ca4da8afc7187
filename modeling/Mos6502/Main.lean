import Mos6502.CommandLine

namespace Mos6502

/-- A failure by its number, which some calls give with the opposite sign. -/
def numberedError (code : UInt32) (details : String) : ReadError :=
  let number := if code < 0x80000000 then code else 0 - code
  match number.toNat with
  | 2 => .notFound
  | 13 => .permissionDenied
  | 20 => .notADirectory
  | 21 => .isADirectory
  | 36 => .nameTooLong
  | n => .other s!"{details} (os error {n})"

def readError : IO.Error → ReadError
  | .noFileOrDirectory _ code details | .permissionDenied _ code details
  | .resourceExhausted _ code details | .inappropriateType _ code details
  | .noSuchThing _ code details | .invalidArgument _ code details
  | .alreadyExists _ code details | .otherError code details | .resourceBusy code details
  | .resourceVanished code details | .unsupportedOperation code details
  | .hardwareFault code details | .unsatisfiedConstraints code details
  | .illegalOperation code details | .protocolError code details | .timeExpired code details
  | .interrupted _ code details => numberedError code details
  | .unexpectedEof => .other "failed to fill whole buffer"
  | .userError message => .other message

def readImage (path : String) : IO (Except ReadError (List UInt8)) := do
  try
    let content ← IO.FS.readBinFile path
    return .ok content.toList
  catch e =>
    return .error (readError e)

end Mos6502

def main (arguments : List String) : IO UInt32 := do
  let response ← Mos6502.respond Mos6502.readImage arguments
  IO.print response.output
  IO.eprint response.errors
  return response.exitCode
