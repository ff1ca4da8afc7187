import Mos6502.Image
import Mos6502.Settings

namespace Mos6502

/-- Why a file was not read. -/
inductive ReadError where
  | notFound
  | permissionDenied
  | notADirectory
  | isADirectory
  | nameTooLong
  | other (message : String)
  deriving DecidableEq

def ReadError.message : ReadError → String
  | notFound => "No such file or directory (os error 2)"
  | permissionDenied => "Permission denied (os error 13)"
  | notADirectory => "Not a directory (os error 20)"
  | isADirectory => "Is a directory (os error 21)"
  | nameTooLong => "File name too long (os error 36)"
  | other message => message

inductive RunError where
  | unreadable (path : String) (reason : ReadError)
  | emptySlice
  | notLoaded (reason : LoadError)
  | stopped (total : UInt64) (fault : Fault)
  /-- The total was not reached in as many slices as a counter that never wraps can need. -/
  | unfinished (slices : Nat)
  deriving DecidableEq

/-- The messages of an error, from the general to the particular. -/
def RunError.chain : RunError → List String
  | unreadable path reason => [s!"failed to read program '{path}'", reason.message]
  | emptySlice => ["slice_cycles must be greater than zero"]
  | notLoaded reason => ["failed to load program", reason.message]
  | stopped total fault => [s!"emulation stopped after {total} cycles", fault.message]
  | unfinished slices => [s!"emulation did not end in {slices} slices"]

def joined (chain : List String) : String := ": ".intercalate chain

/-- The machine at the end of a run, where its image was loaded and how many slices it took. -/
structure Report where
  machine : Machine
  loadAddress : UInt16
  slices : Nat

/-- Runs slices until `total` cycles are counted, at most `limit` of them. `done` counts those
that have run. -/
def runSlices (total : UInt64) (slice : UInt32) : (limit done : Nat) → Machine →
    Except RunError Nat × Machine
  | 0, done, m => (if m.cpu.totalCycles < total then .error (.unfinished done) else .ok done, m)
  | limit + 1, done, m =>
    if m.cpu.totalCycles < total then
      match m.execute slice with
      | (.ok _, m) => runSlices total slice limit (done + 1) m
      | (.error fault, m) => (.error (.stopped m.cpu.totalCycles fault), m)
    else (.ok done, m)

/-- Resets a machine, loads an image into it and runs it. The journal is kept if the run fails. -/
def runImage (image : List UInt8) (settings : Settings) (journal : Journal) :
    Except RunError Report × Journal :=
  if settings.sliceCycles = 0 then (.error .emptySlice, journal)
  else
    match (Machine.reset { journal }).load image with
    | (.error e, m) => (.error (.notLoaded e), m.journal)
    | (.ok loadAddress, m) =>
      let start := settings.start.getD loadAddress
      let m := { m with cpu := { m.cpu with pc := start } }.record (.started loadAddress start)
      let limit := settings.totalCycles.toNat
      match runSlices settings.totalCycles settings.sliceCycles limit 0 m with
      | (.error e, m) => (.error e, m.journal)
      | (.ok slices, m) =>
        let m := m.record (.finished m.cpu.totalCycles slices m.cpu.pc)
        (.ok { machine := m, loadAddress, slices }, m.journal)

/-- Reads the image that the settings name, by whatever reads files, and runs it. -/
def runFile {M : Type → Type} [Monad M] (read : String → M (Except ReadError (List UInt8)))
    (settings : Settings) (journal : Journal) : M (Except RunError Report × Journal) := do
  match ← read settings.program with
  | .error e => return (.error (.unreadable settings.program e), journal)
  | .ok image =>
    return runImage image settings (journal.record (.opened settings.program image.length))

end Mos6502
