import Mos6502.Machine

namespace Mos6502

/-- Why a program image was not loaded. An image is an address, low byte first, and a payload. -/
inductive LoadError where
  | missingHeader (size : Nat)
  | doesNotFit (address : UInt16) (size : Nat)
  deriving DecidableEq

def LoadError.message : LoadError → String
  | missingHeader size => s!"program of {size} bytes has no load address header and payload"
  | doesNotFit address size =>
    s!"program of {size} bytes does not fit at load address 0x" ++ hexWord address

/-- The address and the payload of an image. The payload has a byte at least, and its last byte
lies at address 65535 at most. -/
def splitImage : List UInt8 → Except LoadError (UInt16 × List UInt8)
  | lo :: hi :: b :: bs =>
    let address := word lo hi
    let payload := b :: bs
    if address.toNat + payload.length ≤ UInt16.size then .ok (address, payload)
    else .error (.doesNotFit address payload.length)
  | image => .error (.missingHeader image.length)

namespace Machine

/-- Loads an image. One that is refused leaves the machine as it was. -/
def load (image : List UInt8) : Machine → Except LoadError UInt16 × Machine
  | ⟨cpu, memory, journal⟩ =>
    match splitImage image with
    | .error e => (.error e, ⟨cpu, memory, journal⟩)
    | .ok (address, payload) =>
      let last := address + UInt16.ofNat (payload.length - 1)
      (.ok address, ⟨cpu, memory.writeAll address payload,
        journal.record (.loaded payload.length address last)⟩)

theorem cpu_load (m : Machine) (image : List UInt8) : (m.load image).2.cpu = m.cpu := by
  rw [load]
  cases splitImage image <;> rfl

end Machine

end Mos6502
