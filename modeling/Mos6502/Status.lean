import Mos6502.Byte

namespace Mos6502

inductive Flag where
  | carry | zero | interruptDisable | decimal | breakCommand | unused | overflow | negative
  deriving DecidableEq

namespace Flag

/-- The flags by ascending place in the status byte. -/
def all : List Flag :=
  [carry, zero, interruptDisable, decimal, breakCommand, unused, overflow, negative]

def place : Flag → Nat
  | carry => 0
  | zero => 1
  | interruptDisable => 2
  | decimal => 3
  | breakCommand => 4
  | unused => 5
  | overflow => 6
  | negative => 7

def bitValue (f : Flag) : UInt8 := UInt8.ofNat (1 <<< f.place)

def letter : Flag → Char
  | carry => 'C'
  | zero => 'Z'
  | interruptDisable => 'I'
  | decimal => 'D'
  | breakCommand => 'B'
  | unused => '-'
  | overflow => 'V'
  | negative => 'N'

end Flag

/-- The stored flags. The unused bit of the status byte has no storage: it reads as set. -/
@[ext] structure Status where
  carry : Bool := false
  zero : Bool := false
  interruptDisable : Bool := false
  decimal : Bool := false
  breakCommand : Bool := false
  overflow : Bool := false
  negative : Bool := false
  deriving DecidableEq

namespace Status

def get (s : Status) : Flag → Bool
  | .carry => s.carry
  | .zero => s.zero
  | .interruptDisable => s.interruptDisable
  | .decimal => s.decimal
  | .breakCommand => s.breakCommand
  | .unused => true
  | .overflow => s.overflow
  | .negative => s.negative

/-- Setting the unused flag changes nothing. -/
def set (s : Status) : Flag → Bool → Status
  | .carry, v => { s with carry := v }
  | .zero, v => { s with zero := v }
  | .interruptDisable, v => { s with interruptDisable := v }
  | .decimal, v => { s with decimal := v }
  | .breakCommand, v => { s with breakCommand := v }
  | .unused, _ => s
  | .overflow, v => { s with overflow := v }
  | .negative, v => { s with negative := v }

/-- The status byte: the bits of the flags that read as set. -/
def toByte (s : Status) : UInt8 :=
  (Flag.all.filter s.get).foldl (fun b f => b ||| f.bitValue) 0

def ofByte (b : UInt8) : Status where
  carry := bit b 0
  zero := bit b 1
  interruptDisable := bit b 2
  decimal := bit b 3
  breakCommand := bit b 4
  overflow := bit b 6
  negative := bit b 7

/-- The byte that goes on the stack: break and unused are set in it whatever they read as. -/
def pushed (s : Status) : UInt8 := (s.set .breakCommand true).toByte

/-- The flags after a status byte was pulled from the stack. Break keeps its value. -/
def pull (s : Status) (b : UInt8) : Status := { ofByte b with breakCommand := s.breakCommand }

/-- Zero and negative as told by a result. -/
def noting (s : Status) (result : UInt8) : Status :=
  { s with zero := result == 0, negative := bit result 7 }

/-- The flags from negative down to carry, a set one as a capital letter. -/
def strip (s : Status) : String :=
  String.ofList (Flag.all.reverse.map fun f => if s.get f then f.letter else f.letter.toLower)

theorem get_set_self (s : Status) (f : Flag) (v : Bool) (h : f ≠ .unused) :
    (s.set f v).get f = v := by
  cases f <;> simp_all [get, set]

theorem get_set_of_ne (s : Status) (f g : Flag) (v : Bool) (h : g ≠ f) :
    (s.set f v).get g = s.get g := by
  cases f <;> cases g <;> simp_all [get, set]

/-- Flags that read alike everywhere are equal. -/
theorem ext_get {s t : Status} (h : ∀ f, s.get f = t.get f) : s = t := by
  apply Status.ext
  · exact h .carry
  · exact h .zero
  · exact h .interruptDisable
  · exact h .decimal
  · exact h .breakCommand
  · exact h .overflow
  · exact h .negative

theorem ofByte_toByte (s : Status) : ofByte s.toByte = s := by
  obtain ⟨c, z, i, d, b, v, n⟩ := s
  revert c z i d b v n
  decide

theorem get_ofByte (b : UInt8) (f : Flag) (h : f ≠ .unused) : (ofByte b).get f = bit b f.place := by
  cases f with
  | unused => exact absurd rfl h
  | _ => rfl

theorem bit_toByte (s : Status) (f : Flag) (h : f ≠ .unused) : bit s.toByte f.place = s.get f := by
  rw [← get_ofByte _ f h, ofByte_toByte]

end Status

end Mos6502
