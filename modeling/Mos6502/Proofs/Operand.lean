import Mos6502.Addressing
import Mos6502.Proofs.Outcome

namespace Mos6502

open Processor

/-- The word at an address of page zero. Its high byte lies in page zero too. -/
def Memory.pointerAt (m : Memory) (b : UInt8) : UInt16 :=
  word (m.read b.toUInt16) (m.read (b + 1).toUInt16)

/-- The address after an instruction at `pc`. -/
def Mode.following (mode : Mode) (pc : UInt16) : UInt16 :=
  pc + UInt16.ofNat (1 + mode.operandLength)

theorem following_eq (mode : Mode) (pc : UInt16) :
    mode.following pc = pc + 1 + UInt16.ofNat mode.operandLength := by
  rw [Mode.following, UInt16.ofNat_add, UInt16.add_assoc]
  rfl

namespace Location

/-- The cell that a location names in an instruction at the program counter. -/
def effective (r : Registers) (m : Memory) : Location → UInt16
  | zeroPage => (m.read (r.pc + 1)).toUInt16
  | zeroPageIndexed i => (m.read (r.pc + 1) + r.get i.register).toUInt16
  | absolute => m.wordAt (r.pc + 1)
  | absoluteIndexed i => m.wordAt (r.pc + 1) + (r.get i.register).toUInt16
  | indirectX => m.pointerAt (m.read (r.pc + 1) + r.x)
  | indirectY => m.pointerAt (m.read (r.pc + 1)) + r.y.toUInt16

/-- Adding the index carries out of the low byte of the address. -/
def carries (r : Registers) (m : Memory) : Location → Bool
  | absoluteIndexed i => 255 < (low (m.wordAt (r.pc + 1))).toNat + (r.get i.register).toNat
  | indirectY => 255 < (low (m.pointerAt (m.read (r.pc + 1)))).toNat + r.y.toNat
  | zeroPage | zeroPageIndexed _ | absolute | indirectX => false

def lookup (access : Access) (r : Registers) (m : Memory) : Location → Nat
  | zeroPage => 1
  | zeroPageIndexed _ | absolute => 2
  | absoluteIndexed i => 2 + (access = .write || (absoluteIndexed i).carries r m).toNat
  | indirectX => 4
  | indirectY => 3 + (access = .write || indirectY.carries r m).toNat

end Location

/-- The high byte changes when the sum of the low bytes does not fit into a byte. -/
theorem crossesPage_add (w : UInt16) (b : UInt8) :
    crossesPage w (w + b.toUInt16) = decide (255 < (low w).toNat + b.toNat) := by
  have hw := w.toNat_lt
  have hb := b.toNat_lt
  have hl := toNat_low w
  have hsum : (high (w + b.toUInt16)).toNat = (w.toNat + b.toNat) % 65536 / 256 := by
    rw [toNat_high, UInt16.toNat_add, UInt8.toNat_toUInt16]
  rw [Bool.eq_iff_iff, decide_eq_true_iff, crossesPage, bne_iff_ne, ne_eq, ← UInt8.toNat_inj,
    hsum, toNat_high]
  omega

theorem outcome_addIndex (access : Access) (base : UInt16) (index : UInt8) (r : Registers)
    (m : Memory) :
    (addIndex access base index).outcome r m =
      ⟨(base + index.toUInt16, r), m,
        (access = .write || decide (255 < (low base).toNat + index.toNat)).toNat⟩ := by
  rw [← crossesPage_add]
  cases h : (decide (access = .write) || crossesPage base (base + index.toUInt16)) <;>
    simp [addIndex, h]

@[simp] theorem outcome_zeroPageWord (b : UInt8) (r : Registers) (m : Memory) :
    (zeroPageWord b).outcome r m = ⟨(m.pointerAt b, r), m, 2⟩ := rfl

/-- Looking up a cell reads the operand bytes and changes nothing. -/
theorem outcome_address (l : Location) (access : Access) (r : Registers) (m : Memory) :
    (l.address access).outcome { r with pc := r.pc + 1 } m =
      ⟨(l.effective r m, { r with pc := l.mode.following r.pc }), m, l.lookup access r m⟩ := by
  rw [following_eq]
  cases l with
  | zeroPage => rfl
  | zeroPageIndexed i => cases i <;> rfl
  | absolute => exact outcome_fetchWord { r with pc := r.pc + 1 } m
  | absoluteIndexed i =>
    simp only [Location.address, outcome_bind, outcome_fetchWord, outcome_get, outcome_addIndex,
      Bus.Outcome.after_mk, Nat.zero_add]
    cases i <;> rfl
  | indirectX => rfl
  | indirectY =>
    simp only [Location.address, outcome_bind, outcome_fetch, outcome_zeroPageWord, outcome_get,
      outcome_addIndex, Bus.Outcome.after_mk, Nat.zero_add, ← Nat.add_assoc]
    rfl

end Mos6502
