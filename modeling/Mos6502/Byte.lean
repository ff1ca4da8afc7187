namespace Mos6502

/-- Bit `i` of a byte, bit 0 being worth one. -/
def bit (b : UInt8) (i : Nat) : Bool := b.toNat.testBit i

/-- The word with the given low and high bytes. -/
def word (lo hi : UInt8) : UInt16 := lo.toUInt16 + 256 * hi.toUInt16

def low (w : UInt16) : UInt8 := w.toUInt8

def high (w : UInt16) : UInt8 := UInt8.ofNat (w.toNat / 256)

def zeroPage (b : UInt8) : UInt16 := b.toUInt16

def crossesPage (a b : UInt16) : Bool := high a != high b

/-- A byte as a signed distance, to be added to an address modulo 65536. -/
def displacement (b : UInt8) : UInt16 := if bit b 7 then 0xFF00 + b.toUInt16 else b.toUInt16

private def hexDigit (n : Nat) : Char := n.digitChar.toUpper

def hexByte (b : UInt8) : String := String.ofList [hexDigit (b.toNat / 16), hexDigit (b.toNat % 16)]

def hexWord (w : UInt16) : String := hexByte (high w) ++ hexByte (low w)

/-- What holds of the bytes below 256, as numbers, holds of every byte. -/
theorem forall_byte {p : UInt8 → Prop} (h : ∀ n < 256, p (UInt8.ofNat n)) : ∀ b, p b := by
  intro b
  have hb := h b.toNat b.toNat_lt
  rwa [UInt8.ofNat_toNat] at hb

theorem toNat_word (lo hi : UInt8) : (word lo hi).toNat = lo.toNat + 256 * hi.toNat := by
  have hl := lo.toNat_lt
  have hh := hi.toNat_lt
  simp only [word, UInt16.toNat_add, UInt16.toNat_mul, UInt8.toNat_toUInt16, UInt16.toNat_ofNat]
  omega

theorem toNat_low (w : UInt16) : (low w).toNat = w.toNat % 256 := by
  simp [low]

theorem toNat_high (w : UInt16) : (high w).toNat = w.toNat / 256 := by
  have h := w.toNat_lt
  simp only [high, UInt8.toNat_ofNat']
  omega

theorem word_low_high (w : UInt16) : word (low w) (high w) = w := by
  apply UInt16.toNat_inj.mp
  rw [toNat_word, toNat_low, toNat_high]
  omega

theorem sub_ofNat_add (b : UInt8) (i j : Nat) :
    b - UInt8.ofNat (i + j) = b - UInt8.ofNat i - UInt8.ofNat j := by
  rw [UInt8.ofNat_add, UInt8.sub_eq_iff_eq_add, UInt8.add_comm (UInt8.ofNat i),
    ← UInt8.add_assoc, UInt8.sub_add_cancel, UInt8.sub_add_cancel]

theorem add_ofNat_add (w : UInt16) (i j : Nat) :
    w + UInt16.ofNat (i + j) = w + UInt16.ofNat i + UInt16.ofNat j := by
  rw [UInt16.ofNat_add, UInt16.add_assoc]

theorem add_ofNat_succ (w : UInt16) (i : Nat) :
    w + UInt16.ofNat (i + 1) = w + 1 + UInt16.ofNat i := by
  rw [Nat.add_comm]
  exact add_ofNat_add w 1 i

theorem toNat_add_ofNat {a : UInt16} {i : Nat} (h : a.toNat + i < UInt16.size) :
    (a + UInt16.ofNat i).toNat = a.toNat + i := by
  rw [UInt16.toNat_add, UInt16.toNat_ofNat']
  have hsize : UInt16.size = 2 ^ 16 := rfl
  omega

theorem crossesPage_comm (a b : UInt16) : crossesPage a b = crossesPage b a := by
  simp [crossesPage, bne, BEq.comm]

end Mos6502
