import Mathlib.Data.Nat.Digits.Defs
import Mos6502.Proofs.Flags

namespace Mos6502

/-- The number that bytes stand for, the least significant first. -/
def littleEndian (bs : List UInt8) : Nat := Nat.ofDigits 256 (bs.map UInt8.toNat)

/-- The number that bytes stand for in two's complement, the least significant first. -/
def twosComplement (bs : List UInt8) : Int := (littleEndian bs : Int).bmod (256 ^ bs.length)

/-- The number is one that `n` bytes hold in two's complement. -/
def SignedFits (n : Nat) (x : Int) : Prop := -2 ^ (8 * n - 1) ≤ x ∧ x < 2 ^ (8 * n - 1)

instance (n : Nat) (x : Int) : Decidable (SignedFits n x) := inferInstanceAs (Decidable (_ ∧ _))

theorem littleEndian_nil : littleEndian [] = 0 := rfl

theorem littleEndian_cons (b : UInt8) (bs : List UInt8) :
    littleEndian (b :: bs) = b.toNat + 256 * littleEndian bs := by
  simp [littleEndian, Nat.ofDigits_cons]

theorem littleEndian_lt (bs : List UInt8) : littleEndian bs < 256 ^ bs.length := by
  induction bs with
  | nil => simp [littleEndian_nil]
  | cons b bs ih =>
    have hb := b.toNat_lt
    rw [littleEndian_cons, List.length_cons, Nat.pow_succ]
    omega

/-- Equally many bytes that stand for the same number are the same. -/
theorem littleEndian_inj {as bs : List UInt8} (hlen : as.length = bs.length)
    (h : littleEndian as = littleEndian bs) : as = bs := by
  have hbytes (cs : List UInt8) : ∀ n ∈ cs.map UInt8.toNat, n < 256 := by
    intro n hn
    obtain ⟨c, -, rfl⟩ := List.mem_map.mp hn
    exact c.toNat_lt
  have hmap : as.map UInt8.toNat = bs.map UInt8.toNat :=
    Nat.ofDigits_inj_of_len_eq (by decide) (by simpa using hlen) (hbytes as) (hbytes bs) h
  exact List.map_injective_iff.mpr (fun _ _ => UInt8.toNat_inj.mp) hmap

/-- The complements of the digits are the digits of the complement. -/
theorem littleEndian_complement (bs : List UInt8) :
    littleEndian (bs.map (~~~·)) + littleEndian bs + 1 = 256 ^ bs.length := by
  induction bs with
  | nil => rfl
  | cons b bs ih =>
    have hb := b.toNat_lt
    have hnot : (~~~b).toNat = 255 - b.toNat := UInt8.toNat_not b
    rw [List.map_cons, littleEndian_cons, littleEndian_cons, List.length_cons, Nat.pow_succ, hnot]
    omega

theorem twosComplement_eq (bs : List UInt8) :
    twosComplement bs = if 2 * littleEndian bs < 256 ^ bs.length then (littleEndian bs : Int)
      else littleEndian bs - (256 ^ bs.length : Nat) := by
  have hlt := littleEndian_lt bs
  have hmod : (littleEndian bs : Int) % (256 ^ bs.length : Nat) = littleEndian bs :=
    Int.emod_eq_of_lt (Int.natCast_nonneg _) (Int.ofNat_lt.mpr hlt)
  rw [twosComplement, Int.bmod_def, hmod]
  generalize 256 ^ bs.length = size at hlt ⊢
  split_ifs <;> omega

theorem twosComplement_singleton (b : UInt8) : twosComplement [b] = signed b := by
  rw [twosComplement_eq, signed_eq, littleEndian_cons, littleEndian_nil]
  simp only [List.length_cons, List.length_nil]
  split_ifs <;> omega

/-- Only the last byte tells of the sign. -/
theorem twosComplement_cons (b : UInt8) {bs : List UInt8} (h : bs ≠ []) :
    twosComplement (b :: bs) = b.toNat + 256 * twosComplement bs := by
  have hb := b.toNat_lt
  obtain ⟨n, hn⟩ := Nat.exists_eq_add_one_of_ne_zero (List.length_pos_of_ne_nil h).ne'
  rw [twosComplement_eq, twosComplement_eq, littleEndian_cons, List.length_cons, hn, Nat.pow_succ,
    Nat.pow_succ]
  generalize 256 ^ n = size
  split_ifs <;> omega

theorem twosComplement_complement {bs : List UInt8} (h : bs ≠ []) :
    twosComplement (bs.map (~~~·)) = -1 - twosComplement bs := by
  have hsum := littleEndian_complement bs
  obtain ⟨n, hn⟩ := Nat.exists_eq_add_one_of_ne_zero (List.length_pos_of_ne_nil h).ne'
  rw [twosComplement_eq, twosComplement_eq, List.length_map, hn, Nat.pow_succ]
  rw [hn, Nat.pow_succ] at hsum
  generalize 256 ^ n = size at hsum ⊢
  split_ifs <;> omega

theorem signedFits_one (x : Int) : SignedFits 1 x ↔ -128 ≤ x ∧ x ≤ 127 := by
  rw [SignedFits]
  omega

/-- A digit below a number decides nothing about its range. -/
theorem signedFits_succ {n : Nat} (hn : 0 < n) {digit : Nat} (hd : digit < 256) (x : Int) :
    SignedFits (n + 1) (digit + 256 * x) ↔ SignedFits n x := by
  have hpow : (2 : Int) ^ (8 * (n + 1) - 1) = 256 * 2 ^ (8 * n - 1) := by
    have hexp : 8 * (n + 1) - 1 = 8 + (8 * n - 1) := by omega
    rw [hexp, Int.pow_add]
    rfl
  rw [SignedFits, SignedFits, hpow]
  generalize (2 : Int) ^ (8 * n - 1) = bound
  omega

/-- Digits and a carry out of them that together are a number are that number modulo the range of
the digits, and the carry tells whether it lies beyond the range. -/
theorem mod_of_digits {digits total size : Nat} {carry : Bool} (hlt : digits < size)
    (h : digits + size * carry.toNat = total) :
    digits = total % size ∧ (carry = true ↔ size ≤ total) := by
  cases carry with
  | false =>
    rw [Bool.toNat_false, Nat.mul_zero, Nat.add_zero] at h
    rw [← h, Nat.mod_eq_of_lt hlt]
    exact ⟨rfl, nofun, fun hle => absurd hlt (Nat.not_lt_of_le hle)⟩
  | true =>
    rw [Bool.toNat_true, Nat.mul_one] at h
    rw [← h, Nat.add_mod_right, Nat.mod_eq_of_lt hlt]
    exact ⟨rfl, fun _ => Nat.le_add_left _ _, fun _ => rfl⟩

end Mos6502
