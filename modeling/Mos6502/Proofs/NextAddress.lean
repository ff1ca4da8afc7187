import Mos6502.Proofs.Flags
import Mos6502.Proofs.Reads

namespace Mos6502

/-- The flag that a branch looks at. -/
def Condition.flag : Condition → Flag
  | carryClear | carrySet => .carry
  | equal | notEqual => .zero
  | minus | plus => .negative
  | overflowClear | overflowSet => .overflow

/-- The value of its flag with which a branch is taken. -/
def Condition.value : Condition → Bool
  | carrySet | equal | minus | overflowSet => true
  | carryClear | notEqual | plus | overflowClear => false

theorem holds_iff (c : Condition) (s : Status) : c.holds s = true ↔ s.get c.flag = c.value := by
  cases c with
  | carrySet | equal | minus | overflowSet => rfl
  | carryClear | notEqual | plus | overflowClear => exact iff_of_eq (Bool.not_eq_true' _)

/-- A byte as a signed distance, added modulo 65536. -/
theorem toNat_add_displacement (w : UInt16) (b : UInt8) :
    ((w + displacement b).toNat : Int) = (w.toNat + signed b) % 65536 := by
  have hb := b.toNat_lt
  have hdistance :
      (displacement b).toNat = if 128 ≤ b.toNat then 0xFF00 + b.toNat else b.toNat := by
    rw [displacement, bit_seven]
    by_cases h : 128 ≤ b.toNat
    · rw [if_pos (decide_eq_true h), if_pos h, UInt16.toNat_add, UInt8.toNat_toUInt16]
      change (65280 + b.toNat) % 65536 = 65280 + b.toNat
      omega
    · rw [if_neg (by simpa using h), if_neg h, UInt8.toNat_toUInt16]
  rw [UInt16.toNat_add, hdistance, signed_eq]
  split_ifs <;> omega

theorem toNat_following (mode : Mode) (pc : UInt16) :
    (mode.following pc).toNat = (pc.toNat + 1 + mode.operandLength) % 65536 := by
  rw [Mode.following, UInt16.toNat_add, UInt16.toNat_ofNat', Nat.add_mod_mod, ← Nat.add_assoc]

theorem toNat_nextInPage (w : UInt16) :
    (nextInPage w).toNat = 256 * (w.toNat / 256) + (w.toNat + 1) % 256 := by
  rw [nextInPage, toNat_word, UInt8.toNat_add, toNat_low, toNat_high]
  change (w.toNat % 256 + 1) % 256 + _ = _
  omega

theorem toNat_operandWord (m : Memory) (pc : UInt16) :
    (m.wordAt (pc + 1)).toNat = (m.read (pc + 1)).toNat + 256 * (m.read (pc + 2)).toNat := by
  have hsecond : pc + 1 + 1 = pc + 2 := UInt16.add_assoc pc 1 1
  rw [Memory.wordAt, toNat_word, hsecond]

namespace Instruction

/-- Leads elsewhere than behind itself, or may do so. -/
def redirects : Instruction → Bool
  | branch _ | jump | jumpIndirect | call | returnFromCall | softwareInterrupt
  | returnFromInterrupt => true
  | _ => false

/-- Where an instruction leads, told as a number from the registers and the memory before it. -/
structure Continues (i : Instruction) (r : Registers) (m : Memory) (pc : UInt16) : Prop where
  taken : ∀ c, i = .branch c → r.status.get c.flag = c.value →
    (pc.toNat : Int) = (r.pc.toNat + 2 + signed (m.read (r.pc + 1))) % 65536
  untaken : ∀ c, i = .branch c → r.status.get c.flag ≠ c.value →
    pc.toNat = (r.pc.toNat + 2) % 65536
  jumped : i = .jump ∨ i = .call →
    pc.toNat = (m.read (r.pc + 1)).toNat + 256 * (m.read (r.pc + 2)).toNat
  pointed : i = .jumpIndirect → ∃ w w' : UInt16,
    w.toNat = (m.read (r.pc + 1)).toNat + 256 * (m.read (r.pc + 2)).toNat ∧
    w'.toNat = 256 * (w.toNat / 256) + (w.toNat + 1) % 256 ∧
    pc.toNat = (m.read w).toNat + 256 * (m.read w').toNat
  interrupted : i = .softwareInterrupt →
    pc.toNat = (m.read 0xFFFE).toNat + 256 * (m.read 0xFFFF).toNat
  returned : i = .returnFromCall →
    pc.toNat = ((m.read (stackCell (r.sp + 1))).toNat +
      256 * (m.read (stackCell (r.sp + 2))).toNat + 1) % 65536
  resumed : i = .returnFromInterrupt →
    pc.toNat = (m.read (stackCell (r.sp + 2))).toNat +
      256 * (m.read (stackCell (r.sp + 3))).toNat
  passed : i.redirects = false → pc.toNat = (r.pc.toNat + 1 + i.mode.operandLength) % 65536

variable (r : Registers) (m : Memory)

theorem next_taken {c : Condition} (h : r.status.get c.flag = c.value) :
    next r m (.branch c) = branchTarget r.pc (m.read (r.pc + 1)) :=
  if_pos ((holds_iff c r.status).mpr h)

theorem next_untaken {c : Condition} (h : r.status.get c.flag ≠ c.value) :
    next r m (.branch c) = Mode.relative.following r.pc :=
  if_neg fun hc => h ((holds_iff c r.status).mp hc)

theorem next_passed {i : Instruction} (h : i.redirects = false) :
    i.next r m = i.mode.following r.pc := by
  cases i with
  | branch | jump | jumpIndirect | call | returnFromCall | softwareInterrupt
  | returnFromInterrupt => cases h
  | _ => rfl

theorem continues_next (i : Instruction) : i.Continues r m (i.next r m) where
  taken := by
    rintro c rfl hc
    have hpc := toNat_following .relative r.pc
    rw [next_taken r m hc, branchTarget, toNat_add_displacement, hpc]
    change (((_ + 1 + 1) % 65536 : Nat) + _ : Int) % _ = _
    omega
  untaken := by
    rintro c rfl hc
    rw [next_untaken r m hc]
    exact toNat_following .relative r.pc
  jumped := by
    rintro (rfl | rfl)
    · exact toNat_operandWord m r.pc
    · exact toNat_operandWord m r.pc
  pointed := by
    rintro rfl
    exact ⟨m.wordAt (r.pc + 1), nextInPage (m.wordAt (r.pc + 1)), toNat_operandWord m r.pc,
      toNat_nextInPage _, toNat_word _ _⟩
  interrupted := by
    rintro rfl
    exact toNat_word _ _
  returned := by
    rintro rfl
    rw [next, UInt16.toNat_add, toNat_word]
    rfl
  resumed := by
    rintro rfl
    exact toNat_word _ _
  passed := by
    intro hi
    rw [next_passed r m hi]
    exact toNat_following i.mode r.pc

end Instruction

namespace Machine

/-- Where a step leads that succeeds, and what it reads: first its own bytes, as many as its mode
has and one more for a software interrupt, then what they refer to. -/
theorem step_next (m : Machine) (used : UInt32) (h : m.step.1 = .ok used) :
    ∃ i, m.instruction = some i ∧
      i.Continues m.cpu.toRegisters m.memory m.step.2.cpu.pc ∧
      dispatch.reads m.cpu.toRegisters m.memory =
        addressesFrom m.cpu.pc (1 + i.mode.operandLength + i.padding) ++
          i.lookups m.cpu.toRegisters m.memory := by
  obtain ⟨i, hp⟩ := performs_of_ok h
  refine ⟨i, hp.current, ?_, reads_dispatch _ _ hp.current⟩
  rw [hp.step_eq]
  exact i.continues_next _ _

/-- A call that pushes onto its own operand goes where the operand led before. -/
theorem step_next_overlapped :
    let m : Machine :=
      { memory := Memory.zero.writeAll 0x01FE [0x20, 0x34, 0x12], cpu := { pc := 0x01FE, sp := 0xFF } }
    m.step.1 = .ok 6 ∧ m.step.2.memory.read 0x01FF = 0x02 ∧ m.step.2.cpu.pc = 0x1234 ∧
      dispatch.reads m.cpu.toRegisters m.memory = [0x01FE, 0x01FF, 0x0200] := by
  intro m
  have hread : ∀ a, m.memory.read a = [0x20, 0x34, 0x12].getD (a - 0x01FE).toNat 0 := by
    intro a
    rw [Memory.read_writeAll _ _ _ _ (by decide), Memory.read_zero]
  have hi : m.instruction = some .call := congrArg decode (hread 0x01FE)
  have hp : m.Performs .call := ⟨rfl, hi, rfl⟩
  have hok : m.step.1 = .ok 6 := by
    rw [hp.step_eq]
    rfl
  have hpushed : m.step.2.memory.read 0x01FF = 0x02 := by
    have hcell : stackCell (m.cpu.sp - UInt8.ofNat 0) = 0x01FF := by decide
    have hbytes : Instruction.call.pushes m.cpu.toRegisters = [0x02, 0x00] := by decide
    have hbyte :=
      Instruction.read_pushed m.cpu.toRegisters m.memory (i := .call) (j := 0) (by decide)
    simp only [hcell, hbytes] at hbyte
    rw [hp.step_eq]
    exact hbyte
  obtain ⟨i, hcurrent, hnext, hreads⟩ := m.step_next 6 hok
  obtain rfl : i = .call := Option.some.inj (hcurrent.symm.trans hi)
  have hpc := hnext.jumped (.inr rfl)
  have htarget : m.step.2.cpu.pc.toNat = 0x1234 := by
    rw [hpc, hread, hread]
    decide
  exact ⟨hok, hpushed, UInt16.toNat_inj.mp htarget, hreads⟩

end Machine

end Mos6502
