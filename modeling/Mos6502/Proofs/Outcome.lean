import Mos6502.Stack

namespace Mos6502

variable {α β : Type}

@[simp] theorem Bus.Outcome.after_mk (v : α) (m : Memory) (c d : Nat) :
    (Bus.Outcome.mk v m c).after d = ⟨v, m, d + c⟩ := rfl

/-- The word at `a`, low byte first. -/
def Memory.wordAt (m : Memory) (a : UInt16) : UInt16 := word (m.read a) (m.read (a + 1))

/-- Byte `sp` of page one. -/
def stackCell (sp : UInt8) : UInt16 := 0x100 + sp.toUInt16

theorem high_stackCell (sp : UInt8) : high (stackCell sp) = 1 := by
  have h := sp.toNat_lt
  apply UInt8.toNat_inj.mp
  rw [toNat_high, stackCell, UInt16.toNat_add, UInt8.toNat_toUInt16]
  change (256 + sp.toNat) % 65536 / 256 = 1
  omega

theorem stackAddress_eq (r : Registers) : r.stackAddress = stackCell r.sp := by
  rw [Registers.stackAddress, word, stackCell, UInt16.add_comm]
  rfl

namespace Processor

/-- What a computation gives when it starts from registers and memory. -/
def outcome (p : Processor α) (r : Registers) (m : Memory) : Bus.Outcome (α × Registers) :=
  (p r).run m

variable (r : Registers) (m : Memory)

@[simp] theorem outcome_bind (p : Processor α) (f : α → Processor β) :
    (p >>= f).outcome r m =
      ((f (p.outcome r m).value.1).outcome (p.outcome r m).value.2 (p.outcome r m).memory).after
        (p.outcome r m).cycles :=
  Bus.run_bind (p r) (fun v => f v.1 v.2) m

@[simp] theorem outcome_pure (v : α) : (pure v : Processor α).outcome r m = ⟨(v, r), m, 0⟩ := rfl

@[simp] theorem outcome_map (p : Processor α) (f : α → β) :
    (f <$> p).outcome r m =
      ⟨(f (p.outcome r m).value.1, (p.outcome r m).value.2), (p.outcome r m).memory,
        (p.outcome r m).cycles⟩ := by
  rw [map_eq_pure_bind, outcome_bind, outcome_pure]
  rfl

@[simp] theorem outcome_get : (get : Processor Registers).outcome r m = ⟨(r, r), m, 0⟩ := rfl

@[simp] theorem outcome_set (s : Registers) :
    (set s : Processor PUnit).outcome r m = ⟨((), s), m, 0⟩ := rfl

@[simp] theorem outcome_update (f : Registers → Registers) :
    (update f).outcome r m = ⟨((), f r), m, 0⟩ := rfl

@[simp] theorem outcome_jumpTo (target : UInt16) :
    (jumpTo target).outcome r m = ⟨((), { r with pc := target }), m, 0⟩ := rfl

@[simp] theorem outcome_idle : idle.outcome r m = ⟨((), r), m, 1⟩ := rfl

@[simp] theorem outcome_read (a : UInt16) : (read a).outcome r m = ⟨(m.read a, r), m, 1⟩ := rfl

@[simp] theorem outcome_write (a : UInt16) (b : UInt8) :
    (write a b).outcome r m = ⟨((), r), m.write a b, 1⟩ := rfl

@[simp] theorem outcome_fetch :
    fetch.outcome r m = ⟨(m.read r.pc, { r with pc := r.pc + 1 }), m, 1⟩ := rfl

@[simp] theorem outcome_readWord (a b : UInt16) :
    (readWord a b).outcome r m = ⟨(word (m.read a) (m.read b), r), m, 2⟩ := rfl

@[simp] theorem outcome_fetchWord :
    fetchWord.outcome r m = ⟨(m.wordAt r.pc, { r with pc := r.pc + 2 }), m, 2⟩ := by
  simp [fetchWord, Memory.wordAt, UInt16.add_assoc]

@[simp] theorem outcome_push (b : UInt8) :
    (push b).outcome r m = ⟨((), { r with sp := r.sp - 1 }), m.write (stackCell r.sp) b, 1⟩ := by
  rw [← stackAddress_eq]
  rfl

@[simp] theorem outcome_pull :
    pull.outcome r m =
      ⟨(m.read (stackCell (r.sp + 1)), { r with sp := r.sp + 1 }), m, 1⟩ := by
  have h := stackAddress_eq { r with sp := r.sp + 1 }
  rw [← h]
  rfl

@[simp] theorem outcome_pushWord (w : UInt16) :
    (pushWord w).outcome r m =
      ⟨((), { r with sp := r.sp - 2 }),
        (m.write (stackCell r.sp) (high w)).write (stackCell (r.sp - 1)) (low w), 2⟩ := by
  have h : r.sp - 1 - 1 = r.sp - 2 := (sub_ofNat_add r.sp 1 1).symm
  simp [pushWord, h]

@[simp] theorem outcome_pullWord :
    pullWord.outcome r m =
      ⟨(word (m.read (stackCell (r.sp + 1))) (m.read (stackCell (r.sp + 2))),
        { r with sp := r.sp + 2 }), m, 2⟩ := by
  simp [pullWord, UInt8.add_assoc]

end Processor

end Mos6502
