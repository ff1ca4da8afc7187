import Mos6502.Proofs.Effect

namespace Mos6502

open Processor

variable {α β : Type}

theorem outcome_completing (p : Processor Unit) (r : Registers) (m : Memory) (c : Nat) :
    ((completing p).outcome r m).after c =
      ⟨(.ok (), ((p.outcome r m).after c).value.2), ((p.outcome r m).after c).memory,
        ((p.outcome r m).after c).cycles⟩ := by
  simp [completing, Bus.Outcome.after]

theorem apply_pc (op : ReadOp) (r : Registers) (b : UInt8) (pc : UInt16) :
    op.apply { r with pc := pc } b = { op.apply r b with pc := pc } := by
  cases op with
  | load reg => cases reg <;> rfl
  | compare reg => cases reg <;> rfl
  | and | or | xor | test | add | subtract => rfl

theorem readCost_cell (l : Location) (r : Registers) (m : Memory) :
    (Source.cell l).readCost r m = l.lookup .read r m + 2 := by
  cases l <;> simp [Source.readCost, Location.lookup] <;> omega

theorem storeCost_eq (l : Location) (r : Registers) (m : Memory) :
    l.storeCost = l.lookup .write r m + 2 := by
  cases l <;> rfl

theorem modifyCost_cell (l : Location) (r : Registers) (m : Memory) :
    (Target.cell l).modifyCost = l.lookup .write r m + 4 := by
  cases l <;> rfl

theorem outcome_byte (source : Source) (r : Registers) (m : Memory) :
    (source.byte.outcome { r with pc := r.pc + 1 } m).after 1 =
      ⟨(source.operand r m, { r with pc := source.mode.following r.pc }), m,
        source.readCost r m⟩ := by
  cases source with
  | immediate =>
    rw [following_eq]
    rfl
  | cell l =>
    simp only [Source.byte, outcome_bind, outcome_address, Processor.outcome_read,
      Bus.Outcome.after_mk, Source.operand, Source.mode, readCost_cell]
    congr 1
    omega

theorem after_outcome_bind (p : Processor α) (f : α → Processor β) (r : Registers) (m : Memory)
    (c : Nat) :
    ((p >>= f).outcome r m).after c =
      ((f ((p.outcome r m).after c).value.1).outcome ((p.outcome r m).after c).value.2
        ((p.outcome r m).after c).memory).after ((p.outcome r m).after c).cycles := by
  simp [Bus.Outcome.after, Nat.add_assoc]

theorem outcome_readOp (op : ReadOp) (source : Source) (r : Registers) (m : Memory) :
    ((op.perform source).outcome { r with pc := r.pc + 1 } m).after 1 =
      ⟨if op.isArithmetic && r.status.decimal then
          (.error .decimalMode, { r with pc := source.mode.following r.pc })
        else (.ok (), { op.apply r (source.operand r m) with pc := source.mode.following r.pc }),
        m, source.readCost r m⟩ := by
  rw [ReadOp.perform, after_outcome_bind, outcome_byte]
  by_cases hd : op.isArithmetic ∧ r.status.decimal
  · simp [hd]
  · simp [hd, apply_pc]

theorem outcome_store (reg : Register) (l : Location) (r : Registers) (m : Memory) :
    ((Instruction.store reg l).perform.outcome { r with pc := r.pc + 1 } m).after 1 =
      ⟨(.ok (), { r with pc := l.mode.following r.pc }), m.write (l.effective r m) (r.get reg),
        l.storeCost⟩ := by
  have hget : ({ r with pc := l.mode.following r.pc } : Registers).get reg = r.get reg := by
    cases reg <;> rfl
  simp [Instruction.perform, outcome_completing, outcome_address, storeCost_eq l r m, hget]
  omega

theorem outcome_modifyOp (op : ModifyOp) (l : Location) (r : Registers) (m : Memory) :
    ((op.perform (.cell l)).outcome { r with pc := r.pc + 1 } m).after 1 =
      ⟨((), { r with
          pc := l.mode.following r.pc
          status := op.status r.status (m.read (l.effective r m)) }),
        m.write (l.effective r m) (op.result r.status (m.read (l.effective r m))),
        (Target.cell l).modifyCost⟩ := by
  simp [ModifyOp.perform, outcome_address, modifyCost_cell l r m]
  omega

theorem outcome_condition (c : Condition) (r : Registers) (m : Memory) :
    (c.perform.outcome { r with pc := r.pc + 1 } m).after 1 =
      ⟨((), { r with pc := Instruction.next r m (.branch c) }), m,
        Instruction.branchCost r m c⟩ := by
  have hpc : r.pc + 1 + 1 = Mode.relative.following r.pc := by
    rw [following_eq]
    rfl
  have hcross (a b : UInt16) : crossesPage a b = true ↔ high b ≠ high a := by
    rw [crossesPage_comm, crossesPage, bne_iff_ne]
  rw [Instruction.branchCost, Instruction.next]
  by_cases hc : c.holds r.status
  · by_cases hp : high (branchTarget r.pc (m.read (r.pc + 1))) =
        high (Mode.relative.following r.pc)
    · rw [branchTarget] at hp
      simp [Condition.perform, hc, hpc, hcross, branchTarget, hp]
    · rw [branchTarget] at hp
      simp [Condition.perform, hc, hpc, hcross, branchTarget, hp]
  · simp [Condition.perform, hc, hpc]

theorem read_write_stackCell (m : Memory) (sp b : UInt8) {a : UInt16} (h : high a ≠ 1) :
    (m.write (stackCell sp) b).read a = m.read a := by
  apply Memory.read_write_of_ne
  intro he
  rw [← he] at h
  exact h (high_stackCell sp)

theorem outcome_call (r : Registers) (m : Memory) :
    (Processor.call.outcome { r with pc := r.pc + 1 } m).after 1 =
      ⟨((), Instruction.call.after r m), m.writeCells (Instruction.call.writes r m), 6⟩ := by
  have hpc : r.pc + 1 + 2 - 1 = r.pc + 2 := by
    rw [UInt16.add_assoc, UInt16.add_comm 1, ← UInt16.add_assoc, UInt16.add_sub_cancel]
  simp [Processor.call, Instruction.after, Instruction.registers, Instruction.next,
    Instruction.writes, Memory.writeCells, hpc]

theorem outcome_returnFromCall (r : Registers) (m : Memory) :
    (Processor.returnFromCall.outcome { r with pc := r.pc + 1 } m).after 1 =
      ⟨((), Instruction.returnFromCall.after r m), m, 6⟩ := by
  simp [Processor.returnFromCall, Instruction.after, Instruction.registers, Instruction.next]

theorem outcome_softwareInterrupt (r : Registers) (m : Memory) :
    (Processor.softwareInterrupt.outcome { r with pc := r.pc + 1 } m).after 1 =
      ⟨((), Instruction.softwareInterrupt.after r m),
        m.writeCells (Instruction.softwareInterrupt.writes r m), 7⟩ := by
  have hpc : r.pc + 1 + 1 = r.pc + 2 := UInt16.add_assoc _ 1 1
  have hsp : r.sp - 2 - 1 = r.sp - 3 := (sub_ofNat_add r.sp 2 1).symm
  have hlow : high 0xFFFE ≠ 1 := by decide
  have hhigh : high 0xFFFF ≠ 1 := by decide
  simp [Processor.softwareInterrupt, hpc, hsp, hlow, hhigh, Instruction.after, Instruction.registers,
    Instruction.next, Instruction.writes, Memory.writeCells, read_write_stackCell, interruptVector]

theorem outcome_returnFromInterrupt (r : Registers) (m : Memory) :
    (Processor.returnFromInterrupt.outcome { r with pc := r.pc + 1 } m).after 1 =
      ⟨((), Instruction.returnFromInterrupt.after r m), m, 6⟩ := by
  simp [Processor.returnFromInterrupt, Processor.pullStatus, Instruction.after,
    Instruction.registers, Instruction.next, UInt8.add_assoc]

/-- What an instruction does after its opcode was fetched, if it is not refused. -/
theorem outcome_perform (i : Instruction) (r : Registers) (m : Memory)
    (h : i.refused r.status = false) :
    (i.perform.outcome { r with pc := r.pc + 1 } m).after 1 =
      ⟨(.ok (), i.after r m), m.writeCells (i.writes r m), i.cost r m⟩ := by
  cases i with
  | read op source =>
    rw [Instruction.refused] at h
    rw [Instruction.perform, outcome_readOp, h]
    rfl
  | store reg l => exact outcome_store reg l r m
  | modify op target =>
    cases target with
    | accumulator => rfl
    | cell l =>
      rw [Instruction.perform, outcome_completing, outcome_modifyOp]
      rfl
  | incrementIndex i => cases i <;> rfl
  | decrementIndex i => cases i <;> rfl
  | transfer t => cases t <;> rfl
  | changeFlag c => cases c <;> rfl
  | branch c =>
    rw [Instruction.perform, outcome_completing, outcome_condition]
    rfl
  | jump => rfl
  | jumpIndirect => rfl
  | call =>
    rw [Instruction.perform, outcome_completing, outcome_call]
    rfl
  | returnFromCall =>
    rw [Instruction.perform, outcome_completing, outcome_returnFromCall]
    rfl
  | softwareInterrupt =>
    rw [Instruction.perform, outcome_completing, outcome_softwareInterrupt]
    rfl
  | returnFromInterrupt =>
    rw [Instruction.perform, outcome_completing, outcome_returnFromInterrupt]
    rfl
  | pushA =>
    simp only [Instruction.perform, outcome_completing, outcome_bind, outcome_idle, outcome_get,
      outcome_push, Bus.Outcome.after_mk]
    rfl
  | pushStatus =>
    simp only [Instruction.perform, outcome_completing, outcome_bind, outcome_idle, outcome_get,
      outcome_push, Bus.Outcome.after_mk]
    rfl
  | pullA =>
    simp only [Instruction.perform, outcome_completing, outcome_bind, outcome_idle, outcome_pull,
      outcome_update, Bus.Outcome.after_mk]
    rfl
  | pullStatus =>
    simp only [Instruction.perform, outcome_completing, outcome_bind, outcome_idle,
      Processor.pullStatus, outcome_pull, outcome_update, Bus.Outcome.after_mk]
    rfl
  | noOperation => rfl

theorem outcome_dispatch_unknown (r : Registers) (m : Memory) (h : decode (m.read r.pc) = none) :
    dispatch.outcome r m =
      ⟨((m.read r.pc, .error .unknownOpcode), { r with pc := r.pc + 1 }), m, 1⟩ := by
  simp [dispatch, h]

theorem outcome_dispatch_known (r : Registers) (m : Memory) (i : Instruction)
    (h : decode (m.read r.pc) = some i) :
    dispatch.outcome r m =
      let o := (i.perform.outcome { r with pc := r.pc + 1 } m).after 1
      ⟨((m.read r.pc, o.value.1), o.value.2), o.memory, o.cycles⟩ := by
  rw [dispatch, outcome_bind, outcome_fetch]
  simp only [h]
  rw [after_outcome_bind, outcome_pure]
  rfl

/-- A refused instruction has taken all its cycles and read its operand bytes. -/
theorem outcome_dispatch_refused (r : Registers) (m : Memory) (i : Instruction)
    (h : decode (m.read r.pc) = some i) (hr : i.refused r.status = true) :
    dispatch.outcome r m =
      ⟨((m.read r.pc, .error .decimalMode), { r with pc := i.mode.following r.pc }), m,
        i.cost r m⟩ := by
  rw [outcome_dispatch_known r m i h]
  cases i with
  | read op source =>
    rw [Instruction.refused] at hr
    rw [Instruction.perform, outcome_readOp, hr]
    rfl
  | _ => cases hr

theorem outcome_dispatch (r : Registers) (m : Memory) (i : Instruction)
    (h : decode (m.read r.pc) = some i) (hr : i.refused r.status = false) :
    dispatch.outcome r m =
      ⟨((m.read r.pc, .ok ()), i.after r m), m.writeCells (i.writes r m), i.cost r m⟩ := by
  rw [outcome_dispatch_known r m i h, outcome_perform i r m hr]

end Mos6502
