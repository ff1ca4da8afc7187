import Mos6502.Proofs.Execute
import Mos6502.Proofs.History

namespace Mos6502

namespace Status

theorem bits_pushed (s : Status) : bit s.pushed 4 = true ∧ bit s.pushed 5 = true := by
  obtain ⟨c, z, i, d, b, v, n⟩ := s
  revert c z i d b v n
  decide

end Status

namespace Registers

/-- The same registers but for the stored break flag. -/
def withBreak (r : Registers) (v : Bool) : Registers :=
  { r with status := r.status.set .breakCommand v }

variable (r : Registers) (m : Memory) (v : Bool)

theorem get_withBreak (reg : Register) : (r.withBreak v).get reg = r.get reg := by
  cases reg <;> rfl

theorem load_withBreak (reg : Register) (b : UInt8) :
    (r.withBreak v).load reg b = (r.load reg b).withBreak v := by
  cases reg <;> rfl

theorem effective_withBreak (l : Location) : l.effective (r.withBreak v) m = l.effective r m := by
  cases l with
  | zeroPageIndexed i => cases i <;> rfl
  | absoluteIndexed i => cases i <;> rfl
  | _ => rfl

theorem carries_withBreak (l : Location) : l.carries (r.withBreak v) m = l.carries r m := by
  cases l with
  | absoluteIndexed i => cases i <;> rfl
  | _ => rfl

theorem operand_withBreak (source : Source) :
    source.operand (r.withBreak v) m = source.operand r m := by
  cases source with
  | immediate => rfl
  | cell l => exact congrArg m.read (r.effective_withBreak m v l)

theorem apply_withBreak (op : ReadOp) (b : UInt8) :
    op.apply (r.withBreak v) b = (op.apply r b).withBreak v := by
  cases op with
  | load reg => exact r.load_withBreak v reg b
  | compare reg => cases reg <;> rfl
  | _ => rfl

end Registers

namespace Instruction

variable (i : Instruction) (r : Registers) (m : Memory) (v : Bool)

theorem refused_withBreak : i.refused (r.withBreak v).status = i.refused r.status := by
  cases i <;> rfl

theorem cost_withBreak : i.cost (r.withBreak v) m = i.cost r m := by
  cases i with
  | read op source =>
    cases source with
    | immediate => rfl
    | cell l => cases l <;> simp only [cost, Source.readCost, r.carries_withBreak]
  | branch c => cases c <;> rfl
  | _ => rfl

theorem writes_withBreak : i.writes (r.withBreak v) m = i.writes r m := by
  cases i with
  | store reg l => simp only [writes, r.effective_withBreak, r.get_withBreak]
  | modify op target =>
    cases target with
    | accumulator => rfl
    | cell l =>
      simp only [writes, r.effective_withBreak]
      cases op <;> rfl
  | _ => rfl

theorem next_withBreak : i.next (r.withBreak v) m = i.next r m := by
  cases i with
  | branch c => cases c <;> rfl
  | _ => rfl

theorem registers_withBreak :
    i.registers (r.withBreak v) m = (i.registers r m).withBreak v := by
  cases i with
  | read op source =>
    simp only [registers, r.operand_withBreak]
    exact r.apply_withBreak v op _
  | modify op target =>
    cases target with
    | accumulator => cases op <;> rfl
    | cell l =>
      simp only [registers, r.effective_withBreak]
      cases op <;> rfl
  | incrementIndex i => cases i <;> rfl
  | decrementIndex i => cases i <;> rfl
  | transfer t => cases t <;> rfl
  | changeFlag c => cases c <;> rfl
  | _ => rfl

/-- No instruction looks at the stored break flag or changes it. -/
theorem after_withBreak : i.after (r.withBreak v) m = (i.after r m).withBreak v := by
  simp only [after, registers_withBreak, next_withBreak]
  rfl

theorem after_breakCommand :
    (i.after r m).status.breakCommand = r.status.breakCommand := by
  have hsame : r.withBreak r.status.breakCommand = r := rfl
  have hafter := i.after_withBreak r m r.status.breakCommand
  rw [hsame] at hafter
  exact congrArg (fun r => r.status.breakCommand) hafter

end Instruction

namespace Burst

variable {b b' : Burst} {v : Bool}

/-- Two bursts that differ in the stored break flag and in what they have told at most. -/
structure Twins (v : Bool) (b b' : Burst) : Prop where
  registers : b'.registers = b.registers.withBreak v
  memory : b'.memory = b.memory
  spent : b'.spent = b.spent

theorem Twins.advance (h : b.Twins v b') :
    b'.advance.1 = b.advance.1 ∧ b.advance.2.Twins v b'.advance.2 := by
  have hopcode : b'.memory.read b'.registers.pc = b.memory.read b.registers.pc := by
    rw [h.memory, h.registers]
    rfl
  cases hi : decode (b.memory.read b.registers.pc) with
  | none =>
    have hi' := hi
    rw [← hopcode] at hi'
    rw [b.advance_unknown hi, b'.advance_unknown hi', hopcode, h.registers, h.memory, h.spent]
    exact ⟨rfl, rfl, rfl, rfl⟩
  | some i =>
    have hi' := hi
    have hrefused := i.refused_withBreak b.registers v
    have hcost := i.cost_withBreak b.registers b.memory v
    rw [← hopcode] at hi'
    rw [← h.registers] at hrefused
    cases hr : i.refused b.registers.status with
    | true =>
      rw [b.advance_refused i hi hr, b'.advance_refused i hi' (hrefused.trans hr), hopcode,
        h.registers, h.memory, h.spent, hcost]
      exact ⟨rfl, rfl, rfl, rfl⟩
    | false =>
      rw [b.advance_admitted i hi hr, b'.advance_admitted i hi' (hrefused.trans hr), h.registers,
        h.memory, h.spent, hcost, i.after_withBreak, i.writes_withBreak]
      exact ⟨rfl, rfl, rfl, rfl⟩

theorem Twins.run (b : Burst) (budget : Nat) : ∀ b', b.Twins v b' →
    (b'.run budget).1 = (b.run budget).1 ∧ (b.run budget).2.Twins v (b'.run budget).2 := by
  fun_induction Burst.run budget b with
  | case1 b hb next hn ih =>
    intro b' h
    obtain ⟨hfault, hnext⟩ := h.advance
    rw [run_next (by rwa [h.spent]) (hfault.trans hn)]
    exact ih _ hnext
  | case2 b hb next fault hf =>
    intro b' h
    obtain ⟨hfault, hnext⟩ := h.advance
    rw [run_faulted (by rwa [h.spent]) (hfault.trans hf)]
    exact ⟨hfault.trans hf, hnext⟩
  | case3 b hb =>
    intro b' h
    rw [run_spent (by rwa [h.spent])]
    exact ⟨rfl, h⟩

end Burst

/-- An operation that gives the stored break flag a value of its own. -/
def Operation.setsBreak : Operation → Bool
  | setFlag .breakCommand _ | setStatus _ | reset | resetTo _ => true
  | _ => false

namespace Machine

/-- Two machines that differ in the stored break flag, which is `v` in the second one, and in what
they have told at most. -/
structure Twins (v : Bool) (m m' : Machine) : Prop where
  cpu : m'.cpu = { m.cpu with toRegisters := m.cpu.toRegisters.withBreak v }
  memory : m'.memory = m.memory

variable {m m' : Machine} {v : Bool}

theorem twins_self (m : Machine) : m.Twins m.cpu.status.breakCommand m := ⟨rfl, rfl⟩

theorem Twins.breakCommand (h : m.Twins v m') : m'.cpu.status.breakCommand = v := by
  rw [h.cpu]
  rfl

/-- Twins answer a call alike and stay twins, if what runs in it keeps bursts twins. -/
theorem Twins.call (h : m.Twins v m') {runs : Burst → Option Fault × Burst}
    (hruns : ∀ b b', b.Twins v b' → (runs b').1 = (runs b).1 ∧ (runs b).2.Twins v (runs b').2) :
    (m'.call runs).1 = (m.call runs).1 ∧ (m.call runs).2.Twins v (m'.call runs).2 := by
  have hhalted : m'.cpu.halted = m.cpu.halted := by rw [h.cpu]
  have htotal : m'.cpu.totalCycles = m.cpu.totalCycles := by rw [h.cpu]
  cases hh : m.cpu.halted with
  | some fault =>
    rw [call_halted runs m fault hh, call_halted runs m' fault (hhalted.trans hh)]
    exact ⟨rfl, h⟩
  | none =>
    have hburst : (m.burst 0).Twins v (m'.burst 0) :=
      ⟨by rw [burst, burst, h.cpu], h.memory, rfl⟩
    obtain ⟨hfault, hafter⟩ := hruns _ _ hburst
    rw [call_running runs m hh, call_running runs m' (hhalted.trans hh), hfault, hafter.spent,
      htotal]
    refine ⟨rfl, ?_, hafter.memory⟩
    rw [hafter.registers]

theorem Twins.load (h : m.Twins v m') (image : List UInt8) :
    (m.load image).2.Twins v (m'.load image).2 := by
  constructor
  · rw [m'.cpu_load, m.cpu_load]
    exact h.cpu
  · have hmemory := h.memory
    simp only [Machine.load]
    cases splitImage image with
    | error e => exact hmemory
    | ok loaded => exact congrArg (Memory.writeAll · loaded.1 loaded.2) hmemory

theorem Twins.operation (h : m.Twins v m') {op : Operation} (ho : op.setsBreak = false) :
    op.answer m' = op.answer m ∧ (op.apply m).Twins v (op.apply m') := by
  cases op with
  | execute budget =>
    obtain ⟨hanswer, hafter⟩ := h.call fun b => Burst.Twins.run b budget.toNat
    exact ⟨congrArg some hanswer, hafter⟩
  | step =>
    obtain ⟨hanswer, hafter⟩ := h.call fun _ _ => Burst.Twins.advance
    exact ⟨congrArg some hanswer, hafter⟩
  | load image => exact ⟨rfl, h.load image⟩
  | setFlag flag value =>
    refine ⟨rfl, ?_, h.memory⟩
    simp only [Operation.apply, h.cpu]
    cases flag with
    | breakCommand => cases ho
    | _ => rfl
  | setRegister register value =>
    refine ⟨rfl, ?_, h.memory⟩
    simp only [Operation.apply, h.cpu]
    cases register <;> rfl
  | setPc pc =>
    refine ⟨rfl, ?_, h.memory⟩
    simp only [Operation.apply, h.cpu]
    rfl
  | setSp sp =>
    refine ⟨rfl, ?_, h.memory⟩
    simp only [Operation.apply, h.cpu]
    rfl
  | write address value =>
    exact ⟨rfl, h.cpu, congrArg (Memory.write · address value) h.memory⟩
  | setStatus status => cases ho
  | reset => cases ho
  | resetTo start => cases ho

/-- By induction on the operations: each is answered alike and leaves twins for the next one. -/
theorem Twins.perform (h : m.Twins v m') {ops : List Operation}
    (ho : ∀ op ∈ ops, op.setsBreak = false) :
    m'.transcript ops = m.transcript ops ∧ (m.perform ops).Twins v (m'.perform ops) := by
  induction ops generalizing m m' with
  | nil => exact ⟨rfl, h⟩
  | cons op ops ih =>
    obtain ⟨hanswer, hafter⟩ := h.operation (ho op List.mem_cons_self)
    obtain ⟨hrest, hend⟩ := ih hafter fun op' hop => ho op' (List.mem_cons_of_mem op hop)
    refine ⟨?_, hend⟩
    simp only [transcript, hanswer, hrest]

theorem breakCommand_perform (m : Machine) {ops : List Operation}
    (ho : ∀ op ∈ ops, op.setsBreak = false) :
    (m.perform ops).cpu.status.breakCommand = m.cpu.status.breakCommand :=
  (m.twins_self.perform ho).2.breakCommand

/-- The status byte is the last byte that an instruction pushes which pushes one. -/
theorem Performs.read_pushed {i : Instruction} (h : m.Performs i)
    (hi : i = .pushStatus ∨ i = .softwareInterrupt) :
    m.step.2.memory.read (stackCell (m.step.2.cpu.sp + 1)) = m.cpu.status.pushed := by
  rw [h.step_eq]
  obtain rfl | rfl := hi
  · have hsp : m.cpu.sp - 1 + 1 = m.cpu.sp := UInt8.sub_add_cancel m.cpu.sp 1
    change (m.memory.write _ _).read (stackCell (m.cpu.sp - 1 + 1)) = _
    rw [hsp]
    exact m.memory.read_write_self _ _
  · have hsp : m.cpu.sp - 3 + 1 = m.cpu.sp - 2 := by
      rw [show m.cpu.sp - 3 = m.cpu.sp - 2 - 1 from sub_ofNat_add m.cpu.sp 2 1]
      exact UInt8.sub_add_cancel _ 1
    change (Memory.write _ _ _).read (stackCell (m.cpu.sp - 3 + 1)) = _
    rw [hsp]
    exact Memory.read_write_self _ _ _

/-- The stored break flag is out of a program's sight. Two machines that differ in it answer every
call alike and go on differing in it alone, each with the value it had, whatever a client does in
between other than to set that very flag. After a reset it is clear and stays so, while the status
byte on the stack has it set, with the unused bit, whenever a program pushes one. -/
theorem break_unobservable (m m' : Machine) (v : Bool) (h : m.Twins v m') (ops : List Operation)
    (ho : ∀ op ∈ ops, op.setsBreak = false) :
    m'.transcript ops = m.transcript ops ∧
    (m.perform ops).Twins v (m'.perform ops) ∧
    (m.perform ops).cpu.status.breakCommand = m.cpu.status.breakCommand ∧
    (m'.perform ops).cpu.status.breakCommand = m'.cpu.status.breakCommand ∧
    ∀ start, let r := (m.resetTo start).perform ops
      bit r.cpu.status.toByte 4 = false ∧
      ∀ i, r.Performs i → i = .pushStatus ∨ i = .softwareInterrupt →
        let p := r.step.2.memory.read (stackCell (r.step.2.cpu.sp + 1))
        bit p 4 = true ∧ bit p 5 = true := by
  obtain ⟨htranscript, htwins⟩ := h.perform ho
  refine ⟨htranscript, htwins, m.breakCommand_perform ho, m'.breakCommand_perform ho, ?_⟩
  intro start r
  constructor
  · have hbit : bit r.cpu.status.toByte 4 = r.cpu.status.breakCommand :=
      r.cpu.status.bit_toByte .breakCommand nofun
    rw [hbit]
    exact (m.resetTo start).breakCommand_perform ho
  · intro i hp hi p
    have hpushed : p = r.cpu.status.pushed := hp.read_pushed hi
    rw [hpushed]
    exact r.cpu.status.bits_pushed

/-- A push of the status, and a second one that is about to run after a reset. -/
theorem break_unobservable_pushed :
    let m : Machine := { cpu := { pc := 0x8000 } }
    let m' : Machine := { cpu := { pc := 0x8000, status := { breakCommand := true } } }
    let ops : List Operation := [.setPc 0, .write 0 0x08, .write 1 0x08, .step]
    let r := (m.resetTo 0).perform ops
    m.Twins true m' ∧ m'.transcript ops = m.transcript ops ∧
      (m'.perform ops).memory = (m.perform ops).memory ∧
      (m.perform ops).cpu.status.breakCommand = false ∧
      (m'.perform ops).cpu.status.breakCommand = true ∧
      bit r.cpu.status.toByte 4 = false ∧ r.Performs .pushStatus ∧
      bit (r.step.2.memory.read (stackCell (r.step.2.cpu.sp + 1))) 4 = true := by
  intro m m' ops r
  have htwins : m.Twins true m' := ⟨rfl, rfl⟩
  obtain ⟨htranscript, hafter, hbreak, hbreak', hreset⟩ :=
    m.break_unobservable m' true htwins ops (by decide)
  obtain ⟨hclear, hpushed⟩ := hreset 0
  let w := (m.resetTo 0).perform [.setPc 0, .write 0 0x08, .write 1 0x08]
  have hw : w.Performs .pushStatus :=
    ⟨rfl, congrArg decode ((Memory.read_write_of_ne _ _ (by decide)).trans
      (Memory.read_write_self _ _ _)), rfl⟩
  have hr : r.Performs .pushStatus := by
    change w.step.2.Performs .pushStatus
    refine ⟨by rw [hw.step_eq], ?_, rfl⟩
    rw [hw.instruction_step]
    exact congrArg decode ((Memory.read_write_of_ne _ _ (by decide)).trans
      (Memory.read_write_self _ _ _))
  exact ⟨htwins, htranscript, hafter.memory, hbreak, hbreak', hclear, hr,
    (hpushed _ hr (.inl rfl)).1⟩

end Machine

end Mos6502
