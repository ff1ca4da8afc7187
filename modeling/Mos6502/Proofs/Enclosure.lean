import Mos6502.Proofs.BreakFlag
import Mos6502.Proofs.LiveStack

namespace Mos6502

theorem Status.bit_pushed (s : Status) {f : Flag} (h : f ∈ Flag.pulled) :
    bit s.pushed f.place = s.get f := by
  obtain ⟨hbreak, hunused⟩ := Flag.mem_pulled.mp h
  rw [pushed, bit_toByte _ f hunused, get_set_of_ne s _ f true hbreak]

/-- Flags that went to the stack come back from it. -/
theorem Status.Pulls.eq_of_pushed {s t u : Status} (h : s.Pulls u.pushed t)
    (hb : s.breakCommand = u.breakCommand) : t = u := by
  apply ext_get
  intro f
  cases f with
  | breakCommand => exact h.kept.trans hb
  | unused => rfl
  | _ => exact (h.told _ (by decide)).trans (u.bit_pushed (by decide))

/-- The stored break flag is out of reach of every run. -/
theorem Machine.Runs.breakCommand {m : Machine} {n : Nat} (h : m.Runs n) :
    ∀ k ≤ n, (m.after k).cpu.status.breakCommand = m.cpu.status.breakCommand := by
  intro k
  induction k with
  | zero =>
    intro hk
    rfl
  | succ k ih =>
    intro hk
    obtain ⟨i, hp⟩ := h.performs hk
    obtain ⟨hregs, -, -⟩ := hp.after_succ
    rw [hregs, i.after_breakCommand]
    exact ih (Nat.le_of_succ_le hk)

/-- An instruction that leaves its place, and the one that comes back to it. -/
inductive Enclosure where
  | subroutine | interrupt

namespace Enclosure

def enter : Enclosure → Instruction
  | subroutine => .call
  | interrupt => .softwareInterrupt

def leave : Enclosure → Instruction
  | subroutine => .returnFromCall
  | interrupt => .returnFromInterrupt

/-- The bytes that stay on the stack in between. -/
def depth : Enclosure → Nat
  | subroutine => 2
  | interrupt => 3

/-- How far after the first opcode the program goes on. -/
def length : Enclosure → UInt16
  | subroutine => 3
  | interrupt => 2

def cost : Enclosure → Nat
  | subroutine => 12
  | interrupt => 13

theorem length_pushes (e : Enclosure) (r : Registers) : (e.enter.pushes r).length = e.depth := by
  cases e <;> rfl

theorem pulls_leave (e : Enclosure) : e.leave.pulls = e.depth := by
  cases e <;> rfl

theorem get_enter (e : Enclosure) (r : Registers) (m : Memory) (reg : Register) :
    (e.enter.after r m).get reg = r.get reg := by
  cases e <;> cases reg <;> rfl

theorem get_leave (e : Enclosure) (r : Registers) (m : Memory) (reg : Register) :
    (e.leave.after r m).get reg = r.get reg := by
  cases e <;> cases reg <;> rfl

end Enclosure

namespace Machine

/-- A step that enters, `t` successful steps, and a step about to leave which finds the stack
pointer and the cells that the first step wrote as that step left them. -/
structure Encloses (m : Machine) (e : Enclosure) (t : Nat) : Prop where
  running : m.cpu.halted = none
  entering : m.instruction = some e.enter
  body : m.step.2.Runs t
  leaving : (m.after (t + 1)).instruction = some e.leave
  pointer : (m.after (t + 1)).cpu.sp = m.cpu.sp - UInt8.ofNat e.depth
  cells : ∀ j < e.depth, (m.after (t + 1)).memory.read (stackCell (m.cpu.sp - UInt8.ofNat j)) =
    m.step.2.memory.read (stackCell (m.cpu.sp - UInt8.ofNat j))

/-- After the step that leaves, the program goes on as if it had not entered. -/
structure Resumes (m : Machine) (e : Enclosure) (t : Nat) : Prop where
  cycles : ∃ first last, m.answer 0 = .ok first ∧ m.answer (t + 1) = .ok last ∧
    first.toNat + last.toNat = e.cost
  pc : (m.after (t + 2)).cpu.pc = m.cpu.pc + e.length
  sp : (m.after (t + 2)).cpu.sp = m.cpu.sp
  status : e = .interrupt → (m.after (t + 2)).cpu.status = m.cpu.status
  registers : t = 0 →
    (m.after (t + 2)).cpu.toRegisters = { m.cpu.toRegisters with pc := m.cpu.pc + e.length }
  memory : t = 0 → ∀ a, (∀ j < e.depth, a ≠ stackCell (m.cpu.sp - UInt8.ofNat j)) →
    (m.after (t + 2)).memory.read a = m.memory.read a

namespace Encloses

variable {m : Machine} {e : Enclosure} {t : Nat}

theorem enters (h : m.Encloses e t) : m.Performs e.enter :=
  ⟨h.running, h.entering, by cases e <;> rfl⟩

theorem runs (h : m.Encloses e t) : m.Runs (t + 1) :=
  runs_succ (congrArg Prod.fst h.enters.step_eq) h.body

theorem leaves (h : m.Encloses e t) : (m.after (t + 1)).Performs e.leave := by
  obtain ⟨i, hp⟩ := h.runs.performs (Nat.lt_succ_self t)
  exact ⟨hp.after_succ.2.2, h.leaving, by cases e <;> rfl⟩

theorem entered (h : m.Encloses e t) :
    m.step.2.cpu.toRegisters = e.enter.after m.cpu.toRegisters m.memory ∧
      m.step.2.memory = m.memory.pushAll m.cpu.sp (e.enter.pushes m.cpu.toRegisters) := by
  have htouched : e.enter.touched m.cpu.toRegisters m.memory = none := by cases e <;> rfl
  have hsp : m.cpu.sp + UInt8.ofNat e.enter.pulls = m.cpu.sp := by
    cases e <;> exact UInt8.add_zero m.cpu.sp
  have hpush := e.enter.writeCells_pushes m.cpu.toRegisters m.memory htouched
  rw [hsp] at hpush
  rw [h.enters.step_eq]
  exact ⟨rfl, hpush⟩

theorem left (h : m.Encloses e t) :
    (m.after (t + 2)).cpu.toRegisters =
        e.leave.after (m.after (t + 1)).cpu.toRegisters (m.after (t + 1)).memory ∧
      (m.after (t + 2)).memory = (m.after (t + 1)).memory := by
  obtain ⟨hregs, hmem, -⟩ := h.leaves.after_succ
  refine ⟨hregs, ?_⟩
  rw [hmem]
  cases e <;> rfl

/-- The pushed bytes are on the stack again when the program leaves. -/
theorem stackHolds (h : m.Encloses e t) :
    StackHolds m.cpu.sp (m.after (t + 1)).cpu.sp (m.after (t + 1)).memory
      (e.enter.pushes m.cpu.toRegisters) := by
  have hlen := e.length_pushes m.cpu.toRegisters
  have hroom : e.depth ≤ 256 := by cases e <;> decide
  have hpush (bs : List UInt8) (hbs : bs.length ≤ 256) :
      StackHolds m.cpu.sp (m.cpu.sp - UInt8.ofNat bs.length) (m.memory.pushAll m.cpu.sp bs) bs :=
    (StackHolds.empty m.cpu.sp m.memory).pushAll (by simpa using hbs)
  have hpushed := hpush (e.enter.pushes m.cpu.toRegisters) (hlen ▸ hroom)
  rw [← h.entered.2] at hpushed
  refine ⟨?_, ?_⟩
  · rw [hlen]
    exact h.pointer
  · intro j hj
    rw [h.cells j (hlen ▸ hj)]
    exact hpushed.cell j hj

theorem takes (h : m.Encloses e t) :
    e.leave.Takes (m.after (t + 1)).cpu.toRegisters (m.after (t + 2)).cpu.toRegisters
      (e.enter.pushes m.cpu.toRegisters) := by
  have hlen := (e.length_pushes m.cpu.toRegisters).trans e.pulls_leave.symm
  have hholds : StackHolds m.cpu.sp (m.after (t + 1)).cpu.sp (m.after (t + 1)).memory
      ([] ++ e.enter.pushes m.cpu.toRegisters) := h.stackHolds
  rw [h.left.1]
  exact hholds.takes hlen

theorem resumes_pc (h : m.Encloses e t) : (m.after (t + 2)).cpu.pc = m.cpu.pc + e.length := by
  have htakes := h.takes
  cases e with
  | subroutine =>
    -- the call pushed the address of its own last byte, and the return adds one
    obtain ⟨hi, lo, hpushed, hpc⟩ := htakes
    cases hpushed
    rw [hpc, word_low_high, UInt16.add_assoc]
    rfl
  | interrupt =>
    -- the interrupt pushed the very address at which the program goes on
    obtain ⟨hi, lo, p, hpushed, -, hpc⟩ := htakes
    cases hpushed
    rw [hpc, word_low_high]
    rfl

theorem resumes_sp (h : m.Encloses e t) : (m.after (t + 2)).cpu.sp = m.cpu.sp := by
  have hsp : (m.after (t + 2)).cpu.sp = (m.after (t + 1)).cpu.sp + UInt8.ofNat e.depth := by
    rw [h.left.1]
    cases e <;> rfl
  rw [hsp, h.pointer]
  exact UInt8.sub_add_cancel m.cpu.sp (UInt8.ofNat e.depth)

/-- All flags but break come from the byte that was pushed, and break never changed. -/
theorem resumes_status (h : m.Encloses .interrupt t) :
    (m.after (t + 2)).cpu.status = m.cpu.status := by
  obtain ⟨hi, lo, p, hpushed, hstatus, -⟩ := h.takes
  cases hpushed
  have hbreak := h.runs.breakCommand (t + 1) (Nat.le_refl _)
  rw [← Status.pushed_eq] at hstatus
  exact hstatus.eq_of_pushed hbreak

theorem cycles (h : m.Encloses e t) :
    ∃ first last, m.answer 0 = .ok first ∧ m.answer (t + 1) = .ok last ∧
      first.toNat + last.toNat = e.cost := by
  have hfirst := toNat_reported_cost h.enters.current
  have hlast := toNat_reported_cost h.leaves.current
  refine ⟨_, _, congrArg Prod.fst h.enters.step_eq, congrArg Prod.fst h.leaves.step_eq, ?_⟩
  rw [hfirst, hlast]
  cases e <;> rfl

/-- Around an empty body the data registers and all the flags stay. -/
theorem resumes_registers (h : m.Encloses e 0) :
    (m.after 2).cpu.toRegisters = { m.cpu.toRegisters with pc := m.cpu.pc + e.length } := by
  have hleft : (m.after 2).cpu.toRegisters =
      e.leave.after m.step.2.cpu.toRegisters m.step.2.memory := h.left.1
  have hdata (reg : Register) : (m.after 2).cpu.get reg = m.cpu.get reg := by
    rw [hleft, e.get_leave, h.entered.1, e.get_enter]
  apply Registers.ext
  · exact h.resumes_pc
  · exact h.resumes_sp
  · exact hdata .a
  · exact hdata .x
  · exact hdata .y
  · cases e with
    | subroutine =>
      rw [hleft, h.entered.1]
      rfl
    | interrupt => exact h.resumes_status

theorem resumes_memory (h : m.Encloses e 0) (a : UInt16)
    (ha : ∀ j < e.depth, a ≠ stackCell (m.cpu.sp - UInt8.ofNat j)) :
    (m.after 2).memory.read a = m.memory.read a := by
  have hmem : (m.after 2).memory = m.step.2.memory := h.left.2
  rw [hmem, h.entered.2]
  apply Memory.read_pushAll_of_ne
  rw [e.length_pushes]
  exact ha

end Encloses

/-- Calls and software interrupts are transparent around any body. -/
theorem encloses_resumes (m : Machine) (e : Enclosure) (t : Nat) (h : m.Encloses e t) :
    m.Resumes e t where
  cycles := h.cycles
  pc := h.resumes_pc
  sp := h.resumes_sp
  status := by
    rintro rfl
    exact h.resumes_status
  registers := by
    rintro rfl
    exact h.resumes_registers
  memory := by
    rintro rfl
    exact h.resumes_memory

theorem encloses_resumes_wrapped :
    let m : Machine := { holding [0xEA, 0x60, 0x20] with cpu := { pc := 2 } }
    let m' : Machine := { holding [0x40] with cpu := { pc := 1 } }
    (m.Encloses .subroutine 1 ∧ (m.after 3).cpu.pc = 5 ∧ (m.after 3).cpu.sp = 0) ∧
      m'.Encloses .interrupt 0 ∧ (m'.after 2).cpu.toRegisters = { pc := 3 } := by
  intro m m'
  have hread : ∀ a, m.memory.read a = [0xEA, 0x60, 0x20].getD a.toNat 0 :=
    read_holding [0xEA, 0x60, 0x20] (by decide)
  have hread' : ∀ a, m'.memory.read a = [0x40].getD a.toNat 0 := read_holding [0x40] (by decide)
  have hm : m.Encloses .subroutine 1 := by
    have hcall : m.Performs .call := ⟨rfl, congrArg decode (hread 2), rfl⟩
    have hpc : m.step.2.cpu.pc = 0 := by
      rw [hcall.step_eq]
      change word (m.memory.read 3) (m.memory.read 4) = 0
      rw [hread, hread]
      rfl
    have hbody : m.step.2.Performs .noOperation := by
      refine ⟨by rw [hcall.step_eq], ?_, rfl⟩
      rw [instruction, hpc, hcall.read_step rfl (by decide), hread]
      rfl
    have hruns : m.step.2.Runs 1 := by
      intro k hk
      cases k with
      | zero => exact ⟨_, congrArg Prod.fst hbody.step_eq⟩
      | succ k => omega
    refine ⟨rfl, hcall.current, hruns, ?_, ?_, ?_⟩
    · change m.step.2.step.2.instruction = _
      rw [hbody.instruction_step]
      change decode (m.step.2.memory.read (m.step.2.cpu.pc + 1)) = _
      rw [hpc, hcall.read_step rfl (by decide), hread]
      rfl
    · change m.step.2.step.2.cpu.sp = _
      rw [hbody.step_eq, hcall.step_eq]
      rfl
    · intro j hj
      change m.step.2.step.2.memory.read _ = _
      rw [hbody.step_eq]
      rfl
  have hm' : m'.Encloses .interrupt 0 := by
    have hbreak : m'.Performs .softwareInterrupt := ⟨rfl, congrArg decode (hread' 1), rfl⟩
    have hpc : m'.step.2.cpu.pc = 0 := by
      rw [hbreak.step_eq]
      change word (m'.memory.read 0xFFFE) (m'.memory.read 0xFFFF) = 0
      rw [hread', hread']
      rfl
    refine ⟨rfl, hbreak.current, fun k hk => absurd hk (Nat.not_lt_zero k), ?_, ?_, fun j hj => rfl⟩
    · change m'.step.2.instruction = _
      rw [instruction, hpc, hbreak.read_step rfl (by decide), hread']
      rfl
    · change m'.step.2.cpu.sp = _
      rw [hbreak.step_eq]
      rfl
  have hr := m.encloses_resumes _ _ hm
  have hr' := m'.encloses_resumes _ _ hm'
  exact ⟨⟨hm, hr.pc, hr.sp⟩, hm', hr'.registers rfl⟩

end Machine

end Mos6502
