import Mos6502.Proofs.Dispatch

namespace Mos6502

variable {α β : Type}

/-- The addresses that a computation reads, in order. -/
def Bus.reads : Bus α → Memory → List UInt16
  | done _, _ => []
  | read a next, m => a :: (next (m.read a)).reads m
  | write a b next, m => next.reads (m.write a b)
  | idle next, m => next.reads m

theorem Bus.reads_bind (p : Bus α) (f : α → Bus β) (m : Memory) :
    (p >>= f).reads m = p.reads m ++ (f (p.run m).value).reads (p.run m).memory := by
  simp only [bind_eq]
  induction p generalizing m with
  | done v => rfl
  | read a next ih => exact congrArg (a :: ·) (ih (m.read a) m)
  | write a b next ih => exact ih (m.write a b)
  | idle next ih => exact ih m

/-- A computation goes the same way on two memories that hold the same bytes where it reads. -/
theorem Bus.run_congr (p : Bus α) {m m' : Memory} (h : ∀ a ∈ p.reads m, m'.read a = m.read a) :
    (p.run m').value = (p.run m).value ∧ (p.run m').cycles = (p.run m).cycles := by
  induction p generalizing m m' with
  | done v => exact ⟨rfl, rfl⟩
  | read a next ih =>
    have hbyte : m'.read a = m.read a := h a List.mem_cons_self
    obtain ⟨hvalue, hcycles⟩ := ih (m.read a) fun c hc => h c (List.mem_cons_of_mem a hc)
    simp only [run, hbyte]
    exact ⟨hvalue, congrArg (1 + ·) hcycles⟩
  | write a b next ih =>
    have hwritten : ∀ c ∈ next.reads (m.write a b), (m'.write a b).read c = (m.write a b).read c := by
      intro c hc
      rw [Memory.read_write, Memory.read_write, h c hc]
    obtain ⟨hvalue, hcycles⟩ := ih hwritten
    exact ⟨hvalue, congrArg (1 + ·) hcycles⟩
  | idle next ih =>
    obtain ⟨hvalue, hcycles⟩ := ih h
    exact ⟨hvalue, congrArg (1 + ·) hcycles⟩

/-- Addresses one after another, going on at 0 after the last one. -/
def addressesFrom (a : UInt16) : Nat → List UInt16
  | 0 => []
  | n + 1 => a :: addressesFrom (a + 1) n

theorem mem_addressesFrom {a b : UInt16} {n : Nat} :
    b ∈ addressesFrom a n ↔ ∃ i < n, b = a + UInt16.ofNat i := by
  induction n generalizing a with
  | zero => simp [addressesFrom]
  | succ n ih =>
    have hzero : a + UInt16.ofNat 0 = a := UInt16.add_zero a
    rw [addressesFrom, List.mem_cons, ih]
    constructor
    · rintro (rfl | ⟨i, hi, rfl⟩)
      · exact ⟨0, Nat.succ_pos n, hzero.symm⟩
      · exact ⟨i + 1, Nat.succ_lt_succ hi, (add_ofNat_succ a i).symm⟩
    · rintro ⟨i, hi, rfl⟩
      cases i with
      | zero => exact .inl hzero
      | succ i => exact .inr ⟨i, Nat.lt_of_succ_lt_succ hi, add_ofNat_succ a i⟩

namespace Processor

def reads (p : Processor α) (r : Registers) (m : Memory) : List UInt16 := (p r).reads m

variable (r : Registers) (m : Memory)

@[simp] theorem reads_bind (p : Processor α) (f : α → Processor β) :
    (p >>= f).reads r m =
      p.reads r m ++
        (f (p.outcome r m).value.1).reads (p.outcome r m).value.2 (p.outcome r m).memory :=
  Bus.reads_bind (p r) (fun v => f v.1 v.2) m

@[simp] theorem reads_pure (v : α) : (pure v : Processor α).reads r m = [] := rfl

@[simp] theorem reads_map (p : Processor α) (f : α → β) : (f <$> p).reads r m = p.reads r m := by
  rw [map_eq_pure_bind, reads_bind, reads_pure, List.append_nil]

@[simp] theorem reads_get : (get : Processor Registers).reads r m = [] := rfl

@[simp] theorem reads_set (s : Registers) : (set s : Processor PUnit).reads r m = [] := rfl

@[simp] theorem reads_update (f : Registers → Registers) : (update f).reads r m = [] := rfl

@[simp] theorem reads_jumpTo (target : UInt16) : (jumpTo target).reads r m = [] := rfl

@[simp] theorem reads_idle : idle.reads r m = [] := rfl

@[simp] theorem reads_read (a : UInt16) : (read a).reads r m = [a] := rfl

@[simp] theorem reads_write (a : UInt16) (b : UInt8) : (write a b).reads r m = [] := rfl

@[simp] theorem reads_fetch : fetch.reads r m = [r.pc] := rfl

@[simp] theorem reads_readWord (a b : UInt16) : (readWord a b).reads r m = [a, b] := rfl

@[simp] theorem reads_fetchWord : fetchWord.reads r m = [r.pc, r.pc + 1] := rfl

@[simp] theorem reads_push (b : UInt8) : (push b).reads r m = [] := rfl

@[simp] theorem reads_pushWord (w : UInt16) : (pushWord w).reads r m = [] := rfl

@[simp] theorem reads_pull : pull.reads r m = [stackCell (r.sp + 1)] := by
  have h := stackAddress_eq { r with sp := r.sp + 1 }
  rw [← h]
  rfl

@[simp] theorem reads_pullWord :
    pullWord.reads r m = [stackCell (r.sp + 1), stackCell (r.sp + 2)] := by
  simp [pullWord, UInt8.add_assoc]

@[simp] theorem reads_completing (p : Processor Unit) : (completing p).reads r m = p.reads r m := by
  simp [completing]

@[simp] theorem reads_addIndex (access : Access) (base : UInt16) (index : UInt8) :
    (addIndex access base index).reads r m = [] := by
  rw [addIndex]
  split <;> rfl

end Processor

open Processor

namespace Location

/-- The cells that hold the pointer of a location that goes through one. -/
def pointerCells (r : Registers) (m : Memory) : Location → List UInt16
  | indirectX =>
    let pointer := m.read (r.pc + 1) + r.x
    [pointer.toUInt16, (pointer + 1).toUInt16]
  | indirectY =>
    let pointer := m.read (r.pc + 1)
    [pointer.toUInt16, (pointer + 1).toUInt16]
  | zeroPage | zeroPageIndexed _ | absolute | absoluteIndexed _ => []

end Location

namespace Instruction

/-- The bytes that an instruction consumes behind its operand. -/
def padding : Instruction → Nat
  | softwareInterrupt => 1
  | _ => 0

/-- The addresses that an instruction reads once its own bytes are consumed. -/
def lookups (r : Registers) (m : Memory) : Instruction → List UInt16
  | read _ (.cell l) | modify _ (.cell l) => l.pointerCells r m ++ [l.effective r m]
  | store _ l => l.pointerCells r m
  | jumpIndirect => [m.wordAt (r.pc + 1), nextInPage (m.wordAt (r.pc + 1))]
  | softwareInterrupt => [0xFFFE, 0xFFFF]
  | returnFromCall => [stackCell (r.sp + 1), stackCell (r.sp + 2)]
  | returnFromInterrupt => [stackCell (r.sp + 1), stackCell (r.sp + 2), stackCell (r.sp + 3)]
  | pullA | pullStatus => [stackCell (r.sp + 1)]
  | _ => []

end Instruction

variable (r : Registers) (m : Memory)

theorem reads_address (l : Location) (access : Access) :
    (l.address access).reads { r with pc := r.pc + 1 } m =
      addressesFrom (r.pc + 1) l.mode.operandLength ++ l.pointerCells r m := by
  cases l with
  | zeroPage => rfl
  | zeroPageIndexed i => cases i <;> rfl
  | absolute => rfl
  | absoluteIndexed i =>
    simp only [Location.address, reads_bind, outcome_fetchWord, outcome_get, reads_fetchWord,
      reads_get, reads_addIndex]
    cases i <;> rfl
  | indirectX => rfl
  | indirectY =>
    simp only [Location.address, reads_bind, outcome_fetch, outcome_zeroPageWord, outcome_get,
      reads_fetch, reads_get, reads_addIndex]
    rfl

/-- The byte of the operand is read last. -/
theorem reads_byte (source : Source) (op : ReadOp) :
    source.byte.reads { r with pc := r.pc + 1 } m =
      addressesFrom (r.pc + 1) source.mode.operandLength ++
        Instruction.lookups r m (.read op source) := by
  cases source with
  | immediate => rfl
  | cell l =>
    rw [Source.byte, reads_bind, reads_address, outcome_address, List.append_assoc]
    rfl

theorem reads_readOp (op : ReadOp) (source : Source) :
    (op.perform source).reads { r with pc := r.pc + 1 } m =
      addressesFrom (r.pc + 1) source.mode.operandLength ++
        Instruction.lookups r m (.read op source) := by
  rw [ReadOp.perform, reads_bind, reads_byte r m source op]
  generalize source.byte.outcome { r with pc := r.pc + 1 } m = o
  by_cases hd : op.isArithmetic ∧ o.value.2.status.decimal
  · simp [hd]
  · simp [hd]

theorem reads_modifyOp (op : ModifyOp) (l : Location) :
    (op.perform (.cell l)).reads { r with pc := r.pc + 1 } m =
      addressesFrom (r.pc + 1) l.mode.operandLength ++
        Instruction.lookups r m (.modify op (.cell l)) := by
  simp [ModifyOp.perform, reads_address, outcome_address, Instruction.lookups]

theorem reads_condition (c : Condition) :
    c.perform.reads { r with pc := r.pc + 1 } m = [r.pc + 1] := by
  by_cases hc : c.holds r.status
  · by_cases hp : crossesPage (r.pc + 1 + 1) (r.pc + 1 + 1 + displacement (m.read (r.pc + 1)))
    · simp [Condition.perform, hc, hp]
    · simp [Condition.perform, hc, hp]
  · simp [Condition.perform, hc]

theorem reads_returnFromCall :
    Processor.returnFromCall.reads { r with pc := r.pc + 1 } m =
      Instruction.returnFromCall.lookups r m := by
  simp [Processor.returnFromCall, Instruction.lookups]

theorem reads_softwareInterrupt :
    Processor.softwareInterrupt.reads { r with pc := r.pc + 1 } m =
      (r.pc + 1) :: Instruction.softwareInterrupt.lookups r m := by
  simp [Processor.softwareInterrupt, Instruction.lookups, interruptVector]

theorem reads_returnFromInterrupt :
    Processor.returnFromInterrupt.reads { r with pc := r.pc + 1 } m =
      Instruction.returnFromInterrupt.lookups r m := by
  simp [Processor.returnFromInterrupt, Processor.pullStatus, Instruction.lookups, UInt8.add_assoc]

/-- Behind its opcode an instruction consumes the bytes of its mode, and a software interrupt one
byte more. All else that it reads comes after them. -/
theorem reads_perform (i : Instruction) :
    i.perform.reads { r with pc := r.pc + 1 } m =
      addressesFrom (r.pc + 1) (i.mode.operandLength + i.padding) ++ i.lookups r m := by
  cases i with
  | read op source => exact reads_readOp r m op source
  | store reg l =>
    rw [Instruction.perform, reads_completing, reads_bind, reads_address]
    exact List.append_nil _
  | modify op target =>
    rw [Instruction.perform, reads_completing]
    cases target with
    | accumulator => rfl
    | cell l => exact reads_modifyOp r m op l
  | branch c =>
    rw [Instruction.perform, reads_completing, reads_condition]
    rfl
  | returnFromCall =>
    rw [Instruction.perform, reads_completing]
    exact reads_returnFromCall r m
  | softwareInterrupt =>
    rw [Instruction.perform, reads_completing]
    exact reads_softwareInterrupt r m
  | returnFromInterrupt =>
    rw [Instruction.perform, reads_completing]
    exact reads_returnFromInterrupt r m
  | pullA =>
    simp only [Instruction.perform, reads_completing, reads_bind, reads_idle, outcome_idle,
      reads_pull, reads_update]
    rfl
  | pullStatus =>
    simp only [Instruction.perform, Processor.pullStatus, reads_completing, reads_bind, reads_idle,
      outcome_idle, reads_pull, reads_update]
    rfl
  | _ => rfl

theorem reads_dispatch {i : Instruction} (h : decode (m.read r.pc) = some i) :
    dispatch.reads r m =
      addressesFrom r.pc (1 + i.mode.operandLength + i.padding) ++ i.lookups r m := by
  have hlength : 1 + i.mode.operandLength + i.padding = i.mode.operandLength + i.padding + 1 := by
    omega
  rw [dispatch, reads_bind, reads_fetch, outcome_fetch]
  simp only [h]
  rw [reads_bind, reads_perform, reads_pure, List.append_nil, hlength]
  rfl

end Mos6502
