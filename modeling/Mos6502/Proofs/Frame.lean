import Mos6502.Proofs.LiveStack

namespace Mos6502

theorem high_toUInt16 (b : UInt8) : high b.toUInt16 = 0 := by
  have h := b.toNat_lt
  apply UInt8.toNat_inj.mp
  rw [toNat_high, UInt8.toNat_toUInt16]
  exact Nat.div_eq_of_lt h

namespace Registers

theorem get_load_self (r : Registers) (reg : Register) (v : UInt8) : (r.load reg v).get reg = v := by
  cases reg <;> rfl

theorem get_load_of_ne (r : Registers) {reg reg' : Register} (v : UInt8) (h : reg' ≠ reg) :
    (r.load reg v).get reg' = r.get reg' := by
  have hget : (r.load reg v).get reg' = (r.set reg v).get reg' := by cases reg' <;> rfl
  rw [hget, r.get_set_of_ne v h]

end Registers

/-- The register or the cell that takes a result of which zero and negative tell. -/
inductive Destination where
  | register (which : Register)
  | cell (address : UInt16)

def Destination.value (r : Registers) (m : Memory) : Destination → UInt8
  | register which => r.get which
  | cell a => m.read a

def ReadOp.destination : ReadOp → Option Register
  | load reg => some reg
  | and | or | xor | add | subtract => some .a
  | compare _ | test => none

def Transfer.destination : Transfer → Option Register
  | aToX | spToX => some .x
  | aToY => some .y
  | xToA | yToA => some .a
  | xToSp => none

/-- What a change makes of a number from 0 to 255. -/
def ModifyOp.value (carry n : Nat) : ModifyOp → Nat
  | shiftLeft => 2 * n % 256
  | shiftRight => n / 2
  | rotateLeft => (2 * n + carry) % 256
  | rotateRight => n / 2 + 128 * carry
  | increment => (n + 1) % 256
  | decrement => (n + 255) % 256

theorem ModifyOp.toNat_result (op : ModifyOp) (s : Status) (b : UInt8) :
    (op.result s b).toNat = op.value s.carry.toNat b.toNat := by
  -- no flag but the carry counts, so that two tables of bytes tell all
  have hcarry : op.result s b = op.result { carry := s.carry } b := by cases op <;> rfl
  have hall : ∀ b c, (op.result { carry := c } b).toNat = op.value c.toNat b.toNat := by
    cases op <;> exact forall_byte (by decide +kernel)
  rw [hcarry]
  exact hall b s.carry

namespace Instruction

def destination (r : Registers) (m : Memory) : Instruction → Option Destination
  | read op _ => op.destination.map .register
  | modify _ .accumulator | pullA => some (.register .a)
  | modify _ (.cell l) => some (.cell (l.effective r m))
  | incrementIndex i | decrementIndex i => some (.register i.register)
  | transfer t => t.destination.map .register
  | _ => none

/-- The cells that an instruction pulls from, the one just above the stack pointer last. -/
def pulledCells (r : Registers) (i : Instruction) : List UInt16 :=
  (List.range i.pulls).reverse.map fun j => stackCell (r.sp + UInt8.ofNat (j + 1))

def pushedCells (r : Registers) (i : Instruction) : List UInt16 :=
  (List.range (i.pushes r).length).map fun j => stackCell (r.sp - UInt8.ofNat j)

/-- All that an instruction does to memory, the data registers and the stack pointer, told from
the registers and the memory before and after it. -/
structure Frame (i : Instruction) (r r' : Registers) (m m' : Memory) : Prop where
  stored : ∀ reg l, i = .store reg l → m'.read (l.effective r m) = r.get reg
  modified : ∀ op l, i = .modify op (.cell l) → (m'.read (l.effective r m)).toNat =
    op.value r.status.carry.toNat (m.read (l.effective r m)).toNat
  pushed : ∀ j (h : j < (i.pushes r).length),
    m'.read (stackCell (r.sp - UInt8.ofNat j)) = (i.pushes r)[j]
  kept : ∀ a, i.touched r m ≠ some a → a ∉ i.pushedCells r → m'.read a = m.read a
  pulled : i.Takes r r' ((i.pulledCells r).map m.read)
  data : ∀ reg, i.destination r m ≠ some (.register reg) → r'.get reg = r.get reg
  shifts : ∀ op, i = .modify op .accumulator → op ≠ .increment ∧ op ≠ .decrement
  moved : i ≠ .transfer .xToSp →
    r'.sp = r.sp + UInt8.ofNat i.pulls - UInt8.ofNat (i.pushes r).length
  copied : i = .transfer .xToSp → r'.sp = r.x
  pageOne : ∀ a ∈ i.pushedCells r ++ i.pulledCells r, high a = 1
  pageZero : i.mode ∈ [.zeroPage, .zeroPageX, .zeroPageY] →
    ∀ a, i.touched r m = some a → high a = 0

variable (r : Registers) (m : Memory)

theorem mem_pushedCells {i : Instruction} {a : UInt16} :
    a ∈ i.pushedCells r ↔ ∃ j < (i.pushes r).length, stackCell (r.sp - UInt8.ofNat j) = a := by
  simp [pushedCells]

theorem high_pushedCells (i : Instruction) : ∀ a ∈ i.pushedCells r ++ i.pulledCells r, high a = 1 := by
  intro a ha
  rcases List.mem_append.mp ha with hpush | hpull
  · obtain ⟨j, -, rfl⟩ := List.mem_map.mp hpush
    exact high_stackCell _
  · obtain ⟨j, -, rfl⟩ := List.mem_map.mp hpull
    exact high_stackCell _

theorem length_pushes_le (i : Instruction) : (i.pushes r).length ≤ 256 := by
  cases i <;> simp [pushes]

/-- No opcode counts in the accumulator. -/
theorem accumulator_shifts {opcode : UInt8} {op : ModifyOp}
    (h : decode opcode = some (.modify op .accumulator)) : op ≠ .increment ∧ op ≠ .decrement := by
  let p : Instruction → Bool
    | .modify op .accumulator => op ≠ .increment && op ≠ .decrement
    | _ => true
  have hall : ∀ n < 256, (decode (UInt8.ofNat n)).all p = true := by decide +kernel
  have hp := decode_all hall h
  simpa only [p, Bool.and_eq_true, decide_eq_true_eq] using hp

theorem effective_zeroPage {l : Location}
    (h : l.mode ∈ [.zeroPage, .zeroPageX, .zeroPageY]) : high (l.effective r m) = 0 := by
  cases l with
  | zeroPage => exact high_toUInt16 _
  | zeroPageIndexed i => exact high_toUInt16 _
  | absoluteIndexed i => cases i <;> simp [Location.mode] at h
  | _ => simp [Location.mode] at h

theorem touched_zeroPage {i : Instruction} (h : i.mode ∈ [.zeroPage, .zeroPageX, .zeroPageY])
    {a : UInt16} (ha : i.touched r m = some a) : high a = 0 := by
  cases i with
  | store reg l =>
    cases ha
    exact effective_zeroPage r m h
  | modify op target =>
    cases target with
    | accumulator => cases ha
    | cell l =>
      cases ha
      exact effective_zeroPage r m h
  | _ => cases ha

theorem get_apply_of_ne (op : ReadOp) (b : UInt8) {reg : Register} (h : op.destination ≠ some reg) :
    (op.apply r b).get reg = r.get reg := by
  cases op with
  | load reg' => exact r.get_load_of_ne b fun he => h (congrArg some he.symm)
  | compare reg' => cases reg <;> rfl
  | test => cases reg <;> rfl
  | _ =>
    cases reg with
    | a => exact absurd rfl h
    | _ => rfl

theorem get_transfer_of_ne (t : Transfer) {reg : Register} (h : t.destination ≠ some reg) :
    (t.apply r).get reg = r.get reg := by
  cases t with
  | xToSp => cases reg <;> rfl
  | _ => exact r.get_load_of_ne _ fun he => h (congrArg some he.symm)

theorem get_after (i : Instruction) (reg : Register) :
    (i.after r m).get reg = (i.registers r m).get reg := by
  cases reg <;> rfl

/-- The data registers that take no result keep their bytes. -/
theorem get_after_of_ne {i : Instruction} {reg : Register}
    (h : i.destination r m ≠ some (.register reg)) : (i.after r m).get reg = r.get reg := by
  have hne {reg' : Register} (hd : i.destination r m = some (.register reg')) : reg ≠ reg' := by
    rintro rfl
    exact h hd
  rw [i.get_after]
  cases i with
  | read op source =>
    exact get_apply_of_ne r op _ fun hd => h (congrArg (Option.map Destination.register) hd)
  | modify op target =>
    cases target with
    | accumulator =>
      cases reg with
      | a => exact absurd rfl h
      | _ => rfl
    | cell l => cases reg <;> rfl
  | incrementIndex i => exact r.get_load_of_ne _ (hne rfl)
  | decrementIndex i => exact r.get_load_of_ne _ (hne rfl)
  | transfer t =>
    exact get_transfer_of_ne r t fun hd => h (congrArg (Option.map Destination.register) hd)
  | pullA =>
    cases reg with
    | a => exact absurd rfl h
    | _ => rfl
  | _ => cases reg <;> rfl

/-- No instruction both pulls and pushes, so that pushes start at the stack pointer itself. -/
theorem writeCells_pushAll {i : Instruction} (h : i.touched r m = none) :
    m.writeCells (i.writes r m) = m.pushAll r.sp (i.pushes r) := by
  have hsp : r.sp + 0 = r.sp := UInt8.add_zero r.sp
  rw [i.writeCells_pushes r m h]
  cases i with
  | pushA | pushStatus | call | softwareInterrupt =>
    change m.pushAll (r.sp + 0) _ = _
    rw [hsp]
  | _ => rfl

theorem read_pushed {i : Instruction} {j : Nat} (hj : j < (i.pushes r).length) :
    (m.writeCells (i.writes r m)).read (stackCell (r.sp - UInt8.ofNat j)) = (i.pushes r)[j] := by
  cases ht : i.touched r m with
  | some a =>
    obtain ⟨-, -, hpushes⟩ := i.touched_some r m ht
    rw [hpushes] at hj
    exact absurd hj (Nat.not_lt_zero j)
  | none =>
    have hroom : ([] : List UInt8).length + (i.pushes r).length ≤ 256 := by
      rw [List.length_nil, Nat.zero_add]
      exact i.length_pushes_le r
    have hholds := (StackHolds.empty r.sp m).pushAll hroom
    rw [writeCells_pushAll r m ht]
    exact hholds.cell j hj

theorem read_kept {i : Instruction} {a : UInt16} (ht : i.touched r m ≠ some a)
    (hp : a ∉ i.pushedCells r) : (m.writeCells (i.writes r m)).read a = m.read a := by
  cases h : i.touched r m with
  | some b =>
    obtain ⟨⟨v, hw⟩, -, -⟩ := i.touched_some r m h
    have hne : b ≠ a := by
      rintro rfl
      exact ht h
    rw [hw]
    exact m.read_write_of_ne v hne
  | none =>
    rw [writeCells_pushAll r m h]
    apply Memory.read_pushAll_of_ne
    intro j hj he
    exact hp ((mem_pushedCells r).mpr ⟨j, hj, he.symm⟩)

theorem read_modified (op : ModifyOp) (l : Location) :
    (m.writeCells (writes r m (.modify op (.cell l)))).read (l.effective r m) =
      op.result r.status (m.read (l.effective r m)) :=
  m.read_write_self _ _

theorem takes_pulled (i : Instruction) :
    i.Takes r (i.after r m) ((i.pulledCells r).map m.read) := by
  cases i with
  | pullStatus => exact ⟨_, rfl, r.status.pulls_pull _⟩
  | returnFromCall => exact ⟨_, _, rfl, rfl⟩
  | returnFromInterrupt => exact ⟨_, _, _, rfl, r.status.pulls_pull _, rfl⟩
  | _ => rfl

theorem frame_after {opcode : UInt8} {i : Instruction} (h : decode opcode = some i) :
    i.Frame r (i.after r m) m (m.writeCells (i.writes r m)) where
  stored := by
    rintro reg l rfl
    exact m.read_write_self _ _
  modified := by
    rintro op l rfl
    rw [read_modified]
    exact op.toNat_result _ _
  pushed := fun j hj => read_pushed r m hj
  kept := fun a ht hp => read_kept r m ht hp
  pulled := takes_pulled r m i
  data := fun reg hd => get_after_of_ne r m hd
  shifts := by
    rintro op rfl
    exact accumulator_shifts h
  moved := i.after_sp r m
  copied := by
    rintro rfl
    rfl
  pageOne := i.high_pushedCells r
  pageZero := fun hm a ha => touched_zeroPage r m hm ha

end Instruction

namespace Machine

/-- A step that succeeds changes no more than its instruction says: the cells that it writes with
their values, one data register at most, and the stack pointer by as many bytes as it pushes and
pulls, always within page one. -/
theorem step_frame (m : Machine) (used : UInt32) (h : m.step.1 = .ok used) :
    ∃ i, m.instruction = some i ∧
      i.Frame m.cpu.toRegisters m.step.2.cpu.toRegisters m.memory m.step.2.memory := by
  obtain ⟨i, hp⟩ := performs_of_ok h
  refine ⟨i, hp.current, ?_⟩
  rw [hp.step_eq]
  exact Instruction.frame_after _ _ hp.current

theorem step_frame_wrapped :
    let m : Machine := { cpu := { pc := 0xFFFF, sp := 1, x := 9 } }
    m.step.1 = .ok 7 ∧ m.step.2.memory.read 0x0101 = 0x00 ∧ m.step.2.memory.read 0x0100 = 0x01 ∧
      m.step.2.memory.read 0x01FF = 0x30 ∧ m.step.2.cpu.sp = 0xFE ∧ m.step.2.cpu.get .x = 9 := by
  intro m
  have hi : m.instruction = some .softwareInterrupt := congrArg decode (Memory.read_zero _)
  have hp : m.Performs .softwareInterrupt := ⟨rfl, hi, rfl⟩
  have hok : m.step.1 = .ok 7 := by
    rw [hp.step_eq]
    rfl
  obtain ⟨i, hcurrent, hframe⟩ := m.step_frame 7 hok
  obtain rfl : i = .softwareInterrupt := Option.some.inj (hcurrent.symm.trans hi)
  have hcells : stackCell (m.cpu.sp - UInt8.ofNat 0) = 0x0101 ∧
      stackCell (m.cpu.sp - UInt8.ofNat 1) = 0x0100 ∧
      stackCell (m.cpu.sp - UInt8.ofNat 2) = 0x01FF := by decide
  have hpushes : Instruction.softwareInterrupt.pushes m.cpu.toRegisters = [0x00, 0x01, 0x30] := by
    decide
  have hhigh := hframe.pushed 0 (by decide)
  have hlow := hframe.pushed 1 (by decide)
  have hstatus := hframe.pushed 2 (by decide)
  simp only [hcells, hpushes] at hhigh hlow hstatus
  exact ⟨hok, hhigh, hlow, hstatus, hframe.moved nofun, hframe.data .x nofun⟩

end Machine

end Mos6502
