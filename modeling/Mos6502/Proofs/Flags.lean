import Mos6502.Proofs.Frame

namespace Mos6502

theorem bit_seven (b : UInt8) : bit b 7 = decide (128 ≤ b.toNat) := by
  have h := b.toNat_lt
  rw [bit, Nat.testBit_eq_decide_div_mod_eq, decide_eq_decide]
  omega

/-- A byte as a number from -128 to 127. -/
def signed (b : UInt8) : Int := b.toInt8.toInt

theorem signed_eq (b : UInt8) :
    signed b = if 128 ≤ b.toNat then (b.toNat : Int) - 256 else b.toNat := by
  have hcond : signed b = if 2 * b.toNat < 256 then (b.toNat : Int) else b.toNat - 256 :=
    BitVec.toInt_eq_toNat_cond b.toBitVec
  rw [hcond]
  split_ifs <;> omega

theorem signed_not (b : UInt8) : signed (~~~b) = -1 - signed b := by
  have h := b.toNat_lt
  have hnot : (~~~b).toNat = 255 - b.toNat := UInt8.toNat_not b
  rw [signed_eq, signed_eq, hnot]
  split_ifs <;> omega

/-- The sum of two signed bytes and a carry is a signed byte. -/
def SumFits (a b : UInt8) (carry : Bool) : Prop :=
  -128 ≤ signed a + signed b + carry.toNat ∧ signed a + signed b + carry.toNat ≤ 127

/-- The difference of two signed bytes, less one without a carry, is a signed byte. -/
def DifferenceFits (a b : UInt8) (carry : Bool) : Prop :=
  -128 ≤ signed a - signed b - (!carry).toNat ∧ signed a - signed b - (!carry).toNat ≤ 127

namespace Registers

theorem status_load (r : Registers) (reg : Register) (v : UInt8) :
    (r.load reg v).status = r.status.noting v := by
  cases reg <;> rfl

variable (r : Registers) (b : UInt8)

/-- The accumulator and the carry out of it are the sum of what was added and the carry into it. -/
theorem value_addWithCarry :
    (r.addWithCarry b).a.toNat + 256 * (r.addWithCarry b).status.carry.toNat =
      r.a.toNat + b.toNat + r.status.carry.toNat := by
  have ha := r.a.toNat_lt
  have hb := b.toNat_lt
  have hc := Bool.toNat_le r.status.carry
  let sum := r.a.toNat + b.toNat + r.status.carry.toNat
  have hresult : (UInt8.ofNat sum).toNat = sum % 256 := UInt8.toNat_ofNat'
  change (UInt8.ofNat sum).toNat + 256 * (decide (255 < sum)).toNat = sum
  rw [hresult]
  by_cases hsum : 255 < sum
  · rw [decide_eq_true hsum, Bool.toNat_true]
    omega
  · rw [decide_eq_false hsum, Bool.toNat_false]
    omega

theorem overflow_addWithCarry :
    (r.addWithCarry b).status.overflow = true ↔ ¬ SumFits r.a b r.status.carry := by
  have ha := r.a.toNat_lt
  have hb := b.toNat_lt
  have hc := Bool.toNat_le r.status.carry
  let sum := r.a.toNat + b.toNat + r.status.carry.toNat
  have hresult : (UInt8.ofNat sum).toNat = sum % 256 := UInt8.toNat_ofNat'
  change (bit r.a 7 == bit b 7 && bit r.a 7 != bit (UInt8.ofNat sum) 7) = true ↔ _
  simp only [Bool.and_eq_true, beq_iff_eq, bne_iff_ne, ne_eq, bit_seven, decide_eq_decide, hresult,
    SumFits, signed_eq]
  split_ifs <;> omega

/-- A difference takes one more away when the carry is clear. -/
theorem toNat_borrow (carry : Bool) : (!carry).toNat + carry.toNat = 1 := by
  cases carry <;> rfl

/-- A difference borrows when what is taken away is the larger. -/
theorem carry_subtractWithBorrow :
    (r.subtractWithBorrow b).status.carry = true ↔ b.toNat + (!r.status.carry).toNat ≤ r.a.toNat := by
  have hb := b.toNat_lt
  have hnot : (~~~b).toNat = 255 - b.toNat := UInt8.toNat_not b
  have hborrow := toNat_borrow r.status.carry
  change decide (255 < r.a.toNat + (~~~b).toNat + r.status.carry.toNat) = true ↔ _
  rw [decide_eq_true_iff, hnot]
  omega

theorem overflow_subtractWithBorrow :
    (r.subtractWithBorrow b).status.overflow = true ↔ ¬ DifferenceFits r.a b r.status.carry := by
  have hborrow := toNat_borrow r.status.carry
  rw [subtractWithBorrow, overflow_addWithCarry, SumFits, DifferenceFits, signed_not]
  omega

end Registers

/-- The flags in a list as they are in `t`, the others as they are in `s`. -/
def Status.updated (s t : Status) (fs : List Flag) : Status :=
  fs.foldl (fun u f => u.set f (t.get f)) s

theorem Status.get_updated (s t : Status) {fs : List Flag} {f : Flag} (h : f ∉ fs) :
    (s.updated t fs).get f = s.get f := by
  induction fs generalizing s with
  | nil => rfl
  | cons g gs ih =>
    have hg : f ≠ g := List.ne_of_not_mem_cons h
    have hgs : f ∉ gs := List.not_mem_of_not_mem_cons h
    exact (ih (s.set g (t.get g)) hgs).trans (get_set_of_ne s g f _ hg)

def ReadOp.affects : ReadOp → List Flag
  | load _ | and | or | xor => [.zero, .negative]
  | compare _ => [.carry, .zero, .negative]
  | test => [.zero, .overflow, .negative]
  | add | subtract => [.carry, .zero, .overflow, .negative]

/-- The place of the bit that a shift moves into the carry. -/
def ModifyOp.shiftedOut : ModifyOp → Option Nat
  | shiftLeft | rotateLeft => some 7
  | shiftRight | rotateRight => some 0
  | increment | decrement => none

def ModifyOp.affects : ModifyOp → List Flag
  | shiftLeft | rotateLeft | shiftRight | rotateRight => [.carry, .zero, .negative]
  | increment | decrement => [.zero, .negative]

/-- Zero and negative tell of a byte. -/
def Status.Tells (s : Status) (b : UInt8) : Prop := s.zero = (b == 0) ∧ s.negative = bit b 7

namespace Instruction

/-- The flags that an instruction may change. -/
def affects : Instruction → List Flag
  | read op _ => op.affects
  | modify op _ => op.affects
  | incrementIndex _ | decrementIndex _ | pullA => [.zero, .negative]
  | transfer .xToSp => []
  | transfer _ => [.zero, .negative]
  | changeFlag c => [c.flag]
  | softwareInterrupt => [.interruptDisable]
  | pullStatus | returnFromInterrupt => Flag.pulled
  | store _ _ | branch _ | jump | jumpIndirect | call | returnFromCall | pushA | pushStatus
  | noOperation => []

/-- All that an instruction does to the flags, told from the registers and the memory before and
after it. -/
structure Flags (i : Instruction) (r r' : Registers) (m m' : Memory) : Prop where
  kept : ∀ f, f ∉ i.affects → r'.status.get f = r.status.get f
  result : ∀ d, i.destination r m = some d → r'.status.Tells (d.value r' m')
  shifted : ∀ op target d place, i = .modify op target → i.destination r m = some d →
    op.shiftedOut = some place → r'.status.carry = bit (d.value r m) place
  tested : ∀ s, i = .read .test s →
    r'.status.zero = (r.a &&& s.operand r m == 0) ∧
      r'.status.negative = bit (s.operand r m) 7 ∧ r'.status.overflow = bit (s.operand r m) 6
  compared : ∀ reg s, i = .read (.compare reg) s →
    r'.status.carry = decide (s.operand r m ≤ r.get reg) ∧
      r'.status.zero = (r.get reg == s.operand r m) ∧
      r'.status.negative = bit (r.get reg - s.operand r m) 7
  added : ∀ s, i = .read .add s →
    (r'.status.carry = true ↔
      255 < r.a.toNat + (s.operand r m).toNat + r.status.carry.toNat) ∧
    (r'.status.overflow = true ↔ ¬ SumFits r.a (s.operand r m) r.status.carry)
  subtracted : ∀ s, i = .read .subtract s →
    (r'.status.carry = true ↔
      (s.operand r m).toNat + (!r.status.carry).toNat ≤ r.a.toNat) ∧
    (r'.status.overflow = true ↔ ¬ DifferenceFits r.a (s.operand r m) r.status.carry)
  assigned : ∀ c, i = .changeFlag c → r'.status.get c.flag = c.value
  disabled : i = .softwareInterrupt → r'.status.interruptDisable = true
  pulled : i = .pullStatus ∨ i = .returnFromInterrupt → ∀ f ∈ Flag.pulled,
    r'.status.get f = bit (m.read (stackCell (r.sp + 1))) f.place

variable (r : Registers) (m : Memory)

theorem status_apply (op : ReadOp) (b : UInt8) :
    (op.apply r b).status = r.status.updated (op.apply r b).status op.affects := by
  cases op with
  | load reg => cases reg <;> rfl
  | _ => rfl

theorem status_transfer (t : Transfer) :
    (t.apply r).status = r.status.updated (t.apply r).status (affects (.transfer t)) := by
  cases t <;> rfl

/-- Out of the flags that an instruction may change none changes. -/
theorem status_after (i : Instruction) :
    (i.after r m).status = r.status.updated (i.after r m).status i.affects := by
  cases i with
  | read op source => exact status_apply r op _
  | modify op target => cases target <;> cases op <;> rfl
  | incrementIndex i => cases i <;> rfl
  | decrementIndex i => cases i <;> rfl
  | transfer t => exact status_transfer r t
  | changeFlag c => cases c <;> rfl
  | _ => rfl

theorem tells_load (reg : Register) (v : UInt8) :
    (r.load reg v).status.Tells ((r.load reg v).get reg) := by
  rw [r.status_load, r.get_load_self]
  exact ⟨rfl, rfl⟩

theorem tells_apply {op : ReadOp} {reg : Register} (h : op.destination = some reg) (b : UInt8) :
    (op.apply r b).status.Tells ((op.apply r b).get reg) := by
  cases op with
  | load reg' =>
    cases h
    exact tells_load r reg b
  | compare reg' => cases h
  | test => cases h
  | _ =>
    cases h
    exact tells_load _ .a _

theorem tells_transfer {t : Transfer} {reg : Register} (h : t.destination = some reg) :
    (t.apply r).status.Tells ((t.apply r).get reg) := by
  cases t with
  | xToSp => cases h
  | _ =>
    cases h
    exact tells_load r _ _

theorem tells_result {i : Instruction} {d : Destination} (h : i.destination r m = some d) :
    (i.after r m).status.Tells (d.value (i.after r m) (m.writeCells (i.writes r m))) := by
  have hregister {reg : Register}
      (ht : (i.registers r m).status.Tells ((i.registers r m).get reg)) :
      (i.after r m).status.Tells ((i.after r m).get reg) := by
    rw [i.get_after]
    exact ht
  cases i with
  | read op source =>
    obtain ⟨reg, hd, rfl⟩ := Option.map_eq_some_iff.mp h
    exact hregister (tells_apply r hd _)
  | modify op target =>
    cases target with
    | accumulator =>
      cases h
      exact ⟨rfl, rfl⟩
    | cell l =>
      cases h
      rw [Destination.value, read_modified]
      exact ⟨rfl, rfl⟩
  | incrementIndex i =>
    cases h
    exact hregister (tells_load r _ _)
  | decrementIndex i =>
    cases h
    exact hregister (tells_load r _ _)
  | transfer t =>
    obtain ⟨reg, hd, rfl⟩ := Option.map_eq_some_iff.mp h
    exact hregister (tells_transfer r hd)
  | pullA =>
    cases h
    exact hregister (tells_load _ .a _)
  | _ => cases h

theorem carry_modify {op : ModifyOp} {target : Target} {d : Destination} {place : Nat}
    (hd : Instruction.destination r m (.modify op target) = some d)
    (hp : op.shiftedOut = some place) :
    (Instruction.after r m (.modify op target)).status.carry = bit (d.value r m) place := by
  cases target with
  | accumulator =>
    cases hd
    cases op <;> cases hp <;> rfl
  | cell l =>
    cases hd
    cases op <;> cases hp <;> rfl

/-- A difference is zero for equal bytes only. -/
theorem zero_compare (reg : Register) (b : UInt8) :
    (r.compare reg b).status.zero = (r.get reg == b) := by
  change (r.get reg - b == 0) = (r.get reg == b)
  rw [Bool.eq_iff_iff, beq_iff_eq, beq_iff_eq, UInt8.sub_eq_iff_eq_add, UInt8.zero_add]

theorem flags_after (i : Instruction) :
    i.Flags r (i.after r m) m (m.writeCells (i.writes r m)) where
  kept := by
    intro f hf
    rw [status_after]
    exact r.status.get_updated _ hf
  result := fun d hd => tells_result r m hd
  shifted := by
    rintro op target d place rfl hd hp
    exact carry_modify r m hd hp
  tested := by
    rintro s rfl
    exact ⟨rfl, rfl, rfl⟩
  compared := by
    rintro reg s rfl
    exact ⟨rfl, zero_compare r reg _, rfl⟩
  added := by
    rintro s rfl
    exact ⟨decide_eq_true_iff, r.overflow_addWithCarry _⟩
  subtracted := by
    rintro s rfl
    exact ⟨r.carry_subtractWithBorrow _, r.overflow_subtractWithBorrow _⟩
  assigned := by
    rintro c rfl
    exact r.status.get_set_self _ _ (by cases c <;> nofun)
  disabled := by
    rintro rfl
    rfl
  pulled := by
    rintro (rfl | rfl) f hf
    · exact (r.status.pulls_pull _).told f hf
    · exact (r.status.pulls_pull _).told f hf

end Instruction

namespace Machine

end Machine

end Mos6502
