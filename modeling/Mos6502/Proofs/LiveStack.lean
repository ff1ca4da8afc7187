import Mathlib.Data.List.Basic
import Mos6502.Proofs.Step

namespace Mos6502

theorem Status.pushed_eq (s : Status) : s.pushed = s.toByte ||| 0x30 := by
  obtain ⟨c, z, i, d, b, v, n⟩ := s
  revert c z i d b v n
  decide

/-- The flags of which the status byte on the stack tells. -/
def Flag.pulled : List Flag := [carry, zero, interruptDisable, decimal, overflow, negative]

theorem Flag.mem_pulled {f : Flag} : f ∈ pulled ↔ f ≠ .breakCommand ∧ f ≠ .unused := by
  cases f <;> decide

/-- The flags in `t` are what a byte from the stack makes of those in `s`: the flags of which it
tells are its bits, and break is as it was. -/
structure Status.Pulls (s : Status) (b : UInt8) (t : Status) : Prop where
  told : ∀ f ∈ Flag.pulled, t.get f = bit b f.place
  kept : t.breakCommand = s.breakCommand

theorem Status.pulls_pull (s : Status) (b : UInt8) : s.Pulls b (s.pull b) where
  told := by
    intro f hf
    cases f with
    | breakCommand => exact absurd rfl (Flag.mem_pulled.mp hf).1
    | unused => exact absurd rfl (Flag.mem_pulled.mp hf).2
    | _ => rfl
  kept := rfl

theorem stackCell_inj {a b : UInt8} : stackCell a = stackCell b ↔ a = b := by
  rw [stackCell, stackCell, ← UInt16.toNat_inj, ← UInt8.toNat_inj]
  have ha := a.toNat_lt
  have hb := b.toNat_lt
  simp only [UInt16.toNat_add, UInt8.toNat_toUInt16, UInt16.toNat_ofNat]
  omega

/-- Page one has a cell of its own for each of 256 bytes below a base. -/
theorem slot_inj (base : UInt8) {i j : Nat} (hi : i < 256) (hj : j < 256) :
    stackCell (base - UInt8.ofNat i) = stackCell (base - UInt8.ofNat j) ↔ i = j := by
  rw [stackCell_inj]
  constructor
  · intro h
    have heq : UInt8.ofNat i = UInt8.ofNat j := (UInt8.sub_right_inj base).mp h
    have hn := congrArg UInt8.toNat heq
    rwa [UInt8.toNat_ofNat_of_lt' hi, UInt8.toNat_ofNat_of_lt' hj] at hn
  · rintro rfl
    rfl

def Memory.pushAll (m : Memory) (sp : UInt8) : List UInt8 → Memory
  | [] => m
  | b :: bs => (m.write (stackCell sp) b).pushAll (sp - 1) bs

theorem Memory.read_pushAll_of_ne (m : Memory) (sp : UInt8) (bs : List UInt8) (a : UInt16)
    (h : ∀ j < bs.length, a ≠ stackCell (sp - UInt8.ofNat j)) :
    (m.pushAll sp bs).read a = m.read a := by
  induction bs generalizing m sp with
  | nil => rfl
  | cons b bs ih =>
    have hfirst : stackCell sp ≠ a := by
      have h0 := h 0 (Nat.succ_pos _)
      change a ≠ stackCell (sp - 0) at h0
      rw [UInt8.sub_zero] at h0
      exact h0.symm
    have hrest : ∀ j < bs.length, a ≠ stackCell (sp - 1 - UInt8.ofNat j) := by
      intro j hj
      have hs := h (j + 1) (Nat.succ_lt_succ hj)
      have hsp : sp - UInt8.ofNat (j + 1) = sp - 1 - UInt8.ofNat j := by
        rw [Nat.add_comm]
        exact sub_ofNat_add sp 1 j
      rwa [hsp] at hs
    rw [pushAll, ih _ _ hrest, m.read_write_of_ne b hfirst]

/-- The bytes of a list, from the base of the stack down to its pointer. -/
structure StackHolds (base sp : UInt8) (m : Memory) (live : List UInt8) : Prop where
  pointer : sp = base - UInt8.ofNat live.length
  cell : ∀ j (h : j < live.length), m.read (stackCell (base - UInt8.ofNat j)) = live[j]

namespace StackHolds

variable {base sp : UInt8} {m : Memory} {live rest top : List UInt8}

theorem empty (base : UInt8) (m : Memory) : StackHolds base base m [] where
  pointer := (UInt8.sub_zero base).symm
  cell := fun j h => absurd h (Nat.not_lt_zero j)

theorem push (h : StackHolds base sp m live) (hl : live.length < 256) (b : UInt8) :
    StackHolds base (sp - 1) (m.write (stackCell sp) b) (live ++ [b]) := by
  constructor
  · rw [h.pointer, List.length_append, sub_ofNat_add]
    rfl
  · intro j hj
    rw [List.length_append, List.length_singleton] at hj
    by_cases he : j = live.length
    · subst j
      rw [← h.pointer, Memory.read_write_self, List.getElem_concat_length rfl]
    · have hlt : j < live.length := by omega
      have hne : stackCell sp ≠ stackCell (base - UInt8.ofNat j) := by
        rw [h.pointer, ne_eq, slot_inj base hl (by omega)]
        omega
      rw [m.read_write_of_ne b hne, h.cell j hlt, List.getElem_append_left hlt]

theorem pushAll {bs : List UInt8} (h : StackHolds base sp m live)
    (hl : live.length + bs.length ≤ 256) :
    StackHolds base (sp - UInt8.ofNat bs.length) (m.pushAll sp bs) (live ++ bs) := by
  induction bs generalizing sp m live with
  | nil =>
    rw [List.append_nil]
    change StackHolds base (sp - 0) m live
    rw [UInt8.sub_zero]
    exact h
  | cons b bs ih =>
    rw [List.length_cons] at hl
    have hpush := h.push (by omega) b
    have hrest := ih hpush (by rw [List.length_append, List.length_singleton]; omega)
    have hsp : sp - 1 - UInt8.ofNat bs.length = sp - UInt8.ofNat (bs.length + 1) := by
      rw [Nat.add_comm]
      exact (sub_ofNat_add sp 1 bs.length).symm
    rw [hsp, List.append_assoc] at hrest
    exact hrest

theorem pull (h : StackHolds base sp m (rest ++ top)) :
    StackHolds base (sp + UInt8.ofNat top.length) m rest := by
  constructor
  · rw [h.pointer, List.length_append, sub_ofNat_add, UInt8.sub_add_cancel]
  · intro j hj
    have hlt : j < (rest ++ top).length := by
      rw [List.length_append]
      omega
    rw [h.cell j hlt, List.getElem_append_left hj]

/-- A byte lies as far above the pointer as there are bytes on top of it. -/
theorem peek {b : UInt8} (h : StackHolds base sp m (rest ++ b :: top)) :
    m.read (stackCell (sp + UInt8.ofNat (top.length + 1))) = b := by
  have hrest := h.pull.pointer
  rw [List.length_cons] at hrest
  rw [hrest, h.cell rest.length (by simp)]
  simp

theorem write {a : UInt16} (h : StackHolds base sp m live)
    (ha : ∀ j < live.length, a ≠ stackCell (base - UInt8.ofNat j)) (b : UInt8) :
    StackHolds base sp (m.write a b) live := by
  refine ⟨h.pointer, ?_⟩
  intro j hj
  rw [m.read_write_of_ne b (ha j hj)]
  exact h.cell j hj

end StackHolds

namespace Instruction

/-- The bytes that an instruction appends to the stack. -/
def pushes (r : Registers) : Instruction → List UInt8
  | pushA => [r.a]
  | pushStatus => [r.status.toByte ||| 0x30]
  | call => [high (r.pc + 2), low (r.pc + 2)]
  | softwareInterrupt => [high (r.pc + 2), low (r.pc + 2), r.status.toByte ||| 0x30]
  | _ => []

def pulls : Instruction → Nat
  | pullA | pullStatus => 1
  | returnFromCall => 2
  | returnFromInterrupt => 3
  | _ => 0

/-- What becomes of a list of bytes, the last one on top. -/
def track (r : Registers) (live : List UInt8) (i : Instruction) : List UInt8 :=
  live.take (live.length - i.pulls) ++ i.pushes r

/-- The cell that an instruction writes without a push. -/
def touched (r : Registers) (m : Memory) : Instruction → Option UInt16
  | store _ l | modify _ (.cell l) => some (l.effective r m)
  | _ => none

/-- The instruction leaves the stack to pushes and pulls, and there are bytes and room for them. -/
structure Keeps (base : UInt8) (live : List UInt8) (r : Registers) (m : Memory)
    (i : Instruction) : Prop where
  pointer : i ≠ .transfer .xToSp
  enough : i.pulls ≤ live.length
  room : (i.track r live).length ≤ 256
  apart : ∀ a, i.touched r m = some a → ∀ j < live.length, a ≠ stackCell (base - UInt8.ofNat j)

/-- What an instruction makes of the bytes that it removes, the last one having been on top. -/
def Takes (before after : Registers) (removed : List UInt8) : Instruction → Prop
  | pullA => removed = [after.a]
  | pullStatus => ∃ p, removed = [p] ∧ before.status.Pulls p after.status
  | returnFromCall => ∃ hi lo, removed = [hi, lo] ∧ after.pc = word lo hi + 1
  | returnFromInterrupt => ∃ hi lo p, removed = [hi, lo, p] ∧
      before.status.Pulls p after.status ∧ after.pc = word lo hi
  | _ => removed = []

variable (r : Registers) (m : Memory)

theorem track_append (i : Instruction) {rest top : List UInt8} (h : top.length = i.pulls) :
    i.track r (rest ++ top) = rest ++ i.pushes r := by
  have hlen : (rest ++ top).length - i.pulls = rest.length := by
    rw [List.length_append]
    omega
  rw [track, hlen, List.take_left]

theorem after_sp (i : Instruction) (h : i ≠ .transfer .xToSp) :
    (i.after r m).sp = r.sp + UInt8.ofNat i.pulls - UInt8.ofNat (i.pushes r).length := by
  have hzero : r.sp = r.sp + 0 - 0 := by rw [UInt8.add_zero, UInt8.sub_zero]
  cases i with
  | read op source =>
    cases op with
    | load reg => cases reg <;> exact hzero
    | _ => exact hzero
  | modify op target => cases target <;> exact hzero
  | incrementIndex i => cases i <;> exact hzero
  | decrementIndex i => cases i <;> exact hzero
  | transfer t =>
    cases t with
    | xToSp => exact absurd rfl h
    | _ => exact hzero
  | call | softwareInterrupt | pushA | pushStatus =>
    change r.sp - _ = r.sp + 0 - _
    rw [UInt8.add_zero]
    rfl
  | returnFromCall | returnFromInterrupt | pullA | pullStatus =>
    change r.sp + _ = r.sp + _ - 0
    rw [UInt8.sub_zero]
    rfl
  | _ => exact hzero

theorem writeCells_pushes (i : Instruction) (h : i.touched r m = none) :
    m.writeCells (i.writes r m) = m.pushAll (r.sp + UInt8.ofNat i.pulls) (i.pushes r) := by
  have hzero : r.sp + 0 = r.sp := UInt8.add_zero r.sp
  cases i with
  | store reg l => cases h
  | modify op target =>
    cases target with
    | accumulator => rfl
    | cell l => cases h
  | pushA =>
    change m.writeCells [(stackCell r.sp, r.a)] = m.pushAll (r.sp + 0) [r.a]
    rw [hzero]
    rfl
  | pushStatus =>
    change m.writeCells [(stackCell r.sp, r.status.pushed)] = m.pushAll (r.sp + 0) _
    rw [hzero, Status.pushed_eq]
    rfl
  | call =>
    change _ = m.pushAll (r.sp + 0) _
    rw [hzero]
    rfl
  | softwareInterrupt =>
    change _ = m.pushAll (r.sp + 0) _
    have hsp : r.sp - 2 = r.sp - 1 - 1 := sub_ofNat_add r.sp 1 1
    rw [hzero, writes, Status.pushed_eq, hsp]
    rfl
  | _ => rfl

/-- Outside page one nothing changes but the cell that an instruction names. -/
theorem read_writeCells (i : Instruction) (h : i.touched r m = none) {a : UInt16}
    (ha : high a ≠ 1) : (m.writeCells (i.writes r m)).read a = m.read a := by
  rw [i.writeCells_pushes r m h]
  apply Memory.read_pushAll_of_ne
  intro j hj he
  rw [he] at ha
  exact ha (high_stackCell _)

theorem touched_some {i : Instruction} {a : UInt16} (h : i.touched r m = some a) :
    (∃ b, i.writes r m = [(a, b)]) ∧ i.pulls = 0 ∧ i.pushes r = [] := by
  cases i with
  | store reg l =>
    cases h
    exact ⟨⟨_, rfl⟩, rfl, rfl⟩
  | modify op target =>
    cases target with
    | accumulator => cases h
    | cell l =>
      cases h
      exact ⟨⟨_, rfl⟩, rfl, rfl⟩
  | _ => cases h

end Instruction

namespace StackHolds

variable {base : UInt8} {r : Registers} {m : Memory} {rest top : List UInt8} {i : Instruction}

theorem after (h : StackHolds base r.sp m (rest ++ top)) (hl : top.length = i.pulls)
    (hk : i.Keeps base (rest ++ top) r m) :
    StackHolds base (i.after r m).sp (m.writeCells (i.writes r m)) (i.track r (rest ++ top)) := by
  have hroom := hk.room
  rw [i.after_sp r m hk.pointer]
  rw [i.track_append r hl] at hroom ⊢
  rw [List.length_append] at hroom
  cases ht : i.touched r m with
  | none =>
    have hpull := h.pull
    rw [hl] at hpull
    -- the removed bytes make way first, so the appended ones start at the end of `rest`
    rw [i.writeCells_pushes r m ht]
    exact hpull.pushAll hroom
  | some a =>
    -- what writes a cell of its own neither removes nor appends
    obtain ⟨⟨b, hw⟩, hpulls, hpushes⟩ := i.touched_some r m ht
    have htop : top = [] := List.length_eq_zero_iff.mp (hl.trans hpulls)
    have hsp : r.sp + 0 - 0 = r.sp := by rw [UInt8.add_zero, UInt8.sub_zero]
    subst htop
    rw [hw, hpulls, hpushes]
    change StackHolds base (r.sp + 0 - 0) (m.write a b) (rest ++ [])
    rw [hsp]
    exact h.write (hk.apart a ht) b

/-- The bytes that an instruction removes are the ones on top of the list. -/
theorem takes (h : StackHolds base r.sp m (rest ++ top)) (hl : top.length = i.pulls) :
    i.Takes r (i.after r m) top := by
  cases i with
  | pullA =>
    obtain ⟨b, rfl⟩ := List.length_eq_one_iff.mp hl
    have hb : m.read (stackCell (r.sp + 1)) = b := h.peek
    exact congrArg (fun b => [b]) hb.symm
  | pullStatus =>
    obtain ⟨p, rfl⟩ := List.length_eq_one_iff.mp hl
    have hp : m.read (stackCell (r.sp + 1)) = p := h.peek
    refine ⟨p, rfl, ?_⟩
    rw [← hp]
    exact r.status.pulls_pull _
  | returnFromCall =>
    obtain ⟨hi, lo, rfl⟩ := List.length_eq_two.mp hl
    have hhi : m.read (stackCell (r.sp + 2)) = hi := h.peek
    rw [List.append_cons] at h
    have hlo : m.read (stackCell (r.sp + 1)) = lo := h.peek
    refine ⟨hi, lo, rfl, ?_⟩
    rw [← hhi, ← hlo]
    rfl
  | returnFromInterrupt =>
    obtain ⟨hi, lo, p, rfl⟩ := List.length_eq_three.mp hl
    have hhi : m.read (stackCell (r.sp + 3)) = hi := h.peek
    rw [List.append_cons] at h
    have hlo : m.read (stackCell (r.sp + 2)) = lo := h.peek
    rw [List.append_cons] at h
    have hp : m.read (stackCell (r.sp + 1)) = p := h.peek
    refine ⟨hi, lo, p, rfl, ?_, ?_⟩
    · rw [← hp]
      exact r.status.pulls_pull _
    · rw [← hhi, ← hlo]
      rfl
  | _ => exact List.length_eq_zero_iff.mp hl

end StackHolds

namespace Machine

theorem Performs.read_step {m : Machine} {i : Instruction} (h : m.Performs i)
    (ht : i.touched m.cpu.toRegisters m.memory = none) {a : UInt16} (ha : high a ≠ 1) :
    m.step.2.memory.read a = m.memory.read a := by
  rw [h.step_eq]
  exact i.read_writeCells _ _ ht ha

/-- The bytes on the stack after `k` single steps, as told by the instructions that ran. -/
def live (m : Machine) : Nat → List UInt8
  | 0 => []
  | k + 1 =>
    match (m.after k).instruction with
    | some i => i.track (m.after k).cpu.toRegisters (m.live k)
    | none => m.live k

/-- The first `n` single steps leave the stack to pushes and pulls. -/
def KeepsStack (m : Machine) (n : Nat) : Prop :=
  ∀ k < n, ∀ i, (m.after k).instruction = some i →
    i.Keeps m.cpu.sp (m.live k) (m.after k).cpu.toRegisters (m.after k).memory

theorem live_succ {m : Machine} {k : Nat} {i : Instruction}
    (h : (m.after k).instruction = some i) :
    m.live (k + 1) = i.track (m.after k).cpu.toRegisters (m.live k) := by
  rw [live, h]

theorem exists_removed {live : List UInt8} {i : Instruction} (h : i.pulls ≤ live.length) :
    ∃ rest removed, live = rest ++ removed ∧ removed.length = i.pulls := by
  refine ⟨live.take (live.length - i.pulls), live.drop (live.length - i.pulls), ?_, ?_⟩
  · exact (List.take_append_drop _ live).symm
  · rw [List.length_drop]
    omega

theorem stackHolds_after {m : Machine} {n : Nat} (hr : m.Runs n) (hk : m.KeepsStack n) :
    ∀ k ≤ n, StackHolds m.cpu.sp (m.after k).cpu.sp (m.after k).memory (m.live k) := by
  intro k
  induction k with
  | zero =>
    intro hn
    exact .empty m.cpu.sp m.memory
  | succ k ih =>
    intro hn
    have hlt : k < n := hn
    obtain ⟨i, hp⟩ := hr.performs hlt
    obtain ⟨hregs, hmem, -⟩ := hp.after_succ
    have hkeeps := hk k hlt i hp.current
    obtain ⟨rest, removed, hlive, hlen⟩ := exists_removed hkeeps.enough
    have hbefore := ih (by omega)
    rw [hlive] at hbefore hkeeps
    rw [live_succ hp.current, hmem, hregs, hlive]
    exact hbefore.after hlen hkeeps

/-- In a run that leaves the stack to pushes and pulls, the stack is a list: the bytes lie in it
from its base down, and every instruction that removes some takes the last ones. -/
theorem run_refines_list (m : Machine) (n : Nat) (hr : m.Runs n) (hk : m.KeepsStack n) :
    (∀ k ≤ n, StackHolds m.cpu.sp (m.after k).cpu.sp (m.after k).memory (m.live k)) ∧
    ∀ k < n, ∃ i rest removed, (m.after k).instruction = some i ∧ removed.length = i.pulls ∧
      m.live k = rest ++ removed ∧
      m.live (k + 1) = rest ++ i.pushes (m.after k).cpu.toRegisters ∧
      i.Takes (m.after k).cpu.toRegisters (m.after (k + 1)).cpu.toRegisters removed := by
  have hholds := stackHolds_after hr hk
  refine ⟨hholds, ?_⟩
  intro k hlt
  obtain ⟨i, hp⟩ := hr.performs hlt
  obtain ⟨hregs, -, -⟩ := hp.after_succ
  obtain ⟨rest, removed, hlive, hlen⟩ := exists_removed (hk k hlt i hp.current).enough
  have hbefore := hholds k (by omega)
  rw [hlive] at hbefore
  refine ⟨i, rest, removed, hp.current, hlen, hlive, ?_, ?_⟩
  · rw [live_succ hp.current, hlive, i.track_append _ hlen]
  · rw [hregs]
    exact hbefore.takes hlen

theorem run_refines_list_wrapped :
    let m : Machine := { holding [0x48, 0x68] with cpu := { a := 7 } }
    m.Runs 2 ∧ m.KeepsStack 2 ∧ m.live 1 = [7] ∧ (m.after 1).cpu.sp = 255 ∧
      (m.after 2).cpu.a = 7 := by
  intro m
  have hread : ∀ a, m.memory.read a = [0x48, 0x68].getD a.toNat 0 :=
    read_holding [0x48, 0x68] (by decide)
  have h0 : (m.after 0).Performs .pushA := ⟨rfl, congrArg decode (hread 0), rfl⟩
  obtain ⟨hregs, -, hrunning⟩ := h0.after_succ
  have h1 : (m.after 1).Performs .pullA := by
    refine ⟨hrunning, ?_, rfl⟩
    have hpc : (m.after 1).cpu.pc = 1 := congrArg Registers.pc hregs
    have hone : (m.after 1).memory.read 1 = 0x68 := (h0.read_step rfl (by decide)).trans (hread 1)
    rw [instruction, hpc, hone]
    rfl
  have hlive : m.live 1 = [7] := live_succ h0.current
  have hr : m.Runs 2 := by
    intro k hk
    match k, hk with
    | 0, _ => exact ⟨_, congrArg Prod.fst h0.step_eq⟩
    | 1, _ => exact ⟨_, congrArg Prod.fst h1.step_eq⟩
  have hk : m.KeepsStack 2 := by
    intro k hk i hi
    match k, hk with
    | 0, _ =>
      cases h0.current.symm.trans hi
      exact ⟨nofun, by decide, by decide, nofun⟩
    | 1, _ =>
      cases h1.current.symm.trans hi
      rw [hlive]
      exact ⟨nofun, by decide, by decide, nofun⟩
  obtain ⟨hholds, hsteps⟩ := m.run_refines_list 2 hr hk
  refine ⟨hr, hk, hlive, ?_, ?_⟩
  · have hsp := (hholds 1 (by decide)).pointer
    rw [hlive] at hsp
    exact hsp
  · obtain ⟨i, rest, removed, hi, hlen, hrest, -, htakes⟩ := hsteps 1 (by decide)
    cases h1.current.symm.trans hi
    have ha : removed = [(m.after 2).cpu.a] := htakes
    rw [hlive, ha] at hrest
    have hlast := congrArg List.getLast? hrest
    rw [List.getLast?_concat] at hlast
    exact (Option.some.inj hlast).symm

end Machine

end Mos6502
