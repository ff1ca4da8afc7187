import Mos6502.Proofs.Digits
import Mos6502.Proofs.StraightCode

namespace Mos6502

namespace ModifyOp

/-- The opcode of a change in place of a cell that is named by its whole address. -/
def absoluteOpcode : ModifyOp → UInt8
  | shiftLeft => 0x0E
  | shiftRight => 0x4E
  | rotateLeft => 0x2E
  | rotateRight => 0x6E
  | increment => 0xEE
  | decrement => 0xCE

theorem decode_absoluteOpcode (op : ModifyOp) :
    decode op.absoluteOpcode = some (.modify op (.cell .absolute)) := by
  cases op <;> rfl

variable (s : Status) (b : UInt8)

/-- A byte and the carry out of it are twice the byte and the carry into it. -/
theorem value_rotateLeft :
    (rotateLeft.result s b).toNat + 256 * (rotateLeft.carry s b).toNat =
      2 * b.toNat + s.carry.toNat := by
  have hb := b.toNat_lt
  have hc := Bool.toNat_le s.carry
  have hout : (rotateLeft.carry s b).toNat = b.toNat / 128 % 2 := Nat.toNat_testBit b.toNat 7
  rw [toNat_result, value, hout]
  omega

/-- What `value_rotateLeft` says, backwards. -/
theorem value_rotateRight :
    2 * (rotateRight.result s b).toNat + (rotateRight.carry s b).toNat =
      b.toNat + 256 * s.carry.toNat := by
  have hout : (rotateRight.carry s b).toNat = b.toNat / 1 % 2 := Nat.toNat_testBit b.toNat 0
  rw [toNat_result, value, hout]
  omega

theorem result_shiftLeft :
    shiftLeft.result s b = rotateLeft.result { s with carry := false } b :=
  UInt8.or_zero.symm

theorem result_shiftRight :
    shiftRight.result s b = rotateRight.result { s with carry := false } b :=
  UInt8.or_zero.symm

end ModifyOp

/-- A change in place of the cell at an address. -/
structure Change where
  op : ModifyOp
  address : UInt16

namespace Change

def code (c : Change) : List UInt8 := [c.op.absoluteOpcode, low c.address, high c.address]

def program (cs : List Change) : List UInt8 := cs.flatMap code

/-- Flags and memory after a change. -/
def apply (s : Status × Memory) (c : Change) : Status × Memory :=
  let b := s.2.read c.address
  (c.op.status s.1 b, s.2.write c.address (c.op.result s.1 b))

def applyAll (s : Status × Memory) (cs : List Change) : Status × Memory := cs.foldl apply s

/-- The same change of each of `n` cells, upward from an address. -/
def upward (op : ModifyOp) (a : UInt16) : Nat → List Change
  | 0 => []
  | n + 1 => ⟨op, a⟩ :: upward op (a + 1) n

def downward (op : ModifyOp) (a : UInt16) (n : Nat) : List Change := (upward op a n).reverse

variable {op : ModifyOp} {a : UInt16} {n : Nat}

theorem length_program (cs : List Change) : (program cs).length = 3 * cs.length := by
  simp [program, code, List.length_flatMap, Nat.mul_comm]

theorem length_upward (op : ModifyOp) (a : UInt16) (n : Nat) : (upward op a n).length = n := by
  induction n generalizing a with
  | zero => rfl
  | succ n ih => simp [upward, ih]

theorem upward_succ (op : ModifyOp) (a : UInt16) (n : Nat) :
    upward op a (n + 1) = upward op a n ++ [⟨op, a + UInt16.ofNat n⟩] := by
  induction n generalizing a with
  | zero =>
    have ha : a + UInt16.ofNat 0 = a := UInt16.add_zero a
    rw [ha]
    rfl
  | succ n ih =>
    rw [upward, ih, add_ofNat_succ]
    rfl

theorem address_upward {c : Change} (h : c ∈ upward op a n) :
    ∃ i < n, c.address = a + UInt16.ofNat i := by
  induction n generalizing a with
  | zero => cases h
  | succ n ih =>
    rcases List.mem_cons.mp h with rfl | hrest
    · exact ⟨0, Nat.succ_pos n, (UInt16.add_zero a).symm⟩
    · obtain ⟨i, hi, hc⟩ := ih hrest
      refine ⟨i + 1, Nat.succ_lt_succ hi, ?_⟩
      rw [hc, add_ofNat_succ]

/-- Changes leave the cells that none of them names. -/
theorem read_applyAll {cs : List Change} (h : ∀ c ∈ cs, c.address ≠ a) (s : Status × Memory) :
    (applyAll s cs).2.read a = s.2.read a := by
  induction cs generalizing s with
  | nil => rfl
  | cons c cs ih =>
    have hrest := ih (fun c' hc => h c' (List.mem_cons_of_mem c hc)) (apply s c)
    exact hrest.trans (s.2.read_write_of_ne _ (h c List.mem_cons_self))

/-- The cells upward from the next one are others than the first. -/
theorem ne_next (hn : n + 1 ≤ UInt16.size) {i : Nat} (hi : i < n) :
    a + 1 + UInt16.ofNat i ≠ a := by
  intro heq
  have hnat := congrArg UInt16.toNat heq
  have ha := a.toNat_lt
  have hsize : UInt16.size = 2 ^ 16 := rfl
  rw [← add_ofNat_succ, UInt16.toNat_add, UInt16.toNat_ofNat'] at hnat
  omega

theorem ne_of_mem_upward (hn : n + 1 ≤ UInt16.size) {c : Change} (h : c ∈ upward op (a + 1) n) :
    c.address ≠ a := by
  obtain ⟨i, hi, hc⟩ := address_upward h
  rw [hc]
  exact ne_next hn hi

/-- A shift is a rotation with a clear carry. -/
theorem apply_shiftLeft (s : Status) (memory : Memory) (a : UInt16) :
    apply (s, memory) ⟨.shiftLeft, a⟩ =
      apply ({ s with carry := false }, memory) ⟨.rotateLeft, a⟩ := by
  have hresult := ModifyOp.result_shiftLeft s (memory.read a)
  simp only [apply, ModifyOp.status, hresult]
  rfl

theorem apply_shiftRight (s : Status) (memory : Memory) (a : UInt16) :
    apply (s, memory) ⟨.shiftRight, a⟩ =
      apply ({ s with carry := false }, memory) ⟨.rotateRight, a⟩ := by
  have hresult := ModifyOp.result_shiftRight s (memory.read a)
  simp only [apply, ModifyOp.status, hresult]
  rfl

/-- Changing a cell leaves the ones upward from the next. -/
theorem readAll_apply (hn : n + 1 ≤ UInt16.size) (op : ModifyOp) (s : Status × Memory) :
    (apply s ⟨op, a⟩).2.readAll (a + 1) n = s.2.readAll (a + 1) n := by
  apply Memory.readAll_congr
  intro i hi
  exact s.2.read_write_of_ne _ (ne_next hn hi).symm

theorem value_apply_rotateLeft (s : Status × Memory) (a : UInt16) :
    let u := apply s ⟨.rotateLeft, a⟩
    (u.2.read a).toNat + 256 * u.1.carry.toNat = 2 * (s.2.read a).toNat + s.1.carry.toNat := by
  intro u
  have hread : u.2.read a = ModifyOp.rotateLeft.result s.1 (s.2.read a) :=
    s.2.read_write_self a _
  rw [hread]
  exact ModifyOp.value_rotateLeft s.1 (s.2.read a)

theorem value_apply_rotateRight (s : Status × Memory) (a : UInt16) :
    let u := apply s ⟨.rotateRight, a⟩
    2 * (u.2.read a).toNat + u.1.carry.toNat = (s.2.read a).toNat + 256 * s.1.carry.toNat := by
  intro u
  have hread : u.2.read a = ModifyOp.rotateRight.result s.1 (s.2.read a) :=
    s.2.read_write_self a _
  rw [hread]
  exact ModifyOp.value_rotateRight s.1 (s.2.read a)

theorem applyAll_append (s : Status × Memory) (cs cs' : List Change) :
    applyAll s (cs ++ cs') = applyAll (applyAll s cs) cs' :=
  List.foldl_append

/-- Rotating upward doubles a number. The carry out of a byte is the carry into the next one. -/
theorem value_upward (hn : n ≤ UInt16.size) (s : Status × Memory) :
    let t := applyAll s (upward .rotateLeft a n)
    littleEndian (t.2.readAll a n) + 256 ^ n * t.1.carry.toNat =
      2 * littleEndian (s.2.readAll a n) + s.1.carry.toNat := by
  induction n generalizing a s with
  | zero => simp [upward, applyAll, Memory.readAll, littleEndian_nil]
  | succ n ih =>
    intro t
    let u := apply s ⟨.rotateLeft, a⟩
    have hbyte : (u.2.read a).toNat + 256 * u.1.carry.toNat =
        2 * (s.2.read a).toNat + s.1.carry.toNat := value_apply_rotateLeft s a
    have hrest := ih (Nat.le_of_succ_le hn) (a := a + 1) u
    have hfirst : t.2.read a = u.2.read a :=
      read_applyAll (fun _ hc => ne_of_mem_upward hn hc) u
    change littleEndian (t.2.readAll (a + 1) n) + 256 ^ n * t.1.carry.toNat = _ at hrest
    rw [readAll_apply hn] at hrest
    rw [Memory.readAll, Memory.readAll, littleEndian_cons, littleEndian_cons, hfirst, Nat.pow_succ,
      Nat.mul_comm _ 256, Nat.mul_assoc]
    omega

/-- Rotating downward halves a number. The lowest byte is the last to be rotated. -/
theorem value_downward (hn : n ≤ UInt16.size) (s : Status × Memory) :
    let t := applyAll s (downward .rotateRight a n)
    2 * littleEndian (t.2.readAll a n) + t.1.carry.toNat =
      littleEndian (s.2.readAll a n) + 256 ^ n * s.1.carry.toNat := by
  induction n generalizing a s with
  | zero => simp [downward, upward, applyAll, Memory.readAll, littleEndian_nil]
  | succ n ih =>
    intro t
    let u := applyAll s (downward .rotateRight (a + 1) n)
    have hrest := ih (Nat.le_of_succ_le hn) (a := a + 1) s
    have hbyte := value_apply_rotateRight u a
    have hlast : t = apply u ⟨.rotateRight, a⟩ := by
      change applyAll s (upward .rotateRight a (n + 1)).reverse = _
      rw [upward, List.reverse_cons, applyAll_append]
      rfl
    have hfirst : u.2.read a = s.2.read a :=
      read_applyAll (fun _ hc => ne_of_mem_upward hn (List.mem_reverse.mp hc)) s
    rw [hfirst] at hbyte
    rw [hlast, Memory.readAll, Memory.readAll, littleEndian_cons, littleEndian_cons,
      readAll_apply hn, Nat.pow_succ, Nat.mul_comm _ 256, Nat.mul_assoc]
    change 2 * littleEndian (u.2.readAll (a + 1) n) + u.1.carry.toNat = _ at hrest
    omega

end Change

/-- By induction on the changes: none of them reaches the code of the others. -/
theorem Machine.Leads.changes {m : Machine} {k cycles : Nat} {r : Registers} {memory : Memory}
    {cs : List Change} (h : m.Leads k cycles r memory)
    (hcode : memory.Holds r.pc (Change.program cs))
    (hapart : ∀ c ∈ cs, ∀ i < 3 * cs.length, r.pc + UInt16.ofNat i ≠ c.address) :
    let t := Change.applyAll (r.status, memory) cs
    m.Leads (k + cs.length) (cycles + 6 * cs.length)
      { r with pc := r.pc + UInt16.ofNat (3 * cs.length), status := t.1 } t.2 := by
  induction cs generalizing k cycles r memory with
  | nil =>
    have hpc : r.pc + UInt16.ofNat (3 * 0) = r.pc := UInt16.add_zero r.pc
    rw [List.length_nil, hpc]
    exact h
  | cons c cs ih =>
    obtain ⟨hfirst, hrest⟩ := Memory.holds_append.mp hcode
    change memory.Holds (r.pc + 3) (Change.program cs) at hrest
    have hnext := h.modifyAbsolute c.op.decode_absoluteOpcode hfirst
    have hclear (c' : Change) (hc : c' ∈ c :: cs) (i : Nat) (hi : i < 3 * cs.length) :
        r.pc + 3 + UInt16.ofNat i ≠ c'.address := by
      have hbehind : 3 + i < 3 * (c :: cs).length := by
        rw [List.length_cons]
        omega
      have hne := hapart c' hc (3 + i) hbehind
      rw [add_ofNat_add] at hne
      exact hne
    rw [← Change.length_program] at hclear
    have hkept := hrest.write (hclear c List.mem_cons_self)
    rw [Change.length_program] at hclear
    have hall := ih hnext (hkept _) fun c' hc => hclear c' (List.mem_cons_of_mem c hc)
    have hsteps : k + 1 + cs.length = k + (c :: cs).length := by
      rw [List.length_cons]
      omega
    have hcycles : cycles + 6 + 6 * cs.length = cycles + 6 * (c :: cs).length := by
      rw [List.length_cons]
      omega
    have hpc : r.pc + UInt16.ofNat (3 * (c :: cs).length) =
        r.pc + 3 + UInt16.ofNat (3 * cs.length) := by
      rw [List.length_cons, Nat.mul_succ, Nat.add_comm]
      exact add_ofNat_add r.pc 3 _
    rw [hsteps, hcycles] at hall
    rw [hpc]
    exact hall

/-- Code that shifts a number of many bytes by one bit, one byte after another. -/
inductive ShiftChain where
  | left | right | roundTrip

namespace ShiftChain

variable (c : ShiftChain) (a : UInt16) (n : Nat)

/-- `ASL` at the lowest byte and `ROL` upward from there; `LSR` at the highest byte and `ROR`
downward from there; `ROL` upward and `ROR` back downward. -/
def changes (a : UInt16) (n : Nat) : ShiftChain → List Change
  | left => ⟨.shiftLeft, a⟩ :: Change.upward .rotateLeft (a + 1) (n - 1)
  | right => ⟨.shiftRight, a + UInt16.ofNat (n - 1)⟩ :: Change.downward .rotateRight a (n - 1)
  | roundTrip => Change.upward .rotateLeft a n ++ Change.downward .rotateRight a n

def steps (n : Nat) : ShiftChain → Nat
  | left | right => n
  | roundTrip => 2 * n

/-- What becomes of the bytes of a number and of the carry. -/
def Result (before after : List UInt8) (carry carry' : Bool) : ShiftChain → Prop
  | left =>
    littleEndian after = 2 * littleEndian before % 256 ^ before.length ∧
      (carry' = true ↔ 256 ^ before.length ≤ 2 * littleEndian before)
  | right =>
    littleEndian after = littleEndian before / 2 ∧ carry'.toNat = littleEndian before % 2
  | roundTrip => after = before ∧ carry' = carry

variable {n}

theorem length_changes (hn : 0 < n) : (c.changes a n).length = c.steps n := by
  cases c with
  | left =>
    rw [changes, List.length_cons, Change.length_upward]
    exact Nat.sub_add_cancel hn
  | right =>
    rw [changes, List.length_cons, Change.downward, List.length_reverse, Change.length_upward]
    exact Nat.sub_add_cancel hn
  | roundTrip =>
    rw [changes, List.length_append, Change.downward, List.length_reverse, Change.length_upward,
      Change.length_upward]
    exact (Nat.two_mul n).symm

/-- Only the first shift of a chain clears the carry that goes into it. -/
theorem applyAll_left (s : Status) (memory : Memory) :
    Change.applyAll (s, memory) (left.changes a (n + 1)) =
      Change.applyAll ({ s with carry := false }, memory) (Change.upward .rotateLeft a (n + 1)) := by
  change Change.applyAll (Change.apply (s, memory) ⟨.shiftLeft, a⟩) _ = _
  rw [Change.apply_shiftLeft]
  rfl

theorem applyAll_right (s : Status) (memory : Memory) :
    Change.applyAll (s, memory) (right.changes a (n + 1)) =
      Change.applyAll ({ s with carry := false }, memory)
        (Change.downward .rotateRight a (n + 1)) := by
  rw [Change.downward, Change.upward_succ, List.reverse_append]
  change Change.applyAll (Change.apply (s, memory) ⟨.shiftRight, a + UInt16.ofNat n⟩) _ = _
  rw [Change.apply_shiftRight]
  rfl

theorem address_changes (hn : 0 < n) {change : Change} (h : change ∈ c.changes a n) :
    ∃ i < n, change.address = a + UInt16.ofNat i := by
  obtain ⟨n, rfl⟩ := Nat.exists_eq_add_one_of_ne_zero hn.ne'
  cases c with
  | left =>
    rcases List.mem_cons.mp h with rfl | hrest
    · exact ⟨0, hn, (UInt16.add_zero a).symm⟩
    · obtain ⟨i, hi, hchange⟩ := Change.address_upward hrest
      refine ⟨i + 1, Nat.succ_lt_succ hi, ?_⟩
      rw [hchange, add_ofNat_succ]
  | right =>
    rcases List.mem_cons.mp h with rfl | hrest
    · exact ⟨n, Nat.lt_succ_self n, rfl⟩
    · obtain ⟨i, hi, hchange⟩ := Change.address_upward (List.mem_reverse.mp hrest)
      exact ⟨i, Nat.lt_succ_of_lt hi, hchange⟩
  | roundTrip =>
    rcases List.mem_append.mp h with hup | hdown
    · exact Change.address_upward hup
    · exact Change.address_upward (List.mem_reverse.mp hdown)

/-- The bytes and the carry after a chain. -/
theorem result_applyAll (hn : 0 < n) (hfits : n ≤ UInt16.size) (s : Status) (memory : Memory) :
    let t := Change.applyAll (s, memory) (c.changes a n)
    c.Result (memory.readAll a n) (t.2.readAll a n) s.carry t.1.carry := by
  intro t
  have hlen := memory.length_readAll a n
  cases c with
  | left =>
    obtain ⟨k, rfl⟩ := Nat.exists_eq_add_one_of_ne_zero hn.ne'
    have hvalue := Change.value_upward (a := a) hfits ({ s with carry := false }, memory)
    rw [← applyAll_left] at hvalue
    have hlt := littleEndian_lt (t.2.readAll a (k + 1))
    rw [Memory.length_readAll] at hlt
    rw [Result, hlen]
    exact mod_of_digits hlt hvalue
  | right =>
    obtain ⟨k, rfl⟩ := Nat.exists_eq_add_one_of_ne_zero hn.ne'
    have hvalue := Change.value_downward (a := a) hfits ({ s with carry := false }, memory)
    rw [← applyAll_right] at hvalue
    change 2 * littleEndian (t.2.readAll a (k + 1)) + t.1.carry.toNat =
      littleEndian (memory.readAll a (k + 1)) + 256 ^ (k + 1) * 0 at hvalue
    have hcarry := Bool.toNat_le t.1.carry
    rw [Result]
    omega
  | roundTrip =>
    let u := Change.applyAll (s, memory) (Change.upward .rotateLeft a n)
    have hback : t = Change.applyAll u (Change.downward .rotateRight a n) :=
      Change.applyAll_append _ _ _
    have hup := Change.value_upward (a := a) hfits (s, memory)
    have hdown := Change.value_downward (a := a) hfits u
    rw [← hback] at hdown
    have hboth : 2 * littleEndian (t.2.readAll a n) + t.1.carry.toNat =
        2 * littleEndian (memory.readAll a n) + s.carry.toNat := hdown.trans hup
    have hcarry := Bool.toNat_le t.1.carry
    have hcarry' := Bool.toNat_le s.carry
    constructor
    · apply littleEndian_inj
      · rw [hlen, Memory.length_readAll]
      · omega
    · have hbits : t.1.carry.toNat = s.carry.toNat := by omega
      have hsame := congrArg Bool.ofNat hbits
      rwa [Bool.ofNat_toNat, Bool.ofNat_toNat] at hsame

end ShiftChain

/-- A machine that is about to run a chain over the `n` cells from `target` on. Neither its code
nor the cells go on at address 0, and they have no cell in common. -/
structure ShiftChain.Loaded (c : ShiftChain) (m : Machine) (target : UInt16) (n : Nat) : Prop where
  running : m.cpu.halted = none
  nonempty : 0 < n
  code : m.memory.readAll m.cpu.pc (3 * c.steps n) = Change.program (c.changes target n)
  codeFits : m.cpu.pc.toNat + 3 * c.steps n ≤ UInt16.size
  dataFits : target.toNat + n ≤ UInt16.size
  apart : m.cpu.pc.toNat + 3 * c.steps n ≤ target.toNat ∨ target.toNat + n ≤ m.cpu.pc.toNat

/-- What a chain comes to from `m` on: its steps and cycles, the bytes and the carry, and what
stays as it was. -/
structure ShiftChain.Computes (c : ShiftChain) (m : Machine) (target : UInt16) (n : Nat) :
    Prop where
  runs : m.Runs (c.steps n)
  spent : m.spent (c.steps n) = 6 * c.steps n
  result : c.Result (m.memory.readAll target n) ((m.after (c.steps n)).memory.readAll target n)
    m.cpu.status.carry (m.after (c.steps n)).cpu.status.carry
  kept : ∀ address : UInt16,
    address.toNat < target.toNat ∨ target.toNat + n ≤ address.toNat →
      (m.after (c.steps n)).memory.read address = m.memory.read address
  a : (m.after (c.steps n)).cpu.a = m.cpu.a
  x : (m.after (c.steps n)).cpu.x = m.cpu.x
  y : (m.after (c.steps n)).cpu.y = m.cpu.y
  sp : (m.after (c.steps n)).cpu.sp = m.cpu.sp

theorem ShiftChain.Loaded.leads {c : ShiftChain} {m : Machine} {target : UInt16} {n : Nat}
    (h : c.Loaded m target n) :
    let t := Change.applyAll (m.cpu.status, m.memory) (c.changes target n)
    m.Leads (c.steps n) (6 * c.steps n)
      { m.cpu.toRegisters with pc := m.cpu.pc + UInt16.ofNat (3 * c.steps n), status := t.1 }
      t.2 := by
  have hlen := c.length_changes target h.nonempty
  have hcode : m.memory.Holds m.cpu.pc (Change.program (c.changes target n)) := by
    rw [Memory.Holds, Change.length_program, hlen]
    exact h.code
  have hapart := apart_of_ranges h.codeFits h.dataFits h.apart
  have hall := (Machine.leads_zero h.running).changes hcode (by
    intro change hc i hi heq
    obtain ⟨j, hj, hchange⟩ := c.address_changes target h.nonempty hc
    rw [hlen] at hi
    exact hapart i hi j hj (heq.trans hchange))
  rw [hlen, Nat.zero_add, Nat.zero_add] at hall
  exact hall

/-- A chain of shifts shifts a number of any number of bytes: to the left it doubles it and to the
right it halves it, with the bit that falls out in the carry. A rotation to the left and back
restores bytes and carry. -/
theorem shift_chain {c : ShiftChain} {m : Machine} {target : UInt16} {n : Nat}
    (h : c.Loaded m target n) : c.Computes m target n := by
  have hleads := h.leads
  have hfits : n ≤ UInt16.size := Nat.le_trans (Nat.le_add_left n _) h.dataFits
  have hresult := c.result_applyAll target h.nonempty hfits m.cpu.status m.memory
  refine ⟨hleads.runs, hleads.spent, ?_, ?_, ?_, ?_, ?_, ?_⟩
  · have hstatus := congrArg Registers.status hleads.registers
    change (m.after (c.steps n)).cpu.status = _ at hstatus
    rw [hleads.memory, hstatus]
    exact hresult
  · intro address haddress
    rw [hleads.memory]
    apply Change.read_applyAll
    intro change hc heq
    obtain ⟨i, hi, hchange⟩ := c.address_changes target h.nonempty hc
    have hnat := congrArg UInt16.toNat (heq.symm.trans hchange)
    have hdata := h.dataFits
    rw [toNat_add_ofNat (by omega)] at hnat
    omega
  · rw [hleads.registers]
  · rw [hleads.registers]
  · rw [hleads.registers]
  · rw [hleads.registers]

/-- The highest bit of two bytes falls out into the carry. -/
theorem shift_chain_doubled :
    let m := Machine.holding (Change.program (ShiftChain.left.changes 6 2) ++ [0x80, 0xC0])
    ShiftChain.left.Loaded m 6 2 ∧ m.spent 2 = 12 ∧
      littleEndian ((m.after 2).memory.readAll 6 2) = 0x8100 ∧
      (m.after 2).cpu.status.carry = true := by
  intro m
  have hbytes : m.memory.readAll 0 (6 + 2) =
      Change.program (ShiftChain.left.changes 6 2) ++ [0x80, 0xC0] :=
    Memory.readAll_writeAll _ _ _ (by decide)
  rw [Memory.readAll_add] at hbytes
  obtain ⟨hcode, hdata⟩ := List.append_inj hbytes rfl
  change m.memory.readAll 6 2 = [0x80, 0xC0] at hdata
  have hloaded : ShiftChain.left.Loaded m 6 2 := {
    running := rfl
    nonempty := by decide
    code := hcode
    codeFits := by decide
    dataFits := by decide
    apart := by decide }
  have hresult := shift_chain hloaded
  obtain ⟨hvalue, hcarry⟩ := hresult.result
  rw [hdata] at hvalue hcarry
  exact ⟨hloaded, hresult.spent, hvalue, hcarry.mpr (by decide)⟩

end Mos6502
