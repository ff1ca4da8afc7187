import Mos6502.Proofs.Slicing

namespace Mos6502

/-- None of the `n` cells from `a` on is one of the `k` cells from `b` on. -/
def Apart (a : UInt16) (n : Nat) (b : UInt16) (k : Nat) : Prop :=
  ∀ i < n, ∀ j < k, a + UInt16.ofNat i ≠ b + UInt16.ofNat j

/-- Cells are apart whose addresses, as numbers, are. -/
theorem apart_of_ranges {a b : UInt16} {n k : Nat} (ha : a.toNat + n ≤ UInt16.size)
    (hb : b.toNat + k ≤ UInt16.size) (h : a.toNat + n ≤ b.toNat ∨ b.toNat + k ≤ a.toNat) :
    Apart a n b k := by
  intro i hi j hj heq
  have hnat := congrArg UInt16.toNat heq
  rw [toNat_add_ofNat (by omega), toNat_add_ofNat (by omega)] at hnat
  omega

theorem Apart.symm {a b : UInt16} {n k : Nat} (h : Apart a n b k) : Apart b k a n := by
  intro i hi j hj heq
  exact h j hj i hi heq.symm

theorem Apart.drop {a b : UInt16} {j n k : Nat} (h : Apart a (n + j) b k) :
    Apart (a + UInt16.ofNat j) n b k := by
  intro i hi l hl
  rw [← add_ofNat_add]
  exact h (j + i) (by omega) l hl

namespace Memory

variable {m : Memory} {a : UInt16} {b : UInt8} {bs cs : List UInt8}

/-- Bytes stand one after another from an address on. -/
def Holds (m : Memory) (a : UInt16) (bs : List UInt8) : Prop := m.readAll a bs.length = bs

theorem holds_cons : m.Holds a (b :: bs) ↔ m.read a = b ∧ m.Holds (a + 1) bs := by
  rw [Holds, Holds, List.length_cons, readAll, List.cons.injEq]

theorem holds_append :
    m.Holds a (bs ++ cs) ↔ m.Holds a bs ∧ m.Holds (a + UInt16.ofNat bs.length) cs := by
  rw [Holds, Holds, Holds, List.length_append, readAll_add]
  constructor
  · intro h
    exact List.append_inj h (length_readAll m a bs.length)
  · intro h
    rw [h.1, h.2]

/-- The operand of an instruction that names a cell by its whole address. -/
theorem Holds.wordAt {w : UInt16} (h : m.Holds a [low w, high w]) : m.wordAt a = w := by
  obtain ⟨hlow, hrest⟩ := holds_cons.mp h
  obtain ⟨hhigh, -⟩ := holds_cons.mp hrest
  rw [Memory.wordAt, hlow, hhigh, word_low_high]

/-- Writing elsewhere leaves them. -/
theorem Holds.write {target : UInt16} (h : m.Holds a bs)
    (hne : ∀ i < bs.length, a + UInt16.ofNat i ≠ target) (v : UInt8) :
    (m.write target v).Holds a bs := by
  have hsame : (m.write target v).readAll a bs.length = m.readAll a bs.length := by
    apply readAll_congr
    intro i hi
    exact m.read_write_of_ne v (hne i hi).symm
  rw [Holds, hsame]
  exact h

end Memory

namespace Machine

variable {m : Machine} {k cycles : Nat} {r : Registers} {memory : Memory}

/-- The first `k` steps succeed, and these are the cycles they take together and the registers and
the memory they leave. -/
structure Leads (m : Machine) (k cycles : Nat) (r : Registers) (memory : Memory) : Prop where
  runs : m.Runs k
  spent : m.spent k = cycles
  running : (m.after k).cpu.halted = none
  registers : (m.after k).cpu.toRegisters = r
  memory : (m.after k).memory = memory

theorem leads_zero (h : m.cpu.halted = none) : m.Leads 0 0 m.cpu.toRegisters m.memory where
  runs := m.runs_zero
  spent := m.spent_zero
  running := h
  registers := rfl
  memory := rfl

/-- One more step, of the instruction that is next. -/
theorem Leads.succ {i : Instruction} (h : m.Leads k cycles r memory)
    (hi : decode (memory.read r.pc) = some i) (hr : i.refused r.status = false) :
    m.Leads (k + 1) (cycles + i.cost r memory) (i.after r memory)
      (memory.writeCells (i.writes r memory)) := by
  obtain ⟨hruns, rfl, hrunning, rfl, rfl⟩ := h
  have hp : (m.after k).Performs i := ⟨hrunning, hi, hr⟩
  obtain ⟨hregisters, hmemory, hhalted⟩ := hp.after_succ
  have hcost := toNat_reported_cost hp.current
  have hanswer : m.answer k = (m.after k).step.1 := rfl
  rw [hp.step_eq] at hanswer
  refine ⟨?_, ?_, hhalted, hregisters, hmemory⟩
  · exact hruns.add (runs_succ hanswer (runs_zero _))
  · rw [spent_succ, hanswer]
    exact congrArg (m.spent k + ·) hcost

theorem Leads.readImmediate {opcode b : UInt8} {op : ReadOp} (h : m.Leads k cycles r memory)
    (hi : decode opcode = some (.read op .immediate)) (hcode : memory.Holds r.pc [opcode, b])
    (hr : (op.isArithmetic && r.status.decimal) = false) :
    m.Leads (k + 1) (cycles + 2) { op.apply r b with pc := r.pc + 2 } memory := by
  obtain ⟨hopcode, hrest⟩ := Memory.holds_cons.mp hcode
  obtain ⟨hb, -⟩ := Memory.holds_cons.mp hrest
  have hcurrent : decode (memory.read r.pc) = some (.read op .immediate) := by
    rw [hopcode, hi]
  have hnext := h.succ hcurrent hr
  rw [← hb]
  exact hnext

theorem Leads.storeAbsolute {opcode : UInt8} {reg : Register} {address : UInt16}
    (h : m.Leads k cycles r memory) (hi : decode opcode = some (.store reg .absolute))
    (hcode : memory.Holds r.pc [opcode, low address, high address]) :
    m.Leads (k + 1) (cycles + 4) { r with pc := r.pc + 3 }
      (memory.write address (r.get reg)) := by
  obtain ⟨hopcode, hoperand⟩ := Memory.holds_cons.mp hcode
  have hcurrent : decode (memory.read r.pc) = some (.store reg .absolute) := by
    rw [hopcode, hi]
  have hnext := h.succ hcurrent rfl
  have hwrites : (Instruction.store reg .absolute).writes r memory = [(address, r.get reg)] := by
    change [(memory.wordAt (r.pc + 1), r.get reg)] = _
    rw [hoperand.wordAt]
  rw [hwrites] at hnext
  exact hnext

theorem Leads.modifyAbsolute {opcode : UInt8} {op : ModifyOp} {address : UInt16}
    (h : m.Leads k cycles r memory) (hi : decode opcode = some (.modify op (.cell .absolute)))
    (hcode : memory.Holds r.pc [opcode, low address, high address]) :
    m.Leads (k + 1) (cycles + 6)
      { r with pc := r.pc + 3, status := op.status r.status (memory.read address) }
      (memory.write address (op.result r.status (memory.read address))) := by
  obtain ⟨hopcode, hoperand⟩ := Memory.holds_cons.mp hcode
  have hcurrent : decode (memory.read r.pc) = some (.modify op (.cell .absolute)) := by
    rw [hopcode, hi]
  have hnext := h.succ hcurrent rfl
  have hcell : Location.absolute.effective r memory = address := hoperand.wordAt
  rw [← hcell]
  exact hnext

end Machine

end Mos6502
