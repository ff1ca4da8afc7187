import Mos6502.Proofs.Digits
import Mos6502.Proofs.StraightCode

namespace Mos6502

/-- The digits of two numbers, in pairs. -/
abbrev Digits := List (UInt8 × UInt8)

namespace Registers

variable (r : Registers) (d : UInt8 × UInt8) (ds : Digits)

/-- The accumulator takes one digit, and the other is added to it. -/
def addDigit : Registers := (r.load .a d.1).addWithCarry d.2

def addDigits : Registers := ds.foldl addDigit r

/-- The accumulator after each digit. -/
def sums (r : Registers) : Digits → List UInt8
  | [] => []
  | d :: ds => (r.addDigit d).a :: (r.addDigit d).sums ds

theorem length_sums : (r.sums ds).length = ds.length := by
  induction ds generalizing r with
  | nil => rfl
  | cons d ds ih => simp [sums, ih]

/-- A digit of the sum and the carry out of it are the sum of the digits and the carry into it. -/
theorem value_addDigit :
    (r.addDigit d).a.toNat + 256 * (r.addDigit d).status.carry.toNat =
      d.1.toNat + d.2.toNat + r.status.carry.toNat :=
  (r.load .a d.1).value_addWithCarry d.2

/-- By induction on the digits: the carry out of the first is the carry into the others. -/
theorem value_sums :
    littleEndian (r.sums ds) + 256 ^ ds.length * (r.addDigits ds).status.carry.toNat =
      littleEndian (ds.map Prod.fst) + littleEndian (ds.map Prod.snd) + r.status.carry.toNat := by
  induction ds generalizing r with
  | nil => simp [sums, addDigits, littleEndian_nil]
  | cons d ds ih =>
    have hfirst := r.value_addDigit d
    have hrest := ih (r.addDigit d)
    change littleEndian ((r.addDigit d).a :: (r.addDigit d).sums ds) +
        256 ^ (ds.length + 1) * ((r.addDigit d).addDigits ds).status.carry.toNat = _
    rw [List.map_cons, List.map_cons, littleEndian_cons, littleEndian_cons, littleEndian_cons,
      Nat.pow_succ, Nat.mul_comm _ 256, Nat.mul_assoc]
    omega

/-- Only the last digit overflows, and it does when the whole sum does. -/
theorem overflow_addDigits (h : ds ≠ []) :
    (r.addDigits ds).status.overflow = true ↔
      ¬ SignedFits ds.length
        (twosComplement (ds.map Prod.fst) + twosComplement (ds.map Prod.snd) +
          r.status.carry.toNat) := by
  induction ds generalizing r with
  | nil => exact absurd rfl h
  | cons d ds ih =>
    cases ds with
    | nil =>
      have hone := (r.load .a d.1).overflow_addWithCarry d.2
      change (r.addDigit d).status.overflow = true ↔
        ¬ SignedFits 1 (twosComplement [d.1] + twosComplement [d.2] + r.status.carry.toNat)
      rw [signedFits_one, twosComplement_singleton, twosComplement_singleton]
      exact hone
    | cons d' ds =>
      -- the sign is in the other digits: this one adds its carry to them and stands below them
      have hfirst := r.value_addDigit d
      have hrest := ih (r.addDigit d) (List.cons_ne_nil d' ds)
      let as := (d' :: ds).map Prod.fst
      let bs := (d' :: ds).map Prod.snd
      have has : twosComplement (d.1 :: as) = d.1.toNat + 256 * twosComplement as :=
        twosComplement_cons d.1 (List.cons_ne_nil _ _)
      have hbs : twosComplement (d.2 :: bs) = d.2.toNat + 256 * twosComplement bs :=
        twosComplement_cons d.2 (List.cons_ne_nil _ _)
      have hsum : twosComplement (d.1 :: as) + twosComplement (d.2 :: bs) + r.status.carry.toNat =
          (r.addDigit d).a.toNat + 256 * (twosComplement as + twosComplement bs +
            (r.addDigit d).status.carry.toNat) := by
        rw [has, hbs]
        omega
      change ((r.addDigit d).addDigits (d' :: ds)).status.overflow = true ↔
        ¬ SignedFits ((d' :: ds).length + 1)
          (twosComplement (d.1 :: as) + twosComplement (d.2 :: bs) + r.status.carry.toNat)
      have hlen : 0 < (d' :: ds).length := Nat.succ_pos _
      rw [hsum, signedFits_succ hlen (r.addDigit d).a.toNat_lt]
      exact hrest

/-- Sums do not depend on the program counter. -/
theorem sums_pc (pc : UInt16) : { r with pc := pc }.sums ds = r.sums ds := by
  induction ds generalizing r with
  | nil => rfl
  | cons d ds ih => exact congrArg _ (ih (r.addDigit d))

theorem addDigits_pc (pc : UInt16) :
    { r with pc := pc }.addDigits ds = { r.addDigits ds with pc := pc } := by
  induction ds generalizing r with
  | nil => rfl
  | cons d ds ih => exact ih (r.addDigit d)

/-- Sums change the accumulator and the flags only. -/
theorem addDigits_kept :
    (r.addDigits ds).x = r.x ∧ (r.addDigits ds).y = r.y ∧ (r.addDigits ds).sp = r.sp := by
  induction ds generalizing r with
  | nil => exact ⟨rfl, rfl, rfl⟩
  | cons d ds ih => exact ih (r.addDigit d)

end Registers

/-- Code that adds or subtracts numbers of many bytes, one byte after another. -/
inductive Chain where
  | sum | difference

namespace Chain

variable (c : Chain)

/-- The carry that the lowest digit starts with; for a difference it stands for "no borrow". -/
def change : Chain → FlagChange
  | sum => .clearCarry
  | difference => .setCarry

def op : Chain → ReadOp
  | sum => .add
  | difference => .subtract

/-- `CLC` or `SEC`. -/
def opening : Chain → UInt8
  | sum => 0x18
  | difference => 0x38

/-- `ADC` or `SBC`, immediate. -/
def opcode : Chain → UInt8
  | sum => 0x69
  | difference => 0xE9

/-- `LDA`, immediate; the operation; `STA`, absolute. -/
def digit (target : UInt16) (d : UInt8 × UInt8) : List UInt8 :=
  [0xA9, d.1] ++ [c.opcode, d.2] ++ [0x8D, low target, high target]

def digits (target : UInt16) : Digits → List UInt8
  | [] => []
  | d :: ds => c.digit target d ++ digits (target + 1) ds

def program (target : UInt16) (ds : Digits) : List UInt8 := c.opening :: c.digits target ds

/-- What is added: a difference is the sum with the complement. -/
def term : Chain → UInt8 × UInt8 → UInt8 × UInt8
  | sum, d => d
  | difference, d => (d.1, ~~~d.2)

/-- The result, were there digits for all of it. -/
def result : Chain → Int → Int → Int
  | sum, x, y => x + y
  | difference, x, y => x - y

/-- What the carry tells: that the sum is beyond the digits, or that the difference borrows
nothing. -/
def Carries : Chain → (size x y : Nat) → Prop
  | sum, size, x, y => size ≤ x + y
  | difference, _, x, y => y ≤ x

instance (size x y : Nat) : Decidable (c.Carries size x y) :=
  match c with
  | sum => inferInstanceAs (Decidable (size ≤ x + y))
  | difference => inferInstanceAs (Decidable (y ≤ x))

theorem decode_opening : decode c.opening = some (.changeFlag c.change) := by
  cases c <;> rfl

theorem decode_opcode : decode c.opcode = some (.read c.op .immediate) := by
  cases c <;> rfl

theorem length_digits (target : UInt16) (ds : Digits) :
    (c.digits target ds).length = 7 * ds.length := by
  induction ds generalizing target with
  | nil => rfl
  | cons d ds ih =>
    rw [digits, List.length_append, ih, List.length_cons]
    change 7 + _ = _
    omega

theorem apply_op (r : Registers) (d : UInt8 × UInt8) :
    c.op.apply (r.load .a d.1) d.2 = r.addDigit (c.term d) := by
  cases c <;> rfl

theorem map_fst_term (ds : Digits) : (ds.map c.term).map Prod.fst = ds.map Prod.fst := by
  rw [List.map_map]
  cases c <;> rfl

theorem map_sum_term (ds : Digits) : ds.map sum.term = ds := List.map_id ds

theorem map_snd_term (ds : Digits) :
    (ds.map difference.term).map Prod.snd = (ds.map Prod.snd).map (~~~·) := by
  rw [List.map_map, List.map_map]
  rfl

variable {r : Registers} (ds : Digits)

/-- The sums of a chain are the digits of its result. -/
theorem value_sums (h : r.status.carry = c.change.value) :
    (littleEndian (r.sums (ds.map c.term)) : Int) =
        c.result (littleEndian (ds.map Prod.fst)) (littleEndian (ds.map Prod.snd)) %
          (256 ^ ds.length : Nat) ∧
      ((r.addDigits (ds.map c.term)).status.carry = true ↔
        c.Carries (256 ^ ds.length) (littleEndian (ds.map Prod.fst))
          (littleEndian (ds.map Prod.snd))) := by
  have hlt := littleEndian_lt (r.sums (ds.map c.term))
  have hvalue := r.value_sums (ds.map c.term)
  rw [r.length_sums, List.length_map] at hlt
  rw [List.length_map, map_fst_term, h] at hvalue
  cases c with
  | sum =>
    rw [map_sum_term] at hlt hvalue ⊢
    obtain ⟨hdigits, hcarry⟩ := mod_of_digits hlt hvalue
    rw [hdigits, Int.natCast_mod]
    exact ⟨rfl, hcarry⟩
  | difference =>
    have hcomplement := littleEndian_complement (ds.map Prod.snd)
    rw [List.length_map] at hcomplement
    rw [map_snd_term] at hvalue
    obtain ⟨hdigits, hcarry⟩ := mod_of_digits hlt hvalue
    have htotal : ((littleEndian (ds.map Prod.fst) +
        littleEndian ((ds.map Prod.snd).map (~~~·)) + 1 : Nat) : Int) =
          littleEndian (ds.map Prod.fst) - littleEndian (ds.map Prod.snd) +
            (256 ^ ds.length : Nat) := by
      omega
    constructor
    · rw [hdigits, Int.natCast_mod]
      change ((_ + _ + 1 : Nat) : Int) % _ = _
      rw [htotal, Int.add_emod_right]
      rfl
    · rw [hcarry]
      change _ ≤ _ + _ + 1 ↔ _ ≤ _
      omega

theorem overflow_sums (h : r.status.carry = c.change.value) {ds : Digits} (hne : ds ≠ []) :
    (r.addDigits (ds.map c.term)).status.overflow = true ↔
      ¬ SignedFits ds.length
        (c.result (twosComplement (ds.map Prod.fst)) (twosComplement (ds.map Prod.snd))) := by
  have hterms : ds.map c.term ≠ [] := fun hnil => hne (List.map_eq_nil_iff.mp hnil)
  rw [r.overflow_addDigits _ hterms, List.length_map, map_fst_term, h]
  cases c with
  | sum =>
    rw [map_sum_term]
    change ¬ SignedFits _ (_ + _ + 0) ↔ _
    rw [Int.add_zero]
    rfl
  | difference =>
    have hsnd : ds.map Prod.snd ≠ [] := fun hnil => hne (List.map_eq_nil_iff.mp hnil)
    have hexact : twosComplement (ds.map Prod.fst) + (-1 - twosComplement (ds.map Prod.snd)) + 1 =
        twosComplement (ds.map Prod.fst) - twosComplement (ds.map Prod.snd) := by
      omega
    rw [map_snd_term, twosComplement_complement hsnd]
    change ¬ SignedFits _ (_ + _ + 1) ↔ _
    rw [hexact]
    rfl

end Chain

namespace Machine

variable {m : Machine} {k cycles : Nat} {r : Registers} {memory : Memory} {c : Chain}
  {target : UInt16}

/-- The three instructions of a digit. -/
theorem Leads.digit {d : UInt8 × UInt8} (h : m.Leads k cycles r memory)
    (hbinary : r.status.decimal = false) (hcode : memory.Holds r.pc (c.digit target d)) :
    m.Leads (k + 3) (cycles + 8) { r.addDigit (c.term d) with pc := r.pc + 7 }
      (memory.write target (r.addDigit (c.term d)).a) := by
  obtain ⟨hoperation, hsta⟩ := Memory.holds_append.mp hcode
  obtain ⟨hlda, hop⟩ := Memory.holds_append.mp hoperation
  have hadmitted : (c.op.isArithmetic && r.status.decimal) = false := by
    rw [hbinary, Bool.and_false]
  have hloads : decode 0xA9 = some (.read (.load .a) .immediate) := rfl
  have hstores : decode 0x8D = some (.store .a .absolute) := rfl
  have hload := h.readImmediate hloads hlda rfl
  have hadd := hload.readImmediate c.decode_opcode hop hadmitted
  change m.Leads _ _ { c.op.apply { r.load .a d.1 with pc := r.pc + 2 } d.2 with
    pc := r.pc + 2 + 2 } memory at hadd
  rw [apply_pc, c.apply_op, UInt16.add_assoc] at hadd
  have hstore := hadd.storeAbsolute hstores hsta
  change m.Leads _ _ { r.addDigit (c.term d) with pc := r.pc + (2 + 2) + 3 } _ at hstore
  rw [UInt16.add_assoc] at hstore
  exact hstore

/-- By induction on the digits: no digit's store reaches the code of the others. -/
theorem Leads.digits {ds : Digits} (h : m.Leads k cycles r memory)
    (hbinary : r.status.decimal = false) (hcode : memory.Holds r.pc (c.digits target ds))
    (hapart : Apart r.pc (7 * ds.length) target ds.length) :
    m.Leads (k + 3 * ds.length) (cycles + 8 * ds.length)
      { r.addDigits (ds.map c.term) with pc := r.pc + UInt16.ofNat (7 * ds.length) }
      (memory.writeAll target (r.sums (ds.map c.term))) := by
  induction ds generalizing k cycles r memory target with
  | nil =>
    have hpc : r.pc + UInt16.ofNat (7 * 0) = r.pc := UInt16.add_zero r.pc
    rw [List.length_nil, hpc]
    exact h
  | cons d ds ih =>
    obtain ⟨hdigit, hrest⟩ := Memory.holds_append.mp hcode
    let r' : Registers := { r.addDigit (c.term d) with pc := r.pc + 7 }
    -- in this form the code of the digit and its cell can be dropped from the two ranges
    change Apart r.pc (7 * ds.length + 7) target (ds.length + 1) at hapart
    have hkept : (memory.write target r'.a).Holds r'.pc (c.digits (target + 1) ds) := by
      apply Memory.Holds.write hrest
      intro i hi heq
      rw [c.length_digits] at hi
      apply hapart.drop i hi 0 (Nat.succ_pos _)
      exact heq.trans (UInt16.add_zero target).symm
    have hall := ih (h.digit hbinary hdigit) hbinary hkept hapart.drop.symm.drop.symm
    have hsteps : k + 3 + 3 * ds.length = k + 3 * (d :: ds).length := by
      rw [List.length_cons]
      omega
    have hcycles : cycles + 8 + 8 * ds.length = cycles + 8 * (d :: ds).length := by
      rw [List.length_cons]
      omega
    have hpc : r.pc + UInt16.ofNat (7 * (d :: ds).length) =
        r.pc + 7 + UInt16.ofNat (7 * ds.length) := by
      rw [List.length_cons, Nat.mul_succ, Nat.add_comm]
      exact add_ofNat_add r.pc 7 _
    rw [hsteps, hcycles, Registers.addDigits_pc, Registers.sums_pc] at hall
    rw [hpc]
    exact hall

end Machine

/-- A machine that is about to run a chain, for numbers of equally many bytes. Neither its code nor
its result goes on at address 0, and they have no cell in common. -/
structure Chain.Loaded (c : Chain) (m : Machine) (target : UInt16) (as bs : List UInt8) : Prop where
  running : m.cpu.halted = none
  binary : m.cpu.status.decimal = false
  nonempty : as ≠ []
  length : bs.length = as.length
  code : m.memory.readAll m.cpu.pc (7 * as.length + 1) = c.program target (as.zip bs)
  codeFits : m.cpu.pc.toNat + (7 * as.length + 1) ≤ UInt16.size
  resultFits : target.toNat + as.length ≤ UInt16.size
  apart : m.cpu.pc.toNat + (7 * as.length + 1) ≤ target.toNat ∨
    target.toNat + as.length ≤ m.cpu.pc.toNat

theorem Chain.Loaded.length_zip {c : Chain} {m : Machine} {target : UInt16} {as bs : List UInt8}
    (h : c.Loaded m target as bs) : (as.zip bs).length = as.length := by
  rw [List.length_zip, h.length, Nat.min_self]

/-- What a chain comes to from `m` on: its steps and cycles, the digits of the result modulo their
range, carry and overflow, and what stays as it was. -/
structure Chain.Computes (c : Chain) (m : Machine) (target : UInt16) (as bs : List UInt8) :
    Prop where
  runs : m.Runs (3 * as.length + 1)
  spent : m.spent (3 * as.length + 1) = 8 * as.length + 2
  value : (littleEndian ((m.after (3 * as.length + 1)).memory.readAll target as.length) : Int) =
    c.result (littleEndian as) (littleEndian bs) % (256 ^ as.length : Nat)
  carry : (m.after (3 * as.length + 1)).cpu.status.carry = true ↔
    c.Carries (256 ^ as.length) (littleEndian as) (littleEndian bs)
  overflow : (m.after (3 * as.length + 1)).cpu.status.overflow = true ↔
    ¬ SignedFits as.length (c.result (twosComplement as) (twosComplement bs))
  kept : ∀ address : UInt16,
    address.toNat < target.toNat ∨ target.toNat + as.length ≤ address.toNat →
      (m.after (3 * as.length + 1)).memory.read address = m.memory.read address
  x : (m.after (3 * as.length + 1)).cpu.x = m.cpu.x
  y : (m.after (3 * as.length + 1)).cpu.y = m.cpu.y
  sp : (m.after (3 * as.length + 1)).cpu.sp = m.cpu.sp

/-- The opening, then the digits. -/
theorem Chain.Loaded.leads {c : Chain} {m : Machine} {target : UInt16} {as bs : List UInt8}
    (h : c.Loaded m target as bs) :
    let r : Registers :=
      { m.cpu.toRegisters with status := m.cpu.status.set c.change.flag c.change.value }
    let terms := (as.zip bs).map c.term
    ∃ pc, m.Leads (3 * as.length + 1) (8 * as.length + 2) { r.addDigits terms with pc := pc }
      (m.memory.writeAll target (r.sums terms)) := by
  intro r terms
  have hlen := h.length_zip
  have hcode : m.memory.Holds m.cpu.pc (c.program target (as.zip bs)) := by
    have hprogram : (c.program target (as.zip bs)).length = 7 * as.length + 1 := by
      rw [program, List.length_cons, c.length_digits, hlen]
    rw [Memory.Holds, hprogram]
    exact h.code
  obtain ⟨hopening, hdigits⟩ := Memory.holds_cons.mp hcode
  have hfirst := (Machine.leads_zero h.running).succ (i := .changeFlag c.change)
    (by rw [← c.decode_opening, ← hopening]) rfl
  have hstart : m.Leads 1 2 { r with pc := m.cpu.pc + 1 } m.memory := hfirst
  have hbinary : r.status.decimal = false := by
    have hdecimal := h.binary
    cases c <;> exact hdecimal
  have hapart : Apart m.cpu.pc (7 * (as.zip bs).length + 1) target (as.zip bs).length := by
    rw [hlen]
    exact apart_of_ranges h.codeFits h.resultFits h.apart
  have hall := hstart.digits hbinary hdigits hapart.drop
  rw [hlen, Registers.addDigits_pc, Registers.sums_pc, Nat.add_comm 1, Nat.add_comm 2] at hall
  exact ⟨_, hall⟩

/-- A chain of sums or differences computes the sum or the difference of numbers of any number of
bytes: the carry of each digit goes into the next, and the last one tells of carry and overflow of
the whole. -/
theorem carry_chain {c : Chain} {m : Machine} {target : UInt16} {as bs : List UInt8}
    (h : c.Loaded m target as bs) : c.Computes m target as bs := by
  obtain ⟨pc, hleads⟩ := h.leads
  let r : Registers :=
    { m.cpu.toRegisters with status := m.cpu.status.set c.change.flag c.change.value }
  let terms := (as.zip bs).map c.term
  have hcarry : r.status.carry = c.change.value := by
    cases c <;> rfl
  have hfst : (as.zip bs).map Prod.fst = as := List.map_fst_zip h.length.ge
  have hsnd : (as.zip bs).map Prod.snd = bs := List.map_snd_zip h.length.le
  have hlen := h.length_zip
  have hne : as.zip bs ≠ [] := by
    intro hnil
    rw [hnil] at hfst
    exact h.nonempty hfst.symm
  have hsums : (r.sums terms).length = as.length := by
    rw [r.length_sums, List.length_map, hlen]
  obtain ⟨hvalue, hcarries⟩ := c.value_sums (as.zip bs) hcarry
  have hoverflow := c.overflow_sums hcarry hne
  rw [hfst, hsnd, hlen] at hvalue hcarries hoverflow
  obtain ⟨hx, hy, hsp⟩ := r.addDigits_kept terms
  have hstatus : (m.after (3 * as.length + 1)).cpu.status = (r.addDigits terms).status := by
    rw [hleads.registers]
  refine ⟨hleads.runs, hleads.spent, ?_, ?_, ?_, ?_, ?_, ?_, ?_⟩
  · have hfits : (r.sums terms).length ≤ UInt16.size := by
      have hresult := h.resultFits
      omega
    have hread := m.memory.readAll_writeAll target (r.sums terms) hfits
    rw [hsums] at hread
    rw [hleads.memory, hread]
    exact hvalue
  · rw [hstatus]
    exact hcarries
  · rw [hstatus]
    exact hoverflow
  · intro address haddress
    rw [← hsums] at haddress
    have hfits := h.resultFits
    rw [← hsums] at hfits
    rw [hleads.memory]
    exact m.memory.read_writeAll_of_outside hfits haddress
  · rw [hleads.registers]
    exact hx
  · rw [hleads.registers]
    exact hy
  · rw [hleads.registers]
    exact hsp

/-- The least number of two bytes, less one: it borrows nothing and overflows. -/
theorem carry_chain_overflowed :
    let m := Machine.holding (Chain.difference.program 0x10 ([0x00, 0x80].zip [0x01, 0x00]))
    Chain.difference.Loaded m 0x10 [0x00, 0x80] [0x01, 0x00] ∧ m.spent 7 = 18 ∧
      littleEndian ((m.after 7).memory.readAll 0x10 2) = 0x7FFF ∧
      (m.after 7).cpu.status.carry = true ∧ (m.after 7).cpu.status.overflow = true := by
  intro m
  have hloaded : Chain.difference.Loaded m 0x10 [0x00, 0x80] [0x01, 0x00] := {
    running := rfl
    binary := rfl
    nonempty := nofun
    length := rfl
    code := Memory.readAll_writeAll _ _ _ (by decide)
    codeFits := by decide
    resultFits := by decide
    apart := by decide }
  have hresult := carry_chain hloaded
  have hvalue := hresult.value
  have hcarry := hresult.carry.mpr (by decide)
  have hoverflow := hresult.overflow.mpr (by decide)
  exact ⟨hloaded, hresult.spent, Int.ofNat_inj.mp hvalue, hcarry, hoverflow⟩

end Mos6502
