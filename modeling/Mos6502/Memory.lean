import Mos6502.Byte

namespace Mos6502

@[ext] structure Memory where
  cells : Vector UInt8 UInt16.size
  deriving DecidableEq

namespace Memory

def zero : Memory := ⟨Vector.replicate _ 0⟩

def read (m : Memory) (a : UInt16) : UInt8 :=
  have := a.toNat_lt_size
  m.cells[a.toNat]

def write (m : Memory) (a : UInt16) (v : UInt8) : Memory :=
  ⟨m.cells.set a.toNat v a.toNat_lt_size⟩

/-- Writes bytes one after another, going on at address 0 after the last address. -/
def writeAll (m : Memory) (a : UInt16) : List UInt8 → Memory
  | [] => m
  | v :: vs => (m.write a v).writeAll (a + 1) vs

/-- Reads `n` bytes one after another, going on at address 0 after the last address. -/
def readAll (m : Memory) (a : UInt16) : Nat → List UInt8
  | 0 => []
  | n + 1 => m.read a :: m.readAll (a + 1) n

/-- The addresses, ascending, at which `m` and `m'` hold different bytes. -/
def differences (m m' : Memory) : List UInt16 :=
  Nat.foldRev UInt16.size (fun i _ found =>
    let a := UInt16.ofNat i
    if m.read a = m'.read a then found else a :: found) []

def nonZeroCount (m : Memory) : Nat := m.cells.countP (· != 0)

def summary (m : Memory) : String :=
  s!"Memory \x7b size: {UInt16.size}, non_zero: {m.nonZeroCount} \x7d"

theorem read_zero (a : UInt16) : zero.read a = 0 := by
  simp [read, zero]

theorem read_write (m : Memory) (a b : UInt16) (v : UInt8) :
    (m.write a v).read b = if a = b then v else m.read b := by
  simp only [read, write, Vector.getElem_set, UInt16.toNat_inj]

theorem read_write_self (m : Memory) (a : UInt16) (v : UInt8) : (m.write a v).read a = v := by
  rw [read_write, if_pos rfl]

theorem read_write_of_ne (m : Memory) {a b : UInt16} (v : UInt8) (h : a ≠ b) :
    (m.write a v).read b = m.read b := by
  rw [read_write, if_neg h]

/-- Bytes that were written one after another stand in the place of what was there. -/
theorem read_writeAll (m : Memory) (a b : UInt16) (vs : List UInt8)
    (h : vs.length ≤ UInt16.size) :
    (m.writeAll a vs).read b = vs.getD (b - a).toNat (m.read b) := by
  induction vs generalizing m a with
  | nil => rfl
  | cons v vs ih =>
    rw [List.length_cons] at h
    have hb := b.toNat_lt
    have ha := a.toNat_lt
    rw [writeAll, ih _ _ (Nat.le_of_succ_le h), read_write]
    by_cases he : a = b
    · have hlast : (b - (a + 1)).toNat = 65535 := by
        subst b
        have hsub : a - (a + 1) = 0 - 1 := by
          rw [UInt16.sub_eq_iff_eq_add, UInt16.add_comm a, ← UInt16.add_assoc]
          exact (UInt16.zero_add a).symm
        rw [hsub]
        rfl
      have hout : vs.length ≤ 65535 := Nat.le_of_succ_le_succ h
      have hzero : b - a = 0 := by
        subst b
        exact UInt16.sub_self a
      rw [if_pos he, hlast, hzero, List.getD_eq_getElem?_getD, List.getElem?_eq_none hout]
      rfl
    · have hnext : (b - a).toNat = (b - (a + 1)).toNat + 1 := by
        have hne : a.toNat ≠ b.toNat := fun hn => he (UInt16.toNat_inj.mp hn)
        simp only [UInt16.toNat_sub, UInt16.toNat_add, UInt16.toNat_ofNat]
        omega
      rw [if_neg he, hnext]
      rfl

theorem read_writeAll_of_outside (m : Memory) {a address : UInt16} {vs : List UInt8}
    (hfit : a.toNat + vs.length ≤ UInt16.size)
    (h : address.toNat < a.toNat ∨ a.toNat + vs.length ≤ address.toNat) :
    (m.writeAll a vs).read address = m.read address := by
  have hbeyond : vs.length ≤ (address - a).toNat := by
    have hsize : UInt16.size = 2 ^ 16 := rfl
    have haddress := address.toNat_lt
    have ha := a.toNat_lt
    rw [UInt16.toNat_sub]
    omega
  rw [read_writeAll _ _ _ _ (by omega), List.getD_eq_getElem?_getD, List.getElem?_eq_none hbeyond]
  rfl

theorem foldRev_eq_filter {β : Type} (p : Nat → Prop) [DecidablePred p] (g : Nat → β) (n : Nat)
    (found : List β) :
    Nat.foldRev n (fun i _ found => if p i then found else g i :: found) found =
      ((List.range n).filter fun i => ¬ p i).map g ++ found := by
  induction n generalizing found with
  | zero => rfl
  | succ n ih =>
    rw [Nat.foldRev_succ, ih, List.range_succ]
    by_cases h : p n <;> simp [h]

theorem differences_eq (m m' : Memory) :
    m.differences m' = ((List.range UInt16.size).map UInt16.ofNat).filter
      fun a => ¬ m.read a = m'.read a := by
  rw [differences, foldRev_eq_filter fun i => m.read (UInt16.ofNat i) = m'.read (UInt16.ofNat i),
    List.append_nil, List.filter_map]
  rfl

theorem mem_differences {m m' : Memory} {a : UInt16} :
    a ∈ m.differences m' ↔ m.read a ≠ m'.read a := by
  have hmem : a ∈ (List.range UInt16.size).map UInt16.ofNat :=
    List.mem_map.mpr ⟨a.toNat, List.mem_range.mpr a.toNat_lt_size, UInt16.ofNat_toNat⟩
  simp [differences_eq, hmem]

theorem nodup_differences (m m' : Memory) : (m.differences m').Nodup := by
  rw [differences_eq]
  apply List.Pairwise.filter
  rw [List.pairwise_map]
  refine List.Pairwise.imp_of_mem ?_ List.nodup_range
  intro i j hi hj hne heq
  have hnat := congrArg UInt16.toNat heq
  rw [UInt16.toNat_ofNat_of_lt' (List.mem_range.mp hi),
    UInt16.toNat_ofNat_of_lt' (List.mem_range.mp hj)] at hnat
  exact hne hnat

theorem length_readAll (m : Memory) (a : UInt16) (n : Nat) : (m.readAll a n).length = n := by
  induction n generalizing a with
  | zero => rfl
  | succ n ih => simp [readAll, ih]

theorem getElem?_readAll (m : Memory) (a : UInt16) {n i : Nat} (h : i < n) :
    (m.readAll a n)[i]? = some (m.read (a + UInt16.ofNat i)) := by
  induction n generalizing a i with
  | zero => omega
  | succ n ih =>
    cases i with
    | zero =>
      change some (m.read a) = some (m.read (a + 0))
      rw [UInt16.add_zero]
    | succ i =>
      have hrest := ih (a + 1) (Nat.lt_of_succ_lt_succ h)
      rw [← add_ofNat_succ] at hrest
      exact hrest

theorem readAll_add (m : Memory) (a : UInt16) (j k : Nat) :
    m.readAll a (j + k) = m.readAll a j ++ m.readAll (a + UInt16.ofNat j) k := by
  induction j generalizing a with
  | zero =>
    change m.readAll a (0 + k) = m.readAll (a + 0) k
    rw [Nat.zero_add, UInt16.add_zero]
  | succ j ih =>
    rw [Nat.add_right_comm, readAll, ih, ← add_ofNat_succ]
    rfl

theorem readAll_congr {m m' : Memory} {a : UInt16} {n : Nat}
    (h : ∀ i < n, m'.read (a + UInt16.ofNat i) = m.read (a + UInt16.ofNat i)) :
    m'.readAll a n = m.readAll a n := by
  induction n generalizing a with
  | zero => rfl
  | succ n ih =>
    have hfirst := h 0 (Nat.succ_pos n)
    change m'.read (a + 0) = m.read (a + 0) at hfirst
    rw [UInt16.add_zero] at hfirst
    have hrest : m'.readAll (a + 1) n = m.readAll (a + 1) n := by
      apply ih
      intro i hi
      rw [← add_ofNat_succ]
      exact h (i + 1) (Nat.succ_lt_succ hi)
    rw [readAll, readAll, hfirst, hrest]

/-- Bytes that were written one after another are read back. -/
theorem readAll_writeAll (m : Memory) (a : UInt16) (vs : List UInt8)
    (h : vs.length ≤ UInt16.size) : (m.writeAll a vs).readAll a vs.length = vs := by
  apply List.ext_getElem?
  intro i
  by_cases hi : i < vs.length
  · have hoffset : (a + UInt16.ofNat i - a).toNat = i := by
      rw [UInt16.add_comm, UInt16.add_sub_cancel]
      exact UInt16.toNat_ofNat_of_lt' (Nat.lt_of_lt_of_le hi h)
    rw [getElem?_readAll _ _ hi, read_writeAll _ _ _ _ h, hoffset]
    simp [hi]
  · have hlen := (m.writeAll a vs).length_readAll a vs.length
    rw [List.getElem?_eq_none (by omega), List.getElem?_eq_none (by omega)]

end Memory

end Mos6502
