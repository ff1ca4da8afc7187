import Mathlib.Data.Finset.Card
import Mos6502.Proofs.Execute

namespace Mos6502

variable {α : Type} {s t : Finset UInt16}

theorem card_addresses_le (s : Finset UInt16) : s.card ≤ UInt16.size := by
  have hrange : ∀ a ∈ s, a.toNat ∈ Finset.range UInt16.size := by
    intro a ha
    exact Finset.mem_range.mpr a.toNat_lt_size
  have hinj : Set.InjOn UInt16.toNat s := by
    intro a ha b hb hab
    exact UInt16.toNat_inj.mp hab
  have hcard := Finset.card_le_card_of_injOn UInt16.toNat hrange hinj
  rwa [Finset.card_range] at hcard

namespace Memory

/-- Two memories hold the same bytes at the addresses of a set. -/
def AgreeOn (s : Finset UInt16) (m m' : Memory) : Prop := ∀ a ∈ s, m'.read a = m.read a

variable {m m' : Memory}

theorem AgreeOn.mono (h : m.AgreeOn t m') (hs : s ⊆ t) : m.AgreeOn s m' := by
  intro a ha
  exact h a (hs ha)

theorem AgreeOn.write (h : m.AgreeOn s m') (a : UInt16) (b : UInt8) :
    (m.write a b).AgreeOn s (m'.write a b) := by
  intro c hc
  simp only [read_write, h c hc]

end Memory

namespace Bus

/-- The addresses that a computation reads or writes on its way. -/
def footprint : Bus α → Memory → Finset UInt16
  | done _, _ => ∅
  | read a next, m => insert a ((next (m.read a)).footprint m)
  | write a b next, m => insert a (next.footprint (m.write a b))
  | idle next, m => next.footprint m

/-- Every address of the footprint is paid for with a cycle. -/
theorem card_footprint_le (p : Bus α) (m : Memory) : (p.footprint m).card ≤ (p.run m).cycles := by
  induction p generalizing m with
  | done v => simp [footprint]
  | read a next ih =>
    have hinsert := Finset.card_insert_le a ((next (m.read a)).footprint m)
    have hnext := ih (m.read a) m
    simp only [footprint, run, Outcome.after]
    omega
  | write a b next ih =>
    have hinsert := Finset.card_insert_le a (next.footprint (m.write a b))
    have hnext := ih (m.write a b)
    simp only [footprint, run, Outcome.after]
    omega
  | idle next ih =>
    have hnext := ih m
    simp only [footprint, run, Outcome.after]
    omega

theorem read_run_of_notMem (p : Bus α) (m : Memory) {a : UInt16} (h : a ∉ p.footprint m) :
    (p.run m).memory.read a = m.read a := by
  induction p generalizing m with
  | done v => rfl
  | read c next ih =>
    simp only [footprint, Finset.mem_insert, not_or] at h
    exact ih (m.read c) m h.2
  | write c b next ih =>
    simp only [footprint, Finset.mem_insert, not_or] at h
    have hnext := ih (m.write c b) h.2
    rw [m.read_write_of_ne b (Ne.symm h.1)] at hnext
    exact hnext
  | idle next ih => exact ih m h

/-- Two outcomes that differ at most in the bytes outside a set of addresses. -/
structure Outcome.Alike (s : Finset UInt16) (o o' : Outcome α) : Prop where
  value : o'.value = o.value
  cycles : o'.cycles = o.cycles
  memory : o.memory.AgreeOn s o'.memory

theorem Outcome.Alike.after {o o' : Outcome α} (h : o.Alike s o') (cycles : Nat) :
    (o.after cycles).Alike s (o'.after cycles) where
  value := h.value
  cycles := congrArg (cycles + ·) h.cycles
  memory := h.memory

/-- A computation goes the same way on two memories that agree on its footprint. -/
theorem run_alike (p : Bus α) {m m' : Memory} (hs : p.footprint m ⊆ s) (h : m.AgreeOn s m') :
    (p.run m).Alike s (p.run m') ∧ p.footprint m' = p.footprint m := by
  induction p generalizing m m' with
  | done v => exact ⟨⟨rfl, rfl, h⟩, rfl⟩
  | read a next ih =>
    simp only [footprint, Finset.insert_subset_iff] at hs
    have hbyte := h a hs.1
    have hnext := ih (m.read a) hs.2 h
    simp only [run, footprint, hbyte]
    exact ⟨hnext.1.after 1, by rw [hnext.2]⟩
  | write a b next ih =>
    simp only [footprint, Finset.insert_subset_iff] at hs
    have hnext := ih hs.2 (h.write a b)
    simp only [run, footprint]
    exact ⟨hnext.1.after 1, by rw [hnext.2]⟩
  | idle next ih =>
    have hnext := ih hs h
    simp only [run, footprint]
    exact ⟨hnext.1.after 1, hnext.2⟩

end Bus

namespace Burst

variable {b b' : Burst} {runs : Burst → Option Fault × Burst} {budget : Nat}

/-- Two bursts that differ at most in the bytes outside a set of addresses. -/
structure Alike (s : Finset UInt16) (b b' : Burst) : Prop where
  registers : b'.registers = b.registers
  journal : b'.journal = b.journal
  spent : b'.spent = b.spent
  memory : b.memory.AgreeOn s b'.memory

theorem Alike.refl (s : Finset UInt16) (b : Burst) : b.Alike s b :=
  ⟨rfl, rfl, rfl, fun _ _ => rfl⟩

theorem Alike.mono (h : b.Alike t b') (hs : s ⊆ t) : b.Alike s b' :=
  ⟨h.registers, h.journal, h.spent, h.memory.mono hs⟩

/-- What `runs` makes of a burst depends on the bytes of a set of addresses only, and it changes no
others, whatever the memory holds elsewhere. -/
structure Confined (runs : Burst → Option Fault × Burst) (s : Finset UInt16) (b : Burst) :
    Prop where
  fault : ∀ b', b.Alike s b' → (runs b').1 = (runs b).1
  alike : ∀ b', b.Alike s b' → (runs b).2.Alike s (runs b').2
  kept : ∀ b', b.Alike s b' → ∀ a ∉ s, (runs b').2.memory.read a = b'.memory.read a

/-- The cells that a larger set adds agree as they did before, since nothing changes them. -/
theorem Confined.mono (h : b.Confined runs s) (hs : s ⊆ t) : b.Confined runs t where
  fault := fun b' hb => h.fault b' (hb.mono hs)
  alike := by
    intro b' hb
    have hsmall := h.alike b' (hb.mono hs)
    refine ⟨hsmall.registers, hsmall.journal, hsmall.spent, ?_⟩
    intro a ha
    by_cases hmem : a ∈ s
    · exact hsmall.memory a hmem
    · rw [h.kept b' (hb.mono hs) a hmem, h.kept b (Alike.refl s b) a hmem]
      exact hb.memory a ha
  kept := by
    intro b' hb a ha
    exact h.kept b' (hb.mono hs) a fun hmem => ha (hs hmem)

theorem confined_advance (b : Burst) :
    b.Confined advance ((dispatch b.registers).footprint b.memory) := by
  let s := (dispatch b.registers).footprint b.memory
  have hrun (b' : Burst) (hb : b.Alike s b') :
      ((dispatch b.registers).run b.memory).Alike s ((dispatch b.registers).run b'.memory) ∧
        (dispatch b.registers).footprint b'.memory = s :=
    Bus.run_alike _ (Finset.Subset.refl s) hb.memory
  constructor
  · intro b' hb
    obtain ⟨hout, -⟩ := hrun b' hb
    simp only [advance, hb.registers, hb.spent, hout.value, hout.cycles]
  · intro b' hb
    obtain ⟨hout, -⟩ := hrun b' hb
    constructor
    · simp only [advance, hb.registers, hout.value]
    · simp only [advance, hb.registers, hb.journal, hout.value]
    · simp only [advance, hb.registers, hb.spent, hout.cycles]
    · simp only [advance, hb.registers]
      exact hout.memory
  · intro b' hb a ha
    obtain ⟨-, hfoot⟩ := hrun b' hb
    apply Bus.read_run_of_notMem
    rw [hb.registers, hfoot]
    exact ha

theorem Confined.congr {runs' : Burst → Option Fault × Burst} (h : b.Confined runs s)
    (heq : ∀ b', b.Alike s b' → runs' b' = runs b') : b.Confined runs' s where
  fault := by
    intro b' hb
    rw [heq b' hb, heq b (Alike.refl s b)]
    exact h.fault b' hb
  alike := by
    intro b' hb
    rw [heq b' hb, heq b (Alike.refl s b)]
    exact h.alike b' hb
  kept := by
    intro b' hb
    rw [heq b' hb]
    exact h.kept b' hb

theorem Confined.andThen {next : Burst → Option Fault × Burst} (h : b.Confined runs s)
    (hnext : (runs b).2.Confined next s) : b.Confined (fun b => next (runs b).2) s where
  fault := fun b' hb => hnext.fault _ (h.alike b' hb)
  alike := fun b' hb => hnext.alike _ (h.alike b' hb)
  kept := by
    intro b' hb a ha
    rw [hnext.kept _ (h.alike b' hb) a ha]
    exact h.kept b' hb a ha

theorem confined_ready (b : Burst) : b.Confined (fun b => (none, b)) ∅ where
  fault := fun _ _ => rfl
  alike := fun _ hb => hb
  kept := fun _ _ _ _ => rfl

theorem card_footprint_le_spent (b : Burst) :
    b.spent + ((dispatch b.registers).footprint b.memory).card ≤ b.advance.2.spent :=
  Nat.add_le_add_left (Bus.card_footprint_le _ _) b.spent

/-- By induction on the instructions that run: what the first one touches joins what the others
do, and the first one leaves the memories in agreement on both. -/
theorem exists_confined_run (budget : Nat) (b : Burst) :
    ∃ s : Finset UInt16, b.spent + s.card ≤ (b.run budget).2.spent ∧ b.Confined (run budget) s := by
  fun_induction Burst.run budget b with
  | case1 b h next hn ih =>
    let first := (dispatch b.registers).footprint b.memory
    obtain ⟨rest, hcard, hrest⟩ := ih
    have hfirst : b.spent + first.card ≤ next.2.spent := b.card_footprint_le_spent
    have hunion := Finset.card_union_le first rest
    have hadvance : b.Confined advance (first ∪ rest) :=
      b.confined_advance.mono Finset.subset_union_left
    refine ⟨first ∪ rest, by omega, ?_⟩
    apply (hadvance.andThen (hrest.mono Finset.subset_union_right)).congr
    intro b' hb
    exact run_next (by rwa [hb.spent]) ((hadvance.fault b' hb).trans hn)
  | case2 b h next fault hf =>
    refine ⟨_, b.card_footprint_le_spent, b.confined_advance.congr ?_⟩
    intro b' hb
    exact run_faulted (by rwa [hb.spent]) ((b.confined_advance.fault b' hb).trans hf)
  | case3 b h =>
    refine ⟨∅, Nat.le_refl _, b.confined_ready.congr ?_⟩
    intro b' hb
    exact run_spent (by rwa [hb.spent])

end Burst

namespace Machine

/-- What a call answers and does to the CPU depends on the bytes of a set of addresses only, no more
of them than the cycles that it tells. It changes no others, whatever the memory holds there. -/
structure Confined (call : Machine → Except Fault UInt32 × Machine) (s : Finset UInt16)
    (m : Machine) : Prop where
  paid : s.card ≤ (cyclesTold (call m).1).toNat
  answer : ∀ memory, m.memory.AgreeOn s memory → (call { m with memory }).1 = (call m).1
  cpu : ∀ memory, m.memory.AgreeOn s memory → (call { m with memory }).2.cpu = (call m).2.cpu
  journal : ∀ memory, m.memory.AgreeOn s memory →
    (call { m with memory }).2.journal = (call m).2.journal
  memory : ∀ memory, m.memory.AgreeOn s memory →
    (call m).2.memory.AgreeOn s (call { m with memory }).2.memory
  kept : ∀ memory, m.memory.AgreeOn s memory →
    ∀ a ∉ s, (call { m with memory }).2.memory.read a = memory.read a

variable {m : Machine} {runs : Burst → Option Fault × Burst}

theorem Confined.of_halted {fault : Fault} (h : m.cpu.halted = some fault) :
    m.Confined (call runs) ∅ := by
  have hself := call_halted runs m fault h
  have hcall (memory : Memory) := call_halted runs { m with memory } fault h
  constructor
  · exact Nat.zero_le _
  all_goals
    intro memory hmem
    rw [hcall memory]
  · rw [hself]
  · rw [hself]
  · rw [hself]
  · rw [hself]
    exact hmem
  · intro a ha
    rfl

theorem Confined.of_running (h : m.cpu.halted = none)
    (hf : ∀ fault, (runs (m.burst 0)).1 = some fault →
      fault.cycles = reported (runs (m.burst 0)).2.spent)
    (hcard : s.card ≤ (runs (m.burst 0)).2.spent) (hs : (m.burst 0).Confined runs s) :
    m.Confined (call runs) s := by
  have halike {memory : Memory} (hmem : m.memory.AgreeOn s memory) :
      (m.burst 0).Alike s (({ m with memory } : Machine).burst 0) := ⟨rfl, rfl, rfl, hmem⟩
  have hself := call_running runs m h
  have hcall (memory : Memory) := call_running runs { m with memory } h
  constructor
  · -- a set of more addresses than the largest count that is told would not fit into memory
    have hsize := card_addresses_le s
    rw [cyclesTold_call h hf, toNat_reported]
    exact Nat.le_min.mpr ⟨hcard, Nat.le_trans hsize (by decide)⟩
  all_goals
    intro memory hmem
    have hfault := hs.fault _ (halike hmem)
    have hafter := hs.alike _ (halike hmem)
    rw [hcall memory]
  · rw [hself, hfault, hafter.spent]
  · rw [hself, hfault, hafter.spent, hafter.registers]
  · rw [hself]
    exact hafter.journal
  · rw [hself]
    exact hafter.memory
  · exact hs.kept _ (halike hmem)

/-- The cells that a call changes are among those that it depends on. -/
theorem Confined.length_differences_le {call : Machine → Except Fault UInt32 × Machine}
    (h : m.Confined call s) :
    (m.memory.differences (call m).2.memory).length ≤ (cyclesTold (call m).1).toNat := by
  have hsubset : (m.memory.differences (call m).2.memory).toFinset ⊆ s := by
    intro a ha
    by_contra hout
    have hkept := h.kept m.memory (fun _ _ => rfl) a hout
    have hchanged := Memory.mem_differences.mp (List.mem_toFinset.mp ha)
    exact hchanged hkept.symm
  have hcard := Finset.card_le_card hsubset
  rw [List.toFinset_card_of_nodup (Memory.nodup_differences _ _)] at hcard
  exact Nat.le_trans hcard h.paid

theorem exists_confined_execute (m : Machine) (budget : UInt32) :
    ∃ s, m.Confined (execute budget) s := by
  cases h : m.cpu.halted with
  | some fault => exact ⟨∅, .of_halted h⟩
  | none =>
    obtain ⟨s, hcard, hs⟩ := (m.burst 0).exists_confined_run budget.toNat
    exact ⟨s, .of_running h (fun _ => Burst.cycles_run) (Nat.le_of_add_left_le hcard) hs⟩

theorem exists_confined_step (m : Machine) : ∃ s, m.Confined step s := by
  cases h : m.cpu.halted with
  | some fault => exact ⟨∅, .of_halted h⟩
  | none =>
    have hcard := (m.burst 0).card_footprint_le_spent
    exact ⟨_, .of_running h (fun _ => Burst.cycles_advance) (Nat.le_of_add_left_le hcard)
      (m.burst 0).confined_advance⟩

/-- Every access to memory is paid for, and nothing else matters: there are no more addresses than
the cycles a call tells, on which alone its answer and the CPU after it depend. A machine whose
memory agrees there goes the same way, both memories agree there afterwards, and each keeps its
other bytes. -/
theorem accesses_paid (m : Machine) :
    (∀ budget, (∃ s, m.Confined (execute budget) s) ∧
      (m.memory.differences (m.execute budget).2.memory).length ≤
        (cyclesTold (m.execute budget).1).toNat) ∧
    (∃ s, m.Confined step s) ∧
      (m.memory.differences m.step.2.memory).length ≤ (cyclesTold m.step.1).toNat := by
  constructor
  · intro budget
    obtain ⟨s, hs⟩ := m.exists_confined_execute budget
    exact ⟨⟨s, hs⟩, hs.length_differences_le⟩
  · obtain ⟨s, hs⟩ := m.exists_confined_step
    exact ⟨⟨s, hs⟩, hs.length_differences_le⟩

end Machine

end Mos6502
