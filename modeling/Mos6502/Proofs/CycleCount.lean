import Mathlib.Algebra.GroupWithZero.Nat
import Mos6502.Proofs.Execute
import Mos6502.Proofs.History

namespace Mos6502

namespace Entry

/-- The cycles that a call answered, if it succeeded. -/
def used (e : Entry) : Nat :=
  match e.answer with
  | some (.ok used) => used.toNat
  | _ => 0

def faultCycles (fault : Option Fault) : Nat := fault.elim 0 fun fault => fault.cycles.toNat

/-- The cycles that a client has counted since the last reset: those that calls answered, and those
that the first fault tells of. -/
def cycles (es : List Entry) : Nat := ((sinceReset es).map used).sum + faultCycles (firstFault es)

/-- What an entry adds to that count. A fault counts if no call has failed before. -/
def added (before : Option Fault) (e : Entry) : Nat :=
  match before, e.answer with
  | _, some (.ok used) => used.toNat
  | none, some (.error fault) => fault.cycles.toNat
  | _, _ => 0

theorem used_add_faultCycles (before : Option Fault) (e : Entry) :
    e.used + faultCycles (before.or e.fault) = faultCycles before + e.added before := by
  obtain ⟨op, answer⟩ := e
  cases before with
  | none =>
    rcases answer with _ | fault | used
    · rfl
    · rfl
    · exact Nat.add_comm _ _
  | some first => rcases answer with _ | fault | used <;> exact Nat.add_comm _ _

theorem added_of_none (before : Option Fault) (op : Operation) :
    (Entry.mk op none).added before = 0 := by
  cases before <;> rfl

theorem cycles_concat (es : List Entry) (e : Entry) :
    cycles (es ++ [e]) =
      if e.operation.resets then 0 else cycles es + e.added (firstFault es) := by
  rw [cycles, sinceReset, List.rtakeWhile_concat, firstFault_concat]
  cases e.operation.resets with
  | true => rfl
  | false =>
    change ((sinceReset es ++ [e]).map used).sum + faultCycles ((firstFault es).or e.fault) =
      cycles es + e.added (firstFault es)
    rw [List.map_append, List.sum_append, List.map_singleton, List.sum_singleton, Nat.add_assoc,
      used_add_faultCycles, ← Nat.add_assoc, cycles]

end Entry

namespace Machine

/-- A call adds to the counter what its answer tells, and nothing when the machine is halted. -/
theorem totalCycles_call_added {runs : Burst → Option Fault × Burst}
    (hf : ∀ b fault, (runs b).1 = some fault → fault.cycles = reported (runs b).2.spent)
    (m : Machine) (op : Operation) :
    (m.call runs).2.cpu.totalCycles =
      m.cpu.totalCycles +
        UInt64.ofNat ((Entry.mk op (some (m.call runs).1)).added m.cpu.halted) := by
  cases h : m.cpu.halted with
  | some fault =>
    rw [call_halted runs m fault h]
    exact (UInt64.add_zero _).symm
  | none =>
    have htold : ∀ answer, (Entry.mk op (some answer)).added none = (cyclesTold answer).toNat :=
      fun answer => by cases answer <;> rfl
    rw [totalCycles_call h (hf _), htold, toUInt64_eq]

/-- Of the operations that do not reset, just the calls of a running machine move its counter. -/
theorem totalCycles_apply (m : Machine) (op : Operation) :
    (op.apply m).cpu.totalCycles =
      if op.resets then 0
      else m.cpu.totalCycles + UInt64.ofNat ((Entry.mk op (op.answer m)).added m.cpu.halted) := by
  have hnone : ∀ op, m.cpu.totalCycles =
      m.cpu.totalCycles + UInt64.ofNat ((Entry.mk op none).added m.cpu.halted) := by
    intro op
    rw [Entry.added_of_none]
    exact (UInt64.add_zero _).symm
  cases op with
  | execute budget => exact totalCycles_call_added (fun _ _ => Burst.cycles_run) m _
  | step => exact totalCycles_call_added (fun _ _ => Burst.cycles_advance) m _
  | load image =>
    change (m.load image).2.cpu.totalCycles = _
    rw [cpu_load]
    exact hnone _
  | reset => rfl
  | resetTo start => rfl
  | _ => exact hnone _

/-- While a machine is halted, no operation answers a new count. -/
theorem added_of_halted {m : Machine} {fault : Fault} (h : m.cpu.halted = some fault)
    (op : Operation) : (Entry.mk op (op.answer m)).added m.cpu.halted = 0 := by
  have hcall : ∀ runs, (Entry.mk op (some (m.call runs).1)).added (some fault) = 0 := by
    intro runs
    rw [call_halted runs m fault h]
    rfl
  rw [h]
  cases op with
  | execute budget => exact hcall _
  | step => exact hcall _
  | _ => rfl

theorem totalCycles_perform (m : Machine) (hh : m.cpu.halted = none) (ht : m.cpu.totalCycles = 0)
    (ops : List Operation) :
    (m.perform ops).cpu.totalCycles = UInt64.ofNat (Entry.cycles (m.transcript ops)) := by
  induction ops using List.reverseRecOn with
  | nil => exact ht
  | append_singleton ops op ih =>
    rw [transcript_concat, Entry.cycles_concat, ← halted_perform m hh, perform_append]
    change (op.apply (m.perform ops)).cpu.totalCycles = _
    rw [totalCycles_apply, ih]
    split
    · rfl
    · rw [UInt64.ofNat_add]

/-- Over every history from a new machine on, the counter of the machine is the client's own count
of what the calls answered since the last reset, as long as that count is below 2^64. A reset sets
it back to 0; no other operation than a call moves it, nor does a call of a halted machine. -/
theorem counted_by_answers (memory : Memory) (journal : Journal) (ops : List Operation) :
    let fresh : Machine := { memory, journal }
    let m := fresh.perform ops
    let told := Entry.cycles (fresh.transcript ops)
    (told < 2 ^ 64 → m.cpu.totalCycles.toNat = told) ∧
    (∀ op : Operation, op.resets = true → (op.apply m).cpu.totalCycles = 0) ∧
    ∀ op : Operation, op.resets = false → op.answer m = none ∨ m.cpu.halted ≠ none →
      (op.apply m).cpu.totalCycles = m.cpu.totalCycles := by
  intro fresh m told
  refine ⟨?_, ?_, ?_⟩
  · intro hfits
    rw [fresh.totalCycles_perform rfl rfl ops, UInt64.toNat_ofNat']
    exact Nat.mod_eq_of_lt hfits
  · intro op ho
    rw [totalCycles_apply, ho]
    rfl
  · intro op ho hidle
    have hadded : (Entry.mk op (op.answer m)).added m.cpu.halted = 0 := by
      rcases hidle with hnone | hhalted
      · rw [hnone, Entry.added_of_none]
      · obtain ⟨fault, hf⟩ := Option.ne_none_iff_exists'.mp hhalted
        exact added_of_halted hf op
    rw [totalCycles_apply, ho, hadded]
    exact UInt64.add_zero _

theorem counted_by_answers_halted :
    let ops : List Operation := [.write 0 0xEA, .write 1 0x02, .step, .step, .execute 10, .setPc 0]
    let told := Entry.cycles (({} : Machine).transcript ops)
    told = 3 ∧ told < 2 ^ 64 ∧ (({} : Machine).perform ops).cpu.totalCycles.toNat = 3 := by
  intro ops told
  let start : Machine := Machine.perform {} [.write 0 0xEA, .write 1 0x02]
  have hfirst : start.memory.read 0 = 0xEA := by
    change ((Memory.zero.write 0 0xEA).write 1 0x02).read 0 = 0xEA
    rw [Memory.read_write_of_ne _ _ (by decide), Memory.read_write_self]
  have hsecond : start.memory.read 1 = 0x02 := Memory.read_write_self _ _ _
  have hp : start.Performs .noOperation := ⟨rfl, congrArg decode hfirst, rfl⟩
  have hok : start.step.1 = .ok 2 := by
    rw [hp.step_eq]
    rfl
  let next := start.step.2
  obtain ⟨-, -, -, hrunning⟩ := cost_of_ok hok
  have hunknown : next.instruction = none := by
    rw [hp.instruction_step]
    exact congrArg decode hsecond
  let fault : Fault := ⟨.unknownOpcode, next.memory.read next.cpu.pc, next.cpu.pc, 1⟩
  have herror : next.step.1 = .error fault := by rw [next.step_unknown hrunning hunknown]
  have hhalted : next.step.2.cpu.halted = some fault := by
    rw [next.step_unknown hrunning hunknown]
  have htold : told = 3 := by
    change Entry.cycles [⟨_, none⟩, ⟨_, none⟩, ⟨_, some start.step.1⟩, ⟨_, some next.step.1⟩,
      ⟨_, some (next.step.2.execute 10).1⟩, ⟨_, none⟩] = 3
    rw [hok, herror, execute, call_halted _ _ fault hhalted]
    rfl
  have hfits : told < 2 ^ 64 := by
    rw [htold]
    decide
  exact ⟨htold, hfits, ((counted_by_answers .zero {} ops).1 hfits).trans htold⟩

end Machine

end Mos6502
