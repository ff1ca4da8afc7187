import Mathlib.Data.List.DropRight
import Mos6502.Image
import Mos6502.Proofs.Step

namespace Mos6502

/-- The fault that a call answers, if it fails. -/
def faultTold : Except Fault UInt32 → Option Fault
  | .ok _ => none
  | .error fault => some fault

/-- What a client can do to a machine. -/
inductive Operation where
  | execute (budget : UInt32)
  | step
  | setPc (pc : UInt16)
  | setSp (sp : UInt8)
  | setRegister (register : Register) (value : UInt8)
  | setFlag (flag : Flag) (value : Bool)
  | setStatus (status : Status)
  | write (address : UInt16) (value : UInt8)
  | load (image : List UInt8)
  | reset
  | resetTo (start : UInt16)

namespace Operation

/-- What a call that runs instructions answers. The other operations run none. -/
def answer (m : Machine) : Operation → Option (Except Fault UInt32)
  | execute budget => some (m.execute budget).1
  | step => some m.step.1
  | _ => none

/-- The machine after an operation. -/
def apply (m : Machine) : Operation → Machine
  | execute budget => (m.execute budget).2
  | step => m.step.2
  | setPc pc => { m with cpu := { m.cpu with pc } }
  | setSp sp => { m with cpu := { m.cpu with sp } }
  | setRegister register value =>
    { m with cpu := { m.cpu with toRegisters := m.cpu.toRegisters.set register value } }
  | setFlag flag value => { m with cpu := { m.cpu with status := m.cpu.status.set flag value } }
  | setStatus status => { m with cpu := { m.cpu with status } }
  | write address value => { m with memory := m.memory.write address value }
  | load image => (m.load image).2
  | reset => m.reset
  | resetTo start => m.resetTo start

def resets : Operation → Bool
  | reset | resetTo _ => true
  | _ => false

end Operation

/-- An operation of a history, with what it answered. -/
structure Entry where
  operation : Operation
  answer : Option (Except Fault UInt32)

namespace Entry

def fault (e : Entry) : Option Fault := e.answer.bind faultTold

/-- The end of a history, from behind its last reset on. -/
def sinceReset (es : List Entry) : List Entry := es.rtakeWhile fun e => !e.operation.resets

/-- The first fault that a call answered since the last reset. -/
def firstFault (es : List Entry) : Option Fault := (sinceReset es).findSome? fault

theorem firstFault_concat (es : List Entry) (e : Entry) :
    firstFault (es ++ [e]) = if e.operation.resets then none else (firstFault es).or e.fault := by
  rw [firstFault, sinceReset, List.rtakeWhile_concat]
  cases e.operation.resets with
  | true => rfl
  | false => simp [firstFault, sinceReset, List.findSome?_append]

end Entry

namespace Machine

def perform (m : Machine) (ops : List Operation) : Machine := ops.foldl Operation.apply m

def transcript (m : Machine) : List Operation → List Entry
  | [] => []
  | op :: ops => ⟨op, op.answer m⟩ :: (op.apply m).transcript ops

theorem perform_append (m : Machine) (ops ops' : List Operation) :
    m.perform (ops ++ ops') = (m.perform ops).perform ops' :=
  List.foldl_append

theorem transcript_concat (m : Machine) (ops : List Operation) (op : Operation) :
    m.transcript (ops ++ [op]) = m.transcript ops ++ [⟨op, op.answer (m.perform ops)⟩] := by
  induction ops generalizing m with
  | nil => rfl
  | cons first ops ih => exact congrArg (List.cons _) (ih (first.apply m))

/-- A call that answers a fault halts the machine with it, and any other one leaves it running. -/
theorem halted_call (runs : Burst → Option Fault × Burst) (m : Machine) :
    (m.call runs).2.cpu.halted = faultTold (m.call runs).1 := by
  cases h : m.cpu.halted with
  | some fault =>
    rw [call_halted runs m fault h]
    exact h
  | none =>
    rw [call_running runs m h]
    cases (runs (m.burst 0)).1 <;> rfl

theorem halted_or_call (runs : Burst → Option Fault × Burst) (m : Machine) :
    (m.call runs).2.cpu.halted = m.cpu.halted.or (faultTold (m.call runs).1) := by
  rw [halted_call]
  cases h : m.cpu.halted with
  | some fault =>
    rw [call_halted runs m fault h]
    rfl
  | none => rfl

/-- Only a call that fails halts a machine, only a reset has it run again, and a fault that is
there stays. -/
theorem halted_apply (m : Machine) (op : Operation) :
    (op.apply m).cpu.halted =
      if op.resets then none else m.cpu.halted.or ((op.answer m).bind faultTold) := by
  cases op with
  | execute budget => exact halted_or_call _ m
  | step => exact halted_or_call _ m
  | load image =>
    change (m.load image).2.cpu.halted = m.cpu.halted.or none
    rw [cpu_load, Option.or_none]
  | reset => rfl
  | resetTo start => rfl
  | _ => exact Option.or_none.symm

theorem halted_perform (m : Machine) (h : m.cpu.halted = none) (ops : List Operation) :
    (m.perform ops).cpu.halted = Entry.firstFault (m.transcript ops) := by
  induction ops using List.reverseRecOn with
  | nil => exact h
  | append_singleton ops op ih =>
    rw [transcript_concat, Entry.firstFault_concat, ← ih, perform_append]
    exact (m.perform ops).halted_apply op

theorem halted_stays {m : Machine} {fault : Fault} (h : m.cpu.halted = some fault)
    {ops : List Operation} (ho : ∀ op ∈ ops, op.resets = false) :
    (m.perform ops).cpu.halted = some fault := by
  induction ops generalizing m with
  | nil => exact h
  | cons op ops ih =>
    apply ih
    · rw [halted_apply, ho op List.mem_cons_self, h]
      rfl
    · exact fun op' hop => ho op' (List.mem_cons_of_mem op hop)

/-- A reset forgets all but the journal. -/
theorem apply_reset (m m' : Machine) {op : Operation} (h : op.resets = true) :
    (op.apply m).cpu = (op.apply m').cpu ∧ (op.apply m).memory = (op.apply m').memory := by
  cases op with
  | reset => exact ⟨rfl, rfl⟩
  | resetTo start => exact ⟨rfl, rfl⟩
  | _ => cases h

/-- Over every history from a new machine on, what halts the machine is the first fault that a call
answered since the last reset. Until the next reset every call answers just that fault and changes
nothing, whatever the client does in between, and a reset makes the machine like new. -/
theorem halted_by_first_fault (journal : Journal) (ops : List Operation) :
    let fresh : Machine := { journal }
    let m := fresh.perform ops
    m.cpu.halted = Entry.firstFault (fresh.transcript ops) ∧
    (∀ fault, m.cpu.halted = some fault →
      ∀ later : List Operation, (∀ op ∈ later, op.resets = false) →
        let m' := m.perform later
        m'.cpu.halted = some fault ∧ m'.step = (.error fault, m') ∧
          ∀ budget, m'.execute budget = (.error fault, m')) ∧
    ∀ op : Operation, op.resets = true →
      (op.apply m).cpu.halted = none ∧ (op.apply m).cpu = (op.apply fresh).cpu ∧
        (op.apply m).memory = (op.apply fresh).memory := by
  intro fresh m
  refine ⟨fresh.halted_perform rfl ops, ?_, ?_⟩
  · intro fault hf later hl
    have hstays := halted_stays hf hl
    exact ⟨hstays, call_halted _ _ fault hstays, fun budget => call_halted _ _ fault hstays⟩
  · intro op ho
    refine ⟨?_, m.apply_reset fresh ho⟩
    rw [halted_apply, ho]
    rfl

theorem halted_by_first_fault_rewritten :
    let m := Machine.perform {} [.write 0 0x02, .step]
    let m' := m.perform [.write 0 0xEA, .setPc 0]
    let fault : Fault := ⟨.unknownOpcode, 0x02, 0, 1⟩
    m.cpu.halted = some fault ∧ m'.instruction = some .noOperation ∧
      m'.execute 0 = (.error fault, m') := by
  intro m m' fault
  let written : Machine := Operation.apply {} (.write 0 0x02)
  have hopcode : written.memory.read 0 = 0x02 := Memory.read_write_self _ _ _
  have hunknown : written.instruction = none := congrArg decode hopcode
  have hm : m.cpu.halted = some fault := by
    change written.step.2.cpu.halted = _
    rw [step_unknown written rfl hunknown]
    exact congrArg (fun b => some (Fault.mk .unknownOpcode b 0 1)) hopcode
  have hi : m'.instruction = some .noOperation :=
    congrArg decode (Memory.read_write_self _ _ _)
  obtain ⟨-, hlater, -⟩ := halted_by_first_fault {} [.write 0 0x02, .step]
  obtain ⟨-, -, hexecute⟩ := hlater fault hm [.write 0 0xEA, .setPc 0] (by decide)
  exact ⟨hm, hi, hexecute 0⟩

end Machine

end Mos6502
