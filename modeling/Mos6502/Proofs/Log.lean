import Mos6502.Proofs.RunOutcome

namespace Mos6502

namespace Journal

variable (j : Journal)

theorem recordAll_append (es es' : List Event) :
    j.recordAll (es ++ es') = (j.recordAll es).recordAll es' :=
  List.foldl_append

end Journal

namespace Event

/-- Those of some events that tell of an instruction. -/
def traces (es : List Event) : List Event := es.filter fun e => e.level = .trace

end Event

namespace Machine

variable {m m' : Machine} {k : Nat}

/-- What one step tells: of an instruction before it is carried out or refused, and of a fault. -/
def stepLog (m : Machine) : List Event :=
  let opcode := m.memory.read m.cpu.pc
  match m.cpu.halted, m.instruction with
  | some _, _ => []
  | none, none => [.unknownOpcode opcode m.cpu.toRegisters]
  | none, some i =>
    .dispatched m.cpu.pc opcode i ::
      if i.refused m.cpu.status then [.decimalRefused i m.cpu.pc] else []

/-- The events of the first `k` single steps. -/
def log (m : Machine) (k : Nat) : List Event := (List.range k).flatMap fun j => (m.after j).stepLog

/-- The event tells of the instruction at the program counter. -/
def Dispatches (m : Machine) (e : Event) : Prop :=
  ∃ i, m.instruction = some i ∧ e = .dispatched m.cpu.pc (m.memory.read m.cpu.pc) i

/-- The last of the first `k` single steps is the first one that fails. -/
def Stops (m : Machine) (k : Nat) : Prop :=
  ∃ j fault, k = j + 1 ∧ m.Runs j ∧ m.answer j = .error fault

/-- The events of `k` steps are those of `k` instructions, in order. -/
structure TellsAll (m : Machine) (k : Nat) : Prop where
  length : (m.log k).length = k
  traces : Event.traces (m.log k) = m.log k
  dispatched : ∀ j e, (m.log k)[j]? = some e → (m.after j).Dispatches e

/-- The events of `k` steps are those of instructions, in order, and behind them one of a fault. -/
structure TellsFault (m : Machine) (k : Nat) : Prop where
  last : ∃ last, last.level = .error ∧ m.log k = Event.traces (m.log k) ++ [last]
  dispatched : ∀ j e, (Event.traces (m.log k))[j]? = some e → (m.after j).Dispatches e

theorem log_succ (m : Machine) (k : Nat) : m.log (k + 1) = m.log k ++ (m.after k).stepLog := by
  simp [log, List.range_succ]

theorem log_add (m : Machine) (j k : Nat) : m.log (j + k) = m.log j ++ (m.after j).log k := by
  induction k with
  | zero => exact (List.append_nil _).symm
  | succ k ih =>
    rw [← Nat.add_assoc, log_succ, ih, log_succ, after_add, List.append_assoc]

theorem stepLog_of_performs {i : Instruction} (hp : m.Performs i) :
    m.stepLog = [.dispatched m.cpu.pc (m.memory.read m.cpu.pc) i] := by
  rw [stepLog, hp.running, hp.current]
  simp only [hp.admitted, Bool.false_eq_true, if_false]

theorem stepLog_of_refused {i : Instruction} (h : m.cpu.halted = none)
    (hi : m.instruction = some i) (hr : i.refused m.cpu.status = true) :
    m.stepLog = [.dispatched m.cpu.pc (m.memory.read m.cpu.pc) i, .decimalRefused i m.cpu.pc] := by
  rw [stepLog, h, hi]
  simp only [hr, if_true]

theorem stepLog_of_unknown (h : m.cpu.halted = none) (hi : m.instruction = none) :
    m.stepLog = [.unknownOpcode (m.memory.read m.cpu.pc) m.cpu.toRegisters] := by
  rw [stepLog, h, hi]

theorem Dispatches.level {e : Event} (he : m.Dispatches e) : e.level = .trace := by
  obtain ⟨i, -, rfl⟩ := he
  rfl

/-- A step that fails tells its fault last. -/
theorem stepLog_of_error (h : m.cpu.halted = none) {fault : Fault} (ha : m.step.1 = .error fault) :
    ∃ last, last.level = .error ∧ m.stepLog = Event.traces m.stepLog ++ [last] ∧
      ∀ j e, (Event.traces m.stepLog)[j]? = some e → j = 0 ∧ m.Dispatches e := by
  rcases m.running_cases h with hi | ⟨i, hi, hr⟩ | ⟨i, hp⟩
  · rw [stepLog_of_unknown h hi]
    refine ⟨_, rfl, rfl, ?_⟩
    intro j e he
    cases he
  · rw [stepLog_of_refused h hi hr]
    refine ⟨_, rfl, rfl, ?_⟩
    intro j e he
    cases j with
    | zero =>
      cases he
      exact ⟨rfl, i, hi, rfl⟩
    | succ j => cases he
  · rw [hp.step_eq] at ha
    cases ha

theorem Runs.dispatched (hk : m.Runs k) :
    (m.log k).length = k ∧ ∀ j e, (m.log k)[j]? = some e → (m.after j).Dispatches e := by
  induction k with
  | zero =>
    refine ⟨rfl, ?_⟩
    intro j e he
    cases he
  | succ k ih =>
    obtain ⟨hlength, htold⟩ := ih hk.init
    obtain ⟨i, hp⟩ := hk.performs (Nat.lt_succ_self k)
    rw [log_succ, stepLog_of_performs hp]
    refine ⟨by rw [List.length_append, hlength]; rfl, ?_⟩
    intro j e he
    rw [List.getElem?_append, hlength] at he
    split at he
    · exact htold j e he
    · rw [List.getElem?_singleton] at he
      split at he
      · obtain rfl : j = k := by omega
        cases he
        exact ⟨i, hp.current, rfl⟩
      · cases he

/-- Steps that succeed tell of their instructions and of no fault. -/
theorem Runs.tells (hk : m.Runs k) : m.TellsAll k := by
  obtain ⟨hlength, hdispatched⟩ := hk.dispatched
  refine ⟨hlength, ?_, hdispatched⟩
  apply List.filter_eq_self.mpr
  intro e he
  obtain ⟨j, hj⟩ := List.getElem?_of_mem he
  exact decide_eq_true (hdispatched j e hj).level

theorem traces_log_succ (m : Machine) (k : Nat) :
    Event.traces (m.log (k + 1)) =
      Event.traces (m.log k) ++ Event.traces (m.after k).stepLog := by
  rw [log_succ]
  exact List.filter_append _ _

/-- Steps up to one that fails tell of a fault once, at their end. -/
theorem Stops.tells (h : m.cpu.halted = none) (hk : m.Stops k) : m.TellsFault k := by
  obtain ⟨n, fault, rfl, hn, ha⟩ := hk
  obtain ⟨last, hlast, hlog, htold⟩ := stepLog_of_error (hn.running h) ha
  obtain ⟨hlength, htraces, hdispatched⟩ := hn.tells
  refine ⟨⟨last, hlast, ?_⟩, ?_⟩
  · rw [traces_log_succ, htraces, log_succ, List.append_assoc, ← hlog]
  · intro j e he
    rw [traces_log_succ, htraces, List.getElem?_append, hlength] at he
    split at he
    · exact hdispatched j e he
    · obtain ⟨hj, hlate⟩ := htold _ e he
      obtain rfl : j = n := by omega
      exact hlate

/-- The machine but for what it has counted and told. -/
def bare (m : Machine) : Machine where
  cpu := { toRegisters := m.cpu.toRegisters, halted := m.cpu.halted }
  memory := m.memory

theorem step_bare (m : Machine) :
    m.bare.step.1 = m.step.1 ∧ m.bare.step.2.bare = m.step.2.bare := by
  cases h : m.cpu.halted with
  | some fault =>
    rw [step, call_halted _ m fault h, call_halted _ m.bare fault h]
    exact ⟨rfl, rfl⟩
  | none =>
    rcases m.running_cases h with hi | ⟨i, hi, hr⟩ | ⟨i, hp⟩
    · rw [m.step_unknown h hi, m.bare.step_unknown h hi]
      exact ⟨rfl, rfl⟩
    · rw [m.step_refused i h hi hr, m.bare.step_refused i h hi hr]
      exact ⟨rfl, rfl⟩
    · have hbare : m.bare.Performs i := ⟨hp.running, hp.current, hp.admitted⟩
      rw [hp.step_eq, hbare.step_eq]
      exact ⟨rfl, rfl⟩

theorem after_bare (m : Machine) (k : Nat) : (m.bare.after k).bare = (m.after k).bare := by
  induction k with
  | zero => rfl
  | succ k ih =>
    rw [after_succ, after_succ, ← (step_bare _).2, ih, (step_bare _).2]

theorem after_congr (h : m'.bare = m.bare) (k : Nat) : (m'.after k).bare = (m.after k).bare := by
  rw [← after_bare, h, after_bare]

theorem answer_congr (h : m'.bare = m.bare) (k : Nat) : m'.answer k = m.answer k := by
  rw [answer, answer, ← (step_bare _).1, after_congr h, (step_bare _).1]

theorem log_congr (h : m'.bare = m.bare) (k : Nat) : m'.log k = m.log k := by
  have hstep : ∀ j, (m'.after j).stepLog = (m.after j).stepLog := by
    intro j
    change (m'.after j).bare.stepLog = (m.after j).bare.stepLog
    rw [after_congr h]
  simp only [log, hstep]

theorem Runs.congr (h : m'.bare = m.bare) (hk : m.Runs k) : m'.Runs k := by
  intro j hj
  rw [answer_congr h]
  exact hk j hj

theorem Stops.congr (h : m'.bare = m.bare) (hk : m.Stops k) : m'.Stops k := by
  obtain ⟨j, fault, hj, hruns, ha⟩ := hk
  rw [← answer_congr h] at ha
  exact ⟨j, fault, hj, hruns.congr h, ha⟩

/-- `m'` is what `m` is after `k` single steps, but for its counter and its fault, and it has told
what the steps tell. -/
structure Transcribes (m m' : Machine) (k : Nat) : Prop where
  registers : m'.cpu.toRegisters = (m.after k).cpu.toRegisters
  memory : m'.memory = (m.after k).memory
  journal : m'.journal = m.journal.recordAll (m.log k)

theorem Transcribes.bare (h : m.Transcribes m' k)
    (hhalted : m'.cpu.halted = (m.after k).cpu.halted) : m'.bare = (m.after k).bare := by
  rw [Machine.bare, Machine.bare, h.memory, h.registers, hhalted]

theorem Transcribes.trans {m'' : Machine} {j : Nat} (hj : m.Transcribes m' j)
    (hhalted : m'.cpu.halted = (m.after j).cpu.halted) (hk : m'.Transcribes m'' k) :
    m.Transcribes m'' (j + k) := by
  have hbare := hj.bare hhalted
  have hafter := after_congr hbare k
  rw [← after_add] at hafter
  refine ⟨?_, ?_, ?_⟩
  · rw [hk.registers]
    change (m'.after k).bare.cpu.toRegisters = (m.after (j + k)).bare.cpu.toRegisters
    rw [hafter]
  · rw [hk.memory]
    change (m'.after k).bare.memory = (m.after (j + k)).bare.memory
    rw [hafter]
  · rw [hk.journal, hj.journal, log_congr hbare, log_add, Journal.recordAll_append]

end Machine

/-- What is told before the first instruction of a run. -/
def opening (image : List UInt8) (address start : UInt16) : List Event :=
  [.reset Machine.resetVector,
    .loaded (image.length - 2) address (address + UInt16.ofNat (image.length - 3)),
    .started address start]

section Runs

variable {image : List UInt8} {settings : Settings} {journal : Journal} {address : UInt16}
  {start m : Machine} {k : Nat}

/-- A run that starts on `start`, with its opening told, and whose slices end on `m`, `k` steps
later. -/
structure Sliced (image : List UInt8) (settings : Settings) (journal : Journal) (address : UInt16)
    (start m : Machine) (k : Nat) : Prop where
  ready : start.Ready image settings.start address
  registers : m.cpu.toRegisters = (start.after k).cpu.toRegisters
  journal : m.journal = journal.recordAll (opening image address start.cpu.pc ++ start.log k)

theorem Sliced.running (h : Sliced image settings journal address start m k) :
    start.cpu.halted = none := by
  rw [h.ready.cpu]

end Runs

end Mos6502
