import Mathlib.Algebra.BigOperators.Intervals
import Mos6502.Proofs.Execute
import Mos6502.Run

namespace Mos6502

/-- A count that a call can report exactly. -/
theorem toUInt64_reported {n : Nat} (h : n < 2 ^ 32) : (reported n).toUInt64 = UInt64.ofNat n := by
  have hr : (reported n).toNat = n := by
    rw [toNat_reported]
    exact Nat.min_eq_left (Nat.le_pred_of_lt h)
  rw [toUInt64_eq, hr]

namespace Machine

variable {m : Machine} {j k : Nat}

theorem after_add (m : Machine) (j k : Nat) : m.after (j + k) = (m.after j).after k := by
  rw [Nat.add_comm]
  exact Function.iterate_add_apply _ k j m

theorem answer_add (m : Machine) (j k : Nat) : m.answer (j + k) = (m.after j).answer k := by
  rw [answer, after_add]
  rfl

theorem spent_add (m : Machine) (j k : Nat) : m.spent (j + k) = m.spent j + (m.after j).spent k := by
  simp only [spent, Finset.sum_range_add, answer_add]

theorem runs_zero (m : Machine) : m.Runs 0 := fun j hj => absurd hj (Nat.not_lt_zero j)

theorem Runs.init (hk : m.Runs (k + 1)) : m.Runs k := fun j hj => hk j (Nat.lt_succ_of_lt hj)

/-- A run of successful steps ends before one that fails. -/
theorem Runs.le_of_error {fault : Fault} (hk : m.Runs k) (ha : m.answer j = .error fault) :
    k ≤ j := by
  by_contra hlt
  obtain ⟨used, hok⟩ := hk j (Nat.lt_of_not_le hlt)
  rw [ha] at hok
  cases hok

theorem Runs.add (hj : m.Runs j) (hk : (m.after j).Runs k) : m.Runs (j + k) := by
  intro i hi
  by_cases hij : i < j
  · exact hj i hij
  · obtain ⟨d, rfl⟩ := Nat.exists_eq_add_of_le (Nat.le_of_not_lt hij)
    rw [answer_add]
    exact hk d (by omega)

theorem Runs.running (h : m.cpu.halted = none) (hk : m.Runs k) : (m.after k).cpu.halted = none := by
  cases k with
  | zero => exact h
  | succ k =>
    obtain ⟨used, ha⟩ := hk k (Nat.lt_succ_self k)
    obtain ⟨i, hp, hc, hh⟩ := cost_of_ok ha
    rw [after_succ]
    exact hh

/-- Every step of a run takes two cycles at least. -/
theorem Runs.le_spent (hk : m.Runs k) (hj : j ≤ k) : m.spent j + 2 * (k - j) ≤ m.spent k := by
  induction k, hj using Nat.le_induction with
  | base => simp
  | succ k hjk ih =>
    obtain ⟨used, ha⟩ := hk k (Nat.lt_succ_self k)
    obtain ⟨i, hp, hc, -⟩ := cost_of_ok ha
    have hcost := cost_ge i (m.after k).cpu.toRegisters (m.after k).memory
    have hprefix := ih hk.init
    rw [spent_succ, ha]
    change _ ≤ _ + used.toNat
    omega

/-- No step takes more than seven cycles, whether it succeeds or fails. -/
theorem cyclesTold_step_le (h : m.cpu.halted = none) : (cyclesTold m.step.1).toNat ≤ 7 := by
  rcases m.running_cases h with hi | ⟨i, hi, hr⟩ | ⟨i, hp⟩
  · rw [step_unknown m h hi]
    change UInt32.toNat 1 ≤ 7
    decide
  · have hcost := cost_le hi m.cpu.toRegisters m.memory
    rw [← toNat_reported_cost hi] at hcost
    rw [step_refused m i h hi hr]
    exact hcost
  · have hcost := cost_le hp.current m.cpu.toRegisters m.memory
    rw [← toNat_reported_cost hp.current] at hcost
    rw [hp.step_eq]
    exact hcost

theorem totalCycles_step {used : UInt32} (h : m.step.1 = .ok used) :
    m.step.2.cpu.totalCycles = m.cpu.totalCycles + UInt64.ofNat used.toNat := by
  obtain ⟨i, hp⟩ := performs_of_ok h
  rw [← toUInt64_eq]
  rw [hp.step_eq] at h ⊢
  cases h
  rfl

/-- The counter of the machine counts the cycles of its steps, modulo its range. -/
theorem Runs.totalCycles (hk : m.Runs k) :
    (m.after k).cpu.totalCycles = m.cpu.totalCycles + UInt64.ofNat (m.spent k) := by
  induction k with
  | zero => exact (UInt64.add_zero _).symm
  | succ k ih =>
    obtain ⟨used, ha⟩ := hk k (Nat.lt_succ_self k)
    have hprefix := ih hk.init
    have htold : (cyclesTold (m.answer k)).toNat = used.toNat := by rw [ha]; rfl
    rw [after_succ, totalCycles_step ha, hprefix, spent_succ, htold, UInt64.ofNat_add,
      UInt64.add_assoc]

theorem Runs.toNat_totalCycles (hk : m.Runs k)
    (hfit : m.cpu.totalCycles.toNat + m.spent k < 2 ^ 64) :
    (m.after k).cpu.totalCycles.toNat = m.cpu.totalCycles.toNat + m.spent k := by
  rw [hk.totalCycles, UInt64.toNat_add, UInt64.toNat_ofNat']
  omega

/-- Runs of successful steps up to the first failing one are the same run. -/
theorem Runs.unique {fault fault' : Fault} (hj : m.Runs j) (ha : m.answer j = .error fault)
    (hk : m.Runs k) (ha' : m.answer k = .error fault') : j = k :=
  Nat.le_antisymm (hj.le_of_error ha') (hk.le_of_error ha)

/-- On a counter that starts at `base`, the steps that start below `bound` run and come to `goal`. -/
structure Reaches (m : Machine) (base goal bound k : Nat) : Prop where
  runs : m.Runs k
  goal : goal ≤ base + m.spent k
  early : ∀ j < k, base + m.spent j < bound

/-- On a counter that starts at `base`, the steps run up to one that starts below `bound` and
fails. -/
structure Fails (m : Machine) (base bound j : Nat) (fault : Fault) : Prop where
  runs : m.Runs j
  answer : m.answer j = .error fault
  early : base + m.spent j < bound

variable {base goal goal' bound bound' : Nat} {fault : Fault}

theorem Reaches.zero (h : goal ≤ base) : m.Reaches base goal bound 0 where
  runs := m.runs_zero
  goal := by
    rw [spent_zero]
    exact h
  early := fun j hj => absurd hj (Nat.not_lt_zero j)

theorem Reaches.trans (hj : m.Reaches base goal' bound' j) (hb : bound' ≤ bound)
    (hk : (m.after j).Reaches (base + m.spent j) goal bound k) :
    m.Reaches base goal bound (j + k) where
  runs := hj.runs.add hk.runs
  goal := by
    rw [spent_add, ← Nat.add_assoc]
    exact hk.goal
  early := by
    intro i hi
    by_cases hij : i < j
    · exact Nat.lt_of_lt_of_le (hj.early i hij) hb
    · obtain ⟨d, rfl⟩ := Nat.exists_eq_add_of_le (Nat.le_of_not_lt hij)
      rw [spent_add, ← Nat.add_assoc]
      exact hk.early d (by omega)

theorem Reaches.fails (hj : m.Reaches base goal' bound' j)
    (hk : (m.after j).Fails (base + m.spent j) bound k fault) :
    m.Fails base bound (j + k) fault where
  runs := hj.runs.add hk.runs
  answer := by
    rw [answer_add]
    exact hk.answer
  early := by
    rw [spent_add, ← Nat.add_assoc]
    exact hk.early

theorem Fails.widen (hj : m.Fails base bound j fault) (hb : bound ≤ bound') :
    m.Fails base bound' j fault :=
  ⟨hj.runs, hj.answer, Nat.lt_of_lt_of_le hj.early hb⟩

theorem Reaches.spent_le (h : m.cpu.halted = none) (hk : m.Reaches base goal bound k)
    (hb : base ≤ bound) : base + m.spent k ≤ bound + 6 := by
  cases k with
  | zero =>
    rw [spent_zero]
    omega
  | succ k =>
    have hlast := cyclesTold_step_le (hk.runs.init.running h)
    have hearly := hk.early k (Nat.lt_succ_self k)
    rw [spent_succ, answer]
    omega

theorem Fails.spent_le (h : m.cpu.halted = none) (hj : m.Fails base bound j fault) :
    base + m.spent (j + 1) ≤ bound + 6 := by
  have hlast := cyclesTold_step_le (hj.runs.running h)
  have hearly := hj.early
  rw [spent_succ, Machine.answer]
  omega

/-- The steps of a call come to the end of its budget, or to one that fails before. -/
theorem Slices.reaches_or_fails {budget : Nat} (hk : m.Slices budget 0 k) (base : Nat) :
    (m.Reaches base (base + budget) (base + budget) k ∧ ((m.burst 0).run budget).1 = none) ∨
    ∃ j fault, k = j + 1 ∧ m.Fails base (base + budget) j fault ∧
      ((m.burst 0).run budget).1 = some { fault with cycles := reported (m.spent k) } := by
  obtain ⟨⟨hends, hleast⟩, -, hresult⟩ := hk
  have hearly : ∀ j < k, base + m.spent j < base + budget := by
    intro j hj
    by_contra hle
    have hspent : m.Ends (budget - 0) j := .inr (by omega)
    have hjk := hleast hspent
    omega
  simp only [Nat.zero_add] at hresult
  rcases hresult with ⟨hn, hr⟩ | ⟨j, fault, rfl, hr, ha, hf⟩
  · left
    have hgoal : base + budget ≤ base + m.spent k := by
      rcases hends with ⟨j, fault, rfl, ha⟩ | hspent
      · exact absurd (hr.le_of_error ha) (Nat.not_succ_le_self j)
      · omega
    exact ⟨⟨hr, hgoal, hearly⟩, hn⟩
  · exact .inr ⟨j, fault, rfl, ⟨hr, ha, hearly j (Nat.lt_succ_self j)⟩, hf⟩

/-- A call whose cycles fit into its count leaves just what its steps leave, and its fault is that
of the last step but for the cycles. -/
theorem execute_ends (h : m.cpu.halted = none) (base : Nat) {slice : UInt32}
    (hs : slice.toNat ≤ 2 ^ 32 - 7) :
    (∃ k, m.Reaches base (base + slice.toNat) (base + slice.toNat) k ∧
      m.execute slice = (.ok (reported (m.spent k)), m.after k)) ∨
    ∃ j fault m', m.Fails base (base + slice.toNat) j fault ∧
      m.execute slice = (.error { fault with cycles := reported (m.spent (j + 1)) }, m') ∧
      m'.cpu.totalCycles = m.cpu.totalCycles + UInt64.ofNat (m.spent (j + 1)) := by
  obtain ⟨k, hk⟩ := exists_slices m h slice.toNat 0
  have hstate := hk.state
  have hexec := call_running (Burst.run slice.toNat) m h
  rw [← execute, hstate] at hexec
  simp only [Nat.zero_add] at hexec
  rcases hk.reaches_or_fails base with ⟨hreach, hn⟩ | ⟨j, fault, rfl, hfails, hf⟩
  · left
    have hle := hreach.spent_le h (Nat.le_add_right _ _)
    refine ⟨k, hreach, ?_⟩
    rw [hexec, hn]
    simp only [burst]
    rw [toUInt64_reported (by omega), ← hreach.runs.totalCycles, ← hreach.runs.running h]
  · right
    have hle := hfails.spent_le h
    refine ⟨j, fault, (m.execute slice).2, hfails, ?_, ?_⟩
    · rw [hexec, hf]
    · rw [hexec]
      simp only [burst]
      rw [toUInt64_reported (by omega)]

theorem runSlices_reached {total : UInt64} (h : ¬ m.cpu.totalCycles < total) (slice : UInt32)
    (limit done : Nat) : runSlices total slice limit done m = (.ok done, m) := by
  cases limit with
  | zero => rw [runSlices, if_neg h]
  | succ limit => rw [runSlices, if_neg h]

theorem runSlices_ok {total : UInt64} (h : m.cpu.totalCycles < total) {slice used : UInt32}
    {m' : Machine} (he : m.execute slice = (.ok used, m')) (limit done : Nat) :
    runSlices total slice (limit + 1) done m = runSlices total slice limit (done + 1) m' := by
  rw [runSlices, if_pos h, he]

theorem runSlices_error {total : UInt64} (h : m.cpu.totalCycles < total) {slice : UInt32}
    {m' : Machine} (he : m.execute slice = (.error fault, m')) (limit done : Nat) :
    runSlices total slice (limit + 1) done m =
      (.error (.stopped m'.cpu.totalCycles fault), m') := by
  rw [runSlices, if_pos h, he]

/-- What the slices of a run come to, told by its steps. A slice starts below the total, so every
step starts less than a slice beyond it. By induction on the slices that are left, each of which
spends a cycle at least. -/
theorem runSlices_ends (h : m.cpu.halted = none) {total : UInt64} {slice : UInt32}
    (hpos : 0 < slice.toNat) (hslice : slice.toNat ≤ 2 ^ 32 - 7)
    (hfit : total.toNat + slice.toNat + 6 < 2 ^ 64) {limit : Nat} (done : Nat)
    (hlimit : total.toNat ≤ m.cpu.totalCycles.toNat + limit) :
    (∃ k slices,
      m.Reaches m.cpu.totalCycles.toNat total.toNat (total.toNat + slice.toNat - 1) k ∧
      runSlices total slice limit done m = (.ok slices, m.after k)) ∨
    ∃ j fault cycles m',
      m.Fails m.cpu.totalCycles.toNat (total.toNat + slice.toNat - 1) j fault ∧
      runSlices total slice limit done m =
        (.error (.stopped (m.cpu.totalCycles + UInt64.ofNat (m.spent (j + 1)))
          { fault with cycles := cycles }), m') := by
  induction limit generalizing m done with
  | zero =>
    have hreached : ¬ m.cpu.totalCycles < total := by
      rw [UInt64.lt_iff_toNat_lt]
      omega
    exact .inl ⟨0, done, .zero hlimit, runSlices_reached hreached slice 0 done⟩
  | succ limit ih =>
    by_cases hlt : m.cpu.totalCycles < total
    · have hless := UInt64.lt_iff_toNat_lt.mp hlt
      have hbound : m.cpu.totalCycles.toNat + slice.toNat ≤ total.toNat + slice.toNat - 1 := by
        omega
      rcases execute_ends h m.cpu.totalCycles.toNat hslice with
        ⟨j, hj, he⟩ | ⟨j, fault, m', hj, he, ht⟩
      · have hle := hj.spent_le h (Nat.le_add_right _ _)
        have hgoal := hj.goal
        have hcounter := hj.runs.toNat_totalCycles (by omega)
        rw [runSlices_ok hlt he]
        rcases ih (hj.runs.running h) (done + 1) (by omega) with
          ⟨k, slices, hk, hrun⟩ | ⟨k, fault, cycles, m', hk, hrun⟩
        · rw [hcounter] at hk
          rw [hrun, ← after_add]
          exact .inl ⟨j + k, slices, hj.trans hbound hk, rfl⟩
        · rw [hcounter] at hk
          refine .inr ⟨j + k, fault, cycles, m', hj.fails hk, ?_⟩
          have hspent : m.spent (j + k + 1) = m.spent j + (m.after j).spent (k + 1) := by
            rw [Nat.add_assoc, spent_add]
          rw [hrun, hj.runs.totalCycles, hspent, UInt64.ofNat_add, UInt64.add_assoc]
      · rw [runSlices_error hlt he, ht]
        exact .inr ⟨j, fault, _, m', hj.widen hbound, rfl⟩
    · have hgoal := hlt
      rw [UInt64.lt_iff_toNat_lt] at hgoal
      exact .inl ⟨0, done, .zero (Nat.le_of_not_lt hgoal),
        runSlices_reached hlt slice (limit + 1) done⟩

/-- A call for one cycle carries out one instruction. -/
theorem execute_one (h : m.cpu.halted = none) : m.execute 1 = m.step := by
  have hrun : (m.burst 0).run (UInt32.toNat 1) = (m.burst 0).advance := by
    have hfirst : (m.burst 0).spent < UInt32.toNat 1 := Nat.zero_lt_one
    have hspent := (m.burst 0).spent_lt_advance
    rw [Burst.run, if_pos hfirst]
    rcases ha : (m.burst 0).advance with ⟨_ | fault, b⟩
    · have hsecond : ¬ b.spent < UInt32.toNat 1 := by
        rw [ha] at hspent
        exact Nat.not_lt_of_le (Nat.succ_le_of_lt hspent)
      change b.run _ = _
      rw [Burst.run, if_neg hsecond]
    · rfl
  rw [execute, step, call_running _ m h, call_running _ m h, hrun]

/-- Slices of one cycle come to the state after any number of steps, when the total asked for is
the counter of that state. -/
theorem runSlices_one (h : m.cpu.halted = none) (hk : m.Runs k)
    (hfit : m.cpu.totalCycles.toNat + m.spent k < 2 ^ 64) {limit : Nat} (hlimit : k ≤ limit)
    (done : Nat) :
    runSlices (m.after k).cpu.totalCycles 1 limit done m = (.ok (done + k), m.after k) := by
  induction k generalizing m limit done with
  | zero => exact runSlices_reached (UInt64.lt_irrefl _) 1 limit done
  | succ k ih =>
    obtain ⟨limit, rfl⟩ := Nat.exists_eq_add_one_of_ne_zero (Nat.ne_zero_of_lt hlimit)
    obtain ⟨used, hs⟩ := hk 0 (Nat.succ_pos k)
    change m.step.1 = .ok used at hs
    have hbelow : m.cpu.totalCycles < (m.after (k + 1)).cpu.totalCycles := by
      have hcount := hk.le_spent (Nat.zero_le _)
      rw [UInt64.lt_iff_toNat_lt, hk.toNat_totalCycles hfit]
      omega
    have hspent : m.spent (k + 1) = used.toNat + m.step.2.spent k := by
      rw [spent_succ_front, hs]
      rfl
    have hcounter : m.step.2.cpu.totalCycles.toNat = m.cpu.totalCycles.toNat + used.toNat := by
      rw [totalCycles_step hs, UInt64.toNat_add, UInt64.toNat_ofNat']
      omega
    obtain ⟨i, hp, hc, hrunning⟩ := cost_of_ok hs
    have he : m.execute 1 = (.ok used, m.step.2) := by
      rw [execute_one h, ← hs]
    rw [runSlices_ok hbelow he]
    have hrest : m.step.2.Runs k := fun j hj => hk (j + 1) (Nat.succ_lt_succ hj)
    have hslices := ih hrunning hrest (by omega) (Nat.le_of_succ_le_succ hlimit) (done + 1)
    rw [Nat.add_right_comm, Nat.add_assoc] at hslices
    exact hslices

/-- Steps that come to a total and steps that fail below it are not steps of one machine. -/
theorem Fails.not_reaches (hj : m.Fails base goal j fault) :
    ¬ m.Reaches base goal bound k := by
  intro hk
  have hspent := hj.runs.le_spent (hk.runs.le_of_error hj.answer)
  have hearly := hj.early
  have hgoal := hk.goal
  omega

theorem Fails.unique {fault' : Fault} (hj : m.Fails base bound j fault)
    (hk : m.Fails base bound' k fault') : k = j ∧ fault' = fault := by
  obtain rfl := hk.runs.unique hk.answer hj.runs hj.answer
  have ha := hj.answer
  rw [hk.answer] at ha
  exact ⟨rfl, Except.error.inj ha⟩

end Machine

/-- What a run comes to that starts on `m`, where an image is loaded at `address`. -/
def Settings.carry (s : Settings) (address : UInt16) (m : Machine) : Except RunError Report :=
  match runSlices s.totalCycles s.sliceCycles s.totalCycles.toNat 0 m with
  | (.error e, _) => .error e
  | (.ok slices, m) =>
    .ok { machine := m.record (.finished m.cpu.totalCycles slices m.cpu.pc)
          loadAddress := address, slices }

/-- A machine that is about to run an image from `start` on. -/
def Machine.launched (m : Machine) (address start : UInt16) : Machine :=
  { m with cpu := { m.cpu with pc := start } }.record (.started address start)

theorem runImage_loaded {image : List UInt8} {journal : Journal} {address : UInt16} {m : Machine}
    (hl : ({ journal } : Machine).reset.load image = (.ok address, m)) {s : Settings}
    (hs : s.sliceCycles ≠ 0) :
    (runImage image s journal).1 = s.carry address (m.launched address (s.start.getD address)) := by
  rw [runImage, if_neg hs, hl, Settings.carry, Machine.launched]
  dsimp only
  rcases runSlices _ _ _ _ _ with ⟨e | slices, m'⟩
  · rfl
  · rfl

/-- An image is refused whatever the counts are, or a run of it starts on the same machine whatever
they are. -/
theorem exists_launch (image : List UInt8) (start : Option UInt16) (journal : Journal) :
    (∃ e, ∀ s : Settings, s.sliceCycles ≠ 0 →
      (runImage image s journal).1 = .error (.notLoaded e)) ∨
    ∃ address m, m.cpu.halted = none ∧ m.cpu.totalCycles = 0 ∧
      ∀ s : Settings, s.start = start → s.sliceCycles ≠ 0 →
        (runImage image s journal).1 = s.carry address m := by
  have hcpu := ({ journal } : Machine).reset.cpu_load image
  rcases hl : ({ journal } : Machine).reset.load image with ⟨e | address, m⟩
  · left
    refine ⟨e, fun s hs => ?_⟩
    rw [runImage, if_neg hs, hl]
  · right
    rw [hl] at hcpu
    change m.cpu = _ at hcpu
    refine ⟨address, m.launched address (start.getD address), ?_, ?_, ?_⟩
    · change m.cpu.halted = none
      rw [hcpu]
      rfl
    · change m.cpu.totalCycles = 0
      rw [hcpu]
      rfl
    · rintro s rfl hs
      exact runImage_loaded hl hs

namespace Settings

theorem carry_ok {s : Settings} {m m' : Machine} {slices : Nat}
    (hrun : runSlices s.totalCycles s.sliceCycles s.totalCycles.toNat 0 m = (.ok slices, m'))
    (address : UInt16) :
    s.carry address m = .ok
      { machine := m'.record (.finished m'.cpu.totalCycles slices m'.cpu.pc)
        loadAddress := address, slices } := by
  rw [carry, hrun]

theorem carry_error {s : Settings} {m m' : Machine} {e : RunError}
    (hrun : runSlices s.totalCycles s.sliceCycles s.totalCycles.toNat 0 m = (.error e, m'))
    (address : UInt16) : s.carry address m = .error e := by
  rw [carry, hrun]

theorem ne_zero_of_positive {s : Settings} (h : 0 < s.sliceCycles.toNat) : s.sliceCycles ≠ 0 := by
  intro hzero
  rw [hzero] at h
  exact absurd h (Nat.lt_irrefl 0)

/-- Counts that the counters of a run hold: the last slice may start just below the total, and its
last instruction, of seven cycles at most, just below the end of the slice. -/
structure Fits (s : Settings) : Prop where
  positive : 0 < s.sliceCycles.toNat
  slice : s.sliceCycles.toNat ≤ 2 ^ 32 - 7
  total : s.totalCycles.toNat + s.sliceCycles.toNat + 6 < 2 ^ 64

namespace Fits

variable {s s' : Settings} {m : Machine} {address : UInt16} {total total' : UInt64}
  {fault fault' : Fault}

theorem sliceCycles_ne_zero (hs : s.Fits) : s.sliceCycles ≠ 0 :=
  ne_zero_of_positive hs.positive

theorem one (hs : s.Fits) : { s with sliceCycles := 1 }.Fits where
  positive := Nat.zero_lt_one
  slice := by
    change 1 ≤ 2 ^ 32 - 7
    decide
  total := by
    have htotal := hs.total
    have hpos := hs.positive
    change s.totalCycles.toNat + 1 + 6 < 2 ^ 64
    omega

/-- What a run comes to, told by the steps of the machine that it starts on. -/
theorem outcome (hs : s.Fits) (h : m.cpu.halted = none) (hzero : m.cpu.totalCycles = 0)
    (address : UInt16) :
    (∃ k slices,
      m.Reaches 0 s.totalCycles.toNat (s.totalCycles.toNat + s.sliceCycles.toNat - 1) k ∧
      s.carry address m = .ok
        { machine := (m.after k).record
            (.finished (m.after k).cpu.totalCycles slices (m.after k).cpu.pc)
          loadAddress := address, slices }) ∨
    ∃ j fault cycles,
      m.Fails 0 (s.totalCycles.toNat + s.sliceCycles.toNat - 1) j fault ∧
      s.carry address m =
        .error (.stopped (UInt64.ofNat (m.spent (j + 1))) { fault with cycles := cycles }) := by
  have hlimit : s.totalCycles.toNat ≤ m.cpu.totalCycles.toNat + s.totalCycles.toNat :=
    Nat.le_add_left _ _
  have hends := m.runSlices_ends h hs.positive hs.slice hs.total 0 hlimit
  rw [hzero] at hends
  rcases hends with ⟨k, slices, hk, hrun⟩ | ⟨j, fault, cycles, m', hj, hrun⟩
  · exact .inl ⟨k, slices, hk, carry_ok hrun address⟩
  · rw [UInt64.zero_add] at hrun
    exact .inr ⟨j, fault, cycles, hj, carry_error hrun address⟩

/-- The fault of a run is that of a step, after the cycles of the steps up to it. -/
theorem exists_fails (hs : s.Fits) (h : m.cpu.halted = none) (hzero : m.cpu.totalCycles = 0)
    (hrun : s.carry address m = .error (.stopped total fault)) :
    ∃ j fault' cycles,
      m.Fails 0 (s.totalCycles.toNat + s.sliceCycles.toNat - 1) j fault' ∧
      total = UInt64.ofNat (m.spent (j + 1)) ∧ fault = { fault' with cycles := cycles } := by
  rcases hs.outcome h hzero address with ⟨k, slices, hk, he⟩ | ⟨j, fault', cycles, hj, he⟩
  · rw [he] at hrun
    cases hrun
  · rw [he] at hrun
    cases hrun
    exact ⟨j, fault', cycles, hj, rfl, rfl⟩

/-- A run that succeeds is the run up to its cycles in slices of one. -/
theorem carry_one (hs : s.Fits) (h : m.cpu.halted = none) (hzero : m.cpu.totalCycles = 0)
    {report : Report} (hrun : s.carry address m = .ok report) :
    ∃ report', { s with totalCycles := report.machine.cpu.totalCycles, sliceCycles := 1 }.carry
        address m = .ok report' ∧
      report'.machine.cpu = report.machine.cpu ∧
      report'.machine.memory = report.machine.memory ∧
      report'.loadAddress = report.loadAddress := by
  rcases hs.outcome h hzero address with ⟨k, slices, hk, he⟩ | ⟨j, fault', cycles, hj, he⟩
  · rw [he] at hrun
    cases hrun
    have hspent := hk.spent_le h (Nat.zero_le _)
    have hfit : m.cpu.totalCycles.toNat + m.spent k < 2 ^ 64 := by
      have htotal := hs.total
      rw [hzero]
      change 0 + _ < _
      omega
    have hsteps : k ≤ (m.after k).cpu.totalCycles.toNat := by
      have hcount := hk.runs.le_spent (Nat.zero_le k)
      rw [hk.runs.toNat_totalCycles hfit]
      omega
    have hslices := Machine.runSlices_one h hk.runs hfit hsteps 0
    refine ⟨_, carry_ok hslices address, ?_⟩
    exact ⟨rfl, rfl, rfl⟩
  · rw [he] at hrun
    cases hrun

/-- A fault that slices of one cycle meet is below the total, so that all slices meet it. -/
theorem stopped_of_one (hs : s.Fits) (h : m.cpu.halted = none) (hzero : m.cpu.totalCycles = 0)
    (hrun : { s with sliceCycles := 1 }.carry address m = .error (.stopped total fault)) :
    ∃ cycles, s.carry address m = .error (.stopped total { fault with cycles }) := by
  obtain ⟨j, first, cycles, hj, rfl, rfl⟩ := hs.one.exists_fails h hzero hrun
  rcases hs.outcome h hzero address with ⟨k, slices, hk, he⟩ | ⟨j', first', cycles, hj', he⟩
  · exact absurd hk hj.not_reaches
  · obtain ⟨rfl, rfl⟩ := hj.unique hj'
    exact ⟨cycles, he⟩

theorem stopped_unique (hs : s.Fits) (hs' : s'.Fits) (h : m.cpu.halted = none)
    (hzero : m.cpu.totalCycles = 0)
    (hrun : s.carry address m = .error (.stopped total fault))
    (hrun' : s'.carry address m = .error (.stopped total' fault')) :
    total' = total ∧ ∃ cycles, fault' = { fault with cycles } := by
  obtain ⟨j, first, cycles, hj, rfl, rfl⟩ := hs.exists_fails h hzero hrun
  obtain ⟨j', first', cycles', hj', rfl, rfl⟩ := hs'.exists_fails h hzero hrun'
  obtain ⟨rfl, rfl⟩ := hj.unique hj'
  exact ⟨rfl, cycles', rfl⟩

end Fits

end Settings

/-- Slices of any size leave what single instructions leave. A run that succeeds with `C` cycles is
the run that is asked for `C` in slices of one cycle. A fault that such slices meet below the total
is met whatever the slices are, and all runs that meet one meet the same one after the same
cycles. -/
theorem run_of_any_slices (image : List UInt8) (settings : Settings) (journal : Journal)
    (h : settings.Fits) :
    (∀ report, (runImage image settings journal).1 = .ok report →
      ∃ report', (runImage image { settings with
          totalCycles := report.machine.cpu.totalCycles, sliceCycles := 1 } journal).1 =
            .ok report' ∧
        report'.machine.cpu = report.machine.cpu ∧
        report'.machine.memory = report.machine.memory ∧
        report'.loadAddress = report.loadAddress) ∧
    (∀ total fault,
      (runImage image { settings with sliceCycles := 1 } journal).1 =
        .error (.stopped total fault) →
      ∃ cycles, (runImage image settings journal).1 =
        .error (.stopped total { fault with cycles })) ∧
    (∀ slice, { settings with sliceCycles := slice }.Fits → ∀ total fault total' fault',
      (runImage image settings journal).1 = .error (.stopped total fault) →
      (runImage image { settings with sliceCycles := slice } journal).1 =
        .error (.stopped total' fault') →
      total' = total ∧ ∃ cycles, fault' = { fault with cycles }) := by
  have hone : (1 : UInt32) ≠ 0 := by decide
  rcases exists_launch image settings.start journal with
    ⟨e, hrefused⟩ | ⟨address, m, hrunning, hzero, hlaunch⟩
  · rw [hrefused settings h.sliceCycles_ne_zero, hrefused { settings with sliceCycles := 1 } hone]
    refine ⟨?_, ?_, ?_⟩
    · intro report hrun
      cases hrun
    · intro total fault hrun
      cases hrun
    · intro slice hslice total fault total' fault' hrun
      cases hrun
  · rw [hlaunch settings rfl h.sliceCycles_ne_zero,
      hlaunch { settings with sliceCycles := 1 } rfl hone]
    refine ⟨?_, ?_, ?_⟩
    · intro report hrun
      rw [hlaunch { settings with
        totalCycles := report.machine.cpu.totalCycles, sliceCycles := 1 } rfl hone]
      exact h.carry_one hrunning hzero hrun
    · intro total fault hrun
      exact h.stopped_of_one hrunning hzero hrun
    · intro slice hslice total fault total' fault' hrun hrun'
      rw [hlaunch { settings with sliceCycles := slice } rfl hslice.sliceCycles_ne_zero] at hrun'
      exact h.stopped_unique hslice hrunning hzero hrun hrun'

/-- An instruction of two cycles, then an unknown opcode, which one slice runs or three. -/
theorem run_of_any_slices_stopped :
    let image : List UInt8 := [0x00, 0x00, 0xEA, 0x02]
    let settings : Settings := { program := "", totalCycles := 10, sliceCycles := 5 }
    let fault : Fault := ⟨.unknownOpcode, 0x02, 1, 1⟩
    settings.Fits ∧
      (runImage image { settings with sliceCycles := 1 } {}).1 = .error (.stopped 3 fault) ∧
      ∃ cycles, (runImage image settings {}).1 = .error (.stopped 3 { fault with cycles }) := by
  intro image settings fault
  have hfits : settings.Fits := ⟨by decide, by decide, by decide⟩
  let loaded : Machine := { Machine.holding [0xEA, 0x02] with
    cpu := { pc := 0xFFFC, sp := 0xFF }
    journal := (({} : Journal).record (.reset 0xFFFC)).record (.loaded 2 0 1) }
  have hl : (Machine.reset {}).load image = (.ok 0, loaded) := rfl
  let m := loaded.launched 0 0
  have hread : ∀ a, m.memory.read a = [0xEA, 0x02].getD a.toNat 0 :=
    Machine.read_holding [0xEA, 0x02] (by decide)
  have hp : m.Performs .noOperation := ⟨rfl, congrArg decode (hread 0), rfl⟩
  have hcpu : m.step.2.cpu = { m.cpu with pc := 1, totalCycles := 2 } := by
    rw [hp.step_eq]
    rfl
  have hopcode : m.step.2.memory.read m.step.2.cpu.pc = 0x02 := by
    rw [hcpu, hp.step_eq]
    exact hread 1
  have hfault : m.step.2.step.1 = .error fault ∧ m.step.2.step.2.cpu.totalCycles = 3 := by
    rw [Machine.step_unknown _ (congrArg Cpu.halted hcpu) (congrArg decode hopcode), hopcode, hcpu]
    exact ⟨rfl, rfl⟩
  have hone : (runImage image { settings with sliceCycles := 1 } {}).1 =
      .error (.stopped 3 fault) := by
    have hfirst : m.execute 1 = (.ok 2, m.step.2) := by
      rw [Machine.execute_one rfl, hp.step_eq]
      rfl
    have hsecond : m.step.2.execute 1 = (.error fault, m.step.2.step.2) := by
      rw [Machine.execute_one (congrArg Cpu.halted hcpu), ← hfault.1]
    have hbelow : m.step.2.cpu.totalCycles < 10 := by
      rw [hcpu]
      decide
    have hslices : runSlices 10 1 10 0 m = (.error (.stopped 3 fault), m.step.2.step.2) := by
      rw [Machine.runSlices_ok (by decide) hfirst, Machine.runSlices_error hbelow hsecond, hfault.2]
    exact (runImage_loaded hl (by decide)).trans (Settings.carry_error hslices 0)
  obtain ⟨-, hstopped, -⟩ := run_of_any_slices image settings {} hfits
  exact ⟨hfits, hone, hstopped 3 fault hone⟩

end Mos6502
