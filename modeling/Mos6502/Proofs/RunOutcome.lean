import Mos6502.Proofs.History
import Mos6502.Proofs.Budget

namespace Mos6502

namespace Machine

variable {m : Machine} {slice : UInt32} {total : UInt64} {k : Nat}

/-- The machine after `k` calls for a slice each. -/
def sliced (m : Machine) (slice : UInt32) (k : Nat) : Machine :=
  (fun m => (m.execute slice).2)^[k] m

/-- What slice number `k` answers, counted from 0. -/
def sliceAnswer (m : Machine) (slice : UInt32) (k : Nat) : Except Fault UInt32 :=
  ((m.sliced slice k).execute slice).1

/-- The cycles that the first `k` slices tell of. -/
def sliceSpent (m : Machine) (slice : UInt32) (k : Nat) : Nat :=
  ∑ j ∈ Finset.range k, (cyclesTold (m.sliceAnswer slice j)).toNat

/-- Slice number `k` starts, if the ones before it end well. -/
def Starts (m : Machine) (slice : UInt32) (total : UInt64) (k : Nat) : Prop :=
  (m.sliced slice k).cpu.totalCycles < total

/-- The first `k` slices of a run start and end well. -/
structure Passes (m : Machine) (slice : UInt32) (total : UInt64) (k : Nat) : Prop where
  starts : ∀ j < k, m.Starts slice total j
  ok : ∀ j < k, ∃ used, m.sliceAnswer slice j = .ok used

theorem sliced_succ (m : Machine) (slice : UInt32) (k : Nat) :
    m.sliced slice (k + 1) = ((m.sliced slice k).execute slice).2 :=
  Function.iterate_succ_apply' _ k m

theorem execute_sliced {answer : Except Fault UInt32} (ha : m.sliceAnswer slice k = answer) :
    (m.sliced slice k).execute slice = (answer, m.sliced slice (k + 1)) := by
  rw [sliced_succ, ← ha]
  rfl

theorem sliceSpent_succ (m : Machine) (slice : UInt32) (k : Nat) :
    m.sliceSpent slice (k + 1) =
      m.sliceSpent slice k + (cyclesTold (m.sliceAnswer slice k)).toNat :=
  Finset.sum_range_succ _ k

theorem passes_zero (m : Machine) (slice : UInt32) (total : UInt64) : m.Passes slice total 0 where
  starts := fun j hj => absurd hj (Nat.not_lt_zero j)
  ok := fun j hj => absurd hj (Nat.not_lt_zero j)

theorem Passes.upTo (hk : m.Passes slice total k) {j : Nat} (hj : j ≤ k) :
    m.Passes slice total j where
  starts := fun i hi => hk.starts i (Nat.lt_of_lt_of_le hi hj)
  ok := fun i hi => hk.ok i (Nat.lt_of_lt_of_le hi hj)

theorem Passes.init (h : m.Passes slice total (k + 1)) : m.Passes slice total k :=
  h.upTo (Nat.le_succ k)

theorem Passes.succ (h : m.Passes slice total k) (hk : m.Starts slice total k) {used : UInt32}
    (ha : m.sliceAnswer slice k = .ok used) : m.Passes slice total (k + 1) where
  starts := by
    intro j hj
    rcases Nat.lt_succ_iff_lt_or_eq.mp hj with hlt | rfl
    · exact h.starts j hlt
    · exact hk
  ok := by
    intro j hj
    rcases Nat.lt_succ_iff_lt_or_eq.mp hj with hlt | rfl
    · exact h.ok j hlt
    · exact ⟨used, ha⟩

/-- The loop goes on behind the slices that it has passed. -/
theorem Passes.runSlices_eq (h : m.Passes slice total k) (limit done : Nat) :
    runSlices total slice (limit + k) done m =
      runSlices total slice limit (done + k) (m.sliced slice k) := by
  induction k generalizing limit with
  | zero => rfl
  | succ k ih =>
    obtain ⟨used, ha⟩ := h.ok k (Nat.lt_succ_self k)
    have hprefix := ih h.init (limit + 1)
    rw [runSlices_ok (h.starts k (Nat.lt_succ_self k)) (execute_sliced ha)] at hprefix
    rw [Nat.add_comm k 1, ← Nat.add_assoc, hprefix, Nat.add_comm 1 k, ← Nat.add_assoc]

theorem Passes.runSlices_reached (h : m.Passes slice total k) (hk : ¬ m.Starts slice total k)
    {limit : Nat} (hlimit : k ≤ limit) :
    runSlices total slice limit 0 m = (.ok k, m.sliced slice k) := by
  obtain ⟨rest, rfl⟩ := Nat.exists_eq_add_of_le' hlimit
  rw [h.runSlices_eq, Nat.zero_add]
  exact Machine.runSlices_reached hk slice rest k

theorem Passes.runSlices_stopped (h : m.Passes slice total k) (hk : m.Starts slice total k)
    {fault : Fault} (ha : m.sliceAnswer slice k = .error fault) {limit : Nat}
    (hlimit : k < limit) :
    runSlices total slice limit 0 m =
      (.error (.stopped (m.sliced slice (k + 1)).cpu.totalCycles fault),
        m.sliced slice (k + 1)) := by
  obtain ⟨rest, rfl⟩ := Nat.exists_eq_add_of_lt hlimit
  have hlen : k + rest + 1 = rest + 1 + k := by omega
  rw [hlen, h.runSlices_eq]
  exact runSlices_error hk (execute_sliced ha) rest (0 + k)

/-- Up to any number of slices, the total is reached, or a slice fails, or they all pass and one
more starts. -/
theorem exists_passes (m : Machine) (slice : UInt32) (total : UInt64) (limit : Nat) :
    (∃ k ≤ limit, m.Passes slice total k ∧ ¬ m.Starts slice total k) ∨
    (∃ k < limit, ∃ fault, m.Passes slice total k ∧ m.Starts slice total k ∧
      m.sliceAnswer slice k = .error fault) ∨
    m.Passes slice total limit ∧ m.Starts slice total limit := by
  induction limit with
  | zero =>
    by_cases hk : m.Starts slice total 0
    · exact .inr (.inr ⟨m.passes_zero slice total, hk⟩)
    · exact .inl ⟨0, Nat.le_refl 0, m.passes_zero slice total, hk⟩
  | succ limit ih =>
    rcases ih with ⟨k, hle, hend⟩ | ⟨k, hlt, hstop⟩ | ⟨hpasses, hstarts⟩
    · exact .inl ⟨k, Nat.le_succ_of_le hle, hend⟩
    · exact .inr (.inl ⟨k, Nat.lt_succ_of_lt hlt, hstop⟩)
    · cases ha : m.sliceAnswer slice limit with
      | error fault =>
        exact .inr (.inl ⟨limit, Nat.lt_succ_self limit, fault, hpasses, hstarts, ha⟩)
      | ok used =>
        have hnext := hpasses.succ hstarts ha
        by_cases hk : m.Starts slice total (limit + 1)
        · exact .inr (.inr ⟨hnext, hk⟩)
        · exact .inl ⟨limit + 1, Nat.le_refl _, hnext, hk⟩

/-- A slice overruns by less than an instruction, and one that ends well is spent. -/
theorem execute_bounds (h : m.cpu.halted = none) (slice : UInt32) :
    (cyclesTold (m.execute slice).1).toNat ≤ slice.toNat + 6 ∧
    ∀ used, (m.execute slice).1 = .ok used → slice.toNat ≤ used.toNat := by
  obtain ⟨k, hk⟩ := exists_slices m h slice.toNat 0
  cases hr : (m.execute slice).1 with
  | ok used =>
    obtain ⟨hleast, hmost, -⟩ := hk.bounds h hr
    refine ⟨hmost, ?_⟩
    rintro used ⟨⟩
    exact hleast
  | error fault =>
    obtain ⟨-, hmost⟩ := hk.cycles_of_error h hr
    exact ⟨Nat.le_succ_of_le hmost, nofun⟩

theorem Passes.running (h : m.cpu.halted = none) (hk : m.Passes slice total k) :
    (m.sliced slice k).cpu.halted = none := by
  cases k with
  | zero => exact h
  | succ k =>
    obtain ⟨used, ha⟩ := hk.ok k (Nat.lt_succ_self k)
    have hhalted := halted_call (Burst.run slice.toNat) (m.sliced slice k)
    rw [← execute, execute_sliced ha] at hhalted
    exact hhalted

/-- Every slice that passes is spent, and overrun by six cycles at most. -/
theorem Passes.bounds (h : m.cpu.halted = none) (hk : m.Passes slice total k) :
    k * slice.toNat ≤ m.sliceSpent slice k ∧ m.sliceSpent slice k ≤ k * (slice.toNat + 6) := by
  induction k with
  | zero => simp [sliceSpent]
  | succ k ih =>
    obtain ⟨hleast, hmost⟩ := ih hk.init
    obtain ⟨used, ha⟩ := hk.ok k (Nat.lt_succ_self k)
    obtain ⟨hover, hspent⟩ := execute_bounds (hk.init.running h) slice
    have hused := hspent used ha
    change (cyclesTold (m.sliceAnswer slice k)).toNat ≤ _ at hover
    rw [ha] at hover
    rw [sliceSpent_succ, ha, Nat.succ_mul, Nat.succ_mul]
    change _ ≤ _ + used.toNat ∧ _ + used.toNat ≤ _
    change used.toNat ≤ _ at hover
    omega

/-- What a slice tells that starts just below the total does not make the counter wrap. -/
def Room (total : UInt64) (slice : UInt32) : Prop :=
  total.toNat + min (slice.toNat + 6) (2 ^ 32 - 1) ≤ 2 ^ 64

/-- A slice that starts below the total has room on the counter, whether it ends well or not. -/
theorem unwrapped_sliced (h : (m.sliced slice k).cpu.halted = none) (hroom : Room total slice)
    (hk : m.Starts slice total k) :
    (m.sliced slice k).cpu.totalCycles.toNat + (cyclesTold (m.sliceAnswer slice k)).toNat <
      2 ^ 64 := by
  have hbelow := UInt64.lt_iff_toNat_lt.mp hk
  have hover := (execute_bounds h slice).1
  have htold := (cyclesTold (m.sliceAnswer slice k)).toNat_lt
  change (cyclesTold (m.sliceAnswer slice k)).toNat ≤ _ at hover
  rw [Room] at hroom
  omega

theorem toNat_totalCycles_sliced (h : (m.sliced slice k).cpu.halted = none)
    (hroom : Room total slice) (hk : m.Starts slice total k)
    (hcount : (m.sliced slice k).cpu.totalCycles.toNat = m.sliceSpent slice k) :
    (m.sliced slice (k + 1)).cpu.totalCycles.toNat = m.sliceSpent slice (k + 1) ∧
      m.sliceSpent slice (k + 1) ≤ total.toNat + slice.toNat + 5 := by
  have hbelow := UInt64.lt_iff_toNat_lt.mp hk
  have hover := (execute_bounds h slice).1
  have hfits := unwrapped_sliced h hroom hk
  rw [hcount] at hbelow hfits
  rw [sliced_succ, sliceSpent_succ, totalCycles_execute h, UInt64.toNat_add,
    UInt32.toNat_toUInt64, hcount]
  change (cyclesTold (m.sliceAnswer slice k)).toNat ≤ _ at hover
  change (_ + (cyclesTold (m.sliceAnswer slice k)).toNat) % _ = _ ∧ _
  omega

theorem Passes.counted (h : m.cpu.halted = none) (hzero : m.cpu.totalCycles = 0)
    (hroom : Room total slice) (hk : m.Passes slice total k) :
    (m.sliced slice k).cpu.totalCycles.toNat = m.sliceSpent slice k := by
  induction k with
  | zero =>
    change m.cpu.totalCycles.toNat = 0
    rw [hzero]
    rfl
  | succ k ih =>
    have hstarts := hk.starts k (Nat.lt_succ_self k)
    exact (toNat_totalCycles_sliced (hk.init.running h) hroom hstarts (ih hk.init)).1

/-- Slice number `k` is the first one that fails. -/
structure FailsAt (m : Machine) (slice : UInt32) (total : UInt64) (k : Nat) (fault : Fault) :
    Prop where
  passes : m.Passes slice total k
  starts : m.Starts slice total k
  answer : m.sliceAnswer slice k = .error fault

/-- A machine that is about to run an image: reset, but for the payload in its memory, and at the
start address, which is the address that the image names unless the client names another. -/
structure Ready (m : Machine) (image : List UInt8) (start : Option UInt16) (address : UInt16) :
    Prop where
  memory : ∃ lo hi payload, image = lo :: hi :: payload ∧ address = word lo hi ∧
    m.memory = Memory.zero.writeAll address payload
  cpu : m.cpu = { pc := start.getD address, sp := resetStackPointer }

theorem Ready.running {image : List UInt8} {start : Option UInt16} {address : UInt16}
    (h : m.Ready image start address) : m.cpu.halted = none :=
  congrArg Cpu.halted h.cpu

theorem Ready.totalCycles {image : List UInt8} {start : Option UInt16} {address : UInt16}
    (h : m.Ready image start address) : m.cpu.totalCycles = 0 :=
  congrArg Cpu.totalCycles h.cpu

end Machine

/-- What a run reports that succeeds: it has passed its slices, the last of which started below the
total, and their cycles are bounded by their number and by the total. -/
structure Report.Concludes (report : Report) (s : Settings) (m : Machine) : Prop where
  passes : m.Passes s.sliceCycles s.totalCycles report.slices
  cpu : report.machine.cpu = (m.sliced s.sliceCycles report.slices).cpu
  memory : report.machine.memory = (m.sliced s.sliceCycles report.slices).memory
  running : report.machine.cpu.halted = none
  counted : report.machine.cpu.totalCycles.toNat = m.sliceSpent s.sliceCycles report.slices
  reached : s.totalCycles ≤ report.machine.cpu.totalCycles
  cycles_zero : report.machine.cpu.totalCycles = 0 ↔ s.totalCycles = 0
  slices_zero : report.slices = 0 ↔ s.totalCycles = 0
  overrun : s.totalCycles ≠ 0 → report.machine.cpu.totalCycles.toNat ≤
    s.totalCycles.toNat + s.sliceCycles.toNat + 5
  least : report.slices * s.sliceCycles.toNat ≤ report.machine.cpu.totalCycles.toNat
  most : report.machine.cpu.totalCycles.toNat ≤ report.slices * (s.sliceCycles.toNat + 6)

theorem splitImage_eq_ok {image payload : List UInt8} {address : UInt16}
    (h : splitImage image = .ok (address, payload)) :
    ∃ lo hi, image = lo :: hi :: payload ∧ address = word lo hi := by
  unfold splitImage at h
  split at h
  · next lo hi b bs =>
    dsimp only at h
    split at h
    · cases h
      exact ⟨lo, hi, rfl, rfl⟩
    · cases h
  · cases h

namespace Machine

theorem load_refused {m m' : Machine} {image : List UInt8} {e : LoadError}
    (h : m.load image = (.error e, m')) : m' = m := by
  rw [load] at h
  cases hs : splitImage image with
  | error e' =>
    rw [hs] at h
    cases h
    rfl
  | ok loaded =>
    rw [hs] at h
    cases h

theorem ready_launched {journal : Journal} {image : List UInt8} {address : UInt16} {m : Machine}
    (h : (reset { journal }).load image = (.ok address, m)) (start : Option UInt16) :
    (m.launched address (start.getD address)).Ready image start address := by
  have hcpu := (reset { journal }).cpu_load image
  rw [h] at hcpu
  change m.cpu = _ at hcpu
  rw [load] at h
  cases hs : splitImage image with
  | error e =>
    rw [hs] at h
    cases h
  | ok loaded =>
    obtain ⟨lo, hi, himage, haddress⟩ := splitImage_eq_ok hs
    rw [hs] at h
    cases h
    exact ⟨⟨lo, hi, loaded.2, himage, haddress, rfl⟩, rfl⟩

end Machine

namespace Settings

variable {s : Settings} {m : Machine} {k : Nat} {address : UInt16}

/-- Slices that the counter of a run has room for, up to its total. -/
structure Counts (s : Settings) : Prop where
  positive : 0 < s.sliceCycles.toNat
  room : Machine.Room s.totalCycles s.sliceCycles

theorem Fits.counts (hs : s.Fits) : s.Counts where
  positive := hs.positive
  room := by
    have htotal := hs.total
    rw [Machine.Room]
    omega

/-- Slices that pass spend a cycle each, so that fewer of them than the total has cycles leave one
to start. -/
theorem Counts.passes_lt (hs : s.Counts) (h : m.cpu.halted = none) (hzero : m.cpu.totalCycles = 0)
    (hk : m.Passes s.sliceCycles s.totalCycles k)
    (hstarts : m.Starts s.sliceCycles s.totalCycles k) : k < s.totalCycles.toNat := by
  have hbelow := UInt64.lt_iff_toNat_lt.mp hstarts
  have hleast := (hk.bounds h).1
  have hslices := Nat.le_mul_of_pos_right k hs.positive
  rw [hk.counted h hzero hs.room] at hbelow
  omega

theorem Counts.exists_end (hs : s.Counts) (h : m.cpu.halted = none)
    (hzero : m.cpu.totalCycles = 0) :
    (∃ k ≤ s.totalCycles.toNat, m.Passes s.sliceCycles s.totalCycles k ∧
      ¬ m.Starts s.sliceCycles s.totalCycles k) ∨
    ∃ k fault, m.FailsAt s.sliceCycles s.totalCycles k fault := by
  rcases m.exists_passes s.sliceCycles s.totalCycles s.totalCycles.toNat with
    hend | ⟨k, -, fault, hpasses, hstarts, ha⟩ | ⟨hpasses, hstarts⟩
  · exact .inl hend
  · exact .inr ⟨k, fault, hpasses, hstarts, ha⟩
  · exact absurd (hs.passes_lt h hzero hpasses hstarts) (Nat.lt_irrefl _)

theorem passes_eq_zero (htotal : s.totalCycles = 0)
    (hk : m.Passes s.sliceCycles s.totalCycles k) : k = 0 := by
  by_contra hne
  have hfirst := UInt64.lt_iff_toNat_lt.mp (hk.starts 0 (Nat.pos_of_ne_zero hne))
  rw [htotal] at hfirst
  exact absurd hfirst (Nat.not_lt_zero _)

/-- What the loop leaves when the total is reached. -/
def concluded (s : Settings) (address : UInt16) (m : Machine) (k : Nat) : Report :=
  let m := m.sliced s.sliceCycles k
  { machine := m.record (.finished m.cpu.totalCycles k m.cpu.pc), loadAddress := address,
    slices := k }

theorem Counts.concludes (hs : s.Counts) (h : m.cpu.halted = none) (hzero : m.cpu.totalCycles = 0)
    (hk : m.Passes s.sliceCycles s.totalCycles k)
    (hend : ¬ m.Starts s.sliceCycles s.totalCycles k) :
    (s.concluded address m k).Concludes s m := by
  have hcount := hk.counted h hzero hs.room
  have hreached := hend
  rw [Machine.Starts, UInt64.lt_iff_toNat_lt, Nat.not_lt] at hreached
  obtain ⟨hleast, hmost⟩ := hk.bounds h
  rw [← hcount] at hleast hmost
  have hnone : s.totalCycles = 0 → (m.sliced s.sliceCycles k).cpu.totalCycles = 0 := by
    intro htotal
    rw [passes_eq_zero htotal hk]
    exact hzero
  refine ⟨hk, rfl, rfl, hk.running h, hcount, UInt64.le_iff_toNat_le.mpr hreached, ?_, ?_, ?_,
    hleast, hmost⟩
  · refine ⟨?_, hnone⟩
    intro hcycles
    change (m.sliced s.sliceCycles k).cpu.totalCycles = 0 at hcycles
    rw [hcycles] at hreached
    exact UInt64.toNat_inj.mp (Nat.le_zero.mp hreached)
  · refine ⟨?_, fun htotal => passes_eq_zero htotal hk⟩
    intro hslices
    change k = 0 at hslices
    rw [hslices] at hreached
    change _ ≤ m.cpu.totalCycles.toNat at hreached
    rw [hzero] at hreached
    exact UInt64.toNat_inj.mp (Nat.le_zero.mp hreached)
  · intro htotal
    change (m.sliced s.sliceCycles k).cpu.totalCycles.toNat ≤ _
    cases k with
    | zero =>
      change m.cpu.totalCycles.toNat ≤ _
      rw [hzero]
      exact Nat.zero_le _
    | succ k =>
      have hstarts := hk.starts k (Nat.lt_succ_self k)
      have hprefix := hk.init.counted h hzero hs.room
      rw [hcount]
      exact (Machine.toNat_totalCycles_sliced (hk.init.running h) hs.room hstarts
        hprefix).2

theorem carry_reached (hk : m.Passes s.sliceCycles s.totalCycles k)
    (hend : ¬ m.Starts s.sliceCycles s.totalCycles k) (hlimit : k ≤ s.totalCycles.toNat) :
    s.carry address m = .ok (s.concluded address m k) :=
  carry_ok (hk.runSlices_reached hend hlimit) address

theorem Counts.carry_failed (hs : s.Counts) (address : UInt16) (h : m.cpu.halted = none)
    (hzero : m.cpu.totalCycles = 0) {fault : Fault}
    (hk : m.FailsAt s.sliceCycles s.totalCycles k fault) :
    ∃ total, s.carry address m = .error (.stopped total fault) ∧
      total.toNat = m.sliceSpent s.sliceCycles (k + 1) := by
  have hlimit := hs.passes_lt h hzero hk.passes hk.starts
  have hprefix := hk.passes.counted h hzero hs.room
  have hcount := Machine.toNat_totalCycles_sliced (hk.passes.running h) hs.room hk.starts
    hprefix
  exact ⟨_, carry_error (hk.passes.runSlices_stopped hk.starts hk.answer hlimit) address, hcount.1⟩

end Settings

/-- The end of every run. Slices of no cycles are refused whatever the image is, and an image that
does not load is refused before any instruction has run. Otherwise a run ends: it reaches its
total and reports the machine after its slices, or one of them fails, and then the run tells the
fault and the cycles of all slices, those of the failing one included. -/
theorem run_outcome (image : List UInt8) (settings : Settings) (journal : Journal) :
    (settings.sliceCycles = 0 →
      runImage image settings journal = (.error .emptySlice, journal) ∧
        RunError.emptySlice.chain = ["slice_cycles must be greater than zero"]) ∧
    (settings.Fits →
      (∀ e, ((Machine.reset { journal }).load image).1 = .error e →
        runImage image settings journal =
            (.error (.notLoaded e), journal.record (.reset Machine.resetVector)) ∧
          (RunError.notLoaded e).chain = ["failed to load program", e.message]) ∧
      ∀ address, ((Machine.reset { journal }).load image).1 = .ok address →
        let m := ((Machine.reset { journal }).load image).2.launched address
          (settings.start.getD address)
        m.Ready image settings.start address ∧
        (∀ report, (runImage image settings journal).1 = .ok report →
          report.loadAddress = address ∧ report.Concludes settings m) ∧
        (∀ k fault, m.FailsAt settings.sliceCycles settings.totalCycles k fault →
          ∃ total, (runImage image settings journal).1 = .error (.stopped total fault) ∧
            total.toNat = m.sliceSpent settings.sliceCycles (k + 1) ∧
            (RunError.stopped total fault).chain =
              [s!"emulation stopped after {total} cycles", fault.message]) ∧
        ((∃ report, (runImage image settings journal).1 = .ok report) ∨
          ∃ k fault, m.FailsAt settings.sliceCycles settings.totalCycles k fault)) := by
  constructor
  · intro hs
    rw [runImage, if_pos hs]
    exact ⟨rfl, rfl⟩
  intro hs
  rcases hl : (Machine.reset { journal }).load image with ⟨e | address, m⟩
  · constructor
    · intro e he
      cases he
      rw [runImage, if_neg hs.sliceCycles_ne_zero, hl, Machine.load_refused hl]
      exact ⟨rfl, rfl⟩
    · intro address' ha
      cases ha
  · constructor
    · intro e he
      cases he
    intro address' ha
    cases ha
    have hready := Machine.ready_launched hl settings.start
    have hrunning := hready.running
    have hzero := hready.totalCycles
    rw [runImage_loaded hl hs.sliceCycles_ne_zero]
    refine ⟨hready, ?_, ?_, ?_⟩
    · intro report hrun
      rcases hs.counts.exists_end hrunning hzero with ⟨k, hle, hk, hend⟩ | ⟨k, fault, hk⟩
      · rw [Settings.carry_reached hk hend hle] at hrun
        cases hrun
        exact ⟨rfl, hs.counts.concludes hrunning hzero hk hend⟩
      · obtain ⟨total, hfailed, -⟩ := hs.counts.carry_failed address hrunning hzero hk
        rw [hfailed] at hrun
        cases hrun
    · intro k fault hk
      obtain ⟨total, hfailed, hcount⟩ := hs.counts.carry_failed address hrunning hzero hk
      exact ⟨total, hfailed, hcount, rfl⟩
    · rcases hs.counts.exists_end hrunning hzero with ⟨k, hle, hk, hend⟩ | hfails
      · exact .inl ⟨_, Settings.carry_reached hk hend hle⟩
      · exact .inr hfails

/-- One slice of one cycle runs an instruction of two, and so overruns the total. -/
theorem run_outcome_overrun :
    let image : List UInt8 := [0x00, 0x00, 0xEA]
    let settings : Settings := { program := "", totalCycles := 1, sliceCycles := 1 }
    settings.Fits ∧ ((Machine.reset {}).load image).1 = .ok 0 ∧
      ∃ report, (runImage image settings {}).1 = .ok report ∧ report.slices = 1 ∧
        report.machine.cpu.totalCycles = 2 ∧ report.loadAddress = 0 := by
  intro image settings
  have hfits : settings.Fits := ⟨by decide, by decide, by decide⟩
  let loaded : Machine := { Machine.holding [0xEA] with
    cpu := { pc := 0xFFFC, sp := 0xFF }
    journal := (({} : Journal).record (.reset 0xFFFC)).record (.loaded 1 0 0) }
  have hl : (Machine.reset {}).load image = (.ok 0, loaded) := rfl
  let m := loaded.launched 0 0
  have hread : ∀ a, m.memory.read a = [0xEA].getD a.toNat 0 :=
    Machine.read_holding [0xEA] (by decide)
  have hp : m.Performs .noOperation := ⟨rfl, congrArg decode (hread 0), rfl⟩
  have hfirst : m.execute 1 = (.ok 2, m.step.2) := by
    rw [Machine.execute_one rfl, hp.step_eq]
    rfl
  have hcycles : (m.sliced 1 1).cpu.totalCycles = 2 := by
    change (m.execute 1).2.cpu.totalCycles = 2
    rw [hfirst, hp.step_eq]
    rfl
  have hend : ¬ m.Starts 1 1 1 := by
    rw [Machine.Starts, hcycles]
    decide
  obtain ⟨-, hloads⟩ := run_outcome image settings {}
  obtain ⟨-, hloaded⟩ := hloads hfits
  rw [hl] at hloaded
  obtain ⟨-, hconcludes, -, ⟨report, hrun⟩ | ⟨k, fault, hk⟩⟩ := hloaded 0 rfl
  · obtain ⟨haddress, hreport⟩ := hconcludes report hrun
    have hpos : report.slices ≠ 0 := fun hslices =>
      absurd (hreport.slices_zero.mp hslices) (by decide)
    have hone : report.slices = 1 := by
      by_contra hne
      exact hend (hreport.passes.starts 1 (by omega))
    have htotal := congrArg Cpu.totalCycles hreport.cpu
    rw [hone] at htotal
    exact ⟨hfits, by rw [hl], report, hrun, hone, htotal.trans hcycles, haddress⟩
  · exfalso
    rcases Nat.lt_trichotomy k 1 with hlt | rfl | hgt
    · obtain rfl : k = 0 := Nat.lt_one_iff.mp hlt
      have hanswer : (m.execute 1).1 = .error fault := hk.answer
      rw [hfirst] at hanswer
      cases hanswer
    · exact hend hk.starts
    · exact hend (hk.passes.starts 1 hgt)

end Mos6502
