import Mos6502.Proofs.Idle
import Mos6502.Proofs.RunOutcome

namespace Mos6502

namespace Machine

variable {m : Machine} {s : Settings} {cost k : Nat}

/-- The loop of a run ends behind `k` slices, since they come to the total or since the next one
fails. No slice that starts makes the counter wrap. -/
structure Finishes (m : Machine) (s : Settings) (k : Nat) : Prop where
  few : k ≤ s.totalCycles.toNat
  passes : m.Passes s.sliceCycles s.totalCycles k
  unwrapped : ∀ j ≤ k, m.Starts s.sliceCycles s.totalCycles j →
    (m.sliced s.sliceCycles j).cpu.totalCycles.toNat +
      (cyclesTold (m.sliceAnswer s.sliceCycles j)).toNat < 2 ^ 64
  ended : ¬ m.Starts s.sliceCycles s.totalCycles k ∨
    ∃ fault, m.sliceAnswer s.sliceCycles k = .error fault

theorem Passes.finishes (hk : m.Passes s.sliceCycles s.totalCycles k) (hs : s.Counts)
    (h : m.cpu.halted = none) (hfew : k ≤ s.totalCycles.toNat)
    (hended : ¬ m.Starts s.sliceCycles s.totalCycles k ∨
      ∃ fault, m.sliceAnswer s.sliceCycles k = .error fault) : m.Finishes s k where
  few := hfew
  passes := hk
  unwrapped := by
    intro j hj hstarts
    exact unwrapped_sliced ((hk.upTo hj).running h) hs.room hstarts
  ended := hended

theorem Idles.sliced_eq (h : m.Idles cost) (slice : UInt32) (k : Nat) :
    m.sliced slice k =
      m.waited ((reported (afterRounds slice.toNat 0 cost)).toNat * k) := by
  induction k with
  | zero => exact m.waited_zero.symm
  | succ k ih =>
    rw [sliced_succ, ih, (h.waited _).execute_eq, waited_waited]
    rfl

theorem Idles.sliceAnswer_eq (h : m.Idles cost) (slice : UInt32) (k : Nat) :
    m.sliceAnswer slice k = .ok (reported (afterRounds slice.toNat 0 cost)) := by
  rw [sliceAnswer, h.sliced_eq, (h.waited _).execute_eq]

/-- A loop of four cycles in slices of four: the counter goes up in fours, and wraps to zero. -/
theorem Idles.totalCycles_sliced (h : m.Idles 4) (hzero : m.cpu.totalCycles = 0) (k : Nat) :
    (m.sliced 4 k).cpu.totalCycles.toNat = 4 * k % 2 ^ 64 := by
  have htotal : (m.sliced 4 k).cpu.totalCycles = m.cpu.totalCycles + UInt64.ofNat (4 * k) := by
    rw [h.sliced_eq]
    rfl
  rw [htotal, hzero, UInt64.zero_add, UInt64.toNat_ofNat']

end Machine

/-- For every program and whatever the counts are for which the counter has room, a run ends: its
image is refused, or it comes to its total, or a slice fails. -/
theorem run_ends (image : List UInt8) (settings : Settings) (journal : Journal)
    (h : settings.Counts) :
    (∀ e, ((Machine.reset { journal }).load image).1 = .error e →
      (runImage image settings journal).1 = .error (.notLoaded e)) ∧
    ∀ address, ((Machine.reset { journal }).load image).1 = .ok address →
      let m := ((Machine.reset { journal }).load image).2.launched address
        (settings.start.getD address)
      m.Ready image settings.start address ∧
      ∃ k, m.Finishes settings k ∧
        ((∃ report, (runImage image settings journal).1 = .ok report ∧ report.slices = k ∧
            settings.totalCycles ≤ report.machine.cpu.totalCycles) ∨
          ∃ total fault, (runImage image settings journal).1 = .error (.stopped total fault) ∧
            m.FailsAt settings.sliceCycles settings.totalCycles k fault) := by
  have hslice := Settings.ne_zero_of_positive h.positive
  rcases hl : (Machine.reset { journal }).load image with ⟨e | address, m⟩
  · constructor
    · intro e he
      cases he
      rw [runImage, if_neg hslice, hl]
    · intro address ha
      cases ha
  · constructor
    · intro e he
      cases he
    intro address' ha
    cases ha
    have hready := Machine.ready_launched hl settings.start
    have hrunning := hready.running
    have hzero := hready.totalCycles
    rw [runImage_loaded hl hslice]
    refine ⟨hready, ?_⟩
    rcases h.exists_end hrunning hzero with ⟨k, hle, hk, hend⟩ | ⟨k, fault, hk⟩
    · refine ⟨k, hk.finishes h hrunning hle (.inl hend), .inl ?_⟩
      refine ⟨_, Settings.carry_reached hk hend hle, rfl, ?_⟩
      exact (h.concludes hrunning hzero hk hend).reached
    · have hlt := h.passes_lt hrunning hzero hk.passes hk.starts
      obtain ⟨total, hfailed, -⟩ := h.carry_failed address hrunning hzero hk
      refine ⟨k, hk.passes.finishes h hrunning hlt.le (.inr ⟨fault, hk.answer⟩), .inr ?_⟩
      exact ⟨total, fault, hfailed, hk⟩

/-- The last slice of four cycles has just the room that it may need. -/
theorem run_ends_last :
    let settings : Settings :=
      { program := "", totalCycles := 0xFFFFFFFFFFFFFFF6, sliceCycles := 4 }
    settings.Counts ∧ ((Machine.reset {}).load loopImage).1 = .ok 0x10FE ∧
      ∃ report, (runImage loopImage settings {}).1 = .ok report ∧
        settings.totalCycles ≤ report.machine.cpu.totalCycles := by
  intro settings
  have hcounts : settings.Counts := by
    refine ⟨by decide, ?_⟩
    rw [Machine.Room]
    decide
  have hl : ((Machine.reset {}).load loopImage).1 = .ok 0x10FE := rfl
  obtain ⟨-, hloads⟩ := run_ends loopImage settings {} hcounts
  obtain ⟨-, k, -, ⟨report, hrun, -, hreached⟩ | ⟨total, fault, -, hfails⟩⟩ := hloads 0x10FE hl
  · exact ⟨hcounts, hl, report, hrun, hreached⟩
  · have hanswer : loopMachine.sliceAnswer 4 k = .error fault := hfails.answer
    rw [idles_loopMachine.sliceAnswer_eq] at hanswer
    cases hanswer

/-- The counter goes up in fours, and misses the largest total on its way round. -/
theorem passes_loopMachine (k : Nat) :
    loopMachine.Passes 4 0xFFFFFFFFFFFFFFFF k ∧ loopMachine.Starts 4 0xFFFFFFFFFFFFFFFF k := by
  have hstarts : ∀ j, loopMachine.Starts 4 0xFFFFFFFFFFFFFFFF j := by
    intro j
    have hcounter := idles_loopMachine.totalCycles_sliced rfl j
    rw [Machine.Starts, UInt64.lt_iff_toNat_lt, hcounter]
    change _ < 2 ^ 64 - 1
    omega
  exact ⟨⟨fun j _ => hstarts j, fun j _ => ⟨_, idles_loopMachine.sliceAnswer_eq 4 j⟩⟩, hstarts k⟩

/-- Asked for the largest total, the loop does not end, however many slices it is given. The counter
is back at zero behind `2 ^ 62` of them. -/
theorem run_wraps :
    let settings : Settings :=
      { program := "loop.prg", totalCycles := 0xFFFFFFFFFFFFFFFF, sliceCycles := 4 }
    Settings.ofArguments ["loop.prg", "18446744073709551615", "4"] = .ok settings ∧
      ((Machine.reset {}).load loopImage).1 = .ok 0x10FE ∧
      (∀ limit, runSlices settings.totalCycles settings.sliceCycles limit 0 loopMachine =
        (.error (.unfinished limit), loopMachine.sliced settings.sliceCycles limit)) ∧
      ∃ k, (loopMachine.sliced settings.sliceCycles k).cpu.totalCycles.toNat +
        (cyclesTold (loopMachine.sliceAnswer settings.sliceCycles k)).toNat = 2 ^ 64 := by
  intro settings
  refine ⟨rfl, rfl, ?_, ?_⟩
  · intro limit
    obtain ⟨hpasses, hstarts⟩ := passes_loopMachine limit
    have hloop := hpasses.runSlices_eq 0 0
    rw [Nat.zero_add] at hloop
    rw [Machine.Starts] at hstarts
    rw [hloop, runSlices, if_pos hstarts]
  · have hcounter (k : Nat) : (loopMachine.sliced 4 k).cpu.totalCycles.toNat +
        (cyclesTold (loopMachine.sliceAnswer 4 k)).toNat = 4 * k % 2 ^ 64 + 4 := by
      rw [idles_loopMachine.totalCycles_sliced rfl, idles_loopMachine.sliceAnswer_eq]
      rfl
    refine ⟨2 ^ 62 - 1, (hcounter _).trans ?_⟩
    decide

end Mos6502
