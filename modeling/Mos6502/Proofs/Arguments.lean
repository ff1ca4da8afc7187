import Mos6502.Proofs.Numeral
import Mos6502.Settings

namespace Mos6502

namespace Numeral

variable {limit n n' : Nat} {text : String}

/-- A text stands for a number up to the limit. -/
def Within (limit : Nat) (text : String) : Prop := ∃ n ≤ limit, Denotes text n

/-- The number that a text stands for, or a standard one where no text is given. -/
def Given (text : Option String) (standard n : Nat) : Prop :=
  match text with
  | some text => Denotes text n
  | none => n = standard

theorem Within.not_blames (h : Within limit text) (e : NumberError) : ¬ Blames limit text e := by
  obtain ⟨n, hle, hn⟩ := h
  intro he
  have hparse := (parse_eq_ok_iff limit text n).mpr ⟨hn, hle⟩
  rw [(parse_eq_error_iff limit text e).mpr he] at hparse
  cases hparse

theorem Blames.unique {e e' : NumberError} (h : Blames limit text e) (h' : Blames limit text e') :
    e = e' := by
  rw [← parse_eq_error_iff] at h h'
  exact Except.error.inj (h.symm.trans h')

theorem Denotes.within_word64 {n : UInt64} (h : Denotes text n.toNat) : Within (2 ^ 64 - 1) text :=
  ⟨n.toNat, Nat.le_pred_of_lt n.toNat_lt, h⟩

theorem Denotes.within_word32 {n : UInt32} (h : Denotes text n.toNat) : Within (2 ^ 32 - 1) text :=
  ⟨n.toNat, Nat.le_pred_of_lt n.toNat_lt, h⟩

theorem Given.unique {text : Option String} {standard : Nat} (h : Given text standard n)
    (h' : Given text standard n') : n = n' := by
  cases text with
  | some text =>
    obtain ⟨-, -, hn⟩ := (denotes_iff text n).mp h
    obtain ⟨-, -, hn'⟩ := (denotes_iff text n').mp h'
    exact hn.symm.trans hn'
  | none => exact Eq.trans h (Eq.symm h')

theorem Given.map_padded {text : Option String} {standard : Nat} (h : Given text standard n)
    (k : Nat) : Given (text.map (padded k)) standard n := by
  cases text with
  | some text => exact Denotes.padded h k
  | none => exact h

end Numeral

open Numeral

/-- One to three arguments: a program, and counts that are numbers within their limits. -/
structure Acceptable (arguments : List String) : Prop where
  given : 1 ≤ arguments.length
  few : arguments.length ≤ 3
  total : ∀ text ∈ arguments[1]?, Within (2 ^ 64 - 1) text
  slice : ∀ text ∈ arguments[2]?, Within (2 ^ 32 - 1) text

/-- The settings are those that the arguments name, and standard ones where they name none. -/
structure Settings.NamedBy (s : Settings) (arguments : List String) : Prop where
  few : arguments.length ≤ 3
  program : arguments[0]? = some s.program
  total : Given arguments[1]? 10000 s.totalCycles.toNat
  slice : Given arguments[2]? 20 s.sliceCycles.toNat
  start : s.start = none
  printsStatus : s.printsStatus = true

/-- The arguments with zeros in front of the counts, as many as are asked for. -/
def zeroPadded (zeros : Nat → Nat) : List String → List String
  | [] => []
  | program :: counts => program :: counts.mapIdx fun i => padded (zeros i)

namespace ArgumentError

/-- The argument that an error is about, counted from 0. -/
def position : ArgumentError → Nat
  | missingProgram => 0
  | badTotal _ _ => 1
  | badSlice _ _ => 2
  | unexpected _ => 3

/-- What an error says of the arguments is so. -/
def Accuses (arguments : List String) : ArgumentError → Prop
  | missingProgram => arguments[0]? = none
  | badTotal text reason => arguments[1]? = some text ∧ Blames (2 ^ 64 - 1) text reason
  | badSlice text reason => arguments[2]? = some text ∧ Blames (2 ^ 32 - 1) text reason
  | unexpected text => arguments[3]? = some text

/-- An error that is right, while none about an earlier argument is. -/
structure IsFirst (e : ArgumentError) (arguments : List String) : Prop where
  accuses : e.Accuses arguments
  earlier : ∀ e' : ArgumentError, e'.position < e.position → ¬ e'.Accuses arguments

variable {arguments : List String} {text : String} {reason : NumberError}

theorem not_accuses_missingProgram {i : Nat} (h : arguments[i]? = some text) :
    ¬ missingProgram.Accuses arguments := by
  intro hnone
  obtain ⟨hlength, -⟩ := List.getElem?_eq_some_iff.mp h
  have hempty := List.getElem?_eq_none_iff.mp hnone
  omega

theorem not_accuses_badTotal (h : ∀ text ∈ arguments[1]?, Within (2 ^ 64 - 1) text) :
    ¬ (badTotal text reason).Accuses arguments := by
  rintro ⟨htext, hreason⟩
  exact (h text htext).not_blames reason hreason

theorem not_accuses_badSlice (h : ∀ text ∈ arguments[2]?, Within (2 ^ 32 - 1) text) :
    ¬ (badSlice text reason).Accuses arguments := by
  rintro ⟨htext, hreason⟩
  exact (h text htext).not_blames reason hreason

theorem isFirst_badTotal (h : arguments[1]? = some text) (he : Blames (2 ^ 64 - 1) text reason) :
    (badTotal text reason).IsFirst arguments where
  accuses := ⟨h, he⟩
  earlier := by
    intro e' hlt
    cases e' with
    | missingProgram => exact not_accuses_missingProgram h
    | _ => simp [position] at hlt

theorem isFirst_badSlice (htotal : ∀ text ∈ arguments[1]?, Within (2 ^ 64 - 1) text)
    (h : arguments[2]? = some text) (he : Blames (2 ^ 32 - 1) text reason) :
    (badSlice text reason).IsFirst arguments where
  accuses := ⟨h, he⟩
  earlier := by
    intro e' hlt
    cases e' with
    | missingProgram => exact not_accuses_missingProgram h
    | badTotal _ _ => exact not_accuses_badTotal htotal
    | _ => simp [position] at hlt

theorem isFirst_unexpected (htotal : ∀ text ∈ arguments[1]?, Within (2 ^ 64 - 1) text)
    (hslice : ∀ text ∈ arguments[2]?, Within (2 ^ 32 - 1) text) (h : arguments[3]? = some text) :
    (unexpected text).IsFirst arguments where
  accuses := h
  earlier := by
    intro e' hlt
    cases e' with
    | missingProgram => exact not_accuses_missingProgram h
    | badTotal _ _ => exact not_accuses_badTotal htotal
    | badSlice _ _ => exact not_accuses_badSlice hslice
    | unexpected _ => simp [position] at hlt

theorem IsFirst.unique {e e' : ArgumentError} (h : e.IsFirst arguments)
    (h' : e'.IsFirst arguments) : e = e' := by
  have hposition : e.position = e'.position := Nat.le_antisymm
    (Nat.le_of_not_lt fun hlt => h.earlier e' hlt h'.accuses)
    (Nat.le_of_not_lt fun hlt => h'.earlier e hlt h.accuses)
  have ha := h.accuses
  have ha' := h'.accuses
  -- errors about the same argument quote the same text, which is at fault in one way only
  cases e <;> cases e' <;> cases hposition
  case missingProgram => rfl
  case badTotal | badSlice =>
    cases ha.1.symm.trans ha'.1
    rw [ha.2.unique ha'.2]
  case unexpected =>
    cases ha.symm.trans ha'
    rfl

end ArgumentError

theorem Acceptable.not_accuses {arguments : List String} (h : Acceptable arguments)
    (e : ArgumentError) : ¬ e.Accuses arguments := by
  cases e with
  | missingProgram =>
    exact ArgumentError.not_accuses_missingProgram (List.getElem?_eq_getElem h.given)
  | badTotal _ _ => exact ArgumentError.not_accuses_badTotal h.total
  | badSlice _ _ => exact ArgumentError.not_accuses_badSlice h.slice
  | unexpected text =>
    intro htext
    obtain ⟨hlength, -⟩ := List.getElem?_eq_some_iff.mp htext
    exact Nat.not_lt_of_le h.few hlength

namespace Settings

variable {s s' : Settings} {arguments : List String}

theorem NamedBy.acceptable (h : s.NamedBy arguments) : Acceptable arguments where
  given := by
    obtain ⟨hlength, -⟩ := List.getElem?_eq_some_iff.mp h.program
    exact hlength
  few := h.few
  total := by
    intro text htext
    have htotal := h.total
    rw [htext] at htotal
    exact Denotes.within_word64 htotal
  slice := by
    intro text htext
    have hslice := h.slice
    rw [htext] at hslice
    exact Denotes.within_word32 hslice

theorem NamedBy.unique (h : s.NamedBy arguments) (h' : s'.NamedBy arguments) : s = s' := by
  have hprogram := Option.some.inj (h.program.symm.trans h'.program)
  have htotal := UInt64.toNat_inj.mp (h.total.unique h'.total)
  have hslice := UInt32.toNat_inj.mp (h.slice.unique h'.slice)
  have hstart := h.start.trans h'.start.symm
  have hprints := h.printsStatus.trans h'.printsStatus.symm
  cases s
  cases s'
  simp only at hprogram htotal hslice hstart hprints
  rw [hprogram, htotal, hslice, hstart, hprints]

theorem withTotal_cases (s : Settings) (text : String) :
    (∃ n : UInt64, Denotes text n.toNat ∧ s.withTotal text = .ok { s with totalCycles := n }) ∨
    ∃ e, Blames (2 ^ 64 - 1) text e ∧ s.withTotal text = .error (.badTotal text e) := by
  rw [withTotal]
  cases hparse : parse (UInt64.size - 1) text with
  | ok n =>
    obtain ⟨hn, hle⟩ := (parse_eq_ok_iff _ text n).mp hparse
    refine .inl ⟨UInt64.ofNat n, ?_, rfl⟩
    rwa [UInt64.toNat_ofNat_of_lt' (Nat.lt_of_le_pred (by decide) hle)]
  | error e => exact .inr ⟨e, (parse_eq_error_iff _ text e).mp hparse, rfl⟩

theorem withSlice_cases (s : Settings) (text : String) :
    (∃ n : UInt32, Denotes text n.toNat ∧ s.withSlice text = .ok { s with sliceCycles := n }) ∨
    ∃ e, Blames (2 ^ 32 - 1) text e ∧ s.withSlice text = .error (.badSlice text e) := by
  rw [withSlice]
  cases hparse : parse (UInt32.size - 1) text with
  | ok n =>
    obtain ⟨hn, hle⟩ := (parse_eq_ok_iff _ text n).mp hparse
    refine .inl ⟨UInt32.ofNat n, ?_, rfl⟩
    rwa [UInt32.toNat_ofNat_of_lt' (Nat.lt_of_le_pred (by decide) hle)]
  | error e => exact .inr ⟨e, (parse_eq_error_iff _ text e).mp hparse, rfl⟩

theorem ofArguments_of_withTotal {program total slice : String} {rest : List String}
    (h : withTotal { program } total = .ok s) :
    ofArguments (program :: total :: slice :: rest) = s.withSlice slice >>= fun s =>
      match rest with
      | [] => .ok s
      | extra :: _ => .error (.unexpected extra) := by
  rw [ofArguments, h]
  rfl

/-- The arguments name settings, or there is a first error about them. -/
theorem ofArguments_cases (arguments : List String) :
    (∃ s, ofArguments arguments = .ok s ∧ s.NamedBy arguments) ∨
    ∃ e, ofArguments arguments = .error e ∧ e.IsFirst arguments := by
  match arguments with
  | [] => exact .inr ⟨.missingProgram, rfl, rfl, fun _ hlt => absurd hlt (Nat.not_lt_zero _)⟩
  | [program] => exact .inl ⟨{ program }, rfl, Nat.le_add_left 1 2, rfl, rfl, rfl, rfl, rfl⟩
  | [program, total] =>
    rcases withTotal_cases { program } total with ⟨n, hn, ht⟩ | ⟨e, he, ht⟩
    · exact .inl ⟨_, ht, Nat.le_add_left 2 1, rfl, hn, rfl, rfl, rfl⟩
    · exact .inr ⟨_, ht, ArgumentError.isFirst_badTotal rfl he⟩
  | program :: total :: slice :: rest =>
    rcases withTotal_cases { program } total with ⟨n, hn, ht⟩ | ⟨e, he, ht⟩
    · have htotal : ∀ text ∈ some total, Within (2 ^ 64 - 1) text := by
        rintro _ ⟨⟩
        exact hn.within_word64
      rcases withSlice_cases { program, totalCycles := n } slice with ⟨k, hk, hs⟩ | ⟨e, he, hs⟩
      · have hslice : ∀ text ∈ some slice, Within (2 ^ 32 - 1) text := by
          rintro _ ⟨⟩
          exact hk.within_word32
        rw [ofArguments_of_withTotal ht, hs]
        cases rest with
        | nil => exact .inl ⟨_, rfl, Nat.le_refl 3, rfl, hn, hk, rfl, rfl⟩
        | cons extra rest =>
          exact .inr ⟨_, rfl, ArgumentError.isFirst_unexpected htotal hslice rfl⟩
      · rw [ofArguments_of_withTotal ht, hs]
        exact .inr ⟨_, rfl, ArgumentError.isFirst_badSlice htotal rfl he⟩
    · rw [ofArguments, ht]
      exact .inr ⟨_, rfl, ArgumentError.isFirst_badTotal rfl he⟩

theorem ofArguments_eq_ok_iff (arguments : List String) (s : Settings) :
    ofArguments arguments = .ok s ↔ s.NamedBy arguments := by
  rcases ofArguments_cases arguments with ⟨s', hs', hnamed⟩ | ⟨e, he, hfirst⟩
  · rw [hs']
    constructor
    · rintro ⟨⟩
      exact hnamed
    · intro h
      rw [h.unique hnamed]
  · rw [he]
    exact iff_of_false nofun fun h => h.acceptable.not_accuses e hfirst.accuses

theorem ofArguments_eq_error_iff (arguments : List String) (e : ArgumentError) :
    ofArguments arguments = .error e ↔ e.IsFirst arguments := by
  rcases ofArguments_cases arguments with ⟨s, hs, hnamed⟩ | ⟨e', he', hfirst⟩
  · rw [hs]
    exact iff_of_false nofun fun h => hnamed.acceptable.not_accuses e h.accuses
  · rw [he']
    constructor
    · rintro ⟨⟩
      exact hfirst
    · intro h
      rw [h.unique hfirst]

theorem NamedBy.zeroPadded (h : s.NamedBy arguments) (zeros : Nat → Nat) :
    s.NamedBy (zeroPadded zeros arguments) := by
  cases arguments with
  | nil => cases h.program
  | cons program counts =>
    have hcount (i : Nat) : (counts.mapIdx fun i => padded (zeros i))[i]? =
        counts[i]?.map (padded (zeros i)) := List.getElem?_mapIdx
    have htotal := h.total.map_padded (zeros 0)
    have hslice := h.slice.map_padded (zeros 1)
    rw [List.getElem?_cons_succ, ← hcount] at htotal hslice
    refine ⟨?_, h.program, htotal, hslice, h.start, h.printsStatus⟩
    rw [Mos6502.zeroPadded, List.length_cons, List.length_mapIdx]
    exact h.few

/-- Settings come of acceptable arguments only, and are those that the arguments name, whatever
zeros stand in front of the counts. Otherwise the error is the first one that there is about the
arguments. -/
theorem ofArguments_exact (arguments : List String) :
    ((∃ s, ofArguments arguments = .ok s) ↔ Acceptable arguments) ∧
    (∀ s, ofArguments arguments = .ok s ↔ s.NamedBy arguments) ∧
    (∀ zeros s, ofArguments arguments = .ok s → ofArguments (zeroPadded zeros arguments) = .ok s) ∧
    (∀ e, ofArguments arguments = .error e ↔ e.IsFirst arguments) ∧
    ∀ e : ArgumentError, e.Accuses arguments →
      ∃ e', ofArguments arguments = .error e' ∧ e'.position ≤ e.position := by
  refine ⟨?_, ofArguments_eq_ok_iff arguments, ?_, ofArguments_eq_error_iff arguments, ?_⟩
  · constructor
    · rintro ⟨s, hs⟩
      exact ((ofArguments_eq_ok_iff arguments s).mp hs).acceptable
    · intro h
      rcases ofArguments_cases arguments with ⟨s, hs, -⟩ | ⟨e, -, hfirst⟩
      · exact ⟨s, hs⟩
      · exact absurd hfirst.accuses (h.not_accuses e)
  · intro zeros s hs
    rw [ofArguments_eq_ok_iff] at hs ⊢
    exact hs.zeroPadded zeros
  · intro e he
    rcases ofArguments_cases arguments with ⟨s, -, hnamed⟩ | ⟨e', he', hfirst⟩
    · exact absurd he (hnamed.acceptable.not_accuses e)
    · exact ⟨e', he', Nat.le_of_not_lt fun hlt => hfirst.earlier e hlt he⟩

/-- An excess counts before the bad character behind it, and before an argument too many. -/
theorem ofArguments_exact_excess :
    ofArguments ["loop.prg", "+007", "4294967296x", "more"] =
      .error (.badSlice "4294967296x" .tooLarge) := by
  have htotal : Denotes "+007" 7 :=
    ⟨['0', '0', '7'], .inr rfl, List.cons_ne_nil _ _, List.all_eq_true.mp rfl, rfl⟩
  obtain ⟨-, -, -, herror, -⟩ :=
    ofArguments_exact ["loop.prg", "+007", "4294967296x", "more"]
  apply (herror _).mpr
  refine ArgumentError.isFirst_badSlice ?_ rfl ⟨9, '6', ⟨by decide, by decide, by decide⟩, rfl⟩
  rintro _ ⟨⟩
  exact ⟨7, by decide, htotal⟩

end Settings

end Mos6502
