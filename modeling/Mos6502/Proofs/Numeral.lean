import Mathlib.Data.Nat.Digits.Defs
import Mos6502.Numeral

namespace Mos6502

namespace Numeral

variable {limit : Nat} {cs : List Char}

/-- The number that decimal digits stand for, the most significant first. -/
def value (cs : List Char) : Nat :=
  Nat.ofDigits 10 (cs.reverse.map fun c => c.toNat - '0'.toNat)

/-- A text that stands for a number: an optional plus sign, then digits, one at least. -/
def Denotes (text : String) (n : Nat) : Prop :=
  ∃ cs, (text.toList = cs ∨ text.toList = '+' :: cs) ∧ cs ≠ [] ∧
    (∀ c ∈ cs, c.isDigit = true) ∧ value cs = n

/-- The characters behind an optional plus sign. One that nothing follows is no sign. -/
def unsigned : List Char → List Char
  | '+' :: c :: cs => c :: cs
  | cs => cs

/-- The character at position `i` is no digit, or with it the number goes beyond the limit. -/
def Offends (limit : Nat) (cs : List Char) (i : Nat) : Prop :=
  ∃ c ∈ cs[i]?, c.isDigit = false ∨ limit < value (cs.take (i + 1))

instance (limit : Nat) (cs : List Char) (i : Nat) : Decidable (Offends limit cs i) :=
  decidable_of_iff
    (cs[i]?.any (fun c => !c.isDigit || decide (limit < value (cs.take (i + 1)))) = true)
    (by simp [Offends, Option.any_eq_true])

/-- The leftmost position that offends is `i`, and `c` stands there. -/
structure StopsAt (limit : Nat) (cs : List Char) (i : Nat) (c : Char) : Prop where
  here : cs[i]? = some c
  offends : Offends limit cs i
  before : ∀ j < i, ¬ Offends limit cs j

/-- What is wrong with a text, which its leftmost offending position decides. -/
def Blames (limit : Nat) (text : String) : NumberError → Prop
  | .empty => text = ""
  | .invalidDigit => ∃ i c, StopsAt limit (unsigned text.toList) i c ∧ c.isDigit = false
  | .tooLarge => ∃ i c, StopsAt limit (unsigned text.toList) i c ∧ c.isDigit = true

/-- A text with zeros in front of its digits. -/
def padded (k : Nat) (text : String) : String :=
  match text.toList with
  | '+' :: cs => String.ofList ('+' :: (List.replicate k '0' ++ cs))
  | cs => String.ofList (List.replicate k '0' ++ cs)

theorem value_append (as bs : List Char) :
    value (as ++ bs) = value bs + 10 ^ bs.length * value as := by
  rw [value, List.reverse_append, List.map_append, Nat.ofDigits_append, List.length_map,
    List.length_reverse]
  rfl

theorem value_concat (cs : List Char) (c : Char) :
    value (cs ++ [c]) = 10 * value cs + (c.toNat - '0'.toNat) := by
  rw [value_append, List.length_singleton, Nat.pow_one, Nat.add_comm]
  simp [value]

theorem value_le_append (as bs : List Char) : value as ≤ value (as ++ bs) := by
  have hpow : 0 < 10 ^ bs.length := Nat.pow_pos (by decide)
  rw [value_append]
  exact (Nat.le_mul_of_pos_left _ hpow).trans (Nat.le_add_left _ _)

theorem value_replicate_zero (k : Nat) : value (List.replicate k '0') = 0 := by
  induction k with
  | zero => rfl
  | succ k ih =>
    rw [List.replicate_succ', value_concat, ih]
    rfl

theorem value_take_succ {i : Nat} {c : Char} (h : cs[i]? = some c) :
    value (cs.take (i + 1)) = 10 * value (cs.take i) + (c.toNat - '0'.toNat) := by
  rw [List.take_add_one, h, Option.toList_some, value_concat]

theorem digit_eq (c : Char) :
    digit c = if c.isDigit = true then some (c.toNat - '0'.toNat) else none := rfl

theorem not_offends_iff {i : Nat} {c : Char} (h : cs[i]? = some c) :
    ¬ Offends limit cs i ↔ c.isDigit = true ∧ value (cs.take (i + 1)) ≤ limit := by
  simp [Offends, h]

/-- Behind digits that do not offend, what has been read is their number. -/
theorem digits_take {i : Nat} (hi : i ≤ cs.length) (h : ∀ j < i, ¬ Offends limit cs j) :
    digits limit 0 cs = digits limit (value (cs.take i)) (cs.drop i) := by
  induction i with
  | zero => rfl
  | succ i ih =>
    have hc : cs[i]? = some cs[i] := List.getElem?_eq_getElem hi
    obtain ⟨hdigit, hle⟩ := (not_offends_iff hc).mp (h i (Nat.lt_succ_self i))
    have hstep : 10 * value (cs.take i) + (cs[i].toNat - '0'.toNat) ≤ limit := by
      rwa [← value_take_succ hc]
    rw [ih (Nat.le_of_succ_le hi) fun j hj => h j (Nat.lt_succ_of_lt hj),
      List.drop_eq_getElem_cons hi, digits, digit_eq, if_pos hdigit]
    dsimp only
    rw [if_pos hstep, value_take_succ hc]

/-- Nothing offends just in digits that stand for a number within the limit. -/
theorem forall_not_offends_iff :
    (∀ i, ¬ Offends limit cs i) ↔ (∀ c ∈ cs, c.isDigit = true) ∧ value cs ≤ limit := by
  constructor
  · intro h
    constructor
    · intro c hc
      obtain ⟨i, hi⟩ := List.mem_iff_getElem?.mp hc
      exact ((not_offends_iff hi).mp (h i)).1
    · rcases Nat.eq_zero_or_pos cs.length with hzero | hpos
      · rw [List.length_eq_zero_iff.mp hzero]
        exact Nat.zero_le limit
      · -- the number is the one that is reached at the last position
        have hlast : cs[cs.length - 1]? = some cs[cs.length - 1] :=
          List.getElem?_eq_getElem (Nat.sub_lt hpos Nat.one_pos)
        have hle := ((not_offends_iff hlast).mp (h (cs.length - 1))).2
        rwa [Nat.sub_add_cancel hpos, List.take_length] at hle
  · rintro ⟨hdigits, hle⟩ i hi
    obtain ⟨c, hc, -⟩ := id hi
    -- a number only grows with the digits behind it
    have hprefix := value_le_append (cs.take (i + 1)) (cs.drop (i + 1))
    rw [List.take_append_drop] at hprefix
    exact (not_offends_iff hc).mpr
      ⟨hdigits c (List.mem_of_getElem? hc), hprefix.trans hle⟩ hi

theorem exists_stopsAt {i : Nat} (h : Offends limit cs i) : ∃ i c, StopsAt limit cs i c := by
  have hex : ∃ i, Offends limit cs i := ⟨i, h⟩
  obtain ⟨c, hc, -⟩ := Nat.find_spec hex
  exact ⟨Nat.find hex, c, hc, Nat.find_spec hex, fun j hj => Nat.find_min hex hj⟩

theorem digits_eq_ok (hdigits : ∀ c ∈ cs, c.isDigit = true) (hle : value cs ≤ limit) :
    digits limit 0 cs = .ok (value cs) := by
  have hclean := forall_not_offends_iff.mpr ⟨hdigits, hle⟩
  rw [digits_take (Nat.le_refl _) fun j _ => hclean j, List.take_length, List.drop_length]
  rfl

theorem StopsAt.digits_eq {i : Nat} {c : Char} (h : StopsAt limit cs i c) :
    digits limit 0 cs = .error (if c.isDigit = true then .tooLarge else .invalidDigit) := by
  obtain ⟨hi, hc⟩ := List.getElem?_eq_some_iff.mp h.here
  rw [digits_take hi.le h.before, List.drop_eq_getElem_cons hi, hc, digits, digit_eq]
  split_ifs with hdigit
  · have hbeyond : ¬ value (cs.take (i + 1)) ≤ limit := fun hle =>
      (not_offends_iff h.here).mpr ⟨hdigit, hle⟩ h.offends
    rw [value_take_succ h.here] at hbeyond
    exact if_neg hbeyond
  · rfl

theorem unsigned_plus {cs : List Char} (h : cs ≠ []) : unsigned ('+' :: cs) = cs := by
  cases cs with
  | nil => exact absurd rfl h
  | cons c cs => rfl

theorem unsigned_of_ne {c : Char} (h : c ≠ '+') (cs : List Char) :
    unsigned (c :: cs) = c :: cs := by
  rw [unsigned]
  intro _ _ heq
  exact absurd (List.cons.inj heq).1 h

theorem ne_plus_of_isDigit {c : Char} (h : c.isDigit = true) : c ≠ '+' := by
  rintro rfl
  cases h

theorem parse_eq (limit : Nat) {text : String} (h : text ≠ "") :
    parse limit text = digits limit 0 (unsigned text.toList) := by
  rw [parse]
  split
  next heq => exact absurd (String.toList_eq_nil_iff.mp heq) h
  -- a plus sign alone is no sign, but a bad digit
  next heq =>
    rw [heq]
    rfl
  next cs hmore heq => rw [heq, unsigned_plus hmore]
  next _ hplus =>
    cases hcs : text.toList with
    | nil => rfl
    | cons c cs =>
      have hc : c ≠ '+' := by
        rintro rfl
        exact hplus cs hcs
      rw [unsigned_of_ne hc]

theorem unsigned_cases (cs : List Char) : cs = unsigned cs ∨ cs = '+' :: unsigned cs := by
  rw [unsigned.eq_def]
  split
  · exact .inr rfl
  · exact .inl rfl

theorem unsigned_ne_nil {cs : List Char} (h : cs ≠ []) : unsigned cs ≠ [] := by
  rw [unsigned.eq_def]
  split
  · exact List.cons_ne_nil _ _
  · exact h

theorem denotes_iff (text : String) (n : Nat) :
    Denotes text n ↔ text ≠ "" ∧ (∀ c ∈ unsigned text.toList, c.isDigit = true) ∧
      value (unsigned text.toList) = n := by
  constructor
  · rintro ⟨cs, htext, hne, hdigits, hvalue⟩
    have hunsigned : unsigned text.toList = cs := by
      rcases htext with htext | htext <;> rw [htext]
      · obtain ⟨c, cs, rfl⟩ := List.exists_cons_of_ne_nil hne
        exact unsigned_of_ne (ne_plus_of_isDigit (hdigits c List.mem_cons_self)) cs
      · exact unsigned_plus hne
    refine ⟨?_, by rwa [hunsigned], by rwa [hunsigned]⟩
    rintro rfl
    exact hne hunsigned.symm
  · rintro ⟨hne, hdigits, hvalue⟩
    have hnil : text.toList ≠ [] := fun hnil => hne (String.toList_eq_nil_iff.mp hnil)
    exact ⟨_, unsigned_cases _, unsigned_ne_nil hnil, hdigits, hvalue⟩

theorem Denotes.parse_eq {text : String} {n : Nat} (h : Denotes text n) (hle : n ≤ limit) :
    parse limit text = .ok n := by
  obtain ⟨hne, hdigits, rfl⟩ := (denotes_iff text n).mp h
  rw [Numeral.parse_eq limit hne, digits_eq_ok hdigits hle]

theorem StopsAt.parse_eq {text : String} {i : Nat} {c : Char}
    (h : StopsAt limit (unsigned text.toList) i c) :
    parse limit text = .error (if c.isDigit = true then .tooLarge else .invalidDigit) := by
  have hne : text ≠ "" := by
    rintro rfl
    cases h.here
  rw [Numeral.parse_eq limit hne, h.digits_eq]

theorem Blames.parse_eq {text : String} {e : NumberError} (h : Blames limit text e) :
    parse limit text = .error e := by
  cases e with
  | empty =>
    cases h
    rfl
  | invalidDigit =>
    obtain ⟨i, c, hs, hc⟩ := h
    rw [hs.parse_eq, hc]
    rfl
  | tooLarge =>
    obtain ⟨i, c, hs, hc⟩ := h
    rw [hs.parse_eq, hc]
    rfl

/-- A text stands for a number within the limit, or something is wrong with it. -/
theorem denotes_or_blames (limit : Nat) (text : String) :
    (∃ n ≤ limit, Denotes text n) ∨ ∃ e, Blames limit text e := by
  by_cases hempty : text = ""
  · exact .inr ⟨.empty, hempty⟩
  · by_cases hex : ∃ i, Offends limit (unsigned text.toList) i
    · obtain ⟨i, hi⟩ := hex
      obtain ⟨i, c, hs⟩ := exists_stopsAt hi
      cases hc : c.isDigit with
      | false => exact .inr ⟨.invalidDigit, i, c, hs, hc⟩
      | true => exact .inr ⟨.tooLarge, i, c, hs, hc⟩
    · obtain ⟨hdigits, hle⟩ := forall_not_offends_iff.mp (not_exists.mp hex)
      exact .inl ⟨_, hle, (denotes_iff text _).mpr ⟨hempty, hdigits, rfl⟩⟩

/-- A number is read just if the text stands for it and it is within the limit. -/
theorem parse_eq_ok_iff (limit : Nat) (text : String) (n : Nat) :
    parse limit text = .ok n ↔ Denotes text n ∧ n ≤ limit := by
  constructor
  · intro h
    rcases denotes_or_blames limit text with ⟨n', hle, hn'⟩ | ⟨e, he⟩
    · rw [hn'.parse_eq hle] at h
      cases h
      exact ⟨hn', hle⟩
    · rw [he.parse_eq] at h
      cases h
  · rintro ⟨hn, hle⟩
    exact hn.parse_eq hle

/-- A text is refused just for what is wrong with it. -/
theorem parse_eq_error_iff (limit : Nat) (text : String) (e : NumberError) :
    parse limit text = .error e ↔ Blames limit text e := by
  constructor
  · intro h
    rcases denotes_or_blames limit text with ⟨n, hle, hn⟩ | ⟨e', he'⟩
    · rw [hn.parse_eq hle] at h
      cases h
    · rw [he'.parse_eq] at h
      cases h
      exact he'
  · exact Blames.parse_eq

theorem Denotes.padded {text : String} {n : Nat} (h : Denotes text n) (k : Nat) :
    Denotes (padded k text) n := by
  obtain ⟨cs, htext, hne, hdigits, hvalue⟩ := h
  have hplus : ∀ cs', cs ≠ '+' :: cs' := by
    rintro cs' rfl
    exact ne_plus_of_isDigit (hdigits '+' List.mem_cons_self) rfl
  refine ⟨List.replicate k '0' ++ cs, ?_, List.append_ne_nil_of_right_ne_nil _ hne, ?_, ?_⟩
  · rw [Numeral.padded]
    rcases htext with htext | htext <;> rw [htext]
    · split
      next cs => exact absurd rfl (hplus cs)
      next => exact .inl String.toList_ofList
    · exact .inr String.toList_ofList
  · intro c hc
    rcases List.mem_append.mp hc with hzero | hc
    · rw [List.eq_of_mem_replicate hzero]
      rfl
    · exact hdigits c hc
  · rw [value_append, value_replicate_zero, Nat.mul_zero, hvalue, Nat.add_zero]

end Numeral

end Mos6502
