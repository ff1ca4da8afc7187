namespace Mos6502

/-- Why a text is not an unsigned number. -/
inductive NumberError where
  | empty
  | invalidDigit
  | tooLarge
  deriving DecidableEq

def NumberError.message : NumberError → String
  | empty => "cannot parse integer from empty string"
  | invalidDigit => "invalid digit found in string"
  | tooLarge => "number too large to fit in target type"

namespace Numeral

def digit (c : Char) : Option Nat :=
  if '0' ≤ c && c ≤ '9' then some (c.toNat - '0'.toNat) else none

/-- Reads digits from the left onto `n`, never going beyond `limit`. A character that is no digit
counts before the excess that it would cause. -/
def digits (limit n : Nat) : List Char → Except NumberError Nat
  | [] => .ok n
  | c :: cs =>
    match digit c with
    | none => .error .invalidDigit
    | some d =>
      let n' := 10 * n + d
      if n' ≤ limit then digits limit n' cs else .error .tooLarge

/-- An optional plus sign and decimal digits, at least one. -/
def parse (limit : Nat) (text : String) : Except NumberError Nat :=
  match text.toList with
  | [] => .error .empty
  | ['+'] => .error .invalidDigit
  | '+' :: cs => digits limit 0 cs
  | cs => digits limit 0 cs

end Numeral

end Mos6502
