/-
# `SelectorStream.Nth` — positions of the form `an+b`

The argument of `:nth-child`.  An element matches when its position, counted
from one, is `a * n + b` for some natural number `n`.  The coefficients are 32
bit integers, the arithmetic is exact.

`chars` is the shortest notation: no term in `n` when `a` is zero, no numeral
before `n` when `a` is one in size, no offset after `n` when `b` is zero.
-/
import SelectorStream.Text.Decimal

namespace SelectorStream

/-- The coefficients of `an+b`, as written: `a` is the step and `b` the offset. -/
structure Nth where
  step : Int32
  offset : Int32
deriving DecidableEq

namespace Nth

/-- Some element position, counted from one, has the form `an+b`. -/
def Satisfiable (x : Nth) : Prop :=
  ∃ n : Nat, 1 ≤ x.step.toInt * n + x.offset.toInt

/-- Neither coefficient is positive, so `an+b` never reaches one. -/
def neverMatches (x : Nth) : Bool :=
  x.step.toInt ≤ 0 && x.offset.toInt ≤ 0

def stepChars (a : Int) : List Char :=
  if a = 1 then ['n'] else if a = -1 then ['-', 'n'] else Decimal.integer a ++ ['n']

def offsetChars (b : Int) : List Char :=
  if b = 0 then [] else if 0 < b then '+' :: Decimal.integer b else Decimal.integer b

def chars (x : Nth) : List Char :=
  if x.step.toInt = 0 then Decimal.integer x.offset.toInt
  else stepChars x.step.toInt ++ offsetChars x.offset.toInt

end Nth

end SelectorStream
