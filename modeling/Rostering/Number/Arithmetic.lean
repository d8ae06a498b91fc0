import Rostering.Number.Basic

namespace Rostering

/-! The arithmetic that shares and scores are computed in: numbers as they are written, whose
quotients are rounded, or exact rationals. -/

class Arithmetic (α : Type) where
  ofInt : Int → α
  ofNumber : Number → Except Fault α
  add : α → α → Except Fault α
  sub : α → α → Except Fault α
  mul : α → α → Except Fault α
  div : α → α → Except Fault α
  lt : α → α → Bool
  equal : α → α → Bool
  /-- The integer part of a value, toward zero. -/
  truncate : α → Except Fault Int

namespace Arithmetic

variable {α : Type} [Arithmetic α]

def ratio (num den : Int) : Except Fault α := div (ofInt num) (ofInt den)

def larger (a b : α) : α := if lt a b then b else a

def isZero (a : α) : Bool := equal a (ofInt 0)

/-- The sum from the left, starting from zero. -/
def sum (xs : List α) : Except Fault α := xs.foldlM add (ofInt 0)

end Arithmetic

instance : Arithmetic Number where
  ofInt := .int
  ofNumber := .ok
  add := Number.add
  sub := Number.sub
  mul := Number.mul
  div a b := .real <$> a.div b
  lt := Number.lt
  equal := Number.equal
  truncate := Number.truncate

instance : Arithmetic Rat where
  ofInt n := n
  ofNumber x := x.value?.elim (.error .outOfRange) .ok
  add a b := .ok (a + b)
  sub a b := .ok (a - b)
  mul a b := .ok (a * b)
  div a b := if b = 0 then .error .zeroDivisor else .ok (a / b)
  lt a b := decide (a < b)
  equal a b := decide (a = b)
  truncate q := .ok (q.num.tdiv q.den)

end Rostering
