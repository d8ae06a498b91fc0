import Rostering.Number.Basic

namespace Rostering.Number

/-! Shares of a whole in per cent. -/

/-- A part of a whole in per cent, to one place; zero of nothing. -/
def percentage (part whole : Number) : Except Fault Number := do
  if whole.isZero then return .real .zero
  return (← (real (← part.div whole)).mul 100).roundTo 1

end Rostering.Number
