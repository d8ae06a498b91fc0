namespace Rostering

/-! Ranking by a comparison: the run that a list starts with is kept, and every later item
enters at a place found by halving. Where the comparison is a strict order on ranks this is the
stable ascending arrangement; where it is not, the outcome still is a rearrangement. -/

namespace Ranking

variable {α : Type} (below : α → α → Bool)

/-- The first place in `items`, between `lo` and `hi`, whose item the new one is below, as far
as halving finds it. -/
def place (x : α) (items : List α) (lo hi : Nat) : Nat :=
  if lo < hi then
    let middle := lo + (hi - lo) / 2
    match items[middle]? with
    | some y => if below x y then place x items lo middle else place x items (middle + 1) hi
    | none => lo
  else lo
termination_by hi - lo
decreasing_by all_goals omega

def insert (items : List α) (x : α) : List α :=
  let index := place below x items 0 items.length
  items.take index ++ x :: items.drop index

/-- Splits off the items that carry on from `x` for as long as each follows the one before. -/
def splitRun (follows : α → α → Bool) (x : α) : List α → List α × List α
  | [] => ([], [])
  | y :: rest =>
      if follows x y then
        let (run, tail) := splitRun follows y rest
        (y :: run, tail)
      else ([], y :: rest)

/-- The run at the start of a list, put in rising order, and what follows it. -/
def startRun : List α → List α × List α
  | x :: y :: rest =>
      if below y x then
        let (run, tail) := splitRun (fun a b => below b a) x (y :: rest)
        ((x :: run).reverse, tail)
      else
        let (run, tail) := splitRun (fun a b => !below b a) x (y :: rest)
        (x :: run, tail)
  | items => (items, [])

def rank (items : List α) : List α :=
  let (run, tail) := startRun below items
  tail.foldl (insert below) run

theorem insert_perm (items : List α) (x : α) : (insert below items x).Perm (x :: items) := by
  simp only [insert]
  exact List.perm_middle.trans (by rw [List.take_append_drop])

theorem splitRun_append (follows : α → α → Bool) (x : α) (items : List α) :
    (splitRun follows x items).1 ++ (splitRun follows x items).2 = items := by
  induction items generalizing x with
  | nil => rfl
  | cons y rest ih =>
      by_cases h : follows x y
      · simpa [splitRun, h] using ih y
      · simp [splitRun, h]

theorem startRun_perm (items : List α) :
    ((startRun below items).1 ++ (startRun below items).2).Perm items := by
  match items with
  | [] => exact .nil
  | [x] => exact .refl _
  | x :: y :: rest =>
      by_cases h : below y x
      · simp only [startRun, h, if_true]
        refine (List.Perm.append_right _ (List.reverse_perm _)).trans ?_
        rw [List.cons_append, splitRun_append]
      · simp only [startRun, h]
        rw [if_neg (by simp), List.cons_append, splitRun_append]

theorem foldl_insert_perm (items tail : List α) :
    (tail.foldl (insert below) items).Perm (items ++ tail) := by
  induction tail generalizing items with
  | nil => simp
  | cons x rest ih =>
      refine (ih (insert below items x)).trans ?_
      exact (List.Perm.append_right rest (insert_perm below items x)).trans List.perm_middle.symm

/-- Ranking neither loses nor invents an item. -/
theorem rank_perm (items : List α) : (rank below items).Perm items :=
  (foldl_insert_perm below _ _).trans (startRun_perm below items)

end Ranking

end Rostering
