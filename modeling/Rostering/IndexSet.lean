namespace Rostering

/-! Finite sets of shift indices, held as ascending lists without repeats. -/

/-- Puts an index at its place in an ascending list, unless it is there. -/
def insertIndex (i : Int) : List Int → List Int
  | [] => [i]
  | j :: rest =>
      if i < j then i :: j :: rest else if i = j then j :: rest else j :: insertIndex i rest

theorem mem_insertIndex {i j : Int} {indices : List Int} :
    j ∈ insertIndex i indices ↔ j = i ∨ j ∈ indices := by
  induction indices with
  | nil => simp [insertIndex]
  | cons k rest ih =>
      by_cases hlt : i < k
      · simp [insertIndex, hlt]
      · by_cases heq : i = k
        · simp [insertIndex, heq]
        · simp only [insertIndex, hlt, heq, if_false, List.mem_cons, ih]
          constructor <;> rintro (h | h | h) <;> simp [h]

theorem pairwise_insertIndex {i : Int} {indices : List Int}
    (ascending : indices.Pairwise (· < ·)) : (insertIndex i indices).Pairwise (· < ·) := by
  induction indices with
  | nil => simp [insertIndex]
  | cons k rest ih =>
      obtain ⟨above, ascending⟩ := List.pairwise_cons.1 ascending
      by_cases hlt : i < k
      · simp only [insertIndex, hlt, if_true, List.pairwise_cons]
        refine ⟨?_, above, ascending⟩
        intro j hj
        rcases List.mem_cons.1 hj with rfl | hj
        · exact hlt
        · exact Int.lt_trans hlt (above j hj)
      · by_cases heq : i = k
        · simpa [insertIndex, heq] using ⟨above, ascending⟩
        · simp only [insertIndex, hlt, heq, if_false, List.pairwise_cons]
          refine ⟨?_, ih ascending⟩
          intro j hj
          rcases mem_insertIndex.1 hj with rfl | hj
          · omega
          · exact above j hj

structure IndexSet where
  toList : List Int
  ascending : toList.Pairwise (· < ·)
  deriving DecidableEq

namespace IndexSet

def empty : IndexSet := ⟨[], .nil⟩

instance : Inhabited IndexSet := ⟨empty⟩
instance : Repr IndexSet := ⟨fun s _ => repr s.toList⟩
instance : Membership Int IndexSet := ⟨fun s i => i ∈ s.toList⟩
instance (i : Int) (s : IndexSet) : Decidable (i ∈ s) := inferInstanceAs (Decidable (i ∈ s.toList))

def insert (s : IndexSet) (i : Int) : IndexSet :=
  ⟨insertIndex i s.toList, pairwise_insertIndex s.ascending⟩

def ofList (indices : List Int) : IndexSet := indices.foldl insert empty

def size (s : IndexSet) : Nat := s.toList.length

def isEmpty (s : IndexSet) : Bool := s.toList.isEmpty

/-- The indices from zero below a bound that satisfy a test. -/
def below (bound : Nat) (test : Int → Bool) : IndexSet where
  toList := ((List.range bound).map Int.ofNat).filter test
  ascending :=
    ((List.pairwise_lt_range.map Int.ofNat fun _ _ => Int.ofNat_lt.2).filter test)

theorem nodup (s : IndexSet) : s.toList.Nodup := s.ascending.imp fun hlt => Int.ne_of_lt hlt

@[simp] theorem mem_toList {s : IndexSet} {i : Int} : i ∈ s.toList ↔ i ∈ s := Iff.rfl

@[simp] theorem not_mem_empty {i : Int} : i ∉ empty := List.not_mem_nil

@[simp] theorem mem_insert {s : IndexSet} {i j : Int} : j ∈ s.insert i ↔ j = i ∨ j ∈ s :=
  mem_insertIndex

theorem mem_foldl_insert {s : IndexSet} {indices : List Int} {j : Int} :
    j ∈ indices.foldl insert s ↔ j ∈ s ∨ j ∈ indices := by
  induction indices generalizing s with
  | nil => simp
  | cons i rest ih =>
      rw [List.foldl_cons, ih, mem_insert, List.mem_cons]
      constructor <;> rintro (h | h)
      · rcases h with h | h <;> simp [h]
      · simp [h]
      · simp [h]
      · rcases h with h | h <;> simp [h]

@[simp] theorem mem_ofList {indices : List Int} {j : Int} : j ∈ ofList indices ↔ j ∈ indices := by
  simp [ofList, mem_foldl_insert]

theorem isEmpty_eq_false_iff {s : IndexSet} : s.isEmpty = false ↔ ∃ i, i ∈ s := by
  rw [isEmpty, List.isEmpty_eq_false_iff_exists_mem]
  rfl

theorem mem_below {bound : Nat} {test : Int → Bool} {j : Int} :
    j ∈ below bound test ↔ 0 ≤ j ∧ j < bound ∧ test j := by
  rw [← mem_toList]
  simp only [below, List.mem_filter, List.mem_map, List.mem_range]
  constructor
  · rintro ⟨⟨i, hi, rfl⟩, ht⟩
    exact ⟨Int.natCast_nonneg i, Int.ofNat_lt.2 hi, ht⟩
  · rintro ⟨h0, hb, ht⟩
    exact ⟨⟨j.toNat, by omega, by simp [Int.toNat_of_nonneg h0]⟩, ht⟩

end IndexSet

end Rostering
