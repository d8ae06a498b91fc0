import Rostering.Proofs.Columns
import Rostering.Proofs.Decisions
import Rostering.Proofs.Faults
import Rostering.Proofs.Reordering
import Rostering.Proofs.Seats

namespace Rostering

/-! The past shifts that the rows of a history make. Rows are filed by their date and then by their
key, and nothing else happens to them: each row that names a date and a volunteer is found again
once, under its own date and key. -/

theorem flatMap_filter_perm [BEq β] [LawfulBEq β] {f : α → β} {keys : List β}
    (hkeys : keys.Nodup) {items : List α} (hmem : ∀ x ∈ items, f x ∈ keys) :
    (keys.flatMap fun key => items.filter fun x => f x == key).Perm items := by
  induction keys generalizing items with
  | nil =>
      have hnone : items = [] := List.eq_nil_iff_forall_not_mem.mpr fun x hx => by
        simpa using hmem x hx
      simp [hnone]
  | cons key rest ih =>
      obtain ⟨hkey, hrest⟩ := List.nodup_cons.mp hkeys
      -- The other keys file what is left once the items of this one are taken out.
      have hothers : (rest.flatMap fun k => items.filter fun x => f x == k) =
          rest.flatMap fun k => (items.filter fun x => !(f x == key)).filter fun x => f x == k := by
        refine List.flatMap_congr fun k hk => ?_
        rw [List.filter_filter]
        refine List.filter_congr fun x _ => ?_
        by_cases hx : f x = k
        · have hne : k ≠ key := fun heq => hkey (heq ▸ hk)
          simp [hx, hne]
        · simp [hx]
      rw [List.flatMap_cons, hothers]
      refine ((List.Perm.refl _).append (ih hrest fun x hx => ?_)).trans
        (List.filter_append_perm _ _)
      obtain ⟨hx, hother⟩ := List.mem_filter.mp hx
      exact (List.mem_cons.mp (hmem x hx)).resolve_left (by simpa using hother)

namespace Intake

def textAt (row : Value) (column : String) : String := (row.under column).cellText

/-- A row counts if it names a date and a volunteer. -/
def Counted (row : Value) : Prop := textAt row "date" ≠ "" ∧ textAt row "volunteer_id" ≠ ""

instance : DecidablePred Counted := fun _ => inferInstanceAs (Decidable (_ ∧ _))

/-- The key that a row goes under: its own, or that of the volunteer alone. -/
def keyAt (row : Value) : String :=
  if textAt row "group_key" = "" then individualMark ++ textAt row "volunteer_id"
  else textAt row "group_key"

def leadsAt (row : Value) : Bool := Role.ofText (textAt row "role") == .teamLead

def counted (rows : List Value) : List Value := rows.filter fun row => decide (Counted row)

def rowsOn (rows : List Value) (date : String) : List Value :=
  (counted rows).filter fun row => textAt row "date" == date

def rowsUnder (rows : List Value) (key : String) : List Value :=
  rows.filter fun row => keyAt row == key

variable {rows : List Value} {row : Value} {date key : String}

theorem mem_counted : row ∈ counted rows ↔ row ∈ rows ∧ Counted row := by
  rw [counted, List.mem_filter, decide_eq_true_iff]

theorem mem_rowsOn : row ∈ rowsOn rows date ↔ row ∈ counted rows ∧ textAt row "date" = date := by
  rw [rowsOn, List.mem_filter, beq_iff_eq]

theorem mem_rowsUnder : row ∈ rowsUnder rows key ↔ row ∈ rows ∧ keyAt row = key := by
  rw [rowsUnder, List.mem_filter, beq_iff_eq]

def entryAt (row : Value) : HistoryEntry where
  date := textAt row "date"
  groupKey := keyAt row
  volunteerId := textAt row "volunteer_id"
  isTeamLead := leadsAt row

theorem cell_textAt (fields : Fields) (column : String) :
    cell (.record fields) column = .ok (textAt (.record fields) column) :=
  rfl

theorem entryOfRow_record (fields : Fields) :
    entryOfRow (.record fields) =
      .ok (if Counted (.record fields) then some (entryAt (.record fields)) else none) := by
  simp only [entryOfRow, cell_textAt, ← leadsAt.eq_1, bind, Except.bind, pure, Except.pure]
  by_cases hdate : textAt (.record fields) "date" = ""
  · simp [Counted, hdate]
  · by_cases hvolunteer : textAt (.record fields) "volunteer_id" = ""
    · simp [Counted, hvolunteer]
    · simp [Counted, entryAt, keyAt, hdate, hvolunteer]

theorem entryOfRow_eq_ok_iff {found : Option HistoryEntry} :
    entryOfRow row = .ok found ↔
      (∃ fields, row = .record fields) ∧
        found = if Counted row then some (entryAt row) else none := by
  cases row with
  | record fields => simp [entryOfRow_record, eq_comm]
  | _ => simp [entryOfRow, cell, Value.toFields, bind, Except.bind]

theorem gather_entryOfRow_eq_ok_iff {entries : List HistoryEntry} :
    gather entryOfRow rows = .ok entries ↔
      (∀ row ∈ rows, ∃ fields, row = .record fields) ∧ entries = (counted rows).map entryAt := by
  induction rows generalizing entries with
  | nil =>
      have hnil : gather entryOfRow [] = .ok [] := rfl
      simp [hnil, counted, eq_comm]
  | cons row rest ih =>
      have hcons : (counted (row :: rest)).map entryAt =
          (if Counted row then some (entryAt row) else none).toList ++
            (counted rest).map entryAt := by
        by_cases hcounted : Counted row <;> simp [counted, hcounted]
      rw [gather_cons, List.forall_mem_cons, hcons]
      simp only [bind_eq_ok, pure_eq_ok, entryOfRow_eq_ok_iff, ih]
      constructor
      · rintro ⟨found, ⟨hrow, rfl⟩, more, ⟨hrest, rfl⟩, rfl⟩
        exact ⟨⟨hrow, hrest⟩, rfl⟩
      · rintro ⟨⟨hrow, hrest⟩, rfl⟩
        exact ⟨_, ⟨hrow, rfl⟩, _, ⟨hrest, rfl⟩, rfl⟩

theorem distinct_rising (texts : List String) : (distinct texts).Pairwise (· < ·) :=
  pairwise_lt_mergeSort_eraseDups texts

theorem mem_distinct {texts : List String} {text : String} :
    text ∈ distinct texts ↔ text ∈ texts := by
  rw [distinct, List.mem_mergeSort, List.mem_eraseDups]

theorem distinct_eq_insertionSort (texts : List String) :
    distinct texts = texts.eraseDups.insertionSort (· ≤ ·) :=
  List.mergeSort_eq_insertionSort _ _

theorem placementsOf_entryAt (rows : List Value) :
    placementsOf (rows.map entryAt) = (distinct (rows.map keyAt)).map fun key =>
      { groupKey := key
        memberIds := (rowsUnder rows key).map fun row => textAt row "volunteer_id"
        teamLeadId := ((rowsUnder rows key).find? leadsAt).map fun row =>
          textAt row "volunteer_id" } := by
  rw [placementsOf, List.map_map]
  refine List.map_congr_left fun key _ => ?_
  have hunder : (rows.map entryAt).filter (fun e => e.groupKey == key) =
      (rowsUnder rows key).map entryAt := by
    rw [List.filter_map]
    rfl
  simp only [placementOf, hunder, List.map_map, List.find?_map, Option.map_map]
  simp only [Function.comp_def, entryAt]

end Intake

open Intake

/-- A past shift that some rows of one date make: a placement for each key, with the members in the
order of the rows and the first of them who leads, and no seat left over. -/
structure Shift.Recounts (s : Shift) (rows : List Value) : Prop where
  keys_rising : s.groupKeys.Pairwise (· < ·)
  mem_keys : ∀ key, key ∈ s.groupKeys ↔ ∃ row ∈ rows, keyAt row = key
  members : ∀ p ∈ s.placements,
    p.memberIds = (rowsUnder rows p.groupKey).map fun row => textAt row "volunteer_id"
  lead : ∀ p ∈ s.placements, p.teamLeadId =
    ((rowsUnder rows p.groupKey).find? leadsAt).map fun row => textAt row "volunteer_id"
  preallocated_eq : s.preallocated = []
  size_eq : s.size = rows.length
  currentSize_eq : s.currentSize = rows.length
  isFull : s.isFull = true

theorem Shift.seats_perm {s : Shift} {rows : List Value} (hkeys : s.groupKeys.Nodup)
    (hmem : ∀ row ∈ rows, keyAt row ∈ s.groupKeys)
    (hmembers : ∀ p ∈ s.placements,
      p.memberIds = (rowsUnder rows p.groupKey).map fun row => textAt row "volunteer_id") :
    (s.placements.flatMap fun p => p.memberIds.map fun id => (p.groupKey, id)).Perm
      (rows.map fun row => (keyAt row, textAt row "volunteer_id")) := by
  refine List.Perm.trans (.of_eq ?_) ((flatMap_filter_perm hkeys hmem).map _)
  rw [List.map_flatMap, Shift.groupKeys, List.flatMap_map]
  refine List.flatMap_congr fun p hp => ?_
  rw [hmembers p hp, List.map_map]
  refine List.map_congr_left fun row hrow => ?_
  rw [Function.comp_apply, (mem_rowsUnder.mp hrow).2]

theorem recounts_historical (day : Day) (index : Int) (rows : List Value) :
    (Shift.historical day index (placementsOf (rows.map entryAt))).Recounts rows := by
  generalize hs : Shift.historical day index (placementsOf (rows.map entryAt)) = s
  have hplacements : s.placements = placementsOf (rows.map entryAt) := by
    rw [← hs, Shift.historical]
  have hkeys : s.groupKeys = distinct (rows.map keyAt) := by
    rw [Shift.groupKeys, hplacements, placementsOf_entryAt, List.map_map]
    exact List.map_id _
  have hrising : s.groupKeys.Pairwise (· < ·) := hkeys ▸ distinct_rising _
  have hmem : ∀ key, key ∈ s.groupKeys ↔ ∃ row ∈ rows, keyAt row = key := fun key => by
    rw [hkeys, mem_distinct, List.mem_map]
  have hplaced : ∀ p ∈ s.placements,
      p.memberIds = ((rowsUnder rows p.groupKey).map fun row => textAt row "volunteer_id") ∧
      p.teamLeadId = ((rowsUnder rows p.groupKey).find? leadsAt).map
        fun row => textAt row "volunteer_id" := by
    intro p hp
    rw [hplacements, placementsOf_entryAt, List.mem_map] at hp
    obtain ⟨key, -, rfl⟩ := hp
    exact ⟨rfl, rfl⟩
  have hseats : Shift.headcount s.placements = rows.length := by
    have hlength := (Shift.seats_perm (hrising.imp ne_of_lt)
      (fun row hrow => (hmem _).mpr ⟨row, hrow, rfl⟩) fun p hp => (hplaced p hp).1).length_eq
    rw [← Shift.length_memberIds, Shift.memberIds]
    simpa [List.length_flatMap] using hlength
  have hsize : s.size = rows.length := by
    have hsize : s.size = (0 : Nat) + Shift.headcount s.placements := by
      rw [hplacements, ← hs, Shift.historical, List.length_nil]
    omega
  have hcurrent : s.currentSize = rows.length := by
    rw [Shift.currentSize, hseats, ← hs, Shift.historical, List.length_nil, Nat.zero_add]
  constructor
  case keys_rising => exact hrising
  case mem_keys => exact hmem
  case members => exact fun p hp => (hplaced p hp).1
  case lead => exact fun p hp => (hplaced p hp).2
  case preallocated_eq => rw [← hs, Shift.historical]
  case size_eq => exact hsize
  case currentSize_eq => exact hcurrent
  case isFull => exact decide_eq_true (by rw [hsize, hcurrent])

/-- Past shifts that the rows of a history make, with the date that each of them stands for. -/
structure Recounted (rows : List Value) (dates : List String) (shifts : List Shift) : Prop where
  length_eq : shifts.length = dates.length
  dates_rising : dates.Pairwise (· < ·)
  mem_dates : ∀ date, date ∈ dates ↔ ∃ row ∈ rows, Counted row ∧ textAt row "date" = date
  each : ∀ (k : Nat) (date : String) (s : Shift), dates[k]? = some date → shifts[k]? = some s →
    s.index = k ∧ Day.ofIsoText date = .ok s.day ∧ s.Recounts (rowsOn rows date)

/-- All places of volunteers on past shifts, each with the date of its shift and the key of its
placement. -/
def placesOn (dates : List String) (shifts : List Shift) : List (String × String × String) :=
  (dates.zip shifts).flatMap fun (date, s) =>
    s.placements.flatMap fun p => p.memberIds.map fun id => (date, p.groupKey, id)

namespace Recounted

variable {rows : List Value} {dates : List String} {shifts : List Shift}

theorem of_mem_zip (h : Recounted rows dates shifts) {date : String} {s : Shift}
    (hmem : (date, s) ∈ dates.zip shifts) : s.Recounts (rowsOn rows date) := by
  obtain ⟨k, hk⟩ := List.getElem?_of_mem hmem
  obtain ⟨hdate, hs⟩ := List.getElem?_zip_eq_some.mp hk
  exact (h.each k date s hdate hs).2.2

theorem map_fst_zip (h : Recounted rows dates shifts) : (dates.zip shifts).map Prod.fst = dates :=
  List.map_fst_zip h.length_eq.ge

theorem map_snd_zip (h : Recounted rows dates shifts) : (dates.zip shifts).map Prod.snd = shifts :=
  List.map_snd_zip h.length_eq.le

theorem date_mem (h : Recounted rows dates shifts) {row : Value} (hrow : row ∈ counted rows) :
    textAt row "date" ∈ dates := by
  obtain ⟨hrow, hcounted⟩ := mem_counted.mp hrow
  exact (h.mem_dates _).mpr ⟨row, hrow, hcounted, rfl⟩

theorem placesOn_perm (h : Recounted rows dates shifts) :
    (placesOn dates shifts).Perm ((counted rows).map fun row =>
      (textAt row "date", keyAt row, textAt row "volunteer_id")) := by
  have hdates : dates.Nodup := h.dates_rising.imp ne_of_lt
  have hshifts : (placesOn dates shifts).Perm ((dates.zip shifts).flatMap fun pair =>
      (rowsOn rows pair.1).map fun row =>
        (textAt row "date", keyAt row, textAt row "volunteer_id")) := by
    refine List.Perm.flatMap_left _ fun (date, s) hmem => ?_
    have hrecounts := h.of_mem_zip hmem
    have hperm := Shift.seats_perm (hrecounts.keys_rising.imp ne_of_lt)
      (fun row hrow => (hrecounts.mem_keys _).mpr ⟨row, hrow, rfl⟩) hrecounts.members
    have hdate : ((rowsOn rows date).map fun row =>
        (textAt row "date", keyAt row, textAt row "volunteer_id")) =
        ((rowsOn rows date).map fun row => (keyAt row, textAt row "volunteer_id")).map
          fun seat => (date, seat) := by
      rw [List.map_map]
      refine List.map_congr_left fun row hrow => ?_
      rw [Function.comp_apply, (mem_rowsOn.mp hrow).2]
    rw [hdate]
    simpa only [List.map_flatMap, List.map_map, Function.comp_def] using
      hperm.map fun seat => (date, seat)
  have hfiled := flatMap_filter_perm hdates fun row hrow => h.date_mem hrow
  refine hshifts.trans (.trans (.of_eq ?_) (hfiled.map _))
  conv_rhs => rw [← h.map_fst_zip, List.flatMap_map, List.map_flatMap]
  rfl

theorem countWorked_eq (h : Recounted rows dates shifts) (key : String) :
    Resolution.countWorked shifts key =
      ((rowsUnder (counted rows) key).map fun row => textAt row "date").toFinset.card := by
  have hdates : dates.Nodup := h.dates_rising.imp ne_of_lt
  have hon : ∀ date : String, (∃ row ∈ rowsOn rows date, keyAt row = key) ↔
      date ∈ (rowsUnder (counted rows) key).map fun row => textAt row "date" := by
    intro date
    simp only [mem_rowsOn, mem_rowsUnder, List.mem_map]
    constructor
    · rintro ⟨row, ⟨hrow, hdate⟩, hkey⟩
      exact ⟨row, ⟨hrow, hkey⟩, hdate⟩
    · rintro ⟨row, ⟨hrow, hkey⟩, hdate⟩
      exact ⟨row, ⟨hrow, hdate⟩, hkey⟩
  have hcount : Resolution.countWorked shifts key =
      dates.countP fun date => decide (∃ row ∈ rowsOn rows date, keyAt row = key) := by
    rw [Resolution.countWorked]
    conv_lhs => rw [← h.map_snd_zip, List.countP_map]
    conv_rhs => rw [← h.map_fst_zip, List.countP_map]
    refine List.countP_congr ?_
    rintro ⟨date, s⟩ hmem
    rw [Function.comp_apply, Function.comp_apply, Shift.hasGroup_iff, decide_eq_true_iff,
      (h.of_mem_zip hmem).mem_keys]
  rw [hcount, List.countP_eq_length_filter, ← List.toFinset_card_of_nodup (hdates.filter _)]
  refine congrArg Finset.card (Finset.ext fun date => ?_)
  rw [List.mem_toFinset, List.mem_toFinset, List.mem_filter, decide_eq_true_iff, hon,
    and_iff_right_iff_imp]
  intro hmem
  obtain ⟨row, hrow, rfl⟩ := List.mem_map.mp hmem
  exact h.date_mem (mem_rowsUnder.mp hrow).1

end Recounted

def shiftOn (rows : List Value) (date : String) (i : Nat) : Except Fault Shift := do
  return .historical (← Day.ofIsoText date) i (placementsOf ((rowsOn rows date).map entryAt))

theorem historyOfRows_eq_ok_iff {rows : List Value} {shifts : List Shift} :
    historyOfRows rows = .ok shifts ↔ (∀ row ∈ rows, ∃ fields, row = .record fields) ∧
      (distinct ((counted rows).map fun row => textAt row "date")).zipIdx.mapM
        (fun (date, i) => shiftOn rows date i) = .ok shifts := by
  have hon : ∀ date, ((counted rows).map entryAt).filter (fun e => e.date == date) =
      (rowsOn rows date).map entryAt := by
    intro date
    rw [List.filter_map]
    rfl
  rw [historyOfRows_eq, bind_eq_ok]
  simp only [gather_entryOfRow_eq_ok_iff]
  constructor
  · rintro ⟨_, ⟨hrecords, rfl⟩, hshifts⟩
    simp only [hon, List.map_map] at hshifts
    exact ⟨hrecords, hshifts⟩
  · rintro ⟨hrecords, hshifts⟩
    refine ⟨_, ⟨hrecords, rfl⟩, ?_⟩
    simp only [hon, List.map_map]
    exact hshifts

theorem recounted_of_historyOfRows {rows : List Value} {shifts : List Shift}
    (h : historyOfRows rows = .ok shifts) : ∃ dates, Recounted rows dates shifts := by
  obtain ⟨-, hshifts⟩ := historyOfRows_eq_ok_iff.mp h
  generalize hdates : distinct ((counted rows).map fun row => textAt row "date") = dates
    at hshifts
  have hmade := forall₂_of_mapM_eq_ok hshifts
  refine ⟨dates, ?_⟩
  constructor
  case length_eq => rw [← hmade.length_eq, List.length_zipIdx]
  case dates_rising => exact hdates ▸ distinct_rising _
  case mem_dates =>
    intro date
    simp only [← hdates, mem_distinct, List.mem_map, mem_counted, and_assoc]
  case each =>
    intro k date s hdate hs
    have hindexed : dates.zipIdx[k]? = some (date, k) := by simp [List.getElem?_zipIdx, hdate]
    obtain ⟨day, hday, hshift⟩ := bind_eq_ok.mp (rel_of_getElem? hmade hindexed hs)
    obtain rfl := pure_eq_ok.mp hshift
    exact ⟨rfl, hday, recounts_historical day k (rowsOn rows date)⟩

theorem exists_historyOfRows_iff {rows : List Value} :
    (∃ shifts, historyOfRows rows = .ok shifts) ↔
      (∀ row ∈ rows, ∃ fields, row = .record fields) ∧
      ∀ row ∈ rows, Counted row → ∃ day, Day.ofIsoText (textAt row "date") = .ok day := by
  constructor
  · rintro ⟨shifts, h⟩
    refine ⟨(historyOfRows_eq_ok_iff.mp h).1, fun row hrow hcounted => ?_⟩
    obtain ⟨dates, hrecounted⟩ := recounted_of_historyOfRows h
    obtain ⟨k, hk⟩ := List.getElem?_of_mem (hrecounted.date_mem (mem_counted.mpr ⟨hrow, hcounted⟩))
    have hlt : k < shifts.length := hrecounted.length_eq ▸ (List.getElem?_eq_some_iff.mp hk).1
    exact ⟨_, (hrecounted.each k _ _ hk (List.getElem?_eq_getElem hlt)).2.1⟩
  · rintro ⟨hrecords, hdays⟩
    have hreturns : FaultsOnly (fun _ => False)
        ((distinct ((counted rows).map fun row => textAt row "date")).zipIdx.mapM
          fun (date, i) => shiftOn rows date i) := by
      refine FaultsOnly.mapM fun (date, i) hdate => ?_
      obtain ⟨row, hrow, rfl⟩ :=
        List.mem_map.mp (mem_distinct.mp (List.fst_mem_of_mem_zipIdx hdate))
      obtain ⟨hrow, hcounted⟩ := mem_counted.mp hrow
      obtain ⟨day, hday⟩ := hdays row hrow hcounted
      simp only [shiftOn, hday]
      exact .ok _
    obtain ⟨shifts, hshifts⟩ := hreturns.exists_ok
    exact ⟨shifts, historyOfRows_eq_ok_iff.mpr ⟨hrecords, hshifts⟩⟩

/-- A history is read whenever its rows are records whose dates are days. Its shifts then hold the
rows that count, each once and under its own date and key, and a key has worked as often as there
are dates on which it has a row. -/
theorem history_recounted (rows : List Value) :
    ((∃ shifts, historyOfRows rows = .ok shifts) ↔
      (∀ row ∈ rows, ∃ fields, row = .record fields) ∧
      ∀ row ∈ rows, Counted row → ∃ day, Day.ofIsoText (textAt row "date") = .ok day) ∧
    ∀ shifts, historyOfRows rows = .ok shifts → ∃ dates, Recounted rows dates shifts ∧
      (placesOn dates shifts).Perm ((counted rows).map fun row =>
        (textAt row "date", keyAt row, textAt row "volunteer_id")) ∧
      ∀ key, Resolution.countWorked shifts key =
        ((rowsUnder (counted rows) key).map fun row => textAt row "date").toFinset.card := by
  refine ⟨exists_historyOfRows_iff, fun shifts h => ?_⟩
  obtain ⟨dates, hrecounted⟩ := recounted_of_historyOfRows h
  exact ⟨dates, hrecounted, hrecounted.placesOn_perm, hrecounted.countWorked_eq⟩

namespace Sample

/-- Rows of two dates out of order: a key that a volunteer left open and another gave, a lead among
several, and rows that name no date or nobody. -/
def pastRows : List Value := [
  .record [("date", "1917-07-29"), ("volunteer_id", "cy"), ("group_key", "red")],
  .record [("date", " 1917-07-22"), ("volunteer_id", "dot "), ("role", "TL")],
  .record [("date", "1917-07-29"), ("volunteer_id", "ada"), ("group_key", "red"),
    ("role", "Team Lead")],
  .record [("date", "1917-07-29"), ("volunteer_id", "bob"), ("group_key", "individual_dot"),
    ("role", "lead")],
  .record [("date", "1917-07-29"), ("volunteer_id", " "), ("group_key", "red")],
  .record [("volunteer_id", "cy")]]

def pastShifts : List Shift := [
  { day := week 1, index := 0, size := 1
    placements := [
      { groupKey := "individual_dot", memberIds := ["dot"], teamLeadId := some "dot" }] },
  { day := week 2, index := 1, size := 3
    placements := [
      { groupKey := "individual_dot", memberIds := ["bob"], teamLeadId := some "bob" },
      { groupKey := "red", memberIds := ["cy", "ada"], teamLeadId := some "ada" }] }]

theorem historyOfRows_pastRows : historyOfRows pastRows = .ok pastShifts := by
  refine toOption_eq_some_iff.mp ?_
  simp only [historyOfRows, placementsOf, distinct_eq_insertionSort]
  decide +kernel

end Sample

open Sample in
theorem history_recounted_sample :
    ∃ dates, Recounted pastRows dates pastShifts ∧
      (placesOn dates pastShifts).Perm ((counted pastRows).map fun row =>
        (textAt row "date", keyAt row, textAt row "volunteer_id")) ∧
      Resolution.countWorked pastShifts "individual_dot" = 2 ∧
      ((rowsUnder (counted pastRows) "individual_dot").map fun row =>
        textAt row "date").toFinset.card = 2 := by
  obtain ⟨dates, hrecounted, hplaces, hcount⟩ :=
    (history_recounted pastRows).2 pastShifts historyOfRows_pastRows
  have htwo : Resolution.countWorked pastShifts "individual_dot" = 2 := by decide +kernel
  exact ⟨dates, hrecounted, hplaces, htwo, (hcount "individual_dot").symm.trans htwo⟩

end Rostering
