import Rostering.Proofs.DateTexts
import Rostering.Proofs.PastShifts

namespace Rostering

open Text Intake

/-! The order of past shifts. They come in the order of their dates as texts, which is that of the
days where all dates have one form. Dates of several forms may go back in time, and one day may then
have two shifts. -/

/-- Each shift is on a later day than the one before it. -/
def Rising (shifts : List Shift) : Prop :=
  shifts.Pairwise fun s later => s.day.number < later.day.number

/-- The dates of rows have the same order as texts and as days. -/
def DatesInOrder (rows : List Value) : Prop :=
  ∀ row ∈ counted rows, ∀ other ∈ counted rows, textAt row "date" < textAt other "date" →
    ∀ day later, Day.ofIsoText (textAt row "date") = .ok day →
      Day.ofIsoText (textAt other "date") = .ok later → day.number < later.number

def daysUnder (rows : List Value) (key : String) : Finset Day :=
  ((rowsUnder (counted rows) key).filterMap fun row =>
    (Day.ofIsoText (textAt row "date")).toOption).toFinset

instance : DecidablePred Rising := fun _ => inferInstanceAs (Decidable (List.Pairwise _ _))

variable {rows : List Value} {dates : List String} {shifts : List Shift}

theorem mem_daysUnder {key : String} {day : Day} : day ∈ daysUnder rows key ↔
    ∃ row ∈ counted rows, keyAt row = key ∧ Day.ofIsoText (textAt row "date") = .ok day := by
  simp only [daysUnder, List.mem_toFinset, List.mem_filterMap, mem_rowsUnder, toOption_eq_some_iff,
    and_assoc]

/-- Two texts that state one day in one form come in neither order. -/
theorem DatesInOrder.of_form {form : String} (hform : form ∈ Day.isoForms)
    (hdates : ∀ row ∈ counted rows, Day.HasForm form (textAt row "date")) : DatesInOrder rows :=
  fun row hrow other hother hlt _ _ hday hlater =>
    Day.ofIsoText_lt hform (hdates row hrow) (hdates other hother) hlt hday hlater

namespace Recounted

theorem day_of_mem_zip (h : Recounted rows dates shifts) {date : String} {s : Shift}
    (hmem : (date, s) ∈ dates.zip shifts) : Day.ofIsoText date = .ok s.day := by
  obtain ⟨k, hk⟩ := List.getElem?_of_mem hmem
  obtain ⟨hdate, hs⟩ := List.getElem?_zip_eq_some.mp hk
  exact (h.each k date s hdate hs).2.1

theorem exists_shift_of_date (h : Recounted rows dates shifts) {date : String}
    (hdate : date ∈ dates) : ∃ s, (date, s) ∈ dates.zip shifts := by
  rw [← h.map_fst_zip, List.mem_map] at hdate
  obtain ⟨⟨_, s⟩, hmem, rfl⟩ := hdate
  exact ⟨s, hmem⟩

theorem exists_date_of_shift (h : Recounted rows dates shifts) {s : Shift}
    (hs : s ∈ shifts) : ∃ date, (date, s) ∈ dates.zip shifts := by
  rw [← h.map_snd_zip, List.mem_map] at hs
  obtain ⟨⟨date, _⟩, hmem, rfl⟩ := hs
  exact ⟨date, hmem⟩

theorem exists_row_of_date (h : Recounted rows dates shifts) {date : String}
    (hdate : date ∈ dates) : ∃ row ∈ counted rows, textAt row "date" = date := by
  obtain ⟨row, hrow, hcounted, hdate⟩ := (h.mem_dates date).mp hdate
  exact ⟨row, mem_counted.mpr ⟨hrow, hcounted⟩, hdate⟩

theorem rising_iff (h : Recounted rows dates shifts) : Rising shifts ↔ DatesInOrder rows := by
  have hpaired : Rising shifts ↔ (dates.zip shifts).Pairwise
      fun pair later => pair.2.day.number < later.2.day.number := by
    rw [Rising]
    conv_lhs => rw [← h.map_snd_zip, List.pairwise_map]
  have hdates : (dates.zip shifts).Pairwise fun pair later => pair.1 < later.1 := by
    have hrising := h.dates_rising
    rwa [← h.map_fst_zip, List.pairwise_map] at hrising
  rw [hpaired]
  constructor
  · intro hrising row hrow other hother hlt day later hday hlater
    obtain ⟨s, hs⟩ := h.exists_shift_of_date (h.date_mem hrow)
    obtain ⟨t, ht⟩ := h.exists_shift_of_date (h.date_mem hother)
    obtain rfl := Except.ok.inj (hday.symm.trans (h.day_of_mem_zip hs))
    obtain rfl := Except.ok.inj (hlater.symm.trans (h.day_of_mem_zip ht))
    have hforward := hrising.imp fun {pair later} hlt (_ : pair.1 < later.1) => hlt
    have hback := hdates.imp fun {pair later} hlt (hback : later.1 < pair.1) =>
      show later.2.day.number < pair.2.day.number from absurd hback hlt.not_gt
    exact List.Pairwise.forall_of_forall_of_flip (fun pair _ hself => absurd hself (lt_irrefl _))
      hforward hback hs ht hlt
  · intro hordered
    refine hdates.imp_of_mem fun {pair later} hpair hlater hlt => ?_
    obtain ⟨row, hrow, hdate⟩ := h.exists_row_of_date (List.of_mem_zip hpair).1
    obtain ⟨other, hother, hnext⟩ := h.exists_row_of_date (List.of_mem_zip hlater).1
    exact hordered row hrow other hother (hdate ▸ hnext ▸ hlt) _ _ (hdate ▸ h.day_of_mem_zip hpair)
      (hnext ▸ h.day_of_mem_zip hlater)

theorem latest_of_rising (h : Recounted rows dates shifts) (hrising : Rising shifts) {last : Shift}
    (hlast : shifts.getLast? = some last) {row : Value} (hrow : row ∈ counted rows) {day : Day}
    (hday : Day.ofIsoText (textAt row "date") = .ok day) : day.number ≤ last.day.number := by
  obtain ⟨s, hs⟩ := h.exists_shift_of_date (h.date_mem hrow)
  obtain rfl := Except.ok.inj (hday.symm.trans (h.day_of_mem_zip hs))
  obtain ⟨earlier, rfl⟩ := List.getLast?_eq_some_iff.mp hlast
  rcases List.mem_append.mp (List.of_mem_zip hs).2 with hs | hs
  · exact (List.pairwise_append.mp hrising).2.2 s hs last List.mem_cons_self |>.le
  · exact (List.mem_singleton.mp hs ▸ Nat.le_refl _)

theorem countWorked_of_rising (h : Recounted rows dates shifts) (hrising : Rising shifts)
    (key : String) : Resolution.countWorked shifts key = (daysUnder rows key).card := by
  have hnodup : ((shifts.filter (·.hasGroup key)).map Shift.day).Nodup := by
    refine List.pairwise_map.mpr ((hrising.filter _).imp fun hlt heq => ?_)
    rw [heq] at hlt
    exact lt_irrefl _ hlt
  rw [Resolution.countWorked, List.countP_eq_length_filter, ← List.length_map Shift.day,
    ← List.toFinset_card_of_nodup hnodup]
  refine congrArg Finset.card (Finset.ext fun day => ?_)
  rw [mem_daysUnder, List.mem_toFinset, List.mem_map]
  constructor
  · rintro ⟨s, hs, rfl⟩
    obtain ⟨hs, hkey⟩ := List.mem_filter.mp hs
    obtain ⟨date, hmem⟩ := h.exists_date_of_shift hs
    obtain ⟨row, hrow, hkey⟩ := ((h.of_mem_zip hmem).mem_keys key).mp (Shift.hasGroup_iff.mp hkey)
    obtain ⟨hrow, hdate⟩ := mem_rowsOn.mp hrow
    exact ⟨row, hrow, hkey, hdate ▸ h.day_of_mem_zip hmem⟩
  · rintro ⟨row, hrow, hkey, hday⟩
    obtain ⟨s, hmem⟩ := h.exists_shift_of_date (h.date_mem hrow)
    refine ⟨s, List.mem_filter.mpr ⟨(List.of_mem_zip hmem).2, Shift.hasGroup_iff.mpr ?_⟩,
      Except.ok.inj ((h.day_of_mem_zip hmem).symm.trans hday)⟩
    exact ((h.of_mem_zip hmem).mem_keys key).mpr ⟨row, mem_rowsOn.mpr ⟨hrow, rfl⟩, hkey⟩

end Recounted

/-- Past shifts are on rising days just when their dates have the order of their days, as they do in
every single form. The last of them is then the latest that was worked, and a key has worked as
often as there are days on which it has a row. -/
theorem past_days_rising (rows : List Value) (shifts : List Shift)
    (h : historyOfRows rows = .ok shifts) :
    (Rising shifts ↔ DatesInOrder rows) ∧
    (∀ form ∈ Day.isoForms, (∀ row ∈ counted rows, Day.HasForm form (textAt row "date")) →
      Rising shifts) ∧
    (Rising shifts →
      (∀ last, shifts.getLast? = some last → ∀ row ∈ counted rows, ∀ day,
        Day.ofIsoText (textAt row "date") = .ok day → day.number ≤ last.day.number) ∧
      ∀ key, Resolution.countWorked shifts key = (daysUnder rows key).card) := by
  obtain ⟨dates, hrecounted⟩ := recounted_of_historyOfRows h
  refine ⟨hrecounted.rising_iff, fun form hform hdates => ?_, fun hrising => ⟨?_, ?_⟩⟩
  · exact hrecounted.rising_iff.mpr (.of_form hform hdates)
  · exact fun last hlast row hrow day hday => hrecounted.latest_of_rising hrising hlast hrow hday
  · exact hrecounted.countWorked_of_rising hrising

open Sample in
theorem past_days_rising_sample :
    Rising pastShifts ∧ DatesInOrder pastRows ∧ (daysUnder pastRows "individual_dot").card = 2 := by
  obtain ⟨hiff, hforms, hlatest⟩ := past_days_rising pastRows pastShifts historyOfRows_pastRows
  have hrising : Rising pastShifts := hforms "0000-00-00" (by decide) (by decide +kernel)
  have hcount := (hlatest hrising).2 "individual_dot"
  exact ⟨hrising, hiff.mp hrising, hcount.symm.trans (by decide +kernel)⟩

namespace Sample

def mixedRows : List Value := [
  .record [("date", "1917-W29-7"), ("volunteer_id", "ada")],
  .record [("date", "1917-07-29"), ("volunteer_id", "cy")]]

def repeatedRows : List Value := [
  .record [("date", "1917-07-22"), ("volunteer_id", "ada")],
  .record [("date", "19170722"), ("volunteer_id", "ada")]]

end Sample

open Sample in
theorem mixed_dates_go_back :
    (∃ shifts, historyOfRows mixedRows = .ok shifts ∧ ¬ Rising shifts) ∧
    ∃ shifts, historyOfRows repeatedRows = .ok shifts ∧ ¬ Rising shifts ∧
      Resolution.countWorked shifts "individual_ada" = 2 ∧
      (daysUnder repeatedRows "individual_ada").card = 1 := by
  have hmixed : (historyOfRows mixedRows).toOption.map (fun shifts => decide (Rising shifts)) =
      some false := by
    simp only [historyOfRows, placementsOf, distinct_eq_insertionSort]
    decide +kernel
  have hrepeated : (historyOfRows repeatedRows).toOption.map (fun shifts =>
      (decide (Rising shifts), Resolution.countWorked shifts "individual_ada")) =
      some (false, 2) := by
    simp only [historyOfRows, placementsOf, distinct_eq_insertionSort]
    decide +kernel
  obtain ⟨shifts, hshifts, hrising⟩ := exists_ok_of_toOption_map hmixed
  obtain ⟨again, hagain, hboth⟩ := exists_ok_of_toOption_map hrepeated
  obtain ⟨hstill, hcount⟩ := Prod.mk.inj hboth
  exact ⟨⟨shifts, hshifts, of_decide_eq_false hrising⟩, again, hagain, of_decide_eq_false hstill,
    hcount, by decide +kernel⟩

end Rostering
