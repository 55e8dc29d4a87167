import Paging.Proofs.Calendar.Stamp
import Paging.Proofs.Scalar.Equality
import Paging.Proofs.Scalar.Inference

/-!
The order of texts that are stamps. Up to the last instant they name their instants, so that they are in order
of time whatever their shifts. Later stamps name no instant, and are text or a date and time.
-/

namespace Paging

namespace Calendar.Stamp

/-- Stamps with the same shift follow one another as their dates and times do. -/
theorem nanoseconds_lt {a b : Stamp} (hshift : a.shift = b.shift)
    (h : compare (DateTime.mk a.date a.time) (DateTime.mk b.date b.time) = .lt) :
    a.nanoseconds < b.nanoseconds := by
  have hahead : a.ahead = b.ahead := by
    rw [ahead, ahead, hshift]
  have ha := And.intro a.hour_lt <| And.intro a.minute_lt <| And.intro a.second_lt a.nanosecond_lt
  have hb := And.intro b.hour_lt <| And.intro b.minute_lt <| And.intro b.second_lt b.nanosecond_lt
  change (compare a.date b.date).then (compare a.time b.time) = .lt at h
  unfold nanoseconds
  rcases Ordering.then_eq_lt.mp h with hdate | ⟨hdate, htime⟩
  · have hday := Date.dayNumber_lt hdate
    omega
  · rw [Std.LawfulEqOrd.eq_of_compare hdate]
    change (compare a.hour b.hour).then ((compare a.minute b.minute).then
      ((compare a.second b.second).then (compare a.nanosecond b.nanosecond))) = .lt at htime
    simp only [Ordering.then_eq_lt, compare_lt_iff_lt, compare_eq_iff_eq] at htime
    omega

end Calendar.Stamp

namespace Scalar

open Calendar

/-- A stamp that is later than all instants is text, or a date and time if it has a shift. -/
theorem ofText_stamp (stamp : Stamp) :
    ofText stamp.text =
      match Instant.of? stamp.nanoseconds with
      | some instant => .timestamp instant
      | none => if stamp.shift = none then .text stamp.text else .dateTime ⟨stamp.date, stamp.time⟩ := by
  have hspells := stamp.spells_chars
  have hshape := isDateShape_eq_false hspells rfl
  rw [← String.toList_ofList (l := stamp.chars)] at hspells
  rw [Stamp.text, ofText_of_spells hspells, stamp.instant?_eq, String.toList_ofList, hshape]
  cases Instant.of? stamp.nanoseconds with
  | some instant => rfl
  | none =>
    unfold Stamp.offset
    cases stamp.shift with
    | none => simp
    | some shift => simp [Grammar.Parts.wall]

theorem exists_ofText_stamp {stamp : Stamp} (h : stamp.nanoseconds ≤ Stamp.last.nanoseconds) :
    ∃ instant, ofText stamp.text = .timestamp instant ∧ instant.nanoseconds = stamp.nanoseconds := by
  obtain ⟨instant, hof, hnanoseconds⟩ := Stamp.exists_instant h
  refine ⟨instant, ?_, hnanoseconds⟩
  rw [ofText_stamp, hof]

theorem kind_ofText_stamp_iff (stamp : Stamp) :
    (ofText stamp.text).kind = .timestamp ↔ stamp.nanoseconds ≤ Stamp.last.nanoseconds := by
  constructor
  · intro hkind
    by_contra hlate
    rw [ofText_stamp, Stamp.of?_eq_none (not_le.mp hlate)] at hkind
    dsimp only at hkind
    split at hkind <;> cases hkind
  · intro h
    obtain ⟨instant, hread, _⟩ := exists_ofText_stamp h
    rw [hread]
    rfl

/-- Stamps up to the last instant name instants, and are in order of time. -/
theorem compare_ofText_stamps {a b : Stamp} (ha : a.nanoseconds ≤ Stamp.last.nanoseconds)
    (hb : b.nanoseconds ≤ Stamp.last.nanoseconds) :
    (ofText a.text).kind = .timestamp ∧ (ofText b.text).kind = .timestamp ∧
      compare (ofText a.text) (ofText b.text) = compare a.nanoseconds b.nanoseconds := by
  obtain ⟨first, hfirst, hfirstNanoseconds⟩ := exists_ofText_stamp ha
  obtain ⟨second, hsecond, hsecondNanoseconds⟩ := exists_ofText_stamp hb
  refine ⟨(kind_ofText_stamp_iff a).mpr ha, (kind_ofText_stamp_iff b).mpr hb, ?_⟩
  rw [hfirst, hsecond, ← hfirstNanoseconds, ← hsecondNanoseconds]
  rfl

/-- A stamp of the next day by its date is earlier than the last instant by its shift. -/
theorem compare_stamps_across_shifts :
    let shifted : Stamp :=
      { date := ⟨9999, 12, 31, by decide, by decide, by decide⟩
        hour := 21
        minute := 58
        second := 0
        fraction := ['2', '5']
        shift := some { behind := false, hour := 23, minute := 59 } }
    shifted.text = "9999-12-31T21:58:00.25+23:59" ∧ shifted.nanoseconds ≤ Stamp.last.nanoseconds ∧
      (ofText shifted.text).kind = .timestamp ∧ (ofText Stamp.last.text).kind = .timestamp ∧
      compare (ofText shifted.text) (ofText Stamp.last.text) = .lt := by
  intro shifted
  have hshifted : shifted.nanoseconds ≤ Stamp.last.nanoseconds := by decide
  obtain ⟨hkind, hkindLast, hcompare⟩ := compare_ofText_stamps hshifted (le_refl Stamp.last.nanoseconds)
  exact ⟨by decide +kernel, hshifted, hkind, hkindLast, hcompare.trans (by decide)⟩

/-- The last second of the year 9999 in universal time names no instant. -/
theorem not_compare_ofText_stamps :
    ¬∀ a b : Stamp, (ofText a.text).kind = .timestamp ∧ (ofText b.text).kind = .timestamp ∧
      compare (ofText a.text) (ofText b.text) = compare a.nanoseconds b.nanoseconds := by
  intro h
  let final : Stamp :=
    { date := ⟨9999, 12, 31, by decide, by decide, by decide⟩
      hour := 23
      minute := 59
      second := 59
      fraction := []
      shift := none }
  obtain ⟨hkind, _, _⟩ := h final Stamp.last
  rw [kind_ofText_stamp_iff] at hkind
  exact absurd hkind (by decide)

end Scalar

end Paging
