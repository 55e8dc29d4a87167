import Paging.Proofs.Calendar.RoundTrip
import Paging.Scalar.Text

/-!
The scalar that a text names. What a text spells decides its kind, and the canonical text of a scalar that
was read names the same scalar again. A date and time is also read from texts without a time that are not
written as plain dates are, and from texts with an offset whose instant is out of range.
-/

namespace Paging.Scalar

open Calendar Grammar

variable {text : String} {parts : Parts}

/-- A text of the shape of dates starts with a digit, and has no characters but digits and hyphens. -/
theorem chars_of_isDateShape {chars : List Char} (h : isDateShape chars = true) :
    (∃ c ∈ chars.head?, c.isDigit = true) ∧ ∀ c ∈ chars, c.isDigit = true ∨ c = '-' := by
  unfold isDateShape at h
  split at h
  · simp only [List.all_cons, List.all_nil, Bool.and_eq_true, beq_iff_eq] at h
    simp [h]
  · cases h

/-- The shape of dates leaves no room for a time, and none for the sign of a year. -/
theorem of_isDateShape {chars : List Char} (h : Spells chars parts) (hshape : isDateShape chars = true) :
    parts.time = none ∧ 0 ≤ parts.date.year := by
  obtain ⟨⟨first, hfirst, hdigit⟩, hall⟩ := chars_of_isDateShape hshape
  -- What a time starts with is neither a digit nor a hyphen.
  have hmark : ∀ c ∈ chars, ¬isTimeMark c = true := by
    intro c hc htime
    simp only [isTimeMark, Bool.or_eq_true, beq_iff_eq] at htime
    rcases htime with (rfl | rfl) | rfl <;> exact absurd (hall _ hc) (by decide)
  cases h with
  | @date d a date hdate _ =>
    refine ⟨rfl, ?_⟩
    obtain ⟨_, hyear, _, _⟩ := hdate
    dsimp only
    generalize date.year = year at hyear
    cases hyear with
    | plain _ => exact Int.natCast_nonneg _
    | ahead _ => exact Int.natCast_nonneg _
    | behind _ _ =>
      cases hfirst
      exact absurd hdigit (by decide)
  | @time c _ _ _ _ _ _ hmark' _ _ => exact absurd hmark' (hmark c (by simp))
  | @offset c _ _ _ _ _ _ _ _ hmark' _ _ _ => exact absurd hmark' (hmark c (by simp))

theorem isDateShape_eq_false {chars : List Char} {time : Time} (h : Spells chars parts)
    (htime : parts.time = some time) : isDateShape chars = false := by
  rw [Bool.eq_false_iff]
  intro hshape
  rw [(of_isDateShape h hshape).1] at htime
  cases htime

theorem ofText_of_spells (h : Spells text.toList parts) :
    ofText text =
      match parts.instant? with
      | some instant => .timestamp instant
      | none =>
        if isDateShape text.toList then .date parts.date
        else if parts.offset = some .universal then .text text
        else .dateTime parts.wall := by
  rw [ofText, Instant.ofText?_of_spells h]
  cases parts.instant? with
  | some instant => rfl
  | none =>
    dsimp only
    rw [plainDate?, Date.ofText?, DateTime.ofText?_of_spells h]
    by_cases hshape : isDateShape text.toList = true
    · have hoffset := h.offset_eq_none (of_isDateShape h hshape).1
      simp [hshape, hoffset, Parts.wall]
    · by_cases hoffset : parts.offset = some .universal
      · simp [hshape, hoffset]
      · simp [hshape, hoffset]

theorem ofText_of_not_spells (h : ∀ parts, ¬Spells text.toList parts) : ofText text = .text text := by
  simp [ofText, plainDate?, Instant.ofText?, Date.ofText?, DateTime.ofText?, parts?_eq_none h]

theorem ofText_eq_dateTime_iff_of_spells {wall : DateTime} (h : Spells text.toList parts) :
    ofText text = .dateTime wall ↔ parts.wall = wall ∧ parts.instant? = none ∧
      isDateShape text.toList = false ∧ parts.offset ≠ some .universal := by
  rw [ofText_of_spells h]
  cases parts.instant? with
  | some instant => simp
  | none =>
    by_cases hshape : isDateShape text.toList = true
    · simp [hshape]
    · by_cases hoffset : parts.offset = some .universal
      · simp [hshape, hoffset]
      · simp [hshape, hoffset]

/--
Exactly these texts name a date and time: those that spell a time and no offset; those without a time that
are not written as plain dates are; and those with a numeric offset that stand for no instant in range.
-/
theorem ofText_eq_dateTime_iff (text : String) (wall : DateTime) :
    ofText text = .dateTime wall ↔
      ∃ parts, Spells text.toList parts ∧ parts.wall = wall ∧
        ((∃ time, parts.time = some time ∧ parts.offset = none) ∨
          (parts.time = none ∧ isDateShape text.toList = false) ∨
          ∃ time seconds, parts.time = some time ∧ parts.offset = some (.numeric seconds) ∧
            (26 * 3600 ≤ seconds.natAbs ∨ Instant.ofDateTime? ⟨parts.date, time⟩ seconds = none)) := by
  constructor
  · intro h
    by_cases hspelled : ∃ parts, Spells text.toList parts
    · obtain ⟨⟨date, time, offset⟩, hspells⟩ := hspelled
      obtain ⟨hwall, hinstant, hshape, hoffset⟩ := (ofText_eq_dateTime_iff_of_spells hspells).mp h
      refine ⟨_, hspells, hwall, ?_⟩
      cases time with
      | none => exact Or.inr (Or.inl ⟨rfl, hshape⟩)
      | some time =>
        cases offset with
        | none => exact Or.inl ⟨time, rfl, rfl⟩
        | some offset =>
          cases offset with
          | universal => exact absurd rfl hoffset
          | numeric seconds =>
            exact Or.inr (Or.inr ⟨time, seconds, rfl, rfl, Parts.instant?_numeric_eq_none_iff.mp hinstant⟩)
    · rw [ofText_of_not_spells fun parts hparts => hspelled ⟨parts, hparts⟩] at h
      cases h
  · rintro ⟨⟨date, time, offset⟩, hspells, hwall, hcases⟩
    apply (ofText_eq_dateTime_iff_of_spells hspells).mpr
    obtain ⟨time, rfl, rfl⟩ | ⟨rfl, hshape⟩ | ⟨time, seconds, rfl, rfl, hrange⟩ := hcases
    · exact ⟨hwall, rfl, isDateShape_eq_false hspells rfl, by simp⟩
    · obtain rfl := hspells.offset_eq_none rfl
      exact ⟨hwall, rfl, hshape, by simp⟩
    · exact ⟨hwall, Parts.instant?_numeric_eq_none_iff.mpr hrange, isDateShape_eq_false hspells rfl, by simp⟩

/-- A day without hyphens has no time, and names a date and time all the same. -/
theorem not_time_of_ofText_eq_dateTime :
    ¬∀ (text : String) (wall : DateTime), ofText text = .dateTime wall →
      ∃ parts, Spells text.toList parts ∧ parts.time ≠ none ∧ parts.offset = none := by
  intro h
  let date : Date := ⟨2024, 1, 1, by decide, by decide, by decide⟩
  obtain ⟨parts, hspells, htime, _⟩ := h "20240101" ⟨date, .midnight⟩ (by decide +kernel)
  have hread : parts? "20240101".toList = some ⟨date, none, none⟩ := rfl
  rw [hspells.read] at hread
  cases hread
  exact htime rfl

theorem ofText_instantChars (instant : Instant) :
    ofText (String.ofList instant.chars) = .timestamp instant := by
  rw [ofText, Instant.ofText?_chars]

theorem ofText_dateTimeChars (wall : DateTime) : ofText (String.ofList wall.chars) = .dateTime wall := by
  have hspells := spells_dateTimeChars wall
  have hshape := isDateShape_eq_false hspells rfl
  rw [← String.toList_ofList (l := wall.chars)] at hspells
  rw [ofText_of_spells hspells, String.toList_ofList, hshape]
  rfl

theorem isDateShape_of_digits {y m d : List Char} {year month day : Nat} (hy : Digits 4 y year)
    (hm : Digits 2 m month) (hd : Digits 2 d day) : isDateShape (y ++ '-' :: (m ++ '-' :: d)) = true := by
  obtain ⟨y₁, y', rfl⟩ := List.exists_of_length_succ y hy.length_eq
  obtain ⟨y₂, y₃, y₄, rfl⟩ := List.length_eq_three.mp (Nat.succ.inj hy.length_eq)
  obtain ⟨m₁, m₂, rfl⟩ := List.length_eq_two.mp hm.length_eq
  obtain ⟨d₁, d₂, rfl⟩ := List.length_eq_two.mp hd.length_eq
  have hyear := hy.isDigit
  have hmonth := hm.isDigit
  have hday := hd.isDigit
  simp only [List.forall_mem_cons, List.not_mem_nil] at hyear hmonth hday
  simp [isDateShape, hyear, hmonth, hday]

/-- A year that is not negative has four digits, so that its dates are written in the shape of dates. -/
theorem isDateShape_chars {date : Date} (h : 0 ≤ date.year) : isDateShape date.chars = true := by
  obtain ⟨hmonth, hday⟩ := digits_monthAndDay date
  have hrange := date.year_range
  obtain ⟨n, hn⟩ := Int.eq_ofNat_of_zero_le h
  have hyear : yearChars date.year = padded 4 n := by
    rw [hn]
    rfl
  rw [Date.chars, hyear]
  exact isDateShape_of_digits (digits_padded (by decide) (by omega)) hmonth hday

theorem ofText_dateChars {date : Date} (h : 0 ≤ date.year) :
    ofText (String.ofList date.chars) = .date date := by
  have hspells := spells_dateChars date
  rw [← String.toList_ofList (l := date.chars)] at hspells
  rw [ofText_of_spells hspells, String.toList_ofList, isDateShape_chars h]
  rfl

/-- Reading a text, writing the scalar that it names and reading that gives the same scalar. -/
theorem ofText_display_ofText (text : String) : ofText (ofText text).display = ofText text := by
  have htext : ofText text = .text text → ofText (ofText text).display = ofText text := by
    intro h
    rw [h, display, chars, String.ofList_toList, h]
  by_cases hspelled : ∃ parts, Spells text.toList parts
  · obtain ⟨parts, hspells⟩ := hspelled
    have hread := ofText_of_spells hspells
    split at hread
    · rw [hread]
      exact ofText_instantChars _
    split at hread
    · rename_i hshape
      rw [hread]
      exact ofText_dateChars (of_isDateShape hspells hshape).2
    split at hread
    · exact htext hread
    · rw [hread]
      exact ofText_dateTimeChars _
  · exact htext (ofText_of_not_spells fun parts hspells => hspelled ⟨parts, hspells⟩)

end Paging.Scalar
