import Paging.Proofs.Calendar.Annotation

/-!
What a whole text spells: a date, maybe a time after it, maybe an offset after the time, and annotations. The
reader accepts exactly the texts that spell something, and a text spells one thing at most.
-/

namespace Paging.Calendar

namespace Grammar

/-- A date with annotations, with a time between them, or with a time and an offset. -/
inductive Spells : List Char → Parts → Prop
  | date {d a : List Char} {date : Date} : DateText d date → AnnotationsText a →
      Spells (d ++ a) ⟨date, none, none⟩
  | time {c : Char} {d t a : List Char} {date : Date} {time : Time} : DateText d date →
      isTimeMark c = true → TimeText t time → AnnotationsText a →
      Spells (d ++ c :: (t ++ a)) ⟨date, some time, none⟩
  | offset {c : Char} {d t o a : List Char} {date : Date} {time : Time} {offset : Offset} :
      DateText d date → isTimeMark c = true → TimeText t time → OffsetText o offset →
      AnnotationsText a → Spells (d ++ c :: (t ++ (o ++ a))) ⟨date, some time, some offset⟩

/-- Annotations start with a bracket. -/
theorem AnnotationsText.head?_eq {text : List Char} (h : AnnotationsText text) :
    ∀ c ∈ text.head?, c = '[' := by
  have hpairs : ∀ {text : List Char}, PairsText text → ∀ c ∈ text.head?, c = '[' := by
    rintro text ⟨⟩
    · simp
    · rename_i hpair _
      cases hpair
      simp
  cases h with
  | pairs h => exact hpairs h
  | zone hzone _ => cases hzone <;> simp

theorem AnnotationsText.endsClock {text : List Char} (h : AnnotationsText text) : EndsClock text := by
  constructor
  · intro c hc
    rw [h.head?_eq c hc]
    decide
  · intro c hc
    rw [h.head?_eq c hc]
    decide

theorem AnnotationsText.offset?_eq {text : List Char} (h : AnnotationsText text) :
    offset? text = some (none, text) := by
  cases text with
  | nil => rfl
  | cons c text =>
    obtain rfl := h.head?_eq c rfl
    rfl

/-- An offset starts with a mark that no clock goes on with. -/
theorem OffsetText.endsClock {text : List Char} {offset : Offset} (h : OffsetText text offset)
    (rest : List Char) : EndsClock (text ++ rest) := by
  constructor <;> cases h <;> simp [EndsTime]

theorem spells_of_parts? {text : List Char} {parts : Parts} (h : parts? text = some parts) :
    Spells text parts := by
  simp only [parts?, Option.bind_eq_bind, Option.bind_eq_some_iff] at h
  obtain ⟨⟨date, rest⟩, hread, h⟩ := h
  obtain ⟨d, rfl, hdate⟩ := date?_eq_some_iff.mp hread
  cases rest with
  | nil =>
    cases h
    exact .date hdate (.pairs .nil)
  | cons c more =>
    dsimp only at h
    split at h
    · rename_i hmark
      simp only [Option.bind_eq_some_iff] at h
      obtain ⟨⟨time, afterTime⟩, hread, ⟨offset?, afterOffset⟩, hread', _, hannotations, ⟨⟩⟩ := h
      obtain ⟨t, rfl, htime⟩ := exists_time_of_time? hread
      rw [annotations?_eq_some_iff] at hannotations
      cases offset? with
      | none =>
        obtain rfl := eq_of_offset?_none hread'
        exact .time hdate hmark htime hannotations
      | some offset =>
        obtain ⟨o, rfl, hoffset⟩ := exists_offset_of_offset? hread'
        exact .offset hdate hmark htime hoffset hannotations
    · obtain ⟨_, hannotations, ⟨⟩⟩ := Option.bind_eq_some_iff.mp h
      exact .date hdate (annotations?_eq_some_iff.mp hannotations)

theorem Spells.read {text : List Char} {parts : Parts} (h : Spells text parts) :
    parts? text = some parts := by
  cases h with
  | @date d a date hdate hannotations =>
    have hskip := annotations?_eq_some_iff.mpr hannotations
    have hread := hdate.read a
    cases a with
    | nil => simp [-List.append_nil, parts?, hread]
    | cons c a =>
      obtain rfl := hannotations.head?_eq c rfl
      simp [parts?, hread, isTimeMark, hskip]
  | time hdate hmark htime hannotations =>
    have hskip := annotations?_eq_some_iff.mpr hannotations
    simp [parts?, hdate.read, hmark, htime.read hannotations.endsClock, hannotations.offset?_eq, hskip]
  | offset hdate hmark htime hoffset hannotations =>
    have hskip := annotations?_eq_some_iff.mpr hannotations
    simp [parts?, hdate.read, hmark, htime.read (hoffset.endsClock _), hoffset.read hannotations.endsClock,
      hskip]

theorem parts?_eq_some_iff {text : List Char} {parts : Parts} : parts? text = some parts ↔ Spells text parts :=
  ⟨spells_of_parts?, Spells.read⟩

/-- The date and time that parts stand for, whatever their offset. -/
def Parts.wall (parts : Parts) : DateTime := ⟨parts.date, parts.time.getD Time.midnight⟩

/-- The instant that parts stand for, if they have a time and an offset. -/
def Parts.instant? : Parts → Option Instant
  | ⟨date, some time, some offset⟩ => offset.seconds?.bind (Instant.ofDateTime? ⟨date, time⟩)
  | _ => none

/-- A numeric offset must be below 26 hours, and the instant in range. -/
theorem Parts.instant?_numeric_eq_none_iff {date : Date} {time : Time} {seconds : Int} :
    instant? ⟨date, some time, some (.numeric seconds)⟩ = none ↔
      26 * 3600 ≤ seconds.natAbs ∨ Instant.ofDateTime? ⟨date, time⟩ seconds = none := by
  rw [instant?, Offset.seconds?]
  by_cases hsmall : seconds.natAbs < 26 * 3600
  · simp [hsmall]
  · simp [hsmall, not_lt.mp hsmall]

/-- An offset stands after a time only. -/
theorem Spells.offset_eq_none {text : List Char} {parts : Parts} (h : Spells text parts)
    (htime : parts.time = none) : parts.offset = none := by
  cases h with
  | date _ _ => rfl
  | time _ _ _ _ => rfl
  | offset _ _ _ _ _ => cases htime

end Grammar

open Grammar

variable {text : String} {parts : Parts}

theorem Instant.ofText?_of_spells (h : Spells text.toList parts) : ofText? text = parts.instant? := by
  rw [ofText?, h.read]
  obtain ⟨date, time, offset⟩ := parts
  cases time <;> cases offset <;> rfl

theorem DateTime.ofText?_of_spells (h : Spells text.toList parts) :
    ofText? text = if parts.offset = some .universal then none else some parts.wall := by
  rw [ofText?, h.read]
  obtain ⟨date, time, offset⟩ := parts
  cases offset with
  | none => rfl
  | some offset => cases offset <;> rfl

/-- A text that spells nothing names nothing. -/
theorem parts?_eq_none (h : ∀ parts, ¬Spells text.toList parts) : parts? text.toList = none :=
  Option.eq_none_iff_forall_ne_some.mpr fun parts hread => h parts (spells_of_parts? hread)

end Paging.Calendar
