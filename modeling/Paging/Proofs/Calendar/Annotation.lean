import Paging.Proofs.Calendar.Spelling

/-!
How annotations are spelled: a time zone in brackets, then keys with values in brackets. Nothing of an
annotation is kept, but a text with a malformed one names nothing.
-/

namespace Paging.Calendar.Grammar

/-- A character of one class and any number of another after it. -/
inductive WordText (start more : Char → Bool) : List Char → Prop
  | mk {c : Char} {tail : List Char} : start c = true → (∀ d ∈ tail, more d = true) →
      WordText start more (c :: tail)

/-- Further words, each after a separator. -/
inductive FurtherText (separator : Char) (start more : Char → Bool) : List Char → Prop
  | nil : FurtherText separator start more []
  | cons {word tail : List Char} : WordText start more word → FurtherText separator start more tail →
      FurtherText separator start more (separator :: (word ++ tail))

section

variable {separator : Char} {start more : Char → Bool} {text rest : List Char}

theorem exists_word_of_skipWord? (h : skipWord? start more text = some rest) :
    ∃ word, text = word ++ rest ∧ WordText start more word := by
  unfold skipWord? at h
  split at h
  · rename_i c tail
    obtain ⟨hstart, ⟨⟩⟩ := Option.ite_none_right_eq_some.mp h
    exact ⟨c :: tail.takeWhile more, by simp, hstart, List.all_eq_true.mp List.all_takeWhile⟩
  · cases h

theorem WordText.skip (h : WordText start more text) (hrest : ∀ c ∈ rest.head?, more c = false) :
    skipWord? start more (text ++ rest) = some rest := by
  obtain ⟨hstart, hmore⟩ := h
  rw [List.cons_append, skipWord?, if_pos hstart, dropWhile_append_stop hmore hrest]

theorem exists_further_of_skipJoined? (h : skipJoined? separator start more text = some rest) :
    ∃ front, text = front ++ rest ∧ FurtherText separator start more front := by
  fun_induction skipJoined? separator start more text with
  | case1 text tail hskip _ ih =>
    obtain ⟨further, rfl, hfurther⟩ := ih h
    obtain ⟨word, rfl, hword⟩ := exists_word_of_skipWord? hskip
    exact ⟨separator :: (word ++ further), by simp, .cons hword hfurther⟩
  | case2 => cases h
  | case3 =>
    cases h
    exact ⟨[], rfl, .nil⟩
  | case4 =>
    cases h
    exact ⟨[], rfl, .nil⟩

/-- Further words start with a separator, so that no word before them goes on. -/
theorem FurtherText.stops (h : FurtherText separator start more text) (hseparator : more separator = false)
    (hrest : ∀ c ∈ rest.head?, more c = false) : ∀ c ∈ (text ++ rest).head?, more c = false := by
  cases h with
  | nil => exact hrest
  | cons _ _ =>
    rintro c ⟨⟩
    exact hseparator

theorem FurtherText.skip (h : FurtherText separator start more text) (hseparator : more separator = false)
    (hrest : ∀ c ∈ rest.head?, more c = false ∧ c ≠ separator) :
    skipJoined? separator start more (text ++ rest) = some rest := by
  have hstop : ∀ c ∈ rest.head?, more c = false := fun c hc => (hrest c hc).1
  induction h with
  | nil =>
    cases rest with
    | nil => rw [List.append_nil, skipJoined?]
    | cons c rest => rw [List.nil_append, skipJoined?, if_neg (hrest c rfl).2]
  | cons hword hfurther ih =>
    rename_i word tail
    have hskip := hword.skip (hfurther.stops hseparator hstop)
    rw [List.cons_append, List.append_assoc, skipJoined?, if_pos rfl]
    -- The recursion keeps the equation of its match, in which nothing can be rewritten.
    split
    · rename_i hread
      rw [hskip] at hread
      cases hread
      exact ih
    · rename_i hread
      rw [hskip] at hread
      cases hread

end

theorem close?_eq_some_iff {text rest : List Char} : close? text = some rest ↔ text = ']' :: rest := by
  unfold close?
  split <;> simp_all

/-- Hours and minutes of the offset of a time zone. -/
inductive ZoneOffsetText : List Char → Prop
  | hours {h : List Char} {hour : Nat} : Digits 2 h hour → hour ≤ 25 → ZoneOffsetText h
  | minutes {h m : List Char} {hour minute : Nat} (extended : Bool) : Digits 2 h hour → Digits 2 m minute →
      hour ≤ 25 → minute ≤ 59 → ZoneOffsetText (h ++ (mark ':' extended ++ m))

theorem exists_offset_of_skipZoneOffset? {text rest : List Char} (h : skipZoneOffset? text = some rest) :
    ∃ front, text = front ++ rest ∧ ZoneOffsetText front := by
  simp only [skipZoneOffset?, Option.bind_eq_bind, Option.bind_eq_some_iff] at h
  obtain ⟨⟨hour, afterHour⟩, hread, ⟨minute?, afterMinute⟩, hpart, h⟩ := h
  obtain ⟨⟨hhour, hminute⟩, ⟨⟩⟩ := Option.ite_none_right_eq_some.mp h
  obtain ⟨front, rfl, hfront⟩ := digits?_eq_some_iff.mp hread
  generalize (afterHour.head? == some ':') = extended at hpart
  cases minute? with
  | none =>
    obtain rfl := eq_of_part?_none hpart
    exact ⟨front, rfl, .hours hfront hhour⟩
  | some minute =>
    obtain ⟨minutes, rfl, hminutes⟩ := part?_some_iff.mp hpart
    exact ⟨_, by simp only [List.append_assoc], .minutes extended hfront hminutes hhour hminute⟩

theorem ZoneOffsetText.skip {text : List Char} (h : ZoneOffsetText text) (rest : List Char) :
    skipZoneOffset? (text ++ ']' :: rest) = some (']' :: rest) := by
  have hends : EndsClock (']' :: rest) := ⟨by simp [EndsTime], by simp⟩
  cases h with
  | hours hdigits hhour => simp [skipZoneOffset?, hdigits.read, hends.part?_eq, hhour]
  | minutes extended hdigits hdigits' hhour hminute =>
    have hcolon := head?_mark_append extended (by decide : ':'.isDigit = false)
      (hdigits'.head?_append (']' :: rest))
    simp [-List.head?_append, skipZoneOffset?, hdigits.read, hcolon, hdigits'.readPart, hhour, hminute]

/-- A time zone in brackets: an offset, or words joined by slashes. -/
inductive ZoneText : List Char → Prop
  | offset {sign : Char} {text : List Char} (critical : Bool) : sign = '+' ∨ sign = '-' →
      ZoneOffsetText text → ZoneText ('[' :: (mark '!' critical ++ sign :: (text ++ [']'])))
  | name {word further : List Char} (critical : Bool) : WordText isNameStart isNameChar word →
      FurtherText '/' isNameStart isNameChar further →
      ZoneText ('[' :: (mark '!' critical ++ (word ++ (further ++ [']']))))

/-- A key and values joined by hyphens, in brackets. -/
inductive PairText : List Char → Prop
  | mk {key value further : List Char} : WordText isKeyStart isKeyChar key →
      WordText isValueChar isValueChar value → FurtherText '-' isValueChar isValueChar further →
      PairText ('[' :: (key ++ '=' :: (value ++ (further ++ [']']))))

inductive PairsText : List Char → Prop
  | nil : PairsText []
  | cons {pair rest : List Char} : PairText pair → PairsText rest → PairsText (pair ++ rest)

/-- At most one time zone, then keys with values. -/
inductive AnnotationsText : List Char → Prop
  | pairs {text : List Char} : PairsText text → AnnotationsText text
  | zone {zone text : List Char} : ZoneText zone → PairsText text → AnnotationsText (zone ++ text)

theorem eq_mark_append_critical (text : List Char) :
    text = mark '!' (critical text).1 ++ (critical text).2 := by
  unfold critical
  split <;> simp [mark]

theorem critical_mark_append {text : List Char} (marked : Bool) (h : ∀ c ∈ text.head?, c ≠ '!') :
    critical (mark '!' marked ++ text) = (marked, text) := by
  cases marked with
  | true => rfl
  | false =>
    rw [mark, if_neg (by decide), List.nil_append]
    unfold critical
    split
    · exact absurd rfl (h '!' rfl)
    · rfl

theorem exists_offset_of_close? {text rest : List Char} (h : (skipZoneOffset? text).bind close? = some rest) :
    ∃ offset, text = offset ++ ']' :: rest ∧ ZoneOffsetText offset := by
  obtain ⟨closing, hread, hclose⟩ := Option.bind_eq_some_iff.mp h
  obtain ⟨offset, rfl, hoffset⟩ := exists_offset_of_skipZoneOffset? hread
  obtain rfl := close?_eq_some_iff.mp hclose
  exact ⟨offset, rfl, hoffset⟩

theorem zone_of_skipZone? {text rest : List Char} (h : skipZone? text = some rest) :
    text = rest ∨ ∃ zone, text = zone ++ rest ∧ ZoneText zone := by
  unfold skipZone? at h
  split at h
  · rename_i inner
    have hmark := eq_mark_append_critical inner
    generalize (critical inner).1 = marked, (critical inner).2 = zone at hmark h
    subst hmark
    split at h
    · obtain ⟨offset, rfl, hoffset⟩ := exists_offset_of_close? h
      exact Or.inr ⟨_, by simp, .offset marked (Or.inl rfl) hoffset⟩
    · obtain ⟨offset, rfl, hoffset⟩ := exists_offset_of_close? h
      exact Or.inr ⟨_, by simp, .offset marked (Or.inr rfl) hoffset⟩
    · split at h
      · cases h
      · -- A word before an equals sign is the key of a pair, and nothing was read.
        cases h
        exact Or.inl rfl
      · rename_i more hread
        obtain ⟨closing, hjoined, hclose⟩ := Option.bind_eq_some_iff.mp h
        obtain rfl := close?_eq_some_iff.mp hclose
        obtain ⟨word, rfl, hword⟩ := exists_word_of_skipWord? hread
        obtain ⟨further, rfl, hfurther⟩ := exists_further_of_skipJoined? hjoined
        exact Or.inr ⟨_, by simp, .name marked hword hfurther⟩
  · cases h
    exact Or.inl rfl

theorem WordText.head?_append {start more : Char → Bool} {text : List Char} (h : WordText start more text)
    (rest : List Char) : ∃ c ∈ (text ++ rest).head?, start c = true := by
  obtain ⟨hstart, _⟩ := h
  exact ⟨_, rfl, hstart⟩

theorem WordText.mono {start more start' more' : Char → Bool} {text : List Char}
    (h : WordText start more text) (hstart : ∀ c, start c = true → start' c = true)
    (hmore : ∀ c, more c = true → more' c = true) : WordText start' more' text := by
  obtain ⟨hfirst, hothers⟩ := h
  exact ⟨hstart _ hfirst, fun d hd => hmore d (hothers d hd)⟩

/-- In front of a name, `skipZone?` looks at its first word. -/
theorem skipZone?_of_name {text : List Char} (marked : Bool) (h : ∃ c ∈ text.head?, isNameStart c = true) :
    skipZone? ('[' :: (mark '!' marked ++ text)) =
      match skipWord? isNameStart isNameChar text with
      | none => none
      | some ('=' :: _) => some ('[' :: (mark '!' marked ++ text))
      | some more => (skipJoined? '/' isNameStart isNameChar more).bind close? := by
  rw [skipZone?, critical_mark_append marked (head?_ne_of_exists h (by decide))]
  obtain ⟨c, hc, hname⟩ := h
  dsimp only
  split
  · cases hc
    exact absurd hname (by decide)
  · cases hc
    exact absurd hname (by decide)
  · rfl

theorem ZoneText.skip {text : List Char} (h : ZoneText text) (rest : List Char) :
    skipZone? (text ++ rest) = some rest := by
  cases h with
  | @offset sign offset marked hsign hoffset =>
    have hbang : ∀ c ∈ (sign :: (offset ++ ']' :: rest)).head?, c ≠ '!' := by
      rintro c ⟨⟩
      rcases hsign with rfl | rfl <;> decide
    have htext : '[' :: (mark '!' marked ++ sign :: (offset ++ [']'])) ++ rest =
        '[' :: (mark '!' marked ++ sign :: (offset ++ ']' :: rest)) := by simp
    rw [htext, skipZone?, critical_mark_append marked hbang]
    rcases hsign with rfl | rfl <;> simp [hoffset.skip, close?]
  | @name word further marked hword hfurther =>
    have hslash : isNameChar '/' = false := by decide
    have hend : ∀ c ∈ (']' :: rest).head?, isNameChar c = false ∧ c ≠ '/' := by
      rintro c ⟨⟩
      decide
    have hskip := hword.skip (hfurther.stops hslash fun c hc => (hend c hc).1)
    have hname : ∀ tail, further ++ ']' :: rest ≠ '=' :: tail := by
      cases hfurther <;> simp
    have htext : '[' :: (mark '!' marked ++ (word ++ (further ++ [']']))) ++ rest =
        '[' :: (mark '!' marked ++ (word ++ (further ++ ']' :: rest))) := by simp
    rw [htext, skipZone?_of_name marked (hword.head?_append _), hskip]
    split
    · rename_i heq
      cases heq
    · rename_i heq
      exact absurd (Option.some.inj heq) (hname _)
    · rename_i heq
      cases heq
      rw [hfurther.skip hslash hend]
      rfl

theorem isNameStart_of_isKeyStart {c : Char} (h : isKeyStart c = true) : isNameStart c = true := by
  rw [isKeyStart, Bool.or_eq_true] at h
  rcases h with hlower | hunderscore
  · simp [isNameStart, isLetter, hlower]
  · simp [isNameStart, hunderscore]

theorem isNameChar_of_isKeyChar {c : Char} (h : isKeyChar c = true) : isNameChar c = true := by
  simp only [isKeyChar, Bool.or_eq_true] at h
  rcases h with (hstart | hdigit) | hhyphen
  · simp [isNameChar, isNameStart_of_isKeyStart hstart]
  · simp [isNameChar, hdigit]
  · simp [isNameChar, hhyphen]

/-- A key is no time zone, because an equals sign follows it. -/
theorem PairsText.skipZone {text : List Char} (h : PairsText text) : skipZone? text = some text := by
  cases h with
  | nil => rfl
  | cons hpair _ =>
    obtain ⟨hkey, _, _⟩ := hpair
    rename_i rest _ key value further _ _
    have hname := hkey.mono (fun _ => isNameStart_of_isKeyStart) (fun _ => isNameChar_of_isKeyChar)
    have hequals : ∀ c ∈ ('=' :: (value ++ (further ++ ']' :: rest))).head?, isNameChar c = false := by
      rintro c ⟨⟩
      decide
    have htext : '[' :: (key ++ '=' :: (value ++ (further ++ [']']))) ++ rest =
        '[' :: (mark '!' false ++ (key ++ '=' :: (value ++ (further ++ ']' :: rest)))) := by simp [mark]
    rw [htext, skipZone?_of_name false (hname.head?_append _), hname.skip hequals]
    rfl

theorem exists_pair_of_skipPair? {text rest : List Char} (h : skipPair? text = some rest) :
    ∃ pair, '[' :: text = pair ++ rest ∧ PairText pair := by
  have hmark := eq_mark_append_critical text
  unfold skipPair? at h
  generalize (critical text).1 = marked, (critical text).2 = inner at hmark h
  subst hmark
  split at h
  · rename_i values hkey
    split at h
    · rename_i more hvalue
      split at h
      · rename_i tail hjoined
        obtain ⟨hplain, ⟨⟩⟩ := Option.ite_none_left_eq_some.mp h
        obtain ⟨key, rfl, hkeyText⟩ := exists_word_of_skipWord? hkey
        obtain ⟨value, rfl, hvalueText⟩ := exists_word_of_skipWord? hvalue
        obtain ⟨further, rfl, hfurther⟩ := exists_further_of_skipJoined? hjoined
        refine ⟨_, ?_, .mk hkeyText hvalueText hfurther⟩
        simp [mark, hplain]
      · cases h
    · cases h
  · cases h

/-- A pair is skipped after its bracket. -/
theorem PairText.skip {pair : List Char} (h : PairText pair) (rest : List Char) :
    ∃ text, pair ++ rest = '[' :: text ∧ skipPair? text = some rest := by
  obtain ⟨hkey, hvalue, hfurther⟩ := h
  rename_i key value further
  refine ⟨key ++ '=' :: (value ++ (further ++ ']' :: rest)), by simp, ?_⟩
  have hbang : ∀ c ∈ (key ++ '=' :: (value ++ (further ++ ']' :: rest))).head?, c ≠ '!' :=
    head?_ne_of_exists (hkey.head?_append _) (by decide)
  have hplain := critical_mark_append false hbang
  have hequals : ∀ c ∈ ('=' :: (value ++ (further ++ ']' :: rest))).head?, isKeyChar c = false := by
    rintro c ⟨⟩
    decide
  have hhyphen : isValueChar '-' = false := by decide
  have hend : ∀ c ∈ (']' :: rest).head?, isValueChar c = false ∧ c ≠ '-' := by
    rintro c ⟨⟩
    decide
  have hstop := hfurther.stops hhyphen fun c hc => (hend c hc).1
  rw [mark, if_neg (by decide), List.nil_append] at hplain
  rw [skipPair?, hplain, hkey.skip hequals]
  simp only [hvalue.skip hstop, hfurther.skip hhyphen hend, Bool.false_eq_true, if_false]

theorem pairsText_of_skipPairs? {text : List Char} (h : skipPairs? text = some ()) : PairsText text := by
  fun_induction skipPairs? text with
  | case1 => exact .nil
  | case2 text rest hskip _ ih =>
    obtain ⟨pair, heq, hpair⟩ := exists_pair_of_skipPair? hskip
    rw [heq]
    exact .cons hpair (ih h)
  | case3 => cases h
  | case4 => cases h

theorem PairsText.skip {text : List Char} (h : PairsText text) : skipPairs? text = some () := by
  induction h with
  | nil => rw [skipPairs?]
  | cons hpair _ ih =>
    rename_i rest _
    obtain ⟨text, htext, hskip⟩ := hpair.skip rest
    rw [htext, skipPairs?]
    split
    · rename_i hread
      rw [hskip] at hread
      cases hread
      exact ih
    · rename_i hread
      rw [hskip] at hread
      cases hread

theorem annotations?_eq_some_iff {text : List Char} : annotations? text = some () ↔ AnnotationsText text := by
  rw [annotations?, Option.bind_eq_some_iff]
  constructor
  · rintro ⟨rest, hzone, hpairs⟩
    have hrest := pairsText_of_skipPairs? hpairs
    obtain rfl | ⟨zone, rfl, htext⟩ := zone_of_skipZone? hzone
    · exact .pairs hrest
    · exact .zone htext hrest
  · intro h
    cases h with
    | pairs hpairs => exact ⟨text, hpairs.skipZone, hpairs.skip⟩
    | zone hzone hpairs => exact ⟨_, hzone.skip _, hpairs.skip⟩

end Paging.Calendar.Grammar
