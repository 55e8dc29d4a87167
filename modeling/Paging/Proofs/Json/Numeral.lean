import Paging.Json.Printer
import Paging.Json.Token
import Paging.Proofs.Decimal.Shortest
import Paging.Proofs.Text.Digits

/-!
Numerals in JSON. The written form of every number is read as that number: integers by their digits,
floats through the shortest decimal, whichever of its layouts is taken.
-/

namespace Paging.Json.Number

/-! ### Digits -/

theorem ofDigits_append (first second : List Char) :
    ofDigits (first ++ second) = ofDigits first * 10 ^ second.length + ofDigits second := by
  rw [ofDigits, ofDigits, ofDigits, Nat.ofDigitChars_append, Nat.ofDigitChars_eq_ofDigitChars_zero,
    Nat.mul_comm]

theorem ofDigits_zeros (k : Nat) : ofDigits (List.replicate k '0') = 0 := by
  rw [ofDigits, Nat.ofDigitChars_replicate_zero, Nat.mul_zero]

theorem ofDigits_append_zeros (digits : List Char) (k : Nat) :
    ofDigits (digits ++ List.replicate k '0') = ofDigits digits * 10 ^ k := by
  rw [ofDigits_append, ofDigits_zeros, List.length_replicate, Nat.add_zero]

theorem ofDigits_zeros_append (k : Nat) (digits : List Char) :
    ofDigits (List.replicate k '0' ++ digits) = ofDigits digits := by
  rw [ofDigits_append, ofDigits_zeros, Nat.zero_mul, Nat.zero_add]

theorem ofDigits_toDigits (n : Nat) : ofDigits (Nat.toDigits 10 n) = n := Nat.ofDigitChars_ten_toDigits

theorem ofDigits_dropWhile (digits : List Char) :
    ofDigits (digits.dropWhile (· == '0')) = ofDigits digits := by
  induction digits with
  | nil => rfl
  | cons c digits ih =>
    rw [List.dropWhile_cons]
    split
    · rename_i hzero
      obtain rfl : c = '0' := beq_iff_eq.mp hzero
      rw [ih]
      exact (ofDigits_zeros_append 1 digits).symm
    · rfl

/-- A leading digit other than zero counts in full. -/
theorem pow_le_ofDigits {c : Char} {digits : List Char} (hdigit : c.isDigit = true) (hzero : c ≠ '0') :
    10 ^ digits.length ≤ ofDigits (c :: digits) := by
  have hpos : 1 ≤ ofDigits [c] := by
    have hle : 48 ≤ c.toNat := (Char.isDigit_iff_toNat.mp hdigit).1
    have hne : c.toNat ≠ 48 := fun h => hzero (Char.toNat_inj.mp h)
    rw [ofDigits, Nat.ofDigitChars_cons, Nat.ofDigitChars_nil]
    change 1 ≤ 10 * 0 + (c.toNat - 48)
    omega
  rw [← List.singleton_append, ofDigits_append]
  calc 10 ^ digits.length = 1 * 10 ^ digits.length := (Nat.one_mul _).symm
    _ ≤ ofDigits [c] * 10 ^ digits.length := Nat.mul_le_mul_right _ hpos
    _ ≤ ofDigits [c] * 10 ^ digits.length + ofDigits digits := Nat.le_add_right _ _

theorem length_significant_le {digits : List Char} {k : Nat} (hdigits : ∀ c ∈ digits, c.isDigit = true)
    (h : ofDigits digits < 10 ^ k) : (digits.dropWhile (· == '0')).length ≤ k := by
  rw [← ofDigits_dropWhile] at h
  match hs : digits.dropWhile (· == '0') with
  | [] => exact Nat.zero_le _
  | c :: rest =>
    have hdigit : c.isDigit = true := by
      apply hdigits
      apply (List.dropWhile_sublist (· == '0')).subset
      rw [hs]
      exact List.mem_cons_self
    have hzero : c ≠ '0' := by
      have hhead := List.head?_dropWhile_not (· == '0') digits
      rw [hs] at hhead
      simpa using hhead
    rw [hs] at h
    have hle : 10 ^ rest.length ≤ ofDigits (c :: rest) := pow_le_ofDigits hdigit hzero
    exact (Nat.pow_lt_pow_iff_right (by decide)).mp (Nat.lt_of_le_of_lt hle h)

/-- Numbers that are not long are decided by all of their digits. -/
theorem decisive_of_lt {digits : List Char} {exponent : Int} (hdigits : ∀ c ∈ digits, c.isDigit = true)
    (h : ofDigits digits < 10 ^ 768) :
    decisive digits exponent = (digits.dropWhile (· == '0'), exponent) := by
  have hlength := length_significant_le hdigits h
  rw [decisive]
  exact if_neg (Nat.not_lt_of_le hlength)

theorem head?_toDigits {n : Nat} (h : (Nat.toDigits 10 n).head? = some '0') : n = 0 := by
  induction n using Nat.strongRecOn with
  | ind n ih =>
    rcases Nat.lt_or_ge n 10 with hlt | hge
    · rw [Nat.toDigits_of_lt_base hlt, List.head?_cons, Option.some.injEq] at h
      exact Nat.digitChar_eq_zero.mp h
    · rw [Nat.toDigits_of_base_le (by decide) hge, List.head?_append_of_ne_nil _ Nat.toDigits_ne_nil] at h
      have := ih (n / 10) (by omega) h
      omega

theorem isDigit_of_mem_toDigits {n : Nat} : ∀ c ∈ Nat.toDigits 10 n, c.isDigit = true :=
  fun _ hc => Nat.isDigit_of_mem_toDigits (by decide) (by decide) hc

theorem mul_pow_lt {n e k : Nat} (h : (Nat.toDigits 10 n).length + e ≤ k) : n * 10 ^ e < 10 ^ k := by
  have hn : n < 10 ^ (Nat.toDigits 10 n).length :=
    (Nat.length_toDigits_le_iff (by decide) Nat.length_toDigits_pos).mp (Nat.le_refl _)
  calc n * 10 ^ e < 10 ^ (Nat.toDigits 10 n).length * 10 ^ e :=
        Nat.mul_lt_mul_of_pos_right hn (by positivity)
    _ = 10 ^ ((Nat.toDigits 10 n).length + e) := (Nat.pow_add ..).symm
    _ ≤ 10 ^ k := Nat.pow_le_pow_right (by decide) h

/-! ### Reading a numeral -/

/-- The number of a numeral in parts: the digits before and after the point, and the exponent. -/
def ofParts? (negative : Bool) (whole : List Char) :
    Option (List Char) → Option Int → Option Number
  | none, none => ofInteger? negative (ofDigits whole)
  | fraction, exponent =>
    let decimals := trimmed (fraction.getD [])
    let (digits, exponent) := decisive (whole ++ decimals) (exponent.getD 0 - decimals.length)
    ofDecimal? negative (ofDigits digits) exponent

theorem ofNumeral?_eq {negative : Bool} {whole tail power : List Char} {fraction : Option (List Char)}
    {exponent : Option Int} (hwhole : ∀ c ∈ whole, c.isDigit = true) (hne : whole ≠ [])
    (hhead : whole.head? = some '0' → whole = ['0']) (hstop : ∀ c ∈ tail.head?, c.isDigit = false)
    (hfraction : fraction? tail = some (fraction, power)) (hexponent : exponent? power = some exponent) :
    ofNumeral? (Binary64.signed negative (whole ++ tail)) =
      some (ofParts? negative whole fraction exponent) := by
  obtain ⟨c, others, rfl⟩ := List.exists_cons_of_ne_nil hne
  have hc : c ≠ '-' := by
    rintro rfl
    exact absurd (hwhole '-' List.mem_cons_self) (by decide)
  have hwf : ¬(c :: others = [] ∨ (c :: others).head? = some '0' ∧ c :: others ≠ ['0']) := by
    rintro (h | ⟨h, hlong⟩)
    · cases h
    · exact hlong (hhead h)
  have htake := takeWhile_append_stop hwhole hstop
  have hdrop := dropWhile_append_stop hwhole hstop
  rw [ofNumeral?.eq_def]
  cases negative with
  | true =>
    simp only [Binary64.signed, if_true, htake, hdrop, if_neg hwf, hfraction, hexponent]
    cases fraction <;> cases exponent <;> rfl
  | false =>
    simp only [Binary64.signed, Bool.false_eq_true, if_false]
    split
    · rename_i heq
      rw [List.cons_append, List.cons.injEq] at heq
      exact absurd heq.1 hc
    · simp only [htake, hdrop, if_neg hwf, hfraction, hexponent]
      cases fraction <;> cases exponent <;> rfl

/-- Zeros at the end of a fraction do not count, and all digits of numbers that are not long do. -/
theorem ofParts?_real {negative : Bool} {whole : List Char} {fraction : Option (List Char)}
    {exponent : Option Int} {digits : Nat} {place : Int}
    (hreal : fraction ≠ none ∨ exponent ≠ none) (hwhole : ∀ c ∈ whole, c.isDigit = true)
    (hfraction : ∀ c ∈ fraction.getD [], c.isDigit = true)
    (hdigits : ofDigits (whole ++ fraction.getD []) = digits)
    (hplace : exponent.getD 0 - ((fraction.getD []).length : Int) = place)
    (hlt : digits < 10 ^ 768)
    (hfinite : Binary64.magnitudeOfDecimal digits place < Binary64.infiniteMagnitude) :
    ofParts? negative whole fraction exponent = ofDecimal? negative digits place := by
  obtain ⟨zeros, hzeros⟩ := trimmed_append_zeros (fraction.getD [])
  have hkept : digits = ofDigits (whole ++ trimmed (fraction.getD [])) * 10 ^ zeros := by
    rw [← hdigits, ← ofDigits_append_zeros, List.append_assoc, hzeros]
  have hlength : (trimmed (fraction.getD [])).length + zeros = (fraction.getD []).length := by
    have hboth := congrArg List.length hzeros
    rwa [List.length_append, List.length_replicate] at hboth
  have hall : ∀ c ∈ whole ++ trimmed (fraction.getD []), c.isDigit = true := by
    intro c hc
    rcases List.mem_append.mp hc with hc | hc
    · exact hwhole c hc
    · exact isDigit_of_mem_trimmed hfraction c hc
  have hlt' : ofDigits (whole ++ trimmed (fraction.getD [])) < 10 ^ 768 :=
    Nat.lt_of_le_of_lt (hkept ▸ Nat.le_mul_of_pos_right _ (by positivity)) hlt
  have hparts : ofParts? negative whole fraction exponent =
      ofDecimal? negative (ofDigits (whole ++ trimmed (fraction.getD [])))
        (exponent.getD 0 - ((trimmed (fraction.getD [])).length : Int)) := by
    rw [← ofDigits_dropWhile]
    rcases fraction with _ | fraction <;> rcases exponent with _ | exponent
    · exact absurd hreal (by simp)
    all_goals simp only [ofParts?, decisive_of_lt hall hlt']
  have hplace' : exponent.getD 0 - ((trimmed (fraction.getD [])).length : Int) = place + zeros := by
    omega
  have hmagnitude := Binary64.magnitudeOfDecimal_mul_pow (k := zeros) (Or.inl (hkept ▸ hfinite))
  rw [hparts, hplace', ofDecimal?, ofDecimal?, Binary64.ofDecimal?, Binary64.ofDecimal?, hkept,
    hmagnitude]

theorem fraction?_point {digits rest : List Char} (hne : digits ≠ [])
    (hdigits : ∀ c ∈ digits, c.isDigit = true) (hrest : ∀ c ∈ rest.head?, c.isDigit = false) :
    fraction? ('.' :: (digits ++ rest)) = some (some digits, rest) := by
  rw [fraction?, takeWhile_append_stop hdigits hrest, dropWhile_append_stop hdigits hrest]
  split
  · exact absurd rfl hne
  · rfl

theorem fraction?_decimals {digits : List Char} (hne : digits ≠ [])
    (hdigits : ∀ c ∈ digits, c.isDigit = true) : fraction? ('.' :: digits) = some (some digits, []) := by
  have hpoint := fraction?_point hne hdigits (by simp : ∀ c ∈ ([] : List Char).head?, c.isDigit = false)
  rwa [List.append_nil] at hpoint

/-- The exponent part of a scientific text. -/
def power (leading : Int) : List Char :=
  'e' :: match leading with
    | .ofNat e => '+' :: Nat.toDigits 10 e
    | .negSucc e => '-' :: Nat.toDigits 10 (e + 1)

theorem scientific_eq (digits : List Char) (leading : Int) :
    Decimal.scientific digits leading =
      match digits with
      | first :: second :: rest => first :: '.' :: ((second :: rest) ++ power leading)
      | _ => digits ++ power leading := by
  rcases digits with _ | ⟨first, _ | ⟨second, rest⟩⟩ <;> rfl

theorem exponent?_power (leading : Int) : exponent? (power leading) = some (some leading) := by
  have hdigits (n : Nat) : Nat.toDigits 10 n ≠ [] ∧ (Nat.toDigits 10 n).all Char.isDigit = true :=
    ⟨Nat.toDigits_ne_nil, List.all_eq_true.mpr isDigit_of_mem_toDigits⟩
  cases leading with
  | ofNat e =>
    simp only [power, exponent?, true_or, if_true, if_pos (hdigits e), Bool.false_eq_true, if_false,
      ofDigits_toDigits]
    rfl
  | negSucc e =>
    simp only [power, exponent?, true_or, if_true, if_pos (hdigits (e + 1)), ofDigits_toDigits]
    rfl

/-! ### The characters of numerals -/

/-- The characters that numbers are written with. -/
def IsWritten (c : Char) : Prop := c.isDigit = true ∨ c ∈ ['-', '+', '.', 'e']

theorem isWritten_of_digits {digits : List Char} (h : ∀ c ∈ digits, c.isDigit = true) :
    ∀ c ∈ digits, IsWritten c := fun c hc => Or.inl (h c hc)

theorem isWritten_zeros (k : Nat) : ∀ c ∈ List.replicate k '0', IsWritten c := by
  intro c hc
  rw [List.eq_of_mem_replicate hc]
  exact Or.inl rfl

theorem isWritten_signed {negative : Bool} {text : List Char} (h : ∀ c ∈ text, IsWritten c) :
    ∀ c ∈ Binary64.signed negative text, IsWritten c := by
  cases negative with
  | false => exact h
  | true => exact List.forall_mem_cons.mpr ⟨Or.inr (by decide), h⟩

theorem isWritten_positional {digits : List Char} (h : ∀ c ∈ digits, c.isDigit = true)
    (exponent : Int) : ∀ c ∈ Decimal.positional digits exponent, IsWritten c := by
  have hdigits := isWritten_of_digits h
  have hpoint : IsWritten '.' := Or.inr (by decide)
  unfold Decimal.positional
  split
  · exact List.forall_mem_append.mpr ⟨hdigits, isWritten_zeros _⟩
  dsimp only
  split
  · refine List.forall_mem_append.mpr ⟨fun c hc => hdigits c (List.mem_of_mem_take hc), ?_⟩
    exact List.forall_mem_cons.mpr ⟨hpoint, fun c hc => hdigits c (List.mem_of_mem_drop hc)⟩
  · refine List.forall_mem_cons.mpr ⟨Or.inl rfl, List.forall_mem_cons.mpr ⟨hpoint, ?_⟩⟩
    exact List.forall_mem_append.mpr ⟨isWritten_zeros _, hdigits⟩

theorem isWritten_power (leading : Int) : ∀ c ∈ power leading, IsWritten c := by
  have hdigits (n : Nat) := isWritten_of_digits (isDigit_of_mem_toDigits (n := n))
  refine List.forall_mem_cons.mpr ⟨Or.inr (by decide), ?_⟩
  cases leading with
  | ofNat e => exact List.forall_mem_cons.mpr ⟨Or.inr (by decide), hdigits e⟩
  | negSucc e => exact List.forall_mem_cons.mpr ⟨Or.inr (by decide), hdigits (e + 1)⟩

theorem isWritten_scientific {digits : List Char} (h : ∀ c ∈ digits, c.isDigit = true)
    (leading : Int) : ∀ c ∈ Decimal.scientific digits leading, IsWritten c := by
  have hdigits := isWritten_of_digits h
  have hpower := isWritten_power leading
  rw [scientific_eq]
  split
  · obtain ⟨hfirst, hrest⟩ := List.forall_mem_cons.mp hdigits
    refine List.forall_mem_cons.mpr ⟨hfirst, List.forall_mem_cons.mpr ⟨Or.inr (by decide), ?_⟩⟩
    exact List.forall_mem_append.mpr ⟨hrest, hpower⟩
  · exact List.forall_mem_append.mpr ⟨hdigits, hpower⟩

theorem isWritten_jsonForm (d : Decimal) : ∀ c ∈ d.jsonForm, IsWritten c := by
  unfold Decimal.jsonForm
  dsimp only
  split
  · split
    · refine List.forall_mem_append.mpr ⟨isWritten_positional isDigit_of_mem_toDigits _, ?_⟩
      exact List.forall_mem_cons.mpr ⟨Or.inr (by decide), isWritten_zeros 1⟩
    · exact isWritten_positional isDigit_of_mem_toDigits _
  · exact isWritten_scientific isDigit_of_mem_toDigits _

theorem decimalInt_eq (value : Int) :
    decimalInt value = Binary64.signed (decide (value < 0)) (Nat.toDigits 10 value.natAbs) := by
  cases value with
  | ofNat n =>
    have hnat : ¬Int.ofNat n < 0 := Int.not_lt.mpr (Int.natCast_nonneg n)
    rw [decide_eq_false hnat]
    rfl
  | negSucc n =>
    rw [decide_eq_true (Int.negSucc_lt_zero n)]
    rfl

theorem isWritten_chars (number : Number) : ∀ c ∈ number.chars, IsWritten c := by
  cases number with
  | integer value lower upper =>
    rw [chars, decimalInt_eq]
    exact isWritten_signed (isWritten_of_digits isDigit_of_mem_toDigits)
  | real value finite => exact isWritten_signed (isWritten_jsonForm _)

/-- A numeral starts with a digit or a minus sign. -/
theorem exists_cons_of_ofNumeral? {numeral : List Char} {number : Option Number}
    (h : ofNumeral? numeral = some number) :
    ∃ c others, numeral = c :: others ∧ (c.isDigit = true ∨ c = '-') := by
  rcases numeral with _ | ⟨c, others⟩
  · cases h
  refine ⟨c, others, rfl, ?_⟩
  by_contra hother
  rw [not_or, Bool.not_eq_true] at hother
  have hnone : ofNumeral? (c :: others) = none := by
    rw [ofNumeral?.eq_def]
    split
    rename_i heq
    split at heq
    · rename_i hcons
      exact absurd (List.cons.inj hcons).1 hother.2
    · cases heq
      rw [List.takeWhile_cons, hother.1]
      exact if_pos (Or.inl rfl)
  rw [hnone] at h
  cases h

/-! ### The written forms -/

/-- Decimals that all of their written digits count in, and that are no larger than the finite floats. -/
structure Readable (d : Decimal) : Prop where
  lt : d.digits < 10 ^ 768
  zero : d.digits = 0 → d.exponent = 0
  finite : Binary64.magnitudeOfDecimal d.digits d.exponent < Binary64.infiniteMagnitude

section

variable {d : Decimal} {negative : Bool}

theorem ofNumeral?_integral (h : Readable d) {e : Nat} (he : d.exponent = e)
    (hlength : e + (Nat.toDigits 10 d.digits).length ≤ 16) :
    ofNumeral? (Binary64.signed negative
        ((Nat.toDigits 10 d.digits ++ List.replicate e '0') ++ ['.', '0'])) =
      some (ofDecimal? negative d.digits d.exponent) := by
  have hwhole : ∀ c ∈ Nat.toDigits 10 d.digits ++ List.replicate e '0', c.isDigit = true := by
    intro c hc
    rcases List.mem_append.mp hc with hc | hc
    · exact isDigit_of_mem_toDigits c hc
    · rw [List.eq_of_mem_replicate hc]
      rfl
  have hhead : (Nat.toDigits 10 d.digits ++ List.replicate e '0').head? = some '0' →
      Nat.toDigits 10 d.digits ++ List.replicate e '0' = ['0'] := by
    intro hhead
    rw [List.head?_append_of_ne_nil _ Nat.toDigits_ne_nil] at hhead
    have hzero := head?_toDigits hhead
    obtain rfl : e = 0 := by
      have := h.zero hzero
      omega
    rw [hzero, Nat.toDigits_zero]
    rfl
  have hvalue : ofDigits ((Nat.toDigits 10 d.digits ++ List.replicate e '0') ++ ['0']) =
      d.digits * 10 ^ (e + 1) := by
    rw [ofDigits_append, ofDigits_append_zeros, ofDigits_toDigits, Nat.pow_succ, Nat.mul_assoc]
    rfl
  have hscale : Binary64.magnitudeOfDecimal (d.digits * 10 ^ (e + 1)) (-1) =
      Binary64.magnitudeOfDecimal d.digits d.exponent := by
    have hplace : (-1 : Int) + ((e + 1 : Nat) : Int) = d.exponent := by omega
    rw [← hplace]
    exact Binary64.magnitudeOfDecimal_mul_pow (Or.inr (hplace ▸ h.finite))
  have hlt : d.digits * 10 ^ (e + 1) < 10 ^ 768 := mul_pow_lt (by omega)
  have hfraction : fraction? ['.', '0'] = some (some ['0'], []) := rfl
  have hzero : ∀ c ∈ ['0'], c.isDigit = true := List.forall_mem_singleton.mpr rfl
  rw [ofNumeral?_eq hwhole (by simp [Nat.toDigits_ne_nil]) hhead (by simp) hfraction rfl,
    ofParts?_real (Or.inl (Option.some_ne_none _)) hwhole hzero hvalue rfl hlt
      (hscale ▸ h.finite)]
  simp only [ofDecimal?, Binary64.ofDecimal?]
  rw [← hscale]
  rfl

/-- The point stands between the digits. -/
theorem ofNumeral?_split (h : Readable d) {places : Nat} (hplaces : d.exponent = -(places : Int))
    (hpos : 0 < places) (hlength : places < (Nat.toDigits 10 d.digits).length) :
    ofNumeral? (Binary64.signed negative
        ((Nat.toDigits 10 d.digits).take ((Nat.toDigits 10 d.digits).length - places) ++
          '.' :: (Nat.toDigits 10 d.digits).drop ((Nat.toDigits 10 d.digits).length - places))) =
      some (ofDecimal? negative d.digits d.exponent) := by
  generalize hdigits : Nat.toDigits 10 d.digits = digits at *
  have hall : ∀ c ∈ digits, c.isDigit = true := hdigits ▸ isDigit_of_mem_toDigits
  have hwhole : ∀ c ∈ digits.take (digits.length - places), c.isDigit = true :=
    fun c hc => hall c (List.mem_of_mem_take hc)
  have hdecimals : ∀ c ∈ digits.drop (digits.length - places), c.isDigit = true :=
    fun c hc => hall c (List.mem_of_mem_drop hc)
  have hne : digits.take (digits.length - places) ≠ [] := by
    apply List.ne_nil_of_length_pos
    rw [List.length_take]
    omega
  have hdrop : digits.drop (digits.length - places) ≠ [] := by
    apply List.ne_nil_of_length_pos
    rw [List.length_drop]
    omega
  have hhead : (digits.take (digits.length - places)).head? ≠ some '0' := by
    rw [List.head?_take, if_neg (by omega), ← hdigits]
    intro hzero
    have := h.zero (head?_toDigits hzero)
    omega
  have hvalue : ofDigits (digits.take (digits.length - places) ++
      digits.drop (digits.length - places)) = d.digits := by
    rw [List.take_append_drop, ← hdigits, ofDigits_toDigits]
  have hplace : (0 : Int) - ((digits.drop (digits.length - places)).length : Int) = d.exponent := by
    rw [List.length_drop]
    omega
  rw [ofNumeral?_eq hwhole hne (fun hzero => absurd hzero hhead) (by simp)
    (fraction?_decimals hdrop hdecimals) rfl]
  exact congrArg some
    (ofParts?_real (Or.inl (Option.some_ne_none _)) hwhole hdecimals hvalue hplace h.lt h.finite)

/-- All digits stand after the point. -/
theorem ofNumeral?_fraction (h : Readable d) {places : Nat} (hplaces : d.exponent = -(places : Int))
    (hlength : (Nat.toDigits 10 d.digits).length ≤ places) :
    ofNumeral? (Binary64.signed negative ('0' :: '.' ::
        (List.replicate (places - (Nat.toDigits 10 d.digits).length) '0' ++ Nat.toDigits 10 d.digits))) =
      some (ofDecimal? negative d.digits d.exponent) := by
  generalize hdigits : Nat.toDigits 10 d.digits = digits at *
  have hdecimals : ∀ c ∈ List.replicate (places - digits.length) '0' ++ digits, c.isDigit = true := by
    intro c hc
    rcases List.mem_append.mp hc with hc | hc
    · rw [List.eq_of_mem_replicate hc]
      rfl
    · exact isDigit_of_mem_toDigits c (hdigits ▸ hc)
  have hne : List.replicate (places - digits.length) '0' ++ digits ≠ [] := by
    have : digits ≠ [] := hdigits ▸ Nat.toDigits_ne_nil
    simp [this]
  have hvalue : ofDigits (['0'] ++ (List.replicate (places - digits.length) '0' ++ digits)) =
      d.digits := by
    rw [ofDigits_append, ofDigits_zeros_append, ← hdigits, ofDigits_toDigits]
    change 0 * _ + _ = _
    rw [Nat.zero_mul, Nat.zero_add]
  have hplace : (0 : Int) - ((List.replicate (places - digits.length) '0' ++ digits).length : Int) =
      d.exponent := by
    rw [List.length_append, List.length_replicate]
    omega
  have hzero : ∀ c ∈ ['0'], c.isDigit = true := List.forall_mem_singleton.mpr rfl
  rw [← List.singleton_append, ofNumeral?_eq hzero (List.cons_ne_nil _ _) (fun _ => rfl) (by simp)
    (fraction?_decimals hne hdecimals) rfl]
  exact congrArg some
    (ofParts?_real (Or.inl (Option.some_ne_none _)) hzero hdecimals hvalue hplace h.lt h.finite)

theorem ofNumeral?_scientific (h : Readable d) {leading : Int}
    (hleading : leading = d.exponent + (Nat.toDigits 10 d.digits).length - 1) :
    ofNumeral? (Binary64.signed negative (Decimal.scientific (Nat.toDigits 10 d.digits) leading)) =
      some (ofDecimal? negative d.digits d.exponent) := by
  have hall : ∀ c ∈ Nat.toDigits 10 d.digits, c.isDigit = true := isDigit_of_mem_toDigits
  have hvalue : ofDigits (Nat.toDigits 10 d.digits) = d.digits := ofDigits_toDigits d.digits
  have hstop : ∀ c ∈ (power leading).head?, c.isDigit = false := by
    intro c hc
    cases Option.mem_some.mp hc
    rfl
  rw [scientific_eq]
  match hdigits : Nat.toDigits 10 d.digits with
  | [] => exact absurd hdigits Nat.toDigits_ne_nil
  | [first] =>
    rw [hdigits] at hall hvalue hleading
    have hplace : leading - (([] : List Char).length : Int) = d.exponent := by
      rw [hleading]
      simp
    have hfraction : fraction? (power leading) = some (none, power leading) := rfl
    rw [ofNumeral?_eq hall (List.cons_ne_nil _ _) (fun hzero => by simpa using hzero) hstop hfraction
      (exponent?_power leading)]
    refine congrArg some ?_
    exact ofParts?_real (Or.inr (Option.some_ne_none _)) hall (by simp) hvalue hplace h.lt h.finite
  | first :: second :: rest =>
    rw [hdigits] at hall hvalue hleading
    have hfirst : ∀ c ∈ [first], c.isDigit = true := by
      intro c hc
      exact hall c (List.mem_cons.mpr (Or.inl (List.mem_singleton.mp hc)))
    have hdecimals : ∀ c ∈ second :: rest, c.isDigit = true :=
      fun c hc => hall c (List.mem_cons_of_mem _ hc)
    have hplace : leading - ((second :: rest).length : Int) = d.exponent := by
      rw [hleading]
      simp only [List.length_cons]
      omega
    have hfraction := fraction?_point (List.cons_ne_nil second rest) hdecimals hstop
    refine (ofNumeral?_eq hfirst (List.cons_ne_nil _ _) (fun hzero => by simpa using hzero) (by simp)
      hfraction (exponent?_power leading)).trans (congrArg some ?_)
    exact ofParts?_real (Or.inl (Option.some_ne_none _)) hfirst hdecimals hvalue hplace h.lt h.finite

/-- Every layout of a decimal is read as the number it lays out. -/
theorem ofNumeral?_jsonForm (h : Readable d) :
    ofNumeral? (Binary64.signed negative d.jsonForm) =
      some (ofDecimal? negative d.digits d.exponent) := by
  unfold Decimal.jsonForm
  dsimp only
  split
  case isFalse => exact ofNumeral?_scientific h rfl
  case isTrue hleading =>
    split
    case isTrue hexponent =>
      obtain ⟨e, he⟩ := Int.eq_ofNat_of_zero_le hexponent
      rw [he]
      exact (ofNumeral?_integral h he (by omega)).trans (by rw [he])
    case isFalse hexponent =>
      obtain ⟨e, he⟩ := Int.eq_negSucc_of_lt_zero (Int.not_le.mp hexponent)
      have hplaces : d.exponent = -((e + 1 : Nat) : Int) := he.trans (Int.negSucc_eq e)
      rw [he, Decimal.positional, ← he]
      split
      case isTrue hlength => exact ofNumeral?_split h hplaces (Nat.succ_pos e) hlength
      case isFalse hlength => exact ofNumeral?_fraction h hplaces (Nat.le_of_not_lt hlength)

end

/-- The shortest decimal of a finite float is read as that float. -/
theorem ofNumeral?_jsonText (value : Binary64) (hfinite : value.isFinite = true) :
    ofNumeral? value.jsonText = some (some (.real value hfinite)) := by
  obtain ⟨hread, hlt, hzero⟩ := Decimal.shortest_spec .even value
  have hbound : value.magnitude < Binary64.infiniteMagnitude := of_decide_eq_true hfinite
  have hreadable : Readable (Decimal.shortest .even value) := ⟨hlt, hzero, hread ▸ hbound⟩
  have hfloat : Binary64.ofDecimal? value.negative (Decimal.shortest .even value).digits
      (Decimal.shortest .even value).exponent = some value := by
    rw [Binary64.ofDecimal?, hread, Binary64.ofMagnitude?, dif_pos hbound]
  rw [Binary64.jsonText, ofNumeral?_jsonForm hreadable, ofDecimal?, hfloat]
  exact congrArg some (dif_pos hfinite)

theorem ofInteger?_natAbs {value : Int} (lower : -9223372036854775808 ≤ value)
    (upper : value < 18446744073709551616) :
    ofInteger? (decide (value < 0)) value.natAbs = some (.integer value lower upper) := by
  by_cases hneg : value < 0
  · have hbounds : 0 < value.natAbs ∧ value.natAbs ≤ 9223372036854775808 := by omega
    have hvalue : -(value.natAbs : Int) = value := by omega
    simp only [ofInteger?, decide_eq_true hneg, if_true, dif_pos hbounds, hvalue]
  · have hbound : value.natAbs < 18446744073709551616 := by omega
    have hvalue : (value.natAbs : Int) = value := by omega
    simp only [ofInteger?, decide_eq_false hneg, Bool.false_eq_true, if_false, ofNat?, dif_pos hbound,
      hvalue]

/-- Every number is read from its written form. -/
theorem ofNumeral?_chars (number : Number) : ofNumeral? number.chars = some (some number) := by
  cases number with
  | integer value lower upper =>
    have hhead : (Nat.toDigits 10 value.natAbs).head? = some '0' →
        Nat.toDigits 10 value.natAbs = ['0'] := by
      intro hzero
      rw [head?_toDigits hzero, Nat.toDigits_zero]
    rw [chars, decimalInt_eq, ← List.append_nil (Nat.toDigits 10 value.natAbs),
      ofNumeral?_eq isDigit_of_mem_toDigits Nat.toDigits_ne_nil hhead (by simp) rfl rfl, ofParts?,
      ofDigits_toDigits, ofInteger?_natAbs lower upper]
  | real value hfinite => exact ofNumeral?_jsonText value hfinite

end Paging.Json.Number
