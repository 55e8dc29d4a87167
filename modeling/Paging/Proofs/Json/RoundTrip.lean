import Paging.Json.Document
import Paging.Proofs.Json.Numeral
import Paging.Proofs.Json.Quoted

/-!
The compact form of a value is read as that value. The bytes scan to the tokens of the value, whatever
follows them, and the tokens assemble to its document.
-/

namespace Paging.Json

/-! ### The tokens of a value -/

namespace Value

mutual

/-- The tokens that a value is written with. -/
def tokens : Value → List Token
  | .null => [.null]
  | .bool value => [.bool value]
  | .number value => [.number (some value)]
  | .string value => [.string (some value)]
  | .array items => .arrayStart :: (itemTokens items ++ [.arrayEnd])
  | .object members => .objectStart :: (memberTokens members ++ [.objectEnd])

def itemTokens : List Value → List Token
  | [] => []
  | [item] => tokens item
  | item :: rest => tokens item ++ .comma :: itemTokens rest

def memberTokens : List (String × Value) → List Token
  | [] => []
  | [(key, value)] => .string (some key) :: .colon :: tokens value
  | (key, value) :: rest =>
    .string (some key) :: .colon :: (tokens value ++ .comma :: memberTokens rest)

end

theorem itemTokens_cons (item second : Value) (items : List Value) :
    itemTokens (item :: second :: items) = tokens item ++ .comma :: itemTokens (second :: items) := rfl

theorem memberTokens_cons (key : String) (value : Value) (second : String × Value)
    (members : List (String × Value)) :
    memberTokens ((key, value) :: second :: members) =
      .string (some key) :: .colon :: (tokens value ++ .comma :: memberTokens (second :: members)) := rfl

mutual

/-- How many arrays and objects enclose one another in a value. -/
def depth : Value → Nat
  | .array items => itemDepth items + 1
  | .object members => memberDepth members + 1
  | _ => 0

def itemDepth : List Value → Nat
  | [] => 0
  | item :: rest => max (depth item) (itemDepth rest)

def memberDepth : List (String × Value) → Nat
  | [] => 0
  | (_, value) :: rest => max (depth value) (memberDepth rest)

end

end Value

/-! ### Scanning -/

namespace Token

theorem scan?_next {b : UInt8} {bytes rest : List UInt8} {token : Token}
    (h : next? b bytes = some (some token, rest)) :
    scan? (b :: bytes) = (scan? rest).map (token :: ·) := by
  rw [scan?.eq_def]
  dsimp only
  split
  · rename_i hnone
    rw [hnone] at h
    cases h
  · rename_i hsome
    rw [hsome] at h
    cases h
    rfl

theorem scan?_byte {b : UInt8} {token : Token} (h : ofByte? b = some token) (rest : List UInt8) :
    scan? (b :: rest) = (scan? rest).map (token :: ·) := by
  apply scan?_next
  unfold ofByte? at h
  -- each of the six bytes is a token by itself
  iterate 6
    split at h
    · rename_i hb
      subst hb
      cases h
      rfl
  cases h

theorem scan?_quote (text : String) (rest : List UInt8) :
    scan? (utf8 (quote text) ++ rest) = (scan? rest).map (.string (some text) :: ·) := by
  obtain ⟨pieces, hscan, htext⟩ := Piece.scan?_quote text rest
  apply scan?_next
  change Option.map _ (Piece.scan? (utf8 (text.toList.flatMap escapeChar ++ ['"']) ++ rest)) = _
  rw [hscan]
  exact congrArg some (congrArg (fun text => (some (string text), rest)) htext)

theorem isDigit_asciiByte {c : Char} (h : c.isDigit = true) :
    c.toNat < 128 ∧ isDigit (asciiByte c) = true := by
  have hlower : 48 ≤ c.toNat := (Char.isDigit_iff_toNat.mp h).1
  have hupper : c.toNat ≤ 57 := (Char.isDigit_iff_toNat.mp h).2
  have hascii : c.toNat < 128 := by omega
  have hbyte := toNat_asciiByte hascii
  refine ⟨hascii, decide_eq_true ?_⟩
  rw [UInt8.le_iff_toNat_le, UInt8.le_iff_toNat_le, hbyte]
  exact ⟨hlower, hupper⟩

theorem isNumeralByte_asciiByte {c : Char} (h : Number.IsWritten c) :
    c.toNat < 128 ∧ isNumeralByte (asciiByte c) = true := by
  rcases h with h | h
  · obtain ⟨hascii, hdigit⟩ := isDigit_asciiByte h
    refine ⟨hascii, ?_⟩
    rw [isNumeralByte, hdigit]
    rfl
  · simp only [List.mem_cons, List.not_mem_nil, or_false] at h
    rcases h with rfl | rfl | rfl | rfl <;> decide

theorem startsNumeral {c : Char} (h : c.isDigit = true ∨ c = '-') :
    isBlank (asciiByte c) = false ∧ asciiByte c ≠ 0x22 ∧
      (isDigit (asciiByte c) || asciiByte c == 0x2D) = true := by
  rcases h with h | rfl
  · have hdigit := (isDigit_asciiByte h).2
    have hne {b : UInt8} (hb : isDigit b = false) : asciiByte c ≠ b := by
      intro heq
      rw [heq, hb] at hdigit
      cases hdigit
    refine ⟨?_, ?_, by rw [hdigit]; rfl⟩
    · rw [isBlank, beq_false_of_ne (hne rfl), beq_false_of_ne (hne rfl), beq_false_of_ne (hne rfl),
        beq_false_of_ne (hne rfl)]
      rfl
    · exact hne rfl
  · decide

/-- A number is scanned whole where no other numeral byte follows it. -/
theorem scan?_chars (number : Number) {rest : List UInt8}
    (hrest : ∀ b ∈ rest.head?, isNumeralByte b = false) :
    scan? (utf8 number.chars ++ rest) = (scan? rest).map (.number (some number) :: ·) := by
  have hread := Number.ofNumeral?_chars number
  have hwritten := Number.isWritten_chars number
  obtain ⟨c, others, hchars, hfirst⟩ := Number.exists_cons_of_ofNumeral? hread
  rw [hchars] at hread hwritten ⊢
  have hascii : ∀ x ∈ c :: others, x.toNat < 128 := fun x hx => (isNumeralByte_asciiByte (hwritten x hx)).1
  have hrun : ∀ b ∈ others.map asciiByte, isNumeralByte b = true := by
    intro b hb
    obtain ⟨x, hx, rfl⟩ := List.mem_map.mp hb
    exact (isNumeralByte_asciiByte (hwritten x (List.mem_cons_of_mem _ hx))).2
  have hback : (asciiByte c :: others.map asciiByte).map (fun b => Char.ofNat b.toNat) = c :: others := by
    rw [← List.map_cons, List.map_map]
    exact (List.map_congr_left fun x hx => ofNat_asciiByte (hascii x hx)).trans (List.map_id _)
  rw [utf8_ascii hascii, List.map_cons, List.cons_append]
  apply scan?_next
  obtain ⟨hblank, hquote, hbyte⟩ : isBlank (asciiByte c) = false ∧ asciiByte c ≠ 0x22 ∧
      (isDigit (asciiByte c) || asciiByte c == 0x2D) = true := startsNumeral hfirst
  rw [next?.eq_def, hblank, if_neg Bool.false_ne_true, if_neg hquote, if_pos hbyte,
    takeWhile_append_stop hrun hrest, dropWhile_append_stop hrun hrest]
  dsimp only
  rw [hback, hread]
  rfl

/-- Bytes that a numeral would not go on with. -/
def Stops (rest : List UInt8) : Prop := ∀ b ∈ rest.head?, isNumeralByte b = false

/-- In front of `rest`, the text scans to the tokens. -/
def Scans (text : List Char) (tokens : List Token) (rest : List UInt8) : Prop :=
  scan? (utf8 text ++ rest) = (scan? rest).map (tokens ++ ·)

theorem Scans.append {first second : List Char} {tokens others : List Token} {rest : List UInt8}
    (hfirst : Scans first tokens (utf8 second ++ rest)) (hsecond : Scans second others rest) :
    Scans (first ++ second) (tokens ++ others) rest := by
  unfold Scans at *
  rw [utf8_append, List.append_assoc, hfirst, hsecond, Option.map_map]
  congr 1
  funext more
  exact (List.append_assoc ..).symm

/-- The one-character tokens, none of which a numeral goes on with. -/
theorem scans_punctuation {c : Char} {token : Token} (h : ofByte? (asciiByte c) = some token)
    (hascii : c.toNat < 128) (rest : List UInt8) : Scans [c] [token] rest := by
  rw [Scans, utf8_cons, utf8_nil, List.append_nil, utf8EncodeChar_ascii hascii]
  exact scan?_byte h rest

theorem stops_cons {c : Char} (h : isNumeralByte (asciiByte c) = false) (hascii : c.toNat < 128)
    (text : List Char) (rest : List UInt8) : Stops (utf8 (c :: text) ++ rest) := by
  rw [utf8_cons, utf8EncodeChar_ascii hascii]
  intro b hb
  cases Option.mem_some.mp hb
  exact h

end Token

namespace Value

open Token

mutual

/-- The bytes of a value scan to its tokens. -/
theorem scans_compact (value : Value) {rest : List UInt8} (hrest : Stops rest) :
    Scans (compact value) (tokens value) rest := by
  match value with
  | .null => exact scan?_next rfl
  | .bool true => exact scan?_next rfl
  | .bool false => exact scan?_next rfl
  | .number value => exact scan?_chars value hrest
  | .string value => exact scan?_quote value rest
  | .array items =>
    have hitems := scans_compactItems items (stops_cons (c := ']') rfl (by decide) [] rest)
    exact (scans_punctuation (c := '[') rfl (by decide) _).append
      (hitems.append (scans_punctuation rfl (by decide) rest))
  | .object members =>
    have hmembers := scans_compactMembers members (stops_cons (c := '}') rfl (by decide) [] rest)
    exact (scans_punctuation (c := '{') rfl (by decide) _).append
      (hmembers.append (scans_punctuation rfl (by decide) rest))

theorem scans_compactItems (items : List Value) {rest : List UInt8} (hrest : Stops rest) :
    Scans (compactItems items) (itemTokens items) rest := by
  match items with
  | [] => exact Option.map_id'.symm
  | [item] => exact scans_compact item hrest
  | item :: second :: items =>
    have hitem := scans_compact item
      (stops_cons (c := ',') rfl (by decide) (compactItems (second :: items)) rest)
    exact hitem.append ((scans_punctuation (c := ',') rfl (by decide) _).append
      (scans_compactItems (second :: items) hrest))

theorem scans_compactMembers (members : List (String × Value)) {rest : List UInt8}
    (hrest : Stops rest) : Scans (compactMembers members) (memberTokens members) rest := by
  match members with
  | [] => exact Option.map_id'.symm
  | [(key, value)] =>
    have hkey (rest : List UInt8) : Scans (quote key) [.string (some key)] rest := scan?_quote key rest
    exact (hkey _).append ((scans_punctuation (c := ':') rfl (by decide) _).append
      (scans_compact value hrest))
  | (key, value) :: second :: members =>
    have hkey (rest : List UInt8) : Scans (quote key) [.string (some key)] rest := scan?_quote key rest
    have hvalue := scans_compact value
      (stops_cons (c := ',') rfl (by decide) (compactMembers (second :: members)) rest)
    exact (hkey _).append ((scans_punctuation (c := ':') rfl (by decide) _).append
      (hvalue.append ((scans_punctuation (c := ',') rfl (by decide) _).append
        (scans_compactMembers (second :: members) hrest))))

end

theorem scan?_compact (value : Value) : scan? (utf8 (compact value)) = some (tokens value) := by
  have hscan : Scans (compact value) (tokens value) [] := scans_compact value (by simp [Stops])
  rwa [Scans, List.append_nil, scan?, Option.map_some, List.append_nil] at hscan

/-! ### Assembling -/

open Document

/-- The state after a run of tokens. -/
def run (state : Assembly) (tokens : List Token) : Option Assembly := tokens.foldlM Assembly.step? state

theorem run_cons {state next : Assembly} {token : Token} (tokens : List Token)
    (h : state.step? token = some next) : run state (token :: tokens) = run next tokens := by
  rw [run, List.foldlM_cons, h]
  rfl

theorem run_append {state next : Assembly} {tokens : List Token} (others : List Token)
    (h : run state tokens = some next) : run state (tokens ++ others) = run next others := by
  rw [run] at h
  rw [run, List.foldlM_append, h]
  rfl

theorem close_of_lt {frames : List Frame} (h : frames.length < maxDepth) (document : Document) :
    Assembly.close document frames = .place document frames := by
  rw [Assembly.close, if_pos h]

/-- The first token of a value is never the end of an array. -/
theorem exists_tokens_cons (value : Value) : ∃ token others, tokens value = token :: others ∧
    ∀ frames, (Assembly.atFirstItem frames).step? token =
      (Assembly.atValue (.array [] :: frames)).step? token := by
  cases value <;> exact ⟨_, _, rfl, fun _ => rfl⟩

theorem run_atFirstItem (item : Value) (items : List Value) (others : List Token) (frames : List Frame) :
    run (.atFirstItem frames) (itemTokens (item :: items) ++ others) =
      run (.atValue (.array [] :: frames)) (itemTokens (item :: items) ++ others) := by
  obtain ⟨token, more, htokens, hstep⟩ := exists_tokens_cons item
  have hitems : ∃ more, itemTokens (item :: items) = token :: more := by
    cases items with
    | nil => exact ⟨_, htokens⟩
    | cons second items =>
      rw [itemTokens_cons, htokens]
      exact ⟨_, rfl⟩
  obtain ⟨more, hitems⟩ := hitems
  rw [hitems, List.cons_append, run, run, List.foldlM_cons, List.foldlM_cons, hstep]

theorem run_atFirstKey (member : String × Value) (members : List (String × Value)) (others : List Token)
    (frames : List Frame) :
    run (.atFirstKey frames) (memberTokens (member :: members) ++ others) =
      run (.atKey [] frames) (memberTokens (member :: members) ++ others) := by
  cases members <;> rfl

mutual

/-- The tokens of a value assemble to its document, in any place that is not too deep. -/
theorem run_tokens (value : Value) {frames : List Frame}
    (hdepth : depth value + frames.length ≤ maxDepth) :
    run (.atValue frames) (tokens value) = some (.place value.toDocument frames) := by
  match value with
  | .null => rfl
  | .bool value => rfl
  | .number value => rfl
  | .string value => rfl
  | .array items =>
    rw [depth] at hdepth
    have hclose := close_of_lt (show frames.length < maxDepth by omega)
    rw [tokens, run_cons _ rfl, toDocument, ← hclose]
    match items with
    | [] => rfl
    | item :: items =>
      rw [run_atFirstItem, run_itemTokens (item :: items) (List.cons_ne_nil _ _) (by omega)]
      rfl
  | .object members =>
    rw [depth] at hdepth
    have hclose := close_of_lt (show frames.length < maxDepth by omega)
    rw [tokens, run_cons _ rfl, toDocument, ← hclose]
    match members with
    | [] => rfl
    | member :: members =>
      rw [run_atFirstKey, run_memberTokens (member :: members) (List.cons_ne_nil _ _) (by omega)]
      rfl

theorem run_itemTokens (items : List Value) (hne : items ≠ []) {frames : List Frame}
    {before : List Document} (hdepth : itemDepth items + (frames.length + 1) ≤ maxDepth) :
    run (.atValue (.array before :: frames)) (itemTokens items ++ [.arrayEnd]) =
      some (.close (.array (before.reverse ++ toDocuments items)) frames) := by
  match items with
  | [] => exact absurd rfl hne
  | [item] =>
    rw [itemDepth] at hdepth
    rw [itemTokens, run_append _ (run_tokens item (by rw [List.length_cons]; omega)), Assembly.place,
      run_cons _ rfl, List.reverse_cons]
    rfl
  | item :: second :: items =>
    rw [itemDepth] at hdepth
    rw [itemTokens_cons, List.append_assoc, run_append _ (run_tokens item (by rw [List.length_cons]; omega)),
      Assembly.place, List.cons_append, run_cons _ rfl,
      run_itemTokens (second :: items) (List.cons_ne_nil _ _) (by omega), List.reverse_cons,
      List.append_assoc]
    rfl

theorem run_memberTokens (members : List (String × Value)) (hne : members ≠ []) {frames : List Frame}
    {before : List (Option String × Document)}
    (hdepth : memberDepth members + (frames.length + 1) ≤ maxDepth) :
    run (.atKey before frames) (memberTokens members ++ [.objectEnd]) =
      some (.close (.object (before.reverse ++ toMembers members)) frames) := by
  match members with
  | [] => exact absurd rfl hne
  | [(key, value)] =>
    rw [memberDepth] at hdepth
    rw [memberTokens, List.cons_append, List.cons_append, run_cons _ rfl, run_cons _ rfl,
      run_append _ (run_tokens value (by rw [List.length_cons]; omega)), Assembly.place,
      run_cons _ rfl, List.reverse_cons]
    rfl
  | (key, value) :: second :: members =>
    rw [memberDepth] at hdepth
    rw [memberTokens_cons, List.cons_append, List.cons_append, run_cons _ rfl, run_cons _ rfl,
      List.append_assoc, run_append _ (run_tokens value (by rw [List.length_cons]; omega)),
      Assembly.place, List.cons_append, run_cons _ rfl,
      run_memberTokens (second :: members) (List.cons_ne_nil _ _) (by omega), List.reverse_cons,
      List.append_assoc]
    rfl

end

/-- A value of an allowed depth is read from its compact form. -/
theorem ofBytes?_compact {value : Value} (hdepth : depth value ≤ maxDepth) :
    Document.ofBytes? (utf8 (compact value)) = some value.toDocument := by
  have hrun : run (.atValue []) (tokens value) = some (.done value.toDocument) := run_tokens value hdepth
  rw [Document.ofBytes?, scan?_compact, Option.bind_some, Document.ofTokens?]
  rw [run] at hrun
  rw [hrun]

end Value

end Paging.Json
