import Paging.Page
import Paging.Proofs.Json.Canonical
import Paging.Request

/-!
Settings and results in JSON. All of them are written as objects, some with `null` for what is absent and some without
a member for it, and read as records with defaults of their own. A field is read from the last member of its name, so
nothing that is written gives way to a default, and each of them is read as it was.
-/

namespace Paging

namespace Json

/-! ### Records that are written as objects -/

namespace Document

theorem keyed?_toMembers (members : List (String × Value)) :
    keyed? (Value.toMembers members) = some (members.map fun member => (member.1, member.2.toDocument)) := by
  induction members with
  | nil => rfl
  | cons member rest ih =>
    rw [Value.toMembers, keyed?, ih]
    rfl

/-- Leaving out members of other names does not change what is found under a name. -/
theorem lookup_known {names : List String} {name : String} (hname : name ∈ names) (members : List (String × Value)) :
    ((members.map fun member => (member.1, member.2.toDocument)).filter fun member =>
      names.contains member.1).lookup name = (members.lookup name).map Value.toDocument := by
  induction members with
  | nil => rfl
  | cons member rest ih =>
    rw [List.map_cons, List.filter_cons, List.lookup_cons]
    by_cases hmember : name = member.1
    · have hknown : names.contains member.1 = true := List.contains_iff_mem.mpr (hmember ▸ hname)
      rw [if_pos hknown, List.lookup_cons, beq_iff_eq.mpr hmember]
      rfl
    · rw [beq_false_of_ne hmember, ← ih]
      split
      · rw [List.lookup_cons, beq_false_of_ne hmember]
      · rfl

/-- An object is a record of any names, which has under each of them the last member of that name. -/
theorem exists_record (names : List String) (members : List (String × Value)) :
    ∃ record, (Value.ofMembers members).toDocument.record? names = some record ∧
      ∀ name ∈ names, record.lookup name = (members.reverse.lookup name).map Value.toDocument := by
  have hnodup := (Object.ascending_ofList members).nodup_keys
  have hlookup := Object.get?_ofList members
  generalize hobject : Object.ofList members = object at hnodup hlookup
  refine ⟨(object.map fun member => (member.1, member.2.toDocument)).filter fun member => names.contains member.1,
    ?_, fun name hname => ?_⟩
  · have hknown : (((object.map fun member => (member.1, member.2.toDocument)).filter fun member =>
        names.contains member.1).map (·.1)).Nodup := by
      refine List.Nodup.sublist (List.filter_sublist.map _) ?_
      rw [List.map_map]
      exact hnodup
    rw [Value.ofMembers, hobject, Value.toDocument, record?, keyed?_toMembers]
    exact if_pos hknown
  · rw [lookup_known hname, ← hlookup]
    rfl

/-! ### What is read of a field -/

theorem word?_ofWord (word : UInt64) : (Value.ofWord word).toDocument.word? = some word := by
  have hnonneg : (0 : Int) ≤ word.toNat := Int.natCast_nonneg _
  change (if (0 : Int) ≤ word.toNat then some (UInt64.ofNat (Int.toNat word.toNat)) else none) = some word
  rw [if_pos hnonneg, Int.toNat_natCast, UInt64.ofNat_toNat]

theorem nat?_ofNat {n : Nat} (h : n < UInt64.size) : (Value.ofNat n).toDocument.nat? = some n := by
  have htoNat : (UInt64.ofNat n).toNat = n := UInt64.toNat_ofNat_of_lt h
  have hword : Value.ofNat n = .ofWord (UInt64.ofNat n) := by
    rw [Value.ofNat, Number.ofNat?, dif_pos h, Value.ofWord, Number.ofWord]
    simp only [htoNat, Option.map_some, Option.getD_some]
  rw [nat?, hword, word?_ofWord, Option.map_some, htoNat]

theorem list?_toDocument {items : List Value} (h : ∀ item ∈ items, item.Canonical) :
    (Value.array items).toDocument.list? value? = some items := by
  rw [Value.toDocument, list?]
  induction items with
  | nil => rfl
  | cons item rest ih =>
    obtain ⟨hitem, hrest⟩ := List.forall_mem_cons.mp h
    rw [Value.toDocuments, List.mapM_cons, Value.value?_toDocument hitem, ih hrest]
    rfl

theorem nullable?_eq_some {α : Type} {read : Document → Option α} (hnull : read .null = none) {document : Document}
    {value : α} (hread : read document = some value) : document.nullable? read = some (some value) := by
  cases document with
  | null => rw [hnull] at hread; cases hread
  | _ => exact congrArg (Option.map some) hread

/-- What is absent is written as `null`. -/
theorem nullable?_ofOption {α : Type} {read : Document → Option α} {write : α → Value} (hnull : read .null = none)
    (hread : ∀ value, read (write value).toDocument = some value) (value : Option α) :
    (Value.ofOption (value.map write)).toDocument.nullable? read = some value := by
  cases value with
  | none => rfl
  | some value => exact nullable?_eq_some hnull (hread value)

end Document

namespace Record

variable {α : Type} {record : Record} {name : String} {document : Document} {read : Document → Option α} {value : α}

theorem field?_eq (hlookup : record.lookup name = some document) (hread : read document = some value) :
    record.field? name read = some value := by
  rw [field?, hlookup]
  exact hread

theorem fieldOr?_eq {default : α} (hlookup : record.lookup name = some document)
    (hread : read document = some value) : record.fieldOr? name default read = some value := by
  rw [fieldOr?, hlookup]
  exact hread

/-- What is absent may also be left out. -/
theorem fieldOr?_optional {write : α → Value} {value : Option α}
    (hlookup : record.lookup name = (value.map write).map Value.toDocument) (hnull : read .null = none)
    (hread : ∀ a ∈ value, read (write a).toDocument = some a) :
    record.fieldOr? name none (·.nullable? read) = some value := by
  rw [fieldOr?, hlookup]
  cases value with
  | none => rfl
  | some value => exact Document.nullable?_eq_some hnull (hread value rfl)

end Record

end Json

open Json

/-! ### Settings -/

theorem Direction.ofName?_name (direction : Direction) : ofName? direction.name = some direction := by
  cases direction <;> rfl

theorem SortKey.ofDocument?_toJson (key : SortKey) : ofDocument? key.toJson.toDocument = some key := by
  obtain ⟨record, hrecord, hlookup⟩ := Document.exists_record ["field", "order"]
    [("field", .string key.field), ("order", .string key.direction.name)]
  have hfield : record.field? "field" Document.text? = some key.field :=
    Record.field?_eq (hlookup "field" (by decide)) rfl
  have horder : (record.fieldOr? "order" .ascending fun document =>
      document.choice?.bind Direction.ofName?) = some key.direction :=
    Record.fieldOr?_eq (hlookup "order" (by decide)) key.direction.ofName?_name
  rw [ofDocument?, toJson, hrecord]
  simp only [Option.bind_eq_bind, Option.bind_some, hfield, horder, Option.pure_def]

theorem Request.ofDocument?_toJson (request : Request) : ofDocument? request.toJson.toDocument = some request := by
  obtain ⟨record, hrecord, hlookup⟩ := Document.exists_record fieldNames
    [("sort", request.sort.toJson), ("limit", .ofOption (request.limit.map .ofWord)),
      ("cursor", .ofOption (request.cursor.map .string)), ("offset", .ofOption (request.offset.map .ofWord)),
      ("useOffsetFallback", .bool request.offsetMode), ("tieBreaker", request.tieBreaker.toJson),
      ("includeCount", .ofOption (request.includeCount.map .bool))]
  have hsort : record.field? "sort" SortKey.ofDocument? = some request.sort :=
    Record.field?_eq (hlookup "sort" (by decide)) request.sort.ofDocument?_toJson
  have hlimit : record.fieldOr? "limit" none (·.nullable? Document.word?) = some request.limit :=
    Record.fieldOr?_eq (hlookup "limit" (by decide)) (Document.nullable?_ofOption rfl Document.word?_ofWord _)
  have hcursor : record.fieldOr? "cursor" none (·.nullable? Document.text?) = some request.cursor :=
    Record.fieldOr?_eq (hlookup "cursor" (by decide)) (Document.nullable?_ofOption rfl (fun _ => rfl) _)
  have hoffset : record.fieldOr? "offset" none (·.nullable? Document.word?) = some request.offset :=
    Record.fieldOr?_eq (hlookup "offset" (by decide)) (Document.nullable?_ofOption rfl Document.word?_ofWord _)
  have hmode : record.fieldOr? "useOffsetFallback" false Document.flag? = some request.offsetMode :=
    Record.fieldOr?_eq (hlookup "useOffsetFallback" (by decide)) rfl
  have htieBreaker : record.fieldOr? "tieBreaker" (.asc defaultTieBreaker) SortKey.ofDocument? =
      some request.tieBreaker :=
    Record.fieldOr?_eq (hlookup "tieBreaker" (by decide)) request.tieBreaker.ofDocument?_toJson
  have hcount : record.fieldOr? "includeCount" none (·.nullable? Document.flag?) = some request.includeCount :=
    Record.fieldOr?_eq (hlookup "includeCount" (by decide)) (Document.nullable?_ofOption rfl (fun _ => rfl) _)
  rw [ofDocument?, toJson, hrecord]
  simp only [Option.bind_eq_bind, Option.bind_some, hsort, hlimit, hcursor, hoffset, hmode, htieBreaker, hcount,
    Option.pure_def]

theorem Policy.ofDocument?_toJson (policy : Policy) : ofDocument? policy.toJson.toDocument = some policy := by
  obtain ⟨record, hrecord, hlookup⟩ := Document.exists_record ["default_limit", "max_limit", "include_count"]
    [("default_limit", .ofWord policy.defaultLimit), ("max_limit", .ofWord policy.maxLimit),
      ("include_count", .bool policy.includeCount)]
  have hdefault (standard : UInt64) :
      record.fieldOr? "default_limit" standard Document.word? = some policy.defaultLimit :=
    Record.fieldOr?_eq (hlookup "default_limit" (by decide)) (Document.word?_ofWord _)
  have hmax (standard : UInt64) : record.fieldOr? "max_limit" standard Document.word? = some policy.maxLimit :=
    Record.fieldOr?_eq (hlookup "max_limit" (by decide)) (Document.word?_ofWord _)
  have hcount (standard : Bool) :
      record.fieldOr? "include_count" standard Document.flag? = some policy.includeCount :=
    Record.fieldOr?_eq (hlookup "include_count" (by decide)) rfl
  rw [ofDocument?, toJson, hrecord]
  simp only [Option.bind_eq_bind, Option.bind_some, hdefault, hmax, hcount, Option.pure_def]

/-! ### Pages -/

namespace Page

/-- The page has a form in JSON: its items are canonical values, and its total is a word. -/
structure Writable (page : Page Value) : Prop where
  items : ∀ item ∈ page.items, item.Canonical
  total : ∀ total ∈ page.totalCount, total < UInt64.size

theorem lookup_optionalMember (name : String) (value : Option Value) (other : String) :
    (optionalMember name value).reverse.lookup other = if other = name then value else none := by
  cases value with
  | none => exact (ite_self _).symm
  | some value =>
    by_cases hname : other = name
    · rw [if_pos hname, hname]
      exact List.lookup_cons_self
    · rw [if_neg hname]
      exact (List.lookup_cons ..).trans (by rw [beq_false_of_ne hname]; rfl)

theorem ofDocument?_toJson {page : Page Value} (h : page.Writable) :
    ofDocument? page.toJson.toDocument = some page := by
  obtain ⟨record, hrecord, hlookup⟩ := Document.exists_record
    ["items", "hasNextPage", "hasPreviousPage", "nextCursor", "previousCursor", "totalCount"]
    ([("items", .array page.items), ("hasNextPage", .bool page.hasNext), ("hasPreviousPage", .bool page.hasPrevious)] ++
      optionalMember "nextCursor" (page.nextCursor.map .string) ++
      optionalMember "previousCursor" (page.previousCursor.map .string) ++
      optionalMember "totalCount" (page.totalCount.map .ofNat))
  simp only [List.reverse_append, List.lookup_append, lookup_optionalMember] at hlookup
  have hitems : record.field? "items" (·.list? Document.value?) = some page.items :=
    Record.field?_eq (hlookup "items" (by decide)) (Document.list?_toDocument h.items)
  have hnext : record.field? "hasNextPage" Document.flag? = some page.hasNext :=
    Record.field?_eq (hlookup "hasNextPage" (by decide)) rfl
  have hprevious : record.field? "hasPreviousPage" Document.flag? = some page.hasPrevious :=
    Record.field?_eq (hlookup "hasPreviousPage" (by decide)) rfl
  -- under the name of an optional member there is that member or none
  have honly {value : Option Value} : (value.or none).map Value.toDocument = value.map Value.toDocument :=
    congrArg _ Option.or_none
  have hnextCursor : record.fieldOr? "nextCursor" none (·.nullable? Document.text?) = some page.nextCursor :=
    Record.fieldOr?_optional ((hlookup "nextCursor" (by decide)).trans honly) rfl fun _ _ => rfl
  have hpreviousCursor : record.fieldOr? "previousCursor" none (·.nullable? Document.text?) =
      some page.previousCursor :=
    Record.fieldOr?_optional ((hlookup "previousCursor" (by decide)).trans honly) rfl fun _ _ => rfl
  have htotal : record.fieldOr? "totalCount" none (·.nullable? Document.nat?) = some page.totalCount :=
    Record.fieldOr?_optional ((hlookup "totalCount" (by decide)).trans honly) rfl fun total htotal =>
      Document.nat?_ofNat (h.total total htotal)
  rw [ofDocument?, toJson, hrecord]
  simp only [Option.bind_eq_bind, Option.bind_some, hitems, hnext, hprevious, hnextCursor, hpreviousCursor, htotal,
    Option.pure_def]

end Page

namespace NumberedPage

/-- The page has a form in JSON: its items are canonical values, and its numbers are words. -/
structure Writable (shown : NumberedPage Value) : Prop where
  items : ∀ item ∈ shown.items, item.Canonical
  total : shown.total < UInt64.size
  page : shown.page < UInt64.size
  limit : shown.limit < UInt64.size
  totalPages : shown.totalPages < UInt64.size

theorem ofDocument?_toJson {page : NumberedPage Value} (h : page.Writable) :
    ofDocument? page.toJson.toDocument = some page := by
  obtain ⟨record, hrecord, hlookup⟩ := Document.exists_record ["items", "total", "page", "limit", "totalPages"]
    [("items", .array page.items), ("total", .ofNat page.total), ("page", .ofNat page.page),
      ("limit", .ofNat page.limit), ("totalPages", .ofNat page.totalPages)]
  have hitems : record.field? "items" (·.list? Document.value?) = some page.items :=
    Record.field?_eq (hlookup "items" (by decide)) (Document.list?_toDocument h.items)
  have htotal : record.field? "total" Document.nat? = some page.total :=
    Record.field?_eq (hlookup "total" (by decide)) (Document.nat?_ofNat h.total)
  have hpage : record.field? "page" Document.nat? = some page.page :=
    Record.field?_eq (hlookup "page" (by decide)) (Document.nat?_ofNat h.page)
  have hlimit : record.field? "limit" Document.nat? = some page.limit :=
    Record.field?_eq (hlookup "limit" (by decide)) (Document.nat?_ofNat h.limit)
  have htotalPages : record.field? "totalPages" Document.nat? = some page.totalPages :=
    Record.field?_eq (hlookup "totalPages" (by decide)) (Document.nat?_ofNat h.totalPages)
  rw [ofDocument?, toJson, hrecord]
  simp only [Option.bind_eq_bind, Option.bind_some, hitems, htotal, hpage, hlimit, htotalPages, Option.pure_def]

end NumberedPage

/--
Sort keys, requests and policies of all kinds are read from their JSON form as they are, and so are pages and numbered
pages, as long as their items are JSON values and their numbers have 64 bits.
-/
theorem shapes_read_back :
    (∀ key : SortKey, SortKey.ofDocument? key.toJson.toDocument = some key) ∧
      (∀ request : Request, Request.ofDocument? request.toJson.toDocument = some request) ∧
      (∀ policy : Policy, Policy.ofDocument? policy.toJson.toDocument = some policy) ∧
      (∀ page : Page Value, page.Writable → Page.ofDocument? page.toJson.toDocument = some page) ∧
      ∀ page : NumberedPage Value, page.Writable → NumberedPage.ofDocument? page.toJson.toDocument = some page :=
  ⟨SortKey.ofDocument?_toJson, Request.ofDocument?_toJson, Policy.ofDocument?_toJson,
    fun _ => Page.ofDocument?_toJson, fun _ => NumberedPage.ofDocument?_toJson⟩

/-- Items with arrays, objects and `null` in them, the largest word, and an empty text that is not absent. -/
theorem shapes_read_back_largest :
    let items : List Value := [.object [("", .null), ("a", .array [.object [], .ofWord 18446744073709551615])], .null]
    let page : Page Value :=
      { items := items, hasNext := false, hasPrevious := true, previousCursor := some "",
        totalCount := some 18446744073709551615 }
    let numbered : NumberedPage Value := ⟨items, 18446744073709551615, 0, 0, 0⟩
    page.Writable ∧ Page.ofDocument? page.toJson.toDocument = some page ∧
      numbered.Writable ∧ NumberedPage.ofDocument? numbered.toJson.toDocument = some numbered := by
  intro items page numbered
  have hascends : Object.Ascending [("", .null), ("a", .array [.object [], .ofWord 18446744073709551615])] := by
    unfold Object.Ascending
    decide
  have hitems : ∀ item ∈ items, item.Canonical :=
    List.forall_mem_cons.mpr ⟨⟨hascends, trivial, ⟨⟨.nil, trivial⟩, trivial, trivial⟩, trivial⟩,
      List.forall_mem_singleton.mpr trivial⟩
  have hpage : page.Writable := ⟨hitems, fun total htotal => by cases htotal; decide⟩
  have hnumbered : numbered.Writable := ⟨hitems, by decide, by decide, by decide, by decide⟩
  obtain ⟨_, _, _, hread, hreadNumbered⟩ := shapes_read_back
  exact ⟨hpage, hread page hpage, hnumbered, hreadNumbered numbered hnumbered⟩

end Paging
