import Paging.Json.Document

/-!
Canonical values, whose objects have their members in ascending order of the keys, each key once. They are the values
that documents stand for, and each of them is what its own document stands for.
-/

namespace Paging.Json

open Std

namespace Object

/-- The keys of an object ascend, so that each of them is there once. -/
def Ascending (object : Object) : Prop := object.Pairwise fun a b => compare a.1 b.1 = .lt

theorem Ascending.nodup_keys {object : Object} (h : object.Ascending) : (object.map (·.1)).Nodup := by
  have hne {a b : String × Value} (hlt : compare a.1 b.1 = .lt) : a.1 ≠ b.1 := by
    intro heq
    rw [heq, ReflOrd.compare_self] at hlt
    cases hlt
  exact List.pairwise_map.mpr (h.imp hne)

theorem mem_insert {key : String} {value : Value} {object : Object} {member : String × Value}
    (h : member ∈ object.insert key value) : member = (key, value) ∨ member ∈ object := by
  fun_induction insert key value object with
  | case1 => exact Or.inl (List.mem_singleton.mp h)
  | case2 k v rest _ => exact List.mem_cons.mp h
  | case3 k v rest _ => exact (List.mem_cons.mp h).imp_right (List.mem_cons_of_mem _)
  | case4 k v rest _ ih =>
    rcases List.mem_cons.mp h with rfl | h
    · exact Or.inr List.mem_cons_self
    · exact (ih h).imp_right (List.mem_cons_of_mem _)

theorem Ascending.insert {object : Object} (h : object.Ascending) (key : String) (value : Value) :
    (object.insert key value).Ascending := by
  fun_induction Object.insert key value object with
  | case1 => exact List.pairwise_singleton _ _
  | case2 k v rest hlt =>
    refine List.pairwise_cons.mpr ⟨fun member hmember => ?_, h⟩
    rcases List.mem_cons.mp hmember with rfl | hrest
    · exact hlt
    · exact TransCmp.lt_trans hlt (List.rel_of_pairwise_cons h hrest)
  | case3 k v rest heq =>
    obtain ⟨hrest, htail⟩ := List.pairwise_cons.mp h
    refine List.pairwise_cons.mpr ⟨fun member hmember => ?_, htail⟩
    rw [TransCmp.congr_left heq]
    exact hrest member hmember
  | case4 k v rest hgt ih =>
    obtain ⟨hrest, htail⟩ := List.pairwise_cons.mp h
    refine List.pairwise_cons.mpr ⟨fun member hmember => ?_, ih htail⟩
    rcases mem_insert hmember with rfl | hmember
    · exact OrientedCmp.lt_of_gt hgt
    · exact hrest member hmember

theorem mem_ofList {members : List (String × Value)} {member : String × Value} :
    member ∈ ofList members → member ∈ members := by
  have hfrom {object : Object}
      (h : member ∈ members.foldl (fun object member => object.insert member.1 member.2) object) :
      member ∈ members ∨ member ∈ object := by
    induction members generalizing object with
    | nil => exact Or.inr h
    | cons first rest ih =>
      rcases ih h with hrest | hobject
      · exact Or.inl (List.mem_cons_of_mem _ hrest)
      · rcases mem_insert hobject with rfl | hobject
        · exact Or.inl List.mem_cons_self
        · exact Or.inr hobject
  exact fun h => (hfrom h).resolve_right List.not_mem_nil

/-- A key that is greater than all others goes to the end. -/
theorem insert_of_forall_lt {key : String} {value : Value} {object : Object}
    (h : ∀ member ∈ object, compare member.1 key = .lt) : object.insert key value = object ++ [(key, value)] := by
  induction object with
  | nil => rfl
  | cons member rest ih =>
    obtain ⟨hmember, hrest⟩ := List.forall_mem_cons.mp h
    have hgt : compare key member.1 = .gt := OrientedCmp.gt_of_lt hmember
    rw [Object.insert, hgt]
    exact congrArg _ (ih hrest)

theorem lookup_insert (key : String) (value : Value) (object : Object) (name : String) :
    (object.insert key value).lookup name = if name = key then some value else object.lookup name := by
  by_cases hname : name = key
  · subst hname
    rw [if_pos rfl]
    fun_induction insert name value object with
    | case4 k v rest hgt ih =>
      have hne : (name == k) = false := by
        rw [beq_eq_false_iff_ne]
        rintro rfl
        rw [ReflOrd.compare_self] at hgt
        cases hgt
      rw [List.lookup_cons, hne]
      exact ih
    | _ => exact List.lookup_cons_self
  · rw [if_neg hname]
    have hkey : (name == key) = false := beq_false_of_ne hname
    fun_induction insert key value object with
    | case1 => rw [List.lookup_cons, hkey]
    | case2 k v rest hlt => rw [List.lookup_cons, hkey]
    | case3 k v rest heq =>
      obtain rfl := LawfulEqCmp.eq_of_compare heq
      rw [List.lookup_cons, List.lookup_cons, hkey]
    | case4 k v rest hgt ih => rw [List.lookup_cons, List.lookup_cons, ih]

theorem ascending_ofList (members : List (String × Value)) : (ofList members).Ascending := by
  have hfrom {object : Object} (h : object.Ascending) :
      (members.foldl (fun object member => object.insert member.1 member.2) object).Ascending := by
    induction members generalizing object with
    | nil => exact h
    | cons member rest ih => exact ih (h.insert member.1 member.2)
  exact hfrom .nil

/-- An object is built from its own members as it is. -/
theorem ofList_of_ascending {object : Object} (h : object.Ascending) : ofList object = object := by
  have hfrom (before members : Object) (h : Ascending (before ++ members)) :
      members.foldl (fun object member => object.insert member.1 member.2) before = before ++ members := by
    induction members generalizing before with
    | nil => exact (List.append_nil _).symm
    | cons member rest ih =>
      obtain ⟨_, _, hlast⟩ := List.pairwise_append.mp h
      have hinsert : before.insert member.1 member.2 = before ++ [member] :=
        insert_of_forall_lt fun other hother => hlast other hother member List.mem_cons_self
      rw [List.append_cons before member rest] at h ⊢
      rw [List.foldl_cons, hinsert, ih _ h]
  exact hfrom [] object h

/-- Of several members with one key the last is found. -/
theorem get?_ofList (members : List (String × Value)) (name : String) :
    (ofList members).get? name = members.reverse.lookup name := by
  have hfrom (object : Object) :
      (members.foldl (fun object member => object.insert member.1 member.2) object).lookup name =
        (members.reverse.lookup name).or (object.lookup name) := by
    induction members generalizing object with
    | nil => rfl
    | cons member rest ih =>
      rw [List.foldl_cons, ih, lookup_insert, List.reverse_cons, List.lookup_append, Option.or_assoc, List.lookup_cons]
      by_cases hname : name = member.1
      · rw [if_pos hname, beq_iff_eq.mpr hname]
        rfl
      · rw [if_neg hname, beq_false_of_ne hname]
        rfl
  exact (hfrom []).trans (Option.or_none)

end Object

namespace Value

mutual

/-- The objects in a value ascend, at any depth. -/
def Canonical : Value → Prop
  | .array items => CanonicalItems items
  | .object members => Object.Ascending members ∧ CanonicalMembers members
  | _ => True

def CanonicalItems : List Value → Prop
  | [] => True
  | item :: rest => Canonical item ∧ CanonicalItems rest

def CanonicalMembers : List (String × Value) → Prop
  | [] => True
  | (_, value) :: rest => Canonical value ∧ CanonicalMembers rest

end

theorem canonicalMembers_iff {members : List (String × Value)} :
    CanonicalMembers members ↔ ∀ member ∈ members, member.2.Canonical := by
  induction members with
  | nil => exact iff_of_true trivial nofun
  | cons member rest ih => rw [CanonicalMembers, ih, List.forall_mem_cons]

mutual

theorem value?_toDocument {value : Value} (h : value.Canonical) : value.toDocument.value? = some value := by
  match value with
  | .null => rfl
  | .bool value => rfl
  | .number value => rfl
  | .string value => rfl
  | .array items =>
    rw [toDocument, Document.value?, values?_toDocuments h]
    rfl
  | .object members =>
    rw [toDocument, Document.value?, members?_toMembers h.2, Option.map_some, ofMembers, Object.ofList_of_ascending h.1]

theorem values?_toDocuments {items : List Value} (h : CanonicalItems items) :
    Document.values? (toDocuments items) = some items := by
  match items with
  | [] => rfl
  | item :: rest =>
    rw [toDocuments, Document.values?, value?_toDocument h.1, values?_toDocuments h.2]

theorem members?_toMembers {members : List (String × Value)} (h : CanonicalMembers members) :
    Document.members? (toMembers members) = some members := by
  match members with
  | [] => rfl
  | (key, value) :: rest =>
    simp only [toMembers, Document.members?, value?_toDocument h.1, members?_toMembers h.2]

end

mutual

theorem canonical_of_value? {document : Document} {value : Value} (h : document.value? = some value) :
    value.Canonical := by
  match document with
  | .null =>
    cases h
    trivial
  | .bool value =>
    cases h
    trivial
  | .number value =>
    obtain ⟨_, _, rfl⟩ := Option.map_eq_some_iff.mp h
    trivial
  | .string text =>
    obtain ⟨_, _, rfl⟩ := Option.map_eq_some_iff.mp h
    trivial
  | .array items =>
    obtain ⟨values, hvalues, rfl⟩ := Option.map_eq_some_iff.mp h
    exact canonicalItems_of_values? hvalues
  | .object members =>
    obtain ⟨values, hvalues, rfl⟩ := Option.map_eq_some_iff.mp h
    have hmembers := canonicalMembers_iff.mp (canonicalMembers_of_members? hvalues)
    refine ⟨Object.ascending_ofList values, canonicalMembers_iff.mpr fun member hmember => ?_⟩
    exact hmembers member (Object.mem_ofList hmember)

theorem canonicalItems_of_values? {items : List Document} {values : List Value}
    (h : Document.values? items = some values) : CanonicalItems values := by
  match items with
  | [] =>
    cases h
    trivial
  | item :: rest =>
    rw [Document.values?] at h
    split at h
    · rename_i hitem hrest
      cases h
      exact ⟨canonical_of_value? hitem, canonicalItems_of_values? hrest⟩
    · cases h

theorem canonicalMembers_of_members? {members : List (Option String × Document)} {values : List (String × Value)}
    (h : Document.members? members = some values) : CanonicalMembers values := by
  match members with
  | [] =>
    cases h
    trivial
  | (key, item) :: rest =>
    simp only [Document.members?] at h
    split at h
    · rename_i hitem hrest
      cases h
      exact ⟨canonical_of_value? hitem, canonicalMembers_of_members? hrest⟩
    · cases h

end

/-- The canonical values are those that documents stand for, such as all that is read from text. -/
theorem canonical_iff_exists_document (value : Value) :
    value.Canonical ↔ ∃ document : Document, document.value? = some value := by
  constructor
  · exact fun h => ⟨value.toDocument, value?_toDocument h⟩
  · rintro ⟨document, h⟩
    exact canonical_of_value? h

end Value

end Paging.Json
