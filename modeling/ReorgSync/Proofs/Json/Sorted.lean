import Mathlib.Data.List.Nodup
import ReorgSync.Proofs.Json.Text

namespace ReorgSync.Json

/-! A value in memory keeps the fields of its objects in the order of their names, not in
the order in which they were written. Neither order loses a field. -/

/-! ## Fields in order -/

/-- A field whose name is new is put beside the others. -/
theorem insertField_perm {name : String} {fields : List (String × Json)}
    (isNew : name ∉ fields.map Prod.fst) (value : Json) :
    (insertField name value fields).Perm ((name, value) :: fields) := by
  induction fields with
  | nil => exact .refl _
  | cons field rest induction =>
      rcases field with ⟨other, held⟩
      rw [List.map_cons, List.mem_cons, not_or] at isNew
      rw [insertField]
      split
      · exact .refl _
      · rw [if_neg isNew.1]
        exact ((induction isNew.2).cons _).trans (.swap _ _ _)

theorem foldl_insertField_perm {fields sorted : List (String × Json)}
    (distinct : ((fields ++ sorted).map Prod.fst).Nodup) :
    (fields.foldl (fun sorted field => insertField field.1 field.2 sorted) sorted).Perm
      (fields ++ sorted) := by
  induction fields generalizing sorted with
  | nil => exact .refl _
  | cons field rest induction =>
      have moved : (rest ++ field :: sorted).Perm (field :: (rest ++ sorted)) :=
        List.perm_middle
      have distinctMoved := (moved.map Prod.fst).nodup_iff.mpr distinct
      have isNew : field.1 ∉ sorted.map Prod.fst := by
        rw [List.map_append, List.nodup_append] at distinctMoved
        exact (List.nodup_cons.mp distinctMoved.2.1).1
      have inserted := (insertField_perm isNew field.2).append_left rest
      exact (induction ((inserted.map Prod.fst).nodup_iff.mpr distinctMoved)).trans
        (inserted.trans moved)

/-! ## Values in memory -/

mutual

/-- The value as it is kept in memory. -/
def sorted : Json → Json
  | .array items => .array (sortedItems items)
  | .object fields => ofFields (sortedFields fields)
  | value => value

def sortedItems : List Json → List Json
  | [] => []
  | item :: rest => sorted item :: sortedItems rest

def sortedFields : List (String × Json) → List (String × Json)
  | [] => []
  | (name, value) :: rest => (name, sorted value) :: sortedFields rest

end

theorem sortedItems_eq (items : List Json) : sortedItems items = items.map sorted := by
  induction items with
  | nil => rfl
  | cons item rest induction => rw [sortedItems, induction, List.map_cons]

theorem sortedFields_eq (fields : List (String × Json)) :
    sortedFields fields = fields.map fun field => (field.1, sorted field.2) := by
  induction fields with
  | nil => rfl
  | cons field rest induction => rw [sortedFields, induction, List.map_cons]

namespace Draft

theorem ofFields_eq (fields : List (String × Json)) :
    ofFields fields = fields.map fun field => (some field.1, ofJson field.2) := by
  induction fields with
  | nil => rfl
  | cons field rest induction => rw [ofFields, induction, List.map_cons]

mutual

/-- Nothing but the order of the fields is lost on the way into memory. -/
theorem toJson?_ofJson (value : Json) : (ofJson value).toJson? = some value.sorted := by
  cases value with
  | null | bool | integer | real | string => rfl
  | array items =>
      rw [ofJson, toJson?, itemsToJson?_ofItems items]
      rfl
  | object fields =>
      rw [ofJson, toJson?, fieldsToJson?_ofFields fields]
      rfl

theorem itemsToJson?_ofItems (items : List Json) :
    itemsToJson? (ofItems items) = some (sortedItems items) := by
  cases items with
  | nil => rfl
  | cons item rest =>
      rw [ofItems, itemsToJson?, toJson?_ofJson item, itemsToJson?_ofItems rest]
      rfl

theorem fieldsToJson?_ofFields (fields : List (String × Json)) :
    fieldsToJson? (ofFields fields) = some (sortedFields fields) := by
  rcases fields with - | ⟨⟨name, value⟩, rest⟩
  · rfl
  · rw [ofFields, fieldsToJson?, toJson?_ofJson value, fieldsToJson?_ofFields rest]
    rfl

end

end Draft

/-- The text of a value is parsed to that value in memory. -/
theorem parse?_print {value : Json} (fits : FitsIn maxDepth value) :
    parse? value.print = some value.sorted := by
  rw [parse?, Draft.parse_print fits]
  exact Draft.toJson?_ofJson value

/-! ## Orders of fields -/

/-- A way to put the fields of objects into another order, at any depth. -/
structure Rearranges (arrange : Json → Json) : Prop where
  null : arrange .null = .null
  integer : ∀ value, arrange (.integer value) = .integer value
  string : ∀ value, arrange (.string value) = .string value
  array : ∀ items, arrange (.array items) = .array (items.map arrange)
  object : ∀ fields, (fields.map Prod.fst).Nodup → ∃ arranged,
    arrange (.object fields) = .object arranged ∧
      arranged.Perm (fields.map fun field => (field.1, arrange field.2))

theorem rearranges_id : Rearranges id where
  null := rfl
  integer _ := rfl
  string _ := rfl
  array items := by rw [List.map_id, id]
  object fields _ := ⟨fields, rfl, by simp⟩

theorem rearranges_sorted : Rearranges sorted where
  null := rfl
  integer _ := rfl
  string _ := rfl
  array items := by rw [sorted, sortedItems_eq]
  object fields distinct := by
    have sameNames : (sortedFields fields).map Prod.fst = fields.map Prod.fst := by
      rw [sortedFields_eq, List.map_map]
      rfl
    have perm := @foldl_insertField_perm (sortedFields fields) []
      (by rwa [List.append_nil, sameNames])
    rw [List.append_nil, sortedFields_eq] at perm
    rw [sorted, ofFields, sortedFields_eq]
    exact ⟨_, rfl, perm⟩

end ReorgSync.Json
