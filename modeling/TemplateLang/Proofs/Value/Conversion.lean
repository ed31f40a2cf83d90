import TemplateLang.Proofs.Json.Number

/-! Values as JSON and back. Neither way touches anything but numbers: one makes null of those that
are not finite, and the other rounds integers to the nearest floating-point number. Objects are
converted field by field, and the order in which the fields are visited does not matter. -/

namespace TemplateLang.Value

/-- A finite number is left, and any other is null. -/
def finiteOrNull (n : Number) : Value := if n.isFinite then .number n else .null

mutual

theorem ofJson_toJson : ∀ v : Value, ofJson v.toJson = v.mapNumbers finiteOrNull
  | .null | .string _ | .boolean _ => rfl
  | .number n => by
    rw [toJson, numberToJson, mapNumbers, finiteOrNull]
    split_ifs <;> rfl
  | .array items => by rw [toJson, ofJson, mapNumbers, itemsOfJson_itemsToJson items]
  | .object fields => by rw [toJson, ofJson, mapNumbers, fieldsOfJson_fieldsToJson fields]

theorem itemsOfJson_itemsToJson : ∀ items : List Value,
    itemsOfJson (itemsToJson items) = mapItemNumbers finiteOrNull items
  | [] => rfl
  | item :: rest => by
    rw [itemsToJson, itemsOfJson, mapItemNumbers, ofJson_toJson item,
      itemsOfJson_itemsToJson rest]

theorem fieldsOfJson_fieldsToJson : ∀ fields : List (String × Value),
    fieldsOfJson (fieldsToJson fields) = mapFieldNumbers finiteOrNull fields
  | [] => rfl
  | (name, value) :: rest => by
    rw [fieldsToJson, fieldsOfJson, mapFieldNumbers, ofJson_toJson value,
      fieldsOfJson_fieldsToJson rest]

end

/-- A value survives exactly when all its numbers are finite. -/
theorem ofJson_toJson_eq_self_iff (v : Value) :
    ofJson v.toJson = v ↔ ∀ n ∈ v.numbers, n.isFinite := by
  rw [ofJson_toJson, mapNumbers_eq_self_iff]
  refine forall₂_congr fun n _ => ?_
  rw [finiteOrNull]
  split_ifs with hfinite <;> simp [hfinite]

mutual

theorem toJson_ofJson : ∀ j : Json, (∀ n ∈ j.numbers, n.isStorable) →
    (ofJson j).toJson = j.mapNumbers fun n => .float n.toNumber
  | .null, _ | .string _, _ | .bool _, _ => rfl
  | .number n, h => by
    have hfinite := JsonNumber.isFinite_toNumber (h n (List.mem_singleton_self n))
    rw [ofJson, toJson, numberToJson, if_pos hfinite, Json.mapNumbers]
  | .array items, h => by rw [ofJson, toJson, Json.mapNumbers, itemsToJson_itemsOfJson items h]
  | .object fields, h => by
    rw [ofJson, toJson, Json.mapNumbers, fieldsToJson_fieldsOfJson fields h]

theorem itemsToJson_itemsOfJson : ∀ items : List Json,
    (∀ n ∈ Json.itemNumbers items, n.isStorable) →
    itemsToJson (itemsOfJson items) = Json.mapItemNumbers (fun n => .float n.toNumber) items
  | [], _ => rfl
  | item :: rest, h => by
    rw [Json.itemNumbers, List.forall_mem_append] at h
    rw [itemsOfJson, itemsToJson, Json.mapItemNumbers, toJson_ofJson item h.1,
      itemsToJson_itemsOfJson rest h.2]

theorem fieldsToJson_fieldsOfJson : ∀ fields : List (String × Json),
    (∀ n ∈ Json.fieldNumbers fields, n.isStorable) →
    fieldsToJson (fieldsOfJson fields) = Json.mapFieldNumbers (fun n => .float n.toNumber) fields
  | [], _ => rfl
  | (name, value) :: rest, h => by
    rw [Json.fieldNumbers, List.forall_mem_append] at h
    rw [fieldsOfJson, fieldsToJson, Json.mapFieldNumbers, toJson_ofJson value h.1,
      fieldsToJson_fieldsOfJson rest h.2]

end

/-! ### Objects -/

theorem fieldsToJson_eq_map (fields : List (String × Value)) :
    fieldsToJson fields = fields.map fun f => (f.1, f.2.toJson) := by
  induction fields with
  | nil => rfl
  | cons f rest ih => rw [fieldsToJson, ih, List.map_cons]

theorem fieldsOfJson_eq_map (fields : List (String × Json)) :
    fieldsOfJson fields = fields.map fun f => (f.1, ofJson f.2) := by
  induction fields with
  | nil => rfl
  | cons f rest ih => rw [fieldsOfJson, ih, List.map_cons]

/-- An object is converted by collecting its converted fields in any order. -/
theorem toJson_object {fields visited : List (String × Value)} (h : Json.Ordered fields)
    (hperm : visited.Perm fields) : (object fields).toJson =
      .object (Json.sortFields (visited.map fun f => (f.1, f.2.toJson))) := by
  rw [toJson, fieldsToJson_eq_map, Json.sortFields_of_perm (h.map toJson) (hperm.map _)]

theorem ofJson_object {fields visited : List (String × Json)} (h : Json.Ordered fields)
    (hperm : visited.Perm fields) : ofJson (.object fields) =
      .object (Json.sortFields (visited.map fun f => (f.1, ofJson f.2))) := by
  rw [ofJson, fieldsOfJson_eq_map, Json.sortFields_of_perm (h.map ofJson) (hperm.map _)]

/-! ### Both ways -/

/-- From a value to JSON and back exactly the numbers that are not finite become null, at any depth.
From JSON to a value and back each number becomes the nearest floating-point number, and names and
orders stay; the numbers of whatever is read from a text are storable. Objects are collected again
from their fields, in whatever order these are visited. -/
theorem json_conversions :
    (∀ v : Value, ofJson v.toJson = v.mapNumbers finiteOrNull ∧
        (ofJson v.toJson = v ↔ ∀ n ∈ v.numbers, n.isFinite)) ∧
      (∀ j : Json, (∀ n ∈ j.numbers, n.isStorable) →
        ((ofJson j).toJson = j.mapNumbers fun n => .float n.toNumber) ∧
          ∀ n ∈ j.numbers, ∀ x, n.IsNearest x ↔ x = n.toNumber) ∧
      (∀ text j, Json.ofText? text = some j → ∀ n ∈ j.numbers, n.isStorable) ∧
      (∀ fields visited : List (String × Value), Json.Ordered fields → visited.Perm fields →
        (object fields).toJson =
          .object (Json.sortFields (visited.map fun f => (f.1, f.2.toJson)))) ∧
      ∀ fields visited : List (String × Json), Json.Ordered fields → visited.Perm fields →
        ofJson (.object fields) =
          .object (Json.sortFields (visited.map fun f => (f.1, ofJson f.2))) := by
  refine ⟨fun v => ⟨ofJson_toJson v, ofJson_toJson_eq_self_iff v⟩, fun j h => ⟨toJson_ofJson j h, ?_⟩,
    fun text j => Json.isStorable_of_ofText?, fun fields visited => toJson_object,
    fun fields visited => ofJson_object⟩
  exact fun n hn x => JsonNumber.isNearest_iff (h n hn)

/-- An integer in the middle between two floating-point numbers. -/
def middle : JsonNumber := .integer 9007199254740993

/-- The integer goes to the even neighbour, and a number that is none becomes null. -/
theorem json_conversions_middle :
    (ofJson (.array [.null, .number middle])).toJson =
        .array [.null, .number (.float (.ofNat 9007199254740992))] ∧
      middle.IsNearest (.ofNat 9007199254740992) ∧
      (∃ j, Json.ofText? "[null,9007199254740993]" = some j ∧ ∀ n ∈ j.numbers, n.isStorable) ∧
      (object [("a", number .nan), ("b", .array [.null])]).toJson =
        .object (Json.sortFields [("b", (array [.null]).toJson), ("a", (number .nan).toJson)]) ∧
      ofJson (.object [("a", .number middle), ("b", .null)]) =
        .object (Json.sortFields [("b", ofJson .null), ("a", ofJson (.number middle))]) ∧
      ofJson (object [("a", number .nan), ("b", .array [.null])]).toJson =
        object [("a", .null), ("b", .array [.null])] := by
  obtain ⟨hvalue, hjson, hread, hobject, hobject'⟩ := json_conversions
  have hlt : "a" < "b" := by decide +kernel
  have hround : middle.toNumber = .ofNat 9007199254740992 := by decide +kernel
  obtain ⟨hback, hnearest⟩ := hjson (.array [.null, .number middle]) (by decide +kernel)
  have htext : (Json.ofText? "[null,9007199254740993]").isSome := by decide +kernel
  obtain ⟨j, hj⟩ := Option.isSome_iff_exists.mp htext
  refine ⟨?_, ?_, ⟨j, hj, hread _ j hj⟩, ?_, ?_, ?_⟩
  · rw [hback, ← hround]
    rfl
  · exact (hnearest middle (by decide) _).mpr hround.symm
  · exact hobject _ [("b", .array [.null]), ("a", number .nan)] (List.pairwise_pair.mpr hlt)
      (List.Perm.swap ..)
  · exact hobject' _ [("b", .null), ("a", .number middle)] (List.pairwise_pair.mpr hlt)
      (List.Perm.swap ..)
  · rw [(hvalue _).1]
    rfl

end TemplateLang.Value
