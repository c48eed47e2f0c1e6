import Ixmati.Api.Floats

/-!
# Documents and structs

`json_to_struct` and `struct_to_json` one after the other, in both orders.

A struct keeps its fields in a `BTreeMap` and a document in a `serde_json::Map`, so both list their
fields in the order of the keys, at every depth: `SortedStruct` and `JsonObject` are those that do.

* `struct_survives_storage` : a struct that can be stored is read back as it was, with every null as zero;
* `document_read_as_struct` : a document is read through a struct as it was, with every integer as a float.
-/

namespace Ixmati

/-! ### Structs -/

namespace PbValue

mutual

/-- The value and the values nested in it. -/
def nested : PbValue → List PbValue
  | .struct fields => .struct fields :: nestedInFields fields
  | .list values => .list values :: nestedInValues values
  | v => [v]

/-- The values nested in some fields. -/
def nestedInFields : List (String × PbValue) → List PbValue
  | [] => []
  | (_, v) :: fields => v.nested ++ nestedInFields fields

/-- The values nested in some values. -/
def nestedInValues : List PbValue → List PbValue
  | [] => []
  | v :: vs => v.nested ++ nestedInValues vs

end

mutual

/-- The fields of every struct are in key order, as a `BTreeMap` has them. -/
def Sorted : PbValue → Prop
  | .struct fields => (fields.Pairwise fun a b => a.1 < b.1) ∧ SortedFields fields
  | .list values => SortedValues values
  | _ => True

def SortedFields : List (String × PbValue) → Prop
  | [] => True
  | (_, v) :: fields => v.Sorted ∧ SortedFields fields

def SortedValues : List PbValue → Prop
  | [] => True
  | v :: vs => v.Sorted ∧ SortedValues vs

end

mutual

/-- Every `NullValue` as zero. -/
def normalizeNulls : PbValue → PbValue
  | .null _ => .null 0
  | .struct fields => .struct (normalizeFields fields)
  | .list values => .list (normalizeValues values)
  | v => v

def normalizeFields : List (String × PbValue) → List (String × PbValue)
  | [] => []
  | (k, v) :: fields => (k, v.normalizeNulls) :: normalizeFields fields

def normalizeValues : List PbValue → List PbValue
  | [] => []
  | v :: vs => v.normalizeNulls :: normalizeValues vs

end

/-- The value has a kind, and if it is a number it is finite. -/
def Storable : PbValue → Prop
  | .empty => False
  | .number x => x.isFinite = true
  | _ => True

end PbValue

/-- A struct whose fields are in key order at every depth. -/
structure SortedStruct extends Struct where
  sorted : (PbValue.struct fields).Sorted

namespace Struct

/-- The values nested in a struct. -/
def nested (s : Struct) : List PbValue := PbValue.nestedInFields s.fields

/-- Every `NullValue` as zero. -/
def normalizeNulls (s : Struct) : Struct := ⟨PbValue.normalizeFields s.fields⟩

end Struct

/-! ### Inserting in order -/

/-- A key that comes after all others is put at the end. -/
theorem insertField_last {k : String} {v : Json} {object : List (String × Json)}
    (h : ∀ p ∈ object, p.1 < k) : Json.insertField k v object = object ++ [(k, v)] := by
  induction object with
  | nil => rfl
  | cons p object ih =>
    obtain ⟨k', v'⟩ := p
    have hlt : k' < k := h (k', v') List.mem_cons_self
    rw [Json.insertField, if_neg (lt_asymm hlt), if_neg (ne_of_gt hlt),
      ih fun p hp => h p (List.mem_cons_of_mem _ hp)]
    rfl

/-- The fields one after the other. -/
def pbFieldsInOrder : List (String × PbValue) → Except Status (List (String × Json))
  | [] => .ok []
  | (k, v) :: fields => do return (k, ← pbValueToJson v) :: (← pbFieldsInOrder fields)

/-- Fields that come in key order are listed in that order. -/
theorem pbFieldsToJson_eq {fields : List (String × PbValue)} {object : List (String × Json)}
    (hfields : fields.Pairwise fun a b => a.1 < b.1)
    (hobject : ∀ p ∈ object, ∀ q ∈ fields, p.1 < q.1) :
    pbFieldsToJson fields object = (object ++ ·) <$> pbFieldsInOrder fields := by
  induction fields generalizing object with
  | nil =>
    show Except.ok object = Except.ok (object ++ [])
    rw [List.append_nil]
  | cons q fields ih =>
    obtain ⟨k, v⟩ := q
    obtain ⟨hq, hrest⟩ := List.pairwise_cons.1 hfields
    rw [pbFieldsToJson, pbFieldsInOrder]
    cases pbValueToJson v with
    | error e => rfl
    | ok j =>
      -- the accumulator holds smaller keys only, so the field goes to its end
      have hlast : Json.insertField k j object = object ++ [(k, j)] :=
        insertField_last fun p hp => hobject p hp (k, v) List.mem_cons_self
      show pbFieldsToJson fields (Json.insertField k j object) = _
      rw [hlast, ih hrest]
      · cases pbFieldsInOrder fields with
        | error e => rfl
        | ok rest =>
          show Except.ok (object ++ [(k, j)] ++ rest) = Except.ok (object ++ (k, j) :: rest)
          rw [List.append_assoc]
          rfl
      · intro p hp q hq'
        rcases List.mem_append.1 hp with hp | hp
        · exact hobject p hp q (List.mem_cons_of_mem _ hq')
        · rw [List.mem_singleton.1 hp]
          exact hq q hq'

theorem pbFieldsToJson_nil {fields : List (String × PbValue)}
    (hfields : fields.Pairwise fun a b => a.1 < b.1) :
    pbFieldsToJson fields [] = pbFieldsInOrder fields := by
  have hnil : ∀ p ∈ ([] : List (String × Json)), ∀ q ∈ fields, p.1 < q.1 := fun p hp => by cases hp
  rw [pbFieldsToJson_eq hfields hnil]
  exact id_map _

/-! ### When a struct can be stored -/

mutual

theorem pbValueToJson_ok_iff : ∀ v : PbValue,
    (∃ j, pbValueToJson v = .ok j) ↔ ∀ x ∈ v.nested, x.Storable
  | .empty => by simp [pbValueToJson, PbValue.nested, PbValue.Storable]
  | .null _ => by simp [pbValueToJson, PbValue.nested, PbValue.Storable]
  | .number x => by
    by_cases hx : x.isFinite = true
    · simp [pbValueToJson, Number.fromF64, PbValue.nested, PbValue.Storable, hx]
    · simp [pbValueToJson, Number.fromF64, PbValue.nested, PbValue.Storable, hx]
  | .string _ => by simp [pbValueToJson, PbValue.nested, PbValue.Storable]
  | .bool _ => by simp [pbValueToJson, PbValue.nested, PbValue.Storable]
  | .struct fields => by
    have ih := pbFieldsToJson_ok_iff fields []
    have hself : (PbValue.struct fields).Storable := trivial
    rw [PbValue.nested, List.forall_mem_cons, and_iff_right hself, ← ih, pbValueToJson]
    exact exists_except_map_ok
  | .list values => by
    have ih := pbValuesToJson_ok_iff values
    have hself : (PbValue.list values).Storable := trivial
    rw [PbValue.nested, List.forall_mem_cons, and_iff_right hself, ← ih, pbValueToJson]
    exact exists_except_map_ok

theorem pbFieldsToJson_ok_iff : ∀ (fields : List (String × PbValue)) (object : List (String × Json)),
    (∃ o, pbFieldsToJson fields object = .ok o) ↔ ∀ x ∈ PbValue.nestedInFields fields, x.Storable
  | [], object => by simp [pbFieldsToJson, PbValue.nestedInFields]
  | (k, v) :: fields, object => by
    have hv := pbValueToJson_ok_iff v
    have ih := pbFieldsToJson_ok_iff fields
    simp only [PbValue.nestedInFields, List.forall_mem_append, ← hv, pbFieldsToJson, except_bind_ok]
    constructor
    · rintro ⟨o, j, hj, ho⟩
      exact ⟨⟨j, hj⟩, (ih _).1 ⟨o, ho⟩⟩
    · rintro ⟨⟨j, hj⟩, hrest⟩
      obtain ⟨o, ho⟩ := (ih (Json.insertField k j object)).2 hrest
      exact ⟨o, j, hj, ho⟩

theorem pbValuesToJson_ok_iff : ∀ vs : List PbValue,
    (∃ js, pbValuesToJson vs = .ok js) ↔ ∀ x ∈ PbValue.nestedInValues vs, x.Storable
  | [] => by simp [pbValuesToJson, PbValue.nestedInValues]
  | v :: vs => by
    have hv := pbValueToJson_ok_iff v
    have ih := pbValuesToJson_ok_iff vs
    simp only [PbValue.nestedInValues, List.forall_mem_append, ← hv, ← ih, pbValuesToJson,
      except_bind_ok]
    constructor
    · rintro ⟨_, j, hj, js, hjs, -⟩
      exact ⟨⟨j, hj⟩, ⟨js, hjs⟩⟩
    · rintro ⟨⟨j, hj⟩, ⟨js, hjs⟩⟩
      exact ⟨_, j, hj, js, hjs, rfl⟩

end

/-! ### From a struct and back -/

mutual

theorem jsonToPbValue_pbValueToJson : ∀ v : PbValue, v.Sorted → ∀ j, pbValueToJson v = .ok j →
    jsonToPbValue j = .ok v.normalizeNulls
  | .empty, _, _, h => by cases h
  | .null _, _, _, h => by cases h; rfl
  | .number x, _, j, h => by
    rw [pbValueToJson, Number.fromF64] at h
    split_ifs at h with hx
    cases h
    rfl
  | .string _, _, _, h => by cases h; rfl
  | .bool _, _, _, h => by cases h; rfl
  | .struct fields, hsorted, j, h => by
    obtain ⟨object, hobject, hj⟩ := except_bind_ok.1 h
    cases hj
    -- the map of the document has the fields in the order of the struct
    rw [pbFieldsToJson_nil hsorted.1] at hobject
    rw [jsonToPbValue, jsonToPbFields_inOrder fields hsorted.2 object hobject]
    rfl
  | .list values, hsorted, j, h => by
    obtain ⟨items, hitems, hj⟩ := except_bind_ok.1 h
    cases hj
    rw [jsonToPbValue, jsonToPbValues_pbValuesToJson values hsorted items hitems]
    rfl

theorem jsonToPbFields_inOrder : ∀ fields : List (String × PbValue), PbValue.SortedFields fields →
    ∀ object, pbFieldsInOrder fields = .ok object →
      jsonToPbFields object = .ok (PbValue.normalizeFields fields)
  | [], _, _, h => by cases h; rfl
  | (k, v) :: fields, hsorted, _, h => by
    obtain ⟨j, hj, hrest⟩ := except_bind_ok.1 h
    obtain ⟨object, hobject, heq⟩ := except_bind_ok.1 hrest
    cases heq
    rw [jsonToPbFields, jsonToPbValue_pbValueToJson v hsorted.1 j hj,
      jsonToPbFields_inOrder fields hsorted.2 object hobject]
    rfl

theorem jsonToPbValues_pbValuesToJson : ∀ vs : List PbValue, PbValue.SortedValues vs →
    ∀ js, pbValuesToJson vs = .ok js → jsonToPbValues js = .ok (PbValue.normalizeValues vs)
  | [], _, _, h => by cases h; rfl
  | v :: vs, hsorted, _, h => by
    obtain ⟨j, hj, hrest⟩ := except_bind_ok.1 h
    obtain ⟨js, hjs, heq⟩ := except_bind_ok.1 hrest
    cases heq
    rw [jsonToPbValues, jsonToPbValue_pbValueToJson v hsorted.1 j hj,
      jsonToPbValues_pbValuesToJson vs hsorted.2 js hjs]
    rfl

end

/-- **A struct survives storage.**  `struct_to_json` succeeds exactly if every nested value has a kind and
every nested number is finite, and then `json_to_struct` gives the struct back, with every null as
zero. -/
theorem struct_survives_storage (s : SortedStruct) :
    ((∃ j, structToJson (some s.toStruct) = .ok j) ↔ ∀ v ∈ s.toStruct.nested, v.Storable) ∧
    ∀ j, structToJson (some s.toStruct) = .ok j →
      jsonToStruct j = .ok s.toStruct.normalizeNulls := by
  constructor
  · rw [Struct.nested, ← pbFieldsToJson_ok_iff s.fields []]
    exact exists_except_map_ok
  · intro j h
    obtain ⟨object, hobject, heq⟩ := except_bind_ok.1 h
    cases heq
    rw [pbFieldsToJson_nil s.sorted.1] at hobject
    rw [jsonToStruct, jsonToPbFields_inOrder s.fields s.sorted.2 object hobject]
    rfl

/-! ### Documents -/

/-- A number as `serde_json` builds it: `NegInt` is negative, and a float is finite. -/
def Number.Valid : Number → Prop
  | .posInt _ => True
  | .negInt n => n.toInt < 0
  | .float x => x.isFinite = true

/-- Is the number stored as a float? -/
def Number.isFloat : Number → Bool
  | .float _ => true
  | _ => false

/-- What a reader sees of a number: a float as it is, an integer as a float, of the same value if there is
one. -/
inductive Number.ShownAs : Number → Number → Prop
  | float (x : F64) : ShownAs (.float x) (.float x)
  | posInt (n : UInt64) (x : F64) (h : F64.Exact n.toNat → x.value = n.toNat) :
    ShownAs (.posInt n) (.float x)
  | negInt (n : Int64) (x : F64) (h : F64.Exact n.toInt.natAbs → x.value = n.toInt) :
    ShownAs (.negInt n) (.float x)

namespace Json

mutual

/-- The numbers in a document. -/
def numbers : Json → List Number
  | .number n => [n]
  | .array items => numbersInItems items
  | .object fields => numbersInFields fields
  | _ => []

def numbersInItems : List Json → List Number
  | [] => []
  | j :: items => j.numbers ++ numbersInItems items

def numbersInFields : List (String × Json) → List Number
  | [] => []
  | (_, j) :: fields => j.numbers ++ numbersInFields fields

end

mutual

/-- A document as `serde_json` builds it: the fields of every object are in key order. -/
def Valid : Json → Prop
  | .number n => n.Valid
  | .array items => ValidItems items
  | .object fields => Ordered fields ∧ ValidFields fields
  | _ => True

def ValidItems : List Json → Prop
  | [] => True
  | j :: items => j.Valid ∧ ValidItems items

def ValidFields : List (String × Json) → Prop
  | [] => True
  | (_, j) :: fields => j.Valid ∧ ValidFields fields

end

mutual

/-- The same document, but for the numbers, which are seen as `Number.ShownAs` says. -/
def ShownAs : Json → Json → Prop
  | .null, .null => True
  | .bool b, .bool b' => b' = b
  | .number n, .number n' => n.ShownAs n'
  | .string s, .string s' => s' = s
  | .array items, .array items' => ItemsShownAs items items'
  | .object fields, .object fields' => FieldsShownAs fields fields'
  | _, _ => False

def ItemsShownAs : List Json → List Json → Prop
  | [], [] => True
  | j :: items, j' :: items' => j.ShownAs j' ∧ ItemsShownAs items items'
  | _, _ => False

def FieldsShownAs : List (String × Json) → List (String × Json) → Prop
  | [], [] => True
  | (k, j) :: fields, (k', j') :: fields' => k' = k ∧ j.ShownAs j' ∧ FieldsShownAs fields fields'
  | _, _ => False

end

end Json

/-- An object as `serde_json` builds it. -/
structure JsonObject where
  fields : List (String × Json)
  valid : (Json.object fields).Valid

/-! ### What is shown of numbers -/

theorem Number.ShownAs.eq_iff {n n' : Number} (h : n.ShownAs n') : n' = n ↔ n.isFloat = true := by
  cases h <;> simp [Number.isFloat]

/-- Every number is shown. -/
theorem exists_shown {n : Number} (hn : n.Valid) :
    ∃ x n', n.asF64 = some x ∧ Number.fromF64 x = some n' ∧ n.ShownAs n' := by
  cases n with
  | posInt n =>
    have hlt : n.toNat < 2 ^ 64 := n.toNat_lt
    exact ⟨_, _, rfl, if_pos (F64.isFinite_ofNat hlt), .posInt n _ (F64.value_ofNat hlt)⟩
  | negInt n =>
    -- the absolute value fits 64 bits, and the sign bit is free in its float
    have hneg : n.toInt < 0 := hn
    have hlow := n.le_toInt
    have hlt : n.toInt.natAbs < 2 ^ 64 := by omega
    have hfinite : (F64.ofNat n.toInt.natAbs).negate.isFinite = true := by
      rw [F64.isFinite_negate]
      exact F64.isFinite_ofNat hlt
    have hbits : (F64.ofNat n.toInt.natAbs).bits.toNat < 2 ^ 63 :=
      (F64.toNat_bits_ofNat_lt hlt).trans (by omega)
    refine ⟨_, _, rfl, if_pos hfinite, .negInt n _ fun hexact => ?_⟩
    have habs : ((n.toInt.natAbs : ℤ) : ℚ) = -n.toInt := by
      rw [Int.ofNat_natAbs_of_nonpos hneg.le]
      exact Int.cast_neg _
    rw [F64.value_negate hbits, F64.value_ofNat hlt hexact, ← Int.cast_natCast, habs, neg_neg]
  | float x => exact ⟨x, _, rfl, if_pos hn, .float x⟩

/-! ### From a document and back -/

theorem keys_jsonToPbFields : ∀ {fields : List (String × Json)} {pb : List (String × PbValue)},
    jsonToPbFields fields = .ok pb → pb.map Prod.fst = fields.map Prod.fst
  | [], _, h => by cases h; rfl
  | (k, j) :: fields, _, h => by
    obtain ⟨v, -, hrest⟩ := except_bind_ok.1 h
    obtain ⟨pb, hpb, heq⟩ := except_bind_ok.1 hrest
    cases heq
    rw [List.map_cons, List.map_cons, keys_jsonToPbFields hpb]

theorem pairwise_jsonToPbFields {fields : List (String × Json)} {pb : List (String × PbValue)}
    (h : jsonToPbFields fields = .ok pb) (hordered : Json.Ordered fields) :
    pb.Pairwise fun a b => a.1 < b.1 := by
  have hkeys : (fields.map Prod.fst).Pairwise (· < ·) := List.pairwise_map.2 hordered
  rw [← keys_jsonToPbFields h] at hkeys
  exact List.pairwise_map.1 hkeys

mutual

theorem pbValueToJson_jsonToPbValue : ∀ j : Json, j.Valid → ∀ v, jsonToPbValue j = .ok v →
    ∃ j', pbValueToJson v = .ok j' ∧ j.ShownAs j'
  | .null, _, _, h => by cases h; exact ⟨_, rfl, trivial⟩
  | .bool _, _, _, h => by cases h; exact ⟨_, rfl, rfl⟩
  | .number n, hvalid, v, h => by
    obtain ⟨x, n', hx, hn', hshown⟩ := exists_shown hvalid
    rw [jsonToPbValue, hx] at h
    cases h
    refine ⟨.number n', ?_, hshown⟩
    rw [pbValueToJson, hn']
  | .string _, _, _, h => by cases h; exact ⟨_, rfl, rfl⟩
  | .array items, hvalid, _, h => by
    obtain ⟨vs, hvs, heq⟩ := except_bind_ok.1 h
    cases heq
    obtain ⟨items', hitems', hshown⟩ := pbValuesToJson_jsonToPbValues items hvalid vs hvs
    exact ⟨.array items', except_bind_ok.2 ⟨items', hitems', rfl⟩, hshown⟩
  | .object fields, hvalid, _, h => by
    obtain ⟨pb, hpb, heq⟩ := except_bind_ok.1 h
    cases heq
    obtain ⟨fields', hfields', hshown⟩ := inOrder_jsonToPbFields fields hvalid.2 pb hpb
    rw [← pbFieldsToJson_nil (pairwise_jsonToPbFields hpb hvalid.1)] at hfields'
    exact ⟨.object fields', except_bind_ok.2 ⟨fields', hfields', rfl⟩, hshown⟩

theorem inOrder_jsonToPbFields : ∀ fields : List (String × Json), Json.ValidFields fields →
    ∀ pb, jsonToPbFields fields = .ok pb →
      ∃ fields', pbFieldsInOrder pb = .ok fields' ∧ Json.FieldsShownAs fields fields'
  | [], _, _, h => by cases h; exact ⟨[], rfl, trivial⟩
  | (k, j) :: fields, hvalid, _, h => by
    obtain ⟨v, hv, hrest⟩ := except_bind_ok.1 h
    obtain ⟨pb, hpb, heq⟩ := except_bind_ok.1 hrest
    cases heq
    obtain ⟨j', hj', hshown⟩ := pbValueToJson_jsonToPbValue j hvalid.1 v hv
    obtain ⟨fields', hfields', hrestShown⟩ := inOrder_jsonToPbFields fields hvalid.2 pb hpb
    exact ⟨(k, j') :: fields',
      except_bind_ok.2 ⟨j', hj', except_bind_ok.2 ⟨fields', hfields', rfl⟩⟩, rfl, hshown, hrestShown⟩

theorem pbValuesToJson_jsonToPbValues : ∀ items : List Json, Json.ValidItems items →
    ∀ vs, jsonToPbValues items = .ok vs →
      ∃ items', pbValuesToJson vs = .ok items' ∧ Json.ItemsShownAs items items'
  | [], _, _, h => by cases h; exact ⟨[], rfl, trivial⟩
  | j :: items, hvalid, _, h => by
    obtain ⟨v, hv, hrest⟩ := except_bind_ok.1 h
    obtain ⟨vs, hvs, heq⟩ := except_bind_ok.1 hrest
    cases heq
    obtain ⟨j', hj', hshown⟩ := pbValueToJson_jsonToPbValue j hvalid.1 v hv
    obtain ⟨items', hitems', hrestShown⟩ := pbValuesToJson_jsonToPbValues items hvalid.2 vs hvs
    exact ⟨j' :: items',
      except_bind_ok.2 ⟨j', hj', except_bind_ok.2 ⟨items', hitems', rfl⟩⟩, hshown, hrestShown⟩

end

/-! ### When nothing changes -/

mutual

theorem Json.ShownAs.eq_iff : ∀ {j j' : Json}, j.ShownAs j' →
    (j' = j ↔ ∀ n ∈ j.numbers, n.isFloat = true)
  | .null, .null, _ => by simp [Json.numbers]
  | .bool b, .bool b', h => by
    have heq : b' = b := h
    simp [Json.numbers, heq]
  | .number n, .number n', h => by
    rw [Json.number.injEq, Number.ShownAs.eq_iff h]
    simp [Json.numbers]
  | .string s, .string s', h => by
    have heq : s' = s := h
    simp [Json.numbers, heq]
  | .array items, .array items', h => by
    rw [Json.array.injEq, Json.ItemsShownAs.eq_iff h]
    rfl
  | .object fields, .object fields', h => by
    rw [Json.object.injEq, Json.FieldsShownAs.eq_iff h]
    rfl

theorem Json.ItemsShownAs.eq_iff : ∀ {items items' : List Json}, Json.ItemsShownAs items items' →
    (items' = items ↔ ∀ n ∈ Json.numbersInItems items, n.isFloat = true)
  | [], [], _ => by simp [Json.numbersInItems]
  | j :: items, j' :: items', h => by
    rw [List.cons.injEq, Json.ShownAs.eq_iff h.1, Json.ItemsShownAs.eq_iff h.2, Json.numbersInItems,
      List.forall_mem_append]

theorem Json.FieldsShownAs.eq_iff : ∀ {fields fields' : List (String × Json)},
    Json.FieldsShownAs fields fields' →
      (fields' = fields ↔ ∀ n ∈ Json.numbersInFields fields, n.isFloat = true)
  | [], [], _ => by simp [Json.numbersInFields]
  | (k, j) :: fields, (k', j') :: fields', h => by
    rw [List.cons.injEq, Prod.mk.injEq, Json.ShownAs.eq_iff h.2.1, Json.FieldsShownAs.eq_iff h.2.2,
      Json.numbersInFields, List.forall_mem_append, h.1, eq_self_iff_true, true_and]

end

/-- **A document read through a struct.**  Every object is converted to a struct and back; what comes back is
the object with every integer as a float, of the same value if the integer has at most 53
significant bits.  It is the same object exactly if all its numbers are floats. -/
theorem document_read_as_struct (v : JsonObject) :
    ∃ s j, jsonToStruct (.object v.fields) = .ok s ∧ structToJson (some s) = .ok j ∧
      (Json.object v.fields).ShownAs j ∧
      (j = .object v.fields ↔ ∀ n ∈ (Json.object v.fields).numbers, n.isFloat = true) := by
  obtain ⟨pb, hpb⟩ := jsonToPbFields_ok v.fields
  obtain ⟨fields', hfields', hshown⟩ := inOrder_jsonToPbFields v.fields v.valid.2 pb hpb
  rw [← pbFieldsToJson_nil (pairwise_jsonToPbFields hpb v.valid.1)] at hfields'
  have hobject : (Json.object v.fields).ShownAs (.object fields') := hshown
  exact ⟨⟨pb⟩, .object fields', except_bind_ok.2 ⟨pb, hpb, rfl⟩,
    except_bind_ok.2 ⟨fields', hfields', rfl⟩, hobject, hobject.eq_iff⟩

/-- `{"n": 1}`. -/
def integerDocument : JsonObject where
  fields := [("n", .number (.posInt 1))]
  valid := ⟨List.pairwise_singleton _ _, trivial, trivial⟩

theorem integerDocument_changed :
    (∃ s, jsonToStruct (.object integerDocument.fields) = .ok s ∧
      structToJson (some s) = .ok (.object [("n", .number (.float ⟨0x3FF0000000000000⟩))])) ∧
    ¬ ∃ s, jsonToStruct (.object integerDocument.fields) = .ok s ∧
      structToJson (some s) = .ok (.object integerDocument.fields) := by
  have hstruct : jsonToStruct (.object integerDocument.fields) =
      .ok ⟨[("n", .number ⟨0x3FF0000000000000⟩)]⟩ := rfl
  have hjson : structToJson (some ⟨[("n", .number ⟨0x3FF0000000000000⟩)]⟩) =
      .ok (.object [("n", .number (.float ⟨0x3FF0000000000000⟩))]) := rfl
  refine ⟨⟨_, hstruct, hjson⟩, ?_⟩
  rintro ⟨s, hs, hback⟩
  cases hstruct.symm.trans hs
  rw [hjson] at hback
  simp [integerDocument] at hback

end Ixmati
