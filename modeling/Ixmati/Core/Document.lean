import Ixmati.Core.Envelope
import Ixmati.Lib.Text
import Mathlib.Data.List.Nodup
import Mathlib.Data.String.Basic

/-!
# Reading documents

What the projector, the reconciler and the API read out of a document: `Value::get`, `as_str`,
`to_string`, and the typed readings `from_slice::<EventEnvelope>` and `from_slice::<Vec<String>>`.
A typed reading looks the fields up by name, so the order in which they were written does not matter.

`ReadsBack` is what is asked of `serde_json` about an event: its document is read back as the event,
with the payload that is read from the text of the payload alone.  (The payload need not be the one
that was written: a float may be read with a different last bit.)
-/

namespace Ixmati

namespace Json

/-- `Value::get` with a field name. -/
def get? (j : Json) (field : String) : Option Json :=
  match j with
  | .object fields => fields.lookup field
  | _ => none

/-- `Value::as_str`. -/
def asStr : Json → Option String
  | .string s => some s
  | _ => none

/-- A `String` field. -/
def getStr (j : Json) (field : String) : Option String := (j.get? field).bind asStr

/-- A `u64` field. -/
def getU64 (j : Json) (field : String) : Option UInt64 :=
  match j.get? field with
  | some (.number (.posInt n)) => some n
  | _ => none

/-- `Value::to_string`. -/
def toText (D : Deps) (j : Json) : String :=
  String.ofList ((decode (D.toVec j)).getD [])

/-- `serde_json::Map::insert`: the map keeps its keys in order. -/
def insertField (k : String) (v : Json) : List (String × Json) → List (String × Json)
  | [] => [(k, v)]
  | (k', v') :: rest =>
    if k < k' then (k, v) :: (k', v') :: rest
    else if k = k' then (k, v) :: rest
    else (k', v') :: insertField k v rest

/-- A field as text: a string as it is, anything else as JSON, and the fallback if there is none. -/
def fieldText (D : Deps) (j : Json) (field fallback : String) : String :=
  match j.get? field with
  | some val =>
    match val.asStr with
    | some s => s
    | none => val.toText D
  | none => fallback

/-! ### Maps in order -/

/-- The keys are in order and no key occurs twice. -/
def Ordered (fields : List (String × Json)) : Prop := fields.Pairwise fun a b => a.1 < b.1

theorem lookup_cons (k : String) (v : Json) (fields : List (String × Json)) (f : String) :
    ((k, v) :: fields).lookup f = if f = k then some v else fields.lookup f := by
  rw [List.lookup_cons]
  split_ifs with h
  · simp [h]
  · rw [beq_eq_false_iff_ne.2 h]

theorem lookup_insertField (k : String) (v : Json) (fields : List (String × Json)) (f : String) :
    (insertField k v fields).lookup f = if f = k then some v else fields.lookup f := by
  induction fields with
  | nil => exact lookup_cons ..
  | cons p fields ih =>
    obtain ⟨k', v'⟩ := p
    unfold insertField
    by_cases hlt : k < k'
    · rw [if_pos hlt, lookup_cons]
    by_cases heq : k = k'
    · rw [if_neg hlt, if_pos heq, lookup_cons, lookup_cons, heq]
      split_ifs <;> rfl
    · rw [if_neg hlt, if_neg heq, lookup_cons, lookup_cons, ih]
      by_cases hk : f = k'
      · rw [if_pos hk, if_pos hk, if_neg (hk ▸ Ne.symm heq)]
      · rw [if_neg hk, if_neg hk]

theorem mem_insertField {k : String} {v : Json} {fields : List (String × Json)}
    {p : String × Json} (h : p ∈ insertField k v fields) : p = (k, v) ∨ p ∈ fields := by
  induction fields with
  | nil => exact Or.inl (List.mem_singleton.1 h)
  | cons q fields ih =>
    unfold insertField at h
    split_ifs at h
    · exact List.mem_cons.1 h
    · rcases List.mem_cons.1 h with h | h
      · exact Or.inl h
      · exact Or.inr (List.mem_cons_of_mem _ h)
    · rcases List.mem_cons.1 h with rfl | h
      · exact Or.inr (List.mem_cons_self ..)
      · exact (ih h).imp_right (List.mem_cons_of_mem _)

theorem ordered_insertField {fields : List (String × Json)} (h : Ordered fields) (k : String)
    (v : Json) : Ordered (insertField k v fields) := by
  induction fields with
  | nil => exact List.pairwise_singleton _ _
  | cons q fields ih =>
    obtain ⟨hq, hrest⟩ := List.pairwise_cons.1 h
    unfold insertField
    split_ifs with hlt heq
    · refine List.pairwise_cons.2 ⟨fun p hp => ?_, h⟩
      rcases List.mem_cons.1 hp with rfl | hp
      · exact hlt
      · exact lt_trans hlt (hq p hp)
    · exact List.pairwise_cons.2 ⟨fun p hp => heq ▸ hq p hp, hrest⟩
    · refine List.pairwise_cons.2 ⟨fun p hp => ?_, ih hrest⟩
      rcases mem_insertField hp with rfl | hp
      · exact lt_of_le_of_ne (not_lt.1 hlt) (Ne.symm heq)
      · exact hq p hp

theorem lookup_eq_some_iff {fields : List (String × Json)} (h : Ordered fields) {f : String}
    {v : Json} : fields.lookup f = some v ↔ (f, v) ∈ fields := by
  induction fields with
  | nil => simp
  | cons q fields ih =>
    obtain ⟨k, w⟩ := q
    obtain ⟨hq, hrest⟩ := List.pairwise_cons.1 h
    rw [lookup_cons, List.mem_cons, Prod.mk.injEq]
    by_cases hf : f = k
    · subst hf
      have hnot : (f, v) ∉ fields := fun hm => lt_irrefl f (hq (f, v) hm)
      simp [hnot, eq_comm]
    · simp [hf, ih hrest]

theorem Ordered.nodup {fields : List (String × Json)} (h : Ordered fields) : fields.Nodup := by
  unfold List.Nodup
  refine h.imp fun {a b} hlt heq => ?_
  rw [heq] at hlt
  exact lt_irrefl _ hlt

/-- Maps that keep their keys in order are told apart by looking fields up. -/
theorem eq_of_lookup {l l' : List (String × Json)} (h : Ordered l) (h' : Ordered l')
    (heq : ∀ f, l.lookup f = l'.lookup f) : l = l' := by
  refine List.Perm.eq_of_pairwise (fun a b _ _ hab hba => absurd hab (lt_asymm hba)) h h' ?_
  rw [List.perm_ext_iff_of_nodup h.nodup h'.nodup]
  intro p
  rw [← lookup_eq_some_iff h, ← lookup_eq_some_iff h', heq]

end Json

/-- `serde_json::from_slice::<Vec<String>>`. -/
def readStrings (D : Deps) (bytes : Bytes) : Option (List String) :=
  match D.fromSlice bytes with
  | some (.array items) => items.mapM Json.asStr
  | _ => none

/-- `serde_json::to_vec` of a `Vec<String>`. -/
def writeStrings (D : Deps) (strings : List String) : Bytes := D.toVec (.array (strings.map .string))

/-- The event in a document. -/
def EventEnvelope.ofJson (j : Json) : Option EventEnvelope := do
  return {
    eventId := ← j.getStr "event_id"
    eventType := ← j.getStr "event_type"
    store := ← j.getStr "store"
    entity := ← j.getStr "entity"
    key := ← j.getStr "key"
    version := ← j.getU64 "version"
    occurredAt := ← j.getStr "occurred_at"
    outboxSeq := ← j.getU64 "outbox_seq"
    payload := ← j.get? "payload" }

/-- `serde_json::from_slice::<EventEnvelope>`. -/
def readEvent (D : Deps) (bytes : Bytes) : Option EventEnvelope :=
  (D.fromSlice bytes).bind EventEnvelope.ofJson

/-- The event is read back from its document, with its payload as it is read on its own. -/
def ReadsBack (D : Deps) (e : EventEnvelope) : Prop :=
  ∃ value, D.fromSlice (D.toVec e.payload) = some value ∧
    readEvent D (D.toVec e.toJson) = some { e with payload := value }

theorem EventEnvelope.ofJson_toJson (e : EventEnvelope) : ofJson e.toJson = some e := rfl

/-! ### Reading compact text -/

/-- Crates that write compact text read back the documents they know, if no two have the same text. -/
theorem fromSlice_compact {known : List Json} {digest : String} {j : Json}
    (hnd : (known.map fun j => j.compact.toUTF8.data.toList).Nodup) (hj : j ∈ known) :
    (Deps.compact known digest).fromSlice ((Deps.compact known digest).toVec j) = some j := by
  show known.find? (fun x => x.compact.toUTF8.data.toList == j.compact.toUTF8.data.toList) = some j
  cases hfind : known.find? fun x =>
      x.compact.toUTF8.data.toList == j.compact.toUTF8.data.toList with
  | none => exact absurd (beq_self_eq_true _) (List.find?_eq_none.1 hfind j hj)
  | some x =>
    have htext : x.compact.toUTF8.data.toList = j.compact.toUTF8.data.toList := by
      simpa using List.find?_some hfind
    rw [List.inj_on_of_nodup_map hnd (List.mem_of_find?_eq_some hfind) hj htext]

theorem readsBack_compact {known : List Json} {digest : String} {e : EventEnvelope}
    (hnd : (known.map fun j => j.compact.toUTF8.data.toList).Nodup) (he : e.toJson ∈ known)
    (hp : e.payload ∈ known) : ReadsBack (Deps.compact known digest) e := by
  refine ⟨e.payload, fromSlice_compact hnd hp, ?_⟩
  rw [readEvent, fromSlice_compact hnd he, Option.bind_some, EventEnvelope.ofJson_toJson]

theorem ReadsBack.bounded {D : Deps} {e : EventEnvelope} (h : ReadsBack D e)
    (hp : (D.toVec e.payload).length < 2 ^ 63) (he : (D.toVec e.toJson).length < 2 ^ 63) :
    ReadsBack D.bounded e := by
  unfold ReadsBack
  rw [Deps.toVec_bounded hp, Deps.toVec_bounded he]
  exact h

end Ixmati
