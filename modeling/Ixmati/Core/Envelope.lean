import Mathlib.Algebra.Group.Int.Defs
import Mathlib.Algebra.Group.Nat.Defs
import Mathlib.Data.List.Basic
import Mathlib.Data.Int.Order.Basic

/-!
# JSON documents and envelopes

The documents and messages of `ixmati-core`: `serde_json::Value`, `WriteEnvelope` (a command)
and `EventEnvelope` (what the writer publishes about an applied command), and the conversion of
a version between the `u64` of the envelopes and the signed `INTEGER` column of SQLite.

The text format of JSON and SHA-256 come from third-party crates; `Deps` collects them, and the
model is parametric in it.
-/

namespace Ixmati

/-- A byte string: SQLite BLOBs, cache values, socket traffic. -/
abbrev Bytes := List UInt8

/-- A 64-bit float, by its bit pattern. -/
structure F64 where
  /-- The IEEE 754 encoding. -/
  bits : UInt64
  deriving DecidableEq, Repr

/-- `serde_json::Number`. -/
inductive Number where
  /-- A non-negative integer. -/
  | posInt (n : UInt64)
  /-- A negative integer. -/
  | negInt (n : Int64)
  /-- A finite float. -/
  | float (x : F64)
  deriving DecidableEq, Repr

/-- `serde_json::Value`.  Object fields are listed in the order they are written out. -/
inductive Json where
  | null
  | bool (b : Bool)
  | number (n : Number)
  | string (s : String)
  | array (items : List Json)
  | object (fields : List (String × Json))
  deriving Repr, Inhabited

/-- The functions of third-party crates that the code calls on documents and bytes. -/
structure Deps where
  /-- `serde_json::to_vec`, which does not fail on a document. -/
  toVec : Json → Bytes
  /-- `serde_json::from_slice`. -/
  fromSlice : Bytes → Option Json
  /-- `format!("{:x}", Sha256::digest(..))`. -/
  sha256Hex : Bytes → String

/-! ### Compact text

What `serde_json` writes for a document without floats; it lets a run be evaluated.  No result
depends on it. -/

/-- A character inside a JSON string. -/
def escapeChar (c : Char) : List Char :=
  if c = '"' then ['\\', '"']
  else if c = '\\' then ['\\', '\\']
  else if c = '\n' then ['\\', 'n']
  else if c = '\r' then ['\\', 'r']
  else if c = '\t' then ['\\', 't']
  else if c.toNat = 8 then ['\\', 'b']
  else if c.toNat = 12 then ['\\', 'f']
  else if c.toNat < 32 then
    ['\\', 'u', '0', '0', Nat.digitChar (c.toNat / 16), Nat.digitChar (c.toNat % 16)]
  else [c]

/-- A JSON string. -/
def compactString (s : String) : String :=
  "\"" ++ String.ofList (s.toList.flatMap escapeChar) ++ "\""

mutual

/-- The compact text of a document; floats are not supported. -/
def Json.compact : Json → String
  | .null => "null"
  | .bool b => if b then "true" else "false"
  | .number (.posInt n) => toString n.toNat
  | .number (.negInt n) => toString n.toInt
  | .number (.float _) => "null"
  | .string s => compactString s
  | .array items => "[" ++ compactItems items ++ "]"
  | .object fields => "\x7b" ++ compactFields fields ++ "\x7d"

/-- The items of an array. -/
def compactItems : List Json → String
  | [] => ""
  | [x] => x.compact
  | x :: xs => x.compact ++ "," ++ compactItems xs

/-- The fields of an object. -/
def compactFields : List (String × Json) → String
  | [] => ""
  | [(k, x)] => compactString k ++ ":" ++ x.compact
  | (k, x) :: xs => compactString k ++ ":" ++ x.compact ++ "," ++ compactFields xs

end

/-- Crates that write compact text, read the given documents back and know one digest. -/
def Deps.compact (known : List Json) (digest : String) : Deps where
  toVec j := j.compact.toUTF8.data.toList
  fromSlice b := known.find? fun j => j.compact.toUTF8.data.toList == b
  sha256Hex _ := digest

/-- Crates whose documents are no longer than a `Vec` can be. -/
def Deps.bounded (D : Deps) : Deps :=
  { D with toVec := fun j => if (D.toVec j).length < 2 ^ 63 then D.toVec j else [] }

theorem Deps.length_bounded (D : Deps) (j : Json) : (D.bounded.toVec j).length < 2 ^ 63 := by
  simp only [bounded]
  split_ifs with h
  · exact h
  · decide

theorem Deps.toVec_bounded {D : Deps} {j : Json} (h : (D.toVec j).length < 2 ^ 63) :
    D.bounded.toVec j = D.toVec j := if_pos h

/-! ### Messages -/

/-- A write command. -/
structure WriteEnvelope where
  op : String
  store : String
  entity : String
  key : String
  version : UInt64
  ts : String
  idempotencyKey : String
  ackMode : String
  payload : Json

/-- The document `serde_json` writes for a command: the fields in declaration order. -/
def WriteEnvelope.toJson (e : WriteEnvelope) : Json :=
  .object [
    ("op", .string e.op),
    ("store", .string e.store),
    ("entity", .string e.entity),
    ("key", .string e.key),
    ("version", .number (.posInt e.version)),
    ("ts", .string e.ts),
    ("idempotency_key", .string e.idempotencyKey),
    ("ack_mode", .string e.ackMode),
    ("payload", e.payload)]

/-- The event that describes an applied command. -/
structure EventEnvelope where
  eventId : String
  eventType : String
  store : String
  entity : String
  key : String
  version : UInt64
  occurredAt : String
  outboxSeq : UInt64
  payload : Json

/-- The document `serde_json` writes for an event: the fields in declaration order. -/
def EventEnvelope.toJson (e : EventEnvelope) : Json :=
  .object [
    ("event_id", .string e.eventId),
    ("event_type", .string e.eventType),
    ("store", .string e.store),
    ("entity", .string e.entity),
    ("key", .string e.key),
    ("version", .number (.posInt e.version)),
    ("occurred_at", .string e.occurredAt),
    ("outbox_seq", .number (.posInt e.outboxSeq)),
    ("payload", e.payload)]

/-! ### Versions in an `INTEGER` column

`version as i64` on the way in and `version as u64` on the way out keep the 64 bits, so the
round trip is the identity; the order is kept only on each side of `2 ^ 63`. -/

theorem toInt_toInt64 (v : UInt64) :
    v.toInt64.toInt = if v.toNat < 2 ^ 63 then (v.toNat : ℤ) else (v.toNat : ℤ) - 2 ^ 64 := by
  have h : v.toInt64.toInt = v.toBitVec.toInt := rfl
  rw [h, BitVec.toInt_eq_toNat_cond]
  have hv : v.toBitVec.toNat = v.toNat := rfl
  rw [hv]
  split_ifs with h₁ h₂ h₂ <;> omega

theorem toInt64_inj {v w : UInt64} (h : v.toInt64 = w.toInt64) : v = w := by
  rw [← v.toUInt64_toInt64, h, w.toUInt64_toInt64]

/-- Below `2 ^ 63` the column orders versions as the envelopes do. -/
theorem toInt64_le_iff_of_lt {v w : UInt64} (hv : v.toNat < 2 ^ 63) (hw : w.toNat < 2 ^ 63) :
    v.toInt64 ≤ w.toInt64 ↔ v ≤ w := by
  rw [Int64.le_iff_toInt_le, toInt_toInt64, toInt_toInt64, if_pos hv, if_pos hw,
    UInt64.le_iff_toNat_le]
  omega

theorem toInt64_lt_zero_iff {v : UInt64} : v.toInt64 < 0 ↔ 2 ^ 63 ≤ v.toNat := by
  have hv := v.toNat_lt
  rw [Int64.lt_iff_toInt_lt, toInt_toInt64]
  split_ifs with h
  · simp; omega
  · simp; omega

/-- The value of a column read back as `u64`. -/
theorem toNat_toUInt64 (x : Int64) :
    (x.toUInt64.toNat : ℤ) = if 0 ≤ x then x.toInt else x.toInt + 2 ^ 64 := by
  have hx := toInt_toInt64 x.toUInt64
  have hlt := x.toUInt64.toNat_lt
  rw [Int64.toInt64_toUInt64] at hx
  have hsign : (0 ≤ x) = (0 ≤ x.toInt) := by rw [Int64.le_iff_toInt_le]; rfl
  simp only [hsign]
  split_ifs at hx ⊢ <;> omega

end Ixmati
