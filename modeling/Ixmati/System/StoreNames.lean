import Ixmati.Lib.Sql
import Ixmati.Migrate.Execute

/-!
# The names of stores in SQL

The table of a store is named after it, `payload_<store>`.  The migration writes this name in double
quotes (`quote_ident`); the writer and the handler of reads put the store into their texts as it is.  The
first may be used for any name.  The others are right only if what follows `payload_` is read as the rest
of one word.

The names that the migration accepts may contain a minus, which ends a word, and the handler of reads
puts in whatever the client asks for if one database is configured for all stores.

A store with white space or comments behind the name makes the statement for the shorter name
(`tokens_text_of_completion`).  This is the table that the engine of the model looks up
(`tableName_of_completion`), and for a name that the migration accepts it is the one in quotes
(`tableName_of_accepted`).
-/

namespace Ixmati

open Sql

/-- The texts that the name of a store is put into. -/
inductive StoreSql where
  /-- `WriteEngine::ensure_schema`. -/
  | createTable
  /-- `WriteEngine::process_batch`, for an upsert or a patch. -/
  | upsert
  /-- `WriteEngine::process_batch`, for a delete. -/
  | delete
  /-- `read_handler`. -/
  | select
  deriving DecidableEq

namespace StoreSql

/-- The text before the name of the table. -/
def before : StoreSql → String
  | .createTable => "CREATE TABLE IF NOT EXISTS "
  | .upsert => "INSERT INTO "
  | .delete => "DELETE FROM "
  | .select => "SELECT payload FROM "

/-- The text after it and a space. -/
def after : StoreSql → String
  | .createTable => "(\n" ++
    "                entity  TEXT NOT NULL,\n" ++
    "                key     TEXT NOT NULL,\n" ++
    "                version INTEGER NOT NULL,\n" ++
    "                payload BLOB NOT NULL,\n" ++
    "                updated_at TEXT NOT NULL DEFAULT (datetime('now')),\n" ++
    "                PRIMARY KEY (entity, key)\n" ++
    "            );"
  | .upsert => "(entity, key, version, payload, updated_at)\n" ++
    "                             VALUES (?1, ?2, ?3, ?4, datetime('now'))\n" ++
    "                             ON CONFLICT(entity, key) DO UPDATE SET\n" ++
    "                                version    = excluded.version,\n" ++
    "                                payload    = excluded.payload,\n" ++
    "                                updated_at = excluded.updated_at"
  | .delete => "WHERE entity = ?1 AND key = ?2"
  | .select => "WHERE entity = ?1 AND key = ?2"

/-- The text for a store. -/
def text (sql : StoreSql) (store : String) : String :=
  sql.before ++ "payload_" ++ store ++ " " ++ sql.after

/-- The words before the name of the table. -/
def words : StoreSql → List String
  | .createTable => ["CREATE", "TABLE", "IF", "NOT", "EXISTS"]
  | .upsert => ["INSERT", "INTO"]
  | .delete => ["DELETE", "FROM"]
  | .select => ["SELECT", "payload", "FROM"]

theorem before_eq (sql : StoreSql) : sql.before.toList = phrase (sql.words.map String.toList) := by
  cases sql <;> decide

theorem isWord_words (sql : StoreSql) : ∀ w ∈ sql.words.map String.toList, isWord w = true := by
  cases sql <;> decide

end StoreSql

namespace Migrate

/-- `quote_ident`. -/
def quoteIdent (value : String) : String := String.ofList (quote value.toList)

end Migrate

/-- The text is the statement for the table `payload_<store>`, named by one word, and this is the name
that the migration writes in quotes. -/
def NamesOneTable (L : Lexer) (sql : StoreSql) (store : String) : Prop :=
  L.tokens (sql.text store).toList =
      L.tokens sql.before.toList ++ .word ("payload_" ++ store) :: L.tokens sql.after.toList ∧
    L.tokens (Migrate.quoteIdent ("payload_" ++ store)).toList = [.quoted ("payload_" ++ store)]

theorem tokens_quoteIdent (L : Lexer) {store : String} (h : ∀ c ∈ store.toList, c.toNat ≠ 0) :
    L.tokens (Migrate.quoteIdent ("payload_" ++ store)).toList = [.quoted ("payload_" ++ store)] := by
  have hfixed : ∀ c ∈ "payload_".toList, c.toNat ≠ 0 := by simp
  have hname : ∀ c ∈ ("payload_" ++ store).toList, c.toNat ≠ 0 := by
    intro c hc
    rw [String.toList_append] at hc
    exact (List.mem_append.1 hc).elim (hfixed c) (h c)
  rw [Migrate.quoteIdent, String.toList_ofList, L.quoted _ hname, String.ofList_toList]

/-- The store completes the name of the table exactly if it has only characters of words. -/
theorem tokens_text_iff (L : Lexer) (sql : StoreSql) (store : String) :
    L.tokens (sql.text store).toList =
        L.tokens sql.before.toList ++ .word ("payload_" ++ store) :: L.tokens sql.after.toList ↔
      ∀ c ∈ store.toList, isIdChar c = true := by
  have htext : (sql.text store).toList = phrase (sql.words.map String.toList) ++
      ("payload_".toList ++ store.toList ++ ' ' :: sql.after.toList) := by
    have hspace : " ".toList = [' '] := rfl
    simp only [StoreSql.text, String.toList_append, ← sql.before_eq, hspace, List.append_assoc,
      List.singleton_append]
  have hname : String.ofList ("payload_".toList ++ store.toList) = "payload_" ++ store := by
    rw [← String.toList_append, String.ofList_toList]
  rw [htext, sql.before_eq, ← hname, ← L.space ' ' sql.after.toList (by decide)]
  exact L.name_iff sql.isWord_words (by decide) store.toList (by decide) _

theorem chars_of_accepted {T : Migrate.Tools} {store : String}
    (h : Migrate.validateStoreName T store = .ok ()) :
    ∀ c ∈ store.toList, (c.isAlphanum || c == '_' || c == '-') = true := by
  unfold Migrate.validateStoreName at h
  split_ifs at h with hbad
  simp only [not_or, not_not] at hbad
  exact List.all_eq_true.1 hbad.2.2

/-- For a name that the migration accepts it is the minus that matters. -/
theorem isIdChar_of_accepted {T : Migrate.Tools} {store : String}
    (h : Migrate.validateStoreName T store = .ok ()) :
    (∀ c ∈ store.toList, isIdChar c = true) ↔ '-' ∉ store.toList := by
  have hchars := chars_of_accepted h
  constructor
  · intro hid hminus
    cases hid _ hminus
  · intro hminus c hc
    have hc' := hchars c hc
    rw [Bool.or_eq_true, beq_iff_eq] at hc'
    rcases hc' with hc' | rfl
    · rw [isIdChar, hc', Bool.true_or, Bool.true_or]
    · exact absurd hc hminus

/-- The texts name the table of the store exactly if its name has only characters of words. -/
theorem namesOneTable_iff (L : Lexer) (sql : StoreSql) (store : String) :
    NamesOneTable L sql store ↔ ∀ c ∈ store.toList, isIdChar c = true := by
  unfold NamesOneTable
  rw [tokens_text_iff]
  refine and_iff_left_of_imp fun h => tokens_quoteIdent L fun c hc hzero => ?_
  have hid := h c hc
  have hc : c = Char.ofNat 0 := by rw [← hzero, Char.ofNat_toNat]
  rw [hc] at hid
  cases hid

/-! ### The table a statement runs on -/

/-- A store string with white space and comments behind a name makes the statement for this name. -/
theorem tokens_text_of_completion (sql : StoreSql) {store : String} {w : List Char}
    (h : completion store.toList = some w) :
    standard.tokens (sql.text store).toList = standard.tokens sql.before.toList ++
      .word ("payload_" ++ String.ofList w) :: standard.tokens sql.after.toList := by
  have htext : (sql.text store).toList = phrase (sql.words.map String.toList) ++
      ("payload_".toList ++ store.toList ++ ' ' :: sql.after.toList) := by
    have hspace : " ".toList = [' '] := rfl
    simp only [StoreSql.text, String.toList_append, ← sql.before_eq, hspace, List.append_assoc,
      List.singleton_append]
  have hname : String.ofList ("payload_".toList ++ w) = "payload_" ++ String.ofList w := by
    rw [← String.toList_inj]
    simp
  rw [htext, sql.before_eq, ← hname, ← standard.space ' ' sql.after.toList (by decide)]
  exact tokens_completion h sql.isWord_words (by decide) (by decide)

/-- The table that the engine looks up is the one the statement names. -/
theorem tableName_of_completion {store : String} {w : List Char}
    (h : completion store.toList = some w) :
    WriteEngine.tableName store = "payload_" ++ String.ofList (w.map Char.toLower) := by
  rw [WriteEngine.tableName, h]
  rfl

/-- A name that the migration accepts is looked up as it is, in quotes or not. -/
theorem tableName_of_accepted {T : Migrate.Tools} {store : String}
    (h : Migrate.validateStoreName T store = .ok ()) :
    WriteEngine.tableName store = "payload_" ++ String.ofList (store.toList.map Char.toLower) := by
  have hplain : ∀ c ∈ store.toList, isSpace c = false ∧ c ≠ '/' := by
    intro c hc
    have hchar := chars_of_accepted h c hc
    rw [Bool.or_eq_true, beq_iff_eq] at hchar
    refine ⟨?_, ?_⟩
    · by_contra hspace
      rw [Bool.not_eq_false] at hspace
      have hid := isSpace_not_isIdChar hspace
      rcases hchar with hchar | rfl
      · rw [isIdChar, hchar, Bool.true_or, Bool.true_or] at hid
        cases hid
      · cases hspace
    · rintro rfl
      exact absurd hchar (by decide)
  rw [WriteEngine.tableName, completion_getD hplain]

/-- A name that the migration accepts is cut at the minus, and a client can turn the condition of a read
into a comment. -/
theorem names_are_cut :
    ((∀ T, Migrate.validateStoreName T "orders-0" = .ok ()) ∧
      ∀ sql, ¬ NamesOneTable standard sql "orders-0") ∧
    standard.tokens (StoreSql.select.text "orders-0").toList =
      [.word "SELECT", .word "payload", .word "FROM", .word "payload_orders", .symbol '-', .number "0",
        .word "WHERE", .word "entity", .symbol '=', .variable "1", .word "AND", .word "key", .symbol '=',
        .variable "2"] ∧
    ¬ NamesOneTable standard .select "main --" ∧
    standard.tokens (StoreSql.select.text "main --").toList =
      [.word "SELECT", .word "payload", .word "FROM", .word "payload_main"] := by
  have haccepted : ∀ T, Migrate.validateStoreName T "orders-0" = .ok () := by
    intro T
    unfold Migrate.validateStoreName
    rw [if_neg (by decide +kernel)]
  refine ⟨⟨haccepted, fun sql h => ?_⟩, by decide +kernel, fun h => ?_, by decide +kernel⟩
  · cases (tokens_text_iff _ _ _).1 h.1 '-' (by decide)
  · cases (tokens_text_iff _ _ _).1 h.1 '-' (by decide)

end Ixmati
