import Ixmati.Cache.Isolation
import Ixmati.Lib.Interaction

/-!
# Programs that use the cache

The projector and the reconciler are programs that make calls of `CacheClient`, one after the other, and
go on with what these return.  `wire` runs a call through the protocol, byte by byte, on a connection
whose replies have been read; `ideal` is what a map does.  They agree on commands whose names do not
interfere with the protocol (`wire_of_wellFormed`), and so do programs that make no other calls
(`Script.exec_wire`).

A key is built of parts, and can be sent with any command if its parts are `Word`s and the last of them
does not end in white space (`Plain.append`).
-/

namespace Ixmati

namespace Cache

/-- What a call of `CacheClient` returns. -/
def Command.Answer : Command → Type
  | .get _ => Option Bytes
  | _ => Unit

/-- A program that makes calls of `CacheClient`. -/
abbrev Script := Prog Command.Answer

namespace Script

/-- `get_raw`. -/
def getRaw (key : String) : Script (Option Bytes) := .ask (.get key) .ret

/-- `set_raw`. -/
def setRaw (key : String) (value : Bytes) : Script Unit := .ask (.set key value) .ret

/-- `del_raw`. -/
def delRaw (key : String) : Script Unit := .ask (.del key) .ret

/-- `delete_by_prefix`. -/
def deleteByPrefix (start : String) : Script Unit := .ask (.delPrefix start) .ret

/-- `get`. -/
def get (store entity key : String) : Script (Option Bytes) :=
  getRaw (Name.entity store entity key).toKey

/-- `set_projection`. -/
def setProjection (name key : String) (value : Bytes) : Script Unit :=
  setRaw (Name.projection name key).toKey value

end Script

/-! ### Handlers -/

/-- The answer to a command, with what was found. -/
def Command.answer (found : Option Bytes) : (c : Command) → c.Answer
  | .get _ => found
  | .set _ _ => ()
  | .del _ => ()
  | .delPrefix _ => ()
  | .flush => ()

/-- A call of `CacheClient`, and the entries that it leaves. -/
def wire (e : Entries) (c : Command) : c.Answer × Entries :=
  (c.answer (c.getResult e), (c.sendAsync e).entries)

/-- What a map has for a command. -/
def Command.value (e : Entries) : Command → Option Bytes
  | .get key => e key
  | _ => none

/-- The call on a map. -/
def ideal (e : Entries) (c : Command) : c.Answer × Entries := (c.answer (c.value e), c.apply e)

variable {e : Entries} {c : Command} {α : Type}

/-- The answer of a map, by the reply that the server makes. -/
theorem answer_found (e : Entries) (c : Command) :
    c.answer (Command.found [c.reply e]) = c.answer (c.value e) := by
  cases c with
  | get key =>
    show Command.found [(Command.get key).reply e] = e key
    rw [Command.reply_get]
    cases e key <;> rfl
  | _ => rfl

/-- What does not succeed the first time is a `get` of what is not there. -/
theorem Command.apply_of_not_accepts (h : c.accepts (c.reply e) = false) : c.apply e = e := by
  cases c with
  | get key => rfl
  | _ => cases h

/-- What a successful call takes from its reply. -/
theorem Command.answer_or (h : c.accepts (c.reply e) = true) (second : Option Bytes) :
    c.answer ((found [c.reply e]).or second) = c.answer (found [c.reply e]) := by
  cases c with
  | get key =>
    show (found [(Command.get key).reply e]).or second = found [(Command.get key).reply e]
    rw [reply_get] at h ⊢
    cases hkey : e key with
    | none =>
      rw [hkey] at h
      cases h
    | some payload => rfl
  | _ => rfl

/-- **On the wire a call is one on a map**, if its names do not interfere. -/
theorem wire_of_wellFormed (e : Entries) (h : c.WellFormed) : wire e c = ideal e c := by
  have hserve : ∀ e : Entries, (serve false e c.request).replies = [c.reply e] := by
    intro e
    rw [Command.serve_request e h]
  have hattempt : ∀ e : Entries, (c.attempt e).entries = c.apply e := by
    intro e
    rw [Command.attempt_of_wellFormed e h]
  have haccepted : c.accepted (serve false e c.request).replies = c.accepts (c.reply e) := by
    rw [hserve]
    rfl
  unfold wire ideal
  cases hacc : c.accepts (c.reply e) with
  | true =>
    have hentries : (c.sendAsync e).entries = c.apply e := by
      unfold Command.sendAsync
      rw [haccepted, hacc, if_pos rfl, hattempt]
    rw [hentries, Command.getResult, hserve, Command.answer_or hacc, answer_found]
  | false =>
    have hsame := Command.apply_of_not_accepts hacc
    have hentries : (c.sendAsync e).entries = c.apply e := by
      unfold Command.sendAsync
      rw [haccepted, hacc, if_neg Bool.false_ne_true]
      show (c.attempt (c.attempt e).entries).entries = _
      rw [hattempt, hattempt, hsame, hsame]
    rw [hentries, Command.getResult, hserve, hserve, hattempt, hsame, Option.or_self, answer_found]

/-! ### Scripts on a map -/

namespace Script

@[simp] theorem exec_getRaw (e : Entries) (key : String) : (getRaw key).exec ideal e = (e key, e) := rfl

@[simp] theorem exec_setRaw (e : Entries) (key : String) (value : Bytes) :
    (setRaw key value).exec ideal e = ((), Function.update e key (some value)) := rfl

@[simp] theorem exec_delRaw (e : Entries) (key : String) :
    (delRaw key).exec ideal e = ((), Function.update e key none) := rfl

@[simp] theorem exec_deleteByPrefix (e : Entries) (start : String) :
    (deleteByPrefix start).exec ideal e = ((), (Command.delPrefix start).apply e) := rfl

@[simp] theorem exec_get (e : Entries) (store entity key : String) :
    (get store entity key).exec ideal e = (e (Name.entity store entity key).toKey, e) := rfl

@[simp] theorem exec_setProjection (e : Entries) (name key : String) (value : Bytes) :
    (setProjection name key value).exec ideal e =
      ((), Function.update e (Name.projection name key).toKey (some value)) := rfl

variable {ok : Command → Prop} {e : Entries}

@[simp] theorem asks_getRaw {key : String} : (getRaw key).Asks ok ideal e ↔ ok (.get key) :=
  Prog.asks_query

@[simp] theorem asks_setRaw {key : String} {value : Bytes} :
    (setRaw key value).Asks ok ideal e ↔ ok (.set key value) := Prog.asks_query

@[simp] theorem asks_delRaw {key : String} : (delRaw key).Asks ok ideal e ↔ ok (.del key) :=
  Prog.asks_query

@[simp] theorem asks_deleteByPrefix {start : String} :
    (deleteByPrefix start).Asks ok ideal e ↔ ok (.delPrefix start) := Prog.asks_query

@[simp] theorem asks_get {store entity key : String} :
    (get store entity key).Asks ok ideal e ↔ ok (.get (Name.entity store entity key).toKey) :=
  Prog.asks_query

@[simp] theorem asks_setProjection {name key : String} {value : Bytes} :
    (setProjection name key value).Asks ok ideal e ↔
      ok (.set (Name.projection name key).toKey value) := Prog.asks_query

/-- A script whose calls have names that do not interfere runs on the wire as on a map. -/
theorem exec_wire {p : Script α} (h : p.Asks Command.WellFormed ideal e) :
    p.exec wire e = p.exec ideal e :=
  Prog.exec_congr h fun e _ hc => wire_of_wellFormed e hc

end Script

/-! ### Keys and their parts -/

/-- A text that can be the end of a key: it can stand in a line, and does not end in white space. -/
def Plain (s : String) : Prop := Word s.toList ∧ s.toList.getLast?.any isWhitespace = false

instance (s : String) : Decidable (Plain s) := inferInstanceAs (Decidable (_ ∧ _))

/-- A key that any command can be sent with. -/
def Sendable (key : String) : Prop := Token key.toList ∧ Word key.toList

theorem Sendable.get {key : String} (h : Sendable key) : (Command.get key).WellFormed := h.1

theorem Sendable.del {key : String} (h : Sendable key) : (Command.del key).WellFormed := h.1

theorem Sendable.set {key : String} {value : Bytes} (h : Sendable key)
    (hlen : value.length < 2 ^ 63) : (Command.set key value).WellFormed := ⟨h.2, hlen⟩

theorem word_append {s t : String} : Word (s ++ t).toList ↔ Word s.toList ∧ Word t.toList := by
  simp only [Word, String.toList_append, List.mem_append, not_or]
  tauto

/-- A key with a plain part at its end, after a colon. -/
theorem Plain.sendable {key : String} (h : Plain key) (front : String)
    (hfront : Word front.toList) (hhead : front.toList.head?.any isWhitespace = false) :
    Sendable (front ++ ":" ++ key) := by
  have hword : Word (front ++ ":" ++ key).toList :=
    word_append.2 ⟨word_append.2 ⟨hfront, by decide⟩, h.1⟩
  refine ⟨⟨by simp, hword.2, ?_, ?_⟩, hword⟩
  · rw [String.toList_append, String.toList_append]
    cases hchars : front.toList with
    | nil => rfl
    | cons c cs => simpa [hchars] using hhead
  · rw [String.toList_append, String.toList_append]
    by_cases hkey : key.toList = []
    · rw [hkey, List.append_nil, List.getLast?_append_of_ne_nil _ (by decide)]
      rfl
    · rw [List.getLast?_append_of_ne_nil _ hkey]
      exact h.2

theorem sendable_projection {name key : String} (hname : Word name.toList) (hkey : Plain key) :
    Sendable (Name.projection name key).toKey := by
  refine hkey.sendable ("p:" ++ name) (word_append.2 ⟨by decide, hname⟩) ?_
  rw [String.toList_append]
  rfl

theorem sendable_entity {store entity key : String} (hstore : Word store.toList)
    (hentity : Word entity.toList) (hkey : Plain key) :
    Sendable (Name.entity store entity key).toKey := by
  refine hkey.sendable ("c:" ++ store ++ ":" ++ entity) ?_ ?_
  · exact word_append.2 ⟨word_append.2 ⟨word_append.2 ⟨by decide, hstore⟩, by decide⟩, hentity⟩
  · simp only [String.toList_append]
    rfl

end Cache

end Ixmati
