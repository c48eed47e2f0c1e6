import Ixmati.Cache.Protocol

/-!
# The three ways to read the cache

`read_handler` looks a document up in one of three ways: over the socket of `CacheServer`, by a query
that `CacheResponder` answers over MQTT, or directly in the backend.  Each builds the key of the backend
(`internal_key`) in its own way, from a namespace, an entity and a key.

All that `CacheServer` writes is in the namespace `cache`.  So an entity is found in each mode where the
others find it, up to what the protocol does to its key (`Undisturbed`), and a projection is not: the
direct way asks in the namespace `projections`, and the query asks for an entity of a store of that
name (`modes_agree_iff`).
-/

namespace Ixmati

namespace Cache

/-! ### The backend -/

/-- The table of `RedbCacheBackend`. -/
abbrev Backend := String → Option Bytes

/-- `RedbCacheBackend::internal_key`. -/
def internalKey (ns entity key : String) : String :=
  if key = "" then ns ++ ":" ++ entity else ns ++ ":" ++ entity ++ ":" ++ key

namespace Backend

/-- `RedbCacheBackend::get`. -/
def get (b : Backend) (ns entity key : String) : Option Bytes := b (internalKey ns entity key)

/-- `RedbCacheBackend::set`, of a backend that is not read-only. -/
def set (b : Backend) (ns entity key : String) (value : Bytes) : Backend :=
  Function.update b (internalKey ns entity key) (some value)

/-- `RedbCacheBackend::del`. -/
def del (b : Backend) (ns entity key : String) : Backend :=
  Function.update b (internalKey ns entity key) none

/-- `RedbCacheBackend::delete_by_prefix`. -/
def deleteByPrefix (b : Backend) (ns start : String) : Backend :=
  fun k => if (ns ++ ":" ++ start).toList.isPrefixOf k.toList then none else b k

/-- What `process_command` does to the backend. -/
def execute (b : Backend) : Command → Backend
  | .get _ => b
  | .set key value => b.set "cache" key "" value
  | .del key => b.del "cache" key ""
  | .delPrefix start => b.deleteByPrefix "cache" start
  | .flush => b

/-- The entries that the server sees. -/
def entries (b : Backend) : Entries := fun key => b.get "cache" key ""

end Backend

theorem internalKey_inj {ns k k' : String} : internalKey ns k "" = internalKey ns k' "" ↔ k = k' := by
  simp [internalKey, String.append_right_inj]

theorem entries_update (b : Backend) (key : String) (v : Option Bytes) :
    Backend.entries (Function.update b (internalKey "cache" key "") v) =
      Function.update b.entries key v := by
  funext k
  show Function.update b _ v (internalKey "cache" k "") = _
  by_cases hk : k = key
  · rw [hk, Function.update_self, Function.update_self]
  · rw [Function.update_of_ne hk, Function.update_of_ne fun h => hk (internalKey_inj.1 h)]
    rfl

/-- The server's commands act on the entries as the protocol says. -/
theorem entries_execute (b : Backend) (c : Command) : (b.execute c).entries = c.apply b.entries := by
  cases c with
  | get key => rfl
  | set key value => exact entries_update b key (some value)
  | del key => exact entries_update b key none
  | delPrefix start =>
    funext k
    have hpre : ("cache" ++ ":" ++ start).toList.isPrefixOf ("cache" ++ ":" ++ k).toList =
        start.toList.isPrefixOf k.toList := by
      simp
    show (if ("cache" ++ ":" ++ start).toList.isPrefixOf ("cache" ++ ":" ++ k).toList then _ else _) = _
    rw [hpre]
    rfl
  | flush => rfl

/-- A `SET` or `DEL` that the server can execute. -/
def Command.IsWrite : Command → Prop
  | .set key value => (Command.set key value).WellFormed
  | .del key => (Command.del key).WellFormed
  | _ => False

/-- The content of the cache after some commands. -/
def content (cmds : List Command) : Backend := cmds.foldl Backend.execute fun _ => none

/-- After such commands every key of the backend is in the namespace `cache`, and no key that the server
sees has a space or a line break. -/
structure Written (b : Backend) : Prop where
  ns : ∀ k, ¬ "cache:".toList <+: k.toList → b k = none
  word : ∀ k, b.entries k ≠ none → Word k.toList

theorem Written.update {b : Backend} (h : Written b) {key : String} {v : Option Bytes}
    (hv : v = none ∨ Word key.toList) :
    Written (Function.update b (internalKey "cache" key "") v) where
  ns k hk := by
    rw [Function.update_of_ne ?_, h.ns k hk]
    rintro rfl
    exact hk (by simp [internalKey])
  word k hk := by
    rw [entries_update] at hk
    by_cases heq : k = key
    · rw [heq, Function.update_self] at hk
      exact heq ▸ hv.resolve_left hk
    · rw [Function.update_of_ne heq] at hk
      exact h.word k hk

theorem Written.execute {b : Backend} (h : Written b) {c : Command} (hc : c.IsWrite) :
    Written (b.execute c) := by
  cases c with
  | set key value => exact h.update (Or.inr hc.1)
  | del key => exact h.update (Or.inl rfl)
  | _ => cases hc

theorem written_content {cmds : List Command} (hcmds : ∀ c ∈ cmds, c.IsWrite) :
    Written (content cmds) := by
  induction cmds using List.reverseRecOn with
  | nil => exact ⟨fun _ _ => rfl, fun _ hk => absurd rfl hk⟩
  | append_singleton cmds c ih =>
    rw [content, List.foldl_append]
    exact (ih fun d hd => hcmds d (List.mem_append_left _ hd)).execute (hcmds c (by simp))

/-! ### The lookups -/

/-- `CacheReadMode`. -/
inductive ReadMode where
  | socket
  | mqtt
  | direct

/-- The answer of `CacheResponder` to a query. -/
def respond (b : Backend) (store entity key : String) : Option Bytes :=
  b.get "cache" ("c:" ++ store ++ ":" ++ entity ++ ":" ++ key) ""

/-- What `read_handler` finds of a projection; a query over MQTT is taken to be answered in time. -/
def cachedProjection (b : Backend) (projection key : String) : ReadMode → Option Bytes
  | .socket => (Call.get (.projection projection key)).getResult b.entries
  | .mqtt => respond b "projections" (Name.projection projection key).toKey ""
  | .direct => b.get "projections" (Name.projection projection key).toKey ""

/-- What `read_handler` finds of an entity. -/
def cachedEntity (b : Backend) (store entity key : String) : ReadMode → Option Bytes
  | .socket => (Call.get (.entity store entity key)).getResult b.entries
  | .mqtt => respond b store entity key
  | .direct => b.get "cache" (Name.entity store entity key).toKey ""

/-! ### A `GET` with any key -/

/-- The text up to the first line break. -/
def firstLine (cs : List Char) : List Char := cs.takeWhile fun c => c != '\n'

/-- The key that the server looks up for a `GET`: what follows a line break is another command, and
white space at the end is cut off. -/
def requestedKey (key : String) : String := String.ofList (trim (firstLine key.toList))

theorem not_mem_firstLine (cs : List Char) : '\n' ∉ firstLine cs := by
  intro hmem
  have := List.mem_takeWhile_imp hmem
  simp at this

theorem firstLine_of_not_mem {cs : List Char} (h : '\n' ∉ cs) : firstLine cs = cs := by
  rw [firstLine, List.takeWhile_eq_self_iff]
  intro c hc
  simp only [bne_iff_ne]
  rintro rfl
  exact h hc

/-- The lines of a text with a line break at its end. -/
theorem encode_firstLine (front cs : List Char) :
    ∃ rest, encode (front ++ cs ++ ['\n']) = encode (front ++ firstLine cs) ++ 10 :: rest ∧
      ('\n' ∉ cs → rest = []) := by
  cases hrest : cs.dropWhile fun c => c != '\n' with
  | nil =>
    have hno : '\n' ∉ cs := by
      intro hmem
      have := List.dropWhile_eq_nil_iff.1 hrest _ hmem
      simp at this
    refine ⟨[], ?_, fun _ => rfl⟩
    rw [firstLine_of_not_mem hno, encode_append]
    rfl
  | cons c more =>
    have hc : c = '\n' := by
      have := List.head?_dropWhile_not (fun c => c != '\n') cs
      rw [hrest] at this
      simpa using this
    have hsplit : firstLine cs ++ '\n' :: more = cs := by
      rw [← hc, ← hrest]
      exact List.takeWhile_append_dropWhile
    refine ⟨encode (more ++ ['\n']), ?_, fun hno => absurd (hsplit ▸ by simp) hno⟩
    conv_lhs => rw [← hsplit]
    simp [encode]
    rfl

/-- The first line of a request, whatever follows it: white space at its end is cut off. -/
theorem turn_of_first {eof : Bool} {front line : List Char} {c : Command}
    (hfront : front.head?.any isWhitespace = false) (hfne : front ≠ []) (hfbreak : '\n' ∉ front)
    (hhead : line.head?.any isWhitespace = false) (hne : line ≠ []) (hbreak : '\n' ∉ line)
    (hparse : parse (front ++ trim line) = .command c) (rest : Bytes) :
    turn eof (encode (front ++ line) ++ 10 :: rest) = .run c rest := by
  have hline : '\n' ∉ front ++ line := by simp [hfbreak, hbreak]
  have htrim : trim (front ++ line) = front ++ trim line := trim_append hfront hfne hhead hne
  unfold turn readLine
  simp only [takeLine_encode hline, decode_encode, htrim]
  rw [if_neg (by simp [hfne]), hparse]

theorem turn_get {eof : Bool} {line : List Char} (hhead : line.head?.any isWhitespace = false)
    (hne : line ≠ []) (hbreak : '\n' ∉ line) (rest : Bytes) :
    turn eof (encode ("GET ".toList ++ line) ++ 10 :: rest) =
      .run (.get (String.ofList (trim line))) rest := by
  refine turn_of_first (by decide) (by decide) (by decide) hhead hne hbreak ?_ rest
  rw [parse, stripPrefix_append]
  simp only [(trimmed_trim line).trim_eq]

/-- The keys of names start with a letter. -/
theorem firstLine_toKey (name : Name) :
    (firstLine name.toKey.toList).head?.any isWhitespace = false ∧ firstLine name.toKey.toList ≠ [] := by
  cases name with
  | entity s e k => simp [Name.toKey, firstLine]; decide
  | projection n k => simp [Name.toKey, firstLine]; decide

section Get

variable {eof : Bool} {e : Entries} {name : Name}

/-- The server first answers for the key of the first line. -/
theorem serve_get (eof : Bool) (e : Entries) (name : Name) :
    ∃ rest, serve eof e (Call.get name).request =
        (serve eof e rest).after (.get (requestedKey name.toKey))
          ((Command.get (requestedKey name.toKey)).reply e) ∧
      ('\n' ∉ name.toKey.toList → rest = []) := by
  obtain ⟨rest, hbytes, hrest⟩ := encode_firstLine "GET ".toList name.toKey.toList
  refine ⟨rest, ?_, hrest⟩
  have hrequest : (Call.get name).request =
      encode ("GET ".toList ++ firstLine name.toKey.toList) ++ 10 :: rest := by
    rw [← hbytes, Call.request, Call.command, Command.request, String.toList_append, String.toList_append]
    rfl
  obtain ⟨hhead, hne⟩ := firstLine_toKey name
  rw [hrequest, serve_of_turn (turn_get hhead hne (not_mem_firstLine _) rest)]
  rfl

theorem found_serve_get (e : Entries) (name : Name) :
    Command.found (serve eof e (Call.get name).request).replies = e (requestedKey name.toKey) := by
  obtain ⟨rest, hserve, -⟩ := serve_get eof e name
  rw [hserve]
  show Command.found ((Command.get _).reply e :: _) = _
  rw [Command.reply_get]
  cases e (requestedKey name.toKey) <;> rfl

/-- The entries after the lines of a `GET` have been executed and the connection was dropped. -/
def afterGet (e : Entries) (name : Name) : Entries := (serve true e (Call.get name).request).entries

theorem afterGet_of_not_mem (h : '\n' ∉ name.toKey.toList) : afterGet e name = e := by
  obtain ⟨rest, hserve, hrest⟩ := serve_get true e name
  rw [afterGet, hserve, hrest h, serve_nil]
  rfl

/-- A read over the socket finds the key of the first line, before or after the other lines. -/
theorem getResult_get (e : Entries) (name : Name) :
    (Call.get name).getResult e =
      (e (requestedKey name.toKey)).or (afterGet e name (requestedKey name.toKey)) := by
  have hfirst : (Call.get name).getResult e = (e (requestedKey name.toKey)).or
      (((Call.get name).command.attempt e).entries (requestedKey name.toKey)) := by
    rw [← @found_serve_get false e name,
      ← @found_serve_get false ((Call.get name).command.attempt e).entries name]
    rfl
  rw [hfirst]
  cases he : e (requestedKey name.toKey) with
  | some payload => rfl
  | none =>
    have hmiss : (Call.get name).command.accepted
        (serve false e (Call.get name).request).replies = false := by
      obtain ⟨rest, hserve, -⟩ := serve_get false e name
      rw [hserve]
      show (Call.get name).command.accepts ((Command.get _).reply e) = false
      rw [Command.reply_get, he]
      rfl
    have hround : ((Call.get name).command.attempt e).entries = afterGet e name := by
      unfold Command.attempt
      exact congrArg Outcome.entries (if_neg (by simpa [Call.request] using hmiss))
    rw [hround]

theorem getResult_eq_none :
    (Call.get name).getResult e = none ↔
      e (requestedKey name.toKey) = none ∧ afterGet e name (requestedKey name.toKey) = none := by
  rw [getResult_get, Option.or_eq_none_iff]

end Get

/-! ### Agreement -/

/-- All modes find the same. -/
def Agree (lookup : ReadMode → Option Bytes) : Prop := ∀ m m', lookup m = lookup m'

theorem agree_iff {lookup : ReadMode → Option Bytes} :
    Agree lookup ↔ lookup .socket = lookup .direct ∧ lookup .mqtt = lookup .direct := by
  constructor
  · intro h
    exact ⟨h _ _, h _ _⟩
  · rintro ⟨hs, hm⟩ m m'
    have hall : ∀ m, lookup m = lookup .direct := by
      rintro (_ | _ | _)
      · exact hs
      · exact hm
      · rfl
    rw [hall m, hall m']

/-- The protocol does not lead a read over the socket astray: the key is on one line, and cutting off
white space does not make it another one with another entry; or it is not, and neither the key of its
first line nor one that its other lines write is there. -/
def Undisturbed (e : Entries) (name : Name) : Prop :=
  if '\n' ∈ name.toKey.toList then
    e (requestedKey name.toKey) = none ∧ afterGet e name (requestedKey name.toKey) = none
  else e (String.ofList (trim name.toKey.toList)) = e name.toKey

theorem getResult_eq_iff {b : Backend} (hb : Written b) (name : Name) :
    (Call.get name).getResult b.entries = b.entries name.toKey ↔ Undisturbed b.entries name := by
  unfold Undisturbed
  split_ifs with hbreak
  · have hnone : b.entries name.toKey = none := by
      by_contra hne
      exact (hb.word _ hne).2 hbreak
    rw [hnone]
    exact getResult_eq_none
  · have hkey : requestedKey name.toKey = String.ofList (trim name.toKey.toList) := by
      rw [requestedKey, firstLine_of_not_mem hbreak]
    rw [getResult_get, afterGet_of_not_mem hbreak, Option.or_self, hkey]

/-- The direct read of a projection finds nothing. -/
theorem get_projections {b : Backend} (hb : Written b) (key : String) :
    b.get "projections" key "" = none := by
  refine hb.ns _ ?_
  simp [internalKey]

/-- An entity read finds the same in every mode exactly when the protocol does not disturb its key.  A
projection read does only when there is nothing: neither a projection that the socket finds, nor an
entity of a store `projections` with the projection's key. -/
theorem modes_agree_iff (cmds : List Command) (hcmds : ∀ c ∈ cmds, c.IsWrite)
    (projection store entity key : String) :
    (Agree (cachedEntity (content cmds) store entity key) ↔
      Undisturbed (content cmds).entries (.entity store entity key)) ∧
    (Agree (cachedProjection (content cmds) projection key) ↔
      (content cmds).entries (requestedKey (Name.projection projection key).toKey) = none ∧
      afterGet (content cmds).entries (.projection projection key)
        (requestedKey (Name.projection projection key).toKey) = none ∧
      (content cmds).entries
        (Name.entity "projections" (Name.projection projection key).toKey "").toKey = none) := by
  have hb := written_content hcmds
  generalize content cmds = b at hb
  refine ⟨?_, ?_⟩
  · rw [agree_iff, ← getResult_eq_iff hb]
    exact and_iff_left rfl
  · have hdirect : cachedProjection b projection key .direct = none := get_projections hb _
    rw [agree_iff, hdirect, ← and_assoc]
    exact and_congr getResult_eq_none Iff.rfl

/-- A projection as `set_projection` writes it. -/
def sampleProjection : List Command := [.set "p:ventas:1" [123, 125]]

/-- The socket finds it, and the other two ways do not. -/
theorem projection_found_over_socket_only :
    (∀ c ∈ sampleProjection, c.IsWrite) ∧
    cachedProjection (content sampleProjection) "ventas" "1" .socket = some [123, 125] ∧
    cachedProjection (content sampleProjection) "ventas" "1" .mqtt = none ∧
    cachedProjection (content sampleProjection) "ventas" "1" .direct = none ∧
    ¬ Agree (cachedProjection (content sampleProjection) "ventas" "1") := by
  have hwrite : ∀ c ∈ sampleProjection, c.IsWrite := by
    intro c hc
    obtain rfl := List.mem_singleton.1 hc
    exact ⟨by decide, by decide⟩
  have hsocket : cachedProjection (content sampleProjection) "ventas" "1" .socket = some [123, 125] := by
    decide +kernel
  have hdirect : cachedProjection (content sampleProjection) "ventas" "1" .direct = none := by
    decide +kernel
  refine ⟨hwrite, hsocket, by decide +kernel, hdirect, fun h => ?_⟩
  have := h .socket .direct
  rw [hsocket, hdirect] at this
  cases this

theorem sample_entity_modes_agree :
    Agree (cachedEntity (content [.set "c:main:user:1" [123, 125]]) "main" "user" "1") := by
  refine (modes_agree_iff [.set "c:main:user:1" [123, 125]] ?_ "ventas" "main" "user" "1").1.2 ?_
  · intro c hc
    obtain rfl := List.mem_singleton.1 hc
    exact ⟨by decide, by decide⟩
  · rw [Undisturbed, if_neg (by decide)]
    decide +kernel

end Cache

end Ixmati
