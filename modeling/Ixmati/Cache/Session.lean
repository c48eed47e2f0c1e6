import Ixmati.Cache.Protocol

/-!
# Sessions with the cache server

The clients of `ixmati-cache` over whole sessions, with the bytes in both directions.  Requests and
replies share a connection with no framing but line breaks and lengths, values may hold any bytes, and
each call reads its reply through a buffer of its own, which may take more bytes from the socket than
the call uses and is then dropped.

A connection is known by the entries at its start, the bytes sent so far and the number of reply bytes
that are gone (`Connection`): what the server has done with it is `serve`.  `SyncCacheClient` keeps one
connection.  `CacheClient` drops it and sends the request again when it does not get the reply it hopes
for, and the `MISS` of a `get` is not.

* `serve_requests` : the server decodes a sequence of requests exactly;
* `read_reply` : a client reads one reply exactly;
* `session_refines_map` : `SyncCacheClient` is a map; `CacheClient` returns what a map returns, and has
  its commands executed once each exactly when every `get` finds something.
-/

namespace Ixmati

namespace Cache

/-! ### Replies -/

/-- The bytes of a reply. -/
def Reply.bytes : Reply → Bytes
  | .hit payload => encode ("HIT " ++ toString payload.length ++ "\n").toList ++ payload ++ [10]
  | .miss => encode "MISS\n".toList
  | .ok => encode "OK\n".toList
  | .err message => encode (message ++ "\n").toList

/-- The first line that is not blank, trimmed, and what follows it; `none` if it does not come or is
not UTF-8. -/
def readHeader : ℕ → Bytes → Option (List Char × Bytes)
  | 0, _ => none
  | n + 1, input =>
    match takeLine input with
    | none => none
    | some (line, rest) =>
      match decode line with
      | none => none
      | some header => if trim header = [] then readHeader n rest else some (trim header, rest)

/-- The reading of a `get`, with the bytes that it leaves.  `CacheClient` asks for the byte after the
payload (`strict`), `SyncCacheClient` does not; a length from `2 ^ 63` on makes `vec!` panic. -/
def readGet (strict : Bool) (input : Bytes) : Option Bytes × Bytes :=
  match readHeader (input.length + 1) input with
  | none => (none, [])
  | some (header, rest) =>
    match (stripPrefix "HIT " header).bind fun len => parseUsize (trim len) with
    | none => (none, rest)
    | some len =>
      if 2 ^ 63 ≤ len ∨ rest.length < len ∨ (strict = true ∧ rest.length = len) then (none, [])
      else (some (rest.take len), rest.drop (len + 1))

/-- `read_simple_response`, with the bytes that it leaves. -/
def readSimpleResponse (input : Bytes) : Bool × Bytes :=
  match takeLine input with
  | none => (false, [])
  | some (line, rest) => ((decode line).any fun resp => trim resp = "OK".toList, rest)

/-- What a call returns. -/
inductive Result where
  | value (v : Option Bytes)
  | done (ok : Bool)
  deriving DecidableEq

/-- The reading of the reply to a call, which is named by its command. -/
def Command.read (strict : Bool) (c : Command) (input : Bytes) : Result × Bytes :=
  match c with
  | .get _ => ((readGet strict input).map .value id)
  | _ => ((readSimpleResponse input).map .done id)

/-! ### Clients -/

/-- A connection. -/
structure Connection where
  /-- The entries when the connection was made. -/
  start : Entries
  /-- What the client has sent. -/
  sent : Bytes
  /-- The number of reply bytes that were taken from the socket. -/
  taken : ℕ

namespace Connection

/-- What the server has done. -/
def server (s : Connection) : Outcome := serve false s.start s.sent

/-- All that the server has written. -/
def written (s : Connection) : Bytes := s.server.replies.flatMap Reply.bytes

/-- What is left for the client to read. -/
def pending (s : Connection) : Bytes := s.written.drop s.taken

/-- A call: the request is sent and a reply is read; of the bytes it leaves, `ahead` are in the buffer
that is dropped. -/
def call (strict : Bool) (ahead : ℕ) (s : Connection) (c : Command) : Result × Connection :=
  let s := { s with sent := s.sent ++ c.request }
  let (result, rest) := c.read strict s.pending
  (result, { s with taken := s.written.length - (rest.length - ahead) })

end Connection

/-- The state of a client: its connection, if it has one, and what came of those it dropped. -/
structure Client where
  stream : Option Connection
  entries : Entries
  executed : List Command
  replies : List Reply

namespace Client

/-- A client that has just connected. -/
def connect (e : Entries) : Client := ⟨some ⟨e, [], 0⟩, e, [], []⟩

/-- The commands that the server has executed for the client. -/
def allExecuted (s : Client) : List Command :=
  s.executed ++ (s.stream.map fun conn => conn.server.executed).getD []

/-- The replies that the server has made. -/
def allReplies (s : Client) : List Reply :=
  s.replies ++ (s.stream.map fun conn => conn.server.replies).getD []

/-- The connection is dropped: the server gets to the end of what was sent. -/
def drop (s : Client) (conn : Connection) : Client :=
  let o := serve true conn.start conn.sent
  ⟨none, o.entries, s.executed ++ o.executed, s.replies ++ o.replies⟩

/-- The reply that the loops of `CacheClient` hope for. -/
def hopedFor : Result → Bool
  | .value v => v.isSome
  | .done ok => ok

/-- One round of a loop of `CacheClient`. -/
def round (ahead : ℕ) (s : Client) (c : Command) : Result × Client :=
  let conn := s.stream.getD ⟨s.entries, [], 0⟩
  let (result, conn) := conn.call true ahead c
  if hopedFor result then (result, { s with stream := some conn }) else (result, s.drop conn)

/-- A call of `CacheClient`: two rounds at most. -/
def callAsync (ahead : ℕ → ℕ) (s : Client) (c : Command) : Result × Client :=
  let (result, s) := s.round (ahead 0) c
  if hopedFor result then (result, s) else s.round (ahead 1) c

/-- A call of `SyncCacheClient`. -/
def callSync (ahead : ℕ → ℕ) (s : Client) (c : Command) : Result × Client :=
  match s.stream with
  | some conn =>
    let (result, conn) := conn.call false (ahead 0) c
    (result, { s with stream := some conn })
  | none => (.done false, s)

/-- A sequence of calls; `ahead i` says what the buffers of the `i`-th call take too much. -/
def session (call : (ℕ → ℕ) → Client → Command → Result × Client) :
    (ℕ → ℕ → ℕ) → Client → List Command → List Result × Client
  | _, s, [] => ([], s)
  | ahead, s, c :: cs =>
    let (result, s) := call (ahead 0) s c
    let (results, s) := session call (fun i => ahead (i + 1)) s cs
    (result :: results, s)

end Client

/-! ### The map -/

/-- What a map returns for the call. -/
def Command.result (e : Entries) : Command → Result
  | .get key => .value (e key)
  | _ => .done true

/-- What a map returns for a sequence of calls. -/
def mapResults : Entries → List Command → List Result
  | _, [] => []
  | e, c :: cs => c.result e :: mapResults (c.apply e) cs

/-- The replies to a sequence of commands. -/
def mapReplies : Entries → List Command → List Reply
  | _, [] => []
  | e, c :: cs => c.reply e :: mapReplies (c.apply e) cs

/-- A name without white space. -/
def Clean (s : String) : Prop := s ≠ "" ∧ ∀ c ∈ s.toList, isWhitespace c = false

/-- The names of the command have no white space, and its value is one that a slice can hold. -/
def Command.Clean : Command → Prop
  | .get key => Cache.Clean key
  | .set key value => Cache.Clean key ∧ value.length < 2 ^ 63
  | .del key => Cache.Clean key
  | .delPrefix start => Cache.Clean start
  | .flush => True

/-- Every value has a length that a `Vec` can have. -/
def Small (e : Entries) : Prop := ∀ key value, e key = some value → value.length < 2 ^ 63

/-- Every `get` of the sequence finds something. -/
def AllHit : Entries → List Command → Prop
  | _, [] => True
  | e, c :: cs => Client.hopedFor (c.result e) = true ∧ AllHit (c.apply e) cs

/-! ### The server over a sequence of requests -/

variable {e : Entries} {c : Command} {cs : List Command}

theorem Clean.word {s : String} (h : Clean s) : Word s.toList :=
  ⟨fun hmem => absurd (h.2 _ hmem) (by decide), fun hmem => absurd (h.2 _ hmem) (by decide)⟩

theorem Clean.token {s : String} (h : Clean s) : Token s.toList := by
  have hany : ∀ c? : Option Char, (∀ c, c? = some c → c ∈ s.toList) →
      c?.any isWhitespace = false := by
    intro c? hc
    cases c? with
    | none => rfl
    | some c => exact h.2 c (hc c rfl)
  exact ⟨fun hnil => h.1 (String.toList_eq_nil_iff.1 hnil), h.word.2,
    hany _ fun _ => List.mem_of_head?, hany _ fun _ => List.mem_of_getLast?⟩

theorem Command.Clean.wellFormed (h : c.Clean) : c.WellFormed := by
  cases c with
  | get key => exact Cache.Clean.token h
  | set key value => exact ⟨h.1.word, h.2⟩
  | del key => exact Cache.Clean.token h
  | delPrefix start => exact Cache.Clean.token h
  | flush => trivial

/-- **The server decodes the requests exactly**, and answers each of them once. -/
theorem serve_requests {eof : Bool} (e : Entries) (hcs : ∀ c ∈ cs, c.Clean) :
    serve eof e (cs.flatMap Command.request) =
      ⟨cs.foldl Command.apply e, cs, mapReplies e cs, if eof then .closed else .idle []⟩ := by
  induction cs generalizing e with
  | nil => exact serve_nil e
  | cons c cs ih =>
    have hturn : turn eof (c.request ++ cs.flatMap Command.request) = .run c (cs.flatMap Command.request) :=
      turn_request (hcs c List.mem_cons_self).wellFormed _
    rw [List.flatMap_cons, serve_of_turn hturn, ih _ fun d hd => hcs d (List.mem_cons_of_mem _ hd)]
    rfl

theorem mapReplies_append (e : Entries) (cs ds : List Command) :
    mapReplies e (cs ++ ds) = mapReplies e cs ++ mapReplies (cs.foldl Command.apply e) ds := by
  induction cs generalizing e with
  | nil => rfl
  | cons c cs ih => simp [mapReplies, ih]

theorem length_mapReplies (e : Entries) (cs : List Command) : (mapReplies e cs).length = cs.length := by
  induction cs generalizing e with
  | nil => rfl
  | cons c cs ih => simp [mapReplies, ih]

theorem Small.apply (he : Small e) (hc : c.Clean) : Small (c.apply e) := by
  intro key value hget
  cases c with
  | get k => exact he key value hget
  | set k v =>
    by_cases hk : key = k
    · have hv : v = value := by
        have hget' : Function.update e k (some v) key = some value := hget
        rw [hk, Function.update_self] at hget'
        exact Option.some.inj hget'
      exact hv ▸ hc.2
    · rw [Command.apply, Function.update_of_ne hk] at hget
      exact he key value hget
  | del k =>
    by_cases hk : key = k
    · rw [Command.apply, hk, Function.update_self] at hget
      cases hget
    · rw [Command.apply, Function.update_of_ne hk] at hget
      exact he key value hget
  | delPrefix start =>
    simp only [Command.apply] at hget
    split_ifs at hget
    exact he key value hget
  | flush => exact he key value hget

theorem Small.foldl (he : Small e) (hcs : ∀ c ∈ cs, c.Clean) : Small (cs.foldl Command.apply e) := by
  induction cs generalizing e with
  | nil => exact he
  | cons c cs ih =>
    exact ih (he.apply (hcs c List.mem_cons_self)) fun d hd => hcs d (List.mem_cons_of_mem _ hd)

/-! ### The client on one reply -/

theorem readGet_hit (strict : Bool) {payload : Bytes} (hlen : payload.length < 2 ^ 63) :
    readGet strict (Reply.hit payload).bytes = (some payload, []) := by
  set digits := (toString payload.length).toList with hdigits
  have hdigit : ∀ c ∈ digits, isWhitespace c = false := fun c hc =>
    isWhitespace_of_isDigit (isDigit_of_mem_repr hc)
  have hlast : digits.getLast?.any isWhitespace = false := by
    cases hl : digits.getLast? with
    | none => rfl
    | some c => exact hdigit c (List.mem_of_getLast? hl)
  have hhead : digits.head?.any isWhitespace = false := by
    cases hl : digits.head? with
    | none => rfl
    | some c => exact hdigit c (List.mem_of_head? hl)
  have hbreak : '\n' ∉ "HIT ".toList ++ digits := by
    have hnot : '\n' ∉ digits := fun hmem => absurd (hdigit _ hmem) (by decide)
    simp [hnot]
  have hbytes : (Reply.hit payload).bytes =
      encode ("HIT ".toList ++ digits) ++ 10 :: (payload ++ [10]) := by
    have hline : ("HIT " ++ toString payload.length ++ "\n").toList =
        ("HIT ".toList ++ digits) ++ ['\n'] := by
      simp [hdigits]
    rw [Reply.bytes, hline, encode_append, List.append_assoc, List.append_assoc]
    rfl
  have htrim : Trimmed ("HIT ".toList ++ digits) :=
    .append (by decide) (by decide) (repr_ne_nil _) hlast
  have hheader : readHeader ((Reply.hit payload).bytes.length + 1) (Reply.hit payload).bytes =
      some ("HIT ".toList ++ digits, payload ++ [10]) := by
    rw [hbytes, readHeader, takeLine_encode hbreak]
    simp only [decode_encode, htrim.trim_eq]
    rw [if_neg (by simp)]
  rw [readGet, hheader]
  simp only [stripPrefix_append, Option.bind_some, (show Trimmed digits from ⟨hhead, hlast⟩).trim_eq]
  rw [parseUsize_repr (by omega)]
  have hfits : ¬ (2 ^ 63 ≤ payload.length ∨ (payload ++ [10]).length < payload.length ∨
      (strict = true ∧ (payload ++ [10]).length = payload.length)) := by
    rw [List.length_append, List.length_singleton]
    omega
  simp only [if_neg hfits]
  simp

/-- **A client reads the reply to its call exactly.** -/
theorem read_reply (strict : Bool) (he : Small e) (c : Command) :
    c.read strict (c.reply e).bytes = (c.result e, []) := by
  have hok : readSimpleResponse Reply.ok.bytes = (true, []) := by decide
  cases c with
  | get key =>
    rw [Command.read, Command.reply_get, Command.result]
    cases hkey : e key with
    | some payload =>
      rw [Option.elim_some, readGet_hit strict (he key payload hkey)]
      rfl
    | none =>
      have hmiss : readGet strict Reply.miss.bytes = (none, []) := by
        cases strict <;> decide
      rw [Option.elim_none, hmiss]
      rfl
  | set key value => exact congrArg (Prod.map Result.done id) hok
  | del key => exact congrArg (Prod.map Result.done id) hok
  | delPrefix start => exact congrArg (Prod.map Result.done id) hok
  | flush => exact congrArg (Prod.map Result.done id) hok

/-! ### Connections in step -/

/-- The connection has carried the calls `cs`, and all replies were read. -/
structure InStep (s : Connection) (cs : List Command) : Prop where
  clean : ∀ c ∈ cs, c.Clean
  sent : s.sent = cs.flatMap Command.request
  taken : s.taken = s.written.length

namespace InStep

variable {s : Connection}

theorem fresh (e : Entries) : InStep ⟨e, [], 0⟩ [] := by
  refine ⟨by simp, rfl, ?_⟩
  rw [Connection.written, Connection.server, serve_nil]
  rfl

theorem serve (h : InStep s cs) (eof : Bool) :
    Cache.serve eof s.start s.sent =
      ⟨cs.foldl Command.apply s.start, cs, mapReplies s.start cs,
        if eof then .closed else .idle []⟩ := by
  rw [h.sent]
  exact serve_requests s.start h.clean

theorem pending (h : InStep s cs) : s.pending = [] := by
  rw [Connection.pending, h.taken]
  exact List.drop_length

theorem written (h : InStep s cs) : s.written = (mapReplies s.start cs).flatMap Reply.bytes := by
  rw [Connection.written, Connection.server, h.serve]

/-- A call returns what the map returns, and leaves the connection in step. -/
theorem call (h : InStep s cs) (he : Small s.start) (hc : c.Clean) (strict : Bool) (ahead : ℕ) :
    (s.call strict ahead c).1 = c.result (cs.foldl Command.apply s.start) ∧
    (s.call strict ahead c).2.start = s.start ∧
    InStep (s.call strict ahead c).2 (cs ++ [c]) := by
  set s' : Connection := { s with sent := s.sent ++ c.request } with hs'
  have hclean : ∀ d ∈ cs ++ [c], d.Clean := by
    intro d hd
    rcases List.mem_append.1 hd with hd | hd
    · exact h.clean d hd
    · rw [List.mem_singleton.1 hd]
      exact hc
  have hsent : s'.sent = (cs ++ [c]).flatMap Command.request := by
    rw [List.flatMap_append, ← h.sent]
    simp [hs']
  have hwritten : s'.written =
      s.written ++ (c.reply (cs.foldl Command.apply s.start)).bytes := by
    rw [h.written, Connection.written, Connection.server, hsent, serve_requests _ hclean,
      mapReplies_append, List.flatMap_append]
    simp [mapReplies, hs']
  -- what waits to be read is the reply to this call
  have hpending : s'.pending = (c.reply (cs.foldl Command.apply s.start)).bytes := by
    rw [Connection.pending, hwritten, show s'.taken = s.taken from rfl, h.taken, List.drop_left]
  have hread := read_reply strict (he.foldl h.clean) c
  rw [← hpending] at hread
  have hcall : s.call strict ahead c =
      (c.result (cs.foldl Command.apply s.start), { s' with taken := s'.written.length }) := by
    simp only [Connection.call, ← hs', hread]
    simp only [List.length_nil, Nat.zero_sub, Nat.sub_zero]
    rfl
  rw [hcall]
  exact ⟨rfl, rfl, hclean, hsent, rfl⟩

end InStep

/-! ### Sessions -/

namespace Client

/-- The connection that the next call uses. -/
def current (s : Client) : Connection := s.stream.getD ⟨s.entries, [], 0⟩

/-- The server has executed `done` for the client, which left the entries `e`, and the connection is in
step. -/
structure At (s : Client) (e : Entries) (done : List Command) : Prop where
  step : ∃ cs, InStep s.current cs ∧ cs.foldl Command.apply s.current.start = e ∧
    done = s.executed ++ cs ∧ (s.stream = none → cs = [])
  small : Small s.current.start
  replies : s.replies.length = s.executed.length

section At

variable {s : Client} {done : List Command}

theorem at_connect (he : Small e) : (connect e).At e [] where
  step := ⟨[], InStep.fresh e, rfl, rfl, fun _ => rfl⟩
  small := he
  replies := rfl

theorem At.small_entries (h : s.At e done) : Small e := by
  obtain ⟨cs, hin, rfl, -⟩ := h.step
  exact h.small.foldl hin.clean

theorem current_of_stream {conn : Connection} (h : s.stream = some conn) : s.current = conn := by
  rw [current, h]
  rfl

/-- What the server has done, and that each command was answered. -/
theorem At.served (h : s.At e done) :
    s.allExecuted = done ∧ s.allReplies.length = done.length := by
  obtain ⟨cs, hin, -, rfl, hnone⟩ := h.step
  unfold allExecuted allReplies
  cases hs : s.stream with
  | none =>
    rw [hnone hs]
    exact ⟨rfl, by simp [h.replies]⟩
  | some conn =>
    rw [current_of_stream hs] at hin
    have hserver : conn.server = _ := hin.serve false
    rw [Option.map_some, Option.map_some, Option.getD_some, Option.getD_some, hserver]
    exact ⟨rfl, by simp [h.replies, length_mapReplies]⟩

/-- A client with a connection is ready for the next call. -/
theorem At.ready (h : s.At e done) (hs : s.stream.isSome = true) :
    ∃ conn, s.stream = some conn ∧ conn.server.status = .idle [] ∧ conn.pending = [] := by
  obtain ⟨conn, hconn⟩ := Option.isSome_iff_exists.1 hs
  obtain ⟨cs, hin, -⟩ := h.step
  rw [current_of_stream hconn] at hin
  have hserver : conn.server = _ := hin.serve false
  exact ⟨conn, hconn, by rw [hserver]; rfl, hin.pending⟩

/-- The connection goes on after a call. -/
theorem At.keep (h : s.At e done) (hc : c.Clean) (strict : Bool) (ahead : ℕ) :
    (s.current.call strict ahead c).1 = c.result e ∧
    At { s with stream := some (s.current.call strict ahead c).2 } (c.apply e) (done ++ [c]) := by
  obtain ⟨cs, hin, rfl, rfl, -⟩ := h.step
  obtain ⟨hresult, hstart, hnext⟩ := hin.call h.small hc strict ahead
  refine ⟨hresult, ⟨cs ++ [c], hnext, ?_, List.append_assoc .., nofun⟩, ?_, h.replies⟩
  · show (cs ++ [c]).foldl Command.apply (s.current.call strict ahead c).2.start = _
    rw [hstart, List.foldl_append]
    rfl
  · show Small (s.current.call strict ahead c).2.start
    rw [hstart]
    exact h.small

/-- The connection is dropped after a call. -/
theorem At.drop (h : s.At e done) (hc : c.Clean) (ahead : ℕ) :
    At (s.drop (s.current.call true ahead c).2) (c.apply e) (done ++ [c]) := by
  have hsmall := h.small_entries.apply hc
  obtain ⟨cs, hin, rfl, rfl, -⟩ := h.step
  obtain ⟨-, hstart, hnext⟩ := hin.call h.small hc true ahead
  have hserved := hnext.serve true
  rw [hstart, List.foldl_append] at hserved
  unfold Client.drop
  rw [hstart, hserved]
  refine ⟨⟨[], InStep.fresh _, rfl, ?_, fun _ => rfl⟩, hsmall, ?_⟩
  · show _ = (s.executed ++ (cs ++ [c])) ++ []
    rw [List.append_nil, List.append_assoc]
  · simp [h.replies, length_mapReplies]

/-- A round of `CacheClient`: the result is that of the map, and the connection is kept if the reply
was hoped for. -/
theorem At.round (h : s.At e done) (hc : c.Clean) (ahead : ℕ) :
    (s.round ahead c).1 = c.result e ∧ (s.round ahead c).2.At (c.apply e) (done ++ [c]) ∧
    (s.round ahead c).2.stream.isSome = hopedFor (c.result e) := by
  obtain ⟨hresult, hkeep⟩ := h.keep hc true ahead
  have hround : s.round ahead c =
      if hopedFor (c.result e) then
        (c.result e, { s with stream := some (s.current.call true ahead c).2 })
      else (c.result e, s.drop (s.current.call true ahead c).2) := by
    rw [← hresult]
    rfl
  rw [hround]
  cases hhope : hopedFor (c.result e) with
  | true => exact ⟨rfl, hkeep, rfl⟩
  | false => exact ⟨rfl, h.drop hc ahead, rfl⟩

end At

/-! ### Sequences of calls -/

/-- The commands that the calls of `CacheClient` have the server execute: a `get` that finds nothing is
sent twice. -/
def sentTwice : Entries → List Command → List Command
  | _, [] => []
  | e, c :: cs =>
    (if hopedFor (c.result e) then [c] else [c, c]) ++ sentTwice (c.apply e) cs

/-- A call that does not get the reply it hopes for changes nothing. -/
theorem apply_of_not_hopedFor (h : hopedFor (c.result e) = false) : c.apply e = e := by
  cases c with
  | get key => rfl
  | _ => cases h

/-- A call of `CacheClient`. -/
theorem At.after_callAsync {s : Client} {done : List Command} (h : s.At e done) (hc : c.Clean)
    (ahead : ℕ → ℕ) :
    (s.callAsync ahead c).1 = c.result e ∧
    (s.callAsync ahead c).2.At (c.apply e)
      (done ++ if hopedFor (c.result e) then [c] else [c, c]) ∧
    (s.callAsync ahead c).2.stream.isSome = hopedFor (c.result e) := by
  obtain ⟨hresult, hat, hstream⟩ := h.round hc (ahead 0)
  have hcall : s.callAsync ahead c =
      if hopedFor (c.result e) then s.round (ahead 0) c
      else (s.round (ahead 0) c).2.round (ahead 1) c := by
    rw [← hresult]
    rfl
  rw [hcall]
  cases hhope : hopedFor (c.result e) with
  | true => exact ⟨hresult, hat, hstream.trans hhope⟩
  | false =>
    obtain ⟨hresult', hat', hstream'⟩ := hat.round hc (ahead 1)
    rw [apply_of_not_hopedFor hhope] at hresult' hat' hstream'
    rw [apply_of_not_hopedFor hhope] at hat'
    refine ⟨hresult', ?_, hstream'.trans hhope⟩
    rw [apply_of_not_hopedFor hhope]
    rw [List.append_assoc] at hat'
    exact hat'

theorem At.sessionAsync {s : Client} {done : List Command} (h : s.At e done)
    (hcs : ∀ c ∈ cs, c.Clean) (ahead : ℕ → ℕ → ℕ) :
    (session callAsync ahead s cs).1 = mapResults e cs ∧
    (session callAsync ahead s cs).2.At (cs.foldl Command.apply e) (done ++ sentTwice e cs) ∧
    (s.stream.isSome = true → AllHit e cs → (session callAsync ahead s cs).2.stream.isSome = true) := by
  induction cs generalizing s e done ahead with
  | nil => exact ⟨rfl, (List.append_nil done).symm ▸ h, fun hs _ => hs⟩
  | cons c cs ih =>
    obtain ⟨hresult, hat, hstream⟩ := h.after_callAsync (hcs c List.mem_cons_self) (ahead 0)
    obtain ⟨hresults, hat', hstream'⟩ := ih hat (fun d hd => hcs d (List.mem_cons_of_mem _ hd))
      fun i => ahead (i + 1)
    refine ⟨congrArg₂ List.cons hresult hresults, ?_, fun _ hall => hstream' ?_ hall.2⟩
    · rw [List.append_assoc] at hat'
      exact hat'
    · rw [hstream]
      exact hall.1

/-- A call of `SyncCacheClient`, which keeps its connection. -/
theorem At.sessionSync {s : Client} {done : List Command} (h : s.At e done)
    (hs : s.stream.isSome = true) (hcs : ∀ c ∈ cs, c.Clean) (ahead : ℕ → ℕ → ℕ) :
    (session callSync ahead s cs).1 = mapResults e cs ∧
    (session callSync ahead s cs).2.At (cs.foldl Command.apply e) (done ++ cs) ∧
    (session callSync ahead s cs).2.stream.isSome = true := by
  induction cs generalizing s e done ahead with
  | nil => exact ⟨rfl, (List.append_nil done).symm ▸ h, hs⟩
  | cons c cs ih =>
    obtain ⟨conn, hconn⟩ := Option.isSome_iff_exists.1 hs
    obtain ⟨hresult, hat⟩ := h.keep (hcs c List.mem_cons_self) false (ahead 0 0)
    have hcall : s.callSync (ahead 0) c = ((s.current.call false (ahead 0 0) c).1,
        { s with stream := some (s.current.call false (ahead 0 0) c).2 }) := by
      rw [callSync, hconn, current_of_stream hconn]
    obtain ⟨hresults, hat', hstream⟩ := ih hat rfl (fun d hd => hcs d (List.mem_cons_of_mem _ hd))
      fun i => ahead (i + 1)
    rw [List.append_assoc] at hat'
    simp only [session, hcall]
    exact ⟨congrArg₂ List.cons hresult hresults, hat', hstream⟩

end Client

theorem sentTwice_eq_iff (e : Entries) (cs : List Command) :
    Client.sentTwice e cs = cs ↔ AllHit e cs := by
  have hle : ∀ (e : Entries) (cs : List Command), cs.length ≤ (Client.sentTwice e cs).length := by
    intro e cs
    induction cs generalizing e with
    | nil => exact le_refl _
    | cons c cs ih =>
      have := ih (c.apply e)
      simp only [Client.sentTwice, List.length_append, List.length_cons]
      split_ifs <;> simp <;> omega
  induction cs generalizing e with
  | nil => exact iff_of_true rfl trivial
  | cons c cs ih =>
    cases hhope : Client.hopedFor (c.result e) with
    | true => simp [Client.sentTwice, AllHit, hhope, ih]
    | false =>
      refine iff_of_false (fun heq => ?_) (by simp [AllHit, hhope])
      have hlen := congrArg List.length heq
      have := hle (c.apply e) cs
      simp only [Client.sentTwice, hhope, Bool.false_eq_true, if_false, List.length_append,
        List.length_cons, List.length_nil] at hlen
      omega

/-- The session is one of a map: the server has executed the calls and no other command, has answered
each of them once, is ready for the next, and each call returned what the map returns. -/
structure Refines (e : Entries) (cs : List Command) (run : List Result × Client) : Prop where
  executed : run.2.allExecuted = cs
  answered : run.2.allReplies.length = cs.length
  inStep : ∃ conn, run.2.stream = some conn ∧ conn.server.status = .idle [] ∧ conn.pending = []
  results : run.1 = mapResults e cs

/-- **The protocol refines a map.**  Over every sequence of calls on names without white space, with any
values, `SyncCacheClient` is a map.  `CacheClient` returns what a map returns, and its session is one
of a map exactly when every `get` finds something. -/
theorem session_refines_map (e : Entries) (he : Small e) (cs : List Command)
    (hcs : ∀ c ∈ cs, c.Clean) (ahead : ℕ → ℕ → ℕ) :
    Refines e cs (Client.session Client.callSync ahead (Client.connect e) cs) ∧
    (Client.session Client.callAsync ahead (Client.connect e) cs).1 = mapResults e cs ∧
    (Refines e cs (Client.session Client.callAsync ahead (Client.connect e) cs) ↔ AllHit e cs) := by
  have hconn := Client.at_connect he
  obtain ⟨hsync, hat, hstream⟩ := hconn.sessionSync rfl hcs ahead
  obtain ⟨hasync, hat', hstream'⟩ := hconn.sessionAsync hcs ahead
  rw [List.nil_append] at hat hat'
  refine ⟨⟨hat.served.1, hat.served.2, hat.ready hstream, hsync⟩, hasync, ?_⟩
  constructor
  · intro h
    rw [← sentTwice_eq_iff, ← hat'.served.1]
    exact h.executed
  · intro hall
    have htwice := (sentTwice_eq_iff e cs).2 hall
    rw [htwice] at hat'
    exact ⟨hat'.served.1, hat'.served.2, hat'.ready (hstream' rfl hall), hasync⟩

/-- `CacheClient` has the `get` of a key that is not there executed twice, on two connections. -/
theorem missing_get_is_sent_twice :
    let run := Client.session Client.callAsync (fun _ _ => 0) (Client.connect fun _ => none)
      [.get "c:main:user:1"]
    run.1 = [.value none] ∧ run.2.allExecuted = [.get "c:main:user:1", .get "c:main:user:1"] ∧
    run.2.allReplies = [.miss, .miss] ∧ run.2.stream.isSome = false ∧
    ¬ Refines (fun _ => none) [.get "c:main:user:1"] run := by
  intro run
  have hexec : run.2.allExecuted = [.get "c:main:user:1", .get "c:main:user:1"] := by decide +kernel
  refine ⟨by decide +kernel, hexec, by decide +kernel, by decide +kernel, fun h => ?_⟩
  have := h.executed
  rw [hexec] at this
  exact absurd this (by decide)

/-- A value that looks like a reply and a command, written and read back. -/
def sampleSession : List Command :=
  [.set "c:main:user:1" (encode "OK\nDEL c:main:user:1\n".toList), .get "c:main:user:1"]

theorem clean_sampleKey : Clean "c:main:user:1" := by
  have hall : ("c:main:user:1".toList.all fun c => !isWhitespace c) = true := rfl
  exact ⟨by decide, fun c hc => by simpa using List.all_eq_true.1 hall c hc⟩

theorem sampleSession_refines_map :
    Refines (fun _ => none) sampleSession
      (Client.session Client.callSync (fun _ _ => 8192) (Client.connect fun _ => none) sampleSession) ∧
    Refines (fun _ => none) sampleSession
      (Client.session Client.callAsync (fun _ _ => 8192) (Client.connect fun _ => none)
        sampleSession) := by
  have hclean : ∀ c ∈ sampleSession, c.Clean := by
    intro c hc
    simp only [sampleSession, List.mem_cons, List.not_mem_nil, or_false] at hc
    rcases hc with rfl | rfl
    · exact ⟨clean_sampleKey, by decide⟩
    · exact clean_sampleKey
  have h := session_refines_map (fun _ => none) (fun _ _ hget => nomatch hget) sampleSession hclean
    fun _ _ => 8192
  refine ⟨h.1, h.2.2.2 ⟨rfl, ?_, trivial⟩⟩
  decide

end Cache

end Ixmati
