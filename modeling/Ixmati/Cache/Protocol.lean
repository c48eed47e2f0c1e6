import Mathlib.Logic.Function.Basic
import Ixmati.Core.Envelope
import Ixmati.Lib.Text

/-!
# The cache protocol

The text protocol between the clients of `ixmati-cache` and `CacheServer`, byte by byte.  A client
sends a line with a command, and after the line of a `SET` the value and one more byte; the server
reads lines with `handle_client`, and `process_command` takes a line apart with `strip_prefix`,
`trim` and `splitn`.

What the server does with some bytes is said by one `turn` of its loop at a time; `serve` runs the
loop until it waits for more.  The entries are those of `RedbCacheBackend`, without the namespace
`cache:` that all its keys begin with, and its writes are taken to succeed, as are those to the
socket.  `SyncCacheClient` sends a request once.  `CacheClient` sends it again on a new connection
if the first reply is not the one that it hopes for, and to a `GET` that is only `HIT`.

* `serve_of_turn` : the loop, one turn at a time;
* `serveLoop_eq_of_lt` : the number of turns is bounded by the length of the input;
* `serve_request` : what becomes of a request whose names do not interfere with the protocol;
* `wellFormed_of_executed` : the server executes commands on such names only.
-/

namespace Ixmati

namespace Cache

/-! ### Commands -/

/-- The entries of the cache, by key. -/
abbrev Entries := String → Option Bytes

/-- A command that the server executes. -/
inductive Command where
  | get (key : String)
  | set (key : String) (value : Bytes)
  | del (key : String)
  | delPrefix (start : String)
  | flush
  deriving DecidableEq

/-- What the server answers. -/
inductive Reply where
  | hit (payload : Bytes)
  | miss
  | ok
  | err (message : String)
  deriving DecidableEq

namespace Command

/-- The effect on the entries.  `flush` of `RedbCacheBackend` is empty. -/
def apply (e : Entries) : Command → Entries
  | .get _ => e
  | .set key value => Function.update e key (some value)
  | .del key => Function.update e key none
  | .delPrefix start => fun key => if start.toList.isPrefixOf key.toList then none else e key
  | .flush => e

/-- The answer of `process_command`. -/
def reply (e : Entries) : Command → Reply
  | .get key =>
    match e key with
    | some payload => .hit payload
    | none => .miss
  | _ => .ok

theorem reply_get (e : Entries) (key : String) :
    (Command.get key).reply e = (e key).elim .miss .hit := by
  cases h : e key <;> simp [reply, h]

/-- The keys that a command is about. -/
def Names : Command → String → Prop
  | .get key, k => k = key
  | .set key _, k => k = key
  | .del key, k => k = key
  | .delPrefix start, k => start.toList <+: k.toList
  | .flush, _ => False

/-- The other entries stay as they are. -/
theorem apply_of_not_names {c : Command} {k : String} (e : Entries) (h : ¬ c.Names k) :
    c.apply e k = e k := by
  cases c with
  | get key => rfl
  | set key value => exact Function.update_of_ne h _ _
  | del key => exact Function.update_of_ne h _ _
  | delPrefix start =>
    have hpre : start.toList.isPrefixOf k.toList = false := by
      rw [Bool.eq_false_iff]
      exact fun hpre => h (List.isPrefixOf_iff_prefix.1 hpre)
    simp [apply, hpre]
  | flush => rfl

end Command

/-! ### The server -/

/-- A line as `process_command` takes it apart. -/
inductive Parsed where
  | command (c : Command)
  | setHeader (key : String) (len : ℕ)
  | invalid (message : String)
  deriving DecidableEq

/-- The cases of `process_command`, on a trimmed line. -/
def parse (line : List Char) : Parsed :=
  match stripPrefix "GET " line with
  | some key => .command (.get (String.ofList (trim key)))
  | none =>
    match stripPrefix "SET " line with
    | some rest =>
      match splitOnce ' ' rest with
      | none => .invalid "ERR invalid SET"
      | some (key, len) =>
        match parseUsize len with
        | none => .invalid "ERR invalid length"
        | some len => .setHeader (String.ofList key) len
    | none =>
      match stripPrefix "DEL " line with
      | some key => .command (.del (String.ofList (trim key)))
      | none =>
        match stripPrefix "DEL_PREFIX " line with
        | some start => .command (.delPrefix (String.ofList (trim start)))
        | none =>
          if trim line = "FLUSH".toList then .command .flush else .invalid "ERR unknown command"

/-- How a connection stands when all that has arrived is used up. -/
inductive Status where
  /-- The server waits for a line, of which `input` has arrived. -/
  | idle (input : Bytes)
  /-- The server waits in the `read_exact` of a `SET`. -/
  | waiting
  | closed
  deriving DecidableEq

/-- What one turn of the loop of `handle_client` comes to. -/
inductive Turn where
  | stop (status : Status)
  | skip (rest : Bytes)
  | answer (reply : Reply) (rest : Bytes)
  | run (c : Command) (rest : Bytes)
  deriving DecidableEq

/-- `read_line`: the last line may lack its line break when the client has closed (`eof`). -/
def readLine (eof : Bool) (input : Bytes) : Option (Bytes × Bytes) :=
  match takeLine input with
  | some p => some p
  | none => if eof && !input.isEmpty then some (input, []) else none

/-- The `read_exact` calls of a `SET`: the payload, and one byte whatever it is, which may be
missing when the client has closed.  A length from `2 ^ 63` on makes `vec!` panic. -/
def readPayload (eof : Bool) (key : String) (len : ℕ) (rest : Bytes) : Turn :=
  if 2 ^ 63 ≤ len then .stop .closed
  else if rest.length < len then .stop (if eof then .closed else .waiting)
  else if rest.length = len ∧ eof = false then .stop .waiting
  else .run (.set key (rest.take len)) (rest.drop (len + 1))

/-- One turn of the loop of `handle_client`. -/
def turn (eof : Bool) (input : Bytes) : Turn :=
  match readLine eof input with
  | none => .stop (if eof then .closed else .idle input)
  | some (line, rest) =>
    match decode line with
    | none => .stop .closed
    | some header =>
      if trim header = [] then .skip rest
      else
        match parse (trim header) with
        | .command c => .run c rest
        | .invalid message => .answer (.err message) rest
        | .setHeader key len => readPayload eof key len rest

/-- What came of some bytes. -/
structure Outcome where
  entries : Entries
  executed : List Command
  replies : List Reply
  status : Status

/-- The outcome with a command before it. -/
def Outcome.after (c : Command) (r : Reply) (o : Outcome) : Outcome :=
  { o with executed := c :: o.executed, replies := r :: o.replies }

/-- The loop of `handle_client`, for at most the given number of turns. -/
def serveLoop (eof : Bool) : ℕ → Entries → Bytes → Outcome
  | 0, e, input => ⟨e, [], [], if eof then .closed else .idle input⟩
  | n + 1, e, input =>
    match turn eof input with
    | .stop status => ⟨e, [], [], status⟩
    | .skip rest => serveLoop eof n e rest
    | .answer r rest =>
      let o := serveLoop eof n e rest
      { o with replies := r :: o.replies }
    | .run c rest => (serveLoop eof n (c.apply e) rest).after c (c.reply e)

/-- `handle_client` on the bytes of a connection. -/
def serve (eof : Bool) (e : Entries) (input : Bytes) : Outcome :=
  serveLoop eof (input.length + 1) e input

/-! ### The clients -/

namespace Command

/-- The bytes of one request. -/
def request : Command → Bytes
  | .get key => encode ("GET " ++ key ++ "\n").toList
  | .set key value =>
    encode ("SET " ++ key ++ " " ++ toString value.length ++ "\n").toList ++ value ++ [10]
  | .del key => encode ("DEL " ++ key ++ "\n").toList
  | .delPrefix start => encode ("DEL_PREFIX " ++ start ++ "\n").toList
  | .flush => encode "FLUSH\n".toList

/-- The reply that a call takes for a success. -/
def accepts : Command → Reply → Bool
  | .get _, .hit _ => true
  | .get _, _ => false
  | _, r => r == .ok

/-- A client looks at the first reply only. -/
def accepted (c : Command) (replies : List Reply) : Bool := (replies.head?.map c.accepts).getD false

/-- One round of the loop of `CacheClient`: the connection is dropped after a failure. -/
def attempt (e : Entries) (c : Command) : Outcome :=
  if c.accepted (serve false e c.request).replies then serve false e c.request
  else serve true e c.request

/-- `CacheClient`: after a failure, the request is sent again on a new connection. -/
def sendAsync (e : Entries) (c : Command) : Outcome :=
  let first := attempt e c
  if c.accepted (serve false e c.request).replies then first
  else
    let second := attempt first.entries c
    { second with
      executed := first.executed ++ second.executed
      replies := first.replies ++ second.replies }

/-- What a `get` takes from the first reply. -/
def found (replies : List Reply) : Option Bytes :=
  match replies.head? with
  | some (.hit payload) => some payload
  | _ => none

/-- `get_raw` of `CacheClient`: when the first round finds nothing, the request is sent again on a new
connection. -/
def getResult (e : Entries) (c : Command) : Option Bytes :=
  (found (serve false e c.request).replies).or
    (found (serve false (attempt e c).entries c.request).replies)

end Command

/-- What a cache key is built from. -/
inductive Name where
  | entity (store entity key : String)
  | projection (name key : String)
  deriving DecidableEq

/-- `cache_key` and `projection_key`. -/
def Name.toKey : Name → String
  | .entity s e k => "c:" ++ s ++ ":" ++ e ++ ":" ++ k
  | .projection n k => "p:" ++ n ++ ":" ++ k

/-- A call of one of the clients with a name, from which it builds the key. -/
inductive Call where
  | get (name : Name)
  | set (name : Name) (value : Bytes)
  | del (name : Name)
  | deleteByPrefix (start : String)

namespace Call

/-- The command that a call stands for. -/
def command : Call → Command
  | .get name => .get name.toKey
  | .set name value => .set name.toKey value
  | .del name => .del name.toKey
  | .deleteByPrefix start => .delPrefix start

/-- The bytes of one request. -/
def request (c : Call) : Bytes := c.command.request

/-- A client looks at the first reply only. -/
def accepted (c : Call) (replies : List Reply) : Bool := c.command.accepted replies

/-- `SyncCacheClient`: one request on the connection it has. -/
def sendSync (e : Entries) (c : Call) : Outcome := serve false e c.request

/-- `CacheClient`: two requests at most. -/
def sendAsync (e : Entries) (c : Call) : Outcome := c.command.sendAsync e

/-- What a `get` of `CacheClient` returns. -/
def getResult (e : Entries) (c : Call) : Option Bytes := c.command.getResult e

end Call

/-! ### The loop -/

section Loop

variable {eof : Bool} {input : Bytes} {e : Entries} {n : ℕ}

/-- What is left after a turn is shorter than what there was. -/
theorem length_of_readLine {line rest : Bytes} (h : readLine eof input = some (line, rest)) :
    rest.length < input.length := by
  unfold readLine at h
  split at h
  · rename_i p hp
    cases h
    exact length_of_takeLine hp
  · split_ifs at h with hlast
    cases h
    simp only [Bool.and_eq_true, Bool.not_eq_true', List.isEmpty_eq_false_iff] at hlast
    exact List.length_pos_iff.2 hlast.2

/-- The bytes after a turn, if there is a next one. -/
def Turn.rest? : Turn → Option Bytes
  | .stop _ => none
  | .skip rest => some rest
  | .answer _ rest => some rest
  | .run _ rest => some rest

theorem length_of_turn {rest : Bytes} (h : (turn eof input).rest? = some rest) :
    rest.length < input.length := by
  unfold turn at h
  split at h
  · cases h
  · rename_i line tail hline
    have hlt := length_of_readLine hline
    split at h
    · cases h
    · split_ifs at h
      · cases h
        exact hlt
      · split at h
        · cases h
          exact hlt
        · cases h
          exact hlt
        · -- only a `SET` takes more than its line
          unfold readPayload at h
          split_ifs at h <;> cases h
          rw [List.length_drop]
          omega

/-- More turns than there are bytes change nothing. -/
theorem serveLoop_eq_of_lt {m : ℕ} (hn : input.length < n) (hm : input.length < m) :
    serveLoop eof n e input = serveLoop eof m e input := by
  induction n generalizing m e input with
  | zero => omega
  | succ n ih =>
    obtain ⟨m, rfl⟩ : ∃ k, m = k + 1 := ⟨m - 1, by omega⟩
    have hrest : ∀ (rest : Bytes) (e : Entries), (turn eof input).rest? = some rest →
        serveLoop eof n e rest = serveLoop eof m e rest := by
      intro rest e hturn
      have := length_of_turn hturn
      exact ih (by omega) (by omega)
    simp only [serveLoop]
    cases hturn : turn eof input with
    | stop status => rfl
    | skip rest => exact hrest rest e (by rw [hturn]; rfl)
    | answer r rest => simp only [hrest rest e (by rw [hturn]; rfl)]
    | run c rest => simp only [hrest rest (c.apply e) (by rw [hturn]; rfl)]

/-- A command at the front of the input is executed, and the rest is served after it. -/
theorem serve_of_turn {c : Command} {rest : Bytes} (h : turn eof input = .run c rest) :
    serve eof e input = (serve eof (c.apply e) rest).after c (c.reply e) := by
  have hlt : rest.length < input.length := length_of_turn (by rw [h]; rfl)
  rw [serve, serveLoop, h]
  simp only
  rw [serve, serveLoop_eq_of_lt hlt (Nat.lt_succ_self _)]

theorem serve_nil (e : Entries) :
    serve eof e [] = ⟨e, [], [], if eof then .closed else .idle []⟩ := by
  simp [serve, serveLoop, turn, readLine, takeLine]

end Loop

/-! ### Names that do not interfere -/

/-- A text that a line can carry after its command: `trim` leaves it as it is. -/
def Token (cs : List Char) : Prop :=
  cs ≠ [] ∧ '\n' ∉ cs ∧ Trimmed cs

/-- A text that can stand between two spaces of a line. -/
def Word (cs : List Char) : Prop := ' ' ∉ cs ∧ '\n' ∉ cs

instance (cs : List Char) : Decidable (Token cs) := inferInstanceAs (Decidable (_ ∧ _))

instance (cs : List Char) : Decidable (Word cs) := inferInstanceAs (Decidable (_ ∧ _))

/-- The names in a command do not interfere with the protocol, and its value has a length that a
slice of Rust can have. -/
def Command.WellFormed : Command → Prop
  | .get key => Token key.toList
  | .set key value => Word key.toList ∧ value.length < 2 ^ 63
  | .del key => Token key.toList
  | .delPrefix start => Token start.toList
  | .flush => True

instance : DecidablePred Command.WellFormed
  | .get key => inferInstanceAs (Decidable (Token key.toList))
  | .set _ _ => inferInstanceAs (Decidable (_ ∧ _))
  | .del key => inferInstanceAs (Decidable (Token key.toList))
  | .delPrefix start => inferInstanceAs (Decidable (Token start.toList))
  | .flush => inferInstanceAs (Decidable True)

/-! ### What is executed is well formed -/

section Executed

variable {eof : Bool} {input : Bytes} {header : List Char}

theorem not_mem_of_readLine {line rest : Bytes} (h : readLine eof input = some (line, rest))
    (hdec : decode line = some header) : '\n' ∉ header := by
  unfold readLine at h
  split at h
  · rename_i p hp
    cases h
    exact not_mem_of_takeLine hp hdec
  · rename_i hnone
    split_ifs at h
    cases h
    rw [← ten_mem_encode, encode_of_decode hdec]
    exact takeLine_eq_none hnone

/-- What follows the command of a trimmed line, trimmed again. -/
theorem token_of_stripPrefix {p : String} {key : List Char} (hp : p.toList.getLast? = some ' ')
    (hbreak : '\n' ∉ header) (h : stripPrefix p (trim header) = some key) : Token (trim key) := by
  have hline := stripPrefix_eq_some h
  have hsub : trim key ⊆ header := by
    intro c hc
    refine trim_subset header ?_
    rw [hline]
    exact List.mem_append_right _ (trim_subset key hc)
  have hend : ∀ c, (trim header).getLast? = some c → isWhitespace c = false := by
    intro c hc
    have hlast := (trimmed_trim header).2
    rwa [hc] at hlast
  -- the line does not end with the space of the command, so something follows it
  have hne : trim key ≠ [] := by
    cases hlast : key.getLast? with
    | none =>
      rw [List.getLast?_eq_none_iff] at hlast
      rw [hlast, List.append_nil] at hline
      have := hend ' ' (hline ▸ hp)
      simp [isWhitespace] at this
    | some c =>
      refine trim_ne_nil (List.mem_of_getLast? hlast) (hend c ?_)
      rw [hline, List.getLast?_append, hlast]
      rfl
  exact ⟨hne, fun hmem => hbreak (hsub hmem), trimmed_trim key⟩

theorem wellFormed_of_parse {c : Command} (hbreak : '\n' ∉ header)
    (h : parse (trim header) = .command c) : c.WellFormed := by
  unfold parse at h
  split at h
  · rename_i key hkey
    cases h
    simpa [Command.WellFormed] using token_of_stripPrefix (by decide) hbreak hkey
  split at h
  · split at h
    · cases h
    · split at h <;> cases h
  split at h
  · rename_i key hkey
    cases h
    simpa [Command.WellFormed] using token_of_stripPrefix (by decide) hbreak hkey
  split at h
  · rename_i start hstart
    cases h
    simpa [Command.WellFormed] using token_of_stripPrefix (by decide) hbreak hstart
  split_ifs at h
  cases h
  trivial

theorem word_of_parse {key : String} {len : ℕ} (hbreak : '\n' ∉ header)
    (h : parse (trim header) = .setHeader key len) : Word key.toList := by
  unfold parse at h
  split at h
  · cases h
  split at h
  · rename_i rest hrest
    split at h
    · cases h
    · rename_i front back hsplit
      split at h
      · cases h
      · cases h
        obtain ⟨rfl, hspace⟩ := splitOnce_eq_some hsplit
        have hline := stripPrefix_eq_some hrest
        refine ⟨by simpa using hspace, fun hmem => hbreak (trim_subset header ?_)⟩
        rw [hline]
        simp at hmem
        simp [hmem]
  split at h
  · cases h
  split at h
  · cases h
  split_ifs at h

/-- A turn executes commands on names that do not interfere only. -/
theorem wellFormed_of_turn {c : Command} {rest : Bytes} (h : turn eof input = .run c rest) :
    c.WellFormed := by
  unfold turn at h
  split at h
  · cases h
  rename_i line tail hline
  split at h
  · cases h
  rename_i header hdec
  have hbreak := not_mem_of_readLine hline hdec
  split_ifs at h
  split at h
  · rename_i hparse
    cases h
    exact wellFormed_of_parse hbreak hparse
  · cases h
  · rename_i key len hparse
    unfold readPayload at h
    split_ifs at h with hlen
    cases h
    refine ⟨word_of_parse hbreak hparse, ?_⟩
    rw [List.length_take]
    omega

/-- Whatever the bytes, the server executes commands on names that do not interfere only. -/
theorem wellFormed_of_executed {e : Entries} {c : Command}
    (h : c ∈ (serve eof e input).executed) : c.WellFormed := by
  unfold serve at h
  generalize input.length + 1 = n at h
  induction n generalizing e input with
  | zero => cases h
  | succ n ih =>
    rw [serveLoop] at h
    split at h
    · cases h
    · exact ih h
    · exact ih h
    · rename_i d rest hturn
      rcases List.mem_cons.1 h with rfl | hmem
      · exact wellFormed_of_turn hturn
      · exact ih hmem

end Executed

/-! ### What becomes of a request -/

section Request

variable {eof : Bool} {cs : List Char}

/-- A line of the protocol at the front of the input is parsed. -/
theorem turn_of_line {rest : Bytes} (hbreak : '\n' ∉ cs) (htrim : Trimmed cs) (hne : cs ≠ []) :
    turn eof (encode cs ++ 10 :: rest) =
      match parse cs with
      | .command c => .run c rest
      | .invalid message => .answer (.err message) rest
      | .setHeader key len => readPayload eof key len rest := by
  unfold turn readLine
  simp only [takeLine_encode hbreak, decode_encode, htrim.trim_eq, if_neg hne]

theorem parse_get (h : Token cs) :
    parse ("GET ".toList ++ cs) = .command (.get (String.ofList cs)) := by
  rw [parse, stripPrefix_append]
  simp only [h.2.2.trim_eq]

theorem parse_set {len : ℕ} (h : Word cs) (hlen : len < 2 ^ 64) :
    parse ("SET ".toList ++ (cs ++ ' ' :: (toString len).toList)) =
      .setHeader (String.ofList cs) len := by
  have hget : stripPrefix "GET " ("SET ".toList ++ (cs ++ ' ' :: (toString len).toList)) = none := rfl
  rw [parse, hget, stripPrefix_append]
  simp only [splitOnce_append h.1, parseUsize_repr hlen]

theorem parse_del (h : Token cs) :
    parse ("DEL ".toList ++ cs) = .command (.del (String.ofList cs)) := by
  have hget : stripPrefix "GET " ("DEL ".toList ++ cs) = none := rfl
  have hset : stripPrefix "SET " ("DEL ".toList ++ cs) = none := rfl
  rw [parse, hget, hset, stripPrefix_append]
  simp only [h.2.2.trim_eq]

theorem parse_delPrefix (h : Token cs) :
    parse ("DEL_PREFIX ".toList ++ cs) = .command (.delPrefix (String.ofList cs)) := by
  have hget : stripPrefix "GET " ("DEL_PREFIX ".toList ++ cs) = none := rfl
  have hset : stripPrefix "SET " ("DEL_PREFIX ".toList ++ cs) = none := rfl
  have hdel : stripPrefix "DEL " ("DEL_PREFIX ".toList ++ cs) = none := rfl
  rw [parse, hget, hset, hdel, stripPrefix_append]
  simp only [h.2.2.trim_eq]

/-- A line of a command and a token is one command. -/
theorem turn_of_token {p : String} {k : String} {c : Command} (h : Token k.toList)
    (hp : Token p.toList.dropLast) (hlast : p.toList = p.toList.dropLast ++ [' '])
    (hparse : parse (p.toList ++ k.toList) = .command c) (rest : Bytes) :
    turn eof (encode (p ++ k ++ "\n").toList ++ rest) = .run c rest := by
  have hne : p.toList ≠ [] := by
    rw [hlast]
    simp
  have hhead : p.toList.head?.any isWhitespace = false := by
    rw [hlast, List.head?_append_of_ne_nil _ hp.1]
    exact hp.2.2.1
  have hbreak : '\n' ∉ p.toList ++ k.toList := by
    rw [hlast]
    simp [hp.2.1, h.2.1]
  have hbytes : encode (p ++ k ++ "\n").toList ++ rest =
      encode (p.toList ++ k.toList) ++ 10 :: rest := by
    rw [String.toList_append, String.toList_append, encode_append, List.append_assoc]
    rfl
  rw [hbytes, turn_of_line hbreak (.append hhead hne h.1 h.2.2.2) (by simp [h.1]), hparse]

/-- The line of a `SET` and the value after it are one command. -/
theorem turn_of_word {k : String} {value : Bytes} (hlen : value.length < 2 ^ 63)
    (h : Word k.toList) (rest : Bytes) :
    turn eof (encode ("SET " ++ k ++ " " ++ toString value.length ++ "\n").toList ++ value ++ [10] ++
      rest) = .run (.set k value) rest := by
  set digits := (toString value.length).toList with hdigits
  have hdigit : ∀ c ∈ digits, isWhitespace c = false := by
    intro c hc
    exact isWhitespace_of_isDigit (isDigit_of_mem_repr hc)
  have hbreak : '\n' ∉ "SET ".toList ++ (k.toList ++ ' ' :: digits) := by
    have hnot : '\n' ∉ digits := fun hmem => absurd (hdigit _ hmem) (by decide)
    simp [h.2, hnot]
  have hbytes : encode ("SET " ++ k ++ " " ++ toString value.length ++ "\n").toList ++ value ++ [10] ++
      rest = encode ("SET ".toList ++ (k.toList ++ ' ' :: digits)) ++ 10 :: (value ++ 10 :: rest) := by
    have hline : ("SET " ++ k ++ " " ++ toString value.length ++ "\n").toList =
        ("SET ".toList ++ (k.toList ++ ' ' :: digits)) ++ ['\n'] := by
      simp [hdigits]
    rw [hline, encode_append]
    simp only [List.append_assoc]
    rfl
  have htrim : Trimmed ("SET ".toList ++ (k.toList ++ ' ' :: digits)) := by
    refine .append (by decide) (by decide) (by simp) ?_
    rw [List.getLast?_append_of_ne_nil _ (by simp), List.getLast?_cons_of_ne_nil (repr_ne_nil _)]
    cases hlast : digits.getLast? with
    | none => rfl
    | some c => exact hdigit c (List.mem_of_getLast? hlast)
  rw [hbytes, turn_of_line hbreak htrim (by simp), parse_set h (by omega)]
  simp only [readPayload]
  rw [if_neg (by omega), if_neg (by simp), if_neg (by simp)]
  simp

/-- **A request whose names do not interfere is one command**, whatever comes after it. -/
theorem turn_request {c : Command} (h : c.WellFormed) (rest : Bytes) :
    turn eof (c.request ++ rest) = .run c rest := by
  cases c with
  | get key =>
    refine turn_of_token h (by decide) (by decide) ?_ rest
    rw [parse_get h, String.ofList_toList]
  | set key value => exact turn_of_word h.2 h.1 rest
  | del key =>
    refine turn_of_token h (by decide) (by decide) ?_ rest
    rw [parse_del h, String.ofList_toList]
  | delPrefix start =>
    refine turn_of_token h (by decide) (by decide) ?_ rest
    rw [parse_delPrefix h, String.ofList_toList]
  | flush => exact @turn_of_line eof "FLUSH".toList rest (by decide) (by decide) (by decide)

/-- Such a request is executed, answered once, and leaves the server ready for the next. -/
theorem Command.serve_request {c : Command} (e : Entries) (h : c.WellFormed) :
    serve eof e c.request = ⟨c.apply e, [c], [c.reply e], if eof then .closed else .idle []⟩ := by
  have hturn : turn eof (c.request ++ []) = .run c [] := turn_request h []
  rw [List.append_nil] at hturn
  rw [serve_of_turn hturn, serve_nil]
  rfl

theorem serve_request {c : Call} (e : Entries) (h : c.command.WellFormed) :
    serve eof e c.request =
      ⟨c.command.apply e, [c.command], [c.command.reply e], if eof then .closed else .idle []⟩ :=
  c.command.serve_request e h

end Request

end Cache

end Ixmati
