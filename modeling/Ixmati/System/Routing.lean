import Ixmati.Core.Config
import Ixmati.Lib.Topic
import Ixmati.System.Step

/-!
# Who receives what over the broker

All parties talk over topics: the API publishes commands and queries of its caches, the writers
publish events, a responder of the caches answers.  A party receives what matches the filter it
subscribed to.

* `Routing.receives_writer_iff`, `Routing.receives_projector_iff`,
  `Routing.receives_cacheResponder_iff`, `Routing.receives_cacheProxy_iff` : what each party receives,
  whatever strings stand in the topics;
* `Routing.exclusive_iff` : when the commands of a deployment reach the writer of their store alone;
* `Routing.mem_delivered_iff` : the writer of `System` gets what the broker sends it.
-/

namespace Ixmati

namespace Routing

/-- What is published. -/
inductive Message where
  /-- By `submit_write`. -/
  | command (store entity key : String)
  /-- By `publish_unpublished`. -/
  | event (store entity key : String)
  /-- By `CacheMqttProxy::query`. -/
  | query (store entity key : String)
  /-- By the responder of the caches. -/
  | response (correlationId : String)

/-- The topic of a message. -/
def Message.topic : Message → String
  | .command store entity key => "ixmati/cmd/" ++ store ++ "/" ++ entity ++ "/" ++ key
  | .event store entity key => "ixmati/evt/" ++ store ++ "/" ++ entity ++ "/" ++ key
  | .query store entity key => "ixmati/qry/" ++ store ++ "/" ++ entity ++ "/" ++ key
  | .response correlationId => "ixmati/qry-resp/" ++ correlationId

/-- Who subscribes. -/
inductive Subscriber where
  | writer (store : String)
  | projector
  | cacheResponder
  | cacheProxy

/-- What a party subscribes to. -/
def Subscriber.filter : Subscriber → String
  | .writer store => "ixmati/cmd/" ++ store ++ "/#"
  | .projector => "ixmati/evt/#"
  | .cacheResponder => "ixmati/qry/#"
  | .cacheProxy => "ixmati/qry-resp/#"

/-- The levels of a text. -/
def levels (text : String) : List Topic.Level := Topic.levels text.toList

/-- The broker sends the message to the party. -/
def Receives (subscriber : Subscriber) (message : Message) : Prop :=
  Topic.Matches (levels subscriber.filter) (levels message.topic)

instance (subscriber : Subscriber) (message : Message) : Decidable (Receives subscriber message) :=
  inferInstanceAs (Decidable (Topic.Matches _ _))

/-- A store name that is one level of a topic and no wildcard. -/
structure Plain (store : String) : Prop where
  slash : '/' ∉ store.toList
  wildcard : ¬ Topic.IsWildcard store.toList

/-- The store is the given one, or continues it after a slash. -/
def Under (store name : String) : Prop :=
  store = name ∨ ∃ back, store.toList = name.toList ++ '/' :: back

/-! ### Levels -/

/-- The second level of a topic. -/
def Message.family : Message → String
  | .command .. => "cmd"
  | .event .. => "evt"
  | .query .. => "qry"
  | .response .. => "qry-resp"

/-- The levels after the second. -/
def Message.tail : Message → List Topic.Level
  | .command store entity key => levels store ++ (levels entity ++ levels key)
  | .event store entity key => levels store ++ (levels entity ++ levels key)
  | .query store entity key => levels store ++ (levels entity ++ levels key)
  | .response correlationId => levels correlationId

section Levels

variable {m : Message} {store name : String}

theorem levels_append_slash {a b : String} : levels (a ++ "/" ++ b) = levels a ++ levels b := by
  rw [levels, String.toList_append, String.toList_append, List.append_assoc]
  exact Topic.levels_slash a.toList b.toList

/-- The levels of what starts with two levels. -/
theorem levels_front {front first second rest : String} (hfront : front = first ++ "/" ++ second ++ "/")
    (hfirst : '/' ∉ first.toList) (hsecond : '/' ∉ second.toList) :
    levels (front ++ rest) = first.toList :: second.toList :: levels rest := by
  rw [hfront, levels_append_slash, levels_append_slash, levels, levels,
    Topic.levels_of_not_mem hfirst, Topic.levels_of_not_mem hsecond]
  rfl

theorem levels_cmd (rest : String) :
    levels ("ixmati/cmd/" ++ rest) = "ixmati".toList :: "cmd".toList :: levels rest :=
  levels_front rfl (by decide) (by decide)

theorem levels_evt (rest : String) :
    levels ("ixmati/evt/" ++ rest) = "ixmati".toList :: "evt".toList :: levels rest :=
  levels_front rfl (by decide) (by decide)

theorem levels_qry (rest : String) :
    levels ("ixmati/qry/" ++ rest) = "ixmati".toList :: "qry".toList :: levels rest :=
  levels_front rfl (by decide) (by decide)

theorem levels_qryResp (rest : String) :
    levels ("ixmati/qry-resp/" ++ rest) = "ixmati".toList :: "qry-resp".toList :: levels rest :=
  levels_front rfl (by decide) (by decide)

theorem levels_topic (m : Message) :
    levels m.topic = "ixmati".toList :: m.family.toList :: m.tail := by
  cases m with
  | command store entity key =>
    change levels ("ixmati/cmd/" ++ store ++ "/" ++ entity ++ "/" ++ key) =
      _ :: _ :: (levels store ++ (levels entity ++ levels key))
    rw [levels_append_slash, levels_append_slash, levels_cmd, List.append_assoc]
    rfl
  | event store entity key =>
    change levels ("ixmati/evt/" ++ store ++ "/" ++ entity ++ "/" ++ key) =
      _ :: _ :: (levels store ++ (levels entity ++ levels key))
    rw [levels_append_slash, levels_append_slash, levels_evt, List.append_assoc]
    rfl
  | query store entity key =>
    change levels ("ixmati/qry/" ++ store ++ "/" ++ entity ++ "/" ++ key) =
      _ :: _ :: (levels store ++ (levels entity ++ levels key))
    rw [levels_append_slash, levels_append_slash, levels_qry, List.append_assoc]
    rfl
  | response correlationId => exact levels_qryResp correlationId

/-- A filter that starts with a family gets messages of this family only. -/
theorem matches_topic_iff {family : String} {filter : List Topic.Level}
    (hf : ¬ Topic.IsWildcard family.toList) :
    Topic.Matches ("ixmati".toList :: family.toList :: filter) (levels m.topic) ↔
      family = m.family ∧ Topic.Matches filter m.tail := by
  rw [levels_topic, Topic.matches_level_iff (by decide), Topic.matches_level_iff hf]
  simp [String.toList_inj]

theorem levels_hash : levels "#" = [['#']] := Topic.levels_of_not_mem (by decide)

theorem matches_hash (name : List Topic.Level) : Topic.Matches [['#']] name := .rest name

/-- The first level of a store is the name, exactly when the store is under the name. -/
theorem under_iff (hslash : '/' ∉ name.toList) :
    Under store name ↔ ∃ rest, levels store = name.toList :: rest := by
  rw [levels, Topic.levels_eq_cons_iff hslash, Under, String.toList_inj]

end Levels

/-! ### What each party receives -/

section Receives

variable {m : Message} {name : String}

theorem receives_projector_iff :
    Receives .projector m ↔ ∃ store entity key, m = .event store entity key := by
  rw [Receives, Subscriber.filter, show "ixmati/evt/#" = "ixmati/evt/" ++ "#" from rfl, levels_evt,
    matches_topic_iff (by decide)]
  cases m <;> simp [Message.family, levels_hash, matches_hash]

theorem receives_cacheResponder_iff :
    Receives .cacheResponder m ↔ ∃ store entity key, m = .query store entity key := by
  rw [Receives, Subscriber.filter, show "ixmati/qry/#" = "ixmati/qry/" ++ "#" from rfl, levels_qry,
    matches_topic_iff (by decide)]
  cases m <;> simp [Message.family, levels_hash, matches_hash]

theorem receives_cacheProxy_iff :
    Receives .cacheProxy m ↔ ∃ correlationId, m = .response correlationId := by
  rw [Receives, Subscriber.filter, show "ixmati/qry-resp/#" = "ixmati/qry-resp/" ++ "#" from rfl, levels_qryResp,
    matches_topic_iff (by decide)]
  cases m <;> simp [Message.family, levels_hash, matches_hash]

theorem levels_writer (hslash : '/' ∉ name.toList) :
    levels (Subscriber.writer name).filter =
      "ixmati".toList :: "cmd".toList :: ([name.toList] ++ [['#']]) := by
  rw [Subscriber.filter, show "ixmati/cmd/" ++ name ++ "/#" = "ixmati/cmd/" ++ name ++ ("/" ++ "#")
    from rfl, ← String.append_assoc, levels_append_slash, levels_cmd, levels_hash, levels,
    Topic.levels_of_not_mem hslash]
  rfl

/-- The writer of a plain name gets the commands of the stores under its name. -/
theorem receives_writer_iff (hname : Plain name) :
    Receives (.writer name) m ↔
      ∃ store entity key, m = .command store entity key ∧ Under store name := by
  rw [Receives, levels_writer hname.slash, matches_topic_iff (by decide),
    Topic.matches_append_iff (by simpa using hname.wildcard)]
  cases m with
  | command store entity key =>
    constructor
    · rintro ⟨-, rest, htail, -⟩
      refine ⟨store, entity, key, rfl, (under_iff hname.slash).2 ?_⟩
      cases hlevels : levels store with
      | nil => exact absurd hlevels (Topic.levels_ne_nil _)
      | cons l ls =>
        rw [Message.tail, hlevels] at htail
        exact ⟨ls, by rw [(List.cons.inj htail).1]⟩
    · rintro ⟨_, _, _, hm, hunder⟩
      cases hm
      obtain ⟨rest, hrest⟩ := (under_iff hname.slash).1 hunder
      exact ⟨rfl, rest ++ (levels entity ++ levels key), by rw [Message.tail, hrest]; rfl,
        matches_hash _⟩
  | event => simp [Message.family]
  | query => simp [Message.family]
  | response => simp [Message.family]

/-- A writer named like the wildcard gets all commands. -/
theorem receives_plus_iff :
    Receives (.writer "+") m ↔ ∃ store entity key, m = .command store entity key := by
  rw [Receives, levels_writer (by decide), matches_topic_iff (by decide)]
  cases m with
  | command store entity key =>
    simp only [Message.family, Message.tail, true_and, Message.command.injEq, exists_and_left,
      exists_eq', and_true, iff_true]
    cases hlevels : levels store with
    | nil => exact absurd hlevels (Topic.levels_ne_nil _)
    | cons l ls => exact .any l (.rest _)
  | event => simp [Message.family]
  | query => simp [Message.family]
  | response => simp [Message.family]

end Receives

/-! ### Deployments -/

section Deployment

variable {config : Config}

/-- The client library takes the filters of the writers: wildcards stand alone and `#` comes last. -/
def Subscribed (config : Config) : Prop :=
  ∀ store ∈ config.stores, Topic.WellFormed (levels (Subscriber.writer store.name).filter)

/-- No message reaches two writers. -/
def Exclusive (config : Config) : Prop :=
  ∀ m, ∀ writer ∈ config.stores, ∀ other ∈ config.stores,
    Receives (.writer writer.name) m → Receives (.writer other.name) m → writer = other

/-- A name without a slash whose filter is accepted is plain, or the wildcard for one level. -/
theorem plain_or_plus {name : String} (hslash : '/' ∉ name.toList)
    (hfilter : Topic.WellFormed (levels (Subscriber.writer name).filter)) :
    Plain name ∨ name = "+" := by
  rw [levels_writer hslash] at hfilter
  obtain ⟨-, -, -, -, -, hhash, -⟩ := hfilter
  by_cases hplus : name = "+"
  · exact Or.inr hplus
  · refine Or.inl ⟨hslash, ?_⟩
    rintro (h | h)
    · exact hplus (String.toList_inj.1 h)
    · exact absurd (hhash h) (List.cons_ne_nil _ _)

theorem slash_of_validate (hvalid : config.validate = .ok ()) {store : StoreConfig}
    (hs : store ∈ config.stores) : '/' ∉ store.name.toList :=
  (StoreConfig.nameErrors_eq_nil store).1 ((Config.validate_ok_iff.1 hvalid).2.2 store hs).1 |>.1

/-- Stores of one name are one store. -/
theorem eq_of_name_eq (hvalid : config.validate = .ok ()) {store other : StoreConfig}
    (hs : store ∈ config.stores) (ho : other ∈ config.stores) (h : store.name = other.name) :
    store = other :=
  List.inj_on_of_nodup_map (Config.validate_ok_iff.1 hvalid).2.1 hs ho h

/-- Every command reaches the writer of its store. -/
theorem receives_own (hvalid : config.validate = .ok ()) (hfilters : Subscribed config)
    {store : StoreConfig} (hs : store ∈ config.stores) (entity key : String) :
    Receives (.writer store.name) (.command store.name entity key) := by
  rcases plain_or_plus (slash_of_validate hvalid hs) (hfilters store hs) with hplain | hplus
  · exact (receives_writer_iff hplain).2 ⟨_, _, _, rfl, Or.inl rfl⟩
  · rw [hplus]
    exact receives_plus_iff.2 ⟨_, _, _, rfl⟩

/-- Two plain names have no store under both. -/
theorem name_eq_of_receives {name other : String} (hname : Plain name) (hother : Plain other)
    {m : Message} (h : Receives (.writer name) m) (h' : Receives (.writer other) m) :
    name = other := by
  obtain ⟨store, entity, key, rfl, hunder⟩ := (receives_writer_iff hname).1 h
  obtain ⟨_, _, _, heq, hunder'⟩ := (receives_writer_iff hother).1 h'
  cases heq
  obtain ⟨rest, hrest⟩ := (under_iff hname.slash).1 hunder
  obtain ⟨rest', hrest'⟩ := (under_iff hother.slash).1 hunder'
  rw [hrest] at hrest'
  exact String.toList_inj.1 (List.cons.inj hrest').1

/-- **Every command reaches the writer of its store, and no other writer unless a store is named
`+`**.  `validate` accepts this name, and the writer of such a store gets the commands of all the
others. -/
theorem exclusive_iff (hvalid : config.validate = .ok ()) (hfilters : Subscribed config) :
    (∀ store ∈ config.stores, ∀ entity key,
      Receives (.writer store.name) (.command store.name entity key)) ∧
    (Exclusive config ↔ (∀ store ∈ config.stores, store.name ≠ "+") ∨
      config.stores.length = 1) := by
  refine ⟨fun store hs => receives_own hvalid hfilters hs, fun hexcl => ?_, ?_⟩
  · -- the wildcard writer shares the commands of every other store
    refine or_iff_not_imp_left.2 fun hplus => ?_
    push Not at hplus
    obtain ⟨plus, hmem, hname⟩ := hplus
    have hall : ∀ store ∈ config.stores, store = plus := fun store hs =>
      hexcl (.command store.name "" "") store hs plus hmem (receives_own hvalid hfilters hs "" "")
        (hname ▸ receives_plus_iff.2 ⟨_, _, _, rfl⟩)
    have hnodup : config.stores.Nodup := (Config.validate_ok_iff.1 hvalid).2.1.of_map _
    rw [List.eq_replicate_of_mem hall] at hnodup ⊢
    have hle := List.nodup_replicate.1 hnodup
    have hpos := List.length_pos_of_mem hmem
    simp
    omega
  · rintro (hplus | hone) m writer hw other ho h h'
    · have hplain : ∀ store ∈ config.stores, Plain store.name := fun store hs =>
        (plain_or_plus (slash_of_validate hvalid hs) (hfilters store hs)).resolve_right
          (hplus store hs)
      exact eq_of_name_eq hvalid hw ho
        (name_eq_of_receives (hplain writer hw) (hplain other ho) h h')
    · obtain ⟨store, hstore⟩ := List.length_eq_one_iff.1 hone
      rw [hstore, List.mem_singleton] at hw ho
      rw [hw, ho]

/-- Two stores. -/
def sampleConfig : Config where
  stores := [
    { name := "orders", dbPath := "/data/orders.db", batchSize := 100 },
    { name := "users", dbPath := "/data/users.db", batchSize := 100 }]

theorem subscribed_sampleConfig : Subscribed sampleConfig := by
  intro store hs
  simp only [sampleConfig, List.mem_cons, List.not_mem_nil, or_false] at hs
  rcases hs with rfl | rfl <;> rw [levels_writer (by decide)] <;> decide

theorem exclusive_of_two_stores : Exclusive sampleConfig :=
  (exclusive_iff (by decide) subscribed_sampleConfig).2.2 (Or.inl (by decide))

end Deployment

/-! ### The writer of `System` -/

/-- What the writer of a store is handed is what the broker sends it, of stores without a slash. -/
theorem mem_delivered_iff {cfg : System.Config} {s : System.State} {batch : List ℕ}
    {cmd : WriteEnvelope} (hname : Plain cfg.store) (hcmd : '/' ∉ cmd.store.toList) :
    cmd ∈ s.delivered cfg batch ↔
      (∃ i ∈ batch, s.published[i]? = some cmd) ∧
        Receives (.writer cfg.store) (.command cmd.store cmd.entity cmd.key) := by
  have hunder : Receives (.writer cfg.store) (.command cmd.store cmd.entity cmd.key) ↔
      cmd.store = cfg.store := by
    rw [receives_writer_iff hname]
    constructor
    · rintro ⟨store, entity, key, heq, hunder⟩
      obtain ⟨hstore, -, -⟩ := Message.command.inj heq
      rcases hunder with hunder | ⟨back, hback⟩
      · rw [hstore, hunder]
      · exact absurd (by simp [hstore, hback]) hcmd
    · intro h
      exact ⟨_, _, _, rfl, Or.inl h⟩
  rw [hunder, System.State.delivered, List.mem_filter, List.mem_filterMap, decide_eq_true_eq]

end Routing

end Ixmati
