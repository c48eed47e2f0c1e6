import Ixmati.Api.Mediation

/-!
# What responses rest on

A response that says something about the stores says it because a database, or the cache, was asked and
said so: a write is called applied for a row of `_idempotency`, pending in a status for want of one, and
a document comes from the cache or from its payload row.  What the databases are is left open here.

* `Evident` : what a response says is backed by an answer of a database;
* `rests_serve` : every response is, whatever the answers were.
-/

namespace Ixmati

open Ixmati.System
open Authentication Scopes

/-- The result is from the cache. -/
def ReadResult.IsCached : ReadResult → Prop
  | .projectionFound .. => True
  | .projectionNotFound .. => True
  | .found _ _ _ .cache _ => True
  | _ => False

namespace Api

variable {V : Server} {identity : Option AuthIdentity} {store key : String} {es es' : List (Sigma Answer)}

/-! ### What a response says -/

/-- The body says that the write with this key is applied. -/
def Body.SaysApplied (store key : String) : Body → Prop
  | .ack response => response.status = "APPLIED" ∧ response.store = store ∧ response.idempotencyKey = key
  | .writeResponse response =>
    response.status = "COMMITTED" ∧ response.store = store ∧ response.idempotencyKey = key
  | .status (.applied key' store' ..) => store' = store ∧ key' = key
  | .statusResponse response =>
    response.status = 2 ∧ response.store = store ∧ response.idempotencyKey = key
  | _ => False

/-- The body says that the write with this key is not applied yet. -/
def Body.SaysPending (store key : String) : Body → Prop
  | .status (.pending store' key') => store' = store ∧ key' = key
  | .statusResponse response =>
    response.status = 6 ∧ response.store = store ∧ response.idempotencyKey = key
  | _ => False

/-- The body of a response, of either transport. -/
def Response.body? : Response → Option Body
  | .http response => some response.body
  | .grpcWrite (.ok response) => some (.writeResponse response)
  | .grpcWriteStatus (.ok response) => some (.statusResponse response)
  | .grpcRead (.ok response) => some (.readResponse response)
  | _ => none

/-- The response says that the write with this key is applied. -/
def Response.SaysApplied (store key : String) (response : Response) : Prop :=
  ∃ body, response.body? = some body ∧ body.SaysApplied store key

/-- The response says that the write with this key is not applied yet. -/
def Response.SaysPending (store key : String) (response : Response) : Prop :=
  ∃ body, response.body? = some body ∧ body.SaysPending store key

/-- The body is the result of a read. -/
def Body.IsRead : Body → Prop
  | .json _ => True
  | .readResponse _ => True
  | _ => False

/-- The response shows the result of a read. -/
def Response.Shows (V : Server) (result : ReadResult) (response : Response) : Prop :=
  (∃ protobuf, response = .http (readView protobuf (.ok result))) ∨
    response = .grpcRead (grpcReadView V (.ok result))

/-! ### What it rests on -/

/-- A database was asked for the row of a request. -/
def StatusAnswered (V : Server) (es : List (Sigma Answer)) (store key : String) (status : WriteStatus) :
    Prop :=
  ∃ dbPath, V.state.dbPathFor store = some dbPath ∧
    (⟨.status dbPath store key, .ok status⟩ : Sigma Answer) ∈ es

/-- A database was asked for a payload row. -/
def SelectAnswered (V : Server) (es : List (Sigma Answer)) (store entity key : String)
    (row : Option Bytes) : Prop :=
  ∃ dbPath, V.state.dbPathFor store = some dbPath ∧
    (⟨.select dbPath store entity key, .ok row⟩ : Sigma Answer) ∈ es

theorem StatusAnswered.append {status : WriteStatus} (h : StatusAnswered V es store key status)
    (es' : List (Sigma Answer)) : StatusAnswered V (es ++ es') store key status := by
  obtain ⟨dbPath, hpath, hmem⟩ := h
  exact ⟨dbPath, hpath, List.mem_append_left _ hmem⟩

/-- The last answer. -/
theorem statusAnswered_concat {dbPath : String} (hpath : V.state.dbPathFor store = some dbPath)
    (status : WriteStatus) :
    StatusAnswered V (es ++ [⟨.status dbPath store key, .ok status⟩]) store key status :=
  ⟨dbPath, hpath, List.mem_append_right _ (List.mem_singleton_self _)⟩

theorem selectAnswered_concat {dbPath entity : String} (hpath : V.state.dbPathFor store = some dbPath)
    (row : Option Bytes) :
    SelectAnswered V (es ++ [⟨.select dbPath store entity key, .ok row⟩]) store entity key row :=
  ⟨dbPath, hpath, List.mem_append_right _ (List.mem_singleton_self _)⟩

/-- A database was asked for the row of a request, and it was there. -/
def RowFound (V : Server) (es : List (Sigma Answer)) (store key : String) (row : String × String) : Prop :=
  ∃ entity entityKey version appliedAt,
    StatusAnswered V es store key (.applied row.2 row.1 entity entityKey version appliedAt)

/-- What the response says is backed by an answer of a database.  Of a request that was found applied, the
response repeats what was asked for, or what the row says. -/
structure Evident (V : Server) (es : List (Sigma Answer)) (response : Response) : Prop where
  applied : ∀ store key, response.SaysApplied store key → ∃ store' key' row,
    RowFound V es store' key' row ∧ ((store, key) = (store', key') ∨ (store, key) = row)
  pending : ∀ store key, response.SaysPending store key →
    ∃ store' key', StatusAnswered V es store' key' (.pending store key)
  read : ∀ body, response.body? = some body → body.IsRead → ∃ result, response.Shows V result ∧
    (result.IsCached ∨ ∃ store entity key row, SelectAnswered V es store entity key row ∧
      result = fromRow V.codecs.deps store entity key row)

/-- A response that says nothing about the stores. -/
theorem evident_of_silent {response : Response}
    (h : ∀ body, response.body? = some body →
      (∀ store key, ¬ body.SaysApplied store key ∧ ¬ body.SaysPending store key) ∧ ¬ body.IsRead) :
    Evident V es response where
  applied := by
    rintro store key ⟨body, hbody, htold⟩
    exact absurd htold ((h body hbody).1 store key).1
  pending := by
    rintro store key ⟨body, hbody, htold⟩
    exact absurd htold ((h body hbody).1 store key).2
  read body hbody hread := absurd hread (h body hbody).2

theorem evident_of_none {response : Response} (h : response.body? = none) : Evident V es response := by
  refine evident_of_silent fun body hbody => ?_
  rw [h] at hbody
  cases hbody

/-- An error over HTTP. -/
theorem evident_errorResponse (protobuf : Bool) (status : ℕ) (e : CoreError) :
    Evident V es (.http (errorResponse protobuf status e)) := by
  refine evident_of_silent fun body hbody => ?_
  cases protobuf <;> cases hbody <;> exact ⟨fun _ _ => ⟨id, id⟩, id⟩

theorem evident_forbidden (protobuf : Bool) (store : String) :
    Evident V es (.http (forbidden protobuf store)) := by
  refine evident_of_silent fun body hbody => ?_
  cases protobuf <;> cases hbody <;> exact ⟨fun _ _ => ⟨id, id⟩, id⟩

/-! ### Writes -/

/-- An acknowledgement that does not say pending was found applied. -/
def ResultEvident (V : Server) (es : List (Sigma Answer)) (result : SubmitResult) : Prop :=
  ∀ status ack, result = .ack status ack → ack.status = "PENDING" ∨
    (ack.status = "APPLIED" ∧ ∃ row, RowFound V es ack.store ack.idempotencyKey row)

/-- What the exchanges have to do with the progress of `submit_write`. -/
def Progress.Shown (V : Server) (envelope : WriteEnvelope) (es : List (Sigma Answer)) : Progress → Prop
  | .waiting cmd => cmd.store = envelope.store
  | .committed cmd .. => ∃ row, RowFound V es cmd.store cmd.idempotencyKey row
  | _ => True

theorem rests_submitWrite (envelope : WriteEnvelope) (es : List (Sigma Answer)) :
    (submitWrite V.state envelope).Rests (ResultEvident V) es := by
  refine (follows_submitWrite V.state envelope).simulate
    (R := fun s es => s.Shown V envelope es) (fun _ _ _ _ _ => trivial) ?_ ?_ (by exact trivial)
  · intro s es q answer hs hq
    cases hq with
    | backlog => cases answer <;> exact trivial
    | allow => cases answer <;> exact trivial
    | uuid => exact trivial
    | publish uuid => cases answer <;> first | exact rfl | exact trivial
    | status cmd hpath =>
      have hstore : cmd.store = envelope.store := hs
      rw [← hstore] at hpath
      rcases answer with _ | _ | ⟨key, store, entity, entityKey, version, appliedAt⟩
      · exact hs
      · exact hs
      · exact ⟨(store, key), entity, entityKey, version, appliedAt, statusAnswered_concat hpath _⟩
    | deadline => exact hs
  · rintro s es result hs hfits status ack rfl
    cases s with
    | checking => cases hfits.2
    | refused =>
      obtain ⟨why, hwhy⟩ := hfits
      cases why <;> cases hwhy
    | waiting cmd =>
      cases (hfits : SubmitResult.ack status ack = _)
      exact Or.inl rfl
    | committed =>
      cases (hfits : SubmitResult.ack status ack = _)
      exact Or.inr ⟨rfl, hs⟩
    | unloaded => exact hfits.elim
    | admitted => exact hfits.elim

/-- An acknowledgement in one of its forms. -/
theorem evident_of_ack {response : Response} {body : Body} {status : ℕ} {ack : AckResponse}
    (hbody : response.body? = some body) (hform : body = .ack ack ∨ body = .writeResponse (ackToPb ack))
    (h : ResultEvident V es (.ack status ack)) : Evident V es response where
  applied := by
    rintro store key ⟨body', hbody', htold⟩
    cases hbody.symm.trans hbody'
    rcases h status ack rfl with hpending | ⟨happlied, row, hfound⟩
    · -- a pending write is not called applied in either form
      rcases hform with rfl | rfl
      · exact absurd (hpending.symm.trans htold.1) (by decide)
      · have hstatus : (ackToPb ack).status = "PENDING" := by
          unfold ackToPb
          rw [hpending]
          rfl
        exact absurd (hstatus.symm.trans htold.1) (by decide)
    · have hrequest : ack.store = store ∧ ack.idempotencyKey = key := by
        rcases hform with rfl | rfl <;> exact htold.2
      obtain ⟨rfl, rfl⟩ := hrequest
      exact ⟨_, _, row, hfound, Or.inl rfl⟩
  pending := by
    rintro store key ⟨body', hbody', htold⟩
    cases hbody.symm.trans hbody'
    rcases hform with rfl | rfl <;> exact htold.elim
  read body' hbody' hread := by
    cases hbody.symm.trans hbody'
    rcases hform with rfl | rfl <;> exact hread.elim

theorem evident_writeView {result : SubmitResult} (protobuf : Bool) (h : ResultEvident V es result) :
    Evident V es (.http (writeView V protobuf result)) := by
  cases result with
  | ack status ack =>
    refine evident_of_ack
      (rfl : _ = some (if protobuf then Body.writeResponse (ackToPb ack) else .ack ack)) ?_ h
    cases protobuf
    · exact Or.inl rfl
    · exact Or.inr rfl
  | error status e =>
    have hbody : (writeView V protobuf (.error status e)).body =
        (errorResponse protobuf status e).body := by
      simp only [writeView, withRetryAfter]
      split_ifs <;> rfl
    refine evident_of_silent fun body hb => ?_
    cases hb
    rw [hbody]
    cases protobuf <;> exact ⟨fun _ _ => ⟨id, id⟩, id⟩

theorem evident_grpcWriteView {result : SubmitResult} (h : ResultEvident V es result) :
    Evident V es (.grpcWrite (grpcWriteView V result)) := by
  cases result with
  | ack status ack => exact evident_of_ack rfl (Or.inr rfl) h
  | error status e => exact evident_of_none rfl

theorem rests_write (request : WriteRequest) :
    (Response.http <$> write V identity request).Rests (Evident V) es := by
  unfold write
  cases writeDispatch { V.codecs with identity := identity } request with
  | error rejection =>
    refine Prog.rests_ret (evident_of_silent fun body hbody => ?_)
    cases rejection <;> cases hbody <;> exact ⟨fun _ _ => ⟨id, id⟩, id⟩
  | ok envelope =>
    dsimp only
    rw [← comp_map]
    exact Prog.Follows.map (rests_submitWrite envelope es) fun _ _ h => evident_writeView _ h

theorem rests_grpcWrite (message : Option PbWriteEnvelope) :
    (Response.grpcWrite <$> grpcWrite V identity message).Rests (Evident V) es := by
  unfold grpcWrite
  cases message with
  | none => exact Prog.rests_ret (evident_of_none rfl)
  | some message =>
    dsimp only
    cases writeEnvelopeFromPb V.codecs.deps message with
    | error status => exact Prog.rests_ret (evident_of_none rfl)
    | ok envelope =>
      dsimp only
      split_ifs
      · rw [← comp_map]
        exact Prog.Follows.map (rests_submitWrite envelope es) fun _ _ h => evident_grpcWriteView h
      · exact Prog.rests_ret (evident_of_none rfl)

/-! ### The status of a write -/

/-- A status in one of its forms. -/
theorem evident_of_status {response : Response} {body : Body} {status : WriteStatus}
    (hbody : response.body? = some body)
    (hform : body = .status status ∨ body = .statusResponse (statusToPb status) ∨
      body = .statusResponse (grpcStatusView status))
    (h : StatusAnswered V es store key status) : Evident V es response where
  applied := by
    rintro store' key' ⟨body', hbody', htold⟩
    cases hbody.symm.trans hbody'
    cases status with
    | pending =>
      rcases hform with rfl | rfl | rfl
      · exact htold.elim
      · cases htold.1
      · cases htold.1
    | applied rowKey rowStore entity entityKey version appliedAt =>
      have hrow : rowStore = store' ∧ rowKey = key' := by
        rcases hform with rfl | rfl | rfl
        · exact htold
        · exact htold.2
        · exact htold.2
      obtain ⟨rfl, rfl⟩ := hrow
      exact ⟨store, key, (rowStore, rowKey), ⟨_, _, _, _, h⟩, Or.inr rfl⟩
  pending := by
    rintro store' key' ⟨body', hbody', htold⟩
    cases hbody.symm.trans hbody'
    cases status with
    | pending rowStore rowKey =>
      have hrow : rowStore = store' ∧ rowKey = key' := by
        rcases hform with rfl | rfl | rfl
        · exact htold
        · exact htold.2
        · exact htold.2
      obtain ⟨rfl, rfl⟩ := hrow
      exact ⟨store, key, h⟩
    | applied =>
      rcases hform with rfl | rfl | rfl
      · exact htold.elim
      · cases htold.1
      · cases htold.1
  read body' hbody' hread := by
    cases hbody.symm.trans hbody'
    rcases hform with rfl | rfl | rfl <;> exact hread.elim

theorem rests_writeStatus (protobuf : Bool) (store idempotencyKey : String) :
    (Response.http <$> writeStatus V identity protobuf store idempotencyKey).Rests (Evident V) es := by
  unfold writeStatus writeStatusHandler
  by_cases h : storeIsAuthorized identity store = true
  · rw [if_pos h]
    cases hpath : V.state.dbPathFor store with
    | none => exact Prog.rests_ret (evident_errorResponse _ _ _)
    | some dbPath =>
      refine Prog.rests_ask fun answer => ?_
      cases answer with
      | error detail => exact Prog.rests_ret (evident_errorResponse _ _ _)
      | ok status =>
        refine Prog.rests_ret (evident_of_status rfl ?_ (statusAnswered_concat hpath status))
        cases protobuf
        · exact Or.inl rfl
        · exact Or.inr (Or.inl rfl)
  · rw [if_neg h]
    exact Prog.rests_ret (evident_forbidden _ _)

theorem rests_grpcWriteStatus (store idempotencyKey : String) :
    (Response.grpcWriteStatus <$> grpcWriteStatus V identity store idempotencyKey).Rests (Evident V)
      es := by
  unfold grpcWriteStatus
  split_ifs
  · exact Prog.rests_ret (evident_of_none rfl)
  · cases hpath : V.state.dbPathFor store with
    | none => exact Prog.rests_ret (evident_of_none rfl)
    | some dbPath =>
      refine Prog.rests_ask fun answer => ?_
      cases answer with
      | error detail => exact Prog.rests_ret (evident_of_none rfl)
      | ok status =>
        exact Prog.rests_ret
          (evident_of_status rfl (Or.inr (Or.inr rfl)) (statusAnswered_concat hpath status))
  · exact Prog.rests_ret (evident_of_none rfl)

/-! ### Reads -/

/-- A result that is not from the cache is from a payload row. -/
def ReadEvident (V : Server) (es : List (Sigma Answer)) : Except (ℕ × CoreError) ReadResult → Prop
  | .error _ => True
  | .ok result => result.IsCached ∨ ∃ store entity key row, SelectAnswered V es store entity key row ∧
    result = fromRow V.codecs.deps store entity key row

theorem SelectAnswered.append {entity : String} {row : Option Bytes}
    (h : SelectAnswered V es store entity key row) (es' : List (Sigma Answer)) :
    SelectAnswered V (es ++ es') store entity key row := by
  obtain ⟨dbPath, hpath, hmem⟩ := h
  exact ⟨dbPath, hpath, List.mem_append_left _ hmem⟩

theorem rests_readProgram (params : ReadQuery) (es : List (Sigma Answer)) :
    (readProgram V params).Rests (ReadEvident V) es := by
  unfold readProgram
  cases readTarget params with
  | error e => exact Prog.rests_ret trivial
  | ok target =>
    cases target with
    | projection projection key =>
      refine Prog.rests_ask fun cached => ?_
      cases cacheHit V.codecs.deps cached <;> exact Prog.rests_ret (Or.inl trivial)
    | entity store entity key =>
      refine Prog.rests_ask fun cached => ?_
      cases cacheHit V.codecs.deps cached with
      | some value => exact Prog.rests_ret (Or.inl trivial)
      | none =>
        cases hpath : V.state.dbPathFor store with
        | none => exact Prog.rests_ret trivial
        | some dbPath =>
          refine Prog.rests_ask fun row => ?_
          rcases row with _ | row
          · exact Prog.rests_ret trivial
          · have hanswered : SelectAnswered V (es ++ [⟨.cached (.entity store entity key), cached⟩] ++
                [⟨.select dbPath store entity key, .ok row⟩]) store entity key row :=
              selectAnswered_concat hpath row
            rcases row with _ | bytes
            · exact Prog.rests_ret (Or.inr ⟨_, _, _, _, hanswered, rfl⟩)
            · cases fills V.state.cacheReadMode with
              | true =>
                exact Prog.rests_ask fun _ =>
                  Prog.rests_ret (Or.inr ⟨_, _, _, _, hanswered.append _, rfl⟩)
              | false => exact Prog.rests_ret (Or.inr ⟨_, _, _, _, hanswered, rfl⟩)

/-- A response that shows a result of a read and says nothing else. -/
theorem evident_of_shows {response : Response} {result : ReadResult} (hshows : response.Shows V result)
    (hread : ∀ body, response.body? = some body → body.IsRead ∨ ∃ detail, body = .errorDetail detail)
    (h : ReadEvident V es (.ok result)) : Evident V es response where
  applied := by
    rintro store key ⟨body, hbody, htold⟩
    rcases hread body hbody with hread | ⟨detail, rfl⟩
    · cases body <;> first | exact hread.elim | exact htold.elim
    · exact htold.elim
  pending := by
    rintro store key ⟨body, hbody, htold⟩
    rcases hread body hbody with hread | ⟨detail, rfl⟩
    · cases body <;> first | exact hread.elim | exact htold.elim
    · exact htold.elim
  read _ _ _ := ⟨result, hshows, h⟩

theorem evident_readView {result : Except (ℕ × CoreError) ReadResult} (protobuf : Bool)
    (h : ReadEvident V es result) : Evident V es (.http (readView protobuf result)) := by
  cases result with
  | error e => exact evident_errorResponse _ _ _
  | ok result =>
    refine evident_of_shows (Or.inl ⟨protobuf, rfl⟩) (fun body hbody => ?_) h
    cases protobuf with
    | false =>
      cases hbody
      exact Or.inl trivial
    | true =>
      simp only [readView, if_true] at hbody
      cases hresponse : readResponseFromJson result.toJson with
      | ok response =>
        rw [hresponse] at hbody
        cases hbody
        exact Or.inl trivial
      | error status =>
        rw [hresponse] at hbody
        cases hbody
        exact Or.inr ⟨_, rfl⟩

theorem evident_grpcReadView {result : Except (ℕ × CoreError) ReadResult}
    (h : ReadEvident V es result) : Evident V es (.grpcRead (grpcReadView V result)) := by
  cases result with
  | error e => exact evident_of_none rfl
  | ok result =>
    refine evident_of_shows (Or.inr rfl) (fun body hbody => ?_) h
    simp only [grpcReadView] at hbody
    cases hresponse : readResponseFromJson result.toJson with
    | ok response =>
      rw [hresponse] at hbody
      cases hbody
      exact Or.inl trivial
    | error status =>
      rw [hresponse] at hbody
      cases hbody

theorem evident_of_forbiddenRead {protobuf : Bool} {params : ReadQuery} {response : HttpResponse}
    (h : forbiddenRead identity protobuf params = some response) : Evident V es (.http response) := by
  unfold forbiddenRead at h
  obtain ⟨e, -, rfl⟩ := Option.map_eq_some_iff.1 h
  cases e with
  | permissionDenied => exact evident_forbidden _ _
  | _ => exact evident_errorResponse false _ _

theorem rests_read (protobuf : Bool) (params : ReadQuery) :
    (Response.http <$> read V identity protobuf params).Rests (Evident V) es := by
  unfold read
  cases hforbidden : forbiddenRead identity protobuf params with
  | some response => exact Prog.rests_ret (evident_of_forbiddenRead hforbidden)
  | none =>
    dsimp only
    rw [← comp_map]
    exact Prog.Follows.map (rests_readProgram params es) fun _ _ h => evident_readView _ h

theorem rests_readProtobuf (wantsProtobuf : Bool) (body : Bytes) :
    (Response.http <$> readProtobuf V identity wantsProtobuf body).Rests (Evident V) es := by
  unfold readProtobuf
  cases V.decodeReadRequest body with
  | error text =>
    refine Prog.rests_ret (evident_of_silent fun body hbody => ?_)
    cases hbody
    exact ⟨fun _ _ => ⟨id, id⟩, id⟩
  | ok request =>
    dsimp only
    cases hforbidden : forbiddenRead identity wantsProtobuf request.toQuery with
    | some response => exact Prog.rests_ret (evident_of_forbiddenRead hforbidden)
    | none =>
      dsimp only
      rw [← comp_map]
      exact Prog.Follows.map (rests_readProgram _ es) fun _ _ h => evident_readView _ h

theorem rests_grpcReadRequest (request : ReadRequest) :
    (Response.grpcRead <$> grpcReadRequest V identity request).Rests (Evident V) es := by
  unfold grpcReadRequest
  cases grpcAuthorizeRead identity request with
  | some message => exact Prog.rests_ret (evident_of_none rfl)
  | none =>
    dsimp only
    rw [← comp_map]
    exact Prog.Follows.map (rests_readProgram _ es) fun _ _ h => evident_grpcReadView h

/-! ### The server -/

theorem rests_protectedRoute {authorization : Option String} {protobuf : Bool}
    {handler : Option AuthIdentity → Handler HttpResponse}
    (h : ∀ identity, (Response.http <$> handler identity).Rests (Evident V) es) :
    (protectedRoute V authorization protobuf handler).Rests (Evident V) es := by
  unfold protectedRoute
  cases requireAuth V.auth authorization with
  | error detail =>
    refine Prog.rests_ret (evident_of_silent fun body hbody => ?_)
    cases protobuf <;> cases hbody <;> exact ⟨fun _ _ => ⟨id, id⟩, id⟩
  | ok identity => exact h identity

theorem rests_authenticated {β : Type} {xApiKey : Option String}
    {handler : Option AuthIdentity → Handler (Except GrpcError β)} {wrap : Except GrpcError β → Response}
    (hwrap : ∀ e, (wrap (.error e)).body? = none)
    (h : ∀ identity, (wrap <$> handler identity).Rests (Evident V) es) :
    (wrap <$> authenticated V xApiKey handler).Rests (Evident V) es := by
  unfold authenticated
  cases grpcAuth V.auth xApiKey with
  | error message => exact Prog.rests_ret (evident_of_none (hwrap _))
  | ok identity => exact h identity

/-- **What responses rest on**: whatever the answers are, each response is backed by them. -/
theorem rests_serve (V : Server) (request : Request) : (serve V request).Rests (Evident V) [] := by
  cases request with
  | write => exact rests_protectedRoute fun _ => rests_write _
  | writeStatus => exact rests_protectedRoute fun _ => rests_writeStatus _ _ _
  | read => exact rests_protectedRoute fun _ => rests_read _ _
  | readProtobuf => exact rests_protectedRoute fun _ => rests_readProtobuf _ _
  | grpcWrite => exact rests_authenticated (fun _ => rfl) fun _ => rests_grpcWrite _
  | grpcWriteStatus => exact rests_authenticated (fun _ => rfl) fun _ => rests_grpcWriteStatus _ _
  | grpcRead => exact rests_authenticated (fun _ => rfl) fun _ => rests_grpcReadRequest _
  | subscribeEvents =>
    refine rests_authenticated (fun _ => rfl) fun _ => ?_
    exact Prog.rests_map (fun _ _ => evident_of_none rfl) _ _

end Api

end Ixmati
