import Ixmati.Api.Backpressure
import Ixmati.Api.Mediation
import Ixmati.Api.Throttle

/-!
# Admission of writes

All calls of the API share one throttle and one record of the backlogs, while the monitor refreshes the
latter.  The calls run at the same time, question by question, in any order (`Pool`).  A call needs a
ticket to publish a command: the backlog lets it pass, then the throttle, and the one publish uses it up.

* `admitting` : the ticket of a call, as a protocol;
* `Balanced` : what was published belongs to used tickets, and tickets to calls that the throttle
  accepted; it holds in every reachable pool;
* `admission` : what reaches the broker, over all interleavings;
* `overshoot` : what still reaches it after the backlog is known to be too long.
-/

namespace Ixmati

open Ixmati.System
open Authentication Scopes

namespace Api

variable {V : Server} {request : Request}

/-! ### The process -/

/-- What the calls share, with the calls of `allow` and the commands that were published so far. -/
structure Gates where
  throttle : Throttle
  backlog : OutboxBacklog
  asked : List Throttle.Request
  published : List WriteEnvelope

/-- A process that has just started. -/
def Gates.start (maxWritesPerWindow windowSecs : ℕ) (backlog : OutboxBacklog) : Gates where
  throttle := .new maxWritesPerWindow windowSecs
  backlog := backlog
  asked := []
  published := []

/-- What is not up to the process: the time of a call of `allow`, and the answers from outside. -/
@[reducible] def Chosen : Ask → Type
  | .backlog _ => Unit
  | .allow _ => ℚ
  | q => Answer q

/-- The process answers. -/
def Gates.answer (g : Gates) : (q : Ask) → Chosen q → Answer q × Gates
  | .backlog store, _ => (g.backlog.check store, g)
  | .allow store, now =>
    ((g.throttle.allowAt store now).1,
      { g with throttle := (g.throttle.allowAt store now).2, asked := g.asked ++ [⟨store, now⟩] })
  | .publish cmd, .sent => (.sent, { g with published := g.published ++ [cmd] })
  | .publish _, .unavailable => (.unavailable, g)
  | .publish _, .failed detail => (.failed detail, g)
  | .uuid, uuid => (uuid, g)
  | .status .., result => (result, g)
  | .deadline, late => (late, g)
  | .cached _, bytes => (bytes, g)
  | .select .., row => (row, g)
  | .fill .., _ => ((), g)
  | .cursor .., message => (message, g)

/-- The process with its monitor, which refreshes the backlogs now and then. -/
def apiWorld : World Answer Gates where
  Choice := Chosen
  answer g q choice := some (g.answer q choice)
  Event := List (Option Outbox)
  outside g databases := some { g with backlog := pollRound g.backlog databases }

/-! ### Tickets -/

/-- What a call may do. -/
inductive Ticket where
  | fresh
  /-- The backlog of the store let the call pass. -/
  | unloaded (store : String)
  /-- The throttle let it pass too. -/
  | admitted (store : String)
  /-- The command is published. -/
  | spent (cmd : WriteEnvelope)
  | refused

/-- The command that was published. -/
def Ticket.spent? : Ticket → Option WriteEnvelope
  | .spent cmd => some cmd
  | _ => none

/-- The throttle gave a token for the store. -/
def Ticket.hasToken (store : String) : Ticket → Bool
  | .admitted store' => store' == store
  | .spent cmd => cmd.store == store
  | _ => false

/-- The request carries the envelope. -/
def Request.Carries (V : Server) : Request → WriteEnvelope → Prop
  | .write _ request => fun envelope =>
    ∃ identity, writeDispatch { V.codecs with identity := identity } request = .ok envelope
  | .grpcWrite _ message => fun envelope =>
    ∃ pb, message = some pb ∧ writeEnvelopeFromPb V.codecs.deps pb = .ok envelope
  | _ => fun _ => False

/-- The command is the one of the request, but for its key if the request brings none. -/
def Request.Commands (V : Server) (request : Request) (cmd : WriteEnvelope) : Prop :=
  ∃ envelope uuid, request.Carries V envelope ∧ cmd = commandOf envelope uuid

/-- What a ticket lets a call ask, and what becomes of it. -/
def admitting (V : Server) (request : Request) : Protocol Answer Ticket where
  allowed
    | t, .backlog _ => t = .fresh
    | t, .allow store => t = .unloaded store
    | t, .publish cmd => t = .admitted cmd.store ∧ request.Commands V cmd
    | _, _ => True
  next
    | _, .backlog store, depth => if depth.isNone then .unloaded store else .refused
    | _, .allow store, allowed => if allowed then .admitted store else .refused
    | _, .publish cmd, .sent => .spent cmd
    | _, .publish _, _ => .refused
    | t, _, _ => t

/-- A call does not end with a ticket that it could still use. -/
def Ticket.Used : Ticket → Prop
  | .unloaded _ => False
  | .admitted _ => False
  | _ => True

/-- The ticket of `submit_write`. -/
def Progress.ticket (envelope : WriteEnvelope) : Progress → Ticket
  | .checking => .fresh
  | .unloaded => .unloaded envelope.store
  | .admitted _ => .admitted envelope.store
  | .waiting cmd => .spent cmd
  | .committed cmd .. => .spent cmd
  | .refused => .refused

theorem follows_admitting_submitWrite {envelope : WriteEnvelope} (h : request.Carries V envelope) :
    (submitWrite V.state envelope).Follows (admitting V request) (fun t _ => t.Used) .fresh := by
  refine (follows_submitWrite V.state envelope).simulate
    (R := fun s t => t = s.ticket envelope) ?_ ?_ ?_ rfl
  · rintro s _ q rfl hq
    cases hq with
    | backlog => exact rfl
    | allow => exact rfl
    | publish uuid => exact ⟨rfl, envelope, uuid, h, rfl⟩
    | uuid => trivial
    | status => trivial
    | deadline => trivial
  · rintro s _ q answer rfl hq
    cases hq with
    | backlog => cases answer <;> rfl
    | allow => cases answer <;> rfl
    | publish uuid => cases answer <;> rfl
    | uuid => rfl
    | status cmd => rcases answer with _ | _ | _ <;> rfl
    | deadline => rfl
  · rintro s _ result rfl hfits
    cases s with
    | unloaded => exact hfits.elim
    | admitted => exact hfits.elim
    | _ => trivial

/-- A call that only looks things up needs no ticket. -/
theorem follows_admitting_of_looks {α : Type} {identity : Option AuthIdentity} (through : Bool)
    {p : Handler α} (h : Looks identity through p) :
    p.Follows (admitting V request) (fun t _ => t.Used) .fresh := by
  refine Prog.Follows.simulate (P := looking identity through) (R := fun _ t => t = Ticket.fresh)
    ?_ ?_ (fun _ t _ ht _ => ht ▸ trivial) rfl h
  · rintro _ _ q rfl ⟨-, hlookup⟩
    cases q <;> trivial
  · rintro _ _ q answer rfl ⟨-, hlookup⟩
    cases q <;> first | rfl | exact hlookup.elim

theorem used_map {α β : Type} {p : Handler α} (f : α → β)
    (h : p.Follows (admitting V request) (fun t _ => t.Used) .fresh) :
    (f <$> p).Follows (admitting V request) (fun t _ => t.Used) .fresh :=
  h.map fun _ _ ht => ht

theorem follows_admitting_write {authorization : Option String} {r : WriteRequest}
    (hrequest : request = .write authorization r) (identity : Option AuthIdentity) :
    (write V identity r).Follows (admitting V request) (fun t _ => t.Used) .fresh := by
  unfold write
  cases hdispatch : writeDispatch { V.codecs with identity := identity } r with
  | error rejection => exact trivial
  | ok envelope =>
    refine used_map _ (follows_admitting_submitWrite ?_)
    rw [hrequest]
    exact ⟨identity, hdispatch⟩

theorem follows_admitting_grpcWrite {xApiKey : Option String} {message : Option PbWriteEnvelope}
    (hrequest : request = .grpcWrite xApiKey message) (identity : Option AuthIdentity) :
    (grpcWrite V identity message).Follows (admitting V request) (fun t _ => t.Used) .fresh := by
  unfold grpcWrite
  cases message with
  | none => exact trivial
  | some pb =>
    dsimp only
    cases hread : writeEnvelopeFromPb V.codecs.deps pb with
    | error status => exact trivial
    | ok envelope =>
      dsimp only
      split_ifs
      · refine used_map _ (follows_admitting_submitWrite ?_)
        rw [hrequest]
        exact ⟨pb, rfl, hread⟩
      · exact trivial

theorem follows_admitting_protectedRoute {authorization : Option String} {protobuf : Bool}
    {handler : Option AuthIdentity → Handler HttpResponse}
    (h : ∀ identity, (handler identity).Follows (admitting V request) (fun t _ => t.Used) .fresh) :
    (protectedRoute V authorization protobuf handler).Follows (admitting V request)
      (fun t _ => t.Used) .fresh := by
  unfold protectedRoute
  cases requireAuth V.auth authorization with
  | error detail => exact trivial
  | ok identity => exact used_map _ (h identity)

theorem follows_admitting_authenticated {β : Type} {xApiKey : Option String}
    {handler : Option AuthIdentity → Handler (Except GrpcError β)} {wrap : Except GrpcError β → Response}
    (h : ∀ identity, (handler identity).Follows (admitting V request) (fun t _ => t.Used) .fresh) :
    (wrap <$> authenticated V xApiKey handler).Follows (admitting V request)
      (fun t _ => t.Used) .fresh := by
  unfold authenticated
  cases grpcAuth V.auth xApiKey with
  | error message => exact trivial
  | ok identity => exact used_map _ (h identity)

/-- Every endpoint keeps to its ticket. -/
theorem follows_admitting (V : Server) (request : Request) :
    (serve V request).Follows (admitting V request) (fun t _ => t.Used) .fresh := by
  cases request with
  | write => exact follows_admitting_protectedRoute (follows_admitting_write rfl)
  | writeStatus =>
    exact follows_admitting_protectedRoute fun _ =>
      follows_admitting_of_looks false (looks_writeStatus _ _ _)
  | read =>
    exact follows_admitting_protectedRoute fun _ =>
      follows_admitting_of_looks false (looks_read _ _)
  | readProtobuf =>
    exact follows_admitting_protectedRoute fun _ =>
      follows_admitting_of_looks false (looks_readProtobuf _ _)
  | grpcWrite => exact follows_admitting_authenticated (follows_admitting_grpcWrite rfl)
  | grpcWriteStatus =>
    exact follows_admitting_authenticated fun _ =>
      follows_admitting_of_looks false (looks_grpcWriteStatus _ _)
  | grpcRead =>
    exact follows_admitting_authenticated fun _ => follows_admitting_of_looks _ (looks_grpcReadRequest _)
  | subscribeEvents =>
    exact follows_admitting_authenticated fun _ =>
      follows_admitting_of_looks false (looks_subscribeEvents _)

/-- What a request may have asked for it: what its key may see, and what its ticket allows. -/
def gated (V : Server) (request : Request) : Protocol Answer (Unit × Ticket) :=
  (guarding V request).both (admitting V request)

theorem follows_gated (henabled : V.auth.enabled = true) (request : Request) :
    (serve V request).Follows (gated V request)
      (fun s response => SendsAway V request response ∧ s.2.Used) ((), .fresh) :=
  (follows_serve henabled request).both (follows_admitting V request)

/-! ### The account of the tickets -/

/-- The command is the request's own, for a store of the request's key. -/
structure Entitled (V : Server) (request : Request) (cmd : WriteEnvelope) : Prop where
  commands : request.Commands V cmd
  allowed : ∃ k, request.ComesFrom V k ∧ k.identity.allowsStore cmd.store = true

/-- The calls that the throttle accepted. -/
def Gates.accepted (m w : ℕ) (g : Gates) : List Throttle.Request :=
  outputs Throttle.allow Throttle.accepts (.new m w) g.asked

/-- Published is what the spent tickets say, and each token is from a call that the throttle accepted. -/
structure Balanced (V : Server) (m w : ℕ) (g : Gates) (tickets : List (Request × Unit × Ticket)) :
    Prop where
  throttle : g.throttle = (Throttle.new m w).after g.asked
  published : g.published.Perm (tickets.filterMap fun t => t.2.2.spent?)
  entitled : ∀ t ∈ tickets, ∀ cmd, t.2.2 = .spent cmd → Entitled V t.1 cmd
  tokens : ∀ store, tickets.countP (fun t => t.2.2.hasToken store) ≤
    (g.accepted m w).countP fun q => q.store == store

variable {m w : ℕ} {g g' : Gates} {tickets tickets' rest : List (Request × Unit × Ticket)}

theorem Balanced.perm (h : Balanced V m w g tickets) (hperm : tickets.Perm tickets') :
    Balanced V m w g tickets' where
  throttle := h.throttle
  published := h.published.trans (hperm.filterMap _)
  entitled t ht := h.entitled t (hperm.mem_iff.2 ht)
  tokens store := by
    rw [← hperm.countP_eq]
    exact h.tokens store

theorem balanced_start (backlog : OutboxBacklog) : Balanced V m w (.start m w backlog) [] where
  throttle := rfl
  published := .nil
  entitled := by simp
  tokens store := Nat.zero_le _

/-- A ticket that is worth no more than before, with what is published as it was. -/
theorem Balanced.replace {s s' : Unit × Ticket} (h : Balanced V m w g ((request, s) :: rest))
    (hasked : g'.asked = g.asked) (hthrottle : g'.throttle = g.throttle)
    (hpublished : g'.published = g.published) (hspent : s'.2.spent? = s.2.spent?)
    (htoken : ∀ store, s'.2.hasToken store = true → s.2.hasToken store = true) :
    Balanced V m w g' ((request, s') :: rest) where
  throttle := by rw [hthrottle, hasked, h.throttle]
  published := by
    rw [hpublished]
    refine h.published.trans (.of_eq ?_)
    rw [List.filterMap_cons, List.filterMap_cons, hspent]
  entitled t ht cmd hcmd := by
    rcases List.mem_cons.1 ht with rfl | ht
    · refine h.entitled _ List.mem_cons_self cmd ?_
      obtain ⟨⟨⟩, t⟩ := s
      obtain ⟨⟨⟩, t'⟩ := s'
      cases hcmd
      cases t <;> cases hspent
      rfl
    · exact h.entitled t (List.mem_cons_of_mem _ ht) cmd hcmd
  tokens store := by
    have hle := h.tokens store
    have haccepted : g'.accepted m w = g.accepted m w := by rw [Gates.accepted, hasked, Gates.accepted]
    rw [haccepted]
    rw [List.countP_cons] at hle ⊢
    refine le_trans (Nat.add_le_add_left ?_ _) hle
    by_cases ht : s'.2.hasToken store = true
    · exact Nat.le_of_eq ((if_pos ht).trans (if_pos (htoken store ht)).symm)
    · rw [if_neg ht]
      exact Nat.zero_le _

/-- The throttle is asked. -/
theorem Balanced.allow {store : String} (h : Balanced V m w g ((request, (), .unloaded store) :: rest))
    (now : ℚ) :
    Balanced V m w
      { g with
        throttle := (g.throttle.allowAt store now).2
        asked := g.asked ++ [⟨store, now⟩] }
      ((request, (), if (g.throttle.allowAt store now).1 then .admitted store else .refused) :: rest) := by
  have haccepted : outputs Throttle.allow Throttle.accepts (.new m w) (g.asked ++ [⟨store, now⟩]) =
      g.accepted m w ++ g.throttle.accepts ⟨store, now⟩ := by
    rw [h.throttle]
    exact Throttle.accepted_concat
  refine ⟨?_, h.published.trans (.of_eq ?_), fun t ht cmd hcmd => ?_, fun store' => ?_⟩
  · show (g.throttle.allowAt store now).2 = (Throttle.new m w).after (g.asked ++ [⟨store, now⟩])
    rw [Throttle.after_concat, ← h.throttle]
  · cases (g.throttle.allowAt store now).1 <;> rfl
  · rcases List.mem_cons.1 ht with rfl | ht
    · cases hallowed : (g.throttle.allowAt store now).1 <;> simp [hallowed] at hcmd
    · exact h.entitled t (List.mem_cons_of_mem _ ht) cmd hcmd
  · have hle := h.tokens store'
    rw [Gates.accepted, haccepted, List.countP_append, Throttle.accepts]
    rw [List.countP_cons] at hle ⊢
    refine Nat.add_le_add ((Nat.le_add_right _ _).trans hle) ?_
    cases (g.throttle.allowAt store now).1 with
    | false => exact Nat.zero_le _
    | true => exact (List.countP_singleton ..).ge

/-- A command is published. -/
theorem Balanced.publish {cmd : WriteEnvelope}
    (h : Balanced V m w g ((request, (), .admitted cmd.store) :: rest)) (hcmd : Entitled V request cmd) :
    Balanced V m w { g with published := g.published ++ [cmd] } ((request, (), .spent cmd) :: rest) where
  throttle := h.throttle
  published := List.perm_append_comm.trans (h.published.cons cmd)
  entitled t ht cmd' hspent := by
    rcases List.mem_cons.1 ht with rfl | ht
    · cases hspent
      exact hcmd
    · exact h.entitled t (List.mem_cons_of_mem _ ht) cmd' hspent
  tokens store := h.tokens store

/-- One question of one call. -/
theorem balanced_answer {i : ℕ} {s : Unit × Ticket} {q : Ask} (choice : Chosen q)
    (h : Balanced V m w g tickets) (hi : tickets[i]? = some (request, s))
    (hallowed : (gated V request).allowed s q) :
    Balanced V m w (g.answer q choice).2
      (tickets.set i (request, (gated V request).next s q (g.answer q choice).1)) := by
  obtain ⟨rest, hperm, hset⟩ := Pool.exists_perm_set hi
  have hbal := h.perm hperm
  refine Balanced.perm ?_ (hset _).symm
  obtain ⟨⟨⟩, ticket⟩ := s
  obtain ⟨⟨k, hk, hmay⟩, hallowed⟩ := hallowed
  cases q with
  | backlog store =>
    cases (hallowed : ticket = .fresh)
    show Balanced V m w g ((request, (), if (g.backlog.check store).isNone then .unloaded store
      else .refused) :: rest)
    cases g.backlog.check store <;> exact hbal.replace rfl rfl rfl rfl (by rintro _ ⟨⟩)
  | allow store =>
    cases (hallowed : ticket = .unloaded store)
    exact hbal.allow choice
  | publish cmd =>
    obtain ⟨rfl, hcommands⟩ := (hallowed : ticket = .admitted cmd.store ∧ request.Commands V cmd)
    cases choice with
    | sent => exact hbal.publish ⟨hcommands, k, hk, hmay.store _ rfl⟩
    | unavailable => exact hbal.replace rfl rfl rfl rfl (by rintro _ ⟨⟩)
    | failed detail => exact hbal.replace rfl rfl rfl rfl (by rintro _ ⟨⟩)
  | _ => exact hbal.replace rfl rfl rfl rfl fun _ ht => ht

/-- A call is started. -/
theorem Balanced.start (h : Balanced V m w g tickets) (request : Request) :
    Balanced V m w g (tickets ++ [(request, (), .fresh)]) := by
  refine Balanced.perm ?_ List.perm_append_comm
  exact ⟨h.throttle, h.published, fun t ht cmd hcmd => by
    rcases List.mem_cons.1 ht with rfl | ht
    · cases hcmd
    · exact h.entitled t ht cmd hcmd, h.tokens⟩

variable {backlog : OutboxBacklog} {pool pool' : Pool Answer Gates Request Response}

/-- The account is kept in every interleaving. -/
theorem balanced_of_reachable (henabled : V.auth.enabled = true)
    (hreach : Reachable (Pool.step apiWorld (serve V)) ⟨.start m w backlog, []⟩ pool) :
    pool.Guarded (gated V) (fun request s response => SendsAway V request response ∧ s.2.Used)
      (Balanced V m w) := by
  refine Pool.guarded_of_reachable (W := apiWorld) (follows_gated henabled)
    (fun _ _ request h => h.start request) ?_ ?_ (balanced_start backlog) hreach
  · intro g tickets i request s q choice answer g' h hi hallowed hanswer
    have hbal := balanced_answer choice h hi hallowed
    have hanswer' : g.answer q choice = (answer, g') := Option.some.inj hanswer
    rw [hanswer'] at hbal
    exact hbal
  · rintro g tickets databases g' h ⟨⟩
    exact ⟨h.throttle, h.published, h.entitled, h.tokens⟩

/-! ### What reaches the broker -/

/-- The calls whose tickets are spent, with their commands. -/
def spentBy (tickets : List (Request × Unit × Ticket)) : List (Request × WriteEnvelope) :=
  tickets.filterMap fun t => t.2.2.spent?.map fun cmd => (t.1, cmd)

theorem sublist_spentBy (tickets : List (Request × Unit × Ticket)) :
    ((spentBy tickets).map Prod.fst).Sublist (tickets.map Prod.fst) := by
  induction tickets with
  | nil => exact .slnil
  | cons t tickets ih =>
    unfold spentBy at ih ⊢
    rw [List.filterMap_cons]
    cases t.2.2.spent? with
    | none => exact ih.cons _
    | some cmd => exact ih.cons_cons _

theorem map_snd_spentBy (tickets : List (Request × Unit × Ticket)) :
    (spentBy tickets).map Prod.snd = tickets.filterMap fun t => t.2.2.spent? := by
  rw [spentBy, List.map_filterMap]
  refine List.filterMap_congr fun t _ => ?_
  rw [Option.map_map]
  exact Option.map_id'

theorem entitled_of_mem_spentBy (h : Balanced V m w g tickets) {by' : Request × WriteEnvelope}
    (hmem : by' ∈ spentBy tickets) : Entitled V by'.1 by'.2 := by
  obtain ⟨t, ht, hspent⟩ := List.mem_filterMap.1 hmem
  obtain ⟨cmd, hcmd, rfl⟩ := Option.map_eq_some_iff.1 hspent
  refine h.entitled t ht cmd ?_
  obtain ⟨_, ⟨⟩, t⟩ := t
  cases t <;> cases hcmd
  rfl

/-- What is published of a store is paid with tokens. -/
theorem Balanced.countP_published_le (h : Balanced V m w g tickets) (store : String) :
    g.published.countP (fun cmd => cmd.store == store) ≤
      (g.accepted m w).countP fun q => q.store == store := by
  refine le_trans ?_ (h.tokens store)
  rw [h.published.countP_eq, List.countP_filterMap]
  refine List.countP_mono_left fun t _ ht => ?_
  obtain ⟨_, ⟨⟩, t⟩ := t
  cases t <;> first | exact ht | cases ht

/-- **Admission of writes.**  In every interleaving of any calls and of the monitor: the published
commands are, in some order, one for each of some of the calls, each the command of its own request,
for a store of the request's key; and if `allow` was asked in the order of time and within `T` seconds,
no store had more than `b + r T` commands published, for the configured rate `r` and burst `b`. -/
theorem admission (V : Server) (henabled : V.auth.enabled = true) (m w : ℕ) (backlog : OutboxBacklog)
    (pool : Pool Answer Gates Request Response)
    (hreach : Reachable (Pool.step apiWorld (serve V)) ⟨.start m w backlog, []⟩ pool) :
    (∃ writers : List (Request × WriteEnvelope),
      (writers.map Prod.fst).Sublist (pool.calls.map Call.input) ∧
      pool.world.published.Perm (writers.map Prod.snd) ∧
      ∀ writer ∈ writers, Entitled V writer.1 writer.2) ∧
    ∀ (store : String) (u T : ℚ), 0 ≤ T →
      pool.world.asked.Pairwise (fun q q' => q.now ≤ q'.now) →
      (∀ q ∈ pool.world.asked, u ≤ q.now ∧ q.now ≤ u + T) →
      (pool.world.published.countP (fun cmd => cmd.store == store) : ℚ) ≤
        (min m 3 : ℕ) + m / (max w 1 : ℕ) * T := by
  obtain ⟨tickets, hcalls, hbal⟩ := balanced_of_reachable henabled hreach
  constructor
  · refine ⟨spentBy tickets, ?_, ?_, fun writer hw => entitled_of_mem_spentBy hbal hw⟩
    · have hinputs : tickets.map Prod.fst = pool.calls.map Call.input := by
        rw [← List.forall₂_eq_eq_eq, List.forall₂_map_left_iff, List.forall₂_map_right_iff]
        exact hcalls.imp fun _ _ h => h.1
      exact hinputs ▸ sublist_spentBy tickets
    · rw [map_snd_spentBy]
      exact hbal.published
  · intro store u T hT horder hwindow
    have hr : (0 : ℚ) ≤ m / (max w 1 : ℕ) := by positivity
    have hbound : ((pool.world.accepted m w).countP (Throttle.inWindow store u (u + T)) : ℚ) ≤
        (min m 3 : ℕ) + m / (max w 1 : ℕ) * (u + T - u) :=
      Throttle.countP_accepted_le hr (Nat.cast_nonneg _) (le_add_of_nonneg_right hT)
        (Throttle.sound_new m w) rfl horder
    rw [add_sub_cancel_left] at hbound
    refine le_trans (Nat.cast_le.2 (hbal.countP_published_le store)) (le_trans ?_ hbound)
    refine Nat.cast_le.2 (List.countP_mono_left fun q hq hstore => ?_)
    exact decide_eq_true ⟨eq_of_beq hstore, hwindow q (Throttle.mem_of_mem_accepted hq)⟩

/-- Every call of `allow` comes at once, and the broker takes every command. -/
def sampleChoice : ∀ q, Chosen q
  | .backlog _ => ()
  | .allow _ => 0
  | .uuid => ""
  | .publish _ => .sent
  | .status .. => .error "database is locked"
  | .deadline => true
  | .cached _ => none
  | .select .. => .ok none
  | .fill .. => ()
  | .cursor .. => .ok none

/-- The client writes another order. -/
def sampleSecondWrite : Request :=
  .grpcWrite (some "orders-key") (some ⟨"upsert", "orders", "order", "2", 1, "2026-01-01T00:00:00Z", "b",
    "accepted", [], some ⟨[]⟩⟩)

/-- Two writes up to their commands, and a round of the monitor in between. -/
def sampleAdmission : List (Pool.Action apiWorld Request) :=
  [.start sampleWrite, .start sampleSecondWrite, .answer 1 sampleChoice, .answer 0 sampleChoice,
    .outside [some (twoUnpublished "orders")], .answer 0 sampleChoice, .answer 1 sampleChoice,
    .answer 1 sampleChoice, .answer 0 sampleChoice]

theorem admission_of_two_writes :
    ∃ pool : Pool Answer Gates Request Response,
      pool.world.published.map (·.key) = ["2", "1"] ∧
      (∃ writers : List (Request × WriteEnvelope),
        (writers.map Prod.fst).Sublist (pool.calls.map Call.input) ∧
        pool.world.published.Perm (writers.map Prod.snd) ∧
        ∀ writer ∈ writers, Entitled sampleServer writer.1 writer.2) ∧
      (pool.world.published.countP (fun cmd => cmd.store == "orders") : ℚ) ≤
        (min 30 3 : ℕ) + (30 : ℕ) / (max 1 1 : ℕ) * 0 := by
  have hrun : (runFrom (Pool.step apiWorld (serve sampleServer))
      ⟨.start 30 1 ⟨500, Table.empty⟩, []⟩ sampleAdmission).map
      (fun pool => (pool.world.published.map (·.key), pool.world.asked.map fun q => (q.store, q.now))) =
        some (["2", "1"], [("orders", 0), ("orders", 0)]) := by
    decide +kernel
  obtain ⟨pool, hreach, hpool⟩ := exists_reachable hrun
  obtain ⟨hpublished, hasked⟩ := Prod.mk.inj hpool
  have hnow : ∀ q ∈ pool.world.asked, q.now = 0 := by
    intro q hq
    have hmem := List.mem_map_of_mem (f := fun q => (q.store, q.now)) hq
    rw [hasked] at hmem
    simp only [List.mem_cons, List.not_mem_nil, or_false, or_self] at hmem
    exact (Prod.mk.inj hmem).2
  obtain ⟨hwriters, hbound⟩ := admission sampleServer rfl 30 1 ⟨500, Table.empty⟩ pool hreach
  refine ⟨pool, hpublished, hwriters, hbound "orders" 0 0 le_rfl ?_ fun q hq => ?_⟩
  · exact List.pairwise_of_forall_mem_list fun q hq q' hq' => ((hnow q hq).trans (hnow q' hq').symm).le
  · rw [hnow q hq]
    exact ⟨le_rfl, le_of_eq (add_zero 0).symm⟩

/-! ### A backlog that is too long -/

/-- The call passed the check of the backlog and can still publish to the store. -/
def Ticket.pending (store : String) : Ticket → Bool
  | .unloaded store' => store' == store
  | .admitted store' => store' == store
  | _ => false

/-- The command that is published, if a call is told so. -/
def published? : Sigma Answer → Option WriteEnvelope
  | ⟨.publish cmd, .sent⟩ => some cmd
  | _ => none

/-- A call is told that a command of the store is published. -/
def isPublished (store : String) (e : Sigma Answer) : Bool :=
  (published? e).any fun cmd => cmd.store == store

/-- The commands that are published in a run, with the positions of the calls that publish them. -/
def publications (V : Server) (pool : Pool Answer Gates Request Response)
    (as : List (Pool.Action apiWorld Request)) : List (ℕ × WriteEnvelope) :=
  (outputs (Pool.step apiWorld (serve V)) (Pool.tells apiWorld) pool as).filterMap fun x =>
    (published? x.2).map fun cmd => (x.1, cmd)

/-- The calls that publish commands of the store, by position. -/
def publishers (store : String) (ps : List (ℕ × WriteEnvelope)) : List ℕ :=
  (ps.filter fun p => p.2.store == store).map Prod.fst

variable {store : String} {as : List (Pool.Action apiWorld Request)} {a : Pool.Action apiWorld Request}

/-- What is published in a step is told to a call. -/
theorem published_of_step (h : Pool.step apiWorld (serve V) pool a = some pool') :
    pool'.world.published =
      pool.world.published ++ (Pool.tells apiWorld pool a).filterMap fun x => published? x.2 := by
  cases Pool.moves_of_step h with
  | start input => exact (List.append_nil _).symm
  | @answer i choice input q next answer world hcall hans =>
    have htells : Pool.tells apiWorld pool (.answer i choice) = [(i, ⟨q, answer⟩)] := by
      simp [Pool.tells, hcall, hans]
    rw [htells]
    obtain ⟨rfl, rfl⟩ := Prod.mk.inj (Option.some.inj hans).symm
    cases q with
    | publish cmd => cases hchoice : choice (.publish cmd) <;> simp [published?]
    | _ => exact (List.append_nil _).symm
  | outside houts =>
    cases houts
    exact (List.append_nil _).symm

theorem published_of_run (h : runFrom (Pool.step apiWorld (serve V)) pool as = some pool') :
    pool'.world.published = pool.world.published ++ (publications V pool as).map Prod.snd := by
  have hsnd : ∀ pool : Pool Answer Gates Request Response, (publications V pool as).map Prod.snd =
      (outputs (Pool.step apiWorld (serve V)) (Pool.tells apiWorld) pool as).filterMap
        fun x => published? x.2 := by
    intro pool
    rw [publications, List.map_filterMap]
    refine List.filterMap_congr fun x _ => ?_
    rw [Option.map_map]
    exact Option.map_id'
  rw [hsnd]
  clear hsnd
  induction as generalizing pool with
  | nil =>
    cases h
    exact (List.append_nil _).symm
  | cons a as ih =>
    obtain ⟨pool₁, hstep, hrest⟩ := runFrom_cons.1 h
    rw [ih hrest, published_of_step hstep, outputs_cons hstep, List.filterMap_append, List.append_assoc]

theorem count_publishers (store : String) (pool : Pool Answer Gates Request Response) (i : ℕ) :
    (publishers store (publications V pool as)).count i =
      (outputs (Pool.step apiWorld (serve V)) (Pool.tells apiWorld) pool as).countP
        fun x => x.1 == i && isPublished store x.2 := by
  rw [publishers, publications, List.count, List.countP_map, List.countP_filter, List.countP_filterMap]
  refine List.countP_congr fun x _ => ?_
  unfold isPublished
  cases published? x.2 <;> simp

/-- What a ticket is worth: the command that the call can still publish to the store. -/
def due (store : String) (s : Unit × Ticket) : ℕ := if s.2.pending store then 1 else 0

theorem due_le_one (store : String) (s : Unit × Ticket) : due store s ≤ 1 := by
  unfold due
  split_ifs
  · exact Nat.le_refl _
  · exact Nat.zero_le _

/-- While the backlog of the store is too long, a call pays with its ticket for what it publishes. -/
theorem due_answer_le {s : Unit × Ticket} {q : Ask} (choice : Chosen q)
    (hover : (g.backlog.check store).isSome) (hallowed : (gated V request).allowed s q) :
    (if isPublished store ⟨q, (g.answer q choice).1⟩ then 1 else 0) +
        due store ((gated V request).next s q (g.answer q choice).1) ≤ due store s := by
  obtain ⟨⟨⟩, ticket⟩ := s
  obtain ⟨-, hallowed⟩ := hallowed
  cases q with
  | backlog store' =>
    cases (hallowed : ticket = .fresh)
    show 0 + (if Ticket.pending store (if (g.backlog.check store').isNone
      then .unloaded store' else .refused) then 1 else 0) ≤ 0
    rw [Nat.zero_add]
    refine Nat.le_of_eq (if_neg ?_)
    by_cases hstore : store' = store
    · rw [hstore, if_neg (by simpa [Option.isSome_iff_ne_none] using hover)]
      exact Bool.false_ne_true
    · split_ifs
      · simpa [Ticket.pending] using hstore
      · exact Bool.false_ne_true
  | allow store' =>
    cases (hallowed : ticket = .unloaded store')
    show 0 + (if Ticket.pending store (if (g.throttle.allowAt store' choice).1 then .admitted store'
      else .refused) then 1 else 0) ≤ _
    rw [Nat.zero_add]
    cases (g.throttle.allowAt store' choice).1 with
    | true => exact Nat.le_refl _
    | false => exact Nat.zero_le _
  | publish cmd =>
    obtain ⟨rfl, -⟩ := (hallowed : ticket = .admitted cmd.store ∧ request.Commands V cmd)
    cases choice with
    | sent => exact Nat.le_refl _
    | unavailable => exact Nat.zero_le _
    | failed detail => exact Nat.zero_le _
  | _ => exact (Nat.zero_add _).le

/-- **The backlog holds.**  From when the backlog of a store is known to be too long, and as long as it
stays so, in every interleaving: each new command of the store is published by a call that was running
then, no two by the same call, and none by a call that is started later. -/
theorem overshoot (V : Server) (henabled : V.auth.enabled = true) (m w : ℕ) (backlog : OutboxBacklog)
    (store : String) (pool pool' : Pool Answer Gates Request Response) (as : List _)
    (hreach : Reachable (Pool.step apiWorld (serve V)) ⟨.start m w backlog, []⟩ pool)
    (hover : StepsMeet (Pool.step apiWorld (serve V))
      (fun pool _ => (pool.world.backlog.check store).isSome) pool as)
    (hrun : runFrom (Pool.step apiWorld (serve V)) pool as = some pool') :
    pool'.world.published = pool.world.published ++ (publications V pool as).map Prod.snd ∧
      (publishers store (publications V pool as)).Nodup ∧
      ∀ i ∈ publishers store (publications V pool as),
        ∃ call, pool.calls[i]? = some call ∧ call.prog.running = true := by
  obtain ⟨tickets, hcalls, -⟩ := balanced_of_reachable henabled hreach
  have hpaid : ∀ i, (publishers store (publications V pool as)).count i ≤
      Pool.dueAt (due store) tickets i := by
    intro i
    rw [count_publishers]
    refine Pool.countP_tells_le (C := fun g => (g.backlog.check store).isSome)
      (follows_gated henabled) (fun _ => rfl) ?_ hcalls hover hrun i
    intro g request s q choice answer g' hg hallowed hanswer
    have hle := due_answer_le choice hg hallowed
    have hanswer' : g.answer q choice = (answer, g') := Option.some.inj hanswer
    rw [hanswer'] at hle
    exact hle
  have hone : ∀ i, Pool.dueAt (due store) tickets i ≤ 1 := by
    intro i
    unfold Pool.dueAt
    cases tickets[i]? with
    | none => exact Nat.zero_le _
    | some t => exact due_le_one store t.2
  refine ⟨published_of_run hrun, List.nodup_iff_count_le_one.2 fun i => (hpaid i).trans (hone i),
    fun i hi => ?_⟩
  have hdue : 0 < Pool.dueAt (due store) tickets i :=
    lt_of_lt_of_le (List.count_pos_iff.2 hi) (hpaid i)
  -- only a call that is not done has a ticket to use
  unfold Pool.dueAt at hdue
  cases ht : tickets[i]? with
  | none => simp [ht] at hdue
  | some t =>
    obtain ⟨call, hcall, hat⟩ := Pool.exists_getElem?_of_forall₂ hcalls.flip ht
    refine ⟨call, hcall, ?_⟩
    rw [ht, Option.map_some, Option.getD_some] at hdue
    obtain ⟨input, ⟨⟩, ticket⟩ := t
    obtain ⟨input', prog⟩ := call
    cases prog with
    | ask q next => rfl
    | ret response =>
      obtain ⟨-, -, hused⟩ := hat
      cases ticket <;> first | exact hused.elim | exact absurd hdue (Nat.lt_irrefl 0)

/-- A second write is started, and each of the two goes on. -/
def sampleOvershoot : List (Pool.Action apiWorld Request) :=
  [.start sampleWrite, .answer 1 sampleChoice, .answer 0 sampleChoice, .answer 0 sampleChoice]

theorem overshoot_of_a_running_write :
    ∃ pool pool' : Pool Answer Gates Request Response, ∃ as,
      StepsMeet (Pool.step apiWorld (serve sampleServer))
        (fun pool _ => (pool.world.backlog.check "orders").isSome) pool as ∧
      runFrom (Pool.step apiWorld (serve sampleServer)) pool as = some pool' ∧
      pool'.calls.length = 2 ∧
      pool'.world.published.map (·.store) = ["orders"] ∧
      pool'.world.published =
        pool.world.published ++ (publications sampleServer pool as).map Prod.snd ∧
      (publishers "orders" (publications sampleServer pool as)).Nodup ∧
      ∀ i ∈ publishers "orders" (publications sampleServer pool as),
        ∃ call, pool.calls[i]? = some call ∧ call.prog.running = true := by
  -- the monitor finds the backlog between the two checks of the first write
  have hrun : (runFrom (Pool.step apiWorld (serve sampleServer)) ⟨.start 30 1 ⟨1, Table.empty⟩, []⟩
      [.start sampleWrite, .answer 0 sampleChoice, .outside [some (twoUnpublished "orders")]]).map
      (fun pool => decide (StepsMeet (Pool.step apiWorld (serve sampleServer))
          (fun pool _ => (pool.world.backlog.check "orders").isSome) pool sampleOvershoot ∧
        (runFrom (Pool.step apiWorld (serve sampleServer)) pool sampleOvershoot).map
          (fun pool' => (pool'.calls.length, pool'.world.published.map (·.store))) =
            some (2, ["orders"]))) = some true := by
    decide +kernel
  obtain ⟨pool, hreach, hpool⟩ := exists_reachable hrun
  obtain ⟨hover, hafter⟩ := of_decide_eq_true hpool
  obtain ⟨pool', hrun', heq⟩ := Option.map_eq_some_iff.1 hafter
  obtain ⟨hlength, hpublished⟩ := Prod.mk.inj heq
  exact ⟨pool, pool', _, hover, hrun', hlength, hpublished,
    overshoot sampleServer rfl 30 1 _ "orders" pool pool' _ hreach hover hrun'⟩

end Api

end Ixmati
