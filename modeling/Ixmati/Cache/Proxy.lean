import Ixmati.Cache.ReadModes
import Ixmati.Lib.Run
import Mathlib.Data.List.Nodup

/-!
# Queries to the cache over MQTT

With `CACHE_READ_MODE=mqtt` the API does not talk to the cache server: `CacheProxy::query` publishes a
query under a fresh correlation id and waits 100 ms for a response with that id
(`cache_proxy.rs`), and every `CacheResponder` answers every query from its own cache
(`cache_responder.rs`).  Here any number of calls, the event loop of the proxy and any number of
responders take their steps in any order, and a call may be dropped at any moment, as it is when its
request is cancelled.

Nothing is assumed of the broker: what was ever published may be delivered any number of times, at any
time and in any order, or never.  Of `Uuid::new_v4` it is assumed that it does not repeat.  For the
proofs, the contents that the caches had are kept, and a call remembers when it began.

* `Proxy.query_returns_cached` : what a call returns was in the cache of a responder while the call was
  under way; the map holds every call that waits without a response, and besides only calls that leave
  without one, or that were dropped.
-/

namespace Ixmati

namespace Cache

namespace Proxy

/-- The body of a query. -/
structure CacheQuery where
  correlationId : String
  store : String
  entity : String
  key : String
  deriving DecidableEq

/-- The body of a response. -/
structure CacheResponse where
  correlationId : String
  found : Bool
  payload : Option Bytes
  deriving DecidableEq

/-- Where a call of `query` is. -/
inductive Stage where
  /-- In `client.publish`. -/
  | publishing
  /-- In `timeout(100 ms, rx)`. -/
  | waiting
  /-- The outcome is there, and the call is still in the map, or may be. -/
  | leaving (response : Option CacheResponse)
  | returned (result : Option Bytes) (moment : ℕ)
  /-- The request was cancelled, and the call with it. -/
  | dropped
  deriving DecidableEq

/-- A call of `query`. -/
structure Call where
  query : CacheQuery
  /-- When the call began. -/
  since : ℕ
  /-- What the event loop has sent on `tx`. -/
  slot : Option CacheResponse
  stage : Stage

/-- The proxy, the broker and the responders. -/
structure State where
  /-- The cache of each responder. -/
  caches : ℕ → Backend
  /-- What the caches were before, for the proofs. -/
  past : List (ℕ → Backend)
  calls : List Call
  /-- `pending`: the call that holds the other end of the channel, by correlation id. -/
  pending : String → Option ℕ
  /-- All queries ever published. -/
  queries : List CacheQuery
  /-- All responses ever published. -/
  responses : List CacheResponse

/-- The steps of the system. -/
inductive Action where
  /-- The cache of a responder changes. -/
  | write (responder : ℕ) (cache : Backend)
  /-- A call of `query` begins; `uuid` is `Uuid::new_v4()`. -/
  | begin (uuid store entity key : String)
  /-- `client.publish` returns. -/
  | publish (i : ℕ) (ok : Bool)
  /-- A responder receives the query at position `n` and answers it. -/
  | respond (responder n : ℕ)
  /-- The event loop receives the response at position `n`. -/
  | receive (n : ℕ)
  /-- The response wakes the call. -/
  | wake (i : ℕ)
  /-- The timeout is over and no response is there. -/
  | expire (i : ℕ)
  /-- The call takes itself from the map and returns. -/
  | leave (i : ℕ)
  /-- The call is dropped where it waits; what it has put in the map stays there. -/
  | cancel (i : ℕ)

/-- The state before the first call. -/
def init (caches : ℕ → Backend) : State where
  caches := caches
  past := []
  calls := []
  pending := fun _ => none
  queries := []
  responses := []

/-- The answer of a responder. -/
def responseTo (b : Backend) (q : CacheQuery) : CacheResponse where
  correlationId := q.correlationId
  found := (respond b q.store q.entity q.key).isSome
  payload := respond b q.store q.entity q.key

/-- What the call makes of the outcome. -/
def resultOf : Option CacheResponse → Option Bytes
  | some r => if r.found then r.payload else none
  | none => none

/-- The call still holds `rx`. -/
def Call.isOpen (c : Call) : Bool :=
  match c.stage with
  | .publishing | .waiting => true
  | .leaving _ | .returned _ _ | .dropped => false

/-- The call is over. -/
def Call.isOver (c : Call) : Bool :=
  match c.stage with
  | .returned _ _ | .dropped => true
  | .publishing | .waiting | .leaving _ => false

/-- `tx.send(resp)`. -/
def Call.send (c : Call) (r : CacheResponse) : Call := if c.isOpen then { c with slot := some r } else c

/-- One step. -/
def step (s : State) : Action → Option State
  | .write responder cache =>
    some { s with
      caches := Function.update s.caches responder cache, past := s.past ++ [s.caches] }
  | .begin uuid store entity key =>
    if ∀ c ∈ s.calls, c.query.correlationId ≠ uuid then
      some { s with
        calls := s.calls ++ [⟨⟨uuid, store, entity, key⟩, s.past.length, none, .publishing⟩]
        pending := Function.update s.pending uuid (some s.calls.length) }
    else none
  | .publish i ok =>
    match s.calls[i]? with
    | some c =>
      if c.stage = .publishing then
        if ok then
          some { s with
            queries := s.queries ++ [c.query], calls := s.calls.set i { c with stage := .waiting } }
        else some { s with calls := s.calls.set i { c with stage := .leaving none } }
      else none
    | none => none
  | .respond responder n =>
    match s.queries[n]? with
    | some q => some { s with responses := s.responses ++ [responseTo (s.caches responder) q] }
    | none => none
  | .receive n =>
    match s.responses[n]? with
    | some r =>
      match s.pending r.correlationId with
      | some i =>
        match s.calls[i]? with
        | some c =>
          some { s with
            pending := Function.update s.pending r.correlationId none
            calls := s.calls.set i (c.send r) }
        | none => none
      -- nobody waits for it any more
      | none => some s
    | none => none
  | .wake i =>
    match s.calls[i]? with
    | some c =>
      match c.stage, c.slot with
      | .waiting, some r => some { s with calls := s.calls.set i { c with stage := .leaving (some r) } }
      | _, _ => none
    | none => none
  | .expire i =>
    match s.calls[i]? with
    | some c =>
      match c.stage, c.slot with
      | .waiting, none => some { s with calls := s.calls.set i { c with stage := .leaving none } }
      | _, _ => none
    | none => none
  | .leave i =>
    match s.calls[i]? with
    | some c =>
      match c.stage with
      | .leaving response =>
        some { s with
          pending := Function.update s.pending c.query.correlationId none
          calls := s.calls.set i { c with stage := .returned (resultOf response) s.past.length } }
      | _ => none
    | none => none
  | .cancel i =>
    match s.calls[i]? with
    | some c => if c.isOver then none else some { s with calls := s.calls.set i { c with stage := .dropped } }
    | none => none

/-- What a step can do, by cases. -/
inductive Moves (s : State) : Action → State → Prop where
  | write (responder : ℕ) (cache : Backend) :
    Moves s (.write responder cache)
      { s with
        caches := Function.update s.caches responder cache, past := s.past ++ [s.caches] }
  | begin {uuid : String} (store entity key : String)
      (hfresh : ∀ c ∈ s.calls, c.query.correlationId ≠ uuid) :
    Moves s (.begin uuid store entity key)
      { s with
        calls := s.calls ++ [⟨⟨uuid, store, entity, key⟩, s.past.length, none, .publishing⟩]
        pending := Function.update s.pending uuid (some s.calls.length) }
  | publishOk {i : ℕ} {c : Call} (hc : s.calls[i]? = some c) (hstage : c.stage = .publishing) :
    Moves s (.publish i true)
      { s with
        queries := s.queries ++ [c.query], calls := s.calls.set i { c with stage := .waiting } }
  | publishErr {i : ℕ} {c : Call} (hc : s.calls[i]? = some c) (hstage : c.stage = .publishing) :
    Moves s (.publish i false) { s with calls := s.calls.set i { c with stage := .leaving none } }
  | respond (responder : ℕ) {n : ℕ} {q : CacheQuery} (hq : s.queries[n]? = some q) :
    Moves s (.respond responder n)
      { s with responses := s.responses ++ [responseTo (s.caches responder) q] }
  | receive {n i : ℕ} {r : CacheResponse} {c : Call} (hr : s.responses[n]? = some r)
      (hpend : s.pending r.correlationId = some i) (hc : s.calls[i]? = some c) :
    Moves s (.receive n)
      { s with
        pending := Function.update s.pending r.correlationId none
        calls := s.calls.set i (c.send r) }
  | ignore {n : ℕ} {r : CacheResponse} (hr : s.responses[n]? = some r)
      (hpend : s.pending r.correlationId = none) :
    Moves s (.receive n) s
  | wake {i : ℕ} {c : Call} {r : CacheResponse} (hc : s.calls[i]? = some c)
      (hstage : c.stage = .waiting) (hslot : c.slot = some r) :
    Moves s (.wake i) { s with calls := s.calls.set i { c with stage := .leaving (some r) } }
  | expire {i : ℕ} {c : Call} (hc : s.calls[i]? = some c) (hstage : c.stage = .waiting)
      (hslot : c.slot = none) :
    Moves s (.expire i) { s with calls := s.calls.set i { c with stage := .leaving none } }
  | leave {i : ℕ} {c : Call} {response : Option CacheResponse} (hc : s.calls[i]? = some c)
      (hstage : c.stage = .leaving response) :
    Moves s (.leave i)
      { s with
        pending := Function.update s.pending c.query.correlationId none
        calls := s.calls.set i { c with stage := .returned (resultOf response) s.past.length } }
  | cancel {i : ℕ} {c : Call} (hc : s.calls[i]? = some c) (hover : c.isOver = false) :
    Moves s (.cancel i) { s with calls := s.calls.set i { c with stage := .dropped } }

variable {s s' : State} {a : Action}

theorem moves_of_step (h : step s a = some s') : Moves s a s' := by
  cases a with
  | write responder cache =>
    cases h
    exact .write responder cache
  | begin uuid store entity key =>
    simp only [step, Option.ite_none_right_eq_some, Option.some.injEq] at h
    obtain ⟨hfresh, rfl⟩ := h
    exact .begin store entity key hfresh
  | publish i ok =>
    simp only [step] at h
    split at h
    · rename_i c hc
      split_ifs at h with hstage hok <;> cases h
      · rw [hok]
        exact .publishOk hc hstage
      · rw [Bool.eq_false_iff.2 hok]
        exact .publishErr hc hstage
    · cases h
  | respond responder n =>
    simp only [step] at h
    split at h <;> cases h
    exact .respond responder ‹_›
  | receive n =>
    simp only [step] at h
    split at h
    · rename_i r hr
      split at h
      · rename_i i hpend
        split at h <;> cases h
        exact .receive hr hpend ‹_›
      · rename_i hpend
        cases h
        exact .ignore hr hpend
    · cases h
  | wake i =>
    simp only [step] at h
    split at h
    · rename_i c hc
      split at h <;> cases h
      exact .wake hc ‹_› ‹_›
    · cases h
  | expire i =>
    simp only [step] at h
    split at h
    · rename_i c hc
      split at h <;> cases h
      exact .expire hc ‹_› ‹_›
    · cases h
  | leave i =>
    simp only [step] at h
    split at h
    · rename_i c hc
      split at h <;> cases h
      exact .leave hc ‹_›
    · cases h
  | cancel i =>
    simp only [step] at h
    split at h
    · rename_i c hc
      split_ifs at h with hover
      cases h
      exact .cancel hc (Bool.eq_false_iff.2 hover)
    · cases h

/-! ### The map of the waiting calls -/

/-- No response was sent to the call, and it has not taken itself from the map: it waits, or leaves
without a response, or was dropped. -/
def Call.isUnanswered (c : Call) : Bool :=
  c.slot.isNone &&
    match c.stage with
    | .publishing | .waiting | .leaving none | .dropped => true
    | .leaving (some _) | .returned _ _ => false

/-- The map holds unanswered calls only, and all of those that wait. -/
structure Linked (calls : List Call) (pending : String → Option ℕ) : Prop where
  unanswered : ∀ id i, pending id = some i →
    ∃ c, calls[i]? = some c ∧ c.query.correlationId = id ∧ c.isUnanswered
  registered : ∀ (i : ℕ) (c : Call), calls[i]? = some c → c.isOpen → c.slot = none →
    pending c.query.correlationId = some i

theorem isUnanswered_iff {c : Call} :
    c.isUnanswered ↔ c.slot = none ∧
      (c.isOpen ∨ c.stage = .leaving none ∨ c.stage = .dropped) := by
  unfold Call.isUnanswered Call.isOpen
  rw [Bool.and_eq_true, Option.isNone_iff_eq_none]
  refine and_congr_right fun _ => ?_
  cases c.stage with
  | leaving response => cases response <;> simp
  | _ => simp

section Linked

variable {calls : List Call} {pending : String → Option ℕ} {i : ℕ} {c d : Call}

/-- A call goes on. -/
theorem Linked.set (h : Linked calls pending) (hc : calls[i]? = some c) (hq : d.query = c.query)
    (hkeep : c.isUnanswered → d.isUnanswered)
    (hopen : d.isOpen → d.slot = none → c.isOpen ∧ c.slot = none) :
    Linked (calls.set i d) pending := by
  have hlt := (List.getElem?_eq_some_iff.1 hc).1
  refine ⟨fun id j hj => ?_, fun j e he heo hes => ?_⟩
  · obtain ⟨e, he, hid, hun⟩ := h.unanswered id j hj
    by_cases hij : i = j
    · subst hij
      rw [hc, Option.some.injEq] at he
      exact ⟨d, List.getElem?_set_self hlt, by rw [hq, he, hid], hkeep (he ▸ hun)⟩
    · exact ⟨e, by rw [List.getElem?_set_ne hij, he], hid, hun⟩
  · by_cases hij : i = j
    · subst hij
      rw [List.getElem?_set_self hlt, Option.some.injEq] at he
      subst he
      obtain ⟨hco, hcs⟩ := hopen heo hes
      rw [hq]
      exact h.registered i c hc hco hcs
    · rw [List.getElem?_set_ne hij] at he
      exact h.registered j e he heo hes

/-- A call is answered, or leaves. -/
theorem Linked.remove (h : Linked calls pending)
    (hfresh : (calls.map fun c => c.query.correlationId).Nodup) (hc : calls[i]? = some c)
    (hclosed : d.isOpen → d.slot ≠ none) :
    Linked (calls.set i d) (Function.update pending c.query.correlationId none) := by
  have hlt := (List.getElem?_eq_some_iff.1 hc).1
  have hother : ∀ (j : ℕ) (e : Call), calls[j]? = some e → i ≠ j →
      e.query.correlationId ≠ c.query.correlationId := by
    intro j e he hij hid
    refine hij ((List.getElem?_inj (by simpa using hlt) hfresh).1 ?_)
    rw [List.getElem?_map, List.getElem?_map, hc, he, Option.map_some, Option.map_some, hid]
  refine ⟨fun id j hj => ?_, fun j e he heo hes => ?_⟩
  · rw [Function.update_apply] at hj
    split_ifs at hj with hid
    obtain ⟨e, he, heid, hun⟩ := h.unanswered id j hj
    have hij : i ≠ j := by
      rintro rfl
      rw [hc, Option.some.injEq] at he
      exact hid (by rw [← heid, he])
    exact ⟨e, by rw [List.getElem?_set_ne hij, he], heid, hun⟩
  · by_cases hij : i = j
    · subst hij
      rw [List.getElem?_set_self hlt, Option.some.injEq] at he
      subst he
      exact absurd hes (hclosed heo)
    · rw [List.getElem?_set_ne hij] at he
      rw [Function.update_of_ne (hother j e he hij)]
      exact h.registered j e he heo hes

/-- A call begins. -/
theorem Linked.begin (h : Linked calls pending) {c : Call} (hun : c.isUnanswered)
    (hfresh : ∀ e ∈ calls, e.query.correlationId ≠ c.query.correlationId) :
    Linked (calls ++ [c]) (Function.update pending c.query.correlationId (some calls.length)) := by
  refine ⟨fun id j hj => ?_, fun j e he heo hes => ?_⟩
  · rw [Function.update_apply] at hj
    split_ifs at hj with hid
    · cases hj
      exact ⟨c, by simp, hid.symm, hun⟩
    · obtain ⟨e, he, heid, heun⟩ := h.unanswered id j hj
      have hlt := (List.getElem?_eq_some_iff.1 he).1
      exact ⟨e, by rw [List.getElem?_append_left hlt, he], heid, heun⟩
  · rcases Nat.lt_or_ge j calls.length with hlt | hge
    · rw [List.getElem?_append_left hlt] at he
      rw [Function.update_of_ne (hfresh e (List.mem_of_getElem? he))]
      exact h.registered j e he heo hes
    · rw [List.getElem?_append_right hge] at he
      obtain ⟨hj, hec⟩ := List.getElem?_eq_some_iff.1 he
      have hj' : j - calls.length = 0 := by simpa using hj
      have hjl : j = calls.length := by omega
      have hdd : e = c := by simpa [hj'] using hec.symm
      subst hdd
      rw [hjl, Function.update_self]

end Linked

/-! ### Where the answers come from -/

/-- The contents of the caches at each moment. -/
def State.contents (s : State) : List (ℕ → Backend) := s.past ++ [s.caches]

/-- The response is the one of some responder to the query, at a moment from `since` to `til`. -/
def Answers (contents : List (ℕ → Backend)) (q : CacheQuery) (since til : ℕ) (r : CacheResponse) :
    Prop :=
  ∃ t caches responder, since ≤ t ∧ t ≤ til ∧ contents[t]? = some caches ∧
    r = responseTo (caches responder) q

/-- What is known of a call at the moment `now`. -/
structure CallOk (contents : List (ℕ → Backend)) (now : ℕ) (c : Call) : Prop where
  since : c.since ≤ now
  slot : ∀ r, c.slot = some r → Answers contents c.query c.since now r
  leaving : ∀ r, c.stage = .leaving (some r) → Answers contents c.query c.since now r
  returned : ∀ bytes t, c.stage = .returned (some bytes) t →
    ∃ r, Answers contents c.query c.since t r ∧ r.payload = some bytes

/-- The queries of the calls, with the moments when they began. -/
def State.asked (s : State) : List (CacheQuery × ℕ) := s.calls.map fun c => (c.query, c.since)

/-- What every step keeps. -/
structure Inv (s : State) : Prop where
  fresh : (s.calls.map fun c => c.query.correlationId).Nodup
  linked : Linked s.calls s.pending
  calls : ∀ c ∈ s.calls, CallOk s.contents s.past.length c
  queries : ∀ q ∈ s.queries, ∃ since, (q, since) ∈ s.asked
  responses : ∀ r ∈ s.responses, ∃ q since, (q, since) ∈ s.asked ∧
    r.correlationId = q.correlationId ∧ Answers s.contents q since s.past.length r

theorem Answers.mono {contents more : List (ℕ → Backend)} {q : CacheQuery} {since til til' : ℕ}
    {r : CacheResponse} (h : Answers contents q since til r) (hle : til ≤ til') :
    Answers (contents ++ more) q since til' r := by
  obtain ⟨t, caches, responder, hsince, htil, hcaches, hr⟩ := h
  have hlt := (List.getElem?_eq_some_iff.1 hcaches).1
  exact ⟨t, caches, responder, hsince, htil.trans hle,
    by rw [List.getElem?_append_left hlt, hcaches], hr⟩

theorem CallOk.mono {contents more : List (ℕ → Backend)} {now now' : ℕ} {c : Call}
    (h : CallOk contents now c) (hle : now ≤ now') : CallOk (contents ++ more) now' c :=
  ⟨h.since.trans hle, fun r hr => (h.slot r hr).mono hle, fun r hr => (h.leaving r hr).mono hle,
    fun bytes t hret => by
      obtain ⟨r, hr, hpay⟩ := h.returned bytes t hret
      exact ⟨r, hr.mono (Nat.le_refl t), hpay⟩⟩

theorem asked_set {calls : List Call} {i : ℕ} {c c' : Call} (hc : calls[i]? = some c)
    (hq : c'.query = c.query) (hsince : c'.since = c.since) :
    (calls.set i c').map (fun c => (c.query, c.since)) = calls.map fun c => (c.query, c.since) := by
  rw [List.map_set, hq, hsince]
  refine List.ext_getElem? fun j => ?_
  by_cases hij : i = j
  · subst hij
    have hlt : i < (calls.map fun c => (c.query, c.since)).length := by
      simpa using (List.getElem?_eq_some_iff.1 hc).1
    rw [List.getElem?_set_self hlt, List.getElem?_map, hc, Option.map_some]
  · rw [List.getElem?_set_ne hij]

theorem ids_eq (s : State) :
    (s.calls.map fun c => c.query.correlationId) = s.asked.map fun a => a.1.correlationId := by
  rw [State.asked, List.map_map]
  rfl

/-- One call goes on, and the caches stay. -/
theorem Inv.setCall (hs : Inv s) {i : ℕ} {c d : Call} (hc : s.calls[i]? = some c)
    (hq : d.query = c.query) (hsince : d.since = c.since)
    (hok : CallOk s.contents s.past.length d) {pending : String → Option ℕ}
    (hlinked : Linked (s.calls.set i d) pending) {queries : List CacheQuery}
    (hqueries : ∀ q ∈ queries, ∃ since, (q, since) ∈ s.asked) :
    Inv { s with calls := s.calls.set i d, pending := pending, queries := queries } := by
  have hasked := asked_set hc hq hsince
  refine ⟨?_, hlinked, fun e he => ?_, ?_, ?_⟩
  · rw [ids_eq]
    show ((s.calls.set i d).map fun c => (c.query, c.since)).map _ |>.Nodup
    rw [hasked]
    exact (ids_eq s) ▸ hs.fresh
  · rcases List.mem_or_eq_of_mem_set he with he | rfl
    · exact hs.calls e he
    · exact hok
  · intro q hmem
    obtain ⟨since, hin⟩ := hqueries q hmem
    refine ⟨since, ?_⟩
    show _ ∈ (s.calls.set i d).map _
    rw [hasked]
    exact hin
  · intro r hr
    obtain ⟨q, since, hin, hrest⟩ := hs.responses r hr
    refine ⟨q, since, ?_, hrest⟩
    show _ ∈ (s.calls.set i d).map _
    rw [hasked]
    exact hin

/-- The response that is received for a call answers its query. -/
theorem Inv.answers (hs : Inv s) {r : CacheResponse} (hr : r ∈ s.responses) {c : Call}
    (hc : c ∈ s.calls) (hid : c.query.correlationId = r.correlationId) :
    Answers s.contents c.query c.since s.past.length r := by
  obtain ⟨q, since, hin, hrid, hans⟩ := hs.responses r hr
  have hnd : (s.asked.map fun a => a.1.correlationId).Nodup := (ids_eq s) ▸ hs.fresh
  have heq : (q, since) = (c.query, c.since) :=
    List.inj_on_of_nodup_map hnd hin (List.mem_map.2 ⟨c, hc, rfl⟩) (hrid.symm.trans hid.symm)
  obtain ⟨rfl, rfl⟩ := Prod.mk.inj heq
  exact hans

theorem inv_init (caches : ℕ → Backend) : Inv (init caches) := by
  refine ⟨List.nodup_nil, ⟨?_, ?_⟩, ?_, ?_, ?_⟩ <;> simp [init]

theorem inv_write (hs : Inv s) (responder : ℕ) (cache : Backend) :
    Inv { s with
      caches := Function.update s.caches responder cache, past := s.past ++ [s.caches] } := by
  have hle : s.past.length ≤ (s.past ++ [s.caches]).length := by simp
  refine ⟨hs.fresh, hs.linked, fun c hc => (hs.calls c hc).mono hle, hs.queries, fun r hr => ?_⟩
  obtain ⟨q, since, hin, hid, hans⟩ := hs.responses r hr
  exact ⟨q, since, hin, hid, hans.mono hle⟩

theorem inv_begin (hs : Inv s) {uuid : String} (store entity key : String)
    (hfresh : ∀ c ∈ s.calls, c.query.correlationId ≠ uuid) :
    Inv { s with
      calls := s.calls ++ [⟨⟨uuid, store, entity, key⟩, s.past.length, none, .publishing⟩]
      pending := Function.update s.pending uuid (some s.calls.length) } := by
  have hmore : ∀ (c : Call), ∀ a ∈ s.asked,
      a ∈ (s.calls ++ [c]).map fun c => (c.query, c.since) := by
    intro c a ha
    rw [List.map_append]
    exact List.mem_append_left _ ha
  refine ⟨?_, ?_, fun c hc => ?_, fun q hq => ?_, fun r hr => ?_⟩
  · rw [List.map_append, List.nodup_append]
    refine ⟨hs.fresh, List.nodup_singleton _, ?_⟩
    intro id hid id' hid' heq
    obtain ⟨c, hc, rfl⟩ := List.mem_map.1 hid
    exact hfresh c hc (heq.trans (List.mem_singleton.1 hid'))
  · exact hs.linked.begin (c := ⟨⟨uuid, store, entity, key⟩, s.past.length, none, .publishing⟩) rfl
      hfresh
  · rcases List.mem_append.1 hc with hc | hc
    · exact hs.calls c hc
    · rw [List.mem_singleton.1 hc]
      exact ⟨Nat.le_refl _, by simp, by simp, by simp⟩
  · obtain ⟨since, hin⟩ := hs.queries q hq
    exact ⟨since, hmore _ _ hin⟩
  · obtain ⟨q, since, hin, hrest⟩ := hs.responses r hr
    exact ⟨q, since, hmore _ _ hin, hrest⟩

theorem inv_respond (hs : Inv s) (responder : ℕ) {q : CacheQuery} (hq : q ∈ s.queries) :
    Inv { s with responses := s.responses ++ [responseTo (s.caches responder) q] } := by
  refine ⟨hs.fresh, hs.linked, hs.calls, hs.queries, fun r hr => ?_⟩
  rcases List.mem_append.1 hr with hr | hr
  · exact hs.responses r hr
  · obtain ⟨since, hin⟩ := hs.queries q hq
    obtain ⟨c, hc, heq⟩ := List.mem_map.1 hin
    obtain ⟨rfl, rfl⟩ := Prod.mk.inj heq
    rw [List.mem_singleton.1 hr]
    refine ⟨c.query, c.since, hin, rfl, s.past.length, s.caches, responder, (hs.calls c hc).since,
      Nat.le_refl _, ?_, rfl⟩
    simp [State.contents]

/-- A call has no response to wait for any more. -/
theorem Inv.giveUp (hs : Inv s) {i : ℕ} {c : Call} (hc : s.calls[i]? = some c) :
    Inv { s with calls := s.calls.set i { c with stage := .leaving none } } := by
  have hok := hs.calls c (List.mem_of_getElem? hc)
  have hlinked : Linked (s.calls.set i { c with stage := .leaving none }) s.pending :=
    hs.linked.set hc rfl (fun hun => by simpa [Call.isUnanswered] using (isUnanswered_iff.1 hun).1)
      fun hopen => by simp [Call.isOpen] at hopen
  exact hs.setCall (d := { c with stage := .leaving none }) hc rfl rfl
    ⟨hok.since, hok.slot, by simp, by simp⟩ hlinked hs.queries

/-- A call is dropped. -/
theorem inv_cancel (hs : Inv s) {i : ℕ} {c : Call} (hc : s.calls[i]? = some c) :
    Inv { s with calls := s.calls.set i { c with stage := .dropped } } := by
  have hok := hs.calls c (List.mem_of_getElem? hc)
  have hlinked : Linked (s.calls.set i { c with stage := .dropped }) s.pending :=
    hs.linked.set hc rfl (fun hun => by simpa [Call.isUnanswered] using (isUnanswered_iff.1 hun).1)
      fun hopen => by simp [Call.isOpen] at hopen
  exact hs.setCall (d := { c with stage := .dropped }) hc rfl rfl
    ⟨hok.since, hok.slot, by simp, by simp⟩ hlinked hs.queries

theorem inv_receive (hs : Inv s) {r : CacheResponse} (hr : r ∈ s.responses) {i : ℕ}
    (hpend : s.pending r.correlationId = some i) {c : Call} (hc : s.calls[i]? = some c) :
    Inv { s with
      pending := Function.update s.pending r.correlationId none
      calls := s.calls.set i (c.send r) } := by
  have hmem := List.mem_of_getElem? hc
  have hok := hs.calls c hmem
  have hid : c.query.correlationId = r.correlationId := by
    obtain ⟨d, hd, hdid, -⟩ := hs.linked.unanswered _ _ hpend
    rw [hc, Option.some.injEq] at hd
    rw [hd, hdid]
  have hans := hs.answers hr hmem hid
  rw [← hid]
  by_cases hopen : c.isOpen = true
  · have hsend : c.send r = { c with slot := some r } := by rw [Call.send, if_pos hopen]
    rw [hsend]
    have hlinked : Linked (s.calls.set i { c with slot := some r })
        (Function.update s.pending c.query.correlationId none) :=
      hs.linked.remove hs.fresh hc fun _ => by simp
    refine hs.setCall (d := { c with slot := some r }) hc rfl rfl
      ⟨hok.since, ?_, hok.leaving, hok.returned⟩ hlinked hs.queries
    rintro x hx
    cases hx
    exact hans
  · -- `rx` is gone, and the response with it
    have hsend : c.send r = c := by rw [Call.send, if_neg hopen]
    rw [hsend]
    exact hs.setCall hc rfl rfl hok
      (hs.linked.remove hs.fresh hc fun ho => absurd ho hopen) hs.queries

theorem inv_leave (hs : Inv s) {i : ℕ} {c : Call} (hc : s.calls[i]? = some c)
    {response : Option CacheResponse} (hstage : c.stage = .leaving response) :
    Inv { s with
      pending := Function.update s.pending c.query.correlationId none
      calls := s.calls.set i { c with stage := .returned (resultOf response) s.past.length } } := by
  have hok := hs.calls c (List.mem_of_getElem? hc)
  have hlinked : Linked
      (s.calls.set i { c with stage := .returned (resultOf response) s.past.length })
      (Function.update s.pending c.query.correlationId none) :=
    hs.linked.remove hs.fresh hc fun hopen => by simp [Call.isOpen] at hopen
  refine hs.setCall (d := { c with stage := .returned (resultOf response) s.past.length }) hc rfl
    rfl ⟨hok.since, hok.slot, by simp, ?_⟩ hlinked hs.queries
  rintro bytes t hret
  simp only [Stage.returned.injEq] at hret
  obtain ⟨hres, rfl⟩ := hret
  cases response with
  | none => cases hres
  | some r =>
    refine ⟨r, hok.leaving r hstage, ?_⟩
    simp only [resultOf] at hres
    split_ifs at hres
    exact hres

theorem inv_step (hs : Inv s) (h : step s a = some s') : Inv s' := by
  cases moves_of_step h with
  | write responder cache => exact inv_write hs responder cache
  | begin store entity key hfresh => exact inv_begin hs store entity key hfresh
  | publishOk hc hstage =>
    rename_i i c
    have hok := hs.calls c (List.mem_of_getElem? hc)
    have hlinked : Linked (s.calls.set i { c with stage := .waiting }) s.pending :=
      hs.linked.set hc rfl (fun hun => by simpa [Call.isUnanswered] using (isUnanswered_iff.1 hun).1)
        fun _ hslot => ⟨by simp [Call.isOpen, hstage], hslot⟩
    refine hs.setCall (d := { c with stage := .waiting }) hc rfl rfl
      ⟨hok.since, hok.slot, by simp, by simp⟩ hlinked fun q hq => ?_
    rcases List.mem_append.1 hq with hq | hq
    · exact hs.queries q hq
    · rw [List.mem_singleton.1 hq]
      exact ⟨c.since, List.mem_map.2 ⟨c, List.mem_of_getElem? hc, rfl⟩⟩
  | publishErr hc => exact hs.giveUp hc
  | respond responder hq => exact inv_respond hs responder (List.mem_of_getElem? hq)
  | receive hr hpend hc => exact inv_receive hs (List.mem_of_getElem? hr) hpend hc
  | ignore => exact hs
  | wake hc hstage hslot =>
    rename_i i c r
    have hok := hs.calls c (List.mem_of_getElem? hc)
    have hlinked : Linked (s.calls.set i { c with stage := .leaving (some r) }) s.pending :=
      hs.linked.set hc rfl (fun hun => absurd (isUnanswered_iff.1 hun).1 (by simp [hslot]))
        fun hopen => by simp [Call.isOpen] at hopen
    refine hs.setCall (d := { c with stage := .leaving (some r) }) hc rfl rfl
      ⟨hok.since, hok.slot, ?_, by simp⟩ hlinked hs.queries
    rintro x hx
    cases hx
    exact hok.slot r hslot
  | expire hc => exact hs.giveUp hc
  | leave hc hstage => exact inv_leave hs hc hstage
  | cancel hc => exact inv_cancel hs hc

/-- **What a query returns was in a cache while it was asked for.**  In every reachable state, bytes
that a call has returned were the answer of some responder's cache, for the store, entity and key of
the call, at a moment between the beginning and the end of the call.  Every call that waits without a
response is in the map, under its own id, and what else is in it are calls that leave without a response,
or that were dropped without one. -/
theorem query_returns_cached (caches : ℕ → Backend) (s : State)
    (hreach : Reachable step (init caches) s) :
    (∀ c ∈ s.calls, ∀ bytes t, c.stage = .returned (some bytes) t →
      ∃ t' contents responder, c.since ≤ t' ∧ t' ≤ t ∧ s.contents[t']? = some contents ∧
        respond (contents responder) c.query.store c.query.entity c.query.key = some bytes) ∧
    Linked s.calls s.pending := by
  have hinv : Inv s := hreach.invariant (inv_init caches) fun s a s' hs h => inv_step hs h
  refine ⟨fun c hc bytes t hret => ?_, hinv.linked⟩
  obtain ⟨r, ⟨t', contents, responder, hsince, htil, hcontents, rfl⟩, hpay⟩ :=
    (hinv.calls c hc).returned bytes t hret
  exact ⟨t', contents, responder, hsince, htil, hcontents, hpay⟩

/-- A responder with one entry. -/
def sampleCaches : ℕ → Backend := fun _ k =>
  if k = internalKey "cache" "c:main:user:1" "" then some [123, 125] else none

/-- A call is answered in time. -/
def sampleActions : List Action :=
  [.begin "id-1" "main" "user" "1", .publish 0 true, .respond 0 0, .receive 0, .wake 0, .leave 0]

theorem query_returns_cached_of_a_hit :
    ∃ s c, Reachable step (init sampleCaches) s ∧ c ∈ s.calls ∧
      c.stage = .returned (some [123, 125]) 0 ∧
      ∃ t contents responder, c.since ≤ t ∧ t ≤ 0 ∧ s.contents[t]? = some contents ∧
        respond (contents responder) c.query.store c.query.entity c.query.key =
          some [123, 125] := by
  have hrun : (runFrom step (init sampleCaches) sampleActions).map
      (fun s => s.calls.map (·.stage)) = some [.returned (some [123, 125]) 0] := by decide +kernel
  obtain ⟨s, hreach, hs⟩ := exists_reachable hrun
  obtain ⟨c, hc, hstage⟩ := List.mem_map.1 (hs ▸ List.mem_singleton_self _)
  exact ⟨s, c, hreach, hc, hstage,
    (query_returns_cached sampleCaches s hreach).1 c hc [123, 125] 0 hstage⟩

end Proxy

end Cache

end Ixmati
