import Ixmati.Cache.Protocol

/-!
# Command isolation

The clients splice store, entity, key and projection name into the lines of the protocol as they
come from the network.  `Isolated` says what a caller may expect of the bytes of one call: one
command, on the key that was built, with one reply.  A line break in a name ends the line early,
and what follows it is a command of its own; a space in the key of a `SET` moves the length, and
the server goes on to read the value as lines; white space at the end is trimmed away.

* `isolated_iff` : a call is isolated exactly when its names do not interfere, and for the `get` of
  `CacheClient`, which takes `MISS` for a failure, when there is an entry besides;
* `get_deletes_another_entry` : a read of one key that deletes another.
-/

namespace Ixmati

namespace Cache

/-- The server executes the command of the call and no other, changes no other key, and answers
once. -/
structure Isolated (e : Entries) (c : Call) (o : Outcome) : Prop where
  executed : o.executed = [c.command]
  others : ∀ k, ¬ c.command.Names k → o.entries k = e k
  answered : o.replies.length = 1

namespace Command

variable {e : Entries} {c : Command}

/-- One round of `CacheClient` with names that do not interfere. -/
theorem attempt_of_wellFormed (e : Entries) (h : c.WellFormed) :
    c.attempt e =
      ⟨c.apply e, [c], [c.reply e], if c.accepts (c.reply e) then .idle [] else .closed⟩ := by
  unfold attempt
  rw [serve_request e h, serve_request e h]
  by_cases hacc : c.accepts (c.reply e) = true
  · simp [accepted, hacc]
  · simp [accepted, hacc]

/-- A command that was among those executed has names that do not interfere. -/
theorem wellFormed_of_attempt (h : c ∈ (c.attempt e).executed) : c.WellFormed := by
  unfold attempt at h
  split_ifs at h
  · exact wellFormed_of_executed h
  · exact wellFormed_of_executed h

end Command

namespace Call

variable {e : Entries} {c : Call}

/-- The first answer to the call is one that `CacheClient` does not take for a failure. -/
def Answered (e : Entries) : Call → Prop
  | .get name => (e name.toKey).isSome
  | _ => True

theorem accepts_reply_iff (e : Entries) (c : Call) :
    c.command.accepts (c.command.reply e) = true ↔ c.Answered e := by
  cases c with
  | get name =>
    cases h : e name.toKey with
    | none => simp [command, Command.reply_get, Answered, Command.accepts, h]
    | some payload => simp [command, Command.reply_get, Answered, Command.accepts, h]
  | set name value => simp [command, Command.reply, Answered, Command.accepts]
  | del name => simp [command, Command.reply, Answered, Command.accepts]
  | deleteByPrefix start => simp [command, Command.reply, Answered, Command.accepts]

theorem sendSync_isolated_iff (e : Entries) (c : Call) :
    Isolated e c (c.sendSync e) ↔ c.command.WellFormed := by
  constructor
  · intro h
    have hmem : c.command ∈ (c.sendSync e).executed := by
      rw [h.executed]
      exact List.mem_singleton_self _
    exact wellFormed_of_executed hmem
  · intro h
    rw [sendSync, serve_request e h]
    exact ⟨rfl, fun k hk => Command.apply_of_not_names e hk, rfl⟩

theorem sendAsync_isolated_iff (e : Entries) (c : Call) :
    Isolated e c (c.sendAsync e) ↔ c.command.WellFormed ∧ c.Answered e := by
  constructor
  · intro h
    have hexec := h.executed
    unfold sendAsync Command.sendAsync at hexec
    have hwf : c.command.WellFormed := by
      by_cases hacc : c.command.accepted (serve false e c.command.request).replies = true
      · rw [if_pos hacc] at hexec
        exact Command.wellFormed_of_attempt (e := e) (by simp [hexec])
      · rw [if_neg hacc] at hexec
        have hboth : (c.command.attempt e).executed ++
            (c.command.attempt (c.command.attempt e).entries).executed = [c.command] := hexec
        have hmem := List.mem_singleton_self c.command
        rw [← hboth, List.mem_append] at hmem
        exact hmem.elim Command.wellFormed_of_attempt Command.wellFormed_of_attempt
    refine ⟨hwf, ?_⟩
    -- without an answer that counts, both rounds execute the command
    by_contra hans
    rw [← accepts_reply_iff] at hans
    rw [Command.serve_request e hwf, if_neg (by simpa [Command.accepted] using hans),
      Command.attempt_of_wellFormed e hwf, Command.attempt_of_wellFormed _ hwf] at hexec
    simp at hexec
  · rintro ⟨hwf, hans⟩
    rw [← accepts_reply_iff] at hans
    unfold sendAsync Command.sendAsync
    rw [Command.serve_request e hwf, if_pos (by simpa [Command.accepted] using hans),
      Command.attempt_of_wellFormed e hwf]
    exact ⟨rfl, fun k hk => Command.apply_of_not_names e hk, rfl⟩

end Call

/-- **Command isolation.**  The bytes of one call are one command on the key that was built
exactly when the names do not interfere with the protocol; `CacheClient` sends a `get` of an
entry that is not there twice. -/
theorem isolated_iff (e : Entries) (c : Call) :
    (Isolated e c (c.sendSync e) ↔ c.command.WellFormed) ∧
      (Isolated e c (c.sendAsync e) ↔ c.command.WellFormed ∧ c.Answered e) :=
  ⟨c.sendSync_isolated_iff e, c.sendAsync_isolated_iff e⟩

/-- A cache with one entry. -/
def sampleEntries : Entries := Function.update (fun _ => none) "c:main:user:1" (some [123, 125])

/-- A `get` with a line break in its key. -/
def sampleGet : Call := .get (.entity "main" "user" "2\nDEL c:main:user:1")

/-- The `get` of one user deletes the entry of another. -/
theorem get_deletes_another_entry :
    (sampleGet.sendSync sampleEntries).executed = [.get "c:main:user:2", .del "c:main:user:1"] ∧
      (sampleGet.sendSync sampleEntries).replies = [.miss, .ok] ∧
      (sampleGet.sendSync sampleEntries).entries "c:main:user:1" = none ∧
      ¬ Isolated sampleEntries sampleGet (sampleGet.sendSync sampleEntries) ∧
      ¬ Isolated sampleEntries sampleGet (sampleGet.sendAsync sampleEntries) := by
  refine ⟨by decide +kernel, by decide +kernel, by decide +kernel, fun h => ?_, fun h => ?_⟩
  · exact absurd h.answered (by decide +kernel)
  · exact absurd h.answered (by decide +kernel)

end Cache

end Ixmati
