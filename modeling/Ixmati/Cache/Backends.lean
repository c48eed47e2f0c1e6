import Ixmati.Cache.ReadModes
import Ixmati.Lib.Collect
import Ixmati.Lib.Like
import Ixmati.Lib.Run

/-!
# Two backends of the cache

`RedbCacheBackend` and `SqliteCacheBackend` implement the same trait.  They differ in
`delete_by_prefix`: the one compares the beginning of each key, the other leaves it to `LIKE`, without
`ESCAPE`.  So the second one also deletes keys that begin with the prefix only up to the case of
letters, or if an underscore stands for any character and a percent sign for any characters; and it
deletes nothing if the pattern is too long for SQLite, which is an error that is not looked at.

* `Op` : the calls; `Both` : the two backends, which get the same calls;
* `Harmless` : `LIKE` makes no difference for the keys that are there;
* `backends_agree_iff` : in every sequence of calls the backends agree, and delete what they should,
  exactly if every `delete_by_prefix` is harmless.

Namespaces, entities, keys and prefixes are texts without NUL.
-/

namespace Ixmati

namespace Cache

open Sql

/-- The table `_cache` of `SqliteCacheBackend`; nothing reads `created_at`. -/
abbrev SqliteBackend := Dict String Bytes

namespace SqliteBackend

variable (L : LikeOperator) (t : SqliteBackend)

/-- `SqliteCacheBackend::get`. -/
def get (ns entity key : String) : Option Bytes := Dict.get t (internalKey ns entity key)

/-- `SqliteCacheBackend::set`: `INSERT OR REPLACE`. -/
def set (ns entity key : String) (value : Bytes) : SqliteBackend :=
  Dict.insert t (internalKey ns entity key) value

/-- `SqliteCacheBackend::del`. -/
def del (ns entity key : String) : SqliteBackend := Dict.remove t (internalKey ns entity key)

/-- `SqliteCacheBackend::delete_by_prefix`: `DELETE … WHERE key LIKE …`. -/
def deleteByPrefix (ns start : String) : SqliteBackend :=
  let like := ns ++ ":" ++ start ++ "%"
  -- the error of a pattern that is too long is thrown away
  if L.limit < like.utf8ByteSize then t
  else t.deleteWhere fun p => L.holds like.toList p.1.toList

end SqliteBackend

/-- A call of the trait `CacheBackend`. -/
inductive Op
  | set (ns entity key : String) (value : Bytes)
  | del (ns entity key : String)
  | deleteByPrefix (ns start : String)
  | get (ns entity key : String)

/-- The two backends. -/
structure Both where
  redb : Backend
  sqlite : SqliteBackend

namespace Both

/-- Nothing is stored. -/
def empty : Both := ⟨fun _ => none, Table.empty⟩

/-- Both backends get the call. -/
def step (L : LikeOperator) (s : Both) : Op → Option Both
  | .set ns entity key value =>
    some ⟨s.redb.set ns entity key value, SqliteBackend.set s.sqlite ns entity key value⟩
  | .del ns entity key => some ⟨s.redb.del ns entity key, SqliteBackend.del s.sqlite ns entity key⟩
  | .deleteByPrefix ns start =>
    some ⟨s.redb.deleteByPrefix ns start, SqliteBackend.deleteByPrefix L s.sqlite ns start⟩
  | .get _ _ _ => some s

end Both

/-- Exactly the entries are gone whose key begins with `ns:start`. -/
def RemovesExactly (ns start : String) (before after : String → Option Bytes) : Prop :=
  ∀ k, after k = if (ns ++ ":" ++ start).toList <+: k.toList then none else before k

/-- What the backends owe to each other and to their callers. -/
def Agrees (L : LikeOperator) (s : Both) : Op → Prop
  | .get ns entity key => s.redb.get ns entity key = SqliteBackend.get s.sqlite ns entity key
  | .deleteByPrefix ns start =>
    RemovesExactly ns start s.redb (s.redb.deleteByPrefix ns start) ∧
      RemovesExactly ns start (Dict.get s.sqlite)
        (Dict.get (SqliteBackend.deleteByPrefix L s.sqlite ns start))
  | _ => True

/-- A call that `LIKE` does no harm to.  If the pattern is not too long, every stored key of which some
front part matches the prefix as a pattern begins with the prefix; and if it is too long, no stored key
begins with the prefix. -/
def Harmless (L : LikeOperator) (s : Both) : Op → Prop
  | .deleteByPrefix ns start =>
    if L.limit < (ns ++ ":" ++ start ++ "%").utf8ByteSize then
      ∀ k ∈ Dict.keys s.sqlite, ¬ (ns ++ ":" ++ start).toList <+: k.toList
    else
      ∀ k ∈ Dict.keys s.sqlite, ∀ front, front <+: k.toList →
        Matches (ns ++ ":" ++ start).toList front → (ns ++ ":" ++ start).toList <+: k.toList
  | _ => True

/-! ### Deleting by prefix -/

variable {L : LikeOperator} {s s' : Both} {ns start : String} {t : SqliteBackend}

theorem removesExactly_redb (b : Backend) : RemovesExactly ns start b (b.deleteByPrefix ns start) := by
  intro k
  rw [Backend.deleteByPrefix]
  simp only [List.isPrefixOf_iff_prefix]

theorem holds_iff {k : String} : L.holds (ns ++ ":" ++ start ++ "%").toList k.toList = true ↔
    ∃ front, front <+: k.toList ∧ Matches (ns ++ ":" ++ start).toList front := by
  rw [L.holds_iff, String.toList_append]
  exact matches_percent_iff

theorem get_deleteByPrefix_of_limit (hlong : L.limit < (ns ++ ":" ++ start ++ "%").utf8ByteSize) :
    SqliteBackend.deleteByPrefix L t ns start = t := if_pos hlong

theorem get_deleteByPrefix (hfits : ¬ L.limit < (ns ++ ":" ++ start ++ "%").utf8ByteSize) (k : String) :
    Dict.get (SqliteBackend.deleteByPrefix L t ns start) k =
      if L.holds (ns ++ ":" ++ start ++ "%").toList k.toList = true then none else Dict.get t k := by
  rw [SqliteBackend.deleteByPrefix, if_neg hfits]
  exact Dict.get_deleteWhere t (fun k => L.holds (ns ++ ":" ++ start ++ "%").toList k.toList) k

/-- SQLite deletes what it should exactly if `LIKE` does no harm. -/
theorem removesExactly_sqlite_iff :
    RemovesExactly ns start (Dict.get s.sqlite)
      (Dict.get (SqliteBackend.deleteByPrefix L s.sqlite ns start)) ↔
    Harmless L s (.deleteByPrefix ns start) := by
  simp only [Harmless, RemovesExactly]
  by_cases hlong : L.limit < (ns ++ ":" ++ start ++ "%").utf8ByteSize
  · -- the statement fails and the table stays
    rw [get_deleteByPrefix_of_limit hlong, if_pos hlong]
    refine forall_congr' fun k => ?_
    rw [Dict.mem_keys]
    split_ifs with hpre
    · rw [← Option.not_isSome_iff_eq_none]
      exact imp_congr_right fun _ => iff_of_false id fun hne => hne hpre
    · exact iff_of_true rfl fun _ => hpre
  · rw [if_neg hlong]
    refine forall_congr' fun k => ?_
    rw [get_deleteByPrefix hlong, Dict.mem_keys]
    -- what begins with the prefix is deleted in any case
    have hself : (ns ++ ":" ++ start).toList <+: k.toList →
        L.holds (ns ++ ":" ++ start ++ "%").toList k.toList = true :=
      fun hpre => holds_iff.2 ⟨_, hpre, matches_self _⟩
    by_cases hpre : (ns ++ ":" ++ start).toList <+: k.toList
    · rw [if_pos hpre, if_pos (hself hpre)]
      exact iff_of_true rfl fun _ _ _ _ => hpre
    · rw [if_neg hpre]
      constructor
      · intro hkeep hk front hfront hmatch
        rw [if_pos (holds_iff.2 ⟨front, hfront, hmatch⟩)] at hkeep
        rw [← hkeep] at hk
        cases hk
      · intro hsafe
        split_ifs with hlike
        · obtain ⟨front, hfront, hmatch⟩ := holds_iff.1 hlike
          by_contra hne
          exact hpre (hsafe (Option.isSome_iff_ne_none.2 (Ne.symm hne)) front hfront hmatch)
        · rfl

/-! ### In every sequence of calls -/

/-- The backends store the same. -/
def Same (s : Both) : Prop := ∀ k, s.redb k = Dict.get s.sqlite k

theorem agrees_iff (h : Same s) (op : Op) : Agrees L s op ↔ Harmless L s op := by
  cases op with
  | set => exact Iff.rfl
  | del => exact Iff.rfl
  | get ns entity key => exact iff_of_true (h _) trivial
  | deleteByPrefix ns start =>
    exact (and_iff_right (removesExactly_redb _)).trans removesExactly_sqlite_iff

theorem same_step (h : Same s) {op : Op} (hop : Harmless L s op) (hstep : s.step L op = some s') :
    Same s' := by
  have heq : s.redb = Dict.get s.sqlite := funext h
  cases op with
  | set ns entity key value =>
    cases hstep
    intro k
    show Backend.set _ _ _ _ _ k = Dict.get (Dict.insert _ _ _) k
    rw [Backend.set, Dict.get_insert, heq]
  | del ns entity key =>
    cases hstep
    intro k
    show Backend.del _ _ _ _ k = Dict.get (Dict.remove _ _) k
    rw [Backend.del, Dict.get_remove, heq]
  | deleteByPrefix ns start =>
    cases hstep
    intro k
    show Backend.deleteByPrefix _ _ _ k = Dict.get (SqliteBackend.deleteByPrefix _ _ _ _) k
    rw [removesExactly_redb _ k, removesExactly_sqlite_iff.2 hop k, heq]
  | get ns entity key =>
    cases hstep
    exact h

/-- **The backends agree exactly as long as `LIKE` does no harm.**  In every sequence of calls from the empty
cache, every `get` gives the same in both backends, and every `delete_by_prefix` deletes in both of
them the entries that begin with the prefix and no others, exactly if every `delete_by_prefix` is
harmless for the keys that are stored at that time. -/
theorem backends_agree_iff (L : LikeOperator) (ops : List Op) :
    StepsMeet (Both.step L) (Agrees L) Both.empty ops ↔
      StepsMeet (Both.step L) (Harmless L) Both.empty ops :=
  stepsMeet_iff (fun _ op hs => agrees_iff hs op) (fun _ _ _ hs hop h => same_step hs hop h)
    (fun _ => rfl) ops

/-- The reverse index of the projection `user_view` is deleted, and one key of `user-view` is asked for. -/
def underscoreCalls : List Op :=
  [.set "cache" "ridx:user_view:pedidos:7" "" [91, 93], .set "cache" "ridx:user-view:pedidos:7" "" [91, 93],
    .deleteByPrefix "cache" "ridx:user_view:", .get "cache" "ridx:user-view:pedidos:7" ""]

theorem underscoreCalls_disagree :
    (∃ s, runFrom (Both.step standardLike) Both.empty (underscoreCalls.take 3) = some s ∧
      s.redb.get "cache" "ridx:user-view:pedidos:7" "" = some [91, 93] ∧
      SqliteBackend.get s.sqlite "cache" "ridx:user-view:pedidos:7" "" = none) ∧
    ¬ StepsMeet (Both.step standardLike) (Agrees standardLike) Both.empty underscoreCalls := by
  have hredb : ((runFrom (Both.step standardLike) Both.empty (underscoreCalls.take 3)).map fun s =>
      (s.redb.get "cache" "ridx:user-view:pedidos:7" "",
        SqliteBackend.get s.sqlite "cache" "ridx:user-view:pedidos:7" "")) =
      some (some [91, 93], none) := by
    decide +kernel
  obtain ⟨s, hs, hget⟩ := Option.map_eq_some_iff.1 hredb
  obtain ⟨hr, hl⟩ := Prod.mk.inj hget
  refine ⟨⟨s, hs, hr, hl⟩, fun h => ?_⟩
  have hlast := h.2 _ rfl |>.2 _ rfl |>.2 _ rfl |>.1
  cases hs
  exact absurd (hr.symm.trans (hlast.trans hl)) (by simp)

end Cache

end Ixmati
