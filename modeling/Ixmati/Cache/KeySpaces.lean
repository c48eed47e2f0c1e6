import Ixmati.Cache.ReadModes

/-!
# Spaces of keys

The keys of the cache are joined from names with `:`, which the names may contain themselves, and the
entries of a store are purged by a common beginning of their keys, without a separator at its end.

* `keysApart_iff` : the keys of two entities (or projections) are different exactly if neither of the
  texts before the key is the beginning of the other;
* `deletesExactly_iff` : a purge of a store removes its own entries exactly if no entry of another
  store begins with what is purged.

A name with a line break ends the request of the purge early; what follows is another request
(`Cache.Isolation`), and these are left out here.
-/

namespace Ixmati

namespace Cache

/-! ### Keys -/

/-- What keys are given in: an entity of a store, or a projection. -/
inductive Space where
  | entity (store entity : String)
  | projection (name : String)
  deriving DecidableEq

namespace Space

/-- A name in the space. -/
def name : Space → String → Name
  | .entity s e, k => .entity s e k
  | .projection n, k => .projection n k

/-- The beginning of its keys. -/
def start : Space → String
  | .entity s e => "c:" ++ s ++ ":" ++ e ++ ":"
  | .projection n => "p:" ++ n ++ ":"

variable {a b : Space}

theorem toKey_name (a : Space) (k : String) : (a.name k).toKey = a.start ++ k := by
  cases a <;> rfl

theorem name_inj {k k' : String} : a.name k = b.name k' ↔ a = b ∧ k = k' := by
  cases a <;> cases b <;> simp [name, and_assoc]

/-- Different names in the two spaces have different keys. -/
def KeysApart (a b : Space) : Prop :=
  ∀ k k', a.name k ≠ b.name k' → (a.name k).toKey ≠ (b.name k').toKey

theorem clash_of_start (hne : a ≠ b) (h : a.start.toList <+: b.start.toList) :
    ∃ k k', a.name k ≠ b.name k' ∧ (a.name k).toKey = (b.name k').toKey := by
  obtain ⟨rest, hrest⟩ := h
  refine ⟨String.ofList rest, "", fun heq => hne (name_inj.1 heq).1, ?_⟩
  rw [toKey_name, toKey_name, ← String.toList_inj, String.toList_append, String.toList_append,
    String.toList_ofList, hrest]
  exact (List.append_nil _).symm

theorem keysApart_iff (a b : Space) :
    KeysApart a b ↔
      a = b ∨ ¬ a.start.toList <+: b.start.toList ∧ ¬ b.start.toList <+: a.start.toList := by
  constructor
  · intro h
    refine or_iff_not_imp_left.2 fun hne => ⟨fun hstart => ?_, fun hstart => ?_⟩
    · obtain ⟨k, k', hnames, hkeys⟩ := clash_of_start hne hstart
      exact h k k' hnames hkeys
    · obtain ⟨k', k, hnames, hkeys⟩ := clash_of_start (Ne.symm hne) hstart
      exact h k k' (Ne.symm hnames) hkeys.symm
  · rintro (rfl | ⟨hab, hba⟩) k k' hnames hkeys
    · rw [toKey_name, toKey_name, String.append_right_inj] at hkeys
      exact hnames (name_inj.2 ⟨rfl, hkeys⟩)
    · rw [toKey_name, toKey_name, ← String.toList_inj, String.toList_append, String.toList_append] at hkeys
      rcases List.append_eq_append_iff.1 hkeys with ⟨rest, hrest, -⟩ | ⟨rest, hrest, -⟩
      · exact hab ⟨rest, hrest.symm⟩
      · exact hba ⟨rest, hrest.symm⟩

end Space

/-! ### Purging a store -/

/-- `CacheSync::delete_by_store`: the server executes the lines of the request. -/
def deleteByStore (b : Backend) (store : String) : Backend :=
  ((Call.deleteByPrefix ("c:" ++ store)).sendSync b.entries).executed.foldl Backend.execute b

/-- The name is one of the store. -/
def Name.OfStore (store : String) : Name → Prop
  | .entity s _ _ => s = store
  | .projection _ _ => False

/-- The entries of the store are removed, and all others stay. -/
def DeletesExactly (b : Backend) (store : String) : Prop :=
  ∀ n : Name, (n.OfStore store → (deleteByStore b store).get "cache" n.toKey "" = none) ∧
    (¬ n.OfStore store →
      (deleteByStore b store).get "cache" n.toKey "" = b.get "cache" n.toKey "")

/-- What the server takes for the beginning of the keys: white space at the end is cut off. -/
def purged (store : String) : List Char := trim ("c:" ++ store).toList

section Purge

variable {store : String}

theorem turn_delPrefix {eof : Bool} {line : List Char} (hhead : line.head?.any isWhitespace = false)
    (hne : line ≠ []) (hbreak : '\n' ∉ line) (rest : Bytes) :
    turn eof (encode ("DEL_PREFIX ".toList ++ line) ++ 10 :: rest) =
      .run (.delPrefix (String.ofList (trim line))) rest := by
  have hget : stripPrefix "GET " ("DEL_PREFIX ".toList ++ trim line) = none := rfl
  have hset : stripPrefix "SET " ("DEL_PREFIX ".toList ++ trim line) = none := rfl
  have hdel : stripPrefix "DEL " ("DEL_PREFIX ".toList ++ trim line) = none := rfl
  refine turn_of_first (by decide) (by decide) (by decide) hhead hne hbreak ?_ rest
  rw [parse, hget, hset, hdel, stripPrefix_append]
  simp only [(trimmed_trim line).trim_eq]

/-- The server executes one command. -/
theorem executed_deleteByStore (e : Entries) (h : '\n' ∉ store.toList) :
    ((Call.deleteByPrefix ("c:" ++ store)).sendSync e).executed =
      [.delPrefix (String.ofList (purged store))] := by
  have hline : '\n' ∉ ("c:" ++ store).toList := by
    rw [String.toList_append, List.mem_append, not_or]
    exact ⟨by decide, h⟩
  have hrequest : (Call.deleteByPrefix ("c:" ++ store)).request =
      encode ("DEL_PREFIX ".toList ++ ("c:" ++ store).toList) ++ 10 :: [] := by
    rw [Call.request, Call.command, Command.request, String.toList_append, String.toList_append,
      encode_append]
    rfl
  have hhead : ("c:" ++ store).toList.head?.any isWhitespace = false := by
    rw [String.toList_append]
    rfl
  have hne : ("c:" ++ store).toList ≠ [] := by simp
  rw [Call.sendSync, hrequest, serve_of_turn (turn_delPrefix hhead hne hline []), serve_nil]
  rfl

/-- The keys of a store begin with what is purged. -/
theorem purged_isPrefix (store : String) : purged store <+: ("c:" ++ store).toList := by
  have hdrop : ("c:" ++ store).toList.dropWhile isWhitespace = ("c:" ++ store).toList := by
    rw [String.toList_append]
    rfl
  rw [purged, trim, hdrop]
  exact List.rdropWhile_prefix _ _

theorem get_deleteByStore (b : Backend) (h : '\n' ∉ store.toList) (key : String) :
    (deleteByStore b store).get "cache" key "" =
      if purged store <+: key.toList then none else b.get "cache" key "" := by
  have hexecute : (deleteByStore b store).entries =
      (Command.delPrefix (String.ofList (purged store))).apply b.entries := by
    rw [deleteByStore, executed_deleteByStore b.entries h]
    rw [List.foldl_cons, List.foldl_nil, entries_execute]
  have hget (b : Backend) : b.get "cache" key "" = b.entries key := rfl
  rw [hget, hget, hexecute, Command.apply, String.toList_ofList]
  simp only [List.isPrefixOf_iff_prefix]

/-- No projection is purged. -/
theorem not_purged_projection (n k : String) :
    ¬ purged store <+: (Name.projection n k).toKey.toList := by
  have hc : 'c' ∈ ("c:" ++ store).toList := by simp
  obtain ⟨c, rest, hrest⟩ := List.exists_cons_of_ne_nil (trim_ne_nil hc (by decide))
  intro hstart
  have hstore := purged_isPrefix store
  rw [purged, hrest] at hstore hstart
  simp only [Name.toKey, String.toList_append] at hstore hstart
  have hp : c = 'p' := (List.cons_prefix_cons.1 hstart).1
  have hc : c = 'c' := (List.cons_prefix_cons.1 hstore).1
  exact absurd (hp.symm.trans hc) (by decide)

/-- A purge removes exactly the entries of the store if no other entry begins like them. -/
theorem deletesExactly_iff (b : Backend) (h : '\n' ∉ store.toList) :
    DeletesExactly b store ↔
      ∀ s e k, s ≠ store → b.get "cache" (Name.entity s e k).toKey "" ≠ none →
        ¬ purged store <+: (Name.entity s e k).toKey.toList := by
  unfold DeletesExactly
  simp only [get_deleteByStore b h]
  constructor
  · intro hexact s e k hne hsome hstart
    have hkept := (hexact (.entity s e k)).2 hne
    rw [if_pos hstart] at hkept
    exact hsome hkept.symm
  · intro hother n
    cases n with
    | entity s e k =>
      refine ⟨?_, fun hne => ?_⟩
      · rintro rfl
        refine if_pos ((purged_isPrefix s).trans ?_)
        simp [Name.toKey]
      · by_cases hsome : b.get "cache" (Name.entity s e k).toKey "" = none
        · rw [hsome, ite_self]
        · exact if_neg (hother s e k hne hsome)
    | projection n k => exact ⟨fun h => h.elim, fun _ => if_neg (not_purged_projection n k)⟩

/-- Both together, for a store whose name is one line: distinct names have distinct keys exactly if the
two spaces are the same or neither beginning continues the other, and a purge removes the entries of
the store and no others exactly if no present entry of another store begins with what is purged. -/
theorem keySpaces_isolated_iff (a b : Space) (c : Backend) (store : String)
    (h : '\n' ∉ store.toList) :
    (a.KeysApart b ↔
      a = b ∨ ¬ a.start.toList <+: b.start.toList ∧ ¬ b.start.toList <+: a.start.toList) ∧
    (DeletesExactly c store ↔
      ∀ s e k, s ≠ store → c.get "cache" (Name.entity s e k).toKey "" ≠ none →
        ¬ purged store <+: (Name.entity s e k).toKey.toList) :=
  ⟨Space.keysApart_iff a b, deletesExactly_iff c h⟩

end Purge

/-! ### Names that are kept apart, and names that are not -/

/-- A document of one store and of another. -/
def twoStores (store : String) : Backend :=
  content [.set "c:pedidos:pedido:1" [1], .set ("c:" ++ store ++ ":pedido:1") [2]]

theorem get_twoStores {store key : String} (h : (twoStores store).get "cache" key "" ≠ none) :
    key = "c:pedidos:pedido:1" ∨ key = "c:" ++ store ++ ":pedido:1" := by
  by_contra hkey
  rw [not_or] at hkey
  refine h ?_
  rw [twoStores, content, List.foldl_cons, List.foldl_cons, List.foldl_nil, Backend.execute,
    Backend.execute, Backend.get, Backend.set, Backend.set,
    Function.update_of_ne fun heq => hkey.2 (internalKey_inj.1 heq),
    Function.update_of_ne fun heq => hkey.1 (internalKey_inj.1 heq)]

/-- The store of a key with three separators is what stands between the first two. -/
theorem store_of_toKey {s e k : String} (h : (Name.entity s e k).toKey = "c:pedidos:pedido:1") :
    s = "pedidos" := by
  have hchars := congrArg String.toList h
  simp only [Name.toKey, String.toList_append, List.append_assoc] at hchars
  have hrest : s.toList ++ ':' :: (e.toList ++ ':' :: k.toList) =
      "pedidos".toList ++ ':' :: "pedido:1".toList :=
    (List.cons.inj (List.cons.inj hchars).2).2
  have hcount := congrArg (List.count ':') hrest
  rw [List.count_append, List.count_cons_self, List.count_append, List.count_cons_self] at hcount
  have hnone : ':' ∉ s.toList := by
    rw [← List.count_eq_zero]
    have htwo : List.count ':' ("pedidos".toList ++ ':' :: "pedido:1".toList) = 2 := by decide
    omega
  have hsplit := congrArg (splitOnce ':') hrest
  rw [splitOnce_append hnone, splitOnce_append (by decide)] at hsplit
  exact String.toList_inj.1 (Prod.mk.inj (Option.some.inj hsplit)).1

theorem usuarios_is_kept_apart :
    '\n' ∉ "pedidos".toList ∧
      (Space.entity "pedidos" "pedido").KeysApart (.entity "usuarios" "pedido") ∧
        DeletesExactly (twoStores "usuarios") "pedidos" := by
  have h : '\n' ∉ "pedidos".toList := by decide
  have hiff := keySpaces_isolated_iff (.entity "pedidos" "pedido") (.entity "usuarios" "pedido")
    (twoStores "usuarios") "pedidos" h
  refine ⟨h, hiff.1.2 (Or.inr ⟨by decide, by decide⟩), hiff.2.2 fun s e k hs hsome => ?_⟩
  rcases get_twoStores hsome with hkey | hkey
  · exact absurd (store_of_toKey hkey) hs
  · rw [hkey]
    decide

/-- A `:` in a name moves to the next one, and `pedidos` is the beginning of `pedidos_hist`. -/
theorem names_are_joined_and_cut :
    ¬ (Space.entity "a" "b:c").KeysApart (.entity "a:b" "c") ∧
      ¬ DeletesExactly (twoStores "pedidos_hist") "pedidos" := by
  refine ⟨fun hapart => hapart "d" "d" (by decide) (by decide), fun hexact => ?_⟩
  refine (deletesExactly_iff _ (by decide)).1 hexact "pedidos_hist" "pedido" "1" (by decide) ?_ ?_
  · decide
  · decide

end Cache

end Ixmati
