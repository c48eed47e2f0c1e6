import Ixmati.Cache.BlankKvdb
import Ixmati.Lib.Text

/-!
# The cache in FlashDB

`flashdb_store.rs`, which is compiled with the feature `flashdb`.

`FlashDb::new` takes a zeroed handle, sets the two sizes and lets the library initialise it.  It does not
put the handle in file mode, and the library is compiled without a flash layer, so nothing is stored
anywhere: the initialisation reports no error, each `set` is refused with `FDB_SAVED_FULL`, and each
`get` finds nothing.  So a value whose `set` succeeded would be read back, but there is none.

* `new`, `get`, `set`, `del`, `deleteByPrefix` : the functions of the backend;
* `Refuses` : nothing can be set, and nothing is found;
* `RoundTrip` : a value that was set is read until the next `set` or `del` of the same key;
* `get_after_set` : after any calls, a handle of `new` refuses, and it has the round trip.
-/

namespace Ixmati

namespace Cache

open Exec

namespace FlashDb

variable {σ : Type} (lib : Library σ)

/-- `internal_key`. -/
def internalKey (store entity key : String) : String := store ++ ":" ++ entity ++ ":" ++ key

/-- `CString::new`, which refuses a NUL. -/
def cstring (name : String) : Option Bytes :=
  if 0 ∈ encode name.toList then none else some (encode name.toList)

/-- Why `FlashDb::new` fails. -/
inductive NewError where
  | cannotCreateDataDir
  | invalidPartition
  | initFailed (result : FdbErr)

/-- The handle that `FlashDb::new` initialises. -/
def sized (files : σ) : Kvdb σ :=
  { Kvdb.zeroed files with secSize := 4096, maxSize := 128 * 1024 * 1024 }

/-- `FlashDb::new`, if the directory is there or can be created. -/
def new (created : Bool) (dataDir : String) : Native σ (Except NewError Unit) := do
  if created then
    modify fun db => sized db.files
    match cstring dataDir with
    | some part =>
      let result ← fdbKvdbInit lib part []
      if result = .noErr then return .ok () else return .error (.initFailed result)
    | none => return .error .invalidPartition
  else return .error .cannotCreateDataDir

/-- `FlashDb::get`. -/
def get (store entity key : String) : Native σ (Option Bytes) :=
  match cstring (internalKey store entity key) with
  | none => return none
  | some name => do
    let buf : Bytes := List.replicate 8192 0
    let blob : Blob := ⟨.caller, buf.length, 0⟩
    -- the descriptor is made once more, of a null pointer
    let blob := fdbBlobMake blob .null 0
    let (result, blob, buf) ← fdbKvGetBlob lib name blob buf
    -- the result is a length, but it is compared with an error code
    if u32 result ≠ 0 ∨ blob.savedLen = 0 then return none
    else return some (buf.take blob.savedLen)

/-- `FlashDb::set`, with the result that it looks at. -/
def set (store entity key : String) (value : Bytes) : Native σ (Option FdbErr) :=
  match cstring (internalKey store entity key) with
  | none => return none
  | some name => do
    let blob := fdbBlobMake ⟨.null, 0, 0⟩ .caller value.length
    let result ← fdbKvSetBlob lib name blob value
    return some result

/-- `FlashDb::del`. -/
def del (store entity key : String) : Native σ Unit :=
  match cstring (internalKey store entity key) with
  | none => return ()
  | some name => do
    let _ ← fdbKvDel lib name
    return ()

/-- The loop of `FlashDb::delete_by_prefix`, with a bound for its rounds. -/
def deleteFrom (fullPrefix : Bytes) : ℕ → KvIterator → Native σ Unit
  | 0, _ => throw .endless
  | rounds + 1, itr => do
    let (itr, hasNext) ← fdbKvIterate lib itr
    if hasNext then
      match itr.currKv with
      | some kv =>
        if fullPrefix.isPrefixOf kv.name then
          let _ ← fdbKvDel lib (kv.name.takeWhile (· ≠ 0))
      | none => pure ()
      deleteFrom fullPrefix rounds itr
    else return ()

/-- `FlashDb::delete_by_prefix`. -/
def deleteByPrefix (store pre : String) : Native σ Unit := do
  let fullPrefix := encode (store ++ ":" ++ pre ++ ":").toList
  let db ← MonadState.get
  deleteFrom lib fullPrefix (db.maxSize + 1) db.iteratorInit

/-- `FlashDb::flush`. -/
def flush (store : String) : Native σ Unit := deleteByPrefix lib store ""

/-- A call. -/
inductive Call
  | get (store entity key : String)
  | set (store entity key : String) (value : Bytes)
  | del (store entity key : String)
  | deleteByPrefix (store pre : String)
  | flush (store : String)

/-- What a call does. -/
def call : Call → Native σ Unit
  | .get store entity key => do
    let _ ← get lib store entity key
    return ()
  | .set store entity key value => do
    let _ ← set lib store entity key value
    return ()
  | .del store entity key => del lib store entity key
  | .deleteByPrefix store pre => deleteByPrefix lib store pre
  | .flush store => flush lib store

/-- One call after the other. -/
def calls (cs : List Call) : Native σ Unit := Exec.loop (call lib) cs

/-- The call sets or deletes the name. -/
def Call.Changes : Call → String → Prop
  | .set store entity key _, name => internalKey store entity key = name
  | .del store entity key, name => internalKey store entity key = name
  | _, _ => False

/-! ### The round trip -/

/-- After any calls, a value of at most 8192 bytes whose `set` succeeded is what `get` returns, until the
next `set` or `del` of the same key. -/
def RoundTrip (db : Kvdb σ) : Prop :=
  ∀ (before : List Call) (store entity key : String) (value : Bytes) (after : List Call)
    (db₁ db₂ db₃ : Kvdb σ), value ≠ [] → value.length ≤ 8192 →
    (calls lib before).run db = .ok () db₁ →
    (set lib store entity key value).run db₁ = .ok (some .noErr) db₂ →
    (∀ c ∈ after, ¬ c.Changes (internalKey store entity key)) →
    (calls lib after).run db₂ = .ok () db₃ →
    ∃ db₄, (get lib store entity key).run db₃ = .ok (some value) db₄

/-- Each `set` of a key without NUL is refused, and no `get` finds anything. -/
def Refuses (db : Kvdb σ) : Prop :=
  (∀ store entity key value, ∃ db', (set lib store entity key value).run db =
    .ok ((cstring (internalKey store entity key)).map fun _ => .savedFull) db') ∧
  ∀ store entity key, (get lib store entity key).run db = .ok none db

variable {lib} {db : Kvdb σ} {files : σ}

theorem run_new (lib : Library σ) (db : Kvdb σ) {dataDir : String} (hdir : cstring dataDir ≠ none) :
    ∃ db', (new lib true dataDir).run db = .ok (.ok ()) db' ∧ Opened db.files db' := by
  obtain ⟨part, hpart⟩ := Option.ne_none_iff_exists'.1 hdir
  have hmax : 128 * 1024 * 1024 = 32768 * 4096 := by decide
  obtain ⟨db', hinit, hopened⟩ := run_fdbKvdbInit lib (sized db.files) rfl
    ⟨rfl, rfl, rfl, hmax, rfl, rfl, rfl, rfl, rfl⟩ part
  refine ⟨db', ?_, hopened⟩
  unfold new
  rw [if_pos rfl, run_modify_bind, hpart]
  -- the initialisation is not to be evaluated
  generalize sized db.files = start at hinit ⊢
  dsimp only
  rw [run_bind_ok hinit]
  rfl

theorem run_get (h : Opened files db) (store entity key : String) :
    (get lib store entity key).run db = .ok none db := by
  unfold get
  cases cstring (internalKey store entity key) with
  | none => rfl
  | some name =>
    dsimp only
    rw [run_bind_ok (run_fdbKvGetBlob h _ _ _)]
    rfl

theorem run_set (lib : Library σ) (h : Opened files db) (store entity key : String) (value : Bytes) :
    ∃ db', (set lib store entity key value).run db =
      .ok ((cstring (internalKey store entity key)).map fun _ => .savedFull) db' ∧
      Opened files db' := by
  unfold set
  cases cstring (internalKey store entity key) with
  | none => exact ⟨db, rfl, h⟩
  | some name =>
    refine ⟨_, ?_, h.setCurSector (passed db.curSector 32768)⟩
    dsimp only
    rw [run_bind_ok (run_fdbKvSetBlob h name rfl _)]
    rfl

theorem run_del (h : Opened files db) (store entity key : String) :
    (del lib store entity key).run db = .ok () db := by
  unfold del
  cases cstring (internalKey store entity key) with
  | none => rfl
  | some name =>
    dsimp only
    rw [run_bind_ok (run_fdbKvDel h _)]
    rfl

theorem run_deleteByPrefix (h : Opened files db) (store pre : String) :
    (deleteByPrefix lib store pre).run db = .ok () db := by
  unfold deleteByPrefix
  rw [run_get_bind, deleteFrom, run_bind_ok (run_fdbKvIterate h.toBlank)]
  rfl

theorem refuses (lib : Library σ) (h : Opened files db) : Refuses lib db := by
  refine ⟨fun store entity key value => ?_, run_get h⟩
  obtain ⟨db', hset, -⟩ := run_set lib h store entity key value
  exact ⟨db', hset⟩

/-- A call returns, and leaves the handle opened. -/
theorem run_call (h : Opened files db) (c : Call) :
    ∃ db', (call lib c).run db = .ok () db' ∧ Opened files db' := by
  cases c with
  | get store entity key =>
    refine ⟨db, ?_, h⟩
    rw [call, run_bind_ok (run_get h _ _ _)]
    rfl
  | set store entity key value =>
    obtain ⟨db', hset, hopened⟩ := run_set lib h store entity key value
    refine ⟨db', ?_, hopened⟩
    rw [call, run_bind_ok hset]
    rfl
  | del store entity key => exact ⟨db, run_del h store entity key, h⟩
  | deleteByPrefix store pre => exact ⟨db, run_deleteByPrefix h store pre, h⟩
  | flush store => exact ⟨db, run_deleteByPrefix h store "", h⟩

theorem run_calls (cs : List Call) : Exec.Returns (Opened files) (Opened files) (calls lib cs) () :=
  Exec.Returns.loop fun c _ _ h => run_call h c

/-- A library whose parts do nothing. -/
def idleLibrary : Library Unit where
  fileInit _ files := files
  fileRead _ buf := pure (.noErr, buf)
  fileWrite _ _ _ := pure .noErr
  fileErase _ _ := pure .noErr
  traverseSector sector := pure (.noErr, sector)
  readKv addr := pure ⟨[], 0, addr, addr⟩
  updateKvCache _ _ := pure ()
  findInSector _ _ := pure none
  recoverInSector _ := pure none
  nextInSector _ _ := pure none
  delFound _ _ _ := pure .noErr
  createKvBlob sector _ _ := pure (.noErr, sector)
  gcCollectByFreeSize _ := pure ()

end FlashDb

end Cache

end Ixmati
