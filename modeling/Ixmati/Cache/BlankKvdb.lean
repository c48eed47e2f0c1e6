import Ixmati.Cache.Kvdb
import Ixmati.Lib.Exec

/-!
# A database of which nothing can be read

A handle that is not in file mode, in a library without a flash layer: reading, writing and erasing do
nothing and report no error.  So a header is what its buffer was initialised with, and no header is
accepted; no program of the library comes to a part that is a parameter.

* `Blank` : a handle that is not in file mode and has nothing in its caches;
* `run_sectorLoop` : what a loop over the sectors comes to that leaves the handle as it is;
* `run_setKv`, `run_findKv` : in a blank handle there is no room, and nothing is found;
* `run_fdbKvdbInit` : a zeroed handle is initialised without an error, and is blank.
-/

namespace Ixmati

namespace Cache

open Exec

/-! ### Headers that are not accepted -/

variable {σ : Type} {lib : Library σ} {db : Kvdb σ}

/-- A handle that is not in file mode, with empty caches: 32768 sectors of 4096 bytes. -/
structure Blank (db : Kvdb σ) : Prop where
  fileMode : db.fileMode = false
  notFormatable : db.notFormatable = false
  secSize : db.secSize = 4096
  maxSize : db.maxSize = 32768 * 4096
  oldestAddr : db.oldestAddr = 0
  defaultKvs : db.defaultKvs = []
  gcRequest : db.gcRequest = false
  sectors : ∀ s ∈ db.sectorCacheTable, s.addr = dataUnused
  kvs : ∀ n ∈ db.kvCacheTable, n.addr = dataUnused

/-- What is known of a sector whose header is not accepted. -/
def unread (sector : SecInfo) (addr : ℕ) : SecInfo :=
  { sector with
    checkOk := false, store := .unused, dirty := .unused, addr := addr, magic := 0,
    combined := sectorNotCombined }

/-- No sector is at the address that marks an unused entry. -/
theorem addr_lt {k : ℕ} (hk : k < 32768) : 4096 * k < dataUnused := by
  unfold dataUnused
  omega

theorem run_flashRead (h : db.fileMode = false) (addr : ℕ) (buf : Bytes) :
    (flashRead lib addr buf).run db = .ok (.noErr, buf) db := by
  unfold flashRead
  rw [run_get_bind]
  simp only [h]
  rfl

theorem Blank.getSectorFromCache (h : Blank db) {addr : ℕ} (haddr : addr < dataUnused) :
    db.getSectorFromCache addr = none :=
  List.find?_eq_none.2 fun s hs => by
    rw [h.sectors s hs]
    simpa using Nat.ne_of_gt haddr

theorem run_readSectorInfo (h : Blank db) {addr : ℕ} (hdvd : addr % 4096 = 0)
    (haddr : addr < dataUnused) (sector : SecInfo) (traversal : Bool) :
    (readSectorInfo lib addr sector traversal).run db =
      .ok (.initFailed, unread sector addr) db := by
  unfold readSectorInfo fdbAssert
  rw [run_get_bind]
  simp only [h.secSize, hdvd, if_true, h.getSectorFromCache haddr, Option.filter_none, pure_bind]
  rw [run_bind_ok (run_flashRead h.fileMode _ _)]
  rfl

/-! ### Loops over the sectors -/

/-- A loop whose rounds leave the handle as it is: round `k` is about the address `addr k`, and the
last round is followed by no sector. -/
theorem run_sectorLoop {α : Type} {body : ℕ → α → Native σ (SecInfo × α × Bool)} {n : ℕ}
    (addr : ℕ → ℕ) (acc : ℕ → α) (sector : ℕ → SecInfo) (hsize : db.secSize = 4096)
    (hn : n ≤ 32769)
    (hbody : ∀ k < n, (body (addr k) (acc k)).run db = .ok (sector k, acc (k + 1), false) db)
    (hnext : ∀ k < n, getNextSectorAddr db (sector k) (4096 * (k + 1)) =
      if k + 1 = n then none else some (addr (k + 1)))
    {k rounds : ℕ} (hk : k < n) (hrounds : n - k ≤ rounds) :
    (sectorLoop body rounds (addr k) (4096 * k) (acc k)).run db = .ok (acc n) db := by
  induction rounds generalizing k with
  | zero => omega
  | succ rounds ih =>
    have hlen : u32 (4096 * k + db.secSize) = 4096 * (k + 1) := by
      rw [hsize, u32]
      omega
    rw [sectorLoop, run_get_bind]
    dsimp only
    rw [run_bind_ok (hbody k hk), hlen]
    simp only [Bool.false_eq_true, if_false]
    rw [run_get_bind, hnext k hk]
    by_cases hlast : k + 1 = n
    · rw [if_pos hlast, ← hlast]
      rfl
    · rw [if_neg hlast]
      exact ih (by omega) (by omega)

/-- The sector after a header that is not accepted is the next one. -/
theorem Blank.getNextSectorAddr (h : Blank db) (sector : SecInfo) {k : ℕ} (hk : k < 32768) :
    getNextSectorAddr db (unread sector (4096 * k)) (4096 * (k + 1)) =
      if k + 1 = 32768 then none else some (4096 * (k + 1)) := by
  have haddr : u32 (4096 * k + 4096) = 4096 * (k + 1) := by
    unfold u32
    omega
  unfold Cache.getNextSectorAddr
  simp only [unread, if_true, h.secSize, h.maxSize, haddr]
  by_cases hlast : k + 1 = 32768
  · rw [if_pos hlast, if_neg (by unfold u32; omega)]
  · rw [if_neg hlast, if_pos (by unfold u32; omega), if_pos (by omega)]

theorem Blank.sectorNum (h : Blank db) : db.sectorNum = 32768 := by
  rw [Kvdb.sectorNum, h.secSize, h.maxSize]

/-- The sector after the first headers have been read. -/
def passed (sector : SecInfo) : ℕ → SecInfo
  | 0 => sector
  | k + 1 => unread (passed sector k) (4096 * k)

/-- A callback that is called with all sectors, and leaves the handle as it is. -/
theorem run_sectorIterator {β : Type} (h : Blank db) (sector : SecInfo)
    {callback : SecInfo → β → Native σ (Bool × β)} (acc : ℕ → β)
    (hcallback : ∀ k < 32768, (callback (unread (passed sector k) (4096 * k)) (acc k)).run db =
      .ok (false, acc (k + 1)) db) :
    (sectorIterator lib sector .unused callback false (acc 0)).run db =
      .ok (passed sector 32768, acc 32768) db := by
  unfold sectorIterator
  rw [run_get_bind, h.sectorNum, h.oldestAddr]
  refine run_sectorLoop (fun k => 4096 * k) (fun k => (passed sector k, acc k))
    (fun k => unread (passed sector k) (4096 * k)) h.secSize (by omega) (fun k hk => ?_)
    (fun k hk => h.getNextSectorAddr _ hk) (k := 0) (by omega) (by omega)
  rw [run_bind_ok (run_readSectorInfo h (by omega) (addr_lt hk) _ _)]
  simp only [true_or, if_true, Bool.false_eq_true, if_false, pure_bind]
  rw [run_bind_ok (hcallback k hk)]
  rfl

/-- No sector is looked into. -/
theorem run_kvIterator {β : Type} (h : Blank db) (inSector : SecInfo → Native σ (Option β)) :
    (kvIterator lib inSector).run db = .ok none db := by
  unfold kvIterator
  rw [run_get_bind, h.sectorNum, h.oldestAddr]
  refine run_sectorLoop (fun k => 4096 * k) (fun _ => none) (fun k => unread default (4096 * k))
    h.secSize (by omega) (fun k hk => ?_) (fun k hk => h.getNextSectorAddr _ hk) (k := 0) (by omega)
    (by omega)
  rw [run_bind_ok (run_readSectorInfo h (by omega) (addr_lt hk) _ _)]
  rfl

/-- The iterator after the first sectors. -/
def iterated : ℕ → KvIterator
  | 0 => ⟨0, 0, none⟩
  | k + 1 => ⟨4096 * k, 4096 * (k + 1), none⟩

/-- The iterator finds no key. -/
theorem run_fdbKvIterate (h : Blank db) :
    (fdbKvIterate lib db.iteratorInit).run db = .ok (iterated 32768, false) db := by
  have hinit : db.iteratorInit = iterated 0 := by rw [Kvdb.iteratorInit, h.oldestAddr, iterated]
  unfold fdbKvIterate
  rw [run_get_bind, h.sectorNum, hinit]
  refine run_sectorLoop (fun k => 4096 * k) (fun k => (iterated k, false))
    (fun k => unread default (4096 * k)) h.secSize (by omega) (fun k hk => ?_)
    (fun k hk => h.getNextSectorAddr _ hk) (k := 0) (by omega) (by omega)
  have hlen : u32 ((iterated k).traversedLen + db.secSize) = 4096 * (k + 1) := by
    rw [h.secSize, u32]
    cases k with
    | zero => rfl
    | succ k =>
      show (4096 * (k + 1) + 4096) % 2 ^ 32 = _
      omega
  rw [run_bind_ok (run_readSectorInfo h (by omega) (addr_lt hk) _ _), iterated,
    ← hlen]
  rfl

/-! ### Keys that are not found, and no room -/

theorem run_getKvFromCache {name : Bytes} {nodes : List (KvCacheNode × ℕ)}
    (h : ∀ p ∈ nodes, p.1.addr = dataUnused) :
    (getKvFromCache lib name nodes).run db = .ok none db := by
  induction nodes with
  | nil => rfl
  | cons p nodes ih =>
    rw [getKvFromCache, if_neg fun hnode => hnode.1 (h p List.mem_cons_self)]
    exact ih fun q hq => h q (List.mem_cons_of_mem _ hq)

theorem run_findKv (h : Blank db) (key : Bytes) : (findKv lib key).run db = .ok none db := by
  have hcache : (getKvFromCache lib key db.kvCacheTable.zipIdx).run db = .ok none db :=
    run_getKvFromCache fun p hp => h.kvs p.1 (List.fst_mem_of_mem_zipIdx hp)
  unfold findKv
  rw [run_get_bind, run_bind_ok hcache]
  rw [run_bind_ok (run_kvIterator h _)]
  rfl

theorem run_allocKv (h : Blank db) (sector : SecInfo) (kvSize : ℕ) :
    (allocKv lib sector kvSize).run db = .ok (passed sector 32768, failedAddr) db := by
  have hcount : (sectorIterator lib sector .unused sectorStatisticsCb false (0, 0)).run db =
      .ok (passed sector 32768, 0, 0) db :=
    run_sectorIterator h sector (fun _ => (0, 0)) fun _ _ => rfl
  unfold allocKv
  rw [run_bind_ok hcount]
  rfl

theorem run_newKv (h : Blank db) (sector : SecInfo) (kvSize : ℕ) :
    (newKv lib sector kvSize).run db = .ok (passed sector 32768, failedAddr) db := by
  unfold newKv
  rw [run_bind_ok (run_allocKv h _ _)]
  rw [run_get_bind, if_neg (by rw [h.gcRequest]; simp)]
  rfl

/-- Nothing can be set. -/
theorem run_setKv (h : Blank db) (key value : Bytes) :
    (setKv lib key value).run db =
      .ok .savedFull { db with curSector := passed db.curSector 32768 } := by
  unfold setKv
  dsimp only
  rw [run_get_bind, run_bind_ok (run_newKv h _ _)]
  rfl

theorem run_delKv (h : Blank db) (key : Bytes) (completeDel : Bool) :
    (delKv lib key completeDel).run db = .ok .kvNameErr db := by
  unfold delKv
  rw [run_bind_ok (run_findKv h _)]
  rfl

theorem run_getKv (h : Blank db) (key : Bytes) (valueBuf : Ptr) (bufLen : ℕ) (memory : Bytes) :
    (getKv lib key valueBuf bufLen memory).run db = .ok (0, 0, memory) db := by
  unfold getKv
  rw [run_bind_ok (run_findKv h _)]
  rfl

/-! ### Initialisation -/

/-- A sector that is not accepted is not in the cache, and does not come into it. -/
theorem Blank.cacheSector (h : Blank db) {sector : SecInfo} (hok : sector.checkOk = false)
    (haddr : sector.addr < dataUnused) : db.cacheSector sector = db := by
  have hnone : (db.sectorCacheTable.findIdx? fun s => s.addr = sector.addr) = none := by
    rw [List.findIdx?_eq_none_iff]
    intro s hs
    rw [h.sectors s hs]
    simpa using Nat.ne_of_gt haddr
  unfold Kvdb.cacheSector
  rw [hnone]
  cases emptyIndex db.sectorCacheTable with
  | some i => simp only [hok, Bool.false_eq_true, if_false]
  | none => rfl

theorem run_formatSector (h : Blank db) {addr : ℕ} (hdvd : addr % 4096 = 0) (haddr : addr < dataUnused)
    (combinedValue : ℕ) : (formatSector lib addr combinedValue).run db = .ok .noErr db := by
  have herase : (flashErase lib addr 4096).run db = .ok .noErr db := by
    unfold flashErase
    rw [run_get_bind]
    simp only [h.fileMode]
    rfl
  have hwrite : ∀ buf, (flashWrite lib addr buf true).run db = .ok .noErr db := by
    intro buf
    unfold flashWrite
    rw [run_get_bind]
    simp only [h.fileMode]
    rfl
  unfold formatSector fdbAssert
  rw [run_get_bind]
  simp only [h.secSize, hdvd, if_true, pure_bind]
  rw [run_bind_ok herase]
  simp only [if_true]
  rw [run_bind_ok (hwrite _)]
  have hcache : db.cacheSector { (default : SecInfo) with addr := addr, emptyKv := failedAddr } = db :=
    h.cacheSector rfl haddr
  exact congrArg (EStateM.Result.ok FdbErr.noErr) hcache

theorem run_formatAll (h : Blank db) {addrs : List ℕ}
    (haddrs : ∀ addr ∈ addrs, addr % 4096 = 0 ∧ addr < dataUnused) :
    (formatAll lib addrs).run db = .ok .noErr db := by
  induction addrs with
  | nil => rfl
  | cons addr addrs ih =>
    obtain ⟨hdvd, haddr⟩ := haddrs addr List.mem_cons_self
    rw [formatAll, run_bind_ok (run_formatSector h hdvd haddr _)]
    exact ih fun a ha => haddrs a (List.mem_cons_of_mem _ ha)

theorem Blank.kvCacheTable_eq (h : Blank db) :
    (db.kvCacheTable.map fun n => { n with addr := dataUnused }) = db.kvCacheTable := by
  refine (List.map_congr_left fun n hn => ?_).trans (List.map_id' _)
  rw [← h.kvs n hn]

theorem run_fdbKvSetDefault (h : Blank db) : (fdbKvSetDefault lib).run db = .ok .noErr db := by
  have hsame : { db with
      kvCacheTable := db.kvCacheTable.map fun n => { n with addr := dataUnused } } = db := by
    rw [h.kvCacheTable_eq]
  have hformat : (formatAll lib ((List.range db.sectorNum).map (· * db.secSize))).run db =
      .ok .noErr db := by
    refine run_formatAll h fun addr haddr => ?_
    rw [h.sectorNum, h.secSize] at haddr
    obtain ⟨k, hk, rfl⟩ := List.mem_map.1 haddr
    rw [Nat.mul_comm]
    exact ⟨Nat.mul_mod_right 4096 k, addr_lt (List.mem_range.1 hk)⟩
  unfold fdbKvSetDefault
  rw [run_modify_bind, hsame]
  rw [run_get_bind, run_bind_ok hformat]
  simp only [if_true, h.defaultKvs, createDefaults, pure_bind]
  exact congrArg (EStateM.Result.ok FdbErr.noErr) (by rw [← h.oldestAddr])

/-- Every header is counted. -/
theorem run_checkSecHdrs (h : Blank db) (sector : SecInfo) :
    (sectorIterator lib sector .unused (checkSecHdrCb lib) false 0).run db =
      .ok (passed sector 32768, 32768) db := by
  refine run_sectorIterator h sector (fun k => k) fun k hk => ?_
  unfold checkSecHdrCb
  simp only [unread, Bool.false_eq_true, if_false]
  rw [run_get_bind]
  simp only [h.notFormatable, Bool.false_eq_true, if_false]
  rw [run_bind_ok (run_formatSector h (by omega) (addr_lt hk) _)]
  rfl

theorem Blank.loaded (h : Blank db) : Blank { db with inRecoveryCheck := false, initOk := true } :=
  ⟨h.fileMode, h.notFormatable, h.secSize, h.maxSize, h.oldestAddr, h.defaultKvs, h.gcRequest,
    h.sectors, h.kvs⟩

theorem Blank.recovering (h : Blank db) (b : Bool) : Blank { db with inRecoveryCheck := b } :=
  ⟨h.fileMode, h.notFormatable, h.secSize, h.maxSize, h.oldestAddr, h.defaultKvs, h.gcRequest,
    h.sectors, h.kvs⟩

/-- A blank handle is taken for that of a new database. -/
theorem run_fdbKvLoad (h : Blank db) :
    (fdbKvLoad lib).run db = .ok .noErr { db with inRecoveryCheck := false } := by
  unfold fdbKvLoad
  rw [run_modify_bind]
  show EStateM.run _ { db with inRecoveryCheck := true } =
    .ok _ { { db with inRecoveryCheck := true } with inRecoveryCheck := false }
  have hb := h.recovering true
  generalize { db with inRecoveryCheck := true } = db₁ at hb ⊢
  have hgc : (sectorIterator lib default .unused (checkAndRecoveryGcCb lib) false ()).run db₁ =
      .ok (passed default 32768, ()) db₁ :=
    run_sectorIterator hb default (fun _ => ()) fun _ _ => rfl
  have hkvs : (recoverKvs lib (db₁.sectorNum + 1)).run db₁ = .ok () db₁ := by
    rw [recoverKvs, run_bind_ok (run_kvIterator hb _)]
    rw [run_get_bind]
    simp only [hb.gcRequest, Bool.false_eq_true, if_false]
    rfl
  rw [run_bind_ok (run_checkSecHdrs hb _)]
  rw [run_get_bind, if_neg (by rw [hb.notFormatable]; simp), if_pos hb.sectorNum.symm]
  rw [run_bind_ok (run_fdbKvSetDefault hb)]
  rw [run_bind_ok hgc]
  rw [run_bind_ok hkvs]
  rfl

/-- A handle that is not in file mode and has a zeroed cache, when its oldest sector is looked for. -/
structure Fresh (files : σ) (db : Kvdb σ) : Prop where
  fileMode : db.fileMode = false
  notFormatable : db.notFormatable = false
  secSize : db.secSize = 4096
  maxSize : db.maxSize = 32768 * 4096
  oldestAddr : db.oldestAddr = 0
  defaultKvs : db.defaultKvs = []
  gcRequest : db.gcRequest = false
  cached : db.getSectorFromCache 0 = some default
  untouched : db.files = files

/-- A blank handle whose initialisation is complete, and beside which the files are as they were. -/
structure Opened (files : σ) (db : Kvdb σ) : Prop extends Blank db where
  initOk : db.initOk = true
  untouched : db.files = files

/-- In the zeroed cache there is a sector at the address zero, which is combined of no sectors.  So the
search for the oldest sector stays there until it has traversed the length of the database. -/
theorem run_checkOldestAddr {files : σ} (h : Fresh files db) :
    (sectorIterator lib default .unused checkOldestAddrCb false (0, .unused)).run db =
      .ok (default, 0, .unused) db := by
  have hnum : db.sectorNum = 32768 := by rw [Kvdb.sectorNum, h.secSize, h.maxSize]
  unfold sectorIterator
  rw [run_get_bind, hnum, h.oldestAddr]
  refine run_sectorLoop (n := 32769) (fun _ => 0) (fun _ => (default, 0, StoreStatus.unused))
    (fun _ => default) h.secSize (by omega) (fun k hk => ?_) (fun k hk => ?_) (k := 0) (by omega)
    (by omega)
  · unfold readSectorInfo fdbAssert
    rw [EStateM.run_bind, run_get_bind]
    simp only [Nat.zero_mod, if_true, h.cached]
    rfl
  · show (if u32 (4096 * (k + 1) + u32 (0 * db.secSize)) ≤ db.maxSize then
      if u32 (0 + u32 (0 * db.secSize)) < db.maxSize then some (u32 (0 + u32 (0 * db.secSize)))
      else some 0
      else none) = _
    rw [h.maxSize, Nat.zero_mul]
    by_cases hlast : k + 1 = 32769
    · rw [if_pos hlast, if_neg (by unfold u32; omega)]
    · rw [if_neg hlast, if_pos (by unfold u32; omega)]
      rfl

theorem run_fdbInitEx (hinit : db.initOk = false) (hfile : db.fileMode = false)
    (hsize : db.secSize = 4096) (hmax : db.maxSize = 32768 * 4096) (path : Bytes) :
    (fdbInitEx lib path).run db = .ok .noErr db := by
  unfold fdbInitEx fdbAssert
  rw [run_get_bind]
  simp only [hinit, hfile, hsize, hmax, Bool.false_eq_true, if_false]
  rfl

theorem Fresh.emptyCaches {files : σ} (h : Fresh files db) :
    Blank ({ db with oldestAddr := 0 }).emptyCaches where
  fileMode := h.fileMode
  notFormatable := h.notFormatable
  secSize := h.secSize
  maxSize := h.maxSize
  oldestAddr := rfl
  defaultKvs := h.defaultKvs
  gcRequest := h.gcRequest
  sectors s hs := by
    obtain ⟨_, -, rfl⟩ := List.mem_map.1 hs
    rfl
  kvs n hn := by
    obtain ⟨_, -, rfl⟩ := List.mem_map.1 hn
    rfl

/-- A handle that is zeroed but for its sizes is initialised without an error. -/
theorem run_fdbKvdbInit (lib : Library σ) (db : Kvdb σ) (hinit : db.initOk = false) {files : σ}
    (h : Fresh files { db with
      gcRequest := false, inRecoveryCheck := false, defaultKvs := [], oldestAddr := 0 })
    (path : Bytes) :
    ∃ db', (fdbKvdbInit lib path []).run db = .ok .noErr db' ∧ Opened files db' := by
  unfold fdbKvdbInit
  rw [run_bind_ok (run_fdbInitEx hinit h.fileMode h.secSize h.maxSize _)]
  simp only [if_true]
  rw [run_modify_bind]
  generalize { db with
      gcRequest := false, inRecoveryCheck := false, defaultKvs := [], oldestAddr := 0 } = db₁ at h ⊢
  have hassert : gcEmptySecThreshold < Kvdb.sectorNum { db₁ with oldestAddr := 0 } := by
    show 1 < db₁.maxSize / db₁.secSize
    rw [h.maxSize, h.secSize]
    omega
  have hblank := h.emptyCaches
  rw [run_bind_ok (run_checkOldestAddr h)]
  rw [run_modify_bind, run_get_bind]
  rw [fdbAssert, if_pos hassert, pure_bind, run_modify_bind, run_bind_ok (run_fdbKvLoad hblank)]
  exact ⟨_, rfl, hblank.loaded, rfl, h.untouched⟩

/-! ### An opened handle -/

section Opened

variable {files : σ}

theorem run_fdbKvGetBlob (h : Opened files db) (key : Bytes) (blob : Blob) (memory : Bytes) :
    (fdbKvGetBlob lib key blob memory).run db = .ok (0, { blob with savedLen := 0 }, memory) db := by
  unfold fdbKvGetBlob
  rw [run_get_bind, if_pos h.initOk, run_bind_ok (run_getKv h.toBlank _ _ _ _)]
  rfl

theorem run_fdbKvSetBlob (h : Opened files db) (key : Bytes) {blob : Blob} (hbuf : blob.buf = .caller)
    (memory : Bytes) :
    (fdbKvSetBlob lib key blob memory).run db =
      .ok .savedFull { db with curSector := passed db.curSector 32768 } := by
  unfold fdbKvSetBlob
  rw [run_get_bind, if_pos h.initOk, hbuf]
  exact run_setKv h.toBlank _ _

theorem run_fdbKvDel (h : Opened files db) (key : Bytes) :
    (fdbKvDel lib key).run db = .ok .kvNameErr db := by
  unfold fdbKvDel
  rw [run_get_bind, if_pos h.initOk]
  exact run_delKv h.toBlank _ _

theorem Opened.setCurSector (h : Opened files db) (sector : SecInfo) :
    Opened files { db with curSector := sector } :=
  ⟨⟨h.fileMode, h.notFormatable, h.secSize, h.maxSize, h.oldestAddr, h.defaultKvs, h.gcRequest,
    h.sectors, h.kvs⟩, h.initOk, h.untouched⟩

end Opened

end Cache

end Ixmati
