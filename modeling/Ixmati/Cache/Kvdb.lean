import Ixmati.Core.Envelope
import Mathlib.Logic.Function.Iterate

/-!
# The key-value database of FlashDB

`fdb_kvdb.c`, with what it uses of `fdb.c` and `fdb_utils.c`, as `build.rs` compiles it: with files
(`FDB_USING_FILE_MODE`) and without a flash layer (`FDB_USING_FAL_MODE`), and with a write granularity of
one bit.

Keys and values stand in the sectors whose header can be read.  What the library does there, with a key
or a value that it has found, is a parameter (`Library`), and so are the functions of `fdb_file.c`;
nothing is assumed of them.

* `Kvdb` : the handle;
* `Native` : programs of the library, whose state is the handle;
* `sectorLoop` : the loop over the sectors, which the library writes out three times;
* `setKv`, `getKv` and `delKv` : what the calls of a client come to;
* `fdbKvdbInit` : the initialisation.
-/

namespace Ixmati

namespace Cache

/-! ### The handle -/

/-- `fdb_err_t`. -/
inductive FdbErr where
  | noErr
  | eraseErr
  | readErr
  | writeErr
  | partNotFound
  | kvNameErr
  | kvNameExist
  | savedFull
  | initFailed
  deriving DecidableEq

/-- `fdb_sector_store_status_t`. -/
inductive StoreStatus where
  | unused
  | empty
  | inUse
  | full
  deriving DecidableEq, Inhabited

/-- `fdb_sector_dirty_status_t`. -/
inductive DirtyStatus where
  | unused
  | clean
  | dirty
  | gc
  deriving DecidableEq, Inhabited

/-- `struct kvdb_sec_info`; the default is the zeroed one. -/
structure SecInfo where
  checkOk : Bool
  store : StoreStatus
  dirty : DirtyStatus
  addr : ℕ
  magic : ℕ
  combined : ℕ
  remain : ℕ
  emptyKv : ℕ
  deriving Inhabited

/-- `struct fdb_kv`, as far as it is used outside of the sectors. -/
structure Kv where
  name : Bytes
  valueLen : ℕ
  addrStart : ℕ
  addrValue : ℕ

/-- `struct kv_cache_node`; the default is the zeroed one. -/
structure KvCacheNode where
  nameCrc : UInt16
  active : ℕ
  addr : ℕ
  deriving Inhabited

/-- `struct fdb_kvdb`.  `files` are the files, with the fields of the handle that only the parts of a
`Library` use. -/
structure Kvdb (σ : Type) where
  secSize : ℕ
  maxSize : ℕ
  oldestAddr : ℕ
  initOk : Bool
  fileMode : Bool
  notFormatable : Bool
  defaultKvs : List (Bytes × Bytes)
  gcRequest : Bool
  inRecoveryCheck : Bool
  curSector : SecInfo
  kvCacheTable : List KvCacheNode
  sectorCacheTable : List SecInfo
  files : σ

/-- Why a program of the library does not end: an assertion failed, which is an endless loop, or it went
round once too often. -/
inductive Stuck where
  | assertion
  | endless

/-- A program of the library. -/
abbrev Native (σ : Type) := EStateM Stuck (Kvdb σ)

/-- `fdb_file.c`, and what is done in a sector whose header was read, or with a key that was found. -/
structure Library (σ : Type) where
  /-- The directory is set, and no file is open. -/
  fileInit : Bytes → σ → σ
  /-- `_fdb_file_read`, into a buffer. -/
  fileRead : ℕ → Bytes → Native σ (FdbErr × Bytes)
  fileWrite : ℕ → Bytes → Bool → Native σ FdbErr
  fileErase : ℕ → ℕ → Native σ FdbErr
  /-- The traversal in `read_sector_info` of a sector that is in use. -/
  traverseSector : SecInfo → Native σ (FdbErr × SecInfo)
  readKv : ℕ → Native σ Kv
  updateKvCache : Bytes → ℕ → Native σ Unit
  /-- The loop of `kv_iterator` in a sector, with `find_kv_cb`. -/
  findInSector : Bytes → SecInfo → Native σ (Option Kv)
  /-- The loop of `kv_iterator` in a sector, with `check_and_recovery_kv_cb`. -/
  recoverInSector : SecInfo → Native σ (Option Unit)
  /-- The next valid key of a sector in `fdb_kv_iterate`. -/
  nextInSector : SecInfo → Option Kv → Native σ (Option Kv)
  /-- `del_kv`, of a key that was found. -/
  delFound : Bytes → Kv → Bool → Native σ FdbErr
  createKvBlob : SecInfo → Bytes → Bytes → Native σ (FdbErr × SecInfo)
  gcCollectByFreeSize : ℕ → Native σ Unit

/-- `std::mem::zeroed`, beside the files. -/
def Kvdb.zeroed {σ : Type} (files : σ) : Kvdb σ where
  secSize := 0
  maxSize := 0
  oldestAddr := 0
  initOk := false
  fileMode := false
  notFormatable := false
  defaultKvs := []
  gcRequest := false
  inRecoveryCheck := false
  curSector := default
  kvCacheTable := List.replicate 64 default
  sectorCacheTable := List.replicate 8 default
  files := files

/-! ### Constants -/

/-- A sum or product of `uint32_t`. -/
def u32 (n : ℕ) : ℕ := n % 2 ^ 32

def sectorMagicWord : ℕ := 0x30424446

/-- `SECTOR_NOT_COMBINED`. -/
def sectorNotCombined : ℕ := 0xFFFFFFFF

def sectorCombined : ℕ := 0

def failedAddr : ℕ := 0xFFFFFFFF

/-- `FDB_DATA_UNUSED`. -/
def dataUnused : ℕ := 0xFFFFFFFF

/-- `SECTOR_HDR_DATA_SIZE`: two status tables of a byte each, two bytes of padding, three words. -/
def sectorHdrDataSize : ℕ := 16

/-- `KV_HDR_DATA_SIZE`: the status table and the length of the name, each padded to a word, and four
words. -/
def kvHdrDataSize : ℕ := 24

def kvNameMax : ℕ := 64

def secRemainThreshold : ℕ := kvHdrDataSize + kvNameMax

def gcEmptySecThreshold : ℕ := 1

/-- `SECTOR_NUM`. -/
def Kvdb.sectorNum {σ : Type} (db : Kvdb σ) : ℕ := db.maxSize / db.secSize

/-! ### Words, status tables and check sums -/

/-- A word in little endian. -/
def ofLittleEndian (b : Bytes) : ℕ := b.foldr (fun x n => x.toNat + 256 * n) 0

def toLittleEndian (n : ℕ) : Bytes := (List.range 4).map fun i => UInt8.ofNat (n / 256 ^ i)

/-- `_fdb_get_status`, of a table of one byte: one more than the last bit that is cleared. -/
def getStatus (table : UInt8) (statusNum : ℕ) : ℕ :=
  (((List.range (statusNum - 1)).reverse.find? fun i => !table.toNat.testBit (7 - i)).map (· + 1)).getD 0

/-- The store status of a header. -/
def StoreStatus.ofTable (table : UInt8) : StoreStatus :=
  match getStatus table 4 with
  | 0 => .unused
  | 1 => .empty
  | 2 => .inUse
  | _ => .full

/-- The dirty status of a header. -/
def DirtyStatus.ofTable (table : UInt8) : DirtyStatus :=
  match getStatus table 4 with
  | 0 => .unused
  | 1 => .clean
  | 2 => .dirty
  | _ => .gc

/-- `crc32_table`, whose entries are the remainders of the bytes. -/
def crc32Table (i : UInt8) : UInt32 :=
  (fun c : UInt32 => if c &&& 1 = 1 then (c >>> 1) ^^^ 0xEDB88320 else c >>> 1)^[8] i.toUInt32

/-- `fdb_calc_crc32`. -/
def fdbCalcCrc32 (crc : UInt32) (buf : Bytes) : UInt32 :=
  ~~~(buf.foldl (fun c b => crc32Table (c.toUInt8 ^^^ b) ^^^ (c >>> 8)) (~~~crc))

/-- The check sum of a name in the cache. -/
def nameCrc (name : Bytes) : UInt16 := (fdbCalcCrc32 0 name >>> 16).toUInt16

section Functions

variable {σ : Type} (lib : Library σ)

/-- `FDB_ASSERT`. -/
def fdbAssert (p : Prop) [Decidable p] : Native σ Unit := if p then pure () else throw .assertion

/-! ### Reading and writing -/

/-- `_fdb_flash_read`, into a buffer. -/
def flashRead (addr : ℕ) (buf : Bytes) : Native σ (FdbErr × Bytes) := do
  if (← get).fileMode then lib.fileRead addr buf
  else return (.noErr, buf)

/-- `_fdb_flash_erase`. -/
def flashErase (addr size : ℕ) : Native σ FdbErr := do
  if (← get).fileMode then lib.fileErase addr size
  else return .noErr

/-- `_fdb_flash_write`. -/
def flashWrite (addr : ℕ) (buf : Bytes) (sync : Bool) : Native σ FdbErr := do
  if (← get).fileMode then lib.fileWrite addr buf sync
  else return .noErr

/-! ### The caches -/

/-- `get_sector_from_cache`. -/
def Kvdb.getSectorFromCache (db : Kvdb σ) (secAddr : ℕ) : Option SecInfo :=
  db.sectorCacheTable.find? fun s => s.addr = secAddr

/-- The last entry that is not used. -/
def emptyIndex (table : List SecInfo) : Option ℕ :=
  (List.range table.length).reverse.find? fun i => (table[i]?).any fun s => s.addr = dataUnused

/-- What `update_sector_cache` makes of the handle. -/
def Kvdb.cacheSector (db : Kvdb σ) (sector : SecInfo) : Kvdb σ :=
  match db.sectorCacheTable.findIdx? fun s => s.addr = sector.addr with
  | some i =>
    let cached := if sector.checkOk then fun _ => sector else fun s => { s with addr := dataUnused }
    { db with sectorCacheTable := db.sectorCacheTable.modify i cached }
  | none =>
    match emptyIndex db.sectorCacheTable with
    | some i =>
      if sector.checkOk then { db with sectorCacheTable := db.sectorCacheTable.set i sector } else db
    | none => db

/-- `update_sector_cache`. -/
def updateSectorCache (sector : SecInfo) : Native σ Unit := modify fun db => db.cacheSector sector

/-- `get_kv_from_cache`, from an entry on. -/
def getKvFromCache (name : Bytes) : List (KvCacheNode × ℕ) → Native σ (Option ℕ)
  | [] => return none
  | (node, i) :: nodes => do
    if node.addr ≠ dataUnused ∧ node.nameCrc = nameCrc name then
      let (_, savedName) ← flashRead lib (node.addr + kvHdrDataSize) (List.replicate kvNameMax 0)
      if savedName.take name.length = name then
        let active := if node.active ≥ 0xFFFF - 64 then 0xFFFF else node.active + 64
        modify fun db => { db with
          kvCacheTable := db.kvCacheTable.modify i fun n => { n with active := active } }
        return some node.addr
      else getKvFromCache name nodes
    else getKvFromCache name nodes

/-! ### Sectors -/

/-- `read_sector_info`: the result, and what is then known of the sector. -/
def readSectorInfo (addr : ℕ) (sector : SecInfo) (traversal : Bool) :
    Native σ (FdbErr × SecInfo) := do
  let db ← get
  fdbAssert (addr % db.secSize = 0)
  match (db.getSectorFromCache addr).filter fun s => !traversal || s.emptyKv ≠ failedAddr with
  | some cached => return (.noErr, cached)
  | none =>
    let (_, secHdr) ← flashRead lib addr (List.replicate sectorHdrDataSize 0)
    let magic := ofLittleEndian ((secHdr.drop 4).take 4)
    let combined := ofLittleEndian ((secHdr.drop 8).take 4)
    let sector := { sector with store := .unused, dirty := .unused, addr := addr, magic := magic }
    if magic ≠ sectorMagicWord ∨ (combined ≠ sectorNotCombined ∧ combined ≠ sectorCombined) then
      return (.initFailed, { sector with checkOk := false, combined := sectorNotCombined })
    else
      let sector := { sector with
        checkOk := true
        combined := combined
        store := .ofTable (secHdr.getD 0 0)
        dirty := .ofTable (secHdr.getD 1 0) }
      if traversal then
        let sector := { sector with remain := 0, emptyKv := sector.addr + sectorHdrDataSize }
        let free := { sector with remain := db.secSize - sectorHdrDataSize }
        let (result, sector) ←
          match sector.store with
          | .empty => pure (FdbErr.noErr, free)
          | .inUse => lib.traverseSector free
          | _ => pure (.noErr, sector)
        updateSectorCache sector
        return (result, sector)
      else if (db.getSectorFromCache addr).isSome then return (.noErr, sector)
      else
        let sector := { sector with emptyKv := failedAddr, remain := 0 }
        updateSectorCache sector
        return (.noErr, sector)

/-- `get_next_sector_addr`; `none` is the invalid address. -/
def getNextSectorAddr (db : Kvdb σ) (preSec : SecInfo) (traversedLen : ℕ) : Option ℕ :=
  let curBlockSize :=
    if preSec.combined = sectorNotCombined then db.secSize else u32 (preSec.combined * db.secSize)
  if u32 (traversedLen + curBlockSize) ≤ db.maxSize then
    -- at the end, roll back to the first sector
    if u32 (preSec.addr + curBlockSize) < db.maxSize then some (u32 (preSec.addr + curBlockSize))
    else some 0
  else none

/-- The loop over the sectors: `sector_iterator`, `kv_iterator` and `fdb_kv_iterate` are loops of this
form.  A round is left with the sector that was read, and says whether the loop is interrupted. -/
def sectorLoop {α : Type} (body : ℕ → α → Native σ (SecInfo × α × Bool)) :
    ℕ → ℕ → ℕ → α → Native σ α
  | 0, _, _, _ => throw .endless
  | rounds + 1, secAddr, traversedLen, a => do
    let traversedLen := u32 (traversedLen + (← get).secSize)
    let (sector, a, interrupted) ← body secAddr a
    if interrupted then return a
    else
      match getNextSectorAddr (← get) sector traversedLen with
      | some next => sectorLoop body rounds next traversedLen a
      | none => return a

/-- `sector_iterator`: the sector that was read last, and what the callback has made of `b`.  The length
that was traversed grows with each round, so there is at most one round more than there are sectors. -/
def sectorIterator {β : Type} (sector : SecInfo) (status : StoreStatus)
    (callback : SecInfo → β → Native σ (Bool × β)) (traversalKv : Bool) (b : β) :
    Native σ (SecInfo × β) := do
  let db ← get
  let body := fun secAddr (a : SecInfo × β) => do
    let (_, sector) ← readSectorInfo lib secAddr a.1 false
    if status = .unused ∨ status = sector.store then
      let sector ←
        if traversalKv then
          let (_, sector) ← readSectorInfo lib secAddr sector true
          pure sector
        else pure sector
      let (interrupted, b) ← callback sector a.2
      return (sector, (sector, b), interrupted)
    else return (sector, (sector, a.2), false)
  sectorLoop body (db.sectorNum + 1) db.oldestAddr 0 (sector, b)

/-- `kv_iterator`: what is found in a sector interrupts it. -/
def kvIterator {β : Type} (inSector : SecInfo → Native σ (Option β)) : Native σ (Option β) := do
  let db ← get
  let body := fun secAddr (_ : Option β) => do
    let (result, sector) ← readSectorInfo lib secAddr default false
    if result = .noErr ∧ (sector.store = .inUse ∨ sector.store = .full) then
      let found ← inSector sector
      return (sector, found, found.isSome)
    else return (sector, none, false)
  sectorLoop body (db.sectorNum + 1) db.oldestAddr 0 none

/-- `format_sector`. -/
def formatSector (addr combinedValue : ℕ) : Native σ FdbErr := do
  let db ← get
  fdbAssert (addr % db.secSize = 0)
  let result ← flashErase lib addr db.secSize
  if result = .noErr then
    -- the status tables say empty and clean
    let secHdr := [0x7F, 0x7F, 0xFF, 0xFF] ++ toLittleEndian sectorMagicWord ++
      toLittleEndian combinedValue ++ toLittleEndian dataUnused
    let result ← flashWrite lib addr secHdr true
    updateSectorCache { (default : SecInfo) with addr := addr, emptyKv := failedAddr }
    return result
  else return result

/-! ### Keys and values -/

/-- `find_kv`. -/
def findKv (key : Bytes) : Native σ (Option Kv) := do
  match ← getKvFromCache lib key (← get).kvCacheTable.zipIdx with
  | some addr => return some (← lib.readKv addr)
  | none =>
    match ← kvIterator lib (lib.findInSector key) with
    | some kv => do
      lib.updateKvCache key kv.addrStart
      return some kv
    | none => return none

/-- `sector_statistics_cb`, with the numbers of empty sectors and of sectors in use. -/
def sectorStatisticsCb (sector : SecInfo) (n : ℕ × ℕ) : Native σ (Bool × ℕ × ℕ) :=
  if sector.checkOk ∧ sector.store = .empty then return (false, n.1 + 1, n.2)
  else if sector.checkOk ∧ sector.store = .inUse then return (false, n.1, n.2 + 1)
  else return (false, n)

/-- `alloc_kv_cb`. -/
def allocKvCb (kvSize : ℕ) (sector : SecInfo) (emptyKv : ℕ) : Native σ (Bool × ℕ) := do
  if sector.checkOk ∧ sector.remain > kvSize + secRemainThreshold ∧
      (sector.dirty = .clean ∨ (sector.dirty = .dirty ∧ (← get).gcRequest = false)) then
    return (true, sector.emptyKv)
  else return (false, emptyKv)

/-- `alloc_kv`: the sector, and the address or `failedAddr`. -/
def allocKv (sector : SecInfo) (kvSize : ℕ) : Native σ (SecInfo × ℕ) := do
  let (sector, emptySector, usingSector) ←
    sectorIterator lib sector .unused sectorStatisticsCb false (0, 0)
  let (sector, emptyKv) ←
    if usingSector > 0 then sectorIterator lib sector .inUse (allocKvCb kvSize) true failedAddr
    else pure (sector, failedAddr)
  if emptySector > 0 ∧ emptyKv = failedAddr then
    if emptySector > gcEmptySecThreshold ∨ (← get).gcRequest then
      sectorIterator lib sector .empty (allocKvCb kvSize) true emptyKv
    else
      modify fun db => { db with gcRequest := true }
      return (sector, emptyKv)
  else return (sector, emptyKv)

/-- `new_kv`: the sector, and the address or `failedAddr`. -/
def newKv (sector : SecInfo) (kvSize : ℕ) : Native σ (SecInfo × ℕ) := do
  let (sector, emptyKv) ← allocKv lib sector kvSize
  if emptyKv = failedAddr ∧ (← get).gcRequest then
    lib.gcCollectByFreeSize kvSize
    let (sector, emptyKv) ← allocKv lib sector kvSize
    if emptyKv = failedAddr then modify fun db => { db with gcRequest := false }
    return (sector, emptyKv)
  else return (sector, emptyKv)

/-- `del_kv`, of a key that is still to be found. -/
def delKv (key : Bytes) (completeDel : Bool) : Native σ FdbErr := do
  match ← findKv lib key with
  | some kv => lib.delFound key kv completeDel
  | none => return .kvNameErr

/-- `set_kv`, with a buffer. -/
def setKv (key value : Bytes) : Native σ FdbErr := do
  let kvLen := kvHdrDataSize + key.length + value.length
  let (sector, emptyKv) ← newKv lib (← get).curSector kvLen
  modify fun db => { db with curSector := sector }
  if emptyKv = failedAddr then return .savedFull
  else
    let found ← findKv lib key
    let result ←
      match found with
      | some kv => lib.delFound key kv false
      | none => pure .noErr
    let result ←
      if result = .noErr then
        let (result, sector) ← lib.createKvBlob sector key value
        modify fun db => { db with curSector := sector }
        pure result
      else pure result
    let result ←
      match found with
      | some kv => if result = .noErr then lib.delFound key kv true else pure result
      | none => pure result
    if (← get).gcRequest then lib.gcCollectByFreeSize kvLen
    return result

/-! ### Blobs -/

/-- What the pointer of a blob points to: nothing, or the memory that the caller passes. -/
inductive Ptr where
  | null
  | caller
  deriving DecidableEq

/-- `struct fdb_blob`, with the length in `saved`. -/
structure Blob where
  buf : Ptr
  size : ℕ
  savedLen : ℕ

/-- `fdb_blob_make`. -/
def fdbBlobMake (blob : Blob) (valueBuf : Ptr) (bufLen : ℕ) : Blob :=
  { blob with buf := valueBuf, size := bufLen }

/-- `get_kv`: the length that was read, the length that is stored, and the memory of the caller. -/
def getKv (key : Bytes) (valueBuf : Ptr) (bufLen : ℕ) (memory : Bytes) :
    Native σ (ℕ × ℕ × Bytes) := do
  match ← findKv lib key with
  | some kv =>
    let readLen := if bufLen > kv.valueLen then kv.valueLen else bufLen
    if valueBuf = .null then return (readLen, kv.valueLen, memory)
    else
      let (_, read) ← flashRead lib kv.addrValue (memory.take readLen)
      return (readLen, kv.valueLen, read ++ memory.drop readLen)
  | none => return (0, 0, memory)

/-- `fdb_kv_get_blob`: the length that was read, the blob, and the memory of the caller. -/
def fdbKvGetBlob (key : Bytes) (blob : Blob) (memory : Bytes) : Native σ (ℕ × Blob × Bytes) := do
  if (← get).initOk then
    let (readLen, savedLen, memory) ← getKv lib key blob.buf blob.size memory
    return (readLen, { blob with savedLen := savedLen }, memory)
  else return (0, blob, memory)

/-- `fdb_kv_set_blob`: a blob without buffer deletes. -/
def fdbKvSetBlob (key : Bytes) (blob : Blob) (memory : Bytes) : Native σ FdbErr := do
  if (← get).initOk then
    match blob.buf with
    | .null => delKv lib key true
    | .caller => setKv lib key (memory.take blob.size)
  else return .initFailed

/-- `fdb_kv_del`. -/
def fdbKvDel (key : Bytes) : Native σ FdbErr := do
  if (← get).initOk then delKv lib key true
  else return .initFailed

/-! ### The iterator -/

/-- `struct fdb_kv_iterator`: `none` is the head of the sector. -/
structure KvIterator where
  sectorAddr : ℕ
  traversedLen : ℕ
  currKv : Option Kv

/-- `fdb_kv_iterator_init`. -/
def Kvdb.iteratorInit (db : Kvdb σ) : KvIterator := ⟨db.oldestAddr, 0, none⟩

/-- `fdb_kv_iterate`: the iterator, and whether there is one more key. -/
def fdbKvIterate (itr : KvIterator) : Native σ (KvIterator × Bool) := do
  let db ← get
  let body := fun secAddr (a : KvIterator × Bool) => do
    let (result, sector) ← readSectorInfo lib secAddr default false
    let found ←
      if result = .noErr ∧ (sector.store = .inUse ∨ sector.store = .full) then
        lib.nextInSector sector a.1.currKv
      else pure none
    match found with
    | some kv => return (sector, (⟨secAddr, a.1.traversedLen, some kv⟩, true), true)
    | none =>
      return (sector, (⟨secAddr, u32 (a.1.traversedLen + (← get).secSize), none⟩, false), false)
  sectorLoop body (db.sectorNum + 1) itr.sectorAddr itr.traversedLen (itr, false)

/-! ### Initialisation -/

/-- The loop of `fdb_kv_set_default` over the sectors. -/
def formatAll : List ℕ → Native σ FdbErr
  | [] => return .noErr
  | addr :: addrs => do
    let result ← formatSector lib addr sectorNotCombined
    if result = .noErr then formatAll addrs else return result

/-- The loop of `fdb_kv_set_default` over the default keys, whose results are not looked at. -/
def createDefaults : SecInfo → List (Bytes × Bytes) → Native σ Unit
  | _, [] => return ()
  | sector, (key, value) :: kvs => do
    let (_, sector) ← lib.createKvBlob { sector with emptyKv := failedAddr } key value
    createDefaults sector kvs

/-- `fdb_kv_set_default`. -/
def fdbKvSetDefault : Native σ FdbErr := do
  modify fun db => { db with
    kvCacheTable := db.kvCacheTable.map fun n => { n with addr := dataUnused } }
  let db ← get
  let result ← formatAll lib ((List.range db.sectorNum).map (· * db.secSize))
  if result = .noErr then createDefaults lib default db.defaultKvs
  modify fun db => { db with oldestAddr := 0 }
  return result

/-- `check_oldest_addr_cb`, with the oldest address and the last status. -/
def checkOldestAddrCb (sector : SecInfo) (a : ℕ × StoreStatus) : Native σ (Bool × ℕ × StoreStatus) :=
  if a.2 = .empty ∧ (sector.store = .full ∨ sector.store = .inUse) then
    return (false, sector.addr, sector.store)
  else return (false, a.1, sector.store)

/-- `check_sec_hdr_cb`, with the number of headers that were not accepted. -/
def checkSecHdrCb (sector : SecInfo) (failedCount : ℕ) : Native σ (Bool × ℕ) := do
  if sector.checkOk then return (false, failedCount)
  else if (← get).notFormatable then return (true, failedCount + 1)
  else
    let _ ← formatSector lib sector.addr sectorNotCombined
    return (false, failedCount + 1)

/-- `check_and_recovery_gc_cb`. -/
def checkAndRecoveryGcCb (sector : SecInfo) (_ : Unit) : Native σ (Bool × Unit) := do
  if sector.checkOk ∧ sector.dirty = .gc then
    modify fun db => { db with gcRequest := true }
    lib.gcCollectByFreeSize (← get).maxSize
  return (false, ())

/-- The recovery of the keys, which starts again after each collection. -/
def recoverKvs : ℕ → Native σ Unit
  | 0 => throw .endless
  | rounds + 1 => do
    let _ ← kvIterator lib lib.recoverInSector
    if (← get).gcRequest then
      lib.gcCollectByFreeSize (← get).maxSize
      recoverKvs rounds
    else return ()

/-- `_fdb_kv_load`. -/
def fdbKvLoad : Native σ FdbErr := do
  modify fun db => { db with inRecoveryCheck := true }
  let (_, checkFailedCount) ← sectorIterator lib default .unused (checkSecHdrCb lib) false 0
  let db ← get
  if db.notFormatable ∧ checkFailedCount > 0 then return .readErr
  else
    if checkFailedCount = db.sectorNum then
      let _ ← fdbKvSetDefault lib
    let _ ← sectorIterator lib default .unused (checkAndRecoveryGcCb lib) false ()
    recoverKvs lib (db.sectorNum + 1)
    modify fun db => { db with inRecoveryCheck := false }
    return .noErr

/-- `_fdb_init_ex`. -/
def fdbInitEx (path : Bytes) : Native σ FdbErr := do
  let db ← get
  if db.initOk then return .noErr
  else
    if db.fileMode then
      fdbAssert (db.secSize ≠ 0)
      fdbAssert (db.maxSize ≠ 0)
      modify fun db => { db with files := lib.fileInit path db.files }
      fdbAssert (path ≠ [])
    fdbAssert (db.secSize &&& (db.secSize - 1) = 0)
    if db.maxSize % db.secSize ≠ 0 ∨ db.maxSize / db.secSize < 2 then return .initFailed
    else return .noErr

/-- The loops of `fdb_kvdb_init` over the caches. -/
def Kvdb.emptyCaches (db : Kvdb σ) : Kvdb σ :=
  { db with
    sectorCacheTable := db.sectorCacheTable.map fun s =>
      { s with checkOk := false, emptyKv := failedAddr, addr := dataUnused }
    kvCacheTable := db.kvCacheTable.map fun n => { n with addr := dataUnused } }

/-- `fdb_kvdb_init`; the default keys are none for a null pointer. -/
def fdbKvdbInit (path : Bytes) (defaultKv : List (Bytes × Bytes)) : Native σ FdbErr := do
  let result ← fdbInitEx lib path
  if result = .noErr then
    modify fun db => { db with
      gcRequest := false, inRecoveryCheck := false, defaultKvs := defaultKv, oldestAddr := 0 }
    let (_, sectorOldestAddr, _) ←
      sectorIterator lib default .unused checkOldestAddrCb false (0, .unused)
    modify fun db => { db with oldestAddr := sectorOldestAddr }
    fdbAssert (gcEmptySecThreshold < (← get).sectorNum)
    -- only now are the caches emptied
    modify Kvdb.emptyCaches
    let result ← fdbKvLoad lib
    if result = .noErr then modify fun db => { db with initOk := true }
    return result
  else return result

end Functions

end Cache

end Ixmati
