import Ixmati.Lib.Exec
import Ixmati.Migrate.Destinations

/-!
# Executing a migration

`execute` of `ixmati-store-migrate`, with the files: the rows of the sources are collected, the sources
are copied to the evidence directory, the destinations are written to temporary files, and then each of
these is renamed to its destination, one after the other.

Every call of the file system and of SQLite may fail (`Call`).  `faults` says which calls do, with what
error, and what a failed call leaves behind: some of the directories that it was to create, or a part
of the file that it was to write.  A program that fails leaves the files as they then are, so what
`execute` undoes it has to undo itself: it does so when writing the temporary files fails, and not
later.

Paths are compared as the manifest spells them; links are not modelled.  Nor are the files that SQLite
keeps beside a database while it is open.
-/

namespace Ixmati

namespace Migrate

open WriteEngine

/-! ### Manifests -/

/-- A path, by its components. -/
abbrev Path := List String

/-- `SourceSpec` and `TargetSpec`. -/
structure StoreSpec where
  name : String
  path : Path
  deriving DecidableEq

/-- `Manifest`. -/
structure Manifest where
  operation : Operation
  sources : List StoreSpec
  target : Option StoreSpec
  targets : List StoreSpec
  hashAlgorithm : String
  evidenceDir : Path
  quiesced : Bool

/-- What the tool takes from outside. -/
structure Tools where
  /-- The first eight bytes of the SHA-256 of a key. -/
  hash : String → UInt64
  /-- `format!("{:?}")` of a string. -/
  debug : String → String
  /-- `std::process::id`. -/
  pid : ℕ

/-- `HASH_ALGORITHM`. -/
def hashAlgorithm : String := "sha256-key-v1"

/-- `validate_store_name`. -/
def validateStoreName (T : Tools) (name : String) : Except MigrationError Unit :=
  if name.isEmpty ∨ name.utf8ByteSize > 63 ∨
      ¬ name.toList.all fun c => c.isAlphanum || c == '_' || c == '-' then
    .error (.manifest ("identificador de store inválido: " ++ T.debug name))
  else .ok ()

/-- The loop of `validate_manifest` over all stores, with the names seen so far. -/
def validateSpecs (T : Tools) (operation : Operation) :
    List String → List StoreSpec → Except MigrationError Unit
  | _, [] => .ok ()
  | names, spec :: specs => do
    validateStoreName T spec.name
    if spec.name ∈ names ∧ operation ≠ .merge then
      .error (.manifest ("nombre duplicado: " ++ spec.name))
    else if spec.path = [] then .error (.manifest ("ruta vacía para " ++ spec.name))
    else validateSpecs T operation (spec.name :: names) specs

/-- `target_specs`. -/
def Manifest.targetSpecs (m : Manifest) : List StoreSpec := m.target.toList ++ m.targets

/-- The shape that an operation asks for. -/
def validateShape (m : Manifest) : Except MigrationError Unit :=
  match m.operation with
  | .split =>
    if m.sources.length ≠ 1 ∨ m.target.isSome ∨ m.targets.length < 2 then
      .error (.manifest "split requiere exactamente un source y al menos dos targets")
    else .ok ()
  | _ =>
    if m.target.isNone ∨ ¬ m.targets.isEmpty then
      .error (.manifest "rename/merge requieren target y no targets")
    else .ok ()

/-- `validate_manifest`. -/
def validateManifest (T : Tools) (m : Manifest) : Except MigrationError Unit :=
  if m.sources.isEmpty then .error (.manifest "sources no puede estar vacío")
  else if ¬ m.quiesced then
    .error (.manifest "quiesced=true es obligatorio: la herramienta no detiene servicios")
  else if m.hashAlgorithm ≠ hashAlgorithm then
    .error (.manifest ("hash_algorithm debe ser " ++ hashAlgorithm))
  else do
    validateSpecs T m.operation [] (m.sources ++ m.targetSpecs)
    validateShape m

/-! ### Files -/

/-- The content of a file. -/
inductive File where
  | database (db : SourceDb)
  | bytes (b : Bytes)
  | report (r : Report) (checksums : Dict String String)

/-- What is found at a path. -/
inductive Node where
  | dir
  | file (content : File)

/-- The files and directories. -/
abbrev Fs := Path → Option Node

/-- A file is written. -/
def writeFile (p : Path) (content : File) (fs : Fs) : Fs :=
  Function.update fs p (some (.file content))

/-- `create_dir_all`, down to the depth. -/
def createDirs (path : Path) (depth : ℕ) (fs : Fs) : Fs := fun p =>
  if p <+: path ∧ p.length ≤ depth ∧ (fs p).isNone then some .dir else fs p

/-- `fs::copy`; a file that is copied to itself is truncated first. -/
def copyFile (source target : Path) (fs : Fs) : Fs :=
  match fs source with
  | some (.file content) => writeFile target (if source = target then .bytes [] else content) fs
  | _ => fs

/-- `fs::rename`. -/
def renameFile (source target : Path) (fs : Fs) : Fs :=
  match fs source with
  | some node => Function.update (Function.update fs target (some node)) source none
  | none => fs

/-- `fs::remove_file`. -/
def removeFile (p : Path) (fs : Fs) : Fs :=
  match fs p with
  | some (.file _) => Function.update fs p none
  | _ => fs

/-- A database without tables. -/
def emptyDb : SourceDb where
  payload _ := none
  tombstones := none
  idempotency := none
  outbox := none

/-- The database of a store, as it is found in its file. -/
def databaseFile (name : String) (db : Database) : File := .database (toSource name db).db

/-! ### Calls that may fail -/

/-- The calls of `execute`, each in its place. -/
inductive Call where
  | createEvidenceDir
  | collectStates
  | collectIdempotency
  | collectOutbox
  | backup (source : ℕ)
  | createParent (target : ℕ)
  | openTemp (target : ℕ)
  | createSchema (target : ℕ)
  | insertState (row : ℕ)
  | insertIdempotency (row : ℕ)
  | insertOutbox (row : ℕ)
  | checkpoint (target : ℕ)
  | removeTemp (target : ℕ)
  | rename (target : ℕ)
  | checksum (target : ℕ)
  | serializeReport
  | writeReport
  deriving DecidableEq

/-- How a call fails. -/
structure Fault where
  error : MigrationError
  /-- The depth down to which directories were created. -/
  depth : ℕ
  /-- What is in the file that was to be written, if anything was done to it. -/
  left : Option File

/-- A program on the files. -/
abbrev Prog := EStateM MigrationError Fs

/-- A call that does `effect`, or leaves what `failing` says. -/
def call (faults : Call → Option Fault) (c : Call) (failing : Fault → Fs → Fs) (effect : Fs → Fs) :
    Prog Unit :=
  match faults c with
  | some fault => do
    modify (failing fault)
    throw fault.error
  | none => modify effect

/-- What a failed write leaves. -/
def leave (p : Path) (fault : Fault) (fs : Fs) : Fs :=
  match fault.left with
  | some content => writeFile p content fs
  | none => fs

/-- A failed call that writes nothing leaves everything as it is. -/
def unchanged (_ : Fault) (fs : Fs) : Fs := fs

/-- The outcome of a computation on rows. -/
def ofExcept {σ α : Type} : Except MigrationError α → EStateM MigrationError σ α
  | .ok a => pure a
  | .error e => throw e

/-! ### Collecting and copying -/

/-- `Connection::open` and its first query: a file that is not there is created. -/
def connect (p : Path) : Prog SourceDb := do
  match (← get) p with
  | none =>
    modify (writeFile p (.bytes []))
    return emptyDb
  | some (.file (.database db)) => return db
  | some (.file (.bytes [])) => return emptyDb
  | some (.file _) => throw (.sqlite "file is not a database")
  | some .dir => throw (.sqlite "unable to open database file")

/-- The sources, opened one after the other. -/
def openSources : List StoreSpec → Prog (List Source)
  | [] => return []
  | s :: specs => do
    let db ← connect s.path
    let sources ← openSources specs
    return ⟨s.name, db⟩ :: sources

section Execute

variable (T : Tools) (faults : Call → Option Fault) (m : Manifest)

/-- The backup of a source. -/
def backupPath (s : StoreSpec) : Path := m.evidenceDir ++ [s.name ++ ".pre-migration.db"]

/-- The report. -/
def reportPath : Path := m.evidenceDir ++ ["migration-report.json"]

/-- `temporary_path`: a suffix for the last component. -/
def temporaryPath (path : Path) : Path :=
  path.dropLast ++ [path.getLastD "" ++ ".ixmati-migrate-" ++ toString T.pid ++ "-tmp"]

/-- The names of the destinations. -/
def Manifest.targetNames : List String := m.targetSpecs.map (·.name)

/-- What is collected. -/
structure Rows where
  states : List StateRow
  conflicts : ℕ
  idempotency : List IdempotencyRow
  deduplicated : ℕ
  outbox : List OutboxRow

/-- A collection of rows of all sources. -/
def collect {α : Type} (c : Call) (f : List Source → Except MigrationError α) : Prog α := do
  call faults c unchanged id
  ofExcept (f (← openSources m.sources))

/-- The check that a destination does not exist. -/
def checkDestination (d : StoreSpec) : Prog Unit := do
  if ((← get) d.path).isSome then
    throw (.precondition ("destino ya existe: " ++ String.intercalate "/" d.path))

/-- `execute` until the temporary files. -/
def prepare : Prog Rows := do
  call faults .createEvidenceDir (fun fault => createDirs m.evidenceDir fault.depth)
    (createDirs m.evidenceDir m.evidenceDir.length)
  let (states, conflicts) ← collect faults m .collectStates collectStates
  let (idempotency, deduplicated) ← collect faults m .collectIdempotency collectIdempotency
  let outbox ← collect faults m .collectOutbox collectOutbox
  Exec.loop (fun s => call faults (.backup s.2) (leave (backupPath m s.1))
    (copyFile s.1.path (backupPath m s.1))) m.sources.zipIdx
  Exec.loop checkDestination m.targetSpecs
  return ⟨states, conflicts, idempotency, deduplicated, outbox⟩

/-! ### Writing the temporary files -/

/-- `CREATE TABLE`. -/
def createTable (name : String) (found : SourceDb → Bool) (add : SourceDb → SourceDb) :
    EStateM MigrationError SourceDb Unit := do
  if found (← get) then throw (.sqlite ("table " ++ name ++ " already exists"))
  modify add

/-- The statements of `create_schema`. -/
def createTables (store : String) : EStateM MigrationError SourceDb Unit := do
  createTable "_idempotency" (·.idempotency.isSome) fun db => { db with idempotency := some ⟨true, true, []⟩ }
  createTable "_tombstones" (·.tombstones.isSome) fun db => { db with tombstones := some [] }
  createTable "_outbox" (·.outbox.isSome) fun db => { db with outbox := some [] }
  createTable ("\"payload_" ++ store ++ "\"") (fun db => (db.payload ("payload_" ++ store)).isSome)
    fun db => { db with payload := Function.update db.payload ("payload_" ++ store) (some []) }

/-- The tables of a destination, in its file. -/
def createTablesAt (p : Path) (store : String) : Prog Unit := do
  let db ← connect p
  match (createTables store).run db with
  | .ok _ db => modify (writeFile p (.database db))
  | .error e db => do
    modify (writeFile p (.database db))
    throw e

/-- The parent directory, the file and the tables of a destination. -/
def openTemp (d : StoreSpec × ℕ) : Prog Unit := do
  let temp := temporaryPath T d.1.path
  call faults (.createParent d.2) (fun fault => createDirs temp.dropLast fault.depth)
    (createDirs temp.dropLast temp.dropLast.length)
  call faults (.openTemp d.2) (leave temp)
    fun fs => if (fs temp).isNone then writeFile temp (.bytes []) fs else fs
  call faults (.createSchema d.2) (leave temp) id
  createTablesAt temp d.1.name

/-- A row is inserted into the destination that it is routed to. -/
def insertRow {α : Type} (fails : ℕ → Option Fault) (route : α → ℕ)
    (f : ℕ → Database → α → Except MigrationError Database) (r : α × ℕ) :
    EStateM MigrationError Parts Unit := do
  match fails r.2 with
  | some fault => throw fault.error
  | none =>
    let parts ← get
    let part ← ofExcept (f (route r.1) (parts (route r.1)) r.1)
    set (Function.update parts (route r.1) part)

/-- The rows of a table. -/
def insertRows {α : Type} (fails : ℕ → Option Fault) (route : α → ℕ)
    (f : ℕ → Database → α → Except MigrationError Database) (rows : List α) :
    EStateM MigrationError Parts Unit :=
  Exec.loop (insertRow fails route f) rows.zipIdx

/-- The inserts of `write_destinations`. -/
def insertAll (rows : Rows) : EStateM MigrationError Parts Unit := do
  insertRows (fun j => faults (.insertState j))
    (fun s => targetOf T.hash m.operation m.targetNames s.key)
    (fun i => insertState (targetName m.targetNames i)) rows.states
  insertRows (fun j => faults (.insertIdempotency j))
    (fun r => targetOf T.hash m.operation m.targetNames r.key)
    (fun i => insertIdempotency (targetName m.targetNames i)) rows.idempotency
  insertRows (fun j => faults (.insertOutbox j))
    (fun r => targetOf T.hash m.operation m.targetNames r.key)
    (fun i => insertOutbox (targetName m.targetNames i)) rows.outbox

/-- The destinations as they are in the temporary files. -/
def flush (parts : Parts) (fs : Fs) : Fs :=
  m.targetSpecs.zipIdx.foldl
    (fun fs d => writeFile (temporaryPath T d.1.path) (databaseFile d.1.name (parts d.2)) fs) fs

/-- The inserts, on the temporary files. -/
def insertIntoTemps (rows : Rows) : Prog Unit := fun fs =>
  match (insertAll T faults m rows).run fun i => createSchema (targetName m.targetNames i) with
  | .ok _ parts => .ok () (flush T m parts fs)
  | .error e parts => .error e (flush T m parts fs)

/-- `write_destinations`. -/
def writeTemps (rows : Rows) : Prog Unit := do
  Exec.loop (openTemp T faults) m.targetSpecs.zipIdx
  insertIntoTemps T faults m rows
  Exec.loop (fun d => call faults (.checkpoint d.2) (leave (temporaryPath T d.1.path)) id)
    m.targetSpecs.zipIdx

/-- The temporary files are removed; an error is ignored. -/
def removeTemps : Prog Unit :=
  Exec.loop (fun d => do
    match faults (.removeTemp d.2) with
    | some _ => return ()
    | none => modify (removeFile (temporaryPath T d.1.path))) m.targetSpecs.zipIdx

/-! ### Publication -/

variable (checksum : File → String)

/-- `file_checksum`. -/
def fileChecksum (i : ℕ) (p : Path) : Prog String := do
  call faults (.checksum i) unchanged id
  match (← get) p with
  | some (.file content) => return checksum content
  | some .dir => throw (.io "Is a directory (os error 21)")
  | none => throw (.io "No such file or directory (os error 2)")

/-- The renames, each with its checksum. -/
def publishAll : List (StoreSpec × ℕ) → Dict String String → Prog (Dict String String)
  | [], checksums => return checksums
  | d :: targets, checksums => do
    call faults (.rename d.2) unchanged (renameFile (temporaryPath T d.1.path) d.1.path)
    let sum ← fileChecksum faults checksum d.2 d.1.path
    publishAll targets (checksums.insert d.1.name sum)

/-- `execute` after the temporary files. -/
def publish (rows : Rows) : Prog Unit := do
  let checksums ← publishAll T faults checksum m.targetSpecs.zipIdx Table.empty
  let report := reportOf T.hash m.operation m.targetNames (m.sources.map (·.name)) rows.states
    rows.conflicts rows.idempotency rows.deduplicated rows.outbox
  call faults .serializeReport unchanged id
  call faults .writeReport (leave (reportPath m)) (writeFile (reportPath m) (.report report checksums))

/-- If writing the temporary files fails they are removed, and the error is returned. -/
def writeOrRemove (rows : Rows) : Prog Unit := fun fs =>
  match (writeTemps T faults m rows).run fs with
  | .ok _ fs => .ok () fs
  | .error e fs => .error e (Exec.endState ((removeTemps T faults m).run fs))

/-- `execute`. -/
def execute : Prog Unit := do
  let rows ← prepare faults m
  writeOrRemove T faults m rows
  publish T faults m checksum rows

end Execute

end Migrate

end Ixmati
