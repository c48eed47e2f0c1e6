import Ixmati.Migrate.Execute

/-!
# All or nothing

When does `execute` leave nothing behind if it fails?  Until the temporary files are written it touches
neither sources nor destinations, and if writing them fails it removes them.  From the first rename on
it undoes nothing: a destination is there or its temporary file still is.  So a failed execution leaves
nothing exactly if it fails before the publication, and the removals it then makes do not fail
themselves (`allOrNothing_iff`).

This is about manifests whose paths do not get in each other's way (`Separate`), which
`validate_manifest` does not check.
-/

namespace Ixmati

namespace Migrate

open WriteEngine Exec

/-- No destination appears, no temporary file is left and the sources are as they were. -/
structure AllOrNothing (T : Tools) (m : Manifest) (fs fs' : Fs) : Prop where
  destinations : ∀ d ∈ m.targetSpecs, fs d.path = none → fs' d.path = none
  temporaries : ∀ d ∈ m.targetSpecs, fs' (temporaryPath T d.path) = none
  sources : ∀ s ∈ m.sources, fs' s.path = fs s.path

/-- The sources and destinations. -/
def Manifest.outer (m : Manifest) : List Path := (m.sources ++ m.targetSpecs).map (·.path)

/-- The temporary files. -/
def temporaries (T : Tools) (m : Manifest) : List Path :=
  m.targetSpecs.map fun d => temporaryPath T d.path

/-- Nothing that `execute` creates on the way is a source, a destination or a temporary file, and the
temporary files are new and different from each other and from sources and destinations. -/
structure Separate (T : Tools) (m : Manifest) (fs : Fs) : Prop where
  evidence : ∀ p ∈ m.outer ++ temporaries T m, ¬ p <+: m.evidenceDir
  backups : ∀ p ∈ m.outer ++ temporaries T m, ∀ s ∈ m.sources, p ≠ backupPath m s
  parents : ∀ p ∈ m.outer ++ temporaries T m, ∀ d ∈ m.targetSpecs,
    ¬ p <+: (temporaryPath T d.path).dropLast
  fresh : ∀ p ∈ temporaries T m, fs p = none
  distinct : (temporaries T m).Nodup
  apart : ∀ p ∈ temporaries T m, p ∉ m.outer

/-! ### Calls -/

section Call

variable {faults : Call → Option Fault} {c : Call} {failing : Fault → Fs → Fs} {effect : Fs → Fs}
  {I J : Fs → Prop}

theorem call_returns (hc : faults c = none) (h : ∀ fs, I fs → J (effect fs)) :
    Returns I J (call faults c failing effect) () := by
  intro fs hfs
  refine ⟨effect fs, ?_, h fs hfs⟩
  unfold call
  rw [hc]
  rfl

theorem call_fails (hc : faults c ≠ none) (h : ∀ fault fs, faults c = some fault → I fs →
    J (failing fault fs)) : Fails I J (call faults c failing effect) := by
  intro fs hfs
  obtain ⟨fault, hfault⟩ := Option.ne_none_iff_exists'.1 hc
  refine ⟨fault.error, failing fault fs, ?_, h fault fs hfault hfs⟩
  unfold call
  rw [hfault]
  rfl

/-- A call that keeps a property whether or not it fails. -/
theorem call_keeps (hfail : ∀ fault fs, I fs → I (failing fault fs)) (heff : ∀ fs, I fs → I (effect fs)) :
    Keeps I (call faults c failing effect) := by
  intro fs hfs
  unfold call
  cases faults c with
  | none => exact heff fs hfs
  | some fault => exact hfail fault fs hfs

/-- A call that keeps a property returns or fails with it. -/
theorem call_cases (hfail : ∀ fault fs, I fs → I (failing fault fs)) (heff : ∀ fs, I fs → I (effect fs)) :
    Returns I I (call faults c failing effect) () ∨ Fails I I (call faults c failing effect) := by
  by_cases hc : faults c = none
  · exact Or.inl (call_returns hc heff)
  · exact Or.inr (call_fails hc fun fault fs _ => hfail fault fs)

/-- Calls in a loop, each of which keeps a property. -/
theorem calls_return {α : Type} {l : List α} {c : ℕ → Call} {failing : α × ℕ → Fault → Fs → Fs}
    {effect : α × ℕ → Fs → Fs} (h : ∀ i < l.length, faults (c i) = none)
    (heff : ∀ a ∈ l.zipIdx, ∀ fs, I fs → I (effect a fs)) :
    Returns I I (Exec.loop (fun a => call faults (c a.2) (failing a) (effect a)) l.zipIdx) () :=
  Returns.loop fun a ha => call_returns (h a.2 (List.snd_lt_of_mem_zipIdx ha)) (heff a ha)

theorem calls_fail {α : Type} {l : List α} {c : ℕ → Call} {failing : α × ℕ → Fault → Fs → Fs}
    {effect : α × ℕ → Fs → Fs} (h : ¬ ∀ i < l.length, faults (c i) = none)
    (hfail : ∀ a ∈ l.zipIdx, ∀ fault fs, I fs → I (failing a fault fs))
    (heff : ∀ a ∈ l.zipIdx, ∀ fs, I fs → I (effect a fs)) :
    Fails I I (Exec.loop (fun a => call faults (c a.2) (failing a) (effect a)) l.zipIdx) := by
  simp only [not_forall] at h
  obtain ⟨i, hi, hfault⟩ := h
  have hmem : (l[i], i) ∈ l.zipIdx := List.mem_zipIdx_iff_getElem?.2 (List.getElem?_eq_getElem hi)
  exact Fails.loop (fun a ha => call_cases (hfail a ha) (heff a ha))
    ⟨_, hmem, call_fails hfault fun fault fs _ => hfail _ hmem fault fs⟩

end Call

/-! ### Files elsewhere -/

section Frame

variable {fs fs₀ : Fs} {p q : Path}

theorem writeFile_of_ne {content : File} (h : q ≠ p) : writeFile p content fs q = fs q :=
  Function.update_of_ne h _ _

theorem leave_of_ne {fault : Fault} (h : q ≠ p) : leave p fault fs q = fs q := by
  unfold leave
  cases fault.left with
  | none => rfl
  | some content => exact writeFile_of_ne h

theorem createDirs_elsewhere {depth : ℕ} (h : ¬ q <+: p) : createDirs p depth fs q = fs q :=
  if_neg fun hand => h hand.1

theorem copyFile_of_ne {source : Path} (h : q ≠ p) : copyFile source p fs q = fs q := by
  unfold copyFile
  rcases fs source with _ | _ | content
  · rfl
  · rfl
  · exact writeFile_of_ne h

theorem removeFile_of_ne (h : q ≠ p) : removeFile p fs q = fs q := by
  unfold removeFile
  rcases fs p with _ | _ | content
  · rfl
  · rfl
  · exact Function.update_of_ne h _ _

end Frame

/-! ### Until the temporary files -/

/-- The files at these paths are the same. -/
def Agrees (paths : List Path) (fs₀ fs : Fs) : Prop := ∀ p ∈ paths, fs p = fs₀ p

/-- The database in a file. -/
def readAt (fs : Fs) (p : Path) : SourceDb :=
  match fs p with
  | some (.file (.database db)) => db
  | _ => emptyDb

/-- A file that SQLite opens as a database: an empty file is one without tables. -/
def IsDatabase (fs : Fs) (p : Path) : Prop :=
  (∃ db, fs p = some (.file (.database db))) ∨ fs p = some (.file (.bytes []))

/-- The sources, as the files have them. -/
def sourcesOf (m : Manifest) (fs : Fs) : List Source :=
  m.sources.map fun s => ⟨s.name, readAt fs s.path⟩

/-- Nothing goes wrong until the temporary files: no call fails, the rows can be collected and no
destination exists. -/
structure Prepared (faults : Call → Option Fault) (m : Manifest) (fs : Fs) (rows : Rows) : Prop where
  evidence : faults .createEvidenceDir = none
  states : faults .collectStates = none ∧
    collectStates (sourcesOf m fs) = .ok (rows.states, rows.conflicts)
  idempotency : faults .collectIdempotency = none ∧
    collectIdempotency (sourcesOf m fs) = .ok (rows.idempotency, rows.deduplicated)
  outbox : faults .collectOutbox = none ∧ collectOutbox (sourcesOf m fs) = .ok rows.outbox
  backups : ∀ i < m.sources.length, faults (.backup i) = none
  destinations : ∀ d ∈ m.targetSpecs, fs d.path = none

section Prepare

variable {T : Tools} {faults : Call → Option Fault} {m : Manifest} {fs₀ : Fs} {paths : List Path}

theorem connect_run {fs : Fs} {p : Path} (h : IsDatabase fs p) :
    (connect p).run fs = .ok (readAt fs p) fs := by
  unfold connect readAt
  rw [run_get_bind]
  rcases h with ⟨db, h⟩ | h <;> rw [h] <;> rfl

theorem connect_returns {p : Path} (hp : p ∈ paths) (hdb : IsDatabase fs₀ p) :
    Returns (Agrees paths fs₀) (Agrees paths fs₀) (connect p) (readAt fs₀ p) := by
  intro fs hfs
  have hsame := hfs p hp
  refine ⟨fs, ?_, hfs⟩
  rw [connect_run (by unfold IsDatabase; rw [hsame]; exact hdb), readAt, readAt, hsame]

theorem openSources_returns {specs : List StoreSpec} (hpaths : ∀ s ∈ specs, s.path ∈ paths)
    (hdb : ∀ s ∈ specs, IsDatabase fs₀ s.path) :
    Returns (Agrees paths fs₀) (Agrees paths fs₀) (openSources specs)
      (specs.map fun s => ⟨s.name, readAt fs₀ s.path⟩) := by
  induction specs with
  | nil => exact Returns.pure _
  | cons s specs ih =>
    have hs := hdb s List.mem_cons_self
    have hrest := ih (fun x hx => hpaths x (List.mem_cons_of_mem _ hx))
      (fun x hx => hdb x (List.mem_cons_of_mem _ hx))
    rw [List.map_cons]
    exact (connect_returns (hpaths s List.mem_cons_self) hs).bind (hrest.bind (Returns.pure _))

variable (hpaths : ∀ s ∈ m.sources, s.path ∈ paths)
  (hdb : ∀ s ∈ m.sources, IsDatabase fs₀ s.path)

include hpaths hdb

theorem collect_returns {α : Type} {c : Call} {f : List Source → Except MigrationError α} {a : α}
    (hc : faults c = none) (hf : f (sourcesOf m fs₀) = .ok a) :
    Returns (Agrees paths fs₀) (Agrees paths fs₀) (collect faults m c f) a := by
  refine Returns.bind (call_returns hc fun _ h => h) ((openSources_returns hpaths hdb).bind ?_)
  show Returns _ _ (ofExcept (f (sourcesOf m fs₀))) a
  rw [hf]
  exact Returns.pure a

theorem collect_fails {α : Type} {c : Call} {f : List Source → Except MigrationError α}
    (h : ¬ (faults c = none ∧ ∃ a, f (sourcesOf m fs₀) = .ok a)) :
    Fails (Agrees paths fs₀) (Agrees paths fs₀) (collect faults m c f) := by
  by_cases hc : faults c = none
  · refine (call_returns hc fun _ h => h).bind_fails ((openSources_returns hpaths hdb).bind_fails ?_)
    show Fails _ _ (ofExcept (f (sourcesOf m fs₀)))
    cases hf : f (sourcesOf m fs₀) with
    | ok a => exact absurd ⟨hc, a, hf⟩ h
    | error e => exact fun fs hfs => ⟨e, fs, rfl, hfs⟩
  · exact (call_fails hc fun _ _ _ h => h).bind _

end Prepare

section Prepare

variable {T : Tools} {faults : Call → Option Fault} {m : Manifest} {fs₀ : Fs} {rows : Rows}

theorem mem_outer_of_source {s : StoreSpec} (hs : s ∈ m.sources) : s.path ∈ m.outer :=
  List.mem_map_of_mem (List.mem_append_left _ hs)

theorem mem_outer_of_target {d : StoreSpec} (hd : d ∈ m.targetSpecs) : d.path ∈ m.outer :=
  List.mem_map_of_mem (List.mem_append_right _ hd)

theorem mem_temporaries {d : StoreSpec} (hd : d ∈ m.targetSpecs) :
    temporaryPath T d.path ∈ temporaries T m :=
  List.mem_map_of_mem hd

theorem checkDestination_cases {paths : List Path} {d : StoreSpec} (hd : d.path ∈ paths) :
    (fs₀ d.path = none → Returns (Agrees paths fs₀) (Agrees paths fs₀) (checkDestination d) ()) ∧
    (fs₀ d.path ≠ none → Fails (Agrees paths fs₀) (Agrees paths fs₀) (checkDestination d)) := by
  have hrun : ∀ fs : Fs, Agrees paths fs₀ fs → (checkDestination d).run fs =
      if (fs₀ d.path).isSome then
        .error (.precondition ("destino ya existe: " ++ String.intercalate "/" d.path)) fs
      else .ok () fs := by
    intro fs hfs
    unfold checkDestination
    rw [run_get_bind, hfs _ hd]
    cases fs₀ d.path <;> rfl
  constructor
  · intro hnone fs hfs
    refine ⟨fs, ?_, hfs⟩
    rw [hrun fs hfs, hnone]
    rfl
  · intro hsome fs hfs
    have herror := hrun fs hfs
    rw [if_pos (Option.isSome_iff_ne_none.2 hsome)] at herror
    exact ⟨_, fs, herror, hfs⟩

variable (hsep : Separate T m fs₀)
  (hdb : ∀ s ∈ m.sources, IsDatabase fs₀ s.path)

include hsep in
/-- Backups are elsewhere. -/
theorem backup_cases {s : StoreSpec × ℕ} (hs : s ∈ m.sources.zipIdx) :
    (∀ fault fs, Agrees (m.outer ++ temporaries T m) fs₀ fs →
      Agrees (m.outer ++ temporaries T m) fs₀ (leave (backupPath m s.1) fault fs)) ∧
    ∀ fs, Agrees (m.outer ++ temporaries T m) fs₀ fs →
      Agrees (m.outer ++ temporaries T m) fs₀ (copyFile s.1.path (backupPath m s.1) fs) := by
  have hne := fun p hp => hsep.backups p hp s.1 (List.fst_mem_of_mem_zipIdx hs)
  exact ⟨fun fault fs hfs p hp => (leave_of_ne (hne p hp)).trans (hfs p hp),
    fun fs hfs p hp => (copyFile_of_ne (hne p hp)).trans (hfs p hp)⟩

include hsep in
theorem evidence_keeps (depth : ℕ) (fs : Fs) (hfs : Agrees (m.outer ++ temporaries T m) fs₀ fs) :
    Agrees (m.outer ++ temporaries T m) fs₀ (createDirs m.evidenceDir depth fs) :=
  fun p hp => (createDirs_elsewhere (hsep.evidence p hp)).trans (hfs p hp)

include hsep hdb

theorem prepare_returns (h : Prepared faults m fs₀ rows) :
    Returns (Agrees (m.outer ++ temporaries T m) fs₀) (Agrees (m.outer ++ temporaries T m) fs₀)
      (prepare faults m) rows := by
  have hpaths : ∀ s ∈ m.sources, s.path ∈ m.outer ++ temporaries T m :=
    fun s hs => List.mem_append_left _ (mem_outer_of_source hs)
  refine Returns.bind (call_returns h.evidence (evidence_keeps hsep _)) ?_
  refine Returns.bind (collect_returns hpaths hdb h.states.1 h.states.2) ?_
  refine Returns.bind (collect_returns hpaths hdb h.idempotency.1 h.idempotency.2) ?_
  refine Returns.bind (collect_returns hpaths hdb h.outbox.1 h.outbox.2) ?_
  refine Returns.bind (calls_return h.backups fun s hs => (backup_cases hsep hs).2) ?_
  refine Returns.bind (Returns.loop fun d hd => ?_) (Returns.pure _)
  exact (checkDestination_cases (List.mem_append_left _ (mem_outer_of_target hd))).1
    (h.destinations d hd)

theorem prepare_fails (h : ∀ rows, ¬ Prepared faults m fs₀ rows) :
    Fails (Agrees (m.outer ++ temporaries T m) fs₀) (Agrees (m.outer ++ temporaries T m) fs₀)
      (prepare faults m) := by
  have hpaths : ∀ s ∈ m.sources, s.path ∈ m.outer ++ temporaries T m :=
    fun s hs => List.mem_append_left _ (mem_outer_of_source hs)
  unfold prepare
  by_cases hevidence : faults .createEvidenceDir = none
  swap
  · exact (call_fails hevidence fun fault fs _ => evidence_keeps hsep _ fs).bind _
  refine (call_returns hevidence (evidence_keeps hsep _)).bind_fails ?_
  by_cases hstates : faults .collectStates = none ∧ ∃ p, collectStates (sourcesOf m fs₀) = .ok p
  swap
  · exact (collect_fails hpaths hdb hstates).bind _
  obtain ⟨hstates, ⟨states, conflicts⟩, hstates'⟩ := hstates
  refine (collect_returns hpaths hdb hstates hstates').bind_fails ?_
  by_cases hidem : faults .collectIdempotency = none ∧
      ∃ p, collectIdempotency (sourcesOf m fs₀) = .ok p
  swap
  · exact (collect_fails hpaths hdb hidem).bind _
  obtain ⟨hidem, ⟨idempotency, deduplicated⟩, hidem'⟩ := hidem
  refine (collect_returns hpaths hdb hidem hidem').bind_fails ?_
  by_cases houtbox : faults .collectOutbox = none ∧ ∃ p, collectOutbox (sourcesOf m fs₀) = .ok p
  swap
  · exact (collect_fails hpaths hdb houtbox).bind _
  obtain ⟨houtbox, outbox, houtbox'⟩ := houtbox
  refine (collect_returns hpaths hdb houtbox houtbox').bind_fails ?_
  by_cases hbackups : ∀ i < m.sources.length, faults (.backup i) = none
  swap
  · exact (calls_fail hbackups (fun s hs => (backup_cases hsep hs).1)
      fun s hs => (backup_cases hsep hs).2).bind _
  refine (calls_return hbackups fun s hs => (backup_cases hsep hs).2).bind_fails ?_
  by_cases hdest : ∀ d ∈ m.targetSpecs, fs₀ d.path = none
  swap
  · have hmem : ∀ d ∈ m.targetSpecs, d.path ∈ m.outer ++ temporaries T m :=
      fun d hd => List.mem_append_left _ (mem_outer_of_target hd)
    refine (Fails.loop (fun d hd => ?_) ?_).bind _
    · by_cases hnone : fs₀ d.path = none
      · exact Or.inl ((checkDestination_cases (hmem d hd)).1 hnone)
      · exact Or.inr ((checkDestination_cases (hmem d hd)).2 hnone)
    · simp only [not_forall] at hdest
      obtain ⟨d, hd, hsome⟩ := hdest
      exact ⟨d, hd, (checkDestination_cases (hmem d hd)).2 hsome⟩
  exact absurd ⟨hevidence, ⟨hstates, hstates'⟩, ⟨hidem, hidem'⟩, ⟨houtbox, houtbox'⟩, hbackups, hdest⟩
    (h ⟨states, conflicts, idempotency, deduplicated, outbox⟩)

end Prepare

/-! ### Writing the temporary files -/

/-- The sources and destinations are as they were, and the temporary files with these indices exist. -/
structure Left (T : Tools) (m : Manifest) (fs₀ : Fs) (which : ℕ → Prop) (fs : Fs) : Prop where
  outer : Agrees m.outer fs₀ fs
  there : ∀ i d, m.targetSpecs[i]? = some d → which i →
    ∃ content, fs (temporaryPath T d.path) = some (.file content)
  absent : ∀ i d, m.targetSpecs[i]? = some d → ¬ which i → fs (temporaryPath T d.path) = none

/-- A destination can be opened. -/
def OpensFully (faults : Call → Option Fault) (i : ℕ) : Prop :=
  faults (.createParent i) = none ∧ faults (.openTemp i) = none ∧ faults (.createSchema i) = none

/-- The temporary file of a destination is created. -/
def Opens (faults : Call → Option Fault) (i : ℕ) : Prop :=
  (∀ k < i, OpensFully faults k) ∧ faults (.createParent i) = none ∧
    ∀ fault, faults (.openTemp i) = some fault → fault.left ≠ none

/-- In a database without tables the schema is created. -/
theorem createTables_emptyDb (store : String) :
    (createTables store).run emptyDb = .ok () (toSource store (createSchema store)).db := by
  have hpayload : Function.update (fun _ => none) ("payload_" ++ store) (some []) =
      (toSource store (createSchema store)).db.payload := by
    funext table
    rw [Function.update_apply]
    refine if_congr Iff.rfl ?_ rfl
    have htable : (createSchema store).payload (tableName store) = some Table.empty := by
      simp only [createSchema, ensureSchema, Function.update_self]
    rw [htable]
    rfl
  exact congrArg (fun payload => EStateM.Result.ok () (SourceDb.mk payload (some [])
    (some ⟨true, true, []⟩) (some []))) hpayload

theorem createTablesAt_run {fs : Fs} {p : Path} {store : String}
    (h : fs p = some (.file (.bytes []))) :
    (createTablesAt p store).run fs =
      .ok () (writeFile p (databaseFile store (createSchema store)) fs) := by
  have hread : readAt fs p = emptyDb := by
    unfold readAt
    rw [h]
  unfold createTablesAt
  rw [EStateM.run_bind, connect_run (Or.inr h), hread]
  simp only [createTables_emptyDb]
  rfl

section Write

variable {T : Tools} {faults : Call → Option Fault} {m : Manifest} {fs₀ : Fs} {rows : Rows}

theorem Left.congr {which which' : ℕ → Prop} {fs : Fs} (h : Left T m fs₀ which fs)
    (hiff : ∀ i < m.targetSpecs.length, which i ↔ which' i) : Left T m fs₀ which' fs := by
  have hlt : ∀ {i d}, m.targetSpecs[i]? = some d → i < m.targetSpecs.length := fun hi =>
    (List.getElem?_eq_some_iff.1 hi).1
  exact ⟨h.outer, fun i d hi hw => h.there i d hi ((hiff i (hlt hi)).2 hw),
    fun i d hi hw => h.absent i d hi fun hw' => hw ((hiff i (hlt hi)).1 hw')⟩

variable (hsep : Separate T m fs₀)

include hsep

theorem temporaryPath_inj {i j : ℕ} {d e : StoreSpec} (hi : m.targetSpecs[i]? = some d)
    (hj : m.targetSpecs[j]? = some e) (h : temporaryPath T d.path = temporaryPath T e.path) : i = j := by
  have hlt : i < (temporaries T m).length := by
    rw [temporaries, List.length_map]
    exact (List.getElem?_eq_some_iff.1 hi).1
  have heq : (temporaries T m)[i]? = (temporaries T m)[j]? := by
    rw [temporaries, List.getElem?_map, List.getElem?_map, hi, hj, Option.map_some, Option.map_some, h]
  exact (List.getElem?_inj hlt hsep.distinct).1 heq

/-- Nothing but a temporary file changes. -/
theorem Left.update {which : ℕ → Prop} {fs fs' : Fs} (h : Left T m fs₀ which fs) {i : ℕ}
    {d : StoreSpec} (hi : m.targetSpecs[i]? = some d)
    (hother : ∀ p, p ≠ temporaryPath T d.path → p ∈ m.outer ++ temporaries T m → fs' p = fs p) :
    Agrees m.outer fs₀ fs' ∧ ∀ j e, m.targetSpecs[j]? = some e → j ≠ i →
      fs' (temporaryPath T e.path) = fs (temporaryPath T e.path) := by
  have hd := List.mem_of_getElem? hi
  constructor
  · intro p hp
    refine (hother p (fun heq => ?_) (List.mem_append_left _ hp)).trans (h.outer p hp)
    exact hsep.apart _ (mem_temporaries hd) (heq ▸ hp)
  · intro j e hj hji
    refine hother _ (fun heq => hji (temporaryPath_inj hsep hj hi heq)) ?_
    exact List.mem_append_right _ (mem_temporaries (List.mem_of_getElem? hj))

/-- The temporary file is written. -/
theorem Left.write {which : ℕ → Prop} {fs : Fs} (h : Left T m fs₀ which fs) {i : ℕ} {d : StoreSpec}
    (hi : m.targetSpecs[i]? = some d) (content : File) :
    Left T m fs₀ (fun j => which j ∨ j = i) (writeFile (temporaryPath T d.path) content fs) := by
  have hother : ∀ p, p ≠ temporaryPath T d.path → p ∈ m.outer ++ temporaries T m →
      writeFile (temporaryPath T d.path) content fs p = fs p := fun p hne _ => writeFile_of_ne hne
  obtain ⟨houter, hrest⟩ := h.update hsep hi hother
  refine ⟨houter, fun j e hj hw => ?_, fun j e hj hw => ?_⟩
  · by_cases hji : j = i
    · subst hji
      obtain rfl := Option.some.inj (hi.symm.trans hj)
      exact ⟨content, Function.update_self ..⟩
    · rw [hrest j e hj hji]
      exact h.there j e hj (hw.resolve_right hji)
  · rw [not_or] at hw
    rw [hrest j e hj hw.2]
    exact h.absent j e hj hw.1

/-- Directories are created elsewhere. -/
theorem Left.createDirs {which : ℕ → Prop} {fs : Fs} (h : Left T m fs₀ which fs) {d : StoreSpec}
    (hd : d ∈ m.targetSpecs) (depth : ℕ) :
    Left T m fs₀ which (createDirs (temporaryPath T d.path).dropLast depth fs) := by
  have hsame : ∀ p ∈ m.outer ++ temporaries T m,
      Migrate.createDirs (temporaryPath T d.path).dropLast depth fs p = fs p :=
    fun p hp => createDirs_elsewhere (hsep.parents p hp d hd)
  have htemp : ∀ j (e : StoreSpec), m.targetSpecs[j]? = some e →
      Migrate.createDirs (temporaryPath T d.path).dropLast depth fs (temporaryPath T e.path) =
        fs (temporaryPath T e.path) := fun j e hj =>
    hsame _ (List.mem_append_right _ (mem_temporaries (List.mem_of_getElem? hj)))
  refine ⟨fun p hp => (hsame p (List.mem_append_left _ hp)).trans (h.outer p hp), fun j e hj hw => ?_,
    fun j e hj hw => ?_⟩
  · rw [htemp j e hj]
    exact h.there j e hj hw
  · rw [htemp j e hj]
    exact h.absent j e hj hw

/-- A failed write leaves the file as it was, or written. -/
theorem Left.leave {which : ℕ → Prop} {fs : Fs} (h : Left T m fs₀ which fs) {i : ℕ} {d : StoreSpec}
    (hi : m.targetSpecs[i]? = some d) (fault : Fault) :
    Left T m fs₀ (fun j => which j ∨ (j = i ∧ fault.left ≠ none))
      (leave (temporaryPath T d.path) fault fs) := by
  unfold Migrate.leave
  cases hleft : fault.left with
  | none => exact h.congr fun j _ => by simp
  | some content => exact (h.write hsep hi content).congr fun j _ => by simp

/-- A file that exists stays, whatever is written to it. -/
theorem Left.rewrite {which : ℕ → Prop} {fs : Fs} (h : Left T m fs₀ which fs) {i : ℕ} {d : StoreSpec}
    (hi : m.targetSpecs[i]? = some d) (hw : which i) (content : File) :
    Left T m fs₀ which (writeFile (temporaryPath T d.path) content fs) := by
  refine (h.write hsep hi content).congr fun j _ => or_iff_left_of_imp ?_
  rintro rfl
  exact hw

theorem Left.leave_of_mem {which : ℕ → Prop} {fs : Fs} (h : Left T m fs₀ which fs) {i : ℕ}
    {d : StoreSpec} (hi : m.targetSpecs[i]? = some d) (hw : which i) (fault : Fault) :
    Left T m fs₀ which (Migrate.leave (temporaryPath T d.path) fault fs) := by
  refine (h.leave hsep hi fault).congr fun j _ => or_iff_left_of_imp ?_
  rintro ⟨rfl, -⟩
  exact hw

/-! ### Opening -/

variable {i : ℕ} {d : StoreSpec} (hi : m.targetSpecs[i]? = some d)

include hi

theorem createParent_returns (hc : faults (.createParent i) = none) :
    Returns (Left T m fs₀ (· < i)) (Left T m fs₀ (· < i))
      (call faults (.createParent i)
        (fun fault => createDirs (temporaryPath T d.path).dropLast fault.depth)
        (createDirs (temporaryPath T d.path).dropLast (temporaryPath T d.path).dropLast.length)) () :=
  call_returns hc fun _ hfs => hfs.createDirs hsep (List.mem_of_getElem? hi) _

/-- The file is new, so it is created. -/
theorem open_returns (hc : faults (.openTemp i) = none) :
    Returns (Left T m fs₀ (· < i))
      (fun fs => Left T m fs₀ (· < i + 1) fs ∧ fs (temporaryPath T d.path) = some (.file (.bytes [])))
      (call faults (.openTemp i) (leave (temporaryPath T d.path))
        fun fs => if (fs (temporaryPath T d.path)).isNone then
          writeFile (temporaryPath T d.path) (.bytes []) fs else fs) () := by
  refine call_returns hc fun fs hfs => ?_
  have hnew := hfs.absent i d hi (lt_irrefl i)
  rw [hnew, if_pos Option.isNone_none]
  exact ⟨(hfs.write hsep hi _).congr fun j _ => Nat.lt_succ_iff_lt_or_eq.symm, Function.update_self ..⟩

theorem openTemp_returns (h : OpensFully faults i) :
    Returns (Left T m fs₀ (· < i)) (Left T m fs₀ (· < i + 1)) (openTemp T faults (d, i)) () := by
  refine (createParent_returns hsep hi h.1).bind ((open_returns hsep hi h.2.1).bind
    ((call_returns h.2.2 fun _ hfs => hfs).bind ?_))
  rintro fs ⟨hfs, hempty⟩
  exact ⟨_, createTablesAt_run hempty, hfs.rewrite hsep hi (Nat.lt_succ_self i) _⟩

/-- Where opening fails first, the file is left if it had been created. -/
theorem openTemp_fails (hbefore : ∀ k < i, OpensFully faults k) (h : ¬ OpensFully faults i) :
    Fails (Left T m fs₀ (· < i)) (Left T m fs₀ (Opens faults)) (openTemp T faults (d, i)) := by
  -- a destination is opened before this one, or it is this one
  have hopens : ∀ j, Opens faults j ↔ j < i ∨ (j = i ∧ Opens faults i) := by
    intro j
    refine ⟨fun hj => ?_, ?_⟩
    · rcases lt_trichotomy j i with hlt | rfl | hgt
      · exact Or.inl hlt
      · exact Or.inr ⟨rfl, hj⟩
      · exact absurd (hj.1 i hgt) h
    · rintro (hlt | ⟨rfl, hj⟩)
      · refine ⟨fun k hk => hbefore k (hk.trans hlt), (hbefore j hlt).1, fun fault hfault => ?_⟩
        rw [(hbefore j hlt).2.1] at hfault
        cases hfault
      · exact hj
  by_cases hparent : faults (.createParent i) = none
  swap
  · refine (call_fails hparent fun fault fs _ hfs => ?_).bind _
    refine (hfs.createDirs hsep (List.mem_of_getElem? hi) fault.depth).congr fun j _ => ?_
    rw [hopens j]
    exact (or_iff_left_of_imp fun hj => absurd hj.2.2.1 hparent).symm
  refine (createParent_returns hsep hi hparent).bind_fails ?_
  by_cases hopen : faults (.openTemp i) = none
  swap
  · refine (call_fails hopen fun fault fs hfault hfs => ?_).bind _
    refine (hfs.leave hsep hi fault).congr fun j _ => ?_
    rw [hopens j]
    refine or_congr_right (and_congr_right fun _ => ⟨fun hleft => ⟨hbefore, hparent, ?_⟩, fun hj => ?_⟩)
    · intro fault' hfault'
      obtain rfl := Option.some.inj (hfault.symm.trans hfault')
      exact hleft
    · exact hj.2.2 fault hfault
  refine (open_returns hsep hi hopen).bind_fails ?_
  refine (call_fails (fun hschema => h ⟨hparent, hopen, hschema⟩) fun fault fs _ hfs => ?_).bind _
  refine (hfs.1.leave_of_mem hsep hi (Nat.lt_succ_self i) fault).congr fun j _ => ?_
  rw [hopens j, Nat.lt_succ_iff_lt_or_eq]
  refine or_congr_right ⟨fun hj => ⟨hj, hbefore, hparent, fun fault' hfault' => ?_⟩, And.left⟩
  rw [hopen] at hfault'
  cases hfault'

end Write

/-! ### Inserting -/

/-- No insert fails. -/
structure Inserts (T : Tools) (faults : Call → Option Fault) (m : Manifest) (rows : Rows) : Prop where
  states : ∀ j < rows.states.length, faults (.insertState j) = none
  idempotency : ∀ j < rows.idempotency.length, faults (.insertIdempotency j) = none
  outbox : ∀ j < rows.outbox.length, faults (.insertOutbox j) = none
  parts : ∃ parts, writeDestinations T.hash m.operation m.targetNames rows.states rows.idempotency
    rows.outbox = .ok parts

section Insert

variable {α : Type} {fails : ℕ → Option Fault} {route : α → ℕ}
  {f : ℕ → Database → α → Except MigrationError Database} {parts parts' : Parts} {rows : List α}

theorem insertRow_returns {r : α × ℕ} (hfails : fails r.2 = none) {part : Database}
    (hf : f (route r.1) (parts (route r.1)) r.1 = .ok part) :
    Returns (· = parts) (· = Function.update parts (route r.1) part) (insertRow fails route f r) () := by
  rintro _ rfl
  refine ⟨_, ?_, rfl⟩
  unfold insertRow
  rw [hfails]
  simp only [run_get_bind, hf]
  rfl

theorem insertRow_fails {r : α × ℕ}
    (h : ¬ (fails r.2 = none ∧ ∃ part, f (route r.1) (parts (route r.1)) r.1 = .ok part)) :
    Fails (· = parts) (fun _ => True) (insertRow fails route f r) := by
  rintro s rfl
  unfold insertRow
  cases hfault : fails r.2 with
  | some fault => exact ⟨fault.error, s, rfl, trivial⟩
  | none =>
    simp only [run_get_bind]
    cases hf : f (route r.1) (s (route r.1)) r.1 with
    | ok part => exact absurd ⟨hfault, part, hf⟩ h
    | error e => exact ⟨e, s, rfl, trivial⟩

/-- Rows that can be inserted are inserted as `routeM` does it. -/
theorem insertRows_returns (hfails : ∀ j < rows.length, fails j = none)
    (hroute : routeM route f parts rows = .ok parts') :
    Returns (· = parts) (· = parts') (insertRows fails route f rows) () := by
  suffices h : ∀ n, (∀ j < rows.length, fails (n + j) = none) →
      Returns (· = parts) (· = parts') (Exec.loop (insertRow fails route f) (rows.zipIdx n)) () from
    h 0 fun j hj => by rw [Nat.zero_add]; exact hfails j hj
  clear hfails
  induction rows generalizing parts with
  | nil =>
    intro n _
    obtain rfl := Except.ok.inj hroute
    exact Returns.pure ()
  | cons r rows ih =>
    intro n hfails
    simp only [routeM, bind, Except.bind] at hroute
    split at hroute
    · cases hroute
    rename_i part hpart
    rw [List.zipIdx_cons]
    refine (insertRow_returns (hfails 0 (Nat.succ_pos _)) hpart).bind (ih hroute (n + 1) fun j hj => ?_)
    rw [Nat.add_right_comm]
    exact hfails (j + 1) (Nat.succ_lt_succ hj)

theorem insertRows_fails
    (h : ¬ ((∀ j < rows.length, fails j = none) ∧ ∃ parts', routeM route f parts rows = .ok parts')) :
    Fails (· = parts) (fun _ => True) (insertRows fails route f rows) := by
  suffices hloop : ∀ n, ¬ ((∀ j < rows.length, fails (n + j) = none) ∧
      ∃ parts', routeM route f parts rows = .ok parts') →
      Fails (· = parts) (fun _ => True) (Exec.loop (insertRow fails route f) (rows.zipIdx n)) from
    hloop 0 (by simpa only [Nat.zero_add] using h)
  clear h
  induction rows generalizing parts with
  | nil =>
    intro n h
    exact absurd ⟨fun j hj => absurd hj (Nat.not_lt_zero j), parts, rfl⟩ h
  | cons r rows ih =>
    intro n h
    rw [List.zipIdx_cons]
    by_cases hrow : fails n = none ∧ ∃ part, f (route r) (parts (route r)) r = .ok part
    swap
    · exact (insertRow_fails hrow).bind _
    obtain ⟨hfails, part, hpart⟩ := hrow
    refine Returns.bind_fails (insertRow_returns hfails hpart) (ih (n + 1) fun hrest => h ⟨?_, ?_⟩)
    · intro j hj
      cases j with
      | zero => exact hfails
      | succ j =>
        have := hrest.1 j (Nat.lt_of_succ_lt_succ hj)
        rwa [Nat.add_right_comm] at this
    · obtain ⟨parts', hparts'⟩ := hrest.2
      refine ⟨parts', ?_⟩
      simp only [routeM, bind, Except.bind, hpart]
      exact hparts'

end Insert

section Insert

variable {T : Tools} {faults : Call → Option Fault} {m : Manifest} {rows : Rows}

theorem insertAll_returns (h : Inserts T faults m rows) {parts : Parts}
    (hparts : writeDestinations T.hash m.operation m.targetNames rows.states rows.idempotency
      rows.outbox = .ok parts) :
    Returns (· = fun i => createSchema (targetName m.targetNames i)) (· = parts)
      (insertAll T faults m rows) () := by
  unfold writeDestinations at hparts
  simp only [bind, Except.bind] at hparts
  split at hparts
  · cases hparts
  rename_i parts₁ hstates
  split at hparts
  · cases hparts
  rename_i parts₂ hidem
  exact (insertRows_returns h.states hstates).bind
    ((insertRows_returns h.idempotency hidem).bind (insertRows_returns h.outbox hparts))

theorem insertAll_fails (h : ¬ Inserts T faults m rows) :
    Fails (· = fun i => createSchema (targetName m.targetNames i)) (fun _ => True)
      (insertAll T faults m rows) := by
  by_cases hstates : (∀ j < rows.states.length, faults (.insertState j) = none) ∧
      ∃ parts, routeM (fun s => targetOf T.hash m.operation m.targetNames s.key)
        (fun i => insertState (targetName m.targetNames i))
        (fun i => createSchema (targetName m.targetNames i)) rows.states = .ok parts
  swap
  · exact (insertRows_fails hstates).bind _
  obtain ⟨hstates, parts₁, hparts₁⟩ := hstates
  refine (insertRows_returns hstates hparts₁).bind_fails ?_
  by_cases hidem : (∀ j < rows.idempotency.length, faults (.insertIdempotency j) = none) ∧
      ∃ parts, routeM (fun r => targetOf T.hash m.operation m.targetNames r.key)
        (fun i => insertIdempotency (targetName m.targetNames i)) parts₁ rows.idempotency = .ok parts
  swap
  · exact (insertRows_fails hidem).bind _
  obtain ⟨hidem, parts₂, hparts₂⟩ := hidem
  refine (insertRows_returns hidem hparts₂).bind_fails (insertRows_fails ?_)
  rintro ⟨houtbox, parts, hparts⟩
  refine h ⟨hstates, hidem, houtbox, parts, ?_⟩
  unfold writeDestinations
  simp only [bind, Except.bind, hparts₁, hparts₂]
  exact hparts

end Insert

/-! ### Writing and removing -/

/-- The temporary files can be written. -/
structure Writes (T : Tools) (faults : Call → Option Fault) (m : Manifest) (rows : Rows) : Prop where
  opens : ∀ i < m.targetSpecs.length, OpensFully faults i
  inserts : Inserts T faults m rows
  checkpoints : ∀ i < m.targetSpecs.length, faults (.checkpoint i) = none

/-- All temporary files exist. -/
abbrev LeftAll (T : Tools) (m : Manifest) (fs₀ : Fs) : Fs → Prop :=
  Left T m fs₀ (· < m.targetSpecs.length)

section Write

variable {T : Tools} {faults : Call → Option Fault} {m : Manifest} {fs₀ : Fs} {rows : Rows}
  (hsep : Separate T m fs₀)

theorem getElem?_of_mem_zipIdx {d : StoreSpec × ℕ} (hd : d ∈ m.targetSpecs.zipIdx) :
    m.targetSpecs[d.2]? = some d.1 :=
  List.mem_zipIdx_iff_getElem?.1 hd

include hsep

theorem LeftAll.flush {fs : Fs} (h : LeftAll T m fs₀ fs) (parts : Parts) :
    LeftAll T m fs₀ (flush T m parts fs) := by
  refine List.foldlRecOn (motive := LeftAll T m fs₀) _ _ h fun fs hfs d hd => ?_
  exact hfs.rewrite hsep (getElem?_of_mem_zipIdx hd) (List.snd_lt_of_mem_zipIdx hd) _

theorem insertIntoTemps_returns (h : Inserts T faults m rows) :
    Returns (LeftAll T m fs₀) (LeftAll T m fs₀) (insertIntoTemps T faults m rows) () := by
  intro fs hfs
  obtain ⟨parts, hparts⟩ := h.parts
  obtain ⟨parts, hrun, rfl⟩ := insertAll_returns h hparts _ rfl
  refine ⟨_, ?_, LeftAll.flush hsep hfs parts⟩
  show insertIntoTemps T faults m rows fs = _
  unfold insertIntoTemps
  rw [hrun]

theorem insertIntoTemps_fails (h : ¬ Inserts T faults m rows) :
    Fails (LeftAll T m fs₀) (LeftAll T m fs₀) (insertIntoTemps T faults m rows) := by
  intro fs hfs
  obtain ⟨e, parts, hrun, -⟩ := insertAll_fails h _ rfl
  refine ⟨e, _, ?_, LeftAll.flush hsep hfs parts⟩
  show insertIntoTemps T faults m rows fs = _
  unfold insertIntoTemps
  rw [hrun]

theorem openTemps_returns (h : ∀ i < m.targetSpecs.length, OpensFully faults i) :
    Returns (Left T m fs₀ (· < 0)) (LeftAll T m fs₀)
      (Exec.loop (openTemp T faults) m.targetSpecs.zipIdx) () := by
  have hloop := Returns.loop_zipIdx (P := fun i => Left T m fs₀ (· < i)) (l := m.targetSpecs)
    (g := openTemp T faults) (n := 0) fun i d hi => by
      rw [Nat.zero_add]
      exact openTemp_returns hsep hi (h i (List.getElem?_eq_some_iff.1 hi).1)
  rwa [Nat.zero_add] at hloop

theorem openTemps_fails (h : ¬ ∀ i < m.targetSpecs.length, OpensFully faults i) :
    Fails (Left T m fs₀ (· < 0)) (Left T m fs₀ (Opens faults))
      (Exec.loop (openTemp T faults) m.targetSpecs.zipIdx) := by
  simp only [not_forall] at h
  obtain ⟨i, hi, hbad⟩ := h
  refine Fails.loop_zipIdx (P := fun i => Left T m fs₀ (· < i)) (n := 0)
    ⟨i, hi, by rwa [Nat.zero_add]⟩ (fun j d hj hok => ?_) (fun j d hj hbefore hnot => ?_)
  · rw [Nat.zero_add] at hok ⊢
    exact openTemp_returns hsep hj hok
  · simp only [Nat.zero_add] at hbefore hnot ⊢
    exact openTemp_fails hsep hj hbefore hnot

theorem writeTemps_returns (h : Writes T faults m rows) :
    Returns (Left T m fs₀ (· < 0)) (LeftAll T m fs₀) (writeTemps T faults m rows) () := by
  refine (openTemps_returns hsep h.opens).bind ((insertIntoTemps_returns hsep h.inserts).bind ?_)
  exact calls_return h.checkpoints fun _ _ _ hfs => hfs

/-- If writing fails, the temporary files that were created are there. -/
theorem writeTemps_fails (h : ¬ Writes T faults m rows) :
    Fails (Left T m fs₀ (· < 0)) (Left T m fs₀ (Opens faults)) (writeTemps T faults m rows) := by
  by_cases hopens : ∀ i < m.targetSpecs.length, OpensFully faults i
  swap
  · exact (openTemps_fails hsep hopens).bind _
  refine (openTemps_returns hsep hopens).bind_fails ?_
  -- all of them are created
  have hall : ∀ fs, LeftAll T m fs₀ fs → Left T m fs₀ (Opens faults) fs := fun fs hfs =>
    hfs.congr fun i hi => iff_of_true hi ⟨fun k hk => hopens k (hk.trans hi), (hopens i hi).1,
      fun fault hfault => by rw [(hopens i hi).2.1] at hfault; cases hfault⟩
  refine Fails.mono ?_ hall
  by_cases hinserts : Inserts T faults m rows
  swap
  · exact (insertIntoTemps_fails hsep hinserts).bind _
  refine (insertIntoTemps_returns hsep hinserts).bind_fails (calls_fail
    (fun hcheck => h ⟨hopens, hinserts, hcheck⟩) (fun d hd fault fs hfs => ?_) fun _ _ _ hfs => hfs)
  exact hfs.leave_of_mem hsep (getElem?_of_mem_zipIdx hd) (List.snd_lt_of_mem_zipIdx hd) fault

/-- The temporary file is removed. -/
theorem Left.remove {which : ℕ → Prop} {fs : Fs} (h : Left T m fs₀ which fs) {i : ℕ} {d : StoreSpec}
    (hi : m.targetSpecs[i]? = some d) :
    Left T m fs₀ (fun j => which j ∧ j ≠ i) (removeFile (temporaryPath T d.path) fs) := by
  have hother : ∀ p, p ≠ temporaryPath T d.path → p ∈ m.outer ++ temporaries T m →
      removeFile (temporaryPath T d.path) fs p = fs p := fun p hne _ => removeFile_of_ne hne
  obtain ⟨houter, hrest⟩ := h.update hsep hi hother
  refine ⟨houter, fun j e hj hw => ?_, fun j e hj hw => ?_⟩
  · rw [hrest j e hj hw.2]
    exact h.there j e hj hw.1
  · by_cases hji : j = i
    · subst hji
      obtain rfl := Option.some.inj (hi.symm.trans hj)
      by_cases hwhich : which j
      · obtain ⟨content, hcontent⟩ := h.there j d hi hwhich
        unfold removeFile
        rw [hcontent]
        exact Function.update_self ..
      · have hnone := h.absent j d hi hwhich
        unfold removeFile
        rw [hnone]
        exact hnone
    · rw [hrest j e hj hji]
      exact h.absent j e hj fun hwhich => hw ⟨hwhich, hji⟩

variable (faults) in
/-- Of the temporary files those are left whose removal fails. -/
theorem removeTemps_returns {which : ℕ → Prop} :
    Returns (Left T m fs₀ which) (Left T m fs₀ fun i => which i ∧ faults (.removeTemp i) ≠ none)
      (removeTemps T faults m) () := by
  have hloop : Returns (Left T m fs₀ fun j => which j ∧ ¬ (j < 0 ∧ faults (.removeTemp j) = none))
      (Left T m fs₀ fun j => which j ∧
        ¬ (j < 0 + m.targetSpecs.length ∧ faults (.removeTemp j) = none))
      (removeTemps T faults m) () := by
    refine Returns.loop_zipIdx (P := fun i => Left T m fs₀ fun j =>
      which j ∧ ¬ (j < i ∧ faults (.removeTemp j) = none)) fun i d hi fs hfs => ?_
    rw [Nat.zero_add] at hfs ⊢
    simp only
    cases hfault : faults (.removeTemp i) with
    | some fault =>
      refine ⟨fs, rfl, hfs.congr fun j _ => and_congr_right fun _ => not_congr ?_⟩
      refine ⟨fun hj => ⟨Nat.lt_succ_of_lt hj.1, hj.2⟩, fun hj => ⟨?_, hj.2⟩⟩
      refine lt_of_le_of_ne (Nat.lt_succ_iff.1 hj.1) ?_
      rintro rfl
      rw [hfault] at hj
      cases hj.2
    | none =>
      refine ⟨_, rfl, (hfs.remove hsep hi).congr fun j _ => ?_⟩
      rw [and_assoc, Nat.lt_succ_iff_lt_or_eq]
      refine and_congr_right fun _ => ⟨fun hj => ?_, fun hj => ⟨?_, ?_⟩⟩
      · rintro ⟨hlt | heq, hnone⟩
        · exact hj.1 ⟨hlt, hnone⟩
        · exact hj.2 heq
      · exact fun hj' => hj ⟨Or.inl hj'.1, hj'.2⟩
      · rintro rfl
        exact hj ⟨Or.inr rfl, hfault⟩
  intro fs hfs
  obtain ⟨fs', hrun, hfs'⟩ := hloop fs (hfs.congr fun j _ => by simp)
  refine ⟨fs', hrun, hfs'.congr fun j hj => and_congr_right fun _ => not_congr ?_⟩
  rw [Nat.zero_add]
  exact and_iff_right hj

end Write

/-! ### Publication -/

/-- A destination exists, or its temporary file. -/
def Visible (T : Tools) (m : Manifest) (fs : Fs) : Prop :=
  ∃ d ∈ m.targetSpecs, fs (temporaryPath T d.path) ≠ none ∨ fs d.path ≠ none

section Publish

variable {T : Tools} {faults : Call → Option Fault} {m : Manifest} {fs₀ : Fs} {rows : Rows}
  {checksum : File → String}

theorem fileChecksum_keeps {I : Fs → Prop} (i : ℕ) (p : Path) :
    Keeps I (fileChecksum faults checksum i p) := by
  refine Keeps.bind (call_keeps (fun _ _ h => h) fun _ h => h) fun _ =>
    Keeps.bind (fun _ h => h) fun fs => ?_
  rcases fs p with _ | _ | content
  · exact fun _ h => h
  · exact fun _ h => h
  · exact keeps_pure _

/-- Writing a file makes nothing disappear. -/
theorem Visible.write {fs : Fs} (h : Visible T m fs) (p : Path) (content : File) :
    Visible T m (writeFile p content fs) := by
  have hstays : ∀ q, fs q ≠ none → writeFile p content fs q ≠ none := by
    intro q hq
    by_cases hqp : q = p
    · subst hqp
      rw [writeFile, Function.update_self]
      exact Option.some_ne_none _
    · rwa [writeFile_of_ne hqp]
  obtain ⟨d, hd, hsome⟩ := h
  exact ⟨d, hd, hsome.imp (hstays _) (hstays _)⟩

/-- A temporary file is renamed to its destination, which is then there. -/
theorem Visible.rename (hsep : Separate T m fs₀) {fs : Fs} (h : Visible T m fs) {d : StoreSpec}
    (hd : d ∈ m.targetSpecs) : Visible T m (renameFile (temporaryPath T d.path) d.path fs) := by
  unfold renameFile
  cases hnode : fs (temporaryPath T d.path) with
  | none => exact h
  | some node =>
    have hne : d.path ≠ temporaryPath T d.path := fun heq =>
      hsep.apart _ (mem_temporaries hd) (heq ▸ mem_outer_of_target hd)
    refine ⟨d, hd, Or.inr ?_⟩
    simp only
    rw [Function.update_of_ne hne, Function.update_self]
    exact Option.some_ne_none node

theorem publishAll_keeps (hsep : Separate T m fs₀) {targets : List (StoreSpec × ℕ)}
    (hmem : ∀ d ∈ targets, d.1 ∈ m.targetSpecs) (checksums : Dict String String) :
    Keeps (Visible T m) (publishAll T faults checksum targets checksums) := by
  induction targets generalizing checksums with
  | nil => exact keeps_pure _
  | cons d targets ih =>
    refine Keeps.bind (call_keeps (fun _ _ h => h) fun fs h => ?_) fun _ =>
      Keeps.bind (fileChecksum_keeps _ _) fun _ => ih (fun e he => hmem e (List.mem_cons_of_mem _ he)) _
    exact h.rename hsep (hmem d List.mem_cons_self)

/-- Whatever fails from the first rename on, something is there. -/
theorem publish_keeps (hsep : Separate T m fs₀) :
    Keeps (Visible T m) (publish T faults m checksum rows) := by
  refine Keeps.bind (publishAll_keeps hsep (fun d hd => List.fst_mem_of_mem_zipIdx hd) _) fun _ =>
    Keeps.bind (call_keeps (fun _ _ h => h) fun _ h => h) fun _ => call_keeps (fun fault fs h => ?_)
      fun fs h => h.write _ _
  unfold leave
  cases fault.left with
  | none => exact h
  | some content => exact h.write _ _

end Publish

/-! ### The theorem -/

section Execute

variable {T : Tools} {faults : Call → Option Fault} {m : Manifest} {fs : Fs} {rows : Rows}

theorem validateShape_of_valid (hvalid : validateManifest T m = .ok ()) : validateShape m = .ok () := by
  unfold validateManifest at hvalid
  split_ifs at hvalid
  simp only [bind, Except.bind] at hvalid
  split at hvalid
  · cases hvalid
  · exact hvalid

/-- Each operation asks for a destination. -/
theorem targetSpecs_ne_nil (hvalid : validateManifest T m = .ok ()) : m.targetSpecs ≠ [] := by
  have hshape := validateShape_of_valid hvalid
  unfold validateShape at hshape
  rw [Manifest.targetSpecs]
  intro hnil
  obtain ⟨htarget, htargets⟩ := List.append_eq_nil_iff.1 hnil
  have hnone : m.target = none := Option.toList_eq_nil_iff.1 htarget
  rw [hnone, htargets] at hshape
  cases hop : m.operation <;> rw [hop] at hshape <;> simp at hshape

variable (hsep : Separate T m fs)

include hsep

theorem Left.of_agrees {fs' : Fs} (h : Agrees (m.outer ++ temporaries T m) fs fs') :
    Left T m fs (· < 0) fs' := by
  refine ⟨fun p hp => h p (List.mem_append_left _ hp), fun i d _ hlt => absurd hlt (Nat.not_lt_zero i),
    fun i d hi _ => ?_⟩
  have hmem := mem_temporaries (T := T) (List.mem_of_getElem? hi)
  rw [h _ (List.mem_append_right _ hmem)]
  exact hsep.fresh _ hmem

/-- If writing fails, the temporary files that are left are those that could not be removed. -/
theorem writeOrRemove_fails (h : ¬ Writes T faults m rows) :
    Fails (Left T m fs (· < 0)) (Left T m fs fun i => Opens faults i ∧ faults (.removeTemp i) ≠ none)
      (writeOrRemove T faults m rows) := by
  intro fs₁ hfs₁
  obtain ⟨e, fs₂, hrun, hfs₂⟩ := writeTemps_fails hsep h fs₁ hfs₁
  obtain ⟨fs₃, hremove, hfs₃⟩ := removeTemps_returns faults hsep fs₂ hfs₂
  refine ⟨e, fs₃, ?_, hfs₃⟩
  show writeOrRemove T faults m rows fs₁ = _
  unfold writeOrRemove
  rw [hrun]
  simp only [hremove, endState]

theorem writeOrRemove_returns (h : Writes T faults m rows) :
    Returns (Left T m fs (· < 0)) (LeftAll T m fs) (writeOrRemove T faults m rows) () := by
  intro fs₁ hfs₁
  obtain ⟨fs₂, hrun, hfs₂⟩ := writeTemps_returns hsep h fs₁ hfs₁
  refine ⟨fs₂, ?_, hfs₂⟩
  show writeOrRemove T faults m rows fs₁ = _
  unfold writeOrRemove
  rw [hrun]

omit hsep in
/-- Nothing but temporary files is left, so it is a matter of these. -/
theorem Left.nothing_iff {which : ℕ → Prop} {fs' : Fs} (h : Left T m fs which fs') :
    AllOrNothing T m fs fs' ↔ ∀ i < m.targetSpecs.length, ¬ which i := by
  constructor
  · intro hall i hi hw
    obtain ⟨content, hcontent⟩ := h.there i _ (List.getElem?_eq_getElem hi) hw
    have hnone := hall.temporaries _ (List.getElem_mem hi)
    rw [hcontent] at hnone
    cases hnone
  · intro hnone
    refine ⟨fun d hd hd' => (h.outer _ (mem_outer_of_target hd)).trans hd', fun d hd => ?_,
      fun s hs => h.outer _ (mem_outer_of_source hs)⟩
    obtain ⟨i, hi, rfl⟩ := List.mem_iff_getElem.1 hd
    exact h.absent i _ (List.getElem?_eq_getElem hi) (hnone i hi)

theorem execute_of_not_prepared (hdb : ∀ s ∈ m.sources, IsDatabase fs s.path)
    (h : ∀ rows, ¬ Prepared faults m fs rows) (checksum : File → String) :
    ∃ e fs', (execute T faults m checksum).run fs = .error e fs' ∧ AllOrNothing T m fs fs' := by
  obtain ⟨e, fs', hrun, hagrees⟩ := (prepare_fails hsep hdb h).bind
    (fun rows => writeOrRemove T faults m rows >>= fun _ => publish T faults m checksum rows) fs
    fun _ _ => rfl
  refine ⟨e, fs', hrun, ?_⟩
  exact (Left.of_agrees hsep hagrees).nothing_iff.2 fun i _ => Nat.not_lt_zero i

theorem execute_of_not_writes (hdb : ∀ s ∈ m.sources, IsDatabase fs s.path)
    (hprepared : Prepared faults m fs rows) (h : ¬ Writes T faults m rows) (checksum : File → String) :
    ∃ e fs', (execute T faults m checksum).run fs = .error e fs' ∧
      Left T m fs (fun i => Opens faults i ∧ faults (.removeTemp i) ≠ none) fs' := by
  have hprepare : Returns (Agrees (m.outer ++ temporaries T m) fs) (Left T m fs (· < 0))
      (prepare faults m) rows := by
    intro fs₁ hfs₁
    obtain ⟨fs₂, hrun, hfs₂⟩ := prepare_returns hsep hdb hprepared fs₁ hfs₁
    exact ⟨fs₂, hrun, Left.of_agrees hsep hfs₂⟩
  exact hprepare.bind_fails ((writeOrRemove_fails hsep h).bind _) fs fun _ _ => rfl

/-- What is published stays, so an execution that gets that far fails with something left. -/
theorem not_allOrNothing_of_writes (hvalid : validateManifest T m = .ok ())
    (hdb : ∀ s ∈ m.sources, IsDatabase fs s.path) (hprepared : Prepared faults m fs rows)
    (h : Writes T faults m rows) (checksum : File → String) :
    ¬ AllOrNothing T m fs (endState ((execute T faults m checksum).run fs)) := by
  obtain ⟨fs₁, hprepare, hfs₁⟩ := prepare_returns hsep hdb hprepared fs fun _ _ => rfl
  obtain ⟨fs₂, hwrite, hfs₂⟩ := writeOrRemove_returns hsep h fs₁ (Left.of_agrees hsep hfs₁)
  have hvisible : Visible T m fs₂ := by
    obtain ⟨d, hd⟩ := List.exists_mem_of_ne_nil _ (targetSpecs_ne_nil hvalid)
    obtain ⟨i, hi, rfl⟩ := List.mem_iff_getElem.1 hd
    obtain ⟨content, hcontent⟩ := hfs₂.there i _ (List.getElem?_eq_getElem hi) hi
    refine ⟨_, hd, Or.inl ?_⟩
    rw [hcontent]
    exact Option.some_ne_none _
  have hrun : (execute T faults m checksum).run fs = (publish T faults m checksum rows).run fs₂ := by
    unfold execute
    rw [EStateM.run_bind, hprepare]
    simp only [EStateM.run_bind, hwrite]
  rw [hrun]
  intro hall
  obtain ⟨d, hd, htemp | hdest⟩ := publish_keeps hsep fs₂ hvisible
  · exact htemp (hall.temporaries d hd)
  · exact hdest (hall.destinations d hd (hprepared.destinations d hd))

end Execute

/-- Under which conditions a failed execution leaves nothing: it does not get as far as the temporary
files, or they cannot all be written and those that were created can be removed. -/
def FailsEarly (T : Tools) (faults : Call → Option Fault) (m : Manifest) (fs : Fs) : Prop :=
  (∀ rows, ¬ Prepared faults m fs rows) ∨
    ∃ rows, Prepared faults m fs rows ∧ ¬ Writes T faults m rows ∧
      ∀ i < m.targetSpecs.length, Opens faults i → faults (.removeTemp i) = none

/-- An execution that fails is all or nothing exactly if it fails before the publication, and can remove
the temporary files that it has created. -/
theorem allOrNothing_iff {T : Tools} {faults : Call → Option Fault} {m : Manifest}
    {checksum : File → String} {fs fs' : Fs} {e : MigrationError}
    (hvalid : validateManifest T m = .ok ()) (hdb : ∀ s ∈ m.sources, IsDatabase fs s.path)
    (hsep : Separate T m fs) (h : (execute T faults m checksum).run fs = .error e fs') :
    AllOrNothing T m fs fs' ↔ FailsEarly T faults m fs := by
  constructor
  · intro hall
    by_cases hprepared : ∀ rows, ¬ Prepared faults m fs rows
    · exact Or.inl hprepared
    push Not at hprepared
    obtain ⟨rows, hprepared⟩ := hprepared
    have hwrites : ¬ Writes T faults m rows := by
      intro hwrites
      have hnot := not_allOrNothing_of_writes hsep hvalid hdb hprepared hwrites checksum
      rw [h] at hnot
      exact hnot hall
    obtain ⟨e', fs'', hrun, hleft⟩ :=
      execute_of_not_writes hsep hdb hprepared hwrites checksum
    obtain ⟨rfl, rfl⟩ := EStateM.Result.error.inj (h.symm.trans hrun)
    refine Or.inr ⟨rows, hprepared, hwrites, fun i hi hopens => ?_⟩
    by_contra hremove
    exact hleft.nothing_iff.1 hall i hi ⟨hopens, hremove⟩
  · rintro (hnot | ⟨rows, hprepared, hwrites, hremove⟩)
    · obtain ⟨e', fs'', hrun, hall⟩ := execute_of_not_prepared hsep hdb hnot checksum
      obtain ⟨rfl, rfl⟩ := EStateM.Result.error.inj (h.symm.trans hrun)
      exact hall
    · obtain ⟨e', fs'', hrun, hleft⟩ :=
        execute_of_not_writes hsep hdb hprepared hwrites checksum
      obtain ⟨rfl, rfl⟩ := EStateM.Result.error.inj (h.symm.trans hrun)
      exact hleft.nothing_iff.2 fun i hi hw => hw.2 (hremove i hi hw.1)

/-! ### A split into two -/

/-- The environment of the sample. -/
def sampleTools : Tools where
  hash := sampleHash
  debug name := "\"" ++ name ++ "\""
  pid := 4711

/-- The store `main` is split into `left` and `right`. -/
def sampleSplit : Manifest where
  operation := .split
  sources := [⟨"main", ["data", "main.db"]⟩]
  target := none
  targets := [⟨"left", ["data", "left.db"]⟩, ⟨"right", ["data", "right.db"]⟩]
  hashAlgorithm := hashAlgorithm
  evidenceDir := ["evidence"]
  quiesced := true

/-- The files before. -/
def sampleFiles : Fs :=
  writeFile ["data", "main.db"] (databaseFile "main" sampleStore) fun p =>
    if p = [] ∨ p = ["data"] then some .dir else none

/-- One call fails, and leaves nothing. -/
def failsAt (c : Call) (error : MigrationError) (c' : Call) : Option Fault :=
  if c' = c then some ⟨error, 0, none⟩ else none

/-- The sample, executed.  The checksums are not looked at. -/
def executeSample (c : Call) (error : MigrationError) : EStateM.Result MigrationError Fs Unit :=
  (execute sampleTools (failsAt c error) sampleSplit fun _ => "").run sampleFiles

theorem validateManifest_sampleSplit : validateManifest sampleTools sampleSplit = .ok () := by
  decide +kernel

theorem isDatabase_sampleFiles : ∀ s ∈ sampleSplit.sources, IsDatabase sampleFiles s.path := by
  intro s hs
  obtain rfl := List.mem_singleton.1 hs
  exact Or.inl ⟨_, rfl⟩

theorem separate_sampleSplit : Separate sampleTools sampleSplit sampleFiles where
  evidence := by decide +kernel
  backups := by decide +kernel
  parents := by decide +kernel
  fresh := by decide +kernel
  distinct := by decide +kernel
  apart := by decide +kernel

theorem failsEarly_checkpoint (error : MigrationError) :
    FailsEarly sampleTools (failsAt (.checkpoint 1) error) sampleSplit sampleFiles := by
  refine Or.inr ⟨⟨_, _, _, _, _⟩, ⟨rfl, ⟨rfl, rfl⟩, ⟨rfl, rfl⟩, ⟨rfl, rfl⟩, fun i _ => rfl,
    by decide +kernel⟩, fun h => ?_, fun i _ _ => rfl⟩
  exact Option.some_ne_none _ (h.checkpoints 1 (by decide))

/-- The second checkpoint fails: both temporary files are removed. -/
theorem failed_checkpoint_leaves_nothing :
    ∃ e fs', executeSample (.checkpoint 1) (.sqlite "disk I/O error") = .error e fs' ∧
      AllOrNothing sampleTools sampleSplit sampleFiles fs' := by
  obtain ⟨e, fs', hrun⟩ : ∃ e fs', executeSample (.checkpoint 1) (.sqlite "disk I/O error") =
    .error e fs' := ⟨_, _, rfl⟩
  exact ⟨e, fs', hrun, (allOrNothing_iff validateManifest_sampleSplit isDatabase_sampleFiles
    separate_sampleSplit hrun).2 (failsEarly_checkpoint _)⟩

/-- The second rename fails: the first destination is published, and the second temporary file is
left. -/
theorem failed_rename_leaves_both :
    validateManifest sampleTools sampleSplit = .ok () ∧
    ∃ e fs', executeSample (.rename 1) (.io "Input/output error (os error 5)") = .error e fs' ∧
      sampleFiles ["data", "left.db"] = none ∧ (fs' ["data", "left.db"]).isSome ∧
      (fs' (temporaryPath sampleTools ["data", "right.db"])).isSome ∧
      ¬ AllOrNothing sampleTools sampleSplit sampleFiles fs' := by
  refine ⟨validateManifest_sampleSplit, _, _, rfl, rfl, rfl, by decide +kernel, fun hall => ?_⟩
  have hnone := hall.destinations ⟨"left", ["data", "left.db"]⟩ (by decide) rfl
  cases hnone

end Migrate

end Ixmati
