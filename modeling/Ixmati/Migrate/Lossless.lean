import Ixmati.Lib.Log
import Ixmati.Migrate.LastWriter
import Ixmati.Migrate.Protection
import Ixmati.Migrate.Publication
import Ixmati.Migrate.SplitMerge

/-!
# What a successful execution keeps

A successful `execute` leaves a backup of every source in the evidence directory, and a rename leaves a
destination with the rows of its source.  Both depend on what `validate_manifest` lets through.

* A backup is named after its source, so of several sources with one name only the last is there.  For a
  merge, names may be repeated.
* A rename with several sources is a merge: of the rows of one key the newest is kept.  The number of
  sources is checked for a split only.
* The report is written last, so a destination in its place is overwritten.

What a run that returns has done is said step by step with `Ensures`; unlike in `Migrate.Publication`
nothing is assumed of the destinations, since a run with a destination or a temporary file in the place
of a backup fails.
-/

namespace Ixmati

namespace Migrate

open WriteEngine Exec

/-- The sources are databases of this version. -/
def HasSources (m : Manifest) (dbs : StoreSpec → Database) (fs : Fs) : Prop :=
  ∀ s ∈ m.sources, fs s.path = some (.file (databaseFile s.name (dbs s)))

/-- No source is in the place of a backup. -/
def BackupsApart (m : Manifest) : Prop :=
  ∀ s ∈ m.sources, ∀ s' ∈ m.sources, s.path ≠ backupPath m s'

/-- The last source of this name, which is the one that its backup is of. -/
def lastNamed (l : List StoreSpec) (name : String) : Option StoreSpec :=
  lastWhere (fun s => decide (s.name = name)) l

/-- The backups that have been made of these sources. -/
def Backed (m : Manifest) (fs₀ : Fs) (l : List StoreSpec) (fs : Fs) : Prop :=
  ∀ s ∈ l, fs (backupPath m s) = (lastNamed l s.name).bind fun t => fs₀ t.path

/-! ### Paths -/

section Paths

variable {m : Manifest} {fs : Fs}

theorem backupPath_inj {s s' : StoreSpec} : backupPath m s = backupPath m s' ↔ s.name = s'.name := by
  unfold backupPath
  rw [List.append_cancel_left_eq, List.cons.injEq, and_iff_left rfl, String.append_left_inj]

theorem backupPath_ne_reportPath (s : StoreSpec) : backupPath m s ≠ reportPath m := by
  unfold backupPath reportPath
  rw [Ne, List.append_cancel_left_eq, List.cons.injEq, and_iff_left rfl]
  intro h
  have hlast := congrArg (fun t : String => t.toList.getLast?) h
  rw [String.toList_append] at hlast
  simp at hlast

theorem temporaryPath_ne (T : Tools) (p : Path) : temporaryPath T p ≠ p := by
  intro h
  have hlast := congrArg (fun p : Path => p.getLast?) h
  unfold temporaryPath at hlast
  simp only [List.getLast?_append, List.getLast?_singleton] at hlast
  cases hp : p.getLast? with
  | none =>
    rw [hp] at hlast
    cases hlast
  | some last =>
    have hlen := congrArg (fun o : Option String => (o.getD "").length) hlast
    rw [List.getLastD_eq_getLast?, hp] at hlen
    simp only [Option.some_or, Option.getD_some, String.length_append] at hlen
    have htmp : "-tmp".length = 4 := rfl
    omega

theorem createDirs_of_some {p q : Path} {depth : ℕ} (h : fs q ≠ none) : createDirs p depth fs q = fs q := by
  unfold createDirs
  rw [if_neg]
  rintro ⟨-, -, hnone⟩
  exact h (Option.isNone_iff_eq_none.1 hnone)

end Paths

/-! ### Until the temporary files -/

/-- The rows of the sources, collected. -/
structure Collects (m : Manifest) (fs : Fs) (rows : Rows) : Prop where
  states : collectStates (sourcesOf m fs) = .ok (rows.states, rows.conflicts)
  idempotency : collectIdempotency (sourcesOf m fs) = .ok (rows.idempotency, rows.deduplicated)
  outbox : collectOutbox (sourcesOf m fs) = .ok rows.outbox

section Prepare

variable {faults : Call → Option Fault} {m : Manifest} {dbs : StoreSpec → Database} {fs : Fs}

theorem call_ensures {c : Call} {failing : Fault → Fs → Fs} {effect : Fs → Fs} {I J : Fs → Prop}
    (h : ∀ fs, I fs → J (effect fs)) : Ensures I (call faults c failing effect) fun _ fs => J fs := by
  by_cases hc : faults c = none
  · exact (call_returns hc h).ensures.mono fun _ _ hfs => hfs.2
  · intro fs a fs' hfs hrun
    have hfails : Fails I (fun _ => True) (call faults c failing effect) :=
      call_fails hc fun _ _ _ _ => trivial
    obtain ⟨e, fs₁, hfail, -⟩ := hfails fs hfs
    rw [hrun] at hfail
    cases hfail

variable (hsrc : HasSources m dbs fs)

include hsrc

theorem isDatabase_of_hasSources : ∀ s ∈ m.sources, IsDatabase fs s.path :=
  fun s hs => Or.inl ⟨_, hsrc s hs⟩

theorem sourcesOf_eq : sourcesOf m fs = m.sources.map fun s => toSource s.name (dbs s) := by
  refine List.map_congr_left fun s hs => ?_
  rw [readAt, hsrc s hs]
  rfl

theorem collect_ensures {α : Type} {c : Call} {f : List Source → Except MigrationError α} :
    Ensures (Agrees (m.sources.map (·.path)) fs) (collect faults m c f) fun a fs' =>
      f (sourcesOf m fs) = .ok a ∧ Agrees (m.sources.map (·.path)) fs fs' := by
  refine Ensures.bind (call_ensures fun _ h => h) fun _ => ?_
  refine Ensures.bind (openSources_returns (fun s hs => List.mem_map_of_mem hs)
    (isDatabase_of_hasSources hsrc)).ensures fun l fs₁ a fs₂ hfs₁ hrun => ?_
  obtain ⟨rfl, hagrees⟩ := hfs₁
  cases hf : f (sourcesOf m fs) with
  | error e =>
    rw [show (m.sources.map fun s => Source.mk s.name (readAt fs s.path)) = sourcesOf m fs from rfl, hf]
      at hrun
    cases hrun
  | ok b =>
    rw [show (m.sources.map fun s => Source.mk s.name (readAt fs s.path)) = sourcesOf m fs from rfl, hf]
      at hrun
    obtain ⟨rfl, rfl⟩ := EStateM.Result.ok.inj hrun
    exact ⟨rfl, hagrees⟩

/-- A source is copied to its backup. -/
theorem Backed.copy {done : List StoreSpec} {s : StoreSpec} {fs₁ : Fs} (hs : s ∈ m.sources)
    (hplace : BackupsApart m) (hagrees : Agrees (m.sources.map (·.path)) fs fs₁)
    (h : Backed m fs done fs₁) :
    Agrees (m.sources.map (·.path)) fs (copyFile s.path (backupPath m s) fs₁) ∧
      Backed m fs (done ++ [s]) (copyFile s.path (backupPath m s) fs₁) := by
  have hcopy : copyFile s.path (backupPath m s) fs₁ (backupPath m s) = fs s.path := by
    unfold copyFile
    rw [hagrees s.path (List.mem_map_of_mem hs), hsrc s hs]
    simp only [if_neg (hplace s hs s hs)]
    exact Function.update_self ..
  refine ⟨fun p hp => ?_, fun t ht => ?_⟩
  · obtain ⟨s', hs', rfl⟩ := List.mem_map.1 hp
    rw [copyFile_of_ne (hplace s' hs' s hs), hagrees _ hp]
  · rw [lastNamed, lastWhere_append]
    by_cases hname : s.name = t.name
    · rw [if_pos (decide_eq_true hname), ← backupPath_inj.2 hname, hcopy, Option.bind_some]
    · rw [if_neg (by simpa using hname), copyFile_of_ne fun heq => hname (backupPath_inj.1 heq).symm]
      refine h t ((List.mem_append.1 ht).resolve_right fun heq => hname ?_)
      rw [List.mem_singleton.1 heq]

theorem backups_ensures (hplace : BackupsApart m) :
    Ensures (Agrees (m.sources.map (·.path)) fs)
      (Exec.loop (fun s => call faults (.backup s.2) (leave (backupPath m s.1))
        (copyFile s.1.path (backupPath m s.1))) m.sources.zipIdx)
      fun _ fs' => Agrees (m.sources.map (·.path)) fs fs' ∧ Backed m fs m.sources fs' := by
  -- The sources that are done, and those that are left.
  have hloop : ∀ l done n, done ++ l = m.sources →
      Ensures (fun fs₁ => Agrees (m.sources.map (·.path)) fs fs₁ ∧ Backed m fs done fs₁)
        (Exec.loop (fun s => call faults (.backup s.2) (leave (backupPath m s.1))
          (copyFile s.1.path (backupPath m s.1))) (l.zipIdx n))
        fun _ fs₁ => Agrees (m.sources.map (·.path)) fs fs₁ ∧ Backed m fs m.sources fs₁ := by
    intro l
    induction l with
    | nil =>
      intro done n hdone
      rw [List.append_nil] at hdone
      rw [hdone]
      exact (Ensures.pure ()).mono fun _ _ h => h.2
    | cons s l ih =>
      intro done n hdone
      have hs : s ∈ m.sources := hdone ▸ List.mem_append_right _ List.mem_cons_self
      rw [List.zipIdx_cons]
      refine Ensures.bind (J := fun _ fs₁ => Agrees (m.sources.map (·.path)) fs fs₁ ∧
        Backed m fs (done ++ [s]) fs₁) (call_ensures fun fs₁ h => ?_) fun _ => ?_
      · exact Backed.copy hsrc hs hplace h.1 h.2
      · exact ih (done ++ [s]) (n + 1) (by rw [List.append_assoc]; exact hdone)
  exact fun fs₁ a fs₂ hfs₁ => hloop m.sources [] 0 rfl fs₁ a fs₂ ⟨hfs₁, fun s hs => nomatch hs⟩

omit hsrc in
theorem checkDestination_ensures {I : Fs → Prop} (d : StoreSpec) :
    Ensures I (checkDestination d) fun _ fs' => I fs' ∧ fs' d.path = none := by
  intro fs₁ a fs₂ hfs₁ hrun
  unfold checkDestination at hrun
  rw [run_get_bind] at hrun
  cases hd : fs₁ d.path with
  | none =>
    rw [hd] at hrun
    obtain ⟨-, rfl⟩ := EStateM.Result.ok.inj hrun
    exact ⟨hfs₁, hd⟩
  | some node =>
    rw [hd] at hrun
    cases hrun

/-- A backup is the database of a source. -/
theorem Backed.exists_database {fs' : Fs} (h : Backed m fs m.sources fs') {s : StoreSpec}
    (hs : s ∈ m.sources) :
    ∃ t ∈ m.sources, t.name = s.name ∧ fs' (backupPath m s) = fs t.path ∧
      fs t.path = some (.file (databaseFile t.name (dbs t))) := by
  rw [h s hs]
  cases hlast : lastNamed m.sources s.name with
  | none => exact absurd (decide_eq_true rfl) (lastWhere_eq_none.1 hlast s hs)
  | some t =>
    obtain ⟨ht, hname⟩ := mem_of_lastWhere hlast
    exact ⟨t, ht, of_decide_eq_true hname, rfl, hsrc t ht⟩

theorem Backed.ne_none {fs' : Fs} (h : Backed m fs m.sources fs') {s : StoreSpec} (hs : s ∈ m.sources) :
    fs' (backupPath m s) ≠ none := by
  obtain ⟨t, -, -, hbackup, hdb⟩ := h.exists_database hsrc hs
  rw [hbackup, hdb]
  exact Option.some_ne_none _

theorem prepare_ensures (hplace : BackupsApart m) :
    Ensures (· = fs) (prepare faults m) fun rows fs' =>
      Collects m fs rows ∧ Backed m fs m.sources fs' ∧
        ∀ d ∈ m.targetSpecs, ∀ s ∈ m.sources, d.path ≠ backupPath m s := by
  have hdirs : Ensures (· = fs) (call faults .createEvidenceDir
      (fun fault => createDirs m.evidenceDir fault.depth)
      (createDirs m.evidenceDir m.evidenceDir.length))
      fun _ fs' => Agrees (m.sources.map (·.path)) fs fs' := by
    refine call_ensures fun fs' hfs' p hp => ?_
    obtain ⟨s, hs, rfl⟩ := List.mem_map.1 hp
    rw [hfs', createDirs_of_some]
    rw [hsrc s hs]
    exact Option.some_ne_none _
  have hcheck : ∀ d, Ensures (Backed m fs m.sources) (checkDestination d) fun _ fs' =>
      Backed m fs m.sources fs' ∧ ∀ s ∈ m.sources, d.path ≠ backupPath m s := by
    intro d
    refine (checkDestination_ensures d).mono fun _ fs' hfs' => ⟨hfs'.1, fun s hs heq => ?_⟩
    exact hfs'.1.ne_none hsrc hs (heq ▸ hfs'.2)
  unfold prepare
  refine hdirs.bind fun _ => (collect_ensures hsrc).bind fun states => ?_
  refine ((collect_ensures hsrc).frame _).bind fun commands => ?_
  refine (((collect_ensures hsrc).frame _).frame _).bind fun outbox => ?_
  refine (((((backups_ensures hsrc hplace).mono fun _ _ h => h.2).frame _).frame _).frame _).bind
    fun _ => ?_
  refine ((((Ensures.loop fun d _ => hcheck d).frame _).frame _).frame _).bind fun _ => ?_
  refine (Ensures.pure _).mono fun rows fs' h => ?_
  obtain ⟨rfl, hstates, hcommands, houtbox, hbacked, hdest⟩ := h
  exact ⟨⟨hstates, hcommands, houtbox⟩, hbacked, hdest⟩

end Prepare

/-! ### The temporary files -/

section Write

variable {T : Tools} {faults : Call → Option Fault} {m : Manifest} {dbs : StoreSpec → Database}
  {fs : Fs} {rows : Rows}

/-- The tables of a database of this version are there already. -/
theorem createTablesAt_ensures_false {p : Path} {store name : String} {db : Database} :
    Ensures (fun fs₁ => fs₁ p = some (.file (databaseFile name db))) (createTablesAt p store)
      fun _ _ => False := by
  intro fs₁ a fs₂ hfs₁ hrun
  unfold createTablesAt at hrun
  rw [EStateM.run_bind, connect_run (Or.inl ⟨_, hfs₁⟩), readAt, hfs₁] at hrun
  cases hrun

/-- Only the file of the tables is written. -/
theorem createTablesAt_elsewhere {p q : Path} {store : String} (hne : q ≠ p) {v : Option Node} :
    Ensures (fun fs₁ => fs₁ q = v) (createTablesAt p store) fun _ fs₁ => fs₁ q = v := by
  have hconnect : Ensures (fun fs₁ => fs₁ q = v) (connect p) fun _ fs₁ => fs₁ q = v := by
    intro fs₁ db fs₂ hfs₁ hrun
    unfold connect at hrun
    rw [run_get_bind] at hrun
    split at hrun
    · obtain ⟨-, rfl⟩ := EStateM.Result.ok.inj hrun
      exact (writeFile_of_ne hne).trans hfs₁
    · obtain ⟨-, rfl⟩ := EStateM.Result.ok.inj hrun
      exact hfs₁
    · obtain ⟨-, rfl⟩ := EStateM.Result.ok.inj hrun
      exact hfs₁
    · cases hrun
    · cases hrun
  refine Ensures.bind hconnect fun db fs₁ a fs₂ hfs₁ hrun => ?_
  split at hrun
  · obtain ⟨-, rfl⟩ := EStateM.Result.ok.inj hrun
    exact (writeFile_of_ne hne).trans hfs₁
  · cases hrun

/-- A temporary file in the place of a backup is not empty, so opening it fails. -/
theorem openTemp_ensures (hsrc : HasSources m dbs fs) (d : StoreSpec × ℕ) :
    Ensures (Backed m fs m.sources) (openTemp T faults d) fun _ fs' =>
      Backed m fs m.sources fs' ∧ ∀ s ∈ m.sources, temporaryPath T d.1.path ≠ backupPath m s := by
  intro fs₁ a fs₂ hbacked hrun
  -- What is at the path of a backup stays, until the tables are created.
  have hstays : ∀ (p : Path) (v : Option Node) (K : Fs → Prop), v ≠ none → fs₁ p = v →
      Ensures (fun fs' => fs' p = v) (createTablesAt (temporaryPath T d.1.path) d.1.name)
        (fun _ => K) → K fs₂ := by
    intro p v K hv hp htables
    have hopen : Ensures (fun fs' => fs' p = v) (openTemp T faults d) fun _ => K :=
      Ensures.bind (call_ensures (J := fun fs' => fs' p = v) fun fs' hfs' => ?_) fun _ =>
        Ensures.bind (call_ensures (J := fun fs' => fs' p = v) fun fs' hfs' => ?_) fun _ =>
          Ensures.bind (call_ensures fun fs' hfs' => hfs') fun _ => htables
    · exact hopen fs₁ a fs₂ hp hrun
    · rw [createDirs_of_some (by rw [hfs']; exact hv)]
      exact hfs'
    · show (if (fs' (temporaryPath T d.1.path)).isNone then _ else fs') p = v
      split_ifs with hnone
      · rw [writeFile_of_ne]
        · exact hfs'
        · rintro rfl
          exact hv (hfs'.symm.trans (Option.isNone_iff_eq_none.1 hnone))
      · exact hfs'
  have hne : ∀ s ∈ m.sources, temporaryPath T d.1.path ≠ backupPath m s := by
    intro s hs heq
    obtain ⟨t, -, -, hbackup, hdb⟩ := hbacked.exists_database hsrc hs
    refine hstays (backupPath m s) _ (fun _ => False) (Option.some_ne_none _) (hbackup.trans hdb) ?_
    rw [heq]
    exact createTablesAt_ensures_false
  refine ⟨fun s hs => ?_, hne⟩
  refine hstays (backupPath m s) _ (fun fs' => fs' (backupPath m s) = _) (hbacked.ne_none hsrc hs) rfl ?_
    |>.trans (hbacked s hs)
  exact createTablesAt_elsewhere (Ne.symm (hne s hs))

theorem insertIntoTemps_ensures {I : Fs → Prop} :
    Ensures I (insertIntoTemps T faults m rows) fun _ fs' =>
      ∃ parts fs₁, writeDestinations T.hash m.operation m.targetNames rows.states rows.idempotency
        rows.outbox = .ok parts ∧ I fs₁ ∧ fs' = flush T m parts fs₁ := by
  intro fs₁ a fs₂ hfs₁ hrun
  change insertIntoTemps T faults m rows fs₁ = _ at hrun
  unfold insertIntoTemps at hrun
  by_cases hinserts : Inserts T faults m rows
  · obtain ⟨parts, hparts⟩ := hinserts.parts
    obtain ⟨_, hinsert, rfl⟩ := insertAll_returns hinserts hparts _ rfl
    rw [hinsert] at hrun
    obtain ⟨-, rfl⟩ := EStateM.Result.ok.inj hrun
    exact ⟨_, fs₁, hparts, hfs₁, rfl⟩
  · obtain ⟨e, parts, hinsert, -⟩ := insertAll_fails hinserts _ rfl
    rw [hinsert] at hrun
    cases hrun

theorem flush_of_ne {parts : Parts} {p : Path} (h : ∀ d ∈ m.targetSpecs, temporaryPath T d.path ≠ p) :
    flush T m parts fs p = fs p := by
  refine List.foldlRecOn (motive := fun fs' : Fs => fs' p = fs p) _ _ rfl fun fs' hfs' d hd => ?_
  exact (writeFile_of_ne (Ne.symm (h d.1 (List.fst_mem_of_mem_zipIdx hd)))).trans hfs'

/-- What is written to the temporary files; the checkpoints change nothing. -/
theorem writeTemps_ensures {I J : Fs → Prop}
    (h : Ensures I (Exec.loop (openTemp T faults) m.targetSpecs.zipIdx) fun _ => J) :
    Ensures I (writeTemps T faults m rows) fun _ fs' =>
      ∃ parts fs₁, writeDestinations T.hash m.operation m.targetNames rows.states rows.idempotency
        rows.outbox = .ok parts ∧ J fs₁ ∧ fs' = flush T m parts fs₁ := by
  refine h.bind fun _ => Ensures.bind insertIntoTemps_ensures fun _ fs₁ a fs₂ hfs₁ hrun => ?_
  have hsame : fs₂ = fs₁ := (Ensures.loop (I := (· = fs₁)) (F := fun _ => True) fun d _ =>
    (call_ensures fun _ h => h).mono fun _ _ h => ⟨h, trivial⟩) fs₁ a fs₂ rfl hrun |>.1
  exact hsame ▸ hfs₁

theorem writeOrRemove_of_writeTemps {I : Fs → Prop} {J : Unit → Fs → Prop}
    (h : Ensures I (writeTemps T faults m rows) J) : Ensures I (writeOrRemove T faults m rows) J := by
  intro fs₁ a fs₂ hfs₁ hrun
  change writeOrRemove T faults m rows fs₁ = _ at hrun
  unfold writeOrRemove at hrun
  cases htemps : (writeTemps T faults m rows).run fs₁ with
  | error e fs₃ =>
    rw [htemps] at hrun
    cases hrun
  | ok _ fs₃ =>
    rw [htemps] at hrun
    obtain ⟨-, rfl⟩ := EStateM.Result.ok.inj hrun
    exact h fs₁ _ fs₃ hfs₁ htemps

/-- After the temporary files are written, the backups are still there. -/
theorem writeOrRemove_ensures (hsrc : HasSources m dbs fs) :
    Ensures (Backed m fs m.sources) (writeOrRemove T faults m rows) fun _ fs' =>
      Backed m fs m.sources fs' ∧
      (∀ d ∈ m.targetSpecs, ∀ s ∈ m.sources, temporaryPath T d.path ≠ backupPath m s) ∧
      ∃ parts fs₁, writeDestinations T.hash m.operation m.targetNames rows.states rows.idempotency
        rows.outbox = .ok parts ∧ fs' = flush T m parts fs₁ := by
  refine writeOrRemove_of_writeTemps ((writeTemps_ensures (Ensures.loop fun d _ =>
    openTemp_ensures hsrc d)).mono fun _ fs' hfs' => ?_)
  obtain ⟨parts, fs₁, hparts, ⟨hbacked, htemps⟩, rfl⟩ := hfs'
  have htemps' : ∀ d ∈ m.targetSpecs, ∀ s ∈ m.sources, temporaryPath T d.path ≠ backupPath m s := by
    intro d hd
    obtain ⟨i, hi, rfl⟩ := List.mem_iff_getElem.1 hd
    exact htemps (_, i) (List.mem_zipIdx_iff_getElem?.2 (List.getElem?_eq_getElem hi))
  refine ⟨fun s hs => ?_, htemps', parts, fs₁, hparts, rfl⟩
  rw [flush_of_ne fun d hd => htemps' d hd s hs]
  exact hbacked s hs

end Write

/-! ### Publication -/

section Publish

variable {T : Tools} {faults : Call → Option Fault} {m : Manifest} {dbs : StoreSpec → Database}
  {fs : Fs} {rows : Rows} {checksum : File → String}

theorem renameFile_of_ne {p q r : Path} (hp : r ≠ p) (hq : r ≠ q) : renameFile p q fs r = fs r := by
  unfold renameFile
  cases fs p with
  | none => rfl
  | some node => exact (Function.update_of_ne hp _ _).trans (Function.update_of_ne hq _ _)

theorem publishAll_keeps_at {p : Path} {v : Option Node} {targets : List (StoreSpec × ℕ)}
    (htemps : ∀ d ∈ targets, temporaryPath T d.1.path ≠ p) (hdests : ∀ d ∈ targets, d.1.path ≠ p)
    (checksums : Dict String String) :
    Keeps (fun fs' => fs' p = v) (publishAll T faults checksum targets checksums) := by
  induction targets generalizing checksums with
  | nil => exact keeps_pure _
  | cons d targets ih =>
    obtain ⟨htemp, htemps⟩ := List.forall_mem_cons.1 htemps
    obtain ⟨hdest, hdests⟩ := List.forall_mem_cons.1 hdests
    refine Keeps.bind (call_keeps (fun _ _ h => h) fun fs' h => ?_) fun _ =>
      Keeps.bind (fileChecksum_keeps _ _) fun _ => ih htemps hdests _
    exact (renameFile_of_ne (Ne.symm htemp) (Ne.symm hdest)).trans h

/-- The only temporary file becomes the destination. -/
theorem publishAll_ensures {t : StoreSpec} {node : Node} (checksums : Dict String String) :
    Ensures (fun fs' => fs' (temporaryPath T t.path) = some node)
      (publishAll T faults checksum [(t, 0)] checksums) fun _ fs' => fs' t.path = some node := by
  refine Ensures.bind (J := fun _ fs' => fs' t.path = some node) (call_ensures fun fs' hfs' => ?_)
    fun _ => Ensures.bind (fileChecksum_keeps _ _).ensures fun _ =>
      (Ensures.pure _).mono fun _ _ h => h.2
  unfold renameFile
  rw [hfs']
  exact (Function.update_of_ne (Ne.symm (temporaryPath_ne T t.path)) _ _).trans (Function.update_self ..)

/-- The report is written last, with the checksums of the destinations. -/
theorem publish_ensures {I : Fs → Prop} {J : Dict String String → Fs → Prop}
    (h : Ensures I (publishAll T faults checksum m.targetSpecs.zipIdx Table.empty) J) :
    Ensures I (publish T faults m checksum rows) fun _ fs' => ∃ fs₁ checksums, J checksums fs₁ ∧
      fs' = writeFile (reportPath m) (.report (reportOf T.hash m.operation m.targetNames
        (m.sources.map (·.name)) rows.states rows.conflicts rows.idempotency rows.deduplicated
        rows.outbox) checksums) fs₁ := by
  refine h.bind fun checksums => ?_
  refine Ensures.bind (call_ensures fun _ h => h) fun _ => call_ensures fun fs₁ hfs₁ => ?_
  exact ⟨fs₁, checksums, hfs₁, rfl⟩

/-- The backups are there and the only destination is published, and then the report is written. -/
def Published (m : Manifest) (fs : Fs) (parts : Parts) (fs' : Fs) : Prop :=
  ∃ fs₁ report checksums, (Backed m fs m.sources fs₁ ∧
    ∀ t, m.targetSpecs = [t] → fs₁ t.path = some (.file (databaseFile t.name (parts 0)))) ∧
    fs' = writeFile (reportPath m) (.report report checksums) fs₁

theorem execute_ensures (hsrc : HasSources m dbs fs) (hplace : BackupsApart m) :
    Ensures (· = fs) (execute T faults m checksum) fun _ fs' =>
      ∃ rows parts, Collects m fs rows ∧
        writeDestinations T.hash m.operation m.targetNames rows.states rows.idempotency rows.outbox =
          .ok parts ∧ Published m fs parts fs' := by
  refine (prepare_ensures hsrc hplace).bind fun rows => ?_
  intro fs₀ a fs₃ hfs₀ hrun
  obtain ⟨hcollects, hbacked, hdests⟩ := hfs₀
  have hrest : Ensures (Backed m fs m.sources)
      (writeOrRemove T faults m rows >>= fun _ => publish T faults m checksum rows) fun _ fs' =>
      ∃ parts, writeDestinations T.hash m.operation m.targetNames rows.states rows.idempotency
        rows.outbox = .ok parts ∧ Published m fs parts fs' := by
    refine (writeOrRemove_ensures hsrc).bind fun _ fs₁ a fs₂ hfs₁ hrun => ?_
    obtain ⟨hbacked, htemps, parts, fs₀, hparts, rfl⟩ := hfs₁
    have hpublished : Ensures (· = flush T m parts fs₀)
        (publishAll T faults checksum m.targetSpecs.zipIdx Table.empty) fun _ fs₁ =>
        Backed m fs m.sources fs₁ ∧
          ∀ t, m.targetSpecs = [t] → fs₁ t.path = some (.file (databaseFile t.name (parts 0))) := by
      rintro fs₁ b fs₂ rfl hrun
      constructor
      · intro s hs
        rw [← hbacked s hs]
        exact (publishAll_keeps_at (fun d hd => htemps d.1 (List.fst_mem_of_mem_zipIdx hd) s hs)
          (fun d hd => hdests d.1 (List.fst_mem_of_mem_zipIdx hd) s hs) _).ensures _ b fs₂ rfl hrun
      · intro t ht
        rw [ht] at hrun
        refine publishAll_ensures Table.empty _ b fs₂ ?_ hrun
        unfold flush
        rw [ht]
        exact Function.update_self ..
    obtain ⟨fs₁, checksums, hfs₁, rfl⟩ := publish_ensures hpublished _ a fs₂ rfl hrun
    exact ⟨parts, hparts, fs₁, _, checksums, hfs₁, rfl⟩
  obtain ⟨parts, hparts, hpublished⟩ := hrest fs₀ a fs₃ hbacked hrun
  exact ⟨rows, parts, hcollects, hparts, hpublished⟩

/-- What a successful execution leaves. -/
theorem execute_ok (hsrc : HasSources m dbs fs) (hplace : BackupsApart m) {fs' : Fs}
    (h : (execute T faults m checksum).run fs = .ok () fs') :
    ∃ rows parts, Collects m fs rows ∧
      writeDestinations T.hash m.operation m.targetNames rows.states rows.idempotency rows.outbox =
        .ok parts ∧
      Backed m fs m.sources fs' ∧
      ∀ t, m.targetSpecs = [t] →
        (t.path ≠ reportPath m → fs' t.path = some (.file (databaseFile t.name (parts 0)))) ∧
        (t.path = reportPath m → ∃ report checksums,
          fs' t.path = some (.file (.report report checksums))) := by
  obtain ⟨rows, parts, hcollects, hparts, fs₁, report, checksums, ⟨hbacked, htarget⟩, rfl⟩ :=
    execute_ensures hsrc hplace fs () fs' rfl h
  refine ⟨rows, parts, hcollects, hparts, fun s hs => ?_, fun t ht => ⟨fun hne => ?_, fun heq => ?_⟩⟩
  · rw [writeFile_of_ne (backupPath_ne_reportPath s)]
    exact hbacked s hs
  · rw [writeFile_of_ne hne]
    exact htarget t ht
  · refine ⟨report, checksums, ?_⟩
    rw [heq]
    exact Function.update_self ..

end Publish

/-! ### Rows of a destination and rows of the sources -/

section States

variable {a b : StateRow} {l l' : List StateRow}

theorem stored_eq_iff :
    a.stored = b.stored ↔ a.payloadRow? = b.payloadRow? ∧ a.tombstone? = b.tombstone? := by
  obtain ⟨entity, key, version, timestamp, source, payload, eventId⟩ := a
  obtain ⟨entity', key', version', timestamp', source', payload', eventId'⟩ := b
  have hversion : version.toInt64 = version'.toInt64 ↔ version = version' := by
    constructor
    · intro h
      rw [← version.toUInt64_toInt64, h, version'.toUInt64_toInt64]
    · exact congrArg _
  cases payload <;> cases payload' <;>
    simp [StateRow.stored, StateRow.payloadRow?, StateRow.tombstone?, hversion]
  tauto

/-- A state is a payload or a tombstone. -/
theorem tombstone?_eq_none_iff (s : StateRow) : s.tombstone? = none ↔ s.payloadRow? ≠ none := by
  unfold StateRow.tombstone? StateRow.payloadRow?
  cases s.payload <;> simp

/-- Rows that are seen are seen as payload rows or as tombstones. -/
theorem stored_subset_iff :
    (∀ y ∈ l.map StateRow.stored, y ∈ l'.map StateRow.stored) ↔
      (∀ r ∈ l.filterMap StateRow.payloadRow?, r ∈ l'.filterMap StateRow.payloadRow?) ∧
      ∀ r ∈ l.filterMap StateRow.tombstone?, r ∈ l'.filterMap StateRow.tombstone? := by
  constructor
  · intro h
    have hview : ∀ a ∈ l, ∃ b ∈ l', b.payloadRow? = a.payloadRow? ∧ b.tombstone? = a.tombstone? := by
      intro a ha
      obtain ⟨b, hb, hba⟩ := List.mem_map.1 (h _ (List.mem_map_of_mem ha))
      exact ⟨b, hb, stored_eq_iff.1 hba⟩
    constructor
    · intro r hr
      obtain ⟨a, ha, har⟩ := List.mem_filterMap.1 hr
      obtain ⟨b, hb, hba, -⟩ := hview a ha
      exact List.mem_filterMap.2 ⟨b, hb, hba.trans har⟩
    · intro r hr
      obtain ⟨a, ha, har⟩ := List.mem_filterMap.1 hr
      obtain ⟨b, hb, -, hba⟩ := hview a ha
      exact List.mem_filterMap.2 ⟨b, hb, hba.trans har⟩
  · rintro ⟨hpayload, htombstone⟩ y hy
    obtain ⟨a, ha, rfl⟩ := List.mem_map.1 hy
    cases hview : a.payloadRow? with
    | some r =>
      obtain ⟨b, hb, hbr⟩ := List.mem_filterMap.1 (hpayload r (List.mem_filterMap.2 ⟨a, ha, hview⟩))
      refine List.mem_map.2 ⟨b, hb, stored_eq_iff.2 ⟨hbr.trans hview.symm, ?_⟩⟩
      rw [(tombstone?_eq_none_iff a).2 (by simp [hview]), (tombstone?_eq_none_iff b).2 (by simp [hbr])]
    | none =>
      have htomb : a.tombstone? ≠ none := fun hnone => (tombstone?_eq_none_iff a).1 hnone hview
      obtain ⟨t, ht⟩ := Option.ne_none_iff_exists'.1 htomb
      obtain ⟨b, hb, hbt⟩ := List.mem_filterMap.1 (htombstone t (List.mem_filterMap.2 ⟨a, ha, ht⟩))
      refine List.mem_map.2 ⟨b, hb, stored_eq_iff.2 ⟨?_, hbt.trans ht.symm⟩⟩
      rw [hview]
      by_contra hsome
      cases hbt.symm.trans ((tombstone?_eq_none_iff b).2 hsome)

end States

/-- The database has exactly the rows of the sources, with the name of the store replaced. -/
structure HasRowsOf (m : Manifest) (dbs : StoreSpec → Database) (name : String) (db : Database) :
    Prop where
  payload : ∀ r, r ∈ payloadRows db name ↔ ∃ s ∈ m.sources, r ∈ payloadRows (dbs s) s.name
  tombstones : ∀ r, r ∈ db.tombstones.rows ↔ ∃ s ∈ m.sources, r ∈ (dbs s).tombstones.rows
  idempotency : ∀ r, r ∈ db.idempotency.rows ↔
    ∃ s ∈ m.sources, ∃ x ∈ (dbs s).idempotency.rows, r = { x with store := name }
  outbox : ∀ id, id ∈ db.outbox.rows.map (·.eventId) ↔
    ∃ s ∈ m.sources, id ∈ (dbs s).outbox.rows.map (·.eventId)

/-- Rows of the sources with one key are the same, up to the store they are in. -/
structure NothingShadowed (m : Manifest) (dbs : StoreSpec → Database) : Prop where
  states : ∀ s ∈ m.sources, ∀ s' ∈ m.sources, ∀ a ∈ statesOf s.name (dbs s),
    ∀ b ∈ statesOf s'.name (dbs s'), a.pk = b.pk → a.stored = b.stored
  commands : ∀ s ∈ m.sources, ∀ s' ∈ m.sources, ∀ a ∈ (dbs s).idempotency.rows,
    ∀ b ∈ (dbs s').idempotency.rows, a.idempotencyKey = b.idempotencyKey →
      { a with store := "" } = { b with store := "" }

section Rows

variable {m : Manifest} {dbs : StoreSpec → Database} {fs : Fs} {rows : Rows}

/-- The states of all sources. -/
def allStates (m : Manifest) (dbs : StoreSpec → Database) : List StateRow :=
  m.sources.flatMap fun s => statesOf s.name (dbs s)

/-- The commands of all sources. -/
def allCommands (m : Manifest) (dbs : StoreSpec → Database) : List IdempotencyRow :=
  m.sources.flatMap fun s => (dbs s).idempotency.rows.map (commandOfRow s.name)

/-- The events of all sources. -/
def allOutboxRows (m : Manifest) (dbs : StoreSpec → Database) : List OutboxRow :=
  m.sources.flatMap fun s => (dbs s).outbox.rows.map eventOfEntry

theorem Collects.states_eq (h : Collects m fs rows) (hsrc : HasSources m dbs fs) :
    rows.states = keptStates (allStates m dbs) := by
  have hstates := h.states
  rw [sourcesOf_eq hsrc] at hstates
  obtain ⟨all, hread, hkept⟩ := collectStates_ok hstates
  rw [hkept, eq_flatMap_of_readAll hread, List.flatMap_map]
  congr 1
  refine List.flatMap_congr fun s _ => ?_
  rw [Source.stateRows, states_toSource]
  rfl

theorem Collects.representatives_commands (h : Collects m fs rows) (hsrc : HasSources m dbs fs) :
    Representatives IdempotencyRow.idempotencyKey (allCommands m dbs) rows.idempotency := by
  have hcommands := h.idempotency
  rw [sourcesOf_eq hsrc] at hcommands
  obtain ⟨hfirst, hsorted⟩ := collectIdempotency_ok hcommands
  rw [List.flatMap_map] at hfirst
  exact hfirst.representatives (nodup_map_of_sorted hsorted)

theorem Collects.eventIds (h : Collects m fs rows) (hsrc : HasSources m dbs fs) (id : String) :
    id ∈ rows.outbox.map OutboxRow.eventId ↔ id ∈ (allOutboxRows m dbs).map OutboxRow.eventId := by
  have houtbox := h.outbox
  rw [sourcesOf_eq hsrc] at houtbox
  obtain ⟨all, hread, hfirst, -⟩ := collectOutbox_ok houtbox
  have hall : all = allOutboxRows m dbs := by
    have hok : readAll Source.outboxRows (m.sources.map fun s => toSource s.name (dbs s)) =
        .ok (allOutboxRows m dbs) := by
      rw [readAll_map]
      exact readAll_of_ok fun s _ => outboxRows_toSource s.name (dbs s)
    exact Except.ok.inj (hread.symm.trans hok)
  rw [← hall]
  constructor
  · intro hid
    obtain ⟨x, hx, rfl⟩ := List.mem_map.1 hid
    exact List.mem_map_of_mem (hfirst.mem_rows hx)
  · intro hid
    obtain ⟨r, hr, rfl⟩ := List.mem_map.1 hid
    obtain ⟨x, hx, hkey, -⟩ := hfirst.agrees r hr
    exact List.mem_map.2 ⟨x, hx, hkey⟩

/-- The payload rows of all sources. -/
theorem mem_payloadRow_allStates {r : PayloadRow} :
    r ∈ (allStates m dbs).filterMap StateRow.payloadRow? ↔
      ∃ s ∈ m.sources, r ∈ payloadRows (dbs s) s.name := by
  have hpayload : ∀ name (p : PayloadRow), (stateOfPayload name p).payloadRow? = some p := by
    intro name p
    simp [stateOfPayload, StateRow.payloadRow?]
  rw [allStates, List.filterMap_flatMap, List.mem_flatMap]
  refine exists_congr fun s => and_congr_right fun _ => ?_
  rw [statesOf, List.filterMap_append, List.filterMap_map, List.filterMap_map, List.mem_append,
    show StateRow.payloadRow? ∘ stateOfPayload s.name = some from funext (hpayload s.name),
    List.filterMap_some]
  refine or_iff_left fun hr => ?_
  obtain ⟨t, -, ht⟩ := List.mem_filterMap.1 hr
  cases ht

/-- The tombstones of all sources. -/
theorem mem_tombstone_allStates {r : TombstoneRow} :
    r ∈ (allStates m dbs).filterMap StateRow.tombstone? ↔
      ∃ s ∈ m.sources, r ∈ (dbs s).tombstones.rows := by
  have htombstone : ∀ name (t : TombstoneRow), (stateOfTombstone name t).tombstone? = some t := by
    intro name t
    simp [stateOfTombstone, StateRow.tombstone?]
  rw [allStates, List.filterMap_flatMap, List.mem_flatMap]
  refine exists_congr fun s => and_congr_right fun _ => ?_
  rw [statesOf, List.filterMap_append, List.filterMap_map, List.filterMap_map, List.mem_append,
    show StateRow.tombstone? ∘ stateOfTombstone s.name = some from funext (htombstone s.name),
    List.filterMap_some]
  refine or_iff_right fun hr => ?_
  obtain ⟨p, -, hp⟩ := List.mem_filterMap.1 hr
  cases hp

end Rows

/-! ### Renaming -/

section Rename

variable {T : Tools} {m : Manifest} {dbs : StoreSpec → Database} {fs : Fs} {rows : Rows} {name : String}
  {db db' : Database}

theorem states_shadow_iff (m : Manifest) (dbs : StoreSpec → Database) (states : List StateRow)
    (h : states = keptStates (allStates m dbs)) :
    ((∀ r, r ∈ states.filterMap StateRow.payloadRow? ↔ ∃ s ∈ m.sources, r ∈ payloadRows (dbs s) s.name) ∧
      ∀ r, r ∈ states.filterMap StateRow.tombstone? ↔ ∃ s ∈ m.sources, r ∈ (dbs s).tombstones.rows) ↔
    ∀ s ∈ m.sources, ∀ s' ∈ m.sources, ∀ a ∈ statesOf s.name (dbs s),
      ∀ b ∈ statesOf s'.name (dbs s'), a.pk = b.pk → a.stored = b.stored := by
  have hrep := representatives_keptStates (allStates m dbs)
  rw [← h] at hrep
  have hview : ∀ a b : StateRow, a.stored = b.stored → a.pk = b.pk := by
    intro a b hab
    have hpk := congrArg StateRow.pk hab
    exact hpk
  have himage := hrep.image_eq_iff hview
  simp only [← mem_payloadRow_allStates, ← mem_tombstone_allStates]
  trans ∀ y, y ∈ states.map StateRow.stored ↔ y ∈ (allStates m dbs).map StateRow.stored
  · simp only [iff_iff_implies_and_implies, forall_and]
    rw [stored_subset_iff, stored_subset_iff]
    tauto
  · rw [himage]
    simp only [allStates, List.mem_flatMap]
    constructor
    · exact fun hsame s hs s' hs' a ha b hb => hsame a ⟨s, hs, ha⟩ b ⟨s', hs', hb⟩
    · rintro hsame a ⟨s, hs, ha⟩ b ⟨s', hs', hb⟩
      exact hsame s hs s' hs' a ha b hb

/-- The row is inserted with the name of the store replaced. -/
theorem rowIn_commandOfRow (source : String) (r : Ixmati.IdempotencyRow) :
    (commandOfRow source r).rowIn name = { r with store := name } := by
  simp [commandOfRow, IdempotencyRow.rowIn]

theorem commands_shadow_iff (name : String) (h : Collects m fs rows) (hsrc : HasSources m dbs fs) :
    (∀ r, r ∈ rows.idempotency.map (IdempotencyRow.rowIn name) ↔
      ∃ s ∈ m.sources, ∃ x ∈ (dbs s).idempotency.rows, r = { x with store := name }) ↔
    ∀ s ∈ m.sources, ∀ s' ∈ m.sources, ∀ a ∈ (dbs s).idempotency.rows,
      ∀ b ∈ (dbs s').idempotency.rows, a.idempotencyKey = b.idempotencyKey →
        { a with store := "" } = { b with store := "" } := by
  have hview : ∀ a b : IdempotencyRow, a.rowIn name = b.rowIn name → a.idempotencyKey = b.idempotencyKey :=
    fun a b hab => congrArg Ixmati.IdempotencyRow.idempotencyKey hab
  have himage := (h.representatives_commands hsrc).image_eq_iff hview
  have hunion : ∀ r, r ∈ (allCommands m dbs).map (IdempotencyRow.rowIn name) ↔
      ∃ s ∈ m.sources, ∃ x ∈ (dbs s).idempotency.rows, r = { x with store := name } := by
    intro r
    simp only [allCommands, List.map_flatMap, List.mem_flatMap, List.map_map, List.mem_map,
      Function.comp_apply, rowIn_commandOfRow]
    refine exists_congr fun s => and_congr_right fun _ => exists_congr fun x => and_congr_right fun _ => ?_
    exact eq_comm
  -- Whatever the name of the store is, it is the same in both rows.
  have hstore : ∀ a b : Ixmati.IdempotencyRow,
      ({ a with store := name } : Ixmati.IdempotencyRow) = { b with store := name } ↔
        ({ a with store := "" } : Ixmati.IdempotencyRow) = { b with store := "" } := by
    intro a b
    simp only [Ixmati.IdempotencyRow.mk.injEq]
  simp only [hunion] at himage
  rw [himage]
  simp only [allCommands, List.mem_flatMap, List.mem_map]
  constructor
  · intro hsame s hs s' hs' a ha b hb hkey
    rw [← hstore, ← rowIn_commandOfRow s.name, ← rowIn_commandOfRow s'.name]
    exact hsame _ ⟨s, hs, a, ha, rfl⟩ _ ⟨s', hs', b, hb, rfl⟩ hkey
  · rintro hsame _ ⟨s, hs, a, ha, rfl⟩ _ ⟨s', hs', b, hb, rfl⟩ hkey
    rw [rowIn_commandOfRow, rowIn_commandOfRow, hstore]
    exact hsame s hs s' hs' a ha b hb hkey

/-- A destination with everything that was collected has the rows of the sources exactly if nothing is
shadowed. -/
theorem hasRowsOf_iff (h : Collects m fs rows) (hsrc : HasSources m dbs fs)
    (hdb : Holds name rows.states rows.idempotency rows.outbox db) :
    HasRowsOf m dbs name db ↔ NothingShadowed m dbs := by
  have hstates := states_shadow_iff m dbs rows.states (h.states_eq hsrc)
  have hcommands := commands_shadow_iff name h hsrc
  have houtbox : ∀ id, id ∈ db.outbox.rows.map (·.eventId) ↔
      ∃ s ∈ m.sources, id ∈ (dbs s).outbox.rows.map (·.eventId) := by
    intro id
    have hids : db.outbox.rows.map (·.eventId) = rows.outbox.map OutboxRow.eventId := by
      rw [hdb.outbox]
      refine List.ext_getElem? fun i => ?_
      rw [List.getElem?_map, List.getElem?_mapIdx, List.getElem?_map, Option.map_map]
      rfl
    rw [hids, h.eventIds hsrc]
    simp only [allOutboxRows, List.map_flatMap, List.mem_flatMap, List.map_map]
    rfl
  constructor
  · intro hrows
    refine ⟨hstates.1 ⟨?_, ?_⟩, hcommands.1 ?_⟩
    · exact hdb.payloadRows ▸ hrows.payload
    · exact hdb.tombstones ▸ hrows.tombstones
    · exact hdb.idempotency ▸ hrows.idempotency
  · intro hshadow
    obtain ⟨hpayload, htombstones⟩ := hstates.2 hshadow.states
    refine ⟨?_, ?_, ?_, houtbox⟩
    · exact hdb.payloadRows.symm ▸ hpayload
    · exact hdb.tombstones.symm ▸ htombstones
    · exact hdb.idempotency.symm ▸ hcommands.2 hshadow.commands

/-- The rows are those of the file. -/
theorem HasRowsOf.congr (h : HasRowsOf m dbs name db) (hfile : databaseFile name db = databaseFile name db') :
    HasRowsOf m dbs name db' := by
  have hsource := File.database.inj hfile
  have hpayload : payloadRows db name = payloadRows db' name := by
    have hcells : Function.Injective payloadCells := by
      intro r r' hr
      cases r
      cases r'
      simpa [payloadCells] using hr
    have htable := congrArg (fun d : SourceDb => (d.payload ("payload_" ++ name)).getD []) hsource
    refine hcells.list_map ?_
    simp only [toSource, if_true] at htable
    unfold payloadRows
    cases hdb : db.payload (tableName name) <;> cases hdb' : db'.payload (tableName name) <;>
      rw [hdb, hdb'] at htable <;> exact htable
  have htombstones : db.tombstones.rows = db'.tombstones.rows :=
    Option.some.inj (congrArg SourceDb.tombstones hsource)
  have hidempotency : db.idempotency.rows = db'.idempotency.rows :=
    congrArg IdempotencyCells.rows (Option.some.inj (congrArg SourceDb.idempotency hsource))
  have houtbox : db.outbox.rows.map (·.eventId) = db'.outbox.rows.map (·.eventId) := by
    have hcells : db.outbox.rows.map outboxCells = db'.outbox.rows.map outboxCells :=
      Option.some.inj (congrArg SourceDb.outbox hsource)
    have hids := congrArg (List.map OutboxCells.eventId) hcells
    rw [List.map_map, List.map_map] at hids
    exact hids
  refine ⟨?_, ?_, ?_, ?_⟩
  · exact hpayload ▸ h.payload
  · exact htombstones ▸ h.tombstones
  · exact hidempotency ▸ h.idempotency
  · exact houtbox ▸ h.outbox

end Rename

/-! ### The theorem -/

/-- Every source has a backup with its content. -/
def BacksUp (m : Manifest) (fs fs' : Fs) : Prop :=
  ∀ s ∈ m.sources, fs' (backupPath m s) = fs s.path

/-- Every source has a backup, and after a rename the destination has the rows of the sources. -/
def LosesNothing (m : Manifest) (dbs : StoreSpec → Database) (fs fs' : Fs) : Prop :=
  BacksUp m fs fs' ∧ (m.operation = .rename → ∀ t ∈ m.target, ∃ db,
    fs' t.path = some (.file (databaseFile t.name db)) ∧ HasRowsOf m dbs t.name db)

section Execute

variable {T : Tools} {faults : Call → Option Fault} {m : Manifest} {dbs : StoreSpec → Database}
  {fs fs' : Fs} {rows : Rows} {checksum : File → String}

theorem backsUp_iff (hsrc : HasSources m dbs fs) (h : Backed m fs m.sources fs') :
    BacksUp m fs fs' ↔
      ∀ s ∈ m.sources, ∀ s' ∈ m.sources, s.name = s'.name → fs s.path = fs s'.path := by
  constructor
  · intro hbacks s hs s' hs' hname
    rw [← hbacks s hs, ← hbacks s' hs', backupPath_inj.2 hname]
  · intro hsame s hs
    obtain ⟨t, ht, hname, hbackup, -⟩ := h.exists_database hsrc hs
    rw [hbackup]
    exact hsame t ht s hs hname

/-- A rename has one destination. -/
theorem targetSpecs_of_rename (hvalid : validateManifest T m = .ok ()) (hop : m.operation = .rename) :
    ∃ t, m.target = some t ∧ m.targetSpecs = [t] := by
  have hshape := validateShape_of_valid hvalid
  unfold validateShape at hshape
  rw [hop] at hshape
  simp only at hshape
  split_ifs at hshape with hbad
  rw [not_or] at hbad
  obtain ⟨htarget, htargets⟩ := hbad
  cases ht : m.target with
  | none =>
    rw [ht] at htarget
    exact absurd rfl htarget
  | some t =>
    refine ⟨t, rfl, ?_⟩
    rw [Manifest.targetSpecs, ht, List.isEmpty_iff.1 (not_not.1 htargets)]
    rfl

theorem holds_of_rename (hop : m.operation = .rename) {t : StoreSpec} (ht : m.targetSpecs = [t])
    {parts : Parts}
    (h : writeDestinations T.hash m.operation m.targetNames rows.states rows.idempotency rows.outbox =
      .ok parts) : Holds t.name rows.states rows.idempotency rows.outbox (parts 0) := by
  have hheld := writeDestinations_ok h 0
  have hname : targetName m.targetNames 0 = t.name := by
    rw [Manifest.targetNames, ht]
    rfl
  have hall : ∀ key, goesTo T.hash m.operation m.targetNames 0 key = true := by
    intro key
    rw [goesTo, hop]
    rfl
  simpa only [hname, hall, List.filter_true] using hheld

/-- The destination of a rename has the rows of the sources exactly if it is not in the place of the
report and rows with one key are the same. -/
theorem renames_iff (hvalid : validateManifest T m = .ok ()) (hsrc : HasSources m dbs fs)
    (hplace : BackupsApart m) (h : (execute T faults m checksum).run fs = .ok () fs')
    (hop : m.operation = .rename) :
    (∀ t ∈ m.target, ∃ db,
      fs' t.path = some (.file (databaseFile t.name db)) ∧ HasRowsOf m dbs t.name db) ↔
    (∀ t ∈ m.target, t.path ≠ reportPath m) ∧ NothingShadowed m dbs := by
  obtain ⟨rows, parts, hcollects, hwrite, -, htarget⟩ := execute_ok hsrc hplace h
  obtain ⟨t, ht, hspecs⟩ := targetSpecs_of_rename hvalid hop
  obtain ⟨hdatabase, hreport⟩ := htarget t hspecs
  have hholds := holds_of_rename hop hspecs hwrite
  rw [ht]
  constructor
  · intro hrename
    obtain ⟨db, hfile, hrows⟩ := hrename t rfl
    have hne : t.path ≠ reportPath m := by
      intro heq
      obtain ⟨report, checksums, hfile'⟩ := hreport heq
      rw [hfile] at hfile'
      cases hfile'
    refine ⟨fun t' ht' => Option.some.inj ht' ▸ hne, ?_⟩
    have hsame := Option.some.inj (hfile.symm.trans (hdatabase hne))
    exact (hasRowsOf_iff hcollects hsrc hholds).1 (hrows.congr (Node.file.inj hsame))
  · rintro ⟨hne, hshadow⟩ t' ht'
    obtain rfl := Option.some.inj ht'
    exact ⟨parts 0, hdatabase (hne t rfl), (hasRowsOf_iff hcollects hsrc hholds).2 hshadow⟩

/-- A successful execution loses nothing exactly if sources with one name have one content and, for a
rename, the destination is not in the place of the report and rows with one key are the same. -/
theorem losesNothing_iff (hvalid : validateManifest T m = .ok ()) (hsrc : HasSources m dbs fs)
    (hplace : BackupsApart m) (h : (execute T faults m checksum).run fs = .ok () fs') :
    LosesNothing m dbs fs fs' ↔
      (∀ s ∈ m.sources, ∀ s' ∈ m.sources, s.name = s'.name → fs s.path = fs s'.path) ∧
      (m.operation = .rename →
        (∀ t ∈ m.target, t.path ≠ reportPath m) ∧ NothingShadowed m dbs) := by
  obtain ⟨_, _, -, -, hbacked, -⟩ := execute_ok hsrc hplace h
  exact and_congr (backsUp_iff hsrc hbacked) (imp_congr_right (renames_iff hvalid hsrc hplace h))

end Execute

/-! ### Two stores -/

/-- A manifest with one destination. -/
def sampleManifest (operation : Operation) (sources : List StoreSpec) : Manifest where
  operation := operation
  sources := sources
  target := some ⟨"both", ["data", "both.db"]⟩
  targets := []
  hashAlgorithm := hashAlgorithm
  evidenceDir := ["evidence"]
  quiesced := true

/-- Two files. -/
def twoFiles (first second : Written) : Fs :=
  writeFile ["data", "first.db"] (databaseFile first.name (first.db History.sampleDeps))
    (writeFile ["data", "second.db"] (databaseFile second.name (second.db History.sampleDeps)) fun p =>
      if p = [] ∨ p = ["data"] then some .dir else none)

/-- The database of a source. -/
def twoDbs (first second : Written) (s : StoreSpec) : Database :=
  if s.path = ["data", "first.db"] then first.db History.sampleDeps else second.db History.sampleDeps

theorem hasSources_one (first second : Written) (operation : Operation) :
    HasSources (sampleManifest operation [⟨first.name, ["data", "first.db"]⟩]) (twoDbs first second)
      (twoFiles first second) := by
  intro s hs
  obtain rfl := List.mem_singleton.1 hs
  unfold twoFiles twoDbs
  exact Function.update_self (β := fun _ => Option Node) ..

theorem hasSources_two (first second : Written) (operation : Operation) :
    HasSources (sampleManifest operation [⟨first.name, ["data", "first.db"]⟩,
      ⟨second.name, ["data", "second.db"]⟩]) (twoDbs first second) (twoFiles first second) := by
  intro s hs
  simp only [sampleManifest, List.mem_cons, List.not_mem_nil, or_false] at hs
  unfold twoFiles twoDbs
  rcases hs with rfl | rfl
  · exact Function.update_self (β := fun _ => Option Node) ..
  · have hne : ["data", "second.db"] ≠ ["data", "first.db"] := by decide
    rw [writeFile_of_ne hne, if_neg hne]
    exact Function.update_self (β := fun _ => Option Node) ..

/-- The store `main` is renamed. -/
theorem rename_of_one_store_loses_nothing :
    ∃ fs', (execute sampleTools (fun _ => none)
        (sampleManifest .rename [⟨"main", ["data", "first.db"]⟩]) fun _ => "").run
          (twoFiles upsertedStore deletedStore) = .ok () fs' ∧
      LosesNothing (sampleManifest .rename [⟨"main", ["data", "first.db"]⟩])
        (twoDbs upsertedStore deletedStore) (twoFiles upsertedStore deletedStore) fs' := by
  obtain ⟨fs', hrun⟩ : ∃ fs', (execute sampleTools (fun _ => none)
      (sampleManifest .rename [⟨"main", ["data", "first.db"]⟩]) fun _ => "").run
        (twoFiles upsertedStore deletedStore) = .ok () fs' :=
      exists_ok (by decide +kernel)
  refine ⟨fs', hrun, (losesNothing_iff (by decide +kernel)
    (hasSources_one upsertedStore deletedStore .rename) (by unfold BackupsApart; decide +kernel) hrun).2
      ⟨?_, fun _ => ⟨?_, ?_⟩⟩⟩
  · intro s hs s' hs' _
    rw [List.mem_singleton.1 hs, List.mem_singleton.1 hs']
  · intro t ht
    obtain rfl := Option.some.inj ht
    decide
  · have hone : ∀ s ∈ [StoreSpec.mk "main" ["data", "first.db"]],
        s = StoreSpec.mk "main" ["data", "first.db"] := fun s hs => List.mem_singleton.1 hs
    constructor
    · intro s hs s' hs' a ha b hb _
      obtain rfl := hone s hs
      obtain rfl := hone s' hs'
      rw [List.mem_singleton.1 ha, List.mem_singleton.1 hb]
    · intro s hs s' hs' a ha b hb _
      obtain rfl := hone s hs
      obtain rfl := hone s' hs'
      rw [List.mem_singleton.1 ha, List.mem_singleton.1 hb]

/-- A rename of two stores keeps the newer of their rows only, and of two sources with one name a merge
keeps the last backup only. -/
theorem accepted_manifests_lose_rows_and_backups :
    (validateManifest sampleTools (sampleManifest .rename
        [⟨"main", ["data", "first.db"]⟩, ⟨"other", ["data", "second.db"]⟩]) = .ok () ∧
      ∃ fs', (execute sampleTools (fun _ => none) (sampleManifest .rename
        [⟨"main", ["data", "first.db"]⟩, ⟨"other", ["data", "second.db"]⟩]) fun _ => "").run
          (twoFiles upsertedStore deletedStore) = .ok () fs' ∧
        ¬ LosesNothing (sampleManifest .rename
          [⟨"main", ["data", "first.db"]⟩, ⟨"other", ["data", "second.db"]⟩])
            (twoDbs upsertedStore deletedStore) (twoFiles upsertedStore deletedStore) fs') ∧
    validateManifest sampleTools (sampleManifest .merge
        [⟨"main", ["data", "first.db"]⟩, ⟨"main", ["data", "second.db"]⟩]) = .ok () ∧
      ∃ fs', (execute sampleTools (fun _ => none) (sampleManifest .merge
        [⟨"main", ["data", "first.db"]⟩, ⟨"main", ["data", "second.db"]⟩]) fun _ => "").run
          (twoFiles upsertedStore { upsertedStore with batches := [] }) = .ok () fs' ∧
        ¬ LosesNothing (sampleManifest .merge
          [⟨"main", ["data", "first.db"]⟩, ⟨"main", ["data", "second.db"]⟩])
            (twoDbs upsertedStore { upsertedStore with batches := [] })
            (twoFiles upsertedStore { upsertedStore with batches := [] }) fs' := by
  refine ⟨⟨by decide +kernel, ?_⟩, by decide +kernel, ?_⟩
  · obtain ⟨fs', hrun⟩ : ∃ fs', (execute sampleTools (fun _ => none) (sampleManifest .rename
        [⟨"main", ["data", "first.db"]⟩, ⟨"other", ["data", "second.db"]⟩]) fun _ => "").run
          (twoFiles upsertedStore deletedStore) = .ok () fs' :=
      exists_ok (by decide +kernel)
    refine ⟨fs', hrun, fun hall => ?_⟩
    have hshadow := ((renames_iff (by decide +kernel) (hasSources_two upsertedStore deletedStore .rename)
      (by unfold BackupsApart; decide +kernel) hrun rfl).1 (hall.2 rfl)).2
    have hsame := hshadow.states ⟨"main", ["data", "first.db"]⟩ (by decide) ⟨"other", ["data", "second.db"]⟩
      (by decide) _ (List.mem_singleton_self _) _ (List.mem_singleton_self _) rfl
    cases congrArg StateRow.payload hsame
  · obtain ⟨fs', hrun⟩ : ∃ fs', (execute sampleTools (fun _ => none) (sampleManifest .merge
        [⟨"main", ["data", "first.db"]⟩, ⟨"main", ["data", "second.db"]⟩]) fun _ => "").run
          (twoFiles upsertedStore { upsertedStore with batches := [] }) = .ok () fs' :=
      exists_ok (by decide +kernel)
    refine ⟨fs', hrun, fun hall => ?_⟩
    have hsrc := hasSources_two upsertedStore { upsertedStore with batches := [] } .merge
    obtain ⟨_, _, -, -, hbacked, -⟩ := execute_ok hsrc (by unfold BackupsApart; decide +kernel) hrun
    have hsame := (backsUp_iff hsrc hbacked).1 hall.1 ⟨"main", ["data", "first.db"]⟩ (by decide)
      ⟨"main", ["data", "second.db"]⟩ (by decide) rfl
    have hfile := Node.file.inj (Option.some.inj hsame)
    have hcells := congrArg (fun db : SourceDb => (db.outbox.getD []).length) (File.database.inj hfile)
    cases hcells

end Migrate

end Ixmati
