import Ixmati.Migrate.Lossless

/-!
# The modes of a migration

`run` counts what it would write (`plan`), writes it (`execute`), or counts it again and looks at the
destinations that are there (`verify`).  The counts of `execute` are part of the report that it leaves
in the evidence directory, beside the checksums of the destinations.

* `modes_agree` : a plan before a successful execution and a verification after it give the report of
  the execution; the verification finds the checksums that were recorded.  Both change nothing.

The verification opens the destinations, so it depends on each of them being the database that was
written to its temporary file, and not on how `execute` came by it.
-/

namespace Ixmati

namespace Migrate

open Exec

/-- `Mode`. -/
inductive Mode where
  | plan
  | execute
  | verify
  deriving DecidableEq

section Modes

variable (T : Tools) (faults : Call → Option Fault) (checks : Path → Option String) (m : Manifest)
  (checksum : File → String)

/-- `preflight_source`.  What `quick_check` finds wrong with a file is in `checks`. -/
def preflight (s : StoreSpec) : Prog Unit := do
  match (← get) s.path with
  | some (.file _) => do
    let db ← connect s.path
    match checks s.path with
    | some check => throw (.precondition ("quick_check de " ++ s.name ++ ": " ++ check))
    | none => ofExcept (preflightSource ⟨s.name, db⟩)
  | _ => throw (.precondition ("no existe SQLite: " ++ String.intercalate "/" s.path))

/-- A report without the counts of the buckets, which are counted when the rows are written. -/
def Report.counts (report : Report) : Report := { report with bucketCounts := Table.empty }

/-- The report of these rows, before anything is written. -/
def countsOf (rows : Rows) : Report :=
  (reportOf T.hash m.operation m.targetNames (m.sources.map (·.name)) rows.states rows.conflicts
    rows.idempotency rows.deduplicated rows.outbox).counts

/-- The rows of the sources, counted. -/
def countRows : Prog Report := do
  let (states, conflicts) ← collect faults m .collectStates collectStates
  let (idempotency, deduplicated) ← collect faults m .collectIdempotency collectIdempotency
  let outbox ← collect faults m .collectOutbox collectOutbox
  return countsOf T m ⟨states, conflicts, idempotency, deduplicated, outbox⟩

/-- `validate_destinations`: a destination that is not there is passed over. -/
def validateDestinations : List (StoreSpec × ℕ) → Dict String String → Prog (Dict String String)
  | [], checksums => return checksums
  | d :: targets, checksums => do
    match (← get) d.1.path with
    | some (.file _) => do
      let _ ← connect d.1.path
      match checks d.1.path with
      | some check => throw (.precondition ("integrity_check destino " ++ d.1.name ++ ": " ++ check))
      | none => do
        let sum ← fileChecksum faults checksum d.2 d.1.path
        validateDestinations targets (checksums.insert d.1.name sum)
    | _ => validateDestinations targets checksums

/-- The report that `execute` has filled is the one that it has written. -/
def writtenReport : Prog (Report × Dict String String) := do
  match (← get) (reportPath m) with
  | some (.file (.report report checksums)) => return (report, checksums)
  | _ => throw (.io "No such file or directory (os error 2)")

/-- The branches of `run`. -/
def Mode.work : Mode → Prog (Report × Dict String String)
  | .plan => do
    let report ← countRows T faults m
    return (report, Table.empty)
  | .execute => do
    Migrate.execute T faults m checksum
    writtenReport m
  | .verify => do
    let report ← countRows T faults m
    let checksums ← validateDestinations faults checks checksum m.targetSpecs.zipIdx Table.empty
    return (report, checksums)

/-- `run`, with the checksums beside the rest of the report. -/
def Mode.run (mode : Mode) : Prog (Report × Dict String String) := do
  ofExcept (validateManifest T m)
  Exec.loop (preflight checks) m.sources
  mode.work T faults checks m checksum

/-- The checksums of the destinations that are there. -/
def sumsOf (fs : Fs) (checksums : Dict String String) (d : StoreSpec × ℕ) : Dict String String :=
  match fs d.1.path with
  | some (.file content) => checksums.insert d.1.name (checksum content)
  | _ => checksums

end Modes

/-! ### Looking at the files -/

section Look

variable {T : Tools} {faults : Call → Option Fault} {checks : Path → Option String} {m : Manifest}
  {checksum : File → String} {fs : Fs} {rows : Rows}

theorem exists_content {p : Path} (h : IsDatabase fs p) : ∃ content, fs p = some (.file content) := by
  rcases h with ⟨db, hdb⟩ | hempty
  · exact ⟨_, hdb⟩
  · exact ⟨_, hempty⟩

/-- What a source has to be for `run` to begin. -/
def Ready (fs : Fs) (s : StoreSpec) : Prop := preflightSource ⟨s.name, readAt fs s.path⟩ = .ok ()

theorem preflight_run {s : StoreSpec} (h : IsDatabase fs s.path) :
    (preflight checks s).run fs =
      match checks s.path with
      | some check => .error (.precondition ("quick_check de " ++ s.name ++ ": " ++ check)) fs
      | none => (ofExcept (preflightSource ⟨s.name, readAt fs s.path⟩) : Prog Unit).run fs := by
  obtain ⟨content, hcontent⟩ := exists_content h
  unfold preflight
  rw [run_get_bind, hcontent]
  simp only [EStateM.run_bind, connect_run h]
  cases checks s.path with
  | none => rfl
  | some check => rfl

theorem preflight_ensures {s : StoreSpec} (h : IsDatabase fs s.path) :
    Ensures (· = fs) (preflight checks s) fun _ fs' => fs' = fs ∧ Ready fs s := by
  rintro fs₁ a fs₂ rfl hrun
  rw [preflight_run h] at hrun
  cases hcheck : checks s.path with
  | some check =>
    rw [hcheck] at hrun
    cases hrun
  | none =>
    rw [hcheck] at hrun
    unfold Ready
    cases hready : preflightSource ⟨s.name, readAt fs₁ s.path⟩ with
    | error e =>
      simp only [hready] at hrun
      cases hrun
    | ok _ =>
      simp only [hready] at hrun
      obtain ⟨-, rfl⟩ := EStateM.Result.ok.inj hrun
      exact ⟨rfl, rfl⟩

theorem preflight_returns {s : StoreSpec} (h : IsDatabase fs s.path) (hcheck : checks s.path = none)
    (hready : Ready fs s) : Returns (· = fs) (· = fs) (preflight checks s) () := by
  rintro fs₁ rfl
  refine ⟨fs₁, ?_, rfl⟩
  unfold Ready at hready
  rw [preflight_run h, hcheck]
  simp only [hready]
  rfl

/-! ### Counting -/

theorem Collects.unique {rows' : Rows} (h : Collects m fs rows) (h' : Collects m fs rows') :
    rows = rows' := by
  obtain ⟨states, conflicts, idempotency, deduplicated, outbox⟩ := rows
  obtain ⟨states', conflicts', idempotency', deduplicated', outbox'⟩ := rows'
  obtain ⟨rfl, rfl⟩ := Prod.mk.inj (Except.ok.inj (h.states.symm.trans h'.states))
  obtain ⟨rfl, rfl⟩ := Prod.mk.inj (Except.ok.inj (h.idempotency.symm.trans h'.idempotency))
  obtain rfl := Except.ok.inj (h.outbox.symm.trans h'.outbox)
  rfl

/-- Opening the sources changes nothing. -/
theorem openSources_run {specs : List StoreSpec} (hdb : ∀ s ∈ specs, IsDatabase fs s.path) :
    (openSources specs).run fs = .ok (specs.map fun s => ⟨s.name, readAt fs s.path⟩) fs := by
  induction specs with
  | nil => rfl
  | cons s specs ih =>
    unfold openSources
    rw [EStateM.run_bind, connect_run (hdb s List.mem_cons_self)]
    simp only [EStateM.run_bind, ih fun x hx => hdb x (List.mem_cons_of_mem _ hx)]
    rfl

section Count

variable (hdb : ∀ s ∈ m.sources, IsDatabase fs s.path)

include hdb

theorem collect_ensures_same {α : Type} {c : Call} {f : List Source → Except MigrationError α} :
    Ensures (· = fs) (collect faults m c f) fun a fs' => f (sourcesOf m fs) = .ok a ∧ fs' = fs := by
  refine Ensures.bind (J := fun _ fs' => fs' = fs) (call_ensures fun _ h => h) fun _ => ?_
  rintro fs₁ a fs₂ rfl hrun
  rw [EStateM.run_bind, openSources_run hdb] at hrun
  change (ofExcept (f (sourcesOf m fs₁)) : Prog α).run fs₁ = _ at hrun
  cases hf : f (sourcesOf m fs₁) with
  | error e =>
    rw [hf] at hrun
    cases hrun
  | ok b =>
    rw [hf] at hrun
    obtain ⟨rfl, rfl⟩ := EStateM.Result.ok.inj hrun
    exact ⟨rfl, rfl⟩

theorem collect_returns_same {α : Type} {c : Call} {f : List Source → Except MigrationError α} {a : α}
    (hc : faults c = none) (hf : f (sourcesOf m fs) = .ok a) :
    Returns (· = fs) (· = fs) (collect faults m c f) a := by
  refine Returns.bind (J := (· = fs)) (call_returns hc fun _ h => h) ?_
  rintro fs₁ rfl
  refine ⟨fs₁, ?_, rfl⟩
  rw [EStateM.run_bind, openSources_run hdb]
  change (ofExcept (f (sourcesOf m fs₁)) : Prog α).run fs₁ = _
  rw [hf]
  rfl

theorem countRows_ensures :
    Ensures (· = fs) (countRows T faults m) fun report fs' =>
      (∃ rows, Collects m fs rows ∧ report = countsOf T m rows) ∧ fs' = fs := by
  unfold countRows
  refine (collect_ensures_same hdb).bind fun states => ?_
  refine ((collect_ensures_same hdb).frame _).bind fun commands => ?_
  refine (((collect_ensures_same hdb).frame _).frame _).bind fun outbox => ?_
  refine (Ensures.pure _).mono fun report fs' h => ?_
  obtain ⟨rfl, hstates, hcommands, houtbox, hsame⟩ := h
  exact ⟨⟨_, ⟨hstates, hcommands, houtbox⟩, rfl⟩, hsame⟩

theorem countRows_returns (hstates : faults .collectStates = none)
    (hcommands : faults .collectIdempotency = none) (houtbox : faults .collectOutbox = none)
    (h : Collects m fs rows) :
    Returns (· = fs) (· = fs) (countRows T faults m) (countsOf T m rows) :=
  (collect_returns_same hdb hstates h.states).bind <|
    (collect_returns_same hdb hcommands h.idempotency).bind <|
      (collect_returns_same hdb houtbox h.outbox).bind <| Returns.pure _

end Count

/-! ### Checksums -/

theorem fileChecksum_ensures {i : ℕ} {p : Path} :
    Ensures (· = fs) (fileChecksum faults checksum i p) fun sum fs' =>
      (∃ content, fs p = some (.file content) ∧ sum = checksum content) ∧ fs' = fs := by
  unfold fileChecksum
  refine Ensures.bind (J := fun _ fs' => fs' = fs) (call_ensures fun _ h => h) fun _ => ?_
  rintro fs₁ sum fs₂ rfl hrun
  rw [run_get_bind] at hrun
  cases hp : fs₁ p with
  | none =>
    rw [hp] at hrun
    cases hrun
  | some node =>
    cases node with
    | dir =>
      rw [hp] at hrun
      cases hrun
    | file content =>
      rw [hp] at hrun
      obtain ⟨rfl, rfl⟩ := EStateM.Result.ok.inj hrun
      exact ⟨⟨content, rfl, rfl⟩, rfl⟩

theorem fileChecksum_returns {i : ℕ} {p : Path} {content : File} (hc : faults (.checksum i) = none)
    (hp : fs p = some (.file content)) :
    Returns (· = fs) (· = fs) (fileChecksum faults checksum i p) (checksum content) := by
  unfold fileChecksum
  refine Returns.bind (J := (· = fs)) (call_returns hc fun _ h => h) ?_
  rintro fs₁ rfl
  refine ⟨fs₁, ?_, rfl⟩
  rw [run_get_bind, hp]
  rfl

/-- A destination that is there, and what is done after it. -/
theorem validateDestinations_cons_run {d : StoreSpec × ℕ} {targets : List (StoreSpec × ℕ)}
    {sums : Dict String String} (h : IsDatabase fs d.1.path) :
    (validateDestinations faults checks checksum (d :: targets) sums).run fs =
      match checks d.1.path with
      | some check =>
        .error (.precondition ("integrity_check destino " ++ d.1.name ++ ": " ++ check)) fs
      | none => (fileChecksum faults checksum d.2 d.1.path >>= fun sum =>
          validateDestinations faults checks checksum targets (sums.insert d.1.name sum)).run fs := by
  obtain ⟨content, hcontent⟩ := exists_content h
  rw [validateDestinations, run_get_bind, hcontent]
  simp only [EStateM.run_bind, connect_run h]
  cases checks d.1.path with
  | none => rfl
  | some check => rfl

theorem validateDestinations_ensures {targets : List (StoreSpec × ℕ)} {sums : Dict String String}
    (hdb : ∀ d ∈ targets, IsDatabase fs d.1.path) :
    Ensures (· = fs) (validateDestinations faults checks checksum targets sums) fun found fs' =>
      found = targets.foldl (sumsOf checksum fs) sums ∧ fs' = fs := by
  induction targets generalizing sums with
  | nil => exact Ensures.pure _
  | cons d targets ih =>
    obtain ⟨hd, htargets⟩ := List.forall_mem_cons.1 hdb
    rintro fs₁ found fs₂ rfl hrun
    rw [validateDestinations_cons_run hd] at hrun
    cases hcheck : checks d.1.path with
    | some check =>
      rw [hcheck] at hrun
      cases hrun
    | none =>
      rw [hcheck] at hrun
      have hrest : Ensures (· = fs₁) (fileChecksum faults checksum d.2 d.1.path >>= fun sum =>
          validateDestinations faults checks checksum targets (sums.insert d.1.name sum))
          fun found fs' => found = (d :: targets).foldl (sumsOf checksum fs₁) sums ∧ fs' = fs₁ := by
        refine Ensures.bind fileChecksum_ensures fun sum => ?_
        rintro fs₃ found fs₄ ⟨⟨content, hcontent, rfl⟩, rfl⟩ hrun
        rw [List.foldl_cons, sumsOf, hcontent]
        exact ih htargets fs₃ found fs₄ rfl hrun
      exact hrest fs₁ found fs₂ rfl hrun

theorem validateDestinations_returns {targets : List (StoreSpec × ℕ)} {sums : Dict String String}
    (hdb : ∀ d ∈ targets, IsDatabase fs d.1.path) (hchecks : ∀ p, checks p = none)
    (hfaults : ∀ i, faults (.checksum i) = none) :
    Returns (· = fs) (· = fs) (validateDestinations faults checks checksum targets sums)
      (targets.foldl (sumsOf checksum fs) sums) := by
  induction targets generalizing sums with
  | nil => exact Returns.pure _
  | cons d targets ih =>
    obtain ⟨hd, htargets⟩ := List.forall_mem_cons.1 hdb
    obtain ⟨content, hcontent⟩ := exists_content hd
    rintro fs₁ rfl
    rw [validateDestinations_cons_run hd, hchecks, List.foldl_cons, sumsOf, hcontent]
    exact (fileChecksum_returns (hfaults d.2) hcontent).bind (ih htargets) fs₁ rfl

end Look

/-! ### After an execution -/

section Executed

variable {T : Tools} {faults : Call → Option Fault} {m : Manifest} {checksum : File → String}
  {fs fs₁ fs₂ : Fs} {rows : Rows} {sums : Dict String String}

theorem IsDatabase.congr {p q : Path} (h : IsDatabase fs₁ p) (hsame : fs₂ q = fs₁ p) :
    IsDatabase fs₂ q := by
  unfold IsDatabase
  rw [hsame]
  exact h

/-- Each temporary file is written as a database. -/
theorem isDatabase_flush (parts : Parts) {d : StoreSpec} (hd : d ∈ m.targetSpecs) :
    IsDatabase (flush T m parts fs) (temporaryPath T d.path) := by
  have hfold : ∀ (l : List (StoreSpec × ℕ)) (fs : Fs) (p : Path),
      (IsDatabase fs p ∨ ∃ d ∈ l, temporaryPath T d.1.path = p) →
      IsDatabase (l.foldl (fun fs d => writeFile (temporaryPath T d.1.path)
        (databaseFile d.1.name (parts d.2)) fs) fs) p := by
    intro l
    induction l with
    | nil =>
      rintro fs p (h | ⟨d, hd, -⟩)
      · exact h
      · cases hd
    | cons d l ih =>
      intro fs p h
      refine ih _ p ?_
      by_cases hp : temporaryPath T d.1.path = p
      · subst hp
        exact Or.inl (Or.inl ⟨_, Function.update_self ..⟩)
      · rcases h with h | ⟨e, he, hep⟩
        · exact Or.inl (h.congr (writeFile_of_ne (Ne.symm hp)))
        · rcases List.mem_cons.1 he with rfl | he
          · exact absurd hep hp
          · exact Or.inr ⟨e, he, hep⟩
  obtain ⟨i, hi, rfl⟩ := List.mem_iff_getElem.1 hd
  exact hfold _ fs _ (Or.inr ⟨(_, i), List.mem_zipIdx_iff_getElem?.2 (List.getElem?_eq_getElem hi), rfl⟩)

theorem writeOrRemove_databases :
    Ensures (fun _ => True) (writeOrRemove T faults m rows) fun _ fs' =>
      ∀ d ∈ m.targetSpecs, IsDatabase fs' (temporaryPath T d.path) := by
  have hopen : Ensures (fun _ => True) (Exec.loop (openTemp T faults) m.targetSpecs.zipIdx)
      fun _ _ => True := fun _ _ _ _ _ => trivial
  refine writeOrRemove_of_writeTemps ((writeTemps_ensures hopen).mono fun _ fs' hfs' => ?_)
  obtain ⟨parts, fs₁, -, -, rfl⟩ := hfs'
  exact fun d hd => isDatabase_flush parts hd

/-- The renames, with the destinations that are done and those that are left. -/
structure Publishing (T : Tools) (m : Manifest) (checksum : File → String) (fs : Fs)
    (done rest : List (StoreSpec × ℕ)) (sums : Dict String String) (fs' : Fs) : Prop where
  sources : ∀ s ∈ m.sources, fs' s.path = fs s.path
  published : ∀ d ∈ done, IsDatabase fs' d.1.path
  temporary : ∀ d ∈ rest, IsDatabase fs' (temporaryPath T d.1.path)
  checksums : sums = done.foldl (sumsOf checksum fs') Table.empty

section Publishing

variable (hsep : Separate T m fs) (hfresh : ∀ s ∈ m.sources, ∀ d ∈ m.targetSpecs, s.path ≠ d.path)
  {done rest : List (StoreSpec × ℕ)} {d : StoreSpec × ℕ}

include hsep hfresh

theorem Publishing.rename (hall : done ++ d :: rest = m.targetSpecs.zipIdx)
    (h : Publishing T m checksum fs done (d :: rest) sums fs₁) :
    let fs₂ := renameFile (temporaryPath T d.1.path) d.1.path fs₁
    Publishing T m checksum fs done rest sums fs₂ ∧ IsDatabase fs₂ d.1.path := by
  intro fs₂
  have hmem : ∀ e ∈ done ++ d :: rest, e.1 ∈ m.targetSpecs := fun e he =>
    List.fst_mem_of_mem_zipIdx (hall ▸ he)
  have hd := hmem d (List.mem_append_right _ List.mem_cons_self)
  -- Only the destination and its temporary file change.
  have hsame : ∀ p, p ≠ temporaryPath T d.1.path → p ≠ d.1.path → fs₂ p = fs₁ p :=
    fun p htemp hdest => renameFile_of_ne htemp hdest
  have houter : ∀ p ∈ m.outer, p ≠ temporaryPath T d.1.path := fun p hp heq =>
    hsep.apart _ (mem_temporaries hd) (heq ▸ hp)
  have hnodup : ((done ++ d :: rest).map fun e => temporaryPath T e.1.path).Nodup := by
    have hmap : m.targetSpecs.zipIdx.map (fun e => temporaryPath T e.1.path) = temporaries T m := by
      conv_rhs => rw [temporaries, ← List.zipIdx_map_fst 0 m.targetSpecs, List.map_map]
      rfl
    rw [hall, hmap]
    exact hsep.distinct
  rw [List.map_append, List.map_cons, List.nodup_append] at hnodup
  obtain ⟨-, hrest, hdone⟩ := hnodup
  have hdone' : ∀ e ∈ done, fs₂ e.1.path = fs₁ e.1.path := by
    intro e he
    refine hsame _ (houter _ (mem_outer_of_target (hmem e (List.mem_append_left _ he)))) fun heq => ?_
    exact hdone _ (List.mem_map_of_mem he) _ List.mem_cons_self (congrArg (temporaryPath T) heq)
  refine ⟨⟨fun s hs => ?_, fun e he => ?_, fun e he => ?_, ?_⟩, ?_⟩
  · rw [hsame _ (houter _ (mem_outer_of_source hs)) (hfresh s hs d.1 hd)]
    exact h.sources s hs
  · exact (h.published e he).congr (hdone' e he)
  · refine (h.temporary e (List.mem_cons_of_mem _ he)).congr (hsame _ (fun heq => ?_) fun heq => ?_)
    · exact (List.nodup_cons.1 hrest).1 (heq ▸ List.mem_map_of_mem he)
    · have htemp := mem_temporaries (T := T)
        (hmem e (List.mem_append_right _ (List.mem_cons_of_mem _ he)))
      exact hsep.apart _ htemp (heq ▸ mem_outer_of_target hd)
  · rw [h.checksums]
    refine List.foldl_ext _ _ _ fun sums e he => ?_
    rw [sumsOf, sumsOf, hdone' e he]
  · obtain ⟨content, hcontent⟩ := exists_content (h.temporary d List.mem_cons_self)
    have hdest : fs₂ d.1.path = fs₁ (temporaryPath T d.1.path) := by
      show renameFile _ _ fs₁ _ = _
      rw [renameFile, hcontent]
      exact (Function.update_of_ne (houter _ (mem_outer_of_target hd)) _ _).trans
        (Function.update_self ..)
    exact (h.temporary d List.mem_cons_self).congr hdest

theorem publishAll_ensures_sums (hall : done ++ rest = m.targetSpecs.zipIdx) :
    Ensures (Publishing T m checksum fs done rest sums) (publishAll T faults checksum rest sums)
      fun sums fs' => Publishing T m checksum fs m.targetSpecs.zipIdx [] sums fs' := by
  induction rest generalizing done sums with
  | nil =>
    rw [List.append_nil] at hall
    subst hall
    exact (Ensures.pure _).mono fun sums' fs' h => h.1 ▸ h.2
  | cons d rest ih =>
    refine Ensures.bind (J := fun _ fs' => Publishing T m checksum fs done rest sums fs' ∧
      IsDatabase fs' d.1.path) (call_ensures fun fs' h => h.rename hsep hfresh hall) fun _ => ?_
    rintro fs₁ found fs₂ ⟨hpub, hdb⟩ hrun
    have hrest : Ensures (· = fs₁) (fileChecksum faults checksum d.2 d.1.path >>= fun sum =>
        publishAll T faults checksum rest (sums.insert d.1.name sum))
        fun sums fs' => Publishing T m checksum fs m.targetSpecs.zipIdx [] sums fs' := by
      refine Ensures.bind fileChecksum_ensures fun sum => ?_
      rintro fs₃ found fs₄ ⟨⟨content, hcontent, rfl⟩, rfl⟩ hrun
      have hall' : (done ++ [d]) ++ rest = m.targetSpecs.zipIdx := by
        rw [List.append_assoc]
        exact hall
      refine ih hall' fs₃ found fs₄ ?_ hrun
      refine ⟨hpub.sources, fun e he => ?_, hpub.temporary, ?_⟩
      · rcases List.mem_append.1 he with he | he
        · exact hpub.published e he
        · rw [List.mem_singleton.1 he]
          exact hdb
      · rw [List.foldl_append, ← hpub.checksums, List.foldl_cons, List.foldl_nil, sumsOf, hcontent]
    exact hrest fs₁ found fs₂ rfl hrun

end Publishing

/-- What an execution that returns has written. -/
structure Executed (T : Tools) (m : Manifest) (checksum : File → String) (fs : Fs) (rows : Rows)
    (sums : Dict String String) (fs' : Fs) : Prop where
  collects : Collects m fs rows
  report : fs' (reportPath m) = some (.file (.report (reportOf T.hash m.operation m.targetNames
    (m.sources.map (·.name)) rows.states rows.conflicts rows.idempotency rows.deduplicated
    rows.outbox) sums))
  publishing : Publishing T m checksum fs m.targetSpecs.zipIdx [] sums fs'

/-- The report is written beside the sources and destinations. -/
theorem Publishing.report {done : List (StoreSpec × ℕ)} {content : File}
    (hreport : reportPath m ∉ m.outer) (hdone : ∀ d ∈ done, d.1 ∈ m.targetSpecs)
    (h : Publishing T m checksum fs done [] sums fs₁) :
    Publishing T m checksum fs done [] sums (writeFile (reportPath m) content fs₁) := by
  have hsame : ∀ p ∈ m.outer, writeFile (reportPath m) content fs₁ p = fs₁ p := fun p hp =>
    writeFile_of_ne fun heq => hreport (heq ▸ hp)
  have hdests : ∀ d ∈ done, writeFile (reportPath m) content fs₁ d.1.path = fs₁ d.1.path :=
    fun d hd => hsame _ (mem_outer_of_target (hdone d hd))
  refine ⟨fun s hs => ?_, fun d hd => ?_, fun d hd => absurd hd List.not_mem_nil, ?_⟩
  · exact (hsame _ (mem_outer_of_source hs)).trans (h.sources s hs)
  · exact (h.published d hd).congr (hdests d hd)
  · rw [h.checksums]
    refine List.foldl_ext _ _ _ fun sums d hd => ?_
    rw [sumsOf, sumsOf, hdests d hd]

theorem executed_of_ok (hdb : ∀ s ∈ m.sources, IsDatabase fs s.path) (hsep : Separate T m fs)
    (hreport : reportPath m ∉ m.outer) {fs' : Fs}
    (h : (Migrate.execute T faults m checksum).run fs = .ok () fs') :
    ∃ rows sums, Executed T m checksum fs rows sums fs' := by
  obtain ⟨rows, hprepared⟩ : ∃ rows, Prepared faults m fs rows := by
    by_contra hno
    obtain ⟨e, fs₁, hrun, -⟩ := execute_of_not_prepared hsep hdb (fun rows hrows => hno ⟨rows, hrows⟩)
      checksum
    rw [h] at hrun
    cases hrun
  have hwrites : Writes T faults m rows := by
    by_contra hno
    obtain ⟨e, fs₁, hrun, -⟩ := execute_of_not_writes hsep hdb hprepared hno checksum
    rw [h] at hrun
    cases hrun
  have hfresh : ∀ s ∈ m.sources, ∀ d ∈ m.targetSpecs, s.path ≠ d.path := by
    intro s hs d hd heq
    obtain ⟨content, hcontent⟩ := exists_content (hdb s hs)
    have hnone := hprepared.destinations d hd
    rw [← heq, hcontent] at hnone
    cases hnone
  obtain ⟨fs₁, hprepare, hfs₁⟩ := prepare_returns hsep hdb hprepared fs fun _ _ => rfl
  obtain ⟨fs₂, hwrite, hfs₂⟩ := writeOrRemove_returns hsep hwrites fs₁ (Left.of_agrees hsep hfs₁)
  have htemps := writeOrRemove_databases fs₁ () fs₂ trivial hwrite
  have hstart : Publishing T m checksum fs [] m.targetSpecs.zipIdx Table.empty fs₂ :=
    ⟨fun s hs => hfs₂.outer _ (mem_outer_of_source hs), fun d hd => absurd hd List.not_mem_nil,
      fun d hd => htemps d.1 (List.fst_mem_of_mem_zipIdx hd), rfl⟩
  have hrun : (publish T faults m checksum rows).run fs₂ = .ok () fs' := by
    rw [← h]
    unfold Migrate.execute
    rw [EStateM.run_bind, hprepare]
    simp only [EStateM.run_bind, hwrite]
  obtain ⟨fs₃, sums, hpublished, rfl⟩ := publish_ensures
    (publishAll_ensures_sums hsep hfresh (List.nil_append _)) fs₂ () fs' hstart hrun
  refine ⟨rows, sums, ⟨hprepared.states.2, hprepared.idempotency.2, hprepared.outbox.2⟩, ?_, ?_⟩
  · exact Function.update_self ..
  · exact hpublished.report hreport fun d hd => List.fst_mem_of_mem_zipIdx hd

end Executed

/-! ### Runs -/

section Run

variable {T : Tools} {faults : Call → Option Fault} {checks : Path → Option String} {m : Manifest}
  {checksum : File → String} {fs fs' : Fs} {rows : Rows} {sums : Dict String String} {mode : Mode}

theorem ofExcept_ensures {I : Fs → Prop} {α : Type} {x : Except MigrationError α} :
    Ensures I (ofExcept x) fun a fs' => x = .ok a ∧ I fs' := by
  intro fs₁ a fs₂ hfs₁ hrun
  cases x with
  | error e => cases hrun
  | ok b =>
    obtain ⟨rfl, rfl⟩ := EStateM.Result.ok.inj hrun
    exact ⟨rfl, hfs₁⟩

/-- A run begins without changing anything. -/
theorem Mode.run_ensures {J : Report × Dict String String → Fs → Prop}
    (hdb : ∀ s ∈ m.sources, IsDatabase fs s.path)
    (hwork : validateManifest T m = .ok () → (∀ s ∈ m.sources, Ready fs s) →
      Ensures (· = fs) (mode.work T faults checks m checksum) J) :
    Ensures (· = fs) (mode.run T faults checks m checksum) J := by
  unfold Mode.run
  refine ofExcept_ensures.bind fun _ => ?_
  refine ((Ensures.loop fun s hs => preflight_ensures (hdb s hs)).frame _).bind fun _ => ?_
  rintro fs₁ found fs₂ ⟨hvalid, hsame, hready⟩ hrun
  exact hwork hvalid hready fs₁ found fs₂ hsame hrun

theorem Mode.run_returns {found : Report × Dict String String}
    (hdb : ∀ s ∈ m.sources, IsDatabase fs s.path) (hvalid : validateManifest T m = .ok ())
    (hready : ∀ s ∈ m.sources, Ready fs s) (hchecks : ∀ p, checks p = none)
    (hwork : Returns (· = fs) (· = fs) (mode.work T faults checks m checksum) found) :
    Returns (· = fs) (· = fs) (mode.run T faults checks m checksum) found := by
  unfold Mode.run
  rw [hvalid]
  refine (Returns.pure ()).bind (Returns.bind (Returns.loop fun s hs => ?_) hwork)
  exact preflight_returns (hdb s hs) (hchecks s.path) (hready s hs)

theorem plan_ensures (hdb : ∀ s ∈ m.sources, IsDatabase fs s.path) :
    Ensures (· = fs) (Mode.plan.run T faults checks m checksum) fun found fs' =>
      (∃ rows, Collects m fs rows ∧ found = (countsOf T m rows, Table.empty)) ∧ fs' = fs := by
  refine Mode.run_ensures hdb fun _ _ => (countRows_ensures hdb).bind fun report => ?_
  refine (Ensures.pure _).mono fun found fs' h => ?_
  obtain ⟨rfl, ⟨rows, hrows, rfl⟩, hsame⟩ := h
  exact ⟨⟨rows, hrows, rfl⟩, hsame⟩

theorem verify_ensures (hdb : ∀ s ∈ m.sources, IsDatabase fs s.path)
    (hdests : ∀ d ∈ m.targetSpecs.zipIdx, IsDatabase fs d.1.path) :
    Ensures (· = fs) (Mode.verify.run T faults checks m checksum) fun found fs' =>
      (∃ rows, Collects m fs rows ∧ found = (countsOf T m rows,
        m.targetSpecs.zipIdx.foldl (sumsOf checksum fs) Table.empty)) ∧ fs' = fs := by
  refine Mode.run_ensures hdb fun _ _ => (countRows_ensures hdb).bind fun report => ?_
  refine ((validateDestinations_ensures hdests).frame _).bind fun found => ?_
  refine (Ensures.pure _).mono fun found fs' h => ?_
  obtain ⟨rfl, ⟨rows, hrows, rfl⟩, rfl, hsame⟩ := h
  exact ⟨⟨rows, hrows, rfl⟩, hsame⟩

/-- The report of a successful execution is the one that is written. -/
theorem execute_ensures_written (hdb : ∀ s ∈ m.sources, IsDatabase fs s.path) (hsep : Separate T m fs)
    (hreport : reportPath m ∉ m.outer) :
    Ensures (· = fs) (Mode.execute.run T faults checks m checksum) fun found fs' =>
      validateManifest T m = .ok () ∧ (∀ s ∈ m.sources, Ready fs s) ∧
        ∃ rows, Executed T m checksum fs rows found.2 fs' ∧ found.1.counts = countsOf T m rows := by
  refine Mode.run_ensures hdb fun hvalid hready => ?_
  rintro fs₁ found fs₂ rfl hrun
  unfold Mode.work at hrun
  rw [EStateM.run_bind] at hrun
  cases hexecute : (Migrate.execute T faults m checksum).run fs₁ with
  | error e fs₃ =>
    simp only [hexecute] at hrun
    cases hrun
  | ok a fs₃ =>
    obtain ⟨rows, sums, hexecuted⟩ := executed_of_ok hdb hsep hreport hexecute
    simp only [hexecute] at hrun
    unfold writtenReport at hrun
    rw [run_get_bind, hexecuted.report] at hrun
    obtain ⟨rfl, rfl⟩ := EStateM.Result.ok.inj hrun
    exact ⟨hvalid, hready, rows, hexecuted, rfl⟩

end Run

/-- **The modes agree.**  Let an execution succeed, whatever it met on the way.  A plan on the files from
before it that succeeds reports the same counts, and a verification on the files that it leaves reports
the same counts and, for the destinations, the checksums that were recorded.  Neither changes a file,
and if no call fails and SQLite finds nothing wrong with a file then both succeed. -/
theorem modes_agree (T : Tools) (faults : Call → Option Fault) (checks : Path → Option String)
    (m : Manifest) (checksum : File → String) (fs fs' : Fs) (report : Report)
    (sums : Dict String String) (hdb : ∀ s ∈ m.sources, IsDatabase fs s.path)
    (hsep : Separate T m fs) (hreport : reportPath m ∉ m.outer)
    (hrun : (Mode.execute.run T faults checks m checksum).run fs = .ok (report, sums) fs') :
    (∀ faults' checks' found fs'',
      (Mode.plan.run T faults' checks' m checksum).run fs = .ok found fs'' →
      found = (report.counts, Table.empty) ∧ fs'' = fs) ∧
    (∀ faults' checks' found fs'',
      (Mode.verify.run T faults' checks' m checksum).run fs' = .ok found fs'' →
      found = (report.counts, sums) ∧ fs'' = fs') ∧
    (Mode.plan.run T (fun _ => none) (fun _ => none) m checksum).run fs =
      .ok (report.counts, Table.empty) fs ∧
    (Mode.verify.run T (fun _ => none) (fun _ => none) m checksum).run fs' =
      .ok (report.counts, sums) fs' := by
  obtain ⟨hvalid, hready, rows, hexecuted, hcounts⟩ :=
    execute_ensures_written hdb hsep hreport fs _ fs' rfl hrun
  have hpub : Publishing T m checksum fs m.targetSpecs.zipIdx [] sums fs' := hexecuted.publishing
  have hcounts' : report.counts = countsOf T m rows := hcounts
  -- The sources are the same after the execution, so the rows are.
  have hread : ∀ s ∈ m.sources, readAt fs' s.path = readAt fs s.path := fun s hs => by
    rw [readAt, readAt, hpub.sources s hs]
  have hdb' : ∀ s ∈ m.sources, IsDatabase fs' s.path := fun s hs => (hdb s hs).congr (hpub.sources s hs)
  have hready' : ∀ s ∈ m.sources, Ready fs' s := fun s hs => by
    rw [Ready, hread s hs]
    exact hready s hs
  have hsources : sourcesOf m fs' = sourcesOf m fs :=
    List.map_congr_left fun s hs => by rw [hread s hs]
  have hcollects : Collects m fs' rows := by
    obtain ⟨hstates, hcommands, houtbox⟩ := hexecuted.collects
    rw [← hsources] at hstates hcommands houtbox
    exact ⟨hstates, hcommands, houtbox⟩
  rw [hcounts']
  refine ⟨fun faults' checks' found fs'' hplan => ?_, fun faults' checks' found fs'' hverify => ?_,
    ?_, ?_⟩
  · obtain ⟨⟨rows', hrows', rfl⟩, hsame⟩ := plan_ensures hdb fs found fs'' rfl hplan
    rw [hrows'.unique hexecuted.collects]
    exact ⟨rfl, hsame⟩
  · obtain ⟨⟨rows', hrows', rfl⟩, hsame⟩ := verify_ensures hdb' hpub.published fs' found fs'' rfl hverify
    rw [hrows'.unique hcollects, ← hpub.checksums]
    exact ⟨rfl, hsame⟩
  · have hplan : Returns (· = fs) (· = fs)
        (Mode.plan.work T (fun _ => none) (fun _ => none) m checksum)
        (countsOf T m rows, Table.empty) :=
      (countRows_returns hdb rfl rfl rfl hexecuted.collects).bind (Returns.pure _)
    obtain ⟨fs'', hreturns, rfl⟩ := Mode.run_returns hdb hvalid hready (fun _ => rfl) hplan fs rfl
    exact hreturns
  · have hverify : Returns (· = fs') (· = fs')
        (Mode.verify.work T (fun _ => none) (fun _ => none) m checksum)
        (countsOf T m rows, m.targetSpecs.zipIdx.foldl (sumsOf checksum fs') Table.empty) :=
      (countRows_returns hdb' rfl rfl rfl hcollects).bind <|
        (validateDestinations_returns hpub.published (fun _ => rfl) fun _ => rfl).bind (Returns.pure _)
    obtain ⟨fs'', hreturns, rfl⟩ := Mode.run_returns hdb' hvalid hready' (fun _ => rfl) hverify fs' rfl
    rw [hpub.checksums]
    exact hreturns

/-- The split of `sampleSplit`, with its plan and its verification. -/
theorem modes_agree_of_a_split :
    ∃ report sums fs',
      (Mode.execute.run sampleTools (fun _ => none) (fun _ => none) sampleSplit fun _ => "0a").run
        sampleFiles = .ok (report, sums) fs' ∧ report.payloadRows = 1 ∧
      sums.get "left" = some "0a" ∧
      (Mode.plan.run sampleTools (fun _ => none) (fun _ => none) sampleSplit fun _ => "0a").run
        sampleFiles = .ok (report.counts, Table.empty) sampleFiles ∧
      (Mode.verify.run sampleTools (fun _ => none) (fun _ => none) sampleSplit fun _ => "0a").run
        fs' = .ok (report.counts, sums) fs' := by
  obtain ⟨report, sums, fs', hrun, hrows, hleft⟩ : ∃ report sums fs',
      (Mode.execute.run sampleTools (fun _ => none) (fun _ => none) sampleSplit fun _ => "0a").run
        sampleFiles = .ok (report, sums) fs' ∧ report.payloadRows = 1 ∧
      sums.get "left" = some "0a" := ⟨_, _, _, rfl, by decide +kernel, by decide +kernel⟩
  obtain ⟨-, -, hplan, hverify⟩ := modes_agree sampleTools (fun _ => none) (fun _ => none) sampleSplit
    (fun _ => "0a") sampleFiles fs' report sums isDatabase_sampleFiles separate_sampleSplit
    (by decide +kernel) hrun
  exact ⟨report, sums, fs', hrun, hrows, hleft, hplan, hverify⟩

end Migrate

end Ixmati
