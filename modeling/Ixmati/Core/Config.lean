import Ixmati.Lib.Exec
import Ixmati.Lib.Text
import Mathlib.Data.List.Dedup

/-!
# The configuration of the stores

`Config` and `StoreConfig` of `config.rs`, with the fields that `validate` looks at.

* `Config.validate_ok_iff` : what `validate` accepts;
* `Config.validate_error` : the first store with a bad name hides the other complaints, which come all
  together otherwise.
-/

namespace Ixmati

/-- `StoreConfig`. -/
structure StoreConfig where
  name : String
  dbPath : String
  batchSize : ℕ
  deriving DecidableEq

/-- `Config`. -/
structure Config where
  stores : List StoreConfig

namespace StoreConfig

variable (store : StoreConfig)

/-- The complaints of `validate_name`. -/
def nameErrors : List String :=
  (if '/' ∈ store.name.toList then ["store '" ++ store.name ++ "': name must not contain '/'"]
    else []) ++
  if store.name.toList.any isWhitespace then
    ["store '" ++ store.name ++ "': name must not contain whitespace"]
  else []

/-- `validate_name`. -/
def validateName : Except (List String) Unit :=
  if store.nameErrors = [] then .ok () else .error store.nameErrors

/-- The complaints that `validate` collects. -/
def fieldErrors : List String :=
  (if store.name = "" then ["store name must not be empty"] else []) ++
  (if store.dbPath = "" then ["store '" ++ store.name ++ "': db_path must not be empty"] else []) ++
  if store.batchSize = 0 then ["store '" ++ store.name ++ "': batch_size must be positive"] else []

theorem nameErrors_eq_nil :
    store.nameErrors = [] ↔
      '/' ∉ store.name.toList ∧ ∀ c ∈ store.name.toList, isWhitespace c = false := by
  unfold nameErrors
  split_ifs with hslash hspace hspace <;> simp_all

end StoreConfig

namespace Config

/-- The loop of `validate`, which a bad name ends at once. -/
def validateStores : List String → List StoreConfig → Except (List String) (List String)
  | errors, [] => .ok errors
  | errors, store :: stores => do
    store.validateName
    validateStores (errors ++ store.fieldErrors) stores

/-- The complaints about the list as a whole. -/
def listErrors (config : Config) : List String :=
  (if config.stores = [] then ["at least one store required"] else []) ++
  if (config.stores.map (·.name)).dedup.length ≠ config.stores.length then
    ["duplicate store names"]
  else []

/-- `validate`. -/
def validate (config : Config) : Except (List String) Unit := do
  let errors ← validateStores config.listErrors config.stores
  if errors = [] then .ok () else .error errors

variable {config : Config}

theorem validateStores_eq_ok {errors result : List String} {stores : List StoreConfig} :
    validateStores errors stores = .ok result ↔
      (∀ store ∈ stores, store.nameErrors = []) ∧
        result = errors ++ stores.flatMap StoreConfig.fieldErrors := by
  induction stores generalizing errors with
  | nil =>
    simp only [validateStores, Except.ok.injEq, List.not_mem_nil, false_implies, implies_true,
      List.flatMap_nil, List.append_nil, true_and]
    exact eq_comm
  | cons store stores ih =>
    rw [validateStores, StoreConfig.validateName]
    split_ifs with hname
    · simp only [bind, Except.bind, ih, List.mem_cons, forall_eq_or_imp, hname, true_and,
        List.flatMap_cons, List.append_assoc]
    · simp [bind, Except.bind, hname]

theorem dedup_length_eq_iff {names : List String} :
    names.dedup.length = names.length ↔ names.Nodup := by
  rw [← List.dedup_eq_self]
  exact ⟨(List.dedup_sublist names).eq_of_length, congrArg List.length⟩

theorem listErrors_eq_nil :
    config.listErrors = [] ↔ config.stores ≠ [] ∧ (config.stores.map (·.name)).Nodup := by
  have hdedup : (config.stores.map (·.name)).dedup.length = config.stores.length ↔
      (config.stores.map (·.name)).Nodup := by
    rw [← dedup_length_eq_iff, List.length_map]
  unfold listErrors
  simp only [ne_eq, hdedup]
  split_ifs <;> simp_all

/-- **What `validate` accepts**: at least one store, no name twice, and for each store a name without
slash and white space, a path and a batch size. -/
theorem validate_ok_iff :
    config.validate = .ok () ↔
      config.stores ≠ [] ∧ (config.stores.map (·.name)).Nodup ∧
        ∀ store ∈ config.stores, store.nameErrors = [] ∧ store.fieldErrors = [] := by
  unfold validate
  rw [except_bind_ok]
  simp only [validateStores_eq_ok]
  constructor
  · rintro ⟨errors, ⟨hnames, herrors⟩, hok⟩
    split_ifs at hok with hnil
    rw [herrors, List.append_eq_nil_iff, List.flatMap_eq_nil_iff] at hnil
    obtain ⟨hlist, hfields⟩ := hnil
    obtain ⟨hne, hnd⟩ := listErrors_eq_nil.1 hlist
    exact ⟨hne, hnd, fun store hs => ⟨hnames store hs, hfields store hs⟩⟩
  · rintro ⟨hne, hnd, hall⟩
    have hlist := listErrors_eq_nil.2 ⟨hne, hnd⟩
    have hfields : config.stores.flatMap StoreConfig.fieldErrors = [] :=
      List.flatMap_eq_nil_iff.2 fun store hs => (hall store hs).2
    exact ⟨[], ⟨fun store hs => (hall store hs).1, by rw [hlist, hfields]; rfl⟩, if_pos rfl⟩

theorem validateStores_error {errors : List String} {front back : List StoreConfig}
    {store : StoreConfig} (hfront : ∀ s ∈ front, s.nameErrors = []) (hbad : store.nameErrors ≠ []) :
    validateStores errors (front ++ store :: back) = .error store.nameErrors := by
  induction front generalizing errors with
  | nil => simp [validateStores, StoreConfig.validateName, hbad, bind, Except.bind]
  | cons s front ih =>
    have hs := hfront s (List.mem_cons_self ..)
    rw [List.cons_append, validateStores, StoreConfig.validateName, if_pos hs]
    exact ih fun x hx => hfront x (List.mem_cons_of_mem _ hx)

/-- **What `validate` complains about**: the first bad name alone, if there is one, and else everything
else together. -/
theorem validate_error :
    (∀ front store back, config.stores = front ++ store :: back →
      (∀ s ∈ front, s.nameErrors = []) → store.nameErrors ≠ [] →
      config.validate = .error store.nameErrors) ∧
    ((∀ store ∈ config.stores, store.nameErrors = []) → config.validate ≠ .ok () →
      config.validate = .error
        (config.listErrors ++ config.stores.flatMap StoreConfig.fieldErrors)) := by
  refine ⟨fun front store back hsplit hfront hbad => ?_, fun hnames hno => ?_⟩
  · rw [validate, hsplit, validateStores_error hfront hbad]
    rfl
  · have hok : validateStores config.listErrors config.stores =
        .ok (config.listErrors ++ config.stores.flatMap StoreConfig.fieldErrors) :=
      validateStores_eq_ok.2 ⟨hnames, rfl⟩
    rw [validate, hok] at hno ⊢
    simp only [bind, Except.bind] at hno ⊢
    split_ifs at hno ⊢ with hnil
    · exact absurd rfl hno
    · rfl

end Config

end Ixmati
