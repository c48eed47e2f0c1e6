import Ixmati.Projector.Loop
import Ixmati.Projector.Sendable
import Mathlib.Data.List.MinMax

/-!
# Events in any order

The loop of the projector gets a set of events, each at least once and in any order.  The version guard
drops an event once a newer one on its row has been let through, so the newest event of each row is
carried out and nothing of its row after it; older ones may or may not be carried out before it.  The
cache is the same in the end if what older events do is done again by the newest one, what the newest
events of different rows do does not depend on their order (`Stable`), and all keys can be sent to the
cache (`Sent`).

The invariant (`Settling`) is that an entry already has the value that a newest event gives it, or a
newest event is still to come that will write it, or it is as it was and no newest event is about it.
-/

namespace Ixmati

open Cache (Entries)

namespace Projector

/-- No event of the row is newer. -/
def Newest (events : List EventEnvelope) (event : EventEnvelope) : Prop :=
  event ∈ events ∧ ∀ x ∈ events, versionKey x = versionKey event → x.version ≤ event.version

theorem exists_newest {events : List EventEnvelope} {event : EventEnvelope} (h : event ∈ events) :
    ∃ n, Newest events n ∧ versionKey n = versionKey event := by
  cases hmax : (events.filter fun x => decide (versionKey x = versionKey event)).argmax
      fun x => x.version.toNat with
  | none =>
    rw [List.argmax_eq_none, List.filter_eq_nil_iff] at hmax
    exact absurd (decide_eq_true rfl) (hmax event h)
  | some n =>
    have hmem := List.argmax_mem hmax
    rw [List.mem_filter, decide_eq_true_iff] at hmem
    refine ⟨n, ⟨hmem.1, fun x hx hrow => ?_⟩, hmem.2⟩
    have hle := List.le_of_mem_argmax (f := fun x : EventEnvelope => x.version.toNat)
      (List.mem_filter.2 ⟨hx, by simpa using hrow.trans hmem.2⟩) hmax
    exact UInt64.le_iff_toNat_le.2 hle

section

variable (D : Deps) (ops : EventEnvelope → List Operation) (c₀ : Entries) (events : List EventEnvelope)

/-- An event registers the target. -/
def Registers (index target : String) : Prop :=
  ∃ event ∈ events, Operation.register index target ∈ ops event

/-- The target may be found in the reverse index. -/
def MayList (index target : String) : Prop :=
  target ∈ dependents D c₀ index ∨ Registers ops events index target

/-- The event gives the entry the value, by itself or for a target that it may find. -/
def Gives (event : EventEnvelope) (key : String) (value : Option Bytes) : Prop :=
  Operation.write key value ∈ ops event ∨
    ∃ index entry target, Operation.refresh index entry ∈ ops event ∧
      MayList D ops c₀ events index target ∧ entry target = (key, value)

/-- The order of the events does not matter. -/
structure Stable : Prop where
  /-- The newest event of a row writes every entry that an event of the row writes. -/
  keeps_entries : ∀ event ∈ events, ∀ n, Newest events n → versionKey n = versionKey event →
    ∀ key value, Operation.write key value ∈ ops event →
      ∃ value', Operation.write key value' ∈ ops n
  /-- It registers every target that an event of the row registers. -/
  keeps_references : ∀ event ∈ events, ∀ n, Newest events n → versionKey n = versionKey event →
    ∀ index target, Operation.register index target ∈ ops event →
      Operation.register index target ∈ ops n
  /-- Newest events of different rows do not give one entry different values. -/
  one_value : ∀ n n', Newest events n → Newest events n' → ∀ key value value',
    Gives D ops c₀ events n key value → Gives D ops c₀ events n' key value' → value = value'
  /-- No two targets are registered in one entry of the reverse index. -/
  one_target : ∀ index target target', Registers ops events index target →
    Registers ops events index target' → target = target'
  /-- The entry of a target that is registered is written not only when it is refreshed. -/
  entered : ∀ n, Newest events n → ∀ index entry target, Operation.refresh index entry ∈ ops n →
    Registers ops events index target →
      ∃ n' value, Newest events n' ∧ Operation.write (entry target).1 value ∈ ops n'

end

variable {D : Deps} {ops : EventEnvelope → List Operation} {c₀ : Entries}
  {events : List EventEnvelope} {event : EventEnvelope}

/-! ### What operations do to the reverse index -/

/-- Nothing but a target of an event has been added to an entry of the reverse index. -/
def Indexed (D : Deps) (ops : EventEnvelope → List Operation) (c₀ : Entries)
    (events : List EventEnvelope) (e : Entries) : Prop :=
  ∀ index, IsIndex index → e index = c₀ index ∨
    ∃ target, Registers ops events index target ∧ e index = registerIn D (c₀ index) target

section Index

variable (hkeyed : ∀ event ∈ events, ∀ op ∈ ops event, op.Keyed)
  (hone : ∀ index target target', Registers ops events index target →
    Registers ops events index target' → target = target')
  (hserde : ∀ index target, Registers ops events index target → ReadsList D (c₀ index) target)

include hone hserde in
/-- A target that is registered is in the entry afterwards, whatever was done before. -/
theorem Indexed.register {e : Entries} (h : Indexed D ops c₀ events e) {index target : String}
    (hindex : IsIndex index) (hreg : Registers ops events index target) :
    registerIn D (e index) target = registerIn D (c₀ index) target := by
  rcases h index hindex with heq | ⟨target', hreg', heq⟩
  · rw [heq]
  · obtain rfl := hone index target target' hreg hreg'
    rw [heq, registerIn_registerIn (hserde index target hreg)]

include hkeyed hone hserde in
/-- An operation changes an entry of the reverse index by registering the one target of it. -/
theorem Indexed.apply_eq {e : Entries} (h : Indexed D ops c₀ events e) (hev : event ∈ events)
    {op : Operation} (hop : op ∈ ops event) {index : String} (hindex : IsIndex index) :
    op.apply D e index = e index ∨
      ∃ target, op = .register index target ∧ Registers ops events index target ∧
        op.apply D e index = registerIn D (c₀ index) target := by
  by_cases hreg : ∃ target, op = .register index target
  · obtain ⟨target, rfl⟩ := hreg
    have hreg : Registers ops events index target := ⟨event, hev, hop⟩
    refine Or.inr ⟨target, rfl, hreg, ?_⟩
    rw [apply_register, Function.update_self, h.register hone hserde hindex hreg]
  · exact Or.inl (apply_index (hkeyed event hev op hop) e hindex fun target heq => hreg ⟨target, heq⟩)

include hkeyed hone hserde in
theorem Indexed.apply {e : Entries} (h : Indexed D ops c₀ events e) (hev : event ∈ events)
    {op : Operation} (hop : op ∈ ops event) : Indexed D ops c₀ events (op.apply D e) := by
  intro index hindex
  rcases h.apply_eq hkeyed hone hserde hev hop hindex with heq | ⟨target, -, hreg, heq⟩
  · rw [heq]
    exact h index hindex
  · exact Or.inr ⟨target, hreg, heq⟩

include hkeyed hone hserde in
/-- What is registered stays. -/
theorem Indexed.registered_apply {e : Entries} (h : Indexed D ops c₀ events e) (hev : event ∈ events)
    {op : Operation} (hop : op ∈ ops event) {index target : String} (hindex : IsIndex index)
    (hreg : Registers ops events index target)
    (heq : e index = registerIn D (c₀ index) target) :
    op.apply D e index = registerIn D (c₀ index) target := by
  rcases h.apply_eq hkeyed hone hserde hev hop hindex with hsame | ⟨target', -, hreg', hnew⟩
  · rw [hsame, heq]
  · rw [hnew, hone index target' target hreg' hreg]

include hserde in
/-- The targets that an entry may list. -/
theorem Indexed.mayList {e : Entries} (h : Indexed D ops c₀ events e) {index target : String}
    (hindex : IsIndex index) (hmem : target ∈ dependents D e index) :
    MayList D ops c₀ events index target := by
  change target ∈ targetsIn D (e index) at hmem
  rcases h index hindex with heq | ⟨target', hreg, heq⟩
  · rw [heq] at hmem
    exact Or.inl hmem
  · rw [heq] at hmem
    rcases targetsIn_registerIn (hserde index target' hreg) with hl | hl
    · rw [hl] at hmem
      exact Or.inl hmem
    · rw [hl, List.mem_append, List.mem_singleton] at hmem
      rcases hmem with hmem | rfl
      · exact Or.inl hmem
      · exact Or.inr hreg

include hkeyed hone hserde in
/-- An operation removes no target. -/
theorem Indexed.dependents_subset {e : Entries} (h : Indexed D ops c₀ events e)
    (hev : event ∈ events) {op : Operation} (hop : op ∈ ops event) {index target : String}
    (hindex : IsIndex index) (hmem : target ∈ dependents D e index) :
    target ∈ dependents D (op.apply D e) index := by
  change target ∈ targetsIn D (e index) at hmem
  change target ∈ targetsIn D (op.apply D e index)
  rcases h.apply_eq hkeyed hone hserde hev hop hindex with hsame | ⟨target', -, hreg, hnew⟩
  · rw [hsame]
    exact hmem
  · rw [hnew]
    rcases h index hindex with heq | ⟨target'', hreg'', heq⟩
    · rw [heq] at hmem
      rcases targetsIn_registerIn (hserde index target' hreg) with hl | hl
      · rw [hl]
        exact hmem
      · rw [hl]
        exact List.mem_append_left _ hmem
    · rwa [hone index target' target'' hreg hreg'', ← heq]

end Index

/-! ### What the operations of an event do to an entry -/

/-- The operations write the entry, if they find the reverse index as it is in `e`. -/
def Touches (D : Deps) (l : List Operation) (e : Entries) (key : String) : Prop :=
  (∃ value, Operation.write key value ∈ l) ∨
    ∃ index entry target, Operation.refresh index entry ∈ l ∧ target ∈ dependents D e index ∧
      (entry target).1 = key

/-- One of the operations gives the entry the value. -/
def Writes (D : Deps) (l : List Operation) (e : Entries) (key : String) (value : Option Bytes) :
    Prop :=
  Operation.write key value ∈ l ∨
    ∃ index entry target, Operation.refresh index entry ∈ l ∧ target ∈ dependents D e index ∧
      entry target = (key, value)

theorem Writes.touches {l : List Operation} {e : Entries} {key : String} {value : Option Bytes}
    (h : Writes D l e key value) : Touches D l e key := by
  rcases h with h | ⟨index, entry, target, hop, hmem, heq⟩
  · exact Or.inl ⟨value, h⟩
  · exact Or.inr ⟨index, entry, target, hop, hmem, by rw [heq]⟩

theorem Writes.cons {l : List Operation} {op : Operation} {e : Entries} {key : String}
    {value : Option Bytes} (h : Writes D l e key value) : Writes D (op :: l) e key value := by
  rcases h with h | ⟨index, entry, target, hop, hmem, heq⟩
  · exact Or.inl (List.mem_cons_of_mem _ h)
  · exact Or.inr ⟨index, entry, target, List.mem_cons_of_mem _ hop, hmem, heq⟩

/-- One operation leaves an entry alone or writes it. -/
theorem apply_entry {op : Operation} (hk : op.Keyed) (e : Entries) {key : String}
    (hentry : IsEntry key) :
    (op.apply D e key = e key ∧ ¬ Touches D [op] e key) ∨ Writes D [op] e key (op.apply D e key) := by
  cases op with
  | write key' value =>
    by_cases heq : key = key'
    · subst heq
      refine Or.inr (Or.inl ?_)
      simp [Operation.apply]
    · refine Or.inl ⟨Function.update_of_ne heq _ _, ?_⟩
      simp [Touches, heq]
  | register index target =>
    have hne : key ≠ index := fun heq => (show IsIndex index from hk).not_isEntry (heq ▸ hentry)
    refine Or.inl ⟨?_, by simp [Touches]⟩
    rw [apply_register]
    exact Function.update_of_ne hne _ _
  | refresh index entry =>
    have hval : (Operation.refresh index entry).apply D e key =
        settle e ((dependents D e index).map entry) key := rfl
    rw [hval, settle_eq]
    cases hlast : lastWhere (fun u => decide (u.1 = key)) ((dependents D e index).map entry) with
    | none =>
      refine Or.inl ⟨rfl, ?_⟩
      rintro (⟨value, h⟩ | ⟨index', entry', target, hop, hmem, heq⟩)
      · simp at h
      · rw [List.mem_singleton, Operation.refresh.injEq] at hop
        obtain ⟨rfl, rfl⟩ := hop
        exact lastWhere_eq_none.1 hlast _ (List.mem_map_of_mem hmem) (by simpa using heq)
    | some u =>
      obtain ⟨hu, hkey⟩ := mem_of_lastWhere hlast
      obtain ⟨target, hmem, rfl⟩ := List.mem_map.1 hu
      rw [decide_eq_true_iff] at hkey
      exact Or.inr (Or.inr ⟨index, entry, target, List.mem_singleton_self _, hmem, by rw [← hkey]; rfl⟩)

section Entries

variable (hkeyed : ∀ event ∈ events, ∀ op ∈ ops event, op.Keyed)
  (hone : ∀ index target target', Registers ops events index target →
    Registers ops events index target' → target = target')
  (hserde : ∀ index target, Registers ops events index target → ReadsList D (c₀ index) target)

/-- The reverse index has grown. -/
def Grown (D : Deps) (e e' : Entries) : Prop :=
  ∀ index, IsIndex index → dependents D e index ⊆ dependents D e' index

include hkeyed hone hserde in
theorem Indexed.foldl {e : Entries} (h : Indexed D ops c₀ events e) (hev : event ∈ events)
    {l : List Operation} (hl : ∀ op ∈ l, op ∈ ops event) :
    Indexed D ops c₀ events (l.foldl (Operation.apply D) e) ∧
      Grown D e (l.foldl (Operation.apply D) e) := by
  induction l generalizing e with
  | nil => exact ⟨h, fun _ _ => List.Subset.refl _⟩
  | cons op l ih =>
    have hop := hl op (List.mem_cons_self ..)
    obtain ⟨hend, hgrown⟩ := ih (h.apply hkeyed hone hserde hev hop)
      fun op' h' => hl op' (List.mem_cons_of_mem _ h')
    refine ⟨hend, fun index hindex target hmem => hgrown index hindex ?_⟩
    exact h.dependents_subset hkeyed hone hserde hev hop hindex hmem

include hkeyed hone hserde in
theorem Indexed.registered_foldl {e : Entries} (h : Indexed D ops c₀ events e) (hev : event ∈ events)
    {l : List Operation} (hl : ∀ op ∈ l, op ∈ ops event) {index target : String}
    (hindex : IsIndex index) (hreg : Registers ops events index target)
    (heq : e index = registerIn D (c₀ index) target) :
    l.foldl (Operation.apply D) e index = registerIn D (c₀ index) target := by
  induction l generalizing e with
  | nil => exact heq
  | cons op l ih =>
    have hop := hl op (List.mem_cons_self ..)
    exact ih (h.apply hkeyed hone hserde hev hop) (fun op' h' => hl op' (List.mem_cons_of_mem _ h'))
      (h.registered_apply hkeyed hone hserde hev hop hindex hreg heq)

include hkeyed hone hserde in
theorem Indexed.foldl_register {e : Entries} (h : Indexed D ops c₀ events e) (hev : event ∈ events)
    {l : List Operation} (hl : ∀ op ∈ l, op ∈ ops event) {index target : String}
    (hmem : Operation.register index target ∈ l) :
    l.foldl (Operation.apply D) e index = registerIn D (c₀ index) target := by
  have hreg : Registers ops events index target := ⟨event, hev, hl _ hmem⟩
  have hindex : IsIndex index := hkeyed event hev _ (hl _ hmem)
  induction l generalizing e with
  | nil => simp at hmem
  | cons op l ih =>
    have hop := hl op (List.mem_cons_self ..)
    have hl' : ∀ op' ∈ l, op' ∈ ops event := fun op' h' => hl op' (List.mem_cons_of_mem _ h')
    have hnext := h.apply hkeyed hone hserde hev hop
    rcases List.mem_cons.1 hmem with rfl | hmem
    · refine hnext.registered_foldl hkeyed hone hserde hev hl' hindex hreg ?_
      rw [apply_register, Function.update_self, h.register hone hserde hindex hreg]
    · exact ih hnext hl' hmem

include hkeyed hone hserde in
/-- The operations of an event leave an entry alone or write it. -/
theorem foldl_entry {e : Entries} (h : Indexed D ops c₀ events e) (hev : event ∈ events)
    {l : List Operation} (hl : ∀ op ∈ l, op ∈ ops event) {key : String} (hentry : IsEntry key) :
    (l.foldl (Operation.apply D) e key = e key ∧ ¬ Touches D l e key) ∨
      Writes D l (l.foldl (Operation.apply D) e) key (l.foldl (Operation.apply D) e key) := by
  induction l generalizing e with
  | nil => exact Or.inl ⟨rfl, by simp [Touches]⟩
  | cons op l ih =>
    have hop := hl op (List.mem_cons_self ..)
    have hl' : ∀ op' ∈ l, op' ∈ ops event := fun op' h' => hl op' (List.mem_cons_of_mem _ h')
    have hnext := h.apply hkeyed hone hserde hev hop
    have hkop := hkeyed event hev op hop
    rw [List.foldl_cons]
    rcases ih hnext hl' with ⟨hsame, hnot⟩ | hw
    · rw [hsame]
      rcases apply_entry (D := D) hkop e hentry with ⟨hsame', hnot'⟩ | hw'
      · left
        refine ⟨hsame', ?_⟩
        rintro (⟨value, hmem⟩ | ⟨index, entry, target, hmem, hdep, heq⟩)
        · rcases List.mem_cons.1 hmem with rfl | hmem
          · exact hnot' (Or.inl ⟨value, List.mem_singleton_self _⟩)
          · exact hnot (Or.inl ⟨value, hmem⟩)
        · rcases List.mem_cons.1 hmem with rfl | hmem
          · exact hnot' (Or.inr ⟨index, entry, target, List.mem_singleton_self _, hdep, heq⟩)
          · have hindex : IsIndex index := (hkeyed event hev _ (hl' _ hmem)).1
            exact hnot (Or.inr ⟨index, entry, target, hmem,
              h.dependents_subset hkeyed hone hserde hev hop hindex hdep, heq⟩)
      · right
        rcases hw' with hw' | ⟨index, entry, target, hmem, hdep, heq⟩
        · exact Or.inl (List.mem_cons.2 (Or.inl (List.mem_singleton.1 hw')))
        · have hindex : IsIndex index := by
            rw [← List.mem_singleton.1 hmem] at hkop
            exact hkop.1
          refine Or.inr ⟨index, entry, target, ?_, ?_, heq⟩
          · rw [List.mem_singleton.1 hmem]
            exact List.mem_cons_self ..
          · exact (hnext.foldl hkeyed hone hserde hev hl').2 index hindex
              (h.dependents_subset hkeyed hone hserde hev hop hindex hdep)
    · exact Or.inr hw.cons

end Entries

/-! ### The cache on its way -/

section Settling

variable (D ops c₀ events)

/-- The cache after some of the events have been delivered. -/
structure Settling (delivered : List EventEnvelope) (e : Entries) : Prop where
  others : ∀ key, ¬ IsEntry key → ¬ IsIndex key → e key = c₀ key
  indexed : Indexed D ops c₀ events e
  /-- The targets of the newest events that have been delivered are registered. -/
  registered : ∀ n ∈ delivered, Newest events n → ∀ index target,
    Operation.register index target ∈ ops n → e index = registerIn D (c₀ index) target
  entries : ∀ key, IsEntry key →
    (∃ n, Newest events n ∧ Gives D ops c₀ events n key (e key)) ∨
    (∃ n, Newest events n ∧ n ∉ delivered ∧ Touches D (ops n) e key) ∨
    (e key = c₀ key ∧ ∀ n value, Newest events n → ¬ Gives D ops c₀ events n key value)

variable {D ops c₀ events}

theorem Touches.mono {l : List Operation} {e e' : Entries} {key : String}
    (hkeyed : ∀ op ∈ l, op.Keyed) (hgrown : Grown D e e') (h : Touches D l e key) :
    Touches D l e' key := by
  rcases h with h | ⟨index, entry, target, hop, hmem, heq⟩
  · exact Or.inl h
  · exact Or.inr ⟨index, entry, target, hop, hgrown index (hkeyed _ hop).1 hmem, heq⟩

/-- Events of one row refresh the same entries. -/
def RefreshAlike (ops : EventEnvelope → List Operation) : Prop :=
  ∀ event event', versionKey event' = versionKey event → ∀ index entry,
    Operation.refresh index entry ∈ ops event →
      ∃ entry', Operation.refresh index entry' ∈ ops event' ∧
        ∀ target, (entry' target).1 = (entry target).1

variable (hkeyed : ∀ event ∈ events, ∀ op ∈ ops event, op.Keyed)
  (hserde : ∀ index target, Registers ops events index target → ReadsList D (c₀ index) target)
  (hstable : Stable D ops c₀ events) (hrefresh : RefreshAlike ops)

include hstable in
theorem Settling.start : Settling D ops c₀ events [] c₀ := by
  refine ⟨fun _ _ _ => rfl, fun _ _ => Or.inl rfl, by simp, fun key hentry => ?_⟩
  by_cases hgives : ∃ n value, Newest events n ∧ Gives D ops c₀ events n key value
  · obtain ⟨n, value, hn, hgives⟩ := hgives
    refine Or.inr (Or.inl ?_)
    rcases hgives with hop | ⟨index, entry, target, hop, hmem | hreg, heq⟩
    · exact ⟨n, hn, by simp, Or.inl ⟨value, hop⟩⟩
    · exact ⟨n, hn, by simp, Or.inr ⟨index, entry, target, hop, hmem, by rw [heq]⟩⟩
    · obtain ⟨n', value', hn', hop'⟩ := hstable.entered n hn index entry target hop hreg
      rw [heq] at hop'
      exact ⟨n', hn', by simp, Or.inl ⟨value', hop'⟩⟩
  · refine Or.inr (Or.inr ⟨rfl, fun n value hn hg => hgives ⟨n, value, hn, hg⟩⟩)

include hkeyed hserde in
/-- What an event is found to write, it gives. -/
theorem gives_of_writes {e : Entries} (h : Indexed D ops c₀ events e) (hev : event ∈ events)
    {key : String} {value : Option Bytes} (hw : Writes D (ops event) e key value) :
    Gives D ops c₀ events event key value := by
  rcases hw with hw | ⟨index, entry, target, hop, hmem, heq⟩
  · exact Or.inl hw
  · exact Or.inr ⟨index, entry, target, hop,
      h.mayList hserde (hkeyed event hev _ hop).1 hmem, heq⟩

/-- An event that is not carried out: it is not the newest of its row, or has been delivered before. -/
theorem Settling.skip {delivered : List EventEnvelope} {e : Entries}
    (h : Settling D ops c₀ events delivered e)
    (hskip : ¬ Newest events event ∨ event ∈ delivered) :
    Settling D ops c₀ events (delivered ++ [event]) e := by
  have hmem : ∀ n, Newest events n → n ∈ delivered ++ [event] → n ∈ delivered := by
    intro n hn hn'
    rcases List.mem_append.1 hn' with hn' | hn'
    · exact hn'
    · rw [List.mem_singleton] at hn'
      subst hn'
      exact hskip.resolve_left fun hnot => hnot hn
  refine ⟨h.others, h.indexed, fun n hn' hn => h.registered n (hmem n hn hn') hn,
    fun key hentry => ?_⟩
  rcases h.entries key hentry with hdone | ⟨n, hn, hnot, ht⟩ | hnone
  · exact Or.inl hdone
  · exact Or.inr (Or.inl ⟨n, hn, fun hn' => hnot (hmem n hn hn'), ht⟩)
  · exact Or.inr (Or.inr hnone)

include hstable hrefresh in
/-- The newest event of a row writes every entry that another event of the row is found to write. -/
theorem touches_newest {e : Entries} (hev : event ∈ events) {n : EventEnvelope} (hn : Newest events n)
    (hrow : versionKey n = versionKey event) {key : String} (h : Touches D (ops event) e key) :
    Touches D (ops n) e key := by
  rcases h with ⟨value, hop⟩ | ⟨index, entry, target, hop, hmem, heq⟩
  · exact Or.inl (hstable.keeps_entries event hev n hn hrow key value hop)
  · obtain ⟨entry', hop', hkeys⟩ := hrefresh event n hrow index entry hop
    exact Or.inr ⟨index, entry', target, hop', hmem, by rw [hkeys, heq]⟩

include hkeyed hserde hstable hrefresh in
/-- An event that is carried out: no newer one of its row has been delivered. -/
theorem Settling.carry {delivered : List EventEnvelope} {e : Entries}
    (h : Settling D ops c₀ events delivered e) (hev : event ∈ events)
    (hnew : Newest events event ∨
      ∀ n, Newest events n → versionKey n = versionKey event → n ∉ delivered) :
    Settling D ops c₀ events (delivered ++ [event]) ((ops event).foldl (Operation.apply D) e) := by
  have hone := hstable.one_target
  obtain ⟨hindexed, hgrown⟩ := h.indexed.foldl hkeyed hone hserde hev fun op hop => hop
  refine ⟨fun key hentry hindex => ?_, hindexed, fun n hn' hn index target hop => ?_,
    fun key hentry => ?_⟩
  · rw [← h.others key hentry hindex]
    exact foldl_of_other (hkeyed event hev) hentry hindex e
  · rcases List.mem_append.1 hn' with hn' | hn'
    · exact h.indexed.registered_foldl hkeyed hone hserde hev (fun op hop => hop)
        (hkeyed n hn.1 _ hop) ⟨n, hn.1, hop⟩ (h.registered n hn' hn index target hop)
    · rw [List.mem_singleton.1 hn'] at hop
      exact h.indexed.foldl_register hkeyed hone hserde hev (fun op hop => hop) hop
  · rcases foldl_entry hkeyed hone hserde h.indexed hev (fun op hop => hop) hentry with
      ⟨hsame, hnot⟩ | hw
    · rw [hsame]
      rcases h.entries key hentry with hdone | ⟨n, hn, hnd, ht⟩ | hnone
      · exact Or.inl hdone
      · refine Or.inr (Or.inl ⟨n, hn, fun hn' => ?_, ht.mono (hkeyed n hn.1) hgrown⟩)
        rcases List.mem_append.1 hn' with hn' | hn'
        · exact hnd hn'
        · rw [List.mem_singleton.1 hn'] at ht
          exact hnot ht
      · exact Or.inr (Or.inr hnone)
    · by_cases hnewest : Newest events event
      · exact Or.inl ⟨event, hnewest, gives_of_writes hkeyed hserde hindexed hev hw⟩
      · -- the newest event of the row is still to come and writes the entry again
        obtain ⟨n, hn, hrow⟩ := exists_newest hev
        refine Or.inr (Or.inl ⟨n, hn, fun hn' => ?_,
          touches_newest hstable hrefresh hev hn hrow hw.touches⟩)
        rcases List.mem_append.1 hn' with hn' | hn'
        · exact hnew.resolve_left hnewest n hn hrow hn'
        · rw [List.mem_singleton.1 hn'] at hn
          exact hnewest hn

include hstable in
/-- When all newest events have been delivered there is one way for the cache to be. -/
theorem Settling.unique {delivered delivered' : List EventEnvelope} {e e' : Entries}
    (h : Settling D ops c₀ events delivered e) (h' : Settling D ops c₀ events delivered' e')
    (hall : ∀ n, Newest events n → n ∈ delivered) (hall' : ∀ n, Newest events n → n ∈ delivered') :
    e = e' := by
  funext key
  by_cases hentry : IsEntry key
  · rcases h.entries key hentry with ⟨n, hn, hg⟩ | ⟨n, hn, hnot, -⟩ | ⟨heq, hnone⟩
    · rcases h'.entries key hentry with ⟨n', hn', hg'⟩ | ⟨n', hn', hnot', -⟩ | ⟨-, hnone'⟩
      · exact hstable.one_value n n' hn hn' key _ _ hg hg'
      · exact absurd (hall' n' hn') hnot'
      · exact absurd hg (hnone' n _ hn)
    · exact absurd (hall n hn) hnot
    · rcases h'.entries key hentry with ⟨n', hn', hg'⟩ | ⟨n', hn', hnot', -⟩ | ⟨heq', -⟩
      · exact absurd hg' (hnone n' _ hn')
      · exact absurd (hall' n' hn') hnot'
      · rw [heq, heq']
  by_cases hindex : IsIndex key
  · by_cases hreg : ∃ target, Registers ops events key target
    · obtain ⟨target, event, hev, hop⟩ := hreg
      obtain ⟨n, hn, hrow⟩ := exists_newest hev
      have hop' := hstable.keeps_references event hev n hn hrow key target hop
      rw [h.registered n (hall n hn) hn key target hop',
        h'.registered n (hall' n hn) hn key target hop']
    · have hsame : ∀ {e : Entries}, Indexed D ops c₀ events e → e key = c₀ key := by
        intro e he
        refine (he key hindex).resolve_right ?_
        rintro ⟨target, hr, -⟩
        exact hreg ⟨target, hr⟩
      rw [hsame h.indexed, hsame h'.indexed]
  · rw [h.others key hentry hindex, h'.others key hentry hindex]

end Settling

/-! ### The loop -/

/-- The events and the versions of each row are told apart. -/
structure Distinct (events : List EventEnvelope) : Prop where
  ids : ∀ x ∈ events, ∀ y ∈ events, x.eventId = y.eventId → x = y
  versions : ∀ x ∈ events, ∀ y ∈ events, versionKey x = versionKey y → x.version = y.version → x = y

/-- Each event is delivered at least once, and nothing else. -/
structure Delivers (events delivery : List EventEnvelope) : Prop where
  only : ∀ x ∈ delivery, x ∈ events
  all : ∀ x ∈ events, x ∈ delivery

/-- The loop on one event after the other. -/
def deliver (D : Deps) (registry : ProjectionRegistry) (dedupCapacity : ℕ) (cache : Entries)
    (delivery : List EventEnvelope) : Loop :=
  delivery.foldl (Loop.handle D registry dedupCapacity) (Loop.start cache)

/-- What the loop remembers of the events that have been delivered. -/
structure Remembers (delivered : List EventEnvelope) (st : Loop) : Prop where
  latest_mem : ∀ row v, st.latest row = some v → ∃ x ∈ delivered, versionKey x = row ∧ x.version = v
  latest_le : ∀ x ∈ delivered, ∃ v, st.latest (versionKey x) = some v ∧ x.version ≤ v
  seen : ∀ id ∈ st.seen, ∃ x ∈ delivered, x.eventId = id

namespace Remembers

variable {delivered : List EventEnvelope} {st : Loop} {registry : ProjectionRegistry} {cap : ℕ}

/-- A stale event is not the newest of its row. -/
theorem not_newest_of_stale (h : Remembers delivered st) (honly : ∀ x ∈ delivered, x ∈ events)
    (hst : st.isStale event = true) : ¬ Newest events event := by
  rintro ⟨-, hmax⟩
  unfold Loop.isStale at hst
  cases hl : st.latest (versionKey event) with
  | none => simp [hl] at hst
  | some v =>
    simp only [hl, decide_eq_true_eq] at hst
    obtain ⟨x, hx, hrow, rfl⟩ := h.latest_mem _ _ hl
    exact absurd hst (UInt64.not_lt.2 (hmax x (honly x hx) hrow))

/-- No newest event of the row of a fresh event has been delivered, but perhaps the event itself. -/
theorem eq_of_fresh (h : Remembers delivered st) (hd : Distinct events) (hev : event ∈ events)
    (hst : st.isStale event = false) {n : EventEnvelope} (hn : Newest events n)
    (hrow : versionKey n = versionKey event) (hmem : n ∈ delivered) : n = event := by
  obtain ⟨v, hv, hle⟩ := h.latest_le n hmem
  unfold Loop.isStale at hst
  rw [← hrow, hv] at hst
  simp only [decide_eq_false_iff_not, UInt64.not_lt] at hst
  refine hd.versions n hn.1 event hev hrow (UInt64.le_antisymm ?_ (hn.2 event hev hrow.symm))
  exact UInt64.le_trans hle hst

theorem handle_stale (h : Remembers delivered st) (hst : st.isStale event = true) :
    Remembers (delivered ++ [event]) st := by
  refine ⟨fun row v hv => ?_, fun x hx => ?_, fun id hid => ?_⟩
  · obtain ⟨x, hx, hxv⟩ := h.latest_mem row v hv
    exact ⟨x, List.mem_append_left _ hx, hxv⟩
  · rcases List.mem_append.1 hx with hx | hx
    · exact h.latest_le x hx
    · rw [List.mem_singleton] at hx
      subst hx
      unfold Loop.isStale at hst
      cases hl : st.latest (versionKey x) with
      | none => simp [hl] at hst
      | some v =>
        simp only [hl, decide_eq_true_eq] at hst
        exact ⟨v, rfl, UInt64.le_of_lt hst⟩
  · obtain ⟨x, hx, hxid⟩ := h.seen id hid
    exact ⟨x, List.mem_append_left _ hx, hxid⟩

/-- A fresh event becomes the latest of its row. -/
theorem handle_fresh (h : Remembers delivered st) (hst : st.isStale event = false)
    {st' : Loop} (hlatest : st'.latest = Function.update st.latest (versionKey event) (some event.version))
    (hseen : st'.seen ⊆ insert event.eventId st.seen) : Remembers (delivered ++ [event]) st' := by
  refine ⟨fun row v hv => ?_, fun x hx => ?_, fun id hid => ?_⟩
  · rw [hlatest] at hv
    by_cases hrow : row = versionKey event
    · subst hrow
      rw [Function.update_self, Option.some.injEq] at hv
      exact ⟨event, by simp, rfl, hv⟩
    · rw [Function.update_of_ne hrow] at hv
      obtain ⟨x, hx, hxv⟩ := h.latest_mem row v hv
      exact ⟨x, List.mem_append_left _ hx, hxv⟩
  · rw [hlatest]
    by_cases hrow : versionKey x = versionKey event
    · refine ⟨event.version, by rw [hrow, Function.update_self], ?_⟩
      rcases List.mem_append.1 hx with hx | hx
      · obtain ⟨v, hv, hle⟩ := h.latest_le x hx
        unfold Loop.isStale at hst
        rw [← hrow, hv] at hst
        simp only [decide_eq_false_iff_not, UInt64.not_lt] at hst
        exact UInt64.le_trans hle hst
      · rw [List.mem_singleton.1 hx]
        exact UInt64.le_refl _
    · rw [Function.update_of_ne hrow]
      rcases List.mem_append.1 hx with hx | hx
      · exact h.latest_le x hx
      · exact absurd (by rw [List.mem_singleton.1 hx]) hrow
  · rcases Finset.mem_insert.1 (hseen hid) with rfl | hid
    · exact ⟨event, by simp, rfl⟩
    · obtain ⟨x, hx, hxid⟩ := h.seen id hid
      exact ⟨x, List.mem_append_left _ hx, hxid⟩

end Remembers

theorem refreshAlike_operations (D : Deps) (registry : ProjectionRegistry) (lookup : Lookup) :
    RefreshAlike (operations D registry lookup) := by
  intro event event' hrow index entry hop
  obtain ⟨hstore, hentity, hkey⟩ : event'.store = event.store ∧ event'.entity = event.entity ∧
      event'.key = event.key := by
    simpa [versionKey] using hrow
  obtain ⟨proj, hproj, hop⟩ := List.mem_flatMap.1 hop
  rw [← hstore] at hproj
  -- only pattern R refreshes, for an event of another store than the first
  unfold operationsOf at hop
  cases hp : proj.pattern with
  | M =>
    simp only [hp, operationsM] at hop
    cases hc : proj.copyFields with
    | none => simp [hc] at hop
    | some copy => simp [hc] at hop
  | R =>
    simp only [hp, operationsR] at hop
    cases hhead : proj.sourceStores.head? with
    | none => simp [hhead] at hop
    | some primaryStore =>
      simp only [hhead] at hop
      split_ifs at hop with hne hdel
      · rw [List.mem_singleton, Operation.refresh.injEq] at hop
        obtain ⟨rfl, rfl⟩ := hop
        refine ⟨refreshEntry D proj lookup event', List.mem_flatMap.2 ⟨proj, hproj, ?_⟩, fun _ => rfl⟩
        simp only [operationsOf, hp, operationsR, hhead]
        rw [if_pos (by rwa [hstore]), hstore, hentity, hkey]
        exact List.mem_singleton_self _
      · simp at hop
      · rcases List.mem_cons.1 hop with hop | hop
        · cases hop
        · obtain ⟨store, -, hop⟩ := List.mem_map.1 hop
          cases hop

/-- The names in the events, and the targets that may be found in the reverse index, do not interfere
with the protocol of the cache. -/
structure Sent (D : Deps) (registry : ProjectionRegistry) (c₀ : Entries) (events : List EventEnvelope) :
    Prop where
  names : ∀ event ∈ events, ∀ proj ∈ registry.forStore event.store, SendableOf D proj event
  targets : ∀ event ∈ events, ∀ proj ∈ registry.forStore event.store, proj.pattern = .R →
    proj.sourceStores.head? ≠ some event.store → ∀ t,
    MayList D (operations D registry (cacheGet c₀)) c₀ events
      (dependencyIndexKey proj event.store event.entity event.key) t → Cache.Plain t

section Delivery

variable {registry : ProjectionRegistry} {cap : ℕ} {delivered : List EventEnvelope} {st : Loop}
  (hsize : ∀ j, (D.toVec j).length < 2 ^ 63) (hdist : Distinct events)
  (hserde : ∀ index target, Registers (operations D registry (cacheGet c₀)) events index target →
    ReadsList D (c₀ index) target)
  (hstable : Stable D (operations D registry (cacheGet c₀)) c₀ events)
  (hsent : Sent D registry c₀ events)

include hsize hserde hstable hsent in
/-- The engine carries the operations of an event out. -/
theorem afterEvent_of_indexed {e : Entries} (hlookup : cacheGet e = cacheGet c₀)
    (h : Indexed D (operations D registry (cacheGet c₀)) c₀ events e) (hev : event ∈ events) :
    afterEvent D registry e event =
      (operations D registry (cacheGet c₀) event).foldl (Operation.apply D) e := by
  have heq := afterEvent_eq (e := e) hsize
    (I := Indexed D (operations D registry (cacheGet c₀)) c₀ events) (hsent.names event hev) ?_ ?_ h
  · rw [heq, hlookup]
  · intro proj hproj hp e he hother t ht
    exact hsent.targets event hev proj hproj hp hother t
      (he.mayList hserde (isIndex_dependencyIndexKey ..) ht)
  · intro op hop e he
    rw [hlookup] at hop
    exact he.apply (fun _ _ op hop => keyed_operations hop) hstable.one_target hserde hev hop

include hsize hdist hserde hstable hsent in
/-- One event. -/
theorem handle_settling (honly : ∀ x ∈ delivered, x ∈ events) (hr : Remembers delivered st)
    (hs : Settling D (operations D registry (cacheGet c₀)) c₀ events delivered st.cache)
    (hev : event ∈ events) :
    Remembers (delivered ++ [event]) (st.handle D registry cap event) ∧
      Settling D (operations D registry (cacheGet c₀)) c₀ events (delivered ++ [event])
        (st.handle D registry cap event).cache := by
  cases hst : st.isStale event with
  | true =>
    rw [Loop.handle_of_stale hst]
    exact ⟨hr.handle_stale hst, hs.skip (Or.inl (hr.not_newest_of_stale honly hst))⟩
  | false =>
    by_cases hseen : event.eventId ∈ st.cleared cap
    · rw [Loop.handle_of_seen hst hseen]
      obtain ⟨x, hx, hid⟩ := hr.seen _ (Loop.cleared_subset hseen)
      obtain rfl := hdist.ids x (honly x hx) event hev hid
      refine ⟨hr.handle_fresh hst rfl ?_, hs.skip (Or.inr hx)⟩
      exact Finset.Subset.trans Loop.cleared_subset (Finset.subset_insert _ _)
    · rw [Loop.handle_of_accepts (Loop.accepts_iff.2 ⟨hst, hseen⟩)]
      refine ⟨hr.handle_fresh hst rfl (Finset.insert_subset_insert _ Loop.cleared_subset), ?_⟩
      have hlookup : cacheGet st.cache = cacheGet c₀ := by
        funext store entity key
        refine hs.others _ ?_ ?_
        · simp [IsEntry, Cache.Name.toKey, String.toList_append]
        · simp [IsIndex, Cache.Name.toKey, String.toList_append]
      show Settling _ _ _ _ _ (afterEvent D registry st.cache event)
      rw [afterEvent_of_indexed hsize hserde hstable hsent hlookup hs.indexed hev]
      refine hs.carry (fun _ _ op hop => keyed_operations hop) hserde hstable
        (refreshAlike_operations D registry (cacheGet c₀)) hev ?_
      by_cases hnew : Newest events event
      · exact Or.inl hnew
      · refine Or.inr fun n hn hrow hmem => hnew ?_
        rw [← hr.eq_of_fresh hdist hev hst hn hrow hmem]
        exact hn

include hsize hdist hserde hstable hsent in
/-- A whole delivery. -/
theorem deliver_settling {delivery : List EventEnvelope} (honly : ∀ x ∈ delivery, x ∈ events) :
    Remembers delivery (deliver D registry cap c₀ delivery) ∧
      Settling D (operations D registry (cacheGet c₀)) c₀ events delivery
        (deliver D registry cap c₀ delivery).cache := by
  induction delivery using List.reverseRecOn with
  | nil => exact ⟨⟨by simp [deliver, Loop.start], by simp, by simp [deliver, Loop.start]⟩,
      Settling.start hstable⟩
  | append_singleton delivery event ih =>
    have honly' : ∀ x ∈ delivery, x ∈ events := fun x hx => honly x (List.mem_append_left _ hx)
    obtain ⟨hr, hs⟩ := ih honly'
    unfold deliver at hr hs ⊢
    rw [List.foldl_append]
    exact handle_settling hsize hdist hserde hstable hsent honly' hr hs (honly event (by simp))

end Delivery

/-- **The order of delivery does not matter.**  For every registry and every capacity of the set of
ids, two deliveries of a set of events, each with any repetitions and in any order (one may deliver each
event once in the order of the versions), leave the same cache, provided the events are stable and their
names do not interfere with the protocol of the cache. -/
theorem deliveries_converge (D : Deps) (registry : ProjectionRegistry) (cap : ℕ) (c₀ : Entries)
    (events : List EventEnvelope) (hsize : ∀ j, (D.toVec j).length < 2 ^ 63) (hdist : Distinct events)
    (hserde : ∀ index target, Registers (operations D registry (cacheGet c₀)) events index target →
      ReadsList D (c₀ index) target)
    (hstable : Stable D (operations D registry (cacheGet c₀)) c₀ events)
    (hsent : Sent D registry c₀ events) (delivery delivery' : List EventEnvelope)
    (hd : Delivers events delivery) (hd' : Delivers events delivery') :
    (deliver D registry cap c₀ delivery).cache = (deliver D registry cap c₀ delivery').cache := by
  obtain ⟨-, hs⟩ := deliver_settling hsize hdist hserde hstable hsent hd.only
  obtain ⟨-, hs'⟩ := deliver_settling hsize hdist hserde hstable hsent hd'.only
  exact hs.unique hstable hs' (fun n hn => hd.all n hn.1) fun n hn => hd'.all n hn.1

/-! ### Two versions of a user -/

/-- A read model of the users by their name. -/
def sampleByName : ProjectionConfig where
  name := "by_name"
  pattern := .M
  sourceStores := ["main"]
  targetKey := "name"
  ttlSeconds := 60
  copyFields := some [⟨"main", "user", ["name"]⟩]

/-- A version of a user. -/
def sampleVersion (eventId : String) (version : UInt64) (name : String) : EventEnvelope where
  eventId := eventId
  eventType := "user.creado"
  store := "main"
  entity := "user"
  key := "1"
  version := version
  occurredAt := "2026-01-01T00:00:00.000Z"
  outboxSeq := version
  payload := .object [("name", .string name)]

/-- Crates that read nothing back. -/
def sampleBlankDeps : Deps := (Deps.compact [] "").bounded

theorem distinct_sampleVersions (name name' : String) :
    Distinct [sampleVersion "a" 1 name, sampleVersion "b" 2 name'] := by
  refine ⟨?_, ?_⟩
  · simp [sampleVersion]
  · simp [sampleVersion]

theorem operations_sampleVersion (lookup : Lookup) (eventId : String) (version : UInt64)
    (name : String) :
    operations sampleBlankDeps ⟨[sampleByName]⟩ lookup (sampleVersion eventId version name) =
      [.write (projectionKey sampleByName name)
        (some (materialized sampleBlankDeps "name" name [("name", .string name)]))] := rfl

theorem stable_sampleVersions (name : String) :
    Stable sampleBlankDeps
      (operations sampleBlankDeps ⟨[sampleByName]⟩ (cacheGet fun _ => none)) (fun _ => none)
      [sampleVersion "a" 1 name, sampleVersion "b" 2 name] := by
  have hops : ∀ x ∈ [sampleVersion "a" 1 name, sampleVersion "b" 2 name],
      operations sampleBlankDeps ⟨[sampleByName]⟩ (cacheGet fun _ => none) x =
        [.write (projectionKey sampleByName name)
          (some (materialized sampleBlankDeps "name" name [("name", .string name)]))] := by
    intro x hx
    simp only [List.mem_cons, List.not_mem_nil, or_false] at hx
    rcases hx with rfl | rfl
    · exact operations_sampleVersion ..
    · exact operations_sampleVersion ..
  refine ⟨?_, ?_, ?_, ?_, ?_⟩
  · intro event hev n hn _ key value hop
    rw [hops event hev] at hop
    rw [hops n hn.1]
    exact ⟨value, hop⟩
  · intro event hev n _ _ index target hop
    rw [hops event hev] at hop
    simp at hop
  · intro n n' hn hn' key value value' hg hg'
    unfold Gives at hg hg'
    rw [hops n hn.1] at hg
    rw [hops n' hn'.1] at hg'
    simp only [List.mem_singleton, Operation.write.injEq, reduceCtorEq, false_and, exists_const,
      or_false] at hg hg'
    rw [hg.2, hg'.2]
  · rintro index target target' ⟨event, hev, hop⟩ _
    rw [hops event hev] at hop
    simp at hop
  · intro n hn index entry target hop _
    rw [hops n hn.1] at hop
    simp at hop

theorem sent_sampleVersions :
    Sent sampleBlankDeps ⟨[sampleByName]⟩ (fun _ => none)
      [sampleVersion "a" 1 "Ana", sampleVersion "b" 2 "Ana"] := by
  have hproj : ∀ event ∈ [sampleVersion "a" 1 "Ana", sampleVersion "b" 2 "Ana"],
      ∀ proj ∈ ProjectionRegistry.forStore ⟨[sampleByName]⟩ event.store, proj = sampleByName := by
    intro event _ proj hproj
    exact List.mem_singleton.1 (List.mem_of_mem_filter hproj)
  refine ⟨fun event hev proj h => ?_, fun event hev proj h hp => ?_⟩
  · obtain rfl := hproj event hev proj h
    have hnames : ∀ event ∈ [sampleVersion "a" 1 "Ana", sampleVersion "b" 2 "Ana"],
        SendableM sampleBlankDeps sampleByName event := by
      decide +kernel
    exact fun _ _ _ => hnames event hev
  · obtain rfl := hproj event hev proj h
    cases hp

theorem deliveries_converge_of_two_versions :
    Distinct [sampleVersion "a" 1 "Ana", sampleVersion "b" 2 "Ana"] ∧
    (deliver sampleBlankDeps ⟨[sampleByName]⟩ 1 (fun _ => none)
        [sampleVersion "a" 1 "Ana", sampleVersion "b" 2 "Ana"]).cache =
      (deliver sampleBlankDeps ⟨[sampleByName]⟩ 1 (fun _ => none)
        [sampleVersion "b" 2 "Ana", sampleVersion "a" 1 "Ana", sampleVersion "b" 2 "Ana"]).cache := by
  refine ⟨distinct_sampleVersions "Ana" "Ana", deliveries_converge sampleBlankDeps ⟨[sampleByName]⟩ 1
    (fun _ => none) [sampleVersion "a" 1 "Ana", sampleVersion "b" 2 "Ana"] (Deps.length_bounded _)
    (distinct_sampleVersions "Ana" "Ana") ?_ (stable_sampleVersions "Ana") sent_sampleVersions _ _
    ⟨?_, ?_⟩ ⟨?_, ?_⟩⟩
  · rintro index target ⟨event, hev, hop⟩
    simp only [List.mem_cons, List.not_mem_nil, or_false] at hev
    rcases hev with rfl | rfl
    · simp [operations_sampleVersion] at hop
    · simp [operations_sampleVersion] at hop
  · exact fun x hx => hx
  · exact fun x hx => hx
  · intro x hx
    simp only [List.mem_cons, List.not_mem_nil, or_false] at hx ⊢
    tauto
  · intro x hx
    rcases List.mem_cons.1 hx with rfl | hx
    · simp
    · rw [List.mem_singleton.1 hx]
      simp

/-- A user who is renamed has an entry under the old name too, unless the old version is late. -/
theorem late_version_leaves_other_entries :
    ¬ ∀ (D : Deps) (registry : ProjectionRegistry) (cap : ℕ) (c₀ : Entries)
        (events : List EventEnvelope), (∀ j, (D.toVec j).length < 2 ^ 63) → Distinct events →
        ∀ delivery delivery', Delivers events delivery → Delivers events delivery' →
          ∀ key, IsEntry key ∨ IsIndex key →
            (deliver D registry cap c₀ delivery).cache key =
              (deliver D registry cap c₀ delivery').cache key := by
  intro h
  have hsame := h sampleBlankDeps ⟨[sampleByName]⟩ 10 (fun _ => none)
    [sampleVersion "a" 1 "Ana", sampleVersion "b" 2 "Eva"] (Deps.length_bounded _)
    (distinct_sampleVersions "Ana" "Eva") [sampleVersion "a" 1 "Ana", sampleVersion "b" 2 "Eva"]
    [sampleVersion "b" 2 "Eva", sampleVersion "a" 1 "Ana"]
    ⟨fun _ hx => hx, fun _ hx => hx⟩ ⟨?_, ?_⟩ (projectionKey sampleByName "Ana")
    (Or.inl (isEntry_projectionKey ..))
  · have hin : ((deliver sampleBlankDeps ⟨[sampleByName]⟩ 10 (fun _ => none)
        [sampleVersion "a" 1 "Ana", sampleVersion "b" 2 "Eva"]).cache
        (projectionKey sampleByName "Ana")).isSome = true := by
      decide +kernel
    have hout : ((deliver sampleBlankDeps ⟨[sampleByName]⟩ 10 (fun _ => none)
        [sampleVersion "b" 2 "Eva", sampleVersion "a" 1 "Ana"]).cache
        (projectionKey sampleByName "Ana")).isSome = false := by
      decide +kernel
    rw [hsame, hout] at hin
    cases hin
  · intro x hx
    simpa [or_comm] using hx
  · intro x hx
    simpa [or_comm] using hx

end Projector

end Ixmati
