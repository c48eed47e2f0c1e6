import Ixmati.Lib.Potential
import Ixmati.Lib.Table
import Mathlib.Algebra.Order.Field.Rat
import Mathlib.Data.List.Induction
import Mathlib.Data.Rat.Floor
import Mathlib.Tactic.Linarith

/-!
# The write throttle

`throttle.rs`: one token bucket per store.  A bucket is created full, is filled up lazily at each call, up
to the burst, and an accepted call takes one token.  A rejected call moves `last_refill` too.

Tokens, rates and times are rational numbers; times are in seconds.

* `Throttle.allowAt` : one call;
* `Bucket.level` : what a bucket can still give away in a window of time, the potential that pays for the
  accepted calls;
* `throttle_guarantee` : no window of length `T` sees more than `b + r T` accepted calls of a store, a call
  that comes `1 / r` after the one before it is accepted, the tokens stay between zero and the burst,
  and stores do not disturb each other.
-/

namespace Ixmati

/-- `MAX_BURST`. -/
def maxBurst : ℕ := 3

/-- `Bucket`. -/
structure Bucket where
  tokens : ℚ
  lastRefill : ℚ

namespace Bucket

/-- Fill up for the time since the last refill, which is zero if the clock went back. -/
def refill (rate burst : ℚ) (bucket : Bucket) (now : ℚ) : Bucket :=
  let elapsed := max (now - bucket.lastRefill) 0
  ⟨min (bucket.tokens + elapsed * rate) burst, now⟩

/-- Take one token, if there is one. -/
def take (bucket : Bucket) : Bool × Bucket :=
  if bucket.tokens < 1 then (false, bucket) else (true, { bucket with tokens := bucket.tokens - 1 })

end Bucket

/-- `Throttle`. -/
structure Throttle where
  refillPerSecond : ℚ
  burst : ℚ
  buckets : Dict String Bucket

namespace Throttle

/-- `Throttle::new`. -/
def new (maxWritesPerWindow windowSecs : ℕ) : Throttle where
  refillPerSecond := maxWritesPerWindow / (max windowSecs 1 : ℕ)
  burst := (min maxWritesPerWindow maxBurst : ℕ)
  buckets := Table.empty

/-- `Throttle::allow_at`. -/
def allowAt (t : Throttle) (store : String) (now : ℚ) : Bool × Throttle :=
  let bucket := (t.buckets.get store).getD ⟨t.burst, now⟩
  -- the refill is kept also if the call is rejected
  let bucket := bucket.refill t.refillPerSecond t.burst now
  (bucket.take.1, { t with buckets := t.buckets.insert store bucket.take.2 })

/-- `Throttle::depth`. -/
def depth (t : Throttle) (store : String) : ℕ :=
  ((t.buckets.get store).map fun bucket => ⌈t.burst - bucket.tokens⌉.toNat).getD 0

/-- A call of `allow`. -/
structure Request where
  store : String
  now : ℚ

/-- What a call leaves behind. -/
def allow (t : Throttle) (q : Request) : Option Throttle := some (t.allowAt q.store q.now).2

/-- The call, if it is accepted. -/
def accepts (t : Throttle) (q : Request) : List Request :=
  if (t.allowAt q.store q.now).1 then [q] else []

/-- The answer to a call. -/
def answers (t : Throttle) (q : Request) : List Bool := [(t.allowAt q.store q.now).1]

/-- The answer to a call of a store. -/
def answersOf (store : String) (t : Throttle) (q : Request) : List Bool :=
  if q.store = store then t.answers q else []

/-- The throttle after some calls. -/
def after (t : Throttle) (qs : List Request) : Throttle :=
  qs.foldl (fun t q => (t.allowAt q.store q.now).2) t

end Throttle

/-! ### One bucket -/

namespace Bucket

variable {r b u v now : ℚ} {bucket : Bucket}

/-- The bucket holds between zero and `b` tokens. -/
def Within (b : ℚ) (bucket : Bucket) : Prop := 0 ≤ bucket.tokens ∧ bucket.tokens ≤ b

theorem within_refill (hr : 0 ≤ r) (hb : 0 ≤ b) (h : 0 ≤ bucket.tokens) :
    (bucket.refill r b now).Within b := by
  have hgain : 0 ≤ max (now - bucket.lastRefill) 0 * r := mul_nonneg (le_max_right _ _) hr
  exact ⟨le_min (add_nonneg h hgain) hb, min_le_right _ _⟩

theorem take_fst : bucket.take.1 = decide (1 ≤ bucket.tokens) := by
  unfold take
  split_ifs with h
  · simp [h]
  · simpa using h

theorem take_lastRefill : bucket.take.2.lastRefill = bucket.lastRefill := by
  unfold take
  split_ifs <;> rfl

theorem within_take (h : bucket.Within b) : bucket.take.2.Within b := by
  unfold take
  split_ifs with hempty
  · exact h
  · push Not at hempty
    exact ⟨sub_nonneg.2 hempty, (sub_le_self _ zero_le_one).trans h.2⟩

/-- What a bucket can give away from `u` to `v`, up to a constant: up to `u` it fills up, between `u` and
`v` what time adds is accounted for beforehand, and after `v` nothing is to be had. -/
def level (r b u v : ℚ) (bucket : Bucket) : ℚ :=
  if v < bucket.lastRefill then -(r * v)
  else if bucket.lastRefill ≤ u then
    min b (bucket.tokens + r * (u - bucket.lastRefill)) - r * u
  else bucket.tokens - r * bucket.lastRefill

theorem level_ge (hr : 0 ≤ r) (huv : u ≤ v) (hb : 0 ≤ b) (h : 0 ≤ bucket.tokens) :
    -(r * v) ≤ bucket.level r b u v := by
  have hru : r * u ≤ r * v := mul_le_mul_of_nonneg_left huv hr
  unfold level
  split_ifs with hlate hearly
  · exact le_rfl
  · have hfill : 0 ≤ r * (u - bucket.lastRefill) := mul_nonneg hr (sub_nonneg.2 hearly)
    have hmin : 0 ≤ min b (bucket.tokens + r * (u - bucket.lastRefill)) :=
      le_min hb (add_nonneg h hfill)
    linarith
  · have : r * bucket.lastRefill ≤ r * v := mul_le_mul_of_nonneg_left (not_lt.1 hlate) hr
    linarith

/-- A full bucket. -/
theorem level_full (hr : 0 ≤ r) (huv : u ≤ v) (hb : 0 ≤ b) :
    level r b u v ⟨b, now⟩ ≤ b - r * u := by
  have hru : r * u ≤ r * v := mul_le_mul_of_nonneg_left huv hr
  unfold level
  split_ifs with hlate hearly
  · linarith
  · exact sub_le_sub_right (min_le_left _ _) _
  · have : r * u ≤ r * now := mul_le_mul_of_nonneg_left (not_le.1 hearly).le hr
    exact sub_le_sub_left this _

/-- Filling up adds nothing that was not accounted for. -/
theorem level_refill (hr : 0 ≤ r) (huv : u ≤ v) (hb : 0 ≤ b) (h : bucket.Within b)
    (hnow : bucket.lastRefill ≤ now) :
    (bucket.refill r b now).level r b u v ≤ bucket.level r b u v := by
  have helapsed : max (now - bucket.lastRefill) 0 = now - bucket.lastRefill :=
    max_eq_left (sub_nonneg.2 hnow)
  have hx : (bucket.refill r b now).tokens ≤ bucket.tokens + (now - bucket.lastRefill) * r := by
    rw [← helapsed]
    exact min_le_left _ _
  have hxb : (bucket.refill r b now).tokens ≤ b := min_le_right _ _
  have hlast : (bucket.refill r b now).lastRefill = now := rfl
  by_cases hlate : v < now
  · -- after the window
    rw [level, hlast, if_pos hlate]
    exact level_ge hr huv hb h.1
  · have hlate' : ¬ v < bucket.lastRefill := fun hv => hlate (hv.trans_le hnow)
    rw [level, level, hlast, if_neg hlate, if_neg hlate']
    by_cases hearly : now ≤ u
    · -- before the window
      rw [if_pos hearly, if_pos (hnow.trans hearly)]
      refine sub_le_sub_right (min_le_min_left _ ?_) _
      linarith
    · have hru : r * u ≤ r * now := mul_le_mul_of_nonneg_left (not_le.1 hearly).le hr
      rw [if_neg hearly]
      split_ifs
      · -- from before the window into it: the level was capped at `u`, the bucket is capped at `now`
        refine le_sub_iff_add_le.2 (le_min ?_ ?_)
        · linarith
        · linarith
      · linarith

/-- A token that is taken in the window is taken from the level. -/
theorem level_take (h : bucket.tokens ≤ b) :
    (if bucket.take.1 = true ∧ u ≤ bucket.lastRefill ∧ bucket.lastRefill ≤ v then 1 else 0) +
      bucket.take.2.level r b u v ≤ bucket.level r b u v := by
  rcases lt_or_ge bucket.tokens 1 with hempty | hfull
  · have htake : bucket.take = (false, bucket) := if_pos hempty
    simp [htake]
  · have htake : bucket.take = (true, { bucket with tokens := bucket.tokens - 1 }) :=
      if_neg (not_lt.2 hfull)
    rw [htake]
    unfold level
    simp only [true_and]
    by_cases hlate : v < bucket.lastRefill
    · rw [if_neg fun hin => absurd hin.2 (not_le.2 hlate), if_pos hlate, if_pos hlate, zero_add]
    · rw [if_neg hlate, if_neg hlate]
      by_cases hearly : bucket.lastRefill ≤ u
      · rw [if_pos hearly, if_pos hearly]
        split_ifs with hin
        · -- the one moment that is at the beginning of the window
          have hu : u = bucket.lastRefill := le_antisymm hin.1 hearly
          subst hu
          rw [sub_self, mul_zero, add_zero, add_zero, min_eq_right h, min_eq_right (by linarith)]
          linarith
        · rw [zero_add]
          exact sub_le_sub_right (min_le_min_left _ (by linarith)) _
      · rw [if_neg hearly, if_neg hearly, if_pos ⟨(not_le.1 hearly).le, not_lt.1 hlate⟩]
        linarith

end Bucket

/-! ### All buckets -/

namespace Throttle

variable {t t' : Throttle} {r b u v now : ℚ} {store : String} {q : Request} {qs : List Request}

/-- The bucket of a store as a call finds it: full if it is new, and filled up. -/
def bucketAt (t : Throttle) (store : String) (now : ℚ) : Bucket :=
  ((t.buckets.get store).getD ⟨t.burst, now⟩).refill t.refillPerSecond t.burst now

theorem allowAt_fst : (t.allowAt store now).1 = (t.bucketAt store now).take.1 := by
  rw [allowAt, bucketAt]

theorem get_allowAt : (t.allowAt store now).2.buckets.get =
    Function.update t.buckets.get store (some (t.bucketAt store now).take.2) :=
  Dict.get_insert _ _ _

/-- Rate and burst are those of the configuration, and no bucket holds more than the burst. -/
structure Sound (r b : ℚ) (t : Throttle) : Prop where
  rate : t.refillPerSecond = r
  burst : t.burst = b
  tokens : ∀ store bucket, t.buckets.get store = some bucket → bucket.Within b

theorem Sound.getD (h : Sound r b t) (hb : 0 ≤ b) :
    ((t.buckets.get store).getD ⟨t.burst, now⟩).Within b := by
  cases hget : t.buckets.get store with
  | none => exact ⟨h.burst ▸ hb, h.burst.le⟩
  | some bucket => exact h.tokens store bucket hget

theorem Sound.bucketAt (h : Sound r b t) (hr : 0 ≤ r) (hb : 0 ≤ b) :
    (t.bucketAt store now).Within b := by
  unfold Throttle.bucketAt
  rw [h.rate, h.burst]
  exact Bucket.within_refill hr hb (h.burst ▸ h.getD hb).1

theorem sound_allowAt (hr : 0 ≤ r) (hb : 0 ≤ b) (h : Sound r b t) :
    Sound r b (t.allowAt store now).2 := by
  refine ⟨h.rate, h.burst, fun store' bucket hget => ?_⟩
  rw [get_allowAt, Function.update_apply] at hget
  split_ifs at hget with hstore
  · cases hget
    exact Bucket.within_take (h.bucketAt hr hb)
  · exact h.tokens store' bucket hget

theorem runFrom_allow (t : Throttle) (qs : List Request) :
    runFrom allow t qs = some (t.after qs) := by
  induction qs generalizing t with
  | nil => rfl
  | cons q qs ih => exact ih _

theorem sound_after (hr : 0 ≤ r) (hb : 0 ≤ b) (h : Sound r b t) : Sound r b (t.after qs) := by
  have hreach : Reachable allow t (t.after qs) := ⟨qs, runFrom_allow t qs⟩
  refine hreach.invariant h fun t q t' ht hstep => ?_
  cases hstep
  exact sound_allowAt hr hb ht

/-- The depth that is reported is at most the burst. -/
theorem depth_le_burst {n : ℕ} (h : Sound r n t) : t.depth store ≤ n := by
  unfold depth
  cases hget : t.buckets.get store with
  | none => exact Nat.zero_le _
  | some bucket =>
    have htokens := (h.tokens store bucket hget).1
    have hceil : ⌈t.burst - bucket.tokens⌉ ≤ (n : ℤ) := by
      rw [Int.ceil_le, h.burst]
      push_cast
      linarith
    exact Int.toNat_le.2 hceil

/-! ### The bound -/

/-- Does the call come from the store, between `u` and `v`? -/
def inWindow (store : String) (u v : ℚ) (q : Request) : Bool :=
  decide (q.store = store ∧ u ≤ q.now ∧ q.now ≤ v)

/-- What a store can still get accepted between `u` and `v`. -/
def levelOf (r b u v : ℚ) (store : String) (t : Throttle) : ℚ :=
  ((t.buckets.get store).map (Bucket.level r b u v)).getD (b - r * u)

/-- The call does not come before the last one of its store. -/
def Timely (t : Throttle) (q : Request) : Prop :=
  ∀ bucket, t.buckets.get q.store = some bucket → bucket.lastRefill ≤ q.now

theorem level_bucketAt (hr : 0 ≤ r) (hb : 0 ≤ b) (huv : u ≤ v) (h : Sound r b t) (hq : t.Timely q) :
    (t.bucketAt q.store q.now).level r b u v ≤ t.levelOf r b u v q.store := by
  have hwithin : ((t.buckets.get q.store).getD ⟨t.burst, q.now⟩).Within b := h.getD hb
  unfold bucketAt levelOf
  rw [h.rate, h.burst] at *
  cases hget : t.buckets.get q.store with
  | none =>
    rw [hget] at hwithin
    exact (Bucket.level_refill hr huv hb hwithin le_rfl).trans (Bucket.level_full hr huv hb)
  | some bucket =>
    rw [hget] at hwithin
    exact Bucket.level_refill hr huv hb hwithin (hq bucket hget)

/-- An accepted call in the window is paid from what the store can still get accepted. -/
theorem accepts_add_levelOf_le (hr : 0 ≤ r) (hb : 0 ≤ b) (huv : u ≤ v) (h : Sound r b t)
    (hq : t.Timely q) :
    ((t.accepts q).countP (inWindow store u v) : ℚ) +
      (t.allowAt q.store q.now).2.levelOf r b u v store ≤ t.levelOf r b u v store := by
  by_cases hstore : q.store = store
  · subst hstore
    have hlevel : (t.allowAt q.store q.now).2.levelOf r b u v q.store =
        (t.bucketAt q.store q.now).take.2.level r b u v := by
      rw [levelOf, get_allowAt, Function.update_self]
      rfl
    have hcount : ((t.accepts q).countP (inWindow q.store u v) : ℚ) =
        if (t.bucketAt q.store q.now).take.1 = true ∧ u ≤ (t.bucketAt q.store q.now).lastRefill ∧
          (t.bucketAt q.store q.now).lastRefill ≤ v then 1 else 0 := by
      show _ = if _ ∧ u ≤ q.now ∧ q.now ≤ v then (1 : ℚ) else 0
      rw [accepts, allowAt_fst]
      cases (t.bucketAt q.store q.now).take.1
      · simp
      · simp [inWindow, List.countP_cons]
    rw [hlevel, hcount]
    exact (Bucket.level_take (h.bucketAt hr hb).2).trans (level_bucketAt hr hb huv h hq)
  · -- another store's call is not counted and leaves the bucket alone
    have hcount : (t.accepts q).countP (inWindow store u v) = 0 := by
      rw [List.countP_eq_zero]
      intro q' hq'
      unfold accepts at hq'
      split_ifs at hq'
      · rw [List.mem_singleton.1 hq']
        simp [inWindow, hstore]
      · cases hq'
    rw [hcount, levelOf, get_allowAt, Function.update_of_ne (Ne.symm hstore), Nat.cast_zero, zero_add]
    exact le_rfl

/-- Calls in the order of time are timely. -/
theorem stepsMeet_timely (hqs : qs.Pairwise fun q q' => q.now ≤ q'.now)
    (ht : ∀ store bucket, t.buckets.get store = some bucket → ∀ q ∈ qs, bucket.lastRefill ≤ q.now) :
    StepsMeet allow Timely t qs := by
  induction qs generalizing t with
  | nil => trivial
  | cons q qs ih =>
    obtain ⟨hq, hqs⟩ := List.pairwise_cons.1 hqs
    refine ⟨fun bucket hget => ht q.store bucket hget q List.mem_cons_self, fun t' ht' => ?_⟩
    cases ht'
    -- the bucket of the call was filled up just now, the others stay
    refine ih hqs fun store bucket hget q' hq' => ?_
    rw [get_allowAt, Function.update_apply] at hget
    split_ifs at hget
    · cases hget
      rw [Bucket.take_lastRefill]
      exact hq q' hq'
    · exact ht store bucket hget q' (List.mem_cons_of_mem _ hq')

theorem levelOf_ge (hr : 0 ≤ r) (hb : 0 ≤ b) (huv : u ≤ v) (h : Sound r b t) :
    -(r * v) ≤ t.levelOf r b u v store := by
  unfold levelOf
  cases hget : t.buckets.get store with
  | none =>
    have hru : r * u ≤ r * v := mul_le_mul_of_nonneg_left huv hr
    show _ ≤ b - r * u
    linarith
  | some bucket => exact Bucket.level_ge hr huv hb (h.tokens store bucket hget).1

theorem countP_accepted_le (hr : 0 ≤ r) (hb : 0 ≤ b) (huv : u ≤ v) (h : Sound r b t)
    (hempty : t.buckets = Table.empty) (hqs : qs.Pairwise fun q q' => q.now ≤ q'.now) :
    ((outputs allow accepts t qs).countP (inWindow store u v) : ℚ) ≤ b + r * (v - u) := by
  -- each step pays from the level, and no call adds to it
  have hpaid := countP_outputs_le (I := Sound r b) (C := Timely) (f := levelOf r b u v store)
    (fun t q t' ht _ hstep => by cases hstep; exact sound_allowAt hr hb ht)
    (fun t q t' ht hq hstep => by
      cases hstep
      exact (accepts_add_levelOf_le hr hb huv ht hq).trans (add_zero _).ge)
    h (stepsMeet_timely hqs fun store bucket hget => by rw [hempty] at hget; cases hget)
    (runFrom_allow t qs)
  have hfirst : t.levelOf r b u v store = b - r * u := by
    rw [levelOf, hempty]
    rfl
  have hlast : -(r * v) ≤ (t.after qs).levelOf r b u v store :=
    levelOf_ge hr hb huv (sound_after hr hb h)
  rw [hfirst] at hpaid
  have hzero : (qs.map fun _ : Request => (0 : ℚ)).sum = 0 := by simp
  rw [hzero] at hpaid
  linarith

/-! ### Calls that are far apart -/

theorem after_concat : t.after (qs ++ [q]) = ((t.after qs).allowAt q.store q.now).2 :=
  List.foldl_append

theorem accepted_concat : outputs allow accepts t (qs ++ [q]) =
    outputs allow accepts t qs ++ (t.after qs).accepts q := by
  induction qs generalizing t with
  | nil => exact List.append_nil _
  | cons q' qs ih =>
    rw [List.cons_append, outputs_cons rfl, outputs_cons rfl, ih, List.append_assoc]
    rfl

/-- An accepted call is one of the calls. -/
theorem mem_of_mem_accepted (h : q ∈ outputs allow accepts t qs) : q ∈ qs := by
  induction qs generalizing t with
  | nil => cases h
  | cons q' qs ih =>
    rw [outputs_cons rfl, List.mem_append, accepts] at h
    rcases h with h | h
    · split_ifs at h
      · exact List.mem_singleton.1 h ▸ List.mem_cons_self
      · cases h
    · exact List.mem_cons_of_mem _ (ih h)

/-- A bucket was last filled up by the last call of its store. -/
theorem lastRefill_after (hempty : t.buckets = Table.empty) :
    ((t.after qs).buckets.get store).map Bucket.lastRefill =
      ((qs.filter fun q => decide (q.store = store)).getLast?).map Request.now := by
  induction qs using List.reverseRecOn with
  | nil =>
    show (t.buckets.get store).map Bucket.lastRefill = none
    rw [hempty]
    rfl
  | append_singleton qs q ih =>
    rw [after_concat, get_allowAt, List.filter_append, Function.update_apply]
    by_cases hstore : q.store = store
    · rw [if_pos hstore.symm, List.filter_cons_of_pos (by simpa using hstore), List.filter_nil,
        List.getLast?_concat, Option.map_some, Option.map_some, Bucket.take_lastRefill]
      rfl
    · rw [if_neg (Ne.symm hstore), List.filter_cons_of_neg (by simpa using hstore), List.filter_nil,
        List.append_nil]
      exact ih

/-- A bucket that has been left alone long enough for one token has one. -/
theorem allowAt_of_elapsed (hr : 0 < r) (hb : 1 ≤ b) (h : Sound r b t)
    (hlong : ∀ bucket, t.buckets.get store = some bucket → 1 / r ≤ now - bucket.lastRefill) :
    (t.allowAt store now).1 = true := by
  rw [allowAt_fst, Bucket.take_fst, decide_eq_true_eq, bucketAt, h.rate, h.burst]
  refine le_min ?_ hb
  cases hget : t.buckets.get store with
  | none =>
    have hgain : 0 ≤ max (now - now) 0 * r := mul_nonneg (le_max_right _ _) hr.le
    exact hb.trans (le_add_of_nonneg_right hgain)
  | some bucket =>
    have hgain : 1 ≤ max (now - bucket.lastRefill) 0 * r := by
      rw [← div_le_iff₀ hr]
      exact (hlong bucket hget).trans (le_max_left _ _)
    exact hgain.trans (le_add_of_nonneg_left (h.tokens store bucket hget).1)

/-! ### Other stores -/

/-- Two throttles that answer alike for a store. -/
structure Alike (store : String) (t t' : Throttle) : Prop where
  rate : t.refillPerSecond = t'.refillPerSecond
  burst : t.burst = t'.burst
  bucket : t.buckets.get store = t'.buckets.get store

theorem Alike.bucketAt (h : Alike store t t') : t.bucketAt store now = t'.bucketAt store now := by
  unfold Throttle.bucketAt
  rw [h.rate, h.burst, h.bucket]

theorem Alike.allowAt (h : Alike store t t') :
    Alike store (t.allowAt store now).2 (t'.allowAt store now).2 := by
  refine ⟨h.rate, h.burst, ?_⟩
  rw [get_allowAt, get_allowAt, Function.update_self, Function.update_self, h.bucketAt]

theorem Alike.other (h : Alike store t t') (hq : q.store ≠ store) :
    Alike store (t.allowAt q.store q.now).2 t' := by
  refine ⟨h.rate, h.burst, ?_⟩
  rw [get_allowAt, Function.update_of_ne (Ne.symm hq)]
  exact h.bucket

theorem answersOf_eq (h : Alike store t t') (qs : List Request) :
    outputs allow (answersOf store) t qs =
      outputs allow answers t' (qs.filter fun q => decide (q.store = store)) := by
  induction qs generalizing t t' with
  | nil => rfl
  | cons q qs ih =>
    have hstep : allow t q = some (t.allowAt q.store q.now).2 := rfl
    rw [outputs_cons hstep]
    by_cases hq : q.store = store
    · subst hq
      rw [List.filter_cons_of_pos (by simp), outputs_cons rfl, ih h.allowAt]
      simp only [answersOf, answers, allowAt_fst, h.bucketAt, if_pos]
    · rw [List.filter_cons_of_neg (by simpa using hq), ih (h.other hq), answersOf, if_neg hq]
      rfl

/-! ### The guarantee -/

theorem sound_new (m w : ℕ) : Sound (m / (max w 1 : ℕ)) (min m maxBurst : ℕ) (new m w) :=
  ⟨rfl, rfl, fun _ _ hget => nomatch hget⟩

/-- **The throttle.**  Let `r` be the configured rate and `b` the burst, and let the calls come in the order
of time.  Between any `u` and `u + T` at most `b + r T` calls of a store are accepted; a call that
comes `1 / r` after the one of its store before it, or is the first one, is accepted; the tokens stay
between zero and `b`; and the answers to the calls of a store are those it would get alone. -/
theorem throttle_guarantee (m w : ℕ) (hm : 1 ≤ m) (qs : List Request)
    (hqs : qs.Pairwise fun q q' => q.now ≤ q'.now) (r b : ℚ) (hr : r = m / (max w 1 : ℕ))
    (hb : b = (min m 3 : ℕ)) :
    (∀ store u T, 0 ≤ T →
      ((outputs allow accepts (new m w) qs).countP (inWindow store u (u + T)) : ℚ) ≤ b + r * T) ∧
    (∀ front q back, qs = front ++ q :: back →
      (∀ q', (front.filter fun q' => decide (q'.store = q.store)).getLast? = some q' →
        1 / r ≤ q.now - q'.now) →
      (((new m w).after front).allowAt q.store q.now).1 = true) ∧
    (∀ front, front <+: qs → ∀ store bucket,
      ((new m w).after front).buckets.get store = some bucket →
        0 ≤ bucket.tokens ∧ bucket.tokens ≤ b) ∧
    ∀ store, outputs allow (answersOf store) (new m w) qs =
      outputs allow answers (new m w) (qs.filter fun q => decide (q.store = store)) := by
  have hsound : Sound r b (new m w) := by
    rw [hr, hb]
    exact sound_new m w
  have hrpos : 0 < r := by
    rw [hr]
    have hmpos : (0 : ℚ) < m := Nat.cast_pos.2 hm
    have hwpos : (0 : ℚ) < (max w 1 : ℕ) := Nat.cast_pos.2 (Nat.lt_of_lt_of_le one_pos (le_max_right _ _))
    exact div_pos hmpos hwpos
  have hbone : 1 ≤ b := by
    rw [hb, Nat.one_le_cast]
    omega
  have hbpos : 0 ≤ b := zero_le_one.trans hbone
  refine ⟨fun store u T hT => ?_, fun front q back _ hlast => ?_, fun front _ store bucket hget => ?_,
    fun store => answersOf_eq ⟨rfl, rfl, rfl⟩ qs⟩
  · have hbound : ((outputs allow accepts (new m w) qs).countP (inWindow store u (u + T)) : ℚ) ≤
        b + r * (u + T - u) :=
      countP_accepted_le hrpos.le hbpos (le_add_of_nonneg_right hT) hsound rfl hqs
    rwa [add_sub_cancel_left] at hbound
  · refine allowAt_of_elapsed hrpos hbone (sound_after hrpos.le hbpos hsound) fun bucket hget => ?_
    have hrefill : (((new m w).after front).buckets.get q.store).map Bucket.lastRefill = _ :=
      lastRefill_after rfl
    rw [hget, Option.map_some] at hrefill
    obtain ⟨q', hq', hnow⟩ := Option.map_eq_some_iff.1 hrefill.symm
    rw [← hnow]
    exact hlast q' hq'
  · exact (sound_after hrpos.le hbpos hsound).tokens store bucket hget

/-- Four calls at once, one of another store, and one more 34 ms later. -/
def sampleRequests : List Request :=
  [⟨"pedidos", 0⟩, ⟨"pedidos", 0⟩, ⟨"usuarios", 0⟩, ⟨"pedidos", 0⟩, ⟨"pedidos", 0⟩,
    ⟨"pedidos", 34 / 1000⟩]

theorem sampleRequests_bounded :
    ((outputs allow accepts (new 30 1) sampleRequests).countP
      (inWindow "pedidos" 0 (0 + 34 / 1000)) : ℚ) ≤ 3 + 30 * (34 / 1000) ∧
    outputs allow (answersOf "pedidos") (new 30 1) sampleRequests =
      outputs allow answers (new 30 1) (sampleRequests.filter fun q => decide (q.store = "pedidos")) := by
  have h := throttle_guarantee 30 1 (by omega) sampleRequests (by simp [sampleRequests]; norm_num) 30 3
    (by norm_num) (by norm_num)
  exact ⟨h.1 "pedidos" 0 (34 / 1000) (by norm_num), h.2.2.2 "pedidos"⟩

/-- The burst, a rejection, and a token that came back in time. -/
example : outputs allow (answersOf "pedidos") (new 30 1) sampleRequests =
    [true, true, true, false, true] := by
  decide +kernel

end Throttle

end Ixmati
