/-
The sliding-window rate limiter.

A key has the times of the calls that were let through and are not older than the window.
A call first drops what has fallen out, then is let through and noted if there is room, or
turned away, unnoted, and told when to come back.

What is kept of a key is the end of what was let through: the rest is older than the window
at the last call (`Tracks`), and stays so while the clock does not go back.  Any stretch as
long as the window ends before the call or holds nothing that was dropped, so what is kept
bounds it (`bounded_run`).

Times are numbers of a linearly ordered field, and a rule says what its arithmetic rounds a
result to.  Where the results met are not rounded, the limiter keeps its promises
(`limits_run`).  Rounding to floating-point numbers is exact at readings that are whole
numbers of one power of two (`exactAt_scaled`), and elsewhere it can turn away who waited as
told: the end of the window and the wait are rounded in different places.

The lock and `reset` do not appear.
-/
import ForexAi.Lib.Binary64
import Mathlib.Algebra.Order.Floor.Ring
import Mathlib.Data.List.Induction
import Mathlib.Data.List.TakeWhile
import Mathlib.Data.Rat.Floor
import Mathlib.Tactic.Linarith

namespace ForexAi

/-- `RateLimitResult`. -/
structure RateLimitResult where
  allowed : Bool
  retryAfterSeconds : ℤ
  deriving DecidableEq

/-- One call of `check`, at the clock's reading. -/
structure RateCall (K : Type*) where
  key : String
  now : K

/-- What a limiter is asked to keep to, and the rounding of the results of its arithmetic. -/
structure RateRule (K : Type*) [Zero K] [LT K] where
  limit : ℕ
  windowSeconds : K
  fl : K → K
  limit_pos : 0 < limit
  window_pos : 0 < windowSeconds

/-- `SlidingWindowLimiter._hits`: the times of a key, the oldest first. -/
abbrev RateHits (K : Type*) := String → List K

namespace RateRule

variable {K : Type*}

/-- The times of a key that were let through. -/
def allowedTimes (key : String) (log : List (RateCall K × RateLimitResult)) : List K :=
  (log.filter fun e => decide (e.1.key = key) && e.2.allowed).map (·.1.now)

theorem allowedTimes_concat (key : String) (log : List (RateCall K × RateLimitResult))
    (c : RateCall K) (r : RateLimitResult) :
    allowedTimes key (log ++ [(c, r)])
      = allowedTimes key log ++ if c.key = key ∧ r.allowed = true then [c.now] else [] := by
  unfold allowedTimes
  rw [List.filter_append, List.map_append]
  by_cases h : c.key = key ∧ r.allowed = true
  · simp [h]
  · simp [h]

variable [Field K] [LinearOrder K] [FloorRing K] (rule : RateRule K)

/-- The times of a key that are inside the window. -/
def kept (hits : RateHits K) (c : RateCall K) : List K :=
  (hits c.key).dropWhile fun t => decide (t ≤ rule.fl (c.now - rule.windowSeconds))

/-- `check`: the answer, and the times after it. -/
def check (hits : RateHits K) (c : RateCall K) : RateLimitResult × RateHits K :=
  let window := rule.kept hits c
  if rule.limit ≤ window.length then
    -- The limit is positive, so the window has a first time.
    ({ allowed := false
       retryAfterSeconds :=
         max 1 ⌈rule.fl (rule.fl (window.headD 0 + rule.windowSeconds) - c.now)⌉ },
      Function.update hits c.key window)
  else
    ({ allowed := true, retryAfterSeconds := 0 },
      Function.update hits c.key (window ++ [c.now]))

/-- One call of a run: the times, and what was answered so far. -/
def step (s : RateHits K × List (RateCall K × RateLimitResult)) (c : RateCall K) :
    RateHits K × List (RateCall K × RateLimitResult) :=
  ((rule.check s.1 c).2, s.2 ++ [(c, (rule.check s.1 c).1)])

/-- A run of a new limiter. -/
def run (calls : List (RateCall K)) : RateHits K × List (RateCall K × RateLimitResult) :=
  calls.foldl rule.step (fun _ => [], [])

/-- What a call is answered after other calls. -/
def answer (before : List (RateCall K)) (c : RateCall K) : RateLimitResult :=
  (rule.check (rule.run before).1 c).1

theorem run_concat (calls : List (RateCall K)) (c : RateCall K) :
    rule.run (calls ++ [c]) = rule.step (rule.run calls) c := by
  unfold run
  rw [List.foldl_append]
  rfl

/-- The times of a key a run let through. -/
def allowedBy (calls : List (RateCall K)) (key : String) : List K :=
  allowedTimes key (rule.run calls).2

theorem allowedBy_concat (calls : List (RateCall K)) (c : RateCall K) (key : String) :
    rule.allowedBy (calls ++ [c]) key = rule.allowedBy calls key ++
      if c.key = key ∧ (rule.answer calls c).allowed = true then [c.now] else [] := by
  unfold allowedBy
  rw [run_concat]
  exact allowedTimes_concat key _ c _

theorem allowedBy_sublist (calls : List (RateCall K)) (key : String) :
    (rule.allowedBy calls key).Sublist (calls.map (·.now)) := by
  induction calls using List.reverseRecOn with
  | nil => exact List.Sublist.refl _
  | append_singleton calls c ih =>
      rw [allowedBy_concat, List.map_append]
      refine ih.append ?_
      by_cases h : c.key = key ∧ (rule.answer calls c).allowed = true
      · rw [if_pos h]
        exact List.Sublist.refl _
      · rw [if_neg h]
        exact List.nil_sublist _

/-! ### One call -/

/-- What a call is answered by: whether there is room in the window. -/
theorem check_allowed_iff (hits : RateHits K) (c : RateCall K) :
    (rule.check hits c).1.allowed = true ↔ (rule.kept hits c).length < rule.limit := by
  unfold check
  by_cases h : rule.limit ≤ (rule.kept hits c).length
  · simp [h]
  · simp [h, not_le.mp h]

/-- The times of the key called, and only these, are renewed. -/
theorem check_hits (hits : RateHits K) (c : RateCall K) :
    (rule.check hits c).2 = Function.update hits c.key
      (rule.kept hits c ++ if (rule.check hits c).1.allowed = true then [c.now] else []) := by
  unfold check
  by_cases h : rule.limit ≤ (rule.kept hits c).length
  · simp [h]
  · simp [h]

omit [FloorRing K] in
/-- What a call drops of a key and what it keeps. -/
theorem kept_split (hits : RateHits K) (c : RateCall K) :
    ∃ dropped, hits c.key = dropped ++ rule.kept hits c ∧
      ∀ t ∈ dropped, t ≤ rule.fl (c.now - rule.windowSeconds) := by
  refine ⟨(hits c.key).takeWhile fun t => decide (t ≤ rule.fl (c.now - rule.windowSeconds)),
    (List.takeWhile_append_dropWhile).symm, fun t ht => ?_⟩
  simpa using List.mem_takeWhile_imp ht

/-! ### One key at a time

The table has a list of times for each key, and a call reads and renews one of them.  So a run
can be taken apart by keys, and what is said below is said of one.
-/

theorem check_congr {hits hits' : RateHits K} {c : RateCall K} (h : hits c.key = hits' c.key) :
    (rule.check hits c).1 = (rule.check hits' c).1 ∧
      (rule.check hits c).2 c.key = (rule.check hits' c).2 c.key := by
  unfold check kept
  rw [h]
  simp only
  split <;> simp

theorem run_other (calls : List (RateCall K)) {c : RateCall K} {key : String} (h : c.key ≠ key) :
    (rule.run (calls ++ [c])).1 key = (rule.run calls).1 key := by
  rw [run_concat]
  show (rule.check (rule.run calls).1 c).2 key = _
  rw [check_hits, Function.update_of_ne (Ne.symm h)]

theorem run_others (calls : List (RateCall K)) {between : List (RateCall K)} {key : String}
    (h : ∀ d ∈ between, d.key ≠ key) :
    (rule.run (calls ++ between)).1 key = (rule.run calls).1 key := by
  induction between using List.reverseRecOn with
  | nil => rw [List.append_nil]
  | append_singleton between d ih =>
      rw [← List.append_assoc, rule.run_other _ (h d (by simp))]
      exact ih fun e he => h e (List.mem_append_left _ he)

/-- What is kept of a key is what its own calls leave. -/
theorem run_own (calls : List (RateCall K)) (key : String) :
    (rule.run (calls.filter fun d => decide (d.key = key))).1 key = (rule.run calls).1 key := by
  induction calls using List.reverseRecOn with
  | nil => rfl
  | append_singleton calls c ih =>
      rw [List.filter_append]
      by_cases hkey : c.key = key
      · subst hkey
        have hone : [c].filter (fun d => decide (d.key = c.key)) = [c] := by simp
        rw [hone, run_concat, run_concat]
        exact (rule.check_congr ih).2
      · have hnone : [c].filter (fun d => decide (d.key = key)) = [] := by simp [hkey]
        rw [hnone, List.append_nil, ih, rule.run_other calls hkey]

/-! ### What is kept of a key

A call drops times from the front and adds its own at the end.  What is kept is therefore an
end of what was let through, and what was dropped was too old at some earlier call.
-/

/-- What is kept of a key is the end of what was let through; the rest is older than the
window at some call. -/
structure Tracks (hits : RateHits K) (calls : List (RateCall K)) (key : String) : Prop where
  split : ∃ old, rule.allowedBy calls key = old ++ hits key ∧
    ∀ t ∈ old, ∃ c ∈ calls, t ≤ rule.fl (c.now - rule.windowSeconds)
  short : (hits key).length ≤ rule.limit

/-- The clock does not go back. -/
def ClockForward (calls : List (RateCall K)) : Prop := calls.Pairwise (·.now ≤ ·.now)

omit [FloorRing K] [Field K] in
theorem clockForward_concat {calls : List (RateCall K)} {c : RateCall K} :
    ClockForward (calls ++ [c]) ↔ ClockForward calls ∧ ∀ d ∈ calls, d.now ≤ c.now := by
  unfold ClockForward
  rw [List.pairwise_append]
  simp

/-- **What one call does to what is kept.** -/
theorem tracks_step {calls : List (RateCall K)} {c : RateCall K} {key : String}
    (h : rule.Tracks (rule.run calls).1 calls key) :
    rule.Tracks (rule.run (calls ++ [c])).1 (calls ++ [c]) key := by
  obtain ⟨old, hold, hpast⟩ := h.split
  have hpast' : ∀ t ∈ old, ∃ d ∈ calls ++ [c], t ≤ rule.fl (d.now - rule.windowSeconds) := by
    intro t ht
    obtain ⟨d, hd, hle⟩ := hpast t ht
    exact ⟨d, List.mem_append_left _ hd, hle⟩
  have hhits : (rule.run (calls ++ [c])).1 = (rule.check (rule.run calls).1 c).2 := by
    rw [run_concat]
    rfl
  by_cases hkey : key = c.key
  · subst hkey
    obtain ⟨dropped, hdropped, hfallen⟩ := rule.kept_split (rule.run calls).1 c
    have hnew : (rule.run (calls ++ [c])).1 c.key = rule.kept (rule.run calls).1 c ++
        if (rule.answer calls c).allowed = true then [c.now] else [] := by
      rw [hhits, check_hits, Function.update_self]
      rfl
    refine ⟨⟨old ++ dropped, ?_, fun t ht => ?_⟩, ?_⟩
    · rw [allowedBy_concat, hold, hdropped, hnew]
      simp
    · rcases List.mem_append.mp ht with ht | ht
      · exact hpast' t ht
      · exact ⟨c, by simp, hfallen t ht⟩
    · rw [hnew]
      by_cases hyes : (rule.answer calls c).allowed = true
      · have hroom := (rule.check_allowed_iff _ c).mp hyes
        rw [if_pos hyes, List.length_append, List.length_singleton]
        exact hroom
      · rw [if_neg hyes, List.append_nil]
        have hlength := congrArg List.length hdropped
        rw [List.length_append] at hlength
        have hshort := h.short
        omega
  · have hnew : (rule.run (calls ++ [c])).1 key = (rule.run calls).1 key := by
      rw [hhits, check_hits, Function.update_of_ne hkey]
    refine ⟨⟨old, ?_, hpast'⟩, hnew ▸ h.short⟩
    rw [allowedBy_concat, if_neg fun hboth => hkey hboth.1.symm, List.append_nil, hnew, hold]

theorem tracks_run (calls : List (RateCall K)) (key : String) :
    rule.Tracks (rule.run calls).1 calls key := by
  induction calls using List.reverseRecOn with
  | nil => exact ⟨⟨[], rfl, fun t ht => absurd ht (by simp)⟩, Nat.zero_le _⟩
  | append_singleton calls c ih => exact rule.tracks_step ih

omit [FloorRing K] [Field K] in
theorem above_of_dropWhile {l : List K} (h : l.Pairwise (· ≤ ·)) (cutoff : K) :
    ∀ t ∈ l.dropWhile fun t => decide (t ≤ cutoff), cutoff < t := by
  induction l with
  | nil => exact fun t ht => absurd ht (by simp)
  | cons s rest ih =>
      obtain ⟨hfirst, hrest⟩ := List.pairwise_cons.mp h
      by_cases hold : s ≤ cutoff
      · rw [List.dropWhile_cons_of_pos (by simpa using hold)]
        exact ih hrest
      · rw [List.dropWhile_cons_of_neg (by simpa using hold)]
        intro t ht
        rcases List.mem_cons.mp ht with rfl | ht
        · exact not_le.mp hold
        · exact (not_le.mp hold).trans_le (hfirst t ht)

/-- The times of a key are readings, in the order of the calls. -/
theorem hits_sublist (calls : List (RateCall K)) (key : String) :
    ((rule.run calls).1 key).Sublist (calls.map (·.now)) := by
  obtain ⟨old, hold, -⟩ := (rule.tracks_run calls key).split
  refine List.Sublist.trans ?_ (rule.allowedBy_sublist calls key)
  rw [hold]
  exact List.sublist_append_right _ _

theorem kept_sublist (calls : List (RateCall K)) (c : RateCall K) :
    (rule.kept (rule.run calls).1 c).Sublist (calls.map (·.now)) :=
  (List.dropWhile_sublist _).trans (rule.hits_sublist calls c.key)

/-! ### Exact arithmetic

A window ends where a float computes that it ends.  Where no result is rounded, what is kept
is what is less than a window old.
-/

/-- No result met at these times is rounded. -/
def ExactAt (times : List K) : Prop :=
  ∀ s ∈ times, rule.fl (s - rule.windowSeconds) = s - rule.windowSeconds ∧
    ∀ t ∈ times, rule.fl (rule.fl (t + rule.windowSeconds) - s) = t + rule.windowSeconds - s

omit [FloorRing K] in
variable {rule} in
theorem ExactAt.mono {times times' : List K} (h : rule.ExactAt times) (hsub : times' ⊆ times) :
    rule.ExactAt times' :=
  fun s hs => ⟨(h s (hsub hs)).1, fun t ht => (h s (hsub hs)).2 t (hsub ht)⟩

theorem kept_window {calls : List (RateCall K)} {c : RateCall K}
    (hclock : ClockForward (calls ++ [c])) (hexact : rule.ExactAt ((calls ++ [c]).map (·.now)))
    {t : K} (ht : t ∈ rule.kept (rule.run calls).1 c) :
    c.now - rule.windowSeconds < t ∧ t ≤ c.now := by
  obtain ⟨hcalls, hnow⟩ := clockForward_concat.mp hclock
  have hascending : ((rule.run calls).1 c.key).Pairwise (· ≤ ·) :=
    (List.pairwise_map.mpr hcalls).sublist (rule.hits_sublist calls c.key)
  have hcutoff := (hexact c.now (by simp)).1
  refine ⟨hcutoff ▸ above_of_dropWhile hascending _ t ht, ?_⟩
  obtain ⟨d, hd, rfl⟩ := List.mem_map.mp ((rule.kept_sublist calls c).subset ht)
  exact hnow d hd

variable [IsStrictOrderedRing K]

/-- At a call, what was let through of its key is what is kept and what is too old. -/
theorem allowedBy_at {calls : List (RateCall K)} {c : RateCall K}
    (hclock : ∀ d ∈ calls, d.now ≤ c.now) (hexact : rule.ExactAt ((calls ++ [c]).map (·.now))) :
    ∃ fallen, rule.allowedBy calls c.key = fallen ++ rule.kept (rule.run calls).1 c ∧
      ∀ t ∈ fallen, t ≤ c.now - rule.windowSeconds := by
  obtain ⟨old, hold, hpast⟩ := (rule.tracks_run calls c.key).split
  obtain ⟨dropped, hdropped, hfallen⟩ := rule.kept_split (rule.run calls).1 c
  have hcutoff : ∀ d ∈ calls ++ [c],
      rule.fl (d.now - rule.windowSeconds) = d.now - rule.windowSeconds := fun d hd =>
    (hexact d.now (List.mem_map_of_mem hd)).1
  refine ⟨old ++ dropped, by rw [hold, hdropped, List.append_assoc], fun t ht => ?_⟩
  rcases List.mem_append.mp ht with ht | ht
  · obtain ⟨d, hd, hle⟩ := hpast t ht
    have hnow := hclock d hd
    rw [hcutoff d (List.mem_append_left _ hd)] at hle
    linarith
  · rw [← hcutoff c (by simp)]
    exact hfallen t ht

/-! ### At most the limit in every window -/

/-- A stretch of time no two points of which are a window apart. -/
structure Stretch (inside : K → Prop) : Prop where
  narrow : ∀ s t, inside s → inside t → t - rule.windowSeconds < s

/-- **At most the limit of a key is let through in any stretch.** -/
theorem bounded_run {calls : List (RateCall K)} (hclock : ClockForward calls)
    (hexact : rule.ExactAt (calls.map (·.now))) (key : String) (inside : K → Prop)
    [DecidablePred inside] (hstretch : rule.Stretch inside) :
    ((rule.allowedBy calls key).filter fun t => decide (inside t)).length ≤ rule.limit := by
  induction calls using List.reverseRecOn with
  | nil => exact Nat.zero_le _
  | append_singleton calls c ih =>
      obtain ⟨hcalls, hnow⟩ := clockForward_concat.mp hclock
      rw [allowedBy_concat, List.filter_append, List.length_append]
      by_cases hadds : (c.key = key ∧ (rule.answer calls c).allowed = true) ∧ inside c.now
      · obtain ⟨⟨rfl, hyes⟩, hinside⟩ := hadds
        -- What is too old for the call lies a window before it, so the stretch has none of it.
        obtain ⟨fallen, hsplit, hfallen⟩ := rule.allowedBy_at hnow hexact
        have hnone : (fallen.filter fun t => decide (inside t)) = [] := by
          refine List.filter_eq_nil_iff.mpr fun t ht hin => ?_
          have hnarrow := hstretch.narrow t c.now (of_decide_eq_true hin) hinside
          exact absurd (hfallen t ht) (not_le.mpr hnarrow)
        have hroom := (rule.check_allowed_iff _ c).mp hyes
        have hkept : ((rule.kept (rule.run calls).1 c).filter fun t => decide (inside t)).length
            ≤ (rule.kept (rule.run calls).1 c).length := List.length_filter_le _ _
        rw [hsplit, List.filter_append, hnone, List.nil_append, if_pos ⟨rfl, hyes⟩]
        have hone : ([c.now].filter fun t => decide (inside t)).length ≤ 1 :=
          List.length_filter_le _ _
        omega
      · have hnone : ((if c.key = key ∧ (rule.answer calls c).allowed = true then [c.now] else
            []).filter fun t => decide (inside t)) = [] := by
          by_cases hcalled : c.key = key ∧ (rule.answer calls c).allowed = true
          · rw [if_pos hcalled]
            simpa using fun hin => hadds ⟨hcalled, hin⟩
          · rw [if_neg hcalled, List.filter_nil]
        rw [hnone]
        exact ih hcalls (hexact.mono (List.map_subset _ (List.subset_append_left _ _)))

/-! ### Who is turned away -/

/-- Who is turned away finds the window full. -/
theorem full_of_denied {calls : List (RateCall K)} {c : RateCall K}
    (hclock : ClockForward (calls ++ [c])) (hexact : rule.ExactAt ((calls ++ [c]).map (·.now)))
    (h : (rule.answer calls c).allowed = false) :
    rule.limit ≤ ((rule.allowedBy calls c.key).filter fun t =>
      decide (c.now - rule.windowSeconds < t ∧ t ≤ c.now)).length := by
  have hfull : rule.limit ≤ (rule.kept (rule.run calls).1 c).length := by
    by_contra hroom
    have hyes := (rule.check_allowed_iff _ c).mpr (not_le.mp hroom)
    exact absurd (h.symm.trans hyes) (by simp)
  obtain ⟨fallen, hsplit, -⟩ := rule.allowedBy_at (clockForward_concat.mp hclock).2 hexact
  have hall : (rule.kept (rule.run calls).1 c).filter (fun t =>
      decide (c.now - rule.windowSeconds < t ∧ t ≤ c.now)) = rule.kept (rule.run calls).1 c :=
    List.filter_eq_self.mpr fun t ht => decide_eq_true (rule.kept_window hclock hexact ht)
  rw [hsplit, List.filter_append, List.length_append, hall]
  omega

/-! ### The wait -/

/-- Who is turned away and waits as told finds the oldest time fallen out. -/
theorem retry_after_le {hits : RateHits K} {c : RateCall K}
    (h : (rule.check hits c).1.allowed = false) {t : K} (ht : t ∈ (rule.kept hits c).head?)
    (hexact : rule.fl (rule.fl (t + rule.windowSeconds) - c.now)
      = t + rule.windowSeconds - c.now) :
    t + rule.windowSeconds ≤ c.now + ((rule.check hits c).1.retryAfterSeconds : K) := by
  have hfull : rule.limit ≤ (rule.kept hits c).length := by
    by_contra hroom
    have hyes := (rule.check_allowed_iff hits c).mpr (not_le.mp hroom)
    rw [h] at hyes
    exact absurd hyes (by simp)
  have hhead : (rule.kept hits c).headD 0 = t := by
    rw [List.headD_eq_head?_getD, Option.mem_def.mp ht, Option.getD_some]
  unfold check
  simp only [if_pos hfull, hhead, hexact]
  have hceil : (t + rule.windowSeconds - c.now) ≤ (⌈t + rule.windowSeconds - c.now⌉ : K) :=
    Int.le_ceil _
  have hmax : (⌈t + rule.windowSeconds - c.now⌉ : K)
      ≤ ((max 1 ⌈t + rule.windowSeconds - c.now⌉ : ℤ) : K) := by
    exact_mod_cast le_max_right 1 ⌈t + rule.windowSeconds - c.now⌉
  linarith

/-- Who waits as told is let through. -/
theorem allowed_after_wait {before between : List (RateCall K)} {c c' : RateCall K}
    (hexact : rule.ExactAt ((before ++ [c, c']).map (·.now)))
    (hdenied : (rule.answer before c).allowed = false) (hkey : c'.key = c.key)
    (hbetween : ∀ d ∈ between, d.key ≠ c.key)
    (hwait : c.now + ((rule.answer before c).retryAfterSeconds : K) ≤ c'.now) :
    (rule.answer (before ++ c :: between) c').allowed = true := by
  refine (rule.check_allowed_iff _ c').mpr ?_
  -- The denied call left what it kept, and the calls between left it as it was.
  have hhits : (rule.run (before ++ c :: between)).1 c'.key
      = rule.kept (rule.run before).1 c := by
    rw [List.append_cons, hkey, rule.run_others _ hbetween, run_concat]
    show (rule.check (rule.run before).1 c).2 c.key = _
    rw [check_hits, Function.update_self]
    have hno : ¬ (rule.check (rule.run before).1 c).1.allowed = true := by
      rw [show (rule.check (rule.run before).1 c).1.allowed = false from hdenied]
      simp
    rw [if_neg hno, List.append_nil]
  obtain ⟨dropped, hdropped, -⟩ := rule.kept_split (rule.run before).1 c
  have hlength := congrArg List.length hdropped
  have hshort := (rule.tracks_run before c.key).short
  rw [List.length_append] at hlength
  unfold kept
  rw [hhits]
  have hpos := rule.limit_pos
  cases hkept : rule.kept (rule.run before).1 c with
  | nil => simpa using hpos
  | cons t rest =>
      have hold : t ≤ rule.fl (c'.now - rule.windowSeconds) := by
        have hread : t ∈ before.map (·.now) :=
          (rule.kept_sublist before c).subset (by rw [hkept]; exact List.mem_cons_self)
        have hsum := (hexact c.now (by simp)).2 t
          (by rw [List.map_append]; exact List.mem_append_left _ hread)
        have hle := rule.retry_after_le hdenied (t := t) (by rw [hkept]; rfl) hsum
        have hsame : (rule.check (rule.run before).1 c).1 = rule.answer before c := rfl
        rw [hsame] at hle
        rw [(hexact c'.now (by simp)).1]
        linarith
      have htail : (rest.dropWhile fun t =>
          decide (t ≤ rule.fl (c'.now - rule.windowSeconds))).length
          ≤ rest.length := (List.dropWhile_sublist _).length_le
      rw [List.dropWhile_cons_of_pos (by simpa using hold)]
      rw [hkept, List.length_cons] at hlength
      omega

/-! ### The limiter -/

/-- What a limiter promises of the calls of a run. -/
structure Limits (calls : List (RateCall K)) : Prop where
  /-- At most the limit of a key is let through in a window, open at either end. -/
  bounded : ∀ key start,
    ((rule.allowedBy calls key).filter fun t =>
      decide (start ≤ t ∧ t < start + rule.windowSeconds)).length ≤ rule.limit ∧
    ((rule.allowedBy calls key).filter fun t =>
      decide (start < t ∧ t ≤ start + rule.windowSeconds)).length ≤ rule.limit
  /-- Who is turned away finds as many in the window before. -/
  denied : ∀ before c after, calls = before ++ c :: after →
    (rule.answer before c).allowed = false →
      rule.limit ≤ ((rule.allowedBy before c.key).filter fun t =>
        decide (c.now - rule.windowSeconds < t ∧ t ≤ c.now)).length
  /-- Who waits as told, without another call of the key, is let through. -/
  retry : ∀ before c between c' after, calls = before ++ c :: (between ++ c' :: after) →
    (rule.answer before c).allowed = false → c'.key = c.key → (∀ d ∈ between, d.key ≠ c.key) →
      c.now + ((rule.answer before c).retryAfterSeconds : K) ≤ c'.now →
        (rule.answer (before ++ c :: between) c').allowed = true
  /-- The calls of other keys change nothing. -/
  independent : ∀ before c after, calls = before ++ c :: after →
    rule.answer before c = rule.answer (before.filter fun d => decide (d.key = c.key)) c

/-- **The limiter limits**, as long as the clock does not go back and its readings are computed
with exactly. -/
theorem limits_run {calls : List (RateCall K)} (hclock : ClockForward calls)
    (hexact : rule.ExactAt (calls.map (·.now))) : rule.Limits calls where
  bounded := fun key start => by
    refine ⟨rule.bounded_run hclock hexact key _ ⟨?_⟩, rule.bounded_run hclock hexact key _ ⟨?_⟩⟩
    · rintro s t ⟨hs, -⟩ ⟨-, ht⟩
      linarith
    · rintro s t ⟨hs, -⟩ ⟨-, ht⟩
      linarith
  denied := fun before c after hsplit hdenied => by
    have hprefix : ClockForward (before ++ [c]) := by
      unfold ClockForward at hclock ⊢
      rw [hsplit, List.append_cons] at hclock
      exact (List.pairwise_append.mp hclock).1
    refine rule.full_of_denied hprefix (hexact.mono (List.map_subset _ ?_)) hdenied
    rw [hsplit, List.append_cons before c after]
    exact List.subset_append_left _ _
  retry := fun before c between c' after hsplit hdenied hkey hbetween hwait => by
    refine rule.allowed_after_wait (hexact.mono (List.map_subset _ ?_)) hdenied hkey hbetween hwait
    rw [hsplit]
    intro d hd
    simp only [List.mem_append, List.mem_cons, List.not_mem_nil, or_false] at hd ⊢
    tauto
  independent := fun before c _ _ =>
    (rule.check_congr (rule.run_own before c.key)).1.symm

/-! ### Floating-point clocks

A clock of whole ticks, each a power of two of a second, is computed with exactly while it
stays small.  Other readings are not: of a window that ends between two numbers of the format,
the end and the wait can round to different sides.
-/

/-- **A clock of whole ticks is computed with exactly.** -/
theorem exactAt_scaled {rule : RateRule ℚ} (hfl : rule.fl = Rounding.binary64) {e : ℤ}
    (he : -1074 ≤ e) {w : ℤ} (hw : |w| < 2 ^ 51) (hwindow : rule.windowSeconds = w * 2 ^ e)
    {times : List ℚ} (htimes : ∀ t ∈ times, ∃ n : ℤ, |n| < 2 ^ 51 ∧ t = n * 2 ^ e) :
    rule.ExactAt times := by
  intro s hs
  obtain ⟨m, hm, rfl⟩ := htimes s hs
  rw [hfl, hwindow]
  rw [abs_lt] at hw hm
  refine ⟨?_, fun t ht => ?_⟩
  · rw [← sub_mul, ← Int.cast_sub]
    exact Rounding.binary64_scaled (abs_lt.mpr ⟨by omega, by omega⟩) he
  · obtain ⟨n, hn, rfl⟩ := htimes t ht
    rw [abs_lt] at hn
    rw [← add_mul, ← Int.cast_add,
      Rounding.binary64_scaled (abs_lt.mpr ⟨by omega, by omega⟩) he, ← sub_mul, ← Int.cast_sub]
    exact Rounding.binary64_scaled (abs_lt.mpr ⟨by omega, by omega⟩) he

end RateRule

/-- So many calls in sixty seconds, in floating-point numbers. -/
def floatMinute (limit : ℕ) (h : 0 < limit) : RateRule ℚ where
  limit := limit
  windowSeconds := 60
  fl := Rounding.binary64
  limit_pos := h
  window_pos := by norm_num

/-- Three logins of one address within a minute and one of another. -/
def logins : List (RateCall ℚ) :=
  [⟨"login:a", 0⟩, ⟨"login:a", 10⟩, ⟨"login:b", 20⟩, ⟨"login:a", 30⟩, ⟨"login:a", 60⟩]

example : ((floatMinute 2 (by decide)).run logins).2.map (·.2) =
    [⟨true, 0⟩, ⟨true, 0⟩, ⟨true, 0⟩, ⟨false, 30⟩, ⟨true, 0⟩] := by decide +kernel

/-- The limiter limits the logins, which come at whole seconds. -/
theorem logins_limited : (floatMinute 2 (by decide)).Limits logins := by
  refine (floatMinute 2 (by decide)).limits_run ?_ ?_
  · unfold RateRule.ClockForward
    decide +kernel
  · refine RateRule.exactAt_scaled (e := 0) (w := 60) rfl (by decide) (by decide) ?_ fun t ht => ?_
    · norm_num [floatMinute]
    · simp only [logins, List.map_cons, List.map_nil, List.mem_cons, List.not_mem_nil,
        or_false] at ht
      rcases ht with rfl | rfl | rfl | rfl | rfl
      · exact ⟨0, by decide, by norm_num⟩
      · exact ⟨10, by decide, by norm_num⟩
      · exact ⟨20, by decide, by norm_num⟩
      · exact ⟨30, by decide, by norm_num⟩
      · exact ⟨60, by decide, by norm_num⟩

/-- Readings of about 1002.017, 1034.017 and 1062.017 seconds, as floating-point numbers. -/
def driftingLogins : List (RateCall ℚ) :=
  [⟨"login:a", 8813835824263409 / 8796093022208⟩, ⟨"login:a", 568456925060879 / 549755813888⟩,
    ⟨"login:a", 583850087849743 / 549755813888⟩]

/-- Of one call a minute, the second of these is told to wait for 28 seconds, and the third,
which did, is turned away. -/
theorem drifting_denied :
    (∀ c ∈ driftingLogins, Rounding.binary64 c.now = c.now) ∧
      ¬ ∀ calls : List (RateCall ℚ), RateRule.ClockForward calls →
        (floatMinute 1 Nat.one_pos).Limits calls := by
  refine ⟨by decide +kernel, fun h => ?_⟩
  have hforward : RateRule.ClockForward driftingLogins := by
    unfold RateRule.ClockForward
    decide +kernel
  have hallowed := (h driftingLogins hforward).retry [⟨"login:a", 8813835824263409 / 8796093022208⟩]
    ⟨"login:a", 568456925060879 / 549755813888⟩ []
    ⟨"login:a", 583850087849743 / 549755813888⟩ [] rfl (by decide +kernel) rfl (by simp)
    (by decide +kernel)
  exact absurd hallowed (by decide +kernel)

end ForexAi
