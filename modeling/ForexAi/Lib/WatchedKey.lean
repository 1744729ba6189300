/-
One key of a shared store, with a deadline and optimistic transactions.

The key holds a value until its deadline, or nothing.  A connection that watches the key
has its next transaction dropped if the key was written, deleted or expired meanwhile.
What a watching connection may rely on is `Told`: as long as its watch is clean, no step of
anybody else has changed what the key holds.
-/
import Mathlib.Data.Option.Basic
import Mathlib.Data.Nat.Notation

/-- What the key holds, and until when. -/
structure Lease (V : Type*) where
  value : V
  deadline : ℕ
  deriving DecidableEq

/-- The key, the clock, and the connections that watch it: each with whether the key was
touched since. -/
structure WatchedKey (ι V : Type*) where
  now : ℕ
  held : Option (Lease V)
  watch : ι → Option Bool

namespace WatchedKey

variable {ι V : Type*}

/-- A key that holds nothing and nobody watches. -/
def fresh : WatchedKey ι V := ⟨0, none, fun _ => none⟩

/-- What `GET` answers. -/
def get (k : WatchedKey ι V) : Option V := k.held.map (·.value)

/-- The key is written, deleted or expires: every watch is told. -/
def write (k : WatchedKey ι V) (held : Option (Lease V)) : WatchedKey ι V :=
  { k with held, watch := fun i => (k.watch i).map fun _ => true }

/-- Time passes; a key past its deadline is gone. -/
def elapse (k : WatchedKey ι V) (d : ℕ) : WatchedKey ι V :=
  match k.held with
  | none => { k with now := k.now + d }
  | some lease =>
      if lease.deadline ≤ k.now + d then { k.write none with now := k.now + d }
      else { k with now := k.now + d }

/-- `SET NX` with a time to live: only where the key holds nothing. -/
def setNx (k : WatchedKey ι V) (value : V) (ttl : ℕ) : Bool × WatchedKey ι V :=
  match k.held with
  | none => (true, k.write (some ⟨value, k.now + ttl⟩))
  | some _ => (false, k)

/-- `PEXPIRE`. -/
def pexpire (k : WatchedKey ι V) (ttl : ℕ) : Option (Lease V) :=
  k.held.map fun lease => { lease with deadline := k.now + ttl }

variable [DecidableEq ι]

/-- `WATCH`. -/
def startWatch (k : WatchedKey ι V) (i : ι) : WatchedKey ι V :=
  { k with watch := fun j => if j = i then some false else k.watch j }

/-- `UNWATCH`, and the end of a connection. -/
def unwatch (k : WatchedKey ι V) (i : ι) : WatchedKey ι V :=
  { k with watch := fun j => if j = i then none else k.watch j }

/-- `MULTI`, one write, `EXEC`: dropped where the watched key was touched. -/
def exec (k : WatchedKey ι V) (i : ι) (held : Option (Lease V)) : Bool × WatchedKey ι V :=
  if k.watch i = some true then (false, k.unwatch i) else (true, (k.write held).unwatch i)

/-! ### What each operation leaves of the key -/

omit [DecidableEq ι] in
@[simp] theorem now_elapse (k : WatchedKey ι V) (d : ℕ) : (k.elapse d).now = k.now + d := by
  unfold elapse
  split
  · rfl
  · split <;> rfl

omit [DecidableEq ι] in
/-- **Time changes the key in one way**: past its deadline it is gone. -/
theorem held_elapse (k : WatchedKey ι V) (d : ℕ) :
    (k.elapse d).held = k.held.filter fun lease => decide (k.now + d < lease.deadline) := by
  unfold elapse
  split
  case h_1 h => rw [h]; rfl
  case h_2 lease h =>
    rw [h]
    by_cases hpast : lease.deadline ≤ k.now + d
    · rw [if_pos hpast, Option.filter_some, if_neg (by simpa using hpast)]
      rfl
    · rw [if_neg hpast, Option.filter_some, if_pos (by simpa using hpast)]

omit [DecidableEq ι] in
/-- **`SET NX` succeeds only on a key that holds nothing**, and else changes nothing. -/
theorem setNx_spec (k : WatchedKey ι V) (value : V) (ttl : ℕ) :
    ((k.setNx value ttl).1 = true ∧ k.held = none ∧
        (k.setNx value ttl).2.held = some ⟨value, k.now + ttl⟩) ∨
      ((k.setNx value ttl).1 = false ∧ (k.setNx value ttl).2 = k) := by
  unfold setNx
  split
  · exact Or.inl ⟨rfl, by assumption, rfl⟩
  · exact Or.inr ⟨rfl, rfl⟩

omit [DecidableEq ι] in
@[simp] theorem now_setNx (k : WatchedKey ι V) (value : V) (ttl : ℕ) :
    (k.setNx value ttl).2.now = k.now := by
  unfold setNx
  split <;> rfl

/-- **A transaction runs whole or not at all.** -/
theorem exec_spec (k : WatchedKey ι V) (i : ι) (held : Option (Lease V)) :
    ((k.exec i held).1 = true ∧ k.watch i ≠ some true ∧ (k.exec i held).2.held = held) ∨
      ((k.exec i held).1 = false ∧ (k.exec i held).2.held = k.held) := by
  unfold exec
  by_cases h : k.watch i = some true
  · rw [if_pos h]
    exact Or.inr ⟨rfl, rfl⟩
  · rw [if_neg h]
    exact Or.inl ⟨rfl, h, rfl⟩

@[simp] theorem now_exec (k : WatchedKey ι V) (i : ι) (held : Option (Lease V)) :
    (k.exec i held).2.now = k.now := by
  unfold exec
  split <;> rfl

/-! ### What a watching connection may rely on -/

/-- What happened does not pass the connection `i` by: it watches still, and if its watch is
clean it was clean before and the key holds the same. -/
structure Told (i : ι) (k k' : WatchedKey ι V) : Prop where
  keeps : k.watch i ≠ none → k'.watch i ≠ none
  clean : k'.watch i = some false → k.watch i = some false ∧ k'.held = k.held

namespace Told

variable {i j : ι} {k : WatchedKey ι V}

omit [DecidableEq ι] in
theorem refl : Told i k k := ⟨fun h => h, fun h => ⟨h, rfl⟩⟩

omit [DecidableEq ι] in
theorem trans {k' k'' : WatchedKey ι V} (h : Told i k k') (h' : Told i k' k'') :
    Told i k k'' where
  keeps hwatch := h'.keeps (h.keeps hwatch)
  clean hclean := by
    obtain ⟨hmid, hheld'⟩ := h'.clean hclean
    obtain ⟨hstart, hheld⟩ := h.clean hmid
    exact ⟨hstart, hheld'.trans hheld⟩

omit [DecidableEq ι] in
/-- A write is always seen. -/
theorem write (held : Option (Lease V)) : Told i k (k.write held) := by
  refine ⟨fun h hnone => h (Option.map_eq_none_iff.mp hnone), fun h => ?_⟩
  obtain ⟨_, _, hfalse⟩ := Option.map_eq_some_iff.mp h
  exact absurd hfalse (by simp)

omit [DecidableEq ι] in
theorem elapse (d : ℕ) : Told i k (k.elapse d) := by
  unfold WatchedKey.elapse
  split
  · exact ⟨fun h => h, fun h => ⟨h, rfl⟩⟩
  · split
    · exact ⟨(write none).keeps, (write none).clean⟩
    · exact ⟨fun h => h, fun h => ⟨h, rfl⟩⟩

omit [DecidableEq ι] in
theorem setNx (value : V) (ttl : ℕ) : Told i k (k.setNx value ttl).2 := by
  unfold WatchedKey.setNx
  split
  · exact write _
  · exact refl

theorem watch_startWatch (hne : i ≠ j) : (k.startWatch j).watch i = k.watch i := if_neg hne

theorem watch_unwatch (hne : i ≠ j) : (k.unwatch j).watch i = k.watch i := if_neg hne

/-- Another connection's watch is its own. -/
theorem startWatch (hne : i ≠ j) : Told i k (k.startWatch j) := by
  refine ⟨?_, ?_⟩ <;> rw [watch_startWatch hne]
  · exact fun h => h
  · exact fun h => ⟨h, rfl⟩

theorem unwatch (hne : i ≠ j) : Told i k (k.unwatch j) := by
  refine ⟨?_, ?_⟩ <;> rw [watch_unwatch hne]
  · exact fun h => h
  · exact fun h => ⟨h, rfl⟩

theorem exec (hne : i ≠ j) (held : Option (Lease V)) : Told i k (k.exec j held).2 := by
  unfold WatchedKey.exec
  split
  · exact unwatch hne
  · exact (write held).trans (unwatch hne)

end Told

end WatchedKey
