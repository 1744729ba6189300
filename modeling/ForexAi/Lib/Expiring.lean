/-
A store whose keys have a time to live.

A key holds a value, until its deadline if it has one.  Past the deadline the key is gone,
whether or not anybody looks.

What a key holds after a run of whole writes is told by the run alone (`get_run_iff`): the
value of the last write, if nothing removed the key since and less than its time to live has
passed.  A write may also be made in two calls, first the value and then the deadline; where
nothing cuts it off between them the two calls are one write (`expire_put`).
-/
import ForexAi.Lib.Runs
import Mathlib.Algebra.Ring.Nat
import Mathlib.Data.Nat.Notation
import Mathlib.Data.Option.Basic
import Mathlib.Logic.Function.Basic

namespace Expiring

variable {κ V : Type*}

/-- A value, and when it goes. -/
structure Cell (V : Type*) where
  value : V
  deadline : Option ℕ

/-- The clock and the cells. -/
structure Store (κ V : Type*) where
  now : ℕ
  cells : κ → Option (Cell V)

/-- A store that holds nothing. -/
def fresh : Store κ V := ⟨0, fun _ => none⟩

/-- The deadline has passed. -/
def Cell.over (c : Cell V) (now : ℕ) : Bool := c.deadline.any fun d => d ≤ now

theorem Cell.over_eq_false {v : V} {d now : ℕ} :
    (⟨v, some d⟩ : Cell V).over now = false ↔ now < d := by
  simp [Cell.over]

namespace Store

/-- The cell of a key that is not gone. -/
def live (s : Store κ V) (k : κ) : Option (Cell V) := (s.cells k).filter fun c => !c.over s.now

/-- `GET`. -/
def get (s : Store κ V) (k : κ) : Option V := (s.live k).map Cell.value

/-- Time passes. -/
def elapse (s : Store κ V) (d : ℕ) : Store κ V := { s with now := s.now + d }

variable [DecidableEq κ]

/-- `HSET` of all fields: the value is replaced, the deadline stays. -/
def put (s : Store κ V) (k : κ) (v : V) : Store κ V :=
  { s with cells := Function.update s.cells k (some ⟨v, (s.live k).bind Cell.deadline⟩) }

/-- `EXPIRE`. -/
def expire (s : Store κ V) (k : κ) (ttl : ℕ) : Store κ V :=
  match s.live k with
  | none => s
  | some c => { s with cells := Function.update s.cells k (some ⟨c.value, some (s.now + ttl)⟩) }

/-- `SET` with `EX`: value and deadline at once. -/
def setEx (s : Store κ V) (k : κ) (v : V) (ttl : ℕ) : Store κ V :=
  { s with cells := Function.update s.cells k (some ⟨v, some (s.now + ttl)⟩) }

/-- `DEL`. -/
def del (s : Store κ V) (k : κ) : Store κ V := { s with cells := Function.update s.cells k none }

/-! ### What each operation leaves -/

omit [DecidableEq κ] in
@[simp] theorem now_elapse (s : Store κ V) (d : ℕ) : (s.elapse d).now = s.now + d := rfl

@[simp] theorem now_put (s : Store κ V) (k : κ) (v : V) : (s.put k v).now = s.now := rfl

@[simp] theorem now_expire (s : Store κ V) (k : κ) (ttl : ℕ) : (s.expire k ttl).now = s.now := by
  unfold expire
  split <;> rfl

@[simp] theorem now_setEx (s : Store κ V) (k : κ) (v : V) (ttl : ℕ) :
    (s.setEx k v ttl).now = s.now := rfl

@[simp] theorem now_del (s : Store κ V) (k : κ) : (s.del k).now = s.now := rfl

omit [DecidableEq κ] in
@[simp] theorem cells_elapse (s : Store κ V) (d : ℕ) : (s.elapse d).cells = s.cells := rfl

@[simp] theorem cells_setEx (s : Store κ V) (k : κ) (v : V) (ttl : ℕ) :
    (s.setEx k v ttl).cells k = some ⟨v, some (s.now + ttl)⟩ := Function.update_self ..

theorem cells_setEx_of_ne {j k : κ} (h : j ≠ k) (s : Store κ V) (v : V) (ttl : ℕ) :
    (s.setEx k v ttl).cells j = s.cells j := Function.update_of_ne h ..

@[simp] theorem cells_del (s : Store κ V) (k : κ) : (s.del k).cells k = none :=
  Function.update_self ..

theorem cells_del_of_ne {j k : κ} (h : j ≠ k) (s : Store κ V) : (s.del k).cells j = s.cells j :=
  Function.update_of_ne h ..

@[simp] theorem cells_put (s : Store κ V) (k : κ) (v : V) :
    (s.put k v).cells k = some ⟨v, (s.live k).bind Cell.deadline⟩ := Function.update_self ..

theorem cells_put_of_ne {j k : κ} (h : j ≠ k) (s : Store κ V) (v : V) :
    (s.put k v).cells j = s.cells j := Function.update_of_ne h ..

omit [DecidableEq κ] in
theorem get_eq_some {s : Store κ V} {k : κ} {v : V} :
    s.get k = some v ↔ ∃ c, s.cells k = some c ∧ c.over s.now = false ∧ c.value = v := by
  unfold get live
  rw [Option.map_eq_some_iff]
  constructor
  · rintro ⟨c, hlive, hvalue⟩
    rw [Option.filter_eq_some_iff] at hlive
    exact ⟨c, hlive.1, by simpa using hlive.2, hvalue⟩
  · rintro ⟨c, hcell, hover, hvalue⟩
    refine ⟨c, ?_, hvalue⟩
    rw [Option.filter_eq_some_iff]
    exact ⟨hcell, by simpa using hover⟩

omit [DecidableEq κ] in
/-- The deadline of a key that is not gone lies ahead. -/
theorem over_live (s : Store κ V) (k : κ) (v : V) :
    (⟨v, (s.live k).bind Cell.deadline⟩ : Cell V).over s.now = false := by
  cases hlive : s.live k with
  | none => rfl
  | some c =>
      unfold live at hlive
      rw [Option.filter_eq_some_iff] at hlive
      have hc : c.over s.now = false := by simpa using hlive.2
      exact hc

/-- A value that was just written is there. -/
theorem live_put (s : Store κ V) (k : κ) (v : V) :
    (s.put k v).live k = some ⟨v, (s.live k).bind Cell.deadline⟩ := by
  show ((s.put k v).cells k).filter (fun c => !c.over s.now) = _
  rw [cells_put, Option.filter_some, over_live]
  rfl

/-- **A write in two calls is one write**, where nothing comes between them. -/
theorem expire_put (s : Store κ V) (k : κ) (v : V) (ttl : ℕ) :
    (s.put k v).expire k ttl = s.setEx k v ttl := by
  unfold expire
  rw [live_put]
  show Store.mk s.now _ = Store.mk s.now _
  refine congrArg _ ?_
  show Function.update (Function.update s.cells k _) k _ = _
  rw [Function.update_idem]
  rfl

end Store

/-! ### Runs of whole writes -/

/-- What may happen between two looks at the store. -/
inductive Op (κ V : Type*) where
  | write (k : κ) (v : V) (ttl : ℕ)
  | remove (k : κ)
  | elapse (d : ℕ)

namespace Op

/-- The key an operation is about. -/
def key : Op κ V → Option κ
  | write k _ _ => some k
  | remove k => some k
  | elapse _ => none

/-- The time an operation takes. -/
def time : Op κ V → ℕ
  | elapse d => d
  | _ => 0

variable [DecidableEq κ]

def step (s : Store κ V) : Op κ V → Store κ V
  | write k v ttl => s.setEx k v ttl
  | remove k => s.del k
  | elapse d => s.elapse d

@[simp] theorem now_step (s : Store κ V) (op : Op κ V) : (step s op).now = s.now + op.time := by
  cases op <;> rfl

theorem cells_step {k : κ} {op : Op κ V} (h : op.key ≠ some k) (s : Store κ V) :
    (step s op).cells k = s.cells k := by
  cases op with
  | write j v ttl => exact Store.cells_setEx_of_ne (fun hk => h (congrArg some hk.symm)) s v ttl
  | remove j => exact Store.cells_del_of_ne (fun hk => h (congrArg some hk.symm)) s
  | elapse d => rfl

end Op

/-- The time a run takes. -/
def elapsed (ops : List (Op κ V)) : ℕ := (ops.map Op.time).sum

variable [DecidableEq κ]

@[simp] theorem now_run (s : Store κ V) (ops : List (Op κ V)) :
    (Runs.run Op.step s ops).now = s.now + elapsed ops := by
  induction ops generalizing s with
  | nil => rfl
  | cons op rest ih =>
      rw [Runs.run_cons, ih, Op.now_step]
      simp only [elapsed, List.map_cons, List.sum_cons]
      omega

/-- What nothing is done to stays. -/
theorem cells_run {k : κ} {ops : List (Op κ V)} (h : ∀ op ∈ ops, op.key ≠ some k)
    (s : Store κ V) : (Runs.run Op.step s ops).cells k = s.cells k := by
  induction ops generalizing s with
  | nil => rfl
  | cons op rest ih =>
      rw [Runs.run_cons, ih fun o ho => h o (List.mem_cons_of_mem op ho),
        Op.cells_step (h op List.mem_cons_self)]

/-- The last thing done to the key in this run is to write `v`, and its time has not passed. -/
def Standing (ops : List (Op κ V)) (k : κ) (v : V) : Prop :=
  ∃ before ttl after, ops = before ++ Op.write k v ttl :: after ∧
    (∀ op ∈ after, op.key ≠ some k) ∧ elapsed after < ttl

theorem cells_written (s : Store κ V) (before after : List (Op κ V)) (k : κ) (v : V) (ttl : ℕ)
    (h : ∀ op ∈ after, op.key ≠ some k) :
    (Runs.run Op.step s (before ++ Op.write k v ttl :: after)).cells k =
      some ⟨v, some (s.now + elapsed before + ttl)⟩ := by
  rw [Runs.run_append, Runs.run_cons, cells_run h]
  show (Store.setEx _ k v ttl).cells k = _
  rw [Store.cells_setEx, now_run]

omit [DecidableEq κ] in
theorem elapsed_append (ops rest : List (Op κ V)) :
    elapsed (ops ++ rest) = elapsed ops + elapsed rest := by
  unfold elapsed
  rw [List.map_append, List.sum_append]

omit [DecidableEq κ] in
theorem elapsed_split (before after : List (Op κ V)) (k : κ) (v : V) (ttl : ℕ) :
    elapsed (before ++ Op.write k v ttl :: after) = elapsed before + elapsed after := by
  rw [elapsed_append]
  show elapsed before + (0 + elapsed after) = _
  omega

/-- **What a key holds is what the run last wrote to it**, if nothing was done to it since and
its time has not passed. -/
theorem get_run_iff (ops : List (Op κ V)) (k : κ) (v : V) :
    (Runs.run Op.step fresh ops).get k = some v ↔ Standing ops k v := by
  rw [Store.get_eq_some]
  constructor
  · rintro ⟨c, hcell, hover, rfl⟩
    rcases Runs.last_with (fun op => op.key = some k) ops with
      hnone | ⟨before, op, after, rfl, hkey, hafter⟩
    · rw [cells_run hnone] at hcell
      exact absurd hcell (by simp [fresh])
    · cases op with
      | elapse d => exact absurd hkey (by simp [Op.key])
      | remove j =>
          obtain rfl : j = k := by simpa [Op.key] using hkey
          rw [Runs.run_append, Runs.run_cons, cells_run hafter] at hcell
          exact absurd hcell (by simp [Op.step])
      | write j w ttl =>
          obtain rfl : j = k := by simpa [Op.key] using hkey
          rw [cells_written fresh before after j w ttl hafter] at hcell
          obtain rfl := Option.some.inj hcell
          refine ⟨before, ttl, after, rfl, hafter, ?_⟩
          rw [Cell.over_eq_false, now_run, elapsed_split] at hover
          omega
  · rintro ⟨before, ttl, after, rfl, hafter, htime⟩
    refine ⟨_, cells_written fresh before after k v ttl hafter, ?_, rfl⟩
    rw [Cell.over_eq_false, now_run, elapsed_split]
    omega

end Expiring
