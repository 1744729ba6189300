/-
Append-only streams and their consumer groups.

An entry gets an identifier past every earlier one.  A group remembers the last
identifier it handed out and which of those it handed out are not acknowledged yet.
Reading with `>` hands out what lies past the last identifier, so an entry is handed out
at most once (`readNew_past`, `past_step`): what is not acknowledged stays pending, and no
such read returns it again.

A reader without a group keeps a cursor of its own.  What lies past the cursor grows at the
end as entries are added, as long as none of it is trimmed (`past_add`), and a read takes its
front away (`past_readPast`).
-/
import ForexAi.Lib.Ascending
import Mathlib.Algebra.Ring.Nat
import Mathlib.Data.List.Pairwise

/-- A stream: its entries in order, and the last identifier it gave. -/
structure LogStream (α : Type*) where
  entries : List (ℕ × α)
  lastId : ℕ
  ascending : entries.Pairwise (·.1 < ·.1)
  bounded : ∀ e ∈ entries, e.1 ≤ lastId

/-- A consumer group of a stream. -/
structure ConsumerGroup where
  lastDelivered : ℕ := 0
  pending : List ℕ := []

namespace LogStream

variable {α : Type*}

/-- What an ascending batch holds past the last of its first entries is the rest of it. -/
theorem filter_past_take {batch : List (ℕ × α)} (hascending : batch.Pairwise (·.1 < ·.1))
    {count : ℕ} {last : ℕ × α} (hlast : (batch.take count).getLast? = some last) :
    batch.filter (fun e => decide (last.1 < e.1)) = batch.drop count := by
  have hsplit := List.take_append_drop count batch
  have hparts := hascending
  rw [← hsplit, List.pairwise_append] at hparts
  have hfront : (batch.take count).filter (fun e => decide (last.1 < e.1)) = [] :=
    List.filter_eq_nil_iff.mpr fun e he => by
      simpa using Ascending.key_le_newest Prod.fst hparts.1 hlast e he
  have hrest : (batch.drop count).filter (fun e => decide (last.1 < e.1)) = batch.drop count :=
    List.filter_eq_self.mpr fun e he => by
      simpa using hparts.2.2 last (List.mem_of_getLast? hlast) e he
  calc batch.filter (fun e => decide (last.1 < e.1))
      = (batch.take count ++ batch.drop count).filter (fun e => decide (last.1 < e.1)) := by
        rw [hsplit]
    _ = batch.drop count := by rw [List.filter_append, hfront, hrest, List.nil_append]

/-- A stream nothing was added to. -/
def empty : LogStream α := ⟨[], 0, List.Pairwise.nil, fun e he => absurd he (by simp)⟩

/-- `XADD … MAXLEN`: the entry goes to the end; some of the oldest may be trimmed. -/
def add (s : LogStream α) (trimmed : ℕ) (a : α) : LogStream α where
  entries := s.entries.drop trimmed ++ [(s.lastId + 1, a)]
  lastId := s.lastId + 1
  ascending := by
    refine List.pairwise_append.mpr ⟨s.ascending.sublist (List.drop_sublist _ _), ?_, ?_⟩
    · exact List.pairwise_singleton _ _
    · intro e he f hf
      rw [List.mem_singleton.mp hf]
      exact Nat.lt_succ_of_le (s.bounded e (List.mem_of_mem_drop he))
  bounded := by
    intro e he
    rcases List.mem_append.mp he with he | he
    · exact Nat.le_succ_of_le (s.bounded e (List.mem_of_mem_drop he))
    · exact Nat.le_of_eq (congrArg Prod.fst (List.mem_singleton.mp he))

/-- `XREADGROUP … COUNT count STREAMS s >`: what the group is handed next. -/
def readNew (s : LogStream α) (g : ConsumerGroup) (count : ℕ) : List (ℕ × α) :=
  (s.entries.filter fun e => decide (g.lastDelivered < e.1)).take count

/-- What is handed out lies past what was handed out before. -/
theorem readNew_past {s : LogStream α} {g : ConsumerGroup} {count : ℕ} {e : ℕ × α}
    (h : e ∈ s.readNew g count) : g.lastDelivered < e.1 :=
  of_decide_eq_true (List.mem_filter.mp (List.mem_of_mem_take h)).2

theorem readNew_ascending (s : LogStream α) (g : ConsumerGroup) (count : ℕ) :
    (s.readNew g count).Pairwise (·.1 < ·.1) :=
  s.ascending.sublist ((List.take_sublist _ _).trans List.filter_sublist)

/-! ### Readers without a group -/

/-- What lies past a cursor. -/
def past (s : LogStream α) (cursor : ℕ) : List (ℕ × α) :=
  s.entries.filter fun e => decide (cursor < e.1)

/-- `XREAD COUNT count STREAMS s cursor`. -/
def readPast (s : LogStream α) (cursor count : ℕ) : List (ℕ × α) := (s.past cursor).take count

/-- `XREVRANGE s + - COUNT 1`: the identifier of the newest entry, if there is one. -/
def newest (s : LogStream α) : Option ℕ := s.entries.getLast?.map (·.1)

/-- Nothing lies past the newest entry. -/
theorem past_newest {s : LogStream α} {cursor : ℕ} (h : s.newest = some cursor) :
    s.past cursor = [] := by
  unfold newest at h
  obtain ⟨last, hlast, rfl⟩ := Option.map_eq_some_iff.mp h
  exact List.filter_eq_nil_iff.mpr fun e he => by
    simpa using Ascending.key_le_newest Prod.fst s.ascending hlast e he

theorem newest_le {s : LogStream α} {cursor : ℕ} (h : s.newest = some cursor) :
    cursor ≤ s.lastId := by
  unfold newest at h
  obtain ⟨last, hlast, rfl⟩ := Option.map_eq_some_iff.mp h
  exact s.bounded last (List.mem_of_getLast? hlast)

theorem newest_eq_none {s : LogStream α} : s.newest = none ↔ s.entries = [] := by
  unfold newest
  rw [Option.map_eq_none_iff, List.getLast?_eq_none_iff]

/-- **What is added lies past the cursor, behind what was there**, when nothing the reader has
still to read is trimmed. -/
theorem past_add {s : LogStream α} {cursor trimmed : ℕ} (a : α) (hcursor : cursor ≤ s.lastId)
    (htrimmed : ∀ e ∈ s.entries.take trimmed, e.1 ≤ cursor) :
    (s.add trimmed a).past cursor = s.past cursor ++ [(s.lastId + 1, a)] := by
  have hfront : (s.entries.take trimmed).filter (fun e => decide (cursor < e.1)) = [] :=
    List.filter_eq_nil_iff.mpr fun e he => by simpa using htrimmed e he
  have hkept : (s.entries.drop trimmed).filter (fun e => decide (cursor < e.1)) =
      s.past cursor := by
    unfold past
    rw [← List.take_append_drop trimmed s.entries, List.filter_append, hfront, List.nil_append,
      List.take_append_drop]
  have hnew : cursor < s.lastId + 1 := Nat.lt_succ_of_le hcursor
  show (s.entries.drop trimmed ++ [(s.lastId + 1, a)]).filter _ = _
  rw [List.filter_append, hkept, List.filter_cons_of_pos (by simpa using hnew), List.filter_nil]

/-- Where a reader stands after a batch. -/
def cursorAfter (cursor : ℕ) (batch : List (ℕ × α)) : ℕ := (batch.getLast?.map (·.1)).getD cursor

/-- What lies past a later cursor, from what lies past an earlier one. -/
theorem past_of_le (s : LogStream α) {cursor later : ℕ} (h : cursor ≤ later) :
    s.past later = (s.past cursor).filter fun e => decide (later < e.1) := by
  unfold past
  rw [List.filter_filter]
  refine List.filter_congr fun e _ => ?_
  by_cases he : later < e.1
  · simp [he, Nat.lt_of_le_of_lt h he]
  · simp [he]

/-- **A read takes the front of what lies past the cursor.** -/
theorem past_readPast (s : LogStream α) (cursor count : ℕ) :
    s.past (cursorAfter cursor (s.readPast cursor count)) = (s.past cursor).drop count := by
  have hascending : (s.past cursor).Pairwise (·.1 < ·.1) := s.ascending.sublist List.filter_sublist
  unfold readPast cursorAfter
  cases hlast : ((s.past cursor).take count).getLast? with
  | none =>
      have hnone : (s.past cursor).take count = [] := List.getLast?_eq_none_iff.mp hlast
      have hall := List.take_append_drop count (s.past cursor)
      rw [hnone, List.nil_append] at hall
      exact hall.symm
  | some last =>
      have hmem : last ∈ s.past cursor := List.mem_of_mem_take (List.mem_of_getLast? hlast)
      have hlater : cursor < last.1 := of_decide_eq_true (List.mem_filter.mp hmem).2
      show s.past last.1 = _
      rw [past_of_le s (Nat.le_of_lt hlater)]
      exact filter_past_take hascending hlast

theorem cursorAfter_le {s : LogStream α} {cursor count : ℕ} (h : cursor ≤ s.lastId) :
    cursorAfter cursor (s.readPast cursor count) ≤ s.lastId := by
  unfold cursorAfter
  cases hlast : (s.readPast cursor count).getLast? with
  | none => exact h
  | some last =>
      have hmem := List.mem_of_mem_take (List.mem_of_getLast? hlast)
      exact s.bounded last (List.mem_filter.mp hmem).1

end LogStream

namespace ConsumerGroup

variable {α : Type*}

/-- The group after it was handed a batch. -/
def deliver (g : ConsumerGroup) (batch : List (ℕ × α)) : ConsumerGroup where
  lastDelivered := (batch.getLast?.map (·.1)).getD g.lastDelivered
  pending := g.pending ++ batch.map (·.1)

/-- `XACK` of several entries. -/
def ack (g : ConsumerGroup) (ids : List ℕ) : ConsumerGroup :=
  { g with pending := g.pending.filter fun i => decide (i ∉ ids) }

/-- **A batch leaves the group past all of it**, and past where the group was. -/
theorem deliver_past (s : LogStream α) (g : ConsumerGroup) (count : ℕ) :
    g.lastDelivered ≤ (g.deliver (s.readNew g count)).lastDelivered ∧
      ∀ e ∈ s.readNew g count, e.1 ≤ (g.deliver (s.readNew g count)).lastDelivered := by
  unfold deliver
  cases hlast : (s.readNew g count).getLast? with
  | none =>
      rw [List.getLast?_eq_none_iff.mp hlast]
      exact ⟨Nat.le_refl _, fun e he => absurd he (by simp)⟩
  | some last =>
      exact ⟨Nat.le_of_lt (LogStream.readNew_past (List.mem_of_getLast? hlast)),
        Ascending.key_le_newest Prod.fst (s.readNew_ascending g count) hlast⟩

end ConsumerGroup

namespace Tailing

variable {α : Type*}

/-- Some of what is not read yet is read from the front, and something is added at the end. -/
def step (q : List α × List α) (e : ℕ × List α) : List α × List α :=
  (q.1 ++ q.2.take e.1, q.2.drop e.1 ++ e.2)

/-- A run of such steps. -/
def run (q : List α × List α) (es : List (ℕ × List α)) : List α × List α := es.foldl step q

@[simp] theorem run_cons (q : List α × List α) (e : ℕ × List α) (es : List (ℕ × List α)) :
    run q (e :: es) = run (step q e) es := rfl

/-- **Nothing is lost, doubled or moved.** -/
theorem run_whole (q : List α × List α) (es : List (ℕ × List α)) :
    (run q es).1 ++ (run q es).2 = q.1 ++ q.2 ++ es.flatMap (·.2) := by
  induction es generalizing q with
  | nil => simp [run]
  | cons e rest ih =>
      rw [run_cons, ih, List.flatMap_cons]
      unfold step
      have hcut : q.2.take e.1 ++ q.2.drop e.1 = q.2 := List.take_append_drop e.1 q.2
      simp only [List.append_assoc]
      rw [← List.append_assoc (q.2.take e.1), hcut]

/-- **Reading enough catches up**, whatever is added meanwhile. -/
theorem caught_up {q : List α × List α} {es : List (ℕ × List α)} {entries more : List α}
    (hentries : q.1 ++ q.2 = entries ++ more)
    (h : entries.length ≤ q.1.length + (es.map (·.1)).sum) : entries <+: (run q es).1 := by
  induction es generalizing q more with
  | nil =>
      rw [List.map_nil, List.sum_nil, Nat.add_zero] at h
      refine List.prefix_of_prefix_length_le ?_ (List.prefix_append q.1 q.2) h
      rw [hentries]
      exact List.prefix_append entries more
  | cons e rest ih =>
      rw [List.map_cons, List.sum_cons] at h
      have hwhole : (step q e).1 ++ (step q e).2 = entries ++ (more ++ e.2) := by
        unfold step
        have hcut : q.2.take e.1 ++ q.2.drop e.1 = q.2 := List.take_append_drop e.1 q.2
        rw [List.append_assoc, ← List.append_assoc (q.2.take e.1), hcut, ← List.append_assoc,
          hentries, List.append_assoc]
      have hread : (step q e).1.length = q.1.length + min e.1 q.2.length := by
        unfold step
        rw [List.length_append, List.length_take]
      have htotal := congrArg List.length hentries
      rw [List.length_append, List.length_append] at htotal
      exact ih hwhole (by omega)

end Tailing
