/-
A ticket admits once, and in time.

The store sees a run of issues and redemptions as a run of writes and removals under the
tickets' keys, so what a redemption finds is what was issued last under the ticket, if nobody
presented it since and its time has not passed.  The entry is read back as it was written.

From this follow both halves of the one-time promise: a ticket that stands admits exactly
whom it was issued to, and between two admissions on one ticket it was issued again.
-/
import ForexAi.Realtime.Tickets

namespace ForexAi

open Json (Value Distinct)

namespace Ticket

variable {N : Type} (fmt : Json.NumberFormat N) (shown : Value N → String)

/-! ### The entry -/

theorem loads_entry (sub role : String) (issued : Time) :
    Json.loads fmt (Json.dumps fmt true (entry sub role issued)) =
      some (entry sub role issued) := by
  refine Json.loads_dump fmt true ⟨by simp, ?_⟩
  exact ⟨trivial, trivial, trivial, trivial⟩

/-- An entry admits whom it was written for. -/
theorem opened_entry (ticket sub role : String) (issued : Time) :
    opened fmt shown ticket (Json.dumps fmt true (entry sub role issued)) =
      if sub = "" ∨ role ∉ knownRoles then .refused "Malformed WebSocket ticket"
      else .granted ⟨ticket, sub, role, 0⟩ := by
  unfold opened
  rw [loads_entry]
  rfl

theorem entry_text_ne (sub role : String) (issued : Time) :
    Json.dumps fmt true (entry sub role issued) ≠ "" := by
  intro h
  have hread := loads_entry fmt sub role issued
  rw [h] at hread
  exact absurd hread (by simp [Json.loads, Json.value, Json.skip])

/-! ### The store

The store is a map with expiry, and no two tickets share a key.  Time and operations under
other keys leave an entry alone until it expires.
-/

theorem ticketKey_inj {t u : String} : ticketKey t = ticketKey u ↔ t = u :=
  String.append_right_inj _

/-- Each event does to the store what its operation does. -/
theorem step_eq (s : TicketStore) (e : TicketEvent) :
    step fmt shown s e = Expiring.Op.step s (e.op fmt) := by
  cases e with
  | issue ticket sub role ttlSeconds issued => rfl
  | elapse d => rfl
  | redeem ticket =>
      show (redeem fmt shown s ticket).2 = Expiring.Op.step s (if ticket = "" then _ else _)
      unfold redeem
      by_cases hempty : ticket = ""
      · rw [if_pos hempty, if_pos hempty]
        rfl
      · rw [if_neg hempty, if_neg hempty]
        cases s.get (ticketKey ticket) with
        | none => rfl
        | some raw =>
            show (if raw = "" then _ else _ : Redemption × TicketStore).2 = _
            split_ifs <;> rfl

theorem run_eq (es : List TicketEvent) (s : TicketStore) :
    Runs.run (step fmt shown) s es =
      Runs.run Expiring.Op.step s (es.map (TicketEvent.op fmt)) := by
  induction es generalizing s with
  | nil => rfl
  | cons e rest ih => rw [List.map_cons, Runs.run_cons, Runs.run_cons, step_eq, ih]

theorem elapsed_op (es : List TicketEvent) :
    Expiring.elapsed (es.map (TicketEvent.op fmt)) = elapsed es := by
  have htime : ∀ e : TicketEvent, (e.op fmt).time = e.time := by
    intro e
    cases e with
    | redeem ticket =>
        show (if ticket = "" then _ else _ : Expiring.Op String String).time = 0
        split_ifs <;> rfl
    | _ => rfl
  unfold Expiring.elapsed elapsed
  rw [List.map_map]
  exact congrArg List.sum (List.map_congr_left fun e _ => htime e)

theorem key_op_iff {ticket : String} (h : ticket ≠ "") (e : TicketEvent) :
    (e.op fmt).key = some (ticketKey ticket) ↔ e.ticket = some ticket := by
  cases e with
  | issue t sub role ttlSeconds issued =>
      show some (ticketKey t) = _ ↔ some t = _
      rw [Option.some_inj, Option.some_inj, ticketKey_inj]
  | elapse d => simp [TicketEvent.op, TicketEvent.ticket, Expiring.Op.key]
  | redeem t =>
      show (if t = "" then _ else _ : Expiring.Op String String).key = _ ↔ some t = _
      by_cases hempty : t = ""
      · rw [if_pos hempty, hempty]
        simp [Expiring.Op.key, Ne.symm h]
      · rw [if_neg hempty]
        show some (ticketKey t) = _ ↔ _
        rw [Option.some_inj, Option.some_inj, ticketKey_inj]

/-- The ticket was issued to `sub` with `role`, nobody presented or issued it since, and its
time has not passed. -/
def Stands (es : List TicketEvent) (ticket sub role : String) : Prop :=
  ∃ before ttlSeconds issued after,
    es = before ++ TicketEvent.issue ticket sub role ttlSeconds issued :: after ∧
      (∀ e ∈ after, e.ticket ≠ some ticket) ∧ elapsed after < ttlSeconds * 1000000

theorem op_eq_write {ticket : String} {e : TicketEvent} {raw : String} {ttl : ℕ}
    (h : e.op fmt = .write (ticketKey ticket) raw ttl) :
    ∃ sub role ttlSeconds issued, e = .issue ticket sub role ttlSeconds issued ∧
      raw = Json.dumps fmt true (entry sub role issued) ∧ ttl = ttlSeconds * 1000000 := by
  cases e with
  | issue t sub role ttlSeconds issued =>
      obtain ⟨hkey, hraw, httl⟩ := Expiring.Op.write.inj h
      obtain rfl := ticketKey_inj.mp hkey
      exact ⟨sub, role, ttlSeconds, issued, rfl, hraw.symm, httl.symm⟩
  | elapse d => exact absurd h (by simp [TicketEvent.op])
  | redeem t =>
      simp only [TicketEvent.op] at h
      split_ifs at h

theorem get_run_iff {ticket : String} (h : ticket ≠ "") (es : List TicketEvent) (raw : String) :
    (Runs.run (step fmt shown) Expiring.fresh es).get (ticketKey ticket) = some raw ↔
      ∃ before sub role ttlSeconds issued after,
        es = before ++ TicketEvent.issue ticket sub role ttlSeconds issued :: after ∧
        (∀ e ∈ after, e.ticket ≠ some ticket) ∧ elapsed after < ttlSeconds * 1000000 ∧
        raw = Json.dumps fmt true (entry sub role issued) := by
  rw [run_eq, Expiring.get_run_iff]
  constructor
  · rintro ⟨before, ttl, after, hsplit, hafter, htime⟩
    obtain ⟨front, rest, rfl, rfl, hrest⟩ := List.map_eq_append_iff.mp hsplit
    obtain ⟨e, tail, rfl, he, rfl⟩ := List.map_eq_cons_iff.mp hrest
    obtain ⟨sub, role, ttlSeconds, issued, rfl, hraw, httl⟩ := op_eq_write fmt he
    rw [elapsed_op] at htime
    refine ⟨front, sub, role, ttlSeconds, issued, tail, rfl, ?_, httl ▸ htime, hraw⟩
    intro o ho hticket
    exact hafter _ (List.mem_map_of_mem ho) ((key_op_iff fmt h o).mpr hticket)
  · rintro ⟨before, sub, role, ttlSeconds, issued, after, rfl, hafter, htime, rfl⟩
    refine ⟨before.map (TicketEvent.op fmt), ttlSeconds * 1000000, after.map (TicketEvent.op fmt),
      by rw [List.map_append, List.map_cons]; rfl, ?_, by rw [elapsed_op]; exact htime⟩
    intro op hop
    obtain ⟨e, he, rfl⟩ := List.mem_map.mp hop
    exact fun hkey => hafter e he ((key_op_iff fmt h e).mp hkey)

/-! ### What is granted

A redemption reads and deletes in one command.  So what it admits is what stands at that
moment, and nothing stands after it.
-/

/-- A redemption admits exactly whom a standing ticket was issued to. -/
theorem redeem_granted (es : List TicketEvent) (ticket sub role : String) :
    (redeem fmt shown (Runs.run (step fmt shown) Expiring.fresh es) ticket).1 =
        .granted ⟨ticket, sub, role, 0⟩ ↔
      ticket ≠ "" ∧ sub ≠ "" ∧ role ∈ knownRoles ∧ Stands es ticket sub role := by
  unfold redeem
  by_cases hempty : ticket = ""
  · rw [if_pos hempty]
    exact ⟨fun h => absurd h (by simp), fun h => absurd hempty h.1⟩
  rw [if_neg hempty]
  constructor
  · intro h
    cases hget : (Runs.run (step fmt shown) Expiring.fresh es).get (ticketKey ticket) with
    | none =>
        rw [hget] at h
        exact absurd h (by simp)
    | some raw =>
        obtain ⟨before, sub', role', ttlSeconds, issued, after, hsplit, hafter, htime, rfl⟩ :=
          (get_run_iff fmt shown hempty es raw).mp hget
        rw [hget] at h
        simp only at h
        rw [if_neg (entry_text_ne fmt sub' role' issued), opened_entry] at h
        split_ifs at h with hmalformed
        rw [not_or, not_not] at hmalformed
        obtain ⟨-, rfl, rfl, -⟩ := TicketPayload.mk.inj (Redemption.granted.inj h)
        exact ⟨hempty, hmalformed.1, hmalformed.2, before, ttlSeconds, issued, after, hsplit,
          hafter, htime⟩
  · rintro ⟨-, hsub, hrole, before, ttlSeconds, issued, after, hsplit, hafter, htime⟩
    rw [(get_run_iff fmt shown hempty es _).mpr
      ⟨before, sub, role, ttlSeconds, issued, after, hsplit, hafter, htime, rfl⟩]
    simp only
    rw [if_neg (entry_text_ne fmt sub role issued), opened_entry, if_neg]
    rw [not_or, not_not]
    exact ⟨hsub, hrole⟩

/-- **A ticket admits exactly whom it was issued to, while it stands, and it stands until it is
presented**: between two admissions on one ticket it was issued again. -/
theorem redeem_once (es : List TicketEvent) (ticket sub role : String) :
    ((redeem fmt shown (Runs.run (step fmt shown) Expiring.fresh es) ticket).1 =
        .granted ⟨ticket, sub, role, 0⟩ ↔
      ticket ≠ "" ∧ sub ≠ "" ∧ role ∈ knownRoles ∧ Stands es ticket sub role) ∧
    ∀ later sub' role',
      (redeem fmt shown (Runs.run (step fmt shown) Expiring.fresh
        (es ++ TicketEvent.redeem ticket :: later)) ticket).1 = .granted ⟨ticket, sub', role', 0⟩ →
      ∃ ttlSeconds issued, TicketEvent.issue ticket sub' role' ttlSeconds issued ∈ later := by
  refine ⟨redeem_granted fmt shown es ticket sub role, ?_⟩
  intro later sub' role' hgranted
  obtain ⟨-, -, -, before, ttlSeconds, issued, after, hsplit, hafter, -⟩ :=
    (redeem_granted fmt shown _ ticket sub' role').mp hgranted
  refine ⟨ttlSeconds, issued, ?_⟩
  rcases List.append_eq_append_iff.mp hsplit with ⟨mid, hbefore, hrest⟩ | ⟨mid, hes, hrest⟩
  · cases mid with
    | nil => exact absurd (List.cons.inj hrest).1 (by simp)
    | cons e mid =>
        rw [(List.cons.inj hrest).2]
        exact List.mem_append_right mid List.mem_cons_self
  · -- The redemption would stand after the issue.
    cases mid with
    | nil => exact absurd (List.cons.inj hrest).1 (by simp)
    | cons e mid =>
        have hmem : TicketEvent.redeem ticket ∈ after := by
          rw [(List.cons.inj hrest).2]
          exact List.mem_append_right mid List.mem_cons_self
        exact absurd rfl (hafter _ hmem)

end Ticket

end ForexAi
