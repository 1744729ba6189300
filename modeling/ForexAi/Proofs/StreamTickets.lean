/-
One ticket for each connection.

A ticket is held at one place, from its issue on: in the reply to the one request that it was
issued for, then in the one `WebSocket` that was made with it.  No task of a page copies it
(`step_held`).  So the log of the server has one issue and at most one redemption of it, and the
answer to a handshake depends on the time between the two and on the page's origin alone.

`stream_pages` puts this beside the phases of the pages.
-/
import ForexAi.Proofs.StreamPages
import ForexAi.Proofs.Tickets
import Mathlib.Data.List.Perm.Subperm

namespace ForexAi

namespace StreamSocket

variable {D A : Type}

/-! ### What a page holds

The tasks of a page move tickets from a request to a `WebSocket` and forget them with it.
Read as one list, what a page holds only shrinks or stays under its own tasks; the server puts
a ticket in, and writes its answer beside one.
-/

/-- The tickets of a page with what the server answered to them: those on their way to it, and
those in its `WebSocket` objects. -/
def held (c : StreamSocket A) : List (String × Option StreamAnswer) :=
  c.requests.filterMap (·.map (·, none)) ++ c.sockets.map fun s => (s.ticket, s.answer)

theorem map_set_same {α β : Type} {f : α → β} {l : List α} {i : ℕ} {a b : α} (h : l[i]? = some a)
    (heq : f b = f a) : (l.set i b).map f = l.map f := by
  refine List.ext_getElem? fun j => ?_
  rw [List.getElem?_map, List.getElem?_map, List.getElem?_set]
  by_cases hij : i = j
  · subst hij
    obtain ⟨hlt, -⟩ := List.getElem?_eq_some_iff.mp h
    rw [if_pos rfl, if_pos hlt, h, Option.map_some, Option.map_some, heq]
  · rw [if_neg hij]

theorem map_modify_same {α β : Type} {f : α → β} {g : α → α} (h : ∀ a, f (g a) = f a) (l : List α)
    (i : ℕ) : (l.modify i g).map f = l.map f := by
  refine List.ext_getElem? fun j => ?_
  rw [List.getElem?_map, List.getElem?_map, List.getElem?_modify]
  cases l[j]? with
  | none => rfl
  | some a =>
      by_cases hij : i = j
      · exact congrArg some (by simp [hij, h])
      · exact congrArg some (by simp [hij])

theorem held_congr {c d : StreamSocket A} (hrequests : d.requests = c.requests)
    (hsockets : d.sockets.map (fun s => (s.ticket, s.answer))
      = c.sockets.map fun s => (s.ticket, s.answer)) : d.held = c.held := by
  unfold held
  rw [hrequests, hsockets]

@[simp] theorem held_call (c : StreamSocket A) (callback : Callback A) :
    (c.call callback).held = c.held := rfl

@[simp] theorem held_scheduleReconnect (c : StreamSocket A) :
    c.scheduleReconnect.held = c.held := by
  unfold held
  rw [requests_scheduleReconnect, sockets_scheduleReconnect]

theorem held_connect (c : StreamSocket A) : c.connect.held = c.held := by
  unfold connect
  split
  · rfl
  · unfold held
    simp

theorem held_settle (c : StreamSocket A) (k : ℕ) : (settle k c).held.Sublist c.held :=
  ((List.eraseIdx_sublist c.requests k).filterMap _).append_right _

theorem held_onerror (c : StreamSocket A) : c.onerror.held = c.held := by
  unfold onerror
  rw [held_scheduleReconnect, held_call]

theorem held_onclose (listening : Bool) (c : StreamSocket A) :
    (onclose listening c).held = c.held := by
  unfold onclose
  split
  · split
    · rfl
    · exact held_scheduleReconnect c
  · rfl

/-- A ticket that arrives goes from the request into the `WebSocket`. -/
theorem held_resolved {c : StreamSocket A} (h : c.Ok) (k : ℕ) :
    (c.resolved k).held.Subperm c.held := by
  unfold resolved
  split
  · rename_i ticket hr
    obtain ⟨rfl, hone⟩ := h.requests_eq hr
    unfold openWith
    split
    · exact (held_settle c 0).subperm
    · unfold held settle
      rw [hone]
      simp only [List.eraseIdx_cons_zero, List.filterMap_nil, List.nil_append, List.map_append]
      exact (List.perm_append_singleton (ticket, none) _).subperm
  · exact List.Subperm.refl _

theorem held_onopen (c : StreamSocket A) (feed : Feed D A) (i : ℕ) :
    (c.onopen feed i).held = c.held := by
  unfold onopen
  split
  · rename_i ticket payload onclose sent hs
    simp only
    split
    · exact held_congr rfl (map_set_same hs rfl)
    · exact held_congr rfl (map_set_same hs rfl)
  · rfl

theorem held_onmessage (c : StreamSocket A) (feed : Feed D A) (i : ℕ) (frame : StreamFrame D) :
    (c.onmessage feed i frame).held = c.held := by
  unfold onmessage
  split
  · cases frame with
    | other => rfl
    | error reason => rfl
    | event topic data =>
        show ((feed.item topic data).elim c fun item => c.call (.onEvent item)).held = c.held
        cases feed.item topic data <;> rfl
  · rfl

theorem held_ended (c : StreamSocket A) (i : ℕ) (failed : Bool) :
    (c.ended i failed).held = c.held := by
  unfold ended
  split
  · rfl
  · rename_i s hs
    split
    · rfl
    · have hmap : held { c with sockets := c.sockets.set i { s with readyState := .closed } }
          = c.held := held_congr rfl (map_set_same hs rfl)
      simp only
      rw [held_onclose]
      cases failed with
      | false => exact hmap
      | true =>
          rw [if_pos rfl, held_onerror]
          exact hmap

theorem held_close (c : StreamSocket A) : c.close.held = c.held := by
  unfold close
  simp only
  split
  · rfl
  · exact held_congr rfl (map_modify_same (g := WebSocket.leave) (fun _ => rfl) _ _)

theorem held_timeout (c : StreamSocket A) : c.timeout.held = c.held := by
  unfold timeout
  split
  · rfl
  · exact held_connect _

/-- **No task of a page copies a ticket**, or changes what the server answered to it. -/
theorem step_held {c : StreamSocket A} (h : c.Ok) (feed : Feed D A) (e : SocketEvent D) :
    (c.step feed e).held.Subperm c.held := by
  cases e with
  | resolved k => exact held_resolved h k
  | denied k =>
      show (c.denied k).held.Subperm c.held
      unfold denied
      split
      · exact (held_settle c k).subperm
      · exact List.Subperm.refl _
  | rejected k =>
      show (c.rejected k).held.Subperm c.held
      unfold rejected
      split
      · rw [held_scheduleReconnect]
        exact (held_settle c k).subperm
      · exact List.Subperm.refl _
  | opened i => exact (held_onopen c feed i).symm ▸ List.Subperm.refl _
  | message i frame => exact (held_onmessage c feed i frame).symm ▸ List.Subperm.refl _
  | ended i failed => exact (held_ended c i failed).symm ▸ List.Subperm.refl _
  | timeout => exact (held_timeout c).symm ▸ List.Subperm.refl _
  | close => exact (held_close c).symm ▸ List.Subperm.refl _

/-- A ticket that is held once is held in no other place. -/
theorem ne_of_nodup_middle {before after : List (String × Option StreamAnswer)} {ticket : String}
    (h : (before.map Prod.fst ++ ticket :: after.map Prod.fst).Nodup) :
    ∀ x ∈ before ++ after, x.1 ≠ ticket := by
  intro x hx hsame
  refine (List.nodup_cons.mp (List.nodup_middle.mp h)).1 ?_
  rw [← List.map_append]
  exact hsame ▸ List.mem_map_of_mem hx

/-- A ticket that is answered changes at its own place. -/
theorem held_answer {c : StreamSocket A} {i : ℕ} {s t : WebSocket} (hs : c.sockets[i]? = some s)
    (hticket : t.ticket = s.ticket) :
    ∃ before after, c.held = before ++ (s.ticket, s.answer) :: after ∧
      held { c with sockets := c.sockets.set i t }
        = before ++ (s.ticket, t.answer) :: after := by
  obtain ⟨hlt, hget⟩ := List.getElem?_eq_some_iff.mp hs
  have hsplit : c.sockets = c.sockets.take i ++ s :: c.sockets.drop (i + 1) := by
    rw [← hget, List.getElem_cons_drop, List.take_append_drop]
  refine ⟨c.requests.filterMap (·.map (·, none))
      ++ (c.sockets.take i).map (fun s => (s.ticket, s.answer)),
    (c.sockets.drop (i + 1)).map (fun s => (s.ticket, s.answer)), ?_, ?_⟩
  · unfold held
    conv_lhs => rw [hsplit]
    rw [List.map_append, List.map_cons, List.append_assoc]
  · unfold held
    rw [List.set_eq_take_append_cons_drop, if_pos hlt, List.map_append, List.map_cons,
      List.append_assoc, hticket]

/-- The tickets a page holds. -/
def tickets (c : StreamSocket A) : List String := c.held.map Prod.fst

theorem nodup_step {c : StreamSocket A} (h : c.Ok) (feed : Feed D A) (e : SocketEvent D)
    (hnodup : c.tickets.Nodup) : (c.step feed e).tickets.Nodup := by
  obtain ⟨l, hperm, hsub⟩ := step_held h feed e
  exact (hperm.map Prod.fst).nodup_iff.mp (hnodup.sublist (hsub.map Prod.fst))

/-- The request of a page is answered. -/
theorem Ok.issued {c : StreamSocket A} (h : c.Ok) {r : Option String} (hr : c.requests = [r])
    (ticket : String) : Ok { c with requests := [some ticket] } := by
  refine ⟨fun hopen => ?_, fun hclosed => ?_, h.silent⟩
  · obtain ⟨htimer, hquiet⟩ := (h.phase hopen).of_request hr
    exact .requesting (some ticket) rfl htimer hquiet
  · have hleft := h.left hclosed
    exact ⟨hleft.timer, le_refl 1, hleft.current, hleft.sockets⟩

end StreamSocket

/-! ### What the log of the server says of a ticket

What becomes of a ticket is told by the events of its own, and there are at most two.  All
others leave its fate as it is, whatever they do to the store.
-/

namespace Ticket

/-- The ticket was issued to the user, and nothing else happened to it. -/
def Unanswered (log : List TicketEvent) (u : PageUser) (ticket : String) : Prop :=
  ∃ before issued after,
    log = before ++ TicketEvent.issue ticket u.sub u.role ticketTtlSeconds issued :: after ∧
      (∀ e ∈ before, e.ticket ≠ some ticket) ∧ ∀ e ∈ after, e.ticket ≠ some ticket

/-- The ticket was issued to the user and presented, and nothing else happened to it; the answer
admits the user if the time to live had not passed in between. -/
def Presented (log : List TicketEvent) (u : PageUser) (ticket : String) (r : StreamAnswer) : Prop :=
  ∃ before issued between after,
    log = before ++ TicketEvent.issue ticket u.sub u.role ticketTtlSeconds issued ::
        (between ++ TicketEvent.redeem ticket :: after) ∧
      (∀ e ∈ before, e.ticket ≠ some ticket) ∧ (∀ e ∈ between, e.ticket ≠ some ticket) ∧
      (∀ e ∈ after, e.ticket ≠ some ticket) ∧
      r = if elapsed between < ticketTtlSeconds * 1000000 then .accepted ⟨ticket, u.sub, u.role, 0⟩
        else .closed

/-- How the one handshake with the ticket was answered.  A page of an origin that is not allowed
is turned away, and its ticket was never presented. -/
def Answered (allowed : List String) (log : List TicketEvent) (u : PageUser) (ticket : String)
    (r : StreamAnswer) : Prop :=
  if originAllowed u.origin allowed then Presented log u ticket r
  else r = .closed ∧ Unanswered log u ticket

/-- What becomes of a ticket that is held. -/
def Fate (allowed : List String) (log : List TicketEvent) (u : PageUser) :
    String × Option StreamAnswer → Prop
  | (ticket, none) => ticket ≠ "" ∧ Unanswered log u ticket
  | (ticket, some r) => Answered allowed log u ticket r

variable {allowed : List String} {log : List TicketEvent} {u : PageUser}

theorem answered_of_allowed (horigin : originAllowed u.origin allowed = true) {ticket : String}
    {r : StreamAnswer} : Answered allowed log u ticket r ↔ Presented log u ticket r := by
  unfold Answered
  rw [if_pos horigin]

theorem answered_of_other (horigin : originAllowed u.origin allowed = false) {ticket : String}
    {r : StreamAnswer} :
    Answered allowed log u ticket r ↔ r = .closed ∧ Unanswered log u ticket := by
  unfold Answered
  rw [if_neg (by rw [horigin]; exact Bool.false_ne_true)]

theorem Unanswered.mem {ticket : String} (h : Unanswered log u ticket) :
    ∃ e ∈ log, e.ticket = some ticket := by
  obtain ⟨before, issued, after, rfl, -⟩ := h
  exact ⟨.issue ticket u.sub u.role ticketTtlSeconds issued, by simp, rfl⟩

theorem Answered.mem {ticket : String} {r : StreamAnswer} (h : Answered allowed log u ticket r) :
    ∃ e ∈ log, e.ticket = some ticket := by
  rcases Bool.eq_false_or_eq_true (originAllowed u.origin allowed) with horigin | horigin
  · obtain ⟨before, issued, between, after, rfl, -⟩ := (answered_of_allowed horigin).mp h
    exact ⟨.issue ticket u.sub u.role ticketTtlSeconds issued, by simp, rfl⟩
  · exact ((answered_of_other horigin).mp h).2.mem

theorem Fate.mem {x : String × Option StreamAnswer} (h : Fate allowed log u x) :
    ∃ e ∈ log, e.ticket = some x.1 := by
  obtain ⟨ticket, answer⟩ := x
  cases answer with
  | none => exact h.2.mem
  | some r => exact Answered.mem h

theorem forall_append {ticket : String} {after es : List TicketEvent}
    (h : ∀ e ∈ after, e.ticket ≠ some ticket) (hne : ∀ e ∈ es, e.ticket ≠ some ticket) :
    ∀ e ∈ after ++ es, e.ticket ≠ some ticket := by
  intro o ho
  rcases List.mem_append.mp ho with ho | ho
  · exact h o ho
  · exact hne o ho

theorem Unanswered.append {ticket : String} (h : Unanswered log u ticket)
    {es : List TicketEvent} (hne : ∀ e ∈ es, e.ticket ≠ some ticket) :
    Unanswered (log ++ es) u ticket := by
  obtain ⟨before, issued, after, rfl, hbefore, hafter⟩ := h
  exact ⟨before, issued, after ++ es, by simp, hbefore, forall_append hafter hne⟩

theorem Answered.append {ticket : String} {r : StreamAnswer}
    (h : Answered allowed log u ticket r) {es : List TicketEvent}
    (hne : ∀ e ∈ es, e.ticket ≠ some ticket) : Answered allowed (log ++ es) u ticket r := by
  rcases Bool.eq_false_or_eq_true (originAllowed u.origin allowed) with horigin | horigin
  · obtain ⟨before, issued, between, after, rfl, hbefore, hbetween, hafter, hr⟩ :=
      (answered_of_allowed horigin).mp h
    exact (answered_of_allowed horigin).mpr ⟨before, issued, between, after ++ es, by simp,
      hbefore, hbetween, forall_append hafter hne, hr⟩
  · obtain ⟨hr, hun⟩ := (answered_of_other horigin).mp h
    exact (answered_of_other horigin).mpr ⟨hr, hun.append hne⟩

theorem Fate.append {x : String × Option StreamAnswer} (h : Fate allowed log u x)
    {es : List TicketEvent} (hne : ∀ e ∈ es, e.ticket ≠ some x.1) :
    Fate allowed (log ++ es) u x := by
  obtain ⟨ticket, answer⟩ := x
  cases answer with
  | none => exact ⟨h.1, h.2.append hne⟩
  | some r => exact Answered.append h hne

theorem Fate.issued {ticket : String} (hticket : ticket ≠ "")
    (hfresh : ∀ e ∈ log, e.ticket ≠ some ticket) (u : PageUser) (issued : Time) :
    Fate allowed (log ++ [TicketEvent.issue ticket u.sub u.role ticketTtlSeconds issued]) u
      (ticket, none) :=
  ⟨hticket, log, issued, [], rfl, hfresh, fun e he => absurd he (by simp)⟩

/-- A list is split in one way at the last place with a property. -/
theorem split_unique {α : Type*} {P : α → Prop} {before after before' after' : List α} {x y : α}
    (h : before ++ x :: after = before' ++ y :: after') (hx : P x) (hy : P y)
    (hafter : ∀ o ∈ after, ¬ P o) (hafter' : ∀ o ∈ after', ¬ P o) : x = y ∧ after = after' := by
  rcases List.append_eq_append_iff.mp h with ⟨mid, -, hrest⟩ | ⟨mid, -, hrest⟩
  · cases mid with
    | nil => exact List.cons.inj hrest
    | cons o mid =>
        refine absurd hy (hafter y ?_)
        rw [(List.cons.inj hrest).2]
        exact List.mem_append_right mid List.mem_cons_self
  · cases mid with
    | nil =>
        obtain ⟨hxy, hrest⟩ := List.cons.inj hrest
        exact ⟨hxy.symm, hrest.symm⟩
    | cons o mid =>
        refine absurd hx (hafter' x ?_)
        rw [(List.cons.inj hrest).2]
        exact List.mem_append_right mid List.mem_cons_self

variable {N : Type} (fmt : Json.NumberFormat N) (shown : Json.Value N → String)

/-- **A ticket that was issued once and not presented yet is refused only when its time has
passed.** -/
theorem redeem_unanswered {ticket : String} (hticket : ticket ≠ "")
    {before after : List TicketEvent} {issued : Time}
    (hlog : log = before ++ TicketEvent.issue ticket u.sub u.role ticketTtlSeconds issued :: after)
    (hafter : ∀ e ∈ after, e.ticket ≠ some ticket) :
    (redeem fmt shown (Runs.run (step fmt shown) Expiring.fresh log) ticket).1
      = if elapsed after < ticketTtlSeconds * 1000000 then .granted ⟨ticket, u.sub, u.role, 0⟩
        else .refused "Invalid, expired, or already-used WebSocket ticket" := by
  by_cases htime : elapsed after < ticketTtlSeconds * 1000000
  · rw [if_pos htime]
    exact (redeem_granted fmt shown log ticket u.sub u.role).mpr
      ⟨hticket, u.sub_ne, u.known, before, ticketTtlSeconds, issued, after, hlog, hafter, htime⟩
  · rw [if_neg htime]
    unfold redeem
    rw [if_neg hticket]
    cases hget : (Runs.run (step fmt shown) Expiring.fresh log).get (ticketKey ticket) with
    | none => rfl
    | some raw =>
        obtain ⟨before', sub', role', ttl', issued', after', hlog', hafter', htime', -⟩ :=
          (get_run_iff fmt shown hticket log raw).mp hget
        obtain ⟨hissue, hsame⟩ := split_unique (P := fun e : TicketEvent => e.ticket = some ticket)
          (hlog.symm.trans hlog') rfl rfl hafter hafter'
        obtain ⟨-, -, -, rfl, -⟩ := TicketEvent.issue.inj hissue
        exact absurd (hsame ▸ htime') htime

theorem Fate.redeemed (horigin : originAllowed u.origin allowed = true) {ticket : String}
    (h : Fate allowed log u (ticket, none)) :
    Fate allowed (log ++ [TicketEvent.redeem ticket]) u (ticket,
      some (.of (redeem fmt shown (Runs.run (step fmt shown) Expiring.fresh log) ticket).1)) := by
  obtain ⟨hticket, before, issued, after, hlog, hbefore, hafter⟩ := h
  refine (answered_of_allowed horigin).mpr ⟨before, issued, after, [], by rw [hlog]; simp, hbefore,
    hafter, fun e he => absurd he (by simp), ?_⟩
  rw [redeem_unanswered fmt shown hticket hlog hafter]
  split
  · rfl
  · rfl

theorem Fate.turnedAway (horigin : originAllowed u.origin allowed = false) {ticket : String}
    (h : Fate allowed log u (ticket, none)) : Fate allowed log u (ticket, some .closed) :=
  (answered_of_other horigin).mpr ⟨rfl, h.2⟩

end Ticket

/-! ### The pages and the server

Every event changes one page, or the server, or lets time pass.  The invariant speaks of each
page by itself, apart from the tickets, which no two of them share.
-/

namespace StreamWorld

variable {ι D A N : Type} (fmt : Json.NumberFormat N) (shown : Json.Value N → String)
  (allowed : List String)

/-- Every page is in one phase, every ticket is held at one place, and the log of the server says
what became of it. -/
structure Sound (users : ι → PageUser) (w : StreamWorld ι A) : Prop where
  store : w.store = Runs.run (Ticket.step fmt shown) Expiring.fresh w.log
  ok : ∀ p c, w.pages p = some c → c.Ok
  once : ∀ p c, w.pages p = some c → c.tickets.Nodup
  apart : ∀ p q c d, p ≠ q → w.pages p = some c → w.pages q = some d →
    ∀ ticket ∈ c.tickets, ticket ∉ d.tickets
  fate : ∀ p c, w.pages p = some c → ∀ x ∈ c.held, Ticket.Fate allowed w.log (users p) x

variable {fmt shown allowed} {users : ι → PageUser} {w w' : StreamWorld ι A}

theorem sound_empty : Sound fmt shown allowed users (empty : StreamWorld ι A) where
  store := rfl
  ok p c h := absurd h (by simp [empty])
  once p c h := absurd h (by simp [empty])
  apart p q c d _ h := absurd h (by simp [empty])
  fate p c h := absurd h (by simp [empty])

theorem Sound.logged (h : Sound fmt shown allowed users w) {p : ι} {c : StreamSocket A}
    (hp : w.pages p = some c) {ticket : String} (ht : ticket ∈ c.tickets) :
    ∃ e ∈ w.log, e.ticket = some ticket := by
  obtain ⟨x, hx, rfl⟩ := List.mem_map.mp ht
  exact (h.fate p c hp x hx).mem

theorem store_serve (h : w.store = Runs.run (Ticket.step fmt shown) Expiring.fresh w.log)
    (e : Ticket.TicketEvent) : (w.serve fmt shown e).store
      = Runs.run (Ticket.step fmt shown) Expiring.fresh (w.serve fmt shown e).log := by
  show Ticket.step fmt shown w.store e = Runs.run _ _ (w.log ++ [e])
  rw [Runs.run_append, ← h]
  rfl

variable [DecidableEq ι]

/-- One page changes, with what happens to the tickets meanwhile. -/
theorem Sound.change (h : Sound fmt shown allowed users w) {p : ι} {c : StreamSocket A}
    {l : List Ticket.TicketEvent} (hpages : w'.pages = Function.update w.pages p (some c))
    (hlog : w'.log = w.log ++ l)
    (hstore : w'.store = Runs.run (Ticket.step fmt shown) Expiring.fresh w'.log) (hok : c.Ok)
    (hnodup : c.tickets.Nodup) (hfate : ∀ x ∈ c.held, Ticket.Fate allowed w'.log (users p) x)
    (hothers : ∀ q d, q ≠ p → w.pages q = some d → ∀ ticket ∈ d.tickets,
      ticket ∉ c.tickets ∧ ∀ e ∈ l, e.ticket ≠ some ticket) : Sound fmt shown allowed users w' := by
  have hcases : ∀ q d, w'.pages q = some d → q = p ∧ d = c ∨ q ≠ p ∧ w.pages q = some d := by
    intro q d hq
    rw [hpages] at hq
    by_cases hqp : q = p
    · rw [hqp, Function.update_self] at hq
      exact Or.inl ⟨hqp, (Option.some.inj hq).symm⟩
    · rw [Function.update_of_ne hqp] at hq
      exact Or.inr ⟨hqp, hq⟩
  refine ⟨hstore, ?_, ?_, ?_, ?_⟩
  · intro q d hq
    rcases hcases q d hq with ⟨-, rfl⟩ | ⟨-, hq⟩
    · exact hok
    · exact h.ok q d hq
  · intro q d hq
    rcases hcases q d hq with ⟨-, rfl⟩ | ⟨-, hq⟩
    · exact hnodup
    · exact h.once q d hq
  · intro q r d f hqr hq hr ticket ht
    rcases hcases q d hq with ⟨rfl, rfl⟩ | ⟨hqp, hq⟩
    · rcases hcases r f hr with ⟨rfl, -⟩ | ⟨hrp, hr⟩
      · exact absurd rfl hqr
      · exact fun hmem => (hothers r f hrp hr ticket hmem).1 ht
    · rcases hcases r f hr with ⟨rfl, rfl⟩ | ⟨-, hr⟩
      · exact (hothers q d hqp hq ticket ht).1
      · exact h.apart q r d f hqr hq hr ticket ht
  · intro q d hq x hx
    rcases hcases q d hq with ⟨rfl, rfl⟩ | ⟨hqp, hq⟩
    · exact hfate x hx
    · rw [hlog]
      exact (h.fate q d hq x hx).append
        (hothers q d hqp hq x.1 (List.mem_map_of_mem hx)).2

theorem Sound.mount (h : Sound fmt shown allowed users w) (feed : Feed D A) (p : ι) :
    Sound fmt shown allowed users (w.step fmt shown allowed users feed (.mount p)) := by
  cases hp : w.pages p with
  | some c =>
      simp only [step, hp]
      exact h
  | none =>
      have hheld : (StreamSocket.new.start : StreamSocket A).held = [] := rfl
      simp only [step, hp]
      refine h.change (l := []) rfl (List.append_nil _).symm h.store StreamSocket.new_start_ok
        List.nodup_nil ?_ ?_
      · intro x hx
        rw [hheld] at hx
        exact absurd hx (by simp)
      · intro q d _ _ ticket _
        exact ⟨by simp [StreamSocket.tickets, hheld], by simp⟩

theorem Sound.task (h : Sound fmt shown allowed users w) (feed : Feed D A) (p : ι)
    (e : SocketEvent D) :
    Sound fmt shown allowed users (w.step fmt shown allowed users feed (.task p e)) := by
  cases hp : w.pages p with
  | none =>
      simp only [step, hp]
      exact h
  | some c =>
      have hsub := StreamSocket.step_held (h.ok p c hp) feed e
      simp only [step, hp]
      refine h.change (l := []) rfl (List.append_nil _).symm h.store ((h.ok p c hp).step feed e)
        (StreamSocket.nodup_step (h.ok p c hp) feed e (h.once p c hp))
        (fun x hx => h.fate p c hp x (hsub.subset hx)) ?_
      intro q d hqp hq ticket ht
      refine ⟨fun hmem => ?_, by simp⟩
      obtain ⟨x, hx, rfl⟩ := List.mem_map.mp hmem
      exact h.apart q p d c hqp hq hp x.1 ht (List.mem_map_of_mem (hsub.subset hx))

theorem Sound.issue (h : Sound fmt shown allowed users w) (feed : Feed D A) (p : ι) (k : ℕ)
    {ticket : String} (issued : Time) (hne : ticket ≠ "")
    (hfresh : ∀ e ∈ w.log, e.ticket ≠ some ticket) :
    Sound fmt shown allowed users
      (w.step fmt shown allowed users feed (.issue p k ticket issued)) := by
  have hnew : ∀ q d, w.pages q = some d → ticket ∉ d.tickets := by
    intro q d hq hmem
    obtain ⟨e, he, hticket⟩ := h.logged hq hmem
    exact hfresh e he hticket
  cases hp : w.pages p with
  | none =>
      simp only [step, hp]
      exact h
  | some c =>
      simp only [step, hp]
      by_cases hr : c.requests[k]? = some none
      · rw [if_pos hr]
        obtain ⟨rfl, hone⟩ := (h.ok p c hp).requests_eq hr
        have hset : c.requests.set 0 (some ticket) = [some ticket] := by rw [hone]; rfl
        have hheld : StreamSocket.held { c with requests := [some ticket] }
            = (ticket, none) :: c.held := by
          unfold StreamSocket.held
          rw [hone]
          rfl
        rw [hset]
        refine h.change (l := [.issue ticket (users p).sub (users p).role ticketTtlSeconds issued])
          rfl rfl (store_serve h.store (.issue ticket (users p).sub (users p).role ticketTtlSeconds
            issued)) ((h.ok p c hp).issued hone ticket) ?_ ?_ ?_
        · show (StreamSocket.held _ |>.map Prod.fst).Nodup
          rw [hheld]
          exact List.nodup_cons.mpr ⟨hnew p c hp, h.once p c hp⟩
        · intro x hx
          rw [hheld] at hx
          rcases List.mem_cons.mp hx with rfl | hx
          · exact Ticket.Fate.issued hne hfresh (users p) issued
          · refine (h.fate p c hp x hx).append fun e he => ?_
            rw [List.mem_singleton.mp he]
            intro hsame
            exact hnew p c hp ((Option.some.inj hsame) ▸ List.mem_map_of_mem hx)
        · intro q d hqp hq other hother
          have hother' : ticket ≠ other := fun hsame => hnew q d hq (hsame ▸ hother)
          refine ⟨fun hmem => ?_, fun e he => ?_⟩
          · obtain ⟨x, hx, rfl⟩ := List.mem_map.mp hmem
            rw [hheld] at hx
            rcases List.mem_cons.mp hx with rfl | hx
            · exact hother' rfl
            · exact h.apart q p d c hqp hq hp x.1 hother (List.mem_map_of_mem hx)
          · rw [List.mem_singleton.mp he]
            exact fun hsame => hother' (Option.some.inj hsame)
      · rw [if_neg hr]
        exact h

/-- A `WebSocket` of a page is answered, with what happens to its ticket. -/
theorem Sound.answer (h : Sound fmt shown allowed users w) {p : ι} {c : StreamSocket A} {i : ℕ}
    {s : WebSocket} {r : StreamAnswer} {l : List Ticket.TicketEvent} (hp : w.pages p = some c)
    (hs : c.sockets[i]? = some s)
    (hpages : w'.pages = Function.update w.pages p
      (some { c with sockets := c.sockets.set i { s with answer := some r } }))
    (hlog : w'.log = w.log ++ l)
    (hstore : w'.store = Runs.run (Ticket.step fmt shown) Expiring.fresh w'.log)
    (hl : ∀ e ∈ l, e.ticket = some s.ticket)
    (hfate : Ticket.Fate allowed w'.log (users p) (s.ticket, some r)) :
    Sound fmt shown allowed users w' := by
  obtain ⟨before, after, hheld, hheld'⟩ := StreamSocket.held_answer
    (t := { s with answer := some r }) hs rfl
  have hnodup := h.once p c hp
  have htickets : c.tickets = before.map Prod.fst ++ s.ticket :: after.map Prod.fst := by
    unfold StreamSocket.tickets
    rw [hheld, List.map_append, List.map_cons]
  have hsame : StreamSocket.tickets
      { c with sockets := c.sockets.set i { s with answer := some r } } = c.tickets := by
    rw [htickets]
    unfold StreamSocket.tickets
    rw [hheld', List.map_append, List.map_cons]
  have hapart : ∀ x ∈ before ++ after, x.1 ≠ s.ticket :=
    StreamSocket.ne_of_nodup_middle (htickets ▸ hnodup)
  refine h.change hpages hlog hstore
    ((h.ok p c hp).set hs Iff.rfl id rfl rfl) (by rw [hsame]; exact hnodup) ?_ ?_
  · intro x hx
    have hkeep : x ∈ before ++ after → Ticket.Fate allowed w'.log (users p) x := by
      intro hx
      rw [hlog]
      refine (h.fate p c hp x ?_).append fun e he => ?_
      · rw [hheld]
        rcases List.mem_append.mp hx with hx | hx
        · exact List.mem_append_left _ hx
        · exact List.mem_append_right _ (List.mem_cons_of_mem _ hx)
      · rw [hl e he]
        exact fun heq => hapart x hx (Option.some.inj heq).symm
    rw [hheld'] at hx
    rcases List.mem_append.mp hx with hx | hx
    · exact hkeep (List.mem_append_left _ hx)
    · rcases List.mem_cons.mp hx with rfl | hx
      · exact hfate
      · exact hkeep (List.mem_append_right _ hx)
  · intro q d hqp hq other hother
    have hnot := h.apart q p d c hqp hq hp other hother
    refine ⟨by rw [hsame]; exact hnot, fun e he => ?_⟩
    rw [hl e he]
    intro heq
    refine hnot ?_
    rw [← Option.some.inj heq, htickets]
    exact List.mem_append_right _ List.mem_cons_self

theorem Sound.handshake (h : Sound fmt shown allowed users w) (feed : Feed D A) (p : ι) (i : ℕ) :
    Sound fmt shown allowed users (w.step fmt shown allowed users feed (.handshake p i)) := by
  cases hp : w.pages p with
  | none =>
      simp only [step, hp]
      exact h
  | some c =>
      simp only [step, hp]
      split
      · rename_i ticket readyState onclose sent hs
        have hfate := h.fate p c hp (ticket, none)
          (List.mem_append_right _ (List.mem_map_of_mem (List.mem_of_getElem? hs)))
        by_cases horigin : originAllowed (users p).origin allowed = true
        · rw [if_pos horigin]
          have hredeemed := hfate.redeemed fmt shown horigin
          rw [← h.store] at hredeemed
          exact h.answer hp hs rfl rfl (store_serve h.store (.redeem ticket))
            (fun e he => by rw [List.mem_singleton.mp he]; rfl) hredeemed
        · rw [if_neg horigin]
          exact h.answer (l := []) hp hs rfl (List.append_nil _).symm h.store
            (fun e he => absurd he List.not_mem_nil)
            (hfate.turnedAway (Bool.eq_false_iff.mpr horigin))
      · exact h

theorem Sound.elapse (h : Sound fmt shown allowed users w) (feed : Feed D A) (d : ℕ) :
    Sound fmt shown allowed users (w.step fmt shown allowed users feed (.elapse d)) where
  store := store_serve h.store _
  ok := h.ok
  once := h.once
  apart := h.apart
  fate p c hp x hx := (h.fate p c hp x hx).append fun e he => by
    rw [List.mem_singleton.mp he]
    exact fun hsame => absurd hsame (by simp [Ticket.TicketEvent.ticket])

/-- **Every event keeps the invariant**, if the tokens are new. -/
theorem sound_step (feed : Feed D A) (h : Sound fmt shown allowed users w) (e : Event ι D)
    (hdrawn : Drawn w e) :
    Sound fmt shown allowed users (w.step fmt shown allowed users feed e) := by
  cases e with
  | mount p => exact h.mount feed p
  | task p e => exact h.task feed p e
  | issue p k ticket issued =>
      obtain ⟨hne, hfresh⟩ := hdrawn ticket rfl
      exact h.issue feed p k issued hne hfresh
  | handshake p i => exact h.handshake feed p i
  | elapse d => exact h.elapse feed d

end StreamWorld

/-! ### What holds at any moment

The phase of a page says how many things it waits for.  One is the most a page that is not
closed ever has, and none is left of one that was turned away.
-/

namespace StreamSocket

variable {A : Type}

/-- The ticket requests under way, the live `WebSocket` objects and the timers of a page. -/
def load (c : StreamSocket A) : ℕ :=
  c.requests.length + c.sockets.countP WebSocket.live + c.reconnectTimer.toList.length

/-- What holds of a page at any moment, beside the log of the server. -/
structure Streaming (allowed : List String) (log : List Ticket.TicketEvent) (u : PageUser)
    (c : StreamSocket A) : Prop where
  most : c.load ≤ 1
  running : c.closed = false → Callback.onAuthError ∉ c.calls → c.load = 1
  left : c.closed = true → c.sockets.countP WebSocket.live = 0 ∧ c.reconnectTimer = none
  delay : ∀ d ∈ c.reconnectTimer, 1000 ≤ d ∧ d ≤ 15000
  silent : Callback.onClose ∉ c.calls
  answered : ∀ s ∈ c.sockets, ∀ r, s.answer = some r →
    Ticket.Answered allowed log u s.ticket r

theorem live_of_closed {s : WebSocket} (h : s.readyState = .closed) : s.live = false := by
  unfold WebSocket.live
  rw [h]
  rfl

theorem Quiet.live {c : StreamSocket A} (h : c.Quiet) : c.sockets.countP WebSocket.live = 0 := by
  rw [List.countP_eq_zero]
  intro s hs
  rw [live_of_closed (h s hs)]
  exact Bool.false_ne_true

/-- A page that is not closed has one thing to wait for, or it was turned away. -/
theorem Phase.load {c : StreamSocket A} (h : c.Phase) :
    c.load ≤ 1 ∧ (Callback.onAuthError ∉ c.calls → c.load = 1) := by
  unfold StreamSocket.load
  cases h with
  | requesting request requests timer quiet =>
      rw [requests, timer, quiet.live]
      exact ⟨le_refl 1, fun _ => rfl⟩
  | waiting delay requests timer least most quiet =>
      rw [requests, timer, quiet.live]
      exact ⟨le_refl 1, fun _ => rfl⟩
  | stopped requests timer quiet told =>
      rw [requests, timer, quiet.live]
      exact ⟨Nat.zero_le 1, fun hnot => absurd told hnot⟩
  | connected front s requests timer sockets before live =>
      have hfront : front.countP WebSocket.live = 0 := by
        rw [List.countP_eq_zero]
        intro o ho
        rw [live_of_closed (before o ho)]
        exact Bool.false_ne_true
      rw [requests, timer, sockets, List.countP_append, hfront, List.countP_singleton, if_pos live]
      exact ⟨le_refl 1, fun _ => rfl⟩

theorem Left.live {c : StreamSocket A} (h : c.Left) : c.sockets.countP WebSocket.live = 0 := by
  rw [List.countP_eq_zero]
  intro s hs
  unfold WebSocket.live
  rcases h.sockets s hs with hstate | ⟨hstate, -⟩
  · rw [hstate]
    exact Bool.false_ne_true
  · rw [hstate]
    exact Bool.false_ne_true

theorem Phase.delay {c : StreamSocket A} (h : c.Phase) {d : ℕ} (hd : c.reconnectTimer = some d) :
    1000 ≤ d ∧ d ≤ 15000 := by
  cases h with
  | requesting request requests timer => exact absurd (hd.symm.trans timer) (by simp)
  | connected front s requests timer => exact absurd (hd.symm.trans timer) (by simp)
  | stopped requests timer => exact absurd (hd.symm.trans timer) (by simp)
  | waiting delay requests timer least most =>
      obtain rfl := Option.some.inj (timer.symm.trans hd)
      exact ⟨least, most⟩

end StreamSocket

namespace StreamWorld

variable {ι D A N : Type} [DecidableEq ι] (fmt : Json.NumberFormat N)
  (shown : Json.Value N → String) (allowed : List String)

/-- **A page has one connection at a time, each with a ticket of its own.**  In every run of any
number of pages, with requests, answers and handshakes delayed or lost in any order, a page that
is neither closed nor turned away has exactly one of a ticket request under way, a live
`WebSocket` and a timer of one to fifteen seconds.  A closed page keeps no `WebSocket` and no
timer.  No ticket is presented twice or by another page than it was issued for.  So a handshake
of a page whose origin is allowed admits the user of the page exactly if it comes within the
ticket's time to live; a page of any other origin is turned away, and presents no ticket. -/
theorem stream_pages (users : ι → PageUser) (feed : Feed D A) {es : List (Event ι D)}
    (h : Runs.Along (step fmt shown allowed users feed) Drawn empty es) (p : ι)
    (c : StreamSocket A)
    (hp : (Runs.run (step fmt shown allowed users feed) empty es).pages p = some c) :
    c.Streaming allowed (Runs.run (step fmt shown allowed users feed) empty es).log (users p) := by
  have hsound :
      Sound fmt shown allowed users (Runs.run (step fmt shown allowed users feed) empty es) :=
    Runs.invariant (I := Sound fmt shown allowed users)
      (fun w e hw he => sound_step feed hw e he) sound_empty h
  have hok := hsound.ok p c hp
  have hmost : c.load ≤ 1 := by
    rcases Bool.eq_false_or_eq_true c.closed with hclosed | hclosed
    · have hleft := hok.left hclosed
      unfold StreamSocket.load
      rw [hleft.live, hleft.timer]
      exact hleft.requests
    · exact (hok.phase hclosed).load.1
  refine ⟨hmost, fun hclosed => (hok.phase hclosed).load.2, fun hclosed => ?_, fun d hd => ?_,
    hok.silent, fun s hs r hr => ?_⟩
  · exact ⟨(hok.left hclosed).live, (hok.left hclosed).timer⟩
  · rcases Bool.eq_false_or_eq_true c.closed with hclosed | hclosed
    · rw [(hok.left hclosed).timer] at hd
      exact absurd hd (by simp)
    · exact (hok.phase hclosed).delay hd
  · have hfate := hsound.fate p c hp (s.ticket, s.answer)
      (List.mem_append_right _ (List.mem_map_of_mem hs))
    rw [hr] at hfate
    exact hfate

/-- Two pages of a viewer: one under an origin that is allowed, one under the address of the
same machine. -/
def viewer (allowed : Bool) : PageUser where
  sub := "2f1e"
  role := "viewer"
  origin := if allowed then some "http://localhost:3000" else some "http://127.0.0.1:3000"
  sub_ne := by decide
  known := by decide

/-- Both, up to their first handshakes five seconds after the first ticket was issued. -/
def firstHandshakes : List (Event Bool String) :=
  [.mount true, .mount false, .issue true 0 "kq7Zx" 0, .elapse 5000000,
    .issue false 0 "Ub2_w" 5000000, .task true (.resolved 0), .task false (.resolved 0),
    .handshake false 0, .handshake true 0]

theorem firstHandshakes_drawn :
    Runs.Along (step Json.ints (Json.dumps Json.ints true) ["http://localhost:3000"] viewer
      (Feed.alerts id)) Drawn empty firstHandshakes := by
  refine ⟨?_, ?_, ?_, ?_, ?_, ?_, ?_, ?_, ?_, trivial⟩
  iterate 2 exact fun ticket h => absurd h (by simp [Event.drawn])
  · intro ticket h
    obtain rfl := Option.some.inj h
    exact ⟨by decide, fun e he => absurd he List.not_mem_nil⟩
  · exact fun ticket h => absurd h (by simp [Event.drawn])
  · intro ticket h
    obtain rfl := Option.some.inj h
    refine ⟨by decide, fun e he => ?_⟩
    rcases List.mem_cons.mp he with rfl | he
    · decide
    · rw [List.mem_singleton.mp he]
      decide
  iterate 4 exact fun ticket h => absurd h (by simp [Event.drawn])

/-- The one is connecting, the other is turned away. -/
theorem stream_pages_first :
    (∃ c, (Runs.run (step Json.ints (Json.dumps Json.ints true) ["http://localhost:3000"] viewer
        (Feed.alerts id)) empty firstHandshakes).pages true = some c ∧
      c.Streaming ["http://localhost:3000"] (Runs.run (step Json.ints (Json.dumps Json.ints true)
        ["http://localhost:3000"] viewer (Feed.alerts id)) empty firstHandshakes).log
        (viewer true)) ∧
    ∃ c, (Runs.run (step Json.ints (Json.dumps Json.ints true) ["http://localhost:3000"] viewer
        (Feed.alerts id)) empty firstHandshakes).pages false = some c ∧
      c.sockets.map WebSocket.answer = [some .closed] ∧
      c.Streaming ["http://localhost:3000"] (Runs.run (step Json.ints (Json.dumps Json.ints true)
        ["http://localhost:3000"] viewer (Feed.alerts id)) empty firstHandshakes).log
        (viewer false) :=
  ⟨⟨_, rfl, stream_pages Json.ints (Json.dumps Json.ints true)
      ["http://localhost:3000"] viewer (Feed.alerts id) firstHandshakes_drawn true _ rfl⟩,
    _, rfl, rfl, stream_pages Json.ints (Json.dumps Json.ints true)
      ["http://localhost:3000"] viewer (Feed.alerts id) firstHandshakes_drawn false _ rfl⟩

end StreamWorld

end ForexAi
