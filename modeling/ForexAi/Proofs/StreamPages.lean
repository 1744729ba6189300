/-
One connection for each page.

A page that is not closed is in one of four phases: it asks for a ticket, it has a `WebSocket`
that is connecting or open, it waits for its timer, or it was turned away with a 401 or 403 and
has stopped.  Every task of the browser leads from a phase to a phase (`Ok.step`); `error` and
`close` of one `WebSocket` set the timer once, since they come in one task.

`close` takes `onclose` away before the `WebSocket` ends, so no page is ever told of a close.
-/
import ForexAi.Frontend.StreamSocket

namespace ForexAi

namespace StreamSocket

variable {D A : Type}

/-! ### The phases of a page

The phase is not a field of the page: it is what the list of requests, the list of `WebSocket`
objects and the timer say together.  That they always say one of four things is the invariant.
-/

/-- No `WebSocket` is left. -/
def Quiet (c : StreamSocket A) : Prop := ∀ s ∈ c.sockets, s.readyState = .closed

/-- The phases of a page that is not closed. -/
inductive Phase (c : StreamSocket A) : Prop where
  | requesting (request : Option String) (requests : c.requests = [request])
      (timer : c.reconnectTimer = none) (quiet : c.Quiet)
  | connected (front : List WebSocket) (s : WebSocket) (requests : c.requests = [])
      (timer : c.reconnectTimer = none) (sockets : c.sockets = front ++ [s])
      (before : ∀ o ∈ front, o.readyState = .closed) (live : s.live = true)
      (listening : s.onclose = true) (current : c.socket = some front.length)
  | waiting (delay : ℕ) (requests : c.requests = []) (timer : c.reconnectTimer = some delay)
      (least : 1000 ≤ delay) (most : delay ≤ 15000) (quiet : c.Quiet)
  | stopped (requests : c.requests = []) (timer : c.reconnectTimer = none) (quiet : c.Quiet)
      (told : Callback.onAuthError ∈ c.calls)

/-- What is left of a page that was closed. -/
structure Left (c : StreamSocket A) : Prop where
  timer : c.reconnectTimer = none
  requests : c.requests.length ≤ 1
  current : c.socket = none
  sockets : ∀ s ∈ c.sockets, s.readyState = .closed ∨ s.readyState = .closing ∧ s.onclose = false

/-- The invariant of a page. -/
structure Ok (c : StreamSocket A) : Prop where
  phase : c.closed = false → c.Phase
  left : c.closed = true → c.Left
  silent : Callback.onClose ∉ c.calls

theorem Phase.requests_le {c : StreamSocket A} (h : c.Phase) : c.requests.length ≤ 1 := by
  cases h with
  | requesting request requests => rw [requests]; exact le_refl 1
  | connected front s requests => rw [requests]; exact Nat.zero_le 1
  | waiting delay requests => rw [requests]; exact Nat.zero_le 1
  | stopped requests => rw [requests]; exact Nat.zero_le 1

theorem Ok.requests_le {c : StreamSocket A} (h : c.Ok) : c.requests.length ≤ 1 := by
  cases hclosed : c.closed with
  | false => exact (h.phase hclosed).requests_le
  | true => exact (h.left hclosed).requests

/-- A request under way is the only one. -/
theorem Ok.requests_eq {c : StreamSocket A} (h : c.Ok) {k : ℕ} {r : Option String}
    (hr : c.requests[k]? = some r) : k = 0 ∧ c.requests = [r] := by
  obtain ⟨hk, -⟩ := List.getElem?_eq_some_iff.mp hr
  have hle := h.requests_le
  obtain rfl : k = 0 := by omega
  obtain ⟨r', hr'⟩ := List.length_eq_one_iff.mp (by omega : c.requests.length = 1)
  rw [hr'] at hr ⊢
  exact ⟨rfl, congrArg (fun x => [x]) (Option.some.inj hr)⟩

/-- A page with a request that is not closed has nothing else. -/
theorem Phase.of_request {c : StreamSocket A} (h : c.Phase) {r : Option String}
    (hr : c.requests = [r]) : c.reconnectTimer = none ∧ c.Quiet := by
  cases h with
  | requesting request requests timer quiet => exact ⟨timer, quiet⟩
  | connected front s requests => exact absurd (hr.symm.trans requests) (by simp)
  | waiting delay requests => exact absurd (hr.symm.trans requests) (by simp)
  | stopped requests => exact absurd (hr.symm.trans requests) (by simp)

/-- A `WebSocket` of a page that is not closed has ended, or it is the live one. -/
theorem Phase.socket {c : StreamSocket A} (h : c.Phase) {i : ℕ} {s : WebSocket}
    (hs : c.sockets[i]? = some s) (hnot : s.readyState ≠ .closed) :
    ∃ front, c.requests = [] ∧ c.reconnectTimer = none ∧ c.sockets = front ++ [s] ∧
      i = front.length ∧ (∀ o ∈ front, o.readyState = .closed) ∧ s.onclose = true ∧
      c.socket = some front.length := by
  have hmem : s ∈ c.sockets := List.mem_of_getElem? hs
  cases h with
  | requesting request requests timer quiet => exact absurd (quiet s hmem) hnot
  | waiting delay requests timer least most quiet => exact absurd (quiet s hmem) hnot
  | stopped requests timer quiet => exact absurd (quiet s hmem) hnot
  | connected front o requests timer sockets before live listening current =>
      rw [sockets] at hs
      by_cases hlt : i < front.length
      · rw [List.getElem?_append_left hlt] at hs
        exact absurd (before s (List.mem_of_getElem? hs)) hnot
      · rw [List.getElem?_append_right (not_lt.mp hlt)] at hs
        obtain ⟨hi, hval⟩ := List.getElem?_eq_some_iff.mp hs
        have hi0 : i - front.length = 0 := by simpa using hi
        have hval' : o = s := by simpa [hi0] using hval
        subst hval'
        exact ⟨front, requests, timer, sockets, by omega, before, listening, current⟩

/-! ### What the methods do

`scheduleReconnect`, `start` and `close` are called from several handlers.  What each does to
a phase is said once.
-/

theorem scheduleReconnect_phase {c : StreamSocket A} (hopen : c.closed = false)
    (hrequests : c.requests = []) (htimer : c.reconnectTimer = none) (hquiet : c.Quiet) :
    c.scheduleReconnect.Phase := by
  have hpow : 1 ≤ 2 ^ c.reconnectAttempts := Nat.one_le_two_pow
  unfold scheduleReconnect
  rw [if_neg (by rw [hopen, htimer]; simp)]
  exact .waiting _ hrequests rfl (by omega) (by omega) hquiet

@[simp] theorem closed_scheduleReconnect (c : StreamSocket A) :
    c.scheduleReconnect.closed = c.closed := by
  unfold scheduleReconnect
  split <;> rfl

@[simp] theorem calls_scheduleReconnect (c : StreamSocket A) :
    c.scheduleReconnect.calls = c.calls := by
  unfold scheduleReconnect
  split <;> rfl

@[simp] theorem sockets_scheduleReconnect (c : StreamSocket A) :
    c.scheduleReconnect.sockets = c.sockets := by
  unfold scheduleReconnect
  split <;> rfl

@[simp] theorem requests_scheduleReconnect (c : StreamSocket A) :
    c.scheduleReconnect.requests = c.requests := by
  unfold scheduleReconnect
  split <;> rfl

/-- A timer that is set is not set again. -/
theorem scheduleReconnect_waiting {c : StreamSocket A} (h : c.reconnectTimer.isSome) :
    c.scheduleReconnect = c := by
  unfold scheduleReconnect
  rw [if_pos (Or.inr h)]

theorem scheduleReconnect_closed {c : StreamSocket A} (h : c.closed = true) :
    c.scheduleReconnect = c := by
  unfold scheduleReconnect
  rw [if_pos (Or.inl h)]

/-- The page's phase, or what is left of it, does not depend on the callbacks before. -/
theorem Phase.call {c : StreamSocket A} (h : c.Phase) (callback : Callback A) :
    (c.call callback).Phase := by
  cases h with
  | requesting request requests timer quiet => exact .requesting request requests timer quiet
  | connected front s requests timer sockets before live listening current =>
      exact .connected front s requests timer sockets before live listening current
  | waiting delay requests timer least most quiet =>
      exact .waiting delay requests timer least most quiet
  | stopped requests timer quiet told =>
      exact .stopped requests timer quiet (List.mem_append_left _ told)

theorem Left.call {c : StreamSocket A} (h : c.Left) (callback : Callback A) :
    (c.call callback).Left := ⟨h.timer, h.requests, h.current, h.sockets⟩

theorem silent_call {c : StreamSocket A} (h : Callback.onClose ∉ c.calls) {callback : Callback A}
    (hne : callback ≠ .onClose) : Callback.onClose ∉ (c.call callback).calls := by
  intro hmem
  rcases List.mem_append.mp hmem with hmem | hmem
  · exact h hmem
  · exact hne (List.mem_singleton.mp hmem).symm

theorem Ok.call {c : StreamSocket A} (h : c.Ok) {callback : Callback A}
    (hne : callback ≠ .onClose) : (c.call callback).Ok where
  phase hopen := (h.phase hopen).call callback
  left hclosed := (h.left hclosed).call callback
  silent := silent_call h.silent hne

theorem new_start_ok : (new : StreamSocket A).start.Ok where
  phase _ := .requesting none rfl rfl fun s hs => absurd hs (by simp [start, connect, new])
  left hclosed := absurd hclosed (by simp [start, connect, new])
  silent := by simp [start, connect, new]

theorem Ok.timeout {c : StreamSocket A} (h : c.Ok) : c.timeout.Ok := by
  unfold StreamSocket.timeout
  cases htimer : c.reconnectTimer with
  | none => exact h
  | some delay =>
      have hopen : c.closed = false := by
        cases hclosed : c.closed with
        | false => rfl
        | true => exact absurd (htimer.symm.trans (h.left hclosed).timer) (by simp)
      have hphase : c.requests = [] ∧ c.Quiet := by
        cases h.phase hopen with
        | requesting request requests timer => exact absurd (htimer.symm.trans timer) (by simp)
        | connected front s requests timer => exact absurd (htimer.symm.trans timer) (by simp)
        | waiting delay requests timer least most quiet => exact ⟨requests, quiet⟩
        | stopped requests timer => exact absurd (htimer.symm.trans timer) (by simp)
      show (connect { c with reconnectTimer := none }).Ok
      unfold connect
      rw [if_neg (by simp [hopen])]
      refine ⟨fun _ => .requesting none ?_ rfl hphase.2, fun hclosed => ?_, h.silent⟩
      · show c.requests ++ [none] = [none]
        rw [hphase.1, List.nil_append]
      · exact absurd (hopen.symm.trans hclosed) (by simp)

/-- A request is over, and the page is left with nothing else. -/
theorem Ok.settle_open {c : StreamSocket A} (h : c.Ok) {r : Option String}
    (hr : c.requests = [r]) (hopen : c.closed = false) :
    (settle 0 c).requests = [] ∧ (settle 0 c).reconnectTimer = none ∧ (settle 0 c).Quiet := by
  obtain ⟨htimer, hquiet⟩ := (h.phase hopen).of_request hr
  refine ⟨?_, htimer, hquiet⟩
  show c.requests.eraseIdx 0 = []
  rw [hr]
  rfl

theorem Ok.settle_closed {c : StreamSocket A} (h : c.Ok) (k : ℕ) (hclosed : c.closed = true) :
    (settle k c).Left := by
  have hleft := h.left hclosed
  refine ⟨hleft.timer, le_trans ?_ hleft.requests, hleft.current, hleft.sockets⟩
  exact (List.eraseIdx_sublist c.requests k).length_le

theorem Ok.resolved {c : StreamSocket A} (h : c.Ok) (k : ℕ) : (c.resolved k).Ok := by
  unfold StreamSocket.resolved
  split
  · rename_i ticket hr
    obtain ⟨rfl, hone⟩ := h.requests_eq hr
    unfold openWith
    cases hclosed : c.closed with
    | true =>
        rw [if_pos (show (settle 0 c).closed = true from hclosed)]
        exact ⟨fun hopen => absurd (hclosed.symm.trans hopen) (by simp),
          fun _ => h.settle_closed 0 hclosed, h.silent⟩
    | false =>
        obtain ⟨hrequests, htimer, hquiet⟩ := h.settle_open hone hclosed
        rw [if_neg (show ¬ (settle 0 c).closed = true by simp [settle, hclosed])]
        refine ⟨fun _ => ?_, fun hnot => absurd (hclosed.symm.trans hnot) (by simp), h.silent⟩
        exact .connected c.sockets (WebSocket.new ticket) hrequests htimer rfl hquiet rfl rfl rfl
  · exact h

theorem Ok.denied {c : StreamSocket A} (h : c.Ok) (k : ℕ) : (c.denied k).Ok := by
  unfold StreamSocket.denied
  split
  · rename_i hk
    obtain ⟨rfl, hone⟩ := h.requests_eq (List.getElem?_eq_getElem hk)
    refine ⟨fun hopen => ?_, fun hclosed => (h.settle_closed 0 hclosed).call _,
      silent_call (c := settle 0 c) h.silent (by simp)⟩
    obtain ⟨hrequests, htimer, hquiet⟩ := h.settle_open hone hopen
    exact .stopped hrequests htimer hquiet (List.mem_append_right _ (List.mem_singleton.mpr rfl))
  · exact h

theorem Ok.rejected {c : StreamSocket A} (h : c.Ok) (k : ℕ) : (c.rejected k).Ok := by
  unfold StreamSocket.rejected
  split
  · rename_i hk
    obtain ⟨rfl, hone⟩ := h.requests_eq (List.getElem?_eq_getElem hk)
    refine ⟨fun hopen => ?_, fun hclosed => ?_, ?_⟩
    · rw [closed_scheduleReconnect] at hopen
      obtain ⟨hrequests, htimer, hquiet⟩ := h.settle_open hone hopen
      exact scheduleReconnect_phase hopen hrequests htimer hquiet
    · rw [closed_scheduleReconnect] at hclosed
      rw [scheduleReconnect_closed hclosed]
      exact (h.settle_closed 0 hclosed).call _
    · rw [calls_scheduleReconnect]
      exact silent_call (c := settle 0 c) h.silent (by simp)
  · exact h

/-! ### What the handlers do

A handler belongs to one `WebSocket`.  If that is the current one the phase moves on; if it is
one that was left before, nobody listens to it.
-/

theorem Ok.set {c : StreamSocket A} (h : c.Ok) {i : ℕ} {s t : WebSocket}
    (hs : c.sockets[i]? = some s) (hended : t.readyState = .closed ↔ s.readyState = .closed)
    (hclosing : s.readyState = .closing → t.readyState = .closing) (hlive : t.live = s.live)
    (hlisten : t.onclose = s.onclose) : Ok { c with sockets := c.sockets.set i t } := by
  have hmem : s ∈ c.sockets := List.mem_of_getElem? hs
  have hquiet : c.Quiet → Quiet { c with sockets := c.sockets.set i t } := by
    intro hquiet o ho
    rcases List.mem_or_eq_of_mem_set ho with ho | rfl
    · exact hquiet o ho
    · exact hended.mpr (hquiet s hmem)
  refine ⟨fun hopen => ?_, fun hclosed => ?_, h.silent⟩
  · cases h.phase hopen with
    | requesting request requests timer quiet =>
        exact .requesting request requests timer (hquiet quiet)
    | waiting delay requests timer least most quiet =>
        exact .waiting delay requests timer least most (hquiet quiet)
    | stopped requests timer quiet told => exact .stopped requests timer (hquiet quiet) told
    | connected front o requests timer sockets before live listening current =>
        rw [sockets] at hs
        by_cases hlt : i < front.length
        · rw [List.getElem?_append_left hlt] at hs
          have hkeep := hended.mpr (before s (List.mem_of_getElem? hs))
          refine .connected (front.set i t) o requests timer ?_ ?_ live listening ?_
          · show c.sockets.set i t = _
            rw [sockets, List.set_append_left _ _ hlt]
          · intro x hx
            rcases List.mem_or_eq_of_mem_set hx with hx | rfl
            · exact before x hx
            · exact hkeep
          · rw [List.length_set]
            exact current
        · rw [List.getElem?_append_right (not_lt.mp hlt)] at hs
          have hi0 : i - front.length = 0 := by
            have hi := (List.getElem?_eq_some_iff.mp hs).1
            simpa using hi
          obtain rfl : o = s := by simpa [hi0] using hs
          refine .connected front t requests timer ?_ before (hlive.trans live)
            (hlisten.trans listening) current
          show c.sockets.set i t = _
          rw [sockets, List.set_append_right _ _ (not_lt.mp hlt), hi0]
          rfl
  · have hleft := h.left hclosed
    refine ⟨hleft.timer, hleft.requests, hleft.current, fun o ho => ?_⟩
    rcases List.mem_or_eq_of_mem_set ho with ho | rfl
    · exact hleft.sockets o ho
    · rcases hleft.sockets s hmem with hstate | ⟨hstate, hoff⟩
      · exact Or.inl (hended.mpr hstate)
      · exact Or.inr ⟨hclosing hstate, hlisten.trans hoff⟩

/-- The phase does not depend on the counter, nor on whether this is the first opening. -/
theorem Ok.recount {c : StreamSocket A} (h : c.Ok) (attempts : ℕ) (first : Bool) :
    Ok { c with reconnectAttempts := attempts, firstOpen := first } := by
  refine ⟨fun hopen => ?_, fun hclosed => ?_, h.silent⟩
  · cases h.phase hopen with
    | requesting request requests timer quiet => exact .requesting request requests timer quiet
    | connected front s requests timer sockets before live listening current =>
        exact .connected front s requests timer sockets before live listening current
    | waiting delay requests timer least most quiet =>
        exact .waiting delay requests timer least most quiet
    | stopped requests timer quiet told => exact .stopped requests timer quiet told
  · obtain ⟨htimer, hrequests, hcurrent, hsockets⟩ := h.left hclosed
    exact ⟨htimer, hrequests, hcurrent, hsockets⟩

theorem Ok.onopen {c : StreamSocket A} (h : c.Ok) (feed : Feed D A) (i : ℕ) :
    (c.onopen feed i).Ok := by
  unfold StreamSocket.onopen
  split
  · rename_i ticket payload onclose sent hs
    have hset := h.set (t := ⟨ticket, .opened, some (.accepted payload), onclose,
      sent ++ [feed.topics]⟩) hs (by simp) (by simp) rfl rfl
    simp only
    split
    · exact (hset.recount 0 false).call (by simp)
    · exact (hset.recount 0 c.firstOpen).call (by simp)
  · exact h

theorem Ok.onmessage {c : StreamSocket A} (h : c.Ok) (feed : Feed D A) (i : ℕ)
    (frame : StreamFrame D) : (c.onmessage feed i frame).Ok := by
  unfold StreamSocket.onmessage
  split
  · cases frame with
    | other => exact h
    | error reason => exact h.call (by simp)
    | event topic data =>
        show Ok ((feed.item topic data).elim c fun item => c.call (.onEvent item))
        cases feed.item topic data with
        | none => exact h
        | some item => exact h.call (by simp)
  · exact h

@[simp] theorem closed_onerror (c : StreamSocket A) : c.onerror.closed = c.closed := by
  unfold onerror
  rw [closed_scheduleReconnect]
  rfl

theorem silent_onerror {c : StreamSocket A} (h : Callback.onClose ∉ c.calls) :
    Callback.onClose ∉ c.onerror.calls := by
  unfold onerror
  rw [calls_scheduleReconnect]
  exact silent_call h (by simp)

/-- A `WebSocket` that ends leaves a page that is not closed waiting, whether it failed or not. -/
theorem ended_open {c : StreamSocket A} (hopen : c.closed = false) (hrequests : c.requests = [])
    (htimer : c.reconnectTimer = none) (hquiet : c.Quiet) (hsilent : Callback.onClose ∉ c.calls)
    (failed : Bool) {listening : Bool} (hlisten : listening = true) :
    (onclose listening (if failed then onerror c else c)).Ok := by
  rw [hlisten]
  have hclose : ∀ d : StreamSocket A, d.closed = false → onclose true d = d.scheduleReconnect := by
    intro d hd
    unfold StreamSocket.onclose
    rw [if_pos rfl, if_neg (by simp [hd])]
  have hok : ∀ d : StreamSocket A, d.closed = false → d.Phase → Callback.onClose ∉ d.calls → d.Ok :=
    fun d hd hphase hd' => ⟨fun _ => hphase,
      fun hclosed => absurd (hd.symm.trans hclosed) (by simp),
      hd'⟩
  cases failed with
  | false =>
      show (onclose true c).Ok
      rw [hclose c hopen]
      refine hok _ (by rw [closed_scheduleReconnect, hopen]) ?_ (by rwa [calls_scheduleReconnect])
      exact scheduleReconnect_phase hopen hrequests htimer hquiet
  | true =>
      show (onclose true c.onerror).Ok
      have herror : c.onerror.Phase := scheduleReconnect_phase hopen hrequests htimer hquiet
      have hset : c.onerror.reconnectTimer.isSome := by
        unfold onerror scheduleReconnect
        rw [if_neg (by simp [call, hopen, htimer])]
        rfl
      -- The timer is set by `onerror`, so `onclose` leaves it alone.
      rw [hclose _ (by rw [closed_onerror, hopen]), scheduleReconnect_waiting hset]
      exact hok _ (by rw [closed_onerror, hopen]) herror (silent_onerror hsilent)

/-- After `close` nobody listens to the end. -/
theorem ended_left {c : StreamSocket A} (hclosed : c.closed = true) (hleft : c.Left)
    (hsilent : Callback.onClose ∉ c.calls) (failed : Bool) {listening : Bool}
    (hoff : listening = false) : (onclose listening (if failed then onerror c else c)).Ok := by
  rw [hoff]
  have hok : ∀ d : StreamSocket A, d.closed = true → d.Left → Callback.onClose ∉ d.calls → d.Ok :=
    fun d hd hd' hsilent => ⟨fun hopen => absurd (hd.symm.trans hopen) (by simp), fun _ => hd',
      hsilent⟩
  cases failed with
  | false => exact hok c hclosed hleft hsilent
  | true =>
      show c.onerror.Ok
      unfold onerror
      rw [scheduleReconnect_closed (c := c.call _) hclosed]
      exact hok _ hclosed (hleft.call _) (silent_call hsilent (by simp))

theorem Ok.ended {c : StreamSocket A} (h : c.Ok) (i : ℕ) (failed : Bool) :
    (c.ended i failed).Ok := by
  unfold StreamSocket.ended
  split
  · exact h
  · rename_i s hs
    by_cases hstate : s.readyState = .closed
    · rw [if_pos hstate]
      exact h
    · rw [if_neg hstate]
      simp only
      rcases Bool.eq_false_or_eq_true c.closed with hclosed | hclosed
      · have hleft := h.left hclosed
        have hoff : s.onclose = false := by
          rcases hleft.sockets s (List.mem_of_getElem? hs) with hended | ⟨-, hoff⟩
          · exact absurd hended hstate
          · exact hoff
        refine ended_left
          (c := { c with sockets := c.sockets.set i { s with readyState := .closed } })
          hclosed ⟨hleft.timer, hleft.requests, hleft.current, fun o ho => ?_⟩ h.silent failed hoff
        rcases List.mem_or_eq_of_mem_set ho with ho | rfl
        · exact hleft.sockets o ho
        · exact Or.inl rfl
      · obtain ⟨front, hrequests, htimer, hsockets, rfl, hbefore, hlisten, -⟩ :=
          (h.phase hclosed).socket hs hstate
        refine ended_open
          (c := { c with sockets := c.sockets.set front.length { s with readyState := .closed } })
          hclosed hrequests htimer (fun o ho => ?_) h.silent failed hlisten
        have hset : c.sockets.set front.length { s with readyState := .closed }
            = front ++ [{ s with readyState := .closed }] := by
          rw [hsockets, List.set_append_right _ _ (le_refl _), Nat.sub_self]
          rfl
        rcases List.mem_append.mp (hset ▸ ho) with ho | ho
        · exact hbefore o ho
        · rw [List.mem_singleton.mp ho]

/-- A `WebSocket` that is left is not live, whatever it was. -/
theorem leave_state (s : WebSocket) :
    s.leave.readyState = .closed ∨ s.leave.readyState = .closing ∧ s.leave.onclose = false := by
  unfold WebSocket.leave
  by_cases hstate : s.readyState = .closed
  · exact Or.inl (if_pos hstate)
  · exact Or.inr ⟨if_neg hstate, rfl⟩

theorem Ok.others {c : StreamSocket A} (h : c.Ok) {j : ℕ} {s : WebSocket}
    (hs : c.sockets[j]? = some s) (hne : c.socket ≠ some j) :
    s.readyState = .closed ∨ s.readyState = .closing ∧ s.onclose = false := by
  by_cases hstate : s.readyState = .closed
  · exact Or.inl hstate
  · rcases Bool.eq_false_or_eq_true c.closed with hclosed | hclosed
    · exact (h.left hclosed).sockets s (List.mem_of_getElem? hs)
    · obtain ⟨front, -, -, -, rfl, -, -, hcurrent⟩ := (h.phase hclosed).socket hs hstate
      exact absurd hcurrent hne

theorem Ok.close {c : StreamSocket A} (h : c.Ok) : c.close.Ok := by
  unfold StreamSocket.close
  simp only
  cases hcurrent : c.socket with
  | none =>
      refine ⟨fun hopen => absurd hopen (by simp), fun _ => ⟨rfl, h.requests_le, rfl, ?_⟩,
        h.silent⟩
      intro s hs
      obtain ⟨j, hj⟩ := List.mem_iff_getElem?.mp hs
      exact h.others hj (by simp [hcurrent])
  | some i =>
      refine ⟨fun hopen => absurd hopen (by simp), fun _ => ⟨rfl, h.requests_le, rfl, ?_⟩, h.silent⟩
      intro s hs
      obtain ⟨j, hj⟩ := List.mem_iff_getElem?.mp hs
      rw [List.getElem?_modify] at hj
      obtain ⟨o, ho, hleave⟩ := Option.map_eq_some_iff.mp hj
      by_cases hij : i = j
      · rw [if_pos hij] at hleave
        rw [← hleave]
        exact leave_state o
      · rw [if_neg hij] at hleave
        subst hleave
        exact h.others ho (by simp [hcurrent, hij])

/-- **Every task keeps the invariant.** -/
theorem Ok.step {c : StreamSocket A} (h : c.Ok) (feed : Feed D A) (e : SocketEvent D) :
    (c.step feed e).Ok := by
  cases e with
  | resolved k => exact h.resolved k
  | denied k => exact h.denied k
  | rejected k => exact h.rejected k
  | opened i => exact h.onopen feed i
  | message i frame => exact h.onmessage feed i frame
  | ended i failed => exact h.ended i failed
  | timeout => exact h.timeout
  | close => exact h.close

end StreamSocket

end ForexAi
