/-
The socket of a live page.

`AlertsSocket` and `SignalsSocket` are one class written twice: they differ in the topics they
subscribe to and in what they make of an event, which a `Feed` says.  What the class awaits or
listens to comes as a `SocketEvent`, one task of the browser each.  The browser's own part is its
promises, its timer and its `WebSocket` objects: a `WebSocket` opens at most once, and ends once,
where it failed with an `error` before the `close` and both in one task.  What a browser never
does, a message of a socket that is not open or a timer that was cleared, does nothing here.

A page makes its socket when it is mounted, calls `start` once, and closes it when it is left.

The server looks at the `Origin` of a handshake before it looks at the ticket, so a page of an
origin that is not on its list is turned away and its ticket stays.
-/
import ForexAi.Realtime.Hub
import ForexAi.Realtime.Tickets

namespace ForexAi

/-- `readyState`. -/
inductive ReadyState where
  | connecting
  | opened
  | closing
  | closed
  deriving DecidableEq

/-- How `ws_stream` answers a handshake. -/
inductive StreamAnswer where
  | accepted (payload : TicketPayload)
  /-- `close(code=WS_AUTH_CLOSE_CODE)`, before it was accepted. -/
  | closed
  | raised
  deriving DecidableEq

/-- What `ws_stream` makes of a ticket it presented. -/
def StreamAnswer.of : Redemption → StreamAnswer
  | .granted payload => .accepted payload
  | .refused _ => .closed
  | .raised => .raised

/-- A `WebSocket`: the ticket in its URL, what the server answered to its handshake, whether
`onclose` is still set, and what was sent on it. -/
structure WebSocket where
  ticket : String
  readyState : ReadyState
  answer : Option StreamAnswer
  onclose : Bool
  sent : List (List String)

namespace WebSocket

/-- `new WebSocket(ticketUrl)`, with its handlers set. -/
def new (ticket : String) : WebSocket := ⟨ticket, .connecting, none, true, []⟩

/-- Connecting or open. -/
def live (s : WebSocket) : Bool := s.readyState = .connecting || s.readyState = .opened

/-- `socket.onclose = null; socket.close()`. -/
def leave (s : WebSocket) : WebSocket :=
  { s with
    readyState := if s.readyState = .closed then .closed else .closing
    onclose := false }

end WebSocket

/-- The callbacks of a page. -/
inductive Callback (A : Type) where
  | onOpen
  | onReconnect
  | onEvent (item : A)
  | onError (reason : String)
  | onAuthError
  | onClose

/-- A frame of the server, `other` being a `subscribed` frame and all that is none of these. -/
inductive StreamFrame (D : Type) where
  | event (topic : String) (data : D)
  | error (reason : Option String)
  | other

/-- What the two classes differ in. -/
structure Feed (D A : Type) where
  topics : List String
  /-- What an event of a topic is made into, if it is passed on. -/
  item : String → D → Option A

/-- The feed of `AlertsSocket`. -/
def Feed.alerts {D A : Type} (normalizeEvent : D → A) : Feed D A where
  topics := ["alerts"]
  item topic data := if topic = "alerts" then some (normalizeEvent data) else none

/-- The feed of `SignalsSocket`, an item being a signal or a decision. -/
def Feed.signals {D A : Type} (normalizeSignalEvent normalizeDecisionEvent : D → Option A) :
    Feed D A where
  topics := ["signals", "decisions"]
  item topic data :=
    if topic = "signals" then normalizeSignalEvent data
    else if topic = "decisions" then normalizeDecisionEvent data
    else none

/-- The fields of `AlertsSocket` and `SignalsSocket`, and what the browser holds for them: the
`WebSocket` objects made so far, the ticket requests under way (with the ticket, once the server
has issued one), and the callbacks called so far. -/
structure StreamSocket (A : Type) where
  closed : Bool
  /-- The delay it was set with, in milliseconds. -/
  reconnectTimer : Option ℕ
  reconnectAttempts : ℕ
  firstOpen : Bool
  /-- The place of `this.socket` in `sockets`. -/
  socket : Option ℕ
  sockets : List WebSocket
  requests : List (Option String)
  calls : List (Callback A)

namespace StreamSocket

variable {D A : Type}

/-- The constructor. -/
def new : StreamSocket A where
  closed := false
  reconnectTimer := none
  reconnectAttempts := 0
  firstOpen := true
  socket := none
  sockets := []
  requests := []
  calls := []

/-- A callback is called. -/
def call (c : StreamSocket A) (callback : Callback A) : StreamSocket A :=
  { c with calls := c.calls ++ [callback] }

/-- `connect`, up to its `await`. -/
def connect (c : StreamSocket A) : StreamSocket A :=
  if c.closed then c else { c with requests := c.requests ++ [none] }

/-- `start`. -/
def start (c : StreamSocket A) : StreamSocket A := connect { c with closed := false }

/-- `open`. -/
def openWith (ticket : String) (c : StreamSocket A) : StreamSocket A :=
  if c.closed then c
  else
    { c with
      sockets := c.sockets ++ [WebSocket.new ticket]
      socket := some c.sockets.length }

/-- `scheduleReconnect`. -/
def scheduleReconnect (c : StreamSocket A) : StreamSocket A :=
  if c.closed ∨ c.reconnectTimer.isSome then c
  else
    { c with
      reconnectTimer := some (min (1000 * 2 ^ c.reconnectAttempts) 15000)
      reconnectAttempts := c.reconnectAttempts + 1 }

/-- The timer of `scheduleReconnect` fires. -/
def timeout (c : StreamSocket A) : StreamSocket A :=
  match c.reconnectTimer with
  | none => c
  | some _ => connect { c with reconnectTimer := none }

/-! ### The rest of `connect` -/

/-- A request is over. -/
def settle (k : ℕ) (c : StreamSocket A) : StreamSocket A :=
  { c with requests := c.requests.eraseIdx k }

/-- A ticket arrives. -/
def resolved (k : ℕ) (c : StreamSocket A) : StreamSocket A :=
  match c.requests[k]? with
  | some (some ticket) => openWith ticket (settle k c)
  | _ => c

/-- The request is answered with a 401 or 403. -/
def denied (k : ℕ) (c : StreamSocket A) : StreamSocket A :=
  if k < c.requests.length then (settle k c).call .onAuthError else c

/-- The request fails in any other way. -/
def rejected (k : ℕ) (c : StreamSocket A) : StreamSocket A :=
  if k < c.requests.length then
    scheduleReconnect ((settle k c).call
      (.onError "Could not obtain a WebSocket ticket (API unreachable or unauthorized)."))
  else c

/-! ### The handlers of a `WebSocket` -/

/-- `onopen`, of a `WebSocket` the server has let in. -/
def onopen (feed : Feed D A) (i : ℕ) (c : StreamSocket A) : StreamSocket A :=
  match c.sockets[i]? with
  | some ⟨ticket, .connecting, some (.accepted payload), onclose, sent⟩ =>
      let c := { c with
        reconnectAttempts := 0
        sockets := c.sockets.set i
          ⟨ticket, .opened, some (.accepted payload), onclose, sent ++ [feed.topics]⟩ }
      if c.firstOpen then { c with firstOpen := false }.call .onOpen else c.call .onReconnect
  | _ => c

/-- `onmessage`. -/
def onmessage (feed : Feed D A) (i : ℕ) (frame : StreamFrame D) (c : StreamSocket A) :
    StreamSocket A :=
  match c.sockets[i]? with
  | some ⟨_, .opened, _, _, _⟩ =>
      match frame with
      | .event topic data => (feed.item topic data).elim c fun item => c.call (.onEvent item)
      | .error reason => c.call (.onError (reason.getD "Unknown stream error"))
      | .other => c
  | _ => c

/-- `onerror`. -/
def onerror (c : StreamSocket A) : StreamSocket A :=
  scheduleReconnect (c.call (.onError "WebSocket connection error; retrying."))

/-- `onclose`, where it is set. -/
def onclose (listening : Bool) (c : StreamSocket A) : StreamSocket A :=
  if listening then (if c.closed then c.call .onClose else scheduleReconnect c) else c

/-- A `WebSocket` ends: `onerror` where it failed, then `onclose`. -/
def ended (i : ℕ) (failed : Bool) (c : StreamSocket A) : StreamSocket A :=
  match c.sockets[i]? with
  | none => c
  | some s =>
      if s.readyState = .closed then c
      else
        let c := { c with sockets := c.sockets.set i { s with readyState := .closed } }
        onclose s.onclose (if failed then onerror c else c)

/-- `close`. -/
def close (c : StreamSocket A) : StreamSocket A :=
  let c := { c with closed := true, reconnectTimer := none }
  match c.socket with
  | none => c
  | some i => { c with sockets := c.sockets.modify i WebSocket.leave, socket := none }

end StreamSocket

/-- What a socket of a page may meet. -/
inductive SocketEvent (D : Type) where
  | resolved (k : ℕ)
  | denied (k : ℕ)
  | rejected (k : ℕ)
  | opened (i : ℕ)
  | message (i : ℕ) (frame : StreamFrame D)
  | ended (i : ℕ) (failed : Bool)
  | timeout
  | close

/-- One task of the browser. -/
def StreamSocket.step {D A : Type} (feed : Feed D A) (c : StreamSocket A) :
    SocketEvent D → StreamSocket A
  | .resolved k => c.resolved k
  | .denied k => c.denied k
  | .rejected k => c.rejected k
  | .opened i => c.onopen feed i
  | .message i frame => c.onmessage feed i frame
  | .ended i failed => c.ended i failed
  | .timeout => c.timeout
  | .close => c.close

/-! ### The pages and the server -/

/-- Whom a page is signed in as, and the `Origin` its browser sends. -/
structure PageUser where
  sub : String
  role : String
  origin : Option String
  sub_ne : sub ≠ ""
  known : role ∈ knownRoles

/-- The pages that were mounted, the store of the tickets, and the server's log of what happened
to it. -/
structure StreamWorld (ι A : Type) where
  pages : ι → Option (StreamSocket A)
  store : TicketStore
  log : List Ticket.TicketEvent

namespace StreamWorld

variable {ι D A N : Type}

/-- No page yet, and no ticket. -/
def empty : StreamWorld ι A := ⟨fun _ => none, Expiring.fresh, []⟩

/-- What may happen. -/
inductive Event (ι D : Type) where
  /-- A page is opened. -/
  | mount (p : ι)
  /-- A task of a page's browser. -/
  | task (p : ι) (e : SocketEvent D)
  /-- The server handles a ticket request of a page: `create_ws_ticket`. -/
  | issue (p : ι) (k : ℕ) (ticket : String) (issued : Time)
  /-- The server handles the handshake of a page's `WebSocket`: `ws_stream`. -/
  | handshake (p : ι) (i : ℕ)
  | elapse (d : ℕ)

/-- The token an event draws: `secrets.token_urlsafe`. -/
def Event.drawn : Event ι D → Option String
  | issue _ _ ticket _ => some ticket
  | _ => none

variable [DecidableEq ι]

/-- A page changes. -/
def put (w : StreamWorld ι A) (p : ι) (c : StreamSocket A) : StreamWorld ι A :=
  { w with pages := Function.update w.pages p (some c) }

section

variable (fmt : Json.NumberFormat N) (shown : Json.Value N → String)

/-- Something happens to the tickets. -/
def serve (w : StreamWorld ι A) (e : Ticket.TicketEvent) : StreamWorld ι A :=
  { w with store := Ticket.step fmt shown w.store e, log := w.log ++ [e] }

/-- One event.  A request is handled once, and so is a handshake; `allowed` is
`cors_origin_list`. -/
def step (allowed : List String) (users : ι → PageUser) (feed : Feed D A) (w : StreamWorld ι A) :
    Event ι D → StreamWorld ι A
  | .mount p =>
      match w.pages p with
      | none => w.put p StreamSocket.new.start
      | some _ => w
  | .task p e =>
      match w.pages p with
      | none => w
      | some c => w.put p (c.step feed e)
  | .issue p k ticket issued =>
      match w.pages p with
      | none => w
      | some c =>
          if c.requests[k]? = some none then
            (w.serve fmt shown
              (.issue ticket (users p).sub (users p).role ticketTtlSeconds issued)).put p
              { c with requests := c.requests.set k (some ticket) }
          else w
  | .handshake p i =>
      match w.pages p with
      | none => w
      | some c =>
          match c.sockets[i]? with
          | some ⟨ticket, readyState, none, onclose, sent⟩ =>
              if originAllowed (users p).origin allowed then
                (w.serve fmt shown (.redeem ticket)).put p
                  { c with
                    sockets := c.sockets.set i
                      ⟨ticket, readyState,
                        some (.of (Ticket.redeem fmt shown w.store ticket).1), onclose, sent⟩ }
              else
                w.put p
                  { c with
                    sockets := c.sockets.set i
                      ⟨ticket, readyState, some .closed, onclose, sent⟩ }
          | _ => w
  | .elapse d => w.serve fmt shown (.elapse d)

/-- Every token is new: none is empty, and none was drawn before. -/
def Drawn (w : StreamWorld ι A) (e : Event ι D) : Prop :=
  ∀ ticket, e.drawn = some ticket → ticket ≠ "" ∧ ∀ o ∈ w.log, o.ticket ≠ some ticket

end

end StreamWorld

end ForexAi
