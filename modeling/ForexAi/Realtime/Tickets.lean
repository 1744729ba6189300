/-
One-time tickets for the live feed.

A REST call issues a ticket, a random text, and stores under it whom it was issued to, with a
short time to live; the socket presents it and the store gives the entry and deletes it in one
step (`GETDEL`).  The entry is a JSON text, so presenting reads it back.

The tokens are what the callers name: that two are never the same is not used.
-/
import ForexAi.Bus.Events
import ForexAi.Lib.Expiring
import ForexAi.Lib.Json

namespace ForexAi

open Json (Value Distinct)

/-- `TICKET_TTL_SECONDS`. -/
def ticketTtlSeconds : ℕ := 30

/-- The roles of `ROLE_RANK`. -/
def knownRoles : List String := ["viewer", "trader", "admin"]

/-- `_key`. -/
def ticketKey (ticket : String) : String := "ws:ticket:" ++ ticket

/-- `TicketPayload`, but for the stamp. -/
structure TicketPayload where
  ticket : String
  sub : String
  role : String
  ttlSeconds : ℕ
  deriving DecidableEq

/-- How presenting a ticket ends. -/
inductive Redemption where
  | granted (payload : TicketPayload)
  /-- `AuthenticationError`. -/
  | refused (message : String)
  | raised
  deriving DecidableEq

/-- The store of the tickets; its clock counts microseconds. -/
abbrev TicketStore := Expiring.Store String String

namespace Ticket

variable {N : Type} (fmt : Json.NumberFormat N)

/-- The entry that is stored under a ticket. -/
def entry (sub role : String) (issued : Time) : Value N :=
  .obj [("sub", .str sub), ("role", .str role), ("iat", .str (isoformat issued))]

/-- `issue_ticket`, at the wall clock's `issued`. -/
def issue (s : TicketStore) (ticket sub role : String) (ttlSeconds : ℕ) (issued : Time) :
    TicketPayload × TicketStore :=
  (⟨ticket, sub, role, ttlSeconds⟩,
    s.setEx (ticketKey ticket) (Json.dumps fmt true (entry sub role issued)) (ttlSeconds * 1000000))

/-- `str(payload.get(key, ""))`; `shown` prints what is no text. -/
def field (shown : Value N → String) (data : List (String × Value N)) (key : String) : String :=
  match data.lookup key with
  | none => ""
  | some (.str s) => s
  | some other => shown other

/-- What is made of an entry that was found. -/
def opened (shown : Value N → String) (ticket raw : String) : Redemption :=
  match Json.loads fmt raw with
  | none => .refused "Malformed WebSocket ticket"
  | some (.obj data) =>
      if field shown data "sub" = "" ∨ field shown data "role" ∉ knownRoles then
        .refused "Malformed WebSocket ticket"
      else .granted ⟨ticket, field shown data "sub", field shown data "role", 0⟩
  -- What is no object has no `get`.
  | some _ => .raised

/-- `redeem_ticket`. -/
def redeem (shown : Value N → String) (s : TicketStore) (ticket : String) :
    Redemption × TicketStore :=
  if ticket = "" then (.refused "Missing WebSocket ticket", s)
  else
    match s.get (ticketKey ticket) with
    | none =>
        (.refused "Invalid, expired, or already-used WebSocket ticket", s.del (ticketKey ticket))
    | some raw =>
        if raw = "" then
          (.refused "Invalid, expired, or already-used WebSocket ticket", s.del (ticketKey ticket))
        else (opened fmt shown ticket raw, s.del (ticketKey ticket))

/-- What may happen to the tickets. -/
inductive TicketEvent where
  | issue (ticket sub role : String) (ttlSeconds : ℕ) (issued : Time)
  | redeem (ticket : String)
  | elapse (d : ℕ)

/-- One step of the store, whoever makes it. -/
def step (shown : Value N → String) (s : TicketStore) : TicketEvent → TicketStore
  | .issue ticket sub role ttlSeconds issued => (issue fmt s ticket sub role ttlSeconds issued).2
  | .redeem ticket => (redeem fmt shown s ticket).2
  | .elapse d => s.elapse d

namespace TicketEvent

/-- The ticket an event is about. -/
def ticket : TicketEvent → Option String
  | issue ticket _ _ _ _ => some ticket
  | redeem ticket => some ticket
  | elapse _ => none

/-- The time an event takes. -/
def time : TicketEvent → ℕ
  | elapse d => d
  | _ => 0

/-- The event on the store. -/
def op : TicketEvent → Expiring.Op String String
  | issue ticket sub role ttlSeconds issued =>
      .write (ticketKey ticket) (Json.dumps fmt true (entry sub role issued)) (ttlSeconds * 1000000)
  | redeem ticket => if ticket = "" then .elapse 0 else .remove (ticketKey ticket)
  | elapse d => .elapse d

end TicketEvent

/-- The microseconds a run takes. -/
def elapsed (es : List TicketEvent) : ℕ := (es.map TicketEvent.time).sum

end Ticket

end ForexAi
