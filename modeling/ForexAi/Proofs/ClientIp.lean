/-
Nobody counts as somebody else.

A request that is genuinely direct, or came through a proxy that writes the headers, is
attributed to whom it came from, whatever headers its sender sent (`clientIp_sender`).  A
trusted proxy that passes an `X-Real-IP` on is the exception: what it is sent there is believed
(`clientIp_believed`), so of such a proxy only requests without one are attributed.  The
limiter serves several scopes with different limits under one table; as no scope holds a
colon, the keys of two scopes or two senders never meet, and what the limiter does to a
sender's requests of a scope is what it would do to these alone (`hits_serve`).

So the promise of the limiter is one about senders: at most the limit of a sender is let
through in a minute, and no sender uses up what another may do.
-/
import ForexAi.Core.ClientIp
import ForexAi.Lib.Joined
import ForexAi.Lib.Runs

namespace ForexAi

/-! ### Who a request is attributed to

The headers are read only where the peer is trusted, `X-Real-IP` before `X-Forwarded-For`, and
of the latter the right-most entry, which is the one the proxy wrote.
-/

theorem strip_of_plain {cs : List Char} (h : ∀ c ∈ cs, isSpace c = false) : strip cs = cs := by
  have hfront : cs.dropWhile isSpace = cs := by
    cases cs with
    | nil => rfl
    | cons c rest => exact List.dropWhile_cons_of_neg (by simp [h c List.mem_cons_self])
  unfold strip
  rw [hfront]
  rcases List.eq_nil_or_concat' cs with rfl | ⟨init, last, rfl⟩
  · rfl
  · refine List.rdropWhile_concat_neg _ _ last ?_
    simp [h last (List.mem_append_right init List.mem_cons_self)]

theorem strip_blank {cs : List Char} (h : ∀ c ∈ cs, isSpace c = false) :
    strip (' ' :: cs) = cs := by
  have hblank : strip (' ' :: cs) = strip cs := by
    unfold strip
    rw [List.dropWhile_cons_of_pos (by decide)]
  rw [hblank, strip_of_plain h]

/-- What a proxy appends is the right-most entry, whatever was sent. -/
theorem forwardedEntries_appended (sent : Headers) {remoteAddr : String} (hne : remoteAddr ≠ "")
    (hplain : ∀ c ∈ remoteAddr.toList, c ≠ ',' ∧ isSpace c = false) :
    ∃ earlier, forwardedEntries (Origin.proxyAddXForwardedFor sent remoteAddr)
      = earlier ++ [remoteAddr] := by
  have hspace : ∀ c ∈ remoteAddr.toList, isSpace c = false := fun c hc => (hplain c hc).2
  have hcomma : ',' ∉ remoteAddr.toList := fun hc => (hplain ',' hc).1 rfl
  have hchars : remoteAddr.toList ≠ [] := by simpa using hne
  unfold Origin.proxyAddXForwardedFor forwardedEntries
  cases sent "x-forwarded-for" with
  | none =>
      refine ⟨[], ?_⟩
      simp only
      rw [List.splitOn_eq_singleton hcomma, List.map_singleton, strip_of_plain hspace,
        List.filter_cons_of_pos (by simpa using hchars)]
      simp
  | some forwarded =>
      refine ⟨(((forwarded.toList.splitOn ',').map strip).filter (· ≠ [])).map String.ofList, ?_⟩
      have hsplit : (forwarded ++ ", " ++ remoteAddr).toList
          = forwarded.toList ++ ',' :: (' ' :: remoteAddr.toList) := by simp
      have hlast : (' ' :: remoteAddr.toList).splitOn ',' = [' ' :: remoteAddr.toList] :=
        List.splitOn_eq_singleton (by simpa using hcomma)
      simp only
      rw [hsplit, List.splitOn_append_cons_self, hlast, List.map_append, List.filter_append,
        List.map_append, List.map_singleton, strip_blank hspace,
        List.filter_cons_of_pos (by simpa using hchars)]
      simp

namespace ProxySettings

variable {A : Type*} (settings : ProxySettings A)

/-- Of a trusted peer an address in `X-Real-IP` is taken as it is. -/
theorem clientIp_realIp {r : HttpRequest} (htrusted : settings.isTrustedPeer r.peer = true)
    {xRealIp : String} (hheader : r.headers "x-real-ip" = some xRealIp)
    (haddr : (settings.asIp xRealIp).isSome = true) : settings.clientIp r = some xRealIp := by
  unfold clientIp
  rw [if_pos htrusted, hheader]
  exact if_pos haddr

/-- Without an address there, what was forwarded is read. -/
theorem clientIp_forwarded {r : HttpRequest} (htrusted : settings.isTrustedPeer r.peer = true)
    (hreal : ∀ xRealIp, r.headers "x-real-ip" = some xRealIp → settings.asIp xRealIp = none) :
    settings.clientIp r = settings.forwardedIp r := by
  unfold clientIp
  rw [if_pos htrusted]
  cases hheader : r.headers "x-real-ip" with
  | none => rfl
  | some xRealIp =>
      refine if_neg ?_
      rw [hreal xRealIp hheader]
      simp

theorem forwardedIp_appended {r : HttpRequest} (sent : Headers) {remoteAddr : String}
    (hheader : r.headers "x-forwarded-for"
      = some (Origin.proxyAddXForwardedFor sent remoteAddr))
    (haddr : (settings.asIp remoteAddr).isSome = true)
    (hplain : ∀ c ∈ remoteAddr.toList, c ≠ ',' ∧ isSpace c = false) :
    settings.forwardedIp r = some remoteAddr := by
  have hne : remoteAddr ≠ "" := by
    rintro rfl
    rw [settings.asIp_empty] at haddr
    exact absurd haddr (by simp)
  obtain ⟨earlier, hentries⟩ := forwardedEntries_appended sent hne hplain
  have hfind : (remoteAddr :: earlier.reverse).find? (fun p => (settings.asIp p).isSome)
      = some remoteAddr := List.find?_cons_of_pos haddr
  unfold forwardedIp
  rw [hheader]
  simp only
  rw [hentries, List.reverse_append, List.reverse_singleton, List.singleton_append, hfind]
  rfl

/-- An address that a trusted proxy passes on as `X-Real-IP` is believed, whoever wrote it. -/
theorem clientIp_believed {proxy : String} (htrusted : settings.isTrustedPeer (some proxy) = true)
    (remoteAddr : String) {sent : Headers} {xRealIp : String}
    (hsent : sent "x-real-ip" = some xRealIp) (haddr : (settings.asIp xRealIp).isSome = true) :
    settings.clientIp (Origin.appending proxy remoteAddr sent).request = some xRealIp := by
  refine settings.clientIp_realIp htrusted ?_ haddr
  simp [Origin.request, Function.update, hsent]

/-- **Whatever the sender sends, a request is attributed to the sender.** -/
theorem clientIp_sender {o : Origin} (h : o.Genuine settings) :
    settings.clientIp o.request = o.sender := by
  cases o with
  | direct peer sent =>
      refine if_neg ?_
      rw [show settings.isTrustedPeer (Origin.direct peer sent).request.peer = false from h]
      simp
  | edge proxy remoteAddr sent =>
      obtain ⟨htrusted, haddr⟩ := h
      refine settings.clientIp_realIp htrusted ?_ haddr
      simp [Origin.request, Function.update]
  | appending proxy remoteAddr sent =>
      obtain ⟨htrusted, haddr, hplain, hreal⟩ := h
      rw [settings.clientIp_forwarded htrusted fun xRealIp hheader => hreal xRealIp
        (by simpa [Origin.request, Function.update] using hheader)]
      refine settings.forwardedIp_appended sent ?_ haddr hplain
      simp [Origin.request]

end ProxySettings

/-! ### One limiter for several scopes

The limiter keeps a list of moments for each key.  Calls under other keys leave it alone, so
what it does under one key is a run of the calls under that key.
-/

namespace RateSettings

section Calls

variable {A K : Type*} (settings : ProxySettings A)

/-- The limiter's calls for one scope and one name. -/
def ownCalls (scope ip : String) (requests : List (AuthRequest K)) : List (RateCall K) :=
  (requests.filter fun a =>
    a.scope = scope ∧ orUnknown (settings.clientIp a.origin.request) = ip).map fun a =>
      ⟨limiterKey scope ip, a.now⟩

theorem ownCalls_concat (scope ip : String) (requests : List (AuthRequest K))
    (a : AuthRequest K) :
    ownCalls settings scope ip (requests ++ [a]) = ownCalls settings scope ip requests ++
      if a.scope = scope ∧ orUnknown (settings.clientIp a.origin.request) = ip then
        [⟨limiterKey scope ip, a.now⟩] else [] := by
  unfold ownCalls
  rw [List.filter_append, List.map_append]
  split_ifs with h
  · simp [h]
  · simp [h]

theorem ownCalls_times (scope ip : String) (requests : List (AuthRequest K)) :
    (ownCalls settings scope ip requests).map (·.now) ⊆ requests.map (·.now) := by
  intro t ht
  unfold ownCalls at ht
  rw [List.map_map] at ht
  obtain ⟨a, ha, rfl⟩ := List.mem_map.mp ht
  exact List.mem_map_of_mem (List.mem_of_mem_filter ha)

end Calls

variable {A K : Type*} [Field K] [LinearOrder K] [FloorRing K] [IsStrictOrderedRing K]
  {fl : K → K} (rates : RateSettings) (settings : ProxySettings A)

omit [FloorRing K] in
theorem colon_not_mem {scope : String} {rule : RateRule K}
    (h : rates.limitByScope fl scope = some rule) : ':' ∉ scope.toList := by
  unfold limitByScope at h
  split_ifs at h with hlogin hregister hrefresh
  · rw [hlogin]
    decide
  · rw [hregister]
    decide
  · rw [hrefresh]
    decide

theorem limiterKey_inj {scope scope' ip ip' : String} (h : ':' ∉ scope.toList)
    (h' : ':' ∉ scope'.toList) :
    limiterKey scope ip = limiterKey scope' ip' ↔ scope = scope' ∧ ip = ip' := by
  refine ⟨fun heq => ?_, fun heq => by rw [heq.1, heq.2]⟩
  have hchars : scope.toList ++ ':' :: ip.toList = scope'.toList ++ ':' :: ip'.toList := by
    have htexts := congrArg String.toList heq
    simpa [limiterKey] using htexts
  obtain ⟨hscope, hip⟩ := Joined.first_field h h' hchars
  exact ⟨String.toList_inj.mp hscope, String.toList_inj.mp hip⟩

variable (fl) in
theorem serve_concat (requests : List (AuthRequest K)) (a : AuthRequest K) :
    rates.serve fl settings (requests ++ [a]) =
      ((rates.serveOne fl settings (rates.serve fl settings requests).1 a).2,
        (rates.serve fl settings requests).2 ++ [(a, rates.reply fl settings requests a)]) := by
  unfold serve
  rw [List.foldl_append]
  rfl

variable {rates}

/-- **What is kept of a scope and a name is what their own calls leave.** -/
theorem hits_serve {scope : String} {rule : RateRule K}
    (h : rates.limitByScope fl scope = some rule)
    (ip : String) (requests : List (AuthRequest K)) :
    (rates.serve fl settings requests).1 (limiterKey scope ip)
      = (rule.run (ownCalls settings scope ip requests)).1 (limiterKey scope ip) := by
  induction requests using List.reverseRecOn with
  | nil => rfl
  | append_singleton requests a ih =>
      rw [serve_concat, ownCalls_concat]
      show (rates.serveOne fl settings (rates.serve fl settings requests).1 a).2
        (limiterKey scope ip) = _
      unfold serveOne enforceRateLimit
      by_cases hown : a.scope = scope ∧ orUnknown (settings.clientIp a.origin.request) = ip
      · obtain ⟨rfl, rfl⟩ := hown
        rw [h, if_pos ⟨rfl, rfl⟩, RateRule.run_concat]
        exact (rule.check_congr ih).2
      · rw [if_neg hown, List.append_nil, ← ih]
        cases hrule : (rates.limitByScope fl a.scope : Option (RateRule K)) with
        | none => rfl
        | some other =>
            have hne : limiterKey scope ip
                ≠ limiterKey a.scope (orUnknown (settings.clientIp a.origin.request)) := by
              rw [Ne, limiterKey_inj (colon_not_mem rates h) (colon_not_mem rates hrule)]
              exact fun heq => hown ⟨heq.1.symm, heq.2.symm⟩
            show (other.check _ _).2 (limiterKey scope ip) = _
            rw [other.check_hits, Function.update_of_ne hne]

/-- A request is answered as the limiter answers it among its own. -/
theorem reply_own {a : AuthRequest K} {rule : RateRule K}
    (h : rates.limitByScope fl a.scope = some rule) (before : List (AuthRequest K)) :
    rates.reply fl settings before a =
      some (rule.answer (ownCalls settings a.scope
        (orUnknown (settings.clientIp a.origin.request)) before)
          ⟨limiterKey a.scope (orUnknown (settings.clientIp a.origin.request)), a.now⟩) := by
  unfold reply serveOne enforceRateLimit
  rw [h]
  exact congrArg some (rule.check_congr (hits_serve settings h _ before)).1

/-! ### Senders

What is let through of a sender is let through under the sender's name, and under this name
nobody else calls.
-/

variable (fl rates) in
/-- When requests of a scope and a sender were let through. -/
def letThrough (requests : List (AuthRequest K)) (scope who : String) : List K :=
  ((rates.serve fl settings requests).2.filter fun e =>
    decide (e.1.scope = scope ∧ e.1.who = who) && e.2.any (·.allowed)).map (·.1.now)

variable {settings}

omit [Field K] [LinearOrder K] [FloorRing K] [IsStrictOrderedRing K] in
theorem attributed {a : AuthRequest K} (h : a.origin.Genuine settings) :
    orUnknown (settings.clientIp a.origin.request) = a.who := by
  rw [settings.clientIp_sender h]
  rfl

/-- A genuine request is answered as the limiter answers it among its sender's. -/
theorem reply_sender {a : AuthRequest K} {rule : RateRule K}
    (hrule : rates.limitByScope fl a.scope = some rule) (h : a.origin.Genuine settings)
    (before : List (AuthRequest K)) :
    rates.reply fl settings before a =
      some (rule.answer (ownCalls settings a.scope a.who before)
        ⟨limiterKey a.scope a.who, a.now⟩) := by
  rw [reply_own settings hrule, attributed h]

omit [Field K] [LinearOrder K] [FloorRing K] [IsStrictOrderedRing K] in
/-- The calls under a sender's name are those of the sender's requests. -/
theorem ownCalls_sender (scope who : String) {requests : List (AuthRequest K)}
    (h : ∀ a ∈ requests, a.origin.Genuine settings) :
    ownCalls settings scope who (requests.filter fun b => b.scope = scope ∧ b.who = who)
      = ownCalls settings scope who requests := by
  unfold ownCalls
  rw [List.filter_filter]
  refine congrArg (List.map _) (List.filter_congr fun b hb => ?_)
  rw [attributed (h b hb)]
  simp

omit [FloorRing K] in
theorem window_of_rule {scope : String} {rule : RateRule K}
    (h : rates.limitByScope fl scope = some rule) : rule.windowSeconds = 60 := by
  unfold limitByScope at h
  split_ifs at h <;> exact Option.some.inj h ▸ rfl

/-- What is let through of a sender is what the limiter lets through of the calls under the
sender's name. -/
theorem letThrough_eq {scope : String} {rule : RateRule K}
    (hrule : rates.limitByScope fl scope = some rule) (who : String)
    {requests : List (AuthRequest K)} (h : ∀ a ∈ requests, a.origin.Genuine settings) :
    rates.letThrough fl settings requests scope who
      = rule.allowedBy (ownCalls settings scope who requests) (limiterKey scope who) := by
  induction requests using List.reverseRecOn with
  | nil => rfl
  | append_singleton requests a ih =>
      have ha := h a (by simp)
      have hrest := ih fun b hb => h b (List.mem_append_left _ hb)
      unfold letThrough at hrest ⊢
      rw [serve_concat, ownCalls_concat, attributed ha, List.filter_append, List.map_append, hrest]
      by_cases hown : a.scope = scope ∧ a.who = who
      · obtain ⟨rfl, rfl⟩ := hown
        rw [if_pos ⟨rfl, rfl⟩, RateRule.allowedBy_concat, reply_sender hrule ha]
        congr 1
        cases hallowed : (rule.answer (ownCalls settings a.scope a.who requests)
            ⟨limiterKey a.scope a.who, a.now⟩).allowed <;> simp [hallowed]
      · rw [if_neg hown, List.append_nil]
        simp [hown]

omit [Field K] [FloorRing K] [IsStrictOrderedRing K] in
theorem clockForward_ownCalls {requests : List (AuthRequest K)}
    (h : requests.Pairwise fun a b => a.now ≤ b.now) (scope ip : String) :
    RateRule.ClockForward (ownCalls settings scope ip requests) :=
  List.pairwise_map.mpr (h.sublist List.filter_sublist)

/-- **Each sender is limited, and by nothing but its own requests**, where the clock is computed
with exactly.  Whatever headers anybody sends, at most the limit of a scope is let through of a
sender in any minute; the answer to a request is the one it would get had the others sent none;
and who is turned away was let through that often in the minute before. -/
theorem sender_limited {requests : List (AuthRequest K)}
    (hgenuine : ∀ a ∈ requests, a.origin.Genuine settings)
    (hclock : requests.Pairwise fun a b => a.now ≤ b.now) {scope : String} {rule : RateRule K}
    (hexact : rule.ExactAt (requests.map (·.now)))
    (hrule : rates.limitByScope fl scope = some rule) (who : String) :
    (∀ start, ((rates.letThrough fl settings requests scope who).filter fun t =>
      start ≤ t ∧ t < start + 60).length ≤ rule.limit) ∧
    ∀ before a after, requests = before ++ a :: after → a.scope = scope → a.who = who →
      rates.reply fl settings before a
        = rates.reply fl settings (before.filter fun b => b.scope = scope ∧ b.who = who) a ∧
      ∀ answer, rates.reply fl settings before a = some answer → answer.allowed = false →
        rule.limit ≤ ((rates.letThrough fl settings before scope who).filter fun t =>
          a.now - 60 < t ∧ t ≤ a.now).length := by
  have hminute := window_of_rule hrule
  refine ⟨fun start => ?_, ?_⟩
  · rw [letThrough_eq hrule who hgenuine]
    refine rule.bounded_run (clockForward_ownCalls hclock scope who)
      (hexact.mono (ownCalls_times settings scope who requests)) _ _ ⟨?_⟩
    intro s t hs ht
    rw [hminute]
    linarith [hs.1, ht.2]
  · intro before a after hsplit hscope hwho
    subst hscope hwho
    have hbefore : ∀ b ∈ before, b.origin.Genuine settings := fun b hb =>
      hgenuine b (by rw [hsplit]; exact List.mem_append_left _ hb)
    have ha : a.origin.Genuine settings := hgenuine a (by rw [hsplit]; simp)
    refine ⟨?_, fun answer hreply hdenied => ?_⟩
    · rw [reply_sender hrule ha, reply_sender hrule ha, ownCalls_sender _ _ hbefore]
    · rw [reply_sender hrule ha] at hreply
      rw [← Option.some.inj hreply] at hdenied
      rw [letThrough_eq hrule a.who hbefore, ← hminute]
      have hforward : RateRule.ClockForward (ownCalls settings a.scope a.who before
          ++ [⟨limiterKey a.scope a.who, a.now⟩]) := by
        have hprefix : (before ++ [a]).Pairwise fun b c => b.now ≤ c.now := by
          rw [hsplit, List.append_cons] at hclock
          exact (List.pairwise_append.mp hclock).1
        have hwhole : RateRule.ClockForward (ownCalls settings a.scope a.who (before ++ [a])) :=
          clockForward_ownCalls hprefix _ _
        rw [ownCalls_concat, if_pos ⟨rfl, attributed ha⟩] at hwhole
        exact hwhole
      refine rule.full_of_denied hforward (hexact.mono ?_) hdenied
      rw [List.map_append, hsplit, List.map_append]
      refine List.append_subset.mpr ⟨List.Subset.trans (ownCalls_times settings _ _ before)
        (List.subset_append_left _ _), fun t ht => ?_⟩
      rw [List.map_singleton, List.mem_singleton] at ht
      rw [ht]
      simp

/-- Every text but the empty one is an address, and one peer is trusted. -/
def oneProxy : ProxySettings String where
  asIp := fun text => if text = "" then none else some text
  trustedProxyCidrs := [fun addr => addr = "10.0.0.1"]
  asIp_empty := rfl

def oneLoginAMinute : RateSettings := ⟨1, 5, 30, by decide, by decide, by decide⟩

/-- Two logins of one client, each under a forged name: through the edge, and through a proxy
that only appends. -/
def forgedLogins : List (AuthRequest ℚ) :=
  [⟨"login", .edge "10.0.0.1" "203.0.113.9" (fun _ => some "1.2.3.4"), 0⟩,
    ⟨"login", .appending "10.0.0.1" "203.0.113.9"
      (fun name => if name = "x-real-ip" then some "" else some "5.6.7.8"), 30⟩]

theorem sender_limited_forged :
    ((oneLoginAMinute.letThrough Rounding.binary64 oneProxy forgedLogins "login"
        "203.0.113.9").filter fun t => 0 ≤ t ∧ t < 0 + 60).length
      ≤ (perMinute Rounding.binary64 1 Nat.one_pos).limit := by
  have hgenuine : ∀ a ∈ forgedLogins, a.origin.Genuine oneProxy := by
    intro a ha
    simp only [forgedLogins, List.mem_cons, List.not_mem_nil, or_false] at ha
    rcases ha with rfl | rfl
    · exact ⟨by decide, by decide⟩
    · have hplain : "203.0.113.9".toList.all
          (fun c => decide (c ≠ ',' ∧ isSpace c = false)) = true := by decide
      exact ⟨by decide, by decide, fun c hc => of_decide_eq_true (List.all_eq_true.mp hplain c hc),
        fun xRealIp hsent => Option.some.inj hsent ▸ rfl⟩
  have hexact : (perMinute Rounding.binary64 1 Nat.one_pos).ExactAt
      (forgedLogins.map (·.now)) := by
    unfold RateRule.ExactAt
    decide +kernel
  have hrule : oneLoginAMinute.limitByScope Rounding.binary64 "login"
      = some (perMinute Rounding.binary64 1 Nat.one_pos) := rfl
  exact (sender_limited hgenuine (by simp [forgedLogins]) hexact hrule _).1 0

end RateSettings

end ForexAi
