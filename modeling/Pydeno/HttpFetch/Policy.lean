import Pydeno.HttpFetch.Model.Fetch
import Pydeno.HttpFetch.Prefix
/-!
# The policy holds over every run of a fetch

Whatever the resolver, the network and the servers do: every connection is made
to an address of an answer that was vetted as a whole, every target of a hop was
let through by the parser and the allow-list, and a hop sends one request at
most. `Policy` states what holds of the events of a call at every moment, and
`Ready` what holds between two hops; `fetch_policy` is the result for a call.
-/

namespace Pydeno.HttpFetch

open List Prog Prog.Triple

open Wire (ascii)

/-! ## Events -/

/-- The requests among events. -/
def requests : List Event → List Sent
  | [] => []
  | .request sent :: rest => sent :: requests rest
  | _ :: rest => requests rest

@[simp] theorem requests_append (l l' : List Event) :
    requests (l ++ l') = requests l ++ requests l' := by
  induction l with
  | nil => rfl
  | cons e rest ih =>
    cases e with
    | request sent => simp only [cons_append, requests, ih]
    | lookup host port answers | connect t ip => simpa only [cons_append, requests] using ih

section

variable (net : Net) (tool : Tool)

/-- **An address that was vetted** for a target: it is in an answer that came
before, or is the host itself, and nothing in the answer is refused. -/
def Vetted (before : List Event) (t : Target) (ip : Text) : Prop :=
  ∃ answers, (if t.isIp then answers = [.text t.host]
      else .lookup t.host t.port answers ∈ before) ∧
    (∀ a ∈ answers, addressRefused net tool.allowLoopback a = false) ∧
    ∃ a ∈ answers, canonical net a = some ip

/-- An event is in order after others. -/
def InOrder (before : List Event) : Event → Prop
  | .lookup _ _ _ => True
  | .connect t ip => Vetted net tool before t ip
  | .request sent => Vetted net tool before sent.target sent.ip

/-- **A target that is allowed**: the parser gave it and an entry matches. -/
def Allowed (t : Target) : Prop :=
  (∃ url, parse net tool.schemes tool.maxUrlLength url = .ok t) ∧ ∃ e ∈ tool.entries, e.matches t = true

/-- A header that only the first origin is to see. -/
def IsPrivate (name : Text) : Prop := lower name ∉ ascii "host" :: transportNames

/-- **The policy**, over the events of a call that began at an origin. -/
structure Policy (origin : Scheme × Text × ℕ) (events : List Event) : Prop where
  vetted : ∀ before e after, events = before ++ e :: after → InOrder net tool before e
  allowed : ∀ r ∈ requests events, Allowed net tool r.target
  secure : (requests events).Pairwise fun r r' => r.target.scheme = .https → r'.target.scheme = .https
  sameOrigin : tool.redirects = .sameOrigin → ∀ r ∈ requests events, r.target.origin = origin
  headers : ∀ r ∈ requests events, ∀ h ∈ r.headers, IsPrivate h.1 → r.target.origin = origin
  first : ∀ r, (requests events).head? = some r → r.target.origin = origin

/-- **Between two hops**, with the redirects that are left and the next target. -/
structure Ready (origin : Scheme × Text × ℕ) (left : ℕ) (t : Target) (events : List Event) : Prop where
  policy : Policy net tool origin events
  count : (requests events).length + left ≤ tool.maxRedirects
  allowed : Allowed net tool t
  secure : ∀ r ∈ requests events, r.target.scheme = .https → t.scheme = .https
  sameOrigin : tool.redirects = .sameOrigin → t.origin = origin
  first : requests events = [] → t.origin = origin

/-- A call is over, or has sent the request of a hop. -/
structure Done (origin : Scheme × Text × ℕ) (left : ℕ) (events : List Event) : Prop where
  policy : Policy net tool origin events
  count : (requests events).length + left ≤ tool.maxRedirects + 1

end

section

variable {net : Net} {tool : Tool} {origin : Scheme × Text × ℕ} {events : List Event}
  {left : ℕ} {t : Target}

theorem Vetted.append {before : List Event} {ip : Text} (h : Vetted net tool before t ip)
    (after : List Event) : Vetted net tool (before ++ after) t ip := by
  obtain ⟨answers, hsource, hvetted, hip⟩ := h
  refine ⟨answers, ?_, hvetted, hip⟩
  split
  next hhost =>
    rwa [if_pos hhost] at hsource
  next hhost =>
    rw [if_neg hhost] at hsource
    exact mem_append_left _ hsource

theorem policy_nil : Policy net tool origin [] where
  vetted before e after h := by simp at h
  allowed r hr := by cases hr
  secure := List.Pairwise.nil
  sameOrigin _ r hr := by cases hr
  headers r hr := by cases hr
  first r hr := by cases hr

/-- One more event is in order. -/
theorem Policy.vetted_append (h : Policy net tool origin events) {e : Event}
    (he : InOrder net tool events e) (before : List Event) (e' : Event) (after : List Event)
    (heq : events ++ [e] = before ++ e' :: after) : InOrder net tool before e' := by
  rcases append_eq_append_iff.1 heq with ⟨l, rfl, hl⟩ | ⟨l, hl, hl'⟩
  · cases l with
    | nil =>
      obtain ⟨rfl, -⟩ : e = e' ∧ [] = after := by simpa using hl
      rwa [append_nil]
    | cons d rest => simp at hl
  · cases l with
    | nil =>
      obtain ⟨rfl, -⟩ : e' = e ∧ after = [] := by simpa using hl'
      rw [append_nil] at hl
      rwa [← hl]
    | cons d rest =>
      obtain ⟨rfl, -⟩ : e' = d ∧ after = rest ++ [e] := by simpa using hl'
      exact h.vetted before e' rest hl

/-- **An event that is no request** keeps the policy. -/
theorem Policy.other (h : Policy net tool origin events) {e : Event} (he : InOrder net tool events e)
    (hno : requests [e] = []) : Policy net tool origin (events ++ [e]) := by
  have hsame : requests (events ++ [e]) = requests events := by
    rw [requests_append, hno, append_nil]
  exact ⟨h.vetted_append he, hsame ▸ h.allowed, hsame ▸ h.secure, hsame ▸ h.sameOrigin,
    hsame ▸ h.headers, hsame ▸ h.first⟩

theorem Ready.other (h : Ready net tool origin left t events) {e : Event}
    (he : InOrder net tool events e) (hno : requests [e] = []) :
    Ready net tool origin left t (events ++ [e]) := by
  have hsame : requests (events ++ [e]) = requests events := by
    rw [requests_append, hno, append_nil]
  exact ⟨h.policy.other he hno, hsame ▸ h.count, h.allowed, hsame ▸ h.secure, h.sameOrigin,
    hsame ▸ h.first⟩

theorem Ready.done (h : Ready net tool origin left t events) : Done net tool origin left events :=
  ⟨h.policy, le_trans h.count (Nat.le_succ _)⟩

theorem Done.mono {left' : ℕ} (h : Done net tool origin left events) (hle : left' ≤ left) :
    Done net tool origin left' events := ⟨h.policy, le_trans (Nat.add_le_add_left hle _) h.count⟩

/-- **The request of a hop** keeps the policy. -/
theorem Ready.request (h : Ready net tool origin left t events) {ip : Text}
    {headers : List Header} (hip : Vetted net tool events t ip)
    (hheaders : ∀ x ∈ headers, IsPrivate x.1 → t.origin = origin) :
    Done net tool origin left (events ++ [.request ⟨t, ip, headers⟩]) := by
  have hrequests : requests (events ++ [.request ⟨t, ip, headers⟩]) =
      requests events ++ [⟨t, ip, headers⟩] := by rw [requests_append]; rfl
  have hall : ∀ {P : Sent → Prop}, (∀ r ∈ requests events, P r) → P ⟨t, ip, headers⟩ →
      ∀ r ∈ requests (events ++ [.request ⟨t, ip, headers⟩]), P r := by
    intro P hold hnew r hr
    rw [hrequests, mem_append, mem_singleton] at hr
    rcases hr with hr | rfl
    · exact hold r hr
    · exact hnew
  refine ⟨⟨h.policy.vetted_append hip, hall h.policy.allowed h.allowed, ?_,
    fun hsame => hall (h.policy.sameOrigin hsame) (h.sameOrigin hsame),
    hall h.policy.headers hheaders, ?_⟩, ?_⟩
  · rw [hrequests, pairwise_append]
    refine ⟨h.policy.secure, pairwise_singleton _ _, fun r hr r' hr' => ?_⟩
    obtain rfl := mem_singleton.1 hr'
    exact h.secure r hr
  · intro r hr
    rw [hrequests] at hr
    cases hold : requests events with
    | nil =>
      rw [hold] at hr
      cases hr
      exact h.first hold
    | cons r' rest =>
      rw [hold] at hr
      cases hr
      exact h.policy.first r (by rw [hold]; rfl)
  · have hcount := h.count
    rw [hrequests, length_append, length_singleton]
    omega

end

/-! ## Lookups and connections -/

section

variable {net : Net} {tool : Tool} {world : World} {origin : Scheme × Text × ℕ} {left : ℕ}
  {t : Target}

/-- **A program that causes no events.** -/
def Silent {α : Type} (m : Act α) : Prop := ∀ s, (m s).2.events = s.events

variable {α : Type} {events : List Event} {headers : List Header}

theorem silent_bind {β : Type} {m : Act α} {f : α → Act β} (hm : Silent m) (hf : ∀ v, Silent (f v)) :
    Silent (m >>= f) := by
  intro s
  have hfirst := hm s
  change (andThen m f s).2.events = s.events
  unfold andThen
  generalize m s = outcome at hfirst
  obtain ⟨result, s'⟩ := outcome
  cases result with
  | ok v => exact (hf v s').trans hfirst
  | error e => exact hfirst

theorem silent_ask (question : ℕ → α) : Silent (ask question) := fun _ => rfl

theorem silent_pure (v : α) : Silent (pure v : Act α) := fun _ => rfl

theorem silent_fail (e : HttpFetchError) : Silent (fail e : Act α) := fun _ => rfl

theorem silent_remaining : Silent (remaining world) := by
  refine silent_bind (silent_ask _) fun passed => ?_
  split
  · exact silent_fail _
  · exact silent_pure _

theorem silent_transportError (exc : TransportExc) : Silent (transportError world exc : Act α) :=
  silent_bind (silent_ask _) fun _ => silent_fail _

theorem silent_readBody (rounds : ℕ) (body : Text) : Silent (readBody tool world rounds body) := by
  induction rounds generalizing body with
  | zero => exact silent_pure _
  | succ rounds ih =>
    unfold readBody
    refine silent_bind silent_remaining fun _ => silent_bind (silent_ask _) fun chunk => ?_
    cases chunk with
    | raised exc => exact silent_transportError exc
    | incomplete rest =>
      refine silent_bind (silent_ask _) fun passed => ?_
      split
      · exact silent_fail _
      · exact silent_pure _
    | data bytes promised =>
      simp only
      split
      · refine silent_bind (silent_ask _) fun passed => ?_
        split
        · exact silent_fail _
        · exact silent_pure _
      · split
        · exact silent_pure _
        · exact ih _

/-- What holds of the events before a silent program holds after it. -/
theorem Silent.triple {m : Act α} (hm : Silent m) {I F : List Event → Prop}
    (hF : ∀ events, I events → F events) :
    Triple (fun s => I s.events) m (fun s => F s.events) fun _ s => I s.events := by
  intro s hs
  have hsame := hm s
  generalize m s = outcome at hsame
  obtain ⟨result, s'⟩ := outcome
  cases result with
  | ok v =>
    change I s'.events
    rwa [hsame]
  | error e =>
    change F s'.events
    rw [hsame]
    exact hF _ hs

/-- It only ever fails. -/
theorem triple_transportError (exc : TransportExc) {P : Call → Prop}
    {F : List Event → Prop} {Q : α → Call → Prop} (hF : ∀ s, P s → F s.events) :
    Triple P (transportError world exc : Act α) (fun s => F s.events) Q :=
  fun s hs => hF s hs

/-- What a failure leaves, from before the request. -/
theorem Ready.over (h : Ready net tool origin left t events) :
    Done net tool origin 0 events := h.done.mono (Nat.zero_le _)

/-- Where the answers about a host are from. -/
def Source (t : Target) (answers : List Answer) (events : List Event) : Prop :=
  if t.isIp then answers = [.text t.host] else .lookup t.host t.port answers ∈ events

theorem triple_resolve : Triple (fun s => Ready net tool origin left t s.events) (resolve world t)
      (fun s => Done net tool origin 0 s.events)
      fun answers s => Ready net tool origin left t s.events ∧ Source t answers s.events := by
  unfold resolve Source
  split
  · exact triple_pure fun s hs => ⟨hs, rfl⟩
  · refine ((silent_ask _).triple (I := Ready net tool origin left t)
      (F := Done net tool origin 0) fun _ h => h.over).bind fun lookup => ?_
    cases lookup with
    | answers l =>
      refine bind (Q := fun _ s => Ready net tool origin left t s.events ∧
        .lookup t.host t.port l ∈ s.events) (triple_change fun s hs => ?_) fun _ =>
        triple_pure fun _ h => h
      exact ⟨hs.other trivial rfl, mem_append_right _ mem_cons_self⟩
    | busy | late | raised e | broken => exact triple_fail fun _ h => h.over

/-- Addresses that are kept once are among those that there were. -/
theorem mem_of_mem_foldl {l seen : List Text} {ip : Text}
    (h : ip ∈ l.foldl (fun seen text => if text ∈ seen then seen else seen ++ [text]) seen) :
    ip ∈ seen ∨ ip ∈ l := by
  induction l generalizing seen with
  | nil => exact .inl h
  | cons text rest ih =>
    rw [foldl_cons] at h
    rcases ih h with hseen | hrest
    · split at hseen
      · exact .inl hseen
      · rcases mem_append.1 hseen with hseen | htext
        · exact .inl hseen
        · obtain rfl := mem_singleton.1 htext
          exact .inr mem_cons_self
    · exact .inr (mem_cons_of_mem _ hrest)

/-- **The addresses that `vet` gives are vetted.** -/
theorem triple_vet : Triple (fun s => Ready net tool origin left t s.events) (vet net tool world t)
      (fun s => Done net tool origin 0 s.events)
      fun addresses s => Ready net tool origin left t s.events ∧
        ∀ ip ∈ addresses, Vetted net tool s.events t ip := by
  refine triple_resolve.bind fun answers => ?_
  split
  · exact triple_fail fun _ h => h.1.over
  · split
    · exact triple_fail fun _ h => h.1.over
    next hfine =>
      refine triple_pure fun s hs => ⟨hs.1, fun ip hip => ?_⟩
      rcases mem_of_mem_foldl hip with hnil | hin
      · cases hnil
      · obtain ⟨a, ha, hcanonical⟩ := mem_filterMap.1 hin
        refine ⟨answers, hs.2, fun a ha => ?_, a, ha, hcanonical⟩
        rw [Bool.not_eq_true, any_eq_false] at hfine
        simpa using hfine a ha

/-- **A connection is made to one of the addresses**, and every attempt is. -/
theorem triple_connectFirst (addresses : List Text) (last : TransportExc) : Triple
      (fun s => Ready net tool origin left t s.events ∧
        ∀ ip ∈ addresses, Vetted net tool s.events t ip)
      (connectFirst world t addresses last) (fun s => Done net tool origin 0 s.events)
      fun ip s => Ready net tool origin left t s.events ∧ Vetted net tool s.events t ip := by
  induction addresses generalizing last with
  | nil => exact triple_transportError last fun _ h => h.1.over
  | cons ip rest ih =>
    unfold connectFirst
    -- the deadline, the attempt that is noted, and what came of it
    refine (silent_remaining.triple (I := fun events => Ready net tool origin left t events ∧
      ∀ x ∈ ip :: rest, Vetted net tool events t x) (F := Done net tool origin 0)
      fun _ h => h.1.over).bind fun _ => ?_
    refine bind (Q := fun _ s => Ready net tool origin left t s.events ∧
      ∀ x ∈ ip :: rest, Vetted net tool s.events t x) (triple_change fun s hs => ?_) fun _ => ?_
    · exact ⟨hs.1.other (hs.2 ip mem_cons_self) rfl, fun x hx => (hs.2 x hx).append _⟩
    · refine ((silent_ask _).triple (I := fun events => Ready net tool origin left t events ∧
        ∀ x ∈ ip :: rest, Vetted net tool events t x) (F := Done net tool origin 0)
        fun _ h => h.1.over).bind fun refused => ?_
      cases refused with
      | none => exact triple_pure fun s hs => ⟨hs.1, hs.2 ip mem_cons_self⟩
      | some exc =>
        exact (ih exc).conseq (fun s hs => ⟨hs.1, fun x hx => hs.2 x (mem_cons_of_mem _ hx)⟩)
          (fun _ h => h) fun _ _ h => h

/-! ## Hops -/

/-- What holds once the request of a hop is sent. -/
structure After (net : Net) (tool : Tool) (origin : Scheme × Text × ℕ) (left : ℕ) (t : Target)
    (events : List Event) : Prop where
  done : Done net tool origin left events
  secure : ∀ r ∈ requests events, r.target.scheme = .https → t.scheme = .https
  sent : requests events ≠ []

theorem After.over (h : After net tool origin left t events) :
    Done net tool origin 0 events := h.done.mono (Nat.zero_le _)

/-- The request is noted. -/
theorem Ready.after (h : Ready net tool origin left t events) {ip : Text}
    (hip : Vetted net tool events t ip)
    (hheaders : ∀ x ∈ headers, IsPrivate x.1 → t.origin = origin) :
    After net tool origin left t (events ++ [.request ⟨t, ip, headers⟩]) := by
  have hrequests : requests (events ++ [.request ⟨t, ip, headers⟩]) =
      requests events ++ [⟨t, ip, headers⟩] := by rw [requests_append]; rfl
  refine ⟨h.request hip hheaders, fun r hr => ?_, by simp [hrequests]⟩
  rw [hrequests, mem_append, mem_singleton] at hr
  rcases hr with hr | rfl
  · exact h.secure r hr
  · exact fun h => h

theorem triple_exchange {ip : Text} {follow : Bool}
    (hheaders : ∀ x ∈ headers, IsPrivate x.1 → t.origin = origin) : Triple
      (fun s => Ready net tool origin left t s.events ∧ Vetted net tool s.events t ip)
      (exchange tool world t ip headers follow) (fun s => Done net tool origin 0 s.events)
      fun _ s => After net tool origin left t s.events := by
  unfold exchange
  refine bind (Q := fun _ s => After net tool origin left t s.events)
    (triple_change fun s hs => hs.1.after hs.2 ?_) fun _ => ?_
  · rw [forall_mem_cons]
    exact ⟨fun hprivate => absurd (mem_cons_self) hprivate, hheaders⟩
  · refine Silent.triple (I := After net tool origin left t) (F := Done net tool origin 0) ?_
      fun _ h => h.over
    refine silent_bind (silent_ask _) fun answer => ?_
    cases answer with
    | error exc => exact silent_transportError exc
    | ok head =>
      simp only
      generalize (if follow = true then head.location else none) = location
      split
      · exact silent_pure _
      · exact silent_bind (silent_readBody _ _) fun _ => silent_pure _

theorem triple_request {follow : Bool} (hheaders : ∀ x ∈ headers, IsPrivate x.1 → t.origin = origin) :
    Triple (fun s => Ready net tool origin left t s.events)
      (request net tool world t headers follow) (fun s => Done net tool origin 0 s.events)
      fun _ s => After net tool origin left t s.events :=
  triple_vet.bind fun addresses => (triple_connectFirst addresses _).bind fun _ =>
    triple_exchange hheaders

/-- What `target` lets through. -/
theorem allowed_of_target {url : Text} (h : target net tool url = .ok t) : Allowed net tool t := by
  unfold target at h
  rw [bind_eq_ok] at h
  obtain ⟨t', hparse, h⟩ := h
  rw [refuse_bind] at h
  obtain ⟨hentry, h⟩ := h
  cases h
  rw [Bool.not_eq_false', any_eq_true] at hentry
  exact ⟨⟨url, hparse⟩, hentry⟩

/-- **What `redirect` lets through.** -/
theorem of_redirect {location : Text} {new : Target}
    (h : redirect net tool t origin location = .ok new) :
    Allowed net tool new ∧ (t.scheme = .https → new.scheme = .https) ∧
      (tool.redirects = .sameOrigin → new.origin = origin) := by
  have hrest : ∀ url, (do
      let new ← target net tool url
      refuse (t.scheme = .https && new.scheme ≠ .https)
        "a redirect from https to http is not allowed"
      refuse (tool.redirects = .sameOrigin && new.origin ≠ origin)
        "a redirect to a different host is not allowed"
      return new : Except HttpFetchError Target) = .ok new →
        Allowed net tool new ∧ (t.scheme = .https → new.scheme = .https) ∧
          (tool.redirects = .sameOrigin → new.origin = origin) := by
    intro url h
    rw [bind_eq_ok] at h
    obtain ⟨new', htarget, h⟩ := h
    rw [refuse_bind, refuse_bind] at h
    obtain ⟨hsecure, hsame, h⟩ := h
    cases h
    refine ⟨allowed_of_target htarget, fun hs => ?_, fun hr => ?_⟩
    · simpa [hs] using hsecure
    · simpa [hr] using hsame
  unfold redirect at h
  simp only at h
  split at h
  · rw [bind_eq_ok] at h
    obtain ⟨_, -, h⟩ := h
    exact hrest _ h
  · exact hrest _ h

/-- The headers that go to a target. -/
theorem private_fixed {x : Header}
    (hx : x ∈ if t.origin = origin then tool.headers else tool.transportHeaders)
    (hprivate : IsPrivate x.1) : t.origin = origin := by
  split at hx
  · assumption
  · have hname := (mem_filter.1 hx).2
    exact absurd (mem_cons_of_mem _ (by simpa using hname)) hprivate

/-- **Hop after hop.** -/
theorem triple_hop (world : World) (left : ℕ) (t : Target) :
    Triple (fun s => Ready net tool origin left t s.events) (hop net tool world origin left t)
      (fun s => Done net tool origin 0 s.events) fun _ s => Done net tool origin 0 s.events := by
  induction left generalizing t with
  | zero =>
    unfold hop
    refine (triple_request fun x => private_fixed).bind fun answer => ?_
    obtain ⟨resp, location⟩ := answer
    cases location with
    | none => exact triple_pure fun _ h => h.over
    | some location => exact triple_fail fun _ h => h.over
  | succ left ih =>
    unfold hop
    refine (triple_request fun x => private_fixed).bind fun answer => ?_
    obtain ⟨resp, location⟩ := answer
    cases location with
    | none => exact triple_pure fun _ h => h.over
    | some location =>
      refine bind (Q := fun new s => Ready net tool origin left new s.events)
        (triple_ofExcept (fun _ h => h.over) fun new s hnew h => ?_) fun new => ih new
      obtain ⟨hallowed, hsecure, hsame⟩ := of_redirect hnew
      have hcount := h.done.count
      exact ⟨h.done.policy, by omega, hallowed, fun r hr hr' => hsecure (h.secure r hr hr'), hsame,
        fun hnone => absurd hnone h.sent⟩

end

/-! ## The constructor -/

section

variable {net : Net} {o : Options} {tool : Tool}

theorem reject_bind {α : Type} {condition : Bool} {e : ConfigError}
    {f : Unit → Except ConfigError α} {v : α} :
    (reject condition e >>= f) = .ok v ↔ condition = false ∧ f () = .ok v := by
  unfold reject
  cases condition with
  | true => exact ⟨nofun, fun h => (nomatch h.1)⟩
  | false => exact ⟨fun h => ⟨rfl, h⟩, fun h => h.2⟩

/-- Every entry is from the allow-list. -/
theorem exists_of_mem_mapM {specs : List Text} {entries : List Entry}
    (h : (specs.mapM fun spec => (entry net spec).mapError ConfigError.entry) = .ok entries)
    {e : Entry} (he : e ∈ entries) : ∃ spec ∈ specs, entry net spec = .ok e := by
  induction specs generalizing entries with
  | nil =>
    cases h
    cases he
  | cons spec specs ih =>
    rw [mapM_cons, bind_eq_ok] at h
    obtain ⟨first, hfirst, h⟩ := h
    rw [bind_eq_ok] at h
    obtain ⟨rest, hrest, h⟩ := h
    cases h
    rcases mem_cons.1 he with rfl | he
    · refine ⟨spec, mem_cons_self, ?_⟩
      cases hspec : entry net spec with
      | error x => rw [hspec] at hfirst; cases hfirst
      | ok x => rw [hspec] at hfirst; cases hfirst; rfl
    · obtain ⟨spec', hin, hok⟩ := ih hrest he
      exact ⟨spec', mem_cons_of_mem _ hin, hok⟩

/-- No header that the host configures is reserved. -/
theorem not_reserved_of_foldlM {headers fixed hs : List Header}
    (h : headers.foldlM addHeader fixed = .ok hs) {x : Header} (hx : x ∈ headers) :
    lower x.1 ∉ reservedRequestHeaders := by
  induction headers generalizing fixed with
  | nil => cases hx
  | cons y headers ih =>
    rw [foldlM_cons, bind_eq_ok] at h
    obtain ⟨fixed', hy, h⟩ := h
    rcases mem_cons.1 hx with rfl | hx
    · unfold addHeader at hy
      split at hy
      · cases hy
      · split at hy
        · cases hy
        next hreserved =>
          simpa using hreserved
    · exact ih h hx

/-- **What the constructor keeps of its arguments.** -/
theorem of_new (h : Tool.new net o = .ok tool) :
    (∀ e ∈ tool.entries, ∃ spec ∈ o.allow, entry net spec = .ok e) ∧
      (∀ x ∈ o.headers, lower x.1 ∉ reservedRequestHeaders) ∧
      (tool.maxRedirects : ℤ) = o.maxRedirects ∧ tool.redirects = o.redirects ∧
      tool.allowLoopback = false := by
  unfold Tool.new at h
  rw [bind_eq_ok] at h
  obtain ⟨entries, hentries, h⟩ := h
  rw [reject_bind] at h
  obtain ⟨-, h⟩ := h
  simp only at h
  rw [reject_bind] at h
  obtain ⟨-, h⟩ := h
  split at h
  · cases h
  · rw [bind_eq_ok] at h
    obtain ⟨headers, hheaders, h⟩ := h
    rw [reject_bind, reject_bind, reject_bind, reject_bind] at h
    obtain ⟨-, -, -, hredirects, h⟩ := h
    cases h
    rw [decide_eq_false_iff_not, not_lt] at hredirects
    exact ⟨fun e he => exists_of_mem_mapM hentries he,
      fun x hx => not_reserved_of_foldlM hheaders hx, Int.toNat_of_nonneg hredirects, rfl, rfl⟩

end

/-! ## Calls -/

/-- **What holds of the events of a call**, for the arguments of the constructor:
the number of requests; where they go; the addresses that are connected to; no
step back from `https`; the origin of requests; and the headers of the host. -/
structure Safe (net : Net) (o : Options) (tool : Tool) (events : List Event) : Prop where
  count : ((requests events).length : ℤ) ≤ o.maxRedirects + 1
  allowed : ∀ r ∈ requests events,
    (∃ url, parse net tool.schemes tool.maxUrlLength url = .ok r.target) ∧
      ∃ spec ∈ o.allow, ∃ e, entry net spec = .ok e ∧ e.matches r.target = true
  vetted : tool.allowLoopback = false ∧
    ∀ before e after, events = before ++ e :: after → InOrder net tool before e
  secure : (requests events).Pairwise fun r r' => r.target.scheme = .https → r'.target.scheme = .https
  sameOrigin : o.redirects = .sameOrigin → ∀ first rest, requests events = first :: rest →
    ∀ r ∈ rest, r.target.origin = first.target.origin
  headers : ∀ first rest, requests events = first :: rest →
    ∀ x ∈ o.headers, lower x.1 ≠ ascii "user-agent" →
      ∀ r ∈ rest, x ∈ r.headers → r.target.origin = first.target.origin

/-- **The fetch policy.** Whatever the world does, a call with any URL is safe. -/
theorem fetch_policy (net : Net) {o : Options} {tool : Tool} (hnew : Tool.new net o = .ok tool)
    (world : World) (url : List ℕ) (clock : ℕ) :
    Safe net o tool (call net tool world url ⟨clock, []⟩).2.events := by
  obtain ⟨hentries, hheaders, hmax, hredirects, hloopback⟩ := of_new hnew
  obtain ⟨origin, hdone⟩ : ∃ origin,
      Done net tool origin 0 (call net tool world url ⟨clock, []⟩).2.events := by
    cases htarget : target net tool url with
    | error e =>
      have hrun : call net tool world url ⟨clock, []⟩ = (.error e, ⟨clock, []⟩) := by
        unfold call
        rw [htarget]
        rfl
      rw [hrun]
      exact ⟨(.https, [], 0), policy_nil, Nat.zero_le _⟩
    | ok t =>
      have hrun : call net tool world url ⟨clock, []⟩ =
          hop net tool world t.origin tool.maxRedirects t ⟨clock, []⟩ := by
        unfold call
        rw [htarget]
        rfl
      have hready : Ready net tool t.origin tool.maxRedirects t [] :=
        ⟨policy_nil, le_of_eq (Nat.zero_add _), allowed_of_target htarget, fun r hr => (nomatch hr),
          fun _ => rfl, fun _ => rfl⟩
      have htriple := triple_hop world tool.maxRedirects t ⟨clock, []⟩ hready
      refine ⟨t.origin, ?_⟩
      rw [hrun]
      generalize hop net tool world t.origin tool.maxRedirects t ⟨clock, []⟩ = outcome at htriple
      obtain ⟨result, s⟩ := outcome
      cases result with
      | ok v | error e => exact htriple
  generalize (call net tool world url ⟨clock, []⟩).2.events = events at hdone
  have hfirst : ∀ {first rest}, requests events = first :: rest → first.target.origin = origin :=
    fun h => hdone.policy.first _ (by rw [h]; rfl)
  refine ⟨?_, fun r hr => ?_, ⟨hloopback, hdone.policy.vetted⟩, hdone.policy.secure, ?_, ?_⟩
  · have hcount := hdone.count
    omega
  · obtain ⟨hparse, e, he, hmatch⟩ := hdone.policy.allowed r hr
    obtain ⟨spec, hspec, hok⟩ := hentries e he
    exact ⟨hparse, spec, hspec, e, hok, hmatch⟩
  · intro hsame first rest h r hr
    rw [hfirst h]
    exact hdone.policy.sameOrigin (hredirects.trans hsame) r (h ▸ mem_cons_of_mem _ hr)
  · intro first rest h x hx hagent r hr hsent
    rw [hfirst h]
    refine hdone.policy.headers r (h ▸ mem_cons_of_mem _ hr) x hsent fun hpublic => ?_
    have hreserved := hheaders x hx
    simp only [transportNames, mem_cons, not_mem_nil, or_false, hagent, false_or] at hpublic
    rcases hpublic with h | h | h <;> rw [h] at hreserved <;> exact hreserved (by decide)

/-- Two hosts are allowed, a header is for the first of them, and redirects are
followed. -/
def twoHosts : Options where
  allow := [ascii "a.test", ascii "b.test/v1"]
  schemes := [ascii "https"]
  headers := [(ascii "Authorization", ascii "Bearer k")]
  timeout := 10
  maxResponseBytes := 1024
  maxUrlLength := 2048
  maxRedirects := 5
  redirects := .allowList
  responseHeaders := []
  userAgent := ascii "pydeno-http-fetch"

def twoHostsTool : Tool where
  entries := [⟨none, ascii "a.test", none, ascii "/"⟩, ⟨none, ascii "b.test", none, ascii "/v1"⟩]
  schemes := [.https]
  headers := [(ascii "User-Agent", ascii "pydeno-http-fetch"),
    (ascii "Accept-Encoding", ascii "identity"), (ascii "Connection", ascii "close"),
    (ascii "Authorization", ascii "Bearer k")]
  maxResponseBytes := 1024
  maxUrlLength := 2048
  maxRedirects := 5
  redirects := .allowList
  responseHeaders := []
  allowLoopback := false

/-- A platform on which every name is the text of one address. -/
def oneAddress : Net := { bareNet with
  ipv4Address := fun _ => some (.v4 (octets 1 1 1 1))
  str := fun _ => ascii "1.1.1.1" }

/-- The first host sends the call to the second. -/
def redirecting : World where
  passed _ := false
  lookup _ _ _ := .answers [.text (ascii "1.1.1.1")]
  connect _ _ _ := none
  respond moment :=
    .ok ⟨if moment < 5 then 302 else 200, some (ascii "https://b.test/v1/x"), [], none⟩
  read _ _ := .data [] false

/-- A call that goes from one host to the other. -/
theorem fetch_policy_twoHosts :
    (requests (call oneAddress twoHostsTool redirecting (ascii "https://a.test/")
      ⟨0, []⟩).2.events).length = 2 ∧
    Safe oneAddress twoHosts twoHostsTool
      (call oneAddress twoHostsTool redirecting (ascii "https://a.test/") ⟨0, []⟩).2.events :=
  ⟨by decide +kernel, fetch_policy oneAddress (by decide +kernel) redirecting _ 0⟩

end Pydeno.HttpFetch
