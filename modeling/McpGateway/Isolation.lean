import McpGateway.Forwarding
import McpGateway.Transition

/-!
# The shared upstream client

One client sends the requests of all callers. It stores the cookies that the
upstream sets and adds the matching ones to what it sends later, whoever it
is sent for.
-/

namespace McpGateway

open Unicode Transition

structure Reply where
  status : Nat
  headers : List (Bytes × Bytes)

/-- `httpx.AsyncClient`: how it writes the headers of a request, if they can be encoded, and
what it does with cookies. -/
structure Client where
  Cookie : Type
  encode : UpstreamRequest → Option (List (Text × Text))
  setCookies : UpstreamRequest → Reply → List Cookie
  replaces : Cookie → Cookie → Bool
  applies : Cookie → Text → Bool
  cookieHeader : List Cookie → Text

namespace Client
variable (client : Client) (jar : List client.Cookie) (sent : UpstreamRequest)

def extract (answer : Reply) : List client.Cookie :=
  (client.setCookies sent answer).foldl (fun jar c => jar.filter (fun old => !client.replaces c old) ++ [c]) jar

def cookies (url : Text) : List (Text × Text) :=
  match jar.filter fun c => client.applies c url with
  | [] => []
  | cs => [(txt "Cookie", client.cookieHeader cs)]

def wire : Option UpstreamRequest :=
  (client.encode sent).map fun headers => { sent with headers := headers ++ client.cookies jar sent.url }

end Client

/-! ## The run of an application -/

structure Posted where
  request : Request
  requestId : Text
  verifier : Option (Text → Except VerifyError DecodedClaims)

structure Exchange where
  posted : Posted
  sent : UpstreamRequest
  wire : UpstreamRequest

structure Shared (client : Client) where
  jar : List client.Cookie
  log : List Exchange
  answered : List Nat

inductive ClientEvent (client : Client)
  | post (posted : Posted)
  | respond (i : Nat) (answer : Reply)
  | expire (stays : client.Cookie → Bool)

section
variable (py : Interp) (gw : Gateway) (client : Client)

def forward (posted : Posted) : Option UpstreamRequest :=
  match authorize py { gw with verifier := posted.verifier } posted.request posted.requestId with
  | .error _ => none
  | .ok a => some (upstreamRequest py gw posted.request a)

def Shared.post (s : Shared client) (posted : Posted) : Shared client :=
  match forward py gw posted with
  | none => s
  | some sent =>
    match client.wire s.jar sent with
    | none => s
    | some wire => { s with log := s.log ++ [⟨posted, sent, wire⟩] }

/-- `create_app`. -/
def application : Machine (Shared client) (ClientEvent client) where
  init := ⟨[], [], []⟩
  step s
    | .post posted => some (s.post py gw client posted)
    | .respond i answer =>
      match s.log[i]? with
      | none => none
      | some exchange =>
        if i ∈ s.answered then none
        else some { s with jar := client.extract s.jar exchange.sent answer, answered := i :: s.answered }
    | .expire stays => some { s with jar := s.jar.filter stays }

/-- Each request on the wire is the one it would be if it were the first. -/
def Isolated (s : Shared client) : Prop :=
  ∀ exchange ∈ s.log, ∃ first,
    (application py gw client).step (application py gw client).init (.post exchange.posted) = some first ∧
      first.log = [exchange]

def SetsNoCookie (s : Shared client) : ClientEvent client → Prop
  | .respond i answer => ∀ exchange, s.log[i]? = some exchange →
      ∀ c ∈ client.setCookies exchange.sent answer, client.applies c gw.settings.upstreamUrl.text = false
  | _ => True

end

/-- The client is asked for what the handler attempts. -/
theorem forward_attempts (py : Interp) (gw : Gateway) (posted : Posted)
    (upstream : UpstreamRequest → Except Exc UpstreamResponse) :
    (proxyMcp py { gw with verifier := posted.verifier } posted.request upstream posted.requestId).attempts =
      (forward py gw posted).toList := by
  rw [proxyMcp_attempts, forward]
  cases authorize py { gw with verifier := posted.verifier } posted.request posted.requestId <;> rfl

/-! ## The jar -/

section
variable {py : Interp} {gw : Gateway} {client : Client}

def NoneApplies (client : Client) (url : Text) (jar : List client.Cookie) : Prop :=
  ∀ c ∈ jar, client.applies c url = false

theorem NoneApplies.filter {url : Text} {jar : List client.Cookie} (h : NoneApplies client url jar)
    (p : client.Cookie → Bool) :
    NoneApplies client url (jar.filter p) :=
  fun c hc => h c (List.mem_filter.mp hc).1

theorem NoneApplies.extract {url : Text} {jar : List client.Cookie} (h : NoneApplies client url jar)
    {sent : UpstreamRequest} {answer : Reply} (hset : NoneApplies client url (client.setCookies sent answer)) :
    NoneApplies client url (client.extract jar sent answer) := by
  rw [Client.extract]
  generalize client.setCookies sent answer = set at hset
  induction set generalizing jar with
  | nil => exact h
  | cons c set ih =>
    obtain ⟨hc, hset⟩ := List.forall_mem_cons.mp hset
    rw [List.foldl_cons]
    refine ih ?_ hset
    intro d hd
    rcases List.mem_append.mp hd with hd | hd
    · exact h.filter _ d hd
    · rw [List.mem_singleton.mp hd]
      exact hc

theorem NoneApplies.wire {sent : UpstreamRequest} {jar : List client.Cookie} (h : NoneApplies client sent.url jar) :
    client.wire jar sent = client.wire [] sent := by
  have hcookies : client.cookies jar sent.url = client.cookies [] sent.url := by
    have hnone : jar.filter (fun c => client.applies c sent.url) = [] := by
      rw [List.filter_eq_nil_iff]
      intro c hc
      simp [h c hc]
    rw [Client.cookies, Client.cookies, hnone, List.filter_nil]
  rw [Client.wire, Client.wire, hcookies]

theorem forward_url {posted : Posted} {sent : UpstreamRequest} (h : forward py gw posted = some sent) :
    sent.url = gw.settings.upstreamUrl.text := by
  rw [forward] at h
  split at h <;> cases h
  rfl

/-! ## Runs -/

structure Unmarked (py : Interp) (gw : Gateway) (client : Client) (s : Shared client) : Prop where
  jar : NoneApplies client gw.settings.upstreamUrl.text s.jar
  isolated : Isolated py gw client s

theorem Unmarked.post {s : Shared client} (h : Unmarked py gw client s) (posted : Posted) :
    Unmarked py gw client (s.post py gw client posted) := by
  rw [Shared.post]
  split
  · exact h
  rename_i sent hforward
  split
  · exact h
  rename_i wire hwire
  refine ⟨h.jar, fun exchange he => ?_⟩
  rcases List.mem_append.mp he with he | he
  · exact h.isolated exchange he
  · have hjar : NoneApplies client sent.url s.jar := by
      rw [forward_url hforward]
      exact h.jar
    rw [hjar.wire] at hwire
    rw [List.mem_singleton.mp he]
    refine ⟨_, rfl, ?_⟩
    simp only [application, Shared.post, hforward, hwire, List.nil_append]

theorem unmarked_step {s s' : Shared client} {e : ClientEvent client} (h : Unmarked py gw client s)
    (hok : SetsNoCookie gw client s e) (hs : (application py gw client).step s e = some s') :
    Unmarked py gw client s' := by
  cases e with
  | post posted =>
    cases hs
    exact h.post posted
  | respond i answer =>
    simp only [application] at hs
    split at hs
    · cases hs
    rename_i exchange hexchange
    split at hs
    · cases hs
    cases hs
    exact ⟨h.jar.extract (hok exchange hexchange), h.isolated⟩
  | expire stays =>
    cases hs
    exact ⟨h.jar.filter stays, h.isolated⟩

theorem unmarked_reachable {s : Shared client}
    (h : Reachable (application py gw client) (SetsNoCookie gw client) s) :
    Unmarked py gw client s := by
  have hinit : Unmarked py gw client (application py gw client).init :=
    ⟨fun c hc => (by cases hc), fun e he => (by cases he)⟩
  exact h.invariant hinit fun _ _ _ _ hI hok hs => unmarked_step hI hok hs

theorem Isolated.sent {s : Shared client} (h : Isolated py gw client s) : ∀ exchange ∈ s.log,
    forward py gw exchange.posted = some exchange.sent ∧ client.wire [] exchange.sent = some exchange.wire := by
  intro exchange he
  obtain ⟨first, hfirst, hlog⟩ := h exchange he
  cases hfirst
  simp only [application, Shared.post] at hlog
  split at hlog
  · cases hlog
  rename_i hforward
  split at hlog
  · cases hlog
  rename_i hwire
  have heq := List.singleton_inj.mp hlog
  rw [← heq]
  exact ⟨hforward, hwire⟩

end

/-- While no response sets a cookie for the upstream, no request shows what was before it. -/
theorem isolated_without_cookies {py : Interp} {gw : Gateway} {client : Client} {s : Shared client}
    (h : Reachable (application py gw client) (SetsNoCookie gw client) s) : Isolated py gw client s :=
  (unmarked_reachable h).isolated

/-- What is then on the wire is the only attempt of the handler, as a fresh client writes it. -/
theorem attempt_on_wire {py : Interp} {gw : Gateway} {client : Client} {s : Shared client}
    (h : Reachable (application py gw client) (SetsNoCookie gw client) s)
    (upstream : UpstreamRequest → Except Exc UpstreamResponse) : ∀ exchange ∈ s.log,
      (proxyMcp py { gw with verifier := exchange.posted.verifier } exchange.posted.request upstream
        exchange.posted.requestId).attempts = [exchange.sent] ∧
      client.wire [] exchange.sent = some exchange.wire := by
  intro exchange he
  obtain ⟨hforward, hwire⟩ := (unmarked_reachable h).isolated.sent exchange he
  rw [forward_attempts, hforward]
  exact ⟨rfl, hwire⟩

/-! ## A session cookie -/

/-- A client that stores each cookie for the URL it came from and keeps to ASCII in headers. -/
def httpxClient : Client where
  Cookie := Text × Text
  encode sent :=
    if sent.headers.all fun h => h.2.all fun c => c.val < 0x80 then
      some ([(txt "Host", txt "upstream"), (txt "Accept-Encoding", txt "gzip, deflate"),
        (txt "Connection", txt "keep-alive"), (txt "User-Agent", txt "python-httpx/0.28.1")] ++ sent.headers ++
        [(txt "Content-Length", intRepr sent.content.length)])
    else none
  setCookies sent answer := answer.headers.filterMap fun h =>
    if (latin1 h.1).map asciiLower = txt "set-cookie" then
      some (sent.url, (latin1 h.2).takeWhile fun c => c ≠ ch ';') else none
  replaces c old := c.1 = old.1 && c.2.takeWhile (fun x => x ≠ ch '=') = old.2.takeWhile fun x => x ≠ ch '='
  applies c url := c.1 = url
  cookieHeader cs := (txt "; ").intercalate (cs.map Prod.snd)

def bobClaims : DecodedClaims where
  members := [(txt "sub", .str (txt "bob")), (txt "scp", .arr [.str (txt "mcp:read"), .str (txt "mcp:invoke")])]
  distinct := aliceClaims.distinct
  sub_str := fun _ h => ⟨txt "bob", (Option.some.inj h).symm⟩

def twoCallers (headers : List (Bytes × Bytes)) : List (ClientEvent httpxClient) :=
  [.post ⟨plainPing, txt "id1", some fun _ => .ok aliceClaims⟩, .respond 0 ⟨200, headers⟩,
    .post ⟨spoofedPing, txt "id2", some fun _ => .ok bobClaims⟩]

def plainAnswer : List (Bytes × Bytes) := [(ascii "content-type", ascii "application/json")]

def cookieAnswer : List (Bytes × Bytes) := [(ascii "set-cookie", ascii "sid=alice; Path=/")]

theorem isolated_without_cookies_two : ∃ s,
    (application .ascii aliceGateway httpxClient).run (application .ascii aliceGateway httpxClient).init
    (twoCallers plainAnswer) =
      some s ∧ s.log.length = 2 ∧ Isolated .ascii aliceGateway httpxClient s := by
  obtain ⟨s, hs, hlen⟩ : ∃ s, (application .ascii aliceGateway httpxClient).run
      (application .ascii aliceGateway httpxClient).init
      (twoCallers plainAnswer) = some s ∧ s.log.length = 2 := Machine.run_ends _ (by decide +kernel)
  refine ⟨s, hs, hlen, isolated_without_cookies (Reachable.run_of (q := fun e => ∀ i answer, e = .respond i answer →
    ∀ sent, httpxClient.setCookies sent answer = []) ?_ .init ?_ hs)⟩
  · intro _ e _ _ hq _
    cases e with
    | respond i answer =>
      intro exchange _ c hc
      rw [hq i answer rfl] at hc
      cases hc
    | post => trivial
    | expire => trivial
  · simp only [twoCallers, List.forall_mem_cons]
    refine ⟨by simp, ?_, by simp, by simp⟩
    rintro i answer ⟨⟩ sent
    rfl

/-- Alice's cookie is sent with Bob's ping. -/
theorem cookie_not_isolated : ¬ ∀ py gw client s, Reachable (application py gw client) (fun _ _ => True) s →
    Isolated py gw client s := by
  intro h
  obtain ⟨s, hs, hcookies, hwire⟩ : ∃ s, (application .ascii aliceGateway httpxClient).run
      (application .ascii aliceGateway httpxClient).init (twoCallers cookieAnswer) = some s ∧
      (s.log.map fun e => e.wire.headers.lookup (txt "Cookie")) = [none, some (txt "sid=alice")] ∧
      ∃ e ∈ s.log, httpxClient.wire [] e.sent ≠ some e.wire := Machine.run_ends _ (by decide +kernel)
  obtain ⟨e, he, hne⟩ := hwire
  exact hne ((h _ _ _ _ (.run (fun _ _ => trivial) .init hs)).sent e he).2

end McpGateway
