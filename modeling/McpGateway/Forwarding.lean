import McpGateway.Mediation

/-!
# The forwarded request

It is a function of the allow-listed headers, the verified identity, the
parsed value and the gateway's own request id. Its header values are those of
the allow-listed headers and others that can always be sent.
-/

namespace McpGateway

open Unicode Json

def identity (v : Option VerifiedToken) : Option (Text × Finset Text) := v.map fun tok => (tok.subject, tok.scopes)

section
variable {py : Interp} {gw : Gateway} {request : Request}

theorem mem_attempts {upstream : UpstreamRequest → Except Exc UpstreamResponse} {requestId : Text}
    {sent : UpstreamRequest} (h : sent ∈ (proxyMcp py gw request upstream requestId).attempts) :
    ∃ a, authorize py gw request requestId = .ok a ∧ sent = upstreamRequest py gw request a := by
  rw [proxyMcp_attempts] at h
  cases ha : authorize py gw request requestId with
  | error stop =>
    rw [ha] at h
    cases h
  | ok a =>
    rw [ha] at h
    exact ⟨a, rfl, List.mem_singleton.mp h⟩

theorem authenticates_unique {v v' : Option VerifiedToken} (h : Authenticates py gw request v)
    (h' : Authenticates py gw request v') : v = v' := by
  rcases h with ⟨hauth, rfl⟩ | ⟨hauth, _, decode, tok, hdecode, htok, rfl⟩
  · rcases h' with ⟨_, rfl⟩ | ⟨hauth', _⟩
    · rfl
    · rw [hauth] at hauth'
      cases hauth'
  · rcases h' with ⟨hauth', _⟩ | ⟨_, _, decode', tok', hdecode', htok', rfl⟩
    · rw [hauth] at hauth'
      cases hauth'
    · rw [hdecode] at hdecode'
      cases hdecode'
      rw [htok] at htok'
      cases htok'
      rfl

theorem fwdHeaders_congr {request' : Request} {v v' : Option VerifiedToken}
    (hheaders : allowListed py request = allowListed py request')
    (hid : identity v = identity v') (requestId : Text) :
    fwdHeaders py request v requestId = fwdHeaders py request' v' requestId := by
  unfold fwdHeaders
  rw [hheaders]
  cases v with
  | none =>
    cases v' with
    | none => rfl
    | some tok' => cases hid
  | some tok =>
    cases v' with
    | none => cases hid
    | some tok' =>
      simp only [identity, Option.map_some, Option.some.injEq, Prod.mk.injEq] at hid
      simp only [identityHeaders, hid.1, hid.2]

theorem canonicalBody_of {raw : Bytes} {p : JsonRpcParse} {data : Value} (h : parseJsonrpc py raw = .ok p)
    (he : p.error = none) (hl : loads py.decoder py.loadsDepth raw = .ok data) :
    ∃ b, p.canonicalBody = some b ∧ canonicalize py data = .ok b :=
  (resolveRequest_ok (parseJsonrpc_data h hl) he).canonical

/-! ## Where the headers come from -/

theorem mem_fwdHeaders {v : Option VerifiedToken} {requestId : Text} {h : Text × Text}
    (hmem : h ∈ fwdHeaders py request v requestId) :
    h ∈ dictOf (allowListed py request) ∨ h = (txt "X-Request-Id", requestId) ∨ ∃ tok, v = some tok ∧
    h ∈ identityHeaders tok := by
  have hclient : h ∈ setMember (txt "X-Request-Id") requestId (dictOf (allowListed py request)) →
      h ∈ dictOf (allowListed py request) ∨ h = (txt "X-Request-Id", requestId) := fun hm => (mem_setMember hm).symm
  cases v with
  | none => exact (hclient hmem).imp_right Or.inl
  | some tok =>
    rw [fwdHeaders, identityHeaders, List.foldl_cons, List.foldl_cons, List.foldl_nil] at hmem
    rcases mem_setMember hmem with rfl | hmem
    · exact Or.inr (Or.inr ⟨tok, rfl, List.mem_cons_of_mem _ List.mem_cons_self⟩)
    rcases mem_setMember hmem with rfl | hmem
    · exact Or.inr (Or.inr ⟨tok, rfl, List.mem_cons_self⟩)
    · exact (hclient hmem).imp_right Or.inl

theorem identity_fwdHeaders {tok : VerifiedToken} {requestId : Text} {h : Text × Text}
    (hmem : h ∈ identityHeaders tok) :
    h ∈ fwdHeaders py request (some tok) requestId := by
  have hne : txt "X-Forwarded-Sub" ≠ txt "X-Forwarded-Scopes" := by decide
  rw [fwdHeaders, identityHeaders, List.foldl_cons, List.foldl_cons, List.foldl_nil]
  rcases List.mem_cons.mp hmem with rfl | hmem
  · exact setMember_keep (setMember_self _ _ _) hne
  · rw [List.mem_singleton.mp hmem]
    exact setMember_self _ _ _

/-- A name the gateway sets itself is not on the list of those it takes from the client. -/
theorem lower_not_listed {name : Text} (hascii : ∀ c ∈ name, c.val < 0x80)
    (hlisted : name.map asciiLower ∉ forwardedRequestHeaders) : py.lower name ∉ forwardedRequestHeaders := by
  rw [py.lower_ascii _ hascii]
  exact hlisted

theorem mem_allowListed {h : Text × Text} (hmem : h ∈ dictOf (allowListed py request)) :
    py.lower h.1 ∈ forwardedRequestHeaders := by
  simpa using (List.mem_filter.mp (mem_dictOf hmem)).2

theorem client_fwdHeaders {v : Option VerifiedToken} {requestId : Text} {h : Text × Text}
    (hmem : h ∈ dictOf (allowListed py request)) : h ∈ fwdHeaders py request v requestId := by
  have hname := mem_allowListed hmem
  have hother : ∀ name, py.lower name ∉ forwardedRequestHeaders → h.1 ≠ name := fun name hn he => hn (he ▸ hname)
  have hid : h.1 ≠ txt "X-Request-Id" := hother _ (lower_not_listed (by decide) (by decide))
  have hsub : h.1 ≠ txt "X-Forwarded-Sub" := hother _ (lower_not_listed (by decide) (by decide))
  have hscopes : h.1 ≠ txt "X-Forwarded-Scopes" := hother _ (lower_not_listed (by decide) (by decide))
  have hclient : h ∈ setMember (txt "X-Request-Id") requestId (dictOf (allowListed py request)) :=
    setMember_keep hmem hid
  cases v with
  | none => exact hclient
  | some tok => exact setMember_keep (setMember_keep hclient hsub) hscopes

/-! ## Independence -/

/-- The identity headers are there exactly for a verified token, with its values. -/
def CarriesIdentity (py : Interp) (v : Option VerifiedToken) (headers : List (Text × Text)) : Prop :=
  (∀ tok, v = some tok → ∀ h ∈ identityHeaders tok, h ∈ headers) ∧
    ∀ h ∈ headers, py.lower h.1 = txt "x-forwarded-sub" ∨ py.lower h.1 = txt "x-forwarded-scopes" →
      ∃ tok, v = some tok ∧ h ∈ identityHeaders tok

theorem fwdHeaders_identity {v : Option VerifiedToken} {requestId : Text} :
    CarriesIdentity py v (fwdHeaders py request v requestId) := by
  constructor
  · rintro tok rfl h hmem
    exact identity_fwdHeaders hmem
  · intro h hmem hname
    rcases mem_fwdHeaders hmem with hclient | rfl | hid
    · have hlisted := mem_allowListed hclient
      rcases hname with hname | hname
      · rw [hname] at hlisted
        exact absurd hlisted (by decide)
      · rw [hname] at hlisted
        exact absurd hlisted (by decide)
    · have hlower : py.lower (txt "X-Request-Id") = txt "x-request-id" := py.lower_ascii _ (by decide)
      rw [hlower] at hname
      exact absurd hname (by decide)
    · exact hid

end

/-- Two forwarded requests that agree on what may cross are one and the same upstream. -/
theorem forwarding_independent {py : Interp} {gw gw' : Gateway} {request request' : Request}
    {upstream upstream' : UpstreamRequest → Except Exc UpstreamResponse} {requestId : Text}
    {sent sent' : UpstreamRequest}
    {v v' : Option VerifiedToken} {data : Value} (hsettings : gw.settings = gw'.settings)
    (h : sent ∈ (proxyMcp py gw request upstream requestId).attempts)
    (h' : sent' ∈ (proxyMcp py gw' request' upstream' requestId).attempts)
    (hheaders : allowListed py request = allowListed py request') (hv : Authenticates py gw request v)
    (hv' : Authenticates py gw' request' v') (hid : identity v = identity v')
    (hdata : loads py.decoder py.loadsDepth request.chunks.flatten = .ok data)
    (hdata' : loads py.decoder py.loadsDepth request'.chunks.flatten = .ok data) :
    sent = sent' ∧ CarriesIdentity py v sent.headers := by
  obtain ⟨a, ha, rfl⟩ := mem_attempts h
  obtain ⟨a', ha', rfl⟩ := mem_attempts h'
  obtain ⟨_, hc, _, hrid⟩ := authorize_ok ha
  obtain ⟨_, hc', _, hrid'⟩ := authorize_ok ha'
  obtain rfl := authenticates_unique hv hc.token
  obtain rfl := authenticates_unique hv' hc'.token
  obtain ⟨b, hb, hcan⟩ := canonicalBody_of hc.parsed.1 hc.parsed.2 hdata
  obtain ⟨b', hb', hcan'⟩ := canonicalBody_of hc'.parsed.1 hc'.parsed.2 hdata'
  have hbody : b = b' := by
    rw [hcan] at hcan'
    exact Except.ok.inj hcan'
  refine ⟨?_, fwdHeaders_identity⟩
  rw [upstreamRequest, upstreamRequest, hsettings, hrid, hrid', hb, hb', hbody, fwdHeaders_congr hheaders hid]
  rfl

def aliceGateway : Gateway where
  settings := Settings.default ⟨txt "http", some (txt "upstream"), txt "http://upstream/mcp"⟩ (txt "issuer")
    (txt "audience")
  verifier := some fun _ => .ok aliceClaims
  policy := pingPolicy
  toolPolicy := none

def aliceToken : VerifiedToken := ⟨txt "alice", {txt "mcp:read", txt "mcp:invoke"}, aliceClaims.toClaims⟩

def plainPing : Request where
  raw := [(ascii "authorization", ascii "Bearer t1"), (ascii "accept", ascii "text/plain")]
  client := none
  chunks := [ascii "\x7b\"method\":\"ping\"\x7d"]
  disconnected := false

def spoofedPing : Request where
  raw := [(ascii "x-forwarded-sub", ascii "eve"), (ascii "accept", ascii "text/plain"),
    (ascii "authorization", ascii "bearer t2")]
  client := some (txt "10.0.0.1")
  chunks := [ascii "\x7b\"method\"", ascii ":\"ping\"\x7d"]
  disconnected := false

def pingSent : UpstreamRequest :=
  ⟨txt "POST", txt "http://upstream/mcp",
    [(txt "accept", txt "text/plain"), (txt "X-Request-Id", txt "id"), (txt "X-Forwarded-Sub", txt "alice"),
      (txt "X-Forwarded-Scopes", txt "mcp:invoke mcp:read")],
    ascii "\x7b\"method\":\"ping\"\x7d"⟩

theorem forwarding_independent_spoofed : ∃ sent,
    sent ∈ (proxyMcp .ascii aliceGateway plainPing (fun _ => .error .clientDisconnect) (txt "id")).attempts ∧
      sent ∈ (proxyMcp .ascii aliceGateway spoofedPing (fun _ => .error .clientDisconnect) (txt "id")).attempts ∧
      CarriesIdentity .ascii (some aliceToken) sent.headers := by
  have hplain : pingSent ∈ (proxyMcp .ascii aliceGateway plainPing (fun _ => .error .clientDisconnect)
    (txt "id")).attempts := by
    decide +kernel
  have hspoofed : pingSent ∈ (proxyMcp .ascii aliceGateway spoofedPing (fun _ => .error .clientDisconnect)
    (txt "id")).attempts := by
    decide +kernel
  have hparse : parseJsonrpc .ascii plainPing.chunks.flatten =
      .ok { method := some (txt "ping"), canonicalBody := some (ascii "\x7b\"method\":\"ping\"\x7d") } := by
    decide +kernel
  obtain ⟨data, hdata, _⟩ := parseJsonrpc_ok hparse rfl
  have hflat : spoofedPing.chunks.flatten = plainPing.chunks.flatten := by decide
  have hv : Authenticates .ascii aliceGateway plainPing (some aliceToken) :=
    Or.inr ⟨rfl, by decide, _, _, rfl, rfl, rfl⟩
  have hv' : Authenticates .ascii aliceGateway spoofedPing (some aliceToken) :=
    Or.inr ⟨rfl, by decide, _, _, rfl, rfl, rfl⟩
  refine ⟨pingSent, hplain, hspoofed, ?_⟩
  exact (forwarding_independent rfl hplain hspoofed (by decide) hv hv' rfl hdata (hflat ▸ hdata)).2

/-! ## Values that can be sent -/

def Sendable (s : Text) : Prop := ∀ c ∈ s, (0x20 ≤ c.val ∧ c.val ≤ 0x7E) ∨ c.val = 9

/-- `uuid4().hex`. -/
def HexId (requestId : Text) : Prop := requestId.length = 32 ∧ ∀ c ∈ requestId, c ∈ txt "0123456789abcdef"

/-- What `httpx` does with header values: it raises on a character outside ASCII, and on values that can be sent
nothing but a `RequestError`, whose classes have ASCII names. -/
structure Httpx (upstream : UpstreamRequest → Except Exc UpstreamResponse) : Prop where
  refuses : ∀ sent, (∃ h ∈ sent.headers, ∃ c ∈ h.2, 0x80 ≤ c.val) → upstream sent = .error .unicodeEncodeError
  sends : ∀ sent, (∀ h ∈ sent.headers, Sendable h.2) → (∃ up, upstream sent = .ok up) ∨
    ∃ cls : Text, (∀ c ∈ cls, c.val < 0x80) ∧ upstream sent = .error (.requestError cls)

theorem hexId_sendable {requestId : Text} (h : HexId requestId) : Sendable requestId := by
  have hhex : ∀ c ∈ txt "0123456789abcdef", 0x20 ≤ c.val ∧ c.val ≤ 0x7E := by decide
  exact fun c hc => Or.inl (hhex c (h.2 c hc))

theorem join_sendable {l : List Text} (h : ∀ s ∈ l, Sendable s) : Sendable ([ch ' '].intercalate l) := by
  induction l with
  | nil => exact fun c hc => by cases hc
  | cons s l ih =>
    cases l with
    | nil => simpa using h
    | cons s' l =>
      rw [List.intercalate_cons_cons]
      intro c hc
      rcases List.mem_append.mp hc with hc | hc
      · rcases List.mem_append.mp hc with hc | hc
        · exact h s List.mem_cons_self c hc
        · rw [List.mem_singleton.mp hc]
          exact Or.inl (by decide)
      · exact ih (fun t ht => h t (List.mem_cons_of_mem _ ht)) c hc

theorem identity_sendable {claims : DecodedClaims} {v : VerifiedToken} (hv : verifyClaims claims = .ok v) :
    ∀ h ∈ identityHeaders v, Sendable h.2 := by
  obtain ⟨_, _, hrefused, _⟩ := verifyClaims_ok hv
  intro h hmem
  rcases List.mem_cons.mp hmem with rfl | hmem
  · exact fun c hc => Or.inl (subject_chars hrefused c hc)
  · rw [List.mem_singleton.mp hmem]
    apply join_sendable
    intro tok ht c hc
    obtain ⟨hlow, hhigh⟩ := ((verified_scopes hv tok (mem_sorted.mp ht)).2 c hc).1
    exact Or.inl ⟨Nat.le_of_succ_le hlow, hhigh⟩

section
variable {py : Interp} {gw : Gateway} {request : Request} {upstream : UpstreamRequest → Except Exc UpstreamResponse}
  {requestId : Text} {a : Authorized}

theorem fwdHeaders_sendable (hid : HexId requestId) (ha : authorize py gw request requestId = .ok a)
    (hclient : ∀ h ∈ dictOf (allowListed py request), Sendable h.2) :
    ∀ h ∈ (upstreamRequest py gw request a).headers, Sendable h.2 := by
  obtain ⟨_, hc, _, hrid⟩ := authorize_ok ha
  intro h hmem
  rcases mem_fwdHeaders hmem with hmem | rfl | ⟨tok, htok, hmem⟩
  · exact hclient h hmem
  · rw [hrid]
    exact hexId_sendable hid
  · rcases hc.token with ⟨_, hnone⟩ | ⟨_, _, decode, tok', _, hverify, hsome⟩
    · rw [hnone] at htok
      cases htok
    · rw [htok] at hsome
      cases hsome
      obtain ⟨claims, _, hclaims⟩ := verify_ok hverify
      exact identity_sendable hclaims h hmem

end

/-! ## A byte outside ASCII -/

def unreachable (sent : UpstreamRequest) : Except Exc UpstreamResponse :=
  if sent.headers.all fun h => h.2.all fun c => c.val < 0x80 then .error (.requestError (txt "ConnectError"))
  else .error .unicodeEncodeError

theorem unreachable_httpx : Httpx unreachable where
  refuses := by
    rintro sent ⟨h, hmem, c, hc, hhigh⟩
    apply if_neg
    intro hall
    rw [List.all_eq_true] at hall
    have hlow := List.all_eq_true.mp (hall h hmem) c hc
    rw [decide_eq_true_eq] at hlow
    omega
  sends := by
    intro sent hsend
    refine Or.inr ⟨txt "ConnectError", by decide, if_pos ?_⟩
    rw [List.all_eq_true]
    intro h hmem
    rw [List.all_eq_true]
    intro c hc
    have := hsend h hmem c hc
    rw [decide_eq_true_eq]
    omega

def hexId : Text := txt "0123456789abcdef0123456789abcdef"

theorem hexId_hex : HexId hexId := ⟨by decide, by decide⟩

end McpGateway
