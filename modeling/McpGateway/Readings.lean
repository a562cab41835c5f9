import McpGateway.AuditTrail
import McpGateway.Forwarding
import McpGateway.ScopeRules

/-!
# What the other parties read

The upstream reads the forwarded body and the identity headers and can come to
the gateway's decision again. The client reads from the challenge of a refusal
which scopes its next token needs.
-/

namespace McpGateway

open Unicode Json

/-! ## The upstream -/

/-- A reader of JSON gets `v` from the body, and splits a header of forwarded scopes into `held`. -/
structure UpstreamReads (py : Interp) (dup : DupPolicy) (sent : UpstreamRequest) (v : Value) (held : List Text) :
    Prop where
  body : Reads dup sent.content v
  scopes : ∃ h ∈ sent.headers, py.lower h.1 = txt "x-forwarded-scopes" ∧ held = splitScopes h.2

/-- The policies of the gateway allow what `v` asks for, with the claims of the token and its scopes `held`. -/
structure Concurs (py : Interp) (gw : Gateway) (tok : VerifiedToken) (v : Value) (held : Finset Text) : Prop where
  scopes : held = tok.scopes
  method : ∃ method, dictGet (txt "method") v = some (.str method) ∧
    (gw.policy.check py method held).allowed = true ∧
    ∀ policy, gw.toolPolicy = some policy → method = txt "tools/call" →
      ∃ tool, paramsName v = some (.str tool) ∧ (policy.check tool (some tok.claims)).allowed = true

section
variable {py : Interp} {gw : Gateway} {request : Request} {requestId : Text}

theorem authenticates_token (hauth : gw.settings.requireAuth = true) {v : Option VerifiedToken}
    (h : Authenticates py gw request v) :
    ∃ tok, v = some tok ∧ ∀ scope ∈ tok.scopes, ScopeToken scope := by
  rcases h with ⟨hoff, _⟩ | ⟨_, _, decode, tok, _, hverify, rfl⟩
  · rw [hauth] at hoff
    cases hoff
  · obtain ⟨claims, _, hclaims⟩ := verify_ok hverify
    exact ⟨tok, rfl, verified_scopes hclaims⟩

theorem splitScopes_sorted {scopes : Finset Text} (h : ∀ scope ∈ scopes, ScopeToken scope) :
    splitScopes ([ch ' '].intercalate (sorted scopes)) = sorted scopes :=
  splitScopes_join fun scope hs => h scope (mem_sorted.mp hs)

/-- The header of forwarded scopes is split into the scopes of the token. -/
theorem forwarded_scopes {tok : VerifiedToken} (htok : ∀ scope ∈ tok.scopes, ScopeToken scope) {h : Text × Text}
    (hmem : h ∈ fwdHeaders py request (some tok) requestId) (hname : py.lower h.1 = txt "x-forwarded-scopes") :
    splitScopes h.2 = sorted tok.scopes := by
  obtain ⟨tok', heq, hid⟩ := (fwdHeaders_identity (v := some tok)).2 h hmem (Or.inr hname)
  cases heq
  rw [identityHeaders] at hid
  rcases List.mem_cons.mp hid with rfl | hid
  · have hlower : py.lower (txt "X-Forwarded-Sub") = txt "x-forwarded-sub" := py.lower_ascii _ (by decide)
    cases hlower.symm.trans hname
  · rw [List.mem_singleton.mp hid]
    exact splitScopes_sorted htok

/-- With authentication on, an upstream that reads a forwarded request comes to the gateway's decision, whatever
its reader does with repeated names. -/
theorem upstream_concurs (hauth : gw.settings.requireAuth = true)
    {upstream : UpstreamRequest → Except Exc UpstreamResponse}
    {sent : UpstreamRequest} (hsent : sent ∈ (proxyMcp py gw request upstream requestId).attempts) :
    ∃ tok, Authenticates py gw request (some tok) ∧ ∀ dup,
      (∃ v held, UpstreamReads py dup sent v held) ∧
      ∀ v held, UpstreamReads py dup sent v held → Concurs py gw tok v held.toFinset := by
  obtain ⟨a, ha, rfl⟩ := mem_attempts hsent
  obtain ⟨_, hc, _, _⟩ := authorize_ok ha
  obtain ⟨tok, hv, htok⟩ := authenticates_token hauth hc.token
  obtain ⟨data, s, b, hacc⟩ := accepted_of_parse hc.parsed.1 hc.parsed.2
  have hcontent : (upstreamRequest py gw request a).content = b := by
    rw [upstreamRequest, hacc.body]
    rfl
  have hheaders : (upstreamRequest py gw request a).headers = fwdHeaders py request
      (some tok) a.record.requestId := by
    rw [upstreamRequest, hv]
  have hscope := hc.scope
  have htool := hc.tool
  rw [hv] at hscope htool
  refine ⟨tok, hv ▸ hc.token, fun dup => ⟨?_, ?_⟩⟩
  · have hmem : (txt "X-Forwarded-Scopes", [ch ' '].intercalate (sorted tok.scopes)) ∈ identityHeaders tok := by
      rw [identityHeaders]
      exact List.mem_cons_of_mem _ List.mem_cons_self
    have hlower : py.lower (txt "X-Forwarded-Scopes") = txt "x-forwarded-scopes" := py.lower_ascii _ (by decide)
    refine ⟨data, _, ⟨?_, (txt "X-Forwarded-Scopes", [ch ' '].intercalate (sorted tok.scopes)), ?_, hlower, rfl⟩⟩
    · rw [hcontent]
      exact (hacc.reads dup data).mpr rfl
    · rw [hheaders]
      exact identity_fwdHeaders hmem
  · rintro v held ⟨hbody, h, hmem, hname, rfl⟩
    rw [hcontent] at hbody
    rw [hheaders] at hmem
    obtain rfl := (hacc.reads dup v).mp hbody
    obtain ⟨method, hmethod, hget, _⟩ := hacc.resolved.method
    rw [forwarded_scopes htok hmem hname, sorted_toFinset]
    rw [hmethod] at hscope
    refine ⟨rfl, method, hget, hscope, ?_⟩
    rintro policy hpolicy rfl
    obtain ⟨tool, hname, hallowed⟩ := htool policy hpolicy hmethod
    exact ⟨tool, ((hacc.resolved.toolName tool).mp hname).2.1, hallowed⟩

end

/-- Alice's plain ping, read by an upstream that refuses repeated names and one that keeps the first. -/
theorem upstream_concurs_alice :
    (∃ v held, UpstreamReads .ascii .reject pingSent v held ∧
    Concurs .ascii aliceGateway aliceToken v held.toFinset) ∧
    ∃ v held, UpstreamReads .ascii .keepFirst pingSent v held ∧
    Concurs .ascii aliceGateway aliceToken v held.toFinset := by
  have hsent : pingSent ∈ (proxyMcp .ascii aliceGateway plainPing (fun _ => .error .clientDisconnect)
      (txt "id")).attempts := by
    decide +kernel
  have hv : Authenticates .ascii aliceGateway plainPing (some aliceToken) :=
    Or.inr ⟨rfl, by decide, _, _, rfl, rfl, rfl⟩
  obtain ⟨tok, htok, hread⟩ := upstream_concurs rfl hsent
  obtain rfl := Option.some.inj (authenticates_unique hv htok)
  have heach : ∀ dup, ∃ v held, UpstreamReads .ascii dup pingSent v held ∧
      Concurs .ascii aliceGateway aliceToken v held.toFinset := by
    intro dup
    obtain ⟨⟨v, held, hreads⟩, hconcurs⟩ := hread dup
    exact ⟨v, held, hreads, hconcurs v held hreads⟩
  exact ⟨heach .reject, heach .keepFirst⟩

/-! ## The client -/

def after (marker : Text) : Text → Option Text
  | [] => none
  | c :: s => if marker.isPrefixOf (c :: s) then some ((c :: s).drop marker.length) else after marker s

def challengedScopes (challenge : Text) : Option (List Text) :=
  (after (txt "scope=\"") challenge).map fun s => splitScopes (s.takeWhile fun c => c ≠ ch '"')

structure Retries (request request' : Request) : Prop where
  chunks : request'.chunks = request.chunks
  disconnected : request'.disconnected = request.disconnected
  header : ∀ name, name ≠ txt "authorization" → request'.header name = request.header name

section
variable {py : Interp} {gw : Gateway} {request request' : Request} {requestId requestId' : Text}
  {v v' : Option VerifiedToken} {p : JsonRpcParse}

theorem join_forall {P : CodePoint → Prop} (hspace : P (ch ' ')) {l : List Text} (h : ∀ s ∈ l, ∀ c ∈ s, P c) :
    ∀ c ∈ [ch ' '].intercalate l, P c := by
  induction l with
  | nil => exact fun c hc => by cases hc
  | cons s l ih =>
    obtain ⟨hs, hl⟩ := List.forall_mem_cons.mp h
    cases l with
    | nil => simpa using hs
    | cons s' l =>
      rw [List.intercalate_cons_cons]
      intro c hc
      rcases List.mem_append.mp hc with hc | hc
      · rcases List.mem_append.mp hc with hc | hc
        · exact hs c hc
        · rw [List.mem_singleton.mp hc]
          exact hspace
      · exact ih hl c hc

/-- No token holds a quote, so the attribute ends where the joined scopes do. -/
theorem challenge_scopes {required : Finset Text} (h : ∀ scope ∈ required, ScopeToken scope) :
    challengedScopes (txt "Bearer error=\"insufficient_scope\", scope=\"" ++ [ch ' '].intercalate
    (sorted required) ++ txt "\"") =
      some (sorted required) := by
  have hafter : ∀ s : Text, after (txt "scope=\"") (txt "Bearer error=\"insufficient_scope\", scope=\"" ++ s) =
      some s := fun s => rfl
  have hquote : ∀ c ∈ [ch ' '].intercalate (sorted required), decide (c ≠ ch '"') = true := by
    refine join_forall (P := fun c => decide (c ≠ ch '"') = true) (by decide) ?_
    intro scope hs c hc
    rw [decide_eq_true_iff]
    rintro rfl
    exact ((h scope (mem_sorted.mp hs)).2 _ hc).2.1 rfl
  rw [challengedScopes, List.append_assoc, hafter, Option.map_some, List.takeWhile_append_of_pos hquote]
  have hend : (txt "\"").takeWhile (fun c => c ≠ ch '"') = [] := rfl
  rw [hend, List.append_nil, splitScopes_sorted h]

theorem retry_parsed (hp : Parsed py gw request requestId v p) (hretry : Retries request request')
    (hv : Authenticates py gw request' v') : Parsed py gw request' requestId' v' p := by
  obtain ⟨horigin, hlength, raw, r, hraw, _, hparse⟩ := hp
  obtain ⟨r', hauth⟩ := authenticate_admits (openRecord gw request' requestId') hv
  obtain ⟨hcomplete, rfl, hsize⟩ := readBody_start.mp hraw
  refine ⟨?_, ?_, request'.chunks.flatten, r', ?_, hauth, ?_⟩
  · rw [originGate_ok] at horigin ⊢
    rw [hretry.header _ (by decide)]
    exact horigin
  · rw [lengthGate_ok] at hlength ⊢
    rw [hretry.header _ (by decide)]
    exact hlength
  · rw [readBody_start, hretry.disconnected, hretry.chunks]
    exact ⟨hcomplete, rfl, hsize⟩
  · rw [parseGate_ok, hretry.chunks]
    exact parseGate_ok.mp hparse

/-- After the gates before them, the policies decide whether a request is forwarded. -/
theorem parsed_forwarded (hp : Parsed py gw request requestId v p)
    (upstream : UpstreamRequest → Except Exc UpstreamResponse) :
    (proxyMcp py gw request upstream requestId).attempts ≠ [] ↔
      (gw.policy.check py (p.method.getD []) (heldScopes v)).allowed = true ∧ ToolAllowed gw p v := by
  obtain ⟨horigin, hlength, raw, r, hraw, hauth, hparse⟩ := hp
  rw [proxyMcp_attempts, authorize, horigin]
  simp only [hlength, hraw, hauth, hparse, bind, Except.bind]
  cases hscope : scopeGate py gw p v r with
  | error stop =>
    refine iff_of_false (by simp) ?_
    rintro ⟨hallowed, _⟩
    obtain ⟨r', h⟩ := scopeGate_admits r hallowed
    cases hscope.symm.trans h
  | ok r₁ =>
    have hallowed := (scopeGate_ok hscope).1
    dsimp only
    cases htool : toolGate py gw p v r₁ with
    | error stop =>
      refine iff_of_false (by simp) ?_
      rintro ⟨_, hcall⟩
      obtain ⟨r', h⟩ := toolGate_admits r₁ hcall
      cases htool.symm.trans h
    | ok r₂ => exact iff_of_true (by simp [pure, Except.pure]) ⟨hallowed, (toolGate_ok htool).1⟩

theorem scopeGate_stops (record : AuditRecord)
    (h : (gw.policy.check py (p.method.getD []) (heldScopes v)).allowed = false) :
    ∃ stop, scopeGate py gw p v record = .error stop ∧ stop.outcome =
      forbidden py (gw.policy.check py (p.method.getD []) (heldScopes v)).reason
        (sorted (gw.policy.check py (p.method.getD []) (heldScopes v)).required) := by
  rw [scopeGate, if_neg (by rw [h]; decide)]
  exact ⟨_, rfl, rfl⟩

theorem denied_outcome (hp : Parsed py gw request requestId v p)
    (upstream : UpstreamRequest → Except Exc UpstreamResponse)
    (h : (gw.policy.check py (p.method.getD []) (heldScopes v)).allowed = false) :
    (proxyMcp py gw request upstream requestId).outcome =
      forbidden py (gw.policy.check py (p.method.getD []) (heldScopes v)).reason
        (sorted (gw.policy.check py (p.method.getD []) (heldScopes v)).required) := by
  obtain ⟨horigin, hlength, raw, r, hraw, hauth, hparse⟩ := hp
  obtain ⟨stop, hstop, houtcome⟩ := scopeGate_stops r h
  have hauthorize : authorize py gw request requestId = .error stop := by
    rw [authorize, horigin]
    simp only [hlength, hraw, hauth, hparse, hstop, bind, Except.bind]
  rw [proxyMcp, hauthorize]
  exact houtcome

/-- The challenge of a denial names what a retry needs: it is forwarded, if the tool policy lets it, exactly with
a token of at least the scopes that the client reads. Where it names none, no token will do. -/
theorem step_up (htokens : ∀ scope ∈ gw.policy.scopesSupported, ScopeToken scope)
    (hp : Parsed py gw request requestId v p)
    (hdenied : (gw.policy.check py (p.method.getD []) (heldScopes v)).allowed = false)
    (upstream : UpstreamRequest → Except Exc UpstreamResponse) :
    ∃ required : Finset Text, (∀ scope ∈ required, scope ∈ gw.policy.scopesSupported) ∧
      (∀ response, (proxyMcp py gw request upstream requestId).outcome = .ok response → response.status = 403 ∧
        ∃ challenge, response.headers = [(txt "WWW-Authenticate", challenge)] ∧
        challengedScopes challenge = some (sorted required)) ∧
      ∀ request' requestId' v', Retries request request' → Authenticates py gw request' v' →
        ((proxyMcp py gw request' upstream requestId').attempts ≠ [] ↔
          required.Nonempty ∧ required ⊆ heldScopes v' ∧ ToolAllowed gw p v') := by
  have hsupported : ∀ scope ∈ (gw.policy.check py (p.method.getD []) (heldScopes v)).required,
      scope ∈ gw.policy.scopesSupported :=
    fun scope hs => required_supported hs
  refine ⟨_, hsupported, ?_, ?_⟩
  · intro response hr
    rw [denied_outcome hp upstream hdenied, forbidden, jsonResponse] at hr
    split at hr
    · cases hr
    rw [respond_ok hr]
    exact ⟨rfl, _, rfl, challenge_scopes fun scope hs => htokens scope (hsupported scope hs)⟩
  · intro request' requestId' v' hretry hv
    rw [parsed_forwarded (retry_parsed hp hretry hv), check_required, check_allowed, ← and_assoc]
    refine and_congr_left fun _ => ?_
    have hnot : ¬ ∃ required, gw.policy.asked (p.method.getD []) = some required ∧ required ⊆ heldScopes v := by
      intro h
      cases hdenied.symm.trans (check_allowed.mpr h)
    cases hasked : gw.policy.asked (p.method.getD []) with
    | none => simp
    | some required =>
      -- A denied method that asks for scopes asks for one at least.
      have hnonempty : required.Nonempty := by
        rw [Finset.nonempty_iff_ne_empty]
        rintro rfl
        exact hnot ⟨∅, hasked, Finset.empty_subset _⟩
      simp [hnonempty]

end

theorem pingAdmin_names (scopes : Finset Text) : ([(txt "ping", scopes)].map Prod.fst).Nodup :=
  List.nodup_singleton _

def adminClaims : DecodedClaims where
  members := [(txt "sub", .str (txt "alice")), (txt "scope", .str (txt "mcp:admin mcp:read"))]
  distinct := by decide
  sub_str := by rintro v ⟨⟩; exact ⟨_, rfl⟩

/-- A ping needs `mcp:admin`, which only the token `t2` has. -/
def adminGateway : Gateway :=
  { aliceGateway with
    verifier := some fun token => .ok (if token = txt "t2" then adminClaims else aliceClaims)
    policy := ⟨[(txt "ping", {txt "mcp:admin"})], ∅, true, pingAdmin_names _⟩ }

def retriedPing : Request :=
  { plainPing with raw := [(ascii "authorization", ascii "Bearer t2"), (ascii "accept", ascii "text/plain")] }

def pingParse : JsonRpcParse :=
  { method := some (txt "ping"), canonicalBody := some (ascii "\x7b\"method\":\"ping\"\x7d") }

theorem step_up_admin : ∃ challenge, challengedScopes challenge = some [txt "mcp:admin"] ∧
    (∃ response, (proxyMcp .ascii adminGateway plainPing unreachable (txt "id")).outcome = .ok response ∧
      response.headers = [(txt "WWW-Authenticate", challenge)]) ∧
    (proxyMcp .ascii adminGateway retriedPing unreachable (txt "id")).attempts ≠ [] := by
  have hparse : parseJsonrpc .ascii plainPing.chunks.flatten = .ok pingParse := by decide +kernel
  have hv : Authenticates .ascii adminGateway plainPing (some aliceToken) :=
    Or.inr ⟨rfl, by decide, _, _, rfl, rfl, rfl⟩
  have hparsed : Parsed .ascii adminGateway plainPing (txt "id") (some aliceToken) pingParse := by
    obtain ⟨r, hauth⟩ := authenticate_admits (openRecord adminGateway plainPing (txt "id")) hv
    exact ⟨rfl, rfl, plainPing.chunks.flatten, r, readBody_start.mpr ⟨rfl, rfl, by decide⟩, hauth,
      parseGate_ok.mpr ⟨hparse, rfl⟩⟩
  have hdenied : (adminGateway.policy.check .ascii (pingParse.method.getD [])
      (heldScopes (some aliceToken))).allowed = false := by
    decide +kernel
  have htokens : ∀ scope ∈ adminGateway.policy.scopesSupported, ScopeToken scope := by
    have hsupported : adminGateway.policy.scopesSupported = [txt "mcp:admin"] := by decide
    rw [hsupported, List.forall_mem_singleton, ← validScopeToken_iff]
    decide
  have hretry : Retries plainPing retriedPing := by
    refine ⟨rfl, rfl, fun name hname => ?_⟩
    have hlatin : latin1 (ascii "authorization") = txt "authorization" := by decide
    have hbeq : (name == txt "authorization") = false := by simpa using hname
    simp [Request.header, Request.headers, plainPing, retriedPing, hlatin, List.lookup_cons, hbeq]
  have hv' : Authenticates .ascii adminGateway retriedPing
      (some ⟨txt "alice", {txt "mcp:admin", txt "mcp:read"}, adminClaims.toClaims⟩) :=
    Or.inr ⟨rfl, by decide, _, _, rfl, rfl, rfl⟩
  have hheaders : (proxyMcp .ascii adminGateway plainPing unreachable (txt "id")).outcome.toOption.map
      Response.headers =
      some [(txt "WWW-Authenticate", txt "Bearer error=\"insufficient_scope\", scope=\"mcp:admin\"")] := by
    decide +kernel
  obtain ⟨required, _, hchallenge, hforwarded⟩ := step_up htokens hparsed hdenied unreachable
  obtain ⟨response, hresponse, hheaders⟩ := Option.map_eq_some_iff.mp hheaders
  have houtcome : (proxyMcp .ascii adminGateway plainPing unreachable (txt "id")).outcome = .ok response := by
    cases h : (proxyMcp .ascii adminGateway plainPing unreachable (txt "id")).outcome with
    | error e =>
      rw [h] at hresponse
      cases hresponse
    | ok r =>
      rw [h] at hresponse
      cases hresponse
      rfl
  obtain ⟨_, challenge, hchallenge, hscopes⟩ := hchallenge response houtcome
  have heq : challenge = txt "Bearer error=\"insufficient_scope\", scope=\"mcp:admin\"" := by
    rw [hheaders] at hchallenge
    cases hchallenge
    rfl
  have hsorted : sorted required = [txt "mcp:admin"] := by
    have hread : challengedScopes challenge = some [txt "mcp:admin"] := by
      rw [heq]
      decide
    rw [hread] at hscopes
    exact (Option.some.inj hscopes).symm
  have hrequired : required = {txt "mcp:admin"} := by rw [← sorted_toFinset required, hsorted]; rfl
  rw [hsorted] at hscopes
  refine ⟨challenge, hscopes, ⟨response, houtcome, hchallenge⟩,
    (hforwarded retriedPing (txt "id") _ hretry hv').mpr ?_⟩
  rw [hrequired]
  exact ⟨by decide, by decide, fun _ h => by cases h⟩

end McpGateway
