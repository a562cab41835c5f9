import McpGateway.Acceptance
import McpGateway.Proxy

/-!
# Complete mediation

What each gate lets through, and the whole: a request is forwarded only if it
passes every control, and then exactly once.
-/

namespace McpGateway

open Unicode Json

theorem bind_ok {ε α β : Type} {x : Except ε α} {f : α → Except ε β} {b : β} :
    x >>= f = .ok b ↔ ∃ a, x = .ok a ∧ f a = .ok b := by
  cases x with
  | error e => simp [bind, Except.bind]
  | ok a => simp [bind, Except.bind]

section
variable {py : Interp} {gw : Gateway} {request : Request} {record : AuditRecord}

/-! ## The gates -/

theorem originGate_ok {u : Unit} : originGate py gw request record = .ok u ↔
    ∀ origin, request.header (txt "origin") = some origin →
      normalizeOrigin py origin ∈ gw.settings.allowedOrigins.map (normalizeOrigin py) := by
  rw [originGate]
  cases request.header (txt "origin") with
  | none => simp
  | some origin =>
    simp only [Option.some.injEq, forall_eq']
    split
    · rename_i h
      exact iff_of_true rfl h
    · rename_i h
      exact iff_of_false (fun he => by cases he) h

theorem lengthGate_ok {u : Unit} : lengthGate py gw request record = .ok u ↔
    (0 < gw.settings.maxRequestBytes → ∀ declared, request.header (txt "content-length") = some declared →
      py.isdigit declared = true → ∃ n : Nat, py.int declared = .ok n ∧
      (n : Int) ≤ gw.settings.maxRequestBytes) := by
  rw [lengthGate]
  by_cases hmax : 0 < gw.settings.maxRequestBytes
  · rw [if_pos hmax]
    cases request.header (txt "content-length") with
    | none => simp
    | some declared =>
      by_cases hd : py.isdigit declared = true
      · cases hn : py.int declared with
        | error e => simp [hd, hmax, hn]
        | ok n =>
          by_cases hle : (n : Int) ≤ gw.settings.maxRequestBytes
          · simp [hd, hn, hle]
          · simp [hd, hn, hle, hmax, Int.lt_of_not_ge hle]
      · simp [hd]
  · simp [hmax]

theorem readBody_ok {body raw : Bytes} {chunks : List Bytes}
    (hbody : 0 < gw.settings.maxRequestBytes → (body.length : Int) ≤ gw.settings.maxRequestBytes) :
    readBody py gw request record body chunks = .ok raw ↔ request.disconnected = false ∧
    raw = body ++ chunks.flatten ∧
      (0 < gw.settings.maxRequestBytes → (raw.length : Int) ≤ gw.settings.maxRequestBytes) := by
  induction chunks generalizing body with
  | nil =>
    rw [readBody, List.flatten_nil, List.append_nil]
    cases request.disconnected with
    | true => simp
    | false =>
      simp only [Bool.false_eq_true, if_false, Except.ok.injEq, true_and]
      constructor
      · rintro rfl
        exact ⟨rfl, hbody⟩
      · rintro ⟨rfl, _⟩
        rfl
  | cons chunk chunks ih =>
    rw [readBody]
    split
    · rename_i hover
      refine iff_of_false (fun h => by cases h) ?_
      rintro ⟨_, rfl, hle⟩
      have := hle hover.1
      have hlong := hover.2
      simp only [List.length_append, List.flatten_cons, Nat.cast_add] at this hlong
      omega
    · rename_i hover
      rw [ih fun hmax => Int.not_lt.mp fun hlt => hover ⟨hmax, hlt⟩, List.flatten_cons, List.append_assoc]

theorem readBody_start {raw : Bytes} : readBody py gw request record [] request.chunks = .ok raw ↔
    request.disconnected = false ∧ raw = request.chunks.flatten ∧
      (0 < gw.settings.maxRequestBytes → (raw.length : Int) ≤ gw.settings.maxRequestBytes) :=
  readBody_ok fun hmax => hmax.le

/-- The token a request was verified with; none with authentication off. -/
def Authenticates (py : Interp) (gw : Gateway) (request : Request) (v : Option VerifiedToken) : Prop :=
  (gw.settings.requireAuth = false ∧ v = none) ∨
    (gw.settings.requireAuth = true ∧ bearerToken py request ≠ [] ∧
      ∃ decode tok, gw.verifier = some decode ∧ verify decode (bearerToken py request) = .ok tok ∧ v = some tok)

theorem verify_ok {decode : Text → Except VerifyError DecodedClaims} {token : Text} {v : VerifiedToken}
    (h : verify decode token = .ok v) : ∃ claims, decode token = .ok claims ∧ verifyClaims claims = .ok v := by
  rw [verify] at h
  split at h
  · cases h
  rename_i claims hdecode
  split at h
  · cases h
  rename_i hclaims
  cases h
  exact ⟨claims, hdecode, hclaims⟩

theorem authenticate_ok {v : Option VerifiedToken} {r : AuditRecord}
    (h : authenticate py gw request record = .ok (v, r)) :
    Authenticates py gw request v ∧ r.requestId = record.requestId := by
  rw [authenticate] at h
  split at h
  · rename_i hauth
    split at h
    · cases h
    rename_i decode hdecode
    dsimp only at h
    split at h
    · cases h
    rename_i htoken
    split at h
    · cases h
    · cases h
    · rename_i tok htok
      cases h
      exact ⟨Or.inr ⟨hauth, by simpa using htoken, decode, tok, hdecode, htok, rfl⟩, rfl⟩
  · rename_i hauth
    cases h
    exact ⟨Or.inl ⟨by simpa using hauth, rfl⟩, rfl⟩

theorem authenticate_admits (record : AuditRecord) {v : Option VerifiedToken} (h : Authenticates py gw request v) :
    ∃ r, authenticate py gw request record = .ok (v, r) := by
  rcases h with ⟨hauth, rfl⟩ | ⟨hauth, htoken, decode, tok, hdecode, htok, rfl⟩
  · exact ⟨record, by simp [authenticate, hauth]⟩
  · exact ⟨record.verified tok, by simp [authenticate, hauth, hdecode, htoken, htok]⟩

theorem parseGate_ok {raw : Bytes} {p : JsonRpcParse} :
    parseGate py raw record = .ok p ↔ parseJsonrpc py raw = .ok p ∧ p.error = none := by
  rw [parseGate]
  cases parseJsonrpc py raw with
  | error e => simp
  | ok q =>
    cases hq : q.error with
    | none =>
      simp only [hq, Except.ok.injEq]
      exact ⟨fun h => ⟨h, h ▸ hq⟩, fun h => h.1⟩
    | some e =>
      simp only [hq, Except.ok.injEq]
      refine iff_of_false (fun h => by cases h) ?_
      rintro ⟨rfl, hp⟩
      rw [hq] at hp
      cases hp

theorem scopeGate_ok {p : JsonRpcParse} {v : Option VerifiedToken} {r : AuditRecord}
    (h : scopeGate py gw p v record = .ok r) :
    (gw.policy.check py (p.method.getD []) (heldScopes v)).allowed = true ∧ r.requestId = record.requestId := by
  rw [scopeGate] at h
  split at h
  · rename_i hallowed
    cases h
    exact ⟨hallowed, rfl⟩
  · cases h

theorem scopeGate_admits (record : AuditRecord) {p : JsonRpcParse} {v : Option VerifiedToken}
    (h : (gw.policy.check py (p.method.getD []) (heldScopes v)).allowed = true) :
    ∃ r, scopeGate py gw p v record = .ok r := by
  rw [scopeGate, if_pos h]
  exact ⟨_, rfl⟩

def ToolAllowed (gw : Gateway) (p : JsonRpcParse) (v : Option VerifiedToken) : Prop :=
  ∀ toolPolicy, gw.toolPolicy = some toolPolicy → p.method = some (txt "tools/call") →
    ∃ tool, p.toolName = some tool ∧ (toolPolicy.check tool (v.map VerifiedToken.claims)).allowed = true

theorem toolGate_ok {p : JsonRpcParse} {v : Option VerifiedToken} {r : AuditRecord}
    (h : toolGate py gw p v record = .ok r) :
    ToolAllowed gw p v ∧ r.requestId = record.requestId := by
  rw [toolGate] at h
  split at h
  · rename_i hnone
    cases h
    refine ⟨fun tp htp => ?_, rfl⟩
    rw [hnone] at htp
    cases htp
  rename_i toolPolicy hpolicy
  split at h
  · split at h
    · cases h
    rename_i tool htool
    dsimp only at h
    split at h
    · rename_i hallowed
      cases h
      refine ⟨fun tp htp _ => ⟨tool, htool, ?_⟩, rfl⟩
      rw [hpolicy] at htp
      cases htp
      exact hallowed
    · cases h
  · rename_i hmethod
    cases h
    exact ⟨fun _ _ hm => absurd hm hmethod, rfl⟩

theorem toolGate_admits (record : AuditRecord) {p : JsonRpcParse} {v : Option VerifiedToken}
    (h : ToolAllowed gw p v) :
    ∃ r, toolGate py gw p v record = .ok r := by
  rw [toolGate]
  cases hpolicy : gw.toolPolicy with
  | none => exact ⟨record, rfl⟩
  | some toolPolicy =>
    dsimp only
    by_cases hmethod : p.method = some (txt "tools/call")
    · obtain ⟨tool, htool, hallowed⟩ := h toolPolicy hpolicy hmethod
      rw [if_pos hmethod, htool]
      dsimp only
      rw [if_pos hallowed]
      exact ⟨_, rfl⟩
    · rw [if_neg hmethod]
      exact ⟨record, rfl⟩

/-! ## The pipeline -/

def DeclaresOver (py : Interp) (limit : Int) (declared : Text) : Prop :=
  py.isdigit declared = true ∧ ∃ ds, declared.mapM py.decimal = some ds ∧ limit < natOf ds

def LengthRaises (py : Interp) (gw : Gateway) (request : Request) : Prop :=
  0 < gw.settings.maxRequestBytes ∧ ∃ declared, request.header (txt "content-length") = some declared ∧
    py.isdigit declared = true ∧ ∃ e, py.int declared = .error e

/-- All the controls let the request through, with the token `v` and the parse `p`. -/
structure Controlled (py : Interp) (gw : Gateway) (request : Request) (v : Option VerifiedToken)
    (p : JsonRpcParse) :
    Prop where
  origin : ∀ origin, request.header (txt "origin") = some origin →
    normalizeOrigin py origin ∈ gw.settings.allowedOrigins.map (normalizeOrigin py)
  declared : 0 < gw.settings.maxRequestBytes → ∀ declared, request.header (txt "content-length") = some declared →
    ¬ DeclaresOver py gw.settings.maxRequestBytes declared
  size : 0 < gw.settings.maxRequestBytes → (request.chunks.flatten.length : Int) ≤ gw.settings.maxRequestBytes
  complete : request.disconnected = false
  token : Authenticates py gw request v
  parsed : parseJsonrpc py request.chunks.flatten = .ok p ∧ p.error = none
  scope : (gw.policy.check py (p.method.getD []) (heldScopes v)).allowed = true
  tool : ToolAllowed gw p v

theorem int_ok {s : Text} {n : Nat} (h : py.int s = .ok n) : ∃ ds, s.mapM py.decimal = some ds ∧ n = natOf ds := by
  rw [Interp.int] at h
  split at h
  · cases h
  rename_i ds hds
  split at h <;> cases h
  exact ⟨ds, hds, rfl⟩

/-- The length gate refuses a length that is over the limit or that `int` does not take. -/
theorem lengthGate_iff {u : Unit} : lengthGate py gw request record = .ok u ↔ ¬ LengthRaises py gw request ∧
    (0 < gw.settings.maxRequestBytes → ∀ declared, request.header (txt "content-length") = some declared →
      ¬ DeclaresOver py gw.settings.maxRequestBytes declared) := by
  rw [lengthGate_ok]
  constructor
  · intro h
    constructor
    · rintro ⟨hmax, declared, hdecl, hd, e, he⟩
      obtain ⟨n, hn, _⟩ := h hmax declared hdecl hd
      rw [he] at hn
      cases hn
    · rintro hmax declared hdecl ⟨hd, ds, hds, hover⟩
      obtain ⟨n, hn, hle⟩ := h hmax declared hdecl hd
      obtain ⟨ds', hds', rfl⟩ := int_ok hn
      rw [hds] at hds'
      cases hds'
      omega
  · rintro ⟨hraise, hover⟩ hmax declared hdecl hd
    cases hn : py.int declared with
    | error e => exact absurd ⟨hmax, declared, hdecl, hd, e, hn⟩ hraise
    | ok n =>
      obtain ⟨ds, hds, rfl⟩ := int_ok hn
      refine ⟨natOf ds, rfl, Int.not_lt.mp fun hlt => ?_⟩
      exact hover hmax declared hdecl ⟨hd, ds, hds, hlt⟩

theorem authorize_ok {requestId : Text} {a : Authorized} (h : authorize py gw request requestId = .ok a) :
    ¬ LengthRaises py gw request ∧ Controlled py gw request a.verified a.parsed ∧ a.raw = request.chunks.flatten ∧
      a.record.requestId = requestId := by
  rw [authorize] at h
  obtain ⟨u, horigin, h⟩ := bind_ok.mp h
  obtain ⟨u', hlength, h⟩ := bind_ok.mp h
  obtain ⟨raw, hraw, h⟩ := bind_ok.mp h
  obtain ⟨⟨v, r₁⟩, hauth, h⟩ := bind_ok.mp h
  obtain ⟨p, hp, h⟩ := bind_ok.mp h
  obtain ⟨r₂, hscope, h⟩ := bind_ok.mp h
  obtain ⟨r₃, htool, h⟩ := bind_ok.mp h
  cases h
  obtain ⟨hraise, hdeclared⟩ := lengthGate_iff.mp hlength
  obtain ⟨hcomplete, rfl, hsize⟩ := readBody_start.mp hraw
  obtain ⟨hv, hid₁⟩ := authenticate_ok hauth
  obtain ⟨hallowed, hid₂⟩ := scopeGate_ok hscope
  obtain ⟨hcall, hid₃⟩ := toolGate_ok htool
  refine ⟨hraise, ⟨originGate_ok.mp horigin, hdeclared, hsize, hcomplete, hv, parseGate_ok.mp hp, hallowed,
    hcall⟩, rfl, ?_⟩
  exact hid₃.trans (hid₂.trans hid₁)

theorem authorize_admits {v : Option VerifiedToken} {p : JsonRpcParse} (h : Controlled py gw request v p)
    (hraise : ¬ LengthRaises py gw request) (requestId : Text) :
    ∃ a, authorize py gw request requestId = .ok a ∧ a.parsed = p ∧ a.verified = v := by
  obtain ⟨r₁, hauth⟩ := authenticate_admits (openRecord gw request requestId) h.token
  obtain ⟨r₂, hscope⟩ := scopeGate_admits r₁ h.scope
  obtain ⟨r₃, htool⟩ := toolGate_admits r₂ h.tool
  refine ⟨⟨request.chunks.flatten, v, p, r₃⟩, ?_, rfl, rfl⟩
  refine bind_ok.mpr ⟨(), originGate_ok.mpr h.origin, ?_⟩
  refine bind_ok.mpr ⟨(), lengthGate_iff.mpr ⟨hraise, h.declared⟩, ?_⟩
  refine bind_ok.mpr ⟨_, readBody_start.mpr ⟨h.complete, rfl, h.size⟩, ?_⟩
  refine bind_ok.mpr ⟨(v, r₁), hauth, ?_⟩
  refine bind_ok.mpr ⟨p, parseGate_ok.mpr h.parsed, ?_⟩
  refine bind_ok.mpr ⟨r₂, hscope, ?_⟩
  exact bind_ok.mpr ⟨r₃, htool, rfl⟩

theorem authorize_bare {v : Option VerifiedToken} {p : JsonRpcParse}
    (horigin : request.header (txt "origin") = none) (hlength : request.header (txt "content-length") = none)
    (hsize : (request.chunks.flatten.length : Int) ≤ gw.settings.maxRequestBytes)
    (hcomplete : request.disconnected = false)
    (hv : Authenticates py gw request v) (hp : parseJsonrpc py request.chunks.flatten = .ok p) (he : p.error = none)
    (hscope : (gw.policy.check py (p.method.getD []) (heldScopes v)).allowed = true) (htool : ToolAllowed gw p v)
    (requestId : Text) : ∃ a, authorize py gw request requestId = .ok a ∧ a.parsed = p ∧ a.verified = v := by
  have hc : Controlled py gw request v p := {
    origin := fun origin h => by rw [horigin] at h; cases h
    declared := fun _ declared h => by rw [hlength] at h; cases h
    size := fun _ => hsize
    complete := hcomplete
    token := hv
    parsed := ⟨hp, he⟩
    scope := hscope
    tool := htool }
  apply authorize_admits hc
  rintro ⟨_, declared, h, _⟩
  rw [hlength] at h
  cases h

end

/-! ## Mediation -/

theorem proxyMcp_attempts (py : Interp) (gw : Gateway) (request : Request)
    (upstream : UpstreamRequest → Except Exc UpstreamResponse) (requestId : Text) :
    (proxyMcp py gw request upstream requestId).attempts =
      match authorize py gw request requestId with
      | .error _ => []
      | .ok a => [upstreamRequest py gw request a] := by
  rw [proxyMcp]
  cases authorize py gw request requestId with
  | error stop => rfl
  | ok a =>
    dsimp only
    split <;> rfl

/-- Forwarded only under control, and under control forwarded once. -/
def Mediates (py : Interp) (gw : Gateway) (request : Request) (run : Run) : Prop :=
  (run.attempts ≠ [] → ∃ v p, Controlled py gw request v p) ∧
    ∀ v p, Controlled py gw request v p →
      ∃ sent b, run.attempts = [sent] ∧ p.canonicalBody = some b ∧ sent.content = b

/-- A controlled request with a length that `int` does not take is not forwarded. -/
theorem raises_not_mediates {py : Interp} {gw : Gateway} {request : Request} {v : Option VerifiedToken}
    {p : JsonRpcParse} (hraise : LengthRaises py gw request) (hc : Controlled py gw request v p)
    (upstream : UpstreamRequest → Except Exc UpstreamResponse) (requestId : Text) :
    ¬ Mediates py gw request (proxyMcp py gw request upstream requestId) := by
  rintro ⟨_, hall⟩
  obtain ⟨sent, _, hsent, _⟩ := hall v p hc
  rw [proxyMcp_attempts] at hsent
  cases ha : authorize py gw request requestId with
  | error stop =>
    rw [ha] at hsent
    cases hsent
  | ok a => exact (authorize_ok ha).1 hraise

theorem mediation_iff (py : Interp) (gw : Gateway) (request : Request)
    (upstream : UpstreamRequest → Except Exc UpstreamResponse) (requestId : Text) :
    Mediates py gw request (proxyMcp py gw request upstream requestId) ↔
      (LengthRaises py gw request → ¬ ∃ v p, Controlled py gw request v p) := by
  constructor
  · rintro hm hraise ⟨v, p, hc⟩
    exact raises_not_mediates hraise hc upstream requestId hm
  · intro hcond
    rw [Mediates, proxyMcp_attempts]
    constructor
    · intro hne
      cases ha : authorize py gw request requestId with
      | error stop =>
        rw [ha] at hne
        exact absurd rfl hne
      | ok a => exact ⟨_, _, (authorize_ok ha).2.1⟩
    · intro v p hc
      have hraise : ¬ LengthRaises py gw request := fun hr => hcond hr ⟨v, p, hc⟩
      obtain ⟨a, ha, rfl, _⟩ := authorize_admits hc hraise requestId
      obtain ⟨data, s, b, haccepted⟩ := accepted_of_parse hc.parsed.1 hc.parsed.2
      rw [ha]
      refine ⟨_, b, rfl, haccepted.body, ?_⟩
      rw [upstreamRequest, haccepted.body]
      rfl

/-! ## A length with leading zeros -/

def pingPolicy : ScopePolicy := ⟨[(txt "ping", ∅)], ∅, true, by decide⟩

def devGateway : Gateway where
  settings := { Settings.default ⟨txt "http", some (txt "upstream"), txt "http://upstream/mcp"⟩ (txt "issuer")
      (txt "audience")
    with requireAuth := false }
  verifier := none
  policy := pingPolicy
  toolPolicy := none

/-- A ping whose length, 17, is written with 4301 digits. -/
def zerosRequest : Request where
  raw := [(ascii "content-length", List.replicate 4299 0x30 ++ ascii "17")]
  client := none
  chunks := [ascii "\x7b\"method\":\"ping\"\x7d"]
  disconnected := false

theorem zeros_header : zerosRequest.header (txt "content-length") =
    some (List.replicate 4299 (ch '0') ++ [ch '1', ch '7']) := by
  have hvalue : latin1 (List.replicate 4299 0x30 ++ ascii "17") = List.replicate 4299 (ch '0') ++
    [ch '1', ch '7'] := by
    rw [latin1, List.map_append, List.map_replicate]
    rfl
  rw [← hvalue]
  rfl

theorem mapM_replicate {α β : Type} {f : α → Option β} {a : α} {b : β} (h : f a = some b) (n : Nat) (l : List α) :
    (List.replicate n a ++ l).mapM f = (l.mapM f).map (List.replicate n b ++ ·) := by
  induction n with
  | zero => simp
  | succ n ih =>
    rw [List.replicate_succ, List.cons_append, List.mapM_cons, ih, h]
    cases l.mapM f <;> rfl

theorem zeros_decimal : (List.replicate 4299 (ch '0') ++ [ch '1', ch '7']).mapM Interp.ascii.decimal =
    some (List.replicate 4299 0 ++ [1, 7]) := by
  have hzero : Interp.ascii.decimal (ch '0') = some 0 := by decide
  rw [mapM_replicate hzero]
  rfl

theorem tooLong_default {ds : List Digit} (h : 4300 < ds.length) : tooLong Interp.ascii.maxStrDigits ds = true :=
  decide_eq_true h

theorem zeros_raise : LengthRaises .ascii devGateway zerosRequest := by
  refine ⟨by decide, _, zeros_header, ?_, .valueError, ?_⟩
  · rw [Interp.isdigit, List.all_append, List.all_replicate]
    rfl
  · rw [Interp.int, zeros_decimal]
    have hlong : tooLong Interp.ascii.maxStrDigits (List.replicate 4299 0 ++ [1, 7]) = true := by
      apply tooLong_default
      rw [List.length_append, List.length_replicate]
      decide
    dsimp only
    rw [if_pos hlong]

theorem zeros_controlled : Controlled .ascii devGateway zerosRequest none
    { method := some (txt "ping"), canonicalBody := some (ascii "\x7b\"method\":\"ping\"\x7d") } where
  origin := fun origin h => by cases h
  declared := by
    rintro _ declared hdecl ⟨_, ds, hds, hover⟩
    rw [zeros_header] at hdecl
    cases hdecl
    rw [zeros_decimal] at hds
    cases hds
    have hvalue : natOf (List.replicate 4299 0 ++ [1, 7]) = 17 := by
      rw [natOf_append]
      have hzeros := natOf_zeros 4299
      rw [zeros] at hzeros
      rw [hzeros]
      rfl
    rw [hvalue] at hover
    revert hover
    decide
  size := by decide
  complete := rfl
  token := Or.inl ⟨rfl, rfl⟩
  parsed := ⟨by decide +kernel, rfl⟩
  scope := by decide +kernel
  tool := fun _ h => by cases h

theorem mediation_zeros : ¬ ∀ py gw request upstream requestId,
    Mediates py gw request (proxyMcp py gw request upstream requestId) :=
  fun h => raises_not_mediates zeros_raise zeros_controlled (fun _ => .error .clientDisconnect)
    (txt "id") (h _ _ _ _ _)

end McpGateway
