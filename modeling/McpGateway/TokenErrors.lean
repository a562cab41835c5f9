import McpGateway.AuditTrail
import McpGateway.KeyRemoval

/-!
# How verification fails

`verify` step by step over PyJWT and the key cache, and when all it raises is a
`TokenError`.
-/

namespace McpGateway

open Unicode Json Transition

/-! ## Verifying a token -/

/-- What PyJWT raises: an error of its own, or another exception. -/
inductive JwtRaise
  | pyJwtError (message : Text)
  | other (cls : Text)

structure VerifierArgs where
  jwksUrl : Text
  issuer : Text
  audience : Text
  algs : List Text
  leeway : Int
  jwksUrl_ne : jwksUrl ≠ []
  algs_ne : algs ≠ []
  asymmetric_algs : ∀ alg ∈ algs, asymmetric alg = true

/-- `JwksVerifier(..)`; an error is the text of its `ValueError`. -/
def newVerifier (py : Interp) (jwksUrl issuer audience : Text) (algs : List Text) (leeway : Int) :
    Except Text VerifierArgs :=
  if hurl : jwksUrl = [] then .error (txt "jwks_url is required")
  else if halgs : algs ≠ [] ∧ ∀ alg ∈ algs, asymmetric alg = true then
    .ok ⟨jwksUrl, issuer, audience, algs, leeway, hurl, halgs.1, halgs.2⟩
  else .error (txt "only asymmetric algorithms are allowed, got " ++ listRepr py.isPrintable algs)

/-- The constructor accepts exactly the arguments of a `VerifierArgs`. -/
theorem newVerifier_ok {py : Interp} {jwksUrl issuer audience : Text} {algs : List Text} {leeway : Int}
    {v : VerifierArgs} :
    newVerifier py jwksUrl issuer audience algs leeway = .ok v ↔
      v.jwksUrl = jwksUrl ∧ v.issuer = issuer ∧ v.audience = audience ∧ v.algs = algs ∧ v.leeway = leeway := by
  constructor
  · intro h
    unfold newVerifier at h
    split_ifs at h
    cases h
    exact ⟨rfl, rfl, rfl, rfl, rfl⟩
  · intro ⟨hurl, hissuer, haudience, halgs, hleeway⟩
    subst hurl hissuer haudience halgs hleeway
    rw [newVerifier, dif_neg v.jwksUrl_ne, dif_pos ⟨v.algs_ne, v.asymmetric_algs⟩]

structure PyJwt (Key RawKey : Type) where
  getUnverifiedHeader : Text → Except JwtRaise (List (Text × Value))
  /-- `PyJWK.key`. -/
  rawKey : Key → RawKey
  decode : Text → RawKey → VerifierArgs → Except JwtRaise DecodedClaims

mutual
def valueRepr (isPrintable : CodePoint → Bool) : Value → Text
  | .null => txt "None"
  | .bool b => if b then txt "True" else txt "False"
  | .int z => intRepr z
  | .float x => floatRepr x
  | .str s => strRepr isPrintable s
  | .arr vs => ch '[' :: (txt ", ").intercalate (elemReprs isPrintable vs) ++ [ch ']']
  | .obj ms => ch '\x7b' :: (txt ", ").intercalate (memberReprs isPrintable ms) ++ [ch '\x7d']
def elemReprs (isPrintable : CodePoint → Bool) : List Value → List Text
  | [] => []
  | v :: vs => valueRepr isPrintable v :: elemReprs isPrintable vs
def memberReprs (isPrintable : CodePoint → Bool) : List (Text × Value) → List Text
  | [] => []
  | (k, v) :: ms => (strRepr isPrintable k ++ txt ": " ++ valueRepr isPrintable v) :: memberReprs isPrintable ms
end

section
variable {Key RawKey : Type} (py : Interp) (v : VerifierArgs) (jwt : PyJwt Key RawKey)
  (resolve : Text → Except VerifyError Key)

def tokenError {α : Type} (message : Text) : Except VerifyError α := .error (.tokenError message)

/-- An exception of PyJWT where `except jwt.PyJWTError` stands. -/
def jwtFailed {α : Type} (what : Text) : JwtRaise → Except VerifyError α
  | .pyJwtError message => tokenError (what ++ message)
  | .other cls => .error (.raised (.other cls))

def signingKey (header : List (Text × Value)) : Except VerifyError Key :=
  match header.lookup (txt "kid") with
  | some (.str kid) => if kid.isEmpty then tokenError (txt "token header missing 'kid'") else resolve kid
  | _ => tokenError (txt "token header missing 'kid'")

def algAllowed (alg : Value) : Bool :=
  match alg with
  | .str alg => alg ∈ v.algs
  | _ => false

/-- `verify` up to the decoded claims, with `_resolve_key` given by `resolve`. -/
def decodeToken (token : Text) : Except VerifyError DecodedClaims :=
  if token.isEmpty then tokenError (txt "empty token")
  else
    match jwt.getUnverifiedHeader token with
    | .error e => jwtFailed (txt "malformed token header: ") e
    | .ok header =>
      let alg := (header.lookup (txt "alg")).getD .null
      if !algAllowed v alg then tokenError (txt "algorithm not allowed: " ++ valueRepr py.isPrintable alg)
      else
        match signingKey resolve header with
        | .error e => .error e
        | .ok key =>
          match jwt.decode token (jwt.rawKey key) v with
          | .error e => jwtFailed (txt "token rejected: ") e
          | .ok claims => .ok claims

def Selects (token alg kid : Text) : Prop :=
  token ≠ [] ∧ ∃ header, jwt.getUnverifiedHeader token = .ok header ∧ header.lookup (txt "alg") = some (.str alg) ∧
    alg ∈ v.algs ∧ header.lookup (txt "kid") = some (.str kid) ∧ kid ≠ []

/-- What is documented of PyJWT: it raises errors of its own, and `decode` a `TypeError` where the type of the key
does not fit the algorithm of the header. -/
structure Documented (fits : RawKey → Text → Bool) : Prop where
  header : ∀ token e, jwt.getUnverifiedHeader token = .error e → ∃ message, e = .pyJwtError message
  mismatch : ∀ token alg kid key, Selects v jwt token alg kid → fits key alg = false →
    jwt.decode token key v = .error (.other (txt "TypeError"))
  decode : ∀ token alg kid key e, Selects v jwt token alg kid → fits key alg = true →
    jwt.decode token key v = .error e →
    ∃ message, e = .pyJwtError message

end

def resolved {Key : Type} (a : Answer Key) : Option (Except VerifyError Key) :=
  match a with
  | .key k => some (.ok k)
  | .tokenError message => some (tokenError message)
  | .thrown e => some (.error (.raised (.other e.cls)))
  | .ready _ => none

/-! ## What resolving a key can answer -/

section
variable {Tid Kid Key Raw : Type} [DecidableEq Tid] [DecidableEq Kid] {cfg : CacheConfig}
  {parse : Raw → Except Thrown (Keys Kid Key)} {start : ℚ} {ok : Sys Tid Kid Key Raw → Event Tid Kid Raw → Prop}

inductive Resolving : Answer Key → Prop
  | key {k : Key} : Resolving (.key k)
  | tokenError {message : Text} : Resolving (.tokenError message)
  | escaped {e : Thrown} : e.caught = false → Resolving (.thrown e)

def ResolveAnswers (_ : List (Entry Tid Kid Key Raw)) (x : Entry Tid Kid Key Raw) : Prop :=
  ∀ t kid a ground, x = .answered t (.resolve kid) a ground → Resolving a

omit [DecidableEq Tid] [DecidableEq Kid] in
theorem admission_resolving {c : Cache Kid Key} {now : ℚ} {key : Option Key} {a : Answer Key}
    (h : admission cfg c now key = .answer a) : Resolving a := by
  unfold admission at h
  split at h
  · cases h
  split at h
  · cases h
    exact .key
  · cases h
    exact .tokenError

omit [DecidableEq Tid] in
theorem section_resolving {clock : ℚ} {c : Cache Kid Key} {pc : Pc Kid Key Raw} {kid : Kid} {now : ℚ}
    {a : Answer Key} (h : Section cfg clock c pc (.resolve kid) now (.answer a)) : Resolving a := by
  generalize hd : Decision.answer a = d at h
  cases h with
  | enter =>
    unfold enterResolve at hd
    split at hd
    · split_ifs at hd
      · cases hd
        exact .key
      · cases hd
        exact .key
      · exact admission_resolving hd.symm
    · split_ifs at hd
      exact admission_resolving hd.symm
  | wake =>
    unfold wakeResolve at hd
    split at hd
    · cases hd
      exact .key
    · split_ifs at hd
      exact admission_resolving hd.symm

omit [DecidableEq Tid] [DecidableEq Kid] in
theorem retrievalFailed_resolving (e : Thrown) : Resolving (retrievalFailed e : Answer Key) := by
  rw [retrievalFailed]
  cases hcaught : e.caught with
  | true => exact .tokenError
  | false => exact .escaped hcaught

omit [DecidableEq Tid] [DecidableEq Kid] in
theorem resolveError_resolving {outcome : Fetched Raw} {a : Answer Key} (h : resolveError parse outcome = some a) :
    Resolving a := by
  unfold resolveError at h
  split at h
  · cases h
    exact .tokenError
  · cases h
    exact retrievalFailed_resolving _
  · split at h
    · cases h
      exact retrievalFailed_resolving _
    · cases h
      exact .tokenError
    · cases h

theorem answers_resolving {s : Sys Tid Kid Key Raw} (h : Reachable (verifier cfg parse start) ok s) :
    Before ResolveAnswers s.log := by
  refine h.invariant (I := fun s => Before ResolveAnswers s.log) before_nil ?_
  intro s e s' _ hI _ hs
  refine before_recorded hI (steps_of_step hs) ?_
  intro pre x hx t kid a ground hanswered
  cases hx with
  | held _ hsec =>
    cases hanswered
    exact section_resolving hsec
  | expire _ =>
    cases hanswered
    exact .tokenError
  | failed _ _ hf =>
    cases hanswered
    exact resolveError_resolving hf
  | found _ _ =>
    cases hanswered
    exact .key
  | missing _ _ =>
    cases hanswered
    exact .tokenError
  | _ => cases hanswered

theorem mem_resolving {s : Sys Tid Kid Key Raw} (h : Reachable (verifier cfg parse start) ok s)
    {t : Tid} {kid : Kid}
    {a : Answer Key} {ground : Ground} (ha : .answered t (.resolve kid) a ground ∈ s.log) : Resolving a := by
  obtain ⟨pre, post, hlog⟩ := List.append_of_mem ha
  exact answers_resolving h pre _ post hlog t kid a ground rfl

end

/-! ## What verification raises -/

section
variable {Key RawKey : Type} {py : Interp} {v : VerifierArgs} {jwt : PyJwt Key RawKey}
  {resolve : Text → Except VerifyError Key} {fits : RawKey → Text → Bool} {token alg kid : Text}

theorem selects_unique {alg' kid' : Text} (h : Selects v jwt token alg kid) (h' : Selects v jwt token alg' kid') :
    alg = alg' ∧ kid = kid' := by
  obtain ⟨_, header, hheader, halg, _, hkid, _⟩ := h
  obtain ⟨_, header', hheader', halg', _, hkid', _⟩ := h'
  cases hheader.symm.trans hheader'
  cases halg.symm.trans halg'
  cases hkid.symm.trans hkid'
  exact ⟨rfl, rfl⟩

/-- A header that selects leaves the key and the decoding. -/
theorem decodeToken_selects (h : Selects v jwt token alg kid) :
    decodeToken py v jwt resolve token =
      match resolve kid with
      | .error e => .error e
      | .ok k =>
        match jwt.decode token (jwt.rawKey k) v with
        | .error e => jwtFailed (txt "token rejected: ") e
        | .ok claims => .ok claims := by
  obtain ⟨htoken, header, hheader, halg, hallowed, hkid, hne⟩ := h
  have hkey : signingKey resolve header = resolve kid := by
    rw [signingKey, hkid]
    exact if_neg (by simpa using hne)
  have hok : ¬ (!algAllowed v ((header.lookup (txt "alg")).getD .null)) = true := by
    rw [halg]
    simpa [algAllowed] using hallowed
  rw [decodeToken, if_neg (by simpa using htoken), hheader]
  dsimp only
  rw [if_neg hok, hkey]

theorem algAllowed_some {header : List (Text × Value)}
    (h : algAllowed v ((header.lookup (txt "alg")).getD .null) = true) :
    ∃ alg, header.lookup (txt "alg") = some (.str alg) ∧ alg ∈ v.algs := by
  cases halg : header.lookup (txt "alg") with
  | none =>
    rw [halg] at h
    cases h
  | some value =>
    rw [halg] at h
    cases value with
    | str alg => exact ⟨alg, rfl, by simpa [algAllowed] using h⟩
    | _ => cases h

theorem signingKey_cases (header : List (Text × Value)) :
    (∃ kid, header.lookup (txt "kid") = some (.str kid) ∧ kid ≠ []) ∨
      signingKey resolve header = tokenError (txt "token header missing 'kid'") := by
  rw [signingKey]
  split
  · rename_i kid hkid
    by_cases hne : kid = []
    · exact Or.inr (if_pos (by simpa using hne))
    · exact Or.inl ⟨kid, hkid, hne⟩
  · exact Or.inr rfl

theorem decodeToken_unselected (hj : Documented v jwt fits) (h : ∀ alg kid, ¬ Selects v jwt token alg kid) :
    ∃ message, decodeToken py v jwt resolve token = .error (.tokenError message) := by
  rw [decodeToken]
  by_cases htoken : token = []
  · rw [if_pos (by simpa using htoken)]
    exact ⟨_, rfl⟩
  rw [if_neg (by simpa using htoken)]
  cases hheader : jwt.getUnverifiedHeader token with
  | error e =>
    obtain ⟨message, rfl⟩ := hj.header token e hheader
    exact ⟨_, rfl⟩
  | ok header =>
    dsimp only
    by_cases hallowed : algAllowed v ((header.lookup (txt "alg")).getD .null) = true
    · rw [if_neg (by simpa using hallowed)]
      obtain ⟨alg, halg, hmem⟩ := algAllowed_some hallowed
      obtain ⟨kid, hkid, hne⟩ | hmissing := @signingKey_cases _ resolve header
      · exact absurd ⟨htoken, header, hheader, halg, hmem, hkid, hne⟩ (h alg kid)
      · rw [hmissing]
        exact ⟨_, rfl⟩
    · rw [if_pos (by simpa using hallowed)]
      exact ⟨_, rfl⟩

theorem verify_raised {decode : Text → Except VerifyError DecodedClaims} {e : Exc} :
    verify decode token = .error (.raised e) ↔ decode token = .error (.raised e) := by
  rw [verify]
  cases decode token with
  | error e' => simp
  | ok claims =>
    dsimp only
    cases verifyClaims claims <;> simp

/-- Verification raises something else where the key does not fit the algorithm, and where resolving the key does.
-/
theorem verify_raises_iff (hj : Documented v jwt fits) (h : Selects v jwt token alg kid) :
    (∃ e, verify (decodeToken py v jwt resolve) token = .error (.raised e)) ↔
      (∃ k, resolve kid = .ok k ∧ fits (jwt.rawKey k) alg = false) ∨ ∃ e, resolve kid = .error (.raised e) := by
  simp only [verify_raised, decodeToken_selects h]
  cases hresolve : resolve kid with
  | error e => simp
  | ok k =>
    simp only [Except.ok.injEq, exists_eq_left', reduceCtorEq, exists_false, or_false]
    cases hfits : fits (jwt.rawKey k) alg with
    | false =>
      rw [hj.mismatch token alg kid _ h hfits]
      exact iff_of_true ⟨_, rfl⟩ rfl
    | true =>
      refine iff_of_false ?_ Bool.noConfusion
      intro ⟨e, he⟩
      cases hdecode : jwt.decode token (jwt.rawKey k) v with
      | ok claims =>
        rw [hdecode] at he
        cases he
      | error raised =>
        obtain ⟨message, rfl⟩ := hj.decode token alg kid _ _ h hfits hdecode
        rw [hdecode] at he
        cases he

theorem verify_cases (decode : Text → Except VerifyError DecodedClaims) (token : Text) :
    ((∃ r, verify decode token = .ok r) ∨ ∃ message, verify decode token = .error (.tokenError message)) ↔
      ¬ ∃ e, verify decode token = .error (.raised e) := by
  cases verify decode token with
  | ok r => simp
  | error e => cases e <;> simp

/-! ## The audited answer -/

def ReachesAuth (py : Interp) (gw : Gateway) (request : Request) (requestId : Text) : Prop :=
  originGate py gw request (openRecord gw request requestId) = .ok () ∧
    lengthGate py gw request (openRecord gw request requestId) = .ok () ∧
    ∃ raw, readBody py gw request (openRecord gw request requestId) [] request.chunks = .ok raw

/-- A `TokenError` becomes one record and a 401. -/
theorem proxyMcp_tokenError {gw : Gateway} {request : Request} {requestId message : Text}
    {decode : Text → Except VerifyError DecodedClaims} (upstream : UpstreamRequest → Except Exc UpstreamResponse)
    (hgates : ReachesAuth py gw request requestId) (hauth : gw.settings.requireAuth = true)
    (hdecode : gw.verifier = some decode)
    (htoken : bearerToken py request ≠ []) (herror : verify decode (bearerToken py request) =
    .error (.tokenError message)) :
    proxyMcp py gw request upstream requestId =
      ⟨[], [((openRecord gw request requestId).decide .rejected (txt "invalid_token")).because message], 0,
        unauthorized py gw.settings (txt "invalid bearer token") (some (txt "invalid_token"))⟩ := by
  obtain ⟨horigin, hlength, raw, hraw⟩ := hgates
  have hstop : authenticate py gw request (openRecord gw request requestId) =
      .error ⟨[((openRecord gw request requestId).decide .rejected (txt "invalid_token")).because message],
        unauthorized py gw.settings (txt "invalid bearer token") (some (txt "invalid_token"))⟩ := by
    rw [authenticate, if_pos hauth, hdecode]
    dsimp only
    rw [if_neg (by simpa using htoken), herror]
  have hrefused : authorize py gw request requestId =
      .error ⟨[((openRecord gw request requestId).decide .rejected (txt "invalid_token")).because message],
        unauthorized py gw.settings (txt "invalid bearer token") (some (txt "invalid_token"))⟩ := by
    rw [authorize]
    refine bind_error.mpr (Or.inr ⟨(), horigin, ?_⟩)
    refine bind_error.mpr (Or.inr ⟨(), hlength, ?_⟩)
    refine bind_error.mpr (Or.inr ⟨raw, hraw, ?_⟩)
    exact bind_error.mpr (Or.inl hstop)
  rw [proxyMcp, hrefused]

/-! ## Over the key cache -/

variable {Tid : Type} [DecidableEq Tid] {cfg : CacheConfig} {keyId : Key → Option Value}
  {fromDict : Value → Except Thrown (List Key)} {start : ℚ} {s : Sys Tid Value Key Bytes}

/-- `resolve` gives what a call of `_resolve_key` has answered for the `kid`. -/
def AnsweredBy (s : Sys Tid Value Key Bytes) (kid : Text) (result : Except VerifyError Key) : Prop :=
  ∃ t a ground, .answered t (.resolve (.str kid)) a ground ∈ s.log ∧ resolved a = some result

/-- The fetch of the call ended with an exception that is no `Exception`. -/
def Escaped (s : Sys Tid Value Key Bytes) (kid : Text) (result : Except VerifyError Key) : Prop :=
  ∃ t e ground, .answered t (.resolve (.str kid)) (.thrown e) ground ∈ s.log ∧ e.caught = false ∧
    result = .error (.raised (.other e.cls))

theorem escaped_iff (h : Reachable (verifier cfg (parseJwks py keyId fromDict) start) (fun _ _ => True) s)
    {result : Except VerifyError Key} (hanswered : AnsweredBy s kid result) :
    (∃ e, result = .error (.raised e)) ↔ Escaped s kid result := by
  constructor
  · intro ⟨e, he⟩
    obtain ⟨t, a, ground, hmem, hresolved⟩ := hanswered
    rw [he] at hresolved
    have hresolving := mem_resolving h hmem
    cases hresolving with
    | key => cases hresolved
    | tokenError => cases hresolved
    | escaped hcaught =>
      cases hresolved
      exact ⟨t, _, ground, hmem, hcaught, he⟩
  · intro ⟨t, e, ground, _, _, hresult⟩
    exact ⟨_, hresult⟩

/-- Verification returns or raises a `TokenError` exactly when the key fits the algorithm that the header names,
and a `TokenError` is answered with an audited 401. -/
theorem verify_fails_iff (hj : Documented v jwt fits)
    (h : Reachable (verifier cfg (parseJwks py keyId fromDict) start) (fun _ _ => True) s)
    (hresolve : ∀ alg kid, Selects v jwt token alg kid → AnsweredBy s kid (resolve kid)) :
    (((∃ r, verify (decodeToken py v jwt resolve) token = .ok r) ∨
        ∃ message, verify (decodeToken py v jwt resolve) token = .error (.tokenError message)) ↔
      ∀ alg kid, Selects v jwt token alg kid →
        (∀ k, resolve kid = .ok k → fits (jwt.rawKey k) alg = true) ∧ ¬ Escaped s kid (resolve kid)) ∧
    ∀ gw request upstream requestId message, ReachesAuth py gw request requestId → gw.settings.requireAuth = true →
      gw.verifier = some (decodeToken py v jwt resolve) → bearerToken py request = token → token ≠ [] →
      verify (decodeToken py v jwt resolve) token = .error (.tokenError message) →
      ∃ record, (proxyMcp py gw request upstream requestId).emitted = [record] ∧ record.decision = .rejected ∧
        record.errorCode = some (txt "invalid_token") ∧ record.reason = some message ∧
        ∀ response, (proxyMcp py gw request upstream requestId).outcome = .ok response → response.status = 401 := by
  constructor
  · rw [verify_cases]
    by_cases hselects : ∃ alg kid, Selects v jwt token alg kid
    · obtain ⟨alg, kid, hselects⟩ := hselects
      rw [verify_raises_iff hj hselects, escaped_iff h (hresolve alg kid hselects)]
      constructor
      · intro hnot alg' kid' hselects'
        obtain ⟨rfl, rfl⟩ := selects_unique hselects hselects'
        rw [not_or] at hnot
        refine ⟨fun k hk => ?_, hnot.2⟩
        cases hfits : fits (jwt.rawKey k) alg with
        | true => rfl
        | false => exact absurd ⟨k, hk, hfits⟩ hnot.1
      · intro hall
        obtain ⟨hfits, hescaped⟩ := hall alg kid hselects
        rw [not_or]
        refine ⟨?_, hescaped⟩
        intro ⟨k, hk, hmismatch⟩
        rw [hfits k hk] at hmismatch
        cases hmismatch
    · have hnone : ∀ alg kid, ¬ Selects v jwt token alg kid := fun alg kid hs => hselects ⟨alg, kid, hs⟩
      refine iff_of_true ?_ fun alg kid hs => absurd hs (hnone alg kid)
      obtain ⟨message, hmessage⟩ := @decodeToken_unselected _ _ py v jwt resolve fits token hj hnone
      intro ⟨e, he⟩
      rw [verify_raised, hmessage] at he
      cases he
  · intro gw request upstream requestId message hgates hauth hverifier hbearer hne herror
    rw [← hbearer] at hne herror
    rw [proxyMcp_tokenError upstream hgates hauth hverifier hne herror]
    refine ⟨_, rfl, rfl, rfl, rfl, ?_⟩
    intro response hresponse
    exact (jsonResponse_names hresponse rfl).1

end

/-! ## An elliptic curve key and an RSA header -/

def twoAlgs : VerifierArgs where
  jwksUrl := txt "https://issuer.example/jwks"
  issuer := txt "https://issuer.example"
  audience := txt "mcp"
  algs := [txt "RS256", txt "ES256"]
  leeway := 30
  jwksUrl_ne := by decide
  algs_ne := by decide
  asymmetric_algs := by decide

def rsToken : Text := txt "eyJhbGciOiJSUzI1NiIsImtpZCI6ImsxIn0.e30."

def rsHeader : List (Text × Value) := [(txt "alg", .str (txt "RS256")), (txt "kid", .str (txt "k1"))]

def fitsCurve (_ : JwkDict) (alg : Text) : Bool := (txt "ES").isPrefixOf alg

def rsOnly : PyJwt JwkDict JwkDict where
  getUnverifiedHeader token := if token = rsToken then .ok rsHeader else
    .error (.pyJwtError (txt "Not enough segments"))
  rawKey key := key
  decode token key _ :=
    if token = rsToken && !fitsCurve key (txt "RS256") then .error (.other (txt "TypeError"))
    else .error (.pyJwtError (txt "Signature verification failed"))

theorem rsOnly_header (token : Text) : rsOnly.getUnverifiedHeader token =
    if token = rsToken then .ok rsHeader else .error (.pyJwtError (txt "Not enough segments")) := rfl

theorem rsToken_selects : Selects twoAlgs rsOnly rsToken (txt "RS256") (txt "k1") := by
  refine ⟨by decide, rsHeader, ?_, by decide, by decide, by decide, by decide⟩
  rw [rsOnly_header, if_pos rfl]

theorem rsOnly_selects {token alg kid : Text} (h : Selects twoAlgs rsOnly token alg kid) :
    token = rsToken ∧ alg = txt "RS256" ∧ kid = txt "k1" := by
  have htoken : token = rsToken := by
    obtain ⟨_, header, hheader, _⟩ := h
    by_contra hne
    rw [rsOnly_header, if_neg hne] at hheader
    cases hheader
  subst htoken
  obtain ⟨rfl, rfl⟩ := selects_unique h rsToken_selects
  exact ⟨rfl, rfl, rfl⟩

theorem rsOnly_documented : Documented twoAlgs rsOnly fitsCurve where
  header := by
    intro token e h
    rw [rsOnly_header] at h
    split at h <;> cases h
    exact ⟨_, rfl⟩
  mismatch := by
    intro token alg kid key h _
    obtain ⟨rfl, _, _⟩ := rsOnly_selects h
    rfl
  decode := by
    intro token alg kid key e h hfits _
    obtain ⟨_, rfl, _⟩ := rsOnly_selects h
    have hnot : fitsCurve key (txt "RS256") = false := rfl
    rw [hnot] at hfits
    cases hfits

def ecResolved : List (Event Nat Value Bytes) :=
  [.call 0 (.resolve (.str (txt "k1"))), .enter 0 0 0, .fetchStart 0 1, .fetchEnd 0 2 (.body ecJwks),
    .complete 0 3, .reread 0]

def answeredKey : Entry Nat Value JwkDict Bytes → Option JwkDict
  | .answered _ (.resolve (.str kid)) (.key k) _ => if kid = txt "k1" then some k else none
  | _ => none

theorem answeredKey_some {x : Entry Nat Value JwkDict Bytes} {k : JwkDict} (h : answeredKey x = some k) :
    ∃ t ground, x = .answered t (.resolve (.str (txt "k1"))) (.key k) ground := by
  unfold answeredKey at h
  split at h
  · split at h <;> cases h
    rename_i hkid
    subst hkid
    exact ⟨_, _, rfl⟩
  · cases h

theorem ec_resolved : ∃ s k, Reachable ecVerifier (fun _ _ => True) s ∧ AnsweredBy s (txt "k1") (.ok k) := by
  obtain ⟨s, hrun, hanswered⟩ : ∃ s, ecVerifier.run ecVerifier.init ecResolved = some s ∧
      (s.log.findSome? answeredKey).isSome = true := Machine.run_ends _ (by decide +kernel)
  obtain ⟨k, hk⟩ := Option.isSome_iff_exists.mp hanswered
  obtain ⟨x, hx, hkey⟩ := List.exists_of_findSome?_eq_some hk
  obtain ⟨t, ground, rfl⟩ := answeredKey_some hkey
  exact ⟨s, k, .run (fun _ _ => trivial) .init hrun, t, _, ground, hx, rfl⟩

theorem verify_fails_iff_curve : ∃ k, ¬ ((∃ r, verify (decodeToken .ascii twoAlgs rsOnly fun _ => .ok k) rsToken =
    .ok r) ∨
    ∃ message, verify (decodeToken .ascii twoAlgs rsOnly fun _ => .ok k) rsToken =
    .error (.tokenError message)) := by
  obtain ⟨s, k, hreach, hanswered⟩ := ec_resolved
  refine ⟨k, fun hfails => ?_⟩
  have hresolve : ∀ alg kid, Selects twoAlgs rsOnly rsToken alg kid → AnsweredBy s kid (.ok k) := by
    intro alg kid h
    obtain ⟨_, _, rfl⟩ := rsOnly_selects h
    exact hanswered
  have hall := (verify_fails_iff rsOnly_documented hreach hresolve).1.mp hfails
  have hfits := (hall _ _ rsToken_selects).1 k rfl
  revert hfits
  rw [fitsCurve]
  decide

/-- The elliptic curve key published as `k1` does not fit the header's `RS256`. -/
theorem curve_raises : ¬ ∀ (s : Sys Nat Value JwkDict Bytes) (resolve : Text → Except VerifyError JwkDict)
    (token : Text), Reachable ecVerifier (fun _ _ => True) s →
    (∀ alg kid, Selects twoAlgs rsOnly token alg kid → AnsweredBy s kid (resolve kid)) →
    (∃ r, verify (decodeToken .ascii twoAlgs rsOnly resolve) token = .ok r) ∨
      ∃ message, verify (decodeToken .ascii twoAlgs rsOnly resolve) token = .error (.tokenError message) := by
  intro h
  obtain ⟨s, k, hreach, hanswered⟩ := ec_resolved
  have hfails := h s (fun _ => .ok k) rsToken hreach
    (by
      intro alg kid hselects
      obtain ⟨_, _, rfl⟩ := rsOnly_selects hselects
      exact hanswered)
  rw [verify_cases] at hfails
  apply hfails
  refine (verify_raises_iff rsOnly_documented rsToken_selects).mpr (Or.inl ⟨k, rfl, ?_⟩)
  rw [fitsCurve]
  decide

end McpGateway
