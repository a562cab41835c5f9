import McpGateway.Python

/-!
# Settings and their validation

`validateRuntime` collects every problem of the settings it is given. Floats
are doubles as they are parsed, so an infinite interval is a valid one.
-/

namespace McpGateway

open Unicode Binary64 Json

structure HttpUrl where
  scheme : Text
  host : Option Text
  text : Text

structure Settings where
  host : Text
  port : Int
  upstreamUrl : HttpUrl
  issuer : Text
  audience : Text
  jwksUrl : Option HttpUrl
  allowInsecureJwks : Bool
  allowedAlgorithms : List Text
  leewaySeconds : Int
  jwksCacheTtl : Int
  jwksMinRefreshInterval : Float64
  scopePolicyFile : Option Text
  toolPolicyFile : Option Text
  allowedOrigins : List Text
  requireAuth : Bool
  upstreamTimeout : Float64
  connectTimeout : Option Float64
  readTimeout : Option Float64
  writeTimeout : Option Float64
  poolTimeout : Option Float64
  maxRequestBytes : Int
  maxResponseBytes : Int
  maxToolsListBytes : Int
  publicBaseUrl : Option Text

def Settings.default (upstreamUrl : HttpUrl) (issuer audience : Text) : Settings where
  host := txt "127.0.0.1"
  port := 8080
  upstreamUrl := upstreamUrl
  issuer := issuer
  audience := audience
  jwksUrl := none
  allowInsecureJwks := false
  allowedAlgorithms := [txt "RS256", txt "ES256"]
  leewaySeconds := 30
  jwksCacheTtl := 300
  jwksMinRefreshInterval := .ofRat false 10
  scopePolicyFile := none
  toolPolicyFile := none
  allowedOrigins := []
  requireAuth := true
  upstreamTimeout := .ofRat false 30
  connectTimeout := none
  readTimeout := none
  writeTimeout := none
  poolTimeout := none
  maxRequestBytes := 5 * 1024 * 1024
  maxResponseBytes := 10 * 1024 * 1024
  maxToolsListBytes := 1024 * 1024
  publicBaseUrl := none

/-! ## The checks -/

section
variable (py : Interp) (isFile : Text → Bool) (s : Settings)

def problem (fails : Bool) (message : Text) : List Text := if fails then [message] else []

def startsWith (s p : Text) : Bool := p.isPrefixOf s

def asymmetric (alg : Text) : Bool :=
  startsWith alg (txt "RS") || startsWith alg (txt "ES") || startsWith alg (txt "PS")

def algorithmProblems : List Text :=
  if s.allowedAlgorithms.isEmpty then [txt "GATEWAY_ALLOWED_ALGORITHMS must list at least one algorithm"]
  else
    let bad := s.allowedAlgorithms.filter fun a => !asymmetric a
    problem (!bad.isEmpty)
      (txt "GATEWAY_ALLOWED_ALGORITHMS may only contain asymmetric algorithms (RS*/ES*/PS*); rejected: " ++
        listRepr py.isPrintable bad)

def loopbackHosts : List Text := [txt "localhost", txt "127.0.0.1", txt "::1"]

def jwksProblems : List Text :=
  match s.jwksUrl with
  | none =>
    problem s.requireAuth
      (txt "GATEWAY_JWKS_URL is required when auth is enabled (or set GATEWAY_REQUIRE_AUTH=false for local dev)")
  | some url =>
    problem (s.requireAuth && url.scheme != txt "https" && !s.allowInsecureJwks)
      (txt "GATEWAY_JWKS_URL must use https:// when auth is enabled (set GATEWAY_ALLOW_INSECURE_JWKS=true only for local development)") ++
    problem (s.requireAuth && url.scheme != txt "https" && s.allowInsecureJwks &&
        !(loopbackHosts.any fun h => url.host == some h))
      (txt "GATEWAY_ALLOW_INSECURE_JWKS may only be used with a loopback JWKS host")

def missingFile (name : Text) (file : Option Text) : List Text :=
  match file with
  | none => []
  | some path => problem (!path.isEmpty && !isFile path) (name ++ txt " points to a missing file: " ++ path)

/-- A number under its bound; `got` is the number's repr. -/
def belowBound (fails : Bool) (rule got : Text) : List Text := problem fails (rule ++ txt ", got " ++ got)

def numberProblems : List Text :=
  belowBound (!(0 < s.port && s.port < 65536)) (txt "GATEWAY_PORT must be between 1 and 65535") (intRepr s.port) ++
  belowBound (s.leewaySeconds < 0) (txt "GATEWAY_LEEWAY_SECONDS must be >= 0") (intRepr s.leewaySeconds) ++
  belowBound (s.jwksCacheTtl < 0) (txt "GATEWAY_JWKS_CACHE_TTL must be >= 0") (intRepr s.jwksCacheTtl) ++
  belowBound s.jwksMinRefreshInterval.isNeg (txt "GATEWAY_JWKS_MIN_REFRESH_INTERVAL must be >= 0")
    (floatRepr s.jwksMinRefreshInterval) ++
  belowBound (s.maxRequestBytes < 0) (txt "GATEWAY_MAX_REQUEST_BYTES must be >= 0 (0 disables the limit)")
    (intRepr s.maxRequestBytes) ++
  belowBound (s.maxResponseBytes < 0) (txt "GATEWAY_MAX_RESPONSE_BYTES must be >= 0 (0 disables the limit)")
    (intRepr s.maxResponseBytes) ++
  belowBound (s.maxToolsListBytes ≤ 0) (txt "GATEWAY_MAX_TOOLS_LIST_BYTES must be > 0")
    (intRepr s.maxToolsListBytes) ++
  problem (0 < s.maxResponseBytes && s.maxResponseBytes ≤ s.maxToolsListBytes)
    (txt "GATEWAY_MAX_TOOLS_LIST_BYTES must be smaller than GATEWAY_MAX_RESPONSE_BYTES") ++
  belowBound s.upstreamTimeout.isNonpos (txt "GATEWAY_UPSTREAM_TIMEOUT must be > 0") (floatRepr s.upstreamTimeout)

def timeoutProblem (name : Text) (value : Option Float64) : List Text :=
  match value with
  | none => []
  | some x => belowBound x.isNonpos (name ++ txt " must be > 0 when set") (floatRepr x)

def timeoutProblems : List Text :=
  timeoutProblem (txt "GATEWAY_CONNECT_TIMEOUT") s.connectTimeout ++
  timeoutProblem (txt "GATEWAY_READ_TIMEOUT") s.readTimeout ++
  timeoutProblem (txt "GATEWAY_WRITE_TIMEOUT") s.writeTimeout ++
  timeoutProblem (txt "GATEWAY_POOL_TIMEOUT") s.poolTimeout

def afterScheme (v : Text) : Option Text :=
  if startsWith v (txt "http://") then some (v.drop 7)
  else if startsWith v (txt "https://") then some (v.drop 8)
  else none

def originProblem (o : Text) : List Text :=
  let v := py.lower (rstrip (· == ch '/') (strip o))
  if v = txt "null" then []
  else
    match afterScheme v with
    | none =>
      belowBound true
        (txt "GATEWAY_ALLOWED_ORIGINS entries must start with http:// or https:// (or be the literal \"null\")")
        (strRepr py.isPrintable o)
    | some rest =>
      belowBound (rest.any (· == ch '/')) (txt "GATEWAY_ALLOWED_ORIGINS entries must not contain a path")
        (strRepr py.isPrintable o)

def baseUrlProblem : List Text :=
  match s.publicBaseUrl with
  | none => []
  | some url =>
    belowBound (!url.isEmpty && (afterScheme url).isNone)
      (txt "GATEWAY_PUBLIC_BASE_URL must start with http:// or https:// when set") (strRepr py.isPrintable url)

def problems : List Text :=
  problem (strip s.issuer).isEmpty (txt "GATEWAY_ISSUER must not be empty") ++
  problem (strip s.audience).isEmpty (txt "GATEWAY_AUDIENCE must not be empty") ++
  algorithmProblems py s ++ jwksProblems s ++
  missingFile isFile (txt "GATEWAY_SCOPE_POLICY_FILE") s.scopePolicyFile ++
  missingFile isFile (txt "GATEWAY_TOOL_POLICY_FILE") s.toolPolicyFile ++
  numberProblems s ++ timeoutProblems s ++ s.allowedOrigins.flatMap (originProblem py) ++ baseUrlProblem py s

structure ConfigError where
  problems : List Text
  deriving DecidableEq

def ConfigError.message (e : ConfigError) : Text :=
  txt "invalid gateway configuration:\n" ++ [ch '\n'].intercalate (e.problems.map fun p => txt "  - " ++ p)

def validateRuntime : Except ConfigError Unit :=
  if (problems py isFile s).isEmpty then .ok () else .error ⟨problems py isFile s⟩

end

/-! ## Every problem names its setting -/

theorem mem_problem {fails : Bool} {message p : Text} (h : p ∈ problem fails message) : fails = true ∧
    p = message := by
  unfold problem at h
  split at h
  · rename_i hf
    exact ⟨hf, List.mem_singleton.mp h⟩
  · cases h

theorem startsWith_append {a b p : Text} (h : startsWith a p = true) : startsWith (a ++ b) p = true := by
  rw [startsWith, List.isPrefixOf_iff_prefix] at *
  exact h.trans (List.prefix_append a b)

section
variable {py : Interp} {isFile : Text → Bool} {s : Settings} {p : Text}

theorem problem_named {fails : Bool} {message : Text} (hm : startsWith message (txt "GATEWAY_") = true)
    (h : p ∈ problem fails message) : startsWith p (txt "GATEWAY_") = true := by
  rw [(mem_problem h).2]
  exact hm

theorem belowBound_named {fails : Bool} {rule got : Text} (hm : startsWith rule (txt "GATEWAY_") = true)
    (h : p ∈ belowBound fails rule got) : startsWith p (txt "GATEWAY_") = true :=
  problem_named (startsWith_append (startsWith_append hm)) h

theorem missingFile_named {name : Text} {file : Option Text} (hm : startsWith name (txt "GATEWAY_") = true)
    (h : p ∈ missingFile isFile name file) : startsWith p (txt "GATEWAY_") = true := by
  unfold missingFile at h
  split at h
  · cases h
  · exact problem_named (startsWith_append (startsWith_append hm)) h

theorem timeoutProblem_named {name : Text} {value : Option Float64} (hm : startsWith name (txt "GATEWAY_") = true)
    (h : p ∈ timeoutProblem name value) : startsWith p (txt "GATEWAY_") = true := by
  unfold timeoutProblem at h
  split at h
  · cases h
  · exact belowBound_named (startsWith_append hm) h

theorem algorithmProblems_named (h : p ∈ algorithmProblems py s) : startsWith p (txt "GATEWAY_") = true := by
  unfold algorithmProblems at h
  split at h
  · rw [List.mem_singleton.mp h]
    decide +kernel
  · exact problem_named (startsWith_append (by decide +kernel)) h

theorem jwksProblems_named (h : p ∈ jwksProblems s) : startsWith p (txt "GATEWAY_") = true := by
  unfold jwksProblems at h
  split at h
  · exact problem_named (by decide +kernel) h
  · rcases List.mem_append.mp h with h | h
    · exact problem_named (by decide +kernel) h
    · exact problem_named (by decide +kernel) h

theorem originProblem_named {o : Text} (h : p ∈ originProblem py o) : startsWith p (txt "GATEWAY_") = true := by
  unfold originProblem at h
  dsimp only at h
  split at h
  · cases h
  · split at h
    · exact belowBound_named (by decide +kernel) h
    · exact belowBound_named (by decide +kernel) h

theorem baseUrlProblem_named (h : p ∈ baseUrlProblem py s) : startsWith p (txt "GATEWAY_") = true := by
  unfold baseUrlProblem at h
  split at h
  · cases h
  · exact belowBound_named (by decide +kernel) h

theorem numberProblems_named (h : p ∈ numberProblems s) : startsWith p (txt "GATEWAY_") = true := by
  simp only [numberProblems, List.mem_append] at h
  rcases h with (((((((h | h) | h) | h) | h) | h) | h) | h) | h
  · exact belowBound_named (by decide +kernel) h
  · exact belowBound_named (by decide +kernel) h
  · exact belowBound_named (by decide +kernel) h
  · exact belowBound_named (by decide +kernel) h
  · exact belowBound_named (by decide +kernel) h
  · exact belowBound_named (by decide +kernel) h
  · exact belowBound_named (by decide +kernel) h
  · exact problem_named (by decide +kernel) h
  · exact belowBound_named (by decide +kernel) h

theorem problems_named (h : p ∈ problems py isFile s) : startsWith p (txt "GATEWAY_") = true := by
  simp only [problems, timeoutProblems, List.mem_append, List.mem_flatMap] at h
  rcases h with ((((((((h | h) | h) | h) | h) | h) | h) | h) | ⟨o, _, h⟩) | h
  · exact problem_named (by decide +kernel) h
  · exact problem_named (by decide +kernel) h
  · exact algorithmProblems_named h
  · exact jwksProblems_named h
  · exact missingFile_named (by decide +kernel) h
  · exact missingFile_named (by decide +kernel) h
  · exact numberProblems_named h
  · rcases h with ((h | h) | h) | h
    · exact timeoutProblem_named (by decide +kernel) h
    · exact timeoutProblem_named (by decide +kernel) h
    · exact timeoutProblem_named (by decide +kernel) h
    · exact timeoutProblem_named (by decide +kernel) h
  · exact originProblem_named h
  · exact baseUrlProblem_named h

/-! ## Accepted settings -/

theorem validateRuntime_ok (h : validateRuntime py isFile s = .ok ()) : problems py isFile s = [] := by
  unfold validateRuntime at h
  split at h
  · rename_i hp
    exact List.isEmpty_iff.mp hp
  · cases h

/-- The defaults pass, given an issuer, an audience and a JWKS endpoint over https. -/
theorem default_valid (upstreamUrl url : HttpUrl) {issuer audience : Text} (hi : (strip issuer).isEmpty = false)
    (ha : (strip audience).isEmpty = false) (hu : url.scheme = txt "https") :
    validateRuntime py isFile { Settings.default upstreamUrl issuer audience with jwksUrl := some url } =
    .ok () := by
  have hupstream : (Float64.ofRat false 30).isNonpos = false := by decide +kernel
  have hinterval : (Float64.ofRat false 10).isNeg = false := by decide +kernel
  have halg : [txt "RS256", txt "ES256"].filter (fun a => !asymmetric a) = [] := by decide
  simp [validateRuntime, problems, problem, algorithmProblems, jwksProblems, missingFile,
    numberProblems, belowBound,
    timeoutProblems, timeoutProblem, baseUrlProblem, Settings.default, hi, ha, hu, hupstream, hinterval, halg]

theorem validateRuntime_bounds (h : validateRuntime py isFile s = .ok ()) :
    0 ≤ s.jwksCacheTtl ∧ s.jwksMinRefreshInterval.isNeg = false ∧ 0 ≤ s.maxRequestBytes ∧ 0 ≤ s.maxResponseBytes ∧
      0 < s.maxToolsListBytes := by
  have hn : numberProblems s = [] := by
    have := validateRuntime_ok h
    simp only [problems, List.append_eq_nil_iff] at this
    exact this.1.1.1.2
  simp only [numberProblems, belowBound, problem, List.append_eq_nil_iff, ite_eq_right_iff,
    List.cons_ne_nil, imp_false, decide_eq_true_eq, not_lt, not_le, Bool.not_eq_true] at hn
  obtain ⟨⟨⟨⟨⟨⟨⟨_, httl⟩, hint⟩, hreq⟩, hresp⟩, htools⟩, _⟩, _⟩ := hn
  exact ⟨httl, hint, hreq, hresp, htools⟩

end

end McpGateway
