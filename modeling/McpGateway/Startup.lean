import McpGateway.Halts
import McpGateway.Outage
import McpGateway.PolicyFiles
import McpGateway.Service

/-!
# Startup

`build` validates the parsed settings, loads the policy files that they name
and makes the verifier. An application that it returns has the verifier that
its gates and its probe need.
-/

namespace McpGateway

open Unicode Binary64 Json

/-! ## The builtin policy -/

def ScopePolicy.builtin : ScopePolicy where
  rules := [(txt "initialize", ∅), (txt "ping", ∅), (txt "notifications/", ∅), (txt "tools/list", {txt "mcp:read"}),
    (txt "tools/call", {txt "mcp:invoke"}), (txt "resources/", {txt "mcp:read"}),
      (txt "prompts/", {txt "mcp:read"}),
    (txt "completion/complete", {txt "mcp:invoke"}), (txt "logging/setLevel", {txt "mcp:invoke"})]
  default := ∅
  denyByDefault := true
  distinct := by decide

def Lifecycle (method : Text) : Prop :=
  method = txt "initialize" ∨ method = txt "ping" ∨ startsWith method (txt "notifications/") = true

def ReadShaped (method : Text) : Prop :=
  method = txt "tools/list" ∨ startsWith method (txt "resources/") = true ∨
    startsWith method (txt "prompts/") = true

def Invoking (method : Text) : Prop :=
  method = txt "tools/call" ∨ method = txt "completion/complete" ∨ method = txt "logging/setLevel"

def ScopePolicy.Flat (policy : ScopePolicy) : Prop :=
  ∀ key ∈ policy.rules.map Prod.fst, ∀ key' ∈ policy.rules.map Prod.fst, prefixKey key' key = true → key' = key

section
variable {policy : ScopePolicy} {method : Text}

theorem ruled_flat (hflat : policy.Flat) {required : Finset Text} :
    policy.Ruled method required ↔ ∃ key, (key, required) ∈ policy.rules ∧
    (method = key ∨ prefixKey method key = true) := by
  constructor
  · intro h
    cases h with
    | exact hmem => exact ⟨method, hmem, Or.inl rfl⟩
    | @longest best _ _ hbest hmem => exact ⟨best, hmem, Or.inr hbest.isPrefix⟩
  · rintro ⟨key, hmem, rfl | hp⟩
    · exact .exact hmem
    · have hkey : key ∈ policy.rules.map Prod.fst := List.mem_map_of_mem hmem
      by_cases hm : method ∈ policy.rules.map Prod.fst
      · have heq : method = key := hflat key hkey method hm hp
        rw [← heq] at hmem
        exact .exact hmem
      · refine .longest hm ⟨hkey, hp, fun key' hkey' hp' hne => ?_⟩ hmem
        by_contra hlen
        -- The longer of two prefix keys of one method would be covered by the shorter.
        obtain ⟨hslash, hpre⟩ := (Bool.and_eq_true ..).mp hp
        have hpre' := ((Bool.and_eq_true ..).mp hp').2
        rw [List.isPrefixOf_iff_prefix] at hpre hpre'
        have hcovered : key <+: key' := List.prefix_of_prefix_length_le hpre hpre' (Nat.not_lt.mp hlen)
        have hp'' : prefixKey key' key = true := by
          rw [prefixKey, hslash, List.isPrefixOf_iff_prefix.mpr hcovered]
          rfl
        exact hne (hflat key hkey key' hkey' hp'')

theorem builtin_flat : ScopePolicy.builtin.Flat := by
  unfold ScopePolicy.Flat
  decide

theorem builtin_asked {required : Finset Text} : ScopePolicy.builtin.asked method = some required ↔
    ∃ key, (key, required) ∈ ScopePolicy.builtin.rules ∧ (method = key ∨ prefixKey method key = true) := by
  rw [← ruled_flat builtin_flat, asked_iff]
  constructor
  · intro h
    cases h with
    | rule h => exact h
    | fallback _ hopen => exact absurd ⟨rfl, rfl⟩ hopen
  · exact .rule

theorem covers_slash {key : Text} (hslash : [ch '/'].isSuffixOf key = true) :
    method = key ∨ prefixKey method key = true ↔ startsWith method key = true := by
  have hp : prefixKey method key = startsWith method key := by
    rw [prefixKey, hslash]
    rfl
  rw [hp, or_iff_right_iff_imp]
  rintro rfl
  exact List.isPrefixOf_iff_prefix.mpr (List.prefix_refl _)

theorem covers_exact {key : Text} (hslash : [ch '/'].isSuffixOf key = false) :
    method = key ∨ prefixKey method key = true ↔ method = key := by
  rw [prefixKey, hslash]
  simp

theorem builtin_rules {key : Text} {required : Finset Text} : (key, required) ∈ ScopePolicy.builtin.rules ↔
    (key = txt "initialize" ∨ key = txt "ping" ∨ key = txt "notifications/") ∧ required = ∅ ∨
      (key = txt "tools/list" ∨ key = txt "resources/" ∨ key = txt "prompts/") ∧ required = {txt "mcp:read"} ∨
      (key = txt "tools/call" ∨ key = txt "completion/complete" ∨ key = txt "logging/setLevel") ∧
        required = {txt "mcp:invoke"} := by
  simp only [ScopePolicy.builtin, List.mem_cons, List.not_mem_nil, Prod.mk.injEq, or_false, or_and_right]
  refine iff_of_eq ?_
  ac_rfl

/-- The builtin policy lets lifecycle methods through, the others by one scope each, and nothing else. -/
theorem builtin_allows_iff (py : Interp) (method : Text) (held : Finset Text) :
    (ScopePolicy.builtin.check py method held).allowed = true ↔
      Lifecycle method ∨ ReadShaped method ∧ txt "mcp:read" ∈ held ∨ Invoking method ∧ txt "mcp:invoke" ∈ held := by
  have hlifecycle : Lifecycle method ↔ ∃ key,
      (key = txt "initialize" ∨ key = txt "ping" ∨ key = txt "notifications/") ∧
      (method = key ∨ prefixKey method key = true) := by
    simp only [or_and_right, exists_or, exists_eq_left]
    rw [covers_exact (by decide), covers_exact (by decide), covers_slash (by decide), Lifecycle]
  have hread : ReadShaped method ↔ ∃ key, (key = txt "tools/list" ∨ key = txt "resources/" ∨ key = txt "prompts/") ∧
      (method = key ∨ prefixKey method key = true) := by
    simp only [or_and_right, exists_or, exists_eq_left]
    rw [covers_exact (by decide), covers_slash (by decide), covers_slash (by decide), ReadShaped]
  have hinvoking : Invoking method ↔ ∃ key,
      (key = txt "tools/call" ∨ key = txt "completion/complete" ∨ key = txt "logging/setLevel") ∧
        (method = key ∨ prefixKey method key = true) := by
    simp only [or_and_right, exists_or, exists_eq_left]
    rw [covers_exact (by decide), covers_exact (by decide), covers_exact (by decide), Invoking]
  rw [check_allowed, hlifecycle, hread, hinvoking]
  simp only [builtin_asked, builtin_rules]
  constructor
  · rintro ⟨required, ⟨key, ⟨hkey, rfl⟩ | ⟨hkey, rfl⟩ | ⟨hkey, rfl⟩, hcovers⟩, hheld⟩
    · exact Or.inl ⟨key, hkey, hcovers⟩
    · exact Or.inr (Or.inl ⟨⟨key, hkey, hcovers⟩, Finset.singleton_subset_iff.mp hheld⟩)
    · exact Or.inr (Or.inr ⟨⟨key, hkey, hcovers⟩, Finset.singleton_subset_iff.mp hheld⟩)
  · rintro (⟨key, hkey, hcovers⟩ | ⟨⟨key, hkey, hcovers⟩, hheld⟩ | ⟨⟨key, hkey, hcovers⟩, hheld⟩)
    · exact ⟨∅, ⟨key, Or.inl ⟨hkey, rfl⟩, hcovers⟩, Finset.empty_subset _⟩
    · exact ⟨_, ⟨key, Or.inr (Or.inl ⟨hkey, rfl⟩), hcovers⟩, Finset.singleton_subset_iff.mpr hheld⟩
    · exact ⟨_, ⟨key, Or.inr (Or.inr ⟨hkey, rfl⟩), hcovers⟩, Finset.singleton_subset_iff.mpr hheld⟩

end

/-! ## Building -/

/-- The regular files, and what is read from a path; `none` is an `OSError`. -/
structure Disk where
  isFile : Text → Bool
  read : Text → Option Bytes

inductive StartupError
  | validation
  | config (e : ConfigError)
  | os
  | file (e : FileError)
  | value (message : Text)

inductive Ending
  | serves (app : App)
  | exits (code : Nat) (stderr : Text)
  | raises (e : StartupError)

def named (file : Option Text) : Option Text := file.filter fun path => !path.isEmpty

section
variable (py : Interp) (disk : Disk)

/-- `load_settings`, from what pydantic parses; `none` is its `ValidationError`. -/
def loadSettings (parsed : Option Settings) : Except StartupError Settings :=
  match parsed with
  | none => .error .validation
  | some s =>
    match validateRuntime py disk.isFile s with
    | .error e => .error (.config e)
    | .ok () => .ok s

def fromPath {Policy : Type} (load : Bytes → Except FileError Policy) (path : Text) : Except StartupError Policy :=
  match disk.read path with
  | none => .error .os
  | some file =>
    match load file with
    | .error e => .error (.file e)
    | .ok policy => .ok policy

def buildPolicy (s : Settings) : Except StartupError ScopePolicy :=
  match named s.scopePolicyFile with
  | some path => fromPath disk (ScopePolicy.fromFile py) path
  | none => .ok .builtin

def buildToolPolicy (s : Settings) : Except StartupError (Option ToolPolicy) :=
  match named s.toolPolicyFile with
  | some path => (fromPath disk (ToolPolicy.fromFile py) path).map some
  | none => .ok none

def jwksText (s : Settings) : Text :=
  match s.jwksUrl with
  | some url => url.text
  | none => txt "None"

def buildVerifier (s : Settings) : Except StartupError (Option VerifierArgs) :=
  if s.requireAuth then
    match newVerifier py (jwksText s) s.issuer s.audience s.allowedAlgorithms s.leewaySeconds with
    | .error message => .error (.value message)
    | .ok v => .ok (some v)
  else .ok none

def build (parsed : Option Settings) : Except StartupError App := do
  let s ← loadSettings py disk parsed
  let policy ← buildPolicy py disk s
  let toolPolicy ← buildToolPolicy py disk s
  let verifier ← buildVerifier py s
  return ⟨s, verifier, policy, toolPolicy⟩

/-- `main`: only a `ConfigError` is caught. -/
def main (parsed : Option Settings) : Ending :=
  match build py disk parsed with
  | .ok app => .serves app
  | .error (.config e) => .exits 2 (txt "error: " ++ e.message ++ [ch '\n'])
  | .error e => .raises e

structure Timeout where
  connect : Float64
  read : Float64
  write : Float64
  pool : Float64

def buildTimeout (s : Settings) : Timeout where
  connect := s.connectTimeout.getD s.upstreamTimeout
  read := s.readTimeout.getD s.upstreamTimeout
  write := s.writeTimeout.getD s.upstreamTimeout
  pool := s.poolTimeout.getD s.upstreamTimeout

def fetchJwks {Raw : Type} (jwksUrl : Text) (urlopen : Text → Fetched Raw) : Fetched Raw :=
  if startsWith (py.lower jwksUrl) (txt "http://") || startsWith (py.lower jwksUrl) (txt "https://")
    then urlopen jwksUrl
  else .tokenError (txt "refusing non-http(s) JWKS URL scheme: " ++ strRepr py.isPrintable jwksUrl)

end

/-! ## What pydantic promises -/

/-- A URL as pydantic parses it: http or https, with an ASCII text that starts with the scheme. -/
structure HttpUrl.Written (url : HttpUrl) : Prop where
  scheme : url.scheme = txt "http" ∨ url.scheme = txt "https"
  text : ∃ rest, url.text = url.scheme ++ txt "://" ++ rest
  ascii : ∀ c ∈ url.text, c.val < 0x80

def Settings.Written (s : Settings) : Prop := ∀ url, s.jwksUrl = some url → url.Written

section
variable {url : HttpUrl}

theorem HttpUrl.Written.nonempty (h : url.Written) : url.text ≠ [] := by
  obtain ⟨rest, hrest⟩ := h.text
  rw [hrest]
  obtain hs | hs := h.scheme
  · rw [hs]
    simp [txt]
  · rw [hs]
    simp [txt]

/-- The guard of the fetch lets such a URL through. -/
theorem HttpUrl.Written.fetched (h : url.Written) (py : Interp) {Raw : Type} (urlopen : Text → Fetched Raw) :
    fetchJwks py url.text urlopen = urlopen url.text := by
  have hlower : py.lower url.text = url.text.map asciiLower := py.lower_ascii _ h.ascii
  obtain ⟨rest, hrest⟩ := h.text
  have hguard : (startsWith (py.lower url.text) (txt "http://") || startsWith (py.lower url.text)
      (txt "https://")) = true := by
    rw [hlower, hrest, Bool.or_eq_true]
    obtain hs | hs := h.scheme
    · refine Or.inl ?_
      rw [hs, List.map_append]
      exact startsWith_append (by decide)
    · refine Or.inr ?_
      rw [hs, List.map_append]
      exact startsWith_append (by decide)
  rw [fetchJwks, if_pos hguard]

end

/-! ## Valid settings -/

section
variable {py : Interp} {disk : Disk} {s : Settings} {parsed : Option Settings} {app : App}

theorem problems_algorithms (h : problems py disk.isFile s = []) :
    s.allowedAlgorithms ≠ [] ∧ ∀ alg ∈ s.allowedAlgorithms, asymmetric alg = true := by
  have halg : algorithmProblems py s = [] := by
    simp only [problems, List.append_eq_nil_iff] at h
    exact h.1.1.1.1.1.1.1.2
  unfold algorithmProblems at halg
  split at halg
  · cases halg
  · rename_i hne
    refine ⟨fun he => hne (by rw [he]; rfl), fun alg hmem => ?_⟩
    by_contra hbad
    have hfilter : alg ∈ s.allowedAlgorithms.filter fun a => !asymmetric a :=
      List.mem_filter.mpr ⟨hmem, by simpa using hbad⟩
    rw [problem, if_pos] at halg
    · cases halg
    · simp only [Bool.not_eq_true', List.isEmpty_eq_false_iff]
      exact List.ne_nil_of_mem hfilter

theorem problems_jwks (h : problems py disk.isFile s = []) (hauth : s.requireAuth = true) :
    ∃ url, s.jwksUrl = some url ∧
      (url.scheme = txt "https" ∨ s.allowInsecureJwks = true ∧ ∃ host ∈ loopbackHosts, url.host = some host) := by
  have hjwks : jwksProblems s = [] := by
    simp only [problems, List.append_eq_nil_iff] at h
    exact h.1.1.1.1.1.1.2
  unfold jwksProblems at hjwks
  split at hjwks
  · rw [problem, if_pos hauth] at hjwks
    cases hjwks
  · rename_i url hurl
    refine ⟨url, hurl, ?_⟩
    simp only [problem, List.append_eq_nil_iff, ite_eq_right_iff, List.cons_ne_nil, imp_false, hauth,
      Bool.true_and] at hjwks
    obtain ⟨hplain, hremote⟩ := hjwks
    by_cases hs : url.scheme = txt "https"
    · exact Or.inl hs
    · have hallow : s.allowInsecureJwks = true := by simpa [hs] using hplain
      refine Or.inr ⟨hallow, ?_⟩
      simpa [hs, hallow] using hremote

theorem timeoutProblem_nil {name : Text} {value : Option Float64} {base : Float64} (hbase : base.isNonpos = false)
    (h : timeoutProblem name value = []) : (value.getD base).isNonpos = false := by
  cases value with
  | none => exact hbase
  | some x =>
    rw [timeoutProblem, belowBound, problem, ite_eq_right_iff] at h
    exact Bool.eq_false_iff.mpr fun hx => absurd (h hx) (List.cons_ne_nil _ _)

theorem buildTimeout_positive (h : problems py disk.isFile s = []) :
    (buildTimeout s).connect.isNonpos = false ∧ (buildTimeout s).read.isNonpos = false ∧
      (buildTimeout s).write.isNonpos = false ∧ (buildTimeout s).pool.isNonpos = false := by
  simp only [problems, numberProblems, timeoutProblems, List.append_eq_nil_iff] at h
  obtain ⟨⟨⟨⟨_, _, hupstream⟩, ⟨⟨hconnect, hread⟩, hwrite⟩, hpool⟩, _⟩, _⟩ := h
  have hbase : s.upstreamTimeout.isNonpos = false := by
    rw [belowBound, problem, ite_eq_right_iff] at hupstream
    exact Bool.eq_false_iff.mpr fun hx => absurd (hupstream hx) (List.cons_ne_nil _ _)
  exact ⟨timeoutProblem_nil hbase hconnect, timeoutProblem_nil hbase hread, timeoutProblem_nil hbase hwrite,
    timeoutProblem_nil hbase hpool⟩

/-- The constructor of the verifier does not raise for valid settings. -/
theorem buildVerifier_valid (hvalid : problems py disk.isFile s = []) (hwritten : s.Written) :
    ∃ v, buildVerifier py s = .ok v ∧ (v.isSome = s.requireAuth) := by
  by_cases hauth : s.requireAuth = true
  · obtain ⟨halgs, hasym⟩ := problems_algorithms hvalid
    obtain ⟨url, hurl, _⟩ := problems_jwks hvalid hauth
    have htext : jwksText s ≠ [] := by
      rw [jwksText, hurl]
      exact (hwritten url hurl).nonempty
    obtain ⟨v, hnew⟩ : ∃ v, newVerifier py (jwksText s) s.issuer s.audience s.allowedAlgorithms s.leewaySeconds =
        .ok v :=
      ⟨⟨jwksText s, s.issuer, s.audience, s.allowedAlgorithms, s.leewaySeconds, htext, halgs, hasym⟩,
        newVerifier_ok.mpr ⟨rfl, rfl, rfl, rfl, rfl⟩⟩
    refine ⟨some v, ?_, hauth.symm⟩
    rw [buildVerifier, if_pos hauth, hnew]
  · refine ⟨none, if_neg hauth, ?_⟩
    simpa using hauth

structure Built (py : Interp) (disk : Disk) (app : App) : Prop where
  valid : problems py disk.isFile app.settings = []
  policy : buildPolicy py disk app.settings = .ok app.policy
  toolPolicy : buildToolPolicy py disk app.settings = .ok app.toolPolicy
  verifier : buildVerifier py app.settings = .ok app.verifier

theorem loadSettings_ok :
    loadSettings py disk parsed = .ok s ↔ parsed = some s ∧ problems py disk.isFile s = [] := by
  constructor
  · intro h
    unfold loadSettings at h
    split at h
    · cases h
    · split at h
      · cases h
      · rename_i hv
        cases h
        exact ⟨rfl, validateRuntime_ok hv⟩
  · rintro ⟨rfl, hp⟩
    rw [loadSettings, validateRuntime, hp]
    rfl

theorem build_ok : build py disk parsed = .ok app ↔ parsed = some app.settings ∧ Built py disk app := by
  constructor
  · intro h
    rw [build] at h
    obtain ⟨s, hs, h⟩ := bind_ok.mp h
    obtain ⟨policy, hpolicy, h⟩ := bind_ok.mp h
    obtain ⟨toolPolicy, htools, h⟩ := bind_ok.mp h
    obtain ⟨verifier, hverifier, h⟩ := bind_ok.mp h
    cases h
    obtain ⟨hparsed, hvalid⟩ := loadSettings_ok.mp hs
    exact ⟨hparsed, hvalid, hpolicy, htools, hverifier⟩
  · rintro ⟨hparsed, h⟩
    rw [build]
    refine bind_ok.mpr ⟨_, loadSettings_ok.mpr ⟨hparsed, h.valid⟩, ?_⟩
    refine bind_ok.mpr ⟨_, h.policy, bind_ok.mpr ⟨_, h.toolPolicy, bind_ok.mpr ⟨_, h.verifier, rfl⟩⟩⟩

def Loads {Policy : Type} (disk : Disk) (load : Bytes → Except FileError Policy) (file : Option Text) : Prop :=
  ∀ path, named file = some path → ∃ bytes policy, disk.read path = some bytes ∧ load bytes = .ok policy

theorem fromPath_ok {Policy : Type} {load : Bytes → Except FileError Policy} {path : Text} {policy : Policy} :
    fromPath disk load path = .ok policy ↔ ∃ bytes, disk.read path = some bytes ∧ load bytes = .ok policy := by
  unfold fromPath
  cases disk.read path with
  | none => simp
  | some bytes =>
    dsimp only
    cases hl : load bytes with
    | error e => simp [hl]
    | ok policy' => simp [hl]

def StartupError.ofFile : StartupError → Prop
  | .os => True
  | .file _ => True
  | _ => False

theorem fromPath_error {Policy : Type} {load : Bytes → Except FileError Policy} {path : Text} {e : StartupError}
    (h : fromPath disk load path = .error e) : e.ofFile := by
  unfold fromPath at h
  split at h
  · cases h
    trivial
  · split at h
    · cases h
      trivial
    · cases h

theorem buildPolicy_loads : (∃ policy, buildPolicy py disk s = .ok policy) ↔
    Loads disk (ScopePolicy.fromFile py) s.scopePolicyFile := by
  unfold buildPolicy Loads
  cases named s.scopePolicyFile with
  | none => simp
  | some path =>
    simp only [fromPath_ok, Option.some.injEq, forall_eq']
    exact exists_comm

theorem buildToolPolicy_loads : (∃ policy, buildToolPolicy py disk s = .ok policy) ↔
    Loads disk (ToolPolicy.fromFile py) s.toolPolicyFile := by
  unfold buildToolPolicy Loads
  cases named s.toolPolicyFile with
  | none => simp
  | some path =>
    simp only [Option.some.injEq, forall_eq']
    constructor
    · rintro ⟨policy, h⟩
      cases hf : fromPath disk (ToolPolicy.fromFile py) path with
      | error e =>
        rw [hf] at h
        cases h
      | ok policy' =>
        obtain ⟨bytes, hread, hload⟩ := fromPath_ok.mp hf
        exact ⟨bytes, policy', hread, hload⟩
    · rintro ⟨bytes, policy, hread, hload⟩
      refine ⟨some policy, ?_⟩
      rw [fromPath_ok.mpr ⟨bytes, hread, hload⟩]
      rfl

theorem buildPolicy_error {e : StartupError} (h : buildPolicy py disk s = .error e) : e.ofFile := by
  unfold buildPolicy at h
  split at h
  · exact fromPath_error h
  · cases h

theorem buildToolPolicy_error {e : StartupError} (h : buildToolPolicy py disk s = .error e) : e.ofFile := by
  unfold buildToolPolicy at h
  split at h
  · rename_i path _
    cases hf : fromPath disk (ToolPolicy.fromFile py) path with
    | error e' =>
      rw [hf] at h
      cases h
      exact fromPath_error hf
    | ok policy =>
      rw [hf] at h
      cases h
  · cases h

theorem loadSettings_error {e : StartupError} (h : loadSettings py disk (some s) = .error e) :
    problems py disk.isFile s ≠ [] ∧ e = .config ⟨problems py disk.isFile s⟩ := by
  simp only [loadSettings, validateRuntime] at h
  split at h
  · rename_i e' hv
    split at hv
    · cases hv
    · rename_i hp
      cases hv
      cases h
      exact ⟨fun hnil => hp (by rw [hnil]; rfl), rfl⟩
  · cases h

/-- An error of `build` is that of invalid settings, or of a policy file of valid ones. -/
theorem build_error (hwritten : s.Written) {e : StartupError} (h : build py disk (some s) = .error e) :
    (problems py disk.isFile s ≠ [] ∧ e = .config ⟨problems py disk.isFile s⟩) ∨
      (problems py disk.isFile s = [] ∧ e.ofFile) := by
  rw [build] at h
  obtain h | ⟨s', hs, h⟩ := bind_error.mp h
  · exact Or.inl (loadSettings_error h)
  obtain ⟨hsome, hvalid⟩ := loadSettings_ok.mp hs
  cases hsome
  refine Or.inr ⟨hvalid, ?_⟩
  obtain h | ⟨policy, _, h⟩ := bind_error.mp h
  · exact buildPolicy_error h
  obtain h | ⟨toolPolicy, _, h⟩ := bind_error.mp h
  · exact buildToolPolicy_error h
  obtain h | ⟨verifier, _, h⟩ := bind_error.mp h
  · obtain ⟨v, hv, _⟩ := buildVerifier_valid hvalid hwritten
    cases hv.symm.trans h
  · cases h

theorem main_serves : main py disk parsed = .serves app ↔ build py disk parsed = .ok app := by
  unfold main
  split <;> rename_i h
  · rw [h, Ending.serves.injEq, Except.ok.injEq]
  · simp [h]
  · simp [h]

theorem intercalate_ended {sep : Text} {l : List Text} (h : l ≠ []) :
    sep.intercalate l ++ sep = l.flatMap fun x => x ++ sep := by
  induction l with
  | nil => exact absurd rfl h
  | cons x l ih =>
    cases l with
    | nil => simp
    | cons y l =>
      rw [List.intercalate_cons_cons, List.append_assoc, ih (List.cons_ne_nil _ _)]
      simp

theorem message_lines {e : ConfigError} (h : e.problems ≠ []) : e.message ++ [ch '\n'] =
    txt "invalid gateway configuration:\n" ++ e.problems.flatMap fun p => txt "  - " ++ p ++ [ch '\n'] := by
  have hlines : (e.problems.map fun p => txt "  - " ++ p) ≠ [] := by simpa using h
  rw [ConfigError.message, List.append_assoc, intercalate_ended hlines, List.flatMap_map]

/-- Valid settings whose policy files load are served. Invalid ones end with the status 2 and a message of all their
problems, valid ones whose files do not load with the error of a file. -/
theorem main_ends (py : Interp) (disk : Disk) (s : Settings) (hwritten : s.Written) :
    ((∃ app, main py disk (some s) = .serves app) ↔
      problems py disk.isFile s = [] ∧ Loads disk (ScopePolicy.fromFile py) s.scopePolicyFile ∧
        Loads disk (ToolPolicy.fromFile py) s.toolPolicyFile) ∧
    ((∃ code stderr, main py disk (some s) = .exits code stderr) ↔ problems py disk.isFile s ≠ []) ∧
    (∀ code stderr, main py disk (some s) = .exits code stderr →
      code = 2 ∧ stderr = txt "error: invalid gateway configuration:\n" ++
        (problems py disk.isFile s).flatMap fun p => txt "  - " ++ p ++ [ch '\n']) ∧
    ∀ e, main py disk (some s) = .raises e → e.ofFile := by
  have hexits : ∀ {code stderr}, main py disk (some s) = .exits code stderr → problems py disk.isFile s ≠ [] ∧
      code = 2 ∧
      stderr = txt "error: invalid gateway configuration:\n" ++
        (problems py disk.isFile s).flatMap fun p => txt "  - " ++ p ++ [ch '\n'] := by
    intro code stderr h
    unfold main at h
    split at h
    · cases h
    · rename_i e he
      cases h
      obtain ⟨hne, hconfig⟩ | ⟨_, hfile⟩ := build_error hwritten he
      · cases hconfig
        refine ⟨hne, rfl, ?_⟩
        have hheader : txt "error: " ++ txt "invalid gateway configuration:\n" =
            txt "error: invalid gateway configuration:\n" := rfl
        have hlines := @message_lines ⟨problems py disk.isFile s⟩ hne
        rw [List.append_assoc, hlines, ← List.append_assoc, hheader]
      · cases hfile
    · cases h
  have hserves : (∃ app, main py disk (some s) = .serves app) ↔ problems py disk.isFile s = [] ∧
      Loads disk (ScopePolicy.fromFile py) s.scopePolicyFile ∧
        Loads disk (ToolPolicy.fromFile py) s.toolPolicyFile := by
    simp only [main_serves, build_ok]
    constructor
    · rintro ⟨app, hsome, hbuilt⟩
      cases hsome
      exact ⟨hbuilt.valid, buildPolicy_loads.mp ⟨_, hbuilt.policy⟩, buildToolPolicy_loads.mp ⟨_, hbuilt.toolPolicy⟩⟩
    · rintro ⟨hvalid, hscope, htools⟩
      obtain ⟨policy, hpolicy⟩ := buildPolicy_loads.mpr hscope
      obtain ⟨toolPolicy, htoolPolicy⟩ := buildToolPolicy_loads.mpr htools
      obtain ⟨v, hv, _⟩ := buildVerifier_valid hvalid hwritten
      exact ⟨⟨s, v, policy, toolPolicy⟩, rfl, hvalid, hpolicy, htoolPolicy, hv⟩
  refine ⟨hserves, ⟨?_, ?_⟩, fun code stderr h => (hexits h).2, ?_⟩
  · rintro ⟨code, stderr, h⟩
    exact (hexits h).1
  · intro hne
    refine ⟨2, txt "error: " ++ (ConfigError.mk (problems py disk.isFile s)).message ++ [ch '\n'], ?_⟩
    rw [main, build, loadSettings, validateRuntime, if_neg (by simpa using hne)]
    rfl
  · intro e h
    unfold main at h
    split at h
    · cases h
    · cases h
    · rename_i e' hother he
      cases h
      obtain ⟨_, hconfig⟩ | ⟨_, hfile⟩ := build_error hwritten he
      · exact absurd hconfig (hother _)
      · exact hfile

end

/-! ## Answers of a built application -/

section
variable {py : Interp} {gw : Gateway} {request : Request} {record : AuditRecord} {stop : Stop} {response : Response}

theorem authorize_status (hverifier : gw.settings.requireAuth = true → gw.verifier.isSome = true) {requestId : Text}
    (h : authorize py gw request requestId = .error stop) (hr : stop.outcome = .ok response) :
    response.status ∈ refusalStatuses := by
  cases authorize_halts h with
  | raised e => cases hr
  | unserved hauth hnone _ _ =>
    have hsome := hverifier hauth
    rw [hnone] at hsome
    cases hsome
  | refused _ _ hstatus =>
    rw [jsonResponse_status hr]
    exact hstatus

variable {a : Authorized} {up : UpstreamResponse}

theorem relayFiltered_status {policy : ToolPolicy} (h : (relayFiltered py gw policy a up).outcome = .ok response) :
    response.status = 502 ∨ response.status = 200 := by
  rw [relayFiltered] at h
  dsimp only at h
  split at h
  · exact Or.inl (jsonResponse_status h)
  split at h
  · cases h
  · exact Or.inl (jsonResponse_status h)
  · exact Or.inl (jsonResponse_status h)
  split at h
  · cases h
  split at h
  · rw [respond_ok h]
    exact Or.inr rfl
  · exact Or.inl (jsonResponse_status h)

theorem relayStreamed_status (h : (relayStreamed py gw a up).outcome = .ok response) :
    response.status = 413 ∨ response.status = up.status := by
  rw [relayStreamed] at h
  split at h
  · cases h
  · exact Or.inl (jsonResponse_status h)
  · rw [respond_ok h]
    exact Or.inr rfl

theorem relay_status (h : (relay py gw a up).outcome = .ok response) :
    response.status = 413 ∨ response.status = 502 ∨ response.status = up.status := by
  by_cases hfilters : Filters gw a up
  · obtain ⟨policy, _, hrelay⟩ := relay_filters hfilters
    rw [hrelay] at h
    obtain h | h := relayFiltered_status h
    · exact Or.inr (Or.inl h)
    · exact Or.inr (Or.inr (h.trans hfilters.2.2.symm))
  · rw [relay_streams hfilters] at h
    obtain h | h := relayStreamed_status h
    · exact Or.inl h
    · exact Or.inr (Or.inr h)

end

section
variable {py : Interp} {disk : Disk} {parsed : Option Settings} {app : App}

theorem Built.verifier_isSome (h : Built py disk app) (hwritten : app.settings.Written) :
    app.verifier.isSome = app.settings.requireAuth := by
  obtain ⟨v, hv, hsome⟩ := buildVerifier_valid h.valid hwritten
  cases h.verifier.symm.trans hv
  exact hsome

/-- A built application answers a request that it does not forward with 400, 401, 403 or 413 and never with its
500; any other answer has the status 413, 502 or the upstream's. -/
theorem built_answers (hb : build py disk parsed = .ok app) (hwritten : app.settings.Written) {Key RawKey : Type}
    (jwt : PyJwt Key RawKey) (resolve : Text → Except VerifyError Key) (request : Request)
    (upstream : UpstreamRequest → Except Exc UpstreamResponse) (requestId : Text) {run : Run} {response : Response}
    (hrun : run = proxyMcp py (app.gateway py jwt resolve) request upstream requestId)
    (hr : run.outcome = .ok response) :
    (run.attempts = [] ∧ response.status ∈ refusalStatuses) ∨
      ∃ sent, run.attempts = [sent] ∧ (response.status = 413 ∨ response.status = 502 ∨
        ∃ up, upstream sent = .ok up ∧ response.status = up.status) := by
  have hverifier : (app.gateway py jwt resolve).settings.requireAuth = true →
      (app.gateway py jwt resolve).verifier.isSome = true := by
    intro hauth
    rw [App.gateway, Option.isSome_map, (build_ok.mp hb).2.verifier_isSome hwritten]
    exact hauth
  subst hrun
  rw [proxyMcp] at hr ⊢
  cases ha : authorize py (app.gateway py jwt resolve) request requestId with
  | error stop =>
    rw [ha] at hr
    exact Or.inl ⟨rfl, authorize_status hverifier ha hr⟩
  | ok a =>
    rw [ha] at hr
    dsimp only at hr ⊢
    cases hup : upstream (upstreamRequest py (app.gateway py jwt resolve) request a) with
    | error e =>
      rw [hup] at hr
      cases e with
      | requestError cls => exact Or.inr ⟨_, rfl, Or.inr (Or.inl (jsonResponse_status hr))⟩
      | _ => cases hr
    | ok up =>
      rw [hup] at hr
      refine Or.inr ⟨_, rfl, ?_⟩
      obtain h | h | h := relay_status hr
      · exact Or.inl h
      · exact Or.inr (Or.inl h)
      · exact Or.inr (Or.inr ⟨up, hup, h⟩)

/-- The verifier of a built application fetches from the configured URL, which is https or, acknowledged, of a
loopback host. -/
theorem built_fetches (hb : build py disk parsed = .ok app) (hwritten : app.settings.Written) :
    app.verifier.isSome = app.settings.requireAuth ∧
    ∀ v, app.verifier = some v → ∃ url, app.settings.jwksUrl = some url ∧
      (url.scheme = txt "https" ∨ app.settings.allowInsecureJwks = true ∧ ∃ host ∈ loopbackHosts,
      url.host = some host) ∧
      ∀ (Raw : Type) (urlopen : Text → Fetched Raw), fetchJwks py v.jwksUrl urlopen = urlopen url.text := by
  have hbuilt := (build_ok.mp hb).2
  refine ⟨hbuilt.verifier_isSome hwritten, ?_⟩
  intro v hv
  have hauth : app.settings.requireAuth = true := by
    rw [← hbuilt.verifier_isSome hwritten, hv]
    rfl
  obtain ⟨url, hurl, hsafe⟩ := problems_jwks hbuilt.valid hauth
  refine ⟨url, hurl, hsafe, ?_⟩
  have hmade := hbuilt.verifier
  rw [buildVerifier, if_pos hauth, hv] at hmade
  split at hmade
  · cases hmade
  · rename_i v' hnew
    cases hmade
    intro Raw urlopen
    rw [(newVerifier_ok.mp hnew).1, jwksText, hurl]
    exact (hwritten url hurl).fetched py urlopen

end

/-! ## The defaults, served -/

def secureUrl : HttpUrl := ⟨txt "https", some (txt "idp"), txt "https://idp/jwks"⟩

def servedSettings : Settings :=
  { Settings.default ⟨txt "http", some (txt "upstream"), txt "http://upstream/mcp"⟩ (txt "issuer")
      (txt "audience") with
    jwksUrl := some secureUrl }

def noFiles : Disk := ⟨fun _ => false, fun _ => none⟩

theorem servedUrl_ne : txt "https://idp/jwks" ≠ [] := by decide

theorem servedAlgs_ne : [txt "RS256", txt "ES256"] ≠ [] := by decide

theorem servedAlgs_asymmetric : ∀ alg ∈ [txt "RS256", txt "ES256"], asymmetric alg = true := by decide

def servedVerifier : VerifierArgs :=
  ⟨txt "https://idp/jwks", txt "issuer", txt "audience", [txt "RS256", txt "ES256"], 30,
    servedUrl_ne, servedAlgs_ne, servedAlgs_asymmetric⟩

def servedApp : App where
  settings := servedSettings
  verifier := some servedVerifier
  policy := .builtin
  toolPolicy := none

theorem servedSettings_written : servedSettings.Written := by
  intro url hurl
  cases hurl
  exact ⟨Or.inr rfl, ⟨txt "idp/jwks", by decide⟩, by decide⟩

theorem servedSettings_valid : problems .ascii noFiles.isFile servedSettings = [] :=
  validateRuntime_ok (default_valid _ secureUrl (by decide) (by decide) rfl)

theorem build_served : build .ascii noFiles (some servedSettings) = .ok servedApp :=
  build_ok.mpr ⟨rfl, servedSettings_valid, rfl, rfl, rfl⟩

theorem main_ends_served : ∃ app, main .ascii noFiles (some servedSettings) = .serves app :=
  (main_ends .ascii noFiles servedSettings servedSettings_written).1.mpr
    ⟨servedSettings_valid, fun _ h => (by cases h), fun _ h => (by cases h)⟩

theorem built_fetches_served : servedApp.verifier.isSome = true ∧
    ∀ v, servedApp.verifier = some v → ∃ url, servedApp.settings.jwksUrl = some url ∧
      (url.scheme = txt "https" ∨ servedApp.settings.allowInsecureJwks = true ∧ ∃ host ∈ loopbackHosts,
      url.host = some host) ∧
      ∀ (Raw : Type) (urlopen : Text → Fetched Raw), fetchJwks .ascii v.jwksUrl urlopen = urlopen url.text :=
  built_fetches build_served servedSettings_written

def servedRun : Run := proxyMcp .ascii (servedApp.gateway .ascii rsOnly noKey) listRequest
    (fun _ => .error (.requestError [])) (txt "id")

theorem built_answers_served : ∃ response, servedRun.outcome = .ok response ∧
    ((servedRun.attempts = [] ∧ response.status ∈ refusalStatuses) ∨
      ∃ sent, servedRun.attempts = [sent] ∧ (response.status = 413 ∨ response.status = 502 ∨
        ∃ up : UpstreamResponse, (Except.error (.requestError []) : Except Exc UpstreamResponse) = .ok up ∧
          response.status = up.status)) := by
  have hanswered : servedRun.outcome.isOk = true := by decide +kernel
  cases hr : servedRun.outcome with
  | error e =>
    rw [hr] at hanswered
    cases hanswered
  | ok response =>
    exact ⟨response, rfl, built_answers build_served servedSettings_written rsOnly noKey listRequest _
      (txt "id") rfl hr⟩

end McpGateway
