import McpGateway.Config
import McpGateway.Cooldown

/-!
# Retries against an unreachable authorization server

A failed attempt starts the cooldown, and the cooldown holds back the next
attempt exactly when the TTL is no shorter: an expired TTL alone starts one.
-/

namespace McpGateway

open Unicode Binary64 Transition

variable {Tid Kid Key Raw : Type}

/-- A bound on elapsed times, everything being at least `-inf` seconds ago. NaN is none: no comparison with it
holds, which `_resolve_key` and `ready` take in opposite ways. -/
def duration : Float64 → Option (WithTop ℚ)
  | .nan => none
  | .inf false => some ⊤
  | .inf true => some 0
  | .finite true x => some ((-x.value : ℚ) : WithTop ℚ)
  | .finite false x => some (x.value : WithTop ℚ)

def Settings.cacheConfig (s : Settings) : Option CacheConfig :=
  (duration s.jwksMinRefreshInterval).map fun interval => ⟨s.jwksCacheTtl, interval⟩

section
variable (cfg : CacheConfig) (parse : Raw → Except Thrown (Keys Kid Key))

/-- No attempt starts within an interval of a failed one before it. -/
def FailureSpaced (pre : List (Entry Tid Kid Key Raw)) (x : Entry Tid Kid Key Raw) : Prop :=
  ∀ (t : Tid) (now : ℚ), x = .started t now → ∀ (t' : Tid) (since e : ℚ) (outcome : Fetched Raw),
    .completed t' since e outcome ∈ pre → newKeys parse outcome = none →
      (e : WithTop ℚ) + cfg.minRefreshInterval ≤ now

def outage (kid : Kid) (start d : ℚ) : List (Event Nat Kid Raw) :=
  [.call 0 (.resolve kid), .enter 0 start start, .fetchStart 0 start,
    .fetchEnd 0 start (.thrown ⟨txt "URLError", true⟩),
    .complete 0 start, .call 1 (.resolve kid), .enter 1 (start + d) (start + d), .fetchStart 1 (start + d)]

end

section
variable [DecidableEq Kid] (cfg : CacheConfig) (parse : Raw → Except Thrown (Keys Kid Key)) (start : ℚ) {d : ℚ}

theorem outage_run (kid : Kid) (h0 : 0 ≤ cfg.ttl) (hd : (cfg.ttl : ℚ) < d) :
    ((verifier cfg parse start).run (verifier cfg parse start).init (outage kid start d)).map Sys.log =
      some [.started 0 start, .completed 0 start start (.thrown ⟨txt "URLError", true⟩),
        .answered 0 (.resolve kid) (retrievalFailed ⟨txt "URLError", true⟩) (.fetch start),
        .started 1 (start + d)] := by
  have hd0 : (0 : ℚ) ≤ d := by
    have : (0 : ℚ) ≤ cfg.ttl := by exact_mod_cast h0
    linarith
  have hexp : ∀ c : Cache Kid Key, c.lastFetch = some start → ttlExpired cfg c (start + d) = true := by
    intro c hc
    simp [ttlExpired, cold, withinTtl, hc, hd]
  simp [outage, verifier, Machine.run, Sys.step, Sys.goto, Sys.settle, Sys.answer, Sys.land, Sys.finish,
    enterResolve, admission, Cache.init, cold, Cache.complete, newKeys, resolveError, notifyAll, hd0, hexp]

end

section
variable {py : Interp} {isFile : Text → Bool} {s : Settings}

/-- A failure holds back the next attempt for an interval exactly when the TTL is no shorter than the interval. -/
theorem failure_cooldown_iff (hv : validateRuntime py isFile s = .ok ()) {cfg : CacheConfig}
    (hcfg : s.cacheConfig = some cfg) (parse : Raw → Except Thrown (Keys Text Key)) :
    (∀ start (st : Sys Nat Text Key Raw), Reachable (verifier cfg parse start) (fun _ _ => True) st →
      Before (FailureSpaced cfg parse) st.log) ↔
    cfg.minRefreshInterval ≤ ((s.jwksCacheTtl : ℚ) : WithTop ℚ) := by
  obtain ⟨interval, _, rfl⟩ := Option.map_eq_some_iff.mp hcfg
  constructor
  · intro h
    by_contra hlt
    obtain ⟨x, hx, hxi⟩ := exists_between (lt_of_not_ge hlt)
    obtain ⟨d, rfl⟩ := WithTop.ne_top_iff_exists.mp (ne_top_of_lt hxi)
    have hrun := outage_run ⟨s.jwksCacheTtl, interval⟩ parse 0 [] (validateRuntime_bounds hv).1
      (by exact_mod_cast hx)
    obtain ⟨st, hst, hlog⟩ := Option.map_eq_some_iff.mp hrun
    have hb := h 0 st (.run (fun _ _ => trivial) .init hst)
    rw [hlog] at hb
    have hle := hb [_, _, _] _ [] rfl 1 (0 + d) rfl 0 0 0 (.thrown ⟨txt "URLError", true⟩) (.tail _ (.head _)) rfl
    rw [WithTop.coe_zero, zero_add, zero_add] at hle
    exact absurd hle (not_le_of_gt hxi)
  · intro hint start st hst
    refine Before.mono (startsSpaced_reachable hint hst) ?_
    intro pre x hx t now he t' since e outcome hm _
    exact hx t now he t' since e outcome hm

def localSettings (ttl : Int) : Settings :=
  { Settings.default ⟨txt "http", some (txt "127.0.0.1"), txt "http://127.0.0.1:9000/mcp"⟩
      (txt "https://as.example")
      (txt "mcp-gateway") with
    jwksUrl := some ⟨txt "https", some (txt "as.example"), txt "https://as.example/jwks"⟩
    jwksCacheTtl := ttl }

theorem localSettings_cacheConfig (ttl : Int) : (localSettings ttl).cacheConfig = some ⟨ttl, (10 : ℚ)⟩ := by
  have hten : duration (Float64.ofRat false 10) = some ((10 : ℚ) : WithTop ℚ) := by decide +kernel
  have hinterval : (localSettings ttl).jwksMinRefreshInterval = Float64.ofRat false 10 := rfl
  rw [Settings.cacheConfig, hinterval, hten]
  rfl

/-- With a TTL of 300 seconds the cooldown of 10 is kept. -/
theorem failure_cooldown_iff_default : ∃ cfg, (localSettings 300).cacheConfig = some cfg ∧
    ∀ start (st : Sys Nat Text Nat (Keys Text Nat)), Reachable (verifier cfg .ok start) (fun _ _ => True) st →
      Before (FailureSpaced cfg .ok) st.log := by
  have hv : validateRuntime .ascii (fun _ => false) (localSettings 300) = .ok () :=
    default_valid _ _ (by decide) (by decide) rfl
  have hcfg := localSettings_cacheConfig 300
  exact ⟨_, hcfg, (failure_cooldown_iff hv hcfg .ok).mpr (by decide +kernel)⟩

/-- With a TTL of 0 the second call fetches within the cooldown of the first. -/
theorem failure_cooldown_fails :
    ¬ ∀ (py : Interp) (isFile : Text → Bool) (s : Settings) (cfg : CacheConfig),
    validateRuntime py isFile s = .ok () →
      s.cacheConfig = some cfg → ∀ start (st : Sys Nat Text Nat (Keys Text Nat)),
        Reachable (verifier cfg .ok start) (fun _ _ => True) st → Before (FailureSpaced cfg .ok) st.log := by
  intro h
  have hv : validateRuntime .ascii (fun _ => false) (localSettings 0) = .ok () := by decide +kernel
  have hrun := outage_run ⟨0, (10 : ℚ)⟩ (.ok : Keys Text Nat → Except Thrown (Keys Text Nat)) 0 [] (le_refl 0)
    (by norm_num : ((0 : Int) : ℚ) < 1)
  obtain ⟨st, hst, hlog⟩ := Option.map_eq_some_iff.mp hrun
  have hb := h _ _ _ _ hv (localSettings_cacheConfig 0) 0 st (.run (fun _ _ => trivial) .init hst)
  rw [hlog] at hb
  have hle := hb [_, _, _] _ [] rfl 1 (0 + 1) rfl 0 0 0 (.thrown ⟨txt "URLError", true⟩) (.tail _ (.head _)) rfl
  have hlt : ¬ ((0 : ℚ) : WithTop ℚ) + ((10 : ℚ) : WithTop ℚ) ≤ ((0 + 1 : ℚ) : WithTop ℚ) := by decide +kernel
  exact hlt hle

end

end McpGateway
