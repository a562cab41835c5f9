import McpGateway.Authoritative
import McpGateway.JsonRpc

/-!
# Removing keys

What the verifier makes of a retrieved JWKS, and which keys a completed fetch
leaves in the cache.
-/

namespace McpGateway

open Unicode Json Transition

def loadThrown (raw : Bytes) : LoadError Empty → Thrown
  | .malformed => ⟨if (decodeBytes raw).isNone then txt "UnicodeDecodeError" else txt "JSONDecodeError", true⟩
  | .digits => ⟨txt "ValueError", true⟩
  | .recursion => ⟨txt "RecursionError", true⟩
  | .hook e => e.elim

def truthy : Value → Bool
  | .null => false
  | .bool b => b
  | .int z => z ≠ 0
  | .float (.finite _ x) => x.m ≠ 0
  | .float _ => true
  | .str s => !s.isEmpty
  | .arr vs => !vs.isEmpty
  | .obj ms => !ms.isEmpty

def hashable : Value → Bool
  | .arr _ => false
  | .obj _ => false
  | _ => true

abbrev JwkDict := List (Text × Value)

section
variable {Key : Type}

/-- What is documented of PyJWT: `pyJwk` is `PyJWK` of an entry, none where it raises a `PyJWTError`, `keyId` its
`key_id`, and `fromDict` is `PyJWKSet.from_dict` with its `keys`. -/
structure PyJwkSet (pyJwk : JwkDict → Option Key) (keyId : Key → Option Value)
    (fromDict : Value → Except Thrown (List Key)) :
    Prop where
  keyId : ∀ entry key, pyJwk entry = some key → keyId key = entry.lookup (txt "kid")
  skips : ∀ (ms : List (Text × Value)) (entries : List JwkDict), ms.lookup (txt "keys") =
    some (.arr (entries.map .obj)) →
    (∃ entry ∈ entries, (pyJwk entry).isSome = true) → fromDict (.obj ms) = .ok (entries.filterMap pyJwk)
  raises : ∀ (ms : List (Text × Value)) (entries : List JwkDict), ms.lookup (txt "keys") =
    some (.arr (entries.map .obj)) →
    (∀ entry ∈ entries, pyJwk entry = none) → fromDict (.obj ms) = .error ⟨txt "PyJWKSetError", true⟩

variable (py : Interp) (keyId : Key → Option Value) (fromDict : Value → Except Thrown (List Key))

def namedKey (key : Key) : Option (Value × Key) :=
  match keyId key with
  | none => none
  | some kid => if truthy kid then some (kid, key) else none

/-- The dict of the keys by their kids; the last of a kid is found first. Kids of two types that are equal to
Python, as 1 and true, are two here: only texts are looked up. -/
def keyDict (keys : List Key) : Except Thrown (Keys Value Key) :=
  let named := keys.filterMap (namedKey keyId)
  if named.all fun k => hashable k.1 then .ok named.reverse else .error ⟨txt "TypeError", true⟩

def noKeys (document : Value) : Bool := dictGet (txt "keys") document = some (.arr [])

def parseJwks (raw : Bytes) : Except Thrown (Keys Value Key) :=
  match loads py.plainDecoder py.loadsDepth raw with
  | .error e => .error (loadThrown raw e)
  | .ok document =>
    if noKeys document then .ok []
    else
      match fromDict document with
      | .error e => .error e
      | .ok keys => keyDict keyId keys

end

section
variable {Key : Type} (py : Interp) (pyJwk : JwkDict → Option Key)

def WellFormed (raw : Bytes) (entries : List JwkDict) : Prop :=
  ∃ ms, loads py.plainDecoder py.loadsDepth raw = .ok (.obj ms) ∧
    ms.lookup (txt "keys") = some (.arr (entries.map .obj))

def UsableKid (entries : List JwkDict) (kid : Value) : Prop :=
  ∃ entry ∈ entries, (pyJwk entry).isSome = true ∧ entry.lookup (txt "kid") = some kid ∧ truthy kid = true

/-- The cache has exactly the kids that can be used, and no other kid is answered from it. -/
structure Removed (cfg : CacheConfig) (entries : List JwkDict) (cache : Cache Value Key) : Prop where
  exact : ∀ kid, (cache.keys.lookup kid).isSome = true ↔ UsableKid pyJwk entries kid
  stops : ∀ kid, ¬ UsableKid pyJwk entries kid → ∀ now now' key, enterResolve cfg cache now now' kid ≠
    .answer (.key key) ∧
    wakeResolve cfg cache now kid ≠ .answer (.key key)

/-- The document is taken as it stands, or there is nothing to remove. -/
def Taken (entries : List JwkDict) (cache : Cache Value Key) : Prop :=
  entries = [] ∨
    ((∃ entry ∈ entries, (pyJwk entry).isSome = true) ∧ ∀ kid, UsableKid pyJwk entries kid → hashable kid = true) ∨
    ((∀ entry ∈ entries, pyJwk entry = none) ∧ cache.keys = [])

end

/-! ## Reading a document -/

section
variable {Key : Type} {py : Interp} {pyJwk : JwkDict → Option Key} {keyId : Key → Option Value}
  {fromDict : Value → Except Thrown (List Key)} {raw : Bytes} {entries : List JwkDict} {kid : Value}

theorem namedKey_some {key key' : Key} : namedKey keyId key = some (kid, key') ↔ key' = key ∧
    keyId key = some kid ∧ truthy kid = true := by
  rw [namedKey]
  cases keyId key with
  | none => simp
  | some kid' =>
    dsimp only
    split <;> grind

/-- The kids of the keys that load are the usable ones. -/
theorem mem_named (hp : PyJwkSet pyJwk keyId fromDict) :
    (∃ key, (kid, key) ∈ (entries.filterMap pyJwk).filterMap (namedKey keyId)) ↔ UsableKid pyJwk entries kid := by
  simp only [List.mem_filterMap, namedKey_some, UsableKid, Option.isSome_iff_exists]
  constructor
  · intro ⟨key, key', ⟨entry, hentry, hload⟩, _, hkid, htruthy⟩
    exact ⟨entry, hentry, ⟨key', hload⟩, (hp.keyId entry key' hload).symm.trans hkid, htruthy⟩
  · intro ⟨entry, hentry, ⟨key, hload⟩, hkid, htruthy⟩
    exact ⟨key, key, ⟨entry, hentry, hload⟩, rfl, (hp.keyId entry key hload).trans hkid, htruthy⟩

theorem keyDict_ok {keys : List Key} {dict : Keys Value Key} (h : keyDict keyId keys = .ok dict) :
    dict = (keys.filterMap (namedKey keyId)).reverse ∧ ∀ k ∈ dict, hashable k.1 = true := by
  rw [keyDict] at h
  split at h
  · rename_i hall
    cases h
    refine ⟨rfl, ?_⟩
    intro k hk
    exact List.all_eq_true.mp hall k (List.mem_reverse.mp hk)
  · cases h

theorem keyDict_error {keys : List Key} {e : Thrown} (h : keyDict keyId keys = .error e) :
    ∃ kid, (∃ key, (kid, key) ∈ keys.filterMap (namedKey keyId)) ∧ ¬ hashable kid = true := by
  rw [keyDict] at h
  split at h
  · cases h
  · rename_i hall
    rw [List.all_eq_true, not_forall] at hall
    obtain ⟨k, hk⟩ := hall
    rw [Classical.not_imp] at hk
    exact ⟨k.1, ⟨k.2, hk.1⟩, hk.2⟩

theorem lookup_isSome_mem {l : Keys Value Key} : (l.lookup kid).isSome = true ↔ ∃ key, (kid, key) ∈ l := by
  rw [List.lookup_isSome_iff]
  constructor
  · intro ⟨k, hk, hkid⟩
    rw [beq_iff_eq.mp hkid]
    exact ⟨k.2, hk⟩
  · intro ⟨key, hkey⟩
    exact ⟨(kid, key), hkey, beq_self_eq_true _⟩

theorem parse_empty (h : WellFormed py raw []) : parseJwks py keyId fromDict raw = .ok [] := by
  obtain ⟨ms, hload, hkeys⟩ := h
  have hnone : noKeys (.obj ms) = true := decide_eq_true hkeys
  rw [parseJwks, hload]
  exact if_pos hnone

theorem parse_entries (h : WellFormed py raw entries) (hne : entries ≠ []) :
    ∃ ms, ms.lookup (txt "keys") = some (.arr (entries.map .obj)) ∧ parseJwks py keyId fromDict raw =
      match fromDict (.obj ms) with
      | .error e => .error e
      | .ok keys => keyDict keyId keys := by
  obtain ⟨ms, hload, hkeys⟩ := h
  have hsome : ¬ noKeys (.obj ms) = true := by
    rw [noKeys, decide_eq_true_iff, dictGet, hkeys]
    simpa using hne
  refine ⟨ms, hkeys, ?_⟩
  rw [parseJwks, hload]
  exact if_neg hsome

theorem parse_loads (hp : PyJwkSet pyJwk keyId fromDict) (h : WellFormed py raw entries)
    (hsome : ∃ entry ∈ entries, (pyJwk entry).isSome = true) :
    parseJwks py keyId fromDict raw = keyDict keyId (entries.filterMap pyJwk) := by
  have hne : entries ≠ [] := by
    obtain ⟨entry, hentry, _⟩ := hsome
    exact List.ne_nil_of_mem hentry
  obtain ⟨ms, hkeys, hparse⟩ := @parse_entries _ _ keyId fromDict _ _ h hne
  rw [hparse, hp.skips ms entries hkeys hsome]

theorem parse_raises (hp : PyJwkSet pyJwk keyId fromDict) (h : WellFormed py raw entries) (hne : entries ≠ [])
    (hnone : ∀ entry ∈ entries, pyJwk entry = none) :
    parseJwks py keyId fromDict raw = .error ⟨txt "PyJWKSetError", true⟩ := by
  obtain ⟨ms, hkeys, hparse⟩ := @parse_entries _ _ keyId fromDict _ _ h hne
  rw [hparse, hp.raises ms entries hkeys hnone]

theorem parse_hashable {keys : Keys Value Key} (h : parseJwks py keyId fromDict raw = .ok keys) :
    ∀ k ∈ keys, hashable k.1 = true := by
  rw [parseJwks] at h
  split at h
  · cases h
  split at h
  · cases h
    intro k hk
    cases hk
  split at h
  · cases h
  · exact (keyDict_ok h).2

end

/-! ## The cache after a fetch -/

section
variable {Tid Key : Type} [DecidableEq Tid] {cfg : CacheConfig} {py : Interp} {pyJwk : JwkDict → Option Key}
  {keyId : Key → Option Value} {fromDict : Value → Except Thrown (List Key)} {start : ℚ}
  {ok : Sys Tid Value Key Bytes → Event Tid Value Bytes → Prop} {s s' : Sys Tid Value Key Bytes}

theorem cached_hashable (h : Reachable (verifier cfg (parseJwks py keyId fromDict) start) ok s) :
    ∀ k ∈ s.cache.keys, hashable k.1 = true := by
  rw [(authoritative_reachable h).keys, authority]
  cases hlatest : latest (accepted (parseJwks py keyId fromDict)) s.log with
  | none =>
    intro k hk
    cases hk
  | some keys =>
    obtain ⟨x, _, hx⟩ := latest_mem hlatest
    cases x with
    | completed t since now outcome =>
      cases outcome with
      | body raw =>
        rw [accepted] at hx
        cases hparse : parseJwks py keyId fromDict raw with
        | error e =>
          rw [hparse] at hx
          cases hx
        | ok keys' =>
          rw [hparse] at hx
          cases hx
          exact parse_hashable hparse
      | _ => cases hx
    | _ => cases hx

omit [DecidableEq Tid] in
theorem removed_iff {entries : List JwkDict} {cache : Cache Value Key} :
    Removed pyJwk cfg entries cache ↔ ∀ kid, (cache.keys.lookup kid).isSome = true ↔
    UsableKid pyJwk entries kid := by
  refine ⟨Removed.exact, fun hexact => ⟨hexact, ?_⟩⟩
  intro kid hkid now now' key
  have hnone : cache.keys.lookup kid = none := by
    rw [← Option.not_isSome_iff_eq_none, hexact]
    exact hkid
  have hadmission : ∀ now, admission cfg cache now none ≠ .answer (.key key) := by
    intro now h
    rw [admission] at h
    split at h <;> cases h
  constructor
  · rw [enterResolve, hnone]
    dsimp only
    split
    · exact fun h => by cases h
    · exact hadmission now'
  · rw [wakeResolve, hnone]
    dsimp only
    split
    · exact fun h => by cases h
    · exact hadmission now

theorem complete_keys {parse : Bytes → Except Thrown (Keys Value Key)} {t : Tid} {op : Op Value}
    {since now : ℚ} {raw : Bytes}
    (ht : s.threads t = some (.fetched op since (.body raw))) (hs : s.step cfg parse (.complete t now) = some s') :
    s'.cache.keys = (parse raw).toOption.getD s.cache.keys := by
  rw [Sys.step, ht] at hs
  dsimp only at hs
  split at hs <;> cases hs
  have hcache := (finish_threads (finish_cases parse (s.land parse t since now (.body raw)) t since
    (.body raw) op)).1
  rw [hcache]
  rfl

/-- A completed fetch of a document leaves exactly its kids in the cache when the document is taken, and otherwise
leaves those it should have removed. -/
theorem removed_iff_taken (hp : PyJwkSet pyJwk keyId fromDict)
    (h : Reachable (verifier cfg (parseJwks py keyId fromDict) start) (fun _ _ => True) s) {t : Tid}
    {op : Op Value} {since now : ℚ}
    {raw : Bytes} {entries : List JwkDict} (ht : s.threads t = some (.fetched op since (.body raw)))
    (hraw : WellFormed py raw entries) (hs : s.step cfg (parseJwks py keyId fromDict) (.complete t now) = some s') :
    Removed pyJwk cfg entries s'.cache ↔ Taken pyJwk entries s.cache := by
  have hkeys := complete_keys ht hs
  rw [removed_iff, Taken]
  by_cases hempty : entries = []
  · rw [hempty] at hraw
    rw [parse_empty hraw] at hkeys
    refine iff_of_true ?_ (Or.inl hempty)
    intro kid
    rw [hkeys, hempty]
    simp [UsableKid, Except.toOption]
  by_cases hsome : ∃ entry ∈ entries, (pyJwk entry).isSome = true
  · rw [parse_loads hp hraw hsome] at hkeys
    have htaken : (∀ kid, UsableKid pyJwk entries kid → hashable kid = true) ↔ (entries = [] ∨
        ((∃ entry ∈ entries, (pyJwk entry).isSome = true) ∧ ∀ kid, UsableKid pyJwk entries kid →
          hashable kid = true) ∨
        ((∀ entry ∈ entries, pyJwk entry = none) ∧ s.cache.keys = [])) := by
      have hnot : ¬ ∀ entry ∈ entries, pyJwk entry = none := by
        intro hnone
        obtain ⟨entry, hentry, hload⟩ := hsome
        rw [hnone entry hentry] at hload
        cases hload
      simp only [hempty, hsome, hnot, false_or, true_and, false_and, or_false]
    rw [← htaken]
    cases hdict : keyDict keyId (entries.filterMap pyJwk) with
    | ok dict =>
      obtain ⟨hnamed, hhashable⟩ := keyDict_ok hdict
      have hmem : ∀ kid, (∃ key, (kid, key) ∈ dict) ↔ UsableKid pyJwk entries kid := by
        intro kid
        simp only [hnamed, List.mem_reverse]
        exact mem_named hp
      rw [hdict] at hkeys
      have hinstalled : s'.cache.keys = dict := hkeys
      rw [hinstalled]
      refine iff_of_true ?_ ?_
      · intro kid
        rw [← hmem kid, lookup_isSome_mem]
      · intro kid hkid
        obtain ⟨key, hkey⟩ := (hmem kid).mpr hkid
        exact hhashable _ hkey
    | error e =>
      obtain ⟨kid, hkid, hbad⟩ := keyDict_error hdict
      rw [hdict] at hkeys
      have hstale : s'.cache.keys = s.cache.keys := hkeys
      have husable := (mem_named hp).mp hkid
      refine iff_of_false ?_ fun hhashable => hbad (hhashable kid husable)
      intro hexact
      have hfound := (hexact kid).mpr husable
      rw [hstale, lookup_isSome_mem] at hfound
      obtain ⟨key, hkey⟩ := hfound
      exact hbad (cached_hashable h _ hkey)
  · have hnone : ∀ entry ∈ entries, pyJwk entry = none := by
      intro entry hentry
      rw [← Option.not_isSome_iff_eq_none]
      exact fun hload => hsome ⟨entry, hentry, hload⟩
    rw [parse_raises hp hraw hempty hnone] at hkeys
    have hunusable : ∀ kid, ¬ UsableKid pyJwk entries kid := by
      intro kid hkid
      obtain ⟨entry, hentry, hload, _⟩ := hkid
      exact hsome ⟨entry, hentry, hload⟩
    have hstale : s'.cache.keys = s.cache.keys := hkeys
    rw [hstale]
    constructor
    · intro hexact
      refine Or.inr (Or.inr ⟨hnone, ?_⟩)
      apply List.eq_nil_iff_forall_not_mem.mpr
      intro k hk
      exact hunusable k.1 ((hexact k.1).mp (lookup_isSome_mem.mpr ⟨k.2, hk⟩))
    · intro htaken kid
      obtain hnil | ⟨hload, _⟩ | ⟨_, hcache⟩ := htaken
      · exact absurd hnil hempty
      · exact absurd hload hsome
      · rw [hcache]
        exact iff_of_false Bool.false_ne_true (hunusable kid)

end

/-! ## Only keys of an unsupported type -/

def objOf : Value → Option JwkDict
  | .obj ms => some ms
  | _ => none

def ecKey (entry : JwkDict) : Option JwkDict := if entry.lookup (txt "kty") = some (.str (txt "EC")) then
    some entry else none

def entryKid (key : JwkDict) : Option Value := key.lookup (txt "kid")

def ecKeySet (document : Value) : Except Thrown (List JwkDict) :=
  match dictGet (txt "keys") document with
  | some (.arr entries) =>
    let keys := (entries.filterMap objOf).filterMap ecKey
    if keys.isEmpty then .error ⟨txt "PyJWKSetError", true⟩ else .ok keys
  | _ => .error ⟨txt "PyJWKSetError", true⟩

theorem ecKeySet_entries {ms : List (Text × Value)} {entries : List JwkDict}
    (h : ms.lookup (txt "keys") = some (.arr (entries.map .obj))) :
    ecKeySet (.obj ms) = if (entries.filterMap ecKey).isEmpty then .error ⟨txt "PyJWKSetError", true⟩ else
    .ok (entries.filterMap ecKey) := by
  have hobj : (entries.map Value.obj).filterMap objOf = entries := by
    rw [List.filterMap_map]
    exact List.filterMap_some
  rw [ecKeySet, dictGet, h]
  dsimp only
  rw [hobj]

theorem ec_pyJwkSet : PyJwkSet ecKey entryKid ecKeySet where
  keyId := by
    intro entry key h
    rw [ecKey] at h
    split at h <;> cases h
    rfl
  skips := by
    intro ms entries hkeys ⟨entry, hentry, hload⟩
    obtain ⟨key, hkey⟩ := Option.isSome_iff_exists.mp hload
    have hmem : key ∈ entries.filterMap ecKey := List.mem_filterMap.mpr ⟨entry, hentry, hkey⟩
    rw [ecKeySet_entries hkeys, if_neg]
    rw [List.isEmpty_iff]
    exact List.ne_nil_of_mem hmem
  raises := by
    intro ms entries hkeys hnone
    have hnil : entries.filterMap ecKey = [] := List.filterMap_eq_nil_iff.mpr hnone
    rw [ecKeySet_entries hkeys, hnil]
    rfl

def ecJwks : Bytes :=
  ascii "\x7b\"keys\":[\x7b\"kty\":\"EC\",\"crv\":\"P-256\",\"x\":\"MKBCTNIcKUSDii11ySs3526iDZ8AiTo7Tu6KPAqv7D4\"," ++
    ascii "\"y\":\"4Etl6SRW2YiLUrN5vfvVHuhp7x8PxltmWWlbbM4IFyM\",\"kid\":\"k1\"\x7d]\x7d"

def akpJwks : Bytes := ascii "\x7b\"keys\":[\x7b\"kty\":\"AKP\",\"kid\":\"k2\"\x7d]\x7d"

def akpEntries : List JwkDict := [[(txt "kty", .str (txt "AKP")), (txt "kid", .str (txt "k2"))]]

def hourly : CacheConfig := ⟨300, (10 : ℚ)⟩

abbrev ecVerifier : Machine (Sys Nat Value JwkDict Bytes) (Event Nat Value Bytes) :=
  verifier hourly (parseJwks .ascii entryKid ecKeySet) 0

def akpFetched : List (Event Nat Value Bytes) :=
  [.call 0 (.resolve (.str (txt "k1"))), .enter 0 0 0, .fetchStart 0 1, .fetchEnd 0 2 (.body ecJwks), .complete 0 3,
    .call 1 .ready, .probe 1 400, .fetchStart 1 401, .fetchEnd 1 402 (.body akpJwks)]

theorem akp_wellFormed : WellFormed .ascii akpJwks akpEntries :=
  ⟨[(txt "keys", .arr (akpEntries.map .obj))], by decide +kernel, by decide⟩

theorem akp_run : ∃ s s', ecVerifier.run ecVerifier.init akpFetched = some s ∧
    s.threads 1 = some (.fetched .ready 401 (.body akpJwks)) ∧
    s.step hourly (parseJwks .ascii entryKid ecKeySet) (.complete 1 403) = some s' ∧ s.cache.keys ≠ [] ∧
    (s'.cache.keys.lookup (.str (txt "k1"))).isSome = true := by
  obtain ⟨s, hrun, hthread, hkeys, hstep⟩ : ∃ s, ecVerifier.run ecVerifier.init akpFetched = some s ∧
      s.threads 1 = some (.fetched .ready 401 (.body akpJwks)) ∧ s.cache.keys ≠ [] ∧
      ((s.step hourly (parseJwks .ascii entryKid ecKeySet) (.complete 1 403)).any
        fun s' => (s'.cache.keys.lookup (.str (txt "k1"))).isSome) = true :=
    Machine.run_ends _ (by decide +kernel)
  obtain ⟨s', hs', hfound⟩ := (Option.any_eq_true _ _).mp hstep
  exact ⟨s, s', hrun, hthread, hs', hkeys, hfound⟩

theorem akp_unusable (kid : Value) : ¬ UsableKid ecKey akpEntries kid := by
  intro ⟨entry, hentry, hload, _⟩
  rw [List.mem_singleton.mp hentry] at hload
  revert hload
  decide

theorem removed_iff_taken_akp : ∃ s s' : Sys Nat Value JwkDict Bytes,
    s.step hourly (parseJwks .ascii entryKid ecKeySet) (.complete 1 403) = some s' ∧
      ¬ Removed ecKey hourly akpEntries s'.cache := by
  obtain ⟨s, s', hrun, hthread, hstep, hkeys, _⟩ := akp_run
  have hreach : Reachable ecVerifier (fun _ _ => True) s := .run (fun _ _ => trivial) .init hrun
  refine ⟨s, s', hstep, fun hremoved => ?_⟩
  have htaken := (removed_iff_taken ec_pyJwkSet hreach hthread akp_wellFormed hstep).mp hremoved
  obtain hnil | ⟨hload, _⟩ | ⟨_, hcache⟩ := htaken
  · cases hnil
  · revert hload
    decide
  · exact hkeys hcache

/-- The removed key `k1` is still in the cache. -/
theorem akp_not_removed : ¬ ∀ (s s' : Sys Nat Value JwkDict Bytes) (t : Nat) (op : Op Value)
    (since now : ℚ) (raw : Bytes) (entries : List JwkDict), Reachable ecVerifier (fun _ _ => True) s →
    s.threads t = some (.fetched op since (.body raw)) →
    WellFormed .ascii raw entries → s.step hourly (parseJwks .ascii entryKid ecKeySet) (.complete t now) = some s' →
    Removed ecKey hourly entries s'.cache := by
  intro h
  obtain ⟨s, s', hrun, hthread, hstep, _, hfound⟩ := akp_run
  have hreach : Reachable ecVerifier (fun _ _ => True) s := .run (fun _ _ => trivial) .init hrun
  have hremoved := h s s' 1 .ready 401 403 akpJwks akpEntries hreach hthread akp_wellFormed hstep
  exact akp_unusable _ ((hremoved.exact _).mp hfound)

end McpGateway
