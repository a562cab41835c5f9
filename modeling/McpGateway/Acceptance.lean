import McpGateway.Canonical
import McpGateway.JsonStrict

/-!
# The grammar of accepted requests

The parser's early returns, put together: which bodies it accepts, and what a
result holds.
-/

namespace McpGateway

open Unicode Binary64 Json

theorem repeatedKey_nodup {seen : List Text} {pairs : List (Text × Value)}
    (h : (seen.reverse ++ pairs.map Prod.fst).Nodup) : repeatedKey seen pairs = none := by
  induction pairs generalizing seen with
  | nil => rfl
  | cons p pairs ih =>
    have hp : p.1 ∉ seen := by
      intro hm
      rw [List.nodup_append] at h
      exact h.2.2 p.1 (List.mem_reverse.mpr hm) p.1 List.mem_cons_self rfl
    rw [repeatedKey, if_neg hp]
    apply ih
    simpa using h

theorem noDuplicateKeys_iff (pairs : List (Text × Value)) (v : Value) :
    noDuplicateKeys pairs = .ok v ↔ (pairs.map Prod.fst).Nodup ∧ v = .obj pairs := by
  constructor
  · exact noDuplicateKeys_ok
  · rintro ⟨hd, rfl⟩
    have hn : repeatedKey [] pairs = none := repeatedKey_nodup hd
    rw [noDuplicateKeys, hn]
    simp only [dictOf_distinct hd]

/-! ## Refusals -/

theorem resolveTool_refused {py : Interp} {data : Value} {m : Text} {p : JsonRpcParse}
    (h : resolveTool py data m = .ok p)
    (he : p.error ≠ none) : p.method = none ∧ p.toolName = none ∧ p.canonicalBody = none := by
  rw [resolveTool] at h
  split at h
  · cases h
  split at h
  · split at h
    · split at h <;> cases h
      · exact ⟨rfl, rfl, rfl⟩
      · exact absurd rfl he
    · cases h
      exact absurd rfl he
  · cases h
    exact absurd rfl he

theorem resolveMethod_refused {py : Interp} {data : Value} {p : JsonRpcParse} (h : resolveMethod py data = .ok p)
    (he : p.error ≠ none) : p.method = none ∧ p.toolName = none ∧ p.canonicalBody = none := by
  rw [resolveMethod] at h
  split at h
  · split_ifs at h
    · cases h; exact ⟨rfl, rfl, rfl⟩
    · cases h; exact ⟨rfl, rfl, rfl⟩
    · cases h; exact ⟨rfl, rfl, rfl⟩
    · exact resolveTool_refused h he
  · cases h; exact ⟨rfl, rfl, rfl⟩

theorem parseJsonrpc_refused {py : Interp} {raw : Bytes} {p : JsonRpcParse} (h : parseJsonrpc py raw = .ok p)
    (he : p.error ≠ none) : p.method = none ∧ p.toolName = none ∧ p.canonicalBody = none := by
  rw [parseJsonrpc] at h
  split at h
  · rename_i data _
    rcases resolveRequest_cases py data with heq | ⟨error, errorCode, heq⟩
    · rw [heq] at h
      exact resolveMethod_refused h he
    · rw [heq] at h
      cases h
      exact ⟨rfl, rfl, rfl⟩
  · cases h; exact ⟨rfl, rfl, rfl⟩
  · cases h; exact ⟨rfl, rfl, rfl⟩
  · cases h; exact ⟨rfl, rfl, rfl⟩
  · cases h; exact ⟨rfl, rfl, rfl⟩
  · cases h

/-! ## The grammar -/

/-- `data` is the value of the body, with the method `m`. -/
structure Candidate (py : Interp) (raw : Bytes) (data : Value) (m : Text) : Prop where
  text : ∃ l t, decodeBytes raw = some l ∧ Document l t ∧ t.Clean py.maxStrDigits ∧ data = t.value
  object : ∃ ms, data = .obj ms
  method : dictGet (txt "method") data = some (.str m)
  length : 1 ≤ m.length ∧ m.length ≤ 256
  segments : ∀ seg ∈ m.splitOn (ch '/'), seg ≠ [] ∧ seg ≠ txt "." ∧ seg ≠ txt ".."

structure Admissible (py : Interp) (raw : Bytes) (data : Value) (m : Text) :
    Prop extends Candidate py raw data m where
  name : m = txt "tools/call" → ∀ n, paramsName data = some (.str n) → n.length ≤ 256

theorem relativeSegment_false {seg : Text} : relativeSegment seg = false ↔ seg ≠ [] ∧ seg ≠ txt "." ∧
    seg ≠ txt ".." := by
  simp [relativeSegment, and_assoc]

theorem guard_iff {m : Text} : (m.splitOn (ch '/')).any relativeSegment = false ↔
    ∀ seg ∈ m.splitOn (ch '/'), seg ≠ [] ∧ seg ≠ txt "." ∧ seg ≠ txt ".." := by
  rw [List.any_eq_false]
  refine forall₂_congr fun seg _ => ?_
  rw [← relativeSegment_false, Bool.not_eq_true]

theorem resolveTool_name {py : Interp} {data : Value} {p : JsonRpcParse}
    (h : resolveTool py data (txt "tools/call") = .ok p) (he : p.error = none) {n : Text}
    (hn : paramsName data = some (.str n)) : n.length ≤ 256 := by
  rw [resolveTool] at h
  split at h
  · cases h
  rw [if_pos rfl, hn] at h
  dsimp only at h
  split at h
  · cases h
    cases he
  · exact Nat.le_of_not_lt ‹_›

theorem resolveRequest_within {py : Interp} {data : Value} {m : Text}
    (hm : dictGet (txt "method") data = some (.str m)) (hpos : 1 ≤ m.length) (hlen : m.length ≤ 256)
    (hseg : ∀ seg ∈ m.splitOn (ch '/'), seg ≠ [] ∧ seg ≠ txt "." ∧ seg ≠ txt "..") :
    resolveRequest py data = resolveTool py data m := by
  obtain ⟨m', ms, rfl⟩ := dictGet_some hm
  have hlong : ¬ maxIdentifierLen < m.length := Nat.not_lt.mpr hlen
  rw [resolveRequest, resolveMethod, hm]
  dsimp only
  rw [if_neg (List.ne_nil_of_length_pos hpos), if_neg hlong, guard_iff.mpr hseg, if_neg Bool.false_ne_true]

theorem resolveRequest_accepts {py : Interp} {data : Value} {p : JsonRpcParse}
    (h : resolveRequest py data = .ok p) :
    p.error = none ↔ ∃ m, dictGet (txt "method") data = some (.str m) ∧ (1 ≤ m.length ∧ m.length ≤ 256) ∧
      (∀ seg ∈ m.splitOn (ch '/'), seg ≠ [] ∧ seg ≠ txt "." ∧ seg ≠ txt "..") ∧
      (m = txt "tools/call" → ∀ n, paramsName data = some (.str n) → n.length ≤ 256) := by
  constructor
  · intro he
    have hr := resolveRequest_ok h he
    obtain ⟨m, _, hm, hne, hlen, hseg⟩ := hr.method
    have hguard : (m.splitOn (ch '/')).any relativeSegment = false := by simpa using hseg
    have hpos : 1 ≤ m.length := List.length_pos_of_ne_nil hne
    refine ⟨m, hm, ⟨hpos, hlen⟩, guard_iff.mp hguard, ?_⟩
    rintro rfl n hn
    rw [resolveRequest_within hm hpos hlen (guard_iff.mp hguard)] at h
    exact resolveTool_name h he hn
  · rintro ⟨m, hm, ⟨hpos, hlen⟩, hseg, hname⟩
    rw [resolveRequest_within hm hpos hlen hseg, resolveTool] at h
    split at h
    · cases h
    split at h
    · rename_i htools
      split at h
      · rename_i n hn
        have hlong : ¬ maxIdentifierLen < n.length := Nat.not_lt.mpr (hname htools n hn)
        rw [if_neg hlong] at h
        cases h
        rfl
      · cases h
        rfl
    · cases h
      rfl

/-- Loading gives a value exactly on the clean texts, when nesting does not stop it. -/
theorem loads_iff {py : Interp} {raw : Bytes} (hrec : loads py.decoder py.loadsDepth raw ≠ .error .recursion)
    {data : Value} :
    loads py.decoder py.loadsDepth raw = .ok data ↔
      ∃ l t, decodeBytes raw = some l ∧ Document l t ∧ t.Clean py.maxStrDigits ∧ data = t.value := by
  rw [loads] at hrec ⊢
  cases hd : decodeBytes raw with
  | none => simp
  | some l =>
    rw [hd] at hrec
    dsimp only at hrec ⊢
    rw [scanDocument_ok]
    constructor
    · rintro ⟨t, ht, hv⟩
      obtain ⟨⟨_, hc⟩, rfl⟩ := (eval_clean noDuplicateKeys_iff (decoder_parseConstant py)).mp hv
      exact ⟨l, t, rfl, ht, hc, rfl⟩
    · rintro ⟨l', t, hl, ht, hc, rfl⟩
      cases hl
      refine ⟨t, ht, ?_⟩
      rw [scanDocument_complete py.decoder ht] at hrec
      cases hv : py.decoder.eval py.loadsDepth t with
      | ok v => rw [((eval_clean noDuplicateKeys_iff (decoder_parseConstant py)).mp hv).2]
      | error e =>
        rw [hv, eval_clean_error noDuplicateKeys_iff hc hv] at hrec
        exact absurd rfl hrec

theorem parseJsonrpc_data {py : Interp} {raw : Bytes} {p : JsonRpcParse} {data : Value}
    (h : parseJsonrpc py raw = .ok p)
    (hl : loads py.decoder py.loadsDepth raw = .ok data) : resolveRequest py data = .ok p := by
  rw [parseJsonrpc, hl] at h
  exact h

theorem not_recursion {py : Interp} {raw : Bytes} {p : JsonRpcParse} (h : parseJsonrpc py raw = .ok p) :
    loads py.decoder py.loadsDepth raw ≠ .error .recursion := by
  intro hr
  rw [parseJsonrpc, hr] at h
  cases h

/-- The parser accepts exactly its grammar. -/
theorem accepts_grammar {py : Interp} {raw : Bytes} {p : JsonRpcParse} (h : parseJsonrpc py raw = .ok p) :
    (p.error = none ↔ ∃ data m, Admissible py raw data m) ∧
      (∀ data m, Admissible py raw data m → p.method = some m ∧ (∃ b, p.canonicalBody = some b) ∧
        ∀ n, p.toolName = some n ↔ m = txt "tools/call" ∧ paramsName data = some (.str n) ∧ n ≠ []) ∧
      (p.error ≠ none → p.method = none ∧ p.toolName = none ∧ p.canonicalBody = none) := by
  have hload : ∀ data, loads py.decoder py.loadsDepth raw = .ok data ↔ _ := fun _ => loads_iff (not_recursion h)
  have hok : ∀ data m, Admissible py raw data m → resolveRequest py data = .ok p ∧ p.error = none := by
    intro data m hr
    have hreq := parseJsonrpc_data h ((hload data).mpr hr.text)
    exact ⟨hreq, (resolveRequest_accepts hreq).mpr ⟨m, hr.method, hr.length, hr.segments, hr.name⟩⟩
  refine ⟨⟨?_, ?_⟩, ?_, parseJsonrpc_refused h⟩
  · intro he
    obtain ⟨data, hl, hreq⟩ := parseJsonrpc_ok h he
    obtain ⟨m, hm, hlen, hseg, hname⟩ := (resolveRequest_accepts hreq).mp he
    obtain ⟨m', ms, rfl⟩ := dictGet_some hm
    exact ⟨_, m, ⟨(hload _).mp hl, ⟨_, rfl⟩, hm, hlen, hseg⟩, hname⟩
  · rintro ⟨data, m, hr⟩
    exact (hok data m hr).2
  · intro data m hr
    obtain ⟨hreq, he⟩ := hok data m hr
    have hres := resolveRequest_ok hreq he
    obtain ⟨m', hpm, hm', _⟩ := hres.method
    obtain ⟨b, hb, _⟩ := hres.canonical
    obtain rfl : m' = m := by
      have := hm'.symm.trans hr.method
      cases this
      rfl
    refine ⟨hpm, ⟨b, hb⟩, fun n => ?_⟩
    rw [hres.toolName n, hpm, Option.some.injEq]

theorem accepts_grammar_call :
    (none = (none : Option Text) ↔ ∃ data m, Admissible .ascii
        (ascii "\x7b\"method\":\"tools/call\",\"params\":\x7b\"name\":\"echo\"\x7d\x7d") data m) ∧
      (∀ data m, Admissible .ascii (ascii "\x7b\"method\":\"tools/call\",\"params\":\x7b\"name\":\"echo\"\x7d\x7d") data m →
        some (txt "tools/call") = some m ∧
        (∃ b, some (ascii "\x7b\"method\":\"tools/call\",\"params\":\x7b\"name\":\"echo\"\x7d\x7d") = some b) ∧
        ∀ n, some (txt "echo") = some n ↔ m = txt "tools/call" ∧ paramsName data = some (.str n) ∧ n ≠ []) ∧
      (none ≠ (none : Option Text) → some (txt "tools/call") = none ∧ some (txt "echo") = none ∧
        some (ascii "\x7b\"method\":\"tools/call\",\"params\":\x7b\"name\":\"echo\"\x7d\x7d") = none) :=
  @accepts_grammar .ascii _
    { method := some (txt "tools/call"), toolName := some (txt "echo"),
      canonicalBody := some (ascii "\x7b\"method\":\"tools/call\",\"params\":\x7b\"name\":\"echo\"\x7d\x7d") }
    (by decide +kernel)

end McpGateway
