import McpGateway.Acceptance
import McpGateway.DumpsTotal
import McpGateway.JsonDepth

/-!
# Bodies the parser does not survive

The parser catches what loading raises but for the recursion limit, and
nothing of what printing and encoding raise.
-/

namespace McpGateway

open Unicode Binary64 Json

theorem canonicalize_total {py : Interp} {data : Value} :
    (∃ b, canonicalize py data = .ok b) ↔
      (data.depth ≤ py.dumpsDepth ∧ data.Printable py.encoder) ∧ ∀ x ∈ data.texts, Scalar x := by
  rw [← dumps_total, canonicalize]
  cases hs : py.encoder.dumps py.dumpsDepth data with
  | error e => cases e <;> simp
  | ok s =>
    rw [← dumps_encodes rfl hs]
    dsimp only
    cases encodeUtf8 s <;> simp

theorem value_ints {py : Interp} {t : Tree} (hc : t.Clean py.maxStrDigits) :
    ∀ z ∈ t.value.ints, tooLong py.maxStrDigits (toDigits z.natAbs) = false := by
  induction t using Tree.nested with
  | null => exact fun z hz => by cases hz
  | bool b => exact fun z hz => by cases hz
  | const c => cases hc.strict
  | str s => exact fun z hz => by cases hz
  | num n =>
    rw [clean_num, Bool.and_eq_false_iff] at hc
    rw [Tree.value]
    cases hi : n.isInt with
    | false => exact fun z hz => by cases hz
    | true =>
      intro z hz
      cases hz with
      | tail _ hz => cases hz
      | head =>
        have hdigits : ∀ n, py.decoder.maxStrDigits = some n → 0 < n ∧ py.decoder.maxStrDigits = some n :=
          fun n hn => ⟨Nat.lt_of_lt_of_le (by decide) (py.maxStrDigits_ge n hn), hn⟩
        exact tooLong_toDigits hdigits (hc.resolve_left (by simp [hi]))
  | arr ts ih =>
    intro z hz
    rw [Tree.value, values_eq] at hz
    obtain ⟨v, hv, hz⟩ := mem_collectElems.mp hz
    obtain ⟨t, ht, rfl⟩ := List.mem_map.mp hv
    exact ih t ht (clean_arr.mp hc t ht) z hz
  | obj ms ih =>
    intro z hz
    rw [Tree.value, memberValues_eq] at hz
    obtain ⟨p, hp, hz⟩ := mem_collectMembers.mp hz
    obtain ⟨m, hm, rfl⟩ := List.mem_map.mp hp
    exact ih m hm ((clean_obj.mp hc).2 m hm) z hz

/-! ## The condition -/

/-- The body is not nested too deep for the decoder and, if it is a request,
nor for the encoder, and it holds no surrogate. -/
structure Parsable (py : Interp) (raw : Bytes) : Prop where
  shallow : ∀ l, decodeBytes raw = some l → ¬ DeepText py.maxStrDigits py.loadsDepth l
  printable : ∀ data m, Candidate py raw data m → data.depth ≤ py.dumpsDepth ∧ ∀ x ∈ data.texts, Scalar x

theorem eval_fits (py : Interp) {t : Tree} {d : Nat} (hd : t.depth ≤ d) (hc : t.Clean py.maxStrDigits) :
    ∃ v, py.decoder.eval d t = .ok v :=
  ⟨t.value, (eval_clean noDuplicateKeys_iff (decoder_parseConstant py)).mpr ⟨⟨hd, hc⟩, rfl⟩⟩

theorem loads_recursion {py : Interp} {raw : Bytes} :
    loads py.decoder py.loadsDepth raw = .error .recursion ↔
      ∃ l, decodeBytes raw = some l ∧ DeepText py.maxStrDigits py.loadsDepth l := by
  rw [loads]
  cases hl : decodeBytes raw with
  | none => simp
  | some l =>
    dsimp only
    constructor
    · intro h
      refine ⟨l, rfl, scanDocument_recursion py.decoder ?_ h⟩
      exact fun hv => ((eval_clean noDuplicateKeys_iff (decoder_parseConstant py)).mp hv).1
    · rintro ⟨l', hl', hd⟩
      cases hl'
      exact scanDocument_deep py.decoder (eval_fits py) hd

/-- Only the canonical form of a candidate can fail once the body is loaded. -/
theorem resolveRequest_total {py : Interp} {data : Value} :
    (∃ p, resolveRequest py data = .ok p) ↔
      ∀ m, dictGet (txt "method") data = some (.str m) → 1 ≤ m.length ∧ m.length ≤ 256 →
        (∀ seg ∈ m.splitOn (ch '/'), seg ≠ [] ∧ seg ≠ txt "." ∧ seg ≠ txt "..") →
        ∃ b, canonicalize py data = .ok b := by
  constructor
  · rintro ⟨p, h⟩ m hm hlen hseg
    rw [resolveRequest_within hm hlen.1 hlen.2 hseg, resolveTool] at h
    cases hb : canonicalize py data with
    | error e =>
      rw [hb] at h
      cases h
    | ok b => exact ⟨b, rfl⟩
  · intro h
    rcases resolveRequest_cases py data with heq | ⟨error, errorCode, heq⟩
    · rw [heq, resolveMethod]
      split
      · rename_i m hm
        split_ifs with h1 h2 h3
        · exact ⟨_, rfl⟩
        · exact ⟨_, rfl⟩
        · exact ⟨_, rfl⟩
        · have hseg := guard_iff.mp (Bool.eq_false_iff.mpr h3)
          obtain ⟨b, hb⟩ := h m hm ⟨List.length_pos_of_ne_nil h1, Nat.le_of_not_lt h2⟩ hseg
          rw [resolveTool, hb]
          dsimp only
          split
          · split
            · split <;> exact ⟨_, rfl⟩
            · exact ⟨_, rfl⟩
          · exact ⟨_, rfl⟩
      · exact ⟨_, rfl⟩
    · exact ⟨_, heq⟩

theorem parseJsonrpc_total {py : Interp} {raw : Bytes} :
    (∃ p, parseJsonrpc py raw = .ok p) ↔ loads py.decoder py.loadsDepth raw ≠ .error .recursion ∧
      ∀ data, loads py.decoder py.loadsDepth raw = .ok data → ∃ p, resolveRequest py data = .ok p := by
  rw [parseJsonrpc]
  cases hl : loads py.decoder py.loadsDepth raw with
  | ok data => simp
  | error e =>
    cases e with
    | malformed => simp
    | digits => simp
    | recursion => simp
    | hook e => cases e <;> simp

theorem parsable_iff {py : Interp} {raw : Bytes} : (∃ p, parseJsonrpc py raw = .ok p) ↔ Parsable py raw := by
  rw [parseJsonrpc_total]
  constructor
  · rintro ⟨hrec, htotal⟩
    refine ⟨fun l hl hd => hrec (loads_recursion.mpr ⟨l, hl, hd⟩), fun data m hm => ?_⟩
    have hp := htotal data ((loads_iff hrec).mpr hm.text)
    obtain ⟨⟨hdepth, _⟩, hs⟩ := canonicalize_total.mp (resolveRequest_total.mp hp m hm.method hm.length hm.segments)
    exact ⟨hdepth, hs⟩
  · intro h
    have hrec : loads py.decoder py.loadsDepth raw ≠ .error .recursion := by
      intro hr
      obtain ⟨l, hl, hd⟩ := loads_recursion.mp hr
      exact h.shallow l hl hd
    refine ⟨hrec, fun data hdata => resolveRequest_total.mpr fun m hm hlen hseg => ?_⟩
    have htext := (loads_iff hrec).mp hdata
    obtain ⟨m', ms, rfl⟩ := dictGet_some hm
    obtain ⟨hdepth, hs⟩ := h.printable _ m ⟨htext, ⟨_, rfl⟩, hm, hlen, hseg⟩
    obtain ⟨l, t, _, _, hc, ht⟩ := htext
    have hints := value_ints hc
    rw [← ht] at hints
    exact canonicalize_total.mpr ⟨⟨hdepth, hints, Or.inl rfl⟩, hs⟩

/-- The parser returns exactly on the bodies it can load and print. -/
theorem parse_returns_iff (py : Interp) (raw : Bytes) :
    (∃ p, parseJsonrpc py raw = .ok p ∧ (p.canonicalBody = none → p.error ≠ none)) ↔ Parsable py raw := by
  rw [← parsable_iff]
  refine exists_congr fun p => and_iff_left_of_imp fun h hb he => ?_
  obtain ⟨data, s, b, ha⟩ := accepted_of_parse h he
  rw [ha.body] at hb
  cases hb

/-- A lone surrogate passes every check and cannot be encoded. -/
theorem parse_not_total :
    ¬ ∀ py raw, ∃ p, parseJsonrpc py raw = .ok p ∧ (p.canonicalBody = none → p.error ≠ none) := by
  intro h
  obtain ⟨p, hp, _⟩ := h .ascii (ascii "\x7b\"method\":\"ping\",\"x\":\"\\ud800\"\x7d")
  have hraise : parseJsonrpc .ascii (ascii "\x7b\"method\":\"ping\",\"x\":\"\\ud800\"\x7d") =
    .error .unicodeEncodeError := by
    decide +kernel
  rw [hraise] at hp
  cases hp

end McpGateway
