import McpGateway.JsonRpc

/-!
# The canonical body

Every reader of the canonical body sees the data the gateway checked, and the
body is strict JSON with the same parse unless a number literal of the request
rounds to infinity.
-/

namespace McpGateway

open Unicode Binary64 Json

/-! ## The printed text -/

theorem dumps_obj_head {enc : Encoder} {d : Nat} {m : Text × Value} {ms : List (Text × Value)} {s : Text}
    (h : enc.dumps d (.obj (m :: ms)) = .ok s) : ∃ l, s = ch '{' :: ch '"' :: l := by
  cases d with
  | zero => simp [Encoder.dumps] at h
  | succ d =>
    rw [Encoder.dumps] at h
    split at h <;> cases h
    rename_i l hl
    rw [Encoder.dumpsMembers] at hl
    split at hl
    · cases hl
    split at hl <;> cases hl
    rename_i l _
    cases l with
    | nil => exact ⟨_, by rw [commas, strText]; rfl⟩
    | cons s' l => exact ⟨_, by rw [commas, strText]; rfl⟩

theorem encodeUtf8_obj {l : Text} {b : Bytes} (h : encodeUtf8 (ch '{' :: ch '"' :: l) = some b) :
    ∃ rest, b = 0x7B :: 0x22 :: rest := by
  have hb : utf8Char (ch '{') = some [0x7B] := by decide
  have hq : utf8Char (ch '"') = some [0x22] := by decide
  simp only [encodeUtf8, hb, hq] at h
  cases hl : encodeUtf8 l with
  | none => rw [hl] at h; cases h
  | some rest => rw [hl] at h; cases h; exact ⟨rest, rfl⟩

theorem dumps_obj_detected {enc : Encoder} {d : Nat} {m : Text × Value} {ms : List (Text × Value)}
    {s : Text} {b : Bytes}
    (h : enc.dumps d (.obj (m :: ms)) = .ok s) (hb : encodeUtf8 s = some b) : decodeBytes b = some s := by
  obtain ⟨l, rfl⟩ := dumps_obj_head h
  obtain ⟨rest, rfl⟩ := encodeUtf8_obj hb
  rw [decodeBytes_utf8 (by decide) (by decide) (by decide)]
  exact decodeUtf8_encodeUtf8 hb

theorem dictGet_some {key : Text} {v data : Value} (h : dictGet key data = some v) :
    ∃ m ms, data = .obj (m :: ms) := by
  unfold dictGet at h
  split at h
  · rename_i ms
    cases ms with
    | nil => cases h
    | cons m ms => exact ⟨m, ms, rfl⟩
  · cases h

/-! ## Accepted requests -/

structure Accepted (py : Interp) (raw : Bytes) (p : JsonRpcParse) (data : Value) (s : Text) (b : Bytes) : Prop where
  loaded : loads py.decoder py.loadsDepth raw = .ok data
  request : resolveRequest py data = .ok p
  resolved : Resolved py data p
  printed : py.encoder.dumps py.dumpsDepth data = .ok s
  encoded : encodeUtf8 s = some b
  body : p.canonicalBody = some b
  detected : decodeBytes b = some s

theorem accepted_of_parse {py : Interp} {raw : Bytes} {p : JsonRpcParse} (h : parseJsonrpc py raw = .ok p)
    (he : p.error = none) : ∃ data s b, Accepted py raw p data s b := by
  obtain ⟨data, hload, hreq⟩ := parseJsonrpc_ok h he
  have hres := resolveRequest_ok hreq he
  obtain ⟨b, hb, hcan⟩ := hres.canonical
  rw [canonicalize] at hcan
  split at hcan
  · cases hcan
  · cases hcan
  rename_i s hs
  split at hcan <;> cases hcan
  rename_i henc
  obtain ⟨m, _, hm, _⟩ := hres.method
  have hdec : decodeBytes b = some s := by
    obtain ⟨m', ms, rfl⟩ := dictGet_some hm
    exact dumps_obj_detected hs henc
  exact ⟨data, s, b, hload, hreq, hres, hs, henc, hb, hdec⟩

section
variable {py : Interp} {raw : Bytes} {p : JsonRpcParse} {data : Value} {s : Text} {b : Bytes}

theorem Accepted.tree (h : Accepted py raw p data s b) :
    ∃ l t, decodeBytes raw = some l ∧ Document l t ∧ py.decoder.eval py.loadsDepth t = .ok data := by
  have hl := h.loaded
  rw [loads] at hl
  split at hl
  · cases hl
  · rename_i l hd
    obtain ⟨t, ht, hv⟩ := (scanDocument_ok py.decoder).mp hl
    exact ⟨l, t, hd, ht, hv⟩

theorem Accepted.document (h : Accepted py raw p data s b) : Document s data.tree := dumps_document rfl h.printed

theorem Accepted.reads (h : Accepted py raw p data s b) (policy : DupPolicy) (w : Value) :
    Reads policy b w ↔ w = data := by
  obtain ⟨l, t, _, _, hv⟩ := h.tree
  have hread : policy.decoder.eval py.loadsDepth data.tree = .ok data := by
    refine eval_reread ?_ (fun c w hw => absurd hw (decoder_parseConstant py c w)) (fun n hn => by cases hn) hv
      fun x _ => Or.inr fun c => rfl
    intro ps w hw
    obtain ⟨hd, rfl⟩ := noDuplicateKeys_ok hw
    exact ⟨ps, rfl, List.Subset.refl ps, policy.objectPairs_distinct hd⟩
  constructor
  · rintro ⟨l', t', d, hl', ht', hv'⟩
    have hs : l' = s := by
      rw [decodeUtf8_encodeUtf8 h.encoded, h.detected, or_self] at hl'
      exact (Option.some.inj hl').symm
    subst hs
    exact document_value ht' h.document hv' hread
  · rintro rfl
    exact ⟨s, w.tree, py.loadsDepth, Or.inr h.detected, h.document, hread⟩

theorem Accepted.reparse (h : Accepted py raw p data s b) :
    (∃ q, parseJsonrpc py b = .ok q ∧ q.error = none) → ∀ x ∈ data.floats, x.isFinite = true := by
  rintro ⟨q, hq, he⟩
  obtain ⟨v, hv, _⟩ := parseJsonrpc_ok hq he
  rw [loads, h.detected] at hv
  dsimp only at hv
  rw [scanDocument_complete py.decoder h.document] at hv
  exact (tree_strict data).mp (eval_strict (decoder_parseConstant py) hv)

theorem Accepted.same (h : Accepted py raw p data s b) (hfin : ∀ x ∈ data.floats, x.isFinite = true) :
    parseJsonrpc py b = .ok p := by
  obtain ⟨l, t, _, _, hv⟩ := h.tree
  have hread : py.decoder.eval py.loadsDepth data.tree = .ok data := by
    refine eval_reread ?_ (fun c w hw => absurd hw (decoder_parseConstant py c w)) ?_ hv fun x hx =>
      Or.inl (hfin x hx)
    · intro ps w hw
      obtain ⟨hd, rfl⟩ := noDuplicateKeys_ok hw
      exact ⟨ps, rfl, List.Subset.refl ps, hw⟩
    · intro n hn
      exact ⟨Nat.lt_of_lt_of_le (by decide) (py.maxStrDigits_ge n hn), hn⟩
  have hload : loads py.decoder py.loadsDepth b = .ok data := by
    rw [loads, h.detected]
    dsimp only
    rw [scanDocument_complete py.decoder h.document, hread]
  rw [parseJsonrpc, hload]
  exact h.request

theorem Accepted.strict (h : Accepted py raw p data s b) (hfin : ∀ x ∈ data.floats, x.isFinite = true) :
    Rfc8259 b :=
  ⟨s, data.tree, h.encoded, h.document, (tree_strict data).mpr hfin⟩

end

/-! ## No parser differential -/

/-- Whatever its duplicate policy, a reader of the canonical body gets exactly
the data that were checked. -/
theorem canonical_no_differential {py : Interp} {raw : Bytes} {p : JsonRpcParse} (h : parseJsonrpc py raw = .ok p)
    (he : p.error = none) :
    ∃ v b, loads py.decoder py.loadsDepth raw = .ok v ∧ p.canonicalBody = some b ∧
      ∀ policy w, (Reads policy b w ↔ w = v) ∧
        (Reads policy b w →
          (∃ m, p.method = some m ∧ dictGet (txt "method") w = some (.str m)) ∧
          (p.method = some (txt "tools/call") →
            ∀ n, p.toolName = some n ↔ paramsName w = some (.str n) ∧ n ≠ [])) := by
  obtain ⟨v, s, b, ha⟩ := accepted_of_parse h he
  refine ⟨v, b, ha.loaded, ha.body, fun policy w => ⟨ha.reads policy w, ?_⟩⟩
  intro hr
  obtain rfl := (ha.reads policy w).mp hr
  obtain ⟨m, hm, hget, _⟩ := ha.resolved.method
  refine ⟨⟨m, hm, hget⟩, fun htools n => ?_⟩
  rw [ha.resolved.toolName n]
  exact ⟨fun h => h.2, fun h => ⟨htools, h⟩⟩

theorem canonical_no_differential_call :
    ∃ v b, loads Interp.ascii.decoder Interp.ascii.loadsDepth
        (ascii "\x7b\"method\":\"tools/call\",\"params\":\x7b\"name\":\"echo\"\x7d\x7d") = .ok v ∧
      some (ascii "\x7b\"method\":\"tools/call\",\"params\":\x7b\"name\":\"echo\"\x7d\x7d") = some b ∧
      ∀ policy w, (Reads policy b w ↔ w = v) ∧
        (Reads policy b w →
          (∃ m, some (txt "tools/call") = some m ∧ dictGet (txt "method") w = some (.str m)) ∧
          (some (txt "tools/call") = some (txt "tools/call") →
            ∀ n, some (txt "echo") = some n ↔ paramsName w = some (.str n) ∧ n ≠ [])) :=
  @canonical_no_differential .ascii _
    { method := some (txt "tools/call"), toolName := some (txt "echo"),
      canonicalBody := some (ascii "\x7b\"method\":\"tools/call\",\"params\":\x7b\"name\":\"echo\"\x7d\x7d") }
    (by decide +kernel) rfl

/-! ## Strictness -/

/-- A number literal of the body rounds to infinity. -/
def OverflowLiteral (raw : Bytes) : Prop :=
  ∃ l t n, decodeBytes raw = some l ∧ Document l t ∧ n ∈ t.numerals ∧ n.overflows = true

theorem Accepted.finite {py : Interp} {raw : Bytes} {p : JsonRpcParse} {data : Value} {s : Text} {b : Bytes}
    (h : Accepted py raw p data s b) : (∀ x ∈ data.floats, x.isFinite = true) ↔ ¬ OverflowLiteral raw := by
  obtain ⟨l, t, hl, ht, hv⟩ := h.tree
  constructor
  · rintro hfin ⟨l', t', n, hl', ht', hn, ho⟩
    rw [hl] at hl'
    cases hl'
    rw [document_eval py.decoder ht ht'] at hv
    have := (eval_finite (decoder_objectPairs py) (decoder_parseConstant py) hv).mp hfin n hn
    rw [this] at ho
    cases ho
  · intro hno
    refine (eval_finite (decoder_objectPairs py) (decoder_parseConstant py) hv).mpr fun n hn => ?_
    by_contra ho
    exact hno ⟨l, t, n, hl, ht, hn, by simpa using ho⟩

/-- Strict JSON with the same parse, exactly when no literal overflows. -/
theorem canonical_strict_iff {py : Interp} {raw : Bytes} {p : JsonRpcParse} (h : parseJsonrpc py raw = .ok p)
    (he : p.error = none) :
    (∃ b, p.canonicalBody = some b ∧ Rfc8259 b ∧ ∃ q, parseJsonrpc py b = .ok q ∧ q.error = none ∧
      q.method = p.method ∧ q.toolName = p.toolName ∧ q.canonicalBody = p.canonicalBody) ↔
      ¬ OverflowLiteral raw := by
  obtain ⟨data, s, b, ha⟩ := accepted_of_parse h he
  rw [← ha.finite]
  constructor
  · rintro ⟨b', hb', _, q, hq, hqe, _⟩
    have hbb : b' = b := by rw [ha.body] at hb'; exact (Option.some.inj hb').symm
    subst hbb
    exact ha.reparse ⟨q, hq, hqe⟩
  · intro hfin
    exact ⟨b, ha.body, ha.strict hfin, p, ha.same hfin, he, rfl, rfl, rfl⟩

theorem canonical_strict_iff_ping :
    (∃ b, some (ascii "\x7b\"method\":\"ping\"\x7d") = some b ∧ Rfc8259 b ∧
      ∃ q, parseJsonrpc .ascii b = .ok q ∧ q.error = none ∧ q.method = some (txt "ping") ∧ q.toolName = none ∧
        q.canonicalBody = some (ascii "\x7b\"method\":\"ping\"\x7d")) ↔
      ¬ OverflowLiteral (ascii "\x7b\"method\":\"ping\"\x7d") :=
  @canonical_strict_iff .ascii _
    { method := some (txt "ping"), canonicalBody := some (ascii "\x7b\"method\":\"ping\"\x7d") }
    (by decide +kernel) rfl

/-- `1e400` is loaded as infinity and printed as a token outside JSON. -/
theorem canonical_not_strict :
    ¬ ∀ py raw p, parseJsonrpc py raw = .ok p → p.error = none →
      ∃ b, p.canonicalBody = some b ∧ Rfc8259 b ∧ ∃ q, parseJsonrpc py b = .ok q ∧ q.error = none ∧
        q.method = p.method ∧ q.toolName = p.toolName ∧ q.canonicalBody = p.canonicalBody := by
  intro h
  have hp : parseJsonrpc .ascii (ascii "\x7b\"method\":\"ping\",\"x\":1e400\x7d") =
      .ok { method := some (txt "ping"),
            canonicalBody := some (ascii "\x7b\"method\":\"ping\",\"x\":Infinity\x7d") } := by decide +kernel
  obtain ⟨b, hb, _, q, hq, he, _⟩ := h _ _ _ hp rfl
  cases hb
  have hr : parseJsonrpc .ascii (ascii "\x7b\"method\":\"ping\",\"x\":Infinity\x7d") =
      .ok (refuse (txt "request contains a non-standard JSON constant: Infinity")
        (txt "nonstandard_json_constant")) := by
    decide +kernel
  rw [hr] at hq
  cases hq
  cases he

end McpGateway
