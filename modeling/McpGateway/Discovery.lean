import McpGateway.Disclosure
import McpGateway.Forwarding
import McpGateway.Totality

/-!
# Discovery and invocation

The filter keeps an entry when the policy allows its name. A call of that name
is forwarded when, besides, the parser gets through the text of the call.
-/

namespace McpGateway

open Unicode Json

structure CallText (raw : Bytes) (t : Tree) (n : Text) : Prop where
  text : ∃ l, decodeBytes raw = some l ∧ Document l t
  strict : t.strict = true
  distinct : t.distinct = true
  method : dictGet (txt "method") t.value = some (.str (txt "tools/call"))
  name : paramsName t.value = some (.str n)

/-- The parser loads and prints the text, with integers within the digit limit. -/
structure Fits (py : Interp) (raw : Bytes) (t : Tree) : Prop where
  digits : t.withinDigits py.maxStrDigits = true
  parsable : Parsable py raw

/-- The call is parsed to the tool `n`, which the policy allows. -/
def Callable (py : Interp) (policy : ToolPolicy) (claims : Option Claims) (raw : Bytes) (n : Text) : Prop :=
  ∃ p, parseJsonrpc py raw = .ok p ∧ p.error = none ∧ p.toolName = some n ∧ (policy.check n claims).allowed = true

structure Cleared (py : Interp) (gw : Gateway) (request : Request) (v : Option VerifiedToken) : Prop where
  origin : ∀ origin, request.header (txt "origin") = some origin →
    normalizeOrigin py origin ∈ gw.settings.allowedOrigins.map (normalizeOrigin py)
  raises : ¬ LengthRaises py gw request
  declared : 0 < gw.settings.maxRequestBytes → ∀ declared, request.header (txt "content-length") = some declared →
    ¬ DeclaresOver py gw.settings.maxRequestBytes declared
  size : 0 < gw.settings.maxRequestBytes → (request.chunks.flatten.length : Int) ≤ gw.settings.maxRequestBytes
  complete : request.disconnected = false
  token : Authenticates py gw request v
  scope : (gw.policy.check py (txt "tools/call") (heldScopes v)).allowed = true

section
variable {py : Interp} {policy : ToolPolicy} {claims : Option Claims} {raw : Bytes} {t : Tree} {n : Text}

/-! ## The parser -/

theorem CallText.loaded (h : CallText raw t n) {p : JsonRpcParse} (hp : parseJsonrpc py raw = .ok p)
    (he : p.error = none) :
    loads py.decoder py.loadsDepth raw = .ok t.value ∧ t.Clean py.maxStrDigits := by
  obtain ⟨data, hload, _⟩ := parseJsonrpc_ok hp he
  obtain ⟨l, hl, ht⟩ := h.text
  obtain ⟨l', t', hl', ht', hc', rfl⟩ := (loads_iff (not_recursion hp)).mp hload
  rw [hl] at hl'
  cases hl'
  have heval : py.decoder.eval t'.depth t' = .ok t'.value :=
    (eval_clean noDuplicateKeys_iff (decoder_parseConstant py)).mpr ⟨⟨Nat.le_refl _, hc'⟩, rfl⟩
  rw [document_eval py.decoder ht' ht] at heval
  obtain ⟨⟨_, hc⟩, hvalue⟩ := (eval_clean noDuplicateKeys_iff (decoder_parseConstant py)).mp heval
  exact ⟨hvalue ▸ hload, hc⟩

theorem CallText.resolved (h : CallText raw t n) (hne : n ≠ []) {p : JsonRpcParse}
    (hp : parseJsonrpc py raw = .ok p)
    (he : p.error = none) : p.method = some (txt "tools/call") ∧ p.toolName = some n := by
  have hres := resolveRequest_ok (parseJsonrpc_data hp (h.loaded hp he).1) he
  obtain ⟨m, hm, hget, _⟩ := hres.method
  rw [h.method] at hget
  cases hget
  exact ⟨hm, (hres.toolName n).mpr ⟨hm, h.name, hne⟩⟩

theorem CallText.accepted (h : CallText raw t n) (hlen : n.length ≤ 256) (hfits : Fits py raw t) :
    ∃ p, parseJsonrpc py raw = .ok p ∧ p.error = none := by
  obtain ⟨p, hp⟩ := parsable_iff.mpr hfits.parsable
  obtain ⟨l, hl, ht⟩ := h.text
  have hload : loads py.decoder py.loadsDepth raw = .ok t.value :=
    (loads_iff (not_recursion hp)).mpr ⟨l, t, hl, ht, ⟨h.strict, h.distinct, hfits.digits⟩, rfl⟩
  refine ⟨p, hp, (resolveRequest_accepts (parseJsonrpc_data hp hload)).mpr ⟨_, h.method, by decide, by decide, ?_⟩⟩
  intro _ m hm
  rw [h.name] at hm
  cases hm
  exact hlen

theorem callable_iff (h : CallText raw t n) (hne : n ≠ []) (hlen : n.length ≤ 256) :
    Callable py policy claims raw n ↔ Fits py raw t ∧ (policy.check n claims).allowed = true := by
  constructor
  · rintro ⟨p, hp, he, _, hallowed⟩
    exact ⟨⟨(h.loaded hp he).2.digits, parsable_iff.mp ⟨p, hp⟩⟩, hallowed⟩
  · rintro ⟨hfits, hallowed⟩
    obtain ⟨p, hp, he⟩ := h.accepted hlen hfits
    exact ⟨p, hp, he, (h.resolved hne hp he).2, hallowed⟩

/-! ## The gates -/

theorem forwarded_iff {gw : Gateway} {request : Request} {v : Option VerifiedToken}
    (hclear : Cleared py gw request v)
    (hpolicy : gw.toolPolicy = some policy) (h : CallText request.chunks.flatten t n) (hne : n ≠ [])
    (upstream : UpstreamRequest → Except Exc UpstreamResponse) (requestId : Text) :
    (proxyMcp py gw request upstream requestId).attempts ≠ [] ↔
      Callable py policy (v.map VerifiedToken.claims) request.chunks.flatten n := by
  rw [proxyMcp_attempts]
  constructor
  · intro hsent
    cases ha : authorize py gw request requestId with
    | error stop =>
      rw [ha] at hsent
      exact absurd rfl hsent
    | ok a =>
      obtain ⟨_, hc, _⟩ := authorize_ok ha
      obtain ⟨hmethod, htool⟩ := h.resolved hne hc.parsed.1 hc.parsed.2
      obtain ⟨tool, htool', hallowed⟩ := hc.tool policy hpolicy hmethod
      rw [htool] at htool'
      cases htool'
      obtain rfl := authenticates_unique hclear.token hc.token
      exact ⟨a.parsed, hc.parsed.1, hc.parsed.2, htool, hallowed⟩
  · rintro ⟨p, hp, he, htool, hallowed⟩
    have hmethod := (h.resolved hne hp he).1
    have hc : Controlled py gw request v p := {
      origin := hclear.origin
      declared := hclear.declared
      size := hclear.size
      complete := hclear.complete
      token := hclear.token
      parsed := ⟨hp, he⟩
      scope := by rw [hmethod]; exact hclear.scope
      tool := by
        intro toolPolicy htp _
        rw [hpolicy] at htp
        cases htp
        exact ⟨n, htool, hallowed⟩ }
    obtain ⟨a, ha, _⟩ := authorize_admits hc hclear.raises requestId
    rw [ha]
    exact List.cons_ne_nil _ _

/-! ## Agreement -/

/-- The filter keeps the entry when the call can be made, and when a cleared caller's is forwarded. -/
structure Agrees (py : Interp) (policy : ToolPolicy) (claims : Option Claims) (kept : List Value)
    (e : Value) (raw : Bytes) (n : Text) : Prop where
  callable : e ∈ kept ↔ Callable py policy claims raw n
  forwarded : ∀ gw request v upstream requestId, Cleared py gw request v → gw.toolPolicy = some policy →
    v.map VerifiedToken.claims = claims → request.chunks.flatten = raw →
    (e ∈ kept ↔ (proxyMcp py gw request upstream requestId).attempts ≠ [])

theorem mem_kept {tools kept : List Value} (h : keepTools policy claims tools = some kept) {e : Value}
    (he : e ∈ tools)
    (hn : dictGet (txt "name") e = some (.str n)) : e ∈ kept ↔ (policy.check n claims).allowed = true := by
  rw [keepTools_named (keepTools_some h)] at h
  cases h
  simp [List.mem_filter, he, denied, hn]

end

/-- A tool that is listed can be called as far as the parser gets through the call. -/
theorem discovery_agrees_iff {py : Interp} {policy : ToolPolicy} {claims : Option Claims} {page : Page}
    {kept : List Value}
    {e : Value} {n : Text} {raw : Bytes} {t : Tree} (hkept : keepTools policy claims page.tools = some kept)
    (he : e ∈ page.tools) (hn : dictGet (txt "name") e = some (.str n)) (hcall : CallText raw t n) :
    Agrees py policy claims kept e raw n ↔ ((policy.check n claims).allowed = true → Fits py raw t) := by
  have hname : 1 ≤ n.length ∧ n.length ≤ 256 := by
    obtain ⟨m, hm, hlen⟩ := page.named e he
    rw [hn] at hm
    cases hm
    exact hlen
  have hne : n ≠ [] := List.ne_nil_of_length_pos hname.1
  have hkeeps := mem_kept hkept he hn
  have hcallable := fun claims => @callable_iff py policy claims raw t n hcall hne hname.2
  constructor
  · intro h hallowed
    exact ((hcallable claims).mp (h.callable.mp (hkeeps.mpr hallowed))).1
  · intro hcond
    have hagree : e ∈ kept ↔ Callable py policy claims raw n := by
      rw [hkeeps, hcallable]
      exact iff_and_self.mpr hcond
    refine ⟨hagree, ?_⟩
    rintro gw request v upstream requestId hclear hpolicy rfl rfl
    rw [hagree, forwarded_iff hclear hpolicy hcall hne]

/-! ## A name that is half of a surrogate pair -/

def callBody (name : Bytes) : Bytes :=
  ascii "\x7b\"method\":\"tools/call\",\"params\":\x7b\"name\":\"" ++ name ++ ascii "\"\x7d\x7d"

def callValue (n : Text) : Value :=
  .obj [(txt "method", .str (txt "tools/call")), (txt "params", .obj [(txt "name", .str n)])]

theorem callText_of {py : Interp} {raw : Bytes} {n : Text}
    (h : loads py.decoder py.loadsDepth raw = .ok (callValue n)) :
    ∃ t, CallText raw t n := by
  have hrec : loads py.decoder py.loadsDepth raw ≠ .error .recursion := by
    rw [h]
    exact fun he => by cases he
  obtain ⟨l, t, hl, ht, hc, hvalue⟩ := (loads_iff hrec).mp h
  exact ⟨t, ⟨l, hl, ht⟩, hc.strict, hc.distinct, hvalue ▸ rfl, hvalue ▸ rfl⟩

theorem discovery_agrees_iff_read : ∃ t, CallText (callBody (ascii "read_file")) t (txt "read_file") ∧
    (Agrees .ascii filesPolicy none [entry (txt "read_file")] (entry (txt "read_file"))
    (callBody (ascii "read_file"))
        (txt "read_file") ↔
      ((filesPolicy.check (txt "read_file") none).allowed = true →
      Fits .ascii (callBody (ascii "read_file")) t)) := by
  have hload : loads Interp.ascii.decoder Interp.ascii.loadsDepth (callBody (ascii "read_file")) =
      .ok (callValue (txt "read_file")) := by
    decide +kernel
  obtain ⟨t, hcall⟩ := callText_of hload
  have hkept : keepTools filesPolicy none (filesPage [txt "rm", txt "read_file"] (by decide)).tools =
      some [entry (txt "read_file")] := by
    decide +kernel
  exact ⟨t, hcall, discovery_agrees_iff hkept (List.mem_cons_of_mem _ List.mem_cons_self) rfl hcall⟩

def highSurrogate : Text := [⟨0xD800, by decide⟩]

theorem surrogate_disagrees : ¬ ∀ py policy claims (page : Page) kept e n raw t,
    keepTools policy claims page.tools = some kept →
    e ∈ page.tools → dictGet (txt "name") e = some (.str n) → CallText raw t n →
    Agrees py policy claims kept e raw n := by
  intro h
  have hload : loads Interp.ascii.decoder Interp.ascii.loadsDepth (callBody (ascii "\\ud800")) =
      .ok (callValue highSurrogate) := by
    decide +kernel
  have hraise : parseJsonrpc .ascii (callBody (ascii "\\ud800")) = .error .unicodeEncodeError := by
    decide +kernel
  have hkept : keepTools ⟨{highSurrogate}, [], []⟩ none (filesPage [highSurrogate] (by decide)).tools =
      some [entry highSurrogate] := by
    decide +kernel
  obtain ⟨t, hcall⟩ := callText_of hload
  have hagrees := h .ascii _ _ _ _ _ _ _ _ hkept List.mem_cons_self rfl hcall
  obtain ⟨p, hp, _⟩ := hagrees.callable.mp List.mem_cons_self
  rw [hraise] at hp
  cases hp

end McpGateway
