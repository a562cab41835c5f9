import McpGateway.Python

/-!
# The verified identity

What the verifier makes of the claims of a valid token, and the two headers
that carry it upstream.
-/

namespace McpGateway

open Unicode Json

structure Claims where
  members : List (Text × Value)
  distinct : (members.map Prod.fst).Nodup

/-- The claims `jwt.decode` returns; it refuses a `sub` that is not a string. -/
structure DecodedClaims extends Claims where
  sub_str : ∀ v, members.lookup (txt "sub") = some v → ∃ s, v = .str s

def Claims.get (claims : Claims) (key : Text) : Option Value := claims.members.lookup key

structure VerifiedToken where
  subject : Text
  scopes : Finset Text
  claims : Claims

/-! ## Scopes -/

def scopeTokenOk (c : CodePoint) : Bool := 0x21 ≤ c.val && c.val < 0x7F && c.val ≠ 0x22 && c.val ≠ 0x5C

def validScopeToken (tok : Text) : Bool := !tok.isEmpty && tok.all scopeTokenOk

/-- `[t for t in s.split(" ") if t]`. -/
def splitScopes (s : Text) : List Text := (s.splitOn (ch ' ')).filter fun t => !t.isEmpty

def scopeClaimError : Text := txt "scope claim contains an invalid token"

def checkTokens (tokens : List Text) : Except Text (Finset Text) :=
  if tokens.all validScopeToken then .ok tokens.toFinset else .error scopeClaimError

def strOf : Value → Option Text
  | .str s => some s
  | _ => none

/-- The tokens of the claim that decides: `scope` as a string, then `scp`. -/
def scopeTokens (claims : Claims) : Except Text (List Text) :=
  match claims.get (txt "scope") with
  | some (.str raw) => .ok (splitScopes raw)
  | _ =>
    match claims.get (txt "scp") with
    | some (.str scp) => .ok (splitScopes scp)
    | some (.arr scp) =>
      match scp.mapM strOf with
      | some tokens => .ok tokens
      | none => .error scopeClaimError
    | _ => .ok []

def parseScopes (claims : Claims) : Except Text (Finset Text) :=
  match scopeTokens claims with
  | .ok tokens => checkTokens tokens
  | .error e => .error e

/-! ## The subject -/

def DecodedClaims.subject (claims : DecodedClaims) : Text :=
  match claims.get (txt "sub") with
  | some (.str s) => s
  | _ => []

def isascii (s : Text) : Bool := s.all fun c => c.val < 0x80

def subjectRefused (subject : Text) : Bool :=
  !isascii subject || subject ≠ strip subject || subject.any fun c => c.val < 0x20 || c.val = 0x7F

/-- `verify` from the decoded claims on; an error is the text of a `TokenError`. -/
def verifyClaims (claims : DecodedClaims) : Except Text VerifiedToken :=
  if claims.subject.isEmpty then .error (txt "token missing sub claim")
  else if subjectRefused claims.subject then
    .error (txt "sub claim must be printable ASCII with no control or surrounding whitespace characters")
  else
    match parseScopes claims.toClaims with
    | .error e => .error e
    | .ok scopes => .ok ⟨claims.subject, scopes, claims.toClaims⟩

def identityHeaders (verified : VerifiedToken) : List (Text × Text) :=
  [(txt "X-Forwarded-Sub", verified.subject),
    (txt "X-Forwarded-Scopes", [ch ' '].intercalate (sorted verified.scopes))]

/-! ## Stripping -/

theorem strip_self {s : Text} (h : strip s = s) : s.dropWhile isSpace = s ∧
    s.reverse.dropWhile isSpace = s.reverse := by
  have hlen : (strip s).length ≤ (s.dropWhile isSpace).length := by
    rw [strip, rstrip, List.length_reverse]
    exact (List.dropWhile_suffix isSpace).length_le.trans (List.length_reverse).le
  rw [h] at hlen
  have hfront : s.dropWhile isSpace = s := (List.dropWhile_suffix isSpace).eq_of_length_le hlen
  refine ⟨hfront, ?_⟩
  have hback : (s.reverse.dropWhile isSpace).reverse = s := by
    rw [strip, hfront, rstrip] at h
    exact h
  rw [← List.reverse_inj, hback, List.reverse_reverse]

theorem dropWhile_head {p : CodePoint → Bool} {s : Text} (h : s.dropWhile p = s) {c : CodePoint}
    (hc : s.head? = some c) :
    p c = false := by
  cases s with
  | nil => cases hc
  | cons a s =>
    cases hc
    simpa using List.dropWhile_eq_self_iff.mp h

theorem subject_ends {s : Text} (h : subjectRefused s = false) : s.head? ≠ some (ch ' ') ∧
    s.getLast? ≠ some (ch ' ') := by
  have hspace : isSpace (ch ' ') = true := by decide
  simp only [subjectRefused, Bool.or_eq_false_iff, decide_eq_false_iff_not, ne_eq, not_not] at h
  obtain ⟨hfront, hback⟩ := strip_self h.1.2.symm
  constructor
  · intro hc
    have := dropWhile_head hfront hc
    rw [hspace] at this
    cases this
  · intro hc
    rw [List.getLast?_eq_head?_reverse] at hc
    have := dropWhile_head hback hc
    rw [hspace] at this
    cases this

theorem subject_chars {s : Text} (h : subjectRefused s = false) : ∀ c ∈ s, 0x20 ≤ c.val ∧ c.val ≤ 0x7E := by
  intro c hc
  simp only [subjectRefused, Bool.or_eq_false_iff, Bool.not_eq_false', isascii, List.all_eq_true, decide_eq_true_eq,
    List.any_eq_false] at h
  have hascii := h.1.1 c hc
  have hctl := h.2 c hc
  simp only [Bool.or_eq_true, decide_eq_true_eq, not_or] at hctl
  omega

/-! ## Scopes on the wire -/

/-- A scope-token of RFC 6749. -/
def ScopeToken (tok : Text) : Prop :=
  tok ≠ [] ∧ ∀ c ∈ tok, (0x21 ≤ c.val ∧ c.val ≤ 0x7E) ∧ c.val ≠ 0x22 ∧ c.val ≠ 0x5C

theorem validScopeToken_iff {tok : Text} : validScopeToken tok = true ↔ ScopeToken tok := by
  have hc : ∀ c : CodePoint, scopeTokenOk c = true ↔ (0x21 ≤ c.val ∧ c.val ≤ 0x7E) ∧ c.val ≠ 0x22 ∧
    c.val ≠ 0x5C := by
    intro c
    simp only [scopeTokenOk, Bool.and_eq_true, decide_eq_true_eq]
    omega
  rw [validScopeToken, ScopeToken, Bool.and_eq_true, List.all_eq_true]
  simp only [hc]
  simp

theorem checkTokens_ok {tokens : List Text} {scopes : Finset Text} :
    checkTokens tokens = .ok scopes ↔ (∀ tok ∈ tokens, ScopeToken tok) ∧ scopes = tokens.toFinset := by
  rw [checkTokens]
  split
  · rename_i h
    rw [List.all_eq_true] at h
    simp only [← validScopeToken_iff, Except.ok.injEq]
    exact ⟨fun he => ⟨h, he.symm⟩, fun he => he.2.symm⟩
  · rename_i h
    refine iff_of_false (fun he => by cases he) fun he => h ?_
    rw [List.all_eq_true]
    exact fun tok ht => validScopeToken_iff.mpr (he.1 tok ht)

/-- Scope-tokens joined by spaces split again into themselves. -/
theorem splitScopes_join {tokens : List Text} (h : ∀ tok ∈ tokens, ScopeToken tok) :
    splitScopes ([ch ' '].intercalate tokens) = tokens := by
  have hspace : ∀ tok ∈ tokens, ch ' ' ∉ tok := by
    intro tok ht hc
    have hle : 0x21 ≤ (ch ' ').val := ((h tok ht).2 _ hc).1.1
    revert hle
    decide
  have hkeep : tokens.filter (fun t => !t.isEmpty) = tokens := by
    rw [List.filter_eq_self]
    intro tok ht
    simpa using (h tok ht).1
  rw [splitScopes]
  by_cases hne : tokens = []
  · rw [hne]
    rfl
  · rw [List.splitOn_intercalate (ch ' ') hspace hne, hkeep]

theorem identityHeaders_inj {v v' : VerifiedToken} (hv : ∀ tok ∈ v.scopes, ScopeToken tok)
    (hv' : ∀ tok ∈ v'.scopes, ScopeToken tok) (h : identityHeaders v = identityHeaders v') :
    v.subject = v'.subject ∧ v.scopes = v'.scopes := by
  simp only [identityHeaders, List.cons.injEq, Prod.mk.injEq, true_and, and_true] at h
  refine ⟨h.1, ?_⟩
  have hsorted : sorted v.scopes = sorted v'.scopes := by
    rw [← splitScopes_join fun tok ht => hv tok (mem_sorted.mp ht), h.2,
      splitScopes_join fun tok ht => hv' tok (mem_sorted.mp ht)]
  ext tok
  rw [← mem_sorted, hsorted, mem_sorted]

/-! ## Claims in use -/

def elementsInUse (claims : Claims) : List Value :=
  match claims.get (txt "scope") with
  | some (.str raw) => (splitScopes raw).map .str
  | _ =>
    match claims.get (txt "scp") with
    | some (.str scp) => (splitScopes scp).map .str
    | some (.arr scp) => scp
    | _ => []

theorem mapM_strOf {vs : List Value} {tokens : List Text} : vs.mapM strOf = some tokens ↔ vs = tokens.map .str := by
  induction vs generalizing tokens with
  | nil => cases tokens <;> simp
  | cons v vs ih =>
    rw [List.mapM_cons]
    cases v with
    | str s =>
      cases tokens with
      | nil => cases vs.mapM strOf <;> simp [strOf]
      | cons tok tokens =>
        rw [List.map_cons, List.cons.injEq, ← ih]
        cases vs.mapM strOf <;> simp [strOf]
    | null => cases tokens <;> simp [strOf]
    | bool b => cases tokens <;> simp [strOf]
    | int z => cases tokens <;> simp [strOf]
    | float x => cases tokens <;> simp [strOf]
    | arr vs => cases tokens <;> simp [strOf]
    | obj ms => cases tokens <;> simp [strOf]

theorem scopeTokens_ok {claims : Claims} {tokens : List Text} :
    scopeTokens claims = .ok tokens ↔ elementsInUse claims = tokens.map .str := by
  have hsplit : ∀ l : List Text, (Except.ok l : Except Text (List Text)) = .ok tokens ↔
    l.map Value.str = tokens.map .str := fun l => by
    rw [(List.map_injective_iff.mpr fun _ _ h => Value.str.inj h).eq_iff, Except.ok.injEq]
  rw [scopeTokens, elementsInUse]
  split
  · exact hsplit _
  split
  · exact hsplit _
  · rename_i scp _
    rw [← mapM_strOf]
    cases scp.mapM strOf <;> simp
  · exact hsplit []

/-- Scopes are parsed exactly when every element in use is a scope-token. -/
theorem parseScopes_ok {claims : Claims} {scopes : Finset Text} :
    parseScopes claims = .ok scopes ↔ ∃ tokens : List Text, elementsInUse claims = tokens.map .str ∧
      (∀ tok ∈ tokens, ScopeToken tok) ∧ scopes = tokens.toFinset := by
  simp only [← scopeTokens_ok, ← checkTokens_ok]
  rw [parseScopes]
  cases scopeTokens claims <;> simp

/-! ## Verified claims -/

theorem verifyClaims_ok {claims : DecodedClaims} {v : VerifiedToken} (h : verifyClaims claims = .ok v) :
    claims.get (txt "sub") = some (.str v.subject) ∧ v.subject ≠ [] ∧ subjectRefused v.subject = false ∧
      parseScopes claims.toClaims = .ok v.scopes := by
  rw [verifyClaims] at h
  split at h
  · cases h
  rename_i hne
  split at h
  · cases h
  rename_i hsub
  split at h
  · cases h
  rename_i scopes hscopes
  cases h
  have hne' : claims.subject ≠ [] := by simpa using hne
  refine ⟨?_, hne', by simpa using hsub, hscopes⟩
  rw [DecodedClaims.subject] at hne' ⊢
  split at hne'
  · rename_i s hs
    exact hs
  · exact absurd rfl hne'

theorem verified_scopes {claims : DecodedClaims} {v : VerifiedToken} (h : verifyClaims claims = .ok v) :
    ∀ tok ∈ v.scopes, ScopeToken tok := by
  intro tok ht
  obtain ⟨_, _, _, hscopes⟩ := verifyClaims_ok h
  obtain ⟨tokens, _, htok, hs⟩ := parseScopes_ok.mp hscopes
  rw [hs, List.mem_toFinset] at ht
  exact htok tok ht

theorem verifyClaims_refused {claims : DecodedClaims} {e : Value} (he : e ∈ elementsInUse claims.toClaims)
    (hbad : ¬ ∃ tok, e = .str tok ∧ ScopeToken tok) : ∃ message, verifyClaims claims = .error message := by
  cases hv : verifyClaims claims with
  | error message => exact ⟨message, rfl⟩
  | ok v =>
    obtain ⟨_, _, _, hscopes⟩ := verifyClaims_ok hv
    obtain ⟨tokens, htokens, htok, _⟩ := parseScopes_ok.mp hscopes
    rw [htokens] at he
    obtain ⟨tok, ht, rfl⟩ := List.mem_map.mp he
    exact absurd ⟨tok, rfl, htok tok ht⟩ hbad

/-- The forwarded identity is the verified one, and can be read back. -/
theorem identity_faithful :
    (∀ claims v, verifyClaims claims = .ok v →
      claims.get (txt "sub") = some (.str v.subject) ∧ v.subject ≠ [] ∧
      (∀ c ∈ v.subject, 0x20 ≤ c.val ∧ c.val ≤ 0x7E) ∧
      v.subject.head? ≠ some (ch ' ') ∧ v.subject.getLast? ≠ some (ch ' ') ∧ (∀ tok ∈ v.scopes, ScopeToken tok) ∧
      ∃ joined, identityHeaders v = [(txt "X-Forwarded-Sub", v.subject), (txt "X-Forwarded-Scopes", joined)] ∧
        joined = [ch ' '].intercalate (sorted v.scopes) ∧ (splitScopes joined).toFinset = v.scopes) ∧
      (∀ claims claims' v v', verifyClaims claims = .ok v → verifyClaims claims' = .ok v' →
        identityHeaders v = identityHeaders v' → v.subject = v'.subject ∧ v.scopes = v'.scopes) ∧
      ∀ claims : DecodedClaims, ∀ e ∈ elementsInUse claims.toClaims, (¬ ∃ tok, e = .str tok ∧ ScopeToken tok) →
        ∃ message, verifyClaims claims = .error message := by
  refine ⟨fun claims v h => ?_, ?_, fun claims e he hbad => verifyClaims_refused he hbad⟩
  · obtain ⟨hsub, hne, hrefused, _⟩ := verifyClaims_ok h
    obtain ⟨hhead, hlast⟩ := subject_ends hrefused
    refine ⟨hsub, hne, subject_chars hrefused, hhead, hlast, verified_scopes h, _, rfl, rfl, ?_⟩
    rw [splitScopes_join fun tok ht => verified_scopes h tok (mem_sorted.mp ht)]
    ext tok
    rw [List.mem_toFinset, mem_sorted]
  · intro claims claims' v v' h h' heq
    exact identityHeaders_inj (verified_scopes h) (verified_scopes h') heq

def aliceClaims : DecodedClaims where
  members := [(txt "sub", .str (txt "alice")), (txt "scp", .arr [.str (txt "mcp:read"), .str (txt "mcp:invoke")])]
  distinct := by decide
  sub_str := by rintro v ⟨⟩; exact ⟨_, rfl⟩

theorem identity_faithful_alice :
    (splitScopes (txt "mcp:invoke mcp:read")).toFinset = {txt "mcp:read", txt "mcp:invoke"} ∧
      ∀ claims v, verifyClaims claims = .ok v → identityHeaders v = [(txt "X-Forwarded-Sub", txt "alice"),
        (txt "X-Forwarded-Scopes", txt "mcp:invoke mcp:read")] → v.scopes = {txt "mcp:read", txt "mcp:invoke"} := by
  have halice : verifyClaims aliceClaims =
    .ok ⟨txt "alice", {txt "mcp:read", txt "mcp:invoke"}, aliceClaims.toClaims⟩ := rfl
  obtain ⟨hfaithful, hunique, _⟩ := identity_faithful
  obtain ⟨_, _, _, _, _, _, joined, _, rfl, hsplit⟩ := hfaithful _ _ halice
  refine ⟨?_, fun claims v hv heq => ?_⟩
  · exact hsplit
  · exact (hunique _ _ _ _ hv halice heq).2

end McpGateway
