import McpGateway.DumpsTotal
import McpGateway.FormUrl
import McpGateway.Identity

/-!
# PKCE and the authorization URL

The helpers for clients: a verifier with its challenge, and the URL of the
authorization request. The URL is read back as its parameters when the endpoint
has no query of its own.
-/

namespace McpGateway

open Unicode Json Form

/-! ## The helpers -/

def b64Code (n : Nat) : Nat :=
  if n < 26 then 65 + n else if n < 52 then 71 + n else if n < 62 then n - 4 else if n = 62 then 45 else 95

theorem b64Code_lt (n : Nat) : b64Code n < 0x110000 := by
  unfold b64Code
  split_ifs <;> omega

def b64Char (n : Nat) : CodePoint := ⟨b64Code n, b64Code_lt n⟩

def urlsafeB64encode : Bytes → Text
  | [] => []
  | [a] => [b64Char (a.toNat / 4), b64Char (a.toNat % 4 * 16), ch '=', ch '=']
  | [a, b] => [b64Char (a.toNat / 4), b64Char (a.toNat % 4 * 16 + b.toNat / 16), b64Char (b.toNat % 16 * 4), ch '=']
  | a :: b :: c :: data =>
    [b64Char (a.toNat / 4), b64Char (a.toNat % 4 * 16 + b.toNat / 16), b64Char (b.toNat % 16 * 4 + c.toNat / 64),
      b64Char (c.toNat % 64)] ++ urlsafeB64encode data

def b64url (data : Bytes) : Text := rstrip (fun c => c = ch '=') (urlsafeB64encode data)

structure PkcePair where
  verifier : Text
  challenge : Text
  method : Text := txt "S256"
  deriving DecidableEq

/-- `s.encode("ascii")`; `none` is `UnicodeEncodeError`. -/
def encodeAscii (s : Text) : Option Bytes := if isascii s then some (s.map fun c => .ofNat c.val) else none

/-- `generate_pkce`, with the 32 bytes of `secrets.token_bytes`. -/
def generatePkce (sha256 : Bytes → Bytes) (random : Bytes) : Except Exc PkcePair :=
  let verifier := b64url random
  match encodeAscii verifier with
  | none => .error .unicodeEncodeError
  | some b => .ok { verifier := verifier, challenge := b64url (sha256 b) }

/-- `state or _b64url(secrets.token_bytes(16))`. -/
def chosenState (state : Option Text) (random : Bytes) : Text :=
  match state with
  | some state => if state.isEmpty then b64url random else state
  | none => b64url random

def authorizationParams (clientId redirectUri : Text) (scopes : List Text) (pkce : PkcePair) (state : Text)
    (audience : Option Text) :
    List (Text × Text) :=
  let params := [(txt "response_type", txt "code"), (txt "client_id", clientId), (txt "redirect_uri", redirectUri),
    (txt "scope", [ch ' '].intercalate scopes), (txt "state", state), (txt "code_challenge", pkce.challenge),
    (txt "code_challenge_method", pkce.method)]
  match audience with
  | some audience => if audience.isEmpty then params else params ++ [(txt "audience", audience)]
  | none => params

def buildAuthorizationUrl (authorizationEndpoint clientId redirectUri : Text) (scopes : List Text) (pkce : PkcePair)
    (state audience : Option Text) (random : Bytes) : Except Exc (Text × Text) :=
  let state := chosenState state random
  match urlencode (authorizationParams clientId redirectUri scopes pkce state audience) with
  | none => .error .unicodeEncodeError
  | some query => .ok (authorizationEndpoint ++ ch '?' :: query, state)

/-! ## Without padding -/

def b64Digits : Bytes → Text
  | [] => []
  | [a] => [b64Char (a.toNat / 4), b64Char (a.toNat % 4 * 16)]
  | [a, b] => [b64Char (a.toNat / 4), b64Char (a.toNat % 4 * 16 + b.toNat / 16), b64Char (b.toNat % 16 * 4)]
  | a :: b :: c :: data =>
    [b64Char (a.toNat / 4), b64Char (a.toNat % 4 * 16 + b.toNat / 16), b64Char (b.toNat % 16 * 4 + c.toNat / 64),
      b64Char (c.toNat % 64)] ++ b64Digits data

theorem urlsafeB64encode_eq : ∀ data, ∃ n, urlsafeB64encode data = b64Digits data ++ List.replicate n (ch '=')
  | [] => ⟨0, rfl⟩
  | [_] => ⟨2, rfl⟩
  | [_, _] => ⟨1, rfl⟩
  | a :: b :: c :: data => by
    obtain ⟨n, hn⟩ := urlsafeB64encode_eq data
    refine ⟨n, ?_⟩
    rw [urlsafeB64encode, hn, b64Digits, List.append_assoc]

theorem b64Char_safe (n : Nat) : alwaysSafe (b64Char n).val = true := by
  have hall : ∀ k < 64, alwaysSafe (b64Code k) = true := by decide
  change alwaysSafe (b64Code n) = true
  by_cases hn : n < 64
  · exact hall n hn
  · have hlast : b64Code n = b64Code 63 := by
      unfold b64Code
      split_ifs <;> omega
    rw [hlast]
    exact hall 63 (by decide)

theorem b64Digits_safe : ∀ data, ∀ c ∈ b64Digits data, alwaysSafe c.val = true
  | [] => by simp [b64Digits]
  | [a] => by simp [b64Digits, b64Char_safe]
  | [a, b] => by simp [b64Digits, b64Char_safe]
  | a :: b :: c :: data => by
    intro d hd
    rw [b64Digits, List.mem_append] at hd
    cases hd with
    | inl hd =>
      simp only [List.mem_cons, List.not_mem_nil, or_false] at hd
      obtain hd | hd | hd | hd := hd <;> exact hd ▸ b64Char_safe _
    | inr hd => exact b64Digits_safe data d hd

theorem b64Digits_length : ∀ data : Bytes, (b64Digits data).length = (4 * data.length + 2) / 3
  | [] => by simp [b64Digits]
  | [a] => by simp [b64Digits]
  | [a, b] => by simp [b64Digits]
  | a :: b :: c :: data => by
    have ih := b64Digits_length data
    simp only [b64Digits, List.length_append, List.length_cons, List.length_nil, ih]
    omega

theorem rstrip_padding {l : Text} (h : ch '=' ∉ l) (n : Nat) :
    rstrip (fun c => c = ch '=') (l ++ List.replicate n (ch '=')) = l := by
  have hpad : ∀ c ∈ List.replicate n (ch '='), (decide (c = ch '=')) = true := by
    intro c hc
    exact decide_eq_true (List.eq_of_mem_replicate hc)
  have hkeep : l.reverse.dropWhile (fun c => c = ch '=') = l.reverse := by
    cases hl : l.reverse with
    | nil => rfl
    | cons c rest =>
      have hc : c ∈ l := List.mem_reverse.mp (hl ▸ List.mem_cons_self)
      have hne : c ≠ ch '=' := by
        intro he
        exact h (he ▸ hc)
      exact List.dropWhile_cons_of_neg (by simpa using hne)
  rw [rstrip, List.reverse_append, List.reverse_replicate, List.dropWhile_append_of_pos hpad, hkeep,
    List.reverse_reverse]

theorem b64url_digits (data : Bytes) : b64url data = b64Digits data := by
  obtain ⟨n, hn⟩ := urlsafeB64encode_eq data
  rw [b64url, hn]
  apply rstrip_padding
  intro hc
  exact absurd (b64Digits_safe data _ hc) (by decide)

theorem b64url_safe (data : Bytes) : ∀ c ∈ b64url data, alwaysSafe c.val = true := by
  rw [b64url_digits]
  exact b64Digits_safe data

theorem alwaysSafe_ascii {n : Nat} (h : alwaysSafe n = true) : n < 0x80 := by
  simp only [alwaysSafe, Bool.or_eq_true, decide_eq_true_eq] at h
  omega

theorem scalar_b64url (data : Bytes) : Scalar (b64url data) := by
  intro c hc
  have hascii := alwaysSafe_ascii (b64url_safe data c hc)
  simp only [isSurrogate, Bool.and_eq_false_iff, decide_eq_false_iff_not]
  omega

/-! ## The URL -/

theorem quotePlus_scalar {s : Text} (h : Scalar s) : ∃ t, quotePlus s = some t := by
  obtain ⟨bytes, hbytes⟩ := encodeUtf8_some.mpr h
  exact ⟨_, by rw [quotePlus, hbytes, Option.map_some]⟩

theorem urlencode_scalar {params : List (Text × Text)} (h : ∀ p ∈ params, Scalar p.1 ∧ Scalar p.2) :
    ∃ query, urlencode params = some query := by
  have hpieces : ∃ pieces, params.mapM quotePair = some pieces := by
    induction params with
    | nil => exact ⟨[], rfl⟩
    | cons p params ih =>
      obtain ⟨hp, hparams⟩ := List.forall_mem_cons.mp h
      obtain ⟨k, hk⟩ := quotePlus_scalar hp.1
      obtain ⟨v, hv⟩ := quotePlus_scalar hp.2
      obtain ⟨pieces, hpieces⟩ := ih hparams
      have hpair := quotePair_some.mpr ⟨k, v, hk, hv, rfl⟩
      exact ⟨_, by rw [List.mapM_cons, hpair, hpieces]; rfl⟩
  obtain ⟨pieces, hpieces⟩ := hpieces
  exact ⟨_, by rw [urlencode, hpieces, Option.map_some]⟩

theorem scalar_join {scopes : List Text} (h : ∀ scope ∈ scopes, Scalar scope) :
    Scalar ([ch ' '].intercalate scopes) := by
  induction scopes with
  | nil => exact scalar_nil
  | cons scope scopes ih =>
    obtain ⟨hscope, hscopes⟩ := List.forall_mem_cons.mp h
    cases scopes with
    | nil => simpa using hscope
    | cons next scopes =>
      rw [List.intercalate_cons_cons, scalar_append, scalar_append]
      have hspace : Scalar [ch ' '] := by
        unfold Scalar
        decide
      exact ⟨⟨hscope, hspace⟩, ih hscopes⟩

section
variable {clientId redirectUri : Text} {scopes : List Text} {pkce : PkcePair} {state audience : Option Text}

theorem chosenState_given {s : Text} (h : s ≠ []) (random : Bytes) : chosenState (some s) random = s := by
  simp [chosenState, h]

theorem scalar_chosenState (h : ∀ s, state = some s → Scalar s) (random : Bytes) :
    Scalar (chosenState state random) := by
  cases state with
  | none => exact scalar_b64url random
  | some s =>
    by_cases hs : s = []
    · simp only [chosenState, hs, List.isEmpty_nil, if_true]
      exact scalar_b64url random
    · rw [chosenState_given hs]
      exact h s rfl

theorem authorizationParams_eq (chosen : Text) :
    authorizationParams clientId redirectUri scopes pkce chosen audience =
      [(txt "response_type", txt "code"), (txt "client_id", clientId), (txt "redirect_uri", redirectUri),
        (txt "scope", [ch ' '].intercalate scopes), (txt "state", chosen), (txt "code_challenge", pkce.challenge),
        (txt "code_challenge_method", pkce.method)] ++
      ((audience.filter fun a => !a.isEmpty).map fun a => (txt "audience", a)).toList := by
  cases audience with
  | none => rfl
  | some a =>
    by_cases ha : a = []
    · simp [authorizationParams, ha]
    · simp [authorizationParams, ha, Option.filter]

theorem scalar_txt (s : String) : Scalar (txt s) := by
  intro c hc
  obtain ⟨a, _, rfl⟩ := List.mem_map.mp hc
  have hval : (ch a).val = a.toNat := rfl
  rw [hval, isSurrogate, Bool.and_eq_false_iff, decide_eq_false_iff_not, decide_eq_false_iff_not]
  cases a.valid with
  | inl hlow =>
    refine Or.inl ?_
    change a.toNat < 0xD800 at hlow
    omega
  | inr hhigh =>
    refine Or.inr ?_
    have hgt : 0xDFFF < a.toNat := hhigh.1
    omega

theorem scalar_params (hclient : Scalar clientId) (hredirect : Scalar redirectUri)
    (hscopes : ∀ scope ∈ scopes, Scalar scope) (hchallenge : Scalar pkce.challenge) (hmethod : Scalar pkce.method)
    (haudience : ∀ a, audience = some a → Scalar a) {chosen : Text} (hchosen : Scalar chosen) :
    ∀ p ∈ authorizationParams clientId redirectUri scopes pkce chosen audience, Scalar p.1 ∧ Scalar p.2 := by
  rw [authorizationParams_eq]
  intro p hp
  rw [List.mem_append] at hp
  cases hp with
  | inl hp =>
    simp only [List.mem_cons, List.not_mem_nil, or_false] at hp
    obtain rfl | rfl | rfl | rfl | rfl | rfl | rfl := hp
    · exact ⟨scalar_txt _, scalar_txt _⟩
    · exact ⟨scalar_txt _, hclient⟩
    · exact ⟨scalar_txt _, hredirect⟩
    · exact ⟨scalar_txt _, scalar_join hscopes⟩
    · exact ⟨scalar_txt _, hchosen⟩
    · exact ⟨scalar_txt _, hchallenge⟩
    · exact ⟨scalar_txt _, hmethod⟩
  | inr hp =>
    cases audience with
    | none => cases hp
    | some a =>
      have hpa : p = (txt "audience", a) := by
        by_cases ha : a = []
        · simp [ha, Option.filter] at hp
        · simpa [ha, Option.filter] using hp
      rw [hpa]
      exact ⟨scalar_txt _, haudience a rfl⟩

end

/-- The URL is read back as the endpoint's parameters and those of the request exactly when the endpoint has no
query. -/
theorem authorization_url_decodes_iff (endpoint clientId redirectUri : Text) (scopes : List Text) (pkce : PkcePair)
    (state audience : Option Text) (random : Bytes) (hclient : Scalar clientId) (hredirect : Scalar redirectUri)
    (hscopes : ∀ scope ∈ scopes, Scalar scope) (hchallenge : Scalar pkce.challenge) (hmethod : Scalar pkce.method)
    (hstate : ∀ s, state = some s → Scalar s) (haudience : ∀ a, audience = some a → Scalar a) :
    ∃ url returned, buildAuthorizationUrl endpoint clientId redirectUri scopes pkce state audience random =
    .ok (url, returned) ∧
      (∀ s, state = some s → s ≠ [] → returned = s) ∧
      (parseQuery url = parseQuery endpoint ++
          ([(txt "response_type", txt "code"), (txt "client_id", clientId), (txt "redirect_uri", redirectUri),
            (txt "scope", [ch ' '].intercalate scopes), (txt "state", returned),
            (txt "code_challenge", pkce.challenge), (txt "code_challenge_method", pkce.method)] ++
          ((audience.filter fun a => !a.isEmpty).map fun a => (txt "audience", a)).toList).map decoded ↔
        ch '?' ∉ endpoint) := by
  have hchosen := scalar_chosenState hstate random
  obtain ⟨query, hquery⟩ := urlencode_scalar
    (scalar_params hclient hredirect hscopes hchallenge hmethod haudience hchosen)
  refine ⟨endpoint ++ ch '?' :: query, chosenState state random, ?_, ?_, ?_⟩
  · simp only [buildAuthorizationUrl, hquery]
  · intro s hs hne
    rw [hs, chosenState_given hne]
  · rw [authorizationParams_eq, List.cons_append] at hquery
    rw [List.cons_append]
    exact parseQuery_appended hquery

theorem authorization_url_decodes_iff_read :
    ∃ url returned, buildAuthorizationUrl (txt "https://idp.test/auth") (txt "cli") (txt "app:cb?a=1&b=2")
        [txt "read", txt "call"] ⟨txt "verifier", txt "challenge", txt "S256"⟩ (some (txt "s&t")) none [] =
          .ok (url, returned) ∧ returned = txt "s&t" ∧
      parseQuery url = [(txt "response_type", txt "code"), (txt "client_id", txt "cli"),
        (txt "redirect_uri", txt "app:cb?a=1&b=2"), (txt "scope", txt "read call"), (txt "state", returned),
        (txt "code_challenge", txt "challenge"), (txt "code_challenge_method", txt "S256")].map decoded := by
  have hstate : ∀ s, some (txt "s&t") = some s → Scalar s := by
    intro s hs
    cases hs
    exact scalar_txt _
  have hscopes : ∀ scope ∈ [txt "read", txt "call"], Scalar scope :=
    List.forall_mem_cons.mpr ⟨scalar_txt _, List.forall_mem_singleton.mpr (scalar_txt _)⟩
  obtain ⟨url, returned, hurl, hreturned, hiff⟩ :=
    authorization_url_decodes_iff (txt "https://idp.test/auth") (txt "cli")
    (txt "app:cb?a=1&b=2") [txt "read", txt "call"] ⟨txt "verifier", txt "challenge", txt "S256"⟩
    (some (txt "s&t")) none [] (scalar_txt _) (scalar_txt _) hscopes (scalar_txt _) (scalar_txt _) hstate
      (fun a ha => by cases ha)
  exact ⟨url, returned, hurl, hreturned _ rfl (by decide), hiff.mpr (by decide +kernel)⟩

/-- The endpoint's own query swallows the first parameter. -/
theorem tenant_not_decoded :
    ∃ url, buildAuthorizationUrl (txt "https://idp.test/auth?tenant=1") (txt "cli") (txt "app:cb") [txt "read"]
        ⟨txt "v", txt "c", txt "S256"⟩ (some (txt "s")) none [] = .ok (url, txt "s") ∧
      parseQuery url = [(txt "tenant", txt "1?response_type=code"), (txt "client_id", txt "cli"),
      (txt "redirect_uri", txt "app:cb"),
        (txt "scope", txt "read"), (txt "state", txt "s"), (txt "code_challenge", txt "c"),
        (txt "code_challenge_method", txt "S256")].map decoded ∧
      parseQuery url ≠ parseQuery (txt "https://idp.test/auth?tenant=1") ++ [(txt "response_type", txt "code"),
        (txt "client_id", txt "cli"), (txt "redirect_uri", txt "app:cb"), (txt "scope", txt "read"),
        (txt "state", txt "s"),
        (txt "code_challenge", txt "c"), (txt "code_challenge_method", txt "S256")].map decoded := by
  have hread : parseQuery (txt ("https://idp.test/auth?tenant=1?response_type=code&client_id=cli&redirect_uri=app%3Acb" ++
      "&scope=read&state=s&code_challenge=c&code_challenge_method=S256")) =
        [(txt "tenant", txt "1?response_type=code"), (txt "client_id", txt "cli"),
          (txt "redirect_uri", txt "app:cb"),
          (txt "scope", txt "read"), (txt "state", txt "s"), (txt "code_challenge", txt "c"),
          (txt "code_challenge_method", txt "S256")].map decoded := by decide +kernel
  have hown : parseQuery (txt "https://idp.test/auth?tenant=1") =
      [decoded (txt "tenant", txt "1")] := by decide +kernel
  refine ⟨_, by decide +kernel, hread, ?_⟩
  rw [hread, hown]
  intro h
  have hlength := congrArg List.length h
  simp at hlength

/-! ## Redeeming a challenge -/

def b64Value (c : CodePoint) : Nat :=
  if 65 ≤ c.val ∧ c.val ≤ 90 then c.val - 65
  else if 97 ≤ c.val ∧ c.val ≤ 122 then c.val - 71
  else if 48 ≤ c.val ∧ c.val ≤ 57 then c.val + 4
  else if c.val = 45 then 62
  else 63

def b64Decode : Text → Bytes
  | a :: b :: c :: d :: s =>
    [.ofNat (b64Value a * 4 + b64Value b / 16), .ofNat (b64Value b % 16 * 16 + b64Value c / 4),
      .ofNat (b64Value c % 4 * 64 + b64Value d)] ++ b64Decode s
  | [a, b, c] => [.ofNat (b64Value a * 4 + b64Value b / 16), .ofNat (b64Value b % 16 * 16 + b64Value c / 4)]
  | [a, b] => [.ofNat (b64Value a * 4 + b64Value b / 16)]
  | _ => []

/-- The token endpoint's check of a `code_verifier` against the `S256` challenge of the authorization request. -/
def Redeems (sha256 : Bytes → Bytes) (challenge verifier : Text) : Prop :=
  ∃ b, encodeAscii verifier = some b ∧ b64url (sha256 b) = challenge

theorem b64Value_char {n : Nat} (h : n < 64) : b64Value (b64Char n) = n := by
  have hall : ∀ k < 64, b64Value (b64Char k) = k := by decide
  exact hall n h

/-! What is encoded of the bytes of a group is below 64. -/

theorem byte_digits (a : UInt8) : a.toNat / 4 < 64 ∧ a.toNat % 64 < 64 := by
  have := a.toNat_lt
  omega

theorem bytes_digits (a b : UInt8) :
    a.toNat % 4 * 16 + b.toNat / 16 < 64 ∧ a.toNat % 16 * 4 + b.toNat / 64 < 64 := by
  have := a.toNat_lt
  have := b.toNat_lt
  omega

theorem byte_ends (a : UInt8) : a.toNat % 4 * 16 < 64 ∧ a.toNat % 16 * 4 < 64 := by omega

theorem ofNat_eq {a : UInt8} {n : Nat} (h : n = a.toNat) : UInt8.ofNat n = a := by
  rw [h, UInt8.ofNat_toNat]

/-- Every byte string is read back from its encoding. -/
theorem b64Decode_digits : ∀ data, b64Decode (b64Digits data) = data
  | [] => rfl
  | [a] => by
    have ha := b64Value_char (byte_digits a).1
    have hb := b64Value_char (byte_ends a).1
    rw [b64Digits, b64Decode, ha, hb, ofNat_eq (a := a) (by omega)]
  | [a, b] => by
    have ha := b64Value_char (byte_digits a).1
    have hb := b64Value_char (bytes_digits a b).1
    have hc := b64Value_char (byte_ends b).2
    have hlt := b.toNat_lt
    rw [b64Digits, b64Decode, ha, hb, hc, ofNat_eq (a := a) (by omega), ofNat_eq (a := b) (by omega)]
  | a :: b :: c :: data => by
    have ha := b64Value_char (byte_digits a).1
    have hb := b64Value_char (bytes_digits a b).1
    have hc := b64Value_char (bytes_digits b c).2
    have hd := b64Value_char (byte_digits c).2
    have hlt := b.toNat_lt
    have hlt' := c.toNat_lt
    rw [b64Digits]
    simp only [List.cons_append, List.nil_append, b64Decode, ha, hb, hc, hd]
    rw [ofNat_eq (a := a) (by omega), ofNat_eq (a := b) (by omega), ofNat_eq (a := c) (by omega),
      b64Decode_digits data]

theorem b64url_inj {data data' : Bytes} (h : b64url data = b64url data') : data = data' := by
  rw [b64url_digits, b64url_digits] at h
  rw [← b64Decode_digits data, h, b64Decode_digits]

theorem bytes_inj {s t : Text} (hs : ∀ c ∈ s, c.val < 0x80) (ht : ∀ c ∈ t, c.val < 0x80)
    (h : s.map (fun c => UInt8.ofNat c.val) = t.map fun c => UInt8.ofNat c.val) : s = t := by
  induction s generalizing t with
  | nil =>
    cases t with
    | nil => rfl
    | cons d t => cases h
  | cons c s ih =>
    cases t with
    | nil => cases h
    | cons d t =>
      obtain ⟨hc, hs⟩ := List.forall_mem_cons.mp hs
      obtain ⟨hd, ht⟩ := List.forall_mem_cons.mp ht
      rw [List.map_cons, List.map_cons, List.cons.injEq] at h
      have hval := congrArg UInt8.toNat h.1
      rw [toNat_ofNat_lt (by omega), toNat_ofNat_lt (by omega)] at hval
      rw [CodePoint.ext' hval, ih hs ht h.2]

theorem encodeAscii_inj {s t : Text} {b : Bytes} (hs : encodeAscii s = some b) (ht : encodeAscii t = some b) :
    s = t := by
  have hascii : ∀ {s b}, encodeAscii s = some b → b = s.map (fun c => UInt8.ofNat c.val) ∧
      ∀ c ∈ s, c.val < 0x80 := by
    intro s b h
    unfold encodeAscii at h
    split at h
    · rename_i hs
      cases h
      rw [isascii, List.all_eq_true] at hs
      exact ⟨rfl, fun c hc => of_decide_eq_true (hs c hc)⟩
    · cases h
  obtain ⟨hb, hlow⟩ := hascii hs
  obtain ⟨hb', hlow'⟩ := hascii ht
  exact bytes_inj hlow hlow' (hb.symm.trans hb')

theorem encodeAscii_b64url (data : Bytes) :
    encodeAscii (b64url data) = some ((b64url data).map fun c => .ofNat c.val) := by
  refine if_pos ?_
  rw [isascii, List.all_eq_true]
  exact fun c hc => decide_eq_true (alwaysSafe_ascii (b64url_safe data c hc))

theorem redeems_iff {sha256 : Bytes → Bytes} {m : Bytes} {s : Text} :
    Redeems sha256 (b64url (sha256 m)) s ↔ ∃ b, encodeAscii s = some b ∧ sha256 b = sha256 m := by
  refine exists_congr fun b => and_congr_right fun _ => ?_
  exact ⟨b64url_inj, fun h => by rw [h]⟩

/-- A generated challenge is redeemed by the texts of the verifier's digest alone, and two verifiers are told
apart as their random bytes are: redeeming another one's challenge takes a collision of the digest. -/
theorem pkce_binds (sha256 : Bytes → Bytes) (random random' : Bytes) :
    ∃ pkce pkce' m m', generatePkce sha256 random = .ok pkce ∧ generatePkce sha256 random' = .ok pkce' ∧
      encodeAscii pkce.verifier = some m ∧ encodeAscii pkce'.verifier = some m' ∧
      m.length = (4 * random.length + 2) / 3 ∧
      (m = m' ↔ random = random') ∧ (Redeems sha256 pkce'.challenge pkce.verifier ↔ sha256 m = sha256 m') ∧
      ∀ s, Redeems sha256 pkce.challenge s ↔ ∃ b, encodeAscii s = some b ∧ sha256 b = sha256 m := by
  have hpair : ∀ random, generatePkce sha256 random =
      .ok ⟨b64url random, b64url (sha256 ((b64url random).map fun c => .ofNat c.val)), txt "S256"⟩ := by
    intro random
    simp only [generatePkce, encodeAscii_b64url]
  refine ⟨_, _, _, _, hpair random, hpair random', encodeAscii_b64url random, encodeAscii_b64url random', ?_, ?_,
    ?_, fun s => redeems_iff⟩
  · rw [List.length_map, b64url_digits, b64Digits_length]
  · constructor
    · intro h
      have hverifiers := encodeAscii_inj (encodeAscii_b64url random) (h ▸ encodeAscii_b64url random')
      exact b64url_inj hverifiers
    · rintro rfl
      rfl
  · rw [redeems_iff]
    simp only [encodeAscii_b64url, Option.some.injEq, exists_eq_left']

end McpGateway
