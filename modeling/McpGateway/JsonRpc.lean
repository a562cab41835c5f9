import McpGateway.Python
import McpGateway.Readers

/-!
# Parsing a JSON-RPC request

The body is loaded with the hooks that refuse repeated member names and
non-standard constants, checked, and printed again; the printed body is what
goes upstream.
-/

namespace McpGateway

open Unicode Binary64 Json

inductive HookError
  | duplicateKey (key : Text)
  | nonFiniteConstant (value : Constant)
  deriving DecidableEq

structure JsonRpcParse where
  method : Option Text := none
  toolName : Option Text := none
  canonicalBody : Option Bytes := none
  error : Option Text := none
  errorCode : Text := txt "invalid_jsonrpc"
  deriving DecidableEq

def maxIdentifierLen : Nat := 256

def rejectNonfinite (value : Constant) : Except HookError Value := .error (.nonFiniteConstant value)

def repeatedKey (seen : List Text) : List (Text × Value) → Option Text
  | [] => none
  | (key, _) :: pairs => if key ∈ seen then some key else repeatedKey (key :: seen) pairs

def noDuplicateKeys (pairs : List (Text × Value)) : Except HookError Value :=
  match repeatedKey [] pairs with
  | some key => .error (.duplicateKey key)
  | none => .ok (.obj (dictOf pairs))

def Interp.decoder (py : Interp) : Decoder HookError := ⟨noDuplicateKeys, rejectNonfinite, py.maxStrDigits⟩

/-- `json.loads(raw)`, without hooks. -/
def Interp.plainDecoder (py : Interp) : Decoder Empty :=
  ⟨fun pairs => .ok (.obj (dictOf pairs)), fun constant => .ok (.float constant.float), py.maxStrDigits⟩

/-- `json.dumps(.., ensure_ascii=False)`. -/
def Interp.encoder (py : Interp) : Encoder := ⟨false, true, py.maxStrDigits⟩

/-- `json.dumps(data, separators=(",", ":"), ensure_ascii=False).encode("utf-8")`. -/
def canonicalize (py : Interp) (data : Value) : Except Exc Bytes :=
  match py.encoder.dumps py.dumpsDepth data with
  | .error .recursion => .error .recursionError
  | .error _ => .error .valueError
  | .ok s =>
    match encodeUtf8 s with
    | none => .error .unicodeEncodeError
    | some b => .ok b

def dictGet (key : Text) : Value → Option Value
  | .obj ms => ms.lookup key
  | _ => none

/-- `params.get("name") if isinstance(params, dict) else None`. -/
def paramsName (data : Value) : Option Value := (dictGet (txt "params") data).bind (dictGet (txt "name"))

def relativeSegment (seg : Text) : Bool := seg = [] || seg = txt "." || seg = txt ".."

def refuse (error errorCode : Text) : JsonRpcParse := { error := some error, errorCode := errorCode }

def resolveTool (py : Interp) (data : Value) (method : Text) : Except Exc JsonRpcParse :=
  match canonicalize py data with
  | .error e => .error e
  | .ok canonical =>
    if method = txt "tools/call" then
      match paramsName data with
      | some (.str name) =>
        if maxIdentifierLen < name.length then
          .ok (refuse (txt "tool name exceeds maximum length of 256") (txt "identifier_too_long"))
        else
          .ok { method := some method, toolName := if name = [] then none else some name,
                canonicalBody := some canonical }
      | _ => .ok { method := some method, canonicalBody := some canonical }
    else .ok { method := some method, canonicalBody := some canonical }

def resolveMethod (py : Interp) (data : Value) : Except Exc JsonRpcParse :=
  match dictGet (txt "method") data with
  | some (.str method) =>
    if method = [] then .ok (refuse (txt "JSON-RPC request missing a string 'method'") (txt "invalid_jsonrpc"))
    else if maxIdentifierLen < method.length then
      .ok (refuse (txt "'method' exceeds maximum length of 256") (txt "identifier_too_long"))
    else if (method.splitOn (ch '/')).any relativeSegment then
      .ok (refuse (txt "method name contains an empty or relative path segment") (txt "invalid_jsonrpc"))
    else resolveTool py data method
  | _ => .ok (refuse (txt "JSON-RPC request missing a string 'method'") (txt "invalid_jsonrpc"))

def resolveRequest (py : Interp) (data : Value) : Except Exc JsonRpcParse :=
  match data with
  | .arr _ =>
    .ok (refuse (txt "JSON-RPC batch requests are not supported; send one request per call")
      (txt "batch_not_supported"))
  | .obj _ => resolveMethod py data
  | _ => .ok (refuse (txt "JSON-RPC request must be an object") (txt "invalid_jsonrpc"))

def parseJsonrpc (py : Interp) (raw : Bytes) : Except Exc JsonRpcParse :=
  match loads py.decoder py.loadsDepth raw with
  | .ok data => resolveRequest py data
  | .error (.hook (.duplicateKey key)) =>
    .ok (refuse (txt "request contains a duplicate JSON object member: " ++ strRepr py.isPrintable key)
      (txt "duplicate_json_key"))
  | .error (.hook (.nonFiniteConstant value)) =>
    .ok (refuse (txt "request contains a non-standard JSON constant: " ++ value.text)
      (txt "nonstandard_json_constant"))
  | .error .malformed => .ok (refuse (txt "request body is not valid JSON") (txt "invalid_json"))
  | .error .digits => .ok (refuse (txt "request body is not valid JSON") (txt "invalid_json"))
  | .error .recursion => .error .recursionError

/-! ## The hooks -/

theorem repeatedKey_none {seen : List Text} {pairs : List (Text × Value)} (hs : seen.Nodup)
    (h : repeatedKey seen pairs = none) : (seen.reverse ++ pairs.map Prod.fst).Nodup := by
  induction pairs generalizing seen with
  | nil => simpa using hs
  | cons p pairs ih =>
    rw [repeatedKey] at h
    split at h
    · cases h
    · rename_i hp
      have := ih (List.nodup_cons.mpr ⟨hp, hs⟩) h
      simpa using this

theorem noDuplicateKeys_ok {pairs : List (Text × Value)} {v : Value} (h : noDuplicateKeys pairs = .ok v) :
    (pairs.map Prod.fst).Nodup ∧ v = .obj pairs := by
  rw [noDuplicateKeys] at h
  split at h <;> cases h
  rename_i hn
  have hd : (pairs.map Prod.fst).Nodup := repeatedKey_none List.nodup_nil hn
  exact ⟨hd, by rw [dictOf_distinct hd]⟩

theorem decoder_objectPairs (py : Interp) (ps : List (Text × Value)) (w : Value)
    (h : py.decoder.objectPairs ps = .ok w) : w = .obj ps := (noDuplicateKeys_ok h).2

theorem decoder_parseConstant (py : Interp) (c : Constant) (w : Value) : py.decoder.parseConstant c ≠ .ok w := by
  intro h; cases h

/-! ## Accepted bodies -/

structure Resolved (py : Interp) (data : Value) (p : JsonRpcParse) : Prop where
  method : ∃ m, p.method = some m ∧ dictGet (txt "method") data = some (.str m) ∧ m ≠ [] ∧
    m.length ≤ maxIdentifierLen ∧
    (m.splitOn (ch '/')).all (fun seg => !relativeSegment seg) = true
  canonical : ∃ b, p.canonicalBody = some b ∧ canonicalize py data = .ok b
  toolName : ∀ n, p.toolName = some n ↔
    p.method = some (txt "tools/call") ∧ paramsName data = some (.str n) ∧ n ≠ []

theorem resolveTool_ok {py : Interp} {data : Value} {m : Text} {p : JsonRpcParse}
    (h : resolveTool py data m = .ok p)
    (he : p.error = none) : p.method = some m ∧ (∃ b, p.canonicalBody = some b ∧ canonicalize py data = .ok b) ∧
      ∀ n, p.toolName = some n ↔ p.method = some (txt "tools/call") ∧ paramsName data = some (.str n) ∧ n ≠ [] := by
  rw [resolveTool] at h
  split at h
  · cases h
  rename_i b hb
  split at h
  · rename_i hm
    split at h
    · rename_i name hname
      split at h <;> cases h
      · cases he
      refine ⟨rfl, ⟨b, rfl, hb⟩, fun n => ?_⟩
      by_cases hn : name = []
      · simp only [hn, if_true, hname]
        constructor
        · rintro ⟨⟩
        · rintro ⟨_, h, h'⟩
          cases h; exact absurd rfl h'
      · simp only [if_neg hn, hname, hm, true_and]
        constructor
        · rintro ⟨⟩; exact ⟨rfl, hn⟩
        · rintro ⟨⟨⟩, _⟩; rfl
    · rename_i hname
      cases h
      refine ⟨rfl, ⟨b, rfl, hb⟩, fun n => ⟨fun h => (by cases h), fun h => ?_⟩⟩
      exact absurd h.2.1 (hname n)
  · rename_i hm
    cases h
    exact ⟨rfl, ⟨b, rfl, hb⟩, fun n => ⟨fun h => (by cases h), fun h => absurd (Option.some.inj h.1) hm⟩⟩

theorem resolveRequest_cases (py : Interp) (data : Value) : resolveRequest py data = resolveMethod py data ∨
    ∃ error errorCode, resolveRequest py data = .ok (refuse error errorCode) := by
  cases data with
  | obj ms => exact Or.inl rfl
  | arr vs => exact Or.inr ⟨_, _, rfl⟩
  | null => exact Or.inr ⟨_, _, rfl⟩
  | bool b => exact Or.inr ⟨_, _, rfl⟩
  | int z => exact Or.inr ⟨_, _, rfl⟩
  | float x => exact Or.inr ⟨_, _, rfl⟩
  | str s => exact Or.inr ⟨_, _, rfl⟩

theorem resolveRequest_ok {py : Interp} {data : Value} {p : JsonRpcParse} (h : resolveRequest py data = .ok p)
    (he : p.error = none) : Resolved py data p := by
  have hmethod : resolveMethod py data = .ok p := by
    rcases resolveRequest_cases py data with heq | ⟨error, errorCode, heq⟩
    · rw [← heq]
      exact h
    · rw [heq] at h
      cases h
      cases he
  rw [resolveMethod] at hmethod
  split at hmethod
  · rename_i m hm
    split_ifs at hmethod with h1 h2 h3
    · cases hmethod; cases he
    · cases hmethod; cases he
    · cases hmethod; cases he
    · obtain ⟨hpm, hb, ht⟩ := resolveTool_ok hmethod he
      refine ⟨⟨m, hpm, hm, h1, Nat.le_of_not_lt h2, ?_⟩, hb, ht⟩
      simpa using h3
  · cases hmethod; cases he

theorem parseJsonrpc_ok {py : Interp} {raw : Bytes} {p : JsonRpcParse} (h : parseJsonrpc py raw = .ok p)
    (he : p.error = none) : ∃ data, loads py.decoder py.loadsDepth raw = .ok data ∧
    resolveRequest py data = .ok p := by
  rw [parseJsonrpc] at h
  split at h
  · rename_i data hd
    exact ⟨data, hd, h⟩
  all_goals cases h
  all_goals cases he

end McpGateway
