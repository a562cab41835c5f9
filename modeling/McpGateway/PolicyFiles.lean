import McpGateway.JsonDepth
import McpGateway.Preservation
import McpGateway.ScopeRules
import McpGateway.ToolGrants

/-!
# Policy files

Both loaders read the file as JSON and check every member before a policy is
built from it.
-/

namespace McpGateway

open Unicode Json

/-- What a loader raises; `value` is a `ValueError` with its text. -/
inductive FileError
  | unicodeDecodeError
  | jsonDecodeError
  | intDigits
  | recursionError
  | value (message : Text)
  deriving DecidableEq

/-- The decode errors are subclasses of `ValueError`. -/
def FileError.isValueError : FileError → Bool
  | .recursionError => false
  | _ => true

/-! ## Reading -/

def newlines : Text → Text
  | [] => []
  | c :: l =>
    if c = ch '\r' then
      if l.head? = some (ch '\n') then newlines l else ch '\n' :: newlines l
    else c :: newlines l

/-- `open(path, encoding="utf-8").read()`. -/
def readText (file : Bytes) : Option Text := (decodeStrict file).map newlines

def byteOrderMark : CodePoint := ⟨0xFEFF, by decide⟩

def loadFile (py : Interp) (file : Bytes) : Except FileError Value :=
  match readText file with
  | none => .error .unicodeDecodeError
  | some s =>
    if s.head? = some byteOrderMark then .error .jsonDecodeError
    else
      match scanDocument py.plainDecoder py.loadsDepth s with
      | .ok data => .ok data
      | .error .malformed => .error .jsonDecodeError
      | .error .digits => .error .intDigits
      | .error .recursion => .error .recursionError
      | .error (.hook e) => e.elim

deriving instance DecidableEq for ToolRule, ToolPolicy, ScopePolicy

/-! ## Members -/

def getOr (ms : List (Text × Value)) (key : Text) (default : Value) : Value := (ms.lookup key).getD default

def typeName : Value → Text
  | .null => txt "NoneType"
  | .bool _ => txt "bool"
  | .int _ => txt "int"
  | .float _ => txt "float"
  | .str _ => txt "str"
  | .arr _ => txt "list"
  | .obj _ => txt "dict"

def commas (keys : Finset Text) : Text := (txt ", ").intercalate (sorted keys)

def refuseUnknown (ms : List (Text × Value)) (keys : Finset Text) (place : Text) : Except FileError Unit :=
  let unknown := (ms.map Prod.fst).toFinset \ keys
  if unknown = ∅ then .ok ()
  else .error (.value (txt "unknown key(s) in " ++ place ++ txt ": " ++ commas unknown ++
    txt "; expected only " ++ commas keys))

def nonEmptyString (raw : Value) (message : Text) : Except FileError Text :=
  match raw with
  | .str s => if s.isEmpty then .error (.value message) else .ok s
  | _ => .error (.value message)

def stringList (raw : Value) (label : Text) : Except FileError (Finset Text) :=
  match raw with
  | .null => .error (.value (label ++ txt " is required and must be a list of strings"))
  | .arr raw =>
    match raw.mapM strOf with
    | some strings =>
      if strings.all fun t => !t.isEmpty then .ok strings.toFinset
      else .error (.value (label ++ txt " must contain only non-empty strings"))
    | none => .error (.value (label ++ txt " must contain only non-empty strings"))
  | raw => .error (.value (label ++ txt " must be a list of tool-name strings, got " ++ typeName raw))

/-! ## The tool policy -/

def policyKeys : Finset Text := {txt "allowed_tools", txt "claim", txt "rules"}

def ruleKeys : Finset Text := {txt "name", txt "any_of", txt "allowed_tools"}

def defaultName (i : Nat) : Text := txt "rules[" ++ intRepr i ++ txt "]"

def ToolRule.ofRaw (i : Nat) (raw : Value) : Except FileError ToolRule :=
  match raw with
  | .obj ms => do
    refuseUnknown ms ruleKeys (txt "rule at index " ++ intRepr i)
    let name ← nonEmptyString (getOr ms (txt "name") (.str (defaultName i)))
      (txt "rule at index " ++ intRepr i ++ txt ": 'name' must be a non-empty string")
    let anyOf ← stringList (getOr ms (txt "any_of") .null) (txt "rule '" ++ name ++ txt "': 'any_of'")
    if anyOf = ∅ then
      .error (.value (txt "rule '" ++ name ++ txt "': 'any_of' must list at least one claim value"))
    else do
      let tools ← stringList (getOr ms (txt "allowed_tools") .null)
        (txt "rule '" ++ name ++ txt "': 'allowed_tools'")
      return ⟨name, anyOf, tools⟩
  | _ => .error (.value (txt "rule at index " ++ intRepr i ++ txt " must be a JSON object"))

def rulesFrom : Nat → List Value → Except FileError (List ToolRule)
  | _, [] => .ok []
  | i, raw :: raws => do
    let rule ← ToolRule.ofRaw i raw
    let rules ← rulesFrom (i + 1) raws
    return rule :: rules

def rawRules (raw : Value) : Except FileError (List Value) :=
  match raw with
  | .arr raws => .ok raws
  | raw => .error (.value (txt "'rules' must be a list of rule objects, got " ++ typeName raw))

def ToolPolicy.ofMembers (ms : List (Text × Value)) : Except FileError ToolPolicy := do
  refuseUnknown ms policyKeys (txt "tool policy file")
  let allowed ← stringList (getOr ms (txt "allowed_tools") (.arr [])) (txt "'allowed_tools'")
  let claim ← nonEmptyString (getOr ms (txt "claim") (.str (txt "groups")))
    (txt "'claim' must be a non-empty string naming a token claim")
  let raws ← rawRules (getOr ms (txt "rules") (.arr []))
  let rules ← rulesFrom 0 raws
  return ⟨allowed, claim, rules⟩

def ToolPolicy.fromFile (py : Interp) (file : Bytes) : Except FileError ToolPolicy :=
  match loadFile py file with
  | .error e => .error e
  | .ok (.obj ms) => ToolPolicy.ofMembers ms
  | .ok _ => .error (.value (txt "tool policy file must be a JSON object"))

/-! ## The scope policy -/

def scopeList (raw : Value) (notList nonString : Text) : Except FileError (Finset Text) :=
  match raw with
  | .arr raw =>
    match raw.mapM strOf with
    | some scopes => .ok scopes.toFinset
    | none => .error (.value nonString)
  | _ => .error (.value notList)

def scopeRules : List (Text × Value) → Except FileError (List (Text × Finset Text))
  | [] => .ok []
  | (method, raw) :: raws => do
    let scopes ← scopeList raw
      (txt "rule '" ++ method ++ txt "' must map to a list of scope strings, got " ++ typeName raw)
      (txt "rule '" ++ method ++ txt "' contains a non-string scope")
    let rules ← scopeRules raws
    return (method, scopes) :: rules

def methodTable (raw : Value) : Except FileError (List (Text × Value)) :=
  match raw with
  | .obj raws => .ok raws
  | _ => .error (.value (txt "'rules' must be an object mapping method -> [scopes]"))

def denyFlag (raw : Value) : Except FileError Bool :=
  match raw with
  | .bool deny => .ok deny
  | _ => .error (.value (txt "'deny_by_default' must be a JSON boolean (true/false)"))

def ScopePolicy.ofMembers (ms : List (Text × Value)) : Except FileError ScopePolicy := do
  let raws ← methodTable (getOr ms (txt "rules") (.obj []))
  let rules ← scopeRules raws
  let default ← scopeList (getOr ms (txt "default") (.arr [])) (txt "'default' must be a list of scope strings")
    (txt "'default' contains a non-string scope")
  let deny ← denyFlag (getOr ms (txt "deny_by_default") (.bool true))
  return ⟨dictOf rules, default, deny, dictOf_names rules⟩

def ScopePolicy.fromFile (py : Interp) (file : Bytes) : Except FileError ScopePolicy :=
  match loadFile py file with
  | .error e => .error e
  | .ok (.obj ms) => ScopePolicy.ofMembers ms
  | .ok _ => .error (.value (txt "scope policy file must be a JSON object"))

/-! ## Reading, once more -/

section
variable {py : Interp} {file : Bytes}

/-- A file is loaded when its text has a tree within the limits. -/
theorem loadFile_ok {data : Value} (h : loadFile py file = .ok data) :
    ∃ s t, readText file = some s ∧ Document s t ∧ py.plainDecoder.eval py.loadsDepth t = .ok data := by
  unfold loadFile at h
  split at h
  · cases h
  rename_i s hs
  split at h
  · cases h
  split at h
  · rename_i v hv
    cases h
    obtain ⟨t, ht, heval⟩ := (scanDocument_ok _).mp hv
    exact ⟨s, t, hs, ht, heval⟩
  · cases h
  · cases h
  · cases h
  · rename_i e _
    exact e.elim

theorem loadFile_error {e : FileError} (h : loadFile py file = .error e) :
    e.isValueError = false ↔ ∃ s, readText file = some s ∧ s.head? ≠ some byteOrderMark ∧
      scanDocument py.plainDecoder py.loadsDepth s = .error .recursion := by
  unfold loadFile at h
  split at h
  · rename_i hs
    cases h
    simp [FileError.isValueError, hs]
  rename_i s hs
  split at h
  · rename_i hb
    cases h
    simp [FileError.isValueError, hs, hb]
  rename_i hb
  split at h
  · cases h
  · rename_i hscan
    cases h
    simp [FileError.isValueError, hs, hscan]
  · rename_i hscan
    cases h
    simp [FileError.isValueError, hs, hscan]
  · rename_i hscan
    cases h
    exact iff_of_true rfl ⟨s, hs, hb, hscan⟩
  · rename_i e' _
    exact e'.elim

end

/-! ## What the checks let through -/

theorem nonEmptyString_ok {raw : Value} {message s : Text} (h : nonEmptyString raw message = .ok s) : s ≠ [] := by
  unfold nonEmptyString at h
  split at h
  · split at h
    · cases h
    · rename_i hs
      cases h
      simpa using hs
  · cases h

theorem stringList_ok {raw : Value} {label : Text} {strings : Finset Text}
    (h : stringList raw label = .ok strings) :
    ∀ t ∈ strings, t ≠ [] := by
  unfold stringList at h
  split at h
  · cases h
  · split at h
    · split at h
      · rename_i hall
        cases h
        intro t ht
        rw [List.mem_toFinset] at ht
        simpa using List.all_eq_true.mp hall t ht
      · cases h
    · cases h
  · cases h

structure ToolRule.Loaded (rule : ToolRule) : Prop where
  name : rule.name ≠ []
  meets : rule.anyOf.Nonempty
  anyOf : ∀ v ∈ rule.anyOf, v ≠ []
  allowedTools : ∀ tool ∈ rule.allowedTools, tool ≠ []

structure ToolPolicy.Loaded (policy : ToolPolicy) : Prop where
  allowedTools : ∀ tool ∈ policy.allowedTools, tool ≠ []
  claim : policy.claim ≠ []
  rules : ∀ rule ∈ policy.rules, rule.Loaded

theorem ofRaw_loaded {i : Nat} {raw : Value} {rule : ToolRule} (h : ToolRule.ofRaw i raw = .ok rule) :
    rule.Loaded := by
  unfold ToolRule.ofRaw at h
  split at h
  · obtain ⟨_, _, h⟩ := bind_ok.mp h
    obtain ⟨name, hname, h⟩ := bind_ok.mp h
    obtain ⟨anyOf, hany, h⟩ := bind_ok.mp h
    split at h
    · cases h
    rename_i hmeets
    obtain ⟨tools, htools, h⟩ := bind_ok.mp h
    cases h
    exact ⟨nonEmptyString_ok hname, Finset.nonempty_iff_ne_empty.mpr hmeets, stringList_ok hany,
      stringList_ok htools⟩
  · cases h

theorem rulesFrom_loaded {i : Nat} {raws : List Value} {rules : List ToolRule} (h : rulesFrom i raws = .ok rules) :
    ∀ rule ∈ rules, rule.Loaded := by
  induction raws generalizing i rules with
  | nil =>
    cases h
    intro rule hr
    cases hr
  | cons raw raws ih =>
    unfold rulesFrom at h
    obtain ⟨rule, hrule, h⟩ := bind_ok.mp h
    obtain ⟨rest, hrest, h⟩ := bind_ok.mp h
    cases h
    exact List.forall_mem_cons.mpr ⟨ofRaw_loaded hrule, ih hrest⟩

theorem ofMembers_loaded {ms : List (Text × Value)} {policy : ToolPolicy}
    (h : ToolPolicy.ofMembers ms = .ok policy) :
    policy.Loaded := by
  unfold ToolPolicy.ofMembers at h
  obtain ⟨_, _, h⟩ := bind_ok.mp h
  obtain ⟨allowed, hallowed, h⟩ := bind_ok.mp h
  obtain ⟨claim, hclaim, h⟩ := bind_ok.mp h
  obtain ⟨raws, _, h⟩ := bind_ok.mp h
  obtain ⟨rules, hrules, h⟩ := bind_ok.mp h
  cases h
  exact ⟨stringList_ok hallowed, nonEmptyString_ok hclaim, rulesFrom_loaded hrules⟩

theorem fromFile_loaded {py : Interp} {file : Bytes} {policy : ToolPolicy}
    (h : ToolPolicy.fromFile py file = .ok policy) :
    policy.Loaded := by
  unfold ToolPolicy.fromFile at h
  split at h
  · cases h
  · exact ofMembers_loaded h
  · cases h

end McpGateway
