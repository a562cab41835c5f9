import McpGateway.Identity

/-!
# The tool policy

An allow-list for every caller, and rules that add tools to the callers whose
claim has one of the rule's values.
-/

namespace McpGateway

open Unicode Json

structure ToolDecision where
  allowed : Bool
  tool : Text
  reason : Text
  matchedRule : Option Text
  deriving DecidableEq

structure ToolRule where
  name : Text
  anyOf : Finset Text
  allowedTools : Finset Text

structure ToolPolicy where
  allowedTools : Finset Text
  claim : Text
  rules : List ToolRule

inductive ClaimProblem
  | absent
  | unusable
  deriving DecidableEq

/-- `_claim_values`: a claim as a set of strings, never split. -/
def claimValues (claims : Option Claims) (name : Text) : Except ClaimProblem (Finset Text) :=
  match claims with
  | none => .error .absent
  | some claims =>
    match claims.get name with
    | none => .error .absent
    | some (.str raw) => if raw.isEmpty then .error .unusable else .ok {raw}
    | some (.arr raw) =>
      match raw.mapM strOf with
      | some values => if values.all fun v => !v.isEmpty then .ok values.toFinset else .error .unusable
      | none => .error .unusable
    | some _ => .error .unusable

def unconditional : Text := txt "[unconditional]"

def denyTool (tool reason : Text) : ToolDecision := ⟨false, tool, reason, none⟩

/-- The rules in order, up to the first that grants the tool. -/
def ToolPolicy.checkRules (policy : ToolPolicy) (tool : Text) (values : Finset Text) :
    Bool → List ToolRule → ToolDecision
  | matchedAny, [] =>
    if !matchedAny then
      denyTool tool (txt "no rule matches the token's '" ++ policy.claim ++ txt "' values (deny-by-default)")
    else
      denyTool tool (txt "tool '" ++ tool ++ txt "' is not permitted for the token's '" ++ policy.claim ++
        txt "' values (deny-by-default)")
  | matchedAny, rule :: rules =>
    if values ∩ rule.anyOf = ∅ then policy.checkRules tool values matchedAny rules
    else if tool ∈ rule.allowedTools then ⟨true, tool, txt "ok", some rule.name⟩
    else policy.checkRules tool values true rules

def ToolPolicy.check (policy : ToolPolicy) (tool : Text) (claims : Option Claims) : ToolDecision :=
  if tool.isEmpty then denyTool tool (txt "empty tool name is never authorized (deny-by-default)")
  else if tool ∈ policy.allowedTools then ⟨true, tool, txt "ok", some unconditional⟩
  else if policy.rules.isEmpty then
    denyTool tool (txt "tool '" ++ tool ++ txt "' is not in the allow-list (deny-by-default)")
  else
    match claimValues claims policy.claim with
    | .error .absent =>
      denyTool tool (txt "claim '" ++ policy.claim ++
        txt "' is absent from the token, so no rule can match (deny-by-default)")
    | .error .unusable =>
      denyTool tool (txt "claim '" ++ policy.claim ++
        txt "' is not a string or list of strings; refusing to coerce it (deny-by-default)")
    | .ok values => policy.checkRules tool values false policy.rules

end McpGateway
