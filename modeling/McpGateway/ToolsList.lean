import McpGateway.JsonRpc
import McpGateway.ToolPolicy

/-!
# Filtering a tools/list page

The page is loaded, its entries are checked one by one with the policy for
calls, and it is printed again with the entries that pass.
-/

namespace McpGateway

open Unicode Json

def maxToolNameLen : Nat := 256

def filterFailed : Text := txt "tools_list_filter_failed"

def upstreamError : Text := txt "tools_list_upstream_error"

structure FilterOutcome where
  body : Option Bytes
  errorCode : Option Text
  toolsReturned : Nat
  toolsFiltered : Nat
  deriving DecidableEq

/-- `_failed()`, and the upstream's error with the other code. -/
def FilterOutcome.failed (code : Text) : FilterOutcome := ⟨none, some code, 0, 0⟩

/-- `json.loads(raw, parse_constant=..)`: the last of repeated members stays. -/
def Interp.pageDecoder (py : Interp) : Decoder Constant :=
  ⟨fun pairs => .ok (.obj (dictOf pairs)), fun value => .error value, py.maxStrDigits⟩

def Interp.pageEncoder (py : Interp) : Encoder := ⟨true, false, py.maxStrDigits⟩

def entryName (entry : Value) : Option Text :=
  match dictGet (txt "name") entry with
  | some (.str name) => if name.isEmpty || maxToolNameLen < name.length then none else some name
  | _ => none

def keepTools (policy : ToolPolicy) (claims : Option Claims) : List Value → Option (List Value)
  | [] => some []
  | entry :: tools =>
    match entryName entry with
    | none => none
    | some name =>
      match keepTools policy claims tools with
      | none => none
      | some kept => some (if (policy.check name claims).allowed then entry :: kept else kept)

/-- `doc` with `doc["result"]["tools"] = kept`. -/
def withTools (doc result : List (Text × Value)) (kept : List Value) : Value :=
  .obj (setMember (txt "result") (.obj (setMember (txt "tools") (.arr kept) result)) doc)

/-- `json.dumps(doc, ..).encode("utf-8")` and what becomes of its errors. -/
def printPage (py : Interp) (page : Value) (returned filtered : Nat) : Except Exc FilterOutcome :=
  match py.pageEncoder.dumps py.dumpsDepth page with
  | .error .recursion => .error .recursionError
  | .error _ => .ok (.failed filterFailed)
  | .ok s =>
    match encodeUtf8 s with
    | none => .ok (.failed filterFailed)
    | some body => .ok ⟨some body, none, returned, filtered⟩

def filterDoc (py : Interp) (policy : ToolPolicy) (claims : Option Claims) (doc : Value) :
    Except Exc FilterOutcome :=
  match doc with
  | .obj ms =>
    match ms.lookup (txt "jsonrpc") with
    | some (.str version) =>
      if version ≠ txt "2.0" then .ok (.failed filterFailed)
      else if (ms.lookup (txt "error")).isSome then .ok (.failed upstreamError)
      else
        match ms.lookup (txt "result") with
        | some (.obj result) =>
          match result.lookup (txt "tools") with
          | some (.arr tools) =>
            match keepTools policy claims tools with
            | none => .ok (.failed filterFailed)
            | some kept => printPage py (withTools ms result kept) kept.length (tools.length - kept.length)
          | _ => .ok (.failed filterFailed)
        | _ => .ok (.failed filterFailed)
    | _ => .ok (.failed filterFailed)
  | _ => .ok (.failed filterFailed)

def filterToolsList (py : Interp) (policy : ToolPolicy) (claims : Option Claims) (raw : Bytes) :
    Except Exc FilterOutcome :=
  match loads py.pageDecoder py.loadsDepth raw with
  | .error .recursion => .error .recursionError
  | .error _ => .ok (.failed filterFailed)
  | .ok doc => filterDoc py policy claims doc

end McpGateway
