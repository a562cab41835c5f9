import McpGateway.Proxy

/-!
# The decision line

The mapping that a record is written as. Without DEBUG it shows every field of
the record but the scope values.
-/

namespace McpGateway

open Unicode Json

/-! ## The mapping -/

def AuditDecision.text : AuditDecision → Text
  | .pending => txt "pending"
  | .allowed => txt "allowed"
  | .denied => txt "denied"
  | .rejected => txt "rejected"
  | .error => txt "error"

/-- `{k: v for k, v in d.items() if v is not None}`. -/
def presentMembers (d : List (Text × Option Value)) : List (Text × Value) :=
  d.filterMap fun m => m.2.map fun v => (m.1, v)

def natValue (n : Nat) : Value := .int (Int.ofNat n)

/-- `d` of `to_dict` before a stream event, without the latency. -/
def AuditRecord.members (record : AuditRecord) : List (Text × Option Value) :=
  [(txt "request_id", some (.str record.requestId)),
    (txt "client_request_id", record.clientRequestId.map .str),
    (txt "source_ip", record.sourceIp.map .str),
    (txt "subject", record.subject.map .str),
    (txt "issuer", record.issuer.map .str),
    (txt "audience", record.audience.map .str),
    (txt "method", record.method.map .str),
    (txt "tool_name", record.toolName.map .str),
    (txt "tool_rule", record.toolRule.map .str),
    (txt "tools_returned", record.toolsReturned.map natValue),
    (txt "tools_filtered", record.toolsFiltered.map natValue),
    (txt "decision", some (.str record.decision.text)),
    (txt "error_code", record.errorCode.map .str),
    (txt "reason", record.reason.map .str),
    (txt "required_scopes", some (.arr (record.requiredScopes.map .str))),
    (txt "held_scope_count", some (natValue record.heldScopeCount)),
    (txt "upstream_status", record.upstreamStatus.map natValue)]

def AuditRecord.toDict (record : AuditRecord) (includeScopeValues : Bool) : List (Text × Value) :=
  presentMembers (record.members ++
    if includeScopeValues then [(txt "held_scopes", some (.arr (record.scopeValues.map .str)))] else [])

/-- The decision line with DEBUG disabled, apart from the request's id and the latency. -/
def AuditRecord.line (record : AuditRecord) : List (Text × Value) :=
  (record.toDict false).filter fun m => m.1 ≠ txt "request_id"

def AuditRecord.shown (record : AuditRecord) : AuditRecord := { record with requestId := [], scopeValues := [] }

theorem presentMembers_keys {d : List (Text × Option Value)} {m : Text × Value} (h : m ∈ presentMembers d) :
    m.1 ∈ d.map Prod.fst := by
  obtain ⟨n, hn, hm⟩ := List.mem_filterMap.mp h
  cases hv : n.2 with
  | none =>
    rw [hv] at hm
    cases hm
  | some v =>
    rw [hv] at hm
    cases hm
    exact List.mem_map_of_mem hn

theorem presentMembers_inj {d d' : List (Text × Option Value)} (hkeys : d.map Prod.fst = d'.map Prod.fst)
    (hnodup : (d.map Prod.fst).Nodup) (h : presentMembers d = presentMembers d') : d = d' := by
  induction d generalizing d' with
  | nil =>
    cases d' with
    | nil => rfl
    | cons n d' => cases hkeys
  | cons m d ih =>
    cases d' with
    | nil => cases hkeys
    | cons n d' =>
      obtain ⟨k, o⟩ := m
      obtain ⟨k', o'⟩ := n
      obtain ⟨rfl, htail⟩ : k = k' ∧ d.map Prod.fst = d'.map Prod.fst := List.cons.inj hkeys
      obtain ⟨hk, hd⟩ : k ∉ d.map Prod.fst ∧ (d.map Prod.fst).Nodup := List.nodup_cons.mp hnodup
      cases o with
      | none =>
        cases o' with
        | none => rw [ih htail hd h]
        | some v' =>
          have hcons : presentMembers d = (k, v') :: presentMembers d' := h
          have hmem : (k, v') ∈ presentMembers d := by
            rw [hcons]
            exact List.mem_cons_self
          exact absurd (presentMembers_keys hmem) hk
      | some v =>
        cases o' with
        | none =>
          have hcons : (k, v) :: presentMembers d = presentMembers d' := h
          have hmem : (k, v) ∈ presentMembers d' := by
            rw [← hcons]
            exact List.mem_cons_self
          have hkey := presentMembers_keys hmem
          rw [← htail] at hkey
          exact absurd hkey hk
        | some v' =>
          obtain ⟨hv, hrest⟩ := List.cons.inj h
          cases hv
          rw [ih htail hd hrest]

def lineKeys : List Text :=
  [txt "client_request_id", txt "source_ip", txt "subject", txt "issuer", txt "audience", txt "method",
    txt "tool_name",
    txt "tool_rule", txt "tools_returned", txt "tools_filtered", txt "decision", txt "error_code", txt "reason",
    txt "required_scopes", txt "held_scope_count", txt "upstream_status"]

theorem members_keys (record : AuditRecord) : record.members.tail.map Prod.fst = lineKeys := rfl

theorem lineKeys_nodup : lineKeys.Nodup := by
  decide

theorem line_members (record : AuditRecord) : record.line = presentMembers record.members.tail := by
  have hother : ∀ m ∈ presentMembers record.members.tail, decide (m.1 ≠ txt "request_id") = true := by
    intro m hm
    have hkey := presentMembers_keys hm
    rw [members_keys] at hkey
    rw [decide_eq_true_eq]
    intro he
    rw [he] at hkey
    exact absurd hkey (by decide)
  have hdict : record.toDict false = (txt "request_id", .str record.requestId) ::
    presentMembers record.members.tail := rfl
  rw [AuditRecord.line, hdict, List.filter_cons_of_neg (by simp)]
  exact List.filter_eq_self.mpr hother

theorem str_inj {a b : Option Text} (h : a.map Value.str = b.map Value.str) : a = b :=
  Option.map_injective (fun _ _ he => Value.str.inj he) h

theorem count_inj {a b : Option Nat} (h : a.map natValue = b.map natValue) : a = b :=
  Option.map_injective (fun _ _ he => Int.ofNat.inj (Value.int.inj he)) h

theorem strs_inj {a b : List Text} (h : a.map Value.str = b.map Value.str) : a = b :=
  List.map_injective_iff.mpr (fun _ _ he => Value.str.inj he) h

theorem decision_inj {d d' : AuditDecision} (h : d.text = d'.text) : d = d' := by
  revert h
  cases d <;> cases d' <;> decide

/-- The line tells of a record what it shows and no more. -/
theorem line_iff {record record' : AuditRecord} : record.line = record'.line ↔ record.shown = record'.shown := by
  rw [line_members, line_members]
  constructor
  · intro h
    have hkeys : record.members.tail.map Prod.fst = record'.members.tail.map Prod.fst := rfl
    have hmembers := presentMembers_inj hkeys lineKeys_nodup h
    simp only [AuditRecord.members, List.tail_cons, List.cons.injEq, Prod.mk.injEq, true_and, and_true] at hmembers
    obtain ⟨hclient, hip, hsubject, hissuer, haudience, hmethod, htool, hrule, hreturned, hfiltered, hdecision,
      herror, hreason, hrequired, hcount, hstatus⟩ := hmembers
    rw [AuditRecord.shown, AuditRecord.shown, str_inj hclient, str_inj hip, str_inj hsubject, str_inj hissuer,
      str_inj haudience, str_inj hmethod, str_inj htool, str_inj hrule, count_inj hreturned, count_inj hfiltered,
      decision_inj (Value.str.inj (Option.some.inj hdecision)), str_inj herror, str_inj hreason,
      strs_inj (Value.arr.inj (Option.some.inj hrequired)), Int.ofNat.inj (Value.int.inj (Option.some.inj hcount)),
      count_inj hstatus]
  · intro h
    have hmembers : ∀ r : AuditRecord, r.members.tail = r.shown.members.tail := fun _ => rfl
    rw [hmembers record, hmembers record', h]

end McpGateway
