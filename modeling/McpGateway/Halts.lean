import McpGateway.AuditTrail
import McpGateway.Disclosure

/-!
# How a gate stops a request

Each gate that stops a request raises, or leaves one record and an answer. What
the record and the answer can be is said once for all gates.
-/

namespace McpGateway

open Unicode Json

def refusalStatuses : List Nat := [400, 401, 403, 413]

def refusalDecisions : List AuditDecision := [.rejected, .denied, .error]

inductive Halts (py : Interp) (gw : Gateway) (id : Text) : Stop → Prop
  | raised (e : Exc) : Halts py gw id (raise e)
  | unserved {record : AuditRecord} {outcome : Except Exc Response} (hauth : gw.settings.requireAuth = true)
      (hverifier : gw.verifier = none) (hid : record.requestId = id) (hdecision : record.decision = .error) :
      Halts py gw id ⟨[record], outcome⟩
  | refused {record : AuditRecord} {status : Nat} {content : List (Text × Value)} {headers : List (Text × Text)}
      (hid : record.requestId = id) (hdecision : record.decision = .rejected ∨ record.decision = .denied)
      (hstatus : status ∈ refusalStatuses) : Halts py gw id ⟨[record], jsonResponse py status content headers⟩

section
variable {py : Interp} {gw : Gateway} {request : Request} {record : AuditRecord} {stop : Stop}

theorem originGate_halts (h : originGate py gw request record = .error stop) :
    Halts py gw record.requestId stop := by
  rw [originGate] at h
  split at h
  · cases h
  split at h <;> cases h
  exact .refused rfl (Or.inl rfl) (by decide)

theorem tooLarge_halts (record : AuditRecord) : Halts py gw record.requestId (tooLarge py record) :=
  .refused rfl (Or.inl rfl) (by decide)

theorem lengthGate_halts (h : lengthGate py gw request record = .error stop) :
    Halts py gw record.requestId stop := by
  rw [lengthGate] at h
  split at h
  · split at h
    · cases h
    split at h
    · split at h
      · cases h
        exact .raised _
      split at h <;> cases h
      exact tooLarge_halts record
    · cases h
  · cases h

theorem readBody_halts {body : Bytes} {chunks : List Bytes}
    (h : readBody py gw request record body chunks = .error stop) :
    Halts py gw record.requestId stop := by
  induction chunks generalizing body with
  | nil =>
    rw [readBody] at h
    split at h <;> cases h
    exact .raised _
  | cons chunk chunks ih =>
    rw [readBody] at h
    split at h
    · cases h
      exact tooLarge_halts record
    · exact ih h

theorem authenticate_halts (h : authenticate py gw request record = .error stop) :
    Halts py gw record.requestId stop := by
  rw [authenticate] at h
  split at h
  · rename_i hauth
    split at h
    · rename_i hnone
      cases h
      exact .unserved hauth hnone rfl rfl
    dsimp only at h
    split at h
    · cases h
      exact .refused rfl (Or.inl rfl) (by decide)
    split at h <;> cases h
    · exact .raised _
    · exact .refused rfl (Or.inl rfl) (by decide)
  · cases h

theorem parseGate_halts {raw : Bytes} (h : parseGate py raw record = .error stop) :
    Halts py gw record.requestId stop := by
  rw [parseGate] at h
  split at h
  · cases h
    exact .raised _
  split at h <;> cases h
  exact .refused rfl (Or.inl rfl) (by decide)

variable {p : JsonRpcParse} {v : Option VerifiedToken}

theorem scopeGate_halts (h : scopeGate py gw p v record = .error stop) : Halts py gw record.requestId stop := by
  rw [scopeGate] at h
  split at h <;> cases h
  exact .refused rfl (Or.inr rfl) (by decide)

theorem toolGate_halts (h : toolGate py gw p v record = .error stop) : Halts py gw record.requestId stop := by
  rw [toolGate] at h
  split at h
  · cases h
  split at h
  · split at h
    · cases h
      exact .refused rfl (Or.inl rfl) (by decide)
    dsimp only at h
    split at h <;> cases h
    exact .refused rfl (Or.inr rfl) (by decide)
  · cases h

/-- The gates pass the record on under the id of the request. -/
theorem authorize_halts {requestId : Text} (h : authorize py gw request requestId = .error stop) :
    Halts py gw requestId stop := by
  rw [authorize] at h
  obtain h | ⟨_, _, h⟩ := bind_error.mp h
  · exact originGate_halts h
  obtain h | ⟨_, _, h⟩ := bind_error.mp h
  · exact lengthGate_halts h
  obtain h | ⟨raw, _, h⟩ := bind_error.mp h
  · exact readBody_halts h
  obtain h | ⟨⟨v, r₁⟩, hauth, h⟩ := bind_error.mp h
  · exact authenticate_halts h
  have hid₁ : r₁.requestId = requestId := (authenticate_ok hauth).2
  obtain h | ⟨p, _, h⟩ := bind_error.mp h
  · exact hid₁ ▸ parseGate_halts h
  obtain h | ⟨r₂, hscope, h⟩ := bind_error.mp h
  · exact hid₁ ▸ scopeGate_halts h
  have hid₂ : r₂.requestId = requestId := (scopeGate_ok hscope).2.trans hid₁
  obtain h | ⟨r₃, _, h⟩ := bind_error.mp h
  · exact hid₂ ▸ toolGate_halts h
  · cases h

end

end McpGateway
