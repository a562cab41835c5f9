import McpGateway.AuditLine
import McpGateway.Exits

/-!
# Two callers

Requests that are identical except for the scopes of their tokens, of which
both hold as many. The gates before the policies do not tell them apart.
-/

namespace McpGateway

open Unicode Json

/-! ## Two callers -/

def ClaimsAlike (claims₁ claims₂ : Claims) : Prop :=
  ∀ key, key ≠ txt "scope" → key ≠ txt "scp" → claims₁.get key = claims₂.get key

/-- What two tokens are decoded to when they differ in the scopes alone, and hold as many. -/
inductive DecodesAlike : Except VerifyError DecodedClaims → Except VerifyError DecodedClaims → Prop
  | same (decoded : Except VerifyError DecodedClaims) : DecodesAlike decoded decoded
  | scopes {claims₁ claims₂ : DecodedClaims} {scopes₁ scopes₂ : Finset Text} :
      ClaimsAlike claims₁.toClaims claims₂.toClaims → parseScopes claims₁.toClaims = .ok scopes₁ →
      parseScopes claims₂.toClaims = .ok scopes₂ → scopes₁.card = scopes₂.card →
        DecodesAlike (.ok claims₁) (.ok claims₂)

def Request.others (request : Request) : List (Text × Text) :=
  request.headers.filter fun h => h.1 ≠ txt "authorization"

/-- The requests are identical except for their tokens' scopes. -/
structure Twins (py : Interp) (gw : Gateway) (request₁ request₂ : Request) : Prop where
  client : request₁.client = request₂.client
  others : request₁.others = request₂.others
  chunks : request₁.chunks = request₂.chunks
  disconnected : request₁.disconnected = request₂.disconnected
  bearing : bearerToken py request₁ = [] ↔ bearerToken py request₂ = []
  tokens : bearerToken py request₁ ≠ [] → ∀ decode, gw.verifier = some decode →
    DecodesAlike (decode (bearerToken py request₁)) (decode (bearerToken py request₂))

inductive VerifiedAlike : Option VerifiedToken → Option VerifiedToken → Prop
  | same (v : Option VerifiedToken) : VerifiedAlike v v
  | scopes {v₁ v₂ : VerifiedToken} : v₁.subject = v₂.subject → v₁.scopes.card = v₂.scopes.card →
      ClaimsAlike v₁.claims v₂.claims → VerifiedAlike (some v₁) (some v₂)

theorem lookup_filter {l : List (Text × Text)} {name skipped : Text} (h : name ≠ skipped) :
    (l.filter fun m => m.1 ≠ skipped).lookup name = l.lookup name := by
  induction l with
  | nil => rfl
  | cons m l ih =>
    by_cases hm : m.1 = skipped
    · have hne : (name == m.1) = false := by
        rw [beq_eq_false_iff_ne, hm]
        exact h
      rw [List.filter_cons_of_neg (by simp [hm]), ih, List.lookup_cons, hne]
    · rw [List.filter_cons_of_pos (by simp [hm]), List.lookup_cons, List.lookup_cons, ih]

theorem verify_alike {decode : Text → Except VerifyError DecodedClaims} {token₁ token₂ : Text}
    (h : DecodesAlike (decode token₁) (decode token₂)) :
    (∃ e, verify decode token₁ = .error e ∧ verify decode token₂ = .error e) ∨
      ∃ v₁ v₂, verify decode token₁ = .ok v₁ ∧ verify decode token₂ = .ok v₂ ∧ VerifiedAlike (some v₁) (some v₂) ∧
        v₁.subject = v₂.subject ∧ v₁.scopes.card = v₂.scopes.card := by
  rw [verify, verify]
  generalize decode token₁ = decoded₁ at h
  generalize decode token₂ = decoded₂ at h
  cases h with
  | same =>
    cases decoded₁ with
    | error e => exact Or.inl ⟨e, rfl, rfl⟩
    | ok claims =>
      dsimp only
      cases verifyClaims claims with
      | error message => exact Or.inl ⟨_, rfl, rfl⟩
      | ok v => exact Or.inr ⟨v, v, rfl, rfl, .same _, rfl, rfl⟩
  | @scopes claims₁ claims₂ scopes₁ scopes₂ hclaims hscopes₁ hscopes₂ hcard =>
    have hsubject : claims₁.subject = claims₂.subject := by
      have hsub := hclaims (txt "sub") (by decide) (by decide)
      rw [DecodedClaims.subject, DecodedClaims.subject, hsub]
    dsimp only
    rw [verifyClaims, verifyClaims, hscopes₁, hscopes₂, hsubject]
    split_ifs with hempty hrefused
    · exact Or.inl ⟨_, rfl, rfl⟩
    · exact Or.inl ⟨_, rfl, rfl⟩
    · exact Or.inr ⟨_, _, rfl, rfl, .scopes rfl hcard hclaims, rfl, hcard⟩

/-! ## The gates before the policies -/

inductive GatesAlike {α : Type} (R : α → α → Prop) : Except Stop α → Except Stop α → Prop
  | passed {a₁ a₂ : α} : R a₁ a₂ → GatesAlike R (.ok a₁) (.ok a₂)
  | stopped {stop₁ stop₂ : Stop} : stop₁.emitted.map AuditRecord.shown = stop₂.emitted.map AuditRecord.shown →
      GatesAlike R (.error stop₁) (.error stop₂)

theorem GatesAlike.bind {α β : Type} {R : α → α → Prop} {S : β → β → Prop} {x₁ x₂ : Except Stop α}
    {f₁ f₂ : α → Except Stop β} (h : GatesAlike R x₁ x₂) (hf : ∀ a₁ a₂, R a₁ a₂ → GatesAlike S (f₁ a₁) (f₂ a₂)) :
    GatesAlike S (x₁ >>= f₁) (x₂ >>= f₂) := by
  cases h with
  | passed hr => exact hf _ _ hr
  | stopped hstop => exact .stopped hstop

section
variable {py : Interp} {gw : Gateway} {request₁ request₂ : Request} {record₁ record₂ : AuditRecord}

theorem header_alike (h : Twins py gw request₁ request₂) {name : Text} (hname : name ≠ txt "authorization") :
    request₁.header name = request₂.header name := by
  rw [Request.header, Request.header, ← lookup_filter hname, ← @lookup_filter request₂.headers _ _ hname]
  exact congrArg (List.lookup name) h.others

variable (hrecord : record₁.shown = record₂.shown)
include hrecord

theorem refused_alike {α : Type} {R : α → α → Prop} (d : AuditDecision) (code : Text)
    (outcome₁ outcome₂ : Except Exc Response) :
    GatesAlike R (.error ⟨[record₁.decide d code], outcome₁⟩) (.error ⟨[record₂.decide d code], outcome₂⟩) := by
  apply GatesAlike.stopped
  have hshown : ∀ record : AuditRecord, (record.decide d code).shown = record.shown.decide d code := fun _ => rfl
  rw [List.map_singleton, List.map_singleton, hshown, hshown, hrecord]

theorem explained_alike {α : Type} {R : α → α → Prop} (d : AuditDecision) (code reason : Text)
    (outcome₁ outcome₂ : Except Exc Response) :
    GatesAlike R (.error ⟨[(record₁.decide d code).because reason], outcome₁⟩)
      (.error ⟨[(record₂.decide d code).because reason], outcome₂⟩) := by
  apply GatesAlike.stopped
  have hshown : ∀ record : AuditRecord, ((record.decide d code).because reason).shown =
      (record.shown.decide d code).because reason := fun _ => rfl
  rw [List.map_singleton, List.map_singleton, hshown, hshown, hrecord]

theorem originGate_alike (h : Twins py gw request₁ request₂) :
    GatesAlike (fun _ _ => True) (originGate py gw request₁ record₁) (originGate py gw request₂ record₂) := by
  have horigin : request₁.header (txt "origin") = request₂.header (txt "origin") := header_alike h (by decide)
  rw [originGate, originGate, horigin]
  cases request₂.header (txt "origin") with
  | none => exact .passed trivial
  | some origin =>
    dsimp only
    split
    · exact .passed trivial
    · exact explained_alike hrecord _ _ _ _ _

theorem tooLarge_alike {α : Type} {R : α → α → Prop} :
    GatesAlike R (.error (tooLarge py record₁)) (.error (tooLarge py record₂)) :=
  refused_alike hrecord _ _ _ _

theorem lengthGate_alike (h : Twins py gw request₁ request₂) :
    GatesAlike (fun _ _ => True) (lengthGate py gw request₁ record₁) (lengthGate py gw request₂ record₂) := by
  have hlength : request₁.header (txt "content-length") = request₂.header (txt "content-length") :=
    header_alike h (by decide)
  rw [lengthGate, lengthGate, hlength]
  split
  · split
    · exact .passed trivial
    split
    · split
      · exact .stopped rfl
      split
      · exact tooLarge_alike hrecord
      · exact .passed trivial
    · exact .passed trivial
  · exact .passed trivial

theorem readBody_alike (h : Twins py gw request₁ request₂) (body : Bytes) (chunks : List Bytes) :
    GatesAlike Eq (readBody py gw request₁ record₁ body chunks) (readBody py gw request₂ record₂ body chunks) := by
  induction chunks generalizing body with
  | nil =>
    rw [readBody, readBody, h.disconnected]
    split
    · exact .stopped rfl
    · exact .passed rfl
  | cons chunk chunks ih =>
    rw [readBody, readBody]
    split
    · exact tooLarge_alike hrecord
    · exact ih _

def IdentifiedAlike (x₁ x₂ : Option VerifiedToken × AuditRecord) : Prop := VerifiedAlike x₁.1 x₂.1 ∧
    x₁.2.shown = x₂.2.shown

theorem verified_shown {v₁ v₂ : VerifiedToken} (hsubject : v₁.subject = v₂.subject)
    (hcard : v₁.scopes.card = v₂.scopes.card) :
    (record₁.verified v₁).shown = (record₂.verified v₂).shown := by
  have hshown : ∀ (record : AuditRecord) (v : VerifiedToken), (record.verified v).shown =
      { record.shown with subject := some v.subject, heldScopeCount := v.scopes.card } := fun _ _ => rfl
  rw [hshown, hshown, hrecord, hsubject, hcard]

theorem authenticate_alike (h : Twins py gw request₁ request₂) :
    GatesAlike IdentifiedAlike (authenticate py gw request₁ record₁) (authenticate py gw request₂ record₂) := by
  rw [authenticate, authenticate]
  split
  · cases hverifier : gw.verifier with
    | none => exact refused_alike hrecord _ _ _ _
    | some decode =>
      dsimp only
      by_cases hbearing : bearerToken py request₁ = []
      · rw [hbearing, h.bearing.mp hbearing]
        exact refused_alike hrecord _ _ _ _
      · have hbearing₂ := mt h.bearing.mpr hbearing
        rw [if_neg (by simpa using hbearing), if_neg (by simpa using hbearing₂)]
        obtain ⟨e, he₁, he₂⟩ | ⟨v₁, v₂, hv₁, hv₂, halike, hsubject, hcard⟩ :=
          verify_alike (h.tokens hbearing decode hverifier)
        · rw [he₁, he₂]
          cases e with
          | raised e => exact .stopped rfl
          | tokenError message => exact explained_alike hrecord _ _ _ _ _
        · rw [hv₁, hv₂]
          exact .passed ⟨halike, verified_shown hrecord hsubject hcard⟩
  · exact .passed ⟨.same none, hrecord⟩

theorem parseGate_alike (raw : Bytes) : GatesAlike Eq (parseGate py raw record₁) (parseGate py raw record₂) := by
  rw [parseGate, parseGate]
  split
  · exact .stopped rfl
  split
  · exact explained_alike hrecord _ _ _ _ _
  · exact .passed rfl

end

structure AuthorizedAlike (a₁ a₂ : Authorized) : Prop where
  verified : VerifiedAlike a₁.verified a₂.verified
  parsed : a₁.parsed = a₂.parsed
  record : a₁.record.shown = a₂.record.shown

section
variable {py : Interp} {gw : Gateway} {request₁ request₂ : Request} {requestId₁ requestId₂ : Text}

/-- No gate before the policies tells the callers apart. -/
theorem frontGates_alike (h : Twins py gw request₁ request₂) :
    GatesAlike AuthorizedAlike (frontGates py gw request₁ requestId₁) (frontGates py gw request₂ requestId₂) := by
  have hrecord : (openRecord gw request₁ requestId₁).shown = (openRecord gw request₂ requestId₂).shown := by
    have hid : request₁.header (txt "x-request-id") = request₂.header (txt "x-request-id") :=
      header_alike h (by decide)
    rw [openRecord, openRecord, hid, h.client]
    rfl
  rw [frontGates, frontGates, h.chunks]
  refine (originGate_alike hrecord h).bind fun _ _ _ => ?_
  refine (lengthGate_alike hrecord h).bind fun _ _ _ => ?_
  refine (readBody_alike hrecord h _ _).bind fun raw₁ raw₂ hraw => ?_
  refine (authenticate_alike hrecord h).bind fun x₁ x₂ hx => ?_
  rw [hraw]
  refine (parseGate_alike hx.2 _).bind fun p₁ p₂ hp => ?_
  exact .passed ⟨hx.1, hp, hx.2⟩

end

end McpGateway
