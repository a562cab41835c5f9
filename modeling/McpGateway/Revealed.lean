import McpGateway.Repr
import McpGateway.ToolGrants
import McpGateway.Twins

/-!
# What the log reveals of the scopes

When two callers who hold as many scopes each and get the same answer leave
the same line: the reason of a refusal tells which required scopes are missing.
-/

namespace McpGateway

open Unicode Json

/-! ## The decisions of the policies -/

def ReadsScopes (gw : Gateway) : Prop :=
  ∃ policy, gw.toolPolicy = some policy ∧ (policy.claim = txt "scope" ∨ policy.claim = txt "scp")

theorem claimValues_alike {v₁ v₂ : Option VerifiedToken} (h : VerifiedAlike v₁ v₂) {name : Text}
    (hscope : name ≠ txt "scope") (hscp : name ≠ txt "scp") :
    claimValues (v₁.map VerifiedToken.claims) name = claimValues (v₂.map VerifiedToken.claims) name := by
  cases h with
  | same => rfl
  | scopes _ _ hclaims =>
    rw [Option.map_some, Option.map_some, claimValues, claimValues, hclaims name hscope hscp]

section
variable {py : Interp} {gw : Gateway} {a₁ a₂ : Authorized}

theorem toolDecision_shape {d : ToolDecision} {a : Authorized} (h : toolDecision gw a = some d) :
    ∃ tool, a.parsed.toolName = some tool ∧
      ((∃ rule, d = ⟨true, tool, txt "ok", some rule⟩) ∨ ∃ reason, d = denyTool tool reason) := by
  rw [toolDecision] at h
  split at h
  · cases h
  split at h
  · obtain ⟨tool, htool, hd⟩ := Option.map_eq_some_iff.mp h
    rw [← hd]
    exact ⟨tool, htool, check_shape⟩
  · cases h

theorem toolDecision_none (h : a₁.parsed = a₂.parsed) : toolDecision gw a₁ = none ↔ toolDecision gw a₂ = none := by
  rw [toolDecision, toolDecision, h]
  split
  · rfl
  split
  · rw [Option.map_eq_none_iff, Option.map_eq_none_iff]
  · rfl

theorem toolDecision_alike (h : AuthorizedAlike a₁ a₂) (hreads : ¬ ReadsScopes gw) :
    toolDecision gw a₁ = toolDecision gw a₂ := by
  rw [toolDecision, toolDecision, h.parsed]
  split
  · rfl
  · rename_i policy hpolicy
    have hscope : policy.claim ≠ txt "scope" := fun he => hreads ⟨policy, hpolicy, Or.inl he⟩
    have hscp : policy.claim ≠ txt "scp" := fun he => hreads ⟨policy, hpolicy, Or.inr he⟩
    simp only [ToolPolicy.check, claimValues_alike h.verified hscope hscp]

theorem policies_toolDecision {a b : Authorized} (h : policies py gw a = .ok b) {d : ToolDecision}
    (hd : toolDecision gw a = some d) : d.allowed = true := by
  rw [policies] at h
  obtain ⟨_, _, h⟩ := bind_ok.mp h
  obtain ⟨_, htool, _⟩ := bind_ok.mp h
  have hallowed := (toolGate_ok htool).1
  rw [toolDecision] at hd
  split at hd
  · cases hd
  rename_i policy hpolicy
  split at hd
  · rename_i hmethod
    obtain ⟨tool, hname, hcheck⟩ := hallowed policy hpolicy hmethod
    rw [hname] at hd
    cases hd
    exact hcheck
  · cases hd

/-- Calls that are both allowed or both denied are decided alike when the rule and the reason are the same. -/
theorem toolDecision_ext {d₁ d₂ : ToolDecision} (h : a₁.parsed = a₂.parsed) (hd₁ : toolDecision gw a₁ = some d₁)
    (hd₂ : toolDecision gw a₂ = some d₂) (hallowed : d₁.allowed = d₂.allowed)
    (hrule : d₁.matchedRule = d₂.matchedRule)
    (hreason : d₁.allowed = false → d₁.reason = d₂.reason) : d₁ = d₂ := by
  obtain ⟨tool, htool, hshape₁⟩ := toolDecision_shape hd₁
  obtain ⟨tool₂, htool₂, hshape₂⟩ := toolDecision_shape hd₂
  rw [h] at htool
  cases htool.symm.trans htool₂
  obtain ⟨rule₁, rfl⟩ | ⟨reason₁, rfl⟩ := hshape₁
  · obtain ⟨rule₂, rfl⟩ | ⟨reason₂, rfl⟩ := hshape₂
    · cases hrule
      rfl
    · cases hallowed
  · obtain ⟨rule₂, rfl⟩ | ⟨reason₂, rfl⟩ := hshape₂
    · cases hallowed
    · have hsame : reason₁ = reason₂ := hreason rfl
      rw [hsame]

theorem missing_empty {a : Authorized} (h : Passes gw a) : missing gw a = ∅ := by
  obtain ⟨required, hasked, hle⟩ := h
  rw [missing, hasked, Option.getD_some, Finset.sdiff_eq_empty_iff_subset]
  exact hle

theorem sorted_inj {s t : Finset Text} (h : sorted s = sorted t) : s = t := by
  ext x
  rw [← mem_sorted, h, mem_sorted]

theorem require_reason {required held : Finset Text} (h : ¬ required ⊆ held) :
    (ScopePolicy.require py required held).reason =
      txt "missing scope(s): " ++ listRepr py.isPrintable (sorted (required \ held)) := by
  rw [ScopePolicy.require, if_pos (mt Finset.sdiff_eq_empty_iff_subset.mp h)]

/-- The reason of a refusal tells the missing scopes. -/
theorem scope_reason_iff (h : a₁.parsed = a₂.parsed) (h₁ : ¬ Passes gw a₁) (h₂ : ¬ Passes gw a₂) :
    (scopeDecision gw a₁ py).reason = (scopeDecision gw a₂ py).reason ↔ missing gw a₁ = missing gw a₂ := by
  rw [scopeDecision, scopeDecision, missing, missing, check_asked, check_asked]
  rw [Passes, asked] at h₁ h₂
  rw [asked, asked]
  rw [h] at h₁ ⊢
  cases hasked : gw.policy.asked (a₂.parsed.method.getD []) with
  | none => simp
  | some required =>
    have hnot₁ : ¬ required ⊆ heldScopes a₁.verified := fun hle => h₁ ⟨required, hasked, hle⟩
    have hnot₂ : ¬ required ⊆ heldScopes a₂.verified := fun hle => h₂ ⟨required, hasked, hle⟩
    rw [Option.getD_some]
    dsimp only
    rw [require_reason hnot₁, require_reason hnot₂]
    constructor
    · intro hreason
      exact sorted_inj (listRepr_inj (List.append_cancel_left hreason))
    · intro hmissing
      rw [hmissing]

/-! ## Two ends -/

theorem codes_disjoint (k₁ k₂ : Kind) : k₁ ≠ k₂ → ∀ code ∈ k₁.codes, code ∉ k₂.codes := by
  cases k₁ <;> cases k₂ <;> decide

variable {answer answer₁ answer₂ : Except Exc UpstreamResponse} {k k₁ k₂ : Kind} {e e₁ e₂ : Exit}

theorem exit_code {a : Authorized} (h : Exits gw a py answer k e) : e.code ∈ k.codes := by
  cases h with
  | pageRefused _ _ _ hrefusal => exact List.mem_map_of_mem hrefusal
  | _ => exact List.mem_singleton_self _

theorem exit_kind (h₁ : Exits gw a₁ py answer₁ k₁ e₁) (h₂ : Exits gw a₂ py answer₂ k₂ e₂)
    (hcode : e₁.code = e₂.code) :
    k₁ = k₂ := by
  by_contra hne
  have hmem := exit_code h₂
  rw [← hcode] at hmem
  exact codes_disjoint k₁ k₂ hne _ (exit_code h₁) hmem

/-- The records of two ends of one kind differ in what the ends add. -/
theorem record_shown_iff (h : AuthorizedAlike a₁ a₂) (hcode : e₁.code = e₂.code) :
    (Exit.record gw a₁ k e₁).shown = (Exit.record gw a₂ k e₂).shown ↔
      e₁.toolRule = e₂.toolRule ∧ e₁.reason = e₂.reason ∧ e₁.counts = e₂.counts ∧
      e₁.upstreamStatus = e₂.upstreamStatus := by
  constructor
  · intro hshown
    have hreturned : e₁.counts.map Prod.fst = e₂.counts.map Prod.fst := congrArg AuditRecord.toolsReturned hshown
    have hfiltered : e₁.counts.map Prod.snd = e₂.counts.map Prod.snd := congrArg AuditRecord.toolsFiltered hshown
    refine ⟨congrArg AuditRecord.toolRule hshown, congrArg AuditRecord.reason hshown, ?_,
      congrArg AuditRecord.upstreamStatus hshown⟩
    cases hc₁ : e₁.counts with
    | none =>
      rw [hc₁, Option.map_none] at hreturned
      exact (Option.map_eq_none_iff.mp hreturned.symm).symm
    | some counts₁ =>
      cases hc₂ : e₂.counts with
      | none =>
        rw [hc₁, hc₂] at hreturned
        cases hreturned
      | some counts₂ =>
        rw [hc₁, hc₂] at hreturned hfiltered
        rw [Prod.ext (Option.some.inj hreturned) (Option.some.inj hfiltered)]
  · intro ⟨hrule, hreason, hcounts, hstatus⟩
    have hform : ∀ (a : Authorized) (e : Exit), (Exit.record gw a k e).shown = { a.record.shown with
        method := a.parsed.method, toolName := a.parsed.toolName
        requiredScopes := sorted ((gw.policy.asked (a.parsed.method.getD [])).getD ∅)
        toolRule := e.toolRule, toolsReturned := e.counts.map Prod.fst, toolsFiltered := e.counts.map Prod.snd
        decision := k.decision, errorCode := e.code, reason := e.reason, upstreamStatus := e.upstreamStatus } :=
      fun _ _ => rfl
    rw [hform, hform, h.parsed, h.record, hcode, hrule, hreason, hcounts, hstatus]

theorem refusal_detail {refusal refusal' : Text × Text} (h : refusal ∈ refusals) (h' : refusal' ∈ refusals)
    (hcode : refusal.1 = refusal'.1) : refusal.2 = refusal'.2 := by
  have hdistinct : (refusals.map Prod.fst).Nodup := by decide +kernel
  rw [List.inj_on_of_nodup_map hdistinct h h' hcode]

theorem relays_unique {a : Authorized} {up : UpstreamResponse} {counts counts' : Option (Nat × Nat)}
    (h : Relays gw a py up counts) (h' : Relays gw a py up counts') : counts = counts' := by
  cases h with
  | streamed hnot =>
    cases h' with
    | streamed => rfl
    | filtered _ hfilters => exact absurd hfilters hnot
  | filtered hpolicy hfilters _ hread houtcome =>
    cases h' with
    | streamed hnot => exact absurd hfilters hnot
    | filtered hpolicy' _ _ hread' houtcome' =>
      cases hpolicy.symm.trans hpolicy'
      cases hread.symm.trans hread'
      cases houtcome.symm.trans houtcome'
      rfl

/-! ## When the lines are the same -/

/-- Nothing that the log shows tells the two admitted requests apart. -/
structure Indistinct (py : Interp) (gw : Gateway) (a₁ a₂ : Authorized)
    (answer₁ answer₂ : Except Exc UpstreamResponse) : Prop where
  scopes : missing gw a₁ = missing gw a₂
  tools : Passes gw a₁ → Passes gw a₂ → ReadsScopes gw → toolDecision gw a₁ = toolDecision gw a₂
  unreachable : ∀ b₁ b₂ cls₁ cls₂, policies py gw a₁ = .ok b₁ → policies py gw a₂ = .ok b₂ →
    answer₁ = .error (.requestError cls₁) → answer₂ = .error (.requestError cls₂) → cls₁ = cls₂
  relayed : ∀ b₁ b₂ up₁ up₂ counts₁ counts₂, policies py gw a₁ = .ok b₁ → policies py gw a₂ = .ok b₂ →
    answer₁ = .ok up₁ → answer₂ = .ok up₂ → Relays gw a₁ py up₁ counts₁ → Relays gw a₂ py up₂ counts₂ →
      up₁.status = up₂.status ∧ counts₁ = counts₂

theorem policies_passes {a b : Authorized} (h : policies py gw a = .ok b) : Passes gw a := by
  rw [policies] at h
  obtain ⟨_, hscope, _⟩ := bind_ok.mp h
  exact check_allowed.mp (scopeGate_ok hscope).1

/-- The rules of allowed calls tell the decisions. -/
theorem rule_iff {b₁ b₂ : Authorized} (h : AuthorizedAlike a₁ a₂) (h₁ : policies py gw a₁ = .ok b₁)
    (h₂ : policies py gw a₂ = .ok b₂) :
    (toolDecision gw a₁).bind ToolDecision.matchedRule = (toolDecision gw a₂).bind ToolDecision.matchedRule ↔
      toolDecision gw a₁ = toolDecision gw a₂ := by
  constructor
  · intro hrule
    cases hd₁ : toolDecision gw a₁ with
    | none => rw [(toolDecision_none h.parsed).mp hd₁]
    | some d₁ =>
      cases hd₂ : toolDecision gw a₂ with
      | none =>
        rw [(toolDecision_none h.parsed).mpr hd₂] at hd₁
        cases hd₁
      | some d₂ =>
        rw [hd₁, hd₂] at hrule
        have hallowed₁ := policies_toolDecision h₁ hd₁
        have hallowed₂ := policies_toolDecision h₂ hd₂
        have hreason : d₁.allowed = false → d₁.reason = d₂.reason := by
          intro hdenied
          rw [hallowed₁] at hdenied
          cases hdenied
        rw [toolDecision_ext h.parsed hd₁ hd₂ (hallowed₁.trans hallowed₂.symm) hrule hreason]
  · intro hd
    rw [hd]

theorem indistinct_passed {b₁ b₂ : Authorized} (h : AuthorizedAlike a₁ a₂) (h₁ : policies py gw a₁ = .ok b₁)
    (h₂ : policies py gw a₂ = .ok b₂) : Indistinct py gw a₁ a₂ answer₁ answer₂ ↔
      (toolDecision gw a₁).bind ToolDecision.matchedRule = (toolDecision gw a₂).bind ToolDecision.matchedRule ∧
      (∀ cls₁ cls₂, answer₁ = .error (.requestError cls₁) → answer₂ = .error (.requestError cls₂) → cls₁ = cls₂) ∧
      ∀ up₁ up₂ counts₁ counts₂, answer₁ = .ok up₁ → answer₂ = .ok up₂ → Relays gw a₁ py up₁ counts₁ →
        Relays gw a₂ py up₂ counts₂ → up₁.status = up₂.status ∧ counts₁ = counts₂ := by
  rw [rule_iff h h₁ h₂]
  constructor
  · intro hindistinct
    refine ⟨?_, fun cls₁ cls₂ => hindistinct.unreachable b₁ b₂ cls₁ cls₂ h₁ h₂,
      fun up₁ up₂ counts₁ counts₂ => hindistinct.relayed b₁ b₂ up₁ up₂ counts₁ counts₂ h₁ h₂⟩
    by_cases hreads : ReadsScopes gw
    · exact hindistinct.tools (policies_passes h₁) (policies_passes h₂) hreads
    · exact toolDecision_alike h hreads
  · intro ⟨htools, hunreachable, hrelayed⟩
    refine ⟨?_, fun _ _ _ => htools, fun _ _ cls₁ cls₂ _ _ => hunreachable cls₁ cls₂,
      fun _ _ up₁ up₂ counts₁ counts₂ _ _ => hrelayed up₁ up₂ counts₁ counts₂⟩
    rw [missing_empty (policies_passes h₁), missing_empty (policies_passes h₂)]

theorem indistinct_refused (h₁ : ∀ b, policies py gw a₁ ≠ .ok b) : Indistinct py gw a₁ a₂ answer₁ answer₂ ↔
    missing gw a₁ = missing gw a₂ ∧
      (Passes gw a₁ → Passes gw a₂ → ReadsScopes gw → toolDecision gw a₁ = toolDecision gw a₂) := by
  constructor
  · intro h
    exact ⟨h.scopes, h.tools⟩
  · intro ⟨hscopes, htools⟩
    exact ⟨hscopes, htools, fun b₁ _ _ _ hb => absurd hb (h₁ b₁), fun b₁ _ _ _ _ _ hb => absurd hb (h₁ b₁)⟩

theorem unrelayed {up : UpstreamResponse} (h : ∀ counts, ¬ Relays gw a₁ py up counts) :
    (∀ cls₁ cls₂, (.ok up : Except Exc UpstreamResponse) = .error (.requestError cls₁) →
      answer₂ = .error (.requestError cls₂) → cls₁ = cls₂) ∧
      ∀ up₁ up₂ counts₁ counts₂, .ok up = (.ok up₁ : Except Exc UpstreamResponse) → answer₂ = .ok up₂ →
        Relays gw a₁ py up₁ counts₁ → Relays gw a₂ py up₂ counts₂ → up₁.status = up₂.status ∧
        counts₁ = counts₂ := by
  refine ⟨fun _ _ he => (by cases he), ?_⟩
  intro up₁ _ counts₁ _ hup _ hrelays
  cases hup
  exact absurd hrelays (h counts₁)

/-- Two ends of one kind add the same exactly when nothing shown tells the requests apart. -/
theorem exits_iff (h : AuthorizedAlike a₁ a₂) (h₁ : Exits gw a₁ py answer₁ k e₁) (h₂ : Exits gw a₂ py answer₂ k e₂)
    (hcode : e₁.code = e₂.code) :
    (e₁.toolRule = e₂.toolRule ∧ e₁.reason = e₂.reason ∧ e₁.counts = e₂.counts ∧
    e₁.upstreamStatus = e₂.upstreamStatus) ↔
      Indistinct py gw a₁ a₂ answer₁ answer₂ := by
  cases h₁ with
  | insufficientScope hnot₁ =>
    cases h₂ with
    | insufficientScope hnot₂ =>
      rw [indistinct_refused fun b hb => hnot₁ (policies_passes hb),
        ← @scope_reason_iff py gw a₁ a₂ h.parsed hnot₁ hnot₂]
      constructor
      · intro ⟨_, hreason, _⟩
        exact ⟨Option.some.inj hreason, fun hpasses => absurd hpasses hnot₁⟩
      · intro ⟨hreason, _⟩
        exact ⟨rfl, congrArg some hreason, rfl, rfl⟩
  | invalidToolCall hpasses₁ hd₁ hnot₁ =>
    cases h₂ with
    | invalidToolCall hpasses₂ hd₂ =>
      rw [indistinct_refused hnot₁]
      refine iff_of_true ⟨rfl, rfl, rfl, rfl⟩ ⟨?_, fun _ _ _ => hd₁.trans hd₂.symm⟩
      rw [missing_empty hpasses₁, missing_empty hpasses₂]
  | @toolNotAllowed d₁ hpasses₁ hd₁ hdenied₁ hnot₁ =>
    cases h₂ with
    | @toolNotAllowed d₂ hpasses₂ hd₂ hdenied₂ =>
      rw [indistinct_refused hnot₁, missing_empty hpasses₁, missing_empty hpasses₂]
      constructor
      · intro ⟨hrule, hreason, _⟩
        have hallowed := hdenied₁.trans hdenied₂.symm
        have hd := toolDecision_ext h.parsed hd₁ hd₂ hallowed hrule fun _ => Option.some.inj hreason
        exact ⟨rfl, fun _ _ _ => by rw [hd₁, hd₂, hd]⟩
      · intro ⟨_, htools⟩
        have hd : toolDecision gw a₁ = toolDecision gw a₂ := by
          by_cases hreads : ReadsScopes gw
          · exact htools hpasses₁ hpasses₂ hreads
          · exact toolDecision_alike h hreads
        rw [hd₁, hd₂] at hd
        cases hd
        exact ⟨rfl, rfl, rfl, rfl⟩
  | badGateway hb₁ hcls₁ =>
    cases h₂ with
    | badGateway hb₂ hcls₂ =>
      rw [indistinct_passed h hb₁ hb₂, hcls₁, hcls₂]
      refine and_congr_right fun _ => ?_
      constructor
      · intro ⟨hreason, _⟩
        refine ⟨fun _ _ h₁ h₂ => ?_, fun _ _ _ _ h₁ => by cases h₁⟩
        cases h₁
        cases h₂
        exact Option.some.inj hreason
      · intro ⟨hunreachable, _⟩
        exact ⟨congrArg some (hunreachable _ _ rfl rfl), rfl, rfl⟩
  | pageRefused hb₁ hup₁ hnot₁ hrefusal₁ =>
    cases h₂ with
    | pageRefused hb₂ _ _ hrefusal₂ =>
      rw [indistinct_passed h hb₁ hb₂, hup₁]
      refine and_congr_right fun _ => iff_of_true ⟨?_, rfl, rfl⟩ (unrelayed hnot₁)
      exact congrArg some (refusal_detail hrefusal₁ hrefusal₂ (Option.some.inj hcode))
  | tooLarge hb₁ hup₁ hnot₁ =>
    cases h₂ with
    | tooLarge hb₂ =>
      rw [indistinct_passed h hb₁ hb₂, hup₁]
      exact and_congr_right fun _ => iff_of_true ⟨rfl, rfl, rfl⟩ (unrelayed hnot₁)
  | relayed hb₁ hup₁ hrelays₁ =>
    cases h₂ with
    | relayed hb₂ hup₂ hrelays₂ =>
      rw [indistinct_passed h hb₁ hb₂, hup₁, hup₂]
      refine and_congr_right fun _ => ?_
      constructor
      · intro ⟨_, hcounts, hstatus⟩
        refine ⟨fun _ _ h₁ => (by cases h₁), ?_⟩
        intro _ _ _ _ h₁ h₂ hrelays₁' hrelays₂'
        cases h₁
        cases h₂
        rw [relays_unique hrelays₁' hrelays₁, relays_unique hrelays₂' hrelays₂]
        exact ⟨Option.some.inj hstatus, hcounts⟩
      · intro ⟨_, hrelayed⟩
        obtain ⟨hstatus, hcounts⟩ := hrelayed _ _ _ _ rfl rfl hrelays₁ hrelays₂
        exact ⟨rfl, hcounts, congrArg some hstatus⟩

end

theorem stopped_emitted {py : Interp} {gw : Gateway} {request : Request} {requestId : Text}
    {upstream : UpstreamRequest → Except Exc UpstreamResponse} {stop : Stop}
    (h : frontGates py gw request requestId = .error stop) : (proxyMcp py gw request upstream requestId).emitted =
    stop.emitted := by
  have hauthorize : authorize py gw request requestId = .error stop := by
    rw [authorize_eq, h]
    rfl
  rw [proxyMcp, hauthorize]

/-- Two callers alike but for their scopes, with one error code, leave the same line exactly when nothing shown
tells them apart. -/
theorem lines_alike_iff (py : Interp) (gw : Gateway) (request₁ request₂ : Request)
    (upstream₁ upstream₂ : UpstreamRequest → Except Exc UpstreamResponse) (requestId₁ requestId₂ : Text)
    (record₁ record₂ : AuditRecord) (htwins : Twins py gw request₁ request₂)
    (h₁ : (proxyMcp py gw request₁ upstream₁ requestId₁).emitted = [record₁])
    (h₂ : (proxyMcp py gw request₂ upstream₂ requestId₂).emitted = [record₂])
    (hcode : record₁.errorCode = record₂.errorCode) :
    record₁.line = record₂.line ↔
      ∀ a₁ a₂, frontGates py gw request₁ requestId₁ = .ok a₁ → frontGates py gw request₂ requestId₂ = .ok a₂ →
        Indistinct py gw a₁ a₂ (upstream₁ (upstreamRequest py gw request₁ a₁))
        (upstream₂ (upstreamRequest py gw request₂ a₂)) := by
  rw [line_iff]
  have hgates := @frontGates_alike py gw request₁ request₂ requestId₁ requestId₂ htwins
  cases hfront₁ : frontGates py gw request₁ requestId₁ with
  | error stop₁ =>
    cases hfront₂ : frontGates py gw request₂ requestId₂ with
    | error stop₂ =>
      rw [hfront₁, hfront₂] at hgates
      cases hgates with
      | stopped hshown =>
        rw [← stopped_emitted hfront₁, ← stopped_emitted hfront₂, h₁, h₂] at hshown
        exact iff_of_true (List.singleton_injective hshown) fun _ _ h => by cases h
    | ok a₂ =>
      rw [hfront₁, hfront₂] at hgates
      cases hgates
  | ok a₁ =>
    cases hfront₂ : frontGates py gw request₂ requestId₂ with
    | error stop₂ =>
      rw [hfront₁, hfront₂] at hgates
      cases hgates
    | ok a₂ =>
      rw [hfront₁, hfront₂] at hgates
      cases hgates with
      | passed halike =>
        obtain ⟨k₁, e₁, hexit₁, hrecord₁⟩ := run_exit hfront₁ h₁
        obtain ⟨k₂, e₂, hexit₂, hrecord₂⟩ := run_exit hfront₂ h₂
        have hcodes : e₁.code = e₂.code := by
          rw [hrecord₁, hrecord₂] at hcode
          exact hcode
        have hkind := exit_kind hexit₁ hexit₂ hcodes
        rw [← hkind] at hexit₂ hrecord₂
        rw [hrecord₁, hrecord₂, record_shown_iff halike hcodes, exits_iff halike hexit₁ hexit₂ hcodes]
        constructor
        · intro hindistinct b₁ b₂ hb₁ hb₂
          cases hb₁
          cases hb₂
          exact hindistinct
        · intro hindistinct
          exact hindistinct a₁ a₂ rfl rfl

/-! ## Two halves of one rule -/

def readPolicy : ScopePolicy := ⟨[(txt "resources/read", {txt "mcp:read", txt "mcp:export"})], ∅, true, by decide⟩

def aliceWith (scope : Text) : DecodedClaims where
  members := [(txt "sub", .str (txt "alice")), (txt "scope", .str scope)]
  distinct := by
    show [txt "sub", txt "scope"].Nodup
    decide
  sub_str := by
    intro v h
    cases h
    exact ⟨_, rfl⟩

def halfTokens (token : Text) : Except VerifyError DecodedClaims :=
  if token = txt "reader" then .ok (aliceWith (txt "mcp:read"))
  else if token = txt "exporter" then .ok (aliceWith (txt "mcp:export"))
  else .error (.tokenError (txt "malformed token header: Not enough segments"))

def readGateway : Gateway where
  settings := Settings.default ⟨txt "http", some (txt "upstream"), txt "http://upstream/mcp"⟩ (txt "issuer")
    (txt "audience")
  verifier := some halfTokens
  policy := readPolicy
  toolPolicy := none

def readRequest (authorization : Bytes) : Request where
  raw := [(ascii "authorization", authorization)]
  client := none
  chunks := [ascii "\x7b\"method\":\"resources/read\"\x7d"]
  disconnected := false

def readerRequest : Request := readRequest (ascii "Bearer reader")

def exporterRequest : Request := readRequest (ascii "Bearer exporter")

def readRun (request : Request) : Run :=
  proxyMcp .ascii readGateway request (fun _ => .error (.requestError (txt "ConnectError"))) hexId

def lackingRecord (held : Text) (reason : String) : AuditRecord where
  requestId := hexId
  subject := some (txt "alice")
  issuer := some (txt "issuer")
  audience := some (txt "audience")
  method := some (txt "resources/read")
  decision := .denied
  errorCode := some (txt "insufficient_scope")
  reason := some (txt reason)
  requiredScopes := [txt "mcp:export", txt "mcp:read"]
  heldScopeCount := 1
  scopeValues := [held]

def readerRecord : AuditRecord := lackingRecord (txt "mcp:read") "missing scope(s): ['mcp:export']"

def exporterRecord : AuditRecord := lackingRecord (txt "mcp:export") "missing scope(s): ['mcp:read']"

theorem reader_emitted : (readRun readerRequest).emitted = [readerRecord] := by
  decide +kernel

theorem exporter_emitted : (readRun exporterRequest).emitted = [exporterRecord] := by
  decide +kernel

theorem aliceWith_alike (scope scope' : Text) :
    ClaimsAlike (aliceWith scope).toClaims (aliceWith scope').toClaims := by
  intro key hscope _
  have hother : (key == txt "scope") = false := beq_eq_false_iff_ne.mpr hscope
  simp only [Claims.get, aliceWith, List.lookup_cons, hother]

theorem halves_twins : Twins .ascii readGateway readerRequest exporterRequest where
  client := rfl
  others := rfl
  chunks := rfl
  disconnected := rfl
  bearing := by decide +kernel
  tokens := by
    intro _ decode h
    cases h
    have hbearer₁ : bearerToken .ascii readerRequest = txt "reader" := by decide +kernel
    have hbearer₂ : bearerToken .ascii exporterRequest = txt "exporter" := by decide +kernel
    have hreader : halfTokens (txt "reader") = .ok (aliceWith (txt "mcp:read")) := by
      rw [halfTokens, if_pos rfl]
    have hexporter : halfTokens (txt "exporter") = .ok (aliceWith (txt "mcp:export")) := by
      rw [halfTokens, if_neg (by decide), if_pos rfl]
    rw [hbearer₁, hbearer₂, hreader, hexporter]
    exact @DecodesAlike.scopes _ _ {txt "mcp:read"} {txt "mcp:export"} (aliceWith_alike _ _) rfl rfl rfl

theorem halves_lines : readerRecord.line ≠ exporterRecord.line := by
  rw [Ne, line_iff]
  decide +kernel

theorem lines_alike_iff_halves : ¬ ∀ a₁ a₂, frontGates .ascii readGateway readerRequest hexId = .ok a₁ →
    frontGates .ascii readGateway exporterRequest hexId = .ok a₂ →
      Indistinct .ascii readGateway a₁ a₂ (.error (.requestError (txt "ConnectError")))
      (.error (.requestError (txt "ConnectError"))) :=
  mt (lines_alike_iff .ascii readGateway readerRequest exporterRequest _ _ hexId hexId readerRecord
    exporterRecord halves_twins
    reader_emitted exporter_emitted rfl).mpr halves_lines

/-- The HTTP status of a run; an exception ends in a 500. -/
def Run.status (run : Run) : Nat :=
  match run.outcome with
  | .ok response => response.status
  | .error _ => 500

theorem halves_told_apart : ¬ ∀ py gw request₁ request₂ upstream₁ upstream₂ requestId₁ requestId₂ record₁ record₂,
    Twins py gw request₁ request₂ → (proxyMcp py gw request₁ upstream₁ requestId₁).emitted = [record₁] →
      (proxyMcp py gw request₂ upstream₂ requestId₂).emitted = [record₂] →
      (proxyMcp py gw request₁ upstream₁ requestId₁).status =
      (proxyMcp py gw request₂ upstream₂ requestId₂).status →
        record₁.errorCode = record₂.errorCode → record₁.line = record₂.line := by
  intro h
  have hstatus : (readRun readerRequest).status = (readRun exporterRequest).status := by decide +kernel
  exact halves_lines (h .ascii readGateway readerRequest exporterRequest _ _ hexId hexId readerRecord exporterRecord
    halves_twins reader_emitted exporter_emitted hstatus rfl)

end McpGateway
