import McpGateway.AuditTrail
import McpGateway.Disclosure
import McpGateway.ScopeRules

/-!
# How a request ends

A request that the gates before the policies let through is refused by a
policy, fails upstream, or is relayed. Its record is that of these gates and
what the end adds to it.
-/

namespace McpGateway

open Unicode Json

/-! ## Before the policies -/

/-- What the gates before the policies leave. -/
def frontGates (py : Interp) (gw : Gateway) (request : Request) (requestId : Text) : Except Stop Authorized := do
  let record := openRecord gw request requestId
  originGate py gw request record
  lengthGate py gw request record
  let raw ← readBody py gw request record [] request.chunks
  let (verified, record) ← authenticate py gw request record
  let parsed ← parseGate py raw record
  return ⟨raw, verified, parsed, record⟩

def policies (py : Interp) (gw : Gateway) (a : Authorized) : Except Stop Authorized := do
  let record ← scopeGate py gw a.parsed a.verified a.record
  let record ← toolGate py gw a.parsed a.verified record
  return { a with record := record }

theorem authorize_eq (py : Interp) (gw : Gateway) (request : Request) (requestId : Text) :
    authorize py gw request requestId = frontGates py gw request requestId >>= policies py gw := by
  simp only [authorize, frontGates, bind_assoc, pure_bind]
  rfl

structure Fresh (record : AuditRecord) : Prop where
  toolRule : record.toolRule = none
  toolsReturned : record.toolsReturned = none
  toolsFiltered : record.toolsFiltered = none
  errorCode : record.errorCode = none
  reason : record.reason = none
  upstreamStatus : record.upstreamStatus = none

section
variable {py : Interp} {gw : Gateway} {request : Request} {requestId : Text}

theorem authenticate_fresh {record : AuditRecord} (hfresh : Fresh record) {v : Option VerifiedToken}
    {r : AuditRecord} (h : authenticate py gw request record = .ok (v, r)) : Fresh r := by
  rw [authenticate] at h
  split at h
  · split at h
    · cases h
    dsimp only at h
    split at h
    · cases h
    split at h
    · cases h
    · cases h
    · cases h
      exact ⟨hfresh.toolRule, hfresh.toolsReturned, hfresh.toolsFiltered, hfresh.errorCode, hfresh.reason,
        hfresh.upstreamStatus⟩
  · cases h
    exact hfresh

theorem frontGates_fresh {a : Authorized} (h : frontGates py gw request requestId = .ok a) : Fresh a.record := by
  rw [frontGates] at h
  obtain ⟨_, _, h⟩ := bind_ok.mp h
  obtain ⟨_, _, h⟩ := bind_ok.mp h
  obtain ⟨_, _, h⟩ := bind_ok.mp h
  obtain ⟨⟨v, r⟩, hauth, h⟩ := bind_ok.mp h
  obtain ⟨_, _, h⟩ := bind_ok.mp h
  cases h
  exact authenticate_fresh ⟨rfl, rfl, rfl, rfl, rfl, rfl⟩ hauth

end

/-! ## How an admitted request ends -/

inductive Kind
  | insufficientScope
  | invalidToolCall
  | toolNotAllowed
  | badGateway
  | pageRefused
  | tooLarge
  | relayed
  deriving DecidableEq

def Kind.decision : Kind → AuditDecision
  | .insufficientScope => .denied
  | .invalidToolCall => .rejected
  | .toolNotAllowed => .denied
  | .badGateway => .error
  | .pageRefused => .rejected
  | .tooLarge => .rejected
  | .relayed => .allowed

def Kind.codes : Kind → List (Option Text)
  | .insufficientScope => [some (txt "insufficient_scope")]
  | .invalidToolCall => [some (txt "invalid_tool_call")]
  | .toolNotAllowed => [some (txt "tool_not_allowed")]
  | .badGateway => [some (txt "bad_gateway")]
  | .pageRefused => refusals.map fun refusal => some refusal.1
  | .tooLarge => [some (txt "response_too_large")]
  | .relayed => [none]

structure Exit where
  code : Option Text
  toolRule : Option Text
  reason : Option Text
  counts : Option (Nat × Nat)
  upstreamStatus : Option Nat

section
variable (gw : Gateway) (a : Authorized)

def asked : Option (Finset Text) := gw.policy.asked (a.parsed.method.getD [])

def missing : Finset Text := (asked gw a).getD ∅ \ heldScopes a.verified

def Passes : Prop := ∃ required, asked gw a = some required ∧ required ⊆ heldScopes a.verified

def toolDecision : Option ToolDecision :=
  match gw.toolPolicy with
  | none => none
  | some policy =>
    if a.parsed.method = some (txt "tools/call") then
      a.parsed.toolName.map fun tool => policy.check tool (a.verified.map VerifiedToken.claims)
    else none

def scopedRecord : AuditRecord :=
  { a.record with
    method := a.parsed.method, toolName := a.parsed.toolName,
    requiredScopes := sorted ((asked gw a).getD ∅) }

def AuditRecord.ruled (record : AuditRecord) (rule : Option Text) : AuditRecord := { record with toolRule := rule }

def Exit.record (k : Kind) (e : Exit) : AuditRecord :=
  { scopedRecord gw a with
    toolRule := e.toolRule, toolsReturned := e.counts.map Prod.fst, toolsFiltered := e.counts.map Prod.snd
    decision := k.decision, errorCode := e.code, reason := e.reason, upstreamStatus := e.upstreamStatus }

variable (py : Interp)

def scopeDecision : ScopeDecision := gw.policy.check py (a.parsed.method.getD []) (heldScopes a.verified)

/-- The upstream's content is relayed: a streamed body, or a filtered page with the entries it shows and hides. -/
inductive Relays (up : UpstreamResponse) : Option (Nat × Nat) → Prop
  | streamed : ¬ Filters gw a up → ¬ DeclaresMore py gw up → Relays up none
  | filtered {policy : ToolPolicy} {body content : Bytes} {returned hidden : Nat} : gw.toolPolicy = some policy →
      Filters gw a up → mediaType py up = txt "application/json" → readPage gw up [] up.decoded = .body body →
      filterToolsList py policy (a.verified.map VerifiedToken.claims) body =
        .ok ⟨some content, none, returned, hidden⟩ →
      Relays up (some (returned, hidden))

inductive Exits (answer : Except Exc UpstreamResponse) : Kind → Exit → Prop
  | insufficientScope : ¬ Passes gw a →
      Exits answer .insufficientScope ⟨some (txt "insufficient_scope"), none, some (scopeDecision gw a py).reason,
        none, none⟩
  | invalidToolCall : Passes gw a → toolDecision gw a = none → (∀ b, policies py gw a ≠ .ok b) →
      Exits answer .invalidToolCall ⟨some (txt "invalid_tool_call"), none, some missingName, none, none⟩
  | toolNotAllowed {d : ToolDecision} : Passes gw a → toolDecision gw a = some d → d.allowed = false →
      (∀ b, policies py gw a ≠ .ok b) →
      Exits answer .toolNotAllowed ⟨some (txt "tool_not_allowed"), d.matchedRule, some d.reason, none, none⟩
  | badGateway {b : Authorized} {cls : Text} : policies py gw a = .ok b → answer = .error (.requestError cls) →
      Exits answer .badGateway
        ⟨some (txt "bad_gateway"), (toolDecision gw a).bind ToolDecision.matchedRule, some cls, none, none⟩
  | pageRefused {b : Authorized} {up : UpstreamResponse} {refusal : Text × Text} : policies py gw a = .ok b →
      answer = .ok up →
      (∀ counts, ¬ Relays gw a py up counts) → refusal ∈ refusals →
      Exits answer .pageRefused
        ⟨some refusal.1, (toolDecision gw a).bind ToolDecision.matchedRule, some refusal.2, none, some 200⟩
  | tooLarge {b : Authorized} {up : UpstreamResponse} : policies py gw a = .ok b → answer = .ok up →
      (∀ counts, ¬ Relays gw a py up counts) →
      Exits answer .tooLarge
        ⟨some (txt "response_too_large"), (toolDecision gw a).bind ToolDecision.matchedRule, none, none, none⟩
  | relayed {b : Authorized} {up : UpstreamResponse} {counts : Option (Nat × Nat)} : policies py gw a = .ok b →
      answer = .ok up → Relays gw a py up counts →
      Exits answer .relayed ⟨none, (toolDecision gw a).bind ToolDecision.matchedRule, none, counts, some up.status⟩

end

section
variable {py : Interp} {gw : Gateway} {a : Authorized}

theorem scope_allowed : (scopeDecision gw a py).allowed = true ↔ Passes gw a := check_allowed

theorem scopeGate_eq : scopeGate py gw a.parsed a.verified a.record =
    if (scopeDecision gw a py).allowed then .ok (scopedRecord gw a)
    else .error
      ⟨[((scopedRecord gw a).decide .denied (txt "insufficient_scope")).because (scopeDecision gw a py).reason],
        forbidden py (scopeDecision gw a py).reason (sorted ((asked gw a).getD ∅))⟩ := by
  rw [scopeGate, check_required]
  rfl

theorem ruled_none {record : AuditRecord} (h : record.toolRule = none) : record.ruled none = record := by
  rw [AuditRecord.ruled, ← h]

theorem toolGate_ok_ruled {record r : AuditRecord} (hrule : record.toolRule = none)
    (h : toolGate py gw a.parsed a.verified record = .ok r) :
    r = record.ruled ((toolDecision gw a).bind ToolDecision.matchedRule) := by
  rw [toolGate] at h
  cases hpolicy : gw.toolPolicy with
  | none =>
    rw [hpolicy] at h
    cases h
    simp only [toolDecision, hpolicy, Option.bind_none, ruled_none hrule]
  | some policy =>
    rw [hpolicy] at h
    dsimp only at h
    split at h
    · rename_i hmethod
      split at h
      · cases h
      rename_i tool hname
      split at h
      · cases h
        simp only [toolDecision, hpolicy, hmethod, if_true, hname, Option.map_some, Option.bind_some]
        rfl
      · cases h
    · rename_i hmethod
      cases h
      simp only [toolDecision, hpolicy, hmethod, if_false, Option.bind_none, ruled_none hrule]

theorem policies_ok {b : Authorized} (hfresh : Fresh a.record) (h : policies py gw a = .ok b) : Passes gw a ∧
    b = { a with record := (scopedRecord gw a).ruled ((toolDecision gw a).bind ToolDecision.matchedRule) } := by
  rw [policies, scopeGate_eq] at h
  obtain ⟨r₁, hscope, h⟩ := bind_ok.mp h
  obtain ⟨r₂, htool, h⟩ := bind_ok.mp h
  cases h
  split at hscope
  · rename_i hallowed
    cases hscope
    have hrule : (scopedRecord gw a).toolRule = none := hfresh.toolRule
    rw [toolGate_ok_ruled hrule htool]
    exact ⟨scope_allowed.mp hallowed, rfl⟩
  · cases hscope

theorem scoped_fresh (h : Fresh a.record) : Fresh (scopedRecord gw a) :=
  ⟨h.toolRule, h.toolsReturned, h.toolsFiltered, h.errorCode, h.reason, h.upstreamStatus⟩

theorem fresh_refused (hfresh : Fresh a.record) (k : Kind) (code reason : Text) (rule : Option Text) :
    (((scopedRecord gw a).ruled rule).decide k.decision code).because reason =
      Exit.record gw a k ⟨some code, rule, some reason, none, none⟩ := by
  have hscoped : Fresh (scopedRecord gw a) := scoped_fresh hfresh
  simp only [AuditRecord.because, AuditRecord.decide, AuditRecord.ruled, Exit.record, hscoped.toolsReturned,
    hscoped.toolsFiltered, hscoped.upstreamStatus, Option.map_none]

variable {stop : Stop} {answer : Except Exc UpstreamResponse}

theorem policies_exit (hfresh : Fresh a.record) (h : policies py gw a = .error stop) :
    ∃ k e, Exits gw a py answer k e ∧ stop.emitted = [Exit.record gw a k e] := by
  have hrule : (scopedRecord gw a).toolRule = none := (scoped_fresh hfresh).toolRule
  have hnot : ∀ b, policies py gw a ≠ .ok b := by
    intro b hb
    cases h.symm.trans hb
  rw [policies, scopeGate_eq] at h
  obtain h | ⟨r₁, hscope, h⟩ := bind_error.mp h
  · split at h
    · cases h
    · rename_i hdenied
      cases h
      refine ⟨_, _, .insufficientScope (mt scope_allowed.mpr hdenied), ?_⟩
      rw [← fresh_refused hfresh, ruled_none hrule]
      rfl
  obtain h | ⟨r₂, _, h⟩ := bind_error.mp h
  · split at hscope
    · rename_i hallowed
      cases hscope
      have hpasses := scope_allowed.mp hallowed
      rw [toolGate] at h
      cases hpolicy : gw.toolPolicy with
      | none =>
        rw [hpolicy] at h
        cases h
      | some policy =>
        rw [hpolicy] at h
        dsimp only at h
        split at h
        · rename_i hmethod
          split at h
          · rename_i hname
            cases h
            refine ⟨_, _, .invalidToolCall hpasses ?_ hnot, ?_⟩
            · simp only [toolDecision, hpolicy, hmethod, if_true, hname, Option.map_none]
            · rw [← fresh_refused hfresh, ruled_none hrule]
              rfl
          · rename_i tool hname
            split at h
            · cases h
            · rename_i hrefused
              cases h
              have hdecision : toolDecision gw a = some
                  (policy.check tool (a.verified.map VerifiedToken.claims)) := by
                simp only [toolDecision, hpolicy, hmethod, if_true, hname, Option.map_some]
              refine ⟨_, _, .toolNotAllowed hpasses hdecision (by simpa using hrefused) hnot, ?_⟩
              rw [← fresh_refused hfresh]
              rfl
        · cases h
    · cases hscope
  · cases h

/-! ## Relayed answers -/

variable {b : Authorized} {up : UpstreamResponse}

theorem filterToolsList_outcome {policy : ToolPolicy} {claims : Option Claims} {raw : Bytes}
    {outcome : FilterOutcome} (h : filterToolsList py policy claims raw = .ok outcome) :
    outcome = .failed filterFailed ∨ outcome = .failed upstreamError ∨
      ∃ content returned hidden, outcome = ⟨some content, none, returned, hidden⟩ := by
  rw [filterToolsList] at h
  split at h
  · cases h
  · cases h
    exact Or.inl rfl
  · rename_i doc _
    obtain ⟨page, rfl⟩ | hfailed | hupstream := filterDoc_cases py policy claims doc
    · rw [filterDoc_counts] at h
      obtain ⟨e, he⟩ | hunprinted | ⟨content, hcontent⟩ := printPage_cases py (page.visible policy claims)
      · rw [he] at h
        cases h
      · rw [hunprinted] at h
        cases h
        exact Or.inl rfl
      · rw [hcontent] at h
        cases h
        exact Or.inr (Or.inr ⟨_, _, _, rfl⟩)
    · rw [hfailed] at h
      cases h
      exact Or.inl rfl
    · rw [hupstream] at h
      cases h
      exact Or.inr (Or.inl rfl)

variable {record : AuditRecord}

theorem page_exit (hfresh : Fresh a.record) (hpolicies : policies py gw a = .ok b) (hanswer : answer = .ok up)
    (hfilters : Filters gw a up) (hnot : ∀ counts, ¬ Relays gw a py up (some counts)) {code detail : Text}
    (hrefusal : (code, detail) ∈ refusals)
    (h : (toolsListError py { b.record with upstreamStatus := some up.status } code detail).emitted = [record]) :
    ∃ k e, Exits gw a py answer k e ∧ record = Exit.record gw a k e := by
  have hscoped : Fresh (scopedRecord gw a) := scoped_fresh hfresh
  cases h
  refine ⟨_, _, .pageRefused hpolicies hanswer ?_ hrefusal, ?_⟩
  · intro counts hrelays
    cases counts with
    | none =>
      cases hrelays with
      | streamed hstreamed => exact hstreamed hfilters
    | some counts => exact hnot counts hrelays
  · rw [(policies_ok hfresh hpolicies).2, hfilters.2.2]
    simp only [AuditRecord.because, AuditRecord.decide, AuditRecord.ruled, Exit.record, hscoped.toolsReturned,
      hscoped.toolsFiltered, Option.map_none]
    rfl

theorem relayFiltered_exit {policy : ToolPolicy} (hpolicy : gw.toolPolicy = some policy) (hfresh : Fresh a.record)
    (hpolicies : policies py gw a = .ok b) (hanswer : answer = .ok up) (hfilters : Filters gw a up)
    (h : (relayFiltered py gw policy b up).emitted = [record]) :
    ∃ k e, Exits gw a py answer k e ∧ record = Exit.record gw a k e := by
  have hb := (policies_ok hfresh hpolicies).2
  have hverified : b.verified = a.verified := by
    rw [hb]
  rw [relayFiltered, hverified] at h
  by_cases hmedia : mediaType py up = txt "application/json"
  · rw [if_neg (not_not.mpr hmedia)] at h
    cases hread : readPage gw up [] up.decoded with
    | raised e =>
      rw [hread] at h
      cases h
    | tooLarge =>
      rw [hread] at h
      refine page_exit hfresh hpolicies hanswer hfilters ?_ (List.mem_of_getElem? (i := 1) rfl) h
      intro counts hrelays
      cases hrelays with
      | filtered _ _ _ hread' => cases hread.symm.trans hread'
    | failed =>
      rw [hread] at h
      refine page_exit hfresh hpolicies hanswer hfilters ?_ (List.mem_of_getElem? (i := 2) rfl) h
      intro counts hrelays
      cases hrelays with
      | filtered _ _ _ hread' => cases hread.symm.trans hread'
    | body body =>
      rw [hread] at h
      dsimp only at h
      cases houtcome : filterToolsList py policy (a.verified.map VerifiedToken.claims) body with
      | error e =>
        rw [houtcome] at h
        cases h
      | ok outcome =>
        rw [houtcome] at h
        have hother : (∀ content returned hidden, outcome ≠ ⟨some content, none, returned, hidden⟩) →
            ∀ counts, ¬ Relays gw a py up (some counts) := by
          intro hne counts hrelays
          cases hrelays with
          | filtered hpolicy' _ _ hread' houtcome' =>
            cases hpolicy.symm.trans hpolicy'
            cases hread.symm.trans hread'
            cases houtcome.symm.trans houtcome'
            exact hne _ _ _ rfl
        obtain rfl | rfl | ⟨content, returned, hidden, rfl⟩ := filterToolsList_outcome houtcome
        · exact page_exit hfresh hpolicies hanswer hfilters (hother fun _ _ _ h => by cases h)
            (List.mem_of_getElem? (i := 3) rfl) h
        · exact page_exit hfresh hpolicies hanswer hfilters (hother fun _ _ _ h => by cases h)
            (List.mem_of_getElem? (i := 4) rfl) h
        · have hscoped : Fresh (scopedRecord gw a) := scoped_fresh hfresh
          cases h
          refine ⟨_, _, .relayed hpolicies hanswer (.filtered hpolicy hfilters hmedia hread houtcome), ?_⟩
          rw [hb]
          simp only [AuditRecord.ruled, Exit.record, hscoped.errorCode, hscoped.reason, Option.map_some]
          rfl
  · rw [if_pos hmedia] at h
    refine page_exit hfresh hpolicies hanswer hfilters ?_ List.mem_cons_self h
    intro counts hrelays
    cases hrelays with
    | filtered _ _ hmedia' => exact hmedia hmedia'

theorem relayStreamed_exit (hfresh : Fresh a.record) (hpolicies : policies py gw a = .ok b)
    (hanswer : answer = .ok up)
    (hfilters : ¬ Filters gw a up) (h : (relayStreamed py gw b up).emitted = [record]) :
    ∃ k e, Exits gw a py answer k e ∧ record = Exit.record gw a k e := by
  have hb := (policies_ok hfresh hpolicies).2
  have hscoped : Fresh (scopedRecord gw a) := scoped_fresh hfresh
  rw [relayStreamed] at h
  cases hcap : overCap py gw up with
  | error e =>
    rw [hcap] at h
    cases h
  | ok more =>
    rw [hcap] at h
    cases more with
    | true =>
      cases h
      refine ⟨_, _, .tooLarge hpolicies hanswer ?_, ?_⟩
      · intro counts hrelays
        cases hrelays with
        | streamed _ hmore => exact hmore (overCap_true.mp hcap)
        | filtered _ hfilters' => exact hfilters hfilters'
      · rw [hb]
        simp only [AuditRecord.decide, AuditRecord.ruled, Exit.record, hscoped.reason, hscoped.toolsReturned,
          hscoped.toolsFiltered, hscoped.upstreamStatus, Option.map_none]
        rfl
    | false =>
      have hmore : ¬ DeclaresMore py gw up := by
        intro hmore
        rw [overCap_true.mpr hmore] at hcap
        cases hcap
      cases h
      refine ⟨_, _, .relayed hpolicies hanswer (.streamed hfilters hmore), ?_⟩
      rw [hb]
      simp only [AuditRecord.ruled, Exit.record, hscoped.errorCode, hscoped.reason, hscoped.toolsReturned,
        hscoped.toolsFiltered, Option.map_none]
      rfl

/-- What is logged about a request that the gates before the policies let through. -/
theorem run_exit {request : Request} {requestId : Text} {upstream : UpstreamRequest → Except Exc UpstreamResponse}
    (ha : frontGates py gw request requestId = .ok a)
    (h : (proxyMcp py gw request upstream requestId).emitted = [record]) :
    ∃ k e, Exits gw a py (upstream (upstreamRequest py gw request a)) k e ∧ record = Exit.record gw a k e := by
  have hfresh := frontGates_fresh ha
  have hauthorize : authorize py gw request requestId = policies py gw a := by
    rw [authorize_eq, ha]
    rfl
  rw [proxyMcp, hauthorize] at h
  cases hpolicies : policies py gw a with
  | error stop =>
    rw [hpolicies] at h
    obtain ⟨k, e, hexit, hstop⟩ := policies_exit hfresh hpolicies
    exact ⟨k, e, hexit, List.singleton_injective (h.symm.trans hstop)⟩
  | ok b =>
    rw [hpolicies] at h
    dsimp only at h
    have hb := (policies_ok hfresh hpolicies).2
    have hsent : upstreamRequest py gw request b = upstreamRequest py gw request a := by
      rw [hb]
      rfl
    rw [hsent] at h
    cases hup : upstream (upstreamRequest py gw request a) with
    | error e =>
      rw [hup] at h
      cases e with
      | requestError cls =>
        cases h
        refine ⟨_, _, .badGateway hpolicies rfl, ?_⟩
        rw [← fresh_refused hfresh, hb]
        rfl
      | _ => cases h
    | ok up =>
      rw [hup] at h
      have hemitted : (relay py gw b up).emitted = [record] := h
      have hsame : Filters gw b up ↔ Filters gw a up := by
        rw [hb]
        rfl
      by_cases hfilters : Filters gw b up
      · obtain ⟨policy, hpolicy, hrelay⟩ := relay_filters hfilters
        rw [hrelay] at hemitted
        exact relayFiltered_exit hpolicy hfresh hpolicies rfl (hsame.mp hfilters) hemitted
      · rw [relay_streams hfilters] at hemitted
        exact relayStreamed_exit hfresh hpolicies rfl (mt hsame.mpr hfilters) hemitted

end

end McpGateway
