import McpGateway.Closing

/-!
# One record for each answer

A request that is answered has left one audit record, whose decision and error
code are those of the answer.
-/

namespace McpGateway

open Unicode Json

def Names (py : Interp) (response : Response) (error : Text) : Prop :=
  ∃ members b, members.lookup (txt "error") = some (.str error) ∧ canonicalize py (.obj members) = .ok b ∧
    response.body = .content b

/-- The error named to the caller: a 401 does not tell which check of the token failed. -/
def namedError (response : Response) (code : Text) : Text :=
  if response.status = 401 then txt "unauthorized" else code

structure Refusal (py : Interp) (denied : Prop) (emitted : List AuditRecord) (response : Response)
    (record : AuditRecord) :
    Prop where
  once : emitted = [record]
  decided : record.decision ≠ .pending
  refused : record.decision ≠ .allowed
  denied : record.decision = .denied ↔ denied
  named : ∃ code, record.errorCode = some code ∧ Names py response (namedError response code)

section
variable (py : Interp) (gw : Gateway) (request : Request)

/-- The gates before the policies let the request through, with the token `v` and the parse `p`. -/
def Parsed (requestId : Text) (v : Option VerifiedToken) (p : JsonRpcParse) : Prop :=
  originGate py gw request (openRecord gw request requestId) = .ok () ∧
    lengthGate py gw request (openRecord gw request requestId) = .ok () ∧
    ∃ raw r, readBody py gw request (openRecord gw request requestId) [] request.chunks = .ok raw ∧
      authenticate py gw request (openRecord gw request requestId) = .ok (v, r) ∧ parseGate py raw r = .ok p

def PolicyRefuses (v : Option VerifiedToken) (p : JsonRpcParse) : Prop :=
  (gw.policy.check py (p.method.getD []) (heldScopes v)).allowed = false ∨
    ∃ policy tool, gw.toolPolicy = some policy ∧ p.method = some (txt "tools/call") ∧ p.toolName = some tool ∧
      (policy.check tool (v.map VerifiedToken.claims)).allowed = false

/-- The upstream's content: the streamed body, or the filtered page of the body that was read. -/
inductive Carries (a : Authorized) (up : UpstreamResponse) : Body → Prop
  | streamed : Carries a up (.stream up.raw up.rawEnd)
  | filtered {policy : ToolPolicy} {body content : Bytes} {returned hidden : Nat} : gw.toolPolicy = some policy →
      Filters gw a up → mediaType py up = txt "application/json" → readPage gw up [] up.decoded = .body body →
      filterToolsList py policy (a.verified.map VerifiedToken.claims) body =
        .ok ⟨some content, none, returned, hidden⟩ →
      Carries a up (.content content)

end

/-! ## Refusals -/

section
variable {py : Interp} {gw : Gateway} {request : Request} {requestId : Text}

theorem jsonResponse_names {status : Nat} {content : List (Text × Value)} {headers : List (Text × Text)}
    {response : Response} {error : Text} (h : jsonResponse py status content headers = .ok response)
    (herror : content.lookup (txt "error") = some (.str error)) : response.status = status ∧
    Names py response error := by
  rw [jsonResponse] at h
  split at h
  · cases h
  · rename_i b hb
    rw [respond_ok h]
    exact ⟨rfl, content, b, herror, hb, rfl⟩

/-- A refusal with the status 401 names `unauthorized`, another one the code of its record. -/
theorem refusal (d : AuditDecision) {record : AuditRecord} {status : Nat} {content : List (Text × Value)}
    {headers : List (Text × Text)} {response : Response} {code : Text} {denied : Prop}
    (h : jsonResponse py status content headers = .ok response) (hdecision : record.decision = d)
    (hcode : record.errorCode = some code)
    (hcontent : content.lookup (txt "error") = some (.str (if status = 401 then txt "unauthorized" else code)))
    (hd : d ≠ .pending ∧ d ≠ .allowed) (hdenied : d = .denied ↔ denied) :
    Refusal py denied [record] response record := by
  obtain ⟨hstatus, hnames⟩ := jsonResponse_names h hcontent
  refine ⟨rfl, ?_, ?_, ?_, code, hcode, ?_⟩
  · rw [hdecision]
    exact hd.1
  · rw [hdecision]
    exact hd.2
  · rw [hdecision]
    exact hdenied
  · rw [namedError, hstatus]
    exact hnames

theorem rejected {record : AuditRecord} {status : Nat} {content : List (Text × Value)}
    {headers : List (Text × Text)}
    {response : Response} {code : Text} (h : jsonResponse py status content headers = .ok response)
    (hdecision : record.decision = .rejected) (hcode : record.errorCode = some code)
    (hcontent : content.lookup (txt "error") = some (.str (if status = 401 then txt "unauthorized" else code))) :
    Refusal py False [record] response record :=
  refusal .rejected h hdecision hcode hcontent (by decide) (by decide)

variable {record : AuditRecord} {stop : Stop} {response : Response}

theorem originGate_refusal (h : originGate py gw request record = .error stop) (hr : stop.outcome = .ok response) :
    ∃ r, Refusal py False stop.emitted response r := by
  rw [originGate] at h
  split at h
  · cases h
  split at h
  · cases h
  · cases h
    exact ⟨_, rejected hr rfl rfl rfl⟩

theorem tooLarge_refusal (hr : (tooLarge py record).outcome = .ok response) :
    ∃ r, Refusal py False (tooLarge py record).emitted response r :=
  ⟨_, rejected hr rfl rfl rfl⟩

theorem lengthGate_refusal (h : lengthGate py gw request record = .error stop) (hr : stop.outcome = .ok response) :
    ∃ r, Refusal py False stop.emitted response r := by
  rw [lengthGate] at h
  split at h
  · split at h
    · cases h
    split at h
    · split at h
      · cases h
        cases hr
      split at h
      · cases h
        exact tooLarge_refusal hr
      · cases h
    · cases h
  · cases h

theorem readBody_refusal {body : Bytes} {chunks : List Bytes}
    (h : readBody py gw request record body chunks = .error stop)
    (hr : stop.outcome = .ok response) : ∃ r, Refusal py False stop.emitted response r := by
  induction chunks generalizing body with
  | nil =>
    rw [readBody] at h
    split at h
    · cases h
      cases hr
    · cases h
  | cons chunk chunks ih =>
    rw [readBody] at h
    split at h
    · cases h
      exact tooLarge_refusal hr
    · exact ih h

theorem authenticate_refusal (h : authenticate py gw request record = .error stop)
    (hr : stop.outcome = .ok response) :
    ∃ r, Refusal py False stop.emitted response r := by
  rw [authenticate] at h
  split at h
  · split at h
    · cases h
      exact ⟨_, refusal .error hr rfl rfl rfl (by decide) (by decide)⟩
    dsimp only at h
    split at h
    · cases h
      exact ⟨_, rejected hr rfl rfl rfl⟩
    split at h
    · cases h
      cases hr
    · cases h
      exact ⟨_, rejected hr rfl rfl rfl⟩
    · cases h
  · cases h

theorem parseGate_refusal {raw : Bytes} (h : parseGate py raw record = .error stop)
    (hr : stop.outcome = .ok response) :
    ∃ r, Refusal py False stop.emitted response r := by
  rw [parseGate] at h
  split at h
  · cases h
    cases hr
  split at h
  · cases h
    exact ⟨_, rejected hr rfl rfl rfl⟩
  · cases h

variable {p : JsonRpcParse} {v : Option VerifiedToken}

theorem scopeGate_refusal (h : scopeGate py gw p v record = .error stop) (hr : stop.outcome = .ok response) :
    PolicyRefuses py gw v p ∧ ∃ r, Refusal py True stop.emitted response r := by
  rw [scopeGate] at h
  split at h
  · cases h
  · rename_i hrefused
    cases h
    exact ⟨Or.inl (by simpa using hrefused), _, refusal .denied hr rfl rfl rfl (by decide) (by decide)⟩

theorem toolGate_refusal (h : toolGate py gw p v record = .error stop) (hr : stop.outcome = .ok response) :
    (p.toolName = none ∧ ∃ r, Refusal py False stop.emitted response r) ∨
      (PolicyRefuses py gw v p ∧ ∃ r, Refusal py True stop.emitted response r) := by
  rw [toolGate] at h
  split at h
  · cases h
  rename_i policy hpolicy
  split at h
  · rename_i hmethod
    split at h
    · rename_i hname
      cases h
      exact Or.inl ⟨hname, _, rejected hr rfl rfl rfl⟩
    · rename_i tool hname
      dsimp only at h
      split at h
      · cases h
      · rename_i hrefused
        cases h
        have hpolicyRefuses : PolicyRefuses py gw v p :=
          Or.inr ⟨policy, tool, hpolicy, hmethod, hname, by simpa using hrefused⟩
        exact Or.inr ⟨hpolicyRefuses, _, refusal .denied hr rfl rfl rfl (by decide) (by decide)⟩
  · cases h

/-! ## The gates together -/

theorem bind_error {ε α β : Type} {x : Except ε α} {f : α → Except ε β} {e : ε} :
    x >>= f = .error e ↔ x = .error e ∨ ∃ a, x = .ok a ∧ f a = .error e := by
  cases x with
  | error e' => simp [bind, Except.bind]
  | ok a => simp [bind, Except.bind]

theorem Refusal.congr {d d' : Prop} {emitted : List AuditRecord} {r : AuditRecord}
    (h : Refusal py d emitted response r) (hd : d ↔ d') : Refusal py d' emitted response r :=
  ⟨h.once, h.decided, h.refused, h.denied.trans hd, h.named⟩

theorem parsed_unique {v' : Option VerifiedToken} {p' : JsonRpcParse} (h : Parsed py gw request requestId v p)
    (h' : Parsed py gw request requestId v' p') : v = v' ∧ p = p' := by
  obtain ⟨_, _, raw, r, hraw, hauth, hparse⟩ := h
  obtain ⟨_, _, raw', r', hraw', hauth', hparse'⟩ := h'
  rw [hraw] at hraw'
  cases hraw'
  rw [hauth] at hauth'
  cases hauth'
  rw [hparse] at hparse'
  cases hparse'
  exact ⟨rfl, rfl⟩

def Denied (py : Interp) (gw : Gateway) (request : Request) (requestId : Text) : Prop :=
  ∃ v p, Parsed py gw request requestId v p ∧ PolicyRefuses py gw v p

theorem not_denied (h : ∀ v p, ¬ Parsed py gw request requestId v p) : False ↔ Denied py gw request requestId :=
  iff_of_false id fun ⟨v, p, hparsed, _⟩ => h v p hparsed

theorem denied_iff (h : Parsed py gw request requestId v p) : Denied py gw request requestId ↔
    PolicyRefuses py gw v p := by
  constructor
  · intro ⟨v', p', hparsed, hrefuses⟩
    obtain ⟨hv, hp⟩ := parsed_unique h hparsed
    rw [hv, hp]
    exact hrefuses
  · intro hrefuses
    exact ⟨v, p, h, hrefuses⟩

theorem authorize_refusal (h : authorize py gw request requestId = .error stop) (hr : stop.outcome = .ok response) :
    ∃ r, Refusal py (Denied py gw request requestId) stop.emitted response r := by
  rw [authorize] at h
  obtain h | ⟨_, horigin, h⟩ := bind_error.mp h
  · obtain ⟨r, hrefusal⟩ := originGate_refusal h hr
    refine ⟨r, hrefusal.congr (not_denied fun v p hparsed => ?_)⟩
    cases h.symm.trans hparsed.1
  obtain h | ⟨_, hlength, h⟩ := bind_error.mp h
  · obtain ⟨r, hrefusal⟩ := lengthGate_refusal h hr
    refine ⟨r, hrefusal.congr (not_denied fun v p hparsed => ?_)⟩
    cases h.symm.trans hparsed.2.1
  obtain h | ⟨raw, hraw, h⟩ := bind_error.mp h
  · obtain ⟨r, hrefusal⟩ := readBody_refusal h hr
    refine ⟨r, hrefusal.congr (not_denied fun v p hparsed => ?_)⟩
    obtain ⟨_, _, raw, _, hraw, _⟩ := hparsed
    cases h.symm.trans hraw
  obtain h | ⟨⟨v, r₁⟩, hauth, h⟩ := bind_error.mp h
  · obtain ⟨r, hrefusal⟩ := authenticate_refusal h hr
    refine ⟨r, hrefusal.congr (not_denied fun v p hparsed => ?_)⟩
    obtain ⟨_, _, _, _, _, hauth, _⟩ := hparsed
    cases h.symm.trans hauth
  obtain h | ⟨p, hparse, h⟩ := bind_error.mp h
  · obtain ⟨r, hrefusal⟩ := parseGate_refusal h hr
    refine ⟨r, hrefusal.congr (not_denied fun v' p' hparsed => ?_)⟩
    obtain ⟨_, _, _, _, hraw', hauth', hparse'⟩ := hparsed
    cases hraw.symm.trans hraw'
    cases hauth.symm.trans hauth'
    cases h.symm.trans hparse'
  have hparsed : Parsed py gw request requestId v p := ⟨horigin, hlength, raw, r₁, hraw, hauth, hparse⟩
  obtain h | ⟨r₂, hscope, h⟩ := bind_error.mp h
  · obtain ⟨hrefuses, r, hrefusal⟩ := scopeGate_refusal h hr
    exact ⟨r, hrefusal.congr (iff_of_true trivial ((denied_iff hparsed).mpr hrefuses))⟩
  obtain h | ⟨r₃, _, h⟩ := bind_error.mp h
  · obtain ⟨hname, r, hrefusal⟩ | ⟨hrefuses, r, hrefusal⟩ := toolGate_refusal h hr
    · refine ⟨r, hrefusal.congr (iff_of_false id fun hdenied => ?_)⟩
      obtain hscopeRefuses | ⟨_, tool, _, _, htool, _⟩ := (denied_iff hparsed).mp hdenied
      · rw [(scopeGate_ok hscope).1] at hscopeRefuses
        cases hscopeRefuses
      · cases hname.symm.trans htool
    · exact ⟨r, hrefusal.congr (iff_of_true trivial ((denied_iff hparsed).mpr hrefuses))⟩
  · cases h

theorem authorize_not_denied {a : Authorized} (h : authorize py gw request requestId = .ok a) :
    ¬ Denied py gw request requestId := by
  rw [authorize] at h
  obtain ⟨_, horigin, h⟩ := bind_ok.mp h
  obtain ⟨_, hlength, h⟩ := bind_ok.mp h
  obtain ⟨raw, hraw, h⟩ := bind_ok.mp h
  obtain ⟨⟨v, r₁⟩, hauth, h⟩ := bind_ok.mp h
  obtain ⟨p, hparse, h⟩ := bind_ok.mp h
  obtain ⟨r₂, hscope, h⟩ := bind_ok.mp h
  obtain ⟨r₃, htool, h⟩ := bind_ok.mp h
  have hparsed : Parsed py gw request requestId v p := ⟨horigin, hlength, raw, r₁, hraw, hauth, hparse⟩
  intro hdenied
  obtain hscopeRefuses | ⟨policy, tool, hpolicy, hmethod, hname, hrefuses⟩ := (denied_iff hparsed).mp hdenied
  · rw [(scopeGate_ok hscope).1] at hscopeRefuses
    cases hscopeRefuses
  · obtain ⟨tool', hname', hallowed⟩ := (toolGate_ok htool).1 policy hpolicy hmethod
    cases hname.symm.trans hname'
    rw [hallowed] at hrefuses
    cases hrefuses

/-! ## Relaying -/

variable {a : Authorized} {up : UpstreamResponse}

def Accounted (py : Interp) (gw : Gateway) (a : Authorized) (up : UpstreamResponse) (emitted : List AuditRecord)
    (response : Response) : Prop :=
  (∃ r, Refusal py False emitted response r ∧ ¬ Carries py gw a up response.body) ∨
    ∃ r, emitted = [r] ∧ r.decision = .allowed ∧ Carries py gw a up response.body

theorem toolsListError_refusal {code detail : Text}
    (hr : (toolsListError py record code detail).outcome = .ok response) :
    (∃ r, Refusal py False (toolsListError py record code detail).emitted response r) ∧
    ∃ b, response.body = .content b :=
  ⟨⟨_, rejected hr rfl rfl rfl⟩, jsonResponse_content hr⟩

theorem accounted_error {code detail : Text} (hr : (toolsListError py record code detail).outcome = .ok response)
    (hnot : ∀ b, ¬ Carries py gw a up (.content b)) :
    Accounted py gw a up (toolsListError py record code detail).emitted response := by
  obtain ⟨⟨r, hrefusal⟩, b, hb⟩ := toolsListError_refusal hr
  refine Or.inl ⟨r, hrefusal, ?_⟩
  rw [hb]
  exact hnot b

theorem relayFiltered_accounted {policy : ToolPolicy} (hpolicy : gw.toolPolicy = some policy)
    (hfilters : Filters gw a up) (hr : (relayFiltered py gw policy a up).outcome = .ok response) :
    Accounted py gw a up (relayFiltered py gw policy a up).emitted response := by
  rw [relayFiltered] at hr ⊢
  by_cases hmedia : mediaType py up = txt "application/json"
  · rw [if_neg (not_not.mpr hmedia)] at hr ⊢
    cases hread : readPage gw up [] up.decoded with
    | raised e =>
      rw [hread] at hr
      cases hr
    | tooLarge =>
      rw [hread] at hr
      refine accounted_error hr fun b hcarries => ?_
      cases hcarries with
      | filtered _ _ _ hread' => cases hread.symm.trans hread'
    | failed =>
      rw [hread] at hr
      refine accounted_error hr fun b hcarries => ?_
      cases hcarries with
      | filtered _ _ _ hread' => cases hread.symm.trans hread'
    | body body =>
      rw [hread] at hr
      dsimp only at hr ⊢
      cases houtcome : filterToolsList py policy (a.verified.map VerifiedToken.claims) body with
      | error e =>
        rw [houtcome] at hr
        cases hr
      | ok outcome =>
        rw [houtcome] at hr
        have hother : (∀ content returned hidden, outcome ≠ ⟨some content, none, returned, hidden⟩) →
            ∀ b, ¬ Carries py gw a up (.content b) := by
          intro hne b hcarries
          cases hcarries with
          | filtered hpolicy' _ _ hread' houtcome' =>
            cases hpolicy.symm.trans hpolicy'
            cases hread.symm.trans hread'
            cases houtcome.symm.trans houtcome'
            exact hne _ _ _ rfl
        obtain ⟨content, code, returned, hidden⟩ := outcome
        cases code with
        | some code => exact accounted_error hr (hother fun _ _ _ h => by cases h)
        | none =>
          cases content with
          | none => exact accounted_error hr (hother fun _ _ _ h => by cases h)
          | some content =>
            refine Or.inr ⟨_, rfl, rfl, ?_⟩
            rw [respond_ok hr]
            exact .filtered hpolicy hfilters hmedia hread houtcome
  · rw [if_pos hmedia] at hr ⊢
    refine accounted_error hr fun b hcarries => ?_
    cases hcarries with
    | filtered _ _ hmedia' => exact hmedia hmedia'

theorem relayStreamed_accounted (hfilters : ¬ Filters gw a up)
    (hr : (relayStreamed py gw a up).outcome = .ok response) :
    Accounted py gw a up (relayStreamed py gw a up).emitted response := by
  rw [relayStreamed] at hr ⊢
  cases hcap : overCap py gw up with
  | error e =>
    rw [hcap] at hr
    cases hr
  | ok more =>
    rw [hcap] at hr
    cases more with
    | true =>
      obtain ⟨b, hb⟩ := jsonResponse_content hr
      refine Or.inl ⟨_, rejected hr rfl rfl rfl, ?_⟩
      rw [hb]
      intro hcarries
      cases hcarries with
      | filtered _ hfilters' => exact hfilters hfilters'
    | false =>
      refine Or.inr ⟨_, rfl, rfl, ?_⟩
      rw [respond_ok hr]
      exact .streamed

theorem relay_accounted (hr : (relay py gw a up).outcome = .ok response) :
    Accounted py gw a up (relay py gw a up).emitted response := by
  by_cases hfilters : Filters gw a up
  · obtain ⟨policy, hpolicy, hrelay⟩ := relay_filters hfilters
    rw [hrelay] at hr ⊢
    exact relayFiltered_accounted hpolicy hfilters hr
  · rw [relay_streams hfilters] at hr ⊢
    exact relayStreamed_accounted hfilters hr

end

/-! ## The whole request -/

structure Truthful (py : Interp) (gw : Gateway) (request : Request)
    (upstream : UpstreamRequest → Except Exc UpstreamResponse)
    (requestId : Text) (response : Response) (record : AuditRecord) : Prop where
  decided : record.decision ≠ .pending
  allowed : record.decision = .allowed ↔ ∃ a up, authorize py gw request requestId = .ok a ∧
    upstream (upstreamRequest py gw request a) = .ok up ∧ Carries py gw a up response.body
  denied : record.decision = .denied ↔ Denied py gw request requestId
  named : record.decision ≠ .allowed → ∃ code, record.errorCode = some code ∧
    Names py response (namedError response code)

section
variable {py : Interp} {gw : Gateway} {request : Request} {upstream : UpstreamRequest → Except Exc UpstreamResponse}
  {requestId : Text} {response : Response} {record : AuditRecord} {emitted : List AuditRecord}

theorem Refusal.truthful {d : Prop} (h : Refusal py d emitted response record)
    (hd : d ↔ Denied py gw request requestId) (hnot : ∀ a up, authorize py gw request requestId = .ok a →
    upstream (upstreamRequest py gw request a) = .ok up →
      ¬ Carries py gw a up response.body) : Truthful py gw request upstream requestId response record where
  decided := h.decided
  allowed := iff_of_false h.refused fun ⟨a, up, ha, hup, hcarries⟩ => hnot a up ha hup hcarries
  denied := h.denied.trans hd
  named := fun _ => h.named

theorem Accounted.truthful {a : Authorized} {up : UpstreamResponse} (h : Accounted py gw a up emitted response)
    (ha : authorize py gw request requestId = .ok a) (hup : upstream (upstreamRequest py gw request a) = .ok up) :
    ∃ record, emitted = [record] ∧ Truthful py gw request upstream requestId response record := by
  have hdenied := authorize_not_denied ha
  obtain ⟨record, hrefusal, hnot⟩ | ⟨record, honce, hallowed, hcarries⟩ := h
  · refine ⟨record, hrefusal.once, hrefusal.truthful (iff_of_false id hdenied) ?_⟩
    intro a' up' ha' hup'
    cases ha.symm.trans ha'
    cases hup.symm.trans hup'
    exact hnot
  · refine ⟨record, honce, ?_, ?_, ?_, ?_⟩
    · rw [hallowed]
      decide
    · exact iff_of_true hallowed ⟨a, up, ha, hup, hcarries⟩
    · refine iff_of_false ?_ hdenied
      rw [hallowed]
      decide
    · exact fun hne => absurd hallowed hne

end

/-- An answered request has left one record, and it tells the truth. -/
theorem audit_truthful (py : Interp) (gw : Gateway) (request : Request)
    (upstream : UpstreamRequest → Except Exc UpstreamResponse) (requestId : Text) (response : Response)
    (h : (proxyMcp py gw request upstream requestId).outcome = .ok response) :
    ∃ record, (proxyMcp py gw request upstream requestId).emitted = [record] ∧
      Truthful py gw request upstream requestId response record := by
  cases ha : authorize py gw request requestId with
  | error stop =>
    rw [proxyMcp, ha] at h ⊢
    obtain ⟨record, hrefusal⟩ := authorize_refusal ha h
    exact ⟨record, hrefusal.once, hrefusal.truthful Iff.rfl fun a up ha' => by cases ha.symm.trans ha'⟩
  | ok a =>
    cases hup : upstream (upstreamRequest py gw request a) with
    | error e =>
      rw [proxyMcp, ha] at h ⊢
      dsimp only at h ⊢
      rw [hup] at h ⊢
      have hnot : ∀ a' up, authorize py gw request requestId = .ok a' →
        upstream (upstreamRequest py gw request a') = .ok up →
          ¬ Carries py gw a' up response.body := by
        intro a' up ha' hup'
        cases ha.symm.trans ha'
        cases hup.symm.trans hup'
      cases e with
      | requestError cls =>
        refine ⟨_, rfl, (refusal .error h rfl rfl rfl (by decide) ?_).truthful Iff.rfl hnot⟩
        exact iff_of_false (by decide) (authorize_not_denied ha)
      | _ => cases h
    | ok up =>
      rw [proxyMcp_relay ha hup] at h ⊢
      exact (relay_accounted h).truthful ha hup

def pongResponse : Response := ⟨200, [(txt "x-price", txt "1")], none, .stream [ascii "pong"] none⟩

def unruledRequest : Request := { plainPing with chunks := [ascii "\x7b\"method\":\"resources/read\"\x7d"] }

def unruledRun : Run := proxyMcp .ascii aliceGateway unruledRequest (fun _ => .ok plainPong) hexId

/-- A ping that is answered, and a request that is denied. -/
theorem audit_truthful_pong : (∃ record, (pongRun plainPong).emitted = [record] ∧ record.decision = .allowed) ∧
    ∃ record code response, unruledRun.emitted = [record] ∧ record.decision = .denied ∧
      Denied .ascii aliceGateway unruledRequest hexId ∧ unruledRun.outcome = .ok response ∧
      record.errorCode = some code ∧ Names .ascii response (namedError response code) := by
  constructor
  · have houtcome : (pongRun plainPong).outcome = .ok pongResponse := by decide +kernel
    obtain ⟨record, honce, htruthful⟩ :=
      audit_truthful .ascii devGateway plainPing (fun _ => .ok plainPong) hexId pongResponse houtcome
    obtain ⟨a, ha⟩ := ping_authorized
    exact ⟨record, honce, htruthful.allowed.mpr ⟨a, plainPong, ha, rfl, .streamed⟩⟩
  · obtain ⟨response, houtcome, hdecision⟩ : ∃ response, unruledRun.outcome = .ok response ∧
        unruledRun.emitted.map AuditRecord.decision = [.denied] := by
      have hok : unruledRun.outcome.isOk = true := by decide +kernel
      cases h : unruledRun.outcome with
      | ok response => exact ⟨response, rfl, by decide +kernel⟩
      | error e =>
        rw [h] at hok
        cases hok
    obtain ⟨record, honce, htruthful⟩ :=
      audit_truthful .ascii aliceGateway unruledRequest (fun _ => .ok plainPong) hexId response houtcome
    have hdenied : record.decision = .denied := by
      rw [unruledRun, honce] at hdecision
      exact List.singleton_inj.mp hdecision
    have hrefused : record.decision ≠ .allowed := by
      rw [hdenied]
      decide
    obtain ⟨code, hcode, hnames⟩ := htruthful.named hrefused
    exact ⟨record, code, response, honce, hdenied, htruthful.denied.mp hdenied, houtcome, hcode, hnames⟩

end McpGateway
