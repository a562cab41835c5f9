import McpGateway.Halts
import McpGateway.Lifecycle
import McpGateway.ServiceTrust

/-!
# The trail of the service

Each request of the running service lives the life of a relayed request: the
records of different requests, which interleave in the trail, tell for each
one story.
-/

namespace McpGateway

open Unicode Json Transition

def verdicts : List AuditDecision := [.allowed, .rejected, .error]

/-- At most one record has been emitted, of this request and with one of these decisions. -/
def Told (id : Text) (decisions : List AuditDecision) (emitted : List AuditRecord) : Prop :=
  ∃ r : Option AuditRecord, emitted = r.toList ∧ ∀ x ∈ r, x.requestId = id ∧ x.decision ∈ decisions

theorem told_nothing {id : Text} {decisions : List AuditDecision} : Told id decisions [] :=
  ⟨none, rfl, fun _ h => by cases h⟩

theorem told_one {id : Text} {decisions : List AuditDecision} {record : AuditRecord} (hid : record.requestId = id)
    (hd : record.decision ∈ decisions) : Told id decisions [record] := by
  refine ⟨some record, rfl, ?_⟩
  intro x hx
  cases hx
  exact ⟨hid, hd⟩

section
variable {py : Interp} {gw : Gateway} {request : Request} {record : AuditRecord} {stop : Stop}

/-! ## What a request tells -/

/-- A request that is not forwarded leaves at most one record, of a refusal. -/
theorem authorize_told {requestId : Text} (h : authorize py gw request requestId = .error stop) :
    Told requestId refusalDecisions stop.emitted := by
  cases authorize_halts h with
  | raised e => exact told_nothing
  | unserved _ _ hid hdecision => exact told_one hid (by simp [hdecision, refusalDecisions])
  | refused hid hdecision _ =>
    refine told_one hid ?_
    rcases hdecision with hd | hd <;> simp [hd, refusalDecisions]

variable {a : Authorized} {up : UpstreamResponse}

theorem toolsListError_told {code detail : Text} :
    Told record.requestId verdicts (toolsListError py record code detail).emitted :=
  told_one rfl (by simp [AuditRecord.because, AuditRecord.decide, verdicts])

theorem relayFiltered_told {policy : ToolPolicy} :
    Told a.record.requestId verdicts (relayFiltered py gw policy a up).emitted := by
  rw [relayFiltered]
  dsimp only
  split
  · exact toolsListError_told
  split
  · exact told_nothing
  · exact toolsListError_told
  · exact toolsListError_told
  split
  · exact told_nothing
  split
  · exact told_one rfl (by simp [verdicts])
  · exact toolsListError_told

theorem relayStreamed_told : Told a.record.requestId verdicts (relayStreamed py gw a up).emitted := by
  rw [relayStreamed]
  split
  · exact told_nothing
  · exact told_one rfl (by simp [AuditRecord.decide, verdicts])
  · exact told_one rfl (by simp [verdicts])

/-- A forwarded request leaves at most one record, and none of a denial. -/
theorem proxyMcp_told {requestId : Text} {upstream : UpstreamRequest → Except Exc UpstreamResponse}
    (ha : authorize py gw request requestId = .ok a) :
    Told requestId verdicts (proxyMcp py gw request upstream requestId).emitted := by
  have hid := (authorize_ok ha).2.2.2
  rw [proxyMcp, ha]
  dsimp only
  split
  · exact told_one hid (by simp [AuditRecord.because, AuditRecord.decide, verdicts])
  · exact told_nothing
  · rename_i up _
    rw [← hid]
    by_cases hfilters : Filters gw a up
    · obtain ⟨policy, _, hrelay⟩ := relay_filters hfilters
      dsimp only
      rw [hrelay]
      exact relayFiltered_told
    · dsimp only
      rw [relay_streams hfilters]
      exact relayStreamed_told

theorem proxyMcp_body {requestId : Text} {upstream : UpstreamRequest → Except Exc UpstreamResponse}
    {body : BodyIter} (ha : authorize py gw request requestId = .ok a)
    (hbody : (proxyMcp py gw request upstream requestId).body = some body) :
    ∃ r chunks ending, (proxyMcp py gw request upstream requestId).emitted = [r] ∧ r.decision = .allowed ∧
      body = .start r chunks ending := by
  rw [proxyMcp, ha] at hbody ⊢
  dsimp only at hbody ⊢
  split at hbody
  · rw [body_none fun _ => jsonResponse_content] at hbody
    cases hbody
  · cases hbody
  · rename_i up _
    by_cases hfilters : Filters gw a up
    · obtain ⟨policy, _, hrelay⟩ := relay_filters hfilters
      rw [body_none fun response => by dsimp only; rw [hrelay]; exact relayFiltered_content] at hbody
      cases hbody
    · dsimp only at hbody ⊢
      rw [relay_streams hfilters, relayStreamed] at hbody ⊢
      split at hbody
      · cases hbody
      · rw [body_none fun _ => jsonResponse_content] at hbody
        cases hbody
      · dsimp only [Run.body] at hbody
        split at hbody
        · cases hbody
        split at hbody
        · cases hbody
        · rename_i chunks ending _
          cases hbody
          exact ⟨_, chunks, ending, rfl, rfl, rfl⟩

end

/-! ## What the end of a stream tells -/

/-- The event of a stream repeats its record, with a reason of its own if an error ended it. -/
def Repeats (r : AuditRecord) (event : StreamEvent) : Prop :=
  event.record = { r with reason := event.record.reason }

theorem turn_told {cap : Int} {record : AuditRecord} {chunks : List Bytes} {ending : Option Exc} {pulls : List Pull}
    {body body' : BodyIter} {pull : Pull} (h : body.Open cap record chunks ending pulls)
    (ht : BodyIter.Turn cap body pull body')
    (hphase : body'.phase = .finished) : ∃ e : Option StreamEvent, body'.events = e.toList ∧
    ∀ x ∈ e, Repeats record x := by
  have hfinish : ∀ (b : BodyIter) (result : StreamResult), b.events = [] → b.record = record ∨
      (∃ reason, b.record = record.because reason) →
      ∃ e : Option StreamEvent, (b.finish result).events = e.toList ∧ ∀ x ∈ e, Repeats record x := by
    intro b result hevents hrecord
    refine ⟨some ⟨b.record, result, b.sent⟩, by rw [BodyIter.finish_events, hevents]; rfl, ?_⟩
    intro x hx
    cases hx
    rw [Repeats]
    rcases hrecord with hrecord | ⟨reason, hrecord⟩ <;> rw [hrecord]
    rfl
  have hfail : ∀ e, ∃ e' : Option StreamEvent, (body.fail e).events = e'.toList ∧ ∀ x ∈ e', Repeats record x := by
    intro e
    rw [BodyIter.fail]
    split
    · exact hfinish _ _ h.events (Or.inr ⟨_, by rw [h.record]⟩)
    · exact hfinish _ _ h.events (Or.inl h.record)
  cases ht with
  | delivered => cases hphase
  | overflow => exact hfinish _ _ h.events (Or.inl h.record)
  | ended => exact hfinish _ _ h.events (Or.inl h.record)
  | failed => exact hfail _
  | gone => exact hfinish _ _ h.events (Or.inl h.record)
  | cancelled => exact hfail _
  | discarded => exact ⟨none, h.events, fun _ hx => by cases hx⟩

/-! ## One request of the service -/

def Stage.leg : Stage → Leg
  | .verifying => .deciding
  | .sent => .sent
  | .streaming _ => .streaming
  | .over => .over

def markOf (id : Text) : Deed → Option (Mark UpstreamRequest AuditRecord StreamEvent)
  | .sent i x => if i = id then some (.sent x) else none
  | .audited i r => if i = id then some (.audited r) else none
  | .streamed i e => if i = id then some (.streamed e) else none

def Service.life {Key Raw : Type} (id : Text) (s : Service Key Raw) :
    Life UpstreamRequest AuditRecord StreamEvent where
  leg := (s.jobs id).elim .absent fun job => job.stage.leg
  marks := s.trail.filterMap (markOf id)

def auditRules (id : Text) : Rules UpstreamRequest AuditRecord StreamEvent where
  sends x := (txt "X-Request-Id", id) ∈ x.headers
  refusal r := r.requestId = id ∧ r.decision ∈ refusalDecisions
  verdict r := r.requestId = id ∧ r.decision ∈ verdicts
  opens r := r.decision = .allowed
  closes := Repeats

section
variable {Key RawKey Raw : Type} {py : Interp} {jwt : Text → PyJwt Key RawKey} {app : App} {cfg : CacheConfig}
  {parse : Raw → Except Thrown (Keys Value Key)} {start : ℚ} {ok : Service Key Raw → ServiceEvent Raw → Prop}
  {s s' : Service Key Raw} {e : ServiceEvent Raw} {id id' : Text} {request : Request} {stage : Stage}
  {deeds : List Deed}

theorem tell_self : (s.tell id request stage deeds).jobs id = some ⟨request, stage⟩ := Function.update_self ..

theorem tell_other (h : id ≠ id') : (s.tell id' request stage deeds).jobs id = s.jobs id :=
  Function.update_of_ne h ..

theorem requestId_sent {resolve : Text → Except VerifyError Key} {a : Authorized}
    (ha : authorize py (app.gateway py (jwt id) resolve) request id = .ok a) :
    (auditRules id).sends (upstreamRequest py (app.gateway py (jwt id) resolve) request a) := by
  have hid := (authorize_ok ha).2.2.2
  have hset : (txt "X-Request-Id", id) ∈ setMember (txt "X-Request-Id") id (dictOf (allowListed py request)) :=
    setMember_self ..
  change (txt "X-Request-Id", id) ∈ fwdHeaders py request a.verified a.record.requestId
  rw [hid]
  cases a.verified with
  | none => exact hset
  | some v =>
    have hsub : txt "X-Request-Id" ≠ txt "X-Forwarded-Sub" := by decide
    have hscopes : txt "X-Request-Id" ≠ txt "X-Forwarded-Scopes" := by decide
    rw [fwdHeaders, identityHeaders, List.foldl_cons, List.foldl_cons, List.foldl_nil]
    exact setMember_keep (setMember_keep hset hsub) hscopes

/-! ### What is known of a request under way -/

structure Underway (py : Interp) (jwt : Text → PyJwt Key RawKey) (app : App) (s : Service Key Raw) : Prop where
  sent : ∀ id request, s.jobs id = some ⟨request, .sent⟩ →
    ∃ resolve a, s.found py jwt app id request = some resolve ∧
    authorize py (app.gateway py (jwt id) resolve) request id = .ok a
  streaming : ∀ id request body, s.jobs id = some ⟨request, .streaming body⟩ → body.phase ≠ .finished ∧
    ∃ r chunks ending pulls, .audited id r ∈ s.trail ∧ body.Open app.settings.maxResponseBytes r chunks ending pulls

theorem trail_kept (hs : ServiceSteps py jwt app cfg parse s e s') : s.trail <+: s'.trail := by
  cases hs with
  | arrive _ _ _ => exact List.prefix_append _ _
  | ask _ _ _ => exact List.prefix_append _ _
  | probe _ _ => exact List.prefix_refl _
  | verifier _ _ => exact List.prefix_refl _
  | refused _ _ _ => exact List.prefix_append _ _
  | sent _ _ _ => exact List.prefix_append _ _
  | answered _ _ _ => exact List.prefix_append _ _
  | pulled _ _ => exact List.prefix_append _ _

/-- It is enough to look at the request that a step takes further. -/
theorem underway_of (h : Underway py jwt app s) (hs : ServiceSteps py jwt app cfg parse s e s') (id' : Text)
    (hjobs : ∀ id, id ≠ id' → s'.jobs id = s.jobs id)
    (hsent : ∀ request, s'.jobs id' = some ⟨request, .sent⟩ →
    ∃ resolve a, s'.found py jwt app id' request = some resolve ∧
      authorize py (app.gateway py (jwt id') resolve) request id' = .ok a)
    (hstream : ∀ request body, s'.jobs id' = some ⟨request, .streaming body⟩ → body.phase ≠ .finished ∧
      ∃ r chunks ending pulls, .audited id' r ∈ s'.trail ∧
      body.Open app.settings.maxResponseBytes r chunks ending pulls) :
    Underway py jwt app s' := by
  constructor
  · intro id request hjob
    by_cases hid : id = id'
    · subst hid
      exact hsent request hjob
    · rw [hjobs id hid] at hjob
      obtain ⟨resolve, a, hfound, ha⟩ := h.sent id request hjob
      exact ⟨resolve, a, found_kept hfound hs, ha⟩
  · intro id request body hjob
    by_cases hid : id = id'
    · subst hid
      exact hstream request body hjob
    · rw [hjobs id hid] at hjob
      obtain ⟨hphase, r, chunks, ending, pulls, hmem, hopen⟩ := h.streaming id request body hjob
      exact ⟨hphase, r, chunks, ending, pulls, (trail_kept hs).subset hmem, hopen⟩

theorem underway_same (h : Underway py jwt app s) (hs : ServiceSteps py jwt app cfg parse s e s')
    (hjobs : s'.jobs = s.jobs) :
    Underway py jwt app s' := by
  refine underway_of h hs [] (fun id _ => congrFun hjobs id) (fun request hjob => ?_) fun request body hjob => ?_
  · rw [hjobs] at hjob
    obtain ⟨resolve, a, hfound, ha⟩ := h.sent _ request hjob
    exact ⟨resolve, a, found_kept hfound hs, ha⟩
  · rw [hjobs] at hjob
    obtain ⟨hphase, r, chunks, ending, pulls, hmem, hopen⟩ := h.streaming _ request body hjob
    exact ⟨hphase, r, chunks, ending, pulls, (trail_kept hs).subset hmem, hopen⟩

theorem answer_told {resolve : Text → Except VerifyError Key} {answer : Except Exc UpstreamResponse}
    {a : Authorized} (ha : authorize py (app.gateway py (jwt id) resolve) request id = .ok a) {run : Run}
    (hrun : run = proxyMcp py (app.gateway py (jwt id) resolve) request (fun _ => answer) id) :
    Told id verdicts run.emitted ∧ ∀ body, run.stage = .streaming body → body.phase ≠ .finished ∧
      ∃ r chunks ending, run.emitted = [r] ∧ r.decision = .allowed ∧
        body.Open app.settings.maxResponseBytes r chunks ending [] := by
  subst hrun
  refine ⟨proxyMcp_told ha, ?_⟩
  intro body hstage
  rw [Run.stage] at hstage
  split at hstage
  · cases hstage
  · rename_i body' hbody
    cases hstage
    obtain ⟨r, chunks, ending, hemitted, hallowed, rfl⟩ := proxyMcp_body ha hbody
    exact ⟨by simp [BodyIter.start], r, chunks, ending, hemitted, hallowed, BodyIter.open_start⟩

theorem underway_step (h : Underway py jwt app s) (hs : ServiceSteps py jwt app cfg parse s e s') :
    Underway py jwt app s' := by
  have hsteps := hs
  cases hs with
  | @arrive id _ _ _ _ =>
    refine underway_of h hsteps id (fun _ hne => tell_other hne) (fun r hr => ?_) fun r body hr => ?_
    · cases tell_self.symm.trans hr
    · cases tell_self.symm.trans hr
  | @ask id _ _ _ _ _ =>
    refine underway_of h hsteps id (fun _ hne => Function.update_of_ne hne ..) (fun r hr => ?_) fun r body hr => ?_
    · cases (Function.update_self ..).symm.trans hr
    · cases (Function.update_self ..).symm.trans hr
  | probe _ _ => exact underway_same h hsteps rfl
  | verifier _ _ => exact underway_same h hsteps rfl
  | @refused id _ _ _ _ _ _ =>
    refine underway_of h hsteps id (fun _ hne => tell_other hne) (fun r hr => ?_) fun r body hr => ?_
    · cases tell_self.symm.trans hr
    · cases tell_self.symm.trans hr
  | @sent id request resolve a hjob hfound ha =>
    refine underway_of h hsteps id (fun _ hne => tell_other hne) (fun r hr => ?_) fun r body hr => ?_
    · cases tell_self.symm.trans hr
      exact ⟨resolve, a, found_kept hfound hsteps, ha⟩
    · cases tell_self.symm.trans hr
  | @answered id request resolve answer run hjob hfound hrun =>
    obtain ⟨resolve', a, hfound', ha⟩ := h.sent id request hjob
    cases hfound.symm.trans hfound'
    obtain ⟨_, hbody⟩ := answer_told ha hrun
    refine underway_of h hsteps id (fun _ hne => tell_other hne) (fun r hr => ?_) fun r body hr => ?_
    · have hstage : run.stage = .sent := congrArg Job.stage (Option.some.inj (tell_self.symm.trans hr))
      rw [Run.stage] at hstage
      split at hstage <;> cases hstage
    · have hstage : run.stage = .streaming body := congrArg Job.stage (Option.some.inj (tell_self.symm.trans hr))
      obtain ⟨hphase, record, chunks, ending, hemitted, _, hopen⟩ := hbody body hstage
      refine ⟨hphase, record, chunks, ending, [], ?_, hopen⟩
      rw [hemitted]
      exact List.mem_append_right _ (List.mem_singleton.mpr rfl)
  | @pulled id request body pull body' hjob hbody' =>
    obtain ⟨hphase, record, chunks, ending, pulls, hmem, hopen⟩ := h.streaming id request body hjob
    refine underway_of h hsteps id (fun _ hne => tell_other hne) (fun r hr => ?_) fun r next hr => ?_
    · have hstage : body'.stage = .sent := congrArg Job.stage (Option.some.inj (tell_self.symm.trans hr))
      rw [BodyIter.stage] at hstage
      split at hstage <;> cases hstage
    · have hstage : body'.stage = .streaming next := congrArg Job.stage (Option.some.inj (tell_self.symm.trans hr))
      rw [BodyIter.stage] at hstage
      split at hstage
      · cases hstage
      · rename_i hgoes
        cases hstage
        refine ⟨hgoes, record, chunks, ending, pulls ++ [pull], List.mem_append_left _ hmem, ?_⟩
        subst hbody'
        exact hopen.turn (BodyIter.step_turn hphase) hgoes

theorem underway_reachable (h : Reachable (service py jwt app cfg parse start) ok s) : Underway py jwt app s := by
  refine h.invariant ?_ ?_
  · refine ⟨fun id request hjob => ?_, fun id request body hjob => ?_⟩
    · cases hjob
    · cases hjob
  · intro s e s' _ hI _ hs
    exact underway_step hI (serviceSteps_of_step hs)

/-! ### The refinement -/

theorem life_other (hne : id ≠ id') (hdeeds : deeds.filterMap (markOf id) = []) :
    (s.tell id' request stage deeds).life id = s.life id := by
  have hjobs : (s.tell id' request stage deeds).jobs id = s.jobs id := tell_other hne
  rw [Service.life, Service.life, hjobs, Service.tell, List.filterMap_append, hdeeds, List.append_nil]

theorem life_self : (s.tell id request stage deeds).life id =
    ⟨stage.leg, (s.life id).marks ++ deeds.filterMap (markOf id)⟩ := by
  have hjobs : (s.tell id request stage deeds).jobs id = some ⟨request, stage⟩ := tell_self
  rw [Service.life, hjobs, Service.tell, List.filterMap_append]
  rfl

theorem life_leg {job : Job} (h : s.jobs id = some job) : (s.life id).leg = job.stage.leg := by
  rw [Service.life, h]
  rfl

theorem life_absent (h : s.jobs id = none) : (s.life id).leg = .absent := by
  rw [Service.life, h]
  rfl

theorem marks_audited (r : Option AuditRecord) :
    (r.toList.map (Deed.audited id)).filterMap (markOf id) = audits r := by
  cases r with
  | none => rfl
  | some r => simp [markOf, audits]

theorem marks_streamed (e : Option StreamEvent) :
    (e.toList.map (Deed.streamed id)).filterMap (markOf id) = streams e := by
  cases e with
  | none => rfl
  | some e => simp [markOf, streams]

theorem marks_other {α : Type} (f : α → Deed) (h : ∀ a, markOf id (f a) = none) (l : List α) :
    (l.map f).filterMap (markOf id) = [] := by
  rw [List.filterMap_eq_nil_iff]
  intro d hd
  obtain ⟨a, _, rfl⟩ := List.mem_map.mp hd
  exact h a

theorem moves (move : Move UpstreamRequest AuditRecord StreamEvent)
    {l' : Life UpstreamRequest AuditRecord StreamEvent}
    (hallows : (auditRules id).allows (s.life id) move) (hmove : (s.life id).step move = some l')
    (hl : s'.life id = l') :
    s'.life id = s.life id ∨ ∃ move, (auditRules id).allows (s.life id) move ∧
    (s.life id).step move = some (s'.life id) :=
  Or.inr ⟨move, hallows, by rw [hmove, hl]⟩

theorem life_step (h : Underway py jwt app s) (hs : ServiceSteps py jwt app cfg parse s e s') (id : Text) :
    s'.life id = s.life id ∨ ∃ move, (auditRules id).allows (s.life id) move ∧
    (s.life id).step move = some (s'.life id) := by
  cases hs with
  | @arrive id' request hnew _ _ =>
    by_cases hid : id = id'
    · subst hid
      refine moves .arrive trivial ?_ life_self
      rw [step_arrive (life_absent hnew)]
      simp [Stage.leg]
    · exact Or.inl (life_other hid rfl)
  | @ask id' request kid hnew _ _ =>
    by_cases hid : id = id'
    · subst hid
      refine moves .arrive trivial ?_ life_self
      rw [step_arrive (life_absent hnew)]
      simp [Stage.leg]
    · exact Or.inl (life_other hid rfl)
  | probe _ _ => exact Or.inl rfl
  | verifier _ _ => exact Or.inl rfl
  | @refused id' request resolve stop hjob _ hstop =>
    obtain ⟨r, hemitted, hr⟩ := authorize_told hstop
    by_cases hid : id = id'
    · subst hid
      rw [hemitted]
      refine moves (.refuse r) hr ?_ life_self
      rw [marks_audited]
      exact step_refuse (life_leg hjob) r
    · exact Or.inl (life_other hid (marks_other (.audited id') (fun _ => if_neg (Ne.symm hid)) _))
  | @sent id' request resolve a hjob _ ha =>
    by_cases hid : id = id'
    · subst hid
      refine moves (.send _) (requestId_sent ha) ?_ life_self
      rw [step_send (life_leg hjob)]
      simp [Stage.leg, markOf]
    · exact Or.inl (life_other hid (by simp [markOf, Ne.symm hid]))
  | @answered id' request resolve answer run hjob hfound hrun =>
    obtain ⟨resolve', a, hfound', ha⟩ := h.sent id' request hjob
    cases hfound.symm.trans hfound'
    obtain ⟨⟨r, hemitted, hr⟩, hbody⟩ := answer_told ha hrun
    by_cases hid : id = id'
    · subst hid
      have hleg : run.stage.leg = if run.body.isSome then .streaming else .over := by
        rw [Run.stage]
        cases run.body <;> rfl
      rw [hemitted]
      refine moves (.answer r run.body.isSome) ⟨hr, fun hstreams => ?_⟩ ?_ life_self
      · obtain ⟨body, hb⟩ := Option.isSome_iff_exists.mp hstreams
        obtain ⟨_, record, _, _, hone, hallowed, _⟩ := hbody body (by rw [Run.stage, hb])
        rw [hemitted] at hone
        exact ⟨record, by simpa using hone, hallowed⟩
      · rw [marks_audited, hleg]
        exact step_answer (life_leg hjob) r _
    · exact Or.inl (life_other hid (marks_other (.audited id') (fun _ => if_neg (Ne.symm hid)) _))
  | @pulled id' request body pull body' hjob hbody' =>
    obtain ⟨hphase, record, chunks, ending, pulls, hmem, hopen⟩ := h.streaming id' request body hjob
    have hturn : BodyIter.Turn app.settings.maxResponseBytes body pull
        (body.step app.settings.maxResponseBytes pull) :=
      BodyIter.step_turn hphase
    rw [← hbody'] at hturn
    by_cases hid : id = id'
    · subst hid
      by_cases hends : body'.phase = .finished
      · obtain ⟨e, hevents, he⟩ := turn_told hopen hturn hends
        refine moves (.finish e) (fun x hx => ⟨record, ?_, he x hx⟩) ?_ life_self
        · exact List.mem_filterMap.mpr ⟨_, hmem, if_pos rfl⟩
        · rw [hopen.events, hevents, List.length_nil, List.drop_zero, marks_streamed, BodyIter.stage, if_pos hends]
          exact step_finish (life_leg hjob) e
      · have hnone : body'.events = [] := (hopen.turn hturn hends).events
        refine Or.inl ?_
        rw [life_self, hnone, List.drop_nil, List.map_nil, List.filterMap_nil, List.append_nil,
          BodyIter.stage, if_neg hends]
        rw [Service.life, hjob]
        rfl
    · exact Or.inl (life_other hid (marks_other (.streamed id') (fun _ => if_neg (Ne.symm hid)) _))

/-- Each request of the service lives the life of a relayed request. -/
theorem service_lifecycle (id : Text) :
    Refines (service py jwt app cfg parse start) ok lifecycle (auditRules id).allows (Service.life id) := by
  refine ⟨rfl, ?_⟩
  intro s e s' hr _ hs
  exact life_step (underway_reachable hr) (serviceSteps_of_step hs) id

theorem mem_marks {id : Text} {trail : List Deed} {d : Deed} {mark : Mark UpstreamRequest AuditRecord StreamEvent}
    (hmem : d ∈ trail) (hd : markOf id d = some mark) : mark ∈ trail.filterMap (markOf id) :=
  List.mem_filterMap.mpr ⟨d, hmem, hd⟩

theorem sent_deed {id : Text} {d : Deed} {x : UpstreamRequest} (h : markOf id d = some (.sent x)) :
    d = .sent id x := by
  cases d with
  | sent i y =>
    rw [markOf] at h
    split at h <;> cases h
    rename_i hid
    rw [hid]
  | audited i r =>
    rw [markOf] at h
    split at h <;> cases h
  | streamed i event =>
    rw [markOf] at h
    split at h <;> cases h

/-- Whatever interleaves in the trail, each request has its story there: one that was denied is never sent, and
one is recorded as allowed only after it was sent. -/
theorem trail_accounts (h : Reachable (service py jwt app cfg parse start) (fun _ _ => True) s) (id : Text) :
    Story (auditRules id) (s.life id).leg (s.life id).marks ∧
      (∀ r, .audited id r ∈ s.trail → r.decision = .denied → ∀ x, .sent id x ∉ s.trail) ∧
      ∀ pre r post, s.trail = pre ++ .audited id r :: post → r.decision = .allowed →
        ∃ x, .sent id x ∈ pre ∧ (txt "X-Request-Id", id) ∈ x.headers := by
  have hstory := story_reachable ((service_lifecycle id).reachable h)
  refine ⟨hstory, ?_, ?_⟩
  · intro r hr hdenied x hx
    have hnot : ¬ (auditRules id).verdict r := by
      intro hverdict
      have hmem : r.decision ∈ verdicts := hverdict.2
      rw [hdenied] at hmem
      exact absurd hmem (by decide)
    exact hstory.unsent (mem_marks hr (if_pos rfl)) hnot x (mem_marks hx (if_pos rfl))
  · intro pre r post htrail hallowed
    have hnot : ¬ (auditRules id).refusal r := by
      intro hrefusal
      have hmem : r.decision ∈ refusalDecisions := hrefusal.2
      rw [hallowed] at hmem
      exact absurd hmem (by decide)
    have hr : .audited id r ∈ s.trail := by simp [htrail]
    obtain ⟨x, rest, hx, hmarks⟩ := hstory.sent_before (mem_marks hr (if_pos rfl)) hnot
    refine ⟨x, ?_, hx⟩
    -- the first mark of the request is that it was sent, and the record is not the first
    have hself : markOf id (.audited id r) = some (.audited r) := if_pos rfl
    rw [Service.life, htrail, List.filterMap_append, List.filterMap_cons_some hself] at hmarks
    cases hpre : pre.filterMap (markOf id) with
    | nil =>
      rw [hpre] at hmarks
      cases hmarks
    | cons mark marks =>
      rw [hpre, List.cons_append] at hmarks
      obtain rfl := (List.cons.inj hmarks).1
      obtain ⟨d, hd, hmark⟩ := List.mem_filterMap.mp
        (hpre ▸ List.mem_cons_self : Mark.sent x ∈ pre.filterMap (markOf id))
      rw [← sent_deed hmark]
      exact hd

end

def aliceAnswered : List (ServiceEvent (Keys Value Nat)) :=
  aliceSent ++ [.answer (txt "id") (.ok plainPong), .pull (txt "id") .next, .pull (txt "id") .next]

theorem trail_accounts_alice : ∃ s, aliceService.run aliceService.init aliceAnswered = some s ∧ s.trail.length = 3 ∧
    Story (auditRules (txt "id")) (s.life (txt "id")).leg (s.life (txt "id")).marks := by
  obtain ⟨s, hrun, hlength⟩ : ∃ s, aliceService.run aliceService.init aliceAnswered = some s ∧ s.trail.length = 3 :=
    Machine.run_ends _ (by decide +kernel)
  exact ⟨s, hrun, hlength, (trail_accounts (.run (fun _ _ => trivial) .init hrun) (txt "id")).1⟩

end McpGateway
