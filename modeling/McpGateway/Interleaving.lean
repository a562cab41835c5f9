import McpGateway.ServiceAudit

/-!
# Interleaved and alone

What the service does for one request, among all others, is what the handler
does for it when it runs alone: the deeds of the request in the trail are those
of `proxyMcp` with the key that was found, and of the pulls of its body.
-/

namespace McpGateway

open Unicode Json Transition

def Deed.request : Deed → Text
  | .sent id _ => id
  | .audited id _ => id
  | .streamed id _ => id

def Service.deeds {Key Raw : Type} (s : Service Key Raw) (id : Text) : List Deed :=
  s.trail.filter fun d => d.request = id

/-- The deeds of the handler on its own, with its body pulled so. -/
def Run.deeds (run : Run) (cap : Int) (id : Text) (pulls : List Pull) : List Deed :=
  run.attempts.map (.sent id) ++ run.emitted.map (.audited id) ++
    match run.body with
    | none => []
    | some body => (body.run cap pulls).events.map (.streamed id)

def Run.stageAfter (run : Run) (cap : Int) (pulls : List Pull) : Stage :=
  match run.body with
  | none => .over
  | some body => (body.run cap pulls).stage

/-- What a run brings one request: itself, the answers of the upstream and what is asked of its body. -/
structure Inputs where
  arrivals : List Request
  answers : List (Except Exc UpstreamResponse)
  pulls : List Pull

def Inputs.add {Raw : Type} (id : Text) (i : Inputs) : ServiceEvent Raw → Inputs
  | .arrive id' request => if id' = id then { i with arrivals := i.arrivals ++ [request] } else i
  | .answer id' answer => if id' = id then { i with answers := i.answers ++ [answer] } else i
  | .pull id' pull => if id' = id then { i with pulls := i.pulls ++ [pull] } else i
  | _ => i

def inputs {Raw : Type} (id : Text) (es : List (ServiceEvent Raw)) : Inputs := es.foldl (Inputs.add id) ⟨[], [], []⟩

/-- A request and its deeds, as the handler alone makes them of these inputs. -/
inductive Alone {Key RawKey Raw : Type} (py : Interp) (jwt : Text → PyJwt Key RawKey) (app : App)
    (s : Service Key Raw) (id : Text) :
    Inputs → Option Job → List Deed → Prop
  | absent : Alone py jwt app s id ⟨[], [], []⟩ none []
  | verifying {request : Request} : Alone py jwt app s id ⟨[request], [], []⟩ (some ⟨request, .verifying⟩) []
  | refused {request : Request} {resolve : Text → Except VerifyError Key} {run : Run} :
      s.found py jwt app id request = some resolve →
      (∀ upstream, proxyMcp py (app.gateway py (jwt id) resolve) request upstream id = run) →
      Alone py jwt app s id ⟨[request], [], []⟩ (some ⟨request, .over⟩)
        (run.deeds app.settings.maxResponseBytes id [])
  | sent {request : Request} {resolve : Text → Except VerifyError Key} {a : Authorized} :
      s.found py jwt app id request = some resolve →
        authorize py (app.gateway py (jwt id) resolve) request id = .ok a →
      Alone py jwt app s id ⟨[request], [], []⟩ (some ⟨request, .sent⟩)
        [.sent id (upstreamRequest py (app.gateway py (jwt id) resolve) request a)]
  | answered {request : Request} {resolve : Text → Except VerifyError Key} {answer : Except Exc UpstreamResponse}
      {pulls : List Pull} {run : Run} : s.found py jwt app id request = some resolve →
      run = proxyMcp py (app.gateway py (jwt id) resolve) request (fun _ => answer) id →
      Alone py jwt app s id ⟨[request], [answer], pulls⟩
        (some ⟨request, run.stageAfter app.settings.maxResponseBytes pulls⟩)
        (run.deeds app.settings.maxResponseBytes id pulls)

section
variable {Key RawKey Raw : Type} {py : Interp} {jwt : Text → PyJwt Key RawKey} {app : App} {cfg : CacheConfig}
  {parse : Raw → Except Thrown (Keys Value Key)} {start : ℚ} {ok : Service Key Raw → ServiceEvent Raw → Prop}
  {s s' : Service Key Raw} {e : ServiceEvent Raw} {id id' : Text} {request : Request} {stage : Stage}
  {deeds : List Deed} {i : Inputs} {es : List (ServiceEvent Raw)}

theorem inputs_snoc (id : Text) (es : List (ServiceEvent Raw)) (e : ServiceEvent Raw) :
    inputs id (es ++ [e]) = (inputs id es).add id e := List.foldl_append ..

theorem Alone.kept {job : Option Job} (h : Alone py jwt app s id i job deeds)
    (hs : ServiceSteps py jwt app cfg parse s e s') :
    Alone py jwt app s' id i job deeds := by
  cases h with
  | absent => exact .absent
  | verifying => exact .verifying
  | refused hfound hrun => exact .refused (found_kept hfound hs) hrun
  | sent hfound ha => exact .sent (found_kept hfound hs) ha
  | answered hfound hrun => exact .answered (found_kept hfound hs) hrun

theorem deeds_tell_self (h : ∀ d ∈ deeds, d.request = id) :
    (s.tell id request stage deeds).deeds id = s.deeds id ++ deeds := by
  have hown : deeds.filter (fun d => d.request = id) = deeds :=
    List.filter_eq_self.mpr fun d hd => decide_eq_true (h d hd)
  rw [Service.deeds, Service.tell, List.filter_append, hown]
  rfl

theorem deeds_tell_other (h : ∀ d ∈ deeds, d.request = id') (hne : id ≠ id') :
    (s.tell id' request stage deeds).deeds id = s.deeds id := by
  have hnone : deeds.filter (fun d => d.request = id) = [] := by
    refine List.filter_eq_nil_iff.mpr fun d hd hid => ?_
    exact hne ((of_decide_eq_true hid).symm.trans (h d hd))
  rw [Service.deeds, Service.tell, List.filter_append, hnone, List.append_nil]
  rfl

theorem owner_map {α : Type} (f : α → Deed) (h : ∀ a, (f a).request = id) (l : List α) :
    ∀ d ∈ l.map f, d.request = id := by
  intro d hd
  obtain ⟨a, _, rfl⟩ := List.mem_map.mp hd
  exact h a

/-- A step that takes one request further leaves the others alone. -/
theorem alone_tell (h : ∀ id, Alone py jwt app s id (inputs id es) (s.jobs id) (s.deeds id))
    (hs : ServiceSteps py jwt app cfg parse s e s') (hothers : ∀ id, id ≠ id' → ∀ i : Inputs, i.add id e = i)
    (hjobs : s'.jobs = (s.tell id' request stage deeds).jobs)
    (htrail : s'.trail = (s.tell id' request stage deeds).trail) (howner : ∀ d ∈ deeds, d.request = id')
    (hself : Alone py jwt app s id' ((inputs id' es).add id' e) (some ⟨request, stage⟩) (s.deeds id' ++ deeds))
    (id : Text) :
    Alone py jwt app s' id (inputs id (es ++ [e])) (s'.jobs id) (s'.deeds id) := by
  have hdeeds : s'.deeds id = (s.tell id' request stage deeds).deeds id := by
    rw [Service.deeds, htrail]
    rfl
  rw [hjobs, hdeeds, inputs_snoc]
  by_cases hid : id = id'
  · subst hid
    rw [tell_self, deeds_tell_self howner]
    exact hself.kept hs
  · rw [tell_other hid, deeds_tell_other howner hid, hothers id hid]
    exact (h id).kept hs

/-! ### What is known at each stage -/

theorem body_starts {run : Run} {body : BodyIter} (h : run.body = some body) :
    ∃ record chunks ending, body = .start record chunks ending := by
  unfold Run.body at h
  split at h
  · cases h
  split at h
  · cases h
  · obtain ⟨record, _, rfl⟩ := Option.map_eq_some_iff.mp h
    exact ⟨record, _, _, rfl⟩

theorem stageAfter_nil {run : Run} {cap : Int} : run.stageAfter cap [] = run.stage := by
  unfold Run.stageAfter Run.stage
  cases hbody : run.body with
  | none => rfl
  | some body =>
    obtain ⟨record, chunks, ending, rfl⟩ := body_starts hbody
    rfl

theorem deeds_nil {run : Run} {cap : Int} :
    run.deeds cap id [] = run.attempts.map (.sent id) ++ run.emitted.map (.audited id) := by
  unfold Run.deeds
  cases hbody : run.body with
  | none => exact List.append_nil _
  | some body =>
    obtain ⟨record, chunks, ending, rfl⟩ := body_starts hbody
    exact List.append_nil _

theorem stageAfter_final {run : Run} {cap : Int} {pulls : List Pull} : run.stageAfter cap pulls ≠ .verifying ∧
    run.stageAfter cap pulls ≠ .sent := by
  unfold Run.stageAfter BodyIter.stage
  constructor
  · split
    · exact nofun
    · split <;> exact nofun
  · split
    · exact nofun
    · split <;> exact nofun

theorem alone_absent (h : Alone py jwt app s id i none deeds) : i = ⟨[], [], []⟩ ∧ deeds = [] := by
  cases h
  exact ⟨rfl, rfl⟩

theorem alone_arrives (h : Alone py jwt app s id i (s.jobs id) (s.deeds id)) (hnew : s.jobs id = none) :
    Alone py jwt app s id (i.add id (.arrive id request : ServiceEvent Raw)) (some ⟨request, .verifying⟩)
    (s.deeds id ++ []) := by
  rw [hnew] at h
  obtain ⟨rfl, hdeeds⟩ := alone_absent h
  rw [hdeeds, Inputs.add, if_pos rfl]
  exact .verifying

theorem alone_verifying (h : Alone py jwt app s id i (some ⟨request, .verifying⟩) deeds) :
    i = ⟨[request], [], []⟩ ∧ deeds = [] := by
  generalize hjob : some (Job.mk request .verifying) = job at h
  cases h with
  | absent => cases hjob
  | verifying =>
    cases hjob
    exact ⟨rfl, rfl⟩
  | refused => cases hjob
  | sent => cases hjob
  | answered => exact absurd (Job.mk.inj (Option.some.inj hjob)).2.symm stageAfter_final.1

theorem alone_sent (h : Alone py jwt app s id i (some ⟨request, .sent⟩) deeds) :
    i = ⟨[request], [], []⟩ ∧ ∃ resolve a,
    s.found py jwt app id request = some resolve ∧
    authorize py (app.gateway py (jwt id) resolve) request id = .ok a ∧
      deeds = [.sent id (upstreamRequest py (app.gateway py (jwt id) resolve) request a)] := by
  generalize hjob : some (Job.mk request .sent) = job at h
  cases h with
  | absent => cases hjob
  | verifying => cases hjob
  | refused => cases hjob
  | sent hfound ha =>
    cases hjob
    exact ⟨rfl, _, _, hfound, ha, rfl⟩
  | answered => exact absurd (Job.mk.inj (Option.some.inj hjob)).2.symm stageAfter_final.2

theorem alone_streaming {body : BodyIter} (h : Alone py jwt app s id i (some ⟨request, .streaming body⟩) deeds) :
    ∃ resolve answer pulls run, i = ⟨[request], [answer], pulls⟩ ∧ s.found py jwt app id request = some resolve ∧
      run = proxyMcp py (app.gateway py (jwt id) resolve) request (fun _ => answer) id ∧
      run.stageAfter app.settings.maxResponseBytes pulls = .streaming body ∧
      deeds = run.deeds app.settings.maxResponseBytes id pulls := by
  generalize hjob : some (Job.mk request (.streaming body)) = job at h
  cases h with
  | absent => cases hjob
  | verifying => cases hjob
  | refused => cases hjob
  | sent => cases hjob
  | answered hfound hrun =>
    obtain ⟨hrequest, hstage⟩ := Job.mk.inj (Option.some.inj hjob)
    subst hrequest
    exact ⟨_, _, _, _, rfl, hfound, hrun, hstage.symm, rfl⟩

theorem streaming_body {run : Run} {cap : Int} {pulls : List Pull} {body : BodyIter}
    (h : run.stageAfter cap pulls = .streaming body) :
    ∃ body₀, run.body = some body₀ ∧ body = body₀.run cap pulls := by
  unfold Run.stageAfter at h
  cases hbody : run.body with
  | none =>
    rw [hbody] at h
    cases h
  | some body₀ =>
    rw [hbody] at h
    dsimp only [BodyIter.stage] at h
    split at h
    · cases h
    · cases h
      exact ⟨body₀, rfl, rfl⟩

theorem pulled_once {run : Run} {cap : Int} {pulls : List Pull} {body : BodyIter}
    (h : run.stageAfter cap pulls = .streaming body) (hevents : body.events = []) (pull : Pull) :
    run.stageAfter cap (pulls ++ [pull]) = (body.step cap pull).stage ∧
      run.deeds cap id (pulls ++ [pull]) = run.deeds cap id pulls ++
        ((body.step cap pull).events.drop body.events.length).map (.streamed id) := by
  obtain ⟨body₀, hbody, rfl⟩ := streaming_body h
  have hrun : body₀.run cap (pulls ++ [pull]) = (body₀.run cap pulls).step cap pull := by
    rw [BodyIter.run, BodyIter.run, List.foldl_append]
    rfl
  constructor
  · rw [Run.stageAfter, hbody]
    dsimp only
    rw [hrun]
  · rw [Run.deeds, Run.deeds, hbody]
    dsimp only
    rw [hrun, hevents, List.length_nil, List.drop_zero, List.map_nil, List.append_nil]

theorem refused_alone {gw : Gateway} {stop : Stop} {upstream : UpstreamRequest → Except Exc UpstreamResponse}
    {cap : Int} (h : authorize py gw request id = .error stop) :
    (proxyMcp py gw request upstream id).deeds cap id [] = stop.emitted.map (.audited id) := by
  rw [deeds_nil, proxyMcp, h]
  rfl

/-! ### Runs -/

theorem alone_step (hu : Underway py jwt app s)
    (h : ∀ id, Alone py jwt app s id (inputs id es) (s.jobs id) (s.deeds id))
    (hs : ServiceSteps py jwt app cfg parse s e s') :
    ∀ id, Alone py jwt app s' id (inputs id (es ++ [e])) (s'.jobs id) (s'.deeds id) := by
  have hsteps := hs
  cases hs with
  | @arrive id request hnew _ _ =>
    exact alone_tell h hsteps (fun _ hne _ => if_neg (Ne.symm hne)) rfl rfl (fun d hd => by cases hd)
      (alone_arrives (h id) hnew)
  | @ask id request kid hnew _ _ =>
    exact alone_tell h hsteps (fun _ hne _ => if_neg (Ne.symm hne)) rfl rfl (fun d hd => by cases hd)
      (alone_arrives (h id) hnew)
  | probe _ _ =>
    intro id
    rw [inputs_snoc]
    exact (h id).kept hsteps
  | verifier _ _ =>
    intro id
    rw [inputs_snoc]
    exact (h id).kept hsteps
  | @refused id request resolve stop hjob hfound hstop =>
    refine alone_tell h hsteps (fun _ _ _ => rfl) rfl rfl (owner_map (.audited id) (fun _ => rfl) _) ?_
    have hold := h id
    rw [hjob] at hold
    obtain ⟨hinputs, hdeeds⟩ := alone_verifying hold
    have hnow := @refused_alone py id request _ _ (fun _ => .error .clientDisconnect)
      app.settings.maxResponseBytes hstop
    rw [hinputs, hdeeds, List.nil_append, ← hnow]
    refine .refused hfound fun upstream => ?_
    rw [proxyMcp, proxyMcp, hstop]
  | @sent id request resolve a hjob hfound ha =>
    refine alone_tell h hsteps (fun _ _ _ => rfl) rfl rfl ?_ ?_
    · intro d hd
      rw [List.mem_singleton.mp hd]
      rfl
    · have hold := h id
      rw [hjob] at hold
      obtain ⟨hinputs, hdeeds⟩ := alone_verifying hold
      rw [hinputs, hdeeds]
      exact .sent hfound ha
  | @answered id request resolve answer run hjob hfound hrun =>
    have hold := h id
    rw [hjob] at hold
    obtain ⟨hinputs, resolve', a, hfound', ha, hdeeds⟩ := alone_sent hold
    cases hfound.symm.trans hfound'
    refine alone_tell h hsteps (fun _ hne _ => if_neg (Ne.symm hne)) rfl rfl
      (owner_map (.audited id) (fun _ => rfl) _) ?_
    have hattempts : run.attempts = [upstreamRequest py (app.gateway py (jwt id) resolve) request a] := by
      rw [hrun, proxyMcp_attempts, ha]
    have hnow : run.deeds app.settings.maxResponseBytes id [] =
        .sent id (upstreamRequest py (app.gateway py (jwt id) resolve) request a) ::
          run.emitted.map (.audited id) := by
      rw [deeds_nil, hattempts]
      rfl
    rw [hinputs, Inputs.add, if_pos rfl, hdeeds, List.singleton_append, ← hnow,
      ← @stageAfter_nil run app.settings.maxResponseBytes]
    exact .answered hfound hrun
  | @pulled id request body pull body' hjob hbody' =>
    have hold := h id
    rw [hjob] at hold
    obtain ⟨resolve, answer, pulls, run, hinputs, hfound, hrun, hstage, hdeeds⟩ := alone_streaming hold
    obtain ⟨_, _, _, _, _, _, hopen⟩ := hu.streaming id request body hjob
    obtain ⟨hnext, hmore⟩ := @pulled_once id run app.settings.maxResponseBytes pulls body hstage hopen.events pull
    subst hbody'
    refine alone_tell h hsteps (fun _ hne _ => if_neg (Ne.symm hne)) rfl rfl
      (owner_map (.streamed id) (fun _ => rfl) _) ?_
    rw [hinputs, Inputs.add, if_pos rfl, hdeeds, ← hmore, ← hnext]
    exact .answered hfound hrun

/-- In every run of the service, each request has done what the handler alone does with the key that was found,
the answer that the run gave and the pulls it made. -/
theorem service_sequential (hr : (service py jwt app cfg parse start).run
    (service py jwt app cfg parse start).init es = some s)
    (id : Text) : Alone py jwt app s id (inputs id es) (s.jobs id) (s.deeds id) := by
  have hall : ∀ id, Alone py jwt app s id (inputs id es) (s.jobs id) (s.deeds id) := by
    refine Machine.run_invariant (I := fun es s => ∀ id, Alone py jwt app s id (inputs id es) (s.jobs id)
      (s.deeds id)) ?_ ?_ hr
    · exact fun _ => .absent
    · intro es s e s' hr hI hs
      have hreach : Reachable (service py jwt app cfg parse start) (fun _ _ => True) s :=
        .run (fun _ _ => trivial) .init hr
      exact alone_step (underway_reachable hreach) hI (serviceSteps_of_step hs)
  exact hall id

end

theorem service_sequential_alice : ∃ s, aliceService.run aliceService.init aliceAnswered = some s ∧
    s.trail.length = 3 ∧
    Alone .ascii (fun _ => aliceJwt) aliceApp s (txt "id") ⟨[plainPing], [.ok plainPong], [.next, .next]⟩
    (s.jobs (txt "id"))
      (s.deeds (txt "id")) := by
  obtain ⟨s, hrun, hlength⟩ : ∃ s, aliceService.run aliceService.init aliceAnswered = some s ∧ s.trail.length = 3 :=
    Machine.run_ends _ (by decide +kernel)
  exact ⟨s, hrun, hlength, service_sequential hrun (txt "id")⟩

end McpGateway
