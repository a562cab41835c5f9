import McpGateway.Closing
import McpGateway.Simulation
import McpGateway.TokenErrors
import McpGateway.WorkerPool

/-!
# The running service

All requests of an application at once, by their ids, which do not repeat. A
request passes the gates before authentication, has its key looked up by the
verifier, is decided and is relayed. The steps of different requests and of
the verifier interleave, and a trail keeps what is sent and audited.
-/

namespace McpGateway

open Unicode Json Transition

structure App where
  settings : Settings
  verifier : Option VerifierArgs
  policy : ScopePolicy
  toolPolicy : Option ToolPolicy

section
variable {Key RawKey : Type} (py : Interp) (jwt : PyJwt Key RawKey) (app : App)

def App.gateway (resolve : Text → Except VerifyError Key) : Gateway where
  settings := app.settings
  verifier := app.verifier.map fun v => decodeToken py v jwt resolve
  policy := app.policy
  toolPolicy := app.toolPolicy

def noKey (_ : Text) : Except VerifyError Key := tokenError noMatch

def headerKid (v : VerifierArgs) (token : Text) : Option Text :=
  if token.isEmpty then none
  else
    match jwt.getUnverifiedHeader token with
    | .error _ => none
    | .ok header =>
      if algAllowed v ((header.lookup (txt "alg")).getD .null) then
        match header.lookup (txt "kid") with
        | some (.str kid) => if kid.isEmpty then none else some kid
        | _ => none
      else none

def earlyGates (request : Request) (requestId : Text) : Except Stop Bytes := do
  let gw := app.gateway py jwt noKey
  let record := openRecord gw request requestId
  originGate py gw request record
  lengthGate py gw request record
  readBody py gw request record [] request.chunks

/-- The `kid` whose key the request asks for, if its gates come to that. -/
def wantedKid (request : Request) (requestId : Text) : Option Text :=
  match earlyGates py jwt app request requestId with
  | .error _ => none
  | .ok _ =>
    if app.settings.requireAuth then app.verifier.bind fun v => headerKid jwt v (bearerToken py request) else none

end

/-! ## Requests under way -/

inductive Stage
  | verifying
  | sent
  | streaming (body : BodyIter)
  | over

structure Job where
  request : Request
  stage : Stage

/-- What the service does for a request that others see. -/
inductive Deed
  | sent (id : Text) (request : UpstreamRequest)
  | audited (id : Text) (record : AuditRecord)
  | streamed (id : Text) (event : StreamEvent)
  deriving DecidableEq

structure Service (Key Raw : Type) where
  sys : Sys Text Value Key Raw
  jobs : Text → Option Job
  trail : List Deed

inductive ServiceEvent (Raw : Type)
  | arrive (id : Text) (request : Request)
  | probe (id : Text)
  | verifier (e : Event Text Value Raw)
  | decide (id : Text)
  | answer (id : Text) (answer : Except Exc UpstreamResponse)
  | pull (id : Text) (pull : Pull)

/-! PyJWT answers by the clock at the time of a request, so it is given for each id. -/

section
variable {Key RawKey Raw : Type} (py : Interp) (jwt : Text → PyJwt Key RawKey) (app : App) (cfg : CacheConfig)
  (parse : Raw → Except Thrown (Keys Value Key))

def Service.found (s : Service Key Raw) (id : Text) (request : Request) : Option (Text → Except VerifyError Key) :=
  match wantedKid py (jwt id) app request id with
  | none => some noKey
  | some _ =>
    match s.sys.threads id with
    | some (.done a) => (resolved a).map fun result _ => result
    | _ => none

def Service.tell (s : Service Key Raw) (id : Text) (request : Request) (stage : Stage) (deeds : List Deed) :
    Service Key Raw :=
  { s with jobs := Function.update s.jobs id (some ⟨request, stage⟩), trail := s.trail ++ deeds }

def Run.stage (run : Run) : Stage :=
  match run.body with
  | none => .over
  | some body => .streaming body

def BodyIter.stage (body : BodyIter) : Stage := if body.phase = .finished then .over else .streaming body

def Service.step (s : Service Key Raw) : ServiceEvent Raw → Option (Service Key Raw)
  | .arrive id request =>
    if (s.jobs id).isNone ∧ (s.sys.threads id).isNone then
      match wantedKid py (jwt id) app request id with
      | none => some (s.tell id request .verifying [])
      | some kid =>
        some { s.tell id request .verifying [] with sys := s.sys.goto id (.called (.resolve (.str kid))) }
    else none
  | .probe id =>
    if app.settings.requireAuth = true ∧ app.verifier.isSome ∧ (s.jobs id).isNone ∧ (s.sys.threads id).isNone then
      some { s with sys := s.sys.goto id (.called .ready) }
    else none
  | .verifier e => if e.isCall then none else (s.sys.step cfg parse e).map fun sys => { s with sys := sys }
  | .decide id =>
    match s.jobs id with
    | some ⟨request, .verifying⟩ =>
      match s.found py jwt app id request with
      | none => none
      | some resolve =>
        match authorize py (app.gateway py (jwt id) resolve) request id with
        | .error stop => some (s.tell id request .over (stop.emitted.map (.audited id)))
        | .ok a =>
          some (s.tell id request .sent [.sent id (upstreamRequest py (app.gateway py (jwt id) resolve) request a)])
    | _ => none
  | .answer id answer =>
    match s.jobs id with
    | some ⟨request, .sent⟩ =>
      match s.found py jwt app id request with
      | none => none
      | some resolve =>
        let run := proxyMcp py (app.gateway py (jwt id) resolve) request (fun _ => answer) id
        some (s.tell id request run.stage (run.emitted.map (.audited id)))
    | _ => none
  | .pull id pull =>
    match s.jobs id with
    | some ⟨request, .streaming body⟩ =>
      let body' := body.step app.settings.maxResponseBytes pull
      some (s.tell id request body'.stage ((body'.events.drop body.events.length).map (.streamed id)))
    | _ => none

def service (start : ℚ) : Machine (Service Key Raw) (ServiceEvent Raw) where
  init := ⟨(verifier cfg parse start).init, fun _ => none, []⟩
  step := Service.step py jwt app cfg parse

inductive ServiceSteps (s : Service Key Raw) : ServiceEvent Raw → Service Key Raw → Prop
  | arrive {id request} : s.jobs id = none → s.sys.threads id = none → wantedKid py (jwt id) app request id = none →
      ServiceSteps s (.arrive id request) (s.tell id request .verifying [])
  | ask {id request kid} : s.jobs id = none → s.sys.threads id = none →
      wantedKid py (jwt id) app request id = some kid →
      ServiceSteps s (.arrive id request)
        { s.tell id request .verifying [] with sys := s.sys.goto id (.called (.resolve (.str kid))) }
  | probe {id} : s.jobs id = none → s.sys.threads id = none →
      ServiceSteps s (.probe id) { s with sys := s.sys.goto id (.called .ready) }
  | verifier {e sys} : e.isCall = false → s.sys.step cfg parse e = some sys →
      ServiceSteps s (.verifier e) { s with sys := sys }
  | refused {id request resolve stop} : s.jobs id = some ⟨request, .verifying⟩ →
      s.found py jwt app id request = some resolve →
        authorize py (app.gateway py (jwt id) resolve) request id = .error stop →
      ServiceSteps s (.decide id) (s.tell id request .over (stop.emitted.map (.audited id)))
  | sent {id request resolve a} : s.jobs id = some ⟨request, .verifying⟩ →
      s.found py jwt app id request = some resolve →
        authorize py (app.gateway py (jwt id) resolve) request id = .ok a →
      ServiceSteps s (.decide id)
        (s.tell id request .sent [.sent id (upstreamRequest py (app.gateway py (jwt id) resolve) request a)])
  | answered {id request resolve answer run} : s.jobs id = some ⟨request, .sent⟩ →
      s.found py jwt app id request = some resolve →
      run = proxyMcp py (app.gateway py (jwt id) resolve) request (fun _ => answer) id →
      ServiceSteps s (.answer id answer) (s.tell id request run.stage (run.emitted.map (.audited id)))
  | pulled {id request body pull body'} : s.jobs id = some ⟨request, .streaming body⟩ →
      body' = body.step app.settings.maxResponseBytes pull →
      ServiceSteps s (.pull id pull)
        (s.tell id request body'.stage ((body'.events.drop body.events.length).map (.streamed id)))

end

section
variable {Key RawKey Raw : Type} {py : Interp} {jwt : Text → PyJwt Key RawKey} {app : App} {cfg : CacheConfig}
  {parse : Raw → Except Thrown (Keys Value Key)} {start : ℚ} {ok : Service Key Raw → ServiceEvent Raw → Prop}
  {s s' : Service Key Raw} {e : ServiceEvent Raw}

theorem serviceSteps_of_step (h : s.step py jwt app cfg parse e = some s') :
    ServiceSteps py jwt app cfg parse s e s' := by
  cases e with
  | arrive id request =>
    rw [Service.step] at h
    split at h
    · rename_i hfree
      simp only [Option.isNone_iff_eq_none] at hfree
      split at h <;> cases h
      · rename_i hkid
        exact .arrive hfree.1 hfree.2 hkid
      · rename_i kid hkid
        exact .ask hfree.1 hfree.2 hkid
    · cases h
  | probe id =>
    rw [Service.step] at h
    split at h
    · rename_i hfree
      simp only [Option.isNone_iff_eq_none] at hfree
      cases h
      exact .probe hfree.2.2.1 hfree.2.2.2
    · cases h
  | verifier e =>
    rw [Service.step] at h
    split at h
    · cases h
    · rename_i hcall
      obtain ⟨sys, hs, rfl⟩ := Option.map_eq_some_iff.mp h
      exact .verifier (by simpa using hcall) hs
  | decide id =>
    rw [Service.step] at h
    split at h
    · rename_i request hjob
      split at h
      · cases h
      · rename_i resolve hfound
        split at h <;> cases h
        · rename_i stop hstop
          exact .refused hjob hfound hstop
        · rename_i a ha
          exact .sent hjob hfound ha
    · cases h
  | answer id answer =>
    rw [Service.step] at h
    split at h
    · rename_i request hjob
      split at h
      · cases h
      · rename_i resolve hfound
        cases h
        exact .answered hjob hfound rfl
    · cases h
  | pull id pull =>
    rw [Service.step] at h
    split at h
    · rename_i request body hjob
      cases h
      exact .pulled hjob rfl
    · cases h

/-! ## The verifier within -/

/-- The service uses the verifier by its own steps. -/
theorem sys_step (hs : ServiceSteps py jwt app cfg parse s e s') :
    s'.sys = s.sys ∨ ∃ e', s.sys.step cfg parse e' = some s'.sys := by
  cases hs with
  | arrive _ _ _ => exact Or.inl rfl
  | @ask id request kid _ hfree _ => exact Or.inr ⟨.call id (.resolve (.str kid)), by simp [Sys.step, hfree]⟩
  | @probe id _ hfree => exact Or.inr ⟨.call id .ready, by simp [Sys.step, hfree]⟩
  | @verifier e sys _ hsys => exact Or.inr ⟨e, hsys⟩
  | refused _ _ _ => exact Or.inl rfl
  | sent _ _ _ => exact Or.inl rfl
  | answered _ _ _ => exact Or.inl rfl
  | pulled _ _ => exact Or.inl rfl

theorem service_refines : Refines (service py jwt app cfg parse start) ok (verifier cfg parse start)
    (fun _ _ => True) Service.sys := by
  refine ⟨rfl, ?_⟩
  intro s e s' _ _ hs
  rcases sys_step (serviceSteps_of_step hs) with hsame | ⟨e', he'⟩
  · exact Or.inl hsame
  · exact Or.inr ⟨e', trivial, he'⟩

end

end McpGateway
