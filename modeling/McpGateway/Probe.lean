import McpGateway.Attempts
import McpGateway.Disclosure
import McpGateway.Readiness
import McpGateway.ServiceTrust

/-!
# The readiness probe

`/readyz` answers by `ready`. After a positive answer the keys of the document
it went by are found at once until the document is past its TTL, whatever is
fetched in vain meanwhile.
-/

namespace McpGateway

open Unicode Json Transition

/-! ## The handler -/

section
variable (py : Interp) (app : App)

/-- `readyz`, with what `verifier.ready` returns or raises. -/
def readyz (ready : Except Exc Bool) : Except Exc Response :=
  let answer (ready : Bool) := jsonResponse py (if ready then 200 else 503)
    [(txt "status", .str (if ready then txt "ready" else txt "not_ready"))] []
  if app.settings.requireAuth then
    match app.verifier with
    | none => answer false
    | some _ =>
      match ready with
      | .error e => .error e
      | .ok ready => answer ready
  else answer true

def probed {Key : Type} (a : Answer Key) : Option (Except Exc Bool) :=
  match a with
  | .ready b => some (.ok b)
  | .thrown e => some (.error (.other e.cls))
  | _ => none

end

section
variable {py : Interp} {app : App} {response : Response}

/-- With authentication on, 200 means that there is a verifier and that it is ready. -/
theorem readyz_ready (hauth : app.settings.requireAuth = true) {ready : Except Exc Bool}
    (h : readyz py app ready = .ok response) (hstatus : response.status = 200) : app.verifier.isSome = true ∧
    ready = .ok true := by
  simp only [readyz, if_pos hauth] at h
  cases hv : app.verifier with
  | none =>
    simp only [hv] at h
    rw [jsonResponse_status h] at hstatus
    cases hstatus
  | some v =>
    simp only [hv] at h
    refine ⟨rfl, ?_⟩
    cases ready with
    | error e => cases h
    | ok b =>
      rw [jsonResponse_status h] at hstatus
      cases b with
      | true => rfl
      | false => cases hstatus

end

/-! ## A ready verifier -/

section
variable {Tid Kid Key Raw : Type} [DecidableEq Tid] [DecidableEq Kid] {cfg : CacheConfig}
  {parse : Raw → Except Thrown (Keys Kid Key)} {start : ℚ} {ok : Sys Tid Kid Key Raw → Event Tid Kid Raw → Prop}
  {s : Sys Tid Kid Key Raw} {keys : Keys Kid Key} {e : ℚ}

omit [DecidableEq Tid] [DecidableEq Kid] in
theorem installed_completed {log : List (Entry Tid Kid Key Raw)}
    (h : latest (installed parse) log = some (keys, e)) :
    ∃ t since outcome, .completed t since e outcome ∈ log := by
  obtain ⟨x, hx, hi⟩ := latest_mem h
  cases x with
  | completed t since now outcome =>
    obtain ⟨_, _, heq⟩ := Option.map_eq_some_iff.mp hi
    cases heq
    exact ⟨t, since, outcome, hx⟩
  | started t now => cases hi
  | answered t op a ground => cases hi

/-- Within the TTL of the latest document, a call for one of its keys enters and is answered with it, also when a
refresh has failed since or is under way. -/
theorem listed_answered (httl : 0 < cfg.ttl) (h : Reachable (verifier cfg parse start) ok s)
    (hl : latest (installed parse) s.log = some (keys, e)) {t : Tid} {kid : Kid} {key : Key} {now now' : ℚ}
    (ht : s.threads t = some (.called (.resolve kid))) (hk : keys.lookup kid = some key) (hc : s.clock ≤ now)
    (hn : now ≤ now') (hle : now - e ≤ cfg.ttl) :
    s.step cfg parse (.enter t now now') = some
    ({ s with clock := now' }.answer t (.resolve kid) (.key key) (.held now')) := by
  have ha := authoritative_reachable h
  have hkeys : s.cache.keys = keys := by
    rw [ha.keys, authority_installed, hl]
    rfl
  obtain ⟨t', since, outcome, hmem⟩ := installed_completed hl
  obtain ⟨_, l, hlast, hel⟩ := (attempts_reachable h).completed t' since e outcome hmem
  have hfresh : fresh cfg s.cache now = true := by
    have hwithin : now - l ≤ cfg.ttl := by linarith
    rw [fresh, hlast, withinTtl, decide_eq_true hwithin, decide_eq_true httl]
    rfl
  have hdec : enterResolve cfg s.cache now now' kid = .answer (.key key) := by
    rw [enterResolve, hkeys, hk]
    exact if_pos hfresh
  rw [Sys.step, ht]
  simp only [hc, hn, and_self, if_true, hdec]
  rfl

end

/-! ## After a positive answer -/

section
variable {Key RawKey Raw : Type} {py : Interp} {jwt : Text → PyJwt Key RawKey} {app : App} {cfg : CacheConfig}
  {parse : Raw → Except Thrown (Keys Value Key)} {start : ℚ} {s : Service Key Raw}

/-- After a 200 of `/readyz` with authentication on, and until another document is installed or this one is past
its TTL, every request for one of its keys finds the key in its first section. -/
theorem ready_serves (h : Reachable (service py jwt app cfg parse start) (fun _ _ => True) s) (httl : 0 < cfg.ttl)
    (hauth : app.settings.requireAuth = true) {pre post : List (Entry Text Value Key Raw)} {id : Text}
    {a : Answer Key} {ground : Ground} (hlog : s.sys.log = pre ++ .answered id .ready a ground :: post)
    (hlater : ∀ x ∈ post, installed parse x = none) {ready : Except Exc Bool} (hprobed : probed a = some ready)
    {response : Response} (hresponse : readyz py app ready = .ok response) (hstatus : response.status = 200) :
    ∃ keys e, keys ≠ [] ∧ latest (installed parse) pre = some (keys, e) ∧
      ∀ id' request kid key now now', wantedKid py (jwt id') app request id' = some kid →
        s.sys.threads id' = some (.called (.resolve (.str kid))) → keys.lookup (.str kid) = some key →
        s.sys.clock ≤ now → now ≤ now' → now - e ≤ cfg.ttl →
        ∃ s', (service py jwt app cfg parse start).step s (.verifier (.enter id' now now')) = some s' ∧
          s'.found py jwt app id' request = some (fun _ => .ok key) := by
  have ha : a = .ready true := by
    obtain ⟨_, rfl⟩ := readyz_ready hauth hresponse hstatus
    cases a <;> cases hprobed
    rfl
  subst ha
  have hsys := service_sys h
  obtain ⟨keys, e, hne, hl, _⟩ := readyTrue_reachable hsys pre _ post hlog id ground rfl
  have hlatest : latest (installed parse) s.sys.log = some (keys, e) := by
    have hx : installed parse (.answered id .ready (.ready true) ground : Entry Text Value Key Raw) = none := rfl
    have hpost : latest (installed parse) post = none :=
      List.findSome?_eq_none_iff.mpr fun x hx => hlater x (List.mem_reverse.mp hx)
    rw [hlog, List.append_cons, latest_append, hpost, latest_snoc, hx, hl]
    rfl
  refine ⟨keys, e, hne, hl, ?_⟩
  intro id' request kid key now now' hwanted ht hk hc hn hle
  have hstep := listed_answered httl hsys hlatest ht hk hc hn hle
  refine ⟨{ s with sys := { s.sys with clock := now' }.answer id' (.resolve (.str kid)) (.key key) (.held now') },
    ?_, ?_⟩
  · change s.step py jwt app cfg parse (.verifier (.enter id' now now')) = _
    rw [Service.step, hstep]
    rfl
  · have hdone : ({ s.sys with clock := now' }.answer id' (.resolve (.str kid)) (.key key) (.held now')).threads
      id' =
        some (.done (.key key)) := Function.update_self ..
    rw [Service.found, hwanted]
    simp only [hdone]
    rfl

end

def probedFirst : List (ServiceEvent (Keys Value Nat)) :=
  [.probe (txt "probe"), .verifier (.probe (txt "probe") 0), .verifier (.fetchStart (txt "probe") 1),
    .verifier (.fetchEnd (txt "probe") 2 (.body [(.str (txt "k1"), 70)])), .verifier (.complete (txt "probe") 3),
    .arrive (txt "id") plainPing]

theorem ready_serves_alice : ∃ s s', aliceService.run aliceService.init probedFirst = some s ∧
    aliceService.step s (.verifier (.enter (txt "id") 200 200)) = some s' ∧
    s'.found .ascii (fun _ => aliceJwt) aliceApp (txt "id") plainPing = some (fun _ => .ok 70) := by
  obtain ⟨s, hrun, hlog, hthread, hclock⟩ : ∃ s, aliceService.run aliceService.init probedFirst = some s ∧
      s.sys.log = [.started (txt "probe") 1, .completed (txt "probe") 1 3 (.body [(.str (txt "k1"), 70)])] ++
        .answered (txt "probe") .ready (.ready true) (.fetch 1) :: [] ∧
      s.sys.threads (txt "id") = some (.called (.resolve (.str (txt "k1")))) ∧ s.sys.clock ≤ 200 :=
    Machine.run_ends _ (by decide +kernel)
  obtain ⟨keys, e, _, hl, hserves⟩ := ready_serves (.run (fun _ _ => trivial) .init hrun) (by decide) rfl hlog
    (fun x hx => (by cases hx)) rfl rfl rfl
  cases hl
  obtain ⟨s', hstep, hfound⟩ := hserves (txt "id") plainPing (txt "k1") 70 200 200
    (by decide +kernel) hthread (by decide)
    hclock (le_refl _) (by decide +kernel)
  exact ⟨s, s', hrun, hstep, hfound⟩

end McpGateway
