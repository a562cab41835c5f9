import McpGateway.Forwarding
import McpGateway.Stream

/-!
# Closing the upstream

The handler closes an opened response itself, or leaves that to the generator
of a streamed body. The framework may never start the generator.
-/

namespace McpGateway

open Unicode Json

/-! ## A request to its end -/

def Run.body (run : Run) : Option BodyIter :=
  match run.outcome with
  | .error _ => none
  | .ok response =>
    match response.body with
    | .content _ => none
    | .stream chunks ending => run.emitted.head?.map fun record => .start record chunks ending

/-- The calls of `__aexit__`, by the handler and by the generator. -/
def Run.closes (run : Run) (cap : Int) (pulls : List Pull) : Nat :=
  match run.body with
  | none => run.closed
  | some body => run.closed + (body.run cap pulls).closed

/-- The generator is finished, or discarded without a pull. -/
def Run.Over (run : Run) (cap : Int) (pulls : List Pull) : Prop :=
  ∀ body, run.body = some body → (body.run cap pulls).phase = .finished ∨ pulls = []

def Started (pulls : List Pull) : Prop := ∃ pull rest, pulls = pull :: rest ∧ pull ≠ .close

section
variable (py : Interp) (gw : Gateway) (a : Authorized) (up : UpstreamResponse)

/-- The response is a tools/list page to filter. -/
def Filters : Prop := gw.toolPolicy.isSome = true ∧ a.parsed.method = some (txt "tools/list") ∧ up.status = 200

def DeclaresMore : Prop :=
  0 < gw.settings.maxResponseBytes ∧ ∃ declared n, up.headers.lookup (txt "content-length") = some declared ∧
    py.isdigit declared = true ∧ py.int declared = .ok n ∧ gw.settings.maxResponseBytes < n

def DeclarationRaises : Prop :=
  0 < gw.settings.maxResponseBytes ∧ ∃ declared e, up.headers.lookup (txt "content-length") = some declared ∧
    py.isdigit declared = true ∧ py.int declared = .error e

def Latin1 (s : Text) : Prop := ∀ c ∈ s, c.val < 0x100

def relayedHeaders : List (Text × Text) := dictOf (up.headers.filter fun h => py.lower h.1 ∉ hopByHop)

def RelaysLatin1 : Prop :=
  (∀ h ∈ relayedHeaders py up, Latin1 h.1 ∧ Latin1 h.2) ∧ ∀ s, up.headers.lookup (txt "content-type") = some s →
    Latin1 s

/-- When an opened response is closed. -/
def Closes (pulls : List Pull) : Prop :=
  Filters gw a up ∨ DeclaresMore py gw up ∨ (¬ DeclarationRaises py gw up ∧ RelaysLatin1 py up ∧ Started pulls)

end

/-! ## The handler -/

section
variable {py : Interp} {gw : Gateway} {a : Authorized} {up : UpstreamResponse}

theorem relayFiltered_closed (policy : ToolPolicy) : (relayFiltered py gw policy a up).closed = 1 := by
  rw [relayFiltered]
  dsimp only
  split
  · rfl
  split
  · rfl
  · rfl
  · rfl
  split
  · rfl
  split
  · rfl
  · rfl

theorem respond_ok {status : Nat} {headers : List (Text × Text)} {mediaType : Option Text} {body : Body}
    {response : Response}
    (h : respond status headers mediaType body = .ok response) : response = ⟨status, headers, mediaType, body⟩ := by
  rw [respond] at h
  split at h
  · cases h
    rfl
  · cases h

theorem respond_iff {status : Nat} {headers : List (Text × Text)} {mediaType : Option Text} {body : Body} :
    (∃ response, respond status headers mediaType body = .ok response) ↔
      (∀ h ∈ headers, Latin1 h.1 ∧ Latin1 h.2) ∧ ∀ s, mediaType = some s → Latin1 s := by
  have hall : (headers.all fun h => (h.1.all fun c => c.val < 0x100) && h.2.all fun c => c.val < 0x100) = true ↔
      ∀ h ∈ headers, Latin1 h.1 ∧ Latin1 h.2 := by
    simp [Latin1]
  have hmedia : ((mediaType.getD []).all fun c => c.val < 0x100) = true ↔ ∀ s, mediaType = some s → Latin1 s := by
    cases mediaType <;> simp [Latin1]
  rw [respond, ← hall, ← hmedia, ← Bool.and_eq_true]
  split
  · rename_i h
    exact iff_of_true ⟨_, rfl⟩ h
  · rename_i h
    exact iff_of_false (fun ⟨_, hr⟩ => by cases hr) h

theorem jsonResponse_content {status : Nat} {content : List (Text × Value)} {headers : List (Text × Text)}
    {response : Response}
    (h : jsonResponse py status content headers = .ok response) : ∃ b, response.body = .content b := by
  rw [jsonResponse] at h
  split at h
  · cases h
  · rename_i b _
    rw [respond_ok h]
    exact ⟨b, rfl⟩

theorem relayFiltered_content {policy : ToolPolicy} {response : Response}
    (h : (relayFiltered py gw policy a up).outcome = .ok response) : ∃ b, response.body = .content b := by
  rw [relayFiltered] at h
  dsimp only at h
  split at h
  · exact jsonResponse_content h
  split at h
  · cases h
  · exact jsonResponse_content h
  · exact jsonResponse_content h
  split at h
  · cases h
  split at h
  · rw [respond_ok h]
    exact ⟨_, rfl⟩
  · exact jsonResponse_content h

theorem overCap_error : (∃ e, overCap py gw up = .error e) ↔ DeclarationRaises py gw up := by
  rw [overCap, DeclarationRaises]
  by_cases hcap : 0 < gw.settings.maxResponseBytes
  · rw [if_pos hcap]
    cases up.headers.lookup (txt "content-length") with
    | none => simp
    | some declared =>
      dsimp only
      cases hdigit : py.isdigit declared with
      | false => simp [hdigit]
      | true =>
        simp only [if_true]
        cases hint : py.int declared <;> simp [hcap, hdigit, hint]
  · rw [if_neg hcap]
    simp [hcap]

theorem overCap_true : overCap py gw up = .ok true ↔ DeclaresMore py gw up := by
  rw [overCap, DeclaresMore]
  by_cases hcap : 0 < gw.settings.maxResponseBytes
  · rw [if_pos hcap]
    cases up.headers.lookup (txt "content-length") with
    | none => simp
    | some declared =>
      dsimp only
      cases hdigit : py.isdigit declared with
      | false => simp [hdigit]
      | true =>
        simp only [if_true]
        cases hint : py.int declared <;> simp [hcap, hdigit, hint]
  · rw [if_neg hcap]
    simp [hcap]

/-! ## The generator -/

namespace BodyIter

variable {cap : Int} {s : BodyIter} {pull : Pull}

/-- A started generator that has not ended is suspended and has closed nothing; one that ends closes once. -/
theorem step_closed (hphase : s.phase ≠ .finished) (hclosed : s.closed = 0)
    (hstarted : ¬ (s.phase = .created ∧ pull = .close)) :
    ((s.step cap pull).phase = .suspended ∧ (s.step cap pull).closed = 0) ∨
      ((s.step cap pull).phase = .finished ∧ (s.step cap pull).closed = 1) := by
  have ht : Turn cap s pull (s.step cap pull) := step_turn hphase
  generalize s.step cap pull = s' at ht
  cases ht with
  | delivered => exact Or.inl ⟨rfl, hclosed⟩
  | overflow => exact Or.inr ⟨rfl, by simp [hclosed]⟩
  | ended => exact Or.inr ⟨rfl, by simp [hclosed]⟩
  | failed => exact Or.inr ⟨fail_phase, by simp [hclosed]⟩
  | gone => exact Or.inr ⟨rfl, by simp [hclosed]⟩
  | cancelled => exact Or.inr ⟨fail_phase, by simp [hclosed]⟩
  | discarded hcreated => exact absurd ⟨hcreated, rfl⟩ hstarted

/-- Once started, a generator has closed exactly when it is finished. -/
theorem run_closed {pulls : List Pull} (h : (s.phase = .suspended ∧ s.closed = 0) ∨
    (s.phase = .finished ∧ s.closed = 1))
    (hover : (s.run cap pulls).phase = .finished) : (s.run cap pulls).closed = 1 := by
  induction pulls generalizing s with
  | nil =>
    cases h with
    | inl hsuspended => cases hsuspended.1.symm.trans hover
    | inr hfinished => exact hfinished.2
  | cons pull pulls ih =>
    cases h with
    | inl hsuspended =>
      refine ih (step_closed ?_ hsuspended.2 ?_) hover
      · rw [hsuspended.1]
        decide
      · rw [hsuspended.1]
        exact fun hcreated => by cases hcreated.1
    | inr hfinished =>
      rw [run_finished hfinished.1]
      exact hfinished.2

theorem start_closed {record : AuditRecord} {chunks : List Bytes} {ending : Option Exc} {pulls : List Pull}
    (hover : ((start record chunks ending).run cap pulls).phase = .finished ∨ pulls = []) :
    ((start record chunks ending).run cap pulls).closed = 1 ↔ Started pulls := by
  cases pulls with
  | nil => exact iff_of_false Nat.zero_ne_one fun ⟨_, _, h, _⟩ => by cases h
  | cons pull pulls =>
    by_cases hclose : pull = .close
    · have hdiscard : (start record chunks ending).run cap (pull :: pulls) =
        { start record chunks ending with phase := .finished } := by
        rw [hclose]
        exact run_finished rfl pulls
      rw [hdiscard]
      refine iff_of_false Nat.zero_ne_one ?_
      intro ⟨_, _, h, hne⟩
      cases h
      exact hne hclose
    · refine iff_of_true ?_ ⟨pull, pulls, rfl, hclose⟩
      have hfirst : (start record chunks ending).run cap (pull :: pulls) =
        ((start record chunks ending).step cap pull).run cap pulls := rfl
      rw [hfirst] at hover ⊢
      cases hover with
      | inl hfinished =>
        refine run_closed (step_closed ?_ rfl fun h => hclose h.2) hfinished
        exact Phase.noConfusion
      | inr hnil => cases hnil

end BodyIter

/-! ## The whole request -/

theorem relay_filters (h : Filters gw a up) :
    ∃ policy, gw.toolPolicy = some policy ∧ relay py gw a up = relayFiltered py gw policy a up := by
  obtain ⟨hpolicy, hcall⟩ := h
  obtain ⟨policy, hpolicy⟩ := Option.isSome_iff_exists.mp hpolicy
  refine ⟨policy, hpolicy, ?_⟩
  rw [relay, hpolicy]
  exact if_pos hcall

theorem relay_streams (h : ¬ Filters gw a up) : relay py gw a up = relayStreamed py gw a up := by
  rw [relay]
  cases hpolicy : gw.toolPolicy with
  | none => rfl
  | some policy => exact if_neg fun hcall => h ⟨by rw [hpolicy]; rfl, hcall⟩

theorem body_none {run : Run} (h : ∀ response, run.outcome = .ok response → ∃ b, response.body = .content b) :
    run.body = none := by
  rw [Run.body]
  cases houtcome : run.outcome with
  | error e => rfl
  | ok response =>
    obtain ⟨b, hb⟩ := h response houtcome
    dsimp only
    rw [hb]

theorem closes_none {run : Run} {cap : Int} {pulls : List Pull}
    (h : ∀ response, run.outcome = .ok response → ∃ b, response.body = .content b) :
    run.closes cap pulls = run.closed := by
  rw [Run.closes, body_none h]

variable {request : Request} {upstream : UpstreamRequest → Except Exc UpstreamResponse} {requestId : Text}

def relayRun (py : Interp) (gw : Gateway) (request : Request) (a : Authorized) (up : UpstreamResponse) : Run :=
  ⟨[upstreamRequest py gw request a], (relay py gw a up).emitted, (relay py gw a up).closed,
    (relay py gw a up).outcome⟩

theorem proxyMcp_relay (ha : authorize py gw request requestId = .ok a)
    (hup : upstream (upstreamRequest py gw request a) = .ok up) :
    proxyMcp py gw request upstream requestId = relayRun py gw request a up := by
  rw [proxyMcp, ha]
  dsimp only
  rw [hup]
  rfl

/-- An opened response is closed once exactly when the handler or a started generator closes it. -/
theorem closes_iff (ha : authorize py gw request requestId = .ok a)
    (hup : upstream (upstreamRequest py gw request a) = .ok up)
    {pulls : List Pull} (hover : (proxyMcp py gw request upstream requestId).Over
    gw.settings.maxResponseBytes pulls) :
    (proxyMcp py gw request upstream requestId).closes gw.settings.maxResponseBytes pulls = 1 ↔
    Closes py gw a up pulls := by
  rw [proxyMcp_relay ha hup] at hover ⊢
  by_cases hfilters : Filters gw a up
  · obtain ⟨policy, _, hrelay⟩ := relay_filters hfilters
    rw [relayRun, hrelay, closes_none fun response => relayFiltered_content]
    exact iff_of_true (relayFiltered_closed policy) (Or.inl hfilters)
  have hcloses : Closes py gw a up pulls ↔
      DeclaresMore py gw up ∨ (¬ DeclarationRaises py gw up ∧ RelaysLatin1 py up ∧ Started pulls) :=
        or_iff_right hfilters
  rw [hcloses, ← overCap_true, ← overCap_error]
  rw [relayRun, relay_streams hfilters, relayStreamed] at hover ⊢
  cases hcap : overCap py gw up with
  | error e =>
    rw [closes_none fun _ h => by cases h]
    refine iff_of_false Nat.zero_ne_one ?_
    intro h
    cases h with
    | inl hmore => cases hmore
    | inr hstream => exact hstream.1 ⟨e, rfl⟩
  | ok more =>
    cases more with
    | true =>
      rw [closes_none fun _ => jsonResponse_content]
      exact iff_of_true rfl (Or.inl rfl)
    | false =>
      rw [hcap] at hover
      have hlatin : (∃ response, respond up.status (relayedHeaders py up) (up.headers.lookup (txt "content-type"))
          (.stream up.raw up.rawEnd) = .ok response) ↔ RelaysLatin1 py up := respond_iff
      simp only [relayedHeaders] at hlatin
      simp only [reduceCtorEq, Except.ok.injEq, Bool.false_eq_true, exists_false, false_or,
        not_false_eq_true, true_and]
      dsimp only at hover ⊢
      cases hrespond : respond up.status (dictOf (up.headers.filter fun h => py.lower h.1 ∉ hopByHop))
          (up.headers.lookup (txt "content-type")) (.stream up.raw up.rawEnd) with
      | error e =>
        rw [closes_none fun _ h => by cases h]
        refine iff_of_false Nat.zero_ne_one ?_
        intro h
        obtain ⟨response, hresponse⟩ := hlatin.mpr h.1
        cases hrespond.symm.trans hresponse
      | ok response =>
        rw [and_iff_right (hlatin.mp ⟨response, hrespond⟩)]
        rw [hrespond, respond_ok hrespond] at hover
        rw [respond_ok hrespond, Run.closes]
        have hgenerator := hover _ rfl
        rw [← BodyIter.start_closed hgenerator]
        dsimp only [Run.body, List.head?_cons, Option.map_some]
        rw [Nat.zero_add]

end

/-! ## A header outside Latin-1 -/

def euro : Text := [⟨0x20AC, by decide⟩]

/-- An answer to a ping, with a header that the upstream sent as UTF-8. -/
def euroPong : UpstreamResponse := ⟨200, [(txt "x-price", euro)], [ascii "pong"], none, [ascii "pong"], none⟩

def plainPong : UpstreamResponse := ⟨200, [(txt "x-price", txt "1")], [ascii "pong"], none, [ascii "pong"], none⟩

def pongRun (up : UpstreamResponse) : Run := proxyMcp .ascii devGateway plainPing (fun _ => .ok up) hexId

theorem ping_authorized : ∃ a, authorize .ascii devGateway plainPing hexId = .ok a := by
  have hv : Authenticates .ascii devGateway plainPing none := Or.inl ⟨rfl, rfl⟩
  have hparse : parseJsonrpc .ascii plainPing.chunks.flatten =
      .ok { method := some (txt "ping"), canonicalBody := some (ascii "\x7b\"method\":\"ping\"\x7d") } := by
    decide +kernel
  obtain ⟨a, ha, _⟩ := authorize_bare rfl rfl (by decide) rfl hv hparse rfl (by decide +kernel)
    (fun _ h => by cases h) hexId
  exact ⟨a, ha⟩

/-- A client that is gone before the first chunk. -/
theorem closes_iff_gone : ¬ (pongRun plainPong).closes devGateway.settings.maxResponseBytes [] = 1 := by
  obtain ⟨a, ha⟩ := ping_authorized
  have hover : (pongRun plainPong).Over devGateway.settings.maxResponseBytes [] := fun _ _ => Or.inr rfl
  intro hcloses
  have hcond : Closes .ascii devGateway a plainPong [] := (closes_iff ha rfl hover).mp hcloses
  obtain hfilters | hmore | hstarted := hcond
  · cases hfilters.1
  · obtain ⟨_, declared, n, hdeclared, _⟩ := hmore
    cases hdeclared
  · obtain ⟨_, _, pull, rest, hpulls, _⟩ := hstarted
    cases hpulls

theorem euro_not_closed : ¬ ∀ py gw request upstream requestId a up pulls,
    authorize py gw request requestId = .ok a → upstream (upstreamRequest py gw request a) = .ok up →
    (proxyMcp py gw request upstream requestId).Over gw.settings.maxResponseBytes pulls →
    (proxyMcp py gw request upstream requestId).closes gw.settings.maxResponseBytes pulls = 1 := by
  intro h
  obtain ⟨a, ha⟩ := ping_authorized
  have hbody : (pongRun euroPong).body = none := by decide +kernel
  have hcloses := h .ascii devGateway plainPing (fun _ => .ok euroPong) hexId a euroPong [.next, .next] ha rfl
    (fun body hb => by cases hbody.symm.trans hb)
  revert hcloses
  decide +kernel

end McpGateway
