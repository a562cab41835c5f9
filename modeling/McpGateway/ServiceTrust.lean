import McpGateway.Mediation
import McpGateway.Service

/-!
# Who a forwarded request is from

A request is sent upstream only for a token that decodes under the key that
the key set in force listed for its `kid`. A key that is gone from the key set
admits nobody whose key had not been found before.
-/

namespace McpGateway

open Unicode Json Transition

/-! ## The work of a thread -/

section
variable {Tid Kid Key Raw : Type}

def Pc.op : Pc Kid Key Raw → Option (Op Kid)
  | .called op => some op
  | .parked op => some op
  | .notified op => some op
  | .timedOut op => some op
  | .claimed op => some op
  | .fetching op _ => some op
  | .fetched op _ _ => some op
  | .reread kid _ => some (.resolve kid)
  | .done _ => none

def Serves (threads : Tid → Option (Pc Kid Key Raw)) (log : List (Entry Tid Kid Key Raw)) (t : Tid)
    (op : Op Kid) : Prop :=
  (∃ pc, threads t = some pc ∧ pc.op = some op) ∨
    ∃ a ground, threads t = some (.done a) ∧ .answered t op a ground ∈ log

variable {threads : Tid → Option (Pc Kid Key Raw)} {log : List (Entry Tid Kid Key Raw)} {t u : Tid} {op o : Op Kid}
  {pc pc' : Pc Kid Key Raw}

theorem Serves.grow (h : Serves threads log t op) (x : Entry Tid Kid Key Raw) :
    Serves threads (log ++ [x]) t op := by
  rcases h with hwork | ⟨a, ground, hdone, hmem⟩
  · exact Or.inl hwork
  · exact Or.inr ⟨a, ground, hdone, List.mem_append_left _ hmem⟩

theorem Serves.notify (h : Serves threads log t op) : Serves (notifyAll threads) log t op := by
  rcases h with ⟨pc, ht, hpc⟩ | ⟨a, ground, hdone, hmem⟩
  · refine Or.inl ?_
    rw [notifyAll, ht]
    cases pc with
    | parked o => exact ⟨_, rfl, hpc⟩
    | _ => exact ⟨_, rfl, hpc⟩
  · refine Or.inr ⟨a, ground, ?_, hmem⟩
    rw [notifyAll, hdone]

variable [DecidableEq Tid]

theorem Serves.other (h : Serves threads log t op) (hne : t ≠ u) (pc : Pc Kid Key Raw) :
    Serves (Function.update threads u (some pc)) log t op := by
  rw [Serves, Function.update_of_ne hne]
  exact h

theorem Serves.move (h : Serves threads log t op) (hu : threads u = some pc) (hpc : pc.op = some o)
    (hpc' : pc'.op = some o) :
    Serves (Function.update threads u (some pc')) log t op := by
  by_cases hne : t = u
  · subst hne
    rw [Serves, Function.update_self]
    rcases h with ⟨pc'', ht, hop⟩ | ⟨a, ground, hdone, _⟩
    · cases hu.symm.trans ht
      exact Or.inl ⟨pc', rfl, hpc'.trans (hpc.symm.trans hop)⟩
    · cases hu.symm.trans hdone
      cases hpc
  · exact h.other hne pc'

theorem Serves.answer (h : Serves threads log t op) (hu : threads u = some pc) (hpc : pc.op = some o)
    (a : Answer Key) (ground : Ground) : Serves (Function.update threads u (some (.done a)))
    (log ++ [.answered u o a ground]) t op := by
  by_cases hne : t = u
  · subst hne
    rw [Serves, Function.update_self]
    rcases h with ⟨pc', ht, hop⟩ | ⟨a', ground', hdone, _⟩
    · cases hu.symm.trans ht
      cases hpc.symm.trans hop
      exact Or.inr ⟨a, ground, rfl, List.mem_append_right _ (List.mem_singleton.mpr rfl)⟩
    · cases hu.symm.trans hdone
      cases hpc
  · exact (h.grow _).other hne _

end

section
variable {Tid Kid Key Raw : Type} [DecidableEq Tid] [DecidableEq Kid] {cfg : CacheConfig}
  {parse : Raw → Except Thrown (Keys Kid Key)} {s s' : Sys Tid Kid Key Raw} {e : Event Tid Kid Raw}
  {t : Tid} {op : Op Kid}

omit [DecidableEq Tid] in
theorem section_op {clock now : ℚ} {c : Cache Kid Key} {pc : Pc Kid Key Raw} {d : Decision Key}
    (h : Section cfg clock c pc op now d) : pc.op = some op := by
  cases h <;> rfl

theorem serves_step (h : Serves s.threads s.log t op) (hs : Steps cfg parse s e s') :
    Serves s'.threads s'.log t op := by
  cases hs with
  | @call u o hu =>
    refine h.other (fun he => ?_) _
    rcases h with ⟨pc, ht, _⟩ | ⟨a, ground, ht, _⟩ <;> rw [he, hu] at ht <;> cases ht
  | @held _ u pc o now d hu hsec _ =>
    have hop := section_op hsec
    cases d with
    | answer a => exact h.answer hu hop a (.held now)
    | wait => exact h.move hu hop rfl
    | claim => exact h.move hu hop rfl
  | timeout hu => exact h.move hu rfl rfl
  | expire hu => exact h.answer hu rfl _ _
  | fetchStart hu _ => exact (h.move hu rfl rfl).grow _
  | fetchEnd hu _ => exact h.move hu rfl rfl
  | @complete u o since now outcome _ hu _ hfin =>
    have hl : Serves (s.land parse u since now outcome).threads (s.land parse u since now outcome).log t op :=
      h.notify.grow _
    have hu' : (s.land parse u since now outcome).threads u = some (.fetched o since outcome) := by
      simp only [Sys.land, notifyAll, hu]
    cases hfin with
    | ready => exact hl.answer hu' rfl _ _
    | failed _ => exact hl.answer hu' rfl _ _
    | reread _ => exact hl.move hu' rfl rfl
  | found hu _ => exact h.answer hu rfl _ _
  | missing hu _ => exact h.answer hu rfl _ _

theorem done_step {a : Answer Key} (h : s.threads t = some (.done a)) (hs : Steps cfg parse s e s') :
    s'.threads t = some (.done a) := by
  have hmoved : ∀ {threads : Tid → Option (Pc Kid Key Raw)} {u : Tid} {pc pc' : Pc Kid Key Raw},
      threads t = some (.done a) → threads u = some pc → pc.op.isSome →
        Function.update threads u (some pc') t = some (.done a) := by
    intro threads u pc pc' ht hu hop
    have hne : t ≠ u := by
      rintro rfl
      cases ht.symm.trans hu
      cases hop
    rw [Function.update_of_ne hne]
    exact ht
  cases hs with
  | @call u o hu =>
    have hne : t ≠ u := by
      rintro rfl
      cases h.symm.trans hu
    exact (Function.update_of_ne hne _ _).trans h
  | @held _ u pc o now d hu hsec _ =>
    have hop := Option.isSome_of_eq_some (section_op hsec)
    cases d with
    | answer a => exact hmoved h hu hop
    | wait => exact hmoved h hu hop
    | claim => exact hmoved h hu hop
  | timeout hu => exact hmoved h hu rfl
  | expire hu => exact hmoved h hu rfl
  | fetchStart hu _ => exact hmoved h hu rfl
  | fetchEnd hu _ => exact hmoved h hu rfl
  | @complete u o since now outcome _ hu _ hfin =>
    have ht : (s.land parse u since now outcome).threads t = some (.done a) := by
      simp only [Sys.land, notifyAll, h]
    have hu' : (s.land parse u since now outcome).threads u = some (.fetched o since outcome) := by
      simp only [Sys.land, notifyAll, hu]
    cases hfin with
    | ready => exact hmoved ht hu' rfl
    | failed _ => exact hmoved ht hu' rfl
    | reread _ => exact hmoved ht hu' rfl
  | found hu _ => exact hmoved h hu rfl
  | missing hu _ => exact hmoved h hu rfl

theorem log_step (hs : Steps cfg parse s e s') : s.log <+: s'.log := by
  cases hs with
  | call _ => exact List.prefix_refl _
  | @held _ u pc o now d _ _ _ =>
    cases d with
    | answer a => exact List.prefix_append _ _
    | wait => exact List.prefix_refl _
    | claim => exact List.prefix_refl _
  | timeout _ => exact List.prefix_refl _
  | expire _ => exact List.prefix_append _ _
  | fetchStart _ _ => exact List.prefix_append _ _
  | fetchEnd _ _ => exact List.prefix_refl _
  | @complete u o since now outcome _ _ _ hfin =>
    have hl : s.log <+: (s.land parse u since now outcome).log := List.prefix_append _ _
    cases hfin with
    | ready => exact hl.trans (List.prefix_append _ _)
    | failed _ => exact hl.trans (List.prefix_append _ _)
    | reread _ => exact hl
  | found _ _ => exact List.prefix_append _ _
  | missing _ _ => exact List.prefix_append _ _

end

/-! ## The key of a token -/

section
variable {Key RawKey : Type} {py : Interp} {v : VerifierArgs} {jwt : PyJwt Key RawKey}
  {resolve : Text → Except VerifyError Key} {token kid : Text} {app : App} {request : Request} {requestId : Text}

theorem headerKid_iff : headerKid jwt v token = some kid ↔ ∃ alg, Selects v jwt token alg kid := by
  constructor
  · intro h
    rw [headerKid] at h
    split at h
    · cases h
    rename_i htoken
    split at h
    · cases h
    rename_i header hheader
    split at h
    · rename_i hallowed
      obtain ⟨alg, halg, hmem⟩ := algAllowed_some hallowed
      split at h
      · rename_i kid' hkid
        split at h
        · cases h
        · rename_i hne
          cases h
          exact ⟨alg, by simpa using htoken, header, hheader, halg, hmem, hkid, by simpa using hne⟩
      · cases h
    · cases h
  · rintro ⟨alg, htoken, header, hheader, halg, hmem, hkid, hne⟩
    rw [headerKid, if_neg (by simpa using htoken), hheader]
    dsimp only
    rw [halg, hkid, Option.getD_some, if_pos (by simpa [algAllowed] using hmem)]
    exact if_neg (by simpa using hne)

/-- Claims are decoded under the key of the token's `kid`. -/
theorem decodeToken_ok {claims : DecodedClaims} (h : decodeToken py v jwt resolve token = .ok claims) :
    ∃ kid key, headerKid jwt v token = some kid ∧ resolve kid = .ok key ∧ jwt.decode token (jwt.rawKey key) v =
    .ok claims := by
  have hselects : ∃ alg kid, Selects v jwt token alg kid := by
    rw [decodeToken] at h
    split at h
    · cases h
    rename_i htoken
    split at h
    · rename_i e _
      cases e <;> cases h
    rename_i header hheader
    dsimp only at h
    split at h
    · cases h
    rename_i hallowed
    obtain ⟨alg, halg, hmem⟩ := algAllowed_some (by simpa using hallowed)
    obtain ⟨kid, hkid, hne⟩ | hmissing := @signingKey_cases _ resolve header
    · exact ⟨alg, kid, by simpa using htoken, header, hheader, halg, hmem, hkid, hne⟩
    · rw [hmissing] at h
      cases h
  obtain ⟨alg, kid, hsel⟩ := hselects
  rw [decodeToken_selects hsel] at h
  split at h
  · cases h
  rename_i key hkey
  split at h
  · rename_i e _
    cases e <;> cases h
  · rename_i claims' hclaims
    cases h
    exact ⟨kid, key, headerKid_iff.mpr ⟨alg, hsel⟩, hkey, hclaims⟩

theorem earlyGates_ok {a : Authorized} (h : authorize py (app.gateway py jwt resolve) request requestId = .ok a) :
    ∃ raw, earlyGates py jwt app request requestId = .ok raw := by
  rw [authorize] at h
  obtain ⟨u, horigin, h⟩ := bind_ok.mp h
  obtain ⟨u', hlength, h⟩ := bind_ok.mp h
  obtain ⟨raw, hraw, h⟩ := bind_ok.mp h
  have hread := readBody_start.mp hraw
  refine ⟨raw, ?_⟩
  rw [earlyGates]
  exact bind_ok.mpr ⟨u, horigin, bind_ok.mpr ⟨u', hlength, readBody_start.mpr hread⟩⟩

end

/-! ## Over a run of the service -/

/-- A request sent upstream: its key was found under its id when the key set in force listed it, its token decodes
under that key, it passes every control, and the headers carry its identity. -/
structure Trusted {Key RawKey Raw : Type} (py : Interp) (jwt : PyJwt Key RawKey) (app : App)
    (parse : Raw → Except Thrown (Keys Value Key)) (log : List (Entry Text Value Key Raw)) (id : Text)
    (request : Request) (sent : UpstreamRequest) (kid : Text) (pre : List (Entry Text Value Key Raw)) : Prop where
  asked : wantedKid py jwt app request id = some kid
  resolved : ∃ v key ground post claims tok parsed, app.verifier = some v ∧
    log = pre ++ .answered id (.resolve (.str kid)) (.key key) ground :: post ∧
    (authority parse pre).lookup (.str kid) = some key ∧
    (∃ alg, Selects v jwt (bearerToken py request) alg kid) ∧
    jwt.decode (bearerToken py request) (jwt.rawKey key) v = .ok claims ∧ verifyClaims claims = .ok tok ∧
    Controlled py (app.gateway py jwt fun _ => .ok key) request (some tok) parsed ∧
      CarriesIdentity py (some tok) sent.headers

section
variable {Key RawKey Raw : Type} {py : Interp} {jwt : Text → PyJwt Key RawKey} {app : App} {cfg : CacheConfig}
  {parse : Raw → Except Thrown (Keys Value Key)} {start : ℚ} {ok : Service Key Raw → ServiceEvent Raw → Prop}
  {s s' : Service Key Raw} {e : ServiceEvent Raw} {id : Text} {request : Request}

theorem service_sys (h : Reachable (service py jwt app cfg parse start) ok s) :
    Reachable (verifier cfg parse start) (fun _ _ => True) s.sys :=
  service_refines.reachable h

theorem done_kept {a : Answer Key} (h : s.sys.threads id = some (.done a))
    (hs : ServiceSteps py jwt app cfg parse s e s') :
    s'.sys.threads id = some (.done a) := by
  rcases sys_step hs with hsame | ⟨e', he'⟩
  · rw [hsame]
    exact h
  · exact done_step h (steps_of_step he')

theorem serves_kept {op : Op Value} (h : Serves s.sys.threads s.sys.log id op)
    (hs : ServiceSteps py jwt app cfg parse s e s') :
    Serves s'.sys.threads s'.sys.log id op := by
  rcases sys_step hs with hsame | ⟨e', he'⟩
  · rw [hsame]
    exact h
  · exact serves_step h (steps_of_step he')

theorem log_kept (hs : ServiceSteps py jwt app cfg parse s e s') : s.sys.log <+: s'.sys.log := by
  rcases sys_step hs with hsame | ⟨e', he'⟩
  · rw [hsame]
  · exact log_step (steps_of_step he')

/-- What was found for a request stays found. -/
theorem found_kept {resolve : Text → Except VerifyError Key} (h : s.found py jwt app id request = some resolve)
    (hs : ServiceSteps py jwt app cfg parse s e s') : s'.found py jwt app id request = some resolve := by
  rw [Service.found] at h ⊢
  split at h
  · exact h
  · split at h
    · rename_i a ha
      rw [done_kept ha hs]
      exact h
    · cases h

/-- A step leaves the requests, takes a new one and asks for its key, or takes one further. -/
theorem jobs_step (hs : ServiceSteps py jwt app cfg parse s e s') :
    s'.jobs = s.jobs ∨ ∃ id request stage, s'.jobs = Function.update s.jobs id (some ⟨request, stage⟩) ∧
      ((∃ old, s.jobs id = some ⟨request, old⟩) ∨
        (s.jobs id = none ∧ ∀ kid, wantedKid py (jwt id) app request id = some kid →
          s'.sys.threads id = some (.called (.resolve (.str kid))))) := by
  cases hs with
  | arrive hnew _ hnone =>
    refine Or.inr ⟨_, _, _, rfl, Or.inr ⟨hnew, fun kid hkid => ?_⟩⟩
    cases hnone.symm.trans hkid
  | ask hnew _ hask =>
    refine Or.inr ⟨_, _, _, rfl, Or.inr ⟨hnew, fun kid hkid => ?_⟩⟩
    cases hask.symm.trans hkid
    exact Function.update_self ..
  | probe _ _ => exact Or.inl rfl
  | verifier _ _ => exact Or.inl rfl
  | refused hjob _ _ => exact Or.inr ⟨_, _, _, rfl, Or.inl ⟨_, hjob⟩⟩
  | sent hjob _ _ => exact Or.inr ⟨_, _, _, rfl, Or.inl ⟨_, hjob⟩⟩
  | answered hjob _ _ => exact Or.inr ⟨_, _, _, rfl, Or.inl ⟨_, hjob⟩⟩
  | pulled hjob _ => exact Or.inr ⟨_, _, _, rfl, Or.inl ⟨_, hjob⟩⟩

theorem job_kept {job : Job} (h : s.jobs id = some job) (hs : ServiceSteps py jwt app cfg parse s e s') :
    ∃ stage, s'.jobs id = some ⟨job.request, stage⟩ := by
  obtain hsame | ⟨id', request', stage, hjobs, hfrom⟩ := jobs_step hs
  · exact ⟨job.stage, by rw [hsame, h]⟩
  by_cases hid : id = id'
  · subst hid
    refine ⟨stage, ?_⟩
    rw [hjobs, Function.update_self]
    rcases hfrom with ⟨old, hold⟩ | ⟨hnone, _⟩
    · cases h.symm.trans hold
      rfl
    · cases h.symm.trans hnone
  · exact ⟨job.stage, by rw [hjobs, Function.update_of_ne hid, h]⟩

/-! ### What has been asked and sent -/

def Stands (py : Interp) (jwt : Text → PyJwt Key RawKey) (app : App) (s : Service Key Raw) (id : Text)
    (sent : UpstreamRequest) :
    Prop :=
  ∃ job resolve a, s.jobs id = some job ∧ s.found py jwt app id job.request = some resolve ∧
    authorize py (app.gateway py (jwt id) resolve) job.request id = .ok a ∧
    sent = upstreamRequest py (app.gateway py (jwt id) resolve) job.request a

structure Traced (py : Interp) (jwt : Text → PyJwt Key RawKey) (app : App) (s : Service Key Raw) : Prop where
  asked : ∀ id job kid, s.jobs id = some job → wantedKid py (jwt id) app job.request id = some kid →
    Serves s.sys.threads s.sys.log id (.resolve (.str kid))
  sent : ∀ id sent, .sent id sent ∈ s.trail → Stands py jwt app s id sent

theorem stands_kept {sent : UpstreamRequest} (h : Stands py jwt app s id sent)
    (hs : ServiceSteps py jwt app cfg parse s e s') :
    Stands py jwt app s' id sent := by
  obtain ⟨job, resolve, a, hjob, hfound, ha, rfl⟩ := h
  obtain ⟨stage, hjob'⟩ := job_kept hjob hs
  exact ⟨_, resolve, a, hjob', found_kept hfound hs, ha, rfl⟩

theorem asked_step (h : Traced py jwt app s) (hs : ServiceSteps py jwt app cfg parse s e s')
    {job : Job} {kid : Text}
    (hjob : s'.jobs id = some job) (hkid : wantedKid py (jwt id) app job.request id = some kid) :
    Serves s'.sys.threads s'.sys.log id (.resolve (.str kid)) := by
  cases hold : s.jobs id with
  | some job' =>
    obtain ⟨stage, hjob'⟩ := job_kept hold hs
    cases hjob.symm.trans hjob'
    exact serves_kept (h.asked id job' kid hold hkid) hs
  | none =>
    obtain hsame | ⟨id', request', stage, hjobs, hfrom⟩ := jobs_step hs
    · rw [hsame, hold] at hjob
      cases hjob
    by_cases hid : id = id'
    · subst hid
      rw [hjobs, Function.update_self] at hjob
      cases hjob
      rcases hfrom with ⟨old, hthere⟩ | ⟨_, hcalled⟩
      · cases hold.symm.trans hthere
      · exact Or.inl ⟨_, hcalled kid hkid, rfl⟩
    · rw [hjobs, Function.update_of_ne hid, hold] at hjob
      cases hjob

theorem sent_step (h : Traced py jwt app s) (hs : ServiceSteps py jwt app cfg parse s e s') {sent : UpstreamRequest}
    (hsent : .sent id sent ∈ s'.trail) : Stands py jwt app s' id sent := by
  by_cases hold : .sent id sent ∈ s.trail
  · exact stands_kept (h.sent id sent hold) hs
  have hcases := hs
  cases hs with
  | arrive _ _ _ => exact absurd (by simpa [Service.tell] using hsent) hold
  | ask _ _ _ => exact absurd (by simpa [Service.tell] using hsent) hold
  | probe _ _ => exact absurd hsent hold
  | verifier _ _ => exact absurd hsent hold
  | refused _ _ _ => exact absurd (by simpa [Service.tell] using hsent) hold
  | @sent id' request resolve a hjob hfound ha =>
    have hnew : id = id' ∧ sent = upstreamRequest py (app.gateway py (jwt id') resolve) request a := by
      simpa [Service.tell, hold] using hsent
    obtain ⟨rfl, rfl⟩ := hnew
    exact ⟨_, resolve, a, Function.update_self .., found_kept hfound hcases, ha, rfl⟩
  | answered _ _ _ => exact absurd (by simpa [Service.tell] using hsent) hold
  | pulled _ _ =>
    obtain hold' | hnew := List.mem_append.mp hsent
    · exact absurd hold' hold
    · obtain ⟨_, _, he⟩ := List.mem_map.mp hnew
      cases he

theorem traced_reachable (h : Reachable (service py jwt app cfg parse start) ok s) : Traced py jwt app s := by
  refine h.invariant ?_ ?_
  · refine ⟨fun id job kid hjob _ => ?_, fun id sent hsent => ?_⟩
    · cases hjob
    · cases hsent
  · intro s e s' _ hI _ hs
    have hsteps := serviceSteps_of_step hs
    exact ⟨fun _ _ _ hjob hkid => asked_step hI hsteps hjob hkid, fun _ _ hsent => sent_step hI hsteps hsent⟩

/-- An admitted request asked for the key that its token decodes under. -/
theorem authorized_key {resolve : Text → Except VerifyError Key} {a : Authorized}
    (hauth : app.settings.requireAuth = true)
    (h : authorize py (app.gateway py (jwt id) resolve) request id = .ok a) :
    ∃ v kid key claims tok, app.verifier = some v ∧ wantedKid py (jwt id) app request id = some kid ∧
      headerKid (jwt id) v (bearerToken py request) = some kid ∧ resolve kid = .ok key ∧
      (jwt id).decode (bearerToken py request) ((jwt id).rawKey key) v = .ok claims ∧
      verifyClaims claims = .ok tok ∧
      a.verified = some tok := by
  obtain ⟨raw, hearly⟩ := earlyGates_ok h
  obtain ⟨_, hcontrolled, _, _⟩ := authorize_ok h
  obtain ⟨hoff, _⟩ | ⟨_, _, decode, tok, hdecode, hverify, htok⟩ := hcontrolled.token
  · cases hauth.symm.trans hoff
  obtain ⟨v, hv, rfl⟩ := Option.map_eq_some_iff.mp hdecode
  obtain ⟨claims, hclaims, htokclaims⟩ := verify_ok hverify
  obtain ⟨kid, key, hkid, hkey, hdecoded⟩ := decodeToken_ok hclaims
  refine ⟨v, kid, key, claims, tok, hv, ?_, hkid, hkey, hdecoded, htokclaims, htok⟩
  rw [wantedKid, hearly]
  dsimp only
  rw [if_pos hauth, hv]
  exact hkid

theorem found_answered (h : Traced py jwt app s) {job : Job} {kid : Text} {resolve : Text → Except VerifyError Key}
    (hjob : s.jobs id = some job) (hkid : wantedKid py (jwt id) app job.request id = some kid)
    (hfound : s.found py jwt app id job.request = some resolve) :
    ∃ a ground result, .answered id (.resolve (.str kid)) a ground ∈ s.sys.log ∧ resolved a = some result ∧
      resolve = fun _ => result := by
  rw [Service.found, hkid] at hfound
  dsimp only at hfound
  split at hfound
  · rename_i a hdone
    obtain ⟨result, hresult, rfl⟩ := Option.map_eq_some_iff.mp hfound
    obtain ⟨pc, hpc, hop⟩ | ⟨a', ground, hdone', hmem⟩ := h.asked id job kid hjob hkid
    · cases hdone.symm.trans hpc
      cases hop
    · cases hdone.symm.trans hdone'
      exact ⟨a, ground, result, hmem, hresult, rfl⟩
  · cases hfound

theorem resolved_key {a : Answer Key} {key : Key} (h : resolved a = some (.ok key)) : a = .key key := by
  cases a with
  | key k =>
    cases h
    rfl
  | tokenError message => cases h
  | thrown e => cases h
  | ready b => cases h

/-- A request is sent with the key that its `kid` had in the key set in force when the verifier answered. -/
theorem sent_answered (h : Reachable (service py jwt app cfg parse start) (fun _ _ => True) s)
    (hauth : app.settings.requireAuth = true) {sent : UpstreamRequest} (hsent : .sent id sent ∈ s.trail) :
    ∃ request stage kid key ground pre post a, s.jobs id = some ⟨request, stage⟩ ∧
      wantedKid py (jwt id) app request id = some kid ∧ s.sys.log = pre ++ .answered id (.resolve (.str kid))
      (.key key) ground :: post ∧
      (authority parse pre).lookup (.str kid) = some key ∧
      authorize py (app.gateway py (jwt id) fun _ => .ok key) request id = .ok a ∧
      sent = upstreamRequest py (app.gateway py (jwt id) fun _ => .ok key) request a := by
  have htraced := traced_reachable h
  obtain ⟨⟨request, stage⟩, resolve, a, hjob, hfound, ha, rfl⟩ := htraced.sent id sent hsent
  obtain ⟨_, kid, key, _, _, _, hwanted, _, hkey, _⟩ := authorized_key hauth ha
  obtain ⟨answer, ground, result, hmem, hresult, rfl⟩ := found_answered htraced hjob hwanted hfound
  cases hkey
  cases resolved_key hresult
  obtain ⟨pre, post, hlog⟩ := List.append_of_mem hmem
  have hlisted := keyFromAuthority_reachable (service_sys h) pre _ post hlog id (.str kid) key ground rfl
  exact ⟨request, stage, kid, key, ground, pre, post, a, hjob, hwanted, hlog, hlisted, ha, rfl⟩

/-- With authentication on, every request sent upstream is trusted. -/
theorem sent_trusted (h : Reachable (service py jwt app cfg parse start) (fun _ _ => True) s)
    (hauth : app.settings.requireAuth = true) : ∀ id sent, .sent id sent ∈ s.trail →
      ∃ request stage kid pre, s.jobs id = some ⟨request, stage⟩ ∧
        Trusted py (jwt id) app parse s.sys.log id request sent kid pre := by
  intro id sent hsent
  obtain ⟨request, stage, kid, key, ground, pre, post, a, hjob, hwanted, hlog, hlisted, ha, rfl⟩ :=
    sent_answered h hauth hsent
  obtain ⟨v, kid', key', claims, tok, hv, hwanted', hheader, hkey, hdecoded, hclaims, htok⟩ :=
    authorized_key hauth ha
  cases hwanted.symm.trans hwanted'
  cases hkey
  have hcontrolled := (authorize_ok ha).2.1
  have hcarries : CarriesIdentity py a.verified (fwdHeaders py request a.verified a.record.requestId) :=
    fwdHeaders_identity
  rw [htok] at hcontrolled hcarries
  refine ⟨request, stage, kid, pre, hjob, hwanted, v, key, ground, post, claims, tok, a.parsed, hv, hlog, hlisted,
    headerKid_iff.mp hheader, hdecoded, hclaims, hcontrolled, ?_⟩
  rw [upstreamRequest, htok]
  exact hcarries

/-! ## Revocation -/

/-- Once a document without the `kid` is in force and none that lists it is installed again, no request is sent
for a token with that `kid`, unless its key was found before. -/
theorem revoked_not_sent (h : Reachable (service py jwt app cfg parse start) (fun _ _ => True) s)
    (hauth : app.settings.requireAuth = true) {kid : Text}
    (hgone : (authority parse s.sys.log).lookup (.str kid) = none)
    {es : List (ServiceEvent Raw)} (hr : (service py jwt app cfg parse start).run s es = some s')
    (hlater : ∀ post, s'.sys.log = s.sys.log ++ post → ∀ x ∈ post, ∀ keys, accepted parse x = some keys →
      keys.lookup (.str kid) = none) :
    ∀ id job sent, s'.jobs id = some job → wantedKid py (jwt id) app job.request id = some kid →
      (∀ a ground, .answered id (.resolve (.str kid)) a ground ∉ s.sys.log) → .sent id sent ∉ s'.trail := by
  intro id job sent hjob hwanted hnew hsent
  have hreach := h.run (fun _ _ => trivial) hr
  have hgrows : s.sys.log <+: s'.sys.log := by
    refine Machine.run_related (R := fun a b : Service Key Raw => a.sys.log <+: b.sys.log)
      (fun a => List.prefix_refl _)
      (fun a b c => List.IsPrefix.trans) (fun a e b hab => ?_) hr
    exact log_kept (serviceSteps_of_step hab)
  obtain ⟨request, stage, kid', key, ground, pre, post, _, hjob', hwanted', hlog, hlisted, _⟩ :=
    sent_answered hreach hauth hsent
  cases hjob.symm.trans hjob'
  cases hwanted.symm.trans hwanted'
  obtain ⟨added, hadded⟩ := hgrows
  -- the answer was not there yet, so all of the old history comes before it
  obtain ⟨mid, rfl, rfl⟩ : ∃ mid, pre = s.sys.log ++ mid ∧
    added = mid ++ .answered id (.resolve (.str kid)) (.key key) ground :: post := by
    obtain hafter | ⟨between, hold, hrest⟩ := List.append_eq_append_iff.mp (hadded.trans hlog)
    · exact hafter
    · cases between with
      | nil => exact ⟨[], by simpa using hold.symm, by simpa using hrest.symm⟩
      | cons x between =>
        cases hrest
        exact absurd (by rw [hold]; simp) (hnew (.key key) ground)
  rw [authority, latest_append] at hlisted
  cases hm : latest (accepted parse) mid with
  | none =>
    rw [hm, Option.none_or] at hlisted
    cases hgone.symm.trans hlisted
  | some keys =>
    obtain ⟨x, hx, haccepted⟩ := latest_mem hm
    have hnone := hlater _ hadded.symm x (List.mem_append_left _ hx) keys haccepted
    rw [hm] at hlisted
    cases hnone.symm.trans hlisted

end

/-! ## Alice's ping -/

def aliceApp : App := ⟨aliceGateway.settings, some twoAlgs, pingPolicy, none⟩

/-- PyJWT where the token `t1` names the key `k1`, and 70 is Alice's key. -/
def aliceJwt : PyJwt Nat Nat where
  getUnverifiedHeader token := if token = txt "t1" then .ok rsHeader else
    .error (.pyJwtError (txt "Not enough segments"))
  rawKey key := key
  decode _ key _ := if key = 70 then .ok aliceClaims else .error (.pyJwtError (txt "Signature verification failed"))

abbrev aliceService : Machine (Service Nat (Keys Value Nat)) (ServiceEvent (Keys Value Nat)) :=
  service .ascii (fun _ => aliceJwt) aliceApp ⟨300, (10 : ℚ)⟩ .ok 0

def aliceSent : List (ServiceEvent (Keys Value Nat)) :=
  [.arrive (txt "id") plainPing, .verifier (.enter (txt "id") 0 0), .verifier (.fetchStart (txt "id") 1),
    .verifier (.fetchEnd (txt "id") 2 (.body [(.str (txt "k1"), 70)])), .verifier (.complete (txt "id") 3),
    .verifier (.reread (txt "id")), .decide (txt "id")]

theorem sent_trusted_alice : ∃ s request stage kid pre, aliceService.run aliceService.init aliceSent = some s ∧
    s.trail = [.sent (txt "id") pingSent] ∧ s.jobs (txt "id") = some ⟨request, stage⟩ ∧
    Trusted .ascii aliceJwt aliceApp .ok s.sys.log (txt "id") request pingSent kid pre := by
  obtain ⟨s, hrun, htrail⟩ : ∃ s, aliceService.run aliceService.init aliceSent = some s ∧
      s.trail = [.sent (txt "id") pingSent] := Machine.run_ends _ (by decide +kernel)
  have hreach : Reachable aliceService (fun _ _ => True) s := .run (fun _ _ => trivial) .init hrun
  obtain ⟨request, stage, kid, pre, hjob, htrusted⟩ :=
    sent_trusted hreach rfl (txt "id") pingSent (by rw [htrail]; exact List.mem_singleton.mpr rfl)
  exact ⟨s, request, stage, kid, pre, hrun, htrail, hjob, htrusted⟩

/-- A probe caches `k1`, and one after the TTL finds it gone. -/
def keyListed : List (ServiceEvent (Keys Value Nat)) :=
  [.probe (txt "first"), .verifier (.probe (txt "first") 0), .verifier (.fetchStart (txt "first") 1),
    .verifier (.fetchEnd (txt "first") 2 (.body [(.str (txt "k1"), 70)])), .verifier (.complete (txt "first") 3)]

def keyGone : List (ServiceEvent (Keys Value Nat)) :=
  [.probe (txt "second"), .verifier (.probe (txt "second") 400), .verifier (.fetchStart (txt "second") 401),
    .verifier (.fetchEnd (txt "second") 402 (.body [(.str (txt "k2"), 71)])),
    .verifier (.complete (txt "second") 403)]

def aliceAsks : List (ServiceEvent (Keys Value Nat)) :=
  [.arrive (txt "id") plainPing, .verifier (.enter (txt "id") 404 404), .decide (txt "id")]

def goneLog : List (Entry Text Value Nat (Keys Value Nat)) :=
  [.started (txt "first") 1, .completed (txt "first") 1 3 (.body [(.str (txt "k1"), 70)]),
    .answered (txt "first") .ready (.ready true) (.fetch 1), .started (txt "second") 401,
    .completed (txt "second") 401 403 (.body [(.str (txt "k2"), 71)]),
    .answered (txt "second") .ready (.ready true) (.fetch 401)]

def unknownKey : Entry Text Value Nat (Keys Value Nat) :=
  .answered (txt "id") (.resolve (.str (txt "k1"))) (.tokenError noMatch) (.held 404)

theorem revoked_not_sent_alice : ∃ s₀ s s', aliceService.run aliceService.init keyListed = some s₀ ∧
    s₀.sys.cache.keys.lookup (.str (txt "k1")) = some 70 ∧ aliceService.run s₀ keyGone = some s ∧
    aliceService.run s aliceAsks = some s' ∧ (s'.jobs (txt "id")).isSome = true ∧
    ∀ sent, .sent (txt "id") sent ∉ s'.trail := by
  obtain ⟨s₀, hfirst, hlisted, hrest₀⟩ : ∃ s₀, aliceService.run aliceService.init keyListed = some s₀ ∧
      (s₀.sys.cache.keys.lookup (.str (txt "k1")) = some 70 ∧ (aliceService.run s₀ keyGone).any (fun s =>
        decide (s.sys.log = goneLog ∧ (aliceService.run s aliceAsks).any (fun s' =>
          decide (s'.sys.log = goneLog ++ [unknownKey] ∧ (s'.jobs (txt "id")).any (fun job =>
            wantedKid .ascii aliceJwt aliceApp job.request (txt "id") = some (txt "k1")) = true)) =
              true)) = true) :=
    Machine.run_ends _ (by decide +kernel)
  obtain ⟨s, hrun, hlog, hrest⟩ := Machine.run_ends _ hrest₀
  obtain ⟨s', hrun', hlog', hwanted⟩ := Machine.run_ends _ hrest
  obtain ⟨job, hjob, hkid⟩ := (Option.any_eq_true _ _).mp hwanted
  have hreach : Reachable aliceService (fun _ _ => True) s :=
    Reachable.run (fun _ _ => trivial) (.run (fun _ _ => trivial) .init hfirst) hrun
  have hgone : (authority .ok s.sys.log).lookup (.str (txt "k1")) = none := by
    rw [hlog]
    decide
  refine ⟨s₀, s, s', hfirst, hlisted, hrun, hrun', by rw [hjob]; rfl, fun sent => ?_⟩
  refine revoked_not_sent hreach rfl hgone hrun' ?_ (txt "id") job sent hjob (by simpa using hkid) ?_
  · rw [hlog, hlog']
    intro post hpost x hx keys hkeys
    cases List.append_cancel_left hpost
    rw [List.mem_singleton.mp hx] at hkeys
    cases hkeys
  · intro a ground hmem
    rw [hlog, goneLog] at hmem
    simp at hmem

end McpGateway
