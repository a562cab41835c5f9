import McpGateway.Mediation

/-!
# What a tools/list response discloses

The response to a page is a function of the page without the entries the
policy denies and of the two headers that cross. What is not a page gets one
of a fixed list of refusals.
-/

namespace McpGateway

open Unicode Json

/-- A page the filter can evaluate: every entry has a name of 1 to 256 characters. -/
structure Page where
  doc : List (Text × Value)
  result : List (Text × Value)
  tools : List Value
  version : doc.lookup (txt "jsonrpc") = some (.str (txt "2.0"))
  noError : doc.lookup (txt "error") = none
  ofResult : doc.lookup (txt "result") = some (.obj result)
  ofTools : result.lookup (txt "tools") = some (.arr tools)
  named : ∀ entry ∈ tools, ∃ name, dictGet (txt "name") entry = some (.str name) ∧ 1 ≤ name.length ∧
    name.length ≤ 256

theorem page_unique {page page' : Page} (h : page.doc = page'.doc) : page = page' := by
  obtain ⟨doc, result, tools, _, _, hresult, htools, _⟩ := page
  obtain ⟨doc', result', tools', _, _, hresult', htools', _⟩ := page'
  cases h
  cases hresult.symm.trans hresult'
  cases htools.symm.trans htools'
  rfl

section
variable (policy : ToolPolicy) (claims : Option Claims)

def denied (entry : Value) : Bool :=
  match dictGet (txt "name") entry with
  | some (.str name) => !(policy.check name claims).allowed
  | _ => false

def Page.visible (page : Page) : Value :=
  withTools page.doc page.result (page.tools.filter fun entry => !denied policy claims entry)

end

/-! ## The filter -/

theorem entryName_some {entry : Value} {name : Text} : entryName entry = some name ↔
    dictGet (txt "name") entry = some (.str name) ∧ 1 ≤ name.length ∧ name.length ≤ 256 := by
  have hbounds : ∀ n : Text, (n.isEmpty || maxToolNameLen < n.length) = false ↔ 1 ≤ n.length ∧ n.length ≤ 256 := by
    intro n
    cases n <;> simp [maxToolNameLen]
  rw [entryName]
  split
  · rename_i n hn
    rw [hn]
    simp only [Option.some.injEq, Value.str.injEq]
    cases hb : n.isEmpty || decide (maxToolNameLen < n.length) with
    | true =>
      rw [if_pos rfl]
      refine iff_of_false (fun h => by cases h) ?_
      rintro ⟨rfl, h⟩
      rw [(hbounds n).mpr h] at hb
      cases hb
    | false =>
      rw [if_neg Bool.false_ne_true, Option.some.injEq]
      refine iff_self_and.mpr fun h => ?_
      rw [← h]
      exact (hbounds n).mp hb
  · rename_i hn
    refine iff_of_false (fun h => by cases h) ?_
    rintro ⟨h, _⟩
    exact hn name h

section
variable {py : Interp} {policy : ToolPolicy} {claims : Option Claims}

theorem keepTools_named {tools : List Value} (h : ∀ entry ∈ tools, ∃ name, entryName entry = some name) :
    keepTools policy claims tools = some (tools.filter fun entry => !denied policy claims entry) := by
  induction tools with
  | nil => rfl
  | cons entry tools ih =>
    obtain ⟨⟨name, hname⟩, htools⟩ := List.forall_mem_cons.mp h
    have hdenied : denied policy claims entry = !(policy.check name claims).allowed := by
      rw [denied, (entryName_some.mp hname).1]
    simp only [keepTools, hname, ih htools, List.filter_cons, hdenied, Bool.not_not]

theorem keepTools_some {tools kept : List Value} (h : keepTools policy claims tools = some kept) :
    ∀ entry ∈ tools, ∃ name, entryName entry = some name := by
  induction tools generalizing kept with
  | nil => exact fun entry he => by cases he
  | cons entry tools ih =>
    rw [keepTools] at h
    split at h
    · cases h
    rename_i name hname
    split at h
    · cases h
    rename_i hrest
    exact List.forall_mem_cons.mpr ⟨⟨name, hname⟩, ih hrest⟩

theorem Page.entryNames (page : Page) : ∀ entry ∈ page.tools, ∃ name, entryName entry = some name :=
  fun entry he => (page.named entry he).imp fun _ => entryName_some.mpr

theorem filterDoc_counts (page : Page) : filterDoc py policy claims (.obj page.doc) =
    printPage py (page.visible policy claims) (page.tools.filter fun entry => !denied policy claims entry).length
      (page.tools.length - (page.tools.filter fun entry => !denied policy claims entry).length) := by
  have hkept := @keepTools_named policy claims _ page.entryNames
  rw [filterDoc, page.version]
  simp only [ne_eq, not_true_eq_false, if_false, page.noError, Option.isSome_none,
    Bool.false_eq_true, page.ofResult, page.ofTools, hkept]
  rfl

theorem filterDoc_page (page : Page) : ∃ returned filtered : Nat,
    filterDoc py policy claims (.obj page.doc) = printPage py (page.visible policy claims) returned filtered :=
  ⟨_, _, filterDoc_counts page⟩

/-- What is not a page is refused. -/
theorem filterDoc_cases (py : Interp) (policy : ToolPolicy) (claims : Option Claims) (doc : Value) :
    (∃ page : Page, doc = .obj page.doc) ∨ filterDoc py policy claims doc = .ok (.failed filterFailed) ∨
      filterDoc py policy claims doc = .ok (.failed upstreamError) := by
  unfold filterDoc
  split
  · rename_i ms
    split
    · rename_i version hversion
      split_ifs with hv he
      · exact Or.inr (Or.inl rfl)
      · exact Or.inr (Or.inr rfl)
      · split
        · rename_i result hresult
          split
          · rename_i tools htools
            split
            · exact Or.inr (Or.inl rfl)
            · rename_i kept hkept
              refine Or.inl ⟨⟨ms, result, tools, ?_, ?_, hresult, htools, fun entry hentry => ?_⟩, rfl⟩
              · rw [hversion, not_not.mp hv]
              · exact Option.not_isSome_iff_eq_none.mp he
              · exact (keepTools_some hkept entry hentry).imp fun _ => entryName_some.mp
          · exact Or.inr (Or.inl rfl)
        · exact Or.inr (Or.inl rfl)
    · exact Or.inr (Or.inl rfl)
  · exact Or.inr (Or.inl rfl)

theorem filterDoc_fails {doc : Value} {outcome : FilterOutcome} (h : filterDoc py policy claims doc = .ok outcome)
    (hpage : ∀ page : Page, doc ≠ .obj page.doc) : outcome = .failed filterFailed ∨
    outcome = .failed upstreamError := by
  obtain ⟨page, hdoc⟩ | hfailed | hupstream := filterDoc_cases py policy claims doc
  · exact absurd hdoc (hpage page)
  · rw [hfailed] at h
    cases h
    exact Or.inl rfl
  · rw [hupstream] at h
    cases h
    exact Or.inr rfl

theorem loads_nil {ε : Type} (dec : Decoder ε) (d : Nat) : loads dec d [] = .error .malformed := by
  cases d <;> rfl

theorem filterToolsList_fails {raw : Bytes} {outcome : FilterOutcome}
    (h : filterToolsList py policy claims raw = .ok outcome)
    (hpage : ∀ page : Page, loads py.pageDecoder py.loadsDepth raw ≠ .ok (.obj page.doc)) :
    outcome = .failed filterFailed ∨ outcome = .failed upstreamError := by
  rw [filterToolsList] at h
  split at h
  · cases h
  · cases h
    exact Or.inl rfl
  · rename_i doc hdoc
    apply filterDoc_fails h
    rintro page rfl
    exact hpage page hdoc

theorem printPage_cases (py : Interp) (page : Value) :
    (∃ e, ∀ r f, printPage py page r f = .error e) ∨ (∀ r f, printPage py page r f = .ok (.failed filterFailed)) ∨
      ∃ body, ∀ r f, printPage py page r f = .ok ⟨some body, none, r, f⟩ := by
  unfold printPage
  cases py.pageEncoder.dumps py.dumpsDepth page with
  | error e =>
    cases e with
    | recursion => exact Or.inl ⟨_, fun _ _ => rfl⟩
    | notFinite => exact Or.inr (Or.inl fun _ _ => rfl)
    | digits => exact Or.inr (Or.inl fun _ _ => rfl)
  | ok s =>
    dsimp only
    cases encodeUtf8 s with
    | none => exact Or.inr (Or.inl fun _ _ => rfl)
    | some body => exact Or.inr (Or.inr ⟨body, fun _ _ => rfl⟩)

end

/-! ## The relayed response -/

section
variable (py : Interp) (gw : Gateway) (up : UpstreamResponse)

structure Served (page : Page) : Prop where
  media : mediaType py up = txt "application/json"
  complete : up.decodedEnd = none
  size : (up.decoded.flatten.length : Int) ≤ gw.settings.maxToolsListBytes
  loaded : loads py.pageDecoder py.loadsDepth up.decoded.flatten = .ok (.obj page.doc)

def sessionHeaders : List (Text × Text) :=
  dictOf (up.headers.filter fun h => py.lower h.1 ∈ filteredResponseHeaders)

def notFiltered : Text := txt "tools/list response could not be filtered"

def refusals : List (Text × Text) :=
  [(txt "tools_list_filter_unsupported_media_type", txt "tools/list response media type cannot be filtered"),
    (txt "tools_list_response_too_large", txt "tools/list response exceeds filtering limit"),
    (txt "tools_list_read_failed", txt "tools/list response could not be read"),
    (filterFailed, notFiltered),
    (upstreamError, txt "upstream returned a JSON-RPC error that was not relayed")]

def Refused (outcome : Except Exc Response) : Prop :=
  ∃ refusal ∈ refusals, outcome = jsonResponse py 502 (errorContent refusal.1 refusal.2) []

def shown (visible : Value) (headers : List (Text × Text)) : Except Exc Response :=
  match printPage py visible 0 0 with
  | .error e => .error e
  | .ok outcome =>
    match outcome.body with
    | some content =>
      respond 200 (setMember (txt "Cache-Control") (txt "no-store") headers) (some (txt "application/json"))
        (.content content)
    | none => jsonResponse py 502 (errorContent filterFailed notFiltered) []

end

section
variable {py : Interp} {gw : Gateway} {up : UpstreamResponse}

theorem readPage_body {body b : Bytes} {chunks : List Bytes} (h : readPage gw up body chunks = .body b) :
    up.decodedEnd = none ∧ b = body ++ chunks.flatten ∧
    (chunks ≠ [] → (b.length : Int) ≤ gw.settings.maxToolsListBytes) := by
  induction chunks generalizing body with
  | nil =>
    rw [readPage] at h
    split at h
    · rename_i hend
      cases h
      simp [hend]
    · cases h
    · cases h
  | cons chunk chunks ih =>
    rw [readPage] at h
    split at h
    · cases h
    rename_i hle
    obtain ⟨hend, hb, hlen⟩ := ih h
    refine ⟨hend, by simpa using hb, fun _ => ?_⟩
    cases chunks with
    | nil =>
      rw [hb, List.flatten_nil, List.append_nil]
      exact Int.not_lt.mp hle
    | cons c cs => exact hlen (List.cons_ne_nil _ _)

theorem readPage_within (hend : up.decodedEnd = none) {body : Bytes} {chunks : List Bytes}
    (h : ((body ++ chunks.flatten).length : Int) ≤ gw.settings.maxToolsListBytes) :
    readPage gw up body chunks = .body (body ++ chunks.flatten) := by
  induction chunks generalizing body with
  | nil => simp [readPage, hend]
  | cons chunk chunks ih =>
    rw [List.flatten_cons, ← List.append_assoc] at h ⊢
    have hle : ¬ ((body ++ chunk).length : Int) > gw.settings.maxToolsListBytes := by
      rw [List.length_append] at h
      omega
    rw [readPage, if_neg hle, ih h]

theorem relayFiltered_served {policy : ToolPolicy} {a : Authorized} {page : Page} (h : Served py gw up page) :
    (relayFiltered py gw policy a up).outcome =
      shown py (page.visible policy (a.verified.map VerifiedToken.claims)) (sessionHeaders py up) := by
  obtain ⟨r, f, hdoc⟩ := @filterDoc_page py policy (a.verified.map VerifiedToken.claims) page
  have hread : readPage gw up [] up.decoded = .body up.decoded.flatten := readPage_within h.complete h.size
  have hfilter : filterToolsList py policy (a.verified.map VerifiedToken.claims) up.decoded.flatten =
      printPage py (page.visible policy (a.verified.map VerifiedToken.claims)) r f := by
    rw [filterToolsList, h.loaded]
    exact hdoc
  rw [relayFiltered, if_neg (not_not.mpr h.media), hread]
  dsimp only
  rw [hfilter, shown]
  rcases printPage_cases py (page.visible policy (a.verified.map VerifiedToken.claims))
    with ⟨e, he⟩ | hfailed | ⟨body, hbody⟩
  · rw [he, he]
  · rw [hfailed, hfailed]
    rfl
  · rw [hbody, hbody]
    rfl

theorem jsonResponse_status {status : Nat} {content : List (Text × Value)} {headers : List (Text × Text)}
    {response : Response}
    (h : jsonResponse py status content headers = .ok response) : response.status = status := by
  rw [jsonResponse] at h
  split at h
  · cases h
  rw [respond] at h
  dsimp only at h
  split at h
  · cases h
    rfl
  · cases h

/-- Without a page there is a refusal, or the handler raises. -/
theorem relayFiltered_refused {policy : ToolPolicy} {a : Authorized} (hpage : ¬ ∃ page, Served py gw up page)
    {response : Response} (h : (relayFiltered py gw policy a up).outcome = .ok response) :
    Refused py (relayFiltered py gw policy a up).outcome := by
  rw [relayFiltered] at h ⊢
  by_cases hmedia : mediaType py up = txt "application/json"
  · rw [if_neg (not_not.mpr hmedia)] at h ⊢
    cases hread : readPage gw up [] up.decoded with
    | raised e =>
      rw [hread] at h
      cases h
    | tooLarge => exact ⟨_, List.mem_of_getElem? (i := 1) rfl, rfl⟩
    | failed => exact ⟨_, List.mem_of_getElem? (i := 2) rfl, rfl⟩
    | body b =>
      rw [hread] at h
      dsimp only at h ⊢
      cases hfilter : filterToolsList py policy (a.verified.map VerifiedToken.claims) b with
      | error e =>
        rw [hfilter] at h
        cases h
      | ok outcome =>
        have hload : ∀ page : Page, loads py.pageDecoder py.loadsDepth b ≠ .ok (.obj page.doc) := by
          intro page hpageload
          obtain ⟨hend, hb, hlen⟩ := readPage_body hread
          rw [List.nil_append] at hb
          rw [hb] at hpageload hlen
          by_cases hnil : up.decoded = []
          · rw [hnil, List.flatten_nil, loads_nil] at hpageload
            cases hpageload
          · exact hpage ⟨page, hmedia, hend, hlen hnil, hpageload⟩
        rcases filterToolsList_fails hfilter hload with rfl | rfl
        · exact ⟨_, List.mem_of_getElem? (i := 3) rfl, rfl⟩
        · exact ⟨_, List.mem_of_getElem? (i := 4) rfl, rfl⟩
  · rw [if_pos hmedia]
    exact ⟨_, List.mem_cons_self, rfl⟩

end

/-! ## Two runs -/

/-- One response, up to the order of its headers. -/
structure Response.Alike (r r' : Response) : Prop where
  status : r.status = r'.status
  headers : ∀ name, r.headers.lookup name = r'.headers.lookup name
  mediaType : r.mediaType = r'.mediaType
  body : r.body = r'.body

inductive SameAnswer : Except Exc Response → Except Exc Response → Prop
  | raised (e : Exc) : SameAnswer (.error e) (.error e)
  | answered {r r' : Response} (h : r.Alike r') : SameAnswer (.ok r) (.ok r')

theorem SameAnswer.refl (outcome : Except Exc Response) : SameAnswer outcome outcome := by
  cases outcome with
  | error e => exact .raised e
  | ok r => exact .answered ⟨rfl, fun _ => rfl, rfl, rfl⟩

section
variable {headers headers' : List (Text × Text)} (h : ∀ name, headers.lookup name = headers'.lookup name)
include h

theorem respond_alike (hd : (headers.map Prod.fst).Nodup) (hd' : (headers'.map Prod.fst).Nodup) (status : Nat)
    (mediaType : Option Text) (body : Body) :
    SameAnswer (respond status headers mediaType body) (respond status headers' mediaType body) := by
  have hall : ∀ p : Text × Text → Bool, headers.all p = headers'.all p := by
    intro p
    have hmem : ∀ m, m ∈ headers ↔ m ∈ headers' := by
      intro m
      rw [mem_iff_lookup hd, mem_iff_lookup hd', h]
    rw [Bool.eq_iff_iff, List.all_eq_true, List.all_eq_true]
    simp only [hmem]
  rw [respond, respond, hall]
  dsimp only
  split
  · exact .answered ⟨rfl, h, rfl, rfl⟩
  · exact .raised _

theorem shown_alike {py : Interp} (hd : (headers.map Prod.fst).Nodup) (hd' : (headers'.map Prod.fst).Nodup)
    (visible : Value) :
    SameAnswer (shown py visible headers) (shown py visible headers') := by
  rw [shown, shown]
  split
  · exact .raised _
  · split
    · refine respond_alike (fun name => ?_) (setMember_distinct hd) (setMember_distinct hd') _ _ _
      rw [lookup_setMember, lookup_setMember, h]
    · exact .refl _

end

/-- `run` is that of an admitted tools/list with these claims, which `up` answers with status 200. -/
def Lists (py : Interp) (gw : Gateway) (claims : Option Claims) (up : UpstreamResponse) (run : Run) : Prop :=
  ∃ request upstream requestId a, authorize py gw request requestId = .ok a ∧
    a.parsed.method = some (txt "tools/list") ∧
    a.verified.map VerifiedToken.claims = claims ∧ upstream (upstreamRequest py gw request a) = .ok up ∧
      up.status = 200 ∧
    run = proxyMcp py gw request upstream requestId

theorem lists_outcome {py : Interp} {gw : Gateway} {policy : ToolPolicy} (hpolicy : gw.toolPolicy = some policy)
    {claims : Option Claims} {up : UpstreamResponse} {run : Run} (h : Lists py gw claims up run) :
    ∃ a, a.verified.map VerifiedToken.claims = claims ∧
    run.outcome = (relayFiltered py gw policy a up).outcome := by
  obtain ⟨request, upstream, requestId, a, ha, hmethod, hclaims, hup, hstatus, rfl⟩ := h
  refine ⟨a, hclaims, ?_⟩
  simp only [proxyMcp, ha, hup, relay, hpolicy, hmethod, hstatus, and_self, if_true]

/-- Pages that agree without the denied entries are answered alike, and what is not a page gets a fixed refusal. -/
theorem denied_undisclosed {py : Interp} {gw : Gateway} {policy : ToolPolicy}
    (hpolicy : gw.toolPolicy = some policy) (claims : Option Claims) :
    (∀ run run' up up' page page', Lists py gw claims up run → Lists py gw claims up' run' → Served py gw up page →
      Served py gw up' page' → page.visible policy claims = page'.visible policy claims →
        ((∀ name, (sessionHeaders py up).lookup name = (sessionHeaders py up').lookup name) →
          SameAnswer run.outcome run'.outcome) ∧
        (sessionHeaders py up = sessionHeaders py up' → run.outcome = run'.outcome)) ∧
    ∀ run up response, Lists py gw claims up run → (¬ ∃ page, Served py gw up page) → run.outcome = .ok response →
      response.status = 502 ∧ Refused py run.outcome := by
  constructor
  · intro run run' up up' page page' hrun hrun' hserved hserved' hvisible
    obtain ⟨a, hclaims, houtcome⟩ := lists_outcome hpolicy hrun
    obtain ⟨a', hclaims', houtcome'⟩ := lists_outcome hpolicy hrun'
    rw [houtcome, houtcome', relayFiltered_served hserved, relayFiltered_served hserved', hclaims,
      hclaims', hvisible]
    constructor
    · intro hheaders
      exact shown_alike hheaders (dictOf_names _) (dictOf_names _) _
    · intro hheaders
      rw [hheaders]
  · intro run up response hrun hpage hresponse
    obtain ⟨a, _, houtcome⟩ := lists_outcome hpolicy hrun
    rw [houtcome] at hresponse ⊢
    have hrefused := relayFiltered_refused hpage hresponse
    refine ⟨?_, hrefused⟩
    obtain ⟨refusal, _, hjson⟩ := hrefused
    rw [hjson] at hresponse
    exact jsonResponse_status hresponse

/-! ## A hidden tool -/

def openPolicy (method : Text) : ScopePolicy := ⟨[(method, ∅)], ∅, true, List.nodup_singleton _⟩

def filesPolicy : ToolPolicy := ⟨{txt "read_file"}, [], []⟩

def filesGateway : Gateway :=
  { devGateway with policy := openPolicy (txt "tools/list"), toolPolicy := some filesPolicy }

def listRequest : Request where
  raw := []
  client := none
  chunks := [ascii "\x7b\"method\":\"tools/list\"\x7d"]
  disconnected := false

def answer (contentType : Text) (body : Bytes) : UpstreamResponse :=
  ⟨200, [(txt "content-type", contentType)], [body], none, [body], none⟩

def entry (name : Text) : Value := .obj [(txt "name", .str name)]

def filesPage (names : List Text) (h : ∀ name ∈ names, 1 ≤ name.length ∧ name.length ≤ 256) : Page where
  doc := [(txt "jsonrpc", .str (txt "2.0")), (txt "result", .obj [(txt "tools", .arr (names.map entry))])]
  result := [(txt "tools", .arr (names.map entry))]
  tools := names.map entry
  version := rfl
  noError := rfl
  ofResult := rfl
  ofTools := rfl
  named := by
    intro e he
    obtain ⟨name, hname, rfl⟩ := List.mem_map.mp he
    exact ⟨name, rfl, h name hname⟩

def readPageBody : Bytes :=
  ascii "\x7b\"jsonrpc\":\"2.0\",\"result\":\x7b\"tools\":[\x7b\"name\":\"read_file\"\x7d]\x7d\x7d"

def bothPageBody : Bytes :=
  ascii "\x7b\"jsonrpc\":\"2.0\",\"result\":\x7b\"tools\":[\x7b\"name\":\"rm\"\x7d,\x7b\"name\":\"read_file\"\x7d]\x7d\x7d"

def listRun (up : UpstreamResponse) : Run := proxyMcp .ascii filesGateway listRequest (fun _ => .ok up) (txt "id")

theorem listRun_lists {up : UpstreamResponse} (h : up.status = 200) :
    Lists .ascii filesGateway none up (listRun up) := by
  have hv : Authenticates .ascii filesGateway listRequest none := Or.inl ⟨rfl, rfl⟩
  have hparse : parseJsonrpc .ascii listRequest.chunks.flatten =
      .ok { method := some (txt "tools/list"), canonicalBody := some (ascii "\x7b\"method\":\"tools/list\"\x7d") } := by
    decide +kernel
  have htool : ToolAllowed filesGateway
      { method := some (txt "tools/list"), canonicalBody := some (ascii "\x7b\"method\":\"tools/list\"\x7d") }
        none :=
    fun _ _ hcall => absurd hcall (by decide)
  obtain ⟨a, ha, hparsed, hverified⟩ := authorize_bare rfl rfl (by decide) rfl hv hparse rfl
    (by decide +kernel) htool (txt "id")
  exact ⟨_, _, _, a, ha, by rw [hparsed], by rw [hverified]; rfl, rfl, h, rfl⟩

theorem denied_undisclosed_files :
    (listRun (answer (txt "application/json") readPageBody)).outcome =
    (listRun (answer (txt "application/json") bothPageBody)).outcome ∧
      Refused .ascii (listRun (answer (txt "text/event-stream") bothPageBody)).outcome := by
  have hread : Served .ascii filesGateway (answer (txt "application/json") readPageBody)
    (filesPage [txt "read_file"] (by decide)) :=
    ⟨by decide +kernel, rfl, by decide +kernel, by decide +kernel⟩
  have hboth : Served .ascii filesGateway (answer (txt "application/json") bothPageBody)
      (filesPage [txt "rm", txt "read_file"] (by decide)) :=
    ⟨by decide +kernel, rfl, by decide +kernel, by decide +kernel⟩
  have hvisible : (filesPage [txt "read_file"] (by decide)).visible filesPolicy none =
      (filesPage [txt "rm", txt "read_file"] (by decide)).visible filesPolicy none := by
    decide +kernel
  have hstream : ¬ ∃ page, Served .ascii filesGateway (answer (txt "text/event-stream") bothPageBody) page := by
    rintro ⟨page, h⟩
    exact absurd h.media (by decide +kernel)
  have houtcome : (listRun (answer (txt "text/event-stream") bothPageBody)).outcome =
      .ok ⟨502, [], some (txt "application/json"), .content
        (ascii "\x7b\"error\":\"tools_list_filter_unsupported_media_type\"," ++
          ascii "\"detail\":\"tools/list response media type cannot be filtered\"\x7d")⟩ := by
    decide +kernel
  have hheaders : sessionHeaders .ascii (answer (txt "application/json") readPageBody) =
      sessionHeaders .ascii (answer (txt "application/json") bothPageBody) := by
    decide +kernel
  obtain ⟨hpages, hothers⟩ := @denied_undisclosed .ascii filesGateway filesPolicy rfl none
  constructor
  · exact (hpages _ _ _ _ _ _ (listRun_lists rfl) (listRun_lists rfl) hread hboth hvisible).2 hheaders
  · exact (hothers _ _ _ (listRun_lists rfl) hstream houtcome).2

end McpGateway
