import McpGateway.Closing
import McpGateway.Preservation
import McpGateway.Totality

/-!
# What comes of a request that is sent

The values of a forwarded request can be sent where the client's own can. The
caller then gets the upstream's response, where that can be handed on, or a
502 with its record.
-/

namespace McpGateway

open Unicode Json

/-! ## Answers -/

section
variable (py : Interp) (gw : Gateway) (a : Authorized) (up : UpstreamResponse)

inductive HandsOn : Response → Prop
  | streamed (h : ¬ Filters gw a up) :
      HandsOn ⟨up.status, relayedHeaders py up, up.headers.lookup (txt "content-type"), .stream up.raw up.rawEnd⟩
  | filtered {policy : ToolPolicy} {page : Page} {s : Text} {b : Bytes} (h : Filters gw a up)
      (hpolicy : gw.toolPolicy = some policy)
      (hload : loads py.pageDecoder py.loadsDepth up.decoded.flatten = .ok (.obj page.doc))
      (hprint : py.pageEncoder.dumps py.dumpsDepth (page.visible policy (a.verified.map VerifiedToken.claims)) =
        .ok s)
      (hencode : encodeUtf8 s = some b) :
      HandsOn ⟨200, setMember (txt "Cache-Control") (txt "no-store") (sessionHeaders py up),
        some (txt "application/json"), .content b⟩

def WithinCap (chunks : List Bytes) : Prop :=
  chunks = [] ∨ (chunks.flatten.length : Int) ≤ gw.settings.maxToolsListBytes

/-- The page is loaded and printed within the recursion limits, and its headers can be written. -/
structure ShowsPage (policy : ToolPolicy) : Prop where
  loaded : loads py.pageDecoder py.loadsDepth up.decoded.flatten ≠ .error .recursion
  printed : ∀ page : Page, loads py.pageDecoder py.loadsDepth up.decoded.flatten = .ok (.obj page.doc) →
    py.pageEncoder.dumps py.dumpsDepth (page.visible policy (a.verified.map VerifiedToken.claims)) ≠
      .error .recursion
  headers : ∀ (page : Page) s, loads py.pageDecoder py.loadsDepth up.decoded.flatten = .ok (.obj page.doc) →
    py.pageEncoder.dumps py.dumpsDepth (page.visible policy (a.verified.map VerifiedToken.claims)) = .ok s →
    ∀ h ∈ sessionHeaders py up, Latin1 h.1 ∧ Latin1 h.2

/-- What the upstream answers can be handed on, or a page refused with a 502. -/
structure Deliverable : Prop where
  read : Filters gw a up → mediaType py up = txt "application/json" → WithinCap gw up.decoded →
    ∀ e, up.decodedEnd = some e → ∃ cls, e = .requestError cls
  page : Filters gw a up → mediaType py up = txt "application/json" → WithinCap gw up.decoded →
    up.decodedEnd = none → ∀ policy, gw.toolPolicy = some policy → ShowsPage py a up policy
  stream : ¬ Filters gw a up → ¬ DeclaresMore py gw up ∧ ¬ DeclarationRaises py gw up ∧ RelaysLatin1 py up

end

def BadGateway (emitted : List AuditRecord) (response : Response) : Prop :=
  response.status = 502 ∧ ∃ r, emitted = [r] ∧ r.decision ≠ .allowed

section
variable {py : Interp} {gw : Gateway} {a : Authorized} {up : UpstreamResponse}

def Ascii (s : Text) : Prop := ∀ c ∈ s, c.val < 0x80

theorem ascii_scalar {s : Text} (h : Ascii s) : Scalar s := by
  intro c hc
  have := h c hc
  simp only [isSurrogate, Bool.and_eq_false_iff, decide_eq_false_iff_not]
  omega

theorem error_returns (hdepth : 1 ≤ py.dumpsDepth) (status : Nat) {code detail : Text} (hcode : Ascii code)
    (hdetail : Ascii detail) : ∃ response, jsonResponse py status (errorContent code detail) [] = .ok response ∧
      response.status = status := by
  have hprintable : ∀ s : Text, (Value.str s).Printable py.encoder := fun s => printable_word py.encoder rfl rfl
  obtain ⟨b, hb⟩ : ∃ b, canonicalize py (.obj (errorContent code detail)) = .ok b := by
    refine canonicalize_total.mpr ⟨⟨hdepth, ?_⟩, ?_⟩
    · rw [printable_obj]
      intro m hm
      simp only [errorContent, List.mem_cons, List.not_mem_nil, or_false] at hm
      rcases hm with rfl | rfl
      · exact hprintable code
      · exact hprintable detail
    · intro x hx
      have hnames : Scalar (txt "error") ∧ Scalar (txt "detail") := by
        constructor <;> exact ascii_scalar (by unfold Ascii; decide)
      simp only [mem_texts_obj, errorContent, List.map_cons, List.map_nil, List.mem_cons,
        List.not_mem_nil, or_false, exists_eq_or_imp, exists_eq_left] at hx
      rcases hx with (rfl | rfl) | hx | hx
      · exact hnames.1
      · exact hnames.2
      · rw [List.mem_singleton.mp hx]
        exact ascii_scalar hcode
      · rw [List.mem_singleton.mp hx]
        exact ascii_scalar hdetail
  have hwrites : ∃ response, respond status [] (some (txt "application/json")) (.content b) = .ok response := by
    refine respond_iff.mpr ⟨List.forall_mem_nil _, fun s hs => ?_⟩
    cases hs
    unfold Latin1
    decide
  obtain ⟨response, hresponse⟩ := hwrites
  have hjson : jsonResponse py status (errorContent code detail) [] = .ok response := by
    rw [jsonResponse, hb]
    exact hresponse
  exact ⟨response, hjson, jsonResponse_status hjson⟩

/-! ## Reading a page -/

def pageEnd (b : Bytes) : Option Exc → PageRead
  | none => .body b
  | some (.requestError _) => .failed
  | some e => .raised e

theorem readPage_to_end {body : Bytes} {chunks : List Bytes}
    (h : chunks = [] ∨ ((body ++ chunks.flatten).length : Int) ≤ gw.settings.maxToolsListBytes) :
    readPage gw up body chunks = pageEnd (body ++ chunks.flatten) up.decodedEnd := by
  induction chunks generalizing body with
  | nil =>
    rw [readPage, List.flatten_nil, List.append_nil]
    cases up.decodedEnd with
    | none => rfl
    | some e => cases e <;> rfl
  | cons chunk chunks ih =>
    obtain h | h := h
    · cases h
    rw [List.flatten_cons, ← List.append_assoc] at h ⊢
    have hle : ¬ ((body ++ chunk).length : Int) > gw.settings.maxToolsListBytes := by
      rw [List.length_append] at h
      omega
    rw [readPage, if_neg hle, ih (Or.inr h)]

theorem readPage_overflows {body : Bytes} {chunks : List Bytes} (hne : chunks ≠ [])
    (h : ¬ ((body ++ chunks.flatten).length : Int) ≤ gw.settings.maxToolsListBytes) :
    readPage gw up body chunks = .tooLarge := by
  induction chunks generalizing body with
  | nil => exact absurd rfl hne
  | cons chunk chunks ih =>
    rw [readPage]
    split
    · rfl
    · rename_i hle
      rw [List.flatten_cons, ← List.append_assoc] at h
      refine ih ?_ h
      rintro rfl
      rw [List.flatten_nil, List.append_nil] at h
      exact h (Int.not_lt.mp hle)

/-! ## Which answers are handed on -/

def Delivers (py : Interp) (gw : Gateway) (a : Authorized) (up : UpstreamResponse) (r : Relay) : Prop :=
  ∃ response, r.outcome = .ok response ∧ (HandsOn py gw a up response ∨ BadGateway r.emitted response)

theorem toolsListError_delivers (hdepth : 1 ≤ py.dumpsDepth) {record : AuditRecord} {code detail : Text}
    (hcode : Ascii code) (hdetail : Ascii detail) :
    Delivers py gw a up (toolsListError py record code detail) := by
  obtain ⟨response, hresponse, hstatus⟩ := error_returns hdepth 502 hcode hdetail
  exact ⟨response, hresponse, Or.inr ⟨hstatus, _, rfl, nofun⟩⟩

theorem raises_not {r : Relay} {e : Exc} (h : r.outcome = .error e) : ¬ Delivers py gw a up r := by
  rintro ⟨response, hr, _⟩
  cases h.symm.trans hr

theorem filter_raises {policy : ToolPolicy} {claims : Option Claims} {raw : Bytes} :
    (∃ e, filterToolsList py policy claims raw = .error e) ↔ loads py.pageDecoder py.loadsDepth raw =
    .error .recursion ∨
      ∃ page : Page, loads py.pageDecoder py.loadsDepth raw = .ok (.obj page.doc) ∧
        py.pageEncoder.dumps py.dumpsDepth (page.visible policy claims) = .error .recursion := by
  have hprint : ∀ {page : Page}, loads py.pageDecoder py.loadsDepth raw = .ok (.obj page.doc) →
      ((∃ e, filterToolsList py policy claims raw = .error e) ↔
        py.pageEncoder.dumps py.dumpsDepth (page.visible policy claims) = .error .recursion) := by
    intro page hload
    rw [filter_page hload, printPage]
    cases py.pageEncoder.dumps py.dumpsDepth (page.visible policy claims) with
    | error e => cases e <;> simp
    | ok s =>
      dsimp only
      cases encodeUtf8 s <;> simp
  by_cases hpage : ∃ page : Page, loads py.pageDecoder py.loadsDepth raw = .ok (.obj page.doc)
  · obtain ⟨page, hload⟩ := hpage
    rw [hprint hload]
    constructor
    · exact fun h => Or.inr ⟨page, hload, h⟩
    · rintro (h | ⟨page', hload', h⟩)
      · cases h.symm.trans hload
      · exact (hprint hload).mp ((hprint hload').mpr h)
  · have hnone : ¬ ∃ page : Page, loads py.pageDecoder py.loadsDepth raw = .ok (.obj page.doc) ∧
        py.pageEncoder.dumps py.dumpsDepth (page.visible policy claims) = .error .recursion := by
      rintro ⟨page, hload, _⟩
      exact hpage ⟨page, hload⟩
    rw [or_iff_left hnone, filterToolsList]
    cases hload : loads py.pageDecoder py.loadsDepth raw with
    | error e => cases e <;> simp
    | ok doc =>
      refine iff_of_false ?_ ?_
      · rintro ⟨e, he⟩
        obtain ⟨page, rfl⟩ | hfail | hfail := filterDoc_cases py policy claims doc
        · exact hpage ⟨page, hload⟩
        · cases he.symm.trans hfail
        · cases he.symm.trans hfail
      · intro h
        cases h

theorem filter_code {policy : ToolPolicy} {claims : Option Claims} {raw : Bytes} {outcome : FilterOutcome}
    (h : filterToolsList py policy claims raw = .ok outcome)
    (hpage : ∀ (page : Page) s, loads py.pageDecoder py.loadsDepth raw = .ok (.obj page.doc) →
      py.pageEncoder.dumps py.dumpsDepth (page.visible policy claims) ≠ .ok s) :
    outcome = .failed filterFailed ∨ outcome = .failed upstreamError := by
  by_cases hload : ∃ page : Page, loads py.pageDecoder py.loadsDepth raw = .ok (.obj page.doc)
  · obtain ⟨page, hload⟩ := hload
    rw [filter_page hload, printPage] at h
    split at h
    · cases h
    · cases h
      exact Or.inl rfl
    · rename_i s hs
      exact absurd hs (hpage page s hload)
  · exact filterToolsList_fails h fun page hp => hload ⟨page, hp⟩

theorem respond_writes {status : Nat} {headers : List (Text × Text)} {mediaType : Option Text} {body : Body}
    (hheaders : ∀ h ∈ headers, Latin1 h.1 ∧ Latin1 h.2) (hmedia : ∀ s, mediaType = some s → Latin1 s) :
    respond status headers mediaType body = .ok ⟨status, headers, mediaType, body⟩ := by
  obtain ⟨response, hresponse⟩ := respond_iff.mpr ⟨hheaders, hmedia⟩
  rw [hresponse, respond_ok hresponse]

theorem pageHeaders_latin1 : (∀ h ∈ setMember (txt "Cache-Control") (txt "no-store") (sessionHeaders py up),
    Latin1 h.1 ∧ Latin1 h.2) ↔ ∀ h ∈ sessionHeaders py up, Latin1 h.1 ∧ Latin1 h.2 := by
  constructor
  · intro hall h hmem
    refine hall h (setMember_keep hmem ?_)
    intro hkey
    have hkept := (List.mem_filter.mp (mem_dictOf hmem)).2
    rw [hkey, py.lower_ascii _ (by decide)] at hkept
    revert hkept
    decide
  · intro hall h hmem
    rcases mem_setMember hmem with rfl | hmem
    · unfold Latin1
      decide
    · exact hall h hmem

theorem media_latin1 {s : Text} (h : some (txt "application/json") = some s) : Latin1 s := by
  cases h
  unfold Latin1
  decide

theorem relayFiltered_body {policy : ToolPolicy} (hmedia : mediaType py up = txt "application/json")
    (hread : readPage gw up [] up.decoded = .body up.decoded.flatten) {outcome : FilterOutcome}
    (hfilter : filterToolsList py policy (a.verified.map VerifiedToken.claims) up.decoded.flatten = .ok outcome) :
    (∀ b, outcome.errorCode = none → outcome.body = some b → (relayFiltered py gw policy a up).outcome =
      respond 200 (setMember (txt "Cache-Control") (txt "no-store") (sessionHeaders py up))
        (some (txt "application/json")) (.content b)) ∧
    (outcome.errorCode.isSome = true → ∃ record detail, Ascii detail ∧
      relayFiltered py gw policy a up = toolsListError py record (outcome.errorCode.getD filterFailed) detail) := by
  rw [relayFiltered, if_neg (not_not.mpr hmedia), hread]
  dsimp only
  rw [hfilter]
  obtain ⟨body, code, returned, filtered⟩ := outcome
  constructor
  · intro b hcode hbody
    cases hcode
    cases hbody
    rfl
  · intro hsome
    obtain ⟨code, rfl⟩ := Option.isSome_iff_exists.mp hsome
    refine ⟨_, _, ?_, rfl⟩
    split <;> (unfold Ascii; decide)

section
variable {policy : ToolPolicy} (hpolicy : gw.toolPolicy = some policy) (hf : Filters gw a up)
  (hmedia : mediaType py up = txt "application/json")
  (hread : readPage gw up [] up.decoded = .body up.decoded.flatten)
include hmedia hread

theorem filter_not_delivered {e : Exc}
    (he : filterToolsList py policy (a.verified.map VerifiedToken.claims) up.decoded.flatten = .error e) :
    ¬ Delivers py gw a up (relayFiltered py gw policy a up) := by
  refine raises_not (e := e) ?_
  rw [relayFiltered, if_neg (not_not.mpr hmedia), hread]
  dsimp only
  rw [he]

include hpolicy hf

/-- A page that prints is shown where its headers can be written. -/
theorem printed_delivers {page : Page} {s : Text}
    (hload : loads py.pageDecoder py.loadsDepth up.decoded.flatten = .ok (.obj page.doc))
    (hs : py.pageEncoder.dumps py.dumpsDepth (page.visible policy (a.verified.map VerifiedToken.claims)) = .ok s) :
    Delivers py gw a up (relayFiltered py gw policy a up) ↔ ShowsPage py a up policy := by
  obtain ⟨b, hb⟩ := dumps_ascii_encodes rfl hs
  obtain ⟨r, f, hfilter⟩ : ∃ r f, filterToolsList py policy (a.verified.map VerifiedToken.claims)
      up.decoded.flatten = .ok ⟨some b, none, r, f⟩ := by
    rw [filter_page hload, printPage, hs]
    dsimp only
    rw [hb]
    exact ⟨_, _, rfl⟩
  have houtcome := (relayFiltered_body (a := a) hmedia hread hfilter).1 b rfl rfl
  constructor
  · rintro ⟨response, hr, _⟩
    rw [houtcome] at hr
    obtain ⟨hheaders, _⟩ := respond_iff.mp ⟨response, hr⟩
    refine ⟨?_, ?_, fun _ _ _ _ => pageHeaders_latin1.mp hheaders⟩
    · rw [hload]
      intro h
      cases h
    · intro page' hload' h
      obtain rfl := page_unique (Value.obj.inj (Except.ok.inj (hload'.symm.trans hload)))
      cases h.symm.trans hs
  · intro h
    have hheaders := pageHeaders_latin1.mpr (h.headers page s hload hs)
    refine ⟨_, houtcome.trans (respond_writes hheaders fun _ => media_latin1), ?_⟩
    exact Or.inl (.filtered hf hpolicy hload hs hb)

omit hpolicy hf

/-- What does not print is refused, unless the filter raises. -/
theorem unprinted_delivers (hdepth : 1 ≤ py.dumpsDepth)
    (hnone : ∀ (page : Page) s, loads py.pageDecoder py.loadsDepth up.decoded.flatten = .ok (.obj page.doc) →
      py.pageEncoder.dumps py.dumpsDepth (page.visible policy (a.verified.map VerifiedToken.claims)) ≠ .ok s) :
    Delivers py gw a up (relayFiltered py gw policy a up) ↔ ShowsPage py a up policy := by
  cases hfilter : filterToolsList py policy (a.verified.map VerifiedToken.claims) up.decoded.flatten with
  | error e =>
    refine iff_of_false (filter_not_delivered hmedia hread hfilter) fun h => ?_
    obtain hload | ⟨page, hload, hs⟩ := filter_raises.mp ⟨e, hfilter⟩
    · exact h.loaded hload
    · exact h.printed page hload hs
  | ok outcome =>
    have hraised : ¬ ∃ e, filterToolsList py policy (a.verified.map VerifiedToken.claims)
        up.decoded.flatten = .error e := by
      rintro ⟨e, he⟩
      cases he.symm.trans hfilter
    refine iff_of_true ?_ ⟨fun h => hraised (filter_raises.mpr (Or.inl h)),
      fun page hload h => hraised (filter_raises.mpr (Or.inr ⟨page, hload, h⟩)),
      fun page s hload hs => absurd hs (hnone page s hload)⟩
    have hcode : outcome.errorCode.isSome = true ∧ Ascii (outcome.errorCode.getD filterFailed) := by
      obtain rfl | rfl := filter_code hfilter hnone
      · exact ⟨rfl, by unfold Ascii; decide⟩
      · exact ⟨rfl, by unfold Ascii; decide⟩
    obtain ⟨record, detail, hdetail, hrelay⟩ := (relayFiltered_body (a := a) hmedia hread hfilter).2 hcode.1
    rw [hrelay]
    exact toolsListError_delivers hdepth hcode.2 hdetail

end

theorem body_delivers (hdepth : 1 ≤ py.dumpsDepth) (hf : Filters gw a up) {policy : ToolPolicy}
    (hpolicy : gw.toolPolicy = some policy) (hmedia : mediaType py up = txt "application/json")
    (hread : readPage gw up [] up.decoded = .body up.decoded.flatten) :
    Delivers py gw a up (relayFiltered py gw policy a up) ↔ ShowsPage py a up policy := by
  by_cases hshown : ∃ (page : Page) (s : Text),
      loads py.pageDecoder py.loadsDepth up.decoded.flatten = .ok (.obj page.doc) ∧
        py.pageEncoder.dumps py.dumpsDepth (page.visible policy (a.verified.map VerifiedToken.claims)) = .ok s
  · obtain ⟨page, s, hload, hs⟩ := hshown
    exact printed_delivers hpolicy hf hmedia hread hload hs
  · exact unprinted_delivers hmedia hread hdepth fun page s hload hs => hshown ⟨page, s, hload, hs⟩

theorem deliverable_page (hf : Filters gw a up) {policy : ToolPolicy} (hpolicy : gw.toolPolicy = some policy) :
    Deliverable py gw a up ↔ (mediaType py up = txt "application/json" → WithinCap gw up.decoded →
      (∀ e, up.decodedEnd = some e → ∃ cls, e = .requestError cls) ∧
        (up.decodedEnd = none → ShowsPage py a up policy)) := by
  constructor
  · intro h hmedia hfits
    exact ⟨h.read hf hmedia hfits, fun hend => h.page hf hmedia hfits hend policy hpolicy⟩
  · intro h
    refine ⟨fun _ hmedia hfits => (h hmedia hfits).1, fun _ hmedia hfits hend policy' hpolicy' => ?_,
      fun hn => absurd hf hn⟩
    cases hpolicy.symm.trans hpolicy'
    exact (h hmedia hfits).2 hend

theorem refusal_delivers (hdepth : 1 ≤ py.dumpsDepth) {r : Relay} {i : Nat} {record : AuditRecord}
    {code detail : Text} (hi : refusals[i]? = some (code, detail)) (h : r = toolsListError py record code detail) :
    Delivers py gw a up r := by
  have hascii : ∀ refusal ∈ refusals, Ascii refusal.1 ∧ Ascii refusal.2 := by
    unfold Ascii
    decide
  obtain ⟨hcode, hdetail⟩ := hascii _ (List.mem_of_getElem? hi)
  rw [h]
  exact toolsListError_delivers hdepth hcode hdetail

theorem relayFiltered_delivers (hdepth : 1 ≤ py.dumpsDepth) (hf : Filters gw a up) {policy : ToolPolicy}
    (hpolicy : gw.toolPolicy = some policy) :
    Delivers py gw a up (relayFiltered py gw policy a up) ↔ Deliverable py gw a up := by
  rw [deliverable_page hf hpolicy]
  by_cases hmedia : mediaType py up = txt "application/json"
  · have hrelay := relayFiltered.eq_def py gw policy a up
    rw [if_neg (not_not.mpr hmedia)] at hrelay
    by_cases hfits : WithinCap gw up.decoded
    · have hread : readPage gw up [] up.decoded = pageEnd up.decoded.flatten up.decodedEnd := readPage_to_end hfits
      cases hend : up.decodedEnd with
      | none =>
        rw [hend] at hread
        rw [body_delivers hdepth hf hpolicy hmedia hread]
        simp [hmedia, hfits]
      | some e =>
        rw [hread, hend] at hrelay
        by_cases hrequest : ∃ cls, e = .requestError cls
        · obtain ⟨cls, rfl⟩ := hrequest
          exact iff_of_true (refusal_delivers (i := 2) hdepth rfl hrelay) fun _ _ =>
            ⟨fun e he => ⟨cls, (Option.some.inj he).symm⟩, nofun⟩
        · have hpageEnd : pageEnd up.decoded.flatten (some e) = .raised e := by
            cases e with
            | requestError cls => exact absurd ⟨cls, rfl⟩ hrequest
            | _ => rfl
          rw [hpageEnd] at hrelay
          refine iff_of_false (raises_not (e := e) (by rw [hrelay])) ?_
          intro h
          exact hrequest ((h hmedia hfits).1 e rfl)
    · have hne : up.decoded ≠ [] := fun h => hfits (Or.inl h)
      have hread : readPage gw up [] up.decoded = .tooLarge :=
        readPage_overflows hne fun h => hfits (Or.inr h)
      rw [hread] at hrelay
      exact iff_of_true (refusal_delivers (i := 1) hdepth rfl hrelay) fun _ h => absurd h hfits
  · have hrelay := relayFiltered.eq_def py gw policy a up
    rw [if_pos hmedia] at hrelay
    exact iff_of_true (refusal_delivers (i := 0) hdepth rfl hrelay) fun h => absurd h hmedia

theorem relayStreamed_delivers (hf : ¬ Filters gw a up) :
    Delivers py gw a up (relayStreamed py gw a up) ↔ Deliverable py gw a up := by
  have hstream : Deliverable py gw a up ↔ ¬ DeclaresMore py gw up ∧ ¬ DeclarationRaises py gw up ∧
      RelaysLatin1 py up :=
    ⟨fun h => h.stream hf, fun h => ⟨fun hn => absurd hn hf, fun hn => absurd hn hf, fun _ => h⟩⟩
  rw [hstream, ← overCap_true, ← overCap_error]
  have hrelay := relayStreamed.eq_def py gw a up
  cases hcap : overCap py gw up with
  | error e =>
    rw [hcap] at hrelay
    exact iff_of_false (raises_not (e := e) (by rw [hrelay])) fun h => h.2.1 ⟨e, rfl⟩
  | ok more =>
    rw [hcap] at hrelay
    cases more with
    | true =>
      refine iff_of_false ?_ fun h => h.1 rfl
      rw [hrelay]
      rintro ⟨response, hr, hown | ⟨hstatus, _⟩⟩
      · obtain ⟨b, hb⟩ := jsonResponse_content hr
        cases hown with
        | streamed _ => cases hb
        | filtered h => exact hf h
      · rw [jsonResponse_status hr] at hstatus
        cases hstatus
    | false =>
      rw [hrelay]
      constructor
      · rintro ⟨response, hr, _⟩
        exact ⟨nofun, nofun, respond_iff.mp ⟨response, hr⟩⟩
      · rintro ⟨_, _, hheaders, hmedia⟩
        exact ⟨_, respond_writes hheaders hmedia, Or.inl (.streamed hf)⟩

/-- Of an upstream that answers, the caller has a response exactly where the answer can be handed on. -/
theorem relay_delivers (hdepth : 1 ≤ py.dumpsDepth) :
    Delivers py gw a up (relay py gw a up) ↔ Deliverable py gw a up := by
  by_cases hf : Filters gw a up
  · obtain ⟨policy, hpolicy, hrelay⟩ := relay_filters hf
    rw [hrelay]
    exact relayFiltered_delivers hdepth hf hpolicy
  · rw [relay_streams hf]
    exact relayStreamed_delivers hf

end

/-! ## Requests that are sent -/

section
variable (py : Interp) (gw : Gateway) (request : Request) (upstream : UpstreamRequest → Except Exc UpstreamResponse)
  (requestId : Text) (a : Authorized)

/-- The headers can be sent, opening the request raises nothing but a `RequestError`, and
the caller gets the upstream's response or an audited 502. -/
structure SendsAll : Prop where
  values : ∀ h ∈ (upstreamRequest py gw request a).headers, Sendable h.2
  opens : ∀ e, upstream (upstreamRequest py gw request a) = .error e → ∃ cls, e = .requestError cls
  answered : ∃ response, (proxyMcp py gw request upstream requestId).outcome = .ok response ∧
    ((∃ up, upstream (upstreamRequest py gw request a) = .ok up ∧ HandsOn py gw a up response) ∨
      BadGateway (proxyMcp py gw request upstream requestId).emitted response)

end

section
variable {py : Interp} {gw : Gateway} {request : Request} {upstream : UpstreamRequest → Except Exc UpstreamResponse}
  {requestId : Text} {a : Authorized}

theorem authorize_depth (ha : authorize py gw request requestId = .ok a) : 1 ≤ py.dumpsDepth := by
  obtain ⟨_, hc, _⟩ := authorize_ok ha
  obtain ⟨data, s, b, hacc⟩ := accepted_of_parse hc.parsed.1 hc.parsed.2
  obtain ⟨m, _, hget, _⟩ := hacc.resolved.method
  obtain ⟨m', ms, rfl⟩ := dictGet_some hget
  obtain ⟨hdepth, _⟩ := dumps_total.mp ⟨s, hacc.printed⟩
  rw [Value.depth] at hdepth
  omega

theorem answered_relay (ha : authorize py gw request requestId = .ok a) {up : UpstreamResponse}
    (hup : upstream (upstreamRequest py gw request a) = .ok up) :
    (∃ response, (proxyMcp py gw request upstream requestId).outcome = .ok response ∧
      ((∃ up, upstream (upstreamRequest py gw request a) = .ok up ∧ HandsOn py gw a up response) ∨
        BadGateway (proxyMcp py gw request upstream requestId).emitted response)) ↔ Deliverable py gw a up := by
  rw [← relay_delivers (authorize_depth ha), proxyMcp_relay ha hup, hup, relayRun]
  refine exists_congr fun response => and_congr_right fun _ => or_congr_left ?_
  constructor
  · rintro ⟨up', heq, hown⟩
    cases heq
    exact hown
  · exact fun hown => ⟨up, rfl, hown⟩

/-- Everything forwarded can be sent, and the caller is answered, exactly when the client's own values can be sent
and what the upstream answers can be handed on. -/
theorem sends_all_iff (hid : HexId requestId) (hx : Httpx upstream)
    (ha : authorize py gw request requestId = .ok a) :
    SendsAll py gw request upstream requestId a ↔ (∀ h ∈ dictOf (allowListed py request), Sendable h.2) ∧
      ∀ up, upstream (upstreamRequest py gw request a) = .ok up → Deliverable py gw a up := by
  constructor
  · intro h
    exact ⟨fun m hm => h.values m (client_fwdHeaders hm), fun up hup => (answered_relay ha hup).mp h.answered⟩
  · rintro ⟨hclient, hanswer⟩
    have hvalues := fwdHeaders_sendable hid ha hclient
    rcases hx.sends _ hvalues with ⟨up, hup⟩ | ⟨cls, hascii, hcls⟩
    · exact ⟨hvalues, fun e he => (nomatch he.symm.trans hup), (answered_relay ha hup).mpr (hanswer up hup)⟩
    · refine ⟨hvalues, fun e he => ⟨cls, Except.error.inj (he.symm.trans hcls)⟩, ?_⟩
      have hdetail : Ascii (txt "upstream unreachable: " ++ cls) := by
        have hfixed : Ascii (txt "upstream unreachable: ") := by
          unfold Ascii
          decide
        intro c hc
        rcases List.mem_append.mp hc with hc | hc
        · exact hfixed c hc
        · exact hascii c hc
      have hcode : Ascii (txt "bad_gateway") := by
        unfold Ascii
        decide
      obtain ⟨response, hresponse, hstatus⟩ := error_returns (authorize_depth ha) 502 hcode hdetail
      have hrun := proxyMcp.eq_def py gw request upstream requestId
      simp only [ha, hcls] at hrun
      rw [hrun]
      exact ⟨response, hresponse, Or.inr ⟨hstatus, _, rfl, nofun⟩⟩

end

/-! ## A byte outside ASCII -/

theorem sends_all_iff_ping : ∃ a, authorize .ascii aliceGateway plainPing hexId = .ok a ∧
    SendsAll .ascii aliceGateway plainPing unreachable hexId a := by
  have hv : Authenticates .ascii aliceGateway plainPing (some aliceToken) :=
    Or.inr ⟨rfl, by decide, _, _, rfl, rfl, rfl⟩
  have hparse : parseJsonrpc .ascii plainPing.chunks.flatten =
      .ok { method := some (txt "ping"), canonicalBody := some (ascii "\x7b\"method\":\"ping\"\x7d") } := by
    decide +kernel
  obtain ⟨a, ha, _⟩ := authorize_bare rfl rfl (by decide) rfl hv hparse rfl (by decide +kernel)
    (fun _ h => by cases h) hexId
  refine ⟨a, ha, (sends_all_iff hexId_hex unreachable_httpx ha).mpr ⟨?_, ?_⟩⟩
  · unfold Sendable
    decide
  · intro up hup
    rw [unreachable] at hup
    split at hup <;> cases hup

/-- `Accept: é`, the byte 0xE9. -/
def accentPing : Request where
  raw := [(ascii "accept", [0xE9])]
  client := none
  chunks := [ascii "\x7b\"method\":\"ping\"\x7d"]
  disconnected := false

theorem accent_not_sent : ¬ ∀ py gw request upstream requestId a, HexId requestId → Httpx upstream →
    authorize py gw request requestId = .ok a → SendsAll py gw request upstream requestId a := by
  intro h
  have hv : Authenticates .ascii devGateway accentPing none := Or.inl ⟨rfl, rfl⟩
  have hparse : parseJsonrpc .ascii accentPing.chunks.flatten =
      .ok { method := some (txt "ping"), canonicalBody := some (ascii "\x7b\"method\":\"ping\"\x7d") } := by
    decide +kernel
  obtain ⟨a, ha, _⟩ := authorize_bare rfl rfl (by decide) rfl hv hparse rfl (by decide +kernel)
    (fun _ h => by cases h) hexId
  have hsends := h _ _ _ unreachable hexId a hexId_hex unreachable_httpx ha
  have hmem : (txt "accept", latin1 [0xE9]) ∈ dictOf (allowListed .ascii accentPing) := by decide
  have hbyte := hsends.values _ (client_fwdHeaders hmem) ⟨0xE9, by decide⟩ List.mem_cons_self
  revert hbyte
  decide

end McpGateway
