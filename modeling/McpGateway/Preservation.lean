import McpGateway.AsciiDumps
import McpGateway.Disclosure

/-!
# What the filter keeps of a page

The filtered body is printed in ASCII. It is read as the document with the
allowed entries alone where no string has two surrogates in a row.
-/

namespace McpGateway

open Unicode Json

/-! ## What is kept -/

def FilterOutcome.ok (outcome : FilterOutcome) : Bool := outcome.errorCode.isNone

def allowedEntry (policy : ToolPolicy) (claims : Option Claims) (entry : Value) : Bool :=
  match dictGet (txt "name") entry with
  | some (.str name) => (policy.check name claims).allowed
  | _ => false

def entriesOf (page : Value) : List Value :=
  match (dictGet (txt "result") page).bind (dictGet (txt "tools")) with
  | some (.arr tools) => tools
  | _ => []

section
variable (py : Interp) (policy : ToolPolicy) (claims : Option Claims)

/-- `body` is read as `doc` with the allowed ones of its `tools`, and the outcome counts them. -/
structure Kept (doc result : List (Text × Value)) (tools : List Value) (body : Bytes) (outcome : FilterOutcome) :
    Prop where
  ofResult : doc.lookup (txt "result") = some (.obj result)
  ofTools : result.lookup (txt "tools") = some (.arr tools)
  ofBody : outcome.body = some body
  read : loads py.plainDecoder py.loadsDepth body =
    .ok (withTools doc result (tools.filter (allowedEntry policy claims)))
  entries : ∀ dup page, Reads dup body page → ∀ entry ∈ entriesOf page, allowedEntry policy claims entry = true
  returned : outcome.toolsReturned = (tools.filter (allowedEntry policy claims)).length
  filtered : outcome.toolsReturned + outcome.toolsFiltered = tools.length

/-- The filter returns a body in which nothing but the denied entries is changed, or an error. -/
def Preserves (raw : Bytes) : Prop :=
  ∃ outcome, filterToolsList py policy claims raw = .ok outcome ∧
    (outcome.ok = true → ∃ doc result tools body, loads py.plainDecoder py.loadsDepth raw = .ok (.obj doc) ∧
      Kept py policy claims doc result tools body outcome) ∧
    (outcome.ok = false → outcome.body = none ∧ outcome.errorCode.isSome = true)

/-- Neither loading nor printing meets the recursion limit, and what is printed has no two surrogates in a row. -/
structure Unpaired (raw : Bytes) : Prop where
  loads : loads py.pageDecoder py.loadsDepth raw ≠ .error .recursion
  dumps : ∀ page : Page, Json.loads py.pageDecoder py.loadsDepth raw = .ok (.obj page.doc) →
    py.pageEncoder.dumps py.dumpsDepth (page.visible policy claims) ≠ .error .recursion
  texts : ∀ page : Page, Json.loads py.pageDecoder py.loadsDepth raw = .ok (.obj page.doc) →
    (page.visible policy claims).depth ≤ py.dumpsDepth → (page.visible policy claims).Printable py.pageEncoder →
    ∀ s ∈ (page.visible policy claims).texts, paired s = false

end

section
variable {py : Interp} {policy : ToolPolicy} {claims : Option Claims} {raw : Bytes}

/-! ## The loaded document -/

theorem plain_objectPairs (ps : List (Text × Value)) : py.plainDecoder.objectPairs ps = .ok (.obj (dictOf ps)) :=
  rfl

theorem plain_constant (c : Constant) : py.plainDecoder.parseConstant c = .ok (.float c.float) := by
  cases c <;> rfl

theorem loads_tree {ε : Type} {dec : Decoder ε} {d : Nat} {v : Value} (h : loads dec d raw = .ok v) :
    ∃ l t, decodeBytes raw = some l ∧ Document l t ∧ dec.eval d t = .ok v := by
  rw [loads] at h
  split at h
  · cases h
  · rename_i l hl
    obtain ⟨t, ht, hv⟩ := (scanDocument_ok dec).mp h
    exact ⟨l, t, hl, ht, hv⟩

theorem loads_document {ε : Type} {dec : Decoder ε} {d : Nat} {l : Text} {t : Tree} (hl : decodeBytes raw = some l)
    (ht : Document l t) : loads dec d raw = dec.eval d t := by
  rw [loads, hl]
  exact scanDocument_complete dec ht d

/-- Without the hook `json.loads` builds the same document. -/
theorem loads_plain {v : Value} (h : loads py.pageDecoder py.loadsDepth raw = .ok v) :
    loads py.plainDecoder py.loadsDepth raw = .ok v := by
  obtain ⟨l, t, hl, ht, hv⟩ := loads_tree h
  have hobj : ∀ ps w, py.pageDecoder.objectPairs ps = .ok w → py.plainDecoder.objectPairs ps = .ok w := by
    intro ps w hw
    cases hw
    rfl
  have hconst : ∀ c w, py.pageDecoder.parseConstant c = .ok w → py.plainDecoder.parseConstant c = .ok w := by
    intro c w hw
    cases hw
  rw [loads_document hl ht]
  exact eval_transfer hobj hconst rfl hv

theorem plain_digits {n : Nat} (hn : py.maxStrDigits = some n) : 0 < n :=
  Nat.lt_of_lt_of_le (by decide) (py.maxStrDigits_ge n hn)

theorem loads_self {v : Value} (h : loads py.pageDecoder py.loadsDepth raw = .ok v) :
    py.plainDecoder.eval py.loadsDepth v.tree = .ok v := by
  obtain ⟨l, t, _, _, hv⟩ := loads_tree h
  refine eval_reread ?_ ?_ ?_ hv fun x _ => Or.inr plain_constant
  · intro ps w hw
    cases hw
    refine ⟨dictOf ps, rfl, fun m hm => mem_dictOf hm, ?_⟩
    rw [plain_objectPairs, dictOf_distinct (dictOf_names ps)]
  · intro c w hw
    cases hw
  · intro n hn
    exact ⟨plain_digits hn, hn⟩

/-- So is the document without the denied entries. -/
theorem visible_self {page : Page} (h : loads py.pageDecoder py.loadsDepth raw = .ok (.obj page.doc)) :
    py.plainDecoder.eval py.loadsDepth (page.visible policy claims).tree = .ok (page.visible policy claims) := by
  have hdoc := loads_self h
  obtain ⟨d, hd, hresult⟩ := eval_member plain_objectPairs hdoc page.ofResult
  obtain ⟨d', rfl, htools⟩ := eval_member plain_objectPairs hresult page.ofTools
  rw [hd] at hdoc ⊢
  apply eval_setMember plain_objectPairs hdoc
  apply eval_setMember plain_objectPairs hresult
  exact eval_filter _ htools

theorem allowedEntry_named {page : Page} :
    page.tools.filter (allowedEntry policy claims) = page.tools.filter fun entry =>
    !denied policy claims entry := by
  apply List.filter_congr
  intro entry hentry
  obtain ⟨name, hname, _⟩ := page.named entry hentry
  rw [allowedEntry, denied, hname, Bool.not_not]

theorem visible_allowed (page : Page) :
    page.visible policy claims = withTools page.doc page.result
    (page.tools.filter (allowedEntry policy claims)) := by
  rw [allowedEntry_named, Page.visible]

theorem entriesOf_withTools (doc result : List (Text × Value)) (kept : List Value) :
    entriesOf (withTools doc result kept) = kept := by
  rw [entriesOf, withTools, dictGet, lookup_setMember, if_pos rfl]
  simp only [Option.bind_some, dictGet]
  rw [lookup_setMember, if_pos rfl]

/-! ## The printed body -/

theorem setMember_cons {α : Type} (key : Text) (v : α) (ms : List (Text × α)) :
    ∃ m ms', setMember key v ms = m :: ms' := by
  cases ms with
  | nil => exact ⟨_, _, rfl⟩
  | cons m ms =>
    rw [setMember]
    split
    · exact ⟨_, _, rfl⟩
    · exact ⟨_, _, rfl⟩

/-- A printed page derives the page with its pairs joined. -/
theorem visible_printed {page : Page} {s : Text}
    (h : py.pageEncoder.dumps py.dumpsDepth (page.visible policy claims) = .ok s) :
    ∃ body, encodeUtf8 s = some body ∧ decodeBytes body = some s ∧
      Document s ((page.visible policy claims).mapTexts joinPairs).tree := by
  obtain ⟨body, hbody⟩ := dumps_ascii_encodes rfl h
  obtain ⟨m, ms, hcons⟩ := setMember_cons (txt "result") (Value.obj (setMember (txt "tools")
    (.arr (page.tools.filter fun entry => !denied policy claims entry)) page.result)) page.doc
  refine ⟨body, hbody, ?_, dumps_ascii rfl h⟩
  rw [Page.visible, withTools, hcons] at h
  exact dumps_obj_detected h hbody

/-- The printed page is read as the page where nothing is joined. -/
theorem printed_read {page : Page} (hload : loads py.pageDecoder py.loadsDepth raw = .ok (.obj page.doc))
    {s : Text} {body : Bytes} (hdetect : decodeBytes body = some s) (hdoc : Document s
    ((page.visible policy claims).mapTexts joinPairs).tree) :
    loads py.plainDecoder py.loadsDepth body = .ok (page.visible policy claims) ↔
      ∀ s ∈ (page.visible policy claims).texts, paired s = false := by
  rw [loads_document hdetect hdoc, eval_mapTexts plain_objectPairs]
  simp only [joinPairs_self, visible_self hload, true_and]

theorem printed_clients {page : Page} (hload : loads py.pageDecoder py.loadsDepth raw = .ok (.obj page.doc))
    {s : Text} {body : Bytes} (hbody : encodeUtf8 s = some body) (hdetect : decodeBytes body = some s)
    (hdoc : Document s ((page.visible policy claims).mapTexts joinPairs).tree)
    (hpairs : ∀ s ∈ (page.visible policy claims).texts, paired s = false) {dup : DupPolicy} {v : Value}
    (hv : Reads dup body v) :
    v = page.visible policy claims := by
  obtain ⟨l, t, d, hl, ht, heval⟩ := hv
  rw [decodeUtf8_encodeUtf8 hbody, hdetect, or_self] at hl
  cases hl
  rw [mapTexts_self fun s hs => (joinPairs_self s).mpr (hpairs s hs)] at hdoc
  have hread : dup.decoder.eval py.loadsDepth (page.visible policy claims).tree =
    .ok (page.visible policy claims) := by
    refine eval_reread ?_ ?_ (fun n hn => by cases hn) (visible_self hload) fun x _ => Or.inr fun c => rfl
    · intro ps w hw
      cases hw
      exact ⟨dictOf ps, rfl, fun m hm => mem_dictOf hm, dup.objectPairs_distinct (dictOf_names ps)⟩
    · intro c w hw
      rw [plain_constant] at hw
      cases hw
      rfl
  exact document_value ht hdoc heval hread

/-! ## The outcome -/

theorem filter_page {page : Page} (hload : loads py.pageDecoder py.loadsDepth raw = .ok (.obj page.doc)) :
    filterToolsList py policy claims raw = printPage py (page.visible policy claims)
      (page.tools.filter (allowedEntry policy claims)).length
      (page.tools.length - (page.tools.filter (allowedEntry policy claims)).length) := by
  rw [filterToolsList, hload, allowedEntry_named]
  exact filterDoc_counts page

theorem preserves_failed {code : Text} (h : filterToolsList py policy claims raw = .ok (.failed code)) :
    Preserves py policy claims raw :=
  ⟨_, h, fun hok => (by cases hok), fun _ => ⟨rfl, rfl⟩⟩

/-- A page that is printed is preserved where nothing is joined. -/
theorem preserves_printed {page : Page} (hload : loads py.pageDecoder py.loadsDepth raw = .ok (.obj page.doc))
    {s : Text} (h : py.pageEncoder.dumps py.dumpsDepth (page.visible policy claims) = .ok s) :
    Preserves py policy claims raw ↔ ∀ s ∈ (page.visible policy claims).texts, paired s = false := by
  obtain ⟨body, hbody, hdetect, hdoc⟩ := visible_printed h
  have houtcome : filterToolsList py policy claims raw =
      .ok ⟨some body, none, (page.tools.filter (allowedEntry policy claims)).length,
        page.tools.length - (page.tools.filter (allowedEntry policy claims)).length⟩ := by
    rw [filter_page hload, printPage, h]
    dsimp only
    rw [hbody]
  have hread := printed_read hload hdetect hdoc
  constructor
  · intro ⟨outcome, hout, hkept, _⟩
    rw [houtcome] at hout
    cases hout
    obtain ⟨doc, result, tools, body', hplain, hk⟩ := hkept rfl
    rw [loads_plain hload] at hplain
    cases hplain
    have hresult := hk.ofResult
    rw [page.ofResult] at hresult
    cases hresult
    have htools := hk.ofTools
    rw [page.ofTools] at htools
    cases htools
    cases hk.ofBody
    rw [← hread, visible_allowed]
    exact hk.read
  · intro hpairs
    refine ⟨_, houtcome, fun _ => ?_, fun hfailed => by cases hfailed⟩
    refine ⟨page.doc, page.result, page.tools, body, loads_plain hload, ?_⟩
    have hle : (page.tools.filter (allowedEntry policy claims)).length ≤ page.tools.length :=
      List.length_filter_le _ _
    exact {
      ofResult := page.ofResult
      ofTools := page.ofTools
      ofBody := rfl
      read := by
        rw [← visible_allowed]
        exact hread.mpr hpairs
      entries := by
        intro dup v hv entry hentry
        rw [printed_clients hload hbody hdetect hdoc hpairs hv, visible_allowed, entriesOf_withTools] at hentry
        exact (List.mem_filter.mp hentry).2
      returned := rfl
      filtered := Nat.add_sub_cancel' hle }

/-- The filter changes nothing but the denied entries exactly where no two surrogates meet in what it prints. -/
theorem filter_preserves_iff (py : Interp) (policy : ToolPolicy) (claims : Option Claims) (raw : Bytes) :
    Preserves py policy claims raw ↔ Unpaired py policy claims raw := by
  constructor
  · intro h
    obtain ⟨outcome, hout, _⟩ := id h
    refine ⟨?_, ?_, ?_⟩
    · intro hload
      rw [filterToolsList, hload] at hout
      cases hout
    · intro page hload hdumps
      rw [filter_page hload, printPage, hdumps] at hout
      cases hout
    · intro page hload hdepth hprintable
      obtain ⟨s, hs⟩ := dumps_total.mpr ⟨hdepth, hprintable⟩
      exact (preserves_printed hload hs).mp h
  · intro h
    cases hload : loads py.pageDecoder py.loadsDepth raw with
    | error e =>
      have hfailed : filterToolsList py policy claims raw = .ok (.failed filterFailed) := by
        rw [filterToolsList, hload]
        cases e with
        | recursion => exact absurd hload h.loads
        | _ => rfl
      exact preserves_failed hfailed
    | ok doc =>
      have hdoc : filterToolsList py policy claims raw = filterDoc py policy claims doc := by
        rw [filterToolsList, hload]
      obtain ⟨page, rfl⟩ | hfailed | hupstream := filterDoc_cases py policy claims doc
      · cases hs : py.pageEncoder.dumps py.dumpsDepth (page.visible policy claims) with
        | ok s =>
          obtain ⟨hdepth, hprintable⟩ := dumps_total.mp ⟨s, hs⟩
          exact (preserves_printed hload hs).mpr (h.texts page hload hdepth hprintable)
        | error e =>
          have hfailed : filterToolsList py policy claims raw = .ok (.failed filterFailed) := by
            rw [filter_page hload, printPage, hs]
            cases e with
            | recursion => exact absurd hs (h.dumps page hload)
            | _ => rfl
          exact preserves_failed hfailed
      · exact preserves_failed (hdoc.trans hfailed)
      · exact preserves_failed (hdoc.trans hupstream)

end

/-! ## A name of two surrogates -/

def surrogatePair : Text := [⟨0xD83D, by decide⟩, ⟨0xDE00, by decide⟩]

def joinedName : Text := [⟨0x1F600, by decide⟩]

def pairPolicy : ToolPolicy := ⟨{surrogatePair}, [], []⟩

def namedPage (name : Bytes) : Bytes :=
  ascii "\x7b\"jsonrpc\":\"2.0\",\"result\":\x7b\"tools\":[\x7b\"name\":\"" ++ name ++ ascii "\"\x7d]\x7d\x7d"

def joinedPage : Value :=
  .obj [(txt "jsonrpc", .str (txt "2.0")), (txt "result", .obj [(txt "tools", .arr [entry joinedName])])]

/-- The allowed name is printed as two units, which are read as a name that is not allowed. -/
theorem pair_not_preserved : ¬ ∀ py policy claims raw, Preserves py policy claims raw := by
  intro h
  have hfilter : filterToolsList .ascii pairPolicy none (namedPage [0xED, 0xA0, 0xBD, 0xED, 0xB8, 0x80]) =
      .ok ⟨some (namedPage (ascii "\\ud83d\\ude00")), none, 1, 0⟩ := by
    decide +kernel
  have hread : loads Interp.ascii.plainDecoder Interp.ascii.loadsDepth (namedPage (ascii "\\ud83d\\ude00")) =
    .ok joinedPage := by
    decide +kernel
  obtain ⟨outcome, hout, hkept, _⟩ := h .ascii pairPolicy none (namedPage [0xED, 0xA0, 0xBD, 0xED, 0xB8, 0x80])
  rw [hfilter] at hout
  cases hout
  obtain ⟨doc, result, tools, body, _, hk⟩ := hkept rfl
  cases hk.ofBody
  have hpage := hk.read
  rw [hread] at hpage
  have hentries := congrArg entriesOf (Except.ok.inj hpage)
  rw [entriesOf_withTools] at hentries
  have hallowed : ∀ e ∈ entriesOf joinedPage, allowedEntry pairPolicy none e = true := by
    rw [hentries]
    exact fun e he => (List.mem_filter.mp he).2
  revert hallowed
  decide +kernel

end McpGateway
