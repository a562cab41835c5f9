import McpGateway.Preservation

/-!
# Filters in a row

A filtered page is a page again. A second filter hides of it what it denies, so
two filters keep what both allow, in either order, and a filter applied to its
own output changes nothing.
-/

namespace McpGateway

open Unicode Json

/-! ## Members set again -/

section
variable {α : Type} {key : Text} {v w : α} {ms : List (Text × α)}

theorem setMember_again : setMember key w (setMember key v ms) = setMember key w ms := by
  induction ms with
  | nil => simp [setMember]
  | cons m ms ih =>
    obtain ⟨k, u⟩ := m
    by_cases hk : k = key
    · simp [setMember, hk]
    · simp [setMember, hk, ih]

theorem mem_setMember_other {m : Text × α} (h : m ∈ setMember key v ms) (w : α) :
    m = (key, v) ∨ m ∈ setMember key w ms := by
  induction ms with
  | nil => exact Or.inl (List.mem_singleton.mp h)
  | cons p ms ih =>
    obtain ⟨k, u⟩ := p
    rw [setMember] at h ⊢
    by_cases hk : k = key
    · rw [if_pos hk] at h ⊢
      obtain rfl | h := List.mem_cons.mp h
      · exact Or.inl (by rw [hk])
      · exact Or.inr (List.mem_cons_of_mem _ h)
    · rw [if_neg hk] at h ⊢
      obtain rfl | h := List.mem_cons.mp h
      · exact Or.inr List.mem_cons_self
      · exact (ih h).imp_right (List.mem_cons_of_mem _)

end

/-! ## A page with fewer entries -/

section
variable (page : Page) (keep : Value → Bool)

def Page.keptResult : List (Text × Value) := setMember (txt "tools") (.arr (page.tools.filter keep)) page.result

def Page.keptDoc : List (Text × Value) := setMember (txt "result") (.obj (page.keptResult keep)) page.doc

theorem keptDoc_lookup {name : Text} (h : name ≠ txt "result") :
    (page.keptDoc keep).lookup name = page.doc.lookup name := by
  rw [Page.keptDoc, lookup_setMember, if_neg h]

theorem keptDoc_version : (page.keptDoc keep).lookup (txt "jsonrpc") = some (.str (txt "2.0")) := by
  rw [keptDoc_lookup page keep (by decide)]
  exact page.version

theorem keptDoc_noError : (page.keptDoc keep).lookup (txt "error") = none := by
  rw [keptDoc_lookup page keep (by decide)]
  exact page.noError

theorem keptDoc_result : (page.keptDoc keep).lookup (txt "result") = some (.obj (page.keptResult keep)) := by
  rw [Page.keptDoc, lookup_setMember, if_pos rfl]

theorem keptResult_tools : (page.keptResult keep).lookup (txt "tools") = some (.arr (page.tools.filter keep)) := by
  rw [Page.keptResult, lookup_setMember, if_pos rfl]

theorem kept_named : ∀ entry ∈ page.tools.filter keep,
    ∃ name, dictGet (txt "name") entry = some (.str name) ∧ 1 ≤ name.length ∧ name.length ≤ 256 :=
  fun entry he => page.named entry (List.mem_filter.mp he).1

def Page.kept : Page where
  doc := page.keptDoc keep
  result := page.keptResult keep
  tools := page.tools.filter keep
  version := keptDoc_version page keep
  noError := keptDoc_noError page keep
  ofResult := keptDoc_result page keep
  ofTools := keptResult_tools page keep
  named := kept_named page keep

variable (keep' : Value → Bool)

/-- What passes one test and then another is what passes both. -/
theorem kept_kept : ((page.kept keep).kept keep').doc = page.keptDoc (fun entry => keep' entry && keep entry) := by
  have htools : (page.tools.filter keep).filter keep' =
      page.tools.filter fun entry => keep' entry && keep entry := List.filter_filter
  simp only [Page.kept, Page.keptDoc, Page.keptResult, setMember_again, htools]

end

/-! ## Printing fewer entries -/

section
variable {enc : Encoder} {d : Nat}

theorem dumps_setMember {key : Text} {v w : Value} {ms : List (Text × Value)}
    (hw : ∀ d, (∃ s, enc.dumps d v = .ok s) → ∃ s, enc.dumps d w = .ok s)
    (h : ∃ s, enc.dumps d (.obj (setMember key v ms)) = .ok s) :
    ∃ s, enc.dumps d (.obj (setMember key w ms)) = .ok s := by
  cases d with
  | zero =>
    obtain ⟨s, hs⟩ := h
    cases hs
  | succ d =>
    rw [dumps_obj] at h ⊢
    intro m hm
    obtain rfl | hm := mem_setMember_other hm v
    · exact hw d (h _ (setMember_self key v ms))
    · exact h m hm

theorem dumps_filter {keep keep' : Value → Bool} (hfewer : ∀ entry, keep' entry = true → keep entry = true)
    {tools : List Value} (h : ∃ s, enc.dumps d (.arr (tools.filter keep)) = .ok s) :
    ∃ s, enc.dumps d (.arr (tools.filter keep')) = .ok s := by
  cases d with
  | zero =>
    obtain ⟨s, hs⟩ := h
    cases hs
  | succ d =>
    rw [dumps_arr] at h ⊢
    intro entry he
    obtain ⟨hmem, hkeep⟩ := List.mem_filter.mp he
    exact h entry (List.mem_filter.mpr ⟨hmem, hfewer entry hkeep⟩)

theorem kept_printed {page : Page} {keep keep' : Value → Bool}
    (hfewer : ∀ entry, keep' entry = true → keep entry = true)
    (h : ∃ s, enc.dumps d (.obj (page.keptDoc keep)) = .ok s) :
    ∃ s, enc.dumps d (.obj (page.keptDoc keep')) = .ok s :=
  dumps_setMember (fun _ => dumps_setMember fun _ => dumps_filter hfewer) h

end

/-! ## Reading the filtered body -/

section
variable {py : Interp} {P Q : ToolPolicy} {c d : Option Claims} {raw body : Bytes} {page : Page}

theorem visible_kept (page : Page) : page.visible P c = .obj (page.keptDoc (allowedEntry P c)) :=
  visible_allowed page

/-- The filter loads its own output as the page that it printed. -/
theorem filtered_loads (hload : loads py.pageDecoder py.loadsDepth raw = .ok (.obj page.doc)) {s : Text}
    (hs : py.pageEncoder.dumps py.dumpsDepth (page.visible P c) = .ok s) (hbody : encodeUtf8 s = some body)
    (hpairs : ∀ s ∈ (page.visible P c).texts, paired s = false) :
    loads py.pageDecoder py.loadsDepth body = .ok (.obj (page.kept (allowedEntry P c)).doc) := by
  obtain ⟨body', hbody', hdetect, hdoc⟩ := visible_printed hs
  cases hbody.symm.trans hbody'
  rw [mapTexts_self fun s hs => (joinPairs_self s).mpr (hpairs s hs)] at hdoc
  have hfinite : ∀ x ∈ (page.visible P c).floats, x.isFinite = true :=
    (dumps_total.mp ⟨s, hs⟩).2.floats.resolve_left Bool.false_ne_true
  have hread : py.pageDecoder.eval py.loadsDepth (page.visible P c).tree = .ok (page.visible P c) := by
    have hself : py.plainDecoder.eval py.loadsDepth (page.visible P c).tree = .ok (page.visible P c) :=
      visible_self hload
    refine eval_reread ?_ ?_ ?_ hself fun x hx => Or.inl (hfinite x hx)
    · intro ps w hw
      cases hw
      exact ⟨dictOf ps, rfl, fun m hm => mem_dictOf hm, congrArg (fun ms => Except.ok (Value.obj ms))
        (dictOf_distinct (dictOf_names ps))⟩
    · intro k w hw
      rw [plain_constant] at hw
      cases hw
      rfl
    · intro n hn
      exact ⟨plain_digits hn, hn⟩
  rw [loads_document hdetect hdoc, hread, visible_kept]
  rfl

/-- A page that prints makes the outcome of the filter. -/
structure Filtered (py : Interp) (P : ToolPolicy) (c : Option Claims) (raw : Bytes) (page : Page) (s : Text)
    (body : Bytes) :
    Prop where
  loaded : loads py.pageDecoder py.loadsDepth raw = .ok (.obj page.doc)
  printed : py.pageEncoder.dumps py.dumpsDepth (page.visible P c) = .ok s
  encoded : encodeUtf8 s = some body

theorem Filtered.outcome {s : Text} (h : Filtered py P c raw page s body) : filterToolsList py P c raw =
    .ok ⟨some body, none, (page.tools.filter (allowedEntry P c)).length,
      page.tools.length - (page.tools.filter (allowedEntry P c)).length⟩ := by
  rw [filter_page h.loaded, printPage, h.printed]
  dsimp only
  rw [h.encoded]

theorem filtered_exists {outcome : FilterOutcome} (h : filterToolsList py P c raw = .ok outcome)
    (hbody : outcome.body = some body) :
    ∃ page s, Filtered py P c raw page s body := by
  have hfailed : ∀ code, Except.ok outcome ≠ (.ok (.failed code) : Except Exc FilterOutcome) := by
    rintro code hcode
    cases hcode
    cases hbody
  cases hload : loads py.pageDecoder py.loadsDepth raw with
  | error e =>
    rw [filterToolsList, hload] at h
    cases e with
    | recursion => cases h
    | _ => exact absurd h.symm (hfailed _)
  | ok doc =>
    have hdoc : filterToolsList py P c raw = filterDoc py P c doc := by
      rw [filterToolsList, hload]
    obtain ⟨page, rfl⟩ | hfail | hupstream := filterDoc_cases py P c doc
    · cases hs : py.pageEncoder.dumps py.dumpsDepth (page.visible P c) with
      | error e =>
        rw [filter_page hload, printPage, hs] at h
        cases e with
        | recursion => cases h
        | _ => exact absurd h.symm (hfailed _)
      | ok s =>
        obtain ⟨body', hbody'⟩ := dumps_ascii_encodes rfl hs
        have hfiltered : Filtered py P c raw page s body' := ⟨hload, hs, hbody'⟩
        rw [hfiltered.outcome] at h
        cases h
        cases hbody
        exact ⟨page, s, hfiltered⟩
    · exact absurd (h.symm.trans (hdoc.trans hfail)) (hfailed _)
    · exact absurd (h.symm.trans (hdoc.trans hupstream)) (hfailed _)

def bothAllow (P Q : ToolPolicy) (c d : Option Claims) (entry : Value) : Bool :=
  allowedEntry Q d entry && allowedEntry P c entry

theorem bothAllow_comm : bothAllow P Q c d = bothAllow Q P d c := funext fun _ => Bool.and_comm ..

theorem bothAllow_self : bothAllow P P c c = allowedEntry P c := funext fun _ => Bool.and_self _

/-- A second filter prints the entries that both allow. -/
theorem Filtered.second {s : Text} (h : Filtered py P c raw page s body)
    (hpairs : ∀ s ∈ (page.visible P c).texts, paired s = false) (Q : ToolPolicy) (d : Option Claims) :
    ∃ s' body', py.pageEncoder.dumps py.dumpsDepth (.obj (page.keptDoc (bothAllow P Q c d))) = .ok s' ∧
      encodeUtf8 s' = some body' ∧
      filterToolsList py Q d body = .ok ⟨some body', none, (page.tools.filter (bothAllow P Q c d)).length,
        (page.tools.filter (allowedEntry P c)).length - (page.tools.filter (bothAllow P Q c d)).length⟩ := by
  have hvisible : (page.kept (allowedEntry P c)).visible Q d = .obj (page.keptDoc (bothAllow P Q c d)) := by
    rw [visible_kept]
    exact congrArg Value.obj (kept_kept page _ _)
  have htools : (page.kept (allowedEntry P c)).tools.filter (allowedEntry Q d) =
      page.tools.filter (bothAllow P Q c d) :=
    List.filter_filter
  obtain ⟨s', hs'⟩ : ∃ s', py.pageEncoder.dumps py.dumpsDepth (.obj (page.keptDoc (bothAllow P Q c d))) =
      .ok s' := by
    refine kept_printed (fun entry he => ((Bool.and_eq_true ..).mp he).2) ⟨s, ?_⟩
    rw [← visible_kept]
    exact h.printed
  obtain ⟨body', hbody'⟩ := dumps_ascii_encodes rfl hs'
  refine ⟨s', body', hs', hbody', ?_⟩
  have hsecond : Filtered py Q d body (page.kept (allowedEntry P c)) s' body' :=
    ⟨filtered_loads h.loaded h.printed h.encoded hpairs, by rw [hvisible]; exact hs', hbody'⟩
  rw [hsecond.outcome, htools]
  rfl

/-- A policy that allows what both allow filters to the same body. -/
theorem Filtered.meet {s s' : Text} {body' : Bytes} (h : Filtered py P c raw page s body)
    (hs' : py.pageEncoder.dumps py.dumpsDepth (.obj (page.keptDoc (bothAllow P Q c d))) = .ok s')
    (hbody' : encodeUtf8 s' = some body') {R : ToolPolicy} {e : Option Claims}
    (hR : ∀ name, (R.check name e).allowed = ((P.check name c).allowed && (Q.check name d).allowed)) :
    filterToolsList py R e raw = .ok ⟨some body', none, (page.tools.filter (bothAllow P Q c d)).length,
      page.tools.length - (page.tools.filter (bothAllow P Q c d)).length⟩ := by
  have hallowed : allowedEntry R e = bothAllow P Q c d := by
    funext entry
    rw [bothAllow, allowedEntry, allowedEntry, allowedEntry]
    split
    · rw [hR, Bool.and_comm]
    · rfl
  have hmeet : Filtered py R e raw page s' body' := ⟨h.loaded, by rw [visible_kept, hallowed]; exact hs', hbody'⟩
  rw [hmeet.outcome, hallowed]

theorem hidden_adds : (page.tools.filter (bothAllow P Q c d)).length ≤
    (page.tools.filter (allowedEntry P c)).length ∧
    page.tools.length - (page.tools.filter (bothAllow P Q c d)).length =
      page.tools.length - (page.tools.filter (allowedEntry P c)).length +
        ((page.tools.filter (allowedEntry P c)).length - (page.tools.filter (bothAllow P Q c d)).length) := by
  have hfirst : (page.tools.filter (allowedEntry P c)).length ≤ page.tools.length := List.length_filter_le ..
  have hsecond : (page.tools.filter (bothAllow P Q c d)).length ≤
      (page.tools.filter (allowedEntry P c)).length := by
    have htools : page.tools.filter (bothAllow P Q c d) =
        (page.tools.filter (allowedEntry P c)).filter (allowedEntry Q d) :=
      List.filter_filter.symm
    rw [htools]
    exact List.length_filter_le ..
  exact ⟨hsecond, by omega⟩

/-- Filtering again by the same policy changes nothing. Two policies in either order give one body, that of any
policy that allows what both allow. -/
theorem filters_in_a_row (hP : Unpaired py P c raw) (hQ : Unpaired py Q d raw)
    {o o' : FilterOutcome} {body' : Bytes} (ho : filterToolsList py P c raw = .ok o) (hbody : o.body = some body)
    (ho' : filterToolsList py Q d raw = .ok o') (hbody' : o'.body = some body') :
    filterToolsList py P c body = .ok ⟨some body, none, o.toolsReturned, 0⟩ ∧
      ∃ both n hidden, n ≤ o.toolsReturned ∧ n ≤ o'.toolsReturned ∧
        hidden = o.toolsFiltered + (o.toolsReturned - n) ∧
        hidden = o'.toolsFiltered + (o'.toolsReturned - n) ∧
        filterToolsList py Q d body = .ok ⟨some both, none, n, o.toolsReturned - n⟩ ∧
        filterToolsList py P c body' = .ok ⟨some both, none, n, o'.toolsReturned - n⟩ ∧
        ∀ R e, (∀ name, (R.check name e).allowed = ((P.check name c).allowed && (Q.check name d).allowed)) →
          filterToolsList py R e raw = .ok ⟨some both, none, n, hidden⟩ := by
  obtain ⟨page, s, h⟩ := filtered_exists ho hbody
  obtain ⟨page', s', h'⟩ := filtered_exists ho' hbody'
  have hpage : page' = page := by
    have hdoc := h'.loaded.symm.trans h.loaded
    exact page_unique (Value.obj.inj (Except.ok.inj hdoc))
  subst hpage
  cases ho.symm.trans h.outcome
  cases ho'.symm.trans h'.outcome
  have hpairs : ∀ s ∈ (page'.visible P c).texts, paired s = false := by
    obtain ⟨hdepth, hprintable⟩ := dumps_total.mp ⟨s, h.printed⟩
    exact hP.texts page' h.loaded hdepth hprintable
  have hpairs' : ∀ s ∈ (page'.visible Q d).texts, paired s = false := by
    obtain ⟨hdepth, hprintable⟩ := dumps_total.mp ⟨s', h'.printed⟩
    exact hQ.texts page' h'.loaded hdepth hprintable
  refine ⟨?_, ?_⟩
  · obtain ⟨s₂, body₂, hs₂, hbody₂, hsecond⟩ := h.second hpairs P c
    rw [bothAllow_self] at hs₂ hsecond
    have hprinted := h.printed
    rw [visible_kept] at hprinted
    cases hprinted.symm.trans hs₂
    cases h.encoded.symm.trans hbody₂
    rw [hsecond, Nat.sub_self]
  · obtain ⟨s₂, both, hs₂, hboth, hsecond⟩ := h.second hpairs Q d
    obtain ⟨s₃, body₃, hs₃, hbody₃, hsecond'⟩ := h'.second hpairs' P c
    rw [bothAllow_comm] at hs₃ hsecond'
    cases hs₂.symm.trans hs₃
    cases hboth.symm.trans hbody₃
    obtain ⟨hle, hsum⟩ := @hidden_adds P Q c d page'
    obtain ⟨hle', hsum'⟩ := @hidden_adds Q P d c page'
    rw [bothAllow_comm] at hle' hsum'
    exact ⟨both, _, _, hle, hle', hsum, hsum', hsecond, hsecond', fun R e hR => h.meet hs₂ hboth hR⟩

end

/-! ## Two policies on one page -/

def rmPolicy : ToolPolicy := ⟨{txt "rm"}, [], []⟩

def rmPageBody : Bytes := ascii "\x7b\"jsonrpc\":\"2.0\",\"result\":\x7b\"tools\":[\x7b\"name\":\"rm\"\x7d]\x7d\x7d"

def nonePolicy : ToolPolicy := ⟨∅, [], []⟩

theorem unruled_allowed (tools : Finset Text) (name : Text) :
    ((⟨tools, [], []⟩ : ToolPolicy).check name none).allowed = (!name.isEmpty && decide (name ∈ tools)) := by
  rw [ToolPolicy.check]
  split
  · simp [*, denyTool]
  · by_cases hmem : name ∈ tools
    · simp [*]
    · simp [*, denyTool]

theorem none_allows (name : Text) : (nonePolicy.check name none).allowed =
    ((filesPolicy.check name none).allowed && (rmPolicy.check name none).allowed) := by
  rw [nonePolicy, filesPolicy, rmPolicy, unruled_allowed, unruled_allowed, unruled_allowed]
  by_cases hrm : name = txt "rm"
  · subst hrm
    decide
  · simp [hrm]

def bothPage : Page := filesPage [txt "rm", txt "read_file"] (by decide)

theorem bothPage_loaded {page : Page} (h : loads Interp.ascii.pageDecoder Interp.ascii.loadsDepth bothPageBody =
    .ok (.obj page.doc)) :
    page = bothPage := by
  have hload : loads Interp.ascii.pageDecoder Interp.ascii.loadsDepth bothPageBody =
      .ok (.obj bothPage.doc) := by decide +kernel
  exact page_unique (Value.obj.inj (Except.ok.inj (h.symm.trans hload)))

theorem bothPage_unpaired {P : ToolPolicy}
    (hprinted : (Interp.ascii.pageEncoder.dumps Interp.ascii.dumpsDepth (bothPage.visible P none)).isOk = true)
    (hpairs : ∀ s ∈ (bothPage.visible P none).texts, paired s = false) : Unpaired .ascii P none bothPageBody := by
  refine ⟨by decide +kernel, ?_, ?_⟩
  · intro page hload hdumps
    rw [bothPage_loaded hload] at hdumps
    rw [hdumps] at hprinted
    cases hprinted
  · intro page hload _ _
    rw [bothPage_loaded hload]
    exact hpairs

theorem filters_in_a_row_files : filterToolsList .ascii filesPolicy none readPageBody =
    .ok ⟨some readPageBody, none, 1, 0⟩ ∧
    ∃ both n, n ≤ 1 ∧ filterToolsList .ascii rmPolicy none readPageBody = .ok ⟨some both, none, n, 1 - n⟩ ∧
      filterToolsList .ascii filesPolicy none rmPageBody = .ok ⟨some both, none, n, 1 - n⟩ ∧
      filterToolsList .ascii nonePolicy none bothPageBody = .ok ⟨some both, none, n, 1 + (1 - n)⟩ := by
  have hfiles : filterToolsList .ascii filesPolicy none bothPageBody =
      .ok ⟨some readPageBody, none, 1, 1⟩ := by decide +kernel
  have hrm : filterToolsList .ascii rmPolicy none bothPageBody =
      .ok ⟨some rmPageBody, none, 1, 1⟩ := by decide +kernel
  obtain ⟨hagain, both, n, _, hle, _, rfl, _, hfirst, hsecond, hmeet⟩ :=
    filters_in_a_row (bothPage_unpaired (by decide +kernel) (by decide +kernel))
    (bothPage_unpaired (by decide +kernel) (by decide +kernel)) hfiles rfl hrm rfl
  exact ⟨hagain, both, n, hle, hfirst, hsecond, hmeet nonePolicy none fun name => none_allows name⟩

end McpGateway
