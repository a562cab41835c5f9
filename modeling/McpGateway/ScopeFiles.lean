import McpGateway.AuditTrail
import McpGateway.PolicyFiles

/-!
# The scopes a policy file writes

Of repeated members only the last is loaded. A requirement that is written is
kept where the members that are loaded ask for no less.
-/

namespace McpGateway

open Unicode Json

/-! ## What is written -/

def lastMember (key : Text) (ms : List (Text × Tree)) : Option Tree := ms.reverse.lookup key

def stringsTree (scopes : List Text) : Tree := .arr (scopes.map .str)

theorem stringsTree_inj {l l' : List Text} (h : stringsTree l = stringsTree l') : l = l' :=
  List.map_injective_iff.mpr (fun _ _ hs => Tree.str.inj hs) (Tree.arr.inj h)

/-- The member `method: scopes` occurs in a "rules" object. -/
def Written (ms : List (Text × Tree)) (method : Text) (scopes : List Text) : Prop :=
  ∃ rules, (txt "rules", .obj rules) ∈ ms ∧ (method, stringsTree scopes) ∈ rules

def lastRules (ms : List (Text × Tree)) : List (Text × Tree) :=
  match lastMember (txt "rules") ms with
  | some (.obj rules) => rules
  | _ => []

/-- The members that are loaded let a method pass to the holders of these scopes. -/
inductive Demands (ms : List (Text × Tree)) (method : Text) : List Text → Prop
  | own {scopes} : lastMember method (lastRules ms) = some (stringsTree scopes) → Demands ms method scopes
  | longest {key scopes} : method ∉ (lastRules ms).map Prod.fst →
      LongestPrefix ((lastRules ms).map Prod.fst) method key →
      lastMember key (lastRules ms) = some (stringsTree scopes) → Demands ms method scopes
  | fallback {scopes} : method ∉ (lastRules ms).map Prod.fst →
      (∀ key, ¬ LongestPrefix ((lastRules ms).map Prod.fst) method key) →
      (lastMember (txt "default") ms).getD (stringsTree []) = stringsTree scopes →
      scopes ≠ [] ∨ lastMember (txt "deny_by_default") ms = some (.bool false) → Demands ms method scopes

def Lossless (ms : List (Text × Tree)) : Prop :=
  ∀ method scopes, Written ms method scopes → ∀ demanded, Demands ms method demanded → scopes ⊆ demanded

/-- The check lets nobody pass without the scopes that are written. -/
def ScopePolicy.Keeps (py : Interp) (policy : ScopePolicy) (ms : List (Text × Tree)) : Prop :=
  ∀ method scopes held, Written ms method scopes → (policy.check py method held).allowed = true →
    ∀ scope ∈ scopes, scope ∈ held

/-! ## Repeated members -/

section
variable {dec : Decoder Empty} {d : Nat} {ms : List (Text × Tree)} {ps : List (Text × Value)}
  (hps : List.Forall₂ (fun m p => m.1 = p.1 ∧ dec.eval d m.2 = .ok p.2) ms ps)
include hps

theorem eval_lookup (key : Text) :
    (ms.lookup key = none ∧ ps.lookup key = none) ∨
      ∃ t v, ms.lookup key = some t ∧ ps.lookup key = some v ∧ dec.eval d t = .ok v := by
  induction hps with
  | nil => exact Or.inl ⟨rfl, rfl⟩
  | cons hmp _ ih =>
    rename_i m p ms ps _
    obtain ⟨hname, heval⟩ := hmp
    by_cases hk : key = m.1
    · refine Or.inr ⟨m.2, p.2, ?_, ?_, heval⟩
      · rw [hk, List.lookup_cons_self]
      · rw [hk, hname, List.lookup_cons_self]
    · rw [lookup_ne hk, lookup_ne (hname ▸ hk)]
      exact ih

/-- The value of a name is that of its last member. -/
theorem eval_last (key : Text) :
    (lastMember key ms = none ∧ (dictOf ps).lookup key = none) ∨
      ∃ t v, lastMember key ms = some t ∧ (dictOf ps).lookup key = some v ∧ dec.eval d t = .ok v := by
  rw [lookup_dictOf]
  exact eval_lookup (List.rel_reverse hps) key

end

/-! ## From values back to trees -/

section
variable {py : Interp} {d : Nat} {t : Tree}

theorem plain_kind {v : Value} (h : py.plainDecoder.eval d t = .ok v) :
    match v with
    | .bool b => t = .bool b
    | .str s => t = .str s
    | .arr vs => ∃ d' ts, t = .arr ts ∧ List.Forall₂ (fun t v => py.plainDecoder.eval d' t = .ok v) ts vs
    | .obj loaded => ∃ d' ms ps, t = .obj ms ∧ loaded = dictOf ps ∧
        List.Forall₂ (fun m p => m.1 = p.1 ∧ py.plainDecoder.eval d' m.2 = .ok p.2) ms ps
    | _ => True := by
  cases t with
  | null =>
    rw [Decoder.eval] at h
    cases h
    trivial
  | bool b =>
    rw [Decoder.eval] at h
    cases h
    rfl
  | const c =>
    rw [Decoder.eval, hooked_ok, plain_constant] at h
    cases h
    trivial
  | num n =>
    rw [Decoder.eval, Decoder.number] at h
    split at h
    · split at h
      · cases h
      · cases h
        trivial
    · cases h
      trivial
  | str s =>
    rw [Decoder.eval] at h
    cases h
    rfl
  | arr ts =>
    obtain ⟨d', vs, _, rfl, hvs⟩ := eval_arr h
    exact ⟨d', ts, rfl, hvs⟩
  | obj ms =>
    obtain ⟨d', ps, _, hv, hps⟩ := eval_obj h
    rw [plain_objectPairs] at hv
    cases hv
    exact ⟨d', ms, ps, rfl, rfl, hps⟩

theorem eval_strings {scopes : List Text} (h : py.plainDecoder.eval d t = .ok (.arr (scopes.map .str))) :
    t = stringsTree scopes := by
  obtain ⟨d', ts, rfl, hts⟩ := plain_kind h
  rw [List.forall₂_map_right_iff] at hts
  have heq : List.Forall₂ (fun t t' => t = t') ts (scopes.map .str) :=
    List.forall₂_map_right_iff.mpr (hts.imp fun _ _ hs => plain_kind hs)
  rw [List.forall₂_eq_eq_eq] at heq
  rw [stringsTree, heq]

end

/-! ## The table -/

theorem scopeList_ok {raw : Value} {notList nonString : Text} {scopes : Finset Text}
    (h : scopeList raw notList nonString = .ok scopes) : ∃ l : List Text, raw = .arr (l.map .str) ∧
    scopes = l.toFinset := by
  unfold scopeList at h
  split at h
  · split at h
    · rename_i l hl
      cases h
      exact ⟨l, by rw [mapM_strOf.mp hl], rfl⟩
    · cases h
  · cases h

theorem scopeRules_names {raws : List (Text × Value)} {rules : List (Text × Finset Text)}
    (h : scopeRules raws = .ok rules) :
    rules.map Prod.fst = raws.map Prod.fst := by
  induction raws generalizing rules with
  | nil =>
    cases h
    rfl
  | cons raw raws ih =>
    unfold scopeRules at h
    obtain ⟨scopes, _, h⟩ := bind_ok.mp h
    obtain ⟨rest, hrest, h⟩ := bind_ok.mp h
    cases h
    rw [List.map_cons, List.map_cons, ih hrest]

theorem scopeRules_lookup {raws : List (Text × Value)} {rules : List (Text × Finset Text)}
    (h : scopeRules raws = .ok rules) (key : Text) : (raws.lookup key = none ∧ rules.lookup key = none) ∨
      ∃ l : List Text, raws.lookup key = some (.arr (l.map .str)) ∧ rules.lookup key = some l.toFinset := by
  induction raws generalizing rules with
  | nil =>
    cases h
    exact Or.inl ⟨rfl, rfl⟩
  | cons raw raws ih =>
    obtain ⟨method, raw⟩ := raw
    unfold scopeRules at h
    obtain ⟨scopes, hscopes, h⟩ := bind_ok.mp h
    obtain ⟨rest, hrest, h⟩ := bind_ok.mp h
    cases h
    obtain ⟨l, rfl, rfl⟩ := scopeList_ok hscopes
    by_cases hk : key = method
    · rw [hk, List.lookup_cons_self, List.lookup_cons_self]
      exact Or.inr ⟨l, rfl, rfl⟩
    · rw [lookup_ne hk, lookup_ne hk]
      exact ih hrest

theorem lastMember_none {key : Text} {ms : List (Text × Tree)} :
    lastMember key ms = none ↔ key ∉ ms.map Prod.fst := by
  rw [lastMember, lookup_none_iff, List.map_reverse, List.mem_reverse]

structure Makes (ms : List (Text × Tree)) (policy : ScopePolicy) : Prop where
  rules : ∀ key, (lastMember key (lastRules ms) = none ∧ policy.rules.lookup key = none) ∨
    ∃ scopes, lastMember key (lastRules ms) = some (stringsTree scopes) ∧
      policy.rules.lookup key = some scopes.toFinset
  default : ∃ scopes, (lastMember (txt "default") ms).getD (stringsTree []) = stringsTree scopes ∧
    policy.default = scopes.toFinset
  deny : policy.denyByDefault = false ↔ lastMember (txt "deny_by_default") ms = some (.bool false)

section
variable {py : Interp} {d : Nat} {ms : List (Text × Tree)} {ps : List (Text × Value)}
  (hps : List.Forall₂ (fun m p => m.1 = p.1 ∧ py.plainDecoder.eval d m.2 = .ok p.2) ms ps)
include hps

theorem methodTable_last {raws : List (Text × Value)}
    (h : methodTable (getOr (dictOf ps) (txt "rules") (.obj [])) = .ok raws) :
    ∃ d' ps', raws = dictOf ps' ∧
      List.Forall₂ (fun m p => m.1 = p.1 ∧ py.plainDecoder.eval d' m.2 = .ok p.2) (lastRules ms) ps' := by
  obtain ⟨hlast, hlookup⟩ | ⟨t, v, hlast, hlookup, heval⟩ := eval_last hps (txt "rules")
  · rw [getOr, hlookup] at h
    cases h
    exact ⟨d, [], rfl, by simp [lastRules, hlast]⟩
  · rw [getOr, hlookup, Option.getD_some] at h
    unfold methodTable at h
    split at h
    · cases h
      obtain ⟨d', rules, ps', rfl, hraws, hps'⟩ := plain_kind heval
      exact ⟨d', ps', hraws, by simpa [lastRules, hlast] using hps'⟩
    · cases h

theorem scopeList_last {key notList nonString : Text} {scopes : Finset Text}
    (h : scopeList (getOr (dictOf ps) key (.arr [])) notList nonString = .ok scopes) :
    ∃ l : List Text, (lastMember key ms).getD (stringsTree []) = stringsTree l ∧ scopes = l.toFinset := by
  obtain ⟨l, hl, rfl⟩ := scopeList_ok h
  refine ⟨l, ?_, rfl⟩
  obtain ⟨hlast, hlookup⟩ | ⟨t, v, hlast, hlookup, heval⟩ := eval_last hps key
  · rw [getOr, hlookup, Option.getD_none] at hl
    have hnil : l = [] := by simpa using (Value.arr.inj hl).symm
    rw [hlast, hnil, Option.getD_none]
  · rw [getOr, hlookup, Option.getD_some] at hl
    rw [hl] at heval
    rw [hlast, Option.getD_some, eval_strings heval]

theorem denyFlag_last {key : Text} {deny : Bool} (h : denyFlag (getOr (dictOf ps) key (.bool true)) = .ok deny) :
    deny = false ↔ lastMember key ms = some (.bool false) := by
  obtain ⟨hlast, hlookup⟩ | ⟨t, v, hlast, hlookup, heval⟩ := eval_last hps key
  · rw [getOr, hlookup] at h
    cases h
    simp [hlast]
  · rw [getOr, hlookup, Option.getD_some] at h
    unfold denyFlag at h
    split at h
    · cases h
      have ht : t = .bool deny := plain_kind heval
      simp [hlast, ht]
    · cases h

/-- The policy of a file is made of its last members. -/
theorem ofMembers_makes {policy : ScopePolicy} (h : ScopePolicy.ofMembers (dictOf ps) = .ok policy) :
    Makes ms policy := by
  unfold ScopePolicy.ofMembers at h
  obtain ⟨raws, hraws, h⟩ := bind_ok.mp h
  obtain ⟨rules, hrules, h⟩ := bind_ok.mp h
  obtain ⟨default, hdefault, h⟩ := bind_ok.mp h
  obtain ⟨deny, hdeny, h⟩ := bind_ok.mp h
  cases h
  refine ⟨?_, scopeList_last hps hdefault, denyFlag_last hps hdeny⟩
  obtain ⟨d', ps', rfl, hps'⟩ := methodTable_last hps hraws
  have hdistinct : (rules.map Prod.fst).Nodup := by
    rw [scopeRules_names hrules]
    exact dictOf_names ps'
  intro key
  dsimp only
  rw [dictOf_distinct hdistinct]
  obtain ⟨hlast, hlookup⟩ | ⟨t, v, hlast, hlookup, heval⟩ := eval_last hps' key
  · obtain ⟨_, hnone⟩ | ⟨l, hsome, _⟩ := scopeRules_lookup hrules key
    · exact Or.inl ⟨hlast, hnone⟩
    · rw [hlookup] at hsome
      cases hsome
  · obtain ⟨hnone, _⟩ | ⟨l, hsome, hrule⟩ := scopeRules_lookup hrules key
    · rw [hlookup] at hnone
      cases hnone
    · rw [hlookup] at hsome
      cases hsome
      exact Or.inr ⟨l, by rw [hlast, eval_strings heval], hrule⟩

end

section
variable {py : Interp} {file : Bytes} {s : Text} {ms : List (Text × Tree)} {policy : ScopePolicy}

theorem fromFile_loads (h : ScopePolicy.fromFile py file = .ok policy) :
    ∃ s t loaded, readText file = some s ∧ Document s t ∧ py.plainDecoder.eval py.loadsDepth t = .ok (.obj loaded) ∧
      ScopePolicy.ofMembers loaded = .ok policy := by
  unfold ScopePolicy.fromFile at h
  split at h
  · cases h
  · rename_i loaded hload
    obtain ⟨s, t, hs, ht, heval⟩ := loadFile_ok hload
    exact ⟨s, t, loaded, hs, ht, heval, h⟩
  · cases h

theorem fromFile_document (h : ScopePolicy.fromFile py file = .ok policy) :
    ∃ s ms, readText file = some s ∧ Document s (.obj ms) := by
  obtain ⟨s, t, loaded, hs, ht, heval, _⟩ := fromFile_loads h
  obtain ⟨_, ms, _, rfl, _⟩ := plain_kind heval
  exact ⟨s, ms, hs, ht⟩

/-- Every tree of the text makes the same policy. -/
theorem fromFile_makes (hs : readText file = some s) (ht : Document s (.obj ms))
    (h : ScopePolicy.fromFile py file = .ok policy) :
    Makes ms policy := by
  obtain ⟨s', t, loaded, hs', ht', heval, hmembers⟩ := fromFile_loads h
  rw [hs] at hs'
  cases hs'
  rw [document_eval py.plainDecoder ht' ht] at heval
  obtain ⟨d, ms', ps, hms, rfl, hps⟩ := plain_kind heval
  cases hms
  exact ofMembers_makes hps hmembers

/-! ## What the table asks for -/

theorem Makes.own (h : Makes ms policy) {key : Text} {required : Finset Text} :
    (key, required) ∈ policy.rules ↔
      ∃ scopes, lastMember key (lastRules ms) = some (stringsTree scopes) ∧ required = scopes.toFinset := by
  rw [← rule_lookup]
  obtain ⟨hlast, hlookup⟩ | ⟨scopes, hlast, hlookup⟩ := h.rules key
  · simp [hlast, hlookup]
  · rw [hlast, hlookup]
    constructor
    · intro he
      cases he
      exact ⟨scopes, rfl, rfl⟩
    · intro ⟨scopes', he, hrequired⟩
      rw [hrequired, stringsTree_inj (Option.some.inj he)]

theorem Makes.names (h : Makes ms policy) (key : Text) :
    key ∈ policy.rules.map Prod.fst ↔ key ∈ (lastRules ms).map Prod.fst := by
  rw [← not_iff_not, ← lookup_none_iff, ← lastMember_none]
  obtain ⟨hlast, hlookup⟩ | ⟨scopes, hlast, hlookup⟩ := h.rules key
  · simp [hlast, hlookup]
  · simp [hlast, hlookup]

theorem LongestPrefix.congr {keys keys' : List Text} {method best : Text} (hkeys : ∀ key, key ∈ keys ↔ key ∈ keys')
    (h : LongestPrefix keys method best) : LongestPrefix keys' method best :=
  ⟨(hkeys best).mp h.mem, h.isPrefix, fun key hk => h.longest key ((hkeys key).mpr hk)⟩

/-- No rule decides about a method that is no key and has no prefix key. -/
theorem not_ruled_iff {method : Text} : (∀ required, ¬ policy.Ruled method required) ↔
    method ∉ policy.rules.map Prod.fst ∧ ∀ key, ¬ LongestPrefix (policy.rules.map Prod.fst) method key := by
  constructor
  · intro hnone
    have hnot : method ∉ policy.rules.map Prod.fst := by
      intro hmem
      obtain ⟨rule, hrule, hname⟩ := List.mem_map.mp hmem
      exact hnone rule.2 (.exact (hname ▸ hrule))
    refine ⟨hnot, ?_⟩
    intro key hbest
    obtain ⟨rule, hrule, hname⟩ := List.mem_map.mp hbest.mem
    exact hnone rule.2 (.longest hnot hbest (hname ▸ hrule))
  · intro ⟨hnot, hnone⟩ required hruled
    cases hruled with
    | exact hmem => exact hnot (List.mem_map_of_mem hmem)
    | longest _ hbest _ => exact hnone _ hbest

theorem Makes.asked (h : Makes ms policy) {method : Text} {required : Finset Text} :
    policy.asked method = some required ↔ ∃ scopes, Demands ms method scopes ∧ required = scopes.toFinset := by
  have hnames := h.names
  obtain ⟨default, hdefault, hpolicy⟩ := h.default
  have hdeny := h.deny
  rw [asked_iff]
  constructor
  · intro hasks
    cases hasks with
    | rule hruled =>
      cases hruled with
      | exact hmem =>
        obtain ⟨scopes, hlast, hrequired⟩ := h.own.mp hmem
        exact ⟨scopes, .own hlast, hrequired⟩
      | longest hnot hbest hmem =>
        obtain ⟨scopes, hlast, hrequired⟩ := h.own.mp hmem
        exact ⟨scopes, .longest (mt (hnames method).mpr hnot) (hbest.congr hnames) hlast, hrequired⟩
    | fallback hnone hopen =>
      obtain ⟨hnot, hprefixes⟩ := not_ruled_iff.mp hnone
      refine ⟨default, .fallback (mt (hnames method).mpr hnot) ?_ hdefault ?_, hpolicy⟩
      · intro key hbest
        exact hprefixes key (hbest.congr fun key => (hnames key).symm)
      · rw [← hdeny]
        by_cases hd : policy.denyByDefault = true
        · refine Or.inl ?_
          intro hnil
          exact hopen ⟨hd, by rw [hpolicy, hnil]; rfl⟩
        · exact Or.inr (by simpa using hd)
  · intro ⟨scopes, hdemands, hrequired⟩
    cases hdemands with
    | own hlast => exact .rule (.exact (h.own.mpr ⟨scopes, hlast, hrequired⟩))
    | longest hnot hbest hlast =>
      exact .rule (.longest (mt (hnames method).mp hnot) (hbest.congr fun key => (hnames key).symm)
        (h.own.mpr ⟨scopes, hlast, hrequired⟩))
    | fallback hnot hnone hlast hopen =>
      rw [stringsTree_inj (hdefault.symm.trans hlast)] at hpolicy
      rw [hrequired, ← hpolicy]
      refine .fallback (not_ruled_iff.mpr ⟨mt (hnames method).mp hnot, ?_⟩) ?_
      · intro key hbest
        exact hnone key (hbest.congr hnames)
      · intro ⟨hd, hempty⟩
        rw [← hdeny, hd] at hopen
        cases hopen with
        | inl hne => exact hne (List.toFinset_eq_empty_iff _ |>.mp (hpolicy.symm.trans hempty))
        | inr hfalse => cases hfalse

/-- Nothing written is lost exactly when it is demanded. -/
theorem Makes.keeps_iff (h : Makes ms policy) : policy.Keeps py ms ↔ Lossless ms := by
  constructor
  · intro hkeeps method scopes hwritten demanded hdemands scope hscope
    have hallowed : (policy.check py method demanded.toFinset).allowed = true :=
      check_allowed.mpr ⟨demanded.toFinset, h.asked.mpr ⟨demanded, hdemands, rfl⟩, Finset.Subset.refl _⟩
    exact List.mem_toFinset.mp (hkeeps method scopes _ hwritten hallowed scope hscope)
  · intro hlossless method scopes held hwritten hallowed scope hscope
    obtain ⟨required, hasked, hsub⟩ := check_allowed.mp hallowed
    obtain ⟨demanded, hdemands, rfl⟩ := h.asked.mp hasked
    exact hsub (List.mem_toFinset.mpr (hlossless method scopes hwritten demanded hdemands hscope))

end

/-! ## Failures -/

theorem scopeList_error {raw : Value} {notList nonString : Text} {e : FileError}
    (h : scopeList raw notList nonString = .error e) : e.isValueError = true := by
  unfold scopeList at h
  split at h
  · split at h
    · cases h
    · cases h
      rfl
  · cases h
    rfl

theorem scopeRules_error {raws : List (Text × Value)} {e : FileError} (h : scopeRules raws = .error e) :
    e.isValueError = true := by
  induction raws with
  | nil => cases h
  | cons raw raws ih =>
    unfold scopeRules at h
    obtain h | ⟨scopes, _, h⟩ := bind_error.mp h
    · exact scopeList_error h
    obtain h | ⟨rules, _, h⟩ := bind_error.mp h
    · exact ih h
    · cases h

theorem ofMembers_error {ms : List (Text × Value)} {e : FileError} (h : ScopePolicy.ofMembers ms = .error e) :
    e.isValueError = true := by
  unfold ScopePolicy.ofMembers at h
  obtain h | ⟨raws, _, h⟩ := bind_error.mp h
  · unfold methodTable at h
    split at h
    · cases h
    · cases h
      rfl
  obtain h | ⟨rules, _, h⟩ := bind_error.mp h
  · exact scopeRules_error h
  obtain h | ⟨default, _, h⟩ := bind_error.mp h
  · exact scopeList_error h
  obtain h | ⟨deny, _, h⟩ := bind_error.mp h
  · unfold denyFlag at h
    split at h
    · cases h
    · cases h
      rfl
  · cases h

theorem tooDeepText_head {fits : Tree → Prop} {d : Nat} {s : Text} (h : TooDeepText fits d s) :
    s.head? ≠ some byteOrderMark := by
  intro hb
  obtain ⟨s', hw, hdeep⟩ := h
  cases hw with
  | nil =>
    cases hdeep with
    | arrBottom => exact absurd (Option.some.inj hb) (by decide)
    | objBottom => exact absurd (Option.some.inj hb) (by decide)
    | arr _ _ => exact absurd (Option.some.inj hb) (by decide)
    | obj _ _ => exact absurd (Option.some.inj hb) (by decide)
  | cons hc _ =>
    cases hb
    exact absurd hc (by decide)

theorem plain_recursion {py : Interp} {s : Text} : scanDocument py.plainDecoder py.loadsDepth s =
    .error .recursion ↔
    TooDeepText (fun t => t.withinDigits py.maxStrDigits = true) py.loadsDepth s :=
  scanDocument_plain (fun ps => ⟨_, plain_objectPairs ps⟩) fun c => ⟨_, plain_constant c⟩

/-- Loading raises something else than `ValueError` on the texts that are nested too deep. -/
theorem fromFile_raises {py : Interp} {file : Bytes} :
    (∃ e, ScopePolicy.fromFile py file = .error e ∧ e.isValueError = false) ↔
      ∃ s, readText file = some s ∧ TooDeepText (fun t => t.withinDigits py.maxStrDigits = true)
      py.loadsDepth s := by
  simp only [← plain_recursion]
  constructor
  · intro ⟨e, he, hvalue⟩
    unfold ScopePolicy.fromFile at he
    split at he
    · rename_i hload
      cases he
      obtain ⟨s, hs, _, hscan⟩ := (loadFile_error hload).mp hvalue
      exact ⟨s, hs, hscan⟩
    · rw [ofMembers_error he] at hvalue
      cases hvalue
    · cases he
      cases hvalue
  · intro ⟨s, hs, hscan⟩
    have hb := tooDeepText_head (plain_recursion.mp hscan)
    refine ⟨.recursionError, ?_, rfl⟩
    simp only [ScopePolicy.fromFile, loadFile, hs, if_neg hb, hscan]

/-- The policy of a file keeps what the file writes exactly when its last members demand it, and loading fails
with a `ValueError` or not at all exactly on the texts that are not nested too deep. -/
theorem scope_file_lossless_iff (py : Interp) (file : Bytes) :
    (∀ policy, ScopePolicy.fromFile py file = .ok policy → ∃ s, readText file = some s ∧
    (∃ ms, Document s (.obj ms)) ∧
      ∀ ms, Document s (.obj ms) → (policy.Keeps py ms ↔ Lossless ms)) ∧
    (((∃ policy, ScopePolicy.fromFile py file = .ok policy) ∨
        ∃ e, ScopePolicy.fromFile py file = .error e ∧ e.isValueError = true) ↔
      ¬ ∃ s, readText file = some s ∧ TooDeepText (fun t => t.withinDigits py.maxStrDigits = true)
      py.loadsDepth s) := by
  constructor
  · intro policy h
    obtain ⟨s, ms, hs, ht⟩ := fromFile_document h
    exact ⟨s, hs, ⟨ms, ht⟩, fun ms' ht' => (fromFile_makes hs ht' h).keeps_iff⟩
  · rw [← fromFile_raises]
    cases h : ScopePolicy.fromFile py file with
    | ok policy => simp
    | error e => simp

def twice (method : Text) (first second : List Text) : Value :=
  .obj [(txt "rules", .obj [(method, .arr (first.map .str)), (method, .arr (second.map .str))])]

def twiceMembers (method : Text) (first second : List Text) : List (Text × Tree) :=
  [(txt "rules", .obj [(method, stringsTree first), (method, stringsTree second)])]

theorem twice_tree (method : Text) (first second : List Text) :
    (twice method first second).tree = .obj (twiceMembers method first second) := by
  simp [twice, twiceMembers, stringsTree, Value.tree, memberTrees, trees_eq, Function.comp_def]

theorem twice_lossless {method : Text} {first second : List Text} (h : first ⊆ second) :
    Lossless (twiceMembers method first second) := by
  intro method' scopes ⟨rules, hrules, hmem⟩ demanded hdemands
  have hlast : lastRules (twiceMembers method first second) =
      [(method, stringsTree first), (method, stringsTree second)] := rfl
  cases List.mem_singleton.mp hrules
  simp only [List.mem_cons, Prod.mk.injEq, List.not_mem_nil, or_false] at hmem
  have hmethod : method' = method := by
    cases hmem with
    | inl hm => exact hm.1
    | inr hm => exact hm.1
  have hscopes : scopes ⊆ second := by
    cases hmem with
    | inl hm => exact stringsTree_inj hm.2 ▸ h
    | inr hm => exact stringsTree_inj hm.2 ▸ List.Subset.refl _
  have hnamed : method' ∈ (lastRules (twiceMembers method first second)).map Prod.fst := by simp [hlast, hmethod]
  cases hdemands with
  | own hown =>
    rw [hlast, hmethod, lastMember, List.reverse_cons, List.reverse_singleton, List.singleton_append,
      List.lookup_cons_self] at hown
    exact stringsTree_inj (Option.some.inj hown) ▸ hscopes
  | longest hnot _ _ => exact absurd hnamed hnot
  | fallback hnot _ _ _ => exact absurd hnamed hnot

def widenedFile : Bytes := ascii "\x7b\"rules\":\x7b\"ping\":[\"a\"],\"ping\":[\"b\",\"a\"]\x7d\x7d"

theorem scope_file_lossless_iff_twice :
    ∃ policy, ScopePolicy.fromFile .ascii widenedFile = .ok policy ∧
      policy.Keeps .ascii (twiceMembers (txt "ping") [txt "a"] [txt "b", txt "a"]) ∧
      ¬ ∃ s, readText widenedFile = some s ∧
        TooDeepText (fun t => t.withinDigits Interp.ascii.maxStrDigits = true) Interp.ascii.loadsDepth s := by
  have hfile : ScopePolicy.fromFile .ascii widenedFile =
      .ok ⟨[(txt "ping", {txt "b", txt "a"})], ∅, true, List.nodup_singleton _⟩ := by decide +kernel
  have hdumps : Interp.ascii.encoder.dumps 900 (twice (txt "ping") [txt "a"] [txt "b", txt "a"]) =
      .ok (txt "\x7b\"rules\":\x7b\"ping\":[\"a\"],\"ping\":[\"b\",\"a\"]\x7d\x7d") := by decide +kernel
  have hread : readText widenedFile =
      some (txt "\x7b\"rules\":\x7b\"ping\":[\"a\"],\"ping\":[\"b\",\"a\"]\x7d\x7d") := by decide +kernel
  have hdoc := dumps_document rfl hdumps
  rw [twice_tree] at hdoc
  obtain ⟨hkeeps, hraises⟩ := scope_file_lossless_iff .ascii widenedFile
  obtain ⟨s, hs, _, hiff⟩ := hkeeps _ hfile
  rw [hread] at hs
  cases hs
  exact ⟨_, hfile, (hiff _ hdoc).mpr (twice_lossless (by decide)), hraises.mp (Or.inl ⟨_, hfile⟩)⟩

def replacedFile : Bytes := ascii "\x7b\"rules\":\x7b\"ping\":[\"a\"],\"ping\":[\"b\"]\x7d\x7d"

theorem repeated_not_kept :
    ∃ policy s ms, ScopePolicy.fromFile .ascii replacedFile = .ok policy ∧
      readText replacedFile = some s ∧ Document s (.obj ms) ∧
      ¬ policy.Keeps .ascii ms := by
  have hdumps : Interp.ascii.encoder.dumps 900 (twice (txt "ping") [txt "a"] [txt "b"]) =
      .ok (txt "\x7b\"rules\":\x7b\"ping\":[\"a\"],\"ping\":[\"b\"]\x7d\x7d") := by decide +kernel
  have hdoc := dumps_document rfl hdumps
  rw [twice_tree] at hdoc
  refine ⟨⟨[(txt "ping", {txt "b"})], ∅, true, List.nodup_singleton _⟩, _,
    _, by decide +kernel, by decide +kernel, hdoc, ?_⟩
  intro h
  have hwritten : Written (twiceMembers (txt "ping") [txt "a"] [txt "b"]) (txt "ping") [txt "a"] :=
    ⟨_, List.mem_cons_self, List.mem_cons_self⟩
  exact absurd (h _ _ {txt "b"} hwritten (by decide +kernel) (txt "a") List.mem_cons_self) (by decide)

end McpGateway