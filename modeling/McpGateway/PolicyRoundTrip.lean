import McpGateway.PolicyFiles
import McpGateway.Unpaired

/-!
# Policies and the files that hold them

A policy is written as JSON, its sets in order. What of a policy survives the
file is exactly what the loaders check, and that no string has a pair of
surrogates.
-/

namespace McpGateway

open Unicode Json

/-! ## Policies as values -/

def stringsValue (strings : Finset Text) : Value := .arr ((sorted strings).map .str)

def ToolRule.value (rule : ToolRule) : Value :=
  .obj [(txt "name", .str rule.name), (txt "any_of", stringsValue rule.anyOf),
    (txt "allowed_tools", stringsValue rule.allowedTools)]

def ToolPolicy.value (policy : ToolPolicy) : Value :=
  .obj [(txt "allowed_tools", stringsValue policy.allowedTools), (txt "claim", .str policy.claim),
    (txt "rules", .arr (policy.rules.map ToolRule.value))]

def ScopePolicy.value (policy : ScopePolicy) : Value :=
  .obj [(txt "rules", .obj (policy.rules.map fun rule => (rule.1, stringsValue rule.2))),
    (txt "default", stringsValue policy.default), (txt "deny_by_default", .bool policy.denyByDefault)]

def Printed (v : Value) (file : Bytes) : Prop :=
  ∃ (enc : Encoder) (d : Nat) (s : Text), enc.ensureAscii = true ∧ enc.dumps d v = .ok s ∧ encodeUtf8 s = some file

/-! ## Reading a printed file -/

theorem newlines_line {s : Text} (h : Line s) : newlines s = s := by
  induction s with
  | nil => rfl
  | cons c s ih =>
    obtain ⟨hc, hs⟩ := line_cons.mp h
    have hne : c ≠ ch '\r' := by
      rintro rfl
      exact absurd hc.1 (by decide)
    rw [newlines, if_neg hne, ih hs]

theorem newlines_scalar {s : Text} (h : Scalar s) : Scalar (newlines s) := by
  induction s with
  | nil => exact h
  | cons c s ih =>
    obtain ⟨hc, hs⟩ := scalar_cons.mp h
    rw [newlines]
    split
    · split
      · exact ih hs
      · exact scalar_cons.mpr ⟨by decide, ih hs⟩
    · exact scalar_cons.mpr ⟨hc, ih hs⟩

theorem decodeStrict_scalar {file : Bytes} {s : Text} (h : decodeStrict file = some s) : Scalar s := by
  unfold decodeStrict at h
  split at h
  · split at h
    · rename_i hall
      cases h
      intro c hc
      simpa using List.all_eq_true.mp hall c hc
    · cases h
  · cases h

/-- Nested at most `d` deep, with no name twice in an object and no integer. -/
structure Tidy (d : Nat) (v : Value) : Prop where
  depth : v.depth ≤ d
  distinct : v.Distinct
  ints : ∀ z, z ∉ v.ints

theorem Tidy.mono {d d' : Nat} {v : Value} (h : Tidy d v) (hle : d ≤ d') : Tidy d' v :=
  ⟨h.depth.trans hle, h.distinct, h.ints⟩

theorem tidy_str (s : Text) : Tidy 0 (.str s) := by
  refine ⟨Nat.le_refl 0, distinct_leaf rfl, ?_⟩
  intro z hz
  cases hz

theorem tidy_bool (b : Bool) : Tidy 0 (.bool b) := by
  refine ⟨Nat.le_refl 0, distinct_leaf rfl, ?_⟩
  intro z hz
  cases hz

theorem tidy_arr {d : Nat} {vs : List Value} (h : ∀ v ∈ vs, Tidy d v) : Tidy (d + 1) (.arr vs) := by
  refine ⟨?_, distinct_arr.mpr fun v hv => (h v hv).distinct, ?_⟩
  · rw [Value.depth, Nat.add_le_add_iff_right, depthElems_le]
    exact fun v hv => (h v hv).depth
  · intro z hz
    obtain ⟨v, hv, hz⟩ := mem_ints_arr.mp hz
    exact (h v hv).ints z hz

theorem tidy_obj {d : Nat} {ms : List (Text × Value)} (hnames : (ms.map Prod.fst).Nodup)
    (h : ∀ m ∈ ms, Tidy d m.2) :
    Tidy (d + 1) (.obj ms) := by
  refine ⟨?_, distinct_obj.mpr ⟨hnames, fun m hm => (h m hm).distinct⟩, ?_⟩
  · rw [Value.depth, Nat.add_le_add_iff_right, depthPairs_le]
    exact fun m hm => (h m hm).depth
  · intro z hz
    obtain ⟨m, hm, hz⟩ := mem_ints_obj.mp hz
    exact (h m hm).ints z hz

theorem printed_exists {d : Nat} {v : Value} (h : Tidy d v) : ∃ file, Printed v file := by
  have hprintable : v.Printable ⟨true, true, none⟩ := ⟨fun z hz => absurd hz (h.ints z), Or.inl rfl⟩
  obtain ⟨s, hs⟩ := dumps_total.mpr ⟨h.depth, hprintable⟩
  obtain ⟨file, hfile⟩ := dumps_ascii_encodes rfl hs
  exact ⟨file, _, d, s, rfl, hs, hfile⟩

section
variable {py : Interp} {file : Bytes}

/-- No string of a loaded file has a pair. -/
theorem loadFile_unpaired {v : Value} (h : loadFile py file = .ok v) : v.Unpaired := by
  obtain ⟨s, t, hs, hdoc, hv⟩ := loadFile_ok h
  obtain ⟨raw, hraw, rfl⟩ := Option.map_eq_some_iff.mp hs
  exact document_unpaired plain_objectPairs plain_constant hdoc (newlines_scalar (decodeStrict_scalar hraw)) hv

/-- A printed value is loaded as itself. -/
theorem loadFile_printed {v : Value} (hprinted : Printed v file) (htidy : Tidy py.loadsDepth v)
    (hpairs : v.Unpaired) :
    loadFile py file = .ok v := by
  obtain ⟨enc, d, s, hascii, hdumps, hfile⟩ := hprinted
  have hline := dumps_line hascii hdumps
  have hread : readText file = some s := by
    rw [readText, decodeStrict_encodeUtf8 hfile, Option.map_some, newlines_line hline]
  have hbom : s.head? ≠ some byteOrderMark := by
    intro h
    have hmem := hline _ (List.mem_of_mem_head? h)
    exact absurd hmem.2 (by decide)
  have hdoc := dumps_ascii hascii hdumps
  rw [mapTexts_self fun s hs => (joinPairs_self s).mpr (hpairs s hs)] at hdoc
  have heval : py.plainDecoder.eval py.loadsDepth v.tree = .ok v := by
    rw [eval_tree plain_objectPairs plain_constant]
    exact ⟨htidy.depth, htidy.distinct, fun z hz => absurd hz (htidy.ints z)⟩
  simp only [loadFile, hread, if_neg hbom, scanDocument_complete py.plainDecoder hdoc, heval]

/-! ## Sets of strings -/

theorem stringsValue_unpaired {strings : Finset Text} :
    (stringsValue strings).Unpaired ↔ ∀ t ∈ strings, paired t = false := by
  rw [stringsValue, unpaired_arr, List.forall_mem_map]
  simp only [unpaired_str, mem_sorted]

theorem stringList_value {strings : Finset Text} (h : ∀ t ∈ strings, t ≠ []) (label : Text) :
    stringList (stringsValue strings) label = .ok strings := by
  have hall : ((sorted strings).all fun t => !t.isEmpty) = true := by
    rw [List.all_eq_true]
    intro t ht
    simpa using h t (mem_sorted.mp ht)
  simp only [stringList, stringsValue, mapM_strOf.mpr rfl, hall, if_true, sorted_toFinset]

theorem strings_unpaired {raw : List Value} {strings : List Text} (h : raw.mapM strOf = some strings)
    (hraw : (Value.arr raw).Unpaired) :
    (stringsValue strings.toFinset).Unpaired := by
  rw [mapM_strOf.mp h, unpaired_arr, List.forall_mem_map] at hraw
  rw [stringsValue_unpaired]
  exact fun t ht => unpaired_str.mp (hraw t (List.mem_toFinset.mp ht))

theorem stringList_unpaired {raw : Value} {label : Text} {strings : Finset Text} (hraw : raw.Unpaired)
    (h : stringList raw label = .ok strings) : (stringsValue strings).Unpaired := by
  unfold stringList at h
  split at h
  · cases h
  · split at h
    · rename_i hm
      split at h <;> cases h
      exact strings_unpaired hm hraw
    · cases h
  · cases h

theorem getOr_unpaired {ms : List (Text × Value)} {key : Text} {default : Value} (hms : (Value.obj ms).Unpaired)
    (hdefault : default.Unpaired) : (getOr ms key default).Unpaired := by
  unfold getOr
  cases h : ms.lookup key with
  | none => exact hdefault
  | some v => exact (unpaired_obj.mp hms _ (mem_of_lookup h)).2

section
variable {a b c : Text} (u v w default : Value)

theorem getOr_first : getOr [(a, u), (b, v), (c, w)] a default = u := by
  simp [getOr]

theorem getOr_second (hba : b ≠ a) : getOr [(a, u), (b, v), (c, w)] b default = v := by
  have hba : (b == a) = false := by simpa using hba
  simp [getOr, List.lookup_cons, hba]

theorem getOr_third (hca : c ≠ a) (hcb : c ≠ b) : getOr [(a, u), (b, v), (c, w)] c default = w := by
  have hca : (c == a) = false := by simpa using hca
  have hcb : (c == b) = false := by simpa using hcb
  simp [getOr, List.lookup_cons, hca, hcb]

end

theorem refuseUnknown_known {ms : List (Text × Value)} {keys : Finset Text} {place : Text}
    (h : (ms.map Prod.fst).toFinset \ keys = ∅) : refuseUnknown ms keys place = .ok () := by
  simp only [refuseUnknown, h, if_true]

theorem scalar_unpaired {s : Text} (h : Scalar s) : paired s = false := by
  induction s with
  | nil => rfl
  | cons c s ih =>
    obtain ⟨hc, hs⟩ := scalar_cons.mp h
    rw [paired_cons (not_high hc).1, ih hs]

theorem nonEmptyString_unpaired {raw : Value} {message s : Text} (hraw : raw.Unpaired)
    (h : nonEmptyString raw message = .ok s) :
    paired s = false := by
  unfold nonEmptyString at h
  split at h
  · split at h <;> cases h
    exact unpaired_str.mp hraw
  · cases h

theorem nonEmptyString_value {s : Text} (h : s ≠ []) (message : Text) :
    nonEmptyString (.str s) message = .ok s := by
  have hs : s.isEmpty = false := by simpa using h
  rw [nonEmptyString, hs]
  rfl

/-! ## The tool policy -/

theorem ruleValue_unpaired {rule : ToolRule} : rule.value.Unpaired ↔
    paired rule.name = false ∧ (stringsValue rule.anyOf).Unpaired ∧ (stringsValue rule.allowedTools).Unpaired := by
  have hkeys : paired (txt "name") = false ∧ paired (txt "any_of") = false ∧
      paired (txt "allowed_tools") = false := by decide
  simp [ToolRule.value, unpaired_obj, unpaired_str, hkeys]

theorem toolValue_unpaired {policy : ToolPolicy} : policy.value.Unpaired ↔
    (stringsValue policy.allowedTools).Unpaired ∧ paired policy.claim = false ∧ ∀ rule ∈ policy.rules,
    rule.value.Unpaired := by
  have hkeys : paired (txt "allowed_tools") = false ∧ paired (txt "claim") = false ∧
      paired (txt "rules") = false := by decide
  simp [ToolPolicy.value, unpaired_obj, unpaired_arr, unpaired_str, hkeys]

theorem defaultName_scalar (i : Nat) : Scalar (defaultName i) := by
  have hopen : Scalar (txt "rules[") := by unfold Scalar; decide
  have hclose : Scalar (txt "]") := by unfold Scalar; decide
  exact scalar_append.mpr ⟨scalar_append.mpr ⟨hopen, scalar_num _⟩, hclose⟩

theorem unpaired_leaf {v : Value} (h : v.texts = []) : v.Unpaired := by
  intro s hs
  rw [h] at hs
  cases hs

theorem ofRaw_unpaired {i : Nat} {raw : Value} {rule : ToolRule} (hraw : raw.Unpaired)
    (h : ToolRule.ofRaw i raw = .ok rule) :
    rule.value.Unpaired := by
  unfold ToolRule.ofRaw at h
  split at h
  · have hget : ∀ key default, default.Unpaired → (getOr _ key default).Unpaired :=
      fun key default => getOr_unpaired hraw
    obtain ⟨_, _, h⟩ := bind_ok.mp h
    obtain ⟨name, hname, h⟩ := bind_ok.mp h
    obtain ⟨anyOf, hany, h⟩ := bind_ok.mp h
    split at h
    · cases h
    obtain ⟨tools, htools, h⟩ := bind_ok.mp h
    cases h
    rw [ruleValue_unpaired]
    exact ⟨nonEmptyString_unpaired (hget _ _ (unpaired_str.mpr (scalar_unpaired (defaultName_scalar i)))) hname,
      stringList_unpaired (hget _ _ (unpaired_leaf rfl)) hany,
        stringList_unpaired (hget _ _ (unpaired_leaf rfl)) htools⟩
  · cases h

theorem rulesFrom_unpaired {i : Nat} {raws : List Value} {rules : List ToolRule}
    (hraws : ∀ raw ∈ raws, raw.Unpaired)
    (h : rulesFrom i raws = .ok rules) : ∀ rule ∈ rules, rule.value.Unpaired := by
  induction raws generalizing i rules with
  | nil =>
    cases h
    intro rule hr
    cases hr
  | cons raw raws ih =>
    obtain ⟨hraw, hraws⟩ := List.forall_mem_cons.mp hraws
    unfold rulesFrom at h
    obtain ⟨rule, hrule, h⟩ := bind_ok.mp h
    obtain ⟨rest, hrest, h⟩ := bind_ok.mp h
    cases h
    exact List.forall_mem_cons.mpr ⟨ofRaw_unpaired hraw hrule, ih hraws hrest⟩

theorem toolMembers_unpaired {ms : List (Text × Value)} {policy : ToolPolicy} (hms : (Value.obj ms).Unpaired)
    (h : ToolPolicy.ofMembers ms = .ok policy) : policy.value.Unpaired := by
  have hclaim : (Value.str (txt "groups")).Unpaired := unpaired_str.mpr (by decide)
  unfold ToolPolicy.ofMembers at h
  obtain ⟨_, _, h⟩ := bind_ok.mp h
  obtain ⟨allowed, hallowed, h⟩ := bind_ok.mp h
  obtain ⟨claim, hname, h⟩ := bind_ok.mp h
  obtain ⟨raws, hraws, h⟩ := bind_ok.mp h
  obtain ⟨rules, hrules, h⟩ := bind_ok.mp h
  cases h
  have hempty : (Value.arr []).Unpaired := unpaired_leaf rfl
  have hlist : (getOr ms (txt "rules") (.arr [])).Unpaired := getOr_unpaired hms hempty
  unfold rawRules at hraws
  split at hraws
  · rename_i raws' heq
    cases hraws
    rw [heq, unpaired_arr] at hlist
    rw [toolValue_unpaired]
    exact ⟨stringList_unpaired (getOr_unpaired hms (unpaired_leaf rfl)) hallowed,
      nonEmptyString_unpaired (getOr_unpaired hms hclaim) hname, rulesFrom_unpaired hlist hrules⟩
  · cases hraws

theorem ofRaw_value {rule : ToolRule} (h : rule.Loaded) (i : Nat) : ToolRule.ofRaw i rule.value = .ok rule := by
  have hknown : [txt "name", txt "any_of", txt "allowed_tools"].toFinset \ ruleKeys = ∅ := by decide
  simp only [ToolRule.ofRaw, ToolRule.value]
  rw [refuseUnknown_known]
  · rw [getOr_first, getOr_second _ _ _ _ (by decide), getOr_third _ _ _ _ (by decide) (by decide)]
    simp only [nonEmptyString_value h.name, stringList_value h.anyOf, stringList_value h.allowedTools,
      bind, Except.bind, if_neg h.meets.ne_empty]
    rfl
  · exact hknown

theorem rulesFrom_values {rules : List ToolRule} (h : ∀ rule ∈ rules, rule.Loaded) (i : Nat) :
    rulesFrom i (rules.map ToolRule.value) = .ok rules := by
  induction rules generalizing i with
  | nil => rfl
  | cons rule rules ih =>
    obtain ⟨hrule, hrules⟩ := List.forall_mem_cons.mp h
    rw [List.map_cons, rulesFrom, ofRaw_value hrule, ih hrules]
    rfl

theorem toolMembers_value {policy : ToolPolicy} (h : policy.Loaded) {ms : List (Text × Value)}
    (hms : policy.value = .obj ms) :
    ToolPolicy.ofMembers ms = .ok policy := by
  have hknown : [txt "allowed_tools", txt "claim", txt "rules"].toFinset \ policyKeys = ∅ := by decide
  cases hms
  rw [ToolPolicy.ofMembers, refuseUnknown_known]
  · rw [getOr_first, getOr_second _ _ _ _ (by decide), getOr_third _ _ _ _ (by decide) (by decide)]
    simp only [stringList_value h.allowedTools, nonEmptyString_value h.claim, rawRules, rulesFrom_values h.rules,
      bind, Except.bind]
    rfl
  · exact hknown

/-! ## The scope policy -/

theorem scopeValue_unpaired {policy : ScopePolicy} : policy.value.Unpaired ↔
    (∀ rule ∈ policy.rules, paired rule.1 = false ∧ (stringsValue rule.2).Unpaired) ∧
    (stringsValue policy.default).Unpaired := by
  have hkeys : paired (txt "rules") = false ∧ paired (txt "default") = false ∧ paired (txt "deny_by_default") =
      false := by decide
  have hdeny : (Value.bool policy.denyByDefault).Unpaired := unpaired_leaf rfl
  simp only [ScopePolicy.value, unpaired_obj, List.forall_mem_cons, List.forall_mem_map, hkeys, hdeny, true_and]
  simp

theorem scopeList_unpaired {raw : Value} {notList nonString : Text} {scopes : Finset Text} (hraw : raw.Unpaired)
    (h : scopeList raw notList nonString = .ok scopes) : (stringsValue scopes).Unpaired := by
  unfold scopeList at h
  split at h
  · split at h <;> cases h
    rename_i hm
    exact strings_unpaired hm hraw
  · cases h

theorem scopeList_value (scopes : Finset Text) (notList nonString : Text) :
    scopeList (stringsValue scopes) notList nonString = .ok scopes := by
  simp only [scopeList, stringsValue, mapM_strOf.mpr rfl, sorted_toFinset]

theorem scopeRules_unpaired {raws : List (Text × Value)} {rules : List (Text × Finset Text)}
    (hraws : ∀ raw ∈ raws, paired raw.1 = false ∧ raw.2.Unpaired) (h : scopeRules raws = .ok rules) :
    ∀ rule ∈ rules, paired rule.1 = false ∧ (stringsValue rule.2).Unpaired := by
  induction raws generalizing rules with
  | nil =>
    cases h
    intro rule hr
    cases hr
  | cons raw raws ih =>
    obtain ⟨hraw, hraws⟩ := List.forall_mem_cons.mp hraws
    unfold scopeRules at h
    obtain ⟨scopes, hscopes, h⟩ := bind_ok.mp h
    obtain ⟨rest, hrest, h⟩ := bind_ok.mp h
    cases h
    exact List.forall_mem_cons.mpr ⟨⟨hraw.1, scopeList_unpaired hraw.2 hscopes⟩, ih hraws hrest⟩

theorem scopeRules_values (rules : List (Text × Finset Text)) :
    scopeRules (rules.map fun rule => (rule.1, stringsValue rule.2)) = .ok rules := by
  induction rules with
  | nil => rfl
  | cons rule rules ih =>
    rw [List.map_cons, scopeRules, scopeList_value, ih]
    rfl

theorem scopeMembers_unpaired {ms : List (Text × Value)} {policy : ScopePolicy} (hms : (Value.obj ms).Unpaired)
    (h : ScopePolicy.ofMembers ms = .ok policy) : policy.value.Unpaired := by
  unfold ScopePolicy.ofMembers at h
  obtain ⟨raws, hraws, h⟩ := bind_ok.mp h
  obtain ⟨rules, hrules, h⟩ := bind_ok.mp h
  obtain ⟨default, hdefault, h⟩ := bind_ok.mp h
  obtain ⟨deny, _, h⟩ := bind_ok.mp h
  cases h
  have hempty : (Value.obj []).Unpaired := unpaired_leaf rfl
  have htable : (getOr ms (txt "rules") (.obj [])).Unpaired := getOr_unpaired hms hempty
  unfold methodTable at hraws
  split at hraws
  · rename_i raws' heq
    cases hraws
    rw [heq, unpaired_obj] at htable
    rw [scopeValue_unpaired]
    exact ⟨fun rule hr => scopeRules_unpaired htable hrules rule (mem_dictOf hr),
      scopeList_unpaired (getOr_unpaired hms (unpaired_leaf rfl)) hdefault⟩
  · cases hraws

/-- Every scope policy is read back. -/
theorem scopeMembers_value {policy : ScopePolicy} {ms : List (Text × Value)} (hms : policy.value = .obj ms) :
    ScopePolicy.ofMembers ms = .ok policy := by
  obtain ⟨rules, default, deny, hdistinct⟩ := policy
  cases hms
  rw [ScopePolicy.ofMembers, getOr_first, getOr_second _ _ _ _ (by decide),
    getOr_third _ _ _ _ (by decide) (by decide)]
  simp only [methodTable, scopeRules_values, scopeList_value, denyFlag, bind, Except.bind]
  simp only [dictOf_distinct hdistinct]
  rfl

/-! ## Files -/

theorem stringsValue_tidy (strings : Finset Text) : Tidy 1 (stringsValue strings) := by
  refine tidy_arr ?_
  rw [List.forall_mem_map]
  exact fun t _ => tidy_str t

theorem ruleValue_tidy (rule : ToolRule) : Tidy 2 rule.value := by
  refine tidy_obj (by change [txt "name", txt "any_of", txt "allowed_tools"].Nodup; decide) ?_
  simp [(tidy_str rule.name).mono (Nat.zero_le 1), stringsValue_tidy]

theorem toolValue_tidy (policy : ToolPolicy) : Tidy 4 policy.value := by
  have hrules : Tidy 3 (.arr (policy.rules.map ToolRule.value)) := by
    refine tidy_arr ?_
    rw [List.forall_mem_map]
    exact fun rule _ => ruleValue_tidy rule
  refine tidy_obj (by change [txt "allowed_tools", txt "claim", txt "rules"].Nodup; decide) ?_
  simp [(tidy_str policy.claim).mono (Nat.zero_le 3), (stringsValue_tidy policy.allowedTools).mono
    (by decide : 1 ≤ 3), hrules]

theorem scopeValue_tidy (policy : ScopePolicy) : Tidy 3 policy.value := by
  have hrules : Tidy 2 (.obj (policy.rules.map fun rule => (rule.1, stringsValue rule.2))) := by
    refine tidy_obj ?_ ?_
    · rw [List.map_map]
      exact policy.distinct
    · rw [List.forall_mem_map]
      exact fun rule _ => stringsValue_tidy rule.2
  refine tidy_obj (by change [txt "rules", txt "default", txt "deny_by_default"].Nodup; decide) ?_
  simp [(stringsValue_tidy policy.default).mono (by decide : 1 ≤ 2), (tidy_bool policy.denyByDefault).mono
    (Nat.zero_le 2), hrules]

end

section
variable {py : Interp}

/-- The tool policies that can be loaded are those that pass the checks and have no string with a pair of
surrogates, and each of them is loaded from every file that it is printed to. -/
theorem tool_policy_files (hdepth : 4 ≤ py.loadsDepth) (policy : ToolPolicy) :
    ((∃ file, ToolPolicy.fromFile py file = .ok policy) ↔ policy.Loaded ∧ policy.value.Unpaired) ∧
    ∀ file, Printed policy.value file →
      (ToolPolicy.fromFile py file = .ok policy ↔ policy.Loaded ∧ policy.value.Unpaired) := by
  have hload : ∀ file, ToolPolicy.fromFile py file = .ok policy → policy.Loaded ∧ policy.value.Unpaired := by
    intro file h
    refine ⟨fromFile_loaded h, ?_⟩
    unfold ToolPolicy.fromFile at h
    split at h
    · cases h
    · rename_i ms hms
      exact toolMembers_unpaired (loadFile_unpaired hms) h
    · cases h
  have hread : ∀ file, Printed policy.value file → policy.Loaded → policy.value.Unpaired →
      ToolPolicy.fromFile py file = .ok policy := by
    intro file hprinted hloaded hpairs
    have hfile := loadFile_printed hprinted ((toolValue_tidy policy).mono hdepth) hpairs
    rw [ToolPolicy.fromFile, hfile]
    exact toolMembers_value hloaded rfl
  refine ⟨⟨fun ⟨file, h⟩ => hload file h, fun h => ?_⟩, fun file hprinted =>
    ⟨hload file, fun h => hread file hprinted h.1 h.2⟩⟩
  obtain ⟨file, hprinted⟩ := printed_exists (toolValue_tidy policy)
  exact ⟨file, hread file hprinted h.1 h.2⟩

/-- Every scope policy without such a string is loaded from each of its files, and no other is loaded from any. -/
theorem scope_policy_files (hdepth : 3 ≤ py.loadsDepth) (policy : ScopePolicy) :
    ((∃ file, ScopePolicy.fromFile py file = .ok policy) ↔ policy.value.Unpaired) ∧
    ∀ file, Printed policy.value file → (ScopePolicy.fromFile py file = .ok policy ↔ policy.value.Unpaired) := by
  have hload : ∀ file, ScopePolicy.fromFile py file = .ok policy → policy.value.Unpaired := by
    intro file h
    unfold ScopePolicy.fromFile at h
    split at h
    · cases h
    · rename_i ms hms
      exact scopeMembers_unpaired (loadFile_unpaired hms) h
    · cases h
  have hread : ∀ file, Printed policy.value file → policy.value.Unpaired →
      ScopePolicy.fromFile py file = .ok policy := by
    intro file hprinted hpairs
    have hfile := loadFile_printed hprinted ((scopeValue_tidy policy).mono hdepth) hpairs
    rw [ScopePolicy.fromFile, hfile]
    exact scopeMembers_value rfl
  refine ⟨⟨fun ⟨file, h⟩ => hload file h, fun h => ?_⟩, fun file hprinted => ⟨hload file, hread file hprinted⟩⟩
  obtain ⟨file, hprinted⟩ := printed_exists (scopeValue_tidy policy)
  exact ⟨file, hread file hprinted h⟩

end

def namedPolicy (name : Text) : ToolPolicy :=
  ⟨{txt "ping"}, txt "groups", [⟨name, {txt "ops"}, {txt "read", txt "write"}⟩]⟩

theorem loneHigh_lt : 0xD83D < 0x110000 := by decide

theorem loneLow_lt : 0xDE00 < 0x110000 := by decide

def loneHigh : CodePoint := ⟨0xD83D, loneHigh_lt⟩

def loneLow : CodePoint := ⟨0xDE00, loneLow_lt⟩

/-- A rule with a lone surrogate in its name is loaded from a file, one with a pair from none. -/
theorem tool_policy_files_surrogates :
    (∃ file, ToolPolicy.fromFile .ascii file = .ok (namedPolicy [loneHigh])) ∧
    ¬ ∃ file, ToolPolicy.fromFile .ascii file = .ok (namedPolicy [loneHigh, loneLow]) := by
  have hdepth : 4 ≤ Interp.ascii.loadsDepth := by decide
  have hloaded : (namedPolicy [loneHigh]).Loaded := by
    refine ⟨by decide, by decide, ?_⟩
    intro rule hr
    obtain rfl := List.mem_singleton.mp hr
    exact ⟨by decide, by decide, by decide, by decide⟩
  have hpairs : (namedPolicy [loneHigh]).value.Unpaired := by
    unfold Value.Unpaired
    decide +kernel
  have hpaired : ¬ (namedPolicy [loneHigh, loneLow]).value.Unpaired := by
    unfold Value.Unpaired
    decide +kernel
  refine ⟨(tool_policy_files hdepth _).1.mpr ⟨hloaded, hpairs⟩, ?_⟩
  intro h
  exact hpaired ((tool_policy_files hdepth _).1.mp h).2

theorem pingRules_names (scopes : Finset Text) :
    ([(txt "ping", scopes), (txt "tools/", ∅)].map Prod.fst).Nodup := by
  change [txt "ping", txt "tools/"].Nodup
  decide

def pingScopes (scope : Text) : ScopePolicy :=
  ⟨[(txt "ping", {scope}), (txt "tools/", ∅)], {txt "mcp"}, true, pingRules_names _⟩

theorem scope_policy_files_surrogates :
    (∃ file, ScopePolicy.fromFile .ascii file = .ok (pingScopes [loneHigh])) ∧
    ¬ ∃ file, ScopePolicy.fromFile .ascii file = .ok (pingScopes [loneHigh, loneLow]) := by
  have hdepth : 3 ≤ Interp.ascii.loadsDepth := by decide
  have hpairs : (pingScopes [loneHigh]).value.Unpaired := by
    unfold Value.Unpaired
    decide +kernel
  have hpaired : ¬ (pingScopes [loneHigh, loneLow]).value.Unpaired := by
    unfold Value.Unpaired
    decide +kernel
  refine ⟨(scope_policy_files hdepth _).1.mpr hpairs, ?_⟩
  intro h
  exact hpaired ((scope_policy_files hdepth _).1.mp h)

end McpGateway
