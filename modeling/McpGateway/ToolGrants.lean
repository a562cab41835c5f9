import McpGateway.ToolPolicy

/-!
# The tools a caller is granted

The grants as a set: the allow-list, and the tools of every rule that a value
of the claim meets. The check decides membership.
-/

namespace McpGateway

open Unicode Json

/-- A claim that can be used, with its values. -/
inductive Usable : Value → Finset Text → Prop
  | one {s : Text} : s ≠ [] → Usable (.str s) {s}
  | many {l : List Text} : (∀ s ∈ l, s ≠ []) → Usable (.arr (l.map .str)) l.toFinset

def readClaim (claims : Option Claims) (name : Text) : Option Value := claims.bind fun claims => claims.get name

def heldValues (claim : Option Value) : Set Text :=
  {v | ∃ raw values, claim = some raw ∧ Usable raw values ∧ v ∈ values}

def ToolRule.grants (rule : ToolRule) (values : Set Text) : Set Text :=
  {tool | (∃ v ∈ values, v ∈ rule.anyOf) ∧ tool ∈ rule.allowedTools}

def ToolPolicy.granted (policy : ToolPolicy) (values : Set Text) : Set Text :=
  ↑policy.allowedTools ∪ ⋃ rule ∈ policy.rules, rule.grants values

/-! ## Grants -/

theorem grants_mono {rule : ToolRule} {values values' : Set Text} (h : values ⊆ values') :
    rule.grants values ⊆ rule.grants values' := by
  intro tool ⟨⟨v, hv, hany⟩, htool⟩
  exact ⟨⟨v, h hv, hany⟩, htool⟩

theorem mem_granted {policy : ToolPolicy} {values : Set Text} {tool : Text} :
    tool ∈ policy.granted values ↔ tool ∈ policy.allowedTools ∨ ∃ rule ∈ policy.rules,
    tool ∈ rule.grants values := by
  simp [ToolPolicy.granted]

theorem granted_mono {policy policy' : ToolPolicy} {values values' : Set Text}
    (htools : policy.allowedTools ⊆ policy'.allowedTools) (hrules : policy.rules ⊆ policy'.rules)
    (h : values ⊆ values') :
    policy.granted values ⊆ policy'.granted values' := by
  intro tool ht
  rw [mem_granted] at ht ⊢
  obtain htool | ⟨rule, hr, hgrants⟩ := ht
  · exact Or.inl (htools htool)
  · exact Or.inr ⟨rule, hrules hr, grants_mono h hgrants⟩

theorem granted_none {policy : ToolPolicy} : policy.granted ∅ = ↑policy.allowedTools := by
  simp [ToolPolicy.granted, ToolRule.grants]

/-! ## Reading the claim -/

theorem usable_str {s : Text} {values : Finset Text} : Usable (.str s) values ↔ s ≠ [] ∧ values = {s} := by
  constructor
  · intro h
    cases h with
    | one hne => exact ⟨hne, rfl⟩
  · intro ⟨hne, hvalues⟩
    rw [hvalues]
    exact .one hne

theorem usable_arr {raw : List Value} {values : Finset Text} :
    Usable (.arr raw) values ↔ ∃ l : List Text, raw.mapM strOf = some l ∧ (∀ s ∈ l, s ≠ []) ∧
    values = l.toFinset := by
  constructor
  · intro h
    cases h with
    | many hne => exact ⟨_, mapM_strOf.mpr rfl, hne, rfl⟩
  · intro ⟨l, hl, hne, hvalues⟩
    rw [mapM_strOf.mp hl, hvalues]
    exact .many hne

def usableValues : Value → Option (Finset Text)
  | .str raw => if raw.isEmpty then none else some {raw}
  | .arr raw =>
    match raw.mapM strOf with
    | some values => if values.all fun v => !v.isEmpty then some values.toFinset else none
    | none => none
  | _ => none

theorem usableValues_some {raw : Value} {values : Finset Text} : usableValues raw = some values ↔
    Usable raw values := by
  cases raw with
  | str s =>
    rw [usable_str, usableValues]
    by_cases hs : s = []
    · simp [hs]
    · simp only [List.isEmpty_iff, hs, if_false, Option.some.injEq, ne_eq, not_false_eq_true, true_and]
      exact eq_comm
  | arr raw =>
    rw [usable_arr, usableValues]
    cases raw.mapM strOf with
    | none => simp
    | some l =>
      have hall : (l.all fun v => !v.isEmpty) = true ↔ ∀ s ∈ l, s ≠ [] := by simp
      simp only [hall, Option.some.injEq, exists_eq_left']
      by_cases hl : ∀ s ∈ l, s ≠ []
      · rw [if_pos hl, Option.some.injEq]
        exact ⟨fun h => ⟨hl, h.symm⟩, fun h => h.2.symm⟩
      · rw [if_neg hl]
        exact iff_of_false (fun h => by cases h) (fun h => hl h.1)
  | null => exact iff_of_false (fun h => by cases h) (fun h => by cases h)
  | bool b => exact iff_of_false (fun h => by cases h) (fun h => by cases h)
  | int z => exact iff_of_false (fun h => by cases h) (fun h => by cases h)
  | float x => exact iff_of_false (fun h => by cases h) (fun h => by cases h)
  | obj ms => exact iff_of_false (fun h => by cases h) (fun h => by cases h)

/-- Nothing of the claims is read but the one claim. -/
theorem claimValues_readClaim (claims : Option Claims) (name : Text) :
    claimValues claims name =
      match readClaim claims name with
      | none => .error .absent
      | some raw =>
        match usableValues raw with
        | none => .error .unusable
        | some values => .ok values := by
  cases claims with
  | none => rfl
  | some claims =>
    rw [claimValues, readClaim, Option.bind_some]
    cases claims.get name with
    | none => rfl
    | some raw =>
      cases raw with
      | str s =>
        dsimp only [usableValues]
        split <;> rfl
      | arr raw =>
        dsimp only [usableValues]
        cases raw.mapM strOf with
        | none => rfl
        | some l =>
          dsimp only
          split <;> rfl
      | null => rfl
      | bool b => rfl
      | int z => rfl
      | float x => rfl
      | obj ms => rfl

theorem claimValues_ok {claims : Option Claims} {name : Text} {values : Finset Text} :
    claimValues claims name = .ok values ↔ ∃ raw, readClaim claims name = some raw ∧ Usable raw values := by
  rw [claimValues_readClaim]
  simp only [← usableValues_some]
  cases readClaim claims name with
  | none => simp
  | some raw =>
    simp only [Option.some.injEq, exists_eq_left']
    cases usableValues raw <;> simp

theorem usable_unique {raw : Value} {values values' : Finset Text} (h : Usable raw values)
    (h' : Usable raw values') :
    values = values' := by
  cases h with
  | one hne => exact (usable_str.mp h').2.symm
  | many hne =>
    obtain ⟨l', hl', _, rfl⟩ := usable_arr.mp h'
    rw [mapM_strOf.mpr rfl] at hl'
    rw [Option.some.inj hl']

/-! ## The loop over the rules -/

theorem checkRules_allowed {policy : ToolPolicy} {tool : Text} {values : Finset Text} {matchedAny : Bool}
    {rules : List ToolRule} :
    (policy.checkRules tool values matchedAny rules).allowed = true ↔
    ∃ rule ∈ rules, tool ∈ rule.grants values := by
  induction rules generalizing matchedAny with
  | nil =>
    rw [ToolPolicy.checkRules]
    split <;> simp [denyTool]
  | cons rule rules ih =>
    rw [ToolPolicy.checkRules]
    have hmeets : values ∩ rule.anyOf = ∅ ↔ ¬ ∃ v ∈ values, v ∈ rule.anyOf := by
      rw [Finset.eq_empty_iff_forall_notMem]
      simp
    by_cases hm : values ∩ rule.anyOf = ∅
    · rw [if_pos hm, ih]
      have hno : tool ∉ rule.grants values := fun h => hmeets.mp hm h.1
      simp [hno]
    · rw [if_neg hm]
      by_cases ht : tool ∈ rule.allowedTools
      · have hyes : tool ∈ rule.grants values := ⟨not_not.mp (mt hmeets.mpr hm), ht⟩
        simp [ht, hyes]
      · have hno : tool ∉ rule.grants values := fun h => ht h.2
        rw [if_neg ht, ih]
        simp [hno]

/-! ## Checking -/

theorem heldValues_usable {raw : Value} {values : Finset Text} (h : Usable raw values) :
    heldValues (some raw) = ↑values := by
  ext v
  constructor
  · intro ⟨raw', values', hraw, husable, hv⟩
    rw [← Option.some.inj hraw] at husable
    rw [usable_unique h husable]
    exact hv
  · intro hv
    exact ⟨raw, values, rfl, h, hv⟩

theorem heldValues_unusable {claim : Option Value} (h : ¬ ∃ raw values, claim = some raw ∧ Usable raw values) :
    heldValues claim = ∅ := by
  apply Set.eq_empty_of_forall_notMem
  intro v ⟨raw, values, hraw, husable, _⟩
  exact h ⟨raw, values, hraw, husable⟩

/-- The check decides membership in the union of the grants. -/
theorem check_granted {policy : ToolPolicy} {tool : Text} {claims : Option Claims} :
    (policy.check tool claims).allowed = true ↔
      tool ≠ [] ∧ tool ∈ policy.granted (heldValues (readClaim claims policy.claim)) := by
  rw [mem_granted, ToolPolicy.check]
  by_cases htool : tool = []
  · simp [htool, denyTool]
  by_cases hlist : tool ∈ policy.allowedTools
  · simp [htool, hlist]
  simp only [htool, hlist, List.isEmpty_iff, if_false, ne_eq, not_false_eq_true, true_and, false_or]
  by_cases hrules : policy.rules = []
  · simp [hrules, denyTool]
  rw [if_neg hrules]
  cases hvalues : claimValues claims policy.claim with
  | ok values =>
    obtain ⟨raw, hraw, husable⟩ := claimValues_ok.mp hvalues
    rw [hraw, heldValues_usable husable]
    exact checkRules_allowed
  | error problem =>
    have hnone : heldValues (readClaim claims policy.claim) = ∅ := by
      apply heldValues_unusable
      intro ⟨raw, values, husable⟩
      rw [claimValues_ok.mpr ⟨raw, husable⟩] at hvalues
      cases hvalues
    rw [hnone]
    cases problem <;> simp [denyTool, ToolRule.grants]

theorem checkRules_shape {policy : ToolPolicy} {tool : Text} {values : Finset Text} {matchedAny : Bool}
    {rules : List ToolRule} :
    (∃ rule, policy.checkRules tool values matchedAny rules = ⟨true, tool, txt "ok", some rule⟩) ∨
      ∃ reason, policy.checkRules tool values matchedAny rules = denyTool tool reason := by
  induction rules generalizing matchedAny with
  | nil =>
    rw [ToolPolicy.checkRules]
    split
    · exact Or.inr ⟨_, rfl⟩
    · exact Or.inr ⟨_, rfl⟩
  | cons rule rules ih =>
    rw [ToolPolicy.checkRules]
    split
    · exact ih
    split
    · exact Or.inl ⟨_, rfl⟩
    · exact ih

theorem check_shape {policy : ToolPolicy} {tool : Text} {claims : Option Claims} :
    (∃ rule, policy.check tool claims = ⟨true, tool, txt "ok", some rule⟩) ∨
      ∃ reason, policy.check tool claims = denyTool tool reason := by
  rw [ToolPolicy.check]
  split
  · exact Or.inr ⟨_, rfl⟩
  split
  · exact Or.inl ⟨_, rfl⟩
  split
  · exact Or.inr ⟨_, rfl⟩
  split
  · exact Or.inr ⟨_, rfl⟩
  · exact Or.inr ⟨_, rfl⟩
  · exact checkRules_shape

theorem check_mono {policy policy' : ToolPolicy} {tool : Text} {claims claims' : Option Claims}
    (htools : policy.allowedTools ⊆ policy'.allowedTools) (hrules : policy.rules ⊆ policy'.rules)
    (hvalues : heldValues (readClaim claims policy.claim) ⊆ heldValues (readClaim claims' policy'.claim))
    (h : (policy.check tool claims).allowed = true) : (policy'.check tool claims').allowed = true := by
  rw [check_granted] at h ⊢
  exact ⟨h.1, granted_mono htools hrules hvalues h.2⟩

theorem check_congr {policy : ToolPolicy} {tool : Text} {claims claims' : Option Claims}
    (h : readClaim claims policy.claim = readClaim claims' policy.claim) :
    policy.check tool claims = policy.check tool claims' := by
  rw [ToolPolicy.check, ToolPolicy.check, claimValues_readClaim, claimValues_readClaim, h]

theorem heldValues_append {l : List Text} {s : Text} (hl : ∀ t ∈ l, t ≠ []) (hs : s ≠ []) :
    heldValues (some (.arr (l.map .str))) ⊆ heldValues (some (.arr ((l ++ [s]).map .str))) := by
  have hl' : ∀ t ∈ l ++ [s], t ≠ [] := by
    intro t ht
    rw [List.mem_append, List.mem_singleton] at ht
    cases ht with
    | inl ht => exact hl t ht
    | inr ht => exact ht ▸ hs
  rw [heldValues_usable (.many hl), heldValues_usable (.many hl')]
  intro v hv
  simp only [Finset.mem_coe, List.mem_toFinset] at hv ⊢
  exact List.mem_append_left _ hv

def ToolPolicy.withRules (policy : ToolPolicy) (rules : List ToolRule) : ToolPolicy :=
  { policy with rules := rules }

/-- A tool is allowed exactly when a grant that matches has it. -/
theorem tool_check_union :
    (∀ (policy : ToolPolicy) (tool : Text) (claims : Option Claims), (policy.check tool claims).allowed = true ↔
      tool ≠ [] ∧ (tool ∈ policy.allowedTools ∨ ∃ raw values, readClaim claims policy.claim = some raw ∧
      Usable raw values ∧
        ∃ rule ∈ policy.rules, (∃ v ∈ values, v ∈ rule.anyOf) ∧ tool ∈ rule.allowedTools)) ∧
    (∀ (policy : ToolPolicy) (rules : List ToolRule), (∀ rule, rule ∈ rules ↔ rule ∈ policy.rules) → ∀ tool claims,
      ((policy.withRules rules).check tool claims).allowed = (policy.check tool claims).allowed) ∧
    (∀ (policy : ToolPolicy) (rules : List ToolRule), policy.rules ⊆ rules → ∀ tool claims,
      (policy.check tool claims).allowed = true → ((policy.withRules rules).check tool claims).allowed = true) ∧
    (∀ (policy : ToolPolicy) (claims claims' : Option Claims) (l : List Text) (s : Text),
      readClaim claims policy.claim = some (.arr (l.map .str)) → (∀ t ∈ l, t ≠ []) → s ≠ [] →
      readClaim claims' policy.claim = some (.arr ((l ++ [s]).map .str)) → ∀ tool,
      (policy.check tool claims).allowed = true → (policy.check tool claims').allowed = true) ∧
    (∀ (policy : ToolPolicy) (claims claims' : Option Claims), readClaim claims policy.claim =
    readClaim claims' policy.claim →
      ∀ tool, policy.check tool claims = policy.check tool claims') ∧
    ∀ (policy : ToolPolicy) (claims : Option Claims),
      (¬ ∃ raw values, readClaim claims policy.claim = some raw ∧ Usable raw values) →
      ∀ tool, (policy.check tool claims).allowed = true ↔ tool ≠ [] ∧ tool ∈ policy.allowedTools := by
  refine ⟨?_, ?_, ?_, ?_, fun policy claims claims' h tool => check_congr h, ?_⟩
  · intro policy tool claims
    rw [check_granted, mem_granted]
    apply and_congr_right
    intro _
    apply or_congr_right
    constructor
    · intro ⟨rule, hr, ⟨v, ⟨raw, values, hraw, husable, hv⟩, hany⟩, htool⟩
      exact ⟨raw, values, hraw, husable, rule, hr, ⟨v, hv, hany⟩, htool⟩
    · intro ⟨raw, values, hraw, husable, rule, hr, ⟨v, hv, hany⟩, htool⟩
      exact ⟨rule, hr, ⟨v, ⟨raw, values, hraw, husable, hv⟩, hany⟩, htool⟩
  · intro policy rules h tool claims
    have hall : ∀ p p' : ToolPolicy, p.allowedTools = p'.allowedTools → p.claim = p'.claim → p.rules ⊆ p'.rules →
        (p.check tool claims).allowed = true → (p'.check tool claims).allowed = true := by
      intro p p' htools hclaim hrules
      exact check_mono htools.subset hrules (by rw [hclaim])
    rw [Bool.eq_iff_iff]
    exact ⟨hall _ _ rfl rfl fun rule => (h rule).mp, hall _ _ rfl rfl fun rule => (h rule).mpr⟩
  · intro policy rules h tool claims
    exact check_mono (Finset.Subset.refl _) h (Set.Subset.refl _)
  · intro policy claims claims' l s hclaim hl hs hclaim' tool
    apply check_mono (Finset.Subset.refl _) (List.Subset.refl _)
    rw [hclaim, hclaim']
    exact heldValues_append hl hs
  · intro policy claims h tool
    rw [check_granted, heldValues_unusable h, granted_none]
    exact Iff.rfl

def groupsPolicy : ToolPolicy where
  allowedTools := {txt "read_file"}
  claim := txt "groups"
  rules := [⟨txt "dev", {txt "dev"}, {txt "build"}⟩, ⟨txt "ops", {txt "ops", txt "dev"}, {txt "deploy"}⟩]

def groupsClaims (groups : Value) : Claims where
  members := [(txt "sub", .str (txt "carol")), (txt "groups", groups)]
  distinct := show [txt "sub", txt "groups"].Nodup by decide

theorem tool_check_union_groups :
    (groupsPolicy.check (txt "deploy") (some (groupsClaims (.arr [.str (txt "dev")])))).allowed = true ∧
      (groupsPolicy.check (txt "deploy") (some
      (groupsClaims (.arr [.str (txt "dev"), .str (txt "qa")])))).allowed = true ∧
      (groupsPolicy.check (txt "deploy") (some (groupsClaims (.arr [.str (txt "dev"), .null])))).allowed = false ∧
      ((groupsPolicy.withRules groupsPolicy.rules.reverse).check (txt "deploy")
        (some (groupsClaims (.arr [.str (txt "dev")])))).allowed = true := by
  obtain ⟨hunion, hperm, _, happend, _, hnone⟩ := tool_check_union
  have hdeploy : (groupsPolicy.check (txt "deploy") (some (groupsClaims (.arr [.str (txt "dev")])))).allowed =
    true := by
    rw [hunion]
    refine ⟨by decide, Or.inr ⟨_, _, rfl, .many (l := [txt "dev"]) (by decide), _,
      List.mem_cons_of_mem _ List.mem_cons_self, ?_, ?_⟩⟩
    · exact ⟨txt "dev", by decide, by decide⟩
    · decide
  refine ⟨hdeploy, ?_, ?_, ?_⟩
  · exact happend _ _ _ [txt "dev"] (txt "qa") rfl (by decide) (by decide) rfl _ hdeploy
  · rw [← Bool.not_eq_true, hnone]
    · decide
    · intro ⟨raw, values, hraw, husable⟩
      cases Option.some.inj hraw
      obtain ⟨l, hl, _⟩ := usable_arr.mp husable
      cases hl
  · rw [hperm _ _ fun rule => List.mem_reverse]
    exact hdeploy

end McpGateway
