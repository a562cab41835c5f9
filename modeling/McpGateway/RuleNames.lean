import McpGateway.PolicyFiles

/-!
# The rule in the audit trail

An allowed call is recorded with the sentinel or the name of the first rule that
grants it. The name tells which rule that was when no other rule has it.
-/

namespace McpGateway

open Unicode Json

section
variable (policy : ToolPolicy)

def ToolPolicy.Alone (rule : ToolRule) : Prop := policy.rules.filter (fun other => other.name = rule.name) = [rule]

/-- What a decision tells about the grant. -/
structure ToolPolicy.Identified (tool : Text) (claims : Option Claims) (d : ToolDecision) : Prop where
  sentinel : d.allowed = true → (d.matchedRule = some unconditional ↔ tool ∈ policy.allowedTools)
  named : d.allowed = true → tool ∉ policy.allowedTools → ∃ rule ∈ policy.rules, d.matchedRule = some rule.name ∧
    policy.Alone rule ∧ (∃ v ∈ heldValues (readClaim claims policy.claim), v ∈ rule.anyOf) ∧
      tool ∈ rule.allowedTools
  denied : d.allowed = false → d.matchedRule = none

/-- The rule is the first to grant some tool outside the allow-list to a holder of some value. -/
def ToolPolicy.Live (rule : ToolRule) : Prop :=
  ∃ earlier later, policy.rules = earlier ++ rule :: later ∧
    ∃ tool ∈ rule.allowedTools, tool ∉ policy.allowedTools ∧
      ∃ v ∈ rule.anyOf, ∀ other ∈ earlier, v ∈ other.anyOf → tool ∉ other.allowedTools

/-- Every rule that can be recorded has a name of its own, and not the sentinel. -/
def ToolPolicy.Distinguished : Prop := ∀ rule, policy.Live rule → rule.name ≠ unconditional ∧ policy.Alone rule

end

/-! ## The first rule that grants -/

theorem exists_first {α : Type} {p : α → Prop} {l : List α} (h : ∃ a ∈ l, p a) :
    ∃ earlier a later, l = earlier ++ a :: later ∧ p a ∧ ∀ b ∈ earlier, ¬ p b := by
  induction l with
  | nil =>
    obtain ⟨a, ha, _⟩ := h
    cases ha
  | cons a l ih =>
    by_cases hp : p a
    · exact ⟨[], a, l, rfl, hp, fun b hb => by cases hb⟩
    · have hl : ∃ a ∈ l, p a := by
        obtain ⟨b, hb, hpb⟩ := h
        cases hb with
        | head => exact absurd hpb hp
        | tail _ hb => exact ⟨b, hb, hpb⟩
      obtain ⟨earlier, b, later, hl, hb, hearlier⟩ := ih hl
      exact ⟨a :: earlier, b, later, by rw [hl, List.cons_append], hb, List.forall_mem_cons.mpr ⟨hp, hearlier⟩⟩

section
variable {policy : ToolPolicy} {tool : Text} {claims : Option Claims}

theorem checkRules_first {values : Finset Text} {rule : ToolRule} (hrule : tool ∈ rule.grants values)
    (later : List ToolRule) :
    ∀ (earlier : List ToolRule) (matchedAny : Bool), (∀ other ∈ earlier, tool ∉ other.grants values) →
      policy.checkRules tool values matchedAny (earlier ++ rule :: later) = ⟨true, tool, txt "ok", some rule.name⟩
  | [], matchedAny, _ => by
    obtain ⟨⟨v, hv, hany⟩, htool⟩ := hrule
    have hmeets : values ∩ rule.anyOf ≠ ∅ := Finset.ne_empty_of_mem (Finset.mem_inter.mpr ⟨hv, hany⟩)
    rw [List.nil_append, ToolPolicy.checkRules, if_neg hmeets, if_pos htool]
  | other :: earlier, matchedAny, hearlier => by
    obtain ⟨hother, hrest⟩ := List.forall_mem_cons.mp hearlier
    rw [List.cons_append, ToolPolicy.checkRules]
    by_cases hmeets : values ∩ other.anyOf = ∅
    · rw [if_pos hmeets]
      exact checkRules_first hrule later earlier matchedAny hrest
    · have htool : tool ∉ other.allowedTools := by
        intro htool
        obtain ⟨v, hv⟩ := Finset.nonempty_iff_ne_empty.mpr hmeets
        exact hother ⟨⟨v, Finset.mem_inter.mp hv⟩, htool⟩
      rw [if_neg hmeets, if_neg htool]
      exact checkRules_first hrule later earlier true hrest

theorem check_listed (htool : tool ≠ []) (h : tool ∈ policy.allowedTools) :
    policy.check tool claims = ⟨true, tool, txt "ok", some unconditional⟩ := by
  simp [ToolPolicy.check, htool, h]

theorem check_ruled {values : Finset Text} (htool : tool ≠ []) (hlist : tool ∉ policy.allowedTools)
    (hrules : policy.rules ≠ []) (hvalues : claimValues claims policy.claim = .ok values) :
    policy.check tool claims = policy.checkRules tool values false policy.rules := by
  simp [ToolPolicy.check, htool, hlist, hrules, hvalues]

/-- A call is allowed outside the allow-list by the first rule that grants it. -/
theorem check_first (hallowed : (policy.check tool claims).allowed = true) (hlist : tool ∉ policy.allowedTools) :
    ∃ earlier rule later, policy.rules = earlier ++ rule :: later ∧
      policy.check tool claims = ⟨true, tool, txt "ok", some rule.name⟩ ∧
      tool ∈ rule.grants (heldValues (readClaim claims policy.claim)) ∧
      ∀ other ∈ earlier, tool ∉ other.grants (heldValues (readClaim claims policy.claim)) := by
  obtain ⟨htool, hgranted⟩ := check_granted.mp hallowed
  have hgrants := (mem_granted.mp hgranted).resolve_left hlist
  obtain ⟨earlier, rule, later, hsplit, hrule, hearlier⟩ := exists_first hgrants
  obtain ⟨_, ⟨raw, values, hraw, husable, _⟩, _⟩ := hrule.1
  have hvalues := claimValues_ok.mpr ⟨raw, hraw, husable⟩
  have hne : policy.rules ≠ [] := by simp [hsplit]
  refine ⟨earlier, rule, later, hsplit, ?_, hrule, hearlier⟩
  rw [hraw, heldValues_usable husable] at hrule hearlier
  rw [check_ruled htool hlist hne hvalues, hsplit]
  exact checkRules_first hrule later earlier false hearlier

/-! ## One value -/

def ToolPolicy.claimsWith (policy : ToolPolicy) (v : Text) : Claims where
  members := [(policy.claim, .str v)]
  distinct := List.nodup_singleton _

theorem readClaim_claimsWith (v : Text) : readClaim (some (policy.claimsWith v)) policy.claim = some (.str v) := by
  simp [readClaim, Claims.get, ToolPolicy.claimsWith]

/-- A live rule is recorded for some call. -/
theorem live_recorded (hloaded : policy.Loaded) {rule : ToolRule} (h : policy.Live rule) :
    ∃ tool v, tool ∉ policy.allowedTools ∧
      policy.check tool (some (policy.claimsWith v)) = ⟨true, tool, txt "ok", some rule.name⟩ := by
  obtain ⟨earlier, later, hsplit, tool, htool, hlist, v, hv, hearlier⟩ := h
  have hrule : rule ∈ policy.rules := by simp [hsplit]
  have hne : policy.rules ≠ [] := List.ne_nil_of_mem hrule
  have husable : Usable (.str v) {v} := .one ((hloaded.rules rule hrule).anyOf v hv)
  have hvalues : claimValues (some (policy.claimsWith v)) policy.claim = .ok {v} :=
    claimValues_ok.mpr ⟨_, readClaim_claimsWith v, husable⟩
  refine ⟨tool, v, hlist, ?_⟩
  rw [check_ruled ((hloaded.rules rule hrule).allowedTools tool htool) hlist hne hvalues, hsplit]
  apply checkRules_first
  · exact ⟨⟨v, by simp, hv⟩, htool⟩
  · intro other ho ⟨⟨w, hw, hany⟩, hgranted⟩
    simp only [Finset.coe_singleton, Set.mem_singleton_iff] at hw
    exact hearlier other ho (hw ▸ hany) hgranted

theorem first_live {values : Set Text} {earlier later : List ToolRule} {rule : ToolRule}
    (hsplit : policy.rules = earlier ++ rule :: later) (hlist : tool ∉ policy.allowedTools)
    (hrule : tool ∈ rule.grants values)
    (hearlier : ∀ other ∈ earlier, tool ∉ other.grants values) : policy.Live rule := by
  obtain ⟨⟨v, hv, hany⟩, htool⟩ := hrule
  refine ⟨earlier, later, hsplit, tool, htool, hlist, v, hany, ?_⟩
  intro other ho hother hgranted
  exact hearlier other ho ⟨⟨v, hv, hother⟩, hgranted⟩

theorem identified_of (h : policy.Distinguished) (tool : Text) (claims : Option Claims) :
    policy.Identified tool claims (policy.check tool claims) := by
  have hdenied : (policy.check tool claims).allowed = false → (policy.check tool claims).matchedRule = none := by
    obtain ⟨rule, hcheck⟩ | ⟨reason, hcheck⟩ := @check_shape policy tool claims
    · simp [hcheck]
    · simp [hcheck, denyTool]
  by_cases hlist : tool ∈ policy.allowedTools
  · refine ⟨?_, fun _ hnot => absurd hlist hnot, hdenied⟩
    intro hallowed
    rw [check_listed (check_granted.mp hallowed).1 hlist]
    exact iff_of_true rfl hlist
  · refine ⟨?_, ?_, hdenied⟩
    · intro hallowed
      obtain ⟨earlier, rule, later, hsplit, hcheck, hrule, hearlier⟩ := check_first hallowed hlist
      have hname := (h rule (first_live hsplit hlist hrule hearlier)).1
      rw [hcheck]
      exact iff_of_false (fun he => hname (Option.some.inj he)) hlist
    · intro hallowed _
      obtain ⟨earlier, rule, later, hsplit, hcheck, hrule, hearlier⟩ := check_first hallowed hlist
      have halone := (h rule (first_live hsplit hlist hrule hearlier)).2
      exact ⟨rule, by simp [hsplit], by rw [hcheck], halone, hrule⟩

end

/-- The recorded rule identifies the grant exactly when every rule that can be recorded has a name of its own. -/
theorem rule_identifies_iff (py : Interp) (file : Bytes) (policy : ToolPolicy)
    (hfile : ToolPolicy.fromFile py file = .ok policy) :
    (∀ tool claims, policy.Identified tool claims (policy.check tool claims)) ↔ policy.Distinguished := by
  constructor
  · intro h rule hlive
    obtain ⟨tool, v, hlist, hcheck⟩ := live_recorded (fromFile_loaded hfile) hlive
    have hidentified := h tool (some (policy.claimsWith v))
    rw [hcheck] at hidentified
    have hsentinel := hidentified.sentinel rfl
    obtain ⟨other, _, hother, halone, _⟩ := hidentified.named rfl hlist
    have hrule : rule ∈ policy.rules := by
      obtain ⟨earlier, later, hsplit, _⟩ := hlive
      simp [hsplit]
    have hname : rule.name = other.name := Option.some.inj hother
    have hmem : rule ∈ policy.rules.filter fun r => r.name = other.name :=
      List.mem_filter.mpr ⟨hrule, by simpa using hname⟩
    rw [halone, List.mem_singleton] at hmem
    refine ⟨fun he => hlist (hsentinel.mp (congrArg some he)), ?_⟩
    rw [hmem]
    exact halone
  · exact identified_of

def opsPolicy : ToolPolicy where
  allowedTools := {txt "read"}
  claim := txt "groups"
  rules := [⟨txt "ops", {txt "ops"}, {txt "deploy"}⟩, ⟨txt "rules[1]", {txt "dev"}, {txt "build"}⟩]

def opsFile : Bytes :=
  ascii "\x7b\"allowed_tools\":[\"read\"],\"rules\":[" ++
  ascii "\x7b\"name\":\"ops\",\"any_of\":[\"ops\"],\"allowed_tools\":[\"deploy\"]\x7d," ++
  ascii "\x7b\"any_of\":[\"dev\"],\"allowed_tools\":[\"build\"]\x7d]\x7d"

theorem rule_identifies_iff_ops : ToolPolicy.fromFile .ascii opsFile = .ok opsPolicy ∧
    ∀ tool claims, opsPolicy.Identified tool claims (opsPolicy.check tool claims) := by
  have hfile : ToolPolicy.fromFile .ascii opsFile = .ok opsPolicy := by decide +kernel
  refine ⟨hfile, (rule_identifies_iff _ _ _ hfile).mpr ?_⟩
  have hall : ∀ rule ∈ opsPolicy.rules, rule.name ≠ unconditional ∧
      opsPolicy.rules.filter (fun other => other.name = rule.name) = [rule] := by decide
  intro rule ⟨earlier, later, hsplit, _⟩
  exact hall rule (by simp [hsplit])

def shadowPolicy : ToolPolicy where
  allowedTools := ∅
  claim := txt "groups"
  rules := [⟨unconditional, {txt "ops"}, {txt "deploy"}⟩]

def shadowFile : Bytes :=
  ascii "\x7b\"rules\":[\x7b\"name\":\"[unconditional]\",\"any_of\":[\"ops\"],\"allowed_tools\":[\"deploy\"]\x7d]\x7d"

theorem sentinel_not_identified : ToolPolicy.fromFile .ascii shadowFile = .ok shadowPolicy ∧
    ¬ ∀ tool claims, shadowPolicy.Identified tool claims (shadowPolicy.check tool claims) := by
  refine ⟨by decide +kernel, ?_⟩
  intro h
  have hclaims := h (txt "deploy") (some (shadowPolicy.claimsWith (txt "ops")))
  have hcheck : shadowPolicy.check (txt "deploy") (some (shadowPolicy.claimsWith (txt "ops"))) =
      ⟨true, txt "deploy", txt "ok", some unconditional⟩ := by decide +kernel
  rw [hcheck] at hclaims
  have hlisted := (hclaims.sentinel rfl).mp rfl
  exact absurd hlisted (by decide)

end McpGateway
