import McpGateway.Proxy
import Mathlib.Data.List.MinMax

/-!
# The scope a method needs

The table asks for the scopes of one rule, whatever the order of its rules: the
method's own rule, or the one of the longest key that is a prefix.
-/

namespace McpGateway

open Unicode Json

/-- The longest of the prefix keys; no other is as long. -/
structure LongestPrefix (keys : List Text) (method best : Text) : Prop where
  mem : best ∈ keys
  isPrefix : prefixKey method best = true
  longest : ∀ key ∈ keys, prefixKey method key = true → key ≠ best → key.length < best.length

section
variable (policy : ScopePolicy) (method : Text)

inductive ScopePolicy.Ruled : Finset Text → Prop
  | exact {required : Finset Text} : (method, required) ∈ policy.rules → Ruled required
  | longest {best : Text} {required : Finset Text} : method ∉ policy.rules.map Prod.fst →
      LongestPrefix (policy.rules.map Prod.fst) method best → (best, required) ∈ policy.rules → Ruled required

/-- What the table asks for a method; `none` is an outright denial. -/
inductive ScopePolicy.Asks : Option (Finset Text) → Prop
  | rule {required : Finset Text} : policy.Ruled method required → Asks (some required)
  | fallback : (∀ required, ¬ policy.Ruled method required) →
      ¬ (policy.denyByDefault = true ∧ policy.default = ∅) → Asks (some policy.default)
  | outright : (∀ required, ¬ policy.Ruled method required) → policy.denyByDefault = true →
      policy.default = ∅ → Asks none

end

def ScopePolicy.scopesSupported (policy : ScopePolicy) : List Text :=
  sorted ((policy.rules.map Prod.snd).foldr (· ∪ ·) ∅ ∪ policy.default)

def protectedResourceMetadata (gw : Gateway) : Value :=
  .obj [(txt "resource", .str (baseUrl gw.settings)),
    (txt "authorization_servers", .arr [.str gw.settings.issuer]),
    (txt "scopes_supported", .arr (gw.policy.scopesSupported.map .str)),
    (txt "bearer_methods_supported", .arr [.str (txt "header")])]

/-! ## The loop over the keys -/

/-- Prefix keys of one method differ in length. -/
theorem prefixKey_inj {method k k' : Text} (h : prefixKey method k = true) (h' : prefixKey method k' = true)
    (hlen : k.length = k'.length) : k = k' := by
  rw [prefixKey, Bool.and_eq_true, List.isPrefixOf_iff_prefix] at h h'
  exact (List.prefix_of_prefix_length_le h.2 h'.2 hlen.le).eq_of_length hlen

/-- The loop keeps the running maximum of the prefix keys' lengths. -/
theorem bestKey_foldl {method : Text} {best : Option Text} {keys : List Text} :
    bestKey method best keys =
      (keys.filter (prefixKey method)).foldl (List.argAux fun b c => c.length < b.length) best := by
  induction keys generalizing best with
  | nil => rfl
  | cons key keys ih =>
    unfold bestKey
    by_cases hp : prefixKey method key = true
    · rw [if_pos hp, List.filter_cons_of_pos hp, List.foldl_cons]
      cases best with
      | none => exact ih
      | some b =>
        rw [List.argAux]
        by_cases hlen : b.length < key.length
        · simp only [hlen, if_true]
          exact ih
        · simp only [hlen, if_false]
          exact ih
    · rw [if_neg hp, List.filter_cons_of_neg hp]
      exact ih

theorem bestKey_argmax {method : Text} {keys : List Text} :
    bestKey method none keys = (keys.filter (prefixKey method)).argmax List.length :=
  bestKey_foldl

theorem bestKey_some {method best : Text} {keys : List Text} :
    bestKey method none keys = some best ↔ LongestPrefix keys method best := by
  rw [bestKey_argmax]
  constructor
  · intro h
    have hmem := List.mem_filter.mp (List.argmax_mem h)
    refine ⟨hmem.1, hmem.2, ?_⟩
    intro key hk hp hne
    have hle := List.le_of_mem_argmax (List.mem_filter.mpr ⟨hk, hp⟩) h
    exact lt_of_le_of_ne hle fun hlen => hne (prefixKey_inj hp hmem.2 hlen)
  · intro h
    have hbest : best ∈ keys.filter (prefixKey method) := List.mem_filter.mpr ⟨h.mem, h.isPrefix⟩
    cases hmax : (keys.filter (prefixKey method)).argmax List.length with
    | none =>
      rw [List.argmax_eq_none] at hmax
      rw [hmax] at hbest
      cases hbest
    | some key =>
      have hkey := List.mem_filter.mp (List.argmax_mem hmax)
      have hle := List.le_of_mem_argmax hbest hmax
      by_contra hne
      have hlt := h.longest key hkey.1 hkey.2 fun he => hne (by rw [he])
      exact absurd hlt (Nat.not_lt.mpr hle)

theorem LongestPrefix.unique {keys : List Text} {method k k' : Text} (h : LongestPrefix keys method k)
    (h' : LongestPrefix keys method k') : k = k' := by
  have hk := bestKey_some.mpr h
  have hk' := bestKey_some.mpr h'
  exact Option.some.inj (hk.symm.trans hk')

/-! ## The rule that decides -/

theorem lookup_none_iff {α : Type} {ms : List (Text × α)} {k : Text} : ms.lookup k = none ↔
    k ∉ ms.map Prod.fst := by
  rw [List.lookup_eq_none_iff, List.mem_map]
  constructor
  · intro h ⟨m, hm, hk⟩
    have hne := h m hm
    rw [hk, bne_self_eq_false] at hne
    cases hne
  · intro h m hm
    rw [bne_iff_ne]
    exact fun hk => h ⟨m, hm, hk.symm⟩

section
variable {policy : ScopePolicy} {method : Text}

theorem rule_lookup {key : Text} {required : Finset Text} :
    policy.rules.lookup key = some required ↔ (key, required) ∈ policy.rules :=
  (mem_iff_lookup (m := (key, required)) policy.distinct).symm

theorem match_ruled {required : Finset Text} : policy.match_ method = some required ↔
    policy.Ruled method required := by
  rw [ScopePolicy.match_]
  cases hl : policy.rules.lookup method with
  | some r =>
    have hr : (method, r) ∈ policy.rules := rule_lookup.mp hl
    constructor
    · intro h
      cases h
      exact .exact hr
    · intro h
      cases h with
      | exact hmem => rw [← hl, rule_lookup.mpr hmem]
      | longest hnot => exact absurd (List.mem_map_of_mem hr) hnot
  | none =>
    have hnot := lookup_none_iff.mp hl
    cases hb : bestKey method none (policy.rules.map Prod.fst) with
    | some best =>
      have hbest := bestKey_some.mp hb
      constructor
      · intro h
        exact .longest hnot hbest (rule_lookup.mp h)
      · intro h
        cases h with
        | exact hmem => exact absurd (List.mem_map_of_mem hmem) hnot
        | longest _ hbest' hmem =>
          rw [hbest'.unique hbest] at hmem
          exact rule_lookup.mpr hmem
    | none =>
      constructor
      · intro h
        cases h
      · intro h
        cases h with
        | exact hmem => exact absurd (List.mem_map_of_mem hmem) hnot
        | longest _ hbest' _ =>
          rw [bestKey_some.mpr hbest'] at hb
          cases hb

theorem match_none : policy.match_ method = none ↔ ∀ required, ¬ policy.Ruled method required := by
  simp only [← match_ruled]
  cases policy.match_ method <;> simp

theorem ruled_unique {r r' : Finset Text} (h : policy.Ruled method r) (h' : policy.Ruled method r') : r = r' := by
  rw [← match_ruled] at h h'
  exact Option.some.inj (h.symm.trans h')

/-! ## Checking -/

def ScopePolicy.asked (policy : ScopePolicy) (method : Text) : Option (Finset Text) :=
  match policy.match_ method with
  | some required => some required
  | none => if policy.denyByDefault && decide (policy.default = ∅) then none else some policy.default

theorem asked_iff {asked : Option (Finset Text)} : policy.asked method = asked ↔ policy.Asks method asked := by
  rw [ScopePolicy.asked]
  cases hm : policy.match_ method with
  | some r =>
    have hr := match_ruled.mp hm
    constructor
    · rintro rfl
      exact .rule hr
    · intro h
      cases h with
      | rule h => rw [ruled_unique h hr]
      | fallback hnone => exact absurd hr (hnone r)
      | outright hnone => exact absurd hr (hnone r)
  | none =>
    have hnone := match_none.mp hm
    by_cases hd : policy.denyByDefault = true ∧ policy.default = ∅
    · have hif : (policy.denyByDefault && decide (policy.default = ∅)) = true := by simp [hd.1, hd.2]
      simp only [hif, if_true]
      constructor
      · rintro rfl
        exact .outright hnone hd.1 hd.2
      · intro h
        cases h with
        | rule h => exact absurd h (hnone _)
        | fallback _ hnot => exact absurd hd hnot
        | outright => rfl
    · have hif : ¬ (policy.denyByDefault && decide (policy.default = ∅)) = true := by simpa using hd
      simp only [hif]
      constructor
      · rintro rfl
        exact .fallback hnone hd
      · intro h
        cases h with
        | rule h => exact absurd h (hnone _)
        | fallback => rfl
        | outright _ hdeny hempty => exact absurd ⟨hdeny, hempty⟩ hd

theorem asks_unique : ∃! asked, policy.Asks method asked := by
  refine ⟨policy.asked method, asked_iff.mp rfl, ?_⟩
  intro asked h
  exact (asked_iff.mpr h).symm

variable {py : Interp} {held : Finset Text}

theorem require_allowed {required : Finset Text} :
    (ScopePolicy.require py required held).allowed = true ↔ required ⊆ held := by
  rw [ScopePolicy.require, ← Finset.sdiff_eq_empty_iff_subset]
  split
  · rename_i h
    exact iff_of_false Bool.false_ne_true h
  · rename_i h
    exact iff_of_true rfl (not_not.mp h)

theorem require_required {required : Finset Text} : (ScopePolicy.require py required held).required = required := by
  rw [ScopePolicy.require]
  split <;> rfl

/-- The decision is that of the scopes asked for. -/
theorem check_asked :
    policy.check py method held =
      match policy.asked method with
      | some required => ScopePolicy.require py required held
      | none => ⟨false, ∅, txt "no policy for method '" ++ method ++ txt "' (deny-by-default)"⟩ := by
  rw [ScopePolicy.check, ScopePolicy.asked]
  cases policy.match_ method with
  | some required => rfl
  | none =>
    dsimp only
    split <;> rfl

theorem check_required : (policy.check py method held).required = (policy.asked method).getD ∅ := by
  rw [check_asked]
  cases policy.asked method with
  | some required => exact require_required
  | none => rfl

theorem check_allowed :
    (policy.check py method held).allowed = true ↔ ∃ required, policy.asked method = some required ∧
    required ⊆ held := by
  rw [check_asked]
  cases policy.asked method with
  | some required => simp [require_allowed]
  | none => simp

end

/-! ## Order, more scopes and the metadata -/

section
variable {policy policy' : ScopePolicy} {method : Text}

theorem ruled_perm (h : policy.rules.Perm policy'.rules) {required : Finset Text}
    (hr : policy.Ruled method required) :
    policy'.Ruled method required := by
  have hkeys := h.map Prod.fst
  cases hr with
  | exact hmem => exact .exact (h.mem_iff.mp hmem)
  | longest hnot hbest hmem =>
    refine .longest (mt hkeys.mem_iff.mpr hnot) ⟨hkeys.mem_iff.mp hbest.mem, hbest.isPrefix, ?_⟩ (h.mem_iff.mp hmem)
    intro key hk
    exact hbest.longest key (hkeys.mem_iff.mpr hk)

theorem match_perm (h : policy.rules.Perm policy'.rules) : policy.match_ method = policy'.match_ method := by
  ext required
  rw [match_ruled, match_ruled]
  exact ⟨ruled_perm h, ruled_perm h.symm⟩

theorem check_perm {py : Interp} {held : Finset Text} (h : policy.rules.Perm policy'.rules)
    (hdefault : policy.default = policy'.default) (hdeny : policy.denyByDefault = policy'.denyByDefault) :
    policy.check py method held = policy'.check py method held := by
  rw [ScopePolicy.check, ScopePolicy.check, match_perm h, hdefault, hdeny]

theorem mem_union {sets : List (Finset Text)} {scope : Text} : scope ∈ sets.foldr (· ∪ ·) ∅ ↔
    ∃ s ∈ sets, scope ∈ s := by
  induction sets with
  | nil => simp
  | cons s sets ih => simp [ih]

theorem mem_scopesSupported {scope : Text} :
    scope ∈ policy.scopesSupported ↔ (∃ rule ∈ policy.rules, scope ∈ rule.2) ∨ scope ∈ policy.default := by
  rw [ScopePolicy.scopesSupported, mem_sorted, Finset.mem_union, mem_union]
  simp only [List.mem_map, exists_exists_and_eq_and]

theorem sorted_toFinset (scopes : Finset Text) : (sorted scopes).toFinset = scopes := by
  ext scope
  rw [List.mem_toFinset, mem_sorted]

theorem ruled_mem {required : Finset Text} (h : policy.Ruled method required) :
    ∃ key, (key, required) ∈ policy.rules := by
  cases h with
  | exact hmem => exact ⟨_, hmem⟩
  | longest _ _ hmem => exact ⟨_, hmem⟩

theorem required_supported {py : Interp} {held : Finset Text} {scope : Text}
    (h : scope ∈ (policy.check py method held).required) : scope ∈ policy.scopesSupported := by
  rw [check_required] at h
  rw [mem_scopesSupported]
  have hasks : policy.Asks method (policy.asked method) := asked_iff.mp rfl
  cases hasked : policy.asked method with
  | none =>
    rw [hasked] at h
    simp at h
  | some required =>
    rw [hasked] at h hasks
    cases hasks with
    | rule hr =>
      obtain ⟨key, hmem⟩ := ruled_mem hr
      exact Or.inl ⟨_, hmem, h⟩
    | fallback => exact Or.inr h

end

/-- A scope decision is the longest-prefix one. -/
theorem scope_check_longest (py : Interp) :
    (∀ (policy : ScopePolicy) (method : Text),
      (∃! asked, policy.Asks method asked) ∧
      (∀ required, policy.Asks method (some required) → ∀ held,
        (policy.check py method held).required = required ∧
          ((policy.check py method held).allowed = true ↔ required ⊆ held)) ∧
      (policy.Asks method none → ∀ held,
        (policy.check py method held).required = ∅ ∧ (policy.check py method held).allowed = false)) ∧
    (∀ (policy policy' : ScopePolicy), policy.rules.Perm policy'.rules → policy.default = policy'.default →
      policy.denyByDefault = policy'.denyByDefault →
      ∀ method held, policy.check py method held = policy'.check py method held) ∧
    (∀ (policy : ScopePolicy) (method : Text) (held held' : Finset Text), held ⊆ held' →
      (policy.check py method held).allowed = true → (policy.check py method held').allowed = true) ∧
    ∀ gw : Gateway, ∃ advertised : List Text,
      dictGet (txt "scopes_supported") (protectedResourceMetadata gw) = some (.arr (advertised.map .str)) ∧
      (∀ scope, scope ∈ advertised ↔ (∃ rule ∈ gw.policy.rules, scope ∈ rule.2) ∨ scope ∈ gw.policy.default) ∧
      ∀ method held, ∀ scope ∈ (gw.policy.check py method held).required, scope ∈ advertised := by
  refine ⟨?_, ?_, ?_, ?_⟩
  · intro policy method
    refine ⟨asks_unique, ?_, ?_⟩
    · intro required h held
      rw [← asked_iff] at h
      rw [check_required, check_allowed, h]
      simp
    · intro h held
      rw [← asked_iff] at h
      rw [check_required, ← Bool.not_eq_true, check_allowed, h]
      simp
  · intro policy policy' h hdefault hdeny method held
    exact check_perm h hdefault hdeny
  · intro policy method held held' hsub h
    rw [check_allowed] at h ⊢
    obtain ⟨required, hasked, hle⟩ := h
    exact ⟨required, hasked, hle.trans hsub⟩
  · intro gw
    refine ⟨gw.policy.scopesSupported, rfl, fun scope => mem_scopesSupported, ?_⟩
    intro method held scope h
    exact required_supported h

def nestedRules : List (Text × Finset Text) :=
  [(txt "resources/", {txt "mcp:read"}), (txt "resources/admin/", {txt "mcp:admin"})]

def nestedPolicy : ScopePolicy := ⟨nestedRules, ∅, true, by decide⟩

def reversedPolicy : ScopePolicy := ⟨nestedRules.reverse, ∅, true, by decide⟩

theorem scope_check_longest_nested :
    nestedPolicy.check .ascii (txt "resources/admin/list") = reversedPolicy.check .ascii
    (txt "resources/admin/list") ∧
      (nestedPolicy.check .ascii (txt "resources/admin/list") {txt "mcp:read"}).allowed = false ∧
      (nestedPolicy.check .ascii (txt "resources/admin/list") {txt "mcp:read", txt "mcp:admin"}).allowed = true ∧
      (nestedPolicy.check .ascii (txt "prompts/list") {txt "mcp:read"}).allowed = false := by
  obtain ⟨hspec, hperm, hmono, _⟩ := scope_check_longest .ascii
  obtain ⟨_, hadmin, _⟩ := hspec nestedPolicy (txt "resources/admin/list")
  obtain ⟨_, _, hprompts⟩ := hspec nestedPolicy (txt "prompts/list")
  have hasks : nestedPolicy.Asks (txt "resources/admin/list") (some {txt "mcp:admin"}) := asked_iff.mp (by decide)
  refine ⟨?_, ?_, ?_, ?_⟩
  · funext held
    exact hperm nestedPolicy reversedPolicy (List.reverse_perm _).symm rfl rfl _ held
  · rw [← Bool.not_eq_true, (hadmin _ hasks _).2]
    decide
  · exact hmono _ _ {txt "mcp:admin"} _ (by decide) ((hadmin _ hasks _).2.mpr (Finset.Subset.refl _))
  · exact (hprompts (asked_iff.mp (by decide)) _).2

end McpGateway
