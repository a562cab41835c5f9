import McpGateway.Python

/-!
# The scope policy

A rule is found by the exact method or by the longest key that ends in a slash
and starts the method; the scopes it requires are compared with those held.
-/

namespace McpGateway

open Unicode Json

structure ScopeDecision where
  allowed : Bool
  required : Finset Text
  reason : Text
  deriving DecidableEq

structure ScopePolicy where
  rules : List (Text × Finset Text)
  default : Finset Text
  denyByDefault : Bool
  distinct : (rules.map Prod.fst).Nodup

def prefixKey (method key : Text) : Bool := [ch '/'].isSuffixOf key && key.isPrefixOf method

/-- The first of the longest prefix keys. -/
def bestKey (method : Text) : Option Text → List Text → Option Text
  | best, [] => best
  | best, key :: keys =>
    if prefixKey method key then
      match best with
      | none => bestKey method (some key) keys
      | some b => if b.length < key.length then bestKey method (some key) keys else bestKey method (some b) keys
    else bestKey method best keys

def ScopePolicy.match_ (policy : ScopePolicy) (method : Text) : Option (Finset Text) :=
  match policy.rules.lookup method with
  | some required => some required
  | none =>
    match bestKey method none (policy.rules.map Prod.fst) with
    | some best => policy.rules.lookup best
    | none => none

def ScopePolicy.require (py : Interp) (required held : Finset Text) : ScopeDecision :=
  let missing := required \ held
  if missing ≠ ∅ then ⟨false, required, txt "missing scope(s): " ++ listRepr py.isPrintable (sorted missing)⟩
  else ⟨true, required, txt "ok"⟩

def ScopePolicy.check (py : Interp) (policy : ScopePolicy) (method : Text) (held : Finset Text) : ScopeDecision :=
  match policy.match_ method with
  | some required => ScopePolicy.require py required held
  | none =>
    if policy.denyByDefault && decide (policy.default = ∅) then
      ⟨false, ∅, txt "no policy for method '" ++ method ++ txt "' (deny-by-default)"⟩
    else ScopePolicy.require py policy.default held

/-! ## Keys -/

/-- A prefix key is cut off at a slash of the method. -/
theorem prefixKey_iff {method key : Text} :
    prefixKey method key = true ↔ ∃ pre rest, key = pre ++ [ch '/'] ∧ method = pre ++ ch '/' :: rest := by
  rw [prefixKey, Bool.and_eq_true, List.isSuffixOf_iff_suffix, List.isPrefixOf_iff_prefix]
  constructor
  · rintro ⟨⟨pre, rfl⟩, rest, rfl⟩
    exact ⟨pre, rest, rfl, by simp⟩
  · rintro ⟨pre, rest, rfl, rfl⟩
    exact ⟨⟨pre, rfl⟩, rest, by simp⟩

theorem bestKey_mem {method k : Text} {best : Option Text} {keys : List Text}
    (h : bestKey method best keys = some k) :
    best = some k ∨ (k ∈ keys ∧ prefixKey method k = true) := by
  induction keys generalizing best with
  | nil => exact Or.inl h
  | cons key keys ih =>
    have hlater : ∀ {b}, bestKey method b keys = some k → b = best ∨ (b = some key ∧ prefixKey method key = true) →
        best = some k ∨ (k ∈ key :: keys ∧ prefixKey method k = true) := by
      intro b hb hor
      rcases ih hb with rfl | ⟨hk, hp⟩
      · rcases hor with rfl | ⟨hk, hp⟩
        · exact Or.inl rfl
        · cases hk
          exact Or.inr ⟨List.mem_cons_self, hp⟩
      · exact Or.inr ⟨List.mem_cons_of_mem _ hk, hp⟩
    unfold bestKey at h
    split at h
    · rename_i hp
      split at h
      · exact hlater h (Or.inr ⟨rfl, hp⟩)
      split at h
      · exact hlater h (Or.inr ⟨rfl, hp⟩)
      · exact hlater h (Or.inl rfl)
    · exact hlater h (Or.inl rfl)

theorem mem_of_lookup {α : Type} {ms : List (Text × α)} {k : Text} {a : α} (h : ms.lookup k = some a) :
    (k, a) ∈ ms := by
  induction ms with
  | nil => cases h
  | cons m ms ih =>
    rw [List.lookup_cons] at h
    split at h
    · rename_i hk
      cases h
      rw [beq_iff_eq] at hk
      exact hk ▸ List.mem_cons_self
    · exact List.mem_cons_of_mem _ (ih h)

theorem match_mem {policy : ScopePolicy} {method : Text} {required : Finset Text}
    (h : policy.match_ method = some required) :
    ∃ key, (key, required) ∈ policy.rules ∧ (key = method ∨ prefixKey method key = true) := by
  rw [ScopePolicy.match_] at h
  split at h
  · rename_i hl
    cases h
    exact ⟨method, mem_of_lookup hl, Or.inl rfl⟩
  split at h
  · rename_i best hb
    have hbest := bestKey_mem hb
    rcases hbest with hnone | ⟨_, hp⟩
    · cases hnone
    · exact ⟨best, mem_of_lookup h, Or.inr hp⟩
  · cases h

end McpGateway
