import McpGateway.Acceptance
import McpGateway.ScopePolicy

/-!
# Methods as paths

The parser refuses the methods that literal path normalization would change,
so the policy decides alike for a method and for its normal form, and a prefix
rule covers what lies under its path.
-/

namespace McpGateway

open Unicode Json

/-! ## Splitting -/

section
variable {α : Type} [DecidableEq α] {x : α}

theorem splitOn_no_sep {l : List α} : ∀ seg ∈ l.splitOn x, x ∉ seg := by
  induction l with
  | nil => simp
  | cons c l ih =>
    rw [List.splitOn_cons_eq_if_modifyHead]
    split
    · rw [List.forall_mem_cons]
      exact ⟨List.not_mem_nil, ih⟩
    · rename_i hc
      have hne : x ≠ c := fun h => hc (beq_iff_eq.mpr h.symm)
      cases hs : l.splitOn x with
      | nil => exact absurd hs (List.splitOn_ne_nil x l)
      | cons seg segs =>
        rw [hs, List.forall_mem_cons] at ih
        rw [List.modifyHead_cons, List.forall_mem_cons]
        refine ⟨?_, ih.2⟩
        simp [hne, ih.1]

theorem splitOn_inj {l l' : List α} (h : l.splitOn x = l'.splitOn x) : l = l' := by
  rw [← @List.intercalate_splitOn _ l _ _ x, h, List.intercalate_splitOn]

/-- Cutting at a separator is taking a proper initial part of the segments. -/
theorem splitOn_cut {l pre : List α} :
    (∃ rest, l = pre ++ x :: rest) ↔ pre.splitOn x <+: l.splitOn x ∧ pre.splitOn x ≠ l.splitOn x := by
  constructor
  · rintro ⟨rest, rfl⟩
    rw [List.splitOn_append_cons_self]
    refine ⟨List.prefix_append _ _, fun h => ?_⟩
    exact List.splitOn_ne_nil x rest (List.append_right_eq_self.mp h.symm)
  · rintro ⟨⟨t, ht⟩, hne⟩
    have htne : t ≠ [] := by
      rintro rfl
      rw [List.append_nil] at ht
      exact hne ht
    have hsep : ∀ seg ∈ t, x ∉ seg := fun seg hseg =>
      splitOn_no_sep (l := l) seg (ht ▸ List.mem_append_right _ hseg)
    refine ⟨[x].intercalate t, splitOn_inj (x := x) ?_⟩
    rw [List.splitOn_append_cons_self, List.splitOn_intercalate x hsep htne, ht]

end

/-! ## Normal forms -/

def normStep (kept : List Text) (seg : Text) : List Text :=
  if seg = [] ∨ seg = txt "." then kept else if seg = txt ".." then kept.tail else seg :: kept

def norm (method : Text) : Text := [ch '/'].intercalate ((method.splitOn (ch '/')).foldl normStep []).reverse

theorem normStep_keep {kept : List Text} {seg : Text} (h : relativeSegment seg = false) :
    normStep kept seg = seg :: kept := by
  obtain ⟨h0, h1, h2⟩ := relativeSegment_false.mp h
  simp [normStep, h0, h1, h2]

theorem normStep_mem {kept : List Text} {seg s : Text} (h : s ∈ normStep kept seg) :
    s ∈ kept ∨ (s = seg ∧ relativeSegment seg = false) := by
  unfold normStep at h
  split_ifs at h with h1 h2
  · exact Or.inl h
  · exact Or.inl (List.mem_of_mem_tail h)
  · rcases List.mem_cons.mp h with rfl | h
    · have hs : s ≠ [] ∧ s ≠ txt "." := not_or.mp h1
      exact Or.inr ⟨rfl, relativeSegment_false.mpr ⟨hs.1, hs.2, h2⟩⟩
    · exact Or.inl h

theorem foldl_normStep_mem {segs kept : List Text} {s : Text} (h : s ∈ segs.foldl normStep kept) :
    s ∈ kept ∨ (s ∈ segs ∧ relativeSegment s = false) := by
  induction segs generalizing kept with
  | nil => exact Or.inl h
  | cons seg segs ih =>
    rw [List.foldl_cons] at h
    rcases ih h with hk | ⟨hs, hr⟩
    · rcases normStep_mem hk with hk | ⟨rfl, hr⟩
      · exact Or.inl hk
      · exact Or.inr ⟨List.mem_cons_self, hr⟩
    · exact Or.inr ⟨List.mem_cons_of_mem _ hs, hr⟩

theorem foldl_normStep_keep {segs kept : List Text} (h : ∀ seg ∈ segs, relativeSegment seg = false) :
    segs.foldl normStep kept = segs.reverse ++ kept := by
  induction segs generalizing kept with
  | nil => rfl
  | cons seg segs ih =>
    rw [List.forall_mem_cons] at h
    rw [List.foldl_cons, normStep_keep h.1, ih h.2]
    simp

theorem guard_iff_norm {m : Text} (hm : m ≠ []) :
    (m.splitOn (ch '/')).any relativeSegment = false ↔ norm m = m := by
  rw [List.any_eq_false]
  simp only [Bool.not_eq_true]
  constructor
  · intro h
    rw [norm, foldl_normStep_keep h, List.append_nil, List.reverse_reverse, List.intercalate_splitOn]
  · intro h seg hseg
    have hkept : ∀ s ∈ ((m.splitOn (ch '/')).foldl normStep []).reverse,
        s ∈ m.splitOn (ch '/') ∧ relativeSegment s = false := by
      intro s hs
      rcases foldl_normStep_mem (List.mem_reverse.mp hs) with hnil | hs
      · cases hnil
      · exact hs
    have hne : ((m.splitOn (ch '/')).foldl normStep []).reverse ≠ [] := by
      intro hnil
      rw [norm, hnil] at h
      exact hm h.symm
    have hsplit : m.splitOn (ch '/') = ((m.splitOn (ch '/')).foldl normStep []).reverse := by
      have hjoin := List.splitOn_intercalate (ch '/') (fun s hs => splitOn_no_sep s (hkept s hs).1) hne
      rw [← hjoin]
      exact congrArg (List.splitOn (ch '/')) h.symm
    rw [hsplit] at hseg
    exact (hkept seg hseg).2

/-! ## The guard in the parser -/

def segmentRefusal : JsonRpcParse :=
  refuse (txt "method name contains an empty or relative path segment") (txt "invalid_jsonrpc")

theorem resolveTool_not_segment (py : Interp) (data : Value) (m : Text) :
    resolveTool py data m ≠ .ok segmentRefusal := by
  intro h
  have herror : txt "tool name exceeds maximum length of 256" ≠
      txt "method name contains an empty or relative path segment" := by decide +kernel
  rw [resolveTool] at h
  split at h
  · cases h
  split at h
  · split at h
    · split at h
      · have := congrArg JsonRpcParse.error (Except.ok.inj h)
        exact herror (Option.some.inj this)
      · cases h
    · cases h
  · cases h

theorem resolveRequest_segment {py : Interp} {data : Value} {m : Text}
    (hm : dictGet (txt "method") data = some (.str m)) (hpos : 1 ≤ m.length) (hlen : m.length ≤ 256) :
    resolveRequest py data = .ok segmentRefusal ↔ (m.splitOn (ch '/')).any relativeSegment = true := by
  constructor
  · intro h
    by_contra hguard
    rw [resolveRequest_within hm hpos hlen (guard_iff.mp (Bool.eq_false_iff.mpr hguard))] at h
    exact resolveTool_not_segment py data m h
  · intro hguard
    obtain ⟨m', ms, rfl⟩ := dictGet_some hm
    have hlong : ¬ maxIdentifierLen < m.length := Nat.not_lt.mpr hlen
    rw [resolveRequest, resolveMethod, hm]
    dsimp only
    rw [if_neg (List.ne_nil_of_length_pos hpos), if_neg hlong, if_pos hguard]
    rfl

/-! ## Stability -/

/-- The key of a prefix rule lies above the method, segment by segment. -/
def LiesUnder (method pre : Text) : Prop :=
  pre.splitOn (ch '/') <+: method.splitOn (ch '/') ∧ pre.splitOn (ch '/') ≠ method.splitOn (ch '/')

theorem prefixKey_liesUnder {method pre : Text} :
    prefixKey method (pre ++ [ch '/']) = true ↔ LiesUnder method pre := by
  rw [prefixKey_iff, LiesUnder, ← splitOn_cut]
  constructor
  · rintro ⟨pre', rest, hpre, rfl⟩
    obtain rfl := List.append_cancel_right hpre
    exact ⟨rest, rfl⟩
  · rintro ⟨rest, rfl⟩
    exact ⟨pre, rest, rfl, rfl⟩

/-- Authorization is stable under literal path normalization. -/
theorem normalization_stable {m : Text} (hpos : 1 ≤ m.length) (hlen : m.length ≤ 256) :
    (∀ py data, dictGet (txt "method") data = some (.str m) →
      (resolveRequest py data = .ok segmentRefusal ↔ norm m ≠ m)) ∧
      ((m.splitOn (ch '/')).any relativeSegment = false ↔ norm m = m) ∧
      ((m.splitOn (ch '/')).any relativeSegment = false →
        (∀ py (policy : ScopePolicy) held, policy.check py (norm m) held = policy.check py m held) ∧
        (∀ pre, prefixKey m (pre ++ [ch '/']) = true ↔ LiesUnder m pre) ∧
        ∀ (policy : ScopePolicy) required, policy.match_ m = some required →
          (m, required) ∈ policy.rules ∨ ∃ pre, (pre ++ [ch '/'], required) ∈ policy.rules ∧ LiesUnder m pre) := by
  have hne : m ≠ [] := List.ne_nil_of_length_pos hpos
  have hguard := guard_iff_norm hne
  refine ⟨fun py data hm => ?_, hguard, fun h => ⟨fun py policy held => ?_, fun pre => prefixKey_liesUnder, ?_⟩⟩
  · rw [resolveRequest_segment hm hpos hlen, Ne, ← hguard, Bool.not_eq_false]
  · rw [hguard.mp h]
  · intro policy required hreq
    obtain ⟨key, hkey, rfl | hp⟩ := match_mem hreq
    · exact Or.inl hkey
    · obtain ⟨pre, rest, rfl, _⟩ := prefixKey_iff.mp hp
      exact Or.inr ⟨pre, hkey, prefixKey_liesUnder.mp hp⟩

theorem normalization_stable_read :
    (∀ py (policy : ScopePolicy) held,
      policy.check py (norm (txt "resources/read")) held = policy.check py (txt "resources/read") held) ∧
      ∀ pre, prefixKey (txt "resources/read") (pre ++ [ch '/']) = true ↔ LiesUnder (txt "resources/read") pre := by
  obtain ⟨_, _, haccepted⟩ := normalization_stable (m := txt "resources/read") (by decide) (by decide)
  obtain ⟨hcheck, hkeys, _⟩ := haccepted (by decide +kernel)
  exact ⟨hcheck, hkeys⟩

example : norm (txt "resources/../tools/call") = txt "tools/call" := by decide +kernel

end McpGateway
