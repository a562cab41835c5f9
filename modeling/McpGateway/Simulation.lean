import McpGateway.Transition

/-!
# Refinement and amortized runs

A machine refines another through a map of its states when each step is a step
of the other, or none. Steps are paid for from a potential: what a run costs is
bounded by the potential it starts with and what it gains on the way.
-/

namespace Transition

variable {σ σ' ε ε' : Type}

/-! ## Refinement -/

section
variable {m : Machine σ ε} {ok : σ → ε → Prop} {m' : Machine σ' ε'} {ok' : σ' → ε' → Prop} {f : σ → σ'}

/-- Each allowed step of `m` is under `f` an allowed step of `m'`, or changes nothing. -/
structure Refines (m : Machine σ ε) (ok : σ → ε → Prop) (m' : Machine σ' ε') (ok' : σ' → ε' → Prop) (f : σ → σ') :
    Prop where
  init : f m.init = m'.init
  step : ∀ s e s', Reachable m ok s → ok s e → m.step s e = some s' →
    f s' = f s ∨ ∃ e', ok' (f s) e' ∧ m'.step (f s) e' = some (f s')

theorem Refines.reachable (h : Refines m ok m' ok' f) {s : σ} (hs : Reachable m ok s) : Reachable m' ok' (f s) := by
  induction hs with
  | init =>
    rw [h.init]
    exact .init
  | step hr ho he ih =>
    rcases h.step _ _ _ hr ho he with hsame | ⟨e', ho', he'⟩
    · rw [hsame]
      exact ih
    · exact .step ih ho' he'

end

/-! ## Runs -/

/-- What relates each step's states relates the ends of a run. -/
theorem Machine.run_related {m : Machine σ ε} {R : σ → σ → Prop} (hrefl : ∀ s, R s s)
    (htrans : ∀ a b c, R a b → R b c → R a c)
    (hstep : ∀ s e s', m.step s e = some s' → R s s') {s s' : σ} {es : List ε} (hr : m.run s es = some s') :
    R s s' := by
  induction es generalizing s with
  | nil =>
    cases hr
    exact hrefl _
  | cons e es ih =>
    obtain ⟨t, ht, hr⟩ := Option.bind_eq_some_iff.mp hr
    exact htrans _ _ _ (hstep s e t ht) (ih hr)

section
variable {m : Machine σ ε} {I : σ → Prop} {q : ε → Prop} {rank : σ → Nat}

/-- A run costs no more than the potential it starts with and what its events add. -/
theorem Machine.run_amortized {cost gain : ε → Nat}
    (hstep : ∀ s e s', I s → q e → m.step s e = some s' → I s' ∧ cost e + rank s' ≤ rank s + gain e)
    {s s' : σ} {es : List ε} (hs : I s) (hes : ∀ e ∈ es, q e) (hr : m.run s es = some s') :
    I s' ∧ (es.map cost).sum + rank s' ≤ rank s + (es.map gain).sum := by
  induction es generalizing s with
  | nil =>
    cases hr
    exact ⟨hs, by simp⟩
  | cons e es ih =>
    obtain ⟨t, ht, hr⟩ := Option.bind_eq_some_iff.mp hr
    obtain ⟨he, hes⟩ := List.forall_mem_cons.mp hes
    obtain ⟨hI, hpay⟩ := hstep s e t hs he ht
    obtain ⟨hI', hrest⟩ := ih hI hes hr
    refine ⟨hI', ?_⟩
    rw [List.map_cons, List.map_cons, List.sum_cons, List.sum_cons]
    omega

/-- Steps that lower a rank are no more than the rank. -/
theorem Machine.run_ranked (hstep : ∀ s e s', I s → q e → m.step s e = some s' → I s' ∧ rank s' < rank s) {s s' : σ}
    {es : List ε} (hs : I s) (hes : ∀ e ∈ es, q e) (hr : m.run s es = some s') :
    I s' ∧ es.length + rank s' ≤ rank s := by
  have hpay : ∀ s e s', I s → q e → m.step s e = some s' → I s' ∧ 1 + rank s' ≤ rank s + 0 := by
    intro s e s' hI he hse
    obtain ⟨hI', hlt⟩ := hstep s e s' hI he hse
    exact ⟨hI', by omega⟩
  obtain ⟨hI', hsum⟩ := Machine.run_amortized hpay hs hes hr
  exact ⟨hI', by simpa using hsum⟩

/-- Where every state that is not final has a step that lowers the rank, some run ends in a final state. -/
theorem Machine.run_final {final : σ → Prop}
    (hprogress : ∀ s, I s → ¬ final s → ∃ e s', q e ∧ m.step s e = some s' ∧ I s' ∧ rank s' < rank s)
    {s : σ} (hs : I s) :
    ∃ es s', (∀ e ∈ es, q e) ∧ m.run s es = some s' ∧ I s' ∧ final s' := by
  induction hn : rank s using Nat.strong_induction_on generalizing s with
  | _ n ih =>
    by_cases hf : final s
    · exact ⟨[], s, by simp, rfl, hs, hf⟩
    · obtain ⟨e, t, he, ht, hI, hlt⟩ := hprogress s hs hf
      obtain ⟨es, s', hes, hr, hI', hf'⟩ := ih (rank t) (hn ▸ hlt) hI rfl
      refine ⟨e :: es, s', List.forall_mem_cons.mpr ⟨he, hes⟩, ?_, hI', hf'⟩
      rw [Machine.run, ht]
      exact hr

end

end Transition
