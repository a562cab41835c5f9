import McpGateway.Attempts

/-!
# Keys past their TTL

The fast path asks how long ago the last attempt was, not the last success, so
after a failed refresh a key past its TTL passes as fresh for another TTL.
-/

namespace McpGateway

open Unicode Transition

variable {Tid Kid Key Raw : Type} [DecidableEq Tid] [DecidableEq Kid] {cfg : CacheConfig}
  {parse : Raw → Except Thrown (Keys Kid Key)} {start : ℚ}

omit [DecidableEq Kid] in
theorem admission_expired {c : Cache Kid Key} {now : ℚ} {key : Option Key} (h : ttlExpired cfg c now = true) :
    admission cfg c now key = .claim := by
  simp [admission, h]

theorem enterResolve_cached {c : Cache Kid Key} {now now' e : ℚ} {kid : Kid} {key : Key} (httl : 0 < cfg.ttl)
    (hr : c.refreshing = false) (hk : c.keys.lookup kid = some key) (he : c.lastFetch = some e) (hn : now ≤ now') :
    enterResolve cfg c now now' kid = if (cfg.ttl : ℚ) < now - e then .claim else .answer (.key key) := by
  unfold enterResolve
  rw [hk, hr]
  by_cases hlt : (cfg.ttl : ℚ) < now - e
  · have hfresh : fresh cfg c now = false := by
      rw [fresh, he, withinTtl, decide_eq_false (not_le.mpr hlt), Bool.and_false]
    have hexp : ttlExpired cfg c now' = true := by
      have hlt' : (cfg.ttl : ℚ) < now' - e := by linarith
      rw [ttlExpired, cold, he, withinTtl, decide_eq_false (not_le.mpr hlt')]
      simp
    simp [hlt, hfresh, admission_expired hexp]
  · have hfresh : fresh cfg c now = true := by
      rw [fresh, he, withinTtl, decide_eq_true (not_lt.mp hlt), decide_eq_true httl]
      rfl
    rw [if_neg hlt, hfresh]
    rfl

/-- With the last success past the TTL and the cooldown over, a call for a cached kid starts a refresh exactly
when the last attempt, whatever came of it, is past the TTL too. -/
theorem stale_refresh_iff {s : Sys Tid Kid Key Raw} (h : Reachable (verifier cfg parse start) (fun _ _ => True) s)
    (httl : 0 < cfg.ttl) (hr : s.cache.refreshing = false) {t : Tid} {kid : Kid} {key : Key}
    (ht : s.threads t = some (.called (.resolve kid))) (hk : s.cache.keys.lookup kid = some key) {now now' u e : ℚ}
    (hc : s.clock ≤ now) (hn : now ≤ now') (_hu : latest (succeededAt parse) s.log = some u)
    (_hstale : (cfg.ttl : ℚ) < now - u)
    (he : latest completedAt s.log = some e) (_hcool : cfg.minRefreshInterval ≤ ((now - e : ℚ) : WithTop ℚ)) :
    (∃ s', s.step cfg parse (.enter t now now') = some s' ∧ s'.threads t = some (.claimed (.resolve kid))) ↔
      (cfg.ttl : ℚ) < now - e := by
  have hf : s.cache.lastFetch = some e := by rw [(authoritative_reachable h).lastFetch, he]
  have hstep : s.step cfg parse (.enter t now now') =
      some (s.settle t (.resolve kid) now' (if (cfg.ttl : ℚ) < now - e then .claim else .answer (.key key))) := by
    rw [Sys.step, ht]
    simp only [hc, hn, and_self, if_true, enterResolve_cached httl hr hk hf hn]
  rw [hstep]
  by_cases hlt : (cfg.ttl : ℚ) < now - e
  · rw [if_pos hlt]
    simp only [hlt, iff_true]
    exact ⟨_, rfl, Function.update_self ..⟩
  · rw [if_neg hlt]
    simp only [hlt, iff_false]
    rintro ⟨s', hs', hc'⟩
    cases hs'
    exact absurd ((Function.update_self ..).symm.trans hc') (by simp)

/-- A success at 0, a failed refresh at 302, and a further call. -/
def staleRun : List (Event Nat Nat (Keys Nat Nat)) :=
  [.call 0 (.resolve 7), .enter 0 0 0, .fetchStart 0 0, .fetchEnd 0 0 (.body [(7, 70)]), .complete 0 0, .reread 0,
    .call 1 (.resolve 7), .enter 1 301 301, .fetchStart 1 301, .fetchEnd 1 302 (.thrown ⟨txt "URLError", true⟩),
    .complete 1 302, .call 2 (.resolve 7)]

theorem staleRun_ends : ∃ s, (numbered ⟨300, (10 : ℚ)⟩).run (numbered ⟨300, (10 : ℚ)⟩).init staleRun = some s ∧
    s.cache.refreshing = false ∧ s.threads 2 = some (.called (.resolve 7)) ∧ s.cache.keys.lookup 7 = some 70 ∧
    s.clock = 302 ∧ latest (succeededAt .ok) s.log = some 0 ∧ latest completedAt s.log = some 302 ∧
    (s.step ⟨300, (10 : ℚ)⟩ .ok (.enter 2 350 350)).map (fun s' => s'.threads 2) = some (some (.done (.key 70))) :=
  Machine.run_ends _ (by decide +kernel)

/-- At 1000 the failed refresh is past the TTL too. -/
theorem stale_refresh_iff_late :
    ∃ s, (numbered ⟨300, (10 : ℚ)⟩).run (numbered ⟨300, (10 : ℚ)⟩).init staleRun = some s ∧
      ((∃ s', s.step ⟨300, (10 : ℚ)⟩ .ok (.enter 2 1000 1000) = some s' ∧
      s'.threads 2 = some (.claimed (.resolve 7))) ↔
        ((300 : Int) : ℚ) < 1000 - 302) := by
  obtain ⟨s, hs, hr, ht, hk, hc, hu, he, _⟩ := staleRun_ends
  refine ⟨s, hs, ?_⟩
  exact stale_refresh_iff (.run (fun _ _ => trivial) .init hs) (by decide) hr ht hk
    (by rw [hc]; decide +kernel) (le_refl _) hu
    (by decide +kernel) he (by decide +kernel)

/-- At 350 the failed refresh makes the key of time 0 pass as fresh. -/
theorem stale_key_returned :
    ¬ ∀ (cfg : CacheConfig) (s : Sys Nat Nat Nat (Keys Nat Nat)), Reachable (numbered cfg) (fun _ _ => True) s →
    0 < cfg.ttl →
      s.cache.refreshing = false → ∀ t kid key, s.threads t = some (.called (.resolve kid)) →
      s.cache.keys.lookup kid = some key → ∀ now now' u e, s.clock ≤ now → now ≤ now' →
      latest (succeededAt .ok) s.log = some u → (cfg.ttl : ℚ) < now - u → latest completedAt s.log = some e →
      cfg.minRefreshInterval ≤ ((now - e : ℚ) : WithTop ℚ) →
      ∃ s', s.step cfg .ok (.enter t now now') = some s' ∧ s'.threads t = some (.claimed (.resolve kid)) := by
  intro h
  obtain ⟨s, hs, hr, ht, hk, hc, hu, he, hstep⟩ := staleRun_ends
  obtain ⟨s', hs', ht'⟩ := h ⟨300, (10 : ℚ)⟩ s (.run (fun _ _ => trivial) .init hs)
    (by decide) hr 2 7 70 ht hk 350 350 0 302
    (by rw [hc]; decide +kernel) (le_refl _) hu (by decide +kernel) he (by decide +kernel)
  rw [hs', Option.map_some, ht'] at hstep
  cases hstep

end McpGateway
