import McpGateway.Attempts

/-!
# Spacing of attempts

Under a TTL no shorter than the refresh interval every start condition implies
that the interval has passed since the latest completion, so attempts are
spaced and a window holds boundedly many of them.
-/

namespace McpGateway

open Unicode Transition

variable {Tid Kid Key Raw : Type}

def startedAt : Entry Tid Kid Key Raw → Option ℚ
  | .started _ now => some now
  | _ => none

/-- An attempt starts an interval after every completion before it. -/
def StartsSpaced (cfg : CacheConfig) (pre : List (Entry Tid Kid Key Raw)) (x : Entry Tid Kid Key Raw) : Prop :=
  ∀ (t : Tid) (now : ℚ), x = .started t now → ∀ (t' : Tid) (since e : ℚ) (outcome : Fetched Raw),
    .completed t' since e outcome ∈ pre → (e : WithTop ℚ) + cfg.minRefreshInterval ≤ now

def StartsClosed (pre : List (Entry Tid Kid Key Raw)) (x : Entry Tid Kid Key Raw) : Prop :=
  ∀ t now, x = .started t now → ∀ t' since, .started t' since ∈ pre →
    ∃ e outcome, .completed t' since e outcome ∈ pre ∧ since ≤ e

section
variable {cfg : CacheConfig} {c : Cache Kid Key} {now l : ℚ}

/-- Each start condition leaves the interval behind. -/
theorem admitted_spaced (hint : cfg.minRefreshInterval ≤ ((cfg.ttl : ℚ) : WithTop ℚ)) (h : Admitted cfg c now)
    (hl : c.lastFetch = some l) (hc : l ≤ now) : (l : WithTop ℚ) + cfg.minRefreshInterval ≤ now := by
  obtain ⟨d, hd⟩ := WithTop.ne_top_iff_exists.mp (ne_top_of_le_ne_top WithTop.coe_ne_top hint)
  rw [← hd] at hint ⊢
  norm_cast at hint ⊢
  rcases h with h | h | h
  · simp [cold, hl] at h
  · simp only [ttlExpired, withinTtl, hl, Bool.and_eq_true, Bool.or_eq_true, decide_eq_true_eq, Bool.not_eq_true',
      decide_eq_false_iff_not, not_le] at h
    rcases h.2 with h0 | h0
    · rw [h0] at hint
      push_cast at hint
      linarith
    · linarith
  · simp only [cooldownElapsed, hl, ← hd, decide_eq_true_eq] at h
    norm_cast at h
    linarith

end

section
variable [DecidableEq Tid] [DecidableEq Kid] {cfg : CacheConfig} {parse : Raw → Except Thrown (Keys Kid Key)}
  {ok : Sys Tid Kid Key Raw → Event Tid Kid Raw → Prop} {start : ℚ} {s s' : Sys Tid Kid Key Raw}
  {e : Event Tid Kid Raw}

theorem startsClosed_step (hI : SingleFlight s.cache.refreshing s.threads) (ha : Attempts s)
    (h : Before StartsClosed s.log) (hs : Steps cfg parse s e s') : Before StartsClosed s'.log := by
  refine before_recorded h hs ?_
  rintro pre x hx t now rfl t₀ since hm
  cases hx with
  | started ht _ =>
    rcases ha.opened t₀ since hm with ⟨e, outcome, hm⟩ | hopen
    · exact ⟨e, outcome, hm, (ha.completed t₀ since e outcome hm).1⟩
    · obtain rfl := hI.unique t₀ t (since_inFlight hopen) ⟨_, ht, rfl⟩
      rw [at?_of ht] at hopen
      cases hopen

theorem startsClosed_reachable (h : Reachable (verifier cfg parse start) ok s) : Before StartsClosed s.log := by
  refine h.invariant (I := fun s => Before StartsClosed s.log) before_nil ?_
  intro s e s' hr hI _ hs
  exact startsClosed_step (singleFlight_reachable hr) (attempts_reachable hr) hI (steps_of_step hs)

def ClaimSpaced (cfg : CacheConfig) (s : Sys Tid Kid Key Raw) : Prop :=
  ∀ t op, s.threads t = some (.claimed op) → ∀ l, s.cache.lastFetch = some l →
    (l : WithTop ℚ) + cfg.minRefreshInterval ≤ s.clock

omit [DecidableEq Kid] in
theorem ClaimSpaced.move (h : ClaimSpaced cfg s) (hclock : s.clock ≤ s'.clock)
    (hf : s'.cache.lastFetch = s.cache.lastFetch) {t : Tid} {pc : Pc Kid Key Raw}
    (hth : s'.threads = Function.update s.threads t (some pc)) (hpc : ∀ op, pc ≠ .claimed op) :
    ClaimSpaced cfg s' := by
  intro u op hu l hl
  rw [hf] at hl
  rw [hth] at hu
  by_cases hut : u = t
  · subst hut
    rw [Function.update_self] at hu
    exact absurd (Option.some.inj hu) (hpc op)
  · rw [Function.update_of_ne hut] at hu
    exact le_trans (h u op hu l hl) (by exact_mod_cast hclock)

theorem claimSpaced_step (hint : cfg.minRefreshInterval ≤ ((cfg.ttl : ℚ) : WithTop ℚ))
    (hI' : SingleFlight s'.cache.refreshing s'.threads) (ha : Attempts s) (h : ClaimSpaced cfg s)
    (hs : Steps cfg parse s e s') : ClaimSpaced cfg s' := by
  cases hs with
  | call _ => exact h.move (le_refl _) rfl rfl fun _ he => by cases he
  | @held _ t pc op now d _ hsec hc =>
    cases d with
    | answer a => exact h.move hc rfl rfl fun _ he => by cases he
    | wait => exact h.move hc rfl rfl fun _ he => by cases he
    | claim =>
      intro u op' hu l hl
      exact admitted_spaced hint (section_claim hsec).2 hl (le_trans (ha.lastFetch l hl) hc)
  | timeout _ => exact h.move (le_refl _) rfl rfl fun _ he => by cases he
  | expire _ => exact h.move (le_refl _) rfl rfl fun _ he => by cases he
  | fetchStart _ hc => exact h.move hc rfl rfl fun _ he => by cases he
  | fetchEnd _ hc => exact h.move hc rfl rfl fun _ he => by cases he
  | complete _ _ hfin =>
    -- the flag is down, so no thread has a claim
    intro u op hu l hl
    have hr : s'.cache.refreshing = false := by
      rw [(finish_threads hfin).1]
      rfl
    have hfly := hI'.owner.mpr ⟨u, _, hu, rfl⟩
    rw [hr] at hfly
    cases hfly
  | found _ _ => exact h.move (le_refl _) rfl rfl fun _ he => by cases he
  | missing _ _ => exact h.move (le_refl _) rfl rfl fun _ he => by cases he

theorem claimSpaced_reachable (hint : cfg.minRefreshInterval ≤ ((cfg.ttl : ℚ) : WithTop ℚ))
    (h : Reachable (verifier cfg parse start) ok s) : ClaimSpaced cfg s := by
  refine h.invariant ?_ ?_
  · intro t op ht
    cases ht
  · intro s e s' hr hI _ hs
    have hsteps := steps_of_step hs
    exact claimSpaced_step hint (singleFlight_step (singleFlight_reachable hr) hsteps)
      (attempts_reachable hr) hI hsteps

theorem startsSpaced_step (ha : Attempts s) (hclaim : ClaimSpaced cfg s) (h : Before (StartsSpaced cfg) s.log)
    (hs : Steps cfg parse s e s') : Before (StartsSpaced cfg) s'.log := by
  refine before_recorded h hs ?_
  rintro pre x hx t now rfl t₀ since e outcome hm
  cases hx with
  | @started _ op _ ht hc =>
    obtain ⟨_, l, hl, hel⟩ := ha.completed t₀ since e outcome hm
    calc (e : WithTop ℚ) + cfg.minRefreshInterval ≤ l + cfg.minRefreshInterval := by gcongr; exact_mod_cast hel
      _ ≤ s.clock := hclaim t op ht l hl
      _ ≤ now := by exact_mod_cast hc

theorem startsSpaced_reachable (hint : cfg.minRefreshInterval ≤ ((cfg.ttl : ℚ) : WithTop ℚ))
    (h : Reachable (verifier cfg parse start) ok s) : Before (StartsSpaced cfg) s.log := by
  refine h.invariant (I := fun s => Before (StartsSpaced cfg) s.log) before_nil ?_
  intro s e s' hr hI _ hs
  exact startsSpaced_step (attempts_reachable hr) (claimSpaced_reachable hint hr) hI (steps_of_step hs)

/-- Attempts are spaced by the interval, so a window of length `W` holds at most `1 + ⌊W / interval⌋` of them. -/
theorem attempts_bounded (hint : cfg.minRefreshInterval ≤ ((cfg.ttl : ℚ) : WithTop ℚ))
    (hpos : 0 < cfg.minRefreshInterval) (h : Reachable (verifier cfg parse start) (fun _ _ => True) s) :
    Before StartsClosed s.log ∧ Before (StartsSpaced cfg) s.log ∧
      ∃ d : ℚ, cfg.minRefreshInterval = d ∧ ∀ a W,
        ((s.log.filterMap startedAt).filter fun t => a ≤ t ∧ t ≤ a + W).length ≤ 1 + ⌊W / d⌋₊ := by
  have hclosed := startsClosed_reachable h
  have hspaced := startsSpaced_reachable hint h
  obtain ⟨d, hd⟩ := WithTop.ne_top_iff_exists.mp (ne_top_of_le_ne_top WithTop.coe_ne_top hint)
  refine ⟨hclosed, hspaced, d, hd.symm, ?_⟩
  intro a W
  have hd0 : 0 < d := by
    rw [← hd] at hpos
    exact_mod_cast hpos
  refine spaced_window hd0 (pairwise_before ?_)
  intro pre x post hx b hb y hy c hc
  cases x with
  | completed t since now outcome => cases hb
  | answered t op ans ground => cases hb
  | started t now =>
    cases y with
    | completed t' since now' outcome => cases hc
    | answered t' op ans ground => cases hc
    | started t' since =>
      cases hb
      cases hc
      obtain ⟨e, outcome, hm, hle⟩ := hclosed pre _ post hx t b rfl t' c hy
      have := hspaced pre _ post hx t b rfl t' c e outcome hm
      rw [← hd] at this
      norm_cast at this
      linarith

theorem attempts_bounded_rotation :
    ∃ s, (numbered ⟨300, (10 : ℚ)⟩).run (numbered ⟨300, (10 : ℚ)⟩).init
        [.call 0 (.resolve 7), .enter 0 0 0, .fetchStart 0 1, .fetchEnd 0 2 (.body [(7, 70)]),
        .complete 0 3, .reread 0,
          .call 1 (.resolve 8), .enter 1 13 13, .fetchStart 1 14] = some s ∧
      s.log.filterMap startedAt = [1, 14] ∧ Before StartsClosed s.log ∧
      Before (StartsSpaced ⟨300, (10 : ℚ)⟩) s.log ∧
      ∃ d : ℚ, ((10 : ℚ) : WithTop ℚ) = d ∧ ∀ a W,
        ((s.log.filterMap startedAt).filter fun t => a ≤ t ∧ t ≤ a + W).length ≤ 1 + ⌊W / d⌋₊ := by
  have hrun : ((numbered ⟨300, (10 : ℚ)⟩).run (numbered ⟨300, (10 : ℚ)⟩).init
      [.call 0 (.resolve 7), .enter 0 0 0, .fetchStart 0 1, .fetchEnd 0 2 (.body [(7, 70)]),
        .complete 0 3, .reread 0,
        .call 1 (.resolve 8), .enter 1 13 13, .fetchStart 1 14]).map (fun s => s.log.filterMap startedAt) =
      some [1, 14] := by decide +kernel
  obtain ⟨s, hs, hc⟩ := Option.map_eq_some_iff.mp hrun
  exact ⟨s, hs, hc, attempts_bounded (by decide +kernel) (by decide +kernel) (.run (fun _ _ => trivial) .init hs)⟩

end

end McpGateway
