import McpGateway.KeyCache

/-!
# What one step of the verifier can do

`Section` says which sections there are and how each decides; `Steps` lists
the steps with all that their guards give, `Recorded` what they add to the
history. Invariants are proved by cases on these.
-/

namespace McpGateway

open Unicode Transition

variable {Tid Kid Key Raw : Type} [DecidableEq Tid] [DecidableEq Kid]

section
variable (parse : Raw → Except Thrown (Keys Kid Key)) (s : Sys Tid Kid Key Raw) (t : Tid) (since : ℚ)
  (outcome : Fetched Raw)

inductive Finish : Op Kid → Sys Tid Kid Key Raw → Prop
  | ready : Finish .ready (s.answer t .ready (readyResult parse outcome) (.fetch since))
  | failed {kid a} : resolveError parse outcome = some a →
      Finish (.resolve kid) (s.answer t (.resolve kid) a (.fetch since))
  | reread {kid} : resolveError parse outcome = none → Finish (.resolve kid) (s.goto t (.reread kid since))

omit [DecidableEq Kid] in
theorem finish_cases (op : Op Kid) : Finish parse s t since outcome op (s.finish parse t op since outcome) := by
  cases op with
  | ready => exact .ready
  | resolve kid =>
    simp only [Sys.finish]
    split
    · rename_i a ha
      exact .failed ha
    · rename_i ha
      exact .reread ha

omit [DecidableEq Kid] in
theorem resolveError_not_key (key : Key) : resolveError parse outcome ≠ some (.key key) := by
  intro h
  unfold resolveError at h
  split at h
  · cases h
  · unfold retrievalFailed at h
    split at h <;> cases h
  · split at h
    · unfold retrievalFailed at h
      split at h <;> cases h
    · cases h
    · cases h

end

section
variable (cfg : CacheConfig)

/-- A section at `pc` reads the clock last at `now` and ends with the decision. -/
inductive Section (clock : ℚ) (c : Cache Kid Key) : Pc Kid Key Raw → Op Kid → ℚ → Decision Key → Prop
  | enter {kid now now'} : clock ≤ now → now ≤ now' →
      Section clock c (.called (.resolve kid)) (.resolve kid) now' (enterResolve cfg c now now' kid)
  | probe {now} : clock ≤ now → Section clock c (.called .ready) .ready now (enterReady cfg c now)
  | wake {kid now} : clock ≤ now →
      Section clock c (.notified (.resolve kid)) (.resolve kid) now (wakeResolve cfg c now kid)

variable (parse : Raw → Except Thrown (Keys Kid Key))

/-- The steps by event; the three events that hold the lock are one case. -/
inductive Steps (s : Sys Tid Kid Key Raw) : Event Tid Kid Raw → Sys Tid Kid Key Raw → Prop
  | call {t op} : s.threads t = none → Steps s (.call t op) (s.goto t (.called op))
  | held {e t pc op now d} : s.threads t = some pc → Section cfg s.clock s.cache pc op now d → s.clock ≤ now →
      Steps s e (s.settle t op now d)
  | timeout {t op} : s.threads t = some (.parked op) → Steps s (.timeout t) (s.goto t (.timedOut op))
  | expire {t op} : s.threads t = some (.timedOut op) →
      Steps s (.expire t) (s.answer t op (.tokenError (txt "signing key refresh timed out")) .timeout)
  | fetchStart {t op now} : s.threads t = some (.claimed op) → s.clock ≤ now →
      Steps s (.fetchStart t now)
        { s.goto t (.fetching op now) with clock := now, log := s.log ++ [.started t now] }
  | fetchEnd {t op since now outcome} : s.threads t = some (.fetching op since) → s.clock ≤ now →
      Steps s (.fetchEnd t now outcome) { s.goto t (.fetched op since outcome) with clock := now }
  | complete {t op since now outcome s'} : s.threads t = some (.fetched op since outcome) → s.clock ≤ now →
      Finish parse (s.land parse t since now outcome) t since outcome op s' → Steps s (.complete t now) s'
  | found {t kid since key} : s.threads t = some (.reread kid since) → s.cache.keys.lookup kid = some key →
      Steps s (.reread t) (s.answer t (.resolve kid) (.key key) (.fetch since))
  | missing {t kid since} : s.threads t = some (.reread kid since) → s.cache.keys.lookup kid = none →
      Steps s (.reread t) (s.answer t (.resolve kid) (.tokenError noMatch) (.fetch since))

inductive Recorded (s : Sys Tid Kid Key Raw) : List (Entry Tid Kid Key Raw) → Entry Tid Kid Key Raw → Prop
  | held {t pc op now a} : s.threads t = some pc → Section cfg s.clock s.cache pc op now (.answer a) →
      Recorded s s.log (.answered t op a (.held now))
  | expire {t op} : s.threads t = some (.timedOut op) →
      Recorded s s.log (.answered t op (.tokenError (txt "signing key refresh timed out")) .timeout)
  | started {t op now} : s.threads t = some (.claimed op) → s.clock ≤ now → Recorded s s.log (.started t now)
  | completed {t op since now outcome} : s.threads t = some (.fetched op since outcome) → s.clock ≤ now →
      Recorded s s.log (.completed t since now outcome)
  | ready {t since now outcome} : s.threads t = some (.fetched .ready since outcome) → s.clock ≤ now →
      Recorded s (s.log ++ [.completed t since now outcome])
        (.answered t .ready (readyResult parse outcome) (.fetch since))
  | failed {t kid since now outcome a} : s.threads t = some (.fetched (.resolve kid) since outcome) →
      s.clock ≤ now →
      resolveError parse outcome = some a →
      Recorded s (s.log ++ [.completed t since now outcome]) (.answered t (.resolve kid) a (.fetch since))
  | found {t kid since key} : s.threads t = some (.reread kid since) → s.cache.keys.lookup kid = some key →
      Recorded s s.log (.answered t (.resolve kid) (.key key) (.fetch since))
  | missing {t kid since} : s.threads t = some (.reread kid since) → s.cache.keys.lookup kid = none →
      Recorded s s.log (.answered t (.resolve kid) (.tokenError noMatch) (.fetch since))

variable {cfg parse}

theorem steps_of_step {s s' : Sys Tid Kid Key Raw} {e : Event Tid Kid Raw} (h : s.step cfg parse e = some s') :
    Steps cfg parse s e s' := by
  cases e with
  | call t op =>
    rw [Sys.step] at h
    split at h <;> cases h
    rename_i ht
    exact .call ht
  | enter t now now' =>
    rw [Sys.step] at h
    split at h
    · rename_i kid ht
      split at h <;> cases h
      rename_i hc
      exact .held ht (.enter hc.1 hc.2) (le_trans hc.1 hc.2)
    · cases h
  | probe t now =>
    rw [Sys.step] at h
    split at h
    · rename_i ht
      split at h <;> cases h
      rename_i hc
      exact .held ht (.probe hc) hc
    · cases h
  | timeout t =>
    rw [Sys.step] at h
    split at h <;> cases h
    rename_i ht
    exact .timeout ht
  | expire t =>
    rw [Sys.step] at h
    split at h <;> cases h
    rename_i ht
    exact .expire ht
  | wake t now =>
    rw [Sys.step] at h
    split at h
    · rename_i kid ht
      split at h <;> cases h
      rename_i hc
      exact .held ht (.wake hc) hc
    · cases h
  | fetchStart t now =>
    rw [Sys.step] at h
    split at h
    · rename_i op ht
      split at h <;> cases h
      rename_i hc
      exact .fetchStart ht hc
    · cases h
  | fetchEnd t now outcome =>
    rw [Sys.step] at h
    split at h
    · rename_i op since ht
      split at h <;> cases h
      rename_i hc
      exact .fetchEnd ht hc
    · cases h
  | complete t now =>
    rw [Sys.step] at h
    split at h
    · rename_i op since outcome ht
      split at h <;> cases h
      rename_i hc
      exact .complete ht hc (finish_cases ..)
    · cases h
  | reread t =>
    rw [Sys.step] at h
    split at h
    · rename_i kid since ht
      split at h <;> cases h
      · rename_i key hk
        exact .found ht hk
      · rename_i hk
        exact .missing ht hk
    · cases h

theorem before_recorded {P : List (Entry Tid Kid Key Raw) → Entry Tid Kid Key Raw → Prop}
    {s s' : Sys Tid Kid Key Raw} {e : Event Tid Kid Raw} (h : Before P s.log) (hs : Steps cfg parse s e s')
    (hP : ∀ pre x, Recorded cfg parse s pre x → P pre x) : Before P s'.log := by
  cases hs with
  | call _ => exact h
  | @held _ t pc op now d ht hsec _ =>
    cases d with
    | answer a => exact before_snoc h (hP _ _ (.held ht hsec))
    | wait => exact h
    | claim => exact h
  | timeout _ => exact h
  | expire ht => exact before_snoc h (hP _ _ (.expire ht))
  | fetchStart ht hc => exact before_snoc h (hP _ _ (.started ht hc))
  | fetchEnd _ _ => exact h
  | complete ht hc hfin =>
    have hl := before_snoc h (hP _ _ (.completed ht hc))
    cases hfin with
    | ready => exact before_snoc hl (hP _ _ (.ready ht hc))
    | failed hf => exact before_snoc hl (hP _ _ (.failed ht hc hf))
    | reread _ => exact hl
  | found ht hk => exact before_snoc h (hP _ _ (.found ht hk))
  | missing ht hk => exact before_snoc h (hP _ _ (.missing ht hk))

end

/-! ## How sections decide -/

section
variable {cfg : CacheConfig} {clock : ℚ} {c : Cache Kid Key} {pc : Pc Kid Key Raw} {op : Op Kid} {now : ℚ}

/-- A refresh is admitted at `now`: none was ever attempted, the keys are past their TTL, or the cooldown is over.
-/
def Admitted (cfg : CacheConfig) (c : Cache Kid Key) (now : ℚ) : Prop :=
  cold c = true ∨ ttlExpired cfg c now = true ∨ cooldownElapsed cfg c now = true

omit [DecidableEq Kid] in
theorem admission_claim {key : Option Key} (h : admission cfg c now key = .claim) : Admitted cfg c now := by
  unfold admission at h
  split at h
  · rename_i hc
    simpa [Admitted, Bool.or_eq_true, or_assoc] using hc
  · split at h <;> cases h

omit [DecidableEq Kid] in
theorem admission_not_wait {key : Option Key} : admission cfg c now key ≠ .wait := by
  unfold admission
  split
  · intro h; cases h
  · split <;> intro h <;> cases h

omit [DecidableEq Kid] in
theorem admission_answer {key : Option Key} {a : Answer Key} (h : admission cfg c now key = .answer a) :
    ¬ Admitted cfg c now ∧ (∀ k, key = some k → a = .key k) ∧ (key = none → a = .tokenError noMatch) := by
  unfold admission at h
  split at h
  · cases h
  · rename_i hc
    refine ⟨by simpa [Admitted, Bool.or_eq_true, or_assoc] using hc, ?_⟩
    split at h <;> cases h
    · exact ⟨fun k hk => (by cases hk; rfl), fun hk => (by cases hk)⟩
    · exact ⟨fun k hk => (by cases hk), fun _ => rfl⟩

theorem section_claim (h : Section cfg clock c pc op now .claim) : c.refreshing = false ∧ Admitted cfg c now := by
  generalize hd : Decision.claim = d at h
  cases h with
  | enter _ _ =>
    unfold enterResolve at hd
    split at hd
    · split_ifs at hd with h1 h2
      exact ⟨by simpa using h2, admission_claim hd.symm⟩
    · split_ifs at hd with h1
      exact ⟨by simpa using h1, admission_claim hd.symm⟩
  | probe _ =>
    unfold enterReady at hd
    split_ifs at hd with h1 h2 h3
    exact ⟨by simpa using h2, Or.inr (Or.inr (by simpa using h3))⟩
  | wake _ =>
    unfold wakeResolve at hd
    split at hd
    · cases hd
    · split_ifs at hd with h1
      exact ⟨by simpa using h1, admission_claim hd.symm⟩

theorem section_wait (h : Section cfg clock c pc op now .wait) : c.refreshing = true := by
  generalize hd : Decision.wait = d at h
  cases h with
  | enter _ _ =>
    unfold enterResolve at hd
    split at hd
    · split_ifs at hd
      exact absurd hd.symm admission_not_wait
    · split_ifs at hd with h1
      · exact h1
      · exact absurd hd.symm admission_not_wait
  | probe _ =>
    unfold enterReady at hd
    split_ifs at hd
  | wake _ =>
    unfold wakeResolve at hd
    split at hd
    · cases hd
    · split_ifs at hd with h1
      · exact h1
      · exact absurd hd.symm admission_not_wait

/-- A key answered in a section is the cached one of that moment. -/
theorem section_key {key : Key} (h : Section cfg clock c pc op now (.answer (.key key))) :
    ∃ kid, op = .resolve kid ∧ c.keys.lookup kid = some key := by
  generalize hd : Decision.answer (.key key) = d at h
  cases h with
  | @enter kid _ _ _ _ =>
    refine ⟨kid, rfl, ?_⟩
    unfold enterResolve at hd
    split at hd
    · rename_i k hk
      split_ifs at hd
      · cases hd; exact hk
      · cases hd; exact hk
      · have := (admission_answer hd.symm).2.1 k rfl
        cases this; exact hk
    · split_ifs at hd
      have := (admission_answer hd.symm).2.2 rfl
      cases this
  | probe _ =>
    unfold enterReady at hd
    split_ifs at hd <;> cases hd
  | @wake kid _ _ =>
    refine ⟨kid, rfl, ?_⟩
    unfold wakeResolve at hd
    split at hd
    · rename_i k hk
      cases hd; exact hk
    · split_ifs at hd
      have := (admission_answer hd.symm).2.2 rfl
      cases this

/-- A section that raises does so for a kid the cache lacks, with no refresh in flight or admitted. -/
theorem section_tokenError {m : Text} (h : Section cfg clock c pc op now (.answer (.tokenError m))) :
    ∃ kid, op = .resolve kid ∧ m = noMatch ∧ c.keys.lookup kid = none ∧ c.refreshing = false ∧
    ¬ Admitted cfg c now := by
  generalize hd : Decision.answer (.tokenError m) = d at h
  cases h with
  | @enter kid _ _ _ _ =>
    refine ⟨kid, rfl, ?_⟩
    unfold enterResolve at hd
    split at hd
    · rename_i k hk
      split_ifs at hd <;> try cases hd
      have := (admission_answer hd.symm).2.1 k rfl
      cases this
    · rename_i hk
      split_ifs at hd with h1
      obtain ⟨ha, _, hn⟩ := admission_answer hd.symm
      cases hn rfl
      exact ⟨rfl, hk, by simpa using h1, ha⟩
  | probe _ =>
    unfold enterReady at hd
    split_ifs at hd <;> cases hd
  | @wake kid _ _ =>
    refine ⟨kid, rfl, ?_⟩
    unfold wakeResolve at hd
    split at hd
    · cases hd
    · rename_i hk
      split_ifs at hd with h1
      obtain ⟨ha, _, hn⟩ := admission_answer hd.symm
      cases hn rfl
      exact ⟨rfl, hk, by simpa using h1, ha⟩

omit [DecidableEq Kid] in
/-- Nothing is admitted only within the cooldown of an earlier attempt. -/
theorem not_admitted (h : ¬ Admitted cfg c now) :
    ∃ t, c.lastFetch = some t ∧ (now : WithTop ℚ) < t + cfg.minRefreshInterval := by
  unfold Admitted cold cooldownElapsed at h
  cases hl : c.lastFetch with
  | none => simp [hl] at h
  | some t =>
    refine ⟨t, rfl, ?_⟩
    simp only [hl, decide_eq_true_eq, not_or, not_le] at h
    have hlt := h.2.2
    cases hi : cfg.minRefreshInterval with
    | top => simp
    | coe d =>
      rw [hi] at hlt
      norm_cast at hlt ⊢
      linarith

end

end McpGateway
