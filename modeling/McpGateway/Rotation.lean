import McpGateway.Cooldown

/-!
# Key rotation

Every fetch returns what the authorization server published while it ran. Once
a fetch from after the rotation has completed the cache has the new key, so a
call for it fails only on a fetch from before, its own or the one whose
cooldown it meets.
-/

namespace McpGateway

open Unicode Transition

variable {Tid Kid Key Raw : Type}

/-- A fetch ends with the document published at some instant since its start. -/
def Honest (parse : Raw → Except Thrown (Keys Kid Key)) (published : ℚ → Keys Kid Key) (s : Sys Tid Kid Key Raw)
    (e : Event Tid Kid Raw) : Prop :=
  ∀ t now outcome, e = .fetchEnd t now outcome → ∀ op since, s.threads t = some (.fetching op since) →
    ∃ τ, since ≤ τ ∧ τ ≤ now ∧ ∃ raw, outcome = .body raw ∧ parse raw = .ok (published τ)

def attempt : Entry Tid Kid Key Raw → Option (ℚ × ℚ)
  | .completed _ since now _ => some (since, now)
  | _ => none

/-- What a rejected call for `kid` goes back to: no fetch from `rotated` on has completed, and the call made an
earlier one itself, or decided within the cooldown of the latest with no later one begun. -/
def RejectedEarly (cfg : CacheConfig) (kid : Kid) (rotated : ℚ) (pre : List (Entry Tid Kid Key Raw))
    (x : Entry Tid Kid Key Raw) : Prop :=
  ∀ (t : Tid) (ground : Ground), x = .answered t (.resolve kid) (.tokenError noMatch) ground →
    (∀ (t' : Tid) (since e : ℚ) (outcome : Fetched Raw), .completed t' since e outcome ∈ pre → since < rotated) ∧
    ((∃ (since e : ℚ) (outcome : Fetched Raw), ground = .fetch since ∧ .completed t since e outcome ∈ pre ∧
        since < rotated) ∨
      ∃ now since e : ℚ, ground = .held now ∧ latest attempt pre = some (since, e) ∧ since < rotated ∧
        (now : WithTop ℚ) < e + cfg.minRefreshInterval ∧ ∀ (t' : Tid) (since' : ℚ), .started t' since' ∈ pre →
          since' < rotated)

/-! ## What an honest run fetches -/

section
variable [DecidableEq Tid] [DecidableEq Kid] {cfg : CacheConfig} {parse : Raw → Except Thrown (Keys Kid Key)}
  {published : ℚ → Keys Kid Key} {start rotated : ℚ} {kid : Kid} {s s' : Sys Tid Kid Key Raw}
  {e : Event Tid Kid Raw}

def FetchedHonest (parse : Raw → Except Thrown (Keys Kid Key)) (published : ℚ → Keys Kid Key)
    (threads : Tid → Option (Pc Kid Key Raw)) : Prop :=
  ∀ t op since outcome, threads t = some (.fetched op since outcome) →
    ∃ τ, since ≤ τ ∧ ∃ raw, outcome = .body raw ∧ parse raw = .ok (published τ)

omit [DecidableEq Kid] in
theorem FetchedHonest.move {threads : Tid → Option (Pc Kid Key Raw)} (h : FetchedHonest parse published threads)
    {t : Tid} {pc : Pc Kid Key Raw} (hpc : ∀ op since outcome, pc ≠ .fetched op since outcome) :
    FetchedHonest parse published (Function.update threads t (some pc)) := by
  intro u op since outcome hu
  by_cases hut : u = t
  · subst hut
    rw [Function.update_self] at hu
    exact absurd (Option.some.inj hu) (hpc op since outcome)
  · rw [Function.update_of_ne hut] at hu
    exact h u op since outcome hu

omit [DecidableEq Tid] [DecidableEq Kid] in
theorem FetchedHonest.notify {threads : Tid → Option (Pc Kid Key Raw)} (h : FetchedHonest parse published threads) :
    FetchedHonest parse published (notifyAll threads) := by
  intro u op since outcome hu
  unfold notifyAll at hu
  split at hu
  · cases hu
  · exact h u op since outcome hu

theorem fetchedHonest_step (ho : Honest parse published s e) (h : FetchedHonest parse published s.threads)
    (hs : Steps cfg parse s e s') : FetchedHonest parse published s'.threads := by
  cases hs with
  | call _ => exact h.move fun _ _ _ he => by cases he
  | @held _ t pc op now d _ _ _ =>
    cases d with
    | answer a => exact h.move fun _ _ _ he => by cases he
    | wait => exact h.move fun _ _ _ he => by cases he
    | claim => exact h.move fun _ _ _ he => by cases he
  | timeout _ => exact h.move fun _ _ _ he => by cases he
  | expire _ => exact h.move fun _ _ _ he => by cases he
  | fetchStart _ _ => exact h.move fun _ _ _ he => by cases he
  | @fetchEnd t op since now outcome ht _ =>
    obtain ⟨τ, hτ, _, raw, hraw, hp⟩ := ho t now outcome rfl op since ht
    intro u op' since' outcome' hu
    by_cases hut : u = t
    · rw [hut] at hu
      cases (Function.update_self ..).symm.trans hu
      exact ⟨τ, hτ, raw, hraw, hp⟩
    · exact h u op' since' outcome' ((Function.update_of_ne hut ..).symm.trans hu)
  | complete _ _ hfin =>
    cases hfin with
    | ready => exact h.notify.move fun _ _ _ he => by cases he
    | failed _ => exact h.notify.move fun _ _ _ he => by cases he
    | reread _ => exact h.notify.move fun _ _ _ he => by cases he
  | found _ _ => exact h.move fun _ _ _ he => by cases he
  | missing _ _ => exact h.move fun _ _ _ he => by cases he

theorem fetchedHonest_reachable (h : Reachable (verifier cfg parse start) (Honest parse published) s) :
    FetchedHonest parse published s.threads := by
  refine h.invariant (I := fun s => FetchedHonest parse published s.threads) ?_ ?_
  · intro t op since outcome ht
    cases ht
  · intro s e s' _ hI ho hs
    exact fetchedHonest_step ho hI (steps_of_step hs)

/-! ## What the cache has once the rotation was fetched -/

def Rotated (kid : Kid) (rotated : ℚ) (s : Sys Tid Kid Key Raw) : Prop :=
  ∀ t since e outcome, .completed t since e outcome ∈ s.log → rotated ≤ since → s.cache.keys.lookup kid ≠ none

omit [DecidableEq Tid] in
theorem Rotated.keep (h : Rotated kid rotated s) (hk : s'.cache.keys = s.cache.keys)
    (hlog : ∀ t since e outcome, .completed t since e outcome ∈ s'.log → .completed t since e outcome ∈ s.log) :
    Rotated kid rotated s' := by
  intro t since e outcome hm hle
  rw [hk]
  exact h t since e outcome (hlog t since e outcome hm) hle

omit [DecidableEq Tid] in
/-- Of two completed fetches the later one started later, so its document has the key when the earlier's had to. -/
theorem Rotated.land (hK : ∀ τ, rotated ≤ τ → (published τ).lookup kid ≠ none) (ha : Attempts s)
    {t : Tid} {op : Op Kid}
    {since : ℚ} {outcome : Fetched Raw} (ht : s.threads t = some (.fetched op since outcome))
    (hf : FetchedHonest parse published s.threads) (now : ℚ) :
    Rotated kid rotated (s.land parse t since now outcome) := by
  obtain ⟨τ, hτ, raw, rfl, hp⟩ := hf t op since outcome ht
  have hkeys : (s.land parse t since now (.body raw)).cache.keys = published τ := by
    simp [Sys.land, Cache.complete, newKeys, hp, Except.toOption]
  intro t' since' e outcome' hm hle
  rw [hkeys]
  refine hK τ (le_trans ?_ hτ)
  rcases List.mem_append.mp hm with hm | hm
  · obtain ⟨hse, l, hl, hel⟩ := ha.completed t' since' e outcome' hm
    calc rotated ≤ since' := hle
      _ ≤ e := hse
      _ ≤ l := hel
      _ ≤ since := (ha.since t since (at?_of ht)).2 l hl
  · cases List.mem_singleton.mp hm
    exact hle

theorem rotated_step (hK : ∀ τ, rotated ≤ τ → (published τ).lookup kid ≠ none) (ha : Attempts s)
    (hf : FetchedHonest parse published s.threads) (h : Rotated kid rotated s) (hs : Steps cfg parse s e s') :
    Rotated kid rotated s' := by
  cases hs with
  | call _ => exact h.keep rfl fun _ _ _ _ hm => hm
  | @held _ t pc op now d _ _ _ =>
    cases d with
    | answer a => exact h.keep rfl fun _ _ _ _ hm => (mem_snoc_answer rfl rfl).mp hm
    | wait => exact h.keep rfl fun _ _ _ _ hm => hm
    | claim => exact h.keep rfl fun _ _ _ _ hm => hm
  | timeout _ => exact h.keep rfl fun _ _ _ _ hm => hm
  | expire _ => exact h.keep rfl fun _ _ _ _ hm => (mem_snoc_answer rfl rfl).mp hm
  | fetchStart _ _ => exact h.keep rfl fun _ _ _ _ hm => by simpa using hm
  | fetchEnd _ _ => exact h.keep rfl fun _ _ _ _ hm => hm
  | @complete t op since now outcome _ ht _ hfin =>
    have hl := Rotated.land hK ha ht hf now
    cases hfin with
    | ready => exact hl.keep rfl fun _ _ _ _ hm => (mem_snoc_answer rfl rfl).mp hm
    | failed _ => exact hl.keep rfl fun _ _ _ _ hm => (mem_snoc_answer rfl rfl).mp hm
    | reread _ => exact hl.keep rfl fun _ _ _ _ hm => hm
  | found _ _ => exact h.keep rfl fun _ _ _ _ hm => (mem_snoc_answer rfl rfl).mp hm
  | missing _ _ => exact h.keep rfl fun _ _ _ _ hm => (mem_snoc_answer rfl rfl).mp hm

theorem rotated_reachable (hK : ∀ τ, rotated ≤ τ → (published τ).lookup kid ≠ none)
    (h : Reachable (verifier cfg parse start) (Honest parse published) s) : Rotated kid rotated s := by
  refine h.invariant ?_ ?_
  · intro t since e outcome hm
    cases hm
  · intro s e s' hr hI _ hs
    exact rotated_step hK (attempts_reachable hr) (fetchedHonest_reachable hr) hI (steps_of_step hs)

omit [DecidableEq Tid] in
theorem Rotated.before (h : Rotated kid rotated s) (hk : s.cache.keys.lookup kid = none) (t : Tid) (since e : ℚ)
    (outcome : Fetched Raw) (hm : .completed t since e outcome ∈ s.log) : since < rotated := by
  by_contra hle
  exact h t since e outcome hm (not_lt.mp hle) hk

/-! ## Rejections -/

omit [DecidableEq Tid] [DecidableEq Kid] in
theorem resolveError_parsed {raw : Raw} {keys : Keys Kid Key} (hp : parse raw = .ok keys) :
    resolveError parse (.body raw) ≠ some (.tokenError noMatch) := by
  simp only [resolveError, hp]
  cases keys with
  | nil =>
    intro he
    cases he
  | cons _ _ =>
    intro he
    cases he

omit [DecidableEq Tid] [DecidableEq Kid] in
theorem completedAt_attempt (x : Entry Tid Kid Key Raw) : completedAt x = (attempt x).map Prod.snd := by
  cases x <;> rfl

omit [DecidableEq Tid] [DecidableEq Kid] in
theorem latest_attempt (h : Authoritative parse s) {l : ℚ} (hl : s.cache.lastFetch = some l) :
    ∃ since, latest attempt s.log = some (since, l) := by
  rw [h.lastFetch, funext completedAt_attempt, latest_map] at hl
  obtain ⟨⟨since, e⟩, hat, he⟩ := Option.map_eq_some_iff.mp hl
  cases he
  exact ⟨since, hat⟩

theorem rejectedEarly_step (hI : SingleFlight s.cache.refreshing s.threads) (hauth : Authoritative parse s)
    (ha : Attempts s) (hf : FetchedHonest parse published s.threads) (hr : Rotated kid rotated s)
    (h : Before (RejectedEarly cfg kid rotated) s.log)
    (hs : Steps cfg parse s e s') : Before (RejectedEarly cfg kid rotated) s'.log := by
  refine before_recorded h hs ?_
  rintro pre x hx t ground rfl
  cases hx with
  | held ht hsec =>
    rename_i now
    obtain ⟨_, hkid, _, hk, hfly, hadm⟩ := section_tokenError hsec
    cases hkid
    have hbefore := hr.before hk
    obtain ⟨l, hl, hnow⟩ := not_admitted hadm
    obtain ⟨since, hlast⟩ := latest_attempt hauth hl
    refine ⟨hbefore, Or.inr ⟨now, since, l, rfl, hlast, ?_, hnow, ?_⟩⟩
    · obtain ⟨x, hx, hxs⟩ := latest_mem hlast
      cases x with
      | completed t' since' e outcome =>
        cases hxs
        exact hbefore t' _ _ outcome hx
      | started _ _ => cases hxs
      | answered _ _ _ _ => cases hxs
    · intro t' since' hm
      rcases ha.opened t' since' hm with ⟨e, outcome, hm⟩ | hopen
      · exact hbefore t' since' e outcome hm
      · -- no fetch is open, since the section found none in flight
        have := hI.owner.mpr ⟨t', since_inFlight hopen⟩
        rw [hfly] at this
        cases this
  | failed ht _ he =>
    obtain ⟨_, _, raw, rfl, hp⟩ := hf _ _ _ _ ht
    exact absurd he (resolveError_parsed hp)
  | missing ht hk =>
    rename_i since
    have hbefore := hr.before hk
    obtain ⟨e, outcome, hm⟩ := ha.reread t since ((at?_of ht).trans rfl)
    exact ⟨hbefore, Or.inl ⟨since, e, outcome, rfl, hm, hbefore t since e outcome hm⟩⟩

def Prompt (parse : Raw → Except Thrown (Keys Kid Key)) (published : ℚ → Keys Kid Key) : Event Tid Kid Raw → Prop
  | .fetchEnd _ now outcome => ∃ raw, outcome = .body raw ∧ parse raw = .ok (published now)
  | _ => True

theorem honest_prompt (hr : Reachable (verifier cfg parse start) (Honest parse published) s)
    (he : Prompt parse published e) (hs : s.step cfg parse e = some s') : Honest parse published s e := by
  rintro t now outcome rfl op since ht
  have hnow : s.clock ≤ now := by
    rw [Sys.step, ht] at hs
    dsimp only at hs
    split at hs
    · assumption
    · cases hs
  have hsince := ((attempts_reachable hr).since t since ((at?_of ht).trans rfl)).1
  exact ⟨now, le_trans hsince hnow, le_refl _, he⟩

/-- A call for a kid published from the rotation on is rejected only before a fetch from then on has completed,
and only after its own earlier fetch or within the cooldown of the latest, an earlier one. -/
theorem rotation_picked_up (hK : ∀ τ, rotated ≤ τ → (published τ).lookup kid ≠ none)
    (h : Reachable (verifier cfg parse start) (Honest parse published) s) :
    Before (RejectedEarly cfg kid rotated) s.log := by
  refine h.invariant (I := fun s => Before (RejectedEarly cfg kid rotated) s.log) before_nil ?_
  intro s e s' hr hI _ hs
  exact rejectedEarly_step (singleFlight_reachable hr) (authoritative_reachable hr) (attempts_reachable hr)
    (fetchedHonest_reachable hr) (rotated_reachable hK hr) hI (steps_of_step hs)

def rotatedKeys (τ : ℚ) : Keys Nat Nat := if τ < 5 then [(7, 70)] else [(7, 70), (8, 80)]

def rotationRun : List (Event Nat Nat (Keys Nat Nat)) :=
  [.call 0 (.resolve 8), .enter 0 0 0, .fetchStart 0 0, .fetchEnd 0 2 (.body [(7, 70)]), .complete 0 3, .reread 0,
    .call 1 (.resolve 8), .enter 1 6 6, .call 2 (.resolve 8), .enter 2 14 14, .fetchStart 2 14,
    .fetchEnd 2 15 (.body [(7, 70), (8, 80)]), .complete 2 16, .reread 2]

def answersOf (log : List (Entry Nat Nat Nat (Keys Nat Nat))) : List (Nat × Answer Nat × Ground) :=
  log.filterMap fun
    | .answered t _ a ground => some (t, a, ground)
    | _ => none

theorem rotation_picked_up_run :
    ∃ s, (numbered ⟨300, (10 : ℚ)⟩).run (numbered ⟨300, (10 : ℚ)⟩).init rotationRun = some s ∧
      answersOf s.log = [(0, .tokenError noMatch, .fetch 0), (1, .tokenError noMatch, .held 6),
      (2, .key 80, .fetch 14)] ∧
      Before (RejectedEarly ⟨300, (10 : ℚ)⟩ 8 5) s.log := by
  obtain ⟨s, hs, ha⟩ : ∃ s, (numbered ⟨300, (10 : ℚ)⟩).run (numbered ⟨300, (10 : ℚ)⟩).init rotationRun = some s ∧
      answersOf s.log = [(0, .tokenError noMatch, .fetch 0), (1, .tokenError noMatch, .held 6),
        (2, .key 80, .fetch 14)] :=
    Machine.run_ends _ (by decide +kernel)
  have hK : ∀ τ : ℚ, 5 ≤ τ → (rotatedKeys τ).lookup 8 ≠ none := by
    intro τ hτ
    rw [rotatedKeys, if_neg (not_lt.mpr hτ)]
    decide
  have hes : ∀ e ∈ rotationRun, Prompt .ok rotatedKeys e := by
    simp [rotationRun, Prompt, rotatedKeys]
    norm_num
  have hr : Reachable (numbered ⟨300, (10 : ℚ)⟩) (Honest .ok rotatedKeys) s := by
    refine .run_of ?_ .init hes hs
    intro s e s' hr he hs
    exact honest_prompt hr he hs
  exact ⟨s, hs, ha, rotation_picked_up hK hr⟩

end

end McpGateway
