import McpGateway.Authoritative

/-!
# Attempts and the cooldown

Times of the history against each other: a fetch completes after it started
and before the clock, and the next one starts after it completed. With a TTL
no shorter than the refresh interval, it starts an interval after.
-/

namespace McpGateway

open Unicode Transition

variable {Tid Kid Key Raw : Type}

/-- When the fetch of a thread that is past its start began. -/
def Pc.since : Pc Kid Key Raw → Option ℚ
  | .fetching _ since => some since
  | .fetched _ since _ => some since
  | _ => none

def Pc.rereadSince : Pc Kid Key Raw → Option ℚ
  | .reread _ since => some since
  | _ => none

def Entry.isAnswer : Entry Tid Kid Key Raw → Bool
  | .answered _ _ _ _ => true
  | _ => false

def at? (f : Pc Kid Key Raw → Option ℚ) (threads : Tid → Option (Pc Kid Key Raw)) (t : Tid) : Option ℚ :=
  (threads t).bind f

theorem since_inFlight {threads : Tid → Option (Pc Kid Key Raw)} {t : Tid} {since : ℚ}
    (h : at? Pc.since threads t = some since) : InFlight threads t := by
  obtain ⟨pc, ht, hpc⟩ := Option.bind_eq_some_iff.mp h
  refine ⟨pc, ht, ?_⟩
  cases pc <;> first | rfl | cases hpc

structure Attempts (s : Sys Tid Kid Key Raw) : Prop where
  lastFetch : ∀ l, s.cache.lastFetch = some l → l ≤ s.clock
  completed : ∀ t since e outcome, .completed t since e outcome ∈ s.log →
    since ≤ e ∧ ∃ l, s.cache.lastFetch = some l ∧ e ≤ l
  since : ∀ t since, at? Pc.since s.threads t = some since →
    since ≤ s.clock ∧ ∀ l, s.cache.lastFetch = some l → l ≤ since
  opened : ∀ t since, .started t since ∈ s.log →
    (∃ e outcome, .completed t since e outcome ∈ s.log) ∨ at? Pc.since s.threads t = some since
  reread : ∀ t since, at? Pc.rereadSince s.threads t = some since →
    ∃ e outcome, .completed t since e outcome ∈ s.log

section
variable [DecidableEq Tid] {f : Pc Kid Key Raw → Option ℚ} {threads : Tid → Option (Pc Kid Key Raw)} {t u : Tid}
  {pc : Pc Kid Key Raw}

theorem at?_update : at? f (Function.update threads t (some pc)) u = if u = t then f pc else at? f threads u := by
  unfold at?
  by_cases hu : u = t
  · subst hu; simp
  · simp [hu]

omit [DecidableEq Tid] in
theorem at?_of (ht : threads t = some pc) : at? f threads t = f pc := by
  simp [at?, ht]

omit [DecidableEq Tid] in
theorem at?_none (ht : threads t = none) : at? f threads t = none := by
  simp [at?, ht]

omit [DecidableEq Tid] in
theorem at?_notifyAll (hf : ∀ op, f (.notified op) = f (.parked op)) :
    at? f (notifyAll threads) u = at? f threads u := by
  unfold at? notifyAll
  split
  · rename_i op hu
    simp [hu, hf]
  · rfl

variable {s s' : Sys Tid Kid Key Raw}

omit [DecidableEq Tid] in
theorem mem_snoc_answer {log : List (Entry Tid Kid Key Raw)} {x y : Entry Tid Kid Key Raw} (hx : x.isAnswer = false)
    (hy : y.isAnswer = true) : x ∈ log ++ [y] ↔ x ∈ log := by
  have hne : x ≠ y := by
    rintro rfl
    rw [hx] at hy
    cases hy
  simp [hne]

/-- A step that starts or completes no fetch. -/
theorem Attempts.move (h : Attempts s) (hclock : s.clock ≤ s'.clock) (hf : s'.cache.lastFetch = s.cache.lastFetch)
    (hlog : s'.log = s.log ∨ ∃ x, s'.log = s.log ++ [x] ∧ x.isAnswer = true)
    (hth : s'.threads = Function.update s.threads t (some pc)) (hs : at? Pc.since s.threads t = pc.since)
    (hr : pc.rereadSince = none) : Attempts s' := by
  have hold : ∀ x, x.isAnswer = false → (x ∈ s'.log ↔ x ∈ s.log) := by
    intro x hx
    rcases hlog with hlog | ⟨y, hlog, hy⟩
    · rw [hlog]
    · rw [hlog]
      exact mem_snoc_answer hx hy
  have hsince : ∀ u, at? Pc.since s'.threads u = at? Pc.since s.threads u := by
    intro u
    rw [hth, at?_update]
    by_cases hu : u = t
    · rw [if_pos hu, hu, hs]
    · rw [if_neg hu]
  refine ⟨?_, ?_, ?_, ?_, ?_⟩
  · intro l hl
    rw [hf] at hl
    exact le_trans (h.lastFetch l hl) hclock
  · intro t' since e outcome hx
    rw [hf]
    exact h.completed t' since e outcome ((hold _ rfl).mp hx)
  · intro u since hu
    rw [hsince] at hu
    rw [hf]
    exact ⟨le_trans (h.since u since hu).1 hclock, (h.since u since hu).2⟩
  · intro u since hx
    rw [hsince]
    rcases h.opened u since ((hold _ rfl).mp hx) with ⟨e, outcome, he⟩ | hu
    · exact Or.inl ⟨e, outcome, (hold _ rfl).mpr he⟩
    · exact Or.inr hu
  · intro u since hu
    rw [hth, at?_update] at hu
    split at hu
    · rw [hr] at hu
      cases hu
    · obtain ⟨e, outcome, he⟩ := h.reread u since hu
      exact ⟨e, outcome, (hold _ rfl).mpr he⟩

theorem Attempts.start (h : Attempts s) {op : Op Kid} {now : ℚ} (hc : s.clock ≤ now)
    (ht : s.threads t = some (.claimed op)) :
    Attempts { s.goto t (.fetching op now) with clock := now, log := s.log ++ [.started t now] } := by
  refine ⟨?_, ?_, ?_, ?_, ?_⟩
  · intro l hl
    exact le_trans (h.lastFetch l hl) hc
  · intro t' since e outcome hx
    exact h.completed t' since e outcome (by simpa using hx)
  · intro u since hu
    simp only [Sys.goto, at?_update] at hu
    split at hu
    · cases hu
      exact ⟨le_refl _, fun l hl => le_trans (h.lastFetch l hl) hc⟩
    · exact ⟨le_trans (h.since u since hu).1 hc, (h.since u since hu).2⟩
  · intro u since hx
    simp only [Sys.goto, at?_update]
    rcases List.mem_append.mp hx with hx | hx
    · rcases h.opened u since hx with ⟨e, outcome, he⟩ | hu
      · exact Or.inl ⟨e, outcome, List.mem_append_left _ he⟩
      · have hut : u ≠ t := by
          rintro rfl
          rw [at?_of ht] at hu
          cases hu
        exact Or.inr (by rwa [if_neg hut])
    · cases List.mem_singleton.mp hx
      exact Or.inr (by rw [if_pos rfl]; rfl)
  · intro u since hu
    simp only [Sys.goto, at?_update] at hu
    split at hu
    · cases hu
    · obtain ⟨e, outcome, he⟩ := h.reread u since hu
      exact ⟨e, outcome, List.mem_append_left _ he⟩

variable {parse : Raw → Except Thrown (Keys Kid Key)} {op : Op Kid} {since now : ℚ} {outcome : Fetched Raw}

theorem Attempts.land (h : Attempts s) (hI : SingleFlight s.cache.refreshing s.threads) (hc : s.clock ≤ now)
    (ht : s.threads t = some (.fetched op since outcome))
    (hth : s'.threads = Function.update (notifyAll s.threads) t (some pc))
    (hcl : s'.clock = now) (hf : s'.cache.lastFetch = some now)
    (hlog : ∀ x, x.isAnswer = false → (x ∈ s'.log ↔ x ∈ s.log ++ [.completed t since now outcome]))
    (hs : pc.since = none) (hr : ∀ s₀, pc.rereadSince = some s₀ → s₀ = since) : Attempts s' := by
  have hnew : .completed t since now outcome ∈ s'.log := (hlog _ rfl).mpr (by simp)
  have hold : ∀ x, x.isAnswer = false → x ∈ s.log → x ∈ s'.log := by
    intro x hx hm
    exact (hlog x hx).mpr (List.mem_append_left _ hm)
  have hsince : ∀ u, at? Pc.since s'.threads u = none := by
    intro u
    rw [hth, at?_update]
    by_cases hu : u = t
    · rw [if_pos hu, hs]
    · rw [if_neg hu, at?_notifyAll fun _ => rfl]
      by_contra hne
      obtain ⟨s₀, hs₀⟩ := Option.ne_none_iff_exists'.mp hne
      exact hu (hI.unique u t (since_inFlight hs₀) ⟨_, ht, rfl⟩)
  refine ⟨?_, ?_, ?_, ?_, ?_⟩
  · intro l hl
    rw [hf] at hl
    cases hl
    rw [hcl]
  · intro t' since' e outcome' hx
    rcases List.mem_append.mp ((hlog _ rfl).mp hx) with hx | hx
    · obtain ⟨hle, l, hl, hel⟩ := h.completed t' since' e outcome' hx
      exact ⟨hle, now, hf, le_trans hel (le_trans (h.lastFetch l hl) hc)⟩
    · cases List.mem_singleton.mp hx
      exact ⟨le_trans (h.since t since (at?_of ht)).1 hc, now, hf, le_refl _⟩
  · intro u since' hu
    rw [hsince] at hu
    cases hu
  · intro u since' hx
    left
    rcases List.mem_append.mp ((hlog _ rfl).mp hx) with hx | hx
    · rcases h.opened u since' hx with ⟨e, outcome', he⟩ | hu
      · exact ⟨e, outcome', hold _ rfl he⟩
      · obtain rfl := hI.unique u t (since_inFlight hu) ⟨_, ht, rfl⟩
        rw [at?_of ht] at hu
        cases hu
        exact ⟨now, outcome, hnew⟩
    · cases List.mem_singleton.mp hx
  · intro u since' hu
    rw [hth, at?_update] at hu
    split at hu
    · rename_i hut
      rw [hut, hr _ hu]
      exact ⟨now, outcome, hnew⟩
    · rw [at?_notifyAll fun _ => rfl] at hu
      obtain ⟨e, outcome', he⟩ := h.reread u since' hu
      exact ⟨e, outcome', hold _ rfl he⟩

end

/-! ## Over a run -/

section
variable [DecidableEq Tid] [DecidableEq Kid] {cfg : CacheConfig} {parse : Raw → Except Thrown (Keys Kid Key)}
  {ok : Sys Tid Kid Key Raw → Event Tid Kid Raw → Prop} {start : ℚ}

theorem attempts_step {s s' : Sys Tid Kid Key Raw} {e : Event Tid Kid Raw}
    (hI : SingleFlight s.cache.refreshing s.threads) (h : Attempts s) (hs : Steps cfg parse s e s') :
    Attempts s' := by
  cases hs with
  | call ht => exact h.move (le_refl _) rfl (Or.inl rfl) rfl (at?_none ht) rfl
  | @held _ t pc op now d ht hsec hc =>
    have hpc : at? Pc.since s.threads t = none := by
      rw [at?_of ht]
      cases hsec <;> rfl
    cases d with
    | answer a => exact h.move hc rfl (Or.inr ⟨_, rfl, rfl⟩) rfl hpc rfl
    | wait => exact h.move hc rfl (Or.inl rfl) rfl hpc rfl
    | claim => exact h.move hc rfl (Or.inl rfl) rfl hpc rfl
  | timeout ht => exact h.move (le_refl _) rfl (Or.inl rfl) rfl ((at?_of ht).trans rfl) rfl
  | expire ht => exact h.move (le_refl _) rfl (Or.inr ⟨_, rfl, rfl⟩) rfl ((at?_of ht).trans rfl) rfl
  | fetchStart ht hc => exact h.start hc ht
  | fetchEnd ht hc => exact h.move hc rfl (Or.inl rfl) rfl ((at?_of ht).trans rfl) rfl
  | complete ht hc hfin =>
    cases hfin with
    | ready => exact h.land hI hc ht rfl rfl rfl (fun x hx => mem_snoc_answer hx rfl) rfl fun _ hr => by cases hr
    | failed _ => exact h.land hI hc ht rfl rfl rfl (fun x hx => mem_snoc_answer hx rfl) rfl fun _ hr => by cases hr
    | reread _ => exact h.land hI hc ht rfl rfl rfl (fun x hx => Iff.rfl) rfl fun _ hr => by cases hr; rfl
  | found ht _ => exact h.move (le_refl _) rfl (Or.inr ⟨_, rfl, rfl⟩) rfl ((at?_of ht).trans rfl) rfl
  | missing ht _ => exact h.move (le_refl _) rfl (Or.inr ⟨_, rfl, rfl⟩) rfl ((at?_of ht).trans rfl) rfl

theorem attempts_reachable {s : Sys Tid Kid Key Raw} (h : Reachable (verifier cfg parse start) ok s) :
    Attempts s := by
  refine h.invariant ?_ ?_
  · refine ⟨?_, ?_, ?_, ?_, ?_⟩
    · intro l hl
      cases hl
    · intro t since e outcome hx
      cases hx
    · intro t since ht
      cases ht
    · intro t since hx
      cases hx
    · intro t since ht
      cases ht
  · intro s e s' hr hI _ hs
    exact attempts_step (singleFlight_reachable hr) hI (steps_of_step hs)

end

end McpGateway
