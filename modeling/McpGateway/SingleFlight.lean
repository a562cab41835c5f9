import McpGateway.Sections

/-!
# Single flight

The flag is up exactly while one thread is between claiming the refresh and
its completing section, and no thread is parked while it is down.
-/

namespace McpGateway

open Unicode Transition

variable {Tid Kid Key Raw : Type}

/-- Between claiming the refresh and the completing section. -/
def Pc.inFlight : Pc Kid Key Raw → Bool
  | .claimed _ => true
  | .fetching _ _ => true
  | .fetched _ _ _ => true
  | _ => false

def Pc.isParked : Pc Kid Key Raw → Bool
  | .parked _ => true
  | _ => false

def InFlight (threads : Tid → Option (Pc Kid Key Raw)) (t : Tid) : Prop := ∃ pc, threads t = some pc ∧
    pc.inFlight = true

structure SingleFlight (refreshing : Bool) (threads : Tid → Option (Pc Kid Key Raw)) : Prop where
  owner : refreshing = true ↔ ∃ t, InFlight threads t
  unique : ∀ t t', InFlight threads t → InFlight threads t' → t = t'
  parked : ∀ t op, threads t = some (.parked op) → refreshing = true

/-! ## Moves of one thread -/

section
variable [DecidableEq Tid] {threads threads' : Tid → Option (Pc Kid Key Raw)} {refreshing : Bool} {t : Tid}
  {pc pc' : Pc Kid Key Raw}

theorem inFlight_update {u : Tid} :
    InFlight (Function.update threads t (some pc)) u ↔ (u = t ∧ pc.inFlight = true) ∨
    (u ≠ t ∧ InFlight threads u) := by
  unfold InFlight
  by_cases hu : u = t
  · subst hu; simp
  · simp [hu]

omit [DecidableEq Tid] in
theorem inFlight_of (ht : threads t = some pc) : InFlight threads t ↔ pc.inFlight = true := by
  simp [InFlight, ht]

omit [DecidableEq Tid] in
theorem inFlight_none (ht : threads t = none) : ¬ InFlight threads t := by
  simp [InFlight, ht]

omit [DecidableEq Tid] in
theorem inFlight_notifyAll {u : Tid} : InFlight (notifyAll threads) u ↔ InFlight threads u := by
  unfold InFlight notifyAll
  split
  · rename_i op hu
    simp [hu, Pc.inFlight]
  · rfl

omit [DecidableEq Tid] in
theorem notifyAll_not_parked {u : Tid} {op : Op Kid} : notifyAll threads u ≠ some (.parked op) := by
  unfold notifyAll
  split
  · intro h; cases h
  · rename_i hu
    exact hu op

omit [DecidableEq Tid] in
theorem notifyAll_parked {op : Op Kid} (ht : threads t = some (.parked op)) :
    notifyAll threads t = some (.notified op) := by
  simp [notifyAll, ht]

omit [DecidableEq Tid] in
theorem SingleFlight.keep (h : SingleFlight refreshing threads) (hf : ∀ u, InFlight threads' u ↔ InFlight threads u)
    (hp : ∀ u op, threads' u = some (.parked op) → refreshing = true) : SingleFlight refreshing threads' := by
  refine ⟨?_, ?_, hp⟩
  · rw [h.owner]
    exact (exists_congr hf).symm
  · intro u u' hu hu'
    exact h.unique u u' ((hf u).mp hu) ((hf u').mp hu')

theorem inFlight_same (ht : InFlight threads t ↔ pc.inFlight = true) (u : Tid) :
    InFlight (Function.update threads t (some pc)) u ↔ InFlight threads u := by
  rw [inFlight_update]
  by_cases hu : u = t
  · subst hu; simp [ht]
  · simp [hu]

theorem SingleFlight.move (h : SingleFlight refreshing threads) (ht : InFlight threads t ↔ pc.inFlight = true)
    (hp : pc.isParked = false) : SingleFlight refreshing (Function.update threads t (some pc)) := by
  refine h.keep (inFlight_same ht) ?_
  intro u op hu
  by_cases hut : u = t
  · subst hut
    rw [Function.update_self] at hu
    cases hu
    cases hp
  · rw [Function.update_of_ne hut] at hu
    exact h.parked u op hu

theorem SingleFlight.park (h : SingleFlight refreshing threads) (ht : InFlight threads t ↔ pc.inFlight = true)
    (hr : refreshing = true) : SingleFlight refreshing (Function.update threads t (some pc)) :=
  h.keep (inFlight_same ht) fun _ _ _ => hr

theorem SingleFlight.claim (h : SingleFlight false threads) (hpc : pc.inFlight = true) :
    SingleFlight true (Function.update threads t (some pc)) := by
  have hnone : ∀ u, ¬ InFlight threads u := by
    intro u hu
    have := h.owner.mpr ⟨u, hu⟩
    cases this
  have hf : ∀ u, InFlight (Function.update threads t (some pc)) u ↔ u = t := by
    intro u
    rw [inFlight_update]
    simp [hpc, hnone u]
  refine ⟨?_, ?_, ?_⟩
  · simp only [hf, exists_eq]
  · intro u u' hu hu'
    rw [(hf u).mp hu, (hf u').mp hu']
  · intro u op _
    rfl

theorem SingleFlight.release (h : SingleFlight refreshing threads) (ht : InFlight threads t)
    (hpc : pc.inFlight = false)
    (hp : pc.isParked = false) : SingleFlight false (Function.update (notifyAll threads) t (some pc)) := by
  have hf : ∀ u, ¬ InFlight (Function.update (notifyAll threads) t (some pc)) u := by
    intro u hu
    rw [inFlight_update, inFlight_notifyAll] at hu
    rcases hu with ⟨_, hu⟩ | ⟨hne, hu⟩
    · rw [hpc] at hu
      cases hu
    · exact hne (h.unique u t hu ht)
  refine ⟨?_, ?_, ?_⟩
  · simp [hf]
  · intro u _ hu
    exact absurd hu (hf u)
  · intro u op hu
    by_cases hut : u = t
    · subst hut
      rw [Function.update_self] at hu
      cases hu
      cases hp
    · rw [Function.update_of_ne hut] at hu
      exact absurd hu notifyAll_not_parked

end

/-! ## The invariant -/

section
variable [DecidableEq Tid] [DecidableEq Kid] {cfg : CacheConfig} {parse : Raw → Except Thrown (Keys Kid Key)}
  {ok : Sys Tid Kid Key Raw → Event Tid Kid Raw → Prop} {start : ℚ}

omit [DecidableEq Tid] in
theorem section_not_inFlight {clock : ℚ} {c : Cache Kid Key} {pc : Pc Kid Key Raw} {op : Op Kid} {now : ℚ}
    {d : Decision Key} (h : Section cfg clock c pc op now d) : pc.inFlight = false := by
  cases h <;> rfl

omit [DecidableEq Kid] in
theorem finish_threads {s s' : Sys Tid Kid Key Raw} {t : Tid} {since : ℚ} {outcome : Fetched Raw} {op : Op Kid}
    (h : Finish parse s t since outcome op s') : s'.cache = s.cache ∧ ∃ pc : Pc Kid Key Raw,
      pc.inFlight = false ∧ pc.isParked = false ∧ s'.threads = Function.update s.threads t (some pc) := by
  cases h with
  | ready => exact ⟨rfl, _, rfl, rfl, rfl⟩
  | failed _ => exact ⟨rfl, _, rfl, rfl, rfl⟩
  | reread _ => exact ⟨rfl, _, rfl, rfl, rfl⟩

theorem singleFlight_step {s s' : Sys Tid Kid Key Raw} {e : Event Tid Kid Raw}
    (h : SingleFlight s.cache.refreshing s.threads) (hs : Steps cfg parse s e s') :
    SingleFlight s'.cache.refreshing s'.threads := by
  cases hs with
  | call ht => exact h.move (by simp [inFlight_none ht, Pc.inFlight]) rfl
  | @held _ t pc op now d ht hsec _ =>
    have hpc := section_not_inFlight hsec
    have hfly : ∀ pc' : Pc Kid Key Raw, pc'.inFlight = false → (InFlight s.threads t ↔ pc'.inFlight = true) := by
      intro pc' hpc'
      rw [inFlight_of ht, hpc, hpc']
    cases d with
    | answer a => exact h.move (hfly _ rfl) rfl
    | wait => exact h.park (hfly _ rfl) (section_wait hsec)
    | claim =>
      rw [(section_claim hsec).1] at h
      exact h.claim rfl
  | timeout ht => exact h.move (by simp [inFlight_of ht, Pc.inFlight]) rfl
  | expire ht => exact h.move (by simp [inFlight_of ht, Pc.inFlight]) rfl
  | fetchStart ht _ => exact h.move (by simp [inFlight_of ht, Pc.inFlight]) rfl
  | fetchEnd ht _ => exact h.move (by simp [inFlight_of ht, Pc.inFlight]) rfl
  | complete ht _ hfin =>
    obtain ⟨hc, pc, hpc, hp, hth⟩ := finish_threads hfin
    rw [hc, hth]
    exact h.release ((inFlight_of ht).mpr rfl) hpc hp
  | found ht _ => exact h.move (by simp [inFlight_of ht, Pc.inFlight]) rfl
  | missing ht _ => exact h.move (by simp [inFlight_of ht, Pc.inFlight]) rfl

theorem singleFlight_reachable {s : Sys Tid Kid Key Raw} (h : Reachable (verifier cfg parse start) ok s) :
    SingleFlight s.cache.refreshing s.threads := by
  refine h.invariant (I := fun s => SingleFlight s.cache.refreshing s.threads) ?_ ?_
  · refine ⟨?_, ?_, ?_⟩
    · simp [verifier, Cache.init, InFlight]
    · intro t t' ht
      exact absurd ht (inFlight_none rfl)
    · intro t op ht
      cases ht
  · intro s e s' _ hI _ hs
    exact singleFlight_step hI (steps_of_step hs)

/-- One flight at a time; a parked thread has one to wait for, and its completion notifies it. -/
theorem single_flight {s : Sys Tid Kid Key Raw} (h : Reachable (verifier cfg parse start) (fun _ _ => True) s) :
    (s.cache.refreshing = true ↔ ∃! t, InFlight s.threads t) ∧
      (∀ t t', InFlight s.threads t → InFlight s.threads t' → t = t') ∧
      ∀ t op, s.threads t = some (.parked op) → s.cache.refreshing = true ∧
        ∀ t' now s', s.step cfg parse (.complete t' now) = some s' → s'.threads t = some (.notified op) := by
  have hI := singleFlight_reachable h
  refine ⟨?_, hI.unique, ?_⟩
  · rw [hI.owner]
    constructor
    · rintro ⟨t, ht⟩
      exact ⟨t, ht, fun u hu => hI.unique u t hu ht⟩
    · rintro ⟨t, ht, _⟩
      exact ⟨t, ht⟩
  · intro t op ht
    refine ⟨hI.parked t op ht, ?_⟩
    intro t' now s' hs
    rw [Sys.step] at hs
    split at hs
    · rename_i op' since outcome ht'
      split at hs <;> cases hs
      obtain ⟨_, pc, _, _, hth⟩ := finish_threads
        (finish_cases parse (s.land parse t' since now outcome) t' since outcome op')
      have hne : t ≠ t' := by
        rintro rfl
        rw [ht] at ht'
        cases ht'
      rw [hth, Function.update_of_ne hne]
      exact notifyAll_parked ht
    · cases hs

/-- The second call waits for the first. -/
theorem single_flight_waiting :
    ∃ s, (numbered ⟨300, (10 : ℚ)⟩).run (numbered ⟨300, (10 : ℚ)⟩).init
        [.call 0 (.resolve 7), .enter 0 0 0, .call 1 (.resolve 7), .enter 1 1 1] = some s ∧
      s.threads 1 = some (.parked (.resolve 7)) ∧
      (s.cache.refreshing = true ↔ ∃! t, InFlight s.threads t) ∧
      (∀ t t', InFlight s.threads t → InFlight s.threads t' → t = t') ∧
      ∀ t op, s.threads t = some (.parked op) → s.cache.refreshing = true ∧
        ∀ t' now s', s.step ⟨300, (10 : ℚ)⟩ .ok (.complete t' now) = some s' →
        s'.threads t = some (.notified op) := by
  have hrun : ((numbered ⟨300, (10 : ℚ)⟩).run (numbered ⟨300, (10 : ℚ)⟩).init
      [.call 0 (.resolve 7), .enter 0 0 0, .call 1 (.resolve 7), .enter 1 1 1]).map (fun s => s.threads 1) =
        some (some (.parked (.resolve 7))) := by decide +kernel
  obtain ⟨s, hs, ht⟩ := Option.map_eq_some_iff.mp hrun
  exact ⟨s, hs, ht, single_flight (.run (fun _ _ => trivial) .init hs)⟩

end

end McpGateway
