import McpGateway.Simulation
import McpGateway.WorkerPool

/-!
# Calls come to an end

A wait for a refresh is followed by another only when a refresh has completed,
and a call completes at most one. So the calls under way take boundedly many
steps, however they are scheduled, and none of them is left over.
-/

namespace McpGateway

open Unicode Transition

variable {Tid Kid Key Raw : Type}

/-! ## What a call can still do -/

def Pc.mayFetch : Pc Kid Key Raw → Bool
  | .called _ => true
  | .parked _ => true
  | .notified _ => true
  | .timedOut _ => false
  | .claimed _ => true
  | .fetching _ _ => true
  | .fetched _ _ _ => true
  | .reread _ _ => false
  | .done _ => false

/-- A bound on the steps of the call while `n` calls may fetch. -/
def Pc.weight (n : Nat) : Pc Kid Key Raw → Nat
  | .called _ => 2 * n + 8
  | .notified _ => 2 * n + 7
  | .parked _ => 2 * n + 6
  | .claimed _ => 4
  | .fetching _ _ => 3
  | .fetched _ _ _ => 2
  | .timedOut _ => 1
  | .reread _ _ => 1
  | .done _ => 0

def weightAt (n : Nat) (threads : Tid → Option (Pc Kid Key Raw)) (t : Tid) : Nat :=
  ((threads t).map (Pc.weight n)).getD 0

def fetchers (calls : Finset Tid) (threads : Tid → Option (Pc Kid Key Raw)) : Finset Tid :=
  calls.filter fun t => (threads t).any Pc.mayFetch = true

def stepsLeft (calls : Finset Tid) (threads : Tid → Option (Pc Kid Key Raw)) : Nat :=
  ∑ t ∈ calls, weightAt (fetchers calls threads).card threads t

theorem weight_mono {n n' : Nat} (h : n' ≤ n) (pc : Pc Kid Key Raw) : pc.weight n' ≤ pc.weight n := by
  cases pc <;> simp only [Pc.weight] <;> omega

theorem weight_le (n : Nat) (pc : Pc Kid Key Raw) : pc.weight n ≤ 2 * n + 8 := by
  cases pc <;> simp only [Pc.weight] <;> omega

section
variable {calls : Finset Tid} {threads : Tid → Option (Pc Kid Key Raw)} {t : Tid} {pc pc' : Pc Kid Key Raw}

theorem weightAt_of (n : Nat) (ht : threads t = some pc) : weightAt n threads t = pc.weight n := by
  rw [weightAt, ht]
  rfl

theorem weightAt_mono {n n' : Nat} (h : n' ≤ n) (u : Tid) : weightAt n' threads u ≤ weightAt n threads u := by
  unfold weightAt
  cases threads u with
  | none => exact Nat.le_refl 0
  | some pc => exact weight_mono h pc

/-- A notified call has one completion less to wait for. -/
theorem weightAt_notifyAll {n n' : Nat} (h : n' < n) (u : Tid) :
    weightAt n' (notifyAll threads) u ≤ weightAt n threads u := by
  cases hu : threads u with
  | none => simp [weightAt, notifyAll, hu]
  | some pc =>
    cases pc with
    | parked op =>
      simp only [weightAt, notifyAll, hu, Option.map_some, Option.getD_some, Pc.weight]
      omega
    | _ =>
      simp only [weightAt, notifyAll, hu, Option.map_some, Option.getD_some]
      exact weight_mono (Nat.le_of_lt h) _

theorem mem_fetchers : t ∈ fetchers calls threads ↔ t ∈ calls ∧ (threads t).any Pc.mayFetch = true :=
  Finset.mem_filter

theorem fetchers_notifyAll : fetchers calls (notifyAll threads) = fetchers calls threads := by
  refine Finset.filter_congr ?_
  intro u _
  unfold notifyAll
  split
  · rename_i op hu
    simp [hu, Pc.mayFetch]
  · rfl

theorem stepsLeft_le : stepsLeft calls threads ≤ calls.card * (2 * calls.card + 8) := by
  have hcard : (fetchers calls threads).card ≤ calls.card := Finset.card_filter_le _ _
  have hle : ∀ t ∈ calls, weightAt (fetchers calls threads).card threads t ≤ 2 * calls.card + 8 := by
    intro t _
    unfold weightAt
    cases threads t with
    | none => exact Nat.zero_le _
    | some pc =>
      refine Nat.le_trans (weight_le _ pc) ?_
      omega
  exact Finset.sum_le_card_nsmul calls _ _ hle

variable [DecidableEq Tid]

/-- A step of one call that lowers its weight. -/
theorem stepsLeft_move (hmem : t ∈ calls) (ht : threads t = some pc)
    (hmay : pc'.mayFetch = true → pc.mayFetch = true)
    (hlt : ∀ n, pc'.weight n < pc.weight n) : stepsLeft calls (Function.update threads t (some pc')) <
    stepsLeft calls threads := by
  have hsub : fetchers calls (Function.update threads t (some pc')) ⊆ fetchers calls threads := by
    intro u hu
    rw [mem_fetchers] at hu ⊢
    refine ⟨hu.1, ?_⟩
    by_cases hut : u = t
    · subst hut
      rw [Function.update_self] at hu
      rw [ht]
      exact hmay hu.2
    · rw [Function.update_of_ne hut] at hu
      exact hu.2
  have hcard := Finset.card_le_card hsub
  refine Finset.sum_lt_sum ?_ ⟨t, hmem, ?_⟩
  · intro u _
    by_cases hut : u = t
    · subst hut
      rw [weightAt_of _ ht, weightAt_of _ (Function.update_self ..)]
      exact Nat.le_of_lt (Nat.lt_of_le_of_lt (weight_mono hcard pc') (hlt _))
    · have hsame : ∀ n, weightAt n (Function.update threads t (some pc')) u = weightAt n threads u := by
        intro n
        rw [weightAt, Function.update_of_ne hut, weightAt]
      rw [hsame]
      exact weightAt_mono hcard u
  · rw [weightAt_of _ ht, weightAt_of _ (Function.update_self ..)]
    exact Nat.lt_of_le_of_lt (weight_mono hcard pc') (hlt _)

/-- The end of a fetch: one call less may fetch, which pays for waking the others. -/
theorem stepsLeft_land (hmem : t ∈ calls) (ht : threads t = some pc) (hpc : pc.mayFetch = true)
    (hmay : pc'.mayFetch = false) (hlt : ∀ n, pc'.weight n < pc.weight n) :
    stepsLeft calls (Function.update (notifyAll threads) t (some pc')) < stepsLeft calls threads := by
  have hfetch : t ∈ fetchers calls threads := by
    rw [mem_fetchers, ht]
    exact ⟨hmem, hpc⟩
  have hsub : fetchers calls (Function.update (notifyAll threads) t (some pc')) ⊆
      (fetchers calls threads).erase t := by
    intro u hu
    rw [mem_fetchers] at hu
    by_cases hut : u = t
    · subst hut
      rw [Function.update_self, Option.any_some, hmay] at hu
      cases hu.2
    · rw [Function.update_of_ne hut] at hu
      rw [Finset.mem_erase, ← fetchers_notifyAll, mem_fetchers]
      exact ⟨hut, hu⟩
  have hcard : (fetchers calls (Function.update (notifyAll threads) t (some pc'))).card <
      (fetchers calls threads).card :=
    Nat.lt_of_le_of_lt (Finset.card_le_card hsub) (Finset.card_erase_lt_of_mem hfetch)
  refine Finset.sum_lt_sum ?_ ⟨t, hmem, ?_⟩
  · intro u _
    by_cases hut : u = t
    · subst hut
      rw [weightAt_of _ ht, weightAt_of _ (Function.update_self ..)]
      exact Nat.le_of_lt (Nat.lt_of_le_of_lt (weight_mono (Nat.le_of_lt hcard) pc') (hlt _))
    · have hsame : ∀ n, weightAt n (Function.update (notifyAll threads) t (some pc')) u =
          weightAt n (notifyAll threads) u := by
        intro n
        rw [weightAt, Function.update_of_ne hut, weightAt]
      rw [hsame]
      exact weightAt_notifyAll hcard u
  · rw [weightAt_of _ ht, weightAt_of _ (Function.update_self ..)]
    exact Nat.lt_of_le_of_lt (weight_mono (Nat.le_of_lt hcard) pc') (hlt _)

end

/-! ## One step -/

section
variable [DecidableEq Tid] [DecidableEq Kid] {cfg : CacheConfig} {parse : Raw → Except Thrown (Keys Kid Key)}
  {ok : Sys Tid Kid Key Raw → Event Tid Kid Raw → Prop} {start : ℚ} {s s' : Sys Tid Kid Key Raw}
  {e : Event Tid Kid Raw} {calls : Finset Tid}

def ResolveWaits (threads : Tid → Option (Pc Kid Key Raw)) : Prop :=
  ∀ t op, threads t = some (.parked op) ∨ threads t = some (.notified op) → ∃ kid, op = .resolve kid

/-- The `calls` are the calls ever made, and only those of `_resolve_key` wait. -/
structure Called (calls : Finset Tid) (threads : Tid → Option (Pc Kid Key Raw)) : Prop where
  mem : ∀ t, t ∈ calls ↔ threads t ≠ none
  waits : ResolveWaits threads

omit [DecidableEq Kid] in
theorem ResolveWaits.move {threads : Tid → Option (Pc Kid Key Raw)} {t : Tid} {pc : Pc Kid Key Raw}
    (h : ResolveWaits threads) (hpc : ∀ op, pc = .parked op ∨ pc = .notified op → ∃ kid, op = .resolve kid) :
    ResolveWaits (Function.update threads t (some pc)) := by
  intro u op hu
  by_cases hut : u = t
  · subst hut
    rw [Function.update_self] at hu
    exact hpc op (hu.imp Option.some.inj Option.some.inj)
  · rw [Function.update_of_ne hut] at hu
    exact h u op hu

omit [DecidableEq Tid] [DecidableEq Kid] in
theorem ResolveWaits.notifyAll {threads : Tid → Option (Pc Kid Key Raw)} (h : ResolveWaits threads) :
    ResolveWaits (notifyAll threads) := by
  intro u op hu
  cases hpc : threads u with
  | none => simp [McpGateway.notifyAll, hpc] at hu
  | some pc =>
    cases pc with
    | parked op' =>
      have hop : op' = op := by simpa [McpGateway.notifyAll, hpc] using hu
      exact h u op (Or.inl (hop ▸ hpc))
    | notified op' =>
      have hop : op' = op := by simpa [McpGateway.notifyAll, hpc] using hu
      exact h u op (Or.inr (hop ▸ hpc))
    | _ => simp [McpGateway.notifyAll, hpc] at hu

omit [DecidableEq Tid] in
theorem section_parks {clock : ℚ} {c : Cache Kid Key} {pc : Pc Kid Key Raw} {op : Op Kid} {now : ℚ}
    (h : Section cfg clock c pc op now .wait) : ∃ kid, op = .resolve kid := by
  generalize hd : Decision.wait = d at h
  cases h with
  | @enter kid _ _ _ _ => exact ⟨kid, rfl⟩
  | probe _ =>
    unfold enterReady at hd
    split_ifs at hd
  | @wake kid _ _ => exact ⟨kid, rfl⟩

theorem resolveWaits_step (h : ResolveWaits s.threads) (hs : Steps cfg parse s e s') : ResolveWaits s'.threads := by
  cases hs with
  | call _ => exact h.move (by simp)
  | @held _ t pc op now d _ hsec _ =>
    cases d with
    | answer a => exact h.move (by simp)
    | wait =>
      obtain ⟨kid, rfl⟩ := section_parks hsec
      exact h.move (by simp)
    | claim => exact h.move (by simp)
  | timeout _ => exact h.move (by simp)
  | expire _ => exact h.move (by simp)
  | fetchStart _ _ => exact h.move (by simp)
  | fetchEnd _ _ => exact h.move (by simp)
  | complete _ _ hfin =>
    cases hfin with
    | ready => exact h.notifyAll.move (by simp)
    | failed _ => exact h.notifyAll.move (by simp)
    | reread _ => exact h.notifyAll.move (by simp)
  | found _ _ => exact h.move (by simp)
  | missing _ _ => exact h.move (by simp)

theorem called_step (h : Called calls s.threads) (hcall : e.isCall = false) (hs : Steps cfg parse s e s') :
    Called calls s'.threads := by
  refine ⟨?_, resolveWaits_step h.waits hs⟩
  intro t
  rw [h.mem, ne_eq, ne_eq, steps_uncalled hcall hs]

omit [DecidableEq Kid] in
theorem mem_goto (h : ∀ u, u ∈ calls ↔ s.threads u ≠ none) {t : Tid} {pc : Pc Kid Key Raw} (u : Tid) :
    u ∈ insert t calls ↔ (s.goto t pc).threads u ≠ none := by
  by_cases hut : u = t
  · subst hut
    simp [Sys.goto]
  · have hsame : (s.goto t pc).threads u = s.threads u := Function.update_of_ne hut ..
    rw [Finset.mem_insert, h, hsame]
    simp [hut]

theorem called_reachable (h : Reachable (verifier cfg parse start) ok s) : ∃ calls, Called calls s.threads := by
  refine h.invariant (I := fun s => ∃ calls, Called calls s.threads) ?_ ?_
  · refine ⟨∅, ?_, ?_⟩
    · intro t
      simp [verifier]
    · rintro t op (ht | ht) <;> cases ht
  · intro s e s' _ hI _ hs
    obtain ⟨calls, hI⟩ := hI
    have hwaits := resolveWaits_step hI.waits (steps_of_step hs)
    by_cases hcall : e.isCall = true
    · obtain ⟨t, op, rfl⟩ : ∃ t op, e = .call t op := by
        cases e with
        | call t op => exact ⟨t, op, rfl⟩
        | _ => cases hcall
      obtain rfl : s' = s.goto t (.called op) := by
        simp only [verifier, Sys.step] at hs
        split at hs <;> cases hs
        rfl
      exact ⟨insert t calls, mem_goto hI.mem, hwaits⟩
    · exact ⟨calls, called_step hI (by simpa using hcall) (steps_of_step hs)⟩

/-- Every step of a call that is under way lowers the bound. -/
theorem stepsLeft_step (h : Called calls s.threads) (hcall : e.isCall = false) (hs : Steps cfg parse s e s') :
    stepsLeft calls s'.threads < stepsLeft calls s.threads := by
  have hmem : ∀ {t pc}, s.threads t = some pc → t ∈ calls := by
    intro t pc ht
    rw [h.mem, ht]
    exact Option.some_ne_none pc
  cases hs with
  | call _ => cases hcall
  | @held _ t pc op now d ht hsec _ =>
    have hpc : pc.mayFetch = true ∧ ∀ n, 2 * n + 7 ≤ pc.weight n := by
      cases hsec with
      | enter _ _ => exact ⟨rfl, fun n => by simp [Pc.weight]⟩
      | probe _ => exact ⟨rfl, fun n => by simp [Pc.weight]⟩
      | wake _ => exact ⟨rfl, fun n => by simp [Pc.weight]⟩
    have hmay : ∀ pc' : Pc Kid Key Raw, pc'.mayFetch = true → pc.mayFetch = true := fun _ _ => hpc.1
    have hlt : ∀ pc' : Pc Kid Key Raw, (∀ n, pc'.weight n ≤ 2 * n + 6) → ∀ n, pc'.weight n < pc.weight n := by
      intro pc' hle n
      have := hle n
      have := hpc.2 n
      omega
    cases d with
    | answer a => exact stepsLeft_move (hmem ht) ht (hmay _) (hlt _ fun n => by simp [Pc.weight])
    | wait => exact stepsLeft_move (hmem ht) ht (hmay _) (hlt _ fun n => by simp [Pc.weight])
    | claim => exact stepsLeft_move (hmem ht) ht (hmay _) (hlt _ fun n => by simp [Pc.weight])
  | timeout ht => exact stepsLeft_move (hmem ht) ht (fun _ => rfl) fun n => by simp [Pc.weight]
  | expire ht => exact stepsLeft_move (hmem ht) ht (fun hm => by cases hm) fun n => by simp [Pc.weight]
  | fetchStart ht _ => exact stepsLeft_move (hmem ht) ht (fun _ => rfl) fun n => by simp [Pc.weight]
  | fetchEnd ht _ => exact stepsLeft_move (hmem ht) ht (fun _ => rfl) fun n => by simp [Pc.weight]
  | complete ht _ hfin =>
    cases hfin with
    | ready => exact stepsLeft_land (hmem ht) ht rfl rfl fun n => by simp [Pc.weight]
    | failed _ => exact stepsLeft_land (hmem ht) ht rfl rfl fun n => by simp [Pc.weight]
    | reread _ => exact stepsLeft_land (hmem ht) ht rfl rfl fun n => by simp [Pc.weight]
  | found ht _ => exact stepsLeft_move (hmem ht) ht (fun hm => by cases hm) fun n => by simp [Pc.weight]
  | missing ht _ => exact stepsLeft_move (hmem ht) ht (fun hm => by cases hm) fun n => by simp [Pc.weight]

def AllDone (threads : Tid → Option (Pc Kid Key Raw)) : Prop := ∀ t pc, threads t = some pc → ∃ a, pc = .done a

/-- A call that is not done has a step to take. -/
theorem undone_step (cfg : CacheConfig) (parse : Raw → Except Thrown (Keys Kid Key))
    (hwaits : ResolveWaits s.threads) {t : Tid}
    {pc : Pc Kid Key Raw} (ht : s.threads t = some pc) (hpc : ∀ a, pc ≠ .done a) :
    ∃ e, e.isCall = false ∧ (s.step cfg parse e).isSome = true := by
  cases pc with
  | called op =>
    cases op with
    | resolve kid => exact ⟨.enter t s.clock s.clock, rfl, by simp [Sys.step, ht]⟩
    | ready => exact ⟨.probe t s.clock, rfl, by simp [Sys.step, ht]⟩
  | parked op => exact ⟨.timeout t, rfl, by simp [Sys.step, ht]⟩
  | notified op =>
    obtain ⟨kid, rfl⟩ := hwaits t op (Or.inr ht)
    exact ⟨.wake t s.clock, rfl, by simp [Sys.step, ht]⟩
  | timedOut op => exact ⟨.expire t, rfl, by simp [Sys.step, ht]⟩
  | claimed op => exact ⟨.fetchStart t s.clock, rfl, by simp [Sys.step, ht]⟩
  | fetching op since => exact ⟨.fetchEnd t s.clock (.tokenError []), rfl, by simp [Sys.step, ht]⟩
  | fetched op since outcome => exact ⟨.complete t s.clock, rfl, by simp [Sys.step, ht]⟩
  | reread kid since =>
    refine ⟨.reread t, rfl, ?_⟩
    cases hk : s.cache.keys.lookup kid with
    | none => simp [Sys.step, ht, hk]
    | some key => simp [Sys.step, ht, hk]
  | done a => exact absurd rfl (hpc a)

omit [DecidableEq Tid] [DecidableEq Kid] in
theorem undone_exists (h : ¬ AllDone s.threads) : ∃ t pc, s.threads t = some pc ∧ ∀ a, pc ≠ .done a := by
  simp only [AllDone, not_forall] at h
  obtain ⟨t, pc, ht, hpc⟩ := h
  exact ⟨t, pc, ht, fun a ha => hpc ⟨a, ha⟩⟩

/-- Without new calls, every schedule is over after boundedly many steps, and where it cannot go on all calls are
answered. -/
theorem calls_drain (h : Reachable (verifier cfg parse start) (fun _ _ => True) s) :
    ∃ calls : Finset Tid, (∀ t, t ∈ calls ↔ s.threads t ≠ none) ∧
      (∀ es s', (∀ e ∈ es, e.isCall = false) → (verifier cfg parse start).run s es = some s' →
        es.length ≤ calls.card * (2 * calls.card + 8) ∧
          ((∀ e, e.isCall = false → s'.step cfg parse e = none) → AllDone s'.threads)) ∧
      ∃ es s', (∀ e ∈ es, e.isCall = false) ∧ (verifier cfg parse start).run s es = some s' ∧
      AllDone s'.threads := by
  obtain ⟨calls, hcalls⟩ := called_reachable h
  have hstep : ∀ s e s', Called calls s.threads → e.isCall = false → (verifier cfg parse start).step s e = some s' →
      Called calls s'.threads ∧ stepsLeft calls s'.threads < stepsLeft calls s.threads := by
    intro s e s' hI hcall hs
    exact ⟨called_step hI hcall (steps_of_step hs), stepsLeft_step hI hcall (steps_of_step hs)⟩
  refine ⟨calls, hcalls.mem, ?_, ?_⟩
  · intro es s' hes hr
    obtain ⟨hI, hlen⟩ := Machine.run_ranked hstep hcalls hes hr
    have hbound : stepsLeft calls s.threads ≤ calls.card * (2 * calls.card + 8) := stepsLeft_le
    refine ⟨by omega, ?_⟩
    intro hstuck
    by_contra hdone
    obtain ⟨t, pc, ht, hpc⟩ := undone_exists hdone
    obtain ⟨e, hcall, hs⟩ := undone_step cfg parse hI.waits ht hpc
    rw [hstuck e hcall] at hs
    cases hs
  · have hprogress : ∀ s, Called calls s.threads → ¬ AllDone s.threads → ∃ e s', e.isCall = false ∧
        (verifier cfg parse start).step s e = some s' ∧ Called calls s'.threads ∧
          stepsLeft calls s'.threads < stepsLeft calls s.threads := by
      intro s hI hdone
      obtain ⟨t, pc, ht, hpc⟩ := undone_exists hdone
      obtain ⟨e, hcall, hs⟩ := undone_step cfg parse hI.waits ht hpc
      obtain ⟨s', hs⟩ := Option.isSome_iff_exists.mp hs
      exact ⟨e, s', hcall, hs, hstep s e s' hI hcall hs⟩
    obtain ⟨es, s', hes, hr, _, hdone⟩ := Machine.run_final hprogress hcalls
    exact ⟨es, s', hes, hr, hdone⟩

/-- A call that waits for another's fetch, and a schedule that answers both. -/
theorem calls_drain_waiting :
    ∃ s, (numbered ⟨300, (10 : ℚ)⟩).run (numbered ⟨300, (10 : ℚ)⟩).init
        [.call 0 (.resolve 7), .enter 0 0 0, .call 1 (.resolve 7), .enter 1 1 1] = some s ∧
      s.threads 1 = some (.parked (.resolve 7)) ∧
      ∃ es s', (∀ e ∈ es, e.isCall = false) ∧ (numbered ⟨300, (10 : ℚ)⟩).run s es = some s' ∧
      AllDone s'.threads := by
  obtain ⟨s, hs, ht⟩ : ∃ s, (numbered ⟨300, (10 : ℚ)⟩).run (numbered ⟨300, (10 : ℚ)⟩).init
      [.call 0 (.resolve 7), .enter 0 0 0, .call 1 (.resolve 7), .enter 1 1 1] = some s ∧
      s.threads 1 = some (.parked (.resolve 7)) := Machine.run_ends _ (by decide +kernel)
  obtain ⟨_, _, _, hdrain⟩ := calls_drain (.run (fun _ _ => trivial) .init hs)
  exact ⟨s, hs, ht, hdrain⟩

end

/-! ## The steps of one call -/

def Event.thread : Event Tid Kid Raw → Tid
  | .call t _ => t
  | .enter t _ _ => t
  | .probe t _ => t
  | .timeout t => t
  | .expire t => t
  | .wake t _ => t
  | .fetchStart t _ => t
  | .fetchEnd t _ _ => t
  | .complete t _ => t
  | .reread t => t

def Event.isComplete : Event Tid Kid Raw → Bool
  | .complete _ _ => true
  | _ => false

def Event.steps [DecidableEq Tid] (t : Tid) (e : Event Tid Kid Raw) : Bool := e.thread = t && !e.isCall

/-- The steps left to a call that is not woken again. -/
def Pc.credit : Pc Kid Key Raw → Nat
  | .called _ => 5
  | .notified _ => 5
  | .parked _ => 4
  | .claimed _ => 4
  | .fetching _ _ => 3
  | .fetched _ _ _ => 2
  | .timedOut _ => 1
  | .reread _ _ => 1
  | .done _ => 0

def creditAt (threads : Tid → Option (Pc Kid Key Raw)) (t : Tid) : Nat := ((threads t).map Pc.credit).getD 5

section
variable [DecidableEq Tid] [DecidableEq Kid] {cfg : CacheConfig} {parse : Raw → Except Thrown (Keys Kid Key)}
  {start : ℚ} {s s' : Sys Tid Kid Key Raw} {e : Event Tid Kid Raw}

omit [DecidableEq Tid] [DecidableEq Kid] in
theorem creditAt_of {threads : Tid → Option (Pc Kid Key Raw)} {t : Tid} {pc : Pc Kid Key Raw}
    (ht : threads t = some pc) :
    creditAt threads t = pc.credit := by
  rw [creditAt, ht]
  rfl

omit [DecidableEq Tid] [DecidableEq Kid] in
/-- Being woken gives a call at most one step more. -/
theorem creditAt_notifyAll (threads : Tid → Option (Pc Kid Key Raw)) (t : Tid) :
    creditAt (notifyAll threads) t ≤ creditAt threads t + 1 := by
  unfold creditAt notifyAll
  split
  · rename_i op ht
    simp [ht, Pc.credit]
  · exact Nat.le_succ _

omit [DecidableEq Kid] in
/-- Whatever a lock-held section decides, it costs a credit. -/
theorem settle_moves {t : Tid} {pc : Pc Kid Key Raw} (ht : s.threads t = some pc) (hpc : pc.credit = 5)
    (op : Op Kid) (now : ℚ) (d : Decision Key) : ∃ pc' : Pc Kid Key Raw, (s.settle t op now d).threads =
    Function.update s.threads t (some pc') ∧
      1 + pc'.credit ≤ creditAt s.threads t := by
  rw [creditAt_of ht, hpc]
  cases d with
  | answer a => exact ⟨_, rfl, by simp [Pc.credit]⟩
  | wait => exact ⟨_, rfl, Nat.le_refl 5⟩
  | claim => exact ⟨_, rfl, Nat.le_refl 5⟩

def found (threads : Tid → Option (Pc Kid Key Raw)) (e : Event Tid Kid Raw) : Tid → Option (Pc Kid Key Raw) :=
  if e.isComplete then notifyAll threads else threads

/-- A step moves one call, and takes from its credit. -/
theorem step_moves (h : s.step cfg parse e = some s') :
    ∃ pc' : Pc Kid Key Raw, s'.threads = Function.update (found s.threads e) e.thread (some pc') ∧
      (if e.isCall then 0 else 1) + pc'.credit ≤ creditAt s.threads e.thread := by
  cases e with
  | call t op =>
    rw [Sys.step] at h
    split at h <;> cases h
    rename_i ht
    exact ⟨_, rfl, by simp [creditAt, ht, Pc.credit, Event.isCall, Event.thread]⟩
  | enter t now now' =>
    rw [Sys.step] at h
    split at h
    · rename_i kid ht
      split at h <;> cases h
      exact settle_moves ht rfl (.resolve kid) now' (enterResolve cfg s.cache now now' kid)
    · cases h
  | probe t now =>
    rw [Sys.step] at h
    split at h
    · rename_i ht
      split at h <;> cases h
      exact settle_moves ht rfl .ready now (enterReady cfg s.cache now)
    · cases h
  | wake t now =>
    rw [Sys.step] at h
    split at h
    · rename_i kid ht
      split at h <;> cases h
      exact settle_moves ht rfl (.resolve kid) now (wakeResolve cfg s.cache now kid)
    · cases h
  | timeout t =>
    rw [Sys.step] at h
    split at h <;> cases h
    rename_i ht
    exact ⟨_, rfl, by simp [Event.isCall, Event.thread, creditAt_of ht, Pc.credit]⟩
  | expire t =>
    rw [Sys.step] at h
    split at h <;> cases h
    rename_i ht
    exact ⟨_, rfl, by simp [Event.isCall, Event.thread, creditAt_of ht, Pc.credit]⟩
  | fetchStart t now =>
    rw [Sys.step] at h
    split at h
    · rename_i op ht
      split at h <;> cases h
      exact ⟨_, rfl, by simp [Event.isCall, Event.thread, creditAt_of ht, Pc.credit]⟩
    · cases h
  | fetchEnd t now outcome =>
    rw [Sys.step] at h
    split at h
    · rename_i op since ht
      split at h <;> cases h
      exact ⟨_, rfl, by simp [Event.isCall, Event.thread, creditAt_of ht, Pc.credit]⟩
    · cases h
  | complete t now =>
    rw [Sys.step] at h
    split at h
    · rename_i op since outcome ht
      split at h <;> cases h
      have hfin := finish_cases parse (s.land parse t since now outcome) t since outcome op
      generalize (s.land parse t since now outcome).finish parse t op since outcome = s' at hfin
      cases hfin with
      | ready => exact ⟨_, rfl, by simp [Event.isCall, Event.thread, creditAt_of ht, Pc.credit]⟩
      | failed _ => exact ⟨_, rfl, by simp [Event.isCall, Event.thread, creditAt_of ht, Pc.credit]⟩
      | reread _ => exact ⟨_, rfl, by simp [Event.isCall, Event.thread, creditAt_of ht, Pc.credit]⟩
    · cases h
  | reread t =>
    rw [Sys.step] at h
    split at h
    · rename_i kid since ht
      split at h <;> cases h
      · exact ⟨_, rfl, by simp [Event.isCall, Event.thread, creditAt_of ht, Pc.credit]⟩
      · exact ⟨_, rfl, by simp [Event.isCall, Event.thread, creditAt_of ht, Pc.credit]⟩
    · cases h

theorem credit_step (t : Tid) (h : s.step cfg parse e = some s') :
    (if e.steps t then 1 else 0) + creditAt s'.threads t ≤ creditAt s.threads t + if e.isComplete
    then 1 else 0 := by
  obtain ⟨pc', hth, hpay⟩ := step_moves h
  by_cases ht : e.thread = t
  · subst ht
    rw [hth, creditAt_of (Function.update_self ..)]
    cases hcall : e.isCall <;> simp [Event.steps, hcall] at hpay ⊢ <;> omega
  · have hfound : creditAt (found s.threads e) t ≤ creditAt s.threads t + if e.isComplete then 1 else 0 := by
      unfold found
      split
      · exact creditAt_notifyAll s.threads t
      · exact Nat.le_refl _
    have hsame : creditAt s'.threads t = creditAt (found s.threads e) t := by
      rw [hth, creditAt, creditAt, Function.update_of_ne (Ne.symm ht)]
    simpa [Event.steps, ht, hsame] using hfound

omit [DecidableEq Tid] [DecidableEq Kid] in
theorem sum_countP (p : Event Tid Kid Raw → Bool) (es : List (Event Tid Kid Raw)) :
    (es.map fun e => if p e then 1 else 0).sum = es.countP p := by
  induction es with
  | nil => rfl
  | cons e es ih => rw [List.map_cons, List.sum_cons, List.countP_cons, ih, Nat.add_comm]

/-- In any run a call takes five steps, and one more for each refresh that completes. -/
theorem call_steps_bounded (cfg : CacheConfig) (parse : Raw → Except Thrown (Keys Kid Key)) (start : ℚ)
    (s s' : Sys Tid Kid Key Raw) (es : List (Event Tid Kid Raw))
    (hr : (verifier cfg parse start).run s es = some s') (t : Tid) :
    es.countP (Event.steps t) ≤ 5 + es.countP Event.isComplete := by
  have hstep : ∀ s e s', True → True → (verifier cfg parse start).step s e = some s' →
      True ∧ (if e.steps t then 1 else 0) + creditAt s'.threads t ≤ creditAt s.threads t + if e.isComplete
        then 1 else 0 :=
    fun _ _ _ _ _ hs => ⟨trivial, credit_step t hs⟩
  obtain ⟨_, hsum⟩ := Machine.run_amortized hstep trivial (fun _ _ => trivial) hr
  have hcredit : creditAt s.threads t ≤ 5 := by
    unfold creditAt
    cases s.threads t with
    | none => exact Nat.le_refl 5
    | some pc => cases pc <;> simp [Pc.credit]
  rw [sum_countP, sum_countP] at hsum
  omega

/-- The second call waits, is woken by a refresh without its key, and gives up. -/
def wokenOnce : List (Event Nat Nat (Keys Nat Nat)) :=
  [.call 0 (.resolve 7), .enter 0 0 0, .call 1 (.resolve 8), .enter 1 1 1, .fetchStart 0 1,
    .fetchEnd 0 2 (.body [(7, 70)]), .complete 0 3, .wake 1 4]

theorem call_steps_bounded_woken :
    ((numbered ⟨300, (10 : ℚ)⟩).run (numbered ⟨300, (10 : ℚ)⟩).init wokenOnce).isSome = true ∧
      wokenOnce.countP (Event.steps 1) ≤ 5 + wokenOnce.countP Event.isComplete := by
  have hrun : ((numbered ⟨300, (10 : ℚ)⟩).run (numbered ⟨300, (10 : ℚ)⟩).init wokenOnce).isSome =
      true := by decide +kernel
  obtain ⟨s', hs⟩ := Option.isSome_iff_exists.mp hrun
  exact ⟨hrun, call_steps_bounded ⟨300, (10 : ℚ)⟩ .ok 0 _ s' wokenOnce hs 1⟩

end

end McpGateway
