import McpGateway.SingleFlight

/-!
# Verification in a worker pool

Every use of the verifier takes one of finitely many worker slots for its
whole run, in order of arrival. While a fetch is in flight, the calls that
wait for it keep their slots, and a call that needs only the cache is served
exactly when they leave one.
-/

namespace McpGateway

open Unicode Transition

variable {Tid Kid Key Raw : Type}

structure Pool (Tid Kid Key Raw : Type) where
  sys : Sys Tid Kid Key Raw
  line : List (Tid × Op Kid)
  holders : Finset Tid

inductive PoolEvent (Tid Kid Raw : Type)
  | arrive (t : Tid) (op : Op Kid)
  | start
  | act (e : Event Tid Kid Raw)
  | leave (t : Tid)

def Event.isCall : Event Tid Kid Raw → Bool
  | .call _ _ => true
  | _ => false

section
variable [DecidableEq Tid] [DecidableEq Kid] (slots : Nat) (cfg : CacheConfig)
  (parse : Raw → Except Thrown (Keys Kid Key))

def Pool.step (p : Pool Tid Kid Key Raw) : PoolEvent Tid Kid Raw → Option (Pool Tid Kid Key Raw)
  | .arrive t op =>
    if (p.sys.threads t).isNone ∧ t ∉ p.line.map Prod.fst then some { p with line := p.line ++ [(t, op)] } else none
  | .start =>
    match p.line with
    | [] => none
    | (t, op) :: line =>
      if p.holders.card < slots then
        (p.sys.step cfg parse (.call t op)).map fun sys => ⟨sys, line, insert t p.holders⟩
      else none
  | .act e => if e.isCall then none else (p.sys.step cfg parse e).map fun sys => { p with sys := sys }
  | .leave t =>
    match p.sys.threads t with
    | some (.done _) => if t ∈ p.holders then some { p with holders := p.holders.erase t } else none
    | _ => none

/-- `run_in_threadpool` over the verifier. -/
def pool (start : ℚ) : Machine (Pool Tid Kid Key Raw) (PoolEvent Tid Kid Raw) where
  init := ⟨(verifier cfg parse start).init, [], ∅⟩
  step := Pool.step slots cfg parse

end

/-! ## Waiting -/

def Event.quiet : Event Tid Kid Raw → Bool
  | .timeout _ => false
  | .fetchEnd _ _ _ => false
  | .complete _ _ => false
  | _ => true

def PoolEvent.quiet : PoolEvent Tid Kid Raw → Bool
  | .act e => e.quiet
  | _ => true

/-- A call that will wait for the fetch in flight. -/
def Op.stuck [DecidableEq Kid] (keys : Keys Kid Key) : Op Kid → Bool
  | .resolve kid => (keys.lookup kid).isNone
  | .ready => false

def Pc.stuck [DecidableEq Kid] (keys : Keys Kid Key) : Pc Kid Key Raw → Bool
  | .called op => op.stuck keys
  | .parked _ => true
  | .notified (.resolve kid) => (keys.lookup kid).isNone
  | .notified .ready => true
  | .timedOut _ => false
  | .claimed _ => true
  | .fetching _ _ => true
  | .fetched _ _ _ => true
  | .reread _ _ => false
  | .done _ => false

section
variable [DecidableEq Kid]

def Sys.stuckAt (s : Sys Tid Kid Key Raw) (t : Tid) : Bool := (s.threads t).any (Pc.stuck s.cache.keys)

def Pool.stuck (p : Pool Tid Kid Key Raw) : Finset Tid := p.holders.filter fun t => p.sys.stuckAt t

def stuckIn (keys : Keys Kid Key) (line : List (Tid × Op Kid)) : Nat :=
  line.countP fun x => x.2.stuck keys

/-- The stuck calls that hold a slot or are in line ahead of `t`. -/
def Pool.blocking [DecidableEq Tid] (p : Pool Tid Kid Key Raw) (t : Tid) : Nat :=
  p.stuck.card + stuckIn p.sys.cache.keys (p.line.takeWhile fun x => x.1 ≠ t)

section
variable [DecidableEq Tid] (slots : Nat) (cfg : CacheConfig) (parse : Raw → Except Thrown (Keys Kid Key))

def QuietRun (p : Pool Tid Kid Key Raw) : Pool Tid Kid Key Raw → Prop :=
  Reachable ⟨p, Pool.step slots cfg parse⟩ fun _ e => e.quiet = true

def CanServe (p : Pool Tid Kid Key Raw) (t : Tid) (key : Key) : Prop :=
  ∃ p', QuietRun slots cfg parse p p' ∧ p'.sys.threads t = some (.done (.key key))

variable {slots cfg parse}

theorem QuietRun.snoc {p p₁ p₂ : Pool Tid Kid Key Raw} {e : PoolEvent Tid Kid Raw}
    (h : QuietRun slots cfg parse p p₁)
    (hs : p₁.step slots cfg parse e = some p₂) (hq : e.quiet = true) : QuietRun slots cfg parse p p₂ :=
  .step h hq hs

end

end

/-! ## Steps of the verifier during a fetch -/

section
variable [DecidableEq Tid] [DecidableEq Kid] {cfg : CacheConfig} {parse : Raw → Except Thrown (Keys Kid Key)}
  {s s' : Sys Tid Kid Key Raw} {e : Event Tid Kid Raw} {t : Tid} {pc pc' : Pc Kid Key Raw}

structure Stalled (s s' : Sys Tid Kid Key Raw) : Prop where
  refreshing : s'.cache.refreshing = true
  keys : s'.cache.keys = s.cache.keys
  stuckAt : ∀ u, s'.stuckAt u = s.stuckAt u

theorem Stalled.move (hr : s'.cache.refreshing = true) (hk : s'.cache.keys = s.cache.keys)
    (ht : s.threads t = some pc) (hth : s'.threads = Function.update s.threads t (some pc'))
    (hst : pc'.stuck s.cache.keys = pc.stuck s.cache.keys) :
    Stalled s s' := by
  refine ⟨hr, hk, ?_⟩
  intro u
  unfold Sys.stuckAt
  rw [hk, hth]
  by_cases hu : u = t
  · subst hu
    simp [ht, hst]
  · rw [Function.update_of_ne hu]

omit [DecidableEq Tid] in
theorem enterResolve_refreshing {c : Cache Kid Key} {now now' : ℚ} {kid : Kid} (hr : c.refreshing = true) :
    enterResolve cfg c now now' kid =
      match c.keys.lookup kid with
      | some key => .answer (.key key)
      | none => .wait := by
  unfold enterResolve
  cases c.keys.lookup kid with
  | none => exact if_pos hr
  | some key => simp [hr]

omit [DecidableEq Tid] in
theorem wakeResolve_refreshing {c : Cache Kid Key} {now : ℚ} {kid : Kid} (hr : c.refreshing = true) :
    wakeResolve cfg c now kid =
      match c.keys.lookup kid with
      | some key => .answer (.key key)
      | none => .wait := by
  unfold wakeResolve
  cases c.keys.lookup kid with
  | none => exact if_pos hr
  | some key => rfl

omit [DecidableEq Tid] [DecidableEq Kid] in
theorem enterReady_refreshing (cfg : CacheConfig) {c : Cache Kid Key} (now : ℚ) (hr : c.refreshing = true) :
    ∃ a, enterReady cfg c now = .answer a := by
  unfold enterReady
  split <;> exact ⟨_, rfl⟩

omit [DecidableEq Tid] in
/-- A section during a fetch waits when its call is stuck, and answers otherwise. -/
theorem section_refreshing {clock : ℚ} {c : Cache Kid Key} {op : Op Kid} {now : ℚ} {d : Decision Key}
    (hr : c.refreshing = true) (h : Section cfg clock c pc op now d) :
    (∃ a, d = .answer a ∧ pc.stuck c.keys = false) ∨ (d = .wait ∧ pc.stuck c.keys = true) := by
  cases h with
  | @enter kid _ _ _ _ =>
    rw [enterResolve_refreshing hr]
    cases hk : c.keys.lookup kid with
    | none => exact Or.inr ⟨rfl, by simp [Pc.stuck, Op.stuck, hk]⟩
    | some key => exact Or.inl ⟨_, rfl, by simp [Pc.stuck, Op.stuck, hk]⟩
  | probe _ =>
    obtain ⟨a, ha⟩ := enterReady_refreshing cfg _ hr
    exact Or.inl ⟨a, ha, rfl⟩
  | @wake kid _ _ =>
    rw [wakeResolve_refreshing hr]
    cases hk : c.keys.lookup kid with
    | none => exact Or.inr ⟨rfl, by simp [Pc.stuck, hk]⟩
    | some key => exact Or.inl ⟨_, rfl, by simp [Pc.stuck, hk]⟩

theorem stalled_step (hr : s.cache.refreshing = true) (hq : e.quiet = true) (hcall : e.isCall = false)
    (hs : Steps cfg parse s e s') : Stalled s s' := by
  cases hs with
  | call _ => cases hcall
  | @held _ t pc op now d ht hsec _ =>
    rcases section_refreshing hr hsec with ⟨a, rfl, hst⟩ | ⟨rfl, hst⟩
    · exact .move hr rfl ht rfl (by rw [hst]; rfl)
    · exact .move hr rfl ht rfl (by rw [hst]; rfl)
  | timeout _ => cases hq
  | expire ht => exact .move hr rfl ht rfl rfl
  | fetchStart ht _ => exact .move hr rfl ht rfl rfl
  | fetchEnd _ _ => cases hq
  | complete _ _ _ => cases hq
  | found ht _ => exact .move hr rfl ht rfl rfl
  | missing ht _ => exact .move hr rfl ht rfl rfl

theorem enter_refreshing {kid : Kid} {key : Key} (hr : s.cache.refreshing = true)
    (ht : s.threads t = some (.called (.resolve kid))) (hk : s.cache.keys.lookup kid = some key) :
    s.step cfg parse (.enter t s.clock s.clock) =
    some (s.settle t (.resolve kid) s.clock (.answer (.key key))) := by
  simp [Sys.step, ht, enterResolve_refreshing hr, hk]

/-- A call that is not stuck is done, or is after one quiet step. -/
theorem unstuck_step (cfg : CacheConfig) (parse : Raw → Except Thrown (Keys Kid Key))
    (hr : s.cache.refreshing = true) (ht : s.threads t = some pc) (hst : pc.stuck s.cache.keys = false) :
    (∃ a, pc = .done a) ∨ ∃ e s' a, e.quiet = true ∧ e.isCall = false ∧ s.step cfg parse e = some s' ∧
      s'.threads t = some (.done a) := by
  cases pc with
  | called op =>
    right
    cases op with
    | ready =>
      obtain ⟨a, ha⟩ := enterReady_refreshing cfg s.clock hr
      refine ⟨.probe t s.clock, s.settle t .ready s.clock (.answer a), a, rfl, rfl, ?_, Function.update_self ..⟩
      simp [Sys.step, ht, ha]
    | resolve kid =>
      obtain ⟨key, hk⟩ := Option.isSome_iff_exists.mp (Option.isNone_eq_false_iff.mp hst)
      exact ⟨.enter t s.clock s.clock, _, .key key, rfl, rfl, enter_refreshing hr ht hk, Function.update_self ..⟩
  | parked _ => cases hst
  | notified op =>
    cases op with
    | ready => cases hst
    | resolve kid =>
      right
      obtain ⟨key, hk⟩ := Option.isSome_iff_exists.mp (Option.isNone_eq_false_iff.mp hst)
      refine ⟨.wake t s.clock, s.settle t (.resolve kid) s.clock (.answer (.key key)), .key key, rfl, rfl, ?_,
        Function.update_self ..⟩
      simp [Sys.step, ht, wakeResolve_refreshing hr, hk]
  | timedOut op =>
    right
    exact ⟨.expire t, _, _, rfl, rfl, by rw [Sys.step, ht], Function.update_self ..⟩
  | claimed _ => cases hst
  | fetching _ _ => cases hst
  | fetched _ _ _ => cases hst
  | reread kid since =>
    right
    cases hk : s.cache.keys.lookup kid with
    | none =>
      refine ⟨.reread t, s.answer t (.resolve kid) (.tokenError noMatch) (.fetch since), _, rfl, rfl, ?_,
        Function.update_self ..⟩
      simp [Sys.step, ht, hk]
    | some key =>
      refine ⟨.reread t, s.answer t (.resolve kid) (.key key) (.fetch since), _, rfl, rfl, ?_,
        Function.update_self ..⟩
      simp [Sys.step, ht, hk]
  | done a => exact Or.inl ⟨a, rfl⟩

end

/-! ## The pool -/

structure Seated (slots : Nat) (p : Pool Tid Kid Key Raw) : Prop where
  room : p.holders.card ≤ slots
  uncalled : ∀ t op, (t, op) ∈ p.line → p.sys.threads t = none
  once : (p.line.map Prod.fst).Nodup
  called : ∀ t ∈ p.holders, p.sys.threads t ≠ none

section
variable [DecidableEq Tid] [DecidableEq Kid] (slots : Nat) (cfg : CacheConfig)
  (parse : Raw → Except Thrown (Keys Kid Key))

inductive PoolSteps (p : Pool Tid Kid Key Raw) : PoolEvent Tid Kid Raw → Pool Tid Kid Key Raw → Prop
  | arrive {t op} : p.sys.threads t = none → t ∉ p.line.map Prod.fst →
      PoolSteps p (.arrive t op) { p with line := p.line ++ [(t, op)] }
  | start {t op line} : p.line = (t, op) :: line → p.holders.card < slots → p.sys.threads t = none →
      PoolSteps p .start ⟨p.sys.goto t (.called op), line, insert t p.holders⟩
  | act {e s'} : e.isCall = false → p.sys.step cfg parse e = some s' → PoolSteps p (.act e) { p with sys := s' }
  | leave {t a} : p.sys.threads t = some (.done a) → t ∈ p.holders →
      PoolSteps p (.leave t) { p with holders := p.holders.erase t }

end

section
variable [DecidableEq Tid] [DecidableEq Kid] {slots : Nat} {cfg : CacheConfig}
  {parse : Raw → Except Thrown (Keys Kid Key)}
  {start : ℚ} {ok : Pool Tid Kid Key Raw → PoolEvent Tid Kid Raw → Prop} {p p' : Pool Tid Kid Key Raw}
  {e : PoolEvent Tid Kid Raw} {t : Tid} {op : Op Kid}

theorem poolSteps_of_step (h : p.step slots cfg parse e = some p') : PoolSteps slots cfg parse p e p' := by
  cases e with
  | arrive t op =>
    rw [Pool.step] at h
    split at h <;> cases h
    rename_i hc
    exact .arrive (by simpa using hc.1) hc.2
  | start =>
    rw [Pool.step] at h
    split at h
    · cases h
    · rename_i t op line hl
      split at h
      · rename_i hc
        obtain ⟨s', hs, hp⟩ := Option.map_eq_some_iff.mp h
        cases hp
        rw [Sys.step] at hs
        split at hs <;> cases hs
        rename_i ht
        exact .start hl hc ht
      · cases h
  | act e =>
    rw [Pool.step] at h
    split at h
    · cases h
    · rename_i hc
      obtain ⟨s', hs, hp⟩ := Option.map_eq_some_iff.mp h
      cases hp
      exact .act (by simpa using hc) hs
  | leave t =>
    rw [Pool.step] at h
    split at h
    · rename_i a ht
      split at h <;> cases h
      rename_i hm
      exact .leave ht hm
    · cases h

theorem pool_verifier (h : Reachable (pool slots cfg parse start) ok p) :
    Reachable (verifier cfg parse start) (fun _ _ => True) p.sys := by
  refine h.invariant (I := fun p => Reachable (verifier cfg parse start) (fun _ _ => True) p.sys) .init ?_
  intro p e p' _ hI _ hp
  cases poolSteps_of_step hp with
  | arrive _ _ => exact hI
  | @start t op line _ _ ht => exact .step hI trivial (e := .call t op) (by simp [verifier, Sys.step, ht])
  | act _ hs => exact .step hI trivial hs
  | leave _ _ => exact hI

omit [DecidableEq Kid] in
theorem uncalled_update {threads : Tid → Option (Pc Kid Key Raw)} {pc pc' : Pc Kid Key Raw}
    (ht : threads t = some pc) (u : Tid) :
    Function.update threads t (some pc') u = none ↔ threads u = none := by
  by_cases hu : u = t
  · subst hu
    simp [ht]
  · rw [Function.update_of_ne hu]

omit [DecidableEq Tid] [DecidableEq Kid] in
theorem uncalled_notifyAll {threads : Tid → Option (Pc Kid Key Raw)} (u : Tid) : notifyAll threads u = none ↔
    threads u = none := by
  unfold notifyAll
  split
  · rename_i op hu
    simp [hu]
  · rfl

theorem steps_uncalled {s s' : Sys Tid Kid Key Raw} {e : Event Tid Kid Raw} (hcall : e.isCall = false)
    (hs : Steps cfg parse s e s') (u : Tid) : s'.threads u = none ↔ s.threads u = none := by
  cases hs with
  | call _ => cases hcall
  | @held _ t pc op now d ht _ _ =>
    cases d with
    | answer a => exact uncalled_update ht u
    | wait => exact uncalled_update ht u
    | claim => exact uncalled_update ht u
  | timeout ht => exact uncalled_update ht u
  | expire ht => exact uncalled_update ht u
  | fetchStart ht _ => exact uncalled_update ht u
  | fetchEnd ht _ => exact uncalled_update ht u
  | complete ht _ hfin =>
    obtain ⟨_, pc, _, _, hth⟩ := finish_threads hfin
    rw [hth]
    have hn := (uncalled_notifyAll _).not.mpr (ht ▸ Option.some_ne_none _)
    obtain ⟨pc', hpc'⟩ := Option.ne_none_iff_exists'.mp hn
    exact (uncalled_update hpc' u).trans (uncalled_notifyAll u)
  | found ht _ => exact uncalled_update ht u
  | missing ht _ => exact uncalled_update ht u

theorem seated_step (h : Seated slots p) (hs : PoolSteps slots cfg parse p e p') : Seated slots p' := by
  cases hs with
  | @arrive t op ht hl =>
    refine ⟨h.room, ?_, ?_, h.called⟩
    · intro u op' hu
      rcases List.mem_append.mp hu with hu | hu
      · exact h.uncalled u op' hu
      · cases List.mem_singleton.mp hu
        exact ht
    · rw [List.map_append, List.nodup_append]
      refine ⟨h.once, by simp, ?_⟩
      rintro u hu v hv rfl
      rw [List.map_singleton, List.mem_singleton] at hv
      rw [hv] at hu
      exact hl hu
  | @start t op line hl hroom ht =>
    have hfst := h.once
    rw [hl, List.map_cons, List.nodup_cons] at hfst
    refine ⟨?_, ?_, hfst.2, ?_⟩
    · exact le_trans (Finset.card_insert_le t p.holders) hroom
    · intro u op' hu
      have hut : u ≠ t := by
        rintro rfl
        exact hfst.1 (List.mem_map.mpr ⟨_, hu, rfl⟩)
      exact (Function.update_of_ne hut ..).trans (h.uncalled u op' (by rw [hl]; exact List.mem_cons_of_mem _ hu))
    · intro u hu
      by_cases hut : u = t
      · simp [hut, Sys.goto]
      · have hold := h.called u (Finset.mem_of_mem_insert_of_ne hu hut)
        exact fun hn => hold ((Function.update_of_ne hut ..).symm.trans hn)
  | act hcall hs =>
    have hu := steps_uncalled hcall (steps_of_step hs)
    refine ⟨h.room, ?_, h.once, ?_⟩
    · intro u op' hm
      exact (hu u).mpr (h.uncalled u op' hm)
    · intro u hm hn
      exact h.called u hm ((hu u).mp hn)
  | @leave t a _ _ =>
    refine ⟨le_trans (Finset.card_erase_le) h.room, h.uncalled, h.once, ?_⟩
    intro u hu
    exact h.called u (Finset.mem_of_mem_erase hu)

theorem seated_from (hI : Seated slots p) (h : Reachable ⟨p, Pool.step slots cfg parse⟩ ok p') :
    Seated slots p' := by
  refine h.invariant hI ?_
  intro p e p' _ hI _ hs
  exact seated_step hI (poolSteps_of_step hs)

theorem seated_reachable (h : Reachable (pool slots cfg parse start) ok p) : Seated slots p := by
  refine seated_from ?_ h
  refine ⟨Nat.zero_le _, ?_, List.nodup_nil, ?_⟩
  · intro t op ht
    cases ht
  · intro t ht
    cases ht

/-! ## A call kept waiting -/

omit [DecidableEq Tid] in
theorem stuckIn_cons (keys : Keys Kid Key) (t : Tid) (op : Op Kid) (line : List (Tid × Op Kid)) :
    stuckIn keys ((t, op) :: line) = stuckIn keys line + if op.stuck keys then 1 else 0 :=
  List.countP_cons

theorem stuckAt_goto (s : Sys Tid Kid Key Raw) (t : Tid) (pc : Pc Kid Key Raw) (u : Tid) :
    (s.goto t pc).stuckAt u = if u = t then pc.stuck s.cache.keys else s.stuckAt u := by
  unfold Sys.stuckAt
  by_cases hu : u = t
  · subst hu
    simp [Sys.goto]
  · simp [Sys.goto, hu]

theorem stuck_start (ht : t ∉ p.holders) {line : List (Tid × Op Kid)} :
    (⟨p.sys.goto t (.called op), line, insert t p.holders⟩ : Pool Tid Kid Key Raw).stuck.card =
      p.stuck.card + if op.stuck p.sys.cache.keys then 1 else 0 := by
  have hold : p.holders.filter (fun u => (p.sys.goto t (.called op)).stuckAt u) = p.stuck := by
    refine Finset.filter_congr ?_
    intro u hu
    have hut : u ≠ t := by
      rintro rfl
      exact ht hu
    rw [stuckAt_goto, if_neg hut]
  have hnew := stuckAt_goto p.sys t (.called op) t
  rw [if_pos rfl] at hnew
  rw [Pool.stuck, Finset.filter_insert, hold, hnew, Pc.stuck]
  split
  · rw [Finset.card_insert_of_notMem]
    exact fun hm => ht (Finset.mem_filter.mp hm).1
  · rfl

omit [DecidableEq Tid] in
theorem stuck_act {s' : Sys Tid Kid Key Raw} (h : Stalled p.sys s') :
    ({ p with sys := s' } : Pool Tid Kid Key Raw).stuck = p.stuck := by
  simp only [Pool.stuck, h.stuckAt]

theorem stuck_leave {a : Answer Key} (ht : p.sys.threads t = some (.done a)) :
    ({ p with holders := p.holders.erase t } : Pool Tid Kid Key Raw).stuck = p.stuck := by
  rw [Pool.stuck, Finset.filter_erase, Finset.erase_eq_of_notMem]
  · rfl
  · intro hm
    have := (Finset.mem_filter.mp hm).2
    simp [Sys.stuckAt, ht, Pc.stuck] at this

/-- The calls that keep `t` waiting only change places: those in line take the slots. -/
theorem blocking_step (hI : Seated slots p) (hr : p.sys.cache.refreshing = true) {ahead line : List (Tid × Op Kid)}
    (hl : p.line = ahead ++ (t, op) :: line) (hfull : slots ≤ p.stuck.card + stuckIn p.sys.cache.keys ahead)
    (hq : e.quiet = true) (hs : PoolSteps slots cfg parse p e p') :
    p'.sys.cache.refreshing = true ∧ ∃ ahead' line', p'.line = ahead' ++ (t, op) :: line' ∧
      slots ≤ p'.stuck.card + stuckIn p'.sys.cache.keys ahead' := by
  cases hs with
  | @arrive u op' _ _ => exact ⟨hr, ahead, line ++ [(u, op')], by simp [hl], hfull⟩
  | @start u op' rest hl' hroom hu =>
    refine ⟨hr, ?_⟩
    cases ahead with
    | nil =>
      -- the slots are all held by stuck calls
      have hle : p.stuck.card ≤ p.holders.card := Finset.card_filter_le _ _
      simp only [stuckIn, List.countP_nil] at hfull
      omega
    | cons x ahead =>
      rw [hl', List.cons_append] at hl
      cases hl
      refine ⟨ahead, line, rfl, ?_⟩
      have hnot : u ∉ p.holders := fun hm => hI.called u hm hu
      rw [stuckIn_cons] at hfull
      rw [stuck_start hnot]
      simp only [Sys.goto]
      omega
  | act hcall hs =>
    have hst := stalled_step hr hq hcall (steps_of_step hs)
    refine ⟨hst.refreshing, ahead, line, hl, ?_⟩
    rw [stuck_act hst, hst.keys]
    exact hfull
  | leave hu _ =>
    refine ⟨hr, ahead, line, hl, ?_⟩
    rw [stuck_leave hu]
    exact hfull

/-- With the slots taken or to be taken by stuck calls, `t` stays in line. -/
theorem waits_of_blocking (hI : Seated slots p) (hr : p.sys.cache.refreshing = true)
    {ahead line : List (Tid × Op Kid)}
    (hl : p.line = ahead ++ (t, op) :: line) (hfull : slots ≤ p.stuck.card + stuckIn p.sys.cache.keys ahead)
    (h : QuietRun slots cfg parse p p') : p'.sys.threads t = none := by
  have hinv : p'.sys.cache.refreshing = true ∧ ∃ ahead' line', p'.line = ahead' ++ (t, op) :: line' ∧
      slots ≤ p'.stuck.card + stuckIn p'.sys.cache.keys ahead' := by
    refine h.invariant (I := fun p' => p'.sys.cache.refreshing = true ∧ ∃ ahead' line', p'.line = ahead' ++
      (t, op) :: line' ∧
      slots ≤ p'.stuck.card + stuckIn p'.sys.cache.keys ahead') ⟨hr, ahead, line, hl, hfull⟩ ?_
    rintro p₁ e p₂ hp₁ ⟨hr₁, ahead', line', hl', hfull'⟩ hq hs
    exact blocking_step (seated_from hI hp₁) hr₁ hl' hfull' hq (poolSteps_of_step hs)
  obtain ⟨_, ahead', line', hl', _⟩ := hinv
  exact (seated_from hI h).uncalled t op (by rw [hl']; simp)

/-! ## A call served -/

theorem start_step {line : List (Tid × Op Kid)} (hl : p.line = (t, op) :: line) (hroom : p.holders.card < slots)
    (ht : p.sys.threads t = none) :
    p.step slots cfg parse .start = some ⟨p.sys.goto t (.called op), line, insert t p.holders⟩ := by
  simp [Pool.step, hl, hroom, Sys.step, ht]

omit [DecidableEq Tid] in
theorem Stalled.refl {s : Sys Tid Kid Key Raw} (hr : s.cache.refreshing = true) : Stalled s s :=
  ⟨hr, rfl, fun _ => rfl⟩

theorem unstuck_done (slots : Nat) (cfg : CacheConfig) (parse : Raw → Except Thrown (Keys Kid Key))
    (hr : p.sys.cache.refreshing = true) {pc : Pc Kid Key Raw} (ht : p.sys.threads t = some pc)
    (hst : pc.stuck p.sys.cache.keys = false) : ∃ s' a,
      QuietRun slots cfg parse p { p with sys := s' } ∧
      Stalled p.sys s' ∧ s'.threads t = some (.done a) := by
  rcases unstuck_step cfg parse hr ht hst with ⟨a, rfl⟩ | ⟨e, s', a, hq, hcall, hs, ht'⟩
  · exact ⟨p.sys, a, .init, .refl hr, ht⟩
  · have hstep : p.step slots cfg parse (.act e) = some { p with sys := s' } := by
      simp [Pool.step, hcall, hs]
    exact ⟨s', a, QuietRun.snoc .init hstep hq, stalled_step hr hq hcall (steps_of_step hs), ht'⟩

/-- While not all slots are held by stuck calls, one is free or can be freed. -/
theorem free_slot (cfg : CacheConfig) (parse : Raw → Except Thrown (Keys Kid Key)) (hI : Seated slots p)
    (hr : p.sys.cache.refreshing = true) (hlt : p.stuck.card < slots) : ∃ p',
    QuietRun slots cfg parse p p' ∧ p'.holders.card < slots ∧ p'.line = p.line ∧
      Stalled p.sys p'.sys ∧ p'.stuck = p.stuck := by
  by_cases hroom : p.holders.card < slots
  · exact ⟨p, .init, hroom, rfl, .refl hr, rfl⟩
  · have hfull : p.holders.card = slots := le_antisymm hI.room (not_lt.mp hroom)
    obtain ⟨u, hu, hns⟩ : ∃ u ∈ p.holders, p.sys.stuckAt u = false := by
      by_contra hall
      have : p.stuck = p.holders := by
        refine Finset.filter_true_of_mem ?_
        intro u hu
        by_contra hn
        exact hall ⟨u, hu, by simpa using hn⟩
      rw [this, hfull] at hlt
      exact lt_irrefl _ hlt
    obtain ⟨pc, hpc⟩ := Option.ne_none_iff_exists'.mp (hI.called u hu)
    have hst : pc.stuck p.sys.cache.keys = false := by simpa [Sys.stuckAt, hpc] using hns
    obtain ⟨s', a, hreach, hstalled, hdone⟩ := unstuck_done slots cfg parse hr hpc hst
    have hleave : ({ p with sys := s' } : Pool Tid Kid Key Raw).step slots cfg parse (.leave u) =
        some ⟨s', p.line, p.holders.erase u⟩ := by
      simp [Pool.step, hdone, hu]
    refine ⟨⟨s', p.line, p.holders.erase u⟩, hreach.snoc hleave rfl, ?_, rfl, hstalled, ?_⟩
    · exact lt_of_lt_of_eq (Finset.card_erase_lt_of_mem hu) hfull
    · exact (stuck_leave (p := { p with sys := s' }) hdone).trans (stuck_act hstalled)

theorem start_reach (cfg : CacheConfig) (parse : Raw → Except Thrown (Keys Kid Key)) (hI : Seated slots p)
    (hr : p.sys.cache.refreshing = true) {line : List (Tid × Op Kid)}
    (hl : p.line = (t, op) :: line) (hlt : p.stuck.card < slots) : ∃ p',
    QuietRun slots cfg parse p p' ∧ p'.sys.threads t = some (.called op) ∧
      p'.line = line ∧ p'.sys.cache.refreshing = true ∧ p'.sys.cache.keys = p.sys.cache.keys ∧
      p'.stuck.card = p.stuck.card + if op.stuck p.sys.cache.keys then 1 else 0 := by
  obtain ⟨p₁, hreach, hroom, hl₁, hst, hstuck⟩ := free_slot cfg parse hI hr hlt
  rw [hl] at hl₁
  have hI₁ := seated_from hI hreach
  have hun := hI₁.uncalled t op (by rw [hl₁]; exact List.mem_cons_self)
  refine ⟨⟨p₁.sys.goto t (.called op), line, insert t p₁.holders⟩, hreach.snoc (start_step hl₁ hroom hun) rfl,
    Function.update_self .., rfl, hst.refreshing, hst.keys, ?_⟩
  rw [stuck_start fun hm => hI₁.called t hm hun, hstuck, hst.keys]

theorem canServe_of_blocking {kid : Kid} {key : Key} {ahead line : List (Tid × Op Kid)} (hI : Seated slots p)
    (hr : p.sys.cache.refreshing = true) (hl : p.line = ahead ++ (t, .resolve kid) :: line)
    (hk : p.sys.cache.keys.lookup kid = some key) (hfree : p.stuck.card + stuckIn p.sys.cache.keys ahead < slots) :
    CanServe slots cfg parse p t key := by
  have hlt : p.stuck.card < slots := lt_of_le_of_lt (Nat.le_add_right _ _) hfree
  induction ahead generalizing p with
  | nil =>
    obtain ⟨p₁, hreach, ht, _, hr₁, hk₁, _⟩ := start_reach cfg parse hI hr hl hlt
    rw [← hk₁] at hk
    have hstep : p₁.step slots cfg parse (.act (.enter t p₁.sys.clock p₁.sys.clock)) =
        some { p₁ with sys := p₁.sys.settle t (.resolve kid) p₁.sys.clock (.answer (.key key)) } := by
      simp [Pool.step, Event.isCall, enter_refreshing hr₁ ht hk]
    exact ⟨_, hreach.snoc hstep rfl, Function.update_self ..⟩
  | cons x ahead ih =>
    obtain ⟨p₁, hreach, _, hl₁, hr₁, hk₁, hst₁⟩ := start_reach cfg parse hI hr hl hlt
    rw [stuckIn_cons] at hfree
    obtain ⟨p₂, hreach₂, hdone⟩ := ih (seated_from hI hreach) hr₁ hl₁ (by rw [hk₁, hk])
      (by rw [hst₁, hk₁]; omega) (by omega)
    exact ⟨p₂, hreach.trans hreach₂, hdone⟩

/-! ## Served exactly when a slot is left -/

omit [DecidableEq Kid] in
theorem line_split {line : List (Tid × Op Kid)} (hn : (line.map Prod.fst).Nodup) (hm : (t, op) ∈ line) :
    ∃ rest, line = (line.takeWhile fun x => x.1 ≠ t) ++ (t, op) :: rest := by
  obtain ⟨ahead, rest, rfl⟩ := List.append_of_mem hm
  refine ⟨rest, ?_⟩
  have hne : ∀ x ∈ ahead, x.1 ≠ t := by
    intro x hx hxt
    rw [List.map_append, List.nodup_append] at hn
    exact hn.2.2 x.1 (List.mem_map_of_mem hx) t (by simp) hxt
  rw [List.takeWhile_append_of_pos (by simpa using hne)]
  simp

/-- While a fetch is in flight, a call in line whose kid is cached can get its key without an end of the fetch or of
another call's wait exactly when the stuck calls, those that hold slots and those ahead of it, are fewer than the
slots. -/
theorem slow_fetch_delays_iff (h : Reachable (pool slots cfg parse start) (fun _ _ => True) p)
    (hfly : ∃ u, InFlight p.sys.threads u) {kid : Kid} {key : Key} (hw : (t, .resolve kid) ∈ p.line)
    (hk : p.sys.cache.keys.lookup kid = some key) : CanServe slots cfg parse p t key ↔ p.blocking t < slots := by
  have hI := seated_reachable h
  have hr := (singleFlight_reachable (pool_verifier h)).owner.mpr hfly
  obtain ⟨rest, hl⟩ := line_split hI.once hw
  constructor
  · rintro ⟨p', hrun, hdone⟩
    by_contra hfull
    have hwait := waits_of_blocking hI hr hl (not_lt.mp hfull) hrun
    rw [hwait] at hdone
    cases hdone
  · intro hfree
    exact canServe_of_blocking hI hr hl hk hfree

/-- The cache has kid 7. Then `n` calls for kid 8 take slots, and a call for kid 7 is in line. -/
def crowd (n : Nat) : List (PoolEvent Nat Nat (Keys Nat Nat)) :=
  [.arrive 0 (.resolve 7), .start, .act (.enter 0 0 0), .act (.fetchStart 0 0),
    .act (.fetchEnd 0 0 (.body [(7, 70)])), .act (.complete 0 0), .act (.reread 0), .leave 0] ++
  ((List.range n).flatMap fun i => [.arrive (i + 1) (.resolve 8), .start, .act (.enter (i + 1) 20 20)]) ++
  [.act (.fetchStart 1 20), .arrive (n + 1) (.resolve 7)]

/-- 39 such calls leave one of 40 slots. -/
theorem slow_fetch_delays_iff_39 :
    ∃ p, (pool 40 ⟨300, (10 : ℚ)⟩ .ok 0).run (pool 40 ⟨300, (10 : ℚ)⟩ .ok 0).init (crowd 39) = some p ∧
      p.blocking 40 = 39 ∧ (CanServe 40 ⟨300, (10 : ℚ)⟩ .ok p 40 70 ↔ p.blocking 40 < 40) := by
  obtain ⟨p, hp, ht, hw, hk, hb⟩ : ∃ p, (pool 40 ⟨300, (10 : ℚ)⟩ .ok 0).run (pool 40 ⟨300, (10 : ℚ)⟩ .ok 0).init
    (crowd 39) =
      some p ∧ p.sys.threads 1 = some (.fetching (.resolve 8) 20) ∧ (40, .resolve 7) ∈ p.line ∧
      p.sys.cache.keys.lookup 7 = some 70 ∧ p.blocking 40 = 39 := Machine.run_ends _ (by decide +kernel)
  exact ⟨p, hp, hb, slow_fetch_delays_iff (.run (fun _ _ => trivial) .init hp) ⟨1, _, ht, rfl⟩ hw hk⟩

/-- 40 such calls leave none. -/
theorem slow_fetch_delays_cached :
    ¬ ∀ (slots : Nat) (cfg : CacheConfig) (p : Pool Nat Nat Nat (Keys Nat Nat)), 1 ≤ slots →
      Reachable (pool slots cfg .ok 0) (fun _ _ => True) p → (∃ u, InFlight p.sys.threads u) →
      ∀ t kid key, (t, .resolve kid) ∈ p.line → p.sys.cache.keys.lookup kid = some key →
      CanServe slots cfg .ok p t key := by
  intro h
  obtain ⟨p, hp, ht, hw, hk, hb⟩ : ∃ p, (pool 40 ⟨300, (10 : ℚ)⟩ .ok 0).run (pool 40 ⟨300, (10 : ℚ)⟩ .ok 0).init
    (crowd 40) =
      some p ∧ p.sys.threads 1 = some (.fetching (.resolve 8) 20) ∧ (41, .resolve 7) ∈ p.line ∧
      p.sys.cache.keys.lookup 7 = some 70 ∧ p.blocking 41 = 40 := Machine.run_ends _ (by decide +kernel)
  have hreach : Reachable (pool 40 ⟨300, (10 : ℚ)⟩ .ok 0) (fun _ _ => True) p := .run (fun _ _ => trivial) .init hp
  obtain ⟨p', hrun, hdone⟩ := h 40 _ p (by decide) hreach ⟨1, _, ht, rfl⟩ 41 7 70 hw hk
  have hI := seated_reachable hreach
  have hr := (singleFlight_reachable (pool_verifier hreach)).owner.mpr ⟨1, _, ht, rfl⟩
  obtain ⟨rest, hl⟩ := line_split hI.once hw
  have hwait := waits_of_blocking hI hr hl (le_of_eq hb.symm) hrun
  rw [hwait] at hdone
  cases hdone

end

end McpGateway
