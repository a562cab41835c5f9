import McpGateway.SingleFlight

/-!
# The cache equals the last authoritative document

The fields under the lock are functions of the history: of the latest
completed fetch, of the latest whose document was accepted, and of the latest
whose document had keys.
-/

namespace McpGateway

open Unicode Transition

variable {Tid Kid Key Raw : Type}

/-! ## What the history says -/

def completedAt : Entry Tid Kid Key Raw → Option ℚ
  | .completed _ _ now _ => some now
  | _ => none

section
variable (parse : Raw → Except Thrown (Keys Kid Key))

/-- The document of a completed fetch, if it was retrieved and parsed. -/
def accepted : Entry Tid Kid Key Raw → Option (Keys Kid Key)
  | .completed _ _ _ (.body raw) => (parse raw).toOption
  | _ => none

def succeededAt (x : Entry Tid Kid Key Raw) : Option ℚ :=
  match accepted parse x with
  | some (_ :: _) => completedAt x
  | _ => none

def authority (log : List (Entry Tid Kid Key Raw)) : Keys Kid Key := (latest (accepted parse) log).getD []

structure Authoritative (s : Sys Tid Kid Key Raw) : Prop where
  keys : s.cache.keys = authority parse s.log
  lastSuccess : s.cache.lastSuccess = latest (succeededAt parse) s.log
  lastFetch : s.cache.lastFetch = latest completedAt s.log

/-- Every key answered for `kid` is the one the latest accepted document lists. -/
def KeyFromAuthority [DecidableEq Kid] (pre : List (Entry Tid Kid Key Raw)) (x : Entry Tid Kid Key Raw) : Prop :=
  ∀ t kid key ground, x = .answered t (.resolve kid) (.key key) ground → (authority parse pre).lookup kid = some key

variable {parse}

theorem accepted_completed {t : Tid} {since now : ℚ} {outcome : Fetched Raw} :
    accepted parse (.completed t since now outcome : Entry Tid Kid Key Raw) = newKeys parse outcome := by
  cases outcome <;> rfl

theorem authoritative_snoc {s s' : Sys Tid Kid Key Raw} (h : Authoritative parse s) {x : Entry Tid Kid Key Raw}
    (hx : completedAt x = none) (hlog : s'.log = s.log ++ [x]) (hk : s'.cache.keys = s.cache.keys)
    (hs : s'.cache.lastSuccess = s.cache.lastSuccess) (hf : s'.cache.lastFetch = s.cache.lastFetch) :
    Authoritative parse s' := by
  have ha : accepted parse x = none := by
    cases x with
    | completed t since now outcome => cases hx
    | started t now => rfl
    | answered t op a ground => rfl
  have hsu : succeededAt parse x = none := by simp [succeededAt, ha]
  refine ⟨?_, ?_, ?_⟩
  · rw [hk, hlog, authority, latest_snoc, ha, h.keys]
    rfl
  · rw [hs, hlog, latest_snoc, hsu, h.lastSuccess]
    rfl
  · rw [hf, hlog, latest_snoc, hx, h.lastFetch]
    rfl

theorem authoritative_land {s : Sys Tid Kid Key Raw} (h : Authoritative parse s) (t : Tid) (since now : ℚ)
    (outcome : Fetched Raw) : Authoritative parse (s.land parse t since now outcome) := by
  refine ⟨?_, ?_, ?_⟩
  · simp only [Sys.land, Cache.complete, authority, latest_snoc, accepted_completed]
    cases hn : newKeys parse outcome with
    | none => exact h.keys
    | some keys => rfl
  · simp only [Sys.land, Cache.complete, latest_snoc, succeededAt, accepted_completed, completedAt]
    cases newKeys parse outcome with
    | none => exact h.lastSuccess
    | some keys =>
      cases keys with
      | nil => exact h.lastSuccess
      | cons _ _ => rfl
  · simp only [Sys.land, Cache.complete, latest_snoc, completedAt]
    rfl

end

/-! ## Over a run -/

section
variable [DecidableEq Tid] [DecidableEq Kid] {cfg : CacheConfig} {parse : Raw → Except Thrown (Keys Kid Key)}
  {ok : Sys Tid Kid Key Raw → Event Tid Kid Raw → Prop} {start : ℚ}

theorem authoritative_step {s s' : Sys Tid Kid Key Raw} {e : Event Tid Kid Raw} (h : Authoritative parse s)
    (hs : Steps cfg parse s e s') : Authoritative parse s' := by
  cases hs with
  | call _ => exact ⟨h.keys, h.lastSuccess, h.lastFetch⟩
  | @held _ t pc op now d _ hsec _ =>
    cases d with
    | answer a => exact authoritative_snoc h rfl rfl rfl rfl rfl
    | wait => exact ⟨h.keys, h.lastSuccess, h.lastFetch⟩
    | claim => exact ⟨h.keys, h.lastSuccess, h.lastFetch⟩
  | timeout _ => exact ⟨h.keys, h.lastSuccess, h.lastFetch⟩
  | expire _ => exact authoritative_snoc h rfl rfl rfl rfl rfl
  | fetchStart _ _ => exact authoritative_snoc h rfl rfl rfl rfl rfl
  | fetchEnd _ _ => exact ⟨h.keys, h.lastSuccess, h.lastFetch⟩
  | @complete t op since now outcome _ _ _ hfin =>
    have hl := authoritative_land h t since now outcome
    cases hfin with
    | ready => exact authoritative_snoc hl rfl rfl rfl rfl rfl
    | failed _ => exact authoritative_snoc hl rfl rfl rfl rfl rfl
    | reread _ => exact ⟨hl.keys, hl.lastSuccess, hl.lastFetch⟩
  | found _ _ => exact authoritative_snoc h rfl rfl rfl rfl rfl
  | missing _ _ => exact authoritative_snoc h rfl rfl rfl rfl rfl

theorem authoritative_reachable {s : Sys Tid Kid Key Raw} (h : Reachable (verifier cfg parse start) ok s) :
    Authoritative parse s := by
  refine h.invariant ?_ ?_
  · exact ⟨rfl, rfl, rfl⟩
  · intro s e s' _ hI _ hs
    exact authoritative_step hI (steps_of_step hs)

theorem keyFromAuthority_step {s s' : Sys Tid Kid Key Raw} {e : Event Tid Kid Raw} (ha : Authoritative parse s)
    (h : Before (KeyFromAuthority parse) s.log) (hs : Steps cfg parse s e s') :
    Before (KeyFromAuthority parse) s'.log := by
  refine before_recorded h hs ?_
  rintro pre x hx t kid key ground rfl
  cases hx with
  | held ht hsec =>
    obtain ⟨_, hkid, hk⟩ := section_key hsec
    cases hkid
    rwa [ha.keys] at hk
  | failed _ _ hf => exact absurd hf (resolveError_not_key parse _ key)
  | found _ hk => rwa [ha.keys] at hk

theorem keyFromAuthority_reachable {s : Sys Tid Kid Key Raw} (h : Reachable (verifier cfg parse start) ok s) :
    Before (KeyFromAuthority parse) s.log := by
  refine h.invariant (I := fun s => Before (KeyFromAuthority parse) s.log) before_nil ?_
  intro s e s' hr hI _ hs
  exact keyFromAuthority_step (authoritative_reachable hr) hI (steps_of_step hs)

omit [DecidableEq Tid] in
/-- A key answered after a document without it was listed by a later document. -/
theorem key_listed_later {log pre mid post : List (Entry Tid Kid Key Raw)} {x : Entry Tid Kid Key Raw}
    {t : Tid} {kid : Kid}
    {key : Key} {ground : Ground} {keys : Keys Kid Key} (h : Before (KeyFromAuthority parse) log)
    (hlog : log = pre ++ x :: (mid ++ .answered t (.resolve kid) (.key key) ground :: post))
    (hx : accepted parse x = some keys) (hkid : keys.lookup kid = none) :
    ∃ y ∈ mid, ∃ keys', accepted parse y = some keys' ∧ keys'.lookup kid = some key := by
  have hk := h (pre ++ x :: mid) _ post (by rw [hlog, List.append_assoc, List.cons_append]) t kid key ground rfl
  have hpre : pre ++ x :: mid = (pre ++ [x]) ++ mid := by simp
  rw [authority, hpre, latest_append, latest_snoc, hx] at hk
  cases hm : latest (accepted parse) mid with
  | none =>
    rw [hm] at hk
    simp [hkid] at hk
  | some keys' =>
    rw [hm] at hk
    obtain ⟨y, hy, hy'⟩ := latest_mem hm
    exact ⟨y, hy, keys', hy', hk⟩

/-- The fields are functions of the history, a failed attempt keeps the keys and the last success, and a key is
returned only while the latest accepted document lists it. -/
theorem cache_authoritative {s : Sys Tid Kid Key Raw}
    (h : Reachable (verifier cfg parse start) (fun _ _ => True) s) :
    Authoritative parse s ∧
      (∀ t op since outcome now s', s.threads t = some (.fetched op since outcome) →
        (∀ raw keys, outcome = .body raw → parse raw ≠ .ok keys) → s.step cfg parse (.complete t now) = some s' →
        s'.cache.keys = s.cache.keys ∧ s'.cache.lastSuccess = s.cache.lastSuccess ∧ s'.cache.lastFetch = some now) ∧
      Before (KeyFromAuthority parse) s.log ∧
      ∀ pre x mid t kid key ground post keys,
        s.log = pre ++ x :: (mid ++ .answered t (.resolve kid) (.key key) ground :: post) →
        accepted parse x = some keys → keys.lookup kid = none →
        ∃ y ∈ mid, ∃ keys', accepted parse y = some keys' ∧ keys'.lookup kid = some key := by
  have hb := keyFromAuthority_reachable h
  refine ⟨authoritative_reachable h, ?_, hb, ?_⟩
  · intro t op since outcome now s' ht hfail hs
    have hn : newKeys parse outcome = none := by
      cases outcome with
      | tokenError message => rfl
      | thrown e => rfl
      | body raw =>
        cases hp : parse raw with
        | ok keys => exact absurd hp (hfail raw keys rfl)
        | error e => simp [newKeys, hp, Except.toOption]
    rw [Sys.step, ht] at hs
    dsimp only at hs
    split at hs <;> cases hs
    have hc := (finish_threads (finish_cases parse (s.land parse t since now outcome) t since outcome op)).1
    rw [hc, Sys.land, hn]
    exact ⟨rfl, rfl, rfl⟩
  · intro pre x mid t kid key ground post keys hlog hx hkid
    exact key_listed_later hb hlog hx hkid

theorem cache_authoritative_fetch :
    ∃ s, (numbered ⟨300, (10 : ℚ)⟩).run (numbered ⟨300, (10 : ℚ)⟩).init
        [.call 0 (.resolve 7), .enter 0 0 0, .fetchStart 0 1, .fetchEnd 0 2 (.body [(7, 70)]), .complete 0 3,
          .reread 0] = some s ∧
      (s.cache.keys, s.cache.lastSuccess, s.cache.lastFetch) = ([(7, 70)], some 3, some 3) ∧
      Authoritative .ok s ∧ Before (KeyFromAuthority .ok) s.log := by
  have hrun : ((numbered ⟨300, (10 : ℚ)⟩).run (numbered ⟨300, (10 : ℚ)⟩).init
      [.call 0 (.resolve 7), .enter 0 0 0, .fetchStart 0 1, .fetchEnd 0 2 (.body [(7, 70)]), .complete 0 3,
        .reread 0]).map (fun s => (s.cache.keys, s.cache.lastSuccess, s.cache.lastFetch)) =
      some ([(7, 70)], some 3, some 3) := by decide +kernel
  obtain ⟨s, hs, hc⟩ := Option.map_eq_some_iff.mp hrun
  have h := cache_authoritative (.run (fun _ _ => trivial) .init hs)
  exact ⟨s, hs, hc, h.1, h.2.2.1⟩

end

end McpGateway
