import McpGateway.Authoritative

/-!
# Readiness

The time of the last success is that of the document in the cache whenever
that document has keys, so `ready` answers by the document and its age.
-/

namespace McpGateway

open Unicode Transition

variable {Tid Kid Key Raw : Type}

section
variable (parse : Raw → Except Thrown (Keys Kid Key))

def installed : Entry Tid Kid Key Raw → Option (Keys Kid Key × ℚ)
  | .completed _ _ now outcome => (newKeys parse outcome).map fun keys => (keys, now)
  | _ => none

/-- A positive answer: the latest document accepted has keys, and is within its TTL or was fetched by the call
itself. -/
def ReadyTrue (cfg : CacheConfig) (pre : List (Entry Tid Kid Key Raw)) (x : Entry Tid Kid Key Raw) : Prop :=
  ∀ (t : Tid) (ground : Ground), x = .answered t .ready (.ready true) ground →
    ∃ (keys : Keys Kid Key) (e : ℚ), keys ≠ [] ∧ latest (installed parse) pre = some (keys, e) ∧
      ((∃ now : ℚ, ground = .held now ∧ now - e ≤ cfg.ttl) ∨
        ∃ (since : ℚ) (outcome : Fetched Raw), ground = .fetch since ∧ .completed t since e outcome ∈ pre ∧
          newKeys parse outcome = some keys)

variable {parse}

theorem accepted_installed (x : Entry Tid Kid Key Raw) : accepted parse x = (installed parse x).map Prod.fst := by
  cases x with
  | completed t since now outcome =>
    rw [accepted_completed, installed, Option.map_map]
    exact (Option.map_id' ..).symm
  | started t now => rfl
  | answered t op a ground => rfl

theorem authority_installed (log : List (Entry Tid Kid Key Raw)) :
    authority parse log = ((latest (installed parse) log).map Prod.fst).getD [] := by
  rw [authority, funext accepted_installed, latest_map]

theorem succeededAt_installed {x : Entry Tid Kid Key Raw} {keys : Keys Kid Key} {e : ℚ} (hk : keys ≠ [])
    (h : installed parse x = some (keys, e)) : succeededAt parse x = some e := by
  cases x with
  | completed t since now outcome =>
    obtain ⟨keys', hn, he⟩ := Option.map_eq_some_iff.mp h
    cases he
    rw [succeededAt, accepted_completed, hn]
    cases keys with
    | nil => exact absurd rfl hk
    | cons _ _ => rfl
  | started t now => cases h
  | answered t op a ground => cases h

theorem succeededAt_none {x : Entry Tid Kid Key Raw} (h : installed parse x = none) :
    succeededAt parse x = none := by
  rw [succeededAt, accepted_installed, h]
  rfl

/-- While the latest document accepted has keys, the last success is its completion. -/
theorem lastSuccess_installed {s : Sys Tid Kid Key Raw} (h : Authoritative parse s) {keys : Keys Kid Key} {e : ℚ}
    (hk : keys ≠ []) (hl : latest (installed parse) s.log = some (keys, e)) : s.cache.lastSuccess = some e := by
  rw [h.lastSuccess]
  exact latest_transfer (fun _ => succeededAt_none) (fun _ => succeededAt_installed hk) hl

theorem keys_installed {s : Sys Tid Kid Key Raw} (h : Authoritative parse s) (hne : s.cache.keys ≠ []) :
    ∃ e, latest (installed parse) s.log = some (s.cache.keys, e) := by
  rw [h.keys, authority_installed] at hne ⊢
  cases hl : latest (installed parse) s.log with
  | none =>
    rw [hl] at hne
    exact absurd rfl hne
  | some x => exact ⟨x.2, rfl⟩

end

/-! ## Answers of `ready` -/

section
variable [DecidableEq Tid] [DecidableEq Kid] {cfg : CacheConfig} {parse : Raw → Except Thrown (Keys Kid Key)}
  {start : ℚ}
  {ok : Sys Tid Kid Key Raw → Event Tid Kid Raw → Prop} {s s' : Sys Tid Kid Key Raw} {e : Event Tid Kid Raw}

omit [DecidableEq Tid] in
theorem section_ready {clock : ℚ} {c : Cache Kid Key} {pc : Pc Kid Key Raw} {now : ℚ}
    (h : Section cfg clock c pc .ready now (.answer (.ready true))) :
    c.keys ≠ [] ∧ ∃ e, c.lastSuccess = some e ∧ now - e ≤ cfg.ttl := by
  generalize hd : Decision.answer (.ready true) = d at h
  cases h with
  | probe _ =>
    unfold enterReady at hd
    split_ifs at hd with h1
    · obtain ⟨hk, _, hw⟩ : c.keys ≠ [] ∧ 0 < cfg.ttl ∧ withinTtl cfg now c.lastSuccess = true := by simpa using h1
      refine ⟨hk, ?_⟩
      cases hl : c.lastSuccess with
      | none => simp [withinTtl, hl] at hw
      | some e => exact ⟨e, rfl, by simpa [withinTtl, hl] using hw⟩
    all_goals cases hd

omit [DecidableEq Tid] [DecidableEq Kid] in
theorem readyResult_true {outcome : Fetched Raw} (h : readyResult parse outcome = .ready true) :
    ∃ keys, newKeys parse outcome = some keys ∧ keys ≠ [] := by
  cases outcome with
  | tokenError message => cases h
  | thrown e =>
    rw [readyResult] at h
    split at h <;> cases h
  | body raw =>
    rw [readyResult] at h
    cases hp : parse raw with
    | error e =>
      simp only [hp] at h
      split at h <;> cases h
    | ok keys =>
      simp only [hp] at h
      refine ⟨keys, by simp [newKeys, hp, Except.toOption], ?_⟩
      rintro rfl
      cases h

theorem readyTrue_step (ha : Authoritative parse s) (h : Before (ReadyTrue parse cfg) s.log)
    (hs : Steps cfg parse s e s') :
    Before (ReadyTrue parse cfg) s'.log := by
  refine before_recorded h hs ?_
  intro pre x hx t ground hxe
  cases hx with
  | @held _ _ _ now _ _ hsec =>
    cases hxe
    obtain ⟨hk, e, hl, hle⟩ := section_ready hsec
    obtain ⟨e', hi⟩ := keys_installed ha hk
    rw [lastSuccess_installed ha hk hi] at hl
    cases hl
    exact ⟨s.cache.keys, e, hk, hi, Or.inl ⟨now, rfl, hle⟩⟩
  | expire _ => cases hxe
  | started _ _ => cases hxe
  | completed _ _ => cases hxe
  | @ready t' since now outcome _ _ =>
    obtain ⟨rfl, _, hres, rfl⟩ := Entry.answered.inj hxe
    obtain ⟨keys, hn, hk⟩ := readyResult_true hres
    refine ⟨keys, now, hk, ?_, Or.inr ⟨since, outcome, rfl, by simp, hn⟩⟩
    rw [latest_snoc, installed, hn]
    rfl
  | failed _ _ _ => cases hxe
  | found _ _ => cases hxe
  | missing _ _ => cases hxe

theorem readyTrue_reachable (h : Reachable (verifier cfg parse start) ok s) :
    Before (ReadyTrue parse cfg) s.log := by
  refine h.invariant (I := fun s => Before (ReadyTrue parse cfg) s.log) before_nil ?_
  intro s e s' hr hI _ hs
  exact readyTrue_step (authoritative_reachable hr) hI (steps_of_step hs)

omit [DecidableEq Tid] [DecidableEq Kid] in
/-- A positive answer after an empty document follows a later one with keys. -/
theorem readyTrue_later {log pre mid post : List (Entry Tid Kid Key Raw)} {x : Entry Tid Kid Key Raw} {t : Tid}
    {ground : Ground} (h : Before (ReadyTrue parse cfg) log)
    (hlog : log = pre ++ x :: (mid ++ .answered t .ready (.ready true) ground :: post))
    (hx : accepted parse x = some []) :
    ∃ y ∈ mid, ∃ keys, accepted parse y = some keys ∧ keys ≠ [] := by
  obtain ⟨keys, e, hk, hl, _⟩ := h (pre ++ x :: mid) _ post
    (by rw [hlog, List.append_assoc, List.cons_append]) t ground rfl
  have hpre : pre ++ x :: mid = (pre ++ [x]) ++ mid := by simp
  rw [hpre, latest_append, latest_snoc] at hl
  cases hm : latest (installed parse) mid with
  | none =>
    rw [accepted_installed] at hx
    obtain ⟨⟨keys', e'⟩, hx, hnil⟩ := Option.map_eq_some_iff.mp hx
    rw [hm, hx] at hl
    cases hl
    exact absurd hnil hk
  | some p =>
    rw [hm] at hl
    cases hl
    obtain ⟨y, hy, hiy⟩ := latest_mem hm
    exact ⟨y, hy, keys, by rw [accepted_installed, hiy]; rfl, hk⟩

/-- `ready` answers true only by a recent document with keys or its own fetch of one, by such a document at once,
and after an empty document not before a later one with keys. -/
theorem ready_exact (httl : 0 < cfg.ttl) (h : Reachable (verifier cfg parse start) (fun _ _ => True) s) :
    Before (ReadyTrue parse cfg) s.log ∧
      (∀ t keys e now, s.threads t = some (.called .ready) → s.clock ≤ now → keys ≠ [] →
        latest (installed parse) s.log = some (keys, e) → now - e ≤ cfg.ttl →
        s.step cfg parse (.probe t now) = some ({ s with clock := now }.answer t .ready
        (.ready true) (.held now))) ∧
      ∀ pre x mid t ground post, s.log = pre ++ x :: (mid ++ .answered t .ready (.ready true) ground :: post) →
        accepted parse x = some [] → ∃ y ∈ mid, ∃ keys, accepted parse y = some keys ∧ keys ≠ [] := by
  have hb := readyTrue_reachable h
  have ha := authoritative_reachable h
  refine ⟨hb, ?_, ?_⟩
  · intro t keys e now ht hc hk hl hle
    have hkeys : s.cache.keys = keys := by
      rw [ha.keys, authority_installed, hl]
      rfl
    have hdec : enterReady cfg s.cache now = .answer (.ready true) := by
      rw [enterReady, hkeys, lastSuccess_installed ha hk hl]
      simp [withinTtl, hk, httl, hle]
    rw [Sys.step, ht]
    simp only [hc, if_true, hdec]
    rfl
  · intro pre x mid t ground post hlog hx
    exact readyTrue_later hb hlog hx

/-- A refresh fails after a success, and `ready` answers true within the TTL. -/
theorem ready_exact_failed_refresh :
    ∃ s, (numbered ⟨300, (10 : ℚ)⟩).run (numbered ⟨300, (10 : ℚ)⟩).init
        [.call 0 .ready, .probe 0 0, .fetchStart 0 0, .fetchEnd 0 1 (.body [(7, 70)]), .complete 0 2,
        .call 1 (.resolve 8),
          .enter 1 20 20, .fetchStart 1 20, .fetchEnd 1 21 (.thrown ⟨txt "URLError", true⟩), .complete 1 22,
          .call 2 .ready] = some s ∧
      s.step ⟨300, (10 : ℚ)⟩ .ok (.probe 2 100) =
        some ({ s with clock := 100 }.answer 2 .ready (.ready true) (.held 100)) := by
  obtain ⟨s, hs, ht, hc, hl⟩ : ∃ s, (numbered ⟨300, (10 : ℚ)⟩).run (numbered ⟨300, (10 : ℚ)⟩).init
      [.call 0 .ready, .probe 0 0, .fetchStart 0 0, .fetchEnd 0 1 (.body [(7, 70)]), .complete 0 2,
        .call 1 (.resolve 8),
        .enter 1 20 20, .fetchStart 1 20, .fetchEnd 1 21 (.thrown ⟨txt "URLError", true⟩), .complete 1 22,
        .call 2 .ready] = some s ∧
      s.threads 2 = some (.called .ready) ∧ s.clock ≤ 100 ∧ latest (installed .ok) s.log = some ([(7, 70)], 2) :=
    Machine.run_ends _ (by decide +kernel)
  have h := ready_exact (by decide) (.run (fun _ _ => trivial) .init hs)
  exact ⟨s, hs, h.2.1 2 _ 2 100 ht hc (by decide) hl (by decide +kernel)⟩

end

end McpGateway
