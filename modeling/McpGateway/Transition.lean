import Mathlib

/-!
# Transition systems, histories and spacing

A machine steps partially on events. What holds at first and is kept by every
allowed step holds of every state reached. A history is a list that grows at
its end; `Before P` says of each entry what came before it.
-/

namespace Transition

structure Machine (σ ε : Type) where
  init : σ
  step : σ → ε → Option σ

section
variable {σ ε : Type} {m : Machine σ ε} {ok ok' : σ → ε → Prop}

inductive Reachable (m : Machine σ ε) (ok : σ → ε → Prop) : σ → Prop
  | init : Reachable m ok m.init
  | step {s e s'} : Reachable m ok s → ok s e → m.step s e = some s' → Reachable m ok s'

theorem Reachable.invariant {I : σ → Prop} (hinit : I m.init)
    (hstep : ∀ s e s', Reachable m ok s → I s → ok s e → m.step s e = some s' → I s') {s : σ}
    (h : Reachable m ok s) : I s := by
  induction h with
  | init => exact hinit
  | step hr ho hs ih => exact hstep _ _ _ hr ih ho hs

theorem Reachable.mono (hok : ∀ s e, ok s e → ok' s e) {s : σ} (h : Reachable m ok s) : Reachable m ok' s := by
  induction h with
  | init => exact .init
  | step _ ho hs ih => exact .step ih (hok _ _ ho) hs

theorem Reachable.trans {step : σ → ε → Option σ} {a s s' : σ} (h : Reachable ⟨a, step⟩ ok s)
    (h' : Reachable ⟨s, step⟩ ok s') :
    Reachable ⟨a, step⟩ ok s' := by
  induction h' with
  | init => exact h
  | step _ ho hs ih => exact .step ih ho hs

def Machine.run (m : Machine σ ε) (s : σ) : List ε → Option σ
  | [] => some s
  | e :: es => (m.step s e).bind fun s' => m.run s' es

/-- A run of events that satisfy `q` is allowed when every such step is. -/
theorem Reachable.run_of {q : ε → Prop} (hq : ∀ s e s', Reachable m ok s → q e → m.step s e = some s' → ok s e)
    {s s' : σ} {es : List ε} (h : Reachable m ok s) (hes : ∀ e ∈ es, q e) (hr : m.run s es = some s') :
    Reachable m ok s' := by
  induction es generalizing s with
  | nil =>
    cases hr
    exact h
  | cons e es ih =>
    obtain ⟨t, ht, hr⟩ := Option.bind_eq_some_iff.mp hr
    obtain ⟨he, hes⟩ := List.forall_mem_cons.mp hes
    exact ih (.step h (hq s e t h he ht) ht) hes hr

theorem Reachable.run {s s' : σ} {es : List ε} (hok : ∀ s e, ok s e) (h : Reachable m ok s)
    (hr : m.run s es = some s') : Reachable m ok s' :=
  h.run_of (q := fun _ => True) (fun s e _ _ _ _ => hok s e) (fun _ _ => trivial) hr

theorem Machine.run_append (s : σ) (es es' : List ε) : m.run s (es ++ es') = (m.run s es).bind fun s' =>
    m.run s' es' := by
  induction es generalizing s with
  | nil => rfl
  | cons e es ih =>
    rw [List.cons_append, Machine.run, Machine.run, Option.bind_assoc]
    exact congrArg _ (funext fun t => ih t)

/-- What holds of no events and is kept by one event more holds of every run and its end. -/
theorem Machine.run_invariant {I : List ε → σ → Prop} (hinit : I [] m.init)
    (hstep : ∀ es s e s', m.run m.init es = some s → I es s → m.step s e = some s' → I (es ++ [e]) s')
    {es : List ε} {s : σ} (hr : m.run m.init es = some s) : I es s := by
  induction es using List.reverseRecOn generalizing s with
  | nil =>
    cases hr
    exact hinit
  | append_singleton es e ih =>
    rw [Machine.run_append] at hr
    obtain ⟨t, ht, hr⟩ := Option.bind_eq_some_iff.mp hr
    obtain ⟨t', ht', hr⟩ := Option.bind_eq_some_iff.mp hr
    cases hr
    exact hstep es t e _ ht (ih ht) ht'

/-- A run that ends in a state with a decidable property. -/
theorem Machine.run_ends {s : σ} {es : List ε} (p : σ → Prop) [DecidablePred p]
    (h : (m.run s es).any (fun s' => decide (p s')) = true) : ∃ s', m.run s es = some s' ∧ p s' := by
  simpa [Option.any_eq_true] using h

end

/-! ## Histories -/

section
variable {α : Type} {P Q : List α → α → Prop}

def Before (P : List α → α → Prop) (log : List α) : Prop := ∀ pre x post, log = pre ++ x :: post → P pre x

theorem before_nil : Before P [] := by
  intro pre x post h
  simp at h

theorem before_snoc {log : List α} {x : α} (h : Before P log) (hx : P log x) : Before P (log ++ [x]) := by
  intro pre y post hy
  rcases List.eq_nil_or_concat post with rfl | ⟨post', z, rfl⟩
  · obtain ⟨rfl, hxy⟩ := List.append_inj' hy rfl
    cases hxy
    exact hx
  · rw [List.concat_eq_append, ← List.cons_append, ← List.append_assoc] at hy
    exact h pre y post' (List.append_inj' hy rfl).1

theorem Before.mono {log : List α} (h : Before P log) (hPQ : ∀ pre x, P pre x → Q pre x) : Before Q log := by
  intro pre x post hx
  exact hPQ pre x (h pre x post hx)

end

/-! ## The latest entry of a kind -/

section
variable {α β : Type} {f : α → Option β} {log : List α} {x : α} {b : β}

def latest (f : α → Option β) (log : List α) : Option β := log.reverse.findSome? f

@[simp] theorem latest_nil : latest f [] = none := rfl

theorem latest_snoc (f : α → Option β) (log : List α) (x : α) :
    latest f (log ++ [x]) = (f x).or (latest f log) := by
  simp only [latest, List.reverse_append, List.reverse_singleton, List.singleton_append, List.findSome?_cons]
  cases f x <;> rfl

theorem latest_append (f : α → Option β) (log log' : List α) :
    latest f (log ++ log') = (latest f log').or (latest f log) := by
  simp only [latest, List.reverse_append, List.findSome?_append]

theorem latest_map {γ : Type} (g : β → γ) (f : α → Option β) (log : List α) :
    latest (fun x => (f x).map g) log = (latest f log).map g := by
  rw [latest, latest, List.map_findSome?]
  rfl

/-- A function that follows `f` on every entry has its latest image where `f` has. -/
theorem latest_transfer {γ : Type} {g : α → Option γ} {c : γ} (hnone : ∀ x, f x = none → g x = none)
    (hsome : ∀ x, f x = some b → g x = some c) (h : latest f log = some b) : latest g log = some c := by
  induction log using List.reverseRecOn with
  | nil => cases h
  | append_singleton log x ih =>
    rw [latest_snoc] at h ⊢
    cases hx : f x with
    | none =>
      rw [hx] at h
      rw [hnone x hx]
      exact ih h
    | some b' =>
      rw [hx] at h
      cases h
      rw [hsome x hx]
      rfl

theorem latest_mem (h : latest f log = some b) : ∃ x ∈ log, f x = some b := by
  obtain ⟨x, hx, hb⟩ := List.exists_of_findSome?_eq_some h
  exact ⟨x, List.mem_reverse.mp hx, hb⟩

end

/-- What holds between each entry and all before it holds of the images in order. -/
theorem pairwise_before {α β : Type} {f : α → Option β} {R : β → β → Prop} {log : List α}
    (h : Before (fun pre x => ∀ b, f x = some b → ∀ y ∈ pre, ∀ a, f y = some a → R a b) log) :
    (log.filterMap f).Pairwise R := by
  induction log using List.reverseRecOn with
  | nil => simp
  | append_singleton log x ih =>
    have hlog : Before (fun pre x => ∀ b, f x = some b → ∀ y ∈ pre, ∀ a, f y = some a → R a b) log := by
      intro pre y post hy
      exact h pre y (post ++ [x]) (by rw [hy, List.append_assoc, List.cons_append])
    have hx := h log x [] rfl
    rw [List.filterMap_append, List.pairwise_append]
    refine ⟨ih hlog, ?_, ?_⟩
    · cases hfx : f x <;> simp [hfx]
    · intro a ha b hb
      obtain ⟨y, hy, hya⟩ := List.mem_filterMap.mp ha
      obtain ⟨z, hz, hzb⟩ := List.mem_filterMap.mp hb
      rw [List.mem_singleton.mp hz] at hzb
      exact hx b hzb y hy a hya

/-! ## Spacing -/

section
variable {d W a : ℚ}

/-- `n` gaps of `d` take the last time at least `n * d` past the first. -/
theorem spaced_last {x : ℚ} {ts : List ℚ} (h : (x :: ts).Pairwise fun s t => s + d ≤ t) :
    ∃ y ∈ x :: ts, x + ts.length * d ≤ y := by
  induction ts generalizing x with
  | nil => exact ⟨x, by simp, by simp⟩
  | cons t ts ih =>
    obtain ⟨hx, ht⟩ := List.pairwise_cons.mp h
    obtain ⟨y, hy, hle⟩ := ih ht
    refine ⟨y, List.mem_cons_of_mem _ hy, ?_⟩
    have hxt := hx t (by simp)
    rw [List.length_cons]
    push_cast
    linarith

/-- At most `1 + ⌊W / d⌋` of the times lie in a window of length `W`. -/
theorem spaced_window (hd : 0 < d) {ts : List ℚ} (h : ts.Pairwise fun s t => s + d ≤ t) :
    (ts.filter fun t => a ≤ t ∧ t ≤ a + W).length ≤ 1 + ⌊W / d⌋₊ := by
  have hf := h.sublist (List.filter_sublist (p := fun t => decide (a ≤ t ∧ t ≤ a + W)))
  cases hts : ts.filter fun t => a ≤ t ∧ t ≤ a + W with
  | nil => simp
  | cons x us =>
    rw [hts] at hf
    have hin : ∀ t ∈ x :: us, a ≤ t ∧ t ≤ a + W := by
      intro t ht
      rw [← hts] at ht
      simpa using (List.mem_filter.mp ht).2
    obtain ⟨y, hy, hle⟩ := spaced_last hf
    have hx := (hin x (by simp)).1
    have hyW := (hin y hy).2
    have hlen : (us.length : ℚ) ≤ W / d := by
      rw [le_div_iff₀ hd]
      linarith
    rw [List.length_cons]
    have := Nat.le_floor hlen
    omega

end

end Transition
