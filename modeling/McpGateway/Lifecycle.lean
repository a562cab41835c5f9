import McpGateway.Simulation

/-!
# The life of a relayed request

What a relay tells of one request: it is refused, or sent on and answered, and
a streamed answer ends. What may be told at each turn is left to rules.
-/

namespace Transition

variable {S R E : Type}

inductive Mark (S R E : Type)
  | sent (x : S)
  | audited (r : R)
  | streamed (e : E)

inductive Leg
  | absent
  | deciding
  | sent
  | streaming
  | over
  deriving DecidableEq

structure Life (S R E : Type) where
  leg : Leg
  marks : List (Mark S R E)

inductive Move (S R E : Type)
  | arrive
  | refuse (r : Option R)
  | send (x : S)
  | answer (r : Option R) (streams : Bool)
  | finish (e : Option E)

def audits (r : Option R) : List (Mark S R E) := r.toList.map .audited

def streams (e : Option E) : List (Mark S R E) := e.toList.map .streamed

def Life.step (l : Life S R E) (move : Move S R E) : Option (Life S R E) :=
  match l.leg, move with
  | .absent, .arrive => some ⟨.deciding, l.marks⟩
  | .deciding, .refuse r => some ⟨.over, l.marks ++ audits r⟩
  | .deciding, .send x => some ⟨.sent, l.marks ++ [.sent x]⟩
  | .sent, .answer r streams => some ⟨if streams then .streaming else .over, l.marks ++ audits r⟩
  | .streaming, .finish e => some ⟨.over, l.marks ++ streams e⟩
  | _, _ => none

def lifecycle : Machine (Life S R E) (Move S R E) where
  init := ⟨.absent, []⟩
  step := Life.step

/-- What may be sent, which records may tell of a refusal, of an answer and of a stream that opens, and which
events of its end. -/
structure Rules (S R E : Type) where
  sends : S → Prop
  refusal : R → Prop
  verdict : R → Prop
  opens : R → Prop
  closes : R → E → Prop

def Rules.allows (k : Rules S R E) (l : Life S R E) : Move S R E → Prop
  | .arrive => True
  | .refuse r => ∀ x ∈ r, k.refusal x
  | .send x => k.sends x
  | .answer r streams => (∀ x ∈ r, k.verdict x) ∧ (streams = true → ∃ x ∈ r, k.opens x)
  | .finish e => ∀ y ∈ e, ∃ r, .audited r ∈ l.marks ∧ k.closes r y

/-- All that can have been told at each leg. -/
inductive Story (k : Rules S R E) : Leg → List (Mark S R E) → Prop
  | absent : Story k .absent []
  | deciding : Story k .deciding []
  | refused {r : Option R} : (∀ x ∈ r, k.refusal x) → Story k .over (audits r)
  | sent {x : S} : k.sends x → Story k .sent [.sent x]
  | answered {x : S} {r : Option R} : k.sends x → (∀ y ∈ r, k.verdict y) → Story k .over (.sent x :: audits r)
  | streaming {x : S} {r : R} : k.sends x → k.verdict r → k.opens r → Story k .streaming [.sent x, .audited r]
  | ended {x : S} {r : R} {e : E} : k.sends x → k.verdict r → k.opens r → k.closes r e →
      Story k .over [.sent x, .audited r, .streamed e]

variable {k : Rules S R E} {l l' : Life S R E} {move : Move S R E}

theorem step_arrive (h : l.leg = .absent) : l.step .arrive = some ⟨.deciding, l.marks⟩ := by
  unfold Life.step
  rw [h]

theorem step_refuse (h : l.leg = .deciding) (r : Option R) :
    l.step (.refuse r) = some ⟨.over, l.marks ++ audits r⟩ := by
  unfold Life.step
  rw [h]

theorem step_send (h : l.leg = .deciding) (x : S) : l.step (.send x) = some ⟨.sent, l.marks ++ [.sent x]⟩ := by
  unfold Life.step
  rw [h]

theorem step_answer (h : l.leg = .sent) (r : Option R) (streams : Bool) :
    l.step (.answer r streams) = some ⟨if streams then .streaming else .over, l.marks ++ audits r⟩ := by
  unfold Life.step
  rw [h]

theorem step_finish (h : l.leg = .streaming) (e : Option E) :
    l.step (.finish e) = some ⟨.over, l.marks ++ streams e⟩ := by
  unfold Life.step
  rw [h]

theorem story_step (h : Story k l.leg l.marks) (hallows : k.allows l move) (hs : l.step move = some l') :
    Story k l'.leg l'.marks := by
  obtain ⟨leg, marks⟩ := l
  dsimp only at h
  cases h with
  | absent =>
    cases move with
    | arrive =>
      cases hs
      exact .deciding
    | _ => cases hs
  | deciding =>
    cases move with
    | refuse r =>
      cases hs
      exact .refused hallows
    | send x =>
      cases hs
      exact .sent hallows
    | _ => cases hs
  | refused _ => cases hs
  | @sent x hx =>
    cases move with
    | answer r streams =>
      cases hs
      cases streams with
      | false => exact .answered hx hallows.1
      | true =>
        obtain ⟨y, hy, hopens⟩ := hallows.2 rfl
        cases hy
        exact .streaming hx (hallows.1 y rfl) hopens
    | _ => cases hs
  | answered _ _ => cases hs
  | @streaming x r hx hverdict hopens =>
    cases move with
    | finish e =>
      cases hs
      cases e with
      | none =>
        refine .answered (r := some r) hx fun y hy => ?_
        cases hy
        exact hverdict
      | some e =>
        obtain ⟨r', hmem, hcloses⟩ := hallows e rfl
        have hr : r' = r := by simpa using hmem
        rw [hr] at hcloses
        exact .ended hx hverdict hopens hcloses
    | _ => cases hs
  | ended _ _ _ _ => cases hs

theorem story_reachable (h : Reachable (lifecycle (S := S) (R := R) (E := E)) k.allows l) :
    Story k l.leg l.marks := by
  refine h.invariant (I := fun l => Story k l.leg l.marks) ?_ ?_
  · exact .absent
  · intro l move l' _ hI hallows hs
    exact story_step hI hallows hs

/-- A request of which a record tells a refusal alone has never been sent. -/
theorem Story.unsent {leg : Leg} {marks : List (Mark S R E)} (h : Story k leg marks) {r : R}
    (hr : .audited r ∈ marks) (hrefusal : ¬ k.verdict r) (x : S) : .sent x ∉ marks := by
  cases h with
  | absent => cases hr
  | deciding => cases hr
  | refused _ => simp [audits]
  | sent _ => simp at hr
  | answered _ hverdict =>
    refine absurd (hverdict r ?_) hrefusal
    simpa [audits] using hr
  | streaming _ hverdict _ =>
    cases (show r = _ by simpa using hr)
    exact absurd hverdict hrefusal
  | ended _ hverdict _ _ =>
    cases (show r = _ by simpa using hr)
    exact absurd hverdict hrefusal

/-- A request with a record that tells no refusal has been sent before. -/
theorem Story.sent_before {leg : Leg} {marks : List (Mark S R E)} (h : Story k leg marks) {r : R}
    (hr : .audited r ∈ marks)
    (hverdict : ¬ k.refusal r) : ∃ x rest, k.sends x ∧ marks = .sent x :: .audited r :: rest := by
  cases h with
  | absent => cases hr
  | deciding => cases hr
  | refused hrefusal => exact absurd (hrefusal r (by simpa [audits] using hr)) hverdict
  | sent _ => simp at hr
  | @answered x r' hx _ =>
    have hr' : r' = some r := by simpa [audits] using hr
    exact ⟨x, [], hx, by rw [hr']; rfl⟩
  | @streaming x _ hx _ _ =>
    cases (show r = _ by simpa using hr)
    exact ⟨x, [], hx, rfl⟩
  | @ended x _ e hx _ _ _ =>
    cases (show r = _ by simpa using hr)
    exact ⟨x, [.streamed e], hx, rfl⟩

end Transition
