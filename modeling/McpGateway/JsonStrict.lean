import McpGateway.Readers

/-!
# Strict evaluation

What a decoder that refuses repeated names and constants makes of a tree: the
tree's own value, when the tree is free of these and shallow enough.
-/

namespace Json

open Unicode Binary64

mutual
def Tree.value : Tree → Value
  | .null => .null
  | .bool b => .bool b
  | .const c => .float c.float
  | .num n => if n.isInt then .int n.toInt else .float n.toFloat
  | .str s => .str s
  | .arr ts => .arr (values ts)
  | .obj ms => .obj (memberValues ms)
def values : List Tree → List Value
  | [] => []
  | t :: ts => t.value :: values ts
def memberValues : List (Text × Tree) → List (Text × Value)
  | [] => []
  | (k, t) :: ms => (k, t.value) :: memberValues ms
end

mutual
def Tree.depth : Tree → Nat
  | .arr ts => depthAll ts + 1
  | .obj ms => depthMembers ms + 1
  | _ => 0
def depthAll : List Tree → Nat
  | [] => 0
  | t :: ts => max t.depth (depthAll ts)
def depthMembers : List (Text × Tree) → Nat
  | [] => 0
  | (_, t) :: ms => max t.depth (depthMembers ms)
end

mutual
def Tree.every (p : Tree → Bool) : Tree → Bool
  | .arr ts => p (.arr ts) && everyAll p ts
  | .obj ms => p (.obj ms) && everyMembers p ms
  | .null => p .null
  | .bool b => p (.bool b)
  | .const c => p (.const c)
  | .num n => p (.num n)
  | .str s => p (.str s)
def everyAll (p : Tree → Bool) : List Tree → Bool
  | [] => true
  | t :: ts => t.every p && everyAll p ts
def everyMembers (p : Tree → Bool) : List (Text × Tree) → Bool
  | [] => true
  | (_, t) :: ms => t.every p && everyMembers p ms
end

def Tree.distinct (t : Tree) : Bool :=
  t.every fun
    | .obj ms => (ms.map Prod.fst).Nodup
    | _ => true

def Tree.withinDigits (limit : Option Nat) (t : Tree) : Bool :=
  t.every fun
    | .num n => !(n.isInt && tooLong limit n.int)
    | _ => true

/-! ## Over the children -/

theorem values_eq (ts : List Tree) : values ts = ts.map Tree.value := by
  induction ts with
  | nil => rfl
  | cons t ts ih => rw [values, ih, List.map_cons]

theorem memberValues_eq (ms : List (Text × Tree)) : memberValues ms = ms.map fun m => (m.1, m.2.value) := by
  induction ms with
  | nil => rfl
  | cons m ms ih => rw [memberValues, ih, List.map_cons]

theorem depthAll_le {ts : List Tree} {d : Nat} : depthAll ts ≤ d ↔ ∀ t ∈ ts, t.depth ≤ d := by
  induction ts with
  | nil => simp [depthAll]
  | cons t ts ih => simp [depthAll, ih]

theorem depthMembers_le {ms : List (Text × Tree)} {d : Nat} : depthMembers ms ≤ d ↔ ∀ m ∈ ms, m.2.depth ≤ d := by
  induction ms with
  | nil => simp [depthMembers]
  | cons m ms ih => simp only [depthMembers, Nat.max_le, ih, List.forall_mem_cons]

theorem everyAll_iff {p : Tree → Bool} {ts : List Tree} : everyAll p ts = true ↔ ∀ t ∈ ts, t.every p = true := by
  induction ts with
  | nil => simp [everyAll]
  | cons t ts ih => simp [everyAll, ih]

theorem everyMembers_iff {p : Tree → Bool} {ms : List (Text × Tree)} :
    everyMembers p ms = true ↔ ∀ m ∈ ms, m.2.every p = true := by
  induction ms with
  | nil => simp [everyMembers]
  | cons m ms ih => simp only [everyMembers, Bool.and_eq_true, ih, List.forall_mem_cons]

/-! ## Evaluation -/

/-- Free of what the decoder refuses. -/
structure Tree.Clean (limit : Option Nat) (t : Tree) : Prop where
  strict : t.strict = true
  distinct : t.distinct = true
  digits : t.withinDigits limit = true

section
variable {limit : Option Nat}

theorem clean_arr {ts : List Tree} : (Tree.arr ts).Clean limit ↔ ∀ t ∈ ts, t.Clean limit := by
  constructor
  · rintro ⟨h₁, h₂, h₃⟩ t ht
    simp only [Tree.strict, Tree.distinct, Tree.withinDigits, Tree.every, Bool.true_and, strictAll_iff,
      everyAll_iff] at h₁ h₂ h₃
    exact ⟨h₁ t ht, h₂ t ht, h₃ t ht⟩
  · intro h
    refine ⟨?_, ?_, ?_⟩
    · rw [Tree.strict, strictAll_iff]
      exact fun t ht => (h t ht).strict
    · rw [Tree.distinct, Tree.every, Bool.true_and, everyAll_iff]
      exact fun t ht => (h t ht).distinct
    · rw [Tree.withinDigits, Tree.every, Bool.true_and, everyAll_iff]
      exact fun t ht => (h t ht).digits

theorem clean_obj {ms : List (Text × Tree)} :
    (Tree.obj ms).Clean limit ↔ (ms.map Prod.fst).Nodup ∧ ∀ m ∈ ms, m.2.Clean limit := by
  constructor
  · rintro ⟨h₁, h₂, h₃⟩
    simp only [Tree.strict, Tree.distinct, Tree.withinDigits, Tree.every, Bool.true_and, Bool.and_eq_true,
      decide_eq_true_eq, strictMembers_iff, everyMembers_iff] at h₁ h₂ h₃
    exact ⟨h₂.1, fun m hm => ⟨h₁ m hm, h₂.2 m hm, h₃ m hm⟩⟩
  · rintro ⟨hn, h⟩
    refine ⟨?_, ?_, ?_⟩
    · rw [Tree.strict, strictMembers_iff]
      exact fun m hm => (h m hm).strict
    · rw [Tree.distinct, Tree.every, Bool.and_eq_true, decide_eq_true_eq, everyMembers_iff]
      exact ⟨hn, fun m hm => (h m hm).distinct⟩
    · rw [Tree.withinDigits, Tree.every, Bool.true_and, everyMembers_iff]
      exact fun m hm => (h m hm).digits

theorem clean_num {n : Numeral} : (Tree.num n).Clean limit ↔ (n.isInt && tooLong limit n.int) = false := by
  constructor
  · intro h
    exact (Bool.not_eq_true' _).mp h.digits
  · intro h
    exact ⟨rfl, rfl, congrArg Bool.not h⟩

end

theorem forall₂_exists {α β : Type} {R : α → β → Prop} {l : List α} :
    (∃ l', List.Forall₂ R l l') ↔ ∀ a ∈ l, ∃ b, R a b := by
  induction l with
  | nil => simp
  | cons a l ih =>
    rw [List.forall_mem_cons, ← ih]
    constructor
    · rintro ⟨_, h⟩
      obtain ⟨b, bs, hb, hbs, _⟩ := List.forall₂_cons_left_iff.mp h
      exact ⟨⟨b, hb⟩, bs, hbs⟩
    · rintro ⟨⟨b, hb⟩, bs, hbs⟩
      exact ⟨b :: bs, .cons hb hbs⟩

theorem forall₂_value {α β : Type} {R : α → β → Prop} {C : α → Prop} {f : α → β} {l : List α} {l' : List β}
    (h : ∀ a ∈ l, ∀ b, R a b ↔ C a ∧ b = f a) : List.Forall₂ R l l' ↔ (∀ a ∈ l, C a) ∧ l' = l.map f := by
  induction l generalizing l' with
  | nil => simp
  | cons a l ih =>
    rw [List.forall₂_cons_left_iff]
    constructor
    · rintro ⟨b, bs, hb, hbs, rfl⟩
      obtain ⟨ha, rfl⟩ := (h a List.mem_cons_self b).mp hb
      obtain ⟨hl, rfl⟩ := (ih fun x hx => h x (List.mem_cons_of_mem _ hx)).mp hbs
      exact ⟨List.forall_mem_cons.mpr ⟨ha, hl⟩, rfl⟩
    · rintro ⟨hC, rfl⟩
      obtain ⟨ha, hl⟩ := List.forall_mem_cons.mp hC
      exact ⟨f a, l.map f, (h a List.mem_cons_self _).mpr ⟨ha, rfl⟩,
        (ih fun x hx => h x (List.mem_cons_of_mem _ hx)).mpr ⟨hl, rfl⟩, rfl⟩

section
variable {ε : Type} {dec : Decoder ε}
  (hobj : ∀ ps w, dec.objectPairs ps = .ok w ↔ (ps.map Prod.fst).Nodup ∧ w = .obj ps)
  (hconst : ∀ c w, dec.parseConstant c ≠ .ok w)
include hobj hconst

/-- Evaluation succeeds on the clean trees within the depth, with the tree's value. -/
theorem eval_clean {t : Tree} {d : Nat} {v : Value} :
    dec.eval d t = .ok v ↔ (t.depth ≤ d ∧ t.Clean dec.maxStrDigits) ∧ v = t.value := by
  induction t using Tree.nested generalizing d v with
  | null =>
    rw [Decoder.eval]
    exact ⟨fun h => ⟨⟨Nat.zero_le _, rfl, rfl, rfl⟩, (Except.ok.inj h).symm⟩, fun h => h.2 ▸ rfl⟩
  | bool b =>
    rw [Decoder.eval]
    exact ⟨fun h => ⟨⟨Nat.zero_le _, rfl, rfl, rfl⟩, (Except.ok.inj h).symm⟩, fun h => h.2 ▸ rfl⟩
  | str s =>
    rw [Decoder.eval]
    exact ⟨fun h => ⟨⟨Nat.zero_le _, rfl, rfl, rfl⟩, (Except.ok.inj h).symm⟩, fun h => h.2 ▸ rfl⟩
  | const c =>
    rw [Decoder.eval, hooked_ok]
    constructor
    · intro h
      exact absurd h (hconst c v)
    · rintro ⟨⟨_, h⟩, _⟩
      cases h.strict
  | num n =>
    have hdepth : (Tree.num n).depth ≤ d := Nat.zero_le d
    rw [Decoder.eval, Decoder.number, clean_num, Tree.value]
    by_cases hi : n.isInt = true
    · cases hl : tooLong dec.maxStrDigits n.int <;> simp [hi, hdepth, eq_comm]
    · simp [hi, hdepth, eq_comm]
  | arr ts ih =>
    cases d with
    | zero => simp [Decoder.eval, Tree.depth]
    | succ d =>
      have hts : ∀ {vs}, dec.evals d ts = .ok vs ↔ (∀ t ∈ ts, t.depth ≤ d ∧ t.Clean dec.maxStrDigits) ∧
        vs = ts.map Tree.value := by
        intro vs
        rw [evals_ok]
        exact forall₂_value fun t ht v => ih t ht
      have hcond : ((Tree.arr ts).depth ≤ d + 1 ∧ (Tree.arr ts).Clean dec.maxStrDigits) ↔
          ∀ t ∈ ts, t.depth ≤ d ∧ t.Clean dec.maxStrDigits := by
        rw [Tree.depth, Nat.add_le_add_iff_right, depthAll_le, clean_arr]
        exact forall₂_and.symm
      rw [hcond, Tree.value, values_eq]
      constructor
      · intro h
        obtain ⟨d', vs, hd, rfl, hvs⟩ := eval_arr h
        cases hd
        obtain ⟨hall, rfl⟩ := hts.mp (evals_ok.mpr hvs)
        exact ⟨hall, rfl⟩
      · rintro ⟨hall, rfl⟩
        simp only [Decoder.eval, hts.mpr ⟨hall, rfl⟩]
  | obj ms ih =>
    cases d with
    | zero => simp [Decoder.eval, Tree.depth]
    | succ d =>
      have hms : ∀ {ps}, dec.evalMembers d ms = .ok ps ↔
          (∀ m ∈ ms, m.2.depth ≤ d ∧ m.2.Clean dec.maxStrDigits) ∧ ps = ms.map fun m => (m.1, m.2.value) := by
        intro ps
        rw [evalMembers_ok]
        refine forall₂_value fun m hm p => ?_
        rw [ih m hm]
        constructor
        · rintro ⟨hk, hc, hv⟩
          exact ⟨hc, Prod.ext hk.symm hv⟩
        · rintro ⟨hc, rfl⟩
          exact ⟨rfl, hc, rfl⟩
      have hnames : (ms.map fun m => (m.1, m.2.value)).map Prod.fst = ms.map Prod.fst := by
        rw [List.map_map]
        rfl
      have hcond : ((Tree.obj ms).depth ≤ d + 1 ∧ (Tree.obj ms).Clean dec.maxStrDigits) ↔
          (ms.map Prod.fst).Nodup ∧ ∀ m ∈ ms, m.2.depth ≤ d ∧ m.2.Clean dec.maxStrDigits := by
        rw [Tree.depth, Nat.add_le_add_iff_right, depthMembers_le, clean_obj, forall₂_and]
        tauto
      rw [hcond, Tree.value, memberValues_eq]
      constructor
      · intro h
        obtain ⟨d', ps, hd, hw, hps⟩ := eval_obj h
        cases hd
        obtain ⟨hall, rfl⟩ := hms.mp (evalMembers_ok.mpr hps)
        obtain ⟨hn, rfl⟩ := (hobj _ _).mp hw
        rw [hnames] at hn
        exact ⟨⟨hn, hall⟩, rfl⟩
      · rintro ⟨⟨hn, hall⟩, rfl⟩
        simp only [Decoder.eval, hms.mpr ⟨hall, rfl⟩]
        rw [hooked_ok, hobj, hnames]
        exact ⟨hn, rfl⟩

omit hobj hconst in
theorem evals_error {d : Nat} {ts : List Tree} {e : LoadError ε} (h : dec.evals d ts = .error e) :
    ∃ t ∈ ts, dec.eval d t = .error e := by
  induction ts with
  | nil => cases h
  | cons t ts ih =>
    rw [Decoder.evals] at h
    split at h
    · rename_i he
      cases h
      exact ⟨t, List.mem_cons_self, he⟩
    split at h
    · rename_i he
      cases h
      obtain ⟨u, hu, hue⟩ := ih he
      exact ⟨u, List.mem_cons_of_mem _ hu, hue⟩
    · cases h

omit hobj hconst in
theorem evalMembers_error {d : Nat} {ms : List (Text × Tree)} {e : LoadError ε}
    (h : dec.evalMembers d ms = .error e) :
    ∃ m ∈ ms, dec.eval d m.2 = .error e := by
  induction ms with
  | nil => cases h
  | cons m ms ih =>
    rw [Decoder.evalMembers] at h
    split at h
    · rename_i he
      cases h
      exact ⟨m, List.mem_cons_self, he⟩
    split at h
    · rename_i he
      cases h
      obtain ⟨u, hu, hue⟩ := ih he
      exact ⟨u, List.mem_cons_of_mem _ hu, hue⟩
    · cases h

omit hconst in
theorem eval_clean_error {t : Tree} (hc : t.Clean dec.maxStrDigits) {d : Nat} {e : LoadError ε}
    (h : dec.eval d t = .error e) : e = .recursion := by
  induction t using Tree.nested generalizing d with
  | null => rw [Decoder.eval] at h; cases h
  | bool b => rw [Decoder.eval] at h; cases h
  | str s => rw [Decoder.eval] at h; cases h
  | const c => cases hc.strict
  | num n =>
    rw [clean_num, Bool.and_eq_false_iff] at hc
    rw [Decoder.eval, Decoder.number] at h
    split at h
    · rename_i hi
      rw [hi] at hc
      rcases hc with hc | hc
      · cases hc
      · rw [hc] at h
        cases h
    · cases h
  | arr ts ih =>
    cases d with
    | zero => rw [Decoder.eval] at h; cases h; rfl
    | succ d =>
      rw [Decoder.eval] at h
      split at h
      · cases h
      · rename_i he
        cases h
        obtain ⟨t, ht, hte⟩ := evals_error he
        exact ih t ht (clean_arr.mp hc t ht) hte
  | obj ms ih =>
    cases d with
    | zero => rw [Decoder.eval] at h; cases h; rfl
    | succ d =>
      rw [Decoder.eval] at h
      split at h
      · rename_i ps hps
        have hnames : ps.map Prod.fst = ms.map Prod.fst := by
          have hfst := (evalMembers_ok.mp hps).imp fun _ _ hm => hm.1
          exact (List.forall₂_eq_eq_eq ▸ List.forall₂_map_right_iff.mpr (List.forall₂_map_left_iff.mpr hfst)).symm
        have hw : dec.objectPairs ps = .ok (.obj ps) := (hobj _ _).mpr ⟨hnames ▸ (clean_obj.mp hc).1, rfl⟩
        rw [hw] at h
        cases h
      · rename_i he
        cases h
        obtain ⟨m, hm, hme⟩ := evalMembers_error he
        exact ih m hm ((clean_obj.mp hc).2 m hm) hme

end

end Json
