import McpGateway.LoadsComplete
import McpGateway.DumpsSound

/-!
# Reading back what was printed

A value that one decoder built is read unchanged from its printed text by
every decoder that keeps duplicate-free members as they are, unless a double
in it is infinite and the decoder refuses the token.
-/

namespace Json

open Unicode Binary64

section
variable {P : Tree → Prop} (null : P .null) (bool : ∀ b, P (.bool b)) (const : ∀ c, P (.const c))
  (num : ∀ n, P (.num n)) (str : ∀ s, P (.str s)) (arr : ∀ ts, (∀ t ∈ ts, P t) → P (.arr ts))
  (obj : ∀ ms, (∀ m ∈ ms, P m.2) → P (.obj ms))
include null bool const num str arr obj
set_option linter.unusedSectionVars false

mutual
theorem Tree.nested : ∀ t, P t
  | .null => null
  | .bool b => bool b
  | .const c => const c
  | .num n => num n
  | .str s => str s
  | .arr ts => arr ts (Tree.nestedElems ts)
  | .obj ms => obj ms (Tree.nestedMembers ms)
theorem Tree.nestedElems : ∀ ts : List Tree, ∀ t ∈ ts, P t
  | [], _, ht => nomatch ht
  | t :: ts, u, hu => (List.mem_cons.mp hu).elim (fun h => h ▸ Tree.nested t) (Tree.nestedElems ts u)
theorem Tree.nestedMembers : ∀ ms : List (Text × Tree), ∀ m ∈ ms, P m.2
  | [], _, hm => nomatch hm
  | (_, t) :: ms, m, hm => (List.mem_cons.mp hm).elim (fun h => h ▸ Tree.nested t) (Tree.nestedMembers ms m)
end

end

/-! ## Numbers inside -/

mutual
def Tree.numerals : Tree → List Numeral
  | .num n => [n]
  | .arr ts => numeralsAll ts
  | .obj ms => numeralsMembers ms
  | _ => []
def numeralsAll : List Tree → List Numeral
  | [] => []
  | t :: ts => t.numerals ++ numeralsAll ts
def numeralsMembers : List (Text × Tree) → List Numeral
  | [] => []
  | (_, t) :: ms => t.numerals ++ numeralsMembers ms
end

mutual
def Value.floats : Value → List Float64
  | .float x => [x]
  | .arr vs => floatsAll vs
  | .obj ms => floatsMembers ms
  | _ => []
def floatsAll : List Value → List Float64
  | [] => []
  | v :: vs => v.floats ++ floatsAll vs
def floatsMembers : List (Text × Value) → List Float64
  | [] => []
  | (_, v) :: ms => v.floats ++ floatsMembers ms
end

theorem mem_floatsAll {x : Float64} {vs : List Value} : x ∈ floatsAll vs ↔ ∃ v ∈ vs, x ∈ v.floats := by
  induction vs with
  | nil => simp [floatsAll]
  | cons v vs ih => simp [floatsAll, ih]

theorem mem_floatsMembers {x : Float64} {ms : List (Text × Value)} :
    x ∈ floatsMembers ms ↔ ∃ m ∈ ms, x ∈ m.2.floats := by
  induction ms with
  | nil => simp [floatsMembers]
  | cons m ms ih => simp only [floatsMembers, List.mem_append, ih, List.mem_cons, exists_eq_or_imp]

def Numeral.overflows (n : Numeral) : Bool := !n.isInt && overflowAt ≤ n.magnitude

/-! ## Evaluation of lists -/

variable {ε ε' : Type}

theorem forall₂_left {α β : Type} {R : α → β → Prop} {l : List α} {l' : List β} (h : List.Forall₂ R l l') {a : α}
    (ha : a ∈ l) : ∃ b ∈ l', R a b := by
  induction h with
  | nil => cases ha
  | cons hab _ ih =>
    rcases List.mem_cons.mp ha with rfl | ha
    · exact ⟨_, List.mem_cons_self, hab⟩
    · obtain ⟨b, hb, hr⟩ := ih ha
      exact ⟨b, List.mem_cons_of_mem _ hb, hr⟩

section
variable {dec : Decoder ε}

theorem evals_ok {d : Nat} {ts : List Tree} {vs : List Value} :
    dec.evals d ts = .ok vs ↔ List.Forall₂ (fun t v => dec.eval d t = .ok v) ts vs := by
  induction ts generalizing vs with
  | nil => cases vs <;> simp [Decoder.evals]
  | cons t ts ih =>
    rw [List.forall₂_cons_left_iff, Decoder.evals]
    constructor
    · intro h
      split at h
      · cases h
      rename_i v hv
      split at h <;> cases h
      rename_i vs hvs
      exact ⟨v, vs, hv, ih.mp hvs, rfl⟩
    · rintro ⟨v, vs, hv, hvs, rfl⟩
      simp only [hv, ih.mpr hvs]

theorem evalMembers_ok {d : Nat} {ms : List (Text × Tree)} {ps : List (Text × Value)} :
    dec.evalMembers d ms = .ok ps ↔ List.Forall₂ (fun m p => m.1 = p.1 ∧ dec.eval d m.2 = .ok p.2) ms ps := by
  induction ms generalizing ps with
  | nil => cases ps <;> simp [Decoder.evalMembers]
  | cons m ms ih =>
    rw [List.forall₂_cons_left_iff, Decoder.evalMembers]
    constructor
    · intro h
      split at h
      · cases h
      rename_i v hv
      split at h <;> cases h
      rename_i ps hps
      exact ⟨(m.1, v), ps, ⟨rfl, hv⟩, ih.mp hps, rfl⟩
    · rintro ⟨⟨k, v⟩, ps, ⟨hk, hv⟩, hps, rfl⟩
      obtain ⟨k', t⟩ := m
      cases hk
      simp only [hv, ih.mpr hps]

theorem eval_arr {d : Nat} {ts : List Tree} {v : Value} (h : dec.eval d (.arr ts) = .ok v) :
    ∃ d' vs, d = d' + 1 ∧ v = .arr vs ∧ List.Forall₂ (fun t v => dec.eval d' t = .ok v) ts vs := by
  cases d with
  | zero => simp [Decoder.eval] at h
  | succ d =>
    simp only [Decoder.eval] at h
    split at h <;> cases h
    rename_i vs hvs
    exact ⟨d, vs, rfl, rfl, evals_ok.mp hvs⟩

theorem eval_obj {d : Nat} {ms : List (Text × Tree)} {v : Value} (h : dec.eval d (.obj ms) = .ok v) :
    ∃ d' ps, d = d' + 1 ∧ dec.objectPairs ps = .ok v ∧
      List.Forall₂ (fun m p => m.1 = p.1 ∧ dec.eval d' m.2 = .ok p.2) ms ps := by
  cases d with
  | zero => simp [Decoder.eval] at h
  | succ d =>
    simp only [Decoder.eval] at h
    split at h
    · rename_i ps hps
      refine ⟨d, ps, rfl, ?_, evalMembers_ok.mp hps⟩
      cases hw : dec.objectPairs ps with
      | ok w => rw [hw] at h; cases h; rfl
      | error e => rw [hw] at h; cases h
    · cases h

theorem hooked_ok {α : Type} {x : Except ε α} {a : α} : hooked x = .ok a ↔ x = .ok a := by
  cases x <;> simp [hooked]

/-- More room for nesting changes no value. -/
theorem eval_mono {t : Tree} {d d' : Nat} {v : Value} (h : dec.eval d t = .ok v) (hd : d ≤ d') :
    dec.eval d' t = .ok v := by
  induction t using Tree.nested generalizing d d' v with
  | null => simpa [Decoder.eval] using h
  | bool b => simpa [Decoder.eval] using h
  | const c => simpa [Decoder.eval] using h
  | num n => simpa [Decoder.eval] using h
  | str s => simpa [Decoder.eval] using h
  | arr ts ih =>
    obtain ⟨e, vs, rfl, rfl, hvs⟩ := eval_arr h
    obtain ⟨e', rfl⟩ : ∃ e', d' = e' + 1 := ⟨d' - 1, by omega⟩
    have hvs' : dec.evals e' ts = .ok vs := by
      rw [evals_ok, List.forall₂_iff_get] at *
      refine ⟨hvs.1, fun i h₁ h₂ => ih _ (List.get_mem _ _) (hvs.2 i h₁ h₂) (by omega)⟩
    simp only [Decoder.eval, hvs']
  | obj ms ih =>
    obtain ⟨e, ps, rfl, hv, hps⟩ := eval_obj h
    obtain ⟨e', rfl⟩ : ∃ e', d' = e' + 1 := ⟨d' - 1, by omega⟩
    have hps' : dec.evalMembers e' ms = .ok ps := by
      rw [evalMembers_ok, List.forall₂_iff_get] at *
      refine ⟨hps.1, fun i h₁ h₂ => ⟨(hps.2 i h₁ h₂).1, ih _ (List.get_mem _ _) (hps.2 i h₁ h₂).2 (by omega)⟩⟩
    simp only [Decoder.eval, hps', hv, hooked]

/-- A decoder that refuses less gives the same values. -/
theorem eval_transfer {dec' : Decoder ε'} (hobj : ∀ ps w, dec.objectPairs ps = .ok w → dec'.objectPairs ps = .ok w)
    (hconst : ∀ c w, dec.parseConstant c = .ok w → dec'.parseConstant c = .ok w)
    (hdigits : dec'.maxStrDigits = dec.maxStrDigits)
    {t : Tree} {d : Nat} {v : Value} (h : dec.eval d t = .ok v) : dec'.eval d t = .ok v := by
  induction t using Tree.nested generalizing d v with
  | null => simpa [Decoder.eval] using h
  | bool b => simpa [Decoder.eval] using h
  | const c =>
    rw [Decoder.eval, hooked_ok] at h ⊢
    exact hconst c v h
  | num n =>
    rw [Decoder.eval, Decoder.number] at h ⊢
    rw [hdigits]
    split_ifs at h ⊢
    · cases h
      rfl
    · cases h
      rfl
  | str s => simpa [Decoder.eval] using h
  | arr ts ih =>
    obtain ⟨e, vs, rfl, rfl, hvs⟩ := eval_arr h
    have hvs' : dec'.evals e ts = .ok vs := by
      rw [evals_ok, List.forall₂_iff_get] at *
      exact ⟨hvs.1, fun i h₁ h₂ => ih _ (List.get_mem _ _) (hvs.2 i h₁ h₂)⟩
    simp only [Decoder.eval, hvs']
  | obj ms ih =>
    obtain ⟨e, ps, rfl, hv, hps⟩ := eval_obj h
    have hps' : dec'.evalMembers e ms = .ok ps := by
      rw [evalMembers_ok, List.forall₂_iff_get] at *
      exact ⟨hps.1, fun i h₁ h₂ => ⟨(hps.2 i h₁ h₂).1, ih _ (List.get_mem _ _) (hps.2 i h₁ h₂).2⟩⟩
    simp only [Decoder.eval, hps', hobj _ _ hv, hooked]

end

/-! ## Strict trees -/

theorem trees_eq (vs : List Value) : trees vs = vs.map Value.tree := by
  induction vs with
  | nil => rfl
  | cons v vs ih => rw [trees, ih, List.map_cons]

theorem memberTrees_eq (ms : List (Text × Value)) : memberTrees ms = ms.map fun m => (m.1, m.2.tree) := by
  induction ms with
  | nil => rfl
  | cons m ms ih => rw [memberTrees, ih, List.map_cons]

theorem strictAll_iff {ts : List Tree} : strictAll ts = true ↔ ∀ t ∈ ts, t.strict = true := by
  induction ts with
  | nil => simp [strictAll]
  | cons t ts ih => simp [strictAll, ih]

theorem strictMembers_iff {ms : List (Text × Tree)} : strictMembers ms = true ↔ ∀ m ∈ ms, m.2.strict = true := by
  induction ms with
  | nil => simp [strictMembers]
  | cons m ms ih => simp only [strictMembers, Bool.and_eq_true, ih, List.forall_mem_cons]

/-- The only tokens outside RFC 8259 are printed for doubles that are not finite. -/
theorem tree_strict (v : Value) : v.tree.strict = true ↔ ∀ x ∈ v.floats, x.isFinite = true := by
  induction v using Value.nested with
  | null => simp [Value.tree, Tree.strict, Value.floats]
  | bool b => simp [Value.tree, Tree.strict, Value.floats]
  | int z => simp [Value.tree, Tree.strict, Value.floats]
  | float x =>
    match x with
    | .nan => simp [Value.tree, Tree.strict, Value.floats, Float64.isFinite]
    | .inf true => simp [Value.tree, Tree.strict, Value.floats, Float64.isFinite]
    | .inf false => simp [Value.tree, Tree.strict, Value.floats, Float64.isFinite]
    | .finite neg x => simp [Value.tree, Tree.strict, Value.floats, Float64.isFinite]
  | str s => simp [Value.tree, Tree.strict, Value.floats]
  | arr vs ih =>
    simp only [Value.tree, Tree.strict, Value.floats, strictAll_iff, trees_eq, List.forall_mem_map, mem_floatsAll]
    constructor
    · rintro h x ⟨v, hv, hx⟩
      exact (ih v hv).mp (h v hv) x hx
    · intro h v hv
      exact (ih v hv).mpr fun x hx => h x ⟨v, hv, hx⟩
  | obj ms ih =>
    simp only [Value.tree, Tree.strict, Value.floats, strictMembers_iff, memberTrees_eq, List.forall_mem_map,
      mem_floatsMembers]
    constructor
    · rintro h x ⟨m, hm, hx⟩
      exact (ih m hm).mp (h m hm) x hx
    · intro h m hm
      exact (ih m hm).mpr fun x hx => h x ⟨m, hm, hx⟩

theorem eval_strict {dec : Decoder ε} (hconst : ∀ c w, dec.parseConstant c ≠ .ok w) {t : Tree} {d : Nat} {v : Value}
    (h : dec.eval d t = .ok v) : t.strict = true := by
  induction t using Tree.nested generalizing d v with
  | null => rfl
  | bool b => rfl
  | const c =>
    rw [Decoder.eval, hooked_ok] at h
    exact absurd h (hconst c v)
  | num n => rfl
  | str s => rfl
  | arr ts ih =>
    obtain ⟨d, vs, rfl, rfl, hvs⟩ := eval_arr h
    rw [Tree.strict, strictAll_iff]
    intro t ht
    obtain ⟨v, _, hv⟩ := forall₂_left hvs ht
    exact ih t ht hv
  | obj ms ih =>
    obtain ⟨d, ps, rfl, _, hps⟩ := eval_obj h
    rw [Tree.strict, strictMembers_iff]
    intro m hm
    obtain ⟨p, _, hp⟩ := forall₂_left hps hm
    exact ih m hm hp.2

/-! ## Doubles and their literals -/

def literalFloats (ns : List Numeral) : List Float64 := (ns.filter fun n => !n.isInt).map Numeral.toFloat

theorem literalFloats_append (a b : List Numeral) : literalFloats (a ++ b) = literalFloats a ++
    literalFloats b := by
  simp [literalFloats]

theorem magnitude_nonneg (n : Numeral) : 0 ≤ n.magnitude := by
  unfold Numeral.magnitude; positivity

theorem toFloat_finite (n : Numeral) : n.toFloat.isFinite = true ↔ n.magnitude < overflowAt := by
  rw [Numeral.toFloat, Float64.ofRat]
  have hn := ofRat_eq_none (magnitude_nonneg n)
  cases h : ofRat n.magnitude with
  | none => simp [Float64.isFinite, hn.mp h]
  | some x =>
    have hx : ¬ overflowAt ≤ n.magnitude := fun hq => by rw [hn.mpr hq] at h; cases h
    simp [Float64.isFinite, lt_of_not_ge hx]

theorem literalFloats_finite (ns : List Numeral) :
    (∀ x ∈ literalFloats ns, x.isFinite = true) ↔ ∀ n ∈ ns, n.overflows = false := by
  simp only [literalFloats, List.forall_mem_map, toFloat_finite]
  constructor
  · intro h n hn
    cases hi : n.isInt with
    | true => simp [Numeral.overflows, hi]
    | false => simpa [Numeral.overflows, hi] using h n (by simp [hn, hi])
  · intro h n hn
    obtain ⟨hn, hi⟩ := List.mem_filter.mp hn
    have hi' : n.isInt = false := by simpa using hi
    simpa [Numeral.overflows, hi'] using h n hn

section
variable {dec : Decoder ε} (hobj : ∀ ps w, dec.objectPairs ps = .ok w → w = .obj ps)
  (hconst : ∀ c w, dec.parseConstant c ≠ .ok w)
include hobj hconst

/-- The doubles of a value are those its literals denote. -/
theorem eval_floats {t : Tree} {d : Nat} {v : Value} (h : dec.eval d t = .ok v) :
    v.floats = literalFloats t.numerals := by
  induction t using Tree.nested generalizing d v with
  | null => rw [Decoder.eval] at h; cases h; rfl
  | bool b => rw [Decoder.eval] at h; cases h; rfl
  | const c =>
    rw [Decoder.eval, hooked_ok] at h
    exact absurd h (hconst c v)
  | num n =>
    rw [Decoder.eval, Decoder.number] at h
    split at h
    · rename_i hi
      split at h <;> cases h
      simp [Value.floats, Tree.numerals, literalFloats, hi]
    · rename_i hi
      cases h
      simp [Value.floats, Tree.numerals, literalFloats, hi]
  | str s => rw [Decoder.eval] at h; cases h; rfl
  | arr ts ih =>
    obtain ⟨d, vs, rfl, rfl, hvs⟩ := eval_arr h
    rw [Value.floats, Tree.numerals]
    clear h
    induction hvs with
    | nil => rfl
    | cons hv _ ihl =>
      rw [floatsAll, numeralsAll, literalFloats_append, ih _ (by simp) hv, ihl fun t ht =>
        ih t (List.mem_cons_of_mem _ ht)]
  | obj ms ih =>
    obtain ⟨d, ps, rfl, hw, hps⟩ := eval_obj h
    rw [hobj _ _ hw, Value.floats, Tree.numerals]
    clear h hw
    induction hps with
    | nil => rfl
    | cons hv _ ihl =>
      rw [floatsMembers, numeralsMembers, literalFloats_append, ih _ (by simp) hv.2,
        ihl fun m hm => ih m (List.mem_cons_of_mem _ hm)]

theorem eval_finite {t : Tree} {d : Nat} {v : Value} (h : dec.eval d t = .ok v) :
    (∀ x ∈ v.floats, x.isFinite = true) ↔ ∀ n ∈ t.numerals, n.overflows = false := by
  rw [eval_floats hobj hconst h, literalFloats_finite]

end

/-! ## Reading back -/

theorem natOf_lt (ds : List Digit) : natOf ds < 10 ^ ds.length := by
  have h := Nat.ofDigits_lt_base_pow_length (b := 10) (l := ds.reverse.map Fin.val) (by decide) fun x hx => by
    obtain ⟨d, _, rfl⟩ := List.mem_map.mp hx
    exact d.isLt
  simpa [natOf] using h

theorem toDigits_length {n k : Nat} (hk : 0 < k) (h : n < 10 ^ k) : (toDigits n).length ≤ k := by
  unfold toDigits
  split
  · exact hk
  · rw [List.length_reverse, List.length_map]
    exact (Nat.digits_length_le_iff (by decide) n).mpr h

theorem toInt_natAbs (n : Numeral) : n.toInt.natAbs = natOf n.int := by
  unfold Numeral.toInt
  split <;> simp

section
variable {dec : Decoder ε} {dec' : Decoder ε'}
  (hobj : ∀ ps w, dec.objectPairs ps = .ok w → ∃ qs, w = .obj qs ∧ qs ⊆ ps ∧ dec'.objectPairs qs = .ok (.obj qs))
  (hconst : ∀ c w, dec.parseConstant c = .ok w → w = .float c.float)
  (hdigits : ∀ n, dec'.maxStrDigits = some n → 0 < n ∧ dec.maxStrDigits = some n)

include hdigits in
theorem tooLong_toDigits {n : Numeral} (h : tooLong dec.maxStrDigits n.int = false) :
    tooLong dec'.maxStrDigits (toDigits n.toInt.natAbs) = false := by
  cases hm : dec'.maxStrDigits with
  | none => rfl
  | some k =>
    obtain ⟨hk, hm'⟩ := hdigits k hm
    rw [hm'] at h
    simp only [tooLong, decide_eq_false_iff_not, not_lt] at h ⊢
    rw [toInt_natAbs]
    refine toDigits_length hk (lt_of_lt_of_le (natOf_lt n.int) ?_)
    exact Nat.pow_le_pow_right (by decide) h

theorem eval_float {x : Float64} (hx : x.isFinite = true ∨ ∀ c, dec'.parseConstant c = .ok (.float c.float))
    (d : Nat) :
    dec'.eval d (Value.float x).tree = .ok (.float x) := by
  match x, hx with
  | .finite neg x, _ => simp [Value.tree, Decoder.eval, Decoder.number, floatNumeral_not_int, floatNumeral_toFloat]
  | .nan, .inr h => simp [Value.tree, Decoder.eval, h, hooked, Constant.float]
  | .inf false, .inr h => simp [Value.tree, Decoder.eval, h, hooked, Constant.float]
  | .inf true, .inr h => simp [Value.tree, Decoder.eval, h, hooked, Constant.float]

include hobj hconst hdigits in
/-- What one decoder built, the other reads from the printed tree. -/
theorem eval_reread {t : Tree} {d : Nat} {v : Value} (h : dec.eval d t = .ok v)
    (hfloat : ∀ x ∈ v.floats, x.isFinite = true ∨ ∀ c, dec'.parseConstant c = .ok (.float c.float)) :
    dec'.eval d v.tree = .ok v := by
  induction t using Tree.nested generalizing d v with
  | null => rw [Decoder.eval] at h; cases h; rfl
  | bool b => rw [Decoder.eval] at h; cases h; rfl
  | const c =>
    rw [Decoder.eval, hooked_ok] at h
    obtain rfl := hconst c v h
    exact eval_float (hfloat _ (by simp [Value.floats])) d
  | num n =>
    rw [Decoder.eval, Decoder.number] at h
    split at h
    · split at h <;> cases h
      rename_i hl
      have hl' := tooLong_toDigits hdigits (by simpa using hl)
      have hi : (intNumeral n.toInt).isInt = true := rfl
      have hd : (intNumeral n.toInt).int = toDigits n.toInt.natAbs := rfl
      simp [Value.tree, Decoder.eval, Decoder.number, hi, hd, hl', intNumeral_toInt]
    · cases h
      exact eval_float (hfloat _ (by simp [Value.floats])) d
  | str s => rw [Decoder.eval] at h; cases h; rfl
  | arr ts ih =>
    obtain ⟨d, vs, rfl, rfl, hvs⟩ := eval_arr h
    have hvs' : dec'.evals d (trees vs) = .ok vs := by
      rw [evals_ok, trees_eq, List.forall₂_map_left_iff, List.forall₂_same]
      intro v hv
      obtain ⟨t, ht, htv⟩ := forall₂_left hvs.flip hv
      exact ih t ht htv fun x hx => hfloat x (by rw [Value.floats, mem_floatsAll]; exact ⟨v, hv, hx⟩)
    simp only [Value.tree, Decoder.eval, hvs']
  | obj ms ih =>
    obtain ⟨d, ps, rfl, hw, hps⟩ := eval_obj h
    obtain ⟨qs, rfl, hsub, hw'⟩ := hobj _ _ hw
    have hps' : dec'.evalMembers d (memberTrees qs) = .ok qs := by
      rw [evalMembers_ok, memberTrees_eq, List.forall₂_map_left_iff, List.forall₂_same]
      intro p hp
      obtain ⟨m, hm, _, hmp⟩ := forall₂_left hps.flip (hsub hp)
      exact ⟨rfl, ih m hm hmp fun x hx => hfloat x (by rw [Value.floats, mem_floatsMembers]; exact ⟨p, hp, hx⟩)⟩
    simp only [Value.tree, Decoder.eval, hps', hw', hooked]

end

/-! ## Readers and their duplicate policies -/

section
variable {α : Type}

/-- `d[key] = value`. -/
def setMember (key : Text) (value : α) : List (Text × α) → List (Text × α)
  | [] => [(key, value)]
  | (k, v) :: ms => if k = key then (k, value) :: ms else (k, v) :: setMember key value ms

/-- `dict(pairs)`: the first place and the last value of each name. -/
def dictOf (pairs : List (Text × α)) : List (Text × α) := pairs.foldl (fun ms p => setMember p.1 p.2 ms) []

def firstOf (pairs : List (Text × α)) : List (Text × α) :=
  pairs.foldl (fun ms p => if p.1 ∈ ms.map Prod.fst then ms else ms ++ [p]) []

theorem setMember_new {key : Text} {value : α} {ms : List (Text × α)} (h : key ∉ ms.map Prod.fst) :
    setMember key value ms = ms ++ [(key, value)] := by
  induction ms with
  | nil => rfl
  | cons m ms ih =>
    simp only [List.map_cons, List.mem_cons, not_or] at h
    rw [setMember, if_neg (Ne.symm h.1), ih h.2, List.cons_append]

theorem fold_distinct {f : List (Text × α) → Text × α → List (Text × α)}
    (hf : ∀ ms p, p.1 ∉ ms.map Prod.fst → f ms p = ms ++ [p]) (ps ms : List (Text × α))
    (h : ((ms ++ ps).map Prod.fst).Nodup) : ps.foldl f ms = ms ++ ps := by
  induction ps generalizing ms with
  | nil => simp
  | cons p ps ih =>
    have hp : p.1 ∉ ms.map Prod.fst := by
      rw [List.map_append, List.map_cons, List.nodup_append] at h
      intro hm
      exact h.2.2 _ hm _ List.mem_cons_self rfl
    rw [List.foldl_cons, hf ms p hp, ih (ms ++ [p]) (by simpa using h), List.append_assoc, List.singleton_append]

theorem dictOf_distinct {ps : List (Text × α)} (h : (ps.map Prod.fst).Nodup) : dictOf ps = ps := by
  rw [dictOf, fold_distinct (fun ms p hp => setMember_new hp) ps [] (by simpa using h), List.nil_append]

theorem firstOf_distinct {ps : List (Text × α)} (h : (ps.map Prod.fst).Nodup) : firstOf ps = ps := by
  rw [firstOf, fold_distinct (fun ms p hp => if_neg hp) ps [] (by simpa using h), List.nil_append]

theorem mem_setMember {key : Text} {value : α} {ms : List (Text × α)} {m : Text × α}
    (h : m ∈ setMember key value ms) :
    m = (key, value) ∨ m ∈ ms := by
  induction ms with
  | nil => exact Or.inl (List.mem_singleton.mp h)
  | cons p ms ih =>
    rw [setMember] at h
    split at h
    · rename_i hk
      rcases List.mem_cons.mp h with rfl | h
      · exact Or.inl (by rw [hk])
      · exact Or.inr (List.mem_cons_of_mem _ h)
    · rcases List.mem_cons.mp h with rfl | h
      · exact Or.inr List.mem_cons_self
      · exact (ih h).imp_right (List.mem_cons_of_mem _)

theorem setMember_self (key : Text) (value : α) (ms : List (Text × α)) : (key, value) ∈ setMember key value ms := by
  induction ms with
  | nil => exact List.mem_singleton_self _
  | cons p ms ih =>
    rw [setMember]
    split
    · rename_i hk
      rw [← hk]
      exact List.mem_cons_self
    · exact List.mem_cons_of_mem _ ih

theorem setMember_keep {key : Text} {value : α} {ms : List (Text × α)} {m : Text × α} (h : m ∈ ms)
    (hne : m.1 ≠ key) :
    m ∈ setMember key value ms := by
  induction ms with
  | nil => cases h
  | cons p ms ih =>
    rw [setMember]
    rcases List.mem_cons.mp h with rfl | h
    · rw [if_neg hne]
      exact List.mem_cons_self
    · split
      · exact List.mem_cons_of_mem _ h
      · exact List.mem_cons_of_mem _ (ih h)

theorem mem_dictOf {ps : List (Text × α)} {m : Text × α} (h : m ∈ dictOf ps) : m ∈ ps := by
  have hfold : ∀ (ps ms : List (Text × α)), m ∈ ps.foldl (fun ms p => setMember p.1 p.2 ms) ms →
    m ∈ ms ∨ m ∈ ps := by
    intro ps
    induction ps with
    | nil => exact fun ms hm => Or.inl hm
    | cons p ps ih =>
      intro ms hm
      rcases ih _ hm with hm | hm
      · rcases mem_setMember hm with rfl | hm
        · exact Or.inr List.mem_cons_self
        · exact Or.inl hm
      · exact Or.inr (List.mem_cons_of_mem _ hm)
  exact (hfold ps [] h).resolve_left List.not_mem_nil

theorem lookup_ne {name k : Text} (h : name ≠ k) (a : α) (ms : List (Text × α)) :
    ((k, a) :: ms).lookup name = ms.lookup name := by
  have hk : (name == k) = false := beq_false_of_ne h
  rw [List.lookup_cons, hk]

theorem lookup_setMember (key : Text) (value : α) (ms : List (Text × α)) (name : Text) :
    (setMember key value ms).lookup name = if name = key then some value else ms.lookup name := by
  induction ms with
  | nil =>
    rw [setMember]
    by_cases hn : name = key
    · rw [if_pos hn, hn, List.lookup_cons_self]
    · rw [if_neg hn, lookup_ne hn]
  | cons m ms ih =>
    obtain ⟨k, v⟩ := m
    rw [setMember]
    by_cases hk : k = key
    · rw [if_pos hk]
      by_cases hn : name = key
      · rw [if_pos hn, hn, hk, List.lookup_cons_self]
      · rw [if_neg hn, lookup_ne (hk ▸ hn), lookup_ne (hk ▸ hn)]
    · rw [if_neg hk]
      by_cases hn : name = k
      · rw [if_neg (hn ▸ hk), hn, List.lookup_cons_self, List.lookup_cons_self]
      · rw [lookup_ne hn, lookup_ne hn, ih]

/-- The value of a name is its last one. -/
theorem lookup_dictOf (key : Text) (ps : List (Text × α)) : (dictOf ps).lookup key = ps.reverse.lookup key := by
  induction ps using List.reverseRecOn with
  | nil => rfl
  | append_singleton ps p ih =>
    rw [dictOf, List.foldl_append, List.foldl_cons, List.foldl_nil, lookup_setMember, List.reverse_append,
      List.reverse_singleton, List.singleton_append]
    by_cases hk : key = p.1
    · rw [if_pos hk, hk, List.lookup_cons_self]
    · rw [if_neg hk, lookup_ne hk]
      exact ih

theorem setMember_distinct {key : Text} {value : α} {ms : List (Text × α)} (h : (ms.map Prod.fst).Nodup) :
    ((setMember key value ms).map Prod.fst).Nodup := by
  induction ms with
  | nil => simp [setMember]
  | cons m ms ih =>
    rw [List.map_cons, List.nodup_cons] at h
    rw [setMember]
    split
    · rw [List.map_cons, List.nodup_cons]
      exact h
    · rename_i hk
      rw [List.map_cons, List.nodup_cons]
      refine ⟨?_, ih h.2⟩
      intro hm
      obtain ⟨n, hn, hname⟩ := List.mem_map.mp hm
      rcases mem_setMember hn with rfl | hn
      · exact hk hname.symm
      · exact h.1 (List.mem_map.mpr ⟨n, hn, hname⟩)

theorem dictOf_names (ps : List (Text × α)) : ((dictOf ps).map Prod.fst).Nodup := by
  have hfold : ∀ (ps ms : List (Text × α)), (ms.map Prod.fst).Nodup →
      ((ps.foldl (fun ms p => setMember p.1 p.2 ms) ms).map Prod.fst).Nodup := by
    intro ps
    induction ps with
    | nil => exact fun ms h => h
    | cons p ps ih => exact fun ms h => ih _ (setMember_distinct h)
  exact hfold ps [] List.nodup_nil

theorem mem_iff_lookup {ms : List (Text × α)} (h : (ms.map Prod.fst).Nodup) {m : Text × α} :
    m ∈ ms ↔ ms.lookup m.1 = some m.2 := by
  induction ms with
  | nil => simp
  | cons n ms ih =>
    obtain ⟨k, v⟩ := n
    rw [List.map_cons, List.nodup_cons] at h
    by_cases hk : m.1 = k
    · have hm : m ∉ ms := by
        intro hm
        exact h.1 (List.mem_map.mpr ⟨m, hm, hk⟩)
      rw [hk, List.lookup_cons_self]
      simp [hm, hk, Prod.ext_iff, eq_comm]
    · rw [lookup_ne hk, ← ih h.2]
      simp [hk, Prod.ext_iff]

end

inductive DupPolicy
  | keepFirst
  | keepLast
  | reject

def DupPolicy.objectPairs (policy : DupPolicy) (ps : List (Text × Value)) : Except Unit Value :=
  match policy with
  | .keepFirst => .ok (.obj (firstOf ps))
  | .keepLast => .ok (.obj (dictOf ps))
  | .reject => if (ps.map Prod.fst).Nodup then .ok (.obj ps) else .error ()

theorem DupPolicy.objectPairs_distinct (policy : DupPolicy) {ps : List (Text × Value)}
    (h : (ps.map Prod.fst).Nodup) : policy.objectPairs ps = .ok (.obj ps) := by
  cases policy with
  | keepFirst => rw [DupPolicy.objectPairs, firstOf_distinct h]
  | keepLast => rw [DupPolicy.objectPairs, dictOf_distinct h]
  | reject => rw [DupPolicy.objectPairs, if_pos h]

def DupPolicy.decoder (policy : DupPolicy) : Decoder Unit :=
  ⟨policy.objectPairs, fun c => .ok (.float c.float), none⟩

/-- A reader of the language with this policy, taking UTF-8 or the encoding it
detects, gets the value `v` from the bytes. -/
def Reads (policy : DupPolicy) (b : Bytes) (v : Value) : Prop :=
  ∃ l t d, (decodeUtf8 b = some l ∨ decodeBytes b = some l) ∧ Document l t ∧ policy.decoder.eval d t = .ok v

/-- Of one text a reader gets one value, whatever its room for nesting. -/
theorem document_value {dec : Decoder ε} {l : Text} {t t' : Tree} (h : Document l t)
    (h' : Document l t') {d d' : Nat}
    {v v' : Value} (hv : dec.eval d t = .ok v) (hv' : dec.eval d' t' = .ok v') : v = v' := by
  have h1 := eval_mono hv (Nat.le_max_left d d')
  have h2 := eval_mono hv' (Nat.le_max_right d d')
  rw [document_eval dec h h', h2] at h1
  exact (Except.ok.inj h1).symm

/-- Bytes that start with two characters of ASCII other than NUL are UTF-8. -/
theorem decodeBytes_utf8 {b0 b1 : UInt8} {rest : Bytes} (h0 : b0 ≠ 0) (h1 : b1 ≠ 0) (h0' : b0 < 0x80) :
    decodeBytes (b0 :: b1 :: rest) = decodeUtf8 (b0 :: b1 :: rest) := by
  have hfe : (0xFE : UInt8) ≠ b0 := by rintro rfl; revert h0'; decide
  have hff : (0xFF : UInt8) ≠ b0 := by rintro rfl; revert h0'; decide
  have hef : (0xEF : UInt8) ≠ b0 := by rintro rfl; revert h0'; decide
  have h00 : (0x00 : UInt8) ≠ b0 := Ne.symm h0
  have hbom : ∀ c m, c ≠ b0 → hasBom (c :: m) (b0 :: b1 :: rest) = false := by
    intro c m hc
    simp [hasBom, List.isPrefixOf, hc]
  unfold decodeBytes
  rw [hbom _ _ h00, hbom _ _ hff, hbom _ _ hfe, hbom _ _ hff, hbom _ _ hef]
  simp only [Bool.or_false, Bool.false_eq_true, if_false]
  match rest with
  | [] => simp [h0, h1]
  | [b2] => simp
  | b2 :: b3 :: l => simp [h0, h1]

end Json
