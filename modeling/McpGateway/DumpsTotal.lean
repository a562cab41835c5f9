import McpGateway.JsonStrict

/-!
# When a value can be printed and encoded

Printing fails on nesting, on long integers and, if told so, on doubles that
are not finite; encoding what was printed fails on the surrogates of the
value's own strings.
-/

namespace Json

open Unicode Binary64

mutual
def Value.collect {α : Type} (f : Value → List α) : Value → List α
  | .arr vs => f (.arr vs) ++ collectElems f vs
  | .obj ms => f (.obj ms) ++ collectMembers f ms
  | .null => f .null
  | .bool b => f (.bool b)
  | .int z => f (.int z)
  | .float x => f (.float x)
  | .str s => f (.str s)
def collectElems {α : Type} (f : Value → List α) : List Value → List α
  | [] => []
  | v :: vs => v.collect f ++ collectElems f vs
def collectMembers {α : Type} (f : Value → List α) : List (Text × Value) → List α
  | [] => []
  | (_, v) :: ms => v.collect f ++ collectMembers f ms
end

mutual
def Value.depth : Value → Nat
  | .arr vs => depthElems vs + 1
  | .obj ms => depthPairs ms + 1
  | _ => 0
def depthElems : List Value → Nat
  | [] => 0
  | v :: vs => max v.depth (depthElems vs)
def depthPairs : List (Text × Value) → Nat
  | [] => 0
  | (_, v) :: ms => max v.depth (depthPairs ms)
end

def Value.ints (v : Value) : List Int :=
  v.collect fun
    | .int z => [z]
    | _ => []

def Value.texts (v : Value) : List Text :=
  v.collect fun
    | .str s => [s]
    | .obj ms => ms.map Prod.fst
    | _ => []

theorem mem_collectElems {α : Type} {f : Value → List α} {a : α} {vs : List Value} :
    a ∈ collectElems f vs ↔ ∃ v ∈ vs, a ∈ v.collect f := by
  induction vs with
  | nil => simp [collectElems]
  | cons v vs ih => simp [collectElems, ih]

theorem mem_collectMembers {α : Type} {f : Value → List α} {a : α} {ms : List (Text × Value)} :
    a ∈ collectMembers f ms ↔ ∃ m ∈ ms, a ∈ m.2.collect f := by
  induction ms with
  | nil => simp [collectMembers]
  | cons m ms ih => simp only [collectMembers, List.mem_append, ih, List.mem_cons, exists_eq_or_imp]

theorem mem_texts_arr {vs : List Value} {s : Text} : s ∈ (Value.arr vs).texts ↔ ∃ v ∈ vs, s ∈ v.texts :=
  mem_collectElems

theorem mem_texts_obj {ms : List (Text × Value)} {s : Text} :
    s ∈ (Value.obj ms).texts ↔ s ∈ ms.map Prod.fst ∨ ∃ m ∈ ms, s ∈ m.2.texts :=
  List.mem_append.trans (or_congr_right mem_collectMembers)

theorem depthElems_le {vs : List Value} {d : Nat} : depthElems vs ≤ d ↔ ∀ v ∈ vs, v.depth ≤ d := by
  induction vs with
  | nil => simp [depthElems]
  | cons v vs ih => simp [depthElems, ih]

theorem depthPairs_le {ms : List (Text × Value)} {d : Nat} : depthPairs ms ≤ d ↔ ∀ m ∈ ms, m.2.depth ≤ d := by
  induction ms with
  | nil => simp [depthPairs]
  | cons m ms ih => simp only [depthPairs, Nat.max_le, ih, List.forall_mem_cons]

section
variable {enc : Encoder}

/-! ## Printing -/

theorem dumpsElems_ok {d : Nat} {vs : List Value} {l : List Text} :
    enc.dumpsElems d vs = .ok l ↔ List.Forall₂ (fun v s => enc.dumps d v = .ok s) vs l := by
  induction vs generalizing l with
  | nil => cases l <;> simp [Encoder.dumpsElems]
  | cons v vs ih =>
    rw [List.forall₂_cons_left_iff, Encoder.dumpsElems]
    constructor
    · intro h
      split at h
      · cases h
      rename_i s hs
      split at h <;> cases h
      rename_i l hl
      exact ⟨s, l, hs, ih.mp hl, rfl⟩
    · rintro ⟨s, l, hs, hl, rfl⟩
      simp only [hs, ih.mpr hl]

theorem dumpsMembers_ok {d : Nat} {ms : List (Text × Value)} {l : List Text} :
    enc.dumpsMembers d ms = .ok l ↔
      List.Forall₂ (fun m s => ∃ s', enc.dumps d m.2 = .ok s' ∧ s = strText enc.ensureAscii m.1 ++ ch ':' :: s')
      ms l := by
  induction ms generalizing l with
  | nil => cases l <;> simp [Encoder.dumpsMembers]
  | cons m ms ih =>
    rw [List.forall₂_cons_left_iff, Encoder.dumpsMembers]
    constructor
    · intro h
      split at h
      · cases h
      rename_i s hs
      split at h <;> cases h
      rename_i l hl
      exact ⟨_, l, ⟨s, hs, rfl⟩, ih.mp hl, rfl⟩
    · rintro ⟨_, l, ⟨s, hs, rfl⟩, hl, rfl⟩
      simp only [hs, ih.mpr hl]

theorem dumps_arr {d : Nat} {vs : List Value} :
    (∃ s, enc.dumps (d + 1) (.arr vs) = .ok s) ↔ ∀ v ∈ vs, ∃ s, enc.dumps d v = .ok s := by
  rw [← forall₂_exists, Encoder.dumps]
  simp only [← dumpsElems_ok]
  cases enc.dumpsElems d vs <;> simp

theorem dumps_obj {d : Nat} {ms : List (Text × Value)} :
    (∃ s, enc.dumps (d + 1) (.obj ms) = .ok s) ↔ ∀ m ∈ ms, ∃ s, enc.dumps d m.2 = .ok s := by
  have hms : (∀ m ∈ ms, ∃ s, enc.dumps d m.2 = .ok s) ↔ ∃ l, enc.dumpsMembers d ms = .ok l := by
    simp only [dumpsMembers_ok]
    rw [forall₂_exists]
    simp
  rw [hms, Encoder.dumps]
  cases enc.dumpsMembers d ms <;> simp

/-- A value the encoder has no objection to but depth. -/
structure Value.Printable (enc : Encoder) (v : Value) : Prop where
  ints : ∀ z ∈ v.ints, tooLong enc.maxStrDigits (toDigits z.natAbs) = false
  floats : enc.allowNan = true ∨ ∀ x ∈ v.floats, x.isFinite = true

theorem printable_arr {vs : List Value} : (Value.arr vs).Printable enc ↔ ∀ v ∈ vs, v.Printable enc := by
  constructor
  · rintro ⟨hi, hf⟩ v hv
    refine ⟨fun z hz => hi z ?_, hf.imp_right fun hf x hx => hf x ?_⟩
    · exact mem_collectElems.mpr ⟨v, hv, hz⟩
    · exact mem_floatsAll.mpr ⟨v, hv, hx⟩
  · intro h
    refine ⟨fun z hz => ?_, ?_⟩
    · obtain ⟨v, hv, hz⟩ := mem_collectElems.mp hz
      exact (h v hv).ints z hz
    · by_cases ha : enc.allowNan = true
      · exact Or.inl ha
      · refine Or.inr fun x hx => ?_
        obtain ⟨v, hv, hx⟩ := mem_floatsAll.mp hx
        exact (h v hv).floats.resolve_left ha x hx

theorem printable_obj {ms : List (Text × Value)} : (Value.obj ms).Printable enc ↔ ∀ m ∈ ms, m.2.Printable enc := by
  constructor
  · rintro ⟨hi, hf⟩ m hm
    refine ⟨fun z hz => hi z ?_, hf.imp_right fun hf x hx => hf x ?_⟩
    · exact mem_collectMembers.mpr ⟨m, hm, hz⟩
    · exact mem_floatsMembers.mpr ⟨m, hm, hx⟩
  · intro h
    refine ⟨fun z hz => ?_, ?_⟩
    · obtain ⟨m, hm, hz⟩ := mem_collectMembers.mp hz
      exact (h m hm).ints z hz
    · by_cases ha : enc.allowNan = true
      · exact Or.inl ha
      · refine Or.inr fun x hx => ?_
        obtain ⟨m, hm, hx⟩ := mem_floatsMembers.mp hx
        exact (h m hm).floats.resolve_left ha x hx

theorem printable_word (enc : Encoder) {v : Value} (hi : v.ints = []) (hf : v.floats = []) : v.Printable enc := by
  refine ⟨fun z hz => ?_, Or.inr fun x hx => ?_⟩
  · rw [hi] at hz
    cases hz
  · rw [hf] at hx
    cases hx

theorem float_printable {x : Float64} : (Value.float x).Printable enc ↔ enc.allowNan = true ∨
    x.isFinite = true := by
  have hx : (Value.float x).floats = [x] := rfl
  have hz : (Value.float x).ints = [] := rfl
  constructor
  · intro h
    simpa [hx] using h.floats
  · intro h
    refine ⟨?_, ?_⟩
    · simp [hz]
    · simpa [hx] using h

theorem int_printable {z : Int} : (Value.int z).Printable enc ↔
    tooLong enc.maxStrDigits (toDigits z.natAbs) = false := by
  have hx : (Value.int z).floats = [] := rfl
  have hz : (Value.int z).ints = [z] := rfl
  constructor
  · intro h
    simpa [hz] using h.ints
  · intro h
    refine ⟨?_, ?_⟩
    · simpa [hz] using h
    · simp [hx]

theorem float_total {x : Float64} : (∃ s, enc.float x = .ok s) ↔ enc.allowNan = true ∨ x.isFinite = true := by
  unfold Encoder.float
  match x with
  | .finite neg x => simp [Float64.isFinite]
  | .nan => cases enc.allowNan <;> simp [Float64.isFinite]
  | .inf true => cases enc.allowNan <;> simp [Float64.isFinite]
  | .inf false => cases enc.allowNan <;> simp [Float64.isFinite]

theorem float_text {x : Float64} {s : Text} (h : enc.float x = .ok s) : (∃ n : Numeral, s = n.text) ∨ ∃ c :
    Constant, s = c.text := by
  have hconst : ∀ c : Constant, (if enc.allowNan then .ok c.text else .error .notFinite : Except DumpError Text) =
    .ok s →
      s = c.text := by
    intro c hc
    split at hc <;> cases hc
    rfl
  cases x with
  | finite neg x => exact Or.inl ⟨_, (Except.ok.inj h).symm⟩
  | nan => exact Or.inr ⟨_, hconst _ h⟩
  | inf neg =>
    cases neg with
    | false => exact Or.inr ⟨_, hconst _ h⟩
    | true => exact Or.inr ⟨_, hconst _ h⟩

theorem int_total {z : Int} : (∃ s, enc.int z = .ok s) ↔ tooLong enc.maxStrDigits (toDigits z.natAbs) = false := by
  rw [Encoder.int]
  cases tooLong enc.maxStrDigits (toDigits z.natAbs) <;> simp

/-- Printing succeeds exactly within the depth, the digits and the doubles allowed. -/
theorem dumps_total {v : Value} {d : Nat} : (∃ s, enc.dumps d v = .ok s) ↔ v.depth ≤ d ∧ v.Printable enc := by
  induction v using Value.nested generalizing d with
  | null => simp [Encoder.dumps, Value.depth, printable_word enc (v := .null) rfl rfl]
  | bool b => simp [Encoder.dumps, Value.depth, printable_word enc (v := .bool b) rfl rfl]
  | str s => simp [Encoder.dumps, Value.depth, printable_word enc (v := .str s) rfl rfl]
  | int z => simp [Encoder.dumps, Value.depth, int_printable, int_total]
  | float x => simp [Encoder.dumps, Value.depth, float_printable, float_total]
  | arr vs ih =>
    cases d with
    | zero => simp [Encoder.dumps, Value.depth]
    | succ d =>
      rw [dumps_arr, Value.depth, Nat.add_le_add_iff_right, depthElems_le, printable_arr, ← forall₂_and]
      exact forall₂_congr fun v hv => ih v hv
  | obj ms ih =>
    cases d with
    | zero => simp [Encoder.dumps, Value.depth]
    | succ d =>
      rw [dumps_obj, Value.depth, Nat.add_le_add_iff_right, depthPairs_le, printable_obj, ← forall₂_and]
      exact forall₂_congr fun m hm => ih m hm

/-! ## Encoding -/

theorem forall_commas {P : CodePoint → Prop} {close : CodePoint} (hclose : P close) (hcomma : P (ch ','))
    (l : List Text) :
    (∀ c ∈ commas close l, P c) ↔ ∀ s ∈ l, ∀ c ∈ s, P c := by
  induction l with
  | nil => simp [commas, hclose]
  | cons s l ih =>
    cases l with
    | nil => simp [commas, or_imp, forall_and, hclose]
    | cons s' l => simp [commas, or_imp, forall_and, hcomma, ih]

theorem forall₂_forall {α β : Type} {R : α → β → Prop} {P : α → Prop} {Q : β → Prop} {l : List α} {l' : List β}
    (h : List.Forall₂ R l l') (hR : ∀ a ∈ l, ∀ b, R a b → (Q b ↔ P a)) : (∀ b ∈ l', Q b) ↔ ∀ a ∈ l, P a := by
  induction h with
  | nil => simp
  | cons hab _ ih =>
    rw [List.forall_mem_cons, List.forall_mem_cons, hR _ List.mem_cons_self _ hab,
      ih fun a ha => hR a (List.mem_cons_of_mem _ ha)]

def Scalar (s : Text) : Prop := ∀ c ∈ s, isSurrogate c.val = false

theorem scalar_digits (ds : List Digit) : Scalar (digitText ds) := by
  intro c hc
  obtain ⟨d, _, rfl⟩ := List.mem_map.mp hc
  have hd : digitCh d = ⟨48 + d.val, _⟩ := rfl
  simp [hd, isSurrogate]
  omega

theorem scalar_append {a b : Text} : Scalar (a ++ b) ↔ Scalar a ∧ Scalar b := by
  simp [Scalar, or_imp, forall_and]

theorem scalar_cons {c : CodePoint} {s : Text} : Scalar (c :: s) ↔ isSurrogate c.val = false ∧ Scalar s := by
  simp [Scalar]

theorem scalar_nil : Scalar [] := fun _ h => by cases h

theorem scalar_num (n : Numeral) : Scalar n.text := by
  obtain ⟨neg, ip, fp, ep⟩ := n
  have hneg : Scalar (if neg then [ch '-'] else []) := by cases neg <;> (unfold Scalar; decide)
  have hfrac : Scalar (fracText fp) := by
    cases fp with
    | none => exact scalar_nil
    | some ds => exact scalar_cons.mpr ⟨by decide, scalar_digits ds⟩
  have hexp : Scalar (expText ep) := by
    cases ep with
    | none => exact scalar_nil
    | some e =>
      obtain ⟨neg, ds⟩ := e
      refine scalar_cons.mpr ⟨by decide, scalar_cons.mpr ⟨?_, scalar_digits ds⟩⟩
      cases neg <;> decide
  rw [Numeral.text]
  simp only [scalar_append]
  exact ⟨hneg, scalar_digits ip, hfrac, hexp⟩

theorem scalar_unitText (n : Nat) : Scalar (unitText n) := by
  have hdigit : ∀ n, isSurrogate (hexDigit n).val = false := by
    intro n
    unfold hexDigit
    split
    · simp only [isSurrogate, Bool.and_eq_false_iff, decide_eq_false_iff_not]
      split <;> omega
    · decide
  have hslash : isSurrogate (ch '\\').val = false := by decide
  have hu : isSurrogate (ch 'u').val = false := by decide
  simp [unitText, scalar_cons, scalar_nil, hdigit, hslash, hu]

theorem not_surrogate {n : Nat} (h : n < 0xD800) : isSurrogate n = false := by
  simp only [isSurrogate, Bool.and_eq_false_iff, decide_eq_false_iff_not]
  omega

theorem scalar_short {e : CodePoint} (h : e.val < 0x7F) : Scalar [ch '\\', e] := by
  refine scalar_cons.mpr ⟨by decide, scalar_cons.mpr ⟨?_, scalar_nil⟩⟩
  apply not_surrogate
  omega

theorem scalar_escapeChar (c : CodePoint) : Scalar (escapeChar false c) ↔ isSurrogate c.val = false := by
  have hform := escapeChar_form false c
  generalize escapeChar false c = t at hform
  cases hform with
  | short _ hc he => exact iff_of_true (scalar_short he) (not_surrogate (by omega))
  | plain =>
    rw [scalar_cons]
    exact ⟨fun h => h.1, fun h => ⟨h, scalar_nil⟩⟩
  | unit _ hcontrol =>
    have hc : c.val < 0x20 := hcontrol rfl
    exact iff_of_true (scalar_unitText _) (not_surrogate (by omega))
  | units hascii => cases hascii

theorem scalar_strText (s : Text) : Scalar (strText false s) ↔ Scalar s := by
  have hs : Scalar (s.flatMap (escapeChar false)) ↔ Scalar s := by
    induction s with
    | nil => simp
    | cons c s ih => rw [List.flatMap_cons, scalar_append, scalar_escapeChar, scalar_cons, ih]
  have hquote : isSurrogate (ch '"').val = false := by decide
  rw [strText, scalar_cons, scalar_append, hs]
  simp [hquote, Scalar]

/-- The printed text is free of surrogates when the strings of the value are printed so. -/
theorem dumps_scalar_of {Q : Text → Prop} (hstr : ∀ k, Scalar (strText enc.ensureAscii k) ↔ Q k) {v : Value}
    {d : Nat} {s : Text} (h : enc.dumps d v = .ok s) : Scalar s ↔ ∀ x ∈ v.texts, Q x := by
  induction v using Value.nested generalizing d s with
  | null =>
    rw [Encoder.dumps] at h
    cases h
    exact iff_of_true (by unfold Scalar; decide) (fun x hx => by cases hx)
  | bool b =>
    rw [Encoder.dumps] at h
    cases h
    refine iff_of_true ?_ (fun x hx => by cases hx)
    cases b <;> (unfold Scalar; decide)
  | int z =>
    rw [Encoder.dumps, Encoder.int] at h
    split at h <;> cases h
    exact iff_of_true (scalar_num _) (fun x hx => by cases hx)
  | float x =>
    rw [Encoder.dumps] at h
    refine iff_of_true ?_ (fun x hx => by cases hx)
    have hconst : ∀ c : Constant, Scalar c.text := by intro c; cases c <;> (unfold Scalar; decide)
    rcases float_text h with ⟨n, rfl⟩ | ⟨c, rfl⟩
    · exact scalar_num n
    · exact hconst c
  | str k =>
    rw [Encoder.dumps] at h
    cases h
    have hk : (Value.str k).texts = [k] := rfl
    rw [hstr, hk, List.forall_mem_singleton]
  | arr vs ih =>
    cases d with
    | zero => cases h
    | succ d =>
      rw [Encoder.dumps] at h
      split at h <;> cases h
      rename_i l hl
      have hel : (∀ t ∈ l, Scalar t) ↔ ∀ v ∈ vs, ∀ x ∈ v.texts, Q x :=
        forall₂_forall (dumpsElems_ok.mp hl) fun v hv t ht => ih v hv ht
      have hopen : isSurrogate (ch '[').val = false := by decide
      rw [scalar_cons, Scalar, forall_commas (by decide) (by decide)]
      simp only [hopen, true_and, mem_texts_arr]
      refine hel.trans ⟨?_, ?_⟩
      · rintro h x ⟨v, hv, hx⟩
        exact h v hv x hx
      · intro h v hv x hx
        exact h x ⟨v, hv, hx⟩
  | obj ms ih =>
    cases d with
    | zero => cases h
    | succ d =>
      rw [Encoder.dumps] at h
      split at h <;> cases h
      rename_i l hl
      have hcolon : isSurrogate (ch ':').val = false := by decide
      have hel : (∀ t ∈ l, Scalar t) ↔ ∀ m ∈ ms, Q m.1 ∧ ∀ x ∈ m.2.texts, Q x := by
        refine forall₂_forall (dumpsMembers_ok.mp hl) fun m hm t ht => ?_
        obtain ⟨s', hs', rfl⟩ := ht
        rw [scalar_append, hstr, scalar_cons, ih m hm hs']
        simp [hcolon]
      have hopen : isSurrogate (ch '{').val = false := by decide
      rw [scalar_cons, Scalar, forall_commas (by decide) (by decide)]
      simp only [hopen, true_and, mem_texts_obj]
      refine hel.trans ⟨?_, ?_⟩
      · rintro h x (hx | ⟨m, hm, hx⟩)
        · obtain ⟨m, hm, rfl⟩ := List.mem_map.mp hx
          exact (h m hm).1
        · exact (h m hm).2 x hx
      · intro h m hm
        exact ⟨h m.1 (Or.inl (List.mem_map_of_mem hm)), fun x hx => h x (Or.inr ⟨m, hm, hx⟩)⟩

variable (hascii : enc.ensureAscii = false)
include hascii

theorem dumps_scalar {v : Value} {d : Nat} {s : Text} (h : enc.dumps d v = .ok s) : Scalar s ↔
    ∀ x ∈ v.texts, Scalar x := by
  apply dumps_scalar_of _ h
  rw [hascii]
  exact scalar_strText

theorem dumps_encodes {v : Value} {d : Nat} {s : Text} (h : enc.dumps d v = .ok s) :
    (∃ b, encodeUtf8 s = some b) ↔ ∀ x ∈ v.texts, Scalar x := by
  rw [encodeUtf8_some, ← dumps_scalar hascii h]
  rfl

end

end Json
