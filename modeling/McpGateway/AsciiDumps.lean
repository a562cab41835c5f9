import McpGateway.DumpsTotal

/-!
# Printing in ASCII

With `ensure_ascii` the characters outside ASCII are printed as code units. A
reader joins the units of two surrogates in a row, whether one character was
printed or two.
-/

namespace Json

open Unicode Binary64

/-! ## Surrogates in a row -/

def joined {hi lo : CodePoint} (hhi : isHigh hi.val = true) (hlo : isLow lo.val = true) : CodePoint :=
  ⟨join hi.val lo.val, join_lt hhi hlo⟩

/-- Two surrogates in a row, high then low, are joined. -/
def joinPairs : Text → Text
  | [] => []
  | [c] => [c]
  | hi :: lo :: s =>
    if h : isHigh hi.val = true ∧ isLow lo.val = true then joined h.1 h.2 :: joinPairs s
    else hi :: joinPairs (lo :: s)

def paired : Text → Bool
  | [] => false
  | [_] => false
  | hi :: lo :: s => (isHigh hi.val && isLow lo.val) || paired (lo :: s)

theorem joinPairs_length (s : Text) : (joinPairs s).length ≤ s.length := by
  induction s using joinPairs.induct with
  | case1 => exact Nat.le_refl _
  | case2 c => exact Nat.le_refl _
  | case3 hi lo s h ih =>
    rw [joinPairs, dif_pos h]
    simp only [List.length_cons]
    omega
  | case4 hi lo s h ih =>
    rw [joinPairs, dif_neg h]
    simpa using ih

/-- Joining leaves exactly the texts without a pair. -/
theorem joinPairs_self (s : Text) : joinPairs s = s ↔ paired s = false := by
  induction s using joinPairs.induct with
  | case1 => exact iff_of_true rfl rfl
  | case2 c => exact iff_of_true rfl rfl
  | case3 hi lo s h ih =>
    have hlen := joinPairs_length s
    rw [joinPairs, dif_pos h, paired, h.1, h.2]
    refine iff_of_false (fun he => ?_) (by simp)
    have := congrArg List.length he
    simp only [List.length_cons] at this
    omega
  | case4 hi lo s h ih =>
    have hpair : (isHigh hi.val && isLow lo.val) = false := by
      rw [← Bool.not_eq_true, Bool.and_eq_true]
      exact h
    rw [joinPairs, dif_neg h, paired, hpair, Bool.false_or, ← ih]
    simp

/-! ## The items of a string -/

inductive PrintedAs : CodePoint → List StrItem → Prop
  | raw {c} : isHigh c.val = false → isLow c.val = false → PrintedAs c [.raw c]
  | unit {c} : PrintedAs c [.unit c]
  | units {c hi lo} : isHigh hi.val = true → isLow lo.val = true → join hi.val lo.val = c.val →
      PrintedAs c [.unit hi, .unit lo]

theorem high_not_low {n : Nat} (h : isHigh n = true) : isLow n = false := by
  simp [isHigh, isLow] at h ⊢
  omega

theorem join_supplementary {hi lo : Nat} : isHigh (join hi lo) = false ∧ isLow (join hi lo) = false := by
  have h : 0x10000 ≤ join hi lo := by
    unfold join
    omega
  simp [isHigh, isLow]
  omega

theorem printedAs_high {c : CodePoint} {is : List StrItem} (h : PrintedAs c is) (hc : isHigh c.val = true) :
    is = [.unit c] := by
  cases h with
  | raw hhigh => rw [hhigh] at hc; cases hc
  | unit => rfl
  | units _ _ hjoin => rw [← hjoin, join_supplementary.1] at hc; cases hc

theorem printedAs_low {c : CodePoint} {is : List StrItem} (h : PrintedAs c is) (hc : isLow c.val = true) :
    is = [.unit c] := by
  cases h with
  | raw _ hlow => rw [hlow] at hc; cases hc
  | unit => rfl
  | units _ _ hjoin => rw [← hjoin, join_supplementary.2] at hc; cases hc

/-- No unit of `l` completes a pair with `c`. -/
def Apart (c : CodePoint) (l : List StrItem) : Prop :=
  ∀ u, l.head? = some (.unit u) → ¬ (isHigh c.val = true ∧ isLow u.val = true)

theorem joinItems_apart {c : CodePoint} {is l : List StrItem} (h : PrintedAs c is) (hl : Apart c l) :
    joinItems (is ++ l) = c :: joinItems l := by
  cases h with
  | raw => rfl
  | unit =>
    cases l with
    | nil => rfl
    | cons i l =>
      cases i with
      | raw d => rfl
      | unit u =>
        rw [List.singleton_append, joinItems, dif_neg (hl u rfl)]
  | units hhigh hlow hjoin =>
    simp only [List.cons_append, List.nil_append]
    have hc : (⟨_, join_lt hhigh hlow⟩ : CodePoint) = c := CodePoint.ext' hjoin
    rw [joinItems, dif_pos ⟨hhigh, hlow⟩, hc]

theorem apart_cons {c d : CodePoint} {is l : List StrItem} (h : PrintedAs d is)
    (hpair : ¬ (isHigh c.val = true ∧ isLow d.val = true)) : Apart c (is ++ l) := by
  intro u hu
  cases h with
  | raw => cases hu
  | unit => cases hu; exact hpair
  | units hhigh _ _ =>
    cases hu
    intro hcu
    rw [high_not_low hhigh] at hcu
    cases hcu.2

inductive TextPrintedAs : Text → List StrItem → Prop
  | nil : TextPrintedAs [] []
  | cons {c is s l} : PrintedAs c is → TextPrintedAs s l → TextPrintedAs (c :: s) (is ++ l)

/-- Reading what was printed joins the pairs. -/
theorem joinItems_printedAs {s : Text} {l : List StrItem} (h : TextPrintedAs s l) : joinItems l = joinPairs s := by
  induction s using joinPairs.induct generalizing l with
  | case1 => cases h; rfl
  | case2 c =>
    obtain _ | ⟨hc, hnil⟩ := h
    cases hnil
    apply joinItems_apart hc
    intro u hu
    cases hu
  | case3 hi lo s hpair ih =>
    obtain _ | ⟨hhi, hrest⟩ := h
    obtain _ | ⟨hlo, hs⟩ := hrest
    rw [printedAs_high hhi hpair.1, printedAs_low hlo hpair.2, joinPairs, dif_pos hpair, ← ih hs]
    simp only [List.cons_append, List.nil_append]
    rw [joinItems, dif_pos hpair, joined]
  | case4 hi lo s hpair ih =>
    obtain _ | ⟨hhi, hrest⟩ := h
    rw [joinPairs, dif_neg hpair, ← ih hrest]
    apply joinItems_apart hhi
    obtain _ | ⟨hlo, hs⟩ := hrest
    exact apart_cons hlo hpair

/-! ## Strings -/

theorem printed_raw {c : CodePoint} (h : c.val < 0x7F) : PrintedAs c [.raw c] := by
  apply PrintedAs.raw <;> simp [isHigh, isLow] <;> omega

theorem escapeChar_ascii (c : CodePoint) {l : Text} {is : List StrItem} {r : Text} (h : StrItems l is r) :
    ∃ is', PrintedAs c is' ∧ StrItems (escapeChar true c ++ l) (is' ++ is) r := by
  have hform := escapeChar_form true c
  generalize escapeChar true c = t at hform
  cases hform with
  | short he hc => exact ⟨_, printed_raw hc, .escape he h⟩
  | plain hquote hslash hlow hascii => exact ⟨_, printed_raw (hascii rfl), .char hquote hslash hlow h⟩
  | unit hlt => exact ⟨_, .unit, .unit (hex4_unitText hlt) h⟩
  | units _ hge =>
    have hc := c.lt
    have hhigh : 0xD800 + (c.val - 0x10000) / 0x400 < 0x10000 := by omega
    have hlow : 0xDC00 + (c.val - 0x10000) % 0x400 < 0x10000 := by omega
    refine ⟨[.unit ⟨_, Nat.lt_trans hhigh (by decide)⟩, .unit ⟨_, Nat.lt_trans hlow (by decide)⟩],
      .units ?_ ?_ ?_, ?_⟩
    · simp [isHigh]
      omega
    · simp [isLow]
      omega
    · unfold join
      dsimp only
      omega
    · rw [List.append_assoc]
      exact .unit (hex4_unitText hhigh) (.unit (hex4_unitText hlow) h)

theorem strBody_ascii (s r : Text) : StrBody (s.flatMap (escapeChar true) ++ ch '"' :: r) (joinPairs s) r := by
  have hitems : ∃ is, TextPrintedAs s is ∧ StrItems (s.flatMap (escapeChar true) ++ ch '"' :: r) is r := by
    induction s with
    | nil => exact ⟨[], .nil, .close⟩
    | cons c s ih =>
      obtain ⟨is, hs, his⟩ := ih
      obtain ⟨is', hc, hi⟩ := escapeChar_ascii c his
      refine ⟨is' ++ is, .cons hc hs, ?_⟩
      rwa [List.flatMap_cons, List.append_assoc]
  obtain ⟨is, hs, his⟩ := hitems
  have hb := StrBody.mk his
  rwa [joinItems_printedAs hs] at hb

theorem scalar_ascii (s : Text) : Scalar (strText true s) := by
  have hchar : ∀ c, Scalar (escapeChar true c) := by
    intro c
    have hform := escapeChar_form true c
    generalize escapeChar true c = t at hform
    cases hform with
    | short _ _ he => exact scalar_short he
    | plain _ _ _ hascii =>
      have hc : c.val < 0x7F := hascii rfl
      exact scalar_cons.mpr ⟨not_surrogate (by omega), scalar_nil⟩
    | unit => exact scalar_unitText _
    | units => exact scalar_append.mpr ⟨scalar_unitText _, scalar_unitText _⟩
  have hs : Scalar (s.flatMap (escapeChar true)) := by
    intro c hc
    obtain ⟨d, _, hd⟩ := List.mem_flatMap.mp hc
    exact hchar d c hd
  have hquote : isSurrogate (ch '"').val = false := by decide
  rw [strText, scalar_cons, scalar_append]
  exact ⟨hquote, hs, by simp [scalar_cons, scalar_nil, hquote]⟩

/-! ## Documents -/

section
variable {enc : Encoder} (hascii : enc.ensureAscii = true)
include hascii

/-- The text printed in ASCII derives the tree of the value with its pairs joined. -/
theorem dumps_ascii {v : Value} {d : Nat} {s : Text} (h : enc.dumps d v = .ok s) :
    Document s (v.mapTexts joinPairs).tree := by
  apply dumps_derives _ h
  rw [hascii]
  exact strBody_ascii

theorem dumps_ascii_encodes {v : Value} {d : Nat} {s : Text} (h : enc.dumps d v = .ok s) :
    ∃ b, encodeUtf8 s = some b := by
  have hstr : ∀ k, Scalar (strText enc.ensureAscii k) ↔ True := by
    intro k
    rw [hascii]
    exact iff_true_intro (scalar_ascii k)
  rw [encodeUtf8_some]
  exact (dumps_scalar_of hstr h).mpr fun _ _ => trivial

end

/-! ## Reading back -/

theorem dictOf_length {α : Type} {ps : List (Text × α)} (h : (dictOf ps).length = ps.length) :
    (ps.map Prod.fst).Nodup := by
  have hsub : (dictOf ps).map Prod.fst ⊆ ps.map Prod.fst := by
    intro k hk
    obtain ⟨m, hm, rfl⟩ := List.mem_map.mp hk
    exact List.mem_map_of_mem (mem_dictOf hm)
  have hperm := (dictOf_names ps).subperm hsub
  have hle : (ps.map Prod.fst).length ≤ ((dictOf ps).map Prod.fst).length := by
    rw [List.length_map, List.length_map, h]
  exact (hperm.perm_of_length_le hle).nodup_iff.mp (dictOf_names ps)

theorem mapTextsElems_eq (f : Text → Text) (vs : List Value) : mapTextsElems f vs = vs.map fun v =>
    v.mapTexts f := by
  induction vs with
  | nil => rfl
  | cons v vs ih => rw [mapTextsElems, ih, List.map_cons]

theorem mapTextsMembers_eq (f : Text → Text) (ms : List (Text × Value)) :
    mapTextsMembers f ms = ms.map fun m => (f m.1, m.2.mapTexts f) := by
  induction ms with
  | nil => rfl
  | cons m ms ih => rw [mapTextsMembers, ih, List.map_cons]

theorem mapTexts_self {f : Text → Text} {v : Value} (h : ∀ s ∈ v.texts, f s = s) : v.mapTexts f = v := by
  induction v using Value.nested with
  | str s => rw [Value.mapTexts, h s List.mem_cons_self]
  | arr vs ih =>
    rw [Value.mapTexts, mapTextsElems_self]
    exact fun v hv => ih v hv fun s hs => h s (mem_texts_arr.mpr ⟨v, hv, hs⟩)
  | obj ms ih =>
    rw [Value.mapTexts, mapTextsMembers_self]
    intro m hm
    refine ⟨h _ (mem_texts_obj.mpr (Or.inl (List.mem_map_of_mem hm))), ?_⟩
    exact ih m hm fun s hs => h s (mem_texts_obj.mpr (Or.inr ⟨m, hm, hs⟩))
  | _ => rfl

section
variable {ε : Type} {dec : Decoder ε} {d : Nat} {g : Value → Tree}

theorem eval_elems_self {vs : List Value} :
    dec.eval (d + 1) (.arr (vs.map g)) = .ok (.arr vs) ↔ ∀ v ∈ vs, dec.eval d (g v) = .ok v := by
  have hevals : dec.evals d (vs.map g) = .ok vs ↔ ∀ v ∈ vs, dec.eval d (g v) = .ok v := by
    rw [evals_ok, List.forall₂_map_left_iff, List.forall₂_same]
  rw [← hevals, Decoder.eval]
  cases dec.evals d (vs.map g) <;> simp

theorem eval_filter {vs : List Value} (p : Value → Bool) (h : dec.eval d (Value.arr vs).tree = .ok (.arr vs)) :
    dec.eval d (Value.arr (vs.filter p)).tree = .ok (.arr (vs.filter p)) := by
  cases d with
  | zero => cases h
  | succ d =>
    rw [Value.tree, trees_eq] at h ⊢
    rw [eval_elems_self] at h ⊢
    intro v hv
    exact h v (List.mem_filter.mp hv).1

variable (hobj : ∀ ps, dec.objectPairs ps = .ok (.obj (dictOf ps)))
include hobj

theorem eval_members_self {f : Text → Text} {ms : List (Text × Value)} :
    dec.eval (d + 1) (.obj (ms.map fun m => (f m.1, g m.2))) = .ok (.obj ms) ↔
      (ms.map Prod.fst).Nodup ∧ ∀ m ∈ ms, f m.1 = m.1 ∧ dec.eval d (g m.2) = .ok m.2 := by
  constructor
  · intro h
    obtain ⟨d', ps, hd, hps, hmembers⟩ := eval_obj h
    cases hd
    rw [hobj] at hps
    have hdict : dictOf ps = ms := by
      cases hps
      rfl
    have hlen : (dictOf ps).length = ps.length := by
      rw [hdict, ← hmembers.length_eq, List.length_map]
    have hnames := dictOf_length hlen
    rw [dictOf_distinct hnames] at hdict
    subst hdict
    rw [List.forall₂_map_left_iff, List.forall₂_same] at hmembers
    exact ⟨hnames, hmembers⟩
  · intro ⟨hnames, hall⟩
    have hmembers : dec.evalMembers d (ms.map fun m => (f m.1, g m.2)) = .ok ms := by
      rw [evalMembers_ok, List.forall₂_map_left_iff, List.forall₂_same]
      exact hall
    rw [Decoder.eval, hmembers]
    dsimp only
    rw [hobj, dictOf_distinct hnames]
    rfl

/-- Of a value with strings that are read otherwise the text is not read as the value. -/
theorem eval_mapTexts {f : Text → Text} {v : Value} :
    dec.eval d (v.mapTexts f).tree = .ok v ↔ dec.eval d v.tree = .ok v ∧ ∀ s ∈ v.texts, f s = s := by
  induction v using Value.nested generalizing d with
  | null => simp [Value.mapTexts, Value.texts, Value.collect]
  | bool b => simp [Value.mapTexts, Value.texts, Value.collect]
  | int z => simp [Value.mapTexts, Value.texts, Value.collect]
  | float x => simp [Value.mapTexts, Value.texts, Value.collect]
  | str s => simp [Value.mapTexts, Value.tree, Decoder.eval, Value.texts, Value.collect]
  | arr vs ih =>
    cases d with
    | zero => simp [Value.mapTexts, Value.tree, Decoder.eval]
    | succ d =>
      rw [Value.mapTexts, Value.tree, Value.tree, trees_eq, trees_eq, mapTextsElems_eq, List.map_map]
      rw [eval_elems_self, eval_elems_self]
      simp only [mem_texts_arr]
      constructor
      · intro h
        refine ⟨fun v hv => ((ih v hv).mp (h v hv)).1, ?_⟩
        intro s hs
        obtain ⟨v, hv, hs⟩ := hs
        exact ((ih v hv).mp (h v hv)).2 s hs
      · intro h v hmem
        obtain ⟨hv, hs⟩ := h
        exact (ih v hmem).mpr ⟨hv v hmem, fun s hmem' => hs s ⟨v, hmem, hmem'⟩⟩
  | obj ms ih =>
    cases d with
    | zero => simp [Value.mapTexts, Value.tree, Decoder.eval]
    | succ d =>
      rw [Value.mapTexts, Value.tree, Value.tree, memberTrees_eq, memberTrees_eq, mapTextsMembers_eq, List.map_map]
      have hself := @eval_members_self _ dec d Value.tree hobj id ms
      have hmapped := @eval_members_self _ dec d (fun v => (v.mapTexts f).tree) hobj f ms
      simp only [id] at hself
      rw [hself]
      refine Iff.trans hmapped ?_
      simp only [mem_texts_obj]
      constructor
      · intro h
        obtain ⟨hnames, hall⟩ := h
        refine ⟨⟨hnames, fun m hm => ⟨trivial, ((ih m hm).mp (hall m hm).2).1⟩⟩, ?_⟩
        intro s hs
        obtain hs | ⟨m, hm, hs⟩ := hs
        · obtain ⟨m, hm, rfl⟩ := List.mem_map.mp hs
          exact (hall m hm).1
        · exact ((ih m hm).mp (hall m hm).2).2 s hs
      · intro h
        obtain ⟨⟨hnames, hall⟩, hs⟩ := h
        refine ⟨hnames, fun m hm => ⟨hs m.1 (Or.inl (List.mem_map_of_mem hm)), ?_⟩⟩
        exact (ih m hm).mpr ⟨(hall m hm).2, fun s hs' => hs s (Or.inr ⟨m, hm, hs'⟩)⟩

theorem eval_member {ms : List (Text × Value)} {key : Text} {v : Value}
    (h : dec.eval d (Value.obj ms).tree = .ok (.obj ms))
    (hm : ms.lookup key = some v) : ∃ e, d = e + 1 ∧ dec.eval e v.tree = .ok v := by
  cases d with
  | zero => cases h
  | succ d =>
    rw [Value.tree, memberTrees_eq] at h
    obtain ⟨hnames, hall⟩ := (@eval_members_self _ dec d Value.tree hobj id ms).mp h
    have hmem : (key, v) ∈ ms := (mem_iff_lookup hnames).mpr hm
    exact ⟨d, rfl, (hall _ hmem).2⟩

theorem eval_setMember {ms : List (Text × Value)} {key : Text} {v : Value}
    (h : dec.eval (d + 1) (Value.obj ms).tree = .ok (.obj ms)) (hv : dec.eval d v.tree = .ok v) :
    dec.eval (d + 1) (Value.obj (setMember key v ms)).tree = .ok (.obj (setMember key v ms)) := by
  rw [Value.tree, memberTrees_eq] at h ⊢
  obtain ⟨hnames, hall⟩ := (@eval_members_self _ dec d Value.tree hobj id ms).mp h
  refine (@eval_members_self _ dec d Value.tree hobj id _).mpr ⟨setMember_distinct hnames, fun m hm => ⟨rfl, ?_⟩⟩
  obtain rfl | hm := mem_setMember hm
  · exact hv
  · exact (hall m hm).2

end

end Json
