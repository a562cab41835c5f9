import McpGateway.RoundTrip

/-!
# What is read has no pair

An escaped high surrogate and the low one after it are read as one character,
and a raw character of a decoded text is no surrogate. So no string that is
read has two surrogates in a row.
-/

namespace Json

open Unicode Binary64

/-! ## Joined items -/

theorem paired_cons {c : CodePoint} (h : isHigh c.val = false) (s : Text) : paired (c :: s) = paired s := by
  cases s with
  | nil => rfl
  | cons d s => rw [paired, h, Bool.false_and, Bool.false_or]

theorem not_high {n : Nat} (h : isSurrogate n = false) : isHigh n = false ∧ isLow n = false := by
  simp only [isSurrogate, isHigh, isLow, Bool.eq_false_iff, ne_eq, Bool.and_eq_true, decide_eq_true_eq] at h ⊢
  omega

theorem join_plain (hi lo : Nat) : isHigh (join hi lo) = false ∧ isLow (join hi lo) = false := by
  have hjoin : 0x10000 ≤ join hi lo := by
    unfold join
    omega
  generalize join hi lo = n at hjoin
  simp only [isHigh, isLow, Bool.eq_false_iff, ne_eq, Bool.and_eq_true, decide_eq_true_eq]
  omega

theorem joinItems_head (v : CodePoint) (l : List StrItem) :
    ∃ c s, joinItems (.unit v :: l) = c :: s ∧ (isLow c.val = true → c = v) := by
  match l with
  | [] => exact ⟨v, [], rfl, fun _ => rfl⟩
  | .raw c :: l => exact ⟨v, _, rfl, fun _ => rfl⟩
  | .unit w :: l =>
    rw [joinItems]
    split
    · rename_i h
      refine ⟨_, _, rfl, fun hlow => ?_⟩
      rw [(join_plain _ _).2] at hlow
      cases hlow
    · exact ⟨v, _, rfl, fun _ => rfl⟩

theorem joinItems_unpaired {is : List StrItem} (h : ∀ c, .raw c ∈ is → isSurrogate c.val = false) :
    paired (joinItems is) = false := by
  induction is using joinItems.induct with
  | case1 => rfl
  | case2 c l ih =>
    rw [joinItems, paired_cons (not_high (h c List.mem_cons_self)).1]
    exact ih fun d hd => h d (List.mem_cons_of_mem _ hd)
  | case3 u => rfl
  | case4 u c l ih =>
    have hc := not_high (h c (by simp))
    rw [joinItems, paired, hc.2, Bool.and_false, Bool.false_or, paired_cons hc.1]
    exact ih fun d hd => h d (by simp [hd])
  | case5 u v l hpair ih =>
    have hjoin := (join_plain u.val v.val).1
    rw [joinItems, dif_pos hpair, paired_cons]
    · exact ih fun d hd => h d (by simp [hd])
    · exact hjoin
  | case6 u v l hpair ih =>
    have htail := ih fun d hd => h d (List.mem_cons_of_mem _ hd)
    obtain ⟨c, s, hs, hhead⟩ := joinItems_head v l
    rw [hs] at htail
    rw [joinItems, dif_neg hpair, hs, paired, htail, Bool.or_false, Bool.eq_false_iff]
    -- A low surrogate there would be `v`, and be joined to `u`.
    intro h
    obtain ⟨hu, hc⟩ := Bool.and_eq_true_iff.mp h
    exact hpair ⟨hu, hhead hc ▸ hc⟩

/-! ## The rest of a derivation -/

theorem ws_scalar {l r : Text} (h : Ws l r) (hl : Scalar l) : Scalar r := by
  induction h with
  | nil => exact hl
  | cons _ _ ih => exact ih (scalar_cons.mp hl).2

theorem expSign_scalar {l r : Text} {neg : Bool} (h : ExpSign l neg r) (hl : Scalar l) : Scalar r := by
  cases h with
  | absent => exact hl
  | plus => exact (scalar_cons.mp hl).2
  | minus => exact (scalar_cons.mp hl).2

theorem num_scalar {l r : Text} {n : Numeral} (h : Num l n r) (hl : Scalar l) : Scalar r := by
  have hminus : ∀ {l r neg}, Minus l neg r → Scalar l → Scalar r := by
    intro l r neg h hl
    cases h with
    | absent => exact hl
    | present => exact (scalar_cons.mp hl).2
  have hint : ∀ {l ip r}, IntPart l ip r → Scalar l → Scalar r := by
    intro l ip r h hl
    cases h with
    | zero => exact (scalar_cons.mp hl).2
    | digits => exact (scalar_append.mp hl).2
  have hfrac : ∀ {l fp r}, FracPart l fp r → Scalar l → Scalar r := by
    intro l fp r h hl
    cases h with
    | absent => exact hl
    | present => exact (scalar_append.mp (scalar_cons.mp hl).2).2
  have hexp : ∀ {l ep r}, ExpPart l ep r → Scalar l → Scalar r := by
    intro l ep r h hl
    cases h with
    | absent => exact hl
    | present _ hs => exact (scalar_append.mp (expSign_scalar hs (scalar_cons.mp hl).2)).2
  obtain ⟨hm, hi, hf, he⟩ := h
  exact hexp he (hfrac hf (hint hi (hminus hm hl)))

theorem simpleEscape_plain {e c : CodePoint} (h : simpleEscape e = some c) : isSurrogate c.val = false := by
  have hmem : c ∈ [ch '"', ch '\\', ch '/', ⟨8, by decide⟩, ⟨12, by decide⟩, ch '\n', ch '\r', ch '\t'] := by
    unfold simpleEscape at h
    split_ifs at h <;> cases h <;> simp
  have hall : ∀ c ∈ [ch '"', ch '\\', ch '/', ⟨8, by decide⟩, ⟨12, by decide⟩, ch '\n', ch '\r', ch '\t'],
      isSurrogate c.val = false := by decide
  exact hall c hmem

theorem strItems_scalar {l r : Text} {is : List StrItem} (h : StrItems l is r) (hl : Scalar l) :
    (∀ c, .raw c ∈ is → isSurrogate c.val = false) ∧ Scalar r := by
  induction h with
  | close =>
    refine ⟨?_, (scalar_cons.mp hl).2⟩
    intro c hc
    cases hc
  | char _ _ _ _ ih =>
    obtain ⟨hc, hl⟩ := scalar_cons.mp hl
    obtain ⟨his, hr⟩ := ih hl
    refine ⟨fun d hd => ?_, hr⟩
    rcases List.mem_cons.mp hd with h | hd
    · cases h
      exact hc
    · exact his d hd
  | escape he _ ih =>
    obtain ⟨his, hr⟩ := ih (scalar_cons.mp (scalar_cons.mp hl).2).2
    refine ⟨fun d hd => ?_, hr⟩
    rcases List.mem_cons.mp hd with h | hd
    · cases h
      exact simpleEscape_plain he
    · exact his d hd
  | unit _ _ ih =>
    simp only [scalar_cons] at hl
    obtain ⟨his, hr⟩ := ih hl.2.2.2.2.2.2
    refine ⟨fun d hd => his d ?_, hr⟩
    rcases List.mem_cons.mp hd with h | hd
    · cases h
    · exact hd

theorem strBody_unpaired {l s r : Text} (h : StrBody l s r) (hl : Scalar l) : paired s = false ∧ Scalar r := by
  obtain ⟨h⟩ := h
  obtain ⟨his, hr⟩ := strItems_scalar h hl
  exact ⟨joinItems_unpaired his, hr⟩

/-! ## The strings of a value -/

/-- No string has two surrogates in a row. -/
def Value.Unpaired (v : Value) : Prop := ∀ s ∈ v.texts, paired s = false

theorem unpaired_leaf {v : Value} (h : v.texts = []) : v.Unpaired := by
  intro s hs
  rw [h] at hs
  cases hs

theorem unpaired_str {s : Text} : (Value.str s).Unpaired ↔ paired s = false := List.forall_mem_singleton

theorem unpaired_arr {vs : List Value} : (Value.arr vs).Unpaired ↔ ∀ v ∈ vs, v.Unpaired := by
  simp only [Value.Unpaired, mem_texts_arr]
  exact ⟨fun h v hv s hs => h s ⟨v, hv, hs⟩, fun h s ⟨v, hv, hs⟩ => h v hv s hs⟩

theorem unpaired_obj {ms : List (Text × Value)} :
    (Value.obj ms).Unpaired ↔ ∀ m ∈ ms, paired m.1 = false ∧ m.2.Unpaired := by
  simp only [Value.Unpaired, mem_texts_obj]
  constructor
  · intro h m hm
    exact ⟨h m.1 (Or.inl (List.mem_map_of_mem hm)), fun s hs => h s (Or.inr ⟨m, hm, hs⟩)⟩
  · rintro h s (hs | ⟨m, hm, hs⟩)
    · obtain ⟨m, hm, rfl⟩ := List.mem_map.mp hs
      exact (h m hm).1
    · exact (h m hm).2 s hs

section
variable {ε : Type} {dec : Decoder ε} (hobj : ∀ ps, dec.objectPairs ps = .ok (.obj (dictOf ps)))
  (hconst : ∀ c, dec.parseConstant c = .ok (.float c.float))
include hobj hconst
set_option linter.unusedSectionVars false

mutual
theorem val_unpaired {l : Text} {t : Tree} {r : Text} (h : Val l t r) (hl : Scalar l) :
    Scalar r ∧ ∀ d v, dec.eval d t = .ok v → v.Unpaired := by
  match h with
  | .null =>
    refine ⟨(scalar_append.mp hl).2, fun d v hv => ?_⟩
    rw [Decoder.eval] at hv
    cases hv
    exact unpaired_leaf rfl
  | .bool =>
    refine ⟨(scalar_append.mp hl).2, fun d v hv => ?_⟩
    rw [Decoder.eval] at hv
    cases hv
    exact unpaired_leaf rfl
  | .const =>
    refine ⟨(scalar_append.mp hl).2, fun d v hv => ?_⟩
    rw [Decoder.eval, hconst] at hv
    cases hv
    exact unpaired_leaf rfl
  | .num hn =>
    refine ⟨num_scalar hn hl, fun d v hv => ?_⟩
    rw [Decoder.eval, Decoder.number] at hv
    split at hv
    · split at hv <;> cases hv
      exact unpaired_leaf rfl
    · cases hv
      exact unpaired_leaf rfl
  | .str hs =>
    obtain ⟨hs, hr⟩ := strBody_unpaired hs (scalar_cons.mp hl).2
    refine ⟨hr, fun d v hv => ?_⟩
    rw [Decoder.eval] at hv
    cases hv
    exact unpaired_str.mpr hs
  | .arrNil hw =>
    refine ⟨(scalar_cons.mp (ws_scalar hw (scalar_cons.mp hl).2)).2, fun d v hv => ?_⟩
    obtain ⟨d', vs, rfl, rfl, hvs⟩ := eval_arr hv
    cases hvs
    exact unpaired_leaf rfl
  | .arr hw he =>
    obtain ⟨hr, hts⟩ := elems_unpaired he (ws_scalar hw (scalar_cons.mp hl).2)
    refine ⟨hr, fun d v hv => ?_⟩
    obtain ⟨d', vs, rfl, rfl, hvs⟩ := eval_arr hv
    exact unpaired_arr.mpr (hts d' vs hvs)
  | .objNil hw =>
    refine ⟨(scalar_cons.mp (ws_scalar hw (scalar_cons.mp hl).2)).2, fun d v hv => ?_⟩
    obtain ⟨d', ps, rfl, hps, hms⟩ := eval_obj hv
    cases hms
    rw [hobj] at hps
    cases hps
    exact unpaired_leaf rfl
  | .obj hw hm =>
    obtain ⟨hr, hms⟩ := membs_unpaired hm (ws_scalar hw (scalar_cons.mp hl).2)
    refine ⟨hr, fun d v hv => ?_⟩
    obtain ⟨d', ps, rfl, hps, hpairs⟩ := eval_obj hv
    rw [hobj] at hps
    cases hps
    exact unpaired_obj.mpr fun m hm => hms d' ps hpairs m (mem_dictOf hm)
theorem elems_unpaired {l : Text} {ts : List Tree} {r : Text} (h : Elems l ts r) (hl : Scalar l) :
    Scalar r ∧ ∀ d vs, List.Forall₂ (fun (t : Tree) (v : Value) => dec.eval d t = .ok v) ts vs →
    ∀ v ∈ vs, v.Unpaired := by
  match h with
  | .last hv hw =>
    obtain ⟨hl₁, ht⟩ := val_unpaired hv hl
    refine ⟨(scalar_cons.mp (ws_scalar hw hl₁)).2, fun d vs hvs => ?_⟩
    obtain ⟨v, vs', hev, hvs', rfl⟩ := List.forall₂_cons_left_iff.mp hvs
    cases hvs'
    exact List.forall_mem_singleton.mpr (ht d v hev)
  | .more hv hw hw' he =>
    obtain ⟨hl₁, ht⟩ := val_unpaired hv hl
    obtain ⟨hr, hts⟩ := elems_unpaired he (ws_scalar hw' (scalar_cons.mp (ws_scalar hw hl₁)).2)
    refine ⟨hr, fun d vs hvs => ?_⟩
    obtain ⟨v, vs', hev, hvs', rfl⟩ := List.forall₂_cons_left_iff.mp hvs
    exact List.forall_mem_cons.mpr ⟨ht d v hev, hts d vs' hvs'⟩
theorem membs_unpaired {l : Text} {ms : List (Text × Tree)} {r : Text} (h : Membs l ms r) (hl : Scalar l) :
    Scalar r ∧ ∀ d ps, List.Forall₂ (fun (m : Text × Tree) (p : Text × Value) => m.1 = p.1 ∧
    dec.eval d m.2 = .ok p.2) ms ps →
      ∀ p ∈ ps, paired p.1 = false ∧ p.2.Unpaired := by
  match h with
  | .last hk hc hw hv hw' =>
    obtain ⟨hk, hl₁⟩ := strBody_unpaired hk (scalar_cons.mp hl).2
    obtain ⟨hl₄, ht⟩ := val_unpaired hv (ws_scalar hw (scalar_cons.mp (ws_scalar hc hl₁)).2)
    refine ⟨(scalar_cons.mp (ws_scalar hw' hl₄)).2, fun d ps hps => ?_⟩
    obtain ⟨p, ps', hp, hps', rfl⟩ := List.forall₂_cons_left_iff.mp hps
    cases hps'
    exact List.forall_mem_singleton.mpr ⟨hp.1 ▸ hk, ht d p.2 hp.2⟩
  | .more hk hc hw hv hw' hw'' hm =>
    obtain ⟨hk, hl₁⟩ := strBody_unpaired hk (scalar_cons.mp hl).2
    obtain ⟨hl₄, ht⟩ := val_unpaired hv (ws_scalar hw (scalar_cons.mp (ws_scalar hc hl₁)).2)
    obtain ⟨hr, hms⟩ := membs_unpaired hm (ws_scalar hw'' (scalar_cons.mp (ws_scalar hw' hl₄)).2)
    refine ⟨hr, fun d ps hps => ?_⟩
    obtain ⟨p, ps', hp, hps', rfl⟩ := List.forall₂_cons_left_iff.mp hps
    exact List.forall_mem_cons.mpr ⟨⟨hp.1 ▸ hk, ht d p.2 hp.2⟩, hms d ps' hps'⟩
end

theorem document_unpaired {l : Text} {t : Tree} (h : Document l t) (hl : Scalar l) {d : Nat} {v : Value}
    (hv : dec.eval d t = .ok v) : v.Unpaired := by
  obtain ⟨l₁, l₂, hw, hval, _⟩ := h
  exact (val_unpaired hobj hconst hval (ws_scalar hw hl)).2 d v hv

end

end Json
