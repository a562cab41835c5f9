import McpGateway.AsciiDumps

/-!
# Printed in ASCII and read back

What is printed in ASCII is one line, and a reader that keeps the last of two
members of one name gets the value back with its surrogates joined.
-/

namespace Json

open Unicode Binary64

/-! ## The printed text is one line -/

def Line (s : Text) : Prop := ∀ c ∈ s, 0x20 ≤ c.val ∧ c.val < 0x7F

theorem line_append {a b : Text} : Line (a ++ b) ↔ Line a ∧ Line b := by
  simp only [Line, List.forall_mem_append]

theorem line_cons {c : CodePoint} {s : Text} : Line (c :: s) ↔ (0x20 ≤ c.val ∧ c.val < 0x7F) ∧ Line s :=
  List.forall_mem_cons

theorem line_nil : Line [] := fun _ h => by cases h

theorem line_digits (ds : List Digit) : Line (digitText ds) := by
  intro c hc
  obtain ⟨d, _, rfl⟩ := List.mem_map.mp hc
  have := d.isLt
  simp only [digitCh]
  omega

theorem line_num (n : Numeral) : Line n.text := by
  have hfrac : Line (fracText n.frac) := by
    cases n.frac with
    | none => exact line_nil
    | some ds => exact line_cons.mpr ⟨by decide, line_digits ds⟩
  have hexp : Line (expText n.exp) := by
    cases n.exp with
    | none => exact line_nil
    | some p =>
      refine line_cons.mpr ⟨by decide, line_cons.mpr ⟨?_, line_digits p.2⟩⟩
      split <;> decide
  have hneg : Line (if n.neg then [ch '-'] else []) := by
    split
    · exact line_cons.mpr ⟨by decide, line_nil⟩
    · exact line_nil
  exact line_append.mpr ⟨hneg, line_append.mpr ⟨line_digits _, line_append.mpr ⟨hfrac, hexp⟩⟩⟩

theorem line_unitText (n : Nat) : Line (unitText n) := by
  have hhex : ∀ n, 0x20 ≤ (hexDigit n).val ∧ (hexDigit n).val < 0x7F := by
    intro n
    unfold hexDigit
    split
    · dsimp only
      split <;> omega
    · decide
  simp [unitText, line_cons, line_nil, hhex]
  decide

theorem simpleEscape_line {e c : CodePoint} (h : simpleEscape e = some c) : 0x20 ≤ e.val := by
  have hmem : e ∈ [ch '"', ch '\\', ch '/', ch 'b', ch 'f', ch 'n', ch 'r', ch 't'] := by
    by_contra hnot
    simp only [List.mem_cons, List.not_mem_nil, or_false, not_or] at hnot
    simp [simpleEscape, hnot] at h
  have hall : ∀ e ∈ [ch '"', ch '\\', ch '/', ch 'b', ch 'f', ch 'n', ch 'r', ch 't'], 0x20 ≤ e.val := by decide
  exact hall e hmem

theorem line_strText (s : Text) : Line (strText true s) := by
  have hchar : ∀ c, Line (escapeChar true c) := by
    intro c
    have hform := escapeChar_form true c
    generalize escapeChar true c = t at hform
    cases hform with
    | short he _ hlow => exact line_cons.mpr ⟨by decide, line_cons.mpr ⟨⟨simpleEscape_line he, hlow⟩, line_nil⟩⟩
    | plain _ _ hlow hascii => exact line_cons.mpr ⟨⟨hlow, hascii rfl⟩, line_nil⟩
    | unit => exact line_unitText _
    | units => exact line_append.mpr ⟨line_unitText _, line_unitText _⟩
  have hs : Line (s.flatMap (escapeChar true)) := by
    intro c hc
    obtain ⟨d, _, hd⟩ := List.mem_flatMap.mp hc
    exact hchar d c hd
  exact line_cons.mpr ⟨by decide, line_append.mpr ⟨hs, line_cons.mpr ⟨by decide, line_nil⟩⟩⟩

section
variable {enc : Encoder} (hascii : enc.ensureAscii = true)
include hascii

theorem dumps_line {v : Value} {d : Nat} {s : Text} (h : enc.dumps d v = .ok s) : Line s := by
  have hclose : ∀ {close : CodePoint} {l : List Text}, 0x20 ≤ close.val ∧ close.val < 0x7F → (∀ t ∈ l, Line t) →
      Line (commas close l) := by
    intro close l hc hl
    exact (forall_commas (P := fun c => 0x20 ≤ c.val ∧ c.val < 0x7F) hc (by decide) l).mpr hl
  induction v using Value.nested generalizing d s with
  | null =>
    rw [Encoder.dumps] at h
    cases h
    unfold Line
    decide
  | bool b =>
    rw [Encoder.dumps] at h
    cases h
    cases b <;> (unfold Line; decide)
  | int z =>
    rw [Encoder.dumps, Encoder.int] at h
    split at h <;> cases h
    exact line_num _
  | float x =>
    rw [Encoder.dumps] at h
    rcases float_text h with ⟨n, rfl⟩ | ⟨c, rfl⟩
    · exact line_num n
    · cases c <;> (unfold Line; decide)
  | str k =>
    rw [Encoder.dumps] at h
    cases h
    rw [hascii]
    exact line_strText k
  | arr vs ih =>
    cases d with
    | zero => cases h
    | succ d =>
      rw [Encoder.dumps] at h
      split at h <;> cases h
      rename_i l hl
      refine line_cons.mpr ⟨by decide, hclose (by decide) ?_⟩
      have hel : (∀ t ∈ l, Line t) ↔ ∀ v ∈ vs, True :=
        forall₂_forall (dumpsElems_ok.mp hl) fun v hv t ht => iff_of_true (ih v hv ht) trivial
      exact hel.mpr fun _ _ => trivial
  | obj ms ih =>
    cases d with
    | zero => cases h
    | succ d =>
      rw [Encoder.dumps] at h
      split at h <;> cases h
      rename_i l hl
      refine line_cons.mpr ⟨by decide, hclose (by decide) ?_⟩
      have hel : (∀ t ∈ l, Line t) ↔ ∀ m ∈ ms, True := by
        refine forall₂_forall (dumpsMembers_ok.mp hl) fun m hm t ht => iff_of_true ?_ trivial
        obtain ⟨s', hs', rfl⟩ := ht
        rw [hascii]
        exact line_append.mpr ⟨line_strText m.1, line_cons.mpr ⟨by decide, ih m hm hs'⟩⟩
      exact hel.mpr fun _ _ => trivial

end

/-! ## The value is read back -/

def Value.nameLists (v : Value) : List (List Text) :=
  v.collect fun
    | .obj ms => [ms.map Prod.fst]
    | _ => []

def Value.Distinct (v : Value) : Prop := ∀ names ∈ v.nameLists, names.Nodup

theorem distinct_leaf {v : Value} (h : v.nameLists = []) : v.Distinct := by
  intro names hn
  rw [h] at hn
  cases hn

theorem distinct_arr {vs : List Value} : (Value.arr vs).Distinct ↔ ∀ v ∈ vs, v.Distinct := by
  have hmem : ∀ names, names ∈ (Value.arr vs).nameLists ↔ ∃ v ∈ vs, names ∈ v.nameLists := fun _ => mem_collectElems
  simp only [Value.Distinct, hmem]
  exact ⟨fun h v hv names hn => h names ⟨v, hv, hn⟩, fun h names ⟨v, hv, hn⟩ => h v hv names hn⟩

theorem distinct_obj {ms : List (Text × Value)} :
    (Value.obj ms).Distinct ↔ (ms.map Prod.fst).Nodup ∧ ∀ m ∈ ms, m.2.Distinct := by
  have hmem : ∀ names, names ∈ (Value.obj ms).nameLists ↔ names = ms.map Prod.fst ∨
    ∃ m ∈ ms, names ∈ m.2.nameLists := by
    intro names
    exact List.mem_append.trans (or_congr List.mem_singleton mem_collectMembers)
  simp only [Value.Distinct, hmem]
  constructor
  · intro h
    exact ⟨h _ (Or.inl rfl), fun m hm names hn => h names (Or.inr ⟨m, hm, hn⟩)⟩
  · rintro ⟨hnames, hms⟩ names (rfl | ⟨m, hm, hn⟩)
    · exact hnames
    · exact hms m hm names hn

theorem mem_ints_arr {vs : List Value} {z : Int} : z ∈ (Value.arr vs).ints ↔ ∃ v ∈ vs, z ∈ v.ints :=
  mem_collectElems

theorem mem_ints_obj {ms : List (Text × Value)} {z : Int} : z ∈ (Value.obj ms).ints ↔ ∃ m ∈ ms, z ∈ m.2.ints :=
  mem_collectMembers

section
variable {ε : Type} {dec : Decoder ε} (hobj : ∀ ps, dec.objectPairs ps = .ok (.obj (dictOf ps)))
  (hconst : ∀ c, dec.parseConstant c = .ok (.float c.float))
include hobj hconst

theorem eval_tree {v : Value} {d : Nat} : dec.eval d v.tree = .ok v ↔
    v.depth ≤ d ∧ v.Distinct ∧ ∀ z ∈ v.ints, tooLong dec.maxStrDigits (toDigits z.natAbs) = false := by
  induction v using Value.nested generalizing d with
  | null => exact iff_of_true rfl ⟨Nat.zero_le d, distinct_leaf rfl, fun z hz => by cases hz⟩
  | bool b => exact iff_of_true rfl ⟨Nat.zero_le d, distinct_leaf rfl, fun z hz => by cases hz⟩
  | int z =>
    have hints : (Value.int z).ints = [z] := rfl
    have hint : (intNumeral z).isInt = true := rfl
    have hdigits : (intNumeral z).int = toDigits z.natAbs := rfl
    rw [Value.tree, Decoder.eval, Decoder.number, if_pos hint, hdigits, hints, List.forall_mem_singleton]
    cases tooLong dec.maxStrDigits (toDigits z.natAbs) with
    | true => simp
    | false => simp [intNumeral_toInt, Value.depth, (distinct_leaf rfl : (Value.int z).Distinct)]
  | float x =>
    exact iff_of_true (eval_float (Or.inr hconst) d) ⟨Nat.zero_le d, distinct_leaf rfl, fun z hz => by cases hz⟩
  | str s => exact iff_of_true rfl ⟨Nat.zero_le d, distinct_leaf rfl, fun z hz => by cases hz⟩
  | arr vs ih =>
    cases d with
    | zero => exact iff_of_false (fun h => by cases h) fun h => by simp [Value.depth] at h
    | succ d =>
      rw [Value.tree, trees_eq, eval_elems_self, distinct_arr, Value.depth, Nat.add_le_add_iff_right, depthElems_le]
      simp only [mem_ints_arr]
      constructor
      · intro h
        have hv : ∀ v ∈ vs, _ := fun v hv => (ih v hv).mp (h v hv)
        refine ⟨fun v hm => (hv v hm).1, fun v hm => (hv v hm).2.1, ?_⟩
        rintro z ⟨v, hm, hz⟩
        exact (hv v hm).2.2 z hz
      · rintro ⟨hdepth, hdistinct, hints⟩ v hm
        exact (ih v hm).mpr ⟨hdepth v hm, hdistinct v hm, fun z hz => hints z ⟨v, hm, hz⟩⟩
  | obj ms ih =>
    cases d with
    | zero => exact iff_of_false (fun h => by cases h) fun h => by simp [Value.depth] at h
    | succ d =>
      have hself := @eval_members_self _ dec d Value.tree hobj id ms
      simp only [id] at hself
      rw [Value.tree, memberTrees_eq, hself, distinct_obj, Value.depth, Nat.add_le_add_iff_right, depthPairs_le]
      simp only [mem_ints_obj, true_and]
      constructor
      · rintro ⟨hnames, h⟩
        have hm : ∀ m ∈ ms, _ := fun m hm => (ih m hm).mp (h m hm)
        refine ⟨fun m h => (hm m h).1, ⟨hnames, fun m h => (hm m h).2.1⟩, ?_⟩
        rintro z ⟨m, h, hz⟩
        exact (hm m h).2.2 z hz
      · rintro ⟨hdepth, ⟨hnames, hdistinct⟩, hints⟩
        exact ⟨hnames, fun m hm => (ih m hm).mpr ⟨hdepth m hm, hdistinct m hm, fun z hz => hints z ⟨m, hm, hz⟩⟩⟩

omit hobj hconst in
theorem mapTexts_depth (f : Text → Text) (v : Value) : (v.mapTexts f).depth = v.depth := by
  have hle : ∀ {a b : Nat}, (∀ d, a ≤ d ↔ b ≤ d) → a = b :=
    fun h => le_antisymm ((h _).mpr le_rfl) ((h _).mp le_rfl)
  induction v using Value.nested with
  | arr vs ih =>
    rw [Value.mapTexts, mapTextsElems_eq, Value.depth, Value.depth]
    congr 1
    apply hle
    intro d
    simp only [depthElems_le, List.forall_mem_map]
    exact forall₂_congr fun v hv => by rw [ih v hv]
  | obj ms ih =>
    rw [Value.mapTexts, mapTextsMembers_eq, Value.depth, Value.depth]
    congr 1
    apply hle
    intro d
    simp only [depthPairs_le, List.forall_mem_map]
    exact forall₂_congr fun m hm => by rw [ih m hm]
  | _ => rfl

omit hobj hconst in
theorem mapTexts_ints (f : Text → Text) (v : Value) (z : Int) : z ∈ (v.mapTexts f).ints ↔ z ∈ v.ints := by
  induction v using Value.nested with
  | arr vs ih =>
    rw [Value.mapTexts, mapTextsElems_eq, mem_ints_arr, mem_ints_arr]
    simp only [List.mem_map, exists_exists_and_eq_and]
    exact exists_congr fun v => and_congr_right fun hv => ih v hv
  | obj ms ih =>
    rw [Value.mapTexts, mapTextsMembers_eq, mem_ints_obj, mem_ints_obj]
    simp only [List.mem_map, exists_exists_and_eq_and]
    exact exists_congr fun m => and_congr_right fun hm => ih m hm
  | _ => rfl

/-- What is printed in ASCII is read back, with its surrogates joined, as far as no names become one. -/
theorem reads_back {enc : Encoder} (hascii : enc.ensureAscii = true)
    (hdigits : dec.maxStrDigits = enc.maxStrDigits) {v : Value}
    {d d' : Nat} {s : Text} (h : enc.dumps d v = .ok s) :
    scanDocument dec d' s = .ok (v.mapTexts joinPairs) ↔ v.depth ≤ d' ∧ (v.mapTexts joinPairs).Distinct := by
  rw [scanDocument_complete dec (dumps_ascii hascii h), eval_tree hobj hconst, mapTexts_depth, hdigits]
  simp only [mapTexts_ints]
  obtain ⟨_, hprintable⟩ := dumps_total.mp ⟨s, h⟩
  exact and_congr_right fun _ => and_iff_left hprintable.ints

end

end Json
