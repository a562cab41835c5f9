import McpGateway.JsonDumps

/-!
# What the encoder prints is derivable

The text printed for a value derives the value's own tree, whose numerals
denote the value's numbers again.
-/

namespace Json

open Unicode Binary64

mutual
def Value.tree : Value → Tree
  | .null => .null
  | .bool b => .bool b
  | .int z => .num (intNumeral z)
  | .float .nan => .const .nan
  | .float (.inf false) => .const .infinity
  | .float (.inf true) => .const .negInfinity
  | .float (.finite neg x) => .num (floatNumeral neg x)
  | .str s => .str s
  | .arr vs => .arr (trees vs)
  | .obj ms => .obj (memberTrees ms)
def trees : List Value → List Tree
  | [] => []
  | v :: vs => v.tree :: trees vs
def memberTrees : List (Text × Value) → List (Text × Tree)
  | [] => []
  | (k, v) :: ms => (k, v.tree) :: memberTrees ms
end

mutual
def Value.mapTexts (f : Text → Text) : Value → Value
  | .null => .null
  | .bool b => .bool b
  | .int z => .int z
  | .float x => .float x
  | .str s => .str (f s)
  | .arr vs => .arr (mapTextsElems f vs)
  | .obj ms => .obj (mapTextsMembers f ms)
def mapTextsElems (f : Text → Text) : List Value → List Value
  | [] => []
  | v :: vs => v.mapTexts f :: mapTextsElems f vs
def mapTextsMembers (f : Text → Text) : List (Text × Value) → List (Text × Value)
  | [] => []
  | (k, v) :: ms => (f k, v.mapTexts f) :: mapTextsMembers f ms
end

/-! ## Digits -/

theorem natOf_append (a b : List Digit) : natOf (a ++ b) = natOf a * 10 ^ b.length + natOf b := by
  simp only [natOf, List.reverse_append, List.map_append, Nat.ofDigits_append, List.length_map, List.length_reverse]
  ring

theorem natOf_zeros (n : Nat) : natOf (zeros n) = 0 := by
  induction n with
  | zero => rfl
  | succ n ih => rw [zeros, List.replicate_succ', natOf_append]; simp [natOf]

theorem natOf_zero_cons (ds : List Digit) : natOf (0 :: ds) = natOf ds := by
  simp [natOf, Nat.ofDigits_append]

theorem toDigits_vals (n : Nat) : ((Nat.digits 10 n).map (Fin.ofNat 10)).map Fin.val = Nat.digits 10 n := by
  rw [List.map_map]
  conv_rhs => rw [← List.map_id (Nat.digits 10 n)]
  refine List.map_congr_left fun d hd => ?_
  exact Nat.mod_eq_of_lt (Nat.digits_lt_base (by decide) hd)

@[simp] theorem natOf_toDigits (n : Nat) : natOf (toDigits n) = n := by
  unfold toDigits
  by_cases h : n = 0
  · subst h; rfl
  · rw [if_neg h, natOf, List.reverse_reverse, toDigits_vals, Nat.ofDigits_digits]

theorem toDigits_head {n : Nat} (h : n ≠ 0) : ∃ d ds, d ≠ 0 ∧ toDigits n = d :: ds := by
  have hne : Nat.digits 10 n ≠ [] := Nat.digits_ne_nil_iff_ne_zero.mpr h
  have hlast := Nat.getLast_digit_ne_zero 10 h
  have hlt := Nat.digits_lt_base (by decide) (List.getLast_mem hne)
  refine ⟨Fin.ofNat 10 ((Nat.digits 10 n).getLast hne),
    ((Nat.digits 10 n).dropLast.map (Fin.ofNat 10)).reverse, ?_, ?_⟩
  · intro h0
    have := congrArg Fin.val h0
    simp only [Fin.ofNat, Nat.mod_eq_of_lt hlt] at this
    exact hlast this
  · rw [toDigits, if_neg h]
    conv_lhs => rw [← List.dropLast_append_getLast hne]
    simp

theorem toDigits_cons (n : Nat) : ∃ d ds, toDigits n = d :: ds := by
  by_cases h : n = 0
  · exact ⟨0, [], by simp [toDigits, h]⟩
  · obtain ⟨d, ds, _, hd⟩ := toDigits_head h; exact ⟨d, ds, hd⟩

theorem expDigits_cons (n : Nat) : ∃ d ds, expDigits n = d :: ds := by
  unfold expDigits
  split
  · exact ⟨0, _, rfl⟩
  · exact toDigits_cons n

theorem natOf_expDigits (n : Nat) : natOf (expDigits n) = n := by
  unfold expDigits
  split
  · rw [natOf_zero_cons, natOf_toDigits]
  · exact natOf_toDigits n

/-! ## Numerals -/

structure Numeral.WF (n : Numeral) : Prop where
  int : n.int = [0] ∨ ∃ d ds, d ≠ 0 ∧ n.int = d :: ds
  frac : ∀ ds, n.frac = some ds → ds ≠ []
  exp : ∀ neg ds, n.exp = some (neg, ds) → ds ≠ []

theorem fracPart_text {fp : Option (List Digit)} (h : ∀ ds, fp = some ds → ds ≠ []) (r : Text) :
    FracPart (fracText fp ++ r) fp r := by
  match fp, h with
  | none, _ => exact .absent
  | some [], h => exact absurd rfl (h [] rfl)
  | some (d :: ds), _ => exact .present

theorem expPart_text {ep : Option (Bool × List Digit)} (h : ∀ neg ds, ep = some (neg, ds) → ds ≠ []) (r : Text) :
    ExpPart (expText ep ++ r) ep r := by
  match ep, h with
  | none, _ => exact .absent
  | some (neg, []), h => exact absurd rfl (h neg [] rfl)
  | some (true, d :: ds), _ => exact .present (Or.inl rfl) .minus
  | some (false, d :: ds), _ => exact .present (Or.inl rfl) .plus

theorem num_text {n : Numeral} (h : n.WF) (r : Text) : Num (n.text ++ r) n r := by
  obtain ⟨neg, ip, fp, ep⟩ := n
  have hm : ∀ l, Minus ((if neg then [ch '-'] else []) ++ l) neg l := by
    intro l
    cases neg with
    | false => exact .absent
    | true => exact .present
  have hi : ∀ l, IntPart (digitText ip ++ l) ip l := by
    intro l
    rcases h.int with h0 | ⟨d, ds, hd, hds⟩
    · have h0' : ip = [0] := h0
      rw [h0', show digitText [0] = [ch '0'] by decide]; exact .zero
    · have hds' : ip = d :: ds := hds
      rw [hds']; exact .digits hd
  have he : Numeral.text ⟨neg, ip, fp, ep⟩ ++ r =
      (if neg then [ch '-'] else []) ++ (digitText ip ++ (fracText fp ++ (expText ep ++ r))) := by
    simp [Numeral.text]
  rw [he]
  exact .mk (hm _) (hi _) (fracPart_text h.frac _) (expPart_text h.exp r)

theorem intNumeral_wf (z : Int) : (intNumeral z).WF := by
  refine ⟨?_, fun _ h => (by cases h), fun _ _ h => (by cases h)⟩
  by_cases h : z.natAbs = 0
  · left; simp [intNumeral, toDigits, h]
  · right; exact toDigits_head h

theorem intNumeral_toInt (z : Int) : (intNumeral z).toInt = z := by
  simp only [Numeral.toInt, intNumeral, natOf_toDigits, decide_eq_true_eq]
  split <;> omega

/-! ## Shortest decimals -/

section
variable {neg : Bool} {d : Digit} {ds : List Digit} (decpt : Int)

theorem layout_wf (hd : d ≠ 0) : (layout neg (d :: ds) decpt).WF := by
  unfold layout
  split_ifs with h1 h2 h3 h4
  · refine ⟨Or.inr ⟨d, [], hd, rfl⟩, fun _ h => (by cases h), fun _ _ h => ?_⟩
    obtain ⟨d', ds', he⟩ := expDigits_cons (decpt - 1).natAbs
    cases h; rw [he]; exact List.cons_ne_nil _ _
  · refine ⟨Or.inr ⟨d, [], hd, rfl⟩, fun fs h => ?_, fun _ _ h => ?_⟩
    · cases h; intro h0
      simp only [List.drop_one, List.tail_cons] at h0
      rw [h0] at h2; simp at h2
    · obtain ⟨d', ds', he⟩ := expDigits_cons (decpt - 1).natAbs
      cases h; rw [he]; exact List.cons_ne_nil _ _
  · exact ⟨Or.inl rfl, fun _ h => (by cases h; simp), fun _ _ h => (by cases h)⟩
  · exact ⟨Or.inr ⟨d, _, hd, rfl⟩, fun _ h => (by cases h; simp), fun _ _ h => (by cases h)⟩
  · obtain ⟨k, hk⟩ : ∃ k, decpt.toNat = k + 1 := ⟨decpt.toNat - 1, by omega⟩
    refine ⟨Or.inr ⟨d, ds.take k, hd, by simp [hk]⟩, fun _ h => ?_, fun _ _ h => by cases h⟩
    cases h
    simp only [ne_eq, List.drop_eq_nil_iff]
    omega

theorem layout_not_int : (layout neg ds decpt).isInt = false := by
  unfold layout Numeral.isInt
  split_ifs <;> simp

theorem layout_neg : (layout neg ds decpt).neg = neg := by
  unfold layout
  split_ifs <;> rfl

theorem expVal_expDigits (ip : List Digit) (fp : Option (List Digit)) (z : Int) :
    Numeral.expVal ⟨neg, ip, fp, some (z < 0, expDigits z.natAbs)⟩ = z := by
  by_cases h : z < 0
  · simp only [Numeral.expVal, h, decide_true, natOf_expDigits]; omega
  · simp only [Numeral.expVal, h, decide_false, natOf_expDigits]; omega

theorem natOf_append_zeros (ds : List Digit) (n : Nat) : natOf (ds ++ zeros n) = natOf ds * 10 ^ n := by
  rw [natOf_append, natOf_zeros, zeros, List.length_replicate, Nat.add_zero]

/-- The point stands after `decpt` digits. -/
theorem layout_magnitude (hne : ds ≠ []) :
    (layout neg ds decpt).magnitude = natOf ds * 10 ^ (decpt - ds.length) := by
  have hlen : 0 < ds.length := List.length_pos_of_ne_nil hne
  unfold layout
  split_ifs with h1 h2 h3 h4
  · -- one digit and an exponent
    have hds : ds.take 1 = ds := List.take_of_length_le h2
    have he : decpt - 1 - ((0 : Nat) : Int) = decpt - ds.length := by omega
    simp only [Numeral.magnitude, expVal_expDigits, Option.getD_none, List.append_nil, List.length_nil, hds, he]
  · -- the point after the first digit, and an exponent
    have he : decpt - 1 - ((ds.length - 1 : Nat) : Int) = decpt - ds.length := by omega
    simp only [Numeral.magnitude, expVal_expDigits, Option.getD_some, List.take_append_drop, List.length_drop, he]
  · -- zeros after the point
    have hn : natOf ([0] ++ (zeros (-decpt).toNat ++ ds)) = natOf ds := by
      rw [List.singleton_append, natOf_zero_cons, natOf_append, natOf_zeros, Nat.zero_mul, Nat.zero_add]
    have he : 0 - (((-decpt).toNat + ds.length : Nat) : Int) = decpt - ds.length := by omega
    have hz : (zeros (-decpt).toNat ++ ds).length = (-decpt).toNat + ds.length := by simp [zeros]
    simp only [Numeral.magnitude, Numeral.expVal, Option.getD_some, hn, hz]
    rw [he]
  · -- zeros before the point
    have hn : natOf (ds ++ zeros (decpt.toNat - ds.length) ++ [0]) =
      natOf ds * 10 ^ (decpt.toNat - ds.length + 1) := by
      rw [show [0] = zeros 1 from rfl, natOf_append_zeros, natOf_append_zeros, pow_succ, Nat.mul_assoc]; rfl
    have he : decpt - ds.length = ((decpt.toNat - ds.length + 1 : Nat) : Int) + (0 - ((1 : Nat) : Int)) := by omega
    simp only [Numeral.magnitude, Numeral.expVal, Option.getD_some, hn, List.length_singleton]
    rw [he, zpow_add₀ (by norm_num), zpow_natCast]
    push_cast
    ring
  · -- the point inside the digits
    have he : 0 - ((ds.length - decpt.toNat : Nat) : Int) = decpt - ds.length := by omega
    simp only [Numeral.magnitude, Numeral.expVal, Option.getD_some, List.take_append_drop, List.length_drop, he]

end

theorem shortest_digits {x : Magnitude} (h : x.m ≠ 0) : (shortest x).digits ≠ 0 := by
  intro h0
  have hq : ofRat 0 = some x := by
    rw [← ofRat_shortest x, Decimal.value, h0, Nat.cast_zero, zero_mul]
  have hz : (ofRat 0).map Magnitude.m = some 0 := by decide +kernel
  rw [hq] at hz
  exact h (Option.some.inj hz)

theorem floatNumeral_wf (neg : Bool) (x : Magnitude) : (floatNumeral neg x).WF := by
  unfold floatNumeral
  split_ifs with h
  · exact ⟨Or.inl rfl, fun _ h => (by cases h; simp), fun _ _ h => (by cases h)⟩
  · obtain ⟨d, ds, hd, hds⟩ := toDigits_head (shortest_digits h)
    rw [decimalNumeral, hds]
    exact layout_wf _ hd

theorem floatNumeral_not_int (neg : Bool) (x : Magnitude) : (floatNumeral neg x).isInt = false := by
  unfold floatNumeral
  split_ifs
  · rfl
  · exact layout_not_int _

/-- Reading back the repr of a double gives the double. -/
theorem floatNumeral_toFloat (neg : Bool) (x : Magnitude) : (floatNumeral neg x).toFloat = .finite neg x := by
  unfold floatNumeral
  split_ifs with h
  · have hz : Numeral.magnitude ⟨neg, [0], some [0], none⟩ = x.value := by
      have hn : natOf ([0] ++ [0]) = 0 := by decide
      simp only [Numeral.magnitude, Option.getD_some, hn, Magnitude.value, h, Nat.cast_zero, zero_mul]
    rw [Numeral.toFloat, hz, Float64.ofRat, ofRat_value]
  · have hne : toDigits (shortest x).digits ≠ [] := by
      obtain ⟨d, ds, hds⟩ := toDigits_cons (shortest x).digits
      rw [hds]; exact List.cons_ne_nil _ _
    have hm : (decimalNumeral neg (shortest x)).magnitude = (shortest x).value := by
      rw [decimalNumeral, layout_magnitude _ hne, natOf_toDigits, Decimal.value, add_sub_cancel_left]
    have hn : (decimalNumeral neg (shortest x)).neg = neg := layout_neg _
    rw [Numeral.toFloat, hm, hn, Float64.ofRat, ofRat_shortest]

/-! ## Strings -/

theorem joinItems_unit {u : CodePoint} (h : isHigh u.val = false) (l : List StrItem) :
    joinItems (.unit u :: l) = u :: joinItems l := by
  match l with
  | [] => simp [joinItems]
  | .raw c :: l => simp [joinItems]
  | .unit v :: l => rw [joinItems, dif_neg (by simp [h])]

theorem hexVal?_hexDigit : ∀ n < 16, hexVal? (hexDigit n) = some n := by decide

theorem hex4_unitText {n : Nat} (h : n < 0x10000) :
    hex4 (hexDigit (n / 0x1000 % 16)) (hexDigit (n / 0x100 % 16)) (hexDigit (n / 0x10 % 16)) (hexDigit (n % 16)) =
      some ⟨n, by omega⟩ := by
  have hdigit : ∀ m, hexVal? (hexDigit (m % 16)) = some (m % 16) :=
    fun m => hexVal?_hexDigit _ (Nat.mod_lt _ (by decide))
  have hn : n / 0x1000 % 16 * 0x1000 + n / 0x100 % 16 * 0x100 + n / 0x10 % 16 * 0x10 + n % 16 = n := by omega
  simp only [hex4, hdigit, hn]
  rw [CodePoint.ofNat?, dif_pos]

inductive CharForm (ascii : Bool) (c : CodePoint) : Text → Prop
  | short {e : CodePoint} : simpleEscape e = some c → c.val < 0x7F → e.val < 0x7F → CharForm ascii c [ch '\\', e]
  | plain : c ≠ ch '"' → c ≠ ch '\\' → 0x20 ≤ c.val → (ascii = true → c.val < 0x7F) → CharForm ascii c [c]
  | unit : c.val < 0x10000 → (ascii = false → c.val < 0x20) → CharForm ascii c (unitText c.val)
  | units : ascii = true → 0x10000 ≤ c.val →
      CharForm ascii c (unitText (0xD800 + (c.val - 0x10000) / 0x400) ++
        unitText (0xDC00 + (c.val - 0x10000) % 0x400))

theorem escapeChar_form (ascii : Bool) (c : CodePoint) : CharForm ascii c (escapeChar ascii c) := by
  have hshort : ∀ e d : CodePoint, simpleEscape e = some d → d.val < 0x7F → e.val < 0x7F → c = d →
      CharForm ascii c [ch '\\', e] := by
    intro e d he hd hlow hc
    rw [← hc] at he hd
    exact .short he hd hlow
  unfold escapeChar
  by_cases h1 : c = ch '"'
  · rw [if_pos h1]
    exact hshort _ _ (by decide) (by decide) (by decide) h1
  rw [if_neg h1]
  by_cases h2 : c = ch '\\'
  · rw [if_pos h2]
    exact hshort _ _ (by decide) (by decide) (by decide) h2
  rw [if_neg h2]
  by_cases h3 : c = ch '\n'
  · rw [if_pos h3]
    exact hshort _ _ (by decide) (by decide) (by decide) h3
  rw [if_neg h3]
  by_cases h4 : c = ch '\r'
  · rw [if_pos h4]
    exact hshort _ _ (by decide) (by decide) (by decide) h4
  rw [if_neg h4]
  by_cases h5 : c = ch '\t'
  · rw [if_pos h5]
    exact hshort _ _ (by decide) (by decide) (by decide) h5
  rw [if_neg h5]
  by_cases h6 : c.val = 12
  · rw [if_pos h6]
    exact hshort _ ⟨12, by decide⟩ (by decide) (by decide) (by decide) (CodePoint.ext' h6)
  rw [if_neg h6]
  by_cases h7 : c.val = 8
  · rw [if_pos h7]
    exact hshort _ ⟨8, by decide⟩ (by decide) (by decide) (by decide) (CodePoint.ext' h7)
  rw [if_neg h7]
  by_cases h8 : c.val < 0x20
  · rw [if_pos h8]
    exact .unit (by omega) fun _ => h8
  rw [if_neg h8]
  have hplain : (!ascii || decide (c.val < 0x7F)) = true ↔ (ascii = true → c.val < 0x7F) := by
    cases ascii <;> simp
  by_cases h9 : ascii = true → c.val < 0x7F
  · rw [if_pos (hplain.mpr h9)]
    exact .plain h1 h2 (by omega) h9
  rw [if_neg (mt hplain.mp h9)]
  obtain ⟨hascii, _⟩ := Classical.not_imp.mp h9
  by_cases h10 : c.val < 0x10000
  · rw [if_pos h10]
    refine .unit h10 fun hnot => ?_
    rw [hascii] at hnot
    cases hnot
  · rw [if_neg h10]
    exact .units hascii (by omega)

/-- An escaped character reads as itself, whatever follows. -/
theorem escapeChar_item (c : CodePoint) {l : Text} {is : List StrItem} {r : Text} (h : StrItems l is r) :
    ∃ i, StrItems (escapeChar false c ++ l) (i :: is) r ∧ joinItems (i :: is) = c :: joinItems is := by
  have hform := escapeChar_form false c
  generalize escapeChar false c = t at hform
  cases hform with
  | short he => exact ⟨.raw c, .escape he h, rfl⟩
  | plain hquote hslash hlow => exact ⟨.raw c, .char hquote hslash hlow h, rfl⟩
  | unit hlt hcontrol =>
    have hc : c.val < 0x20 := hcontrol rfl
    have hu : isHigh c.val = false := by
      simp [isHigh]
      omega
    exact ⟨.unit c, .unit (hex4_unitText hlt) h, joinItems_unit hu is⟩
  | units hascii => cases hascii

theorem strBody_text (s r : Text) : StrBody (s.flatMap (escapeChar false) ++ ch '"' :: r) s r := by
  have hitems : ∃ is, StrItems (s.flatMap (escapeChar false) ++ ch '"' :: r) is r ∧ joinItems is = s := by
    induction s with
    | nil => exact ⟨[], .close, rfl⟩
    | cons c s ih =>
      obtain ⟨is, his, hs⟩ := ih
      obtain ⟨i, hi, hc⟩ := escapeChar_item c his
      refine ⟨i :: is, ?_, by rw [hc, hs]⟩
      rwa [List.flatMap_cons, List.append_assoc]
  obtain ⟨is, his, hs⟩ := hitems
  have hb := StrBody.mk his
  rwa [hs] at hb

/-! ## Values -/

section
variable {enc : Encoder}

theorem float_val {x : Float64} {s : Text} (h : enc.float x = .ok s) (r : Text) :
    Val (s ++ r) (Value.float x).tree r := by
  unfold Encoder.float at h
  match x, h with
  | .finite neg x, h =>
    cases h
    exact .num (num_text (floatNumeral_wf neg x) r)
  | .nan, h =>
    dsimp only at h
    split at h <;> cases h
    exact .const
  | .inf false, h =>
    dsimp only at h
    split at h <;> cases h
    exact .const
  | .inf true, h =>
    dsimp only at h
    split at h <;> cases h
    exact .const

theorem int_val {z : Int} {s : Text} (h : enc.int z = .ok s) (r : Text) : Val (s ++ r) (Value.int z).tree r := by
  unfold Encoder.int at h
  split at h <;> cases h
  exact .num (num_text (intNumeral_wf z) r)

theorem dumpsElems_cons {d : Nat} {v : Value} {vs : List Value} {l : List Text}
    (h : enc.dumpsElems d (v :: vs) = .ok l) : ∃ s l', l = s :: l' := by
  simp only [Encoder.dumpsElems] at h
  split at h
  · cases h
  split at h <;> cases h
  exact ⟨_, _, rfl⟩

theorem dumpsMembers_cons {d : Nat} {m : Text × Value} {ms : List (Text × Value)} {l : List Text}
    (h : enc.dumpsMembers d (m :: ms) = .ok l) : ∃ s l', l = s :: l' := by
  simp only [Encoder.dumpsMembers] at h
  split at h
  · cases h
  split at h <;> cases h
  exact ⟨_, _, rfl⟩

/-- The text printed for `v` derives the tree of `v` with its strings under `f`, wherever it stands. -/
def PrintsAs (enc : Encoder) (f : Text → Text) (v : Value) : Prop :=
  ∀ d s, enc.dumps d v = .ok s → ∀ r, Val (s ++ r) (v.mapTexts f).tree r

def Prints (enc : Encoder) (v : Value) : Prop :=
  ∀ d s, enc.dumps d v = .ok s → ∀ r, Val (s ++ r) v.tree r

theorem strText_body (k r : Text) :
    strText enc.ensureAscii k ++ r = ch '"' :: (k.flatMap (escapeChar enc.ensureAscii) ++ ch '"' :: r) := by
  simp [strText]

section
variable {f : Text → Text}

theorem elems_val {v : Value} {vs : List Value} (hv : ∀ w ∈ v :: vs, PrintsAs enc f w) {d : Nat} {l : List Text}
    (h : enc.dumpsElems d (v :: vs) = .ok l) (r : Text) :
    Elems (commas (ch ']') l ++ r) (trees (mapTextsElems f (v :: vs))) r := by
  induction vs generalizing v l with
  | nil =>
    simp only [Encoder.dumpsElems] at h
    split at h <;> cases h
    rename_i s hs
    simp only [commas, List.append_assoc]
    exact .last (hv v (by simp) d s hs _) .nil
  | cons v' vs ih =>
    rw [Encoder.dumpsElems] at h
    split at h
    · cases h
    rename_i s hs
    split at h <;> cases h
    rename_i l hl
    have hrest := ih (fun w hw => hv w (List.mem_cons_of_mem _ hw)) hl
    obtain ⟨s', l', rfl⟩ := dumpsElems_cons hl
    simp only [commas, List.append_assoc]
    exact .more (hv v (by simp) d s hs _) .nil .nil hrest

variable (hstr : ∀ k r, StrBody (k.flatMap (escapeChar enc.ensureAscii) ++ ch '"' :: r) (f k) r)
include hstr

theorem members_val {m : Text × Value} {ms : List (Text × Value)} (hv : ∀ n ∈ m :: ms, PrintsAs enc f n.2) {d : Nat}
    {l : List Text} (h : enc.dumpsMembers d (m :: ms) = .ok l) (r : Text) :
    Membs (commas (ch '}') l ++ r) (memberTrees (mapTextsMembers f (m :: ms))) r := by
  induction ms generalizing m l with
  | nil =>
    simp only [Encoder.dumpsMembers] at h
    split at h <;> cases h
    rename_i s hs
    simp only [commas, List.append_assoc, strText_body, List.cons_append]
    exact .last (hstr _ _) .nil .nil (hv m (by simp) d s hs _) .nil
  | cons m' ms ih =>
    rw [Encoder.dumpsMembers] at h
    split at h
    · cases h
    rename_i s hs
    split at h <;> cases h
    rename_i l hl
    have hrest := ih (fun n hn => hv n (List.mem_cons_of_mem _ hn)) hl
    obtain ⟨s', l', rfl⟩ := dumpsMembers_cons hl
    simp only [commas, List.append_assoc, strText_body, List.cons_append]
    exact .more (hstr _ _) .nil .nil (hv m (by simp) d s hs _) .nil .nil hrest

/-- What is printed for a value derives the tree of what its strings are read as. -/
theorem dumps_printsAs (v : Value) : PrintsAs enc f v := by
  intro d s h r
  induction v using Value.nested generalizing d s r with
  | null => simp only [Encoder.dumps] at h; cases h; exact .null
  | bool b => simp only [Encoder.dumps] at h; cases h; exact .bool
  | int z => simp only [Encoder.dumps] at h; exact int_val h r
  | float x => simp only [Encoder.dumps] at h; exact float_val h r
  | str k =>
    simp only [Encoder.dumps] at h
    cases h
    rw [strText_body]
    exact .str (hstr k r)
  | arr vs ih =>
    cases d with
    | zero => simp [Encoder.dumps] at h
    | succ d =>
      simp only [Encoder.dumps] at h
      split at h <;> cases h
      rename_i l hl
      cases vs with
      | nil => simp only [Encoder.dumpsElems] at hl; cases hl; exact .arrNil .nil
      | cons v vs => exact .arr .nil (elems_val ih hl r)
  | obj ms ih =>
    cases d with
    | zero => simp [Encoder.dumps] at h
    | succ d =>
      simp only [Encoder.dumps] at h
      split at h <;> cases h
      rename_i l hl
      cases ms with
      | nil => simp only [Encoder.dumpsMembers] at hl; cases hl; exact .objNil .nil
      | cons m ms => exact .obj .nil (members_val hstr ih hl r)

theorem dumps_derives {v : Value} {d : Nat} {s : Text} (h : enc.dumps d v = .ok s) :
    Document s (v.mapTexts f).tree := by
  have := dumps_printsAs hstr v d s h []
  rw [List.append_nil] at this
  exact ⟨s, [], .nil, this, .nil⟩

end

theorem mapTextsElems_self {f : Text → Text} {vs : List Value} (h : ∀ v ∈ vs, v.mapTexts f = v) :
    mapTextsElems f vs = vs := by
  induction vs with
  | nil => rfl
  | cons v vs ih =>
    obtain ⟨hv, hvs⟩ := List.forall_mem_cons.mp h
    rw [mapTextsElems, hv, ih hvs]

theorem mapTextsMembers_self {f : Text → Text} {ms : List (Text × Value)}
    (h : ∀ m ∈ ms, f m.1 = m.1 ∧ m.2.mapTexts f = m.2) :
    mapTextsMembers f ms = ms := by
  induction ms with
  | nil => rfl
  | cons m ms ih =>
    obtain ⟨hm, hms⟩ := List.forall_mem_cons.mp h
    rw [mapTextsMembers, hm.1, hm.2, ih hms]

theorem mapTexts_id (v : Value) : v.mapTexts id = v := by
  induction v using Value.nested with
  | arr vs ih => rw [Value.mapTexts, mapTextsElems_self ih]
  | obj ms ih => rw [Value.mapTexts, mapTextsMembers_self fun m hm => ⟨rfl, ih m hm⟩]
  | _ => rfl

variable (hascii : enc.ensureAscii = false)
include hascii

theorem dumps_val (v : Value) : Prints enc v := by
  intro d s h r
  have hstr : ∀ k r, StrBody (k.flatMap (escapeChar enc.ensureAscii) ++ ch '"' :: r) (id k) r := by
    rw [hascii]
    exact strBody_text
  have := dumps_printsAs hstr v d s h r
  rwa [mapTexts_id] at this

theorem dumps_document {v : Value} {d : Nat} {s : Text} (h : enc.dumps d v = .ok s) : Document s v.tree := by
  have := dumps_val hascii v d s h []
  rw [List.append_nil] at this
  exact ⟨s, [], .nil, this, .nil⟩

end

end Json
