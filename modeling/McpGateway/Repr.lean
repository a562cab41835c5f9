import McpGateway.DumpsSound
import McpGateway.Python

/-!
# A repr tells the string

Every character of a repr is read back, so the repr of a string, and of a list
of strings, belongs to that string or list alone.
-/

namespace McpGateway

open Unicode Json

/-! ## Hexadecimal numbers -/

def hexValue (ds : Text) : Nat := ds.foldl (fun n d => n * 16 + (hexVal? d).getD 0) 0

theorem hexText_succ (width n : Nat) :
    hexText (width + 1) n = hexDigit (n / 16 ^ width % 16) :: hexText width n := by
  simp [hexText, List.range_succ]

theorem hexText_length (width n : Nat) : (hexText width n).length = width := by
  simp [hexText]

theorem hexValue_hexText {width n : Nat} (h : n < 16 ^ width) : hexValue (hexText width n) = n := by
  have hfold : ∀ acc, (hexText width n).foldl (fun n d => n * 16 + (hexVal? d).getD 0) acc = acc * 16 ^ width +
    n % 16 ^ width := by
    clear h
    induction width with
    | zero => simp [hexText, Nat.mod_one]
    | succ width ih =>
      intro acc
      have hdigit : hexVal? (hexDigit (n / 16 ^ width % 16)) = some (n / 16 ^ width % 16) :=
        hexVal?_hexDigit _ (Nat.mod_lt _ (by decide))
      rw [hexText_succ, List.foldl_cons, ih, hdigit, Option.getD_some, Nat.mod_pow_succ, pow_succ]
      ring
  rw [hexValue, hfold, Nat.zero_mul, Nat.zero_add, Nat.mod_eq_of_lt h]

/-! ## Characters -/

def readHex (width : Nat) (l : Text) : Option (CodePoint × Text) :=
  match CodePoint.ofNat? (hexValue (l.take width)) with
  | some c => some (c, l.drop width)
  | none => none

def readChar : Text → Option (CodePoint × Text)
  | [] => none
  | c :: l =>
    if c ≠ ch '\\' then some (c, l)
    else
      match l with
      | [] => none
      | e :: l =>
        if e = ch 't' then some (ch '\t', l)
        else if e = ch 'n' then some (ch '\n', l)
        else if e = ch 'r' then some (ch '\r', l)
        else if e = ch 'x' then readHex 2 l
        else if e = ch 'u' then readHex 4 l
        else if e = ch 'U' then readHex 8 l
        else some (e, l)

theorem readHex_hexText {width : Nat} {c : CodePoint} (h : c.val < 16 ^ width) (r : Text) :
    readHex width (hexText width c.val ++ r) = some (c, r) := by
  have hlen := hexText_length width c.val
  have htake : (hexText width c.val ++ r).take width = hexText width c.val := List.take_left' hlen
  have hdrop : (hexText width c.val ++ r).drop width = r := List.drop_left' hlen
  rw [readHex, htake, hdrop, hexValue_hexText h, CodePoint.ofNat?, dif_pos c.lt]

theorem readChar_escape (e : CodePoint) (l : Text) : readChar (ch '\\' :: e :: l) =
    if e = ch 't' then some (ch '\t', l) else if e = ch 'n' then some (ch '\n', l) else if e = ch 'r' then
    some (ch '\r', l)
    else if e = ch 'x' then readHex 2 l else if e = ch 'u' then readHex 4 l else if e = ch 'U' then readHex 8 l
    else some (e, l) := by
  rw [readChar, if_neg (not_not.mpr rfl)]

section
variable {isPrintable : CodePoint → Bool} {quote : CodePoint} (hquote : quote = apostrophe ∨ quote = ch '"')
include hquote

theorem readChar_reprChar (c : CodePoint) (r : Text) :
    readChar (reprChar isPrintable quote c ++ r) = some (c, r) := by
  have hc := c.lt
  unfold reprChar
  split_ifs with h1 h2 h3 h4 h5 h6 h7 h8
  · have hplain : c = apostrophe ∨ c = ch '"' ∨ c = ch '\\' := by
      obtain rfl | rfl := h1
      · exact hquote.imp_right Or.inl
      · exact Or.inr (Or.inr rfl)
    rw [List.cons_append, List.cons_append, readChar_escape]
    obtain rfl | rfl | rfl := hplain <;> rfl
  · rw [h2]
    rfl
  · rw [h3]
    rfl
  · rw [h4]
    rfl
  · exact readHex_hexText (by omega) r
  · exact if_pos fun hslash => h1 (Or.inr hslash)
  · exact readHex_hexText (by omega) r
  · exact readHex_hexText (by omega) r
  · exact readHex_hexText (by omega) r

theorem reprChar_inj {c d : CodePoint} {r s : Text}
    (h : reprChar isPrintable quote c ++ r = reprChar isPrintable quote d ++ s) :
    c = d ∧ r = s := by
  have hread := congrArg readChar h
  rw [readChar_reprChar hquote, readChar_reprChar hquote] at hread
  cases hread
  exact ⟨rfl, rfl⟩

theorem reprChar_quote (c : CodePoint) (r s : Text) : reprChar isPrintable quote c ++ r ≠ quote :: s := by
  have hslash : ch '\\' ≠ quote := by
    obtain rfl | rfl := hquote <;> decide
  intro h
  have hhead := congrArg List.head? h
  revert hhead
  unfold reprChar
  split_ifs with h1 h2 h3 h4 h5 h6 h7 h8
  · simp [hslash]
  · exact fun hhead => hslash (Option.some.inj hhead)
  · exact fun hhead => hslash (Option.some.inj hhead)
  · exact fun hhead => hslash (Option.some.inj hhead)
  · exact fun hhead => hslash (Option.some.inj hhead)
  · exact fun hhead => h1 (Or.inl (Option.some.inj hhead))
  · exact fun hhead => hslash (Option.some.inj hhead)
  · exact fun hhead => hslash (Option.some.inj hhead)
  · exact fun hhead => hslash (Option.some.inj hhead)

theorem quoted_inj {s t a b : Text}
    (h : s.flatMap (reprChar isPrintable quote) ++ quote :: a = t.flatMap (reprChar isPrintable quote) ++ quote ::
    b) :
    s = t ∧ a = b := by
  induction s generalizing t with
  | nil =>
    cases t with
    | nil => exact ⟨rfl, (List.cons.inj h).2⟩
    | cons d t =>
      rw [List.flatMap_cons, List.append_assoc] at h
      exact absurd h.symm (reprChar_quote hquote _ _ _)
  | cons c s ih =>
    cases t with
    | nil =>
      rw [List.flatMap_cons, List.append_assoc] at h
      exact absurd h (reprChar_quote hquote _ _ _)
    | cons d t =>
      rw [List.flatMap_cons, List.flatMap_cons, List.append_assoc, List.append_assoc] at h
      obtain ⟨rfl, hrest⟩ := reprChar_inj hquote h
      obtain ⟨rfl, hab⟩ := ih hrest
      exact ⟨rfl, hab⟩

end

/-! ## Strings and lists -/

variable {isPrintable : CodePoint → Bool}

theorem strRepr_quoted (s : Text) : ∃ quote, (quote = apostrophe ∨ quote = ch '"') ∧
    ∀ a, strRepr isPrintable s ++ a = quote :: (s.flatMap (reprChar isPrintable quote) ++ quote :: a) := by
  rw [strRepr]
  split
  · exact ⟨_, Or.inr rfl, fun a => by simp⟩
  · exact ⟨_, Or.inl rfl, fun a => by simp⟩

/-- A repr ends where its string does. -/
theorem strRepr_inj {s t a b : Text} (h : strRepr isPrintable s ++ a = strRepr isPrintable t ++ b) :
    s = t ∧ a = b := by
  obtain ⟨quote, hquote, hs⟩ := @strRepr_quoted isPrintable s
  obtain ⟨quote', _, ht⟩ := @strRepr_quoted isPrintable t
  rw [hs, ht] at h
  obtain ⟨rfl, hrest⟩ := List.cons.inj h
  exact quoted_inj hquote hrest

theorem strRepr_bracket (s a b : Text) : strRepr isPrintable s ++ a ≠ ch ']' :: b := by
  obtain ⟨quote, hquote, hs⟩ := @strRepr_quoted isPrintable s
  rw [hs]
  intro h
  have hhead := (List.cons.inj h).1
  obtain rfl | rfl := hquote
  · exact absurd hhead (by decide)
  · exact absurd hhead (by decide)

theorem reprs_cons (s : Text) (l : List Text) :
    ∃ a, (txt ", ").intercalate ((s :: l).map (strRepr isPrintable)) ++ [ch ']'] =
    strRepr isPrintable s ++ a ∧ (l = [] → a = [ch ']']) ∧
      (l ≠ [] → a = txt ", " ++ ((txt ", ").intercalate (l.map (strRepr isPrintable)) ++ [ch ']'])) := by
  cases l with
  | nil => exact ⟨[ch ']'], by simp, fun _ => rfl, fun h => absurd rfl h⟩
  | cons t l =>
    refine ⟨_, ?_, fun h => (by cases h), fun _ => rfl⟩
    simp

theorem reprs_inj {l m : List Text} (h : (txt ", ").intercalate (l.map (strRepr isPrintable)) ++ [ch ']'] =
    (txt ", ").intercalate (m.map (strRepr isPrintable)) ++ [ch ']']) : l = m := by
  induction l generalizing m with
  | nil =>
    cases m with
    | nil => rfl
    | cons t m =>
      obtain ⟨a, ha, _⟩ := @reprs_cons isPrintable t m
      rw [ha] at h
      exact absurd h.symm (strRepr_bracket _ _ _)
  | cons s l ih =>
    obtain ⟨a, ha, hnil, hcons⟩ := @reprs_cons isPrintable s l
    cases m with
    | nil =>
      rw [ha] at h
      exact absurd h (strRepr_bracket _ _ _)
    | cons t m =>
      obtain ⟨b, hb, hnil', hcons'⟩ := @reprs_cons isPrintable t m
      rw [ha, hb] at h
      obtain ⟨rfl, rfl⟩ := strRepr_inj h
      by_cases hl : l = []
      · by_cases hm : m = []
        · rw [hl, hm]
        · have hbracket := (hnil hl).symm.trans (hcons' hm)
          exact absurd (List.cons.inj hbracket).1 (by decide)
      · by_cases hm : m = []
        · have hbracket := (hnil' hm).symm.trans (hcons hl)
          exact absurd (List.cons.inj hbracket).1 (by decide)
        · have hrest := (hcons hl).symm.trans (hcons' hm)
          rw [ih (List.append_cancel_left hrest)]

theorem listRepr_inj {l m : List Text} (h : listRepr isPrintable l = listRepr isPrintable m) : l = m := by
  rw [listRepr, listRepr] at h
  exact reprs_inj (List.cons.inj h).2

end McpGateway
