import McpGateway.JsonStrict

/-!
# When the scanner runs out of recursion

The scanner fails on nesting exactly when it meets a bracket below its last
level before anything else is wrong with the text.
-/

namespace Json

open Unicode Binary64

mutual
/-- A value whose scan goes more than `d` levels down, the trees before it fitting the reader. -/
inductive TooDeep (fits : Tree → Prop) : Nat → Text → Prop
  | arrBottom {l} : TooDeep fits 0 (ch '[' :: l)
  | objBottom {l} : TooDeep fits 0 (ch '{' :: l)
  | arr {d l l₁} : Ws l l₁ → TooDeepElems fits d l₁ → TooDeep fits (d + 1) (ch '[' :: l)
  | obj {d l l₁} : Ws l l₁ → TooDeepMembers fits d l₁ → TooDeep fits (d + 1) (ch '{' :: l)
inductive TooDeepElems (fits : Tree → Prop) : Nat → Text → Prop
  | here {d l} : TooDeep fits d l → TooDeepElems fits d l
  | later {d l t l₁ l₂ l₃} : Val l t l₁ → t.depth ≤ d → fits t → Ws l₁ (ch ',' :: l₂) → Ws l₂ l₃ →
      TooDeepElems fits d l₃ → TooDeepElems fits d l
inductive TooDeepMembers (fits : Tree → Prop) : Nat → Text → Prop
  | here {d l k l₁ l₂ l₃} : StrBody l k l₁ → Ws l₁ (ch ':' :: l₂) → Ws l₂ l₃ → TooDeep fits d l₃ →
      TooDeepMembers fits d (ch '"' :: l)
  | later {d l k l₁ l₂ l₃ t l₄ l₅ l₆} : StrBody l k l₁ → Ws l₁ (ch ':' :: l₂) → Ws l₂ l₃ →
      Val l₃ t l₄ → t.depth ≤ d →
      fits t → Ws l₄ (ch ',' :: l₅) → Ws l₅ l₆ → TooDeepMembers fits d l₆ → TooDeepMembers fits d (ch '"' :: l)
end

def TooDeepText (fits : Tree → Prop) (d : Nat) (l : Text) : Prop := ∃ l₁, Ws l l₁ ∧ TooDeep fits d l₁

abbrev DeepText (limit : Option Nat) : Nat → Text → Prop := TooDeepText (Tree.Clean limit)

variable {fits : Tree → Prop}

theorem tooDeep_head {d : Nat} {l : Text} (h : TooDeep fits d l) : ∃ c l', l = c :: l' ∧ isWs c = false ∧
    c ≠ ch ']' := by
  cases h with
  | arrBottom => exact ⟨_, _, rfl, by decide⟩
  | objBottom => exact ⟨_, _, rfl, by decide⟩
  | arr _ _ => exact ⟨_, _, rfl, by decide⟩
  | obj _ _ => exact ⟨_, _, rfl, by decide⟩

theorem tooDeepElems_head {d : Nat} {l : Text} (h : TooDeepElems fits d l) :
    ∃ c l', l = c :: l' ∧ isWs c = false ∧ c ≠ ch ']' := by
  cases h with
  | here hd => exact tooDeep_head hd
  | later hv _ _ _ _ _ => exact val_head hv

theorem tooDeepMembers_head {d : Nat} {l : Text} (h : TooDeepMembers fits d l) : ∃ l', l = ch '"' :: l' := by
  cases h with
  | here _ _ _ _ => exact ⟨_, rfl⟩
  | later _ _ _ _ _ _ _ _ _ => exact ⟨_, rfl⟩

variable {ε : Type} (dec : Decoder ε)

/-! ## Too deep, hence refused -/

section
variable (hok : ∀ {t : Tree} {d : Nat}, t.depth ≤ d → fits t → ∃ v, dec.eval d t = .ok v)
include hok
set_option linter.unusedSectionVars false

mutual
theorem scanValue_deep {d : Nat} {l : Text} (h : TooDeep fits d l) : scanValue dec d l = .error .recursion := by
  rw [scanValue_eq]
  match h with
  | .arrBottom => rw [scanOnce_array]; rfl
  | .objBottom => rw [scanOnce_object]; rfl
  | .arr hw he =>
    obtain ⟨c, l', rfl, hc, hne⟩ := tooDeepElems_head he
    have hrec := scanElems_deep he _ (Nat.le_refl _)
    rw [scanOnce_array]
    simp only [scanArray, nestedAt, skipWs_char hw hc, if_neg hne, hrec]
  | .obj hw hm =>
    obtain ⟨l', rfl⟩ := tooDeepMembers_head hm
    have hrec := scanMembers_deep hm _ (Nat.le_refl _)
    have hne : ch '"' ≠ ch '}' := by decide
    rw [scanOnce_object]
    simp only [scanObject, nestedAt, skipWs_char hw (show isWs (ch '"') = false by decide), if_neg hne, hrec]
termination_by (d, 0)
theorem scanElems_deep {d : Nat} {l : Text} (h : TooDeepElems fits d l) (n : Nat) (hn : l.length ≤ n) :
    scanElems (scanValue dec d) n l = .error .recursion := by
  match n, h with
  | 0, h =>
    obtain ⟨c, l', rfl, _⟩ := tooDeepElems_head h
    simp at hn
  | n + 1, .here hd => simp only [scanElems, scanValue_deep hd]
  | n + 1, .later hv hd hc hw hw' he =>
    obtain ⟨v, hval⟩ := hok hd hc
    have hscan := scanValue_complete dec hv (follow_ws hw (follow_cons (by simp))) d
    have hlen := val_length hv
    have hlen₂ := ws_length_cons hw
    have hlen₃ := ws_length hw'
    have hrest := scanElems_deep he n (by omega)
    have hne : ch ',' ≠ ch ']' := by decide
    obtain ⟨c, l', rfl, hc', _⟩ := tooDeepElems_head he
    simp only [scanElems, hscan, hval, leaving, skipWs_char hw (show isWs (ch ',') = false by decide),
      if_neg hne, if_true, skipWs_char hw' hc', hrest]
termination_by (d, n)
theorem scanMembers_deep {d : Nat} {l : Text} (h : TooDeepMembers fits d l) (n : Nat) (hn : l.length ≤ n) :
    scanMembers (scanValue dec d) n l = .error .recursion := by
  match n, h with
  | 0, h =>
    obtain ⟨l', rfl⟩ := tooDeepMembers_head h
    simp at hn
  | n + 1, .here hk hcol hw hd =>
    simp only [scanMembers, scanKey_complete hk hcol hw (tooDeep_head hd), scanValue_deep hd]
  | n + 1, .later hk hcol hw hv hd hc hw' hw'' hm =>
    obtain ⟨v, hval⟩ := hok hd hc
    have hscan := scanValue_complete dec hv (follow_ws hw' (follow_cons (by simp))) d
    have hlen := strBody_length hk
    have hlen₁ := ws_length_cons hcol
    have hlen₂ := ws_length hw
    have hlen₃ := val_length hv
    have hlen₄ := ws_length_cons hw'
    have hlen₅ := ws_length hw''
    simp only [List.length_cons] at hn
    have hrest := scanMembers_deep hm n (by omega)
    have hne : ch ',' ≠ ch '}' := by decide
    obtain ⟨l', rfl⟩ := tooDeepMembers_head hm
    simp only [scanMembers, scanKey_complete hk hcol hw (val_head hv), hscan, hval, leaving,
      skipWs_char hw' (show isWs (ch ',') = false by decide), if_neg hne, if_true,
      skipWs_char hw'' (show isWs (ch '"') = false by decide), hrest]
termination_by (d, n)
end

theorem scanDocument_deep {d : Nat} {l : Text} (h : TooDeepText fits d l) :
    scanDocument dec d l = .error .recursion := by
  obtain ⟨l₁, hw, hd⟩ := h
  obtain ⟨c, l', rfl, hc, _⟩ := tooDeep_head hd
  simp only [scanDocument, skipWs_char hw hc, scanValue_deep dec hok hd]

end

/-! ## Refused, hence too deep -/

theorem hooked_recursion {α : Type} {x : Except ε α} {r : Text} : leaving r (hooked x) ≠ .error .recursion := by
  intro h
  cases x <;> cases h

theorem number_recursion {n : Numeral} {r : Text} : leaving r (dec.number n) ≠ .error .recursion := by
  intro h
  rw [Decoder.number] at h
  split at h
  · split at h <;> cases h
  · cases h

theorem scanWord_recursion (l : Text) : scanWord dec l ≠ some (.error .recursion) := by
  intro h
  unfold scanWord at h
  split at h
  · cases h
  split at h
  · cases h
  split at h
  · cases h
  split at h
  · exact hooked_recursion (Option.some.inj h)
  split at h
  · exact hooked_recursion (Option.some.inj h)
  split at h
  · exact hooked_recursion (Option.some.inj h)
  · cases h

def DeepAt (fits : Tree → Prop) (d : Nat) (scan : Scan ε Value) : Prop := ∀ l, scan l = .error .recursion →
    TooDeep fits d l

section
variable (hclean : ∀ {t : Tree} {d : Nat} {v : Value}, dec.eval d t = .ok v → t.depth ≤ d ∧ fits t)
include hclean

theorem scanElems_recursion {d : Nat} {scan : Scan ε Value} (hs : SoundAt dec d scan) (hd : DeepAt fits d scan) :
    ∀ n l, scanElems scan n l = .error .recursion → TooDeepElems fits d l
  | 0, _, h => by cases h
  | n + 1, l, h => by
    rw [scanElems] at h
    split at h
    · rename_i e he
      cases h
      exact .here (hd l he)
    rename_i v l₁ hv
    obtain ⟨t, ht, het⟩ := hs l v l₁ hv
    obtain ⟨hdepth, hc⟩ := hclean het
    have hw := ws_skipWs l₁
    split at h
    · cases h
    rename_i c l₂ hsk
    rw [hsk] at hw
    by_cases hb : c = ch ']'
    · rw [if_pos hb] at h; cases h
    rw [if_neg hb] at h
    by_cases hcm : c = ch ','
    · rw [if_pos hcm] at h
      split at h
      · rename_i e hrec
        cases h
        exact .later ht hdepth hc (hcm ▸ hw) (ws_skipWs l₂) (scanElems_recursion hs hd n _ hrec)
      · cases h
    · rw [if_neg hcm] at h; cases h

theorem scanMembers_recursion {d : Nat} {scan : Scan ε Value} (hs : SoundAt dec d scan) (hd : DeepAt fits d scan) :
    ∀ n l, scanMembers scan n l = .error .recursion → TooDeepMembers fits d l
  | 0, _, h => by cases h
  | n + 1, l, h => by
    rw [scanMembers] at h
    split at h
    · cases h
    rename_i k l₃ hk
    obtain ⟨l₀, l₁, l₂, rfl, hkey, hcolon, hw₂⟩ := scanKey_sound hk
    split at h
    · rename_i e he
      cases h
      exact .here hkey hcolon hw₂ (hd l₃ he)
    rename_i v l₄ hv
    obtain ⟨t, ht, het⟩ := hs l₃ v l₄ hv
    obtain ⟨hdepth, hc⟩ := hclean het
    have hw := ws_skipWs l₄
    split at h
    · cases h
    rename_i c l₅ hsk
    rw [hsk] at hw
    by_cases hb : c = ch '}'
    · rw [if_pos hb] at h; cases h
    rw [if_neg hb] at h
    by_cases hcm : c = ch ','
    · rw [if_pos hcm] at h
      split at h
      · rename_i e hrec
        cases h
        exact .later hkey hcolon hw₂ ht hdepth hc (hcm ▸ hw) (ws_skipWs l₅) (scanMembers_recursion hs hd n _ hrec)
      · cases h
    · rw [if_neg hcm] at h; cases h

theorem scanArray_recursion {d : Nat} {scan : Scan ε Value} (hs : SoundAt dec d scan)
    (hd : DeepAt fits d scan) {l : Text}
    (h : scanArray (some scan) l = .error .recursion) : TooDeep fits (d + 1) (ch '[' :: l) := by
  rw [scanArray] at h
  have hw := ws_skipWs l
  split at h
  · cases h
  rename_i c r hsk
  rw [hsk] at hw
  by_cases hb : c = ch ']'
  · rw [if_pos hb] at h; cases h
  rw [if_neg hb] at h
  split at h
  · rename_i e he
    cases h
    exact .arr hw (scanElems_recursion dec hclean hs hd _ _ he)
  · cases h

theorem scanObject_recursion {d : Nat} {scan : Scan ε Value} (hs : SoundAt dec d scan)
    (hd : DeepAt fits d scan) {l : Text}
    (h : scanObject dec (some scan) l = .error .recursion) : TooDeep fits (d + 1) (ch '{' :: l) := by
  rw [scanObject] at h
  have hw := ws_skipWs l
  split at h
  · cases h
  rename_i c r hsk
  rw [hsk] at hw
  by_cases hb : c = ch '}'
  · rw [if_pos hb] at h
    exact absurd h hooked_recursion
  rw [if_neg hb] at h
  split at h
  · rename_i e he
    cases h
    exact .obj hw (scanMembers_recursion dec hclean hs hd _ _ he)
  · exact absurd h hooked_recursion

omit hclean in
theorem scanOnce_recursion {nested : Option (Scan ε Value)} {l : Text}
    (h : scanOnce dec nested l = .error .recursion) :
    ∃ l', (l = ch '[' :: l' ∧ scanArray nested l' = .error .recursion) ∨
      (l = ch '{' :: l' ∧ scanObject dec nested l' = .error .recursion) := by
  cases l with
  | nil => cases h
  | cons c l =>
    rw [scanOnce] at h
    by_cases hq : c = ch '"'
    · rw [if_pos hq] at h
      split at h <;> cases h
    rw [if_neg hq] at h
    by_cases hb : c = ch '{'
    · rw [if_pos hb] at h
      exact ⟨l, Or.inr ⟨by rw [hb], h⟩⟩
    rw [if_neg hb] at h
    by_cases ha : c = ch '['
    · rw [if_pos ha] at h
      exact ⟨l, Or.inl ⟨by rw [ha], h⟩⟩
    rw [if_neg ha] at h
    split at h
    · rename_i res hres
      rw [h] at hres
      exact absurd hres (scanWord_recursion dec _)
    split at h
    · exact absurd h (number_recursion dec)
    · cases h

theorem scanValue_recursion : ∀ d, DeepAt fits d (scanValue dec d)
  | 0, l, h => by
    obtain ⟨l', ⟨rfl, _⟩ | ⟨rfl, _⟩⟩ := scanOnce_recursion dec h
    · exact .arrBottom
    · exact .objBottom
  | d + 1, l, h => by
    obtain ⟨l', ⟨rfl, ha⟩ | ⟨rfl, ho⟩⟩ := scanOnce_recursion dec h
    · exact scanArray_recursion dec hclean (scanValue_sound dec d) (scanValue_recursion d) ha
    · exact scanObject_recursion dec hclean (scanValue_sound dec d) (scanValue_recursion d) ho

theorem scanDocument_recursion {d : Nat} {l : Text} (h : scanDocument dec d l = .error .recursion) :
    TooDeepText fits d l := by
  rw [scanDocument] at h
  split at h
  · rename_i e he
    cases h
    exact ⟨skipWs l, ws_skipWs l, scanValue_recursion dec hclean d _ he⟩
  · split at h <;> cases h

end

/-! ## Readers whose hooks refuse nothing -/

section
variable {dec : Decoder ε} (hobj : ∀ ps, ∃ v, dec.objectPairs ps = .ok v)
  (hconst : ∀ c, ∃ v, dec.parseConstant c = .ok v)
include hobj hconst

/-- Such a reader fails on nesting and on long integers only. -/
theorem eval_total {t : Tree} {d : Nat} : (∃ v, dec.eval d t = .ok v) ↔ t.depth ≤ d ∧
    t.withinDigits dec.maxStrDigits = true := by
  induction t using Tree.nested generalizing d with
  | null => simp [Decoder.eval, Tree.depth, Tree.withinDigits, Tree.every]
  | bool b => simp [Decoder.eval, Tree.depth, Tree.withinDigits, Tree.every]
  | str s => simp [Decoder.eval, Tree.depth, Tree.withinDigits, Tree.every]
  | const c =>
    simp only [Decoder.eval, hooked_ok]
    exact iff_of_true (hconst c) ⟨Nat.zero_le d, rfl⟩
  | num n =>
    rw [Decoder.eval, Decoder.number, Tree.withinDigits, Tree.every]
    cases hi : n.isInt <;> cases hl : tooLong dec.maxStrDigits n.int <;> simp [Tree.depth, hi, hl]
  | arr ts ih =>
    cases d with
    | zero => simp [Decoder.eval, Tree.depth]
    | succ d =>
      have hts : (∃ v, dec.eval (d + 1) (.arr ts) = .ok v) ↔ ∀ t ∈ ts, ∃ v, dec.eval d t = .ok v := by
        rw [← forall₂_exists]
        constructor
        · rintro ⟨v, h⟩
          obtain ⟨d', vs, hd, _, hvs⟩ := eval_arr h
          cases hd
          exact ⟨vs, hvs⟩
        · rintro ⟨vs, hvs⟩
          refine ⟨.arr vs, ?_⟩
          rw [Decoder.eval, evals_ok.mpr hvs]
      rw [hts, Tree.depth, Nat.add_le_add_iff_right, depthAll_le, Tree.withinDigits, Tree.every,
        Bool.true_and, everyAll_iff]
      exact (forall₂_congr fun t ht => ih t ht).trans forall₂_and
  | obj ms ih =>
    cases d with
    | zero => simp [Decoder.eval, Tree.depth]
    | succ d =>
      have hms : (∃ v, dec.eval (d + 1) (.obj ms) = .ok v) ↔ ∀ m ∈ ms, ∃ v, dec.eval d m.2 = .ok v := by
        have hpair : ∀ m : Text × Tree, (∃ p : Text × Value, m.1 = p.1 ∧ dec.eval d m.2 = .ok p.2) ↔
          ∃ v, dec.eval d m.2 = .ok v := by
          intro m
          constructor
          · rintro ⟨p, _, hp⟩
            exact ⟨p.2, hp⟩
          · rintro ⟨v, hv⟩
            exact ⟨(m.1, v), rfl, hv⟩
        simp only [← hpair]
        rw [← forall₂_exists]
        constructor
        · rintro ⟨v, h⟩
          obtain ⟨d', ps, hd, _, hps⟩ := eval_obj h
          cases hd
          exact ⟨ps, hps⟩
        · rintro ⟨ps, hps⟩
          obtain ⟨v, hv⟩ := hobj ps
          refine ⟨v, ?_⟩
          rw [Decoder.eval, evalMembers_ok.mpr hps]
          exact hooked_ok.mpr hv
      rw [hms, Tree.depth, Nat.add_le_add_iff_right, depthMembers_le, Tree.withinDigits, Tree.every, Bool.true_and,
        everyMembers_iff]
      exact (forall₂_congr fun m hm => ih m hm).trans forall₂_and

/-- It fails on the texts that are nested too deep before anything else is wrong with them. -/
theorem scanDocument_plain {d : Nat} {l : Text} : scanDocument dec d l = .error .recursion ↔
    TooDeepText (fun t => t.withinDigits dec.maxStrDigits = true) d l := by
  constructor
  · intro h
    exact scanDocument_recursion dec (fun hv => (eval_total hobj hconst).mp ⟨_, hv⟩) h
  · intro h
    exact scanDocument_deep dec (fun hd hc => (eval_total hobj hconst).mpr ⟨hd, hc⟩) h

end

end Json
