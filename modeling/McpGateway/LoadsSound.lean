import McpGateway.JsonLoads

/-!
# What the scanner accepts is derivable

Every text `scanValue` accepts has a tree in the grammar, and the value it
returns is the value of that tree.
-/

namespace Json

open Unicode Binary64

theorem ws_skipWs : ∀ l, Ws l (skipWs l)
  | [] => .nil
  | c :: l => by
    unfold skipWs
    by_cases h : isWs c = true
    · rw [if_pos h]; exact .cons h (ws_skipWs l)
    · rw [if_neg h]; exact .nil

theorem afterLit_some : ∀ {p l r : Text}, afterLit p l = some r → l = p ++ r
  | [], l, r, h => by cases h; rfl
  | p :: ps, c :: l, r, h => by
    unfold afterLit at h
    by_cases hc : p = c
    · rw [if_pos hc] at h; rw [hc, afterLit_some h]; rfl
    · rw [if_neg hc] at h; cases h
  | _ :: _, [], r, h => by cases h

/-! ## Numbers -/

theorem takeDigits_eq : ∀ l, l = digitText (takeDigits l).1 ++ (takeDigits l).2
  | [] => rfl
  | c :: l => by
    unfold takeDigits
    cases h : digit? c with
    | none => rfl
    | some d =>
      rw [digit?_some h]
      exact congrArg (digitCh d :: ·) (takeDigits_eq l)

theorem minus_scanMinus : ∀ l, Minus l (scanMinus l).1 (scanMinus l).2
  | [] => .absent
  | c :: l => by
    simp only [scanMinus]
    by_cases h : c = ch '-'
    · rw [if_pos h, h]; exact .present
    · rw [if_neg h]; exact .absent

theorem scanInt_sound {l r : Text} {ip : List Digit} (h : scanInt l = some (ip, r)) : IntPart l ip r := by
  have hl := takeDigits_eq l
  unfold scanInt at h
  split at h
  · cases h
  · rename_i d ds r' ht
    rw [ht] at hl
    by_cases hd : d.val = 0
    · obtain rfl : d = 0 := Fin.ext hd
      rw [if_pos hd] at h; cases h
      rw [hl]; exact .zero
    · rw [if_neg hd] at h; cases h
      rw [hl]; exact .digits fun h0 => hd (congrArg Fin.val h0)

theorem fracPart_scanFrac : ∀ l, FracPart l (scanFrac l).1 (scanFrac l).2
  | [] => .absent
  | c :: l => by
    simp only [scanFrac]
    by_cases h : c = ch '.'
    · rw [if_pos h, h]
      have hl := takeDigits_eq l
      split
      · exact .absent
      · rename_i d ds r ht
        rw [ht] at hl
        rw [hl]; exact .present
    · rw [if_neg h]; exact .absent

theorem expSign_scanExpSign : ∀ l, ExpSign l (scanExpSign l).1 (scanExpSign l).2
  | [] => .absent
  | c :: l => by
    simp only [scanExpSign]
    by_cases hp : c = ch '+'
    · rw [if_pos hp, hp]; exact .plus
    · rw [if_neg hp]
      by_cases hm : c = ch '-'
      · rw [if_pos hm, hm]; exact .minus
      · rw [if_neg hm]; exact .absent

theorem expPart_scanExp : ∀ l, ExpPart l (scanExp l).1 (scanExp l).2
  | [] => .absent
  | c :: l => by
    simp only [scanExp]
    by_cases h : c = ch 'e' ∨ c = ch 'E'
    · rw [if_pos h]
      have hl := takeDigits_eq (scanExpSign l).2
      split
      · exact .absent
      · rename_i d ds r ht
        rw [ht] at hl
        have hs := expSign_scanExpSign l
        rw [hl] at hs
        exact .present h hs
    · rw [if_neg h]; exact .absent

theorem scanNumber_sound {l r : Text} {n : Numeral} (h : scanNumber l = some (n, r)) : Num l n r := by
  unfold scanNumber at h
  split at h
  · cases h
  · rename_i ip l₂ hi
    cases h
    exact .mk (minus_scanMinus l) (scanInt_sound hi) (fracPart_scanFrac l₂) (expPart_scanExp _)

/-! ## Strings -/

theorem consItem_some {i : StrItem} {o : Option (List StrItem × Text)} {is : List StrItem} {r : Text}
    (h : consItem i o = some (is, r)) : ∃ is', o = some (is', r) ∧ is = i :: is' := by
  cases o with
  | none => cases h
  | some p => cases h; exact ⟨p.1, rfl, rfl⟩

theorem scanItems_sound (l : Text) : ∀ is r, scanItems l = some (is, r) → StrItems l is r := by
  fun_induction scanItems l with
  | case1 => intro is r h; cases h
  | case2 l => intro is r h; cases h; exact .close
  | case3 => intro is r h; cases h
  | case4 a b c d l u hu _ ih =>
    intro is r h
    obtain ⟨is', h', rfl⟩ := consItem_some h
    exact .unit hu (ih is' r h')
  | case5 => intro is r h; cases h
  | case6 => intro is r h; cases h
  | case7 e l _ x hx _ ih =>
    intro is r h
    obtain ⟨is', h', rfl⟩ := consItem_some h
    exact .escape hx (ih is' r h')
  | case8 => intro is r h; cases h
  | case9 => intro is r h; cases h
  | case10 c l hq hs hc ih =>
    intro is r h
    obtain ⟨is', h', rfl⟩ := consItem_some h
    exact .char hq hs (Nat.le_of_not_lt hc) (ih is' r h')

theorem scanString_sound {l s r : Text} (h : scanString l = some (s, r)) : StrBody l s r := by
  unfold scanString at h
  split at h
  · rename_i is r' hi
    cases h
    exact .mk (scanItems_sound l is r hi)
  · cases h

/-! ## Values -/

variable {ε : Type} (dec : Decoder ε)

def SoundAt (d : Nat) (scan : Scan ε Value) : Prop :=
  ∀ l v r, scan l = .ok (v, r) → ∃ t, Val l t r ∧ dec.eval d t = .ok v

theorem leaving_ok {α : Type} {r r' : Text} {x : Except (LoadError ε) α} {v : α} (h : leaving r x = .ok (v, r')) :
    x = .ok v ∧ r = r' := by
  cases x with
  | error e => cases h
  | ok w => cases h; exact ⟨rfl, rfl⟩

theorem scanElems_sound {d : Nat} {scan : Scan ε Value} (hs : SoundAt dec d scan) :
    ∀ n l vs r, scanElems scan n l = .ok (vs, r) → ∃ ts, Elems l ts r ∧ dec.evals d ts = .ok vs
  | 0, _, _, _, h => by cases h
  | n + 1, l, vs, r, h => by
    unfold scanElems at h
    split at h
    · cases h
    rename_i v l₁ hv
    obtain ⟨t, ht, het⟩ := hs l v l₁ hv
    have hw := ws_skipWs l₁
    split at h
    · cases h
    rename_i c l₂ hsk
    rw [hsk] at hw
    by_cases hc : c = ch ']'
    · rw [if_pos hc] at h; cases h
      exact ⟨[t], .last ht (hc ▸ hw), by simp [Decoder.evals, het]⟩
    rw [if_neg hc] at h
    by_cases hcm : c = ch ','
    · rw [if_pos hcm] at h
      split at h
      · cases h
      · rename_i vs' r' hrec
        cases h
        obtain ⟨ts, hts, hets⟩ := scanElems_sound hs n _ _ _ hrec
        exact ⟨t :: ts, .more ht (hcm ▸ hw) (ws_skipWs l₂) hts, by simp [Decoder.evals, het, hets]⟩
    · rw [if_neg hcm] at h; cases h

theorem scanKey_sound {l k l₃ : Text} (h : scanKey l = some (k, l₃)) :
    ∃ l₀ l₁ l₂, l = ch '"' :: l₀ ∧ StrBody l₀ k l₁ ∧ Ws l₁ (ch ':' :: l₂) ∧ Ws l₂ l₃ := by
  unfold scanKey at h
  split at h
  · cases h
  rename_i c l
  by_cases hc : c = ch '"'
  · rw [if_pos hc] at h
    split at h
    · cases h
    rename_i k' l₁ hk
    have hw := ws_skipWs l₁
    split at h
    · cases h
    rename_i c' l₂ hsk
    rw [hsk] at hw
    by_cases hc' : c' = ch ':'
    · rw [if_pos hc'] at h; cases h
      exact ⟨l, l₁, l₂, by rw [hc], scanString_sound hk, hc' ▸ hw, ws_skipWs l₂⟩
    · rw [if_neg hc'] at h; cases h
  · rw [if_neg hc] at h; cases h

theorem scanMembers_sound {d : Nat} {scan : Scan ε Value} (hs : SoundAt dec d scan) :
    ∀ n l ps r, scanMembers scan n l = .ok (ps, r) → ∃ ms, Membs l ms r ∧ dec.evalMembers d ms = .ok ps
  | 0, _, _, _, h => by cases h
  | n + 1, l, ps, r, h => by
    unfold scanMembers at h
    split at h
    · cases h
    rename_i k l₃ hk
    obtain ⟨l₀, l₁, l₂, rfl, hkey, hcolon, hw₂⟩ := scanKey_sound hk
    split at h
    · cases h
    rename_i v l₄ hv
    obtain ⟨t, ht, het⟩ := hs l₃ v l₄ hv
    have hw := ws_skipWs l₄
    split at h
    · cases h
    rename_i c l₅ hsk
    rw [hsk] at hw
    by_cases hc : c = ch '}'
    · rw [if_pos hc] at h; cases h
      exact ⟨[(k, t)], .last hkey hcolon hw₂ ht (hc ▸ hw), by simp [Decoder.evalMembers, het]⟩
    rw [if_neg hc] at h
    by_cases hcm : c = ch ','
    · rw [if_pos hcm] at h
      split at h
      · cases h
      · rename_i ps' r' hrec
        cases h
        obtain ⟨ms, hms, hems⟩ := scanMembers_sound hs n _ _ _ hrec
        exact ⟨(k, t) :: ms, .more hkey hcolon hw₂ ht (hcm ▸ hw) (ws_skipWs l₅) hms,
          by simp [Decoder.evalMembers, het, hems]⟩
    · rw [if_neg hcm] at h; cases h

theorem scanArray_sound {d : Nat} {scan : Scan ε Value} (hs : SoundAt dec d scan) {l r : Text} {v : Value}
    (h : scanArray (some scan) l = .ok (v, r)) : ∃ t, Val (ch '[' :: l) t r ∧ dec.eval (d + 1) t = .ok v := by
  unfold scanArray at h
  dsimp only at h
  have hw := ws_skipWs l
  split at h
  · cases h
  rename_i c r' hsk
  rw [hsk] at hw
  by_cases hc : c = ch ']'
  · rw [if_pos hc] at h; cases h
    exact ⟨.arr [], .arrNil (hc ▸ hw), rfl⟩
  · rw [if_neg hc] at h
    split at h
    · cases h
    · rename_i vs r'' hel
      cases h
      obtain ⟨ts, hts, hets⟩ := scanElems_sound dec hs _ _ _ _ hel
      exact ⟨.arr ts, .arr hw hts, by simp [Decoder.eval, hets]⟩

theorem scanObject_sound {d : Nat} {scan : Scan ε Value} (hs : SoundAt dec d scan) {l r : Text} {v : Value}
    (h : scanObject dec (some scan) l = .ok (v, r)) : ∃ t, Val (ch '{' :: l) t r ∧ dec.eval (d + 1) t = .ok v := by
  unfold scanObject at h
  dsimp only at h
  have hw := ws_skipWs l
  split at h
  · cases h
  rename_i c r' hsk
  rw [hsk] at hw
  by_cases hc : c = ch '}'
  · rw [if_pos hc] at h
    obtain ⟨hv, rfl⟩ := leaving_ok h
    exact ⟨.obj [], .objNil (hc ▸ hw), hv⟩
  · rw [if_neg hc] at h
    split at h
    · cases h
    · rename_i ps r'' hm
      obtain ⟨hv, rfl⟩ := leaving_ok h
      obtain ⟨ms, hms, hems⟩ := scanMembers_sound dec hs _ _ _ _ hm
      exact ⟨.obj ms, .obj hw hms, by simp [Decoder.eval, hems, hv]⟩

theorem scanWord_sound {d : Nat} {l r : Text} {v : Value} (h : scanWord dec l = some (.ok (v, r))) :
    ∃ t, Val l t r ∧ dec.eval d t = .ok v := by
  unfold scanWord at h
  split at h
  · rename_i h0; cases h; rw [afterLit_some h0]
    exact ⟨.null, .null, by simp [Decoder.eval]⟩
  split at h
  · rename_i h0; cases h; rw [afterLit_some h0]
    exact ⟨.bool true, .bool (b := true), by simp [Decoder.eval]⟩
  split at h
  · rename_i h0; cases h; rw [afterLit_some h0]
    exact ⟨.bool false, .bool (b := false), by simp [Decoder.eval]⟩
  have key : ∀ {c : Constant} {r' : Text}, afterLit c.text l = some r' →
      some (leaving r' (hooked (dec.parseConstant c))) = some (.ok (v, r)) →
      ∃ t, Val l t r ∧ dec.eval d t = .ok v := by
    intro c r' h0 hc
    obtain ⟨hv, rfl⟩ := leaving_ok (Option.some.inj hc)
    rw [afterLit_some h0]
    exact ⟨.const c, .const, by simp [Decoder.eval, hv]⟩
  split at h
  · rename_i h0; exact key h0 h
  split at h
  · rename_i h0; exact key h0 h
  split at h
  · rename_i h0; exact key h0 h
  · cases h

theorem scanOnce_sound {d : Nat} {nested : Option (Scan ε Value)}
    (hn : ∀ scan, nested = some scan → ∃ d', d = d' + 1 ∧ SoundAt dec d' scan) :
    SoundAt dec d (scanOnce dec nested) := by
  intro l v r h
  cases l with
  | nil => cases h
  | cons c l =>
    simp only [scanOnce] at h
    by_cases hq : c = ch '"'
    · rw [if_pos hq] at h
      split at h
      · rename_i s r' hs
        cases h
        exact ⟨.str s, hq ▸ .str (scanString_sound hs), by simp [Decoder.eval]⟩
      · cases h
    rw [if_neg hq] at h
    by_cases hb : c = ch '{'
    · rw [if_pos hb] at h
      cases nested with
      | none => cases h
      | some scan =>
        obtain ⟨d', rfl, hs⟩ := hn scan rfl
        rw [hb]; exact scanObject_sound dec hs h
    rw [if_neg hb] at h
    by_cases ha : c = ch '['
    · rw [if_pos ha] at h
      cases nested with
      | none => cases h
      | some scan =>
        obtain ⟨d', rfl, hs⟩ := hn scan rfl
        rw [ha]; exact scanArray_sound dec hs h
    rw [if_neg ha] at h
    split at h
    · rename_i res hw
      rw [h] at hw
      exact scanWord_sound dec hw
    · split at h
      · rename_i n r' hnum
        obtain ⟨hv, rfl⟩ := leaving_ok h
        exact ⟨.num n, .num (scanNumber_sound hnum), by simp [Decoder.eval, hv]⟩
      · cases h

theorem scanValue_sound : ∀ d, SoundAt dec d (scanValue dec d)
  | 0 => scanOnce_sound dec fun _ h => by cases h
  | d + 1 => scanOnce_sound dec fun _ h => by cases h; exact ⟨d, rfl, scanValue_sound d⟩

theorem scanDocument_sound {d : Nat} {l : Text} {v : Value} (h : scanDocument dec d l = .ok v) :
    ∃ t, Document l t ∧ dec.eval d t = .ok v := by
  unfold scanDocument at h
  split at h
  · cases h
  · rename_i v' r hv
    split at h
    · rename_i hr
      cases h
      obtain ⟨t, ht, het⟩ := scanValue_sound dec d _ _ _ hv
      exact ⟨t, ⟨skipWs l, r, ws_skipWs l, ht, hr ▸ ws_skipWs r⟩, het⟩
    · cases h

end Json
