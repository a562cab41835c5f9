import McpGateway.LoadsSound

/-!
# What the grammar derives, the scanner reads

On a derivable text followed by a blank, a comma, a bracket or the end, the
scanner takes exactly the derived part and returns (or raises) what evaluating
its tree does. A text therefore has at most one reading.
-/

namespace Json

open Unicode Binary64

/-- What may stand after a value. -/
def Follow (l : Text) : Prop :=
  ∀ c, l.head? = some c → isWs c = true ∨ c = ch ',' ∨ c = ch ']' ∨ c = ch '}'

def NoDigit (l : Text) : Prop := ∀ c, l.head? = some c → digit? c = none

theorem follow_nil : Follow [] := fun _ h => by cases h

theorem follow_ws {l r : Text} (h : Ws l r) (hr : Follow r) : Follow l := by
  cases h with
  | nil => exact hr
  | cons hc _ => intro c h; cases h; exact Or.inl hc

theorem follow_cons {c : CodePoint} {l : Text} (h : c = ch ',' ∨ c = ch ']' ∨ c = ch '}') : Follow (c :: l) :=
  fun _ h' => by cases h'; exact Or.inr h

theorem ws_cases {c : CodePoint} (h : isWs c = true) : c = ch ' ' ∨ c = ch '\t' ∨ c = ch '\n' ∨ c = ch '\r' := by
  simpa [isWs, or_assoc] using h

theorem follow_not {l : Text} (h : Follow l) {c : CodePoint} (hc : l.head? = some c) :
    digit? c = none ∧ c ≠ ch '.' ∧ c ≠ ch 'e' ∧ c ≠ ch 'E' := by
  rcases h c hc with hw | rfl | rfl | rfl
  · rcases ws_cases hw with rfl | rfl | rfl | rfl <;> decide
  all_goals decide

/-! ## Lengths -/

theorem ws_length {l r : Text} (h : Ws l r) : r.length ≤ l.length := by
  induction h with
  | nil => exact Nat.le_refl _
  | cons _ _ ih => exact Nat.le_succ_of_le ih

theorem ws_length_cons {l r : Text} {c : CodePoint} (h : Ws l (c :: r)) : r.length < l.length := ws_length h

theorem minus_length {l r : Text} {neg : Bool} (h : Minus l neg r) : r.length ≤ l.length := by
  cases h with
  | absent => exact Nat.le_refl _
  | present => exact Nat.le_succ _

theorem digitText_length (ds : List Digit) (r : Text) : (digitText ds ++ r).length = ds.length + r.length := by
  simp [digitText]

theorem intPart_length {l r : Text} {ip : List Digit} (h : IntPart l ip r) : r.length < l.length := by
  cases h with
  | zero => exact Nat.lt_succ_self _
  | digits _ => rw [digitText_length, List.length_cons]; omega

theorem fracPart_length {l r : Text} {fp : Option (List Digit)} (h : FracPart l fp r) : r.length ≤ l.length := by
  cases h with
  | absent => exact Nat.le_refl _
  | present => rw [List.length_cons, digitText_length]; omega

theorem expSign_length {l r : Text} {neg : Bool} (h : ExpSign l neg r) : r.length ≤ l.length := by
  cases h with
  | absent => exact Nat.le_refl _
  | plus => exact Nat.le_succ _
  | minus => exact Nat.le_succ _

theorem expPart_length {l r : Text} {ep : Option (Bool × List Digit)} (h : ExpPart l ep r) :
    r.length ≤ l.length := by
  cases h with
  | absent => exact Nat.le_refl _
  | present _ hs =>
    have := expSign_length hs
    rw [digitText_length] at this
    rw [List.length_cons]; omega

theorem num_length {l r : Text} {n : Numeral} (h : Num l n r) : r.length < l.length := by
  obtain ⟨hm, hi, hf, he⟩ := h
  have := minus_length hm
  have := intPart_length hi
  have := fracPart_length hf
  have := expPart_length he
  omega

theorem strItems_length {l r : Text} {is : List StrItem} (h : StrItems l is r) : r.length < l.length := by
  induction h with
  | close => exact Nat.lt_succ_self _
  | char _ _ _ _ ih => exact Nat.lt_succ_of_lt ih
  | escape _ _ ih => simp only [List.length_cons]; omega
  | unit _ _ ih => simp only [List.length_cons]; omega

theorem strBody_length {l s r : Text} (h : StrBody l s r) : r.length < l.length := by
  obtain ⟨h⟩ := h; exact strItems_length h

theorem lit_length {p r : Text} (h : 0 < p.length) : r.length < (p ++ r).length := by
  simp only [List.length_append]; omega

mutual
theorem val_length {l : Text} {t : Tree} {r : Text} (h : Val l t r) : r.length < l.length := by
  match h with
  | .null => exact lit_length (by decide)
  | @Val.bool b _ => cases b <;> exact lit_length (by decide)
  | @Val.const c _ => cases c <;> exact lit_length (by decide)
  | .num hn => exact num_length hn
  | .str hs => exact Nat.lt_succ_of_lt (strBody_length hs)
  | .arrNil hw => exact Nat.lt_succ_of_lt (ws_length_cons hw)
  | .arr hw he => exact Nat.lt_succ_of_lt (Nat.lt_of_lt_of_le (elems_length he) (ws_length hw))
  | .objNil hw => exact Nat.lt_succ_of_lt (ws_length_cons hw)
  | .obj hw hm => exact Nat.lt_succ_of_lt (Nat.lt_of_lt_of_le (membs_length hm) (ws_length hw))
theorem elems_length {l : Text} {ts : List Tree} {r : Text} (h : Elems l ts r) : r.length < l.length := by
  match h with
  | .last hv hw =>
    have := val_length hv
    have := ws_length_cons hw
    omega
  | .more hv hw hw' he =>
    have := val_length hv
    have := ws_length_cons hw
    have := ws_length hw'
    have := elems_length he
    omega
theorem membs_length {l : Text} {ms : List (Text × Tree)} {r : Text} (h : Membs l ms r) : r.length < l.length := by
  match h with
  | .last hk hc hw hv hw' =>
    have := strBody_length hk
    have := ws_length_cons hc
    have := ws_length hw
    have := val_length hv
    have := ws_length_cons hw'
    simp only [List.length_cons]; omega
  | .more hk hc hw hv hw' hw'' hm =>
    have := strBody_length hk
    have := ws_length_cons hc
    have := ws_length hw
    have := val_length hv
    have := ws_length_cons hw'
    have := ws_length hw''
    have := membs_length hm
    simp only [List.length_cons]; omega
end

/-! ## Blanks and words -/

theorem skipWs_ws {l r : Text} (h : Ws l r) (hr : ∀ c, r.head? = some c → isWs c = false) : skipWs l = r := by
  induction h with
  | nil =>
    rename_i r
    cases r with
    | nil => rfl
    | cons c r => simp [skipWs, hr c rfl]
  | cons hc _ ih => simp [skipWs, hc, ih hr]

theorem afterLit_append : ∀ (p r : Text), afterLit p (p ++ r) = some r
  | [], _ => rfl
  | p :: ps, r => by simp [afterLit, afterLit_append ps r]

/-! ## Numbers -/

theorem takeDigits_noDigit {r : Text} (h : NoDigit r) : takeDigits r = ([], r) := by
  cases r with
  | nil => rfl
  | cons c r => simp [takeDigits, h c rfl]

theorem takeDigits_digits {r : Text} (h : NoDigit r) : ∀ ds, takeDigits (digitText ds ++ r) = (ds, r)
  | [] => takeDigits_noDigit h
  | d :: ds => by
    have ih := takeDigits_digits h ds
    simp only [digitText, List.map_cons, List.cons_append, takeDigits, digit?_digitCh] at ih ⊢
    rw [ih]

theorem scanInt_complete {l r : Text} {ip : List Digit} (h : IntPart l ip r) (hr : NoDigit r) :
    scanInt l = some (ip, r) := by
  cases h with
  | zero =>
    have h0 : digit? (ch '0') = some 0 := by decide
    simp [scanInt, takeDigits, h0]
  | digits hd => simp [scanInt, takeDigits_digits hr, hd]

theorem scanFrac_complete {l r : Text} {fp : Option (List Digit)} (h : FracPart l fp r) (hr : NoDigit r)
    (hd : ∀ c, r.head? = some c → c ≠ ch '.') : scanFrac l = (fp, r) := by
  cases h with
  | absent =>
    cases l with
    | nil => rfl
    | cons c l => simp [scanFrac, hd c rfl]
  | present => simp [scanFrac, takeDigits_digits hr]

theorem digitCh_ne {d : Digit} {c : CodePoint} (h : digit? c = none) : digitCh d ≠ c := by
  rintro rfl; rw [digit?_digitCh] at h; cases h

theorem scanExpSign_complete {l r : Text} {neg : Bool} {d : Digit} {ds : List Digit}
    (h : ExpSign l neg (digitText (d :: ds) ++ r)) : scanExpSign l = (neg, digitText (d :: ds) ++ r) := by
  cases h with
  | absent =>
    have hp : digitCh d ≠ ch '+' := digitCh_ne (by decide)
    have hm : digitCh d ≠ ch '-' := digitCh_ne (by decide)
    simp [scanExpSign, digitText, hp, hm]
  | plus => rfl
  | minus => rfl

theorem scanExp_complete {l r : Text} {ep : Option (Bool × List Digit)} (h : ExpPart l ep r) (hr : Follow r) :
    scanExp l = (ep, r) := by
  cases h with
  | absent =>
    cases l with
    | nil => rfl
    | cons c l =>
      obtain ⟨_, _, he, hE⟩ := follow_not hr rfl
      simp [scanExp, he, hE]
  | present he hs =>
    have hn : NoDigit r := fun c hc => (follow_not hr hc).1
    simp [scanExp, he, scanExpSign_complete hs, takeDigits_digits hn]

theorem expPart_head {l r : Text} {ep : Option (Bool × List Digit)} (h : ExpPart l ep r) (hr : Follow r) :
    NoDigit l ∧ ∀ c, l.head? = some c → c ≠ ch '.' := by
  cases h with
  | absent => exact ⟨fun c hc => (follow_not hr hc).1, fun c hc => (follow_not hr hc).2.1⟩
  | present he _ =>
    refine ⟨fun c hc => ?_, fun c hc => ?_⟩ <;> cases hc <;> rcases he with rfl | rfl <;> decide

theorem fracPart_head {l r : Text} {fp : Option (List Digit)} (h : FracPart l fp r) (hr : NoDigit r) :
    NoDigit l := by
  cases h with
  | absent => exact hr
  | present => intro c hc; cases hc; decide

theorem intPart_head {l r : Text} {ip : List Digit} (h : IntPart l ip r) : ∃ d l', l = digitCh d :: l' := by
  cases h with
  | @zero r => exact ⟨0, r, by rw [show digitCh 0 = ch '0' by decide]⟩
  | @digits d ds r _ => exact ⟨d, digitText ds ++ r, rfl⟩

theorem scanMinus_complete {l l₁ l₂ : Text} {neg : Bool} {ip : List Digit} (h : Minus l neg l₁)
    (hi : IntPart l₁ ip l₂) : scanMinus l = (neg, l₁) := by
  cases h with
  | absent =>
    obtain ⟨d, l', rfl⟩ := intPart_head hi
    have hm : digitCh d ≠ ch '-' := digitCh_ne (by decide)
    simp [scanMinus, hm]
  | present => simp [scanMinus]

theorem scanNumber_complete {l r : Text} {n : Numeral} (h : Num l n r) (hr : Follow r) :
    scanNumber l = some (n, r) := by
  obtain ⟨hm, hi, hf, he⟩ := h
  obtain ⟨he₁, he₂⟩ := expPart_head he hr
  simp [scanNumber, scanMinus_complete hm hi, scanInt_complete hi (fracPart_head hf he₁),
    scanFrac_complete hf he₁ he₂, scanExp_complete he hr]

/-- A number starts with a digit, or with a minus and a digit. -/
theorem num_head {l r : Text} {n : Numeral} (h : Num l n r) :
    ∃ d l', l = digitCh d :: l' ∨ l = ch '-' :: digitCh d :: l' := by
  obtain ⟨hm, hi, _, _⟩ := h
  obtain ⟨d, l', rfl⟩ := intPart_head hi
  cases hm with
  | absent => exact ⟨d, l', Or.inl rfl⟩
  | present => exact ⟨d, l', Or.inr rfl⟩

/-! ## Strings -/

theorem slash_ne_quote : ch '\\' ≠ ch '"' := by decide

theorem scanItems_close (l : Text) : scanItems (ch '"' :: l) = some ([], l) := by
  rw [scanItems.eq_def]; exact if_pos rfl

theorem scanItems_char {c : CodePoint} (hq : c ≠ ch '"') (hs : c ≠ ch '\\') (hc : 0x20 ≤ c.val) (l : Text) :
    scanItems (c :: l) = consItem (.raw c) (scanItems l) := by
  rw [scanItems.eq_def]; dsimp only
  rw [if_neg hq, if_neg hs, if_neg (Nat.not_lt.mpr hc)]

theorem scanItems_escape {e c : CodePoint} (hc : simpleEscape e = some c) (l : Text) :
    scanItems (ch '\\' :: e :: l) = consItem (.raw c) (scanItems l) := by
  have hu : e ≠ ch 'u' := by
    rintro rfl
    rw [show simpleEscape (ch 'u') = none by decide] at hc
    cases hc
  rw [scanItems.eq_def]; dsimp only
  rw [if_neg slash_ne_quote, if_pos rfl, if_neg hu, hc]

theorem scanItems_unit {a b c d u : CodePoint} (hu : hex4 a b c d = some u) (l : Text) :
    scanItems (ch '\\' :: ch 'u' :: a :: b :: c :: d :: l) = consItem (.unit u) (scanItems l) := by
  rw [scanItems.eq_def]; dsimp only
  rw [if_neg slash_ne_quote, if_pos rfl, if_pos rfl, hu]

theorem scanItems_complete {l r : Text} {is : List StrItem} (h : StrItems l is r) :
    scanItems l = some (is, r) := by
  induction h with
  | close => exact scanItems_close _
  | char hq hs hc _ ih => rw [scanItems_char hq hs hc, ih]; rfl
  | escape hx _ ih => rw [scanItems_escape hx, ih]; rfl
  | unit hu _ ih => rw [scanItems_unit hu, ih]; rfl

theorem scanString_complete {l s r : Text} (h : StrBody l s r) : scanString l = some (s, r) := by
  obtain ⟨h⟩ := h
  simp [scanString, scanItems_complete h]

/-! ## Values -/

theorem digitCh_head (d : Digit) : isWs (digitCh d) = false ∧ digitCh d ≠ ch ']' := by
  revert d; decide

/-- A value starts with neither a blank nor a closing bracket. -/
theorem val_head {l r : Text} {t : Tree} (h : Val l t r) : ∃ c l', l = c :: l' ∧ isWs c = false ∧ c ≠ ch ']' := by
  cases h with
  | null => exact ⟨_, _, rfl, by decide⟩
  | @bool b => cases b <;> exact ⟨_, _, rfl, by decide⟩
  | @const c' => cases c' <;> exact ⟨_, _, rfl, by decide⟩
  | num hn =>
    obtain ⟨d, l', rfl | rfl⟩ := num_head hn
    · exact ⟨_, _, rfl, digitCh_head d⟩
    · exact ⟨_, _, rfl, by decide⟩
  | str _ => exact ⟨_, _, rfl, by decide⟩
  | arrNil _ => exact ⟨_, _, rfl, by decide⟩
  | arr _ _ => exact ⟨_, _, rfl, by decide⟩
  | objNil _ => exact ⟨_, _, rfl, by decide⟩
  | obj _ _ => exact ⟨_, _, rfl, by decide⟩

theorem elems_head {l r : Text} {ts : List Tree} (h : Elems l ts r) :
    ∃ c l', l = c :: l' ∧ isWs c = false ∧ c ≠ ch ']' := by
  cases h with
  | last hv _ => exact val_head hv
  | more hv _ _ _ => exact val_head hv

theorem membs_head {l r : Text} {ms : List (Text × Tree)} (h : Membs l ms r) : ∃ l', l = ch '"' :: l' := by
  cases h with
  | last _ _ _ _ _ => exact ⟨_, rfl⟩
  | more _ _ _ _ _ _ _ => exact ⟨_, rfl⟩

theorem skipWs_char {l r : Text} {c : CodePoint} (h : Ws l (c :: r)) (hc : isWs c = false) :
    skipWs l = c :: r := skipWs_ws h fun _ h' => by cases h'; exact hc

variable {ε : Type} (dec : Decoder ε)

def words : List (Text × Except (LoadError ε) Value) :=
  [(txt "null", .ok .null), (txt "true", .ok (.bool true)), (txt "false", .ok (.bool false)),
    (Constant.text .nan, hooked (dec.parseConstant .nan)),
    (Constant.text .infinity, hooked (dec.parseConstant .infinity)),
    (Constant.text .negInfinity, hooked (dec.parseConstant .negInfinity))]

theorem scanOnce_word {nested : Option (Scan ε Value)} {w : Text} {v : Except (LoadError ε) Value}
    (h : (w, v) ∈ words dec) (r : Text) : scanOnce dec nested (w ++ r) = leaving r v := by
  simp only [words, List.mem_cons, Prod.mk.injEq, List.not_mem_nil, or_false] at h
  rcases h with ⟨rfl, rfl⟩ | ⟨rfl, rfl⟩ | ⟨rfl, rfl⟩ | ⟨rfl, rfl⟩ | ⟨rfl, rfl⟩ | ⟨rfl, rfl⟩ <;> rfl

theorem scanWord_num {l r : Text} {n : Numeral} (h : Num l n r) : scanWord dec l = none := by
  have hd : ∀ (d : Digit) (c : CodePoint), digit? c = none → c ≠ digitCh d := fun d c hc => (digitCh_ne hc).symm
  obtain ⟨d, l', rfl | rfl⟩ := num_head h
  · have h1 := hd d (ch 'n') (by decide)
    have h2 := hd d (ch 't') (by decide)
    have h3 := hd d (ch 'f') (by decide)
    have h4 := hd d (ch 'N') (by decide)
    have h5 := hd d (ch 'I') (by decide)
    have h6 := hd d (ch '-') (by decide)
    simp [scanWord, Constant.text, txt, afterLit, h1, h2, h3, h4, h5, h6]
  · have h5 := hd d (ch 'I') (by decide)
    have h1 : ch 'n' ≠ ch '-' := by decide
    have h2 : ch 't' ≠ ch '-' := by decide
    have h3 : ch 'f' ≠ ch '-' := by decide
    have h4 : ch 'N' ≠ ch '-' := by decide
    have h6 : ch 'I' ≠ ch '-' := by decide
    simp [scanWord, Constant.text, txt, afterLit, h1, h2, h3, h4, h5, h6]

theorem scanOnce_num {nested : Option (Scan ε Value)} {l r : Text} {n : Numeral} (h : Num l n r) (hr : Follow r) :
    scanOnce dec nested l = leaving r (dec.number n) := by
  have hw := scanWord_num dec h
  have hn := scanNumber_complete h hr
  obtain ⟨d, l', rfl | rfl⟩ := num_head h
  · have hq : digitCh d ≠ ch '"' := digitCh_ne (by decide)
    have hb : digitCh d ≠ ch '{' := digitCh_ne (by decide)
    have ha : digitCh d ≠ ch '[' := digitCh_ne (by decide)
    simp only [scanOnce, if_neg hq, if_neg hb, if_neg ha, hw, hn]
  · have hq : ch '-' ≠ ch '"' := by decide
    have hb : ch '-' ≠ ch '{' := by decide
    have ha : ch '-' ≠ ch '[' := by decide
    simp only [scanOnce, if_neg hq, if_neg hb, if_neg ha, hw, hn]

theorem scanOnce_str {nested : Option (Scan ε Value)} {l s r : Text} (h : StrBody l s r) :
    scanOnce dec nested (ch '"' :: l) = .ok (.str s, r) := by
  simp only [scanOnce, if_true, scanString_complete h]

theorem scanOnce_object {nested : Option (Scan ε Value)} (l : Text) :
    scanOnce dec nested (ch '{' :: l) = scanObject dec nested l := by
  have hq : ch '{' ≠ ch '"' := by decide
  simp only [scanOnce, if_neg hq, if_true]

theorem scanOnce_array {nested : Option (Scan ε Value)} (l : Text) :
    scanOnce dec nested (ch '[' :: l) = scanArray nested l := by
  have hq : ch '[' ≠ ch '"' := by decide
  have hb : ch '[' ≠ ch '{' := by decide
  simp only [scanOnce, if_neg hq, if_neg hb, if_true]

def nestedAt : Nat → Option (Scan ε Value)
  | 0 => none
  | d + 1 => some (scanValue dec d)

theorem scanValue_eq : ∀ d, scanValue dec d = scanOnce dec (nestedAt dec d)
  | 0 => rfl
  | _ + 1 => rfl

theorem scanKey_complete {l k l₁ l₂ l₃ : Text} (hk : StrBody l k l₁) (hc : Ws l₁ (ch ':' :: l₂)) (hw : Ws l₂ l₃)
    (h₃ : ∃ c l', l₃ = c :: l' ∧ isWs c = false ∧ c ≠ ch ']') : scanKey (ch '"' :: l) = some (k, l₃) := by
  obtain ⟨c, l', rfl, hc₃, _⟩ := h₃
  simp [scanKey, scanString_complete hk, skipWs_char hc (by decide), skipWs_char hw hc₃]

mutual
/-- On a derivable value the scanner does what evaluating its tree does. -/
theorem scanValue_complete {l : Text} {t : Tree} {r : Text} (h : Val l t r) (hr : Follow r) (d : Nat) :
    scanValue dec d l = leaving r (dec.eval d t) := by
  rw [scanValue_eq]
  match h with
  | .null => rw [Decoder.eval]; exact scanOnce_word dec (by simp [words]) r
  | @Val.bool b _ => rw [Decoder.eval]; cases b <;> exact scanOnce_word dec (by simp [words]) r
  | @Val.const c _ => rw [Decoder.eval]; cases c <;> exact scanOnce_word dec (by simp [words]) r
  | .num hn => rw [Decoder.eval]; exact scanOnce_num dec hn hr
  | .str hs => rw [Decoder.eval]; exact scanOnce_str dec hs
  | .arrNil hw =>
    rw [scanOnce_array]
    cases d with
    | zero => rfl
    | succ d => simp [scanArray, nestedAt, skipWs_char hw (by decide), Decoder.eval, Decoder.evals, leaving]
  | @Val.arr _ _ ts _ hw he =>
    rw [scanOnce_array]
    cases d with
    | zero => rfl
    | succ d =>
      obtain ⟨c, l', rfl, hc, hne⟩ := elems_head he
      have hrec := scanElems_complete he d _ (Nat.le_refl _)
      simp only [scanArray, nestedAt, skipWs_char hw hc, if_neg hne, hrec, Decoder.eval]
      cases dec.evals d ts <;> rfl
  | .objNil hw =>
    rw [scanOnce_object]
    cases d with
    | zero => rfl
    | succ d => simp [scanObject, nestedAt, skipWs_char hw (by decide), Decoder.eval, Decoder.evalMembers]
  | @Val.obj _ _ ms _ hw hm =>
    rw [scanOnce_object]
    cases d with
    | zero => rfl
    | succ d =>
      obtain ⟨l', rfl⟩ := membs_head hm
      have hrec := scanMembers_complete hm d _ (Nat.le_refl _)
      have hne : ch '"' ≠ ch '}' := by decide
      simp only [scanObject, nestedAt, skipWs_char hw (show isWs (ch '"') = false by decide), if_neg hne, hrec,
        Decoder.eval]
      cases dec.evalMembers d ms <;> rfl
theorem scanElems_complete {l : Text} {ts : List Tree} {r : Text} (h : Elems l ts r) (d n : Nat)
    (hn : l.length ≤ n) :
    scanElems (scanValue dec d) n l = leaving r (dec.evals d ts) := by
  match n, h with
  | 0, .last hv _ => have := val_length hv; omega
  | 0, .more hv _ _ _ => have := val_length hv; omega
  | n + 1, @Elems.last _ t _ _ hv hw =>
    have hrec := scanValue_complete hv (follow_ws hw (follow_cons (by simp))) d
    simp only [scanElems, hrec, Decoder.evals]
    cases dec.eval d t with
    | error e => rfl
    | ok v => simp [leaving, skipWs_char hw (by decide)]
  | n + 1, @Elems.more _ t _ _ l₃ ts _ hv hw hw' he =>
    have hrec := scanValue_complete hv (follow_ws hw (follow_cons (by simp))) d
    have hlen : l₃.length ≤ n := by
      have := val_length hv
      have := ws_length_cons hw
      have := ws_length hw'
      omega
    have hrest := scanElems_complete he d n hlen
    have hne : ch ',' ≠ ch ']' := by decide
    obtain ⟨c, l', rfl, hc, _⟩ := elems_head he
    simp only [scanElems, hrec, Decoder.evals]
    cases dec.eval d t with
    | error e => rfl
    | ok v =>
      simp only [leaving, skipWs_char hw (show isWs (ch ',') = false by decide), if_neg hne, if_true,
        skipWs_char hw' hc, hrest]
      cases dec.evals d ts <;> rfl
theorem scanMembers_complete {l : Text} {ms : List (Text × Tree)} {r : Text} (h : Membs l ms r) (d n : Nat)
    (hn : l.length ≤ n) : scanMembers (scanValue dec d) n l = leaving r (dec.evalMembers d ms) := by
  match n, h with
  | 0, .last _ _ _ _ _ => simp at hn
  | 0, .more _ _ _ _ _ _ _ => simp at hn
  | n + 1, @Membs.last _ k _ _ _ t _ _ hk hc hw hv hw' =>
    have hrec := scanValue_complete hv (follow_ws hw' (follow_cons (by simp))) d
    simp only [scanMembers, scanKey_complete hk hc hw (val_head hv), hrec, Decoder.evalMembers]
    cases dec.eval d t with
    | error e => rfl
    | ok v => simp [leaving, skipWs_char hw' (by decide)]
  | n + 1, @Membs.more _ k _ _ _ t _ _ l₆ ms _ hk hc hw hv hw' hw'' hm =>
    have hrec := scanValue_complete hv (follow_ws hw' (follow_cons (by simp))) d
    have hlen : l₆.length ≤ n := by
      have := strBody_length hk
      have := ws_length_cons hc
      have := ws_length hw
      have := val_length hv
      have := ws_length_cons hw'
      have := ws_length hw''
      simp only [List.length_cons] at hn
      omega
    have hrest := scanMembers_complete hm d n hlen
    have hne : ch ',' ≠ ch '}' := by decide
    obtain ⟨l', rfl⟩ := membs_head hm
    simp only [scanMembers, scanKey_complete hk hc hw (val_head hv), hrec, Decoder.evalMembers]
    cases dec.eval d t with
    | error e => rfl
    | ok v =>
      simp only [leaving, skipWs_char hw' (show isWs (ch ',') = false by decide), if_neg hne, if_true,
        skipWs_char hw'' (show isWs (ch '"') = false by decide), hrest]
      cases dec.evalMembers d ms <;> rfl
end

theorem scanDocument_complete {l : Text} {t : Tree} (h : Document l t) (d : Nat) :
    scanDocument dec d l = dec.eval d t := by
  obtain ⟨l₁, l₂, hw, hv, hw'⟩ := h
  have hrec := scanValue_complete dec hv (follow_ws hw' follow_nil) d
  have hend : skipWs l₂ = [] := skipWs_ws hw' fun c hc => by cases hc
  obtain ⟨c, l', rfl, hc, _⟩ := val_head hv
  simp only [scanDocument, skipWs_char hw hc, hrec]
  cases dec.eval d t with
  | error e => rfl
  | ok v => simp [leaving, hend]

/-- Loading succeeds exactly on the texts with a tree that evaluates. -/
theorem scanDocument_ok {l : Text} {v : Value} {d : Nat} :
    scanDocument dec d l = .ok v ↔ ∃ t, Document l t ∧ dec.eval d t = .ok v := by
  constructor
  · exact scanDocument_sound dec
  · rintro ⟨t, ht, hv⟩
    rw [scanDocument_complete dec ht, hv]

/-- Two trees of one text evaluate alike. -/
theorem document_eval {l : Text} {t t' : Tree} (h : Document l t) (h' : Document l t') (d : Nat) :
    dec.eval d t = dec.eval d t' := by
  rw [← scanDocument_complete dec h, scanDocument_complete dec h']

end Json
