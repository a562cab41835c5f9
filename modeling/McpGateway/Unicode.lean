import Mathlib

/-!
# Code points and the Unicode transfer formats

A text is a list of code points, surrogates included: decoding with the
`surrogatepass` handler lets lone surrogates through, while strict UTF-8
encoding refuses them.
-/

namespace Unicode

/-- A code point, surrogates included. -/
structure CodePoint where
  val : Nat
  lt : val < 0x110000
  deriving DecidableEq, Repr

abbrev Text := List CodePoint

abbrev Bytes := List UInt8

instance : LawfulBEq CodePoint := inferInstance

instance : LawfulBEq Text := inferInstance

theorem CodePoint.ext' {a b : CodePoint} (h : a.val = b.val) : a = b := by
  cases a; cases b; cases h; rfl

instance : LinearOrder CodePoint := LinearOrder.lift' CodePoint.val fun _ _ h => CodePoint.ext' h

def CodePoint.ofNat? (n : Nat) : Option CodePoint := if h : n < 0x110000 then some ⟨n, h⟩ else none

theorem toNat_lt (c : Char) : c.toNat < 0x110000 := by
  rcases c.valid with h | h
  · exact Nat.lt_trans h (by decide)
  · exact h.2

def ch (c : Char) : CodePoint := ⟨c.toNat, toNat_lt c⟩

def txt (s : String) : Text := s.toList.map ch

def ascii (s : String) : Bytes := s.toList.map fun c => .ofNat c.toNat

def isHigh (n : Nat) : Bool := 0xD800 ≤ n && n < 0xDC00

def isLow (n : Nat) : Bool := 0xDC00 ≤ n && n < 0xE000

def isSurrogate (n : Nat) : Bool := 0xD800 ≤ n && n < 0xE000

def join (hi lo : Nat) : Nat := 0x10000 + (hi - 0xD800) * 0x400 + (lo - 0xDC00)

theorem join_lt {hi lo : Nat} (h : isHigh hi = true) (l : isLow lo = true) : join hi lo < 0x110000 := by
  simp only [isHigh, isLow, Bool.and_eq_true, decide_eq_true_eq] at h l
  unfold join; omega

def consIn (lo hi n : Nat) (rest : Option Text) : Option Text :=
  if lo ≤ n ∧ n < hi then
    match CodePoint.ofNat? n, rest with
    | some c, some t => some (c :: t)
    | _, _ => none
  else none

theorem consIn_some {lo hi : Nat} {c : CodePoint} {t : Text} (hl : lo ≤ c.val) (hh : c.val < hi) :
    consIn lo hi c.val (some t) = some (c :: t) := by
  simp [consIn, CodePoint.ofNat?, hl, hh, c.lt]

/-! ## UTF-8 -/

/-- Strict UTF-8 of one code point; a surrogate has none. -/
def utf8Char (c : CodePoint) : Option Bytes :=
  if c.val < 0x80 then some [.ofNat c.val]
  else if c.val < 0x800 then some [.ofNat (0xC0 + c.val / 0x40), .ofNat (0x80 + c.val % 0x40)]
  else if isSurrogate c.val then none
  else if c.val < 0x10000 then
    some [.ofNat (0xE0 + c.val / 0x1000), .ofNat (0x80 + c.val / 0x40 % 0x40), .ofNat (0x80 + c.val % 0x40)]
  else
    some [.ofNat (0xF0 + c.val / 0x40000), .ofNat (0x80 + c.val / 0x1000 % 0x40),
      .ofNat (0x80 + c.val / 0x40 % 0x40), .ofNat (0x80 + c.val % 0x40)]

/-- `str.encode("utf-8")`; `none` is `UnicodeEncodeError`. -/
def encodeUtf8 : Text → Option Bytes
  | [] => some []
  | c :: t =>
    match utf8Char c, encodeUtf8 t with
    | some b, some bs => some (b ++ bs)
    | _, _ => none

def isCont (b : UInt8) : Bool := 0x80 ≤ b.toNat && b.toNat < 0xC0

def six (b : UInt8) : Nat := b.toNat - 0x80

/-- `bytes.decode("utf-8", "surrogatepass")`; `none` is `UnicodeDecodeError`. -/
def decodeUtf8 : Bytes → Option Text
  | [] => some []
  | a :: l =>
    if a.toNat < 0x80 then consIn 0 0x80 a.toNat (decodeUtf8 l)
    else if a.toNat < 0xC0 then none
    else if a.toNat < 0xE0 then
      match l with
      | b :: l => if isCont b then consIn 0x80 0x800 ((a.toNat - 0xC0) * 0x40 + six b) (decodeUtf8 l) else none
      | _ => none
    else if a.toNat < 0xF0 then
      match l with
      | b :: c :: l =>
        if isCont b && isCont c then
          consIn 0x800 0x10000 ((a.toNat - 0xE0) * 0x1000 + six b * 0x40 + six c) (decodeUtf8 l)
        else none
      | _ => none
    else if a.toNat < 0xF8 then
      match l with
      | b :: c :: d :: l =>
        if isCont b && isCont c && isCont d then
          consIn 0x10000 0x110000 ((a.toNat - 0xF0) * 0x40000 + six b * 0x1000 + six c * 0x40 + six d)
            (decodeUtf8 l)
        else none
      | _ => none
    else none

theorem decodeUtf8_one {a : UInt8} (ha : a.toNat < 0x80) (l : Bytes) :
    decodeUtf8 (a :: l) = consIn 0 0x80 a.toNat (decodeUtf8 l) := by
  rw [decodeUtf8.eq_def]; simp only [ha, if_true]

theorem decodeUtf8_two {a b : UInt8} (h1 : 0xC0 ≤ a.toNat) (h2 : a.toNat < 0xE0)
    (hb : isCont b = true) (l : Bytes) :
    decodeUtf8 (a :: b :: l) = consIn 0x80 0x800 ((a.toNat - 0xC0) * 0x40 + six b) (decodeUtf8 l) := by
  rw [decodeUtf8.eq_def]; simp only [hb, h2, if_true]
  rw [if_neg (by omega), if_neg (by omega)]

theorem decodeUtf8_three {a b c : UInt8} (h1 : 0xE0 ≤ a.toNat) (h2 : a.toNat < 0xF0) (hb : isCont b = true)
    (hc : isCont c = true) (l : Bytes) : decodeUtf8 (a :: b :: c :: l) =
      consIn 0x800 0x10000 ((a.toNat - 0xE0) * 0x1000 + six b * 0x40 + six c) (decodeUtf8 l) := by
  rw [decodeUtf8.eq_def]; simp only [hb, hc, h2, Bool.and_self, if_true]
  rw [if_neg (by omega), if_neg (by omega), if_neg (by omega)]

theorem decodeUtf8_four {a b c d : UInt8} (h1 : 0xF0 ≤ a.toNat) (h2 : a.toNat < 0xF8) (hb : isCont b = true)
    (hc : isCont c = true) (hd : isCont d = true) (l : Bytes) : decodeUtf8 (a :: b :: c :: d :: l) =
      consIn 0x10000 0x110000 ((a.toNat - 0xF0) * 0x40000 + six b * 0x1000 + six c * 0x40 + six d)
        (decodeUtf8 l) := by
  rw [decodeUtf8.eq_def]; simp only [hb, hc, hd, h2, Bool.and_self, if_true]
  rw [if_neg (by omega), if_neg (by omega), if_neg (by omega), if_neg (by omega)]

theorem toNat_ofNat_lt {n : Nat} (h : n < 256) : (UInt8.ofNat n).toNat = n := by
  simpa using Nat.mod_eq_of_lt h

theorem cont_ofNat {n : Nat} (h : n < 0x40) :
    isCont (.ofNat (0x80 + n)) = true ∧ six (.ofNat (0x80 + n)) = n := by
  have e : (UInt8.ofNat (0x80 + n)).toNat = 0x80 + n := by
    apply toNat_ofNat_lt; omega
  have hn : 0x80 + n < 0xC0 := by omega
  unfold isCont six
  rw [e, Nat.add_sub_cancel_left]
  simp [hn]

/-- Decoding takes back one encoded code point. -/
theorem decodeUtf8_utf8Char {c : CodePoint} {b : Bytes} (h : utf8Char c = some b) (l : Bytes) {t : Text}
    (hl : decodeUtf8 l = some t) : decodeUtf8 (b ++ l) = some (c :: t) := by
  have hc := c.lt
  obtain ⟨k1, s1⟩ := cont_ofNat (n := c.val % 0x40) (by omega)
  obtain ⟨k2, s2⟩ := cont_ofNat (n := c.val / 0x40 % 0x40) (by omega)
  obtain ⟨k3, s3⟩ := cont_ofNat (n := c.val / 0x1000 % 0x40) (by omega)
  unfold utf8Char at h
  split_ifs at h with h1 h2 h3 h4 <;> cases h <;> simp only [List.cons_append, List.nil_append]
  · have e : (UInt8.ofNat c.val).toNat = c.val := toNat_ofNat_lt (by omega)
    rw [decodeUtf8_one (by omega), e, hl]
    exact consIn_some (Nat.zero_le _) h1
  · have e : (UInt8.ofNat (0xC0 + c.val / 0x40)).toNat = 0xC0 + c.val / 0x40 := toNat_ofNat_lt (by omega)
    have hv : (0xC0 + c.val / 0x40 - 0xC0) * 0x40 + c.val % 0x40 = c.val := by omega
    rw [decodeUtf8_two (by omega) (by omega) k1, e, s1, hv, hl]
    exact consIn_some (by omega) h2
  · have e : (UInt8.ofNat (0xE0 + c.val / 0x1000)).toNat = 0xE0 + c.val / 0x1000 := toNat_ofNat_lt (by omega)
    have hv : (0xE0 + c.val / 0x1000 - 0xE0) * 0x1000 + c.val / 0x40 % 0x40 * 0x40 + c.val % 0x40 =
      c.val := by omega
    rw [decodeUtf8_three (by omega) (by omega) k2 k1, e, s2, s1, hv, hl]
    exact consIn_some (by omega) h4
  · have e : (UInt8.ofNat (0xF0 + c.val / 0x40000)).toNat = 0xF0 + c.val / 0x40000 := toNat_ofNat_lt (by omega)
    have hv : (0xF0 + c.val / 0x40000 - 0xF0) * 0x40000 + c.val / 0x1000 % 0x40 * 0x1000 +
        c.val / 0x40 % 0x40 * 0x40 + c.val % 0x40 = c.val := by omega
    rw [decodeUtf8_four (by omega) (by omega) k3 k2 k1, e, s3, s2, s1, hv, hl]
    exact consIn_some (by omega) hc

theorem decodeUtf8_encodeUtf8 : ∀ {t : Text} {b : Bytes}, encodeUtf8 t = some b → decodeUtf8 b = some t
  | [], b, h => by cases h; rfl
  | c :: t, b, h => by
    simp only [encodeUtf8] at h
    split at h
    · rename_i b1 bs h1 h2
      cases h
      exact decodeUtf8_utf8Char h1 bs (decodeUtf8_encodeUtf8 h2)
    · cases h

theorem utf8Char_some {c : CodePoint} : (∃ b, utf8Char c = some b) ↔ isSurrogate c.val = false := by
  unfold utf8Char
  split_ifs with h1 h2 h3 h4
  · simp [isSurrogate]; omega
  · simp [isSurrogate]; omega
  · simp [h3]
  · simp [h3]
  · simp [h3]

theorem encodeUtf8_some {t : Text} : (∃ b, encodeUtf8 t = some b) ↔ ∀ c ∈ t, isSurrogate c.val = false := by
  induction t with
  | nil => simp [encodeUtf8]
  | cons c t ih =>
    rw [List.forall_mem_cons, ← utf8Char_some, ← ih, encodeUtf8]
    cases utf8Char c <;> cases encodeUtf8 t <;> simp

/-- `bytes.decode("utf-8")`, which refuses surrogates; `none` is `UnicodeDecodeError`. -/
def decodeStrict (b : Bytes) : Option Text :=
  match decodeUtf8 b with
  | some t => if t.all fun c => !isSurrogate c.val then some t else none
  | none => none

theorem decodeStrict_encodeUtf8 {t : Text} {b : Bytes} (h : encodeUtf8 t = some b) : decodeStrict b = some t := by
  have hscalar : (t.all fun c => !isSurrogate c.val) = true := by
    rw [List.all_eq_true]
    intro c hc
    rw [encodeUtf8_some.mp ⟨b, h⟩ c hc]
    rfl
  simp only [decodeStrict, decodeUtf8_encodeUtf8 h, hscalar, if_true]

/-! ## UTF-16 and UTF-32 -/

def units16 (big : Bool) : Bytes → Option (List Nat)
  | [] => some []
  | [_] => none
  | a :: b :: l =>
    (units16 big l).map fun us =>
      (if big then a.toNat * 0x100 + b.toNat else b.toNat * 0x100 + a.toNat) :: us

/-- Surrogate pairs are joined; a lone surrogate is kept. -/
def joinUnits : List Nat → Option Text
  | [] => some []
  | [u] => consIn 0 0x110000 u (some [])
  | hi :: lo :: l =>
    if isHigh hi && isLow lo then consIn 0 0x110000 (join hi lo) (joinUnits l)
    else consIn 0 0x110000 hi (joinUnits (lo :: l))

def decodeUtf16 (big : Bool) (b : Bytes) : Option Text := (units16 big b).bind joinUnits

/-- `bytes.decode("utf-16", "surrogatepass")`: the byte order mark decides and is dropped. -/
def decodeUtf16Bom : Bytes → Option Text
  | a :: b :: l =>
    if a = 0xFE ∧ b = 0xFF then decodeUtf16 true l
    else if a = 0xFF ∧ b = 0xFE then decodeUtf16 false l
    else decodeUtf16 false (a :: b :: l)
  | l => decodeUtf16 false l

def decodeUtf32 (big : Bool) : Bytes → Option Text
  | [] => some []
  | a :: b :: c :: d :: l =>
    let n := if big then ((a.toNat * 0x100 + b.toNat) * 0x100 + c.toNat) * 0x100 + d.toNat
      else ((d.toNat * 0x100 + c.toNat) * 0x100 + b.toNat) * 0x100 + a.toNat
    consIn 0 0x110000 n (decodeUtf32 big l)
  | _ => none

def decodeUtf32Bom : Bytes → Option Text
  | a :: b :: c :: d :: l =>
    if a = 0 ∧ b = 0 ∧ c = 0xFE ∧ d = 0xFF then decodeUtf32 true l
    else if a = 0xFF ∧ b = 0xFE ∧ c = 0 ∧ d = 0 then decodeUtf32 false l
    else decodeUtf32 false (a :: b :: c :: d :: l)
  | l => decodeUtf32 false l

end Unicode
