import McpGateway.Unicode
import McpGateway.Binary64

/-!
# JSON texts, their syntax trees and their values

The grammar is a relation between a text, the tree at its front and what is
left: RFC 8259 with the three constants `NaN`, `Infinity` and `-Infinity`
added. A tree keeps repeated member names and the digits of a number; a
`Decoder` turns it into a value, left to right and innermost first.
-/

namespace Json

open Unicode Binary64

abbrev Digit := Fin 10

inductive Value
  | null
  | bool (b : Bool)
  | int (z : Int)
  | float (x : Float64)
  | str (s : Text)
  | arr (vs : List Value)
  | obj (ms : List (Text × Value))

section
variable {P : Value → Prop} (null : P .null) (bool : ∀ b, P (.bool b)) (int : ∀ z, P (.int z))
  (float : ∀ x, P (.float x)) (str : ∀ s, P (.str s)) (arr : ∀ vs, (∀ v ∈ vs, P v) → P (.arr vs))
  (obj : ∀ ms, (∀ m ∈ ms, P m.2) → P (.obj ms))
include null bool int float str arr obj
set_option linter.unusedSectionVars false

mutual
/-- Induction over the nesting of a value. -/
theorem Value.nested : ∀ v, P v
  | .null => null
  | .bool b => bool b
  | .int z => int z
  | .float x => float x
  | .str s => str s
  | .arr vs => arr vs (Value.nestedElems vs)
  | .obj ms => obj ms (Value.nestedMembers ms)
theorem Value.nestedElems : ∀ vs : List Value, ∀ v ∈ vs, P v
  | [], _, hv => nomatch hv
  | v :: vs, w, hw => (List.mem_cons.mp hw).elim (fun h => h ▸ Value.nested v) (Value.nestedElems vs w)
theorem Value.nestedMembers : ∀ ms : List (Text × Value), ∀ m ∈ ms, P m.2
  | [], _, hm => nomatch hm
  | (_, v) :: ms, m, hm => (List.mem_cons.mp hm).elim (fun h => h ▸ Value.nested v) (Value.nestedMembers ms m)
end

end

/-! ## Equality -/

mutual
def Value.same : Value → Value → Bool
  | .null, .null => true
  | .bool b, .bool c => b == c
  | .int z, .int y => z == y
  | .float x, .float y => x == y
  | .str s, .str t => s == t
  | .arr vs, .arr ws => sameElems vs ws
  | .obj ms, .obj ns => sameMembers ms ns
  | _, _ => false
def sameElems : List Value → List Value → Bool
  | [], [] => true
  | v :: vs, w :: ws => v.same w && sameElems vs ws
  | _, _ => false
def sameMembers : List (Text × Value) → List (Text × Value) → Bool
  | [], [] => true
  | (k, v) :: ms, (l, w) :: ns => k == l && v.same w && sameMembers ms ns
  | _, _ => false
end

theorem sameElems_iff {vs : List Value} (h : ∀ v ∈ vs, ∀ w, v.same w = true ↔ v = w) {ws : List Value} :
    sameElems vs ws = true ↔ vs = ws := by
  induction vs generalizing ws with
  | nil => cases ws <;> simp [sameElems]
  | cons v vs ih =>
    cases ws with
    | nil => simp [sameElems]
    | cons w ws =>
      obtain ⟨hv, hvs⟩ := List.forall_mem_cons.mp h
      simp [sameElems, hv w, ih hvs]

theorem sameMembers_iff {ms : List (Text × Value)} (h : ∀ m ∈ ms, ∀ w, m.2.same w = true ↔ m.2 = w)
    {ns : List (Text × Value)} : sameMembers ms ns = true ↔ ms = ns := by
  induction ms generalizing ns with
  | nil => cases ns <;> simp [sameMembers]
  | cons m ms ih =>
    cases ns with
    | nil => simp [sameMembers]
    | cons n ns =>
      obtain ⟨hm, hms⟩ := List.forall_mem_cons.mp h
      simp [sameMembers, hm n.2, ih hms, Prod.ext_iff]

theorem Value.same_iff {v w : Value} : v.same w = true ↔ v = w := by
  induction v using Value.nested generalizing w with
  | null => cases w <;> simp [Value.same]
  | bool b => cases w <;> simp [Value.same]
  | int z => cases w <;> simp [Value.same]
  | float x => cases w <;> simp [Value.same]
  | str s => cases w <;> simp [Value.same]
  | arr vs ih =>
    cases w with
    | arr ws => simp [Value.same, sameElems_iff fun v hv _ => ih v hv]
    | _ => simp [Value.same]
  | obj ms ih =>
    cases w with
    | obj ns => simp [Value.same, sameMembers_iff fun m hm _ => ih m hm]
    | _ => simp [Value.same]

instance : DecidableEq Value := fun _ _ => decidable_of_iff _ Value.same_iff

inductive Constant
  | nan
  | infinity
  | negInfinity
  deriving DecidableEq

def Constant.text : Constant → Text
  | .nan => txt "NaN"
  | .infinity => txt "Infinity"
  | .negInfinity => txt "-Infinity"

def Constant.float : Constant → Float64
  | .nan => .nan
  | .infinity => .inf false
  | .negInfinity => .inf true

structure Numeral where
  neg : Bool
  int : List Digit
  frac : Option (List Digit)
  exp : Option (Bool × List Digit)
  deriving DecidableEq

inductive Tree
  | null
  | bool (b : Bool)
  | const (c : Constant)
  | num (n : Numeral)
  | str (s : Text)
  | arr (ts : List Tree)
  | obj (ms : List (Text × Tree))

/-! ## Characters -/

def isWs (c : CodePoint) : Bool := c = ch ' ' || c = ch '\t' || c = ch '\n' || c = ch '\r'

def digit? (c : CodePoint) : Option Digit :=
  if h : 48 ≤ c.val ∧ c.val ≤ 57 then some ⟨c.val - 48, by omega⟩ else none

def digitCh (d : Digit) : CodePoint := ⟨48 + d.val, by omega⟩

@[simp] theorem digit?_digitCh (d : Digit) : digit? (digitCh d) = some d := by
  have h : 48 ≤ 48 + d.val ∧ 48 + d.val ≤ 57 := by omega
  simp [digit?, digitCh, h]

theorem digit?_some {c : CodePoint} {d : Digit} (h : digit? c = some d) : c = digitCh d := by
  unfold digit? at h
  split at h
  · rename_i hc
    cases h
    exact CodePoint.ext' (by simp only [digitCh]; omega)
  · cases h

def hexVal? (c : CodePoint) : Option Nat :=
  if 48 ≤ c.val ∧ c.val ≤ 57 then some (c.val - 48)
  else if 97 ≤ c.val ∧ c.val ≤ 102 then some (c.val - 87)
  else if 65 ≤ c.val ∧ c.val ≤ 70 then some (c.val - 55)
  else none

def hex4 (a b c d : CodePoint) : Option CodePoint :=
  match hexVal? a, hexVal? b, hexVal? c, hexVal? d with
  | some a, some b, some c, some d => CodePoint.ofNat? (a * 0x1000 + b * 0x100 + c * 0x10 + d)
  | _, _, _, _ => none

def simpleEscape (c : CodePoint) : Option CodePoint :=
  if c = ch '"' then some (ch '"')
  else if c = ch '\\' then some (ch '\\')
  else if c = ch '/' then some (ch '/')
  else if c = ch 'b' then some ⟨8, by decide⟩
  else if c = ch 'f' then some ⟨12, by decide⟩
  else if c = ch 'n' then some (ch '\n')
  else if c = ch 'r' then some (ch '\r')
  else if c = ch 't' then some (ch '\t')
  else none

/-- A character of a string as it is written: a code unit after `\u`, or any other. -/
inductive StrItem
  | raw (c : CodePoint)
  | unit (u : CodePoint)

/-- Two escaped surrogates in a row, high then low, are one character. -/
def joinItems : List StrItem → Text
  | [] => []
  | .raw c :: l => c :: joinItems l
  | [.unit u] => [u]
  | .unit u :: .raw c :: l => u :: c :: joinItems l
  | .unit u :: .unit v :: l =>
    if h : isHigh u.val = true ∧ isLow v.val = true then ⟨join u.val v.val, join_lt h.1 h.2⟩ :: joinItems l
    else u :: joinItems (.unit v :: l)

def digitText (ds : List Digit) : Text := ds.map digitCh

/-! ## The grammar -/

inductive Ws : Text → Text → Prop
  | nil {r} : Ws r r
  | cons {c l r} : isWs c = true → Ws l r → Ws (c :: l) r

inductive Minus : Text → Bool → Text → Prop
  | absent {r} : Minus r false r
  | present {r} : Minus (ch '-' :: r) true r

inductive IntPart : Text → List Digit → Text → Prop
  | zero {r} : IntPart (ch '0' :: r) [0] r
  | digits {d ds r} : d ≠ 0 → IntPart (digitText (d :: ds) ++ r) (d :: ds) r

inductive FracPart : Text → Option (List Digit) → Text → Prop
  | absent {r} : FracPart r none r
  | present {d ds r} : FracPart (ch '.' :: (digitText (d :: ds) ++ r)) (some (d :: ds)) r

inductive ExpSign : Text → Bool → Text → Prop
  | absent {r} : ExpSign r false r
  | plus {r} : ExpSign (ch '+' :: r) false r
  | minus {r} : ExpSign (ch '-' :: r) true r

inductive ExpPart : Text → Option (Bool × List Digit) → Text → Prop
  | absent {r} : ExpPart r none r
  | present {e l neg d ds r} : (e = ch 'e' ∨ e = ch 'E') → ExpSign l neg (digitText (d :: ds) ++ r) →
      ExpPart (e :: l) (some (neg, d :: ds)) r

inductive Num : Text → Numeral → Text → Prop
  | mk {l neg l₁ ip l₂ fp l₃ ep r} : Minus l neg l₁ → IntPart l₁ ip l₂ → FracPart l₂ fp l₃ → ExpPart l₃ ep r →
      Num l ⟨neg, ip, fp, ep⟩ r

inductive StrItems : Text → List StrItem → Text → Prop
  | close {r} : StrItems (ch '"' :: r) [] r
  | char {c l is r} : c ≠ ch '"' → c ≠ ch '\\' → 0x20 ≤ c.val → StrItems l is r → StrItems (c :: l) (.raw c :: is) r
  | escape {e c l is r} : simpleEscape e = some c → StrItems l is r → StrItems (ch '\\' :: e :: l) (.raw c :: is) r
  | unit {a b c d u l is r} : hex4 a b c d = some u → StrItems l is r →
      StrItems (ch '\\' :: ch 'u' :: a :: b :: c :: d :: l) (.unit u :: is) r

inductive StrBody : Text → Text → Text → Prop
  | mk {l is r} : StrItems l is r → StrBody l (joinItems is) r

mutual
inductive Val : Text → Tree → Text → Prop
  | null {r} : Val (txt "null" ++ r) .null r
  | bool {b r} : Val ((if b then txt "true" else txt "false") ++ r) (.bool b) r
  | const {c r} : Val (c.text ++ r) (.const c) r
  | num {l n r} : Num l n r → Val l (.num n) r
  | str {l s r} : StrBody l s r → Val (ch '"' :: l) (.str s) r
  | arrNil {l r} : Ws l (ch ']' :: r) → Val (ch '[' :: l) (.arr []) r
  | arr {l l₁ ts r} : Ws l l₁ → Elems l₁ ts r → Val (ch '[' :: l) (.arr ts) r
  | objNil {l r} : Ws l (ch '}' :: r) → Val (ch '{' :: l) (.obj []) r
  | obj {l l₁ ms r} : Ws l l₁ → Membs l₁ ms r → Val (ch '{' :: l) (.obj ms) r
inductive Elems : Text → List Tree → Text → Prop
  | last {l t l₁ r} : Val l t l₁ → Ws l₁ (ch ']' :: r) → Elems l [t] r
  | more {l t l₁ l₂ l₃ ts r} : Val l t l₁ → Ws l₁ (ch ',' :: l₂) → Ws l₂ l₃ → Elems l₃ ts r → Elems l (t :: ts) r
inductive Membs : Text → List (Text × Tree) → Text → Prop
  | last {l k l₁ l₂ l₃ t l₄ r} : StrBody l k l₁ → Ws l₁ (ch ':' :: l₂) → Ws l₂ l₃ → Val l₃ t l₄ →
      Ws l₄ (ch '}' :: r) → Membs (ch '"' :: l) [(k, t)] r
  | more {l k l₁ l₂ l₃ t l₄ l₅ l₆ ms r} : StrBody l k l₁ → Ws l₁ (ch ':' :: l₂) → Ws l₂ l₃ → Val l₃ t l₄ →
      Ws l₄ (ch ',' :: l₅) → Ws l₅ l₆ → Membs l₆ ms r → Membs (ch '"' :: l) ((k, t) :: ms) r
end

def Document (l : Text) (t : Tree) : Prop := ∃ l₁ l₂, Ws l l₁ ∧ Val l₁ t l₂ ∧ Ws l₂ []

mutual
def Tree.strict : Tree → Bool
  | .const _ => false
  | .arr ts => strictAll ts
  | .obj ms => strictMembers ms
  | _ => true
def strictAll : List Tree → Bool
  | [] => true
  | t :: ts => t.strict && strictAll ts
def strictMembers : List (Text × Tree) → Bool
  | [] => true
  | (_, t) :: ms => t.strict && strictMembers ms
end

/-- An RFC 8259 text: strict JSON in UTF-8 without a byte order mark. -/
def Rfc8259 (b : Bytes) : Prop := ∃ l t, encodeUtf8 l = some b ∧ Document l t ∧ t.strict = true

/-! ## From trees to values -/

def natOf (ds : List Digit) : Nat := Nat.ofDigits 10 (ds.reverse.map Fin.val)

def Numeral.isInt (n : Numeral) : Bool := n.frac.isNone && n.exp.isNone

def Numeral.toInt (n : Numeral) : Int := if n.neg then -(natOf n.int : Int) else natOf n.int

def Numeral.expVal (n : Numeral) : Int :=
  match n.exp with
  | none => 0
  | some (true, ds) => -(natOf ds : Int)
  | some (false, ds) => natOf ds

def Numeral.magnitude (n : Numeral) : ℚ :=
  natOf (n.int ++ n.frac.getD []) * 10 ^ (n.expVal - (n.frac.getD []).length)

def Numeral.toFloat (n : Numeral) : Float64 := Float64.ofRat n.neg n.magnitude

inductive LoadError (ε : Type)
  | malformed
  | digits
  | recursion
  | hook (e : ε)
  deriving DecidableEq

/-- The hooks of a `JSONDecoder` and the interpreter's digit limit. -/
structure Decoder (ε : Type) where
  objectPairs : List (Text × Value) → Except ε Value
  parseConstant : Constant → Except ε Value
  maxStrDigits : Option Nat

variable {ε : Type}

def tooLong (limit : Option Nat) (ds : List Digit) : Bool :=
  match limit with
  | some n => n < ds.length
  | none => false

def leaving {α ε : Type} (r : Text) (x : Except ε α) : Except ε (α × Text) :=
  match x with
  | .ok v => .ok (v, r)
  | .error e => .error e

def hooked {α : Type} : Except ε α → Except (LoadError ε) α
  | .ok v => .ok v
  | .error e => .error (.hook e)

def Decoder.number (dec : Decoder ε) (n : Numeral) : Except (LoadError ε) Value :=
  if n.isInt then
    if tooLong dec.maxStrDigits n.int then .error .digits else .ok (.int n.toInt)
  else .ok (.float n.toFloat)

section
variable (dec : Decoder ε)

mutual
/-- The value of a tree, with `d` levels of nesting left. -/
def Decoder.eval : Nat → Tree → Except (LoadError ε) Value
  | _, .null => .ok .null
  | _, .bool b => .ok (.bool b)
  | _, .const c => hooked (dec.parseConstant c)
  | _, .num n => dec.number n
  | _, .str s => .ok (.str s)
  | 0, .arr _ => .error .recursion
  | d + 1, .arr ts =>
    match Decoder.evals d ts with
    | .ok vs => .ok (.arr vs)
    | .error e => .error e
  | 0, .obj _ => .error .recursion
  | d + 1, .obj ms =>
    match Decoder.evalMembers d ms with
    | .ok ps => hooked (dec.objectPairs ps)
    | .error e => .error e
def Decoder.evals : Nat → List Tree → Except (LoadError ε) (List Value)
  | _, [] => .ok []
  | d, t :: ts =>
    match Decoder.eval d t with
    | .error e => .error e
    | .ok v =>
      match Decoder.evals d ts with
      | .error e => .error e
      | .ok vs => .ok (v :: vs)
def Decoder.evalMembers : Nat → List (Text × Tree) → Except (LoadError ε) (List (Text × Value))
  | _, [] => .ok []
  | d, (k, t) :: ms =>
    match Decoder.eval d t with
    | .error e => .error e
    | .ok v =>
      match Decoder.evalMembers d ms with
      | .error e => .error e
      | .ok ps => .ok ((k, v) :: ps)
end

end

end Json
