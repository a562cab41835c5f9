import McpGateway.JsonGrammar

/-!
# json.dumps

The C encoder with separators `,` and `:`. Floats are printed by their
shortest decimal, in exponent form below `1e-4` and from `1e16` on.
-/

namespace Json

open Unicode Binary64

/-! ## Digits -/

def toDigits (n : Nat) : List Digit :=
  if n = 0 then [0] else ((Nat.digits 10 n).map (Fin.ofNat 10)).reverse

def expDigits (n : Nat) : List Digit := if n < 10 then 0 :: toDigits n else toDigits n

def zeros (n : Nat) : List Digit := List.replicate n 0

/-! ## Numbers -/

def intNumeral (z : Int) : Numeral := ⟨z < 0, toDigits z.natAbs, none, none⟩

/-- `float_repr_style` short: the digits `ds` with the point after the first `decpt` of them. -/
def layout (neg : Bool) (ds : List Digit) (decpt : Int) : Numeral :=
  if decpt ≤ -4 ∨ 16 < decpt then
    ⟨neg, ds.take 1, if ds.length ≤ 1 then none else some (ds.drop 1),
      some (decpt - 1 < 0, expDigits (decpt - 1).natAbs)⟩
  else if decpt ≤ 0 then ⟨neg, [0], some (zeros (-decpt).toNat ++ ds), none⟩
  else if ds.length ≤ decpt.toNat then ⟨neg, ds ++ zeros (decpt.toNat - ds.length), some [0], none⟩
  else ⟨neg, ds.take decpt.toNat, some (ds.drop decpt.toNat), none⟩

def decimalNumeral (neg : Bool) (d : Decimal) : Numeral :=
  layout neg (toDigits d.digits) ((toDigits d.digits).length + d.exp)

def floatNumeral (neg : Bool) (x : Magnitude) : Numeral :=
  if x.m = 0 then ⟨neg, [0], some [0], none⟩ else decimalNumeral neg (shortest x)

def fracText : Option (List Digit) → Text
  | none => []
  | some ds => ch '.' :: digitText ds

def expText : Option (Bool × List Digit) → Text
  | none => []
  | some (neg, ds) => ch 'e' :: (if neg then ch '-' else ch '+') :: digitText ds

def Numeral.text (n : Numeral) : Text :=
  (if n.neg then [ch '-'] else []) ++ (digitText n.int ++ (fracText n.frac ++ expText n.exp))

/-! ## Strings -/

def hexDigit (n : Nat) : CodePoint := if h : n < 16 then ⟨if n < 10 then 48 + n else 87 + n, by split <;> omega⟩
    else ch '0'

def unitText (n : Nat) : Text :=
  [ch '\\', ch 'u', hexDigit (n / 0x1000 % 16), hexDigit (n / 0x100 % 16), hexDigit (n / 0x10 % 16),
    hexDigit (n % 16)]

/-- A character as the encoder writes it; with `ascii` only printable ASCII stays. -/
def escapeChar (ascii : Bool) (c : CodePoint) : Text :=
  if c = ch '"' then [ch '\\', ch '"']
  else if c = ch '\\' then [ch '\\', ch '\\']
  else if c = ch '\n' then [ch '\\', ch 'n']
  else if c = ch '\r' then [ch '\\', ch 'r']
  else if c = ch '\t' then [ch '\\', ch 't']
  else if c.val = 12 then [ch '\\', ch 'f']
  else if c.val = 8 then [ch '\\', ch 'b']
  else if c.val < 0x20 then unitText c.val
  else if !ascii || c.val < 0x7F then [c]
  else if c.val < 0x10000 then unitText c.val
  else unitText (0xD800 + (c.val - 0x10000) / 0x400) ++ unitText (0xDC00 + (c.val - 0x10000) % 0x400)

def strText (ascii : Bool) (s : Text) : Text := ch '"' :: (s.flatMap (escapeChar ascii) ++ [ch '"'])

/-! ## Values -/

inductive DumpError
  | notFinite
  | digits
  | recursion
  deriving DecidableEq

structure Encoder where
  ensureAscii : Bool
  allowNan : Bool
  maxStrDigits : Option Nat

def Encoder.float (enc : Encoder) (x : Float64) : Except DumpError Text :=
  let constant (c : Constant) := if enc.allowNan then .ok c.text else .error .notFinite
  match x with
  | .finite neg x => .ok (floatNumeral neg x).text
  | .nan => constant .nan
  | .inf false => constant .infinity
  | .inf true => constant .negInfinity

def Encoder.int (enc : Encoder) (z : Int) : Except DumpError Text :=
  if tooLong enc.maxStrDigits (toDigits z.natAbs) then .error .digits else .ok (intNumeral z).text

def commas (close : CodePoint) : List Text → Text
  | [] => [close]
  | [s] => s ++ [close]
  | s :: s' :: l => s ++ ch ',' :: commas close (s' :: l)

section
variable (enc : Encoder)

mutual
/-- `encoder_listencode_obj`, with `d` levels of recursion left. -/
def Encoder.dumps : Nat → Value → Except DumpError Text
  | _, .null => .ok (txt "null")
  | _, .bool b => .ok (if b then txt "true" else txt "false")
  | _, .int z => enc.int z
  | _, .float x => enc.float x
  | _, .str s => .ok (strText enc.ensureAscii s)
  | 0, .arr _ => .error .recursion
  | d + 1, .arr vs =>
    match Encoder.dumpsElems d vs with
    | .ok l => .ok (ch '[' :: commas (ch ']') l)
    | .error e => .error e
  | 0, .obj _ => .error .recursion
  | d + 1, .obj ms =>
    match Encoder.dumpsMembers d ms with
    | .ok l => .ok (ch '{' :: commas (ch '}') l)
    | .error e => .error e
def Encoder.dumpsElems : Nat → List Value → Except DumpError (List Text)
  | _, [] => .ok []
  | d, v :: vs =>
    match Encoder.dumps d v with
    | .error e => .error e
    | .ok s =>
      match Encoder.dumpsElems d vs with
      | .error e => .error e
      | .ok l => .ok (s :: l)
def Encoder.dumpsMembers : Nat → List (Text × Value) → Except DumpError (List Text)
  | _, [] => .ok []
  | d, (k, v) :: ms =>
    match Encoder.dumps d v with
    | .error e => .error e
    | .ok s =>
      match Encoder.dumpsMembers d ms with
      | .error e => .error e
      | .ok l => .ok ((strText enc.ensureAscii k ++ ch ':' :: s) :: l)
end

end

end Json
