import McpGateway.JsonDumps

/-!
# The interpreter

What the gateway's code leaves to the interpreter that runs it: the limits on
integer strings and on recursion, and the Unicode database behind the string
methods. On ASCII these methods are fixed.
-/

namespace McpGateway

open Unicode Binary64 Json

/-- Exceptions by class; `other` is any class the gateway does not name. -/
inductive Exc
  | recursionError
  | unicodeEncodeError
  | valueError
  | clientDisconnect
  | requestError (cls : Text)
  | streamError (cls : Text)
  | other (cls : Text)
  deriving DecidableEq

def asciiLower (c : CodePoint) : CodePoint :=
  if h : 65 ≤ c.val ∧ c.val ≤ 90 then ⟨c.val + 32, by omega⟩ else c

structure Interp where
  /-- `sys.get_int_max_str_digits()`, none for 0. -/
  maxStrDigits : Option Nat
  loadsDepth : Nat
  dumpsDepth : Nat
  isPrintable : CodePoint → Bool
  isDigit : CodePoint → Bool
  decimal : CodePoint → Option Digit
  lower : Text → Text
  maxStrDigits_ge : ∀ n, maxStrDigits = some n → 640 ≤ n
  isPrintable_ascii : ∀ c : CodePoint, c.val < 0x80 → isPrintable c = decide (0x20 ≤ c.val ∧ c.val < 0x7F)
  isDigit_ascii : ∀ c : CodePoint, c.val < 0x80 → isDigit c = (digit? c).isSome
  decimal_ascii : ∀ c : CodePoint, c.val < 0x80 → decimal c = digit? c
  lower_ascii : ∀ s : Text, (∀ c ∈ s, c.val < 0x80) → lower s = s.map asciiLower

def Interp.ascii : Interp where
  maxStrDigits := some 4300
  loadsDepth := 900
  dumpsDepth := 900
  isPrintable := fun c => 0x20 ≤ c.val ∧ c.val < 0x7F
  isDigit := fun c => (digit? c).isSome
  decimal := digit?
  lower := fun s => s.map asciiLower
  maxStrDigits_ge := by intro n h; cases h; decide
  isPrintable_ascii := fun _ _ => rfl
  isDigit_ascii := fun _ _ => rfl
  decimal_ascii := fun _ _ => rfl
  lower_ascii := fun _ _ => rfl

/-! ## Strings -/

def hexText (width n : Nat) : Text :=
  (List.range width).reverse.map fun i => hexDigit (n / 16 ^ i % 16)

def reprChar (isPrintable : CodePoint → Bool) (quote c : CodePoint) : Text :=
  if c = quote ∨ c = ch '\\' then [ch '\\', c]
  else if c = ch '\t' then txt "\\t"
  else if c = ch '\n' then txt "\\n"
  else if c = ch '\r' then txt "\\r"
  else if c.val < 0x20 ∨ c.val = 0x7F then txt "\\x" ++ hexText 2 c.val
  else if c.val < 0x7F ∨ isPrintable c then [c]
  else if c.val < 0x100 then txt "\\x" ++ hexText 2 c.val
  else if c.val < 0x10000 then txt "\\u" ++ hexText 4 c.val
  else txt "\\U" ++ hexText 8 c.val

def apostrophe : CodePoint := ⟨39, by decide⟩

def strRepr (isPrintable : CodePoint → Bool) (s : Text) : Text :=
  let quote := if apostrophe ∈ s ∧ ch '"' ∉ s then ch '"' else apostrophe
  quote :: (s.flatMap (reprChar isPrintable quote) ++ [quote])

def listRepr (isPrintable : CodePoint → Bool) (l : List Text) : Text :=
  ch '[' :: (txt ", ").intercalate (l.map (strRepr isPrintable)) ++ [ch ']']

def intRepr (z : Int) : Text := (intNumeral z).text

def floatRepr : Float64 → Text
  | .nan => txt "nan"
  | .inf false => txt "inf"
  | .inf true => txt "-inf"
  | .finite neg x => (floatNumeral neg x).text

def isSpace (c : CodePoint) : Bool :=
  (9 ≤ c.val ∧ c.val ≤ 13) || (28 ≤ c.val ∧ c.val ≤ 32) || c.val = 0x85 || c.val = 0xA0 || c.val = 0x1680 ||
    (0x2000 ≤ c.val ∧ c.val ≤ 0x200A) || c.val = 0x2028 || c.val = 0x2029 || c.val = 0x202F || c.val = 0x205F ||
    c.val = 0x3000

def rstrip (p : CodePoint → Bool) (s : Text) : Text := (s.reverse.dropWhile p).reverse

def strip (s : Text) : Text := rstrip isSpace (s.dropWhile isSpace)

def sorted (s : Finset Text) : List Text :=
  Quot.liftOn s.val (List.insertionSort (· ≤ ·)) fun _ _ h =>
    (((List.perm_insertionSort _ _).trans h).trans (List.perm_insertionSort _ _).symm).eq_of_pairwise'
      (List.pairwise_insertionSort _ _) (List.pairwise_insertionSort _ _)

theorem mem_sorted {s : Finset Text} {x : Text} : x ∈ sorted s ↔ x ∈ s := by
  obtain ⟨v, hv⟩ := s
  induction v using Quot.ind with
  | mk l => exact List.mem_insertionSort _

def Interp.isdigit (py : Interp) (s : Text) : Bool := !s.isEmpty && s.all py.isDigit

/-- `int(s)` of a string of digits. -/
def Interp.int (py : Interp) (s : Text) : Except Exc Nat :=
  match s.mapM py.decimal with
  | none => .error .valueError
  | some ds => if tooLong py.maxStrDigits ds then .error .valueError else .ok (natOf ds)

end McpGateway
