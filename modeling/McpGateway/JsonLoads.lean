import McpGateway.JsonGrammar

/-!
# json.loads

The C scanner of the standard library: one pass over the text, calling the
hooks as it goes. `nested` scans a value one level down; at the recursion
limit there is none.
-/

namespace Json

open Unicode Binary64

def skipWs : Text → Text
  | [] => []
  | c :: l => if isWs c then skipWs l else c :: l

def afterLit : Text → Text → Option Text
  | [], l => some l
  | p :: ps, c :: l => if p = c then afterLit ps l else none
  | _ :: _, [] => none

def takeDigits : Text → List Digit × Text
  | [] => ([], [])
  | c :: l =>
    match digit? c with
    | some d => (d :: (takeDigits l).1, (takeDigits l).2)
    | none => ([], c :: l)

def scanMinus : Text → Bool × Text
  | [] => (false, [])
  | c :: l => if c = ch '-' then (true, l) else (false, c :: l)

def scanInt (l : Text) : Option (List Digit × Text) :=
  match takeDigits l with
  | ([], _) => none
  | (d :: ds, r) => if d.val = 0 then some ([d], l.tail) else some (d :: ds, r)

/-- A fraction needs a digit after its point; without one nothing is read. -/
def scanFrac : Text → Option (List Digit) × Text
  | [] => (none, [])
  | c :: l =>
    if c = ch '.' then
      match takeDigits l with
      | ([], _) => (none, c :: l)
      | (d :: ds, r) => (some (d :: ds), r)
    else (none, c :: l)

def scanExpSign : Text → Bool × Text
  | [] => (false, [])
  | c :: l => if c = ch '+' then (false, l) else if c = ch '-' then (true, l) else (false, c :: l)

/-- An exponent needs a digit; without one the scanner backtracks to the `e`. -/
def scanExp : Text → Option (Bool × List Digit) × Text
  | [] => (none, [])
  | c :: l =>
    if c = ch 'e' ∨ c = ch 'E' then
      match takeDigits (scanExpSign l).2 with
      | ([], _) => (none, c :: l)
      | (d :: ds, r) => (some ((scanExpSign l).1, d :: ds), r)
    else (none, c :: l)

/-- `_match_number_unicode`. -/
def scanNumber (l : Text) : Option (Numeral × Text) :=
  match scanInt (scanMinus l).2 with
  | none => none
  | some (ip, l₂) =>
    some (⟨(scanMinus l).1, ip, (scanFrac l₂).1, (scanExp (scanFrac l₂).2).1⟩, (scanExp (scanFrac l₂).2).2)

def consItem (i : StrItem) : Option (List StrItem × Text) → Option (List StrItem × Text)
  | some (is, r) => some (i :: is, r)
  | none => none

/-- `scanstring_unicode` with `strict` set, before surrogates are joined. -/
def scanItems : Text → Option (List StrItem × Text)
  | [] => none
  | c :: l =>
    if c = ch '"' then some ([], l)
    else if c = ch '\\' then
      match l with
      | [] => none
      | e :: l =>
        if e = ch 'u' then
          match l with
          | a :: b :: c :: d :: l =>
            match hex4 a b c d with
            | some u => consItem (.unit u) (scanItems l)
            | none => none
          | _ => none
        else
          match simpleEscape e with
          | some x => consItem (.raw x) (scanItems l)
          | none => none
    else if c.val < 0x20 then none
    else consItem (.raw c) (scanItems l)

def scanString (l : Text) : Option (Text × Text) :=
  match scanItems l with
  | some (is, r) => some (joinItems is, r)
  | none => none

variable {ε : Type}

abbrev Scan (ε α : Type) := Text → Except (LoadError ε) (α × Text)

def scanElems (scan : Scan ε Value) : Nat → Scan ε (List Value)
  | 0, _ => .error .malformed
  | n + 1, l =>
    match scan l with
    | .error e => .error e
    | .ok (v, l₁) =>
      match skipWs l₁ with
      | [] => .error .malformed
      | c :: l₂ =>
        if c = ch ']' then .ok ([v], l₂)
        else if c = ch ',' then
          match scanElems scan n (skipWs l₂) with
          | .error e => .error e
          | .ok (vs, r) => .ok (v :: vs, r)
        else .error .malformed

def scanKey : Text → Option (Text × Text)
  | [] => none
  | c :: l =>
    if c = ch '"' then
      match scanString l with
      | none => none
      | some (k, l₁) =>
        match skipWs l₁ with
        | [] => none
        | c' :: l₂ => if c' = ch ':' then some (k, skipWs l₂) else none
    else none

def scanMembers (scan : Scan ε Value) : Nat → Scan ε (List (Text × Value))
  | 0, _ => .error .malformed
  | n + 1, l =>
    match scanKey l with
    | none => .error .malformed
    | some (k, l₃) =>
      match scan l₃ with
      | .error e => .error e
      | .ok (v, l₄) =>
        match skipWs l₄ with
        | [] => .error .malformed
        | c :: l₅ =>
          if c = ch '}' then .ok ([(k, v)], l₅)
          else if c = ch ',' then
            match scanMembers scan n (skipWs l₅) with
            | .error e => .error e
            | .ok (ps, r) => .ok ((k, v) :: ps, r)
          else .error .malformed

section
variable (dec : Decoder ε)

def scanArray (nested : Option (Scan ε Value)) : Scan ε Value := fun l =>
  match nested with
  | none => .error .recursion
  | some scan =>
    match skipWs l with
    | [] => .error .malformed
    | c :: r =>
      if c = ch ']' then .ok (.arr [], r)
      else
        match scanElems scan (c :: r).length (c :: r) with
        | .error e => .error e
        | .ok (vs, r) => .ok (.arr vs, r)

def scanObject (nested : Option (Scan ε Value)) : Scan ε Value := fun l =>
  match nested with
  | none => .error .recursion
  | some scan =>
    match skipWs l with
    | [] => .error .malformed
    | c :: r =>
      if c = ch '}' then leaving r (hooked (dec.objectPairs []))
      else
        match scanMembers scan (c :: r).length (c :: r) with
        | .error e => .error e
        | .ok (ps, r) => leaving r (hooked (dec.objectPairs ps))

/-- The words of the language, tried in the order of the scanner's cases. -/
def scanWord (l : Text) : Option (Except (LoadError ε) (Value × Text)) :=
  match afterLit (txt "null") l with
  | some r => some (.ok (.null, r))
  | none =>
  match afterLit (txt "true") l with
  | some r => some (.ok (.bool true, r))
  | none =>
  match afterLit (txt "false") l with
  | some r => some (.ok (.bool false, r))
  | none =>
  match afterLit (Constant.text .nan) l with
  | some r => some (leaving r (hooked (dec.parseConstant .nan)))
  | none =>
  match afterLit (Constant.text .infinity) l with
  | some r => some (leaving r (hooked (dec.parseConstant .infinity)))
  | none =>
  match afterLit (Constant.text .negInfinity) l with
  | some r => some (leaving r (hooked (dec.parseConstant .negInfinity)))
  | none => none

/-- `scan_once_unicode`. -/
def scanOnce (nested : Option (Scan ε Value)) : Scan ε Value
  | [] => .error .malformed
  | c :: l =>
    if c = ch '"' then
      match scanString l with
      | some (s, r) => .ok (.str s, r)
      | none => .error .malformed
    else if c = ch '{' then scanObject dec nested l
    else if c = ch '[' then scanArray nested l
    else
      match scanWord dec (c :: l) with
      | some res => res
      | none =>
        match scanNumber (c :: l) with
        | some (n, r) => leaving r (dec.number n)
        | none => .error .malformed

def scanValue : Nat → Scan ε Value
  | 0 => scanOnce dec none
  | d + 1 => scanOnce dec (some (scanValue d))

/-- `JSONDecoder.decode`: one value with blanks around it. -/
def scanDocument (depth : Nat) (l : Text) : Except (LoadError ε) Value :=
  match scanValue dec depth (skipWs l) with
  | .error e => .error e
  | .ok (v, r) => if skipWs r = [] then .ok v else .error .malformed

end

/-! ## From bytes -/

def hasBom (bom b : Bytes) : Bool := bom.isPrefixOf b

/-- `json.detect_encoding` and `bytes.decode(encoding, "surrogatepass")`. -/
def decodeBytes (b : Bytes) : Option Text :=
  if hasBom [0x00, 0x00, 0xFE, 0xFF] b || hasBom [0xFF, 0xFE, 0x00, 0x00] b then decodeUtf32Bom b
  else if hasBom [0xFE, 0xFF] b || hasBom [0xFF, 0xFE] b then decodeUtf16Bom b
  else if hasBom [0xEF, 0xBB, 0xBF] b then decodeUtf8 (b.drop 3)
  else
    match b with
    | [b0, b1] => if b0 = 0 then decodeUtf16 true b else if b1 = 0 then decodeUtf16 false b else decodeUtf8 b
    | b0 :: b1 :: b2 :: b3 :: _ =>
      if b0 = 0 then (if b1 = 0 then decodeUtf32 true b else decodeUtf16 true b)
      else if b1 = 0 then (if b2 = 0 ∧ b3 = 0 then decodeUtf32 false b else decodeUtf16 false b)
      else decodeUtf8 b
    | _ => decodeUtf8 b

/-- `json.loads(b, object_pairs_hook=.., parse_constant=..)`. -/
def loads (dec : Decoder ε) (depth : Nat) (b : Bytes) : Except (LoadError ε) Value :=
  match decodeBytes b with
  | none => .error .malformed
  | some l => scanDocument dec depth l

end Json
