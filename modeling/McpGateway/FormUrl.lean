import McpGateway.JsonGrammar

/-!
# URL-encoded forms

Printing a list of names and values as a query and reading a query back: split
at each `&`, cut at the first `=`, then decoded. Pieces without a character are
no parameters.
-/

namespace Form

open Unicode Json

/-! ## Printing -/

def alwaysSafe (n : Nat) : Bool :=
  (65 ≤ n ∧ n ≤ 90) || (97 ≤ n ∧ n ≤ 122) || (48 ≤ n ∧ n ≤ 57) || n = 95 || n = 46 || n = 45 || n = 126

theorem upperHex_lt {n : Nat} (h : n < 16) : (if n < 10 then 48 + n else 55 + n) < 0x110000 := by
  split <;> omega

def upperHex (n : Nat) : CodePoint := if h : n < 16 then ⟨if n < 10 then 48 + n else 55 + n, upperHex_lt h⟩ else
    ch '0'

theorem byte_lt (b : UInt8) : b.toNat < 0x110000 := Nat.lt_trans b.toNat_lt (by decide)

def byteChar (b : UInt8) : CodePoint := ⟨b.toNat, byte_lt b⟩

def quoteByte (b : UInt8) : Text :=
  if b.toNat = 0x20 then [ch '+']
  else if alwaysSafe b.toNat then [byteChar b]
  else [ch '%', upperHex (b.toNat / 16), upperHex (b.toNat % 16)]

/-- `quote_plus(s)`; `none` is `UnicodeEncodeError`. -/
def quotePlus (s : Text) : Option Text := (encodeUtf8 s).map fun bytes => bytes.flatMap quoteByte

def quotePair (p : Text × Text) : Option Text :=
  match quotePlus p.1, quotePlus p.2 with
  | some k, some v => some (k ++ ch '=' :: v)
  | _, _ => none

def urlencode (params : List (Text × Text)) : Option Text :=
  (params.mapM quotePair).map fun pairs => [ch '&'].intercalate pairs

/-! ## Reading -/

def escaped (c a b : CodePoint) : Option UInt8 :=
  if c = ch '%' then
    match hexVal? a, hexVal? b with
    | some x, some y => some (.ofNat (x * 16 + y))
    | _, _ => none
  else none

def unescaped (c : CodePoint) : Option Bytes := if c = ch '+' then some [0x20] else utf8Char c

def prepend (front rest : Option Bytes) : Option Bytes :=
  match front, rest with
  | some b, some bs => some (b ++ bs)
  | _, _ => none

/-- The bytes of a quoted string; `+` is a space, and a `%` without two digits is itself. -/
def percentDecode : Text → Option Bytes
  | [] => some []
  | [c] => unescaped c
  | [c, d] => prepend (unescaped c) (unescaped d)
  | c :: a :: b :: l =>
    match escaped c a b with
    | some x => prepend (some [x]) (percentDecode l)
    | none => prepend (unescaped c) (percentDecode (a :: b :: l))

def unquotePlus (s : Text) : Option Text := (percentDecode s).bind decodeStrict

def cut (piece : Text) : Text × Text :=
  (piece.takeWhile (fun c => c ≠ ch '='), (piece.dropWhile (fun c => c ≠ ch '=')).drop 1)

def readPair (piece : Text) : Option Text × Option Text := (unquotePlus (cut piece).1, unquotePlus (cut piece).2)

def parsePairs (query : Text) : List (Option Text × Option Text) :=
  ((query.splitOn (ch '&')).filter fun piece => !piece.isEmpty).map readPair

def queryOf (url : Text) : Text := (url.dropWhile (fun c => c ≠ ch '?')).drop 1

def parseQuery (url : Text) : List (Option Text × Option Text) := parsePairs (queryOf url)

def decoded (p : Text × Text) : Option Text × Option Text := (some p.1, some p.2)

/-! ## One byte -/

theorem hexVal?_upperHex {n : Nat} (h : n < 16) : hexVal? (upperHex n) = some n := by
  rw [upperHex, dif_pos h]
  unfold hexVal?
  by_cases hd : n < 10
  · have hrange : 48 ≤ 48 + n ∧ 48 + n ≤ 57 := by omega
    simp [hd, hrange]
  · have hlow : ¬ (48 ≤ 55 + n ∧ 55 + n ≤ 57) := by omega
    have hmid : ¬ (97 ≤ 55 + n ∧ 55 + n ≤ 102) := by omega
    have hrange : 65 ≤ 55 + n ∧ 55 + n ≤ 70 := by omega
    simp only [if_neg hd, if_neg hlow, if_neg hmid, if_pos hrange]
    congr 1
    omega

theorem percentDecode_unescaped {c : CodePoint} (hc : c ≠ ch '%') (l : Text) :
    percentDecode (c :: l) = prepend (unescaped c) (percentDecode l) := by
  match l with
  | [] =>
    rw [percentDecode, percentDecode]
    cases unescaped c <;> simp [prepend]
  | [d] => rfl
  | a :: b :: l => simp only [percentDecode, escaped, if_neg hc]

theorem percentDecode_escaped {n m : Nat} (hn : n < 16) (hm : m < 16) (l : Text) :
    percentDecode (ch '%' :: upperHex n :: upperHex m :: l) = prepend (some [.ofNat (n * 16 + m)])
    (percentDecode l) := by
  simp only [percentDecode, escaped, if_true, hexVal?_upperHex hn, hexVal?_upperHex hm]

/-- A quoted byte is read back, whatever follows it. -/
theorem percentDecode_quoteByte (b : UInt8) (l : Text) :
    percentDecode (quoteByte b ++ l) = prepend (some [b]) (percentDecode l) := by
  have hb := b.toNat_lt
  unfold quoteByte
  by_cases hspace : b.toNat = 0x20
  · have hplus : unescaped (ch '+') = some [b] := by
      rw [unescaped, if_pos rfl]
      congr 2
      exact UInt8.toNat_inj.mp hspace.symm
    rw [if_pos hspace, List.singleton_append, percentDecode_unescaped (by decide), hplus]
  rw [if_neg hspace]
  by_cases hsafe : alwaysSafe b.toNat = true
  · have hrange : b.toNat ≠ 0x25 ∧ b.toNat ≠ 0x2B ∧ b.toNat < 0x80 := by
      simp only [alwaysSafe, Bool.or_eq_true, decide_eq_true_eq] at hsafe
      omega
    have hpercent : byteChar b ≠ ch '%' := fun he => hrange.1 (congrArg CodePoint.val he)
    have hplus : byteChar b ≠ ch '+' := fun he => hrange.2.1 (congrArg CodePoint.val he)
    have hascii : (byteChar b).val < 0x80 := hrange.2.2
    have hchar : unescaped (byteChar b) = some [b] := by
      rw [unescaped, if_neg hplus, utf8Char, if_pos hascii]
      simp [byteChar]
    rw [if_pos hsafe, List.singleton_append, percentDecode_unescaped hpercent, hchar]
  · have hhalves : b.toNat / 16 * 16 + b.toNat % 16 = b.toNat := by omega
    rw [if_neg hsafe, List.cons_append, List.cons_append, List.cons_append, List.nil_append,
      percentDecode_escaped (by omega) (by omega), hhalves, UInt8.ofNat_toNat]

theorem quoteByte_chars {b : UInt8} {c : CodePoint} (h : c ∈ quoteByte b) :
    c ≠ ch '&' ∧ c ≠ ch '=' := by
  have hb := b.toNat_lt
  have hhex : ∀ n < 16, (upperHex n).val ≠ 0x26 ∧ (upperHex n).val ≠ 0x3D := by decide
  have hval : c.val ≠ 0x26 ∧ c.val ≠ 0x3D := by
    unfold quoteByte at h
    by_cases hspace : b.toNat = 0x20
    · rw [if_pos hspace, List.mem_singleton] at h
      rw [h]
      decide
    rw [if_neg hspace] at h
    by_cases hsafe : alwaysSafe b.toNat = true
    · rw [if_pos hsafe, List.mem_singleton] at h
      rw [h]
      simp only [alwaysSafe, Bool.or_eq_true, decide_eq_true_eq] at hsafe
      simp only [byteChar]
      omega
    · rw [if_neg hsafe] at h
      simp only [List.mem_cons, List.not_mem_nil, or_false] at h
      obtain h | h | h := h
      · rw [h]
        decide
      · rw [h]
        exact hhex _ (by omega)
      · rw [h]
        exact hhex _ (by omega)
  exact ⟨fun he => hval.1 (congrArg CodePoint.val he), fun he => hval.2 (congrArg CodePoint.val he)⟩

/-! ## One parameter -/

theorem percentDecode_quoted (bytes : Bytes) : percentDecode (bytes.flatMap quoteByte) = some bytes := by
  induction bytes with
  | nil => rfl
  | cons b bytes ih =>
    rw [List.flatMap_cons, percentDecode_quoteByte, ih]
    rfl

/-- A quoted string is read back. -/
theorem unquotePlus_quotePlus {s t : Text} (h : quotePlus s = some t) : unquotePlus t = some s := by
  rw [quotePlus, Option.map_eq_some_iff] at h
  obtain ⟨bytes, hbytes, rfl⟩ := h
  rw [unquotePlus, percentDecode_quoted]
  exact decodeStrict_encodeUtf8 hbytes

theorem unquotePlus_cons {s t : Text} (h : quotePlus s = some t) {c : CodePoint} {b : Bytes} (hpercent : c ≠ ch '%')
    (hplus : c ≠ ch '+') (hc : utf8Char c = some b) : unquotePlus (c :: t) = some (c :: s) := by
  rw [quotePlus, Option.map_eq_some_iff] at h
  obtain ⟨bytes, hbytes, rfl⟩ := h
  rw [unquotePlus, percentDecode_unescaped hpercent, unescaped, if_neg hplus, hc, percentDecode_quoted]
  apply decodeStrict_encodeUtf8
  simp only [encodeUtf8, hc, hbytes]

theorem quotePlus_chars {s t : Text} (h : quotePlus s = some t) : ch '&' ∉ t ∧ ch '=' ∉ t := by
  rw [quotePlus, Option.map_eq_some_iff] at h
  obtain ⟨bytes, _, rfl⟩ := h
  constructor
  · intro hc
    obtain ⟨b, _, hb⟩ := List.mem_flatMap.mp hc
    exact (quoteByte_chars hb).1 rfl
  · intro hc
    obtain ⟨b, _, hb⟩ := List.mem_flatMap.mp hc
    exact (quoteByte_chars hb).2 rfl

theorem cut_append {k : Text} (h : ch '=' ∉ k) (v : Text) : cut (k ++ ch '=' :: v) = (k, v) := by
  have hk : ∀ c ∈ k, (decide (c ≠ ch '=')) = true := by
    intro c hc
    exact decide_eq_true fun he => h (he ▸ hc)
  rw [cut, List.takeWhile_append_of_pos hk, List.dropWhile_append_of_pos hk]
  simp

theorem quotePair_some {p : Text × Text} {piece : Text} :
    quotePair p = some piece ↔ ∃ k v, quotePlus p.1 = some k ∧ quotePlus p.2 = some v ∧
    piece = k ++ ch '=' :: v := by
  rw [quotePair]
  cases quotePlus p.1 <;> cases quotePlus p.2 <;> simp [eq_comm]

section
variable {p : Text × Text} {piece : Text} (h : quotePair p = some piece)
include h

theorem readPair_quotePair : readPair piece = decoded p := by
  obtain ⟨k, v, hk, hv, rfl⟩ := quotePair_some.mp h
  rw [readPair, cut_append (quotePlus_chars hk).2, unquotePlus_quotePlus hk, unquotePlus_quotePlus hv]
  rfl

theorem quotePair_piece : piece ≠ [] ∧ ch '&' ∉ piece := by
  obtain ⟨k, v, hk, hv, rfl⟩ := quotePair_some.mp h
  have hne : ch '&' ≠ ch '=' := by decide
  simp [(quotePlus_chars hk).1, (quotePlus_chars hv).1, hne]

end

/-! ## The list -/

/-- A list of pieces is taken apart at the separators. -/
theorem parsePairs_join {pieces : List Text} (hne : pieces ≠ []) (h : ∀ piece ∈ pieces, ch '&' ∉ piece) :
    parsePairs ([ch '&'].intercalate pieces) = (pieces.filter fun piece => !piece.isEmpty).map readPair := by
  rw [parsePairs, List.splitOn_intercalate (ch '&') h hne]

theorem parsePairs_append (front back : Text) :
    parsePairs (front ++ ch '&' :: back) = parsePairs front ++ parsePairs back := by
  rw [parsePairs, List.splitOn_append_cons_self, List.filter_append, List.map_append, parsePairs, parsePairs]

section
variable {params : List (Text × Text)} {pieces : List Text} (h : params.mapM quotePair = some pieces)
include h

theorem forall₂_quotePair : List.Forall₂ (fun p piece => quotePair p = some piece) params pieces := by
  induction params generalizing pieces with
  | nil =>
    cases h
    exact .nil
  | cons p params ih =>
    rw [List.mapM_cons] at h
    obtain ⟨piece, hp, h⟩ := Option.bind_eq_some_iff.mp h
    obtain ⟨rest, hrest, h⟩ := Option.bind_eq_some_iff.mp h
    cases h
    exact .cons hp (ih hrest)

theorem quoted_pieces : ∀ piece ∈ pieces, piece ≠ [] ∧ ch '&' ∉ piece := by
  have hpieces := forall₂_quotePair h
  clear h
  induction hpieces with
  | nil =>
    intro piece hpiece
    cases hpiece
  | cons hp _ ih => exact List.forall_mem_cons.mpr ⟨quotePair_piece hp, ih⟩

theorem readPair_pieces : pieces.map readPair = params.map decoded := by
  have hmap : List.Forall₂ (fun p piece => decoded p = readPair piece) params pieces :=
    (forall₂_quotePair h).imp fun _ _ hp => (readPair_quotePair hp).symm
  have heq := List.forall₂_map_right_iff.mpr (List.forall₂_map_left_iff.mpr hmap)
  rw [List.forall₂_eq_eq_eq] at heq
  exact heq.symm

end

/-- A query that was printed is read as its parameters. -/
theorem parsePairs_urlencode {params : List (Text × Text)} {query : Text} (h : urlencode params = some query) :
    parsePairs query = params.map decoded := by
  rw [urlencode, Option.map_eq_some_iff] at h
  obtain ⟨pieces, hpieces, rfl⟩ := h
  have hquoted := quoted_pieces hpieces
  by_cases hne : pieces = []
  · have hparams : params = [] := by
      have hlen := (forall₂_quotePair hpieces).length_eq
      rw [hne, List.length_nil] at hlen
      exact List.length_eq_zero_iff.mp hlen
    rw [hne, hparams]
    rfl
  · have hkeep : (pieces.filter fun piece => !piece.isEmpty) = pieces := by
      rw [List.filter_eq_self]
      intro piece hpiece
      simpa using (hquoted piece hpiece).1
    rw [parsePairs_join hne fun piece hpiece => (hquoted piece hpiece).2, hkeep, readPair_pieces hpieces]

/-! ## Behind a query -/

theorem queryOf_append {front : Text} (h : ch '?' ∉ front) (query : Text) :
    queryOf (front ++ ch '?' :: query) = query := by
  have hfront : ∀ c ∈ front, (decide (c ≠ ch '?')) = true := by
    intro c hc
    exact decide_eq_true fun he => h (he ▸ hc)
  rw [queryOf, List.dropWhile_append_of_pos hfront]
  simp

theorem queryOf_none {url : Text} (h : ch '?' ∉ url) : queryOf url = [] := by
  have hurl : ∀ c ∈ url, (decide (c ≠ ch '?')) = true := by
    intro c hc
    exact decide_eq_true fun he => h (he ▸ hc)
  rw [queryOf, List.dropWhile_eq_nil_iff.mpr hurl, List.drop_nil]

theorem last_separator {α : Type} {x : α} {l : List α} (h : x ∈ l) :
    ∃ front back, l = front ++ x :: back ∧ x ∉ back := by
  obtain ⟨back, front, hl, hback⟩ := List.eq_append_cons_of_mem (List.mem_reverse.mpr h)
  refine ⟨front.reverse, back.reverse, ?_, by simpa using hback⟩
  rw [← List.reverse_inj, hl]
  simp

theorem intercalate_front {α : Type} (sep front piece : List α) (pieces : List (List α)) :
    sep.intercalate ((front ++ piece) :: pieces) = front ++ sep.intercalate (piece :: pieces) := by
  cases pieces with
  | nil => simp
  | cons next pieces => simp [List.intercalate]

/-- A piece without a separator and the first one of a printed query are read as one. -/
theorem parsePairs_glued {front piece : Text} {pieces : List Text} (hfront : ch '&' ∉ front)
    (h : ∀ piece' ∈ piece :: pieces, piece' ≠ [] ∧ ch '&' ∉ piece') :
    parsePairs (front ++ ch '?' :: [ch '&'].intercalate (piece :: pieces)) =
      readPair (front ++ ch '?' :: piece) :: pieces.map readPair := by
  obtain ⟨hpiece, hpieces⟩ := List.forall_mem_cons.mp h
  have hne : ch '&' ≠ ch '?' := by decide
  have hsep : ∀ piece' ∈ (front ++ ch '?' :: piece) :: pieces, ch '&' ∉ piece' := by
    rw [List.forall_mem_cons]
    exact ⟨by simp [hfront, hne, hpiece.2], fun piece' hp => (hpieces piece' hp).2⟩
  have hkeep : (pieces.filter fun piece' => !piece'.isEmpty) = pieces := by
    rw [List.filter_eq_self]
    intro piece' hp
    simpa using (hpieces piece' hp).1
  have hjoin := intercalate_front [ch '&'] (front ++ [ch '?']) piece pieces
  simp only [List.append_assoc, List.singleton_append] at hjoin
  rw [← hjoin, parsePairs_join (List.cons_ne_nil _ _) hsep, List.filter_cons_of_pos (by simp), hkeep, List.map_cons]

theorem parsePairs_glued_ne {front : Text} (hfront : ch '&' ∉ front) {p : Text × Text}
    {params : List (Text × Text)} {query : Text} (h : urlencode (p :: params) = some query) :
    parsePairs (front ++ ch '?' :: query) ≠ parsePairs front ++ (p :: params).map decoded := by
  rw [urlencode, Option.map_eq_some_iff] at h
  obtain ⟨pieces, hpieces, rfl⟩ := h
  have hquoted := quoted_pieces hpieces
  rw [← readPair_pieces hpieces]
  cases forall₂_quotePair hpieces with
  | cons hp _ =>
    rename_i piece pieces
    rw [parsePairs_glued hfront hquoted, List.map_cons]
    intro heq
    by_cases hnil : front = []
    · have hempty : parsePairs [] = [] := rfl
      rw [hnil, hempty, List.nil_append, List.nil_append, List.cons.injEq, readPair_quotePair hp] at heq
      obtain ⟨k, v, hk, _, rfl⟩ := quotePair_some.mp hp
      have hne : ch '=' ≠ ch '?' := by decide
      have hcut := cut_append (show ch '=' ∉ ch '?' :: k by simp [hne, (quotePlus_chars hk).2]) v
      have hkey : unquotePlus (ch '?' :: k) = some p.1 := by
        have hfirst := congrArg Prod.fst heq.1
        rw [readPair, ← List.cons_append, hcut] at hfirst
        exact hfirst
      rw [unquotePlus_cons hk (by decide) (by decide) rfl] at hkey
      exact List.cons_ne_self _ _ (Option.some.inj hkey)
    · have hone : parsePairs front = [readPair front] := by
        have hjoin := parsePairs_join (List.cons_ne_nil front []) (List.forall_mem_singleton.mpr hfront)
        simpa [hnil] using hjoin
      have hlength := congrArg List.length heq
      simp [hone] at hlength

theorem parsePairs_behind {front : Text} {p : Text × Text} {params : List (Text × Text)} {query : Text}
    (h : urlencode (p :: params) = some query) :
    parsePairs (front ++ ch '?' :: query) ≠ parsePairs front ++ (p :: params).map decoded := by
  by_cases hsep : ch '&' ∈ front
  · obtain ⟨before, piece, rfl, hpiece⟩ := last_separator hsep
    rw [List.append_assoc, List.cons_append, parsePairs_append, parsePairs_append, List.append_assoc]
    intro heq
    exact parsePairs_glued_ne hpiece h (List.append_cancel_left heq)
  · exact parsePairs_glued_ne hsep h

/-- Printed parameters appended with a question mark are read exactly behind a URL that has none. -/
theorem parseQuery_appended {url : Text} {p : Text × Text} {params : List (Text × Text)} {query : Text}
    (h : urlencode (p :: params) = some query) :
    parseQuery (url ++ ch '?' :: query) = parseQuery url ++ (p :: params).map decoded ↔ ch '?' ∉ url := by
  by_cases hmark : ch '?' ∈ url
  · obtain ⟨front, own, rfl, hfront⟩ := List.eq_append_cons_of_mem hmark
    rw [parseQuery, parseQuery, List.append_assoc, List.cons_append, queryOf_append hfront, queryOf_append hfront]
    exact iff_of_false (parsePairs_behind h) (fun hnot => hnot hmark)
  · rw [parseQuery, parseQuery, queryOf_append hmark, queryOf_none hmark, parsePairs_urlencode h]
    exact iff_of_true rfl hmark

example : parseQuery (txt "/a?x=1&y=%C3%A9+z") =
  [decoded (txt "x", txt "1"), decoded (txt "y", txt "é z")] := by decide +kernel

end Form
