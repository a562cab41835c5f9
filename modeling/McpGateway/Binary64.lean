import Mathlib

/-!
# Double precision numbers

`ofRat` is the correctly rounded double of a nonnegative rational (ties to
even), `shortest` the shortest decimal that rounds back to a given double.
Rounding a double's own value returns it, so reading back the shortest decimal
does too.
-/

namespace Binary64

/-- A finite nonnegative double `m * 2 ^ e` in canonical form. -/
structure Magnitude where
  m : Nat
  e : Int
  m_lt : m < 2 ^ 53
  e_ge : -1074 ≤ e
  e_le : e ≤ 971
  normal : e = -1074 ∨ 2 ^ 52 ≤ m
  deriving DecidableEq

def Magnitude.value (x : Magnitude) : ℚ := x.m * 2 ^ x.e

def Magnitude.mk? (m : Nat) (e : Int) : Option Magnitude :=
  if h : m < 2 ^ 53 ∧ -1074 ≤ e ∧ e ≤ 971 ∧ (e = -1074 ∨ 2 ^ 52 ≤ m) then
    some ⟨m, e, h.1, h.2.1, h.2.2.1, h.2.2.2⟩
  else none

theorem Magnitude.mk?_self (x : Magnitude) : Magnitude.mk? x.m x.e = some x := by
  exact dif_pos ⟨x.m_lt, x.e_ge, x.e_le, x.normal⟩

theorem Magnitude.mk?_eq_none {m : Nat} {e : Int} (hm : m < 2 ^ 53) (hn : -1074 ≤ e ∧ (e = -1074 ∨ 2 ^ 52 ≤ m)) :
    Magnitude.mk? m e = none ↔ 971 < e := by
  unfold Magnitude.mk?
  split
  · rename_i h; simp [h.2.2.1]
  · rename_i h
    simp only [true_iff]
    by_contra he
    exact h ⟨hm, hn.1, by omega, hn.2⟩

/-! ## Rounding -/

def roundHalfEven (q : ℚ) : Nat :=
  let f := ⌊q⌋₊
  if q - f < 1 / 2 then f
  else if 1 / 2 < q - f then f + 1
  else if f % 2 = 0 then f else f + 1

theorem roundHalfEven_natCast (n : Nat) : roundHalfEven n = n := by
  simp [roundHalfEven]

/-- The exponent that leaves 53 bits of `q`, or the least one. -/
def expOf (q : ℚ) : Int := if q = 0 then -1074 else max (-1074) (Int.log 2 q - 52)

/-- The double next to `q`; `none` when it overflows. -/
def ofRat (q : ℚ) : Option Magnitude :=
  let m := roundHalfEven (q / 2 ^ expOf q)
  if m = 2 ^ 53 then Magnitude.mk? (2 ^ 52) (expOf q + 1) else Magnitude.mk? m (expOf q)

theorem expOf_value (x : Magnitude) : expOf x.value = x.e := by
  unfold expOf
  by_cases hm : x.m = 0
  · have he : x.e = -1074 := by
      rcases x.normal with h | h
      · exact h
      · omega
    simp [Magnitude.value, hm, he]
  · have hpos : 0 < x.value := by
      have : 0 < x.m := Nat.pos_of_ne_zero hm
      unfold Magnitude.value; positivity
    have hup : Int.log 2 x.value < x.e + 53 := by
      rw [← Int.lt_zpow_iff_log_lt (by decide) hpos]
      have h53 : (x.m : ℚ) < 2 ^ 53 := by exact_mod_cast x.m_lt
      calc x.value < 2 ^ 53 * 2 ^ x.e := mul_lt_mul_of_pos_right h53 (by positivity)
        _ = ((2 : ℕ) : ℚ) ^ (x.e + 53) := by
          rw [zpow_add₀ (by norm_num)]; push_cast; rw [mul_comm]; norm_cast
    rw [if_neg (ne_of_gt hpos)]
    rcases x.normal with h | h
    · rw [h] at hup ⊢; omega
    · have hlo : x.e + 52 ≤ Int.log 2 x.value := by
        rw [← Int.zpow_le_iff_le_log (by decide) hpos]
        have h52 : (2 : ℚ) ^ 52 ≤ x.m := by exact_mod_cast h
        calc ((2 : ℕ) : ℚ) ^ (x.e + 52) = 2 ^ 52 * 2 ^ x.e := by
              rw [zpow_add₀ (by norm_num)]; push_cast; rw [mul_comm]; norm_cast
          _ ≤ x.value := mul_le_mul_of_nonneg_right h52 (by positivity)
      have := x.e_ge
      omega

theorem ofRat_value (x : Magnitude) : ofRat x.value = some x := by
  have hq : x.value / 2 ^ x.e = (x.m : ℚ) := by
    unfold Magnitude.value; exact mul_div_cancel_right₀ _ (by positivity)
  have hne : x.m ≠ 2 ^ 53 := Nat.ne_of_lt x.m_lt
  simp only [ofRat, expOf_value, hq, roundHalfEven_natCast, hne, if_false, Magnitude.mk?_self]

/-! ## Overflow -/

theorem roundHalfEven_ge {q : ℚ} {n : Nat} (h : (n : ℚ) ≤ q) : n ≤ roundHalfEven q := by
  have hf : n ≤ ⌊q⌋₊ := Nat.le_floor h
  unfold roundHalfEven; dsimp only
  split_ifs <;> omega

theorem roundHalfEven_le {q : ℚ} {n : Nat} (h : q < n + 1) (h0 : 0 ≤ q) : roundHalfEven q ≤ n + 1 := by
  have hf : ⌊q⌋₊ < n + 1 := (Nat.floor_lt h0).mpr (by exact_mod_cast h)
  unfold roundHalfEven; dsimp only
  split_ifs <;> omega

/-- Below an even integer the rounding reaches it from the midpoint on. -/
theorem roundHalfEven_top {q : ℚ} {n : Nat} (hn : n % 2 = 1) (h : q < n + 1) (h0 : 0 ≤ q) :
    roundHalfEven q = n + 1 ↔ (n : ℚ) + 1 / 2 ≤ q := by
  have hf : ⌊q⌋₊ < n + 1 := (Nat.floor_lt h0).mpr (by exact_mod_cast h)
  have hle := Nat.floor_le h0
  have hlt := Nat.lt_floor_add_one q
  constructor
  · intro he
    have hfn : ⌊q⌋₊ = n := by
      unfold roundHalfEven at he; dsimp only at he
      split_ifs at he <;> omega
    unfold roundHalfEven at he
    rw [hfn] at he
    by_contra hc
    rw [if_pos (by linarith)] at he
    omega
  · intro hq
    have hfn : ⌊q⌋₊ = n := by
      have : n ≤ ⌊q⌋₊ := Nat.le_floor (by linarith)
      omega
    unfold roundHalfEven
    rw [hfn]; dsimp only
    rw [if_neg (by linarith)]
    split_ifs <;> omega

theorem expOf_scaled {q : ℚ} (h : 0 ≤ q) :
    0 ≤ q / 2 ^ expOf q ∧ q / 2 ^ expOf q < 2 ^ 53 ∧ -1074 ≤ expOf q ∧
      (expOf q = -1074 ∨ 2 ^ 52 ≤ q / 2 ^ expOf q) := by
  by_cases h0 : q = 0
  · simp [h0, expOf]
  have hpos : 0 < q := lt_of_le_of_ne h (Ne.symm h0)
  have hx : expOf q = max (-1074) (Int.log 2 q - 52) := by simp [expOf, h0]
  have hlt := Int.lt_zpow_succ_log_self (b := 2) (by decide) q
  have hle := Int.zpow_log_le_self (b := 2) (by decide) hpos
  push_cast at hlt hle
  refine ⟨by positivity, ?_, by omega, ?_⟩
  · rw [div_lt_iff₀ (by positivity)]
    calc q < 2 ^ (Int.log 2 q + 1) := hlt
      _ ≤ 2 ^ (53 + expOf q) := zpow_le_zpow_right₀ (by norm_num) (by omega)
      _ = 2 ^ 53 * 2 ^ expOf q := by rw [zpow_add₀ (by norm_num)]; norm_cast
  · by_cases he : Int.log 2 q - 52 ≤ -1074
    · left; omega
    · right
      rw [le_div_iff₀ (by positivity)]
      calc (2 : ℚ) ^ 52 * 2 ^ expOf q = 2 ^ (52 + expOf q) := by rw [zpow_add₀ (by norm_num)]; norm_cast
        _ = 2 ^ Int.log 2 q := by congr 1; omega
        _ ≤ q := hle

/-- Half a unit above the largest double, `2 ^ 1024 - 2 ^ 970`. -/
def overflowAt : ℚ := (2 ^ 54 - 1) * 2 ^ (970 : ℤ)

theorem two_zpow_succ (n : ℤ) : (2 : ℚ) ^ (n + 1) = 2 * 2 ^ n := by
  rw [zpow_add_one₀ (by norm_num), mul_comm]

/-- A rational overflows from half a unit above the largest double on. -/
theorem ofRat_eq_none {q : ℚ} (h : 0 ≤ q) : ofRat q = none ↔ overflowAt ≤ q := by
  obtain ⟨h0, hlt, hge, hn⟩ := expOf_scaled h
  have hp : (0 : ℚ) < 2 ^ expOf q := by positivity
  have hq : q = q / 2 ^ expOf q * 2 ^ expOf q := by field_simp
  have hle : roundHalfEven (q / 2 ^ expOf q) ≤ 2 ^ 53 :=
    roundHalfEven_le (n := 2 ^ 53 - 1) (by push_cast; linarith) h0
  have htop := roundHalfEven_top (q := q / 2 ^ expOf q) (n := 2 ^ 53 - 1) (by decide) (by push_cast; linarith) h0
  have hsum : 2 ^ 53 - 1 + 1 = 2 ^ 53 := by norm_num
  rw [hsum] at htop
  have hpos : (0 : ℚ) < 2 ^ (970 : ℤ) := by positivity
  have p971 : (2 : ℚ) ^ (971 : ℤ) = 2 * 2 ^ (970 : ℤ) := two_zpow_succ 970
  have p972 : (2 : ℚ) ^ (972 : ℤ) = 4 * 2 ^ (970 : ℤ) := by
    rw [show (972 : ℤ) = 971 + 1 by norm_num, two_zpow_succ, p971]; ring
  have hov : overflowAt = (2 ^ 54 - 1) * 2 ^ (970 : ℤ) := rfl
  generalize hB : (2 : ℚ) ^ (970 : ℤ) = B at *
  unfold ofRat; dsimp only
  -- the exponent decides, except in the last binade
  rcases lt_trichotomy (expOf q) 971 with he | he | he
  · have hsmall : q < overflowAt := by
      calc q < 2 ^ 53 * 2 ^ expOf q := by rw [hq]; field_simp; rw [div_lt_iff₀ hp] at hlt; linarith
        _ ≤ 2 ^ 53 * B := by
          rw [← hB]
          refine mul_le_mul_of_nonneg_left (zpow_le_zpow_right₀ (by norm_num) (by omega)) (by positivity)
        _ ≤ overflowAt := by rw [hov]; linarith only [hpos]
    refine iff_of_false ?_ (not_le.mpr hsmall)
    split
    · rw [Magnitude.mk?_eq_none (by norm_num) (by omega)]; omega
    · rename_i hm
      rw [Magnitude.mk?_eq_none (by omega) ⟨hge, hn.imp_right fun h52 => roundHalfEven_ge (by exact_mod_cast h52)⟩]
      omega
  · have hmid : overflowAt ≤ q ↔ ((2 ^ 53 - 1 : Nat) : ℚ) + 1 / 2 ≤ q / 2 ^ expOf q := by
      rw [le_div_iff₀ hp, he, p971, hov]
      push_cast
      constructor <;> intro h' <;> linarith
    rw [hmid, ← htop]
    split
    · rename_i hm
      simp only [hm, iff_true]
      rw [Magnitude.mk?_eq_none (by norm_num) (by omega)]; omega
    · rename_i hm
      simp only [hm, iff_false]
      rw [Magnitude.mk?_eq_none (by omega) ⟨hge, hn.imp_right fun h52 => roundHalfEven_ge (by exact_mod_cast h52)⟩]
      omega
  · have hbig : overflowAt ≤ q := by
      have h52 : (2 : ℚ) ^ 52 ≤ q / 2 ^ expOf q := hn.resolve_left (by omega)
      calc overflowAt ≤ 2 ^ 52 * 2 ^ (972 : ℤ) := by rw [hov, p972]; linarith only [hpos]
        _ ≤ 2 ^ 52 * 2 ^ expOf q :=
          mul_le_mul_of_nonneg_left (zpow_le_zpow_right₀ (by norm_num) (by omega)) (by positivity)
        _ ≤ q := by rwa [le_div_iff₀ hp] at h52
    refine iff_of_true ?_ hbig
    split
    · rw [Magnitude.mk?_eq_none (by norm_num) (by omega)]; omega
    · rename_i hm
      rw [Magnitude.mk?_eq_none (by omega) ⟨hge, hn.imp_right fun h52 => roundHalfEven_ge (by exact_mod_cast h52)⟩]
      exact he

/-! ## Shortest decimals -/

structure Decimal where
  digits : Nat
  exp : Int
  deriving DecidableEq

def Decimal.value (d : Decimal) : ℚ := d.digits * 10 ^ d.exp

/-- The exponent of the last of `n` significant digits of `q`. -/
def lastPlace (q : ℚ) (n : Nat) : Int := Int.log 10 q - n + 1

def below (q : ℚ) (n : Nat) : Decimal := ⟨⌊q / 10 ^ lastPlace q n⌋₊, lastPlace q n⟩

/-- The `n`-digit decimal just above `q`; the carry past the first digit leaves a single one. -/
def above (q : ℚ) (n : Nat) : Decimal :=
  if (below q n).digits + 1 = 10 ^ n then ⟨1, lastPlace q n + n⟩ else ⟨(below q n).digits + 1, lastPlace q n⟩

def candidate (x : Magnitude) (n : Nat) : Option Decimal :=
  let lo := below x.value n
  let hi := above x.value n
  if ofRat lo.value = some x then
    if ofRat hi.value = some x then
      if hi.value - x.value < x.value - lo.value then some hi
      else if hi.value - x.value = x.value - lo.value ∧ lo.digits % 2 = 1 then some hi
      else some lo
    else some lo
  else if ofRat hi.value = some x then some hi
  else none

def exact (x : Magnitude) : Decimal :=
  if 0 ≤ x.e then ⟨x.m * 2 ^ x.e.toNat, 0⟩ else ⟨x.m * 5 ^ (-x.e).toNat, x.e⟩

/-- The shortest decimal that rounds to `x` (17 digits are enough). -/
def shortest (x : Magnitude) : Decimal :=
  ((List.range' 1 17).findSome? (candidate x)).getD (exact x)

theorem exact_value (x : Magnitude) : (exact x).value = x.value := by
  unfold exact Decimal.value Magnitude.value
  split
  · rename_i h
    obtain ⟨n, hn⟩ := Int.eq_ofNat_of_zero_le h
    simp [hn]
  · rename_i h
    obtain ⟨n, hn⟩ := Int.eq_ofNat_of_zero_le (show 0 ≤ -x.e by omega)
    have he : x.e = -(n : ℤ) := by omega
    have h10 : (10 : ℚ) ^ n = 5 ^ n * 2 ^ n := by rw [← mul_pow]; norm_num
    simp only [he, neg_neg, Int.toNat_natCast, zpow_neg, zpow_natCast, h10, Nat.cast_mul, Nat.cast_pow,
      Nat.cast_ofNat]
    field_simp

theorem candidate_rounds {x : Magnitude} {n : Nat} {d : Decimal} (h : candidate x n = some d) :
    ofRat d.value = some x := by
  unfold candidate at h
  dsimp only at h
  split_ifs at h with h1 h2 h3 h4 h5 <;> cases h <;> assumption

/-- Reading back the shortest decimal gives the double it was made from. -/
theorem ofRat_shortest (x : Magnitude) : ofRat (shortest x).value = some x := by
  unfold shortest
  cases h : (List.range' 1 17).findSome? (candidate x) with
  | none => rw [Option.getD_none, exact_value, ofRat_value]
  | some d =>
    obtain ⟨n, _, hn⟩ := List.exists_of_findSome?_eq_some h
    exact candidate_rounds hn

/-! ## Doubles -/

inductive Float64
  | nan
  | inf (neg : Bool)
  | finite (neg : Bool) (x : Magnitude)
  deriving DecidableEq

def Float64.isFinite : Float64 → Bool
  | .finite _ _ => true
  | _ => false

def Float64.ofRat (neg : Bool) (q : ℚ) : Float64 :=
  match Binary64.ofRat q with
  | some x => .finite neg x
  | none => .inf neg

def Float64.isNeg : Float64 → Bool
  | .nan => false
  | .inf neg => neg
  | .finite neg x => neg && x.m != 0

def Float64.isNonpos : Float64 → Bool
  | .nan => false
  | .inf neg => neg
  | .finite neg x => neg || x.m == 0

end Binary64
