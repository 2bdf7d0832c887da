import Mathlib.Algebra.Group.Nat.Defs
import Mathlib.Tactic.Common
import Hplsp.Lib.Memcmp

/-! The texts that `printf` conversions make of integers, as bytes. -/

namespace Printf

variable {n k width size : Nat} {text : List UInt8}

/-- The code of an ASCII character. -/
def chr (c : Char) : UInt8 := UInt8.ofNat c.toNat

def ascii (s : String) : List UInt8 := s.toList.map chr

/-- `%u`. -/
def decimal (n : Nat) : List UInt8 := (Nat.toDigits 10 n).map chr

/-- `%d`. -/
def signed : Int → List UInt8
  | .ofNat n => decimal n
  | .negSucc n => chr '-' :: decimal (n + 1)

/-- The `0` flag with a field width. -/
def padded (width : Nat) (text : List UInt8) : List UInt8 :=
  List.replicate (width - text.length) (chr '0') ++ text

/-- `%#0<width>x`: the prefix stands before the zeros, and zero has none. -/
def hexPadded (width n : Nat) : List UInt8 :=
  if n = 0 then padded width [chr '0']
  else ascii "0x" ++ padded (width - 2) ((Nat.toDigits 16 n).map chr)

/-- What `snprintf` stores of a text in a buffer of the given size. -/
def stored (size : Nat) (text : List UInt8) : List UInt8 :=
  if size = 0 then [] else text.take (size - 1) ++ [0]

theorem length_decimal_le_iff (hk : 0 < k) : (decimal n).length ≤ k ↔ n < 10 ^ k := by
  rw [decimal, List.length_map]
  exact Nat.length_toDigits_le_iff (by decide) hk

theorem length_decimal_le (hk : 0 < k) (h : n < 10 ^ k) : (decimal n).length ≤ k :=
  (length_decimal_le_iff hk).mpr h

/-- A sign takes the place of a digit. -/
theorem length_signed_le_iff {z : Int} (hk : 0 < k) :
    (signed z).length ≤ k + 1 ↔ -((10 ^ k : Nat) : Int) < z ∧ z < (10 ^ (k + 1) : Nat) := by
  cases z with
  | ofNat n =>
    rw [signed, length_decimal_le_iff (Nat.succ_pos k), Int.ofNat_eq_natCast]
    have := Nat.pow_pos (n := k) (show 0 < 10 by decide)
    omega
  | negSucc n =>
    rw [signed, List.length_cons, Nat.succ_le_succ_iff, length_decimal_le_iff hk, Int.negSucc_eq]
    have := Nat.pow_pos (n := k + 1) (show 0 < 10 by decide)
    omega

/-- A sign and at most `k` digits. -/
theorem length_signed_le {z : Int} (hk : 0 < k) (h : z.natAbs < 10 ^ k) :
    (signed z).length ≤ k + 1 := by
  cases z with
  | ofNat n => exact Nat.le_succ_of_le (length_decimal_le hk h)
  | negSucc n => exact Nat.succ_le_succ (length_decimal_le hk h)

theorem length_padded (h : text.length ≤ width) : (padded width text).length = width := by
  rw [padded, List.length_append, List.length_replicate]
  omega

theorem length_hexPadded (h : n < 16 ^ k) (hk : 0 < k) (hwidth : k + 2 = width) :
    (hexPadded width n).length = width := by
  rw [hexPadded]
  split
  · exact length_padded (by simp; omega)
  · have hdigits : ((Nat.toDigits 16 n).map chr).length ≤ width - 2 := by
      rw [List.length_map]
      have := (Nat.length_toDigits_le_iff (by decide) hk).mpr h
      omega
    rw [List.length_append, length_padded hdigits, ascii]
    simp
    omega

/-- A text shorter than the buffer is stored whole, with its NUL. -/
theorem stored_eq (h : text.length < size) : stored size text = text ++ [0] := by
  rw [stored, if_neg (by omega), List.take_of_length_le (by omega)]

theorem length_stored_le : (stored size text).length ≤ size := by
  rw [stored]
  split
  · exact Nat.zero_le _
  · simp
    omega

section Parse

/-- The number that a text of digits denotes. -/
def ofDecimal (text : List UInt8) : Nat :=
  Nat.ofDigitChars 10 (text.map fun b => Char.ofNat b.toNat) 0

/-- The number that a text of digits denotes, with a sign in front of it or without. -/
def ofSigned : List UInt8 → Int
  | [] => 0
  | b :: text => if b = chr '-' then -ofDecimal text else ofDecimal (b :: text)

theorem toNat_chr_of_isDigit {c : Char} (hc : c.isDigit = true) :
    (chr c).toNat = c.toNat ∧ 48 ≤ c.toNat ∧ c.toNat ≤ 57 := by
  have hdigit : 48 ≤ c.toNat ∧ c.toNat ≤ 57 := by
    simpa [Char.isDigit, UInt32.le_iff_toNat_le] using hc
  refine ⟨?_, hdigit⟩
  rw [chr, UInt8.toNat_ofNat']
  omega

/-- Parsing a decimal text gives the number back. -/
theorem ofDecimal_decimal (n : Nat) : ofDecimal (decimal n) = n := by
  have hmap : (decimal n).map (fun b => Char.ofNat b.toNat) = Nat.toDigits 10 n := by
    rw [decimal, List.map_map]
    refine (List.map_congr_left fun c hc => ?_).trans (List.map_id _)
    have hdigit := Nat.isDigit_of_mem_toDigits (by decide) (by decide) hc
    rw [Function.comp_apply, (toNat_chr_of_isDigit hdigit).1, Char.ofNat_toNat, id]
  rw [ofDecimal, hmap, Nat.ofDigitChars_ten_toDigits]

theorem ofDecimal_padded : ofDecimal (padded width text) = ofDecimal text := by
  have hzero : Char.ofNat (chr '0').toNat = '0' := by decide
  rw [ofDecimal, padded, List.map_append, List.map_replicate, hzero, Nat.ofDigitChars_append,
    Nat.ofDigitChars_replicate_zero, Nat.mul_zero, ofDecimal]

theorem decimal_ne_minus {b : UInt8} (hb : b ∈ decimal n) : b ≠ chr '-' := by
  obtain ⟨c, hc, rfl⟩ := List.mem_map.mp hb
  obtain ⟨hnat, hge, -⟩ :=
    toNat_chr_of_isDigit (Nat.isDigit_of_mem_toDigits (by decide) (by decide) hc)
  intro heq
  have hminus : (chr '-').toNat = 45 := by decide
  rw [← heq] at hminus
  omega

/-- A sign tells a negative number from an unsigned one, whatever follows. -/
theorem decimal_append_ne_signed {z : Int} (hz : z < 0) (xs ys : List UInt8) :
    decimal n ++ xs ≠ signed z ++ ys := by
  cases z with
  | ofNat m => exact absurd hz (Int.not_lt.mpr (Int.natCast_nonneg m))
  | negSucc m =>
    intro heq
    cases htext : decimal n with
    | nil => simp [decimal] at htext
    | cons b text =>
      rw [htext, signed, List.cons_append, List.cons_append, List.cons.injEq] at heq
      exact decimal_ne_minus (n := n) (by simp [htext]) heq.1

theorem ofSigned_decimal (n : Nat) : ofSigned (decimal n) = n := by
  cases htext : decimal n with
  | nil => simp [decimal] at htext
  | cons b text =>
    have hb : b ≠ chr '-' := decimal_ne_minus (n := n) (by simp [htext])
    rw [ofSigned, if_neg hb, ← htext, ofDecimal_decimal]

theorem ofSigned_signed (z : Int) : ofSigned (signed z) = z := by
  cases z with
  | ofNat n => exact ofSigned_decimal n
  | negSucc n =>
    rw [signed, ofSigned, if_pos rfl, ofDecimal_decimal]
    rfl

end Parse

section Order

variable {m : Nat}

/-- Comparing numbers by quotient and remainder. -/
theorem compare_div_mod (k n m : Nat) :
    (compare (n / k) (m / k)).then (compare (n % k) (m % k)) = compare n m := by
  rcases Nat.lt_trichotomy (n / k) (m / k) with hlt | heq | hgt
  · have hnm : n < m := Nat.lt_of_div_lt_div hlt
    rw [Nat.compare_eq_lt.mpr hlt, Nat.compare_eq_lt.mpr hnm]
    rfl
  · have hn := Nat.div_add_mod n k
    have hm := Nat.div_add_mod m k
    rw [heq] at hn ⊢
    rw [Std.compare_self, Ordering.then]
    rcases Nat.lt_trichotomy (n % k) (m % k) with hlt | hmod | hgt
    · rw [Nat.compare_eq_lt.mpr hlt, Nat.compare_eq_lt.mpr (by omega)]
    · rw [hmod, Std.compare_self, Nat.compare_eq_eq.mpr (by omega)]
    · rw [Nat.compare_eq_gt.mpr hgt, Nat.compare_eq_gt.mpr (by omega)]
  · have hnm : m < n := Nat.lt_of_div_lt_div hgt
    rw [Nat.compare_eq_gt.mpr hgt, Nat.compare_eq_gt.mpr hnm]
    rfl

theorem compare_digit : ∀ n < 10, ∀ m < 10,
    compare [chr (Nat.digitChar n)] [chr (Nat.digitChar m)] = compare n m := by decide

/-- The last digit of a number of fixed width, and the digits in front of it. -/
theorem padded_succ (hwidth : 0 < width) : padded (width + 1) (decimal n) =
    padded width (decimal (n / 10)) ++ [chr (Nat.digitChar (n % 10))] := by
  by_cases h : n < 10
  · obtain ⟨k, rfl⟩ : ∃ k, width = k + 1 := ⟨width - 1, by omega⟩
    have hzero : decimal (n / 10) = [chr '0'] := by rw [Nat.div_eq_of_lt h]; decide
    have hdigit : decimal n = [chr (Nat.digitChar n)] := by
      rw [decimal, Nat.toDigits_of_lt_base h, List.map_singleton]
    rw [hzero, hdigit, Nat.mod_eq_of_lt h]
    simp [padded, ← List.replicate_succ']
  · have hlast : decimal n = decimal (n / 10) ++ [chr (Nat.digitChar (n % 10))] := by
      rw [decimal, Nat.toDigits_of_base_le (by decide) (by omega), List.map_append,
        List.map_singleton, decimal]
    rw [hlast, padded, padded, List.length_append, List.length_singleton, Nat.add_sub_add_right,
      List.append_assoc]

/-- Numbers of one width are compared as their texts are. -/
theorem compare_padded (hn : n < 10 ^ (width + 1)) (hm : m < 10 ^ (width + 1)) :
    compare (padded (width + 1) (decimal n)) (padded (width + 1) (decimal m)) = compare n m := by
  induction width generalizing n m with
  | zero =>
    have hdigit : ∀ k < 10, padded 1 (decimal k) = [chr (Nat.digitChar k)] := by decide
    rw [hdigit n hn, hdigit m hm]
    exact compare_digit n hn m hm
  | succ width ih =>
    have hn' : n / 10 < 10 ^ (width + 1) := Nat.div_lt_of_lt_mul (by rwa [Nat.pow_succ'] at hn)
    have hm' : m / 10 < 10 ^ (width + 1) := Nat.div_lt_of_lt_mul (by rwa [Nat.pow_succ'] at hm)
    have hlen : ∀ k < 10 ^ (width + 1), (padded (width + 1) (decimal k)).length = width + 1 :=
      fun k hk => length_padded (length_decimal_le (Nat.succ_pos _) hk)
    rw [padded_succ (Nat.succ_pos _), padded_succ (Nat.succ_pos _),
      Memcmp.compare_append ((hlen _ hn').trans (hlen _ hm').symm), ih hn' hm',
      compare_digit _ (Nat.mod_lt _ (by decide)) _ (Nat.mod_lt _ (by decide)), compare_div_mod]

end Order

section Nul

/-- A text without a NUL in it. -/
def NoNul (text : List UInt8) : Prop := (0 : UInt8) ∉ text

instance (text : List UInt8) : Decidable (NoNul text) :=
  inferInstanceAs (Decidable ((0 : UInt8) ∉ text))

theorem noNul_append {xs ys : List UInt8} : NoNul (xs ++ ys) ↔ NoNul xs ∧ NoNul ys := by
  simp [NoNul, not_or]

theorem chr_digitChar_ne_zero (d : Nat) : chr (Nat.digitChar d) ≠ 0 := by
  by_cases h : d < 16
  · revert d
    decide
  · rw [Nat.digitChar]
    repeat rw [if_neg (by omega)]
    decide

theorem noNul_toDigits {b : Nat} (hb : 1 < b) (n : Nat) : NoNul ((Nat.toDigits b n).map chr) := by
  induction n using Nat.strongRecOn with
  | ind n ih =>
    rw [Nat.toDigits_eq_if hb]
    split
    · simpa [NoNul] using Ne.symm (chr_digitChar_ne_zero n)
    · rename_i hn
      rw [List.map_append, noNul_append]
      refine ⟨ih (n / b) (Nat.div_lt_self (by omega) hb), ?_⟩
      simpa [NoNul] using Ne.symm (chr_digitChar_ne_zero (n % b))

theorem noNul_decimal (n : Nat) : NoNul (decimal n) := noNul_toDigits (by decide) n

theorem noNul_signed (z : Int) : NoNul (signed z) := by
  cases z with
  | ofNat n => exact noNul_decimal n
  | negSucc n => exact noNul_append.mpr ⟨show NoNul [chr '-'] by decide, noNul_decimal (n + 1)⟩

theorem noNul_padded (h : NoNul text) : NoNul (padded width text) := by
  refine noNul_append.mpr ⟨fun hmem => ?_, h⟩
  exact absurd (List.eq_of_mem_replicate hmem) (by decide)

theorem noNul_hexPadded (width n : Nat) : NoNul (hexPadded width n) := by
  rw [hexPadded]
  split
  · exact noNul_padded (by decide)
  · exact noNul_append.mpr ⟨by decide, noNul_padded (noNul_toDigits (by decide) n)⟩

/-- Printing a string stops at its NUL. -/
theorem takeWhile_nul {text : List UInt8} (h : NoNul text) (rest : List UInt8) :
    (text ++ 0 :: rest).takeWhile (· ≠ 0) = text := by
  have hne : ∀ b ∈ text, decide (b ≠ 0) = true := by
    intro b hb
    refine decide_eq_true fun heq => h ?_
    rwa [← heq]
  rw [List.takeWhile_append_of_pos hne]
  simp

theorem noNul_takeWhile (text : List UInt8) : NoNul (text.takeWhile (· ≠ 0)) := by
  intro hmem
  have hall := List.all_eq_true.mp (List.all_takeWhile (l := text) (p := fun b => b ≠ 0)) 0 hmem
  simp at hall

end Nul

end Printf
