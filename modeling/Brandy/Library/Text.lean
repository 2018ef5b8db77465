import Mathlib.Tactic

/-!
# Strings and Text Buffers

C strings as lists of bytes. A buffer is a list, and a string in it is what comes before the first
NUL. A program scans such text up to a stop byte within a bound, prints a number or a field into it,
and reads a decimal number back. A write that would leave the buffer has no result.

## Main definitions

* `CString`, `cstr`, `ascii`: Strings, the string in a buffer and the bytes of a literal.
* `scan`, `patch`: Reading up to a stop byte, and writing into a buffer.
* `decimal`, `strtoul`: Printing a number, and reading it.

## Theorems

* `scan_append`: A scan stops at the first stop byte.
* `patch_append`: What a write in the middle of a buffer leaves.
* `strtoul_decimal`: Reading back a printed number.
-/

namespace Brandy.Text

open List

/-- A C string: the NUL that ends it is not part of it. -/
structure CString where
  bytes : List UInt8
  noNul : 0 ∉ bytes
  deriving DecidableEq

/-- The number of bytes before the first NUL, or to the end of the buffer. -/
def strlen : List UInt8 → Nat
  | [] => 0
  | b :: bs => if b = 0 then 0 else strlen bs + 1

/-- The bytes up to the first stop byte, the end of the buffer or the bound, whichever comes
    first. -/
def scan (stop : UInt8 → Bool) : Nat → List UInt8 → List UInt8
  | 0, _ => []
  | _ + 1, [] => []
  | n + 1, b :: bs => if stop b then [] else b :: scan stop n bs

/-- `bytes` written at `off`. There is no result when they do not fit. -/
def patch (buffer : List UInt8) (off : Nat) (bytes : List UInt8) : Option (List UInt8) :=
  if off + bytes.length ≤ buffer.length then
    some (buffer.take off ++ bytes ++ buffer.drop (off + bytes.length))
  else none

/-- The bytes, filled up with zeros to a length of `n`. -/
def padTo (n : Nat) (bytes : List UInt8) : List UInt8 :=
  bytes ++ replicate (n - bytes.length) 0

/-- The digit of a number below ten. -/
def digit (n : Nat) : UInt8 := UInt8.ofNat (48 + n)

/-- The digits of a number in front of `acc`, at most `fuel` of them. -/
def decimalAux : Nat → Nat → List UInt8 → List UInt8
  | 0, _, acc => acc
  | fuel + 1, n, acc =>
    if n < 10 then digit n :: acc else decimalAux fuel (n / 10) (digit (n % 10) :: acc)

/-- A number below 10^10 as `%d` prints it. -/
def decimal (n : Nat) : List UInt8 := decimalAux 10 n []

/-- An integer as `%d` prints it. -/
def formatInt (x : Int) : List UInt8 :=
  if x < 0 then 45 :: decimal x.natAbs else decimal x.toNat

/-- The loop of `strtoul` for base ten. -/
def strtoulAux : Nat → List UInt8 → Nat
  | acc, [] => acc
  | acc, c :: cs =>
    if 48 ≤ c ∧ c ≤ 57 then strtoulAux (acc * 10 + (c.toNat - 48)) cs else acc

/-- The decimal number at the front of a text. -/
def strtoul (text : List UInt8) : Nat := strtoulAux 0 text

/-- The bytes of a literal in ASCII. -/
def ascii (s : String) : List UInt8 := s.toList.map fun c => UInt8.ofNat c.toNat

/-- The string at the front of a buffer. -/
def cstr (buffer : List UInt8) : List UInt8 := buffer.takeWhile (· ≠ 0)

/-- The digit of a number below sixteen, in lower case. -/
def hexDigit (n : Nat) : UInt8 := UInt8.ofNat (if n < 10 then 48 + n else 87 + n)

/-- The last `width` digits of a number with base sixteen, as `%0<width>x` prints it. -/
def hex : Nat → Nat → List UInt8
  | 0, _ => []
  | width + 1, n => hex width (n / 16) ++ [hexDigit (n % 16)]

/-- The value of a digit with base sixteen, in either case. -/
def hexValue (c : UInt8) : Option Nat :=
  if 48 ≤ c ∧ c ≤ 57 then some (c.toNat - 48)
  else if 97 ≤ c ∧ c ≤ 102 then some (c.toNat - 87)
  else if 65 ≤ c ∧ c ≤ 70 then some (c.toNat - 55)
  else none

/-- The loop of `strtoul` for base sixteen. -/
def strtoulHexAux : Nat → List UInt8 → Nat × List UInt8
  | acc, [] => (acc, [])
  | acc, c :: cs =>
    match hexValue c with
    | some v => strtoulHexAux (acc * 16 + v) cs
    | none => (acc, c :: cs)

/-- The number with base sixteen at the front of a text, and the rest. A `0x` in front is skipped,
    whether or not a digit follows. -/
def strtoulHex : List UInt8 → Nat × List UInt8
  | 48 :: 120 :: cs => strtoulHexAux 0 cs
  | 48 :: 88 :: cs => strtoulHexAux 0 cs
  | cs => strtoulHexAux 0 cs

theorem strlen_append {s : List UInt8} (rest : List UInt8) (hs : 0 ∉ s) :
    strlen (s ++ 0 :: rest) = s.length := by
  induction s with
  | nil => simp [strlen]
  | cons b bs ih =>
    have hb : b ≠ 0 := fun h => hs (by simp [h])
    have hbs : 0 ∉ bs := fun h => hs (mem_cons_of_mem b h)
    simp [strlen, hb, ih hbs]

theorem scan_append (stop : UInt8 → Bool) (s rest : List UInt8) (c : UInt8) (n : Nat)
    (hs : ∀ b ∈ s, stop b = false) (hc : stop c = true) (hn : s.length < n) :
    scan stop n (s ++ c :: rest) = s := by
  induction s generalizing n with
  | nil =>
    obtain ⟨n, rfl⟩ : ∃ m, n = m + 1 := ⟨n - 1, by simp at hn; omega⟩
    simp [scan, hc]
  | cons b bs ih =>
    obtain ⟨n, rfl⟩ : ∃ m, n = m + 1 := ⟨n - 1, by simp at hn; omega⟩
    have hb : stop b = false := hs b (by simp)
    have hbs : scan stop n (bs ++ c :: rest) = bs :=
      ih n (fun x hx => hs x (by simp [hx])) (by simpa using hn)
    simp [scan, hb, hbs]

/-- A write in the middle replaces the bytes there. -/
theorem patch_append (front old back bytes : List UInt8) (h : old.length = bytes.length) :
    patch (front ++ old ++ back) front.length bytes = some (front ++ bytes ++ back) := by
  have hfit : front.length + bytes.length ≤ (front ++ old ++ back).length := by
    simp only [length_append]; omega
  have htake : (front ++ old ++ back).take front.length = front := by simp
  have hdrop : (front ++ old ++ back).drop (front.length + bytes.length) = back := by
    rw [← h, ← length_append, drop_left]
  rw [patch, if_pos hfit, htake, hdrop]

theorem length_patch {buffer bytes result : List UInt8} {off : Nat}
    (h : patch buffer off bytes = some result) : result.length = buffer.length := by
  unfold patch at h
  split at h
  · cases h
    simp only [length_append, length_take, length_drop]
    omega
  · cases h

theorem length_padTo (n : Nat) (bytes : List UInt8) (h : bytes.length ≤ n) :
    (padTo n bytes).length = n := by
  simp only [padTo, length_append, length_replicate]
  omega

theorem take_padTo_append (n k : Nat) (front back : List UInt8) (h : front.length ≤ k) :
    ∃ junk, (padTo n (front ++ back)).take k = front ++ junk :=
  ⟨_, by rw [padTo, append_assoc, take_append, take_of_length_le h]⟩

theorem digit_range {n : Nat} (h : n < 10) : 48 ≤ digit n ∧ digit n ≤ 57 := by
  have all : ∀ d : Fin 10, 48 ≤ digit d ∧ digit d ≤ 57 := by decide
  exact all ⟨n, h⟩

theorem digit_toNat (n : Nat) (h : n < 10) : (digit n).toNat - 48 = n := by
  have all : ∀ d : Fin 10, (digit d).toNat - 48 = d := by decide
  exact all ⟨n, h⟩

theorem strtoulAux_digit (acc n : Nat) (h : n < 10) (rest : List UInt8) :
    strtoulAux acc (digit n :: rest) = strtoulAux (acc * 10 + n) rest := by
  rw [strtoulAux, if_pos (digit_range h), digit_toNat n h]

variable (fuel n : Nat) (acc : List UInt8)

theorem strtoulAux_decimalAux (hf : 0 < fuel)
    (hn : n < 10 ^ fuel) : strtoulAux 0 (decimalAux fuel n acc) = strtoulAux n acc := by
  induction fuel generalizing n acc with
  | zero => omega
  | succ fuel ih =>
    unfold decimalAux
    split
    case isTrue h => rw [strtoulAux_digit 0 n h, Nat.zero_mul, Nat.zero_add]
    case isFalse h =>
      -- one digit fewer is left, so there is fuel for it
      have hq : n / 10 < 10 ^ fuel := by
        rw [Nat.div_lt_iff_lt_mul (by omega)]
        rwa [Nat.pow_succ] at hn
      have hf' : 0 < fuel := by
        rcases Nat.eq_zero_or_pos fuel with h0 | h0
        · subst h0; simp at hn; omega
        · exact h0
      rw [ih (n / 10) _ hf' hq, strtoulAux_digit _ _ (Nat.mod_lt n (by omega))]
      congr 1
      omega

theorem strtoul_decimal {n : Nat} (h : n < 10 ^ 10) : strtoul (decimal n) = n := by
  rw [strtoul, decimal, strtoulAux_decimalAux 10 n [] (by omega) h, strtoulAux]

theorem mem_decimalAux (b : UInt8)
    (hb : b ∈ decimalAux fuel n acc) : b ∈ acc ∨ (48 ≤ b ∧ b ≤ 57) := by
  induction fuel generalizing n acc with
  | zero => exact .inl hb
  | succ fuel ih =>
    unfold decimalAux at hb
    split at hb
    case isTrue h =>
      rcases mem_cons.mp hb with rfl | hb
      · exact .inr (digit_range h)
      · exact .inl hb
    case isFalse =>
      rcases ih _ _ hb with hb | hb
      · rcases mem_cons.mp hb with rfl | hb
        · exact .inr (digit_range (Nat.mod_lt n (by omega)))
        · exact .inl hb
      · exact .inr hb

theorem mem_decimal {n : Nat} {b : UInt8} (hb : b ∈ decimal n) : 48 ≤ b ∧ b ≤ 57 := by
  rcases mem_decimalAux 10 n [] b hb with h | h
  · cases h
  · exact h

theorem length_decimalAux :
    (decimalAux fuel n acc).length ≤ acc.length + fuel := by
  induction fuel generalizing n acc with
  | zero => simp [decimalAux]
  | succ fuel ih =>
    unfold decimalAux
    split
    · simp only [length_cons]; omega
    · have h := ih (n / 10) (digit (n % 10) :: acc)
      simp only [length_cons] at h
      omega

theorem length_decimal (n : Nat) : (decimal n).length ≤ 10 := by
  simpa [decimal] using length_decimalAux 10 n []

end Brandy.Text
