/-!
# Digits

Values and characters of decimal and hexadecimal digits, and the number that a list of digits
writes in a base.
-/

namespace RelSchema.Text

/-- The value of a hexadecimal digit of either case; a decimal digit is one of them. -/
def digitValue? (c : Char) : Option Nat :=
  if c.isDigit then some (c.toNat - '0'.toNat)
  else if 'a' ≤ c ∧ c ≤ 'f' then some (c.toNat - 'a'.toNat + 10)
  else if 'A' ≤ c ∧ c ≤ 'F' then some (c.toNat - 'A'.toNat + 10)
  else none

def isHexDigit (c : Char) : Bool := (digitValue? c).isSome

/-- The number that the digits write in the base, most significant first. -/
def ofDigits (base : Nat) (digits : List Char) : Nat :=
  digits.foldl (fun n c => n * base + (digitValue? c).getD 0) 0

/-- The lower-case hexadecimal digit of a value below 16. -/
def lowerHexDigit (n : Nat) : Char := Nat.digitChar n

/-- The upper-case hexadecimal digit of a value below 16. -/
def upperHexDigit (n : Nat) : Char := (Nat.digitChar n).toUpper

/-- A code written with exactly four digits. -/
def fourHexDigits (digit : Nat → Char) (code : Nat) : List Char :=
  [digit (code / 4096 % 16), digit (code / 256 % 16), digit (code / 16 % 16), digit (code % 16)]

/-! ## Hexadecimal digits read back -/

theorem digitValue?_lowerHexDigit : ∀ n < 16, digitValue? (lowerHexDigit n) = some n := by decide

theorem digitValue?_upperHexDigit : ∀ n < 16, digitValue? (upperHexDigit n) = some n := by decide

section FourDigits

variable {digit : Nat → Char} (h : ∀ n < 16, digitValue? (digit n) = some n)

include h

theorem all_isHexDigit_fourHexDigits (code : Nat) :
    (fourHexDigits digit code).all isHexDigit = true := by
  simp [fourHexDigits, isHexDigit, h, Nat.mod_lt]

theorem ofDigits_fourHexDigits {code : Nat} (hcode : code < 65536) :
    ofDigits 16 (fourHexDigits digit code) = code := by
  have hlt : ∀ n, n % 16 < 16 := fun n => Nat.mod_lt n (by decide)
  simp only [ofDigits, fourHexDigits, List.foldl_cons, List.foldl_nil, h _ (hlt _),
    Option.getD_some]
  omega

end FourDigits

/-! ## Decimal digits read back -/

theorem ofDigits_of_isDigit {digits : List Char} (h : ∀ c ∈ digits, c.isDigit = true) :
    ofDigits 10 digits = Nat.ofDigitChars 10 digits 0 := by
  have hfold : ∀ start : Nat,
      digits.foldl (fun n c => n * 10 + (digitValue? c).getD 0) start =
        Nat.ofDigitChars 10 digits start := by
    intro start
    induction digits generalizing start with
    | nil => rfl
    | cons c rest ih =>
      have hc : digitValue? c = some (c.toNat - '0'.toNat) := if_pos (h c List.mem_cons_self)
      rw [List.foldl_cons, hc, Option.getD_some, Nat.ofDigitChars_cons, Nat.mul_comm]
      exact ih (fun d hd => h d (List.mem_cons_of_mem _ hd)) _
  exact hfold 0

theorem isDigit_of_mem_toDigits {n : Nat} {c : Char} (h : c ∈ Nat.toDigits 10 n) :
    c.isDigit = true := Nat.isDigit_of_mem_toDigits (by decide) (by decide) h

theorem ofDigits_toDigits (n : Nat) : ofDigits 10 (Nat.toDigits 10 n) = n := by
  rw [ofDigits_of_isDigit fun _ => isDigit_of_mem_toDigits, Nat.ofDigitChars_ten_toDigits]

/-- A number is written without zeros in front, unless it is zero itself. -/
theorem head?_toDigits_ne {n : Nat} (h : 0 < n) : (Nat.toDigits 10 n).head? ≠ some '0' := by
  induction n using Nat.strongRecOn with
  | ind n ih =>
    rw [Nat.toDigits_eq_if (by decide)]
    split
    · rename_i hlt
      have hdigit : ∀ m < 10, 0 < m → Nat.digitChar m ≠ '0' := by decide
      rw [List.head?_cons]
      exact fun hzero => hdigit n hlt h (Option.some.inj hzero)
    · rename_i hle
      have hfirst := ih (n / 10) (by omega) (by omega)
      rw [List.head?_append]
      cases hhead : (Nat.toDigits 10 (n / 10)).head? with
      | none => exact absurd (List.head?_eq_none_iff.1 hhead) Nat.toDigits_ne_nil
      | some c =>
        rw [Option.some_or, ← hhead]
        exact hfirst

theorem isDigit_digitChar : ∀ n < 10, (Nat.digitChar n).isDigit = true := by decide

theorem ofDigits_digitChar : ∀ n < 10, ofDigits 10 [Nat.digitChar n] = n := by decide

end RelSchema.Text
