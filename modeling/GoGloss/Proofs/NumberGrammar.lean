import Mathlib
import GoGloss.Proofs.Locality

/-!
# The grammar of numbers

The numbers of the language are given by a grammar, here written down as languages
over characters, one for each of its rules:

    decimal_digits    = decimal_digit { [ "_" ] decimal_digit } .
    int_lit           = decimal_lit | binary_lit | octal_lit | hex_lit .
    decimal_lit       = "0" | ( "1" … "9" ) [ [ "_" ] decimal_digits ] .
    binary_lit        = "0" ( "b" | "B" ) [ "_" ] binary_digits .
    octal_lit         = "0" [ "o" | "O" ] [ "_" ] octal_digits .
    hex_lit           = "0" ( "x" | "X" ) [ "_" ] hex_digits .
    float_lit         = decimal_float_lit | hex_float_lit .
    decimal_float_lit = decimal_digits "." [ decimal_digits ] [ decimal_exponent ] |
                        decimal_digits decimal_exponent |
                        "." decimal_digits [ decimal_exponent ] .
    decimal_exponent  = ( "e" | "E" ) [ "+" | "-" ] decimal_digits .
    hex_float_lit     = "0" ( "x" | "X" ) hex_mantissa hex_exponent .
    hex_mantissa      = [ "_" ] hex_digits "." [ hex_digits ] |
                        [ "_" ] hex_digits |
                        "." hex_digits .
    hex_exponent      = ( "p" | "P" ) [ "+" | "-" ] decimal_digits .

`classify` does not follow these rules. It looks at the underscores first, all over
the text, then takes runs in which underscores count as digits, and at the end sees
to leading zeros. The main statement is that it comes to the same for every text.
-/

namespace GoGloss.Number

open Character
open scoped Computability

/-! ## The rules -/

/-- The texts of one character, from a class of them. -/
def one (p : Char → Bool) : Language Char :=
  {w | ∃ c, w = [c] ∧ p c = true}

/-- One character or another. -/
def either (c d : Char) : Language Char :=
  one fun e => e == c || e == d

def optional (l : Language Char) : Language Char :=
  1 + l

def underscore : Language Char := one (· == '_')
def point : Language Char := one (· == '.')
def zero : Language Char := one (· == '0')

/-- Digits that follow a digit, with single underscores in front of some of them. -/
def moreDigits (digit : Char → Bool) : Language Char :=
  (optional underscore * one digit)∗

/-- Digits with single underscores between some of them. -/
def digits (digit : Char → Bool) : Language Char :=
  one digit * moreDigits digit

def isBinary (c : Char) : Bool :=
  c == '0' || c == '1'

def decimalDigits : Language Char := digits Char.isDigit

def decimalLit : Language Char :=
  zero + one (fun c => c.isDigit && c != '0') * optional (optional underscore * decimalDigits)

def binaryLit : Language Char :=
  zero * (either 'b' 'B' * (optional underscore * digits isBinary))

def octalLit : Language Char :=
  zero * (optional (either 'o' 'O') * (optional underscore * digits isOctal))

def hexLit : Language Char :=
  zero * (either 'x' 'X' * (optional underscore * digits isHex))

/-- The integers of the language. -/
def intLit : Language Char :=
  decimalLit + binaryLit + octalLit + hexLit

/-- A sign or none, and the digits of an exponent. -/
def exponentDigits : Language Char :=
  optional (either '+' '-') * decimalDigits

def decimalExponent : Language Char := either 'e' 'E' * exponentDigits
def hexExponent : Language Char := either 'p' 'P' * exponentDigits

def decimalFloatLit : Language Char :=
  decimalDigits * (point * (optional decimalDigits * optional decimalExponent)) +
    decimalDigits * decimalExponent +
    point * (decimalDigits * optional decimalExponent)

def hexMantissa : Language Char :=
  optional underscore * (digits isHex * (point * optional (digits isHex))) +
    optional underscore * digits isHex +
    point * digits isHex

def hexFloatLit : Language Char :=
  zero * (either 'x' 'X' * (hexMantissa * hexExponent))

/-- The floats of the language. -/
def floatLit : Language Char :=
  decimalFloatLit + hexFloatLit

/-! ## Small texts -/

section

variable {p q : Char → Bool} {l : Language Char} {c : Char} {w : List Char}

@[simp] theorem cons_mem_one_mul : c :: w ∈ one p * l ↔ p c = true ∧ w ∈ l := by
  rw [Language.mem_mul]
  constructor
  · rintro ⟨_, ⟨d, rfl, hd⟩, v, hv, heq⟩
    obtain ⟨rfl, rfl⟩ := List.cons.inj heq
    exact ⟨hd, hv⟩
  · rintro ⟨hc, hw⟩
    exact ⟨[c], ⟨c, rfl, hc⟩, w, hw, rfl⟩

@[simp] theorem nil_notMem_one_mul : [] ∉ one p * l := by
  rw [Language.mem_mul]
  rintro ⟨_, ⟨d, rfl, -⟩, v, -, heq⟩
  simp at heq

@[simp] theorem cons_mem_one : c :: w ∈ one p ↔ p c = true ∧ w = [] := by
  rw [← mul_one (one p), cons_mem_one_mul, Language.mem_one]

@[simp] theorem nil_notMem_one : [] ∉ one p := by
  rw [← mul_one (one p)]
  exact nil_notMem_one_mul

@[simp] theorem mem_optional : w ∈ optional l ↔ w = [] ∨ w ∈ l :=
  Iff.rfl

theorem optional_mul (m : Language Char) : optional l * m = m + l * m := by
  rw [optional, add_mul, one_mul]

theorem mem_optional_one_mul_cons :
    c :: w ∈ optional (one p) * l ↔ c :: w ∈ l ∨ p c = true ∧ w ∈ l := by
  rw [optional_mul, Language.mem_add, cons_mem_one_mul]

end

/-! ## Digits -/

section

variable {digit digit' : Char → Bool} {c : Char} {w u rest : List Char} {a : Bool}

@[simp] theorem cons_mem_digits : c :: w ∈ digits digit ↔ digit c = true ∧ w ∈ moreDigits digit :=
  cons_mem_one_mul

@[simp] theorem nil_notMem_digits : [] ∉ digits digit :=
  nil_notMem_one_mul

/-- After a digit there is nothing more, or there are digits, maybe behind an underscore. -/
theorem moreDigits_eq : moreDigits digit = optional (optional underscore * digits digit) := by
  rw [digits, optional, ← mul_assoc, moreDigits, Language.one_add_self_mul_kstar_eq_kstar]

theorem cons_mem_moreDigits :
    c :: w ∈ moreDigits digit ↔ c :: w ∈ digits digit ∨ c = '_' ∧ w ∈ digits digit := by
  rw [moreDigits_eq, mem_optional, underscore, mem_optional_one_mul_cons]
  simp

theorem separated_cons (hc : c ≠ '_') :
    separated digit a (c :: w) = separated digit (digit c) w := by
  rw [separated, if_neg hc]

theorem separated_underscore :
    separated digit a ('_' :: w) = (a && w.head?.any digit && separated digit false w) := by
  rw [separated, if_pos rfl]

/-- Where underscores stand depends only on which characters of a text are digits. -/
theorem separated_congr (h : ∀ c ∈ w, digit c = digit' c) :
    separated digit a w = separated digit' a w := by
  induction w generalizing a with
  | nil => rfl
  | cons c w ih =>
      have hhead : w.head?.any digit = w.head?.any digit' := by
        cases w with
        | nil => rfl
        | cons d w => exact h d (by simp)
      rw [separated, separated, hhead, h c (by simp), ih fun d hd => h d (by simp [hd]),
        ih fun d hd => h d (by simp [hd])]

/-- A character that is no part of a run stands between two runs. -/
theorem separated_append (hrest : ∀ c ∈ rest.head?, c ≠ '_' ∧ digit c = false) :
    separated digit a (u ++ rest) = (separated digit a u && separated digit false rest) := by
  induction u generalizing a with
  | nil =>
      cases rest with
      | nil => rfl
      | cons c rest =>
          obtain ⟨hc, hdigit⟩ := hrest c rfl
          rw [List.nil_append, separated_cons hc, separated_cons hc, separated, Bool.true_and]
  | cons c u ih =>
      by_cases hc : c = '_'
      · subst hc
        have hhead : (u ++ rest).head?.any digit = u.head?.any digit := by
          cases u with
          | cons d u => rfl
          | nil =>
              rw [List.nil_append, List.head?_nil, Option.any_none, Option.any_eq_false]
              exact fun c hc => by simp [(hrest c hc).2]
        rw [List.cons_append, separated_underscore, separated_underscore, hhead, ih, Bool.and_assoc,
          Bool.and_assoc, Bool.and_assoc]
      · rw [List.cons_append, separated_cons hc, separated_cons hc, ih]

/--
Digits are the runs in which every underscore is where it may be. In front, where
`separated` is told whether an underscore may stand, there may be one only if there
was a digit before.
-/
theorem mem_moreDigits_and_mem_digits (hdigit : digit '_' = false) (w : List Char) :
    (w ∈ moreDigits digit ↔
      (∀ c ∈ w, (c == '_' || digit c) = true) ∧ separated digit true w = true) ∧
    (w ∈ digits digit ↔
      w ≠ [] ∧ (∀ c ∈ w, (c == '_' || digit c) = true) ∧ separated digit false w = true) := by
  induction w with
  | nil => simp [moreDigits_eq, separated]
  | cons c w ih =>
      obtain ⟨hmore, hdigits⟩ := ih
      by_cases hc : c = '_'
      · -- an underscore, and digits have to follow it
        subst hc
        have hstart : w ≠ [] ∧ (∀ c ∈ w, (c == '_' || digit c) = true) ∧
            separated digit false w = true ↔ (∀ c ∈ w, (c == '_' || digit c) = true) ∧
            (w.head?.any digit && separated digit false w) = true := by
          cases w with
          | nil => simp
          | cons d w =>
              by_cases hd : d = '_'
              · subst hd; simp [separated_underscore, hdigit]
              · simp [separated_cons hd, hd]
                tauto
        rw [cons_mem_moreDigits, cons_mem_digits, separated_underscore, separated_underscore,
          hdigits, hstart]
        simp [hdigit]
      · rw [cons_mem_moreDigits, cons_mem_digits, separated_cons hc, separated_cons hc, hmore]
        by_cases hd : digit c = true
        · simp [hc, hd]
        · simp [hc, hd]

end

/-! ## Numbers of a base -/

namespace Base

variable {b : Base} {c : Char} {w u rest : List Char}

theorem hasDigit_underscore (b : Base) : b.hasDigit '_' = false := by
  cases b <;> decide

theorem holdsDigit_underscore (b : Base) : b.holdsDigit '_' = false := by
  cases b <;> decide

/-- A digit of the base stays with the number, as any number's digits do. -/
theorem holdsDigit_of_hasDigit (h : b.hasDigit c = true) : b.holdsDigit c = true := by
  cases b with
  | binary =>
      simp only [hasDigit, Bool.or_eq_true, beq_iff_eq] at h
      rcases h with rfl | rfl <;> decide
  | octal =>
      simp only [hasDigit, isOctal, Bool.and_eq_true, decide_eq_true_eq] at h
      simp only [holdsDigit, Char.isDigit, reduceCtorEq, if_false, Bool.and_eq_true,
        decide_eq_true_eq]
      exact ⟨h.1, Nat.le_trans h.2 (by decide)⟩
  | decimal => exact h
  | hexadecimal => exact h

theorem holdsDigit_of_isDigit (h : c.isDigit = true) : b.holdsDigit c = true := by
  cases b with
  | binary | octal | decimal => exact h
  | hexadecimal => simp [holdsDigit, isHex, h]

/-- The letter of an exponent is not taken for a digit. -/
theorem holdsDigit_of_hasExponent (h : b.hasExponent c = true) : b.holdsDigit c = false := by
  cases b with
  | binary | octal => simp [hasExponent] at h
  | decimal | hexadecimal =>
      simp only [hasExponent, Bool.or_eq_true, beq_iff_eq] at h
      rcases h with rfl | rfl <;> decide

/-- Among the digits of the base and underscores, what stays with the number is a digit. -/
theorem separated_holdsDigit {a : Bool} (h : ∀ c ∈ w, (c == '_' || b.hasDigit c) = true) :
    separated b.holdsDigit a w = separated b.hasDigit a w := by
  refine separated_congr fun c hc => ?_
  rcases Bool.or_eq_true _ _ |>.mp (h c hc) with hc | hc
  · obtain rfl : c = '_' := by simpa using hc
    rw [hasDigit_underscore, holdsDigit_underscore]
  · rw [hc, holdsDigit_of_hasDigit hc]

/-- The digits in front of a point or an exponent. After an announcement an underscore may stand. -/
def whole (b : Base) : Language Char :=
  if b = .decimal then digits b.hasDigit else optional underscore * digits b.hasDigit

/-- A text of digits and underscores of the base, in which no underscore is out of place. -/
def IsRun (b : Base) (a : Bool) (w : List Char) : Prop :=
  (∀ c ∈ w, (c == '_' || b.hasDigit c) = true) ∧ separated b.holdsDigit a w = true

theorem mem_digits_iff : w ∈ digits b.hasDigit ↔ w ≠ [] ∧ b.IsRun false w := by
  rw [(mem_moreDigits_and_mem_digits b.hasDigit_underscore w).2, IsRun]
  refine and_congr_right fun _ => and_congr_right fun h => ?_
  rw [separated_holdsDigit h]

theorem mem_moreDigits_iff : w ∈ moreDigits b.hasDigit ↔ b.IsRun true w := by
  rw [(mem_moreDigits_and_mem_digits b.hasDigit_underscore w).1, IsRun]
  exact and_congr_right fun h => by rw [separated_holdsDigit h]

theorem mem_optional_digits_iff : w ∈ optional (digits b.hasDigit) ↔ b.IsRun false w := by
  rw [mem_optional, mem_digits_iff]
  by_cases hw : w = []
  · subst hw; simp [IsRun, separated]
  · simp [hw]

theorem mem_whole_iff : w ∈ b.whole ↔ w ≠ [] ∧ b.IsRun (b ≠ .decimal) w := by
  by_cases hb : b = .decimal
  · subst hb
    exact mem_digits_iff
  · rw [whole, if_neg hb, decide_eq_true hb, ← mem_moreDigits_iff, moreDigits_eq, mem_optional]
    have hempty : [] ∉ optional underscore * digits b.hasDigit := by
      rw [optional_mul, Language.mem_add, not_or]
      exact ⟨nil_notMem_digits, nil_notMem_one_mul⟩
    cases w with
    | nil => simpa using hempty
    | cons c w => simp

/-- A run that is not empty holds a digit. -/
theorem IsRun.any_digit {a : Bool} (h : b.IsRun a w) (hw : w ≠ []) :
    ∃ c ∈ w, b.hasDigit c = true := by
  obtain ⟨hall, hsep⟩ := h
  cases w with
  | nil => exact absurd rfl hw
  | cons c w =>
      rcases Bool.or_eq_true _ _ |>.mp (hall c (by simp)) with hc | hc
      · -- an underscore is never the last character
        obtain rfl : c = '_' := by simpa using hc
        rw [separated_holdsDigit hall, separated_underscore, Bool.and_eq_true,
          Bool.and_eq_true] at hsep
        obtain ⟨d, hd, hdigit⟩ := Option.any_eq_true _ _ |>.mp hsep.1.2
        exact ⟨d, List.mem_cons_of_mem _ (List.mem_of_mem_head? hd), hdigit⟩
      · exact ⟨c, by simp, hc⟩

theorem IsRun.ne_nil_iff {a : Bool} (h : b.IsRun a w) : w ≠ [] ↔ w.any (· ≠ '_') = true := by
  constructor
  · intro hw
    obtain ⟨c, hc, hdigit⟩ := h.any_digit hw
    refine List.any_eq_true.mpr ⟨c, hc, decide_eq_true ?_⟩
    rintro rfl
    rw [hasDigit_underscore] at hdigit
    exact absurd hdigit (by decide)
  · rintro hany rfl
    simp at hany

/-! ## Exponents -/

/-- The exponents of a base; only decimal and hexadecimal numbers have one. -/
def exponent (b : Base) : Language Char :=
  one b.hasExponent * exponentDigits

/-- The digits of an exponent are one run, and underscores in it are seen to with the others. -/
theorem run_isDigit_iff {ds : List Char} :
    ((run Char.isDigit ds).1.any Char.isDigit && (run Char.isDigit ds).2.isEmpty) = true ∧
      separated b.holdsDigit false ds = true ↔ ds ∈ decimalDigits := by
  have hsame : (∀ c ∈ ds, (c == '_' || Char.isDigit c) = true) →
      separated b.holdsDigit false ds = separated Base.decimal.holdsDigit false ds := by
    intro hall
    refine separated_congr fun c hc => ?_
    rcases Bool.or_eq_true _ _ |>.mp (hall c hc) with hc | hc
    · obtain rfl : c = '_' := by simpa using hc
      rw [holdsDigit_underscore, holdsDigit_underscore]
    · rw [holdsDigit_of_isDigit hc, holdsDigit_of_isDigit hc]
  rw [show decimalDigits = digits Base.decimal.hasDigit from rfl, mem_digits_iff, Bool.and_eq_true,
    List.isEmpty_iff]
  constructor
  · rintro ⟨⟨hany, hrest⟩, hsep⟩
    have happ := run_append Char.isDigit ds
    rw [hrest, List.append_nil] at happ
    have hrun : run Char.isDigit (ds ++ []) = (ds, []) := by
      rw [List.append_nil]
      exact Prod.ext happ hrest
    have hall := (run_eq_iff.mp hrun).1
    refine ⟨?_, hall, hsame hall ▸ hsep⟩
    rintro rfl
    rw [happ] at hany
    simp at hany
  · rintro ⟨hne, hrun⟩
    obtain ⟨d, hd, hdigit⟩ := hrun.any_digit hne
    have heq : run Char.isDigit (ds ++ []) = (ds, []) := run_eq_iff.mpr ⟨hrun.1, by simp⟩
    rw [List.append_nil] at heq
    rw [heq, hsame hrun.1]
    exact ⟨⟨List.any_eq_true.mpr ⟨d, hd, hdigit⟩, rfl⟩, hrun.2⟩

/-- A complete exponent is a sign or none, and digits. -/
theorem mem_exponentDigits_iff :
    w ∈ exponentDigits ↔ completeExponent w = true ∧ separated b.holdsDigit false w = true := by
  have hsign : ∀ c ∈ ['+', '-'], c ≠ '_' ∧ b.holdsDigit c = false ∧ c.isDigit = false := by
    rintro c (_ | ⟨_, _ | ⟨_, hc⟩⟩)
    · cases b <;> decide
    · cases b <;> decide
    · cases hc
  have hcomplete : completeExponent w = ((run Char.isDigit (scanSign w).2).1.any Char.isDigit &&
      (run Char.isDigit (scanSign w).2).2.isEmpty) := rfl
  rw [hcomplete, scanSign.eq_def]
  split
  · obtain ⟨hne, hholds, hdigit⟩ := hsign '+' (by simp)
    dsimp only
    rw [separated_cons hne, hholds, run_isDigit_iff, exponentDigits, either,
      mem_optional_one_mul_cons]
    simp [decimalDigits, hdigit]
  · obtain ⟨hne, hholds, hdigit⟩ := hsign '-' (by simp)
    dsimp only
    rw [separated_cons hne, hholds, run_isDigit_iff, exponentDigits, either,
      mem_optional_one_mul_cons]
    simp [decimalDigits, hdigit]
  · rename_i hplus hminus
    rw [run_isDigit_iff, exponentDigits, either, optional_mul, Language.mem_add, or_iff_left]
    cases w with
    | nil => simp
    | cons c w =>
        rw [cons_mem_one_mul, Bool.or_eq_true, beq_iff_eq, beq_iff_eq]
        rintro ⟨rfl | rfl, -⟩
        · exact hplus w rfl
        · exact hminus w rfl

/-- What makes a float of a mantissa that stands in front of it. -/
def afterMantissa (b : Base) (pointed : Bool) : Language Char :=
  if pointed && b ≠ .hexadecimal then optional b.exponent else b.exponent

theorem mem_afterMantissa_iff {pointed : Bool} : w ∈ b.afterMantissa pointed ↔
    kindAfterMantissa b pointed w = some .float ∧ separated b.holdsDigit false w = true := by
  have hempty : [] ∉ b.exponent := nil_notMem_one_mul
  cases w with
  | nil =>
      cases pointed
      all_goals by_cases hb : b = .hexadecimal
      all_goals simp [afterMantissa, kindAfterMantissa, hempty, hb, separated]
      all_goals exact hb ▸ hempty
  | cons c w =>
      have hmem : c :: w ∈ b.afterMantissa pointed ↔ c :: w ∈ b.exponent := by
        rw [afterMantissa]
        split
        · simp
        · rfl
      rw [hmem, exponent, cons_mem_one_mul, mem_exponentDigits_iff (b := b), kindAfterMantissa]
      by_cases hc : b.hasExponent c = true
      · have hne : c ≠ '_' := by
          rintro rfl
          exact absurd hc (by cases b <;> decide)
        rw [separated_cons hne, holdsDigit_of_hasExponent hc]
        simp [hc]
      · simp [hc]

/-- What makes a float of a mantissa starts with the letter of an exponent, if it is not empty. -/
theorem hasExponent_of_kindAfterMantissa {pointed : Bool}
    (h : kindAfterMantissa b pointed w = some .float) : ∀ c ∈ w.head?, b.hasExponent c = true := by
  intro c hc
  obtain ⟨w, rfl⟩ := List.head?_eq_some_iff.mp hc
  rw [kindAfterMantissa] at h
  split at h
  · rename_i hletter
    exact (Bool.and_eq_true _ _ |>.mp hletter).1
  · simp at h

/-- The letter of an exponent cannot be taken for anything in front of it. -/
theorem ne_of_hasExponent (h : b.hasExponent c = true) :
    c ≠ '_' ∧ c ≠ '.' ∧ b.holdsDigit c = false ∧ (b = .decimal ∨ b = .hexadecimal) := by
  refine ⟨?_, ?_, holdsDigit_of_hasExponent h, ?_⟩
  · rintro rfl
    exact absurd h (by cases b <;> decide)
  · rintro rfl
    exact absurd h (by cases b <;> decide)
  · cases b <;> simp_all [hasExponent]

theorem separated_append_of_float {pointed a : Bool}
    (h : kindAfterMantissa b pointed rest = some .float) :
    separated b.holdsDigit a (w ++ rest) =
      (separated b.holdsDigit a w && separated b.holdsDigit false rest) := by
  refine separated_append fun c hc => ?_
  have hne := ne_of_hasExponent (hasExponent_of_kindAfterMantissa h c hc)
  exact ⟨hne.1, hne.2.2.1⟩

theorem head_of_mem_afterMantissa {pointed : Bool} (h : w ∈ b.afterMantissa pointed) :
    ∀ c ∈ w.head?, c ≠ '.' ∧ (c == '_' || b.hasDigit c) = false := by
  intro c hc
  have hkind := (mem_afterMantissa_iff.mp h).1
  have hne := ne_of_hasExponent (hasExponent_of_kindAfterMantissa hkind c hc)
  refine ⟨hne.2.1, ?_⟩
  rw [Bool.or_eq_false_iff, beq_eq_false_iff_ne]
  refine ⟨hne.1, ?_⟩
  by_contra hdigit
  rw [holdsDigit_of_hasDigit (by simpa using hdigit)] at hne
  exact absurd hne.2.2.1 (by decide)

end Base

/-! ## Judging a text -/

/-- A mantissa with nothing behind it is an integer, unless it has a point. -/
theorem kindAfterMantissa_eq_int_iff {b : Base} {pointed : Bool} {w : List Char} :
    kindAfterMantissa b pointed w = some .int ↔ pointed = false ∧ w = [] := by
  cases w with
  | nil => cases pointed <;> by_cases hb : b = .hexadecimal <;> simp [kindAfterMantissa, hb]
  | cons c w =>
      rw [kindAfterMantissa]
      split <;> simp

section

variable {lit whole fraction rest cs : List Char} {b : Base} (hb : Base.announced lit = b)
include hb

/-- A text without a point behind its first run of digits. -/
theorem classify_plain (hrun : run b.hasDigit (lit.drop b.leadLength) = (whole, rest))
    (hpoint : rest.head? ≠ some '.') :
    classify lit =
      if separated b.holdsDigit (b ≠ .decimal) (lit.drop b.leadLength) && whole.any (· ≠ '_') then
        match kindAfterMantissa b false rest with
        | some .int => if b ≠ .decimal || legacyOctal lit then some .int else none
        | other => other
      else none := by
  -- which of the two ways the mantissa goes is seen at the next character
  cases hsep : separated b.holdsDigit (b ≠ .decimal) (lit.drop b.leadLength) <;>
    cases hany : whole.any (· ≠ '_') <;>
    cases rest with
    | nil => grind [classify]
    | cons c rest =>
        have hc : c ≠ '.' := by simpa using hpoint
        grind [classify]

/-- A text with a point behind its first run of digits. -/
theorem classify_pointed (hrun : run b.hasDigit (lit.drop b.leadLength) = (whole, '.' :: cs))
    (hfraction : run b.hasDigit cs = (fraction, rest)) :
    classify lit =
      if separated b.holdsDigit (b ≠ .decimal) (lit.drop b.leadLength) &&
          (b = .decimal || b = .hexadecimal) && (whole ++ fraction).any (· ≠ '_') then
        kindAfterMantissa b true rest
      else none := by
  have hint : kindAfterMantissa b true rest ≠ some .int := by
    simp [kindAfterMantissa_eq_int_iff]
  cases hsep : separated b.holdsDigit (b ≠ .decimal) (lit.drop b.leadLength) <;>
    cases hany : (whole ++ fraction).any (· ≠ '_') <;>
    cases b <;> grind [classify]

/-- An integer is one run of digits; without an announcement a leading zero makes it octal. -/
theorem classify_eq_int_iff : classify lit = some .int ↔
    lit.drop b.leadLength ∈ b.whole ∧ (b = .decimal → legacyOctal lit = true) := by
  rcases hrun : run b.hasDigit (lit.drop b.leadLength) with ⟨whole, rest⟩
  have happ := run_append b.hasDigit (lit.drop b.leadLength)
  rw [hrun] at happ
  have hsplit := run_eq_iff.mp (happ.symm ▸ hrun)
  dsimp only at happ hsplit
  rw [Base.mem_whole_iff]
  by_cases hpoint : rest.head? = some '.'
  · -- with a point it is no integer, and no run
    obtain ⟨cs, rfl⟩ := List.head?_eq_some_iff.mp hpoint
    rw [classify_pointed hb hrun rfl]
    constructor
    · intro h
      split at h
      · exact absurd (kindAfterMantissa_eq_int_iff.mp h).1 (by decide)
      · exact absurd h (by simp)
    · rintro ⟨⟨-, hall, -⟩, -⟩
      have hdot := hsplit.2 '.' rfl
      rw [hall '.' (by rw [← happ]; simp)] at hdot
      exact absurd hdot (by decide)
  · rw [classify_plain hb hrun hpoint]
    cases rest with
    | cons c rest =>
        -- something follows the digits that is none
        have hnot := hsplit.2 c rfl
        have hkind : kindAfterMantissa b false (c :: rest) ≠ some .int := by
          simp [kindAfterMantissa_eq_int_iff]
        constructor
        · intro h
          repeat' split at h
          all_goals simp_all
        · rintro ⟨⟨-, hall, -⟩, -⟩
          rw [hall c (by rw [← happ]; simp)] at hnot
          exact absurd hnot (by decide)
    | nil =>
        obtain rfl : whole = lit.drop b.leadLength := by simpa using happ
        have hkind : kindAfterMantissa b false [] = some .int := rfl
        rw [hkind]
        by_cases hsep : separated b.holdsDigit (b ≠ .decimal) (lit.drop b.leadLength) = true
        · have hwhole : b.IsRun (b ≠ .decimal) (lit.drop b.leadLength) := ⟨hsplit.1, hsep⟩
          rw [hwhole.ne_nil_iff, hsep]
          by_cases hdec : b = .decimal <;> grind
        · have hwhole : ¬ b.IsRun (b ≠ .decimal) (lit.drop b.leadLength) := fun h => hsep h.2
          rw [Bool.not_eq_true] at hsep
          rw [hsep]
          exact iff_of_false (by simp) fun h => hwhole h.1.2

/-- A mantissa with a point has a digit before it or after it. -/
def Base.pointedMantissa (b : Base) : Language Char :=
  b.whole * (point * optional (digits b.hasDigit)) + point * digits b.hasDigit

omit hb in
theorem mem_pointedMantissa_iff {m : List Char} : m ∈ b.pointedMantissa ↔
    ∃ w f, m = w ++ '.' :: f ∧ b.IsRun (b ≠ .decimal) w ∧ b.IsRun false f ∧
      (w ++ f).any (· ≠ '_') = true := by
  have hpointed : ∀ {l : Language Char} {v : List Char}, v ∈ point * l ↔
      ∃ f ∈ l, v = '.' :: f := by
    intro l v
    cases v with
    | nil => simp [point]
    | cons c v =>
        rw [point, cons_mem_one_mul, beq_iff_eq]
        exact ⟨fun ⟨hc, hv⟩ => ⟨v, hv, by rw [hc]⟩, fun ⟨f, hf, heq⟩ => by cases heq; exact ⟨rfl, hf⟩⟩
  rw [Base.pointedMantissa, Language.mem_add, hpointed, Language.mem_mul]
  constructor
  · rintro (⟨w, hw, v, hv, rfl⟩ | ⟨f, hf, rfl⟩)
    · obtain ⟨f, hf, rfl⟩ := hpointed.mp hv
      obtain ⟨hne, hrun⟩ := Base.mem_whole_iff.mp hw
      refine ⟨w, f, rfl, hrun, Base.mem_optional_digits_iff.mp hf, ?_⟩
      rw [List.any_append, hrun.ne_nil_iff.mp hne, Bool.true_or]
    · obtain ⟨hne, hrun⟩ := Base.mem_digits_iff.mp hf
      exact ⟨[], f, rfl, ⟨by simp, rfl⟩, hrun, hrun.ne_nil_iff.mp hne⟩
  · rintro ⟨w, f, rfl, hw, hf, hany⟩
    by_cases hne : w = []
    · subst hne
      exact .inr ⟨f, Base.mem_digits_iff.mpr ⟨hf.ne_nil_iff.mpr hany, hf⟩, rfl⟩
    · refine .inl ⟨w, Base.mem_whole_iff.mpr ⟨hne, hw⟩, '.' :: f, ?_, rfl⟩
      exact hpointed.mpr ⟨f, Base.mem_optional_digits_iff.mpr hf, rfl⟩

/-- A text that has a point is a float if its mantissa is one and what follows makes it a float. -/
theorem classify_pointed_eq_float_iff
    (hsplit : lit.drop b.leadLength = whole ++ '.' :: (fraction ++ rest))
    (hwhole : ∀ c ∈ whole, (c == '_' || b.hasDigit c) = true)
    (hfraction : ∀ c ∈ fraction, (c == '_' || b.hasDigit c) = true)
    (hrest : ∀ c ∈ rest.head?, (c == '_' || b.hasDigit c) = false) :
    classify lit = some .float ↔
      (b = .decimal ∨ b = .hexadecimal) ∧ (b.IsRun (b ≠ .decimal) whole ∧ b.IsRun false fraction ∧
        (whole ++ fraction).any (· ≠ '_') = true) ∧ rest ∈ b.afterMantissa true := by
  have hpoint : ('.' == '_' || b.hasDigit '.') = false ∧ b.holdsDigit '.' = false := by
    cases b <;> decide
  have hrun : run b.hasDigit (lit.drop b.leadLength) = (whole, '.' :: (fraction ++ rest)) := by
    rw [hsplit]
    refine run_eq_iff.mpr ⟨hwhole, fun c hc => ?_⟩
    obtain rfl : '.' = c := by simpa using hc
    exact hpoint.1
  have hsep : separated b.holdsDigit (b ≠ .decimal) (lit.drop b.leadLength) =
      (separated b.holdsDigit (b ≠ .decimal) whole &&
        separated b.holdsDigit false (fraction ++ rest)) := by
    rw [hsplit, separated_append, separated_cons (by decide), hpoint.2]
    intro c hc
    obtain rfl : '.' = c := by simpa using hc
    exact ⟨by decide, hpoint.2⟩
  rw [classify_pointed hb hrun (run_eq_iff.mpr ⟨hfraction, hrest⟩), hsep,
    Base.mem_afterMantissa_iff, Base.IsRun, Base.IsRun]
  by_cases hkind : kindAfterMantissa b true rest = some .float
  · rw [Base.separated_append_of_float hkind, hkind]
    grind
  · grind

/-- A text that has no point is a float if an exponent follows its digits. -/
theorem classify_plain_eq_float_iff (hsplit : lit.drop b.leadLength = whole ++ rest)
    (hwhole : ∀ c ∈ whole, (c == '_' || b.hasDigit c) = true)
    (hrest : ∀ c ∈ rest.head?, (c == '_' || b.hasDigit c) = false)
    (hpoint : rest.head? ≠ some '.') :
    classify lit = some .float ↔
      (b = .decimal ∨ b = .hexadecimal) ∧ whole ∈ b.whole ∧ rest ∈ b.afterMantissa false := by
  have hrun : run b.hasDigit (lit.drop b.leadLength) = (whole, rest) := by
    rw [hsplit]
    exact run_eq_iff.mpr ⟨hwhole, hrest⟩
  rw [classify_plain hb hrun hpoint, Base.mem_afterMantissa_iff, Base.mem_whole_iff, hsplit]
  by_cases hkind : kindAfterMantissa b false rest = some .float
  · have hbase : b = .decimal ∨ b = .hexadecimal := by
      cases rest with
      | nil => simp [kindAfterMantissa] at hkind
      | cons c rest =>
          have hletter := Base.hasExponent_of_kindAfterMantissa hkind c rfl
          exact (Base.ne_of_hasExponent hletter).2.2.2
    rw [Base.separated_append_of_float hkind, hkind]
    by_cases hsep : separated b.holdsDigit (b ≠ .decimal) whole = true
    · have hwhole : b.IsRun (b ≠ .decimal) whole := ⟨hwhole, hsep⟩
      rw [hwhole.ne_nil_iff, hsep]
      grind
    · exact iff_of_false (by simp_all) fun h => hsep h.2.1.2.2
  · grind

/-- A float is a mantissa, and what makes a float of it. -/
theorem classify_eq_float_iff : classify lit = some .float ↔
    (b = .decimal ∨ b = .hexadecimal) ∧ lit.drop b.leadLength ∈
      b.pointedMantissa * b.afterMantissa true + b.whole * b.afterMantissa false := by
  rw [Language.mem_add, Language.mem_mul, Language.mem_mul]
  constructor
  · intro h
    rcases hrun : run b.hasDigit (lit.drop b.leadLength) with ⟨whole, behind⟩
    have happ := run_append b.hasDigit (lit.drop b.leadLength)
    rw [hrun] at happ
    have hsplit := run_eq_iff.mp (happ.symm ▸ hrun)
    dsimp only at happ hsplit
    by_cases hpoint : behind.head? = some '.'
    · obtain ⟨cs, rfl⟩ := List.head?_eq_some_iff.mp hpoint
      rcases hfraction : run b.hasDigit cs with ⟨fraction, rest⟩
      have hcs := run_append b.hasDigit cs
      rw [hfraction] at hcs
      have hafter := run_eq_iff.mp (hcs.symm ▸ hfraction)
      dsimp only at hcs hafter
      subst hcs
      rw [classify_pointed_eq_float_iff hb happ.symm hsplit.1 hafter.1 hafter.2] at h
      obtain ⟨hbase, ⟨hw, hf, hany⟩, hrest⟩ := h
      refine ⟨hbase, .inl ⟨whole ++ '.' :: fraction, ?_, rest, hrest, ?_⟩⟩
      · exact mem_pointedMantissa_iff.mpr ⟨whole, fraction, rfl, hw, hf, hany⟩
      · rw [← happ, List.append_assoc, List.cons_append]
    · rw [classify_plain_eq_float_iff hb happ.symm hsplit.1 hsplit.2 hpoint] at h
      exact ⟨h.1, .inr ⟨whole, h.2.1, behind, h.2.2, happ⟩⟩
  · rintro ⟨hbase, ⟨m, hm, rest, hrest, hsplit⟩ | ⟨w, hw, rest, hrest, hsplit⟩⟩
    · obtain ⟨w, f, rfl, hw, hf, hany⟩ := mem_pointedMantissa_iff.mp hm
      have hhead := Base.head_of_mem_afterMantissa hrest
      rw [List.append_assoc, List.cons_append] at hsplit
      rw [classify_pointed_eq_float_iff hb hsplit.symm hw.1 hf.1 fun c hc => (hhead c hc).2]
      exact ⟨hbase, ⟨hw, hf, hany⟩, hrest⟩
    · have hhead := Base.head_of_mem_afterMantissa hrest
      have hrun := (Base.mem_whole_iff.mp hw).2
      rw [classify_plain_eq_float_iff hb hsplit.symm hrun.1 (fun c hc => (hhead c hc).2)
        fun h => (hhead '.' h).1 rfl]
      exact ⟨hbase, hw, hrest⟩

end

/-! ## Announcements -/

/-- The letters that announce a base, behind a zero. -/
def Base.hasLetter : Base → Char → Bool
  | .binary, c => c == 'b' || c == 'B'
  | .octal, c => c == 'o' || c == 'O'
  | .decimal, _ => false
  | .hexadecimal, c => c == 'x' || c == 'X'

section

variable {lit : List Char} {b : Base} {l : Language Char}

theorem mem_announcement_iff (hb : b ≠ .decimal) :
    lit ∈ zero * (one b.hasLetter * l) ↔
      Base.announced lit = b ∧ lit.drop b.leadLength ∈ l := by
  have hlead : b.leadLength = 2 := if_neg hb
  rw [hlead]
  match lit with
  | [] => simp [zero, Base.announced, Ne.symm hb]
  | [c] => simp [zero, Base.announced, Ne.symm hb]
  | c :: d :: lit =>
      by_cases hc : c = '0'
      · subst hc
        rw [zero, cons_mem_one_mul, cons_mem_one_mul]
        have hannounced : Base.announced ('0' :: d :: lit) = b ↔ b.hasLetter d = true := by
          cases b <;> unfold Base.announced <;> split <;> simp_all [Base.hasLetter]
        rw [hannounced]
        simp
      · simp [zero, Base.announced, hc, Ne.symm hb]

/-- A text whose characters announce nothing is decimal. -/
theorem announced_eq_decimal (h : ∀ c ∈ lit, ∀ b : Base, b.hasLetter c = false) :
    Base.announced lit = .decimal := by
  by_contra hne
  have hmem : lit ∈ zero * (one (Base.announced lit).hasLetter * ⊤) := by
    rw [mem_announcement_iff hne]
    exact ⟨rfl, trivial⟩
  match lit, hmem with
  | c :: d :: lit, hmem =>
      rw [zero, cons_mem_one_mul, cons_mem_one_mul] at hmem
      rw [h d (by simp)] at hmem
      exact absurd hmem.2.1 (by decide)
  | [c], hmem => simp [zero] at hmem
  | [], hmem => simp [zero] at hmem

/-- The texts whose characters announce nothing. -/
def unannounced : Language Char :=
  {w | ∀ c ∈ w, ∀ b : Base, b.hasLetter c = false}

theorem one_le_unannounced {p : Char → Bool}
    (h : ∀ c, p c = true → ∀ b : Base, b.hasLetter c = false) : one p ≤ unannounced := by
  rintro _ ⟨c, rfl, hc⟩ d hd
  rw [List.mem_singleton.mp hd]
  exact h c hc

theorem mul_le_unannounced {m : Language Char} (hl : l ≤ unannounced) (hm : m ≤ unannounced) :
    l * m ≤ unannounced := by
  rintro _ ⟨u, hu, v, hv, rfl⟩ c hc
  rcases List.mem_append.mp hc with hc | hc
  · exact hl hu c hc
  · exact hm hv c hc

theorem optional_le_unannounced (hl : l ≤ unannounced) : optional l ≤ unannounced := by
  rintro w hw c hc
  rcases mem_optional.mp hw with rfl | hw
  · exact absurd hc List.not_mem_nil
  · exact hl hw c hc

theorem isDigit_hasLetter {c : Char} (h : c.isDigit = true) (b : Base) :
    b.hasLetter c = false := by
  cases b <;> simp only [Base.hasLetter, Bool.or_eq_false_iff, beq_eq_false_iff_ne]
  · exact ⟨by rintro rfl; simp at h, by rintro rfl; simp at h⟩
  · exact ⟨by rintro rfl; simp at h, by rintro rfl; simp at h⟩
  · exact ⟨by rintro rfl; simp at h, by rintro rfl; simp at h⟩

theorem decimalDigits_le_unannounced : decimalDigits ≤ unannounced := by
  intro w hw c hc b
  have hrun := (Base.mem_digits_iff (b := .decimal)).mp hw
  rcases Bool.or_eq_true _ _ |>.mp (hrun.2.1 c hc) with hc | hc
  · obtain rfl : c = '_' := by simpa using hc
    cases b <;> decide
  · exact isDigit_hasLetter hc b

theorem decimalFloatLit_le_unannounced : decimalFloatLit ≤ unannounced := by
  have hchar : ∀ c ∈ ['.', 'e', 'E', '+', '-'], ∀ b : Base, b.hasLetter c = false := by
    intro c hc b
    simp only [List.mem_cons, List.not_mem_nil, or_false] at hc
    rcases hc with rfl | rfl | rfl | rfl | rfl <;> cases b <;> decide
  have hpoint : point ≤ unannounced := one_le_unannounced fun c hc => by
    obtain rfl : c = '.' := by simpa using hc
    exact hchar '.' (by simp)
  have heither : ∀ c ∈ ['.', 'e', 'E', '+', '-'], ∀ d ∈ ['.', 'e', 'E', '+', '-'],
      either c d ≤ unannounced := by
    refine fun c hc d hd => one_le_unannounced fun e he => ?_
    rcases Bool.or_eq_true _ _ |>.mp he with he | he
    · rw [beq_iff_eq.mp he]; exact hchar c hc
    · rw [beq_iff_eq.mp he]; exact hchar d hd
  have hdigits := decimalDigits_le_unannounced
  have hexponent : decimalExponent ≤ unannounced :=
    mul_le_unannounced (heither 'e' (by simp) 'E' (by simp))
      (mul_le_unannounced (optional_le_unannounced (heither '+' (by simp) '-' (by simp))) hdigits)
  have hmaybe := optional_le_unannounced hexponent
  refine add_le (add_le ?_ ?_) ?_
  · exact mul_le_unannounced hdigits (mul_le_unannounced hpoint
      (mul_le_unannounced (optional_le_unannounced hdigits) hmaybe))
  · exact mul_le_unannounced hdigits hexponent
  · exact mul_le_unannounced hpoint (mul_le_unannounced hdigits hmaybe)

/-! ## The rules for integers -/

/-- Without an announcement, digits are an integer unless a leading zero says that they are octal. -/
theorem mem_decimalLit_or_legacy_iff :
    lit ∈ decimalLit + zero * (optional underscore * digits isOctal) ↔
      lit ∈ decimalDigits ∧ legacyOctal lit = true := by
  rw [decimalLit, decimalDigits, ← moreDigits_eq, Language.mem_add, Language.mem_add, zero]
  cases lit with
  | nil => simp
  | cons c w =>
      rw [cons_mem_one, cons_mem_one_mul, cons_mem_one_mul, cons_mem_digits]
      by_cases hc : c = '0'
      · subst hc
        have hoctal : w ∈ moreDigits isOctal ↔
            w ∈ moreDigits Char.isDigit ∧ ∀ d ∈ w, (isOctal d || d == '_') = true := by
          refine (Base.mem_moreDigits_iff (b := .octal)).trans ?_
          refine .trans ?_ (and_congr_left' (Base.mem_moreDigits_iff (b := .decimal)).symm)
          constructor
          · rintro ⟨hall, hsep⟩
            refine ⟨⟨fun d hd => ?_, hsep⟩, fun d hd => Bool.or_comm _ _ ▸ hall d hd⟩
            rcases Bool.or_eq_true _ _ |>.mp (hall d hd) with hd | hd
            · rw [hd, Bool.true_or]
            · rw [show Base.decimal.hasDigit d = true from Base.holdsDigit_of_hasDigit hd,
                Bool.or_true]
          · rintro ⟨⟨-, hsep⟩, hall⟩
            exact ⟨fun d hd => Bool.or_comm _ _ ▸ hall d hd, hsep⟩
        rw [moreDigits_eq, mem_optional] at hoctal
        rw [legacyOctal, List.all_eq_true]
        simpa using hoctal
      · have hlegacy : legacyOctal (c :: w) = true := by
          unfold legacyOctal
          split
          · simp_all
          · rfl
        simp [hc, hlegacy]

/-- The rules for integers, by the base that is announced. -/
theorem mem_intLit_iff : lit ∈ intLit ↔
    lit.drop (Base.announced lit).leadLength ∈ (Base.announced lit).whole ∧
      (Base.announced lit = .decimal → legacyOctal lit = true) := by
  have hbinary : binaryLit = zero * (one Base.binary.hasLetter * Base.binary.whole) := rfl
  have hhex : hexLit = zero * (one Base.hexadecimal.hasLetter * Base.hexadecimal.whole) := rfl
  have hoctal : octalLit = zero * (optional underscore * digits isOctal) +
      zero * (one Base.octal.hasLetter * Base.octal.whole) := by
    rw [octalLit, optional_mul, mul_add]
    rfl
  have hrules : lit ∈ intLit ↔ (lit ∈ decimalDigits ∧ legacyOctal lit = true) ∨
      ∃ b, b ≠ .decimal ∧ Base.announced lit = b ∧ lit.drop b.leadLength ∈ b.whole := by
    rw [← mem_decimalLit_or_legacy_iff, intLit, hoctal, hbinary, hhex]
    simp only [Language.mem_add, mem_announcement_iff, ne_eq, reduceCtorEq, not_false_eq_true]
    constructor
    · rintro (((h | h) | h | h) | h)
      · exact .inl (.inl h)
      · exact .inr ⟨_, by decide, h⟩
      · exact .inl (.inr h)
      · exact .inr ⟨_, by decide, h⟩
      · exact .inr ⟨_, by decide, h⟩
    · rintro ((h | h) | ⟨b, hb, h⟩)
      · simp [h]
      · simp [h]
      · cases b <;> simp_all
  rw [hrules]
  by_cases hb : Base.announced lit = .decimal
  · have hwhole : Base.decimal.whole = decimalDigits := rfl
    simp [hb, Base.leadLength, hwhole]
  · have hnot : lit ∉ decimalDigits := fun h =>
      hb (announced_eq_decimal (decimalDigits_le_unannounced h))
    simp [hb, hnot]

/-! ## The rules for floats -/

theorem mem_floatLit_iff : lit ∈ floatLit ↔
    (Base.announced lit = .decimal ∨ Base.announced lit = .hexadecimal) ∧
      lit.drop (Base.announced lit).leadLength ∈
        (Base.announced lit).pointedMantissa * (Base.announced lit).afterMantissa true +
          (Base.announced lit).whole * (Base.announced lit).afterMantissa false := by
  have hdecimal : decimalFloatLit =
      Base.decimal.pointedMantissa * Base.decimal.afterMantissa true +
        Base.decimal.whole * Base.decimal.afterMantissa false := by
    have hpointed : Base.decimal.pointedMantissa =
        decimalDigits * (point * optional decimalDigits) + point * decimalDigits := rfl
    have hmaybe : Base.decimal.afterMantissa true = optional decimalExponent := rfl
    have hexponent : Base.decimal.afterMantissa false = decimalExponent := rfl
    have hwhole : Base.decimal.whole = decimalDigits := rfl
    rw [hpointed, hmaybe, hexponent, hwhole, decimalFloatLit, add_mul]
    simp only [mul_assoc]
    rw [add_right_comm]
  have hhex : hexFloatLit = zero * (one Base.hexadecimal.hasLetter *
      (Base.hexadecimal.pointedMantissa * Base.hexadecimal.afterMantissa true +
        Base.hexadecimal.whole * Base.hexadecimal.afterMantissa false)) := by
    have hpointed : Base.hexadecimal.pointedMantissa =
        optional underscore * digits isHex * (point * optional (digits isHex)) +
          point * digits isHex := rfl
    have hexponent : ∀ pointed, Base.hexadecimal.afterMantissa pointed = hexExponent := by
      intro pointed
      cases pointed <;> rfl
    have hwhole : Base.hexadecimal.whole = optional underscore * digits isHex := rfl
    rw [hpointed, hexponent, hexponent, hwhole, hexFloatLit, hexMantissa, ← add_mul,
      add_right_comm]
    simp only [mul_assoc]
    rfl
  rw [floatLit, Language.mem_add, hhex, mem_announcement_iff (by decide)]
  constructor
  · rintro (h | ⟨hb, h⟩)
    · have hb := announced_eq_decimal (decimalFloatLit_le_unannounced h)
      rw [hb, ← hdecimal]
      exact ⟨.inl rfl, h⟩
    · rw [hb]
      exact ⟨.inr rfl, h⟩
  · rintro ⟨hb | hb, h⟩
    · rw [hb, ← hdecimal] at h
      exact .inl h
    · rw [hb] at h
      exact .inr ⟨hb, h⟩

end

/-! ## The main statement -/

theorem classify_eq_int_iff_mem (lit : List Char) : classify lit = some .int ↔ lit ∈ intLit := by
  rw [classify_eq_int_iff rfl, mem_intLit_iff]

theorem classify_eq_float_iff_mem (lit : List Char) :
    classify lit = some .float ↔ lit ∈ floatLit := by
  rw [classify_eq_float_iff rfl, mem_floatLit_iff]

/--
**Judging a text is exactly the grammar.** A text is taken for an integer if and only
if the rules for integers give it, for a float if and only if those for floats do, and
is refused if none of them does.
-/
theorem classify_iff_grammar (lit : List Char) :
    (classify lit = some .int ↔ lit ∈ intLit) ∧
    (classify lit = some .float ↔ lit ∈ floatLit) ∧
    (classify lit = none ↔ lit ∉ intLit ∧ lit ∉ floatLit) := by
  refine ⟨classify_eq_int_iff_mem lit, classify_eq_float_iff_mem lit, ?_⟩
  rw [← classify_eq_int_iff_mem, ← classify_eq_float_iff_mem]
  rcases h : classify lit with _ | _ | _ <;> simp

end GoGloss.Number
