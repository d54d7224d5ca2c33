import Mathlib.Algebra.Group.Nat.Defs
import Mathlib.Data.List.TakeWhile
import Mathlib.Tactic.Common

/-! `strtoull` of the C library, for a 64-bit unsigned long long, and the texts that it takes as a
whole: white space, a sign and a numeral. -/
namespace Numerals

/-- `isspace` in the C locale. -/
def isSpace (c : Char) : Bool := c ∈ [' ', '\t', '\n', '\x0b', '\x0c', '\r']

/-- The value of a letter or digit as a digit, and 36 for any other character. -/
def digitValue (c : Char) : ℕ :=
  if '0' ≤ c ∧ c ≤ '9' then c.toNat - '0'.toNat
  else if 'a' ≤ c ∧ c ≤ 'z' then c.toNat - 'a'.toNat + 10
  else if 'A' ≤ c ∧ c ≤ 'Z' then c.toNat - 'A'.toNat + 10
  else 36

def isDigit (radix : ℕ) (c : Char) : Bool := digitValue c < radix

def valueOf (radix : ℕ) (digits : List Char) : ℕ :=
  digits.foldl (fun value c => value * radix + digitValue c) 0

/-- `0x` with a digit behind it. -/
def hexPrefix : List Char → Bool
  | '0' :: x :: c :: _ => (x == 'x' || x == 'X') && isDigit 16 c
  | _ => false

/-- The radix of the numeral that `text` begins with, when the base argument is `base`. -/
def radix (base : ℕ) (text : List Char) : ℕ :=
  if base = 0 then if hexPrefix text then 16 else if text.head? = some '0' then 8 else 10 else base

def digitsStart (base : ℕ) (text : List Char) : ℕ :=
  if (base = 0 ∨ base = 16) ∧ hexPrefix text then 2 else 0

def signLength (text : List Char) : ℕ := if text.head? ∈ [some '+', some '-'] then 1 else 0

/-- The result, `end - text`, and whether `errno` is `ERANGE`. -/
structure Conversion where
  value : ℕ
  consumed : ℕ
  rangeError : Bool
  deriving DecidableEq

def negate (value : ℕ) : ℕ := (2 ^ 64 - value) % 2 ^ 64

def strtoull (text : List Char) (base : ℕ) : Conversion :=
  let space := text.takeWhile isSpace
  let signed := text.dropWhile isSpace
  let numeral := signed.drop (signLength signed)
  let digits := (numeral.drop (digitsStart base numeral)).takeWhile (isDigit (radix base numeral))
  let value := valueOf (radix base numeral) digits
  if digits = [] then ⟨0, 0, false⟩
  else ⟨if 2 ^ 64 ≤ value then 2 ^ 64 - 1 else if signed.head? = some '-' then negate value else value,
    space.length + signLength signed + digitsStart base numeral + digits.length, 2 ^ 64 ≤ value⟩

/-- A numeral with nothing behind it. -/
structure Numeral (base : ℕ) (text : List Char) (n : ℕ) : Prop where
  nonempty : text.drop (digitsStart base text) ≠ []
  digits : ∀ c ∈ text.drop (digitsStart base text), isDigit (radix base text) c
  value : n = valueOf (radix base text) (text.drop (digitsStart base text))

def Sign (text : List Char) : Prop := text = [] ∨ text = ['+'] ∨ text = ['-']

/-- White space, a sign and a numeral of value `n`. -/
def Dressed (base : ℕ) (text space sign : List Char) (n : ℕ) : Prop :=
  ∃ numeral, text = space ++ (sign ++ numeral) ∧ (∀ c ∈ space, isSpace c) ∧ Sign sign ∧
    Numeral base numeral n

def Conversion.Whole (c : Conversion) (text : List Char) : Prop :=
  c.consumed ≠ 0 ∧ c.consumed = text.length ∧ c.rangeError = false

example : strtoull " -0x1f;".toList 0 = ⟨2 ^ 64 - 31, 6, false⟩ := by decide +kernel
example : strtoull "0x".toList 0 = ⟨0, 1, false⟩ := by decide +kernel

section Characters

theorem digitValue_of_isSpace {c : Char} (h : isSpace c) : digitValue c = 36 := by
  simp only [isSpace, List.mem_cons, List.not_mem_nil, or_false, decide_eq_true_eq] at h
  rcases h with rfl | rfl | rfl | rfl | rfl | rfl <;> rfl

theorem digitValue_of_sign {c : Char} (h : some c ∈ [some '+', some '-']) : digitValue c = 36 := by
  simp only [List.mem_cons, Option.some.injEq, List.not_mem_nil, or_false] at h
  rcases h with rfl | rfl <;> rfl

theorem hexPrefix_length {text : List Char} (h : hexPrefix text) : 2 < text.length := by
  unfold hexPrefix at h
  split at h
  · simp only [List.length_cons]
    omega
  · cases h

theorem hexPrefix_head {text : List Char} (h : hexPrefix text) : text.head? = some '0' := by
  unfold hexPrefix at h
  split at h
  · rfl
  · cases h

theorem digitsStart_le (base : ℕ) (text : List Char) : digitsStart base text ≤ text.length := by
  rw [digitsStart]
  split
  · next h => exact Nat.le_of_lt (hexPrefix_length h.2)
  · exact Nat.zero_le _

theorem radix_le {base : ℕ} (small : base ≤ 36) (text : List Char) : radix base text ≤ 36 := by
  rw [radix]
  split_ifs <;> omega

/-- A numeral begins with a digit. -/
theorem Numeral.head {base n : ℕ} {text : List Char} (h : Numeral base text n) (small : base ≤ 36) :
    ∃ c, text.head? = some c ∧ digitValue c < 36 := by
  by_cases skipped : (base = 0 ∨ base = 16) ∧ hexPrefix text
  · exact ⟨'0', hexPrefix_head skipped.2, by decide⟩
  · have start : digitsStart base text = 0 := if_neg skipped
    cases text with
    | nil => exact absurd List.drop_nil h.nonempty
    | cons c text =>
        have digit := h.digits c (by rw [start]; exact List.mem_cons_self)
        exact ⟨c, rfl, Nat.lt_of_lt_of_le (of_decide_eq_true digit) (radix_le small _)⟩

end Characters

section Whole

variable {base n : ℕ} {text space sign : List Char}

theorem takeWhile_append_head {p : Char → Bool} {first later : List Char} (all : ∀ c ∈ first, p c)
    (stop : ∀ c, later.head? = some c → ¬ p c) :
    (first ++ later).takeWhile p = first ∧ (first ++ later).dropWhile p = later := by
  rw [List.takeWhile_append_of_pos all, List.dropWhile_append_of_pos all]
  cases later with
  | nil => exact ⟨List.append_nil first, rfl⟩
  | cons c later =>
      have no := stop c rfl
      rw [List.takeWhile_cons_of_neg no, List.dropWhile_cons_of_neg no, List.append_nil]
      exact ⟨rfl, rfl⟩

/-- What the conversion makes of white space, a sign and a numeral. -/
theorem strtoull_dressed (small : base ≤ 36) (h : Dressed base text space sign n) :
    strtoull text base = ⟨if 2 ^ 64 ≤ n then 2 ^ 64 - 1 else if sign = ['-'] then negate n else n,
      text.length, 2 ^ 64 ≤ n⟩ := by
  obtain ⟨numeral, rfl, spaces, signs, number⟩ := h
  obtain ⟨first, head, digit⟩ := number.head small
  have noSpace : ∀ c, (sign ++ numeral).head? = some c → ¬ isSpace c := by
    rintro c begins space
    have value := digitValue_of_isSpace space
    rcases signs with rfl | rfl | rfl
    · rw [List.nil_append, head] at begins
      cases begins
      omega
    · cases begins
      cases space
    · cases begins
      cases space
  obtain ⟨spaceWhile, rest⟩ := takeWhile_append_head spaces noSpace
  have noSign : signLength numeral = 0 := by
    rw [signLength, head]
    refine if_neg fun other => ?_
    have value := digitValue_of_sign other
    omega
  have signed : signLength (sign ++ numeral) = sign.length ∧
      ((sign ++ numeral).head? = some '-' ↔ sign = ['-']) := by
    rcases signs with rfl | rfl | rfl
    · refine ⟨noSign, ?_⟩
      rw [List.nil_append, head]
      constructor
      · rintro ⟨⟩
        exact absurd digit (by decide)
      · nofun
    · exact ⟨rfl, ⟨nofun, nofun⟩⟩
    · exact ⟨rfl, ⟨fun _ => rfl, fun _ => rfl⟩⟩
  have whole := List.takeWhile_eq_self_iff.mpr number.digits
  have lengths : (space ++ (sign ++ numeral)).length = space.length + sign.length +
      digitsStart base numeral + (numeral.drop (digitsStart base numeral)).length := by
    have start := digitsStart_le base numeral
    simp only [List.length_append, List.length_drop]
    omega
  simp only [strtoull, spaceWhile, rest, signed.1, List.drop_left, whole, if_neg number.nonempty,
    ← number.value, lengths, signed.2]

/-- The sign that a text begins with. -/
theorem split_sign (text : List Char) : ∃ sign, Sign sign ∧ signLength text = sign.length ∧
    text = sign ++ text.drop (signLength text) := by
  cases text with
  | nil => exact ⟨[], .inl rfl, rfl, rfl⟩
  | cons c text =>
      by_cases other : some c ∈ [some '+', some '-']
      · have length : signLength (c :: text) = 1 := if_pos other
        refine ⟨[c], ?_, length, by rw [length]; rfl⟩
        simpa [Sign] using other
      · have length : signLength (c :: text) = 0 := if_neg other
        exact ⟨[], .inl rfl, length, by rw [length]; rfl⟩

/-- A text that is taken as a whole is white space, a sign and a numeral. -/
theorem dressed_of_whole (h : (strtoull text base).Whole text) :
    ∃ space sign n, Dressed base text space sign n ∧ n < 2 ^ 64 := by
  obtain ⟨some_, all, inRange⟩ := h
  have parts : text.takeWhile isSpace ++ text.dropWhile isSpace = text :=
    List.takeWhile_append_dropWhile
  have spaces : ∀ c ∈ text.takeWhile isSpace, isSpace c := fun c hc => List.mem_takeWhile_imp hc
  simp only [strtoull] at some_ all inRange
  generalize text.takeWhile isSpace = space at *
  generalize text.dropWhile isSpace = signed at *
  obtain ⟨sign, signs, length, split⟩ := split_sign signed
  rw [length] at some_ all inRange split
  generalize signed.drop sign.length = numeral at *
  subst split parts
  have start := digitsStart_le base numeral
  by_cases none_ : (numeral.drop (digitsStart base numeral)).takeWhile
      (isDigit (radix base numeral)) = []
  · rw [if_pos none_] at some_
    exact absurd rfl some_
  · rw [if_neg none_] at all inRange
    have whole : (numeral.drop (digitsStart base numeral)).takeWhile (isDigit (radix base numeral)) =
        numeral.drop (digitsStart base numeral) := by
      refine (List.takeWhile_prefix _).eq_of_length ?_
      simp only [List.length_append, List.length_drop] at all ⊢
      omega
    rw [whole] at none_ inRange
    refine ⟨space, sign, _, ⟨numeral, rfl, spaces, signs, none_, ?_, rfl⟩, ?_⟩
    · exact List.takeWhile_eq_self_iff.mp whole
    · exact Nat.lt_of_not_le (of_decide_eq_false inRange)

theorem strtoull_consumed_le (text : List Char) (base : ℕ) :
    (strtoull text base).consumed ≤ text.length := by
  have parts : text.takeWhile isSpace ++ text.dropWhile isSpace = text :=
    List.takeWhile_append_dropWhile
  simp only [strtoull]
  generalize text.takeWhile isSpace = space at *
  generalize text.dropWhile isSpace = signed at *
  obtain ⟨sign, _, length, split⟩ := split_sign signed
  rw [length] at split ⊢
  generalize signed.drop sign.length = numeral at *
  subst split parts
  have start := digitsStart_le base numeral
  have digits := (List.takeWhile_prefix (isDigit (radix base numeral))
    (l := numeral.drop (digitsStart base numeral))).length_le
  by_cases none_ : (numeral.drop (digitsStart base numeral)).takeWhile
      (isDigit (radix base numeral)) = []
  · rw [if_pos none_]
    exact Nat.zero_le _
  · rw [if_neg none_]
    simp only [List.length_append, List.length_drop] at digits ⊢
    omega

/-- The texts that are taken as a whole, and their values. -/
theorem strtoull_whole_iff (small : base ≤ 36) {v : ℕ} :
    (strtoull text base).Whole text ∧ (strtoull text base).value = v ↔
      ∃ space sign n, Dressed base text space sign n ∧ n < 2 ^ 64 ∧
        v = if sign = ['-'] then negate n else n := by
  constructor
  · rintro ⟨whole, rfl⟩
    obtain ⟨space, sign, n, dressed, inRange⟩ := dressed_of_whole whole
    refine ⟨space, sign, n, dressed, inRange, ?_⟩
    rw [strtoull_dressed small dressed, if_neg (Nat.not_le_of_lt inRange)]
  · rintro ⟨space, sign, n, dressed, inRange, rfl⟩
    rw [Conversion.Whole, strtoull_dressed small dressed, if_neg (Nat.not_le_of_lt inRange)]
    refine ⟨⟨?_, rfl, decide_eq_false (Nat.not_le_of_lt inRange)⟩, rfl⟩
    obtain ⟨numeral, rfl, _, _, number⟩ := dressed
    obtain ⟨c, head, _⟩ := number.head small
    cases numeral with
    | nil => cases head
    | cons c numeral =>
        simp only [List.length_append, List.length_cons]
        omega

end Whole

section Grammar

variable {text : List Char} {n : ℕ}

def Decimal (text : List Char) (n : ℕ) : Prop :=
  text ≠ [] ∧ (∀ c ∈ text, '0' ≤ c ∧ c ≤ '9') ∧ n = valueOf 10 text

/-- The integer literals of C, without a suffix. -/
inductive IntegerLiteral : List Char → ℕ → Prop
  | decimal {c : Char} {text : List Char} (first : c ≠ '0') (digits : ∀ d ∈ c :: text, isDigit 10 d) :
      IntegerLiteral (c :: text) (valueOf 10 (c :: text))
  | octal {text : List Char} (digits : ∀ d ∈ text, isDigit 8 d) :
      IntegerLiteral ('0' :: text) (valueOf 8 text)
  | hexadecimal {x : Char} {text : List Char} (mark : x = 'x' ∨ x = 'X') (nonempty : text ≠ [])
      (digits : ∀ d ∈ text, isDigit 16 d) : IntegerLiteral ('0' :: x :: text) (valueOf 16 text)

theorem isDigit_ten (c : Char) : isDigit 10 c ↔ '0' ≤ c ∧ c ≤ '9' := by
  rw [isDigit, decide_eq_true_iff, digitValue]
  constructor
  · intro small
    by_contra no
    rw [if_neg no] at small
    split_ifs at small <;> omega
  · intro digit
    rw [if_pos digit]
    have high : c.toNat ≤ 57 := digit.2
    have zero : '0'.toNat = 48 := rfl
    omega

theorem numeral_ten_iff : Numeral 10 text n ↔ Decimal text n := by
  have start : digitsStart 10 text = 0 := if_neg fun h => absurd h.1 (by decide)
  have ten : radix 10 text = 10 := if_neg (by decide)
  constructor
  · rintro ⟨nonempty, digits, value⟩
    rw [start, List.drop_zero] at nonempty digits value
    rw [ten] at digits value
    exact ⟨nonempty, fun c hc => (isDigit_ten c).mp (digits c hc), value⟩
  · rintro ⟨nonempty, digits, value⟩
    constructor
    · rwa [start, List.drop_zero]
    · rw [start, List.drop_zero, ten]
      exact fun c hc => (isDigit_ten c).mpr (digits c hc)
    · rwa [start, List.drop_zero, ten]

theorem hexPrefix_iff : hexPrefix text ↔
    ∃ x c rest, text = '0' :: x :: c :: rest ∧ (x = 'x' ∨ x = 'X') ∧ isDigit 16 c := by
  constructor
  · intro h
    unfold hexPrefix at h
    split at h
    · next x c rest =>
        rw [Bool.and_eq_true, Bool.or_eq_true, beq_iff_eq, beq_iff_eq] at h
        exact ⟨x, c, rest, rfl, h⟩
    · cases h
  · rintro ⟨x, c, rest, rfl, mark, digit⟩
    rw [hexPrefix, digit, Bool.and_true, Bool.or_eq_true, beq_iff_eq, beq_iff_eq]
    exact mark

theorem numeral_zero_iff : Numeral 0 text n ↔ IntegerLiteral text n := by
  by_cases hex : hexPrefix text
  · have start : digitsStart 0 text = 2 := if_pos ⟨.inl rfl, hex⟩
    have sixteen : radix 0 text = 16 := by rw [radix, if_pos rfl, if_pos hex]
    constructor
    · rintro ⟨nonempty, digits, rfl⟩
      rw [start] at nonempty digits ⊢
      rw [sixteen] at digits ⊢
      obtain ⟨x, c, rest, rfl, mark, _⟩ := hexPrefix_iff.mp hex
      exact .hexadecimal mark nonempty digits
    · intro literal
      obtain ⟨x, c, rest, rfl, mark, digit⟩ := hexPrefix_iff.mp hex
      have noDigit : ¬ isDigit 8 x := by
        rcases mark with rfl | rfl <;> decide
      cases literal with
      | decimal first _ => exact absurd rfl first
      | octal digits => exact absurd (digits x List.mem_cons_self) noDigit
      | hexadecimal _ nonempty digits =>
          constructor
          · rwa [start]
          · rwa [start, sixteen]
          · rw [start, sixteen]
            rfl
  · have start : digitsStart 0 text = 0 := if_neg fun h => hex h.2
    have other : radix 0 text = if text.head? = some '0' then 8 else 10 := by
      rw [radix, if_pos rfl, if_neg hex]
    constructor
    · rintro ⟨nonempty, digits, rfl⟩
      rw [start, List.drop_zero] at nonempty digits ⊢
      cases text with
      | nil => exact absurd rfl nonempty
      | cons c text =>
          by_cases zero : c = '0'
          · subst zero
            have eight : radix 0 ('0' :: text) = 8 := other.trans (if_pos rfl)
            rw [eight] at digits ⊢
            exact .octal fun d hd => digits d (.tail _ hd)
          · have ten : radix 0 (c :: text) = 10 := other.trans (if_neg (by simpa using zero))
            rw [ten] at digits ⊢
            exact .decimal zero digits
    · intro literal
      cases literal with
      | @decimal c text first digits =>
          have ten : radix 0 (c :: text) = 10 := other.trans (if_neg (by simpa using first))
          constructor
          · rw [start]
            nofun
          · rwa [start, ten]
          · rw [start, ten, List.drop_zero]
      | @octal text digits =>
          have eight : radix 0 ('0' :: text) = 8 := other.trans (if_pos rfl)
          constructor
          · rw [start]
            nofun
          · rw [start, eight]
            intro d hd
            rcases List.mem_cons.mp hd with rfl | later
            · decide
            · exact digits d later
          · rw [start, eight]
            rfl
      | @hexadecimal x text mark nonempty digits =>
          cases text with
          | nil => exact absurd rfl nonempty
          | cons c text =>
              exact absurd (hexPrefix_iff.mpr ⟨x, c, text, rfl, mark, digits c List.mem_cons_self⟩) hex

end Grammar

end Numerals
