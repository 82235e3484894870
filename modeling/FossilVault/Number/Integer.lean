import FossilVault.Text.Blank
/-
**Written integers.** An integer may be written with space around it, a sign, zeros in front, single
underscores between its digits, and a point with zeros behind. Its digits may be up to 4300, the zeros in
front not counted. The zeros in front may have underscores among them, and may have a minus behind.

* `parseInteger` — the integer of a text, or why there is none;
* `withoutMarks_of_digits`, `withoutPlaces_of_digits`, `withoutZeros_of_digits` — each step of reading
  leaves plain digits alone;
* `readInteger_of_digits`, `parseInteger_toString` — so a number is read back from its decimal digits.
-/

namespace FossilVault.Number

/-- Why a text is no integer. -/
inductive WrittenError
  | malformed | oversized
  deriving DecidableEq, Repr

/-- The most digits of a written integer. -/
def writtenLimit : Nat := 4300

/-- The value of digits, after those that made `before`. -/
def valueOf (before : Nat) : List Char → Nat
  | [] => before
  | digit :: rest => valueOf (10 * before + (digit.toNat - '0'.toNat)) rest

/-! ### Steps of reading -/

/-- Tells whether a character is a digit other than zero. -/
def isLeading (c : Char) : Bool := c.isDigit && c != '0'

/-- What a text has behind more zeros and underscores, of which `last` came last: all from the first
other digit or minus, from the zero before a point, or the last of them alone. -/
def behindZeros (last : Char) : List Char → Option (List Char)
  | [] => some [last]
  | c :: rest =>
    if c == '0' || c == '_' then behindZeros c rest
    else if isLeading c || c == '-' then some (c :: rest)
    else if c == '.' then some (last :: c :: rest)
    else none

/-- The text without the zeros in front; nothing when it starts as no integer does. -/
def withoutZeros : List Char → Option (List Char)
  | [] => none
  | c :: rest =>
    if c == '0' then behindZeros c rest
    else if isLeading c || c == '-' then some (c :: rest)
    else none

/-- The part before a point, if behind it there are zeros and nothing else. -/
def withoutPlaces (text : List Char) : Option (List Char) :=
  match text.dropWhile (· != '.') with
  | [] => some text
  | _ :: places =>
    if !places.isEmpty && places.all (· == '0') then some (text.takeWhile (· != '.')) else none

/-- The text without its underscores, if each stands alone and between other characters. -/
def withoutMarks (text : List Char) : Option (List Char) :=
  let doubled := (text.zip (text.drop 1)).any fun pair => pair.1 == '_' && pair.2 == '_'
  if text.head? == some '_' || text.getLast? == some '_' || doubled then none
  else some (text.filter (· != '_'))

/-- Tells whether a text is made of digits, not too many, with no zero in front of another. -/
def isPlain (text : List Char) : Bool :=
  text.all Char.isDigit && text.length ≤ writtenLimit &&
    ((text.head?.map isLeading).getD false || text == ['0'])

/-- The integer of a text without space, zeros in front, places and underscores. -/
def plainInteger (negative : Bool) (text : List Char) : Option Int :=
  match text with
  | '-' :: digits => if isPlain digits && !negative then some (-(valueOf 0 digits : Int)) else none
  | digits =>
    if isPlain digits then some (if negative then -(valueOf 0 digits : Int) else valueOf 0 digits)
    else none

/-- The sign of a text, taken off it; nothing when a minus stands behind a plus. -/
def splitSign : List Char → Option (Bool × List Char)
  | '+' :: '-' :: _ => none
  | '+' :: rest => some (false, rest)
  | '-' :: rest => some (true, rest)
  | rest => some (false, rest)

/-! ### Reading -/

/-- Tells whether a text starts with more digits than a written integer may have, the first of them not a
zero and at most a minus before it. -/
def isOversized (text : List Char) : Bool :=
  let digits := match text with
    | '-' :: rest => rest
    | rest => rest
  (digits.head?.map isLeading).getD false && writtenLimit < (digits.takeWhile Char.isDigit).length

/-- The integer of a text in any of the forms that it may be written in. -/
def readInteger (text : List Char) : Option Int := do
  let (negative, unsigned) ← splitSign (Text.trim Text.isSpace text)
  plainInteger negative (← withoutMarks (← withoutPlaces (← withoutZeros unsigned)))

/-- Reads an integer. -/
def parseInteger (text : String) : Except WrittenError Int :=
  if isOversized text.toList then .error .oversized
  else
    match readInteger text.toList with
    | some integer => .ok integer
    | none => .error .malformed

/-! ### Plain digits -/

theorem ne_of_isDigit {c mark : Char} (digit : c.isDigit = true) (other : mark.isDigit = false) :
    c ≠ mark := by
  rintro rfl
  simp [digit] at other

theorem withoutZeros_of_digits {first : Char} (leading : isLeading first = true) (rest : List Char) :
    withoutZeros (first :: rest) = some (first :: rest) := by
  have nonzero : first ≠ '0' := by
    rintro rfl
    exact absurd leading (by decide)
  simp [withoutZeros, nonzero, leading]

theorem withoutPlaces_of_digits {digits : List Char} (all_digits : ∀ c ∈ digits, c.isDigit = true) :
    withoutPlaces digits = some digits := by
  have none_left : digits.dropWhile (· != '.') = [] := by
    induction digits with
    | nil => rfl
    | cons c rest ih =>
      have here : c ≠ '.' := ne_of_isDigit (all_digits c (.head _)) (by decide)
      simpa [List.dropWhile_cons, here] using ih fun c among => all_digits c (.tail _ among)
  simp [withoutPlaces, none_left]

theorem withoutMarks_of_digits {digits : List Char} (all_digits : ∀ c ∈ digits, c.isDigit = true) :
    withoutMarks digits = some digits := by
  have plain : ∀ c ∈ digits, c ≠ '_' := fun c among => ne_of_isDigit (all_digits c among) (by decide)
  have first : digits.head? ≠ some '_' := fun same => plain '_' (List.mem_of_head? same) rfl
  have last : digits.getLast? ≠ some '_' := fun same => plain '_' (List.mem_of_getLast? same) rfl
  have single : ('_', '_') ∉ digits.zip digits.tail := fun among =>
    plain '_' (List.of_mem_zip among).1 rfl
  have kept : digits.filter (· != '_') = digits :=
    List.filter_eq_self.mpr fun c among => bne_iff_ne.mpr (plain c among)
  simp [withoutMarks, first, last, single, kept]

theorem isSpace_of_isDigit {c : Char} (digit : c.isDigit = true) : Text.isSpace c = false := by
  obtain ⟨low, high⟩ : 48 ≤ c.toNat ∧ c.toNat ≤ 57 := Char.isDigit_iff_toNat.mp digit
  simp only [Text.isSpace, Bool.or_eq_false_iff, Bool.and_eq_false_iff, decide_eq_false_iff_not,
    beq_eq_false_iff_ne]
  omega

theorem valueOf_eq (before : Nat) (digits : List Char) :
    valueOf before digits = Nat.ofDigitChars 10 digits before := by
  induction digits generalizing before with
  | nil => rfl
  | cons digit rest ih => exact ih _

/-- A number other than zero is written without a zero in front. -/
theorem isLeading_head_toDigits {number : Nat} (positive : 0 < number) :
    ∃ first rest, Nat.toDigits 10 number = first :: rest ∧ isLeading first = true := by
  induction number using Nat.strongRecOn with
  | ind number ih =>
    by_cases small : number < 10
    · refine ⟨number.digitChar, [], Nat.toDigits_of_lt_base small, ?_⟩
      match number, small, positive with
      | 1, _, _ | 2, _, _ | 3, _, _ | 4, _, _ | 5, _, _ | 6, _, _ | 7, _, _ | 8, _, _ | 9, _, _ => decide
    · obtain ⟨first, rest, written, leading⟩ := ih (number / 10) (by omega) (by omega)
      rw [Nat.toDigits_of_base_le (by decide) (by omega), written]
      exact ⟨first, rest ++ _, rfl, leading⟩

/-- **Plain digits are read as the integer that they write**, if they are not too many. -/
theorem readInteger_of_digits {first : Char} {rest : List Char} (leading : isLeading first = true)
    (digits : ∀ c ∈ first :: rest, c.isDigit = true) (few : (first :: rest).length ≤ writtenLimit) :
    readInteger (first :: rest) = some (Nat.ofDigitChars 10 (first :: rest) 0 : Int) := by
  have plus : first ≠ '+' := ne_of_isDigit (digits first (.head _)) (by decide)
  have minus : first ≠ '-' := ne_of_isDigit (digits first (.head _)) (by decide)
  have unsigned : splitSign (first :: rest) = some (false, first :: rest) := by
    unfold splitSign
    split
    · rename_i same
      exact absurd (List.cons.inj same).1 plus
    · rename_i same
      exact absurd (List.cons.inj same).1 plus
    · rename_i same
      exact absurd (List.cons.inj same).1 minus
    · rfl
  have plain : isPlain (first :: rest) = true := by
    simp only [isPlain, Bool.and_eq_true, List.all_eq_true, decide_eq_true_eq, Bool.or_eq_true]
    exact ⟨⟨digits, few⟩, .inl leading⟩
  have read : plainInteger false (first :: rest) = some (valueOf 0 (first :: rest) : Int) := by
    unfold plainInteger
    split
    · rename_i same
      exact absurd (List.cons.inj same).1 minus
    · rw [if_pos plain]
      rfl
  rw [readInteger, Text.trim_of_forall fun c among => isSpace_of_isDigit (digits c among), unsigned]
  simp only [Option.bind_eq_bind, Option.bind_some, withoutZeros_of_digits leading,
    withoutPlaces_of_digits digits, withoutMarks_of_digits digits, read, valueOf_eq]

/-- **A number is read back from its decimal digits**, if they are not too many. -/
theorem parseInteger_toString {number : Nat} (few : (Nat.toDigits 10 number).length ≤ writtenLimit) :
    parseInteger (toString number) = .ok number := by
  rcases Nat.eq_zero_or_pos number with rfl | positive
  · rfl
  · have value : Nat.ofDigitChars 10 (Nat.toDigits 10 number) 0 = number :=
      Nat.ofDigitChars_toDigits (by decide) (by decide)
    have digits : ∀ c ∈ Nat.toDigits 10 number, c.isDigit = true := fun _ =>
      Nat.isDigit_of_mem_toDigits (by decide) (by decide)
    obtain ⟨first, rest, written, leading⟩ := isLeading_head_toDigits positive
    have text : (toString number).toList = first :: rest := Nat.toList_repr.trans written
    rw [written] at few digits value
    have minus : first ≠ '-' := ne_of_isDigit (digits first (.head _)) (by decide)
    have small : isOversized (first :: rest) = false := by
      have short := (List.takeWhile_sublist (p := Char.isDigit) (l := first :: rest)).length_le
      unfold isOversized
      split
      · rename_i same
        exact absurd (List.cons.inj same).1 minus
      · exact Bool.and_eq_false_iff.mpr (.inr (decide_eq_false (Nat.not_lt.mpr (Nat.le_trans short few))))
    rw [parseInteger, text, small, readInteger_of_digits leading digits few, value]
    rfl

end FossilVault.Number
