/-
**Text by characters.** Names and paths are compared, cut and joined character by character, without
any normalisation. The cuts are stated on the character list, so what each keeps is read off the list:

* `beginsWith` and `endsWith` — the two affix tests;
* `skip` and `chop` — what stays without a number of leading or trailing characters;
* `trimEnd`, `strip` — what stays without the copies of one character at the end, or at both ends;
* `upTo` — the part before the first occurrence of one character, and `upTo_eq_iff` — which part that is;
* `toString_injective` — different numbers are written differently.
-/

namespace FossilVault.Text

/-- Tells whether `text` starts with `stem`. -/
def beginsWith (text stem : String) : Bool :=
  stem.toList.isPrefixOf text.toList

/-- Tells whether `text` stops with `ending`. -/
def endsWith (text ending : String) : Bool :=
  ending.toList.isSuffixOf text.toList

/-- The text without its first `count` characters. -/
def skip (count : Nat) (text : String) : String :=
  .ofList (text.toList.drop count)

/-- The text without its last `count` characters. -/
def chop (count : Nat) (text : String) : String :=
  .ofList (text.toList.take (text.toList.length - count))

/-- The text without the copies of `mark` at its end. -/
def trimEnd (mark : Char) (text : String) : String :=
  .ofList (text.toList.reverse.dropWhile (· == mark)).reverse

/-- The text without the copies of `mark` at its start and at its end. -/
def strip (mark : Char) (text : String) : String :=
  trimEnd mark (.ofList (text.toList.dropWhile (· == mark)))

/-- The text before the first `mark`, all of it when there is none. -/
def upTo (mark : Char) (text : String) : String :=
  .ofList (text.toList.takeWhile (· != mark))

/-- The text moved right in a field of `width` characters; a longer text is left alone. -/
def padLeft (width : Nat) (text : String) : String :=
  .ofList (List.replicate (width - text.toList.length) ' ') ++ text

/-- The word for a truth value. -/
def flag (value : Bool) : String :=
  if value then "True" else "False"

theorem beginsWith_iff {text stem : String} :
    beginsWith text stem = true ↔ ∃ rest, text = stem ++ rest := by
  rw [beginsWith, List.isPrefixOf_iff_prefix]
  constructor
  · rintro ⟨rest, same⟩
    exact ⟨.ofList rest, by rw [← String.toList_inj, String.toList_append, String.toList_ofList, same]⟩
  · rintro ⟨rest, rfl⟩
    exact ⟨rest.toList, by rw [String.toList_append]⟩

theorem endsWith_iff {text ending : String} :
    endsWith text ending = true ↔ ∃ start, text = start ++ ending := by
  rw [endsWith, List.isSuffixOf_iff_suffix]
  constructor
  · rintro ⟨start, same⟩
    exact ⟨.ofList start, by rw [← String.toList_inj, String.toList_append, String.toList_ofList, same]⟩
  · rintro ⟨start, rfl⟩
    exact ⟨start.toList, by rw [String.toList_append]⟩

theorem skip_append (stem rest : String) : skip stem.length (stem ++ rest) = rest := by
  rw [← String.toList_inj, skip, String.toList_ofList, String.toList_append, ← String.length_toList,
    List.drop_left]

theorem chop_append (start ending : String) : chop ending.length (start ++ ending) = start := by
  rw [← String.toList_inj, chop, String.toList_ofList, String.toList_append, List.length_append,
    ← String.length_toList, Nat.add_sub_cancel, List.take_left]

theorem append_right_inj {start rest rest' : String} : start ++ rest = start ++ rest' ↔ rest = rest' := by
  rw [← String.toList_inj, ← String.toList_inj, String.toList_append, String.toList_append,
    List.append_cancel_left_eq]

theorem toString_injective : Function.Injective (toString : Nat → String) := by
  intro first second same
  have digits : Nat.toDigits 10 first = Nat.toDigits 10 second := by
    rw [← Nat.toList_repr, ← Nat.toList_repr]
    exact congrArg String.toList same
  have value := congrArg (fun digits => Nat.ofDigitChars 10 digits 0) digits
  simpa [Nat.ofDigitChars_toDigits] using value

theorem append_left_inj {start start' ending : String} :
    start ++ ending = start' ++ ending ↔ start = start' := by
  rw [← String.toList_inj, ← String.toList_inj, String.toList_append, String.toList_append,
    List.append_cancel_right_eq]

/-- A common start does not matter for the order. -/
theorem append_lt_append_iff {start rest rest' : String} : start ++ rest < start ++ rest' ↔ rest < rest' := by
  rw [String.lt_iff, String.lt_iff, String.toList_append, String.toList_append]
  constructor
  · intro before
    refine Decidable.by_contra fun notBefore => ?_
    exact List.append_left_le (List.not_lt.mp notBefore) before
  · exact List.append_left_lt

/-- A text comes before every text that goes on after it. -/
theorem lt_append {text more : String} (goesOn : more ≠ "") : text < text ++ more := by
  have first : text ++ "" < text ++ more := by
    rw [append_lt_append_iff, String.lt_iff]
    cases cut : more.toList with
    | nil => exact absurd (String.toList_inj.mp cut) goesOn
    | cons c rest => exact List.nil_lt_cons c rest
  rwa [String.append_empty] at first

/-- A text that does not end with the mark is what stays without the marks put behind it. -/
theorem trimEnd_append_replicate {mark : Char} {text : String}
    (bare : endsWith text (.ofList [mark]) = false) (count : Nat) :
    trimEnd mark (text ++ .ofList (List.replicate count mark)) = text := by
  have kept : text.toList.reverse.dropWhile (· == mark) = text.toList.reverse := by
    cases reversed : text.toList.reverse with
    | nil => rfl
    | cons last rest =>
      have different : last ≠ mark := by
        rintro rfl
        have ends : endsWith text (.ofList [last]) = true := endsWith_iff.mpr
          ⟨.ofList rest.reverse, by
            rw [← String.toList_inj, String.toList_append, String.toList_ofList, String.toList_ofList,
              ← List.reverse_cons, ← reversed, List.reverse_reverse]⟩
        rw [ends] at bare
        cases bare
      exact List.dropWhile_cons_of_neg (by simpa using different)
  rw [trimEnd, String.toList_append, String.toList_ofList, List.reverse_append, List.reverse_replicate,
    List.dropWhile_append_of_pos (by simp), kept, List.reverse_reverse, String.ofList_toList]

/-- What stands before the first mark has none, and the text ends there or goes on with the mark. -/
theorem upTo_eq_iff {mark : Char} {text part : String} :
    upTo mark text = part ↔
      mark ∉ part.toList ∧ (text = part ∨ ∃ more, text = part ++ .ofList [mark] ++ more) := by
  constructor
  · rintro rfl
    have whole := List.takeWhile_append_dropWhile (p := (· != mark)) (l := text.toList)
    refine ⟨?_, ?_⟩
    · intro among
      rw [upTo, String.toList_ofList] at among
      simpa using List.all_eq_true.mp List.all_takeWhile mark among
    · cases behind : text.toList.dropWhile (· != mark) with
      | nil =>
        refine .inl ?_
        rw [behind, List.append_nil] at whole
        rw [upTo, whole, String.ofList_toList]
      | cons c more =>
        have first : c = mark := by
          have stops := List.head?_dropWhile_not (· != mark) text.toList
          rw [behind] at stops
          simpa using stops
        refine .inr ⟨.ofList more, ?_⟩
        rw [← String.toList_inj, ← whole, behind, first, upTo]
        simp
  · rintro ⟨unmarked, whole⟩
    have passes : ∀ c ∈ part.toList, (c != mark) = true := by
      intro c among
      exact bne_iff_ne.mpr fun same => unmarked (same ▸ among)
    rw [← String.toList_inj, upTo, String.toList_ofList]
    rcases whole with rfl | ⟨more, rfl⟩
    · have all : (text.toList ++ []).takeWhile (· != mark) = _ := List.takeWhile_append_of_pos passes
      simpa using all
    · rw [String.toList_append, String.toList_append, List.append_assoc,
        List.takeWhile_append_of_pos passes]
      simp

end FossilVault.Text
