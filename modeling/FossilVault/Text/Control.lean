/-
**Control sequences.** A terminal takes a sequence that starts with an escape and an opening bracket for
an order, not for text. A message for the user goes without them; anything else stays as it is.

* `length_sequenceEnd_lt` — a sequence has characters, so taking sequences away comes to an end;
* `withoutSequences_plain` — a text without escapes is left alone.
-/

namespace FossilVault.Text

/-- The character that starts a control sequence. -/
def escape : Char := '\x1b'

/-- Tells whether a character can stand among the parameters of a sequence. -/
def isParameter (c : Char) : Bool := '0' ≤ c && c ≤ '?'

/-- Tells whether a character can stand between the parameters of a sequence and its end. -/
def isIntermediate (c : Char) : Bool := ' ' ≤ c && c ≤ '/'

/-- Tells whether a character ends a sequence. -/
def isFinal (c : Char) : Bool := '@' ≤ c && c ≤ '~'

/-- What follows the control sequence whose escape stands in front of a text. -/
def sequenceEnd : List Char → Option (List Char)
  | '[' :: text =>
    match (text.dropWhile isParameter).dropWhile isIntermediate with
    | c :: rest => if isFinal c then some rest else none
    | [] => none
  | _ => none

theorem length_sequenceEnd_lt {text rest : List Char} (found : sequenceEnd text = some rest) :
    rest.length < text.length := by
  unfold sequenceEnd at found
  split at found
  · rename_i text
    have shorter : ((text.dropWhile isParameter).dropWhile isIntermediate).length ≤ text.length :=
      Nat.le_trans (List.dropWhile_sublist _).length_le (List.dropWhile_sublist _).length_le
    split at found
    · rename_i c after same
      split at found
      · cases found
        rw [same] at shorter
        simp only [List.length_cons] at shorter ⊢
        omega
      · cases found
    · cases found
  · cases found

/-- The text without its control sequences, behind what was seen of it in reverse. -/
def plainChars (seen : List Char) : List Char → List Char
  | [] => seen.reverse
  | c :: text =>
    if c = escape then
      match _ended : sequenceEnd text with
      | some rest => plainChars seen rest
      | none => plainChars (c :: seen) text
    else plainChars (c :: seen) text
termination_by text => text.length
decreasing_by
  · have shorter := length_sequenceEnd_lt _ended
    simp only [List.length_cons]
    omega
  · simp
  · simp

/-- The text without its control sequences. -/
def withoutSequences (text : String) : String :=
  .ofList (plainChars [] text.toList)

theorem plainChars_plain {text : List Char} (plain : ∀ c ∈ text, c ≠ escape) (seen : List Char) :
    plainChars seen text = seen.reverse ++ text := by
  induction text generalizing seen with
  | nil => simp [plainChars]
  | cons c text ih =>
    have here : c ≠ escape := plain c (.head _)
    simp [plainChars, here, ih fun c among => plain c (.tail _ among)]

theorem withoutSequences_plain {text : String} (plain : ∀ c ∈ text.toList, c ≠ escape) :
    withoutSequences text = text := by
  rw [withoutSequences, plainChars_plain plain]
  simp

end FossilVault.Text
