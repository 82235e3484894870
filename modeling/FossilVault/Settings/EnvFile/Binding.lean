import FossilVault.Text.Blank
/-
**Bindings of an environment file.** A text with one binding a line: a name, an equals sign and a value.
Blank lines and comments are skipped, `export` may stand in front, a name without an equals sign has no
value, and a line that follows none of the forms is skipped as a whole. A value in single quotes knows
two escapes, one in double quotes the usual ones, and any other ends at its line or at a comment.

* `EnvFile.bindings` — the bindings of a text, in order;
* `quotedValue_plain` — a quoted text without quotes and backslashes stands for itself;
* `beforeComment_plain` — a text without number signs holds no comment.
-/

namespace FossilVault.EnvFile

/-! ### Pieces of a line -/

/-- Tells whether a character ends a line. -/
def isBreak (c : Char) : Bool := c == '\n' || c == '\r'

/-- Tells whether a character is blank within a line. -/
def isGap (c : Char) : Bool := Text.isBlank c && !isBreak c

/-- The text, behind what was seen of it in reverse, with every line ended by a line feed. -/
def unifyLines (seen : List Char) : List Char → List Char
  | '\r' :: '\n' :: rest => unifyLines ('\n' :: seen) rest
  | '\r' :: rest => unifyLines ('\n' :: seen) rest
  | c :: rest => unifyLines (c :: seen) rest
  | [] => seen.reverse

/-- The text without a byte order mark in front. -/
def withoutMark : List Char → List Char
  | '\uFEFF' :: rest => rest
  | text => text

/-- What follows the present line. -/
def skipLine (text : List Char) : List Char :=
  (text.dropWhile (!isBreak ·)).drop 1

/-- What follows the end of a line, when nothing but blanks and a comment stands before it. -/
def lineEnd (text : List Char) : Option (List Char) :=
  let text := text.dropWhile isGap
  let text := if text.head? == some '#' then text.dropWhile (!isBreak ·) else text
  match text with
  | [] => some []
  | c :: rest => if isBreak c then some rest else none

/-- What follows an `export` and the blanks behind it; the whole text without one. -/
def skipExport (text : List Char) : List Char :=
  if "export".toList.isPrefixOf text then
    let rest := text.drop 6
    if (rest.head?.map isGap).getD false then rest.dropWhile isGap else text
  else text

/-! ### Values -/

/-- The character that an escape in double quotes stands for. -/
def doubleEscape : Char → Option Char
  | '\\' => some '\\'
  | '\'' => some '\''
  | '"' => some '"'
  | 'a' => some '\x07'
  | 'b' => some '\x08'
  | 'f' => some '\x0c'
  | 'n' => some '\n'
  | 'r' => some '\r'
  | 't' => some '\t'
  | 'v' => some '\x0b'
  | _ => none

/-- The character that an escape in single quotes stands for. -/
def singleEscape : Char → Option Char
  | '\\' => some '\\'
  | '\'' => some '\''
  | _ => none

/-- The value up to the closing quote, behind what was seen of it in reverse, and what follows the quote.
A backslash and the character behind it stay together: an escape is replaced, anything else is kept. -/
def quotedValue (quote : Char) (escape : Char → Option Char) (seen : List Char) :
    List Char → Option (List Char × List Char)
  | [] => none
  | '\\' :: c :: rest =>
    match escape c with
    | some meant => quotedValue quote escape (meant :: seen) rest
    | none => quotedValue quote escape (c :: '\\' :: seen) rest
  | c :: rest =>
    if c = quote then some (seen.reverse, rest) else quotedValue quote escape (c :: seen) rest

/-- What stands before the first comment, behind what was seen of it, all in reverse. A comment is a
number sign with a blank in front. -/
def beforeComment (seen : List Char) : List Char → List Char
  | [] => seen
  | c :: rest =>
    if c == '#' && (seen.head?.map Text.isBlank).getD false then seen
    else beforeComment (c :: seen) rest

/-- The value of a line without quotes: what stands before a comment, without the blanks around it. -/
def plainValue (line : List Char) : List Char :=
  Text.trim Text.isBlank (beforeComment [] line).reverse

/-- The value behind an equals sign and what follows it. -/
def valueAt (text : List Char) : Option (List Char × List Char) :=
  match text.dropWhile isGap with
  | '\'' :: rest => quotedValue '\'' singleEscape [] rest
  | '"' :: rest => quotedValue '"' doubleEscape [] rest
  | _ => some (plainValue (text.takeWhile (!isBreak ·)), text.dropWhile (!isBreak ·))

/-! ### Bindings -/

/-- The name at the start of a text and what follows it: nothing for a comment, in single quotes or up
to a blank, an equals sign or a number sign. The outer option is empty when there is no name. -/
def nameAt : List Char → Option (Option (List Char) × List Char)
  | '#' :: rest => some (none, '#' :: rest)
  | '\'' :: rest =>
    let name := rest.takeWhile (· != '\'')
    match rest.dropWhile (· != '\'') with
    | _ :: after => if name.isEmpty then none else some (some name, after)
    | [] => none
  | text =>
    let ends := fun c => c == '=' || c == '#' || Text.isBlank c
    let name := text.takeWhile (!ends ·)
    if name.isEmpty then none else some (some name, text.dropWhile (!ends ·))

/-- The value behind a name, if there is an equals sign. -/
def assigned (text : List Char) : Option (Option (List Char) × List Char) :=
  match text.dropWhile isGap with
  | '=' :: rest => (valueAt rest).map fun found => (some found.1, found.2)
  | text => some (none, text)

/-- A name with its value, if it has one. -/
structure Binding where
  name : List Char
  value : Option (List Char)
  deriving DecidableEq, Repr

/-- The binding at the start of a text that starts with no blank, if the line holds one, and what follows
the line. A line of another form is skipped from the place where it goes wrong. -/
def bindingAt (text : List Char) : Option Binding × List Char :=
  let text := skipExport text
  match nameAt text with
  | none => (none, skipLine text)
  | some (name, afterName) =>
    match assigned afterName with
    | none => (none, skipLine afterName)
    | some (value, afterValue) =>
      match lineEnd afterValue with
      | none => (none, skipLine afterValue)
      | some rest => (name.map (⟨·, value⟩), rest)

/-- The bindings of a text in at most `lines` steps, behind those already seen, the latest first. -/
def bindingsIn (seen : List Binding) : Nat → List Char → List Binding
  | 0, _ => seen.reverse
  | lines + 1, text =>
    match text.dropWhile Text.isBlank with
    | [] => seen.reverse
    | text =>
      let found := bindingAt text
      bindingsIn (found.1.toList ++ seen) lines found.2

/-- The bindings of a text, in order. Every step leaves a shorter text, so there are no more steps than
characters. -/
def bindings (text : String) : List Binding :=
  let text := unifyLines [] (withoutMark text.toList)
  bindingsIn [] text.length text

/-! ### Plain texts -/

theorem quotedValue_plain (quote : Char) (escape : Char → Option Char) {body : List Char}
    (plain : ∀ c ∈ body, c ≠ quote ∧ c ≠ '\\') (other : quote ≠ '\\') (seen rest : List Char) :
    quotedValue quote escape seen (body ++ quote :: rest) = some (seen.reverse ++ body, rest) := by
  induction body generalizing seen with
  | nil =>
    unfold quotedValue
    split
    · simp_all
    · simp_all
    · rename_i same
      cases same
      simp
  | cons c body ih =>
    have here := plain c (.head _)
    have later := ih (fun c among => plain c (.tail _ among)) (c :: seen)
    unfold quotedValue
    split
    · simp_all
    · simp_all
    · rename_i same
      cases same
      simp [here.1, later]

theorem beforeComment_plain {line : List Char} (plain : ∀ c ∈ line, c ≠ '#') (seen : List Char) :
    beforeComment seen line = line.reverse ++ seen := by
  induction line generalizing seen with
  | nil => rfl
  | cons c line ih =>
    have here : c ≠ '#' := plain c (.head _)
    simp [beforeComment, here, ih fun c among => plain c (.tail _ among)]

end FossilVault.EnvFile
