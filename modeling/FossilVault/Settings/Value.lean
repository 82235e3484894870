import FossilVault.Number.Double
import FossilVault.Text.Basic
import FossilVault.Text.Quoted
/-
**Given values.** A setting may be given as a value of any shape: nothing, a truth value, a number, a
text, a list or a record. `display` is the text that a message shows for it: a text stands for itself,
and inside a list or a record it is quoted.

* `display_text` — a text is shown as it is.
-/

namespace FossilVault

/-- A value of any shape. -/
inductive Value
  | nothing
  | truth (flag : Bool)
  | whole (number : Int)
  | fraction (number : Float)
  | text (words : String)
  | list (items : List Value)
  | record (fields : List (String × Value))

namespace Value

mutual

/-- The text of a value inside another one. -/
def inner : Value → String
  | .nothing => "None"
  | .truth value => Text.flag value
  | .whole number => toString number
  | .fraction number => Number.shortest number
  | .text words => Text.quoted words
  | .list items => "[" ++ ", ".intercalate (innerAll items) ++ "]"
  | .record fields => "\x7b" ++ ", ".intercalate (innerFields fields) ++ "\x7d"

/-- The texts of the items of a list. -/
def innerAll : List Value → List String
  | [] => []
  | item :: rest => inner item :: innerAll rest

/-- The texts of the fields of a record. -/
def innerFields : List (String × Value) → List String
  | [] => []
  | (name, value) :: rest => (Text.quoted name ++ ": " ++ inner value) :: innerFields rest

end

/-- The text that a message shows for a value. -/
def display : Value → String
  | .text words => words
  | value => value.inner

@[simp] theorem display_text (words : String) : (Value.text words).display = words := rfl

end Value

end FossilVault
