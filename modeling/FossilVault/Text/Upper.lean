/-
**Letter case in ASCII.** The upper-case form of a text as far as it can be written in ASCII letters.
Besides the twenty-six small letters a few characters outside ASCII have such a form: the dotless `ı`,
the long `ſ`, the sharp `ß` and the Latin ligatures. Every other character keeps a form outside ASCII,
so it is left as it stands: a text that contains one is never equal to an ASCII word.

* `upper_cons` — the form of a text is made character by character.
-/

namespace FossilVault.Text

/-- The upper-case form of one character. -/
def upperChar (c : Char) : List Char :=
  match c with
  | 'ı' => ['I']
  | 'ſ' => ['S']
  | 'ß' => ['S', 'S']
  | 'ﬀ' => ['F', 'F']
  | 'ﬁ' => ['F', 'I']
  | 'ﬂ' => ['F', 'L']
  | 'ﬃ' => ['F', 'F', 'I']
  | 'ﬄ' => ['F', 'F', 'L']
  | 'ﬅ' => ['S', 'T']
  | 'ﬆ' => ['S', 'T']
  | c => [c.toUpper]

/-- The upper-case form of a text. -/
def upper (text : String) : String :=
  .ofList (text.toList.flatMap upperChar)

theorem upper_cons (c : Char) (rest : List Char) :
    upper (.ofList (c :: rest)) = .ofList (upperChar c) ++ upper (.ofList rest) := by
  rw [← String.toList_inj]
  simp [upper, String.toList_append]

/-- The lower-case form of one character; outside ASCII only the Kelvin sign has an ASCII one. -/
def lowerChar (c : Char) : Char :=
  if c.toNat == 0x212a then 'k' else c.toLower

/-- The lower-case form of a text as far as it can be written in ASCII letters. -/
def lower (text : String) : String :=
  .ofList (text.toList.map lowerChar)

end FossilVault.Text
