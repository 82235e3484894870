/-
**Blank characters.** Two sets of characters count as blank. `isSpace` is the white-space property of
Unicode and is what surrounds a number; `isBlank` adds the four information separators and is what
surrounds a name in an environment file. The theorems place one inside the other and give the trims.

* `isBlank_of_isSpace` — every white-space character is blank;
* `trim` — a text without the blank characters at both its ends;
* `trim_of_forall` — that is the text itself if it has none.
-/

namespace FossilVault.Text

/-- Tells whether a character has the white-space property. -/
def isSpace (c : Char) : Bool :=
  let code := c.toNat
  (0x9 ≤ code && code ≤ 0xd) || code == 0x20 || code == 0x85 || code == 0xa0 || code == 0x1680 ||
    (0x2000 ≤ code && code ≤ 0x200a) || code == 0x2028 || code == 0x2029 || code == 0x202f ||
    code == 0x205f || code == 0x3000

/-- Tells whether a character is white space or one of the separators U+001C to U+001F. -/
def isBlank (c : Char) : Bool :=
  isSpace c || (0x1c ≤ c.toNat && c.toNat ≤ 0x1f)

theorem isBlank_of_isSpace {c : Char} (space : isSpace c = true) : isBlank c = true := by
  simp [isBlank, space]

/-- The characters from the first to the last that do not satisfy `blank`. -/
def trim (blank : Char → Bool) (text : List Char) : List Char :=
  ((text.dropWhile blank).reverse.dropWhile blank).reverse

/-- A text without blank characters is trimmed to itself. -/
theorem trim_of_forall {blank : Char → Bool} {text : List Char} (none : ∀ c ∈ text, blank c = false) :
    trim blank text = text := by
  have kept {text : List Char} (none : ∀ c ∈ text, blank c = false) : text.dropWhile blank = text := by
    cases text with
    | nil => rfl
    | cons c rest => exact List.dropWhile_cons_of_neg (by simp [none c (.head _)])
  rw [trim, kept none, kept fun c among => none c (List.mem_reverse.mp among), List.reverse_reverse]

end FossilVault.Text
