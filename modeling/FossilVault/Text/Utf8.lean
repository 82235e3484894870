/-
**Bytes as text.** Characters are written in UTF-8. `decode` reads bytes that are written characters and
tells where others go wrong. `ofBytes` shows any bytes: every longest start of a character that breaks off
stands as one replacement character, and so does every byte that starts none.

* `length_nextChar_le` — reading a character never gives bytes back, so reading comes to an end;
* `ofBytes_of_decode` — bytes that can be read show what is read.
-/

namespace FossilVault.Text

/-- Why bytes are no written character. -/
inductive Flaw
  | invalidStart | invalidContinuation | unexpectedEnd
  deriving DecidableEq, Repr

/-- The text of a flaw. -/
def Flaw.message : Flaw → String
  | .invalidStart => "invalid start byte"
  | .invalidContinuation => "invalid continuation byte"
  | .unexpectedEnd => "unexpected end of data"

/-- The first byte of a character of several bytes: the bits it gives, how many bytes follow, and the
range of the second one. -/
structure Lead where
  bits : Nat
  count : Nat
  low : UInt8 := 0x80
  high : UInt8 := 0xBF
  deriving DecidableEq, Repr

/-- What a first byte announces. The ranges leave out overlong forms, surrogates, and everything beyond
the last character. -/
def Lead.ofByte (byte : UInt8) : Option Lead :=
  let code := byte.toNat
  if 0xC2 ≤ code ∧ code ≤ 0xDF then some { bits := code - 0xC0, count := 1 }
  else if code = 0xE0 then some { bits := 0, count := 2, low := 0xA0 }
  else if code = 0xED then some { bits := 0xD, count := 2, high := 0x9F }
  else if 0xE1 ≤ code ∧ code ≤ 0xEF then some { bits := code - 0xE0, count := 2 }
  else if code = 0xF0 then some { bits := 0, count := 3, low := 0x90 }
  else if 0xF1 ≤ code ∧ code ≤ 0xF3 then some { bits := code - 0xF0, count := 3 }
  else if code = 0xF4 then some { bits := 4, count := 3, high := 0x8F }
  else none

/-- Reads the `count` bytes that follow, the first of them between `low` and `high`, as long as they fit. -/
def follow (bits : Nat) (low high : UInt8) : Nat → List UInt8 → Except Flaw Char × List UInt8
  | 0, rest => (.ok (Char.ofNat bits), rest)
  | _ + 1, [] => (.error .unexpectedEnd, [])
  | count + 1, byte :: rest =>
    if low ≤ byte ∧ byte ≤ high then follow (bits * 64 + (byte.toNat - 0x80)) 0x80 0xBF count rest
    else (.error .invalidContinuation, byte :: rest)

theorem length_follow_le (bits : Nat) (low high : UInt8) (count : Nat) (bytes : List UInt8) :
    (follow bits low high count bytes).2.length ≤ bytes.length := by
  induction count generalizing bits low high bytes with
  | zero => exact Nat.le_refl _
  | succ count ih =>
    cases bytes with
    | nil => exact Nat.le_refl _
    | cons byte rest =>
      unfold follow
      split
      · exact Nat.le_succ_of_le (ih _ _ _ rest)
      · exact Nat.le_refl _

/-- Reads one character, or as much of it as there is. -/
def nextChar (first : UInt8) (rest : List UInt8) : Except Flaw Char × List UInt8 :=
  if first < 0x80 then (.ok (Char.ofNat first.toNat), rest)
  else
    match Lead.ofByte first with
    | none => (.error .invalidStart, rest)
    | some lead => follow lead.bits lead.low lead.high lead.count rest

theorem length_nextChar_le (first : UInt8) (rest : List UInt8) :
    (nextChar first rest).2.length ≤ rest.length := by
  unfold nextChar
  split
  · exact Nat.le_refl _
  · split
    · exact Nat.le_refl _
    · exact length_follow_le _ _ _ _ _

/-! ### Showing bytes -/

/-- The character that stands for what is no character. -/
def replacement : Char := Char.ofNat 0xFFFD

/-- The characters of bytes, behind those already read, the latest of which stands first. -/
def charsOf (seen : List Char) : List UInt8 → List Char
  | [] => seen.reverse
  | first :: rest =>
    charsOf ((nextChar first rest).1.toOption.getD replacement :: seen) (nextChar first rest).2
termination_by bytes => bytes.length
decreasing_by
  have shorter := length_nextChar_le first rest
  simp only [List.length_cons]
  omega

/-- The text that bytes show. -/
def ofBytes (bytes : List UInt8) : String :=
  .ofList (charsOf [] bytes)

/-! ### Reading bytes -/

/-- Bytes that are no written character: the place of the first, the byte that stands there, how many of
them belong together, and what is wrong. -/
structure Malformed where
  start : Nat
  first : UInt8
  width : Nat
  flaw : Flaw
  deriving DecidableEq, Repr

/-- The text of what is wrong with bytes. -/
def Malformed.message (malformed : Malformed) : String :=
  let place := if malformed.width = 1 then
      "byte 0x" ++ .ofList (Nat.toDigits 16 malformed.first.toNat) ++ " in position " ++
        toString malformed.start
    else
      "bytes in position " ++ toString malformed.start ++ "-" ++
        toString (malformed.start + malformed.width - 1)
  place ++ ": " ++ malformed.flaw.message

/-- Reads characters, behind those already read, the latest of which stands first. Where it goes wrong the
bytes from there on are left, and those behind the flaw. -/
def charsIn (seen : List Char) :
    List UInt8 → Except (UInt8 × List UInt8 × List UInt8 × Flaw) (List Char)
  | [] => .ok seen.reverse
  | first :: rest =>
    match (nextChar first rest).1 with
    | .ok c => charsIn (c :: seen) (nextChar first rest).2
    | .error flaw => .error (first, rest, (nextChar first rest).2, flaw)
termination_by bytes => bytes.length
decreasing_by
  have shorter := length_nextChar_le first rest
  simp only [List.length_cons]
  omega

/-- The text that bytes are written for. -/
def decode (bytes : List UInt8) : Except Malformed String :=
  match charsIn [] bytes with
  | .ok chars => .ok (.ofList chars)
  | .error (first, rest, behind, flaw) =>
    .error ⟨bytes.length - (rest.length + 1), first, rest.length + 1 - behind.length, flaw⟩

theorem charsOf_of_charsIn {seen : List Char} {bytes : List UInt8} {chars : List Char}
    (read : charsIn seen bytes = .ok chars) : charsOf seen bytes = chars := by
  fun_induction charsIn seen bytes with
  | case1 seen =>
    cases read
    rw [charsOf]
  | case2 seen first rest c found ih =>
    rw [charsOf, found]
    exact ih read
  | case3 => cases read

theorem ofBytes_of_decode {bytes : List UInt8} {text : String} (read : decode bytes = .ok text) :
    ofBytes bytes = text := by
  unfold decode at read
  split at read
  · rename_i chars found
    cases read
    rw [ofBytes, charsOf_of_charsIn found]
  · cases read

end FossilVault.Text
