/-
**Places.** A path leads from the working directory, or from the root, by one name after another to a
place. What stands there is told by a `Look`: a path can be followed only through folders, so the first
thing on the way that is none stops it.

* `resolve` — the place that a path leads to, or the obstacle on the way;
* `resolve_name` — a short name without slashes leads to the place of that name.
-/

namespace FossilVault

/-- Why a path leads to no file. -/
inductive Obstacle
  | missing | isDirectory | notDirectory | tooLong
  deriving DecidableEq, Repr

/-- The text of an obstacle. -/
def Obstacle.message : Obstacle → String
  | .missing => "No such file or directory"
  | .isDirectory => "Is a directory"
  | .notDirectory => "Not a directory"
  | .tooLong => "File name too long"

/-- What can stand at a place. -/
inductive Standing
  | nothing | folder | file
  deriving DecidableEq, Repr

/-- The names that lead to a place, the latest first, from the root or from the working directory. -/
structure Place where
  rooted : Bool
  names : List String
  deriving DecidableEq, Repr

/-- What stands at every place. -/
abbrev Look := Place → Standing

namespace Place

/-- The place of the working directory. -/
def here : Place := ⟨false, []⟩

/-- The place of a name. -/
def child (name : String) (place : Place) : Place :=
  { place with names := name :: place.names }

/-- The place above; the root has none above it. -/
def above (place : Place) : Place :=
  match place.names with
  | [] => if place.rooted then place else place.child ".."
  | last :: rest => if last == ".." then place.child ".." else { place with names := rest }

/-- The name of a place in the working directory. -/
def name? (place : Place) : Option String :=
  match place with
  | ⟨false, [name]⟩ => if name == ".." then none else some name
  | _ => none

/-- A name has no more bytes than this. -/
def nameLimit : Nat := 255

/-- A path has fewer bytes than this. -/
def pathLimit : Nat := 4096

/-- The part before the first slash, behind what was seen of it in reverse, and the parts behind. -/
def parts (seen : List Char) : List Char → List String
  | [] => [.ofList seen.reverse]
  | c :: rest => if c = '/' then .ofList seen.reverse :: parts [] rest else parts (c :: seen) rest

/-- Goes into a part of a path, which has to be a folder. -/
def enter (look : Look) (place : Place) (part : String) : Except Obstacle Place :=
  if part = "." then .ok place
  else if part = ".." then .ok place.above
  else if nameLimit < part.utf8ByteSize then .error .tooLong
  else
    match look (place.child part) with
    | .folder => .ok (place.child part)
    | .file => .error .notDirectory
    | .nothing => .error .missing

/-- Comes to the last part of a path, which has to be no folder; `ended` tells that a slash follows. -/
def arrive (look : Look) (ended : Bool) (place : Place) (part : String) : Except Obstacle Place :=
  if part = "." ∨ part = ".." ∨ ended = true then .error .isDirectory
  else if nameLimit < part.utf8ByteSize then .error .tooLong
  else if look (place.child part) = .folder then .error .isDirectory
  else .ok (place.child part)

/-- The place that a path leads to, or the obstacle on the way. Empty parts lead nowhere. -/
def resolve (look : Look) (path : String) : Except Obstacle Place :=
  if path.isEmpty then .error .missing
  else if pathLimit ≤ path.utf8ByteSize then .error .tooLong
  else
    let all := parts [] path.toList
    let start : Place := ⟨all.head? == some "", []⟩
    match (all.filter (!·.isEmpty)).reverse with
    | [] => .error .isDirectory
    | last :: before => do
      let folder ← before.reverse.foldlM (enter look) start
      arrive look (all.getLast? == some "") folder last

theorem parts_plain {text : List Char} (plain : ∀ c ∈ text, c ≠ '/') (seen : List Char) :
    parts seen text = [.ofList (seen.reverse ++ text)] := by
  induction text generalizing seen with
  | nil => simp [parts]
  | cons c text ih =>
    have here : c ≠ '/' := plain c (.head _)
    simp [parts, here, ih fun c among => plain c (.tail _ among)]

theorem resolve_name {look : Look} {name : String} (plain : ∀ c ∈ name.toList, c ≠ '/')
    (named : name ≠ "" ∧ name ≠ "." ∧ name ≠ "..") (short : name.utf8ByteSize ≤ nameLimit)
    (free : look (here.child name) ≠ .folder) : resolve look name = .ok (here.child name) := by
  have whole : parts [] name.toList = [name] := by simp [parts_plain plain]
  have fits : ¬ pathLimit ≤ name.utf8ByteSize := by
    have low : nameLimit < pathLimit := by decide
    omega
  have filled : name.isEmpty = false := by simp [named.1]
  have start : (⟨name == "", []⟩ : Place) = here := by simp [here, named.1]
  have fitting : ¬ nameLimit < name.utf8ByteSize := by omega
  simp only [resolve, filled, fits, whole, Bool.false_eq_true, if_false]
  simp [named, filled, arrive, start, free, fitting, pure, Except.pure, bind, Except.bind]

end Place

end FossilVault
