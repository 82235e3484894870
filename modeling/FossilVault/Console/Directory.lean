import FossilVault.Console.Place
import FossilVault.Session
/-
**The working directory.** The plain files that a command finds next to it; there are no folders inside.
Around it stand the folders above, those that every system has, and the file that swallows all.

* `Directory.content_write` — what a write does to the content of each file;
* `Directory.target` — where a download to a path goes: nothing is touched before the first piece comes.
-/

namespace FossilVault

/-- The plain files of a directory. -/
structure Directory where
  files : List (String × Bytes) := []
  deriving DecidableEq, Repr

namespace Directory

/-- The content of a file. -/
def content? (name : String) (directory : Directory) : Option Bytes :=
  directory.files.lookup name

/-- Gives a file a content, whether there was one or not. -/
def write (name : String) (content : Bytes) (directory : Directory) : Directory where
  files := (name, content) :: directory.files.filter (·.1 != name)

/-- The names of the folders that every system has under its root. -/
def systemFolders : List String :=
  ["bin", "boot", "dev", "etc", "home", "lib", "media", "mnt", "opt", "proc", "root", "run", "sbin", "srv",
    "sys", "tmp", "usr", "var"]

/-- The place of the file that is always empty, whatever is written to it. -/
def nullPlace : Place := ⟨true, ["null", "dev"]⟩

/-- The content at a place, if there is a file. -/
def contentAt (place : Place) (directory : Directory) : Option Bytes :=
  if place = nullPlace then some [] else place.name?.bind (directory.content? ·)

/-- Tells whether there is a folder at a place. -/
def isFolder (place : Place) : Bool :=
  match place with
  | ⟨false, names⟩ => names.all (· == "..")
  | ⟨true, []⟩ => true
  | ⟨true, [name]⟩ => systemFolders.contains name
  | _ => false

/-- What stands at a place. -/
def look (directory : Directory) : Look := fun place =>
  if isFolder place then .folder
  else if (directory.contentAt place).isSome then .file
  else .nothing

/-- The content that a path leads to, if it leads to a file. -/
def open? (path : String) (directory : Directory) : Option Bytes :=
  match Place.resolve directory.look path with
  | .ok place => directory.contentAt place
  | .error _ => none

/-- Tells whether a path holds a character that no path may hold. -/
def isCut (path : String) : Bool := path.toList.contains '\x00'

/-- The destination that a path is for a download. -/
def target (path : String) (directory : Directory) : Sink :=
  if isCut path then .closed .cutPath
  else
    match Place.resolve directory.look path with
    | .ok _ => {}
    | .error obstacle => .closed (.unopenable path obstacle.message)

/-- The directory after a download to a path: a destination that got no piece was never opened, and what
goes elsewhere is not kept here. -/
def receive (path : String) (sink : Sink) (directory : Directory) : Directory :=
  match (Place.resolve directory.look path).toOption.bind Place.name? with
  | some name => if sink.pieces.isEmpty then directory else directory.write name sink.data
  | none => directory

theorem lookup_filter_ne {name other : String} (differs : other ≠ name)
    (files : List (String × Bytes)) : (files.filter (·.1 != name)).lookup other = files.lookup other := by
  induction files with
  | nil => rfl
  | cons first rest ih =>
    obtain ⟨held, content⟩ := first
    by_cases same : held = name
    · subst same
      simp [List.lookup_cons, beq_eq_false_iff_ne.mpr differs, ih]
    · simp [same, List.lookup_cons, ih]

theorem content_write (name : String) (content : Bytes) (directory : Directory) (other : String) :
    (directory.write name content).content? other =
      if other = name then some content else directory.content? other := by
  unfold write content?
  by_cases same : other = name
  · simp [same]
  · simp [List.lookup_cons, beq_eq_false_iff_ne.mpr same, if_neg same, lookup_filter_ne same]

theorem receive_untouched {path : String} {sink : Sink} (empty : sink.pieces = [])
    (directory : Directory) : directory.receive path sink = directory := by
  unfold receive
  split
  · simp [empty]
  · rfl

end Directory

end FossilVault
