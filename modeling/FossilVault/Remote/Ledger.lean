import FossilVault.Catalog
import FossilVault.Remote.Call
import FossilVault.Text.Basic
/-
**Ledgers.** The reference remote: it keeps every version of every name in memory, the newest first, and
never gives an identifier twice. Its listing is the contract that every remote has to meet.

* `Ledger.history_push`, `Ledger.history_remove` — what a call does to the history of each name;
* `Ledger.answer_list`, `Ledger.answer_download` — listing and opening change nothing.
-/

namespace FossilVault

/-- One stored version; a marker has no content. -/
structure Version where
  id : String
  content : Option Bytes
  deriving DecidableEq, Repr

namespace Version

/-- Tells whether the version is a marker. -/
def isHidden (version : Version) : Bool :=
  version.content.isNone

/-- The number of bytes of a content, zero for a marker. -/
def size (version : Version) : Nat :=
  (version.content.map List.length).getD 0

/-- The version as it is listed under a name. -/
def entry (name : String) (version : Version) : Entry :=
  ⟨name, version.id, if version.isHidden then .hidden else .active, version.size⟩

@[simp] theorem entry_name (name : String) (version : Version) : (version.entry name).name = name := rfl

@[simp] theorem entry_id (name : String) (version : Version) : (version.entry name).id = version.id := rfl

@[simp] theorem entry_isHidden (name : String) (version : Version) :
    (version.entry name).isHidden = version.isHidden := by
  unfold entry Entry.isHidden
  cases version.isHidden <;> rfl

end Version

/-- All versions of all names, and how many identifiers were given. -/
structure Ledger where
  names : Catalog Version := .empty
  issued : Nat := 0

namespace Ledger

/-- The identifier with a number. -/
def identifier (number : Nat) : String := "v" ++ toString number

/-- The versions of a name, newest first. -/
def history (ledger : Ledger) (name : String) : List Version :=
  ledger.names.history name

/-- Puts a version with a new identifier on top of a name. -/
def push (name : String) (content : Option Bytes) (ledger : Ledger) : Ledger where
  names := ledger.names.push name ⟨identifier (ledger.issued + 1), content⟩
  issued := ledger.issued + 1

/-- Removes the versions of a name that have an identifier. -/
def remove (name id : String) (ledger : Ledger) : Ledger :=
  { ledger with names := ledger.names.keep name (·.id != id) }

/-- The entries of one shelf: all its versions, or the newest one unless it is hidden. -/
def shelfEntries (withHidden : Bool) (shelf : String × List Version) : List Entry :=
  if withHidden then shelf.2.map (Version.entry shelf.1)
  else (shelf.2.head?.filter fun newest => !newest.isHidden).toList.map (Version.entry shelf.1)

/-- The listing of the names that start with `stem`, or of the one name `stem`. -/
def entries (stem : String) (exact withHidden : Bool) (ledger : Ledger) : List Entry :=
  (ledger.names.shelves.filter fun shelf =>
    Text.beginsWith shelf.1 stem && (!exact || shelf.1 == stem)).flatMap (shelfEntries withHidden)

/-- Opens the newest version of a name. -/
def opened (name : String) (ledger : Ledger) : Except Fault Remote.Opened :=
  match ledger.history name with
  | ⟨id, some content⟩ :: _ => .ok { source := { content }, details := { id := some id } }
  | _ => .error (.refused "NoSuchKey" (name ++ " not found") "GetObject")

/-- The answer of a ledger to each call. -/
def answer : Handler Remote.interface Ledger
  | .authorize, session, ledger => (.ok (), session, ledger)
  | .findBucket _, session, ledger => (.ok (), session, ledger)
  | .list _ stem exact withHidden, session, ledger =>
    (.ok (ledger.entries stem exact withHidden), session, ledger)
  | .delete _ name id, session, ledger => (.ok (), session, ledger.remove name id)
  | .hide _ name, session, ledger =>
    (.ok (identifier (ledger.issued + 1)), session, ledger.push name none)
  | .upload _ name content _, session, ledger => (.ok (), session, ledger.push name (some content))
  | .download _ name, session, ledger => (ledger.opened name, session, ledger)

/-! ### Histories -/

theorem history_push (ledger : Ledger) (name : String) (content : Option Bytes) (other : String) :
    (ledger.push name content).history other =
      if other = name then ⟨identifier (ledger.issued + 1), content⟩ :: ledger.history name
      else ledger.history other :=
  Catalog.history_push ledger.names name _ other

theorem history_remove (ledger : Ledger) (name id other : String) :
    (ledger.remove name id).history other =
      if other = name then (ledger.history name).filter (·.id != id) else ledger.history other :=
  Catalog.history_keep ledger.names name _ other

theorem answer_list (worker : Int) (stem : String) (exact withHidden : Bool) (session : Session)
    (ledger : Ledger) :
    (answer (.list worker stem exact withHidden) session ledger).2.2 = ledger := rfl

theorem answer_download (worker : Int) (name : String) (session : Session) (ledger : Ledger) :
    (answer (.download worker name) session ledger).2.2 = ledger := rfl

end Ledger

end FossilVault
