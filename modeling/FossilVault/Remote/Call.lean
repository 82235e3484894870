import FossilVault.Program
import FossilVault.Transfer.Copy
import FossilVault.Version
/-
**Remotes.** A remote gives authenticated access to one bucket of a versioned store. Every call on
objects names the worker that makes it, and each call is one step that others cannot interrupt.

* `Remote.Call`, `Remote.Reply` — the calls and their answers;
* `Remote.shortened` — a remote whose streams give their bytes in short reads.
-/

namespace FossilVault.Remote

/-- What can be asked of a remote. -/
inductive Call
  /-- Checks the credentials. -/
  | authorize
  /-- Chooses the bucket that all later calls work on. -/
  | findBucket (bucket : String)
  /-- Lists versions of the names that start with `stem`, by name, newest first within a name: all of
  them with `withHidden`, otherwise the newest one of each name that is not hidden; with `exact` only
  those of the name `stem`. -/
  | list (worker : Int) (stem : String) (exact withHidden : Bool)
  /-- Deletes one version for good. -/
  | delete (worker : Int) (name id : String)
  /-- Puts a hide marker on top of a name. -/
  | hide (worker : Int) (name : String)
  /-- Stores a content as the newest version of a name. -/
  | upload (worker : Int) (name : String) (content : Bytes) (rate : Int)
  /-- Opens the newest version of a name, if that is not hidden. -/
  | download (worker : Int) (name : String)
  deriving DecidableEq

/-- What the store says about an object that it opens. -/
structure Details where
  id : Option String := none
  size : Int := 0
  tag : String := ""
  deriving DecidableEq, Repr

/-- An opened object. -/
structure Opened where
  source : Source
  details : Details := {}

/-- The answer to each call; hiding gives the marker's identifier. -/
@[reducible] def Reply : Call → Type
  | .authorize | .findBucket _ | .delete .. | .upload .. => Unit
  | .list .. => List Entry
  | .hide .. => String
  | .download .. => Opened

/-- The interface of remotes. -/
@[reducible] def interface : Interface := ⟨Call, Reply⟩

/-- Makes one call. -/
def ask (c : Call) : Program interface (Reply c) := Program.ask (I := interface) c

/-- The sorts of calls. -/
inductive Verb
  | authorize | findBucket | list | delete | hide | upload | download
  deriving DecidableEq, Repr

/-- The sort of a call. -/
def Call.verb : Call → Verb
  | .authorize => .authorize
  | .findBucket _ => .findBucket
  | .list .. => .list
  | .delete .. => .delete
  | .hide .. => .hide
  | .upload .. => .upload
  | .download .. => .download

/-- The remote whose streams give at most `limit` bytes at a time. -/
def shortened {ω : Type} (limit : Option Nat) (h : Handler interface ω) : Handler interface ω
  | .download worker name, session, world =>
    match h (.download worker name) session world, limit with
    | (.ok opened, session, world), some limit =>
      (.ok { opened with source := .short opened.source.content limit }, session, world)
    | answered, _ => answered
  | c, session, world => h c session world

end FossilVault.Remote
