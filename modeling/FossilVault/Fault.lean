import FossilVault.Text.Quoted
import FossilVault.Text.Utf8
/-
**Faults.** Every way in which an operation can end without a result, each with its cause, and the one
place where the wording of a fault is made.

* `Fault.kind` — the family a fault belongs to;
* `Fault.message` — its text;
* `Kind.within_trans` — the families are ordered: a bucket that keeps no versions is a storage
  condition, a broken contract is a programming error;
* `Fault.isBackend` — the faults that a user is told about instead of stopping the program.
-/

namespace FossilVault

/-- The families of faults. -/
inductive Kind
  | service | credentials | endpoint
  | storage | notVersioned
  | contract | runtime
  | system | value | encoding | lookup | index | overflow | assertion
  | output | interrupt
  deriving DecidableEq, Repr

namespace Kind

/-- All families. -/
def all : List Kind := [
  .service, .credentials, .endpoint, .storage, .notVersioned, .contract, .runtime, .system, .value,
  .encoding, .lookup, .index, .overflow, .assertion, .output, .interrupt]

/-- The wider family, when there is one: not being versioned is a storage condition, a broken contract
a run-time error, and bytes that are no text are a wrong value. -/
def wider : Kind → Option Kind
  | .notVersioned => some .storage
  | .contract => some .runtime
  | .encoding => some .value
  | _ => none

/-- Tells whether every fault of the first family is one of the second. -/
def within (kind family : Kind) : Bool :=
  kind == family || kind.wider == some family

theorem within_refl (kind : Kind) : kind.within kind = true := by
  simp [within]

theorem within_trans {first second third : Kind} (lower : first.within second = true)
    (upper : second.within third = true) : first.within third = true := by
  revert lower upper
  cases first <;> cases second <;> cases third <;> decide

end Kind

/-- One way in which an operation ends without a result. -/
inductive Fault
  /-- The service answered a request with an error. -/
  | refused (code reason request : String)
  /-- No credentials were found to sign a request with. -/
  | noCredentials
  /-- The service could not be reached. -/
  | unreachable (address : String)
  /-- An object operation came before a bucket was chosen. -/
  | noBucket
  /-- The bucket's versioning status is not the one that hide markers need. -/
  | notVersioned (bucket : String) (status : Option String)
  /-- The two paths of a move are no fossil and its bare name. -/
  | unsupportedMove (source target : String)
  /-- The worker index is outside the pool. -/
  | workerOutOfRange (worker size : Int)
  /-- A response lacks a field it has to have. -/
  | missingField (field : String)
  /-- A pool cannot have this length. -/
  | negativeLength
  /-- A byte count is too large to be divided as a double. -/
  | countTooLarge
  /-- A number of seconds is beyond every double. -/
  | secondsTooLarge
  /-- A limiter cannot grant nothing per second. -/
  | idleRate
  /-- The buffer was closed. -/
  | closedBuffer
  /-- A buffer has no negative positions. -/
  | negativePosition (position : Int)
  /-- A buffer cannot be cut to a negative length. -/
  | negativeCut (length : Int)
  /-- A position is counted from the start, from here or from the end. -/
  | unknownOrigin (origin : Int)
  /-- A position or length does not fit in sixty-three bits. -/
  | positionTooLarge (reason : String)
  /-- A local file could not be opened for writing. -/
  | unopenable (file reason : String)
  /-- A path holds the character that ends it for the system. -/
  | cutPath
  /-- A file holds bytes that are no text. -/
  | notText (malformed : Text.Malformed)
  /-- A fault of the surroundings, with its own text. -/
  | external (kind : Kind) (text : String)
  deriving DecidableEq, Repr

namespace Fault

/-- The family a fault belongs to. -/
def kind : Fault → Kind
  | .refused .. => .service
  | .noCredentials => .credentials
  | .unreachable _ => .endpoint
  | .noBucket => .storage
  | .notVersioned .. => .notVersioned
  | .unsupportedMove .. => .contract
  | .workerOutOfRange .. => .index
  | .missingField _ => .lookup
  | .negativeLength | .closedBuffer | .negativePosition _ | .negativeCut _ | .unknownOrigin _
  | .cutPath => .value
  | .notText _ => .encoding
  | .countTooLarge | .secondsTooLarge | .positionTooLarge _ => .overflow
  | .idleRate => .assertion
  | .unopenable .. => .output
  | .external kind _ => kind

/-- The text of a fault. -/
def message : Fault → String
  | .refused code reason request =>
    "An error occurred (" ++ code ++ ") when calling the " ++ request ++ " operation: " ++ reason
  | .noCredentials => "Unable to locate credentials"
  | .unreachable address => "Could not connect to the endpoint URL: \"" ++ address ++ "\""
  | .noBucket => "No bucket selected; call find_bucket() first"
  | .notVersioned bucket status =>
    "Bucket '" ++ bucket ++ "' has versioning status " ++ (status.map Text.quoted).getD "None" ++
      "; hide markers need 'Enabled'"
  | .unsupportedMove source target =>
    "Moving file '" ++ source ++ "' to '" ++ target ++ "' is not supported"
  | .workerOutOfRange worker size =>
    "Worker index " ++ toString worker ++ " out of range for a pool of " ++ toString size
  | .missingField field => Text.quoted field
  | .negativeLength => "__len__() should return >= 0"
  | .countTooLarge => "integer division result too large for a float"
  | .secondsTooLarge => "int too large to convert to float"
  | .idleRate => ""
  | .closedBuffer => "I/O operation on closed file."
  | .negativePosition position => "negative seek value " ++ toString position
  | .negativeCut length => "negative size value " ++ toString length
  | .unknownOrigin origin => "invalid whence (" ++ toString origin ++ ", should be 0, 1 or 2)"
  | .positionTooLarge reason => reason
  | .unopenable file reason => "Could not open file " ++ Text.quoted file ++ ": " ++ reason
  | .cutPath => "embedded null byte"
  | .notText malformed => "'utf-8' codec can't decode " ++ malformed.message
  | .external .lookup text => Text.quoted text
  | .external _ text => text

/-- The faults that end a command with a message: the service's answers, the ways of not reaching it,
and the storage conditions. -/
def isBackend (fault : Fault) : Bool :=
  fault.kind == .service || fault.kind == .credentials || fault.kind == .endpoint ||
    fault.kind.within .storage

/-- An interrupt is nobody's failure: it is passed on without being logged. -/
def isInterrupt (fault : Fault) : Bool :=
  fault.kind == .interrupt

end Fault

end FossilVault
