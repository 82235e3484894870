import FossilVault.Program
import FossilVault.Transfer.Body
import FossilVault.Transfer.Copy
/-
**Requests.** What is asked of an object service and what it answers. Every field of an answer that a
service may leave out is optional here; which of them have to be there is decided by their readers.

* `Bucket.Request`, `Bucket.Reply` — the requests and their answers;
* `Bucket.Request.action` — the name under which a service knows a request.
-/

namespace FossilVault.Bucket

/-- What a new client is made with. -/
structure ClientOptions where
  region : String
  accessKey : Option String := none
  secretKey : Option String := none
  endpoint : Option String := none
  service : String := "s3"
  signature : String := "s3v4"
  attempts : Nat := 3
  retryMode : String := "standard"
  deriving DecidableEq, Repr

/-- One version or marker in a page of a listing; the time is in microseconds since 1970. -/
structure Item where
  key : Option String := none
  id : Option String := none
  latest : Option Bool := none
  modified : Option Int := none
  size : Option Int := none
  deriving DecidableEq, Repr

/-- One page of a listing. -/
structure Page where
  versions : List Item := []
  markers : List Item := []
  deriving DecidableEq, Repr

/-- What a request carries as an object's content. -/
inductive Payload
  | plain (content : Bytes)
  | wrapped (body : Body)

/-- An object as the service gives it out. -/
structure Object where
  source : Option Source := none
  id : Option String := none
  length : Option Int := none
  tag : Option String := none

/-- What can be asked of the service; all but the first name the client that asks. -/
inductive Request
  | createClient (options : ClientOptions)
  | listBuckets (client : Nat)
  | headBucket (client : Nat) (bucket : String)
  | bucketVersioning (client : Nat) (bucket : String)
  | listVersions (client : Nat) (bucket stem : String)
  | deleteObject (client : Nat) (bucket key : String) (id : Option String)
  | putObject (client : Nat) (bucket key : String) (payload : Payload) (length : Nat)
      (contentType : String)
  | getObject (client : Nat) (bucket key : String)

/-- The answer to each request. -/
@[reducible] def Reply : Request → Type
  | .createClient _ => Nat
  | .listBuckets _ => Option (List String)
  | .headBucket .. | .putObject .. => Unit
  | .bucketVersioning .. | .deleteObject .. => Option String
  | .listVersions .. => List Page
  | .getObject .. => Object

/-- The interface of object services. -/
@[reducible] def interface : Interface := ⟨Request, Reply⟩

/-- Makes one request. -/
def ask (request : Request) : Program interface (Reply request) :=
  Program.ask (I := interface) request

/-- The sorts of requests. -/
inductive Action
  | createClient | listBuckets | headBucket | bucketVersioning | listVersions | deleteObject | putObject
  | getObject
  deriving DecidableEq, Repr

/-- The sort of a request. -/
def Request.action : Request → Action
  | .createClient _ => .createClient
  | .listBuckets _ => .listBuckets
  | .headBucket .. => .headBucket
  | .bucketVersioning .. => .bucketVersioning
  | .listVersions .. => .listVersions
  | .deleteObject .. => .deleteObject
  | .putObject .. => .putObject
  | .getObject .. => .getObject

/-- The name under which a service knows a request. -/
def Action.name : Action → String
  | .createClient => "CreateClient"
  | .listBuckets => "ListBuckets"
  | .headBucket => "HeadBucket"
  | .bucketVersioning => "GetBucketVersioning"
  | .listVersions => "ListObjectVersions"
  | .deleteObject => "DeleteObject"
  | .putObject => "PutObject"
  | .getObject => "GetObject"

end FossilVault.Bucket
