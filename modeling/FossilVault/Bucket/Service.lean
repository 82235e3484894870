import FossilVault.Bucket.Request
import FossilVault.Catalog
import FossilVault.Text.Basic
import FossilVault.Version
/-
**An object service.** A service with versioned buckets that keeps everything in memory: each name has a
stack of versions and markers, each with an identifier that is never given again and the second of its
making. Its clock moves only when told to. It may be set to leave fields out of its answers.

* `Service.history_push`, `Service.history_remove` — what a request does to the stack of each name;
* `Service.items` — what a listing holds: names ascending, newest first within a name, and the latest
  flag on the newest alone;
* `Service.flatten_cut` — cutting a listing into pages keeps its items and their order.
-/

namespace FossilVault.Bucket

/-- One version or marker that a bucket stores; a marker has no content. -/
structure Stored where
  id : String
  second : Int
  content : Option Bytes
  deriving DecidableEq, Repr

namespace Stored

/-- Tells whether it is a marker. -/
def isMarker (stored : Stored) : Bool :=
  stored.content.isNone

/-- The number of bytes, zero for a marker. -/
def size (stored : Stored) : Nat :=
  (stored.content.map List.length).getD 0

/-- The entry of the name that it is stored under. -/
def entry (name : String) (stored : Stored) : Entry :=
  ⟨name, stored.id, if stored.isMarker then .hidden else .active, stored.size⟩

end Stored

/-- A bucket: its versioning status and the stacks of its names. -/
structure Holding where
  status : Option String := some "Enabled"
  names : Catalog Stored := .empty

/-- The answers that fields can be left out of. -/
inductive Answer
  | buckets | deletion | object | version | marker
  deriving DecidableEq, Repr

/-- The fields that can be left out. -/
inductive AnswerField
  | buckets | id | length | tag | body | key | latest | modified | size
  deriving DecidableEq, Repr

/-- A service with its buckets. -/
structure Service where
  buckets : List (String × Holding) := [("bkt", {})]
  /-- The largest number of items in a page. -/
  pageSize : Nat := 1000
  /-- The fields that are left out. -/
  omitted : List (Answer × AnswerField) := []
  /-- How many identifiers were given. -/
  issued : Nat := 0
  /-- The clock, in seconds since 1970. -/
  second : Int := 1700000000
  /-- What the clients were made with, the latest first. -/
  clients : List ClientOptions := []

namespace Service

/-- Moves the clock. -/
def tick (seconds : Int) (service : Service) : Service :=
  { service with second := service.second + seconds }

/-- The identifier with a number. -/
def identifier (number : Nat) : String := "v" ++ toString number

/-- The identifier that is given next. -/
def nextId (service : Service) : String :=
  identifier (service.issued + 1)

/-- A field of an answer, unless it is left out. -/
def give {α : Type} (answer : Answer) (field : AnswerField) (value : α) (service : Service) : Option α :=
  if (answer, field) ∈ service.omitted then none else some value

/-- The bucket with a name. -/
def bucket? (name : String) (service : Service) : Option Holding :=
  service.buckets.lookup name

/-- The names of a bucket with their stacks. -/
def namesOf (bucket : String) (service : Service) : Catalog Stored :=
  ((service.bucket? bucket).map Holding.names).getD .empty

/-- The stack of a name. -/
def history (service : Service) (bucket key : String) : List Stored :=
  (service.namesOf bucket).history key

/-- Changes the names of a bucket. -/
def change (bucket : String) (step : Catalog Stored → Catalog Stored) (service : Service) : Service :=
  { service with
    buckets := service.buckets.map fun held =>
      if held.1 = bucket then (held.1, { held.2 with names := step held.2.names }) else held }

/-- Puts a version or a marker on top of a name. -/
def push (bucket key : String) (content : Option Bytes) (service : Service) : Service :=
  { service.change bucket (·.push key ⟨service.nextId, service.second, content⟩) with
    issued := service.issued + 1 }

/-- Removes the versions of a name that have an identifier. -/
def remove (bucket key id : String) (service : Service) : Service :=
  service.change bucket (·.keep key (·.id != id))

/-! ### Listing -/

/-- A stored version as an item of a listing, and whether it is a marker. -/
def item (key : String) (latest : Bool) (stored : Stored) (service : Service) : Bool × Item :=
  let answer : Answer := if stored.isMarker then .marker else .version
  (stored.isMarker, {
    key := service.give answer .key key
    id := service.give answer .id stored.id
    latest := service.give answer .latest latest
    modified := service.give answer .modified (stored.second * 1000000)
    size := if stored.isMarker then none else service.give answer .size (stored.size : Int) })

/-- The items of a stack, newest first. -/
def stackItems (service : Service) (shelf : String × List Stored) : List (Bool × Item) :=
  match shelf.2 with
  | [] => []
  | newest :: older =>
    service.item shelf.1 true newest :: older.map fun stored => service.item shelf.1 false stored

/-- The items of the names that start with `stem`. -/
def items (bucket stem : String) (service : Service) : List (Bool × Item) :=
  ((service.namesOf bucket).shelves.filter (Text.beginsWith ·.1 stem)).flatMap service.stackItems

/-- Cuts a list into pieces of `size` elements; there is at least one piece, and no empty piece when
there are elements. -/
def cut {α : Type} (size : Nat) (elements : List α) : List (List α) :=
  if elements.length ≤ max 1 size then [elements]
  else elements.take (max 1 size) :: cut size (elements.drop (max 1 size))
termination_by elements.length
decreasing_by
  simp only [List.length_drop]
  omega

/-- A page of items. -/
def page (items : List (Bool × Item)) : Page where
  versions := (items.filter (!·.1)).map (·.2)
  markers := (items.filter (·.1)).map (·.2)

/-! ### Answering -/

/-- The refusal of a request on an unknown bucket. -/
def unknownBucket (action : Action) : Fault :=
  .refused "NoSuchBucket" "The specified bucket does not exist" action.name

/-- The newest version of a name, as the service gives it out. -/
def object (bucket key : String) (service : Service) : Except Fault Object :=
  match service.history bucket key with
  | ⟨id, _, some content⟩ :: _ => .ok {
      source := service.give .object .body { content }
      id := service.give .object .id id
      length := service.give .object .length (content.length : Int)
      tag := service.give .object .tag ("\"etag-" ++ id ++ "\"") }
  | _ => .error (.refused "NoSuchKey" "The specified key does not exist." Action.getObject.name)

/-- The bytes of a payload; a wrapped body is read to its end, behind its throttle. -/
def contentOf : Payload → Session → Except Fault Bytes × Session
  | .plain content, session => (.ok content, session)
  | .wrapped body, session =>
    let given := body.read none session
    (given.1, given.2.2)

/-- The answer of the service to each request. -/
def answer : Handler interface Service
  | .createClient options, session, service =>
    (.ok service.clients.length, session, { service with clients := options :: service.clients })
  | .listBuckets _, session, service =>
    (.ok (service.give .buckets .buckets (service.buckets.map (·.1))), session, service)
  | .headBucket _ bucket, session, service =>
    if (service.bucket? bucket).isSome then (.ok (), session, service)
    else (.error (.refused "404" "Not Found" Action.headBucket.name), session, service)
  | .bucketVersioning _ bucket, session, service =>
    match service.bucket? bucket with
    | some held => (.ok held.status, session, service)
    | none => (.error (unknownBucket .bucketVersioning), session, service)
  | .listVersions _ bucket stem, session, service =>
    (.ok ((cut service.pageSize (service.items bucket stem)).map page), session, service)
  | .deleteObject _ bucket key none, session, service =>
    (.ok (service.give .deletion .id service.nextId), session, service.push bucket key none)
  | .deleteObject _ bucket key (some id), session, service =>
    (.ok (service.give .deletion .id id), session, service.remove bucket key id)
  | .putObject _ bucket key payload _ _, session, service =>
    match contentOf payload session with
    | (.ok content, session) => (.ok (), session, service.push bucket key (some content))
    | (.error fault, session) => (.error fault, session, service)
  | .getObject _ bucket key, session, service => (service.object bucket key, session, service)

/-! ### Stacks and pages -/

theorem lookup_map_names (bucket other : String) (step : Catalog Stored → Catalog Stored)
    (buckets : List (String × Holding)) :
    (buckets.map fun held =>
      if held.1 = bucket then (held.1, { held.2 with names := step held.2.names }) else held).lookup other =
      (buckets.lookup other).map fun held =>
        if other = bucket then { held with names := step held.names } else held := by
  induction buckets with
  | nil => rfl
  | cons first rest ih =>
    obtain ⟨name, held⟩ := first
    simp only [List.map_cons]
    by_cases same : name = bucket
    · subst same
      by_cases asked : other = name
      · simp [asked]
      · simp only [↓reduceIte, List.lookup_cons, beq_eq_false_iff_ne.mpr asked, ih, if_neg asked]
    · by_cases asked : other = name
      · subst asked
        simp [same]
      · simp only [if_neg same, List.lookup_cons, beq_eq_false_iff_ne.mpr asked, ih]

theorem history_push {service : Service} {bucket : String} (known : (service.bucket? bucket).isSome)
    (key : String) (content : Option Bytes) (other : String) :
    (service.push bucket key content).history bucket other =
      if other = key then ⟨service.nextId, service.second, content⟩ :: service.history bucket key
      else service.history bucket other := by
  obtain ⟨held, found⟩ := Option.isSome_iff_exists.mp known
  unfold bucket? at found
  simp only [history, namesOf, bucket?, push, change, lookup_map_names, found, Option.map_some, ↓reduceIte,
    Option.getD_some]
  exact Catalog.history_push held.names key _ other

theorem history_remove {service : Service} {bucket : String} (known : (service.bucket? bucket).isSome)
    (key id other : String) :
    (service.remove bucket key id).history bucket other =
      if other = key then (service.history bucket key).filter (·.id != id)
      else service.history bucket other := by
  obtain ⟨held, found⟩ := Option.isSome_iff_exists.mp known
  unfold bucket? at found
  simp only [history, namesOf, bucket?, remove, change, lookup_map_names, found, Option.map_some, ↓reduceIte,
    Option.getD_some]
  exact Catalog.history_keep held.names key _ other

theorem flatten_cut {α : Type} (size : Nat) (elements : List α) :
    (cut size elements).flatten = elements := by
  fun_induction cut size elements with
  | case1 => simp
  | case2 elements long ih => rw [List.flatten_cons, ih, List.take_append_drop]

end Service

end FossilVault.Bucket
