import FossilVault.Proofs.Bucket.Provider
import FossilVault.Proofs.Ledger.Contract
/-
**A paced service.** The service in memory with time that passes before each request, as much as a
list of pauses says. Whatever the pauses and the size of its pages, it keeps the laws of a service.

* `Paced.answer` — time passes, then the service answers;
* `Service.lists_rows` — the rows of a listing are the stacks under a stem;
* `Paced.provider_lawful` — the paced service is lawful.
-/

namespace FossilVault.Bucket

/-- A service, and the seconds that pass before each of the next requests. -/
structure Paced where
  service : Service
  pauses : List Nat

/-- The seconds of some pauses. -/
def Paced.span (pauses : List Nat) : Nat :=
  pauses.foldr Nat.add 0

/-- Time passes, then the service answers. -/
def Paced.answer : Handler interface Paced := fun request session paced =>
  let ended := Service.answer request session (paced.service.tick (paced.pauses.headD 0 : Nat))
  (ended.1, ended.2.1, ⟨ended.2.2, paced.pauses.tail⟩)

namespace Service

variable {service : Service} {bucket : String}

/-! ### Rows of a listing -/

/-- The rows under a stem. -/
def rows (bucket stem : String) (service : Service) : List Row :=
  ((service.namesOf bucket).shelves.filter (Text.beginsWith ·.1 stem)).flatMap fun shelf =>
    Row.ofStack shelf.1 shelf.2

theorem give_whole (whole : service.omitted = []) {α : Type} (answer : Answer) (field : AnswerField)
    (value : α) : service.give answer field value = some value := by
  rw [give, whole, if_neg List.not_mem_nil]

theorem stackItems_eq (whole : service.omitted = []) (shelf : String × List Stored) :
    service.stackItems shelf = (Row.ofStack shelf.1 shelf.2).map Row.item := by
  have item (latest : Bool) (stored : Stored) :
      service.item shelf.1 latest stored = Row.item ⟨shelf.1, ⟨stored, latest⟩⟩ := by
    simp only [item, give_whole whole]
    rfl
  unfold stackItems Row.ofStack
  cases shelf.2 with
  | nil => rfl
  | cons newest older =>
    simp only [item, Flagged.ofStack, List.map_cons, List.map_map]
    rfl

theorem items_eq (whole : service.omitted = []) (stem : String) :
    service.items bucket stem = (service.rows bucket stem).map Row.item := by
  have shelves : service.stackItems = fun shelf => (Row.ofStack shelf.1 shelf.2).map Row.item := by
    funext shelf
    exact stackItems_eq whole shelf
  rw [items, rows, List.map_flatMap, shelves]

theorem cut_map {α β : Type} (f : α → β) (size : Nat) (elements : List α) :
    cut size (elements.map f) = (cut size elements).map (List.map f) := by
  fun_induction cut size elements with
  | case1 elements short => rw [cut, List.length_map, if_pos short, List.map_singleton]
  | case2 elements long ih =>
    rw [cut, List.length_map, if_neg long, ← List.map_take, ← List.map_drop, ih, List.map_cons]

theorem filter_flatMap_ofStack (shelves : List (String × List Stored)) (name : String) :
    (shelves.flatMap fun shelf => Row.ofStack shelf.1 shelf.2).filter (·.name == name) =
      (shelves.filter (·.1 == name)).flatMap fun shelf => Row.ofStack shelf.1 shelf.2 := by
  induction shelves with
  | nil => rfl
  | cons first rest ih =>
    rw [List.flatMap_cons, List.filter_append, ih]
    by_cases same : first.1 = name
    · have kept : (Row.ofStack first.1 first.2).filter (·.name == name) =
          Row.ofStack first.1 first.2 := by
        rw [List.filter_eq_self]
        intro row among
        simp [(Row.mem_ofStack among).1, same]
      rw [kept, List.filter_cons_of_pos (by simp [same]), List.flatMap_cons]
    · have gone : (Row.ofStack first.1 first.2).filter (·.name == name) = [] := by
        rw [List.filter_eq_nil_iff]
        intro row among
        simp [(Row.mem_ofStack among).1, same]
      rw [gone, List.filter_cons_of_neg (by simp [same]), List.nil_append]

/-- **The rows of a listing are the stacks under its stem.** -/
theorem lists_rows (service : Service) (bucket stem : String) :
    Row.Lists (service.namesOf bucket) stem (service.rows bucket stem) := by
  intro name
  rw [rows, filter_flatMap_ofStack, List.filter_filter]
  have named : (service.namesOf bucket).shelves.filter
      (fun shelf => shelf.1 == name && Text.beginsWith shelf.1 stem) =
        if Text.beginsWith name stem then (service.namesOf bucket).shelves.filter (·.1 == name)
        else [] := by
    by_cases starts : Text.beginsWith name stem = true
    · rw [if_pos starts]
      apply List.filter_congr
      intro shelf _
      by_cases same : shelf.1 = name <;> simp [same, starts]
    · rw [if_neg starts, List.filter_eq_nil_iff]
      intro shelf _
      by_cases same : shelf.1 = name <;> simp [same, starts]
  rw [named]
  by_cases starts : Text.beginsWith name stem = true
  · rw [if_pos starts, if_pos starts]
    exact Catalog.flatMap_filter_name (service.namesOf bucket).ascending name rfl
  · rw [if_neg starts, if_neg starts]
    rfl

/-! ### Changes of a bucket -/

theorem known_change (known : (service.bucket? bucket).isSome)
    (step : Catalog Stored → Catalog Stored) :
    ((service.change bucket step).bucket? bucket).isSome := by
  unfold bucket? change at *
  rw [lookup_map_names]
  simpa using known

theorem namesOf_push (known : (service.bucket? bucket).isSome) (name : String)
    (content : Option Bytes) : (service.push bucket name content).namesOf bucket =
      (service.namesOf bucket).push name ⟨service.nextId, service.second, content⟩ := by
  apply Catalog.ext_history
  intro other
  rw [Catalog.history_push]
  exact history_push known name content other

theorem namesOf_remove (known : (service.bucket? bucket).isSome) (name id : String) :
    (service.remove bucket name id).namesOf bucket =
      (service.namesOf bucket).keep name fun stored => stored.id != id := by
  apply Catalog.ext_history
  intro other
  rw [Catalog.history_keep]
  exact history_remove known name id other

theorem contentOf_carries {payload : Payload} {content : Bytes} (carries : payload.Carries content)
    (session : Session) :
    ∃ session', contentOf payload session = (.ok content, session') ∧ session.Alike session' := by
  cases carries with
  | plain => exact ⟨session, rfl, .refl session⟩
  | wrapped limited content channel made =>
    obtain ⟨body, session', whole, alike⟩ := Body.read_make limited content channel made session
    refine ⟨session', ?_, alike⟩
    rw [contentOf, whole]

/-- The service stores the content that an upload carries. -/
theorem answer_putObject {payload : Payload} {content : Bytes} (carries : payload.Carries content)
    (client : Nat) (bucket key contentType : String) (session : Session) (service : Service) :
    ∃ session', answer (.putObject client bucket key payload content.length contentType) session service =
      (.ok (), session', service.push bucket key (some content)) ∧ session.Alike session' := by
  obtain ⟨session', read, alike⟩ := contentOf_carries carries session
  exact ⟨session', by rw [answer, read], alike⟩

end Service

/-! ### The laws -/

namespace Paced

/-- The service with the bucket leaves nothing out, all its identifiers were given, and its time
does not run out. -/
structure Sound (bucket : String) (paced : Paced) : Prop where
  known : (paced.service.bucket? bucket).isSome
  whole : paced.service.omitted = []
  given (name : String) : ∀ stored ∈ (paced.service.namesOf bucket).history name,
    Ledger.Given paced.service.issued stored.id
  begun : -62135596800 ≤ paced.service.second
  lasts : paced.service.second + span paced.pauses < 253402300800

/-- A new service is sound, as long as its time lasts. -/
theorem sound_start {pauses : List Nat} (short : span pauses < 1000000) :
    Sound "bkt" ⟨{}, pauses⟩ where
  known := rfl
  whole := rfl
  given _ _ among := nomatch among
  begun := by
    show (-62135596800 : Int) ≤ 1700000000
    omega
  lasts := by
    show (1700000000 : Int) + span pauses < 253402300800
    omega

/-- The paced service with one of its buckets. -/
def provider (bucket : String) : Provider Paced where
  handler := answer
  bucket
  names paced := paced.service.namesOf bucket
  clock paced := paced.service.second
  sound := Sound bucket

/-- The service at its next request. -/
def ready (paced : Paced) : Service :=
  paced.service.tick (paced.pauses.headD 0 : Nat)

theorem answer_of_ready {paced : Paced} {request : Request} {session session' : Session}
    {reply : Except Fault (Reply request)} {service : Service}
    (answered : Service.answer request session paced.ready = (reply, session', service)) :
    answer request session paced = (reply, session', ⟨service, paced.pauses.tail⟩) := by
  unfold ready at answered
  simp only [answer, answered]

/-- What a service has to keep of the pace, besides the stacks, to follow a write. -/
theorem follows_of_answer {bucket : String} {paced : Paced} (sound : paced.Sound bucket)
    {write : Option Write} {service : Service} (second : service.second = paced.ready.second)
    (known : (service.bucket? bucket).isSome) (whole : service.omitted = [])
    (given : ∀ name, ∀ stored ∈ (service.namesOf bucket).history name,
      Ledger.Given service.issued stored.id)
    (written : match write with
      | none => service.namesOf bucket = paced.service.namesOf bucket
      | some (.push name content) => ∃ id,
          id ∉ ((paced.service.namesOf bucket).history name).map Stored.id ∧
          service.namesOf bucket =
            (paced.service.namesOf bucket).push name ⟨id, service.second, content⟩
      | some (.remove name id) => service.namesOf bucket =
          (paced.service.namesOf bucket).keep name fun stored => stored.id != id) :
    (provider bucket).Follows write paced ⟨service, paced.pauses.tail⟩ := by
  have passed : service.second = paced.service.second + (paced.pauses.headD 0 : Nat) := second
  have rest : paced.pauses.headD 0 + span paced.pauses.tail = span paced.pauses := by
    cases paced.pauses <;> rfl
  have begun := sound.begun
  have lasts := sound.lasts
  refine ⟨⟨known, whole, given, ?_, ?_⟩, ?_, written⟩
  · show -62135596800 ≤ service.second
    omega
  · show service.second + span paced.pauses.tail < 253402300800
    omega
  · show paced.service.second ≤ service.second
    omega

variable {bucket : String} {paced : Paced} (sound : paced.Sound bucket)

include sound

/-- The service that answers without a write keeps the laws. -/
theorem follows_still : (provider bucket).Follows none paced ⟨paced.ready, paced.pauses.tail⟩ :=
  follows_of_answer sound rfl sound.known sound.whole sound.given rfl

theorem follows_push (name : String) (content : Option Bytes) :
    (provider bucket).Follows (some (.push name content)) paced
      ⟨paced.ready.push bucket name content, paced.pauses.tail⟩ := by
  have known : (paced.ready.bucket? bucket).isSome := sound.known
  have names := Service.namesOf_push known name content
  refine follows_of_answer sound rfl (Service.known_change known _) sound.whole ?_ ⟨_, ?_, names⟩
  · intro other stored among
    rw [names, Catalog.history_push] at among
    split at among
    · rcases List.mem_cons.mp among with new | inside
      · exact ⟨paced.ready.issued + 1, Nat.le_refl _, congrArg Stored.id new⟩
      · exact (sound.given name stored inside).later
    · exact (sound.given other stored among).later
  · intro among
    obtain ⟨stored, inside, same⟩ := List.mem_map.mp among
    have given := sound.given name stored inside
    rw [same] at given
    exact Ledger.not_given_next _ given

theorem follows_remove (name id : String) :
    (provider bucket).Follows (some (.remove name id)) paced
      ⟨paced.ready.remove bucket name id, paced.pauses.tail⟩ := by
  have known : (paced.ready.bucket? bucket).isSome := sound.known
  have names := Service.namesOf_remove known name id
  refine follows_of_answer sound rfl (Service.known_change known _) sound.whole ?_ names
  intro other stored among
  rw [names, Catalog.history_keep] at among
  split at among
  · exact sound.given name stored (List.mem_filter.mp among).1
  · exact sound.given other stored among

theorem gives (client : Nat) (name : String) : (provider bucket).Gives client name paced := by
  have opened {outcome : Except Fault Object}
      (object : paced.ready.object bucket name = outcome) :
      (provider bucket).Replies (.getObject client bucket name) paced outcome none := by
    intro session
    have answered : Service.answer (.getObject client bucket name) session paced.ready =
        (outcome, session, paced.ready) := by
      rw [Service.answer, object]
    exact ⟨session, _, answer_of_ready answered, .refl session, follows_still sound⟩
  have newest : ((provider bucket).names paced).history name = paced.ready.history bucket name := rfl
  unfold Provider.Gives
  rw [newest]
  cases stack : paced.ready.history bucket name with
  | nil =>
    have refused := opened (show paced.ready.object bucket name = .error _ by
      rw [Service.object, stack])
    exact ⟨_, rfl, refused⟩
  | cons top older =>
    obtain ⟨id, second, held⟩ := top
    cases held with
    | none =>
      have refused := opened (show paced.ready.object bucket name = .error _ by
        rw [Service.object, stack])
      exact ⟨_, rfl, refused⟩
    | some content =>
      have given := opened (show paced.ready.object bucket name = .ok _ by
        rw [Service.object, stack])
      refine ⟨_, { content }, ?_, rfl, Ledger.source_steady content, given⟩
      exact Service.give_whole sound.whole .object .body _

end Paced

open Paced in
/-- **The paced service is lawful**, whatever its pauses and the size of its pages. -/
theorem Paced.provider_lawful (bucket : String) : (provider bucket).Lawful where
  calendar {paced} sound := by
    have begun := sound.begun
    have lasts := sound.lasts
    refine ⟨begun, ?_⟩
    show paced.service.second < 253402300800
    omega
  list {paced} sound client stem := by
    refine ⟨Service.cut paced.ready.pageSize (paced.ready.rows bucket stem), ?_, ?_⟩
    · rw [Service.flatten_cut]
      exact paced.ready.lists_rows bucket stem
    · intro session
      have whole : paced.ready.omitted = [] := sound.whole
      have answered : Service.answer (.listVersions client bucket stem) session paced.ready =
          (.ok ((Service.cut paced.ready.pageSize (paced.ready.rows bucket stem)).map fun cut =>
            Service.page (cut.map Row.item)), session, paced.ready) := by
        rw [Service.answer, Service.items_eq whole, Service.cut_map, List.map_map]
        rfl
      exact ⟨session, _, answer_of_ready answered, .refl session, follows_still sound⟩
  hide {paced} sound client name := by
    refine ⟨paced.ready.give .deletion .id paced.ready.nextId, ?_⟩
    intro session
    exact ⟨session, _, answer_of_ready rfl, .refl session, follows_push sound name none⟩
  delete {paced} sound client name id := by
    refine ⟨paced.ready.give .deletion .id id, ?_⟩
    intro session
    exact ⟨session, _, answer_of_ready rfl, .refl session, follows_remove sound name id⟩
  put {paced} sound client name payload content carries contentType session := by
    obtain ⟨session', answered, alike⟩ :=
      Service.answer_putObject carries client bucket name contentType session paced.ready
    exact ⟨session', _, answer_of_ready answered, alike, follows_push sound name (some content)⟩
  get {paced} sound client name := gives sound client name

end FossilVault.Bucket
