import FossilVault.Bucket.Service
import FossilVault.Proofs.Archive.Effect
import FossilVault.Proofs.Sorting
/-
**The order of a bucket's versions.** A bucket tells of a version whether it is the newest and in
which second it was made. A listing rebuilds the order of a stack from that: the newest first, the
others by their seconds, and within a second the markers before the contents. Two versions of one
second may trade places in this.

* `Stored.relist_head`, `Stored.relist_perm` — the newest comes first, and no version is lost;
* `Stored.relist_untied` — without a marker in the second of a newer content the order is that of
  the stack;
* `spared_relist`, `filter_survives` — what a purge spares: the newest version, if it is a content,
  and the contents above the first marker that are of a later second.
-/

namespace FossilVault.Bucket

namespace Stored

/-- What a vault is told of a stored version. -/
def version (stored : Stored) : Version :=
  ⟨stored.id, stored.content⟩

end Stored

/-- A stored version, and whether it is the newest of its name. -/
structure Flagged where
  stored : Stored
  latest : Bool

namespace Flagged

/-- Tells whether `a` may be listed before `b`. -/
def before (a b : Flagged) : Bool :=
  if a.latest != b.latest then a.latest
  else if a.stored.second != b.stored.second then b.stored.second < a.stored.second
  else a.stored.isMarker || !b.stored.isMarker

theorem before_total (a b : Flagged) : (before a b || before b a) = true := by
  unfold before
  cases a.latest <;> cases b.latest <;> simp <;> grind

theorem before_trans (a b c : Flagged) (first : before a b = true) (second : before b c = true) :
    before a c = true := by
  unfold before at *
  grind

/-- A marker and a content are never on a level. -/
theorem before_apart (a b : Flagged) (content : a.stored.isMarker = false)
    (marker : b.stored.isMarker = true) (first : before b a = true) : before a b = false := by
  unfold before at *
  grind

theorem kind_of_level {a b : Flagged} (first : a.before b = true) (second : b.before a = true) :
    b.stored.isMarker = a.stored.isMarker := by
  cases kind : a.stored.isMarker with
  | true =>
    cases other : b.stored.isMarker with
    | true => rfl
    | false =>
      rw [before_apart b a other kind first] at second
      cases second
  | false =>
    cases other : b.stored.isMarker with
    | true =>
      rw [before_apart a b kind other second] at first
      cases first
    | false => rfl

/-- The versions of a stack, the newest with its flag. -/
def ofStack : List Stored → List Flagged
  | [] => []
  | newest :: older => ⟨newest, true⟩ :: older.map (⟨·, false⟩)

theorem stored_ofStack (stack : List Stored) : (ofStack stack).map stored = stack := by
  cases stack with
  | nil => rfl
  | cons newest older => simp [ofStack, Function.comp_def]

end Flagged

namespace Stored

/-- A stack in the order in which a listing puts it. -/
def relist (stack : List Stored) : List Stored :=
  ((Flagged.ofStack stack).mergeSort Flagged.before).map Flagged.stored

theorem relist_nil : relist [] = [] := by
  simp [relist, Flagged.ofStack]

/-- A listing loses no version. -/
theorem relist_perm (stack : List Stored) : (relist stack).Perm stack := by
  have perm := (List.mergeSort_perm (Flagged.ofStack stack) Flagged.before).map Flagged.stored
  rwa [Flagged.stored_ofStack] at perm

/-- **The newest version is listed first.** -/
theorem relist_head (stack : List Stored) : (relist stack).head? = stack.head? := by
  cases stack with
  | nil => rw [relist_nil]
  | cons newest older =>
    have first : ∀ other ∈ older.map fun stored => (⟨stored, false⟩ : Flagged),
        other.before ⟨newest, true⟩ = false := by
      intro other among
      obtain ⟨stored, _, rfl⟩ := List.mem_map.mp among
      rfl
    rw [relist, List.head?_map]
    exact congrArg (Option.map Flagged.stored)
      (Sorting.head_mergeSort Flagged.before_trans Flagged.before_total first)

/-! ### Seconds -/

/-- The newer of two versions was made no earlier. -/
def Descending (stack : List Stored) : Prop :=
  stack.Pairwise fun newer older => older.second ≤ newer.second

/-- No marker is of the second of a newer content, the newest version left aside. -/
def Untied (stack : List Stored) : Prop :=
  stack.tail.Pairwise fun newer older =>
    newer.isMarker = false → older.isMarker = true → newer.second ≠ older.second

/-- **Without ties a stack is listed as it stands.** -/
theorem relist_untied {stack : List Stored} (descending : Descending stack) (untied : Untied stack) :
    relist stack = stack := by
  have sorted : (Flagged.ofStack stack).Pairwise fun a b => a.before b = true := by
    cases stack with
    | nil => exact .nil
    | cons newest older =>
      refine List.pairwise_cons.mpr ⟨?_, ?_⟩
      · intro other among
        obtain ⟨stored, _, rfl⟩ := List.mem_map.mp among
        rfl
      · have falls := (List.pairwise_cons.mp descending).2
        refine List.pairwise_map.mpr ((falls.and untied).imp ?_)
        intro newer older both
        obtain ⟨falls, apart⟩ := both
        simp only [Flagged.before, bne_self_eq_false, Bool.false_eq_true, if_false]
        by_cases tie : newer.second = older.second
        · cases content : newer.isMarker <;> cases marker : older.isMarker <;> simp [tie]
          exact apart content marker tie
        · simp only [bne_iff_ne, ne_eq, tie, not_false_eq_true, if_true, decide_eq_true_eq]
          omega
  rw [relist, List.mergeSort_of_pairwise sorted, Flagged.stored_ofStack]

/-! ### What a purge spares -/

/-- A content that a listing puts before every marker. -/
def survives (stack : List Flagged) (a : Flagged) : Bool :=
  !a.stored.isMarker && stack.all fun b => !b.stored.isMarker || a.before b

theorem isSome_version (stored : Stored) : stored.version.content.isSome = !stored.isMarker := by
  cases held : stored.content <;> simp [version, isMarker, held]

/-- The contents at the start of a listing are those that come before every marker. -/
theorem takeWhile_listed (flagged : List Flagged) :
    (flagged.mergeSort Flagged.before).takeWhile (fun a => !a.stored.isMarker) =
      (flagged.mergeSort Flagged.before).filter (survives flagged) := by
  have sorted := List.pairwise_mergeSort Flagged.before_trans Flagged.before_total flagged
  rw [Sorting.takeWhile_of_pairwise sorted fun a b content marker =>
    Flagged.before_apart a b (by simpa using content) (by simpa using marker)]
  apply List.filter_congr
  intro a _
  rw [survives, (List.mergeSort_perm flagged Flagged.before).all_eq]

/-- What does not come before every marker is listed behind the first of them. -/
theorem mem_dropWhile_listed {flagged : List Flagged} {a : Flagged} (among : a ∈ flagged)
    (taken : survives flagged a = false) :
    a ∈ (flagged.mergeSort Flagged.before).dropWhile fun a => !a.stored.isMarker := by
  have inside := (List.mergeSort_perm flagged Flagged.before).mem_iff.mpr among
  rw [← List.takeWhile_append_dropWhile (p := fun a : Flagged => !a.stored.isMarker)
    (l := flagged.mergeSort Flagged.before)] at inside
  rcases List.mem_append.mp inside with front | back
  · rw [takeWhile_listed] at front
    rw [(List.mem_filter.mp front).2] at taken
    cases taken
  · exact back

/-- **What a purge spares is what is listed before every marker.** -/
theorem spared_relist {stack : List Stored}
    (distinct : (stack.map fun stored => stored.version.id).Nodup) :
    spared version ((condemned version (relist stack)).map fun dead => dead.version.id) stack =
      ((Flagged.ofStack stack).filter (survives (Flagged.ofStack stack))).map Flagged.stored := by
  have whole := Flagged.stored_ofStack stack
  rw [relist]
  generalize Flagged.ofStack stack = flagged at whole ⊢
  subst whole
  let sorted := flagged.mergeSort Flagged.before
  have dead : condemned version (sorted.map Flagged.stored) =
      (sorted.dropWhile fun a => !a.stored.isMarker).map Flagged.stored := by
    have active : (fun stored : Stored => stored.version.content.isSome) ∘ Flagged.stored =
        fun a => !a.stored.isMarker := by
      funext a
      exact isSome_version a.stored
    rw [condemned, List.dropWhile_map, active]
  have perm := List.mergeSort_perm flagged Flagged.before
  have apart : ((sorted.takeWhile fun a => !a.stored.isMarker) ++
      sorted.dropWhile fun a => !a.stored.isMarker).Pairwise fun a b =>
        a.stored.version.id ≠ b.stored.version.id := by
    rw [List.map_map] at distinct
    rw [List.takeWhile_append_dropWhile]
    exact List.pairwise_map.mp ((perm.map _).nodup_iff.mpr distinct)
  obtain ⟨_, _, across⟩ := List.pairwise_append.mp apart
  rw [dead, spared, List.filter_map]
  refine congrArg (List.map _) (List.filter_congr ?_)
  intro a among
  show (!List.contains _ a.stored.version.id) = _
  cases lives : survives flagged a with
  | true =>
    have front : a ∈ sorted.takeWhile fun a => !a.stored.isMarker := by
      rw [takeWhile_listed]
      exact List.mem_filter.mpr ⟨perm.mem_iff.mpr among, lives⟩
    have unnamed : a.stored.version.id ∉
        ((sorted.dropWhile fun a => !a.stored.isMarker).map Flagged.stored).map fun dead =>
          dead.version.id := by
      rw [List.map_map]
      intro named
      obtain ⟨b, back, same⟩ := List.mem_map.mp named
      exact across a front b back same.symm
    simpa using unnamed
  | false =>
    have back := mem_dropWhile_listed among lives
    have named : a.stored.version.id ∈
        ((sorted.dropWhile fun a => !a.stored.isMarker).map Flagged.stored).map fun dead =>
          dead.version.id := List.mem_map_of_mem (List.mem_map_of_mem back)
    simpa using named

/-- The contents above a marker that are listed before it: the newest version, and those of a later
second. -/
def listedAbove (marker : Stored) (newer : List Stored) : List Stored :=
  newer.take 1 ++ (newer.drop 1).filter fun stored => marker.second < stored.second

/-- Below the newest version a content is listed before the first marker if it is of a later second,
and then before all others too. -/
theorem survives_older {newest : Stored} {newer older : List Stored} {marker : Stored}
    (descending : Descending (newer ++ marker :: older)) (hidden : marker.isMarker = true)
    (contents : ∀ stored ∈ newest :: newer, stored.isMarker = false) (stored : Stored) :
    survives (Flagged.ofStack (newest :: (newer ++ marker :: older))) ⟨stored, false⟩ =
      (!stored.isMarker && decide (marker.second < stored.second)) := by
  cases content : stored.isMarker with
  | true => simp [survives, content]
  | false =>
    have before (other : Stored) (hidden : other.isMarker = true) :
        (⟨stored, false⟩ : Flagged).before ⟨other, false⟩ =
          decide (other.second < stored.second) := by
      unfold Flagged.before
      by_cases tie : stored.second = other.second <;> simp [tie, content, hidden]
    rw [Bool.eq_iff_iff]
    simp only [survives, content, Bool.not_false, Bool.true_and, List.all_eq_true,
      decide_eq_true_eq]
    constructor
    · intro first
      have among : (⟨marker, false⟩ : Flagged) ∈
          Flagged.ofStack (newest :: (newer ++ marker :: older)) := by
        refine .tail _ (List.mem_map.mpr ⟨marker, ?_, rfl⟩)
        exact List.mem_append_right newer (.head older)
      have low := first _ among
      rw [hidden, before marker hidden] at low
      simpa using low
    · intro later b among
      rcases List.mem_cons.mp among with same | inside
      · rw [same, contents newest (.head _)]
        rfl
      · obtain ⟨other, place, rfl⟩ := List.mem_map.mp inside
        cases kind : other.isMarker with
        | false => rfl
        | true =>
          rw [before other kind]
          have low : other.second ≤ marker.second := by
            rcases List.mem_append.mp place with above | below
            · rw [contents other (.tail _ above)] at kind
              cases kind
            · rcases List.mem_cons.mp below with same | under
              · exact same ▸ Int.le_refl _
              · have falls := (List.pairwise_append.mp descending).2.1
                exact (List.pairwise_cons.mp falls).1 other under
          simpa using Int.lt_of_le_of_lt low later

/-- The newest version, if it is a content, is listed before every marker. -/
theorem survives_newest {newest : Stored} (content : newest.isMarker = false) (older : List Stored) :
    survives (Flagged.ofStack (newest :: older)) ⟨newest, true⟩ = true := by
  simp only [survives, Bool.and_eq_true, List.all_eq_true]
  constructor
  · rw [content]
    rfl
  · intro b among
    rcases List.mem_cons.mp among with same | later
    · rw [same, content]
      rfl
    · obtain ⟨stored, _, rfl⟩ := List.mem_map.mp later
      rw [Bool.or_eq_true]
      exact .inr rfl

/-- A marker on top is listed before every content. -/
theorem survives_marker {newest : Stored} (marker : newest.isMarker = true) (older : List Stored) :
    ∀ a ∈ Flagged.ofStack (newest :: older),
      survives (Flagged.ofStack (newest :: older)) a = false := by
  intro a among
  have first : (⟨newest, true⟩ : Flagged) ∈ Flagged.ofStack (newest :: older) := .head _
  rw [Bool.eq_false_iff]
  intro lives
  simp only [survives, Bool.and_eq_true, List.all_eq_true] at lives
  rcases List.mem_cons.mp among with same | later
  · rw [same, marker] at lives
    cases lives.1
  · obtain ⟨stored, _, rfl⟩ := List.mem_map.mp later
    have before := lives.2 _ first
    rw [marker] at before
    cases before

/-- **What a purge spares of a stack with a marker.** -/
theorem filter_survives {newer older : List Stored} {marker : Stored}
    (descending : Descending (newer ++ marker :: older)) (hidden : marker.isMarker = true)
    (contents : ∀ stored ∈ newer, stored.isMarker = false) :
    ((Flagged.ofStack (newer ++ marker :: older)).filter
        (survives (Flagged.ofStack (newer ++ marker :: older)))).map Flagged.stored =
      listedAbove marker newer := by
  cases newer with
  | nil =>
    have none : (Flagged.ofStack (marker :: older)).filter
        (survives (Flagged.ofStack (marker :: older))) = [] := by
      rw [List.filter_eq_nil_iff]
      intro a among
      rw [survives_marker hidden older a among]
      exact Bool.false_ne_true
    rw [List.nil_append, none]
    rfl
  | cons newest newer =>
    have lower := survives_older (List.pairwise_cons.mp descending).2 hidden contents
    have top := survives_newest (contents newest (.head _)) (newer ++ marker :: older)
    have falls := (List.pairwise_append.mp (List.pairwise_cons.mp descending).2).2.1
    show ((⟨newest, true⟩ ::
      (newer ++ marker :: older).map fun stored => (⟨stored, false⟩ : Flagged)).filter _).map _ =
        newest :: newer.filter _
    rw [List.cons_append, List.filter_cons_of_pos top, List.map_cons, List.filter_map, List.map_map]
    refine congrArg (newest :: ·) ((List.map_id _).trans ?_)
    rw [show (survives _ ∘ fun stored => (⟨stored, false⟩ : Flagged)) = _ from funext lower,
      List.filter_append]
    have above : newer.filter
        (fun stored => !stored.isMarker && decide (marker.second < stored.second)) =
          newer.filter fun stored => marker.second < stored.second := by
      apply List.filter_congr
      intro stored among
      simp [contents stored (.tail _ among)]
    have below : (marker :: older).filter
        (fun stored => !stored.isMarker && decide (marker.second < stored.second)) = [] := by
      rw [List.filter_eq_nil_iff]
      intro stored among
      rcases List.mem_cons.mp among with same | under
      · simp [same]
      · have low := (List.pairwise_cons.mp falls).1 stored under
        simp only [Bool.and_eq_true, decide_eq_true_eq]
        omega
    rw [above, below, List.append_nil]

/-- Without a marker a purge spares everything. -/
theorem filter_survives_contents {stack : List Stored}
    (contents : ∀ stored ∈ stack, stored.isMarker = false) :
    ((Flagged.ofStack stack).filter (survives (Flagged.ofStack stack))).map Flagged.stored =
      stack := by
  have whole := Flagged.stored_ofStack stack
  generalize Flagged.ofStack stack = flagged at whole ⊢
  subst whole
  have content : ∀ a ∈ flagged, a.stored.isMarker = false := by
    intro a among
    exact contents a.stored (List.mem_map_of_mem among)
  have all : flagged.filter (survives flagged) = flagged := by
    rw [List.filter_eq_self]
    intro a among
    simp only [survives, content a among, Bool.not_false, Bool.true_and, List.all_eq_true]
    intro b inside
    rw [content b inside]
    rfl
  rw [all]

end Stored

end FossilVault.Bucket
