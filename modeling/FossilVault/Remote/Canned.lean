import FossilVault.Remote.Call
/-
**Canned remotes.** A remote that answers every listing with the same entries and every download with
the same bytes, whatever it is asked for, and otherwise only counts its markers. It shows what the vault
makes of listings that no store would give.
-/

namespace FossilVault

/-- What a canned remote answers. -/
structure Canned where
  listing : List Entry := []
  body : Bytes := []
  markers : Nat := 0

namespace Canned

/-- The answer of a canned remote to each call. -/
def answer : Handler Remote.interface Canned
  | .authorize, session, canned => (.ok (), session, canned)
  | .findBucket _, session, canned => (.ok (), session, canned)
  | .list .., session, canned => (.ok canned.listing, session, canned)
  | .delete .., session, canned => (.ok (), session, canned)
  | .hide .., session, canned =>
    (.ok ("h" ++ toString (canned.markers + 1)), session, { canned with markers := canned.markers + 1 })
  | .upload .., session, canned => (.ok (), session, canned)
  | .download .., session, canned => (.ok { source := { content := canned.body } }, session, canned)

theorem answer_list (worker : Int) (stem : String) (exact withHidden : Bool) (session : Session)
    (canned : Canned) :
    answer (.list worker stem exact withHidden) session canned = (.ok canned.listing, session, canned) :=
  rfl

end Canned

end FossilVault
