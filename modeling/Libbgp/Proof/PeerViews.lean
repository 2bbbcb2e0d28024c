/-
How a published list of changes reaches the peers of the sessions.
-/

import Libbgp.Proof.Propagation

namespace Libbgp

open Library List

namespace RouteChange

variable {changes : List RouteChange} {key : Key} {pass : RouteChange → Bool}

/-- Whoever takes the changes that have the last value of a key ends with this value. -/
theorem foldl_passed (first second : View) (touched : ∃ change ∈ changes, change.key = key)
    (passed : ∀ change ∈ changes, change.key = key → change.value = changes.foldl apply first key →
      pass change = true) :
    changes.foldl (fun view change => if pass change then change.apply view else view) second key =
      changes.foldl apply first key := by
  -- The last change decides, so the induction takes it off first.
  induction changes using reverseRecOn with
  | nil =>
    obtain ⟨_, impossible, _⟩ := touched
    cases impossible
  | append_singleton rest last ih =>
    simp only [foldl_append, foldl_cons, foldl_nil] at passed ⊢
    by_cases here : last.key = key
    · subst here
      have taken := passed last (by simp) rfl (by rw [apply, Function.update_self])
      rw [if_pos taken, apply, Function.update_self, apply, Function.update_self]
    · have old : ∀ view, apply view last key = view key := fun view => Function.update_of_ne (Ne.symm here) _ _
      have skipped : ∀ view : View, (if pass last then last.apply view else view) key = view key := by
        intro view
        split
        · exact old view
        · rfl
      rw [skipped, old]
      refine ih ?_ fun change member place value => passed change (mem_append_left _ member) place ?_
      · obtain ⟨change, member, place⟩ := touched
        rcases mem_append.mp member with inside | only
        · exact ⟨change, inside, place⟩
        · exact absurd (mem_singleton.mp only ▸ place) here
      · rw [old]
        exact value

/-- Whoever takes no change of a key keeps its value. -/
theorem foldl_barred (view : View) (barred : ∀ change ∈ changes, change.key = key → pass change = false) :
    changes.foldl (fun view change => if pass change then change.apply view else view) view key = view key := by
  induction changes generalizing view with
  | nil => rfl
  | cons change rest ih =>
    rw [foldl_cons, ih _ fun other member => barred other (mem_cons_of_mem _ member)]
    split
    · rename_i taken
      refine Function.update_of_ne (fun same => ?_) _ _
      rw [barred change mem_cons_self same.symm] at taken
      cases taken
    · rfl

end RouteChange

theorem Fsm.receives_iff {fsm : Fsm} {af : Af} {source : RouterId} : fsm.receives af source = true ↔
    (fsm.state = .established ∧ (source = 0 ∨ source ≠ fsm.peerBgpId)) ∧ fsm.sendRoutes af = true := by
  simp only [Fsm.receives, Bool.and_eq_true, Bool.or_eq_true, beq_iff_eq, bne_iff_ne]

namespace Sys

variable {sys before after : Sys} {index : Nat} {added withdrawn : Nat} {peer : RouterId} {changes : List RouteChange}
  {event : Event} {publisher : Nat}

/-- A session gets the events that it did not publish itself. -/
theorem session_listed (wired : sys.Wired) (present : index < sys.count) {id : Nat}
    (own : (sys.fsm index).params.subId event.type = some id) (foreign : publisher ≠ id) :
    listed (sys.targets publisher event) (.session index) = true := by
  refine any_eq_true.mpr ⟨_, mem_filter.mpr ⟨wired.listens index present _ _ own, ?_⟩, by simp⟩
  simp [Ne.symm foreign]

theorem listed_present (wired : sys.Wired) (heard : listed (sys.targets publisher event) (.session index) = true) :
    index < sys.count := by
  obtain ⟨sub, member, target⟩ := any_eq_true.mp heard
  exact (wired.own sub (mem_filter.mp member).1 index (beq_iff_eq.mp target)).1

/-- Nothing that was published under one of two identifiers is kept from a session with others. -/
theorem audience_listed (wired : sys.Wired) (present : index < sys.count)
    (first : added ≠ (sys.fsm index).params.routeAddedSubId)
    (second : withdrawn ≠ (sys.fsm index).params.routeWithdrawnSubId) (change : RouteChange) :
    listed (sys.audience added withdrawn peer change) (.session index) = true := by
  cases change with
  | added af route => exact session_listed wired present rfl first
  | withdrawn af pfx => exact session_listed wired present rfl second

/-- No session listens under the identifier zero. -/
theorem audience_everyone (wired : sys.Wired) (present : index < sys.count) (change : RouteChange) :
    listed (sys.audience 0 0 peer change) (.session index) = true := by
  have positive : ∀ type id, (sys.fsm index).params.subId type = some id → 0 ≠ id := fun type id own =>
    (wired.positive (wired.listens index present type id own)).ne
  exact audience_listed wired present (positive .routeAdded _ rfl) (positive .routeWithdrawn _ rfl) change

/-- What a session publishes reaches every other one. -/
theorem audience_others {listener : Nat} (wired : before.Wired) (setup : Setup before after)
    (present : index < before.count)
    (inside : listener < after.count) (different : listener ≠ index) (change : RouteChange) :
    listed (after.audience (before.fsm index).params.routeAddedSubId (before.fsm index).params.routeWithdrawnSubId peer
      change) (.session listener) = true := by
  have ids : ∀ type id, (before.fsm index).params.subId type = some id →
      (after.fsm listener).params.subId type ≠ some id := by
    intro type id publishes
    rw [setup.params]
    exact wired.different present (by rw [← setup.count]; exact inside) (Ne.symm different) publishes
  exact audience_listed (wired.setup setup) inside (fun same => ids .routeAdded _ rfl (congrArg some same.symm))
    (fun same => ids .routeWithdrawn _ rfl (congrArg some same.symm)) change

/-- A session does not hear what it publishes itself. -/
theorem audience_own (wired : before.Wired) (setup : Setup before after) (change : RouteChange) :
    listed (after.audience (before.fsm index).params.routeAddedSubId (before.fsm index).params.routeWithdrawnSubId peer
      change) (.session index) = false := by
  have deaf : ∀ event id, (before.fsm index).params.subId event.type = some id →
      listed (after.targets id event) (.session index) = false := by
    intro event id own
    rw [listed, any_eq_false]
    intro sub member target
    obtain ⟨inside, passed⟩ := mem_filter.mp member
    simp only [Bool.and_eq_true, beq_iff_eq, Bool.or_eq_true, bne_iff_ne] at passed
    obtain ⟨present, same⟩ := (wired.setup setup).own sub inside index (beq_iff_eq.mp target)
    rw [setup.params, passed.1, own] at same
    rcases passed.2 with zero | other
    · exact absurd zero (wired.positive (wired.listens index (by rw [← setup.count]; exact present) _ _ own)).ne'
    · exact other (Option.some.inj same).symm
  cases change with
  | added af route => exact deaf (.routeAdded af route.sourceRouterId route.pfx (exportedMessage af route)) _ rfl
  | withdrawn af pfx => exact deaf (.routeWithdrawn af peer pfx) _ rfl

theorem wants_added (fsm : Fsm) (af : Af) (source : RouterId) (pfx : Prefix af.family.width) (update : UpdateMsg) :
    wants fsm (.routeAdded af source pfx update) = (fsm.receives af source && fsm.exports af source pfx update) := rfl

theorem wants_withdrawn (fsm : Fsm) (af : Af) (source : RouterId) (pfx : Prefix af.family.width) :
    wants fsm (.routeWithdrawn af source pfx) = fsm.receives af source := Bool.and_true _

/-- A session passes a best route on. -/
def Due (fsm : Fsm) (af : Af) (entry : RouteEntry af.family.width) : Prop :=
  wants fsm (.routeAdded af entry.source entry.pfx (exportedMessage af entry.route)) = true

/-- A peer whose session hears about a change holds the best route that the changes end with. -/
theorem Broadcast.tells (published : Broadcast added withdrawn peer changes before after)
    (heard : ∀ change, listed (before.audience added withdrawn peer change) (.session index) = true) {af : Af}
    {entry : RouteEntry af.family.width} (due : Due (before.fsm index) af entry) (view : View)
    (touched : ∃ change ∈ changes, change.key = ⟨af, entry.pfx⟩)
    (value : changes.foldl RouteChange.apply view ⟨af, entry.pfx⟩ = some (announcement af entry)) :
    held index after.trace ⟨af, entry.pfx⟩ = some (announcement af entry) := by
  rw [published.peers, ← value]
  refine @RouteChange.foldl_passed changes _ (fun change => listed (before.audience added withdrawn peer change)
    (.session index) && wants (before.fsm index) (change.event peer)) view _ touched ?_
  intro change member place same
  rw [value] at same
  rw [heard, Bool.true_and]
  cases change with
  | added other route =>
    obtain ⟨rfl, place⟩ := Sigma.mk.inj place
    obtain ⟨source, update⟩ := Announcement.mk.inj (Option.some.inj same)
    rw [RouteChange.event, source, update, eq_of_heq place]
    exact due
  | withdrawn other pfx => cases same

end Sys

end Libbgp
