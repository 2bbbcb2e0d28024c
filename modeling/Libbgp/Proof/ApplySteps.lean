import Libbgp.Proof.Journal

namespace Libbgp

open Library Function RibImpl Journal

/-- The insertions of one family as an undo log. -/
def Journal.insertions (journal : Journal) (af : Af) :
    List (UndoEntry (Prefix af.family.width) (Route af.family.width) UInt64) :=
  (journal.get af).routes.map fun route => ⟨route.pfx, route.updateId, route.restoreReplaced, route.replaced⟩

/-- The withdrawals of one family as an undo log. -/
def Journal.removals (journal : Journal) (af : Af) : List (Prefix af.family.width × Route af.family.width) :=
  (journal.get af).withdrawn.filterMap fun route => route.saved.map fun saved => (route.pfx, saved)

namespace Applying

variable {state before after : Applying} {af : Af} {peer : RouterId}
  {events : List EventRef} {rib : RibImpl af.family} {journal : Journal} {rest : Allocator}

/-- The routes of one source in one of the tables. -/
def routesFrom (state : Applying) (af : Af) (source : RouterId) :
    Prefix af.family.width → Option (Route af.family.width) :=
  (state.ribs.get af).routeAt source

/-- A step touched only the routes of one peer in one table. -/
structure Confined (af : Af) (peer : RouterId) (before after : Applying) : Prop where
  spent : before.alloc.Spent after.alloc
  others : ∀ other, other ≠ af → after.ribs.get other = before.ribs.get other
  invariant : (after.ribs.get af).Invariant
  foreign : ∀ source, source ≠ peer → after.routesFrom af source = before.routesFrom af source

theorem Confined.refl (invariant : (state.ribs.get af).Invariant) : Confined af peer state state :=
  ⟨.refl _, fun _ _ => rfl, invariant, fun _ _ => rfl⟩

theorem Confined.trans {first second third : Applying} (left : Confined af peer first second)
    (right : Confined af peer second third) : Confined af peer first third where
  spent := left.spent.trans right.spent
  others other different := (right.others other different).trans (left.others other different)
  invariant := right.invariant
  foreign source different := (right.foreign source different).trans (left.foreign source different)

/-- Where a route goes back into a free place. -/
def putSaved {width : Nat} (saved : Option (Route width)) (map : Prefix width → Option (Route width)) :
    Prefix width → Option (Route width) :=
  saved.elim map fun route => UndoLog.putBack route.pfx (some route) map

/-- A saved route belongs to the peer and fits its family. -/
def Own (af : Af) (peer : RouterId) (saved : Option (Route af.family.width)) : Prop :=
  ∀ route ∈ saved, route.sourceRouterId = peer ∧ route.pfx.len ≤ af.family.width

theorem own_routesFrom (invariant : (state.ribs.get af).Invariant) (pfx : Prefix af.family.width) :
    Own af peer (state.routesFrom af peer pfx) := by
  intro route found
  obtain ⟨source, -, fits⟩ := invariant.routeAt_key found
  exact ⟨source, fits⟩

/-- What putting a saved route back does to the tables. -/
theorem restore_spec (invariant : (state.ribs.get af).Invariant) {saved : Option (Route af.family.width)}
    (own : Own af peer saved) :
    Confined af peer state (state.restore af peer saved) ∧
      (state.restore af peer saved).journal = state.journal ∧
      (state.alloc.Generous →
        (state.restore af peer saved).routesFrom af peer = putSaved saved (state.routesFrom af peer)) := by
  have fits : ∀ route ∈ saved, route.pfx.len ≤ af.family.width := fun route member => (own route member).2
  rcases restoreSavedIfAbsent_cases invariant peer saved fits state.alloc with
    ⟨err, unchanged, taken⟩ | ⟨route, rib, rest, held, owner, free, linked, spent, afterInvariant, attached⟩ |
      ⟨rib, rest, failed, refused, afterInvariant, same⟩
  · have result : state.restore af peer saved = state := by
      simp only [restore, unchanged, Ribs.set_get]
    rw [result]
    refine ⟨Confined.refl invariant, rfl, fun _ => ?_⟩
    rcases saved with _ | route
    · rfl
    · -- Nothing was linked, so the place is taken.
      have occupied : (state.routesFrom af peer route.pfx).isNone = false := by
        rw [Option.isNone_eq_false_iff, ← Option.ne_none_iff_isSome, ne_eq, routesFrom, routeAt_eq_none_iff]
        exact taken route rfl (own route rfl).1
      rw [putSaved, Option.elim_some, UndoLog.putBack, occupied, if_neg Bool.false_ne_true]
  · have result : state.restore af peer saved = { state with ribs := state.ribs.set af rib, alloc := rest } := by
      simp only [restore, linked]
    subst owner held
    rw [result]
    refine ⟨⟨spent, fun other different => ?_, ?_, fun source different => ?_⟩, rfl, fun _ => ?_⟩
    · exact Ribs.get_set_of_ne _ different _
    · rw [Ribs.get_set]
      exact afterInvariant
    · rw [routesFrom, Ribs.get_set]
      exact attached.routeAt_other invariant afterInvariant different
    · have absent : (state.routesFrom af route.sourceRouterId route.pfx).isNone = true := by
        rw [Option.isNone_iff_eq_none, routesFrom, routeAt_eq_none_iff]
        exact free
      rw [putSaved, Option.elim_some, UndoLog.putBack, absent, if_pos rfl, routesFrom, Ribs.get_set]
      exact attached.routeAt_own invariant afterInvariant
  · have result : state.restore af peer saved = { state with ribs := state.ribs.set af rib, alloc := rest } := by
      simp only [restore, failed]
    have unchanged := same.routeAt_eq invariant afterInvariant
    rw [result]
    refine ⟨⟨refused.spent, fun other different => ?_, ?_, fun source different => ?_⟩, rfl, fun generous => ?_⟩
    · exact Ribs.get_set_of_ne _ different _
    · rw [Ribs.get_set]
      exact afterInvariant
    · rw [routesFrom, Ribs.get_set, unchanged]
      rfl
    · exact absurd refused generous.not_refused

/-- What taking an inserted route out again does to the tables. -/
theorem remove_spec (invariant : (state.ribs.get af).Invariant) (pfx : Prefix af.family.width) (updateId : UInt64) :
    Confined af peer state (state.remove af peer pfx updateId) ∧
      (state.remove af peer pfx updateId).journal = state.journal ∧
      (state.remove af peer pfx updateId).alloc = state.alloc ∧
      (updateId = 0 → state.remove af peer pfx updateId = state) ∧
      (updateId ≠ 0 → ∀ restore replaced, (state.remove af peer pfx updateId).routesFrom af peer =
        UndoLog.removeStep Route.updateId ⟨pfx, updateId, restore, replaced⟩ (state.routesFrom af peer)) := by
  rcases withdrawIfUpdateId_cases invariant peer pfx updateId state.alloc with
    ⟨err, unchanged, unmarked⟩ | ⟨entry, rib, found, tagged, done, detached⟩
  · have result : state.remove af peer pfx updateId = state := by
      simp only [remove, unchanged, Ribs.set_get]
    rw [result]
    refine ⟨Confined.refl invariant, rfl, rfl, fun _ => rfl, fun marked restore replaced => ?_⟩
    have other : (state.routesFrom af peer pfx).any (fun route => route.updateId == updateId) = false := by
      rw [Option.any_eq_false]
      intro route held
      obtain ⟨entry, found, rfl⟩ := Option.map_eq_some_iff.mp held
      have different := unmarked.resolve_left marked entry found
      simpa using different
    rw [UndoLog.removeStep, other, if_neg Bool.false_ne_true]
  · obtain ⟨member, rfl, rfl⟩ := find_some found
    have result : state.remove af entry.source entry.pfx updateId = { state with ribs := state.ribs.set af rib } := by
      simp only [remove, done]
    rw [result]
    refine ⟨⟨.refl _, fun other different => ?_, ?_, fun source different => ?_⟩, rfl, rfl,
      fun zero => ?_, fun marked restore replaced => ?_⟩
    · exact Ribs.get_set_of_ne _ different _
    · rw [Ribs.get_set]
      exact invariant.detached detached
    · rw [routesFrom, Ribs.get_set]
      exact detached.routeAt_other invariant different
    · -- An update id of zero is rejected before the search.
      rw [withdrawIfUpdateId, if_pos zero] at done
      cases done
    · have held : (state.routesFrom af entry.source entry.pfx).any
          (fun route => route.updateId == updateId) = true := by
        rw [routesFrom, routeAt, found]
        simpa using tagged
      rw [UndoLog.removeStep, held, if_pos rfl, routesFrom, Ribs.get_set]
      exact detached.routeAt_own invariant member

/-- The changes that a tracked withdrawal puts into the journal. -/
def withdrawChanges (af : Af) (pfx : Prefix af.family.width) (change : RibChange af.family.width) : List RouteChange :=
  match change.kind, change.best with
  | .replacementBest, some best => [.added af best]
  | .unreachable, _ => [.withdrawn af pfx]
  | _, _ => []

/-- The changes that a tracked insert puts into the journal. -/
def insertChanges (af : Af) (change : RibChange af.family.width) : List RouteChange :=
  if isNewBest change.kind then change.best.toList.map (.added af) else []

/-- What a step has added to the journal. -/
structure Recorded (before after : Journal) (af : Af)
    (inserted : List (UndoEntry (Prefix af.family.width) (Route af.family.width) UInt64))
    (removed : List (Prefix af.family.width × Route af.family.width)) (changes : List RouteChange) : Prop where
  insertions : after.insertions af = before.insertions af ++ inserted
  removals : after.removals af = before.removals af ++ removed
  otherInsertions : ∀ other, other ≠ af → after.insertions other = before.insertions other
  otherRemovals : ∀ other, other ≠ af → after.removals other = before.removals other
  wellFormed : before.WellFormed → after.WellFormed
  changes : before.WellFormed → after.changes = before.changes ++ changes

theorem recorded_of_same {before after : Journal} (same : Journal.SameRecords before after) (af : Af) :
    Recorded before after af [] [] [] where
  insertions := by rw [insertions, same.routes, List.append_nil, insertions]
  removals := by rw [removals, same.withdrawn, List.append_nil, removals]
  otherInsertions other _ := by rw [insertions, same.routes, insertions]
  otherRemovals other _ := by rw [removals, same.withdrawn, removals]
  wellFormed := same.wellFormed
  changes _ := by rw [same.changes_eq, List.append_nil]

/-- What a grown journal has recorded. -/
theorem recorded_of_grown {before after : Journal} {routes : List (AppliedRoute af.family.width)}
    {withdrawn : List (WithdrawnRoute af.family.width)}
    (grown : Journal.Grown before after af routes withdrawn events) {changes : List RouteChange}
    (fresh : ∀ ref ∈ events, after.Inside ref) (resolved : events.filterMap after.resolve = changes) :
    Recorded before after af
      (routes.map fun route => ⟨route.pfx, route.updateId, route.restoreReplaced, route.replaced⟩)
      (withdrawn.filterMap fun route => route.saved.map fun saved => (route.pfx, saved)) changes where
  insertions := by rw [insertions, grown.routes, List.map_append, insertions]
  removals := by rw [removals, grown.withdrawn, List.filterMap_append, removals]
  otherInsertions other different := by
    rw [insertions, grown.otherRoutes other different, insertions]
  otherRemovals other different := by
    rw [removals, grown.otherWithdrawn other different, removals]
  wellFormed known := grown.wellFormed known fresh
  changes known := by rw [grown.changes_eq known, resolved]

/-- A failed loop body: the journal has no new record, and with memory for the undo the routes of the
peer are the ones from before. -/
structure Failed (af : Af) (peer : RouterId) (before after : Applying) : Prop where
  confined : Confined af peer before after
  records : Journal.SameRecords before.journal after.journal
  restored : before.alloc.SingleRefusal → after.routesFrom af peer = before.routesFrom af peer

/-- A completed withdrawal of one prefix. -/
inductive WithdrawStep (af : Af) (peer : RouterId) (pfx : Prefix af.family.width) (before after : Applying) : Prop
  | missing (absent : before.routesFrom af peer pfx = none) (ribs : after.ribs = before.ribs)
      (spent : before.alloc.Spent after.alloc) (recorded : Recorded before.journal after.journal af [] [] [])
  | done (entry : RouteEntry af.family.width) (change : RibChange af.family.width)
      (member : entry ∈ (before.ribs.get af).linked) (own : entry.source = peer) (place : entry.pfx = pfx)
      (detached : (before.ribs.get af).Detached (after.ribs.get af) entry)
      (report : (before.ribs.get af).WithdrawReport (after.ribs.get af) peer pfx change)
      (others : ∀ other, other ≠ af → after.ribs.get other = before.ribs.get other)
      (spent : before.alloc.Spent after.alloc)
      (recorded : Recorded before.journal after.journal af [] [(pfx, entry.route)] (withdrawChanges af pfx change))

/-- A withdrawal that cannot be recorded is taken back. -/
theorem failed_withdraw (invariant : (before.ribs.get af).Invariant) {entry : RouteEntry af.family.width}
    (member : entry ∈ (before.ribs.get af).linked) (own : entry.source = peer)
    (detached : (before.ribs.get af).Detached rib entry) (same : Journal.SameRecords before.journal journal)
    (refused : before.alloc.Refused rest) :
    before.alloc.Refused (restore ⟨before.ribs.set af rib, journal, rest⟩ af peer (some entry.route)).alloc ∧
      Failed af peer before (restore ⟨before.ribs.set af rib, journal, rest⟩ af peer (some entry.route)) := by
  subst own
  let middle : Applying := ⟨before.ribs.set af rib, journal, rest⟩
  have table : middle.ribs.get af = rib := Ribs.get_set _ _ _
  have middleInvariant : (middle.ribs.get af).Invariant := table ▸ invariant.detached detached
  have confined : Confined af entry.source before middle := by
    refine ⟨refused.spent, fun other different => Ribs.get_set_of_ne _ different _, middleInvariant, ?_⟩
    intro source different
    rw [routesFrom, table]
    exact detached.routeAt_other invariant different
  have ownRoute : Own af entry.source (some entry.route) := by
    intro route same
    cases same
    exact ⟨rfl, invariant.valid entry member⟩
  obtain ⟨restoring, sameJournal, restored⟩ := restore_spec middleInvariant ownRoute
  refine ⟨refused.trans_spent restoring.spent, confined.trans restoring, sameJournal ▸ same, fun single => ?_⟩
  have held : before.routesFrom af entry.source entry.pfx = some entry.route :=
    invariant.routeAt_eq_some_iff.mpr ⟨entry, member, rfl, rfl, rfl⟩
  have emptied : middle.routesFrom af entry.source =
      update (before.routesFrom af entry.source) entry.pfx none := by
    rw [routesFrom, table]
    exact detached.routeAt_own invariant member
  rw [restored (single.generous_of_refused refused), emptied]
  funext pfx
  by_cases here : pfx = entry.pfx
  · subst here
    have place : entry.route.pfx = entry.pfx := rfl
    simp [putSaved, held, place]
  · have place : pfx ≠ entry.route.pfx := here
    simp [putSaved, UndoLog.putBack_of_ne place, update_of_ne here]

/-- The newest withdrawal record is what its event refers to. -/
theorem resolve_withdrawn {before after : Journal} {record : WithdrawnRoute af.family.width}
    (grown : Journal.Grown before after af [] [record] events) :
    after.Inside ⟨af, .withdrawn, (before.get af).withdrawn.length⟩ ∧
      after.resolve ⟨af, .withdrawn, (before.get af).withdrawn.length⟩ =
        if record.publishReplacement then record.replacementRoute.map (.added af)
        else if record.publishWithdrawn then some (.withdrawn af record.pfx) else none := by
  constructor
  · simp [Journal.Inside, grown.withdrawn]
  · simp [resolve, grown.withdrawn]

section Withdrawn

variable {pfx : Prefix af.family.width} {entry : RouteEntry af.family.width} {change : RibChange af.family.width}
  {rib : RibImpl af.family}

theorem WithdrawStep.ofDetached (member : entry ∈ (state.ribs.get af).linked) (own : entry.source = peer)
    (place : entry.pfx = pfx) (detached : (state.ribs.get af).Detached rib entry)
    (report : (state.ribs.get af).WithdrawReport rib peer pfx change) (ribs : after.ribs = state.ribs.set af rib)
    (spent : state.alloc.Spent after.alloc)
    (recorded : Recorded state.journal after.journal af [] [(pfx, entry.route)] (withdrawChanges af pfx change)) :
    WithdrawStep af peer pfx state after := by
  have table : after.ribs.get af = rib := by rw [ribs, Ribs.get_set]
  refine .done entry change member own place (table ▸ detached) (table ▸ report) ?_ spent recorded
  intro other different
  rw [ribs]
  exact Ribs.get_set_of_ne _ different _

/-- A withdrawal is done, or it is refused memory and taken back. -/
def Withdraws (af : Af) (peer : RouterId) (pfx : Prefix af.family.width) (state : Applying)
    (result : Err × Applying) : Prop :=
  (∃ after, result = (.ok, after) ∧ WithdrawStep af peer pfx state after) ∨
    (∃ after, result = (.nomem, after) ∧ state.alloc.Refused after.alloc ∧ Failed af peer state after)

/-- A reported loss or replacement needs an event; both are recorded in the same way. -/
theorem withdrawEvent_cases (invariant : (state.ribs.get af).Invariant) (member : entry ∈ (state.ribs.get af).linked)
    (own : entry.source = peer) (place : entry.pfx = pfx) (detached : (state.ribs.get af).Detached rib entry)
    (report : (state.ribs.get af).WithdrawReport rib peer pfx change) {wide : Journal} {left : Allocator}
    (same : Journal.SameRecords state.journal wide) (spent : state.alloc.Spent left) (unreachable replacement : Bool)
    (route : Option (Route af.family.width)) (resolved : (if replacement then route.map (RouteChange.added af)
      else if unreachable then some (.withdrawn af pfx) else none).toList = withdrawChanges af pfx change) :
    Withdraws af peer pfx state (match wide.appendEvent ⟨af, .withdrawn, (wide.get af).withdrawn.length⟩ left with
      | (.ok, journal, alloc) => (.ok, ⟨state.ribs.set af rib,
          journal.addWithdrawn af ⟨pfx, unreachable, replacement, route, some entry.route⟩, alloc⟩)
      | (err, journal, alloc) =>
        (err, restore ⟨state.ribs.set af rib, journal, alloc⟩ af peer (some entry.route))) := by
  rw [same.withdrawn]
  rcases wide.appendEvent_cases ⟨af, .withdrawn, (state.journal.get af).withdrawn.length⟩ left with
    ⟨last, final, appended, enough, sameLast⟩ | ⟨last, final, failed, more, sameLast⟩
  · rw [appended, same.events]
    refine .inl ⟨_, rfl, .ofDetached member own place detached report rfl (spent.trans enough) ?_⟩
    have grown := addWithdrawn_grown (same.trans sameLast) af
      ⟨pfx, unreachable, replacement, route, some entry.route⟩
      [⟨af, .withdrawn, (state.journal.get af).withdrawn.length⟩] last.eventsCap
    obtain ⟨inside, meaning⟩ := resolve_withdrawn grown
    refine recorded_of_grown grown (fun ref member => ?_) ?_
    · rw [List.mem_singleton.mp member]
      exact inside
    · rw [← resolved, List.filterMap_cons, meaning]
      split <;> simp_all
  · rw [failed]
    exact .inr ⟨_, rfl, failed_withdraw invariant member own detached (same.trans sameLast)
      (spent.trans_refused more)⟩

/-- A withdrawal finds nothing, is recorded, or is refused memory and taken back. -/
theorem recordWithdraw_cases (invariant : (state.ribs.get af).Invariant) (peer : RouterId)
    (pfx : Prefix af.family.width) : Withdraws af peer pfx state (state.recordWithdraw af peer pfx) := by
  unfold recordWithdraw
  rcases state.journal.reserveWithdrawn_reserved af ((state.journal.get af).withdrawn.length + 1) state.alloc with
    ⟨wide, rest, reserved, spent, same⟩ | ⟨wide, rest, failed, refused, same⟩
  · simp only [reserved]
    rcases withdrawTrackBest_cases invariant peer pfx rest with
      ⟨absent, tracked⟩ | ⟨entry, rib, member, own, place, detached,
        ⟨left, tracked, more⟩ | ⟨change, left, tracked, more, report⟩⟩
    · simp only [tracked, Ribs.set_get]
      exact .inl ⟨_, rfl, .missing absent rfl spent (recorded_of_same same af)⟩
    · simp only [tracked]
      exact .inr ⟨_, rfl, failed_withdraw invariant member own detached same (spent.trans_refused more)⟩
    · simp only [tracked]
      have recorded := withdrawEvent_cases invariant member own place detached report same (spent.trans more)
      cases report with
      | kept best foreign =>
        refine .inl ⟨_, rfl, .ofDetached member own place detached (.kept best foreign) rfl (spent.trans more) ?_⟩
        have grown := addWithdrawn_grown same af ⟨pfx, false, false, none, some entry.route⟩ [] wide.eventsCap
        rw [List.append_nil, ← same.events] at grown
        exact recorded_of_grown grown (by simp) rfl
      | lost held before heldOwn gone => exact recorded true false none rfl
      | replaced held best before heldOwn found => exact recorded false true (some best.route) rfl
  · simp only [failed]
    refine .inr ⟨_, rfl, refused, ⟨refused.spent, fun _ _ => rfl, invariant, fun _ _ => rfl⟩, same, fun _ => rfl⟩

end Withdrawn

/-- A completed insertion of one announced route. -/
structure InsertStep (af : Af) (peer : RouterId) (route : Route af.family.width) (before after : Applying) : Prop where
  stored : (before.ribs.get af).Stored (after.ribs.get af) route
  others : ∀ other, other ≠ af → after.ribs.get other = before.ribs.get other
  spent : before.alloc.Spent after.alloc
  recorded : ∃ change best, (before.ribs.get af).InsertReport (after.ribs.get af) route.pfx change best ∧
    Recorded before.journal after.journal af
      [⟨route.pfx, (cloneOf (before.ribs.get af).nextUpdateId route).updateId,
        (before.routesFrom af peer route.pfx).any fun old => !before.journal.hasRoute af route.pfx old.updateId,
        before.routesFrom af peer route.pfx⟩] [] (insertChanges af change)

/-- A route without an update id gets one that is not zero. -/
theorem cloneOf_marked {family : AddrFamily} (counter : UInt64) {route : Route family.width}
    (fresh : route.updateId = 0) : (cloneOf counter route).updateId ≠ 0 := by
  simp only [cloneOf, fresh, if_true, nextId]
  split
  · rename_i wrapped
    have next : counter + 2 = counter + 1 + 1 := by rw [UInt64.add_assoc]; rfl
    rw [next, wrapped]
    decide
  · assumption

/-- An insertion that cannot be recorded is taken back, and what it replaced is restored. -/
theorem failed_insert (invariant : (before.ribs.get af).Invariant) {route : Route af.family.width}
    (own : route.sourceRouterId = peer) (fresh : route.updateId = 0) (stored : (before.ribs.get af).Stored rib route)
    (same : Journal.SameRecords before.journal journal) (refused : before.alloc.Refused rest) {after : Applying}
    (undone : after = ((⟨before.ribs.set af rib, journal, rest⟩ : Applying).remove af peer route.pfx
      (cloneOf (before.ribs.get af).nextUpdateId route).updateId).restore af peer
        (before.routesFrom af peer route.pfx)) : before.alloc.Refused after.alloc ∧ Failed af peer before after := by
  subst own
  let middle : Applying := ⟨before.ribs.set af rib, journal, rest⟩
  have marked := cloneOf_marked (before.ribs.get af).nextUpdateId fresh
  have table : middle.ribs.get af = rib := Ribs.get_set _ _ _
  have middleInvariant : (middle.ribs.get af).Invariant := table ▸ stored.invariant
  have confined : Confined af route.sourceRouterId before middle := by
    refine ⟨refused.spent, fun other different => Ribs.get_set_of_ne _ different _, middleInvariant, ?_⟩
    intro source different
    rw [routesFrom, table]
    exact stored.routeAt_other invariant different
  obtain ⟨removing, removedJournal, removedAlloc, -, removed⟩ := @remove_spec middle af route.sourceRouterId
    middleInvariant route.pfx (cloneOf (before.ribs.get af).nextUpdateId route).updateId
  obtain ⟨restoring, restoredJournal, restored⟩ := restore_spec removing.invariant
    (@own_routesFrom before af route.sourceRouterId invariant route.pfx)
  subst undone
  have spent : middle.alloc.Spent _ := removing.spent.trans restoring.spent
  refine ⟨refused.trans_spent spent, (confined.trans removing).trans restoring, ?_, fun single => ?_⟩
  · rw [restoredJournal, removedJournal]
    exact same
  · have inserted : middle.routesFrom af route.sourceRouterId = update (before.routesFrom af route.sourceRouterId)
        route.pfx (some (cloneOf (before.ribs.get af).nextUpdateId route)) := by
      rw [routesFrom, table]
      exact stored.routeAt_own invariant
    have generous := (single.generous_of_refused refused).spent removing.spent
    rw [restored generous, removed marked true none, inserted, UndoLog.removeStep]
    simp only [update_self, Option.any_some, beq_self_eq_true, if_true, update_idem]
    rcases held : before.routesFrom af route.sourceRouterId route.pfx with _ | old
    · rw [putSaved, Option.elim_none, ← held, update_eq_self]
    · obtain ⟨-, place, -⟩ := invariant.routeAt_key held
      rw [putSaved, Option.elim_some, place, UndoLog.putBack, update_self, Option.isNone_none, if_pos rfl,
        update_idem, ← held, update_eq_self]

/-- Undoing an insertion that did not happen changes nothing. -/
theorem undo_nothing (state : Applying) (af : Af) (peer : RouterId) (pfx : Prefix af.family.width) :
    (state.remove af peer pfx 0).restore af peer none = state := by
  simp [remove, restore, withdrawIfUpdateId, restoreSavedIfAbsent]

/-- The newest insertion record is what its event refers to. -/
theorem resolve_route {before after : Journal} {record : AppliedRoute af.family.width}
    (grown : Journal.Grown before after af [record] [] events) :
    after.Inside ⟨af, .route, (before.get af).routes.length⟩ ∧
      after.resolve ⟨af, .route, (before.get af).routes.length⟩ =
        if isNewBest record.changeKind then record.bestRoute.map (.added af) else none := by
  constructor
  · simp [Journal.Inside, grown.routes]
  · simp [resolve, grown.routes]

/-- An announced route is inserted and recorded, is refused memory and taken back, or does not fit. -/
theorem insertRecorded_cases (invariant : (state.ribs.get af).Invariant) {route : Route af.family.width}
    (own : route.sourceRouterId = peer) (fresh : route.updateId = 0) :
    (∃ after, state.insertRecorded af peer route = (.ok, after) ∧ InsertStep af peer route state after) ∨
    (∃ after, state.insertRecorded af peer route = (.nomem, after) ∧ state.alloc.Refused after.alloc ∧
      Failed af peer state after) ∨
    (af.family.width < route.pfx.len ∧
      ∃ after, state.insertRecorded af peer route = (.invalid, after) ∧ Failed af peer state after) := by
  subst own
  unfold insertRecorded
  rcases insertTrackBest_cases invariant route state.alloc with
    ⟨long, rejected⟩ | ⟨rib, rest, failed, refused, afterInvariant, same⟩ | ⟨rib, rest, failed, refused, stored⟩ |
      ⟨change, best, rib, rest, done, spent, stored, report⟩
  · simp only [rejected, Ribs.set_get, undo_nothing]
    refine .inr (.inr ⟨long, _, rfl, Confined.refl invariant, Journal.SameRecords.refl _, fun _ => rfl⟩)
  · simp only [failed, undo_nothing]
    have contents := same.routeAt_eq invariant afterInvariant
    refine .inr (.inl ⟨_, rfl, refused, ⟨refused.spent, fun other different => ?_, ?_, fun source _ => ?_⟩,
      Journal.SameRecords.refl _, fun _ => ?_⟩)
    · exact Ribs.get_set_of_ne _ different _
    · rw [Ribs.get_set]
      exact afterInvariant
    · rw [routesFrom, Ribs.get_set, contents, routesFrom]
    · rw [routesFrom, Ribs.get_set, contents, routesFrom]
  · simp only [failed]
    exact .inr (.inl ⟨_, rfl, failed_insert invariant rfl fresh stored (Journal.SameRecords.refl _) refused rfl⟩)
  · simp only [done]
    have marked := cloneOf_marked (state.ribs.get af).nextUpdateId fresh
    rcases state.journal.record_cases af route.pfx marked
        ((state.routesFrom af route.sourceRouterId route.pfx).any fun old =>
          !state.journal.hasRoute af route.pfx old.updateId)
        (state.routesFrom af route.sourceRouterId route.pfx) change rest with
      ⟨journal, left, recorded, more, grown⟩ | ⟨journal, left, failed, more, same⟩
    · unfold routesFrom at recorded
      simp only [recorded]
      refine .inl ⟨_, rfl, ?_, fun other different => Ribs.get_set_of_ne _ different _, spent.trans more,
        change, best, ?_, ?_⟩
      · rw [Ribs.get_set]
        exact stored
      · rw [Ribs.get_set]
        exact report
      · obtain ⟨inside, meaning⟩ := resolve_route grown
        refine recorded_of_grown grown (fun ref member => ?_) ?_
        · unfold routeEvents at member
          split at member
          · rw [List.mem_singleton.mp member]
            exact inside
          · cases member
        · unfold routeEvents insertChanges
          split
          · rename_i new
            rw [List.filterMap_cons, meaning, if_pos new, if_pos new, report.reported]
            rfl
          · rfl
    · unfold routesFrom at failed
      simp only [failed]
      exact .inr (.inl ⟨_, rfl, failed_insert invariant rfl fresh stored same (spent.trans_refused more) rfl⟩)

section Effects

variable {pfx : Prefix af.family.width} {route : Route af.family.width}

theorem WithdrawStep.confined (taken : WithdrawStep af peer pfx before after)
    (invariant : (before.ribs.get af).Invariant) : Confined af peer before after := by
  cases taken with
  | missing absent ribs spent recorded =>
    refine ⟨spent, fun other _ => by rw [ribs], by rw [ribs]; exact invariant, fun source _ => ?_⟩
    rw [routesFrom, ribs, routesFrom]
  | done entry change member own place detached report others spent recorded =>
    refine ⟨spent, others, invariant.detached detached, fun source different => ?_⟩
    exact detached.routeAt_other invariant (own ▸ different)

theorem InsertStep.confined (taken : InsertStep af peer route before after) (own : route.sourceRouterId = peer)
    (invariant : (before.ribs.get af).Invariant) : Confined af peer before after :=
  ⟨taken.spent, taken.others, taken.stored.invariant,
    fun _ different => taken.stored.routeAt_other invariant (own ▸ different)⟩

/-- A withdrawal clears its prefix. -/
theorem WithdrawStep.routesFrom_eq (taken : WithdrawStep af peer pfx before after)
    (invariant : (before.ribs.get af).Invariant) :
    after.routesFrom af peer = update (before.routesFrom af peer) pfx none := by
  cases taken with
  | missing absent ribs spent recorded =>
    rw [routesFrom, ribs, ← absent, routesFrom, update_eq_self]
  | done entry change member own place detached report others spent recorded =>
    subst own place
    exact detached.routeAt_own invariant member

/-- An insertion sets its prefix. -/
theorem InsertStep.routesFrom_eq (taken : InsertStep af peer route before after) (own : route.sourceRouterId = peer)
    (invariant : (before.ribs.get af).Invariant) :
    after.routesFrom af peer = update (before.routesFrom af peer) route.pfx
      (some (cloneOf (before.ribs.get af).nextUpdateId route)) := by
  subst own
  exact taken.stored.routeAt_own invariant

end Effects

end Applying

end Libbgp
