import Libbgp.Proof.ApplySteps

namespace Libbgp

open Library List

namespace Applying

variable {state before after : Applying} {af : Af} {peer : RouterId}
  {first second third : Applying} {records : List (AppliedRoute af.family.width)}

/-- The records of one family name routes of the peer under their own prefixes. -/
structure Restorable (af : Af) (peer : RouterId) (journal : Journal) : Prop where
  marked : ∀ entry ∈ journal.insertions af, entry.mark ≠ 0
  replaced : ∀ entry ∈ journal.insertions af, Own af peer entry.replaced ∧ ∀ old ∈ entry.replaced, old.pfx = entry.key
  removed : ∀ entry ∈ journal.removals af, Own af peer (some entry.2) ∧ entry.2.pfx = entry.1

theorem Restorable.congr {journal later : Journal} (restorable : Restorable af peer journal)
    (insertions : later.insertions af = journal.insertions af) (removals : later.removals af = journal.removals af) :
    Restorable af peer later := by
  refine ⟨?_, ?_, ?_⟩
  · rw [insertions]
    exact restorable.marked
  · rw [insertions]
    exact restorable.replaced
  · rw [removals]
    exact restorable.removed

/-- The journal of one family explains how the routes of the peer came about. -/
structure Journaled (af : Af) (peer : RouterId) (base : Prefix af.family.width → Option (Route af.family.width))
    (state : Applying) : Prop extends Restorable af peer state.journal where
  trail : ∃ middle, UndoLog.Withdrawn base middle (state.journal.removals af) ∧
    UndoLog.Inserted Route.updateId middle (state.routesFrom af peer) (state.journal.insertions af)

section Journaled

variable {base : Prefix af.family.width → Option (Route af.family.width)} {pfx : Prefix af.family.width}
  {route : Route af.family.width}

section

variable (journaled : Journaled af peer base before)

include journaled

/-- The same routes with the same records. -/
theorem Journaled.congr (routes : after.routesFrom af peer = before.routesFrom af peer)
    (insertions : after.journal.insertions af = before.journal.insertions af)
    (removals : after.journal.removals af = before.journal.removals af) : Journaled af peer base after := by
  refine ⟨journaled.toRestorable.congr insertions removals, ?_⟩
  rw [insertions, removals, routes]
  exact journaled.trail

/-- A step in the other table changes neither the routes nor the records of this one. -/
theorem Journaled.other (ribs : after.ribs.get af = before.ribs.get af)
    (insertions : after.journal.insertions af = before.journal.insertions af)
    (removals : after.journal.removals af = before.journal.removals af) : Journaled af peer base after :=
  journaled.congr (by rw [routesFrom, ribs, routesFrom]) insertions removals

/-- Withdrawals are recorded while nothing has been inserted yet. -/
theorem Journaled.withdraw (early : before.journal.insertions af = []) (taken : WithdrawStep af peer pfx before after)
    (invariant : (before.ribs.get af).Invariant) : Journaled af peer base after := by
  cases taken with
  | missing absent ribs spent recorded =>
    refine journaled.other (by rw [ribs]) ?_ ?_
    · rw [recorded.insertions, append_nil]
    · rw [recorded.removals, append_nil]
  | done entry change member own place detached report others spent recorded =>
    subst own place
    have insertions : after.journal.insertions af = [] := by rw [recorded.insertions, early, append_nil]
    have held : before.routesFrom af entry.source entry.pfx = some entry.route :=
      invariant.routeAt_eq_some_iff.mpr ⟨entry, member, rfl, rfl, rfl⟩
    refine ⟨⟨?_, ?_, ?_⟩, ?_⟩
    · rw [insertions]
      intro _ absent
      cases absent
    · rw [insertions]
      intro _ absent
      cases absent
    · intro removed inside
      rw [recorded.removals] at inside
      rcases mem_append.mp inside with old | new
      · exact journaled.removed removed old
      · rw [mem_singleton.mp new]
        exact ⟨held ▸ own_routesFrom invariant entry.pfx, rfl⟩
    · obtain ⟨middle, withdrawn, inserted⟩ := journaled.trail
      rw [early] at inserted
      have unchanged : before.routesFrom af entry.source = middle := by
        funext key
        rcases inserted.value key with ⟨_, absent, -⟩ | ⟨-, kept⟩
        · cases absent
        · exact kept
      have emptied : after.routesFrom af entry.source = Function.update middle entry.pfx none := by
        rw [← unchanged]
        exact detached.routeAt_own invariant member
      rw [insertions, recorded.removals]
      refine ⟨_, .withdraw withdrawn entry.pfx entry.route (unchanged ▸ held), ?_⟩
      rw [emptied]
      exact .start

/-- An insertion is recorded with what it replaced. -/
theorem Journaled.insert (own : route.sourceRouterId = peer)
    (fresh : route.updateId = 0) (taken : InsertStep af peer route before after)
    (invariant : (before.ribs.get af).Invariant) : Journaled af peer base after := by
  obtain ⟨change, best, -, recorded⟩ := taken.recorded
  have removals : after.journal.removals af = before.journal.removals af := by
    rw [recorded.removals, append_nil]
  refine ⟨⟨?_, ?_, ?_⟩, ?_⟩
  · intro entry inside
    rw [recorded.insertions] at inside
    rcases mem_append.mp inside with old | new
    · exact journaled.marked entry old
    · rw [mem_singleton.mp new]
      exact cloneOf_marked _ fresh
  · intro entry inside
    rw [recorded.insertions] at inside
    rcases mem_append.mp inside with old | new
    · exact journaled.replaced entry old
    · rw [mem_singleton.mp new]
      exact ⟨own_routesFrom invariant route.pfx, fun old held => (invariant.routeAt_key held).2.1⟩
  · rw [removals]
    exact journaled.removed
  · obtain ⟨middle, withdrawn, inserted⟩ := journaled.trail
    rw [removals, recorded.insertions, taken.routesFrom_eq own invariant]
    refine ⟨middle, withdrawn, .insert inserted route.pfx _ _ (fun unnamed => ?_) ?_⟩
    · -- No insertion of this message has the prefix, so whatever is there has to be restored.
      rcases held : before.routesFrom af peer route.pfx with _ | old
      · rfl
      · have foreign : before.journal.hasRoute af route.pfx old.updateId = false := by
          rw [Journal.hasRoute, Bool.and_eq_false_iff, any_eq_false]
          refine .inr fun record member same => ?_
          rw [Bool.and_eq_true, beq_iff_eq, beq_iff_eq] at same
          exact unnamed _ (mem_map.mpr ⟨record, member, rfl⟩) same.2
        simp [foreign]
    · intro entry member sameKey old held sameMark
      obtain ⟨record, inside, rfl⟩ := mem_map.mp member
      have nonzero := journaled.marked _ member
      have ownInsertion : before.journal.hasRoute af route.pfx old.updateId = true := by
        rw [Journal.hasRoute, Bool.and_eq_true, any_eq_true, sameMark, bne_iff_ne]
        exact ⟨nonzero, record, inside, by rw [Bool.and_eq_true, beq_iff_eq, beq_iff_eq]; exact ⟨rfl, sameKey⟩⟩
      simp [held, ownInsertion]

end

end Journaled

/-- One pass of a rollback over one family, and what it does to the routes of the peer when memory
suffices. -/
structure Pass (af : Af) (peer : RouterId) (before after : Applying)
    (effect : (Prefix af.family.width → Option (Route af.family.width)) →
      Prefix af.family.width → Option (Route af.family.width)) : Prop where
  confined : Confined af peer before after
  journal : after.journal = before.journal
  routes : before.alloc.Generous → after.routesFrom af peer = effect (before.routesFrom af peer)

theorem Pass.trans {early late : (Prefix af.family.width → Option (Route af.family.width)) →
    Prefix af.family.width → Option (Route af.family.width)} (left : Pass af peer first second early)
    (right : Pass af peer second third late) : Pass af peer first third (fun map => late (early map)) where
  confined := left.confined.trans right.confined
  journal := right.journal.trans left.journal
  routes generous := by rw [right.routes (generous.spent left.confined.spent), left.routes generous]

theorem Pass.refl (invariant : (state.ribs.get af).Invariant) : Pass af peer state state id :=
  ⟨Confined.refl invariant, rfl, fun _ => rfl⟩

theorem restore_pass (invariant : (state.ribs.get af).Invariant) {saved : Option (Route af.family.width)}
    (own : Own af peer saved) : Pass af peer state (state.restore af peer saved) (putSaved saved) :=
  let ⟨confined, journal, routes⟩ := restore_spec invariant own
  ⟨confined, journal, routes⟩

theorem putSaved_eq {width : Nat} {key : Prefix width} {saved : Option (Route width)}
    (place : ∀ old ∈ saved, old.pfx = key) (map : Prefix width → Option (Route width)) :
    putSaved saved map = UndoLog.putBack key saved map := by
  rcases saved with _ | old
  · unfold putSaved UndoLog.putBack
    split
    · rename_i free
      rw [Option.elim_none, ← Option.isNone_iff_eq_none.mp free, Function.update_eq_self]
    · rfl
  · rw [putSaved, Option.elim_some, place old rfl]

/-- Taking the insertions out again, as one pass. -/
theorem removeInsertions_pass (invariant : (state.ribs.get af).Invariant)
    (marked : ∀ record ∈ records, record.updateId ≠ 0) :
    Pass af peer state (records.foldr (fun route state => state.remove af peer route.pfx route.updateId) state)
      (UndoLog.removeInsertions Route.updateId
        (records.map fun route => ⟨route.pfx, route.updateId, route.restoreReplaced, route.replaced⟩)) := by
  induction records with
  | nil => exact Pass.refl invariant
  | cons route rest ih =>
    have later := ih fun entry member => marked entry (mem_cons_of_mem _ member)
    obtain ⟨confined, journal, -, -, routes⟩ :=
      @remove_spec _ af peer later.confined.invariant route.pfx route.updateId
    exact later.trans ⟨confined, journal, fun _ => routes (marked route mem_cons_self) _ _⟩

/-- The pass that puts replaced routes back. -/
theorem restoreReplacements_pass (invariant : (state.ribs.get af).Invariant)
    (replaced : ∀ record ∈ records, Own af peer record.replaced ∧ ∀ old ∈ record.replaced, old.pfx = record.pfx) :
    Pass af peer state
      (records.foldl (fun state route => if route.restoreReplaced then state.restore af peer route.replaced
        else state) state)
      (UndoLog.restoreReplaced
        (records.map fun route => ⟨route.pfx, route.updateId, route.restoreReplaced, route.replaced⟩)) := by
  induction records generalizing state with
  | nil => exact Pass.refl invariant
  | cons route rest ih =>
    obtain ⟨own, place⟩ := replaced route mem_cons_self
    have remaining := fun record member => replaced record (mem_cons_of_mem route member)
    unfold UndoLog.restoreReplaced at ih ⊢
    simp only [foldl_cons, map_cons]
    split
    · have first := @restore_pass state af peer invariant route.replaced own
      have both := first.trans (ih first.confined.invariant remaining)
      refine ⟨both.confined, both.journal, fun generous => ?_⟩
      rw [both.routes generous, putSaved_eq place]
    · exact ih invariant remaining

/-- The pass that puts withdrawn routes back. -/
theorem restoreWithdrawals_pass (invariant : (state.ribs.get af).Invariant)
    {records : List (WithdrawnRoute af.family.width)}
    (removed : ∀ record ∈ records, Own af peer record.saved ∧ ∀ old ∈ record.saved, old.pfx = record.pfx) :
    Pass af peer state (records.foldl (fun state route => state.restore af peer route.saved) state)
      (UndoLog.restoreWithdrawn
        (records.filterMap fun route => route.saved.map fun saved => (route.pfx, saved))) := by
  induction records generalizing state with
  | nil => exact Pass.refl invariant
  | cons route rest ih =>
    obtain ⟨own, place⟩ := removed route mem_cons_self
    have first := @restore_pass state af peer invariant route.saved own
    have both := first.trans (ih first.confined.invariant fun record member =>
      removed record (mem_cons_of_mem route member))
    refine ⟨both.confined, both.journal, fun generous => ?_⟩
    rw [foldl_cons, both.routes generous, filterMap_cons]
    rcases saved : route.saved with _ | old
    · rfl
    · rw [saved] at place
      rw [putSaved_eq place]
      rfl

/-- What happens to the two tables of a peer. -/
abbrev Effect := (af : Af) → (Prefix af.family.width → Option (Route af.family.width)) →
  Prefix af.family.width → Option (Route af.family.width)

/-- One pass of a rollback over both families. -/
structure Passes (peer : RouterId) (before after : Applying) (effect : Effect) : Prop where
  spent : before.alloc.Spent after.alloc
  invariant : ∀ af, (after.ribs.get af).Invariant
  foreign : ∀ af source, source ≠ peer → after.routesFrom af source = before.routesFrom af source
  journal : after.journal = before.journal
  routes : before.alloc.Generous → ∀ af, after.routesFrom af peer = effect af (before.routesFrom af peer)

theorem Passes.trans {early late : Effect} (left : Passes peer first second early)
    (right : Passes peer second third late) : Passes peer first third (fun af map => late af (early af map)) where
  spent := left.spent.trans right.spent
  invariant := right.invariant
  foreign af source different := (right.foreign af source different).trans (left.foreign af source different)
  journal := right.journal.trans left.journal
  routes generous af := by rw [right.routes (generous.spent left.spent), left.routes generous]

/-- A pass over both tables, from a pass over each. -/
theorem passes_of_each {run : Applying → Af → Applying} {effect : Effect}
    (invariant : ∀ af, (state.ribs.get af).Invariant)
    (each : ∀ middle af, middle.journal = state.journal → (middle.ribs.get af).Invariant →
      Pass af peer middle (run middle af) (effect af)) :
    Passes peer state (run (run state .ipv4) .ipv6) effect := by
  have first := each state .ipv4 rfl (invariant .ipv4)
  have other4 := first.confined.others .ipv6 (by decide)
  have second := each (run state .ipv4) .ipv6 first.journal (by rw [other4]; exact invariant .ipv6)
  have other6 := second.confined.others .ipv4 (by decide)
  refine ⟨first.confined.spent.trans second.confined.spent, fun af => ?_, fun af source different => ?_,
    second.journal.trans first.journal, fun generous af => ?_⟩
  · cases af with
    | ipv4 => rw [other6]; exact first.confined.invariant
    | ipv6 => exact second.confined.invariant
  · cases af with
    | ipv4 =>
      rw [routesFrom, other6]
      exact first.confined.foreign source different
    | ipv6 =>
      rw [second.confined.foreign source different, routesFrom, other4, routesFrom]
  · cases af with
    | ipv4 =>
      rw [routesFrom, other6]
      exact first.routes generous
    | ipv6 =>
      rw [second.routes (generous.spent first.confined.spent), routesFrom, other4, routesFrom]

/-- The three passes of a rollback on the routes of the peer. -/
def undoEffect (journal : Journal) : Effect := fun af map =>
  UndoLog.restoreWithdrawn (journal.removals af)
    (UndoLog.restoreReplaced (journal.insertions af)
      (UndoLog.removeInsertions Route.updateId (journal.insertions af) map))

/-- The rollback runs the undo log of the journal. -/
theorem rollback_passes (invariant : ∀ af, (state.ribs.get af).Invariant)
    (restorable : ∀ af, Restorable af peer state.journal) :
    Passes peer state (state.rollback peer) (undoEffect state.journal) := by
  have removing := @passes_of_each state peer (fun middle af => middle.removeJournaledInsertions af peer)
    (fun af => UndoLog.removeInsertions Route.updateId (state.journal.insertions af)) invariant (by
      intro middle af same sound
      unfold removeJournaledInsertions
      rw [same]
      refine removeInsertions_pass sound fun record member => ?_
      exact (restorable af).marked _ (mem_map.mpr ⟨record, member, rfl⟩))
  have replacing := @passes_of_each _ peer (fun middle af => middle.restoreJournaledReplacements af peer)
    (fun af => UndoLog.restoreReplaced (state.journal.insertions af)) removing.invariant (by
      intro middle af same sound
      unfold restoreJournaledReplacements
      rw [same, removing.journal]
      refine restoreReplacements_pass sound fun record member => ?_
      exact (restorable af).replaced _ (mem_map.mpr ⟨record, member, rfl⟩))
  have restoring := @passes_of_each _ peer (fun middle af => middle.restoreJournaledWithdrawals af peer)
    (fun af => UndoLog.restoreWithdrawn (state.journal.removals af)) replacing.invariant (by
      intro middle af same sound
      unfold restoreJournaledWithdrawals
      rw [same, replacing.journal, removing.journal]
      refine restoreWithdrawals_pass sound fun record member => ?_
      have listed : ∀ old ∈ record.saved, (record.pfx, old) ∈ state.journal.removals af := by
        intro old held
        exact mem_filterMap.mpr ⟨record, member, by rw [Option.mem_def.mp held]; rfl⟩
      constructor
      · intro old held
        exact ((restorable af).removed _ (listed old held)).1 old rfl
      · intro old held
        exact ((restorable af).removed _ (listed old held)).2)
  exact (removing.trans replacing).trans restoring

/-- The rollback undoes everything that the journal has recorded. -/
theorem Journaled.undone {base : Prefix af.family.width → Option (Route af.family.width)}
    (journaled : Journaled af peer base state) : undoEffect state.journal af (state.routesFrom af peer) = base := by
  obtain ⟨middle, withdrawn, inserted⟩ := journaled.trail
  rw [undoEffect, inserted.undo, withdrawn.undo]

end Applying

end Libbgp
