import Libbgp.Library.UndoLog
import Libbgp.Proof.RibTracked

namespace Libbgp

open Library

namespace Ribs

variable (ribs : Ribs)

@[simp] theorem get_set (af : Af) (rib : RibImpl af.family) : (ribs.set af rib).get af = rib := by
  cases af <;> rfl

@[simp] theorem get_set_of_ne {af other : Af} (different : other ≠ af) (rib : RibImpl af.family) :
    (ribs.set af rib).get other = ribs.get other := by
  cases af <;> cases other <;> first | rfl | exact absurd rfl different

@[simp] theorem set_get (af : Af) : ribs.set af (ribs.get af) = ribs := by
  cases af <;> rfl

end Ribs

namespace Journal

variable {before after journal : Journal} {af : Af}

@[simp] theorem get_set (journal : Journal) (af : Af) (records : JournalFamily af.family.width) :
    (journal.set af records).get af = records := by
  cases af <;> rfl

@[simp] theorem get_set_of_ne (journal : Journal) {af other : Af} (different : other ≠ af)
    (records : JournalFamily af.family.width) : (journal.set af records).get other = journal.get other := by
  cases af <;> cases other <;> first | rfl | exact absurd rfl different

@[simp] theorem set_events (journal : Journal) (af : Af) (records : JournalFamily af.family.width) :
    (journal.set af records).events = journal.events := by
  cases af <;> rfl

@[simp] theorem get_events (journal : Journal) (events : List EventRef) (cap : Nat) (af : Af) :
    ({ journal with events := events, eventsCap := cap } : Journal).get af = journal.get af := by
  cases af <;> rfl

/-- The second journal has these records more than the first one, all of one family. -/
structure Grown (before after : Journal) (af : Af) (routes : List (AppliedRoute af.family.width))
    (withdrawn : List (WithdrawnRoute af.family.width)) (events : List EventRef) : Prop where
  routes : (after.get af).routes = (before.get af).routes ++ routes
  withdrawn : (after.get af).withdrawn = (before.get af).withdrawn ++ withdrawn
  events : after.events = before.events ++ events
  otherRoutes : ∀ other, other ≠ af → (after.get other).routes = (before.get other).routes
  otherWithdrawn : ∀ other, other ≠ af → (after.get other).withdrawn = (before.get other).withdrawn

/-- The two journals have the same records. -/
structure SameRecords (before after : Journal) : Prop where
  routes : ∀ af, (after.get af).routes = (before.get af).routes
  withdrawn : ∀ af, (after.get af).withdrawn = (before.get af).withdrawn
  events : after.events = before.events

theorem SameRecords.refl (journal : Journal) : SameRecords journal journal :=
  ⟨fun _ => rfl, fun _ => rfl, rfl⟩

theorem SameRecords.trans {first second third : Journal} (left : SameRecords first second)
    (right : SameRecords second third) : SameRecords first third :=
  ⟨fun af => (right.routes af).trans (left.routes af), fun af => (right.withdrawn af).trans (left.withdrawn af),
    right.events.trans left.events⟩

/-- A reservation is granted, or memory is refused. -/
theorem reserveTo_cases (needed cap : Nat) (alloc : Allocator) :
    (∃ wide rest, reserveTo needed cap alloc = (some wide, rest) ∧ alloc.Spent rest) ∨
      (∃ rest, reserveTo needed cap alloc = (none, rest) ∧ alloc.Refused rest) := by
  unfold reserveTo
  split
  · exact .inl ⟨cap, alloc, rfl, .refl _⟩
  · rcases alloc.request_cases with ⟨rest, granted, spent⟩ | ⟨rest, denied, refused⟩
    · rw [granted]
      exact .inl ⟨_, rest, rfl, spent⟩
    · rw [denied]
      exact .inr ⟨rest, rfl, refused⟩

/-- A reservation succeeds or is refused, and leaves the records alone. -/
def Reserved (journal : Journal) (alloc : Allocator) (result : Err × Journal × Allocator) : Prop :=
  (∃ wide rest, result = (.ok, wide, rest) ∧ alloc.Spent rest ∧ SameRecords journal wide) ∨
    (∃ wide rest, result = (.nomem, wide, rest) ∧ alloc.Refused rest ∧ SameRecords journal wide)

theorem setCap_sameRecords (journal : Journal) (af : Af) (routesCap withdrawnCap : Nat) :
    SameRecords journal (journal.set af
      { journal.get af with routesCap := routesCap, withdrawnCap := withdrawnCap }) := by
  refine ⟨fun other => ?_, fun other => ?_, by simp⟩
  · by_cases same : other = af
    · subst same
      simp
    · simp [same]
  · by_cases same : other = af
    · subst same
      simp
    · simp [same]

theorem reserveRoutes_reserved (journal : Journal) (af : Af) (needed : Nat) (alloc : Allocator) :
    Reserved journal alloc (journal.reserveRoutes af needed alloc) := by
  unfold reserveRoutes
  rcases reserveTo_cases needed (journal.get af).routesCap alloc with
    ⟨wide, rest, done, spent⟩ | ⟨rest, failed, refused⟩
  · rw [done]
    exact .inl ⟨_, rest, rfl, spent, setCap_sameRecords journal af wide _⟩
  · rw [failed]
    exact .inr ⟨journal, rest, rfl, refused, SameRecords.refl journal⟩

theorem reserveWithdrawn_reserved (journal : Journal) (af : Af) (needed : Nat) (alloc : Allocator) :
    Reserved journal alloc (journal.reserveWithdrawn af needed alloc) := by
  unfold reserveWithdrawn
  rcases reserveTo_cases needed (journal.get af).withdrawnCap alloc with
    ⟨wide, rest, done, spent⟩ | ⟨rest, failed, refused⟩
  · rw [done]
    exact .inl ⟨_, rest, rfl, spent, setCap_sameRecords journal af _ wide⟩
  · rw [failed]
    exact .inr ⟨journal, rest, rfl, refused, SameRecords.refl journal⟩

theorem reserveEvents_reserved (journal : Journal) (needed : Nat) (alloc : Allocator) :
    Reserved journal alloc (journal.reserveEvents needed alloc) := by
  unfold reserveEvents
  rcases reserveTo_cases needed journal.eventsCap alloc with ⟨wide, rest, done, spent⟩ | ⟨rest, failed, refused⟩
  · rw [done]
    refine .inl ⟨_, rest, rfl, spent, fun af => ?_, fun af => ?_, rfl⟩
    · cases af <;> rfl
    · cases af <;> rfl
  · rw [failed]
    exact .inr ⟨journal, rest, rfl, refused, SameRecords.refl journal⟩

/-- Room for an UPDATE leaves the records alone. -/
theorem reserveUpdate_reserved (journal : Journal) (update : UpdateMsg) (alloc : Allocator) :
    Reserved journal alloc (journal.reserveUpdate update alloc) := by
  unfold reserveUpdate
  rcases journal.reserveRoutes_reserved .ipv4 (journal.family4.routes.length + update.nlri.length) alloc with
    ⟨wide4, rest4, done4, spent4, same4⟩ | ⟨wide4, rest4, failed4, refused4, same4⟩
  · simp only [done4]
    rcases wide4.reserveRoutes_reserved .ipv6 (journal.family6.routes.length + mpReachCount update) rest4 with
      ⟨wide6, rest6, done6, spent6, same6⟩ | ⟨wide6, rest6, failed6, refused6, same6⟩
    · simp only [done6]
      rcases wide6.reserveWithdrawn_reserved .ipv4 (journal.family4.withdrawn.length + update.withdrawn.length) rest6
        with ⟨out4, left4, doneOut4, spentOut4, sameOut4⟩ | ⟨out4, left4, failedOut4, refusedOut4, sameOut4⟩
      · simp only [doneOut4]
        rcases out4.reserveWithdrawn_reserved .ipv6 (journal.family6.withdrawn.length + mpUnreachCount update) left4
          with ⟨out6, left6, doneOut6, spentOut6, sameOut6⟩ | ⟨out6, left6, failedOut6, refusedOut6, sameOut6⟩
        · simp only [doneOut6]
          have spent := ((spent4.trans spent6).trans spentOut4).trans spentOut6
          have same := ((same4.trans same6).trans sameOut4).trans sameOut6
          rcases out6.reserveEvents_reserved _ left6 with
            ⟨last, left, done, more, sameLast⟩ | ⟨last, left, failed, more, sameLast⟩
          · exact .inl ⟨last, left, done, spent.trans more, same.trans sameLast⟩
          · exact .inr ⟨last, left, failed, spent.trans_refused more, same.trans sameLast⟩
        · simp only [failedOut6]
          exact .inr ⟨out6, left6, rfl, ((spent4.trans spent6).trans spentOut4).trans_refused refusedOut6,
            ((same4.trans same6).trans sameOut4).trans sameOut6⟩
      · simp only [failedOut4]
        exact .inr ⟨out4, left4, rfl, (spent4.trans spent6).trans_refused refusedOut4,
          (same4.trans same6).trans sameOut4⟩
    · simp only [failed6]
      exact .inr ⟨wide6, rest6, rfl, spent4.trans_refused refused6, same4.trans same6⟩
  · simp only [failed4]
    exact .inr ⟨wide4, rest4, rfl, refused4, same4⟩

/-- An event is appended, or the records stay as they are. -/
theorem appendEvent_cases (journal : Journal) (ref : EventRef) (alloc : Allocator) :
    (∃ wide rest, journal.appendEvent ref alloc = (.ok, { wide with events := journal.events ++ [ref] }, rest) ∧
      alloc.Spent rest ∧ SameRecords journal wide) ∨
    (∃ wide rest, journal.appendEvent ref alloc = (.nomem, wide, rest) ∧ alloc.Refused rest ∧
      SameRecords journal wide) := by
  unfold appendEvent
  rcases journal.reserveEvents_reserved (journal.events.length + 1) alloc with
    ⟨wide, rest, done, spent, same⟩ | ⟨wide, rest, failed, refused, same⟩
  · simp only [done, same.events]
    exact .inl ⟨wide, rest, rfl, spent, same⟩
  · simp only [failed]
    exact .inr ⟨wide, rest, rfl, refused, same⟩

theorem addRoute_grown (same : SameRecords before journal) (af : Af) (record : AppliedRoute af.family.width)
    (events : List EventRef) (cap : Nat) :
    Grown before (addRoute { journal with events := before.events ++ events, eventsCap := cap } af record) af
      [record] [] events where
  routes := by simp [addRoute, same.routes]
  withdrawn := by simp [addRoute, same.withdrawn]
  events := by simp [addRoute]
  otherRoutes other different := by simp [addRoute, different, same.routes]
  otherWithdrawn other different := by simp [addRoute, different, same.withdrawn]

theorem addWithdrawn_grown (same : SameRecords before journal) (af : Af)
    (record : WithdrawnRoute af.family.width) (events : List EventRef) (cap : Nat) :
    Grown before (addWithdrawn { journal with events := before.events ++ events, eventsCap := cap } af record) af
      [] [record] events where
  routes := by simp [addWithdrawn, same.routes]
  withdrawn := by simp [addWithdrawn, same.withdrawn]
  events := by simp [addWithdrawn]
  otherRoutes other different := by simp [addWithdrawn, different, same.routes]
  otherWithdrawn other different := by simp [addWithdrawn, different, same.withdrawn]

/-- The event that a recorded insertion causes. -/
def routeEvents (journal : Journal) (af : Af) (kind : ChangeKind) : List EventRef :=
  if isNewBest kind then [⟨af, .route, (journal.get af).routes.length⟩] else []

/-- An insertion is recorded as a whole, or the records stay as they are. -/
theorem record_cases (journal : Journal) (af : Af) (pfx : Prefix af.family.width) {updateId : UInt64}
    (marked : updateId ≠ 0) (restoreReplaced : Bool) (replaced : Option (Route af.family.width))
    (change : RibChange af.family.width) (alloc : Allocator) :
    (∃ after rest, journal.record af pfx updateId restoreReplaced replaced change alloc = (.ok, after, rest) ∧
      alloc.Spent rest ∧ Grown journal after af
        [⟨pfx, updateId, restoreReplaced, change.kind, if isNewBest change.kind then change.best else none, replaced⟩]
          []
        (journal.routeEvents af change.kind)) ∨
    (∃ after rest, journal.record af pfx updateId restoreReplaced replaced change alloc = (.nomem, after, rest) ∧
      alloc.Refused rest ∧ SameRecords journal after) := by
  unfold record
  rw [if_neg marked]
  rcases journal.reserveRoutes_reserved af ((journal.get af).routes.length + 1) alloc with
    ⟨wide, rest, done, spent, same⟩ | ⟨wide, rest, failed, refused, same⟩
  · simp only [done]
    by_cases best : isNewBest change.kind
    · simp only [best, if_true, routeEvents, same.routes]
      rcases wide.appendEvent_cases ⟨af, .route, (journal.get af).routes.length⟩ rest with
        ⟨last, left, appended, more, sameLast⟩ | ⟨last, left, failed, more, sameLast⟩
      · simp only [appended, same.events]
        exact .inl ⟨_, left, rfl, spent.trans more, addRoute_grown (same.trans sameLast) af _ _ _⟩
      · simp only [failed]
        exact .inr ⟨last, left, rfl, spent.trans_refused more, same.trans sameLast⟩
    · simp only [best, Bool.false_eq_true, if_false, routeEvents]
      refine .inl ⟨_, rest, rfl, spent, ?_⟩
      have grown := addRoute_grown same af ⟨pfx, updateId, restoreReplaced, change.kind, none, replaced⟩ []
        wide.eventsCap
      rw [List.append_nil, ← same.events] at grown
      exact grown
  · simp only [failed]
    exact .inr ⟨wide, rest, rfl, refused, same⟩

/-- An event refers to an existing record. -/
def Inside (journal : Journal) (ref : EventRef) : Prop :=
  match ref.kind with
  | .route => ref.index < (journal.get ref.af).routes.length
  | .withdrawn => ref.index < (journal.get ref.af).withdrawn.length

/-- All events refer to existing records. -/
def WellFormed (journal : Journal) : Prop := ∀ ref ∈ journal.events, journal.Inside ref

theorem empty_wellFormed : empty.WellFormed := nofun

section Growth

variable {routes : List (AppliedRoute af.family.width)} {withdrawn : List (WithdrawnRoute af.family.width)}
  {events : List EventRef} {ref : EventRef}

section

variable (grown : Grown before after af routes withdrawn events)

include grown

theorem Grown.routes_prefix (other : Af) : ∃ more, (after.get other).routes = (before.get other).routes ++ more := by
  by_cases same : other = af
  · subst same
    exact ⟨routes, grown.routes⟩
  · exact ⟨[], by rw [grown.otherRoutes other same, List.append_nil]⟩

theorem Grown.withdrawn_prefix (other : Af) :
    ∃ more, (after.get other).withdrawn = (before.get other).withdrawn ++ more := by
  by_cases same : other = af
  · subst same
    exact ⟨withdrawn, grown.withdrawn⟩
  · exact ⟨[], by rw [grown.otherWithdrawn other same, List.append_nil]⟩

theorem Grown.inside (inside : before.Inside ref) : after.Inside ref := by
  obtain ⟨moreRoutes, sameRoutes⟩ := grown.routes_prefix ref.af
  obtain ⟨moreWithdrawn, sameWithdrawn⟩ := grown.withdrawn_prefix ref.af
  unfold Inside at inside ⊢
  rw [sameRoutes, sameWithdrawn, List.length_append, List.length_append]
  rcases kind : ref.kind with _ | _ <;> rw [kind] at inside <;> simp only at inside ⊢ <;> omega

/-- Records never move, so an event keeps its meaning. -/
theorem Grown.resolve_eq (inside : before.Inside ref) : after.resolve ref = before.resolve ref := by
  obtain ⟨moreRoutes, sameRoutes⟩ := grown.routes_prefix ref.af
  obtain ⟨moreWithdrawn, sameWithdrawn⟩ := grown.withdrawn_prefix ref.af
  unfold Inside at inside
  unfold resolve
  rw [sameRoutes, sameWithdrawn]
  rcases kind : ref.kind with _ | _ <;> rw [kind] at inside
  · simp only [List.getElem?_append_left inside]
  · simp only [List.getElem?_append_left inside]

/-- The due changes of a longer journal. -/
theorem Grown.changes_eq (wellFormed : before.WellFormed) :
    after.changes = before.changes ++ events.filterMap after.resolve := by
  unfold changes
  rw [grown.events, List.filterMap_append]
  congr 1
  exact List.filterMap_congr fun ref member => grown.resolve_eq (wellFormed ref member)

theorem Grown.wellFormed (wellFormed : before.WellFormed)
    (fresh : ∀ ref ∈ events, after.Inside ref) : after.WellFormed := by
  intro ref member
  rw [grown.events] at member
  rcases List.mem_append.mp member with old | new
  · exact grown.inside (wellFormed ref old)
  · exact fresh ref new

end

end Growth

theorem SameRecords.wellFormed (same : SameRecords before after) (wellFormed : before.WellFormed) :
    after.WellFormed := by
  intro ref member
  rw [same.events] at member
  have inside := wellFormed ref member
  unfold Inside at inside ⊢
  rw [same.routes, same.withdrawn]
  exact inside

theorem SameRecords.changes_eq (same : SameRecords before after) : after.changes = before.changes := by
  unfold changes
  rw [same.events]
  refine List.filterMap_congr fun ref _ => ?_
  unfold resolve
  rw [same.routes, same.withdrawn]

end Journal

end Libbgp
