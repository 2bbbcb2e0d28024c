/-
The journal of one UPDATE: what was announced and withdrawn, which events are due, and the rollback.
-/

import Libbgp.Construction.RibWalk

namespace Libbgp

open Library

/-- The two route tables of a session. -/
structure Ribs where
  rib4 : RibImpl Libbgp.ipv4
  rib6 : RibImpl Libbgp.ipv6

namespace Ribs

def init : Ribs := ⟨.init _, .init _⟩

def get (ribs : Ribs) : (af : Af) → RibImpl af.family
  | .ipv4 => ribs.rib4
  | .ipv6 => ribs.rib6

def set (ribs : Ribs) : (af : Af) → RibImpl af.family → Ribs
  | .ipv4, rib => { ribs with rib4 := rib }
  | .ipv6, rib => { ribs with rib6 := rib }

end Ribs

/-- `fsm_applied_route4_t`. The sequence number of the source is never read and is left out. -/
structure AppliedRoute (width : Nat) where
  pfx : Prefix width
  updateId : UInt64
  restoreReplaced : Bool
  changeKind : ChangeKind
  bestRoute : Option (Route width)
  replaced : Option (Route width)

/-- `fsm_withdrawn_route4_t` -/
structure WithdrawnRoute (width : Nat) where
  pfx : Prefix width
  publishWithdrawn : Bool
  publishReplacement : Bool
  replacementRoute : Option (Route width)
  saved : Option (Route width)

/-- The records of one address family with the capacities of their arrays. -/
structure JournalFamily (width : Nat) where
  routes : List (AppliedRoute width)
  routesCap : Nat
  withdrawn : List (WithdrawnRoute width)
  withdrawnCap : Nat

/-- Which of the two arrays of a family an event refers to. -/
inductive EventKind where
  | route
  | withdrawn
  deriving DecidableEq, Repr

/-- `fsm_update_event_ref_t` -/
structure EventRef where
  af : Af
  kind : EventKind
  index : Nat

/-- `fsm_update_journal_t` -/
structure Journal where
  events : List EventRef
  eventsCap : Nat
  family4 : JournalFamily 32
  family6 : JournalFamily 128

namespace Journal

def empty : Journal := ⟨[], 0, ⟨[], 0, [], 0⟩, ⟨[], 0, [], 0⟩⟩

def get (journal : Journal) : (af : Af) → JournalFamily af.family.width
  | .ipv4 => journal.family4
  | .ipv6 => journal.family6

def set (journal : Journal) : (af : Af) → JournalFamily af.family.width → Journal
  | .ipv4, records => { journal with family4 := records }
  | .ipv6, records => { journal with family6 := records }

/-- Double a capacity until it is large enough. -/
def growCap (needed : Nat) : Nat → Nat → Nat
  | 0, cap => cap
  | fuel + 1, cap => if cap < needed then growCap needed fuel (cap * 2) else cap

/-- The five array reservations of the journal; only growth needs memory. -/
def reserveTo (needed cap : Nat) (alloc : Allocator) : Option Nat × Allocator :=
  if needed ≤ cap then (some cap, alloc)
  else
    match alloc.request with
    | (true, alloc) => (some (growCap needed needed (if cap = 0 then 4 else cap)), alloc)
    | (false, alloc) => (none, alloc)

/-- Room for more announced routes of one family. -/
def reserveRoutes (journal : Journal) (af : Af) (needed : Nat) (alloc : Allocator) : Err × Journal × Allocator :=
  match reserveTo needed (journal.get af).routesCap alloc with
  | (some cap, alloc) => (.ok, journal.set af { journal.get af with routesCap := cap }, alloc)
  | (none, alloc) => (.nomem, journal, alloc)

/-- Room for more withdrawn routes of one family. -/
def reserveWithdrawn (journal : Journal) (af : Af) (needed : Nat) (alloc : Allocator) :
    Err × Journal × Allocator :=
  match reserveTo needed (journal.get af).withdrawnCap alloc with
  | (some cap, alloc) => (.ok, journal.set af { journal.get af with withdrawnCap := cap }, alloc)
  | (none, alloc) => (.nomem, journal, alloc)

/-- `fsm_update_journal_reserve_events_to` -/
def reserveEvents (journal : Journal) (needed : Nat) (alloc : Allocator) : Err × Journal × Allocator :=
  match reserveTo needed journal.eventsCap alloc with
  | (some cap, alloc) => (.ok, { journal with eventsCap := cap }, alloc)
  | (none, alloc) => (.nomem, journal, alloc)

/-- `fsm_update_journal_append_event` -/
def appendEvent (journal : Journal) (ref : EventRef) (alloc : Allocator) : Err × Journal × Allocator :=
  match journal.reserveEvents (journal.events.length + 1) alloc with
  | (.ok, journal, alloc) => (.ok, { journal with events := journal.events ++ [ref] }, alloc)
  | (err, journal, alloc) => (err, journal, alloc)

end Journal

/-- The number of prefixes that the IPv6 attributes of an UPDATE announce. -/
def mpReachCount (update : UpdateMsg) : Nat :=
  ((update.attrs.filterMap id).map fun attr =>
    match attr.data with
    | .mpReachIpv6 _ _ _ nlri => nlri.length
    | _ => 0).sum

/-- The number of prefixes that the IPv6 attributes of an UPDATE withdraw. -/
def mpUnreachCount (update : UpdateMsg) : Nat :=
  ((update.attrs.filterMap id).map fun attr =>
    match attr.data with
    | .mpUnreachIpv6 withdrawn => withdrawn.length
    | _ => 0).sum

/-- `fsm_update_journal_reserve_update`: room for every record of an UPDATE, whichever families were
negotiated. The overflow checks on the counts are left out. -/
def Journal.reserveUpdate (journal : Journal) (update : UpdateMsg) (alloc : Allocator) :
    Err × Journal × Allocator :=
  let routes4 := journal.family4.routes.length + update.nlri.length
  let routes6 := journal.family6.routes.length + mpReachCount update
  let withdrawn4 := journal.family4.withdrawn.length + update.withdrawn.length
  let withdrawn6 := journal.family6.withdrawn.length + mpUnreachCount update
  match journal.reserveRoutes .ipv4 routes4 alloc with
  | (.ok, journal, alloc) =>
    match journal.reserveRoutes .ipv6 routes6 alloc with
    | (.ok, journal, alloc) =>
      match journal.reserveWithdrawn .ipv4 withdrawn4 alloc with
      | (.ok, journal, alloc) =>
        match journal.reserveWithdrawn .ipv6 withdrawn6 alloc with
        | (.ok, journal, alloc) =>
          journal.reserveEvents (routes4 + routes6 + withdrawn4 + withdrawn6) alloc
        | failed => failed
      | failed => failed
    | failed => failed
  | failed => failed

/-- The tables, the journal and the allocator while an UPDATE is applied. -/
structure Applying where
  ribs : Ribs
  journal : Journal
  alloc : Allocator

namespace Journal

def addRoute (journal : Journal) (af : Af) (record : AppliedRoute af.family.width) : Journal :=
  journal.set af { journal.get af with routes := (journal.get af).routes ++ [record] }

def addWithdrawn (journal : Journal) (af : Af) (record : WithdrawnRoute af.family.width) : Journal :=
  journal.set af { journal.get af with withdrawn := (journal.get af).withdrawn ++ [record] }

/-- `fsm_update_journal_has_route4` -/
def hasRoute (journal : Journal) (af : Af) (pfx : Prefix af.family.width) (updateId : UInt64) : Bool :=
  updateId != 0 && (journal.get af).routes.any fun route => route.updateId == updateId && route.pfx == pfx

/-- The change made the inserted prefix's best route a new one. -/
def isNewBest (kind : ChangeKind) : Bool := kind == .newBest || kind == .replacementBest

/-- `fsm_update_journal_record4` -/
def record (journal : Journal) (af : Af) (pfx : Prefix af.family.width) (updateId : UInt64)
    (restoreReplaced : Bool) (replaced : Option (Route af.family.width)) (change : RibChange af.family.width)
    (alloc : Allocator) : Err × Journal × Allocator :=
  if updateId = 0 then (.ok, journal, alloc)
  else
    match journal.reserveRoutes af ((journal.get af).routes.length + 1) alloc with
    | (.ok, journal, alloc) =>
      let entry : AppliedRoute af.family.width :=
        ⟨pfx, updateId, restoreReplaced, change.kind, if isNewBest change.kind then change.best else none, replaced⟩
      if isNewBest change.kind then
        match journal.appendEvent ⟨af, .route, (journal.get af).routes.length⟩ alloc with
        | (.ok, journal, alloc) => (.ok, journal.addRoute af entry, alloc)
        | failed => failed
      else (.ok, journal.addRoute af entry, alloc)
    | failed => failed

end Journal

namespace Applying

/-- A saved route goes back into its table when its place is still free. -/
def restore (state : Applying) (af : Af) (peer : RouterId) (saved : Option (Route af.family.width)) : Applying :=
  let (_, _, rib, alloc) := (state.ribs.get af).restoreSavedIfAbsent peer saved state.alloc
  { state with ribs := state.ribs.set af rib, alloc := alloc }

/-- `bgp_rib4_withdraw_exact_if_update_id` on one of the tables. -/
def remove (state : Applying) (af : Af) (peer : RouterId) (pfx : Prefix af.family.width) (updateId : UInt64) :
    Applying :=
  let (_, rib, alloc) := (state.ribs.get af).withdrawIfUpdateId peer pfx updateId state.alloc
  { state with ribs := state.ribs.set af rib, alloc := alloc }

/-- `fsm_update_journal_record_withdraw4`: a route that was taken out without a record goes back. -/
def recordWithdraw (state : Applying) (af : Af) (peer : RouterId) (pfx : Prefix af.family.width) :
    Err × Applying :=
  match state.journal.reserveWithdrawn af ((state.journal.get af).withdrawn.length + 1) state.alloc with
  | (.ok, journal, alloc) =>
    let tracked := (state.ribs.get af).withdrawTrackBest peer pfx alloc
    let state : Applying := ⟨state.ribs.set af tracked.rib, journal, tracked.alloc⟩
    match tracked.err, tracked.saved with
    | .ok, none => (.ok, state)
    | .ok, some saved =>
      let replacement := tracked.change.kind == .replacementBest && tracked.change.best.isSome
      let unreachable := !replacement && tracked.change.kind == .unreachable
      let entry : WithdrawnRoute af.family.width :=
        ⟨pfx, unreachable, replacement, if replacement then tracked.change.best else none, some saved⟩
      if replacement || unreachable then
        match journal.appendEvent ⟨af, .withdrawn, (journal.get af).withdrawn.length⟩ tracked.alloc with
        | (.ok, journal, alloc) => (.ok, { state with journal := journal.addWithdrawn af entry, alloc := alloc })
        | (err, journal, alloc) =>
          (err, restore { state with journal := journal, alloc := alloc } af peer (some saved))
      else (.ok, { state with journal := journal.addWithdrawn af entry })
    | err, saved => (err, state.restore af peer saved)
  | (err, journal, alloc) => (err, { state with journal := journal, alloc := alloc })

/-- Insert one announced route and record it, or take it back. The replaced route is restored by a
rollback only when it is not itself an insertion of the same message. -/
def insertRecorded (state : Applying) (af : Af) (peer : RouterId) (route : Route af.family.width) :
    Err × Applying :=
  let tracked := (state.ribs.get af).insertTrackBest route state.alloc
  let inserted : Applying := ⟨state.ribs.set af tracked.rib, state.journal, tracked.alloc⟩
  let undo (state : Applying) : Applying :=
    (state.remove af peer route.pfx tracked.updateId).restore af peer tracked.saved
  match tracked.err with
  | .ok =>
    let restoreReplaced := tracked.saved.any fun replaced =>
      !state.journal.hasRoute af route.pfx replaced.updateId
    match state.journal.record af route.pfx tracked.updateId restoreReplaced tracked.saved tracked.change
        tracked.alloc with
    | (.ok, journal, alloc) => (.ok, { inserted with journal := journal, alloc := alloc })
    | (err, journal, alloc) => (err, undo { inserted with journal := journal, alloc := alloc })
  | err => (err, undo inserted)

/-- The first pass of a rollback over one family runs backwards. -/
def removeJournaledInsertions (state : Applying) (af : Af) (peer : RouterId) : Applying :=
  (state.journal.get af).routes.foldr (fun route state => state.remove af peer route.pfx route.updateId) state

/-- The second pass over one family. -/
def restoreJournaledReplacements (state : Applying) (af : Af) (peer : RouterId) : Applying :=
  (state.journal.get af).routes.foldl
    (fun state route => if route.restoreReplaced then state.restore af peer route.replaced else state) state

/-- The third pass over one family. -/
def restoreJournaledWithdrawals (state : Applying) (af : Af) (peer : RouterId) : Applying :=
  (state.journal.get af).withdrawn.foldl (fun state route => state.restore af peer route.saved) state

/-- `fsm_rollback_update_journal` -/
def rollback (state : Applying) (peer : RouterId) : Applying :=
  let state := (state.removeJournaledInsertions .ipv4 peer).removeJournaledInsertions .ipv6 peer
  let state := (state.restoreJournaledReplacements .ipv4 peer).restoreJournaledReplacements .ipv6 peer
  (state.restoreJournaledWithdrawals .ipv4 peer).restoreJournaledWithdrawals .ipv6 peer

end Applying

/-- A change of the best route of one prefix. -/
inductive RouteChange where
  | added (af : Af) (route : Route af.family.width)
  | withdrawn (af : Af) (pfx : Prefix af.family.width)

/-- What `fsm_publish_update_events` reads for one event reference. -/
def Journal.resolve (journal : Journal) (ref : EventRef) : Option RouteChange :=
  match ref.kind with
  | .withdrawn =>
    match (journal.get ref.af).withdrawn[ref.index]? with
    | none => none
    | some route =>
      if route.publishReplacement then route.replacementRoute.map (.added ref.af)
      else if route.publishWithdrawn then some (.withdrawn ref.af route.pfx)
      else none
  | .route =>
    match (journal.get ref.af).routes[ref.index]? with
    | none => none
    | some route => if isNewBest route.changeKind then route.bestRoute.map (.added ref.af) else none

/-- The changes that a journal has to publish, in order. -/
def Journal.changes (journal : Journal) : List RouteChange :=
  journal.events.filterMap journal.resolve

end Libbgp
