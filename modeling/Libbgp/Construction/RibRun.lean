/-
Sequences of operations on one route table.
-/

import Libbgp.Construction.RibWalk

namespace Libbgp

open Library

/-- The operations that change a route table. A restore names one of the routes that earlier
operations detached and handed back. -/
inductive RibOp (af : Af) where
  | insert (route : Route af.family.width)
  | insertLocal (pfx : Prefix af.family.width) (nextHop : BitVec af.family.width) (weight : Int)
  | insertSaveReplaced (route : Route af.family.width)
  | insertTrackBest (route : Route af.family.width)
  | withdraw (source : RouterId) (pfx : Prefix af.family.width)
  | withdrawTrackBest (source : RouterId) (pfx : Prefix af.family.width)
  | withdrawIfUpdateId (source : RouterId) (pfx : Prefix af.family.width) (updateId : UInt64)
  | discard (source : RouterId)
  | discardCollect (source : RouterId)
  | restoreSavedIfAbsent (source : RouterId) (slot : Nat)

/-- A route table with the detached routes that its users still hold. -/
structure RibState (af : Af) where
  rib : RibImpl af.family
  saved : List (Route af.family.width)

namespace RibState

variable {af : Af}

def init (af : Af) : RibState af := ⟨.init af.family, []⟩

/-- The user keeps a route that an operation detached. -/
def keep (saved : List (Route af.family.width)) (route : Option (Route af.family.width)) :
    List (Route af.family.width) :=
  saved ++ route.toList

end RibState

namespace RibOp

variable {af : Af}

/-- One operation with the answers of the allocator to its requests. -/
def apply (op : RibOp af) (state : RibState af) (alloc : Allocator) : Err × RibState af :=
  match op with
  | .insert route =>
    let (err, rib, _) := state.rib.insert route alloc
    (err, { state with rib := rib })
  | .insertLocal pfx nextHop weight =>
    let (err, rib, _) := ribInsertLocal af state.rib pfx nextHop weight alloc
    (err, { state with rib := rib })
  | .insertSaveReplaced route =>
    let (err, inserted, rib, _) := state.rib.insertSaveReplaced route false alloc
    (err, ⟨rib, RibState.keep state.saved inserted.replaced⟩)
  | .insertTrackBest route =>
    let tracked := state.rib.insertTrackBest route alloc
    (tracked.err, ⟨tracked.rib, RibState.keep state.saved tracked.saved⟩)
  | .withdraw source pfx =>
    let (err, rib, _) := state.rib.withdraw source pfx alloc
    (err, { state with rib := rib })
  | .withdrawTrackBest source pfx =>
    let tracked := state.rib.withdrawTrackBest source pfx alloc
    (tracked.err, ⟨tracked.rib, RibState.keep state.saved tracked.saved⟩)
  | .withdrawIfUpdateId source pfx updateId =>
    let (err, rib, _) := state.rib.withdrawIfUpdateId source pfx updateId alloc
    (err, { state with rib := rib })
  | .discard source =>
    let (err, rib, _) := state.rib.discard source alloc
    (err, { state with rib := rib })
  | .discardCollect source =>
    let (err, _, rib, _) := state.rib.discardCollect source alloc
    (err, { state with rib := rib })
  | .restoreSavedIfAbsent source slot =>
    match state.rib.restoreSavedIfAbsent source state.saved[slot]? alloc with
    | (err, none, rib, _) => (err, ⟨rib, state.saved.eraseIdx slot⟩)
    | (err, some _, rib, _) => (err, { state with rib := rib })

/-- The keys that an operation is about. -/
def Touches (op : RibOp af) (state : RibState af) (source : RouterId) (pfx : Prefix af.family.width) : Prop :=
  match op with
  | .insert route | .insertSaveReplaced route | .insertTrackBest route =>
    source = route.sourceRouterId ∧ pfx = route.pfx
  | .insertLocal own _ _ => source = 0 ∧ pfx = own
  | .withdraw owner own | .withdrawTrackBest owner own | .withdrawIfUpdateId owner own _ =>
    source = owner ∧ pfx = own
  | .discard owner | .discardCollect owner => source = owner
  | .restoreSavedIfAbsent owner slot =>
    source = owner ∧ ∃ route, state.saved[slot]? = some route ∧ pfx = route.pfx

/-- The routes that an operation may link, in the form in which they are stored. -/
def Adds (op : RibOp af) (state : RibState af) (route : Route af.family.width) : Prop :=
  match op with
  | .insert given | .insertSaveReplaced given | .insertTrackBest given =>
    route = RibImpl.cloneOf state.rib.nextUpdateId given
  | .insertLocal pfx nextHop weight =>
    route = RibImpl.cloneOf state.rib.nextUpdateId (localRoute af pfx nextHop weight)
  | .restoreSavedIfAbsent _ slot => state.saved[slot]? = some route
  | _ => False

/-- The operations that leave the table as it was when they return an error. -/
def Undone : RibOp af → Prop
  | .insert _ | .insertLocal _ _ _ | .restoreSavedIfAbsent _ _ => True
  | _ => False

end RibOp

/-- Any sequence of operations, each with its own allocator. -/
def ribRun (af : Af) (steps : List (RibOp af × Allocator)) : RibState af :=
  steps.foldl (fun state step => (step.1.apply state step.2).2) (.init af)

end Libbgp
