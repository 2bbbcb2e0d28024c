/-
What the events of a system can do: a message that is sent or not, and relations that all of it respects.
-/

import Libbgp.Construction.Api
import Libbgp.Proof.Export
import Libbgp.Proof.RibDiscard

namespace Libbgp

open Library

namespace Sys

variable {obs : Obs} {relation : Sys → Sys → Prop} {sys : Sys}

section Fields

variable (sys : Sys) (index : Nat) (obs : Obs) (change : Fsm → Fsm)

@[simp] theorem observe_fsm : (sys.observe obs).fsm = sys.fsm := rfl
@[simp] theorem observe_ribs : (sys.observe obs).ribs = sys.ribs := rfl
@[simp] theorem observe_alloc : (sys.observe obs).alloc = sys.alloc := rfl
@[simp] theorem observe_count : (sys.observe obs).count = sys.count := rfl
@[simp] theorem observe_subs : (sys.observe obs).subs = sys.subs := rfl
@[simp] theorem observe_trace : (sys.observe obs).trace = ⟨obs, sys.fsm, sys.ribs⟩ :: sys.trace := rfl

@[simp] theorem modify_ribs : (sys.modify index change).ribs = sys.ribs := rfl
@[simp] theorem modify_alloc : (sys.modify index change).alloc = sys.alloc := rfl
@[simp] theorem modify_count : (sys.modify index change).count = sys.count := rfl
@[simp] theorem modify_subs : (sys.modify index change).subs = sys.subs := rfl
@[simp] theorem modify_trace : (sys.modify index change).trace = sys.trace := rfl

@[simp] theorem modify_fsm_self : (sys.modify index change).fsm index = change (sys.fsm index) :=
  Function.update_self ..

@[simp] theorem modify_fsm_other {other : Nat} (different : other ≠ index) :
    (sys.modify index change).fsm other = sys.fsm other :=
  Function.update_of_ne different ..

@[simp] theorem dispatch_fsm (changes : List (FsmState × FsmState)) : (sys.dispatch index changes).fsm = sys.fsm := by
  unfold dispatch
  induction changes generalizing sys with
  | nil => rfl
  | cons change rest ih => exact ih _

@[simp] theorem dispatch_ribs (changes : List (FsmState × FsmState)) :
    (sys.dispatch index changes).ribs = sys.ribs := by
  unfold dispatch
  induction changes generalizing sys with
  | nil => rfl
  | cons change rest ih => exact ih _

end Fields

section Sending

variable (sys : Sys) (code : MessageCode) (index : Nat) (cause : Cause)

/-- A message is sent, or its failure is recorded. -/
theorem send_cases (message : Message) :
    (∃ rest, sys.send index message cause = (.ok, observe { sys with sends := rest } (.sent index message))) ∨
    (∃ err rest, err ≠ .ok ∧
      sys.send index message cause = (err, observe { sys with sends := rest } (.failed index cause))) := by
  unfold send
  split
  · exact .inr ⟨.invalid, sys.sends, by decide, rfl⟩
  split
  · exact .inl ⟨sys.sends, rfl⟩
  · rename_i rest _
    exact .inl ⟨rest, rfl⟩
  · rename_i err rest wrong _
    exact .inr ⟨err, rest, wrong, rfl⟩

/-- The same for an UPDATE that first has to be built. -/
theorem sendBuilt_cases (message : UpdateMsg → Message) (built : Except Err UpdateMsg × Allocator) {alloc : Allocator}
    (sendable : Sendable alloc built) :
    (∃ wire rest, built.1 = .ok wire ∧ sys.sendBuilt code index cause message built =
      (.ok, observe { sys with alloc := built.2, sends := rest } (.sent index (message wire)))) ∨
    (∃ err rest, err ≠ .ok ∧ sys.sendBuilt code index cause message built =
      (err, observe { sys with alloc := built.2, sends := rest } (.failed index cause))) := by
  obtain ⟨result, left⟩ := built
  cases result with
  | error err => exact .inr ⟨err, sys.sends, sendable.fails err rfl, rfl⟩
  | ok wire =>
    simp only [sendBuilt]
    generalize (if (sys.fsm index).params.hasOut = true then code.packetWrite wire else .invalid) = written
    split
    · rcases send_cases { sys with alloc := left } index cause (message wire) with
        ⟨rest, done⟩ | ⟨err, rest, wrong, failed⟩
      · exact .inl ⟨wire, rest, rfl, done⟩
      · exact .inr ⟨err, rest, wrong, failed⟩
    · rename_i wrong
      exact .inr ⟨written, sys.sends, wrong, rfl⟩

end Sending

/-- The list of callbacks is taken, or there is no memory for it. -/
theorem reserveSnapshot_cases (sys : Sys) (matching : Nat) :
    (∃ rest, sys.reserveSnapshot matching = (true, { sys with alloc := rest }) ∧ sys.alloc.Spent rest) ∨
    (∃ rest, sys.reserveSnapshot matching = (false, { sys with alloc := rest }) ∧ sys.alloc.Refused rest) := by
  unfold reserveSnapshot
  split
  · rcases sys.alloc.request_cases with ⟨rest, granted, spent⟩ | ⟨rest, denied, refused⟩
    · exact .inl ⟨rest, by simp only [granted], spent⟩
    · exact .inr ⟨rest, by simp only [denied], refused⟩
  · exact .inl ⟨sys.alloc, rfl, .refl _⟩

/-- What each step of the publication of a collision respects, the publication respects. -/
theorem publishCollision_relates {relation : Sys → Sys → Prop} (refl : ∀ sys, relation sys sys)
    (trans : ∀ {first second third}, relation first second → relation second third → relation first third)
    (alloc : ∀ sys rest, sys.alloc.Spent rest → relation sys { sys with alloc := rest }) {source : RouterId}
    (each : ∀ state sub, relation state.2 (deliverCollision source state sub).2) (sys : Sys) (publisher : Nat)
    (recorded : relation sys (sys.observe (.published publisher (.collision source)))) :
    relation sys (sys.publishCollision publisher source).2 := by
  have folded : ∀ (subs : List Subscriber) (state : Bool × Sys),
      relation state.2 (subs.foldl (deliverCollision source) state).2 := by
    intro subs
    induction subs with
    | nil => exact fun state => refl state.2
    | cons sub rest ih => exact fun state => trans (each state sub) (ih _)
  refine trans recorded ?_
  simp only [publishCollision]
  rcases reserveSnapshot_cases (sys.observe (.published publisher (.collision source)))
      ((sys.observe (.published publisher (.collision source))).targets publisher (.collision source)).length with
    ⟨rest, granted, spent⟩ | ⟨rest, denied, refused⟩
  · rw [granted]
    exact trans (alloc _ rest spent) (folded _ (false, _))
  · rw [denied]
    exact alloc _ rest refused.spent

/-- An event concerns a session. -/
def hears (fsm : Fsm) : Event → Bool
  | .routeAdded af source _ _ => fsm.receives af source
  | .routeWithdrawn af source _ => fsm.receives af source
  | _ => false

/-- What a session does about an event when nothing fails. -/
inductive Reaction (sys : Sys) (index : Nat) : Event → Sys → Prop
  | ignored (event : Event) (deaf : hears (sys.fsm index) event = false) : Reaction sys index event sys
  | denied {af : Af} (source : RouterId) (pfx : Prefix af.family.width) (update : UpdateMsg) (rest : Allocator)
      (receives : (sys.fsm index).receives af source = true) (spent : sys.alloc.Spent rest)
      (refused : sys.alloc.Refused rest ∨ (sys.fsm index).exports af source pfx update = false) :
      Reaction sys index (.routeAdded af source pfx update) { sys with alloc := rest }
  | announced {af : Af} (source : RouterId) (pfx : Prefix af.family.width) (update wire : UpdateMsg) (rest : Allocator)
      (sends : List Err) (receives : (sys.fsm index).receives af source = true) (spent : sys.alloc.Spent rest)
      (permitted : (sys.fsm index).exports af source pfx update = true) :
      Reaction sys index (.routeAdded af source pfx update)
        (observe { sys with alloc := rest, sends := sends } (.sent index (.announce af source pfx update wire)))
  | withdrawn {af : Af} (source : RouterId) (pfx : Prefix af.family.width) (wire : UpdateMsg) (rest : Allocator)
      (sends : List Err) (receives : (sys.fsm index).receives af source = true) (spent : sys.alloc.Spent rest) :
      Reaction sys index (.routeWithdrawn af source pfx)
        (observe { sys with alloc := rest, sends := sends } (.sent index (.withdraw af pfx wire)))

section Events

variable {code : MessageCode} {fail : Fail}

/-- The callback of a session does what it should, or a message fails and the session is torn down. -/
theorem routeEventCb_cases (sys : Sys) (index : Nat) (event : Event) :
    Reaction sys index event (sys.routeEventCb code fail index event) ∨
    (∃ rest sends, sys.alloc.Spent rest ∧ sys.routeEventCb code fail index event =
      fail index (sys.fsm index).sessionGeneration
        (observe { sys with alloc := rest, sends := sends } (.failed index .routeEvent))) := by
  cases event with
  | routeAdded af source pfx update =>
    simp only [routeEventCb]
    by_cases receives : (sys.fsm index).receives af source = true
    · rw [if_pos receives]
      rcases outPermits_cases (sys.fsm index) af source pfx update sys.alloc with
        ⟨rest, decided, spent⟩ | ⟨rest, denied, refused⟩
      · rw [decided]
        rcases permitted : (sys.fsm index).exports af source pfx update with _ | _
        · exact .inl (.denied source pfx update rest receives spent (.inr permitted))
        · have built := routeAddedMessage_sendable (sys.fsm index) code af source pfx update rest
          rcases sendBuilt_cases sys code index .routeEvent (.announce af source pfx update) _ built with
            ⟨wire, sends, -, sent⟩ | ⟨err, sends, wrong, failed⟩
          · simp only [sent]
            exact .inl (.announced source pfx update wire _ sends receives (spent.trans built.spent) permitted)
          · refine .inr ⟨_, sends, spent.trans built.spent, ?_⟩
            simp only [failed]
      · rw [denied]
        exact .inl (.denied source pfx update rest receives refused.spent (.inl refused))
    · rw [if_neg receives]
      exact .inl (.ignored _ (Bool.eq_false_iff.mpr receives))
  | routeWithdrawn af source pfx =>
    simp only [routeEventCb]
    by_cases receives : (sys.fsm index).receives af source = true
    · rw [if_pos receives]
      have built := withdrawMessage_sendable af pfx sys.alloc
      rcases sendBuilt_cases sys code index .routeEvent (.withdraw af pfx) _ built with
        ⟨wire, sends, -, sent⟩ | ⟨err, sends, wrong, failed⟩
      · simp only [sent]
        exact .inl (.withdrawn source pfx wire _ sends receives built.spent)
      · refine .inr ⟨_, sends, built.spent, ?_⟩
        simp only [failed]
    · rw [if_neg receives]
      exact .inl (.ignored _ (Bool.eq_false_iff.mpr receives))
  | collision source | sessionUp session | sessionDown session => exact .inl (.ignored _ rfl)

end Events

/-- What is seen while route events are published. -/
def Routine : Obs → Prop
  | .published _ (.routeAdded _ _ _ _) => True
  | .published _ (.routeWithdrawn _ _ _) => True
  | .delivered _ _ => True
  | .sent _ (.announce _ _ _ _ _) => True
  | .sent _ (.withdraw _ _ _) => True
  | .failed _ .routeEvent => True
  | _ => False

/-- A message about a route event could not be sent to a session. -/
def Failing (sys : Sys) (index : Nat) : Prop := ∃ moment ∈ sys.trace, moment.obs = .failed index .routeEvent

/-- A message about an event, or a subscriber that gets it. -/
def Delivery : Obs → Prop
  | .delivered _ _ => True
  | .sent _ (.announce _ _ _ _ _) => True
  | .sent _ (.withdraw _ _ _) => True
  | .failed _ .routeEvent => True
  | _ => False

/-- A relation between states that every step of a delivery respects. -/
structure Delivers (relation : Sys → Sys → Prop) : Prop where
  refl : ∀ sys, relation sys sys
  trans : ∀ {first second third}, relation first second → relation second third → relation first third
  alloc : ∀ sys rest, sys.alloc.Spent rest → relation sys { sys with alloc := rest }
  sends : ∀ (sys : Sys) rest, relation sys { sys with sends := rest }
  observe : ∀ sys obs, Delivery obs → relation sys (sys.observe obs)

/-- A relation between states that every step of a publication respects. -/
structure Bears (relation : Sys → Sys → Prop) : Prop where
  refl : ∀ sys, relation sys sys
  trans : ∀ {first second third}, relation first second → relation second third → relation first third
  alloc : ∀ sys rest, sys.alloc.Spent rest → relation sys { sys with alloc := rest }
  sends : ∀ (sys : Sys) rest, relation sys { sys with sends := rest }
  observe : ∀ sys obs, Routine obs → relation sys (sys.observe obs)

theorem Delivery.routine (delivery : Delivery obs) : Routine obs := by
  unfold Delivery at delivery
  split at delivery
  · trivial
  · trivial
  · trivial
  · trivial
  · exact delivery.elim

theorem Bears.delivers (bears : Bears relation) : Delivers relation where
  refl := bears.refl
  trans := bears.trans
  alloc := bears.alloc
  sends := bears.sends
  observe sys obs delivery := bears.observe sys obs delivery.routine

/-- One change of the best routes as an event, with the identifiers that keep it from coming back. -/
def publishAs (code : MessageCode) (fail : Fail) (added withdrawn : Nat) (peer : RouterId) (sys : Sys) :
    RouteChange → Sys
  | .added af route => sys.publishAdded code fail added af route
  | .withdrawn af pfx => sys.publishEvent code fail withdrawn (.routeWithdrawn af peer pfx)

theorem publishChange_eq {code : MessageCode} {fail : Fail} (sys : Sys) (index : Nat) (peer : RouterId)
    (change : RouteChange) : sys.publishChange code fail index peer change =
      publishAs code fail (sys.fsm index).params.routeAddedSubId (sys.fsm index).params.routeWithdrawnSubId peer sys
        change := by
  cases change <;> rfl

section Delivers

variable {code : MessageCode} {fail : Fail} {relation : Sys → Sys → Prop} (delivers : Delivers relation)

include delivers

theorem Delivers.moved (sys : Sys) {rest : Allocator} (spent : sys.alloc.Spent rest) (sends : List Err) {obs : Obs}
    (delivery : Delivery obs) : relation sys (Sys.observe { sys with alloc := rest, sends := sends } obs) :=
  delivers.trans (delivers.trans (delivers.alloc sys rest spent) (delivers.sends _ sends))
    (delivers.observe _ _ delivery)

theorem Delivers.reaction {sys after : Sys} {index : Nat} {event : Event} (reaction : Reaction sys index event after) :
    relation sys after := by
  cases reaction with
  | ignored => exact delivers.refl sys
  | denied source pfx update rest receives spent => exact delivers.alloc sys rest spent
  | announced source pfx update wire rest sends receives spent => exact delivers.moved sys spent sends trivial
  | withdrawn source pfx wire rest sends receives spent => exact delivers.moved sys spent sends trivial

variable (failing : ∀ index generation sys, sys.Failing index → relation sys (fail index generation sys))

include failing

theorem Delivers.deliver (sys : Sys) (event : Event) (sub : Subscriber) :
    relation sys (Sys.deliver code fail event sys sub) := by
  unfold Sys.deliver
  split
  · rename_i index _
    rcases @routeEventCb_cases code fail sys index event with reaction | ⟨rest, sends, spent, failed⟩
    · exact delivers.reaction reaction
    · have recorded : relation sys
          (Sys.observe { sys with alloc := rest, sends := sends } (.failed index .routeEvent)) :=
        delivers.moved sys spent sends trivial
      rw [failed]
      exact delivers.trans recorded (failing _ _ _ ⟨_, List.mem_cons_self, rfl⟩)
  · exact delivers.observe _ _ trivial

/-- What follows when an event was recorded respects the relation. -/
theorem Delivers.publishRecorded (sys : Sys) (publisher : Nat) (event : Event) :
    relation (sys.observe (.published publisher event)) (sys.publishEvent code fail publisher event) := by
  have folded : ∀ (subs : List Subscriber) (start : Sys),
      relation start (subs.foldl (Sys.deliver code fail event) start) := by
    intro subs
    induction subs with
    | nil => exact delivers.refl
    | cons sub rest ih => exact fun start => delivers.trans (delivers.deliver failing start event sub) (ih _)
  simp only [Sys.publishEvent, publish]
  rcases reserveSnapshot_cases (sys.observe (.published publisher event))
      ((sys.observe (.published publisher event)).targets publisher event).length with
    ⟨rest, granted, spent⟩ | ⟨rest, denied, refused⟩
  · rw [granted]
    exact delivers.trans (delivers.alloc _ rest spent) (folded _ _)
  · rw [denied]
    exact delivers.alloc _ rest refused.spent

/-- A publication respects the relation when recording the event itself does. -/
theorem Delivers.publishEvent (sys : Sys) (publisher : Nat) (event : Event)
    (recorded : relation sys (sys.observe (.published publisher event))) :
    relation sys (sys.publishEvent code fail publisher event) :=
  delivers.trans recorded (delivers.publishRecorded failing sys publisher event)

end Delivers

section Bears

variable {code : MessageCode} {fail : Fail} {relation : Sys → Sys → Prop} (bears : Bears relation)
  (failing : ∀ index generation sys, sys.Failing index → relation sys (fail index generation sys))

include bears failing

theorem Bears.publishAdded (sys : Sys) (publisher : Nat) (af : Af) (route : Route af.family.width) :
    relation sys (sys.publishAdded code fail publisher af route) := by
  have spent := (updateFromRoute_built af route).spent sys.alloc
  unfold Sys.publishAdded
  split
  · rename_i update rest built
    rw [built] at spent
    exact bears.trans (bears.alloc sys rest spent)
      (bears.delivers.publishEvent failing _ _ _ (bears.observe _ _ trivial))
  · rename_i rest _ built
    rw [built] at spent
    exact bears.alloc sys rest spent

theorem Bears.publishAs (added withdrawn : Nat) (peer : RouterId) (sys : Sys) (change : RouteChange) :
    relation sys (publishAs code fail added withdrawn peer sys change) := by
  cases change with
  | added af route => exact bears.publishAdded failing _ _ _ _
  | withdrawn af pfx => exact bears.delivers.publishEvent failing _ _ _ (bears.observe _ _ trivial)

theorem Bears.publishAll (added withdrawn : Nat) (peer : RouterId) (changes : List RouteChange) (sys : Sys) :
    relation sys (changes.foldl (Sys.publishAs code fail added withdrawn peer) sys) := by
  induction changes generalizing sys with
  | nil => exact bears.refl sys
  | cons change rest ih => exact bears.trans (bears.publishAs failing added withdrawn peer sys change) (ih _)

theorem Bears.publishUpdateEvents (index : Nat) (generation : UInt64) (peer : RouterId) (changes : List RouteChange)
    (sys : Sys) : relation sys (publishUpdateEvents code fail index generation peer changes sys) := by
  induction changes generalizing sys with
  | nil => exact bears.refl sys
  | cons change rest ih =>
    simp only [Sys.publishUpdateEvents]
    split
    · rw [publishChange_eq]
      exact bears.trans (bears.publishAs failing _ _ peer sys change) (ih _)
    · exact bears.refl sys

end Bears

/-- Both tables of a system are sound. -/
def Sound (sys : Sys) : Prop := ∀ af, (sys.ribs.get af).Invariant

theorem Sound.same {before after : Sys} (sound : before.Sound) (tables : after.ribs = before.ribs) : after.Sound := by
  unfold Sound
  rw [tables]
  exact sound

theorem sound_set (sound : sys.Sound) {af : Af} {rib : RibImpl af.family} (invariant : rib.Invariant)
    (rest : Allocator) : Sound { sys with ribs := sys.ribs.set af rib, alloc := rest } := by
  intro other
  by_cases same : other = af
  · subst same
    simpa using invariant
  · simpa [same] using sound other

/-- The events that are due when the routes of a source were discarded from a table. -/
def discardChanges (af : Af) (result : RibImpl.DiscardResult af.family.width) : List RouteChange :=
  result.withdrawn.map (.withdrawn af) ++ result.replacements.map (.added af)

/-- One family of a discard: the routes leave the table, and then the changes are published. Only a
shortage of memory keeps them from being published. -/
theorem discardFamilyPublish_cases {code : MessageCode} {fail : Fail} {sys : Sys} (sound : sys.Sound) (af : Af)
    (peer : RouterId) :
    ∃ rib rest changes, (sys.ribs.get af).Discarded rib peer ∧ sys.alloc.Spent rest ∧
      sys.discardFamilyPublish code fail af peer = changes.foldl (publishAs code fail 0 0 peer)
        { sys with ribs := sys.ribs.set af rib, alloc := rest } ∧
      ((changes = [] ∧ sys.alloc.Refused rest) ∨
        ∃ result, (sys.ribs.get af).DiscardReport rib peer result ∧ changes = discardChanges af result) := by
  rcases RibImpl.discardCollect_cases (sound af) peer sys.alloc with
    ⟨result, rib, rest, collected, spent, discarded, report⟩ | ⟨result, rib, rest, failed, refused, left⟩
  · refine ⟨rib, rest, _, discarded, spent, ?_, .inr ⟨result, report, rfl⟩⟩
    simp only [discardFamilyPublish, collected, discardChanges, List.foldl_append, List.foldl_map, publishAs]
  · have invariant : rib.Invariant := by
      rcases left with rfl | discarded
      · exact sound af
      · exact discarded.invariant
    obtain ⟨after, removed, discarded⟩ := RibImpl.removeSource_spec invariant peer rest
    have whole : (sys.ribs.get af).Discarded after peer := by
      rcases left with rfl | first
      · exact discarded
      · exact first.trans_same discarded
    refine ⟨after, rest, [], whole, refused.spent, ?_, .inl ⟨rfl, refused⟩⟩
    simp only [discardFamilyPublish, failed, RibImpl.discard, removed, List.foldl_nil]

/-- A relation that also respects the loss of a source, on sound tables. -/
structure Discards (relation : Sys → Sys → Prop) : Prop extends Bears relation where
  discard : ∀ sys af rib peer rest, sys.Sound → (sys.ribs.get af).Discarded rib peer → sys.alloc.Spent rest →
    relation sys { sys with ribs := sys.ribs.set af rib, alloc := rest }

/-- The relation on sound systems, which stay sound. -/
def Soundly (relation : Sys → Sys → Prop) (before after : Sys) : Prop :=
  before.Sound → after.Sound ∧ relation before after

theorem Soundly.ofObserve (seen : relation sys (sys.observe obs)) : Soundly relation sys (sys.observe obs) :=
  fun sound => ⟨sound, seen⟩

theorem Delivers.soundly (delivers : Delivers relation) : Delivers (Soundly relation) where
  refl sys sound := ⟨sound, delivers.refl sys⟩
  trans left right sound :=
    ⟨(right (left sound).1).1, delivers.trans (left sound).2 (right (left sound).1).2⟩
  alloc sys rest spent sound := ⟨sound, delivers.alloc sys rest spent⟩
  sends sys rest sound := ⟨sound, delivers.sends sys rest⟩
  observe sys obs delivery sound := ⟨sound, delivers.observe sys obs delivery⟩

theorem Bears.soundly (bears : Bears relation) : Bears (Soundly relation) where
  refl := bears.delivers.soundly.refl
  trans := bears.delivers.soundly.trans
  alloc := bears.delivers.soundly.alloc
  sends := bears.delivers.soundly.sends
  observe sys obs routine sound := ⟨sound, bears.observe sys obs routine⟩

section Discards

variable {code : MessageCode} {fail : Fail} {relation : Sys → Sys → Prop} (discards : Discards relation)
  (failing : ∀ index generation sys, sys.Failing index → Soundly relation sys (fail index generation sys))

include discards failing

theorem Discards.discardFamilyPublish (sys : Sys) (af : Af) (peer : RouterId) :
    Soundly relation sys (sys.discardFamilyPublish code fail af peer) := by
  intro sound
  obtain ⟨rib, rest, changes, discarded, spent, result, -⟩ := @discardFamilyPublish_cases code fail sys sound af peer
  have removed : Soundly relation sys { sys with ribs := sys.ribs.set af rib, alloc := rest } := fun sound =>
    ⟨sound_set sound discarded.invariant rest, discards.discard sys af rib peer rest sound discarded spent⟩
  rw [result]
  exact discards.toBears.soundly.trans removed (discards.toBears.soundly.publishAll failing _ _ _ _ _) sound

theorem Discards.discardPeerRoutesPublish (sys : Sys) (peer : RouterId) :
    Soundly relation sys (sys.discardPeerRoutesPublish code fail peer) :=
  discards.toBears.soundly.trans (discards.discardFamilyPublish failing sys .ipv4 peer)
    (discards.discardFamilyPublish failing _ .ipv6 peer)

end Discards

/-- A relation that respects the end of a session as well. -/
structure Closes (relation : Sys → Sys → Prop) : Prop extends Discards relation where
  close : ∀ sys index, relation sys (sys.snapshotTeardown index)
  drain : ∀ sys index, relation sys (sys.drain index).2
  notified : ∀ (sys : Sys) index before after, relation sys (sys.observe (.notified index before after))
  ended : ∀ (sys : Sys) index, relation sys (sys.observe (.published 0 (.sessionDown index)))

section Closes

variable {code : MessageCode} {relation : Sys → Sys → Prop} (closes : Closes relation)

include closes

theorem Closes.dispatch (sys : Sys) (index : Nat) (changes : List (FsmState × FsmState)) :
    Soundly relation sys (sys.dispatch index changes) := by
  unfold Sys.dispatch
  induction changes generalizing sys with
  | nil => exact closes.toBears.soundly.refl sys
  | cons change rest ih =>
    exact closes.toBears.soundly.trans (.ofObserve (closes.notified sys index change.1 change.2)) (ih _)

theorem Closes.closeDrain (sys : Sys) (index : Nat) :
    Soundly relation sys ((sys.snapshotTeardown index).drain index).2 :=
  fun sound => ⟨sound, closes.trans (closes.close sys index) (closes.drain _ index)⟩

/-- The teardown of a session respects the relation, at every depth. -/
theorem Closes.teardownAt (fuel index : Nat) (generation : UInt64) (sys : Sys) :
    Soundly relation sys (Sys.teardownAt code fuel index generation sys) := by
  have lifted := closes.toBears.soundly
  induction fuel generalizing index generation sys with
  | zero => exact lifted.refl sys
  | succ fuel ih =>
    simp only [Sys.teardownAt, teardownCurrentEstablished]
    split
    · have failing : ∀ index generation sys, sys.Failing index →
          Soundly relation sys (Sys.teardownAt code fuel index generation sys) := fun index generation sys _ =>
        ih index generation sys
      have discarded := @Discards.discardPeerRoutesPublish code _ _ closes.toDiscards failing
        ((sys.snapshotTeardown index).drain index).2 (sys.fsm index).peerBgpId
      have down := @Delivers.publishEvent code _ _ lifted.delivers failing
        (((sys.snapshotTeardown index).drain index).2.discardPeerRoutesPublish code (Sys.teardownAt code fuel)
          (sys.fsm index).peerBgpId) 0 (.sessionDown index) (.ofObserve (closes.ended _ index))
      exact lifted.trans (closes.closeDrain sys index)
        (lifted.trans discarded (lifted.trans down (closes.dispatch _ index _)))
    · exact lifted.refl sys

theorem Closes.fail (sys : Sys) (index : Nat) (generation : UInt64) (other : Sys) :
    Soundly relation other (sys.fail code index generation other) :=
  closes.teardownAt _ index generation other

end Closes

/-- What a system was set up with. -/
structure Setup (before after : Sys) : Prop where
  count : after.count = before.count
  subs : after.subs = before.subs
  params : ∀ index, (after.fsm index).params = (before.fsm index).params

theorem Setup.refl (sys : Sys) : Setup sys sys := ⟨rfl, rfl, fun _ => rfl⟩

theorem Setup.trans {first second third : Sys} (left : Setup first second) (right : Setup second third) :
    Setup first third :=
  ⟨right.count.trans left.count, right.subs.trans left.subs,
    fun index => (right.params index).trans (left.params index)⟩

theorem setup_modify (sys : Sys) (index : Nat) (change : Fsm → Fsm)
    (kept : (change (sys.fsm index)).params = (sys.fsm index).params) : Setup sys (sys.modify index change) := by
  refine ⟨rfl, rfl, fun other => ?_⟩
  by_cases same : other = index
  · subst same
    rw [modify_fsm_self]
    exact kept
  · rw [modify_fsm_other _ _ _ same]

end Sys

end Libbgp
