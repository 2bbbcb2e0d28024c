/-
The initial advertisement of a route and the event about it make a session do the same.
-/

import Libbgp.Proof.RoundTrip
import Libbgp.Proof.RouteEvents
import Libbgp.Proof.SessionState

namespace Libbgp

open Library

/-- A route as the tables store it that a session learned from an UPDATE which passed the checks. -/
def Learned (af : Af) (route : Route af.family.width) : Prop :=
  ∃ (learner : Fsm) (update : UpdateMsg) (announced : Announced af.family.width) (counter : UInt64),
    validateUpdate update = none ∧ announced ∈ announcedPrefixes update af ∧
      route = RibImpl.cloneOf counter (learner.announcedRoute update af announced)

theorem Learned.exportable {af : Af} {route : Route af.family.width} (learned : Learned af route) :
    Exportable af route := by
  obtain ⟨learner, update, announced, counter, checked, member, rfl⟩ := learned
  exact ((validateUpdate_accepts checked).exportable learner member).clone counter

section Preparing

variable (fsm : Fsm) (code : MessageCode) (update : UpdateMsg) {alloc : Allocator}

theorem MessageOp.run_nil (op : MessageOp) : op.run update [] = (op.result update, []) := by
  rw [MessageOp.run, Allocator.requests_nil]

theorem MessageOp.run_generous (op : MessageOp) (generous : alloc.Generous) :
    ∃ rest, op.run update alloc = (op.result update, rest) ∧ alloc.Spent rest :=
  (op.run_cases update alloc).resolve_right fun ⟨_, _, refused⟩ => generous.not_refused refused

/-- With memory the message does not depend on the answers of the allocator. -/
theorem prepareAdvertisements_generous (generous : alloc.Generous) :
    ∃ rest, fsm.prepareAdvertisements code update alloc = ((fsm.prepareAdvertisements code update []).1, rest) ∧
      alloc.Spent rest := by
  unfold Fsm.prepareAdvertisements
  dsimp only
  cases update.prepareForwardAttrs fsm.isIbgp with
  | error err => exact ⟨alloc, rfl, .refl alloc⟩
  | ok forwarded =>
    obtain ⟨rest, altered, spent⟩ := (alterNexthop4_built fsm forwarded).generous generous
    have empty := (alterNexthop4_built fsm forwarded).nil_eq
    dsimp only
    rw [altered, empty]
    generalize (fsm.alterNexthop4 forwarded []).1 = err
    generalize (fsm.alterNexthop4 forwarded []).2.1 = hop
    cases err with
    | ok =>
      dsimp only
      cases fsm.alterNexthop6 hop with
      | error err => exact ⟨rest, rfl, spent⟩
      | ok message =>
        dsimp only
        generalize (if fsm.peer4byteAsn then code.restoreAsPath else code.downgradeAsPath) = path
        obtain ⟨left, converted, more⟩ := path.run_generous message (generous.spent spent)
        rw [converted, path.run_nil]
        have spentPath := spent.trans more
        cases path.result message with
        | error err => exact ⟨left, rfl, spentPath⟩
        | ok message =>
          dsimp only
          generalize (if fsm.peer4byteAsn then code.restoreAggregator else code.downgradeAggregator) = aggregator
          obtain ⟨last, converted, more⟩ := aggregator.run_generous message (generous.spent spentPath)
          rw [converted, aggregator.run_nil]
          have spentAll := spentPath.trans more
          cases aggregator.result message with
          | error err => exact ⟨last, rfl, spentAll⟩
          | ok message =>
            dsimp only
            split
            · exact ⟨last, rfl, spentAll⟩
            · obtain ⟨final, prepended, more⟩ :=
                (code.prependAsn fsm.params.config.localAsn fsm.peer4byteAsn).run_generous message
                  (generous.spent spentAll)
              rw [prepended, MessageOp.run_nil]
              exact ⟨final, rfl, spentAll.trans more⟩
    | _ => exact ⟨rest, rfl, spent⟩

/-- With memory, the prepared UPDATE does not depend on it. -/
theorem prepareUpdate_generous (generous : alloc.Generous) :
    ∃ rest, fsm.prepareUpdate code update alloc = ((fsm.prepareUpdate code update []).1, rest) ∧ alloc.Spent rest := by
  unfold Fsm.prepareUpdate
  obtain ⟨rest, copied, spent⟩ := code.cloneUpdate.run_generous update generous
  rw [copied, code.cloneUpdate.run_nil]
  cases code.cloneUpdate.result update with
  | error err => exact ⟨rest, rfl, spent⟩
  | ok copy =>
    dsimp only
    split
    · obtain ⟨left, prepared, more⟩ := prepareAdvertisements_generous fsm code copy (generous.spent spent)
      exact ⟨left, prepared, spent.trans more⟩
    · exact ⟨rest, rfl, spent⟩

end Preparing

namespace Sys

/-- What becomes of a message does not depend on the memory that is left, nor on why it is sent. -/
theorem sendBuilt_alike (sys : Sys) (code : MessageCode) (index : Nat) (message : UpdateMsg → Message)
    {result : Except Err UpdateMsg} (fails : ∀ err, result = .error err → err ≠ .ok) :
    (∃ wire sends, ∀ cause rest, sys.sendBuilt code index cause message (result, rest) =
      (.ok, observe { sys with alloc := rest, sends := sends } (.sent index (message wire)))) ∨
    (∃ err sends, err ≠ .ok ∧ ∀ cause rest, sys.sendBuilt code index cause message (result, rest) =
      (err, observe { sys with alloc := rest, sends := sends } (.failed index cause))) := by
  cases result with
  | error err => exact .inr ⟨err, sys.sends, fails err rfl, fun _ _ => rfl⟩
  | ok wire =>
    cases hasOut : (sys.fsm index).params.hasOut with
    | false => exact .inr ⟨.invalid, sys.sends, by decide, fun _ _ => by simp [sendBuilt, hasOut]⟩
    | true =>
      by_cases written : code.packetWrite wire = .ok
      · cases answers : sys.sends with
        | nil => exact .inl ⟨wire, [], fun _ _ => by simp [sendBuilt, hasOut, written, send, answers]⟩
        | cons err rest =>
          by_cases fine : err = .ok
          · subst fine
            exact .inl ⟨wire, rest, fun _ _ => by simp [sendBuilt, hasOut, written, send, answers]⟩
          · refine .inr ⟨err, rest, fine, fun _ _ => ?_⟩
            cases err <;> first | exact absurd rfl fine | simp [sendBuilt, hasOut, written, send, answers]
      · refine .inr ⟨code.packetWrite wire, sys.sends, written, fun _ _ => ?_⟩
        simp only [sendBuilt, hasOut, if_true]

/-- The initial advertisement as far as one stored route is concerned. -/
def advertiseOne (code : MessageCode) (sys : Sys) (index : Nat) (af : Af) (route : Route af.family.width) : Err × Sys :=
  if (sys.fsm index).sendRoutes af then advertiseRoutes code index af [route] sys else (.ok, sys)

/-- Both do nothing, both send one and the same message, or both fail; a failed event ends the session. -/
inductive SameDecision (sys : Sys) (index : Nat) (message : UpdateMsg → Message) (torn : Sys → Sys)
    (advertised : Err × Sys) (event : Sys) : Prop
  | silent (fine : advertised.1 = .ok) (quiet : advertised.2.trace = sys.trace) (ignored : event.trace = sys.trace)
  | sent (wire : UpdateMsg) (fine : advertised.1 = .ok)
      (first : advertised.2.trace = ⟨.sent index (message wire), sys.fsm, sys.ribs⟩ :: sys.trace)
      (second : event.trace = ⟨.sent index (message wire), sys.fsm, sys.ribs⟩ :: sys.trace)
  | failed (before : Sys) (wrong : advertised.1 ≠ .ok)
      (first : advertised.2.trace = ⟨.failed index .advertise, sys.fsm, sys.ribs⟩ :: sys.trace)
      (second : before.trace = ⟨.failed index .routeEvent, sys.fsm, sys.ribs⟩ :: sys.trace)
        (ended : event = torn before)

section Deciding

variable {code : MessageCode} {fail : Fail} {sys : Sys} {index : Nat} {af : Af} {route : Route af.family.width}
  {filter : Option Filter}

/-- A session that is established accepted an identifier other than zero. -/
theorem Reach.identified {calls : Sys → Step → Prop} {writes : Ribs → Ribs → Prop} {members : List Member}
    (reached : Reach code calls writes (init members) sys) (live : (sys.fsm index).state = .established) :
    (sys.fsm index).peerBgpId ≠ 0 := by
  obtain ⟨msg, accepted⟩ := (reached.settled index).accepted (.inr live)
  have valid := (openError_none accepted.checked).2.2.1
  rw [accepted.identifier]
  intro zero
  simp [validPeerBgpId, zero] at valid

/-- For an external route the two tests agree. -/
theorem chosen_iff (exportable : Exportable af route) (external : route.isIbgp = false)
    (live : (sys.fsm index).state = .established) (identified : (sys.fsm index).peerBgpId ≠ 0)
    (configured : (sys.fsm index).params.outFilter af = filter.map fun filter => filter.permits) :
    ((sys.fsm index).sendRoutes af && advertises (sys.fsm index) af route) =
      ((sys.fsm index).receives af route.sourceRouterId &&
        (sys.fsm index).exports af route.sourceRouterId route.pfx (exportedMessage af route)) := by
  have verdict := exportable.exports_eq (sys.fsm index) route.sourceRouterId configured
  have stored : ((sys.fsm index).params.outFilter af).all (fun permits => permits route) =
      filter.all fun filter => filter.permits route := by
    rw [configured]
    cases filter <;> rfl
  have source : (route.sourceRouterId == 0 || route.sourceRouterId != (sys.fsm index).peerBgpId) =
      (route.sourceRouterId != (sys.fsm index).peerBgpId) := by
    by_cases zero : route.sourceRouterId = 0
    · have differs : (route.sourceRouterId != (sys.fsm index).peerBgpId) = true :=
        bne_iff_ne.mpr fun same => identified (same.symm.trans zero)
      rw [differs, Bool.or_true]
    · rw [beq_eq_false_iff_ne.mpr zero, Bool.false_or]
  rw [advertises, Fsm.receives, verdict, stored, source, external, live, Bool.and_false]
  simp only [Bool.not_false, Bool.and_true, beq_self_eq_true, Bool.true_and]
  ac_rfl

/-- The event turns the route into the message that the advertisement sends. -/
theorem routeAddedMessage_eq (exportable : Exportable af route) (fsm : Fsm) {alloc : Allocator}
    (generous : alloc.Generous) :
    ∃ rest, fsm.routeAddedMessage code af route.sourceRouterId route.pfx (exportedMessage af route) alloc =
      ((fsm.prepareUpdate code (exportedMessage af route) []).1, rest) := by
  obtain ⟨back, rest, read, spent, returned⟩ := exportable.eventRoute fsm route.sourceRouterId generous
  obtain ⟨left, exported, more⟩ := (returned.exportable exportable).exports (generous.spent spent)
  rw [returned.message exportable.present] at exported
  obtain ⟨last, prepared, -⟩ := prepareUpdate_generous fsm code (exportedMessage af route)
    (generous.spent (spent.trans more))
  refine ⟨last, ?_⟩
  rw [Fsm.routeAddedMessage, read]
  dsimp only
  rw [exported]
  exact prepared

theorem advertiseOne_skipped
    (skipped : ((sys.fsm index).sendRoutes af && advertises (sys.fsm index) af route) = false) :
    advertiseOne code sys index af route = (.ok, sys) := by
  rw [advertiseOne]
  split
  · rename_i negotiated
    rw [negotiated, Bool.true_and] at skipped
    rw [advertiseRoutes, if_neg (by simp [skipped]), advertiseRoutes]
  · rfl

/-- A route that is not exported leaves no trace. -/
theorem routeEventCb_skipped {update : UpdateMsg} (generous : sys.alloc.Generous)
    (skipped : ((sys.fsm index).receives af route.sourceRouterId &&
      (sys.fsm index).exports af route.sourceRouterId route.pfx update) = false) :
    (routeEventCb code fail sys index (.routeAdded af route.sourceRouterId route.pfx update)).trace = sys.trace := by
  simp only [routeEventCb]
  split
  · rename_i receives
    rw [receives, Bool.true_and] at skipped
    rcases outPermits_cases (sys.fsm index) af route.sourceRouterId route.pfx update sys.alloc with
      ⟨rest, decided, -⟩ | ⟨rest, -, refused⟩
    · rw [decided, skipped]
    · exact absurd refused generous.not_refused
  · rfl

section

variable (exportable : Exportable af route) (generous : sys.alloc.Generous)

include exportable generous

/-- A chosen route is sent when a session comes up. -/
theorem advertiseOne_chosen (chosen : ((sys.fsm index).sendRoutes af && advertises (sys.fsm index) af route) = true) :
    ∃ rest, advertiseOne code sys index af route =
      sys.sendBuilt code index .advertise (.announce af route.sourceRouterId route.pfx (exportedMessage af route))
        (((sys.fsm index).prepareUpdate code (exportedMessage af route) []).1, rest) := by
  obtain ⟨negotiated, advertises⟩ := Bool.and_eq_true_iff.mp chosen
  obtain ⟨left, exported, spent⟩ := exportable.exports generous
  obtain ⟨rest, prepared, -⟩ := prepareUpdate_generous (sys.fsm index) code (exportedMessage af route)
    (generous.spent spent)
  refine ⟨rest, ?_⟩
  rw [advertiseOne, if_pos negotiated, advertiseRoutes, if_pos advertises, exported]
  dsimp only
  rw [prepared]
  generalize sys.sendBuilt code index .advertise _ _ = result
  obtain ⟨err, after⟩ := result
  cases err <;> rfl

/-- A chosen route is sent when its event arrives. -/
theorem routeEventCb_chosen (chosen : ((sys.fsm index).receives af route.sourceRouterId &&
      (sys.fsm index).exports af route.sourceRouterId route.pfx (exportedMessage af route)) = true) :
    ∃ rest, routeEventCb code fail sys index
        (.routeAdded af route.sourceRouterId route.pfx (exportedMessage af route)) =
      match sys.sendBuilt code index .routeEvent
        (.announce af route.sourceRouterId route.pfx (exportedMessage af route))
        (((sys.fsm index).prepareUpdate code (exportedMessage af route) []).1, rest) with
      | (.ok, sys) => sys
      | (_, after) => fail index (sys.fsm index).sessionGeneration after := by
  obtain ⟨receives, permitted⟩ := Bool.and_eq_true_iff.mp chosen
  rcases outPermits_cases (sys.fsm index) af route.sourceRouterId route.pfx (exportedMessage af route) sys.alloc with
    ⟨left, decided, spent⟩ | ⟨left, -, refused⟩
  · obtain ⟨rest, message⟩ := @routeAddedMessage_eq code af route exportable (sys.fsm index) left (generous.spent spent)
    refine ⟨rest, ?_⟩
    simp only [routeEventCb]
    rw [if_pos receives, decided, permitted]
    dsimp only
    exact message ▸ rfl
  · exact absurd refused generous.not_refused

/-- Where the two tests agree, the two paths do. -/
theorem sameDecision_of_agree (agree : ((sys.fsm index).sendRoutes af && advertises (sys.fsm index) af route) =
      ((sys.fsm index).receives af route.sourceRouterId &&
        (sys.fsm index).exports af route.sourceRouterId route.pfx (exportedMessage af route))) :
    SameDecision sys index (.announce af route.sourceRouterId route.pfx (exportedMessage af route))
      (fail index (sys.fsm index).sessionGeneration) (advertiseOne code sys index af route)
      (routeEventCb code fail sys index
        (.routeAdded af route.sourceRouterId route.pfx (exportedMessage af route))) := by
  cases chosen : (sys.fsm index).sendRoutes af && advertises (sys.fsm index) af route with
  | false =>
    refine .silent ?_ ?_ (routeEventCb_skipped generous (agree ▸ chosen))
    · rw [advertiseOne_skipped chosen]
    · rw [advertiseOne_skipped chosen]
  | true =>
    have fails := (prepareUpdate_sendable (sys.fsm index) code (exportedMessage af route) []).fails
    obtain ⟨left, advertised⟩ := @advertiseOne_chosen code sys index af route exportable generous chosen
    obtain ⟨rest, reacted⟩ := @routeEventCb_chosen code fail sys index af route exportable generous (agree ▸ chosen)
    rw [advertised, reacted]
    rcases sendBuilt_alike sys code index (.announce af route.sourceRouterId route.pfx (exportedMessage af route))
        fails with ⟨wire, answers, sent⟩ | ⟨err, answers, wrong, failed⟩
    · refine .sent wire ?_ ?_ ?_
      · exact congrArg Prod.fst (sent .advertise left)
      · exact congrArg (fun result => result.2.trace) (sent .advertise left)
      · rw [sent .routeEvent rest]
        rfl
    · refine .failed (observe { sys with alloc := rest, sends := answers } (.failed index .routeEvent)) ?_ ?_ rfl ?_
      · rw [failed .advertise left]
        exact wrong
      · exact congrArg (fun result => result.2.trace) (failed .advertise left)
      · rw [failed .routeEvent rest]
        cases err <;> first | rfl | exact absurd rfl wrong

end

/-- In every state of every run, whatever the application stores: for a route learned from an external peer,
an established session with any parameters and any outbound filter does the same about the stored route in the
initial advertisement and about the event that was published for it. -/
theorem advertisement_matches_event {calls : Sys → Step → Prop} {writes : Ribs → Ribs → Prop} {members : List Member}
    (reached : Reach code calls writes (init members) sys) (live : (sys.fsm index).state = .established)
    (configured : (sys.fsm index).params.outFilter af = filter.map fun filter => filter.permits)
    (learned : Learned af route) (external : route.isIbgp = false) {update : UpdateMsg} {earlier later : Allocator}
    (published : updateFromRoute af route earlier = (.ok, update, later)) {alloc : Allocator}
    (generous : alloc.Generous) (sends : List Err) :
    SameDecision { sys with alloc := alloc, sends := sends } index
      (.announce af route.sourceRouterId route.pfx update) (fail index (sys.fsm index).sessionGeneration)
      (advertiseOne code { sys with alloc := alloc, sends := sends } index af route)
      (routeEventCb code fail { sys with alloc := alloc, sends := sends } index
        (.routeAdded af route.sourceRouterId route.pfx update)) := by
  have exportable := learned.exportable
  obtain rfl := exportable.message published
  have agree := chosen_iff exportable external live (reached.identified live) configured
  exact @sameDecision_of_agree code fail { sys with alloc := alloc, sends := sends } index af route exportable generous
    agree

/-- The route that the first neighbour of `samplePair` announced. -/
def sampleLearned : Route Af.ipv4.family.width :=
  RibImpl.cloneOf 7 ((samplePair.fsm 0).announcedRoute (sampleUpdate [] [65002] [⟨0xc0000200, 24⟩]) .ipv4
    ⟨⟨0xc0000200, 24⟩, 0x0a000009, 0, 0⟩)

/-- The second session of `samplePair` sends it. -/
theorem advertisement_matches_event_sample :
    advertises (samplePair.fsm 1) .ipv4 sampleLearned = true ∧
    SameDecision { samplePair with alloc := [], sends := [] } 1
      (.announce .ipv4 sampleLearned.sourceRouterId sampleLearned.pfx (exportedMessage .ipv4 sampleLearned))
      (samplePair.fail libbgpCode 1 (samplePair.fsm 1).sessionGeneration)
      (advertiseOne libbgpCode { samplePair with alloc := [], sends := [] } 1 .ipv4 sampleLearned)
      (routeEventCb libbgpCode (samplePair.fail libbgpCode) { samplePair with alloc := [], sends := [] } 1
        (.routeAdded .ipv4 sampleLearned.sourceRouterId sampleLearned.pfx (exportedMessage .ipv4 sampleLearned))) := by
  refine ⟨by decide +kernel, ?_⟩
  refine @advertisement_matches_event libbgpCode _ samplePair 1 .ipv4 sampleLearned none (fun _ _ => True)
    (fun _ _ => True) _ (reach_run _ _ fun _ _ _ => trivial) (by decide +kernel) rfl ?_ (by decide +kernel) _ [] []
    (by decide +kernel) _ Allocator.generous_nil []
  exact ⟨_, _, _, 7, by decide +kernel, List.mem_singleton_self _, rfl⟩

end Deciding

end Sys

end Libbgp
