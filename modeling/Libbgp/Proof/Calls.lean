/-
Each call on a session as the actions that it is made of.
-/

import Libbgp.Proof.Actions

namespace Libbgp

open Library

namespace Sys

section Opening

variable {start : Sys} (sys : Sys) (index : Nat)

theorem abort_opens (notify : Option (UInt8 × UInt8)) (down : (sys.fsm index).state ≠ .established) :
    Opens start sys (sys.abort index notify) := by
  have closed : Opens start sys (sys.snapshotTeardown index) := .single (.closed sys index down)
  unfold abort
  split
  · exact closed
  · exact closed.trans (still_notify _ index _ _).opens

theorem drainAndDispatch_still : Still sys (sys.drainAndDispatch index) :=
  (still_drain sys index).trans (still_dispatch _ index _)

theorem enterPreOpenState_opens (state : FsmState) (pre : state = .connect ∨ state = .active) :
    Opens start sys (sys.enterPreOpenState index state).2 := by
  unfold enterPreOpenState
  split
  · rename_i early
    exact (Relation.ReflTransGen.single (.entered sys index state early pre)).trans
      (drainAndDispatch_still _ index).opens
  · exact .refl

/-- An OPEN is sent, or its failure is recorded. -/
theorem sendOpen_cases :
    (∃ rest sends, sys.alloc.Spent rest ∧ sys.sendOpen index = (.ok, observe { sys with alloc := rest, sends := sends }
      (.sent index (.opening (sys.fsm index).params.openMsg)))) ∨
    (∃ err rest sends, err ≠ .ok ∧ sys.alloc.Spent rest ∧ sys.sendOpen index =
      (err, observe { sys with alloc := rest, sends := sends } (.failed index .control))) := by
  unfold sendOpen
  dsimp only
  split
  · exact .inr ⟨.invalid, sys.alloc, sys.sends, by decide, .refl _, rfl⟩
  · rcases sys.alloc.requests_cases (2 * ((sys.fsm index).params.config.enable4byteAsn.toNat +
        (sys.fsm index).params.enableMpbgpIpv4.toNat + (sys.fsm index).params.config.enableMpbgpIpv6.toNat)) with
      ⟨rest, granted, spent⟩ | ⟨rest, denied, refused⟩
    · rw [granted]
      rcases send_cases { sys with alloc := rest } index .control (.opening (sys.fsm index).params.openMsg) with
        ⟨sends, sent⟩ | ⟨err, sends, wrong, failed⟩
      · exact .inl ⟨rest, sends, spent, sent⟩
      · exact .inr ⟨err, rest, sends, wrong, spent, failed⟩
    · rw [denied]
      exact .inr ⟨.nomem, rest, sys.sends, by decide, refused.spent, rfl⟩

@[simp] theorem moved_fsm (fsm : Fsm) (rest : Allocator) (sends : List Err) (news : List Moment) :
    (sys.moved index fsm rest sends news).fsm index = fsm :=
  Function.update_self ..

theorem moved_modify (fsm : Fsm) (rest : Allocator) (sends : List Err) (news : List Moment) (change : Fsm → Fsm) :
    (sys.moved index fsm rest sends news).modify index change = sys.moved index (change fsm) rest sends news := by
  simp only [modify, moved, Function.update_self, Function.update_idem]

/-- Starting only prepares a session. -/
theorem start_opens : Opens start sys (sys.start index).2 := by
  unfold Sys.start
  dsimp only
  split
  · exact .refl
  split
  · exact .refl
  rename_i early
  have early : (sys.fsm index).statePreOpen = true := by simpa using early
  have cases := sendOpen_cases (sys.modify index fun fsm => (fsm.setState .openSent).clearPeer) index
  simp only [modify_fsm_self, Fsm.clearPeer_params, Fsm.setState_params, modify_alloc] at cases
  rcases cases with ⟨rest, sends, spent, sent⟩ | ⟨err, rest, sends, wrong, spent, failed⟩
  · simp only [sent, if_true]
    refine Relation.ReflTransGen.trans (.single (.opened sys index rest sends _ early spent rfl ?_))
      (drainAndDispatch_still _ index).opens
    simp
  · simp only [failed, if_neg wrong]
    refine Relation.ReflTransGen.trans (.single ?_) (drainAndDispatch_still _ index).opens
    have result := moved_modify sys index ((sys.fsm index).setState .openSent).clearPeer rest sends
      [⟨.failed index .control, Function.update sys.fsm index ((sys.fsm index).setState .openSent).clearPeer, sys.ribs⟩]
      fun fsm =>
      { fsm.setState (sys.fsm index).state with
        localKeepaliveSendPending := false
        localKeepalivePending := false
        passiveOpenSendPending := false
        passiveKeepalivePending := false
        sessionGeneration := fsm.sessionGeneration + 1 }
    refine result ▸ Opening.unopened sys index _ rest sends _ early spent ?_ ?_ ?_ rfl
    · simp
    · simp
    · rw [Fsm.setState_eq]
      exact ⟨rfl, rfl, rfl, rfl, rfl, rfl, rfl, rfl, rfl, rfl⟩

end Opening

section Moved

variable (sys : Sys) (index : Nat) (fsm : Fsm) (rest : Allocator) (sends : List Err) (news : List Moment)

/-- A moment while one session differs. -/
def momentOf (obs : Obs) : Moment := ⟨obs, Function.update sys.fsm index fsm, sys.ribs⟩

theorem close_moved : (sys.moved index fsm rest sends news).snapshotTeardown index =
    sys.moved index fsm.snapshotTeardown rest sends
      (sys.momentOf index fsm.snapshotTeardown (.closed index) :: news) := by
  unfold snapshotTeardown
  rw [moved_modify]
  rfl

theorem send_moved_cases (message : Message) :
    (∃ later, (sys.moved index fsm rest sends news).send index message .control =
      (.ok, sys.moved index fsm rest later (sys.momentOf index fsm (.sent index message) :: news))) ∨
    (∃ err later, err ≠ .ok ∧ (sys.moved index fsm rest sends news).send index message .control =
      (err, sys.moved index fsm rest later (sys.momentOf index fsm (.failed index .control) :: news))) := by
  rcases send_cases (sys.moved index fsm rest sends news) index .control message with
    ⟨later, sent⟩ | ⟨err, later, wrong, failed⟩
  · exact .inl ⟨later, sent⟩
  · exact .inr ⟨err, later, wrong, failed⟩

/-- OPEN is sent, or its failure is noted. -/
theorem sendOpen_moved_cases :
    (∃ left later, rest.Spent left ∧ (sys.moved index fsm rest sends news).sendOpen index =
      (.ok, sys.moved index fsm left later
        (sys.momentOf index fsm (.sent index (.opening fsm.params.openMsg)) :: news))) ∨
    (∃ err left later, err ≠ .ok ∧ rest.Spent left ∧ (sys.moved index fsm rest sends news).sendOpen index =
      (err, sys.moved index fsm left later (sys.momentOf index fsm (.failed index .control) :: news))) := by
  have cases := sendOpen_cases (sys.moved index fsm rest sends news) index
  rw [moved_fsm] at cases
  rcases cases with ⟨left, later, spent, sent⟩ | ⟨err, left, later, wrong, spent, failed⟩
  · exact .inl ⟨left, later, spent, sent⟩
  · exact .inr ⟨err, left, later, wrong, spent, failed⟩

variable {sys index fsm rest sends news}

/-- The attempt of a session is given up after one of its answers failed. -/
theorem dropped_opens {start : Sys} {generation : UInt64} (down : (sys.fsm index).state ≠ .established)
    (spent : sys.alloc.Spent rest) (params : fsm.params = (sys.fsm index).params)
    (confirming : fsm.state = .openConfirm) (current : fsm.sessionGeneration = generation)
    (plain : ∀ moment ∈ news, Plain moment.obs ∨ ∃ msg, moment.obs = .sent index (.opening msg)) :
    Opens start sys ((sys.moved index fsm rest sends news).rollbackFailedLocalKeepalive index generation) := by
  unfold rollbackFailedLocalKeepalive
  dsimp only
  rw [moved_fsm, if_pos (.inl ⟨confirming, current⟩), close_moved]
  exact .single (.dropped sys index fsm.snapshotTeardown rest sends _ news down spent
    (by simp [params]) (by simp) (Fsm.snapshotTeardown_blank fsm) rfl plain)

end Moved

section Accepting

variable {start sys : Sys} {index : Nat} {msg : OpenMsg} {code : MessageCode}

theorem send_fsm (sys : Sys) (index : Nat) (message : Message) (cause : Cause) :
    (sys.send index message cause).2.fsm = sys.fsm := by
  rcases send_cases sys index cause message with ⟨rest, sent⟩ | ⟨err, rest, -, failed⟩
  · rw [sent]
    rfl
  · rw [failed]
    rfl

/-- An OPEN that passed its checks is turned down for another attempt, or accepted. -/
theorem acceptOpen_cases (msg : OpenMsg) (passive : Bool) (down : (sys.fsm index).state ≠ .established)
    (elsewhere : (sys.fsm index).state ≠ .openConfirm) :
    (∃ after, sys.acceptOpen index msg passive = (false, after) ∧ Opens start sys after ∧
      after.fsm index = (sys.fsm index).snapshotTeardown ∧ (sys.fsm index).params.noCollisionDetection = false ∧
      routerIdLe (sys.fsm index).params.config.localBgpId msg.bgpId = false) ∨
    (∃ middle, sys.collisionRejectNew index msg.bgpId = (false, middle) ∧ Spares index sys middle ∧
      Opens start sys middle ∧ sys.acceptOpen index msg passive =
        (true, middle.moved index ((sys.fsm index).acceptOpen msg passive) middle.alloc middle.sends [])) := by
  have spared := publishCollision_spares sys (sys.fsm index).params.collisionSubId msg.bgpId elsewhere
  have reached := @publishCollision_opens start sys (sys.fsm index).params.collisionSubId msg.bgpId
  have rejected : (sys.collisionRejectNew index msg.bgpId = (true, (sys.publishCollision
      (sys.fsm index).params.collisionSubId msg.bgpId).2.snapshotTeardown index) ∧
        (sys.fsm index).params.noCollisionDetection = false ∧
        routerIdLe (sys.fsm index).params.config.localBgpId msg.bgpId = false) ∨
      ∃ middle, sys.collisionRejectNew index msg.bgpId = (false, middle) ∧ Spares index sys middle ∧
        Opens start sys middle := by
    unfold collisionRejectNew
    dsimp only
    split
    · exact .inr ⟨sys, rfl, .refl sys, .refl⟩
    rename_i detects
    split
    · rename_i greater
      simp only [Bool.and_eq_true, Bool.not_eq_true'] at greater
      exact .inl ⟨rfl, by simpa using detects, greater.2⟩
    · exact .inr ⟨_, rfl, spared, reached⟩
  rcases rejected with ⟨rejected, greater⟩ | ⟨middle, accepted, spares, opens⟩
  · refine .inl ⟨(((sys.publishCollision (sys.fsm index).params.collisionSubId msg.bgpId).2.snapshotTeardown
      index).sendNotification index 6 7).2, by simp only [acceptOpen, rejected], ?_, ?_, greater⟩
    · refine reached.trans (.trans (.single (.closed _ index ?_)) (still_notify _ index 6 7).opens)
      rw [spared.fsm]
      exact down
    · rw [sendNotification, send_fsm]
      simp [snapshotTeardown, spared.fsm]
  · refine .inr ⟨middle, accepted, spares, opens, ?_⟩
    simp only [acceptOpen, accepted, modify, spares.fsm, moved, List.nil_append]

@[simp] theorem acceptOpen_state (fsm : Fsm) (msg : OpenMsg) (passive : Bool) :
    (fsm.acceptOpen msg passive).state = .openConfirm := by
  simp [Fsm.acceptOpen]

@[simp] theorem acceptOpen_params (fsm : Fsm) (msg : OpenMsg) (passive : Bool) :
    (fsm.acceptOpen msg passive).params = fsm.params := by
  simp [Fsm.acceptOpen]

theorem plain_single {moment : Moment} (plain : Plain moment.obs) :
    ∀ other ∈ [moment], Plain other.obs ∨ ∃ msg, other.obs = .sent index (.opening msg) := by
  intro other member
  rw [List.mem_singleton.mp member]
  exact .inl plain

/-- The answers to an accepted OPEN were sent, or the attempt is given up. -/
inductive Answered (sys : Sys) (index : Nat) (msg : OpenMsg) (passive : Bool) : Err × Sys → Prop
  | sent (rest : Allocator) (sends : List Err) (keepalive : Moment) (opening : List Moment)
      (spent : sys.alloc.Spent rest) (confirming : keepalive.obs = .sent index .keepalive)
      (answered : if passive then ∃ moment, opening = [moment] ∧ (moment.fsm index).state = .openConfirm ∧
        moment.obs = .sent index (.opening (sys.fsm index).params.openMsg) else opening = []) :
      Answered sys index msg passive
        (.ok, sys.moved index ((sys.fsm index).confirmed msg passive) rest sends (keepalive :: opening))
  | failed (err : Err) (fsm : Fsm) (rest : Allocator) (sends : List Err) (news : List Moment)
      (spent : sys.alloc.Spent rest) (confirming : fsm.state = .openConfirm)
      (same : fsm = { (sys.fsm index).acceptOpen msg passive with
        passiveOpenSendPending := fsm.passiveOpenSendPending
        localKeepaliveSendPending := fsm.localKeepaliveSendPending })
      (plain : ∀ moment ∈ news, Plain moment.obs ∨ ∃ msg, moment.obs = .sent index (.opening msg)) :
      Answered sys index msg passive
        (err, (sys.moved index fsm rest sends news).rollbackFailedLocalKeepalive index fsm.sessionGeneration)

/-- What becomes of an OPEN that a session waits for. -/
inductive Handled (start sys : Sys) (index : Nat) (msg : OpenMsg) (passive : Bool) : Err × Sys → Prop
  | wrong (err : Err) (notify : Option (UInt8 × UInt8))
      (wrong : (sys.fsm index).openError msg = some (err, notify)) :
      Handled start sys index msg passive (err, sys.abort index notify)
  | refused (after : Sys) (checked : (sys.fsm index).openError msg = none) (opens : Opens start sys after)
      (session : after.fsm index = (sys.fsm index).snapshotTeardown)
      (detects : (sys.fsm index).params.noCollisionDetection = false)
      (greater : routerIdLe (sys.fsm index).params.config.localBgpId msg.bgpId = false) :
      Handled start sys index msg passive (.ok, after)
  | answered (middle : Sys) (result : Err × Sys) (checked : (sys.fsm index).openError msg = none)
      (uncontested : sys.collisionRejectNew index msg.bgpId = (false, middle)) (spares : Spares index sys middle)
      (opens : Opens start sys middle) (answered : Answered middle index msg passive result) :
      Handled start sys index msg passive result

/-- An OPEN in `OPEN_SENT` is handled. -/
theorem onOpenSent_handled (code : MessageCode) (msg : OpenMsg) (sent : (sys.fsm index).state = .openSent) :
    Handled start sys index msg false (sys.onOpenSent code index (.opening msg)) := by
  simp only [onOpenSent]
  rcases checked : (sys.fsm index).openError msg with _ | ⟨err, notify⟩
  · rcases @acceptOpen_cases start sys index msg false (by simp [sent]) (by simp [sent]) with
      ⟨after, refused, opens, session, detects, greater⟩ | ⟨middle, uncontested, spares, opens, accepted⟩
    · simp only [refused]
      exact .refused after checked opens session detects greater
    · simp only [accepted, moved_fsm]
      rw [← spares.fsm]
      refine .answered middle _ checked uncontested spares opens ?_
      rcases send_moved_cases middle index ((middle.fsm index).acceptOpen msg false) middle.alloc middle.sends []
          .keepalive with ⟨sends, done⟩ | ⟨err, sends, wrong, failed⟩
      · simp only [done, moved_modify, moved_fsm]
        exact .sent middle.alloc sends _ [] (.refl _) rfl (by simp)
      · simp only [failed]
        exact .failed err _ middle.alloc sends _ (.refl _) (by simp) rfl (plain_single trivial)
  · exact .wrong err notify checked

/-- An OPEN before the own one is handled. -/
theorem onPreOpenOpen_handled (code : MessageCode) (msg : OpenMsg) (early : (sys.fsm index).statePreOpen = true) :
    Handled start sys index msg true (sys.onPreOpenOpen code index msg) := by
  have away {state : FsmState} (late : state = .openConfirm ∨ state = .established) :
      (sys.fsm index).state ≠ state := by
    rintro rfl
    rcases late with late | late <;> simp [Fsm.statePreOpen, late] at early
  simp only [onPreOpenOpen]
  rcases checked : (sys.fsm index).openError msg with _ | ⟨err, notify⟩
  · rcases @acceptOpen_cases start sys index msg true (away (.inr rfl)) (away (.inl rfl)) with
      ⟨after, refused, opens, session, detects, greater⟩ | ⟨middle, uncontested, spares, opens, accepted⟩
    · simp only [refused]
      exact .refused after checked opens session detects greater
    · simp only [accepted, moved_fsm]
      rw [← spares.fsm]
      refine .answered middle _ checked uncontested spares opens ?_
      rcases sendOpen_moved_cases middle index ((middle.fsm index).acceptOpen msg true) middle.alloc middle.sends []
        with ⟨rest, later, spent, opened⟩ | ⟨err, rest, later, wrong, spent, failed⟩
      · simp only [opened, moved_modify]
        rcases send_moved_cases middle index { (middle.fsm index).acceptOpen msg true with
            passiveOpenSendPending := false, localKeepaliveSendPending := true } rest later
            [middle.momentOf index ((middle.fsm index).acceptOpen msg true)
              (.sent index (.opening ((middle.fsm index).acceptOpen msg true).params.openMsg))] .keepalive with
          ⟨sends, done⟩ | ⟨err, sends, wrong, failed⟩
        · simp only [done, moved_modify, moved_fsm]
          refine .sent rest sends _ _ spent rfl ?_
          rw [if_pos rfl]
          exact ⟨_, rfl, by simp [momentOf], by simp [momentOf]⟩
        · simp only [failed]
          refine .failed err _ rest sends _ spent (by simp) rfl ?_
          rintro moment (_ | ⟨_, _ | ⟨_, impossible⟩⟩)
          · exact .inl trivial
          · exact .inr ⟨_, rfl⟩
          · cases impossible
      · simp only [failed]
        exact .failed err _ rest later _ spent (by simp) rfl (plain_single trivial)
  · exact .wrong err notify checked

/-- An OPEN prepares the session that waits for it, or ends its attempt. -/
theorem Handled.opens {passive : Bool} {result : Err × Sys} (handled : Handled start sys index msg passive result)
    (before : if passive then (sys.fsm index).statePreOpen = true else (sys.fsm index).state = .openSent)
    (down : (sys.fsm index).state ≠ .established) (begun : Begun start sys)
    (heard : ∃ moment ∈ attempt index sys.trace, moment.obs = .received index (.opening msg) ∧ moment.fsm = start.fsm) :
    Opens start sys result.2 := by
  cases handled with
  | wrong err notify wrong => exact abort_opens sys index notify down
  | refused after checked opens session detects greater => exact opens
  | answered middle result checked uncontested spares opens answered =>
    refine opens.trans ?_
    rw [← spares.fsm] at before checked down
    cases answered with
    | sent rest sends keepalive opening spent confirming answered =>
      obtain ⟨moment, member, received⟩ := heard
      exact .single (.confirmed sys middle index msg passive rest sends keepalive opening before checked spent begun
        uncontested ⟨moment, spares.attempt_mem member, received⟩ confirming answered)
    | failed err fsm rest sends news spent confirming same plain =>
      exact dropped_opens down spent (by rw [same]; simp) confirming rfl plain

/-- `fsm_on_open_sent` prepares the session or gives the attempt up. -/
theorem onOpenSent_opens {packet : Packet} (sent : (sys.fsm index).state = .openSent) (begun : Begun start sys)
    (heard : ∃ moment ∈ attempt index sys.trace, moment.obs = .received index packet ∧ moment.fsm = start.fsm) :
    Opens start sys (sys.onOpenSent code index packet).2 := by
  have down : (sys.fsm index).state ≠ .established := by simp [sent]
  cases packet with
  | opening msg => exact (onOpenSent_handled code msg sent).opens (by simpa using sent) down begun heard
  | update | notification | keepalive | unknown => exact abort_opens sys index (some (5, 1)) down

/-- `fsm_on_pre_open_open` prepares the session or gives the attempt up. -/
theorem onPreOpenOpen_opens (early : (sys.fsm index).statePreOpen = true) (begun : Begun start sys)
    (heard : ∃ moment ∈ attempt index sys.trace, moment.obs = .received index (.opening msg) ∧ moment.fsm = start.fsm) :
    Opens start sys (sys.onPreOpenOpen code index msg).2 := by
  refine (onPreOpenOpen_handled code msg early).opens (by simpa using early) ?_ begun heard
  intro established
  simp [Fsm.statePreOpen, established] at early

end Accepting

/-- A walk over a table for one session, which may stop at a failure. -/
structure Walks (index : Nat) (err : Err) (before after : Sys) : Prop where
  chain : Relation.ReflTransGen (Advertising index) before after
  fsm : after.fsm = before.fsm
  ribs : after.ribs = before.ribs
  news : ∃ news, after.trace = news ++ before.trace ∧
    (err ≠ .ok → ∃ moment ∈ news, moment.obs = .failed index .advertise)

section Advertising

variable {index : Nat} {err : Err} {first second third : Sys}

theorem Walks.refl (sys : Sys) : Walks index .ok sys sys :=
  ⟨.refl, rfl, rfl, [], rfl, fun wrong => absurd rfl wrong⟩

theorem Walks.trans {early : Err} (left : Walks index early first second) (right : Walks index err second third) :
    Walks index err first third := by
  obtain ⟨older, olderTrace, -⟩ := left.news
  obtain ⟨newer, newerTrace, failing⟩ := right.news
  refine ⟨left.chain.trans right.chain, right.fsm.trans left.fsm, right.ribs.trans left.ribs, newer ++ older,
    by rw [newerTrace, olderTrace, List.append_assoc], fun wrong => ?_⟩
  obtain ⟨moment, member, seen⟩ := failing wrong
  exact ⟨moment, List.mem_append_left _ member, seen⟩

theorem walks_alloc (sys : Sys) {rest : Allocator} (spent : sys.alloc.Spent rest) :
    Walks index .ok sys { sys with alloc := rest } :=
  ⟨.single (.quiet (.alloc sys rest spent)), rfl, rfl, [], rfl, fun wrong => absurd rfl wrong⟩

theorem walks_failed (sys : Sys) {rest : Allocator} (sends : List Err) (spent : sys.alloc.Spent rest) :
    Walks index err sys (observe { sys with alloc := rest, sends := sends } (.failed index .advertise)) := by
  have chain : Still sys (observe { sys with alloc := rest, sends := sends } (.failed index .advertise)) :=
    (Relation.ReflTransGen.single (.alloc sys rest spent)).trans
      ((Relation.ReflTransGen.single (.sends _ sends)).trans (still_seen _ (.failed index .advertise) trivial))
  exact ⟨chain.advertises, rfl, rfl, [_], rfl, fun _ => ⟨_, List.mem_singleton_self _, rfl⟩⟩

/-- The walk over a table sends its cached routes. -/
theorem advertiseRoutes_walks {code : MessageCode} {af : Af} (entries : List (RouteEntry af.family.width)) (sys : Sys)
    (negotiated : (sys.fsm index).sendRoutes af = true)
    (cached : ∀ entry ∈ entries, (sys.ribs.get af).lpm.bestAt (LpmIndex.network entry) = some entry) :
    Walks index (advertiseRoutes code index af (entries.map RouteEntry.route) sys).1 sys
      (advertiseRoutes code index af (entries.map RouteEntry.route) sys).2 := by
  induction entries generalizing sys with
  | nil => exact .refl sys
  | cons entry rest ih =>
    have later : ∀ after, Walks index .ok sys after →
        Walks index (advertiseRoutes code index af (rest.map RouteEntry.route) after).1 sys
          (advertiseRoutes code index af (rest.map RouteEntry.route) after).2 := fun after walks =>
      walks.trans (ih after (by rw [walks.fsm]; exact negotiated) fun other member => by
        rw [walks.ribs]
        exact cached other (List.mem_cons_of_mem _ member))
    simp only [List.map_cons, advertiseRoutes]
    split
    · rename_i chosen
      have spent := (updateFromRoute_built af entry.route).spent sys.alloc
      rcases built : updateFromRoute af entry.route sys.alloc with ⟨result, update, middle⟩
      rw [built] at spent
      by_cases good : result = .ok
      · subst good
        dsimp only
        have sendable := @prepareUpdate_sendable (sys.fsm index) code update middle
        rcases sendBuilt_cases sys code index .advertise
            (.announce af entry.route.sourceRouterId entry.route.pfx update) _ sendable with
          ⟨wire, sends, -, sent⟩ | ⟨wrong, sends, bad, failed⟩
        · rw [sent]
          refine later _ ⟨.single (.sent sys af entry update wire middle _ sends negotiated
            (cached entry List.mem_cons_self) chosen built (spent.trans sendable.spent)), rfl, rfl, [_], rfl,
            fun wrong => absurd rfl wrong⟩
        · rw [failed]
          cases wrong with
          | ok => exact absurd rfl bad
          | _ => exact walks_failed sys sends (spent.trans sendable.spent)
      · cases result with
        | ok => exact absurd rfl good
        | _ => exact walks_failed sys sys.sends spent
    · exact later sys (.refl sys)

/-- Advertising the stored routes is a walk over a table. -/
theorem advertiseExisting_walks {code : MessageCode} {sys : Sys} (sound : sys.Sound) (index : Nat) (af : Af) :
    Walks index (sys.advertiseExisting code index af).1 sys (sys.advertiseExisting code index af).2 := by
  unfold advertiseExisting
  split
  · rename_i negotiated
    obtain ⟨-, cached, -, -⟩ := RibImpl.foreachBestRoute_spec (sound af) sys.alloc
    have spent := RibImpl.foreachBestRoute_spent (sys.ribs.get af) sys.alloc
    generalize (sys.ribs.get af).foreachBestRoute sys.alloc = snapshot at cached spent
    obtain ⟨err, entries, rest⟩ := snapshot
    have walks := (walks_alloc sys spent).trans
      (@advertiseRoutes_walks index code af entries { sys with alloc := rest } negotiated cached)
    dsimp only
    by_cases good : err = .ok
    · rw [if_pos good]
      exact walks
    · rw [if_neg good]
      exact walks.trans (@walks_failed index err _ _ _ (.refl _))
  · exact .refl sys

theorem Quiet.news (quiet : Quiet first second) : ∃ news, second.trace = news ++ first.trace := by
  cases quiet with
  | seen | heard => exact ⟨[_], rfl⟩
  | _ => exact ⟨[], rfl⟩

theorem Still.news (still : Still first second) : ∃ news, second.trace = news ++ first.trace := by
  induction still with
  | refl => exact ⟨[], rfl⟩
  | tail _ taken ih =>
    obtain ⟨older, before⟩ := ih
    obtain ⟨newer, after⟩ := taken.news
    exact ⟨newer ++ older, by rw [after, before, List.append_assoc]⟩

end Advertising

section Rising

variable {code : MessageCode} {before confirmed : Sys} {index : Nat} {call : Call}

/-- A session that comes up advertises the tables, and then its start is announced or it is torn down. -/
theorem becomeEstablished_acts (sound : confirmed.Sound) (ready : Still before confirmed)
    (confirming : (confirmed.fsm index).state = .openConfirm)
    (sentOpen : (confirmed.fsm index).passiveOpenSendPending = false)
    (sentKeepalive : (confirmed.fsm index).localKeepaliveSendPending = false)
    (heard : ∃ moment ∈ attempt index confirmed.trace, moment.obs = .received index .keepalive ∧
      (moment.fsm index).state = .openConfirm) :
    Acts code index call before (confirmed.becomeEstablished code index).2 := by
  have rises : ∀ after, Relation.ReflTransGen (Advertising index) (confirmed.modify index Fsm.establish) after →
      Rises index before after confirmed := fun after walked =>
    ⟨ready, confirming, sentOpen, sentKeepalive, heard, walked⟩
  obtain ⟨older, olderTrace⟩ := ready.news
  have torn : ∀ err after, err ≠ .ok → Walks index err (confirmed.modify index Fsm.establish) after →
      Acts code index call before
        (after.fail code index ((confirmed.modify index Fsm.establish).fsm index).sessionGeneration
        after) := by
    intro err after wrong walks
    obtain ⟨newer, newerTrace, failing⟩ := walks.news
    obtain ⟨moment, member, seen⟩ := failing wrong
    refine .down confirmed after (rises after walks.chain) ⟨newer ++ older, ?_, moment,
      List.mem_append_left _ member, seen⟩ (by rw [walks.fsm])
    rw [newerTrace, List.append_assoc, ← olderTrace]
    rfl
  have walk4 := @advertiseExisting_walks code (confirmed.modify index Fsm.establish) sound index .ipv4
  simp only [becomeEstablished, runEstablishedActions]
  generalize (confirmed.modify index Fsm.establish).advertiseExisting code index .ipv4 = first at walk4
  obtain ⟨err, middle⟩ := first
  cases err with
  | ok =>
    have soundNow : middle.Sound := by
      intro af
      rw [walk4.ribs]
      exact sound af
    have walk6 := @advertiseExisting_walks code middle soundNow index .ipv6
    dsimp only
    generalize middle.advertiseExisting code index .ipv6 = second at walk6
    obtain ⟨err, last⟩ := second
    cases err with
    | ok =>
      refine .up confirmed (last.drain index).2 (rises _ ?_) (still_dispatch _ index _)
      exact (walk4.trans walk6).chain.trans (still_drain last index).advertises
    | _ => exact torn _ last (by simp) (walk4.trans walk6)
  | _ => exact torn _ middle (by simp) walk4

end Rising

section Closing

variable {code : MessageCode} {sys closed after : Sys} {index : Nat} {call : Call} {before : Sys}

theorem Quiet.ribs {after : Sys} (quiet : Quiet before after) : after.ribs = before.ribs := by
  cases quiet <;> rfl

theorem Still.ribs {after : Sys} (still : Still before after) : after.ribs = before.ribs := by
  induction still with
  | refl => rfl
  | tail _ taken ih => exact taken.ribs.trans ih

theorem Still.sound {after : Sys} (still : Still before after) (sound : before.Sound) : after.Sound :=
  sound.same still.ribs

theorem Quiet.count {after : Sys} (quiet : Quiet before after) : after.count = before.count := by
  cases quiet <;> rfl

theorem Still.count {after : Sys} (still : Still before after) : after.count = before.count := by
  induction still with
  | refl => rfl
  | tail _ taken ih => exact taken.count.trans ih

/-- The end of an established session, however it got that far. -/
theorem lost_shuts (live : (sys.fsm index).state = .established) (shut : Still (sys.snapshotTeardown index) closed ∨
      ∃ first second, Still (sys.snapshotTeardown index) first ∧ Undone (sys.fsm index) first second ∧
        Still second closed)
    (rest : Still (closed.loseRoutes code index true (sys.fsm index).peerBgpId) after) :
      Shuts code index call sys after := by
  have count : closed.count = sys.count := by
    rcases shut with shut | ⟨first, second, early, ⟨state, -, -, undone⟩, late⟩
    · exact shut.count
    · rw [late.count, undone]
      exact early.count
  have same : closed.fail code = sys.fail code := by simp only [fail, count]
  rw [loseRoutes, if_pos rfl, same] at rest
  exact (Closing.lost (.ended closed _ live shut .refl rest)).shuts

/-- The end of a session, whatever its state was. -/
theorem lose_shuts (shut : Still (sys.snapshotTeardown index) closed)
    (rest : Still (closed.loseRoutes code index ((sys.fsm index).state == .established) (sys.fsm index).peerBgpId)
      after) : Shuts code index call sys after := by
  by_cases live : (sys.fsm index).state = .established
  · have flag : ((sys.fsm index).state == .established) = true := by simp [live]
    rw [flag] at rest
    exact lost_shuts live (.inl shut) rest
  · have flag : ((sys.fsm index).state == .established) = false := by simp [live]
    rw [flag] at rest
    exact (Closing.closed sys live).shuts.beforeStill (shut.trans rest)

theorem onNotification_shuts (sys : Sys) (index : Nat) : Shuts code index call sys (sys.onNotification code index) :=
  lose_shuts (still_drain _ index) (still_dispatch _ index _)

theorem endSession_shuts (live : (sys.fsm index).state = .established)
    (notifyCode subcode : UInt8) : Shuts code index call sys (sys.endSession code index notifyCode subcode).2 := by
  have shut : Still (sys.snapshotTeardown index)
      (((sys.snapshotTeardown index).drain index).2.sendNotification index notifyCode subcode).2 :=
    (still_drain _ index).trans (still_notify _ index _ _)
  exact lost_shuts live (.inl shut) (still_dispatch _ index _)

theorem onMalformed_shuts (sys : Sys) (index : Nat) (err : Err) (notifyCode subcode : UInt8) :
    Shuts code index call sys (sys.onMalformed code index err notifyCode subcode).2 := by
  unfold onMalformed
  split
  · exact .quiet .refl
  · exact lose_shuts (still_drain _ index) ((still_notify _ index _ _).trans (still_dispatch _ index _))

theorem startClock_still (sys : Sys) (index : Nat) (now : UInt64) : Still sys (sys.startClock index now) :=
  .single (.touched sys index _ rfl)

/-- A tick uses or ends at most one session. -/
theorem tick_shuts (sys : Sys) (index : Nat) (now : UInt64) :
    Shuts code index call sys (sys.tick code index now).2 := by
  have ticked : Still sys (sys.modify index fun fsm => { fsm with currentMs := now }) :=
    .single (.touched sys index _ rfl)
  unfold tick
  split
  · exact .quiet (startClock_still sys index now)
  refine Shuts.afterStill ?_ ticked
  generalize (sys.modify index fun fsm => { fsm with currentMs := now }) = sys
  dsimp only
  split
  · exact lose_shuts ((still_drain _ index).trans (still_notify _ index 4 0)) (still_dispatch _ index _)
  split
  · rcases send_cases sys index .control .keepalive with ⟨rest, sent⟩ | ⟨err, rest, wrong, failed⟩
    · have told : Still sys (observe { sys with sends := rest } (.sent index .keepalive)) :=
        (Relation.ReflTransGen.single (.sends sys rest)).trans (still_seen _ (.sent index .keepalive) trivial)
      simp only [sent]
      exact .quiet (told.trans (.single (.touched _ index (fun fsm => { fsm with lastKeepaliveMs := now }) rfl)))
    · have told : Still sys (observe { sys with sends := rest } (.failed index .control)) :=
        (Relation.ReflTransGen.single (.sends sys rest)).trans (still_seen _ (.failed index .control) trivial)
      simp only [failed]
      exact Shuts.afterStill (lose_shuts (still_drain _ index) (still_dispatch _ index _)) told
  · exact .quiet .refl

/-- The end of a session whose routes are discarded before its peer is told. -/
theorem stopped_shuts {middle : Sys} (live : (sys.fsm index).state = .established)
    (shut : Still (sys.snapshotTeardown index) closed) (sound : closed.Sound)
    (told : Still (closed.discardPeerRoutesPublish code (closed.fail code) (sys.fsm index).peerBgpId) middle)
    (rest : Still (middle.publishEvent code (middle.fail code) 0 (.sessionDown index)) after) :
      Shuts code index call sys after := by
  have failing : ∀ other generation later, later.Failing other →
      Soundly Setup later (closed.fail code other generation later) := fun other generation later _ =>
    setup_closes.fail closed other generation later
  have setup := (@Discards.discardPeerRoutesPublish code _ _ setup_closes.toDiscards failing closed
    (sys.fsm index).peerBgpId sound).2
  have count : middle.count = closed.count := told.count.trans setup.count
  have same : closed.fail code = sys.fail code := by simp only [fail, shut.count]; rfl
  have sameLater : middle.fail code = sys.fail code := by rw [← same]; simp only [fail, count]
  rw [same] at told
  rw [sameLater] at rest
  exact (Closing.lost (.ended closed middle live (.inl shut) told rest)).shuts

/-- `fsm_reset_common` -/
theorem resetCommon_shuts (sound : sys.Sound) (index : Nat) (sendNotify : Bool) (subcode : UInt8) :
    Shuts code index call sys (sys.resetCommon code index sendNotify subcode).2 := by
  unfold resetCommon
  dsimp only
  generalize (sendNotify && (sys.fsm index).state != .idle) = notify
  have shut : Still (sys.snapshotTeardown index) ((sys.snapshotTeardown index).drain index).2 := still_drain _ index
  have soundNow : ((sys.snapshotTeardown index).drain index).2.Sound := sound
  by_cases early : ((sys.fsm index).state == .established && notify && subcode == adminShutdown) = true
  · simp only [if_pos early]
    simp only [Bool.and_eq_true, beq_iff_eq] at early
    obtain ⟨⟨live, told⟩, -⟩ := early
    simp only [told, if_true]
    -- an administrative stop discards the routes before the NOTIFICATION
    exact stopped_shuts live shut soundNow (still_notify _ index 6 subcode) (still_dispatch _ index _)
  · simp only [if_neg early]
    refine lose_shuts (shut.trans ?_) (still_dispatch _ index _)
    split
    · exact still_notify _ index 6 subcode
    · exact .refl

/-- The undone tables of a message that could not be applied. -/
theorem undone_rollback {fsm : Fsm} {update : UpdateMsg} {err : Err} {subcode : UInt8} {state : Applying}
    (sound : sys.Sound) (failed : fsm.applyUpdate code update sys.ribs sys.alloc = (err, subcode, state))
    (wrong : err ≠ .ok) :
    Undone fsm sys { sys with
      ribs := (state.rollback fsm.peerBgpId).ribs
      alloc := (state.rollback fsm.peerBgpId).alloc } := by
  have applied := @Fsm.applyUpdate_applied fsm code update sys.ribs sys.alloc sound
  rw [failed] at applied
  refine ⟨_, applied.rolledBack wrong sound, fun generous => ?_, rfl⟩
  cases applied with
  | stopped err subcode journal rest wrong records spent => rw [Fsm.rollback_nothing records]
  | refused subcode table start middle after starts tracked spent refused failed =>
    exact absurd (spent.trans_refused refused) generous.not_refused
  | done subcode start after valid starts run => exact absurd rfl wrong

theorem Undone.sound {fsm : Fsm} {after : Sys} (undone : Undone fsm before after) : after.Sound := by
  obtain ⟨state, rolledBack, -, result⟩ := undone
  rw [result]
  exact rolledBack.invariant

/-- The part of `fsm_on_established` about an UPDATE. -/
theorem onUpdate_shuts (sound : sys.Sound) (live : (sys.fsm index).state = .established) (update : UpdateMsg) :
    Shuts code index (.packet (.update update)) sys (sys.onUpdate code index update).2 := by
  unfold onUpdate
  dsimp only
  split
  · have ended := @endSession_shuts code sys index (.packet (.update update)) live 3 errMalformedAttrList
    generalize sys.endSession code index 3 errMalformedAttrList = result at ended
    obtain ⟨err, last⟩ := result
    cases err <;> exact ended
  · rcases applied : (sys.fsm index).applyUpdate code update sys.ribs sys.alloc with ⟨err, subcode, state⟩
    by_cases good : err = .ok
    · subst good
      exact (Closing.applied sys update subcode state rfl live applied).shuts
    by_cases bad : err = .invalid
    · subst bad
      dsimp only
      have first : Still (sys.snapshotTeardown index) ((sys.snapshotTeardown index).drain index).2 :=
        still_drain _ index
      have undone := @undone_rollback code ((sys.snapshotTeardown index).drain index).2 (sys.fsm index) update
        .invalid subcode
        state sound applied good
      have last := still_notify { ((sys.snapshotTeardown index).drain index).2 with
        ribs := (state.rollback (sys.fsm index).peerBgpId).ribs
        alloc := (state.rollback (sys.fsm index).peerBgpId).alloc } index 3 subcode
      exact lost_shuts live (.inr ⟨_, _, first, undone, last⟩) (still_dispatch _ index _)
    · have undone := undone_rollback sound applied good
      cases err with
      | ok => exact absurd rfl good
      | invalid => exact absurd rfl bad
      | _ => exact (Closing.undone live undone).shuts

/-- `fsm_on_established` -/
theorem onEstablished_shuts (sound : sys.Sound) (live : (sys.fsm index).state = .established) (packet : Packet) :
    Shuts code index (.packet packet) sys (sys.onEstablished code index packet).2 := by
  cases packet with
  | keepalive => exact .quiet (.single (.touched sys index _ (Fsm.markRxCurrent_same _)))
  | notification => exact onNotification_shuts sys index
  | update msg => exact onUpdate_shuts sound live msg
  | opening msg | unknown => exact endSession_shuts live 5 3

end Closing

section Calls

variable {code : MessageCode} {sys : Sys} {index : Nat} {call : Call}

/-- `fsm_on_open_confirm` -/
theorem onOpenConfirm_acts {before : Sys} {packet : Packet} (sound : sys.Sound) (ready : Still before sys)
    (confirming : (sys.fsm index).state = .openConfirm)
    (heard : ∃ moment ∈ attempt index sys.trace, moment.obs = .received index packet ∧
      (moment.fsm index).state = .openConfirm) :
    Acts code index call before (sys.onOpenConfirm code index packet).2 := by
  have down : (sys.fsm index).state ≠ .established := by simp [confirming]
  have aborted : ∀ notify, Acts code index call before (sys.abort index notify) := fun notify =>
    .opens (ready.opens.trans (abort_opens sys index notify down))
  have waits : ∀ change, change (sys.fsm index) = { sys.fsm index with
        lastRxMs := (change (sys.fsm index)).lastRxMs
        localKeepalivePending := (change (sys.fsm index)).localKeepalivePending
        passiveKeepalivePending := (change (sys.fsm index)).passiveKeepalivePending } →
      (sys.fsm index).passiveOpenSendPending = true ∨ (sys.fsm index).localKeepaliveSendPending = true →
      Acts code index call before (sys.modify index change) := fun change same waiting =>
    .opens (ready.opens.trans (.single (.pending sys index change confirming waiting same)))
  cases packet with
  | opening msg =>
    simp only [onOpenConfirm]
    split
    · split
      · exact aborted _
      · exact .opens ready.opens
    · exact aborted (some (5, 2))
  | keepalive =>
    simp only [onOpenConfirm]
    split
    · rename_i waiting
      refine waits (fun fsm => { fsm.markRxCurrent with passiveKeepalivePending := true }) ?_ (.inl waiting)
      dsimp only [Fsm.markRxCurrent]
      split <;> rfl
    split
    · rename_i waiting
      refine waits (fun fsm => { fsm.markRxCurrent with localKeepalivePending := true }) ?_ (.inr waiting)
      dsimp only [Fsm.markRxCurrent]
      split <;> rfl
    · rename_i noOpen noKeepalive
      have marked : Still sys (sys.modify index Fsm.markRxCurrent) :=
        .single (.touched sys index _ (Fsm.markRxCurrent_same _))
      have same := Fsm.markRxCurrent_same (sys.fsm index)
      refine becomeEstablished_acts sound (ready.trans marked) ?_ ?_ ?_ heard
      · rw [modify_fsm_self, same]
        exact confirming
      · rw [modify_fsm_self, same]
        simpa using noOpen
      · rw [modify_fsm_self, same]
        simpa using noKeepalive
  | notification => exact aborted none
  | update msg | unknown => exact aborted (some (5, 2))

/-- `libbgp_fsm_on_packet` -/
theorem onPacket_acts (sound : sys.Sound) (present : index < sys.count) (packet : Packet) :
    Acts code index (.packet packet) sys (sys.onPacket code index packet).2 := by
  have ready : Still sys (sys.observe (.received index packet)) := .single (.heard sys index packet present)
  have heard : ∃ moment ∈ attempt index (sys.observe (.received index packet)).trace,
      moment.obs = .received index packet ∧ moment.fsm = sys.fsm :=
    ⟨⟨.received index packet, sys.fsm, sys.ribs⟩, by simp [attempt], rfl, rfl⟩
  have notified : ∀ other,
      Acts code index (.packet packet) sys ((sys.observe (.received index other)).onNotification code index) :=
    fun other => .shuts ((onNotification_shuts _ index).afterStill (.single (.heard sys index other present)))
  have early : ∀ now : Sys, (now.fsm index).state = .idle ∨ (now.fsm index).state = .connect ∨
      (now.fsm index).state = .active → (now.fsm index).statePreOpen = true := by
    intro now cases
    simpa [Fsm.statePreOpen, or_assoc] using cases
  unfold onPacket
  dsimp only
  split
  · exact notified _
  · rename_i idle
    exact .opens (ready.opens.trans (onPreOpenOpen_opens (early _ (.inl idle)) ⟨.refl _, rfl, rfl, rfl⟩ heard))
  · rename_i connect
    exact .opens (ready.opens.trans
      (onPreOpenOpen_opens (early _ (.inr (.inl connect))) ⟨.refl _, rfl, rfl, rfl⟩ heard))
  · rename_i active
    exact .opens (ready.opens.trans (onPreOpenOpen_opens (early _ (.inr (.inr active))) ⟨.refl _, rfl, rfl, rfl⟩ heard))
  · rename_i sent
    exact .opens (ready.opens.trans (onOpenSent_opens sent ⟨.refl _, rfl, rfl, rfl⟩ heard))
  · rename_i confirming
    obtain ⟨moment, member, seen, snapshot⟩ := heard
    exact onOpenConfirm_acts sound ready confirming ⟨moment, member, seen, by rw [snapshot]; exact confirming⟩
  · rename_i live
    exact .shuts ((@onEstablished_shuts code (sys.observe _) index sound live _).afterStill ready)
  · exact .opens ready.opens

/-- Every call is made of actions. -/
theorem perform_acts (sound : sys.Sound) (present : index < sys.count) (call : Call) :
    Acts code index call sys (sys.perform code index call).2 := by
  cases call with
  | start => exact .opens (start_opens sys index)
  | enterConnect => exact .opens (enterPreOpenState_opens sys index .connect (.inl rfl))
  | enterActive => exact .opens (enterPreOpenState_opens sys index .active (.inr rfl))
  | stop => exact .shuts (resetCommon_shuts sound index true adminShutdown)
  | resetSoft => exact .shuts (resetCommon_shuts sound index true adminReset)
  | resetHard => exact .shuts (resetCommon_shuts sound index false 0)
  | packet packet => exact onPacket_acts sound present packet
  | malformed err notifyCode subcode => exact .shuts (onMalformed_shuts sys index err notifyCode subcode)
  | tick now => exact .shuts (tick_shuts sys index now)

end Calls

end Sys

end Libbgp
