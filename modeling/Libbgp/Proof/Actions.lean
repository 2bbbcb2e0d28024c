/-
Every call as a chain of actions: first those that build up a session, then those that use or end one.
-/

import Libbgp.Proof.RibLookup
import Libbgp.Proof.System

namespace Libbgp

open Library

namespace Fsm

variable (fsm : Fsm) (state : FsmState)

/-- A session attempt that knows nothing about its peer. -/
structure Blank (fsm : Fsm) : Prop where
  asn : fsm.peerAsn = 0
  identifier : fsm.peerBgpId = 0
  hold : fsm.negotiatedHoldTime = 0
  ipv4 : fsm.sendIpv4Routes = false
  ipv6 : fsm.sendIpv6Routes = false
  mpbgp : fsm.peerMpbgpIpv6 = false
  localSend : fsm.localKeepaliveSendPending = false
  localKeepalive : fsm.localKeepalivePending = false
  passiveOpen : fsm.passiveOpenSendPending = false
  passiveKeepalive : fsm.passiveKeepalivePending = false

theorem clearPeer_blank : Blank fsm.clearPeer :=
  ⟨rfl, rfl, rfl, rfl, rfl, rfl, rfl, rfl, rfl, rfl⟩

/-- Only the clock and the queued notifications of a session differ. -/
def SameSession (before after : Fsm) : Prop :=
  after = { before with
    currentMs := after.currentMs
    lastRxMs := after.lastRxMs
    lastKeepaliveMs := after.lastKeepaliveMs
    clockInitialized := after.clockInitialized
    stateChanges := after.stateChanges }

theorem SameSession.refl : SameSession fsm fsm := rfl

theorem SameSession.trans {first second third : Fsm} (left : SameSession first second)
    (right : SameSession second third) : SameSession first third := by
  unfold SameSession at *
  rw [right, left]

theorem markRxCurrent_same : SameSession fsm fsm.markRxCurrent := by
  unfold markRxCurrent
  split <;> rfl

@[simp] theorem setState_state : (fsm.setState state).state = state := by
  unfold setState
  split
  · assumption
  split
  · rfl
  split <;> rfl

/-- A change of the state leaves everything but the queued notifications as it is. -/
theorem setState_eq :
    fsm.setState state = { fsm with state := state, stateChanges := (fsm.setState state).stateChanges } := by
  unfold setState
  split
  · rename_i same
    rw [← same]
  split
  · rfl
  split <;> rfl

@[simp] theorem setState_params : (fsm.setState state).params = fsm.params := by
  rw [setState_eq]

@[simp] theorem clearPeer_state : fsm.clearPeer.state = fsm.state := rfl

@[simp] theorem clearPeer_params : fsm.clearPeer.params = fsm.params := rfl

@[simp] theorem snapshotTeardown_state : fsm.snapshotTeardown.state = .idle := by
  simp [snapshotTeardown]

@[simp] theorem snapshotTeardown_params : fsm.snapshotTeardown.params = fsm.params := by
  simp [snapshotTeardown]

theorem snapshotTeardown_blank : Blank fsm.snapshotTeardown := clearPeer_blank _

/-- The session after an accepted OPEN whose answers were sent. -/
def confirmed (fsm : Fsm) (msg : OpenMsg) (passive : Bool) : Fsm :=
  { fsm.acceptOpen msg passive with localKeepaliveSendPending := false, passiveOpenSendPending := false }

end Fsm

namespace Sys

/-- Nothing that a publication or a teardown does changes the setup. -/
theorem setup_closes : Closes Setup where
  refl := Setup.refl
  trans := Setup.trans
  alloc _ _ _ := ⟨rfl, rfl, fun _ => rfl⟩
  sends _ _ := ⟨rfl, rfl, fun _ => rfl⟩
  observe _ _ _ := ⟨rfl, rfl, fun _ => rfl⟩
  discard _ _ _ _ _ _ _ _ := ⟨rfl, rfl, fun _ => rfl⟩
  close sys index := (setup_modify sys index _ (Fsm.snapshotTeardown_params _)).trans ⟨rfl, rfl, fun _ => rfl⟩
  drain sys index := setup_modify sys index (fun fsm => { fsm with stateChanges := [] }) rfl
  notified _ _ _ _ := ⟨rfl, rfl, fun _ => rfl⟩
  ended _ _ := ⟨rfl, rfl, fun _ => rfl⟩

/-- What is seen besides packets, routes, ends of sessions and the messages that open one. -/
def Plain : Obs → Prop
  | .sent _ (.notification _ _) => True
  | .sent _ .keepalive => True
  | .failed _ .control => True
  | .failed _ .advertise => True
  | .notified _ _ _ => True
  | .published _ (.collision _) => True
  | .delivered _ (.collision _) => True
  | _ => False

/-- A step that changes no route and no session. -/
inductive Quiet : Sys → Sys → Prop
  | alloc (sys : Sys) (rest : Allocator) (spent : sys.alloc.Spent rest) : Quiet sys { sys with alloc := rest }
  | sends (sys : Sys) (rest : List Err) : Quiet sys { sys with sends := rest }
  | seen (sys : Sys) (obs : Obs) (plain : Plain obs) : Quiet sys (sys.observe obs)
  | heard (sys : Sys) (index : Nat) (packet : Packet) (present : index < sys.count) :
      Quiet sys (sys.observe (.received index packet))
  | touched (sys : Sys) (index : Nat) (change : Fsm → Fsm)
      (same : (sys.fsm index).SameSession (change (sys.fsm index))) : Quiet sys (sys.modify index change)

abbrev Still : Sys → Sys → Prop := Relation.ReflTransGen Quiet

/-- What was seen since the last attempt of a session ended. -/
def attempt (index : Nat) : List Moment → List Moment
  | [] => []
  | moment :: rest =>
    match moment.obs with
    | .closed other => if other = index then [] else moment :: attempt index rest
    | _ => moment :: attempt index rest

/-- One session changes while something is seen. -/
def moved (sys : Sys) (index : Nat) (fsm : Fsm) (rest : Allocator) (sends : List Err) (news : List Moment) : Sys :=
  { sys with fsm := Function.update sys.fsm index fsm, alloc := rest, sends := sends, trace := news ++ sys.trace }

/-- A call has begun, but nothing has changed yet. -/
structure Begun (start sys : Sys) : Prop where
  alloc : start.alloc.Spent sys.alloc
  fsm : sys.fsm = start.fsm
  count : sys.count = start.count
  subs : sys.subs = start.subs

/-- The steps that prepare a session, in a call that began in some state. -/
inductive Opening (start : Sys) : Sys → Sys → Prop
  | quiet {before after : Sys} (taken : Quiet before after) : Opening start before after
  | entered (sys : Sys) (index : Nat) (state : FsmState) (early : (sys.fsm index).statePreOpen = true)
      (pre : state = .connect ∨ state = .active) :
      Opening start sys (sys.modify index fun fsm => (fsm.setState state).clearPeer)
  | opened (sys : Sys) (index : Nat) (rest : Allocator) (sends : List Err) (moment : Moment)
      (early : (sys.fsm index).statePreOpen = true) (spent : sys.alloc.Spent rest)
      (sent : moment.obs = .sent index (.opening (sys.fsm index).params.openMsg))
      (now : (moment.fsm index).state = .openSent) :
      Opening start sys
        (sys.moved index ((sys.fsm index).setState .openSent).clearPeer rest sends [moment])
  | unopened (sys : Sys) (index : Nat) (fsm : Fsm) (rest : Allocator) (sends : List Err) (moment : Moment)
      (early : (sys.fsm index).statePreOpen = true) (spent : sys.alloc.Spent rest)
      (params : fsm.params = (sys.fsm index).params) (state : fsm.state = (sys.fsm index).state) (blank : fsm.Blank)
      (failed : moment.obs = .failed index .control) :
      Opening start sys (sys.moved index fsm rest sends [moment])
  | closed (sys : Sys) (index : Nat) (down : (sys.fsm index).state ≠ .established) :
      Opening start sys (sys.snapshotTeardown index)
  | dropped (sys : Sys) (index : Nat) (fsm : Fsm) (rest : Allocator) (sends : List Err) (last : Moment)
      (news : List Moment) (down : (sys.fsm index).state ≠ .established) (spent : sys.alloc.Spent rest)
      (params : fsm.params = (sys.fsm index).params) (idle : fsm.state = .idle) (blank : fsm.Blank)
      (ended : last.obs = .closed index)
      (plain : ∀ moment ∈ news, Plain moment.obs ∨ ∃ msg, moment.obs = .sent index (.opening msg)) :
      Opening start sys (sys.moved index fsm rest sends (last :: news))
  | confirmed (earlier sys : Sys) (index : Nat) (msg : OpenMsg) (passive : Bool) (rest : Allocator) (sends : List Err)
      (keepalive : Moment) (opening : List Moment)
      (before : if passive then (sys.fsm index).statePreOpen = true else (sys.fsm index).state = .openSent)
      (checked : (sys.fsm index).openError msg = none) (spent : sys.alloc.Spent rest)
      (begun : Begun start earlier)
      (uncontested : earlier.collisionRejectNew index msg.bgpId = (false, sys))
      (heard : ∃ moment ∈ attempt index sys.trace, moment.obs = .received index (.opening msg) ∧ moment.fsm = start.fsm)
      (confirming : keepalive.obs = .sent index .keepalive)
      (answered : if passive then ∃ moment, opening = [moment] ∧ (moment.fsm index).state = .openConfirm ∧
        moment.obs = .sent index (.opening (sys.fsm index).params.openMsg) else opening = []) :
      Opening start sys
        (sys.moved index ((sys.fsm index).confirmed msg passive) rest sends (keepalive :: opening))
  | pending (sys : Sys) (index : Nat) (change : Fsm → Fsm) (confirming : (sys.fsm index).state = .openConfirm)
      (waiting : (sys.fsm index).passiveOpenSendPending = true ∨ (sys.fsm index).localKeepaliveSendPending = true)
      (same : change (sys.fsm index) = { sys.fsm index with
        lastRxMs := (change (sys.fsm index)).lastRxMs
        localKeepalivePending := (change (sys.fsm index)).localKeepalivePending
        passiveKeepalivePending := (change (sys.fsm index)).passiveKeepalivePending }) :
      Opening start sys (sys.modify index change)

/-- The tables go back to what they were before a message that failed. -/
def Undone (peer : Fsm) (before after : Sys) : Prop :=
  ∃ state : Applying, peer.RolledBack before.ribs before.alloc state ∧
    (before.alloc.Generous → state.ribs = before.ribs) ∧
    after = { before with ribs := state.ribs, alloc := state.alloc }

/-- An established session ends: its routes are discarded, and its end is announced. -/
inductive Loses (code : MessageCode) (fail : Fail) (index : Nat) (before after : Sys) : Prop
  | ended (closed middle : Sys) (live : (before.fsm index).state = .established)
      (shut : Still (before.snapshotTeardown index) closed ∨
        ∃ first second, Still (before.snapshotTeardown index) first ∧ Undone (before.fsm index) first second ∧
          Still second closed)
      (discarded : Still (closed.discardPeerRoutesPublish code fail (before.fsm index).peerBgpId) middle)
      (rest : Still (middle.publishEvent code fail 0 (.sessionDown index)) after)

/-- The applied UPDATE is in the tables, and the time of its receipt is noted. -/
abbrev storeApplied (index : Nat) (state : Applying) (sys : Sys) : Sys :=
  modify { sys with ribs := state.ribs, alloc := state.alloc } index Fsm.markRxCurrent

/-- What a session does with an UPDATE that it has applied: the changes are published. -/
abbrev publishApplied (code : MessageCode) (index : Nat) (state : Applying) (sys : Sys) : Sys :=
  publishUpdateEvents code (sys.fail code) index (sys.fsm index).sessionGeneration (sys.fsm index).peerBgpId
    state.journal.changes (sys.storeApplied index state)

/-- The steps that use or end a session, in a call on it. -/
inductive Closing (code : MessageCode) (index : Nat) (call : Call) : Sys → Sys → Prop
  | closed (sys : Sys) (down : (sys.fsm index).state ≠ .established) :
      Closing code index call sys (sys.snapshotTeardown index)
  | undone {before after : Sys} (live : (before.fsm index).state = .established)
      (restored : Undone (before.fsm index) before after) : Closing code index call before after
  | applied (sys : Sys) (update : UpdateMsg) (subcode : UInt8) (state : Applying)
      (asked : call = .packet (.update update)) (live : (sys.fsm index).state = .established)
      (done : (sys.fsm index).applyUpdate code update sys.ribs sys.alloc = (.ok, subcode, state)) :
      Closing code index call sys (sys.publishApplied code index state)
  | lost {before after : Sys} (loses : Loses code (before.fail code) index before after) :
      Closing code index call before after

/-- A stored route is sent to a session that has just come up, or something quiet happens. -/
inductive Advertising (index : Nat) : Sys → Sys → Prop
  | quiet {before after : Sys} (taken : Quiet before after) : Advertising index before after
  | sent (sys : Sys) (af : Af) (entry : RouteEntry af.family.width) (update wire : UpdateMsg)
      (middle rest : Allocator) (sends : List Err) (negotiated : (sys.fsm index).sendRoutes af = true)
      (cached : (sys.ribs.get af).lpm.bestAt (LpmIndex.network entry) = some entry)
      (chosen : advertises (sys.fsm index) af entry.route = true)
      (built : updateFromRoute af entry.route sys.alloc = (.ok, update, middle)) (spent : sys.alloc.Spent rest) :
      Advertising index sys (observe { sys with alloc := rest, sends := sends }
        (.sent index (.announce af entry.source entry.pfx update wire)))

/-- A session becomes established and goes through the table. -/
structure Rises (index : Nat) (before after : Sys) (confirmed : Sys) : Prop where
  ready : Still before confirmed
  confirming : (confirmed.fsm index).state = .openConfirm
  sentOpen : (confirmed.fsm index).passiveOpenSendPending = false
  sentKeepalive : (confirmed.fsm index).localKeepaliveSendPending = false
  heard : ∃ moment ∈ attempt index confirmed.trace, moment.obs = .received index .keepalive ∧
    (moment.fsm index).state = .openConfirm
  walked : Relation.ReflTransGen (Advertising index) (confirmed.modify index Fsm.establish) after

abbrev Opens (start : Sys) : Sys → Sys → Prop := Relation.ReflTransGen (Opening start)

/-- A call uses or ends at most one session. -/
inductive Shuts (code : MessageCode) (index : Nat) (call : Call) (before after : Sys) : Prop
  | quiet (still : Still before after)
  | taken (middle last : Sys) (early : Still before middle) (closing : Closing code index call middle last)
      (late : Still last after)

/-- What one call does: it prepares a session, brings one up, or uses or ends what there is. -/
inductive Acts (code : MessageCode) (index : Nat) (call : Call) (before after : Sys) : Prop
  | opens (chain : Opens before before after)
  | shuts (shuts : Shuts code index call before after)
  | up (confirmed walked : Sys) (rises : Rises index before walked confirmed)
      (rest : Still (walked.publishEvent code (walked.fail code) 0 (.sessionUp index)) after)
  | down (confirmed walked : Sys) (rises : Rises index before walked confirmed)
      (seen : ∃ news, walked.trace = news ++ before.trace ∧ ∃ moment ∈ news, moment.obs = .failed index .advertise)
      (torn : after = walked.fail code index (walked.fsm index).sessionGeneration walked)

section Quiet

variable (sys : Sys) (index : Nat) {before after : Sys}

theorem still_seen (obs : Obs) (plain : Plain obs) : Still sys (sys.observe obs) := .single (.seen sys obs plain)

theorem still_drain : Still sys (sys.drain index).2 :=
  .single (.touched sys index (fun fsm => { fsm with stateChanges := [] }) rfl)

theorem still_dispatch (changes : List (FsmState × FsmState)) : Still sys (sys.dispatch index changes) := by
  unfold dispatch
  induction changes generalizing sys with
  | nil => exact .refl
  | cons change rest ih => exact (still_seen sys (.notified index change.1 change.2) trivial).trans (ih _)

/-- The messages that carry no route and open no session are quiet. -/
theorem still_send {message : Message} (plain : Plain (.sent index message)) :
    Still sys (sys.send index message .control).2 := by
  rcases send_cases sys index .control message with ⟨rest, sent⟩ | ⟨err, rest, -, failed⟩
  · rw [sent]
    exact (Relation.ReflTransGen.single (.sends sys rest)).trans (still_seen _ _ plain)
  · rw [failed]
    exact (Relation.ReflTransGen.single (.sends sys rest)).trans (still_seen _ (.failed index .control) trivial)

theorem still_notify (code subcode : UInt8) : Still sys (sys.sendNotification index code subcode).2 :=
  still_send sys index trivial

theorem Still.opens {start : Sys} (still : Still before after) :
    Opens start before after := Relation.ReflTransGen.mono (fun _ _ => Opening.quiet) _ _ still

theorem Still.advertises {index : Nat} (still : Still before after) :
    Relation.ReflTransGen (Advertising index) before after :=
  Relation.ReflTransGen.mono (fun _ _ => Advertising.quiet) _ _ still

section Shuts

variable {code : MessageCode} {index : Nat} {call : Call} {first before after last : Sys}

theorem Closing.shuts (closing : Closing code index call before after) : Shuts code index call before after :=
  .taken before after .refl closing .refl

theorem Shuts.afterStill (shuts : Shuts code index call before after) (early : Still first before) :
    Shuts code index call first after := by
  cases shuts with
  | quiet still => exact .quiet (early.trans still)
  | taken middle last soon closing late => exact .taken middle last (early.trans soon) closing late

theorem Shuts.beforeStill (shuts : Shuts code index call before after) (late : Still after last) :
    Shuts code index call before last := by
  cases shuts with
  | quiet still => exact .quiet (still.trans late)
  | taken middle second early closing soon => exact .taken middle second early closing (soon.trans late)

end Shuts

end Quiet

section Collision

variable {start : Sys}

/-- The other attempts that a collision event reaches are left alone or closed. -/
theorem collisionCb_opens (sys : Sys) (index : Nat) (source : RouterId) :
    Opens start sys (sys.collisionCb index source).2 := by
  unfold collisionCb
  dsimp only
  split
  · rename_i met
    simp only [Bool.and_eq_true, beq_iff_eq] at met
    split
    · have down : (sys.fsm index).state ≠ .established := by simp [met.1.2]
      refine (Relation.ReflTransGen.single (.closed sys index down)).trans ?_
      refine (still_drain _ index).opens.trans ?_
      exact (still_notify _ index 6 7).opens.trans (still_dispatch _ index _).opens
    · exact .refl
  · exact .refl

theorem deliverCollision_opens (source : RouterId) (state : Bool × Sys) (sub : Subscriber) :
    Opens start state.2 (deliverCollision source state sub).2 := by
  unfold deliverCollision
  split
  · exact collisionCb_opens _ _ _
  · rename_i number _
    exact (still_seen _ (.delivered number (.collision source)) trivial).opens

theorem publishCollision_opens (sys : Sys) (publisher : Nat) (source : RouterId) :
    Opens start sys (sys.publishCollision publisher source).2 :=
  publishCollision_relates (fun _ => .refl) .trans (fun _ rest spent => .single (.quiet (.alloc _ rest spent)))
    (deliverCollision_opens source) sys publisher
    (still_seen sys (.published publisher (.collision source)) trivial).opens

end Collision

section Attempt

variable {index : Nat} {first second third : Sys} {other : Nat} (sys : Sys)

theorem attempt_append {news trace : List Moment} (kept : ∀ moment ∈ news, moment.obs ≠ .closed index) :
    attempt index (news ++ trace) = news ++ attempt index trace := by
  induction news with
  | nil => rfl
  | cons moment rest ih =>
    have later := ih fun other member => kept other (List.mem_cons_of_mem _ member)
    have head := kept moment List.mem_cons_self
    rw [List.cons_append, attempt]
    split
    · rename_i other closed
      have different : other ≠ index := fun same => head (by rw [closed, same])
      rw [if_neg different, later, List.cons_append]
    · rw [later, List.cons_append]

/-- A session is left as it is, and its attempt goes on. -/
structure Spares (index : Nat) (before after : Sys) : Prop where
  fsm : after.fsm index = before.fsm index
  news : ∃ news, after.trace = news ++ before.trace ∧ ∀ moment ∈ news, moment.obs ≠ .closed index

theorem Spares.refl : Spares index sys sys := ⟨rfl, [], rfl, nofun⟩

theorem Spares.trans (left : Spares index first second) (right : Spares index second third) :
    Spares index first third := by
  obtain ⟨early, earlyTrace, earlyKept⟩ := left.news
  obtain ⟨late, lateTrace, lateKept⟩ := right.news
  refine ⟨right.fsm.trans left.fsm, late ++ early, by rw [lateTrace, earlyTrace, List.append_assoc], ?_⟩
  intro moment member
  rcases List.mem_append.mp member with member | member
  · exact lateKept moment member
  · exact earlyKept moment member

theorem Spares.attempt_mem (spares : Spares index first second) {moment : Moment}
    (member : moment ∈ attempt index first.trace) : moment ∈ attempt index second.trace := by
  obtain ⟨news, trace, kept⟩ := spares.news
  rw [trace, attempt_append kept]
  exact List.mem_append_right _ member

theorem Quiet.spares (quiet : Quiet first second) (untouched : second.fsm index = first.fsm index) :
    Spares index first second := by
  cases quiet with
  | alloc rest spent | sends rest => exact ⟨untouched, [], rfl, nofun⟩
  | seen obs plain =>
    refine ⟨untouched, [_], rfl, ?_⟩
    rintro moment (_ | ⟨_, impossible⟩) closed
    · simp only at closed
      rw [closed] at plain
      exact plain
    · cases impossible
  | heard other packet present =>
    refine ⟨untouched, [_], rfl, ?_⟩
    rintro moment (_ | ⟨_, impossible⟩) closed
    · cases closed
    · cases impossible
  | touched other change same => exact ⟨untouched, [], rfl, nofun⟩

theorem spares_observe {obs : Obs} (kept : obs ≠ .closed index) : Spares index sys (sys.observe obs) := by
  refine ⟨rfl, [⟨obs, sys.fsm, sys.ribs⟩], rfl, ?_⟩
  rintro moment (_ | ⟨_, impossible⟩)
  · exact kept
  · cases impossible

theorem spares_modify (different : index ≠ other) (change : Fsm → Fsm) : Spares index sys (sys.modify other change) :=
  ⟨modify_fsm_other sys other change different, [], rfl, nofun⟩

theorem spares_close (different : index ≠ other) : Spares index sys (sys.snapshotTeardown other) :=
  (spares_modify sys different _).trans (spares_observe _ fun same => different (Obs.closed.inj same).symm)

theorem spares_send (other : Nat) (message : Message) (cause : Cause) :
    Spares index sys (sys.send other message cause).2 := by
  have kept : ∀ rest, Spares index sys { sys with sends := rest } := fun rest =>
    ⟨rfl, [], rfl, nofun⟩
  rcases send_cases sys other cause message with ⟨rest, sent⟩ | ⟨err, rest, -, failed⟩
  · rw [sent]
    exact (kept rest).trans (spares_observe _ nofun)
  · rw [failed]
    exact (kept rest).trans (spares_observe _ nofun)

theorem spares_dispatch (other : Nat) (changes : List (FsmState × FsmState)) :
    Spares index sys (sys.dispatch other changes) := by
  unfold dispatch
  induction changes generalizing sys with
  | nil => exact .refl sys
  | cons change rest ih => exact (spares_observe sys (by simp)).trans (ih _)

/-- A collision only concerns attempts that wait for their KEEPALIVE. -/
theorem collisionCb_spares (other : Nat) (source : RouterId) (elsewhere : (sys.fsm index).state ≠ .openConfirm) :
    Spares index sys (sys.collisionCb other source).2 := by
  unfold collisionCb
  dsimp only
  split
  · rename_i met
    simp only [Bool.and_eq_true, beq_iff_eq] at met
    have different : index ≠ other := fun same => elsewhere (same ▸ met.1.2)
    split
    · have drained : Spares index (sys.snapshotTeardown other) ((sys.snapshotTeardown other).drain other).2 :=
        spares_modify _ different fun fsm => { fsm with stateChanges := [] }
      have notified : Spares index _ _ :=
        spares_send ((sys.snapshotTeardown other).drain other).2 other (.notification 6 7) .control
      exact (spares_close sys different).trans (drained.trans (notified.trans (spares_dispatch _ _ _)))
    · exact .refl sys
  · exact .refl sys

theorem publishCollision_spares (publisher : Nat) (source : RouterId)
    (elsewhere : (sys.fsm index).state ≠ .openConfirm) :
    Spares index sys (sys.publishCollision publisher source).2 := by
  have each (state : Bool × Sys) (sub : Subscriber) (elsewhere : (state.2.fsm index).state ≠ .openConfirm) :
      Spares index state.2 (deliverCollision source state sub).2 := by
    unfold deliverCollision
    split
    · exact collisionCb_spares _ _ _ elsewhere
    · exact spares_observe _ nofun
  have published := @publishCollision_relates
    (fun first second => (first.fsm index).state ≠ .openConfirm → Spares index first second) (fun sys _ => .refl sys)
    (fun left right start => (left start).trans (right (by rw [(left start).fsm]; exact start)))
    (fun _ _ _ _ => ⟨rfl, [], rfl, nofun⟩) source each sys publisher (fun _ => spares_observe sys nofun)
  exact published elsewhere

end Attempt

section Teardown

variable {code : MessageCode} {relation : Sys → Sys → Prop}

/-- A teardown is the loss of a session, or there is none to lose. -/
theorem teardownAt_cases (fuel index : Nat) (generation : UInt64) (sys : Sys) :
    teardownAt code fuel index generation sys = sys ∨
    ∃ less, fuel = less + 1 ∧
      Loses code (teardownAt code less) index sys (teardownAt code fuel index generation sys) := by
  cases fuel with
  | zero => exact .inl rfl
  | succ fuel =>
    simp only [teardownAt, teardownCurrentEstablished]
    split
    · rename_i current
      simp only [Fsm.sessionCurrent, Bool.and_eq_true, beq_iff_eq] at current
      exact .inr ⟨fuel, rfl, .ended _ _ current.1 (.inl (still_drain _ index)) .refl (still_dispatch _ index _)⟩
    · exact .inl rfl

/-- A relation holds across every teardown when it holds across the loss of one session. -/
theorem teardownAt_relates (refl : ∀ sys, relation sys sys)
    (lost : ∀ fail index before after, (∀ other generation sys, relation sys (fail other generation sys)) →
      Loses code fail index before after → relation before after) (fuel index : Nat) (generation : UInt64) (sys : Sys) :
    relation sys (teardownAt code fuel index generation sys) := by
  induction fuel generalizing index generation sys with
  | zero => exact refl sys
  | succ fuel ih =>
    rcases @teardownAt_cases code (fuel + 1) index generation sys with same | ⟨less, deeper, loses⟩
    · rw [same]
      exact refl sys
    · cases deeper
      exact lost _ index _ _ ih loses

end Teardown

end Sys

end Libbgp
