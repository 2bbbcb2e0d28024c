/-
What is known about a session in each of its states.
-/

import Libbgp.Construction.Message
import Libbgp.Proof.Runs

namespace Libbgp

open Library List

namespace Sys

variable {code : MessageCode} {start sys before after : Sys} {index : Nat}
  {moment : Moment} {other : Nat} {rest : Allocator} {sends : List Err} {fsm : Fsm} {passive : Bool}
  {keepalive : Moment} {opening : List Moment} {msg : OpenMsg} {calls : Sys → Step → Prop}
  {writes : Ribs → Ribs → Prop} {members : List Member}

theorem attempt_subset {trace : List Moment} (member : moment ∈ attempt index trace) : moment ∈ trace := by
  induction trace with
  | nil => exact member
  | cons first rest ih =>
    rw [attempt] at member
    split at member
    · split at member
      · cases member
      · exact mem_cons.mpr ((mem_cons.mp member).imp_right ih)
    · exact mem_cons.mpr ((mem_cons.mp member).imp_right ih)

/-- An observation was made in the current attempt of a session. -/
def Attempted (sys : Sys) (index : Nat) (obs : Obs) : Prop := ∃ moment ∈ attempt index sys.trace, moment.obs = obs

/-- The OPEN of the peer passed the checks and was answered. -/
structure Accepted (sys : Sys) (index : Nat) (msg : OpenMsg) : Prop where
  heard : sys.Attempted index (.received index (.opening msg))
  checked : (sys.fsm index).openError msg = none
  asn : (sys.fsm index).peerAsn = msg.get4bAsn
  identifier : (sys.fsm index).peerBgpId = msg.bgpId
  hold : (sys.fsm index).negotiatedHoldTime = negotiateHoldTime (sys.fsm index).params.config.holdTime msg.holdTime
  sentOpen : sys.Attempted index (.sent index (.opening (sys.fsm index).params.openMsg))
  sentKeepalive : sys.Attempted index (.sent index .keepalive)
  localSend : (sys.fsm index).localKeepaliveSendPending = false
  passiveOpen : (sys.fsm index).passiveOpenSendPending = false

/-- A KEEPALIVE of the peer arrived in OPEN_CONFIRM. -/
def HeardKeepalive (sys : Sys) (index : Nat) : Prop :=
  ∃ moment ∈ attempt index sys.trace, moment.obs = .received index .keepalive ∧ (moment.fsm index).state = .openConfirm

/-- What holds for a session between calls. -/
structure Settled (index : Nat) (sys : Sys) : Prop where
  blank : (sys.fsm index).state ≠ .openConfirm → (sys.fsm index).state ≠ .established → (sys.fsm index).Blank
  opened : (sys.fsm index).state = .openSent →
    sys.Attempted index (.sent index (.opening (sys.fsm index).params.openMsg))
  accepted : (sys.fsm index).state = .openConfirm ∨ (sys.fsm index).state = .established → ∃ msg, sys.Accepted index msg
  confirmed : (sys.fsm index).state = .established → sys.HeardKeepalive index

def Settles (index : Nat) (before after : Sys) : Prop := Settled index before → Settled index after

/-- A session that knows nothing about its peer and has not opened. -/
theorem settled_blank (blank : (sys.fsm index).Blank)
    (early : (sys.fsm index).state = .idle ∨ (sys.fsm index).state = .connect ∨ (sys.fsm index).state = .active) :
    Settled index sys := by
  refine ⟨fun _ _ => blank, fun sent => ?_, fun up => ?_, fun live => ?_⟩ <;> rcases early with now | now | now <;>
    simp_all

theorem openError_congr {first second : Fsm} (params : second.params = first.params) (msg : OpenMsg) :
    second.openError msg = first.openError msg := by
  simp only [Fsm.openError, params]

section Kept

variable (same : (before.fsm index).SameSession (after.fsm index))
  (seen : ∀ moment ∈ attempt index before.trace, moment ∈ attempt index after.trace)

include same in
theorem blank_kept (blank : (before.fsm index).Blank) : (after.fsm index).Blank := by
  rw [same]
  exact ⟨blank.asn, blank.identifier, blank.hold, blank.ipv4, blank.ipv6, blank.mpbgp, blank.localSend,
    blank.localKeepalive, blank.passiveOpen, blank.passiveKeepalive⟩

include seen in
theorem Attempted.kept {obs : Obs} (attempted : before.Attempted index obs) : after.Attempted index obs :=
  let ⟨moment, member, observed⟩ := attempted
  ⟨moment, seen moment member, observed⟩

include same seen

theorem Accepted.kept {msg : OpenMsg} (accepted : before.Accepted index msg) : after.Accepted index msg := by
  have params : (after.fsm index).params = (before.fsm index).params := by rw [same]
  refine ⟨accepted.heard.kept seen, ?_, ?_, ?_, ?_, ?_, accepted.sentKeepalive.kept seen, ?_, ?_⟩
  · rw [openError_congr params]
    exact accepted.checked
  · rw [same]
    exact accepted.asn
  · rw [same]
    exact accepted.identifier
  · rw [same]
    exact accepted.hold
  · rw [params]
    exact accepted.sentOpen.kept seen
  · rw [same]
    exact accepted.localSend
  · rw [same]
    exact accepted.passiveOpen

/-- Nothing changes for a session that is only looked at. -/
theorem Settled.kept (settled : Settled index before) : Settled index after := by
  have state : (after.fsm index).state = (before.fsm index).state := by rw [same]
  have params : (after.fsm index).params = (before.fsm index).params := by rw [same]
  refine ⟨fun unconfirmed down => ?_, fun sent => ?_, fun up => ?_, fun live => ?_⟩
  · rw [state] at unconfirmed down
    exact blank_kept same (settled.blank unconfirmed down)
  · rw [state] at sent
    rw [params]
    exact (settled.opened sent).kept seen
  · rw [state] at up
    obtain ⟨msg, accepted⟩ := settled.accepted up
    exact ⟨msg, accepted.kept same seen⟩
  · rw [state] at live
    obtain ⟨moment, member, heard⟩ := settled.confirmed live
    exact ⟨moment, seen moment member, heard⟩

end Kept

theorem Spares.settles (spares : Spares index before after) : Settles index before after := by
  refine Settled.kept ?_ fun _ => spares.attempt_mem
  rw [spares.fsm]
  exact .refl _

theorem Quiet.settles (quiet : Quiet before after) : Settles index before after := by
  refine Settled.kept (quiet.same index) fun moment member => ?_
  cases quiet with
  | seen obs plain => exact Spares.attempt_mem (Quiet.spares (.seen before obs plain) rfl) member
  | heard other packet present =>
    exact Spares.attempt_mem (Quiet.spares (.heard before other packet present) rfl) member
  | _ => exact member

theorem settles_close (sys : Sys) (other : Nat) : Settles index sys (sys.snapshotTeardown other) := by
  intro settled
  by_cases here : index = other
  · subst here
    refine settled_blank ?_ (.inl ?_) <;> simp only [snapshotTeardown, observe_fsm, modify_fsm_self]
    · exact Fsm.snapshotTeardown_blank _
    · exact Fsm.snapshotTeardown_state _
  · exact (spares_close sys here).settles settled

/-- One session changes, and another one does not notice. -/
theorem spares_moved (different : index ≠ other) (fsm : Fsm) (rest : Allocator) (sends : List Err)
    {news : List Moment} (kept : ∀ moment ∈ news, moment.obs ≠ .closed index) :
    Spares index sys (sys.moved other fsm rest sends news) :=
  ⟨Function.update_of_ne different .., news, rfl, kept⟩

theorem spares_answer (sys : Sys) (rest : Allocator) (sends : List Err) {obs : Obs} (kept : obs ≠ .closed index) :
    Spares index sys (observe { sys with alloc := rest, sends := sends } obs) := by
  have moved : Spares index sys { sys with alloc := rest, sends := sends } := ⟨rfl, [], rfl, nofun⟩
  exact moved.trans (spares_observe _ kept)

theorem attempt_moved {fsm : Fsm} {rest : Allocator} {sends : List Err} {news : List Moment}
    (kept : ∀ moment ∈ news, moment.obs ≠ .closed index) :
    attempt index (sys.moved index fsm rest sends news).trace = news ++ attempt index sys.trace := attempt_append kept

/-- The session after a successful start. -/
theorem settled_opened (sent : moment.obs = .sent index (.opening (sys.fsm index).params.openMsg)) :
    Settled index (sys.moved index ((sys.fsm index).setState .openSent).clearPeer rest sends [moment]) := by
  have kept : ∀ other ∈ [moment], other.obs ≠ .closed index :=
    forall_mem_singleton.mpr (by rw [sent]; exact nofun)
  refine ⟨fun _ _ => ?_, fun _ => ⟨moment, ?_, ?_⟩, fun up => ?_, fun live => ?_⟩
  · rw [moved_fsm]
    exact Fsm.clearPeer_blank _
  · rw [attempt_moved kept]
    exact mem_append_left _ mem_cons_self
  · rw [moved_fsm, sent, Fsm.clearPeer_params, Fsm.setState_params]
  · simp at up
  · simp at live

/-- The messages that answer an OPEN. -/
def Answers (fsm : Fsm) (index : Nat) (passive : Bool) (opening : List Moment) : Prop :=
  if passive then ∃ moment, opening = [moment] ∧ (moment.fsm index).state = .openConfirm ∧
    moment.obs = .sent index (.opening fsm.params.openMsg) else opening = []

theorem answered_kept (confirming : keepalive.obs = .sent other .keepalive)
    (answered : Answers fsm other passive opening) : ∀ moment ∈ keepalive :: opening, moment.obs ≠ .closed index := by
  rw [forall_mem_cons, confirming]
  refine ⟨by simp, ?_⟩
  cases passive with
  | true =>
    obtain ⟨moment, rfl, -, sent⟩ := answered
    exact forall_mem_singleton.mpr (by rw [sent]; exact nofun)
  | false =>
    rw [show opening = [] from answered]
    intro _ impossible
    cases impossible

theorem confirmed_fields (fsm : Fsm) (msg : OpenMsg) (passive : Bool) :
    (fsm.confirmed msg passive).state = .openConfirm ∧ (fsm.confirmed msg passive).params = fsm.params ∧
    (fsm.confirmed msg passive).peerAsn = msg.get4bAsn ∧ (fsm.confirmed msg passive).peerBgpId = msg.bgpId ∧
    (fsm.confirmed msg passive).negotiatedHoldTime = negotiateHoldTime fsm.params.config.holdTime msg.holdTime := by
  simp only [Fsm.confirmed, Fsm.acceptOpen]
  rw [Fsm.setState_eq]
  exact ⟨rfl, rfl, rfl, rfl, rfl⟩

/-- The session after an accepted OPEN that was answered. -/
theorem settled_confirmed (settled : Settled index sys)
    (prior : if passive then (sys.fsm index).statePreOpen = true else (sys.fsm index).state = .openSent)
    (checked : (sys.fsm index).openError msg = none) (heard : sys.Attempted index (.received index (.opening msg)))
    (confirming : keepalive.obs = .sent index .keepalive) (answered : Answers (sys.fsm index) index passive opening) :
    Settled index (sys.moved index ((sys.fsm index).confirmed msg passive) rest sends (keepalive :: opening)) := by
  obtain ⟨state, params, asn, identifier, hold⟩ := confirmed_fields (sys.fsm index) msg passive
  have fsm : (sys.moved index ((sys.fsm index).confirmed msg passive) rest sends (keepalive :: opening)).fsm index =
      (sys.fsm index).confirmed msg passive := moved_fsm ..
  have now := @attempt_moved sys index ((sys.fsm index).confirmed msg passive) rest sends _
    (answered_kept confirming answered)
  have seen : ∀ moment ∈ attempt index sys.trace, moment ∈
      attempt index (sys.moved index ((sys.fsm index).confirmed msg passive) rest sends
        (keepalive :: opening)).trace := by
    intro moment member
    rw [now]
    exact mem_append_right _ member
  have sentOpen : Attempted
    (sys.moved index ((sys.fsm index).confirmed msg passive) rest sends (keepalive :: opening)) index
      (.sent index (.opening (sys.fsm index).params.openMsg)) := by
    cases passive with
    | true =>
      obtain ⟨moment, rfl, -, sent⟩ := answered
      exact ⟨moment, by rw [now]; simp, sent⟩
    | false => exact (settled.opened prior).kept seen
  have accepted : Accepted
    (sys.moved index ((sys.fsm index).confirmed msg passive) rest sends (keepalive :: opening)) index
      msg := by
    refine ⟨heard.kept seen, ?_, ?_, ?_, ?_, ?_, ⟨keepalive, ?_, confirming⟩, ?_, ?_⟩
    · rw [fsm, openError_congr params]
      exact checked
    · rw [fsm, asn]
    · rw [fsm, identifier]
    · rw [fsm, hold, params]
    · rw [fsm, params]
      exact sentOpen
    · rw [now]
      simp
    · rw [fsm]
      rfl
    · rw [fsm]
      rfl
  refine ⟨fun unconfirmed _ => ?_, fun sent => ?_, fun _ => ⟨msg, accepted⟩, fun live => ?_⟩
  · exact absurd (by rw [fsm, state]) unconfirmed
  · rw [fsm, state] at sent
    cases sent
  · rw [fsm, state] at live
    cases live

/-- Each step of an opening settles its session. -/
theorem Opening.settles (taken : Opening start before after) : Settles index before after := by
  intro settled
  cases taken with
  | quiet taken => exact taken.settles settled
  | entered _ other state early pre =>
    by_cases here : index = other
    · subst here
      refine settled_blank ?_ ?_ <;> rw [modify_fsm_self]
      · exact Fsm.clearPeer_blank _
      · rcases pre with rfl | rfl <;> simp
    · exact (spares_modify before here _).settles settled
  | opened _ other rest sends moment early spent sent now =>
    by_cases here : index = other
    · subst here
      exact settled_opened sent
    · refine (spares_moved here _ rest sends (forall_mem_singleton.mpr ?_)).settles settled
      rw [sent]
      intro impossible
      cases impossible
  | unopened _ other fsm rest sends moment early spent params state blank failed =>
    by_cases here : index = other
    · subst here
      refine settled_blank ?_ ?_ <;> rw [moved_fsm]
      · exact blank
      · rw [state]
        simpa [Fsm.statePreOpen, or_assoc] using early
    · refine (spares_moved here _ rest sends (forall_mem_singleton.mpr ?_)).settles settled
      rw [failed]
      intro impossible
      cases impossible
  | closed _ other down => exact settles_close before other settled
  | dropped _ other fsm rest sends last news down spent params idle blank ended plain =>
    by_cases here : index = other
    · subst here
      refine settled_blank ?_ (.inl ?_) <;> rw [moved_fsm]
      · exact blank
      · exact idle
    · refine (spares_moved here _ rest sends ?_).settles settled
      rintro moment (_ | ⟨_, later⟩) closed
      · rw [ended] at closed
        exact here (Obs.closed.inj closed).symm
      · rcases plain moment later with plain | ⟨msg, sent⟩
        · rw [closed] at plain
          exact plain
        · rw [sent] at closed
          cases closed
  | confirmed earlier _ other msg passive rest sends keepalive opening prior checked spent begun uncontested heard
      confirming answered =>
      by_cases here : index = other
      · subst here
        obtain ⟨moment, member, received, -⟩ := heard
        exact settled_confirmed settled prior checked ⟨moment, member, received⟩ confirming answered
      · exact (spares_moved here _ rest sends (answered_kept confirming answered)).settles settled
  | pending _ other change confirming waiting same =>
    by_cases here : index = other
    · subst here
      obtain ⟨msg, accepted⟩ := settled.accepted (.inl confirming)
      rw [accepted.localSend, accepted.passiveOpen] at waiting
      simp at waiting
    · exact (spares_modify before here _).settles settled

/-- A session that comes up has heard from its peer. -/
theorem establish_settles {walked confirmed : Sys} (rises : Rises other before walked confirmed) :
    Settles index confirmed (confirmed.modify other Fsm.establish) := by
  intro settled
  by_cases here : index = other
  · subst here
    obtain ⟨msg, accepted⟩ := settled.accepted (.inl rises.confirming)
    have fields : ((confirmed.modify index Fsm.establish).fsm index) = { confirmed.fsm index with
        state := .established
        stateChanges := ((confirmed.fsm index).setState .established).stateChanges
        sessionGeneration := (confirmed.fsm index).sessionGeneration + 1
        localKeepaliveSendPending := false
        localKeepalivePending := false
        passiveOpenSendPending := false
        passiveKeepalivePending := false } := by
      rw [modify_fsm_self, Fsm.establish, Fsm.setState_eq]
    have params : ((confirmed.modify index Fsm.establish).fsm index).params =
      (confirmed.fsm index).params := by rw [fields]
    refine ⟨fun _ down => ?_, fun sent => ?_,
      fun _ => ⟨msg, accepted.heard, ?_, ?_, ?_, ?_, ?_, accepted.sentKeepalive, ?_, ?_⟩,
      fun _ => rises.heard⟩
    · exact absurd (by rw [fields]) down
    · rw [fields] at sent
      cases sent
    · rw [openError_congr params]
      exact accepted.checked
    · rw [fields]
      exact accepted.asn
    · rw [fields]
      exact accepted.identifier
    · rw [fields]
      exact accepted.hold
    · rw [params]
      exact accepted.sentOpen
    · rw [fields]
    · rw [fields]
  · exact (spares_modify confirmed here _).settles settled

/-- Every step of a call leaves the session settled. -/
theorem settles_lasts (code : MessageCode) (start : Sys) (index : Nat) : Lasts code start (Settles index) where
  refl _ settled := settled
  trans left right settled := right (left settled)
  alloc sys rest spent := Quiet.settles (.alloc sys rest spent)
  sends sys rest := Quiet.settles (.sends sys rest)
  observe sys obs routine := Spares.settles (spares_observe sys fun closed => by rw [closed] at routine; exact routine)
  discard sys af rib peer rest _ _ _ := Spares.settles ⟨rfl, [], rfl, nofun⟩
  close sys other := settles_close sys other
  drain sys other := Quiet.settles (.touched sys other (fun fsm => { fsm with stateChanges := [] }) rfl)
  notified sys other _ _ := Spares.settles (spares_observe sys (by simp))
  ended sys other := Spares.settles (spares_observe sys (by simp))
  quiet := Quiet.settles
  undone := by
    rintro before _ peer ⟨state, -, -, rfl⟩
    exact Spares.settles ⟨rfl, [], rfl, nofun⟩
  applied sys _ _ _ _ _ _ _ := Spares.settles ⟨rfl, [], rfl, nofun⟩
  opening := Opening.settles
  establish := establish_settles
  advertising := by
    intro other before after taken
    cases taken with
    | quiet taken => exact taken.settles
    | sent af entry update wire middle rest sends =>
      exact Spares.settles (spares_answer before rest sends nofun)
  up sys other := Spares.settles (spares_observe sys (by simp))

theorem init_settled (members : List Member) (index : Nat) : Settled index (init members) := by
  obtain ⟨params, fresh⟩ := (init_fresh members).fsm index
  refine settled_blank ?_ (.inl ?_) <;> rw [fresh]
  · exact ⟨rfl, rfl, rfl, rfl, rfl, rfl, rfl, rfl, rfl, rfl⟩
  · rfl

section Reached

variable {calls : Sys → Step → Prop} {writes : Ribs → Ribs → Prop} {members : List Member}
  (reached : Reach code calls writes (init members) sys)

include reached

theorem Reach.settled (index : Nat) : Settled index sys := by
  have aside : ∀ (sys : Sys) ribs alloc sends,
      Settles index sys { sys with ribs := ribs, alloc := alloc, sends := sends } :=
    fun sys ribs alloc sends => Spares.settles ⟨rfl, [], rfl, nofun⟩
  refine (reached.keeps (init_sound members) (init_settled members index) ?_ ?_).2
  · exact fun sys step sound settled _ =>
      (settles_lasts code _ index).carries.step step sound (aside sys sys.ribs _ _) settled
  · exact fun sys ribs settled _ => aside sys ribs sys.alloc sys.sends settled

end Reached

/-- Packets come in for the sessions of the system only. -/
def Addressed (sys : Sys) : Prop :=
  ∀ moment ∈ sys.trace, ∀ index packet, moment.obs = .received index packet → index < sys.count

theorem Addressed.news (addressed : before.Addressed) {news : List Moment} (count : after.count = before.count)
    (trace : after.trace = news ++ before.trace)
    (fitting : ∀ moment ∈ news, ∀ index packet, moment.obs = .received index packet → index < before.count) :
    after.Addressed := by
  intro moment member index packet received
  rw [trace] at member
  rw [count]
  rcases mem_append.mp member with new | old
  · exact fitting moment new index packet received
  · exact addressed moment old index packet received

theorem Addressed.observe (addressed : sys.Addressed) {obs : Obs}
    (silent : ∀ index packet, obs ≠ .received index packet) : (sys.observe obs).Addressed :=
  @Addressed.news sys (sys.observe obs) addressed [_] rfl rfl
    (forall_mem_singleton.mpr fun index packet received => absurd received (silent index packet))

theorem Addressed.prepared (addressed : before.Addressed) (count : after.count = before.count)
    (prepared : ∃ news, after.trace = news ++ before.trace ∧ ∀ moment ∈ news, Preparing before.count moment.obs) :
    after.Addressed := by
  obtain ⟨news, trace, preparing⟩ := prepared
  refine addressed.news count trace fun moment member index packet received => ?_
  have fits := preparing moment member
  rw [received] at fits
  exact fits

/-- Calls keep every received packet addressed to a session. -/
theorem addressed_lasts (code : MessageCode) (start : Sys) :
    Lasts code start fun before after => before.Addressed → after.Addressed where
  refl _ addressed := addressed
  trans left right addressed := right (left addressed)
  alloc _ _ _ addressed := addressed
  sends _ _ addressed := addressed
  observe _ obs routine addressed := addressed.observe fun _ _ received => by rw [received] at routine; exact routine
  discard _ _ _ _ _ _ _ _ addressed := addressed
  close sys index addressed := @Addressed.observe (sys.modify index Fsm.snapshotTeardown) addressed _ (by simp)
  drain _ _ addressed := addressed
  notified _ _ _ _ addressed := addressed.observe (by simp)
  ended _ _ addressed := addressed.observe (by simp)
  quiet taken addressed := addressed.prepared taken.count taken.preparing
  undone := by
    rintro before _ peer ⟨state, -, -, rfl⟩ addressed
    exact addressed
  applied _ _ _ _ _ _ _ _ addressed := addressed
  opening taken addressed := addressed.prepared taken.setup.count taken.preparing
  establish _ addressed := addressed
  advertising := by
    intro index before after taken addressed
    cases taken with
    | quiet taken => exact addressed.prepared taken.count taken.preparing
    | sent af entry update wire middle rest sends =>
      exact @Addressed.observe { before with alloc := rest, sends := sends } addressed _ (by simp)
  up _ _ addressed := addressed.observe (by simp)

theorem Reach.addressed (reached : Reach code calls writes (init members) sys) : sys.Addressed := by
  refine (reached.keeps (init_sound members) (fun moment member => ?_) ?_ fun _ _ addressed _ => addressed).2
  · rw [(init_fresh members).trace] at member
    cases member
  · exact fun sys step sound addressed _ =>
      (addressed_lasts code _).carries.step step sound (fun addressed => addressed)
      addressed

/-- Only a session of the system gets past OPEN_SENT. -/
theorem Reach.up_present (reached : Reach code calls writes (init members) sys)
    (up : (sys.fsm index).state = .openConfirm ∨ (sys.fsm index).state = .established) : index < sys.count := by
  obtain ⟨msg, accepted⟩ := (reached.settled index).accepted up
  obtain ⟨moment, member, received⟩ := accepted.heard
  exact reached.addressed moment (attempt_subset member) index _ received

/-- What an accepted OPEN has passed. -/
theorem openError_none (checked : fsm.openError msg = none) :
    msg.version = 4 ∧ ¬ (msg.holdTime ≠ 0 ∧ msg.holdTime < 3) ∧
    validPeerBgpId msg.bgpId fsm.params.config.localBgpId = true ∧ fsm.params.config.localOpenValid = true ∧
    (fsm.params.expectedPeerAsn = 0 ∨ msg.get4bAsn = fsm.params.expectedPeerAsn) := by
  unfold Fsm.openError at checked
  split_ifs at checked with version hold identifier valid asn
  refine ⟨not_not.mp version, hold, by simpa using identifier, by simpa using valid, ?_⟩
  by_contra neither
  exact asn ⟨fun zero => neither (.inl zero), fun same => neither (.inr same)⟩

/-- The hold time that both sides agree on. -/
theorem negotiateHoldTime_spec {localHold peerHold : UInt16} (ours : ¬ (localHold ≠ 0 ∧ localHold < 3))
    (theirs : ¬ (peerHold ≠ 0 ∧ peerHold < 3)) :
    (negotiateHoldTime localHold peerHold = 0 ∨ 3 ≤ negotiateHoldTime localHold peerHold) ∧
    (localHold = 0 ∨ peerHold = 0 → negotiateHoldTime localHold peerHold = 0) ∧ (localHold ≠ 0 → peerHold ≠ 0 →
      (negotiateHoldTime localHold peerHold).toNat = min localHold.toNat peerHold.toNat) := by
  simp only [ne_eq, ← UInt16.toNat_inj, UInt16.lt_iff_toNat_lt, UInt16.le_iff_toNat_le] at ours theirs ⊢
  unfold negotiateHoldTime
  split_ifs with none smaller
  all_goals
    simp only [← UInt16.toNat_inj, UInt16.lt_iff_toNat_lt, UInt16.toNat_ofNat] at *
    grind

/-- In every run, between calls: before an OPEN was accepted nothing is known about the peer; afterwards its
OPEN was checked, the hold time is the smaller offer, and our OPEN and KEEPALIVE have been sent; and an
established session has processed a KEEPALIVE of its peer in OPEN_CONFIRM. -/
theorem session_between_calls {writes : Ribs → Ribs → Prop} {members : List Member}
    (reached : Reach code (fun _ _ => True) writes (init members) sys) (index : Nat) :
    ((sys.fsm index).state = .idle ∨ (sys.fsm index).state = .connect ∨ (sys.fsm index).state = .active ∨
      (sys.fsm index).state = .openSent → (sys.fsm index).Blank) ∧
    ((sys.fsm index).state = .openConfirm ∨ (sys.fsm index).state = .established →
      validPeerBgpId (sys.fsm index).peerBgpId (sys.fsm index).params.config.localBgpId = true ∧
      (sys.fsm index).peerBgpId ≠ (sys.fsm index).params.config.localBgpId ∧
      (∃ msg, sys.Attempted index (.received index (.opening msg)) ∧ msg.version = 4 ∧
        ((sys.fsm index).params.expectedPeerAsn = 0 ∨ msg.get4bAsn = (sys.fsm index).params.expectedPeerAsn) ∧
        (sys.fsm index).peerAsn = msg.get4bAsn ∧ (sys.fsm index).peerBgpId = msg.bgpId ∧
        ((sys.fsm index).negotiatedHoldTime = 0 ∨ 3 ≤ (sys.fsm index).negotiatedHoldTime) ∧
        ((sys.fsm index).params.config.holdTime = 0 ∨ msg.holdTime = 0 → (sys.fsm index).negotiatedHoldTime = 0) ∧
        ((sys.fsm index).params.config.holdTime ≠ 0 → msg.holdTime ≠ 0 → (sys.fsm index).negotiatedHoldTime.toNat =
          min (sys.fsm index).params.config.holdTime.toNat msg.holdTime.toNat)) ∧
      sys.Attempted index (.sent index (.opening (sys.fsm index).params.openMsg)) ∧
      sys.Attempted index (.sent index .keepalive)) ∧
    ((sys.fsm index).state = .established → sys.HeardKeepalive index) := by
  have settled := reached.settled index
  refine ⟨fun early => ?_, fun up => ?_, settled.confirmed⟩
  · refine settled.blank ?_ ?_ <;> rcases early with now | now | now | now <;> rw [now] <;> decide
  · obtain ⟨msg, accepted⟩ := settled.accepted up
    obtain ⟨version, hold, identifier, valid, asn⟩ := openError_none accepted.checked
    have ours : ¬ ((sys.fsm index).params.config.holdTime ≠ 0 ∧ (sys.fsm index).params.config.holdTime < 3) := by
      simp only [FsmConfig.localOpenValid, Bool.and_eq_true] at valid
      simpa [or_iff_not_imp_left] using valid.1.2
    have negotiated := negotiateHoldTime_spec ours hold
    rw [← accepted.hold] at negotiated
    rw [← accepted.identifier] at identifier
    have different : (sys.fsm index).peerBgpId ≠ (sys.fsm index).params.config.localBgpId := by
      simp only [validPeerBgpId, Bool.and_eq_true, bne_iff_ne] at identifier
      exact identifier.1.2
    exact ⟨identifier, different, ⟨msg, accepted.heard, version, asn, accepted.asn, accepted.identifier, negotiated⟩,
      accepted.sentOpen, accepted.sentKeepalive⟩

/-- A session that has come up. -/
theorem session_between_calls_sample :
    ((init [.session (sampleParams 65002)]).run libbgpCode (sampleUp 0 65002 0x0a000002)).HeardKeepalive 0 :=
  (@session_between_calls libbgpCode _ (fun _ _ => False) _ (reach_run _ _ fun _ _ _ => trivial) 0).2.2
    (by decide +kernel)

end Sys

end Libbgp
