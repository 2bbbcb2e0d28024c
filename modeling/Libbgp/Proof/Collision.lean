/-
Which sessions are open with the same peer.
-/

import Libbgp.Proof.Bus
import Libbgp.Proof.SessionState

namespace Libbgp

open Library

namespace Sys

variable {code : MessageCode} {start sys before after : Sys} {index : Nat} {peer : RouterId}

/-- A session is open with a peer. -/
def Open (sys : Sys) (index : Nat) (peer : RouterId) : Prop :=
  ((sys.fsm index).state = .openConfirm ∨ (sys.fsm index).state = .established) ∧ (sys.fsm index).peerBgpId = peer

/-- A session waits for the KEEPALIVE of a peer. -/
def Waiting (sys : Sys) (index : Nat) (peer : RouterId) : Prop :=
  (sys.fsm index).state = .openConfirm ∧ (sys.fsm index).peerBgpId = peer

/-- At most one session is open with each peer. -/
def Unique (sys : Sys) : Prop :=
  ∀ first < sys.count, ∀ second < sys.count, ∀ peer, sys.Open first peer → sys.Open second peer → first = second

/-- No session is opened. -/
def Fewer (before after : Sys) : Prop :=
  after.count = before.count ∧ ∀ index peer, after.Open index peer → before.Open index peer

theorem Fewer.unique (fewer : Fewer before after) (unique : before.Unique) : after.Unique := by
  intro first firstPresent second secondPresent peer firstOpen secondOpen
  rw [fewer.1] at firstPresent secondPresent
  exact unique first firstPresent second secondPresent peer (fewer.2 first peer firstOpen)
    (fewer.2 second peer secondOpen)

/-- One callback of a collision: it reports whether an attempt with the peer was found, and leaves it waiting only if
our identifier is the greater one. -/
theorem collisionCb_spec (sys : Sys) (index : Nat) (peer : RouterId)
    (enabled : (sys.fsm index).params.noCollisionDetection = false) :
    ((sys.collisionCb index peer).2.Waiting index peer → (sys.collisionCb index peer).1 = true ∧
      routerIdLe (sys.fsm index).params.config.localBgpId peer = false) ∧
    (∀ other, (sys.collisionCb index peer).2.fsm other = sys.fsm other ∨
      ((sys.collisionCb index peer).2.fsm other).state = .idle) := by
  unfold collisionCb
  dsimp only
  split
  · split
    · have idle : ((((sys.snapshotTeardown index).drain index).2.sendNotification index 6 7).2.dispatch index
          ((sys.snapshotTeardown index).drain index).1).fsm = ((sys.snapshotTeardown index).drain index).2.fsm := by
        rw [dispatch_fsm, sendNotification, send_fsm]
      have here : (((sys.snapshotTeardown index).drain index).2.fsm index).state = .idle := by
        simp [drain, snapshotTeardown]
      refine ⟨fun waiting => ?_, fun other => ?_⟩
      · have confirming : _ = FsmState.openConfirm := waiting.1
        rw [idle, here] at confirming
        cases confirming
      · rw [idle]
        by_cases same : other = index
        · rw [same]
          exact .inr here
        · exact .inl (by simp [drain, snapshotTeardown, same])
    · rename_i greater
      exact ⟨fun _ => ⟨rfl, by simpa using greater⟩, fun _ => .inl rfl⟩
  · rename_i unmet
    refine ⟨fun waiting => absurd ?_ unmet, fun _ => .inl rfl⟩
    simpa [enabled] using And.intro waiting.1 waiting.2

/-- A step of a collision leaves every session as it was or idle, and forgets no report. -/
structure Collides (state after : Bool × Sys) : Prop where
  fsm : ∀ index, after.2.fsm index = state.2.fsm index ∨ (after.2.fsm index).state = .idle
  handled : state.1 = true → after.1 = true

theorem Collides.trans {first second third : Bool × Sys} (left : Collides first second)
    (right : Collides second third) : Collides first third := by
  refine ⟨fun index => ?_, fun reported => right.handled (left.handled reported)⟩
  rcases right.fsm index with same | idle
  · rw [same]
    exact left.fsm index
  · exact .inr idle

/-- An attempt that waits after a collision waited before. -/
theorem Collides.waiting {state after : Bool × Sys} (collides : Collides state after)
    (waiting : after.2.Waiting index peer) : state.2.Waiting index peer := by
  rcases collides.fsm index with same | idle
  · rw [Waiting, same] at waiting
    exact waiting
  · have confirming := waiting.1
    rw [idle] at confirming
    cases confirming

/-- After a collision only a session that won it waits. -/
theorem deliverCollision_spec {ours : RouterId} (state : Bool × Sys) (sub : Subscriber)
    (speaks : ∀ index, sub.target = .session index → (state.2.fsm index).params.noCollisionDetection = false ∧
      (state.2.fsm index).params.config.localBgpId = ours) :
    Collides state (deliverCollision peer state sub) ∧
    ∀ index, sub.target = .session index → (deliverCollision peer state sub).2.Waiting index peer →
      (deliverCollision peer state sub).1 = true ∧ routerIdLe ours peer = false := by
  unfold deliverCollision
  split
  · rename_i index target
    obtain ⟨enabled, own⟩ := speaks index target
    have spec := collisionCb_spec state.2 index peer enabled
    refine ⟨⟨spec.2, fun reported => ?_⟩, fun other same waiting => ?_⟩
    · simp [reported]
    · rw [target] at same
      cases same
      have reported := spec.1 waiting
      rw [own] at reported
      exact ⟨by simp [reported.1], reported.2⟩
  · rename_i number target
    refine ⟨⟨fun _ => .inl rfl, id⟩, fun index same => ?_⟩
    rw [target] at same
    cases same

/-- A collision event reaches its subscribers: what is still waiting afterwards was reported. -/
theorem collision_fold {ours : RouterId} (subs : List Subscriber) (state : Bool × Sys)
    (speaks : ∀ index, (∃ sub ∈ subs, sub.target = .session index) →
      (state.2.fsm index).params.noCollisionDetection = false ∧ (state.2.fsm index).params.config.localBgpId = ours) :
    Collides state (subs.foldl (deliverCollision peer) state) ∧
    ∀ index, (∃ sub ∈ subs, sub.target = .session index) →
      (subs.foldl (deliverCollision peer) state).2.Waiting index peer →
      (subs.foldl (deliverCollision peer) state).1 = true ∧ routerIdLe ours peer = false := by
  induction subs generalizing state with
  | nil => exact ⟨⟨fun _ => .inl rfl, id⟩, fun _ ⟨_, member, _⟩ => nomatch member⟩
  | cons sub rest ih =>
    have setup := opens_setup (@deliverCollision_opens state.2 peer state sub)
    obtain ⟨first, reported⟩ := @deliverCollision_spec peer ours state sub fun index target =>
      speaks index ⟨sub, List.mem_cons_self, target⟩
    obtain ⟨later, lateReported⟩ := ih (deliverCollision peer state sub) fun index ⟨other, member, target⟩ => by
      rw [setup.params]
      exact speaks index ⟨other, List.mem_cons_of_mem _ member, target⟩
    refine ⟨first.trans later, ?_⟩
    rintro index ⟨other, member, target⟩ waiting
    rcases List.mem_cons.mp member with rfl | member
    · have now := reported index target (later.waiting waiting)
      exact ⟨later.handled now.1, now.2⟩
    · exact lateReported index ⟨other, member, target⟩ waiting

/-- With enough memory a collision event reaches all its targets. -/
theorem publishCollision_generous (generous : sys.alloc.Generous) (publisher : Nat) (peer : RouterId) :
    ∃ rest, sys.publishCollision publisher peer =
      (sys.targets publisher (.collision peer)).foldl (deliverCollision peer)
      (false, { sys.observe (.published publisher (.collision peer)) with alloc := rest }) := by
  simp only [publishCollision]
  rcases reserveSnapshot_cases (sys.observe (.published publisher (.collision peer)))
      ((sys.observe (.published publisher (.collision peer))).targets publisher (.collision peer)).length with
    ⟨rest, granted, -⟩ | ⟨rest, -, refused⟩
  · rw [granted]
    exact ⟨rest, rfl⟩
  · exact absurd refused generous.not_refused

/-- An OPEN that is accepted leaves no other attempt with the peer waiting. -/
theorem uncontested_alone {ours : RouterId} (wired : before.Wired) (generous : before.alloc.Generous)
    (speaks : ∀ other < before.count, (before.fsm other).params.noCollisionDetection = false ∧
      (before.fsm other).params.config.localBgpId = ours) (present : index < before.count)
    (uncontested : before.collisionRejectNew index peer = (false, after)) :
    (∀ other, after.fsm other = before.fsm other ∨ (after.fsm other).state = .idle) ∧
    ∀ other < before.count, other ≠ index → ¬ after.Waiting other peer := by
  obtain ⟨enabled, own⟩ := speaks index present
  have reached : ∀ other < before.count, other ≠ index →
      ∃ sub ∈ before.targets (before.fsm index).params.collisionSubId (.collision peer),
        sub.target = .session other := by
    intro other otherPresent different
    have apart := @Wired.different _ wired index other present otherPresent (Ne.symm different) .collision _ rfl
    have ids : (before.fsm other).params.collisionSubId ≠ (before.fsm index).params.collisionSubId := fun same =>
      apart (congrArg some same)
    refine ⟨⟨(before.fsm other).params.collisionSubId, .collision, .session other⟩, List.mem_filter.mpr ⟨?_, ?_⟩, rfl⟩
    · exact wired.listens other otherPresent .collision _ rfl
    · simp [Event.type, ids]
  obtain ⟨rest, published⟩ := publishCollision_generous generous (before.fsm index).params.collisionSubId peer
  have fold := @collision_fold peer ours (before.targets (before.fsm index).params.collisionSubId (.collision peer))
    (false, { before.observe (.published (before.fsm index).params.collisionSubId (.collision peer)) with
      alloc := rest })
    fun other ⟨sub, member, target⟩ => speaks other (wired.own sub (List.mem_filter.mp member).1 other target).1
  rw [← published] at fold
  obtain ⟨collides, reported⟩ := fold
  unfold collisionRejectNew at uncontested
  simp only [enabled, Bool.false_eq_true, if_false] at uncontested
  split at uncontested
  · simp at uncontested
  · rename_i accepted
    have same : (before.publishCollision (before.fsm index).params.collisionSubId peer).2 = after :=
      (Prod.mk.inj uncontested).2
    rw [same] at reported
    refine ⟨fun other => ?_, fun other otherPresent different waiting => ?_⟩
    · rw [← same]
      exact collides.fsm other
    · obtain ⟨handled, greater⟩ := reported other (reached other otherPresent different) waiting
      rw [handled, own, greater] at accepted
      exact accepted rfl

/-- An OPEN names no peer that another session is established with when it arrives. -/
def invited (count : Nat) (moment : Moment) : Bool :=
  match moment.obs with
  | .received index (.opening msg) => (List.range count).all fun other =>
    other == index || (moment.fsm other).state != .established || (moment.fsm other).peerBgpId != msg.bgpId
  | _ => true

/-- All OPENs that arrived were invited. -/
def Unintruded (sys : Sys) : Prop := ∀ moment ∈ sys.trace, invited sys.count moment = true

instance (sys : Sys) : Decidable sys.Unintruded :=
  inferInstanceAs (Decidable (∀ moment ∈ sys.trace, invited sys.count moment = true))

theorem Unintruded.spec (unintruded : sys.Unintruded) {moment : Moment} (member : moment ∈ sys.trace) {msg : OpenMsg}
    (received : moment.obs = .received index (.opening msg)) : ∀ other < sys.count, other ≠ index →
      (moment.fsm other).state = .established → (moment.fsm other).peerBgpId ≠ msg.bgpId := by
  intro other present different live
  have checked := unintruded moment member
  simp only [invited, received, List.all_eq_true] at checked
  simpa [different, live] using checked other (List.mem_range.mpr present)

/-- A step of a call keeps at most one session with each peer. -/
def KeepsUnique (count : Nat) (before after : Sys) : Prop :=
  Grows before after ∧ after.count = before.count ∧
    (before.count = count → after.Unintruded → before.Unique → after.Unique)

theorem Grows.unintruded (grows : Grows before after) (count : after.count = before.count) (kept : after.Unintruded) :
    before.Unintruded :=
  fun moment member => count ▸ kept moment (grows.mem member)

theorem Fewer.keeps {count : Nat} (fewer : Fewer before after) (grows : Grows before after) :
    KeepsUnique count before after :=
  ⟨grows, fewer.1, fun _ _ => fewer.unique⟩

section Fewer

variable {other : Nat} {fsm : Fsm}

theorem fewer_same (count : after.count = before.count)
    (same : ∀ index, (before.fsm index).SameSession (after.fsm index)) : Fewer before after := by
  refine ⟨count, fun index peer up => ?_⟩
  rw [Open, same index] at up
  exact up

/-- A change of one session that does not open it. -/
theorem fewer_moved (count : after.count = before.count) (moved : after.fsm = Function.update before.fsm other fsm)
    (kept : fsm.state = .openConfirm ∨ fsm.state = .established → before.Open other fsm.peerBgpId) :
    Fewer before after := by
  refine ⟨count, fun index peer ⟨up, own⟩ => ?_⟩
  rw [moved] at up own
  by_cases here : index = other
  · subst here
    rw [Function.update_self] at up own
    exact own ▸ kept up
  · rw [Function.update_of_ne here] at up own
    exact ⟨up, own⟩

theorem Quiet.fewer (quiet : Quiet before after) : Fewer before after := fewer_same quiet.count quiet.same

theorem fewer_close (sys : Sys) (other : Nat) : Fewer sys (sys.snapshotTeardown other) :=
  fewer_moved rfl rfl (by simp)

theorem fewer_establish (confirming : (sys.fsm other).state = .openConfirm) :
    Fewer sys (sys.modify other Fsm.establish) := by
  refine fewer_moved rfl rfl fun _ => ⟨.inl confirming, ?_⟩
  rw [Fsm.establish, Fsm.setState_eq]

/-- A session may be opened with a peer that no other session is open with. -/
theorem Unique.moved (unique : before.Unique) (count : after.count = before.count)
    (moved : after.fsm = Function.update before.fsm other fsm)
    (alone : other < before.count → ∀ index < before.count, index ≠ other → ¬ before.Open index fsm.peerBgpId) :
    after.Unique := by
  have here : ∀ {peer}, after.Open other peer → fsm.peerBgpId = peer := by
    rintro peer ⟨-, own⟩
    rwa [moved, Function.update_self] at own
  have elsewhere : ∀ {index peer}, index ≠ other → after.Open index peer → before.Open index peer := by
    intro index peer different up
    rwa [Open, moved, Function.update_of_ne different] at up
  intro first firstPresent second secondPresent peer firstOpen secondOpen
  rw [count] at firstPresent secondPresent
  by_cases firstHere : first = other <;> by_cases secondHere : second = other
  · exact firstHere.trans secondHere.symm
  · subst firstHere
    exact absurd (elsewhere secondHere secondOpen) (here firstOpen ▸ alone firstPresent second secondPresent secondHere)
  · subst secondHere
    exact absurd (elsewhere firstHere firstOpen) (here secondOpen ▸ alone secondPresent first firstPresent firstHere)
  · exact unique first firstPresent second secondPresent peer (elsewhere firstHere firstOpen)
      (elsewhere secondHere secondOpen)

end Fewer

section Speaker

variable {ours : RouterId} (wired : start.Wired) (generous : start.alloc.Generous)
  (speaks : ∀ other < start.count, (start.fsm other).params.noCollisionDetection = false ∧
    (start.fsm other).params.config.localBgpId = ours)

include wired generous speaks

/-- An accepted OPEN comes from a peer that no other session is open with. -/
theorem confirmed_alone {earlier : Sys} {msg : OpenMsg} (begun : Begun start earlier) (present : index < start.count)
    (uncontested : earlier.collisionRejectNew index msg.bgpId = (false, before))
    (unintruded : ∀ other < start.count, other ≠ index → (start.fsm other).state = .established →
      (start.fsm other).peerBgpId ≠ msg.bgpId) :
    ∀ other < start.count, other ≠ index → ¬ before.Open other msg.bgpId := by
  have setup : Setup start earlier := ⟨begun.count, begun.subs, fun _ => by rw [begun.fsm]⟩
  have alone := @uncontested_alone earlier before index msg.bgpId ours (wired.setup setup) (generous.spent begun.alloc)
    (by rw [begun.count, begun.fsm]; exact speaks) (by rw [begun.count]; exact present) uncontested
  rw [begun.count, begun.fsm] at alone
  rintro other otherPresent different ⟨confirming | live, own⟩
  · exact alone.2 other otherPresent different ⟨confirming, own⟩
  · rcases alone.1 other with same | idle
    · rw [same] at live own
      exact unintruded other otherPresent different live own
    · rw [idle] at live
      cases live

/-- What prepares a session opens at most one with each peer. -/
theorem Opening.keepsUnique (taken : Opening start before after) : KeepsUnique start.count before after := by
  obtain ⟨news, trace, -⟩ := taken.preparing
  have grows : Grows before after := ⟨news, trace⟩
  cases taken with
  | quiet taken => exact taken.fewer.keeps grows
  | entered _ other state early pre =>
    refine Fewer.keeps (fewer_moved rfl rfl ?_) grows
    rcases pre with rfl | rfl <;> simp
  | opened _ other rest sends moment early spent sent now => exact Fewer.keeps (fewer_moved rfl rfl (by simp)) grows
  | unopened _ other fsm rest sends moment early spent params state blank failed =>
    refine Fewer.keeps (fewer_moved rfl rfl fun up => ?_) grows
    rw [state] at up
    exact absurd early (by rcases up with now | now <;> simp [Fsm.statePreOpen, now])
  | closed _ other down => exact (fewer_close before other).keeps grows
  | dropped _ other fsm rest sends last news down spent params idle blank ended plain =>
    exact Fewer.keeps (fewer_moved rfl rfl (by simp [idle])) grows
  | pending _ other change confirming waiting same =>
    refine Fewer.keeps (fewer_moved rfl rfl fun _ => ⟨.inl confirming, ?_⟩) grows
    rw [same]
  | confirmed earlier _ other msg passive rest sends keepalive opening prior checked spent begun uncontested heard
      confirming answered =>
      refine ⟨grows, rfl, fun count unintruded unique =>
        unique.moved rfl rfl fun present index indexPresent different => ?_⟩
      obtain ⟨moment, member, received, snapshot⟩ := heard
      have invited := (grows.unintruded rfl unintruded).spec (attempt_subset member) received
      rw [snapshot, count] at invited
      rw [count] at present indexPresent
      rw [(confirmed_fields _ msg passive).2.2.2.1]
      exact confirmed_alone wired generous speaks begun present uncontested invited index indexPresent different

/-- Every step of a call keeps the sessions unique. -/
theorem keepsUnique_lasts (code : MessageCode) : Lasts code start (KeepsUnique start.count) where
  refl sys := ⟨grows_closes.refl sys, rfl, fun _ _ unique => unique⟩
  trans left right := ⟨left.1.trans right.1, right.2.1.trans left.2.1, fun count unintruded unique =>
    right.2.2 (left.2.1.trans count) unintruded (left.2.2 count (right.1.unintruded right.2.1 unintruded) unique)⟩
  alloc _ _ _ := Fewer.keeps ⟨rfl, fun _ _ up => up⟩ ⟨[], rfl⟩
  sends _ _ := Fewer.keeps ⟨rfl, fun _ _ up => up⟩ ⟨[], rfl⟩
  observe _ _ _ := Fewer.keeps ⟨rfl, fun _ _ up => up⟩ ⟨[_], rfl⟩
  discard _ _ _ _ _ _ _ _ := Fewer.keeps ⟨rfl, fun _ _ up => up⟩ ⟨[], rfl⟩
  close sys other := (fewer_close sys other).keeps ⟨[_], rfl⟩
  drain sys other := (Quiet.fewer (.touched sys other (fun fsm => { fsm with stateChanges := [] }) rfl)).keeps ⟨[], rfl⟩
  notified _ _ _ _ := Fewer.keeps ⟨rfl, fun _ _ up => up⟩ ⟨[_], rfl⟩
  ended _ _ := Fewer.keeps ⟨rfl, fun _ _ up => up⟩ ⟨[_], rfl⟩
  quiet taken := taken.fewer.keeps taken.news
  undone := by
    rintro before _ peer ⟨state, -, -, rfl⟩
    exact Fewer.keeps ⟨rfl, fun _ _ up => up⟩ ⟨[], rfl⟩
  applied _ _ _ _ _ _ _ _ := Fewer.keeps ⟨rfl, fun _ _ up => up⟩ ⟨[], rfl⟩
  opening := Opening.keepsUnique wired generous speaks
  establish rises := (fewer_establish rises.confirming).keeps ⟨[], rfl⟩
  advertising := by
    intro other before after taken
    cases taken with
    | quiet taken => exact taken.fewer.keeps taken.news
    | sent => exact Fewer.keeps ⟨rfl, fun _ _ up => up⟩ ⟨[_], rfl⟩
  up _ _ := Fewer.keeps ⟨rfl, fun _ _ up => up⟩ ⟨[_], rfl⟩

end Speaker

/-- At most one session of a speaker is in OPEN_CONFIRM or ESTABLISHED with a peer, in every run in which no OPEN
comes from a peer that another session is established with. -/
theorem one_session_per_peer {ours : RouterId} {writes : Ribs → Ribs → Prop} {members : List Member}
    (speaker : ∀ params, .session params ∈ members →
      params.noCollisionDetection = false ∧ params.config.localBgpId = ours)
    (reached : Reach code (fun _ step => step.alloc.Generous) writes (init members) sys) (unintruded : sys.Unintruded) :
    sys.Unique := by
  have speaks : ∀ index < (init members).count, ((init members).fsm index).params.noCollisionDetection = false ∧
      ((init members).fsm index).params.config.localBgpId = ours :=
    init_params (fun _ _ _ _ same => same) members speaker
  have begins : (init members).Unique := by
    intro first _ second _ peer firstOpen _
    obtain ⟨params, fresh⟩ := (init_fresh members).fsm first
    rw [Open, fresh] at firstOpen
    simp [Fsm.init] at firstOpen
  have called : ∀ sys step, sys.Sound → Setup (init members) sys ∧ (sys.Unintruded → sys.Unique) → step.alloc.Generous →
      Setup (init members) (sys.step code step) ∧ ((sys.step code step).Unintruded → (sys.step code step).Unique) := by
    intro sys step sound ⟨setup, unique⟩ generous
    have answered : Setup (init members) (sys.answer step) := setup.trans ⟨rfl, rfl, fun _ => rfl⟩
    have kept := (keepsUnique_lasts ((init_wired members).setup answered) generous (by
      intro other present
      rw [answered.params]
      exact speaks other (answered.count ▸ present)) code).carries.step step sound
        ⟨⟨[], rfl⟩, rfl, fun _ _ unique => unique⟩
    refine ⟨setup.trans ((setup_lasts code _).carries.step step sound ⟨rfl, rfl, fun _ => rfl⟩), fun unintruded => ?_⟩
    exact kept.2.2 rfl unintruded (unique (kept.1.unintruded kept.2.1 unintruded))
  exact (reached.keeps (init_sound members) ⟨Setup.refl _, fun _ => begins⟩ called fun sys ribs kept _ =>
    ⟨kept.1.trans ⟨rfl, rfl, fun _ => rfl⟩, kept.2⟩).2.2 unintruded

/-- A second attempt with a peer takes the place of the first, whose OPEN came earlier. -/
theorem one_session_per_peer_sample :
    ((init [.session (sampleParams 65002), .session (sampleParams 65002)]).run libbgpCode
      [calmStep 0 .start, calmStep 1 .start, calmStep 0 (.packet (.opening (sampleOpen 65002 0x0a000002))),
        calmStep 1 (.packet (.opening (sampleOpen 65002 0x0a000002)))]).Unique := by
  refine @one_session_per_peer libbgpCode _ 0x0a000001 (fun _ _ => False) _ ?_ (reach_run _ _ ?_) (by decide +kernel)
  · rintro params (_ | ⟨_, _ | ⟨_, impossible⟩⟩)
    · exact ⟨rfl, rfl⟩
    · exact ⟨rfl, rfl⟩
    · cases impossible
  · simp [calmStep, Allocator.generous_nil]

/-- A session is established with a peer, and another one accepts an OPEN of this peer. -/
theorem second_session_accepted :
    ¬ ((init [.session (sampleParams 65002), .session (sampleParams 65002)]).run libbgpCode
      (sampleUp 0 65002 0x0a000002 ++ [calmStep 1 .start,
        calmStep 1 (.packet (.opening (sampleOpen 65002 0x0a000002)))])).Unique := by
  intro unique
  have same := unique 0 (by decide +kernel) 1 (by decide +kernel) 0x0a000002
    ⟨.inr (by decide +kernel), by decide +kernel⟩
    ⟨.inl (by decide +kernel), by decide +kernel⟩
  cases same

end Sys

end Libbgp
