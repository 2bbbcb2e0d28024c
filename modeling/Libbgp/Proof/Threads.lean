/-
What one piece of a call does to the session that several threads share.
-/

import Libbgp.Construction.Threads
import Libbgp.Proof.Calls

namespace Libbgp

/-- The attempt that an OPEN handling works for, once it has accepted its OPEN. -/
def Stage.attempt : Stage → Option UInt64
  | .opening generation | .opened generation | .between generation | .confirming generation _
  | .confirmed generation _ | .failed generation => some generation
  | _ => none

/-- The fields that decide about a move to ESTABLISHED are the same. -/
structure SameAttempt (fsm next : Fsm) : Prop where
  state : next.state = fsm.state
  generation : next.sessionGeneration = fsm.sessionGeneration
  passive : next.passiveOpenSendPending = fsm.passiveOpenSendPending
  confirming : next.localKeepaliveSendPending = fsm.localKeepaliveSendPending

theorem SameAttempt.refl (fsm : Fsm) : SameAttempt fsm fsm := ⟨rfl, rfl, rfl, rfl⟩

/-- A new generation of a session that is not opening. -/
structure Falls (fsm next : Fsm) : Prop where
  state : next.state ≠ .openConfirm ∧ next.state ≠ .established
  generation : next.sessionGeneration = fsm.sessionGeneration + 1

/-- The move to ESTABLISHED. -/
structure Establishes (fsm next : Fsm) : Prop where
  confirming : fsm.state = .openConfirm
  state : next.state = .established
  generation : next.sessionGeneration = fsm.sessionGeneration + 1

/-- What a piece of a call can do, by the stage before and the stage after it. The parameter says
that the piece handles a KEEPALIVE. -/
inductive Effect (heard : Prop) (fsm : Fsm) : Stage → Fsm → Stage → Prop where
  | keeps {before after : Stage} {next : Fsm} (same : SameAttempt fsm next) (free : after.attempt = none)
      (left : ∀ generation, before = .between generation → fsm.attempting generation = false) :
      Effect heard fsm before next after
  | falls {before after : Stage} {next : Fsm} (falls : Falls fsm next) (free : after.attempt = none) :
      Effect heard fsm before next after
  | accepts {before : Stage} (msg : OpenMsg) (passive : Bool)
      (early : before = .done ∨ before = .colliding msg passive) :
      Effect heard fsm before (fsm.acceptSection msg passive).1 (fsm.acceptSection msg passive).2
  | opens (generation : UInt64) : Effect heard fsm (.opening generation) fsm (.opened generation)
  | misses (generation : UInt64) : Effect heard fsm (.opening generation) fsm (.failed generation)
  | clears (generation : UInt64) (current : fsm.attempting generation = true) :
      Effect heard fsm (.opened generation) { fsm with passiveOpenSendPending := false } (.between generation)
  | marks (generation : UInt64) (current : fsm.attempting generation = true) :
      Effect heard fsm (.between generation) { fsm with localKeepaliveSendPending := true }
        (.confirming generation true)
  | confirms (generation : UInt64) (passive : Bool) :
      Effect heard fsm (.confirming generation passive) fsm (.confirmed generation passive)
  | fails (generation : UInt64) (passive : Bool) :
      Effect heard fsm (.confirming generation passive) fsm (.failed generation)
  | finishes (generation : UInt64) (passive : Bool) (current : fsm.attempting generation = true) :
      Effect heard fsm (.confirmed generation passive) { fsm with localKeepaliveSendPending := false } .done
  | settles {after : Stage} {next : Fsm} (generation : UInt64) (passive : Bool)
      (current : fsm.attempting generation = true) (rise : Establishes fsm next) (free : after.attempt = none) :
      Effect heard fsm (.confirmed generation passive) next after
  | hears {after : Stage} {next : Fsm} (keepalive : heard) (opened : fsm.passiveOpenSendPending = false)
      (sent : fsm.localKeepaliveSendPending = false) (rise : Establishes fsm next) (free : after.attempt = none) :
      Effect heard fsm .done next after

namespace Fsm

variable {heard : Prop} {fsm : Fsm} {state : FsmState} (verdict : Err) (generation : UInt64)

theorem attempting_iff (fsm : Fsm) (generation : UInt64) :
    fsm.attempting generation = true ↔ fsm.state = .openConfirm ∧ fsm.sessionGeneration = generation := by
  simp [attempting]

theorem markRxCurrent_sameAttempt (fsm : Fsm) : SameAttempt fsm fsm.markRxCurrent := by
  unfold markRxCurrent
  split <;> exact ⟨rfl, rfl, rfl, rfl⟩

theorem setState_generation (fsm : Fsm) (state : FsmState) :
    (fsm.setState state).sessionGeneration = fsm.sessionGeneration := by
  rw [setState_eq]

theorem clearPeer_falls (fsm : Fsm) (low : state ≠ .openConfirm ∧ state ≠ .established) :
    Falls fsm (fsm.setState state).clearPeer := by
  constructor
  · rw [clearPeer_state, setState_state]
    exact low
  · change (fsm.setState state).sessionGeneration + 1 = fsm.sessionGeneration + 1
    rw [setState_generation]

theorem snapshotTeardown_falls (fsm : Fsm) : Falls fsm fsm.snapshotTeardown :=
  clearPeer_falls fsm (by decide)

theorem teardown_effect (before : Stage) : Effect heard fsm before fsm.snapshotTeardown .done :=
  .falls fsm.snapshotTeardown_falls rfl

theorem idle_effect : Effect heard fsm .done fsm .done :=
  .keeps (SameAttempt.refl fsm) rfl (by simp)

theorem rx_effect : Effect heard fsm .done fsm.markRxCurrent .done :=
  .keeps fsm.markRxCurrent_sameAttempt rfl (by simp)

theorem establish_establishes (confirming : fsm.state = .openConfirm) : Establishes fsm fsm.establish where
  confirming := confirming
  state := setState_state fsm .established
  generation := by
    change (fsm.setState .established).sessionGeneration + 1 = fsm.sessionGeneration + 1
    rw [setState_generation]

theorem openSection_effect (msg : OpenMsg) (passive : Bool) :
    Effect heard fsm .done (fsm.openSection msg passive).1 (fsm.openSection msg passive).2 := by
  unfold openSection
  split
  · exact teardown_effect _
  split
  · exact .accepts msg passive (.inl rfl)
  · exact .keeps (SameAttempt.refl fsm) rfl (by simp)

/-- Only a KEEPALIVE with nothing left to send brings a session up in this section. -/
theorem openConfirmSection_effect (confirming : fsm.state = .openConfirm) (packet : Packet)
    (keepalive : packet = .keepalive → heard) :
    Effect heard fsm .done (fsm.openConfirmSection packet).1 (fsm.openConfirmSection packet).2 := by
  cases packet with
  | opening msg =>
    simp only [openConfirmSection]
    split
    · exact idle_effect
    · exact teardown_effect _
  | keepalive =>
    have same := fsm.markRxCurrent_sameAttempt
    have marked : Establishes fsm fsm.markRxCurrent.establish := by
      have rise : Establishes fsm.markRxCurrent _ := establish_establishes (same.state.trans confirming)
      exact ⟨confirming, rise.state, by rw [rise.generation, same.generation]⟩
    simp only [openConfirmSection]
    split
    · exact .keeps ⟨same.state, same.generation, same.passive, same.confirming⟩ rfl (by simp)
    rename_i opened
    split
    · exact .keeps ⟨same.state, same.generation, same.passive, same.confirming⟩ rfl (by simp)
    rename_i sent
    exact .hears (keepalive rfl) (by simpa using opened) (by simpa using sent) marked rfl
  | notification | update update | unknown => exact teardown_effect _

theorem establishedSection_effect (packet : Packet) :
    Effect heard fsm .done (fsm.establishedSection verdict packet).1 (fsm.establishedSection verdict packet).2 := by
  cases packet with
  | opening msg => exact teardown_effect _
  | keepalive => exact rx_effect
  | notification | unknown => exact teardown_effect _
  | update update =>
    simp only [establishedSection]
    split
    · exact teardown_effect _
    split
    · exact rx_effect
    · exact teardown_effect _
    · exact idle_effect

theorem packetSection_effect (packet : Packet) (keepalive : packet = .keepalive → heard) :
    Effect heard fsm .done (fsm.packetSection verdict packet).1 (fsm.packetSection verdict packet).2 := by
  unfold packetSection
  split
  · exact teardown_effect _
  · exact openSection_effect _ true
  · exact openSection_effect _ true
  · exact openSection_effect _ true
  · exact openSection_effect _ false
  · exact teardown_effect _
  · exact openConfirmSection_effect (by assumption) _ keepalive
  · exact establishedSection_effect verdict _
  · exact idle_effect

theorem EarlyState.low (before : EarlyState) : before.val ≠ .openConfirm ∧ before.val ≠ .established := by
  rcases before with ⟨state, rfl | rfl | rfl⟩ <;> decide

theorem startSection_effect : Effect heard fsm .done fsm.startSection.1 fsm.startSection.2 := by
  unfold startSection
  split
  · exact .falls (fsm.clearPeer_falls (by decide)) rfl
  · exact idle_effect

theorem enterSection_effect (low : state ≠ .openConfirm ∧ state ≠ .established) :
    Effect heard fsm .done (fsm.enterSection state).1 (fsm.enterSection state).2 := by
  unfold enterSection
  split
  · exact .falls (fsm.clearPeer_falls low) rfl
  · exact idle_effect

theorem tickSection_effect (now : UInt64) :
    Effect heard fsm .done (fsm.tickSection now).1 (fsm.tickSection now).2 := by
  unfold tickSection
  split
  · exact .keeps ⟨rfl, rfl, rfl, rfl⟩ rfl (by simp)
  dsimp only
  split
  · have torn := { fsm with currentMs := now : Fsm }.snapshotTeardown_falls
    exact .falls ⟨torn.state, torn.generation⟩ rfl
  split <;> exact .keeps ⟨rfl, rfl, rfl, rfl⟩ rfl (by simp)

/-- What the section of a call does to the session. -/
theorem callSection_effect (call : Call) (keepalive : call = .packet .keepalive → heard) :
    Effect heard fsm .done (fsm.callSection verdict call).1 (fsm.callSection verdict call).2 := by
  cases call with
  | start => exact startSection_effect
  | enterConnect | enterActive => exact enterSection_effect (by decide)
  | stop | resetSoft | resetHard => exact teardown_effect _
  | packet packet =>
    apply packetSection_effect
    intro same
    exact keepalive (by rw [same])
  | malformed err notifyCode subcode =>
    simp only [callSection]
    split
    · exact idle_effect
    · exact teardown_effect _
  | tick now => exact tickSection_effect now

theorem collisionSection_effect (source : RouterId) :
    Effect heard fsm .done (fsm.collisionSection source).1 (fsm.collisionSection source).2 := by
  unfold collisionSection
  split
  · exact teardown_effect _
  · exact idle_effect

theorem routeEventSection_effect (source : RouterId) :
    Effect heard fsm .done (fsm.routeEventSection source).1 (fsm.routeEventSection source).2 := by
  unfold routeEventSection
  split <;> exact .keeps (SameAttempt.refl fsm) rfl (by simp)

/-- The section after a sent KEEPALIVE brings up the attempt it belongs to, or none. -/
theorem confirmedSection_effect (passive : Bool) :
    Effect heard fsm (.confirmed generation passive) (fsm.confirmedSection generation passive).1
      (fsm.confirmedSection generation passive).2 := by
  unfold confirmedSection
  split
  · rename_i current
    split
    · exact .settles generation passive current
        (establish_establishes ((fsm.attempting_iff generation).mp current).1) rfl
    · exact .finishes generation passive current
  · exact .keeps (SameAttempt.refl fsm) rfl (by simp)

theorem unstartSection_effect {stage : Stage} (before : EarlyState) (started : stage.attempt = none) :
    Effect heard fsm stage (fsm.unstartSection generation before) .done := by
  unfold unstartSection
  split
  · refine .falls ⟨?_, rfl⟩ rfl
    change (fsm.setState before.val).state ≠ _ ∧ (fsm.setState before.val).state ≠ _
    rw [setState_state]
    exact EarlyState.low before
  · apply Effect.keeps (SameAttempt.refl fsm) rfl
    intro other same
    rw [same] at started
    cases started

/-- Every piece of a call after the first has one of the listed effects. -/
theorem proceed_effect (err : Err) (handled : Bool) (stage : Stage) :
    Effect heard fsm stage (fsm.proceed err handled stage).1 (fsm.proceed err handled stage).2 := by
  have same := SameAttempt.refl fsm
  cases stage with
  | done => exact idle_effect
  | starting generation before => exact .keeps same rfl (by simp)
  | started generation before err =>
    simp only [proceed]
    split
    · exact .keeps same rfl (by simp)
    · exact unstartSection_effect generation before rfl
  | colliding msg passive =>
    simp only [proceed, collidedSection]
    split
    · exact teardown_effect _
    · exact .accepts msg passive (.inr rfl)
  | opening generation =>
    simp only [proceed]
    split
    · exact .opens generation
    · exact .misses generation
  | opened generation =>
    simp only [proceed]
    split
    · exact .clears generation (by assumption)
    · exact .keeps same rfl (by simp)
  | between generation =>
    simp only [proceed]
    split
    · exact .marks generation (by assumption)
    · rename_i stale
      apply Effect.keeps same rfl
      intro other equal
      cases equal
      simpa using stale
  | confirming generation passive =>
    simp only [proceed]
    split
    · exact .confirms generation passive
    · exact .fails generation passive
  | confirmed generation passive => exact confirmedSection_effect generation passive
  | failed generation =>
    simp only [proceed, rollbackFailedLocalKeepalive]
    split
    · exact teardown_effect _
    · exact .keeps same rfl (by simp)
  | advertising generation =>
    simp only [proceed]
    split <;> exact .keeps same rfl (by simp)
  | losing generation =>
    simp only [proceed]
    split
    · exact teardown_effect _
    · exact .keeps same rfl (by simp)
  | beating generation state now => exact .keeps same rfl (by simp)
  | beaten generation state now err =>
    simp only [proceed]
    split
    · split
      · exact .keeps ⟨rfl, rfl, rfl, rfl⟩ rfl (by simp)
      · exact teardown_effect _
    · exact .keeps same rfl (by simp)

end Fsm

end Libbgp
