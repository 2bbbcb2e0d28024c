/-
A session under every interleaving of its calls: it comes up only after its own KEEPALIVE.
-/

import Libbgp.Proof.Threads
import Libbgp.Proof.Runs

namespace Libbgp

open Function

variable {before after : Stage}

/-- The thread that does this piece of work. -/
def Move.thread : Move → Nat
  | .call thread _ _ | .collision thread _ | .routeEvent thread _ | .proceed thread _ _ => thread

/-- The piece of work handles a KEEPALIVE of the peer. -/
def Move.Hears (move : Move) : Prop := ∃ thread verdict, move = .call thread (.packet .keepalive) verdict

theorem Stage.accepts_of_free (free : after.attempt = none) : before.accepts after = false := by
  cases after <;> first | (cases free; done) | (cases before <;> rfl)

theorem Stage.sends_of_free (free : after.attempt = none) : before.sends after = false := by
  cases after <;> first | (cases free; done) | (cases before <;> rfl)

theorem Stage.not_between {stage : Stage} (free : stage.isDone = true) (generation : UInt64) :
    stage ≠ .between generation := by
  intro between
  rw [between] at free
  cases free

namespace Shared

variable {shared : Shared} {thread : Nat} {next : Fsm} {before after : Stage}

@[simp] theorem place_fsm (shared : Shared) (thread : Nat) (result : Fsm × Stage) :
    (shared.place thread result).fsm = result.1 := by
  unfold place
  dsimp only
  split
  · rfl
  split <;> rfl

@[simp] theorem place_stages (shared : Shared) (thread : Nat) (result : Fsm × Stage) :
    (shared.place thread result).stages = update shared.stages thread result.2 := by
  unfold place
  dsimp only
  split
  · rfl
  split <;> rfl

/-- A piece of work that neither accepts an OPEN nor sends a KEEPALIVE leaves the record as it is. -/
theorem place_silent (accepts : (shared.stages thread).accepts after = false)
    (sends : (shared.stages thread).sends after = false) :
    shared.place thread (next, after) =
      { shared with fsm := next, stages := update shared.stages thread after } := by
  simp only [place, accepts, sends, Bool.false_eq_true, if_false]

theorem place_accepts (accepts : (shared.stages thread).accepts after = true) :
    shared.place thread (next, after) =
      { shared with
        fsm := next
        stages := update shared.stages thread after
        accepted := shared.accepted + 1
        attempts := update shared.attempts thread (shared.accepted + 1) } := by
  simp only [place, accepts, if_true]

theorem place_sends (generation : UInt64) (passive : Bool)
    (sent : shared.stages thread = .confirming generation passive) :
    shared.place thread (next, .confirmed generation passive) =
      { shared with
        fsm := next
        stages := update shared.stages thread (.confirmed generation passive)
        keepalives := shared.attempts thread :: shared.keepalives } := by
  simp only [place, sent, Stage.accepts, Stage.sends, Bool.false_eq_true, if_false, if_true]

/-- A move waits for its thread, or is a piece of work with one of the listed effects. -/
theorem step_effect (shared : Shared) (move : Move) :
    shared.step move = shared ∨
      ∃ next after, shared.step move = shared.place move.thread (next, after) ∧
        Effect move.Hears shared.fsm (shared.stages move.thread) next after := by
  have begins (thread : Nat) (result : Fsm × Stage) (effect : Effect move.Hears shared.fsm .done result.1 result.2) :
      shared.begin thread result = shared ∨
        ∃ next after, shared.begin thread result = shared.place thread (next, after) ∧
          Effect move.Hears shared.fsm (shared.stages thread) next after := by
    unfold begin
    split
    · rename_i free
      have idle : shared.stages thread = .done := by
        cases stage : shared.stages thread <;> rw [stage] at free <;> first | rfl | cases free
      rw [idle]
      exact .inr ⟨result.1, result.2, rfl, effect⟩
    · exact .inl rfl
  cases move with
  | call thread call verdict =>
    apply begins thread
    apply Fsm.callSection_effect
    intro keepalive
    exact ⟨thread, verdict, by rw [keepalive]⟩
  | collision thread source => exact begins thread _ (Fsm.collisionSection_effect source)
  | routeEvent thread source => exact begins thread _ (Fsm.routeEventSection_effect source)
  | proceed thread err handled => exact .inr ⟨_, _, rfl, Fsm.proceed_effect err handled _⟩

/-- The KEEPALIVE of the current attempt is out, or something holds the session back until it is; only
between two sections of a passive open nothing does. -/
def Covered (shared : Shared) : Prop :=
  shared.accepted ∈ shared.keepalives ∨ shared.fsm.passiveOpenSendPending = true ∨
    shared.fsm.localKeepaliveSendPending = true ∨
    ∃ thread, shared.stages thread = .between shared.fsm.sessionGeneration

/-- A thread stays where it is while the others work. -/
theorem step_stages_of_ne (move : Move) (apart : move.thread ≠ thread) :
    (shared.step move).stages thread = shared.stages thread := by
  rcases shared.step_effect move with waits | ⟨next, after, placed, -⟩
  · rw [waits]
  · rw [placed, place_stages, update_of_ne apart.symm]

theorem run_stages_of_apart (moves : List Move) (apart : ∀ move ∈ moves, move.thread ≠ thread) :
    (shared.run moves).stages thread = shared.stages thread := by
  induction moves generalizing shared with
  | nil => rfl
  | cons move moves following =>
    obtain ⟨first, rest⟩ := List.forall_mem_cons.mp apart
    exact (following rest).trans (step_stages_of_ne move first)

/-- What every interleaving keeps, as long as the generations do not wrap around. -/
structure Ordered (count : Nat) (shared : Shared) : Prop where
  counted : shared.fsm.sessionGeneration.toNat ≤ count
  past : ∀ thread generation, (shared.stages thread).attempt = some generation →
    generation.toNat ≤ shared.fsm.sessionGeneration.toNat
  current : shared.fsm.state = .openConfirm → ∀ thread,
    (shared.stages thread).attempt = some shared.fsm.sessionGeneration → shared.attempts thread = shared.accepted
  confirmed : ∀ thread generation passive, shared.stages thread = .confirmed generation passive →
    shared.attempts thread ∈ shared.keepalives
  covered : shared.fsm.state = .openConfirm → shared.Covered

theorem init_ordered (params : FsmParams) : Ordered 0 (init params) where
  counted := by rfl
  past := by simp [init, Stage.attempt]
  current := by simp [init, Stage.attempt]
  confirmed := by simp [init]
  covered := by simp [init, Fsm.init]

/-- A generation below the bound has a successor. -/
theorem generation_succ {generation : UInt64} (room : generation.toNat + 1 < 2 ^ 64) :
    (generation + 1).toNat = generation.toNat + 1 := by
  rw [UInt64.toNat_add]
  exact Nat.mod_eq_of_lt room

section Step

variable {count : Nat} {heard : Prop}
  {fsm : Fsm} {keepalives : List Nat} {generation : UInt64} {msg : OpenMsg} {passive : Bool}

/-- The generation stays or goes up by one. -/
def Advances (fsm next : Fsm) : Prop :=
  next.sessionGeneration = fsm.sessionGeneration ∨ next.sessionGeneration = fsm.sessionGeneration + 1

theorem Advances.bounds (advances : Advances fsm next) (room : fsm.sessionGeneration.toNat + 1 < 2 ^ 64) :
    fsm.sessionGeneration.toNat ≤ next.sessionGeneration.toNat ∧
      next.sessionGeneration.toNat ≤ fsm.sessionGeneration.toNat + 1 := by
  rcases advances with same | more
  · rw [same]
    omega
  · rw [more, generation_succ room]
    omega

/-- A piece of work that begins no attempt keeps the order, if the current attempt stays covered. -/
theorem Ordered.goesOn (ordered : Ordered count shared) (room : count + 1 < 2 ^ 64) (thread : Nat) (after : Stage)
    (advances : Advances shared.fsm next) (kept : shared.keepalives ⊆ keepalives)
    (works : ∀ generation, after.attempt = some generation → (shared.stages thread).attempt = some generation)
    (told : ∀ generation passive, after = .confirmed generation passive → shared.attempts thread ∈ keepalives)
    (alone : next.state = .openConfirm →
      shared.fsm.state = .openConfirm ∧ next.sessionGeneration = shared.fsm.sessionGeneration) {later : Shared}
    (reached : later =
      { shared with fsm := next, stages := update shared.stages thread after, keepalives := keepalives })
    (covered : next.state = .openConfirm → later.Covered) : Ordered (count + 1) later := by
  have counted := ordered.counted
  have bounds := advances.bounds (by omega)
  have stage (other : Nat) (generation : UInt64)
      (working : (update shared.stages thread after other).attempt = some generation) :
      (shared.stages other).attempt = some generation := by
    by_cases same : other = thread
    · rw [same, update_self] at working
      rw [same]
      exact works generation working
    · rwa [update_of_ne same] at working
  subst reached
  constructor
  · exact bounds.2.trans (by omega)
  · intro other generation working
    exact (ordered.past other generation (stage other generation working)).trans bounds.1
  · intro confirming other working
    obtain ⟨before, same⟩ := alone confirming
    apply ordered.current before
    rw [← same]
    exact stage other _ working
  · intro other generation passive waits
    change update shared.stages thread after other = _ at waits
    by_cases same : other = thread
    · rw [same, update_self] at waits
      rw [same]
      exact told generation passive waits
    · rw [update_of_ne same] at waits
      exact kept (ordered.confirmed other generation passive waits)
  · exact covered

/-- The current attempt stays covered when the fields of the session stay and no thread leaves the gap. -/
theorem Covered.keep (covered : shared.Covered) (same : SameAttempt shared.fsm next)
    (left : ∀ generation, shared.stages thread = .between generation → generation ≠ shared.fsm.sessionGeneration)
    (kept : shared.keepalives ⊆ keepalives) :
    Covered { shared with
      fsm := next, stages := update shared.stages thread after, keepalives := keepalives } := by
  rcases covered with sent | passive | pending | ⟨other, between⟩
  · exact .inl (kept sent)
  · exact .inr (.inl (same.passive.trans passive))
  · exact .inr (.inr (.inl (same.confirming.trans pending)))
  · refine .inr (.inr (.inr ⟨other, ?_⟩))
    have apart : other ≠ thread := by
      intro equal
      rw [equal] at between
      exact left _ between rfl
    change update shared.stages thread after other = .between next.sessionGeneration
    rw [update_of_ne apart, same.generation]
    exact between

/-- A call that works for no attempt afterwards, while the current attempt is left alone. -/
theorem Ordered.free (ordered : Ordered count shared) (room : count + 1 < 2 ^ 64) (free : after.attempt = none)
    (advances : Advances shared.fsm next) (alone : next.state = .openConfirm → SameAttempt shared.fsm next ∧
      ∀ generation, shared.stages thread = .between generation → generation ≠ shared.fsm.sessionGeneration) :
    Ordered (count + 1) (shared.place thread (next, after)) := by
  apply ordered.goesOn room thread after advances (List.Subset.refl _)
  · intro generation works
    rw [free] at works
    cases works
  · intro generation passive waits
    rw [waits] at free
    cases free
  · intro confirming
    obtain ⟨same, -⟩ := alone confirming
    exact ⟨same.state.symm.trans confirming, same.generation⟩
  · exact place_silent (Stage.accepts_of_free free) (Stage.sends_of_free free)
  · intro confirming
    obtain ⟨same, left⟩ := alone confirming
    rw [place_silent (Stage.accepts_of_free free) (Stage.sends_of_free free)]
    exact (ordered.covered (same.state.symm.trans confirming)).keep same left (List.Subset.refl _)

/-- An OPEN handling that goes on with its attempt. -/
theorem Ordered.onward (ordered : Ordered count shared) (room : count + 1 < 2 ^ 64)
    (working : before.attempt = some generation) (stage : shared.stages thread = before)
    (works : ∀ other, after.attempt = some other → other = generation) (state : next.state = shared.fsm.state)
    (same : next.sessionGeneration = shared.fsm.sessionGeneration)
    (told : ∀ other passive, after = .confirmed other passive → False)
    (silent : before.accepts after = false ∧ before.sends after = false) (covered : shared.fsm.state = .openConfirm →
      Covered { shared with fsm := next, stages := update shared.stages thread after }) :
    Ordered (count + 1) (shared.place thread (next, after)) := by
  rw [← stage] at silent working
  have placed := @place_silent shared thread next after silent.1 silent.2
  apply ordered.goesOn room thread after (.inl same) (List.Subset.refl _)
  · intro other onward
    rw [works other onward]
    exact working
  · intro other passive waits
    exact (told other passive waits).elim
  · intro confirming
    exact ⟨state.symm.trans confirming, same⟩
  · exact placed
  · intro confirming
    rw [placed]
    exact covered (state.symm.trans confirming)

theorem acceptOpen_generation (fsm : Fsm) (msg : OpenMsg) (passive : Bool) :
    (fsm.acceptOpen msg passive).sessionGeneration = fsm.sessionGeneration + 1 := by
  simp only [Fsm.acceptOpen, Fsm.setState_generation]

/-- The stage of an OPEN handling right after it has accepted the OPEN. -/
theorem acceptSection_attempt (fsm : Fsm) (msg : OpenMsg) (passive : Bool) :
    (fsm.acceptSection msg passive).2.attempt = some (fsm.sessionGeneration + 1) := by
  rw [← acceptOpen_generation fsm msg passive]
  cases passive <;> rfl

theorem acceptSection_accepts (fsm : Fsm) (early : before = .done ∨ before = .colliding msg passive) :
    before.accepts (fsm.acceptSection msg passive).2 = true := by
  rcases early with rfl | rfl <;> cases passive <;> rfl

/-- An accepted OPEN begins an attempt that no other thread works for. -/
theorem Ordered.accept (ordered : Ordered count shared) (room : count + 1 < 2 ^ 64)
    (early : shared.stages thread = .done ∨ shared.stages thread = .colliding msg passive) :
    Ordered (count + 1) (shared.place thread (shared.fsm.acceptSection msg passive)) := by
  have counted := ordered.counted
  have fresh : (shared.fsm.sessionGeneration + 1).toNat = shared.fsm.sessionGeneration.toNat + 1 :=
    generation_succ (by omega)
  have generation := acceptOpen_generation shared.fsm msg passive
  have works := acceptSection_attempt shared.fsm msg passive
  rw [show shared.fsm.acceptSection msg passive =
    (shared.fsm.acceptOpen msg passive, (shared.fsm.acceptSection msg passive).2) from rfl,
    place_accepts (acceptSection_accepts shared.fsm early)]
  constructor
  · change (shared.fsm.acceptOpen msg passive).sessionGeneration.toNat ≤ count + 1
    rw [generation, fresh]
    omega
  · intro other attempt working
    change (update shared.stages thread _ other).attempt = some attempt at working
    change attempt.toNat ≤ (shared.fsm.acceptOpen msg passive).sessionGeneration.toNat
    rw [generation]
    by_cases same : other = thread
    · rw [same, update_self, works] at working
      cases working
      exact Nat.le_refl _
    · rw [update_of_ne same] at working
      have past := ordered.past other attempt working
      omega
  · intro confirming other working
    change (update shared.stages thread _ other).attempt =
      some (shared.fsm.acceptOpen msg passive).sessionGeneration at working
    change update shared.attempts thread (shared.accepted + 1) other = shared.accepted + 1
    by_cases same : other = thread
    · rw [same, update_self]
    · -- Every other thread works for an older generation.
      rw [update_of_ne same, generation] at working
      have past := ordered.past other _ working
      omega
  · intro other attempt answered waits
    change update shared.stages thread _ other = _ at waits
    change update shared.attempts thread _ other ∈ shared.keepalives
    by_cases same : other = thread
    · rw [same, update_self] at waits
      cases passive <;> cases waits
    · rw [update_of_ne same] at waits ⊢
      exact ordered.confirmed other attempt answered waits
  · intro confirming
    cases passive
    · exact .inr (.inr (.inl rfl))
    · exact .inr (.inl rfl)

theorem Ordered.later (ordered : Ordered count shared) : Ordered (count + 1) shared :=
  { ordered with counted := Nat.le_succ_of_le ordered.counted }

theorem Effect.advances (effect : Effect heard fsm before next after) : Advances fsm next := by
  cases effect with
  | keeps same free left => exact .inl same.generation
  | falls falls free => exact .inr falls.generation
  | accepts msg passive early => exact .inr (acceptOpen_generation fsm msg passive)
  | opens | misses | clears | marks | confirms | fails | finishes => exact .inl rfl
  | settles generation passive current rise free => exact .inr rise.generation
  | hears keepalive opened sent rise free => exact .inr rise.generation

/-- The attempt of a handling that has sent its KEEPALIVE is covered by it. -/
theorem Ordered.answered (ordered : Ordered count shared) (current : shared.fsm.attempting generation = true)
    (stage : shared.stages thread = .confirmed generation passive) : shared.accepted ∈ shared.keepalives := by
  obtain ⟨confirming, same⟩ := (shared.fsm.attempting_iff generation).mp current
  have working : (shared.stages thread).attempt = some shared.fsm.sessionGeneration := by
    rw [stage, same]
    rfl
  rw [← ordered.current confirming thread working]
  exact ordered.confirmed thread generation passive stage

/-- Every piece of work keeps the order: a case for each of its effects. -/
theorem Ordered.place (ordered : Ordered count shared) (room : count + 1 < 2 ^ 64)
    (effect : Effect heard shared.fsm (shared.stages thread) next after) :
    Ordered (count + 1) (shared.place thread (next, after)) := by
  have advances := Effect.advances effect
  generalize stage : shared.stages thread = before at effect
  -- The attempt stays covered while the session does not change and the thread was not in the gap.
  have held (apart : ∀ generation, before ≠ .between generation) {keepalives : List Nat}
      (kept : shared.keepalives ⊆ keepalives) (confirming : shared.fsm.state = .openConfirm) :
      Covered { shared with stages := update shared.stages thread after, keepalives := keepalives } := by
    apply (ordered.covered confirming).keep (SameAttempt.refl shared.fsm) _ kept
    intro generation between
    exact (apart generation (stage.symm.trans between)).elim
  cases effect with
  | keeps same free left =>
    apply ordered.free room free advances
    intro confirming
    refine ⟨same, ?_⟩
    intro generation between equal
    have gone := left generation (stage.symm.trans between)
    have current := (shared.fsm.attempting_iff generation).mpr ⟨same.state.symm.trans confirming, equal.symm⟩
    rw [gone] at current
    cases current
  | falls falls free =>
    apply ordered.free room free advances
    intro confirming
    exact (falls.state.1 confirming).elim
  | settles generation passive current rise free | hears keepalive opened sent rise free =>
    apply ordered.free room free advances
    intro confirming
    rw [rise.state] at confirming
    cases confirming
  | accepts msg passive early =>
    rw [← stage] at early
    exact ordered.accept room early
  | opens generation | misses generation | fails generation passive =>
    exact ordered.onward room rfl stage (by simp [Stage.attempt]) rfl rfl (by simp) ⟨rfl, rfl⟩
      (held (by simp) (List.Subset.refl _))
  | clears generation current =>
    refine ordered.onward room rfl stage (by simp [Stage.attempt]) rfl rfl (by simp) ⟨rfl, rfl⟩ ?_
    intro confirming
    refine .inr (.inr (.inr ⟨thread, ?_⟩))
    rw [((shared.fsm.attempting_iff generation).mp current).2]
    exact update_self _ _ _
  | marks generation current =>
    refine ordered.onward room rfl stage (by simp [Stage.attempt]) rfl rfl (by simp) ⟨rfl, rfl⟩ ?_
    intro confirming
    exact .inr (.inr (.inl rfl))
  | finishes generation passive current =>
    refine ordered.onward room rfl stage (by simp [Stage.attempt]) rfl rfl (by simp) ⟨rfl, rfl⟩ ?_
    intro confirming
    exact .inl (ordered.answered current stage)
  | confirms generation passive =>
    apply ordered.goesOn room thread _ advances (List.subset_cons_self _ _) _ _ _ (place_sends generation passive stage)
    · intro confirming
      rw [place_sends generation passive stage]
      exact held (by simp) (List.subset_cons_self _ _) confirming
    · intro other working
      rw [stage]
      exact working
    · intro other answered waits
      exact List.mem_cons_self
    · intro confirming
      exact ⟨confirming, rfl⟩

/-- One move of the interleaving keeps the order. -/
theorem Ordered.step (ordered : Ordered count shared) (room : count + 1 < 2 ^ 64) (move : Move) :
    Ordered (count + 1) (shared.step move) := by
  rcases shared.step_effect move with waits | ⟨next, after, placed, effect⟩
  · rw [waits]
    exact ordered.later
  · rw [placed]
    exact ordered.place room effect

/-- A run of fewer moves than there are generations keeps the order. -/
theorem Ordered.run (moves : List Move) (ordered : Ordered count shared) (room : count + moves.length < 2 ^ 64) :
    Ordered (count + moves.length) (shared.run moves) := by
  induction moves generalizing count shared with
  | nil => exact ordered
  | cons move moves following =>
    rw [List.length_cons] at room
    have rest := following (ordered.step (by omega) move) (by omega)
    rw [List.length_cons, show count + (moves.length + 1) = count + 1 + moves.length by omega]
    exact rest

theorem init_run_ordered (params : FsmParams) {moves : List Move} (short : moves.length < 2 ^ 64) :
    Ordered moves.length ((init params).run moves) := by
  have ordered := (init_ordered params).run moves (by omega)
  rwa [Nat.zero_add] at ordered

end Step

/-- A KEEPALIVE is not handled between the two sections of a passive open in which neither flag of the
current attempt is set. -/
def Undivided (shared : Shared) (move : Move) : Prop :=
  move.Hears → ∀ thread, shared.stages thread ≠ .between shared.fsm.sessionGeneration

/-- A session comes up only after its own KEEPALIVE of the attempt has been sent. -/
theorem established_after_keepalive (params : FsmParams) (moves : List Move) (short : moves.length < 2 ^ 64)
    (move : Move) (undivided : Undivided ((init params).run moves) move)
    (down : ((init params).run moves).fsm.state ≠ .established)
    (up : (((init params).run moves).step move).fsm.state = .established) :
    ((init params).run moves).accepted ∈ ((init params).run moves).keepalives := by
  have ordered := init_run_ordered params short
  generalize (init params).run moves = shared at ordered undivided down up ⊢
  rcases shared.step_effect move with waits | ⟨next, after, placed, effect⟩
  · rw [waits] at up
    exact (down up).elim
  rw [placed, place_fsm] at up
  generalize stage : shared.stages move.thread = before at effect
  cases effect with
  | keeps same free left => exact (down (same.state.symm.trans up)).elim
  | falls falls free => exact (falls.state.2 up).elim
  | accepts msg passive early =>
    change (shared.fsm.acceptOpen msg passive).state = .established at up
    rw [Sys.acceptOpen_state] at up
    cases up
  | opens | misses | clears | marks | confirms | fails | finishes => exact (down up).elim
  | settles generation passive current rise free => exact ordered.answered current stage
  | hears keepalive opened sent rise free =>
    rcases ordered.covered rise.confirming with told | passive | pending | ⟨thread, between⟩
    · exact told
    · rw [opened] at passive
      cases passive
    · rw [sent] at pending
      cases pending
    · exact (undivided keepalive thread between).elim

section Samples

/-- A passive open up to its own OPEN: the event, the accepted OPEN, and the OPEN that answers it. -/
def samplePassive : List Move :=
  [.call 0 (.packet (.opening (sampleOpen 65002 0x0a000002))) .ok, .proceed 0 .ok false, .proceed 0 .ok false]

/-- The KEEPALIVE of the peer comes after the passive open. -/
theorem established_after_keepalive_sample :
    ((init (sampleParams 65002)).run (samplePassive ++
      [.proceed 0 .ok false, .proceed 0 .ok false, .proceed 0 .ok false, .proceed 0 .ok false])).accepted ∈
    ((init (sampleParams 65002)).run (samplePassive ++
      [.proceed 0 .ok false, .proceed 0 .ok false, .proceed 0 .ok false, .proceed 0 .ok false])).keepalives := by
  apply established_after_keepalive (sampleParams 65002) _ (by decide) (.call 1 (.packet .keepalive) .ok)
  · intro _ thread
    by_cases handler : thread = 0
    · rw [handler]
      exact Stage.not_between (by decide +kernel) _
    · rw [run_stages_of_apart _ (by simpa [samplePassive, Move.thread] using Ne.symm handler)]
      exact Stage.not_between rfl _
  · decide +kernel
  · decide +kernel

/-- The KEEPALIVE of the peer comes after the section that clears `passive_open_send_pending`: the
session is up, and its own KEEPALIVE is never sent. -/
theorem established_without_keepalive :
    let gap := (init (sampleParams 65002)).run (samplePassive ++ [.proceed 0 .ok false])
    let up := gap.step (.call 1 (.packet .keepalive) .ok)
    let returned := up.run [.proceed 0 .ok false, .proceed 1 .ok false]
    gap.fsm.state = .openConfirm ∧ up.fsm.state = .established ∧ gap.accepted ∉ gap.keepalives ∧
      returned.fsm.state = .established ∧ (returned.stages 0).isDone ∧ (returned.stages 1).isDone ∧
      returned.keepalives = [] := by
  decide +kernel

end Samples

end Shared

end Libbgp
