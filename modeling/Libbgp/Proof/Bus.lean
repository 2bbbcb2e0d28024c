/-
How the sessions of a system are connected to its event bus.
-/

import Libbgp.Proof.Runs

namespace Libbgp

open Library List

/-- The identifier under which a session listens to a type of event. -/
def FsmParams.subId (params : FsmParams) : EventType → Option Nat
  | .routeAdded => some params.routeAddedSubId
  | .routeWithdrawn => some params.routeWithdrawnSubId
  | .collision => some params.collisionSubId
  | _ => none

namespace Sys

variable {code : MessageCode} {sys before after : Sys}

/-- Every session listens under its own identifiers, and the identifiers are numbered from one. -/
structure Wired (sys : Sys) : Prop where
  listens : ∀ index < sys.count, ∀ type id, (sys.fsm index).params.subId type = some id →
    ⟨id, type, .session index⟩ ∈ sys.subs
  own : ∀ sub ∈ sys.subs, ∀ index, sub.target = .session index →
    index < sys.count ∧ (sys.fsm index).params.subId sub.type = some sub.id
  ids : sys.subs.map Subscriber.id = range' 1 sys.subs.length

theorem Wired.setup (wired : before.Wired) (setup : Setup before after) : after.Wired := by
  refine ⟨fun index present type id listens => ?_, fun sub member index target => ?_, ?_⟩
  · rw [setup.params] at listens
    rw [setup.subs]
    exact wired.listens index (setup.count ▸ present) type id listens
  · rw [setup.params, setup.count]
    exact wired.own sub (setup.subs ▸ member) index target
  · rw [setup.subs]
    exact wired.ids

theorem Wired.unique (wired : sys.Wired) {first second : Subscriber} (firstIn : first ∈ sys.subs)
    (secondIn : second ∈ sys.subs) (same : first.id = second.id) : first = second := by
  have distinct : (sys.subs.map Subscriber.id).Nodup := by
    rw [wired.ids]
    exact nodup_range'
  exact inj_on_of_nodup_map distinct firstIn secondIn same

theorem Wired.positive (wired : sys.Wired) {sub : Subscriber} (member : sub ∈ sys.subs) : 0 < sub.id := by
  have listed : sub.id ∈ sys.subs.map Subscriber.id := mem_map_of_mem member
  rw [wired.ids, mem_range'_1] at listed
  exact listed.1

/-- Two sessions never listen under one identifier. -/
theorem Wired.different (wired : sys.Wired) {first second : Nat} (firstPresent : first < sys.count)
    (secondPresent : second < sys.count) (different : first ≠ second) {type : EventType} {id : Nat}
    (listens : (sys.fsm first).params.subId type = some id) : (sys.fsm second).params.subId type ≠ some id := by
  intro other
  have same := wired.unique (wired.listens first firstPresent type id listens)
    (wired.listens second secondPresent type id other) rfl
  exact different (Target.session.inj (Subscriber.mk.inj same).2.2)

/-- A session joins a bus. -/
theorem Wired.attach_session (wired : sys.Wired) (params : FsmParams) : (sys.attach (.session params)).Wired := by
  have old : ∀ index, index ≠ sys.count → (sys.attach (.session params)).fsm index = sys.fsm index :=
    fun index different => Function.update_of_ne different ..
  have new : ((sys.attach (.session params)).fsm sys.count).params = { params with
      routeAddedSubId := sys.subs.length + 1
      routeWithdrawnSubId := sys.subs.length + 2
      collisionSubId := sys.subs.length + 3 } := by
    simp only [attach, Function.update_self]
    rfl
  refine ⟨fun index present type id listens => ?_, fun sub member index target => ?_, ?_⟩
  · by_cases here : index = sys.count
    · subst here
      rw [new] at listens
      refine mem_append_right _ ?_
      cases type <;> simp only [FsmParams.subId, Option.some.injEq, reduceCtorEq] at listens <;> subst listens <;> simp
    · rw [old index here] at listens
      have earlier : index < sys.count := by
        have bound : index < sys.count + 1 := present
        omega
      exact mem_append_left _ (wired.listens index earlier type id listens)
  · rcases mem_append.mp member with member | member
    · obtain ⟨present, listens⟩ := wired.own sub member index target
      rw [old index (by omega)]
      exact ⟨Nat.lt_succ_of_lt present, listens⟩
    · have here : index = sys.count ∧ (sub.type, sub.id) ∈ [(EventType.routeAdded, sys.subs.length + 1),
          (EventType.routeWithdrawn, sys.subs.length + 2), (EventType.collision, sys.subs.length + 3)] := by
        simp only [mem_cons, not_mem_nil, or_false] at member
        rcases member with rfl | rfl | rfl <;> simp_all
      obtain ⟨rfl, listed⟩ := here
      rw [new]
      refine ⟨Nat.lt_succ_self _, ?_⟩
      simp only [mem_cons, Prod.mk.injEq, not_mem_nil, or_false] at listed
      rcases listed with ⟨type, id⟩ | ⟨type, id⟩ | ⟨type, id⟩ <;> rw [type, id] <;> rfl
  · simp only [attach, map_append, wired.ids, length_append]
    rw [← range'_append]
    simp [range']
    omega

/-- A new system is wired. -/
theorem init_wired (members : List Member) : (init members).Wired := by
  have joined : ∀ (members : List Member) (sys : Sys), sys.Wired → (members.foldl attach sys).Wired := by
    intro members
    induction members with
    | nil => exact fun _ wired => wired
    | cons member rest ih =>
      intro sys wired
      refine ih _ ?_
      cases member with
      | session params => exact wired.attach_session params
      | observer number type =>
        refine ⟨fun index present type id listens => ?_, fun sub member index target => ?_, ?_⟩
        · exact mem_append_left _ (wired.listens index present type id listens)
        · rcases mem_append.mp member with member | member
          · exact wired.own sub member index target
          · rw [mem_singleton.mp member] at target
            cases target
        · simp only [attach, map_append, wired.ids, length_append, map_singleton, length_singleton]
          rw [← range'_append]
          simp [range']
          omega
  exact joined members empty ⟨fun _ impossible => absurd impossible (Nat.not_lt_zero _), by simp [empty], rfl⟩

/-- What the parameters of the members have in common holds for the sessions. -/
theorem init_params {holds : FsmParams → Prop}
    (ignores : ∀ params added withdrawn collision, holds params → holds { params with
      routeAddedSubId := added, routeWithdrawnSubId := withdrawn, collisionSubId := collision })
    (members : List Member) (each : ∀ params, .session params ∈ members → holds params) :
    ∀ index < (init members).count, holds ((init members).fsm index).params := by
  have joined : ∀ (members : List Member) (sys : Sys), (∀ params, .session params ∈ members → holds params) →
      (∀ index < sys.count, holds (sys.fsm index).params) →
      ∀ index < (members.foldl attach sys).count, holds ((members.foldl attach sys).fsm index).params := by
    intro members
    induction members with
    | nil => exact fun _ _ held => held
    | cons member rest ih =>
      intro sys each held
      refine ih _ (fun params later => each params (mem_cons_of_mem _ later)) fun index present => ?_
      cases member with
      | session params =>
        by_cases here : index = sys.count
        · subst here
          simp only [attach, Function.update_self]
          exact ignores params _ _ _ (each params mem_cons_self)
        · have earlier : index < sys.count := by
            have bound : index < sys.count + 1 := present
            omega
          simpa only [attach, Function.update_of_ne here] using held index earlier
      | observer number type => exact held index present
  exact joined members empty each fun _ impossible => absurd impossible (Nat.not_lt_zero _)

end Sys

end Libbgp
