/-
Subscribers that follow the route events know the best routes.
-/

import Libbgp.Construction.Message
import Libbgp.Proof.Phases

namespace Libbgp

open Library

namespace Sys

variable {code : MessageCode} {index number : Nat} {call : Call} {sys before after : Sys}
  {added withdrawn : Nat} {peer : RouterId} {changes : List RouteChange} {members : List Member}

/-- An identifier under which events of a type are published: none, or that of a session. -/
def Publishes (sys : Sys) (type : EventType) (publisher : Nat) : Prop :=
  publisher = 0 ∨ ∃ index < sys.count, (sys.fsm index).params.subId type = some publisher

/-- A subscriber outside the library gets every event of a type. -/
def Subscribed (sys : Sys) (number : Nat) (type : EventType) : Prop :=
  ∃ sub ∈ sys.subs, sub.type = type ∧ sub.target = .observer number

/-- A subscriber is among the targets of its events. -/
theorem Subscribed.listed {event : Event} {publisher : Nat} (subscribed : sys.Subscribed number event.type)
    (wired : sys.Wired) (publishes : sys.Publishes event.type publisher) :
    listed (sys.targets publisher event) (.observer number) = true := by
  obtain ⟨sub, member, type, target⟩ := subscribed
  refine List.any_eq_true.mpr ⟨sub, List.mem_filter.mpr ⟨member, ?_⟩, by simp [target]⟩
  rw [Bool.and_eq_true, type, beq_self_eq_true, Bool.or_eq_true, beq_iff_eq, bne_iff_ne]
  refine ⟨rfl, publishes.imp id fun ⟨index, present, own⟩ same => ?_⟩
  -- The subscription of the publisher is that of a session.
  have equal := wired.unique member (wired.listens index present _ _ own) same
  rw [equal] at target
  cases target

/-- The subscriber follows both kinds of route events. -/
structure Follows (sys : Sys) (number : Nat) : Prop where
  added : sys.Subscribed number .routeAdded
  withdrawn : sys.Subscribed number .routeWithdrawn

theorem Follows.setup (follows : before.Follows number) (setup : Setup before after) : after.Follows number := by
  refine ⟨?_, ?_⟩
  · unfold Subscribed
    rw [setup.subs]
    exact follows.added
  · unfold Subscribed
    rw [setup.subs]
    exact follows.withdrawn

/-- Such a subscriber applies every published change. -/
theorem Broadcast.follows (published : Broadcast added withdrawn peer changes before after) (wired : before.Wired)
    (follows : before.Follows number) (first : before.Publishes .routeAdded added)
    (second : before.Publishes .routeWithdrawn withdrawn) :
    observed number after.trace = changes.foldl RouteChange.apply (observed number before.trace) := by
  have everyone : ∀ change, listed (before.audience added withdrawn peer change) (.observer number) = true := by
    intro change
    cases change with
    | added af route => exact follows.added.listed wired first
    | withdrawn af pfx => exact follows.withdrawn.listed wired second
  rw [published.observers]
  simp only [everyone, if_true]

theorem uniform_discarded {ribs : Ribs} {af : Af} {rib : RibImpl af.family} (uniform : ribs.Uniform)
    (discarded : (ribs.get af).Discarded rib peer) : (ribs.set af rib).Uniform := by
  intro other pfx
  by_cases here : other = af
  · subst here
    rw [Ribs.get_set]
    refine (uniform other pfx).of_similar fun route member => ⟨route, ?_, rfl, rfl⟩
    obtain ⟨entry, stored, place, same⟩ := member
    rw [discarded.linked_eq] at stored
    exact ⟨entry, stored.1, place, same⟩
  · rw [Ribs.get_set_of_ne _ here]
    exact uniform other pfx

/-- The subscriber knows the best routes, and the comparison of routes is an order. -/
structure Informed (number : Nat) (sys : Sys) : Prop where
  sound : sys.Sound
  wired : sys.Wired
  follows : sys.Follows number
  uniform : sys.ribs.Uniform
  knows : observed number sys.trace = bestView sys.ribs

theorem Aside.informed (aside : Aside before after) (informed : Informed number before) : Informed number after where
  sound := informed.sound.same aside.ribs
  wired := informed.wired.setup aside.setup
  follows := informed.follows.setup aside.setup
  uniform := by rw [aside.ribs]; exact informed.uniform
  knows := by rw [aside.observers, aside.ribs]; exact informed.knows

/-- A broadcast tells the subscriber how new tables differ from the old ones. -/
theorem Informed.broadcast {middle : Sys} (informed : Informed number before)
    (published : Broadcast added withdrawn peer changes middle after) (setup : Setup before middle)
    (trace : middle.trace = before.trace) (sound : middle.Sound) (uniform : middle.ribs.Uniform)
    (explained : changes.foldl RouteChange.apply (bestView before.ribs) = bestView middle.ribs)
    (first : middle.Publishes .routeAdded added) (second : middle.Publishes .routeWithdrawn withdrawn) :
    Informed number after where
  sound := sound.same published.same.1
  wired := (informed.wired.setup setup).setup published.setup
  follows := (informed.follows.setup setup).setup published.setup
  uniform := by rw [published.same.1]; exact uniform
  knows := by
    rw [published.follows (informed.wired.setup setup) (informed.follows.setup setup) first second, trace,
      informed.knows,
      explained, published.same.1]

/-- Every phase of a call keeps an observer informed. -/
theorem Phase.informed (phase : Phase index before after) (informed : Informed number before) :
    Informed number after := by
  cases phase with
  | aside aside => exact aside.informed informed
  | ended live =>
    exact ⟨informed.sound, informed.wired.setup (setup_closes.close before index),
      informed.follows.setup (setup_closes.close before index), informed.uniform, informed.knows⟩
  | discarded af peer rib rest result discarded report published =>
    have explained := discardChanges_explain (informed.sound af) informed.uniform discarded report
    exact informed.broadcast published ⟨rfl, rfl, fun _ => rfl⟩ rfl (sound_set informed.sound discarded.invariant rest)
      (uniform_discarded informed.uniform discarded) explained (.inl rfl) (.inl rfl)

theorem setup_applied (sys : Sys) (index : Nat) (state : Applying) : Setup sys (sys.storeApplied index state) := by
  have changed := setup_modify sys index Fsm.markRxCurrent (by rw [Fsm.markRxCurrent_same (sys.fsm index)])
  exact ⟨changed.count, changed.subs, changed.params⟩

/-- An UPDATE that was applied keeps an observer informed. -/
theorem Updated.informed {update : UpdateMsg} {state : Applying}
    (updated : Updated code index update state before after)
    (present : index < before.count) (informed : Informed number before) (uniform : after.ribs.Uniform) :
    Informed number after := by
  obtain ⟨subcode, done⟩ := updated.done
  have tables := updated.published.same.1
  rw [tables] at uniform
  have explained := Fsm.applyUpdate_explains informed.sound done informed.uniform uniform
  have setup := setup_applied before index state
  have own : (before.storeApplied index state).Publishes .routeAdded (before.fsm index).params.routeAddedSubId ∧
      (before.storeApplied index state).Publishes .routeWithdrawn (before.fsm index).params.routeWithdrawnSubId :=
    ⟨.inr ⟨index, present, by rw [setup.params]; rfl⟩, .inr ⟨index, present, by rw [setup.params]; rfl⟩⟩
  exact informed.broadcast updated.published setup rfl (applied_tables informed.sound done).1 uniform
    explained own.1 own.2

theorem phases_informed (chain : Relation.ReflTransGen (Phase index) before after) (informed : Informed number before) :
    Informed number after := by
  induction chain with
  | refl => exact informed
  | tail _ phase ih => exact phase.informed ih

/-- A session that comes up sends messages but publishes nothing about routes. -/
theorem Rises.informed {confirmed walked : Sys} (rises : Rises index before walked confirmed)
    (informed : Informed number before) : Informed number walked := by
  have ready := rises.ready.aside.informed informed
  have setup := setup_modify confirmed index Fsm.establish (by simp [Fsm.establish])
  have established : Informed number (confirmed.modify index Fsm.establish) :=
    ⟨ready.sound, ready.wired.setup setup, ready.follows.setup setup, ready.uniform, ready.knows⟩
  have walk : ∀ {first last}, Relation.ReflTransGen (Advertising index) first last → Informed number first →
      Informed number last := by
    intro first last chain informed
    induction chain with
    | refl => exact informed
    | tail _ taken ih =>
      cases taken with
      | quiet taken => exact (Still.aside (.single taken)).informed ih
      | sent =>
        exact ⟨ih.sound, ih.wired.setup ⟨rfl, rfl, fun _ => rfl⟩, ih.follows.setup ⟨rfl, rfl, fun _ => rfl⟩,
          ih.uniform, ih.knows⟩
  exact walk rises.walked established

theorem Smooth.informed (smooth : Smooth code index call before after) (present : index < before.count)
    (informed : Informed number before) (uniform : after.ribs.Uniform) : Informed number after := by
  cases smooth with
  | phases chain => exact phases_informed chain informed
  | updated middle last update state asked early sound updated late =>
    have here : index < middle.count := by rw [early.setup.count]; exact present
    exact late.informed (updated.informed here (early.informed informed) (by rw [← late.ribs]; exact uniform))
  | risen confirmed walked rises late => exact late.informed (rises.informed informed)

/-- What a subscription of a member of the system amounts to. -/
theorem init_subscribed {type : EventType} (member : .observer number type ∈ members) :
    (init members).Subscribed number type := by
  have kept : ∀ (members : List Member) (sys : Sys), sys.Subscribed number type →
      (members.foldl attach sys).Subscribed number type := by
    intro members
    induction members with
    | nil => exact fun _ subscribed => subscribed
    | cons first rest ih =>
      intro sys ⟨sub, listed, same⟩
      refine ih _ ⟨sub, ?_, same⟩
      cases first <;> exact List.mem_append_left _ listed
  have joined : ∀ (members : List Member) (sys : Sys), .observer number type ∈ members →
      (members.foldl attach sys).Subscribed number type := by
    intro members
    induction members with
    | nil =>
      intro _ impossible
      cases impossible
    | cons first rest ih =>
      intro sys member
      rcases List.mem_cons.mp member with rfl | later
      · exact kept rest _ ⟨_, List.mem_append_right _ List.mem_cons_self, rfl, rfl⟩
      · exact ih _ later
  exact joined members empty member

/-- A call with enough memory, after which MED always counts among the routes of a prefix. -/
def Steady (code : MessageCode) (sys : Sys) (step : Step) : Prop :=
  step.alloc.Generous ∧ (sys.step code step).ribs.Uniform

theorem init_uniform (members : List Member) : (init members).ribs.Uniform := by
  rintro af pfx route ⟨entry, member, place, rfl⟩
  have stored := (init_sound members af).routeAt_eq_some_iff.mpr ⟨entry, member, rfl, place, rfl⟩
  rw [init_routeAt] at stored
  cases stored

theorem init_exporting (members : List Member) : (init members).Exporting := by
  intro af source pfx route stored
  rw [init_routeAt] at stored
  cases stored

theorem step_grows (step : Step) (sound : sys.Sound) : Grows sys (sys.step code step) :=
  (grows_lasts code _).carries.step step sound ⟨[], rfl⟩

theorem init_bestView (members : List Member) : bestView (init members).ribs = fun _ => none := by
  funext ⟨af, pfx⟩
  rcases found : ((init members).ribs.get af).bestExact pfx with _ | best
  · simp only [bestView, found, Option.map_none]
  · have stored := RibImpl.bestExact_routeAt (init_sound members af) found
    rw [init_routeAt] at stored
    cases stored

/-- In every run in which nothing fails and MED always counts, a subscriber that follows the route events
of the sessions knows the best route of every prefix after each call, and nothing where there is no route. -/
theorem observer_holds_best (added : .observer number .routeAdded ∈ members)
    (withdrawn : .observer number .routeWithdrawn ∈ members)
    (reached : Reach code (Steady code) (fun _ _ => False) (init members) sys) (flawless : sys.Flawless) :
    (∀ af pfx, observed number sys.trace ⟨af, pfx⟩ = ((sys.ribs.get af).bestExact pfx).map (announcement af)) ∧
    ∀ af pfx, (∀ source, (sys.ribs.get af).routeAt source pfx = none) → observed number sys.trace ⟨af, pfx⟩ = none := by
  have begins : (init members).Flawless → Informed number (init members) ∧ (init members).Exporting := by
    intro _
    refine ⟨⟨init_sound members, init_wired members, ⟨init_subscribed added, init_subscribed withdrawn⟩,
      init_uniform members, ?_⟩, init_exporting members⟩
    rw [init_bestView, (init_fresh members).trace]
    rfl
  have called : ∀ (sys : Sys) step, sys.Sound → (sys.Flawless → Informed number sys ∧ sys.Exporting) →
      Steady code sys step → (sys.step code step).Flawless →
      Informed number (sys.step code step) ∧ (sys.step code step).Exporting := by
    intro sys step sound kept ⟨generous, uniform⟩ flawless
    obtain ⟨informed, exporting⟩ := kept ((step_grows step sound).flawless flawless)
    rcases @step_cases code sys sound step with ⟨present, acts⟩ | same
    · obtain ⟨later, smooth⟩ := acts.smooth sound generous exporting flawless
      have answered : Informed number (sys.answer step) :=
        ⟨sound, informed.wired.setup ⟨rfl, rfl, fun _ => rfl⟩, informed.follows.setup ⟨rfl, rfl, fun _ => rfl⟩,
          informed.uniform, informed.knows⟩
      exact ⟨smooth.informed present answered uniform, later⟩
    · rw [same]
      exact ⟨informed, exporting⟩
  obtain ⟨sound, kept⟩ := reached.keeps (init_sound members) begins called fun _ _ _ impossible => impossible.elim
  have knows := (kept flawless).1.knows
  refine ⟨fun af pfx => by rw [knows]; rfl, fun af pfx empty => ?_⟩
  rw [knows]
  rcases found : (sys.ribs.get af).bestExact pfx with _ | best
  · simp only [bestView, found, Option.map_none]
  · cases (empty best.source).symm.trans (RibImpl.bestExact_routeAt (sound af) found)

/-- A finite test for the tables of a sample: MED counts between any two routes of a family. -/
def MedShared (ribs : Ribs) : Prop :=
  ∀ af ∈ [Af.ipv4, Af.ipv6], ∀ a ∈ (ribs.get af).routes.entries, ∀ b ∈ (ribs.get af).routes.entries,
    a.route.med ≠ b.route.med →
      (ribNeighborAs a.route).isSome = true ∧ ribNeighborAs a.route = ribNeighborAs b.route

instance (ribs : Ribs) : Decidable (MedShared ribs) := inferInstanceAs (Decidable (∀ af ∈ [Af.ipv4, Af.ipv6], _))

theorem MedShared.uniform {ribs : Ribs} (shared : MedShared ribs) : ribs.Uniform :=
  fun af pfx => RibImpl.medUniform_of_entries _ pfx (shared af (by cases af <;> simp))

/-- Such a test for the steps of a sample. -/
def SharedStep (code : MessageCode) (sys : Sys) (step : Step) : Prop :=
  step.alloc = [] ∧ MedShared (sys.step code step).ribs

instance (sys : Sys) (step : Step) : Decidable (SharedStep code sys step) := inferInstanceAs (Decidable (_ ∧ _))

theorem SharedStep.steady {step : Step} (shared : SharedStep code sys step) : Steady code sys step :=
  ⟨by rw [shared.1]; exact Allocator.generous_nil, shared.2.uniform⟩

/-- An observer follows two neighbours; the one with the better route to 192.0.3.0/24 is stopped. -/
def sampleFollowed : Sys :=
  (init [.session (sampleParams 65002), .observer 7 .routeAdded, .session (sampleParams 65003),
    .observer 7 .routeWithdrawn]).run libbgpCode (sampleUp 0 65002 0x0a000002 ++ sampleUp 1 65003 0x0a000003 ++
      [calmStep 1 (.packet (.update (sampleUpdate [] [65003, 65009] [⟨0xc0000300, 24⟩]))),
        calmStep 0 (.packet (.update (sampleUpdate [] [65002] [⟨0xc0000200, 24⟩, ⟨0xc0000300, 24⟩]))),
        calmStep 0 .stop])

theorem observer_holds_best_sample : observed 7 sampleFollowed.trace ⟨.ipv4, ⟨0xc0000300, 24⟩⟩ =
    ((sampleFollowed.ribs.get .ipv4).bestExact ⟨0xc0000300, 24⟩).map (announcement .ipv4) :=
  (observer_holds_best (by simp) (by simp)
    (reach_permitted (fun _ _ => SharedStep.steady) .start (by decide +kernel))
    (flawless_of_trace (by decide +kernel))).1 .ipv4 _

end Sys

end Libbgp
