/-
What the subscribers and the peers know from the events and messages that reached them.
-/

import Libbgp.Proof.BestView
import Libbgp.Proof.Bus
import Libbgp.Proof.Publication

namespace Libbgp

open Library

/-- A follower of the events sets a prefix on ROUTE_ADDED and clears it on ROUTE_WITHDRAWN. -/
def Event.apply (view : View) : Event → View
  | .routeAdded af source pfx update => Function.update view ⟨af, pfx⟩ (some ⟨source, update⟩)
  | .routeWithdrawn af _ pfx => Function.update view ⟨af, pfx⟩ none
  | _ => view

theorem Event.apply_apply (view : View) (event : Event) : event.apply (event.apply view) = event.apply view := by
  cases event <;> simp [Event.apply]

/-- The event of a change of the best routes. -/
def RouteChange.event (peer : RouterId) : RouteChange → Event
  | .added af route => .routeAdded af route.sourceRouterId route.pfx (exportedMessage af route)
  | .withdrawn af pfx => .routeWithdrawn af peer pfx

@[simp] theorem RouteChange.event_apply (peer : RouterId) (change : RouteChange) (view : View) :
    (change.event peer).apply view = change.apply view := by
  cases change <;> rfl

/-- An event about a prefix names the source of the route that the prefix has. -/
def Event.passes (view : View) : Event → Bool
  | .routeAdded af source pfx _ => (view ⟨af, pfx⟩).all fun known => known.source == source
  | .routeWithdrawn af source pfx => (view ⟨af, pfx⟩).all fun known => known.source == source
  | _ => true

def Event.follow (event : Event) (view : View) : Option View :=
  if event.passes view then some (event.apply view) else none

def Obs.follow (obs : Obs) (view : Option View) : Option View :=
  match obs with
  | .published _ event => view.bind event.follow
  | _ => view

/-- The view that the published events describe, unless one of them moves a prefix to another source. -/
def followed (trace : List Moment) : Option View :=
  trace.foldr (fun moment => moment.obs.follow) (some fun _ => none)

/-- What an observation means to a subscriber. -/
def Obs.observedBy (number : Nat) (obs : Obs) (view : View) : View :=
  match obs with
  | .delivered other event => if other = number then event.apply view else view
  | _ => view

/-- What an observation means to the peer of a session: it forgets everything when the session ends. -/
def Obs.heldBy (index : Nat) (obs : Obs) (view : View) : View :=
  match obs with
  | .sent other (.announce af source pfx update _) =>
    if other = index then Function.update view ⟨af, pfx⟩ (some ⟨source, update⟩) else view
  | .sent other (.withdraw af pfx _) => if other = index then Function.update view ⟨af, pfx⟩ none else view
  | .closed other => if other = index then fun _ => none else view
  | _ => view

/-- The view of a subscriber who follows the events that are delivered to it. -/
def observed (number : Nat) (trace : List Moment) : View :=
  trace.foldr (fun moment => moment.obs.observedBy number) fun _ => none

/-- What the peer of a session holds from us. -/
def held (index : Nat) (trace : List Moment) : View :=
  trace.foldr (fun moment => moment.obs.heldBy index) fun _ => none

@[simp] theorem observed_cons (number : Nat) (moment : Moment) (trace : List Moment) :
    observed number (moment :: trace) = moment.obs.observedBy number (observed number trace) := rfl

@[simp] theorem held_cons (index : Nat) (moment : Moment) (trace : List Moment) :
    held index (moment :: trace) = moment.obs.heldBy index (held index trace) := rfl

theorem observed_news {number : Nat} {news : List Moment}
    (silent : ∀ moment ∈ news, ∀ view, moment.obs.observedBy number view = view) (trace : List Moment) :
    observed number (news ++ trace) = observed number trace := by
  induction news with
  | nil => rfl
  | cons moment rest ih =>
    rw [List.cons_append, observed_cons, silent moment List.mem_cons_self,
      ih fun other member => silent other (List.mem_cons_of_mem _ member)]

namespace Sys

/-- A session turns an event into a message to its peer. -/
def wants (fsm : Fsm) (event : Event) : Bool :=
  hears fsm event &&
    match event with
    | .routeAdded af source pfx update => fsm.exports af source pfx update
    | _ => true

/-- Someone is among the subscribers. -/
def listed (subs : List Subscriber) (target : Target) : Bool := subs.any fun sub => sub.target == target

theorem listed_append (first second : List Subscriber) (target : Target) :
    listed (first ++ second) target = (listed first target || listed second target) := List.any_append

/-- An event was delivered to some subscribers, and no message failed. -/
structure Told (follow : Option View → Option View) (subs : List Subscriber) (event : Event) (before after : Sys) :
    Prop where
  same : SameTables before after
  setup : Setup before after
  spent : before.alloc.Spent after.alloc
  news : followed after.trace = follow (followed before.trace)
  observers : ∀ number, observed number after.trace =
    if listed subs (.observer number) then event.apply (observed number before.trace) else observed number before.trace
  peers : before.alloc.Generous → ∀ index, held index after.trace =
    if listed subs (.session index) && wants (before.fsm index) event then event.apply (held index before.trace)
    else held index before.trace

section Told

variable {code : MessageCode} {fail : Fail} {event : Event} {sys before after : Sys}

/-- Two deliveries of one event: whoever is among both lists of subscribers only hears it again. -/
theorem apply_twice (first second : Bool) (view : View) :
    (if second then event.apply (if first then event.apply view else view)
      else if first then event.apply view else view) =
      if first || second then event.apply view else view := by
  cases first <;> cases second <;> simp [Event.apply_apply]

theorem Told.trans {first second : Option View → Option View} {earlier later : List Subscriber} {middle : Sys}
    (left : Told first earlier event before middle) (right : Told second later event middle after) :
    Told (fun view => second (first view)) (earlier ++ later) event before after where
  same := sameTables_bears.trans left.same right.same
  setup := left.setup.trans right.setup
  spent := left.spent.trans right.spent
  news := by rw [right.news, left.news]
  observers number := by
    rw [right.observers, left.observers, apply_twice, listed_append]
  peers generous index := by
    rw [right.peers (generous.spent left.spent), left.peers generous, left.same.2, apply_twice, listed_append,
      Bool.and_or_distrib_right]

theorem told_nothing (event : Event) {rest : Allocator} (spent : sys.alloc.Spent rest) :
    Told id [] event sys { sys with alloc := rest } :=
  ⟨⟨rfl, rfl⟩, ⟨rfl, rfl, fun _ => rfl⟩, spent, rfl, fun _ => rfl, fun _ _ => rfl⟩

/-- A session reacts to an event that it wants, and to no other. -/
theorem Reaction.told {sub : Subscriber} {index : Nat} (reaction : Reaction sys index event after)
    (target : sub.target = .session index) : Told id [sub] event sys after := by
  have observer : ∀ number, listed [sub] (.observer number) = false := by simp [listed, target]
  have session : ∀ other, listed [sub] (.session other) = decide (index = other) := by
    intro other
    rw [Bool.eq_iff_iff]
    simp [listed, target]
  have still : ∀ {rest}, sys.alloc.Spent rest →
      (sys.alloc.Generous → wants (sys.fsm index) event = false) →
        Told id [sub] event sys { sys with alloc := rest } := by
    intro rest spent unwanted
    refine ⟨⟨rfl, rfl⟩, ⟨rfl, rfl, fun _ => rfl⟩, spent, rfl, fun number => by simp [observer],
      fun generous other => ?_⟩
    rw [session]
    by_cases here : index = other
    · subst here
      simp [unwanted generous]
    · simp [here]
  cases reaction with
  | ignored event deaf => exact still (.refl _) fun _ => by simp [wants, deaf]
  | denied source pfx update rest receives spent refused =>
    refine still spent fun generous => ?_
    rcases refused with refused | forbidden
    · exact absurd refused generous.not_refused
    · simp [wants, forbidden]
  | announced source pfx update wire rest sends receives spent permitted =>
    refine ⟨⟨rfl, rfl⟩, ⟨rfl, rfl, fun _ => rfl⟩, spent, rfl, fun number => by simp [observer, Obs.observedBy],
      fun _ other => ?_⟩
    rw [session]
    by_cases here : index = other
    · subst here
      simp [wants, hears, receives, permitted, Obs.heldBy, Event.apply]
    · simp [here, Obs.heldBy]
  | withdrawn source pfx wire rest sends receives spent =>
    refine ⟨⟨rfl, rfl⟩, ⟨rfl, rfl, fun _ => rfl⟩, spent, rfl, fun number => by simp [observer, Obs.observedBy],
      fun _ other => ?_⟩
    rw [session]
    by_cases here : index = other
    · subst here
      simp [wants, hears, receives, Obs.heldBy, Event.apply]
    · simp [here, Obs.heldBy]

variable (torn : ∀ index generation sys, Soundly Grows sys (fail index generation sys))

include torn

/-- An event is delivered to one subscriber. -/
theorem deliver_told (sys : Sys) (event : Event) (sub : Subscriber) :
    Soundly (Cleanly (Told id [sub] event)) sys (deliver code fail event sys sub) := by
  intro sound
  unfold deliver
  split
  · rename_i index target
    rcases @routeEventCb_cases code fail sys index event with reaction | ⟨rest, sends, spent, failed⟩
    · have moved := reaction.told target
      exact ⟨sound.same moved.same.1, grows_closes.toBears.delivers.reaction reaction, fun _ => moved⟩
    · rw [failed]
      obtain ⟨soundNow, grows⟩ := torn index (sys.fsm index).sessionGeneration
        (Sys.observe { sys with alloc := rest, sends := sends } (.failed index .routeEvent)) sound
      refine ⟨soundNow, Grows.trans ⟨[_], rfl⟩ grows, fun clean => ?_⟩
      exact absurd ⟨_, List.mem_cons_self, rfl⟩ (grows.clean clean index)
  · rename_i number target
    refine ⟨sound, ⟨[_], rfl⟩,
      fun _ => ⟨⟨rfl, rfl⟩, ⟨rfl, rfl, fun _ => rfl⟩, .refl _, rfl, fun other => ?_, fun _ index => ?_⟩⟩
    · by_cases here : number = other
      · simp [listed, target, Obs.observedBy, here]
      · simp [listed, target, Obs.observedBy, here]
    · simp [listed, target, Obs.heldBy]

theorem deliverAll_told (subs : List Subscriber) (sys : Sys) :
    Soundly (Cleanly (Told id subs event)) sys (subs.foldl (deliver code fail event) sys) := by
  induction subs generalizing sys with
  | nil => exact fun sound => ⟨sound, ⟨[], rfl⟩, fun _ => told_nothing event (.refl _)⟩
  | cons sub rest ih =>
    intro sound
    obtain ⟨soundNext, head⟩ := @deliver_told code fail torn sys event sub sound
    obtain ⟨soundLast, tail⟩ := ih (deliver code fail event sys sub) soundNext
    exact ⟨soundLast, head.1.trans tail.1, fun clean => (head.2 (tail.1.clean clean)).trans (tail.2 clean)⟩

/-- With enough memory, an event reaches everyone who subscribed to it. -/
theorem publishEvent_told (generous : sys.alloc.Generous) (publisher : Nat) (event : Event) :
    Soundly (Cleanly (Told (fun view => view.bind event.follow) (sys.targets publisher event) event)) sys
      (sys.publishEvent code fail publisher event) := by
  intro sound
  simp only [publishEvent, publish]
  rcases reserveSnapshot_cases (sys.observe (.published publisher event))
      ((sys.observe (.published publisher event)).targets publisher event).length with
    ⟨rest, granted, spent⟩ | ⟨rest, denied, refused⟩
  · rw [granted]
    have told := @deliverAll_told code fail event torn (sys.targets publisher event)
      { sys.observe (.published publisher event) with alloc := rest } sound
    have recorded : Told (fun view => view.bind event.follow) [] event sys
        { sys.observe (.published publisher event) with alloc := rest } :=
      ⟨⟨rfl, rfl⟩, ⟨rfl, rfl, fun _ => rfl⟩, spent, rfl, fun _ => rfl, fun _ _ => rfl⟩
    exact ⟨told.1, Grows.trans ⟨[_], rfl⟩ told.2.1, fun clean => recorded.trans (told.2.2 clean)⟩
  · exact absurd refused (Allocator.Generous.not_refused generous)

end Told

/-- The subscribers of a change, published under one of two identifiers. -/
def audience (sys : Sys) (added withdrawn : Nat) (peer : RouterId) (change : RouteChange) : List Subscriber :=
  match change with
  | .added _ _ => sys.targets added (change.event peer)
  | .withdrawn _ _ => sys.targets withdrawn (change.event peer)

/-- One change is delivered to its audience. -/
theorem publishAs_told {code : MessageCode} {fail : Fail} {sys : Sys}
    (torn : ∀ index generation sys, Soundly Grows sys (fail index generation sys)) (generous : sys.alloc.Generous)
    {change : RouteChange} (exportable : ∀ af route, change = .added af route → Exportable af route)
    (added withdrawn : Nat) (peer : RouterId) :
    Soundly (Cleanly (Told (fun view => view.bind (change.event peer).follow) (sys.audience added withdrawn peer change)
      (change.event peer))) sys (publishAs code fail added withdrawn peer sys change) := by
  cases change with
  | added af route =>
    obtain ⟨rest, built, spent⟩ := (exportable af route rfl).exports generous
    intro sound
    simp only [publishAs, publishAdded, built]
    have told := @publishEvent_told code fail { sys with alloc := rest } torn (generous.spent spent) added
      (.routeAdded af route.sourceRouterId route.pfx (exportedMessage af route)) sound
    exact ⟨told.1, told.2.1, fun clean => (told_nothing _ spent).trans (told.2.2 clean)⟩
  | withdrawn af pfx => exact publishEvent_told torn generous withdrawn (.routeWithdrawn af peer pfx)

/-- A list of changes was published, and no message failed. -/
structure Broadcast (added withdrawn : Nat) (peer : RouterId) (changes : List RouteChange)
    (before after : Sys) : Prop where
  same : SameTables before after
  setup : Setup before after
  spent : before.alloc.Spent after.alloc
  news : followed after.trace = changes.foldl (fun view change => view.bind (change.event peer).follow)
    (followed before.trace)
  observers : ∀ number, observed number after.trace = changes.foldl (fun view change =>
    if listed (before.audience added withdrawn peer change) (.observer number) then change.apply view else view)
      (observed number before.trace)
  peers : ∀ index, held index after.trace = changes.foldl (fun view change =>
    if listed (before.audience added withdrawn peer change) (.session index) &&
      wants (before.fsm index) (change.event peer) then change.apply view else view) (held index before.trace)

theorem audience_setup {before after : Sys} (setup : Setup before after) (added withdrawn : Nat) (peer : RouterId)
    (change : RouteChange) :
      after.audience added withdrawn peer change = before.audience added withdrawn peer change := by
  cases change <;> simp only [audience, targets, setup.subs]

/-- A list of changes is delivered to its audience. -/
theorem publishAll_broadcast {code : MessageCode} {fail : Fail} {sys : Sys}
    (torn : ∀ index generation sys, Soundly Grows sys (fail index generation sys)) (generous : sys.alloc.Generous)
    {changes : List RouteChange} (exportable : ∀ af route, .added af route ∈ changes → Exportable af route)
    (added withdrawn : Nat) (peer : RouterId) :
    Soundly (Cleanly (Broadcast added withdrawn peer changes)) sys
      (changes.foldl (publishAs code fail added withdrawn peer) sys) := by
  induction changes generalizing sys with
  | nil => exact fun sound =>
    ⟨sound, ⟨[], rfl⟩, fun _ => ⟨⟨rfl, rfl⟩, .refl sys, .refl _, rfl, fun _ => rfl, fun _ => rfl⟩⟩
  | cons change rest ih =>
    intro sound
    obtain ⟨soundNext, head⟩ := @publishAs_told code fail sys torn generous change
      (fun af route same => exportable af route (same ▸ List.mem_cons_self)) added withdrawn peer sound
    obtain ⟨soundLast, grows, -⟩ := @publishAll_same code fail torn added withdrawn peer rest _ soundNext
    refine ⟨soundLast, head.1.trans grows, fun clean => ?_⟩
    have told := head.2 (grows.clean clean)
    have later := (ih (generous.spent told.spent) (fun af route member =>
      exportable af route (List.mem_cons_of_mem _ member)) soundNext).2.2 clean
    refine ⟨sameTables_bears.trans told.same later.same, told.setup.trans later.setup, told.spent.trans later.spent,
      by rw [List.foldl_cons, List.foldl_cons, later.news, told.news], fun number => ?_, fun index => ?_⟩
    · simp only [List.foldl_cons, later.observers, told.observers, audience_setup told.setup, RouteChange.event_apply]
    · simp only [List.foldl_cons, later.peers, told.peers generous, audience_setup told.setup, told.same.2,
        RouteChange.event_apply]

end Sys

end Libbgp
