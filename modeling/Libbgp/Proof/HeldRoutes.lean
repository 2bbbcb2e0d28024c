/-
What the peers hold from us are best routes, as long as no prefix passes from one source to another.
-/

import Libbgp.Proof.BestChanges

namespace Libbgp

open Library

/-- A filter that looks at nothing but the prefix of a route. -/
def Filter.ByPrefix (filter : Filter) : Prop :=
  ∀ (af : Af) (first second : Route af.family.width), first.pfx = second.pfx →
    filter.permits first = filter.permits second

/-- The cached routes are the best ones of their prefixes. -/
def Ribs.CachesBest (ribs : Ribs) : Prop :=
  ∀ af net entry, (ribs.get af).lpm.bestAt net = some entry → (ribs.get af).bestExact entry.pfx = some entry

/-- The outbound filter of a session lets every route to a prefix pass. -/
def Fsm.Admits (fsm : Fsm) (af : Af) (pfx : Prefix af.family.width) : Prop :=
  ∀ route, Exportable af route → route.pfx = pfx →
    fsm.exports af route.sourceRouterId pfx (exportedMessage af route) = true

/-- The outbound filters of a session decide by the prefix. -/
def Fsm.FiltersPrefixes (fsm : Fsm) : Prop :=
  ∀ af, ∃ filter : Option Filter, (fsm.params.outFilter af = filter.map fun filter => filter.permits) ∧
    ∀ rules ∈ filter, rules.ByPrefix

/-- A filter by prefix that passes one route passes all to its prefix. -/
theorem Fsm.FiltersPrefixes.admits {fsm : Fsm} (filters : fsm.FiltersPrefixes) {af : Af} {route : Route af.family.width}
    (exportable : Exportable af route)
    (permitted : fsm.exports af route.sourceRouterId route.pfx (exportedMessage af route) = true) :
    fsm.Admits af route.pfx := by
  obtain ⟨filter, configured, byPrefix⟩ := filters af
  rw [exportable.exports_eq fsm _ configured] at permitted
  intro other otherExportable place
  rw [← place, otherExportable.exports_eq fsm _ configured]
  cases filter with
  | none => rfl
  | some rules =>
    rw [Option.all_some, byPrefix rules rfl af other route place]
    exact permitted

namespace RouteChange

variable {peer : RouterId} {changes rest : List RouteChange} {change : RouteChange} {view : View} {key : Key}
  {known : Announcement}

/-- The source that the event of a change names. -/
def source (peer : RouterId) : RouteChange → RouterId
  | .added _ route => route.sourceRouterId
  | .withdrawn _ _ => peer

/-- No change moves a prefix to another source than the one that it has. -/
def Direct (peer : RouterId) : List RouteChange → View → Prop
  | [], _ => True
  | change :: rest, view =>
    (∀ known, view change.key = some known → known.source = change.source peer) ∧ Direct peer rest (change.apply view)

theorem follow_event {last : View} (follows : (change.event peer).follow view = some last) :
    (∀ known, view change.key = some known → known.source = change.source peer) ∧ change.apply view = last := by
  rw [Event.follow] at follows
  split at follows
  · rename_i passes
    refine ⟨fun known held => ?_, by rw [← event_apply peer]; exact Option.some.inj follows⟩
    cases change <;> simpa [event, Event.passes, source, show view ⟨_, _⟩ = some known from held] using passes
  · cases follows

/-- Whoever follows the events to their end has applied all changes, and they are direct. -/
theorem follow_direct {start : Option View} {last : View}
    (follows : changes.foldl (fun view change => view.bind (change.event peer).follow) start = some last) :
    ∃ view, start = some view ∧ Direct peer changes view ∧ changes.foldl apply view = last := by
  induction changes generalizing start with
  | nil => exact ⟨last, follows, trivial, rfl⟩
  | cons change rest ih =>
    obtain ⟨next, followed, direct, result⟩ := ih follows
    obtain ⟨view, begins, taken⟩ := Option.bind_eq_some_iff.mp followed
    obtain ⟨names, rfl⟩ := follow_event taken
    exact ⟨view, begins, ⟨names, direct⟩, result⟩

/-- A route of another source stays the one of its prefix, or is replaced by one of the same source. -/
theorem Direct.keeps (direct : Direct peer changes view) (start : view key = some known)
    (foreign : known.source ≠ peer) :
    ∃ later, changes.foldl apply view key = some later ∧ later.source = known.source := by
  induction changes generalizing view known with
  | nil => exact ⟨known, start, rfl⟩
  | cons change rest ih =>
    obtain ⟨names, direct⟩ := direct
    by_cases here : change.key = key
    · subst here
      have same := names known start
      cases change with
      | added af route =>
        obtain ⟨later, found, source⟩ := ih direct (Function.update_self _ _ _) fun own => foreign (same.trans own)
        exact ⟨later, found, source.trans same.symm⟩
      | withdrawn af pfx => exact absurd same foreign
    · refine ih direct ?_ foreign
      rw [apply, Function.update_of_ne (Ne.symm here)]
      exact start

/-- The peer of a session holds at most what a view has, and what the session would pass on. -/
def Agrees (fsm : Fsm) (key : Key) (view held : View) : Prop :=
  ∀ known, held key = some known → view key = some known ∧ fsm.receives key.1 known.source = true ∧
    fsm.Admits key.1 key.2

/-- One change keeps what a peer holds within the view. -/
theorem Agrees.apply {fsm : Fsm} {held : View} (agrees : Agrees fsm key view held) (filters : fsm.FiltersPrefixes)
    (exportable : ∀ af route, change = .added af route → Exportable af route)
    (names : ∀ known, view change.key = some known → known.source = change.source peer) :
    Agrees fsm key (change.apply view) (if Sys.wants fsm (change.event peer) then change.apply held else held) := by
  intro known value
  by_cases here : change.key = key
  · subst here
    -- An event that the session does not pass on is not about a route that its peer holds.
    have refused : Sys.wants fsm (change.event peer) = false → held change.key ≠ some known := by
      intro unwanted old
      obtain ⟨same, receives, admits⟩ := agrees known old
      rw [names known same] at receives
      cases change with
      | added af route =>
        rw [event, Sys.wants_added, Bool.and_eq_false_iff] at unwanted
        rcases unwanted with deaf | forbidden
        · cases deaf.symm.trans receives
        · cases forbidden.symm.trans (admits route (exportable af route rfl) rfl)
      | withdrawn af pfx =>
        rw [event, Sys.wants_withdrawn] at unwanted
        cases unwanted.symm.trans receives
    split at value
    · rename_i wanted
      rw [RouteChange.apply, Function.update_self] at value ⊢
      cases change with
      | added af route =>
        rw [event, Sys.wants_added, Bool.and_eq_true] at wanted
        cases value
        exact ⟨rfl, wanted.1, filters.admits (exportable af route rfl) wanted.2⟩
      | withdrawn af pfx => cases value
    · rename_i unwanted
      exact absurd value (refused (Bool.eq_false_iff.mpr unwanted))
  · have old : ∀ view, change.apply view key = view key := fun view => Function.update_of_ne (Ne.symm here) _ _
    rw [old]
    refine agrees known ?_
    split at value
    · exact (old held).symm.trans value
    · exact value

/-- The peer of a session that hears of all direct changes holds at most what they end with. -/
theorem Direct.agrees {fsm : Fsm} {held : View} (direct : Direct peer changes view) (filters : fsm.FiltersPrefixes)
    (exportable : ∀ af route, .added af route ∈ changes → Exportable af route) (agrees : Agrees fsm key view held) :
    Agrees fsm key (changes.foldl apply view)
      (changes.foldl (fun held change => if Sys.wants fsm (change.event peer) then change.apply held
        else held) held) := by
  induction changes generalizing view held with
  | nil => exact agrees
  | cons change rest ih =>
    exact ih direct.2 (fun af route member => exportable af route (List.mem_cons_of_mem _ member))
      (agrees.apply filters (fun af route same => exportable af route (same ▸ List.mem_cons_self)) direct.1)

end RouteChange

namespace Sys

variable {code : MessageCode} {index : Nat} {call : Call} {sys before middle after : Sys}
  {key : Key} {known : Announcement} {af : Af}

/-- What a peer holds is the best route of its prefix, and what the session would pass on. -/
structure Held (sys : Sys) (index : Nat) (key : Key) (known : Announcement) : Prop where
  present : index < sys.count
  best : bestView sys.ribs key = some known
  receives : (sys.fsm index).receives key.1 known.source = true
  admits : (sys.fsm index).Admits key.1 key.2

def Holding (sys : Sys) : Prop := ∀ index key known, held index sys.trace key = some known → sys.Held index key known

theorem Held.same (held : before.Held index key known) (count : after.count = before.count)
    (best : bestView after.ribs key = bestView before.ribs key)
    (same : (before.fsm index).SameSession (after.fsm index)) : after.Held index key known := by
  refine ⟨by rw [count]; exact held.present, best.trans held.best, ?_, ?_⟩
  · rw [same]
    exact held.receives
  · rw [same]
    exact held.admits

/-- What a view has as the best route of a prefix is a stored route of its source. -/
theorem bestView_stored (sound : sys.Sound) (best : bestView sys.ribs key = some known) :
    ((sys.ribs.get key.1).routeAt known.source key.2).map (fun route => ⟨known.source, exportedMessage key.1 route⟩) =
      some known := by
  obtain ⟨entry, found, rfl⟩ := Option.map_eq_some_iff.mp best
  rw [show (announcement key.1 entry).source = entry.source from rfl, RibImpl.bestExact_routeAt (sound key.1) found]
  rfl

section Broadcast

variable {added withdrawn : Nat} {peer : RouterId} {changes : List RouteChange}

/-- What is published under these identifiers reaches all sessions but those with the peer itself. -/
def Reaches (added withdrawn : Nat) (peer : RouterId) (sys : Sys) : Prop := ∀ index < sys.count,
  (∀ change, listed (sys.audience added withdrawn peer change) (.session index) = true) ∨
    (∀ change, listed (sys.audience added withdrawn peer change) (.session index) = false) ∧
      ∀ af, (sys.fsm index).receives af peer = false

theorem Broadcast.direct (published : Broadcast added withdrawn peer changes before after)
    (direct : (followed after.trace).isSome = true) : (followed before.trace).isSome = true := by
  obtain ⟨last, followed⟩ := Option.isSome_iff_exists.mp direct
  obtain ⟨view, begins, -⟩ := RouteChange.follow_direct (published.news.symm.trans followed)
  rw [begins]
  rfl

/-- The changes of one source keep what the peers hold up to date. -/
theorem Holding.broadcast (holding : Holding before) (published : Broadcast added withdrawn peer changes middle after)
    (soundBefore : before.Sound) (sound : middle.Sound) (wired : middle.Wired) (setup : Setup before middle)
    (same : ∀ index, (before.fsm index).SameSession (middle.fsm index))
    (filters : ∀ index, (middle.fsm index).FiltersPrefixes)
    (trace : middle.trace = before.trace) (direct : RouteChange.Direct peer changes (bestView before.ribs))
    (explained : changes.foldl RouteChange.apply (bestView before.ribs) = bestView middle.ribs)
    (exportable : ∀ af route, .added af route ∈ changes → Exportable af route)
    (foreign : ∀ af source, source ≠ peer → (middle.ribs.get af).routeAt source = (before.ribs.get af).routeAt source)
    (hears : Reaches added withdrawn peer middle) : Holding after := by
  intro index key known value
  have later : middle.Held index key known → after.Held index key known := fun held =>
    held.same published.setup.count (by rw [published.same.1]) (by rw [published.same.2]; exact .refl _)
  refine later ?_
  rw [published.peers index, trace] at value
  have start : RouteChange.Agrees (middle.fsm index) key (bestView before.ribs) (held index before.trace) := by
    intro known old
    have held := holding index key known old
    rw [same]
    exact ⟨held.best, held.receives, held.admits⟩
  by_cases present : index < middle.count
  · rcases hears index present with hears | ⟨deaf, own⟩
    · simp only [hears, Bool.true_and] at value
      obtain ⟨best, receives, admits⟩ := direct.agrees (filters index) exportable start known value
      exact ⟨present, explained ▸ best, receives, admits⟩
    · rw [RouteChange.foldl_barred _ fun change _ _ => by rw [deaf, Bool.false_and]] at value
      obtain ⟨best, receives, admits⟩ := start known value
      have other : known.source ≠ peer := fun mine => by
        rw [mine, own] at receives
        cases receives
      obtain ⟨last, found, source⟩ := direct.keeps best other
      rw [explained] at found
      have stored := bestView_stored sound found
      rw [source, foreign _ _ other, bestView_stored soundBefore best] at stored
      exact ⟨present, found.trans stored.symm, receives, admits⟩
  · have absent : ∀ change, listed (middle.audience added withdrawn peer change) (.session index) = false := by
      intro change
      by_contra hears
      refine present ?_
      cases change with
      | _ => exact listed_present wired (Bool.eq_true_of_not_eq_false hears)
    rw [RouteChange.foldl_barred _ fun change _ _ => by rw [absent, Bool.false_and]] at value
    exact absurd (setup.count ▸ (holding index key known value).present) present

end Broadcast

/-- A system between the parts of a call whose events have told the best routes. -/
structure Tidy (sys : Sys) : Prop extends Orderly sys where
  filters : ∀ index, (sys.fsm index).FiltersPrefixes
  holding : sys.Holding
  news : followed sys.trace = some (bestView sys.ribs)

theorem filtersPrefixes_setup (filters : ∀ index, (before.fsm index).FiltersPrefixes) (setup : Setup before after)
    (index : Nat) : (after.fsm index).FiltersPrefixes := by
  unfold Fsm.FiltersPrefixes
  rw [setup.params]
  exact filters index

theorem Aside.tidy (aside : Aside before after) (tidy : Tidy before) : Tidy after := by
  refine ⟨aside.orderly tidy.toOrderly, filtersPrefixes_setup tidy.filters aside.setup, ?_, ?_⟩
  · intro index key known value
    rcases aside.sessions index with ⟨same, kept⟩ | ⟨down, -, kept | empty⟩
    · rw [kept] at value
      exact (tidy.holding index key known value).same aside.setup.count (by rw [aside.ribs]) same
    · rw [kept] at value
      exact absurd (Fsm.receives_iff.mp (tidy.holding index key known value).receives).1.1 down
    · rw [empty] at value
      cases value
  · rw [aside.news, aside.ribs]
    exact tidy.news

/-- Published changes that explain the new tables leave everything tidy. -/
theorem Tidy.broadcast {added withdrawn : Nat} {peer : RouterId} {changes : List RouteChange} (tidy : Tidy before)
    (published : Broadcast added withdrawn peer changes middle after) (sound : middle.Sound)
    (uniform : middle.ribs.Uniform) (setup : Setup before middle)
    (same : ∀ index, (before.fsm index).SameSession (middle.fsm index)) (trace : middle.trace = before.trace)
    (explained : changes.foldl RouteChange.apply (bestView before.ribs) = bestView middle.ribs)
    (exportable : ∀ af route, .added af route ∈ changes → Exportable af route)
    (foreign : ∀ af source, source ≠ peer → (middle.ribs.get af).routeAt source = (before.ribs.get af).routeAt source)
    (hears : Reaches added withdrawn peer middle) (direct : (followed after.trace).isSome = true) : Tidy after := by
  have wired := tidy.wired.setup setup
  have filters := filtersPrefixes_setup tidy.filters setup
  obtain ⟨last, follows⟩ := Option.isSome_iff_exists.mp direct
  have news := published.news.symm.trans follows
  rw [trace, tidy.news] at news
  obtain ⟨view, begins, steps, rfl⟩ := RouteChange.follow_direct news
  cases begins
  refine ⟨⟨sound.same published.same.1, wired.setup published.setup, ?_⟩, filtersPrefixes_setup filters published.setup,
    ?_, ?_⟩
  · rw [published.same.1]
    exact uniform
  · exact tidy.holding.broadcast published tidy.sound sound wired setup same filters trace steps explained
      exportable foreign hears
  · rw [follows, explained, published.same.1]

theorem close_tidy (tidy : Tidy sys) : Tidy (sys.snapshotTeardown index) := by
  have setup := setup_closes.close sys index
  refine ⟨⟨tidy.sound, tidy.wired.setup setup, tidy.uniform⟩, filtersPrefixes_setup tidy.filters setup, ?_, tidy.news⟩
  intro other key known value
  simp only [snapshotTeardown, observe, held_cons, Obs.heldBy] at value
  split at value
  · cases value
  · rename_i different
    have same : (sys.snapshotTeardown index).fsm other = sys.fsm other := modify_fsm_other _ _ _ (Ne.symm different)
    exact (tidy.holding other key known value).same rfl rfl (by rw [same]; exact .refl _)

theorem Phase.direct (phase : Phase index before after) (direct : (followed after.trace).isSome = true) :
    (followed before.trace).isSome = true := by
  cases phase with
  | aside aside => rwa [aside.news] at direct
  | ended live => exact direct
  | discarded af peer rib rest result discarded report published => exact published.direct direct

/-- The loss of a source takes its prefixes from all peers. -/
theorem Phase.tidy (phase : Phase index before after) (tidy : Tidy before)
    (direct : (followed after.trace).isSome = true) : Tidy after := by
  cases phase with
  | aside aside => exact aside.tidy tidy
  | ended live => exact close_tidy tidy
  | discarded af peer rib rest result discarded report published exportable =>
    have setup : Setup before { before with ribs := before.ribs.set af rib, alloc := rest } := ⟨rfl, rfl, fun _ => rfl⟩
    refine tidy.broadcast published (sound_set tidy.sound discarded.invariant rest)
      (uniform_discarded tidy.uniform discarded)
      setup (fun _ => .refl _) rfl (discardChanges_explain (tidy.sound af) tidy.uniform discarded report) exportable ?_
      (fun _ present => .inl (audience_everyone (tidy.wired.setup setup) present)) direct
    intro other source different
    by_cases here : other = af
    · subst here
      simp only [Ribs.get_set]
      exact discarded.routeAt_other (tidy.sound other) different
    · simp only [Ribs.get_set_of_ne _ here]

/-- An UPDATE that moves no prefix from another source to its sender keeps what the peers hold up to date. -/
theorem Updated.tidy {update : UpdateMsg} {state : Applying} (updated : Updated code index update state before after)
    (tidy : Tidy before) (exporting : before.Exporting) (present : index < before.count)
    (identified : (before.fsm index).peerBgpId ≠ 0) (uniform : after.ribs.Uniform)
    (direct : (followed after.trace).isSome = true) : Tidy after := by
  obtain ⟨subcode, done⟩ := updated.done
  have setup := setup_applied before index state
  obtain ⟨sound, foreign⟩ := applied_tables tidy.sound done
  have session : ∀ other, (before.fsm other).SameSession ((before.storeApplied index state).fsm other) := by
    intro other
    by_cases here : other = index
    · subst here
      rw [modify_fsm_self]
      exact Fsm.markRxCurrent_same _
    · rw [modify_fsm_other _ _ _ here]
      exact .refl _
  rw [updated.published.same.1] at uniform
  refine tidy.broadcast updated.published sound uniform setup session rfl
    (Fsm.applyUpdate_explains tidy.sound done tidy.uniform uniform)
    (Fsm.applyUpdate_routes tidy.sound done exporting fun valid af announced member counter =>
      (valid.exportable (before.fsm index) member).clone counter).2 foreign (fun listener inside => ?_) direct
  by_cases here : listener = index
  · subst here
    refine .inr ⟨audience_own tidy.wired setup, fun af => Bool.eq_false_iff.mpr fun receives => ?_⟩
    rw [session listener] at receives
    rcases (Fsm.receives_iff.mp receives).1.2 with zero | other
    · exact identified zero
    · exact other rfl
  · exact .inl (audience_others tidy.wired setup present inside here)

/-- A session that has just come up, and whose peer is told about the table. -/
structure Introduced (index : Nat) (sys : Sys) : Prop where
  tidy : Tidy sys
  exporting : sys.Exporting
  caches : sys.ribs.CachesBest
  present : index < sys.count
  live : (sys.fsm index).state = .established

/-- A message of the first advertisement keeps the invariant. -/
theorem Advertising.tidy (taken : Advertising index before after) (advertised : Introduced index before) :
    Introduced index after := by
  cases taken with
  | quiet taken =>
    have aside := Still.aside (.single taken)
    refine ⟨aside.tidy advertised.tidy, advertised.exporting.same aside.ribs, ?_,
      by rw [aside.setup.count]; exact advertised.present, ?_⟩
    · rw [aside.ribs]
      exact advertised.caches
    · rw [taken.same index]
      exact advertised.live
  | sent af entry update wire middle rest sends negotiated cached chosen built spent =>
    obtain ⟨⟨sound, wired, uniform⟩, filters, holding, news⟩ := advertised.tidy
    have best := advertised.caches af _ entry cached
    have exportable := advertised.exporting af _ _ _ (RibImpl.bestExact_routeAt (sound af) best)
    refine ⟨⟨⟨sound, wired.setup ⟨rfl, rfl, fun _ => rfl⟩, uniform⟩, filters, ?_, news⟩, advertised.exporting,
      advertised.caches, advertised.present, advertised.live⟩
    intro other key known value
    simp only [observe, held_cons, Obs.heldBy] at value
    have kept : held other before.trace key = some known → Held (observe { before with alloc := rest, sends := sends }
        (.sent index (.announce af entry.source entry.pfx update wire))) other key known := fun value =>
      (holding other key known value).same rfl rfl (.refl _)
    split at value
    · rename_i here
      subst here
      by_cases place : key = ⟨af, entry.pfx⟩
      · subst place
        rw [Function.update_self] at value
        cases value
        simp only [advertises, Bool.and_eq_true, bne_iff_ne] at chosen
        obtain ⟨filter, configured, -⟩ := filters index af
        have permitted : (before.fsm index).exports af entry.route.sourceRouterId entry.route.pfx
            (exportedMessage af entry.route) = true := by
          have verdict := chosen.2
          rw [configured] at verdict
          rw [exportable.exports_eq (before.fsm index) _ configured]
          cases filter with
          | none => rfl
          | some rules => exact verdict
        refine ⟨advertised.present, ?_, Fsm.receives_iff.mpr ⟨⟨advertised.live, .inr chosen.1.1⟩, negotiated⟩,
          (filters index).admits exportable permitted⟩
        rw [exportable.message built]
        exact congrArg _ best
      · rw [Function.update_of_ne place] at value
        exact kept value
    · exact kept value

/-- A session that comes up tells its peer the best routes. -/
theorem Rises.tidy {confirmed walked : Sys} (rises : Rises index before walked confirmed) (tidy : Tidy before)
    (exporting : before.Exporting) (caches : before.ribs.CachesBest)
    (present : index < before.count) : Tidy walked := by
  have aside := rises.ready.aside
  obtain ⟨⟨sound, wired, uniform⟩, filters, holding, news⟩ := aside.tidy tidy
  have setup := setup_modify confirmed index Fsm.establish (by simp [Fsm.establish])
  have tables : (confirmed.modify index Fsm.establish).ribs = before.ribs := aside.ribs
  have risen : Introduced index (confirmed.modify index Fsm.establish) := by
    refine ⟨⟨⟨sound, wired.setup setup, uniform⟩, filtersPrefixes_setup filters setup, ?_, news⟩,
      exporting.same tables, ?_, ?_, ?_⟩
    · intro other key known value
      have held := holding other key known value
      have different : other ≠ index := by
        rintro rfl
        cases (Fsm.receives_iff.mp held.receives).1.1.symm.trans rises.confirming
      exact held.same rfl rfl (by rw [modify_fsm_other _ _ _ different]; exact .refl _)
    · rw [tables]
      exact caches
    · exact lt_of_lt_of_eq present aside.setup.count.symm
    · rw [modify_fsm_self]
      simp [Fsm.establish]
  have walk : ∀ {first last}, Relation.ReflTransGen (Advertising index) first last → Introduced index first →
      Introduced index last := by
    intro first last chain start
    induction chain with
    | refl => exact start
    | tail _ taken ih => exact taken.tidy ih
  exact (walk rises.walked risen).tidy

/-- What a call does leaves every peer with best routes. -/
theorem Smooth.tidy (smooth : Smooth code index call before after) (tidy : Tidy before) (exporting : before.Exporting)
    (caches : before.ribs.CachesBest) (present : index < before.count)
    (identified : (before.fsm index).state = .established → (before.fsm index).peerBgpId ≠ 0)
    (uniform : after.ribs.Uniform) (direct : (followed after.trace).isSome = true) : Tidy after := by
  cases smooth with
  | phases chain =>
    clear uniform
    induction chain with
    | refl => exact tidy
    | tail _ phase ih => exact phase.tidy (ih (phase.direct direct)) direct
  | updated middle last update state asked early sound updated late =>
    rw [late.ribs] at uniform
    rw [late.news] at direct
    exact late.tidy (updated.tidy (early.tidy tidy) (exporting.same early.ribs)
      (by rw [early.setup.count]; exact present) (updated.identified early identified) uniform direct)
  | risen confirmed walked rises late => exact late.tidy (rises.tidy tidy exporting caches present)

/-- A call with enough memory, after which MED always counts and the cached routes are the best ones. -/
def Caching (code : MessageCode) (sys : Sys) (step : Step) : Prop :=
  Steady code sys step ∧ (sys.step code step).ribs.CachesBest

/-- An event that moves a prefix is not forgotten. -/
theorem Grows.direct (grows : Grows before after) (direct : (followed after.trace).isSome = true) :
    (followed before.trace).isSome = true := by
  obtain ⟨news, trace⟩ := grows
  rw [trace] at direct
  clear trace
  induction news with
  | nil => exact direct
  | cons moment rest ih =>
    have last : (moment.obs.follow (followed (rest ++ before.trace))).isSome = true := direct
    unfold Obs.follow at last
    split at last
    · exact ih (Option.isSome_of_isSome_bind last)
    · exact ih last

section Runs

variable {members : List Member} {step : Step}

theorem init_filtersPrefixes
    (filters : ∀ params, Member.session params ∈ members → (Fsm.init params).FiltersPrefixes) (index : Nat) :
    ((init members).fsm index).FiltersPrefixes := by
  have joined : ∀ (members : List Member) (sys : Sys),
      (∀ params, Member.session params ∈ members → (Fsm.init params).FiltersPrefixes) →
      (∀ index, (sys.fsm index).FiltersPrefixes) → ∀ index, ((members.foldl attach sys).fsm index).FiltersPrefixes := by
    intro members
    induction members with
    | nil => exact fun sys _ known => known
    | cons member rest ih =>
      intro sys configured known
      refine ih _ (fun params later => configured params (List.mem_cons_of_mem _ later)) fun index => ?_
      cases member with
      | observer number type => exact known index
      | session params =>
        by_cases here : index = sys.count
        · subst here
          simp only [attach, Function.update_self]
          exact configured params List.mem_cons_self
        · simp only [attach, Function.update_of_ne here]
          exact known index
  exact joined members empty filters (fun _ _ => ⟨none, rfl, by simp⟩) index

theorem init_tidy (filters : ∀ params, Member.session params ∈ members → (Fsm.init params).FiltersPrefixes) :
    Tidy (init members) := by
  refine ⟨⟨init_sound members, init_wired members, init_uniform members⟩, init_filtersPrefixes filters, ?_, ?_⟩
  · intro index key known value
    rw [(init_fresh members).trace] at value
    cases value
  · rw [(init_fresh members).trace, init_bestView]
    rfl

theorem init_caches (members : List Member) : (init members).ribs.CachesBest := by
  intro af net entry cached
  have member := ((init_sound members af).lpm.best_linked cached).1
  have stored := (init_sound members af).routeAt_eq_some_iff.mpr ⟨entry, member, rfl, rfl, rfl⟩
  rw [init_routeAt] at stored
  cases stored

/-- The invariant holds along every run of the kind. -/
theorem Reach.tidy (filters : ∀ params, Member.session params ∈ members → (Fsm.init params).FiltersPrefixes)
    (reached : Reach code (Caching code) (fun _ _ => False) (init members) sys) (flawless : sys.Flawless)
    (direct : (followed sys.trace).isSome = true) : Tidy sys ∧ sys.Exporting ∧ sys.ribs.CachesBest := by
  induction reached with
  | start => exact ⟨init_tidy filters, init_exporting members, init_caches members⟩
  | @call sys step reached permitted ih =>
    have grows := @step_grows code sys step (reached.sound (init_sound members))
    obtain ⟨tidy, exporting, caches⟩ := ih (grows.flawless flawless) (grows.direct direct)
    rcases @step_cases code sys tidy.sound step with ⟨present, acts⟩ | same
    · obtain ⟨exportingNow, smooth⟩ := acts.smooth tidy.sound permitted.1.1 exporting flawless
      have answered : Tidy (sys.answer step) :=
        ⟨⟨tidy.sound, tidy.wired.setup ⟨rfl, rfl, fun _ => rfl⟩, tidy.uniform⟩, tidy.filters,
          fun index key known value => (tidy.holding index key known value).same rfl rfl (.refl _), tidy.news⟩
      exact ⟨smooth.tidy answered exporting caches present reached.identified permitted.1.2 direct,
        exportingNow, permitted.2⟩
    · rw [same]
      exact ⟨tidy, exporting, caches⟩
  | write ribs _ impossible => exact impossible.elim

/-- In every run in which nothing fails, no outbound filter looks at more than the prefix, MED always counts,
the cached routes are the best ones, and no event moves a prefix from one source to another, a peer holds only
best routes from us. -/
theorem held_route_best {af : Af} {pfx : Prefix af.family.width} {known : Announcement}
    (filters : ∀ params, Member.session params ∈ members → (Fsm.init params).FiltersPrefixes)
    (reached : Reach code (Caching code) (fun _ _ => False) (init members) sys) (flawless : sys.Flawless)
    (direct : (followed sys.trace).isSome = true) (holds : held index sys.trace ⟨af, pfx⟩ = some known) :
    ((sys.ribs.get af).bestExact pfx).map (announcement af) = some known :=
  ((reached.tidy filters flawless direct).1.holding index ⟨af, pfx⟩ known holds).best

/-- A finite test for the steps of a sample. -/
def CachingStep (code : MessageCode) (sys : Sys) (step : Step) : Prop :=
  SharedStep code sys step ∧ ∀ af ∈ [Af.ipv4, Af.ipv6], ∀ group ∈ ((sys.step code step).ribs.get af).lpm.groups.entries,
    ∀ entry ∈ group.best, ((sys.step code step).ribs.get af).bestExact entry.pfx = some entry

instance (sys : Sys) (step : Step) : Decidable (CachingStep code sys step) := inferInstanceAs (Decidable (_ ∧ _))

theorem CachingStep.caching (checked : CachingStep code sys step) : Caching code sys step := by
  refine ⟨checked.1.steady, fun af net entry cached => ?_⟩
  obtain ⟨group, found, best⟩ := Option.bind_eq_some_iff.mp cached
  have member := Hashmap.mem_entries_of_mem_chain (List.mem_of_find?_eq_some found)
  exact checked.2 af (by cases af <;> simp) group member entry best

theorem held_route_best_sample : (held 1 sampleOutdone.trace ⟨.ipv4, ⟨0xc0000200, 24⟩⟩).isSome = true ∧
    held 1 sampleOutdone.trace ⟨.ipv4, ⟨0xc0000200, 24⟩⟩ =
      ((sampleOutdone.ribs.get .ipv4).bestExact ⟨0xc0000200, 24⟩).map (announcement .ipv4) := by
  have told : (held 1 sampleOutdone.trace ⟨.ipv4, ⟨0xc0000200, 24⟩⟩).isSome = true := by decide +kernel
  obtain ⟨known, holds⟩ := Option.isSome_iff_exists.mp told
  refine ⟨told, holds.trans (Eq.symm ?_)⟩
  refine @held_route_best libbgpCode 1 sampleOutdone
    [.session (sampleParams 65002), .session (sampleParams 65003)] .ipv4 _ known
    ?_ (reach_permitted (fun _ _ => CachingStep.caching) .start (by decide +kernel))
    (flawless_of_trace (by decide +kernel)) (by decide +kernel) holds
  intro params member af
  simp only [List.mem_cons, Member.session.injEq, List.not_mem_nil, or_false] at member
  rcases member with rfl | rfl <;> exact ⟨none, rfl, by simp⟩

/-- The first neighbour announces a better route than the one it holds from us. Its session does not hear its
own event, and would ignore a route of its own peer, so the neighbour keeps the route that is not the best one. -/
theorem held_route_overtaken :
    ((sampleOvertaken.ribs.get .ipv4).bestExact ⟨0xc0000200, 24⟩).map RouteEntry.source = some 0x0a000002 ∧
    (held 0 sampleOvertaken.trace ⟨.ipv4, ⟨0xc0000200, 24⟩⟩).map Announcement.source = some 0x0a000003 ∧
    (sampleOvertaken.fsm 0).state = .established ∧ (∀ moment ∈ sampleOvertaken.trace, fails moment.obs = false) ∧
    held 0 sampleOvertaken.trace ⟨.ipv4, ⟨0xc0000200, 24⟩⟩ ≠
      ((sampleOvertaken.ribs.get .ipv4).bestExact ⟨0xc0000200, 24⟩).map (announcement .ipv4) := by
  have best : ((sampleOvertaken.ribs.get .ipv4).bestExact ⟨0xc0000200, 24⟩).map RouteEntry.source =
      some 0x0a000002 := by
    decide +kernel
  have holds : (held 0 sampleOvertaken.trace ⟨.ipv4, ⟨0xc0000200, 24⟩⟩).map Announcement.source = some 0x0a000003 := by
    decide +kernel
  refine ⟨best, holds, by decide +kernel, by decide +kernel, fun same => ?_⟩
  obtain ⟨entry, found, source⟩ := Option.map_eq_some_iff.mp best
  rw [same, found] at holds
  exact absurd (source.symm.trans (Option.some.inj holds)) (by decide)

end Runs

end Sys

end Libbgp
