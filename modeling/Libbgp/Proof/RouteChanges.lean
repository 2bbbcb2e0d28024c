/-
What the recorded changes of the best routes say about the tables.
-/

import Libbgp.Proof.Export
import Libbgp.Proof.RibDiscard

namespace Libbgp

open Library List

namespace RibImpl

variable {family : AddrFamily} {rib after : RibImpl family} {pfx : Prefix family.width} {source : RouterId}
  {entry best : RouteEntry family.width}

/-- The routes of a prefix have no preference cycle when MED always counts among them. -/
theorem exact_acyclic (uniform : MedUniform (rib.routesOf pfx)) : Preference.Acyclic entryBetter (rib.exact pfx) :=
  uniform.acyclic.comap fun entry member => ⟨entry, member.1, member.2, rfl⟩

/-- The best route depends only on the routes of its prefix. -/
theorem bestExact_congr (invariant : Invariant rib) (afterInvariant : Invariant after)
    (acyclic : Preference.Acyclic entryBetter (rib.exact pfx)) (same : after.exact pfx = rib.exact pfx) :
    after.bestExact pfx = rib.bestExact pfx := by
  refine Option.ext fun best => ?_
  rw [bestExact_eq_some_iff afterInvariant (same ▸ acyclic), bestExact_eq_some_iff invariant acyclic, same]

/-- When other routes leave, the best one stays. -/
theorem bestExact_of_subset (invariant : Invariant rib) (afterInvariant : Invariant after)
    (acyclic : Preference.Acyclic entryBetter (rib.exact pfx)) (fewer : after.exact pfx ⊆ rib.exact pfx)
    (kept : ∀ best, rib.bestExact pfx = some best → best ∈ after.exact pfx) :
    after.bestExact pfx = rib.bestExact pfx := by
  rcases found : rib.bestExact pfx with _ | best
  · rw [bestExact_eq_none_iff invariant] at found
    rw [bestExact_eq_none_iff afterInvariant]
    exact Set.subset_eq_empty fewer found
  · rw [bestExact_eq_some_iff afterInvariant (acyclic.mono fewer)]
    exact ⟨kept best found, ((bestExact_eq_some_iff invariant acyclic).mp found).2.mono fewer⟩

theorem Detached.exact_eq (detached : Detached rib after entry) (pfx : Prefix family.width) :
    after.exact pfx = rib.exact pfx \ {entry} := by
  ext other
  simp only [exact, detached.linked_eq, Set.mem_ofPred_eq, Set.mem_sdiff, Set.mem_singleton_iff]
  tauto

theorem Detached.exact_other (detached : Detached rib after entry) (different : pfx ≠ entry.pfx) :
    after.exact pfx = rib.exact pfx := by
  rw [detached.exact_eq, Set.sdiff_singleton_eq_self]
  rintro ⟨-, here⟩
  exact different here.symm

theorem Stored.exact_other {route : Route family.width} (stored : Stored rib after route)
    (different : pfx ≠ route.pfx) : after.exact pfx = rib.exact pfx := by
  ext other
  constructor
  · rintro ⟨member, here⟩
    rcases (stored.linked_iff other).mp member with rfl | ⟨old, -⟩
    · exact absurd here.symm different
    · exact ⟨old, here⟩
  · rintro ⟨member, here⟩
    exact ⟨(stored.linked_iff other).mpr (.inr ⟨member, fun place => different (here.symm.trans place.2)⟩), here⟩

theorem Discarded.exact_eq (discarded : Discarded rib after source) (pfx : Prefix family.width) :
    after.exact pfx = {entry ∈ rib.exact pfx | entry.source ≠ source} := by
  ext entry
  simp only [exact, discarded.linked_eq, Set.mem_ofPred_eq]
  tauto

/-- A prefix that the source does not lead keeps its best route. -/
theorem Discarded.bestExact_eq (discarded : Discarded rib after source) (invariant : Invariant rib)
    (acyclic : Preference.Acyclic entryBetter (rib.exact pfx)) (foreign : ¬ rib.Leads source pfx) :
    after.bestExact pfx = rib.bestExact pfx := by
  have fewer : after.exact pfx ⊆ rib.exact pfx := by
    rw [discarded.exact_eq]
    exact Set.sep_subset _ _
  refine bestExact_of_subset invariant discarded.invariant acyclic fewer fun best found => ?_
  rw [discarded.exact_eq]
  exact ⟨bestExact_mem invariant found, fun own => foreign ⟨best, found, own⟩⟩

theorem bestExact_routeAt (invariant : Invariant rib) (found : rib.bestExact pfx = some best) :
    rib.routeAt best.source pfx = some best.route := by
  obtain ⟨member, place⟩ := bestExact_mem invariant found
  exact invariant.routeAt_eq_some_iff.mpr ⟨best, member, rfl, place, rfl⟩

end RibImpl

/-- What a turn records about the best route of its prefix. -/
inductive BestReport {af : Af} (rib after : RibImpl af.family) (pfx : Prefix af.family.width) : List RouteChange → Prop
  | silent (kept : Preference.Acyclic entryBetter (rib.exact pfx) → after.bestExact pfx = rib.bestExact pfx) :
      BestReport rib after pfx []
  | lost (gone : after.bestExact pfx = none) : BestReport rib after pfx [.withdrawn af pfx]
  | found (best : RouteEntry af.family.width) (found : after.bestExact pfx = some best) :
      BestReport rib after pfx [.added af best.route]

namespace Applying

variable {af : Af} {peer : RouterId} {before after : Applying}

/-- A withdrawal records the change of the best route. -/
theorem WithdrawStep.reports {pfx : Prefix af.family.width} (taken : WithdrawStep af peer pfx before after)
    (invariant : (before.ribs.get af).Invariant) :
    ∃ inserted removed changes, Recorded before.journal after.journal af inserted removed changes ∧
      BestReport (before.ribs.get af) (after.ribs.get af) pfx changes ∧
      ∀ other, other ≠ pfx → (after.ribs.get af).exact other = (before.ribs.get af).exact other := by
  cases taken with
  | missing absent ribs spent recorded =>
    exact ⟨_, _, _, recorded, .silent fun _ => by rw [ribs], fun _ _ => by rw [ribs]⟩
  | done entry change member own place detached report others spent recorded =>
    refine ⟨_, _, _, recorded, ?_, fun other different => detached.exact_other (by rw [place]; exact different)⟩
    cases report with
    | kept best foreign =>
      refine .silent fun acyclic => ?_
      have afterInvariant := invariant.detached detached
      have fewer : (after.ribs.get af).exact pfx ⊆ (before.ribs.get af).exact pfx := by
        rw [detached.exact_eq]
        exact Set.sdiff_subset
      refine RibImpl.bestExact_of_subset invariant afterInvariant acyclic fewer fun held found => ?_
      rw [detached.exact_eq]
      exact ⟨RibImpl.bestExact_mem invariant found, fun same => foreign held found (by rw [same]; exact own)⟩
    | lost held before own gone => exact .lost gone
    | replaced held best before own found => exact .found best found

/-- An insertion records the change of best that it makes. -/
theorem InsertStep.reports {route : Route af.family.width} (taken : InsertStep af peer route before after) :
    ∃ inserted removed changes, Recorded before.journal after.journal af inserted removed changes ∧
      BestReport (before.ribs.get af) (after.ribs.get af) route.pfx changes ∧
      ∀ other, other ≠ route.pfx → (after.ribs.get af).exact other = (before.ribs.get af).exact other := by
  obtain ⟨change, best, report, recorded⟩ := taken.recorded
  refine ⟨_, _, _, recorded, ?_, fun other different => taken.stored.exact_other different⟩
  unfold insertChanges
  split
  · rw [report.reported]
    exact .found best report.found
  · rename_i same
    exact .silent fun _ => by rw [report.found, report.unchanged (Bool.eq_false_iff.mpr same)]

end Applying

/-- The prefix of a turn. -/
def ApplyItem.pfx : (item : ApplyItem) → Prefix item.table.family.width
  | .withdraw _ pfx => pfx
  | .announce _ announced => announced.pfx

namespace Fsm

variable {fsm : Fsm} {update : UpdateMsg} {item : ApplyItem} {before after : Applying}
  {start : Applying} {rest : List ApplyItem}

/-- What a turn records, and which prefixes it leaves alone. -/
structure Reported (item : ApplyItem) (before after : Applying) (changes : List RouteChange) : Prop where
  wellFormed : before.journal.WellFormed → after.journal.WellFormed
  extended : before.journal.WellFormed → after.journal.changes = before.journal.changes ++ changes
  report : BestReport (before.ribs.get item.table) (after.ribs.get item.table) item.pfx changes
  elsewhere : ∀ pfx, pfx ≠ item.pfx → (after.ribs.get item.table).exact pfx = (before.ribs.get item.table).exact pfx

/-- Each turn records the change of the best route. -/
theorem ApplyStep.reports (taken : ApplyStep fsm update item before after)
    (invariant : (before.ribs.get item.table).Invariant) : ∃ changes, Reported item before after changes := by
  cases taken with
  | withdraw taken =>
    obtain ⟨_, _, changes, recorded, report, elsewhere⟩ := taken.reports invariant
    exact ⟨changes, recorded.wellFormed, recorded.changes, report, elsewhere⟩
  | denied denied ribs journal spent =>
    refine ⟨[], ?_, ?_, .silent fun _ => ?_, fun _ _ => by rw [ribs]⟩
    · rw [journal]
      exact id
    · rw [journal]
      exact fun _ => (append_nil _).symm
    · rw [ribs]
  | insert permitted taken =>
    obtain ⟨_, _, changes, recorded, report, elsewhere⟩ := taken.reports
    exact ⟨changes, recorded.wellFormed, recorded.changes, report, elsewhere⟩

/-- The routes in the middle of a message: those of the peer are old, gone or announced by the message,
and the others are old. -/
structure Underway (fsm : Fsm) (update : UpdateMsg) (items : List ApplyItem) (start state : Applying) : Prop where
  foreign : ∀ af source, source ≠ fsm.peerBgpId → state.routesFrom af source = start.routesFrom af source
  own : ∀ af pfx, state.routesFrom af fsm.peerBgpId pfx = start.routesFrom af fsm.peerBgpId pfx ∨
    state.routesFrom af fsm.peerBgpId pfx = none ∨
    ∃ announced counter, fsm.Announces update items af pfx announced ∧
      state.routesFrom af fsm.peerBgpId pfx = some (RibImpl.cloneOf counter (fsm.announcedRoute update af announced))

/-- One turn keeps the routes in the middle of a message. -/
theorem Underway.step (underway : Underway fsm update items start before)
    (invariant : ∀ af, (before.ribs.get af).Invariant) (listed : item ∈ items)
    (taken : ApplyStep fsm update item before after) : Underway fsm update items start after where
  foreign af source different := by
    have confined := taken.confined (invariant item.table)
    rw [← underway.foreign af source different]
    by_cases here : af = item.table
    · rw [here]
      exact confined.foreign source different
    · rw [Applying.routesFrom, confined.others af here, Applying.routesFrom]
  own af pfx := by
    rcases taken.effect (invariant _) af pfx with
      ⟨-, cleared⟩ | ⟨announced, ⟨inside, place, permitted⟩, counter, stored⟩ | ⟨-, -, same⟩
    · exact .inr (.inl cleared)
    · rw [mem_singleton] at inside
      exact .inr (.inr ⟨announced, counter, ⟨inside ▸ listed, place, permitted⟩, stored⟩)
    · rw [same]
      exact underway.own af pfx

theorem Starts.noChanges {ribs : Ribs} {alloc : Allocator} (starts : Starts ribs alloc start) :
    start.journal.WellFormed ∧ start.journal.changes = [] :=
  ⟨starts.records.wellFormed Journal.empty_wellFormed, starts.records.changes_eq⟩

/-- What holds of the recorded changes when it holds of none and every turn keeps it. -/
theorem run_changes {kept : List ApplyItem → Applying → List RouteChange → Prop} {items : List ApplyItem}
    (run : Steps (ApplyStep fsm update) rest before after)
    (step : ∀ item rest before after done changes, (∀ af, (before.ribs.get af).Invariant) →
      Underway fsm update items start before → Underway fsm update items start after → InOrder (item :: rest) →
      ApplyStep fsm update item before after → Reported item before after changes → kept (item :: rest) before done →
      kept rest after (done ++ changes)) (inside : ∀ item ∈ rest, item ∈ items) (order : InOrder rest)
    (underway : Underway fsm update items start before) (invariant : ∀ af, (before.ribs.get af).Invariant)
    (wellFormed : before.journal.WellFormed) (begins : kept rest before before.journal.changes) :
    kept [] after after.journal.changes := by
  induction run with
  | done => exact begins
  | @next item rest _ _ _ head tail ih =>
    obtain ⟨changes, reported⟩ := head.reports (invariant _)
    have next := underway.step invariant (inside item mem_cons_self) head
    refine ih (fun other member => inside other (mem_cons_of_mem _ member)) (pairwise_cons.mp order).2 next
      (head.sound invariant) (reported.wellFormed wellFormed) ?_
    rw [reported.extended wellFormed]
    exact step item rest _ _ _ changes invariant underway next order head reported begins

/-- The same for a whole message. -/
theorem applyUpdate_changes {kept : List ApplyItem → Applying → List RouteChange → Prop} {code : MessageCode}
    {ribs : Ribs} {alloc : Allocator} {start state : Applying} (invariant : ∀ af, (ribs.get af).Invariant)
    (starts : Starts ribs alloc start)
    (run : Steps (ApplyStep fsm update) (fsm.applyItems update (fsm.ignores code update)) start state)
    (step : ∀ item rest before after done changes, (∀ af, (before.ribs.get af).Invariant) →
      Underway fsm update (fsm.applyItems update (fsm.ignores code update)) start before →
      Underway fsm update (fsm.applyItems update (fsm.ignores code update)) start after → InOrder (item :: rest) →
      ApplyStep fsm update item before after → Reported item before after changes → kept (item :: rest) before done →
      kept rest after (done ++ changes))
    (begins : kept (fsm.applyItems update (fsm.ignores code update)) start []) :
      kept [] state state.journal.changes := by
  refine run_changes run step (fun _ member => member) (applyItems_inOrder _ _ _)
    ⟨fun _ _ _ => rfl, fun _ _ => .inl rfl⟩ ?_ starts.noChanges.1 ?_
  · rw [starts.ribs]
    exact invariant
  · rw [starts.noChanges.2]
    exact begins

/-- A change whose route is stored, and stays so whatever the remaining turns do. -/
def Lasting (fsm : Fsm) (rest : List ApplyItem) (state : Applying) : RouteChange → Prop
  | .added af route => state.routesFrom af route.sourceRouterId route.pfx ≠ none ∧
      (route.sourceRouterId = fsm.peerBgpId → ∀ pfx, .withdraw af pfx ∉ rest)
  | .withdrawn _ _ => True

/-- A change that lasts still does after one turn. -/
theorem ApplyStep.lasting {change : RouteChange} (taken : ApplyStep fsm update item before after)
    (invariant : ∀ af, (before.ribs.get af).Invariant) (lasting : Lasting fsm (item :: rest) before change) :
    Lasting fsm rest after change := by
  cases change with
  | withdrawn => trivial
  | added af route =>
    obtain ⟨stored, ahead⟩ := lasting
    refine ⟨?_, fun own pfx later => ahead own pfx (mem_cons_of_mem _ later)⟩
    by_cases own : route.sourceRouterId = fsm.peerBgpId
    · rw [own] at stored ⊢
      rcases taken.effect (invariant _) af route.pfx with
        ⟨rfl, cleared⟩ | ⟨announced, announces, counter, again⟩ | ⟨-, -, same⟩
      · exact absurd mem_cons_self (ahead own route.pfx)
      · simp [again]
      · rw [same]
        exact stored
    · have confined := taken.confined (invariant item.table)
      by_cases here : af = item.table
      · subst here
        rw [confined.foreign _ own]
        exact stored
      · rw [Applying.routesFrom, confined.others af here]
        exact stored

/-- The route that a turn announces as the best is stored. When it is the route of the peer itself, the
turn was an announcement, so that nothing of its family is withdrawn any more. -/
theorem ApplyStep.records_lasting {changes : List RouteChange} (taken : ApplyStep fsm update item before after)
    (invariant : ∀ af, (before.ribs.get af).Invariant) (order : InOrder (item :: rest))
    (reported : Reported item before after changes) : ∀ change ∈ changes, Lasting fsm rest after change := by
  have sound := taken.sound invariant
  intro change member
  obtain ⟨-, -, report, -⟩ := reported
  cases report with
  | silent kept => cases member
  | lost gone =>
    rw [mem_singleton.mp member]
    trivial
  | found best found =>
    rw [mem_singleton.mp member]
    have stored := RibImpl.bestExact_routeAt (sound _) found
    have place : best.pfx = item.pfx := (RibImpl.bestExact_mem (sound _) found).2
    refine ⟨?_, fun own pfx later => ?_⟩
    · change (after.ribs.get item.table).routeAt best.source best.pfx ≠ none
      rw [place, stored]
      exact Option.some_ne_none _
    · cases item with
      | announce af announced => exact (pairwise_cons.mp order).1 _ later af announced pfx rfl rfl
      | withdraw af gone =>
        cases taken with
        | withdraw taken =>
          have cleared := congrFun (taken.routesFrom_eq (invariant _)) gone
          rw [Function.update_self, ← own] at cleared
          cases cleared.symm.trans stored

end Fsm

/-- The tables have a route of the source for the prefix that a change announces. -/
def RouteChange.Present (ribs : Ribs) : RouteChange → Prop
  | .added af route => (ribs.get af).routeAt route.sourceRouterId route.pfx ≠ none
  | .withdrawn _ _ => True

namespace Fsm

variable {fsm : Fsm} {code : MessageCode} {update : UpdateMsg} {ribs : Ribs} {alloc : Allocator} {subcode : UInt8}
  {state : Applying} (invariant : ∀ af, (ribs.get af).Invariant)
  (done : fsm.applyUpdate code update ribs alloc = (.ok, subcode, state))

include invariant done

/-- Every route that an applied message reports as the best is stored. -/
theorem applyUpdate_present : ∀ change ∈ state.journal.changes, change.Present state.ribs := by
  obtain ⟨-, start, starts, run⟩ := applyUpdate_done invariant done
  have lasting : ∀ change ∈ state.journal.changes, Lasting fsm [] state change := by
    refine @applyUpdate_changes fsm update (fun rest state changes => ∀ change ∈ changes, Lasting fsm rest state change)
      code ribs alloc start state invariant starts run ?_ fun _ impossible => nomatch impossible
    intro item rest before after earlier changes sound _ _ order taken reported lasting change member
    rcases mem_append.mp member with old | fresh
    · exact taken.lasting sound (lasting change old)
    · exact taken.records_lasting sound order reported change fresh
  intro change member
  have last := lasting change member
  cases change with
  | added af route => exact last.1
  | withdrawn => trivial

/-- Whatever holds of the old routes and of those that the message announces holds of the new tables and
of the routes that are reported as the best. -/
theorem applyUpdate_routes {good : (af : Af) → Route af.family.width → Prop}
    (old : ∀ af source pfx route, (ribs.get af).routeAt source pfx = some route → good af route)
    (new : ValidUpdate update → ∀ af, ∀ announced ∈ announcedPrefixes update af, ∀ counter,
      good af (RibImpl.cloneOf counter (fsm.announcedRoute update af announced))) :
    (∀ af source pfx route, (state.ribs.get af).routeAt source pfx = some route → good af route) ∧
    ∀ af route, .added af route ∈ state.journal.changes → good af route := by
  obtain ⟨valid, start, starts, run⟩ := applyUpdate_done invariant done
  have stored : ∀ middle, Underway fsm update (fsm.applyItems update (fsm.ignores code update)) start middle →
      ∀ af source pfx route, (middle.ribs.get af).routeAt source pfx = some route → good af route := by
    intro middle underway af source pfx route found
    have first : ∀ source, start.routesFrom af source pfx = some route → good af route := by
      intro source held
      rw [Applying.routesFrom, starts.ribs] at held
      exact old af source pfx route held
    by_cases own : source = fsm.peerBgpId
    · subst own
      rcases underway.own af pfx with same | gone | ⟨announced, counter, announces, value⟩
      · exact first _ (same.symm.trans found)
      · cases gone.symm.trans found
      · rw [← Option.some.inj (value.symm.trans found)]
        exact new valid af announced (announce_mem_applyItems.mp announces.1).2 counter
    · exact first source ((congrFun (underway.foreign af source own) pfx).symm.trans found)
  refine @applyUpdate_changes fsm update (fun _ middle changes =>
    (∀ af source pfx route, (middle.ribs.get af).routeAt source pfx = some route → good af route) ∧
      ∀ af route, .added af route ∈ changes → good af route) code ribs alloc start state invariant starts run ?_
    ⟨by rw [starts.ribs]; exact old, by simp⟩
  intro item rest before after earlier changes sound _ underway _ taken reported kept
  refine ⟨stored after underway, fun af route member => ?_⟩
  rcases mem_append.mp member with listed | fresh
  · exact kept.2 af route listed
  · have report := reported.report
    cases report with
    | silent => cases fresh
    | lost => cases mem_singleton.mp fresh
    | found best found =>
      cases mem_singleton.mp fresh
      exact stored after underway _ _ _ _ (RibImpl.bestExact_routeAt (taken.sound sound _) found)

end Fsm

end Libbgp
