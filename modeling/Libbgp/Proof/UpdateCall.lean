/-
What a received UPDATE does to the route tables, when it is applied and when it is not.
-/

import Libbgp.Construction.Message
import Libbgp.Proof.Publication

namespace Libbgp

open Library

namespace Fsm

variable {fsm : Fsm} {update : UpdateMsg} {af : Af} {entry : RouteEntry af.family.width} {item : ApplyItem}
  {items : List ApplyItem} {before after : Applying}

/-- The turns take an entry of the peer out of its table: they withdraw its prefix or store another route for it. -/
def Replaces (fsm : Fsm) (update : UpdateMsg) (items : List ApplyItem) {af : Af}
    (entry : RouteEntry af.family.width) : Prop :=
  entry.source = fsm.peerBgpId ∧
    (.withdraw af entry.pfx ∈ items ∨ ∃ announced, fsm.Announces update items af entry.pfx announced)

theorem replaces_cons :
    fsm.Replaces update (item :: items) entry ↔ fsm.Replaces update [item] entry ∨ fsm.Replaces update items entry := by
  simp only [Replaces, Announces, List.mem_cons, List.not_mem_nil, or_false, or_and_right, exists_or]
  rw [← and_or_left, or_or_or_comm]

/-- An entry that is in the table when a turn begins stays in it exactly when the turn does not replace it. The entry
that a turn adds has a later stamp. -/
theorem ApplyStep.earlier (taken : ApplyStep fsm update item before after)
    (invariant : ∀ af, (before.ribs.get af).Invariant) (early : entry.stamp < (before.ribs.get af).nextStamp) :
    entry.stamp < (after.ribs.get af).nextStamp ∧
      (entry ∈ (after.ribs.get af).linked ↔
        entry ∈ (before.ribs.get af).linked ∧ ¬ fsm.Replaces update [item] entry) := by
  by_cases table : af = item.table
  · cases taken with
    | @withdraw own pfx _ _ taken =>
      obtain rfl : af = own := table
      have replaced : fsm.Replaces update [.withdraw af pfx] entry ↔
          entry.source = fsm.peerBgpId ∧ entry.pfx = pfx := by
        simp [Replaces, Announces]
      rw [replaced]
      cases taken with
      | missing absent ribs =>
        rw [ribs]
        refine ⟨early, ⟨fun member => ⟨member, ?_⟩, And.left⟩⟩
        rintro ⟨own, place⟩
        cases absent.symm.trans ((invariant af).routeAt_eq_some_iff.mpr ⟨entry, member, own, place, rfl⟩)
      | done held change heldIn own place detached =>
        rw [detached.nextStamp, detached.linked_eq, Set.mem_sdiff, Set.mem_singleton_iff]
        refine ⟨early, and_congr_right fun member => not_congr ⟨?_, ?_⟩⟩
        · rintro rfl
          exact ⟨own, place⟩
        · rintro ⟨source, pfx⟩
          exact (invariant af).unique.eq_of_key member heldIn (by rw [source, pfx, own, place])
    | @denied own announced _ _ denied ribs =>
      obtain rfl : af = own := table
      rw [ribs]
      refine ⟨early, ⟨fun member => ⟨member, ?_⟩, And.left⟩⟩
      rintro ⟨-, withdrawn | ⟨other, announces⟩⟩
      · cases List.mem_singleton.mp withdrawn
      · cases List.mem_singleton.mp announces.1
        cases denied.symm.trans announces.2.2
    | @insert own announced _ _ permitted taken =>
      obtain rfl : af = own := table
      have replaced : fsm.Replaces update [.announce af announced] entry ↔
          entry.source = fsm.peerBgpId ∧ entry.pfx = announced.pfx := by
        refine and_congr_right fun _ =>
          ⟨?_, fun place => .inr ⟨announced, List.mem_singleton_self _, place.symm, permitted⟩⟩
        rintro (withdrawn | ⟨other, announces⟩)
        · cases List.mem_singleton.mp withdrawn
        · cases List.mem_singleton.mp announces.1
          exact announces.2.1.symm
      have stored := taken.stored
      have added := stored.invariant.bounded _ ((stored.linked_iff _).mpr (.inl rfl))
      rw [replaced, stored.linked_iff]
      refine ⟨early.trans added, or_iff_right fun same => ?_⟩
      rw [same] at early
      exact lt_irrefl _ early
  · rw [(taken.confined (invariant _)).others af table]
    refine ⟨early, ⟨fun member => ⟨member, ?_⟩, And.left⟩⟩
    rintro ⟨-, withdrawn | ⟨other, announces⟩⟩
    · exact table (congrArg ApplyItem.table (List.mem_singleton.mp withdrawn))
    · exact table (congrArg ApplyItem.table (List.mem_singleton.mp announces.1))

/-- The earlier entries that are left when all turns are done. -/
theorem earlier_of_run (run : Steps (ApplyStep fsm update) items before after)
    (invariant : ∀ af, (before.ribs.get af).Invariant) (early : entry.stamp < (before.ribs.get af).nextStamp) :
    entry ∈ (after.ribs.get af).linked ↔ entry ∈ (before.ribs.get af).linked ∧ ¬ fsm.Replaces update items entry := by
  induction run with
  | done => simp [Replaces, Announces]
  | next head _ ih =>
    obtain ⟨later, kept⟩ := head.earlier invariant early
    rw [ih (head.sound invariant) later, kept, and_assoc, ← not_or, ← replaces_cons]

end Fsm

namespace Sys

section Calls

variable {code : MessageCode} {sys : Sys} {index : Nat} {update : UpdateMsg} {af : Af}

/-- An established session hands an UPDATE to its own handler. -/
theorem onPacket_update (live : (sys.fsm index).state = .established) :
    sys.onPacket code index (.update update) =
      (sys.observe (.received index (.update update))).onUpdate code index update := by
  simp only [onPacket, observe_fsm, live, onEstablished]

/-- The UPDATE gets past the check for families that were not negotiated. -/
def admitsUpdate (fsm : Fsm) (update : UpdateMsg) : Prop := fsm.peerMpbgpIpv6 = true ∨ Fsm.hasMpAttr update = false

/-- An UPDATE that runs out of memory, where the undo does not, leaves no trace: the tables map every
source and prefix to the same route as before, nothing is published, and the session goes on. -/
theorem update_nomem_restores (sound : sys.Sound) (live : (sys.fsm index).state = .established)
    (admitted : admitsUpdate (sys.fsm index) update) (recovers : sys.alloc.SingleRefusal)
    (failed : ((sys.fsm index).applyUpdate code update sys.ribs sys.alloc).1 = .nomem) :
    (sys.perform code index (.packet (.update update))).1 = .nomem ∧
    (∀ af source pfx, ((sys.perform code index (.packet (.update update))).2.ribs.get af).routeAt source pfx =
      (sys.ribs.get af).routeAt source pfx) ∧
    (sys.perform code index (.packet (.update update))).2.trace =
      ⟨.received index (.update update), sys.fsm, sys.ribs⟩ :: sys.trace ∧
    ((sys.perform code index (.packet (.update update))).2.fsm index).state = .established ∧
    ((sys.perform code index (.packet (.update update))).2.fsm index).sessionGeneration =
      (sys.fsm index).sessionGeneration := by
  have applied := @Fsm.applyUpdate_applied (sys.fsm index) code update sys.ribs sys.alloc sound
  rcases result : (sys.fsm index).applyUpdate code update sys.ribs sys.alloc with ⟨err, subcode, state⟩
  rw [result] at failed applied
  simp only at failed
  subst failed
  have undone := applied.rolledBack (by simp) sound
  have admitted : (!(sys.fsm index).peerMpbgpIpv6 && Fsm.hasMpAttr update) = false := by
    rcases admitted with wide | none
    · simp [wide]
    · simp [none]
  have call : sys.perform code index (.packet (.update update)) =
      (.nomem, { sys.observe (.received index (.update update)) with
        ribs := (state.rollback (sys.fsm index).peerBgpId).ribs
        alloc := (state.rollback (sys.fsm index).peerBgpId).alloc }) := by
    simp only [perform, onPacket_update live, onUpdate, observe_fsm, observe_ribs, observe_alloc, admitted, result]
    rfl
  rw [call]
  refine ⟨rfl, fun af source pfx => ?_, rfl, live, rfl⟩
  exact congrFun (congrFun (undone.restored recovers af) source) pfx

/-- A session that has stored one route, with the answers to the next requests for memory. -/
def sampleHolder (alloc : Allocator) : Sys :=
  { (Sys.init [.session (sampleParams 65002)]).run libbgpCode (sampleUp 0 65002 0x0a000002 ++
      [calmStep 0 (.packet (.update (sampleUpdate [] [65002] [⟨0xc0000200, 24⟩])))]) with
    alloc := alloc }

theorem sampleHolder_sound (alloc : Allocator) : (sampleHolder alloc).Sound :=
  @run_sound libbgpCode _ _ (init_sound _)

/-- Memory runs out when the stored route is already withdrawn and announced again. -/
theorem update_nomem_restores_sample :
    ((sampleHolder (List.replicate 30 true ++ [false])).perform libbgpCode 0 (.packet (.update
      (sampleUpdate [⟨0xc0000200, 24⟩] [65002, 65003] [⟨0xc0000200, 24⟩, ⟨0xc0000300, 24⟩])))).1 = .nomem :=
  (update_nomem_restores (sampleHolder_sound _) (by decide +kernel) (.inl (by decide +kernel))
    (Allocator.singleRefusal_last (by simp [Allocator.Generous])) (by decide +kernel)).1

/-- The tables that an UPDATE leads to. -/
def updateTables (code : MessageCode) (sys : Sys) (index : Nat) (update : UpdateMsg) : Ribs :=
  ((sys.fsm index).applyUpdate code update sys.ribs sys.alloc).2.2.ribs

/-- The handler succeeds only when it has applied the UPDATE. -/
theorem onUpdate_ok (processed : (sys.onUpdate code index update).1 = .ok) :
    ∃ subcode state, (sys.fsm index).applyUpdate code update sys.ribs sys.alloc = (.ok, subcode, state) ∧
      (sys.onUpdate code index update).2 = sys.publishApplied code index state := by
  by_cases refused : (!(sys.fsm index).peerMpbgpIpv6 && Fsm.hasMpAttr update) = true
  · simp only [onUpdate, refused, if_true] at processed
    rcases ended : sys.endSession code index 3 errMalformedAttrList with ⟨err, last⟩
    rw [ended] at processed
    cases err <;> simp at processed
  · rcases result : (sys.fsm index).applyUpdate code update sys.ribs sys.alloc with ⟨err, subcode, state⟩
    simp only [onUpdate, if_neg refused, result] at processed ⊢
    cases err with
    | ok => exact ⟨subcode, state, rfl, rfl⟩
    | invalid =>
      simp only at processed
      split at processed
      · simp at processed
      · exact absurd processed (by assumption)
    | _ => simp at processed

/-- A call that succeeds has applied its UPDATE. -/
theorem processed_applied (live : (sys.fsm index).state = .established)
    (processed : (sys.perform code index (.packet (.update update))).1 = .ok) :
    ∃ subcode state, (sys.fsm index).applyUpdate code update sys.ribs sys.alloc = (.ok, subcode, state) ∧
      (sys.perform code index (.packet (.update update))).2 =
        (sys.observe (.received index (.update update))).publishApplied code index state := by
  simp only [perform, onPacket_update live] at processed ⊢
  exact onUpdate_ok processed

/-- The stored route for an announced prefix. -/
structure CarriesUpdate (fsm : Fsm) (update : UpdateMsg) (af : Af) (announced : Announced af.family.width)
    (route : Route af.family.width) : Prop where
  attrs : route.attrs = routeAttrs update.attrs af
  pathLen : route.asPathLen = (asPathLenAndOriginAs (attrViewGet update.attrs 2)).1
  origin : route.origin = originOf update
  med : route.med = medOf update
  nextHop : route.nextHop = announced.nextHop
  weight : route.weight = fsm.params.routeWeight

theorem carriesUpdate_clone (fsm : Fsm) (update : UpdateMsg) (announced : Announced af.family.width)
    (counter : UInt64) :
    CarriesUpdate fsm update af announced (RibImpl.cloneOf counter (fsm.announcedRoute update af announced)) :=
  ⟨rfl, rfl, rfl, rfl, rfl, rfl⟩

/-- What a processed UPDATE did: the outcome for each prefix of its peer, and what was published. -/
structure Processed (code : MessageCode) (sys : Sys) (index : Nat) (update : UpdateMsg) : Prop where
  valid : ValidUpdate update
  invariant : ∀ af, ((updateTables code sys index update).get af).Invariant
  outcome : ∀ af pfx, (sys.fsm index).Outcome update
    ((sys.fsm index).applyItems update ((sys.fsm index).ignores code update)) af pfx
    ((sys.ribs.get af).routeAt (sys.fsm index).peerBgpId pfx)
    (((updateTables code sys index update).get af).routeAt (sys.fsm index).peerBgpId pfx)
  foreign : ∀ af source, source ≠ (sys.fsm index).peerBgpId →
    ((updateTables code sys index update).get af).routeAt source = (sys.ribs.get af).routeAt source
  earlier : ∀ af, ∀ entry ∈ (sys.ribs.get af).linked, entry ∈ ((updateTables code sys index update).get af).linked ↔
    ¬ (sys.fsm index).Replaces update ((sys.fsm index).applyItems update ((sys.fsm index).ignores code update)) entry
  call : ∃ changes alloc, (sys.perform code index (.packet (.update update))).2 =
    publishUpdateEvents code (sys.fail code) index (sys.fsm index).sessionGeneration (sys.fsm index).peerBgpId changes
      (modify { sys.observe (.received index (.update update)) with
        ribs := updateTables code sys index update, alloc := alloc } index Fsm.markRxCurrent)

/-- An UPDATE that returns OK is processed. -/
theorem processed_of_ok (sound : sys.Sound) (live : (sys.fsm index).state = .established)
    (processed : (sys.perform code index (.packet (.update update))).1 = .ok) : Processed code sys index update := by
  obtain ⟨subcode, state, done, call⟩ := processed_applied live processed
  have tables : updateTables code sys index update = state.ribs := by rw [updateTables, done]
  obtain ⟨valid, start, starts, run⟩ := Fsm.applyUpdate_done sound done
  have order := Fsm.applyItems_inOrder (sys.fsm index) update ((sys.fsm index).ignores code update)
  have begun : ∀ af, (start.ribs.get af).Invariant := by rw [starts.ribs]; exact sound
  have tracked := (@Fsm.Starts.tracked (sys.fsm index) _ _ _ starts sound).run run (starts.early _) order
  refine ⟨valid, ?_, fun af pfx => ?_, fun af source different => ?_, fun af entry member => ?_, state.journal.changes,
    state.alloc, ?_⟩
  · rw [tables]
    exact (applied_tables sound done).1
  · have result := Fsm.applied_outcome run begun order af pfx
    simp only [Applying.routesFrom, starts.ribs] at result
    rw [tables]
    exact result
  · have same := tracked.foreign af source different
    rw [tables]
    simpa only [Applying.routesFrom, starts.ribs] using same
  · rw [tables, Fsm.earlier_of_run run begun (starts.ribs ▸ (sound af).bounded entry member), starts.ribs]
    exact and_iff_right member
  · rw [tables]
    exact call

/-- A prefix whose announcement is heeded has the announced route. -/
theorem Processed.stored (done : Processed code sys index update)
    (negotiated : (sys.fsm index).sendRoutes af = true) (heeded : (sys.fsm index).ignores code update = false)
    {announced : Announced af.family.width} (member : announced ∈ announcedPrefixes update af)
    (permitted : (sys.fsm index).inPermits af ((sys.fsm index).announcedRoute update af announced) = true) :
    ∃ counter, ((updateTables code sys index update).get af).routeAt (sys.fsm index).peerBgpId announced.pfx =
      some (RibImpl.cloneOf counter ((sys.fsm index).announcedRoute update af announced)) := by
  obtain ⟨other, counter, ⟨listed, place, -⟩, stored⟩ := (done.outcome af announced.pfx).announced
    ⟨announced, Fsm.announce_mem_applyItems.mpr ⟨⟨negotiated, heeded⟩, member⟩, rfl, permitted⟩
  -- a valid message announces a prefix with one next hop only
  have same := done.valid.announced_unique (Fsm.announce_mem_applyItems.mp listed).2 member place
  rw [same] at stored
  exact ⟨counter, stored⟩

/-- What is published about an UPDATE starts from its tables. -/
theorem Processed.published (done : Processed code sys index update) {relation : Sys → Sys → Prop}
    (bears : Bears (Soundly relation)) (failing : ∀ other generation later, later.Failing other →
      Soundly relation later (sys.fail code other generation later)) :
    ∃ start, start.ribs = updateTables code sys index update ∧
      relation start (sys.perform code index (.packet (.update update))).2 := by
  obtain ⟨changes, alloc, call⟩ := done.call
  rw [call]
  refine ⟨_, ?_, (bears.publishUpdateEvents failing _ _ _ changes _ ?_).2⟩
  · rfl
  · exact done.invariant

/-- Until a message to a peer fails, the tables stay as the UPDATE left them. -/
theorem Processed.tables (done : Processed code sys index update)
    (clean : (sys.perform code index (.packet (.update update))).2.Clean) :
    (sys.perform code index (.packet (.update update))).2.ribs = updateTables code sys index update := by
  obtain ⟨start, tables, -, same⟩ := done.published sameTables_bears.cleanly.soundly
    (failing_cleanly (@Closes.fail code _ grows_closes sys))
  exact (same clean).1.trans tables

/-- The routes right after `fsm_apply_update`, when the UPDATE is processed: an announced prefix has the announced
route even if it was withdrawn too, a prefix that was only withdrawn has none, and nothing else changes. These are
also the routes when the call returns, unless a message to a peer fails while the UPDATE is passed on. -/
theorem update_determines_routes (sound : sys.Sound) (live : (sys.fsm index).state = .established)
    (processed : (sys.perform code index (.packet (.update update))).1 = .ok) :
    (∀ af, (sys.fsm index).sendRoutes af = true → (sys.fsm index).ignores code update = false →
      ∀ announced ∈ announcedPrefixes update af,
        (sys.fsm index).inPermits af ((sys.fsm index).announcedRoute update af announced) = true →
        ∃ route, ((updateTables code sys index update).get af).routeAt (sys.fsm index).peerBgpId
          announced.pfx = some route ∧
          CarriesUpdate (sys.fsm index) update af announced route) ∧
    (∀ af, (sys.fsm index).sendRoutes af = true → ∀ pfx ∈ withdrawnPrefixes update af,
      (∀ announced ∈ announcedPrefixes update af, announced.pfx ≠ pfx) →
      ((updateTables code sys index update).get af).routeAt (sys.fsm index).peerBgpId pfx = none) ∧
    (∀ af pfx, pfx ∉ withdrawnPrefixes update af → (∀ announced ∈ announcedPrefixes update af, announced.pfx ≠ pfx) →
      ((updateTables code sys index update).get af).routeAt (sys.fsm index).peerBgpId pfx =
        (sys.ribs.get af).routeAt (sys.fsm index).peerBgpId pfx) ∧
    (∀ af source, source ≠ (sys.fsm index).peerBgpId →
      ((updateTables code sys index update).get af).routeAt source = (sys.ribs.get af).routeAt source) ∧
    (∀ af, (sys.fsm index).sendRoutes af = false →
      ((updateTables code sys index update).get af).routeAt = (sys.ribs.get af).routeAt) ∧
    ((sys.perform code index (.packet (.update update))).2.Clean →
      (sys.perform code index (.packet (.update update))).2.ribs = updateTables code sys index update) := by
  have done := processed_of_ok sound live processed
  have silent : ∀ af pfx, (∀ announced ∈ announcedPrefixes update af, announced.pfx ≠ pfx) →
      ∀ announced, ¬ (sys.fsm index).Announces update
        ((sys.fsm index).applyItems update ((sys.fsm index).ignores code update)) af pfx announced := by
    intro af pfx unannounced announced ⟨listed, place, _⟩
    exact unannounced announced (Fsm.announce_mem_applyItems.mp listed).2 place
  refine ⟨?_, ?_, ?_, done.foreign, ?_, ?_⟩
  · intro af negotiated heeded announced member permitted
    obtain ⟨counter, stored⟩ := done.stored negotiated heeded member permitted
    exact ⟨_, stored, carriesUpdate_clone _ _ _ _⟩
  · intro af negotiated pfx member unannounced
    exact (done.outcome af pfx).withdrawn (silent af pfx unannounced)
      (Fsm.withdraw_mem_applyItems.mpr ⟨negotiated, member⟩)
  · intro af pfx unmentioned unannounced
    exact (done.outcome af pfx).kept (silent af pfx unannounced) fun listed =>
      unmentioned (Fsm.withdraw_mem_applyItems.mp listed).2
  · intro af unnegotiated
    funext source pfx
    by_cases own : source = (sys.fsm index).peerBgpId
    · subst own
      refine (done.outcome af pfx).kept (fun announced ⟨listed, _, _⟩ => ?_) fun listed => ?_
      · simp [(Fsm.announce_mem_applyItems.mp listed).1.1] at unnegotiated
      · simp [(Fsm.withdraw_mem_applyItems.mp listed).1] at unnegotiated
    · rw [done.foreign af source own]
  · exact done.tables

/-- The stored prefix is withdrawn and another one is announced. -/
theorem update_determines_routes_sample :
    let update := sampleUpdate [⟨0xc0000200, 24⟩] [65002, 65003] [⟨0xc0000300, 24⟩]
    let table := (updateTables libbgpCode (sampleHolder []) 0 update).get .ipv4
    table.routeAt 0x0a000002 ⟨0xc0000200, 24⟩ = none ∧
      ∃ route, table.routeAt 0x0a000002 ⟨0xc0000300, 24⟩ = some route ∧ route.nextHop = 0x0a000009 := by
  intro update table
  have routes := @update_determines_routes libbgpCode (sampleHolder []) 0 update (sampleHolder_sound [])
    (by decide +kernel)
    (by decide +kernel)
  refine ⟨routes.2.1 .ipv4 (by decide +kernel) _ (by decide) (by decide), ?_⟩
  obtain ⟨route, stored, carries⟩ := routes.1 .ipv4 (by decide +kernel) (by decide +kernel)
    ⟨⟨0xc0000300, 24⟩, 0x0a000009, 0, 0⟩ (List.mem_singleton.mpr rfl) (by decide +kernel)
  exact ⟨route, stored, carries.nextHop⟩

/-- Two sessions, of which the second one has announced a route and gets no further message. -/
def sampleUnreachable : Sys :=
  { (Sys.init [.session (sampleParams 65002), .session (sampleParams 65003)]).run libbgpCode
      (sampleUp 0 65002 0x0a000002 ++ sampleUp 1 65003 0x0a000003 ++
        [calmStep 1 (.packet (.update (sampleUpdate [] [65003] [⟨0xc0000300, 24⟩])))]) with
    sends := [.write] }

/-- The UPDATE is applied, but passing it on to the second session fails and ends that session: its route is in the
tables of the UPDATE and no more in those that the call leaves. -/
example :
    let update := sampleUpdate [] [65002] [⟨0xc0000200, 24⟩]
    let call := sampleUnreachable.perform libbgpCode 0 (.packet (.update update))
    call.1 = .ok ∧ (call.2.ribs.get .ipv4).routeAt 0x0a000003 ⟨0xc0000300, 24⟩ = none ∧
      (((updateTables libbgpCode sampleUnreachable 0 update).get .ipv4).routeAt 0x0a000003
        ⟨0xc0000300, 24⟩).isSome := by
  decide +kernel

/-- Only routes go away. -/
def Dwindles (before after : Sys) : Prop := ∀ af, (after.ribs.get af).linked ⊆ (before.ribs.get af).linked

/-- Where a session ends, only routes go away. -/
theorem dwindles_closes : Closes Dwindles where
  refl _ _ := subset_rfl
  trans left right af := (right af).trans (left af)
  alloc _ _ _ _ := subset_rfl
  sends _ _ _ := subset_rfl
  observe _ _ _ _ := subset_rfl
  discard sys af rib peer rest _ discarded _ other := by
    by_cases same : other = af
    · subst same
      rw [Ribs.get_set, discarded.linked_eq]
      exact fun entry member => member.1
    · rw [Ribs.get_set_of_ne _ same]
  close _ _ _ := subset_rfl
  drain _ _ _ := subset_rfl
  notified _ _ _ _ _ := subset_rfl
  ended _ _ _ := subset_rfl

/-- What is published about an UPDATE only takes routes away. -/
theorem Processed.dwindles (done : Processed code sys index update) (af : Af) :
    ((sys.perform code index (.packet (.update update))).2.ribs.get af).linked ⊆
      ((updateTables code sys index update).get af).linked := by
  obtain ⟨start, tables, dwindles⟩ := done.published dwindles_closes.toBears.soundly
    fun other generation later _ => @Closes.fail code _ dwindles_closes sys other generation later
  rw [← tables]
  exact dwindles af

/-- The entries that the peer had for an announced prefix are replaced exactly by a heeded announcement and by a
withdrawal. -/
theorem Processed.replaces_iff (done : Processed code sys index update)
    (negotiated : (sys.fsm index).sendRoutes af = true) {announced : Announced af.family.width}
    (member : announced ∈ announcedPrefixes update af) {entry : RouteEntry af.family.width}
    (own : entry.source = (sys.fsm index).peerBgpId) (place : entry.pfx = announced.pfx) :
    (sys.fsm index).Replaces update ((sys.fsm index).applyItems update ((sys.fsm index).ignores code update)) entry ↔
      (sys.fsm index).ignores code update = false ∧
          (sys.fsm index).inPermits af ((sys.fsm index).announcedRoute update af announced) = true ∨
        announced.pfx ∈ withdrawnPrefixes update af := by
  rw [Fsm.Replaces, and_iff_right own, place, or_comm]
  refine or_congr ⟨?_, ?_⟩ (Fsm.withdraw_mem_applyItems.trans (and_iff_right negotiated))
  · rintro ⟨other, listed, same, permitted⟩
    obtain ⟨⟨-, heeded⟩, inside⟩ := Fsm.announce_mem_applyItems.mp listed
    obtain rfl := done.valid.announced_unique inside member same
    exact ⟨heeded, permitted⟩
  · rintro ⟨heeded, permitted⟩
    exact ⟨announced, Fsm.announce_mem_applyItems.mpr ⟨⟨negotiated, heeded⟩, member⟩, rfl, permitted⟩

/-- What an UPDATE that announces a prefix again does to the routes that the peer had for it. When the announcement is
heeded, every route of the peer for the prefix is the announced one. None of the earlier ones is left when the
announcement is heeded, the prefix is also withdrawn or there was none. In every other case the earlier one is left,
unless a message to a peer fails while the UPDATE is passed on. -/
theorem announced_again_replaces (sound : sys.Sound) (live : (sys.fsm index).state = .established)
    (processed : (sys.perform code index (.packet (.update update))).1 = .ok) {af : Af}
    (negotiated : (sys.fsm index).sendRoutes af = true) {announced : Announced af.family.width}
    (member : announced ∈ announcedPrefixes update af) :
    let peer := (sys.fsm index).peerBgpId
    let route := (sys.fsm index).announcedRoute update af announced
    let last := (sys.perform code index (.packet (.update update))).2
    let heeded := (sys.fsm index).ignores code update = false ∧ (sys.fsm index).inPermits af route = true
    let replaced := heeded ∨ announced.pfx ∈ withdrawnPrefixes update af ∨
      (sys.ribs.get af).routeAt peer announced.pfx = none
    let noneLeft := ∀ entry ∈ (sys.ribs.get af).linked, entry.source = peer → entry.pfx = announced.pfx →
      entry ∉ (last.ribs.get af).linked
    (heeded → ∀ entry ∈ (last.ribs.get af).linked, entry.source = peer → entry.pfx = announced.pfx →
        ∃ counter, entry.route = RibImpl.cloneOf counter route) ∧
      (replaced → noneLeft) ∧ (last.Clean → noneLeft → replaced) := by
  have done := processed_of_ok sound live processed
  have exactly := fun entry => @Processed.replaces_iff code sys index update af done negotiated announced member entry
  refine ⟨?_, ?_, ?_⟩
  · rintro ⟨heeded, permitted⟩ entry remains source place
    obtain ⟨counter, stored⟩ := done.stored negotiated heeded member permitted
    have found := ((done.invariant af).routeAt_eq_some_iff).mpr ⟨entry, done.dwindles af remains, source, place, rfl⟩
    exact ⟨counter, Option.some.inj (found.symm.trans stored)⟩
  · intro replaced entry held source place remains
    have kept := (done.earlier af entry held).mp (done.dwindles af remains)
    rw [exactly entry source place] at kept
    rcases replaced with heeded | withdrawn | none
    · exact kept (.inl heeded)
    · exact kept (.inr withdrawn)
    · cases none.symm.trans ((sound af).routeAt_eq_some_iff.mpr ⟨entry, held, source, place, rfl⟩)
  · intro clean noneLeft
    rcases found : (sys.ribs.get af).routeAt (sys.fsm index).peerBgpId announced.pfx with _ | old
    · exact .inr (.inr rfl)
    · obtain ⟨entry, held, source, place, -⟩ := (sound af).routeAt_eq_some_iff.mp found
      have gone := noneLeft entry held source place
      rw [done.tables clean, done.earlier af entry held, not_not, exactly entry source place] at gone
      exact gone.imp_right .inl

/-- A longer path for a stored prefix replaces the route. -/
theorem announced_again_replaces_sample :
    ((sampleHolder []).perform libbgpCode 0 (.packet (.update
      (sampleUpdate [] [65002, 65003] [⟨0xc0000200, 24⟩])))).1 = .ok ∧
    ∀ entry ∈ (((sampleHolder []).perform libbgpCode 0 (.packet (.update
        (sampleUpdate [] [65002, 65003] [⟨0xc0000200, 24⟩])))).2.ribs.get .ipv4).linked,
      entry.source = ((sampleHolder []).fsm 0).peerBgpId → entry.pfx = ⟨0xc0000200, 24⟩ →
        ∃ counter, entry.route = RibImpl.cloneOf counter (((sampleHolder []).fsm 0).announcedRoute
          (sampleUpdate [] [65002, 65003] [⟨0xc0000200, 24⟩]) .ipv4 ⟨⟨0xc0000200, 24⟩, 0x0a000009, 0, 0⟩) :=
  ⟨by decide +kernel, (@announced_again_replaces libbgpCode (sampleHolder []) 0 _ (sampleHolder_sound [])
    (by decide +kernel) (by decide +kernel) .ipv4 (by decide +kernel) ⟨⟨0xc0000200, 24⟩, _, 0, 0⟩
    (List.mem_singleton.mpr rfl)).1 ⟨by decide +kernel, by decide +kernel⟩⟩

/-- A path with our own number makes the session ignore the announcement, and the old route stays. -/
theorem announced_again_ignored :
    ((sampleHolder []).perform libbgpCode 0 (.packet (.update
      (sampleUpdate [] [65002, 65001] [⟨0xc0000200, 24⟩])))).1 = .ok ∧
    (((sampleHolder []).perform libbgpCode 0 (.packet (.update
      (sampleUpdate [] [65002, 65001] [⟨0xc0000200, 24⟩])))).2.ribs.get .ipv4).routeAt 0x0a000002 ⟨0xc0000200, 24⟩ =
      ((sampleHolder []).ribs.get .ipv4).routeAt 0x0a000002 ⟨0xc0000200, 24⟩ ∧
    (((sampleHolder []).ribs.get .ipv4).routeAt 0x0a000002 ⟨0xc0000200, 24⟩).isSome = true := by
  decide +kernel

end Calls

end Sys

end Libbgp
