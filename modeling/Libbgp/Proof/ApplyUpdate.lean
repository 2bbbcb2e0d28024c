import Libbgp.Construction.ApplyUpdate
import Libbgp.Library.Steps
import Libbgp.Proof.Rollback

namespace Libbgp

open Library List

/-- One turn of the four loops of `fsm_apply_update`. -/
inductive ApplyItem where
  | withdraw (af : Af) (pfx : Prefix af.family.width)
  | announce (af : Af) (announced : Announced af.family.width)

/-- The table that a turn works on. -/
def ApplyItem.table : ApplyItem → Af
  | .withdraw af _ => af
  | .announce af _ => af

section Loop

variable {Item Other State : Type} {step : State → Item → Err × State}

/-- The second part of a list runs only if the first succeeds. -/
theorem untilError_append (left right : List Item) (state : State) :
    untilError step (left ++ right) state =
      match untilError step left state with
      | (.ok, state) => untilError step right state
      | failed => failed := by
  induction left generalizing state with
  | nil => rfl
  | cons item rest ih =>
    simp only [cons_append, untilError]
    rcases step state item with ⟨err, middle⟩
    cases err with
    | ok => exact ih middle
    | _ => rfl

theorem untilError_map (inner : Other → Item) (items : List Other) (state : State) :
    untilError step (items.map inner) state = untilError (fun state item => step state (inner item)) items state := by
  induction items generalizing state with
  | nil => rfl
  | cons item rest ih =>
    simp only [map_cons, untilError]
    split
    · exact ih _
    · rfl

/-- A loop makes a step for every item, or it makes some of them and then fails. -/
theorem untilError_cases {good : Item → State → State → Prop} {bad : Item → Err → State → State → Prop}
    {sound : State → Prop} {items : List Item} {state : State} (start : sound state)
    (cases : ∀ item ∈ items, ∀ state, sound state →
      (∃ after, step state item = (.ok, after) ∧ good item state after ∧ sound after) ∨
      (∃ err after, step state item = (err, after) ∧ err ≠ .ok ∧ bad item err state after)) :
    (∃ after, untilError step items state = (.ok, after) ∧ Steps good items state after) ∨
    (∃ done item rest err middle after, items = done ++ item :: rest ∧ untilError step items state = (err, after) ∧
      err ≠ .ok ∧ Steps good done state middle ∧ sound middle ∧ bad item err middle after) := by
  induction items generalizing state with
  | nil => exact .inl ⟨state, rfl, .done state⟩
  | cons item rest ih =>
    rcases cases item mem_cons_self state start with ⟨middle, taken, head, kept⟩ | ⟨err, after, failed, wrong, broken⟩
    · have onward : untilError step (item :: rest) state = untilError step rest middle := by
        simp only [untilError, taken]
      rw [onward]
      rcases ih kept fun other member => cases other (mem_cons_of_mem _ member) with
        ⟨after, finished, tail⟩ | ⟨done, stop, left, err, last, after, split, failed, wrong, tail, soundLast, broken⟩
      · exact .inl ⟨after, finished, .next head tail⟩
      · exact .inr ⟨item :: done, stop, left, err, last, after, by rw [split, cons_append], failed, wrong,
          .next head tail, soundLast, broken⟩
    · refine .inr ⟨[], item, rest, err, state, after, rfl, ?_, wrong, .done state, start, broken⟩
      simp only [untilError, failed]
      cases err with
      | ok => exact absurd rfl wrong
      | _ => rfl

end Loop

namespace Fsm

variable {fsm : Fsm} {update : UpdateMsg} {ignored : Bool} {state before after : Applying} {item : ApplyItem}
  {start : Applying}

def applyItem (fsm : Fsm) (update : UpdateMsg) (state : Applying) : ApplyItem → Err × Applying
  | .withdraw af pfx => state.recordWithdraw af fsm.peerBgpId pfx
  | .announce af announced => fsm.announce af update state announced

/-- The withdrawals of a negotiated family. -/
def withdrawItems (fsm : Fsm) (update : UpdateMsg) (af : Af) : List ApplyItem :=
  if fsm.sendRoutes af then (withdrawnPrefixes update af).map (.withdraw af) else []

/-- The announcements of a negotiated family in a message that is not ignored. -/
def announceItems (fsm : Fsm) (update : UpdateMsg) (ignored : Bool) (af : Af) : List ApplyItem :=
  if fsm.sendRoutes af && !ignored then (announcedPrefixes update af).map (.announce af) else []

/-- All turns of the four loops. -/
def applyItems (fsm : Fsm) (update : UpdateMsg) (ignored : Bool) : List ApplyItem :=
  fsm.withdrawItems update .ipv4 ++ (fsm.announceItems update ignored .ipv4 ++
    (fsm.withdrawItems update .ipv6 ++ fsm.announceItems update ignored .ipv6))

theorem applyWithdrawn_eq (af : Af) (state : Applying) :
    fsm.applyWithdrawn af update state = untilError (fsm.applyItem update) (fsm.withdrawItems update af) state := by
  unfold applyWithdrawn withdrawItems
  split
  · rw [untilError_map]
    rfl
  · rfl

theorem applyAnnounced_eq (af : Af) (state : Applying) :
    fsm.applyAnnounced af update ignored state =
      untilError (fsm.applyItem update) (fsm.announceItems update ignored af) state := by
  unfold applyAnnounced announceItems
  split
  · rw [untilError_map]
    rfl
  · rfl

/-- The four loops are one loop over all turns. -/
theorem applyLoops_eq (state : Applying) :
    fsm.applyLoops update ignored state =
      untilError (fsm.applyItem update) (fsm.applyItems update ignored) state := by
  simp only [applyLoops, applyWithdrawn_eq, applyAnnounced_eq, applyItems, untilError_append]
  rcases untilError (fsm.applyItem update) (fsm.withdrawItems update .ipv4) state with ⟨err, state⟩
  cases err with
  | ok =>
    dsimp only
    rcases untilError (fsm.applyItem update) (fsm.announceItems update ignored .ipv4) state with ⟨err, state⟩
    cases err with
    | ok =>
      dsimp only
      rcases untilError (fsm.applyItem update) (fsm.withdrawItems update .ipv6) state with ⟨err, state⟩
      cases err <;> rfl
    | _ => rfl
  | _ => rfl

/-- A turn whose route the tables and the route builder accept. -/
def Fits : ApplyItem → Prop
  | .withdraw _ _ => True
  | .announce af announced =>
    announced.pfx.len ≤ af.family.width ∧ (af = .ipv6 → announced.nextHopLen = 16 ∨ announced.nextHopLen = 32)

/-- The route that an announcement stands for. -/
def announcedRoute (fsm : Fsm) (update : UpdateMsg) (af : Af) (announced : Announced af.family.width) :
    Route af.family.width :=
  routeOf af fsm.peerBgpId update announced fsm.params.routeWeight fsm.isIbgp

/-- A completed turn. -/
inductive ApplyStep (fsm : Fsm) (update : UpdateMsg) : ApplyItem → Applying → Applying → Prop
  | withdraw {af : Af} {pfx : Prefix af.family.width} {before after : Applying}
      (taken : Applying.WithdrawStep af fsm.peerBgpId pfx before after) :
      ApplyStep fsm update (.withdraw af pfx) before after
  | denied {af : Af} {announced : Announced af.family.width} {before after : Applying}
      (denied : fsm.inPermits af (fsm.announcedRoute update af announced) = false) (ribs : after.ribs = before.ribs)
      (journal : after.journal = before.journal) (spent : before.alloc.Spent after.alloc) :
      ApplyStep fsm update (.announce af announced) before after
  | insert {af : Af} {announced : Announced af.family.width} {before after : Applying}
      (permitted : fsm.inPermits af (fsm.announcedRoute update af announced) = true)
      (taken : Applying.InsertStep af fsm.peerBgpId (fsm.announcedRoute update af announced) before after) :
      ApplyStep fsm update (.announce af announced) before after

/-- The route of an announcement is built, or memory for it is refused. -/
theorem makeRoute_cases (af : Af) (announced : Announced af.family.width) (fits : Fits (.announce af announced))
    (alloc : Allocator) :
    (∃ rest, makeRoute af fsm.peerBgpId update announced fsm.params.routeWeight fsm.isIbgp alloc =
      (.ok (fsm.announcedRoute update af announced), rest) ∧ alloc.Spent rest) ∨
    (∃ rest, makeRoute af fsm.peerBgpId update announced fsm.params.routeWeight fsm.isIbgp alloc =
      (.error .nomem, rest) ∧ alloc.Refused rest) := by
  cases af with
  | ipv4 => exact .inl ⟨alloc, rfl, .refl _⟩
  | ipv6 =>
    have lengths : ¬ (announced.nextHopLen ≠ 16 ∧ announced.nextHopLen ≠ 32) := by
      have := fits.2 rfl
      omega
    unfold makeRoute
    simp only [if_neg lengths]
    split
    · exact .inl ⟨alloc, rfl, .refl _⟩
    · rcases alloc.request_cases with ⟨rest, granted, spent⟩ | ⟨rest, denied, refused⟩
      · rw [granted]
        exact .inl ⟨rest, rfl, spent⟩
      · rw [denied]
        exact .inr ⟨rest, rfl, refused⟩

/-- A turn is completed, or it is refused memory and leaves nothing behind. -/
theorem applyItem_cases (fits : Fits item) (invariant : (state.ribs.get item.table).Invariant) :
    (∃ after, fsm.applyItem update state item = (.ok, after) ∧ ApplyStep fsm update item state after) ∨
    (∃ after, fsm.applyItem update state item = (.nomem, after) ∧ state.alloc.Refused after.alloc ∧
      Applying.Failed item.table fsm.peerBgpId state after) := by
  cases item with
  | withdraw af pfx =>
    rcases Applying.recordWithdraw_cases invariant fsm.peerBgpId pfx with ⟨after, done, taken⟩ | failed
    · exact .inl ⟨after, done, .withdraw taken⟩
    · exact .inr failed
  | announce af announced =>
    simp only [applyItem, announce]
    rcases @makeRoute_cases fsm update af announced fits state.alloc with ⟨rest, made, spent⟩ | ⟨rest, failed, refused⟩
    · simp only [made]
      by_cases permitted : fsm.inPermits af (fsm.announcedRoute update af announced)
      · simp only [permitted, if_true]
        rcases @Applying.insertRecorded_cases { state with alloc := rest } af fsm.peerBgpId invariant
            (fsm.announcedRoute update af announced) rfl rfl with
          ⟨after, done, taken⟩ | ⟨after, failed, refused, undone⟩ | ⟨long, -⟩
        · refine .inl ⟨after, done, .insert permitted ⟨taken.stored, taken.others, ?_, taken.recorded⟩⟩
          exact spent.trans taken.spent
        · refine .inr ⟨after, failed, spent.trans_refused refused, ?_, undone.records, fun single => ?_⟩
          · exact ⟨spent.trans undone.confined.spent, undone.confined.others, undone.confined.invariant,
              undone.confined.foreign⟩
          · exact undone.restored (single.spent spent)
        · exact absurd fits.1 (Nat.not_le.mpr long)
      · simp only [permitted, Bool.false_eq_true, if_false]
        exact .inl ⟨_, rfl, .denied (Bool.eq_false_of_not_eq_true permitted) rfl rfl spent⟩
    · simp only [failed]
      exact .inr ⟨_, rfl, refused, ⟨refused.spent, fun _ _ => rfl, invariant, fun _ _ => rfl⟩,
        Journal.SameRecords.refl _, fun _ => rfl⟩

/-- A turn touches the routes of the peer in its own table only. -/
theorem ApplyStep.confined (taken : ApplyStep fsm update item before after)
    (invariant : (before.ribs.get item.table).Invariant) :
    Applying.Confined item.table fsm.peerBgpId before after := by
  cases taken with
  | withdraw taken => exact taken.confined invariant
  | denied denied ribs journal spent =>
    refine ⟨spent, fun other _ => by rw [ribs], by rw [ribs]; exact invariant, fun source _ => ?_⟩
    rw [Applying.routesFrom, ribs, Applying.routesFrom]
  | insert permitted taken => exact taken.confined rfl invariant

theorem ApplyStep.sound (taken : ApplyStep fsm update item before after)
    (invariant : ∀ af, (before.ribs.get af).Invariant) (af : Af) : (after.ribs.get af).Invariant := by
  have confined := taken.confined (invariant item.table)
  by_cases here : af = item.table
  · rw [here]
    exact confined.invariant
  · rw [confined.others af here]
    exact invariant af

/-- What holds of the whole state while a message is applied. -/
structure Tracked (fsm : Fsm) (start state : Applying) : Prop where
  invariant : ∀ af, (state.ribs.get af).Invariant
  foreign : ∀ af source, source ≠ fsm.peerBgpId → state.routesFrom af source = start.routesFrom af source
  journaled : ∀ af, Applying.Journaled af fsm.peerBgpId (start.routesFrom af fsm.peerBgpId) state

/-- Announcements do not precede withdrawals of the same family. -/
def InOrder (items : List ApplyItem) : Prop :=
  items.Pairwise fun first later => ∀ af announced pfx, first = .announce af announced → later ≠ .withdraw af pfx

/-- Nothing has been inserted into a table from which something will still be withdrawn. -/
def Early (items : List ApplyItem) (state : Applying) : Prop :=
  ∀ af pfx, .withdraw af pfx ∈ items → state.journal.insertions af = []

/-- One turn keeps what holds while a message is applied. -/
theorem Tracked.step {rest : List ApplyItem} (tracked : Tracked fsm start before)
    (early : Early (item :: rest) before) (order : InOrder (item :: rest))
    (taken : ApplyStep fsm update item before after) : Tracked fsm start after ∧ Early rest after := by
  have confined := taken.confined (tracked.invariant item.table)
  have sound := taken.sound tracked.invariant
  have foreign : ∀ af source, source ≠ fsm.peerBgpId → after.routesFrom af source = start.routesFrom af source := by
    intro af source different
    rw [← tracked.foreign af source different]
    by_cases same : af = item.table
    · rw [same]
      exact confined.foreign source different
    · rw [Applying.routesFrom, confined.others af same, Applying.routesFrom]
  cases taken with
  | @withdraw own pfx _ _ taken =>
    have none := early own pfx mem_cons_self
    have records : ∃ removed changes, Applying.Recorded before.journal after.journal own [] removed changes := by
      cases taken with
      | missing absent ribs spent recorded => exact ⟨_, _, recorded⟩
      | done entry change member isOwn place detached report others spent recorded => exact ⟨_, _, recorded⟩
    obtain ⟨removed, changes, recorded⟩ := records
    have insertions : ∀ af, after.journal.insertions af = before.journal.insertions af := by
      intro af
      by_cases same : af = own
      · subst same
        rw [recorded.insertions, append_nil]
      · exact recorded.otherInsertions af same
    refine ⟨⟨sound, foreign, fun af => ?_⟩, fun af later member => ?_⟩
    · by_cases same : af = own
      · subst same
        exact (tracked.journaled af).withdraw none taken (tracked.invariant af)
      · exact (tracked.journaled af).other (confined.others af same) (recorded.otherInsertions af same)
          (recorded.otherRemovals af same)
    · rw [insertions]
      exact early af later (mem_cons_of_mem _ member)
  | @denied own announced _ _ denied ribs journal spent =>
    refine ⟨⟨sound, foreign, fun af => ?_⟩, fun af later member => ?_⟩
    · exact (tracked.journaled af).other (by rw [ribs]) (by rw [journal]) (by rw [journal])
    · rw [journal]
      exact early af later (mem_cons_of_mem _ member)
  | @insert own announced _ _ permitted taken =>
    obtain ⟨change, best, report, recorded⟩ := taken.recorded
    refine ⟨⟨sound, foreign, fun af => ?_⟩, fun af later member => ?_⟩
    · by_cases same : af = own
      · subst same
        exact (tracked.journaled af).insert rfl rfl taken (tracked.invariant af)
      · exact (tracked.journaled af).other (confined.others af same) (recorded.otherInsertions af same)
          (recorded.otherRemovals af same)
    · have different : af ≠ own := by
        rintro rfl
        exact (pairwise_cons.mp order).1 _ member af announced later rfl rfl
      rw [recorded.otherInsertions af different]
      exact early af later (mem_cons_of_mem _ member)

theorem Tracked.run {items : List ApplyItem} (run : Steps (ApplyStep fsm update) items before after)
    (tracked : Tracked fsm start before) (early : Early items before) (order : InOrder items) :
    Tracked fsm start after := by
  induction run with
  | done => exact tracked
  | next head tail ih =>
    obtain ⟨kept, later⟩ := tracked.step early order head
    exact ih kept later (pairwise_cons.mp order).2

end Fsm

section Validate

variable {update : UpdateMsg} {af : Af}

/-- What the attribute loop has checked when it accepts a list. -/
structure ValidAttrs (attrs : List (Option PAttr)) : Prop where
  present : none ∉ attrs
  mp : ∀ attr ∈ attrs.filterMap id, validateUpdateMpAttr attr = none
  codes : ((attrs.filterMap id).map PAttr.typeCode).Nodup

/-- Accepted attributes are valid, and no code comes twice. -/
theorem validateAttrs_accepts {seen : List PAttr} {attrs : List (Option PAttr)}
    (accepted : validateAttrs seen attrs = none) :
    ValidAttrs attrs ∧ ∀ first ∈ seen, first.typeCode ∉ (attrs.filterMap id).map PAttr.typeCode := by
  induction attrs generalizing seen with
  | nil => exact ⟨⟨by simp, by simp, by simp⟩, by simp⟩
  | cons attr rest ih =>
    cases attr with
    | none => cases accepted
    | some attr =>
      simp only [validateAttrs] at accepted
      split at accepted
      · cases accepted
      rename_i newCode
      split at accepted
      · cases accepted
      split at accepted
      · cases accepted
      split at accepted
      · cases accepted
      rename_i mp
      obtain ⟨valid, apart⟩ := ih accepted
      refine ⟨⟨?_, ?_, ?_⟩, fun first member => ?_⟩
      · simpa using valid.present
      · intro other member
        rcases mem_cons.mp member with rfl | later
        · exact mp
        · exact valid.mp other later
      · exact nodup_cons.mpr ⟨apart attr mem_cons_self, valid.codes⟩
      · intro inside
        rcases mem_cons.mp inside with same | behind
        · exact newCode (any_eq_true.mpr ⟨first, member, beq_iff_eq.mpr same⟩)
        · exact apart first (mem_cons_of_mem _ member) behind

/-- What an accepted message satisfies. -/
structure ValidUpdate (update : UpdateMsg) : Prop where
  withdrawn : ∀ pfx ∈ update.withdrawn, pfx.len ≤ 32
  nlri : ∀ pfx ∈ update.nlri, pfx.len ≤ 32
  attrs : ValidAttrs update.attrs
  wellKnown4 : update.nlri ≠ [] →
    countType update .origin = 1 ∧ countType update .asPath = 1 ∧ countType update .nextHop = 1
  wellKnown6 : mpReachHasNlri update = true → countType update .origin = 1 ∧ countType update .asPath = 1

/-- An accepted UPDATE is valid. -/
theorem validateUpdate_accepts (accepted : validateUpdate update = none) : ValidUpdate update := by
  unfold validateUpdate at accepted
  split at accepted
  · cases accepted
  rename_i lengths
  split at accepted
  · cases accepted
  rename_i attrs
  rw [Bool.or_eq_true, not_or, any_eq_true, any_eq_true] at lengths
  dsimp only at accepted
  split at accepted
  · cases accepted
  rename_i known4
  split at accepted
  · cases accepted
  rename_i known6
  refine ⟨fun pfx member => ?_, fun pfx member => ?_, (validateAttrs_accepts attrs).1, fun some => ?_, fun some => ?_⟩
  · by_contra long
    exact lengths.1 ⟨pfx, member, by simpa using long⟩
  · by_contra long
    exact lengths.2 ⟨pfx, member, by simpa using long⟩
  · simpa [some, and_assoc] using known4
  · simpa [some] using known6

theorem mem_announced6 {announced : Announced Af.ipv6.family.width} :
    announced ∈ announcedPrefixes update .ipv6 ↔
      ∃ attr ∈ update.attrs.filterMap id, ∃ nexthop linkLocal nexthopLen nlri,
        attr.data = .mpReachIpv6 nexthop linkLocal nexthopLen nlri ∧ announced.pfx ∈ nlri ∧
          announced = ⟨announced.pfx, nexthop, linkLocal, nexthopLen⟩ := by
  simp only [announcedPrefixes]
  rw [mem_flatMap]
  constructor
  · rintro ⟨attr, member, listed⟩
    split at listed
    · rename_i nexthop linkLocal nexthopLen nlri data
      obtain ⟨pfx, inside, rfl⟩ := mem_map.mp listed
      exact ⟨attr, member, nexthop, linkLocal, nexthopLen, nlri, data, inside, rfl⟩
    · cases listed
  · rintro ⟨attr, member, nexthop, linkLocal, nexthopLen, nlri, data, inside, same⟩
    refine ⟨attr, member, ?_⟩
    simp only [data]
    exact mem_map.mpr ⟨announced.pfx, inside, same.symm⟩

/-- An accepted message announces a prefix with one next hop only. -/
theorem ValidUpdate.announced_unique (valid : ValidUpdate update) {first second : Announced af.family.width}
    (firstIn : first ∈ announcedPrefixes update af) (secondIn : second ∈ announcedPrefixes update af)
    (same : first.pfx = second.pfx) : first = second := by
  cases af with
  | ipv4 =>
    obtain ⟨pfx, -, rfl⟩ := mem_map.mp firstIn
    obtain ⟨other, -, rfl⟩ := mem_map.mp secondIn
    have equal : pfx = other := same
    rw [equal]
  | ipv6 =>
    obtain ⟨left, leftIn, nexthop, linkLocal, len, nlri, leftData, -, firstEq⟩ := mem_announced6.mp firstIn
    obtain ⟨right, rightIn, nexthop', linkLocal', len', nlri', rightData, -, secondEq⟩ := mem_announced6.mp secondIn
    -- The attribute loop rejects a second attribute with the same code.
    have equal : left = right := by
      refine inj_on_of_nodup_map valid.attrs.codes leftIn rightIn ?_
      simp only [PAttr.typeCode, leftData, rightData]
    rw [equal, rightData] at leftData
    cases leftData
    rw [firstEq, secondEq, same]

/-- The routes of an accepted message fit the tables. -/
theorem ValidUpdate.fits (valid : ValidUpdate update) {announced : Announced af.family.width}
    (member : announced ∈ announcedPrefixes update af) : Fsm.Fits (.announce af announced) := by
  cases af with
  | ipv4 =>
    obtain ⟨pfx, listed, rfl⟩ := mem_map.mp member
    exact ⟨valid.nlri pfx listed, nofun⟩
  | ipv6 =>
    obtain ⟨attr, listed, nexthop, linkLocal, len, nlri, data, inside, same⟩ := mem_announced6.mp member
    have checked := valid.attrs.mp attr listed
    simp only [validateUpdateMpAttr, data] at checked
    split at checked
    · cases checked
    rename_i lengths
    split at checked
    · cases checked
    rename_i prefixes
    rw [same]
    refine ⟨?_, fun _ => ?_⟩
    · by_contra long
      exact prefixes (any_eq_true.mpr ⟨announced.pfx, inside, decide_eq_true (Nat.lt_of_not_le long)⟩)
    · change len = 16 ∨ len = 32
      omega

end Validate

namespace Fsm

variable {fsm : Fsm} {update : UpdateMsg} {ignored : Bool} {before after : Applying} {item : ApplyItem} {af : Af}
  {own : Af} {pfx : Prefix af.family.width} {announced : Announced af.family.width} {rest : List ApplyItem}

theorem mem_withdrawItems :
    item ∈ fsm.withdrawItems update own ↔
      fsm.sendRoutes own = true ∧ ∃ pfx ∈ withdrawnPrefixes update own, item = .withdraw own pfx := by
  unfold withdrawItems
  split
  · rename_i negotiated
    rw [mem_map]
    exact ⟨fun ⟨pfx, listed, same⟩ => ⟨negotiated, pfx, listed, same.symm⟩,
      fun ⟨_, pfx, listed, same⟩ => ⟨pfx, listed, same.symm⟩⟩
  · rename_i denied
    exact ⟨fun absent => (nomatch absent), fun ⟨negotiated, _⟩ => absurd negotiated denied⟩

theorem mem_announceItems :
    item ∈ fsm.announceItems update ignored own ↔ (fsm.sendRoutes own = true ∧ ignored = false) ∧
      ∃ announced ∈ announcedPrefixes update own, item = .announce own announced := by
  unfold announceItems
  split
  · rename_i used
    rw [Bool.and_eq_true, Bool.not_eq_true'] at used
    rw [mem_map]
    exact ⟨fun ⟨announced, listed, same⟩ => ⟨used, announced, listed, same.symm⟩,
      fun ⟨_, announced, listed, same⟩ => ⟨announced, listed, same.symm⟩⟩
  · rename_i unused
    rw [Bool.and_eq_true, Bool.not_eq_true'] at unused
    exact ⟨fun absent => (nomatch absent), fun ⟨used, _⟩ => absurd used unused⟩

theorem withdraw_mem_applyItems :
    .withdraw af pfx ∈ fsm.applyItems update ignored ↔
      fsm.sendRoutes af = true ∧ pfx ∈ withdrawnPrefixes update af := by
  simp only [applyItems, mem_append, mem_withdrawItems, mem_announceItems, reduceCtorEq, and_false,
    exists_false, false_or, or_false]
  cases af with
  | ipv4 => simp
  | ipv6 => simp

theorem announce_mem_applyItems :
    .announce af announced ∈ fsm.applyItems update ignored ↔
      (fsm.sendRoutes af = true ∧ ignored = false) ∧ announced ∈ announcedPrefixes update af := by
  simp only [applyItems, mem_append, mem_withdrawItems, mem_announceItems, reduceCtorEq, and_false,
    exists_false, false_or]
  cases af with
  | ipv4 => simp
  | ipv6 => simp

/-- A message is applied with its withdrawals first. -/
theorem applyItems_inOrder (fsm : Fsm) (update : UpdateMsg) (ignored : Bool) :
    InOrder (fsm.applyItems update ignored) := by
  have fromWithdraw : ∀ own, ∀ first ∈ fsm.withdrawItems update own, ∀ later : ApplyItem,
      ∀ af announced pfx, first = .announce af announced → later ≠ .withdraw af pfx := by
    intro own first member later af announced pfx same
    obtain ⟨-, other, -, rfl⟩ := mem_withdrawItems.mp member
    cases same
  have toAnnounce : ∀ own, ∀ later ∈ fsm.announceItems update ignored own, ∀ first : ApplyItem,
      ∀ af announced pfx, first = .announce af announced → later ≠ .withdraw af pfx := by
    intro own later member first af announced pfx _ same
    obtain ⟨-, other, -, rfl⟩ := mem_announceItems.mp member
    cases same
  unfold InOrder applyItems
  refine pairwise_append.mpr ⟨?_, pairwise_append.mpr ⟨?_, pairwise_append.mpr ⟨?_, ?_, ?_⟩, ?_⟩, ?_⟩
  · exact pairwise_of_forall_mem_list fun first member later _ => fromWithdraw _ first member later
  · exact pairwise_of_forall_mem_list fun first _ later member => toAnnounce _ later member first
  · exact pairwise_of_forall_mem_list fun first member later _ => fromWithdraw _ first member later
  · exact pairwise_of_forall_mem_list fun first _ later member => toAnnounce _ later member first
  · exact fun first member later _ => fromWithdraw _ first member later
  · intro first member later behind af announced pfx same
    rcases mem_append.mp behind with withdrawn | announcedLater
    · -- The IPv4 announcements come before the IPv6 withdrawals, which are in the other table.
      obtain ⟨-, own, -, rfl⟩ := mem_announceItems.mp member
      obtain ⟨-, other, -, rfl⟩ := mem_withdrawItems.mp withdrawn
      cases same
      intro impossible
      cases impossible
    · exact toAnnounce _ later announcedLater first af announced pfx same
  · exact fun first member later _ => fromWithdraw _ first member later

/-- A permitted announcement of a prefix is among the turns. -/
def Announces (fsm : Fsm) (update : UpdateMsg) (items : List ApplyItem) (af : Af) (pfx : Prefix af.family.width)
    (announced : Announced af.family.width) : Prop :=
  .announce af announced ∈ items ∧ announced.pfx = pfx ∧
    fsm.inPermits af (fsm.announcedRoute update af announced) = true

/-- What a turn does to one prefix of the peer. -/
theorem ApplyStep.effect (taken : ApplyStep fsm update item before after)
    (invariant : (before.ribs.get item.table).Invariant) (af : Af) (pfx : Prefix af.family.width) :
    (item = .withdraw af pfx ∧ after.routesFrom af fsm.peerBgpId pfx = none) ∨
    (∃ announced, fsm.Announces update [item] af pfx announced ∧ ∃ counter,
      after.routesFrom af fsm.peerBgpId pfx = some (RibImpl.cloneOf counter (fsm.announcedRoute update af announced))) ∨
    (item ≠ .withdraw af pfx ∧ (∀ announced, ¬ fsm.Announces update [item] af pfx announced) ∧
      after.routesFrom af fsm.peerBgpId pfx = before.routesFrom af fsm.peerBgpId pfx) := by
  by_cases table : af = item.table
  · cases taken with
    | @withdraw own other _ _ taken =>
      have same : af = own := table
      subst same
      rw [taken.routesFrom_eq invariant]
      by_cases here : pfx = other
      · subst here
        exact .inl ⟨rfl, Function.update_self _ _ _⟩
      · refine .inr (.inr ⟨fun same => ?_, fun announced announces => ?_, Function.update_of_ne here _ _⟩)
        · cases same
          exact here rfl
        · cases mem_singleton.mp announces.1
    | @denied own announced _ _ denied ribs journal spent =>
      have same : af = own := table
      subst same
      refine .inr (.inr ⟨fun impossible => (nomatch impossible), fun other announces => ?_, ?_⟩)
      · cases mem_singleton.mp announces.1
        rw [announces.2.2] at denied
        cases denied
      · rw [Applying.routesFrom, ribs, Applying.routesFrom]
    | @insert own announced _ _ permitted taken =>
      have same : af = own := table
      subst same
      rw [taken.routesFrom_eq rfl invariant]
      by_cases here : pfx = announced.pfx
      · subst here
        exact .inr (.inl ⟨announced, ⟨mem_singleton_self _, rfl, permitted⟩, _, Function.update_self _ _ _⟩)
      · refine .inr (.inr ⟨fun impossible => (nomatch impossible), fun other announces => ?_,
          Function.update_of_ne here _ _⟩)
        cases mem_singleton.mp announces.1
        exact here announces.2.1.symm
  · refine .inr (.inr ⟨?_, fun announced announces => ?_, ?_⟩)
    · rintro rfl
      exact table rfl
    · rw [← mem_singleton.mp announces.1] at table
      exact table rfl
    · rw [Applying.routesFrom, (taken.confined invariant).others af table, Applying.routesFrom]

/-- What a list of turns leaves under one prefix of the peer. -/
structure Outcome (fsm : Fsm) (update : UpdateMsg) (items : List ApplyItem) (af : Af) (pfx : Prefix af.family.width)
    (old new : Option (Route af.family.width)) : Prop where
  announced : (∃ announced, fsm.Announces update items af pfx announced) →
    ∃ announced counter, fsm.Announces update items af pfx announced ∧
      new = some (RibImpl.cloneOf counter (fsm.announcedRoute update af announced))
  withdrawn : (∀ announced, ¬ fsm.Announces update items af pfx announced) → .withdraw af pfx ∈ items → new = none
  kept : (∀ announced, ¬ fsm.Announces update items af pfx announced) → .withdraw af pfx ∉ items → new = old

theorem Announces.cons {rest : List ApplyItem} {pfx : Prefix af.family.width} {announced : Announced af.family.width}
    (announces : fsm.Announces update (item :: rest) af pfx announced) :
    fsm.Announces update [item] af pfx announced ∨ fsm.Announces update rest af pfx announced := by
  rcases mem_cons.mp announces.1 with head | tail
  · exact .inl ⟨mem_singleton.mpr head, announces.2⟩
  · exact .inr ⟨tail, announces.2⟩

theorem Announces.of_head (announces : fsm.Announces update [item] af pfx announced) :
    fsm.Announces update (item :: rest) af pfx announced :=
  ⟨mem_cons.mpr (.inl (mem_singleton.mp announces.1)), announces.2⟩

theorem Announces.of_tail (announces : fsm.Announces update rest af pfx announced) :
    fsm.Announces update (item :: rest) af pfx announced :=
  ⟨mem_cons_of_mem _ announces.1, announces.2⟩

/-- The last turn that concerns a prefix decides, and announcements come last. -/
theorem applied_outcome {items : List ApplyItem} (run : Steps (ApplyStep fsm update) items before after)
    (invariant : ∀ af, (before.ribs.get af).Invariant) (order : InOrder items) (af : Af)
    (pfx : Prefix af.family.width) :
    fsm.Outcome update items af pfx (before.routesFrom af fsm.peerBgpId pfx)
      (after.routesFrom af fsm.peerBgpId pfx) := by
  induction run with
  | done => exact ⟨fun ⟨_, absent, _⟩ => (nomatch absent), fun _ absent => (nomatch absent), fun _ _ => rfl⟩
  | @next item rest first second third head tail ih =>
    have sound := head.sound invariant
    obtain ⟨fromHead, laterOrder⟩ := pairwise_cons.mp order
    have later := ih sound laterOrder
    by_cases more : ∃ announced, fsm.Announces update rest af pfx announced
    · -- A later announcement decides.
      have result := later.announced more
      obtain ⟨other, inside⟩ := more
      refine ⟨fun _ => ?_, fun none => absurd inside.of_tail (none other),
        fun none => absurd inside.of_tail (none other)⟩
      obtain ⟨announced, counter, announces, value⟩ := result
      exact ⟨announced, counter, announces.of_tail, value⟩
    · have none : ∀ announced, ¬ fsm.Announces update rest af pfx announced := fun announced inside =>
        more ⟨announced, inside⟩
      rcases head.effect (invariant _) af pfx with
        ⟨rfl, cleared⟩ | ⟨announced, announces, counter, stored⟩ | ⟨noWithdraw, noAnnounce, same⟩
      · have absent : ∀ announced, ¬ fsm.Announces update (.withdraw af pfx :: rest) af pfx announced := by
          intro announced announces
          rcases announces.cons with here | there
          · cases mem_singleton.mp here.1
          · exact none announced there
        have value : third.routesFrom af fsm.peerBgpId pfx = Option.none := by
          by_cases again : .withdraw af pfx ∈ rest
          · exact later.withdrawn none again
          · rw [later.kept none again, cleared]
        exact ⟨fun ⟨announced, announces⟩ => absurd announces (absent announced), fun _ _ => value,
          fun _ outside => absurd mem_cons_self outside⟩
      · have headItem := mem_singleton.mp announces.1
        have noWithdraw : .withdraw af pfx ∉ rest := fun behind =>
          fromHead _ behind af announced pfx headItem.symm rfl
        refine ⟨fun _ => ⟨announced, counter, announces.of_head, ?_⟩,
          fun absent => absurd announces.of_head (absent announced),
          fun absent => absurd announces.of_head (absent announced)⟩
        rw [later.kept none noWithdraw, stored]
      · refine ⟨fun ⟨announced, announces⟩ => ?_, fun _ inside => ?_, fun _ outside => ?_⟩
        · rcases announces.cons with here | there
          · exact absurd here (noAnnounce announced)
          · exact absurd there (none announced)
        · rcases mem_cons.mp inside with here | there
          · exact absurd here.symm noWithdraw
          · exact later.withdrawn none there
        · rw [later.kept none fun there => outside (mem_cons_of_mem _ there), same]

end Fsm

/-- The verdict of `fsm_update_exceeds_local_as` when it comes to one. -/
def exceedsLocalAs (code : MessageCode) (update : UpdateMsg) (localAsn : UInt32) (allowLocalAs : UInt8)
    (restoreAs4Path : Bool) : Bool :=
  if !update.hasAdvertisements then false
  else if !restoreAs4Path || (update.findAttr .as4Path).isNone then
    asPathExceedsLocalAs (update.findAttr .asPath) localAsn allowLocalAs
  else
    match code.cloneUpdate.result update with
    | .error _ => false
    | .ok copy =>
      match code.restoreAsPath.result copy with
      | .error _ => false
      | .ok restored => asPathExceedsLocalAs (restored.findAttr .asPath) localAsn allowLocalAs

section Verdict

variable {code : MessageCode} {update : UpdateMsg} {alloc : Allocator}

theorem MessageOp.run_cases (op : MessageOp) (update : UpdateMsg) (alloc : Allocator) :
    (∃ rest, op.run update alloc = (op.result update, rest) ∧ alloc.Spent rest) ∨
      (∃ rest, op.run update alloc = (.error .nomem, rest) ∧ alloc.Refused rest) := by
  unfold run
  rcases alloc.requests_cases (op.requests update) with ⟨rest, granted, spent⟩ | ⟨rest, denied, refused⟩
  · rw [granted]
    exact .inl ⟨rest, rfl, spent⟩
  · rw [denied]
    exact .inr ⟨rest, rfl, refused⟩

/-- The loop check comes to its verdict, or it fails. -/
theorem updateExceedsLocalAs_cases (code : MessageCode) (update : UpdateMsg) (localAsn : UInt32) (allowLocalAs : UInt8)
    (restoreAs4Path : Bool) (alloc : Allocator) :
    (∃ rest, updateExceedsLocalAs code update localAsn allowLocalAs restoreAs4Path alloc =
      (.ok (exceedsLocalAs code update localAsn allowLocalAs restoreAs4Path), rest) ∧ alloc.Spent rest) ∨
    (∃ err rest, updateExceedsLocalAs code update localAsn allowLocalAs restoreAs4Path alloc = (.error err, rest) ∧
      err ≠ .ok ∧ alloc.Spent rest) := by
  unfold updateExceedsLocalAs exceedsLocalAs
  split
  · exact .inl ⟨alloc, rfl, .refl _⟩
  split
  · exact .inl ⟨alloc, rfl, .refl _⟩
  rcases code.cloneUpdate.run_cases update alloc with ⟨rest, copied, spent⟩ | ⟨rest, failed, refused⟩
  · rw [copied]
    rcases result : code.cloneUpdate.result update with err | copy
    · exact .inr ⟨err, rest, rfl, code.cloneUpdate.fails _ _ result, spent⟩
    · dsimp only
      rcases code.restoreAsPath.run_cases copy rest with ⟨left, restored, more⟩ | ⟨left, failed, refused⟩
      · rw [restored]
        rcases last : code.restoreAsPath.result copy with err | path
        · exact .inr ⟨err, left, rfl, code.restoreAsPath.fails _ _ last, spent.trans more⟩
        · exact .inl ⟨left, rfl, spent.trans more⟩
      · rw [failed]
        exact .inr ⟨.nomem, left, rfl, by decide, spent.trans refused.spent⟩
  · rw [failed]
    exact .inr ⟨.nomem, rest, rfl, by decide, refused.spent⟩

end Verdict

namespace Fsm

/-- The announcements of a message are not used: a loop, or a next hop that is not acceptable. -/
def ignores (fsm : Fsm) (code : MessageCode) (update : UpdateMsg) : Bool :=
  exceedsLocalAs code update fsm.params.config.localAsn fsm.params.allowLocalAs fsm.peerCanSendAs4Path ||
    fsm.rejectsNextHop4 update || fsm.rejectsNextHop6 update

/-- A state in which the loops begin. -/
structure Starts (ribs : Ribs) (alloc : Allocator) (start : Applying) : Prop where
  ribs : start.ribs = ribs
  records : Journal.SameRecords .empty start.journal
  spent : alloc.Spent start.alloc

/-- The ways in which applying a message ends. -/
inductive Applied (fsm : Fsm) (code : MessageCode) (update : UpdateMsg) (ribs : Ribs) (alloc : Allocator) :
    Err × UInt8 × Applying → Prop
  | stopped (err : Err) (subcode : UInt8) (journal : Journal) (rest : Allocator) (wrong : err ≠ .ok)
      (records : Journal.SameRecords .empty journal) (spent : alloc.Spent rest) :
      Applied fsm code update ribs alloc (err, subcode, ⟨ribs, journal, rest⟩)
  | refused (subcode : UInt8) (table : Af) (start middle after : Applying) (starts : Starts ribs alloc start)
      (tracked : Tracked fsm start middle) (spent : alloc.Spent middle.alloc)
      (refused : middle.alloc.Refused after.alloc) (failed : Applying.Failed table fsm.peerBgpId middle after) :
      Applied fsm code update ribs alloc (.nomem, subcode, after)
  | done (subcode : UInt8) (start after : Applying) (valid : ValidUpdate update) (starts : Starts ribs alloc start)
      (run : Steps (ApplyStep fsm update) (fsm.applyItems update (fsm.ignores code update)) start after) :
      Applied fsm code update ribs alloc (.ok, subcode, after)

variable {fsm : Fsm} {code : MessageCode} {update : UpdateMsg} {ribs : Ribs} {alloc : Allocator}
  {start before after : Applying} {items : List ApplyItem} {subcode : UInt8} {state : Applying}

theorem Starts.tracked (starts : Starts ribs alloc start) (invariant : ∀ af, (ribs.get af).Invariant) :
    Tracked fsm start start := by
  have insertions : ∀ af, start.journal.insertions af = [] := by
    intro af
    rw [Journal.insertions, starts.records.routes]
    cases af <;> rfl
  have removals : ∀ af, start.journal.removals af = [] := by
    intro af
    rw [Journal.removals, starts.records.withdrawn]
    cases af <;> rfl
  refine ⟨fun af => by rw [starts.ribs]; exact invariant af, fun _ _ _ => rfl, fun af => ⟨⟨?_, ?_, ?_⟩, ?_⟩⟩
  · rw [insertions]
    intro _ absent
    cases absent
  · rw [insertions]
    intro _ absent
    cases absent
  · rw [removals]
    intro _ absent
    cases absent
  · rw [insertions, removals]
    exact ⟨_, .start, .start⟩

theorem Starts.early (starts : Starts ribs alloc start) (items : List ApplyItem) : Early items start := by
  intro af pfx _
  rw [Journal.insertions, starts.records.routes]
  cases af <;> rfl

theorem steps_spent (run : Steps (ApplyStep fsm update) items before after)
    (tracked : Tracked fsm start before) (early : Early items before) (order : InOrder items) :
    before.alloc.Spent after.alloc := by
  induction run with
  | done => exact .refl _
  | next head tail ih =>
    obtain ⟨kept, later⟩ := tracked.step early order head
    exact (head.confined (tracked.invariant _)).spent.trans (ih kept later (pairwise_cons.mp order).2)

/-- What `fsm_apply_update` does, on each of its paths. -/
theorem applyUpdate_applied (invariant : ∀ af, (ribs.get af).Invariant) :
    Applied fsm code update ribs alloc (fsm.applyUpdate code update ribs alloc) := by
  unfold applyUpdate
  rcases checked : validateUpdate update with _ | subcode
  · have valid := validateUpdate_accepts checked
    dsimp only
    rcases updateExceedsLocalAs_cases code update fsm.params.config.localAsn fsm.params.allowLocalAs
        fsm.peerCanSendAs4Path alloc with ⟨rest, verdict, spent⟩ | ⟨err, rest, failed, wrong, spent⟩
    · rw [verdict]
      dsimp only
      rcases Journal.empty.reserveUpdate_reserved update rest with
        ⟨journal, left, reserved, more, records⟩ | ⟨journal, left, failed, more, records⟩
      · rw [reserved]
        dsimp only
        rw [applyLoops_eq]
        change Applied fsm code update ribs alloc
          ((untilError (fsm.applyItem update) (fsm.applyItems update (fsm.ignores code update))
              ⟨ribs, journal, left⟩).1, errMalformedAttrList,
            (untilError (fsm.applyItem update) (fsm.applyItems update (fsm.ignores code update))
              ⟨ribs, journal, left⟩).2)
        have starts : Starts ribs alloc ⟨ribs, journal, left⟩ := ⟨rfl, records, spent.trans more⟩
        have tracked : Tracked fsm _ _ := starts.tracked invariant
        have order := applyItems_inOrder fsm update (fsm.ignores code update)
        rcases @untilError_cases _ _ (fsm.applyItem update) (ApplyStep fsm update)
            (fun item err before after => err = .nomem ∧ before.alloc.Refused after.alloc ∧
              Applying.Failed item.table fsm.peerBgpId before after)
            (fun state => ∀ af, (state.ribs.get af).Invariant)
            (fsm.applyItems update (fsm.ignores code update)) ⟨ribs, journal, left⟩ tracked.invariant (by
              intro item member state sound
              have fits : Fits item := by
                cases item with
                | withdraw af pfx => trivial
                | announce af announced => exact valid.fits (announce_mem_applyItems.mp member).2
              rcases applyItem_cases fits (sound item.table) with
                ⟨after, done, taken⟩ | ⟨after, failed, refused, undone⟩
              · refine .inl ⟨after, done, taken, fun af => ?_⟩
                have confined := taken.confined (sound item.table)
                by_cases same : af = item.table
                · rw [same]
                  exact confined.invariant
                · rw [confined.others af same]
                  exact sound af
              · exact .inr ⟨.nomem, after, failed, by decide, rfl, refused, undone⟩) with
          ⟨after, finished, run⟩ | ⟨done, item, behind, err, middle, after, split, failed, -, run, -, rfl,
            refused, undone⟩
        · rw [finished]
          exact .done _ _ after valid starts run
        · rw [failed]
          have doneOrder : InOrder done := by
            rw [split] at order
            exact (pairwise_append.mp order).1
          have middleSpent := steps_spent run tracked (starts.early done) doneOrder
          exact .refused _ item.table _ middle after starts (tracked.run run (starts.early done) doneOrder)
            (starts.spent.trans middleSpent) refused undone
      · rw [failed]
        exact .stopped _ _ _ _ (by decide) records (spent.trans more.spent)
    · rw [failed]
      exact .stopped _ _ _ _ wrong (Journal.SameRecords.refl _) spent
  · exact .stopped _ _ _ _ (by decide) (Journal.SameRecords.refl _) (.refl _)

/-- A message that was applied is valid, and every turn of it was completed. -/
theorem applyUpdate_done (invariant : ∀ af, (ribs.get af).Invariant)
    (done : fsm.applyUpdate code update ribs alloc = (.ok, subcode, state)) :
    ValidUpdate update ∧ ∃ start, Starts ribs alloc start ∧
      Steps (ApplyStep fsm update) (fsm.applyItems update (fsm.ignores code update)) start state := by
  have applied := @applyUpdate_applied fsm code update ribs alloc invariant
  rw [done] at applied
  cases applied with
  | stopped err subcode journal rest wrong records spent => exact absurd rfl wrong
  | done subcode start after valid starts run => exact ⟨valid, start, starts, run⟩

theorem applyUpdate_spent (invariant : ∀ af, (ribs.get af).Invariant)
    (done : fsm.applyUpdate code update ribs alloc = (.ok, subcode, state)) : alloc.Spent state.alloc := by
  obtain ⟨-, start, starts, run⟩ := applyUpdate_done invariant done
  exact starts.spent.trans (steps_spent run (starts.tracked invariant) (starts.early _) (applyItems_inOrder _ _ _))

/-- A journal without records makes a rollback do nothing. -/
theorem rollback_nothing (records : Journal.SameRecords .empty state.journal) (peer : RouterId) :
    state.rollback peer = state := by
  have routes4 : (state.journal.get .ipv4).routes = [] := records.routes .ipv4
  have routes6 : (state.journal.get .ipv6).routes = [] := records.routes .ipv6
  have withdrawn4 : (state.journal.get .ipv4).withdrawn = [] := records.withdrawn .ipv4
  have withdrawn6 : (state.journal.get .ipv6).withdrawn = [] := records.withdrawn .ipv6
  simp [Applying.rollback, Applying.removeJournaledInsertions, Applying.restoreJournaledReplacements,
    Applying.restoreJournaledWithdrawals, routes4, routes6, withdrawn4, withdrawn6]

/-- The tables after a rollback: sound, without a change for other sources, and with memory for the
undo as before the message. -/
structure RolledBack (fsm : Fsm) (ribs : Ribs) (alloc : Allocator) (state : Applying) : Prop where
  invariant : ∀ af, (state.ribs.get af).Invariant
  foreign : ∀ af source, source ≠ fsm.peerBgpId → (state.ribs.get af).routeAt source = (ribs.get af).routeAt source
  spent : alloc.Spent state.alloc
  restored : alloc.SingleRefusal → ∀ af, (state.ribs.get af).routeAt = (ribs.get af).routeAt

/-- A failed UPDATE is rolled back. -/
theorem Applied.rolledBack {err : Err} (applied : Applied fsm code update ribs alloc (err, subcode, state))
    (wrong : err ≠ .ok) (invariant : ∀ af, (ribs.get af).Invariant) :
    RolledBack fsm ribs alloc (state.rollback fsm.peerBgpId) := by
  cases applied with
  | stopped _ _ journal rest wrong records spent =>
    rw [rollback_nothing records]
    exact ⟨invariant, fun _ _ _ => rfl, spent, fun _ _ => rfl⟩
  | refused _ table start middle _ starts tracked spent refused failed =>
    have tables : ∀ af, (state.ribs.get af).Invariant := by
      intro af
      by_cases same : af = table
      · rw [same]
        exact failed.confined.invariant
      · rw [failed.confined.others af same]
        exact tracked.invariant af
    have insertions : ∀ af, state.journal.insertions af = middle.journal.insertions af := by
      intro af
      rw [Journal.insertions, failed.records.routes, Journal.insertions]
    have removals : ∀ af, state.journal.removals af = middle.journal.removals af := by
      intro af
      rw [Journal.removals, failed.records.withdrawn, Journal.removals]
    have passes := Applying.rollback_passes tables fun af =>
      (tracked.journaled af).toRestorable.congr (insertions af) (removals af)
    have startRoutes : ∀ af source, start.routesFrom af source = (ribs.get af).routeAt source := by
      intro af source
      rw [Applying.routesFrom, starts.ribs]
    have foreign : ∀ af source, source ≠ fsm.peerBgpId →
        ((state.rollback fsm.peerBgpId).ribs.get af).routeAt source = (ribs.get af).routeAt source := by
      intro af source different
      calc ((state.rollback fsm.peerBgpId).ribs.get af).routeAt source
          = state.routesFrom af source := passes.foreign af source different
        _ = middle.routesFrom af source := by
            by_cases same : af = table
            · rw [same]
              exact failed.confined.foreign source different
            · rw [Applying.routesFrom, failed.confined.others af same, Applying.routesFrom]
        _ = (ribs.get af).routeAt source := by rw [tracked.foreign af source different, startRoutes]
    refine ⟨passes.invariant, foreign, spent.trans (refused.spent.trans passes.spent), fun single af => ?_⟩
    funext source
    by_cases own : source = fsm.peerBgpId
    · subst own
      have middleSingle := single.spent spent
      have routes : state.routesFrom af fsm.peerBgpId = middle.routesFrom af fsm.peerBgpId := by
        by_cases same : af = table
        · rw [same]
          exact failed.restored middleSingle
        · rw [Applying.routesFrom, failed.confined.others af same, Applying.routesFrom]
      have undone := ((tracked.journaled af).congr routes (insertions af) (removals af)).undone
      rw [← startRoutes, ← undone]
      exact passes.routes (middleSingle.generous_of_refused refused) af
    · exact foreign af source own
  | done _ start _ valid starts run => exact absurd rfl wrong

end Fsm

end Libbgp
