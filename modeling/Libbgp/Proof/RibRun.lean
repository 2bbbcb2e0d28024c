import Libbgp.Construction.RibRun
import Libbgp.Proof.RibOperations

namespace Libbgp

open Library

namespace RibImpl

variable {family : AddrFamily} {rib after : RibImpl family} {entry : RouteEntry family.width}

/-- The map that a table represents. -/
def routeAt (rib : RibImpl family) (source : RouterId) (pfx : Prefix family.width) :
    Option (Route family.width) :=
  (rib.find source pfx).map RouteEntry.route

/-- What one operation can do to a table: nothing, store a route, take one out, link one again, or
drop a source. The predicates say which keys it may touch and which routes it may link. -/
inductive Effect (touched : RouterId → Prefix family.width → Prop) (adds : Route family.width → Prop)
    (rib after : RibImpl family) : Prop
  | same (invariant : Invariant after) (contents : SameContents rib after)
  | stored (route : Route family.width) (own : touched route.sourceRouterId route.pfx)
      (added : adds (cloneOf rib.nextUpdateId route)) (result : Stored rib after route)
  | detached (entry : RouteEntry family.width) (member : entry ∈ rib.linked)
      (own : touched entry.source entry.pfx) (result : Detached rib after entry)
  | attached (route : Route family.width) (own : touched route.sourceRouterId route.pfx)
      (added : adds route) (invariant : Invariant after) (result : Attached rib after ⟨rib.nextStamp, route⟩)
  | discarded (source : RouterId) (own : ∀ pfx, touched source pfx) (result : Discarded rib after source)

section Effects

variable {touched : RouterId → Prefix family.width → Prop} {adds : Route family.width → Prop}
  {source : RouterId} {pfx : Prefix family.width}

theorem Effect.invariant (invariant : Invariant rib) (effect : Effect touched adds rib after) : Invariant after := by
  cases effect with
  | same after _ => exact after
  | stored route own added result => exact result.invariant
  | detached entry member own result => exact invariant.detached result
  | attached route own added after _ => exact after
  | discarded source own result => exact result.invariant

/-- The entry that a lookup finds is taken out. -/
theorem Effect.ofFound (found : rib.find source pfx = some entry) (own : touched source pfx)
    (detached : Detached rib after entry) : Effect touched adds rib after := by
  obtain ⟨member, sameSource, samePrefix⟩ := find_some found
  exact .detached entry member (by rw [sameSource, samePrefix]; exact own) detached

/-- Outside the touched keys the linked entries stay. -/
theorem Effect.linked_iff (effect : Effect touched adds rib after) (outside : ¬ touched entry.source entry.pfx) :
    entry ∈ after.linked ↔ entry ∈ rib.linked := by
  cases effect with
  | same _ contents => rw [contents.linked_eq]
  | stored route own added result =>
    rw [result.linked_iff]
    constructor
    · rintro (rfl | ⟨member, -⟩)
      · exact absurd own outside
      · exact member
    · intro member
      refine .inr ⟨member, fun key => outside ?_⟩
      rw [key.1, key.2]
      exact own
  | detached held member own result =>
    rw [result.linked_eq, Set.mem_sdiff, Set.mem_singleton_iff]
    constructor
    · exact fun inside => inside.1
    · intro inside
      refine ⟨inside, ?_⟩
      rintro rfl
      exact outside own
  | attached route own added _ result =>
    rw [result.linked_eq, Set.mem_insert_iff]
    constructor
    · rintro (rfl | member)
      · exact absurd own outside
      · exact member
    · exact .inr
  | discarded source own result =>
    rw [result.linked_eq]
    constructor
    · exact fun inside => inside.1
    · intro inside
      refine ⟨inside, ?_⟩
      rintro rfl
      exact outside (own _)

/-- Equal entries under a key give equal map values. -/
theorem routeAt_congr (invariant : Invariant rib) (afterInvariant : Invariant after)
    (same : ∀ entry : RouteEntry family.width, entry.source = source → entry.pfx = pfx →
      (entry ∈ after.linked ↔ entry ∈ rib.linked)) : after.routeAt source pfx = rib.routeAt source pfx := by
  unfold routeAt
  congr 1
  refine Option.ext fun entry => ?_
  rw [afterInvariant.find_eq_some_iff, invariant.find_eq_some_iff]
  constructor
  · rintro ⟨member, sameSource, samePrefix⟩
    exact ⟨(same entry sameSource samePrefix).mp member, sameSource, samePrefix⟩
  · rintro ⟨member, sameSource, samePrefix⟩
    exact ⟨(same entry sameSource samePrefix).mpr member, sameSource, samePrefix⟩

/-- An operation changes the map only at the keys it touches. -/
theorem Effect.routeAt_eq (invariant : Invariant rib) (effect : Effect touched adds rib after)
    (outside : ¬ touched source pfx) : after.routeAt source pfx = rib.routeAt source pfx := by
  refine routeAt_congr invariant (effect.invariant invariant) fun entry sameSource samePrefix => ?_
  exact effect.linked_iff (by rw [sameSource, samePrefix]; exact outside)

/-- The tracked insert changes the table as the plain one does. -/
theorem insertTrackBest_rib (rib : RibImpl family) (route : Route family.width) (alloc : Allocator) :
    (rib.insertTrackBest route alloc).rib = (rib.insertSaveReplaced route false alloc).2.2.1 ∧
      (rib.insertTrackBest route alloc).saved = (rib.insertSaveReplaced route false alloc).2.1.replaced := by
  simp only [insertTrackBest]
  rcases rib.insertSaveReplaced route false alloc with ⟨err, inserted, after, rest⟩
  have reported : ∀ kind best, (reportBest kind best inserted.replaced inserted.updateId after rest).rib = after ∧
      (reportBest kind best inserted.replaced inserted.updateId after rest).saved = inserted.replaced := by
    intro kind best
    unfold reportBest
    split <;> exact ⟨rfl, rfl⟩
  cases err
  case ok =>
    simp only
    rcases after.bestExact route.pfx with _ | best
    · exact ⟨rfl, rfl⟩
    · rcases rib.bestExact route.pfx with _ | before
      · exact reported _ _
      · simp only
        split
        · exact ⟨rfl, rfl⟩
        · exact reported _ _
  all_goals exact ⟨rfl, rfl⟩

/-- The tracked withdrawal changes the table as the plain detach does. -/
theorem withdrawTrackBest_rib (rib : RibImpl family) (source : RouterId) (pfx : Prefix family.width)
    (alloc : Allocator) :
    (rib.withdrawTrackBest source pfx alloc).rib = (rib.detach source pfx alloc).2.2.1 ∧
      ∀ route ∈ (rib.withdrawTrackBest source pfx alloc).saved,
        route ∈ (rib.detach source pfx alloc).2.1.map RouteEntry.route := by
  simp only [withdrawTrackBest]
  rcases rib.detach source pfx alloc with ⟨err, entry, after, rest⟩
  have reported : ∀ kind best saved, (reportBest kind best saved 0 after rest).rib = after ∧
      (reportBest kind best saved 0 after rest).saved = saved := by
    intro kind best saved
    unfold reportBest
    split <;> exact ⟨rfl, rfl⟩
  cases err
  case ok =>
    simp only
    split
    · exact ⟨rfl, fun _ member => member⟩
    · rcases after.bestExact pfx with _ | best
      · exact ⟨rfl, fun _ member => member⟩
      · simp only
        rw [(reported _ _ _).1, (reported _ _ _).2]
        exact ⟨rfl, fun _ member => member⟩
  all_goals exact ⟨rfl, nofun⟩

section

variable (invariant : Invariant rib)

include invariant

/-- The reporting discard either changes nothing or drops the whole source. -/
theorem discardCollect_rib (source : RouterId) (alloc : Allocator) :
    (rib.discardCollect source alloc).2.2.1 = rib ∨
      Discarded rib (rib.discardCollect source alloc).2.2.1 source := by
  unfold discardCollect
  rcases rib.activePrefixes source 0 0 alloc (rib.sourceEntries source) with ⟨err, active, rest⟩
  cases err
  case ok =>
    obtain ⟨after, removed, discarded⟩ := removeSource_spec invariant source rest
    simp only [removed]
    rcases after.collectChanges 0 0 0 0 rest active with ⟨err, result, left⟩
    right
    cases err <;> exact discarded
  all_goals exact .inl rfl

theorem Effect.refl : Effect touched adds rib rib :=
  .same invariant (SameContents.refl rib)

theorem insertSaveReplaced_effect (route : Route family.width) (isPublic : Bool) (alloc : Allocator)
    (own : touched route.sourceRouterId route.pfx) (added : adds (cloneOf rib.nextUpdateId route)) :
    Effect touched adds rib (rib.insertSaveReplaced route isPublic alloc).2.2.1 := by
  rcases insertSaveReplaced_cases invariant route isPublic alloc with
    ⟨err, rejected, -⟩ | ⟨after, rest, failed, -, afterInvariant, same⟩ | ⟨after, rest, done, -, stored⟩
  · rw [rejected]
    exact .refl invariant
  · rw [failed]
    exact .same afterInvariant same
  · rw [done]
    exact .stored route own added stored

/-- Only a failed insert of the public kind needs no undo by its caller. -/
theorem insertSaveReplaced_same (route : Route family.width) (isPublic : Bool)
    (alloc : Allocator) (failed : (rib.insertSaveReplaced route isPublic alloc).1 ≠ .ok) :
    SameContents rib (rib.insertSaveReplaced route isPublic alloc).2.2.1 := by
  rcases insertSaveReplaced_cases invariant route isPublic alloc with
    ⟨err, rejected, -⟩ | ⟨after, rest, refused, -, -, same⟩ | ⟨after, rest, done, -, -⟩
  · rw [rejected]
    exact SameContents.refl rib
  · rw [refused]
    exact same
  · rw [done] at failed
    exact absurd rfl failed

/-- A replaced route has a prefix of the family's width. -/
theorem replaced_fits (route : Route family.width) (alloc : Allocator) :
    ∀ held ∈ (rib.insertSaveReplaced route false alloc).2.1.replaced, held.pfx.len ≤ family.width := by
  intro held member
  rcases insertSaveReplaced_cases invariant route false alloc with
    ⟨err, rejected, -⟩ | ⟨after, rest, refused, -, -, -⟩ | ⟨after, rest, done, -, -⟩
  · rw [rejected] at member
    cases member
  · rw [refused] at member
    cases member
  · rw [done] at member
    obtain ⟨entry, found, rfl⟩ := Option.map_eq_some_iff.mp member
    exact invariant.valid entry (find_some found).1

section

variable (source : RouterId) (pfx : Prefix family.width)

theorem detach_effect (alloc : Allocator) (own : touched source pfx) :
    Effect touched adds rib (rib.detach source pfx alloc).2.2.1 := by
  rcases detach_cases invariant source pfx alloc with ⟨-, missing⟩ | ⟨entry, after, found, done, detached⟩
  · rw [missing]
    exact .refl invariant
  · rw [done]
    exact .ofFound found own detached

theorem withdraw_effect (alloc : Allocator) (own : touched source pfx) :
    Effect touched adds rib (rib.withdraw source pfx alloc).2.1 := by
  rcases withdraw_cases invariant source pfx alloc with ⟨-, missing⟩ | ⟨entry, after, found, done, detached⟩
  · rw [missing]
    exact .refl invariant
  · rw [done]
    exact .ofFound found own detached

theorem withdrawIfUpdateId_effect (updateId : UInt64) (alloc : Allocator) (own : touched source pfx) :
    Effect touched adds rib (rib.withdrawIfUpdateId source pfx updateId alloc).2.1 := by
  rcases withdrawIfUpdateId_cases invariant source pfx updateId alloc with
    ⟨err, unchanged, -⟩ | ⟨entry, after, found, -, done, detached⟩
  · rw [unchanged]
    exact .refl invariant
  · rw [done]
    exact .ofFound found own detached

end

end

end Effects

end RibImpl

namespace RibState

open RibImpl

variable {af : Af} {state : RibState af}

/-- The table is sound and the routes kept by its users could be linked again. -/
structure Sound (state : RibState af) : Prop where
  invariant : state.rib.Invariant
  fits : ∀ route ∈ state.saved, route.pfx.len ≤ af.family.width

theorem init_sound (af : Af) : Sound (init af) :=
  ⟨init_invariant, nofun⟩

theorem fits_keep (fits : ∀ route ∈ state.saved, route.pfx.len ≤ af.family.width)
    {route : Option (Route af.family.width)} (more : ∀ held ∈ route, held.pfx.len ≤ af.family.width) :
    ∀ held ∈ keep state.saved route, held.pfx.len ≤ af.family.width := by
  intro held member
  rcases List.mem_append.mp member with old | new
  · exact fits held old
  · exact more held (Option.mem_toList.mp new)

end RibState

namespace RibOp

open RibImpl RibState

variable {af : Af} {state : RibState af}

theorem insertLocal_effect (invariant : state.rib.Invariant) (pfx : Prefix af.family.width)
    (nextHop : BitVec af.family.width) (weight : Int) (alloc : Allocator) :
    Effect (Touches (.insertLocal pfx nextHop weight) state) (Adds (.insertLocal pfx nextHop weight) state) state.rib
        (ribInsertLocal af state.rib pfx nextHop weight alloc).2.1 ∧
      ((ribInsertLocal af state.rib pfx nextHop weight alloc).1 ≠ .ok →
        SameContents state.rib (ribInsertLocal af state.rib pfx nextHop weight alloc).2.1) := by
  unfold ribInsertLocal
  rcases alloc.requestAll_cases (localAttrs af nextHop).length with ⟨rest, granted, -⟩ | ⟨rest, denied, -⟩
  · simp only [granted]
    exact ⟨insertSaveReplaced_effect invariant _ true rest ⟨rfl, rfl⟩ rfl,
      insertSaveReplaced_same invariant _ true rest⟩
  · simp only [denied]
    exact ⟨.refl invariant, fun _ => SameContents.refl _⟩

/-- One operation has one effect on the table and keeps the saved routes usable. -/
theorem apply_effect (sound : state.Sound) (op : RibOp af) (alloc : Allocator) :
    Effect (op.Touches state) (op.Adds state) state.rib (op.apply state alloc).2.rib ∧
      ∀ route ∈ (op.apply state alloc).2.saved, route.pfx.len ≤ af.family.width := by
  have invariant := sound.invariant
  cases op with
  | insert route => exact ⟨insertSaveReplaced_effect invariant route true alloc ⟨rfl, rfl⟩ rfl, sound.fits⟩
  | insertLocal pfx nextHop weight =>
    exact ⟨(insertLocal_effect invariant pfx nextHop weight alloc).1, sound.fits⟩
  | insertSaveReplaced route =>
    refine ⟨insertSaveReplaced_effect invariant route false alloc ⟨rfl, rfl⟩ rfl, fits_keep sound.fits ?_⟩
    intro held member
    exact replaced_fits invariant route alloc held member
  | insertTrackBest route =>
    obtain ⟨rib, saved⟩ := insertTrackBest_rib state.rib route alloc
    refine ⟨?_, fits_keep sound.fits ?_⟩
    · change Effect _ _ _ (state.rib.insertTrackBest route alloc).rib
      rw [rib]
      exact insertSaveReplaced_effect invariant route false alloc ⟨rfl, rfl⟩ rfl
    · rw [saved]
      exact replaced_fits invariant route alloc
  | withdraw source pfx => exact ⟨withdraw_effect invariant source pfx alloc ⟨rfl, rfl⟩, sound.fits⟩
  | withdrawTrackBest source pfx =>
    obtain ⟨rib, saved⟩ := withdrawTrackBest_rib state.rib source pfx alloc
    refine ⟨?_, fits_keep sound.fits fun held member => ?_⟩
    · change Effect _ _ _ (state.rib.withdrawTrackBest source pfx alloc).rib
      rw [rib]
      exact detach_effect invariant source pfx alloc ⟨rfl, rfl⟩
    · have detached := saved held member
      rcases detach_cases invariant source pfx alloc with ⟨-, missing⟩ | ⟨entry, after, found, done, -⟩
      · rw [missing] at detached
        cases detached
      · rw [done] at detached
        cases detached
        exact invariant.valid entry (find_some found).1
  | withdrawIfUpdateId source pfx updateId =>
    exact ⟨withdrawIfUpdateId_effect invariant source pfx updateId alloc ⟨rfl, rfl⟩, sound.fits⟩
  | discard source =>
    obtain ⟨after, removed, discarded⟩ := removeSource_spec invariant source alloc
    refine ⟨?_, sound.fits⟩
    simp only [apply, RibImpl.discard, removed]
    exact .discarded source (fun _ => rfl) discarded
  | discardCollect source =>
    refine ⟨?_, sound.fits⟩
    simp only [apply]
    rcases discardCollect_rib invariant source alloc with unchanged | discarded
    · rw [unchanged]
      exact .refl invariant
    · exact .discarded source (fun _ => rfl) discarded
  | restoreSavedIfAbsent source slot =>
    have slotFits : ∀ route ∈ state.saved[slot]?, route.pfx.len ≤ af.family.width := fun route member =>
      sound.fits route (List.mem_of_getElem? member)
    rcases restoreSavedIfAbsent_cases invariant source state.saved[slot]? slotFits alloc with
      ⟨err, unchanged, -⟩ | ⟨route, after, rest, held, owner, -, linked, -, afterInvariant, attached⟩ |
        ⟨after, rest, failed, -, afterInvariant, same⟩
    · simp only [apply, unchanged]
      rcases state.saved[slot]? with _ | route
      · exact ⟨.refl invariant, fun route member => sound.fits route (List.mem_of_mem_eraseIdx member)⟩
      · exact ⟨.refl invariant, sound.fits⟩
    · simp only [apply, linked]
      exact ⟨.attached route ⟨owner, route, held, rfl⟩ held afterInvariant attached,
        fun route member => sound.fits route (List.mem_of_mem_eraseIdx member)⟩
    · simp only [apply, failed]
      rcases state.saved[slot]? with _ | route
      · exact ⟨.same afterInvariant same, fun route member => sound.fits route (List.mem_of_mem_eraseIdx member)⟩
      · exact ⟨.same afterInvariant same, sound.fits⟩

theorem apply_sound (sound : state.Sound) (op : RibOp af) (alloc : Allocator) : (op.apply state alloc).2.Sound :=
  ⟨(apply_effect sound op alloc).1.invariant sound.invariant, (apply_effect sound op alloc).2⟩

/-- A public insert, a local insert and a restore undo everything before they report an error. -/
theorem apply_undone (sound : state.Sound) (op : RibOp af) (alloc : Allocator) (undone : op.Undone)
    (failed : (op.apply state alloc).1 ≠ .ok) : SameContents state.rib (op.apply state alloc).2.rib := by
  cases op with
  | insert route => exact insertSaveReplaced_same sound.invariant route true alloc failed
  | insertLocal pfx nextHop weight =>
    exact (insertLocal_effect sound.invariant pfx nextHop weight alloc).2 failed
  | restoreSavedIfAbsent source slot =>
    have slotFits : ∀ route ∈ state.saved[slot]?, route.pfx.len ≤ af.family.width := fun route member =>
      sound.fits route (List.mem_of_getElem? member)
    rcases restoreSavedIfAbsent_cases sound.invariant source state.saved[slot]? slotFits alloc with
      ⟨err, unchanged, -⟩ | ⟨route, after, rest, -, -, -, linked, -, -, -⟩ |
        ⟨after, rest, refused, -, -, same⟩
    · simp only [apply, unchanged]
      rcases state.saved[slot]? with _ | route <;> exact SameContents.refl _
    · simp only [apply, linked] at failed
      exact absurd rfl failed
    · simp only [apply, refused]
      rcases state.saved[slot]? with _ | route <;> exact same
  | insertSaveReplaced | insertTrackBest | withdraw | withdrawTrackBest | withdrawIfUpdateId | discard
  | discardCollect => exact undone.elim

end RibOp

/-- What holds in the empty table and is kept by every operation holds after every run. -/
theorem ribRun_induction {af : Af} {holds : RibState af → Prop} (start : holds (.init af))
    (step : ∀ state, holds state → ∀ (op : RibOp af) (alloc : Allocator), holds (op.apply state alloc).2)
    (steps : List (RibOp af × Allocator)) : holds (ribRun af steps) := by
  have run : ∀ state, holds state →
      holds (steps.foldl (fun state step => (step.1.apply state step.2).2) state) := by
    induction steps with
    | nil => exact fun state kept => kept
    | cons first rest ih => exact fun state kept => ih _ (step state kept first.1 first.2)
  exact run _ start

theorem ribRun_sound (af : Af) (steps : List (RibOp af × Allocator)) : (ribRun af steps).Sound :=
  ribRun_induction (RibState.init_sound af) (fun _ sound op alloc => RibOp.apply_sound sound op alloc) steps

/-- After every run, with any allocation failing, the table is one finite map with exact indexes. The
next operation changes the map only at its own keys, and those that promise it change nothing when
they return an error. -/
theorem ribRun_finiteMap (af : Af) (steps : List (RibOp af × Allocator)) :
    (ribRun af steps).rib.Invariant ∧
      ∀ (op : RibOp af) (alloc : Allocator),
        (∀ source pfx, ¬ op.Touches (ribRun af steps) source pfx →
          (op.apply (ribRun af steps) alloc).2.rib.routeAt source pfx =
            (ribRun af steps).rib.routeAt source pfx) ∧
        (op.Undone → (op.apply (ribRun af steps) alloc).1 ≠ .ok →
          RibImpl.SameContents (ribRun af steps).rib (op.apply (ribRun af steps) alloc).2.rib) := by
  have sound := ribRun_sound af steps
  refine ⟨sound.invariant, fun op alloc => ⟨fun source pfx outside => ?_, ?_⟩⟩
  · exact (RibOp.apply_effect sound op alloc).1.routeAt_eq sound.invariant outside
  · exact RibOp.apply_undone sound op alloc

end Libbgp
