/-
The routes of a peer are in the tables only while a session that stored some of them is established.
-/

import Libbgp.Proof.SessionState

namespace Libbgp

open Library

namespace Sys

variable {code : MessageCode} {fail : Fail} {start sys before after : Sys} {peer lost : RouterId}
  {due : Af → Prop} {index : Nat} {silent : Nat → Prop}

/-- Some session that is not silent is established with this peer. -/
def Served (silent : Nat → Prop) (sys : Sys) (peer : RouterId) : Prop :=
  ∃ index, ¬ silent index ∧ (sys.fsm index).state = .established ∧ (sys.fsm index).peerBgpId = peer

/-- The established sessions stay as they are. -/
def Retains (before after : Sys) : Prop :=
  ∀ index, (before.fsm index).state = .established →
    (after.fsm index).state = .established ∧ (after.fsm index).peerBgpId = (before.fsm index).peerBgpId

theorem Served.retained (served : Served silent before peer) (retains : Retains before after) :
    Served silent after peer := by
  obtain ⟨index, stores, live, own⟩ := served
  have kept := retains index live
  exact ⟨index, stores, kept.1, kept.2.trans own⟩

theorem retains_elsewhere (down : (before.fsm index).state ≠ .established)
    (others : ∀ other, other ≠ index → after.fsm other = before.fsm other) : Retains before after := by
  intro other live
  have different : other ≠ index := fun same => down (same ▸ live)
  rw [others other different]
  exact ⟨live, rfl⟩

theorem sameSession_retains (same : (before.fsm index).SameSession (after.fsm index))
    (live : (before.fsm index).state = .established) :
    (after.fsm index).state = .established ∧ (after.fsm index).peerBgpId = (before.fsm index).peerBgpId := by
  rw [same]
  exact ⟨live, rfl⟩

theorem Quiet.retains (quiet : Quiet before after) : Retains before after := fun index =>
  sameSession_retains (quiet.same index)

/-- What prepares a session leaves the established ones alone. -/
theorem Opening.retains (taken : Opening start before after) : Retains before after := by
  intro index live
  rcases taken.touches index with same | ⟨down, -⟩
  · exact sameSession_retains same live
  · exact absurd live down

theorem Still.retains (still : Still before after) : Retains before after := by
  induction still with
  | refl => exact fun _ live => ⟨live, rfl⟩
  | tail _ taken ih =>
    intro index live
    have kept := ih index live
    have last := taken.retains index kept.1
    exact ⟨last.1, last.2.trans kept.2⟩

/-- The tables hold routes of a source only while a session that may store some is established with it,
apart from those that are due to be discarded. -/
def Backed (silent : Nat → Prop) (peer : RouterId) (due : Af → Prop) (sys : Sys) : Prop :=
  ∀ af pfx, (sys.ribs.get af).routeAt peer pfx ≠ none → Served silent sys peer ∨ due af

def Backs (silent : Nat → Prop) (peer : RouterId) (before after : Sys) : Prop :=
  ∀ due, Backed silent peer due before → Backed silent peer due after

/-- Where no route of the source appears and no session ends, nothing can go wrong. -/
theorem backs_retained (retains : Retains before after)
    (tables : ∀ af, (after.ribs.get af).routeAt peer = (before.ribs.get af).routeAt peer) :
      Backs silent peer before after := by
  intro due backed af pfx stored
  rw [tables af] at stored
  exact (backed af pfx stored).imp_left fun served => served.retained retains

theorem backs_bears : Bears (Backs silent peer) where
  refl _ _ backed := backed
  trans left right due backed := right due (left due backed)
  alloc _ _ _ _ backed := backed
  sends _ _ _ backed := backed
  observe _ _ _ _ backed := backed

theorem Quiet.backs (quiet : Quiet before after) : Backs silent peer before after :=
  backs_retained quiet.retains fun af => by rw [quiet.ribs]

/-- A change of the tables that only concerns the routes of an established session, if that one may store some. -/
theorem backs_own {ribs : Ribs} (alloc : Allocator) (served : (sys.fsm index).peerBgpId = peer → Served silent sys peer)
    (foreign : ∀ af source, source ≠ (sys.fsm index).peerBgpId →
      (ribs.get af).routeAt source = (sys.ribs.get af).routeAt source) :
    Backs silent peer sys { sys with ribs := ribs, alloc := alloc } := by
  intro due backed af pfx stored
  by_cases own : peer = (sys.fsm index).peerBgpId
  · exact .inl (served own.symm)
  · simp only [foreign af peer own] at stored
    exact backed af pfx stored

section Losing

variable (failing : ∀ other generation sys, Soundly (Backs silent peer) sys (fail other generation sys))

include failing

/-- The discard of one family leaves nothing due in it. -/
theorem discardFamilyPublish_backed (sound : sys.Sound) (af : Af)
    (backed : Backed silent peer (fun other => due other ∨ (other = af ∧ peer = lost)) sys) :
    (sys.discardFamilyPublish code fail af lost).Sound ∧
      Backed silent peer due (sys.discardFamilyPublish code fail af lost) := by
  obtain ⟨rib, rest, changes, discarded, spent, result, -⟩ := @discardFamilyPublish_cases code fail sys sound af lost
  have removed : Backed silent peer due { sys with ribs := sys.ribs.set af rib, alloc := rest } := by
    intro other pfx stored
    by_cases same : other = af
    · subst same
      rw [Ribs.get_set] at stored
      by_cases own : peer = lost
      · subst own
        exact absurd discarded.routeAt_own stored
      · rw [discarded.routeAt_other (sound other) own] at stored
        rcases backed other pfx stored with served | later | gone
        · exact .inl served
        · exact .inr later
        · exact absurd gone.2 own
    · rw [Ribs.get_set_of_ne _ same _] at stored
      rcases backed other pfx stored with served | later | gone
      · exact .inl served
      · exact .inr later
      · exact absurd gone.1 same
  have published := @Bears.publishAll code fail _ backs_bears.soundly
    (fun index generation sys _ => failing index generation sys)
    0 0 lost changes _ (sound_set sound discarded.invariant rest)
  rw [result]
  exact ⟨published.1, published.2 due removed⟩

/-- The discard of both families leaves nothing due. -/
theorem discardPeerRoutesPublish_backed (sound : sys.Sound)
    (backed : Backed silent peer (fun af => due af ∨ peer = lost) sys) :
    (sys.discardPeerRoutesPublish code fail lost).Sound ∧
      Backed silent peer due (sys.discardPeerRoutesPublish code fail lost) := by
  have first : Backed silent peer
      (fun af => (due af ∨ (af = .ipv6 ∧ peer = lost)) ∨ (af = .ipv4 ∧ peer = lost)) sys := by
    intro af pfx stored
    rcases backed af pfx stored with served | later | own
    · exact .inl served
    · exact .inr (.inl (.inl later))
    · cases af with
      | ipv4 => exact .inr (.inr ⟨rfl, own⟩)
      | ipv6 => exact .inr (.inl (.inr ⟨rfl, own⟩))
  have second := @discardFamilyPublish_backed code fail sys peer lost _ silent failing sound .ipv4 first
  exact discardFamilyPublish_backed failing second.1 .ipv6 second.2

/-- A session that ends takes its routes with it. -/
theorem loses_backed {index : Nat} (loses : Loses code fail index before after) (sound : before.Sound)
    (backed : Backed silent peer due before) : after.Sound ∧ Backed silent peer due after := by
  have still : ∀ {before after}, Still before after → Soundly (Backs silent peer) before after :=
    still_soundly backs_bears.delivers Quiet.backs
  obtain ⟨closed, middle, live, shut, discarded, rest⟩ := loses
  have closing : Backed silent peer (fun af => due af ∨ peer = (before.fsm index).peerBgpId)
      (before.snapshotTeardown index) := by
    intro af pfx stored
    rcases backed af pfx stored with ⟨other, stores, otherLive, own⟩ | later
    · by_cases here : other = index
      · exact .inr (.inr (by rw [← own, here]))
      · have same : (before.snapshotTeardown index).fsm other = before.fsm other := modify_fsm_other _ _ _ here
        exact .inl ⟨other, stores, by rw [same]; exact otherLive, by rw [same]; exact own⟩
    · exact .inr (.inl later)
  have first : closed.Sound ∧ Backed silent peer (fun af => due af ∨ peer = (before.fsm index).peerBgpId) closed := by
    rcases shut with shut | ⟨first, second, early, undone, late⟩
    · have moved := @still (before.snapshotTeardown index) closed shut sound
      exact ⟨moved.1, moved.2 _ closing⟩
    · have moved := @still (before.snapshotTeardown index) first early sound
      have last := @still second closed late undone.sound
      refine ⟨last.1, last.2 _ ?_⟩
      obtain ⟨state, undo, -, rfl⟩ := undone
      intro af pfx stored
      by_cases own : peer = (before.fsm index).peerBgpId
      · exact .inr (.inr own)
      · simp only [undo.foreign af peer own] at stored
        exact moved.2 _ closing af pfx stored
  have second := @discardPeerRoutesPublish_backed code fail closed peer (before.fsm index).peerBgpId due silent
    failing first.1 first.2
  have third := still discarded second.1
  have told := @Delivers.publishEvent code fail _ backs_bears.soundly.delivers
    (fun index generation sys _ => failing index generation sys)
    middle 0 (.sessionDown index) (.ofObserve fun _ backed => backed)
  have fourth := told third.1
  have last := still rest fourth.1
  exact ⟨last.1, last.2 _ (fourth.2 _ (third.2 _ second.2))⟩

theorem loses_backs {index : Nat} (loses : Loses code fail index before after) :
    Soundly (Backs silent peer) before after :=
  fun sound => ⟨(@loses_backed _ _ _ _ _ (fun _ => True) silent failing index loses sound fun _ _ _ => .inr trivial).1,
    fun _ backed => (loses_backed failing loses sound backed).2⟩

end Losing

theorem teardownAt_backs (fuel index : Nat) (generation : UInt64) (sys : Sys) :
    Soundly (Backs silent peer) sys (teardownAt code fuel index generation sys) :=
  teardownAt_relates backs_bears.soundly.refl (fun _ _ _ _ failing => loses_backs failing) fuel index generation sys

theorem establish_retains (confirming : (sys.fsm index).state = .openConfirm) :
    Retains sys (sys.modify index Fsm.establish) :=
  retains_elsewhere (fun live => nomatch live.symm.trans confirming) fun _ => modify_fsm_other _ _ _

theorem Advertising.backs (taken : Advertising index before after) : Backs silent peer before after := by
  cases taken with
  | quiet taken => exact taken.backs
  | sent => exact fun _ backed => backed

theorem Rises.backs {walked confirmed : Sys} (rises : Rises index before walked confirmed) :
    Soundly (Backs silent peer) before walked :=
  rises.soundly backs_bears.delivers Quiet.backs (backs_retained (establish_retains rises.confirming) fun _ => rfl)
    Advertising.backs

/-- A call leaves every route of the peer served. -/
theorem backs_carries (code : MessageCode)
    (served : ∀ {sys}, Still start sys → (sys.fsm index).state = .established → (sys.fsm index).peerBgpId = peer →
      Served silent sys peer) : Carries code index start (Backs silent peer) where
  toDelivers := backs_bears.delivers
  quiet := Quiet.backs
  opening taken := backs_retained taken.retains fun af => by rw [taken.ribs]
  shut sys index down := backs_retained (retains_elsewhere down fun _ => modify_fsm_other _ _ _) fun _ => rfl
  undone := by
    rintro before _ early live ⟨state, undo, -, rfl⟩
    exact backs_own state.alloc (served early live) undo.foreign
  applied sys update subcode state early live done := backs_bears.applied Quiet.backs (teardownAt_backs _) done
    fun sound => backs_own state.alloc (served early live) (applied_tables sound done).2
  lost := loses_backs (teardownAt_backs _)
  up rises := backs_bears.soundly.trans rises.backs (.ofObserve fun _ backed => backed)
  down rises _ := backs_bears.soundly.trans rises.backs (teardownAt_backs _ _ _ _)

/-- The application leaves the routes of a source alone. -/
def LeavesRoutes (peer : RouterId) (before after : Ribs) : Prop :=
  ∀ af, (after.get af).routeAt peer = (before.get af).routeAt peer

/-- A call stores no route of a source for a prefix that it had none for. -/
def AddsNone (peer : RouterId) (before after : Ribs) : Prop :=
  ∀ af pfx, (before.get af).routeAt peer pfx = none → (after.get af).routeAt peer pfx = none

/-- A call on a silent session stores no route of the source. -/
theorem step_backed (step : Step) (sound : sys.Sound) (backed : Backed silent peer (fun _ => False) sys)
    (adds : silent step.session → AddsNone peer sys.ribs (sys.step code step).ribs) :
    Backed silent peer (fun _ => False) (sys.step code step) := by
  by_cases may : silent step.session → Served silent sys peer
  · refine (backs_carries code ?_).step step sound (fun _ backed => backed) _ backed
    intro later early live own
    by_cases still : silent step.session
    · have served : Served silent (sys.answer step) peer := may still
      exact served.retained early.retains
    · exact ⟨step.session, still, live, own⟩
  · obtain ⟨still, unserved⟩ := Classical.not_imp.mp may
    intro af pfx stored
    refine absurd (adds still af pfx ?_) stored
    by_contra old
    exact unserved ((backed af pfx old).resolve_right id)

/-- In every run, when a session is not established, the tables have no routes of a peer whose other
established sessions have stored none. -/
theorem down_routes_absent {members : List Member} {index : Nat}
    (reached : Reach code (fun sys step => silent step.session → AddsNone peer sys.ribs (sys.step code step).ribs)
      (LeavesRoutes peer) (init members) sys)
    (down : (sys.fsm index).state ≠ .established)
    (alone : ∀ other < sys.count, other ≠ index → (sys.fsm other).state = .established →
      (sys.fsm other).peerBgpId = peer → silent other) :
    ∀ af pfx, (sys.ribs.get af).routeAt peer pfx = none := by
  have begins : Backed silent peer (fun _ => False) (init members) := by
    intro af pfx stored
    exact absurd (init_routeAt members af peer pfx) stored
  have written : ∀ (sys : Sys) ribs, Backed silent peer (fun _ => False) sys → LeavesRoutes peer sys.ribs ribs →
      Backed silent peer (fun _ => False) { sys with ribs := ribs } := by
    intro sys ribs backed spares
    exact @backs_retained sys { sys with ribs := ribs } peer silent (fun _ live => ⟨live, rfl⟩) spares _ backed
  have backed := (reached.keeps (init_sound members) begins (fun _ step => step_backed step) written).2
  intro af pfx
  by_contra stored
  obtain ⟨other, stores, live, own⟩ | impossible := backed af pfx stored
  · by_cases here : other = index
    · exact down (here ▸ live)
    · exact stores (alone other (reached.up_present (.inr live)) here live own)
  · exact impossible

/-- A finite test for the steps of a sample: the second session finds and leaves empty tables. -/
def SecondSilent (sys : Sys) (step : Step) : Prop :=
  step.session = 1 → ∀ af ∈ [Af.ipv4, Af.ipv6], ((sys.step libbgpCode step).ribs.get af).routes.entries.isEmpty = true

instance (sys : Sys) (step : Step) : Decidable (SecondSilent sys step) := inferInstanceAs (Decidable (_ → _))

theorem SecondSilent.addsNone {step : Step} (checked : SecondSilent sys step) (second : step.session = 1) :
    AddsNone peer sys.ribs (sys.step libbgpCode step).ribs := by
  intro af pfx _
  have empty := List.isEmpty_iff.mp (checked second af (by cases af <;> simp))
  refine Option.map_eq_none_iff.mpr (List.find?_eq_none.mpr fun entry member => ?_)
  have listed := Hashmap.mem_entries_of_mem_moduloChain member
  rw [empty] at listed
  cases listed

def sampleShared : List Member :=
  List.replicate 2 (.session { sampleParams 65002 with noCollisionDetection := true })

/-- Two sessions with one peer, of which the first learned a route and got a NOTIFICATION. -/
def sampleLost : Sys :=
  (init sampleShared).run libbgpCode (sampleUp 1 65002 0x0a000002 ++ sampleUp 0 65002 0x0a000002 ++
    [calmStep 0 (.packet (.update (sampleUpdate [] [65002] [⟨0xc0000200, 24⟩]))), calmStep 0 (.packet .notification)])

theorem down_routes_absent_sample :
    (sampleLost.fsm 1).state = .established ∧ (sampleLost.fsm 1).peerBgpId = 0x0a000002 ∧
    (sampleLost.ribs.get .ipv4).routeAt 0x0a000002 ⟨0xc0000200, 24⟩ = none := by
  refine ⟨by decide +kernel, by decide +kernel, ?_⟩
  exact @down_routes_absent libbgpCode sampleLost 0x0a000002 (fun index => index = 1) sampleShared 0
    (reach_permitted (fun _ _ => SecondSilent.addsNone) .start (by decide +kernel)) (by decide +kernel)
      (by decide +kernel)
    .ipv4 _

end Sys

end Libbgp
