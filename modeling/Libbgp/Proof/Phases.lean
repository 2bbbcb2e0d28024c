/-
The phases of a call during which no message and no request for memory fails.
-/

import Libbgp.Proof.Views

namespace Libbgp

open Library List

namespace Sys

variable {code : MessageCode} {index : Nat} {start sys before after : Sys} {first second third confirmed walked : Sys}

/-- No message to a peer failed, for whatever reason it was sent. -/
def Flawless (sys : Sys) : Prop := ∀ moment ∈ sys.trace, ∀ index cause, moment.obs ≠ .failed index cause

/-- A message to a peer failed. -/
def fails : Obs → Bool
  | .failed _ _ => true
  | _ => false

theorem flawless_of_trace (calm : ∀ moment ∈ sys.trace, fails moment.obs = false) : sys.Flawless := by
  intro moment member index cause failed
  have fine := calm moment member
  rw [failed] at fine
  cases fine

theorem Flawless.clean (flawless : sys.Flawless) : sys.Clean :=
  fun index ⟨moment, member, failed⟩ => flawless moment member index .routeEvent failed

theorem Grows.flawless (grows : Grows before after) (flawless : after.Flawless) : before.Flawless :=
  fun moment member => flawless moment (grows.mem member)

/-- What a session and its peer know stays, or the session is not established. -/
def Apart (index : Nat) (before after : Sys) : Prop :=
  ((before.fsm index).SameSession (after.fsm index) ∧ held index after.trace = held index before.trace) ∨
    ((before.fsm index).state ≠ .established ∧ (after.fsm index).state ≠ .established ∧
      (held index after.trace = held index before.trace ∨ held index after.trace = fun _ => none))

/-- A part of a call that concerns no route. -/
structure Aside (before after : Sys) : Prop where
  ribs : after.ribs = before.ribs
  setup : Setup before after
  news : followed after.trace = followed before.trace
  observers : ∀ number, observed number after.trace = observed number before.trace
  sessions : ∀ index, Apart index before after

/-- What is apart twice is apart. -/
theorem Apart.trans (left : Apart index first second) (right : Apart index second third) :
    Apart index first third := by
  rcases left with ⟨same, held⟩ | ⟨down, now, held⟩
  · rcases right with ⟨later, also⟩ | ⟨down, now, also⟩
    · exact .inl ⟨same.trans later, also.trans held⟩
    · refine .inr ⟨?_, now, ?_⟩
      · rw [same] at down
        exact down
      · rw [held] at also
        exact also
  · rcases right with ⟨later, also⟩ | ⟨-, last, also⟩
    · refine .inr ⟨down, ?_, ?_⟩
      · rw [later]
        exact now
      · rw [also]
        exact held
    · refine .inr ⟨down, last, ?_⟩
      rcases also with also | also
      · rw [also]
        exact held
      · exact .inr also

theorem Aside.refl (sys : Sys) : Aside sys sys :=
  ⟨rfl, .refl sys, rfl, fun _ => rfl, fun _ => .inl ⟨.refl _, rfl⟩⟩

theorem Aside.trans (left : Aside first second) (right : Aside second third) : Aside first third :=
  ⟨right.ribs.trans left.ribs, left.setup.trans right.setup, right.news.trans left.news,
    fun number => (right.observers number).trans (left.observers number),
    fun index => (left.sessions index).trans (right.sessions index)⟩

theorem Preparing.observedBy {count : Nat} {obs : Obs} (preparing : Preparing count obs) (number : Nat) (view : View) :
    obs.observedBy number view = view := by
  cases obs with
  | delivered other event =>
    cases event with
    | collision => simp [Obs.observedBy, Event.apply]
    | _ => exact preparing.elim
  | _ => rfl

theorem Preparing.follow {count : Nat} {obs : Obs} (preparing : Preparing count obs) (view : Option View) :
    obs.follow view = view := by
  cases obs with
  | published publisher event =>
    cases event with
    | collision => exact Option.bind_fun_some view
    | _ => exact preparing.elim
  | _ => rfl

theorem followed_preparing {count : Nat} {news : List Moment} (preparing : ∀ moment ∈ news, Preparing count moment.obs)
    (trace : List Moment) : followed (news ++ trace) = followed trace := by
  induction news with
  | nil => rfl
  | cons moment rest ih =>
    have later := ih fun other member => preparing other (mem_cons_of_mem _ member)
    rw [← later]
    exact (preparing moment mem_cons_self).follow _

theorem Preparing.heldBy {count : Nat} {obs : Obs} (preparing : Preparing count obs) (view : View) :
    obs.heldBy index view = view ∨ obs = .closed index := by
  cases obs with
  | sent other message =>
    cases message with
    | announce | withdraw => exact preparing.elim
    | _ => exact .inl rfl
  | closed other =>
    by_cases here : other = index
    · exact .inr (by rw [here])
    · exact .inl (by simp [Obs.heldBy, here])
  | _ => exact .inl rfl

/-- What a peer holds is kept while a session is prepared, or forgotten when its session was closed. -/
theorem held_preparing {count : Nat} {news trace : List Moment}
    (preparing : ∀ moment ∈ news, Preparing count moment.obs) :
    held index (news ++ trace) = held index trace ∨
      (held index (news ++ trace) = (fun _ => none) ∧ ∃ moment ∈ news, moment.obs = .closed index) := by
  induction news with
  | nil => exact .inl rfl
  | cons moment rest ih =>
    rw [cons_append, held_cons]
    have later := ih fun other member => preparing other (mem_cons_of_mem _ member)
    rcases @Preparing.heldBy index count _ (preparing moment mem_cons_self) (held index (rest ++ trace)) with
      silent | closed
    · rw [silent]
      exact later.imp_right fun ⟨gone, other, member, closed⟩ => ⟨gone, other, mem_cons_of_mem _ member, closed⟩
    · refine .inr ⟨?_, moment, mem_cons_self, closed⟩
      simp [closed, Obs.heldBy]

/-- Only a session that is not established is closed while another one is prepared. -/
theorem Opening.closes (taken : Opening start before after) {news : List Moment}
    (trace : after.trace = news ++ before.trace) {moment : Moment} (member : moment ∈ news)
    (closed : moment.obs = .closed index) : (before.fsm index).state ≠ .established := by
  have single : ∀ {seen : Moment}, after.trace = seen :: before.trace → moment = seen := fun same =>
    mem_singleton.mp (append_cancel_right (trace.symm.trans same : news ++ _ = [_] ++ _) ▸ member)
  have nothing : after.trace ≠ before.trace := by
    intro same
    rw [append_left_eq_self.mp (trace.symm.trans same)] at member
    cases member
  cases taken with
  | quiet taken =>
    cases taken with
    | seen obs plain =>
      cases single rfl
      cases closed
      exact plain.elim
    | heard => cases single rfl; cases closed
    | _ => exact absurd rfl nothing
  | entered | pending => exact absurd rfl nothing
  | opened _ other rest sends seen early spent sent now =>
    cases single rfl
    cases sent.symm.trans closed
  | unopened _ other fsm rest sends seen early spent params state blank failed =>
    cases single rfl
    cases failed.symm.trans closed
  | closed _ other down =>
    cases single rfl
    cases closed
    exact down
  | dropped _ other fsm rest sends last older down spent params idle blank ended plain =>
    have parts : news = last :: older := append_cancel_right (trace.symm.trans rfl : news ++ _ = (last :: older) ++ _)
    rw [parts] at member
    rcases mem_cons.mp member with rfl | later
    · cases ended.symm.trans closed
      exact down
    · rcases plain moment later with plain | ⟨msg, sent⟩
      · rw [closed] at plain
        exact plain.elim
      · cases sent.symm.trans closed
  | confirmed earlier _ other msg passive rest sends keepalive opening prior checked spent begun uncontested heard
      confirming answered =>
      have parts : news = keepalive :: opening :=
        append_cancel_right (trace.symm.trans rfl : news ++ _ = (keepalive :: opening) ++ _)
      rw [parts] at member
      rcases mem_cons.mp member with rfl | later
      · cases confirming.symm.trans closed
      · cases passive with
        | true =>
          obtain ⟨first, rfl, -, sent⟩ := answered
          rw [mem_singleton.mp later] at closed
          cases sent.symm.trans closed
        | false =>
          rw [show opening = [] from answered] at later
          cases later

theorem Opening.aside (taken : Opening start before after) : Aside before after := by
  obtain ⟨news, trace, preparing⟩ := taken.preparing
  refine ⟨taken.ribs, taken.setup, by rw [trace, followed_preparing preparing], fun number => ?_, fun index => ?_⟩
  · rw [trace]
    exact observed_news (fun moment member => (preparing moment member).observedBy number) _
  · have kept := @held_preparing index _ news before.trace preparing
    rw [← trace] at kept
    rcases kept with same | ⟨gone, moment, member, closed⟩
    · exact (taken.touches index).imp (fun session => ⟨session, same⟩) fun ⟨down, now⟩ => ⟨down, now, .inl same⟩
    · have down := taken.closes trace member closed
      refine .inr ⟨down, ?_, .inr gone⟩
      rcases taken.touches index with session | ⟨-, now⟩
      · rw [session]
        exact down
      · exact now

theorem aside_chain {step : Sys → Sys → Prop} (each : ∀ {before after}, step before after → Aside before after)
    (chain : Relation.ReflTransGen step before after) : Aside before after := by
  induction chain with
  | refl => exact .refl _
  | tail _ taken ih => exact ih.trans (each taken)

theorem Still.aside (still : Still before after) : Aside before after :=
  aside_chain (fun taken => (@Opening.quiet before _ _ taken).aside) still

/-- Every stored route can be exported. -/
def Exporting (sys : Sys) : Prop :=
  ∀ af source pfx route, (sys.ribs.get af).routeAt source pfx = some route → Exportable af route

theorem Exporting.same (exporting : before.Exporting) (tables : after.ribs = before.ribs) : after.Exporting := by
  unfold Exporting
  rw [tables]
  exact exporting

/-- One phase of a call on a session that stores no route. -/
inductive Phase (index : Nat) : Sys → Sys → Prop
  | aside {before after : Sys} (aside : Aside before after) : Phase index before after
  | ended (sys : Sys) (live : (sys.fsm index).state = .established) : Phase index sys (sys.snapshotTeardown index)
  | discarded (sys : Sys) {after : Sys} (af : Af) (peer : RouterId) (rib : RibImpl af.family) (rest : Allocator)
      (result : RibImpl.DiscardResult af.family.width) (discarded : (sys.ribs.get af).Discarded rib peer)
      (report : (sys.ribs.get af).DiscardReport rib peer result)
      (published : Broadcast 0 0 peer (discardChanges af result)
        { sys with ribs := sys.ribs.set af rib, alloc := rest } after)
      (exportable : ∀ other route, .added other route ∈ discardChanges af result → Exportable other route) :
      Phase index sys after

/-- An UPDATE was applied, and its changes were published. -/
structure Updated (code : MessageCode) (index : Nat) (update : UpdateMsg) (state : Applying) (before after : Sys) :
    Prop where
  live : (before.fsm index).state = .established
  done : ∃ subcode, (before.fsm index).applyUpdate code update before.ribs before.alloc = (.ok, subcode, state)
  published : Broadcast (before.fsm index).params.routeAddedSubId (before.fsm index).params.routeWithdrawnSubId
    (before.fsm index).peerBgpId state.journal.changes (before.storeApplied index state) after

/-- The session of an UPDATE is the one that the call met. -/
theorem Updated.session {update : UpdateMsg} {state : Applying} (updated : Updated code index update state second third)
    (early : Aside first second) : (first.fsm index).SameSession (second.fsm index) :=
  (early.sessions index).elim And.left fun down => absurd updated.live down.2.1

/-- Its peer is identified if that of the established session was. -/
theorem Updated.identified {update : UpdateMsg} {state : Applying}
    (updated : Updated code index update state second third) (early : Aside first second)
    (identified : (first.fsm index).state = .established → (first.fsm index).peerBgpId ≠ 0) :
    (second.fsm index).peerBgpId ≠ 0 := by
  have live := updated.live
  rw [updated.session early] at live ⊢
  exact identified live

/-- A part of a call in phases, as long as there is memory and every route can be exported. -/
def Phased (index : Nat) (before after : Sys) : Prop :=
  before.alloc.Generous → before.Exporting →
    Relation.ReflTransGen (Phase index) before after ∧ before.alloc.Spent after.alloc ∧ after.Exporting

theorem Phased.trans (left : Phased index first second) (right : Phased index second third) :
    Phased index first third := by
  intro generous exporting
  obtain ⟨early, spent, still⟩ := left generous exporting
  obtain ⟨late, more, last⟩ := right (generous.spent spent) still
  exact ⟨early.trans late, spent.trans more, last⟩

/-- The same for all parts that are sound and clean. -/
theorem phased_trans (left : Soundly (Cleanly (Phased index)) first second)
    (right : Soundly (Cleanly (Phased index)) second third) : Soundly (Cleanly (Phased index)) first third := by
  intro sound
  obtain ⟨soundNext, grows, early⟩ := left sound
  obtain ⟨soundLast, more, late⟩ := right soundNext
  exact ⟨soundLast, grows.trans more, fun clean => (early (more.clean clean)).trans (late clean)⟩

theorem Aside.phased (aside : Aside before after) (grows : Grows before after)
    (spent : before.alloc.Spent after.alloc) : Soundly (Cleanly (Phased index)) before after := by
  exact fun sound => ⟨sound.same aside.ribs, grows, fun _ _ exporting =>
    ⟨.single (.aside aside), spent, exporting.same aside.ribs⟩⟩

theorem Quiet.spent (quiet : Quiet before after) : before.alloc.Spent after.alloc := by
  cases quiet with
  | alloc rest spent => exact spent
  | _ => exact .refl _

theorem Still.spent (still : Still before after) : before.alloc.Spent after.alloc := by
  induction still with
  | refl => exact .refl _
  | tail _ taken ih => exact ih.trans taken.spent

theorem Still.phased (still : Still before after) : Soundly (Cleanly (Phased index)) before after :=
  still.aside.phased still.news still.spent

/-- The tables are as before when memory was not what was missing. -/
theorem Undone.phased {peer : Fsm} (undone : Undone peer before after) :
    Soundly (Cleanly (Phased index)) before after := by
  intro _
  refine ⟨undone.sound, ?_, fun _ generous exporting => ?_⟩
  · obtain ⟨state, -, -, rfl⟩ := undone
    exact ⟨[], rfl⟩
  · obtain ⟨state, back, same, rfl⟩ := undone
    have ribs := same generous
    exact ⟨.single (.aside ⟨ribs, ⟨rfl, rfl, fun _ => rfl⟩, rfl, fun _ => rfl, fun _ => .inl ⟨.refl _, rfl⟩⟩),
      back.spent,
      exporting.same ribs⟩

/-- An event about a session changes nothing that is known about routes. -/
theorem Told.aside {follow : Option View → Option View} {subs : List Subscriber} {event : Event}
    (told : Told follow subs event before after) (generous : before.alloc.Generous)
    (silent : ∀ view, event.apply view = view) (same : ∀ view, follow view = view) : Aside before after := by
  refine ⟨told.same.1, told.setup, told.news.trans (same _), fun number => ?_, fun other => .inl ⟨?_, ?_⟩⟩
  · rw [told.observers, silent, ite_self]
  · rw [told.same.2]
    exact .refl _
  · rw [told.peers generous, silent, ite_self]

section Publishing

variable {fail : Fail} (torn : ∀ index generation sys, Soundly Grows sys (fail index generation sys))

include torn

theorem publishEvent_phased (publisher : Nat) {event : Event}
    (silent : ∀ view, event.apply view = view) (same : ∀ view : Option View, view.bind event.follow = view) :
    Soundly (Cleanly (Phased index)) sys (sys.publishEvent code fail publisher event) := by
  intro sound
  have grows := @Delivers.publishEvent code fail _ grows_closes.toBears.delivers.soundly
    (fun index generation sys _ => torn index generation sys) sys publisher event (.ofObserve ⟨[_], rfl⟩) sound
  refine ⟨grows.1, grows.2, fun clean generous exporting => ?_⟩
  have told := (@publishEvent_told code fail sys torn generous publisher event sound).2.2 clean
  exact ⟨.single (.aside (told.aside generous silent same)), told.spent, exporting.same told.same.1⟩

/-- The routes of one family are discarded in phases. -/
theorem discardFamilyPublish_phased (sys : Sys) (af : Af) (peer : RouterId) :
    Soundly (Cleanly (Phased index)) sys (sys.discardFamilyPublish code fail af peer) := by
  intro sound
  obtain ⟨rib, rest, changes, discarded, spent, result, report⟩ :=
    @discardFamilyPublish_cases code fail sys sound af peer
  have soundNow := sound_set sound discarded.invariant rest
  obtain ⟨soundLast, grows, -⟩ := @publishAll_same code fail torn 0 0 peer changes _ soundNow
  rw [result]
  refine ⟨soundLast, grows, fun clean generous exporting => ?_⟩
  have exportingNow : Exporting { sys with ribs := sys.ribs.set af rib, alloc := rest } := by
    intro other source pfx route found
    by_cases here : other = af
    · subst here
      simp only [Ribs.get_set] at found
      by_cases own : source = peer
      · rw [own, discarded.routeAt_own] at found
        cases found
      · rw [discarded.routeAt_other (sound _) own] at found
        exact exporting _ _ _ _ found
    · simp only [Ribs.get_set_of_ne _ here] at found
      exact exporting _ _ _ _ found
  rcases report with ⟨-, refused⟩ | ⟨listed, report, rfl⟩
  · exact absurd refused generous.not_refused
  · have exportable : ∀ other route, .added other route ∈ discardChanges af listed → Exportable other route := by
      intro other route member
      obtain ⟨active, -, -, -, replacements⟩ := report
      rcases mem_append.mp member with lost | replaced
      · obtain ⟨pfx, -, impossible⟩ := mem_map.mp lost
        cases impossible
      · obtain ⟨best, chosen, same⟩ := mem_map.mp replaced
        cases same
        rw [replacements] at chosen
        obtain ⟨pfx, -, mapped⟩ := mem_filterMap.mp chosen
        obtain ⟨entry, found, rfl⟩ := Option.map_eq_some_iff.mp mapped
        refine exportingNow af entry.source pfx entry.route ?_
        simp only [Ribs.get_set]
        exact RibImpl.bestExact_routeAt discarded.invariant found
    have published := (@publishAll_broadcast code fail { sys with ribs := sys.ribs.set af rib, alloc := rest } torn
      (generous.spent spent) _ exportable 0 0 peer soundNow).2.2 clean
    exact ⟨.single (.discarded sys af peer rib rest listed discarded report published exportable),
      spent.trans published.spent, exportingNow.same published.same.1⟩

/-- A session ends in phases. -/
theorem Loses.phased (loses : Loses code fail index before after) :
    Soundly (Cleanly (Phased index)) before after := by
  obtain ⟨closed, middle, live, shut, discarded, rest⟩ := loses
  have closing : Soundly (Cleanly (Phased index)) before (before.snapshotTeardown index) := fun sound =>
    ⟨sound, ⟨[_], rfl⟩, fun _ _ exporting => ⟨.single (.ended before live), .refl _, exporting⟩⟩
  have first : Soundly (Cleanly (Phased index)) (before.snapshotTeardown index) closed := by
    rcases shut with shut | ⟨first, second, early, undone, late⟩
    · exact shut.phased
    · exact phased_trans early.phased (phased_trans undone.phased late.phased)
  have second := phased_trans
    (@discardFamilyPublish_phased code index fail torn closed .ipv4 (before.fsm index).peerBgpId)
    (@discardFamilyPublish_phased code index fail torn _ .ipv6 (before.fsm index).peerBgpId)
  have ended := @publishEvent_phased code index middle fail torn 0 (.sessionDown index) (fun _ => rfl)
    Option.bind_fun_some
  exact phased_trans closing (phased_trans first (phased_trans second
    (phased_trans discarded.phased (phased_trans ended rest.phased))))

end Publishing

/-- An applied UPDATE and its events. -/
theorem applied_updated {update : UpdateMsg} {subcode : UInt8} {state : Applying} (sound : sys.Sound)
    (generous : sys.alloc.Generous) (exporting : sys.Exporting) (live : (sys.fsm index).state = .established)
    (done : (sys.fsm index).applyUpdate code update sys.ribs sys.alloc = (.ok, subcode, state))
    (clean : (sys.publishApplied code index state).Clean) :
    Updated code index update state sys (sys.publishApplied code index state) ∧
    (sys.publishApplied code index state).Exporting := by
  have events := applied_events sound live done clean
  rw [events] at clean ⊢
  obtain ⟨stored, exportable⟩ := Fsm.applyUpdate_routes sound done exporting fun valid af announced member counter =>
    (valid.exportable (sys.fsm index) member).clone counter
  have published := (@publishAll_broadcast code _ (sys.storeApplied index state)
    (@Closes.fail code _ grows_closes sys) (generous.spent (Fsm.applyUpdate_spent sound done)) _ exportable _ _ _
    (applied_tables sound done).1).2.2 clean
  refine ⟨⟨live, ⟨subcode, done⟩, published⟩, ?_⟩
  unfold Exporting
  rw [published.same.1]
  exact stored

theorem close_aside (down : (sys.fsm index).state ≠ .established) : Aside sys (sys.snapshotTeardown index) := by
  refine ⟨rfl, setup_closes.close sys index, rfl, fun _ => rfl, fun other => ?_⟩
  by_cases here : other = index
  · subst here
    exact .inr ⟨down, by simp [snapshotTeardown], .inr (by simp [snapshotTeardown, Obs.heldBy])⟩
  · refine .inl ⟨?_, by simp [snapshotTeardown, Obs.heldBy, Ne.symm here]⟩
    simp only [snapshotTeardown, observe_fsm, modify_fsm_other _ _ _ here]
    exact .refl _

theorem Opening.spent (taken : Opening start before after) : before.alloc.Spent after.alloc := by
  cases taken with
  | quiet taken => exact taken.spent
  | entered | closed | pending => exact .refl _
  | opened _ index rest sends moment early spent sent now => exact spent
  | unopened _ index fsm rest sends moment early spent params state blank failed => exact spent
  | dropped _ index fsm rest sends last news down spent params idle blank ended plain => exact spent
  | confirmed earlier _ index msg passive rest sends keepalive opening prior checked spent begun uncontested heard
      confirming answered => exact spent

theorem opens_phased (chain : Opens start before after) : Soundly (Cleanly (Phased index)) before after := by
  induction chain with
  | refl => exact (Aside.refl _).phased ⟨[], rfl⟩ (.refl _)
  | tail _ taken ih =>
    obtain ⟨news, trace, -⟩ := taken.preparing
    exact phased_trans ih (taken.aside.phased ⟨news, trace⟩ taken.spent)

theorem Advertising.spent (taken : Advertising index before after) : before.alloc.Spent after.alloc := by
  cases taken with
  | quiet taken => exact taken.spent
  | sent af entry update wire middle rest sends negotiated cached chosen built spent => exact spent

theorem Rises.spent (rises : Rises index before walked confirmed) : before.alloc.Spent walked.alloc := by
  have walk : ∀ {first last}, Relation.ReflTransGen (Advertising index) first last → first.alloc.Spent last.alloc := by
    intro first last chain
    induction chain with
    | refl => exact .refl _
    | tail _ taken ih => exact ih.trans taken.spent
  have later : confirmed.alloc.Spent walked.alloc := @walk (confirmed.modify index Fsm.establish) walked rises.walked
  exact rises.ready.spent.trans later

theorem Rises.ribs (rises : Rises index before walked confirmed) : walked.ribs = before.ribs := by
  have walk : ∀ {first last}, Relation.ReflTransGen (Advertising index) first last → last.ribs = first.ribs := by
    intro first last chain
    induction chain with
    | refl => rfl
    | tail _ taken ih => exact taken.ribs.trans ih
  exact (walk rises.walked).trans rises.ready.ribs

/-- What a call amounts to when nothing fails. -/
inductive Smooth (code : MessageCode) (index : Nat) (call : Call) (before after : Sys) : Prop
  | phases (chain : Relation.ReflTransGen (Phase index) before after)
  | updated (middle last : Sys) (update : UpdateMsg) (state : Applying) (asked : call = .packet (.update update))
      (early : Aside before middle) (sound : middle.Sound) (updated : Updated code index update state middle last)
      (late : Aside last after)
  | risen (confirmed walked : Sys) (rises : Rises index before walked confirmed) (late : Aside walked after)

/-- A call is smooth unless a message fails. -/
theorem Acts.smooth {call : Call} (acts : Acts code index call before after) (sound : before.Sound)
    (generous : before.alloc.Generous) (exporting : before.Exporting) (flawless : after.Flawless) :
    after.Exporting ∧ Smooth code index call before after := by
  have whole : Soundly (Cleanly (Phased index)) before after → after.Exporting ∧ Smooth code index call before after :=
    fun phased =>
      let ⟨_, _, phases⟩ := phased sound
      let ⟨chain, _, last⟩ := phases flawless.clean generous exporting
      ⟨last, .phases chain⟩
  cases acts with
  | opens chain => exact whole (opens_phased chain)
  | shuts shuts =>
    cases shuts with
    | quiet still => exact whole still.phased
    | taken middle last early closing late =>
      cases closing with
      | closed down =>
        exact whole (phased_trans early.phased
          (phased_trans ((close_aside down).phased ⟨[_], rfl⟩ (.refl _)) late.phased))
      | undone live restored => exact whole (phased_trans early.phased (phased_trans restored.phased late.phased))
      | lost loses =>
        exact whole (phased_trans early.phased (phased_trans
          (loses.phased (@Closes.fail code _ grows_closes middle)) late.phased))
      | applied update subcode state asked live done =>
        obtain ⟨updated, exportingLast⟩ := applied_updated (early.sound sound) (generous.spent early.spent)
          (exporting.same early.ribs) live done (Grows.clean late.news flawless.clean)
        exact ⟨exportingLast.same late.ribs,
          .updated middle _ update state asked early.aside (early.sound sound) updated late.aside⟩
  | up confirmed walked rises rest =>
    have risen := rises.soundly grows_closes.delivers (grows_lasts code before).quiet ⟨[], rfl⟩
      (grows_lasts code before).advertising sound
    have enough := generous.spent rises.spent
    have clean := Grows.clean rest.news flawless.clean
    have heard := (@publishEvent_told code (walked.fail code) walked (@Closes.fail code _ grows_closes walked) enough 0
      (.sessionUp index) risen.1).2.2 clean
    have aside := (heard.aside enough (fun _ => rfl) Option.bind_fun_some).trans rest.aside
    exact ⟨exporting.same (aside.ribs.trans rises.ribs), .risen confirmed walked rises aside⟩
  | down confirmed walked rises seen torn =>
    obtain ⟨news, trace, moment, member, failed⟩ := seen
    have risen := rises.soundly grows_closes.delivers (grows_lasts code before).quiet ⟨[], rfl⟩
      (grows_lasts code before).advertising sound
    have later := @Closes.fail code _ grows_closes walked index (walked.fsm index).sessionGeneration walked risen.1
    rw [torn] at flawless
    exact absurd failed (later.2.flawless flawless moment (by rw [trace]; exact mem_append_left _ member) _ _)

end Sys

end Libbgp
