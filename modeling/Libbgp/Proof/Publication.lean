/-
Publications during which no message to a peer fails.
-/

import Libbgp.Proof.Runs

namespace Libbgp

open Library

namespace Sys

variable {sys : Sys}

/-- No message about a route event failed. -/
def Clean (sys : Sys) : Prop := ∀ index, ¬ sys.Failing index

/-- A relation that is only claimed while no message fails. -/
def Cleanly (relation : Sys → Sys → Prop) (before after : Sys) : Prop :=
  Grows before after ∧ (after.Clean → relation before after)

/-- A message about a route event failed. -/
def failsEvent : Obs → Bool
  | .failed _ .routeEvent => true
  | _ => false

theorem clean_of_trace (quiet : ∀ moment ∈ sys.trace, failsEvent moment.obs = false) : sys.Clean := by
  rintro index ⟨moment, member, failed⟩
  have calm := quiet moment member
  rw [failed] at calm
  cases calm

theorem Grows.clean {before after : Sys} (grows : Grows before after) (clean : after.Clean) : before.Clean :=
  fun index ⟨moment, member, failed⟩ => clean index ⟨moment, grows.mem member, failed⟩

section Cleanly

variable {relation : Sys → Sys → Prop} {fail : Fail}

theorem Delivers.cleanly (delivers : Delivers relation) : Delivers (Cleanly relation) where
  refl sys := ⟨grows_closes.refl sys, fun _ => delivers.refl sys⟩
  trans left right := ⟨left.1.trans right.1, fun clean =>
    delivers.trans (left.2 (right.1.clean clean)) (right.2 clean)⟩
  alloc sys rest spent := ⟨grows_closes.alloc sys rest spent, fun _ => delivers.alloc sys rest spent⟩
  sends sys rest := ⟨grows_closes.sends sys rest, fun _ => delivers.sends sys rest⟩
  observe sys obs delivery := ⟨⟨[_], rfl⟩, fun _ => delivers.observe sys obs delivery⟩

theorem Bears.cleanly (bears : Bears relation) : Bears (Cleanly relation) where
  refl := bears.delivers.cleanly.refl
  trans := bears.delivers.cleanly.trans
  alloc := bears.delivers.cleanly.alloc
  sends := bears.delivers.cleanly.sends
  observe sys obs routine := ⟨grows_closes.observe sys obs routine, fun _ => bears.observe sys obs routine⟩

/-- A failed message is the end of what is claimed. -/
theorem failing_cleanly (torn : ∀ index generation sys, Soundly Grows sys (fail index generation sys)) (index : Nat)
    (generation : UInt64) (sys : Sys) (failing : sys.Failing index) :
    Soundly (Cleanly relation) sys (fail index generation sys) := by
  intro sound
  obtain ⟨soundNow, grows⟩ := torn index generation sys sound
  exact ⟨soundNow, grows, fun clean => absurd failing (grows.clean clean index)⟩

end Cleanly

/-- Neither the tables nor the sessions change. -/
def SameTables (before after : Sys) : Prop := after.ribs = before.ribs ∧ after.fsm = before.fsm

theorem sameTables_bears : Bears SameTables where
  refl _ := ⟨rfl, rfl⟩
  trans left right := ⟨right.1.trans left.1, right.2.trans left.2⟩
  alloc _ _ _ := ⟨rfl, rfl⟩
  sends _ _ := ⟨rfl, rfl⟩
  observe _ _ _ := ⟨rfl, rfl⟩

section Publication

variable {code : MessageCode} {fail : Fail} {sys : Sys}
  (torn : ∀ index generation sys, Soundly Grows sys (fail index generation sys))

include torn

theorem publishAs_same (added withdrawn : Nat) (peer : RouterId) (sys : Sys) (change : RouteChange) :
    Soundly (Cleanly SameTables) sys (publishAs code fail added withdrawn peer sys change) :=
  sameTables_bears.cleanly.soundly.publishAs (failing_cleanly torn) added withdrawn peer sys change

theorem publishAll_same (added withdrawn : Nat) (peer : RouterId) (changes : List RouteChange) (sys : Sys) :
    Soundly (Cleanly SameTables) sys (changes.foldl (publishAs code fail added withdrawn peer) sys) :=
  sameTables_bears.cleanly.soundly.publishAll (failing_cleanly torn) added withdrawn peer changes sys

/-- While no message fails, the session of an UPDATE stays current and all its events are published. -/
theorem publishUpdateEvents_eq {index : Nat} {generation : UInt64} {peer : RouterId} {changes : List RouteChange}
    (sound : sys.Sound) (current : (sys.fsm index).sessionCurrent generation = true)
    (clean : (publishUpdateEvents code fail index generation peer changes sys).Clean) :
    publishUpdateEvents code fail index generation peer changes sys =
      changes.foldl (publishAs code fail (sys.fsm index).params.routeAddedSubId
        (sys.fsm index).params.routeWithdrawnSubId peer) sys := by
  induction changes generalizing sys with
  | nil => rfl
  | cons change rest ih =>
    simp only [publishUpdateEvents, current, if_true, publishChange_eq] at clean ⊢
    obtain ⟨soundNext, -, same⟩ := @publishAs_same code fail torn (sys.fsm index).params.routeAddedSubId
      (sys.fsm index).params.routeWithdrawnSubId peer sys change sound
    have later := @Bears.publishUpdateEvents code _ _ grows_closes.toBears.soundly (fun index generation sys _ =>
      torn index generation sys) index generation peer rest _ soundNext
    have sessions := (same (later.2.clean clean)).2
    rw [ih soundNext (by rw [sessions]; exact current) clean, sessions]
    rfl

end Publication

/-- The events of an applied UPDATE, one after the other. -/
theorem applied_events {code : MessageCode} {index : Nat} {update : UpdateMsg} {subcode : UInt8} {state : Applying}
    (sound : sys.Sound) (live : (sys.fsm index).state = .established)
    (done : (sys.fsm index).applyUpdate code update sys.ribs sys.alloc = (.ok, subcode, state))
    (clean : (sys.publishApplied code index state).Clean) :
    sys.publishApplied code index state =
      state.journal.changes.foldl (publishAs code (sys.fail code) (sys.fsm index).params.routeAddedSubId
        (sys.fsm index).params.routeWithdrawnSubId (sys.fsm index).peerBgpId) (sys.storeApplied index state) := by
  have soundNow : (sys.storeApplied index state).Sound := (applied_tables sound done).1
  have same := Fsm.markRxCurrent_same (sys.fsm index)
  have current :
      ((sys.storeApplied index state).fsm index).sessionCurrent (sys.fsm index).sessionGeneration = true := by
    rw [modify_fsm_self, same]
    simp [Fsm.sessionCurrent, live]
  rw [publishApplied, publishUpdateEvents_eq (@Closes.fail code _ grows_closes sys) soundNow current clean,
    modify_fsm_self, same]

end Sys

end Libbgp
