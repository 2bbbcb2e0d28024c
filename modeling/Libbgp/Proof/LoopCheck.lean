/-
The loop check of a received AS path: it counts the local AS number in each segment alone.
-/

import Libbgp.Construction.Api
import Libbgp.Proof.AsPath
import Libbgp.Proof.Validation

namespace Libbgp

open Library

/-- A segment lists an AS number at most as often as the whole path. -/
theorem count_le_path {asn : UInt32} {segments : List AsPathSegment} {segment : AsPathSegment}
    (member : segment ∈ segments) : segment.asns.count asn ≤ (pathAsns segments).count asn := by
  rw [pathAsns, List.flatMap_def]
  exact (List.sublist_flatten_of_mem (List.mem_map_of_mem member)).count_le asn

section Checking

variable {wide restore exceeds : Bool} {bytes : Bytes} {update : UpdateMsg} {segments : List AsPathSegment}
  {asn : UInt32} {allow : UInt8} {alloc rest : Allocator} {fsm : Fsm}

/-- The AS path that a session reads from a message: that of an old speaker is restored. -/
def ReceivedPath (restore : Bool) (update : UpdateMsg) (segments : List AsPathSegment) : Prop :=
  if restore then Restores update.path update.shadow segments else segments = update.path

theorem asPathExceedsLocalAs_eq : asPathExceedsLocalAs (update.findAttr .asPath) asn allow =
    update.path.any fun segment => allow.toNat < segment.asns.count asn := by
  rw [UpdateMsg.path]
  rcases found : update.findAttr .asPath with _ | ⟨flags, data⟩
  · rfl
  · have kind : PAttr.type ⟨flags, data⟩ = .asPath := type_of_firstOf found
    cases data with
    | asPath segments is4b => rfl
    | _ => cases kind

/-- The check reads the path that the message stands for. -/
theorem updateExceedsLocalAs_path (received : (updateParseAs4 wide bytes).outcome = .ok update)
    (announces : update.hasAdvertisements = true) (path : ReceivedPath restore update segments)
    (checked : updateExceedsLocalAs libbgpCode update asn allow restore alloc = (.ok exceeds, rest)) :
    exceeds = segments.any fun segment => allow.toNat < segment.asns.count asn := by
  have read := updateParseAs4_yields (.ofOutcome received)
  rw [updateExceedsLocalAs, if_neg (by simp [announces])] at checked
  by_cases direct : (!restore || (update.findAttr .as4Path).isNone) = true
  · have same : segments = update.path := by
      rcases Bool.or_eq_true_iff.mp direct with plain | alone
      · have plain : restore = false := by simpa using plain
        rw [ReceivedPath, plain] at path
        exact path
      · rw [ReceivedPath, UpdateMsg.shadow, Option.isNone_iff_eq_none.mp alone] at path
        split at path
        · exact path.unique .alone
        · exact path
    rw [if_pos direct] at checked
    rw [same, ← asPathExceedsLocalAs_eq]
    exact (Except.ok.inj (Prod.mk.inj checked).1).symm
  · rw [if_neg direct] at checked
    have old : restore = true := by
      by_contra wide
      exact direct (by simp [wide])
    rw [ReceivedPath, if_pos old] at path
    split at checked
    · cases (Prod.mk.inj checked).1
    · rename_i copy _ copied
      obtain rfl : copy = update := cloneUpdateMsg_yields (fun attr stored => read.clean stored)
        (.ofOutcome (MessageOp.run_ofWork copied))
      split at checked
      · cases (Prod.mk.inj checked).1
      · rename_i restored _ done
        obtain ⟨attr, held⟩ : ∃ attr, copy.findAttr .asPath = some attr := by
          have complete := updateValidate_complete read.legible.valid
          rcases Bool.or_eq_true_iff.mp announces with some4 | some6
          · exact Option.isSome_iff_exists.mp (complete.wellKnown4 (by simpa using some4)).2.1
          · exact Option.isSome_iff_exists.mp (complete.wellKnown6 some6).2
        obtain ⟨-, -, segments', restores, rfl⟩ := restoreAsPath_yields held (.ofOutcome (MessageOp.run_ofWork done))
        have whole : copy.path = attr.segments := by rw [UpdateMsg.path, held]; rfl
        rw [whole] at path
        have same : (copy.withPath segments').path = segments := by
          rw [UpdateMsg.path_withPath held, path.unique restores]
        rw [← same, ← asPathExceedsLocalAs_eq]
        exact (Except.ok.inj (Prod.mk.inj checked).1).symm

/-- The announcements of a received UPDATE are a loop exactly when one segment lists the local AS number more
often than is allowed. That is the count over the whole path exactly when this count is allowed or one segment
exceeds the allowance alone. -/
theorem loop_check_counts (received : (updateParseAs4 wide bytes).outcome = .ok update)
    (announces : update.hasAdvertisements = true) (path : ReceivedPath fsm.peerCanSendAs4Path update segments)
    (checked : updateExceedsLocalAs libbgpCode update fsm.params.config.localAsn fsm.params.allowLocalAs
      fsm.peerCanSendAs4Path alloc = (.ok exceeds, rest)) :
    let allowed := fsm.params.allowLocalAs.toNat
    let total := (pathAsns segments).count fsm.params.config.localAsn
    let crowded := ∃ segment ∈ segments, allowed < segment.asns.count fsm.params.config.localAsn
    (exceeds = true ↔ crowded) ∧ ((exceeds = true ↔ allowed < total) ↔ total ≤ allowed ∨ crowded) := by
  intro allowed total crowded
  have found : exceeds = true ↔ crowded := by
    rw [updateExceedsLocalAs_path received announces path checked, List.any_eq_true]
    exact exists_congr fun segment => and_congr_right fun _ => decide_eq_true_iff
  have more : crowded → allowed < total := by
    rintro ⟨segment, member, more⟩
    exact Nat.lt_of_lt_of_le more (count_le_path member)
  refine ⟨found, ?_⟩
  rw [found, ← Nat.not_lt]
  constructor
  · intro agree
    exact (Classical.em (allowed < total)).symm.imp_right agree.mpr
  · rintro (few | one)
    · exact ⟨more, fun many => absurd many few⟩
    · exact ⟨more, fun _ => one⟩

/-- An UPDATE body with the segments of an AS path in four-byte form. -/
def sampleLoopBody (path : Bytes) : Bytes :=
  [0, 0, 0, UInt8.ofNat (14 + path.length), 0x40, 1, 1, 0, 0x40, 2, UInt8.ofNat path.length] ++ path ++
    [0x40, 3, 4, 10, 0, 0, 1, 8, 10]

def sampleLoop (segments : List AsPathSegment) : UpdateMsg :=
  ⟨[], [some ⟨0x40, .origin 0⟩, some ⟨0x40, .asPath segments true⟩, some ⟨0x40, .nextHop 0x0a000001⟩],
    [⟨0x0a000000, 8⟩]⟩

/-- A session that accepts its own AS number once in a path. -/
def sampleAllowing : Fsm :=
  .init { FsmParams.unused with config := ⟨65001, 0x0a000001, 90, 30, true, true⟩, allowLocalAs := 1 }

theorem loop_check_counts_sample :
    updateExceedsLocalAs libbgpCode (sampleLoop [⟨2, [65001, 65001]⟩]) sampleAllowing.params.config.localAsn
        sampleAllowing.params.allowLocalAs sampleAllowing.peerCanSendAs4Path [] = (.ok true, []) ∧
      sampleAllowing.params.allowLocalAs.toNat <
        (pathAsns [⟨2, [65001, 65001]⟩]).count sampleAllowing.params.config.localAsn := by
  have checked : updateExceedsLocalAs libbgpCode (sampleLoop [⟨2, [65001, 65001]⟩])
    sampleAllowing.params.config.localAsn
      sampleAllowing.params.allowLocalAs sampleAllowing.peerCanSendAs4Path [] = (.ok true, []) := rfl
  have path : ReceivedPath sampleAllowing.peerCanSendAs4Path (sampleLoop [⟨2, [65001, 65001]⟩])
      [⟨2, [65001, 65001]⟩] := by
    exact rfl
  exact ⟨checked, (@loop_check_counts true true (sampleLoopBody [2, 2, 0, 0, 0xfd, 0xe9, 0, 0, 0xfd, 0xe9]) _
    _ [] [] sampleAllowing (by decide +kernel) rfl path checked).2.mpr (.inr (by decide)) |>.mp rfl⟩

/-- The same AS numbers in two segments are let through. -/
theorem loop_across_segments :
    (updateParseAs4 true (sampleLoopBody [2, 1, 0, 0, 0xfd, 0xe9, 2, 1, 0, 0, 0xfd, 0xe9])).outcome =
        .ok (sampleLoop [⟨2, [65001]⟩, ⟨2, [65001]⟩]) ∧
      updateExceedsLocalAs libbgpCode (sampleLoop [⟨2, [65001]⟩, ⟨2, [65001]⟩]) sampleAllowing.params.config.localAsn
        sampleAllowing.params.allowLocalAs sampleAllowing.peerCanSendAs4Path [] = (.ok false, []) ∧
      sampleAllowing.params.allowLocalAs.toNat <
        (pathAsns (sampleLoop [⟨2, [65001]⟩, ⟨2, [65001]⟩]).path).count sampleAllowing.params.config.localAsn := by
  decide +kernel

end Checking

end Libbgp
