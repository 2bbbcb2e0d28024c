import Libbgp.Construction.StoredEdit
import Libbgp.Library.Transaction
import Libbgp.Proof.StoredWire

namespace Libbgp

open Library Edit

section Rules

variable {A B : Type}

/-- Work that only builds: the attributes of the message stay as they are. -/
abbrev Builds (work : Edit A) : Prop := Preserves Editing.attrs work

/-- Work that either succeeds or leaves the attributes of the message as they are. -/
abbrev AllOrNothing (work : Edit A) : Prop := Atomic Editing.attrs work

theorem Edit.ask_builds : Builds ask := by
  intro message
  rcases message with ⟨attrs, _ | ⟨_ | _, alloc⟩⟩ <;> rfl

theorem Edit.ofExcept_builds (result : Except Fault A) : Builds (ofExcept result) := by
  cases result with
  | ok value => exact .pure value
  | error fault => exact .throw fault

theorem Edit.failIf_builds (wrong : Prop) [Decidable wrong] (fault : Fault) : Builds (failIf wrong fault) := by
  unfold failIf
  split
  · exact .throw fault
  · exact .pure ()

/-- After a check what was checked is known. -/
theorem Edit.failIf_then {wrong : Prop} [Decidable wrong] {fault : Fault} {next : Unit → Edit A}
    (rest : ¬ wrong → AllOrNothing (next ())) : AllOrNothing (failIf wrong fault >>= next) := by
  unfold failIf
  split
  · exact fun _ _ _ => rfl
  · rename_i right
    exact rest right

theorem Edit.ofExcept_then {result : Except Fault A} {next : A → Edit B}
    (rest : ∀ value, result = .ok value → AllOrNothing (next value)) : AllOrNothing (ofExcept result >>= next) := by
  cases result with
  | ok value => exact rest value rfl
  | error fault => exact fun _ _ _ => rfl

theorem Edit.mapM_builds {step : A → Edit B} (each : ∀ item, Builds (step item)) (items : List A) :
    Builds (items.mapM step) := by
  induction items with
  | nil => exact .pure []
  | cons item rest ih =>
    rw [List.mapM_cons]
    exact .bind (each item) fun _ => .bind ih fun _ => .pure _

theorem Edit.writeAttrs_total (change : List (Option StoredAttr) → List (Option StoredAttr)) :
    Total (writeAttrs change) :=
  .modify _

theorem changeAt_total (index : Nat) (change : StoredAttr → StoredAttr) : Total (changeAt index change) :=
  writeAttrs_total _

theorem storedRemoveAttrType_total (type : PAttrType) : Total (storedRemoveAttrType type) :=
  writeAttrs_total _

end Rules

section Places

variable (attr : StoredAttr)

/-! An attribute is put into its place once the place is there. -/

theorem putAt_total (index : Option Nat) (attr : StoredAttr) : Total (putAt index attr) := by
  cases index with
  | some index => exact changeAt_total index _
  | none => exact writeAttrs_total _

theorem updateAddAttr_atomic : AllOrNothing (updateAddAttr attr) :=
  .after .get fun _ => .after (failIf_builds _ _) fun _ => .after (failIf_builds _ _) fun _ =>
    .after ask_builds fun _ => (writeAttrs_total _).atomic

theorem storedSetAttr_atomic : AllOrNothing (storedSetAttr attr) := by
  refine .after .get fun message => ?_
  split
  · exact (changeAt_total _ _).atomic
  · exact updateAddAttr_atomic attr

theorem reservePlaces_builds (count missing : Nat) : Builds (reservePlaces count missing) := by
  unfold reservePlaces
  split
  · exact .pure ()
  · exact .bind (failIf_builds _ _) fun _ => ask_builds

theorem storedSetAttrPair_atomic (first second : StoredAttr) : AllOrNothing (storedSetAttrPair first second) :=
  .after .get fun _ => .after (failIf_builds _ _) fun _ => .after (reservePlaces_builds _ _) fun _ =>
    .before (putAt_total _ _).atomic fun _ => putAt_total _ _

end Places

section Paths

variable (segment : StoredSegment) (start : Nat)

/-! New paths are built beside the message. -/

theorem newStoredPath_builds (as4 : Bool) : Builds (newStoredPath as4) :=
  .bind ask_builds fun _ => .pure _

theorem copySegment_builds : Builds (copySegment segment) := by
  unfold copySegment
  split
  · exact .pure _
  · exact .bind (failIf_builds _ _) fun _ => .bind ask_builds fun _ => .pure _

theorem copyAsPathData_builds (target source : StoredAttr) (is4b : Bool) :
    Builds (copyAsPathData target source is4b) := by
  refine .bind (ofExcept_builds _) fun _ => ?_
  split
  · exact .pure _
  · exact .bind (failIf_builds _ _) fun _ => .bind ask_builds fun _ =>
      .bind (mapM_builds copySegment_builds _) fun _ => .pure _

theorem clonePathAs_builds (as4 : Bool) (source : StoredAttr) (is4b : Bool) : Builds (clonePathAs as4 source is4b) :=
  .bind (newStoredPath_builds as4) fun clone => copyAsPathData_builds clone source is4b

theorem prependSegment_builds (path : StoredAttr) (asn : UInt32) : Builds (prependSegment path asn) :=
  .bind (failIf_builds _ _) fun _ => .bind ask_builds fun _ => .bind ask_builds fun _ => .pure _

theorem prependTo_builds (path : StoredAttr) (asn : UInt32) : Builds (prependTo path asn) := by
  refine .bind (failIf_builds _ _) fun _ => ?_
  split
  · exact prependSegment_builds path asn
  · split
    · exact .bind (failIf_builds _ _) fun _ => .bind ask_builds fun _ => .pure _
    · exact prependSegment_builds path asn

theorem copySegmentPrefixOf_builds (count : Nat) : Builds (copySegmentPrefixOf segment count) := by
  refine .bind (failIf_builds _ _) fun _ => ?_
  split
  · exact .pure _
  · exact .bind (failIf_builds _ _) fun _ => .bind ask_builds fun _ => .pure _

theorem keepOf_builds (keep : Nat) : Builds (keepOf segment keep) := by
  unfold keepOf
  split
  · exact .pure _
  · exact .bind (copySegmentPrefixOf_builds segment keep) fun _ => .pure _

theorem keepFront_builds (position : Nat) (segments : List StoredSegment) :
    Builds (keepFront start position segments) := by
  induction segments generalizing position with
  | nil => exact .pure _
  | cons segment rest ih =>
    unfold keepFront
    split
    · exact .pure _
    · exact .bind (keepOf_builds segment _) fun _ => .bind (ih _) fun _ => .pure _

theorem rebuildFromAs4Suffix_builds (asPath as4Path : StoredAttr) (start : Nat) :
    Builds (rebuildFromAs4Suffix asPath as4Path start) := by
  refine .bind (failIf_builds _ _) fun _ => .bind (ofExcept_builds _) fun counts => ?_
  refine .bind (failIf_builds _ _) fun _ => .bind (failIf_builds _ _) fun _ => ?_
  split
  · exact .pure _
  · exact .bind (failIf_builds _ _) fun _ => .bind ask_builds fun _ =>
      .bind (keepFront_builds _ _ _) fun _ =>
        .bind (mapM_builds (fun segment => copySegmentPrefixOf_builds segment _) _) fun _ => .pure _

theorem copySuffix_builds (position : Nat) (segments : List StoredSegment) :
    Builds (copySuffix start position segments) := by
  induction segments generalizing position with
  | nil => exact .pure _
  | cons segment rest ih =>
    unfold copySuffix
    split
    · exact ih _
    · exact .bind (copySegmentPrefixOf_builds _ _) fun _ => .bind (ih _) fun _ => .pure _

theorem cloneSuffix_builds (source : StoredAttr) (start : Nat) : Builds (cloneSuffix source start) := by
  refine .bind (ofExcept_builds _) fun _ => .bind (failIf_builds _ _) fun _ => ?_
  refine .bind (ofExcept_builds _) fun _ => .bind (newStoredPath_builds true) fun _ => ?_
  split
  · exact .pure _
  · exact .bind (failIf_builds _ _) fun _ => .bind ask_builds fun _ =>
      .bind (copySuffix_builds _ _ _) fun _ => .pure _

end Paths

section Sparse

variable {enforce : Bool} {segments : List StoredSegment} {count : Nat} (index : Nat)

/-! The sparse restore writes AS number by AS number; it has as many as it needs. -/

/-- A count that succeeds is that of the stored numbers. -/
theorem countAsns_ok {is4b : Bool} {total : Nat}
    (counted : StoredAttr.countAsns enforce is4b total segments = .ok count) :
    count = total + (storedAsns segments).length := by
  induction segments generalizing total with
  | nil =>
    cases counted
    rfl
  | cons segment rest ih =>
    unfold StoredAttr.countAsns at counted
    split at counted
    · cases counted
    rename_i valid
    split at counted
    · cases counted
    split at counted
    · cases counted
    have sum := ih counted
    have whole : segment.asns.broken = false := by
      simp only [StoredSegment.valid, Bool.not_eq_true, Bool.not_eq_false'] at valid
      grind
    rw [storedAsns, List.flatMap_cons, List.length_append, Block.length_items whole]
    rw [storedAsns] at sum
    omega

/-- Each AS_TRANS takes one number of the shadow. -/
theorem fillAsns_returns (segment : Nat) {asns left : List UInt32} (place : Nat)
    (enough : asns.count asTrans ≤ left.length) :
    Returns (fun rest => rest.length = left.length - asns.count asTrans) (fillAsns index segment place asns left) := by
  induction asns generalizing place left with
  | nil => exact .pure rfl
  | cons asn rest ih =>
    unfold fillAsns
    split
    · rename_i trans
      subst trans
      rw [List.count_cons_self] at enough
      cases left with
      | nil => simp at enough
      | cons real left =>
        refine .bind (changeAt_total index _) fun _ _ => ?_
        have more := @ih left (place + 1) (by simpa using enough)
        simpa [Nat.add_sub_add_right] using more
    · rename_i other
      rw [List.count_cons_of_ne other] at enough ⊢
      exact ih (place + 1) enough

theorem fillPath_total (segment : Nat) {left : List UInt32}
    (enough : (storedAsns segments).count asTrans ≤ left.length) : Total (fillPath index segment segments left) := by
  induction segments generalizing segment left with
  | nil => exact .pure trivial
  | cons held rest ih =>
    rw [storedAsns, List.flatMap_cons, List.count_append] at enough
    refine .bind (fillAsns_returns index segment 0 (by omega)) fun more length => ?_
    apply ih
    rw [storedAsns]
    omega

/-- The check counts the AS numbers of the path. -/
theorem validateAsPathData_count {attr : StoredAttr} (counted : attr.validateAsPathData enforce = .ok count) :
    count = (storedAsns attr.segments.items).length := by
  obtain ⟨flags, code, data⟩ := attr
  cases data with
  | asPath segments is4b =>
    change (if segments.broken then _ else _) = _ at counted
    split at counted
    · cases counted
    · rw [countAsns_ok counted, Nat.zero_add]
      rfl
  | as4Path segments is4b =>
    change (if !is4b then _ else if segments.broken then _ else _) = _ at counted
    split at counted
    · cases counted
    split at counted
    · cases counted
    · rw [countAsns_ok counted, Nat.zero_add]
      rfl
  | _ => cases counted

theorem restoreSparse_atomic (asPath as4Path : StoredAttr) : AllOrNothing (restoreSparse index asPath as4Path) := by
  refine .after (ofExcept_builds _) fun _ => ofExcept_then fun count counted => ?_
  refine failIf_then fun same => ?_
  have enough : (storedAsns asPath.segments.items).count asTrans ≤ (storedAsns as4Path.segments.items).length := by
    rw [← validateAsPathData_count counted]
    omega
  exact .before (fillPath_total index 0 enough).atomic fun _ => changeAt_total index _

end Sparse

section Operations

theorem restoreTogether_atomic (index : Nat) (asPath as4Path : StoredAttr) (start as4Count : Nat) :
    AllOrNothing (restoreTogether index asPath as4Path start as4Count) := by
  unfold restoreTogether
  dsimp only
  split
  · exact restoreSparse_atomic index asPath as4Path
  · exact .after (rebuildFromAs4Suffix_builds asPath as4Path start) fun _ => (changeAt_total index _).atomic

theorem storedRestoreAsPath_atomic : AllOrNothing storedRestoreAsPath := by
  refine .after .get fun message => ?_
  dsimp only
  split
  · exact (Preserves.pure ()).atomic
  · exact .after (ofExcept_builds _) fun _ => (changeAt_total _ _).atomic
  · refine .after (ofExcept_builds _) fun _ => .after (ofExcept_builds _) fun _ => ?_
    refine .after (failIf_builds _ _) fun _ => ?_
    exact .before (restoreTogether_atomic _ _ _ _ _) fun _ => storedRemoveAttrType_total _

/-- A downgrade is done completely or not at all. -/
theorem storedDowngradeAsPath_atomic : AllOrNothing storedDowngradeAsPath := by
  refine .after .get fun message => ?_
  dsimp only
  split
  · exact (Preserves.pure ()).atomic
  split
  · exact (Preserves.pure ()).atomic
  refine .after (ofExcept_builds _) fun _ => .after (clonePathAs_builds _ _ _) fun next => ?_
  split
  · refine .after (ofExcept_builds _) fun _ => .after (ofExcept_builds _) fun _ => ?_
    refine .after (cloneSuffix_builds _ _) fun shadow => .after (failIf_builds _ _) fun _ => ?_
    exact storedSetAttrPair_atomic next.narrow shadow
  · exact .before (storedSetAttr_atomic next.narrow) fun _ => storedRemoveAttrType_total _

theorem storedRestoreAggregator_atomic : AllOrNothing storedRestoreAggregator := by
  refine .after .get fun message => ?_
  dsimp only
  split
  · exact (Preserves.pure ()).atomic
  · refine .after ask_builds fun _ => ?_
    exact .before (storedSetAttr_atomic _) fun _ => storedRemoveAttrType_total _
  · exact (changeAt_total _ _).atomic
  · exact .before (changeAt_total _ _).atomic fun _ => storedRemoveAttrType_total _

theorem setShadowAggregator_atomic (asn : UInt32) (routerId : RouterId) (is4b : Bool) :
    AllOrNothing (setShadowAggregator asn routerId is4b) := by
  unfold setShadowAggregator
  split
  · exact .after ask_builds fun _ => storedSetAttr_atomic _
  · exact (Preserves.pure ()).atomic

theorem storedDowngradeAggregator_atomic : AllOrNothing storedDowngradeAggregator := by
  refine .after .get fun message => ?_
  dsimp only
  split
  · exact (Preserves.pure ()).atomic
  · exact .before (setShadowAggregator_atomic _ _ _) fun _ => changeAt_total _ _

theorem prependSource_builds (asPath : Option (Nat × StoredAttr)) (wide : Bool) :
    Builds (prependSource asPath wide) := by
  unfold prependSource
  split
  · exact .bind (newStoredPath_builds false) fun _ => .pure _
  · exact .bind (ofExcept_builds _) fun _ => .bind (clonePathAs_builds _ _ _) fun _ => .pure _

theorem storedPrependShadow_builds (as4Path : Option (Nat × StoredAttr)) (original : Nat) (next : StoredAttr)
    (asn : UInt32) : Builds (storedPrependShadow as4Path original next asn) := by
  refine .bind (ofExcept_builds _) fun count => ?_
  split
  · exact .bind (clonePathAs_builds _ _ _) fun _ => .pure _
  · refine .bind (ofExcept_builds _) fun _ => .bind (failIf_builds _ _) fun _ => ?_
    refine .bind (clonePathAs_builds _ _ _) fun clone => ?_
    exact .bind (rebuildFromAs4Suffix_builds _ _ _) fun _ => .pure _

theorem storedPrependAsn_atomic (asn : UInt32) (wide : Bool) : AllOrNothing (storedPrependAsn asn wide) := by
  refine .after .get fun message => .after (failIf_builds _ _) fun _ => .after (failIf_builds _ _) fun _ => ?_
  refine .after (prependSource_builds _ _) fun source => .after (prependTo_builds _ _) fun next => ?_
  split
  · exact .after (storedPrependShadow_builds _ _ _ _) fun shadow => storedSetAttrPair_atomic next shadow
  · exact storedSetAttr_atomic next

/-- An operation that returns an error leaves every attribute of the message as it was, whichever requests
for memory were refused. -/
theorem failed_edit_keeps_attrs (op : EditOp) (attrs : List (Option StoredAttr)) (alloc : Allocator) (fault : Fault)
    (failed : (op.edit.run.run ⟨attrs, alloc⟩).1 = .error fault) :
      (op.edit.run.run ⟨attrs, alloc⟩).2.attrs = attrs := by
  have atomic : AllOrNothing op.edit := by
    cases op with
    | restoreAsPath => exact storedRestoreAsPath_atomic
    | downgradeAsPath => exact storedDowngradeAsPath_atomic
    | restoreAggregator => exact storedRestoreAggregator_atomic
    | downgradeAggregator => exact storedDowngradeAggregator_atomic
    | prependAsn asn wide => exact storedPrependAsn_atomic asn wide
  exact atomic ⟨attrs, alloc⟩ fault failed

/-- A prepend that needs a second attribute and is refused the longer array, with both paths built. -/
theorem failed_edit_keeps_attrs_sample :
    let attrs := [some ⟨0x40, 2, .asPath (.held [⟨2, .held [1, 2]⟩]) false⟩]
    let alloc := List.replicate 7 true ++ [false]
    ((EditOp.prependAsn 70000 false).edit.run.run ⟨attrs, alloc⟩).1 = .error .nomem ∧
      ((EditOp.prependAsn 70000 false).edit.run.run ⟨attrs, alloc⟩).2.attrs = attrs :=
  ⟨by decide +kernel, failed_edit_keeps_attrs (.prependAsn 70000 false) _ _ .nomem (by decide +kernel)⟩

end Operations

end Libbgp
