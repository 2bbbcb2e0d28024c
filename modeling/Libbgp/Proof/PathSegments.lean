/-
AS paths: their segments, the path that they stand for, and the ways of cutting and joining them.
-/

import Libbgp.Construction.Message
import Libbgp.Proof.AttrCodec

namespace Libbgp

open List

/-- A step of an AS path: one AS, or a set of which the order is not known. -/
inductive Hop where
  | one (asn : UInt32)
  | set (asns : List UInt32)
  deriving DecidableEq

/-- The hops of a segment. A segment without AS numbers has none. -/
def AsPathSegment.hops (segment : AsPathSegment) : List Hop :=
  if segment.type = 2 then segment.asns.map Hop.one else if segment.asns = [] then [] else [.set segment.asns]

/-- The path that some segments stand for: where a sequence is split does not matter. -/
def hops (segments : List AsPathSegment) : List Hop := segments.flatMap AsPathSegment.hops

/-- One sequence may be split in two parts that are not empty, and empty segments in front of it may be dropped. -/
inductive Resplit : List AsPathSegment → List AsPathSegment → Prop where
  | same (segments : List AsPathSegment) : Resplit segments segments
  | dropped {segment : AsPathSegment} {rest other : List AsPathSegment} (empty : segment.asns = [])
      (behind : Resplit rest other) : Resplit (segment :: rest) other
  | kept {rest other : List AsPathSegment} (segment : AsPathSegment) (behind : Resplit rest other) :
      Resplit (segment :: rest) (segment :: other)
  | split {first second : List UInt32} (rest : List AsPathSegment) (front : first ≠ []) (back : second ≠ []) :
      Resplit (⟨2, first ++ second⟩ :: rest) (⟨2, first⟩ :: ⟨2, second⟩ :: rest)

section Segments

variable {segments rest other as4 : List AsPathSegment} {segment : AsPathSegment} {asn : UInt32} {start left : Nat}
  {position : Nat}

theorem hops_cons : hops (segment :: rest) = segment.hops ++ hops rest := flatMap_cons

theorem hops_append : hops (segments ++ rest) = hops segments ++ hops rest := flatMap_append

theorem pathAsns_cons : pathAsns (segment :: rest) = segment.asns ++ pathAsns rest := flatMap_cons

theorem pathAsns_append : pathAsns (segments ++ rest) = pathAsns segments ++ pathAsns rest := flatMap_append

/-- The AS numbers of a hop. -/
def Hop.asns : Hop → List UInt32
  | .one asn => [asn]
  | .set asns => asns

/-- The hops of a path determine its AS numbers. -/
theorem flatMap_hops : (hops segments).flatMap Hop.asns = pathAsns segments := by
  induction segments with
  | nil => rfl
  | cons segment rest ih =>
    rw [hops_cons, flatMap_append, ih, pathAsns_cons, AsPathSegment.hops]
    congr 1
    split
    · exact (flatMap_map _ _ _).trans (flatMap_singleton' segment.asns)
    · split
      case isTrue empty => rw [empty]; rfl
      case isFalse => exact append_nil segment.asns

theorem hops_empty (empty : segment.asns = []) : segment.hops = [] := by
  rw [AsPathSegment.hops, empty]
  split <;> rfl

/-- A path that was split anew is the same path. -/
theorem Resplit.hops (resplit : Resplit segments other) : hops segments = hops other := by
  induction resplit with
  | same => rfl
  | dropped empty _ ih => rw [hops_cons, hops_empty empty, ih, nil_append]
  | kept segment _ ih => rw [hops_cons, hops_cons, ih]
  | split rest =>
    rw [hops_cons, hops_cons, hops_cons, ← append_assoc]
    simp [AsPathSegment.hops]

/-- Every segment can be written. -/
def Writable (segments : List AsPathSegment) : Prop := ∀ segment ∈ segments, segmentWritable segment = true

theorem Writable.head (writable : Writable (segment :: rest)) : segmentWritable segment = true :=
  writable segment (mem_cons_self ..)

theorem Writable.tail (writable : Writable (segment :: rest)) : Writable rest :=
  fun other member => writable other (mem_cons_of_mem _ member)

/-- The segments with the first AS numbers of a path, as `keepAsns` copies them. -/
def keptSegments : List AsPathSegment → Nat → List AsPathSegment
  | _, 0 => []
  | [], _ + 1 => []
  | segment :: rest, left + 1 =>
    if segment.asns.isEmpty then keptSegments rest (left + 1)
    else { segment with asns := segment.asns.take (left + 1) } :: keptSegments rest (left + 1 - segment.asns.length)

@[simp] theorem keptSegments_zero (segments : List AsPathSegment) : keptSegments segments 0 = [] := by
  cases segments <;> rfl

theorem copySegmentPrefix_gives (writable : segmentWritable segment = true) {count : Nat}
    (within : count ≤ segment.asns.length) :
    Work.Gives (copySegmentPrefix segment count) { segment with asns := segment.asns.take count } := by
  have good : ¬ (decide (segment.asns.length < count) || !segmentWritable segment) = true := by
    simp [writable, within]
  exact .check good ((Work.gives_ask _).bind (Work.gives_pure _))

/-- The copy of a path's head is its first AS numbers. -/
theorem keepAsns_gives (writable : Writable segments) :
    Work.Gives (keepAsns segments left) (keptSegments segments left) := by
  fun_induction keepAsns segments left with
  | case1 segments =>
    rw [keptSegments_zero]
    exact Work.gives_pure _
  | case2 left => exact Work.gives_pure _
  | case3 segment rest left empty ih =>
    rw [keptSegments, if_pos empty]
    exact ih writable.tail
  | case4 segment rest left some ih =>
    rw [keptSegments, if_neg some]
    have first := copySegmentPrefix_gives writable.head (Nat.min_le_left segment.asns.length (left + 1))
    have taken : segment.asns.take (min segment.asns.length (left + 1)) = segment.asns.take (left + 1) := by
      rw [Nat.min_comm, ← take_take, take_length]
    rw [taken] at first
    exact first.bind ((ih writable.tail).bind (Work.gives_pure _))

theorem copySegments_gives (writable : Writable segments) :
    Work.Gives (segments.mapM fun segment => copySegmentPrefix segment segment.asns.length) segments := by
  induction segments with
  | nil => exact Work.gives_pure _
  | cons segment rest ih =>
    rw [mapM_cons]
    have first := copySegmentPrefix_gives writable.head (Nat.le_refl segment.asns.length)
    rw [take_length] at first
    exact first.bind ((ih writable.tail).bind (Work.gives_pure _))

/-- The two parts are joined when no set is cut. -/
theorem rebuild_gives (writable : Writable segments) (shadow : Writable as4) (uncut : checkKept segments start = .ok ())
    (within : start ≤ (pathAsns segments).length) :
    Work.Gives (rebuildAsPathFromAs4Suffix segments as4 start) (keptSegments segments start ++ as4) := by
  have good : ¬ (segments.isEmpty && start != 0) = true := by
    cases segments with
    | nil =>
      obtain rfl := Nat.le_zero.mp within
      decide
    | cons => exact Bool.false_ne_true
  refine (Work.gives_ofExcept uncut).bind (.check good ((Work.gives_ask _).bind ?_))
  exact (keepAsns_gives writable).bind ((copySegments_gives shadow).bind (Work.gives_pure _))

theorem rebuild_yields (writable : Writable segments) (shadow : Writable as4)
    (within : start ≤ (pathAsns segments).length)
    (yields : Work.Yields (rebuildAsPathFromAs4Suffix segments as4 start) rest) :
    checkKept segments start = .ok () ∧ rest = keptSegments segments start ++ as4 := by
  obtain ⟨⟨⟩, checked, -⟩ := yields.bind
  have uncut := Work.yields_ofExcept checked
  exact ⟨uncut, yields.unique (rebuild_gives writable shadow uncut within)⟩

/-- From a place behind the start on, the segments stay as they are. -/
theorem suffixSegments_behind (behind : start < position) :
    suffixSegments start position segments = .ok segments := by
  induction segments generalizing position with
  | nil => rfl
  | cons segment rest ih =>
    have next : ¬ position + segment.asns.length ≤ start := by omega
    have uncut : ¬ (decide (position < start) && segment.type == 1) = true := by
      simp
      omega
    have none : start - position = 0 := by omega
    rw [suffixSegments, if_neg next, if_neg uncut, ih (by omega), none]
    rfl

theorem typed_of_writable (writable : segmentWritable segment = true) :
    ¬ (decide (segment.type < 1) || decide (2 < segment.type)) = true := by
  rcases (segmentWritable_iff.mp writable).1 with set | sequence
  · rw [set]
    decide
  · rw [sequence]
    decide

/-- A segment that is kept whole is not cut. -/
theorem checkKept_whole (writable : segmentWritable segment = true) (whole : segment.asns.length ≤ left) :
    checkKept (segment :: rest) left = checkKept rest (left - segment.asns.length) := by
  cases left with
  | zero =>
    rw [Nat.zero_sub]
    cases rest <;> rfl
  | succ left =>
    have uncut : ¬ (decide (left + 1 < segment.asns.length) && segment.type == 1) = true := by
      simp
      omega
    rw [checkKept, if_neg (typed_of_writable writable), if_neg uncut]

theorem keptSegments_whole (whole : segment.asns.length ≤ left) : keptSegments (segment :: rest) left =
    (if segment.asns = [] then [] else [segment]) ++ keptSegments rest (left - segment.asns.length) := by
  cases left with
  | zero =>
    rw [length_eq_zero_iff.mp (Nat.le_zero.mp whole)]
    simp
  | succ left =>
    rw [keptSegments]
    by_cases empty : segment.asns = []
    · rw [if_pos (List.isEmpty_iff.mpr empty), if_pos empty, empty]
      rfl
    · rw [if_neg (mt List.isEmpty_iff.mp empty), if_neg empty, take_of_length_le whole]
      rfl

/-- Only a sequence is cut. -/
theorem checkKept_part (writable : segmentWritable segment = true) (part : left < segment.asns.length) :
    checkKept (segment :: rest) left = .ok () ↔ left = 0 ∨ segment.type = 2 := by
  cases left with
  | zero => exact ⟨fun _ => .inl rfl, fun _ => rfl⟩
  | succ left =>
    rw [checkKept, if_neg (typed_of_writable writable)]
    rcases (segmentWritable_iff.mp writable).1 with set | sequence
    · rw [if_pos (by simp [set, part]), set]
      simp
    · rw [if_neg (by simp [sequence]), Nat.sub_eq_zero_of_le (Nat.le_of_lt part)]
      cases rest <;> simp [checkKept, sequence]

theorem keptSegments_part (part : left < segment.asns.length) : keptSegments (segment :: rest) left =
    if left = 0 then [] else [{ segment with asns := segment.asns.take left }] := by
  cases left with
  | zero => rfl
  | succ left =>
    have some : ¬ segment.asns.isEmpty = true := by
      intro empty
      rw [List.isEmpty_iff.mp empty] at part
      cases part
    rw [keptSegments, if_neg some, Nat.sub_eq_zero_of_le (Nat.le_of_lt part), keptSegments_zero,
      if_neg (Nat.succ_ne_zero left)]

/-- A path that is cut at a place and joined again is the same path, with one sequence split. -/
theorem suffixSegments_resplit (writable : Writable segments) (within : position ≤ start)
    (cut : suffixSegments start position segments = .ok rest) :
    checkKept segments (start - position) = .ok () ∧
      Resplit segments (keptSegments segments (start - position) ++ rest) ∧
      pathAsns rest = (pathAsns segments).drop (start - position) ∧ Writable rest := by
  induction segments generalizing position with
  | nil =>
    cases cut
    refine ⟨by cases start - position <;> rfl, ?_, by simp [pathAsns], writable⟩
    cases start - position <;> exact .same []
  | cons segment behind ih =>
    rw [suffixSegments] at cut
    split at cut
    case isTrue early =>
      obtain ⟨uncut, resplit, asns, shadow⟩ := ih writable.tail early cut
      have whole : segment.asns.length ≤ start - position := by omega
      have shorter : start - (position + segment.asns.length) = start - position - segment.asns.length := by omega
      rw [shorter] at uncut resplit asns
      refine ⟨(checkKept_whole writable.head whole).trans uncut, ?_, ?_, shadow⟩
      · rw [keptSegments_whole whole]
        split
        case isTrue empty => exact .dropped empty resplit
        case isFalse => exact .kept segment resplit
      · rw [asns, pathAsns_cons, drop_append, drop_eq_nil_of_le whole, nil_append]
    case isFalse late =>
      have part : start - position < segment.asns.length := by omega
      split at cut
      case isTrue => cases cut
      case isFalse allowed =>
        rw [suffixSegments_behind (Nat.lt_of_not_le late)] at cut
        obtain rfl := Except.ok.inj cut
        have form : start - position = 0 ∨ segment.type = 2 := by
          rcases (segmentWritable_iff.mp writable.head).1 with set | sequence
          · rw [set] at allowed
            simp at allowed
            omega
          · exact .inr sequence
        refine ⟨(checkKept_part writable.head part).mpr form, ?_, ?_, ?_⟩
        · rw [keptSegments_part part]
          split
          case isTrue first =>
            rw [first]
            exact .same _
          case isFalse inside =>
            obtain ⟨type, asns⟩ := segment
            obtain rfl : type = 2 := form.resolve_left inside
            have front : asns.take (start - position) ≠ [] := by
              rw [← length_pos_iff, length_take]
              exact Nat.lt_min.mpr ⟨Nat.pos_of_ne_zero inside, Nat.zero_lt_of_lt part⟩
            have back : asns.drop (start - position) ≠ [] := fun none => Nat.not_le_of_lt part (drop_eq_nil_iff.mp none)
            have split := Resplit.split behind front back
            rw [take_append_drop] at split
            exact split
        · rw [pathAsns_cons, pathAsns_cons, drop_append_of_le_length (Nat.le_of_lt part)]
        · intro other member
          rcases mem_cons.mp member with rfl | tail
          · obtain ⟨type, few⟩ := segmentWritable_iff.mp writable.head
            refine segmentWritable_iff.mpr ⟨type, ?_⟩
            rw [length_drop]
            omega
          · exact writable.tail other tail

/-- The kept segments hold the first AS numbers of the path. -/
theorem pathAsns_kept : pathAsns (keptSegments segments left) = (pathAsns segments).take left := by
  induction segments generalizing left with
  | nil => cases left <;> rfl
  | cons segment rest ih =>
    rcases Nat.lt_or_ge left segment.asns.length with part | whole
    · rw [keptSegments_part part, pathAsns_cons, take_append_of_le_length (Nat.le_of_lt part)]
      split
      case isTrue none =>
        rw [none]
        rfl
      case isFalse => exact append_nil _
    · rw [keptSegments_whole whole, pathAsns_append, ih, pathAsns_cons, take_append, take_of_length_le whole]
      congr 1
      split
      case isTrue empty =>
        rw [empty]
        rfl
      case isFalse => exact append_nil _

/-- The kept segments of a writable path are writable. -/
theorem writable_kept (writable : Writable segments) : Writable (keptSegments segments left) := by
  fun_induction keptSegments segments left with
  | case1 | case2 =>
    intro _ absent
    cases absent
  | case3 segment rest left empty ih => exact ih writable.tail
  | case4 segment rest left some ih =>
    obtain ⟨type, few⟩ := segmentWritable_iff.mp writable.head
    refine forall_mem_cons.mpr ⟨segmentWritable_iff.mpr ⟨type, ?_⟩, ih writable.tail⟩
    rw [length_take]
    omega

/-- An AS number in two bytes. -/
def narrowAsn (asn : UInt32) : UInt32 := if 65535 < asn then asTrans else asn

theorem narrowAsn_le (asn : UInt32) : narrowAsn asn ≤ 65535 := by
  rw [narrowAsn]
  split
  case isTrue => decide
  case isFalse small => exact UInt32.not_lt.mp small

theorem pathAsns_narrow : pathAsns (narrowSegments segments) = (pathAsns segments).map narrowAsn := by
  rw [pathAsns, narrowSegments, flatMap_map, pathAsns, map_flatMap]
  rfl

theorem writable_narrow (writable : Writable segments) : Writable (narrowSegments segments) := by
  intro segment member
  obtain ⟨wide, stored, rfl⟩ := mem_map.mp member
  obtain ⟨type, few⟩ := segmentWritable_iff.mp (writable wide stored)
  refine segmentWritable_iff.mpr ⟨type, ?_⟩
  rw [length_map]
  exact few

theorem narrowSegments_small (small : ∀ asn ∈ pathAsns segments, ¬ 65535 < asn) :
    narrowSegments segments = segments := by
  have each (segment : AsPathSegment) (member : segment ∈ segments) :
      { segment with asns := segment.asns.map fun asn => if 65535 < asn then asTrans else asn } = segment := by
    have unchanged (asn : UInt32) (listed : asn ∈ segment.asns) : (if 65535 < asn then asTrans else asn) = asn :=
      if_neg (small asn (mem_flatMap.mpr ⟨segment, member, listed⟩))
    rw [map_congr_left unchanged, map_id']
  exact (map_congr_left each).trans (map_id segments)

theorem checkKept_narrow : checkKept (narrowSegments segments) left = checkKept segments left := by
  fun_induction checkKept segments left with
  | case1 segments => cases narrowSegments segments <;> rfl
  | case2 left => rfl
  | case3 segment rest left bad => exact if_pos bad
  | case4 segment rest left good cut =>
    refine (if_neg good).trans (if_pos ?_)
    rw [length_map]
    exact cut
  | case5 segment rest left good uncut ih =>
    refine (if_neg good).trans ((if_neg ?_).trans ?_)
    · rw [length_map]
      exact uncut
    · rw [length_map]
      exact ih

/-- Keeping segments commutes with narrowing them. -/
theorem keptSegments_narrow :
    keptSegments (narrowSegments segments) left = narrowSegments (keptSegments segments left) := by
  fun_induction keptSegments segments left with
  | case1 segments => exact keptSegments_zero _
  | case2 left => rfl
  | case3 segment rest left empty ih =>
    exact (if_pos (isEmpty_map.trans empty)).trans ih
  | case4 segment rest left some ih =>
    refine (if_neg ?_).trans ?_
    · rw [isEmpty_map]
      exact some
    · rw [length_map, ← map_take]
      exact congrArg (_ :: ·) ih

/-- An AS number of a narrow path can stand for a wide one. -/
def StandsFor (asn real : UInt32) : Prop := asn = asTrans ∨ asn = real

/-- The shadow agrees with the end of the path place by place. -/
theorem suffixMatches_iff {asns listed : List UInt32} :
    suffixMatchesAs4 asns listed start = true ↔ List.Forall₂ StandsFor (asns.drop start) listed := by
  rw [suffixMatchesAs4, Bool.and_eq_true, beq_iff_eq, forall₂_iff_zip, all_eq_true]
  refine and_congr_right fun _ => ⟨fun all a b member => ?_, fun all pair member => ?_⟩
  · simpa [StandsFor] using all (a, b) member
  · simpa [StandsFor] using all member

/-- What was made narrow agrees with the wide AS numbers of its end. -/
theorem suffixMatches_narrow (asns : List UInt32) :
    suffixMatchesAs4 (asns.map narrowAsn) (asns.drop start) start = true := by
  rw [suffixMatches_iff, ← map_drop, forall₂_map_left_iff, forall₂_same]
  intro asn _
  rw [StandsFor, narrowAsn]
  split
  · exact .inl rfl
  · exact .inr rfl

/-- A path with another AS in front, as `prependToPath` builds it. -/
def prepended (segments : List AsPathSegment) (asn : UInt32) : List AsPathSegment :=
  match segments with
  | segment :: rest =>
    if segment.type = 2 ∧ segment.asns.length < 255 then { segment with asns := asn :: segment.asns } :: rest
    else ⟨2, [asn]⟩ :: segment :: rest
  | [] => [⟨2, [asn]⟩]

theorem prependToPath_gives : Work.Gives (prependToPath segments asn) (prepended segments asn) := by
  rcases segments with _ | ⟨segment, rest⟩
  · exact (Work.gives_ask _).bind (Work.gives_pure _)
  · rw [prependToPath, prepended]
    split
    · exact (Work.gives_ask _).bind (Work.gives_pure _)
    · exact (Work.gives_ask _).bind (Work.gives_pure _)

/-- The AS is in the first segment, which is a sequence. -/
theorem prepended_cases (segments : List AsPathSegment) : ∃ asns behind,
    (∀ asn, prepended segments asn = ⟨2, asn :: asns⟩ :: behind) ∧
      ((asns = [] ∧ behind = segments) ∨ (segments = ⟨2, asns⟩ :: behind ∧ asns.length < 255)) := by
  rcases segments with _ | ⟨⟨type, asns⟩, rest⟩
  · exact ⟨[], [], fun _ => rfl, .inl ⟨rfl, rfl⟩⟩
  · by_cases room : type = 2 ∧ asns.length < 255
    · obtain ⟨rfl, few⟩ := room
      exact ⟨asns, rest, fun _ => if_pos ⟨rfl, few⟩, .inr ⟨rfl, few⟩⟩
    · exact ⟨[], ⟨type, asns⟩ :: rest, fun _ => if_neg room, .inl ⟨rfl, rfl⟩⟩

theorem pathAsns_prepended : pathAsns (prepended segments asn) = asn :: pathAsns segments := by
  obtain ⟨asns, behind, same, ⟨rfl, rfl⟩ | ⟨rfl, -⟩⟩ := prepended_cases segments
  · rw [same]
    rfl
  · rw [same]
    rfl

theorem hops_prepended : hops (prepended segments asn) = .one asn :: hops segments := by
  obtain ⟨asns, behind, same, ⟨rfl, rfl⟩ | ⟨rfl, -⟩⟩ := prepended_cases segments
  · rw [same]
    rfl
  · rw [same]
    rfl

theorem writable_prepended (writable : Writable segments) : Writable (prepended segments asn) := by
  obtain ⟨asns, behind, same, ⟨rfl, rfl⟩ | ⟨rfl, few⟩⟩ := prepended_cases segments
  · rw [same]
    exact forall_mem_cons.mpr ⟨rfl, writable⟩
  · rw [same]
    exact forall_mem_cons.mpr ⟨segmentWritable_iff.mpr ⟨.inr rfl, few⟩, writable.tail⟩

/-- Another AS in front, and one more AS that is kept: no other set is cut. -/
theorem checkKept_prepended (writable : Writable segments) (uncut : checkKept segments start = .ok ()) :
    checkKept (prepended segments asn) (start + 1) = .ok () := by
  have good := @writable_prepended segments asn writable
  obtain ⟨asns, behind, same, ⟨rfl, rfl⟩ | ⟨rfl, -⟩⟩ := prepended_cases segments
  · rw [same, checkKept_whole rfl (Nat.le_add_left 1 start)]
    exact uncut
  · rw [same] at good ⊢
    rcases Nat.lt_or_ge (start + 1) (asns.length + 1) with part | whole
    · exact (checkKept_part good.head part).mpr (.inr rfl)
    · rw [checkKept_whole writable.head (Nat.le_of_succ_le_succ whole)] at uncut
      rw [checkKept_whole good.head whole]
      exact (congrArg _ (Nat.succ_sub_succ start asns.length)).trans uncut

/-- A longer head of a prepended path begins with the new AS. -/
theorem hops_kept_prepended : hops (keptSegments (prepended segments asn) (start + 1)) =
    .one asn :: hops (keptSegments segments start) := by
  obtain ⟨asns, behind, same, ⟨rfl, rfl⟩ | ⟨rfl, -⟩⟩ := prepended_cases segments
  · rw [same, keptSegments_whole (Nat.le_add_left 1 start)]
    rfl
  · rw [same]
    rcases Nat.lt_or_ge start asns.length with part | whole
    · rw [keptSegments_part (Nat.succ_lt_succ part), keptSegments_part part, if_neg (Nat.succ_ne_zero start)]
      split
      case isTrue none =>
        rw [none]
        rfl
      case isFalse => rfl
    · rw [keptSegments_whole (Nat.succ_le_succ whole), keptSegments_whole whole, if_neg (cons_ne_nil asn asns)]
      show _ = Hop.one asn :: hops (_ ++ keptSegments behind (start - asns.length))
      rw [hops_append, hops_append, length_cons, Nat.succ_sub_succ]
      split
      case isTrue empty =>
        rw [show asns = [] from empty]
        rfl
      case isFalse => rfl

theorem fillAsTrans_real (real : asn ≠ asTrans) (rest listed : List UInt32) :
    fillAsTrans (asn :: rest) listed = (asn :: (fillAsTrans rest listed).1, (fillAsTrans rest listed).2) := by
  rw [fillAsTrans.eq_def]
  exact if_neg real

/-- An AS in front that is not AS_TRANS takes no listed AS number. -/
theorem hops_fill_prepended (real : asn ≠ asTrans) (listed : List UInt32) :
    hops (fillSegments (prepended segments asn) listed) = .one asn :: hops (fillSegments segments listed) := by
  obtain ⟨asns, behind, same, ⟨rfl, rfl⟩ | ⟨rfl, -⟩⟩ := prepended_cases segments
  · rw [same, fillSegments, fillAsTrans_real real]
    rfl
  · rw [same, fillSegments, fillSegments, fillAsTrans_real real]
    rfl

theorem setFirstAsn_prepended (first : UInt32) :
    setFirstAsn asn (prepended segments first) = prepended segments asn := by
  obtain ⟨asns, behind, same, -⟩ := prepended_cases segments
  rw [same, same]
  rfl

theorem setFirstAsn_kept (first : UInt32) :
    setFirstAsn asn (keptSegments (prepended segments first) (start + 1) ++ rest) =
    keptSegments (prepended segments asn) (start + 1) ++ rest := by
  obtain ⟨asns, behind, same, -⟩ := prepended_cases segments
  rw [same, same]
  rfl

end Segments

/-- No segment is empty. -/
def Solid (segments : List AsPathSegment) : Prop := ∀ segment ∈ segments, segment.asns ≠ []

section Solid

variable {segments as4 rest : List AsPathSegment} {segment : AsPathSegment} {left start position : Nat} {asn : UInt32}
  {listed : List UInt32}

theorem solid_cons : Solid (segment :: rest) ↔ segment.asns ≠ [] ∧ Solid rest := forall_mem_cons

theorem Solid.append (solid : Solid segments) (behind : Solid rest) : Solid (segments ++ rest) :=
  forall_mem_append.mpr ⟨solid, behind⟩

theorem solid_kept : Solid (keptSegments segments left) := by
  fun_induction keptSegments segments left with
  | case1 | case2 => exact nofun
  | case3 segment rest left empty ih => exact ih
  | case4 segment rest left some ih =>
    refine solid_cons.mpr ⟨fun none => some ?_, ih⟩
    rcases take_eq_nil_iff.mp none with zero | empty
    · cases zero
    · exact List.isEmpty_iff.mpr empty

theorem Solid.narrow (solid : Solid segments) : Solid (narrowSegments segments) := by
  intro segment member
  obtain ⟨old, stored, rfl⟩ := mem_map.mp member
  exact fun empty => solid old stored (map_eq_nil_iff.mp empty)

theorem Solid.prepended (solid : Solid segments) : Solid (prepended segments asn) := by
  obtain ⟨asns, behind, all, ⟨rfl, rfl⟩ | ⟨rfl, -⟩⟩ := prepended_cases segments
  · rw [all]
    exact solid_cons.mpr ⟨cons_ne_nil _ _, solid⟩
  · rw [all]
    exact solid_cons.mpr ⟨cons_ne_nil _ _, (solid_cons.mp solid).2⟩

/-- A suffix of a path without empty segments has none. -/
theorem Solid.suffix (solid : Solid segments) (within : position ≤ start)
    (cut : suffixSegments start position segments = .ok rest) : Solid rest := by
  induction segments generalizing position with
  | nil => exact Except.ok.inj cut ▸ nofun
  | cons segment others ih =>
    rw [suffixSegments] at cut
    split at cut
    case isTrue before => exact ih (solid_cons.mp solid).2 before cut
    case isFalse reached =>
      split at cut
      case isTrue => cases cut
      case isFalse =>
        rw [suffixSegments_behind (Nat.not_le.mp reached)] at cut
        obtain rfl := Except.ok.inj cut
        refine solid_cons.mpr ⟨fun none => ?_, (solid_cons.mp solid).2⟩
        have all : segment.asns.length ≤ start - position := drop_eq_nil_iff.mp none
        omega

/-- A path is filled place by place when there are enough AS numbers for it. -/
theorem fillAsTrans_standsFor {asns : List UInt32} (enough : asns.count asTrans ≤ listed.length) :
    List.Forall₂ StandsFor asns (fillAsTrans asns listed).1 ∧
      (fillAsTrans asns listed).2.length = listed.length - asns.count asTrans := by
  induction asns generalizing listed with
  | nil => exact ⟨.nil, rfl⟩
  | cons asn rest ih =>
    by_cases hole : asn = asTrans
    · subst hole
      rw [count_cons_self] at enough
      cases listed with
      | nil => exact absurd enough (Nat.not_succ_le_zero _)
      | cons real listed =>
        obtain ⟨filled, left⟩ := ih (Nat.le_of_succ_le_succ enough)
        rw [count_cons_self, fillAsTrans, if_pos rfl]
        exact ⟨.cons (.inl rfl) filled, left.trans (Nat.add_sub_add_right ..).symm⟩
    · rw [count_cons_of_ne hole] at enough
      obtain ⟨filled, left⟩ := ih enough
      rw [fillAsTrans_real hole, count_cons_of_ne hole]
      exact ⟨.cons (.inr rfl) filled, left⟩

theorem fillSegments_standsFor (enough : (pathAsns segments).count asTrans ≤ listed.length) :
    List.Forall₂ StandsFor (pathAsns segments) (pathAsns (fillSegments segments listed)) := by
  induction segments generalizing listed with
  | nil => exact .nil
  | cons segment rest ih =>
    rw [pathAsns_cons, count_append] at enough
    obtain ⟨filled, left⟩ := fillAsTrans_standsFor (Nat.le_trans (Nat.le_add_right _ _) enough)
    rw [pathAsns_cons, fillSegments, pathAsns_cons]
    exact rel_append filled (ih (by omega))

/-- When the shadow does not agree with the end of the path, filling the path and replacing its end differ. -/
theorem fillSegments_ne (enough : (pathAsns segments).count asTrans ≤ (pathAsns as4).length)
    (unlike : suffixMatchesAs4 (pathAsns segments) (pathAsns as4)
      ((pathAsns segments).length - (pathAsns as4).length) = false) :
    pathAsns (fillSegments segments (pathAsns as4)) ≠
      (pathAsns segments).take ((pathAsns segments).length - (pathAsns as4).length) ++ pathAsns as4 := by
  intro same
  have filled := forall₂_drop ((pathAsns segments).length - (pathAsns as4).length) (fillSegments_standsFor enough)
  rw [same, drop_left' (length_take_of_le (Nat.sub_le _ _)), ← suffixMatches_iff, unlike] at filled
  cases filled

/-- What depends on the length of a segment stays when AS_TRANS values are filled in. -/
theorem forall_fillSegments {good : AsPathSegment → Prop}
    (keeps : ∀ segment asns, asns.length = segment.asns.length → good segment → good { segment with asns := asns })
    (all : ∀ segment ∈ segments, good segment) (enough : (pathAsns segments).count asTrans ≤ listed.length) :
    ∀ segment ∈ fillSegments segments listed, good segment := by
  induction segments generalizing listed with
  | nil => exact nofun
  | cons segment rest ih =>
    rw [pathAsns_cons, count_append] at enough
    obtain ⟨filled, left⟩ := fillAsTrans_standsFor (Nat.le_trans (Nat.le_add_right _ _) enough)
    obtain ⟨first, others⟩ := forall_mem_cons.mp all
    exact forall_mem_cons.mpr ⟨keeps segment _ filled.length_eq.symm first, ih others (by omega)⟩

theorem Solid.fill (solid : Solid segments) (enough : (pathAsns segments).count asTrans ≤ listed.length) :
    Solid (fillSegments segments listed) :=
  forall_fillSegments (fun _ _ same some => by rwa [← length_pos_iff, same, length_pos_iff]) solid enough

theorem Writable.fill (writable : Writable segments) (enough : (pathAsns segments).count asTrans ≤ listed.length) :
    Writable (fillSegments segments listed) :=
  forall_fillSegments (fun _ _ same good => by rwa [segmentWritable, same]) writable enough

end Solid

end Libbgp
