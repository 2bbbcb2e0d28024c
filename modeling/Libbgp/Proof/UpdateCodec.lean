/-
Whole UPDATE messages as bytes: what the parser accepts is written again, and what is written is parsed.
-/

import Libbgp.Proof.AttrCodec

namespace Libbgp

open Library List

section Lists

variable {wide : Bool} {bytes rest : Bytes} {list : List PAttr} {attrs : List (Option PAttr)} (attr : PAttr)

/-- No two attributes have one type code. -/
def DistinctCodes (list : List PAttr) : Prop := list.Pairwise fun first second => first.typeCode ≠ second.typeCode

theorem firstDuplicate_eq_none (none : firstDuplicate (list.map some) = none) : DistinctCodes list := by
  induction list with
  | nil => exact List.Pairwise.nil
  | cons attr rest ih =>
    rw [map_cons, firstDuplicate] at none
    split at none
    case isTrue => cases none
    case isFalse single =>
      refine List.Pairwise.cons (fun other member same => single ?_) (ih (Option.map_eq_none_iff.mp none))
      exact any_eq_true.mpr ⟨some other, mem_map_of_mem member, beq_iff_eq.mpr same.symm⟩

theorem attrsLen_eq (legible : ∀ attr ∈ list, attr.Legible wide) :
    attrsLen (list.map some) = .ok (list.flatMap attrBytes).length := by
  induction list with
  | nil => rfl
  | cons attr rest ih =>
    have later := ih fun other member => legible other (mem_cons_of_mem _ member)
    rw [map_cons, attrsLen, (legible attr mem_cons_self).wireLen, later, flatMap_cons, length_append]
    rfl

/-- The encoder measures attributes only when none is missing. -/
theorem attrsLen_ok {len : Nat} (measured : attrsLen attrs = .ok len) :
    ∃ list : List PAttr, attrs = list.map some ∧ ∀ attr ∈ list, ∃ size, pattrWireLen attr = .ok size := by
  induction attrs generalizing len with
  | nil => exact ⟨[], rfl, fun _ member => (nomatch member)⟩
  | cons first rest ih =>
    cases first with
    | none => cases measured
    | some attr =>
      obtain ⟨size, one, measured⟩ := Work.exists_of_bind measured
      obtain ⟨more, others, -⟩ := Work.exists_of_bind measured
      obtain ⟨list, rfl, sized⟩ := ih others
      refine ⟨attr :: list, rfl, fun other member => ?_⟩
      rcases mem_cons.mp member with rfl | inside
      · exact ⟨size, one⟩
      · exact sized other inside

theorem attrsWrite_eq (legible : ∀ attr ∈ list, attr.Legible wide) (size : Nat)
    (room : (list.flatMap attrBytes).length ≤ size) :
      attrsWrite (list.map some) size = .ok (list.flatMap attrBytes) := by
  induction list generalizing size with
  | nil => rfl
  | cons attr rest ih =>
    rw [flatMap_cons, length_append] at room
    have later := ih (fun other member => legible other (mem_cons_of_mem _ member))
      (size - (attrBytes attr).length) (by omega)
    have first := (legible attr mem_cons_self).write (show (attrBytes attr).length ≤ size by omega)
    rw [map_cons, attrsWrite, first]
    show attrsWrite (rest.map some) (size - (attrBytes attr).length) >>= _ = _
    rw [later]
    rfl

@[simp] theorem normal_typeCode : attr.normal.typeCode = attr.typeCode := by
  rcases attr with ⟨flags, data⟩
  cases data <;> rfl

@[simp] theorem normal_type : attr.normal.type = attr.type := by
  rcases attr with ⟨flags, data⟩
  cases data <;> rfl

theorem attrBytes_isEmpty : (attrBytes attr ++ rest).isEmpty = false := by
  unfold attrBytes attrHeader
  split <;> rfl

/-- Written attributes are read back. -/
theorem parseAttrs_gives (legible : ∀ attr ∈ list, attr.Legible wide) (before : List PAttr)
    (distinct : DistinctCodes (before ++ list)) (fuel cap : Nat) (enough : (list.flatMap attrBytes).length ≤ fuel) :
    Work.Gives (parseAttrs wide fuel cap ((before.map PAttr.normal).map some) (list.flatMap attrBytes))
      (((before ++ list).map PAttr.normal).map some) := by
  induction list generalizing before fuel cap with
  | nil =>
    rw [append_nil]
    cases fuel <;> exact Work.gives_pure _
  | cons attr rest ih =>
    have first := legible attr mem_cons_self
    have later := fun other member => legible other (mem_cons_of_mem attr member)
    have three : 3 ≤ (attrBytes attr).length := by
      rw [attrBytes, length_append]
      exact Nat.le_add_right_of_le three_le_attrHeader
    rw [flatMap_cons, length_append] at enough
    obtain ⟨fuel, rfl⟩ : ∃ less, fuel = less + 1 := ⟨fuel - 1, by omega⟩
    have fresh : ¬ (((before.map PAttr.normal).map some).any fun other =>
        other.any (·.typeCode == attr.normal.typeCode)) = true := by
      rw [any_eq_true]
      rintro ⟨other, member, same⟩
      obtain ⟨_, inside, rfl⟩ := mem_map.mp member
      obtain ⟨earlier, found, rfl⟩ := mem_map.mp inside
      have same : earlier.typeCode = attr.typeCode := by simpa using same
      exact (pairwise_append.mp distinct).2.2 earlier found attr mem_cons_self same
    have shifted : before ++ attr :: rest = (before ++ [attr]) ++ rest := by simp
    rw [flatMap_cons, parseAttrs, attrBytes_isEmpty]
    refine (Work.gives_ask 1).bind ((pattrParseAs4_gives first).bind (Work.Gives.check fresh ?_))
    refine (Work.gives_ask _).bind ?_
    rw [shifted] at distinct ⊢
    have others := ih later (before ++ [attr]) distinct fuel
    simp only [map_append, map_cons, map_nil] at others ⊢
    exact others _ (by omega)

/-- What is known of attributes that were read. -/
structure AttrsRead (wide : Bool) (bytes : Bytes) (list : List PAttr) : Prop where
  legible : ∀ attr ∈ list, attr.Legible wide
  normal : list.map PAttr.normal = list
  written : ∀ fuel, bytes.length ≤ fuel → list.flatMap attrBytes = clearAttrs fuel bytes
  length : (list.flatMap attrBytes).length = bytes.length

theorem AttrsRead.nil : AttrsRead wide [] [] :=
  ⟨fun _ member => (nomatch member), rfl, fun fuel _ => by cases fuel <;> rfl, rfl⟩

/-- One more attribute in front of a list that is read. -/
theorem AttrsRead.cons {attr : PAttr} {value : Bytes} (first : AttrRead wide attr value)
    (later : AttrsRead wide rest list) :
    AttrsRead wide (attrHeader attr.flags attr.typeCode value.length ++ value ++ rest) (attr :: list) := by
  have three := @three_le_attrHeader attr.flags attr.typeCode value.length
  have flags : attr.wireFlags = attr.flags := congrArg PAttr.flags first.normal
  have own : attrBytes attr = attrHeader attr.flags attr.typeCode value.length ++ clearValue attr.typeCode value := by
    rw [attrBytes, flags, first.length, first.written]
  refine ⟨fun other member => ?_, ?_, fun fuel enough => ?_, ?_⟩
  · rcases mem_cons.mp member with rfl | inside
    · exact first.legible
    · exact later.legible other inside
  · rw [map_cons, first.normal, later.normal]
  · rw [length_append, length_append] at enough
    obtain ⟨fuel, rfl⟩ : ∃ less, fuel = less + 1 := ⟨fuel - 1, by omega⟩
    rw [flatMap_cons, own, clearAttrs_header first.fits, later.written fuel (by omega)]
  · rw [flatMap_cons, own, ← first.written]
    simp only [length_append, first.length, later.length]

/-- What is read is legible, and is written as it was read. -/
theorem parseAttrs_yields {before : List (Option PAttr)} (fuel cap : Nat) (enough : bytes.length ≤ fuel)
    (yields : Work.Yields (parseAttrs wide fuel cap before bytes) attrs) :
    ∃ list : List PAttr, attrs = before ++ list.map some ∧ AttrsRead wide bytes list := by
  induction fuel generalizing cap before bytes with
  | zero =>
    obtain rfl := length_eq_zero_iff.mp (Nat.le_zero.mp enough)
    obtain rfl := Work.yields_pure yields
    exact ⟨[], (append_nil _).symm, .nil⟩
  | succ fuel ih =>
    rw [parseAttrs] at yields
    split at yields
    case isTrue empty =>
      obtain rfl := isEmpty_iff.mp empty
      obtain rfl := Work.yields_pure yields
      exact ⟨[], (append_nil _).symm, .nil⟩
    case isFalse =>
      obtain ⟨-, -, started⟩ := yields.bind
      obtain ⟨⟨attr, rest⟩, parsed, checked⟩ := started.bind
      obtain ⟨-, counted⟩ := checked.check
      obtain ⟨-, -, recursed⟩ := counted.bind
      obtain ⟨value, rfl, read⟩ := pattrParseAs4_yields parsed
      have three := @three_le_attrHeader attr.flags attr.typeCode value.length
      rw [length_append, length_append] at enough
      obtain ⟨list, rfl, others⟩ := ih _ (by omega) recursed
      exact ⟨attr :: list, by simp, .cons read others⟩

end Lists

/-- The message as it is read from its bytes. -/
def UpdateMsg.normal (update : UpdateMsg) : UpdateMsg :=
  ⟨update.withdrawn.map Prefix.cleared, update.attrs.map (Option.map PAttr.normal), update.nlri.map Prefix.cleared⟩

/-- The attribute announces IPv6 routes. -/
def PAttr.reaches (attr : PAttr) : Bool :=
  match attr.data with
  | .mpReachIpv6 _ _ _ nlri => !nlri.isEmpty
  | _ => false

section Validation

variable (update : UpdateMsg)

theorem findAttr_normal (type : PAttrType) : (update.normal.findAttr type).isSome = (update.findAttr type).isSome := by
  simp only [UpdateMsg.findAttr, UpdateMsg.normal, isSome_find?]
  induction update.attrs with
  | nil => rfl
  | cons first rest ih => cases first <;> simp_all

theorem badAttr_normal (attr : Option PAttr) : badAttr (attr.map PAttr.normal) = badAttr attr := by
  cases attr with
  | none => rfl
  | some attr =>
    rcases attr with ⟨flags, data⟩
    cases data <;> rfl

theorem firstDuplicate_normal (attrs : List (Option PAttr)) :
    firstDuplicate (attrs.map (Option.map PAttr.normal)) = firstDuplicate attrs := by
  induction attrs with
  | nil => rfl
  | cons first rest ih =>
    cases first with
    | none => simp only [map_cons, Option.map_none, firstDuplicate, ih]
    | some attr =>
      have same : ((rest.map (Option.map PAttr.normal)).any fun other => other.any (·.typeCode == attr.typeCode)) =
          rest.any fun other => other.any (·.typeCode == attr.typeCode) := by
        rw [any_map]
        refine congrArg (rest.any ·) (funext fun other => ?_)
        cases other <;> simp
      simp only [map_cons, Option.map_some, firstDuplicate, normal_typeCode, same, ih]

theorem reaches_normal (attr : PAttr) : attr.normal.reaches = attr.reaches := by
  rcases attr with ⟨flags, data⟩
  cases data with
  | mpReachIpv6 nexthop linkLocal nexthopLen nlri => exact congrArg (!·) isEmpty_map
  | _ => rfl

/-- The checks on an UPDATE, in the order in which they count. -/
theorem updateValidate_eq : updateValidate update =
    let firstBad := update.attrs.findIdx badAttr
    let duplicate := firstDuplicate update.attrs
    let has := fun type => (update.findAttr type).isSome
    if duplicate.any (· < firstBad) then .error .invalid
    else if firstBad < update.attrs.length then .error .badLen
    else if duplicate.isSome then .error .invalid
    else if !update.nlri.isEmpty && !(has .origin && has .asPath && has .nextHop) then .error .invalid
    else if (update.attrs.any (·.any PAttr.reaches)) && !(has .origin && has .asPath) then .error .invalid
    else .ok () := by
  have reach : ((update.attrs.filterMap id).any PAttr.reaches) = update.attrs.any (·.any PAttr.reaches) := by
    rw [any_filterMap]
    refine congrArg (update.attrs.any ·) (funext fun attr => ?_)
    cases attr <;> rfl
  rw [← reach]
  rfl

/-- The checks do not see what encoding normalises. -/
theorem updateValidate_normal : updateValidate update.normal = updateValidate update := by
  have bad : update.normal.attrs.findIdx badAttr = update.attrs.findIdx badAttr := by
    rw [UpdateMsg.normal, findIdx_map]
    exact congrArg (update.attrs.findIdx ·) (funext badAttr_normal)
  have reach : update.normal.attrs.any (·.any PAttr.reaches) = update.attrs.any (·.any PAttr.reaches) := by
    rw [UpdateMsg.normal, any_map]
    refine congrArg (update.attrs.any ·) (funext fun attr => ?_)
    cases attr with
    | none => rfl
    | some attr => exact reaches_normal attr
  have duplicate : firstDuplicate update.normal.attrs = firstDuplicate update.attrs :=
    firstDuplicate_normal update.attrs
  have count : update.normal.attrs.length = update.attrs.length := length_map _
  have announced : update.normal.nlri.isEmpty = update.nlri.isEmpty := isEmpty_map
  rw [updateValidate_eq, updateValidate_eq, bad, reach, duplicate, count, announced]
  simp only [findAttr_normal]

end Validation

/-- The attributes that are there. -/
def UpdateMsg.present (update : UpdateMsg) : List PAttr := update.attrs.filterMap id

/-- A message that is written and read again. -/
structure UpdateMsg.Legible (wide : Bool) (update : UpdateMsg) : Prop where
  complete : update.attrs = update.present.map some
  attrs : ∀ attr ∈ update.present, attr.Legible wide
  withdrawn : ∀ pfx ∈ update.withdrawn, pfx.len ≤ 32
  nlri : ∀ pfx ∈ update.nlri, pfx.len ≤ 32
  withdrawnShort : (update.withdrawn.flatMap prefixWrite).length ≤ 65535
  attrsShort : (update.present.flatMap attrBytes).length ≤ 65535
  valid : updateValidate update = .ok ()

/-- The bytes of a message. -/
def updateBytes (update : UpdateMsg) : Bytes :=
  let withdrawn := update.withdrawn.flatMap prefixWrite
  let attrs := update.present.flatMap attrBytes
  be16 withdrawn.length ++ (withdrawn ++ (be16 attrs.length ++ (attrs ++ update.nlri.flatMap prefixWrite)))

/-- The bytes of a message without the host bits of its prefixes. -/
def clearHostBits (bytes : Bytes) : Bytes :=
  let withdrawnLen := readBe (bytes.take 2)
  let body := bytes.drop 2
  let later := body.drop withdrawnLen
  let attrLen := readBe (later.take 2)
  let attrs := (later.drop 2).take attrLen
  let nlri := (later.drop 2).drop attrLen
  bytes.take 2 ++ (clearPrefixes withdrawnLen (body.take withdrawnLen) ++
    (later.take 2 ++ (clearAttrs attrLen attrs ++ clearPrefixes nlri.length nlri)))

section Messages

variable {wide : Bool} {bytes : Bytes} {update : UpdateMsg} {size : Nat}

/-- A legible message is written as its bytes. -/
theorem UpdateMsg.Legible.write (legible : update.Legible wide) (room : (updateBytes update).length ≤ size) :
    updateWrite update size = .ok (updateBytes update) := by
  have attrs := attrsLen_eq legible.attrs
  have written := attrsWrite_eq legible.attrs
    ((update.present.flatMap attrBytes).length + (update.nlri.flatMap prefixWrite).length) (Nat.le_add_right _ _)
  rw [← legible.complete] at attrs written
  have long : (decide (65535 < (update.withdrawn.flatMap prefixWrite).length) ||
      decide (65535 < (update.present.flatMap attrBytes).length)) = false := by
    rw [decide_eq_false (Nat.not_lt.mpr legible.withdrawnShort), decide_eq_false (Nat.not_lt.mpr legible.attrsShort)]
    rfl
  have fits : ¬ size < 4 + (update.withdrawn.flatMap prefixWrite).length + (update.present.flatMap attrBytes).length +
      (update.nlri.flatMap prefixWrite).length := by
    simp only [updateBytes, length_append, length_be16] at room
    omega
  rw [updateWrite, legible.valid, (prefixesLen_iff (by decide)).mpr ⟨legible.withdrawn, rfl⟩, attrs,
    (prefixesLen_iff (by decide)).mpr ⟨legible.nlri, rfl⟩]
  show (if (_ || _) = true then _ else if _ then _ else _) = _
  rw [long, if_neg Bool.false_ne_true, if_neg fits, written]
  simp only [updateBytes, append_assoc]
  rfl

/-- The three parts of a message. -/
theorem updateParseAs4_bytes {withdrawn attrs nlri : Bytes} (first : withdrawn.length < 65536)
    (second : attrs.length < 65536) :
    updateParseAs4 wide (be16 withdrawn.length ++ (withdrawn ++ (be16 attrs.length ++ (attrs ++ nlri)))) = (do
      let withdrawn ← prefixesParse 32 withdrawn
      let attrs ← parseAttrs wide attrs.length 0 [] attrs
      let nlri ← prefixesParse 32 nlri
      Work.ofExcept (updateValidate ⟨withdrawn, attrs, nlri⟩)
      pure ⟨withdrawn, attrs, nlri⟩) := by
  have long : ¬ (be16 withdrawn.length ++ (withdrawn ++ (be16 attrs.length ++ (attrs ++ nlri)))).length < 4 := by
    simp only [length_append, length_be16]
    omega
  have body : ¬ (withdrawn ++ (be16 attrs.length ++ (attrs ++ nlri))).length < withdrawn.length := by
    simp only [length_append]
    omega
  have middle : ¬ (be16 attrs.length ++ (attrs ++ nlri)).length < 2 := by
    simp only [length_append, length_be16]
    omega
  have last : ¬ (attrs ++ nlri).length < attrs.length := by
    simp only [length_append]
    omega
  rw [updateParseAs4, if_neg long]
  simp only [take_left' (length_be16 _), drop_left' (length_be16 _), readBe_be16 first, readBe_be16 second,
    if_neg body, if_neg middle, if_neg last, take_left, drop_left]

theorem noDuplicate_of_valid (valid : updateValidate update = .ok ()) : firstDuplicate update.attrs = none := by
  rw [updateValidate_eq] at valid
  dsimp only at valid
  cases found : firstDuplicate update.attrs with
  | none => rfl
  | some place =>
    rw [found] at valid
    split at valid
    · cases valid
    · split at valid
      · cases valid
      · cases valid

/-- A written message is read back. -/
theorem UpdateMsg.Legible.parse (legible : update.Legible wide) :
    Work.Gives (updateParseAs4 wide (updateBytes update)) update.normal := by
  have distinct : DistinctCodes ([] ++ update.present) := by
    refine firstDuplicate_eq_none ?_
    rw [nil_append, ← legible.complete]
    exact noDuplicate_of_valid legible.valid
  have attrs := parseAttrs_gives legible.attrs [] distinct _ 0 le_rfl
  have normal : update.normal.attrs = (([] ++ update.present).map PAttr.normal).map some := by
    rw [UpdateMsg.normal, legible.complete, map_map, nil_append, map_map]
    rfl
  rw [updateBytes, updateParseAs4_bytes (Nat.lt_succ_of_le legible.withdrawnShort)
    (Nat.lt_succ_of_le legible.attrsShort)]
  refine (prefixesParse_gives (by decide) (by decide) legible.withdrawn).bind (attrs.bind ?_)
  refine (prefixesParse_gives (by decide) (by decide) legible.nlri).bind ?_
  rw [← normal]
  have valid : updateValidate update.normal = .ok () := (updateValidate_normal update).trans legible.valid
  exact (Work.gives_ofExcept valid).bind (Work.gives_pure _)

theorem be16_take (long : 2 ≤ bytes.length) : be16 (readBe (bytes.take 2)) ++ bytes.drop 2 = bytes := by
  rw [be16_readBe (length_take_of_le long), take_append_drop]

/-- The parts of a message that was read. -/
theorem updateParseAs4_shape (yields : Work.Yields (updateParseAs4 wide bytes) update) :
    ∃ withdrawn attrs nlri, bytes = be16 withdrawn.length ++ (withdrawn ++ (be16 attrs.length ++ (attrs ++ nlri))) ∧
      withdrawn.length < 65536 ∧ attrs.length < 65536 ∧ Work.Yields (prefixesParse 32 withdrawn) update.withdrawn ∧
      Work.Yields (parseAttrs wide attrs.length 0 [] attrs) update.attrs ∧
      Work.Yields (prefixesParse 32 nlri) update.nlri ∧ updateValidate update = .ok () := by
  obtain ⟨long, yields⟩ := yields.check
  obtain ⟨body, yields⟩ := yields.check
  obtain ⟨withdrawn, firstParsed, yields⟩ := yields.bind
  obtain ⟨middle, yields⟩ := yields.check
  obtain ⟨last, yields⟩ := yields.check
  obtain ⟨attrs, secondParsed, yields⟩ := yields.bind
  obtain ⟨nlri, thirdParsed, yields⟩ := yields.bind
  obtain ⟨⟨⟩, validated, done⟩ := yields.bind
  obtain rfl := Work.yields_pure done
  have firstSize := length_take_of_le (Nat.not_lt.mp body)
  have secondSize := length_take_of_le (Nat.not_lt.mp last)
  let later := (bytes.drop 2).drop (readBe (bytes.take 2))
  refine ⟨_, (later.drop 2).take (readBe (later.take 2)), _, ?_, ?_, ?_, firstParsed, ?_, thirdParsed,
    Work.yields_ofExcept validated⟩
  · rw [firstSize, secondSize, take_append_drop, be16_take (Nat.not_lt.mp middle), take_append_drop,
      be16_take (by omega)]
  · rw [firstSize]
    exact readBe_lt (length_take_of_le (by omega))
  · rw [secondSize]
    exact readBe_lt (length_take_of_le (Nat.not_lt.mp middle))
  · rw [secondSize]
    exact secondParsed

/-- What is known of a message that was read. -/
structure UpdateRead (wide : Bool) (bytes : Bytes) (update : UpdateMsg) : Prop where
  legible : update.Legible wide
  normal : update.normal = update
  written : updateBytes update = clearHostBits bytes
  length : (updateBytes update).length = bytes.length

/-- What is read is legible, and is written as it was read. -/
theorem updateParseAs4_yields (yields : Work.Yields (updateParseAs4 wide bytes) update) :
    UpdateRead wide bytes update := by
  obtain ⟨first, second, third, rfl, firstShort, secondShort, firstParsed, secondParsed, thirdParsed, valid⟩ :=
    updateParseAs4_shape yields
  have withdrawn := prefixesParse_yields (by decide) firstParsed
  have nlri := prefixesParse_yields (by decide) thirdParsed
  obtain ⟨list, listed, attrs⟩ := parseAttrs_yields _ 0 le_rfl secondParsed
  rw [nil_append] at listed
  have present : update.present = list := by rw [UpdateMsg.present, listed]; simp
  refine ⟨⟨?_, ?_, withdrawn.fits, nlri.fits, ?_, ?_, valid⟩, ?_, ?_, ?_⟩
  · rw [present, listed]
  · rw [present]
    exact attrs.legible
  · rw [withdrawn.length]
    omega
  · rw [present, attrs.length]
    omega
  · rcases update with ⟨updateWithdrawn, updateAttrs, updateNlri⟩
    obtain rfl : updateAttrs = list.map some := listed
    have same : (list.map some).map (Option.map PAttr.normal) = list.map some := by
      conv_rhs => rw [← attrs.normal]
      simp
    rw [UpdateMsg.normal]
    exact congr (congrArg₂ UpdateMsg.mk withdrawn.cleared same) nlri.cleared
  · have firstRead := readBe_be16 firstShort
    have secondRead := readBe_be16 secondShort
    rw [updateBytes, present, withdrawn.length, attrs.length, withdrawn.written, nlri.written,
      attrs.written second.length le_rfl, clearHostBits]
    simp only [take_left' (length_be16 _), drop_left' (length_be16 _), firstRead, secondRead, take_left,
      drop_left]
  · rw [updateBytes, present]
    simp only [length_append, length_be16, withdrawn.length, attrs.length, nlri.length]

/-- Every accepted message is encoded as the accepted bytes without their host bits, and these are read as the same
message. -/
theorem update_reencoded (accepted : (updateParseAs4 wide bytes).outcome = .ok update) :
    (∀ size, bytes.length ≤ size → updateWrite update size = .ok (clearHostBits bytes)) ∧
      (clearHostBits bytes).length = bytes.length ∧
        (updateParseAs4 wide (clearHostBits bytes)).outcome = .ok update := by
  have read := updateParseAs4_yields (.ofOutcome accepted)
  have again := read.legible.parse.outcome
  rw [read.normal, read.written] at again
  refine ⟨fun size room => ?_, ?_, again⟩
  · rw [← read.length] at room
    rw [read.legible.write room, read.written]
  · rw [← read.written, read.length]

/-- An UPDATE body with host bits in all three places, an extended length, and an opaque attribute. -/
def sampleBody : Bytes :=
  [0, 2, 4, 0xff, 0, 32, 0x40, 1, 1, 0, 0x50, 2, 0, 4, 2, 1, 0xfd, 0xe8, 0x40, 3, 4, 10, 0, 0, 1,
    0x80, 15, 6, 0, 2, 1, 9, 0x20, 0xc1, 0xc0, 99, 1, 7, 12, 192, 0xaf]

/-- The message in these bytes. -/
def sampleMessage : UpdateMsg where
  withdrawn := [⟨0xf0000000, 4⟩]
  attrs := [some ⟨0x40, .origin 0⟩, some ⟨0x50, .asPath [⟨2, [65000]⟩] false⟩, some ⟨0x40, .nextHop 0x0a000001⟩,
    some ⟨0x80, .mpUnreachIpv6 [⟨0x2080 <<< 112, 9⟩]⟩, some ⟨0xc0, .unknown 99 [7] (by decide)⟩]
  nlri := [⟨0xc0a00000, 12⟩]

theorem update_reencoded_sample : (updateParseAs4 false sampleBody).outcome = .ok sampleMessage ∧
    updateWrite sampleMessage 4096 = .ok (clearHostBits sampleBody) := by
  have accepted : (updateParseAs4 false sampleBody).outcome = .ok sampleMessage := by decide +kernel
  exact ⟨accepted, (update_reencoded accepted).1 4096 (by decide)⟩

/-- An attribute that the encoder can measure is legible. -/
theorem pattrWireLen_legible {attr : PAttr} (width : attr.data.OfWidth wide) (faithful : attr.data.Faithful)
    (sized : pattrWireLen attr = .ok size) : attr.Legible wide := by
  obtain ⟨valueLen, measured, sized⟩ := Work.exists_of_bind sized
  have writable : valueWritable attr.data = true := by
    cases refused : valueWritable attr.data with
    | true => rfl
    | false =>
      rw [refused] at sized
      cases sized
  unfold pattrValueLen at measured
  split at measured
  case isTrue => cases measured
  case isFalse valid =>
    obtain ⟨len, kind, bounded⟩ := Work.exists_of_bind measured
    have legible := faithful.legible width kind writable
    have valid : pattrKnownFlagsValid attr.type attr.flags = true := by simpa using valid
    refine ⟨legible, ?_, ?_⟩
    · rcases attr with ⟨flags, data⟩
      cases data with
      | unknown code value undecoded =>
        have unknown : pattrTypeFromCode code = .unknown := width
        exact (congrArg (pattrKnownFlagsValid · flags) unknown).trans valid
      | _ => exact valid
    · rw [legible.kindLen] at kind
      obtain rfl := Except.ok.inj kind
      exact Nat.not_lt.mp fun long => nomatch (if_pos long).symm.trans bounded

/-- What the encoder writes is a legible message, byte by byte. -/
theorem updateWrite_legible (width : ∀ attr, some attr ∈ update.attrs → attr.data.OfWidth wide)
    (faithful : ∀ attr, some attr ∈ update.attrs → attr.data.Faithful)
    (written : updateWrite update size = .ok bytes) :
    update.Legible wide ∧ bytes = updateBytes update ∧ bytes.length ≤ size := by
  have done := written
  obtain ⟨⟨⟩, valid, rest⟩ := Work.exists_of_bind written
  obtain ⟨withdrawnLen, withdrawn, rest⟩ := Work.exists_of_bind rest
  obtain ⟨attrLen, measured, rest⟩ := Work.exists_of_bind rest
  obtain ⟨nlriLen, nlri, rest⟩ := Work.exists_of_bind rest
  obtain ⟨list, listed, sized⟩ := attrsLen_ok measured
  have present : update.present = list := by rw [UpdateMsg.present, listed]; simp
  have complete : update.attrs = update.present.map some := by rw [present, listed]
  have attrs : ∀ attr ∈ update.present, attr.Legible wide := by
    intro attr member
    have stored : some attr ∈ update.attrs := complete ▸ mem_map_of_mem member
    obtain ⟨size, sized⟩ := sized attr (present ▸ member)
    exact pattrWireLen_legible (width attr stored) (faithful attr stored) sized
  obtain ⟨withdrawnFits, rfl⟩ := (prefixesLen_iff (by decide)).mp withdrawn
  obtain ⟨nlriFits, rfl⟩ := (prefixesLen_iff (by decide)).mp nlri
  have total := attrsLen_eq attrs
  rw [← complete, measured] at total
  obtain rfl := Except.ok.inj total
  split at rest
  case isTrue => cases rest
  case isFalse short =>
    split at rest
    case isTrue => cases rest
    case isFalse fits =>
      have short : ¬ (65535 < (update.withdrawn.flatMap prefixWrite).length ∨
          65535 < (update.present.flatMap attrBytes).length) := by simpa using short
      have legible : update.Legible wide :=
        ⟨complete, attrs, withdrawnFits, nlriFits, by omega, by omega, valid⟩
      have room : (updateBytes update).length ≤ size := by
        simp only [updateBytes, length_append, length_be16]
        omega
      rw [legible.write room] at done
      obtain rfl := Except.ok.inj done
      exact ⟨legible, rfl, room⟩

/-- What the encoder accepts is read back exactly when nothing that is stored is left out of the bytes. -/
theorem update_encoded_parses (width : ∀ attr, some attr ∈ update.attrs → attr.data.OfWidth wide)
    (written : updateWrite update size = .ok bytes) :
    (updateParseAs4 wide bytes).outcome = .ok update.normal ↔
      ∀ attr, some attr ∈ update.attrs → attr.data.Faithful := by
  constructor
  · intro parsed attr stored
    -- Whatever the parser returns is faithful, and the normal form differs in flags and host bits only.
    have legible := (updateParseAs4_yields (.ofOutcome parsed)).legible
    have member : attr.normal ∈ update.normal.present := by
      rw [UpdateMsg.present, mem_filterMap]
      exact ⟨some attr.normal, mem_map_of_mem stored, rfl⟩
    exact PAttrData.faithful_cleared.mp (legible.attrs _ member).data.faithful
  · intro faithful
    obtain ⟨legible, rfl, -⟩ := updateWrite_legible width faithful written
    exact legible.parse.outcome

theorem update_encoded_parses_sample : ∃ bytes, updateWrite sampleMessage 4096 = .ok bytes ∧
    (updateParseAs4 false bytes).outcome = .ok sampleMessage.normal := by
  have written : updateWrite sampleMessage 4096 = .ok (clearHostBits sampleBody) := by decide +kernel
  refine ⟨_, written, (update_encoded_parses (fun attr stored => ?_) written).mpr fun attr stored => ?_⟩
  · simp only [sampleMessage, mem_cons, Option.some.injEq, not_mem_nil, or_false] at stored
    rcases stored with rfl | rfl | rfl | rfl | rfl <;> first | exact trivial | rfl
  · simp only [sampleMessage, mem_cons, Option.some.injEq, not_mem_nil, or_false] at stored
    rcases stored with rfl | rfl | rfl | rfl | rfl <;> first | exact trivial | simp [PAttrData.Faithful]

/-- A message whose AS_PATH has a segment without AS numbers. -/
def hollowMessage : UpdateMsg where
  withdrawn := []
  attrs := [some ⟨0x40, .origin 0⟩, some ⟨0x40, .asPath [⟨2, []⟩] true⟩, some ⟨0x40, .nextHop 0x0a000001⟩]
  nlri := [⟨0x0a000000, 8⟩]

/-- The encoder accepts a segment without AS numbers, which the parser refuses. -/
theorem hollowMessage_refused : (∀ attr, some attr ∈ hollowMessage.attrs → attr.data.OfWidth true) ∧
    ∃ bytes, updateWrite hollowMessage 4096 = .ok bytes ∧ (updateParseAs4 true bytes).outcome = .error .badLen := by
  refine ⟨fun attr stored => ?_, [0, 0, 0, 16, 0x40, 1, 1, 0, 0x40, 2, 2, 2, 0, 0x40, 3, 4, 10, 0, 0, 1, 8, 10],
    by decide +kernel, by decide +kernel⟩
  simp only [hollowMessage, mem_cons, Option.some.injEq, not_mem_nil, or_false] at stored
  rcases stored with rfl | rfl | rfl <;> first | exact trivial | rfl

end Messages

end Libbgp
