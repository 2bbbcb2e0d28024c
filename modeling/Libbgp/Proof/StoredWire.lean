/-
The encoder over stored attributes: the computed length is the number of bytes that are written.
-/

import Libbgp.Construction.StoredWire
import Libbgp.Proof.AttrCodec
import Libbgp.Proof.StoredFilter

namespace Libbgp

open Library List StoredAttr

namespace Block

variable {A : Type} {block : Block A}

/-- An array that is there where it must be has as many elements as are counted. -/
theorem length_items (whole : block.broken = false) : block.items.length = block.count := by
  cases block with
  | missing count =>
    have zero : count = 0 := by simpa [broken] using whole
    exact zero.symm
  | held items => rfl

end Block

theorem except_bind_ok {A B : Type} {first : Except Fault A} {next : A → Except Fault B} {result : B} :
    (first >>= next) = .ok result ↔ ∃ value, first = .ok value ∧ next value = .ok result := by
  cases first with
  | error fault | ok value => simp [bind, Except.bind]

section Loops

variable {width : Nat} {len total : Nat}

theorem addSize_ok {add : Nat} (added : addSize len add = .ok total) : total = len + add := by
  unfold addSize at added
  split at added
  · cases added
  · exact (Except.ok.inj added).symm

/-- A sum of prefixes that succeeds is their length. -/
theorem addPrefixes_ok {prefixes : List (Prefix width)} (added : addPrefixes len prefixes = .ok total) :
    (∀ pfx ∈ prefixes, pfx.len ≤ width) ∧ total = len + (prefixes.map fun pfx => 1 + prefixOctets pfx.len).sum := by
  induction prefixes generalizing len with
  | nil =>
    cases added
    exact ⟨fun _ absent => absurd absent not_mem_nil, rfl⟩
  | cons pfx rest ih =>
    unfold addPrefixes at added
    split at added
    · cases added
    · rename_i fits
      obtain ⟨next, step, later⟩ := except_bind_ok.mp added
      obtain ⟨others, sum⟩ := ih later
      refine ⟨forall_mem_cons.mpr ⟨by omega, others⟩, ?_⟩
      rw [sum, addSize_ok step, map_cons, sum_cons]
      omega

/-- Prefixes that fit are written, one after the other, in the room that their lengths take. -/
theorem writePrefixes_ok (whole : 8 ∣ width) {prefixes : List (Prefix width)} (fit : ∀ pfx ∈ prefixes, pfx.len ≤ width)
    {size pos : Nat} (room : pos + (prefixes.map fun pfx => 1 + prefixOctets pfx.len).sum ≤ size) :
    writePrefixes size pos prefixes = .ok (prefixes.flatMap prefixWrite) := by
  induction prefixes generalizing pos with
  | nil => rfl
  | cons pfx rest ih =>
    obtain ⟨own, others⟩ := forall_mem_cons.mp fit
    rw [map_cons, sum_cons] at room
    have length := length_prefixWrite whole own
    have first : prefixWriteWithin pfx (size - pos) = .ok (prefixWrite pfx) := by
      rw [prefixWriteWithin, if_neg (by omega), if_neg (by omega)]
    have more := @ih others (pos + (prefixWrite pfx).length) (by omega)
    rw [writePrefixes, first]
    simp only [bind, Except.bind, more, flatMap_cons]

theorem length_segmentWrite {segment : StoredSegment} (valid : segment.valid = true) (is4b : Bool) :
    (segment.write is4b).length = 2 + segment.asns.count * asnSize is4b := by
  have whole : segment.asns.broken = false := by
    simp only [StoredSegment.valid, Bool.and_eq_true, Bool.not_eq_true'] at valid
    exact valid.2
  have each : ∀ asns : List UInt32, (asns.flatMap fun asn => if is4b then be32 asn.toNat else be16 asn.toNat).length =
      asns.length * asnSize is4b := by
    intro asns
    induction asns with
    | nil => simp
    | cons asn rest ih =>
      rw [flatMap_cons, length_append, ih]
      cases is4b
      · simp only [asnSize, Bool.false_eq_true, if_false, length_be16, length_cons]
        omega
      · simp only [asnSize, if_true, be32, length_cons, length_nil]
        omega
  rw [StoredSegment.write, length_cons, length_cons, each, Block.length_items whole]
  omega

/-- A sum of segments that succeeds is their length. -/
theorem addSegments_ok {is4b : Bool} {segments : List StoredSegment}
    (added : addSegments is4b len segments = .ok total) :
    total = len + (segments.flatMap (·.write is4b)).length := by
  induction segments generalizing len with
  | nil =>
    cases added
    rfl
  | cons segment rest ih =>
    unfold addSegments at added
    split at added
    · cases added
    · rename_i valid
      split at added
      · cases added
      · obtain ⟨next, step, later⟩ := except_bind_ok.mp added
        rw [ih later, addSize_ok step, flatMap_cons, length_append, length_segmentWrite (by simpa using valid)]
        omega

end Loops

namespace StoredData

variable {data : StoredData} {len : Nat}

/-- A value whose length was computed is written, when it passes the last checks, in exactly that length. -/
theorem write_of_len (measured : data.len = .ok len) (writable : data.writable = true) :
    ∃ bytes, data.write len = .ok bytes ∧ bytes.length = len := by
  have direct : (!data.writable) = false := by rw [writable]; rfl
  unfold StoredData.write
  rw [direct, if_neg Bool.false_ne_true]
  cases data with
  | origin value | med value | localPref value | atomicAggregate =>
    cases measured
    exact ⟨_, rfl, rfl⟩
  | asPath segments is4b =>
    simp only [StoredData.len] at measured
    split at measured
    · cases measured
    · exact ⟨_, rfl, by simpa using (addSegments_ok measured).symm⟩
  | as4Path segments is4b =>
    simp only [StoredData.len] at measured
    split at measured
    · cases measured
    · split at measured
      · cases measured
      · exact ⟨_, rfl, by simpa using (addSegments_ok measured).symm⟩
  | nextHop addr =>
    cases measured
    exact ⟨_, rfl, length_addrWrite (by decide) addr⟩
  | aggregator asn routerId is4b =>
    simp only [StoredData.len] at measured
    split at measured
    · cases measured
    · cases measured
      refine ⟨_, rfl, ?_⟩
      rw [length_append, length_addrWrite (by decide)]
      cases is4b <;> rfl
  | community values =>
    simp only [StoredData.len] at measured
    split at measured
    · cases measured
    · rename_i whole
      split at measured
      · cases measured
      · cases measured
        refine ⟨_, rfl, ?_⟩
        rw [← Block.length_items (by simpa using whole), length_flatMap]
        simp only [be32, length_cons, length_nil, map_const', sum_replicate, smul_eq_mul]
  | as4Aggregator asn routerId is4b =>
    cases measured
    refine ⟨_, rfl, ?_⟩
    rw [length_append, length_addrWrite (by decide)]
    rfl
  | mpReachIpv6 global linkLocal nexthopLen nlri =>
    simp only [StoredData.len] at measured
    split at measured
    · cases measured
    · rename_i sizes
      split at measured
      · cases measured
      · obtain ⟨fit, sum⟩ := addPrefixes_ok measured
        dsimp only
        rw [writePrefixes_ok (by decide) fit (le_of_eq sum.symm)]
        refine ⟨_, rfl, ?_⟩
        simp only [length_append, length_take, length_addrWrite (show 8 ∣ 128 by decide),
          length_prefixes (show 8 ∣ 128 by decide) fit, length_cons, length_nil]
        omega
  | mpUnreachIpv6 withdrawn =>
    simp only [StoredData.len] at measured
    split at measured
    · cases measured
    · obtain ⟨fit, sum⟩ := addPrefixes_ok measured
      dsimp only
      rw [writePrefixes_ok (by decide) fit (le_of_eq sum.symm)]
      refine ⟨_, rfl, ?_⟩
      simp only [length_append, length_prefixes (show 8 ∣ 128 by decide) fit, length_cons, length_nil]
      omega
  | unknown value =>
    simp only [StoredData.len] at measured
    split at measured
    · cases measured
    · rename_i whole
      cases measured
      exact ⟨_, rfl, Block.length_items (by simp_all)⟩
  | foreign kind => cases measured

theorem write_unwritable (stuck : data.writable = false) : data.write len = .error .badLen := by
  unfold StoredData.write
  rw [stuck]
  rfl

end StoredData

namespace StoredAttr

variable {attr : StoredAttr} {len size : Nat}

theorem length_writeHeader (attr : StoredAttr) (valueLen : Nat) :
    (attr.writeHeader valueLen).length = attr.headerLen valueLen := by
  unfold writeHeader headerLen
  split
  · rfl
  · rfl

theorem valueLen_le (measured : attr.valueLen = .ok len) : attr.data.len = .ok len ∧ len ≤ 65535 := by
  unfold valueLen at measured
  split at measured
  · cases measured
  · split at measured
    · cases measured
    · obtain ⟨raw, value, checked⟩ := except_bind_ok.mp measured
      split at checked
      · cases checked
      · cases checked
        exact ⟨value, by omega⟩

/-- The length is computed exactly for a value that was measured and passes the last checks. -/
theorem wireLen_ok_iff : attr.wireLen = .ok len ↔
    ∃ valueLen, attr.valueLen = .ok valueLen ∧ attr.data.writable = true ∧
      len = attr.headerLen valueLen + valueLen := by
  unfold wireLen
  rcases measured : attr.valueLen with fault | value
  · simp [bind, Except.bind]
  · have small := (valueLen_le measured).2
    have header : attr.headerLen value ≤ 4 := by
      unfold headerLen
      split <;> omega
    have fits : ¬ sizeMax - attr.headerLen value < value := by
      have most : sizeMax = 18446744073709551615 := by decide
      omega
    simp only [bind, Except.bind, Except.ok.injEq, exists_eq_left', if_neg fits]
    cases writable : attr.data.writable with
    | false => simp
    | true => simp [eq_comm]

/-- Writing succeeds exactly for such a value, in a buffer that is large enough. -/
theorem write_of_measured {valueLen : Nat} (measured : attr.valueLen = .ok valueLen)
    (writable : attr.data.writable = true) (room : attr.headerLen valueLen + valueLen ≤ size) :
    ∃ bytes, attr.write size = .ok (bytes, attr.headerLen valueLen + valueLen) ∧
      bytes.length = attr.headerLen valueLen + valueLen := by
  obtain ⟨value, written, length⟩ := StoredData.write_of_len (valueLen_le measured).1 writable
  refine ⟨attr.writeHeader valueLen ++ value, ?_, ?_⟩
  · simp only [write, measured, bind, Except.bind, if_neg (Nat.not_lt.mpr room), written]
  · rw [length_append, length_writeHeader, length]

theorem measured_of_write {bytes : Bytes} (written : attr.write size = .ok (bytes, len)) :
    ∃ valueLen, attr.valueLen = .ok valueLen ∧ attr.data.writable = true ∧
      len = attr.headerLen valueLen + valueLen := by
  obtain ⟨value, measured, rest⟩ := except_bind_ok.mp written
  split at rest
  · cases rest
  · obtain ⟨output, result, done⟩ := except_bind_ok.mp rest
    cases done
    refine ⟨value, measured, ?_, rfl⟩
    by_contra unwritable
    rw [StoredData.write_unwritable (by simpa using unwritable)] at result
    cases result

theorem write_small (measured : attr.wireLen = .ok len) (small : size < len) : attr.write size = .error .buffer := by
  obtain ⟨valueLen, value, -, rfl⟩ := wireLen_ok_iff.mp measured
  simp only [write, value, bind, Except.bind, if_pos small]

/-- In the room of its computed length an attribute is written completely. -/
theorem write_of_wireLen (measured : attr.wireLen = .ok len) (room : len ≤ size) :
    ∃ bytes, attr.write size = .ok (bytes, len) ∧ bytes.length = len := by
  obtain ⟨valueLen, value, writable, rfl⟩ := wireLen_ok_iff.mp measured
  exact write_of_measured value writable room

end StoredAttr

namespace StoredUpdate

theorem prefixesLen_ok {prefixes : Block (Prefix 32)} {len : Nat} (measured : prefixesLen prefixes = .ok len) :
    (∀ pfx ∈ prefixes.items, pfx.len ≤ 32) ∧ len = (prefixes.items.flatMap prefixWrite).length := by
  unfold prefixesLen at measured
  split at measured
  · cases measured
  · obtain ⟨fit, sum⟩ := addPrefixes_ok measured
    rw [length_prefixes (by decide) fit]
    exact ⟨fit, by omega⟩

/-- Prefixes that were measured are written into a buffer of their length. -/
theorem writePrefixes_of_len {prefixes : Block (Prefix 32)} {len size : Nat} (measured : prefixesLen prefixes = .ok len)
    (room : len ≤ size) : writePrefixes size 0 prefixes.items = .ok (prefixes.items.flatMap prefixWrite) := by
  obtain ⟨fit, sum⟩ := prefixesLen_ok measured
  rw [length_prefixes (by decide) fit] at sum
  exact writePrefixes_ok (by decide) fit (by omega)

/-- One step of the loop over the lengths. -/
theorem addAttrs_cons {attr : StoredAttr} {rest : List (Option StoredAttr)} {len total : Nat}
    (measured : addAttrs len (some attr :: rest) = .ok total) :
    ∃ own, attr.wireLen = .ok own ∧ addAttrs (len + own) rest = .ok total := by
  obtain ⟨own, one, rest⟩ := except_bind_ok.mp measured
  obtain ⟨next, step, later⟩ := except_bind_ok.mp rest
  rw [addSize_ok step] at later
  exact ⟨own, one, later⟩

theorem addAttrs_le {attrs : List (Option StoredAttr)} {len total : Nat} (measured : addAttrs len attrs = .ok total) :
    len ≤ total := by
  induction attrs generalizing len with
  | nil =>
    cases measured
    exact Nat.le_refl _
  | cons attr rest ih =>
    cases attr with
    | none => cases measured
    | some attr =>
      obtain ⟨own, -, later⟩ := addAttrs_cons measured
      exact (Nat.le_add_right len own).trans (ih later)

/-- The attributes whose lengths were added are written in the room that their sum takes. -/
theorem writeAttrs_of_len {attrs : List (Option StoredAttr)} {len total size pos : Nat}
    (measured : addAttrs len attrs = .ok total) (room : pos + (total - len) ≤ size) :
    ∃ bytes, writeAttrs size pos attrs = .ok bytes ∧ bytes.length = total - len := by
  induction attrs generalizing len pos with
  | nil =>
    cases measured
    exact ⟨[], rfl, by simp⟩
  | cons attr rest ih =>
    cases attr with
    | none => cases measured
    | some attr =>
      obtain ⟨own, one, later⟩ := addAttrs_cons measured
      have order := addAttrs_le later
      obtain ⟨more, others, length⟩ := @ih (len + own) (pos + own) later (by omega)
      obtain ⟨first, written, exactly⟩ := write_of_wireLen one (show own ≤ size - pos by omega)
      refine ⟨first ++ more, ?_, ?_⟩
      · simp only [writeAttrs, written, bind, Except.bind, others]
      · rw [length_append, exactly, length]
        omega

/-- The computed lengths of a message, and its attributes as they are written. -/
structure Measured (update : StoredUpdate) (withdrawnLen attrLen nlriLen : Nat) (attrs : Bytes) : Prop where
  withdrawn : prefixesLen update.withdrawn = .ok withdrawnLen
  added : attrsLen update.attrs = .ok attrLen
  nlri : prefixesLen update.nlri = .ok nlriLen
  written : writeAttrs (4 + withdrawnLen + attrLen + nlriLen) (4 + withdrawnLen) update.attrs.items = .ok attrs
  length : attrs.length = attrLen

variable {update : StoredUpdate} {withdrawnLen attrLen nlriLen size total : Nat} {attrs bytes : Bytes}

/-- Attributes that were measured are written. -/
theorem measured_of_len (withdrawn : prefixesLen update.withdrawn = .ok withdrawnLen)
    (added : attrsLen update.attrs = .ok attrLen) (nlri : prefixesLen update.nlri = .ok nlriLen) :
    ∃ attrs, Measured update withdrawnLen attrLen nlriLen attrs := by
  have loop : addAttrs 0 update.attrs.items = .ok attrLen := by
    unfold attrsLen at added
    split at added
    · cases added
    · exact added
  obtain ⟨attrs, written, length⟩ := @writeAttrs_of_len update.attrs.items 0 attrLen
    (4 + withdrawnLen + attrLen + nlriLen) (4 + withdrawnLen) loop (by omega)
  exact ⟨attrs, withdrawn, added, nlri, written, length⟩

/-- What the encoder does with a valid message that was measured: it only looks at the lengths. -/
theorem write_of_measured (valid : update.validate = .ok ())
    (measured : Measured update withdrawnLen attrLen nlriLen attrs) :
    update.write size =
      if 65535 < withdrawnLen || 65535 < attrLen || sizeMax - 4 < withdrawnLen ||
        sizeMax - 4 - withdrawnLen < attrLen ||
          sizeMax - 4 - withdrawnLen - attrLen < nlriLen then .error .badLen
      else if size < 4 + withdrawnLen + attrLen + nlriLen then .error .buffer
      else .ok (be16 withdrawnLen ++ update.withdrawn.items.flatMap prefixWrite ++ be16 attrLen ++ attrs ++
        update.nlri.items.flatMap prefixWrite, 4 + withdrawnLen + attrLen + nlriLen) := by
  have sum := (prefixesLen_ok measured.withdrawn).2
  have length := measured.length
  have first := @writePrefixes_of_len _ _ (4 + withdrawnLen + attrLen + nlriLen - 2) measured.withdrawn (by omega)
  have second := measured.written
  have third := @writePrefixes_of_len _ _ (4 + withdrawnLen + attrLen + nlriLen - (4 + withdrawnLen + attrs.length))
    measured.nlri (by omega)
  simp only [write, bind, Except.bind, valid, measured.withdrawn, measured.added, measured.nlri, first, ← sum,
    second, third]

/-- The three sections that a message was written in. -/
structure Sections (update : StoredUpdate) (bytes : Bytes) (total : Nat) : Prop where
  split : ∃ withdrawn attrs nlri : Bytes,
    bytes = be16 withdrawn.length ++ withdrawn ++ be16 attrs.length ++ attrs ++ nlri ∧
      readBe (be16 withdrawn.length) = withdrawn.length ∧ readBe (be16 attrs.length) = attrs.length ∧
      prefixesLen update.withdrawn = .ok withdrawn.length ∧ attrsLen update.attrs = .ok attrs.length ∧
      prefixesLen update.nlri = .ok nlri.length
  total : total = bytes.length

/-- A message that is accepted was measured. -/
theorem measured_of_written (written : update.write size = .ok (bytes, total)) : update.validate = .ok () ∧
    ∃ withdrawnLen attrLen nlriLen attrs, Measured update withdrawnLen attrLen nlriLen attrs := by
  obtain ⟨⟨⟩, valid, written⟩ := except_bind_ok.mp written
  obtain ⟨withdrawnLen, withdrawn, written⟩ := except_bind_ok.mp written
  obtain ⟨attrLen, added, written⟩ := except_bind_ok.mp written
  obtain ⟨nlriLen, nlri, -⟩ := except_bind_ok.mp written
  exact ⟨valid, withdrawnLen, attrLen, nlriLen, measured_of_len withdrawn added nlri⟩

/-- A message that is accepted fills its sections, and they fill the reported length. -/
theorem write_sections (written : update.write size = .ok (bytes, total)) : Sections update bytes total := by
  obtain ⟨valid, withdrawnLen, attrLen, nlriLen, attrs, measured⟩ := measured_of_written written
  rw [write_of_measured valid measured] at written
  split at written
  · cases written
  split at written
  · cases written
  rename_i small _
  simp only [Bool.or_eq_true, decide_eq_true_eq, not_or, not_lt] at small
  have withdrawn := (prefixesLen_ok measured.withdrawn).2
  have nlri := (prefixesLen_ok measured.nlri).2
  have length := measured.length
  subst withdrawn nlri length
  cases written
  refine ⟨⟨_, attrs, _, rfl, readBe_be16 (by omega), readBe_be16 (by omega), measured.withdrawn, measured.added,
    measured.nlri⟩, ?_⟩
  simp only [length_append, length_be16]
  omega

end StoredUpdate

/-- The length of an attribute is computed as n exactly when it is written in n bytes into every buffer that
has them, and a smaller buffer is then reported; so a message that is accepted fills its sections. -/
theorem stored_lengths_agree :
    (∀ (attr : StoredAttr) (len : Nat),
      (attr.wireLen = .ok len ↔
        ∀ size, len ≤ size → ∃ bytes, attr.write size = .ok (bytes, len) ∧ bytes.length = len) ∧
      (attr.wireLen = .ok len → ∀ size, size < len → attr.write size = .error .buffer)) ∧
    ∀ (update : StoredUpdate) (size : Nat) (bytes : Bytes) (total : Nat),
      update.write size = .ok (bytes, total) → update.Sections bytes total := by
  refine ⟨fun attr len => ⟨⟨?_, ?_⟩, ?_⟩, fun update size bytes total => StoredUpdate.write_sections⟩
  · intro measured size room
    exact write_of_wireLen measured room
  · intro writes
    obtain ⟨bytes, written, -⟩ := writes len (Nat.le_refl len)
    exact wireLen_ok_iff.mpr (measured_of_write written)
  · intro measured size small
    exact write_small measured small

section Decoded

variable (attr : PAttr)

/-! The encoder over decoded attributes accepts and writes what the encoder over their stored form does. -/

theorem addSize_of_le {len add : Nat} (fits : len + add ≤ sizeMax) : addSize len add = .ok (len + add) := by
  rw [addSize, if_neg (by omega)]

theorem addPrefixes_of_fits {width : Nat} {prefixes : List (Prefix width)} (fit : ∀ pfx ∈ prefixes, pfx.len ≤ width)
    {len : Nat} (small : len + (prefixes.map fun pfx => 1 + prefixOctets pfx.len).sum ≤ sizeMax) :
    addPrefixes len prefixes = .ok (len + (prefixes.map fun pfx => 1 + prefixOctets pfx.len).sum) := by
  induction prefixes generalizing len with
  | nil => rfl
  | cons pfx rest ih =>
    obtain ⟨own, others⟩ := forall_mem_cons.mp fit
    rw [map_cons, sum_cons] at small ⊢
    have more := @ih others (len + (1 + prefixOctets pfx.len)) (by omega)
    rw [addPrefixes, if_neg (by omega), addSize_of_le (by omega)]
    simp only [bind, Except.bind, more]
    congr 1
    omega

theorem stored_valid (segment : AsPathSegment) : segment.stored.valid = segmentWritable segment := by
  simp only [StoredSegment.valid, AsPathSegment.stored, Block.count, Block.broken, Bool.not_false, Bool.and_true]
  rfl

theorem stored_write (segments : List AsPathSegment) (is4b : Bool) :
    (segments.map AsPathSegment.stored).flatMap (·.write is4b) = writeAsPathValue segments is4b := by
  rw [flatMap_map, writeAsPathValue]
  rfl

theorem prefixes_short {prefixes : List (Prefix 128)} {len total : Nat} (short : total ≤ 65535) :
    addPrefixes len prefixes = .ok total ↔ ∃ sum, prefixesLen prefixes = .ok sum ∧ total = len + sum := by
  have most : sizeMax = 18446744073709551615 := by decide
  constructor
  · intro added
    obtain ⟨fit, rfl⟩ := addPrefixes_ok added
    exact ⟨_, (prefixesLen_iff (by decide)).mpr ⟨fit, (length_prefixes (by decide) fit).symm⟩, rfl⟩
  · rintro ⟨sum, measured, rfl⟩
    obtain ⟨fit, rfl⟩ := (prefixesLen_iff (by decide)).mp measured
    rw [length_prefixes (by decide) fit] at short ⊢
    exact addPrefixes_of_fits fit (by omega)

theorem segments_short {is4b : Bool} {segments : List AsPathSegment} {len total : Nat} (short : total ≤ 65535) :
    addSegments is4b len (segments.map AsPathSegment.stored) = .ok total ↔ segments.all segmentWritable = true ∧
      total = len + (segments.map fun segment => 2 + segment.asns.length * asnSize is4b).sum := by
  have most : sizeMax = 18446744073709551615 := by decide
  induction segments generalizing len with
  | nil => simp [addSegments, eq_comm]
  | cons segment rest ih =>
    have count : segment.stored.asns.count = segment.asns.length := rfl
    rw [map_cons, addSegments, stored_valid, count, all_cons, map_cons, sum_cons]
    by_cases valid : segmentWritable segment = true
    · have few := (segmentWritable_iff.mp valid).2
      have bound : ¬ (sizeMax - 2) / asnSize is4b < segment.asns.length := by
        have most : 255 ≤ (sizeMax - 2) / asnSize is4b := by cases is4b <;> decide
        omega
      rw [valid, if_neg bound, Bool.not_true, if_neg Bool.false_ne_true, except_bind_ok, Bool.true_and]
      constructor
      · rintro ⟨next, added, later⟩
        obtain ⟨others, rfl⟩ := ih.mp later
        exact ⟨others, by rw [addSize_ok added]; omega⟩
      · rintro ⟨others, rfl⟩
        exact ⟨_, addSize_of_le (by omega), ih.mpr ⟨others, by omega⟩⟩
    · simp [valid]

/-- A stored value has the length of the decoded one. -/
theorem len_stored (data : PAttrData) {len : Nat} (short : len ≤ 65535) :
    data.stored.len = .ok len ↔ kindLen data = .ok len := by
  have most : sizeMax = 18446744073709551615 := by decide
  have path (segments : List AsPathSegment) (is4b : Bool) :
      addSegments is4b 0 (segments.map AsPathSegment.stored) = .ok len ↔ kindLen (.asPath segments is4b) = .ok len := by
    rw [segments_short short, Nat.zero_add, kindLen]
    split <;> rename_i valid <;> simp [valid, eq_comm]
  cases data with
  | asPath segments is4b => exact path segments is4b
  | as4Path segments is4b =>
    cases is4b with
    | false => simp [PAttrData.stored, StoredData.len, kindLen]
    | true => exact path segments true
  | community values =>
    change (if sizeMax / 4 < values.length then .error .badLen else .ok (values.length * 4) : Except Fault Nat) =
      .ok len ↔
      Except.ok (values.length * 4) = .ok len
    by_cases many : sizeMax / 4 < values.length
    · rw [if_pos many]
      simp only [reduceCtorEq, Except.ok.injEq, false_iff]
      omega
    · rw [if_neg many]
  | mpReachIpv6 global linkLocal nexthopLen nlri =>
    simp only [PAttrData.stored, StoredData.len, kindLen, Block.broken, Block.items, Bool.false_eq_true, if_false]
    split
    · simp
    · rw [prefixes_short short]
      cases prefixesLen nlri with
      | error fault => simp [bind, Except.bind]
      | ok sum => simp [bind, Except.bind, pure, Except.pure, eq_comm]
  | mpUnreachIpv6 withdrawn =>
    simp only [PAttrData.stored, StoredData.len, kindLen, Block.broken, Block.items, Bool.false_eq_true, if_false]
    rw [prefixes_short short]
    cases prefixesLen withdrawn with
    | error fault => simp [bind, Except.bind]
    | ok sum => simp [bind, Except.bind, pure, Except.pure, eq_comm]
  | unknown code value undecoded =>
    change (if (65535 < value.length || false) then .error .badLen else .ok value.length : Except Fault Nat) = .ok len ↔
      Except.ok value.length = .ok len
    by_cases long : 65535 < value.length
    · rw [if_pos (by simpa using long)]
      simp only [reduceCtorEq, Except.ok.injEq, false_iff]
      omega
    · rw [if_neg (by simpa using long)]
  | _ => rfl

/-- A stored value is writable as the decoded one is. -/
theorem writable_stored (data : PAttrData) : data.stored.writable = valueWritable data := by
  have segments : ∀ path : List AsPathSegment,
      ((path.map AsPathSegment.stored).all fun segment => segment.asns.items.all (· ≤ 65535)) =
        path.all fun segment => segment.asns.all (· ≤ 65535) := by
    intro path
    rw [all_map]
    rfl
  cases data with
  | asPath path is4b | as4Path path is4b =>
    cases is4b with
    | false => exact segments path
    | true => rfl
  | _ => rfl

/-- The same bytes, in the room that was computed. -/
theorem write_stored_value {data : PAttrData} {len : Nat} (measured : data.stored.len = .ok len)
    (writable : valueWritable data = true) : data.stored.write len = .ok (writeValue data) := by
  have direct : (!data.stored.writable) = false := by rw [writable_stored, writable]; rfl
  unfold StoredData.write
  rw [direct, if_neg Bool.false_ne_true]
  cases data with
  | asPath segments is4b | as4Path segments is4b => exact congrArg Except.ok (stored_write segments is4b)
  | mpReachIpv6 global linkLocal nexthopLen nlri =>
    simp only [PAttrData.stored, StoredData.len, Block.broken, Block.items, Bool.false_eq_true, if_false] at measured ⊢
    split at measured
    · cases measured
    · obtain ⟨fit, sum⟩ := addPrefixes_ok measured
      rw [writePrefixes_ok (by decide) fit (le_of_eq sum.symm)]
      rfl
  | mpUnreachIpv6 withdrawn =>
    simp only [PAttrData.stored, StoredData.len, Block.broken, Block.items, Bool.false_eq_true, if_false] at measured ⊢
    obtain ⟨fit, sum⟩ := addPrefixes_ok measured
    rw [writePrefixes_ok (by decide) fit (le_of_eq sum.symm)]
    rfl
  | _ => rfl

/-- A stored attribute has the length of the decoded one. -/
theorem valueLen_stored {len : Nat} : attr.stored.valueLen = .ok len ↔ pattrValueLen attr = .ok len := by
  have code : ¬ (attr.stored.type ≠ some .unknown ∧ attr.stored.typeCode ≠ pattrDefaultTypeCode attr.stored.type) := by
    rintro ⟨known, different⟩
    rw [stored_type] at known different
    unfold PAttr.type at known different
    rw [stored_typeCode, PAttr.typeCode] at different
    cases data : attr.data <;> simp_all [pattrDefaultTypeCode]
  have flags : attr.stored.flags = attr.flags := rfl
  unfold valueLen pattrValueLen
  rw [if_neg code, stored_type, storedFlagsValid, flags]
  by_cases wrong : (!pattrKnownFlagsValid attr.type attr.flags) = true
  · rw [if_pos wrong, if_pos wrong]
  · rw [if_neg wrong, if_neg wrong, except_bind_ok, except_bind_ok]
    refine exists_congr fun value => and_congr_left fun checked => len_stored attr.data ?_
    by_contra long
    rw [if_pos (by omega)] at checked
    cases checked

theorem header_stored (len : Nat) :
    attr.stored.headerLen len = headerLen attr len ∧ attr.stored.writeHeader len = writeHeader attr len :=
  ⟨rfl, rfl⟩

/-- On a decoded attribute the encoder over memory is the encoder of the model, and reports what it wrote. -/
theorem write_stored {size len : Nat} {bytes : Bytes} :
    attr.stored.write size = .ok (bytes, len) ↔ pattrWrite attr size = .ok bytes ∧ len = bytes.length := by
  rw [write, pattrWrite, except_bind_ok, except_bind_ok, ← exists_and_right]
  refine exists_congr fun value => ?_
  rw [valueLen_stored, and_assoc, and_congr_right_iff]
  intro measured
  obtain ⟨headed, header⟩ := header_stored attr value
  rw [headed, header]
  by_cases small : size < headerLen attr value + value
  · simp [small]
  rw [if_neg small, if_neg small]
  have writable := writable_stored attr.data
  rcases able : valueWritable attr.data with _ | _
  · rw [able] at writable
    simp [StoredData.write, writable, PAttr.stored, bind, Except.bind]
  · have stored := (valueLen_stored attr).mpr measured
    have written := write_stored_value (valueLen_le stored).1 able
    obtain ⟨result, again, length⟩ := StoredData.write_of_len (valueLen_le stored).1 (writable.trans able)
    cases written.symm.trans again
    have total : (writeHeader attr value ++ writeValue attr.data).length = headerLen attr value + value := by
      rw [length_append, length, ← header, ← headed, length_writeHeader]
    change attr.stored.data.write value = _ at written
    simp only [written, bind, Except.bind, Bool.not_true, Bool.false_eq_true, if_false, Except.ok.injEq, Prod.mk.injEq]
    grind

end Decoded

end Libbgp
