import Libbgp.Construction.HashmapCalls
import Libbgp.Proof.Hashmap
import Mathlib.Data.Multiset.Count

namespace Libbgp

open Library List

variable {K V : Type} {key : K} {ops : KeyOps K} {map : Hashmap (MapEntry K V)}

/-- The key-value pairs that the cells of a table hold. -/
def Hashmap.contents (map : Hashmap (MapEntry K V)) : Multiset (K × V) :=
  map.entries.map fun entry => (entry.key, entry.value)

/-- A search reaches a stored key when the hashes agree and the key test accepts it. -/
def KeyOps.same (ops : KeyOps K) (stored wanted : K) : Bool :=
  ops.hash stored == ops.hash wanted && ops.eq stored wanted

/-- A removal by key may take this pair. -/
def Removes (same : K → K → Bool) (key : K) (value : Option V) (pair : K × V) : Prop :=
  same pair.1 key = true ∧ ∀ wanted, value = some wanted → pair.2 = wanted

/-- The pairs that a call needs room for. -/
def MapCall.demand (map : Hashmap (MapEntry K V)) : MapCall K V → Nat
  | .insert _ _ => map.len + 1
  | .reserve count => count
  | .removeOne _ _ | .unlink _ _ => 0

/-- One removal takes one pair that it selects, or there is none. -/
def RemovesOne (same : K → K → Bool) (key : K) (value : Option V) (err : Err) (before after : Multiset (K × V)) :
    Prop :=
  (err = .ok ∧ ∃ pair, Removes same key value pair ∧ before = pair ::ₘ after) ∨
    (err = .notFound ∧ after = before ∧ ∀ pair ∈ before, ¬ Removes same key value pair)

theorem RemovesOne.err_ne {same : K → K → Bool} {value : Option V} {err : Err} {before after : Multiset (K × V)}
    (removes : RemovesOne same key value err before after) : err ≠ .nomem := by
  rcases removes with ⟨rfl, -⟩ | ⟨rfl, -⟩ <;> decide

/-- What a call does to the multiset of stored pairs. -/
def MapCall.Effect (same : K → K → Bool) (err : Err) (before after : Multiset (K × V)) : MapCall K V → Prop
  | .insert key value => (err = .ok ∧ after = (key, value) ::ₘ before) ∨ (err = .nomem ∧ after = before)
  | .reserve _ => (err = .ok ∨ err = .nomem) ∧ after = before
  | .removeOne key value => RemovesOne same key value err before after
  | .unlink key value => RemovesOne same key (some value) err before after

namespace Hashmap

variable {count fuel target : Nat}

theorem isPowerOfTwo_iff {value : Nat} : isPowerOfTwo value = true ↔ ∃ exponent, value = 2 ^ exponent := by
  rw [isPowerOfTwo, Bool.and_eq_true, bne_iff_ne, beq_iff_eq]
  constructor
  · rintro ⟨positive, masked⟩
    exact (Nat.and_sub_one_eq_zero_iff_isPowerOfTwo positive).mp masked
  · rintro ⟨exponent, rfl⟩
    have positive : 2 ^ exponent ≠ 0 := by positivity
    exact ⟨positive, (Nat.and_sub_one_eq_zero_iff_isPowerOfTwo positive).mpr ⟨exponent, rfl⟩⟩

theorem resizeThreshold_mono {small large : Nat} (fewer : small ≤ large) :
    resizeThreshold small ≤ resizeThreshold large := by
  unfold resizeThreshold
  omega

theorem resizeThreshold_double (positive : 0 < count) : resizeThreshold count < resizeThreshold (count * 2) := by
  unfold resizeThreshold
  omega

theorem resizeThreshold_le (count : Nat) : resizeThreshold count ≤ count := Nat.sub_le _ _

/-- The most pairs that a table takes whose bucket array fits into memory. -/
def maxPairs : Nat := resizeThreshold (2 ^ 60)

/-- A table too large for memory has at least twice the buckets of the largest one that fits. -/
theorem two_pow_le_of_maxBuckets_lt {exponent : Nat} (power : count = 2 ^ exponent) (huge : maxBuckets < count) :
    2 ^ 61 ≤ count := by
  rw [power] at huge ⊢
  have large : 60 < exponent := by
    apply (Nat.pow_lt_pow_iff_right (a := 2) (by decide)).mp
    have edge : 2 ^ 60 ≤ maxBuckets := by decide
    omega
  exact Nat.pow_le_pow_right (by decide) large

theorem maxPairs_le (large : 2 ^ 61 ≤ count * 2) : maxPairs ≤ resizeThreshold count :=
  resizeThreshold_mono (by omega)

/-- A target that the loop finds is the first doubling of its start with room for the count. -/
theorem reserveTarget_some {result : Nat} (found : reserveTarget count fuel target = some result) :
    (∃ rounds, result = target * 2 ^ rounds ∧ ∀ fewer < rounds, resizeThreshold (target * 2 ^ fewer) < count) ∧
      count ≤ resizeThreshold result := by
  induction fuel generalizing target with
  | zero => cases found
  | succ fuel ih =>
    unfold reserveTarget at found
    split_ifs at found with small large
    · obtain ⟨⟨rounds, reached, short⟩, room⟩ := ih found
      refine ⟨⟨rounds + 1, by rw [reached, pow_succ]; ring, fun fewer before => ?_⟩, room⟩
      cases fewer with
      | zero => simpa using small
      | succ fewer =>
        rw [pow_succ', ← mul_assoc]
        exact short fewer (by omega)
    · cases found
      exact ⟨⟨0, by simp, by simp⟩, Nat.le_of_not_lt small⟩

/-- The loop gives up only at a table that a `size_t` cannot double and that is too small. -/
theorem reserveTarget_none (enough : sizeMax / 2 < target * 2 ^ fuel)
    (none_ : reserveTarget count (fuel + 1) target = none) :
    ∃ rounds, sizeMax / 2 < target * 2 ^ rounds ∧ resizeThreshold (target * 2 ^ rounds) < count := by
  induction fuel generalizing target with
  | zero =>
    unfold reserveTarget at none_
    split_ifs at none_ with small large
    · exact ⟨0, by simpa using large, by simpa using small⟩
    · exact absurd (by simpa using enough) large
  | succ fuel ih =>
    unfold reserveTarget at none_
    split_ifs at none_ with small large
    · exact ⟨0, by simpa using large, by simpa using small⟩
    · obtain ⟨rounds, edge, short⟩ := @ih (target * 2) (by rw [mul_assoc, ← pow_succ']; exact enough) none_
      rw [mul_assoc, ← pow_succ'] at edge short
      exact ⟨rounds + 1, edge, short⟩

end Hashmap

/-- A table that its own functions keep: the cells hold the hashes of their keys, the table is at most
three quarters full and its bucket array fits into memory. -/
structure Intact (ops : KeyOps K) (map : Hashmap (MapEntry K V)) : Prop where
  wf : Hashmap.WellFormed MapEntry.hash map
  hashed : ∀ entry ∈ map.entries, entry.hash = ops.hash entry.key
  roomy : map.len ≤ Hashmap.resizeThreshold map.bucketCount
  bounded : map.bucketCount ≤ Hashmap.maxBuckets

namespace Intact

open Hashmap

variable {ops : KeyOps K} {map : Hashmap (MapEntry K V)}
  {count exponent : Nat} {after : Hashmap (MapEntry K V)} {entry : MapEntry K V} {key : K} {test : MapEntry K V → Bool}

theorem init : Intact ops (Hashmap.init : Hashmap (MapEntry K V)) where
  wf := init_wellFormed
  hashed := by simp
  roomy := Nat.zero_le _
  bounded := by
    change initialBuckets ≤ maxBuckets
    decide

section

variable (intact : Intact ops map)

include intact

/-- A larger table with the same cells. -/
theorem resize (power : count = 2 ^ exponent) (larger : map.bucketCount ≤ count) (fits : count ≤ maxBuckets) :
    Intact ops (map.resize MapEntry.hash count) ∧ (map.resize MapEntry.hash count).contents = map.contents := by
  obtain ⟨wf, kept, size⟩ := resize_power_spec intact.wf power
  refine ⟨⟨wf, fun entry member => intact.hashed entry (kept.mem_iff.mp member), ?_, by rwa [size]⟩, ?_⟩
  · rw [size]
    exact intact.roomy.trans (resizeThreshold_mono larger)
  · exact Multiset.coe_eq_coe.mpr (kept.map _)

/-- `hashmap_resize` to a larger power of two, which is refused memory or keeps the cells. -/
theorem resizeTo_cases (power : count = 2 ^ exponent) (larger : map.bucketCount ≤ count) (alloc : Allocator) :
    (∃ after rest, map.resizeTo count alloc = (.ok, after, rest) ∧ Intact ops after ∧
      after.contents = map.contents ∧ after.bucketCount = count ∧ after.len = map.len ∧ alloc.Spent rest) ∨
    (∃ rest, map.resizeTo count alloc = (.nomem, map, rest) ∧ (alloc.Refused rest ∨ maxBuckets < count)) := by
  rw [resizeTo, if_pos (isPowerOfTwo_iff.mpr ⟨exponent, power⟩), allocBuckets]
  split_ifs with huge
  · exact .inr ⟨alloc, rfl, .inr huge⟩
  · rcases alloc.request_cases with ⟨rest, granted, spent⟩ | ⟨rest, denied, refused⟩
    · rw [granted]
      obtain ⟨resized, same⟩ := intact.resize power larger (Nat.le_of_not_lt huge)
      exact .inl ⟨_, rest, rfl, resized, same, (resize_power_spec intact.wf power).2.2, rfl, spent⟩
    · rw [denied]
      exact .inr ⟨rest, rfl, .inl refused⟩

/-- `bgp_hashmap_reserve` makes room for the count, or it is refused memory and changes nothing. -/
theorem reserve_cases (count : Nat) (alloc : Allocator) :
    (∃ after rest, map.reserve count alloc = (.ok, after, rest) ∧ Intact ops after ∧
      after.contents = map.contents ∧ count ≤ resizeThreshold after.bucketCount) ∨
    (∃ rest, map.reserve count alloc = (.nomem, map, rest) ∧ (alloc.Refused rest ∨ maxPairs < count)) := by
  obtain ⟨exponent, power⟩ := intact.wf.powerOfTwo
  rw [reserve, if_pos (isPowerOfTwo_iff.mpr ⟨exponent, power⟩)]
  split_ifs with enough
  · exact .inl ⟨map, alloc, rfl, intact, rfl, enough⟩
  · rcases search : reserveTarget count 64 map.bucketCount with _ | target
    · -- The start is positive, so 63 doublings reach the size check.
      have enough : sizeMax / 2 < map.bucketCount * 2 ^ 63 := by
        have edge : sizeMax / 2 < 2 ^ 63 := by decide
        have positive := intact.wf.bucketCount_pos
        exact edge.trans_le (Nat.le_mul_of_pos_left _ positive)
      obtain ⟨last, edge, short⟩ := reserveTarget_none enough search
      have large : 2 ^ 61 ≤ map.bucketCount * 2 ^ last * 2 := by
        have half : 2 ^ 61 ≤ sizeMax / 2 := by decide
        omega
      exact .inr ⟨alloc, rfl, .inr ((maxPairs_le large).trans_lt short)⟩
    · obtain ⟨⟨rounds, doubled, short⟩, room⟩ := reserveTarget_some search
      have grown : target = 2 ^ (exponent + rounds) := by rw [doubled, power, pow_add]
      have larger : map.bucketCount ≤ target := by
        rw [doubled]
        exact Nat.le_mul_of_pos_right _ (by positivity)
      rcases intact.resizeTo_cases grown larger alloc with
        ⟨after, rest, done, resized, same, size, -⟩ | ⟨rest, failed, refused | huge⟩
      · exact .inl ⟨after, rest, done, resized, same, by rwa [size]⟩
      · exact .inr ⟨rest, failed, .inl refused⟩
      · refine .inr ⟨rest, failed, .inr ?_⟩
        have large := two_pow_le_of_maxBuckets_lt grown huge
        -- The table itself fits, so the target is a doubling of a table that was too small.
        cases rounds with
        | zero =>
          have fits := intact.bounded
          rw [doubled, pow_zero, mul_one] at huge
          omega
        | succ rounds =>
          rw [doubled, pow_succ 2 rounds, ← mul_assoc] at large
          exact (maxPairs_le large).trans_lt (short rounds (Nat.lt_succ_self _))

/-- A new cell in a table with room. -/
theorem link (room : map.len < resizeThreshold map.bucketCount) (key : K) (value : V) :
    Intact ops (map.link MapEntry.hash ⟨key, value, ops.hash key⟩) ∧
      (map.link MapEntry.hash ⟨key, value, ops.hash key⟩).contents = (key, value) ::ₘ map.contents := by
  have spec := relink_spec intact.wf ⟨key, value, ops.hash key⟩
  rw [← link_eq_relink intact.wf] at spec
  obtain ⟨wf, grown⟩ := spec
  have size : (map.link MapEntry.hash ⟨key, value, ops.hash key⟩).bucketCount = map.bucketCount := by
    simp [Hashmap.link, bucketCount]
  refine ⟨⟨wf, ?_, ?_, by rw [size]; exact intact.bounded⟩, Multiset.coe_eq_coe.mpr (grown.map _)⟩
  · intro entry member
    rcases mem_cons.mp (grown.mem_iff.mp member) with rfl | old
    · rfl
    · exact intact.hashed entry old
  · rw [size]
    exact room

/-- A cell that is allocated is linked. -/
theorem addEntry_cases (room : map.len < resizeThreshold map.bucketCount) (key : K) (value : V) (alloc : Allocator) :
    (∃ after rest, map.addEntry MapEntry.hash ⟨key, value, ops.hash key⟩ alloc = (.ok, after, rest) ∧
      Intact ops after ∧ after.contents = (key, value) ::ₘ map.contents) ∨
    (∃ rest, map.addEntry MapEntry.hash ⟨key, value, ops.hash key⟩ alloc = (.nomem, map, rest) ∧
      alloc.Refused rest) := by
  unfold addEntry
  rcases alloc.request_cases with ⟨rest, granted, -⟩ | ⟨rest, denied, refused⟩
  · rw [granted]
    exact .inl ⟨_, rest, rfl, intact.link room key value⟩
  · rw [denied]
    exact .inr ⟨rest, rfl, refused⟩

/-- An insert adds its pair, or it is refused memory and the pairs stay. -/
theorem insert_cases (key : K) (value : V) (alloc : Allocator) :
    (∃ after rest, ops.insert map key value alloc = (.ok, after, rest) ∧ Intact ops after ∧
      after.contents = (key, value) ::ₘ map.contents) ∨
    (∃ after rest, ops.insert map key value alloc = (.nomem, after, rest) ∧ Intact ops after ∧
      after.contents = map.contents ∧ (alloc.Refused rest ∨ maxPairs < map.len + 1)) := by
  have fits := intact.bounded
  unfold KeyOps.insert
  split_ifs with full huge
  · have edge : maxBuckets < sizeMax / 2 := by decide
    omega
  · obtain ⟨exponent, power⟩ := intact.wf.powerOfTwo
    have doubled : map.bucketCount * 2 = 2 ^ (exponent + 1) := by rw [power, pow_succ]
    rcases intact.resizeTo_cases doubled (by omega) alloc with
      ⟨grown, rest, done, grownIntact, same, size, length, spent⟩ | ⟨rest, failed, refused | huge⟩
    · rw [done]
      have room : grown.len < resizeThreshold grown.bucketCount := by
        rw [size, length]
        exact intact.roomy.trans_lt (resizeThreshold_double intact.wf.bucketCount_pos)
      rcases grownIntact.addEntry_cases room key value rest with
        ⟨after, left, linked, kept, added⟩ | ⟨left, failed, refused⟩
      · exact .inl ⟨after, left, linked, kept, by rw [added, same]⟩
      · exact .inr ⟨grown, left, failed, grownIntact, same, .inl (spent.trans_refused refused)⟩
    · rw [failed]
      exact .inr ⟨map, rest, rfl, intact, rfl, .inl refused⟩
    · rw [failed]
      have large := maxPairs_le (two_pow_le_of_maxBuckets_lt doubled huge)
      exact .inr ⟨map, rest, rfl, intact, rfl, .inr (Nat.lt_succ_of_le (large.trans full))⟩
  · rcases intact.addEntry_cases (Nat.lt_of_not_le full) key value alloc with linked | ⟨rest, failed, refused⟩
    · exact .inl linked
    · exact .inr ⟨map, rest, failed, intact, rfl, .inl refused⟩

/-- A table without one of its cells. -/
theorem erase (wf : WellFormed MapEntry.hash after)
    (whole : map.entries.Perm (entry :: after.entries)) (size : after.bucketCount = map.bucketCount) :
    Intact ops after ∧ map.contents = (entry.key, entry.value) ::ₘ after.contents := by
  refine ⟨⟨wf, ?_, ?_, by rw [size]; exact intact.bounded⟩, Multiset.coe_eq_coe.mpr (whole.map _)⟩
  · intro held member
    exact intact.hashed held (whole.mem_iff.mpr (mem_cons_of_mem _ member))
  · have length : map.len = after.len + 1 := by
      rw [intact.wf.counted, wf.counted, whole.length_eq, length_cons]
    have room := intact.roomy
    rw [size]
    omega

/-- The chain of a key and the cells with other indices. -/
theorem chain_split (wanted : UInt64) :
    ∃ rest, map.entries.Perm (map.moduloChain wanted ++ rest) ∧ ∀ entry ∈ rest, entry.hash ≠ wanted := by
  obtain ⟨rest, whole, others⟩ := intact.wf.placed.split (intact.wf.moduloChain_present wanted)
  refine ⟨rest, whole, fun entry member same => others entry member ?_⟩
  rw [same]

/-- A search of the chain of a hash is a search of the whole table for cells with this hash. -/
theorem find_none_iff (hits : ∀ entry, test entry = true → entry.hash = ops.hash key) :
    (map.moduloChain (ops.hash key)).find? test = none ↔ ∀ entry ∈ map.entries, test entry = false := by
  obtain ⟨rest, whole, others⟩ := intact.chain_split (ops.hash key)
  rw [find?_eq_none]
  constructor
  · intro missed entry member
    rcases mem_append.mp (whole.mem_iff.mp member) with inside | outside
    · exact Bool.eq_false_iff.mpr (missed entry inside)
    · exact Bool.eq_false_iff.mpr fun tested => others entry outside (hits entry tested)
  · intro missed entry member
    exact Bool.eq_false_iff.mp (missed entry (mem_entries_of_mem_moduloChain member))

/-- The cells that a search tests as hits are the stored pairs whose keys it accepts. -/
theorem hit_eq (key : K) (member : entry ∈ map.entries) :
    hit MapEntry.hash (ops.hash key) (fun held => ops.eq held.key key) entry = ops.same entry.key key := by
  rw [hit, KeyOps.same, intact.hashed entry member]

end

/-- The search selects the pairs that a removal may take. -/
theorem selects_iff [DecidableEq V] (intact : Intact ops map) (key : K) (value : Option V)
    (member : entry ∈ map.entries) :
    hit MapEntry.hash (ops.hash key) (ops.selects key value) entry = true ↔
      Removes ops.same key value (entry.key, entry.value) := by
  simp only [hit, KeyOps.selects, KeyOps.same, Removes, intact.hashed entry member, Bool.and_eq_true, and_assoc,
    Option.all_eq_true, beq_iff_eq]
  constructor
  · rintro ⟨hashes, keys, values⟩
    exact ⟨hashes, keys, fun wanted given => (values wanted given).symm⟩
  · rintro ⟨hashes, keys, values⟩
    exact ⟨hashes, keys, fun wanted given => (values wanted given).symm⟩

theorem mem_contents {pair : K × V} :
    pair ∈ map.contents ↔ ∃ entry ∈ map.entries, (entry.key, entry.value) = pair := by
  rw [contents, Multiset.mem_coe, mem_map]

/-- A search that finds a cell takes out one selected pair, one that finds none has none to take. -/
theorem removesOne [DecidableEq V] (intact : Intact ops map) {value : Option V}
    (tested : ∀ entry ∈ map.entries, test entry = true ↔
      Removes ops.same key value (entry.key, entry.value))
    (hits : ∀ entry, test entry = true → entry.hash = ops.hash key) {err : Err}
    (missed : (map.moduloChain (ops.hash key)).find? test = none → err = .notFound ∧ after = map)
    (taken : ∀ entry, (map.moduloChain (ops.hash key)).find? test = some entry → err = .ok ∧
      WellFormed MapEntry.hash after ∧ map.entries.Perm (entry :: after.entries) ∧
      after.bucketCount = map.bucketCount) :
    Intact ops after ∧ RemovesOne ops.same key value err map.contents after.contents := by
  rcases search : (map.moduloChain (ops.hash key)).find? test with _ | entry
  · obtain ⟨failed, rfl⟩ := missed search
    refine ⟨intact, .inr ⟨failed, rfl, fun pair member removes => ?_⟩⟩
    obtain ⟨entry, inside, rfl⟩ := mem_contents.mp member
    have rejected := (intact.find_none_iff hits).mp search entry inside
    rw [(tested entry inside).mpr removes] at rejected
    cases rejected
  · obtain ⟨done, wf, whole, size⟩ := taken entry search
    obtain ⟨kept, erased⟩ := intact.erase wf whole size
    have inside := mem_entries_of_mem_moduloChain (mem_of_find?_eq_some search)
    exact ⟨kept, .inl ⟨done, _, (tested entry inside).mp (find?_some search), erased⟩⟩

/-- `bgp_hashmap_remove_one` -/
theorem removeOne [DecidableEq V] (intact : Intact ops map) (key : K) (value : Option V) :
    Intact ops (ops.removeOne map key value).2 ∧
      RemovesOne ops.same key value (ops.removeOne map key value).1 map.contents
        (ops.removeOne map key value).2.contents := by
  have search := findFirst_eq intact.wf (ops.hash key) (ops.selects key value)
  apply intact.removesOne (fun entry member => intact.selects_iff key value member)
  · intro entry tested
    rw [hit, Bool.and_eq_true] at tested
    exact beq_iff_eq.mp tested.1
  · intro missed
    rw [KeyOps.removeOne, search, missed]
    exact ⟨rfl, rfl⟩
  · intro entry found
    rw [← search] at found
    obtain ⟨wf, whole⟩ := removeOne_spec intact.wf found
    have size : (map.removeOne MapEntry.hash (ops.hash key) (ops.selects key value)).bucketCount =
        map.bucketCount := by
      rw [Hashmap.removeOne, found]
      simp [bucketCount]
    rw [KeyOps.removeOne, found]
    exact ⟨rfl, wf, whole, size⟩

/-- A cell that a chain holds is found again by its identity. -/
theorem routeEntryUnlink [DecidableEq K] [DecidableEq V] (intact : Intact ops map)
    (member : entry ∈ map.moduloChain entry.hash) :
    (KeyOps.routeEntryUnlink map entry).1 = true ∧
      WellFormed MapEntry.hash (KeyOps.routeEntryUnlink map entry).2 ∧
      map.entries.Perm (entry :: (KeyOps.routeEntryUnlink map entry).2.entries) ∧
      (KeyOps.routeEntryUnlink map entry).2.bucketCount = map.bucketCount := by
  have found : (map.moduloChain entry.hash).find? (· == entry) = some entry := by
    rcases search : (map.moduloChain entry.hash).find? (· == entry) with _ | held
    · have missed := find?_eq_none.mp search entry member
      simp at missed
    · have same := find?_some search
      rw [beq_iff_eq.mp same]
  obtain ⟨wf, whole⟩ := unlink_spec intact.wf found
  have size : (map.unlink entry.hash (· == entry)).bucketCount = map.bucketCount := by
    rw [unlink, found]
    simp [bucketCount]
  have positive : map.bucketCount ≠ 0 := intact.wf.bucketCount_pos.ne'
  rw [KeyOps.routeEntryUnlink, if_neg positive]
  exact ⟨by rw [found]; rfl, wf, whole, size⟩

/-- The route tables' removal takes one pair with the key and the value. -/
theorem unlink [DecidableEq K] [DecidableEq V] (intact : Intact ops map) (key : K) (value : V) (alloc : Allocator) :
    Intact ops ((MapCall.unlink key value).perform ops map alloc).2 ∧
      RemovesOne ops.same key (some value) ((MapCall.unlink key value).perform ops map alloc).1 map.contents
        ((MapCall.unlink key value).perform ops map alloc).2.contents := by
  have hits : ∀ entry : MapEntry K V, (entry.hash == ops.hash key && entry.value == value &&
      ops.eq entry.key key) = true → entry.hash = ops.hash key := by
    intro entry tested
    simp only [Bool.and_eq_true, beq_iff_eq] at tested
    exact tested.1.1
  refine intact.removesOne ?_ hits ?_ ?_
  · intro entry member
    simp only [KeyOps.same, Removes, intact.hashed entry member, Bool.and_eq_true, beq_iff_eq, Option.some.injEq,
      forall_eq']
    tauto
  · intro missed
    rw [MapCall.perform, KeyOps.entryFindValue, missed]
    exact ⟨rfl, rfl⟩
  · intro entry found
    have member := mem_of_find?_eq_some found
    have tested := find?_some found
    rw [← hits entry tested] at member
    obtain ⟨linked, wf, whole, size⟩ := intact.routeEntryUnlink member
    rcases cut : KeyOps.routeEntryUnlink map entry with ⟨result, after⟩
    rw [cut] at linked wf whole size
    obtain rfl : result = true := linked
    simp only [MapCall.perform, KeyOps.entryFindValue, found, cut]
    exact ⟨trivial, wf, whole, size⟩

/-- Every call keeps the table and has its effect on the stored pairs. With memory it fails only for
more pairs than any table takes. -/
theorem perform [DecidableEq K] [DecidableEq V] (intact : Intact ops map) (call : MapCall K V) (alloc : Allocator) :
    Intact ops (call.perform ops map alloc).2 ∧
      call.Effect ops.same (call.perform ops map alloc).1 map.contents (call.perform ops map alloc).2.contents ∧
      ((call.perform ops map alloc).1 = .nomem → alloc.Generous → maxPairs < call.demand map) := by
  cases call with
  | insert key value =>
    rcases intact.insert_cases key value alloc with
      ⟨after, rest, done, kept, added⟩ | ⟨after, rest, failed, kept, same, refused | full⟩
    · simp only [MapCall.perform, done]
      exact ⟨kept, .inl ⟨rfl, added⟩, nofun⟩
    · simp only [MapCall.perform, failed]
      exact ⟨kept, .inr ⟨rfl, same⟩, fun _ generous => absurd refused generous.not_refused⟩
    · simp only [MapCall.perform, failed]
      exact ⟨kept, .inr ⟨rfl, same⟩, fun _ _ => full⟩
  | reserve count =>
    rcases intact.reserve_cases count alloc with
      ⟨after, rest, done, kept, same, -⟩ | ⟨rest, failed, refused | full⟩
    · simp only [MapCall.perform, done]
      exact ⟨kept, ⟨.inl rfl, same⟩, nofun⟩
    · simp only [MapCall.perform, failed]
      exact ⟨intact, ⟨.inr rfl, rfl⟩, fun _ generous => absurd refused generous.not_refused⟩
    · simp only [MapCall.perform, failed]
      exact ⟨intact, ⟨.inr rfl, rfl⟩, fun _ _ => full⟩
  | removeOne key value =>
    obtain ⟨kept, removes⟩ := intact.removeOne key value
    exact ⟨kept, removes, fun failed => absurd failed removes.err_ne⟩
  | unlink key value =>
    obtain ⟨kept, removes⟩ := intact.unlink key value alloc
    exact ⟨kept, removes, fun failed => absurd failed removes.err_ne⟩

end Intact

/-- Any sequence of calls leaves an intact table. -/
theorem mapRun_intact [DecidableEq K] [DecidableEq V] (ops : KeyOps K) (calls : List (MapCall K V × Allocator)) :
    Intact ops (mapRun ops calls) := by
  induction calls using reverseRecOn with
  | nil => exact Intact.init
  | append_singleton calls step ih =>
    rw [mapRun, foldl_append]
    exact (ih.perform step.1 step.2).1

/-- A table that stores a multiset of pairs, where `same` says which keys are equal. -/
structure StoresMultiset [DecidableEq K] [DecidableEq V] (ops : KeyOps K) (same : K → K → Bool)
    (map : Hashmap (MapEntry K V)) : Prop where
  powerOfTwo : Hashmap.isPowerOfTwo map.bucketCount = true
  placed : ∀ position chain, map.buckets[position]? = some chain → ∀ entry ∈ chain,
    entry.hash = ops.hash entry.key ∧
      Hashmap.bucketIndex entry.hash map.bucketCount = position ∧
      Hashmap.moduloIndex entry.hash map.bucketCount = position
  length : map.len = map.contents.card
  fits : map.len ≤ map.bucketCount ∧ map.bucketCount ≤ Hashmap.maxBuckets
  effect : ∀ (call : MapCall K V) (alloc : Allocator), call.Effect same (call.perform ops map alloc).1 map.contents
    (call.perform ops map alloc).2.contents
  refused : ∀ (call : MapCall K V) (alloc : Allocator), (call.perform ops map alloc).1 = .nomem →
    alloc.Generous → Hashmap.maxPairs < call.demand map
  missing : ∀ key, ops.findFirst map key = none ↔ ∀ pair ∈ map.contents, same pair.1 key = false
  found : ∀ key value, ops.findFirst map key = some value → ∃ stored, (stored, value) ∈ map.contents ∧
    same stored key = true
  counted : ∀ key, ops.countKey map key = map.contents.countP fun pair => same pair.1 key = true

theorem Intact.findFirst_none_iff (intact : Intact ops map) (key : K) :
    ops.findFirst map key = none ↔ ∀ pair ∈ map.contents, ops.same pair.1 key = false := by
  rw [KeyOps.findFirst, Option.map_eq_none_iff, Hashmap.findFirst_eq intact.wf, intact.find_none_iff]
  · constructor
    · intro missed pair member
      obtain ⟨entry, inside, rfl⟩ := Intact.mem_contents.mp member
      rw [← intact.hit_eq key inside]
      exact missed entry inside
    · intro missed entry inside
      rw [intact.hit_eq key inside]
      exact missed _ (Intact.mem_contents.mpr ⟨entry, inside, rfl⟩)
  · intro entry tested
    rw [Hashmap.hit, Bool.and_eq_true] at tested
    exact beq_iff_eq.mp tested.1

theorem Intact.findFirst_some (intact : Intact ops map) {value : V} (found : ops.findFirst map key = some value) :
    ∃ stored, (stored, value) ∈ map.contents ∧ ops.same stored key = true := by
  rw [KeyOps.findFirst, Option.map_eq_some_iff] at found
  obtain ⟨entry, search, rfl⟩ := found
  have inside := Hashmap.mem_entries_of_mem_chain (mem_of_find?_eq_some search)
  have tested := find?_some search
  rw [intact.hit_eq key inside] at tested
  exact ⟨entry.key, Intact.mem_contents.mpr ⟨entry, inside, rfl⟩, tested⟩

/-- Counting in one chain counts every stored pair with this key. -/
theorem Intact.countKey_eq (intact : Intact ops map) (key : K) :
    ops.countKey map key = map.contents.countP fun pair => ops.same pair.1 key = true := by
  obtain ⟨rest, whole, others⟩ := intact.chain_split (ops.hash key)
  have outside : rest.countP (Hashmap.hit MapEntry.hash (ops.hash key) fun entry => ops.eq entry.key key) = 0 := by
    refine countP_eq_zero.mpr fun entry member tested => others entry member ?_
    rw [Hashmap.hit, Bool.and_eq_true] at tested
    exact beq_iff_eq.mp tested.1
  calc ops.countKey map key
      = map.entries.countP (Hashmap.hit MapEntry.hash (ops.hash key) fun entry => ops.eq entry.key key) := by
        rw [KeyOps.countKey, intact.wf.chain_eq, whole.countP_eq, countP_append, outside, Nat.add_zero]
    _ = map.entries.countP fun entry => ops.same entry.key key :=
        countP_congr fun entry member => by rw [intact.hit_eq key member]
    _ = map.contents.countP fun pair => ops.same pair.1 key = true := by
        rw [Hashmap.contents, Multiset.coe_countP, countP_map]
        exact countP_congr fun entry _ => by simp

/-- An intact map stores its multiset of pairs. -/
theorem Intact.stores [DecidableEq K] [DecidableEq V] (intact : Intact ops map) :
    StoresMultiset ops ops.same map where
  powerOfTwo := Hashmap.isPowerOfTwo_iff.mpr intact.wf.powerOfTwo
  placed := by
    intro position chain present entry member
    have inside : entry ∈ map.entries := mem_flatten.mpr ⟨chain, mem_of_getElem? present, member⟩
    have place := intact.wf.placed position chain present entry member
    exact ⟨intact.hashed entry inside, (intact.wf.index_eq entry.hash).trans place, place⟩
  length := by
    rw [intact.wf.counted, Hashmap.contents, Multiset.coe_card, length_map]
  fits := ⟨intact.roomy.trans (Hashmap.resizeThreshold_le _), intact.bounded⟩
  effect := fun call alloc => (intact.perform call alloc).2.1
  refused := fun call alloc => (intact.perform call alloc).2.2
  missing := intact.findFirst_none_iff
  found := fun _ _ found => intact.findFirst_some found
  counted := intact.countKey_eq

/-- After any calls the map stores a multiset of pairs. When equal keys have equal hashes, its keys are
told apart by the key test alone. -/
theorem mapRun_stores_multiset [DecidableEq K] [DecidableEq V] (ops : KeyOps K)
    (calls : List (MapCall K V × Allocator)) :
    StoresMultiset ops ops.same (mapRun ops calls) ∧
      ((∀ stored wanted, ops.eq stored wanted = true → ops.hash stored = ops.hash wanted) →
        StoresMultiset ops ops.eq (mapRun ops calls)) := by
  have stores := (mapRun_intact ops calls).stores
  refine ⟨stores, fun respects => ?_⟩
  have same : ops.same = ops.eq := by
    funext stored wanted
    rw [KeyOps.same, Bool.and_eq_right_iff_imp]
    intro equal
    exact beq_iff_eq.mpr (respects stored wanted equal)
  rwa [same] at stores

end Libbgp
