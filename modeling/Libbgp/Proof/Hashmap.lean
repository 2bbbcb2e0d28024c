import Libbgp.Construction.Hashmap

namespace Libbgp.Hashmap

open Library List

variable {E : Type} {hash : E → UInt64} {map : Hashmap E}

/-- The table has a power of two of buckets, each entry is in its chain, and the count is exact. -/
structure WellFormed (hash : E → UInt64) (map : Hashmap E) : Prop where
  powerOfTwo : ∃ exponent, map.bucketCount = 2 ^ exponent
  placed : Placed (fun entry => moduloIndex (hash entry) map.bucketCount) map.buckets
  counted : map.len = map.entries.length

/-- The mask of the map and the modulus of its users select the same chain. -/
theorem bucketIndex_eq_moduloIndex {count exponent : Nat} (power : count = 2 ^ exponent) (wanted : UInt64) :
    bucketIndex wanted count = moduloIndex wanted count := by
  subst power
  exact Nat.and_two_pow_sub_one_eq_mod _ _

namespace WellFormed

section

variable (wf : WellFormed hash map)

include wf

theorem index_eq (wanted : UInt64) : bucketIndex wanted map.bucketCount = moduloIndex wanted map.bucketCount :=
  let ⟨_, power⟩ := wf.powerOfTwo
  bucketIndex_eq_moduloIndex power wanted

theorem chain_eq (wanted : UInt64) : map.chain wanted = map.moduloChain wanted := by
  rw [chain, moduloChain, wf.index_eq]

theorem bucketCount_pos : 0 < map.bucketCount := by
  obtain ⟨exponent, power⟩ := wf.powerOfTwo
  rw [power]
  positivity

theorem moduloIndex_lt (wanted : UInt64) : moduloIndex wanted map.bucketCount < map.buckets.length :=
  Nat.mod_lt _ wf.bucketCount_pos

theorem moduloChain_present (wanted : UInt64) :
    map.buckets[moduloIndex wanted map.bucketCount]? = some (map.moduloChain wanted) := by
  rw [moduloChain, getD_eq_getElem?_getD, getElem?_eq_getElem (wf.moduloIndex_lt wanted),
    Option.getD_some]

/-- An entry is in the chain of its hash. -/
theorem mem_moduloChain {entry : E} (member : entry ∈ map.entries) : entry ∈ map.moduloChain (hash entry) :=
  wf.placed.mem_chain member

end

end WellFormed

theorem mem_entries_of_mem_moduloChain {wanted : UInt64} {entry : E}
    (member : entry ∈ map.moduloChain wanted) : entry ∈ map.entries :=
  mem_flatten_of_mem_getD member

theorem mem_entries_of_mem_chain {wanted : UInt64} {entry : E}
    (member : entry ∈ map.chain wanted) : entry ∈ map.entries :=
  mem_flatten_of_mem_getD member

theorem init_wellFormed : WellFormed hash (init : Hashmap E) where
  powerOfTwo := ⟨4, rfl⟩
  placed := by
    intro position chain present item member
    have bare : chain = [] := (mem_replicate.mp (mem_of_getElem? present)).2
    simp [bare] at member
  counted := rfl

@[simp] theorem init_entries : (init : Hashmap E).entries = [] := rfl

section

variable (wf : WellFormed hash map)

include wf

/-- Linking at the front adds one entry. -/
theorem relink_spec (entry : E) :
    WellFormed hash (map.relink hash entry) ∧ (map.relink hash entry).entries.Perm (entry :: map.entries) := by
  have grown : (map.relink hash entry).entries.Perm (entry :: map.entries) :=
    pushFront_perm (fun entry => moduloIndex (hash entry) map.bucketCount)
      (wf.moduloIndex_lt (hash entry))
  have size : (map.relink hash entry).bucketCount = map.bucketCount := by simp [relink, bucketCount]
  refine ⟨⟨?_, ?_, ?_⟩, grown⟩
  · rw [size]
    exact wf.powerOfTwo
  · rw [size]
    exact wf.placed.pushFront entry
  · rw [grown.length_eq, length_cons, ← wf.counted]
    rfl

theorem link_eq_relink (entry : E) : map.link hash entry = map.relink hash entry := by
  have same : (fun entry => bucketIndex (hash entry) map.bucketCount) =
      fun entry => moduloIndex (hash entry) map.bucketCount := by
    funext entry
    exact wf.index_eq (hash entry)
  rw [link, relink, same]

/-- A table of any power of two keeps the entries. -/
theorem resize_power_spec {count exponent : Nat} (power : count = 2 ^ exponent) :
    WellFormed hash (map.resize hash count) ∧ (map.resize hash count).entries.Perm map.entries ∧
      (map.resize hash count).bucketCount = count := by
  have same : (fun entry => bucketIndex (hash entry) count) = fun entry => moduloIndex (hash entry) count := by
    funext entry
    exact bucketIndex_eq_moduloIndex power (hash entry)
  have positive : 0 < count := by
    rw [power]
    positivity
  obtain ⟨length, placed, contents⟩ := rehash_spec (fun entry => moduloIndex (hash entry) count) count map.entries
    (fun entry _ => Nat.mod_lt _ positive)
  rw [← same] at length placed contents
  have size : (map.resize hash count).bucketCount = count := length
  have kept : (map.resize hash count).entries.Perm map.entries := contents
  refine ⟨⟨⟨exponent, size.trans power⟩, ?_, ?_⟩, kept, size⟩
  · rw [size, ← same]
    exact placed
  · rw [kept.length_eq]
    exact wf.counted

/-- Growing the table keeps its entries. -/
theorem resize_spec :
    WellFormed hash (map.resize hash (map.bucketCount * 2)) ∧
      (map.resize hash (map.bucketCount * 2)).entries.Perm map.entries := by
  obtain ⟨exponent, power⟩ := wf.powerOfTwo
  have doubled : map.bucketCount * 2 = 2 ^ (exponent + 1) := by rw [power, pow_succ]
  obtain ⟨resized, kept, -⟩ := resize_power_spec wf doubled
  exact ⟨resized, kept⟩

/-- An entry is added, or memory is refused and nothing changes. -/
theorem addEntry_cases (entry : E) (alloc : Allocator) :
    (∃ after rest, map.addEntry hash entry alloc = (.ok, after, rest) ∧ alloc.Spent rest ∧
      WellFormed hash after ∧ after.entries.Perm (entry :: map.entries)) ∨
    (∃ rest, map.addEntry hash entry alloc = (.nomem, map, rest) ∧ alloc.Refused rest) := by
  unfold addEntry
  rcases alloc.request_cases with ⟨rest, granted, spent⟩ | ⟨rest, denied, refused⟩
  · rw [granted, link_eq_relink wf]
    exact .inl ⟨_, rest, rfl, spent, relink_spec wf entry⟩
  · rw [denied]
    exact .inr ⟨rest, rfl, refused⟩

/-- An insert links the entry, or it is refused memory and keeps the entries. -/
theorem insert_cases (entry : E) (alloc : Allocator) :
    (∃ after rest, map.insert hash entry alloc = (.ok, after, rest) ∧ alloc.Spent rest ∧
      WellFormed hash after ∧ after.entries.Perm (entry :: map.entries)) ∨
    (∃ after rest, map.insert hash entry alloc = (.nomem, after, rest) ∧ alloc.Refused rest ∧
      WellFormed hash after ∧ after.entries.Perm map.entries) := by
  unfold insert
  split
  · rcases alloc.request_cases with ⟨rest, granted, spent⟩ | ⟨rest, denied, refused⟩
    · rw [granted]
      obtain ⟨resized, kept⟩ := resize_spec wf
      rcases addEntry_cases resized entry rest with
        ⟨after, left, linked, more, afterWf, contents⟩ | ⟨left, failed, more⟩
      · exact .inl ⟨after, left, linked, spent.trans more, afterWf, contents.trans (kept.cons entry)⟩
      · exact .inr ⟨_, left, failed, spent.trans_refused more, resized, kept⟩
    · rw [denied]
      exact .inr ⟨map, rest, rfl, refused, wf, List.Perm.refl _⟩
  · rcases addEntry_cases wf entry alloc with linked | ⟨rest, failed, refused⟩
    · exact .inl linked
    · exact .inr ⟨map, rest, failed, refused, wf, List.Perm.refl _⟩

/-- The entry that a search through a chain finds can be split off from the table. -/
theorem moduloChain_split {wanted : UInt64} {test : E → Bool} {entry : E}
    (found : (map.moduloChain wanted).find? test = some entry) :
    ∃ others, map.entries.Perm (entry :: others) ∧
      (map.buckets.modify (moduloIndex wanted map.bucketCount) (·.eraseP test)).flatten.Perm others ∧
      ∀ change, (map.buckets.modify (moduloIndex wanted map.bucketCount)
        (updateFirst test change)).flatten.Perm (change entry :: others) := by
  obtain ⟨rest, whole, changed⟩ := flatten_modify (wf.moduloChain_present wanted)
  refine ⟨(map.moduloChain wanted).eraseP test ++ rest, ?_, changed _, fun change => ?_⟩
  · exact whole.trans ((perm_cons_eraseP found).append_right rest)
  · exact (changed _).trans ((updateFirst_perm found).append_right rest)

/-- Exactly the entry that is found in a chain is taken out. -/
theorem erase_spec {wanted : UInt64} {test : E → Bool} {entry : E} {after : Hashmap E}
    (found : (map.moduloChain wanted).find? test = some entry) (shape : after =
      ⟨map.buckets.modify (moduloIndex wanted map.bucketCount) (·.eraseP test), map.len - 1⟩) :
    WellFormed hash after ∧ map.entries.Perm (entry :: after.entries) := by
  obtain ⟨others, whole, erased, -⟩ := moduloChain_split wf found
  have size : after.bucketCount = map.bucketCount := by simp [shape, bucketCount]
  subst shape
  refine ⟨⟨?_, ?_, ?_⟩, whole.trans (erased.symm.cons entry)⟩
  · rw [size]
    exact wf.powerOfTwo
  · rw [size]
    apply wf.placed.modify
    intro chain present item member
    exact wf.placed _ chain present item (mem_of_mem_eraseP member)
  · have length : map.len = others.length + 1 := by
      rw [wf.counted, whole.length_eq, length_cons]
    change map.len - 1 = (map.buckets.modify _ _).flatten.length
    rw [erased.length_eq, length, Nat.add_sub_cancel]

theorem unlink_spec {wanted : UInt64} {test : E → Bool} {entry : E}
    (found : (map.moduloChain wanted).find? test = some entry) :
    WellFormed hash (map.unlink wanted test) ∧ map.entries.Perm (entry :: (map.unlink wanted test).entries) :=
  erase_spec wf found (by rw [unlink, found])

theorem findFirst_eq (wanted : UInt64) (eq : E → Bool) :
    map.findFirst hash wanted eq = (map.moduloChain wanted).find? (hit hash wanted eq) := by
  rw [findFirst, wf.chain_eq]

theorem removeOne_spec {wanted : UInt64} {eq : E → Bool} {entry : E}
    (found : map.findFirst hash wanted eq = some entry) :
    WellFormed hash (map.removeOne hash wanted eq) ∧
      map.entries.Perm (entry :: (map.removeOne hash wanted eq).entries) := by
  have inChain := found
  rw [findFirst_eq wf] at inChain
  exact erase_spec wf inChain (by rw [removeOne, found, wf.index_eq])

end

theorem mem_updateFirst {test : E → Bool} {change : E → E} {items : List E} {item : E}
    (member : item ∈ updateFirst test change items) :
    item ∈ items ∨ ∃ held ∈ items, test held = true ∧ item = change held := by
  induction items with
  | nil => exact absurd member not_mem_nil
  | cons head rest ih =>
    unfold updateFirst at member
    split at member
    · next tested =>
        rcases mem_cons.mp member with rfl | later
        · exact .inr ⟨head, by simp, tested, rfl⟩
        · exact .inl (mem_cons_of_mem _ later)
    · rcases mem_cons.mp member with rfl | later
      · exact .inl (by simp)
      · rcases ih later with old | ⟨held, inside, tested, changed⟩
        · exact .inl (mem_cons_of_mem _ old)
        · exact .inr ⟨held, mem_cons_of_mem _ inside, tested, changed⟩

/-- A write to the found entry that keeps its key changes only this entry. -/
theorem updateEntry_spec (wf : WellFormed hash map) {wanted : UInt64} {eq : E → Bool} {entry : E} (change : E → E)
    (sameHash : ∀ held, hash (change held) = hash held) (found : map.findFirst hash wanted eq = some entry) :
    WellFormed hash (map.updateEntry hash wanted eq change) ∧
      ∃ others, map.entries.Perm (entry :: others) ∧
        (map.updateEntry hash wanted eq change).entries.Perm (change entry :: others) := by
  rw [findFirst_eq wf] at found
  obtain ⟨others, whole, -, changed⟩ := moduloChain_split wf found
  have shape : map.updateEntry hash wanted eq change =
      ⟨map.buckets.modify (moduloIndex wanted map.bucketCount) (updateFirst (hit hash wanted eq) change),
        map.len⟩ := by
    rw [updateEntry, wf.index_eq]
  rw [shape]
  refine ⟨⟨?_, ?_, ?_⟩, others, whole, changed change⟩
  · obtain ⟨exponent, power⟩ := wf.powerOfTwo
    exact ⟨exponent, by simpa [bucketCount] using power⟩
  · have size : (⟨map.buckets.modify (moduloIndex wanted map.bucketCount)
        (updateFirst (hit hash wanted eq) change), map.len⟩ : Hashmap E).bucketCount = map.bucketCount := by
      simp [bucketCount]
    rw [size]
    apply wf.placed.modify
    intro chain present item member
    rcases mem_updateFirst member with old | ⟨held, inside, -, rfl⟩
    · exact wf.placed _ chain present item old
    · rw [sameHash]
      exact wf.placed _ chain present held inside
  · change map.len = (map.buckets.modify _ _).flatten.length
    rw [(changed change).length_eq, wf.counted, whole.length_eq]
    rfl

section Keyed

variable {K : Type} {key : E → K} {keyHash : K → UInt64} {keyEq : K → E → Bool}

/-- The hash of an entry is the hash of its key, and the key test compares keys. -/
structure KeyAgree (hash : E → UInt64) (key : E → K) (keyHash : K → UInt64) (keyEq : K → E → Bool) :
    Prop where
  hash_eq : ∀ entry, hash entry = keyHash (key entry)
  eq_iff : ∀ wanted entry, keyEq wanted entry = true ↔ key entry = wanted

/-- A well-formed map with one entry for each key. -/
structure Keyed (hash : E → UInt64) (key : E → K) (map : Hashmap E) : Prop where
  wf : WellFormed hash map
  unique : UniqueKeys key map.entries

theorem init_keyed : Keyed hash key (init : Hashmap E) :=
  ⟨init_wellFormed, by simp [UniqueKeys]⟩

/-- A search by key finds exactly the entry with this key. -/
theorem Keyed.find_eq_some_iff (keyed : Keyed hash key map) (agree : KeyAgree hash key keyHash keyEq)
    {wanted : K} {entry : E} :
    map.findFirst hash (keyHash wanted) (keyEq wanted) = some entry ↔
      entry ∈ map.entries ∧ key entry = wanted := by
  rw [findFirst_eq keyed.wf]
  constructor
  · intro found
    have tested := find?_some found
    simp only [hit, Bool.and_eq_true] at tested
    exact ⟨mem_entries_of_mem_moduloChain (mem_of_find?_eq_some found),
      (agree.eq_iff wanted entry).mp tested.2⟩
  · rintro ⟨member, rfl⟩
    have inChain := keyed.wf.mem_moduloChain member
    rw [agree.hash_eq] at inChain
    rcases search : (map.moduloChain (keyHash (key entry))).find? (hit hash (keyHash (key entry))
      (keyEq (key entry))) with _ | found
    · have missed := find?_eq_none.mp search entry inChain
      simp [hit, agree.hash_eq, agree.eq_iff] at missed
    · have tested := find?_some search
      simp only [hit, Bool.and_eq_true] at tested
      have sameKey := (agree.eq_iff _ _).mp tested.2
      have foundIn := mem_entries_of_mem_moduloChain (mem_of_find?_eq_some search)
      rw [keyed.unique.eq_of_key foundIn member sameKey]

/-- A search fails exactly when no entry has the key. -/
theorem Keyed.find_eq_none_iff (keyed : Keyed hash key map) (agree : KeyAgree hash key keyHash keyEq) {wanted : K} :
    map.findFirst hash (keyHash wanted) (keyEq wanted) = none ↔ ∀ entry ∈ map.entries, key entry ≠ wanted := by
  constructor
  · intro missing entry member same
    have found := (keyed.find_eq_some_iff agree).mpr ⟨member, same⟩
    rw [missing] at found
    cases found
  · intro absent
    rcases search : map.findFirst hash (keyHash wanted) (keyEq wanted) with _ | entry
    · rfl
    · obtain ⟨member, same⟩ := (keyed.find_eq_some_iff agree).mp search
      exact absurd same (absent entry member)

/-- Maps with the same entries answer every search alike. -/
theorem Keyed.find_perm {after : Hashmap E} (keyed : Keyed hash key map) (wf : WellFormed hash after)
    (agree : KeyAgree hash key keyHash keyEq) (same : after.entries.Perm map.entries) :
    Keyed hash key after ∧ ∀ wanted, after.findFirst hash (keyHash wanted) (keyEq wanted) =
      map.findFirst hash (keyHash wanted) (keyEq wanted) := by
  have afterKeyed : Keyed hash key after := ⟨wf, keyed.unique.perm same.symm⟩
  refine ⟨afterKeyed, fun wanted => Option.ext fun entry => ?_⟩
  rw [afterKeyed.find_eq_some_iff agree, keyed.find_eq_some_iff agree, same.mem_iff]

variable [DecidableEq K]

/-- Searches after one entry has replaced another one with the same key, or none. -/
theorem Keyed.find_cons {after : Hashmap E} {others : List E} {entry : E} (afterKeyed : Keyed hash key after)
    (agree : KeyAgree hash key keyHash keyEq) (contents : after.entries.Perm (entry :: others)) (wanted : K) :
    after.findFirst hash (keyHash wanted) (keyEq wanted) =
      if wanted = key entry then some entry
      else others.find? (fun held => key held == wanted) := by
  have unique := afterKeyed.unique.perm contents
  have later := (UniqueKeys.cons_iff.mp unique).2
  refine Option.ext fun item => ?_
  rw [afterKeyed.find_eq_some_iff agree, contents.mem_iff]
  split
  · next here =>
      subst here
      constructor
      · rintro ⟨member, same⟩
        rw [unique.eq_of_key member (by simp) same]
      · rintro ⟨⟩
        exact ⟨by simp, rfl⟩
  · next elsewhere =>
      rw [later.find_eq_some_iff, mem_cons]
      constructor
      · rintro ⟨rfl | member, same⟩
        · exact absurd same.symm elsewhere
        · exact ⟨member, same⟩
      · rintro ⟨member, same⟩
        exact ⟨.inr member, same⟩

section

variable (keyed : Keyed hash key map) (agree : KeyAgree hash key keyHash keyEq)

include keyed agree

/-- An insert under a new key adds this key; a refused one changes no search. -/
theorem Keyed.insert_cases (entry : E) (fresh : map.findFirst hash (keyHash (key entry)) (keyEq (key entry)) = none)
    (alloc : Allocator) :
    (∃ after rest, map.insert hash entry alloc = (.ok, after, rest) ∧ alloc.Spent rest ∧
      Keyed hash key after ∧ ∀ wanted, after.findFirst hash (keyHash wanted) (keyEq wanted) =
        if wanted = key entry then some entry else map.findFirst hash (keyHash wanted) (keyEq wanted)) ∨
    (∃ after rest, map.insert hash entry alloc = (.nomem, after, rest) ∧ alloc.Refused rest ∧
      Keyed hash key after ∧ ∀ wanted, after.findFirst hash (keyHash wanted) (keyEq wanted) =
        map.findFirst hash (keyHash wanted) (keyEq wanted)) := by
  rcases Hashmap.insert_cases keyed.wf entry alloc with
    ⟨after, rest, linked, spent, wf, contents⟩ | ⟨after, rest, failed, refused, wf, contents⟩
  · have absent := (keyed.find_eq_none_iff agree).mp fresh
    have afterKeyed : Keyed hash key after :=
      ⟨wf, (UniqueKeys.cons_iff.mpr ⟨absent, keyed.unique⟩).perm contents.symm⟩
    refine .inl ⟨after, rest, linked, spent, afterKeyed, fun wanted => ?_⟩
    rw [afterKeyed.find_cons agree contents]
    split
    · rfl
    · refine Option.ext fun item => ?_
      rw [keyed.unique.find_eq_some_iff, keyed.find_eq_some_iff agree]
  · exact .inr ⟨after, rest, failed, refused, keyed.find_perm wf agree contents⟩

/-- A write to one entry is visible under its key only. -/
theorem Keyed.update {wanted : K} {entry : E} (change : E → E) (sameKey : ∀ held, key (change held) = key held)
    (found : map.findFirst hash (keyHash wanted) (keyEq wanted) = some entry) :
    Keyed hash key (map.updateEntry hash (keyHash wanted) (keyEq wanted) change) ∧
      ∀ other, (map.updateEntry hash (keyHash wanted) (keyEq wanted) change).findFirst hash
        (keyHash other) (keyEq other) =
        if other = wanted then some (change entry) else map.findFirst hash (keyHash other) (keyEq other) := by
  have sameHash : ∀ held, hash (change held) = hash held := by
    intro held
    rw [agree.hash_eq, agree.hash_eq, sameKey]
  obtain ⟨wf, others, whole, changed⟩ := updateEntry_spec keyed.wf change sameHash found
  have here : key entry = wanted := ((keyed.find_eq_some_iff agree).mp found).2
  have split := UniqueKeys.cons_iff.mp (keyed.unique.perm whole)
  have afterKeyed : Keyed hash key (map.updateEntry hash (keyHash wanted) (keyEq wanted) change) := by
    refine ⟨wf, (UniqueKeys.cons_iff.mpr ⟨?_, split.2⟩).perm changed.symm⟩
    rw [sameKey]
    exact split.1
  refine ⟨afterKeyed, fun other => ?_⟩
  rw [afterKeyed.find_cons agree changed, sameKey, here]
  by_cases same : other = wanted
  · rw [if_pos same, if_pos same]
  · rw [if_neg same, if_neg same, keyed.find_cons agree whole, here, if_neg same]

/-- A removed key is gone and every other key stays. -/
theorem Keyed.removeOne {wanted : K} {entry : E}
    (found : map.findFirst hash (keyHash wanted) (keyEq wanted) = some entry) :
    Keyed hash key (map.removeOne hash (keyHash wanted) (keyEq wanted)) ∧
      ∀ other, (map.removeOne hash (keyHash wanted) (keyEq wanted)).findFirst hash
        (keyHash other) (keyEq other) =
        if other = wanted then none else map.findFirst hash (keyHash other) (keyEq other) := by
  obtain ⟨wf, whole⟩ := removeOne_spec keyed.wf found
  have here : key entry = wanted := ((keyed.find_eq_some_iff agree).mp found).2
  have split := UniqueKeys.cons_iff.mp (keyed.unique.perm whole)
  have afterKeyed : Keyed hash key (map.removeOne hash (keyHash wanted) (keyEq wanted)) := ⟨wf, split.2⟩
  refine ⟨afterKeyed, fun other => ?_⟩
  split_ifs with same
  · subst same
    rw [afterKeyed.find_eq_none_iff agree]
    intro held member
    rw [← here]
    exact split.1 held member
  · rw [keyed.find_cons agree whole, here, if_neg same]
    refine Option.ext fun item => ?_
    rw [afterKeyed.find_eq_some_iff agree, split.2.find_eq_some_iff]

end

end Keyed

end Libbgp.Hashmap
