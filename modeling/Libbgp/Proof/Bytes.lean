/-
Numbers, addresses and prefixes as bytes: what is written can be read, and what is read can be written.
-/

import Libbgp.Construction.Route
import Libbgp.Construction.Wire
import Libbgp.Library.Words

namespace Libbgp

open Library List Words

namespace Work

variable {A B : Type}
  {work : Work A} {value : A} {result : Except Fault A} {first : Work A} {next : A → Work B} {last : B} {bad : Prop}
  {fault : Fault}

/-- The outcome when all memory is granted. -/
def outcome (work : Work A) : Except Fault A := (work.run.run 0).1

/-- The work ends with this value, whatever was asked for before. -/
def Gives (work : Work A) (value : A) : Prop := ∀ count, (work.run.run count).1 = .ok value

/-- The work ended with this value once. -/
def Yields (work : Work A) (value : A) : Prop := ∃ count, (work.run.run count).1 = .ok value

theorem Gives.outcome (gives : Gives work value) : work.outcome = .ok value := gives 0

theorem Yields.ofOutcome (done : work.outcome = .ok value) : Yields work value := ⟨0, done⟩

theorem gives_pure (value : A) : Gives (pure value) value := fun _ => rfl

theorem gives_ask (count : Nat) : Gives (ask count) () := fun _ => rfl

theorem gives_ofExcept (done : result = .ok value) : Gives (ofExcept result) value := by
  subst done
  exact fun _ => rfl

theorem run_bind (first : Work A) (next : A → Work B) (count : Nat) : (first >>= next).run.run count =
    match first.run.run count with
    | (.ok value, spent) => (next value).run.run spent
    | (.error fault, spent) => (.error fault, spent) := by
  rw [ExceptT.run_bind, StateT.run_bind]
  rcases first.run.run count with ⟨result, spent⟩
  cases result <;> rfl

theorem Gives.bind (start : Gives first value) (rest : Gives (next value) last) : Gives (first >>= next) last := by
  intro count
  have done := start count
  rw [run_bind]
  rcases ran : first.run.run count with ⟨result, spent⟩
  rw [ran] at done
  subst done
  exact rest spent

theorem gives_of_eq {last : A} (same : value = last) : Gives (pure value) last := same ▸ gives_pure value

theorem Yields.unique {last : A} (yields : Yields work value) (gives : Gives work last) : value = last := by
  obtain ⟨count, done⟩ := yields
  exact Except.ok.inj (done.symm.trans (gives count))

/-- A check that passes. -/
theorem Gives.check [Decidable bad] (good : ¬ bad) (gives : Gives work value) :
    Gives (if bad then throw fault else work) value := by
  rw [if_neg good]
  exact gives

theorem yields_pure {last : A} (yields : Yields (pure value) last) : value = last := by
  obtain ⟨count, done⟩ := yields
  exact Except.ok.inj done

theorem not_yields_throw : ¬ Yields (throw fault) value := by
  rintro ⟨count, done⟩
  cases done

theorem Yields.check [Decidable bad] (yields : Yields (if bad then throw fault else work) value) :
    ¬ bad ∧ Yields work value := by
  split at yields
  case isTrue => exact absurd yields not_yields_throw
  case isFalse good => exact ⟨good, yields⟩

theorem yields_ofExcept (yields : Yields (ofExcept result) value) : result = .ok value := by
  obtain ⟨count, done⟩ := yields
  cases result with
  | error fault => cases done
  | ok other => exact done

theorem Yields.bind (yields : Yields (first >>= next) last) :
    ∃ value, Yields first value ∧ Yields (next value) last := by
  obtain ⟨count, done⟩ := yields
  rw [run_bind] at done
  rcases ran : first.run.run count with ⟨result, spent⟩
  rw [ran] at done
  cases result with
  | error fault => cases done
  | ok value => exact ⟨value, ⟨count, by rw [ran]⟩, ⟨spent, done⟩⟩

/-- A step that succeeds is followed by another one that does. -/
theorem exists_of_bind {first : Except Fault A} {next : A → Except Fault B} (done : (first >>= next) = .ok last) :
    ∃ value, first = .ok value ∧ next value = .ok last := by
  cases first with
  | error fault => cases done
  | ok value => exact ⟨value, rfl, done⟩

/-- A check that was passed. -/
theorem guard_ok [Decidable bad] (done : (if bad then .error fault else result) = .ok value) :
    ¬ bad ∧ result = .ok value := by
  split at done
  case isTrue => cases done
  case isFalse good => exact ⟨good, done⟩

end Work

section Numbers

variable {bytes : Bytes} {width : Nat} (number : Nat)

theorem readBe_eq (bytes : Bytes) : readBe bytes = value bytes := rfl

theorem be16_eq : be16 number = write 2 number := by
  simp [be16, write, Nat.shiftRight_eq_div_pow]

theorem be32_eq : be32 number = write 4 number := by
  simp [be32, write, Nat.shiftRight_eq_div_pow, Nat.div_div_eq_div_mul]

@[simp] theorem length_be16 : (be16 number).length = 2 := rfl

theorem readBe_be16 {number : Nat} (small : number < 65536) : readBe (be16 number) = number := by
  rw [be16_eq, readBe_eq, value_write]
  exact Nat.mod_eq_of_lt small

theorem be16_readBe (length : bytes.length = 2) : be16 (readBe bytes) = bytes := by
  rw [be16_eq, readBe_eq, write_value 2 length]

section

variable (whole : 8 ∣ width)

include whole

/-- An address in memory order is its number in as many bytes as it has. -/
theorem addrWrite_eq (addr : BitVec width) : addrWrite addr = write (width / 8) addr.toNat := by
  obtain ⟨octets, rfl⟩ := whole
  have each : ∀ (octets number : Nat), (range octets).map
      (fun position => UInt8.ofNat (number >>> (8 * octets - 8 * (position + 1)) % 256)) = write octets number := by
    intro octets
    induction octets with
    | zero => exact fun _ => rfl
    | succ octets ih =>
      intro number
      rw [write, ← ih (number / 256), range_succ, map_append, map_singleton]
      congr 1
      · refine map_congr_left fun position inside => ?_
        have shift : 8 * (octets + 1) - 8 * (position + 1) = 8 + (8 * octets - 8 * (position + 1)) := by
          have := mem_range.mp inside
          omega
        rw [shift, Nat.shiftRight_add, Nat.shiftRight_eq_div_pow number 8]
      · exact congrArg (· :: []) (UInt8.toNat_inj.mp (by simp))
  rw [addrWrite, addrBytes, map_map, Nat.mul_div_cancel_left _ (by decide)]
  exact each octets addr.toNat

theorem length_addrWrite (addr : BitVec width) : (addrWrite addr).length = width / 8 := by
  rw [addrWrite_eq whole, length_write]

theorem value_addrWrite (addr : BitVec width) : value (addrWrite addr) = addr.toNat := by
  rw [addrWrite_eq whole, value_write, Nat.mod_eq_of_lt]
  obtain ⟨octets, rfl⟩ := whole
  rw [Nat.mul_div_cancel_left _ (by decide), show 256 = 2 ^ 8 from rfl, ← pow_mul]
  exact addr.isLt

/-- The octets of an address fill it from its high end. -/
theorem toNat_addrOfBytes (fits : bytes.length ≤ width / 8) :
    (addrOfBytes width bytes).toNat = value bytes * 256 ^ (width / 8 - bytes.length) := by
  have padded : value (bytes ++ replicate (width / 8 - bytes.length) 0) =
      value bytes * 256 ^ (width / 8 - bytes.length) := by
    rw [value_append, length_replicate, value_replicate_zero, Nat.add_zero]
  have small := @Words.value_lt (bytes ++ replicate (width / 8 - bytes.length) 0)
  rw [length_append, length_replicate, Nat.add_sub_of_le fits] at small
  obtain ⟨octets, rfl⟩ := whole
  rw [Nat.mul_div_cancel_left _ (by decide)] at small padded ⊢
  rw [addrOfBytes, BitVec.toNat_ofNat, readBe_eq, Nat.mul_div_cancel_left _ (by decide), Nat.mod_eq_of_lt, padded]
  rwa [pow_mul]

theorem addrWrite_addrOfBytes (length : bytes.length = width / 8) : addrWrite (addrOfBytes width bytes) = bytes := by
  refine value_injective (by rw [length_addrWrite whole, length]) ?_
  rw [value_addrWrite whole, toNat_addrOfBytes whole length.le, length, Nat.sub_self, pow_zero, Nat.mul_one]

theorem addrOfBytes_addrWrite (addr : BitVec width) : addrOfBytes width (addrWrite addr) = addr := by
  have length := length_addrWrite whole addr
  refine BitVec.eq_of_toNat_eq ?_
  rw [toNat_addrOfBytes whole length.le, length, Nat.sub_self, pow_zero, Nat.mul_one, value_addrWrite whole]

end

end Numbers

/-- The prefix with its host bits cleared. -/
def Prefix.cleared {width : Nat} (pfx : Prefix width) : Prefix width :=
  ⟨(pfx.addr >>> (width - pfx.len)) <<< (width - pfx.len), pfx.len⟩

section Prefixes

variable {width len : Nat} {octets rest : Bytes} {pfx : Prefix width}

@[simp] theorem Prefix.cleared_len (pfx : Prefix width) : pfx.cleared.len = pfx.len := rfl

theorem toNat_cleared (pfx : Prefix width) :
    pfx.cleared.addr.toNat = pfx.addr.toNat / 2 ^ (width - pfx.len) * 2 ^ (width - pfx.len) := by
  rw [Prefix.cleared, BitVec.toNat_shiftLeft, BitVec.toNat_ushiftRight, Nat.shiftRight_eq_div_pow, Nat.shiftLeft_eq,
    Nat.mod_eq_of_lt]
  exact lt_of_le_of_lt (Nat.div_mul_le_self _ _) pfx.addr.isLt

@[simp] theorem length_maskLast : (maskLast len octets).length = octets.length := by
  rw [maskLast]
  split <;> simp

theorem toNat_partialMask (byte : UInt8) {bits : Nat} (few : bits < 8) :
    (byte &&& UInt8.ofNat (partialMask bits)).toNat = byte.toNat / 2 ^ (8 - bits) * 2 ^ (8 - bits) := by
  have each : ∀ number < 256, ∀ bits < 8, number &&& partialMask bits = number / 2 ^ (8 - bits) * 2 ^ (8 - bits) := by
    decide +kernel
  have small : partialMask bits < 2 ^ 8 := Nat.mod_lt _ (by decide)
  rw [UInt8.toNat_and, UInt8.toNat_ofNat', Nat.mod_eq_of_lt small]
  exact each _ byte.toNat_lt bits few

theorem modify_last (early : Bytes) (last : UInt8) (change : UInt8 → UInt8) :
    (early ++ [last]).modify early.length change = early ++ [change last] := by
  induction early with
  | nil => rfl
  | cons byte early ih => simpa using ih

/-- Clearing host bits in the last byte divides the number by the right power of two and multiplies it again. -/
theorem value_maskLast (length : octets.length = prefixOctets len) : value (maskLast len octets) =
    value octets / 2 ^ (8 * prefixOctets len - len) * 2 ^ (8 * prefixOctets len - len) := by
  rw [maskLast]
  split
  · rename_i whole
    have none : 8 * prefixOctets len - len = 0 := by rw [prefixOctets]; omega
    rw [none, pow_zero, Nat.div_one, Nat.mul_one]
  · rename_i broken
    have spare : 8 * prefixOctets len - len = 8 - len % 8 := by rw [prefixOctets]; omega
    have positive : 0 < prefixOctets len := by rw [prefixOctets]; omega
    rcases eq_nil_or_concat octets with rfl | ⟨early, last, rfl⟩
    · exact absurd length (by simp; omega)
    rw [concat_eq_append] at length ⊢
    have place : prefixOctets len - 1 = early.length := by
      rw [← length]
      simp
    rw [place, modify_last]
    simp only [value_append, value_cons, length_cons, length_nil, Nat.zero_add, pow_one, pow_zero,
      Nat.mul_one, value_nil, Nat.add_zero]
    rw [toNat_partialMask last (Nat.mod_lt _ (by decide)), spare]
    have whole : 256 = 2 ^ (len % 8) * 2 ^ (8 - len % 8) := by
      rw [← pow_add, Nat.add_sub_of_le (by omega)]
      rfl
    rw [whole, ← Nat.mul_assoc, Nat.add_comm _ last.toNat, Nat.add_mul_div_right _ _ (by positivity)]
    ring

theorem prefixOctets_le (whole : 8 ∣ width) (fits : len ≤ width) : prefixOctets len ≤ width / 8 := by
  rw [prefixOctets]
  omega

/-- The address that is read from the bytes of a prefix. -/
theorem toNat_addrOfBytes_maskLast (whole : 8 ∣ width) (fits : len ≤ width)
    (length : octets.length = prefixOctets len) :
    (addrOfBytes width (maskLast len octets)).toNat =
      value octets / 2 ^ (8 * prefixOctets len - len) * 2 ^ (width - len) := by
  have few := prefixOctets_le whole fits
  have exponent : width - len = (8 * prefixOctets len - len) + 8 * (width / 8 - prefixOctets len) := by
    have low : len ≤ 8 * prefixOctets len := by rw [prefixOctets]; omega
    omega
  rw [toNat_addrOfBytes whole (by rwa [length_maskLast, length]), value_maskLast length, length_maskLast,
    length, exponent,
    pow_add, pow_mul]
  ring

theorem prefixWrite_eq (pfx : Prefix width) : prefixWrite pfx =
    UInt8.ofNat pfx.len :: maskLast pfx.len ((addrWrite pfx.addr).take (prefixOctets pfx.len)) := by
  rw [prefixWrite, addrWrite, map_take]

theorem length_prefixWrite (whole : 8 ∣ width) (fits : pfx.len ≤ width) :
    (prefixWrite pfx).length = 1 + prefixOctets pfx.len := by
  rw [prefixWrite_eq, length_cons, length_maskLast, length_take_of_le, Nat.add_comm]
  rw [length_addrWrite whole]
  exact prefixOctets_le whole fits

/-- The bytes of a prefix that are written, without their host bits. -/
theorem value_prefixBytes (whole : 8 ∣ width) (pfx : Prefix width) (fits : pfx.len ≤ width) :
    value ((addrWrite pfx.addr).take (prefixOctets pfx.len)) =
      pfx.addr.toNat / 2 ^ (width - 8 * prefixOctets pfx.len) := by
  have few := prefixOctets_le whole fits
  rw [value_take, length_addrWrite whole, value_addrWrite whole, show 256 = 2 ^ 8 from rfl, ← pow_mul]
  congr 2
  omega

theorem prefixParse_bytes (cidr : UInt8) (fits : cidr.toNat ≤ width)
    (length : octets.length = prefixOctets cidr.toNat) :
    prefixParse width (cidr :: octets ++ rest) =
      pure (⟨addrOfBytes width (maskLast cidr.toNat octets), cidr.toNat⟩, rest) := by
  have enough : ¬ (octets ++ rest).length < prefixOctets cidr.toNat := by
    rw [length_append, length]
    omega
  simp only [cons_append, prefixParse, Nat.not_lt.mpr fits, enough, if_false, take_left' length,
    drop_left' length]

/-- A prefix that is written is read back without its host bits. -/
theorem prefixParse_gives (whole : 8 ∣ width) (small : width < 256) {pfx : Prefix width} (fits : pfx.len ≤ width) :
    Work.Gives (prefixParse width (prefixWrite pfx ++ rest)) (pfx.cleared, rest) := by
  have cidr : (UInt8.ofNat pfx.len).toNat = pfx.len := by
    rw [UInt8.toNat_ofNat', Nat.mod_eq_of_lt (show pfx.len < 2 ^ 8 by omega)]
  have few := prefixOctets_le whole fits
  have taken : ((addrWrite pfx.addr).take (prefixOctets pfx.len)).length = prefixOctets pfx.len := by
    rw [length_take_of_le]
    rwa [length_addrWrite whole]
  have low : pfx.len ≤ 8 * prefixOctets pfx.len := by rw [prefixOctets]; omega
  have same : addrOfBytes width
    (maskLast pfx.len (maskLast pfx.len ((addrWrite pfx.addr).take (prefixOctets pfx.len)))) =
      pfx.cleared.addr := by
    refine BitVec.eq_of_toNat_eq ?_
    rw [toNat_addrOfBytes_maskLast whole fits (by rw [length_maskLast, taken]), value_maskLast taken,
      Nat.mul_div_cancel _ (by positivity), value_prefixBytes whole pfx fits, toNat_cleared, Nat.div_div_eq_div_mul,
      ← pow_add]
    congr 3
    omega
  have parsed := @prefixParse_bytes width (maskLast pfx.len ((addrWrite pfx.addr).take (prefixOctets pfx.len))) rest
    (UInt8.ofNat pfx.len) (by rwa [cidr]) (by rw [length_maskLast, taken, cidr])
  rw [prefixWrite_eq, parsed, cidr, same]
  exact Work.gives_pure _

/-- The bytes of a prefix that was read, and what is written for it. -/
structure PrefixRead (bytes : Bytes) (pfx : Prefix width) (rest : Bytes) (cidr : UInt8) (octets : Bytes) : Prop where
  bytes : bytes = cidr :: octets ++ rest
  length : octets.length = prefixOctets cidr.toNat
  len : pfx.len = cidr.toNat
  fits : pfx.len ≤ width
  cleared : pfx.cleared = pfx
  written : prefixWrite pfx = cidr :: maskLast cidr.toNat octets

/-- What is read as a prefix is its encoding, up to host bits. -/
theorem prefixParse_yields (whole : 8 ∣ width) {bytes : Bytes}
    (yields : Work.Yields (prefixParse width bytes) (pfx, rest)) :
    ∃ cidr octets, PrefixRead bytes pfx rest cidr octets := by
  cases bytes with
  | nil => exact absurd yields Work.not_yields_throw
  | cons cidr tail =>
    simp only [prefixParse] at yields
    split at yields
    · exact absurd yields Work.not_yields_throw
    split at yields
    · exact absurd yields Work.not_yields_throw
    rename_i fits enough
    have fits := Nat.not_lt.mp fits
    have enough := Nat.not_lt.mp enough
    obtain ⟨rfl, rfl⟩ := Prod.mk.inj (Work.yields_pure yields)
    have taken : (tail.take (prefixOctets cidr.toNat)).length = prefixOctets cidr.toNat := length_take_of_le enough
    have addr := toNat_addrOfBytes_maskLast whole fits taken
    have low : cidr.toNat ≤ 8 * prefixOctets cidr.toNat := by rw [prefixOctets]; omega
    have few := prefixOctets_le whole fits
    have roomy : 8 * prefixOctets cidr.toNat ≤ width := by omega
    refine ⟨cidr, tail.take (prefixOctets cidr.toNat), by simp, taken, rfl, fits, ?_, ?_⟩
    · refine congrArg (fun addr => Prefix.mk addr cidr.toNat) (BitVec.eq_of_toNat_eq ?_)
      have clear := toNat_cleared (⟨addrOfBytes width (maskLast cidr.toNat (tail.take (prefixOctets cidr.toNat))),
        cidr.toNat⟩ : Prefix width)
      refine clear.trans ?_
      dsimp only
      rw [addr, Nat.mul_div_cancel _ (by positivity)]
    · rw [prefixWrite_eq]
      dsimp only
      refine congrArg₂ cons (UInt8.ofNat_toNat) ?_
      refine value_injective ?_ ?_
      · rw [length_maskLast, length_maskLast, taken, length_take_of_le]
        rwa [length_addrWrite whole]
      · have bytes := value_prefixBytes whole (⟨addrOfBytes width (maskLast cidr.toNat (tail.take
          (prefixOctets cidr.toNat))), cidr.toNat⟩ : Prefix width) fits
        dsimp only at bytes
        rw [value_maskLast (by rw [length_take_of_le]; rwa [length_addrWrite whole]), value_maskLast taken, bytes, addr]
        have exponent : width - cidr.toNat =
            (8 * prefixOctets cidr.toNat - cidr.toNat) + (width - 8 * prefixOctets cidr.toNat) := by omega
        rw [exponent, pow_add, ← Nat.mul_assoc, Nat.mul_div_cancel _ (by positivity),
          Nat.mul_div_cancel _ (by positivity)]

end Prefixes

/-- Bytes that list prefixes, with the host bits of each prefix cleared. Each takes a byte at least, so their
number bounds the recursion. -/
def clearPrefixes : Nat → Bytes → Bytes
  | 0, bytes => bytes
  | _ + 1, [] => []
  | fuel + 1, cidr :: rest =>
    let octets := prefixOctets cidr.toNat
    cidr :: maskLast cidr.toNat (rest.take octets) ++ clearPrefixes fuel (rest.drop octets)

section PrefixLists

variable {width : Nat} {prefixes : List (Prefix width)} {bytes : Bytes}

/-- Written prefixes are read back without their host bits. -/
theorem parsePrefixes_gives (whole : 8 ∣ width) (small : width < 256) (fits : ∀ pfx ∈ prefixes, pfx.len ≤ width)
    (fuel count cap : Nat) (enough : (prefixes.flatMap prefixWrite).length ≤ fuel) :
    Work.Gives (parsePrefixes width fuel count cap (prefixes.flatMap prefixWrite)) (prefixes.map Prefix.cleared) := by
  induction prefixes generalizing fuel count cap with
  | nil => cases fuel <;> exact Work.gives_pure _
  | cons pfx rest ih =>
    have length := length_prefixWrite whole (fits pfx mem_cons_self)
    rw [flatMap_cons, length_append, length] at enough
    obtain ⟨fuel, rfl⟩ : ∃ less, fuel = less + 1 := ⟨fuel - 1, by omega⟩
    have present : (prefixWrite pfx ++ rest.flatMap prefixWrite).isEmpty = false := rfl
    rw [flatMap_cons, parsePrefixes, present, if_neg (by decide)]
    refine (prefixParse_gives whole small (fits pfx mem_cons_self)).bind ?_
    refine (Work.gives_ask _).bind ?_
    refine (ih (fun other member => fits other (mem_cons_of_mem _ member)) fuel _ _ (by omega)).bind ?_
    exact Work.gives_pure _

theorem prefixesParse_gives (whole : 8 ∣ width) (small : width < 256) (fits : ∀ pfx ∈ prefixes, pfx.len ≤ width) :
    Work.Gives (prefixesParse width (prefixes.flatMap prefixWrite)) (prefixes.map Prefix.cleared) :=
  parsePrefixes_gives whole small fits _ _ _ (Nat.le_refl _)

/-- What is known of prefixes that were read: their lengths fit, their host bits are zero, and they are written
as the bytes that were read, without host bits. -/
structure PrefixesRead (bytes : Bytes) (prefixes : List (Prefix width)) : Prop where
  fits : ∀ pfx ∈ prefixes, pfx.len ≤ width
  cleared : prefixes.map Prefix.cleared = prefixes
  written : prefixes.flatMap prefixWrite = clearPrefixes bytes.length bytes
  length : (prefixes.flatMap prefixWrite).length = bytes.length

/-- Fuel for every octet is enough. -/
theorem clearPrefixes_fuel (fuel : Nat) (enough : bytes.length ≤ fuel) :
    clearPrefixes fuel bytes = clearPrefixes bytes.length bytes := by
  induction fuel using Nat.strong_induction_on generalizing bytes with
  | _ fuel ih =>
    cases bytes with
    | nil => cases fuel <;> rfl
    | cons cidr rest =>
      rw [length_cons] at enough
      obtain ⟨fuel, rfl⟩ : ∃ less, fuel = less + 1 := ⟨fuel - 1, by omega⟩
      have shorter : (rest.drop (prefixOctets cidr.toNat)).length ≤ rest.length := by
        rw [length_drop]
        omega
      rw [length_cons, clearPrefixes, clearPrefixes, ih fuel (by omega) (by omega)]
      congr 1
      by_cases equal : rest.length = fuel
      · rw [equal, ih fuel (by omega) (by omega)]
      · rw [ih rest.length (by omega) shorter]

/-- What is read as prefixes is their encoding. -/
theorem parsePrefixes_yields (whole : 8 ∣ width) (fuel count cap : Nat) (enough : bytes.length ≤ fuel)
    (yields : Work.Yields (parsePrefixes width fuel count cap bytes) prefixes) : PrefixesRead bytes prefixes := by
  induction fuel generalizing count cap bytes prefixes with
  | zero =>
    obtain rfl := length_eq_zero_iff.mp (Nat.le_zero.mp enough)
    obtain rfl := Work.yields_pure yields
    exact ⟨fun _ member => (nomatch member), rfl, rfl, rfl⟩
  | succ fuel ih =>
    rw [parsePrefixes] at yields
    split at yields
    · rename_i empty
      obtain rfl := isEmpty_iff.mp empty
      obtain rfl := Work.yields_pure yields
      exact ⟨fun _ member => (nomatch member), rfl, rfl, rfl⟩
    obtain ⟨⟨pfx, rest⟩, first, yields⟩ := yields.bind
    obtain ⟨-, -, yields⟩ := yields.bind
    obtain ⟨more, later, yields⟩ := yields.bind
    obtain rfl := Work.yields_pure yields
    obtain ⟨cidr, octets, read⟩ := prefixParse_yields whole first
    obtain rfl := read.bytes
    have total : (cidr :: octets ++ rest).length = 1 + octets.length + rest.length := by
      simp
      omega
    have others := ih _ _ (by omega) later
    have head := length_prefixWrite whole read.fits
    refine ⟨?_, ?_, ?_, ?_⟩
    · intro other member
      rcases mem_cons.mp member with rfl | inside
      · exact read.fits
      · exact others.fits other inside
    · rw [map_cons, read.cleared, others.cleared]
    · have unfolded : clearPrefixes (octets.length + rest.length + 1) (cidr :: (octets ++ rest)) =
          cidr :: maskLast cidr.toNat octets ++ clearPrefixes (octets.length + rest.length) rest := by
        rw [clearPrefixes, take_left' read.length, drop_left' read.length]
      rw [flatMap_cons, read.written, others.written, total,
        show 1 + octets.length + rest.length = octets.length + rest.length + 1 by omega,
        show cidr :: octets ++ rest = cidr :: (octets ++ rest) from rfl, unfolded,
        clearPrefixes_fuel (octets.length + rest.length) (Nat.le_add_left _ _)]
    · rw [flatMap_cons, length_append, head, others.length, total, read.len, read.length]

theorem prefixesParse_yields (whole : 8 ∣ width) (yields : Work.Yields (prefixesParse width bytes) prefixes) :
    PrefixesRead bytes prefixes :=
  parsePrefixes_yields whole _ _ _ (Nat.le_refl _) yields

end PrefixLists

end Libbgp
