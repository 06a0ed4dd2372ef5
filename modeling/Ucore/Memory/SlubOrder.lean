import Mathlib.Algebra.Group.Int.Defs
import Ucore.Memory.Slub

namespace Ucore
namespace Memory

open Library

/-!
# The order of a slab

The size of an object is an `int`, which `kmem_cache_create` takes as it is.
The arithmetic is followed here with the widths of its types: `sizeof` makes
it one of `size_t`, and the division that is left when no order has room for
four objects is one of `int`.

The order and the number of objects travel in one word, the order above the
16 bits of the number.
-/

namespace Slub

/-- The value of a conversion to `size_t`. -/
def toSizeT (value : Int) : Int := value % 2 ^ 64

/-- The value of a conversion to `unsigned int`. -/
def toUnsigned (value : Int) : Int := value % 2 ^ 32

/-- The value of a conversion to `int`. -/
def toSigned (value : Int) : Int := value.bmod (2 ^ 32)

/-- `cache->size`, from the size that is asked for; the mask clears three
bits. -/
def cacheSize (size : Int) : Int :=
  let aligned := toSigned (toSizeT (toSizeT size + 8 - 1) / 8 * 8)
  if toSizeT aligned < 8 then 8 else aligned

/-- The loop of `calculate_order`, from an order on, and what comes after it -/
def searchOrder (size : Int) : Nat -> Nat -> Nat × Int
  | 0, _ => (10, ((pageSize <<< 10 : Nat) : Int).tdiv size)
  | fuel + 1, order =>
      let slabSize := toUnsigned ((1 <<< order : Nat) * pageSize)
      let numObjects := toUnsigned (toSizeT (slabSize - sizeofPage) / toSizeT size)
      if numObjects >= 4 then (order, numObjects) else searchOrder size fuel (order + 1)

/-- The pair that `calculate_order` arrives at. -/
def chosen (size : Int) : Nat × Int := searchOrder size 11 0

/-- `(order << 16) | num_objects` -/
def packOrder (pair : Nat × Int) : BitVec 32 := (BitVec.ofNat 32 pair.1 <<< 16) ||| BitVec.ofInt 32 pair.2

/-- The fields of `struct kmem_cache` that the initialisation of a slab reads. -/
structure SizedCache where
  size : Int
  /-- `oo.x` -/
  oo : BitVec 32

/-- `kmem_cache_create`, for these fields -/
def createCache (size : BitVec 32) : SizedCache :=
  let size := cacheSize size.toInt
  ⟨size, packOrder (chosen size)⟩

/-- `oo.x >> 16` -/
def orderOf (x : BitVec 32) : Nat := (x >>> 16).toNat

/-- `oo.x & 0xffff` -/
def objectsOf (x : BitVec 32) : Nat := (x &&& 0xffff).toNat

/-- The loop of `init_slab_page`, from object `i` on: the memory and the list -/
def linkObjects (size : Int) (start : Nat) : Nat -> Nat -> (Nat -> Nat) -> Nat -> (Nat -> Nat) × Nat
  | 0, _, memory, freelist => (memory, freelist)
  | fuel + 1, i, memory, freelist =>
      let obj := start + (toUnsigned (i * toUnsigned size)).toNat
      linkObjects size start fuel (i + 1) (Function.update memory obj freelist) obj

/-- `init_slab_page`: the memory and `page->freelist` -/
def initSlabPage (cache : SizedCache) (memory : Nat -> Nat) (start : Nat) : (Nat -> Nat) × Nat :=
  linkObjects cache.size start (objectsOf cache.oo) 0 memory 0

/-- The bytes that `alloc_pages` gives for the order of the cache -/
def SizedCache.span (cache : SizedCache) : Nat := 2 ^ orderOf cache.oo * pageSize

/-- A slab has room for the objects, their number and the order are read back,
and so many objects are linked inside the slab. -/
structure SizedCache.Ordered (cache : SizedCache) : Prop where
  some : 1 <= objectsOf cache.oo
  room : objectsOf cache.oo * cache.size <= cache.span
  packed : chosen cache.size = (orderOf cache.oo, (objectsOf cache.oo : Int))
  linked : forall memory start, 0 < start -> Exists fun objects =>
    Linked (initSlabPage cache memory start).1 (initSlabPage cache memory start).2 objects /\
      objects.length = objectsOf cache.oo /\
      forall object, object ∈ objects -> start <= object /\ (object : Int) + cache.size <= (start + cache.span : Nat)

/-! ## The size -/

/-- The sizes for which the cache has objects of at least a word that a slab
has room for. -/
theorem cacheSize_bounds (size : BitVec 32) :
    (8 <= cacheSize size.toInt /\ cacheSize size.toInt <= 2 ^ 22) <-> -7 <= size.toInt /\ size.toInt <= 2 ^ 22 := by
  have low := BitVec.le_toInt size
  have high := BitVec.toInt_lt (x := size)
  generalize size.toInt = value at low high ⊢
  unfold cacheSize toSigned toSizeT Int.bmod
  dsimp only
  omega

theorem cacheSize_range (size : Int) : (-2 ^ 31 <= cacheSize size /\ cacheSize size < 2 ^ 31) /\
    (cacheSize size < 0 \/ 8 <= cacheSize size) := by
  unfold cacheSize toSigned toSizeT Int.bmod
  dsimp only
  omega

/-! ## The word -/

theorem packOrder_toNat {order objects : Nat} (small : order < 2 ^ 16) (fits : objects < 2 ^ 16) :
    (packOrder (order, objects)).toNat = order * 2 ^ 16 + objects := by
  have shifted : order <<< 16 < 2 ^ 32 := by
    rw [Nat.shiftLeft_eq]
    omega
  have number : objects < 2 ^ 32 := by omega
  unfold packOrder
  rw [BitVec.toNat_or, BitVec.toNat_shiftLeft, BitVec.toNat_ofNat, BitVec.ofInt_natCast, BitVec.toNat_ofNat,
    Nat.mod_eq_of_lt number, Nat.mod_eq_of_lt (by omega : order < 2 ^ 32), Nat.mod_eq_of_lt shifted,
    ← Nat.shiftLeft_add_eq_or_of_lt fits, Nat.shiftLeft_eq]

theorem unpack_packOrder {order objects : Nat} (small : order < 2 ^ 16) (fits : objects < 2 ^ 16) :
    orderOf (packOrder (order, objects)) = order /\ objectsOf (packOrder (order, objects)) = objects := by
  have word := packOrder_toNat small fits
  unfold orderOf objectsOf
  constructor
  · rw [BitVec.toNat_ushiftRight, word, Nat.shiftRight_eq_div_pow]
    omega
  · rw [BitVec.toNat_and, word]
    change (order * 2 ^ 16 + objects) &&& (2 ^ 16 - 1) = objects
    rw [Nat.and_two_pow_sub_one_eq_mod]
    omega

/-! ## The search -/

theorem pages_bounds {order : Nat} (below : order <= 10) : (1 : Int) <= 2 ^ order /\ (2 : Int) ^ order <= 1024 := by
  have low : 1 <= 2 ^ order := Nat.one_le_two_pow
  have high : 2 ^ order <= 2 ^ 10 := Nat.pow_le_pow_right Nat.two_pos below
  have cast : ((2 ^ order : Nat) : Int) = 2 ^ order := Int.natCast_pow 2 order
  rw [← cast]
  omega

/-- The bytes that a slab has beside its `struct page` do not wrap. -/
theorem slabSize_eq {order : Nat} (below : order <= 10) :
    toSizeT (toUnsigned ((1 <<< order : Nat) * pageSize) - sizeofPage) = 2 ^ order * 4096 - 48 := by
  have bounds := pages_bounds below
  have shifted : ((1 <<< order : Nat) : Int) = 2 ^ order := by
    rw [Nat.one_shiftLeft]
    exact Int.natCast_pow 2 order
  rw [shifted]
  unfold toSizeT toUnsigned pageSize sizeofPage
  generalize (2 : Int) ^ order = pages at bounds ⊢
  omega

/-- A turn of the loop, with a size that objects can have -/
theorem searchOrder_succ {size : Int} (word : 8 <= size) (small : size <= 2 ^ 22) (fuel : Nat) {order : Nat}
    (below : order <= 10) : searchOrder size (fuel + 1) order =
      if (2 ^ order * 4096 - 48) / size >= 4 then (order, (2 ^ order * 4096 - 48) / size)
      else searchOrder size fuel (order + 1) := by
  have bounds := pages_bounds below
  have divisor : toSizeT size = size := by
    unfold toSizeT
    omega
  have quotient : toUnsigned ((2 ^ order * 4096 - 48) / size) = (2 ^ order * 4096 - 48) / size := by
    have room : (0 : Int) <= 2 ^ order * 4096 - 48 := by omega
    have low : 0 <= (2 ^ order * 4096 - 48) / size := Int.ediv_nonneg room (by omega)
    have high : (2 ^ order * 4096 - 48) / size <= 2 ^ order * 4096 - 48 := Int.ediv_le_self _ room
    unfold toUnsigned
    exact Int.emod_eq_of_lt low (by omega)
  rw [searchOrder, slabSize_eq below, divisor, quotient]

/-- What the search finds, where the slab before was too small. -/
theorem searchOrder_spec {size : Int} (word : 8 <= size) (small : size <= 2 ^ 22) (fuel order : Nat)
    (total : order + fuel = 11) (tight : order = 0 \/ (2 ^ order * 4096 : Int) < 8 * size + 96) :
    Exists fun found => Exists fun objects : Nat => searchOrder size fuel order = (found, (objects : Int)) /\
      found <= 10 /\ 1 <= objects /\ objects < 2 ^ 16 /\ objects * size <= (2 ^ found * pageSize : Nat) := by
  induction fuel generalizing order with
  | zero =>
      have pages : ((pageSize <<< 10 : Nat) : Int) = 2 ^ 22 := by decide
      have last : order = 11 := by omega
      subst last
      have large : (2 ^ 11 * 4096 : Int) < 8 * size + 96 := tight.resolve_left (by decide)
      have room : 2 ^ 22 / size * size <= 2 ^ 22 := Int.ediv_mul_le _ (by omega)
      have some_ : 1 <= 2 ^ 22 / size := Int.le_ediv_of_mul_le (by omega) (by omega)
      have few : 2 ^ 22 / size < 2 ^ 16 := Int.ediv_lt_of_lt_mul (by omega) (by omega)
      obtain ⟨objects, number⟩ := Int.eq_ofNat_of_zero_le (by omega : 0 <= 2 ^ 22 / size)
      rw [number] at room some_ few
      refine ⟨10, objects, ?_, Nat.le_refl _, by omega, by omega, ?_⟩
      · rw [searchOrder, pages, Int.tdiv_eq_ediv_of_nonneg (by decide), number]
      · have span : ((2 ^ 10 * pageSize : Nat) : Int) = 2 ^ 22 := by decide
        rw [span]
        exact room
  | succ fuel inductionHypothesis =>
      have below : order <= 10 := by omega
      have bounds := pages_bounds below
      have cast : ((2 ^ order * pageSize : Nat) : Int) = 2 ^ order * 4096 := by
        rw [Int.natCast_mul, Int.natCast_pow]
        rfl
      have room := Int.ediv_mul_le (2 ^ order * 4096 - 48) (by omega : size ≠ 0)
      have beyond := Int.lt_ediv_add_one_mul_self (2 ^ order * 4096 - 48) (by omega : 0 < size)
      rw [searchOrder_succ word small fuel below]
      split
      · rename_i enough
        obtain ⟨objects, number⟩ := Int.eq_ofNat_of_zero_le (by omega : 0 <= (2 ^ order * 4096 - 48) / size)
        have few : (2 ^ order * 4096 - 48) / size < 2 ^ 16 := by
          apply Int.ediv_lt_of_lt_mul (by omega)
          rcases tight with first | later
          · rw [first]
            omega
          · omega
        rw [number] at enough room few ⊢
        exact ⟨order, objects, rfl, below, by omega, by omega, by omega⟩
      · rename_i few
        refine inductionHypothesis (order + 1) (by omega) (.inr ?_)
        rw [Int.pow_succ]
        have short : ((2 ^ order * 4096 - 48) / size + 1) * size <= 4 * size :=
          Int.mul_le_mul_of_nonneg_right (by omega) (by omega)
        omega

/-- Otherwise the search ends with no object, or a negative number. -/
theorem searchOrder_none {size : Int} (range : -2 ^ 31 <= size /\ size < 2 ^ 31) (outside : size < 0 \/ 2 ^ 22 < size)
    (fuel order : Nat) (total : order + fuel = 11) : (searchOrder size fuel order).2 <= 0 := by
  induction fuel generalizing order with
  | zero =>
      have pages : ((pageSize <<< 10 : Nat) : Int) = 2 ^ 22 := by decide
      rw [searchOrder, pages]
      rcases outside with negative | large
      · exact Int.tdiv_nonpos_of_nonneg_of_nonpos (by decide) (Int.le_of_lt negative)
      · exact Int.le_of_eq (Int.tdiv_eq_zero_of_lt (by decide) large)
  | succ fuel inductionHypothesis =>
      have below : order <= 10 := by omega
      have bounds := pages_bounds below
      have none_fits : (2 ^ order * 4096 - 48) / toSizeT size = 0 := by
        apply Int.ediv_eq_zero_of_lt
        · omega
        · unfold toSizeT
          omega
      rw [searchOrder, slabSize_eq below, none_fits]
      exact inductionHypothesis (order + 1) (by omega)

/-! ## The objects -/

theorem linkObjects_linked {size : Int} {start : Nat} (word : 8 <= size) (some : 0 < start) (fuel : Nat) :
    forall {i freelist : Nat} {memory : Nat -> Nat} {members : List Nat}, (i + fuel) * size < 2 ^ 32 ->
      Linked memory freelist members ->
      (forall object, object ∈ members -> Exists fun j : Nat => j < i /\ (object : Int) = start + j * size) ->
      Exists fun all => Linked (linkObjects size start fuel i memory freelist).1
          (linkObjects size start fuel i memory freelist).2 all /\ all.length = members.length + fuel /\
        forall object, object ∈ all -> Exists fun j : Nat => j < i + fuel /\ (object : Int) = start + j * size := by
  induction fuel with
  | zero => exact fun _ linked placed => ⟨_, linked, rfl, placed⟩
  | succ fuel inductionHypothesis =>
      intro i freelist memory members fits linked placed
      have next : (i : Int) * size + size <= (i + (fuel + 1 : Nat)) * size := by
        have step : ((i : Int) + 1) * size <= (i + (fuel + 1 : Nat)) * size :=
          Int.mul_le_mul_of_nonneg_right (by omega) (by omega)
        rw [Int.add_mul, Int.one_mul] at step
        exact step
      have low : 0 <= (i : Int) * size := Int.mul_nonneg (by omega) (by omega)
      have offset : toUnsigned (i * toUnsigned size) = i * size := by
        unfold toUnsigned
        rw [Int.mul_emod, Int.emod_emod, ← Int.mul_emod]
        exact Int.emod_eq_of_lt low (by omega)
      have here : ((start + (toUnsigned (i * toUnsigned size)).toNat : Nat) : Int) = start + i * size := by
        rw [offset]
        omega
      have fresh : start + (toUnsigned (i * toUnsigned size)).toNat ∉ members := by
        intro member
        obtain ⟨j, less, same⟩ := placed _ member
        have step : ((j : Int) + 1) * size <= i * size := Int.mul_le_mul_of_nonneg_right (by omega) (by omega)
        rw [Int.add_mul, Int.one_mul] at step
        omega
      have pushed := linked.push fresh (by omega)
      rw [linkObjects]
      have shifted : (((i + 1 : Nat) : Int) + fuel) * size < 2 ^ 32 := by
        have same : ((i + 1 : Nat) : Int) + fuel = i + (fuel + 1 : Nat) := by omega
        rw [same]
        exact fits
      obtain ⟨all, whole, long, within⟩ := inductionHypothesis shifted pushed fun object member => by
        rcases List.mem_cons.mp member with rfl | older
        · exact ⟨i, Nat.lt_succ_self i, here⟩
        · obtain ⟨j, less, same⟩ := placed object older
          exact ⟨j, Nat.lt_succ_of_lt less, same⟩
      refine ⟨all, whole, ?_, fun object member => ?_⟩
      · rw [long, List.length_cons]
        omega
      · obtain ⟨j, less, same⟩ := within object member
        exact ⟨j, by omega, same⟩

/-- The order, the number of objects and their list are right exactly for the
sizes from -7 to 4 MiB. -/
theorem createCache_ordered (size : BitVec 32) :
    (createCache size).Ordered <-> -7 <= size.toInt /\ size.toInt <= 2 ^ 22 := by
  rw [← cacheSize_bounds]
  constructor
  · intro ordered
    by_contra outside
    have range := cacheSize_range size.toInt
    have most := searchOrder_none range.1 (by omega) 11 0 rfl
    have number : (chosen (createCache size).size).2 = objectsOf (createCache size).oo :=
      congrArg Prod.snd ordered.packed
    have some_ := ordered.some
    change (chosen (createCache size).size).2 <= 0 at most
    omega
  · rintro ⟨word, small⟩
    obtain ⟨order, objects, found, few, some_, fits, room⟩ := searchOrder_spec word small 11 0 rfl (.inl rfl)
    have pair : chosen (createCache size).size = (order, (objects : Int)) := found
    have unpacked := unpack_packOrder (by omega : order < 2 ^ 16) fits
    have oo : (createCache size).oo = packOrder (order, (objects : Int)) := congrArg packOrder pair
    have span : (createCache size).span = 2 ^ order * pageSize := by
      unfold SizedCache.span
      rw [oo, unpacked.1]
    have count : objectsOf (createCache size).oo = objects := by rw [oo, unpacked.2]
    refine ⟨?_, ?_, ?_, fun memory start positive => ?_⟩
    · rw [count]
      exact some_
    · rw [count, span]
      exact room
    · rw [pair, count, oo, unpacked.1]
    · have first : Linked memory 0 [] := rfl
      have pages := pages_bounds few
      have cast : ((2 ^ order * pageSize : Nat) : Int) = 2 ^ order * 4096 := by
        rw [Int.natCast_mul, Int.natCast_pow]
        rfl
      have inside : (((0 : Nat) : Int) + objects) * cacheSize size.toInt < 2 ^ 32 := by
        rw [Int.natCast_zero, Int.zero_add]
        omega
      obtain ⟨all, linked, long, placed⟩ := linkObjects_linked word positive objects inside first
        fun object member => absurd member List.not_mem_nil
      unfold initSlabPage
      rw [count, span]
      refine ⟨all, linked, by rw [long, List.length_nil, Nat.zero_add], fun object member => ?_⟩
      obtain ⟨j, less, same⟩ := placed object member
      have step : ((j : Int) + 1) * cacheSize size.toInt <= objects * cacheSize size.toInt :=
        Int.mul_le_mul_of_nonneg_right (by omega) (by omega)
      have low : 0 <= (j : Int) * cacheSize size.toInt := Int.mul_nonneg (by omega) (by omega)
      rw [Int.add_mul, Int.one_mul] at step
      refine ⟨by omega, ?_⟩
      change (object : Int) + cacheSize size.toInt <= _
      omega

/-- A cache for objects of one byte more has none in a slab. -/
theorem createCache_large : objectsOf (createCache 4194305).oo = 0 /\ ¬ (createCache 4194305).Ordered := by
  have none_fits : objectsOf (createCache 4194305).oo = 0 := by decide +kernel
  refine ⟨none_fits, fun ordered => ?_⟩
  have positive := ordered.some
  omega

/-! ## The cache of the runs -/

/-- The search over natural numbers finds the same. -/
theorem calculateOrderLoop_eq {size : Nat} (word : 8 <= size) (small : size <= 2 ^ 22) {found objects : Nat}
    (fuel : Nat) :
    forall {order : Nat}, order + fuel = 11 -> searchOrder size fuel order = (found, (objects : Int)) ->
      calculateOrderLoop size fuel order = (found <<< 16) ||| objects := by
  induction fuel with
  | zero =>
      intro order total result
      rw [searchOrder, Int.tdiv_eq_ediv_of_nonneg (by decide), ← Int.natCast_ediv, Prod.mk.injEq] at result
      rw [calculateOrderLoop, ← result.1, Int.natCast_inj.mp result.2]
  | succ fuel inductionHypothesis =>
      intro order total result
      have below : order <= 10 := by omega
      have bounds := pages_bounds below
      have number : ((2 ^ order * 4096 - 48 : Int)) / (size : Int) =
          (((1 <<< order) * pageSize - sizeofPage) / size : Nat) := by
        have cast : (((1 <<< order) * pageSize - sizeofPage : Nat) : Int) = 2 ^ order * 4096 - 48 := by
          have power : ((2 ^ order : Nat) : Int) = 2 ^ order := Int.natCast_pow 2 order
          rw [Nat.one_shiftLeft]
          unfold pageSize sizeofPage
          omega
        rw [← cast, Int.natCast_ediv]
      rw [searchOrder_succ (by omega) (by omega) fuel below, number] at result
      rw [calculateOrderLoop]
      split at result
      · rename_i enough
        rw [Prod.mk.injEq] at result
        rw [if_pos (by omega), Int.natCast_inj.mp result.2, result.1]
      · rename_i few
        rw [if_neg (by omega)]
        exact inductionHypothesis (by omega) result

/-- A cache of the runs is the one that `kmem_cache_create` makes. -/
theorem kmemCacheCreate_createCache (size : Nat) (positive : 0 < size) (small : size <= 2 ^ 22) :
    (createCache (BitVec.ofNat 32 size)).size = (kmemCacheCreate size positive).size /\
      orderOf (createCache (BitVec.ofNat 32 size)).oo = (kmemCacheCreate size positive).order /\
        objectsOf (createCache (BitVec.ofNat 32 size)).oo = (kmemCacheCreate size positive).objects := by
  have value : (BitVec.ofNat 32 size).toInt = size := by
    rw [BitVec.toInt_ofNat', Int.bmod_eq_of_le] <;> omega
  have rounded : cacheSize size = ((size + 7) / 8 * 8 : Nat) := by
    unfold cacheSize toSigned toSizeT Int.bmod
    dsimp only
    omega
  have word : 8 <= (size + 7) / 8 * 8 := by omega
  have most : (size + 7) / 8 * 8 <= 2 ^ 22 := by omega
  obtain ⟨order, objects, found, few, _, fits, _⟩ := @searchOrder_spec (((size + 7) / 8 * 8 : Nat) : Int) (by omega)
    (by omega) 11 0 rfl (.inl rfl)
  have number : calculateOrder ((size + 7) / 8 * 8) = (order <<< 16) ||| objects :=
    calculateOrderLoop_eq word most 11 rfl found
  have unpacked := unpack_packOrder (by omega : order < 2 ^ 16) fits
  have oo : (createCache (BitVec.ofNat 32 size)).oo = packOrder (order, (objects : Int)) := by
    unfold createCache
    rw [value, rounded]
    exact congrArg packOrder found
  have joined : (order <<< 16) ||| objects = order * 2 ^ 16 + objects := by
    rw [← Nat.shiftLeft_add_eq_or_of_lt fits, Nat.shiftLeft_eq]
  refine ⟨?_, ?_, ?_⟩
  · unfold createCache
    rw [value]
    exact rounded
  · rw [oo, unpacked.1]
    change order = calculateOrder ((size + 7) / 8 * 8) >>> 16
    rw [number, joined, Nat.shiftRight_eq_div_pow]
    omega
  · rw [oo, unpacked.2]
    change objects = calculateOrder ((size + 7) / 8 * 8) &&& (2 ^ 16 - 1)
    rw [number, joined, Nat.and_two_pow_sub_one_eq_mod]
    omega

end Slub

end Memory
end Ucore
