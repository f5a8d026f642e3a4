import Mathlib.Algebra.Group.Nat.Defs
import Mathlib.Data.List.Basic
import SegmentCatalog.Partition.Hash

/-! # The Murmur hash by index

`Hash.murmur2` takes the input apart from the front, in unsigned words.  The hash is usually laid
down in signed words, with every byte read at its index: a loop over the blocks of four bytes, and
a switch on the number of bytes left over whose cases fall through to the next (`Signed.murmur2?`).

The two agree on every input whose length is a signed word (`murmur2?_eq_some`): a block mixed in by
the one is the block mixed in by the other, read as a signed word (`Signed.word_toInt32`,
`Signed.mixBlock_toInt32`), and what has been taken off the front is what the index has passed
(`Signed.run_eq`).
-/

namespace SegmentCatalog.Hash

namespace Signed

/-! ## Signed words -/

def seed : Int32 := 0x9747b28c

def factor : Int32 := 0x5bd1e995

/-- Shifts to the right and fills up with zeros, whatever the sign. -/
def shiftRight (h : Int32) (n : Nat) : Int32 := .ofBitVec (h.toBitVec >>> n)

/-- The byte at an index, as a number without a sign; none outside of the input. -/
def byte? (data : List UInt8) (i : Int32) : Option Int32 :=
  if 0 ≤ i.toInt then data[i.toInt.toNat]?.map fun b => b.toInt8.toInt32 &&& 0xff else none

/-- The block of four bytes with a number, the lowest byte first. -/
def block? (data : List UInt8) (i : Int32) : Option Int32 := do
  let a ← byte? data (4 * i)
  let b ← byte? data (4 * i + 1)
  let c ← byte? data (4 * i + 2)
  let d ← byte? data (4 * i + 3)
  return a + (b <<< 8) + (c <<< 16) + (d <<< 24)

def mix (h k : Int32) : Int32 :=
  let k := k * factor
  let k := k ^^^ shiftRight k 24
  let k := k * factor
  (h * factor) ^^^ k

/-- The blocks with numbers from `first` on, `count` of them. -/
def mixBlocks? (data : List UInt8) (first count : Nat) (h : Int32) : Option Int32 :=
  (List.range' first count).foldlM (fun h i => (block? data (.ofNat i)).map (mix h)) h

/-- Mixes in the byte at an index. -/
def mixByte? (data : List UInt8) (i : Int32) (f : Int32 → Int32 → Int32) (h : Int32) :
    Option Int32 :=
  (byte? data i).map (f h)

/-- The cases for the bytes left over, behind their labels.  The bytes start where the length has
    its two low bits cleared. -/
def leftOverCases (data : List UInt8) : List (Int32 × (Int32 → Option Int32)) :=
  let start := Int32.ofNat data.length &&& ~~~3
  [ (3, mixByte? data (start + 2) fun h b => h ^^^ (b <<< 16)),
    (2, mixByte? data (start + 1) fun h b => h ^^^ (b <<< 8)),
    (1, mixByte? data start fun h b => (h ^^^ b) * factor) ]

/-- Goes to the case with a label, and from there through all cases behind it. -/
def switch? (label : Int32) (entries : List (Int32 × (Int32 → Option Int32)))
    (h : Int32) : Option Int32 :=
  (entries.dropWhile fun entry => entry.1 != label).foldlM (fun h entry => entry.2 h) h

def finish (h : Int32) : Int32 :=
  let h := h ^^^ shiftRight h 13
  let h := h * factor
  h ^^^ shiftRight h 15

/-- The hash in signed words, none if a byte outside of the input is asked for. -/
def murmur2? (data : List UInt8) : Option Int32 := do
  let length := Int32.ofNat data.length
  let h ← mixBlocks? data 0 (length / 4).toInt.toNat (seed ^^^ length)
  let h ← switch? (length % 4) (leftOverCases data) h
  return finish h

/-! ## Words with and without a sign -/

variable {data front rest : List UInt8} {a b c d : UInt8} {i n : Nat}

/-- Four bytes in one word, the lowest first. -/
def word (a b c d : UInt8) : UInt32 :=
  a.toUInt32 ||| (b.toUInt32 <<< 8) ||| (c.toUInt32 <<< 16) ||| (d.toUInt32 <<< 24)

theorem mask_toInt8 (b : UInt8) : b.toInt8.toInt32 &&& 0xff = b.toUInt32.toInt32 := by
  have ones : ∀ i < 32, (255#32)[i]? = some (decide (i < 8)) := by decide
  apply Int32.toBitVec_inj.1
  ext i inside
  have one := ones i inside
  rw [BitVec.getElem?_eq_getElem inside, Option.some.injEq] at one
  by_cases low : i < 8
  · simp [BitVec.getElem_signExtend, one, low]
  · simp [one, low, BitVec.getLsbD_of_ge _ _ (Nat.le_of_not_lt low)]

/-- Bits that do not overlap can be added. -/
theorem or_shiftLeft {low : UInt32} (high : UInt32) (small : n < 32) (below : low.toNat < 2 ^ n) :
    low ||| high <<< .ofNat n = low + high <<< .ofNat n := by
  have amount : n % 4294967296 % 32 = n := by omega
  have apart : low.toBitVec &&& high.toBitVec <<< n = 0#32 := by
    ext i inside
    by_cases above : n ≤ i
    · have wider : 2 ^ n ≤ 2 ^ i := Nat.pow_le_pow_right (by decide) above
      have clear : low.toBitVec[i] = false :=
        Nat.testBit_lt_two_pow (Nat.lt_of_lt_of_le below wider)
      simp [clear]
    · simp [above]
  apply UInt32.toBitVec_inj.1
  simp [amount, BitVec.add_eq_or_of_and_eq_zero _ _ apart]

theorem word_toInt32 (a b c d : UInt8) : (word a b c d).toInt32 =
    a.toUInt32.toInt32 + (b.toUInt32.toInt32 <<< 8) + (c.toUInt32.toInt32 <<< 16) +
      (d.toUInt32.toInt32 <<< 24) := by
  have first : a.toUInt32 ||| b.toUInt32 <<< 8 = a.toUInt32 + b.toUInt32 <<< 8 :=
    or_shiftLeft _ (by decide) a.toNat_lt
  have two : (a.toUInt32 + b.toUInt32 <<< 8).toNat < 2 ^ 16 := by
    have := a.toNat_lt
    have := b.toNat_lt
    simp only [UInt32.toNat_add, UInt8.toNat_toUInt32, UInt32.toNat_shiftLeft, UInt32.reduceToNat,
      Nat.reduceMod, Nat.shiftLeft_eq, Nat.reducePow, Nat.add_mod_mod]
    omega
  have second : a.toUInt32 + b.toUInt32 <<< 8 ||| c.toUInt32 <<< 16 =
      a.toUInt32 + b.toUInt32 <<< 8 + c.toUInt32 <<< 16 := or_shiftLeft _ (by decide) two
  have three : (a.toUInt32 + b.toUInt32 <<< 8 + c.toUInt32 <<< 16).toNat < 2 ^ 24 := by
    have := a.toNat_lt
    have := b.toNat_lt
    have := c.toNat_lt
    simp only [UInt32.toNat_add, UInt8.toNat_toUInt32, UInt32.toNat_shiftLeft, UInt32.reduceToNat,
      Nat.reduceMod, Nat.shiftLeft_eq, Nat.reducePow, Nat.add_mod_mod, Nat.mod_add_mod]
    omega
  have third := or_shiftLeft d.toUInt32 (by decide : 24 < 32) three
  rw [word, first, second]
  exact congrArg UInt32.toInt32 third

/-- Arithmetic on words is the same with a sign as without, and so are shifts that fill up with
    zeros. -/
theorem mixBlock_toInt32 (h : UInt32) (a b c d : UInt8) :
    (mixBlock h a b c d).toInt32 = mix h.toInt32 (word a b c d).toInt32 := rfl

theorem finish_toInt32 (h : UInt32) : (Hash.finish h).toInt32 = finish h.toInt32 := rfl

/-! ## Indices -/

theorem byte?_eq (front : List UInt8) (split : data = front ++ a :: rest)
    (short : data.length < 2 ^ 31) :
    byte? data (.ofNat front.length) = some a.toUInt32.toInt32 := by
  have inside : front.length < data.length := by simp [split]
  have found : data[front.length]? = some a := by simp [split]
  rw [byte?, Int32.toInt_ofNat_of_lt (by omega), if_pos (by omega), Int.toNat_natCast, found,
    Option.map_some, mask_toInt8]

theorem block?_eq (split : data = front ++ a :: b :: c :: d :: rest) (blocks : front.length = 4 * i)
    (short : data.length < 2 ^ 31) : block? data (.ofNat i) = some (word a b c d).toInt32 := by
  have behind : ∀ passed x later, data = front ++ passed ++ x :: later →
      byte? data (4 * .ofNat i + .ofNat passed.length) = some x.toUInt32.toInt32 := by
    intro passed x later split'
    have here := byte?_eq (front ++ passed) split' short
    rwa [List.length_append, blocks, Int32.ofNat_add, Int32.ofNat_mul] at here
  have first : byte? data (4 * .ofNat i) = some a.toUInt32.toInt32 := by
    have none : (4 : Int32) * .ofNat i + .ofNat 0 = 4 * .ofNat i := Int32.add_zero _
    rw [← none]
    exact behind [] a (b :: c :: d :: rest) (by simp [split])
  have second : byte? data (4 * .ofNat i + 1) = some b.toUInt32.toInt32 :=
    behind [a] b (c :: d :: rest) (by simp [split])
  have third : byte? data (4 * .ofNat i + 2) = some c.toUInt32.toInt32 :=
    behind [a, b] c (d :: rest) (by simp [split])
  have fourth : byte? data (4 * .ofNat i + 3) = some d.toUInt32.toInt32 :=
    behind [a, b, c] d rest (by simp [split])
  rw [block?, first, second, third, fourth, word_toInt32]
  rfl

/-- Without its two low bits a number is the multiple of four below it. -/
theorem cleared_eq (n : Nat) : Int32.ofNat n &&& ~~~3 = .ofNat (4 * (n / 4)) := by
  have mask : ∀ i < 32, (~~~3 : Int32).toBitVec[i]? = some (decide (2 ≤ i)) := by decide
  have shifted : 4 * (n / 4) = n >>> 2 <<< 2 := by
    rw [Nat.shiftLeft_eq, Nat.shiftRight_eq_div_pow]
    omega
  apply Int32.toBitVec_inj.1
  rw [Int32.toBitVec_and, Int32.toBitVec_ofNat', Int32.toBitVec_ofNat', shifted]
  ext i inside
  have bit := mask i inside
  rw [BitVec.getElem?_eq_getElem inside, Option.some.injEq] at bit
  rw [BitVec.getElem_and, bit, ← BitVec.getLsbD_eq_getElem, ← BitVec.getLsbD_eq_getElem,
    BitVec.getLsbD_ofNat, BitVec.getLsbD_ofNat, Nat.testBit_shiftLeft, Nat.testBit_shiftRight]
  by_cases kept : 2 ≤ i
  · simp [kept]
  · simp [kept]

theorem remainder_eq (short : n < 2 ^ 31) : Int32.ofNat n % 4 = .ofNat (n % 4) := by
  have four : (4 : Int32).toInt = 4 := by decide
  apply Int32.toInt_inj.1
  rw [Int32.toInt_mod, four, Int32.toInt_ofNat_of_lt short, Int32.toInt_ofNat_of_lt (by omega),
    Int.tmod_eq_emod_of_nonneg (by omega)]
  omega

theorem quotient_eq (short : n < 2 ^ 31) : (Int32.ofNat n / 4).toInt.toNat = n / 4 := by
  have four : (4 : Int32).toInt = 4 := by decide
  rw [Int32.toInt_div, four, Int32.toInt_ofNat_of_lt short, Int.tdiv_eq_ediv_of_nonneg (by omega),
    Int.bmod_eq_of_le (by omega) (by omega)]
  omega

/-! ## Runs -/

/-- The labels count down to one, so that as many cases are gone through as bytes are left. -/
theorem switch?_eq_foldlM (data : List UInt8) (h : Int32) : ∀ left < 4,
    switch? (.ofNat left) (leftOverCases data) h =
      ((leftOverCases data).drop (3 - left)).foldlM (fun h entry => entry.2 h) h
  | 0, _ => rfl
  | 1, _ => rfl
  | 2, _ => rfl
  | 3, _ => rfl

theorem switch?_leftOver (split : data = front ++ rest) (blocks : front.length = 4 * i)
    (few : rest.length < 4) (short : data.length < 2 ^ 31) (h : UInt32) :
    switch? (.ofNat rest.length) (leftOverCases data) h.toInt32 =
      some (mixBytes h rest).toInt32 := by
  have start : Int32.ofNat data.length &&& ~~~3 = .ofNat front.length := by
    have whole : 4 * (data.length / 4) = front.length := by
      rw [split, List.length_append]
      omega
    rw [cleared_eq, whole]
  have behind : ∀ passed x later, rest = passed ++ x :: later →
      byte? data (.ofNat front.length + .ofNat passed.length) = some x.toUInt32.toInt32 := by
    intro passed x later split'
    have here := byte?_eq (front ++ passed) (by rw [split, split', List.append_assoc]) short
    rwa [List.length_append, Int32.ofNat_add] at here
  have first : ∀ a later, rest = a :: later →
      byte? data (.ofNat front.length) = some a.toUInt32.toInt32 := by
    intro a later split'
    exact byte?_eq front (by rw [split, split']) short
  rw [switch?_eq_foldlM data _ _ few, leftOverCases, start]
  rcases rest with _ | ⟨a, _ | ⟨b, _ | ⟨c, _ | ⟨d, rest⟩⟩⟩⟩
  · rfl
  · have one := first a [] rfl
    simp only [List.length_cons, List.length_nil, List.drop_succ_cons, List.drop_zero,
      List.foldlM_cons, List.foldlM_nil, mixByte?, one, Option.map_some]
    rfl
  · have one := first a [b] rfl
    have two : byte? data (.ofNat front.length + 1) = _ := behind [a] b [] rfl
    simp only [List.length_cons, List.length_nil, List.drop_succ_cons, List.drop_zero,
      List.foldlM_cons, List.foldlM_nil, mixByte?, one, two, Option.map_some]
    rfl
  · have one := first a [b, c] rfl
    have two : byte? data (.ofNat front.length + 1) = _ := behind [a] b [c] rfl
    have three : byte? data (.ofNat front.length + 2) = _ := behind [a, b] c [] rfl
    simp only [List.length_cons, List.length_nil, Nat.sub_self, List.drop_zero,
      List.foldlM_cons, List.foldlM_nil, mixByte?, one, two, three, Option.map_some]
    rfl
  · simp only [List.length_cons] at few
    omega

theorem run_of_few (split : data = front ++ rest) (blocks : front.length = 4 * i)
    (few : rest.length < 4) (short : data.length < 2 ^ 31) (h : UInt32) :
    (mixBlocks? data i (rest.length / 4) h.toInt32).bind
        (switch? (.ofNat (rest.length % 4)) (leftOverCases data)) =
      some (mixBytes h rest).toInt32 := by
  rw [Nat.div_eq_of_lt few, Nat.mod_eq_of_lt few]
  exact switch?_leftOver split blocks few short h

/-- The loop over the blocks from any of them on, and the switch behind it. -/
theorem run_eq (split : data = front ++ rest) (blocks : front.length = 4 * i)
    (short : data.length < 2 ^ 31) (h : UInt32) :
    (mixBlocks? data i (rest.length / 4) h.toInt32).bind
        (switch? (.ofNat (rest.length % 4)) (leftOverCases data)) =
      some (mixBytes h rest).toInt32 := by
  fun_induction mixBytes h rest generalizing front i with
  | case1 h a b c d rest ih =>
    have count : (a :: b :: c :: d :: rest).length / 4 = rest.length / 4 + 1 := by
      simp only [List.length_cons]
      omega
    have left : (a :: b :: c :: d :: rest).length % 4 = rest.length % 4 := by
      simp only [List.length_cons]
      omega
    have passed : (front ++ [a, b, c, d]).length = 4 * (i + 1) := by
      rw [List.length_append, blocks]
      rfl
    rw [count, left, mixBlocks?, List.range'_succ, List.foldlM_cons, block?_eq split blocks short,
      Option.map_some, ← mixBlock_toInt32]
    exact ih (by rw [split, List.append_assoc]; rfl) passed
  | case2 h a b c => exact run_of_few split blocks (by decide : 3 < 4) short h
  | case3 h a b => exact run_of_few split blocks (by decide : 2 < 4) short h
  | case4 h a => exact run_of_few split blocks (by decide : 1 < 4) short h
  | case5 h => exact run_of_few split blocks (by decide : 0 < 4) short h

end Signed

/-- On every input whose length is a signed word no byte outside of the input is asked for, and the
    two hashes are the same. -/
theorem murmur2?_eq_some (data : List UInt8) (short : data.length < 2 ^ 31) :
    Signed.murmur2? data = some (murmur2 data) := by
  have none : ([] : List UInt8).length = 4 * 0 := rfl
  have run := Signed.run_eq (List.nil_append data).symm none short
    (murmurSeed ^^^ .ofNat data.length)
  have start : Signed.seed ^^^ .ofNat data.length =
      (murmurSeed ^^^ .ofNat data.length).toInt32 := rfl
  obtain ⟨h, blocks, switch⟩ := Option.bind_eq_some_iff.1 run
  simp only [Signed.murmur2?, Signed.quotient_eq short, Signed.remainder_eq short, start, blocks,
    Option.bind_eq_bind, Option.bind_some, switch]
  exact congrArg some (Signed.finish_toInt32 _).symm

/-- A block whose highest byte is negative as a signed one, and three more such bytes behind it. -/
theorem murmur2?_eq_some_negativeBytes :
    ([0x6e, 0x61, 0xc3, 0xaf, 0xf0, 0x9f, 0x98] : List UInt8).length < 2 ^ 31 ∧
      Signed.murmur2? [0x6e, 0x61, 0xc3, 0xaf, 0xf0, 0x9f, 0x98] =
        some (murmur2 [0x6e, 0x61, 0xc3, 0xaf, 0xf0, 0x9f, 0x98]) ∧
      murmur2 [0x6e, 0x61, 0xc3, 0xaf, 0xf0, 0x9f, 0x98] = -1115268087 :=
  ⟨by decide, murmur2?_eq_some [0x6e, 0x61, 0xc3, 0xaf, 0xf0, 0x9f, 0x98] (by decide), by decide⟩

/-- The text `foobar`. -/
example : Signed.murmur2? [0x66, 0x6f, 0x6f, 0x62, 0x61, 0x72] = some (-790332482) := by decide

end SegmentCatalog.Hash
