import SegmentCatalog.Text.Units

/-! # Hashes of bytes and texts

* `murmur2` is the second Murmur hash with a fixed seed, over bytes taken four at a time;
* `polynomial31` is the hash that multiplies by 31 and adds, in words of 32 bits;
* `bytesHash` applies it to bytes as signed numbers, starting from one, `textHash` to UTF-16
  units, starting from zero.

All arithmetic wraps at 32 bits.
-/

namespace SegmentCatalog.Hash

/-! ## Murmur -/

def murmurSeed : UInt32 := 0x9747b28c

def murmurFactor : UInt32 := 0x5bd1e995

/-- Mixes the hash so far with a block of four bytes, the lowest first. -/
def mixBlock (h : UInt32) (a b c d : UInt8) : UInt32 :=
  let k := a.toUInt32 ||| (b.toUInt32 <<< 8) ||| (c.toUInt32 <<< 16) ||| (d.toUInt32 <<< 24)
  let k := k * murmurFactor
  let k := k ^^^ (k >>> 24)
  (h * murmurFactor) ^^^ (k * murmurFactor)

/-- Mixes in the blocks, then the up to three bytes that are left. -/
def mixBytes (h : UInt32) : List UInt8 → UInt32
  | a :: b :: c :: d :: rest => mixBytes (mixBlock h a b c d) rest
  | [a, b, c] =>
    (h ^^^ (c.toUInt32 <<< 16) ^^^ (b.toUInt32 <<< 8) ^^^ a.toUInt32) * murmurFactor
  | [a, b] => (h ^^^ (b.toUInt32 <<< 8) ^^^ a.toUInt32) * murmurFactor
  | [a] => (h ^^^ a.toUInt32) * murmurFactor
  | [] => h

/-- The last mix, by which every bit of the hash depends on every bit before it. -/
def finish (h : UInt32) : UInt32 :=
  let h := h ^^^ (h >>> 13)
  let h := h * murmurFactor
  h ^^^ (h >>> 15)

def murmur2 (bytes : List UInt8) : Int32 :=
  (finish (mixBytes (murmurSeed ^^^ .ofNat bytes.length) bytes)).toInt32

/-! ## Polynomial hashes -/

/-- Starting from `start`, multiplies by 31 and adds each term. -/
def polynomial31 (start : Int32) (terms : List Int32) : Int32 :=
  terms.foldl (fun h x => h * 31 + x) start

def bytesHash (bytes : List UInt8) : Int32 :=
  polynomial31 1 (bytes.map fun b => b.toInt8.toInt32)

def textHash (cs : List Char) : Int32 :=
  polynomial31 0 ((Text.utf16 cs).map fun u => u.toUInt32.toInt32)

end SegmentCatalog.Hash
