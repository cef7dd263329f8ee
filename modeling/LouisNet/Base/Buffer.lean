import LouisNet.Lib.CLib

set_option relaxedAutoImplicit false
set_option autoImplicit false

/-!
# The byte buffer

The class `base::Buffer` of `src/base/Buffer.h` and `src/base/Buffer.cc`: one vector cut by two
indices in a prependable, a readable and a writable region.

```
[ prependable | readable | writable )
0        readerIndex_  writerIndex_  size
```

Sizes and indices are `size_t` values, added and subtracted modulo `2 ^ 64`. An operation
returns the new buffer or the way it fails: an `assert` that does not hold, the
`std::length_error` of a vector beyond its `max_size`, or an access outside the vector.

## Main definitions

* `LouisNet.Base.Buffer` — the vector and the two indices.
* `LouisNet.Base.Buffer.makeSpace` — growth into a new vector, or compaction in place.
* `LouisNet.Base.Buffer.append`, `LouisNet.Base.Buffer.prepend`,
  `LouisNet.Base.Buffer.consume` and the operations made of them.
-/

namespace LouisNet.Base

open Lib

/-- How an operation on a buffer can fail. -/
inductive BufferFault where
  /-- an `assert` does not hold -/
  | assertion
  /-- a vector longer than its `max_size` was asked for -/
  | lengthError
  /-- an access outside the vector -/
  | outOfBounds
  deriving DecidableEq, Repr

/-- `std::vector<char>::max_size`. -/
def maxSize : ℕ := 2 ^ 63 - 1

/-- `assert(c)`. -/
def assert (c : Prop) [Decidable c] : Except BufferFault Unit :=
  if c then .ok () else .error .assertion

/-! ## Copies between and inside vectors -/

/-- The elements of `v` from position `i` up to position `j`. -/
def slice (v : Bytes) (i j : ℕ) : Except BufferFault Bytes :=
  if i ≤ j ∧ j ≤ v.length then .ok ((v.take j).drop i) else .error .outOfBounds

/-- `std::copy` of `data` over the elements of `v` from position `pos` on. -/
def copyTo (v : Bytes) (pos : ℕ) (data : Bytes) : Except BufferFault Bytes :=
  if pos + data.length ≤ v.length then
    .ok (v.take pos ++ data ++ v.drop (pos + data.length))
  else .error .outOfBounds

/-- The loop of `std::copy` inside one vector: element by element, in increasing order. -/
def copyLoop (v : Bytes) (src dst : ℕ) : ℕ → Bytes
  | 0 => v
  | n + 1 => copyLoop (v.set dst (v.getD src 0)) (src + 1) (dst + 1) n

/-- `std::copy` of `n` elements of `v` from position `src` to position `dst`. -/
def copyWithin (v : Bytes) (src dst n : ℕ) : Except BufferFault Bytes :=
  if src + n ≤ v.length ∧ dst + n ≤ v.length then .ok (copyLoop v src dst n)
  else .error .outOfBounds

/-! ## Integers in network byte order -/

/-- The bytes in memory of `htonl(x)`. -/
def toNetwork (x : BitVec 32) : Bytes :=
  [(x.toNat / 2 ^ 24).toUInt8, (x.toNat / 2 ^ 16).toUInt8, (x.toNat / 2 ^ 8).toUInt8,
    x.toNat.toUInt8]

/-- `ntohl` of an integer with the given bytes in memory. -/
def ofNetwork (s : Bytes) : BitVec 32 := BitVec.ofNat 32 (s.foldl (fun n c => 256 * n + c.toNat) 0)

/-! ## The class -/

/-- `base::Buffer`. -/
structure Buffer where
  buffer_ : Bytes
  readerIndex_ : ℕ
  writerIndex_ : ℕ
  deriving DecidableEq, Repr

namespace Buffer

/-- Bytes kept free in front of the readable region. -/
def kCheapPrepend : ℕ := 8

/-- The constructor `Buffer(initialSize)`. -/
def new (initialSize : ℕ) : Except BufferFault Buffer :=
  let n := addSize kCheapPrepend initialSize
  if n ≤ maxSize then .ok ⟨List.replicate n 0, kCheapPrepend, kCheapPrepend⟩
  else .error .lengthError

/-- The number of readable bytes. -/
def readableBytes (b : Buffer) : ℕ := subSize b.writerIndex_ b.readerIndex_

/-- The number of writable bytes. -/
def writableBytes (b : Buffer) : ℕ := subSize b.buffer_.length b.writerIndex_

/-- The number of bytes in front of the readable region. -/
def prependableBytes (b : Buffer) : ℕ := b.readerIndex_

/-- Consume all readable bytes. -/
def consumeAll (b : Buffer) : Buffer :=
  { b with readerIndex_ := kCheapPrepend, writerIndex_ := kCheapPrepend }

/-- Consume `len` readable bytes. -/
def consume (b : Buffer) (len : ℕ) : Except BufferFault Buffer := do
  assert (len ≤ b.readableBytes)
  if len < b.readableBytes then
    return { b with readerIndex_ := addSize b.readerIndex_ len }
  else
    return b.consumeAll

/-- Consume an `int32_t`. -/
def consumeInt32 (b : Buffer) : Except BufferFault Buffer := b.consume 4

/-- Read an `int32_t` in network byte order and consume it. -/
def retrieveInt32 (b : Buffer) : Except BufferFault (Buffer × BitVec 32) := do
  assert (4 ≤ b.readableBytes)
  let x ← slice b.buffer_ b.readerIndex_ (b.readerIndex_ + 4)
  let b' ← b.consumeInt32
  return (b', ofNetwork x)

/-- Read `len` bytes and consume them. -/
def retrieveAsString (b : Buffer) (len : ℕ) : Except BufferFault (Buffer × Bytes) := do
  assert (len ≤ b.readableBytes)
  let result ← slice b.buffer_ b.readerIndex_ (b.readerIndex_ + len)
  let b' ← b.consume len
  return (b', result)

/-- Read and consume everything. -/
def retrieveAllAsString (b : Buffer) : Except BufferFault (Buffer × Bytes) :=
  b.retrieveAsString b.readableBytes

/-- Make room for `len` bytes: grow into a new vector if the free space before and behind the
readable region does not do, and move the readable region to the front otherwise. -/
def makeSpace (b : Buffer) (len : ℕ) : Except BufferFault Buffer := do
  if addSize b.writableBytes b.prependableBytes < addSize len kCheapPrepend then
    let readable := b.readableBytes
    let other ← new (addSize readable len)
    assert (other.readerIndex_ = kCheapPrepend)
    let data ← slice b.buffer_ b.readerIndex_ b.writerIndex_
    let v ← copyTo other.buffer_ other.readerIndex_ data
    -- after `swap(other)` the indices are set anew
    let b' : Buffer := ⟨v, kCheapPrepend, addSize kCheapPrepend readable⟩
    assert (addSize kCheapPrepend readable = b'.writerIndex_)
    assert (readable = b'.readableBytes)
    assert (b'.readerIndex_ = kCheapPrepend)
    return b'
  else
    assert (kCheapPrepend < b.readerIndex_)
    let readable := b.readableBytes
    let v ← copyWithin b.buffer_ b.readerIndex_ kCheapPrepend (b.writerIndex_ - b.readerIndex_)
    let b' : Buffer := ⟨v, kCheapPrepend, addSize kCheapPrepend readable⟩
    assert (addSize kCheapPrepend readable = b'.writerIndex_)
    assert (readable = b'.readableBytes)
    return b'

/-- Have room for `len` bytes behind the readable region. -/
def ensureWritableBytes (b : Buffer) (len : ℕ) : Except BufferFault Buffer := do
  let b' ← if b.writableBytes < len then b.makeSpace len else .ok b
  assert (len ≤ b'.writableBytes)
  return b'

/-- Move the write index over bytes already in place. -/
def hasWritten (b : Buffer) (len : ℕ) : Buffer :=
  { b with writerIndex_ := addSize b.writerIndex_ len }

/-- Append bytes behind the readable region. -/
def append (b : Buffer) (data : Bytes) : Except BufferFault Buffer := do
  let b' ← b.ensureWritableBytes data.length
  let v ← copyTo b'.buffer_ b'.writerIndex_ data
  return hasWritten { b' with buffer_ := v } data.length

/-- Append an `int32_t` in network byte order. -/
def appendInt32 (b : Buffer) (x : BitVec 32) : Except BufferFault Buffer := b.append (toNetwork x)

/-- Put bytes in front of the readable region. -/
def prepend (b : Buffer) (data : Bytes) : Except BufferFault Buffer := do
  assert (data.length ≤ b.prependableBytes)
  let r := subSize b.readerIndex_ data.length
  let v ← copyTo b.buffer_ r data
  return { b with buffer_ := v, readerIndex_ := r }

/-- Put an `int32_t` in network byte order in front of the readable region. -/
def prependInt32 (b : Buffer) (x : BitVec 32) : Except BufferFault Buffer :=
  b.prepend (toNetwork x)

/-- The readable region, `[peek(), peek() + readableBytes())`. -/
def contents (b : Buffer) : Bytes := (b.buffer_.take b.writerIndex_).drop b.readerIndex_

end Buffer

end LouisNet.Base
