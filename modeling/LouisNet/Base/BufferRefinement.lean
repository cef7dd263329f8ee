import LouisNet.Base.Buffer

set_option relaxedAutoImplicit false
set_option autoImplicit false

/-!
# The buffer refines a byte sequence

A buffer is a byte sequence that is appended to at the end, prepended to and consumed at the
front. `Represents b s` says that the readable region of `b` is `s`; every operation that its
asserts admit succeeds, keeps the relation, and does to `s` what its name says. Runs over any
number of buffers, with swaps between them, follow by induction.

## Main definitions

* `LouisNet.Base.Buffer.Represents` — the refinement relation.
* `LouisNet.Base.Op`, `LouisNet.Base.step`, `LouisNet.Base.absStep` — operations on a family of
  buffers, what the code does, and what they do to a family of byte sequences.
* `LouisNet.Base.Admitted` — the asserts at the entry of the operations hold along a run.

## Main results

* `LouisNet.Base.Buffer.ensureWritableBytes_represents` — growth and compaction keep the
  contents, and no assertion inside them fails.
* `LouisNet.Base.step_represents`, `LouisNet.Base.run_represents` — one operation, and a run.
-/

namespace LouisNet.Base

open Lib

/-! ## Vectors -/

/-- Binding a computation that has succeeded runs its continuation. -/
@[simp] theorem ok_bind {α β : Type} (a : α) (f : α → Except BufferFault β) :
    (Except.ok a >>= f) = f a := rfl

/-- An assertion that holds does nothing. -/
@[simp] theorem assert_of {c : Prop} [Decidable c] (h : c) : assert c = .ok () := if_pos h

/-- Reading the middle part of a vector. -/
private theorem slice_append (pre mid post : Bytes) :
    slice (pre ++ mid ++ post) pre.length (pre.length + mid.length) = .ok mid := by
  unfold slice
  rw [if_pos ⟨by omega, by simp⟩]
  congr 1
  rw [List.append_assoc, List.take_length_add_append, List.take_left, List.drop_left]

/-- Overwriting the middle part of a vector. -/
private theorem copyTo_append (pre mid post data : Bytes) (h : data.length = mid.length) :
    copyTo (pre ++ mid ++ post) pre.length data = .ok (pre ++ data ++ post) := by
  unfold copyTo
  rw [if_pos (by simp only [List.length_append]; omega)]
  congr 1
  rw [h, List.append_assoc pre mid post, List.take_left, ← List.append_assoc pre mid post,
    ← List.length_append, List.drop_left]

/-- Copying towards the front element by element moves the elements as they were, also when
the source and the target overlap.

**Proof sketch.** Induction on the number of elements. Write `v = a ++ x :: gap ++ y :: l`,
where `y` goes to the place of `x`. The place of `y` is overwritten by no later step before it
is read, since the target stays behind the source. -/
private theorem copyLoop_eq (n : ℕ) :
    ∀ (v : Bytes) (src dst : ℕ), dst ≤ src → src + n ≤ v.length →
      copyLoop v src dst n = v.take dst ++ (v.drop src).take n ++ v.drop (dst + n) := by
  induction n with
  | zero =>
    intro v src dst _ _
    simp [copyLoop]
  | succ n ih =>
    intro v src dst hds hlen
    have hsrc : src < v.length := by omega
    rw [copyLoop, ih _ _ _ (by omega) (by rw [List.length_set]; omega)]
    have hget : v.getD src 0 = v[src] := by simp [hsrc]
    have h₁ : (v.set dst (v.getD src 0)).take (dst + 1) = v.take dst ++ [v[src]] := by
      rw [hget, List.take_add_one, List.take_set_of_le (Nat.le_refl _)]
      simp [List.getElem?_set_self (show dst < v.length by omega)]
    have h₂ : (v.set dst (v.getD src 0)).drop (src + 1) = v.drop (src + 1) :=
      List.drop_set_of_lt (by omega)
    have h₃ : (v.set dst (v.getD src 0)).drop (dst + 1 + n) = v.drop (dst + (n + 1)) := by
      rw [List.drop_set_of_lt (by omega)]
      congr 1
      omega
    have h₄ : (v.drop src).take (n + 1) = v[src] :: (v.drop (src + 1)).take n := by
      rw [List.drop_eq_getElem_cons hsrc, List.take_succ_cons]
    rw [h₁, h₂, h₃, h₄]
    simp

/-- Moving the middle part of a vector towards the front. -/
private theorem copyWithin_append (v : Bytes) {src dst n : ℕ} (hds : dst ≤ src)
    (hlen : src + n ≤ v.length) :
    copyWithin v src dst n = .ok (v.take dst ++ (v.drop src).take n ++ v.drop (dst + n)) := by
  unfold copyWithin
  rw [if_pos ⟨hlen, by omega⟩, copyLoop_eq n v src dst hds hlen]

/-! ## Network byte order -/

/-- The four bytes of an integer are its base-256 digits, the most significant first. -/
theorem foldl_toNetwork (x : BitVec 32) :
    (toNetwork x).foldl (fun n c => 256 * n + c.toNat) 0 = x.toNat := by
  have := x.isLt
  simp only [toNetwork, List.foldl_cons, List.foldl_nil, Nat.toUInt8, UInt8.toNat_ofNat']
  omega

/-- An integer is read back from its bytes. -/
theorem ofNetwork_toNetwork (x : BitVec 32) : ofNetwork (toNetwork x) = x := by
  unfold ofNetwork
  rw [foldl_toNetwork]
  simp

/-! ## The refinement relation and the operations -/

namespace Buffer

/-- The readable region of `b` is `s`: the vector is `s` between a front of length
`readerIndex_` and a rest, it has room for the cheap prepend, and it is not too long. -/
structure Represents (b : Buffer) (s : Bytes) : Prop where
  /-- where the contents are -/
  layout : ∃ pre post, b.buffer_ = pre ++ s ++ post ∧ b.readerIndex_ = pre.length ∧
    b.writerIndex_ = pre.length + s.length
  /-- the vector has room for the cheap prepend -/
  cheapPrepend_le : kCheapPrepend ≤ b.buffer_.length
  /-- the vector exists -/
  le_maxSize : b.buffer_.length ≤ maxSize

namespace Represents

variable {b : Buffer} {s : Bytes}

/-- The contents and the indices of a buffer that represents `s`. -/
theorem contents_eq (h : b.Represents s) : b.contents = s := by
  obtain ⟨pre, post, hb, hr, hw⟩ := h.layout
  unfold contents
  rw [hb, hr, hw, List.append_assoc, List.take_length_add_append, List.take_left, List.drop_left]

/-- The indices are in order. -/
theorem index_le (h : b.Represents s) :
    b.readerIndex_ ≤ b.writerIndex_ ∧ b.writerIndex_ ≤ b.buffer_.length := by
  obtain ⟨pre, post, hb, hr, hw⟩ := h.layout
  rw [hb, hr, hw]
  simp

/-- Lengths of vectors are far from the end of `size_t`. -/
private theorem length_lt (h : b.Represents s) : b.buffer_.length < 2 ^ 63 := by
  have := h.le_maxSize
  unfold maxSize at this
  omega

/-- The distance of the indices is the length of the contents. -/
theorem writerIndex_eq (h : b.Represents s) : b.writerIndex_ = b.readerIndex_ + s.length := by
  obtain ⟨pre, post, -, hr, hw⟩ := h.layout
  omega

/-- The readable bytes are counted without wrap-around. -/
theorem readableBytes_eq (h : b.Represents s) : b.readableBytes = s.length := by
  have := h.writerIndex_eq
  have := h.index_le
  have := h.length_lt
  unfold readableBytes
  rw [subSize_eq (by omega) (by omega)]
  omega

/-- The writable bytes are counted without wrap-around. -/
theorem writableBytes_eq (h : b.Represents s) :
    b.writableBytes = b.buffer_.length - b.writerIndex_ := by
  have := h.index_le
  have := h.length_lt
  unfold writableBytes
  rw [subSize_eq (by omega) (by omega)]

/-- Reading the first `n` bytes of the contents. -/
theorem slice_eq (h : b.Represents s) {n : ℕ} (hn : n ≤ s.length) :
    slice b.buffer_ b.readerIndex_ (b.readerIndex_ + n) = .ok (s.take n) := by
  obtain ⟨pre, post, hb, hr, -⟩ := h.layout
  have hs : pre ++ s ++ post = pre ++ s.take n ++ (s.drop n ++ post) := by
    rw [List.append_assoc, List.append_assoc, ← List.append_assoc (s.take n),
      List.take_append_drop]
  have hl : (s.take n).length = n := List.length_take_of_le hn
  have := slice_append pre (s.take n) (s.drop n ++ post)
  rw [hl] at this
  rw [hb, hr, hs, this]

end Represents

/-- The constructor makes an empty buffer with the room asked for. -/
theorem new_represents {n : ℕ} (hn : kCheapPrepend + n ≤ maxSize) :
    ∃ b, new n = .ok b ∧ b.Represents [] ∧ b.readerIndex_ = kCheapPrepend ∧
      b.buffer_ = List.replicate (kCheapPrepend + n) 0 := by
  have hadd : addSize kCheapPrepend n = kCheapPrepend + n := addSize_eq (by
    unfold maxSize at hn
    omega)
  refine ⟨⟨List.replicate (kCheapPrepend + n) 0, kCheapPrepend, kCheapPrepend⟩, ?_,
    ⟨⟨List.replicate kCheapPrepend 0, List.replicate n 0, ?_, ?_, ?_⟩, ?_, ?_⟩, rfl, rfl⟩
  · unfold new
    rw [hadd]
    exact if_pos hn
  · simp [List.replicate_append_replicate]
  · simp
  · simp
  · simp
  · simpa using hn

/-- Consuming everything empties the buffer. -/
theorem consumeAll_represents {b : Buffer} {s : Bytes} (h : b.Represents s) :
    b.consumeAll.Represents [] := by
  refine ⟨⟨b.buffer_.take kCheapPrepend, b.buffer_.drop kCheapPrepend, ?_, ?_, ?_⟩,
    h.cheapPrepend_le, h.le_maxSize⟩
  · simp [consumeAll]
  · simp [consumeAll, h.cheapPrepend_le]
  · simp [consumeAll, h.cheapPrepend_le]

/-- Consuming takes bytes from the front. -/
theorem consume_represents {b : Buffer} {s : Bytes} (h : b.Represents s) {n : ℕ}
    (hn : n ≤ s.length) : ∃ b', b.consume n = .ok b' ∧ b'.Represents (s.drop n) := by
  unfold consume
  rw [h.readableBytes_eq, assert_of hn, ok_bind]
  split_ifs with hlt
  · obtain ⟨pre, post, hb, hr, hw⟩ := h.layout
    have hidx := h.index_le
    have hlen := h.length_lt
    have hadd : addSize b.readerIndex_ n = pre.length + n := by
      rw [addSize_eq (by omega), hr]
    refine ⟨_, rfl, ⟨⟨pre ++ s.take n, post, ?_, ?_, ?_⟩, h.cheapPrepend_le, h.le_maxSize⟩⟩
    · rw [List.append_assoc pre, List.take_append_drop]
      exact hb
    · simp only [hadd, List.length_append, List.length_take]
      omega
    · simp only [hw, List.length_append, List.length_take, List.length_drop]
      omega
  · obtain rfl : n = s.length := by omega
    exact ⟨_, rfl, by simpa using consumeAll_represents h⟩

/-- Retrieving a string reads and takes it from the front. -/
theorem retrieveAsString_represents {b : Buffer} {s : Bytes} (h : b.Represents s) {n : ℕ}
    (hn : n ≤ s.length) :
    ∃ b', b.retrieveAsString n = .ok (b', s.take n) ∧ b'.Represents (s.drop n) := by
  obtain ⟨b', hb', hr⟩ := consume_represents h hn
  refine ⟨b', ?_, hr⟩
  unfold retrieveAsString
  rw [h.readableBytes_eq, assert_of hn, ok_bind, h.slice_eq hn, ok_bind, hb', ok_bind]
  rfl

/-- Retrieving an integer reads and takes its four bytes from the front. -/
theorem retrieveInt32_represents {b : Buffer} {s : Bytes} (h : b.Represents s)
    (hn : 4 ≤ s.length) :
    ∃ b', b.retrieveInt32 = .ok (b', ofNetwork (s.take 4)) ∧ b'.Represents (s.drop 4) := by
  obtain ⟨b', hb', hr⟩ := consume_represents h hn
  refine ⟨b', ?_, hr⟩
  unfold retrieveInt32 consumeInt32
  rw [h.readableBytes_eq, assert_of hn, ok_bind, h.slice_eq hn, ok_bind, hb', ok_bind]
  rfl

/-- The buffer that `makeSpace` leaves holds the contents behind the cheap prepend. -/
private theorem moved_represents {v s : Bytes} {pre post : Bytes} (hv : v = pre ++ s ++ post)
    (hp : pre.length = kCheapPrepend) (hm : v.length ≤ maxSize) :
    (⟨v, kCheapPrepend, addSize kCheapPrepend s.length⟩ : Buffer).Represents s := by
  have hlen : v.length = pre.length + s.length + post.length := by
    rw [hv]
    simp only [List.length_append]
  refine ⟨⟨pre, post, hv, hp.symm, ?_⟩, ?_, hm⟩
  · unfold maxSize at hm
    rw [addSize_eq (by omega), hp]
  · dsimp only
    omega

/-- Making space keeps the contents and gives the room asked for; none of the assertions inside
fails.

**Proof sketch.** If the free space does not do, the contents are copied behind the first eight
bytes of a new vector of the right size. Otherwise the reader index is above eight, since the
writable part alone was too short, and the contents move to the front inside the vector. -/
theorem makeSpace_represents {b : Buffer} {s : Bytes} (h : b.Represents s) {len : ℕ}
    (hlt : b.writableBytes < len) (hmax : kCheapPrepend + s.length + len ≤ maxSize) :
    ∃ b', b.makeSpace len = .ok b' ∧ b'.Represents s ∧ len ≤ b'.writableBytes := by
  have hlt64 := h.length_lt
  have hidx := h.index_le
  have hwr := h.writableBytes_eq
  have hw := h.writerIndex_eq
  have hmax' := hmax
  unfold maxSize at hmax'
  have hk : kCheapPrepend = 8 := rfl
  unfold makeSpace
  rw [h.readableBytes_eq]
  have hsum : addSize b.writableBytes b.prependableBytes = b.writableBytes + b.readerIndex_ :=
    addSize_eq (by unfold prependableBytes; omega)
  have hlen : addSize len kCheapPrepend = len + kCheapPrepend := addSize_eq (by omega)
  have hnew : addSize s.length len = s.length + len := addSize_eq (by omega)
  have hadd : addSize kCheapPrepend s.length = kCheapPrepend + s.length := addSize_eq (by omega)
  dsimp only
  rw [hsum, hlen, hnew]
  split_ifs with hgrow
  · -- growth into a new vector
    obtain ⟨other, hother, -, hor, hob⟩ := new_represents (n := s.length + len) (by omega)
    have hdata := h.slice_eq (Nat.le_refl s.length)
    rw [List.take_length, ← hw] at hdata
    have hsplit : other.buffer_ = List.replicate kCheapPrepend 0 ++ List.replicate s.length 0 ++
        List.replicate len 0 := by
      rw [hob]
      simp [List.replicate_append_replicate, Nat.add_assoc]
    have hcopy : copyTo other.buffer_ other.readerIndex_ s =
        .ok (List.replicate kCheapPrepend 0 ++ s ++ List.replicate len 0) := by
      have := copyTo_append (List.replicate kCheapPrepend 0) (List.replicate s.length 0)
        (List.replicate len 0) s (by simp)
      rw [List.length_replicate] at this
      rw [hsplit, hor, this]
    have hrep := moved_represents (s := s)
      (v := List.replicate kCheapPrepend 0 ++ s ++ List.replicate len 0) rfl (by simp) (by
        simp only [List.length_append, List.length_replicate]
        omega)
    have hread := hrep.readableBytes_eq
    have hwrit := hrep.writableBytes_eq
    simp only [hother, assert_of hor, hdata, hcopy, assert_of hread.symm, assert_of, ok_bind]
    refine ⟨_, rfl, hrep, ?_⟩
    rw [hwrit, hadd]
    simp only [List.length_append, List.length_replicate]
    omega
  · -- compaction inside the vector
    have hr : kCheapPrepend < b.readerIndex_ := by omega
    have hdist : b.writerIndex_ - b.readerIndex_ = s.length := by omega
    obtain ⟨pre, post, hb, hpre, -⟩ := h.layout
    have hmid : (b.buffer_.drop b.readerIndex_).take s.length = s := by
      rw [hb, hpre, List.append_assoc, List.drop_left, List.take_left]
    have hcopy : copyWithin b.buffer_ b.readerIndex_ kCheapPrepend s.length = _ :=
      copyWithin_append b.buffer_ hr.le (by omega)
    rw [hmid] at hcopy
    have hvlen : (b.buffer_.take kCheapPrepend ++ s ++
        b.buffer_.drop (kCheapPrepend + s.length)).length = b.buffer_.length := by
      simp only [List.length_append, List.length_take, List.length_drop]
      omega
    have hrep := moved_represents (s := s)
      (v := b.buffer_.take kCheapPrepend ++ s ++ b.buffer_.drop (kCheapPrepend + s.length)) rfl
      (by simp only [List.length_take]; omega) (by rw [hvlen]; exact h.le_maxSize)
    have hread := hrep.readableBytes_eq
    have hwrit := hrep.writableBytes_eq
    simp only [assert_of hr, hdist, hcopy, assert_of hread.symm, assert_of, ok_bind]
    refine ⟨_, rfl, hrep, ?_⟩
    rw [hwrit, hadd]
    dsimp only
    rw [hvlen]
    omega

/-- After ensuring room the contents are the same, the room is there, and the assertion at the
end holds. -/
theorem ensureWritableBytes_represents {b : Buffer} {s : Bytes} (h : b.Represents s) {len : ℕ}
    (hmax : kCheapPrepend + s.length + len ≤ maxSize) :
    ∃ b', b.ensureWritableBytes len = .ok b' ∧ b'.Represents s ∧ len ≤ b'.writableBytes := by
  unfold ensureWritableBytes
  split_ifs with hlt
  · obtain ⟨b', hb', hr, hw⟩ := makeSpace_represents h hlt hmax
    simp only [hb', assert_of hw, ok_bind]
    exact ⟨b', rfl, hr, hw⟩
  · simp only [assert_of (Nat.le_of_not_lt hlt), ok_bind]
    exact ⟨b, rfl, h, Nat.le_of_not_lt hlt⟩

/-- Bytes copied to the writable region, as far as it goes, are behind the contents. -/
theorem copyTo_represents {b : Buffer} {s : Bytes} (h : b.Represents s) {data : Bytes}
    (hroom : data.length ≤ b.writableBytes) :
    ∃ v, copyTo b.buffer_ b.writerIndex_ data = .ok v ∧ v.length = b.buffer_.length ∧
      (⟨v, b.readerIndex_, b.writerIndex_ + data.length⟩ : Buffer).Represents (s ++ data) := by
  obtain ⟨pre, post, hv, hr, hw⟩ := h.layout
  have hroom' : data.length ≤ post.length := by
    rw [h.writableBytes_eq, hv, hw] at hroom
    simp only [List.length_append] at hroom
    omega
  have hcopy : copyTo b.buffer_ b.writerIndex_ data =
      .ok (pre ++ s ++ data ++ post.drop data.length) := by
    have := copyTo_append (pre ++ s) (post.take data.length) (post.drop data.length) data
      (List.length_take_of_le hroom').symm
    rw [List.length_append, List.append_assoc (pre ++ s), List.take_append_drop] at this
    rw [hv, hw, this]
  have hlen : (pre ++ s ++ data ++ post.drop data.length).length = b.buffer_.length := by
    rw [hv]
    simp only [List.length_append, List.length_drop]
    omega
  refine ⟨_, hcopy, hlen, ⟨pre, post.drop data.length, by simp, hr, ?_⟩, ?_, ?_⟩
  · simp only [hw, List.length_append]
    omega
  · rw [hlen]
    exact h.cheapPrepend_le
  · rw [hlen]
    exact h.le_maxSize

/-- Appending adds at the end. -/
theorem append_represents {b : Buffer} {s : Bytes} (h : b.Represents s) {data : Bytes}
    (hmax : kCheapPrepend + s.length + data.length ≤ maxSize) :
    ∃ b', b.append data = .ok b' ∧ b'.Represents (s ++ data) := by
  obtain ⟨b₁, hb₁, hr₁, hw₁⟩ := ensureWritableBytes_represents h hmax
  obtain ⟨v, hcopy, hlen, hrep⟩ := copyTo_represents hr₁ hw₁
  have hidx := hrep.index_le
  have hlt := hrep.length_lt
  have hadd : addSize b₁.writerIndex_ data.length = b₁.writerIndex_ + data.length :=
    addSize_eq (by dsimp only at hidx hlt; omega)
  refine ⟨_, ?_, hrep⟩
  unfold append
  rw [hb₁, ok_bind, hcopy, ok_bind, ← hadd]
  rfl

/-- Prepending adds at the front, where there is room for it. -/
theorem prepend_represents {b : Buffer} {s : Bytes} (h : b.Represents s) {data : Bytes}
    (hroom : data.length ≤ b.prependableBytes) :
    ∃ b', b.prepend data = .ok b' ∧ b'.Represents (data ++ s) := by
  obtain ⟨pre, post, hv, hr, hw⟩ := h.layout
  have hidx := h.index_le
  have hlt := h.length_lt
  have hroom' : data.length ≤ pre.length := hr ▸ hroom
  have hsub : subSize b.readerIndex_ data.length = pre.length - data.length := by
    rw [hr, subSize_eq hroom' (by omega)]
  have hpl : (pre.take (pre.length - data.length)).length = pre.length - data.length := by
    simp
  have hcopy : copyTo b.buffer_ (pre.length - data.length) data =
      .ok (pre.take (pre.length - data.length) ++ data ++ (s ++ post)) := by
    have := copyTo_append (pre.take (pre.length - data.length))
      (pre.drop (pre.length - data.length)) (s ++ post) data (by
        rw [List.length_drop]
        omega)
    rw [List.take_append_drop, hpl, ← List.append_assoc pre] at this
    rw [hv, this]
  have hlen : (pre.take (pre.length - data.length) ++ data ++ (s ++ post)).length =
      b.buffer_.length := by
    rw [hv]
    simp only [List.length_append, List.length_take]
    omega
  unfold prepend
  simp only [assert_of hroom, hsub, hcopy, ok_bind]
  refine ⟨_, rfl, ⟨⟨pre.take (pre.length - data.length), post, ?_, hpl.symm, ?_⟩, ?_, ?_⟩⟩
  · simp
  · rw [hw, hpl, List.length_append]
    omega
  · rw [hlen]
    exact h.cheapPrepend_le
  · rw [hlen]
    exact h.le_maxSize

end Buffer

/-! ## Runs over a family of buffers -/

section Runs

variable {ι : Type}

/-- An operation on one buffer of a family, or a swap of two. -/
inductive Op (ι : Type) where
  | construct (i : ι) (initialSize : ℕ)
  | append (i : ι) (data : Bytes)
  | appendInt32 (i : ι) (x : BitVec 32)
  | prepend (i : ι) (data : Bytes)
  | prependInt32 (i : ι) (x : BitVec 32)
  | consume (i : ι) (len : ℕ)
  | consumeInt32 (i : ι)
  | consumeAll (i : ι)
  | retrieveAsString (i : ι) (len : ℕ)
  | retrieveAllAsString (i : ι)
  | retrieveInt32 (i : ι)
  | ensureWritableBytes (i : ι) (len : ℕ)
  | swap (i j : ι)

/-- What an operation returns. -/
inductive Output where
  | none
  | string (s : Bytes)
  | int32 (x : BitVec 32)
  deriving DecidableEq

/-- The asserts at the entry of an operation, and sizes below the `max_size` of the vector. -/
def Admits (σ : ι → Buffer) : Op ι → Prop
  | .construct _ n => Buffer.kCheapPrepend + n ≤ maxSize
  | .append i data => Buffer.kCheapPrepend + (σ i).readableBytes + data.length ≤ maxSize
  | .appendInt32 i _ => Buffer.kCheapPrepend + (σ i).readableBytes + 4 ≤ maxSize
  | .prepend i data => data.length ≤ (σ i).prependableBytes
  | .prependInt32 i _ => 4 ≤ (σ i).prependableBytes
  | .consume i len => len ≤ (σ i).readableBytes
  | .consumeInt32 i => 4 ≤ (σ i).readableBytes
  | .consumeAll _ => True
  | .retrieveAsString i len => len ≤ (σ i).readableBytes
  | .retrieveAllAsString _ => True
  | .retrieveInt32 i => 4 ≤ (σ i).readableBytes
  | .ensureWritableBytes i len => Buffer.kCheapPrepend + (σ i).readableBytes + len ≤ maxSize
  | .swap _ _ => True

instance decidableAdmits (σ : ι → Buffer) : ∀ op : Op ι, Decidable (Admits σ op)
  | .construct _ _ => inferInstanceAs (Decidable (_ ≤ _))
  | .append _ _ => inferInstanceAs (Decidable (_ ≤ _))
  | .appendInt32 _ _ => inferInstanceAs (Decidable (_ ≤ _))
  | .prepend _ _ => inferInstanceAs (Decidable (_ ≤ _))
  | .prependInt32 _ _ => inferInstanceAs (Decidable (_ ≤ _))
  | .consume _ _ => inferInstanceAs (Decidable (_ ≤ _))
  | .consumeInt32 _ => inferInstanceAs (Decidable (_ ≤ _))
  | .consumeAll _ => instDecidableTrue
  | .retrieveAsString _ _ => inferInstanceAs (Decidable (_ ≤ _))
  | .retrieveAllAsString _ => instDecidableTrue
  | .retrieveInt32 _ => inferInstanceAs (Decidable (_ ≤ _))
  | .ensureWritableBytes _ _ => inferInstanceAs (Decidable (_ ≤ _))
  | .swap _ _ => instDecidableTrue

variable [DecidableEq ι]

/-- Store the buffer an operation leaves. -/
def store (σ : ι → Buffer) (i : ι) (r : Except BufferFault Buffer) :
    Except BufferFault ((ι → Buffer) × Output) :=
  r.map fun b => (Function.update σ i b, .none)

/-- One operation of the code. -/
def step (σ : ι → Buffer) : Op ι → Except BufferFault ((ι → Buffer) × Output)
  | .construct i n => store σ i (Buffer.new n)
  | .append i data => store σ i ((σ i).append data)
  | .appendInt32 i x => store σ i ((σ i).appendInt32 x)
  | .prepend i data => store σ i ((σ i).prepend data)
  | .prependInt32 i x => store σ i ((σ i).prependInt32 x)
  | .consume i len => store σ i ((σ i).consume len)
  | .consumeInt32 i => store σ i (σ i).consumeInt32
  | .consumeAll i => store σ i (.ok (σ i).consumeAll)
  | .retrieveAsString i len =>
    ((σ i).retrieveAsString len).map fun p => (Function.update σ i p.1, .string p.2)
  | .retrieveAllAsString i =>
    (σ i).retrieveAllAsString.map fun p => (Function.update σ i p.1, .string p.2)
  | .retrieveInt32 i =>
    (σ i).retrieveInt32.map fun p => (Function.update σ i p.1, .int32 p.2)
  | .ensureWritableBytes i len => store σ i ((σ i).ensureWritableBytes len)
  | .swap i j => .ok (Function.update (Function.update σ i (σ j)) j (σ i), .none)

/-- What an operation does to a family of byte sequences. -/
def absStep (α : ι → Bytes) : Op ι → (ι → Bytes) × Output
  | .construct i _ => (Function.update α i [], .none)
  | .append i data => (Function.update α i (α i ++ data), .none)
  | .appendInt32 i x => (Function.update α i (α i ++ toNetwork x), .none)
  | .prepend i data => (Function.update α i (data ++ α i), .none)
  | .prependInt32 i x => (Function.update α i (toNetwork x ++ α i), .none)
  | .consume i len => (Function.update α i ((α i).drop len), .none)
  | .consumeInt32 i => (Function.update α i ((α i).drop 4), .none)
  | .consumeAll i => (Function.update α i [], .none)
  | .retrieveAsString i len => (Function.update α i ((α i).drop len), .string ((α i).take len))
  | .retrieveAllAsString i => (Function.update α i [], .string (α i))
  | .retrieveInt32 i => (Function.update α i ((α i).drop 4), .int32 (ofNetwork ((α i).take 4)))
  | .ensureWritableBytes _ _ => (α, .none)
  | .swap i j => (Function.update (Function.update α i (α j)) j (α i), .none)

/-- A run of the code: the buffers it leaves and what its operations returned. -/
def run (σ : ι → Buffer) : List (Op ι) → Except BufferFault ((ι → Buffer) × List Output)
  | [] => .ok (σ, [])
  | op :: ops => do
    let (σ', o) ← step σ op
    let (σ'', os) ← run σ' ops
    return (σ'', o :: os)

/-- A run over byte sequences. -/
def absRun (α : ι → Bytes) : List (Op ι) → (ι → Bytes) × List Output
  | [] => (α, [])
  | op :: ops =>
    let r := absRun (absStep α op).1 ops
    (r.1, (absStep α op).2 :: r.2)

/-- The asserts at the entry of the operations hold along a run. -/
def Admitted (σ : ι → Buffer) : List (Op ι) → Prop
  | [] => True
  | op :: ops => Admits σ op ∧ ∀ σ' o, step σ op = .ok (σ', o) → Admitted σ' ops

/-- Replacing one buffer and its byte sequence keeps the family related. -/
private theorem update_represents {σ : ι → Buffer} {α : ι → Bytes}
    (h : ∀ i, (σ i).Represents (α i)) (i : ι) {b : Buffer} {s : Bytes} (hb : b.Represents s) :
    ∀ j, (Function.update σ i b j).Represents (Function.update α i s j) := by
  intro j
  by_cases hj : j = i
  · subst hj
    simpa using hb
  · simpa [hj] using h j

/-- Storing the result of an operation that succeeds. -/
private theorem store_represents {σ : ι → Buffer} {α : ι → Bytes}
    (h : ∀ i, (σ i).Represents (α i)) (i : ι) {r : Except BufferFault Buffer} {s : Bytes}
    (hr : ∃ b, r = .ok b ∧ b.Represents s) :
    ∃ σ', store σ i r = .ok (σ', .none) ∧
      ∀ j, (σ' j).Represents (Function.update α i s j) := by
  obtain ⟨b, rfl, hb⟩ := hr
  exact ⟨_, rfl, update_represents h i hb⟩

/-- **One operation refines its abstract counterpart**: if its asserts hold, it succeeds,
returns what the abstract operation returns, and leaves related buffers. -/
theorem step_represents {σ : ι → Buffer} {α : ι → Bytes} (h : ∀ i, (σ i).Represents (α i))
    {op : Op ι} (hop : Admits σ op) :
    ∃ σ', step σ op = .ok (σ', (absStep α op).2) ∧
      ∀ i, (σ' i).Represents ((absStep α op).1 i) := by
  have hread : ∀ i, (σ i).readableBytes = (α i).length := fun i => (h i).readableBytes_eq
  cases op with
  | construct i n =>
    obtain ⟨b, hb, hr, -⟩ := Buffer.new_represents hop
    exact store_represents h i ⟨b, hb, hr⟩
  | append i data =>
    simp only [Admits, hread] at hop
    exact store_represents h i (Buffer.append_represents (h i) hop)
  | appendInt32 i x =>
    simp only [Admits, hread] at hop
    exact store_represents h i (Buffer.append_represents (h i) hop)
  | prepend i data => exact store_represents h i (Buffer.prepend_represents (h i) hop)
  | prependInt32 i x => exact store_represents h i (Buffer.prepend_represents (h i) hop)
  | consume i len =>
    simp only [Admits, hread] at hop
    exact store_represents h i (Buffer.consume_represents (h i) hop)
  | consumeInt32 i =>
    simp only [Admits, hread] at hop
    exact store_represents h i (Buffer.consume_represents (h i) hop)
  | consumeAll i =>
    exact store_represents h i ⟨_, rfl, Buffer.consumeAll_represents (h i)⟩
  | retrieveAsString i len =>
    simp only [Admits, hread] at hop
    obtain ⟨b, hb, hr⟩ := Buffer.retrieveAsString_represents (h i) hop
    exact ⟨_, by simp only [step, hb, Except.map, absStep], update_represents h i hr⟩
  | retrieveAllAsString i =>
    obtain ⟨b, hb, hr⟩ := Buffer.retrieveAsString_represents (h i) (Nat.le_refl (α i).length)
    rw [List.take_length] at hb
    rw [List.drop_length] at hr
    refine ⟨_, ?_, update_represents h i hr⟩
    simp only [step, Buffer.retrieveAllAsString, hread, hb, Except.map, absStep]
  | retrieveInt32 i =>
    simp only [Admits, hread] at hop
    obtain ⟨b, hb, hr⟩ := Buffer.retrieveInt32_represents (h i) hop
    exact ⟨_, by simp only [step, hb, Except.map, absStep], update_represents h i hr⟩
  | ensureWritableBytes i len =>
    simp only [Admits, hread] at hop
    obtain ⟨b, hb, hr, -⟩ := Buffer.ensureWritableBytes_represents (h i) hop
    obtain ⟨σ', hσ', hrep⟩ := store_represents h i ⟨b, hb, hr⟩
    refine ⟨σ', hσ', fun j => ?_⟩
    have := hrep j
    rwa [Function.update_eq_self] at this
  | swap i j => exact ⟨_, rfl, update_represents (update_represents h i (h j)) j (h i)⟩

/-- **A run refines the abstract run.** By induction on the run, from `step_represents`. -/
theorem run_represents {ops : List (Op ι)} :
    ∀ {σ : ι → Buffer} {α : ι → Bytes}, (∀ i, (σ i).Represents (α i)) → Admitted σ ops →
      ∃ σ', run σ ops = .ok (σ', (absRun α ops).2) ∧
        ∀ i, (σ' i).Represents ((absRun α ops).1 i) := by
  induction ops with
  | nil =>
    intro σ α h _
    exact ⟨σ, rfl, h⟩
  | cons op ops ih =>
    intro σ α h hadm
    obtain ⟨σ₁, hσ₁, h₁⟩ := step_represents h hadm.1
    obtain ⟨σ₂, hσ₂, h₂⟩ := ih h₁ (hadm.2 _ _ hσ₁)
    exact ⟨σ₂, by simp only [run, hσ₁, hσ₂, ok_bind, absRun, pure, Except.pure], h₂⟩

/-- A run stays admitted when it is cut short. -/
theorem Admitted.of_prefix {ops pre : List (Op ι)} (hpre : pre <+: ops) :
    ∀ {σ : ι → Buffer}, Admitted σ ops → Admitted σ pre := by
  obtain ⟨rest, rfl⟩ := hpre
  induction pre with
  | nil => exact fun _ => trivial
  | cons op pre ih => exact fun h => ⟨h.1, fun σ' o hs => ih (h.2 σ' o hs)⟩

/-- **The buffer refines a byte sequence.** Along every run that the asserts admit, from buffers
constructed with any sizes, no operation fails, the readable regions are the byte sequences of
the abstract run, the operations return what they return there, and the indices stay in order
inside a vector with room for the cheap prepend. An integer is stored as its four bytes, the
most significant first, and read back from them. -/
theorem buffer_refines_byte_sequence (sizes : ι → ℕ)
    (hsizes : ∀ i, Buffer.kCheapPrepend + sizes i ≤ maxSize) (σ₀ : ι → Buffer)
    (hσ₀ : ∀ i, Buffer.new (sizes i) = .ok (σ₀ i)) (ops : List (Op ι))
    (hadm : Admitted σ₀ ops) :
    (∀ pre, pre <+: ops →
      ∃ σ, run σ₀ pre = .ok (σ, (absRun (fun _ => []) pre).2) ∧
        ∀ i, (σ i).contents = (absRun (fun _ => []) pre).1 i ∧
          (σ i).readerIndex_ ≤ (σ i).writerIndex_ ∧
          (σ i).writerIndex_ ≤ (σ i).buffer_.length ∧
          Buffer.kCheapPrepend ≤ (σ i).buffer_.length) ∧
      ∀ x : BitVec 32, (toNetwork x).length = 4 ∧
        (toNetwork x).foldl (fun n c => 256 * n + c.toNat) 0 = x.toNat ∧
        ofNetwork (toNetwork x) = x := by
  refine ⟨fun pre hpre => ?_, fun x => ⟨rfl, foldl_toNetwork x, ofNetwork_toNetwork x⟩⟩
  have h₀ : ∀ i, (σ₀ i).Represents [] := by
    intro i
    obtain ⟨b, hb, hr, -⟩ := Buffer.new_represents (hsizes i)
    rw [hσ₀ i] at hb
    exact Except.ok.inj hb ▸ hr
  obtain ⟨σ, hσ, h⟩ := run_represents h₀ (hadm.of_prefix hpre)
  exact ⟨σ, hσ, fun i => ⟨(h i).contents_eq, (h i).index_le.1, (h i).index_le.2,
    (h i).cheapPrepend_le⟩⟩

/-- A run on one small buffer: an append that makes it grow, a prepend, a read, an integer. -/
theorem buffer_refines_byte_sequence_small :
    ∃ σ, run (fun _ : Unit => ⟨List.replicate 10 0, 8, 8⟩)
        [.append () [1, 2, 3], .prepend () [9], .retrieveAsString () 2, .appendInt32 () 258] =
          .ok (σ, [.none, .none, .string [9, 1], .none]) ∧
      (σ ()).contents = [2, 3, 0, 0, 1, 2] := by
  have hadm : Admitted (fun _ : Unit => (⟨List.replicate 10 0, 8, 8⟩ : Buffer))
      [.append () [1, 2, 3], .prepend () [9], .retrieveAsString () 2, .appendInt32 () 258] := by
    refine ⟨by decide, fun σ₁ o₁ h₁ => ?_⟩
    obtain ⟨rfl, -⟩ := Prod.mk.inj (Except.ok.inj h₁)
    refine ⟨by decide, fun σ₂ o₂ h₂ => ?_⟩
    obtain ⟨rfl, -⟩ := Prod.mk.inj (Except.ok.inj h₂)
    refine ⟨by decide, fun σ₃ o₃ h₃ => ?_⟩
    obtain ⟨rfl, -⟩ := Prod.mk.inj (Except.ok.inj h₃)
    exact ⟨by decide, fun _ _ _ => trivial⟩
  obtain ⟨σ, hσ, h⟩ := (buffer_refines_byte_sequence (fun _ => 2) (fun _ => by decide) _
    (fun _ => rfl) _ hadm).1 _ (List.prefix_refl _)
  exact ⟨σ, hσ, (h ()).1⟩

end Runs

end LouisNet.Base
