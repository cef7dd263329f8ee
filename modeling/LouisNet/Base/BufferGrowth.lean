import LouisNet.Base.BufferRefinement

set_option relaxedAutoImplicit false
set_option autoImplicit false

/-!
# Growth of a buffer, for every length

`Buffer::ensureWritableBytes` takes any `size_t`, and three of its sums can wrap around: the length
with the cheap prepend in the test of `makeSpace`, the readable bytes with the length in the size
of the new vector, and the cheap prepend with that size in the constructor. Here the functions are
written over the state of the object, so that an exception leaves the buffer as it is when it is
thrown, and the lengths are found for which growth is safe.

## Main definitions

* `LouisNet.Base.BufferM` — member functions that can throw.
* `LouisNet.Base.Buffer.makeSpaceM`, `LouisNet.Base.Buffer.ensureWritableBytesM` — the functions
  over the state of the object.
* `LouisNet.Base.Buffer.EnsuresRoom` — there is room, or an exception and no change.
* `LouisNet.Base.Buffer.GrowthFits` — the lengths for which that holds.

## Main results

* `LouisNet.Base.Buffer.makeSpaceM_eq`, `LouisNet.Base.Buffer.ensureWritableBytesM_eq` — what they
  do is what the functions on buffers do.
* `LouisNet.Base.Buffer.ensuresRoom_iff` — growth is safe exactly if it fits.
-/

namespace LouisNet.Base

open Lib

/-! ## Over the state of the object -/

/-- A member function of `Buffer` that can throw: the buffer is as it was left. -/
abbrev BufferM (α : Type) : Type := EStateM BufferFault Buffer α

/-- A step that does not touch the object. -/
def liftE {α : Type} (x : Except BufferFault α) : BufferM α := fun b =>
  match x with
  | .ok a => .ok a b
  | .error e => .error e b

/-- A function from a buffer to the next one, as a member function that assigns at the end. -/
def ofStep (x : Except BufferFault Buffer) (b : Buffer) : EStateM.Result BufferFault Buffer Unit :=
  match x with
  | .ok b' => .ok () b'
  | .error e => .error e b

section Monad

variable {α β : Type} (b : Buffer)

theorem bind_of_ok {x : BufferM α} {f : α → BufferM β} {b b' : Buffer} {a : α}
    (h : x b = .ok a b') : (x >>= f) b = f a b' := by
  show EStateM.bind x f b = _
  rw [EStateM.bind, h]

theorem bind_of_error {x : BufferM α} {f : α → BufferM β} {b b' : Buffer} {e : BufferFault}
    (h : x b = .error e b') : (x >>= f) b = .error e b' := by
  show EStateM.bind x f b = _
  rw [EStateM.bind, h]

@[simp] theorem liftE_ok (a : α) : liftE (.ok a) b = .ok a b := rfl

@[simp] theorem bind_liftE_ok (a : α) (f : α → BufferM β) : (liftE (.ok a) >>= f) b = f a b := rfl

@[simp] theorem bind_get (f : Buffer → BufferM β) : ((get : BufferM Buffer) >>= f) b = f b b := rfl

@[simp] theorem bind_set (b' : Buffer) (f : PUnit → BufferM β) :
    ((set b' : BufferM PUnit) >>= f) b = f ⟨⟩ b' := rfl

@[simp] theorem bind_modify (g : Buffer → Buffer) (f : PUnit → BufferM β) :
    ((modify g : BufferM PUnit) >>= f) b = f ⟨⟩ (g b) := rfl

end Monad

namespace Buffer

/-- `Buffer::makeSpace`. -/
def makeSpaceM (len : ℕ) : BufferM Unit := do
  let b ← get
  if addSize b.writableBytes b.prependableBytes < addSize len kCheapPrepend then
    let readable := b.readableBytes
    let other ← liftE (new (addSize readable len))
    liftE (assert (other.readerIndex_ = kCheapPrepend))
    let data ← liftE (slice b.buffer_ b.readerIndex_ b.writerIndex_)
    let v ← liftE (copyTo other.buffer_ other.readerIndex_ data)
    -- `swap(other)`, then the indices
    set { other with buffer_ := v }
    modify fun b => { b with readerIndex_ := kCheapPrepend }
    modify fun b => { b with writerIndex_ := addSize b.readerIndex_ readable }
    let b ← get
    liftE (assert (addSize kCheapPrepend readable = b.writerIndex_))
    liftE (assert (readable = b.readableBytes))
    liftE (assert (b.readerIndex_ = kCheapPrepend))
  else
    liftE (assert (kCheapPrepend < b.readerIndex_))
    let readable := b.readableBytes
    let v ← liftE
      (copyWithin b.buffer_ b.readerIndex_ kCheapPrepend (b.writerIndex_ - b.readerIndex_))
    set { b with buffer_ := v }
    modify fun b => { b with readerIndex_ := kCheapPrepend }
    modify fun b => { b with writerIndex_ := addSize b.readerIndex_ readable }
    let b ← get
    liftE (assert (addSize kCheapPrepend readable = b.writerIndex_))
    liftE (assert (readable = b.readableBytes))

/-- `Buffer::ensureWritableBytes`. -/
def ensureWritableBytesM (len : ℕ) : BufferM Unit := do
  let b ← get
  if b.writableBytes < len then makeSpaceM len
  let b ← get
  liftE (assert (len ≤ b.writableBytes))

/-- A count of bytes is found again behind the cheap prepend. -/
theorem subSize_addSize_kCheapPrepend {n : ℕ} (hn : n < 2 ^ 64) :
    n = subSize (addSize kCheapPrepend n) kCheapPrepend := by
  unfold subSize addSize kCheapPrepend
  omega

/-- The readable bytes are a `size_t`. -/
theorem readableBytes_lt (b : Buffer) : b.readableBytes < 2 ^ 64 := Nat.mod_lt _ (by decide)

/-- **Growth over the state of the object**: whatever throws in `makeSpace` throws before anything
is assigned. -/
theorem makeSpaceM_eq (len : ℕ) (b : Buffer) : makeSpaceM len b = ofStep (b.makeSpace len) b := by
  have hread : ∀ v : Bytes, b.readableBytes =
      readableBytes ⟨v, kCheapPrepend, addSize kCheapPrepend b.readableBytes⟩ := fun _ =>
    subSize_addSize_kCheapPrepend b.readableBytes_lt
  unfold makeSpaceM makeSpace
  rw [bind_get]
  split_ifs with hgrow
  · dsimp only
    cases hnew : new (addSize b.readableBytes len) with
    | error e => rfl
    | ok other =>
      rw [bind_liftE_ok, ok_bind]
      cases hother : assert (other.readerIndex_ = kCheapPrepend) with
      | error e => rfl
      | ok =>
        rw [bind_liftE_ok, ok_bind]
        cases hdata : slice b.buffer_ b.readerIndex_ b.writerIndex_ with
        | error e => rfl
        | ok data =>
          rw [bind_liftE_ok, ok_bind]
          cases hcopy : copyTo other.buffer_ other.readerIndex_ data with
          | error e => rfl
          | ok v =>
            rw [bind_liftE_ok, bind_set, bind_modify, bind_modify, bind_get]
            simp only [ok_bind, bind_liftE_ok, liftE_ok, assert_of, assert_of (hread v)]
            rfl
  · cases hfront : assert (kCheapPrepend < b.readerIndex_) with
    | error e => rfl
    | ok =>
      rw [bind_liftE_ok, ok_bind]
      dsimp only
      cases hcopy : copyWithin b.buffer_ b.readerIndex_ kCheapPrepend
          (b.writerIndex_ - b.readerIndex_) with
      | error e => rfl
      | ok v =>
        rw [bind_liftE_ok, bind_set, bind_modify, bind_modify, bind_get]
        simp only [ok_bind, bind_liftE_ok, liftE_ok, assert_of, assert_of (hread v)]
        rfl

/-- The buffer at the assertion at the end of `ensureWritableBytes`. -/
def roomMade (b : Buffer) (len : ℕ) : Except BufferFault Buffer :=
  if b.writableBytes < len then b.makeSpace len else .ok b

/-- Ensuring room, by the buffer at the assertion at the end. -/
theorem ensureWritableBytes_eq (b : Buffer) (len : ℕ) :
    b.ensureWritableBytes len = (b.roomMade len).bind fun b' =>
      if len ≤ b'.writableBytes then .ok b' else .error .assertion := by
  have hend : ∀ b' : Buffer, (assert (len ≤ b'.writableBytes) >>= fun _ => pure b') =
      if len ≤ b'.writableBytes then .ok b' else .error .assertion := by
    intro b'
    unfold assert
    split_ifs <;> rfl
  unfold ensureWritableBytes roomMade
  split_ifs
  · exact congrArg ((b.makeSpace len).bind ·) (funext hend)
  · exact hend b

/-- Ensuring room over the state of the object: what throws before the assertion at the end throws
before anything is assigned. -/
theorem ensureWritableBytesM_eq (len : ℕ) (b : Buffer) :
    ensureWritableBytesM len b =
      match b.roomMade len with
      | .ok b' => if len ≤ b'.writableBytes then .ok () b' else .error .assertion b'
      | .error e => .error e b := by
  have hend : ∀ b' : Buffer, liftE (assert (len ≤ b'.writableBytes)) b' =
      if len ≤ b'.writableBytes then .ok () b' else .error .assertion b' := by
    intro b'
    unfold assert
    split_ifs <;> rfl
  unfold ensureWritableBytesM roomMade
  rw [bind_get]
  split_ifs
  · have hM := makeSpaceM_eq len b
    cases hs : b.makeSpace len with
    | error e =>
      rw [hs] at hM
      exact bind_of_error hM
    | ok b₁ =>
      rw [hs] at hM
      exact (bind_of_ok hM).trans (hend b₁)
  · exact hend b

/-- Ensuring room over the state of the object, when it succeeds. -/
theorem ensureWritableBytesM_of_ok {len : ℕ} {b b' : Buffer}
    (h : b.ensureWritableBytes len = .ok b') : ensureWritableBytesM len b = .ok () b' := by
  rw [ensureWritableBytesM_eq]
  rw [ensureWritableBytes_eq] at h
  cases hs : b.roomMade len with
  | error e =>
    rw [hs] at h
    cases h
  | ok b₁ =>
    rw [hs, Except.bind] at h
    dsimp only at h ⊢
    split_ifs at h ⊢
    cases h
    rfl

/-- Ensuring room over the state of the object, when it fails: only the assertion at its end can
fail behind a change of the buffer. -/
theorem ensureWritableBytesM_of_error {len : ℕ} {b : Buffer} {e : BufferFault}
    (h : b.ensureWritableBytes len = .error e) :
    ∃ b', ensureWritableBytesM len b = .error e b' ∧ (e ≠ .assertion → b' = b) := by
  rw [ensureWritableBytesM_eq]
  rw [ensureWritableBytes_eq] at h
  cases hs : b.roomMade len with
  | error e' =>
    rw [hs] at h
    cases h
    exact ⟨b, rfl, fun _ => rfl⟩
  | ok b₁ =>
    rw [hs, Except.bind] at h
    dsimp only at h ⊢
    split_ifs at h ⊢
    cases h
    exact ⟨b₁, rfl, fun hne => absurd rfl hne⟩

/-! ## Which lengths are safe -/

/-- The indices of the buffer are in order, and its vector exists and has room for the cheap
prepend. -/
structure WellFormed (b : Buffer) : Prop where
  reader_le : b.readerIndex_ ≤ b.writerIndex_
  writer_le : b.writerIndex_ ≤ b.buffer_.length
  cheapPrepend_le : kCheapPrepend ≤ b.buffer_.length
  le_maxSize : b.buffer_.length ≤ maxSize

/-- A well-formed buffer represents its readable region. -/
theorem WellFormed.represents {b : Buffer} (h : b.WellFormed) : b.Represents b.contents := by
  have hr := h.reader_le
  have hw := h.writer_le
  have hlen : b.contents.length = b.writerIndex_ - b.readerIndex_ := by
    simp only [contents, List.length_drop, List.length_take]
    omega
  refine ⟨⟨b.buffer_.take b.readerIndex_, b.buffer_.drop b.writerIndex_, ?_, ?_, ?_⟩,
    h.cheapPrepend_le, h.le_maxSize⟩
  · have htake : b.buffer_.take b.readerIndex_ =
        (b.buffer_.take b.writerIndex_).take b.readerIndex_ := by
      rw [List.take_take, Nat.min_eq_left hr]
    rw [contents, htake, List.take_append_drop, List.take_append_drop]
  · rw [List.length_take]
    omega
  · rw [List.length_take, hlen]
    omega

/-- After `ensureWritableBytes(len)` there is room for `len` bytes behind the same readable bytes;
or a vector beyond its `max_size` was asked for, and the buffer is as it was. -/
def EnsuresRoom (b : Buffer) (len : ℕ) : Prop :=
  match ensureWritableBytesM len b with
  | .ok _ b' => len ≤ b'.writableBytes ∧ b'.contents = b.contents
  | .error e b' => e = .lengthError ∧ b' = b

/-- The sum of the cheap prepend, the readable bytes and the length does not wrap around; or growth
is taken, and what is left of the sum is beyond `max_size` all the same. -/
def GrowthFits (b : Buffer) (len : ℕ) : Prop :=
  kCheapPrepend + b.readableBytes + len < 2 ^ 64 ∨
    (addSize b.writableBytes b.prependableBytes < addSize len kCheapPrepend ∧
      maxSize < addSize kCheapPrepend (addSize b.readableBytes len))

/-- Room is ensured if the function on buffers does so, or asks for a vector that is too long. -/
theorem ensuresRoom_iff_result (b : Buffer) (len : ℕ) :
    b.EnsuresRoom len ↔
      (∃ b', b.ensureWritableBytes len = .ok b' ∧ len ≤ b'.writableBytes ∧
        b'.contents = b.contents) ∨ b.ensureWritableBytes len = .error .lengthError := by
  unfold EnsuresRoom
  cases h : b.ensureWritableBytes len with
  | ok b' =>
    rw [ensureWritableBytesM_of_ok h]
    simp
  | error e =>
    obtain ⟨b', hb', hsame⟩ := ensureWritableBytesM_of_error h
    rw [hb']
    simp only [reduceCtorEq, false_and, exists_false, false_or, Except.error.injEq]
    constructor
    · exact fun hroom => hroom.1
    · rintro rfl
      exact ⟨rfl, hsame (by decide)⟩

/-- The growth branch of `makeSpace`, when the new vector is too long. -/
theorem makeSpace_of_lengthError {b : Buffer} {len : ℕ}
    (hgrow : addSize b.writableBytes b.prependableBytes < addSize len kCheapPrepend)
    (hmax : maxSize < addSize kCheapPrepend (addSize b.readableBytes len)) :
    b.makeSpace len = .error .lengthError := by
  have hnew : new (addSize b.readableBytes len) = .error .lengthError :=
    if_neg (Nat.not_le_of_lt hmax)
  unfold makeSpace
  rw [if_pos hgrow]
  dsimp only
  rw [hnew]
  rfl

section Safe

variable {b : Buffer} {s : Bytes} {len : ℕ}

/-- Growth of a buffer whose sizes do not wrap around, beyond the longest vector. -/
theorem ensureWritableBytes_lengthError (h : b.Represents s) (hlt : b.writableBytes < len)
    (hfit : kCheapPrepend + s.length + len < 2 ^ 64)
    (hmax : maxSize < kCheapPrepend + s.length + len) :
    b.ensureWritableBytes len = .error .lengthError := by
  have hidx := h.index_le
  have hw := h.writerIndex_eq
  have hwr := h.writableBytes_eq
  have hlen := h.le_maxSize
  unfold maxSize at hmax hlen
  have hk : kCheapPrepend = 8 := rfl
  have hgrow : addSize b.writableBytes b.prependableBytes < addSize len kCheapPrepend := by
    rw [hwr, addSize_eq (by unfold prependableBytes; omega), addSize_eq (by omega)]
    unfold prependableBytes
    omega
  have hbig : maxSize < addSize kCheapPrepend (addSize b.readableBytes len) := by
    rw [h.readableBytes_eq, addSize_eq (a := s.length) (by omega), addSize_eq (by omega)]
    unfold maxSize
    omega
  rw [ensureWritableBytes_eq, roomMade, if_pos hlt, makeSpace_of_lengthError hgrow hbig]
  rfl

/-- Growth into a vector that cannot hold the readable bytes behind the cheap prepend. -/
theorem makeSpace_of_small (h : b.Represents s)
    (hgrow : addSize b.writableBytes b.prependableBytes < addSize len kCheapPrepend)
    (hsmall : addSize kCheapPrepend (addSize b.readableBytes len) < kCheapPrepend + s.length)
    (hmax : addSize kCheapPrepend (addSize b.readableBytes len) ≤ maxSize) :
    b.makeSpace len = .error .outOfBounds := by
  have hnew : new (addSize b.readableBytes len) =
      .ok ⟨List.replicate (addSize kCheapPrepend (addSize b.readableBytes len)) 0,
        kCheapPrepend, kCheapPrepend⟩ := if_pos hmax
  have hdata := h.slice_eq (Nat.le_refl s.length)
  rw [List.take_length, ← h.writerIndex_eq] at hdata
  have hcopy : copyTo (List.replicate (addSize kCheapPrepend (addSize b.readableBytes len)) 0)
      kCheapPrepend s = .error .outOfBounds :=
    if_neg (by rw [List.length_replicate]; omega)
  unfold makeSpace
  rw [if_pos hgrow]
  dsimp only
  rw [hnew, ok_bind]
  dsimp only
  rw [assert_of rfl, ok_bind, hdata, ok_bind, hcopy]
  rfl

/-- Copying inside a vector keeps its length. -/
theorem length_copyLoop (n : ℕ) :
    ∀ (v : Bytes) (src dst : ℕ), (copyLoop v src dst n).length = v.length := by
  induction n with
  | zero => exact fun _ _ _ => rfl
  | succ n ih =>
    intro v src dst
    rw [copyLoop, ih, List.length_set]

/-- Compaction fails at its assertion, or leaves no more room than the vector is long. -/
theorem makeSpace_of_compaction (h : b.Represents s)
    (hgrow : ¬ addSize b.writableBytes b.prependableBytes < addSize len kCheapPrepend) :
    b.makeSpace len = .error .assertion ∨
      ∃ b', b.makeSpace len = .ok b' ∧ b'.writableBytes ≤ maxSize := by
  have hidx := h.index_le
  have hw := h.writerIndex_eq
  have hsize := h.le_maxSize
  have hmax : maxSize < 2 ^ 63 := by decide
  have hk : kCheapPrepend = 8 := rfl
  unfold makeSpace
  rw [if_neg hgrow]
  by_cases hfront : kCheapPrepend < b.readerIndex_
  · have hdist : b.writerIndex_ - b.readerIndex_ = s.length := by omega
    have hcopy : copyWithin b.buffer_ b.readerIndex_ kCheapPrepend s.length =
        .ok (copyLoop b.buffer_ b.readerIndex_ kCheapPrepend s.length) :=
      if_pos ⟨by omega, by omega⟩
    have hread : s.length = readableBytes
        ⟨copyLoop b.buffer_ b.readerIndex_ kCheapPrepend s.length, kCheapPrepend,
          addSize kCheapPrepend s.length⟩ :=
      subSize_addSize_kCheapPrepend (by omega)
    refine .inr ⟨⟨copyLoop b.buffer_ b.readerIndex_ kCheapPrepend s.length, kCheapPrepend,
      addSize kCheapPrepend s.length⟩, ?_, ?_⟩
    · rw [assert_of hfront, ok_bind]
      simp only [h.readableBytes_eq, hdist, hcopy, ok_bind, assert_of, assert_of hread]
      rfl
    · unfold writableBytes
      dsimp only
      rw [length_copyLoop, addSize_eq (by omega), subSize_eq (by omega) (by omega)]
      omega
  · rw [assert, if_neg hfront]
    exact .inl rfl

/-- **Growth is not safe for a sum that wraps around.** Either the new vector cannot hold the
readable bytes, or the length itself wraps around in the test, and the readable bytes are moved
inside a vector that has no room for so many more. -/
theorem not_ensuresRoom_of_wrap (h : b.Represents s) (hlen : len < 2 ^ 64)
    (hfit : ¬ b.GrowthFits len) : ¬ b.EnsuresRoom len := by
  have hidx := h.index_le
  have hw := h.writerIndex_eq
  have hwr := h.writableBytes_eq
  have hsize := h.le_maxSize
  have hmax : maxSize < 2 ^ 63 := by decide
  have hk : kCheapPrepend = 8 := rfl
  obtain ⟨hwrap, hbig⟩ := not_or.mp hfit
  rw [h.readableBytes_eq] at hwrap hbig
  have hlt : b.writableBytes < len := by omega
  rw [ensuresRoom_iff_result, ensureWritableBytes_eq, roomMade, if_pos hlt]
  by_cases hgrow : addSize b.writableBytes b.prependableBytes < addSize len kCheapPrepend
  · have hle : addSize kCheapPrepend (addSize s.length len) ≤ maxSize :=
      Nat.le_of_not_lt fun hlt => hbig ⟨hgrow, hlt⟩
    have hsmall : addSize kCheapPrepend (addSize s.length len) < kCheapPrepend + s.length := by
      unfold addSize
      omega
    rw [makeSpace_of_small h hgrow (by rwa [h.readableBytes_eq]) (by rwa [h.readableBytes_eq])]
    simp [Except.bind]
  · -- the length with the cheap prepend has wrapped around in the test
    have hsum : addSize b.writableBytes b.prependableBytes = b.writableBytes + b.readerIndex_ :=
      addSize_eq (by unfold prependableBytes; omega)
    have hhuge : maxSize < len := by
      rw [hsum] at hgrow
      unfold addSize at hgrow
      omega
    rcases makeSpace_of_compaction h hgrow with herror | ⟨b', hb', hroom⟩
    · rw [herror]
      simp [Except.bind]
    · rw [hb', Except.bind, if_neg (by omega)]
      simp

/-- **For which lengths growth is safe.** In a well-formed buffer, `ensureWritableBytes(len)` makes
room behind the same readable bytes, or throws and changes nothing, exactly if the cheap prepend,
the readable bytes and the length do not wrap around together, or what is left of them after
wrapping around is too long for a vector all the same. -/
theorem ensuresRoom_iff (hb : b.WellFormed) (hlen : len < 2 ^ 64) :
    b.EnsuresRoom len ↔ b.GrowthFits len := by
  have h := hb.represents
  refine ⟨fun hroom => Classical.not_not.mp fun hfit => not_ensuresRoom_of_wrap h hlen hfit hroom,
    fun hfit => ?_⟩
  rw [ensuresRoom_iff_result]
  by_cases hlt : b.writableBytes < len
  · by_cases hfits : kCheapPrepend + b.contents.length + len ≤ maxSize
    · obtain ⟨b', hb', hr, hroom⟩ := ensureWritableBytes_represents h hfits
      exact .inl ⟨b', hb', hroom, hr.contents_eq⟩
    · rw [not_le] at hfits
      rcases hfit with hsum | ⟨hgrow, hbig⟩
      · rw [h.readableBytes_eq] at hsum
        exact .inr (ensureWritableBytes_lengthError h hlt hsum hfits)
      · rw [ensureWritableBytes_eq, roomMade, if_pos hlt, makeSpace_of_lengthError hgrow hbig]
        exact .inr rfl
  · refine .inl ⟨b, ?_, Nat.le_of_not_lt hlt, rfl⟩
    rw [ensureWritableBytes_eq, roomMade, if_neg hlt, Except.bind, if_pos (Nat.le_of_not_lt hlt)]

/-- A buffer of eight bytes that is asked for four more. -/
theorem ensuresRoom_iff_small : (⟨List.replicate 8 0, 8, 8⟩ : Buffer).EnsuresRoom 4 :=
  (ensuresRoom_iff ⟨by decide, by decide, by decide, by decide⟩ (by decide)).mpr
    (.inl (by decide))

/-- The length `2 ^ 64 - 1`, a negative `int32_t` with its sign extended: the assertion of
compaction fails. A length a little smaller: sixteen bytes are copied behind the eighth of a vector
of fourteen. -/
theorem not_ensuresRoom_wrapped :
    ¬ (⟨List.replicate 8 0, 8, 8⟩ : Buffer).EnsuresRoom (2 ^ 64 - 1) ∧
      (⟨List.replicate 8 0, 8, 8⟩ : Buffer).ensureWritableBytes (2 ^ 64 - 1) = .error .assertion ∧
      ¬ (⟨List.replicate 24 0, 8, 24⟩ : Buffer).EnsuresRoom (2 ^ 64 - 10) ∧
      (⟨List.replicate 24 0, 8, 24⟩ : Buffer).ensureWritableBytes (2 ^ 64 - 10) =
        .error .outOfBounds := by
  have h₁ : (⟨List.replicate 8 0, 8, 8⟩ : Buffer).ensureWritableBytes (2 ^ 64 - 1) =
      .error .assertion := by rfl
  have h₂ : (⟨List.replicate 24 0, 8, 24⟩ : Buffer).ensureWritableBytes (2 ^ 64 - 10) =
      .error .outOfBounds := by rfl
  refine ⟨?_, h₁, ?_, h₂⟩
  · rw [ensuresRoom_iff_result, h₁]
    simp
  · rw [ensuresRoom_iff_result, h₂]
    simp

end Safe

end Buffer

end LouisNet.Base
