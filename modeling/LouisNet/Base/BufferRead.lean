import LouisNet.Base.BufferGrowth

set_option relaxedAutoImplicit false
set_option autoImplicit false

/-!
# Reading from a descriptor

`Buffer::readFd` reads with one call of `::readv` into the writable region and, if that is short,
into an array of 65536 bytes on the stack, from which the rest is appended once the writable region
is full. The kernel returns an error, or fills the regions in order with no more bytes than they
hold; the data it reads is a parameter here.

## Main definitions

* `LouisNet.Base.Readv`, `LouisNet.Base.Readv.Allowed` — the results of `::readv`.
* `LouisNet.Base.Buffer.appendM`, `LouisNet.Base.Buffer.readFd` — the functions over the state of
  the object.

## Main results

* `LouisNet.Base.Buffer.readFd_represents`, `LouisNet.Base.Buffer.readFd_lengthError` — the bytes
  read are appended, unless the buffer would be longer than a vector can be.
-/

namespace LouisNet.Base

open Lib

/-! ## The call of the kernel -/

/-- A result of `::readv`. -/
inductive Readv where
  /-- -1, with `errno` -/
  | error (errno : ℤ)
  /-- the bytes read, in order -/
  | read (data : Bytes)

/-- No more bytes are read than the regions hold. -/
def Readv.Allowed (iov : List ℕ) : Readv → Prop
  | .error _ => True
  | .read data => data.length ≤ iov.sum

/-- The bytes read, region by region. -/
def scatter : List ℕ → Bytes → List Bytes
  | [], _ => []
  | n :: ns, data => data.take n :: scatter ns (data.drop n)

namespace Buffer

/-- `sizeof(extrabuf)`. -/
def extrabufSize : ℕ := 65536

/-- The lengths of the regions that `readFd` passes to `::readv`. -/
def iov (b : Buffer) : List ℕ :=
  if b.writableBytes < extrabufSize then [b.writableBytes, extrabufSize] else [b.writableBytes]

/-- `Buffer::append`. -/
def appendM (data : Bytes) : BufferM Unit := do
  ensureWritableBytesM data.length
  let b ← get
  let v ← liftE (copyTo b.buffer_ b.writerIndex_ data)
  set { b with buffer_ := v }
  modify fun b => b.hasWritten data.length

/-- `Buffer::readFd`: the value returned, and the error saved. -/
def readFd (result : Readv) (savedErrno : ℤ) : BufferM (ℤ × ℤ) := do
  let b ← get
  let writable := b.writableBytes
  match result with
  | .error errno => return (-1, errno)
  | .read data =>
    let n := data.length
    let parts := scatter b.iov data
    let v ← liftE (copyTo b.buffer_ b.writerIndex_ (parts.getD 0 []))
    set { b with buffer_ := v }
    if n ≤ writable then
      modify fun b => b.hasWritten n
    else
      modify fun b => { b with writerIndex_ := b.buffer_.length }
      let rest ← liftE (slice (parts.getD 1 []) 0 (subSize n writable))
      appendM rest
    return (n, savedErrno)

/-! ## Appending -/

/-- Appending over the state of the object, when it succeeds. -/
theorem appendM_of_ok {data : Bytes} {b b' : Buffer} (h : b.append data = .ok b') :
    appendM data b = .ok () b' := by
  unfold append at h
  unfold appendM
  cases hroom : b.ensureWritableBytes data.length with
  | error e =>
    rw [hroom] at h
    cases h
  | ok b₁ =>
    rw [hroom, ok_bind] at h
    rw [bind_of_ok (ensureWritableBytesM_of_ok hroom), bind_get]
    cases hcopy : copyTo b₁.buffer_ b₁.writerIndex_ data with
    | error e =>
      rw [hcopy] at h
      cases h
    | ok v =>
      rw [hcopy] at h
      cases h
      rfl

/-- Appending over the state of the object, when the vector would be too long. -/
theorem appendM_lengthError {data : Bytes} {b : Buffer}
    (h : b.ensureWritableBytes data.length = .error .lengthError) :
    appendM data b = .error .lengthError b := by
  obtain ⟨b', hb', hsame⟩ := ensureWritableBytesM_of_error h
  obtain rfl := hsame (by decide)
  exact bind_of_error hb'

/-! ## Reading -/

variable {b : Buffer} {s : Bytes}

/-- The first region takes the bytes that fit into the buffer. -/
theorem getD_zero_scatter (b : Buffer) (data : Bytes) :
    (scatter b.iov data).getD 0 [] = data.take b.writableBytes := by
  unfold iov
  split_ifs <;> rfl

/-- Bytes that do not fit into the buffer are all in the second region. -/
theorem getD_one_scatter {data : Bytes} (hallowed : (Readv.read data).Allowed b.iov)
    (hlt : b.writableBytes < data.length) :
    (scatter b.iov data).getD 1 [] = data.drop b.writableBytes ∧
      data.length ≤ b.writableBytes + extrabufSize := by
  have hsum : data.length ≤ b.iov.sum := hallowed
  unfold iov at hsum ⊢
  split_ifs at hsum ⊢
  · simp only [List.sum_cons, List.sum_nil, Nat.add_zero] at hsum
    refine ⟨?_, hsum⟩
    show (data.drop b.writableBytes).take extrabufSize = data.drop b.writableBytes
    rw [List.take_of_length_le]
    rw [List.length_drop]
    omega
  · simp only [List.sum_cons, List.sum_nil, Nat.add_zero] at hsum
    omega

/-- A reading that fits into the buffer. -/
theorem readFd_of_le (h : b.Represents s) {data : Bytes} (savedErrno : ℤ)
    (hle : data.length ≤ b.writableBytes) :
    ∃ b', readFd (.read data) savedErrno b = .ok ((data.length : ℤ), savedErrno) b' ∧
      b'.Represents (s ++ data) := by
  obtain ⟨v, hcopy, hlen, hrep⟩ := copyTo_represents h hle
  have hidx := hrep.index_le
  have hmax := hrep.le_maxSize
  unfold maxSize at hmax
  have hadd : addSize b.writerIndex_ data.length = b.writerIndex_ + data.length :=
    addSize_eq (by dsimp only at hidx hmax; omega)
  refine ⟨_, ?_, hrep⟩
  unfold readFd
  rw [bind_get]
  dsimp only
  rw [getD_zero_scatter, List.take_of_length_le hle, hcopy, bind_liftE_ok, bind_set, if_pos hle,
    ← hadd]
  rfl

/-- A reading that fills the buffer, up to the call of `append` for the rest. -/
theorem readFd_of_lt (h : b.Represents s) {data : Bytes} (savedErrno : ℤ)
    (hallowed : (Readv.read data).Allowed b.iov) (hlt : b.writableBytes < data.length) :
    ∃ b₁, b₁.Represents (s ++ data.take b.writableBytes) ∧ b₁.writableBytes = 0 ∧
      readFd (.read data) savedErrno b =
        (appendM (data.drop b.writableBytes) >>= fun _ =>
          pure ((data.length : ℤ), savedErrno)) b₁ := by
  obtain ⟨hrest, hbound⟩ := getD_one_scatter hallowed hlt
  have htake : (data.take b.writableBytes).length = b.writableBytes :=
    List.length_take_of_le hlt.le
  obtain ⟨v, hcopy, hlen, hrep⟩ := copyTo_represents h htake.le
  have hidx := h.index_le
  have hmax := h.le_maxSize
  unfold maxSize at hmax
  have hfull : b.writerIndex_ + (data.take b.writableBytes).length = v.length := by
    rw [htake, hlen, h.writableBytes_eq]
    omega
  rw [hfull] at hrep
  have hsub : subSize data.length b.writableBytes = data.length - b.writableBytes := by
    have : extrabufSize = 65536 := rfl
    have := h.writableBytes_eq
    exact subSize_eq hlt.le (by omega)
  have hslice : slice (data.drop b.writableBytes) 0 (subSize data.length b.writableBytes) =
      .ok (data.drop b.writableBytes) := by
    unfold slice
    rw [hsub, if_pos ⟨Nat.zero_le _, by rw [List.length_drop]⟩, List.drop_zero,
      List.take_of_length_le (by rw [List.length_drop])]
  refine ⟨⟨v, b.readerIndex_, v.length⟩, hrep, ?_, ?_⟩
  · rw [hrep.writableBytes_eq]
    simp
  · unfold readFd
    rw [bind_get]
    dsimp only
    rw [getD_zero_scatter, hcopy, bind_liftE_ok, bind_set, if_neg (Nat.not_le_of_lt hlt), hrest,
      hslice]
    rfl

/-- The bytes that fit and the bytes that do not are the bytes read. -/
theorem length_take_drop (s data : Bytes) (n : ℕ) :
    kCheapPrepend + (s ++ data.take n).length + (data.drop n).length =
      kCheapPrepend + s.length + data.length := by
  rw [List.length_append, List.length_take, List.length_drop]
  omega

/-- **What was read is appended**, if it fits into the buffer or the longer vector exists. -/
theorem readFd_represents (h : b.Represents s) {data : Bytes} (savedErrno : ℤ)
    (hallowed : (Readv.read data).Allowed b.iov)
    (hfits : data.length ≤ b.writableBytes ∨ kCheapPrepend + s.length + data.length ≤ maxSize) :
    ∃ b', readFd (.read data) savedErrno b = .ok ((data.length : ℤ), savedErrno) b' ∧
      b'.Represents (s ++ data) := by
  rcases Nat.lt_or_ge b.writableBytes data.length with hlt | hle
  · have hmax := hfits.resolve_left (Nat.not_le_of_lt hlt)
    obtain ⟨b₁, hrep, -, hread⟩ := readFd_of_lt h savedErrno hallowed hlt
    obtain ⟨b', hb', hr⟩ := append_represents hrep (by rwa [length_take_drop])
    rw [List.append_assoc, List.take_append_drop] at hr
    exact ⟨b', hread.trans (bind_of_ok (appendM_of_ok hb')), hr⟩
  · exact readFd_of_le h savedErrno hle

/-- **A reading for which no vector is long enough** throws behind the bytes that fit. -/
theorem readFd_lengthError (h : b.Represents s) {data : Bytes} (savedErrno : ℤ)
    (hallowed : (Readv.read data).Allowed b.iov) (hlt : b.writableBytes < data.length)
    (hmax : maxSize < kCheapPrepend + s.length + data.length) :
    ∃ b', readFd (.read data) savedErrno b = .error .lengthError b' ∧
      b'.Represents (s ++ data.take b.writableBytes) := by
  obtain ⟨-, hbound⟩ := getD_one_scatter hallowed hlt
  obtain ⟨b₁, hrep, hfull, hread⟩ := readFd_of_lt h savedErrno hallowed hlt
  have hroom : b₁.writableBytes < (data.drop b.writableBytes).length := by
    rw [hfull, List.length_drop]
    omega
  have hsum : kCheapPrepend + s.length + data.length < 2 ^ 64 := by
    have hw := h.writerIndex_eq
    have hidx := h.index_le
    have hsize := h.le_maxSize
    have hwr := h.writableBytes_eq
    unfold maxSize at hsize
    have : kCheapPrepend = 8 := rfl
    have : extrabufSize = 65536 := rfl
    omega
  have herror := ensureWritableBytes_lengthError hrep hroom (by rwa [length_take_drop])
    (by rwa [length_take_drop])
  exact ⟨b₁, hread.trans (bind_of_error (appendM_lengthError herror)), hrep⟩

/-- A buffer that represents a byte sequence is well formed. -/
theorem Represents.wellFormed (h : b.Represents s) : b.WellFormed :=
  ⟨h.index_le.1, h.index_le.2, h.cheapPrepend_le, h.le_maxSize⟩

/-- **Reading appends exactly what was read.** For every well-formed buffer and every result of
`::readv`: on an error the buffer is unchanged and the error is saved; on `n` bytes, `n` is
returned, and the readable bytes are followed by exactly these, if they fit behind them or a vector
for all of them exists. Otherwise a `std::length_error` is thrown behind the bytes that fit. The
indices stay in order in all cases. -/
theorem readFd_appends (hb : b.WellFormed) {result : Readv} (hallowed : result.Allowed b.iov)
    (savedErrno : ℤ) :
    (∀ errno, result = .error errno → readFd result savedErrno b = .ok (-1, errno) b) ∧
    ∀ data, result = .read data →
      (data.length ≤ b.writableBytes ∨
          kCheapPrepend + b.readableBytes + data.length ≤ maxSize →
        ∃ b', readFd result savedErrno b = .ok ((data.length : ℤ), savedErrno) b' ∧
          b'.WellFormed ∧ b'.contents = b.contents ++ data) ∧
      (b.writableBytes < data.length →
        maxSize < kCheapPrepend + b.readableBytes + data.length →
          ∃ b', readFd result savedErrno b = .error .lengthError b' ∧
            b'.WellFormed ∧ b'.contents = b.contents ++ data.take b.writableBytes) := by
  have h := hb.represents
  constructor
  · rintro errno rfl
    rfl
  · rintro data rfl
    rw [h.readableBytes_eq]
    refine ⟨fun hfits => ?_, fun hlt hmax => ?_⟩
    · obtain ⟨b', hb', hr⟩ := readFd_represents h savedErrno hallowed hfits
      exact ⟨b', hb', hr.wellFormed, hr.contents_eq⟩
    · obtain ⟨b', hb', hr⟩ := readFd_lengthError h savedErrno hallowed hlt hmax
      exact ⟨b', hb', hr.wellFormed, hr.contents_eq⟩

/-- Three bytes read into a buffer with room for one. -/
theorem readFd_appends_straddling :
    ∃ b', readFd (.read (ascii "abc")) 0 ⟨List.replicate 9 0, 8, 8⟩ = .ok (3, 0) b' ∧
      b'.WellFormed ∧ b'.contents = ascii "abc" := by
  have hb : (⟨List.replicate 9 0, 8, 8⟩ : Buffer).WellFormed :=
    ⟨by decide, by decide, by decide, by decide⟩
  have hallowed : (Readv.read (ascii "abc")).Allowed
      (⟨List.replicate 9 0, 8, 8⟩ : Buffer).iov := by
    show 3 ≤ _
    decide
  exact ((readFd_appends hb hallowed 0).2 _ rfl).1 (.inr (by decide))

/-- A full buffer of the greatest length has room for one more byte only behind it. -/
theorem readFd_full (hb : b.WellFormed) (hreader : b.readerIndex_ = kCheapPrepend)
    (hwriter : b.writerIndex_ = b.buffer_.length) (hmax : b.buffer_.length = maxSize) (c : UInt8) :
    (Readv.read [c]).Allowed b.iov ∧
      ∃ b', readFd (.read [c]) 0 b = .error .lengthError b' := by
  have h := hb.represents
  have hroom : b.writableBytes = 0 := by rw [h.writableBytes_eq, hwriter, Nat.sub_self]
  have hallowed : (Readv.read [c]).Allowed b.iov := by
    show 1 ≤ b.iov.sum
    rw [iov, hroom]
    decide
  have hlen := h.writerIndex_eq
  have hlt : b.writableBytes < [c].length := by rw [hroom]; exact Nat.one_pos
  obtain ⟨b', hb', -⟩ := readFd_lengthError h 0 hallowed hlt (by
    rw [List.length_singleton]
    omega)
  exact ⟨hallowed, b', hb'⟩

/-- A full buffer of the greatest length: one more byte is lost, and nothing is returned. -/
theorem readFd_max_throws :
    (⟨List.replicate maxSize 0, 8, maxSize⟩ : Buffer).WellFormed ∧
      (Readv.read [0]).Allowed (⟨List.replicate maxSize 0, 8, maxSize⟩ : Buffer).iov ∧
      ∃ b', readFd (.read [0]) 0 ⟨List.replicate maxSize 0, 8, maxSize⟩ =
        .error .lengthError b' := by
  have hlen : (List.replicate maxSize (0 : UInt8)).length = maxSize := List.length_replicate
  have hb : (⟨List.replicate maxSize 0, 8, maxSize⟩ : Buffer).WellFormed :=
    ⟨(by decide : 8 ≤ maxSize), hlen.ge, (by decide : 8 ≤ maxSize).trans hlen.ge, hlen.le⟩
  exact ⟨hb, readFd_full hb rfl hlen.symm hlen 0⟩

end Buffer

end LouisNet.Base
