import LouisNet.Base.BufferRead
import LouisNet.Lib.Run

set_option relaxedAutoImplicit false
set_option autoImplicit false

/-!
# The capacity of the buffers

How long the vectors of the buffers become. Bytes that were consumed leave free space in front of
the readable region, and a buffer grows only when that space does not do; so its vector is never
longer than what the buffer was once asked to hold, with the eight bytes of the cheap prepend. The
operations of the class, `swap` and `readFd` are run over a family of buffers, with a record of the
greatest demand on each of them.

## Main definitions

* `LouisNet.Base.Access`, `LouisNet.Base.Access.Admits`, `LouisNet.Base.access` — an operation or a
  call of `readFd`, when it is admitted, and what it does.
* `LouisNet.Base.demand` — the greatest demand on each buffer, after one more access.
* `LouisNet.Base.Buffer.Sized` — the length of the vector against the greatest demand.

## Main results

* `LouisNet.Base.length_le_demand` — the lengths of the vectors along every run.
-/

namespace LouisNet.Base

open Lib

/-! ## Lengths of vectors -/

/-- A sequence of two computations has succeeded. -/
theorem bind_eq_ok {α β : Type} {x : Except BufferFault α} {f : α → Except BufferFault β} {b : β} :
    (x >>= f) = .ok b ↔ ∃ a, x = .ok a ∧ f a = .ok b := by
  cases x with
  | error e =>
    constructor
    · intro h
      cases h
    · rintro ⟨a, ha, -⟩
      cases ha
  | ok a => simp

/-- Copying into a vector keeps its length. -/
theorem length_copyTo {v v' data : Bytes} {pos : ℕ} (h : copyTo v pos data = .ok v') :
    v'.length = v.length := by
  unfold copyTo at h
  split_ifs at h with hfits
  obtain rfl := Except.ok.inj h
  simp only [List.length_append, List.length_take, List.length_drop]
  omega

/-- Copying inside a vector keeps its length. -/
theorem length_copyWithin {v v' : Bytes} {src dst n : ℕ} (h : copyWithin v src dst n = .ok v') :
    v'.length = v.length := by
  unfold copyWithin at h
  split_ifs at h
  obtain rfl := Except.ok.inj h
  exact Buffer.length_copyLoop n v src dst

namespace Buffer

variable {b b' : Buffer} {s : Bytes} {m : ℕ}

/-- Consuming keeps the vector. -/
theorem buffer_of_consume {len : ℕ} (h : b.consume len = .ok b') : b'.buffer_ = b.buffer_ := by
  obtain ⟨-, -, h⟩ := bind_eq_ok.mp h
  split_ifs at h <;> cases h <;> rfl

/-- Reading bytes and consuming them keeps the vector. -/
theorem buffer_of_retrieveAsString {len : ℕ} {result : Bytes}
    (h : b.retrieveAsString len = .ok (b', result)) : b'.buffer_ = b.buffer_ := by
  obtain ⟨-, -, h⟩ := bind_eq_ok.mp h
  obtain ⟨_, -, h⟩ := bind_eq_ok.mp h
  obtain ⟨b₁, hconsume, h⟩ := bind_eq_ok.mp h
  cases h
  exact buffer_of_consume hconsume

/-- Reading an integer and consuming it keeps the vector. -/
theorem buffer_of_retrieveInt32 {x : BitVec 32} (h : b.retrieveInt32 = .ok (b', x)) :
    b'.buffer_ = b.buffer_ := by
  obtain ⟨-, -, h⟩ := bind_eq_ok.mp h
  obtain ⟨_, -, h⟩ := bind_eq_ok.mp h
  obtain ⟨b₁, hconsume, h⟩ := bind_eq_ok.mp h
  cases h
  exact buffer_of_consume hconsume

/-- Prepending keeps the length of the vector. -/
theorem length_of_prepend {data : Bytes} (h : b.prepend data = .ok b') :
    b'.buffer_.length = b.buffer_.length := by
  obtain ⟨-, -, h⟩ := bind_eq_ok.mp h
  obtain ⟨v, hcopy, h⟩ := bind_eq_ok.mp h
  cases h
  exact length_copyTo hcopy

/-- Growth makes the vector as long as the cheap prepend, the contents and the room asked for, if
it is not that long already. -/
theorem length_of_makeSpace (h : b.Represents s) {len : ℕ}
    (hmax : kCheapPrepend + s.length + len ≤ maxSize) (hmake : b.makeSpace len = .ok b') :
    b'.buffer_.length = max b.buffer_.length (kCheapPrepend + s.length + len) := by
  have hidx := h.index_le
  have hw := h.writerIndex_eq
  have hwr := h.writableBytes_eq
  have hsize := h.le_maxSize
  have hsum : addSize b.writableBytes b.prependableBytes = b.writableBytes + b.readerIndex_ :=
    addSize_eq (by unfold prependableBytes; unfold maxSize at hsize; omega)
  have hlen : addSize len kCheapPrepend = len + kCheapPrepend :=
    addSize_eq (by unfold maxSize at hmax; omega)
  have hnew : addSize s.length len = s.length + len :=
    addSize_eq (by unfold maxSize at hmax; omega)
  unfold makeSpace at hmake
  rw [h.readableBytes_eq, hsum, hlen] at hmake
  dsimp only at hmake
  rw [hnew] at hmake
  split_ifs at hmake with hgrow
  · -- the new vector has the length asked for, and the contents are copied into it
    obtain ⟨other, hother, -, -, hbuffer⟩ := new_represents (n := s.length + len) (by omega)
    rw [hother, ok_bind] at hmake
    obtain ⟨-, -, hmake⟩ := bind_eq_ok.mp hmake
    obtain ⟨data, -, hmake⟩ := bind_eq_ok.mp hmake
    obtain ⟨v, hcopy, hmake⟩ := bind_eq_ok.mp hmake
    obtain ⟨-, -, hmake⟩ := bind_eq_ok.mp hmake
    obtain ⟨-, -, hmake⟩ := bind_eq_ok.mp hmake
    obtain ⟨-, -, hmake⟩ := bind_eq_ok.mp hmake
    cases hmake
    show v.length = _
    rw [length_copyTo hcopy, hbuffer, List.length_replicate]
    omega
  · -- the contents move inside the vector, which has the length already
    obtain ⟨-, -, hmake⟩ := bind_eq_ok.mp hmake
    obtain ⟨v, hcopy, hmake⟩ := bind_eq_ok.mp hmake
    obtain ⟨-, -, hmake⟩ := bind_eq_ok.mp hmake
    obtain ⟨-, -, hmake⟩ := bind_eq_ok.mp hmake
    cases hmake
    show v.length = _
    rw [length_copyWithin hcopy]
    omega

/-! ## The length against the greatest demand -/

/-- The vector of a buffer that represents `s` is as long as the greatest demand `m` on the buffer,
and at most the cheap prepend longer. -/
structure Sized (b : Buffer) (s : Bytes) (m : ℕ) : Prop where
  /-- the contents -/
  represents : b.Represents s
  /-- the greatest demand was met -/
  demand_le : m ≤ b.buffer_.length
  /-- nothing more was allocated than the cheap prepend -/
  le_demand : b.buffer_.length ≤ kCheapPrepend + m

namespace Sized

/-- An access that keeps the length of the vector, with a demand that the vector meets. -/
theorem of_length (h : b.Sized s m) {s' : Bytes} {k : ℕ} (hrep : b'.Represents s')
    (hlen : b'.buffer_.length = b.buffer_.length) (hk : k ≤ b.buffer_.length) :
    b'.Sized s' (max m k) :=
  ⟨hrep, hlen ▸ max_le h.demand_le hk, hlen ▸ h.le_demand.trans (by omega)⟩

/-- An access that keeps the vector and asks for nothing. -/
theorem of_buffer (h : b.Sized s m) {s' : Bytes} (hrep : b'.Represents s')
    (hbuffer : b'.buffer_ = b.buffer_) : b'.Sized s' m :=
  ⟨hrep, hbuffer ▸ h.demand_le, hbuffer ▸ h.le_demand⟩

/-- The constructor allocates the size asked for, behind the cheap prepend. -/
theorem construct {n : ℕ} (hn : kCheapPrepend + n ≤ maxSize) :
    ∃ b, new n = .ok b ∧ b.Sized [] n := by
  obtain ⟨b, hb, hrep, -, hbuffer⟩ := new_represents hn
  have hlen : b.buffer_.length = kCheapPrepend + n := by rw [hbuffer, List.length_replicate]
  exact ⟨b, hb, hrep, by omega, hlen.le⟩

/-- Ensuring room is a demand for the contents and the room. -/
theorem ensureWritableBytes (h : b.Sized s m) {len : ℕ}
    (hmax : kCheapPrepend + s.length + len ≤ maxSize) :
    ∃ b', b.ensureWritableBytes len = .ok b' ∧ b'.Sized s (max m (s.length + len)) ∧
      len ≤ b'.writableBytes := by
  have hrep := h.represents
  have hidx := hrep.index_le
  have hw := hrep.writerIndex_eq
  unfold Buffer.ensureWritableBytes
  split_ifs with hlt
  · obtain ⟨b', hb', hr, hroom⟩ := makeSpace_represents hrep hlt hmax
    have hlen := length_of_makeSpace hrep hmax hb'
    have hdemand := h.demand_le
    have hle := h.le_demand
    refine ⟨b', ?_, ⟨hr, ?_, ?_⟩, hroom⟩
    · simp only [hb', assert_of hroom, ok_bind]
      rfl
    · omega
    · omega
  · have hroom : len ≤ b.writableBytes := Nat.le_of_not_lt hlt
    have hwr := hrep.writableBytes_eq
    refine ⟨b, ?_, h.of_length hrep rfl (by omega), hroom⟩
    simp only [assert_of hroom, ok_bind]
    rfl

/-- Appending is a demand for the contents and the bytes appended. -/
theorem append (h : b.Sized s m) {data : Bytes}
    (hmax : kCheapPrepend + s.length + data.length ≤ maxSize) :
    ∃ b', b.append data = .ok b' ∧ b'.Sized (s ++ data) (max m (s.length + data.length)) := by
  obtain ⟨b₁, hb₁, h₁, hroom⟩ := h.ensureWritableBytes hmax
  obtain ⟨b', hb', hrep⟩ := append_represents h.represents hmax
  refine ⟨b', hb', hrep, ?_, ?_⟩
  all_goals
    have happend := hb'
    unfold Buffer.append at happend
    rw [hb₁, ok_bind] at happend
    obtain ⟨v, hcopy, happend⟩ := bind_eq_ok.mp happend
    cases happend
    show _ ≤ _
    have hlen := length_copyTo hcopy
    have := h₁.demand_le
    have := h₁.le_demand
    simp only [hasWritten]
    omega

/-- Prepending is a demand for the contents and the bytes prepended; the vector meets it, since the
bytes take the place in front of the contents. -/
theorem prepend (h : b.Sized s m) {data : Bytes} (hroom : data.length ≤ b.prependableBytes) :
    ∃ b', b.prepend data = .ok b' ∧ b'.Sized (data ++ s) (max m (s.length + data.length)) := by
  obtain ⟨b', hb', hrep⟩ := prepend_represents h.represents hroom
  have hidx := h.represents.index_le
  have hw := h.represents.writerIndex_eq
  refine ⟨b', hb', h.of_length hrep (length_of_prepend hb') ?_⟩
  unfold prependableBytes at hroom
  omega

/-- Consuming asks for nothing. -/
theorem consume (h : b.Sized s m) {n : ℕ} (hn : n ≤ s.length) :
    ∃ b', b.consume n = .ok b' ∧ b'.Sized (s.drop n) m := by
  obtain ⟨b', hb', hrep⟩ := consume_represents h.represents hn
  exact ⟨b', hb', h.of_buffer hrep (buffer_of_consume hb')⟩

/-- Retrieving a string asks for nothing. -/
theorem retrieveAsString (h : b.Sized s m) {n : ℕ} (hn : n ≤ s.length) :
    ∃ b', b.retrieveAsString n = .ok (b', s.take n) ∧ b'.Sized (s.drop n) m := by
  obtain ⟨b', hb', hrep⟩ := retrieveAsString_represents h.represents hn
  exact ⟨b', hb', h.of_buffer hrep (buffer_of_retrieveAsString hb')⟩

/-- Retrieving an integer asks for nothing. -/
theorem retrieveInt32 (h : b.Sized s m) (hn : 4 ≤ s.length) :
    ∃ b', b.retrieveInt32 = .ok (b', ofNetwork (s.take 4)) ∧ b'.Sized (s.drop 4) m := by
  obtain ⟨b', hb', hrep⟩ := retrieveInt32_represents h.represents hn
  exact ⟨b', hb', h.of_buffer hrep (buffer_of_retrieveInt32 hb')⟩

/-- A reading that fits into the vector keeps its length. -/
theorem readFd_of_le (h : b.Sized s m) {data : Bytes} (savedErrno : ℤ)
    (hle : data.length ≤ b.writableBytes) :
    ∃ b', readFd (.read data) savedErrno b = .ok ((data.length : ℤ), savedErrno) b' ∧
      b'.Sized (s ++ data) (max m (s.length + data.length)) := by
  have hidx := h.represents.index_le
  have hw := h.represents.writerIndex_eq
  have hwr := h.represents.writableBytes_eq
  have hsize := h.represents.le_maxSize
  obtain ⟨v, hcopy, hlen, hrep⟩ := copyTo_represents h.represents hle
  have hadd : addSize b.writerIndex_ data.length = b.writerIndex_ + data.length :=
    addSize_eq (by unfold maxSize at hsize; omega)
  refine ⟨_, ?_, h.of_length hrep hlen (by omega)⟩
  unfold readFd
  rw [bind_get]
  dsimp only
  rw [getD_zero_scatter, List.take_of_length_le hle, hcopy, bind_liftE_ok, bind_set, if_pos hle,
    ← hadd]
  rfl

/-- A reading that does not fit fills the vector, and the rest is appended. -/
theorem readFd_of_lt (h : b.Sized s m) {data : Bytes} (savedErrno : ℤ)
    (hallowed : (Readv.read data).Allowed b.iov) (hlt : b.writableBytes < data.length)
    (hmax : kCheapPrepend + s.length + data.length ≤ maxSize) :
    ∃ b', readFd (.read data) savedErrno b = .ok ((data.length : ℤ), savedErrno) b' ∧
      b'.Sized (s ++ data) (max m (s.length + data.length)) := by
  have hidx := h.represents.index_le
  have hw := h.represents.writerIndex_eq
  have hwr := h.represents.writableBytes_eq
  obtain ⟨hrest, hbound⟩ := getD_one_scatter hallowed hlt
  have htake : (data.take b.writableBytes).length = b.writableBytes :=
    List.length_take_of_le hlt.le
  obtain ⟨v, hcopy, hlen, hrep⟩ := copyTo_represents h.represents htake.le
  have hfull : b.writerIndex_ + (data.take b.writableBytes).length = v.length := by omega
  rw [hfull] at hrep
  have hfilled : (⟨v, b.readerIndex_, v.length⟩ : Buffer).Sized (s ++ data.take b.writableBytes)
      (max m 0) := h.of_length hrep hlen (Nat.zero_le _)
  have hroom : kCheapPrepend + (s ++ data.take b.writableBytes).length +
      (data.drop b.writableBytes).length ≤ maxSize := by rwa [length_take_drop]
  obtain ⟨b', happend, hb'⟩ := hfilled.append hroom
  have hdemand : max (max m 0) ((s ++ data.take b.writableBytes).length +
      (data.drop b.writableBytes).length) = max m (s.length + data.length) := by
    rw [List.length_append, htake, List.length_drop]
    omega
  rw [List.append_assoc, List.take_append_drop, hdemand] at hb'
  have hsub : subSize data.length b.writableBytes = data.length - b.writableBytes :=
    subSize_eq hlt.le (by unfold maxSize at hmax; omega)
  have hslice : slice (data.drop b.writableBytes) 0 (subSize data.length b.writableBytes) =
      .ok (data.drop b.writableBytes) := by
    unfold slice
    rw [hsub, if_pos ⟨Nat.zero_le _, by rw [List.length_drop]⟩, List.drop_zero,
      List.take_of_length_le (by rw [List.length_drop])]
  refine ⟨b', ?_, hb'⟩
  unfold readFd
  rw [bind_get]
  dsimp only
  rw [getD_zero_scatter, hcopy, bind_liftE_ok, bind_set, if_neg (Nat.not_le_of_lt hlt), hrest,
    hslice]
  exact bind_of_ok (appendM_of_ok happend)

/-- Reading from a descriptor is a demand for the contents and the bytes read. -/
theorem readFd (h : b.Sized s m) {data : Bytes} (savedErrno : ℤ)
    (hallowed : (Readv.read data).Allowed b.iov)
    (hmax : kCheapPrepend + s.length + data.length ≤ maxSize) :
    ∃ b', Buffer.readFd (.read data) savedErrno b = .ok ((data.length : ℤ), savedErrno) b' ∧
      b'.Sized (s ++ data) (max m (s.length + data.length)) := by
  rcases Nat.lt_or_ge b.writableBytes data.length with hlt | hle
  · exact h.readFd_of_lt savedErrno hallowed hlt hmax
  · exact h.readFd_of_le savedErrno hle

end Sized

end Buffer

/-! ## Runs over a family of buffers -/

section Runs

variable {ι : Type}

/-- An operation on one buffer of a family or a swap of two, or a call of `readFd` for which
`::readv` has read some bytes. -/
inductive Access (ι : Type) where
  | call (op : Op ι)
  | readFd (i : ι) (data : Bytes)

/-- The asserts at the entry of the access, sizes below the `max_size` of the vector, and no more
bytes read than `::readv` was given room for. -/
def Access.Admits (σ : ι → Buffer) : Access ι → Prop
  | .call op => Base.Admits σ op
  | .readFd i data => (Readv.read data).Allowed (σ i).iov ∧
      Buffer.kCheapPrepend + (σ i).readableBytes + data.length ≤ maxSize

instance (σ : ι → Buffer) : ∀ a : Access ι, Decidable (a.Admits σ)
  | .call op => inferInstanceAs (Decidable (Base.Admits σ op))
  | .readFd _ _ => inferInstanceAs (Decidable (_ ≤ _ ∧ _ ≤ _))

variable [DecidableEq ι]

/-- One access, if it does not fail. -/
def access (σ : ι → Buffer) : Access ι → Option (ι → Buffer)
  | .call op => (step σ op).toOption.map Prod.fst
  | .readFd i data =>
    match (σ i).readFd (.read data) 0 with
    | .ok _ b => some (Function.update σ i b)
    | .error _ _ => none

/-- A demand on the buffer `i`, as its greatest one if it is. -/
def demandOn (m : ι → ℕ) (i : ι) (k : ℕ) : ι → ℕ := Function.update m i (max (m i) k)

/-- The greatest demand on each buffer, after one more access: the size it was constructed with, or
the readable bytes with those that are added or for which room is asked. -/
def demand (m : ι → ℕ) (σ : ι → Buffer) : Access ι → ι → ℕ
  | .call (.construct i n) => Function.update m i n
  | .call (.append i data) => demandOn m i ((σ i).readableBytes + data.length)
  | .call (.appendInt32 i _) => demandOn m i ((σ i).readableBytes + 4)
  | .call (.prepend i data) => demandOn m i ((σ i).readableBytes + data.length)
  | .call (.prependInt32 i _) => demandOn m i ((σ i).readableBytes + 4)
  | .call (.ensureWritableBytes i len) => demandOn m i ((σ i).readableBytes + len)
  | .call (.swap i j) => Function.update (Function.update m i (m j)) j (m i)
  | .call (.consume _ _) | .call (.consumeInt32 _) | .call (.consumeAll _) => m
  | .call (.retrieveAsString _ _) | .call (.retrieveAllAsString _) | .call (.retrieveInt32 _) => m
  | .readFd i data => demandOn m i ((σ i).readableBytes + data.length)

/-- The vectors of all buffers are as long as the greatest demands. -/
def AllSized (σ : ι → Buffer) (m : ι → ℕ) : Prop := ∀ i, ∃ s, (σ i).Sized s (m i)

variable {σ : ι → Buffer} {m : ι → ℕ}

/-- One buffer is replaced. -/
theorem AllSized.update (h : AllSized σ m) (i : ι) {b : Buffer} {s : Bytes} {k : ℕ}
    (hb : b.Sized s k) : AllSized (Function.update σ i b) (Function.update m i k) := by
  intro j
  by_cases hj : j = i
  · subst hj
    exact ⟨s, by simpa using hb⟩
  · simpa [hj] using h j

/-- One buffer is replaced, and nothing was asked of it. -/
theorem AllSized.replace (h : AllSized σ m) (i : ι) {b : Buffer} {s : Bytes}
    (hb : b.Sized s (m i)) : AllSized (Function.update σ i b) m := by
  have hupdate := h.update i hb
  rwa [Function.update_eq_self] at hupdate

/-- **One access keeps the vectors as long as the demands.** If its asserts hold, it does not fail.

**Proof sketch.** One case for each operation, from what it does to one buffer. -/
theorem AllSized.access (h : AllSized σ m) {a : Access ι} (ha : a.Admits σ) :
    ∃ σ', Base.access σ a = some σ' ∧ AllSized σ' (demand m σ a) := by
  have hread : ∀ {i s}, (σ i).Sized s (m i) → (σ i).readableBytes = s.length :=
    fun hs => hs.represents.readableBytes_eq
  have hstore : ∀ {i : ι} {r : Except BufferFault Buffer} {b : Buffer}, r = .ok b →
      (store σ i r).toOption.map Prod.fst = some (Function.update σ i b) := by
    rintro i r b rfl
    rfl
  cases a with
  | readFd i data =>
    obtain ⟨s, hs⟩ := h i
    obtain ⟨hallowed, hmax⟩ := ha
    rw [hread hs] at hmax
    obtain ⟨b, hb, hsized⟩ := hs.readFd 0 hallowed hmax
    refine ⟨Function.update σ i b, ?_, ?_⟩
    · simp only [Base.access, hb]
    · simpa only [demand, demandOn, hread hs] using h.update i hsized
  | call op =>
    cases op with
    | construct i n =>
      obtain ⟨b, hb, hsized⟩ := Buffer.Sized.construct ha
      exact ⟨_, hstore hb, h.update i hsized⟩
    | append i data =>
      obtain ⟨s, hs⟩ := h i
      simp only [Access.Admits, Admits, hread hs] at ha
      obtain ⟨b, hb, hsized⟩ := hs.append ha
      exact ⟨_, hstore hb, by simpa only [demand, demandOn, hread hs] using h.update i hsized⟩
    | appendInt32 i x =>
      obtain ⟨s, hs⟩ := h i
      simp only [Access.Admits, Admits, hread hs] at ha
      have hmax : Buffer.kCheapPrepend + s.length + (toNetwork x).length ≤ maxSize := ha
      obtain ⟨b, hb, hsized⟩ := hs.append hmax
      have hsized : b.Sized (s ++ toNetwork x) (max (m i) (s.length + 4)) := hsized
      exact ⟨_, hstore hb, by simpa only [demand, demandOn, hread hs] using h.update i hsized⟩
    | prepend i data =>
      obtain ⟨s, hs⟩ := h i
      obtain ⟨b, hb, hsized⟩ := hs.prepend ha
      exact ⟨_, hstore hb, by simpa only [demand, demandOn, hread hs] using h.update i hsized⟩
    | prependInt32 i x =>
      obtain ⟨s, hs⟩ := h i
      have hroom : (toNetwork x).length ≤ (σ i).prependableBytes := ha
      obtain ⟨b, hb, hsized⟩ := hs.prepend hroom
      have hsized : b.Sized (toNetwork x ++ s) (max (m i) (s.length + 4)) := hsized
      exact ⟨_, hstore hb, by simpa only [demand, demandOn, hread hs] using h.update i hsized⟩
    | consume i len =>
      obtain ⟨s, hs⟩ := h i
      simp only [Access.Admits, Admits, hread hs] at ha
      obtain ⟨b, hb, hsized⟩ := hs.consume ha
      exact ⟨_, hstore hb, h.replace i hsized⟩
    | consumeInt32 i =>
      obtain ⟨s, hs⟩ := h i
      simp only [Access.Admits, Admits, hread hs] at ha
      obtain ⟨b, hb, hsized⟩ := hs.consume ha
      exact ⟨_, hstore hb, h.replace i hsized⟩
    | consumeAll i =>
      obtain ⟨s, hs⟩ := h i
      exact ⟨_, hstore rfl,
        h.replace i (hs.of_buffer (Buffer.consumeAll_represents hs.represents) rfl)⟩
    | retrieveAsString i len =>
      obtain ⟨s, hs⟩ := h i
      simp only [Access.Admits, Admits, hread hs] at ha
      obtain ⟨b, hb, hsized⟩ := hs.retrieveAsString ha
      exact ⟨_, by simp only [Base.access, step, hb]; rfl, h.replace i hsized⟩
    | retrieveAllAsString i =>
      obtain ⟨s, hs⟩ := h i
      obtain ⟨b, hb, hsized⟩ := hs.retrieveAsString (Nat.le_refl s.length)
      refine ⟨_, ?_, h.replace i hsized⟩
      simp only [Base.access, step, Buffer.retrieveAllAsString, hread hs, hb]
      rfl
    | retrieveInt32 i =>
      obtain ⟨s, hs⟩ := h i
      simp only [Access.Admits, Admits, hread hs] at ha
      obtain ⟨b, hb, hsized⟩ := hs.retrieveInt32 ha
      exact ⟨_, by simp only [Base.access, step, hb]; rfl, h.replace i hsized⟩
    | ensureWritableBytes i len =>
      obtain ⟨s, hs⟩ := h i
      simp only [Access.Admits, Admits, hread hs] at ha
      obtain ⟨b, hb, hsized, -⟩ := hs.ensureWritableBytes ha
      exact ⟨_, hstore hb, by simpa only [demand, demandOn, hread hs] using h.update i hsized⟩
    | swap i j =>
      obtain ⟨s, hs⟩ := h i
      obtain ⟨t, ht⟩ := h j
      exact ⟨_, rfl, (h.update i ht).update j hs⟩

/-- **The vectors are as long as the buffers ever had to be.** Along every run of the operations, of
swaps and of `readFd` that the asserts admit, over any family of buffers constructed with any sizes:
no access fails, and the vector of each buffer is at least as long as the greatest demand on it, and
at most the eight bytes of the cheap prepend longer. Consuming never makes a buffer grow later. -/
theorem length_le_demand (sizes : ι → ℕ) (hsizes : ∀ i, Buffer.kCheapPrepend + sizes i ≤ maxSize)
    (σ₀ : ι → Buffer) (hσ₀ : ∀ i, Buffer.new (sizes i) = .ok (σ₀ i)) (accesses : List (Access ι))
    (hadm : Along (observed access demand) (fun x a => a.Admits x.1) (σ₀, sizes) accesses) :
    ∃ σ m, Lib.run (observed access demand) (σ₀, sizes) accesses = some (σ, m) ∧
      ∀ i, m i ≤ (σ i).buffer_.length ∧
        (σ i).buffer_.length ≤ Buffer.kCheapPrepend + m i := by
  have h₀ : AllSized σ₀ sizes := by
    intro i
    obtain ⟨b, hb, hsized⟩ := Buffer.Sized.construct (hsizes i)
    rw [hσ₀ i] at hb
    exact ⟨[], Except.ok.inj hb ▸ hsized⟩
  obtain ⟨⟨σ, m⟩, hrun, h⟩ := hadm.exists_run (I := fun x => AllSized x.1 x.2)
    (fun {x a} ha h => by
      obtain ⟨σ', hσ', h'⟩ := h.access ha
      exact ⟨(σ', demand x.2 x.1 a), observed_eq_some_iff.mpr ⟨hσ', rfl⟩, h'⟩) h₀
  refine ⟨σ, m, hrun, fun i => ?_⟩
  obtain ⟨s, hs⟩ := h i
  exact ⟨hs.demand_le, hs.le_demand⟩

/-- A buffer for two bytes grows for three, and has room for two more when two of them are
consumed. -/
theorem length_le_demand_three : ∃ σ m,
    Lib.run (observed access demand) (fun _ : Unit => ⟨List.replicate 10 0, 8, 8⟩, fun _ => 2)
      [.call (.append () [1, 2, 3]), .call (.consume () 2), .readFd () [4, 5]] = some (σ, m) ∧
    m () = 3 ∧ m () ≤ (σ ()).buffer_.length ∧
      (σ ()).buffer_.length ≤ Buffer.kCheapPrepend + m () := by
  have hrun : (Lib.run (observed access demand)
      (fun _ : Unit => (⟨List.replicate 10 0, 8, 8⟩ : Buffer), fun _ => 2)
      [.call (.append () [1, 2, 3]), .call (.consume () 2), .readFd () [4, 5]]).map
        (fun x => x.2 ()) = some 3 := by
    decide
  obtain ⟨σ, m, hσ, h⟩ := length_le_demand (fun _ : Unit => 2) (fun _ => by decide)
    (fun _ => ⟨List.replicate 10 0, 8, 8⟩) (fun _ => rfl)
    [.call (.append () [1, 2, 3]), .call (.consume () 2), .readFd () [4, 5]] (by decide)
  rw [hσ] at hrun
  exact ⟨σ, m, hσ, Option.some.inj hrun, h ()⟩

end Runs

end LouisNet.Base
