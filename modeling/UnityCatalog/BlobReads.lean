import UnityCatalog.DeletionVector

/-!
# The reads of `FromBlob`

`FromBlob` once more, as a program whose operations are the reads it makes of its buffer and the
sizing of its table. It computes what `fromBlob` does (`given_readBlob`); what is said here is which
bytes it reads, how often, and how large a table it asks for.

A read is bounded by what the buffer has left, so that nothing a blob declares leads out of it. The
table is sized by what the blob declares and by nothing else.
-/

namespace UnityCatalog

open Effectful Words UCDeletionVectorData

/-! ## The program -/

/-- What `FromBlob` does with its buffer, by offset and length, and with memory. -/
inductive BlobOp where
  /-- a load, a comparison or the checksum -/
  | load (offset length : ℕ)
  /-- `roaring_bitmap_portable_deserialize_size`, which may look at so many bytes -/
  | deserializeSize (offset max_bytes : ℕ)
  /-- `Roaring::readSafe` -/
  | readSafe (offset size : ℕ)
  /-- `bitmaps.reserve` -/
  | reserve (n : ℕ)
  deriving DecidableEq

/-- The answers. -/
def BlobOp.Ans : BlobOp → Type
  | .load _ _ => Bytes
  | .deserializeSize _ _ => ℕ
  | .readSafe _ _ => Roaring
  | .reserve _ => Unit

/-- The operations of `FromBlob`. -/
abbrev BlobOps : Signature := ⟨BlobOp, BlobOp.Ans⟩

section

variable (offset n : ℕ)

def load : Prog BlobOps Exception Bytes := Prog.perform (F := BlobOps) (.load offset n)

def deserializeSize : Prog BlobOps Exception ℕ :=
  Prog.perform (F := BlobOps) (.deserializeSize offset n)

def readSafe : Prog BlobOps Exception Roaring := Prog.perform (F := BlobOps) (.readSafe offset n)

def reserve : Prog BlobOps Exception Unit := Prog.perform (F := BlobOps) (.reserve n)

end

/-- Where the loop stands: what it takes to be left of the blob, and the offset of the next byte. -/
structure BlobCursor where
  vector_size : BitVec 32
  blob_start : ℕ

/-- What one round has read. -/
structure BlobEntry where
  cursor : BlobCursor
  key : BitVec 32
  bitmap : Roaring

section

variable (path : String) (blob_length : ℕ)

/-- One round of the loop. -/
def readEntry (s : BlobCursor) : Prog BlobOps Exception BlobEntry :=
  if s.blob_start + 4 > blob_length then
    throw (blobException path "is corrupt (truncated bitmap key)")
  else do
    let key ← load s.blob_start 4
    let blob_start := s.blob_start + 4
    let vector_size := s.vector_size - 4
    let remaining := blob_length - blob_start
    let max_bytes := min vector_size.toNat remaining
    let bitmap_size ← deserializeSize blob_start max_bytes
    if bitmap_size = 0 ∨ blob_start + bitmap_size > blob_length then
      throw (blobException path "is corrupt (bad bitmap payload)")
    else do
      let bitmap ← readSafe blob_start bitmap_size
      return ⟨⟨vector_size - BitVec.ofNat 32 bitmap_size, blob_start + bitmap_size⟩,
        BitVec.ofNat 32 (loadLE key), bitmap⟩

/-- So many rounds; `blob_start` at their end, and the map. -/
def readEntries : ℕ → BlobCursor → UCDeletionVectorData →
    Prog BlobOps Exception (ℕ × UCDeletionVectorData)
  | 0, s, result => return (s.blob_start, result)
  | n + 1, s, result => do
    let entry ← readEntry path blob_length s
    readEntries n entry.cursor (result.emplace entry.key entry.bitmap)

/-- The end of `FromBlob`: the checksum. -/
def readChecksum (read : ℕ × UCDeletionVectorData) : Prog BlobOps Exception UCDeletionVectorData :=
  if read.1 + 4 ≠ blob_length then
    throw (blobException path "is corrupt (trailing bytes after checksum)")
  else do
    let stored_checksum ← load read.1 4
    let checksummed_data ← load 4 (read.1 - 4)
    if CRC32.value checksummed_data ≠ loadBE stored_checksum then
      throw (blobException path "failed its checksum (corrupt or truncated)")
    else return read.2

/-- `FromBlob` -/
def readBlob : Prog BlobOps Exception UCDeletionVectorData :=
  if blob_length < 20 then
    throw (blobException path ("is too small (" ++ toString blob_length ++ " bytes)"))
  else do
    let word ← load 0 4
    let vector_size := BitVec.ofNat 32 (loadBE word)
    let magic ← load 4 4
    if magic ≠ DELETION_VECTOR_MAGIC then throw (blobException path "has a magic mismatch")
    else
      let vector_size := vector_size - 4
      if 8 + 8 > blob_length then throw (blobException path "is corrupt (truncated bitmap count)")
      else do
        let count ← load 8 8
        let amount_of_bitmaps := (BitVec.ofNat 64 (loadLE count)).toInt
        let vector_size := vector_size - 8
        if amount_of_bitmaps < 0 ∨ 16 > blob_length then
          throw (blobException path "is corrupt (bad bitmap count)")
        else do
          reserve amount_of_bitmaps.toNat
          let read ← readEntries path blob_length amount_of_bitmaps.toNat ⟨vector_size, 16⟩ empty
          readChecksum path blob_length read

end

/-! ## Which bytes are read -/

/-- A read inside of the first so many bytes. -/
def BlobOp.Within (blob_length : ℕ) : BlobOp → Prop
  | .load offset n => offset + n ≤ blob_length
  | .deserializeSize offset n => offset + n ≤ blob_length
  | .readSafe offset n => offset + n ≤ blob_length
  | .reserve _ => True

section

variable {offset n blob_length : ℕ}

/-- A load inside the blob stays inside. -/
theorem uses_load (h : offset + n ≤ blob_length) :
    (load offset n).Uses (BlobOp.Within blob_length) := Prog.uses_perform (F := BlobOps) h

/-- To ask for a bitmap's size looks at the rest of the blob. -/
theorem uses_deserializeSize (h : offset + n ≤ blob_length) :
    (deserializeSize offset n).Uses (BlobOp.Within blob_length) :=
      Prog.uses_perform (F := BlobOps) h

/-- To read a bitmap looks at that many bytes. -/
theorem uses_readSafe (h : offset + n ≤ blob_length) :
    (readSafe offset n).Uses (BlobOp.Within blob_length) := Prog.uses_perform (F := BlobOps) h

/-- Asking for memory reads nothing. -/
theorem uses_reserve : (reserve n).Uses (BlobOp.Within blob_length) :=
  Prog.uses_perform (F := BlobOps) trivial

/-- One operation, and what follows it. -/
theorem endsWithin_one {α β : Type} {p : Prog BlobOps Exception α}
    {f : α → Prog BlobOps Exception β}
    (hp : p.EndsWithin 1) (hf : ∀ a, (f a).EndsWithin n) : (p.bind f).EndsWithin (n + 1) :=
  Nat.add_comm n 1 ▸ hp.bind (Prog.returns_trivial p) fun a _ => hf a

theorem endsWithin_load : (load offset n).EndsWithin 1 := Prog.endsWithin_perform (F := BlobOps) 0 _

theorem endsWithin_deserializeSize : (deserializeSize offset n).EndsWithin 1 :=
  Prog.endsWithin_perform (F := BlobOps) 0 _

theorem endsWithin_readSafe : (readSafe offset n).EndsWithin 1 :=
  Prog.endsWithin_perform (F := BlobOps) 0 _

theorem endsWithin_reserve : (reserve n).EndsWithin 1 := Prog.endsWithin_perform (F := BlobOps) 0 _

end

section

variable (path : String) (blob_length : ℕ)

/-- An entry is read inside the blob: each of its three reads is checked against what is left. -/
theorem uses_readEntry (s : BlobCursor) :
    (readEntry path blob_length s).Uses (BlobOp.Within blob_length) := by
  rw [readEntry]
  split
  · trivial
  · rename_i hkey
    refine (uses_load (by omega)).bind fun key => ?_
    -- the size is looked for in what is left, however large `vector_size` is
    refine (uses_deserializeSize (by omega)).bind fun bitmap_size => ?_
    split
    · trivial
    · exact (uses_readSafe (by omega)).bind fun bitmap => trivial

/-- A round takes a key and a bitmap of at least one byte. -/
theorem returns_readEntry (s : BlobCursor) :
    (readEntry path blob_length s).Returns fun entry =>
      s.blob_start + 5 ≤ entry.cursor.blob_start ∧ entry.cursor.blob_start ≤ blob_length := by
  rw [readEntry]
  split
  · trivial
  · refine (Prog.returns_trivial _).bind fun key _ => ?_
    refine (Prog.returns_trivial _).bind fun bitmap_size _ => ?_
    split
    · trivial
    · rename_i hsize
      refine (Prog.returns_trivial _).bind fun bitmap _ => ?_
      show _ + 5 ≤ _ + 4 + bitmap_size ∧ _ + 4 + bitmap_size ≤ blob_length
      omega

/-- An entry takes three operations at most. -/
theorem endsWithin_readEntry (s : BlobCursor) : (readEntry path blob_length s).EndsWithin 3 := by
  rw [readEntry]
  split
  · trivial
  · refine endsWithin_one endsWithin_load fun key => ?_
    refine endsWithin_one endsWithin_deserializeSize fun bitmap_size => ?_
    split
    · trivial
    · exact endsWithin_one endsWithin_readSafe fun bitmap => trivial

/-- All entries are read inside the blob. The induction is on how many are left, with the cursor
anywhere. -/
theorem uses_readEntries (n : ℕ) (s : BlobCursor) (result : UCDeletionVectorData) :
    (readEntries path blob_length n s result).Uses (BlobOp.Within blob_length) := by
  induction n generalizing s result with
  | zero => trivial
  | succ n ih => exact (uses_readEntry path blob_length s).bind fun entry => ih _ _

/-- The cursor goes forward and stays inside, which is what the next entry needs. -/
theorem returns_readEntries (n : ℕ) {s : BlobCursor} (hs : s.blob_start ≤ blob_length)
    (result : UCDeletionVectorData) :
    (readEntries path blob_length n s result).Returns fun r =>
      s.blob_start ≤ r.1 ∧ r.1 ≤ blob_length := by
  induction n generalizing s result with
  | zero => exact ⟨le_rfl, hs⟩
  | succ n ih =>
    refine (returns_readEntry path blob_length s).bind fun entry hentry => ?_
    refine (ih hentry.2 _).mono fun r hr => ?_
    omega

/-- The loop ends when the buffer does, whatever it is to count to. -/
theorem endsWithin_readEntries (n : ℕ) (s : BlobCursor) (result : UCDeletionVectorData) :
    (readEntries path blob_length n s result).EndsWithin
      (3 * ((blob_length - s.blob_start) / 5) + 3) := by
  induction n generalizing s result with
  | zero => exact Prog.endsWithin_ret _ _
  | succ n ih =>
    refine ((endsWithin_readEntry path blob_length s).bind
      (n := 3 * ((blob_length - s.blob_start) / 5))
      (returns_readEntry path blob_length s) fun entry hentry => ?_).mono (by omega)
    refine (ih entry.cursor _).mono ?_
    omega

/-- The checksum is read inside, if four bytes are left in front of it. -/
theorem uses_readChecksum {read : ℕ × UCDeletionVectorData} (h4 : 4 ≤ read.1) :
    (readChecksum path blob_length read).Uses (BlobOp.Within blob_length) := by
  rw [readChecksum]
  split
  · trivial
  · rename_i hend
    refine (uses_load (by omega)).bind fun stored => ?_
    refine (uses_load (by omega)).bind fun data => ?_
    split <;> trivial

/-- The checksum takes two operations. -/
theorem endsWithin_readChecksum (read : ℕ × UCDeletionVectorData) :
    (readChecksum path blob_length read).EndsWithin 2 := by
  rw [readChecksum]
  split
  · trivial
  · refine endsWithin_one endsWithin_load fun stored => ?_
    refine endsWithin_one endsWithin_load fun data => ?_
    split <;> trivial

/-- The whole of `FromBlob` stays inside the blob it is given. -/
theorem uses_readBlob : (readBlob path blob_length).Uses (BlobOp.Within blob_length) := by
  rw [readBlob]
  split
  · trivial
  · refine (uses_load (by omega)).bind fun word => ?_
    refine (uses_load (by omega)).bind fun magic => ?_
    split
    · trivial
    · split
      · trivial
      · refine (uses_load (by omega)).bind fun count => ?_
        dsimp only
        split
        · trivial
        · refine uses_reserve.bind fun _ => ?_
          exact (uses_readEntries path blob_length _ _ _).bind_returns
            (returns_readEntries path blob_length _ (by simp only; omega) _) fun read hread =>
              uses_readChecksum path blob_length (le_trans (show 4 ≤ 16 by decide) hread.1)

/-- It ends after as many operations as the blob has room for entries, whatever count it
declares. -/
theorem endsWithin_readBlob :
    (readBlob path blob_length).EndsWithin (3 * (blob_length / 5) + 6) := by
  rw [readBlob]
  split
  · exact Prog.endsWithin_throw _ _
  · refine endsWithin_one endsWithin_load fun word => ?_
    refine endsWithin_one endsWithin_load fun magic => ?_
    split
    · exact Prog.endsWithin_throw _ _
    · split
      · exact Prog.endsWithin_throw _ _
      · refine endsWithin_one endsWithin_load fun count => ?_
        dsimp only
        split
        · exact Prog.endsWithin_throw _ _
        · refine endsWithin_one endsWithin_reserve fun _ => ?_
          refine Prog.EndsWithin.mono ((endsWithin_readEntries path blob_length _ _ _).bind (n := 2)
            (Prog.returns_trivial _) fun read _ => endsWithin_readChecksum _ _ _) ?_
          simp only
          omega

end

/-! ## It is `fromBlob` -/

/-- The number of bitmaps a blob declares. -/
def declaredCount (blob : Bytes) : ℤ := (BitVec.ofNat 64 (loadLE ((blob.drop 8).take 8))).toInt

/-- The buffer's answers, with CRoaring's, and those of an allocator. -/
def blobAnswer (C : CRoaring) (allocate : ℕ → Except Exception Unit) (blob : Bytes) :
    (op : BlobOp) → Except Exception op.Ans
  | .load offset n => .ok ((blob.drop offset).take n)
  | .deserializeSize offset n => .ok (C.portable_deserialize_size ((blob.drop offset).take n))
  | .readSafe offset n => C.readSafe ((blob.drop offset).take n)
  | .reserve n => allocate n

section

variable {C : CRoaring} {allocate : ℕ → Except Exception Unit} {blob : Bytes} {path : String}

@[simp] theorem given_load (offset n : ℕ) :
    (load offset n).given (blobAnswer C allocate blob) = .ok ((blob.drop offset).take n) :=
  Prog.given_perform (F := BlobOps) (blobAnswer C allocate blob) _

@[simp] theorem performed_load (offset n : ℕ) :
    (load offset n).performed (blobAnswer C allocate blob) = [.load offset n] :=
  Prog.performed_perform (F := BlobOps) (blobAnswer C allocate blob) _

@[simp] theorem performed_reserve (n : ℕ) :
    (reserve n).performed (blobAnswer C allocate blob) = [.reserve n] :=
  Prog.performed_perform (F := BlobOps) (blobAnswer C allocate blob) _

@[simp] theorem given_deserializeSize (offset n : ℕ) :
    (deserializeSize offset n).given (blobAnswer C allocate blob) =
      .ok (C.portable_deserialize_size ((blob.drop offset).take n)) :=
  Prog.given_perform (F := BlobOps) (blobAnswer C allocate blob) _

@[simp] theorem given_readSafe (offset n : ℕ) :
    (readSafe offset n).given (blobAnswer C allocate blob) =
      C.readSafe ((blob.drop offset).take n) :=
  Prog.given_perform (F := BlobOps) (blobAnswer C allocate blob) _

@[simp] theorem given_reserve (n : ℕ) :
    (reserve n).given (blobAnswer C allocate blob) = allocate n :=
  Prog.given_perform (F := BlobOps) (blobAnswer C allocate blob) _

/-- A round is a round of `readBitmaps`. -/
theorem readBitmaps_succ (n : ℕ) {s : BlobCursor} (hs : s.blob_start ≤ blob.length)
    (result : UCDeletionVectorData) :
    readBitmaps C path (n + 1) s.vector_size (blob.drop s.blob_start) result =
      ((readEntry path blob.length s).given (blobAnswer C allocate blob)).bind fun entry =>
        readBitmaps C path n entry.cursor.vector_size (blob.drop entry.cursor.blob_start)
          (result.emplace entry.key entry.bitmap) := by
  rw [readBitmaps, readEntry]
  have hlen : (blob.drop s.blob_start).length < 4 ↔ s.blob_start + 4 > blob.length := by
    rw [List.length_drop]
    omega
  simp only [hlen]
  split
  · rfl
  · rename_i hkey
    simp only [Prog.bind_eq, Prog.given_bind, given_load, given_deserializeSize, Except.bind,
      List.drop_drop, List.length_drop]
    generalize C.portable_deserialize_size _ = bitmap_size
    have hsize : bitmap_size = 0 ∨ blob.length - (s.blob_start + 4) < bitmap_size ↔
        bitmap_size = 0 ∨ s.blob_start + 4 + bitmap_size > blob.length := by omega
    simp only [hsize]
    split
    · rfl
    · simp only [Prog.given_bind, given_readSafe]
      cases C.readSafe ((blob.drop (s.blob_start + 4)).take bitmap_size) with
      | error e => rfl
      | ok bitmap => rfl

/-- The loop is the loop of `fromBlob`. -/
theorem given_readEntries (n : ℕ) {s : BlobCursor} (hs : s.blob_start ≤ blob.length)
    (result : UCDeletionVectorData) :
    ((readEntries path blob.length n s result).given (blobAnswer C allocate blob)).map
        (fun r => (blob.drop r.1, r.2)) =
      readBitmaps C path n s.vector_size (blob.drop s.blob_start) result := by
  induction n generalizing s result with
  | zero => rfl
  | succ n ih =>
    rw [readBitmaps_succ n hs, readEntries, Prog.bind_eq, Prog.given_bind]
    cases hentry : (readEntry path blob.length s).given (blobAnswer C allocate blob) with
    | error e => rfl
    | ok entry =>
      have hreturns := (returns_readEntry path blob.length s).given hentry
      exact ih hreturns.2 _

/-- The checksum that is compared is the one of all bytes read before it. -/
theorem given_readChecksum {rest : Bytes} {read : ℕ × UCDeletionVectorData}
    (hrest : blob.drop read.1 = rest) (h4 : 4 ≤ read.1) (hle : read.1 ≤ blob.length) :
    (readChecksum path blob.length read).given (blobAnswer C allocate blob) =
      if rest.length ≠ 4 then
        .error (blobException path "is corrupt (trailing bytes after checksum)")
      else if CRC32.value ((blob.drop 4).take ((blob.drop 4).length - rest.length)) ≠ loadBE rest
        then
        .error (blobException path "failed its checksum (corrupt or truncated)")
      else .ok read.2 := by
  have hlen : rest.length = blob.length - read.1 := by rw [← hrest, List.length_drop]
  have hend : read.1 + 4 ≠ blob.length ↔ rest.length ≠ 4 := by omega
  rw [readChecksum]
  simp only [hend]
  split
  · rfl
  · rename_i h
    have hall : (blob.drop read.1).take 4 = rest := by
      rw [hrest, List.take_of_length_le (by omega)]
    have hdata : read.1 - 4 = (blob.drop 4).length - rest.length := by
      rw [List.length_drop]
      omega
    simp only [Prog.bind_eq, Prog.given_bind, given_load, Except.bind, hall, hdata]
    split <;> rfl

/-- Whether the blob comes to the sizing of the table. -/
def SizesTable (blob : Bytes) : Prop :=
  20 ≤ blob.length ∧ (blob.drop 4).take 4 = DELETION_VECTOR_MAGIC ∧ 0 ≤ declaredCount blob

/-- Where the table is not sized, `FromBlob` has refused the blob. -/
theorem readBlob_of_not_sizesTable (h : ¬ SizesTable blob) :
    ∃ what, fromBlob C blob path = .error (blobException path what) ∧
      (readBlob path blob.length).given (blobAnswer C allocate blob) =
        .error (blobException path what) ∧
      ∀ n, .reserve n ∉ (readBlob path blob.length).performed (blobAnswer C allocate blob) := by
  rw [readBlob, fromBlob]
  by_cases h20 : blob.length < 20
  · rw [if_pos h20, if_pos h20]
    exact ⟨_, rfl, rfl, by simp [Prog.performed]⟩
  · rw [if_neg h20, if_neg h20]
    simp only [Prog.bind_eq, Prog.given_bind, Prog.performed_bind, given_load, performed_load,
      Except.bind, Except.toOption, Option.elim_some, List.drop_zero]
    by_cases hmagic : (blob.drop 4).take 4 = DELETION_VECTOR_MAGIC
    · have h8 : ¬ ((blob.drop 4).drop 4).length < 8 := by
        rw [List.length_drop, List.length_drop]
        omega
      have hcount : declaredCount blob < 0 := by
        by_contra hcount
        exact h ⟨by omega, hmagic, by omega⟩
      rw [declaredCount] at hcount
      rw [if_neg (not_not.2 hmagic), if_neg (not_not.2 hmagic), if_neg h8,
        if_neg (show ¬ 8 + 8 > blob.length by omega)]
      simp only [Prog.given_bind, Prog.performed_bind, given_load, performed_load, Except.bind,
        Except.toOption, Option.elim_some, List.drop_drop]
      rw [if_pos hcount, if_pos (.inl hcount)]
      exact ⟨_, rfl, rfl, by simp [Prog.performed]⟩
    · rw [if_pos hmagic, if_pos hmagic]
      exact ⟨_, rfl, rfl, by simp [Prog.performed]⟩

/-- Where it is, everything else is as without it. -/
theorem readBlob_of_sizesTable (h : SizesTable blob) :
    (readBlob path blob.length).given (blobAnswer C allocate blob) =
      (allocate (declaredCount blob).toNat).bind fun _ => fromBlob C blob path := by
  obtain ⟨h20, hmagic, hcount⟩ := h
  rw [readBlob, fromBlob, if_neg (by omega), if_neg (by omega)]
  simp only [Prog.bind_eq, Prog.given_bind, given_load, Except.bind, List.drop_zero]
  have h8 : ¬ ((blob.drop 4).drop 4).length < 8 := by
    rw [List.length_drop, List.length_drop]
    omega
  rw [if_neg (not_not.2 hmagic), if_neg (not_not.2 hmagic), if_neg h8,
    if_neg (show ¬ 8 + 8 > blob.length by omega)]
  simp only [Prog.given_bind, given_load, Except.bind, List.drop_drop]
  rw [← declaredCount, if_neg (by omega), if_neg (by omega)]
  simp only [Prog.given_bind, given_reserve]
  congr 1
  funext _
  have h16 : 16 ≤ blob.length := by omega
  have hloop : ((readEntries path blob.length (declaredCount blob).toNat
      ⟨BitVec.ofNat 32 (loadBE (blob.take 4)) - 4 - 8, 16⟩ empty).given
        (blobAnswer C allocate blob)).map (fun r => (blob.drop r.1, r.2)) =
      readBitmaps C path (declaredCount blob).toNat (BitVec.ofNat 32 (loadBE (blob.take 4)) - 4 - 8)
        (blob.drop 16) empty := given_readEntries _ h16 _
  rw [← hloop]
  cases hread : (readEntries path blob.length (declaredCount blob).toNat
      ⟨BitVec.ofNat 32 (loadBE (blob.take 4)) - 4 - 8, 16⟩ empty).given (blobAnswer C allocate blob)
        with
  | error e => rfl
  | ok read =>
    obtain ⟨hge, hle⟩ := (returns_readEntries path blob.length _ h16 _).given hread
    exact given_readChecksum rfl (le_trans (show 4 ≤ 16 by decide) hge) hle

/-- **The program computes `fromBlob`**, given memory. -/
theorem given_readBlob :
    (readBlob path blob.length).given (blobAnswer C (fun _ => .ok ()) blob) =
      fromBlob C blob path := by
  by_cases h : SizesTable blob
  · exact readBlob_of_sizesTable h
  · obtain ⟨what, hfrom, hgiven, -⟩ := readBlob_of_not_sizesTable h
    exact hgiven.trans hfrom.symm

end

/-- **`FromBlob` stays inside of its buffer and ends**: whatever the buffer holds and CRoaring finds
in it, every read is of its bytes, also of a round that starts with any `vector_size`; a round
consumes five bytes or more; and the reads are at most so many, whatever count is declared. -/
theorem fromBlob_stays_inside (path : String) (blob_length : ℕ) :
    (readBlob path blob_length).Uses (BlobOp.Within blob_length) ∧
    (∀ s, (readEntry path blob_length s).Uses (BlobOp.Within blob_length) ∧
      (readEntry path blob_length s).Returns fun entry =>
        s.blob_start + 5 ≤ entry.cursor.blob_start ∧ entry.cursor.blob_start ≤ blob_length) ∧
    (readBlob path blob_length).EndsWithin (3 * (blob_length / 5) + 6) ∧
    ∀ C (blob : Bytes),
      (readBlob path blob.length).given (blobAnswer C (fun _ => .ok ()) blob) =
        fromBlob C blob path :=
  ⟨uses_readBlob path blob_length,
    fun s => ⟨uses_readEntry path blob_length s, returns_readEntry path blob_length s⟩,
    endsWithin_readBlob path blob_length, fun _ _ => given_readBlob⟩

/-! ## The size of the table -/

/-- `readSafe` reads every bitmap whose size was found, of the bytes that are there. -/
structure ReadsSized (C : CRoaring) : Prop where
  size_le : ∀ s, C.portable_deserialize_size s ≤ s.length
  read : ∀ s, C.portable_deserialize_size s ≠ 0 →
    ∃ b, C.readSafe (s.take (C.portable_deserialize_size s)) = .ok b

/-- The reader of array containers reads a bitmap if it knows its size. -/
theorem arrayRoaring_readsSized : ReadsSized arrayRoaring := by
  refine ⟨arrayRoaring_delimits.size_le, fun s h => ?_⟩
  have hsame := arrayRoaring_delimits.size_take s [] h
  rw [List.append_nil] at hsame
  exact ⟨_, if_neg (hsame.trans_ne h)⟩

section

variable {C : CRoaring} (hC : ReadsSized C) {blob : Bytes} {path : String}
include hC

/-- What `readSafe` gets are the bytes the size was found of. -/
theorem readSafe_take {buf : Bytes} {max_bytes : ℕ}
    (h : C.portable_deserialize_size (buf.take max_bytes) ≠ 0) :
    ∃ b, C.readSafe (buf.take (C.portable_deserialize_size (buf.take max_bytes))) = .ok b := by
  have hle := hC.size_le (buf.take max_bytes)
  rw [List.length_take] at hle
  have hread := hC.read _ h
  rwa [List.take_take, Nat.min_eq_left (by omega)] at hread

/-- The loop refuses with the blob's exception. -/
theorem readBitmaps_error {n : ℕ} {vector_size : BitVec 32} {blob_start : Bytes}
    {result : UCDeletionVectorData} {e : Exception}
    (h : readBitmaps C path n vector_size blob_start result = .error e) :
    ∃ what, e = blobException path what := by
  induction n generalizing vector_size blob_start result with
  | zero => cases h
  | succ n ih =>
    rw [readBitmaps] at h
    split at h
    · exact ⟨_, (Except.error.inj h).symm⟩
    · dsimp only at h
      split at h
      · exact ⟨_, (Except.error.inj h).symm⟩
      · rename_i hsize
        obtain ⟨bitmap, hread⟩ := readSafe_take hC fun h0 => hsize (.inl h0)
        rw [hread] at h
        exact ih h

/-- So does `FromBlob`. -/
theorem fromBlob_error {e : Exception} (h : fromBlob C blob path = .error e) :
    ∃ what, e = blobException path what := by
  rw [fromBlob] at h
  dsimp only at h
  split_ifs at h
  iterate 4 exact ⟨_, (Except.error.inj h).symm⟩
  split at h
  · rename_i hloop
    cases h
    exact readBitmaps_error hC hloop
  · split_ifs at h
    iterate 2 exact ⟨_, (Except.error.inj h).symm⟩

end

/-- An operation that asks for no memory. -/
def BlobOp.IsRead : BlobOp → Prop
  | .reserve _ => False
  | _ => True

section

variable (path : String) (blob_length : ℕ)

/-- Reading an entry asks for no memory. -/
theorem readEntry_reads (s : BlobCursor) :
    (readEntry path blob_length s).Uses BlobOp.IsRead := by
  rw [readEntry]
  split
  · trivial
  · apply Prog.Uses.bind (Prog.uses_perform (F := BlobOps) trivial)
    intro key
    apply Prog.Uses.bind (Prog.uses_perform (F := BlobOps) trivial)
    intro bitmap_size
    split
    · trivial
    · exact (Prog.uses_perform (F := BlobOps) trivial).bind fun bitmap => trivial

/-- Reading entries asks for no memory beyond the table's. -/
theorem readEntries_reads (n : ℕ) (s : BlobCursor) (result : UCDeletionVectorData) :
    (readEntries path blob_length n s result).Uses BlobOp.IsRead := by
  induction n generalizing s result with
  | zero => trivial
  | succ n ih => exact (readEntry_reads path blob_length s).bind fun entry => ih _ _

/-- Reading the checksum asks for none either. -/
theorem readChecksum_reads (read : ℕ × UCDeletionVectorData) :
    (readChecksum path blob_length read).Uses BlobOp.IsRead := by
  rw [readChecksum]
  split
  · trivial
  · apply Prog.Uses.bind (Prog.uses_perform (F := BlobOps) trivial)
    intro stored
    apply Prog.Uses.bind (Prog.uses_perform (F := BlobOps) trivial)
    intro data
    split <;> trivial

end

section

variable {C : CRoaring} {allocate : ℕ → Except Exception Unit} {blob : Bytes} {path : String}
    {n : ℕ}

/-- A load asks for no memory, so what is asked for is asked for behind it. -/
theorem mem_performed_load_bind {α : Type} {offset k : ℕ} {f : Bytes → Prog BlobOps Exception α} :
    .reserve n ∈ ((load offset k).bind f).performed (blobAnswer C allocate blob) ↔
      .reserve n ∈ (f ((blob.drop offset).take k)).performed (blobAnswer C allocate blob) := by
  simp [Prog.performed_bind, Except.toOption]

/-- Once the table is sized, nothing asks for memory. -/
theorem mem_performed_reserve_bind {α : Type} {m : ℕ} {f : Unit → Prog BlobOps Exception α}
    (hf : (f ()).Uses BlobOp.IsRead) :
    .reserve n ∈ ((reserve m).bind f).performed (blobAnswer C allocate blob) ↔ n = m := by
  have hnot : .reserve n ∉ (f ()).performed (blobAnswer C allocate blob) := fun h =>
    hf.performed _ _ h
  rw [Prog.performed_bind, performed_reserve, given_reserve]
  cases allocate m with
  | error e => simp [Except.toOption]
  | ok u => simp [Except.toOption, hnot]

/-- The one thing `FromBlob` asks memory for, of a blob that comes to it. -/
theorem mem_performed_readBlob :
    .reserve n ∈ (readBlob path blob.length).performed (blobAnswer C allocate blob) ↔
      SizesTable blob ∧ n = (declaredCount blob).toNat := by
  by_cases hsizes : SizesTable blob
  · obtain ⟨h20, hmagic, hcount⟩ := id hsizes
    rw [readBlob, if_neg (by omega), Prog.bind_eq, mem_performed_load_bind, Prog.bind_eq,
      mem_performed_load_bind, if_neg (not_not.2 hmagic),
      if_neg (show ¬ 8 + 8 > blob.length by omega),
      Prog.bind_eq, mem_performed_load_bind]
    dsimp only
    rw [← declaredCount, if_neg (by omega), Prog.bind_eq, mem_performed_reserve_bind]
    · exact (and_iff_right hsizes).symm
    · exact (readEntries_reads _ _ _ _ _).bind fun read => readChecksum_reads _ _ _
  · refine iff_of_false (fun h => ?_) fun h => hsizes h.1
    exact (readBlob_of_not_sizesTable hsizes).choose_spec.2.2 n h

end

/-- The table is sized for no more entries than the rest of the blob holds, of so many bytes each:
four for the key and `bitmap_size` or more for the bitmap. And with the memory for that, a blob that
is not accepted is refused as invalid. -/
def RefusesCleanly (C : CRoaring) (bitmap_size : ℕ) (path : String) (blob : Bytes) : Prop :=
  (∀ allocate n, .reserve n ∈ (readBlob path blob.length).performed (blobAnswer C allocate blob) →
    n * (4 + bitmap_size) ≤ blob.length - 16) ∧
  ∀ allocate, (∀ n, n * (4 + bitmap_size) ≤ blob.length - 16 → allocate n = .ok ()) →
    ∀ e, (readBlob path blob.length).given (blobAnswer C allocate blob) = .error e →
      e.type = .invalidInput

/-- **Exactly the blobs that are cleanly refused**: those that are refused before the table is
sized, and those that declare no more bitmaps than they have room for. -/
theorem refusesCleanly_iff {C : CRoaring} (hC : ReadsSized C) (bitmap_size : ℕ) (path : String)
    (blob : Bytes) :
    RefusesCleanly C bitmap_size path blob ↔
      blob.length < 20 ∨ (blob.drop 4).take 4 ≠ DELETION_VECTOR_MAGIC ∨
        declaredCount blob * (4 + bitmap_size) ≤ blob.length - 16 := by
  have hcast : SizesTable blob →
    ((declaredCount blob).toNat * (4 + bitmap_size) ≤ blob.length - 16 ↔
      declaredCount blob * (4 + bitmap_size) ≤ blob.length - 16) := by
    rintro ⟨h20, hmagic, hcount⟩
    obtain ⟨n, hn⟩ := Int.eq_ofNat_of_zero_le hcount
    rw [hn, Int.toNat_natCast]
    zify [show 16 ≤ blob.length by omega]
  constructor
  · rintro ⟨hreserve, -⟩
    by_contra! h
    -- a negative count is refused: this one is not
    have hcount : 0 ≤ declaredCount blob := by
      by_contra hneg
      have hle : declaredCount blob * (4 + bitmap_size) ≤ 0 :=
        mul_nonpos_of_nonpos_of_nonneg (by omega) (by omega)
      omega
    have hsizes : SizesTable blob := ⟨h.1, h.2.1, hcount⟩
    have hle := hreserve (fun _ => .ok ()) _ (mem_performed_readBlob.2 ⟨hsizes, rfl⟩)
    exact absurd ((hcast hsizes).1 hle) (not_le.2 h.2.2)
  · intro h
    have hroom : SizesTable blob →
        (declaredCount blob).toNat * (4 + bitmap_size) ≤ blob.length - 16 := by
      intro hsizes
      apply (hcast hsizes).2
      obtain hsmall | hmagic | hle := h
      · exact absurd hsizes.1 (not_le.2 hsmall)
      · exact absurd hsizes.2.1 hmagic
      · exact hle
    refine ⟨fun allocate n hn => ?_, fun allocate hserves e he => ?_⟩
    · obtain ⟨hsizes, rfl⟩ := mem_performed_readBlob.1 hn
      exact hroom hsizes
    · by_cases hsizes : SizesTable blob
      · rw [readBlob_of_sizesTable hsizes, hserves _ (hroom hsizes)] at he
        obtain ⟨what, rfl⟩ := fromBlob_error hC he
        rfl
      · obtain ⟨what, hfrom, hgiven, hnot⟩ := readBlob_of_not_sizesTable hsizes
        cases hgiven.symm.trans he
        rfl

/-- A blob of no bitmaps that declares so many, its checksum aside. -/
def emptyBlob (amount_of_bitmaps : ℕ) : Bytes :=
  leBytes 4 0 ++ DELETION_VECTOR_MAGIC ++ leBytes 8 amount_of_bitmaps ++ leBytes 4 0

/-- A blob of two bitmaps is sized for two entries and read; cut inside the second bitmap it is
refused as invalid. -/
theorem refusesCleanly_twoEntries :
    RefusesCleanly arrayRoaring 1 "dv.puffin" (blobOf (twoEntries 0 1)) ∧
    RefusesCleanly arrayRoaring 1 "dv.puffin" ((blobOf (twoEntries 0 1)).take 50) ∧
    declaredCount ((blobOf (twoEntries 0 1)).take 50) = 2 ∧
    ((readBlob "dv.puffin" 50).given (blobAnswer arrayRoaring (fun _ => .ok ())
      ((blobOf (twoEntries 0 1)).take 50))).toBool = false := by
  refine ⟨?_, ?_, by decide +kernel, ?_⟩
  · exact (refusesCleanly_iff arrayRoaring_readsSized 1 "dv.puffin" (blobOf (twoEntries 0 1))).2
      (.inr (.inr (by decide +kernel)))
  · exact (refusesCleanly_iff arrayRoaring_readsSized 1 "dv.puffin" _).2
      (.inr (.inr (by decide +kernel)))
  · decide +kernel

/-- Twenty bytes that ask for a table of `2 ^ 62` entries; where there is no memory for it, that is
the error. -/
theorem hugeCount_is_reserved :
    (emptyBlob (2 ^ 62)).length = 20 ∧
    .reserve (2 ^ 62) ∈ (readBlob "dv.puffin" 20).performed
      (blobAnswer arrayRoaring (fun _ => .ok ()) (emptyBlob (2 ^ 62))) ∧
    (readBlob "dv.puffin" 20).given
        (blobAnswer arrayRoaring (fun _ => .error (internalException "std::bad_alloc"))
          (emptyBlob (2 ^ 62))) = .error (internalException "std::bad_alloc") ∧
    ¬ ∀ C, ReadsSized C → ∀ path blob, RefusesCleanly C 1 path blob := by
  have hlength : (emptyBlob (2 ^ 62)).length = 20 := by decide +kernel
  have hcount : declaredCount (emptyBlob (2 ^ 62)) = 2 ^ 62 := by decide +kernel
  have hsizes : SizesTable (emptyBlob (2 ^ 62)) := by
    refine ⟨hlength.ge, by decide +kernel, ?_⟩
    rw [hcount]
    decide
  have hreserve : .reserve (2 ^ 62) ∈ (readBlob "dv.puffin" (emptyBlob (2 ^ 62)).length).performed
      (blobAnswer arrayRoaring (fun _ => .ok ()) (emptyBlob (2 ^ 62))) := by
    apply mem_performed_readBlob.2
    rw [hcount]
    exact ⟨hsizes, by decide⟩
  refine ⟨hlength, hlength ▸ hreserve, ?_, fun h => ?_⟩
  · rw [← hlength]
    exact readBlob_of_sizesTable hsizes
  · have hle := (h arrayRoaring arrayRoaring_readsSized "dv.puffin" _).1 _ _ hreserve
    rw [hlength] at hle
    exact absurd hle (by decide)

end UnityCatalog
