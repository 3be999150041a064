import UnityCatalog.BlobReads
import UnityCatalog.DeletionVectorCodec

/-!
# Puffin files

`UCPuffinReader` and the whole-file read of `uc_read_deletion_vector`. A file is a container (a
magic, blobs, and a footer that lists them as JSON) or one bare deletion vector.

Every size the reader works with is unsigned and 64 bits wide. It is therefore a program here, whose
operations are its reads *and its differences*: of each difference one can then say that it does not
wrap. Which JSON a payload is, a parser says.
-/

namespace UnityCatalog

open Effectful Words Yyjson UCDeletionVectorData

/-! ## The program -/

/-- What the reader does with its file. -/
inductive PuffinOp where
  /-- a comparison, or the load of a number -/
  | load (offset : BitVec 64) (n : ℕ)
  /-- the difference of two sizes -/
  | minus (a b : BitVec 64)
  /-- `yyjson_read` -/
  | yyjson_read (offset length : BitVec 64)
  /-- `FromBlob` -/
  | fromBlob (offset length : BitVec 64)

/-- The answers; a difference is what it is. -/
def PuffinOp.Ans : PuffinOp → Type
  | .load _ _ => Bytes
  | .minus _ _ => Unit
  | .yyjson_read _ _ => Option Val
  | .fromBlob _ _ => UCDeletionVectorData

/-- The operations of `UCPuffinReader`. -/
abbrev PuffinOps : Signature := ⟨PuffinOp, PuffinOp.Ans⟩

/-- So many bytes of the file. -/
def bytesAt (offset : BitVec 64) (n : ℕ) : Prog PuffinOps Exception Bytes :=
  Prog.perform (F := PuffinOps) (.load offset n)

/-- `a - b` -/
def minus (a b : BitVec 64) : Prog PuffinOps Exception (BitVec 64) :=
  (Prog.perform (F := PuffinOps) (.minus a b)).bind fun _ => .ret (a - b)

/-- `yyjson_read`, and the root of what it read -/
def yyjsonRead (offset length : BitVec 64) : Prog PuffinOps Exception (Option Val) :=
  Prog.perform (F := PuffinOps) (.yyjson_read offset length)

/-- `FromBlob` -/
def fromBlobAt (offset length : BitVec 64) : Prog PuffinOps Exception UCDeletionVectorData :=
  Prog.perform (F := PuffinOps) (.fromBlob offset length)

def PUFFIN_MAGIC : Bytes := [0x50, 0x46, 0x41, 0x31]
def PUFFIN_MAGIC_SIZE : BitVec 64 := 4
def PUFFIN_FOOTER_SIZE_FIELD_SIZE : BitVec 64 := 4
def PUFFIN_FOOTER_FLAGS_SIZE : BitVec 64 := 4
def PUFFIN_FOOTER_TAIL_SIZE : BitVec 64 :=
  PUFFIN_FOOTER_SIZE_FIELD_SIZE + PUFFIN_FOOTER_FLAGS_SIZE + PUFFIN_MAGIC_SIZE
def PUFFIN_FOOTER_STRUCT_SIZE : BitVec 64 := PUFFIN_MAGIC_SIZE + PUFFIN_FOOTER_TAIL_SIZE
def PUFFIN_MIN_FILE_SIZE : BitVec 64 := PUFFIN_MAGIC_SIZE + PUFFIN_FOOTER_STRUCT_SIZE
def PUFFIN_FOOTER_COMPRESSED_FLAG : BitVec 32 := 1
def DELETION_VECTOR_BLOB_TYPE : String := "deletion-vector-v1"

/-- `UCPuffinBlob` -/
structure UCPuffinBlob where
  offset : BitVec 64
  length : BitVec 64
  deriving DecidableEq

/-- An error of a container's. -/
def puffinException (path what : String) : Exception :=
  invalidInputException ("Puffin file \"" ++ path ++ "\" " ++ what)

section

variable (size : BitVec 64) (path : String)

/-- `IsBareDeletionVector` -/
def isBareDeletionVector : Prog PuffinOps Exception Bool :=
  if size < 4 + 4 then return false
  else do
    let magic ← bytesAt 4 4
    return magic = DELETION_VECTOR_MAGIC

/-- `ValidateFooter`: the payload offset. -/
def validateFooter : Prog PuffinOps Exception (BitVec 64) := do
  let trailing ← minus size PUFFIN_MAGIC_SIZE
  let magic ← bytesAt trailing 4
  if magic ≠ PUFFIN_MAGIC then throw (puffinException path "is corrupt - trailing magic mismatch")
  else do
    let trailing ← minus size PUFFIN_MAGIC_SIZE
    let at_flags ← minus trailing PUFFIN_FOOTER_FLAGS_SIZE
    let word ← bytesAt at_flags 4
    let flags := BitVec.ofNat 32 (loadLE word)
    if flags &&& PUFFIN_FOOTER_COMPRESSED_FLAG ≠ 0 then
      throw (puffinException path "has a compressed footer, which is not supported")
    else if flags ≠ 0 then throw (puffinException path "has unsupported footer flags")
    else do
      let tail ← minus size PUFFIN_FOOTER_TAIL_SIZE
      let word ← bytesAt tail 4
      let payload_size := (BitVec.ofNat 32 (loadLE word)).setWidth 64
      let limit ← minus size PUFFIN_MIN_FILE_SIZE
      if payload_size > limit then
        throw (puffinException path "is corrupt - footer payload size out of range")
      else do
        let tail ← minus size PUFFIN_FOOTER_TAIL_SIZE
        let payload_start ← minus tail payload_size
        let at_magic ← minus payload_start PUFFIN_MAGIC_SIZE
        let magic ← bytesAt at_magic 4
        if magic ≠ PUFFIN_MAGIC then
          throw (puffinException path "is corrupt - footer magic mismatch")
        else return payload_start

/-- `yyjson_is_int` -/
def isInt : Option Val → Bool
  | some (.num (.uint _)) => true
  | some (.num (.sint _)) => true
  | _ => false

/-- `TryParseBlobMetadata`; none of a blob that is not a deletion vector. -/
def tryParseBlobMetadata (blob_val : Val) (blob_section_end : BitVec 64) :
    Prog PuffinOps Exception (Option UCPuffinBlob) :=
  match objGet (some blob_val) "type" with
  | some (.str blob_type) =>
    if blob_type ≠ DELETION_VECTOR_BLOB_TYPE then return none
    else
      let offset_val := objGet (some blob_val) "offset"
      let length_val := objGet (some blob_val) "length"
      if !isInt offset_val || !isInt length_val then
        throw (puffinException path "is corrupt - blob without offset/length")
      else
        let raw_offset := getSint offset_val
        let raw_length := getSint length_val
        if raw_offset < 0 ∨ raw_length < 0 then
          throw (puffinException path "is corrupt - blob offset/length out of range")
        else
          let offset := BitVec.ofInt 64 raw_offset
          let length := BitVec.ofInt 64 raw_length
          if offset < PUFFIN_MAGIC_SIZE ∨ length > blob_section_end then
            throw (puffinException path "is corrupt - blob offset/length out of range")
          else do
            let limit ← minus blob_section_end length
            if offset > limit then
              throw (puffinException path "is corrupt - blob offset/length out of range")
            else return some ⟨offset, length⟩
  | _ => throw (puffinException path "is corrupt - blob without a type")

/-- The loop of `ParseFileMetadata`. -/
def parseBlobs (blob_section_end : BitVec 64) :
    List Val → Prog PuffinOps Exception (List UCPuffinBlob)
  | [] => return []
  | blob_val :: blob_vals => do
    let blob ← tryParseBlobMetadata path blob_val blob_section_end
    let blobs ← parseBlobs blob_section_end blob_vals
    return blob.toList ++ blobs

/-- `ParseFileMetadata` -/
def parseFileMetadata (payload payload_size blob_section_end : BitVec 64) :
    Prog PuffinOps Exception (List UCPuffinBlob) := do
  let root ← yyjsonRead payload payload_size
  match root with
  | none => throw (puffinException path "is corrupt - failed to parse footer payload")
  | some root =>
    match objGet (some root) "blobs" with
    | some (.arr blobs_val) => parseBlobs path blob_section_end blobs_val
    | _ => throw (puffinException path "is corrupt - footer has no \"blobs\" list")

/-- Whether the file starts as a container does. -/
def isContainer : Prog PuffinOps Exception Bool :=
  if size < PUFFIN_MIN_FILE_SIZE then return false
  else do
    let magic ← bytesAt 0 4
    return magic = PUFFIN_MAGIC

/-- `UCPuffinReader::ParseFooter`: the blobs. -/
def parseFooter : Prog PuffinOps Exception (List UCPuffinBlob) := do
  let container ← isContainer size
  if container then do
    let payload_start ← validateFooter size path
    let tail ← minus size PUFFIN_FOOTER_TAIL_SIZE
    let payload_size ← minus tail payload_start
    let blob_section_end ← minus payload_start PUFFIN_MAGIC_SIZE
    parseFileMetadata path payload_start payload_size blob_section_end
  else do
    let bare ← isBareDeletionVector size
    if bare then return [⟨0, size⟩]
    else throw (invalidInputException ("File \"" ++ path ++
      "\" is not a valid deletion vector - magic mismatch"))

/-- `UCPuffinReader::DecodeBlob` -/
def decodeBlob (blob : UCPuffinBlob) : Prog PuffinOps Exception UCDeletionVectorData :=
  fromBlobAt blob.offset blob.length

/-- The positions `ReadDVInit` reads from a whole file. -/
def readWholeFile : Prog PuffinOps Exception (Finset (BitVec 64)) := do
  let blobs ← parseFooter size path
  blobs.foldlM (fun positions blob => do
    let dv ← decodeBlob blob
    return positions ∪ dv.toSet) ∅

end

/-! ## Bounds -/

/-- An operation inside of a file of that size. -/
def PuffinOp.Within (size : BitVec 64) : PuffinOp → Prop
  | .load offset n => offset.toNat + n ≤ size.toNat
  | .minus a b => b ≤ a
  | .yyjson_read offset length => offset.toNat + length.toNat ≤ size.toNat
  | .fromBlob offset length => offset.toNat + length.toNat ≤ size.toNat

/-- A listed blob is one of the blob section. -/
def UCPuffinBlob.Within (blob : UCPuffinBlob) (blob_section_end : BitVec 64) : Prop :=
  4 ≤ blob.offset.toNat ∧ blob.offset.toNat + blob.length.toNat ≤ blob_section_end.toNat

section

variable {size a b offset : BitVec 64} {n : ℕ}

theorem uses_bytesAt (h : offset.toNat + n ≤ size.toNat) :
    (bytesAt offset n).Uses (PuffinOp.Within size) := Prog.uses_perform (F := PuffinOps) h

theorem uses_minus (h : b ≤ a) : (minus a b).Uses (PuffinOp.Within size) :=
  (Prog.uses_perform (F := PuffinOps) h).bind fun _ => trivial

/-- A difference is the one it is. -/
theorem returns_minus : (minus a b).Returns fun r => r = a - b :=
  (Prog.returns_trivial _).bind fun _ _ => rfl

/-- A difference that does not wrap, and what follows it. -/
theorem uses_minus_bind {α : Type} {f : BitVec 64 → Prog PuffinOps Exception α} (h : b ≤ a)
    (hf : (f (a - b)).Uses (PuffinOp.Within size)) :
    ((minus a b).bind f).Uses (PuffinOp.Within size) :=
  (uses_minus h).bind_returns returns_minus fun _ hr => hr ▸ hf

theorem returns_minus_bind {α : Type} {A : α → Prop} {f : BitVec 64 → Prog PuffinOps Exception α}
    (hf : (f (a - b)).Returns A) : ((minus a b).bind f).Returns A :=
  returns_minus.bind fun _ hr => hr ▸ hf

end

section

variable {size : BitVec 64} {path : String}

theorem uses_isBareDeletionVector : (isBareDeletionVector size).Uses (PuffinOp.Within size) := by
  rw [isBareDeletionVector]
  split
  · trivial
  · rename_i hsize
    apply Prog.Uses.bind (uses_bytesAt (by bv_omega))
    intro magic
    trivial

theorem uses_isContainer : (isContainer size).Uses (PuffinOp.Within size) := by
  rw [isContainer]
  split
  · trivial
  · rename_i hsize
    have h20 : 20 ≤ size := BitVec.not_lt.1 hsize
    apply Prog.Uses.bind (uses_bytesAt (by bv_omega))
    intro magic
    trivial

theorem returns_isContainer : (isContainer size).Returns fun container => container = true →
    20 ≤ size := by
  rw [isContainer]
  split
  · exact fun h => by cases h
  · rename_i hsize
    exact (Prog.returns_trivial _).bind fun magic _ _ => BitVec.not_lt.1 hsize

section

variable (h20 : 20 ≤ size)
include h20

/-- Every difference is checked before it is made. -/
theorem uses_validateFooter : (validateFooter size path).Uses (PuffinOp.Within size) := by
  rw [validateFooter]
  apply uses_minus_bind (show 4 ≤ size by bv_omega)
  apply (uses_bytesAt (show (size - 4).toNat + 4 ≤ size.toNat by bv_omega)).bind
  intro magic
  split
  · trivial
  · apply uses_minus_bind (show 4 ≤ size by bv_omega)
    apply uses_minus_bind (show 4 ≤ size - 4 by bv_omega)
    apply (uses_bytesAt (show (size - 4 - 4).toNat + 4 ≤ size.toNat by bv_omega)).bind
    intro word
    dsimp only
    split
    · trivial
    · split
      · trivial
      · apply uses_minus_bind (show 12 ≤ size by bv_omega)
        apply (uses_bytesAt (show (size - 12).toNat + 4 ≤ size.toNat by bv_omega)).bind
        intro word
        apply uses_minus_bind (show 20 ≤ size from h20)
        generalize (BitVec.ofNat 32 (loadLE word)).setWidth 64 = payload_size
        split
        · trivial
        · rename_i hsize
          have hle : payload_size ≤ size - 20 := BitVec.not_lt.1 hsize
          apply uses_minus_bind (show 12 ≤ size by bv_omega)
          apply uses_minus_bind (show payload_size ≤ size - 12 by bv_omega)
          apply uses_minus_bind (show 4 ≤ size - 12 - payload_size by bv_omega)
          apply (uses_bytesAt
            (show (size - 12 - payload_size - 4).toNat + 4 ≤ size.toNat by bv_omega)).bind
          intro magic
          split <;> trivial

/-- The payload and its magic are behind the leading magic. -/
theorem returns_validateFooter : (validateFooter size path).Returns fun payload_start =>
    8 ≤ payload_start ∧ payload_start ≤ size - 12 := by
  rw [validateFooter]
  apply returns_minus_bind
  apply (Prog.returns_trivial _).bind
  intro magic _
  split
  · trivial
  · apply returns_minus_bind
    apply returns_minus_bind
    apply (Prog.returns_trivial _).bind
    intro word _
    dsimp only
    split
    · trivial
    · split
      · trivial
      · apply returns_minus_bind
        apply (Prog.returns_trivial _).bind
        intro word _
        apply returns_minus_bind
        generalize (BitVec.ofNat 32 (loadLE word)).setWidth 64 = payload_size
        split
        · trivial
        · rename_i hsize
          have hle : payload_size ≤ size - 20 := BitVec.not_lt.1 hsize
          apply returns_minus_bind
          apply returns_minus_bind
          apply returns_minus_bind
          apply (Prog.returns_trivial _).bind
          intro magic _
          split
          · trivial
          · show 8 ≤ size - 12 - payload_size ∧ size - 12 - payload_size ≤ size - 12
            constructor <;> bv_omega

end

section

variable {blob_section_end : BitVec 64}

theorem uses_tryParseBlobMetadata (blob_val : Val) :
    (tryParseBlobMetadata path blob_val blob_section_end).Uses (PuffinOp.Within size) := by
  rw [tryParseBlobMetadata]
  split
  · split
    · trivial
    · dsimp only
      split
      · trivial
      · split
        · trivial
        · split
          · trivial
          · rename_i hlength
            apply uses_minus_bind (BitVec.not_lt.1 fun h => hlength (.inr h))
            split <;> trivial
  · trivial

/-- Nothing is added that could wrap: the bound is on the difference. -/
theorem returns_tryParseBlobMetadata (blob_val : Val) :
    (tryParseBlobMetadata path blob_val blob_section_end).Returns fun blob =>
      ∀ b ∈ blob, b.Within blob_section_end := by
  rw [tryParseBlobMetadata]
  split
  · split
    · exact fun b h => by cases h
    · dsimp only
      generalize BitVec.ofInt 64 (getSint (objGet (some blob_val) "offset")) = offset
      generalize BitVec.ofInt 64 (getSint (objGet (some blob_val) "length")) = length
      split
      · trivial
      · split
        · trivial
        · split
          · trivial
          · rename_i hlength
            apply returns_minus_bind
            split
            · trivial
            · rename_i hoffset
              intro b hb
              cases hb
              have h4 : 4 ≤ offset := BitVec.not_lt.1 fun h => hlength (.inl h)
              have hle : length ≤ blob_section_end := BitVec.not_lt.1 fun h => hlength (.inr h)
              have hlimit : offset ≤ blob_section_end - length := BitVec.not_lt.1 hoffset
              refine ⟨?_, ?_⟩ <;> simp only <;> bv_omega
  · trivial

theorem uses_parseBlobs (blob_vals : List Val) :
    (parseBlobs path blob_section_end blob_vals).Uses (PuffinOp.Within size) := by
  induction blob_vals with
  | nil => trivial
  | cons blob_val blob_vals ih =>
    apply (uses_tryParseBlobMetadata blob_val).bind
    intro blob
    apply ih.bind
    intro blobs
    trivial

theorem returns_parseBlobs (blob_vals : List Val) :
    (parseBlobs path blob_section_end blob_vals).Returns fun blobs =>
      ∀ b ∈ blobs, b.Within blob_section_end := by
  induction blob_vals with
  | nil => exact fun b h => by cases h
  | cons blob_val blob_vals ih =>
    apply (returns_tryParseBlobMetadata blob_val).bind
    intro blob hblob
    apply ih.bind
    intro blobs hblobs b hb
    obtain hb | hb := List.mem_append.1 hb
    · exact hblob b (Option.mem_toList.1 hb)
    · exact hblobs b hb

theorem returns_parseFileMetadata (payload payload_size : BitVec 64) :
    (parseFileMetadata path payload payload_size blob_section_end).Returns fun blobs =>
      ∀ b ∈ blobs, b.Within blob_section_end := by
  rw [parseFileMetadata]
  apply (Prog.returns_trivial _).bind
  intro root _
  split
  · trivial
  · split
    · exact returns_parseBlobs _
    · trivial

theorem uses_parseFileMetadata {payload payload_size : BitVec 64}
    (h : payload.toNat + payload_size.toNat ≤ size.toNat) :
    (parseFileMetadata path payload payload_size blob_section_end).Uses (PuffinOp.Within size) := by
  rw [parseFileMetadata]
  apply Prog.Uses.bind (Prog.uses_perform (F := PuffinOps) h)
  intro root
  split
  · trivial
  · split
    · exact uses_parseBlobs _
    · trivial

end

theorem uses_parseFooter : (parseFooter size path).Uses (PuffinOp.Within size) := by
  rw [parseFooter]
  apply uses_isContainer.bind_returns returns_isContainer
  intro container hcontainer
  split
  · rename_i h
    have h20 := hcontainer h
    apply (uses_validateFooter h20).bind_returns (returns_validateFooter h20)
    rintro payload_start ⟨h8, h12⟩
    apply uses_minus_bind (show 12 ≤ size by bv_omega)
    apply uses_minus_bind (show payload_start ≤ size - 12 from h12)
    apply uses_minus_bind (show 4 ≤ payload_start by bv_omega)
    exact uses_parseFileMetadata
      (show payload_start.toNat + (size - 12 - payload_start).toNat ≤ size.toNat by bv_omega)
  · apply uses_isBareDeletionVector.bind
    intro bare
    split <;> trivial

/-- Every blob a reader lists is of its file. -/
theorem returns_parseFooter : (parseFooter size path).Returns fun blobs =>
    ∀ b ∈ blobs, b.offset.toNat + b.length.toNat ≤ size.toNat := by
  rw [parseFooter]
  apply returns_isContainer.bind
  intro container hcontainer
  split
  · rename_i h
    have h20 := hcontainer h
    apply (returns_validateFooter h20).bind
    rintro payload_start ⟨h8, h12⟩
    apply returns_minus_bind
    apply returns_minus_bind
    apply returns_minus_bind
    apply (returns_parseFileMetadata _ _).mono
    intro blobs hblobs b hb
    have hend : (payload_start - 4).toNat ≤ size.toNat := by bv_omega
    exact (hblobs b hb).2.trans hend
  · apply (Prog.returns_trivial _).bind
    intro bare _
    split
    · intro b hb
      obtain rfl := List.mem_singleton.1 hb
      exact (Nat.zero_add _).le
    · trivial

/-- The whole-file read stays inside of the file, and no difference it makes wraps. -/
theorem uses_readWholeFile : (readWholeFile size path).Uses (PuffinOp.Within size) := by
  rw [readWholeFile]
  apply uses_parseFooter.bind_returns returns_parseFooter
  intro blobs hblobs
  generalize (∅ : Finset (BitVec 64)) = positions
  induction blobs generalizing positions with
  | nil => trivial
  | cons blob blobs ih =>
    obtain ⟨hblob, hrest⟩ := List.forall_mem_cons.1 hblobs
    apply Prog.Uses.bind (Prog.Uses.bind (Prog.uses_perform (F := PuffinOps) hblob) fun dv => ?_)
    · intro positions
      exact ih hrest _
    · trivial

end

/-! ## Files -/

/-- A file; its size is an `int64_t`. -/
structure PuffinFile where
  bytes : Bytes
  size_lt : bytes.length < 2 ^ 63

namespace PuffinFile

variable (file : PuffinFile)

/-- Its size, as an `idx_t`. -/
def size : BitVec 64 := BitVec.ofNat 64 file.bytes.length

@[simp] theorem toNat_size : file.size.toNat = file.bytes.length := by
  have := file.size_lt
  rw [size, BitVec.toNat_ofNat, Nat.mod_eq_of_lt (by omega)]

/-- So many of its bytes. -/
def slice (offset n : ℕ) : Bytes := (file.bytes.drop offset).take n

/-- The answers of a file, with those of a JSON parser and of CRoaring. -/
def answer (C : CRoaring) (parse : Bytes → Option Val) (path : String) :
    (op : PuffinOp) → Except Exception op.Ans
  | .load offset n => .ok (file.slice offset.toNat n)
  | .minus _ _ => .ok ()
  | .yyjson_read offset length => .ok (parse (file.slice offset.toNat length.toNat))
  | .fromBlob offset length =>
    UCDeletionVectorData.fromBlob C (file.slice offset.toNat length.toNat) path

/-- Whether it is taken for a container. -/
def IsContainer : Prop := 20 ≤ file.bytes.length ∧ file.slice 0 4 = PUFFIN_MAGIC

instance decidableIsContainer : Decidable file.IsContainer := inferInstanceAs (Decidable (_ ∧ _))

/-- The size of the footer payload, as the tail tells it. -/
def payloadSize : ℕ := loadLE (file.slice (file.bytes.length - 12) 4)

/-- Where the footer payload starts. -/
def payloadStart : ℕ := file.bytes.length - 12 - file.payloadSize

/-- The footer has its magics, no flags, and a payload that fits between the leading magic and
it. -/
structure FooterValid : Prop where
  trailing_magic : file.slice (file.bytes.length - 4) 4 = PUFFIN_MAGIC
  flags : loadLE (file.slice (file.bytes.length - 8) 4) = 0
  payload_fits : file.payloadSize + 20 ≤ file.bytes.length
  footer_magic : file.slice (file.payloadStart - 4) 4 = PUFFIN_MAGIC

theorem loadLE_slice_lt (offset : ℕ) : loadLE (file.slice offset 4) < 2 ^ 32 := by
  have hlt := loadLE_lt (file.slice offset 4)
  have hlength : (file.slice offset 4).length ≤ 4 := List.length_take_le _ _
  have hpow : 256 ^ (file.slice offset 4).length ≤ 256 ^ 4 :=
    Nat.pow_le_pow_right (by decide) hlength
  omega

end PuffinFile

section

variable {C : CRoaring} {parse : Bytes → Option Val} {path : String} {file : PuffinFile}

@[simp] theorem given_bytesAt (offset : BitVec 64) (n : ℕ) :
    (bytesAt offset n).given (file.answer C parse path) = .ok (file.slice offset.toNat n) :=
  Prog.given_perform (F := PuffinOps) (file.answer C parse path) _

@[simp] theorem given_minus (a b : BitVec 64) :
    (minus a b).given (file.answer C parse path) = .ok (a - b) := by
  rw [minus, Prog.given_bind, Prog.given_perform (F := PuffinOps)]
  rfl

@[simp] theorem given_yyjsonRead (offset length : BitVec 64) :
    (yyjsonRead offset length).given (file.answer C parse path) =
      .ok (parse (file.slice offset.toNat length.toNat)) :=
  Prog.given_perform (F := PuffinOps) (file.answer C parse path) _

@[simp] theorem given_fromBlobAt (offset length : BitVec 64) :
    (fromBlobAt offset length).given (file.answer C parse path) =
      UCDeletionVectorData.fromBlob C (file.slice offset.toNat length.toNat) path :=
  Prog.given_perform (F := PuffinOps) (file.answer C parse path) _

/-- `ValidateFooter` accepts the valid footers, and its differences are those of numbers. -/
theorem validateFooter_eq_ok (h20 : 20 ≤ file.bytes.length) {payload_start : BitVec 64} :
    (validateFooter file.size path).given (file.answer C parse path) = .ok payload_start ↔
      file.FooterValid ∧ payload_start = BitVec.ofNat 64 file.payloadStart := by
  -- the offsets that are subtracted do not wrap, as the file has 20 bytes
  have hsize := file.toNat_size
  have hlt := file.size_lt
  have h4 : (file.size - PUFFIN_MAGIC_SIZE).toNat = file.bytes.length - 4 := by
    show (file.size - 4#64).toNat = _
    bv_omega
  have h8 : (file.size - PUFFIN_MAGIC_SIZE - PUFFIN_FOOTER_FLAGS_SIZE).toNat =
      file.bytes.length - 8 := by
    show (file.size - 4#64 - 4#64).toNat = _
    bv_omega
  have h12 : (file.size - PUFFIN_FOOTER_TAIL_SIZE).toNat = file.bytes.length - 12 := by
    show (file.size - 12#64).toNat = _
    bv_omega
  have h20' : (file.size - PUFFIN_MIN_FILE_SIZE).toNat = file.bytes.length - 20 := by
    show (file.size - 20#64).toNat = _
    bv_omega
  have hpayload := file.loadLE_slice_lt (file.bytes.length - 12)
  have hword :
    ((BitVec.ofNat 32 (loadLE (file.slice (file.bytes.length - 12) 4))).setWidth 64).toNat =
      file.payloadSize := by
    rw [BitVec.toNat_setWidth, BitVec.toNat_ofNat, PuffinFile.payloadSize]
    omega
  have hflags := file.loadLE_slice_lt (file.bytes.length - 8)
  rw [validateFooter]
  simp only [Prog.bind_eq, Prog.pure_eq, Prog.given_bind, given_minus, given_bytesAt, Except.bind,
    h4]
  -- one case for each test of the source, in its order
  by_cases hmagic : file.slice (file.bytes.length - 4) 4 = PUFFIN_MAGIC
  · rw [if_neg (not_not.2 hmagic)]
    simp only [Prog.given_bind, given_minus, given_bytesAt, Except.bind, h8]
    by_cases hzero : loadLE (file.slice (file.bytes.length - 8) 4) = 0
    · rw [hzero, if_neg (by decide), if_neg (by decide)]
      simp only [Prog.given_bind, given_minus, given_bytesAt, Except.bind, h12]
      by_cases hfits : file.payloadSize + 20 ≤ file.bytes.length
      · generalize BitVec.setWidth 64 _ = payload_size at hword ⊢
        -- the payload and its magic lie behind the first magic
        have hin : ¬ payload_size > file.size - PUFFIN_MIN_FILE_SIZE := by
          rw [gt_iff_lt, BitVec.lt_def, h20', hword]
          omega
        have hstart : (file.size - PUFFIN_FOOTER_TAIL_SIZE - payload_size).toNat =
            file.payloadStart := by
          rw [PuffinFile.payloadStart]
          bv_omega
        have hat : (file.size - PUFFIN_FOOTER_TAIL_SIZE - payload_size - PUFFIN_MAGIC_SIZE).toNat =
            file.payloadStart - 4 := by
          rw [PuffinFile.payloadStart] at hstart ⊢
          show (file.size - PUFFIN_FOOTER_TAIL_SIZE - payload_size - 4#64).toNat = _
          bv_omega
        have hresult : file.size - PUFFIN_FOOTER_TAIL_SIZE - payload_size =
            BitVec.ofNat 64 file.payloadStart := by
          rw [← hstart, BitVec.ofNat_toNat, BitVec.setWidth_eq]
        rw [if_neg hin]
        simp only [Prog.given_bind, given_minus, given_bytesAt, Except.bind, hat]
        by_cases hfooter : file.slice (file.payloadStart - 4) 4 = PUFFIN_MAGIC
        · rw [if_neg (not_not.2 hfooter), hresult]
          constructor
          · intro h
            exact ⟨⟨hmagic, hzero, hfits, hfooter⟩, (Except.ok.inj h).symm⟩
          · rintro ⟨-, rfl⟩
            rfl
        · rw [if_pos hfooter]
          exact iff_of_false (fun h => by cases h) fun h => hfooter h.1.footer_magic
      · have hout :
          BitVec.setWidth 64 (BitVec.ofNat 32 (loadLE (file.slice (file.bytes.length - 12) 4))) >
            file.size - PUFFIN_MIN_FILE_SIZE := by
          rw [gt_iff_lt, BitVec.lt_def, h20', hword]
          omega
        rw [if_pos hout]
        exact iff_of_false (fun h => by cases h) fun h => hfits h.1.payload_fits
    · refine iff_of_false (fun h => ?_) fun h => hzero h.1.flags
      split at h
      · cases h
      · split at h
        · cases h
        · rename_i hword0
          apply hzero
          have hnat := congrArg BitVec.toNat (not_not.1 hword0)
          rwa [BitVec.toNat_ofNat, Nat.mod_eq_of_lt hflags] at hnat
  · rw [if_pos hmagic]
    exact iff_of_false (fun h => by cases h) fun h => hmagic h.1.trailing_magic

theorem given_isContainer :
    (isContainer file.size).given (file.answer C parse path) = .ok (decide file.IsContainer) := by
  have hsize : file.size < PUFFIN_MIN_FILE_SIZE ↔ file.bytes.length < 20 := by
    rw [BitVec.lt_def, file.toNat_size]
    rfl
  rw [isContainer]
  simp only [hsize]
  split
  · rename_i h
    have hnot : ¬ file.IsContainer := fun hcontainer => not_le.2 h hcontainer.1
    exact congrArg Except.ok (decide_eq_false hnot).symm
  · rename_i h
    simp only [Prog.bind_eq, Prog.pure_eq, Prog.given_bind, given_bytesAt, Except.bind]
    have hiff : file.IsContainer ↔ file.slice 0 4 = PUFFIN_MAGIC := and_iff_right (not_lt.1 h)
    exact congrArg Except.ok (decide_eq_decide.2 hiff.symm)

/-- The differences `ParseFooter` makes are those of numbers, too. -/
theorem PuffinFile.footer_differences (file : PuffinFile) (h : file.FooterValid) :
    file.size - PUFFIN_FOOTER_TAIL_SIZE - BitVec.ofNat 64 file.payloadStart =
      BitVec.ofNat 64 file.payloadSize ∧
    BitVec.ofNat 64 file.payloadStart - PUFFIN_MAGIC_SIZE =
      BitVec.ofNat 64 (file.payloadStart - 4) := by
  have hsize := file.toNat_size
  have hlt := file.size_lt
  have hfits := h.payload_fits
  rw [PuffinFile.payloadStart]
  constructor
  · show file.size - 12#64 - _ = _
    bv_omega
  · show _ - 4#64 = _
    bv_omega

/-- Of a container, the footer is checked and then read. -/
theorem parseFooter_container (h : file.IsContainer) {blobs : List UCPuffinBlob} :
    (parseFooter file.size path).given (file.answer C parse path) = .ok blobs ↔
      file.FooterValid ∧
      (parseFileMetadata path (BitVec.ofNat 64 file.payloadStart) (BitVec.ofNat 64 file.payloadSize)
        (BitVec.ofNat 64 (file.payloadStart - 4))).given (file.answer C parse path) =
          .ok blobs := by
  rw [parseFooter]
  simp only [Prog.bind_eq, Prog.given_bind, given_isContainer, decide_eq_true h, Except.bind,
    if_true]
  cases hfooter : (validateFooter file.size path).given (file.answer C parse path) with
  | error e =>
    refine iff_of_false (fun h => by cases h) fun hvalid => ?_
    have hok : (validateFooter file.size path).given (file.answer C parse path) =
      .ok (BitVec.ofNat 64 file.payloadStart) := (validateFooter_eq_ok h.1).2 ⟨hvalid.1, rfl⟩
    cases hfooter.symm.trans hok
  | ok payload_start =>
    obtain ⟨hvalid, rfl⟩ := (validateFooter_eq_ok h.1).1 hfooter
    obtain ⟨hsize, hend⟩ := file.footer_differences hvalid
    simp only [given_minus, hsize, hend]
    exact (and_iff_right hvalid).symm

/-- Another file is one blob, where it is anything. -/
theorem parseFooter_bare (h : ¬ file.IsContainer) {blobs : List UCPuffinBlob} :
    (parseFooter file.size path).given (file.answer C parse path) = .ok blobs ↔
      8 ≤ file.bytes.length ∧ file.slice 4 4 = DELETION_VECTOR_MAGIC ∧
        blobs = [⟨0, file.size⟩] := by
  have hsize : file.size < 4 + 4 ↔ file.bytes.length < 8 := by
    rw [BitVec.lt_def, file.toNat_size]
    rfl
  rw [parseFooter, isBareDeletionVector]
  simp only [Prog.bind_eq, Prog.pure_eq, Prog.given_bind, given_isContainer, decide_eq_false h,
    Except.bind, hsize]
  rw [if_neg (by decide)]
  split
  · rename_i hsmall
    refine iff_of_false (fun h => by cases h) ?_
    omega
  · rename_i hlarge
    have hfour : (BitVec.toNat (4 : BitVec 64)) = 4 := rfl
    simp only [Prog.given_bind, given_bytesAt, Except.bind, Prog.given_ret, hfour]
    by_cases hmagic : file.slice 4 4 = DELETION_VECTOR_MAGIC
    · rw [if_pos (decide_eq_true hmagic)]
      constructor
      · intro h
        exact ⟨not_lt.1 hlarge, hmagic, (Except.ok.inj h).symm⟩
      · rintro ⟨-, -, rfl⟩
        rfl
    · rw [if_neg (by simpa using hmagic)]
      exact iff_of_false (fun h => by cases h) fun h => hmagic h.2.1

/-- What the reader lists of a file, by the file's own numbers. -/
theorem parseFooter_bounds {blobs : List UCPuffinBlob}
    (h : (parseFooter file.size path).given (file.answer C parse path) = .ok blobs) :
    (file.IsContainer → file.FooterValid ∧ 8 ≤ file.payloadStart ∧
      file.payloadStart + file.payloadSize + 12 = file.bytes.length ∧
      ∀ b ∈ blobs, 4 ≤ b.offset.toNat ∧ b.offset.toNat + b.length.toNat ≤ file.payloadStart - 4) ∧
    (¬ file.IsContainer → blobs = [⟨0, file.size⟩]) := by
  refine ⟨fun hcontainer => ?_, fun hbare => ((parseFooter_bare hbare).1 h).2.2⟩
  obtain ⟨hvalid, hmetadata⟩ := (parseFooter_container hcontainer).1 h
  have hlt := file.size_lt
  have hfits := hvalid.payload_fits
  have hstart : file.payloadStart = file.bytes.length - 12 - file.payloadSize := rfl
  refine ⟨hvalid, by omega, by omega, fun b hb => ?_⟩
  obtain ⟨h4, hend⟩ := (returns_parseFileMetadata _ _).given hmetadata b hb
  rw [BitVec.toNat_ofNat, Nat.mod_eq_of_lt (by omega)] at hend
  exact ⟨h4, hend⟩

end

/-! ## `uc_read_deletion_vector` -/

/-- `ReadDVBindData` -/
structure ReadDVBindData where
  path : String
  offset : ℤ := 0
  size : ℤ := -1
  whole_file : Bool := true

/-- `ReadDVGlobalState` -/
structure ReadDVGlobalState where
  positions : List ℤ
  cursor : ℕ := 0

/-- `ReadDVBind`, of the path and the two named parameters -/
def readDVBind (path : String) (content_offset content_size : Option ℤ) :
    Except Exception ReadDVBindData :=
  match content_offset, content_size with
  | none, none => return { path }
  | some offset, some size =>
    if offset < 0 ∨ size < 0 then
      throw
        (invalidInputException ("uc_read_deletion_vector: 'content_offset' and 'content_size' " ++
        "must be non-negative"))
    else return { path, offset, size, whole_file := false }
  | _, _ =>
    throw
      (invalidInputException
      ("uc_read_deletion_vector: 'content_offset' and 'content_size' must " ++
      "be given together (or neither, to read the whole file)"))

/-- The positions `ReadDVInit` collects; `read` is the file's `Read` of so many bytes at an
offset. -/
def readDVPositions (C : CRoaring) (parse : Bytes → Option Val)
    (read : ℕ → ℕ → Except Exception Bytes)
    (bind : ReadDVBindData) (file : PuffinFile) : Except Exception (Finset (BitVec 64)) :=
  if bind.whole_file then (readWholeFile file.size bind.path).given (file.answer C parse bind.path)
  else do
    let buffer ← read bind.size.toNat bind.offset.toNat
    let dv ← UCDeletionVectorData.fromBlob C buffer bind.path
    return dv.toSet

/-- `ReadDVInit` -/
def readDVInit (C : CRoaring) (parse : Bytes → Option Val) (read : ℕ → ℕ → Except Exception Bytes)
    (bind : ReadDVBindData) (file : PuffinFile) : Except Exception ReadDVGlobalState := do
  let positions ← readDVPositions C parse read bind file
  let positions ← castPositions positions
  return { positions }

/-- `ReadDVFunction`: the next rows. -/
def readDVFunction (STANDARD_VECTOR_SIZE : ℕ) (state : ReadDVGlobalState) :
    List ℤ × ReadDVGlobalState :=
  let out := (state.positions.drop state.cursor).take STANDARD_VECTOR_SIZE
  (out, { state with cursor := state.cursor + out.length })

/-- The rows of so many calls. -/
def readDVRows (STANDARD_VECTOR_SIZE : ℕ) : ℕ → ReadDVGlobalState → List ℤ
  | 0, _ => []
  | calls + 1, state =>
    let r := readDVFunction STANDARD_VECTOR_SIZE state
    r.1 ++ readDVRows STANDARD_VECTOR_SIZE calls r.2

/-- The calls return the positions one after another, each once. -/
theorem readDVRows_eq (STANDARD_VECTOR_SIZE calls : ℕ) (state : ReadDVGlobalState) :
    readDVRows STANDARD_VECTOR_SIZE calls state =
      (state.positions.drop state.cursor).take (calls * STANDARD_VECTOR_SIZE) := by
  induction calls generalizing state with
  | zero => rw [Nat.zero_mul, List.take_zero, readDVRows]
  | succ calls ih =>
    simp only [readDVRows, ih, readDVFunction]
    rw [← List.drop_drop, Nat.succ_mul, Nat.add_comm, List.take_add, List.length_take]
    congr 2
    obtain hle | hgt := le_total STANDARD_VECTOR_SIZE (state.positions.drop state.cursor).length
    · rw [Nat.min_eq_left hle]
    · rw [Nat.min_eq_right hgt, List.drop_of_length_le hgt, List.drop_of_length_le le_rfl]

/-! ## Containers -/

/-- A blob of a container: positions, or something of another type. -/
inductive ContainerBlob where
  | deletionVector (P : Finset ℕ)
  | other (type : {t : String // t ≠ DELETION_VECTOR_BLOB_TYPE}) (bytes : Bytes)

namespace ContainerBlob

/-- Its type, in the footer. -/
def type : ContainerBlob → String
  | deletionVector _ => DELETION_VECTOR_BLOB_TYPE
  | other type _ => type.val

/-- Its bytes. -/
def bytes (portable_serialize : Roaring → Bytes) : ContainerBlob → Bytes
  | deletionVector P => deletionVectorV1 portable_serialize P
  | other _ bytes => bytes

/-- The positions of a deletion vector. -/
def positions : ContainerBlob → Option (Finset ℕ)
  | deletionVector P => some P
  | other _ _ => none

end ContainerBlob

/-- What the footer says of a blob: its type, and where it is in the part of the file in front of
the footer. -/
structure Describes (portable_serialize : Roaring → Bytes) (front : Bytes) (blob_val : Val)
    (blob : ContainerBlob) : Prop where
  type : objGet (some blob_val) "type" = some (.str blob.type)
  place : ∃ offset length : Fin (2 ^ 64),
    objGet (some blob_val) "offset" = some (.num (.uint offset)) ∧
    objGet (some blob_val) "length" = some (.num (.uint length)) ∧
    4 ≤ offset.val ∧ offset.val + length.val ≤ front.length ∧
    (front.drop offset.val).take length.val = blob.bytes portable_serialize

/-- A container with an uncompressed footer. -/
structure Container (parse : Bytes → Option Val) (portable_serialize : Roaring → Bytes) where
  /-- the bytes between the leading magic and the footer -/
  blob_section : Bytes
  payload : Bytes
  root : Val
  blob_vals : List Val
  blobs : List ContainerBlob
  parses : parse payload = some root
  lists : objGet (some root) "blobs" = some (.arr blob_vals)
  describes :
    List.Forall₂ (Describes portable_serialize (PUFFIN_MAGIC ++ blob_section)) blob_vals blobs
  /-- the footer has four bytes for the size of its payload -/
  payload_lt : payload.length < 2 ^ 32
  size_lt : blob_section.length + payload.length + 20 < 2 ^ 63
  /-- a position is an `int64_t`, and a deletion vector has four bytes for its length -/
  encodable : ∀ P, .deletionVector P ∈ blobs →
    (∀ p ∈ P, p < 2 ^ 63) ∧ (deletionVectorBody portable_serialize P).length < 2 ^ 32

namespace Container

variable {parse : Bytes → Option Val} {portable_serialize : Roaring → Bytes}

/-- Magic, blobs, and the footer: magic, payload, its size, flags and magic. -/
def file (c : Container parse portable_serialize) : PuffinFile where
  bytes := PUFFIN_MAGIC ++ c.blob_section ++ (PUFFIN_MAGIC ++ (c.payload ++
    (leBytes 4 c.payload.length ++ (leBytes 4 0 ++ PUFFIN_MAGIC))))
  size_lt := by
    have := c.size_lt
    simp [PUFFIN_MAGIC]
    omega

section

variable {c : Container parse portable_serialize}

theorem length_file : c.file.bytes.length = c.blob_section.length + c.payload.length + 20 := by
  simp [file, PUFFIN_MAGIC]
  omega

/-- A part of the container, by where it is. -/
theorem slice_file (before part after : Bytes) {offset n : ℕ}
    (h : c.file.bytes = before ++ (part ++ after)) (hoffset : offset = before.length)
    (hn : n = part.length) : c.file.slice offset n = part := by
  rw [PuffinFile.slice, h, hoffset, hn, List.drop_left, List.take_left]

theorem isContainer_file : c.file.IsContainer := by
  refine ⟨length_file (c := c) ▸ Nat.le_add_left _ _, ?_⟩
  apply slice_file [] PUFFIN_MAGIC (c.blob_section ++ (PUFFIN_MAGIC ++ (c.payload ++
    (leBytes 4 c.payload.length ++ (leBytes 4 0 ++ PUFFIN_MAGIC)))))
  · simp [file]
  · rfl
  · rfl

/-- The tail tells the size of the payload. -/
theorem payloadSize_file : c.file.payloadSize = c.payload.length := by
  have hslice : c.file.slice (c.file.bytes.length - 12) 4 = leBytes 4 c.payload.length := by
    apply slice_file (PUFFIN_MAGIC ++ c.blob_section ++ (PUFFIN_MAGIC ++ c.payload)) _
      (leBytes 4 0 ++ PUFFIN_MAGIC)
    · simp [file]
    · rw [length_file]
      simp [PUFFIN_MAGIC]
      omega
    · rw [length_leBytes]
  rw [PuffinFile.payloadSize, hslice, loadLE_leBytes_of_lt c.payload_lt]

theorem payloadStart_file : c.file.payloadStart = c.blob_section.length + 8 := by
  rw [PuffinFile.payloadStart, payloadSize_file, length_file]
  omega

/-- Its footer is valid. -/
theorem footerValid_file : c.file.FooterValid where
  trailing_magic := by
    apply slice_file (PUFFIN_MAGIC ++ c.blob_section ++ (PUFFIN_MAGIC ++ (c.payload ++
      (leBytes 4 c.payload.length ++ leBytes 4 0)))) _ []
    · simp [file]
    · rw [length_file]
      simp [PUFFIN_MAGIC]
      omega
    · rfl
  flags := by
    have hslice : c.file.slice (c.file.bytes.length - 8) 4 = leBytes 4 0 := by
      apply slice_file (PUFFIN_MAGIC ++ c.blob_section ++ (PUFFIN_MAGIC ++ (c.payload ++
        leBytes 4 c.payload.length))) _ PUFFIN_MAGIC
      · simp [file]
      · rw [length_file]
        simp [PUFFIN_MAGIC]
        omega
      · rfl
    rw [hslice]
    rfl
  payload_fits := by
    rw [payloadSize_file, length_file]
    omega
  footer_magic := by
    apply slice_file (PUFFIN_MAGIC ++ c.blob_section) _ (c.payload ++
      (leBytes 4 c.payload.length ++ (leBytes 4 0 ++ PUFFIN_MAGIC)))
    · rfl
    · rw [payloadStart_file]
      simp [PUFFIN_MAGIC]
    · rfl

theorem slice_payload : c.file.slice c.file.payloadStart c.file.payloadSize = c.payload := by
  apply slice_file (PUFFIN_MAGIC ++ c.blob_section ++ PUFFIN_MAGIC) _
    (leBytes 4 c.payload.length ++ (leBytes 4 0 ++ PUFFIN_MAGIC))
  · simp [file]
  · rw [payloadStart_file]
    simp [PUFFIN_MAGIC]
  · exact payloadSize_file

/-- What lies in front of the footer lies in the file. -/
theorem slice_front {offset n : ℕ} (h : offset + n ≤ (PUFFIN_MAGIC ++ c.blob_section).length) :
    c.file.slice offset n = ((PUFFIN_MAGIC ++ c.blob_section).drop offset).take n := by
  rw [PuffinFile.slice, file, List.drop_append_of_le_length (by omega),
    List.take_append_of_le_length (by rw [List.length_drop]; omega)]

end

section

variable {c : Container parse portable_serialize} {C : CRoaring} {path : String}

/-- A described blob is listed, by the bytes it has, where it is a deletion vector. -/
theorem given_tryParseBlobMetadata {blob_val : Val} {blob : ContainerBlob}
    (h : Describes portable_serialize (PUFFIN_MAGIC ++ c.blob_section) blob_val blob) :
    ∃ r, (tryParseBlobMetadata path blob_val (BitVec.ofNat 64 (c.file.payloadStart - 4))).given
        (c.file.answer C parse path) = .ok r ∧
      r.map (fun b => c.file.slice b.offset.toNat b.length.toNat) =
        blob.positions.map (deletionVectorV1 portable_serialize) := by
  rw [tryParseBlobMetadata, h.type]
  cases blob with
  | other type bytes =>
    simp only [ContainerBlob.type]
    rw [if_pos type.property]
    exact ⟨none, rfl, rfl⟩
  | deletionVector P =>
    obtain ⟨offset, length, hoffset, hlength, h4, hend, hbytes⟩ := h.place
    have hfront : (PUFFIN_MAGIC ++ c.blob_section).length = c.blob_section.length + 4 := by
      simp [PUFFIN_MAGIC]
    have hsize := c.size_lt
    have hstart := payloadStart_file (c := c)
    -- both numbers are below 2^63, so that they are read as they are
    have hraw : ∀ n : Fin (2 ^ 64), n.val < 2 ^ 63 → getSint (some (.num (.uint n))) = n.val :=
      fun n hn => if_pos hn
    have hword : ∀ n : ℕ, n < 2 ^ 63 → (BitVec.ofInt 64 (n : ℤ)).toNat = n := by
      intro n hn
      rw [BitVec.ofInt_natCast, BitVec.toNat_ofNat, Nat.mod_eq_of_lt (by omega)]
    simp only [ContainerBlob.type, hoffset, hlength, hraw offset (by omega), hraw length (by omega)]
    rw [if_neg (by simp), if_neg (by simp [isInt]), if_neg (by omega)]
    have ho := hword offset.val (by omega)
    have hl := hword length.val (by omega)
    generalize BitVec.ofInt 64 (offset.val : ℤ) = o at ho ⊢
    generalize BitVec.ofInt 64 (length.val : ℤ) = l at hl ⊢
    have hsection : (BitVec.ofNat 64 (c.file.payloadStart - 4)).toNat =
        c.blob_section.length + 4 := by
      rw [BitVec.toNat_ofNat, hstart]
      omega
    generalize BitVec.ofNat 64 (c.file.payloadStart - 4) = blob_section_end at hsection ⊢
    have hin : ¬ (o < PUFFIN_MAGIC_SIZE ∨ l > blob_section_end) := by
      have hmagic : PUFFIN_MAGIC_SIZE.toNat = 4 := rfl
      rw [gt_iff_lt, BitVec.lt_def, BitVec.lt_def]
      omega
    have hlimit : ¬ o > blob_section_end - l := by bv_omega
    rw [if_neg hin]
    simp only [Prog.bind_eq, Prog.pure_eq, Prog.given_bind, given_minus, Except.bind]
    rw [if_neg hlimit]
    refine ⟨_, rfl, ?_⟩
    simp only [Option.map_some, ContainerBlob.positions, ho, hl]
    rw [slice_front hend, hbytes]
    rfl

/-- The reader lists the deletion vectors of a container, in the order of the footer. -/
theorem given_parseBlobs {blob_vals : List Val} {blobs : List ContainerBlob}
    (h : List.Forall₂ (Describes portable_serialize (PUFFIN_MAGIC ++ c.blob_section)) blob_vals
      blobs) :
    ∃ bs, (parseBlobs path (BitVec.ofNat 64 (c.file.payloadStart - 4)) blob_vals).given
        (c.file.answer C parse path) = .ok bs ∧
      bs.map (fun b => c.file.slice b.offset.toNat b.length.toNat) =
        (blobs.filterMap ContainerBlob.positions).map (deletionVectorV1 portable_serialize) := by
  induction h with
  | nil => exact ⟨[], rfl, rfl⟩
  | @cons blob_val blob blob_vals blobs hblob hrest ih =>
    obtain ⟨r, hr, hslice⟩ := given_tryParseBlobMetadata (C := C) hblob
    obtain ⟨bs, hbs, hslices⟩ := ih
    refine ⟨r.toList ++ bs, ?_, ?_⟩
    · rw [parseBlobs, Prog.bind_eq, Prog.given_bind, hr]
      simp only [Except.bind, Prog.bind_eq, Prog.given_bind, hbs]
      rfl
    · rw [List.map_append, hslices]
      cases blob with
      | other type bytes =>
        obtain rfl := Option.map_eq_none_iff.1 hslice
        rfl
      | deletionVector P =>
        obtain ⟨b, rfl, hb⟩ := Option.map_eq_some_iff.1 hslice
        exact congrArg (· :: _) hb

/-- Decoding what is listed adds its positions. -/
theorem given_decodeBlobs (hC : C.Inverts portable_serialize) {Ps : List (Finset ℕ)}
    (hPs : ∀ P ∈ Ps, (∀ p ∈ P, p < 2 ^ 63) ∧
      (deletionVectorBody portable_serialize P).length < 2 ^ 32)
    {file : PuffinFile} {bs : List UCPuffinBlob}
    (h : bs.map (fun b => file.slice b.offset.toNat b.length.toNat) =
      Ps.map (deletionVectorV1 portable_serialize)) (positions : Finset (BitVec 64)) :
    ∃ out, (bs.foldlM (fun positions blob => do
        let dv ← decodeBlob blob
        return positions ∪ dv.toSet) positions).given (file.answer C parse path) = .ok out ∧
      ∀ p : ℕ, (∃ pos ∈ out, pos.toNat = p) ↔ (∃ pos ∈ positions, pos.toNat = p) ∨ ∃ P ∈ Ps,
        p ∈ P := by
  induction bs generalizing Ps positions with
  | nil =>
    obtain rfl := List.map_eq_nil_iff.1 h.symm
    exact ⟨positions, rfl, by simp⟩
  | cons b bs ih =>
    cases Ps with
    | nil => cases h
    | cons P Ps =>
      obtain ⟨hhead, hrest⟩ := List.cons.inj h
      have hb : file.slice b.offset.toNat b.length.toNat = deletionVectorV1 portable_serialize P :=
        hhead
      obtain ⟨⟨hP, hlen⟩, hPs⟩ := List.forall_mem_cons.1 hPs
      obtain ⟨dv, hdv, hset⟩ := fromBlob_encoded hC hP hlen path
      obtain ⟨out, hout, hmem⟩ := ih hPs hrest (positions ∪ dv.toSet)
      refine ⟨out, ?_, fun p => ?_⟩
      · rw [List.foldlM_cons, Prog.bind_eq, Prog.given_bind, Prog.bind_eq, Prog.given_bind,
          decodeBlob, given_fromBlobAt, hb, hdv]
        exact hout
      · rw [hmem]
        have hp : (∃ pos ∈ dv.toSet, pos.toNat = p) ↔ p ∈ P := by
          rw [← hset, Finset.mem_image]
        simp only [Finset.mem_union, or_and_right, exists_or, hp, List.mem_cons, exists_eq_left,
          or_assoc]

/-- The whole-file read of a container. -/
theorem given_readWholeFile (hC : C.Inverts portable_serialize) :
    ∃ out, (readWholeFile c.file.size path).given (c.file.answer C parse path) = .ok out ∧
      ∀ p : ℕ, (∃ pos ∈ out, pos.toNat = p) ↔ ∃ P, .deletionVector P ∈ c.blobs ∧ p ∈ P := by
  obtain ⟨bs, hbs, hslices⟩ := given_parseBlobs (C := C) c.describes
  have hlt := c.size_lt
  have hmetadata : (parseFileMetadata path (BitVec.ofNat 64 c.file.payloadStart)
      (BitVec.ofNat 64 c.file.payloadSize) (BitVec.ofNat 64 (c.file.payloadStart - 4))).given
        (c.file.answer C parse path) = .ok bs := by
    have hstart : (BitVec.ofNat 64 c.file.payloadStart).toNat = c.file.payloadStart := by
      rw [payloadStart_file, BitVec.toNat_ofNat]
      omega
    have hsize : (BitVec.ofNat 64 c.file.payloadSize).toNat = c.file.payloadSize := by
      rw [payloadSize_file, BitVec.toNat_ofNat]
      omega
    rw [parseFileMetadata, Prog.bind_eq, Prog.given_bind, given_yyjsonRead, hstart, hsize,
      slice_payload, c.parses]
    simp only [Except.bind, c.lists]
    exact hbs
  have hfooter :=
    (parseFooter_container (isContainer_file (c := c))).2 ⟨footerValid_file, hmetadata⟩
  have hmem : ∀ P, P ∈ c.blobs.filterMap ContainerBlob.positions ↔ .deletionVector P ∈ c.blobs := by
    intro P
    rw [List.mem_filterMap]
    constructor
    · rintro ⟨blob, hblob, hP⟩
      cases blob with
      | deletionVector Q =>
        obtain rfl := Option.some.inj hP
        exact hblob
      | other type bytes => cases hP
    · intro h
      exact ⟨_, h, rfl⟩
  obtain ⟨out, hout, hpositions⟩ := @given_decodeBlobs parse _ C path hC _
    (fun P hP => c.encodable P ((hmem P).1 hP)) _ _ hslices ∅
  refine ⟨out, ?_, fun p => ?_⟩
  · rw [readWholeFile, Prog.bind_eq, Prog.given_bind, hfooter]
    exact hout
  · rw [hpositions]
    simp [hmem]

/-- The rows of a container: the positions of its deletion vectors, each once, in ascending
order. -/
theorem readDVInit_container (hC : C.Inverts portable_serialize)
    (read : ℕ → ℕ → Except Exception Bytes) :
    ∃ bind state, readDVBind path none none = .ok bind ∧
      readDVInit C parse read bind c.file = .ok state ∧
      state.positions.Pairwise (· < ·) ∧
      (∀ pos : ℤ, pos ∈ state.positions ↔ ∃ P, .deletionVector P ∈ c.blobs ∧ ∃ p ∈ P,
        pos = (p : ℕ)) ∧
      ∀ STANDARD_VECTOR_SIZE calls, readDVRows STANDARD_VECTOR_SIZE calls state =
        state.positions.take (calls * STANDARD_VECTOR_SIZE) := by
  obtain ⟨out, hout, hmem⟩ := @given_readWholeFile parse portable_serialize c C path hC
  have hlt : ∀ pos ∈ out, pos.toNat < 2 ^ 63 := by
    intro pos hpos
    obtain ⟨P, hP, hp⟩ := (hmem pos.toNat).1 ⟨pos, hpos, rfl⟩
    exact (c.encodable P hP).1 _ hp
  have hcast : castPositions out = .ok ((out.sort (· ≤ ·)).map fun pos => (pos.toNat : ℤ)) :=
    castPositions_eq_ok.2 ⟨hlt, rfl⟩
  have hinit : readDVInit C parse read { path } c.file =
      .ok { positions := (out.sort (· ≤ ·)).map fun pos => (pos.toNat : ℤ) } :=
    except_bind_eq_ok.2 ⟨out, hout, except_bind_eq_ok.2 ⟨_, hcast, rfl⟩⟩
  refine ⟨{ path }, _, rfl, hinit, ?_, fun pos => ?_, fun n calls => readDVRows_eq n calls _⟩
  · rw [List.pairwise_map]
    apply ((Finset.pairwise_sort out (· ≤ ·)).and (Finset.sort_nodup out (· ≤ ·))).imp
    rintro a b ⟨hle, hne⟩
    have hnat : a.toNat ≠ b.toNat := fun h => hne (BitVec.eq_of_toNat_eq h)
    exact Int.ofNat_lt.2 (lt_of_le_of_ne (BitVec.le_def.1 hle) hnat)
  · simp only [List.mem_map, Finset.mem_sort]
    constructor
    · rintro ⟨w, hw, rfl⟩
      obtain ⟨P, hP, hp⟩ := (hmem w.toNat).1 ⟨w, hw, rfl⟩
      exact ⟨P, hP, w.toNat, hp, rfl⟩
    · rintro ⟨P, hP, p, hp, rfl⟩
      obtain ⟨w, hw, rfl⟩ := (hmem p).2 ⟨P, hP, hp⟩
      exact ⟨w, hw, rfl⟩

end

end Container

/-- **Puffin files are read within bounds and completely**: of a file of any size and content, every
read is inside of it and no difference of sizes wraps; what is listed lies between the leading magic
and the footer, or is the whole file; and of a container, the rows are the positions of its deletion
vectors. -/
theorem puffin_is_read_within_bounds (C : CRoaring) (parse : Bytes → Option Val)
    {portable_serialize : Roaring → Bytes} (hC : C.Inverts portable_serialize) (path : String) :
    (∀ size, (readWholeFile size path).Uses (PuffinOp.Within size)) ∧
    (∀ (file : PuffinFile) (blobs : List UCPuffinBlob),
      (parseFooter file.size path).given (file.answer C parse path) = .ok blobs →
        (file.IsContainer → file.FooterValid ∧ 8 ≤ file.payloadStart ∧
          file.payloadStart + file.payloadSize + 12 = file.bytes.length ∧
          ∀ b ∈ blobs, 4 ≤ b.offset.toNat ∧
            b.offset.toNat + b.length.toNat ≤ file.payloadStart - 4) ∧
        (¬ file.IsContainer → blobs = [⟨0, file.size⟩])) ∧
    ∀ (c : Container parse portable_serialize) (read : ℕ → ℕ → Except Exception Bytes),
      ∃ bind state, readDVBind path none none = .ok bind ∧
        readDVInit C parse read bind c.file = .ok state ∧
        state.positions.Pairwise (· < ·) ∧
        (∀ pos : ℤ, pos ∈ state.positions ↔
          ∃ P, .deletionVector P ∈ c.blobs ∧ ∃ p ∈ P, pos = (p : ℕ)) ∧
        ∀ STANDARD_VECTOR_SIZE calls, readDVRows STANDARD_VECTOR_SIZE calls state =
          state.positions.take (calls * STANDARD_VECTOR_SIZE) :=
  ⟨fun _ => uses_readWholeFile, fun _ _ => parseFooter_bounds,
    fun _ read => Container.readDVInit_container hC read⟩

/-- The footer of a container of a sketch and of the deletion vector of one position. -/
def sketchedFooter : Bytes :=
  ("\x7b\"blobs\":[\x7b\"type\":\"theta\",\"offset\":4,\"length\":2\x7d," ++
    "\x7b\"type\":\"deletion-vector-v1\",\"offset\":6,\"length\":42\x7d]\x7d").toList.map
      fun c => UInt8.ofNat c.toNat

/-- The JSON it is. -/
def sketchedRoot : Val :=
  .obj [("blobs", .arr [
    .obj [("type", .str "theta"), ("offset", .num (.uint 4)), ("length", .num (.uint 2))],
    .obj [("type", .str "deletion-vector-v1"), ("offset", .num (.uint 6)),
      ("length", .num (.uint 42))]])]

/-- The parser, on that footer. -/
def parseSketched (bytes : Bytes) : Option Val :=
  if bytes = sketchedFooter then some sketchedRoot else none

/-- The container. -/
def sketched : Container parseSketched portableRoaring where
  blob_section := [1, 2] ++ deletionVectorV1 portableRoaring {5}
  payload := sketchedFooter
  root := sketchedRoot
  blob_vals := _
  blobs := [.other ⟨"theta", by decide⟩ [1, 2], .deletionVector {5}]
  parses := if_pos rfl
  lists := rfl
  describes := by
    have hbody : (deletionVectorBody portableRoaring {5}).length = 34 := by decide +kernel
    have hlength : (deletionVectorV1 portableRoaring {5}).length = 42 := by
      rw [deletionVectorV1, List.length_append, List.length_append, hbody]
      simp
    refine .cons ⟨rfl, 4, 2, rfl, rfl,
      by decide, ?_, rfl⟩ (.cons ⟨rfl, 6, 42, rfl, rfl, by decide, ?_, ?_⟩ .nil)
    · simp [PUFFIN_MAGIC]
    · simp [PUFFIN_MAGIC, hlength]
    · exact List.take_of_length_le hlength.le
  payload_lt := by decide +kernel
  size_lt := by decide +kernel
  encodable := by
    intro P hP
    simp only [List.mem_cons, reduceCtorEq, ContainerBlob.deletionVector.injEq, List.not_mem_nil,
      or_false, false_or] at hP
    subst hP
    exact ⟨by decide, by decide +kernel⟩

/-- It is read as the one position. -/
theorem readDVInit_sketched :
    ∃ bind state, readDVBind "t.puffin" none none = .ok bind ∧
      readDVInit arrayRoaring parseSketched (fun _ _ => .ok []) bind sketched.file = .ok state ∧
      ∀ pos : ℤ, pos ∈ state.positions ↔
        ∃ P, .deletionVector P ∈ sketched.blobs ∧ ∃ p ∈ P, pos = (p : ℕ) := by
  obtain ⟨bind, state, hbind, hinit, hsorted, hmem, hrows⟩ :=
    (puffin_is_read_within_bounds arrayRoaring parseSketched arrayRoaring_inverts "t.puffin").2.2
      sketched fun _ _ => .ok []
  exact ⟨bind, state, hbind, hinit, hmem⟩

end UnityCatalog
