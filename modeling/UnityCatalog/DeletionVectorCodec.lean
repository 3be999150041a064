import UnityCatalog.Api
import UnityCatalog.DeletionVector

/-!
# Writing and reading deletion vectors

A `deletion-vector-v1` blob of a set of row positions, and that it is read as that set
(`fromBlob_deletionVectorV1`): every bitmap is found within what is left of the length, every key is
read back and widened, the checksum is CRC-32, and every position below 2^63 survives the cast that
`ScanDeletionVectorFile` makes.
-/

namespace UnityCatalog

open Words UCDeletionVectorData

variable {C : CRoaring} {path : String}

/-- `NumericCast<int64_t>` of an `idx_t`. -/
def numericCastInt64 (pos : BitVec 64) : Except Exception ℤ :=
  if pos.toNat < 2 ^ 63 then .ok pos.toNat
  else .error
    (internalException ("Information loss on integer cast: value " ++ toString pos.toNat ++
    " outside of target range [-9223372036854775808, 9223372036854775807]"))

/-- The positions in ascending order, each cast. -/
def castPositions (positions : Finset (BitVec 64)) : Except Exception (List ℤ) :=
  (positions.sort (· ≤ ·)).mapM numericCastInt64

/-- What `ScanDeletionVectorFile` makes of a blob it has read. -/
def decodeDeletionVector (C : CRoaring) (blob : Bytes) (file_path : String) :
    Except Exception (Finset ℤ) := do
  let dv ← UCDeletionVectorData.fromBlob C blob file_path
  let out ← castPositions dv.toSet
  return out.toFinset

/-! ## Encoding -/

/-- CRC-32, bit by bit. -/
def crc32 (data : Bytes) : ℕ :=
  (data.foldl (Crc.bitwise CRC32.polynomial) 0xFFFFFFFF ^^^ 0xFFFFFFFF).toNat

/-- The table computes it. -/
theorem CRC32.value_eq (data : Bytes) : CRC32.value data = crc32 data := by
  rw [CRC32.value, Crc.foldl_byTable, crc32]

/-- The low words of the positions with this high word. -/
def lowWords (P : Finset ℕ) (key : ℕ) : Roaring := (lows (2 ^ 32) P key).image (BitVec.ofNat 32)

section

variable (portable_serialize : Roaring → Bytes) (P : Finset ℕ)

/-- Magic, count, and for each key in ascending order the key and the bitmap of its low words. -/
def deletionVectorBody : Bytes :=
  DELETION_VECTOR_MAGIC ++ (leBytes 8 (highs (2 ^ 32) P).length ++
    (highs (2 ^ 32) P).flatMap fun key => leBytes 4 key ++ portable_serialize (lowWords P key))

/-- A `deletion-vector-v1` blob: the body between its length and its checksum. -/
def deletionVectorV1 : Bytes :=
  beBytes 4 (deletionVectorBody portable_serialize P).length ++
    (deletionVectorBody portable_serialize P ++
      beBytes 4 (crc32 (deletionVectorBody portable_serialize P)))

/-- Its entries. -/
def entriesOf : List StoredBitmap :=
  (highs (2 ^ 32) P).map fun key =>
    ⟨BitVec.ofNat 32 key, portable_serialize (lowWords P key), lowWords P key⟩

variable {portable_serialize P}

theorem key_lt (hP : ∀ p ∈ P, p < 2 ^ 63) {key : ℕ} (h : key ∈ highs (2 ^ 32) P) :
    key < 2 ^ 31 := by
  obtain ⟨p, hp, rfl⟩ := mem_highs.1 h
  have := hP p hp
  omega

theorem checksummed_entriesOf (hP : ∀ p ∈ P, p < 2 ^ 63) :
    checksummed (entriesOf portable_serialize P) = deletionVectorBody portable_serialize P := by
  rw [checksummed, deletionVectorBody, entriesOf, List.length_map, List.flatMap_map]
  congr 2
  apply List.flatMap_congr
  intro key hkey
  have hlt := key_lt hP hkey
  rw [StoredBitmap.stored, BitVec.toNat_ofNat, Nat.mod_eq_of_lt (by omega)]

theorem blobOf_entriesOf (hP : ∀ p ∈ P, p < 2 ^ 63) :
    blobOf (entriesOf portable_serialize P) = deletionVectorV1 portable_serialize P := by
  rw [blobOf, checksummed_entriesOf hP, CRC32.value_eq, deletionVectorV1]

/-- An entry's positions are those of the set with its high word. -/
theorem isStored_entriesOf (hP : ∀ p ∈ P, p < 2 ^ 63) {pos : BitVec 64} :
    IsStored (entriesOf portable_serialize P) pos ↔ pos.toNat ∈ P := by
  simp only [IsStored, entriesOf, List.mem_map, lowWords, exists_exists_and_eq_and,
    Finset.exists_mem_image, ← position_eq]
  rw [mem_iff_parts (B := 2 ^ 32) (by decide)]
  refine exists_congr fun key => and_congr_right fun hkey => exists_congr fun low =>
    and_congr_right fun hlow => ?_
  have hlt := key_lt hP hkey
  have hlow := ((mem_lows (B := 2 ^ 32) (by decide)).1 hlow).1
  have hnat := position_toNat (BitVec.ofNat 32 key) (BitVec.ofNat 32 low)
  rw [BitVec.toNat_ofNat, BitVec.toNat_ofNat, Nat.mod_eq_of_lt (by omega), Nat.mod_eq_of_lt hlow]
    at hnat
  rw [← hnat, BitVec.toNat_inj, eq_comm]

/-- Every key is written once. -/
theorem repeatsNothingNew_entriesOf (hP : ∀ p ∈ P, p < 2 ^ 63) :
    RepeatsNothingNew (entriesOf portable_serialize P) := by
  intro e he first hfirst
  obtain ⟨hmem, hkey⟩ := of_firstUnder hfirst
  obtain ⟨key, hk, rfl⟩ := List.mem_map.1 he
  obtain ⟨key', hk', rfl⟩ := List.mem_map.1 hmem
  have hlt := key_lt hP hk
  have hlt' := key_lt hP hk'
  have hnat := congrArg BitVec.toNat hkey
  simp only [BitVec.toNat_ofNat] at hnat
  have hsame : key' = key := by omega
  rw [hsame]

end

theorem numericCastInt64_eq_ok {pos : BitVec 64} {n : ℤ} :
    numericCastInt64 pos = .ok n ↔ pos.toNat < 2 ^ 63 ∧ n = pos.toNat := by
  rw [numericCastInt64]
  split
  · rename_i hlt
    rw [Except.ok.injEq, and_iff_right hlt, eq_comm]
  · rename_i hge
    exact iff_of_false (fun h => by cases h) fun h => hge h.1

/-- Every position of a list survives the cast, or none comes of it. -/
theorem mapM_numericCastInt64_eq_ok {ps : List (BitVec 64)} {out : List ℤ} :
    ps.mapM numericCastInt64 = .ok out ↔
      (∀ p ∈ ps, p.toNat < 2 ^ 63) ∧ out = ps.map fun p => (p.toNat : ℤ) := by
  induction ps generalizing out with
  | nil =>
    exact ⟨fun h => ⟨by simp, (Except.ok.inj h).symm⟩, fun h => congrArg Except.ok h.2.symm⟩
  | cons p ps ih =>
    simp only [List.mapM_cons, except_bind_eq_ok, numericCastInt64_eq_ok, ih, List.forall_mem_cons]
    constructor
    · rintro ⟨n, ⟨hp, rfl⟩, ns, ⟨hps, rfl⟩, hout⟩
      exact ⟨⟨hp, hps⟩, (Except.ok.inj hout).symm⟩
    · rintro ⟨⟨hp, hps⟩, rfl⟩
      exact ⟨_, ⟨hp, rfl⟩, _, ⟨hps, rfl⟩, rfl⟩

theorem castPositions_eq_ok {positions : Finset (BitVec 64)} {out : List ℤ} :
    castPositions positions = .ok out ↔ (∀ p ∈ positions, p.toNat < 2 ^ 63) ∧
      out = (positions.sort (· ≤ ·)).map fun p => (p.toNat : ℤ) := by
  simp only [castPositions, mapM_numericCastInt64_eq_ok, Finset.mem_sort]

/-- A blob that is read stands for its positions, where each survives the cast. -/
theorem decodeDeletionVector_eq_ok {blob : Bytes} {path : String} {P : Finset ℤ} :
    decodeDeletionVector C blob path = .ok P ↔
      ∃ dv, fromBlob C blob path = .ok dv ∧ (∀ p ∈ dv.toSet, p.toNat < 2 ^ 63) ∧
        ∀ pos : ℤ, pos ∈ P ↔ ∃ p ∈ dv.toSet, pos = p.toNat := by
  rw [decodeDeletionVector, except_bind_eq_ok]
  refine exists_congr fun dv => and_congr_right fun _ => ?_
  simp only [except_bind_eq_ok, castPositions_eq_ok]
  constructor
  · rintro ⟨out, ⟨hlt, rfl⟩, hP⟩
    obtain rfl := Except.ok.inj hP
    refine ⟨hlt, fun pos => ?_⟩
    simp [eq_comm]
  · rintro ⟨hlt, hP⟩
    refine ⟨_, ⟨hlt, rfl⟩, congrArg Except.ok (Finset.ext fun pos => ?_)⟩
    simp [hP, eq_comm]

/-- Positions below 2^63 survive the cast. -/
theorem decodeDeletionVector_of_fromBlob {blob : Bytes} {dv : UCDeletionVectorData} {P : Finset ℕ}
    (h : fromBlob C blob path = .ok dv) (hdv : dv.toSet.image BitVec.toNat = P)
    (hP : ∀ p ∈ P, p < 2 ^ 63) :
    decodeDeletionVector C blob path = .ok (P.image (Nat.cast : ℕ → ℤ)) := by
  refine decodeDeletionVector_eq_ok.2 ⟨dv, h, fun p hp => ?_, fun pos => ?_⟩
  · exact hP _ (hdv ▸ Finset.mem_image_of_mem _ hp)
  · simp [← hdv, eq_comm]

/-- The blob of a set is read, as that set. -/
theorem fromBlob_encoded {portable_serialize : Roaring → Bytes}
    (hC : C.Inverts portable_serialize) {P : Finset ℕ} (hP : ∀ p ∈ P, p < 2 ^ 63)
    (hlen : (deletionVectorBody portable_serialize P).length < 2 ^ 32) (path : String) :
    ∃ dv, fromBlob C (deletionVectorV1 portable_serialize P) path = .ok dv ∧
      dv.toSet.image BitVec.toNat = P := by
  have hreads : ∀ e ∈ entriesOf portable_serialize P, e.Reads C := by
    intro e he
    obtain ⟨key, -, rfl⟩ := List.mem_map.1 he
    exact ⟨hC.ne_nil _, hC.size _, hC.read _⟩
  have hok : fromBlob C (blobOf (entriesOf portable_serialize P)) path =
      .ok (mapOf (entriesOf portable_serialize P)) :=
    fromBlob_of_reads hreads (by rwa [checksummed_entriesOf hP]) path
  rw [blobOf_entriesOf hP] at hok
  refine ⟨_, hok, ?_⟩
  have hnothing : RepeatsNothingNew (entriesOf portable_serialize P) :=
    repeatsNothingNew_entriesOf hP
  have hmem := toSet_mapOf_iff.2 hnothing
  ext p
  rw [Finset.mem_image]
  constructor
  · rintro ⟨pos, hpos, rfl⟩
    exact (isStored_entriesOf hP).1 ((hmem pos).1 hpos)
  · intro hp
    have hnat : (BitVec.ofNat 64 p).toNat = p := by
      have := hP p hp
      rw [BitVec.toNat_ofNat]
      omega
    refine ⟨BitVec.ofNat 64 p, (hmem _).2 ((isStored_entriesOf hP).2 ?_), hnat⟩
    rwa [hnat]

/-- **Decoding undoes encoding.** -/
theorem fromBlob_deletionVectorV1 {portable_serialize : Roaring → Bytes}
    (hC : C.Inverts portable_serialize) {P : Finset ℕ} (hP : ∀ p ∈ P, p < 2 ^ 63)
    (hlen : (deletionVectorBody portable_serialize P).length < 2 ^ 32) (path : String) :
    ∃ dv, fromBlob C (deletionVectorV1 portable_serialize P) path = .ok dv ∧
      dv.toSet.image BitVec.toNat = P ∧
      decodeDeletionVector C (deletionVectorV1 portable_serialize P) path =
        .ok (P.image (Nat.cast : ℕ → ℤ)) := by
  obtain ⟨dv, hok, hset⟩ := fromBlob_encoded hC hP hlen path
  exact ⟨dv, hok, hset, decodeDeletionVector_of_fromBlob hok hset hP⟩

/-- Positions under two keys are read back. -/
theorem fromBlob_deletionVectorV1_twoWords :
    ∃ dv, fromBlob arrayRoaring (deletionVectorV1 portableRoaring {5, 2 ^ 32 + 7}) "t.dv" = .ok dv ∧
      dv.toSet.image BitVec.toNat = {5, 2 ^ 32 + 7} ∧
      decodeDeletionVector arrayRoaring (deletionVectorV1 portableRoaring {5, 2 ^ 32 + 7}) "t.dv" =
        .ok (Finset.image (Nat.cast : ℕ → ℤ) {5, 2 ^ 32 + 7}) := by
  have hkeys : highs (2 ^ 32) {5, 2 ^ 32 + 7} = [0, 1] := by
    have himage : Finset.image (· / 2 ^ 32) {5, 2 ^ 32 + 7} = [0, 1].toFinset := by decide
    rw [highs, himage, (List.toFinset_sort _ (by decide)).2 (by decide)]
  refine fromBlob_deletionVectorV1 arrayRoaring_inverts (by decide) ?_ "t.dv"
  rw [deletionVectorBody, hkeys]
  decide +kernel

end UnityCatalog
