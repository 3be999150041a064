import UnityCatalog.Crc
import UnityCatalog.Roaring

/-!
# Deletion vectors

`UCDeletionVectorData`: `FromBlob` reads a blob of bitmaps by the high half of their positions into
a hash map, `ToSet` lists the positions. `fromBlob_stores` says what an accepted blob is made of,
and `fromBlob_of_reads` which blobs made so are accepted. `toSet_eq_stored_iff`: the map keeps the
first bitmap of each key, so that the positions are those stored exactly if no later bitmap of a key
has more.
-/

namespace UnityCatalog

open Words

/-! ## The checksum -/

namespace CRC32

/-- The polynomial of `InitTable`. -/
def polynomial : BitVec 32 := 0xEDB88320

/-- `Update` of a fresh register, and `GetValue`. -/
def value (data : Bytes) : ℕ :=
  (data.foldl (Crc.byTable polynomial) 0xFFFFFFFF ^^^ 0xFFFFFFFF).toNat

end CRC32

/-! ## The map of bitmaps -/

/-- `UCDeletionVectorData`; no key is twice in the hash map. -/
structure UCDeletionVectorData where
  bitmaps : List (BitVec 32 × Roaring)
  keys_nodup : (bitmaps.map Prod.fst).Nodup

namespace UCDeletionVectorData

/-- No bitmaps. -/
def empty : UCDeletionVectorData := ⟨[], .nil⟩

/-- `bitmaps.emplace`: nothing happens if the key is there. -/
def emplace (dv : UCDeletionVectorData) (key : BitVec 32) (bitmap : Roaring) :
    UCDeletionVectorData :=
  if h : key ∈ dv.bitmaps.map Prod.fst then dv
  else ⟨(key, bitmap) :: dv.bitmaps, List.nodup_cons.2 ⟨h, dv.keys_nodup⟩⟩

/-- One position: `(ctx->high << 32) | value`, with the key widened as a signed number. -/
def position (key value : BitVec 32) : BitVec 64 := (key.signExtend 64 <<< 32) ||| value.setWidth 64

/-- `ToSet` -/
def toSet (dv : UCDeletionVectorData) : Finset (BitVec 64) :=
  dv.bitmaps.toFinset.biUnion fun entry => entry.2.image (position entry.1)

/-- `DELETION_VECTOR_MAGIC` -/
def DELETION_VECTOR_MAGIC : Bytes := [0xD1, 0xD3, 0x39, 0x64]

/-- An error of a blob's. -/
def blobException (path what : String) : Exception :=
  invalidInputException ("Deletion vector blob in \"" ++ path ++ "\" " ++ what)

/-- The loop of `FromBlob`, with so many bitmaps to go; `blob_start` is given by the bytes from
there to the end of the blob. -/
def readBitmaps (C : CRoaring) (path : String) :
    ℕ → BitVec 32 → Bytes → UCDeletionVectorData → Except Exception (Bytes × UCDeletionVectorData)
  | 0, _, blob_start, result => .ok (blob_start, result)
  | n + 1, vector_size, blob_start, result =>
    if blob_start.length < 4 then .error (blobException path "is corrupt (truncated bitmap key)")
    else
      let key := BitVec.ofNat 32 (loadLE (blob_start.take 4))
      let blob_start := blob_start.drop 4
      let vector_size := vector_size - 4
      let max_bytes := min vector_size.toNat blob_start.length
      let bitmap_size := C.portable_deserialize_size (blob_start.take max_bytes)
      if bitmap_size = 0 ∨ blob_start.length < bitmap_size then
        .error (blobException path "is corrupt (bad bitmap payload)")
      else
        match C.readSafe (blob_start.take bitmap_size) with
        | .error e => .error e
        | .ok bitmap =>
          readBitmaps C path n (vector_size - BitVec.ofNat 32 bitmap_size)
            (blob_start.drop bitmap_size)
            (result.emplace key bitmap)

/-- `FromBlob`; `reserve` only sizes the table. -/
def fromBlob (C : CRoaring) (blob : Bytes) (path : String) :
    Except Exception UCDeletionVectorData :=
  if blob.length < 20 then
    .error (blobException path ("is too small (" ++ toString blob.length ++ " bytes)"))
  else
    let vector_size := BitVec.ofNat 32 (loadBE (blob.take 4))
    let checksummed_data_start := blob.drop 4
    if checksummed_data_start.take 4 ≠ DELETION_VECTOR_MAGIC then
      .error (blobException path "has a magic mismatch")
    else
      let blob_start := checksummed_data_start.drop 4
      let vector_size := vector_size - 4
      if blob_start.length < 8 then
        .error (blobException path "is corrupt (truncated bitmap count)")
      else
        let amount_of_bitmaps := (BitVec.ofNat 64 (loadLE (blob_start.take 8))).toInt
        let vector_size := vector_size - 8
        if amount_of_bitmaps < 0 then .error (blobException path "is corrupt (bad bitmap count)")
        else
          match readBitmaps C path amount_of_bitmaps.toNat vector_size (blob_start.drop 8) empty
            with
          | .error e => .error e
          | .ok (blob_start, result) =>
            let checksummed_data_length := checksummed_data_start.length - blob_start.length
            if blob_start.length ≠ 4 then
              .error (blobException path "is corrupt (trailing bytes after checksum)")
            else if CRC32.value (checksummed_data_start.take checksummed_data_length) ≠
                loadBE blob_start then
              .error (blobException path "failed its checksum (corrupt or truncated)")
            else .ok result

end UCDeletionVectorData

/-! ## Positions -/

namespace UCDeletionVectorData

/-- Only the low half of a widened key is left when it is moved up. -/
theorem signExtend_shiftLeft (key : BitVec 32) :
    key.signExtend 64 <<< 32 = (key.setWidth 64 <<< 32 : BitVec 64) := by
  ext i hi
  by_cases h : i < 32
  · simp [h]
  · have hlt : i - 32 < 32 := by omega
    simp [h, hlt, BitVec.getElem_signExtend]

/-- The halves of a position do not meet. -/
theorem halves_disjoint (key value : BitVec 32) :
    (key.setWidth 64 <<< 32 : BitVec 64) &&& value.setWidth 64 = 0#64 := by
  ext i hi
  by_cases h : i < 32
  · simp [h]
  · have hhigh : value.getLsbD i = false := BitVec.getLsbD_of_ge _ _ (by omega)
    simp [hhigh]

/-- A position is the sum of its halves. -/
theorem position_eq (key value : BitVec 32) :
    position key value = key.signExtend 64 * (2 ^ 32 : BitVec 64) + value.setWidth 64 := by
  have hmul : key.signExtend 64 * (2 ^ 32 : BitVec 64) = key.signExtend 64 <<< 32 := by
    rw [BitVec.shiftLeft_eq_mul_twoPow]
    rfl
  rw [hmul, position, signExtend_shiftLeft,
    BitVec.add_eq_or_of_and_eq_zero _ _ (halves_disjoint _ _)]

theorem position_toNat (key value : BitVec 32) :
    (position key value).toNat = key.toNat * 2 ^ 32 + value.toNat := by
  have hk := key.isLt
  have hv := value.isLt
  rw [position, signExtend_shiftLeft, ← BitVec.add_eq_or_of_and_eq_zero _ _ (halves_disjoint _ _)]
  simp only [BitVec.toNat_add, BitVec.toNat_shiftLeft, BitVec.toNat_setWidth, Nat.shiftLeft_eq]
  omega

theorem position_inj {key key' value value' : BitVec 32} :
    position key value = position key' value' ↔ key = key' ∧ value = value' := by
  constructor
  · intro h
    have hnat := congrArg BitVec.toNat h
    rw [position_toNat, position_toNat] at hnat
    have hv := value.isLt
    have hv' := value'.isLt
    exact ⟨BitVec.eq_of_toNat_eq (by omega), BitVec.eq_of_toNat_eq (by omega)⟩
  · rintro ⟨rfl, rfl⟩
    rfl

/-! ## What a blob stores -/

end UCDeletionVectorData

open UCDeletionVectorData

/-- A bitmap as a blob stores it: its key, its bytes, and what they hold. -/
structure StoredBitmap where
  key : BitVec 32
  bytes : Bytes
  bitmap : Roaring

/-- The bytes of an entry. -/
def StoredBitmap.stored (e : StoredBitmap) : Bytes := leBytes 4 e.key.toNat ++ e.bytes

@[simp] theorem StoredBitmap.length_stored (e : StoredBitmap) :
    e.stored.length = 4 + e.bytes.length := by
  rw [stored, List.length_append, length_leBytes]

/-- CRoaring finds the bitmap in its bytes, whatever follows them. -/
structure StoredBitmap.Reads (C : CRoaring) (e : StoredBitmap) : Prop where
  ne_nil : e.bytes ≠ []
  size : ∀ rest, C.portable_deserialize_size (e.bytes ++ rest) = e.bytes.length
  read : C.readSafe e.bytes = .ok e.bitmap

/-- The part of a blob the checksum is of. -/
def checksummed (entries : List StoredBitmap) : Bytes :=
  DELETION_VECTOR_MAGIC ++ (leBytes 8 entries.length ++ entries.flatMap StoredBitmap.stored)

/-- The bitmaps a blob stores, one after the other, between its two words. -/
structure Stores (C : CRoaring) (blob : Bytes) (entries : List StoredBitmap) : Prop where
  layout : ∃ vector_size crc : Bytes, vector_size.length = 4 ∧ crc.length = 4 ∧
    blob = vector_size ++ (checksummed entries ++ crc)
  reads : ∀ e ∈ entries, e.Reads C

/-- The blob of some bitmaps, with its length and its checksum. -/
def blobOf (entries : List StoredBitmap) : Bytes :=
  beBytes 4 (checksummed entries).length ++ (checksummed entries ++
    beBytes 4 (CRC32.value (checksummed entries)))

/-- The map of so many entries. -/
def mapOf (entries : List StoredBitmap) : UCDeletionVectorData :=
  entries.foldl (fun dv e => dv.emplace e.key e.bitmap) empty

variable {C : CRoaring} {path : String}

theorem stores_blobOf {entries : List StoredBitmap} (h : ∀ e ∈ entries, e.Reads C) :
    Stores C (blobOf entries) entries :=
  ⟨⟨_, _, length_beBytes _ _, length_beBytes _ _, rfl⟩, h⟩

/-- An entry is found where it is stored. -/
theorem readBitmaps_cons {e : StoredBitmap} (he : e.Reads C) {n : ℕ} {vector_size : BitVec 32}
    {rest : Bytes} {dv : UCDeletionVectorData} (hsize : 4 + e.bytes.length ≤ vector_size.toNat) :
    readBitmaps C path (n + 1) vector_size (e.stored ++ rest) dv =
      readBitmaps C path n (vector_size - 4 - BitVec.ofNat 32 e.bytes.length) rest
        (dv.emplace e.key e.bitmap) := by
  have hkey : BitVec.ofNat 32 (loadLE (leBytes 4 e.key.toNat)) = e.key := by
    rw [loadLE_leBytes_of_lt e.key.isLt, BitVec.ofNat_toNat, BitVec.setWidth_eq]
  have hbudget : (vector_size - 4).toNat = vector_size.toNat - 4 := by
    rw [BitVec.toNat_sub_of_le]
    · rfl
    · rw [BitVec.le_def]
      change 4 ≤ vector_size.toNat
      omega
  have hlen : (e.stored ++ rest).length = 4 + e.bytes.length + rest.length := by
    rw [List.length_append, e.length_stored]
  have hfound : C.portable_deserialize_size ((e.bytes ++ rest).take
      (min (vector_size - 4).toNat (e.bytes ++ rest).length)) = e.bytes.length := by
    rw [List.take_append, List.take_of_length_le, he.size]
    rw [hbudget, List.length_append]
    omega
  have hpos : e.bytes.length ≠ 0 := fun h => he.ne_nil (List.length_eq_zero_iff.1 h)
  rw [readBitmaps, if_neg (by omega)]
  simp only [StoredBitmap.stored, List.append_assoc, take_leBytes, drop_leBytes, hkey, hfound]
  rw [if_neg (by simp [hpos]), List.take_left' rfl, List.drop_left' rfl, he.read]

/-- Entries that the budget has room for are all taken. -/
theorem readBitmaps_stored {entries : List StoredBitmap} (h : ∀ e ∈ entries, e.Reads C)
    {vector_size : BitVec 32} {rest : Bytes} {dv : UCDeletionVectorData}
    (hsize : (entries.flatMap StoredBitmap.stored).length ≤ vector_size.toNat) :
    readBitmaps C path entries.length vector_size (entries.flatMap StoredBitmap.stored ++ rest) dv =
      .ok (rest, entries.foldl (fun dv e => dv.emplace e.key e.bitmap) dv) := by
  induction entries generalizing vector_size dv with
  | nil => rfl
  | cons e entries ih =>
    obtain ⟨he, hentries⟩ := List.forall_mem_cons.1 h
    rw [List.flatMap_cons, List.length_append, e.length_stored] at hsize
    rw [List.length_cons, List.flatMap_cons, List.append_assoc, readBitmaps_cons he (by omega),
      List.foldl_cons]
    apply ih hentries
    -- what is left of the budget
    have h4 : (4 : BitVec 32).toNat = 4 := rfl
    have hlt := vector_size.isLt
    rw [BitVec.toNat_sub, BitVec.toNat_sub, BitVec.toNat_ofNat, h4]
    omega

/-- What the loop consumes is entries, as many as it was to read. -/
theorem readBitmaps_eq_ok (hC : C.Delimits) {n : ℕ} {vector_size : BitVec 32}
    {blob_start rest : Bytes} {dv dv' : UCDeletionVectorData}
    (h : readBitmaps C path n vector_size blob_start dv = .ok (rest, dv')) :
    ∃ entries : List StoredBitmap, entries.length = n ∧ (∀ e ∈ entries, e.Reads C) ∧
      blob_start = entries.flatMap StoredBitmap.stored ++ rest ∧
        dv' = entries.foldl (fun dv e => dv.emplace e.key e.bitmap) dv := by
  induction n generalizing vector_size blob_start dv with
  | zero =>
    obtain ⟨rfl, rfl⟩ := Prod.mk.inj (Except.ok.inj h)
    exact ⟨[], rfl, by simp, rfl, rfl⟩
  | succ n ih =>
    simp only [readBitmaps] at h
    split_ifs at h with h4 hbad
    set at_bitmap := blob_start.drop 4 with hat
    set max_bytes := min (vector_size - 4).toNat at_bitmap.length
    set bitmap_size := C.portable_deserialize_size (at_bitmap.take max_bytes) with hbs
    -- the size is known, and no larger than what is left
    obtain ⟨hne, hle⟩ := not_or.1 hbad
    cases hread : C.readSafe (at_bitmap.take bitmap_size) with
    | error e =>
      rw [hread] at h
      cases h
    | ok bitmap =>
      rw [hread] at h
      obtain ⟨entries, hlen, hreads, hrest, hdv⟩ := ih h
      -- the four bytes of the key are written back from its number
      have hkey : leBytes 4 (BitVec.ofNat 32 (loadLE (blob_start.take 4))).toNat =
          blob_start.take 4 := by
        have htake : (blob_start.take 4).length = 4 := by
          rw [List.length_take]
          omega
        have hback := leBytes_loadLE (blob_start.take 4)
        have hlt := loadLE_lt (blob_start.take 4)
        rw [htake] at hback hlt
        have hkey : loadLE (blob_start.take 4) < 2 ^ 32 := by omega
        rw [BitVec.toNat_ofNat, Nat.mod_eq_of_lt hkey, hback]
      have hsize : bitmap_size ≤ max_bytes := by
        have hoffered := hC.size_le (at_bitmap.take max_bytes)
        rw [List.length_take] at hoffered
        omega
      refine ⟨⟨BitVec.ofNat 32 (loadLE (blob_start.take 4)), at_bitmap.take bitmap_size,
        bitmap⟩ :: entries,
        by rw [List.length_cons, hlen], ?_, ?_, hdv⟩
      · refine List.forall_mem_cons.2 ⟨⟨?_, fun rest' => ?_, hread⟩, hreads⟩
        · intro hnil
          have := congrArg List.length hnil
          rw [List.length_take, List.length_nil] at this
          omega
        · -- the size was found in a longer buffer; the bitmap's own bytes decide it
          have htake := hC.size_take (at_bitmap.take max_bytes) rest' hne
          rw [← hbs, List.take_take, Nat.min_eq_left hsize] at htake
          rw [htake, List.length_take]
          omega
      · rw [List.flatMap_cons, StoredBitmap.stored, hkey, List.append_assoc, List.append_assoc,
          ← hrest, List.take_append_drop, hat, List.take_append_drop]

/-! ## Blobs that are accepted -/

/-- **What is laid out so is accepted**, and every entry is emplaced. -/
theorem fromBlob_of_reads {entries : List StoredBitmap} (h : ∀ e ∈ entries, e.Reads C)
    (hlen : (checksummed entries).length < 2 ^ 32) (path : String) :
    fromBlob C (blobOf entries) path = .ok (mapOf entries) := by
  have hbody : (checksummed entries).length =
      12 + (entries.flatMap StoredBitmap.stored).length := by
    simp only [checksummed, List.length_append, length_leBytes]
    rw [← Nat.add_assoc]
    rfl
  have hcount : entries.length ≤ (entries.flatMap StoredBitmap.stored).length := by
    clear h hlen hbody
    induction entries with
    | nil => simp
    | cons e entries ih =>
      rw [List.flatMap_cons, List.length_append, e.length_stored, List.length_cons]
      omega
  generalize hcrc : CRC32.value (checksummed entries) = crc
  have hcrc_lt : crc < 256 ^ 4 := by
    rw [← hcrc]
    exact BitVec.isLt _
  have hsize : (BitVec.ofNat 32 (loadBE (beBytes 4 (checksummed entries).length)) - 4 - 8 :
      BitVec 32).toNat = (checksummed entries).length - 12 := by
    have h4 : (4 : BitVec 32).toNat = 4 := rfl
    have h8 : (8 : BitVec 32).toNat = 8 := rfl
    rw [loadBE_beBytes_of_lt hlen, BitVec.toNat_sub, BitVec.toNat_sub, BitVec.toNat_ofNat, h4, h8]
    omega
  have hamount : (BitVec.ofNat 64 (loadLE (leBytes 8 entries.length))).toInt = entries.length := by
    have hlt : entries.length < 2 ^ 32 := by omega
    have hnat : (BitVec.ofNat 64 entries.length).toNat = entries.length := by
      rw [BitVec.toNat_ofNat]
      omega
    rw [loadLE_leBytes_of_lt (by omega), BitVec.toInt_eq_toNat_of_lt (by omega), hnat]
  have hhead : ((checksummed entries) ++ beBytes 4 crc).take 4 = DELETION_VECTOR_MAGIC := by
    rw [checksummed, List.append_assoc]
    exact List.take_left' rfl
  have htail : ((checksummed entries) ++ beBytes 4 crc).drop 4 =
      leBytes 8 entries.length ++ (entries.flatMap StoredBitmap.stored ++ beBytes 4 crc) := by
    rw [checksummed, List.append_assoc, List.append_assoc]
    exact List.drop_left' rfl
  rw [blobOf, hcrc, fromBlob, if_neg (by simp only [List.length_append, length_beBytes]; omega)]
  rw [List.take_left' (length_beBytes _ _), List.drop_left' (length_beBytes _ _)]
  simp only [hhead, htail, take_leBytes, drop_leBytes, hamount]
  rw [if_neg (by simp), if_neg (by simp), if_neg (by omega), Int.toNat_natCast,
    readBitmaps_stored h (by omega)]
  simp only [List.length_append, length_beBytes, Nat.add_sub_cancel]
  rw [if_neg (by simp), List.take_left' rfl, hcrc, loadBE_beBytes_of_lt hcrc_lt, if_neg (by simp)]
  rfl

/-- **An accepted blob stores bitmaps**, and all of them are emplaced. -/
theorem fromBlob_stores (hC : C.Delimits) {blob : Bytes} {dv : UCDeletionVectorData}
    (h : fromBlob C blob path = .ok dv) :
      ∃ entries, Stores C blob entries ∧ dv = mapOf entries := by
  simp only [fromBlob] at h
  split_ifs at h with h20 hmagic h8 hneg
  set amount := (BitVec.ofNat 64 (loadLE (((blob.drop 4).drop 4).take 8))).toInt with hamount
  cases hread : readBitmaps C path amount.toNat (BitVec.ofNat 32 (loadBE (blob.take 4)) - 4 - 8)
      (((blob.drop 4).drop 4).drop 8) empty with
  | error e =>
    rw [hread] at h
    cases h
  | ok r =>
    obtain ⟨rest, dv'⟩ := r
    rw [hread] at h
    simp only at h
    split_ifs at h with hrest hsum
    obtain rfl := Except.ok.inj h
    obtain ⟨entries, hlen, hreads, hbytes, hdv⟩ := readBitmaps_eq_ok hC hread
    refine ⟨entries, ⟨⟨blob.take 4, rest, ?_, not_not.1 hrest, ?_⟩, hreads⟩, hdv⟩
    · rw [List.length_take]
      omega
    · have hcount : leBytes 8 entries.length = ((blob.drop 4).drop 4).take 8 := by
        have htake : (((blob.drop 4).drop 4).take 8).length = 8 := by
          rw [List.length_take]
          omega
        have hback := leBytes_loadLE (((blob.drop 4).drop 4).take 8)
        have hlt := loadLE_lt (((blob.drop 4).drop 4).take 8)
        rw [htake] at hback hlt
        have hamount' : amount.toNat = loadLE (((blob.drop 4).drop 4).take 8) := by
          have hword : loadLE (((blob.drop 4).drop 4).take 8) < 2 ^ 64 := by omega
          rw [BitVec.toInt_eq_toNat_cond, BitVec.toNat_ofNat, Nat.mod_eq_of_lt hword] at hamount
          split_ifs at hamount <;> omega
        rw [hlen, hamount', hback]
      rw [checksummed, List.append_assoc, List.append_assoc, ← hbytes, hcount,
        List.take_append_drop, ← not_not.1 hmagic, List.take_append_drop, List.take_append_drop]

/-- A blob stores one list of bitmaps: each ends where it does, whatever follows. -/
theorem Stores.unique {blob : Bytes} {entries entries' : List StoredBitmap}
    (h : Stores C blob entries) (h' : Stores C blob entries') : entries = entries' := by
  obtain ⟨vs, crc, hvs, hcrc, hblob⟩ := h.layout
  obtain ⟨vs', crc', hvs', hcrc', hblob'⟩ := h'.layout
  -- the layout leaves the same bytes for the entries
  have hbytes : entries.flatMap StoredBitmap.stored = entries'.flatMap StoredBitmap.stored := by
    have hsame := (List.append_inj (hblob.symm.trans hblob') (hvs.trans hvs'.symm)).2
    have hsame := List.append_inj' hsame (hcrc.trans hcrc'.symm)
    simp only [checksummed] at hsame
    have hlist := (List.append_inj (List.append_cancel_left hsame.1) (by simp)).2
    exact hlist
  have hreads := h.reads
  have hreads' := h'.reads
  clear h h' hblob hblob'
  induction entries generalizing entries' with
  | nil =>
    cases entries' with
    | nil => rfl
    | cons e' entries' =>
      have hlen := congrArg List.length hbytes
      rw [List.flatMap_cons, List.length_append, e'.length_stored, List.flatMap_nil,
        List.length_nil] at hlen
      omega
  | cons e entries ih =>
    cases entries' with
    | nil =>
      have hlen := congrArg List.length hbytes
      rw [List.flatMap_cons, List.length_append, e.length_stored, List.flatMap_nil, List.length_nil]
        at hlen
      omega
    | cons e' entries' =>
      obtain ⟨he, hentries⟩ := List.forall_mem_cons.1 hreads
      obtain ⟨he', hentries'⟩ := List.forall_mem_cons.1 hreads'
      simp only [List.flatMap_cons, StoredBitmap.stored, List.append_assoc] at hbytes
      obtain ⟨hkey, hrest⟩ := List.append_inj hbytes (by simp)
      -- a bitmap's size is read off its front, so both have one length
      have hlen : e.bytes.length = e'.bytes.length := by
        rw [← he.size (entries.flatMap StoredBitmap.stored),
          ← he'.size (entries'.flatMap StoredBitmap.stored)]
        exact congrArg C.portable_deserialize_size hrest
      obtain ⟨hbits, hrest⟩ := List.append_inj hrest hlen
      have hkeys : e.key = e'.key := by
        have hload := congrArg loadLE hkey
        rw [loadLE_leBytes_of_lt (k := 4) e.key.isLt, loadLE_leBytes_of_lt (k := 4) e'.key.isLt]
          at hload
        exact BitVec.eq_of_toNat_eq hload
      have hbitmap : e.bitmap = e'.bitmap := by
        have hread := he.read
        rw [hbits, he'.read] at hread
        exact (Except.ok.inj hread).symm
      rw [ih hrest hentries hentries']
      cases e
      cases e'
      simp only at hkeys hbits hbitmap
      rw [hkeys, hbits, hbitmap]

/-! ## Which bitmaps are kept -/

/-- The first entry under a key. -/
def firstUnder (entries : List StoredBitmap) (key : BitVec 32) : Option StoredBitmap :=
  entries.find? (·.key == key)

/-- The map keeps what it has, and the first bitmap of each key it has not. -/
theorem mem_foldl_emplace {entries : List StoredBitmap} {dv : UCDeletionVectorData}
    {key : BitVec 32} {b : Roaring} :
    (key, b) ∈ (entries.foldl (fun dv e => dv.emplace e.key e.bitmap) dv).bitmaps ↔
      (key, b) ∈ dv.bitmaps ∨
        key ∉ dv.bitmaps.map Prod.fst ∧
          (firstUnder entries key).map StoredBitmap.bitmap = some b := by
  induction entries generalizing dv with
  | nil => simp [firstUnder]
  | cons e entries ih =>
    rw [List.foldl_cons, ih]
    by_cases hthere : e.key ∈ dv.bitmaps.map Prod.fst
    · -- a key that is there is not the one looked for, or makes no difference
      have hsame : dv.emplace e.key e.bitmap = dv := by rw [emplace, dif_pos hthere]
      rw [hsame]
      refine or_congr_right (and_congr_right fun hkey => ?_)
      have hne : (e.key == key) = false := by
        rw [beq_eq_false_iff_ne]
        rintro rfl
        exact hkey hthere
      rw [firstUnder, firstUnder, List.find?_cons, hne]
    · have hnew : (dv.emplace e.key e.bitmap).bitmaps = (e.key, e.bitmap) :: dv.bitmaps := by
        rw [emplace, dif_neg hthere]
      rw [hnew, List.mem_cons, List.map_cons, List.mem_cons, firstUnder, firstUnder,
        List.find?_cons]
      by_cases hkey : key = e.key
      · subst hkey
        have habsent : ∀ b, (e.key, b) ∉ dv.bitmaps := fun b hb => hthere (List.mem_map_of_mem hb)
        simp [habsent, hthere, eq_comm]
      · have hne : (e.key == key) = false := beq_eq_false_iff_ne.2 (Ne.symm hkey)
        simp [hne, hkey]

theorem mem_mapOf {entries : List StoredBitmap} {key : BitVec 32} {b : Roaring} :
    (key, b) ∈ (mapOf entries).bitmaps ↔
      (firstUnder entries key).map StoredBitmap.bitmap = some b := by
  rw [mapOf, mem_foldl_emplace]
  simp [empty]

/-- The positions of a map of entries: those of the first bitmap under each key. -/
theorem mem_toSet_mapOf {entries : List StoredBitmap} {pos : BitVec 64} :
    pos ∈ (mapOf entries).toSet ↔
      ∃ key e, firstUnder entries key = some e ∧ ∃ v ∈ e.bitmap, pos = position key v := by
  simp only [toSet, Finset.mem_biUnion, List.mem_toFinset, Finset.mem_image]
  constructor
  · rintro ⟨⟨key, b⟩, hmem, v, hv, rfl⟩
    obtain ⟨e, he, rfl⟩ := Option.map_eq_some_iff.1 (mem_mapOf.1 hmem)
    exact ⟨key, e, he, v, hv, rfl⟩
  · rintro ⟨key, e, he, v, hv, rfl⟩
    exact ⟨(key, e.bitmap), mem_mapOf.2 (by rw [he]; rfl), v, hv, rfl⟩

/-- The positions that a blob's entries stand for. -/
def IsStored (entries : List StoredBitmap) (pos : BitVec 64) : Prop :=
  ∃ e ∈ entries, ∃ v ∈ e.bitmap, pos = e.key.signExtend 64 * (2 ^ 32 : BitVec 64) + v.setWidth 64

/-- No bitmap has a value that the first under its key has not. -/
def RepeatsNothingNew (entries : List StoredBitmap) : Prop :=
  ∀ e ∈ entries, ∀ first, firstUnder entries e.key = some first → e.bitmap ⊆ first.bitmap

theorem exists_firstUnder {entries : List StoredBitmap} {e : StoredBitmap} (he : e ∈ entries) :
    ∃ first, firstUnder entries e.key = some first :=
  Option.isSome_iff_exists.1 (List.find?_isSome.2 ⟨e, he, beq_self_eq_true _⟩)

theorem of_firstUnder {entries : List StoredBitmap} {key : BitVec 32} {e : StoredBitmap}
    (h : firstUnder entries key = some e) : e ∈ entries ∧ e.key = key := by
  rw [firstUnder] at h
  exact ⟨List.mem_of_find?_eq_some h, by simpa using List.find?_some h⟩

/-- A map of entries has the positions stored exactly if no repeated key brings new ones. -/
theorem toSet_mapOf_iff {entries : List StoredBitmap} :
    (∀ pos, pos ∈ (mapOf entries).toSet ↔ IsStored entries pos) ↔ RepeatsNothingNew entries := by
  constructor
  · intro h e he first hfirst v hv
    have hpos := (h (position e.key v)).2 ⟨e, he, v, hv, position_eq _ _⟩
    obtain ⟨key, e', he', v', hv', heq⟩ := mem_toSet_mapOf.1 hpos
    obtain ⟨rfl, rfl⟩ := position_inj.1 heq
    rw [hfirst] at he'
    rwa [Option.some.inj he']
  · intro h pos
    rw [mem_toSet_mapOf]
    constructor
    · rintro ⟨key, e, he, v, hv, rfl⟩
      obtain ⟨hmem, rfl⟩ := of_firstUnder he
      exact ⟨e, hmem, v, hv, position_eq _ _⟩
    · rintro ⟨e, he, v, hv, rfl⟩
      obtain ⟨first, hfirst⟩ := exists_firstUnder he
      exact ⟨e.key, first, hfirst, v, h e he first hfirst hv, (position_eq _ _).symm⟩

/-- **The positions of an accepted blob** are those it stores exactly if no repeated key brings new
ones. -/
theorem toSet_eq_stored_iff (hC : C.Delimits) {blob : Bytes} {dv : UCDeletionVectorData}
    (h : fromBlob C blob path = .ok dv) :
    (∃ entries, Stores C blob entries) ∧ ∀ entries, Stores C blob entries →
      ((∀ pos, pos ∈ dv.toSet ↔ IsStored entries pos) ↔ RepeatsNothingNew entries) := by
  obtain ⟨entries, hstores, rfl⟩ := fromBlob_stores hC h
  refine ⟨⟨entries, hstores⟩, fun entries' hstores' => ?_⟩
  rw [hstores'.unique hstores]
  exact toSet_mapOf_iff

/-- An entry as the test driver writes it. -/
def arrayEntry (key : BitVec 32) (b : Roaring) : StoredBitmap := ⟨key, portableRoaring b, b⟩

theorem reads_arrayEntry (key : BitVec 32) (b : Roaring) : (arrayEntry key b).Reads arrayRoaring :=
  ⟨arrayRoaring_inverts.ne_nil b, arrayRoaring_inverts.size b, arrayRoaring_inverts.read b⟩

/-- Two bitmaps. -/
def twoEntries (key key' : BitVec 32) : List StoredBitmap :=
    [arrayEntry key {1}, arrayEntry key' {2}]

theorem reads_twoEntries (key key' : BitVec 32) :
    ∀ e ∈ twoEntries key key', e.Reads arrayRoaring := by
  simp [twoEntries, reads_arrayEntry]

/-- The second bitmap under a key is dropped: a blob with 1 and 2 under key 0 decodes to 1. -/
theorem repeatedKey_is_dropped :
    ¬ ∀ (C : CRoaring), C.Delimits → ∀ (blob : Bytes) (path : String) (dv : UCDeletionVectorData),
      fromBlob C blob path = .ok dv → ∀ entries, Stores C blob entries →
        ∀ pos, pos ∈ dv.toSet ↔ IsStored entries pos := by
  intro h
  have hreads := reads_twoEntries 0 0
  have hok := fromBlob_of_reads hreads (by decide +kernel) "t.dv"
  have hall := h arrayRoaring arrayRoaring_delimits _ _ _ hok _ (stores_blobOf hreads)
  have hsub := toSet_mapOf_iff.1 hall (arrayEntry 0 {2}) (by simp [twoEntries]) _ rfl
  exact absurd hsub (by simp [arrayEntry])

/-- Under different keys both are read. -/
theorem differentKeys_are_read :
    ∃ dv, fromBlob arrayRoaring (blobOf (twoEntries 0 1)) "t.dv" = .ok dv ∧
      ∀ pos, pos ∈ dv.toSet ↔ IsStored (twoEntries 0 1) pos := by
  have hreads := reads_twoEntries 0 1
  have hok := fromBlob_of_reads hreads (by decide +kernel) "t.dv"
  refine ⟨_, hok, ((toSet_eq_stored_iff arrayRoaring_delimits hok).2 _ (stores_blobOf hreads)).2 ?_⟩
  intro e he first hfirst
  simp only [twoEntries, List.mem_cons, List.not_mem_nil, or_false] at he
  rcases he with rfl | rfl <;> rw [← Option.some.inj hfirst]

end UnityCatalog
