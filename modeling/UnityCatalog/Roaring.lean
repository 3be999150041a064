import UnityCatalog.Client
import UnityCatalog.Words

/-!
# Roaring bitmaps

What the deletion-vector reader asks of CRoaring, and the portable format as far as the decoder's
test driver writes it: a bitmap whose containers are all arrays. `arrayRoaring` reads that format,
so that what the reader assumes of CRoaring is met by something.
-/

namespace UnityCatalog

open Words

/-- `roaring::Roaring`: the values it holds. -/
abbrev Roaring := Finset (BitVec 32)

/-- The two calls of CRoaring. -/
structure CRoaring where
  /-- `roaring_bitmap_portable_deserialize_size`, told how many bytes it may look at; 0 if no bitmap
  starts there -/
  portable_deserialize_size : Bytes → ℕ
  /-- `Roaring::readSafe` -/
  readSafe : Bytes → Except Exception Roaring

namespace CRoaring

/-- A serialized bitmap's size is found whatever follows it, and `readSafe` inverts
serialization. -/
structure Inverts (C : CRoaring) (portable_serialize : Roaring → Bytes) : Prop where
  size : ∀ b rest, C.portable_deserialize_size (portable_serialize b ++ rest) =
    (portable_serialize b).length
  read : ∀ b, C.readSafe (portable_serialize b) = .ok b

/-- The size found is that of bytes that are there, and only those bytes decide it. -/
structure Delimits (C : CRoaring) : Prop where
  size_le : ∀ s, C.portable_deserialize_size s ≤ s.length
  size_take : ∀ s rest, C.portable_deserialize_size s ≠ 0 →
    C.portable_deserialize_size (s.take (C.portable_deserialize_size s) ++ rest) =
      C.portable_deserialize_size s

/-- No serialized bitmap is empty: the empty one would be every bitmap. -/
theorem Inverts.ne_nil {C : CRoaring} {portable_serialize : Roaring → Bytes}
    (h : C.Inverts portable_serialize) (b : Roaring) : portable_serialize b ≠ [] := by
  intro hb
  have hnil : ∀ b', portable_serialize b' = [] := by
    intro b'
    have hsize := h.size b (portable_serialize b')
    have hself := h.size b' []
    rw [hb, List.nil_append] at hsize
    rw [List.append_nil, hsize] at hself
    exact List.length_eq_zero_iff.1 hself.symm
  have hsame : (∅ : Roaring) = {0} := by
    have hempty := h.read ∅
    have hzero := h.read {0}
    rw [hnil] at hempty hzero
    exact Except.ok.inj (hempty.symm.trans hzero)
  exact absurd hsame (by decide)

end CRoaring

/-! ## Writing arrays -/

/-- `SERIAL_COOKIE_NO_RUNCONTAINER` -/
def serialCookieNoRunContainer : ℕ := 12346

/-- The values of a bitmap, as numbers. -/
def numbers (b : Roaring) : Finset ℕ := b.image BitVec.toNat

/-- The low 16 bits of the values under a container's key. -/
def container (b : Roaring) (k : ℕ) : List ℕ := (lows (2 ^ 16) (numbers b) k).sort (· ≤ ·)

/-- The descriptive headers: a key and a cardinality less one. -/
def descriptiveHeaders (b : Roaring) (keys : List ℕ) : Bytes :=
  keys.flatMap fun k => leBytes 2 k ++ leBytes 2 ((container b k).length - 1)

/-- The offset header: where each container's data start. -/
def offsetHeader (b : Roaring) : ℕ → List ℕ → Bytes
  | _, [] => []
  | off, k :: keys => leBytes 4 off ++ offsetHeader b (off + 2 * (container b k).length) keys

/-- The container data. -/
def containerData (b : Roaring) (keys : List ℕ) : Bytes :=
  keys.flatMap fun k => (container b k).flatMap (leBytes 2)

/-- `_portable_roaring` -/
def portableRoaring (b : Roaring) : Bytes :=
  let keys := highs (2 ^ 16) (numbers b)
  leBytes 4 serialCookieNoRunContainer ++ leBytes 4 keys.length ++ descriptiveHeaders b keys ++
    offsetHeader b (8 + 8 * keys.length) keys ++ containerData b keys

/-! ## Reading arrays -/

/-- The keys and cardinalities of so many headers. -/
def readHeaders : ℕ → Bytes → List (ℕ × ℕ)
  | 0, _ => []
  | n + 1, buf =>
    (loadLE (buf.take 2), loadLE ((buf.drop 2).take 2) + 1) :: readHeaders n (buf.drop 4)

/-- So many 16-bit values. -/
def readArray : ℕ → Bytes → List ℕ
  | 0, _ => []
  | n + 1, buf => loadLE (buf.take 2) :: readArray n (buf.drop 2)

/-- The values of the containers the headers describe. -/
def readContainers : List (ℕ × ℕ) → Bytes → List ℕ
  | [], _ => []
  | (k, n) :: headers, buf =>
    (readArray n buf).map (k * 2 ^ 16 + ·) ++ readContainers headers (buf.drop (2 * n))

/-- How many containers a bitmap has. -/
def containerCount (buf : Bytes) : ℕ := loadLE ((buf.drop 4).take 4)

/-- The size that a bitmap's headers tell. -/
def headersSize (buf : Bytes) : ℕ :=
  8 + 8 * containerCount buf +
    2 * ((readHeaders (containerCount buf) (buf.drop 8)).map Prod.snd).sum

/-- `roaring_bitmap_portable_deserialize_size`, of array containers. -/
def arraySize (buf : Bytes) : ℕ :=
  if buf.length < 8 ∨ loadLE (buf.take 4) ≠ serialCookieNoRunContainer then 0
  else if buf.length < 8 + 8 * containerCount buf then 0
  else if buf.length < headersSize buf then 0
  else headersSize buf

/-- `Roaring::readSafe`, of array containers. -/
def readArrays (buf : Bytes) : Except Exception Roaring :=
  if arraySize buf = 0 then .error (internalException "failed alloc while reading")
  else
    let headers := readHeaders (containerCount buf) (buf.drop 8)
    .ok ((readContainers headers (buf.drop (8 + 8 * containerCount buf))).map
      (BitVec.ofNat 32)).toFinset

/-- CRoaring on array containers. -/
def arrayRoaring : CRoaring := ⟨arraySize, readArrays⟩

/-! ## What is read is what was written -/

section

variable (b : Roaring) (keys : List ℕ) (rest : Bytes)

theorem two_pow_sixteen_pos : 0 < 2 ^ 16 := Nat.two_pow_pos 16

theorem lt_of_mem_container {k low : ℕ} (h : low ∈ container b k) : low < 2 ^ 16 :=
  ((mem_lows two_pow_sixteen_pos).1 ((Finset.mem_sort _).1 h)).1

theorem length_container_le (k : ℕ) : (container b k).length ≤ 2 ^ 16 := by
  have hsub : lows (2 ^ 16) (numbers b) k ⊆ Finset.range (2 ^ 16) := fun low hlow =>
    Finset.mem_range.2 ((mem_lows two_pow_sixteen_pos).1 hlow).1
  rw [container, Finset.length_sort]
  exact (Finset.card_le_card hsub).trans_eq (Finset.card_range _)

/-- A container that is written holds something. -/
theorem length_container_pos {k : ℕ} (h : k ∈ highs (2 ^ 16) (numbers b)) :
    0 < (container b k).length := by
  rw [container, Finset.length_sort, Finset.card_pos]
  obtain ⟨x, hx, rfl⟩ := mem_highs.1 h
  obtain ⟨-, -, low, hlow, -⟩ := (mem_iff_parts two_pow_sixteen_pos).1 hx
  refine ⟨x % 2 ^ 16, (mem_lows two_pow_sixteen_pos).2 ⟨Nat.mod_lt _ two_pow_sixteen_pos, ?_⟩⟩
  rwa [Nat.mul_comm, Nat.div_add_mod]

theorem lt_of_mem_numbers {x : ℕ} (h : x ∈ numbers b) : x < 2 ^ 32 := by
  obtain ⟨v, -, rfl⟩ := Finset.mem_image.1 h
  exact v.isLt

theorem lt_of_mem_keys {k : ℕ} (h : k ∈ highs (2 ^ 16) (numbers b)) : k < 2 ^ 16 := by
  obtain ⟨x, hx, rfl⟩ := mem_highs.1 h
  have := lt_of_mem_numbers b hx
  omega

theorem length_keys_le : (highs (2 ^ 16) (numbers b)).length ≤ 2 ^ 16 := by
  have hsub : (numbers b).image (· / 2 ^ 16) ⊆ Finset.range (2 ^ 16) := by
    intro k hk
    obtain ⟨x, hx, rfl⟩ := Finset.mem_image.1 hk
    have := lt_of_mem_numbers b hx
    rw [Finset.mem_range]
    omega
  rw [highs, Finset.length_sort]
  exact (Finset.card_le_card hsub).trans_eq (Finset.card_range _)

@[simp] theorem length_descriptiveHeaders : (descriptiveHeaders b keys).length =
    4 * keys.length := by
  induction keys with
  | nil => rfl
  | cons k keys ih =>
    rw [descriptiveHeaders] at ih
    simp only [descriptiveHeaders, List.flatMap_cons, List.length_append, length_leBytes, ih,
      List.length_cons]
    omega

@[simp] theorem length_offsetHeader (off : ℕ) : (offsetHeader b off keys).length =
    4 * keys.length := by
  induction keys generalizing off with
  | nil => rfl
  | cons k keys ih =>
    rw [offsetHeader, List.length_append, length_leBytes, ih, List.length_cons]
    omega

@[simp] theorem length_flatMap_leBytes (ns : List ℕ) : (ns.flatMap (leBytes 2)).length =
    2 * ns.length := by
  induction ns with
  | nil => rfl
  | cons n ns ih =>
    rw [List.flatMap_cons, List.length_append, length_leBytes, ih, List.length_cons]
    omega

/-- The headers are read back. -/
theorem readHeaders_descriptiveHeaders
    (h : ∀ k ∈ keys, k < 2 ^ 16 ∧ 0 < (container b k).length) :
    readHeaders keys.length (descriptiveHeaders b keys ++ rest) =
      keys.map fun k => (k, (container b k).length) := by
  induction keys with
  | nil => rfl
  | cons k keys ih =>
    obtain ⟨⟨hk, hpos⟩, hkeys⟩ := List.forall_mem_cons.1 h
    have hle := length_container_le b k
    have hcard : (container b k).length - 1 < 256 ^ 2 := by omega
    rw [descriptiveHeaders] at ih
    rw [List.length_cons, descriptiveHeaders, List.flatMap_cons, readHeaders, List.map_cons,
      List.append_assoc, List.append_assoc, take_leBytes, drop_leBytes, take_leBytes,
      loadLE_leBytes_of_lt hk, loadLE_leBytes_of_lt hcard, Nat.sub_add_cancel hpos,
      ← List.append_assoc (leBytes 2 k), List.drop_left' (by simp), ih hkeys]

/-- An array is read back. -/
theorem readArray_flatMap {ns : List ℕ} (h : ∀ n ∈ ns, n < 2 ^ 16) :
    readArray ns.length (ns.flatMap (leBytes 2) ++ rest) = ns := by
  induction ns with
  | nil => rfl
  | cons n ns ih =>
    obtain ⟨hn, hns⟩ := List.forall_mem_cons.1 h
    rw [List.length_cons, List.flatMap_cons, readArray, List.append_assoc, take_leBytes,
      drop_leBytes, loadLE_leBytes_of_lt hn, ih hns]

/-- The containers are read back. -/
theorem readContainers_containerData :
    readContainers (keys.map fun k => (k, (container b k).length)) (containerData b keys ++ rest) =
      keys.flatMap fun k => (container b k).map (k * 2 ^ 16 + ·) := by
  induction keys with
  | nil => rfl
  | cons k keys ih =>
    rw [containerData] at ih
    rw [List.map_cons, readContainers, containerData, List.flatMap_cons, List.flatMap_cons,
      List.append_assoc, readArray_flatMap _ fun n hn => lt_of_mem_container b hn,
      List.drop_left' (length_flatMap_leBytes _), ih]

theorem length_containerData :
    (containerData b keys).length = 2 * ((keys.map fun k => (container b k).length)).sum := by
  induction keys with
  | nil => rfl
  | cons k keys ih =>
    rw [containerData] at ih
    rw [containerData, List.flatMap_cons, List.length_append, ih, length_flatMap_leBytes,
      List.map_cons, List.sum_cons]
    omega

/-- A written bitmap's number of containers. -/
theorem containerCount_portableRoaring :
    containerCount (portableRoaring b ++ rest) = (highs (2 ^ 16) (numbers b)).length := by
  have hlt : (highs (2 ^ 16) (numbers b)).length < 256 ^ 4 := by
    have := length_keys_le b
    omega
  simp only [containerCount, portableRoaring, List.append_assoc, drop_leBytes, take_leBytes]
  exact loadLE_leBytes_of_lt hlt

/-- A written bitmap's headers. -/
theorem readHeaders_portableRoaring :
    readHeaders (containerCount (portableRoaring b ++ rest)) ((portableRoaring b ++ rest).drop 8) =
      (highs (2 ^ 16) (numbers b)).map fun k => (k, (container b k).length) := by
  rw [containerCount_portableRoaring]
  simp only [portableRoaring, List.append_assoc]
  rw [← List.append_assoc, List.drop_left' (by simp)]
  apply readHeaders_descriptiveHeaders
  intro k hk
  exact ⟨lt_of_mem_keys b hk, length_container_pos b hk⟩

theorem length_portableRoaring :
    (portableRoaring b).length = 8 + 8 * (highs (2 ^ 16) (numbers b)).length +
      2 * (((highs (2 ^ 16) (numbers b)).map fun k => (container b k).length)).sum := by
  simp only [portableRoaring, List.length_append, length_leBytes, length_descriptiveHeaders,
    length_offsetHeader, length_containerData]
  omega

theorem headersSize_portableRoaring :
    headersSize (portableRoaring b ++ rest) = (portableRoaring b).length := by
  rw [headersSize, readHeaders_portableRoaring, containerCount_portableRoaring,
    length_portableRoaring, List.map_map]
  rfl

theorem arraySize_portableRoaring : arraySize (portableRoaring b ++ rest) =
    (portableRoaring b).length := by
  have hlen := length_portableRoaring b
  have hcookie : loadLE ((portableRoaring b ++ rest).take 4) = serialCookieNoRunContainer := by
    simp only [portableRoaring, List.append_assoc, take_leBytes]
    exact loadLE_leBytes_of_lt (by decide)
  rw [arraySize, headersSize_portableRoaring, containerCount_portableRoaring, List.length_append,
    if_neg, if_neg (by omega), if_neg (by omega)]
  rintro (h | h)
  · omega
  · exact h hcookie

/-- The values of a written bitmap are those it holds. -/
theorem toFinset_containers :
    (((highs (2 ^ 16) (numbers b)).flatMap fun k => (container b k).map (k * 2 ^ 16 + ·)).map
      (BitVec.ofNat 32)).toFinset = b := by
  ext v
  simp only [List.mem_toFinset, List.mem_map, List.mem_flatMap]
  have hmem : v ∈ b ↔ v.toNat ∈ numbers b := by
    simp [numbers, BitVec.toNat_inj]
  rw [hmem, mem_iff_parts two_pow_sixteen_pos]
  constructor
  · rintro ⟨x, ⟨k, hk, low, hlow, rfl⟩, rfl⟩
    rw [container, Finset.mem_sort] at hlow
    have hlt := lt_of_mem_numbers b ((mem_lows two_pow_sixteen_pos).1 hlow).2
    refine ⟨k, hk, low, hlow, ?_⟩
    rw [BitVec.toNat_ofNat, Nat.mod_eq_of_lt hlt]
  · rintro ⟨k, hk, low, hlow, hx⟩
    refine ⟨v.toNat, ⟨k, hk, low, (Finset.mem_sort _).2 hlow, hx⟩, ?_⟩
    simp

end

/-- **The array format is read back**, whatever follows it. -/
theorem arrayRoaring_inverts : arrayRoaring.Inverts portableRoaring := by
  refine ⟨fun b rest => ?_, fun b => ?_⟩
  · simp only [arrayRoaring, arraySize_portableRoaring]
  have hsize := arraySize_portableRoaring b []
  have hcount := containerCount_portableRoaring b []
  have hheaders := readHeaders_portableRoaring b []
  have hlen := length_portableRoaring b
  rw [List.append_nil] at hsize hcount hheaders
  simp only [arrayRoaring, readArrays]
  rw [if_neg (by omega), hheaders, hcount]
  have hdata : (portableRoaring b).drop (8 + 8 * (highs (2 ^ 16) (numbers b)).length) =
      containerData b (highs (2 ^ 16) (numbers b)) := by
    rw [portableRoaring]
    apply List.drop_left'
    simp only [List.length_append, length_leBytes, length_descriptiveHeaders, length_offsetHeader]
    omega
  have hread := readContainers_containerData b (highs (2 ^ 16) (numbers b)) []
  rw [List.append_nil] at hread
  rw [hdata, hread, toFinset_containers]

/-! ## Where a bitmap ends -/

/-- Headers are read from their own bytes only. -/
theorem readHeaders_append {n : ℕ} {buf : Bytes} (h : 4 * n ≤ buf.length) (rest : Bytes) :
    readHeaders n (buf ++ rest) = readHeaders n buf := by
  induction n generalizing buf with
  | zero => rfl
  | succ n ih =>
    have hdrop : n * 4 ≤ (buf.drop 4).length := by
      rw [List.length_drop]
      omega
    rw [readHeaders, readHeaders, List.take_append_of_le_length (by omega),
      List.drop_append_of_le_length (by omega), List.drop_append_of_le_length (by omega),
      List.take_append_of_le_length (by rw [List.length_drop]; omega), ih (by omega)]

/-- What the headers tell is in the bytes they take. -/
theorem headersSize_append (buf : Bytes) (h8 : 8 ≤ buf.length)
    (h : 8 + 4 * containerCount buf ≤ buf.length) (rest : Bytes) :
    containerCount (buf ++ rest) = containerCount buf ∧
      headersSize (buf ++ rest) = headersSize buf := by
  have hcount : containerCount (buf ++ rest) = containerCount buf := by
    rw [containerCount, containerCount, List.drop_append_of_le_length (by omega),
      List.take_append_of_le_length (by rw [List.length_drop]; omega)]
  refine ⟨hcount, ?_⟩
  rw [headersSize, headersSize, hcount, List.drop_append_of_le_length h8,
    readHeaders_append (by rw [List.length_drop]; omega)]

theorem arraySize_ne_zero {buf : Bytes} (h : arraySize buf ≠ 0) :
    arraySize buf = headersSize buf ∧ 8 + 8 * containerCount buf ≤ headersSize buf ∧
      headersSize buf ≤ buf.length ∧ loadLE (buf.take 4) = serialCookieNoRunContainer := by
  rw [arraySize] at h ⊢
  split_ifs at h ⊢ with h1 h2 h3
  · exact absurd rfl h
  · exact absurd rfl h
  · exact absurd rfl h
  · refine ⟨rfl, ?_, by omega, ?_⟩
    · rw [headersSize]
      omega
    · exact not_not.1 fun hcookie => h1 (.inr hcookie)

/-- The array format tells where a bitmap ends. -/
theorem arrayRoaring_delimits : arrayRoaring.Delimits := by
  refine ⟨fun s => ?_, fun s rest h => ?_⟩
  · by_cases h : arraySize s = 0
    · exact h.trans_le (Nat.zero_le _)
    · obtain ⟨hsize, -, hle, -⟩ := arraySize_ne_zero h
      exact hsize.trans_le hle
  · obtain ⟨hsize, hcount, hle, hcookie⟩ := arraySize_ne_zero h
    change arraySize (s.take (arraySize s) ++ rest) = arraySize s
    rw [hsize]
    -- the bitmap's own bytes are a buffer that is followed by the others
    generalize hp : s.take (headersSize s) = p
    have hlen : p.length = headersSize s := by rw [← hp, List.length_take, Nat.min_eq_left hle]
    have hs : s = p ++ s.drop (headersSize s) := by rw [← hp, List.take_append_drop]
    have hown : containerCount s = containerCount p := by
      rw [hs, containerCount, containerCount, List.drop_append_of_le_length (by omega),
        List.take_append_of_le_length (by rw [List.length_drop]; omega)]
    have hsame : headersSize s = headersSize p := by
      have happend := headersSize_append p (by omega) (by omega) (s.drop (headersSize s))
      rw [← hs] at happend
      exact happend.2
    have hrest := headersSize_append p (by omega) (by omega) rest
    have htake : (p ++ rest).take 4 = s.take 4 := by
      rw [hs, List.take_append_of_le_length (by omega), List.take_append_of_le_length (by omega)]
    rw [arraySize, hrest.1, hrest.2, ← hown, ← hsame, htake, List.length_append, if_neg,
      if_neg (by omega), if_neg (by omega)]
    rintro (h' | h')
    · omega
    · exact h' hcookie

end UnityCatalog
