import UnityCatalog.DeletionVectorCodec

/-!
# CRC-32

The class `CRC32` as it is: a register for each object, and one table for all, which is zero until
the first object is made and is filled then. `crc32_is_reflected`: what comes of it is the checksum
of the message's bits, one after the other.
-/

namespace UnityCatalog

/-- The static members. -/
structure CRC32.Statics where
  crc_table : Vector (BitVec 32) 256 := Vector.replicate 256 0
  table_initialized : Bool := false

/-- `CRC32` -/
structure CRC32 where
  crc : BitVec 32

namespace CRC32

/-- The inner loop of `InitTable`, once. -/
def tableRound (c : BitVec 32) : BitVec 32 :=
  if c &&& 1#32 ≠ 0 then 0xEDB88320#32 ^^^ (c >>> 1) else c >>> 1

/-- `InitTable` -/
def Statics.initTable (s : Statics) : Statics :=
  if s.table_initialized then s
  else
    { crc_table := Vector.ofFn fun i => tableRound^[8] (BitVec.ofNat 32 i)
      table_initialized := true }

/-- The constructor. -/
def create (s : Statics) : CRC32 × Statics := (⟨0xFFFFFFFF⟩, s.initTable)

/-- An index into the table is below its length, so the lookup needs no bound. -/
theorem toNat_and_255_lt (x : BitVec 32) : (x &&& 0xFF).toNat < 256 := by
  rw [BitVec.toNat_and]
  exact Nat.and_lt_two_pow _ (n := 8) (by decide)

/-- The loop of `Update`, once. -/
def updateByte (s : Statics) (c : CRC32) (data : UInt8) : CRC32 :=
  ⟨s.crc_table.get ⟨((c.crc ^^^ data.toBitVec.setWidth 32) &&& 0xFF).toNat, toNat_and_255_lt _⟩ ^^^
    (c.crc >>> 8)⟩

/-- `Update` -/
def update (s : Statics) (c : CRC32) (data : Bytes) : CRC32 := data.foldl (updateByte s) c

/-- `GetValue` -/
def getValue (c : CRC32) : BitVec 32 := c.crc ^^^ 0xFFFFFFFF

/-- The table holds the remainders. -/
def Statics.Filled (s : Statics) : Prop :=
  ∀ i : Fin 256, s.crc_table.get i = Crc.table polynomial (BitVec.ofNat 8 i)

/-- It is filled as soon as it is marked so. -/
def Statics.Valid (s : Statics) : Prop := s.table_initialized = true → s.Filled

/-- A round of the table's making is one step of the reflected division: the two tests of the lowest
bit are the same. -/
theorem tableRound_eq (c : BitVec 32) : tableRound c = Crc.step polynomial c := by
  have hbit : c &&& 1#32 ≠ 0 ↔ c.getLsbD 0 = true := by
    rw [BitVec.and_one_eq_setWidth_ofBool_getLsbD]
    cases c.getLsbD 0 <;> decide
  rw [tableRound, Crc.step, if_congr hbit rfl rfl, polynomial]
  rfl

/-- After the first call the table holds, at each index, what eight rounds make of it. -/
theorem filled_initTable {s : Statics} (h : s.Valid) : s.initTable.Filled := by
  rw [Statics.initTable]
  split
  · rename_i hinit
    exact h hinit
  · intro i
    have hround : tableRound = Crc.step polynomial := funext tableRound_eq
    have hi : BitVec.ofNat 32 i = (BitVec.ofNat 8 i).setWidth 32 := by
      apply BitVec.eq_of_toNat_eq
      simp only [BitVec.toNat_ofNat, BitVec.toNat_setWidth]
      omega
    have hget : (Vector.ofFn fun i : Fin 256 => tableRound^[8] (BitVec.ofNat 32 i)).get i =
        tableRound^[8] (BitVec.ofNat 32 i) := Vector.getElem_ofFn _
    rw [hget, Crc.table, hround, hi]

/-- However many objects were made before. -/
theorem valid_made (made : ℕ) : (Statics.initTable^[made] {}).Valid := by
  induction made with
  | zero => exact fun h => absurd h (by decide)
  | succ made ih =>
    rw [Function.iterate_succ_apply']
    exact fun _ => filled_initTable ih

/-- One byte by the table is eight steps of the division, which `Crc.byTable` is proved to be. -/
theorem updateByte_crc {s : Statics} (h : s.Filled) (c : CRC32) (data : UInt8) :
    (updateByte s c data).crc = Crc.byTable polynomial c.crc data := by
  have hlow (x : BitVec 32) : BitVec.ofNat 8 (x &&& 0xFF).toNat = x.setWidth 8 := by
    apply BitVec.eq_of_toNat_eq
    have hmod : x.toNat &&& 255 = x.toNat % 256 := Nat.and_two_pow_sub_one_eq_mod _ 8
    simp [hmod]
  rw [updateByte, h, Crc.byTable, hlow]

/-- A run over the data takes its bytes in order; the induction is on the data, the register
arbitrary. -/
theorem update_crc {s : Statics} (h : s.Filled) (c : CRC32) (data : Bytes) :
    (update s c data).crc = data.foldl (Crc.byTable polynomial) c.crc := by
  induction data generalizing c with
  | nil => rfl
  | cons b data ih => rw [update, List.foldl_cons, ← update, ih, List.foldl_cons, updateByte_crc h]

/-- **The table-driven checksum is CRC-32**, of any bytes and after any number of objects: it is the
reflected checksum, bit by bit, and what `FromBlob` compares; and two updates are one of the
whole. -/
theorem crc32_is_reflected (made : ℕ) :
    (∀ data : Bytes,
      (update (create (Statics.initTable^[made] {})).2 (create (Statics.initTable^[made] {})).1
        data).getValue =
        Crc.reflected 0xEDB88320#32 0xFFFFFFFF#32 0xFFFFFFFF#32 data) ∧
    (∀ data : Bytes, value data =
      (update (create (Statics.initTable^[made] {})).2
        (create (Statics.initTable^[made] {})).1 data).getValue.toNat) ∧
    ∀ (s : Statics) (c : CRC32) (data data' : Bytes),
      update s (update s c data) data' = update s c (data ++ data') := by
  have hfilled : (create (Statics.initTable^[made] {})).2.Filled :=
    filled_initTable (valid_made made)
  refine ⟨fun data => ?_, fun data => ?_, fun s c data data' => ?_⟩
  · rw [getValue, update_crc hfilled]
    exact Crc.foldl_byTable_eq_reflected polynomial (by decide) _ _ data
  · rw [getValue, update_crc hfilled]
    rfl
  · rw [update, update, update, List.foldl_append]

/-- The check value of CRC-32. -/
example : Crc.reflected 0xEDB88320#32 0xFFFFFFFF#32 0xFFFFFFFF#32
    [0x31, 0x32, 0x33, 0x34, 0x35, 0x36, 0x37, 0x38, 0x39] = 0xCBF43926#32 := by
  decide +kernel

end CRC32

end UnityCatalog
