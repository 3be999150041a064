import Mathlib.Data.BitVec
import Mathlib.Logic.Function.Iterate

/-!
# Cyclic redundancy checks

A library module. The remainder of a message under a reflected polynomial, one bit of the register
at a time (`bitwise`) and one byte at a time through a table of 256 remainders (`byTable`). The step
is linear, and a register whose low byte is clear only moves down, so that the two are the same.
Linearity is also why the bits of a byte can be shifted in one by one (`reflected`).
-/

namespace Crc

variable {w : ℕ} (poly : BitVec w)

/-- One bit of the register out at the low end. -/
def step (crc : BitVec w) : BitVec w :=
  if crc.getLsbD 0 then poly ^^^ (crc >>> 1) else crc >>> 1

/-- A byte of the message, bit by bit. -/
def bitwise (crc : BitVec w) (data : UInt8) : BitVec w :=
  (step poly)^[8] (crc ^^^ data.toBitVec.setWidth w)

/-- The remainder of each byte. -/
def table (i : BitVec 8) : BitVec w := (step poly)^[8] (i.setWidth w)

/-- A byte of the message, by the table. -/
def byTable (crc : BitVec w) (data : UInt8) : BitVec w :=
  table poly ((crc ^^^ data.toBitVec.setWidth w).setWidth 8) ^^^ (crc >>> 8)

/-- The step is linear. -/
theorem step_xor (x y : BitVec w) : step poly (x ^^^ y) = step poly x ^^^ step poly y := by
  simp only [step, BitVec.getLsbD_xor, BitVec.ushiftRight_xor_distrib]
  cases x.getLsbD 0 <;> cases y.getLsbD 0 <;> ext i hi <;> simp <;>
    cases poly[i] <;> cases x.getLsbD (1 + i) <;> cases y.getLsbD (1 + i) <;> rfl

theorem iterate_step_xor (n : ℕ) (x y : BitVec w) :
    (step poly)^[n] (x ^^^ y) = (step poly)^[n] x ^^^ (step poly)^[n] y := by
  induction n generalizing x y with
  | zero => rfl
  | succ n ih => rw [Function.iterate_succ_apply, step_xor, ih]; rfl

/-- A register with its low bits clear only moves down. -/
theorem iterate_step_of_low (n : ℕ) {x : BitVec w} (h : ∀ i < n, x.getLsbD i = false) :
    (step poly)^[n] x = x >>> n := by
  induction n generalizing x with
  | zero => simp
  | succ n ih =>
    rw [Function.iterate_succ_apply, step, h 0 (Nat.succ_pos n), ih]
    · rw [if_neg (by simp), ← BitVec.shiftRight_add, Nat.add_comm]
    · intro i hi
      rw [if_neg (by simp), BitVec.getLsbD_ushiftRight]
      exact h _ (by omega)

/-- **The table computes the remainder.** -/
theorem byTable_eq_bitwise (crc : BitVec w) (data : UInt8) :
    byTable poly crc data = bitwise poly crc data := by
  -- the register splits into its low byte, which the table takes, and the rest, which moves down
  have hsplit : crc ^^^ data.toBitVec.setWidth w =
      ((crc ^^^ data.toBitVec.setWidth w).setWidth 8).setWidth w ^^^ (crc >>> 8 <<< 8) := by
    ext i hi
    simp only [BitVec.getElem_xor, BitVec.getElem_setWidth, BitVec.getLsbD_setWidth,
      BitVec.getElem_shiftLeft, BitVec.getLsbD_xor]
    by_cases h : i < 8
    · simp [h, hi]
    · have hdata : data.toBitVec.getLsbD i = false := BitVec.getLsbD_of_ge _ _ (by omega)
      simp [h, hdata, Nat.add_sub_cancel' (by omega : 8 ≤ i), BitVec.getLsbD_eq_getElem hi]
  have hlow : ∀ i < 8, (crc >>> 8 <<< 8 : BitVec w).getLsbD i = false := by
    intro i hi
    simp [hi]
  have hback : (crc >>> 8 <<< 8 >>> 8 : BitVec w) = crc >>> 8 := by
    ext i hi
    by_cases h : 8 + i < w
    · simp [h]
    · have : crc.getLsbD (8 + i) = false := BitVec.getLsbD_of_ge _ _ (by omega)
      simp [h, this]
  rw [bitwise, hsplit, iterate_step_xor, iterate_step_of_low poly 8 hlow, hback]
  rfl

/-- Along a message. -/
theorem foldl_byTable (crc : BitVec w) (data : List UInt8) :
    data.foldl (byTable poly) crc = data.foldl (bitwise poly) crc := by
  induction data generalizing crc with
  | nil => rfl
  | cons b data ih => rw [List.foldl_cons, List.foldl_cons, byTable_eq_bitwise, ih]

/-! ## Bit by bit -/

/-- A bit of the message into the register, at the low end. -/
def shiftIn (crc : BitVec w) (b : Bool) : BitVec w :=
    step poly (crc ^^^ (BitVec.ofBool b).setWidth w)

/-- The bits of a byte, the low one first. -/
def bits (data : UInt8) : List Bool := List.ofFn fun i : Fin 8 => data.toBitVec.getLsbD i

/-- The checksum of a message, a bit at a time. -/
def reflected (init final : BitVec w) (data : List UInt8) : BitVec w :=
  (data.flatMap bits).foldl (shiftIn poly) init ^^^ final

/-- The number some bits write, the low one first. -/
def word : List Bool → BitVec w
  | [] => 0
  | b :: bs => (BitVec.ofBool b).setWidth w ^^^ (word bs <<< 1)

theorem getElem_word (bs : List Bool) {i : ℕ} (hi : i < w) :
    (word bs : BitVec w)[i] = (bs[i]?).getD false := by
  induction bs generalizing i with
  | nil => simp [word]
  | cons b bs ih =>
    cases i with
    | zero => simp [word]
    | succ i => simpa [word] using ih (Nat.lt_of_succ_lt hi)

/-- What is shifted in bit by bit can be added at once. -/
theorem foldl_shiftIn (crc : BitVec w) {bs : List Bool} (h : bs.length ≤ w) :
    bs.foldl (shiftIn poly) crc = (step poly)^[bs.length] (crc ^^^ word bs) := by
  induction bs generalizing crc with
  | nil => simp [word]
  | cons b bs ih =>
    rw [List.length_cons] at h
    have hlow : (word bs <<< 1 : BitVec w).getLsbD 0 = false := by simp
    have hback : (word bs <<< 1 >>> 1 : BitVec w) = word bs := by
      ext i hi
      by_cases htop : 1 + i < w
      · simp [htop]
      · have hend : bs.length ≤ i := by omega
        simp [htop, getElem_word bs hi, hend]
    have hone : step poly (word bs <<< 1) = word bs := by
      rw [step, if_neg (by simp), hback]
    rw [List.foldl_cons, ih _ (by omega), List.length_cons, Function.iterate_succ_apply, word,
      ← BitVec.xor_assoc, step_xor, hone, shiftIn]

theorem word_bits (data : UInt8) : (word (bits data) : BitVec w) = data.toBitVec.setWidth w := by
  ext i hi
  rw [getElem_word _ hi, BitVec.getElem_setWidth, bits, List.getElem?_ofFn]
  split
  · rfl
  · exact (BitVec.getLsbD_of_ge _ _ (by omega)).symm

/-- A byte, bit by bit. -/
theorem foldl_shiftIn_bits (hw : 8 ≤ w) (crc : BitVec w) (data : UInt8) :
    (bits data).foldl (shiftIn poly) crc = bitwise poly crc data := by
  have hlen : (bits data).length = 8 := List.length_ofFn
  rw [foldl_shiftIn poly crc (by omega), hlen, word_bits, bitwise]

/-- **The bytes of a message, each by the table, are its bits.** -/
theorem foldl_byTable_eq_reflected (hw : 8 ≤ w) (init final : BitVec w) (data : List UInt8) :
    data.foldl (byTable poly) init ^^^ final = reflected poly init final data := by
  rw [reflected, List.foldl_flatMap, foldl_byTable]
  simp only [foldl_shiftIn_bits poly hw]

end Crc
