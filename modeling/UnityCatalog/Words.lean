import Mathlib.Data.Finset.Sort
import Mathlib.Data.Nat.Digits.Lemmas

/-!
# Numbers in bytes, and numbers in pairs

A library module. A number written in a fixed count of bytes, in either order, is read back; and a
finite set of numbers is its high parts with, under each of them, the low parts that go with it.
-/

namespace Words

/-! ## Bytes -/

/-- The lowest `k` bytes of a number, the least significant first. -/
def leBytes : ℕ → ℕ → List UInt8
  | 0, _ => []
  | k + 1, n => UInt8.ofNat n :: leBytes k (n / 256)

/-- The lowest `k` bytes of a number, the most significant first. -/
def beBytes (k n : ℕ) : List UInt8 := (leBytes k n).reverse

/-- The number bytes write, the least significant first. -/
def loadLE (bs : List UInt8) : ℕ := Nat.ofDigits 256 (bs.map UInt8.toNat)

/-- The number bytes write, the most significant first. -/
def loadBE (bs : List UInt8) : ℕ := loadLE bs.reverse

@[simp] theorem length_leBytes (k n : ℕ) : (leBytes k n).length = k := by
  induction k generalizing n with
  | zero => rfl
  | succ k ih => rw [leBytes, List.length_cons, ih]

@[simp] theorem length_beBytes (k n : ℕ) : (beBytes k n).length = k := by
  rw [beBytes, List.length_reverse, length_leBytes]

@[simp] theorem take_leBytes (k n : ℕ) (rest : List UInt8) :
    (leBytes k n ++ rest).take k = leBytes k n :=
  List.take_left' (length_leBytes k n)

@[simp] theorem drop_leBytes (k n : ℕ) (rest : List UInt8) : (leBytes k n ++ rest).drop k = rest :=
  List.drop_left' (length_leBytes k n)

@[simp] theorem loadLE_nil : loadLE [] = 0 := rfl

@[simp] theorem loadLE_cons (b : UInt8) (bs : List UInt8) :
    loadLE (b :: bs) = b.toNat + 256 * loadLE bs := by
  simp [loadLE, Nat.ofDigits_cons]

theorem loadLE_lt (bs : List UInt8) : loadLE bs < 256 ^ bs.length := by
  induction bs with
  | nil => simp
  | cons b bs ih =>
    have hb := b.toNat_lt
    rw [loadLE_cons, List.length_cons, Nat.pow_succ]
    omega

/-- What is written is read, up to what the bytes have no room for. -/
theorem loadLE_leBytes (k n : ℕ) : loadLE (leBytes k n) = n % 256 ^ k := by
  induction k generalizing n with
  | zero => simp [leBytes, Nat.mod_one]
  | succ k ih =>
    rw [leBytes, loadLE_cons, ih, Nat.pow_succ, Nat.mul_comm (256 ^ k), Nat.mod_mul]
    simp

theorem loadLE_leBytes_of_lt {k n : ℕ} (h : n < 256 ^ k) : loadLE (leBytes k n) = n := by
  rw [loadLE_leBytes, Nat.mod_eq_of_lt h]

theorem loadBE_beBytes_of_lt {k n : ℕ} (h : n < 256 ^ k) : loadBE (beBytes k n) = n := by
  rw [loadBE, beBytes, List.reverse_reverse, loadLE_leBytes_of_lt h]

/-- The bytes are those of the number they write. -/
theorem leBytes_loadLE (bs : List UInt8) : leBytes bs.length (loadLE bs) = bs := by
  induction bs with
  | nil => rfl
  | cons b bs ih =>
    have hb := b.toNat_lt
    have hlow : UInt8.ofNat (b.toNat + 256 * loadLE bs) = b := by
      apply UInt8.toNat_inj.1
      simp
    have hhigh : (b.toNat + 256 * loadLE bs) / 256 = loadLE bs := by omega
    rw [List.length_cons, loadLE_cons, leBytes, hlow, hhigh, ih]

/-! ## Pairs -/

variable {B : ℕ} {s : Finset ℕ}

/-- The high parts, in ascending order. -/
def highs (B : ℕ) (s : Finset ℕ) : List ℕ := (s.image (· / B)).sort (· ≤ ·)

/-- The low parts that go with a high part. -/
def lows (B : ℕ) (s : Finset ℕ) (high : ℕ) : Finset ℕ := (s.filter (· / B = high)).image (· % B)

theorem mem_highs {high : ℕ} : high ∈ highs B s ↔ ∃ x ∈ s, x / B = high := by
  rw [highs, Finset.mem_sort, Finset.mem_image]

/-- The low parts under a high part are those the set joins it to. -/
theorem mem_lows {high low : ℕ} (hB : 0 < B) :
    low ∈ lows B s high ↔ low < B ∧ high * B + low ∈ s := by
  simp only [lows, Finset.mem_image, Finset.mem_filter]
  constructor
  · rintro ⟨x, ⟨hx, rfl⟩, rfl⟩
    refine ⟨Nat.mod_lt _ hB, ?_⟩
    rwa [Nat.mul_comm, Nat.div_add_mod]
  · rintro ⟨hlt, hx⟩
    refine ⟨_, ⟨hx, ?_⟩, ?_⟩
    · rw [Nat.mul_comm, Nat.mul_add_div hB, Nat.div_eq_of_lt hlt, Nat.add_zero]
    · rw [Nat.mul_comm, Nat.mul_add_mod, Nat.mod_eq_of_lt hlt]

/-- A set is what its parts join to. -/
theorem mem_iff_parts {x : ℕ} (hB : 0 < B) :
    x ∈ s ↔ ∃ high ∈ highs B s, ∃ low ∈ lows B s high, high * B + low = x := by
  constructor
  · intro hx
    have hjoin : x / B * B + x % B = x := by rw [Nat.mul_comm, Nat.div_add_mod]
    refine ⟨x / B, mem_highs.2 ⟨x, hx, rfl⟩, x % B, ?_, hjoin⟩
    exact (mem_lows hB).2 ⟨Nat.mod_lt _ hB, hjoin.symm ▸ hx⟩
  · rintro ⟨high, -, low, hlow, rfl⟩
    exact ((mem_lows hB).1 hlow).2

end Words
