import UnityCatalog.TableInformation
import UnityCatalog.YyjsonText
import Mathlib.Tactic.Linarith
import Mathlib.Tactic.NormNum
import Mathlib.Tactic.Ring

/-!
# The version gate

Delta shows no commit past `max_catalog_version`, which `InternalAttach` takes from the answer to
`LoadTable`. The answer may name versions in two places, `latest-table-version` and the commits, and
the code keeps the largest, read as unsigned 64-bit integers and starting from 0. So a response that
names none gates the table at version 0, and so does one whose versions are written as fractions.

`gate_covers_iff` says exactly which responses the gate is right for.
-/

namespace UnityCatalog

open Effectful Yyjson

/-- The gate Delta is handed. -/
def AttachInfo.maxCatalogVersion (info : AttachInfo) : Option ℤ :=
  match info.options.find? fun o => o.1 == "max_catalog_version" with
  | some (_, .bigint gate) => some gate
  | _ => none

/-- The number a value is. -/
def numOf : Option Val → Option Yyjson.Num
  | some (.num n) => some n
  | _ => none

/-- The version the response says is the latest. -/
def latestTableVersion (root : Option Val) : Option Yyjson.Num :=
  numOf (objGet root "latest-table-version")

/-- The versions of the commits the response lists. -/
def commitVersions (root : Option Val) : List Yyjson.Num :=
  (items (objGet root "commits")).filterMap fun commit => numOf (objGet (some commit) "version")

/-- Every version the response names. -/
def namedVersions (root : Option Val) : List Yyjson.Num :=
  (latestTableVersion root).toList ++ commitVersions root

/-- What the gate owes the response: it is at least the latest version where that is present, at
least every listed commit's version, and not 0 where no version is named. -/
def Covers (gate : ℤ) (root : Option Val) : Prop :=
  (∀ n, latestTableVersion root = some n → n.value ≤ gate) ∧
    (∀ n ∈ commitVersions root, n.value ≤ gate) ∧
    (namedVersions root = [] → gate ≠ 0)

/-- yyjson stores the number as an integer. -/
def IsInteger : Yyjson.Num → Prop
  | .real _ => False
  | _ => True

/-- One of the numbers is an integer below `2^63` that no other exceeds, and no integer among them
is negative unless it is; or none is an integer and none is positive. -/
def Dominated (ns : List Yyjson.Num) : Prop :=
  (∃ m ∈ ns, IsInteger m ∧ m.value < 2 ^ 63 ∧ (∀ k ∈ ns, k.value ≤ m.value) ∧
    (m.value < 0 ∨ ∀ k ∈ ns, IsInteger k → 0 ≤ k.value)) ∨
  (ns ≠ [] ∧ ∀ k ∈ ns, ¬ IsInteger k ∧ k.value ≤ 0)

/-! ## Numbers as the code reads them -/

/-- `yyjson_get_uint` of a number. -/
def uintOf (n : Yyjson.Num) : ℕ := getUint (some (.num n))

theorem uintOf_lt (n : Yyjson.Num) : uintOf n < 2 ^ 64 := by
  cases n with
  | uint n => exact n.isLt
  | sint n => exact Nat.mod_lt _ (by norm_num)
  | real q => exact Nat.two_pow_pos 64

theorem uintOf_of_not_isInteger {n : Yyjson.Num} (h : ¬ IsInteger n) : uintOf n = 0 := by
  cases n with
  | uint n => exact absurd trivial h
  | sint n => exact absurd trivial h
  | real q => rfl

theorem uintOf_of_nonneg {n : Yyjson.Num} (hi : IsInteger n) (h : 0 ≤ n.value) :
    (uintOf n : ℚ) = n.value := by
  cases n with
  | uint n => rfl
  | sint n =>
    have hn : n.val = 0 := by
      have : (n.val : ℚ) ≤ 0 := by simpa [Yyjson.Num.value] using h
      exact Nat.le_zero.1 (by exact_mod_cast this)
    simp [uintOf, getUint, Yyjson.Num.value, hn]
  | real q => exact absurd hi not_false

theorem uintOf_of_neg {n : Yyjson.Num} (hi : IsInteger n) (h : n.value < 0) :
    (uintOf n : ℚ) = n.value + 2 ^ 64 ∧ 2 ^ 63 ≤ uintOf n := by
  cases n with
  | uint n =>
    have : (0 : ℚ) ≤ n.val := Nat.cast_nonneg _
    exact absurd h (not_lt.2 this)
  | sint n =>
    have hpos : 0 < n.val := by
      have : (0 : ℚ) < n.val := by simpa [Yyjson.Num.value] using h
      exact_mod_cast this
    have hlt := n.isLt
    have huint : uintOf (.sint n) = 2 ^ 64 - n.val :=
      Nat.mod_eq_of_lt (Nat.sub_lt (by norm_num) hpos)
    have hle : n.val ≤ 2 ^ 64 := by omega
    refine ⟨?_, by omega⟩
    rw [huint, Nat.cast_sub hle]
    simp only [Yyjson.Num.value]
    norm_num
    ring
  | real q => exact absurd hi not_false

/-! ## The largest reading -/

/-- `M` is the largest unsigned reading of the numbers, 0 if there is none. -/
structure IsLargest (ns : List Yyjson.Num) (M : ℕ) : Prop where
  le : ∀ n ∈ ns, uintOf n ≤ M
  mem : M = 0 ∨ ∃ n ∈ ns, uintOf n = M

theorem IsLargest.lt {ns : List Yyjson.Num} {M : ℕ} (h : IsLargest ns M) : M < 2 ^ 64 := by
  rcases h.mem with rfl | ⟨n, -, rfl⟩
  · exact Nat.two_pow_pos 64
  · exact uintOf_lt n

/-- A reading that is not 0 is an integer's. -/
theorem isInteger_of_uintOf_pos {n : Yyjson.Num} (h : 0 < uintOf n) : IsInteger n := by
  by_contra hn
  rw [uintOf_of_not_isInteger hn] at h
  exact lt_irrefl _ h

/-- The gate is right only where one of the numbers dominates them. -/
theorem IsLargest.dominated {ns : List Yyjson.Num} {M : ℕ} (h : IsLargest ns M) (hne : ns ≠ [])
    (hle : ∀ k ∈ ns, k.value ≤ (int64 M : ℤ)) : Dominated ns := by
  rw [int64_eq h.lt] at hle
  by_cases hbig : M < 2 ^ 63
  · -- every integer is its own reading, and the gate is the largest
    rw [if_pos hbig] at hle
    have hnonneg : ∀ k ∈ ns, IsInteger k → 0 ≤ k.value := by
      intro k hk hi
      by_contra hneg
      have := (uintOf_of_neg hi (not_le.1 hneg)).2
      have := h.le k hk
      omega
    by_cases hint : ∃ m ∈ ns, IsInteger m ∧ uintOf m = M
    · obtain ⟨m, hm, hi, hM⟩ := hint
      have hval : m.value = M := by rw [← uintOf_of_nonneg hi (hnonneg m hm hi), hM]
      refine .inl ⟨m, hm, hi, ?_, ?_, .inr hnonneg⟩
      · rw [hval]
        exact_mod_cast hbig
      · intro k hk
        have := hle k hk
        rw [hval]
        exact_mod_cast this
    · -- the gate is nobody's reading, so it is the start value
      have hzero : M = 0 := by
        rcases h.mem with h0 | ⟨n, hn, hM⟩
        · exact h0
        · by_contra hpos
          exact hint ⟨n, hn, isInteger_of_uintOf_pos (by omega), hM⟩
      subst hzero
      refine .inr ⟨hne, fun k hk => ⟨?_, ?_⟩⟩
      · intro hi
        exact hint ⟨k, hk, hi, Nat.le_zero.1 (h.le k hk)⟩
      · simpa using hle k hk
  · -- the gate is negative: it is the largest of negative integers
    rw [if_neg hbig] at hle
    obtain ⟨m, hm, hM⟩ : ∃ m ∈ ns, uintOf m = M := by
      rcases h.mem with h0 | hm
      · omega
      · exact hm
    have hi : IsInteger m := isInteger_of_uintOf_pos (by omega)
    have hlt := h.lt
    have hgate : (((M : ℤ) - 2 ^ 64 : ℤ) : ℚ) < 0 := by
      have : (M : ℤ) - 2 ^ 64 < 0 := by omega
      exact_mod_cast this
    have hneg : m.value < 0 := lt_of_le_of_lt (hle m hm) hgate
    have hval : m.value = (((M : ℤ) - 2 ^ 64 : ℤ) : ℚ) := by
      have := (uintOf_of_neg hi hneg).1
      rw [hM] at this
      push_cast
      linarith
    refine .inl ⟨m, hm, hi, ?_, ?_, .inl hneg⟩
    · exact lt_trans hneg (by norm_num)
    · intro k hk
      rw [hval]
      exact hle k hk

/-- Where one of the numbers dominates them, the gate is that number. -/
theorem IsLargest.gate_le {ns : List Yyjson.Num} {M : ℕ} (h : IsLargest ns M) (hd : Dominated ns) :
    ∀ k ∈ ns, k.value ≤ (int64 M : ℤ) := by
  rw [int64_eq h.lt]
  rcases hd with ⟨m, hm, hi, hbig, hdom, hneg | hnonneg⟩ | ⟨-, hreal⟩
  · -- all are negative: the integers' readings keep their order, the fractions' are 0
    obtain ⟨hread, hlarge⟩ := uintOf_of_neg hi hneg
    have hM : M = uintOf m := by
      rcases h.mem with h0 | ⟨n, hn, hnM⟩
      · have := h.le m hm
        omega
      · have hnpos : 0 < uintOf n := by
          have := h.le m hm
          omega
        have hni : IsInteger n := isInteger_of_uintOf_pos hnpos
        have hnneg : n.value < 0 := lt_of_le_of_lt (hdom n hn) hneg
        have hle : (uintOf n : ℚ) ≤ uintOf m := by
          rw [(uintOf_of_neg hni hnneg).1, hread]
          have := hdom n hn
          linarith
        have hle' : uintOf n ≤ uintOf m := by exact_mod_cast hle
        have := h.le m hm
        omega
    rw [hM, if_neg (by omega)]
    intro k hk
    have := hdom k hk
    push_cast
    linarith
  · -- no integer is negative: each is its own reading
    have hread : (uintOf m : ℚ) = m.value := uintOf_of_nonneg hi (hnonneg m hm hi)
    have hM : M = uintOf m := by
      refine le_antisymm ?_ (h.le m hm)
      rcases h.mem with h0 | ⟨n, hn, hnM⟩
      · omega
      · by_cases hni : IsInteger n
        · have hle : (uintOf n : ℚ) ≤ uintOf m := by
            rw [uintOf_of_nonneg hni (hnonneg n hn hni), hread]
            exact hdom n hn
          rw [← hnM]
          exact_mod_cast hle
        · rw [← hnM, uintOf_of_not_isInteger hni]
          exact Nat.zero_le _
    have hsmall : uintOf m < 2 ^ 63 := by
      rw [← hread] at hbig
      exact_mod_cast hbig
    rw [hM, if_pos hsmall]
    intro k hk
    have := hdom k hk
    push_cast
    linarith
  · -- no integer at all: every reading is 0
    have hM : M = 0 := by
      rcases h.mem with h0 | ⟨n, hn, hnM⟩
      · exact h0
      · rw [← hnM, uintOf_of_not_isInteger (hreal n hn).1]
    rw [hM, if_pos (Nat.two_pow_pos 63)]
    intro k hk
    simpa using (hreal k hk).2

/-! ## What `LoadTable` keeps -/

/-- A required number that decodes is a number, and is read unsigned. -/
theorem tryGetNum_eq_ok {obj : Option Val} {field : String} {fail_on_missing : Bool} {v : ℕ}
    (h : tryGetNumFromObject obj field fail_on_missing 0 = .ok v) :
    (∃ n, numOf (objGet obj field) = some n ∧ v = uintOf n) ∨
      (fail_on_missing = false ∧ numOf (objGet obj field) = none ∧ v = 0) := by
  simp only [tryGetNumFromObject, templatedTryGetYYJson] at h
  split at h
  · split at h
    · rename_i hnum
      rcases hval : objGet obj field with _ | val
      · rw [hval] at hnum
        cases hnum
      · rw [hval] at h hnum
        cases val with
        | num n => exact .inl ⟨n, rfl, (Except.ok.inj h).symm⟩
        | _ => cases hnum
    · cases h
  · rename_i hmiss
    split at h
    · cases h
    · rename_i hfail
      refine .inr ⟨by simpa using hfail, ?_, (Except.ok.inj h).symm⟩
      rcases hval : objGet obj field with _ | val
      · rfl
      · rw [hval] at hmiss
        cases val with
        | null => rfl
        | _ => exact absurd rfl hmiss

theorem readCommit_version {commit : Option Val} {c : UCAPICommit} (h : readCommit commit = .ok c) :
    ∃ n, numOf (objGet commit "version") = some n ∧ c.version = uintOf n := by
  simp only [readCommit, except_bind_eq_ok] at h
  obtain ⟨v, hv, _, -, _, -, _, -, _, -, hc⟩ := h
  obtain rfl := Except.ok.inj hc
  rcases tryGetNum_eq_ok hv with hn | ⟨hf, -⟩
  · exact hn
  · cases hf

/-- The versions kept of the commits are the unsigned readings of the versions listed. -/
theorem mapM_readCommit_versions {vals : List Val} {commits : List UCAPICommit}
    (h : vals.mapM (fun v => readCommit (some v)) = .ok commits) :
    (vals.filterMap fun v => numOf (objGet (some v) "version")).map uintOf =
      commits.map UCAPICommit.version := by
  induction vals generalizing commits with
  | nil =>
    obtain rfl := Except.ok.inj h
    rfl
  | cons v vals ih =>
    rw [List.mapM_cons, except_bind_eq_ok] at h
    obtain ⟨c, hc, h⟩ := h
    rw [except_bind_eq_ok] at h
    obtain ⟨cs, hcs, h⟩ := h
    obtain rfl := Except.ok.inj h
    obtain ⟨n, hn, hv⟩ := readCommit_version hc
    rw [List.filterMap_cons_some (f := fun v => numOf (objGet (some v) "version")) hn,
      List.map_cons, List.map_cons, ih hcs, hv]

theorem foldl_version_spec (commits : List UCAPICommit) (m : ℕ) :
    let M := commits.foldl (fun m c => if c.version > m then c.version else m) m
    m ≤ M ∧ (∀ c ∈ commits, c.version ≤ M) ∧ (M = m ∨ ∃ c ∈ commits, c.version = M) := by
  induction commits generalizing m with
  | nil => exact ⟨le_refl m, by simp, .inl rfl⟩
  | cons c commits ih =>
    obtain ⟨hm, hle, hmem⟩ := ih (if c.version > m then c.version else m)
    simp only [List.foldl_cons]
    have hmax : m ≤ (if c.version > m then c.version else m) ∧
        c.version ≤ (if c.version > m then c.version else m) := by
      split <;> omega
    refine ⟨le_trans hmax.1 hm, ?_, ?_⟩
    · intro d hd
      rcases List.mem_cons.1 hd with rfl | hd
      · exact le_trans hmax.2 hm
      · exact hle d hd
    · rcases hmem with heq | ⟨d, hd, heq⟩
      · rw [heq]
        split
        · exact .inr ⟨c, List.mem_cons_self, rfl⟩
        · exact .inl rfl
      · exact .inr ⟨d, List.mem_cons_of_mem c hd, heq⟩

/-- **What `LoadTable` keeps of the versions**: the largest unsigned reading. -/
theorem decodeLoadTable_ratified {c s t : String} {root : Option Val} {result : UCAPICommitsResult}
    (h : decodeLoadTable c s t root = .ok result) :
    IsLargest (namedVersions root) result.ratified_version := by
  simp only [decodeLoadTable, except_bind_eq_ok] at h
  obtain ⟨_, -, _, -, _, -, _, -, _, -, ltv, hltv, commits, hcommits, h⟩ := h
  obtain rfl := Except.ok.inj h
  have hversions := mapM_readCommit_versions hcommits
  have hread : ∀ n ∈ commitVersions root, ∃ c ∈ commits, c.version = uintOf n := by
    intro n hn
    have : uintOf n ∈ commits.map UCAPICommit.version := hversions ▸ List.mem_map_of_mem hn
    exact List.mem_map.1 this
  have hwritten : ∀ c ∈ commits, ∃ n ∈ commitVersions root, uintOf n = c.version := by
    intro c hc
    have : c.version ∈ (commitVersions root).map uintOf := by
      rw [commitVersions, hversions]
      exact List.mem_map_of_mem hc
    exact List.mem_map.1 this
  -- the highest commit version is one of them, or the 0 it starts from
  obtain ⟨-, hle, hmem⟩ := foldl_version_spec commits 0
  have hlatest : (∃ n, latestTableVersion root = some n ∧ ltv = uintOf n) ∨
      (latestTableVersion root = none ∧ ltv = 0) := by
    rcases tryGetNum_eq_ok hltv with hn | ⟨-, hn, h0⟩
    · exact .inl hn
    · exact .inr ⟨hn, h0⟩
  -- the larger of the two that the source compares
  have hmax : ltv ≤ (if ltv > maxCommitVersion commits then ltv else maxCommitVersion commits) ∧
      maxCommitVersion commits ≤
        (if ltv > maxCommitVersion commits then ltv else maxCommitVersion commits) := by
    split <;> omega
  refine ⟨?_, ?_⟩
  · intro n hn
    rcases List.mem_append.1 hn with hn | hn
    · rcases hlatest with ⟨k, hk, rfl⟩ | ⟨hk, -⟩
      · rw [hk] at hn
        obtain rfl : n = k := by simpa using hn
        exact hmax.1
      · rw [hk] at hn
        cases hn
    · obtain ⟨c, hc, hv⟩ := hread n hn
      rw [← hv]
      exact le_trans (hle c hc) hmax.2
  · show (if ltv > maxCommitVersion commits then ltv else maxCommitVersion commits) = 0 ∨ _
    split
    · rcases hlatest with ⟨k, hk, rfl⟩ | ⟨-, rfl⟩
      · exact .inr ⟨k, List.mem_append_left _ (by simp [hk]), rfl⟩
      · exact .inl rfl
    · rcases hmem with h0 | ⟨c, hc, hv⟩
      · exact .inl h0
      · obtain ⟨n, hn, hnv⟩ := hwritten c hc
        exact .inr ⟨n, List.mem_append_right _ hn, hnv.trans hv⟩

/-! ## The gate -/

theorem attachInfo_maxCatalogVersion (t : TableInformation) (commits : UCAPICommitsResult) :
    (t.attachInfo (some commits)).maxCatalogVersion = some (int64 commits.ratified_version) := by
  rfl

/-- **The gate `InternalAttach` hands to Delta is right exactly for the responses one of whose
versions dominates the others.** -/
theorem gate_covers_iff (t : TableInformation) {root : Option Val} {result : UCAPICommitsResult}
    (h : decodeLoadTable t.table_data.catalog_name t.table_data.schema_name t.table_data.name root =
      .ok result) :
    (∃ gate, (t.attachInfo (some result)).maxCatalogVersion = some gate ∧ Covers gate root) ↔
      Dominated (namedVersions root) := by
  have hlargest := decodeLoadTable_ratified h
  rw [attachInfo_maxCatalogVersion]
  constructor
  · rintro ⟨gate, hgate, hlatest, hcommits, hnone⟩
    obtain rfl := Option.some.inj hgate
    have hne : namedVersions root ≠ [] := by
      intro hnil
      refine hnone hnil ?_
      rcases hlargest.mem with h0 | ⟨n, hn, -⟩
      · rw [h0]
        rfl
      · rw [hnil] at hn
        cases hn
    refine hlargest.dominated hne fun k hk => ?_
    rcases List.mem_append.1 hk with hk | hk
    · exact hlatest k (Option.mem_toList.1 hk)
    · exact hcommits k hk
  · intro hd
    have hle := hlargest.gate_le hd
    refine ⟨_, rfl, ?_, ?_, ?_⟩
    · intro n hn
      exact hle n (List.mem_append_left _ (Option.mem_toList.2 hn))
    · intro n hn
      exact hle n (List.mem_append_right _ hn)
    · intro hnil
      rw [hnil] at hd
      rcases hd with ⟨m, hm, -⟩ | ⟨hne, -⟩
      · cases hm
      · exact absurd rfl hne

/-! ### A response that names no version -/

/-- An answer with an etag and nothing else. -/
def unversioned : String := "\x7b\"metadata\":\x7b\"etag\":\"e1\"\x7d\x7d"

theorem gate_pins_unversioned :
    ∃ result, decodeLoadTable "c" "s" "t" (read unversioned) = .ok result ∧
      ¬ ∃ gate, (exampleTable.attachInfo (some result)).maxCatalogVersion = some gate ∧
        Covers gate (read unversioned) := by
  have hdecode : decodeLoadTable "c" "s" "t" (read unversioned) = .ok { etag := "e1" } := by
    decide +kernel
  have hnone : namedVersions (read unversioned) = [] := by decide +kernel
  refine ⟨_, hdecode, ?_⟩
  rintro ⟨gate, hgate, -, -, h0⟩
  obtain rfl := Option.some.inj hgate
  exact h0 hnone rfl

/-- An answer with one commit and the version it makes. -/
def versioned : String :=
  String.ofList ("\x7b\"latest-table-version\":3,\"commits\":[".toList ++
    "\x7b\"version\":3,\"timestamp\":1,".toList ++
    "\"file-name\":\"f\",\"file-size\":1,".toList ++
    "\"file-modification-timestamp\":1\x7d]\x7d".toList)

/-- What it says. -/
def versionedRoot : Val :=
  .obj [("latest-table-version", .num (.uint 3)), ("commits", .arr [.obj
    [("version", .num (.uint 3)), ("timestamp", .num (.uint 1)), ("file-name", .str "f"),
      ("file-size", .num (.uint 1)), ("file-modification-timestamp", .num (.uint 1))]])]

theorem gate_covers_iff_versioned :
    ∃ result, decodeLoadTable "c" "s" "t" (read versioned) = .ok result ∧
      ((∃ gate, (exampleTable.attachInfo (some result)).maxCatalogVersion = some gate ∧
        Covers gate (read versioned)) ↔ Dominated (namedVersions (read versioned))) :=
  have hdecode : decodeLoadTable "c" "s" "t" (read versioned) =
      .ok { commits := [⟨3, 1, "f", 1, 1⟩], ratified_version := 3 } := by
    have hread : read versioned = some versionedRoot := read_ofList (by decide +kernel)
    rw [hread]
    decide +kernel
  ⟨_, hdecode, gate_covers_iff exampleTable hdecode⟩

end UnityCatalog
