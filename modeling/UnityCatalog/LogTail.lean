import UnityCatalog.VersionGate

/-!
# The log tail

`InternalAttach` hands Delta the commits UC lists as a `log_tail`, in the order they were listed:
`BackfillCommits` sorts the same list for itself, `BuildLogTailFromCommits` does not.

`logTail_kept_iff` says for which listings, and which reorderings of them, Delta is handed one tail.
-/

namespace UnityCatalog

open Effectful Yyjson

/-- The tail Delta is handed, empty where there is none. -/
def AttachInfo.logTail (info : AttachInfo) : List Value :=
  match info.options.find? fun o => o.1 == "log_tail" with
  | some (_, .list commits) => commits
  | _ => []

/-- The version of one entry of the tail. -/
def tailVersion : Value → ℤ
  | .struct ((_, .bigint version) :: _) => version
  | _ => 0

/-- The version of an entry is its first member. -/
theorem tailVersion_struct (field : String) (version : ℤ) (children : List (String × Value)) :
    tailVersion (.struct ((field, .bigint version) :: children)) = version := rfl

/-- An entry has its commit's version, as a signed number of the same bits. -/
theorem tailVersion_logTailCommit (location : String) (commit : UCAPICommit) :
    tailVersion (logTailCommit location commit) = int64 commit.version := by
  rw [logTailCommit, tailVersion_struct]

/-- `root'` answers as `root` does, its commits in another order. -/
structure Relisted (root root' : Option Val) : Prop where
  other : ∀ field, field ≠ "commits" → objGet root' field = objGet root field
  listing : (items (objGet root' "commits")).Perm (items (objGet root "commits"))

/-- What the tail owes a response: every listed commit once, in ascending order and none above the
gate, and the same tail and gate for the other order. -/
structure TailKept (t : TableInformation) (result result' : UCAPICommitsResult) : Prop where
  complete : (t.attachInfo (some result)).logTail.Perm
    (result.commits.map (logTailCommit t.table_data.storage_location))
  ascending : (t.attachInfo (some result)).logTail.Pairwise fun a b => tailVersion a ≤ tailVersion b
  gated : ∀ entry ∈ (t.attachInfo (some result)).logTail,
    ∃ gate, (t.attachInfo (some result)).maxCatalogVersion = some gate ∧ tailVersion entry ≤ gate
  tail : (t.attachInfo (some result')).logTail = (t.attachInfo (some result)).logTail
  gate : (t.attachInfo (some result')).maxCatalogVersion =
    (t.attachInfo (some result)).maxCatalogVersion

/-- The two orders list the same commits at the same places. -/
def SameListing (root root' : Option Val) : Prop :=
  (items (objGet root' "commits")).map (fun commit => readCommit (some commit)) =
    (items (objGet root "commits")).map fun commit => readCommit (some commit)

/-- The response lists its commits in ascending order of their versions, as signed 64-bit integers,
and no version it names overflows unless every commit's does. -/
def ListedInOrder (root : Option Val) : Prop :=
  (commitVersions root).Pairwise (fun m n => int64 (uintOf m) ≤ int64 (uintOf n)) ∧
    ((∀ n ∈ namedVersions root, uintOf n < 2 ^ 63) ∨ ∀ n ∈ commitVersions root, 2 ^ 63 ≤ uintOf n)

/-! ## The tail that is handed on -/

/-- The log tail has an entry for each commit, in the order the commits were listed in. -/
theorem attachInfo_logTail (t : TableInformation) (result : UCAPICommitsResult) :
    (t.attachInfo (some result)).logTail =
      result.commits.map (logTailCommit t.table_data.storage_location) := by
  by_cases h : result.commits = []
  · simp [AttachInfo.logTail, TableInformation.attachInfo, TableInformation.managedOptions, h]
  · simp [AttachInfo.logTail, TableInformation.attachInfo, TableInformation.managedOptions, h,
      buildLogTailFromCommits]

/-- The commits of a decoded answer are those its list is read as; nothing else of the answer goes
into them. -/
theorem decodeLoadTable_commits {c s t : String} {root : Option Val} {result : UCAPICommitsResult}
    (h : decodeLoadTable c s t root = .ok result) :
    (items (objGet root "commits")).mapM (fun commit => readCommit (some commit)) =
      .ok result.commits := by
  simp only [decodeLoadTable, except_bind_eq_ok] at h
  obtain ⟨_, -, _, -, _, -, _, -, _, -, ltv, -, commits, hcommits, h⟩ := h
  obtain rfl := Except.ok.inj h
  exact hcommits

/-- The versions are the listed numbers, read as unsigned. -/
theorem commitVersions_uintOf {c s t : String} {root : Option Val} {result : UCAPICommitsResult}
    (h : decodeLoadTable c s t root = .ok result) :
    (commitVersions root).map uintOf = result.commits.map UCAPICommit.version :=
  mapM_readCommit_versions (decodeLoadTable_commits h)

/-- Numbers of 64 bits are different as signed numbers if they are as unsigned ones. -/
theorem int64_inj {m n : ℕ} (hm : m < 2 ^ 64) (hn : n < 2 ^ 64) (h : int64 m = int64 n) :
    m = n := by
  rw [int64_eq hm, int64_eq hn] at h
  split at h <;> split at h <;> omega

/-- A commit is what its entry in the tail says. -/
theorem logTailCommit_inj {location : String} {a b : UCAPICommit} (ha : a.version < 2 ^ 64)
    (hb : b.version < 2 ^ 64) (h : logTailCommit location a = logTailCommit location b) :
      a = b := by
  simp only [logTailCommit, Value.struct.injEq, List.cons.injEq, Prod.mk.injEq, Value.bigint.injEq,
    Value.varchar.injEq, true_and, and_true] at h
  obtain ⟨hversion, htime, hname, hsize, hmodified⟩ := h
  have hname' : a.file_name = b.file_name := by
    simpa [String.ext_iff] using hname
  cases a
  cases b
  simp only [UCAPICommit.mk.injEq]
  exact ⟨int64_inj ha hb hversion, htime, hname', hsize, hmodified⟩

/-- The largest reading does not depend on the order. -/
theorem IsLargest.unique {ns ns' : List Yyjson.Num} {M M' : ℕ} (h : IsLargest ns M)
    (h' : IsLargest ns' M') (hp : ns'.Perm ns) : M' = M := by
  have hle : M' ≤ M := by
    rcases h'.mem with rfl | ⟨n, hn, rfl⟩
    · exact Nat.zero_le M
    · exact h.le n (hp.mem_iff.1 hn)
  have hge : M ≤ M' := by
    rcases h.mem with rfl | ⟨n, hn, rfl⟩
    · exact Nat.zero_le M'
    · exact h'.le n (hp.mem_iff.2 hn)
  exact le_antisymm hle hge

/-- No entry is above the gate exactly where no version overflows, or every commit's does. -/
theorem IsLargest.gated_iff {ns cs : List Yyjson.Num} {M : ℕ} (h : IsLargest ns M)
    (hcs : ∀ n ∈ cs, n ∈ ns) :
    (∀ n ∈ cs, int64 (uintOf n) ≤ int64 M) ↔
      (∀ n ∈ ns, uintOf n < 2 ^ 63) ∨ ∀ n ∈ cs, 2 ^ 63 ≤ uintOf n := by
  rw [int64_eq h.lt]
  constructor
  · intro hle
    by_cases hM : M < 2 ^ 63
    · exact .inl fun n hn => lt_of_le_of_lt (h.le n hn) hM
    · refine .inr fun n hn => ?_
      have hn' := hle n hn
      have hlt := h.lt
      rw [int64_eq (uintOf_lt n), if_neg hM] at hn'
      by_contra hsmall
      rw [if_pos (by omega)] at hn'
      omega
  · rintro (hsmall | hlarge) n hn
    · have hn' := hsmall n (hcs n hn)
      have hM : M < 2 ^ 63 := by
        rcases h.mem with rfl | ⟨m, hm, rfl⟩
        · exact Nat.two_pow_pos 63
        · exact hsmall m hm
      rw [int64_eq (uintOf_lt n), if_pos hn', if_pos hM]
      exact_mod_cast h.le n (hcs n hn)
    · have hn' := hlarge n hn
      have hM := h.le n (hcs n hn)
      rw [int64_eq (uintOf_lt n), if_neg (by omega), if_neg (by omega)]
      omega

/-! ## Which listings it is right for -/

section

variable (t : TableInformation) {root root' : Option Val} {result result' : UCAPICommitsResult}
variable (h : decodeLoadTable t.table_data.catalog_name t.table_data.schema_name t.table_data.name
  root = .ok result)

include h

/-- The tail ascends exactly if the listed numbers do once they are read as signed. -/
theorem logTail_ascending_iff :
    (t.attachInfo (some result)).logTail.Pairwise (fun a b => tailVersion a ≤ tailVersion b) ↔
      (commitVersions root).Pairwise fun m n => int64 (uintOf m) ≤ int64 (uintOf n) := by
  have hversions := commitVersions_uintOf h
  calc (t.attachInfo (some result)).logTail.Pairwise (fun a b => tailVersion a ≤ tailVersion b)
      ↔ result.commits.Pairwise fun a b => int64 a.version ≤ int64 b.version := by
        simp only [attachInfo_logTail, List.pairwise_map, tailVersion_logTailCommit]
    _ ↔ (result.commits.map UCAPICommit.version).Pairwise fun m n => int64 m ≤ int64 n := by
        simp only [List.pairwise_map]
    _ ↔ (commitVersions root).Pairwise fun m n => int64 (uintOf m) ≤ int64 (uintOf n) := by
        rw [← hversions, List.pairwise_map]

/-- All of the tail lies below the gate exactly if no named version is so large that the sign
turns. -/
theorem logTail_gated_iff :
    (∀ entry ∈ (t.attachInfo (some result)).logTail,
        ∃ gate, (t.attachInfo (some result)).maxCatalogVersion = some gate ∧
          tailVersion entry ≤ gate) ↔
      (∀ n ∈ namedVersions root, uintOf n < 2 ^ 63) ∨
        ∀ n ∈ commitVersions root, 2 ^ 63 ≤ uintOf n := by
  have hversions := commitVersions_uintOf h
  rw [← (decodeLoadTable_ratified h).gated_iff fun n hn => List.mem_append_right _ hn,
    attachInfo_logTail, attachInfo_maxCatalogVersion]
  constructor
  · intro hle n hn
    have hmem : uintOf n ∈ result.commits.map UCAPICommit.version :=
      hversions ▸ List.mem_map_of_mem hn
    obtain ⟨c, hc, hv⟩ := List.mem_map.1 hmem
    obtain ⟨gate, hgate, hle⟩ := hle _ (List.mem_map_of_mem hc)
    rw [tailVersion_logTailCommit, hv, ← Option.some.inj hgate] at hle
    exact hle
  · intro hle entry hentry
    obtain ⟨c, hc, rfl⟩ := List.mem_map.1 hentry
    have hmem : c.version ∈ (commitVersions root).map uintOf :=
      hversions ▸ List.mem_map_of_mem hc
    obtain ⟨n, hn, hv⟩ := List.mem_map.1 hmem
    refine ⟨int64 result.ratified_version, rfl, ?_⟩
    rw [tailVersion_logTailCommit, ← hv]
    exact hle n hn

variable (h' : decodeLoadTable t.table_data.catalog_name t.table_data.schema_name t.table_data.name
  root' = .ok result')

include h'

/-- Two answers give one tail exactly if they list the same commits in the same order. -/
theorem logTail_eq_iff :
    (t.attachInfo (some result')).logTail = (t.attachInfo (some result)).logTail ↔
      SameListing root root' := by
  have hsmall : ∀ {root : Option Val} {result : UCAPICommitsResult}, decodeLoadTable
      t.table_data.catalog_name t.table_data.schema_name t.table_data.name root = .ok result →
      ∀ c ∈ result.commits, c.version < 2 ^ 64 := by
    intro root result h c hc
    have hmem : c.version ∈ (commitVersions root).map uintOf :=
      commitVersions_uintOf h ▸ List.mem_map_of_mem hc
    obtain ⟨n, -, hv⟩ := List.mem_map.1 hmem
    exact hv ▸ uintOf_lt n
  rw [attachInfo_logTail, attachInfo_logTail, SameListing, mapM_eq_ok.1 (decodeLoadTable_commits h),
    mapM_eq_ok.1 (decodeLoadTable_commits h')]
  constructor
  · intro htail
    have heq : result'.commits = result.commits := by
      refine List.ext_getElem ?_ fun i hi hi' => ?_
      · simpa using congrArg List.length htail
      · have hentry : logTailCommit t.table_data.storage_location result'.commits[i] =
            logTailCommit t.table_data.storage_location result.commits[i] := by
          simpa [hi, hi'] using congrArg (fun l => l[i]?) htail
        exact logTailCommit_inj (hsmall h' _ (List.getElem_mem hi))
          (hsmall h _ (List.getElem_mem hi'))
          hentry
    rw [heq]
  · intro hsame
    have heq : result'.commits = result.commits :=
      (List.map_injective_iff.2 fun _ _ => Except.ok.inj) hsame
    rw [heq]

/-- Another order names the same versions. -/
theorem logTail_gate_eq (hlist : Relisted root root') :
    (t.attachInfo (some result')).maxCatalogVersion =
      (t.attachInfo (some result)).maxCatalogVersion := by
  have hlatest : latestTableVersion root' = latestTableVersion root := by
    rw [latestTableVersion, latestTableVersion, hlist.other _ (by decide)]
  have hnamed : (namedVersions root').Perm (namedVersions root) := by
    rw [namedVersions, namedVersions, hlatest]
    exact (hlist.listing.filterMap _).append_left _
  rw [attachInfo_maxCatalogVersion, attachInfo_maxCatalogVersion,
    (decodeLoadTable_ratified h).unique (decodeLoadTable_ratified h') hnamed]

/-- **Delta is handed the tail a response is owed, and the same one for another order of its
commits, exactly where they are listed in order and the other order is the same listing.** -/
theorem logTail_kept_iff (hlist : Relisted root root') :
    TailKept t result result' ↔ ListedInOrder root ∧ SameListing root root' := by
  constructor
  · intro hkept
    exact ⟨⟨(logTail_ascending_iff t h).1 hkept.ascending, (logTail_gated_iff t h).1 hkept.gated⟩,
      (logTail_eq_iff t h h').1 hkept.tail⟩
  · rintro ⟨⟨hasc, hgated⟩, hsame⟩
    refine ⟨?_, (logTail_ascending_iff t h).2 hasc, (logTail_gated_iff t h).2 hgated,
      (logTail_eq_iff t h h').2 hsame, logTail_gate_eq t h h' hlist⟩
    rw [attachInfo_logTail]

end

/-! ### Two commits, in two orders -/

/-- A commit as a response lists it. -/
def listedCommit (version : Fin (2 ^ 64)) : Val :=
  .obj [("version", .num (.uint version)), ("timestamp", .num (.uint 1)), ("file-name", .str "f"),
    ("file-size", .num (.uint 1)), ("file-modification-timestamp", .num (.uint 1))]

/-- A response that lists these versions. -/
def listing (versions : List (Fin (2 ^ 64))) : Option Val :=
  some (.obj [("latest-table-version", .num (.uint 2)),
    ("commits", .arr (versions.map listedCommit))])

/-- A listing with its versions in another order differs in nothing else. -/
theorem relisted_listing {versions versions' : List (Fin (2 ^ 64))} (h : versions'.Perm versions) :
    Relisted (listing versions) (listing versions') where
  other field hfield := by
    have hne : ("commits" == field) = false := beq_false_of_ne hfield.symm
    simp [listing, objGet, List.find?_cons, hne]
  listing := h.map listedCommit

theorem decode_listing_21 : decodeLoadTable "c" "s" "t" (listing [2, 1]) =
    .ok { commits := [⟨2, 1, "f", 1, 1⟩, ⟨1, 1, "f", 1, 1⟩], ratified_version := 2 } := by
  decide +kernel

theorem decode_listing_12 : decodeLoadTable "c" "s" "t" (listing [1, 2]) =
    .ok { commits := [⟨1, 1, "f", 1, 1⟩, ⟨2, 1, "f", 1, 1⟩], ratified_version := 2 } := by
  decide +kernel

/-- The newer commit is listed first: Delta is handed it first. -/
theorem logTail_follows_listing : ∃ result result',
    Relisted (listing [2, 1]) (listing [1, 2]) ∧
      decodeLoadTable "c" "s" "t" (listing [2, 1]) = .ok result ∧
      decodeLoadTable "c" "s" "t" (listing [1, 2]) = .ok result' ∧
      ¬ TailKept exampleTable result result' := by
  refine ⟨_, _, relisted_listing (by decide), decode_listing_21, decode_listing_12, fun hkept => ?_⟩
  have hasc := (logTail_ascending_iff exampleTable decode_listing_21).1 hkept.ascending
  have hnot : ¬ (commitVersions (listing [2, 1])).Pairwise
      fun m n => int64 (uintOf m) ≤ int64 (uintOf n) := by
    decide +kernel
  exact hnot hasc

theorem logTail_kept_iff_ordered : ∃ result result',
    decodeLoadTable "c" "s" "t" (listing [1, 2]) = .ok result ∧
      decodeLoadTable "c" "s" "t" (listing [2, 1]) = .ok result' ∧
      (TailKept exampleTable result result' ↔
        ListedInOrder (listing [1, 2]) ∧ SameListing (listing [1, 2]) (listing [2, 1])) :=
  ⟨_, _, decode_listing_12, decode_listing_21,
    logTail_kept_iff exampleTable decode_listing_12 decode_listing_21
    (relisted_listing (by decide))⟩

end UnityCatalog
