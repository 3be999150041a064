import UnityCatalog.CommittedTable
import UnityCatalog.LogTail
import UnityCatalog.Publish
import UnityCatalog.YyjsonRaw

/-!
# What request bodies say

`UpdateTable` and `GetTableCredentials` write their bodies with a format string. An etag goes
through `YYJsonEncodeString`; a table's id and a commit's file name are put between quotes as they
are, and numbers go through `int64_t`. `UCAPI.read_updateTableBody_iff` says of which commits the
body says what is meant: no other text reads as the same commit, so a server that is asked for
anything else can tell.

A commit that is posted so comes back with `LoadTable`, and Delta is then handed the very file it
staged, `staged_commits_come_back`.
-/

namespace UnityCatalog

open Yyjson

/-! ## `UCAPI::UpdateTable` -/

/-- A number, as `%lld` writes it. -/
@[irreducible] def numberText (n : ℕ) : List Char := (toString (int64 n)).toList

/-- `uuid_req` -/
def uuidReq (table_id : String) : List Char :=
  "\x7b\"type\": \"assert-table-uuid\"".toList ++ ", \"uuid\": \"".toList ++ table_id.toList ++
    "\"\x7d".toList

/-- `etag_req` -/
def etagReq (etag : String) : List Char :=
  if etag = "" then []
  else ", \x7b\"type\": \"assert-etag\", \"etag\": ".toList ++ writeString etag ++ "\x7d".toList

/-- `backfill_update` -/
def backfillUpdate (backfill_version : Option ℕ) : List Char :=
  (backfill_version.map fun backfill_version =>
    ", \x7b\"action\": \"set-latest-backfilled-version\"".toList ++
      ", \"latest-published-version\": ".toList ++ numberText backfill_version ++
        "\x7d".toList).getD []

/-- The commit in the body's format string. -/
def commitFormat (c : AddCommit) : List Char :=
  "\x7b\"version\": ".toList ++ numberText c.version ++
  ", \"timestamp\": ".toList ++ numberText c.timestamp ++
  ", \"file-name\": \"".toList ++ c.file_name.toList ++
  "\", \"file-size\": ".toList ++ numberText c.file_size ++
  ", \"file-modification-timestamp\": ".toList ++ numberText c.file_modification_timestamp ++
    "\x7d".toList

/-- The body that `UCAPI::UpdateTable` posts, which `RequestBody.addCommit` stands for. -/
def UCAPI.updateTableBody (c : AddCommit) : String :=
  String.ofList (
    "\x7b\"requirements\": [".toList ++ uuidReq c.table_id ++ etagReq c.etag ++
    "], \"updates\": [".toList ++ "\x7b\"action\": \"add-commit\", \"commit\": ".toList ++
      commitFormat c ++
    "\x7d".toList ++ backfillUpdate c.backfill_version ++ "]\x7d".toList)

/-- What is asked of UC, with its numbers as they are sent. -/
def AddCommit.requirements (c : AddCommit) : Val :=
  .arr (.obj [("type", .str "assert-table-uuid"), ("uuid", .str c.table_id)] ::
    if c.etag = "" then [] else [.obj [("type", .str "assert-etag"), ("etag", .str c.etag)]])

/-- The commit to add. -/
def AddCommit.entry (c : AddCommit) (number : ℕ → ℤ) : Val :=
  .obj [("version", .num (Num.ofInt (number c.version))),
    ("timestamp", .num (Num.ofInt (number c.timestamp))), ("file-name", .str c.file_name),
    ("file-size", .num (Num.ofInt (number c.file_size))),
    ("file-modification-timestamp", .num (Num.ofInt (number c.file_modification_timestamp)))]

/-- What is to be done. -/
def AddCommit.updates (c : AddCommit) (number : ℕ → ℤ) : Val :=
  .arr (.obj [("action", .str "add-commit"), ("commit", c.entry number)] ::
    (c.backfill_version.map fun backfill_version =>
      Val.obj [("action", .str "set-latest-backfilled-version"),
        ("latest-published-version", .num (Num.ofInt (number backfill_version)))]).toList)

/-- The whole body. -/
def AddCommit.value (c : AddCommit) (number : ℕ → ℤ) : Val :=
  .obj [("requirements", c.requirements), ("updates", c.updates number)]

/-! ### Its text -/

/-- A text between quotes, as it is. -/
def rawString (s : String) : List Char := ['"'] ++ (s.toList ++ ['"'])

/-- The text of `assert-table-uuid`. -/
def AddCommit.uuidText (c : AddCommit) : List Char :=
  objectText [' '] [("type", writeString "assert-table-uuid"), ("uuid", rawString c.table_id)]

/-- The text of `assert-etag`, if there is one. -/
def AddCommit.etagTexts (c : AddCommit) : List (List Char) :=
  if c.etag = "" then []
  else [objectText [' '] [("type", writeString "assert-etag"), ("etag", writeString c.etag)]]

/-- The text of the commit. -/
def AddCommit.entryText (c : AddCommit) : List Char :=
  objectText [' '] [("version", numberText c.version),
    ("timestamp", numberText c.timestamp), ("file-name", rawString c.file_name),
    ("file-size", numberText c.file_size),
    ("file-modification-timestamp", numberText c.file_modification_timestamp)]

/-- The text of `add-commit`. -/
def AddCommit.addText (c : AddCommit) : List Char :=
  objectText [' '] [("action", writeString "add-commit"), ("commit", c.entryText)]

/-- The text of `set-latest-backfilled-version`, if there is one. -/
def AddCommit.backfillTexts (c : AddCommit) : List (List Char) :=
  (c.backfill_version.map fun backfill_version =>
    objectText [' '] [("action", writeString "set-latest-backfilled-version"),
      ("latest-published-version", numberText backfill_version)]).toList

/-- The text of the body. -/
def AddCommit.text (c : AddCommit) : List Char :=
  objectText [' '] [("requirements", arrayText [' '] (c.uuidText :: c.etagTexts)),
    ("updates", arrayText [' '] (c.addText :: c.backfillTexts))]

/-- A key with its colon. -/
def keyText (key : String) : List Char := writeString key ++ [':', ' ']

/-- An array's text with the separators in front of all items but the first, as the format strings
have them. -/
theorem arrayText_cons (text : List Char) (texts : List (List Char)) :
    arrayText [' '] (text :: texts) =
      ['['] ++ (text ++ ((texts.flatMap fun cs => [',', ' '] ++ cs) ++ [']'])) := by
  rw [arrayText, joinTexts_flatMap]
  simp

/-- An object's text in the same form: a key and its value at a time. -/
theorem objectText_cons (m : String × List Char) (ms : List (String × List Char)) :
    objectText [' '] (m :: ms) = ['{'] ++ (keyText m.1 ++ (m.2 ++
      ((ms.flatMap fun m => [',', ' '] ++ (keyText m.1 ++ m.2)) ++ ['}']))) := by
  rw [objectText, List.map_cons, joinTexts_flatMap, List.flatMap_map]
  simp [memberText, keyText]

/-! The format strings, cut at the values that are put in. -/

/-- The format string of the requirement on the table's id is the text of that object. -/
theorem uuidReq_eq (c : AddCommit) : uuidReq c.table_id = c.uuidText := by
  have htype : "\x7b\"type\": \"assert-table-uuid\"".toList =
      ['{'] ++ (keyText "type" ++ writeString "assert-table-uuid") := by
    decide +kernel
  have huuid : ", \"uuid\": \"".toList = [',', ' '] ++ (keyText "uuid" ++ ['"']) :=
    by decide +kernel
  have hend : "\"\x7d".toList = ['"'] ++ ['}'] := rfl
  delta uuidReq AddCommit.uuidText
  rw [htype, huuid, hend, objectText_cons, List.flatMap_singleton]
  simp only [rawString, List.append_assoc]

/-- The requirement on the etag is a second item of its array or nothing at all. -/
theorem etagReq_eq (c : AddCommit) : etagReq c.etag = c.etagTexts.flatMap fun cs =>
    [',', ' '] ++ cs := by
  have hetag : ", \x7b\"type\": \"assert-etag\", \"etag\": ".toList =
      [',', ' '] ++
        (['{'] ++
        (keyText "type" ++ (writeString "assert-etag" ++ ([',', ' '] ++ keyText "etag")))) := by
    decide +kernel
  have hend : "\x7d".toList = ['}'] := rfl
  delta etagReq AddCommit.etagTexts
  split
  · rfl
  · rw [hetag, hend, List.flatMap_singleton, objectText_cons, List.flatMap_singleton]
    simp only [List.append_assoc]

/-- The format string of the commit's entry is the text of that object. -/
theorem commitFormat_eq (c : AddCommit) : commitFormat c = c.entryText := by
  have hversion : "\x7b\"version\": ".toList = ['{'] ++ keyText "version" := by decide +kernel
  have htimestamp : ", \"timestamp\": ".toList = [',', ' '] ++ keyText "timestamp" :=
    by decide +kernel
  have hname : ", \"file-name\": \"".toList = [',', ' '] ++ (keyText "file-name" ++ ['"']) :=
    by decide +kernel
  have hsize : "\", \"file-size\": ".toList = ['"'] ++ ([',', ' '] ++ keyText "file-size") :=
    by decide +kernel
  have hmodified : ", \"file-modification-timestamp\": ".toList =
      [',', ' '] ++ keyText "file-modification-timestamp" := by
    decide +kernel
  have hend : "\x7d".toList = ['}'] := rfl
  delta commitFormat AddCommit.entryText
  rw [hversion, htimestamp, hname, hsize, hmodified, hend, objectText_cons]
  simp only [rawString, List.flatMap_cons, List.flatMap_nil, List.append_assoc, List.append_nil]

/-- The update of the backfilled version is a further item, where there is one to report. -/
theorem backfillUpdate_eq (c : AddCommit) :
    backfillUpdate c.backfill_version = c.backfillTexts.flatMap fun cs => [',', ' '] ++ cs := by
  have haction : ", \x7b\"action\": \"set-latest-backfilled-version\"".toList =
      [',', ' '] ++
        (['{'] ++ (keyText "action" ++ writeString "set-latest-backfilled-version")) := by
    decide +kernel
  have hversion : ", \"latest-published-version\": ".toList =
      [',', ' '] ++ keyText "latest-published-version" := by
    decide +kernel
  have hend : "\x7d".toList = ['}'] := rfl
  delta backfillUpdate AddCommit.backfillTexts
  cases c.backfill_version with
  | none => rfl
  | some backfill_version =>
    rw [Option.map_some, Option.map_some, Option.getD_some, Option.toList_some, haction,
      hversion, hend, List.flatMap_singleton, objectText_cons, List.flatMap_singleton]
    simp only [List.append_assoc]

/-- The body that is put together by format strings is the text of one JSON object, of which the
rest of this module speaks. -/
theorem UCAPI.updateTableBody_eq (c : AddCommit) : UCAPI.updateTableBody c =
    String.ofList c.text := by
  have hrequirements : "\x7b\"requirements\": [".toList =
      ['{'] ++ (keyText "requirements" ++ ['[']) := by
    decide +kernel
  have hupdates : "], \"updates\": [".toList =
      [']'] ++ ([',', ' '] ++ (keyText "updates" ++ ['['])) := by
    decide +kernel
  have hadd : "\x7b\"action\": \"add-commit\", \"commit\": ".toList =
      ['{'] ++
        (keyText "action" ++ (writeString "add-commit" ++ ([',', ' '] ++ keyText "commit"))) := by
    decide +kernel
  have hend : "\x7d".toList = ['}'] := rfl
  have hclose : "]\x7d".toList = [']'] ++ ['}'] := rfl
  delta UCAPI.updateTableBody AddCommit.text AddCommit.addText
  rw [uuidReq_eq, etagReq_eq, commitFormat_eq, backfillUpdate_eq, hrequirements, hupdates, hadd,
    hend, hclose, objectText_cons, objectText_cons, arrayText_cons, List.flatMap_singleton,
    List.flatMap_singleton, arrayText_cons]
  simp only [List.append_assoc]

/-! ### What is read of it -/

/-- A number is printed in decimal and read as the signed number of the same 64 bits. -/
theorem reads_numberText (n : ℕ) : Reads (numberText n) (some (.num (Num.ofInt (int64 n)))) := by
  have hlow : -2 ^ 63 ≤ int64 n := Int.le_bmod (x := n) (Nat.two_pow_pos 64)
  have hhigh : int64 n < 2 ^ 63 := Int.bmod_lt (x := n) (Nat.two_pow_pos 64)
  delta numberText
  exact reads_int hlow hhigh

/-- A text put between quotes as it stands is read back if nothing in it would have needed an
escape. -/
theorem reads_rawString {s : String} (h : ∀ c ∈ s.toList, Plain c) :
    Reads (rawString s) (some (.str s)) :=
  reads_plain h

/-- The requirements are read as written if the table's id is plain; the etag is escaped and may be
anything. -/
theorem AddCommit.reads_requirements {c : AddCommit} (hid : ∀ ch ∈ c.table_id.toList, Plain ch) :
    Reads (arrayText [' '] (c.uuidText :: c.etagTexts)) (some c.requirements) := by
  refine reads_array isSpace_of_mem_gap (.cons ?_ ?_)
  · exact reads_fields isSpace_of_mem_gap <|
      .cons _ (reads_writeString "assert-table-uuid") <| .cons _ (reads_rawString hid) .nil
  · rw [AddCommit.etagTexts]
    split
    · exact .nil
    · exact .cons (reads_fields isSpace_of_mem_gap <|
        .cons _ (reads_writeString "assert-etag") <| .cons _ (reads_writeString c.etag) .nil) .nil

/-- The entry of the commit is read as written if the file's name is plain. -/
theorem AddCommit.reads_entry {c : AddCommit} (hname : ∀ ch ∈ c.file_name.toList, Plain ch) :
    Reads c.entryText (some (c.entry int64)) :=
  reads_fields isSpace_of_mem_gap <|
    .cons _ (reads_numberText c.version) <| .cons _ (reads_numberText c.timestamp) <|
    .cons _ (reads_rawString hname) <| .cons _ (reads_numberText c.file_size) <|
    .cons _ (reads_numberText c.file_modification_timestamp) .nil

/-- The updates are read as written: the commit, and behind it the backfilled version where one is
told. -/
theorem AddCommit.reads_updates {c : AddCommit} (hname : ∀ ch ∈ c.file_name.toList, Plain ch) :
    Reads (arrayText [' '] (c.addText :: c.backfillTexts)) (some (c.updates int64)) := by
  refine reads_array isSpace_of_mem_gap (.cons ?_ ?_)
  · exact reads_fields isSpace_of_mem_gap <|
      .cons _ (reads_writeString "add-commit") <| .cons _ (AddCommit.reads_entry hname) .nil
  · rw [AddCommit.backfillTexts]
    cases c.backfill_version with
    | none => exact .nil
    | some backfill_version =>
      exact .cons (reads_fields isSpace_of_mem_gap <|
        .cons _ (reads_writeString "set-latest-backfilled-version") <|
        .cons _ (reads_numberText backfill_version) .nil) .nil

/-- Of a commit with nothing to escape, the body says what it is made of, with the numbers as
sent. -/
theorem UCAPI.read_updateTableBody {c : AddCommit} (hid : ∀ ch ∈ c.table_id.toList, Plain ch)
    (hname : ∀ ch ∈ c.file_name.toList, Plain ch) :
    read (UCAPI.updateTableBody c) = some (c.value int64) := by
  rw [UCAPI.updateTableBody_eq]
  have htext : Reads c.text (some (c.value int64)) := reads_fields isSpace_of_mem_gap <|
    .cons _ (AddCommit.reads_requirements hid) <| .cons _ (AddCommit.reads_updates hname) .nil
  exact htext.read

/-! ### What cannot be said -/

/-- What stands in front of a member's value: the members before it and its key. An error in the
value is met there. -/
theorem frame_member (before : List (String × List Char)) (key : String) :
    (Frame.member before key).text [' '] =
      ['{'] ++ ((before.flatMap fun m => keyText m.1 ++ (m.2 ++ [',', ' '])) ++ keyText key) := by
  simp [Frame.text, memberText, keyText]

theorem frame_item : (Frame.item []).text [' '] = ['['] := rfl

theorem keyText_cons (key : String) :
    keyText key = ['"'] ++ (key.toList.flatMap escapeChar ++ ['"', ':', ' ']) := by
  simp [keyText, writeString]

/-- The place of `uuid`. -/
def AddCommit.uuidPlace : List Frame :=
  [.member [] "requirements", .item [], .member [("type", writeString "assert-table-uuid")] "uuid"]

/-- The place of `file-name`. -/
def AddCommit.namePlace (c : AddCommit) : List Frame :=
  [.member [("requirements", arrayText [' '] (c.uuidText :: c.etagTexts))] "updates", .item [],
    .member [("action", writeString "add-commit")] "commit",
    .member [("version", numberText c.version), ("timestamp", numberText c.timestamp)] "file-name"]

theorem readable_nil (key : String) : (Frame.member [] key).Readable := List.forall_mem_nil _

/-- The frame around an item of an array can be read up to it. -/
theorem readable_item : (Frame.item []).Readable := List.forall_mem_nil _

/-- All that stands in front of the table's id can be read. -/
theorem AddCommit.readable_uuidPlace : ∀ f ∈ AddCommit.uuidPlace, f.Readable :=
  List.forall_mem_cons.2 ⟨readable_nil _,
    List.forall_mem_cons.2 ⟨readable_item, List.forall_mem_singleton.2
    (List.forall_mem_singleton.2 ⟨_, reads_writeString "assert-table-uuid"⟩)⟩⟩

/-- All that stands in front of the file's name can be read once the id can be. -/
theorem AddCommit.readable_namePlace {c : AddCommit} (hid : ∀ ch ∈ c.table_id.toList, Plain ch) :
    ∀ f ∈ c.namePlace, f.Readable := by
  refine List.forall_mem_cons.2 ⟨?_,
    List.forall_mem_cons.2 ⟨readable_item,
      List.forall_mem_cons.2 ⟨?_, List.forall_mem_singleton.2 ?_⟩⟩⟩
  · exact List.forall_mem_singleton.2 ⟨_, AddCommit.reads_requirements hid⟩
  · exact List.forall_mem_singleton.2 ⟨_, reads_writeString "add-commit"⟩
  · exact List.forall_mem_cons.2 ⟨⟨_, reads_numberText c.version⟩,
      List.forall_mem_singleton.2 ⟨_, reads_numberText c.timestamp⟩⟩

/-- The body cut at the table's id, which stands between its quotes as it is: whatever is in it
comes to the reader unescaped. -/
theorem AddCommit.text_uuid (c : AddCommit) : ∃ mid tail, (∀ ch ∈ mid, ch ≠ '"' ∧ ch ≠ '\\') ∧
    c.text = (AddCommit.uuidPlace.flatMap fun f => f.text [' ']) ++
      (['"'] ++ (c.table_id.toList ++ (['"'] ++ (mid ++ (['"'] ++ tail))))) := by
  rw [AddCommit.text, objectText_cons, arrayText_cons, AddCommit.uuidText, objectText_cons,
    AddCommit.etagTexts, AddCommit.uuidPlace]
  split
  · refine ⟨['}', ']', ',', ' '], ?_⟩
    apply Exists.intro
    refine ⟨by simp, ?_⟩
    simp only [List.flatMap_cons, List.flatMap_nil, frame_member, frame_item, rawString,
      keyText_cons "updates", List.append_assoc, List.append_nil, List.nil_append, List.cons_append]
    rfl
  · refine ⟨['}', ',', ' ', '{'], ?_⟩
    apply Exists.intro
    refine ⟨by simp, ?_⟩
    simp only [List.flatMap_cons, List.flatMap_nil, frame_member, frame_item, rawString,
      keyText_cons "type", objectText_cons, List.append_assoc, List.append_nil, List.nil_append,
      List.cons_append]
    rfl

/-- The body cut at the file's name, which stands between its quotes as it is too. -/
theorem AddCommit.text_name (c : AddCommit) : ∃ mid tail, (∀ ch ∈ mid, ch ≠ '"' ∧ ch ≠ '\\') ∧
    c.text = (c.namePlace.flatMap fun f => f.text [' ']) ++
      (['"'] ++ (c.file_name.toList ++ (['"'] ++ (mid ++ (['"'] ++ tail))))) := by
  refine ⟨[',', ' '], ?_⟩
  apply Exists.intro
  refine ⟨by simp, ?_⟩
  rw [AddCommit.text, objectText_cons, List.flatMap_singleton, arrayText_cons c.addText,
    AddCommit.addText, AddCommit.entryText, AddCommit.namePlace]
  simp only [List.flatMap_cons, List.flatMap_nil, frame_member, frame_item, rawString,
      keyText_cons "file-size", objectText_cons, List.append_assoc, List.append_nil]
  rfl

/-- A number is sent as it is exactly if it fits `int64_t`. -/
theorem ofInt_int64_iff {n : ℕ} : Num.ofInt (int64 n) = Num.ofInt n ↔ n < 2 ^ 63 := by
  have hlow : -2 ^ 63 ≤ int64 n := Int.le_bmod (x := n) (Nat.two_pow_pos 64)
  have hhigh : int64 n < 2 ^ 63 := Int.bmod_lt (x := n) (Nat.two_pow_pos 64)
  constructor
  · intro h
    by_contra hn
    generalize int64 n = v at h hlow hhigh
    by_cases hsmall : n < 2 ^ 64
    · rw [Num.ofInt_natCast hsmall, Num.ofInt] at h
      split at h
      · -- the number that is sent is below `2 ^ 63`
        have hv : v.toNat = n := congrArg Fin.val (Num.uint.inj h)
        omega
      · split at h <;> cases h
    · have hneg : (-(n : ℤ)).toNat < 2 ^ 63 + 1 := by omega
      have hbig : Num.ofInt n = .sint ⟨(-(n : ℤ)).toNat, hneg⟩ := by
        rw [Num.ofInt, dif_neg (fun h' => hsmall h'.2), dif_pos hneg]
      rw [hbig, Num.ofInt] at h
      split at h
      · cases h
      · split at h
        · have hv : (-v).toNat = (-(n : ℤ)).toNat := congrArg Fin.val (Num.sint.inj h)
          omega
        · cases h
  · intro h
    rw [int64_eq (by omega), if_pos h]

/-- All numbers fit. -/
structure AddCommit.Small (c : AddCommit) : Prop where
  version : c.version < 2 ^ 63
  timestamp : c.timestamp < 2 ^ 63
  file_size : c.file_size < 2 ^ 63
  file_modification_timestamp : c.file_modification_timestamp < 2 ^ 63
  backfill_version : ∀ v ∈ c.backfill_version, v < 2 ^ 63

/-- The numbers are what they were exactly if none of them is too large for its sign. -/
theorem AddCommit.value_eq_iff {c : AddCommit} :
    c.value int64 = c.value (fun n => n) ↔ c.Small := by
  constructor
  · intro h
    simp only [AddCommit.value, AddCommit.updates, AddCommit.entry, Val.obj.injEq, Val.arr.injEq,
      Val.num.injEq, List.cons.injEq, Prod.mk.injEq, ofInt_int64_iff, true_and, and_true] at h
    obtain ⟨⟨hversion, htimestamp, hsize, hmodified⟩, hbackfill⟩ := h
    refine ⟨hversion, htimestamp, hsize, hmodified, fun v hv => ?_⟩
    rw [Option.mem_def.1 hv] at hbackfill
    simp only [Option.map_some, Option.toList_some, Val.obj.injEq, Val.num.injEq, List.cons.injEq,
      Prod.mk.injEq, true_and, and_true] at hbackfill
    exact ofInt_int64_iff.1 hbackfill
  · intro h
    simp only [AddCommit.value, AddCommit.updates, AddCommit.entry, ofInt_int64_iff.2 h.version,
      ofInt_int64_iff.2 h.timestamp, ofInt_int64_iff.2 h.file_size,
      ofInt_int64_iff.2 h.file_modification_timestamp]
    cases hbackfill : c.backfill_version with
    | none => simp only [Option.map_none]
    | some v => simp only [Option.map_some, ofInt_int64_iff.2 (h.backfill_version v hbackfill)]

/-- **`UpdateTable`.** The body says of a commit what is meant exactly if nothing in the table's id
and in the file's name has to be escaped and all numbers fit. -/
theorem UCAPI.read_updateTableBody_iff (c : AddCommit) :
    read (UCAPI.updateTableBody c) = some (c.value fun n => n) ↔
      (∀ ch ∈ c.table_id.toList, Plain ch) ∧ (∀ ch ∈ c.file_name.toList, Plain ch) ∧ c.Small := by
  constructor
  · intro h
    have hread := h
    rw [UCAPI.updateTableBody_eq] at hread
    have hid : ∀ ch ∈ c.table_id.toList, Plain ch := by
      obtain ⟨mid, tail, hmid, htext⟩ := c.text_uuid
      rw [htext] at hread
      exact plain_of_read isSpace_of_mem_gap AddCommit.readable_uuidPlace hmid hread rfl
    have hname : ∀ ch ∈ c.file_name.toList, Plain ch := by
      obtain ⟨mid, tail, hmid, htext⟩ := c.text_name
      rw [htext] at hread
      exact plain_of_read isSpace_of_mem_gap (AddCommit.readable_namePlace hid) hmid hread rfl
    rw [UCAPI.read_updateTableBody hid hname] at h
    exact ⟨hid, hname, AddCommit.value_eq_iff.1 (Option.some.inj h)⟩
  · rintro ⟨hid, hname, hsmall⟩
    rw [UCAPI.read_updateTableBody hid hname, AddCommit.value_eq_iff.2 hsmall]

/-! ## Temporary credentials -/

/-- The body that asks for credentials of a table UC does not manage the commits of names the table
exactly if nothing in its id has to be escaped. -/
theorem UCAPI.read_credentialsBody_iff (catalog_name schema_name table_name table_id : String)
    (write : Bool) (credentials : UCCredentials) :
    ∃ body, (tableCredentialsRequest catalog_name schema_name table_name table_id
        (if write then "READ_WRITE" else "READ") false credentials).2 = .text body ∧
      (read body = some (.obj [("table_id", .str table_id),
        ("operation", .str (if write then "READ_WRITE" else "READ"))]) ↔ ∀ ch ∈ table_id.toList,
          Plain ch) := by
  have hoperation : ∀ ch ∈ (if write then "READ_WRITE" else "READ").toList, Plain ch := by
    cases write <;> simp [Plain]
  generalize (if write then "READ_WRITE" else "READ") = operation at hoperation
  refine ⟨_, rfl, ?_⟩
  have htext : "\x7b\"table_id\": \"" ++ table_id ++ "\", \"operation\": \"" ++ operation ++
    "\"\x7d" =
      String.ofList (objectText [' '] [("table_id", rawString table_id),
        ("operation", rawString operation)]) := by
    have hid : "\x7b\"table_id\": \"".toList = ['{'] ++ (keyText "table_id" ++ ['"']) :=
      by decide +kernel
    have hoperation : "\", \"operation\": \"".toList =
        ['"'] ++ ([',', ' '] ++ (keyText "operation" ++ ['"'])) := by
      decide +kernel
    have hend : "\"\x7d".toList = ['"'] ++ ['}'] := rfl
    rw [← String.toList_inj, String.toList_ofList, String.toList_append, String.toList_append,
      String.toList_append, String.toList_append, hid, hoperation, hend, objectText_cons,
      List.flatMap_singleton]
    simp only [rawString, List.append_assoc]
  rw [htext]
  constructor
  · intro h
    have hmid : ∀ ch ∈ [',', ' '], ch ≠ '"' ∧ ch ≠ '\\' := by simp
    have hplace : ∀ f ∈ [Frame.member [] "table_id"], f.Readable :=
      List.forall_mem_singleton.2 (readable_nil _)
    have hread :
      read (String.ofList (([Frame.member [] "table_id"].flatMap fun f => f.text [' ']) ++
        '"' ::
          (table_id.toList ++ '"' :: ([',', ' '] ++ '"' :: ("operation".toList.flatMap escapeChar ++
          (['"', ':', ' '] ++ (rawString operation ++ ['}'])))))))
        = some (.obj [("table_id", .str table_id), ("operation", .str operation)]) := by
      rw [← h, objectText_cons, List.flatMap_singleton, List.flatMap_singleton, frame_member,
        keyText_cons "operation"]
      simp [rawString]
    exact plain_of_read isSpace_of_mem_gap hplace hmid hread rfl
  · intro hid
    have hbody :
      Reads (objectText [' '] [("table_id", rawString table_id),
      ("operation", rawString operation)])
        (some (.obj [("table_id", .str table_id), ("operation", .str operation)])) :=
      reads_fields isSpace_of_mem_gap <| .cons _ (reads_rawString hid) <|
        .cons _ (reads_rawString hoperation) .nil
    exact hbody.read

/-! ## A commit's way through UC -/

/-- The commit that a body asks to add. -/
def addedCommit (root : Option Val) : Option Val :=
  (items (objGet root "updates")).findSome? fun update =>
    if getStr (objGet (some update) "action") = some "add-commit" then objGet (some update) "commit"
      else none

/-- The server finds the commit's entry where the body has it. -/
theorem addedCommit_value (c : AddCommit) (number : ℕ → ℤ) :
    addedCommit (some (c.value number)) = some (c.entry number) := rfl

/-- The name cut off a staged file's path is the name it was given, if that has no separator. -/
theorem baseName_staged {directory name : String}
    (hname : ∀ ch ∈ name.toList, ch ≠ '/' ∧ ch ≠ '\\') :
    baseName (directory ++ "/" ++ name) = name := by
  have htake : (name.toList.reverse ++ ('/' :: directory.toList.reverse)).takeWhile
      (fun c => decide (c ≠ '/' ∧ c ≠ '\\')) = name.toList.reverse := by
    rw [List.takeWhile_append_of_pos]
    · simp
    · intro ch hch
      simpa using hname ch (List.mem_reverse.1 hch)
  rw [baseName, String.toList_append, String.toList_append, List.reverse_append,
    List.reverse_append]
  show String.ofList
    ((name.toList.reverse ++ ('/' :: directory.toList.reverse)).takeWhile _).reverse = name
  rw [htake, List.reverse_reverse, String.ofList_toList]

/-- A number below `2 ^ 63` is read as it was printed. -/
theorem tryGetNum_number {obj : Option Val} {field : String} {n : ℕ}
    (h : objGet obj field = some (.num (Num.ofInt (int64 n)))) (hn : n < 2 ^ 63) :
    tryGetNumFromObject obj field = .ok n := by
  have hsmall : n < 2 ^ 64 := by omega
  rw [ofInt_int64_iff.2 hn, Num.ofInt_natCast hsmall] at h
  simp only [tryGetNumFromObject, templatedTryGetYYJson, h]
  rfl

/-- A plain text has no NUL, and is read whole. -/
theorem tryGetStr_plain {obj : Option Val} {field s : String} (h : objGet obj field = some (.str s))
    (hs : ∀ ch ∈ s.toList, Plain ch) : tryGetStrFromObject obj field = .ok s := by
  have hnul : NulFree s := fun hmem => absurd (hs _ hmem).2.2 (by decide)
  simp only [tryGetStrFromObject, templatedTryGetYYJson, h]
  exact congrArg Except.ok (cString_eq_self.2 hnul)

/-- Below `2 ^ 63` the sign bit is not in use. -/
theorem int64_of_small {n : ℕ} (hn : n < 2 ^ 63) : int64 n = n := by
  rw [int64_eq (by omega), if_pos hn]

/-- What `LoadTable` reads of it, where UC lists it as it was posted. -/
theorem readCommit_entry {c : AddCommit} (hname : ∀ ch ∈ c.file_name.toList, Plain ch)
    (hsmall : c.Small) :
    readCommit (some (c.entry int64)) =
      .ok ⟨c.version, c.timestamp, c.file_name, c.file_size, c.file_modification_timestamp⟩ := by
  rw [readCommit, tryGetNum_number rfl hsmall.version, tryGetNum_number rfl hsmall.timestamp,
    tryGetStr_plain rfl hname, tryGetNum_number rfl hsmall.file_size,
    tryGetNum_number rfl hsmall.file_modification_timestamp]
  show Except.ok _ = Except.ok _
  rw [int64_of_small hsmall.timestamp, int64_of_small hsmall.file_size,
    int64_of_small hsmall.file_modification_timestamp]

/-- A commit that is staged where the table's commits are, under a name with nothing to escape. -/
structure TableInformation.Stages (t : TableInformation) (res : StagedCommit) (cs : UCCommitState) :
    Prop where
  path : ∃ name, res.commit_file_path = t.stagedPath name ∧ ∀ ch ∈ name.toList, ch ≠ '/' ∧ Plain ch
  small : (t.addCommit res cs).Small

variable {t : TableInformation} {res : StagedCommit} {cs : UCCommitState}

/-- What is posted for a staged file names it, and its path is found again from the name. -/
theorem TableInformation.Stages.file_name (h : t.Stages res cs) :
    (∀ ch ∈ (t.addCommit res cs).file_name.toList, Plain ch) ∧
      t.stagedPath (t.addCommit res cs).file_name = res.commit_file_path := by
  obtain ⟨name, hpath, hname⟩ := h.path
  have hbase : (t.addCommit res cs).file_name = name := by
    have hdirectory : t.stagedPath name =
        t.table_data.storage_location ++ "/_delta_log/_staged_commits" ++ "/" ++ name := by
      have hsplit : "/_delta_log/_staged_commits/" = "/_delta_log/_staged_commits" ++ "/" :=
        by decide +kernel
      rw [TableInformation.stagedPath, hsplit, ← String.append_assoc]
    show baseName res.commit_file_path = name
    rw [hpath, hdirectory]
    exact baseName_staged fun ch hch => ⟨(hname ch hch).1, (hname ch hch).2.2.1⟩
  rw [hbase]
  exact ⟨fun ch hch => (hname ch hch).2, hpath.symm⟩

/-- What the log tail says of a staged commit. -/
def StagedCommit.inLogTail (res : StagedCommit) : Value :=
  .struct [("version", .bigint res.version), ("timestamp", .bigint res.commit_timestamp),
    ("file_name", .varchar res.commit_file_path), ("file_size", .bigint res.commit_file_size),
    ("file_modification_timestamp", .bigint res.file_modification_timestamp)]

/-- A staged commit, posted and listed as it was posted. -/
theorem TableInformation.Stages.listed (hid : ∀ ch ∈ t.table_data.table_id.toList, Plain ch)
    (h : t.Stages res cs) :
    ∃ entry c, addedCommit (read (UCAPI.updateTableBody (t.addCommit res cs))) = some entry ∧
      readCommit (some entry) = .ok c ∧ t.stagedPath c.file_name = res.commit_file_path ∧
      logTailCommit t.table_data.storage_location c = res.inLogTail := by
  obtain ⟨hname, hpath⟩ := h.file_name
  have hversion : res.version < 2 ^ 63 := h.small.version
  refine ⟨(t.addCommit res cs).entry int64, _, ?_, readCommit_entry hname h.small, hpath, ?_⟩
  · rw [UCAPI.read_updateTableBody hid hname, addedCommit_value]
  · rw [StagedCommit.inLogTail, ← hpath, logTailCommit]
    simp only [TableInformation.addCommit, int64_of_small hversion, TableInformation.stagedPath]

/-- **Staged commits come back.** The commits that sessions have staged and posted, listed by UC as
they were posted, in any order, are handed to Delta with the values and the paths it staged them
with. -/
theorem staged_commits_come_back (hid : ∀ ch ∈ t.table_data.table_id.toList, Plain ch)
    {posted : List (StagedCommit × UCCommitState)} (hposted : ∀ p ∈ posted, t.Stages p.1 p.2)
    {catalog_name schema_name table_name : String} {root : Option Val} {result : UCAPICommitsResult}
    (hlisted : (items (objGet root "commits")).map some =
      posted.map fun p => addedCommit (read (UCAPI.updateTableBody (t.addCommit p.1 p.2))))
    (hload : decodeLoadTable catalog_name schema_name table_name root = .ok result) :
    buildLogTailFromCommits result t.table_data.storage_location =
        .list (posted.map fun p => p.1.inLogTail) ∧
      result.commits.map (fun c => t.stagedPath c.file_name) =
        posted.map fun p => p.1.commit_file_path := by
  have hcommits := decodeLoadTable_commits hload
  rw [buildLogTailFromCommits]
  generalize items (objGet root "commits") = entries at hlisted hcommits
  generalize result.commits = commits at hcommits
  induction posted generalizing entries commits with
  | nil =>
    obtain rfl := List.map_eq_nil_iff.1 hlisted
    obtain rfl := Except.ok.inj hcommits
    exact ⟨rfl, rfl⟩
  | cons p posted ih =>
    obtain ⟨hp, hrest⟩ := List.forall_mem_cons.1 hposted
    obtain ⟨entry, c, hentry, hread, hpath, htail⟩ := hp.listed hid
    cases entries with
    | nil => cases hlisted
    | cons e entries =>
      obtain ⟨he, hlisted⟩ := List.cons.inj hlisted
      obtain rfl := Option.some.inj (he.trans hentry)
      rw [List.mapM_cons, hread] at hcommits
      obtain ⟨_, hfirst, hcommits⟩ := except_bind_eq_ok.1 hcommits
      obtain rfl := Except.ok.inj hfirst
      obtain ⟨cs, hcs, hcons⟩ := except_bind_eq_ok.1 hcommits
      obtain rfl := Except.ok.inj hcons
      obtain ⟨htails, hpaths⟩ := ih hrest entries hlisted cs hcs
      refine ⟨?_, ?_⟩
      · rw [List.map_cons, List.map_cons, htail, Value.list.inj htails]
      · rw [List.map_cons, List.map_cons, hpath, hpaths]

/-- Two staged commits of the example table; the second was posted after a load that found version 0
published. -/
def examplePosted : List (StagedCommit × UCCommitState) :=
  [(⟨"/t/_delta_log/_staged_commits/2.v.json", 11, 21, 2, 31⟩, ⟨"e\"1", some 0⟩),
    (⟨"/t/_delta_log/_staged_commits/1.u.json", 10, 20, 1, 30⟩, {})]

theorem examplePosted_stages : ∀ p ∈ examplePosted, exampleTable.Stages p.1 p.2 := by
  rw [examplePosted]
  refine List.forall_mem_cons.2 ⟨⟨⟨"2.v.json", by decide, by simp [Plain]⟩, ?_⟩,
    List.forall_mem_singleton.2 ⟨⟨"1.u.json", by decide, by simp [Plain]⟩, ?_⟩⟩
  · refine ⟨by decide, by decide, by decide, by decide, fun v hv => ?_⟩
    obtain rfl := Option.some.inj (Option.mem_def.1 hv)
    decide
  · refine ⟨by decide, by decide, by decide, by decide, fun v hv => ?_⟩
    cases hv

/-- What UC answers that lists them, the latest first. -/
def exampleListing : Val :=
  .obj [("commits", .arr (examplePosted.map fun p => (exampleTable.addCommit p.1 p.2).entry int64))]

theorem staged_commits_come_back_example : ∃ result,
    decodeLoadTable "c" "s" "t" (some exampleListing) = .ok result ∧
      buildLogTailFromCommits result "/t" = .list (examplePosted.map fun p => p.1.inLogTail) ∧
      result.commits.map (fun c => exampleTable.stagedPath c.file_name) =
        ["/t/_delta_log/_staged_commits/2.v.json", "/t/_delta_log/_staged_commits/1.u.json"] := by
  have hid : ∀ ch ∈ exampleTable.table_data.table_id.toList, Plain ch :=
    by simp [exampleTable, Plain]
  have hlisted : (items (objGet (some exampleListing) "commits")).map some =
    examplePosted.map fun p =>
      addedCommit (read (UCAPI.updateTableBody (exampleTable.addCommit p.1 p.2))) := by
    refine List.map_map.trans (List.map_congr_left fun p hp => ?_)
    rw [UCAPI.read_updateTableBody hid (examplePosted_stages p hp).file_name.1, addedCommit_value]
    rfl
  obtain ⟨result, hload⟩ : ∃ result, decodeLoadTable "c" "s" "t" (some exampleListing) =
    .ok result := by
    have hok : (decodeLoadTable "c" "s" "t" (some exampleListing)).isOk = true := by decide +kernel
    cases h : decodeLoadTable "c" "s" "t" (some exampleListing) with
    | ok result => exact ⟨result, rfl⟩
    | error e => simp [h, Except.isOk, Except.toBool] at hok
  exact ⟨result, hload, staged_commits_come_back hid examplePosted_stages hlisted hload⟩

end UnityCatalog
