import UnityCatalog.ScanSecrets
import UnityCatalog.TableSet

/-!
# The secret of a table

`TableInformation::RefreshCredentials` and `StageCredentials` ask the catalog for keys and create a
temporary secret of them, named by the table's id and scoped to its location; a later one of the
same id replaces it. `latest_keys_are_used` says which keys the files of the table are read with
from then on, whatever else is performed, until a secret of that name is created again.
-/

namespace UnityCatalog

open Effectful Yyjson

/-! ## Getting keys -/

/-- The calls that get keys for a table. -/
inductive TableLogin where
  | refreshCredentials (table : TableInformation)
  | stageCredentials (set : UCTableSet) (staging : UCAPIStagingTable)

namespace TableLogin

/-- The call. -/
def program : TableLogin → Run Unit
  | refreshCredentials table => table.refreshCredentials
  | stageCredentials set staging => UnityCatalog.stageCredentials set staging

/-- What it asks the catalog for. -/
def fetch : TableLogin → Run UCAPITableCredentials
  | refreshCredentials table => UCAPI.getTableCredentials table.table_data.catalog_name
      table.table_data.schema_name table.table_data.name table.table_data.table_id
      table.isCatalogManaged (!table.read_only) table.credentials
  | stageCredentials set staging =>
    UCAPI.getStagingTableCredentials staging.table_id set.credentials

/-- The id the secret is named by. -/
def table_id : TableLogin → String
  | refreshCredentials table => table.table_data.table_id
  | stageCredentials _ staging => staging.table_id

/-- What the secret is scoped to. -/
def location : TableLogin → String
  | refreshCredentials table => table.table_data.storage_location
  | stageCredentials _ staging => staging.location

/-- The region of the attached catalog. -/
def region : TableLogin → String
  | refreshCredentials table => table.credentials.aws_region
  | stageCredentials set _ => set.credentials.aws_region

variable (x : TableLogin)

/-- Local storage needs no keys. -/
def Local : Prop := "file://".toList.isPrefixOf x.location.toList = true

instance decidableLocal : Decidable x.Local := inferInstanceAs (Decidable (_ = true))

/-- The secret's name. -/
def secretName : String := "__internal_uc_" ++ x.table_id

/-- The secret of some keys. -/
def secret (credentials : UCAPITableCredentials) : CreateSecretInput where
  name := x.secretName
  options := [("key_id", credentials.key_id), ("secret", credentials.secret),
    ("session_token", credentials.session_token), ("region", x.region)]
  scope := x.location

/-- Both calls are the same, but for what they ask. -/
theorem program_eq (h : ¬ x.Local) :
    x.program = x.fetch.bind fun credentials => createSecret (x.secret credentials) := by
  cases x with
  | refreshCredentials table =>
    rw [program, TableInformation.refreshCredentials]
    exact if_neg h
  | stageCredentials set staging =>
    rw [program, UnityCatalog.stageCredentials]
    exact if_neg h

theorem fetch_uses : x.fetch.Uses fun op : Op => ∀ input, op ≠ .createSecret input := by
  have hrequest (url token : String) (body : RequestBody) :
      (makeRequest url token body).Uses fun op : Op => ∀ input, op ≠ .createSecret input :=
    TableInformation.uses_makeRequest (by simp) (by simp) (by simp)
  cases x with
  | refreshCredentials table => exact (hrequest _ _ _).bind fun _ => Prog.uses_ofExcept _
  | stageCredentials set staging => exact (hrequest _ _ _).bind fun _ => Prog.uses_ofExcept _

/-- The directory the table's files are in. -/
def directory : List Char :=
  if x.location.toList.getLast? = some '/' then x.location.toList else x.location.toList ++ ['/']

theorem location_prefix : x.location.toList <+: x.directory := by
  rw [directory]
  split
  · exact List.prefix_rfl
  · exact List.prefix_append _ _

theorem directory_length : x.directory.length ≤ x.location.toList.length + 1 := by
  rw [directory]
  split <;> simp

/-- The files of the table are read with the keys. -/
def ReadWith (credentials : UCAPITableCredentials) (secrets : List CreateSecretInput) : Prop :=
  ∀ path, x.directory <+: path → ∀ e, LongestPrefix.Best (scopedKeys secrets) path e →
    e.2 = (x.secret credentials).options

/-- A secret may be taken for a file of the table: its scope lies in the table's directory, or is
the table's location and no scope is the directory. -/
def Competes (secrets : List CreateSecretInput) (secret : CreateSecretInput) : Prop :=
  x.directory <+: secret.scope.toList ∨
    secret.scope = x.location ∧ ∀ secret' ∈ secrets, secret'.scope.toList ≠ x.directory

instance decidableCompetes (secrets : List CreateSecretInput) (secret : CreateSecretInput) :
    Decidable (x.Competes secrets secret) := inferInstanceAs (Decidable (_ ∨ _))

/-- With the table's own secret there, the keys are used exactly if no other secret competes. -/
theorem readWith_iff {credentials : UCAPITableCredentials} {secrets : List CreateSecretInput}
    (hown : x.secret credentials ∈ secrets) :
    x.ReadWith credentials secrets ↔ ∀ secret ∈ secrets, x.Competes secrets secret →
      secret.options = (x.secret credentials).options := by
  rw [ReadWith, LongestPrefix.answers_iff (E := scopedKeys secrets) ⟨_, hown, rfl⟩
    x.location_prefix x.directory_length]
  simp only [scopedKeys, Set.mem_ofPred_eq, Competes]
  constructor
  · intro h secret hsecret hcompetes
    refine h _ ⟨secret, hsecret, rfl⟩ (hcompetes.imp_right fun hsame => ?_)
    refine ⟨congrArg String.toList hsame.1, ?_⟩
    rintro _ ⟨secret', hsecret', rfl⟩
    exact hsame.2 secret' hsecret'
  · rintro h _ ⟨secret, hsecret, rfl⟩ hcompetes
    refine h secret hsecret (hcompetes.imp_right fun hsame => ?_)
    exact ⟨String.toList_inj.1 hsame.1, fun secret' hsecret' => hsame.2 _ ⟨secret', hsecret', rfl⟩⟩

end TableLogin

/-! ## What is performed later -/

section

variable {S : SecretKeeping} {x : TableLogin} {c : S.world.Ctx} {s s' s₁ s₂ : S.world.State}

/-- Operations performed by anybody, none of which creates a secret of that name. -/
inductive SecretKeeping.Sparing (S : SecretKeeping) (name : String) :
    S.world.State → S.world.State → Prop where
  | start (s : S.world.State) : Sparing S name s s
  | perform {s s₁ s₂ : S.world.State} {c : S.world.Ctx} {op : Op} {ch : S.world.Choice}
      {r : Except Exception op.Ans} : Sparing S name s s₁ →
      (∀ input, op = .createSecret input → identifier input.name ≠ identifier name) →
      S.world.answer c s₁ op ch = some (r, s₂) → Sparing S name s s₂

/-- They leave the secret of that name. -/
theorem SecretKeeping.Sparing.secrets {name : String} (h : S.Sparing name s s')
    {secret : CreateSecretInput} (hname : identifier secret.name = identifier name) :
    secret ∈ S.secrets s' ↔ secret ∈ S.secrets s := by
  induction h with
  | start => rfl
  | @perform s₁ s₂ c op ch r _ hop ha ih =>
    rw [← ih]
    by_cases hcreate : ∃ input, op = .createSecret input
    · obtain ⟨input, rfl⟩ := hcreate
      have hne := hop input rfl
      rcases S.create _ _ _ _ _ _ ha with ⟨-, hs⟩ | ⟨-, hs⟩
      · rw [hs, replaceSecret, List.mem_cons, List.mem_filter, bne_iff_ne]
        constructor
        · rintro (rfl | hmem)
          · exact absurd hname hne
          · exact hmem.1
        · exact fun hmem => .inr ⟨hmem, fun heq => hne (heq.symm.trans hname)⟩
      · rw [hs]
    · rw [S.other _ _ _ _ _ _ (fun input heq => hcreate ⟨input, heq⟩) ha]

/-- Whole calls that create none, as well. -/
theorem SecretKeeping.Sparing.exec {name : String} {α : Type} {p : Run α} {r : Except Exception α}
    (h : S.Sparing name s s₁)
    (hp : p.Uses fun op : Op => ∀ input, op = .createSecret input →
      identifier input.name ≠ identifier name)
    (hexec : p.Exec c s₁ r s₂) : S.Sparing name s s₂ := by
  refine Prog.Exec.frame (I := S.Sparing name s) hp ?_ hexec h
  intro s₁ op ch x s₂ hop hs ha
  exact hs.perform hop ha

/-- A call that gets keys leaves one secret of its name, of the keys it was given. -/
theorem TableLogin.exec_program (hremote : ¬ x.Local) (h : x.program.Exec c s (.ok ()) s') :
    ∃ credentials, (∃ s₀, x.fetch.Exec c s (.ok credentials) s₀) ∧
      S.secrets s' = replaceSecret (S.secrets s) (x.secret credentials) := by
  rw [x.program_eq hremote] at h
  rcases Prog.exec_bind.1 h with ⟨credentials, s₀, hfetch, hcreate⟩ | ⟨e, -, he⟩
  · obtain ⟨ch, ha⟩ := Prog.exec_perform.1 hcreate
    rcases S.create _ _ _ _ _ _ ha with ⟨-, hs⟩ | ⟨⟨e, he⟩, -⟩
    · exact ⟨credentials, ⟨s₀, hfetch⟩, by rw [hs, secrets_of_uses x.fetch_uses hfetch]⟩
    · cases he
  · cases he

/-- **The latest keys of a table are used.** After a call that gets keys for a table returned,
whatever was done before it and whatever is performed after it, by anybody, until a secret of that
name is created again: there is one secret of the name, of the keys the catalog answered, and the
table's files are read with them exactly if no secret that competes for one of them has other
keys. -/
theorem TableLogin.latest_keys_are_used (hremote : ¬ x.Local)
    (hlogin : x.program.Exec c s (.ok ()) s₁) (hlater : S.Sparing x.secretName s₁ s₂) :
    ∃ credentials, (∃ s₀, x.fetch.Exec c s (.ok credentials) s₀) ∧
      (∀ secret, identifier secret.name = identifier x.secretName →
        (secret ∈ S.secrets s₂ ↔ secret = x.secret credentials)) ∧
      (x.ReadWith credentials (S.secrets s₂) ↔ ∀ secret ∈ S.secrets s₂,
        x.Competes (S.secrets s₂) secret → secret.options = (x.secret credentials).options) := by
  obtain ⟨credentials, hfetch, hs₁⟩ := TableLogin.exec_program hremote hlogin
  have hone : ∀ secret, identifier secret.name = identifier x.secretName →
      (secret ∈ S.secrets s₂ ↔ secret = x.secret credentials) := by
    intro secret hname
    rw [hlater.secrets hname, hs₁, replaceSecret, List.mem_cons, List.mem_filter, bne_iff_ne]
    exact ⟨fun h => h.resolve_right fun hmem => hmem.2 hname, .inl⟩
  exact ⟨credentials, hfetch, hone, x.readWith_iff ((hone _ rfl).2 rfl)⟩

end

/-! ### A table beside another -/

/-- A table at a location, of which nothing else is said but its id. -/
def keyedTable (table_id location : String) : TableInformation where
  catalog_name := "uc"
  read_only := true
  credentials := { endpoint := "http://uc", token := "" }
  schema_name := "s"
  table_data :=
    { table_id, name := "t", catalog_name := "c", schema_name := "s", storage_location := location }

/-- The catalog's answer for it. -/
def keysText (key_id : String) : String :=
  "\x7b\"aws_temp_credentials\":\x7b\"access_key_id\":\"" ++ key_id ++ "\"\x7d\x7d"

/-- The secret made of that. -/
def keyedSecret (table_id location key_id : String) : CreateSecretInput :=
  (TableLogin.refreshCredentials (keyedTable table_id location)).secret { key_id }

theorem exec_keyedTable (table_id location key_id : String) (secrets : List CreateSecretInput)
    {texts : List String}
    (hremote : ¬ (TableLogin.refreshCredentials (keyedTable table_id location)).Local)
    (hkeys : decodeTableCredentials "c" "s" "t" false (read (keysText key_id)) = .ok { key_id }) :
    (TableLogin.refreshCredentials (keyedTable table_id location)).program.Exec
      (W := plannedSession.world) () (secrets, keysText key_id :: texts) (.ok ())
      (replaceSecret secrets (keyedSecret table_id location key_id), texts) := by
  rw [TableLogin.program_eq _ hremote]
  refine Prog.exec_bind.2 (.inl ⟨{ key_id }, (secrets, texts), ?_, Prog.exec_det.2 rfl⟩)
  refine Prog.exec_bind.2 (.inl ⟨keysText key_id, (secrets, texts), Prog.exec_det.2 rfl, ?_⟩)
  exact Prog.exec_ofExcept.2 ⟨hkeys.symm, rfl⟩

/-- The files under `s3://b/t` are read with their own keys after a table at `s3://b/t1` got
some. -/
theorem TableLogin.latest_keys_are_used_beside :
    (TableLogin.refreshCredentials (keyedTable "1" "s3://b/t")).ReadWith { key_id := "k" }
      [keyedSecret "2" "s3://b/t1" "l", keyedSecret "1" "s3://b/t" "k"] := by
  have hbeside : plannedSession.Sparing
      (TableLogin.refreshCredentials (keyedTable "1" "s3://b/t")).secretName
      ([keyedSecret "1" "s3://b/t" "k"], [keysText "l"])
      ([keyedSecret "2" "s3://b/t1" "l", keyedSecret "1" "s3://b/t" "k"], []) := by
    refine (SecretKeeping.Sparing.start _).exec
      (p := (keyedTable "2" "s3://b/t1").refreshCredentials) ?_
      (exec_keyedTable "2" "s3://b/t1" "l" _ (by decide) (by decide +kernel))
    refine (TableInformation.uses_refreshCredentials _).mono ?_
    rintro op hop input rfl
    rw [hop.1]
    decide
  obtain ⟨credentials, -, hone, hread⟩ := TableLogin.latest_keys_are_used
    (x := .refreshCredentials (keyedTable "1" "s3://b/t")) (by decide)
    (exec_keyedTable "1" "s3://b/t" "k" [] (by decide) (by decide +kernel)) hbeside
  have hkeys := (hone (keyedSecret "1" "s3://b/t" "k") rfl).1 (by decide)
  intro path hpath e he
  rw [show (TableLogin.refreshCredentials (keyedTable "1" "s3://b/t")).secret { key_id := "k" } = _
    from hkeys]
  refine hread.2 ?_ path hpath e he
  rw [← hkeys]
  change ∀ secret ∈ [keyedSecret "2" "s3://b/t1" "l", keyedSecret "1" "s3://b/t" "k"], _
  decide

end UnityCatalog
