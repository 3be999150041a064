import UnityCatalog.Catalog
import UnityCatalog.TypeGrammar

/-!
# `ATTACH` and `CREATE SECRET`

`UnityCatalogAttach` makes a catalog of the statement's options, of a secret, and of the default
schema that the workspace answers where none is given; `CreateUCSecretFunction` makes the secret.
The options come in a hash map, so in no order.

`attach_outcome` says when the statement succeeds and with what, `attach_reads_created_secret` what
it reads of a secret that was created.
-/

namespace UnityCatalog

open Effectful Yyjson

/-! ## Secrets -/

/-- The `Value` of an option, as far as it is looked at. -/
structure OptionValue where
  /-- `ToString` -/
  text : String
  /-- `DefaultCastAs(LogicalType::BOOLEAN).GetValue<bool>()` -/
  boolean : Except Exception Bool

/-- The options of a statement, by name. -/
abbrev NamedOptions : Type := List (String × OptionValue)

/-- `KeyValueSecret`: its `secret_map`. -/
abbrev KeyValueSecret : Type := List (String × String)

/-- `KeyValueSecret::TryGetValue`, `none` for a NULL. -/
def tryGetValue (secret : KeyValueSecret) (key : String) : Option String :=
  (secret.find? fun entry => entry.1 == key).map Prod.snd

/-- One round of the loop of `CreateUCSecretFunction`. -/
def setSecretParameter (secret : KeyValueSecret) (named_param : String × OptionValue) :
    Except Exception KeyValueSecret :=
  let lower_name := lower named_param.1
  if lower_name = "token" ∨ lower_name = "endpoint" ∨ lower_name = "aws_region" then
    pure (setProperty secret lower_name named_param.2.text)
  else
    throw (internalException
      ("Unknown named parameter passed to CreateUCSecretFunction: " ++ lower_name))

/-- `CreateUCSecretFunction` -/
def createUCSecretFunction (options : NamedOptions) : Except Exception KeyValueSecret :=
  options.foldlM setSecretParameter []

/-- `SecretManager::GetSecretByName`: the secret of a name in a storage. -/
abbrev SecretManager : Type := String → String → Option KeyValueSecret

/-- `GetSecret` -/
def getSecret (manager : SecretManager) (secret_name : String) : Option KeyValueSecret :=
  match manager secret_name "memory" with
  | some secret => some secret
  | none => manager secret_name "local_file"

/-! ## `UCAPI::GetDefaultSchema` -/

/-- What `GetDefaultSchema` makes of the body. -/
def decodeGetDefaultSchema (root : Option Val) : Except Exception String := do
  let error ← checkError root
  error.throwIfError "Failed to get default schema of the catalog"
  let setting_name ← tryGetStrFromObject root "setting_name" false
  if setting_name = "" then
    throw (invalidInputException
      "Failed to get default schema of the catalog, API response is invalid!")
  else pure setting_name

/-- Where the default schema is asked for. -/
def UCCredentials.defaultSchemaUrl (credentials : UCCredentials) : String :=
  credentials.endpoint ++ "/api/2.0/settings/types/default_namespace_ws/names/default"

/-- `UCAPI::GetDefaultSchema` -/
def UCAPI.getDefaultSchema (credentials : UCCredentials) : Run String := do
  let resp ← makeRequest credentials.defaultSchemaUrl credentials.token .empty
  Prog.ofExcept (decodeGetDefaultSchema (read resp))

/-! ## `UnityCatalogAttach` -/

/-- The statement. -/
structure AttachStatement where
  /-- what it is attached as -/
  name : String
  /-- the catalog in Unity Catalog -/
  path : String
  read_only : Bool := false
  options : NamedOptions := []

/-- What the loop over the options leaves. -/
structure ParsedOptions where
  credentials : UCCredentials := { endpoint := "", token := "" }
  secret_name : String := ""
  default_schema : String := ""

/-- One round of the loop over the options. -/
def parseOption (p : ParsedOptions) (entry : String × OptionValue) :
    Except Exception ParsedOptions :=
  let lower_name := lower entry.1
  if lower_name = "type" ∨ lower_name = "read_only" then pure p -- already handled
  else if lower_name = "secret" then pure { p with secret_name := entry.2.text }
  else if lower_name = "default_schema" then pure { p with default_schema := entry.2.text }
  else if lower_name = "use_irc_scan_plan" then do
    let b ← entry.2.boolean
    return { p with credentials := { p.credentials with use_irc_scan_plan := b } }
  else if lower_name = "api_irc_endpoint_override" then
    pure { p with credentials := { p.credentials with
      irc_endpoint_override := rTrim entry.2.text '/' } }
  else throw (binderException ("Unrecognized option for UC attach: " ++ entry.1))

/-- The secret the statement is about: the named one, or one of the two default names. -/
def secretEntry (manager : SecretManager) (secret_name : String) : Option KeyValueSecret :=
  if secret_name ≠ "" then getSecret manager secret_name
  else
    match getSecret manager "__default_unity_catalog" with
    | some secret => some secret
    | none => getSecret manager "__default_uc"

/-- What is read of the secret. Whether there is a region is asked of the endpoint; `NULL` is what
the value prints as. -/
def UCCredentials.withSecret (credentials : UCCredentials) (kv_secret : KeyValueSecret) :
    UCCredentials :=
  let endpoint_val := tryGetValue kv_secret "endpoint"
  { credentials with
    token := (tryGetValue kv_secret "token").getD ""
    endpoint := rTrim (endpoint_val.getD "") '/'
    aws_region :=
      if endpoint_val.isNone then "" else (tryGetValue kv_secret "aws_region").getD "NULL" }

/-- The credentials, with the secret's. -/
def resolveSecret (manager : SecretManager) (p : ParsedOptions) : Except Exception UCCredentials :=
  match secretEntry manager p.secret_name with
  | some kv_secret => pure (p.credentials.withSecret kv_secret)
  | none =>
    if p.secret_name ≠ "" then
      throw (binderException ("Secret with name \"" ++ p.secret_name ++ "\" not found"))
    else pure p.credentials

/-- `UnityCatalogAttach`; `cast` and `realText` are the host's. -/
def unityCatalogAttach (manager : SecretManager) (cast : CastUint8) (realText : ℚ → Option String)
    (info : AttachStatement) : Run AttachedCatalog := do
  let p ← Prog.ofExcept (info.options.foldlM parseOption {})
  let credentials ← Prog.ofExcept (resolveSecret manager p)
  -- whatever goes wrong with asking is only logged
  let default_schema ← if p.default_schema = "" then
      tryCatch (UCAPI.getDefaultSchema credentials) fun _ => pure ""
    else pure p.default_schema
  return { name := info.name, internal_name := info.path, read_only := info.read_only
           credentials := credentials, default_schema := default_schema
           cast := cast, realText := realText }

/-! ## The options -/

/-- An option that is taken. -/
def Recognized (entry : String × OptionValue) : Prop :=
  lower entry.1 ∈ ["type", "read_only", "secret", "default_schema", "api_irc_endpoint_override"] ∨
    lower entry.1 = "use_irc_scan_plan" ∧ ∃ b, entry.2.boolean = .ok b

/-- The last option of a name. -/
def lastOption (options : NamedOptions) (name : String) : Option OptionValue :=
  (options.reverse.find? fun entry => lower entry.1 == name).map Prod.snd

/-- Its text, empty where there is none. -/
def optionText (options : NamedOptions) (name : String) : String :=
  ((lastOption options name).map OptionValue.text).getD ""

/-- Each option says what it says, and none is about another's member. -/
def parsedOptions (options : NamedOptions) : ParsedOptions where
  credentials :=
    { endpoint := ""
      token := ""
      use_irc_scan_plan := ((lastOption options "use_irc_scan_plan").bind fun value =>
        value.boolean.toOption).getD false
      irc_endpoint_override := rTrim (optionText options "api_irc_endpoint_override") '/' }
  secret_name := optionText options "secret"
  default_schema := optionText options "default_schema"

theorem lastOption_concat (options : NamedOptions) (entry : String × OptionValue) (name : String) :
    lastOption (options ++ [entry]) name =
      if lower entry.1 = name then some entry.2 else lastOption options name := by
  rw [lastOption, List.reverse_append, List.reverse_singleton, List.singleton_append,
    List.find?_cons, lastOption]
  by_cases h : lower entry.1 = name
  · simp [h]
  · simp only [beq_eq_false_iff_ne.2 h, if_neg h]

/-- One more option: each name has its own member. -/
theorem parseOption_eq_ok {options : NamedOptions} {entry : String × OptionValue}
    {p : ParsedOptions} :
    parseOption (parsedOptions options) entry = .ok p ↔
      Recognized entry ∧ p = parsedOptions (options ++ [entry]) := by
  have hlast := lastOption_concat options entry
  have hpure (q : ParsedOptions) : (pure q : Except Exception ParsedOptions) = .ok p ↔ p = q :=
    Except.ok.injEq q p ▸ eq_comm
  by_cases htype : lower entry.1 = "type"
  · simp [parseOption, Recognized, parsedOptions, optionText, hlast, hpure, htype]
  by_cases hreadOnly : lower entry.1 = "read_only"
  · simp [parseOption, Recognized, parsedOptions, optionText, hlast, hpure, hreadOnly]
  by_cases hsecret : lower entry.1 = "secret"
  · simp [parseOption, Recognized, parsedOptions, optionText, hlast, hpure, hsecret]
  by_cases hschema : lower entry.1 = "default_schema"
  · simp [parseOption, Recognized, parsedOptions, optionText, hlast, hpure, hschema]
  by_cases hplan : lower entry.1 = "use_irc_scan_plan"
  · cases hvalue : entry.2.boolean with
    | ok b => simp [parseOption, Recognized, parsedOptions, optionText, hlast, hpure, hplan, hvalue,
        bind, Except.bind, Except.toOption]
    | error e => simp [parseOption, Recognized, hplan, hvalue, bind, Except.bind]
  by_cases hirc : lower entry.1 = "api_irc_endpoint_override"
  · simp [parseOption, Recognized, parsedOptions, optionText, hlast, hpure, hirc]
  · simp [parseOption, Recognized, htype, hreadOnly, hsecret, hschema, hplan, hirc, throw, throwThe,
      MonadExceptOf.throw]

/-- **The options**: all of them are taken, and the last of a name counts. -/
theorem parseOptions_eq_ok (options : NamedOptions) {p : ParsedOptions} :
    options.foldlM parseOption {} = .ok p ↔
      (∀ entry ∈ options, Recognized entry) ∧ p = parsedOptions options := by
  induction options using List.reverseRecOn generalizing p with
  | nil =>
    simp [pure, Except.pure, eq_comm, parsedOptions, optionText, lastOption, rTrim]
  | append_singleton options entry ih =>
    rw [List.foldlM_append, except_bind_eq_ok]
    simp only [ih, List.foldlM_cons, List.foldlM_nil, bind_pure, List.forall_mem_append,
      List.forall_mem_singleton]
    constructor
    · rintro ⟨_, ⟨hall, rfl⟩, hentry⟩
      obtain ⟨hrecognized, rfl⟩ := parseOption_eq_ok.1 hentry
      exact ⟨⟨hall, hrecognized⟩, rfl⟩
    · rintro ⟨⟨hall, hrecognized⟩, rfl⟩
      exact ⟨_, ⟨hall, rfl⟩, parseOption_eq_ok.2 ⟨hrecognized, rfl⟩⟩

/-- Options of different names, in any order, say the same. -/
theorem parsedOptions_perm {options options' : NamedOptions} (h : options.Perm options')
    (hnames : (options.map fun entry => lower entry.1).Nodup) :
    parsedOptions options = parsedOptions options' := by
  have hmem {options : NamedOptions} (hnames : (options.map fun entry => lower entry.1).Nodup)
      {name : String} {value : OptionValue} :
      lastOption options name = some value ↔ ∃ entry ∈ options, lower entry.1 = name ∧
        entry.2 = value := by
    rw [lastOption, Option.map_eq_some_iff]
    constructor
    · rintro ⟨entry, hfind, hvalue⟩
      have hname := List.find?_some hfind
      exact ⟨entry, List.mem_reverse.1 (List.mem_of_find?_eq_some hfind),
        by simpa using hname, hvalue⟩
    · rintro ⟨entry, hentry, hname, hvalue⟩
      cases hfind : options.reverse.find? fun entry => lower entry.1 == name with
      | none =>
        have hno := List.find?_eq_none.1 hfind entry (List.mem_reverse.2 hentry)
        simp [hname] at hno
      | some entry' =>
        have hname' : lower entry'.1 = name := by simpa using List.find?_some hfind
        have hentry' := List.mem_reverse.1 (List.mem_of_find?_eq_some hfind)
        obtain rfl := List.inj_on_of_nodup_map hnames hentry' hentry (hname'.trans hname.symm)
        exact ⟨_, rfl, hvalue⟩
  have hlast (name : String) : lastOption options name = lastOption options' name := by
    ext value
    rw [hmem hnames, hmem ((h.map _).nodup_iff.1 hnames)]
    simp only [h.mem_iff]
  simp [parsedOptions, optionText, hlast]

/-! ## The statement -/

/-- The credentials an `ATTACH` ends up with. -/
def attachCredentials (manager : SecretManager) (options : NamedOptions) : UCCredentials :=
  match secretEntry manager (optionText options "secret") with
  | some kv_secret => (parsedOptions options).credentials.withSecret kv_secret
  | none => (parsedOptions options).credentials

/-- The statement is in order: every option is taken, and the secret it names is there. -/
structure AttachStatement.InOrder (manager : SecretManager) (info : AttachStatement) : Prop where
  recognized : ∀ entry ∈ info.options, Recognized entry
  secret : optionText info.options "secret" ≠ "" →
    ∃ kv_secret, getSecret manager (optionText info.options "secret") = some kv_secret

section

variable {manager : SecretManager} {cast : CastUint8} {realText : ℚ → Option String}
variable {info : AttachStatement} {W : World Client Exception} {c : W.Ctx} {s s' : W.State}

theorem resolveSecret_eq_ok {credentials : UCCredentials} :
    resolveSecret manager (parsedOptions info.options) = .ok credentials ↔
      (optionText info.options "secret" ≠ "" →
        ∃ kv_secret, getSecret manager (optionText info.options "secret") = some kv_secret) ∧
      credentials = attachCredentials manager info.options := by
  rw [resolveSecret, attachCredentials, show (parsedOptions info.options).secret_name =
    optionText info.options "secret" from rfl]
  by_cases hnamed : optionText info.options "secret" = ""
  · cases hentry : secretEntry manager (optionText info.options "secret") <;>
      simp [hnamed, pure, Except.pure, eq_comm]
  · rw [secretEntry, if_pos hnamed]
    cases hentry : getSecret manager (optionText info.options "secret") <;>
      simp [hnamed, pure, Except.pure, throw, throwThe, MonadExceptOf.throw, eq_comm]

/-- The default schema of a statement in order. -/
def AttachStatement.defaultSchema (manager : SecretManager) (info : AttachStatement) : Run String :=
  if optionText info.options "default_schema" = "" then
    tryCatch (UCAPI.getDefaultSchema (attachCredentials manager info.options)) fun _ => pure ""
  else pure (optionText info.options "default_schema")

theorem attach_inOrder (h : info.InOrder manager) :
    unityCatalogAttach manager cast realText info =
      (info.defaultSchema manager).bind fun default_schema => .ret
        { name := info.name, internal_name := info.path, read_only := info.read_only
          credentials := attachCredentials manager info.options, default_schema := default_schema
          cast := cast, realText := realText } := by
  have hparse := (parseOptions_eq_ok info.options).2 ⟨h.recognized, rfl⟩
  have hresolve := resolveSecret_eq_ok.2 ⟨h.secret, rfl⟩
  rw [unityCatalogAttach, hparse]
  simp only [Prog.ofExcept, Prog.bind_eq, Prog.ret_bind, hresolve]
  rw [AttachStatement.defaultSchema, show (parsedOptions info.options).default_schema =
    optionText info.options "default_schema" from rfl]
  split <;> rfl

/-- A statement that is not in order performs nothing. -/
theorem attach_not_inOrder (h : ¬ info.InOrder manager) :
    ∃ e, unityCatalogAttach manager cast realText info = .throw e := by
  rw [unityCatalogAttach]
  cases hparse : info.options.foldlM parseOption {} with
  | error e => exact ⟨e, rfl⟩
  | ok p =>
    obtain ⟨hrecognized, rfl⟩ := (parseOptions_eq_ok info.options).1 hparse
    cases hresolve : resolveSecret manager (parsedOptions info.options) with
    | error e =>
      simp only [Prog.ofExcept, Prog.bind_eq, Prog.ret_bind, hresolve]
      exact ⟨e, rfl⟩
    | ok credentials => exact absurd ⟨hrecognized, (resolveSecret_eq_ok.1 hresolve).1⟩ h

theorem exec_defaultSchema {r : Except Exception String}
    (h : (info.defaultSchema manager).Exec c s r s') :
    if optionText info.options "default_schema" = "" then
      ∃ answered,
        (UCAPI.getDefaultSchema (attachCredentials manager info.options)).Exec c s answered s' ∧
        r = .ok (answered.toOption.getD "")
    else r = .ok (optionText info.options "default_schema") ∧ s' = s := by
  rw [AttachStatement.defaultSchema] at h
  split at h
  · rename_i hnone
    rw [if_pos hnone]
    rcases Prog.exec_tryCatch.1 h with ⟨a, hexec, rfl⟩ | ⟨e, s₁, hexec, hret⟩
    · exact ⟨_, hexec, rfl⟩
    · obtain ⟨rfl, rfl⟩ := hret
      exact ⟨_, hexec, rfl⟩
  · rename_i hgiven
    rw [if_neg hgiven]
    exact h

/-- **What `ATTACH` comes to.** It succeeds exactly if every option is one that is taken and the
secret it names is there, whatever the workspace answers; where it fails nothing was performed. The
order of the options makes no difference. The workspace is asked once, where no default schema is
given, and every way of not answering leaves the catalog without one: then `main` cannot be looked
up, before anything is asked. -/
theorem attach_outcome {r : Except Exception AttachedCatalog}
    (h : (unityCatalogAttach manager cast realText info).Exec c s r s') :
    ((∃ catalog, r = .ok catalog) ↔ info.InOrder manager) ∧ (∀ e, r = .error e → s' = s) ∧
      (∀ options, options.Perm info.options → (info.options.map fun entry => lower entry.1).Nodup →
        ∀ catalog, r = .ok catalog →
          (unityCatalogAttach manager cast realText { info with options := options }).Exec c s
            r s') ∧
      ∀ catalog, r = .ok catalog → catalog.credentials = attachCredentials manager info.options ∧
        (optionText info.options "default_schema" ≠ "" →
          catalog.default_schema = optionText info.options "default_schema" ∧ s' = s) ∧
        (optionText info.options "default_schema" = "" → ∃ answered,
          (UCAPI.getDefaultSchema catalog.credentials).Exec c s answered s' ∧
            catalog.default_schema = answered.toOption.getD "") ∧
        (catalog.default_schema = "" → ∀ if_not_found,
          ∃ e, catalog.lookupSchema "main" if_not_found = .throw e) := by
  by_cases horder : info.InOrder manager
  · have hattach := h
    rw [attach_inOrder horder] at h
    rcases Prog.exec_bind.1 h with ⟨default_schema, s₁, hdefault, hret⟩ | ⟨e, hdefault, rfl⟩
    · obtain ⟨rfl, rfl⟩ := hret
      have hschema := exec_defaultSchema hdefault
      refine ⟨iff_of_true ⟨_, rfl⟩ horder, by simp, ?_, ?_⟩
      · intro options hperm hnames _ _
        have hparsed := parsedOptions_perm hperm.symm hnames
        have hsecret : optionText options "secret" = optionText info.options "secret" :=
          (congrArg ParsedOptions.secret_name hparsed).symm
        have hcredentials : attachCredentials manager options =
            attachCredentials manager info.options := by
          rw [attachCredentials, attachCredentials, hsecret, ← hparsed]
        have hgiven : optionText options "default_schema" =
            optionText info.options "default_schema" :=
          (congrArg ParsedOptions.default_schema hparsed).symm
        have horder' : AttachStatement.InOrder manager { info with options := options } :=
          ⟨fun entry hentry => horder.recognized entry (hperm.mem_iff.1 hentry),
            by simpa only [hsecret] using horder.secret⟩
        rw [attach_inOrder horder']
        simpa only [AttachStatement.defaultSchema, hcredentials, hgiven] using h
      · rintro catalog hcatalog
        obtain rfl := Except.ok.inj hcatalog
        refine ⟨rfl, ?_, ?_, ?_⟩
        · intro hgiven
          rw [if_neg hgiven] at hschema
          exact ⟨Except.ok.inj hschema.1, hschema.2⟩
        · intro hnone
          rw [if_pos hnone] at hschema
          obtain ⟨answered, hexec, heq⟩ := hschema
          exact ⟨answered, hexec, Except.ok.inj heq⟩
        · intro hempty if_not_found
          -- `main` is redirected to the empty name
          have hredirected (t : AttachedCatalog) (ht : t.default_schema = "") :
              ∃ e, t.redirected "main" = .error e := by
            rw [AttachedCatalog.redirected, ht, if_pos (by decide +kernel), if_pos rfl]
            exact ⟨_, rfl⟩
          obtain ⟨e, he⟩ := hredirected _ hempty
          refine ⟨e, ?_⟩
          rw [AttachedCatalog.lookupSchema, he]
          rfl
    · -- asking for the default schema never fails
      have hschema := exec_defaultSchema hdefault
      split at hschema
      · obtain ⟨_, -, heq⟩ := hschema
        cases heq
      · cases hschema.1
  · obtain ⟨e, heq⟩ : ∃ e, unityCatalogAttach manager cast realText info = .throw e :=
      attach_not_inOrder horder
    rw [heq] at h
    obtain ⟨rfl, rfl⟩ := h
    exact ⟨iff_of_false (by simp) horder, by simp, by simp, by simp⟩

end

/-! ### A workspace that does not answer -/

/-- A session in which nothing can be performed. -/
abbrev offline : World Client Exception :=
  Prog.det fun (s : Unit) _ => (.error (ioException "no network"), s)

/-- An option that is a text. -/
def textOption (name text : String) : String × OptionValue :=
  (name, ⟨text, .error (invalidInputException "Could not convert string to BOOL")⟩)

/-- A statement without a default schema, and without a secret. -/
def bareAttach : AttachStatement where
  name := "uc"
  path := "c"
  options := [textOption "TYPE" "unity_catalog"]

/-- The catalog is attached, and has no `main`. -/
theorem attach_outcome_offline : ∃ catalog : AttachedCatalog,
    (unityCatalogAttach (fun _ _ => none) castNumeral (fun _ => none) bareAttach).Exec
      (W := offline)
      () () (.ok catalog) () ∧ ∃ e, catalog.lookupSchema "main" .returnNull = .throw e := by
  have hexec : ∃ r,
    (unityCatalogAttach (fun _ _ => none) castNumeral (fun _ => none) bareAttach).Exec
      (W := offline) () () r () := ⟨_, Prog.exec_det.2 rfl⟩
  obtain ⟨r, hexec⟩ := hexec
  obtain ⟨hok, -, -, hcatalog⟩ := attach_outcome hexec
  obtain ⟨catalog, rfl⟩ := hok.2
    ⟨by simp [bareAttach, textOption, Recognized, lower], fun h => absurd (by decide +kernel) h⟩
  obtain ⟨-, -, hnone, hmain⟩ := hcatalog catalog rfl
  refine ⟨catalog, hexec, hmain ?_ _⟩
  obtain ⟨answered, hanswered, heq⟩ := hnone (by decide +kernel)
  obtain rfl : answered = .error (ioException "no network") :=
    (congrArg Prod.fst (Prog.exec_det.1 hanswered)).symm
  exact heq

/-! ## A created secret -/

theorem tryGetValue_setProperty (secret : KeyValueSecret) (key value key' : String) :
    tryGetValue (setProperty secret key value) key' =
      if key = key' then some value else tryGetValue secret key' := by
  rw [tryGetValue, setProperty, List.find?_cons]
  by_cases h : key = key'
  · simp [h]
  · rw [if_neg h, tryGetValue]
    simp only [beq_eq_false_iff_ne.2 h]
    congr 1
    induction secret with
    | nil => rfl
    | cons entry secret ih =>
      rw [List.filter_cons]
      by_cases hentry : entry.1 = key
      · simp [hentry, h, ih]
      · simp [hentry, List.find?_cons, ih]

/-- **What a created secret holds**: for each of the three names, the text of the last option of
it. -/
theorem createUCSecretFunction_eq_ok {options : NamedOptions} {secret : KeyValueSecret}
    (h : createUCSecretFunction options = .ok secret) (key : String) :
    tryGetValue secret key = if key ∈ ["token", "endpoint", "aws_region"] then
      (lastOption options key).map OptionValue.text else none := by
  rw [createUCSecretFunction] at h
  induction options using List.reverseRecOn generalizing secret with
  | nil =>
    obtain rfl := Except.ok.inj h
    simp [tryGetValue, lastOption]
  | append_singleton options entry ih =>
    rw [List.foldlM_append, except_bind_eq_ok] at h
    obtain ⟨before, hbefore, hentry⟩ := h
    simp only [List.foldlM_cons, List.foldlM_nil, bind_pure, setSecretParameter] at hentry
    rw [lastOption_concat]
    split at hentry
    · rename_i hname
      obtain rfl := Except.ok.inj hentry
      rw [tryGetValue_setProperty, ih hbefore]
      by_cases hkey : lower entry.1 = key
      · have hmem : key ∈ ["token", "endpoint", "aws_region"] := by simpa [hkey] using hname
        simp only [if_pos hkey, if_pos hmem, Option.map_some]
      · simp only [if_neg hkey]
    · cases hentry

theorem rTrim_no_suffix (s : String) (c : Char) : ¬ [c] <:+ (rTrim s c).toList := by
  rw [rTrim, String.toList_ofList, ← List.reverse_prefix, List.reverse_reverse]
  rintro ⟨rest, heq⟩
  have hhead := List.head?_dropWhile_not (fun d => d == c) s.toList.reverse
  rw [← heq] at hhead
  simp at hhead

theorem rTrim_of_no_suffix {s : String} {c : Char} (h : ¬ [c] <:+ s.toList) : rTrim s c = s := by
  have hdrop : s.toList.reverse.dropWhile (fun d => d == c) = s.toList.reverse := by
    cases hrev : s.toList.reverse with
    | nil => rfl
    | cons d rest =>
      have hne : d ≠ c := by
        rintro rfl
        refine h ?_
        rw [← List.reverse_prefix, hrev]
        exact ⟨rest, rfl⟩
      simp [hne]
  rw [rTrim, hdrop, List.reverse_reverse, String.ofList_toList]

/-- **`ATTACH` reads what `CREATE SECRET` was told**, whichever storage the secret is found in: the
token and the endpoint as they are, but for slashes at the end, so that no request's URL repeats
them. The region is dropped where there is no endpoint, and is the text `NULL` where there is one
and no region. -/
theorem attach_reads_created_secret (manager : SecretManager) (options : NamedOptions)
    (info : AttachStatement) {kv_secret : KeyValueSecret}
    (hcreate : createUCSecretFunction options = .ok kv_secret)
    (hfound : secretEntry manager (optionText info.options "secret") = some kv_secret) :
    (attachCredentials manager info.options).token = optionText options "token" ∧
      (attachCredentials manager info.options).endpoint =
        rTrim (optionText options "endpoint") '/' ∧
      ¬ ['/'] <:+ (attachCredentials manager info.options).endpoint.toList ∧
      (attachCredentials manager info.options).aws_region =
        (if (lastOption options "endpoint").isNone then ""
         else ((lastOption options "aws_region").map OptionValue.text).getD "NULL") ∧
      (attachCredentials manager info.options).ircEndpoint =
        if rTrim (optionText info.options "api_irc_endpoint_override") '/' = "" then
          (attachCredentials manager info.options).endpoint ++ "/api/2.1/unity-catalog/iceberg-rest"
        else rTrim (optionText info.options "api_irc_endpoint_override") '/' := by
  have hvalue := createUCSecretFunction_eq_ok hcreate
  have hcredentials : attachCredentials manager info.options =
      (parsedOptions info.options).credentials.withSecret kv_secret := by
    rw [attachCredentials, hfound]
  have hendpoint : (attachCredentials manager info.options).endpoint =
      rTrim (optionText options "endpoint") '/' := by
    simp [hcredentials, UCCredentials.withSecret, hvalue, optionText]
  refine ⟨?_, hendpoint, hendpoint ▸ rTrim_no_suffix _ _, ?_, ?_⟩
  · simp [hcredentials, UCCredentials.withSecret, hvalue, optionText]
  · simp [hcredentials, UCCredentials.withSecret, hvalue]
  · rw [UCCredentials.ircEndpoint, hendpoint, rTrim_of_no_suffix (rTrim_no_suffix _ _),
      show (attachCredentials manager info.options).irc_endpoint_override =
        rTrim (optionText info.options "api_irc_endpoint_override") '/' by rw [hcredentials]; rfl]
    by_cases h : rTrim (optionText info.options "api_irc_endpoint_override") '/' = "" <;> simp [h]

/-! ### A secret without a region -/

/-- The secret of an endpoint and a token, and nothing else. -/
def regionless : KeyValueSecret := [("token", "tok"), ("endpoint", "http://uc//")]

/-- A session in which only the persistent storage holds it, under a default name. -/
def regionlessManager : SecretManager := fun secret_name storage =>
  if secret_name = "__default_uc" ∧ storage = "local_file" then some regionless else none

theorem attach_reads_created_secret_regionless :
    (attachCredentials regionlessManager bareAttach.options).endpoint = "http://uc" ∧
      (attachCredentials regionlessManager bareAttach.options).aws_region = "NULL" := by
  have hcreate : createUCSecretFunction
      [textOption "ENDPOINT" "http://uc//", textOption "TOKEN" "tok"] = .ok regionless := by
    decide +kernel
  obtain ⟨-, hendpoint, -, hregion, -⟩ := attach_reads_created_secret regionlessManager _ bareAttach
    hcreate (by decide +kernel)
  exact ⟨hendpoint.trans (by decide +kernel), hregion.trans (by decide +kernel)⟩

end UnityCatalog
