import UnityCatalog.ExactAnswers
import UnityCatalog.YyjsonText

/-!
# The schema on the wire

`WireSchema` copies the schema a create wrote to its Delta log and spells the parameters of `array`
and `map` with dashes. A key is renamed at every object the copy meets, though it is a parameter in
a type alone. `renameParameters` goes by what each value of a schema is, and renames parameters and
nothing else; the two are one exactly where no field's metadata has a key that the copy would
change.
-/

namespace Yyjson

/-- `yyjson_mut_obj_put`: the value takes the place of the one under its key, the rest of that key
go; a new key goes to the end. -/
def mutObjPut (members : List (String × Val)) (key : String) (val : Val) : List (String × Val) :=
  match members with
  | [] => [(key, val)]
  | m :: members =>
    if m.1 = key then (key, val) :: members.filter fun m => m.1 ≠ key
    else m :: mutObjPut members key val

/-- A new key goes to the end. -/
theorem mutObjPut_of_notMem {members : List (String × Val)} {key : String}
    (h : key ∉ members.map Prod.fst)
    (val : Val) : mutObjPut members key val = members ++ [(key, val)] := by
  induction members with
  | nil => rfl
  | cons m members ih =>
    rw [List.map_cons, List.mem_cons, not_or] at h
    rw [mutObjPut, if_neg (Ne.symm h.1), ih h.2]
    rfl

theorem mem_keys_mutObjPut {members : List (String × Val)} {key k : String} {val : Val} :
    k ∈ (mutObjPut members key val).map Prod.fst ↔ k ∈ members.map Prod.fst ∨ k = key := by
  induction members with
  | nil => simp [mutObjPut]
  | cons m members ih =>
    rw [mutObjPut]
    split_ifs with hkey
    · by_cases hk : k = key <;> simp [hk, hkey]
    · rw [List.map_cons, List.mem_cons, ih, List.map_cons, List.mem_cons, or_assoc]

/-- What is put makes no key stand twice. -/
theorem nodup_keys_mutObjPut {members : List (String × Val)} (h : (members.map Prod.fst).Nodup)
    (key : String) (val : Val) : ((mutObjPut members key val).map Prod.fst).Nodup := by
  induction members with
  | nil => simp [mutObjPut]
  | cons m members ih =>
    obtain ⟨hm, hmembers⟩ := List.nodup_cons.1 h
    rw [mutObjPut]
    split_ifs with hkey
    · rw [List.map_cons, List.nodup_cons]
      refine ⟨by simp, ?_⟩
      exact hmembers.sublist (List.filter_sublist.map Prod.fst)
    · rw [List.map_cons, List.nodup_cons, mem_keys_mutObjPut, not_or]
      exact ⟨⟨hm, hkey⟩, ih hmembers⟩

/-- Where the keys are distinct, every member is found under its own. -/
theorem objGet_eq_some {members : List (String × Val)} (h : (members.map Prod.fst).Nodup)
    {key : String}
    {val : Val} : objGet (some (.obj members)) key = some val ↔ (key, val) ∈ members := by
  induction members with
  | nil => simp [objGet]
  | cons m members ih =>
    obtain ⟨hm, hmembers⟩ := List.nodup_cons.1 h
    have ih := ih hmembers
    rw [objGet] at ih ⊢
    by_cases hkey : m.1 = key
    · have hnot : (key, val) ∉ members := by
        intro hmem
        exact hm (hkey ▸ List.mem_map_of_mem (f := Prod.fst) hmem)
      have heq : (key, val) = m ↔ m.2 = val := by
        rw [← hkey, Prod.ext_iff]
        exact ⟨fun h => h.2.symm, fun h => ⟨rfl, h.symm⟩⟩
      rw [List.find?_cons_of_pos (by simpa using hkey), List.mem_cons, heq]
      simp [hnot]
    · have heq : (key, val) ≠ m := by
        rintro rfl
        exact hkey rfl
      rw [List.find?_cons_of_neg (by simpa using hkey), ih, List.mem_cons]
      simp [heq]

theorem objGet_perm {members members' : List (String × Val)} (h : members.Perm members')
    (hnodup : (members'.map Prod.fst).Nodup) (key : String) :
    objGet (some (.obj members)) key = objGet (some (.obj members')) key := by
  have hnodup' : (members.map Prod.fst).Nodup := (h.map Prod.fst).nodup_iff.2 hnodup
  apply Option.ext
  intro val
  rw [objGet_eq_some hnodup', objGet_eq_some hnodup, h.mem_iff]

end Yyjson

namespace UnityCatalog

open Yyjson

/-! ## The copy -/

/-- The `RENAMED` of `WireSchemaKey`. -/
def wireSchemaRenamed : List (String × String) :=
  [("elementType", "element-type"), ("containsNull", "contains-null"), ("keyType", "key-type"),
    ("valueType", "value-type"), ("valueContainsNull", "value-contains-null")]

/-- `WireSchemaKey` -/
def wireSchemaKey (key : String) : String :=
    ((wireSchemaRenamed.find? fun p => p.1 == key).map Prod.snd).getD key

/-- The key that is put: a C string, so one that ends at its first NUL. -/
def wireKey (key : String) : String := wireSchemaKey (cString key)

mutual

/-- `WireSchemaCopy` -/
def wireSchemaCopy : Val → Val
  | .obj members => .obj (wireSchemaPut [] members)
  | .arr items => .arr (wireSchemaItems items)
  | value => value

/-- The loop over an array. -/
def wireSchemaItems : List Val → List Val
  | [] => []
  | item :: items => wireSchemaCopy item :: wireSchemaItems items

/-- The loop over an object. -/
def wireSchemaPut (result : List (String × Val)) : List (String × Val) → List (String × Val)
  | [] => result
  | (key, child) :: members =>
    wireSchemaPut (mutObjPut result (wireKey key) (wireSchemaCopy child)) members

end

/-- `UCAPI::WireSchema`, up to the document it writes out. -/
def UCAPI.wireDocument (schema_json : String) : Except Exception Val :=
  match read schema_json with
  | none =>
    .error (invalidInputException "could not parse the table schema written to the Delta log")
  | some root => .ok (wireSchemaCopy root)

/-- It throws where `UCAPI.wireSchema` does. -/
theorem UCAPI.wireSchema_eq (schema_json : String) :
    UCAPI.wireSchema schema_json = (UCAPI.wireDocument schema_json).map fun _ => () := by
  rw [UCAPI.wireSchema, UCAPI.wireDocument]
  cases read schema_json <;> rfl

/-! ## What a schema is -/

mutual

/-- The value is a Delta type; `metadata` are the metadata of the fields in it. -/
inductive IsDeltaType : Val → List Val → Prop
  | primitive (name : String) : IsDeltaType (.str name) []
  | array {members : List (String × Val)} {element : Val} {contains_null : Bool}
    {metadata : List Val} :
    members.Perm [("type", .str "array"), ("elementType", element),
      ("containsNull", .bool contains_null)] →
    IsDeltaType element metadata → IsDeltaType (.obj members) metadata
  | map {members : List (String × Val)} {key value : Val} {contains_null : Bool}
    {key_metadata value_metadata : List Val} :
    members.Perm [("type", .str "map"), ("keyType", key), ("valueType", value),
      ("valueContainsNull", .bool contains_null)] →
    IsDeltaType key key_metadata → IsDeltaType value value_metadata →
    IsDeltaType (.obj members) (key_metadata ++ value_metadata)
  | struct {members : List (String × Val)} {fields metadata : List Val} :
    members.Perm [("type", .str "struct"), ("fields", .arr fields)] →
    AreDeltaFields fields metadata → IsDeltaType (.obj members) metadata

/-- The values are the fields of a struct. -/
inductive AreDeltaFields : List Val → List Val → Prop
  | nil : AreDeltaFields [] []
  | cons {members : List (String × Val)} {name : String} {type : Val} {nullable : Bool}
    {metadata : List (String × Val)} {fields type_metadata fields_metadata : List Val} :
    members.Perm [("name", .str name), ("type", type), ("nullable", .bool nullable),
      ("metadata", .obj metadata)] →
    IsDeltaType type type_metadata → AreDeltaFields fields fields_metadata →
    AreDeltaFields (.obj members :: fields) (.obj metadata :: (type_metadata ++ fields_metadata))

end

/-! ## Renaming the parameters -/

/-- What a value of a schema is. -/
inductive SchemaPart where
  /-- a type -/
  | type
  /-- the fields of a struct -/
  | fields
  /-- one of them -/
  | field
  /-- anything else: a name, a flag, metadata -/
  | other
  deriving DecidableEq

/-- The object is that of an array type or of a map type: its members are the parameters. -/
def hasParameters (part : SchemaPart) (members : List (String × Val)) : Bool :=
  part = .type ∧ (getStr (objGet (some (.obj members)) "type") = some "array" ∨
    getStr (objGet (some (.obj members)) "type") = some "map")

/-- What the member of an object is, by what the object is. -/
def SchemaPart.member (part : SchemaPart) (key : String) : SchemaPart :=
  match part with
  | .type =>
    if key ∈ ["elementType", "element-type", "keyType", "key-type", "valueType", "value-type"]
      then .type
    else if key = "fields" then .fields
    else .other
  | .field => if key = "type" then .type else .other
  | _ => .other

mutual

/-- The schema with its parameters renamed. -/
def renameParameters (rename : String → String) (part : SchemaPart) : Val → Val
  | .obj members =>
    .obj (renameMembers rename part (if hasParameters part members then rename else id) members)
  | .arr items => .arr (renameItems rename part items)
  | value => value

def renameItems (rename : String → String) (part : SchemaPart) : List Val → List Val
  | [] => []
  | item :: items =>
    renameParameters rename (if part = .fields then .field else .other) item :: renameItems rename
      part items

def renameMembers (rename : String → String) (part : SchemaPart) (key_name : String → String) :
    List (String × Val) → List (String × Val)
  | [] => []
  | (key, child) :: members =>
    (key_name key, renameParameters rename (part.member key) child) ::
      renameMembers rename part key_name members

end

/-- The spelling that a dashed parameter has in a Delta schema. -/
def deltaSchemaKey (key : String) : String :=
    ((wireSchemaRenamed.find? fun p => p.2 == key).map Prod.fst).getD key

/-! ## What the copy keeps -/

/-- The key stays what it is. -/
def IsPlainKey (key : String) : Prop := (∀ p ∈ wireSchemaRenamed, p.1 ≠ key) ∧ NulFree key

mutual

/-- No object in the value has a parameter's name for a key, a key with a zero byte, or a key
twice. -/
def IsKept : Val → Prop
  | .obj members => (members.map Prod.fst).Nodup ∧ AreKeptMembers members
  | .arr items => AreKept items
  | _ => True

def AreKept : List Val → Prop
  | [] => True
  | item :: items => IsKept item ∧ AreKept items

def AreKeptMembers : List (String × Val) → Prop
  | [] => True
  | (key, child) :: members => (IsPlainKey key ∧ IsKept child) ∧ AreKeptMembers members

end

theorem wireSchemaKey_of_notMem {key : String} (h : ∀ p ∈ wireSchemaRenamed, p.1 ≠ key) :
    wireSchemaKey key = key := by
  have hfind : (wireSchemaRenamed.find? fun p => p.1 == key) = none := by
    rw [List.find?_eq_none]
    intro p hp heq
    exact h p hp (beq_iff_eq.1 heq)
  rw [wireSchemaKey, hfind]
  rfl

/-- A key that is renamed has a dash from then on. -/
theorem wireKey_eq_self_iff (key : String) : wireKey key = key ↔ IsPlainKey key := by
  constructor
  · intro h
    by_cases hrenamed : ∀ p ∈ wireSchemaRenamed, p.1 ≠ cString key
    · rw [wireKey, wireSchemaKey_of_notMem hrenamed] at h
      rw [h] at hrenamed
      exact ⟨hrenamed, cString_eq_self.1 h⟩
    · -- the key is a dashed one, which ends at no NUL, and none of these is renamed
      have hdashed : ∀ p ∈ wireSchemaRenamed, wireSchemaKey p.1 = p.2 ∧ cString p.2 = p.2 ∧
          wireSchemaKey p.2 = p.2 ∧ p.1 ≠ p.2 := by
        decide
      push Not at hrenamed
      obtain ⟨p, hp, hkey⟩ := hrenamed
      obtain ⟨hwire, hstring, -, hne⟩ := hdashed p hp
      rw [wireKey, ← hkey, hwire] at h
      rw [← h, hstring] at hkey
      exact absurd hkey hne
  · rintro ⟨hrenamed, hnul⟩
    rw [wireKey, cString_eq_self.2 hnul, wireSchemaKey_of_notMem hrenamed]

/-- With distinct keys on the wire, the members come out in order. -/
theorem wireSchemaPut_eq_map {members : List (String × Val)}
    (h : (members.map fun m => wireKey m.1).Nodup) :
    wireSchemaPut [] members = members.map fun m => (wireKey m.1, wireSchemaCopy m.2) := by
  have hput : ∀ (result : List (String × Val)) (members : List (String × Val)),
      (result.map Prod.fst ++ members.map fun m => wireKey m.1).Nodup →
      wireSchemaPut result members = result ++ members.map fun m =>
        (wireKey m.1, wireSchemaCopy m.2) := by
    intro result members
    induction members generalizing result with
    | nil => simp [wireSchemaPut]
    | cons m members ih =>
      intro hnodup
      have hnot : wireKey m.1 ∉ result.map Prod.fst := by
        intro hmem
        exact (List.nodup_append.1 hnodup).2.2 _ hmem _ List.mem_cons_self rfl
      rw [wireSchemaPut, mutObjPut_of_notMem hnot, ih]
      · simp
      · simpa using hnodup
  exact hput [] members h

theorem nodup_keys_wireSchemaPut (members : List (String × Val)) :
    ((wireSchemaPut [] members).map Prod.fst).Nodup := by
  have hput : ∀ result : List (String × Val), (result.map Prod.fst).Nodup →
      ((wireSchemaPut result members).map Prod.fst).Nodup := by
    induction members with
    | nil => exact fun result h => h
    | cons m members ih =>
      intro result h
      rw [wireSchemaPut]
      exact ih _ (nodup_keys_mutObjPut h _ _)
  exact hput [] (by simp)

theorem mem_keys_wireSchemaPut {result members : List (String × Val)} {key : String} :
    key ∈ (wireSchemaPut result members).map Prod.fst ↔
      key ∈ result.map Prod.fst ∨ key ∈ members.map fun m => wireKey m.1 := by
  induction members generalizing result with
  | nil => simp [wireSchemaPut]
  | cons m members ih =>
    rw [wireSchemaPut, ih, mem_keys_mutObjPut, List.map_cons, List.mem_cons, or_assoc]

/-- No member is lost only where the keys on the wire are distinct. -/
theorem nodup_of_length_wireSchemaPut {members : List (String × Val)}
    (h : (wireSchemaPut [] members).length = members.length) :
    (members.map fun m => wireKey m.1).Nodup := by
  have hnodup := nodup_keys_wireSchemaPut members
  have hsub : (wireSchemaPut [] members).map Prod.fst ⊆ members.map fun m => wireKey m.1 := by
    intro key hkey
    simpa using mem_keys_wireSchemaPut.1 hkey
  have hperm := (List.subperm_of_subset hnodup hsub).perm_of_length_le (by simp [h])
  exact hperm.nodup_iff.1 hnodup

mutual

/-- The copy is the value itself exactly where the value is kept. -/
theorem wireSchemaCopy_eq_self (v : Val) : wireSchemaCopy v = v ↔ IsKept v := by
  cases v with
  | obj members =>
    rw [wireSchemaCopy, IsKept, Val.obj.injEq, ← copiedMembers_eq_self members]
    constructor
    · intro h
      have hnodup := nodup_of_length_wireSchemaPut (congrArg List.length h)
      have hkeys := nodup_keys_wireSchemaPut members
      rw [h] at hkeys
      exact ⟨hkeys, (wireSchemaPut_eq_map hnodup).symm.trans h⟩
    · rintro ⟨hkeys, h⟩
      have hwire : (members.map fun m => wireKey m.1) = members.map Prod.fst := by
        conv_rhs => rw [← h, List.map_map]
        rfl
      rw [wireSchemaPut_eq_map (hwire ▸ hkeys)]
      exact h
  | arr items =>
    rw [wireSchemaCopy, IsKept, Val.arr.injEq]
    exact wireSchemaItems_eq_self items
  | null => exact iff_of_true rfl trivial
  | bool b => exact iff_of_true rfl trivial
  | num n => exact iff_of_true rfl trivial
  | str s => exact iff_of_true rfl trivial

theorem wireSchemaItems_eq_self (items : List Val) :
    wireSchemaItems items = items ↔ AreKept items := by
  cases items with
  | nil => exact iff_of_true rfl trivial
  | cons item items =>
    rw [wireSchemaItems, AreKept, List.cons_eq_cons, wireSchemaCopy_eq_self item,
      wireSchemaItems_eq_self items]

theorem copiedMembers_eq_self (members : List (String × Val)) :
    (members.map fun m => (wireKey m.1, wireSchemaCopy m.2)) = members ↔
      AreKeptMembers members := by
  cases members with
  | nil => exact iff_of_true rfl trivial
  | cons m members =>
    obtain ⟨key, child⟩ := m
    rw [List.map_cons, AreKeptMembers, List.cons_eq_cons, Prod.mk.injEq, wireKey_eq_self_iff,
      wireSchemaCopy_eq_self child, copiedMembers_eq_self members]

end

/-! ## What the renaming keeps -/

theorem renameMembers_eq_map (rename : String → String) (part : SchemaPart)
    (key_name : String → String)
    (members : List (String × Val)) : renameMembers rename part key_name members =
      members.map fun m => (key_name m.1, renameParameters rename (part.member m.1) m.2) := by
  induction members with
  | nil => rfl
  | cons m members ih => rw [renameMembers, ih, List.map_cons]

mutual

/-- Names, flags and metadata are what they are. -/
theorem renameParameters_other (rename : String → String) (v : Val) :
    renameParameters rename .other v = v := by
  cases v with
  | obj members =>
    rw [renameParameters, Val.obj.injEq]
    exact renameMembers_other rename members
  | arr items =>
    rw [renameParameters, Val.arr.injEq]
    exact renameItems_other rename items
  | _ => rfl

theorem renameItems_other (rename : String → String) (items : List Val) :
    renameItems rename .other items = items := by
  cases items with
  | nil => rfl
  | cons item items =>
    rw [renameItems, renameItems_other rename items]
    exact congrArg (· :: items) (renameParameters_other rename item)

theorem renameMembers_other (rename : String → String) (members : List (String × Val)) :
    renameMembers rename .other id members = members := by
  cases members with
  | nil => rfl
  | cons m members =>
    obtain ⟨key, child⟩ := m
    rw [renameMembers, renameMembers_other rename members]
    exact congrArg (fun child => (key, child) :: members) (renameParameters_other rename child)

end

/-! ## The copy against the renaming -/

/-- A member found under its own key, whatever the order. -/
theorem hasParameters_perm {part : SchemaPart} {members members' : List (String × Val)}
    (h : members.Perm members') (hnodup : (members'.map Prod.fst).Nodup) :
    hasParameters part members = hasParameters part members' := by
  rw [hasParameters, hasParameters, objGet_perm h hnodup]

/-- The members of an object that is a type or a field are copied in order: it is renamed as it
should be where each of them is. -/
theorem wireSchemaCopy_eq_rename_iff {part : SchemaPart} {members members' : List (String × Val)}
    (h : members.Perm members') (hnodup : (members'.map Prod.fst).Nodup)
    (hwire : (members'.map fun m => wireKey m.1).Nodup) :
    wireSchemaCopy (.obj members) = renameParameters wireSchemaKey part (.obj members) ↔
      ∀ m ∈ members',
        wireKey m.1 = (if hasParameters part members' then wireSchemaKey else id) m.1 ∧
        wireSchemaCopy m.2 = renameParameters wireSchemaKey (part.member m.1) m.2 := by
  have hwire' : (members.map fun m => wireKey m.1).Nodup := (h.map _).nodup_iff.2 hwire
  rw [wireSchemaCopy, renameParameters, Val.obj.injEq, wireSchemaPut_eq_map hwire',
    renameMembers_eq_map, List.map_inj_left, hasParameters_perm h hnodup]
  simp only [Prod.mk.injEq, h.mem_iff]

/-- The words of a schema on the wire: five of them are renamed. -/
theorem wireKey_schema : wireKey "type" = "type" ∧ wireKey "fields" = "fields" ∧
    wireKey "name" = "name" ∧
    wireKey "nullable" = "nullable" ∧ wireKey "metadata" = "metadata" ∧
    wireKey "elementType" = "element-type" ∧ wireKey "containsNull" = "contains-null" ∧
    wireKey "keyType" = "key-type" ∧ wireKey "valueType" = "value-type" ∧
    wireKey "valueContainsNull" = "value-contains-null" := by
  decide

theorem wireSchemaKey_schema : wireSchemaKey "type" = "type" ∧
    wireSchemaKey "elementType" = "element-type" ∧ wireSchemaKey "containsNull" = "contains-null" ∧
    wireSchemaKey "keyType" = "key-type" ∧ wireSchemaKey "valueType" = "value-type" ∧
    wireSchemaKey "valueContainsNull" = "value-contains-null" := by
  decide

/-- By induction on the type: its own keys are spelled as they should be, and its parameters are
types. -/
theorem IsDeltaType.copy_iff {v : Val} {metadata : List Val} (h : IsDeltaType v metadata) :
    wireSchemaCopy v = renameParameters wireSchemaKey .type v ↔ ∀ m ∈ metadata, IsKept m := by
  refine @IsDeltaType.rec
    (fun v metadata _ => wireSchemaCopy v = renameParameters wireSchemaKey .type v ↔ ∀ m ∈ metadata,
      IsKept m)
    (fun fields metadata _ =>
      wireSchemaItems fields = renameItems wireSchemaKey .fields fields ↔ ∀ m ∈ metadata, IsKept m)
    ?primitive ?array ?map ?struct ?nil ?cons v metadata h
  case primitive =>
    intro name
    simp [wireSchemaCopy, renameParameters]
  case array =>
    intro members element contains_null metadata hmembers helement ih
    have hparams : hasParameters .type [("type", .str "array"), ("elementType", element),
        ("containsNull", .bool contains_null)] = true := rfl
    rw [wireSchemaCopy_eq_rename_iff hmembers (by simp) (by simp [wireKey_schema]), hparams, ← ih]
    simp [wireKey_schema, wireSchemaKey_schema, wireSchemaCopy, renameParameters, SchemaPart.member]
  case map =>
    intro members key value contains_null key_metadata value_metadata hmembers hkey hvalue ihkey
      ihvalue
    have hparams :
        hasParameters .type [("type", .str "map"), ("keyType", key), ("valueType", value),
          ("valueContainsNull", .bool contains_null)] = true := rfl
    rw [wireSchemaCopy_eq_rename_iff hmembers (by simp) (by simp [wireKey_schema]), hparams,
      List.forall_mem_append, ← ihkey, ← ihvalue]
    simp [wireKey_schema, wireSchemaKey_schema, wireSchemaCopy, renameParameters, SchemaPart.member]
  case struct =>
    intro members fields metadata hmembers hfields ih
    have hparams : hasParameters .type [("type", .str "struct"), ("fields", .arr fields)] =
      false := rfl
    rw [wireSchemaCopy_eq_rename_iff hmembers (by simp) (by simp [wireKey_schema]), hparams, ← ih]
    simp [wireKey_schema, wireSchemaCopy, renameParameters, SchemaPart.member]
  case nil => simp [wireSchemaItems, renameItems]
  case cons =>
    intro members name type nullable metadata fields type_metadata fields_metadata hmembers htype
      hfields ihtype
      ihfields
    have hparams :
        hasParameters .field [("name", .str name), ("type", type), ("nullable", .bool nullable),
          ("metadata", .obj metadata)] = false := rfl
    rw [List.forall_mem_cons, List.forall_mem_append, ← ihtype, ← ihfields,
      ← wireSchemaCopy_eq_self, wireSchemaItems, renameItems, List.cons_eq_cons, if_pos rfl,
      wireSchemaCopy_eq_rename_iff hmembers (by simp) (by simp [wireKey_schema]), hparams]
    simp [wireKey_schema, wireSchemaCopy, renameParameters_other, SchemaPart.member]
    rw [and_assoc]
    exact and_left_comm

/-! ## Renaming back -/

/-- An object is renamed back where its members are, and where it can still be told what it is. -/
theorem rename_back_of_members {part : SchemaPart} {members members' : List (String × Val)}
    {b : Bool} (h : members.Perm members') (hnodup : (members'.map Prod.fst).Nodup)
    (hnodup' : (members'.map fun m => (if b then wireSchemaKey else id) m.1).Nodup)
    (hparams : hasParameters part members' = b)
    (hparams' : hasParameters part (members'.map fun m => ((if b then wireSchemaKey else id) m.1,
      renameParameters wireSchemaKey (part.member m.1) m.2)) = b)
    (hback : ∀ m ∈ members',
      (if b then deltaSchemaKey else id) ((if b then wireSchemaKey else id) m.1) = m.1 ∧
      renameParameters deltaSchemaKey (part.member ((if b then wireSchemaKey else id) m.1))
        (renameParameters wireSchemaKey (part.member m.1) m.2) = m.2) :
    renameParameters deltaSchemaKey part (renameParameters wireSchemaKey part (.obj members)) =
      .obj members := by
  generalize hkey : (if b then wireSchemaKey else id) = key_name at hnodup' hparams' hback
  have hnodup'' : ((members'.map fun m => (key_name m.1,
      renameParameters wireSchemaKey (part.member m.1) m.2)).map Prod.fst).Nodup := by
    rw [List.map_map]
    exact hnodup'
  rw [renameParameters, renameParameters, hasParameters_perm h hnodup, hparams, hkey,
    renameMembers_eq_map, renameMembers_eq_map, hasParameters_perm (h.map _) hnodup'', hparams',
    List.map_map, Val.obj.injEq]
  -- member by member
  refine (List.map_congr_left ?_).trans (List.map_id members)
  intro m hm
  obtain ⟨hkeyBack, hchildBack⟩ := hback m (h.mem_iff.1 hm)
  exact Prod.ext hkeyBack hchildBack

theorem deltaSchemaKey_schema : deltaSchemaKey "type" = "type" ∧
    deltaSchemaKey "element-type" = "elementType" ∧
      deltaSchemaKey "contains-null" = "containsNull" ∧
    deltaSchemaKey "key-type" = "keyType" ∧ deltaSchemaKey "value-type" = "valueType" ∧
    deltaSchemaKey "value-contains-null" = "valueContainsNull" := by
  decide

/-- Nothing of a schema is lost in the renaming. -/
theorem IsDeltaType.rename_back {v : Val} {metadata : List Val} (h : IsDeltaType v metadata) :
    renameParameters deltaSchemaKey .type (renameParameters wireSchemaKey .type v) = v := by
  refine @IsDeltaType.rec
    (fun v _ _ => renameParameters deltaSchemaKey .type (renameParameters wireSchemaKey .type v) =
      v)
    (fun fields _ _ =>
      renameItems deltaSchemaKey .fields (renameItems wireSchemaKey .fields fields) = fields)
    ?primitive ?array ?map ?struct ?nil ?cons v metadata h
  case primitive =>
    intro name
    simp [renameParameters]
  case array =>
    intro members element contains_null metadata hmembers helement ih
    refine rename_back_of_members (b := true) hmembers (by simp) (by simp [wireSchemaKey_schema])
      rfl ?_ ?_
    · simp [hasParameters, objGet, getStr, wireSchemaKey_schema, renameParameters]
    · simp [wireSchemaKey_schema, deltaSchemaKey_schema, SchemaPart.member, renameParameters, ih]
  case map =>
    intro members key value contains_null key_metadata value_metadata hmembers hkey hvalue ihkey
      ihvalue
    refine rename_back_of_members (b := true) hmembers (by simp) (by simp [wireSchemaKey_schema])
      rfl ?_ ?_
    · simp [hasParameters, objGet, getStr, wireSchemaKey_schema, renameParameters]
    · simp [wireSchemaKey_schema, deltaSchemaKey_schema, SchemaPart.member, renameParameters, ihkey,
        ihvalue]
  case struct =>
    intro members fields metadata hmembers hfields ih
    refine rename_back_of_members (b := false) hmembers (by simp) (by simp) rfl ?_ ?_
    · simp [hasParameters, objGet, getStr, renameParameters]
    · simp [SchemaPart.member, renameParameters, ih]
  case nil => rfl
  case cons =>
    intro members name type nullable metadata fields type_metadata fields_metadata hmembers htype
      hfields ihtype
      ihfields
    rw [renameItems, renameItems, if_pos rfl, ihfields]
    refine congrArg (· :: fields) ?_
    refine rename_back_of_members (b := false) hmembers (by simp) (by simp) rfl ?_ ?_
    · simp [hasParameters]
    · simp [SchemaPart.member, renameParameters_other, ihtype]

/-! ## The schema on the wire -/

/-- `WireSchema` renames the parameters and nothing else, and so that they can be renamed back,
exactly where no metadata has anything that the copy would not keep. -/
theorem wire_schema_iff {schema_json : String} {v : Val} {metadata : List Val}
    (hread : read schema_json = some v) (hschema : IsDeltaType v metadata) :
    (∃ wire, UCAPI.wireDocument schema_json = .ok wire ∧
      wire = renameParameters wireSchemaKey .type v ∧
      renameParameters deltaSchemaKey .type wire = v) ↔ ∀ m ∈ metadata, IsKept m := by
  rw [← hschema.copy_iff, UCAPI.wireDocument, hread]
  constructor
  · rintro ⟨wire, hok, hwire, -⟩
    rw [← hwire]
    exact Except.ok.inj hok
  · intro hcopy
    refine ⟨_, rfl, hcopy, ?_⟩
    rw [hcopy]
    exact hschema.rename_back

/-- The schema of one column, a list of strings, with one member in its metadata. -/
def tagsSchema (key : String) : Val :=
  .obj [("type", .str "struct"), ("fields", .arr [.obj [("name", .str "tags"),
    ("type",
      .obj [("type", .str "array"), ("elementType", .str "string"), ("containsNull", .bool true)]),
    ("nullable", .bool true), ("metadata", .obj [(key, .str "x")])]])]

/-- Its text. -/
def tagsJson (key : String) : String :=
  String.ofList (["\x7b\"type\":\"struct\",", "\"fields\":[\x7b\"name\":\"tags\",",
    "\"type\":\x7b\"type\":\"array\",", "\"elementType\":\"string\",",
    "\"containsNull\":true\x7d,", "\"nullable\":true,", "\"metadata\":\x7b\"", key,
    "\":\"x\"\x7d\x7d]\x7d"].flatMap String.toList)

theorem isDeltaType_tagsSchema (key : String) :
    IsDeltaType (tagsSchema key) [.obj [(key, .str "x")]] :=
  .struct (.refl _) (.cons (.refl _) (.array (.refl _) (.primitive "string")) .nil)

theorem read_commentTags : read (tagsJson "comment") = some (tagsSchema "comment") :=
  read_ofList (by decide +kernel)

theorem read_keyTypeTags : read (tagsJson "keyType") = some (tagsSchema "keyType") :=
  read_ofList (by decide +kernel)

/-- A comment is kept. -/
theorem comment_is_kept :
    ∃ wire, UCAPI.wireDocument (tagsJson "comment") = .ok wire ∧
      wire = renameParameters wireSchemaKey .type (tagsSchema "comment") ∧
      renameParameters deltaSchemaKey .type wire = tagsSchema "comment" := by
  refine (wire_schema_iff read_commentTags (isDeltaType_tagsSchema "comment")).2 ?_
  rw [List.forall_mem_singleton]
  have hnul : '\x00' ∉ "comment".toList := by decide
  exact ⟨by simp, ⟨⟨by decide, hnul⟩, trivial⟩, trivial⟩

/-- A user's key that is the word for a parameter is renamed in the metadata. -/
theorem keyType_metadata_is_renamed :
    IsDeltaType (tagsSchema "keyType") [.obj [("keyType", .str "x")]] ∧
    UCAPI.wireDocument (tagsJson "keyType") =
      .ok (renameParameters wireSchemaKey .type (tagsSchema "key-type")) ∧
    renameParameters wireSchemaKey .type (tagsSchema "keyType") ≠
      renameParameters wireSchemaKey .type (tagsSchema "key-type") := by
  refine ⟨isDeltaType_tagsSchema "keyType", ?_, by decide +kernel⟩
  have hcopy : wireSchemaCopy (tagsSchema "keyType") =
      renameParameters wireSchemaKey .type (tagsSchema "key-type") := by
    decide +kernel
  rw [UCAPI.wireDocument, read_keyTypeTags, ← hcopy]

end UnityCatalog
