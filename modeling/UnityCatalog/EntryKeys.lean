import UnityCatalog.InternalNames
import UnityCatalog.TableVersion

/-!
# The keys of a transaction's entries

A transaction keeps the entries its lookups resolved, in one map, under a text that joins the
schema, the table and, for a lookup at a version or a time, a suffix. `Lookups.served_iff` says for
which lookups these texts stay apart: those of which none names a table the way another names a
version.
-/

namespace UnityCatalog

open Effectful

/-! ## What a lookup is about -/

/-- What an AT clause resolves to; `latest` where there is none. -/
inductive Instant where
  | latest
  | version (n : ℕ)
  | timestamp (ms : ℤ)
  deriving DecidableEq, Repr

/-- The end of the key. -/
def Instant.suffix : Instant → List Char
  | .latest => []
  | .version n => '@' :: (toString n).toList
  | .timestamp ms => '@' :: 't' :: 's' :: ':' :: (toString ms).toList

/-- A table at an instant. -/
structure Subject where
  schema_name : String
  table_name : String
  instant : Instant
  deriving DecidableEq, Repr

namespace Subject

/-- The part of the key after the schema. -/
def tail (a : Subject) : List Char := a.table_name.toList ++ a.instant.suffix

/-- The key. -/
def key (a : Subject) : List Char := a.schema_name.toList ++ '.' :: a.tail

end Subject

/-- The instant of an AT clause. -/
def instantOf : Option BoundAtClause → Except Exception Instant
  | none => pure .latest
  | some at_clause =>
    if at_clause.unit = "version" then at_clause.version.map .version
    else if at_clause.unit = "timestamp" then at_clause.epochMs.map .timestamp
    else throw ⟨.invalidConfiguration,
      "Delta tables only support at_clause with unit 'version' or 'timestamp'", []⟩

/-- What a lookup is about. -/
def TableInformation.subject (t : TableInformation) (at_clause : Option BoundAtClause) :
    Except Exception Subject :=
  (instantOf at_clause).map fun instant => ⟨t.schema_name, t.table_data.name, instant⟩

/-- **The key of a lookup** is that of what it is about. -/
theorem TableInformation.entryKey_eq (t : TableInformation) (at_clause : Option BoundAtClause) :
    t.entryKey at_clause = (t.subject at_clause).map fun a => String.ofList a.key := by
  have hlatest : t.schema_name ++ "." ++ t.table_data.name =
      String.ofList (Subject.key ⟨t.schema_name, t.table_data.name, .latest⟩) := by
    apply String.toList_inj.1
    simp [Subject.key, Subject.tail, Instant.suffix]
  cases at_clause with
  | none => exact congrArg Except.ok hlatest
  | some at_clause =>
    rw [entryKey, atClauseKeySuffix, subject, instantOf]
    by_cases hv : at_clause.unit = "version"
    · rw [if_pos hv, if_pos hv]
      cases at_clause.version with
      | error e => rfl
      | ok n =>
        apply congrArg Except.ok
        apply String.toList_inj.1
        simp [Subject.key, Subject.tail, Instant.suffix]
    · rw [if_neg hv, if_neg hv]
      by_cases ht : at_clause.unit = "timestamp"
      · rw [if_pos ht, if_pos ht]
        cases at_clause.epochMs with
        | error e => rfl
        | ok ms =>
          apply congrArg Except.ok
          apply String.toList_inj.1
          simp [Subject.key, Subject.tail, Instant.suffix]
      · rw [if_neg ht, if_neg ht]
        rfl

/-! ## Where two keys are one -/

/-- Two numbers that are printed alike are one. -/
theorem toString_nat_inj {m n : ℕ} (h : (toString m).toList = (toString n).toList) : m = n := by
  have hm := Nat.ofDigitChars_ten_toDigits (n := m)
  have hn := Nat.ofDigitChars_ten_toDigits (n := n)
  rw [Nat.toString_eq_repr, Nat.toString_eq_repr, Nat.toList_repr, Nat.toList_repr] at h
  rw [← hm, h, hn]

/-- A natural number is printed in digits only. -/
theorem isDigit_of_mem_toString {n : ℕ} {c : Char} (hc : c ∈ (toString n).toList) :
    c.isDigit = true := by
  rw [Nat.toString_eq_repr, Nat.toList_repr] at hc
  exact Nat.isDigit_of_mem_toDigits (by decide) (by decide) hc

/-- An integer is printed with a sign in front if it is negative. -/
theorem toString_int_toList (i : ℤ) : (toString i).toList =
    if i < 0 then '-' :: (toString i.natAbs).toList else (toString i.natAbs).toList := by
  rw [Int.toString_eq_repr, Int.repr_eq_if]
  split
  · rename_i h
    rw [if_neg (by omega), Nat.toString_eq_repr]
    congr 2
    omega
  · rename_i h
    rw [if_pos (by omega), Nat.toString_eq_repr, String.toList_append]
    have hn : i.natAbs = (-i).toNat := by omega
    rw [hn]
    rfl

/-- Two integers that are printed alike are one: no number's digits start with a sign. -/
theorem toString_int_inj {i j : ℤ} (h : (toString i).toList = (toString j).toList) : i = j := by
  have hsign : ∀ {m n : ℕ}, (toString m).toList ≠ '-' :: (toString n).toList := by
    intro m n hmn
    have hmem : '-' ∈ (toString m).toList := by
      rw [hmn]
      exact List.mem_cons_self
    exact absurd (isDigit_of_mem_toString hmem) (by decide)
  rw [toString_int_toList, toString_int_toList] at h
  split at h <;> split at h
  · have habs := toString_nat_inj (List.cons.inj h).2
    omega
  · exact absurd h.symm hsign
  · exact absurd h hsign
  · have habs := toString_nat_inj h
    omega

/-- No `@` stands in a printed number, so a version's end of a key can be told. -/
theorem at_notMem_toString_nat (n : ℕ) : '@' ∉ (toString n).toList := fun h =>
  absurd (isDigit_of_mem_toString h) (by decide)

/-- The same of a timestamp, which may be negative. -/
theorem at_notMem_toString_int (i : ℤ) : '@' ∉ (toString i).toList := by
  rw [toString_int_toList]
  split
  · rintro h
    rcases List.mem_cons.1 h with h | h
    · exact absurd h (by decide)
    · exact at_notMem_toString_nat _ h
  · exact at_notMem_toString_nat _

/-- The suffix after its separator: a version is digits, a time starts with `ts:`. -/
theorem Instant.suffix_inj {i j : Instant} {u v : List Char} (hi : i ≠ .latest) (hj : j ≠ .latest)
    (h : u ++ i.suffix = v ++ j.suffix) : u = v ∧ i = j := by
  have hsplit : ∀ {b d : List Char}, '@' ∉ b → '@' ∉ d →
      u ++ '@' :: b = v ++ '@' :: d → u = v ∧ b = d := by
    intro b d hb hd hbd
    rcases Joined.append_cons_eq_iff.1 hbd with heq | hs
    · exact heq
    · exact absurd hs (Joined.not_straddle_of_notMem_right hb hd)
  have hts : ∀ ms : ℤ, '@' ∉ 't' :: 's' :: ':' :: (toString ms).toList := by
    intro ms hmem
    simp only [List.mem_cons] at hmem
    rcases hmem with hc | hc | hc | hc
    · exact absurd hc (by decide)
    · exact absurd hc (by decide)
    · exact absurd hc (by decide)
    · exact at_notMem_toString_int ms hc
  have hdigit : ∀ (n : ℕ) (cs : List Char), (toString n).toList ≠ 't' :: cs := by
    intro n cs hn
    have hmem : 't' ∈ (toString n).toList := by
      rw [hn]
      exact List.mem_cons_self
    exact absurd (isDigit_of_mem_toString hmem) (by decide)
  cases i with
  | latest => exact absurd rfl hi
  | version n =>
    cases j with
    | latest => exact absurd rfl hj
    | version m =>
      obtain ⟨rfl, hnm⟩ := hsplit (at_notMem_toString_nat n) (at_notMem_toString_nat m) h
      rw [toString_nat_inj hnm]
      exact ⟨rfl, rfl⟩
    | timestamp ms => exact absurd (hsplit (at_notMem_toString_nat n) (hts ms) h).2 (hdigit n _)
  | timestamp ms =>
    cases j with
    | latest => exact absurd rfl hj
    | version n =>
      exact absurd (hsplit (hts ms) (at_notMem_toString_nat n) h).2.symm (hdigit n _)
    | timestamp ms' =>
      obtain ⟨rfl, hms⟩ := hsplit (hts ms) (hts ms') h
      simp only [List.cons.injEq, true_and] at hms
      rw [toString_int_inj hms]
      exact ⟨rfl, rfl⟩

namespace Subject

/-- `a` is about the latest version of a table whose name is `b`'s with the suffix of `b`'s version
or time. -/
def Aliases (a b : Subject) : Prop :=
  a.schema_name = b.schema_name ∧ a.instant = .latest ∧ b.instant ≠ .latest ∧
    a.table_name.toList = b.table_name.toList ++ b.instant.suffix

/-- The texts of the two cannot be told apart: one's table aliases the other's version, or a dot
that is part of a name makes their schemas and tables straddle. -/
def Confused (a b : Subject) : Prop :=
  a.Aliases b ∨ b.Aliases a ∨
    Joined.Straddle '.' a.schema_name.toList a.tail b.schema_name.toList b.tail

/-- Two subjects of one schema have the same key exactly if they are the same or one's table name
ends as the other's version is written. -/
theorem tail_eq_iff {a b : Subject} (hs : a.schema_name = b.schema_name) :
    a.tail = b.tail ↔ a = b ∨ a.Aliases b ∨ b.Aliases a := by
  obtain ⟨s, n, i⟩ := a
  obtain ⟨s', n', i'⟩ := b
  obtain rfl : s = s' := hs
  constructor
  · intro h
    by_cases hi : i = .latest
    · subst hi
      have hn : n.toList = n'.toList ++ i'.suffix := by simpa [tail, Instant.suffix] using h
      by_cases hi' : i' = .latest
      · subst hi'
        obtain rfl : n = n' := String.toList_inj.1 (by simpa [Instant.suffix] using hn)
        exact .inl rfl
      · exact .inr (.inl ⟨rfl, rfl, hi', hn⟩)
    · by_cases hi' : i' = .latest
      · subst hi'
        have hn : n'.toList = n.toList ++ i.suffix := by
          simpa [tail, Instant.suffix] using h.symm
        exact .inr (.inr ⟨rfl, rfl, hi, hn⟩)
      · obtain ⟨hn, rfl⟩ := Instant.suffix_inj hi hi' h
        obtain rfl := String.toList_inj.1 hn
        exact .inl rfl
  · rintro (h | ⟨-, hi, -, hn⟩ | ⟨-, hi, -, hn⟩)
    · rw [h]
    · obtain rfl : i = .latest := hi
      simpa [tail, Instant.suffix] using hn
    · obtain rfl : i' = .latest := hi
      simpa [tail, Instant.suffix] using hn.symm

/-- **Two keys are one** exactly where the subjects are, or are confused. -/
theorem key_eq_iff {a b : Subject} : a.key = b.key ↔ a = b ∨ a.Confused b := by
  rw [key, key, Joined.append_cons_eq_iff, String.toList_inj]
  constructor
  · rintro (⟨hs, ht⟩ | hs)
    · rcases (tail_eq_iff hs).1 ht with heq | ha | ha
      · exact .inl heq
      · exact .inr (.inl ha)
      · exact .inr (.inr (.inl ha))
    · exact .inr (.inr (.inr hs))
  · rintro (rfl | ha | ha | hs)
    · exact .inl ⟨rfl, rfl⟩
    · exact .inl ⟨ha.1, (tail_eq_iff ha.1).2 (.inr (.inl ha))⟩
    · exact .inl ⟨ha.1.symm, (tail_eq_iff ha.1.symm).2 (.inr (.inr ha))⟩
    · exact .inr hs

end Subject

/-! ## The operations of a lookup -/

namespace TableInformation

/-- A transaction's entries are asked for under the lookup's own key only. -/
def OwnKey (t : TableInformation) (at_clause : Option BoundAtClause) : Op → Prop
  | .getTableEntry key => t.entryKey at_clause = .ok key
  | .setTableEntry key _ => t.entryKey at_clause = .ok key
  | _ => True

variable {t : TableInformation} {at_clause : Option BoundAtClause}

/-- The operations by which a table's credentials are refreshed. -/
def RefreshStep (t : TableInformation) : Op → Prop
  | .ensureHttpfs | .issue _ | .answer => True
  | .createSecret input =>
    input.name = "__internal_uc_" ++ t.table_data.table_id ∧
      input.scope = t.table_data.storage_location
  | _ => False

/-- The operations by which a table is looked up in its Delta log. -/
def DeltaStep (t : TableInformation) (op : Op) : Prop :=
  t.RefreshStep op ∨ t.AttachStep op ∨ ∃ db at_clause, op = .lookupEntry db at_clause

/-- What a Delta table is got with goes to the subject's own key or to no key. -/
theorem ownKey_of_deltaStep {op : Op} (h : t.DeltaStep op) : t.OwnKey at_clause op := by
  rcases h with h | h | ⟨db, at_clause, rfl⟩
  · cases op <;> trivial
  · cases op <;> trivial
  · trivial

/-- A request is three operations, whatever comes back. -/
theorem uses_makeRequest {P : Op → Prop} {url token : String} {body : RequestBody}
    (he : P .ensureHttpfs) (hi : ∀ req, P (.issue req)) (ha : P .answer) :
    (makeRequest url token body).Uses P := by
  refine Prog.Uses.bind ?_ fun _ => trivial
  refine (Prog.uses_perform he).bind fun _ => (Prog.uses_perform (hi _)).bind fun _ => ?_
  refine (Prog.uses_perform ha).bind fun resp => ?_
  split <;> trivial

/-- Refreshing the keys asks for them and makes a secret. -/
theorem uses_refreshCredentials (t : TableInformation) :
    t.refreshCredentials.Uses t.RefreshStep := by
  rw [refreshCredentials]
  split
  · trivial
  · refine Prog.Uses.bind ?_ fun _ => Prog.uses_perform ⟨rfl, rfl⟩
    exact (uses_makeRequest trivial (fun _ => trivial) trivial).bind fun _ => Prog.uses_ofExcept _

/-- Getting the attached catalog goes through an attach. -/
theorem uses_getInternalCatalog : getInternalCatalog.Uses t.AttachStep := by
  refine (Prog.uses_perform trivial).bind fun db => ?_
  cases db <;> trivial

/-- A Delta table is got by an attach and a lookup in what was attached. -/
theorem uses_deltaTable (t : TableInformation) (at_clause : Option BoundAtClause) :
    (t.deltaTable at_clause).Uses t.DeltaStep := by
  refine (t.uses_refreshCredentials.mono fun _ => .inl).bind fun _ => ?_
  refine (t.uses_internalAttach_steps.mono fun _ h => .inr (.inl h)).bind fun _ => ?_
  refine Prog.Uses.bind ?_ fun db => Prog.uses_perform (.inr (.inr ⟨db, at_clause, rfl⟩))
  exact uses_getInternalCatalog.mono fun _ h => .inr (.inl h)

/-- An entry made from the log asks for the Delta table of its own subject. -/
theorem uses_entryFromDeltaLog : (t.entryFromDeltaLog at_clause).Uses (t.OwnKey at_clause) :=
  ((t.uses_deltaTable at_clause).mono fun _ => ownKey_of_deltaStep).bind fun _ => trivial

/-- The question whether the report or the log is bound asks for it too. -/
theorem uses_readsReport : (t.readsReport at_clause).Uses (t.OwnKey at_clause) := by
  rw [readsReport]
  split
  · trivial
  · split
    · refine Prog.Uses.bind ?_ fun _ => trivial
      rw [shouldTryScanPlan]
      split
      · exact Prog.uses_perform trivial
      · trivial
    · trivial

/-- A version that is asked for is looked up and stored under the subject's own key. -/
theorem uses_getVersion (t : TableInformation) (at_clause : Option BoundAtClause) :
    (t.getVersion at_clause).Uses (t.OwnKey at_clause) := by
  rw [getVersion_eq]
  refine (Prog.uses_ofExcept _).bind fun _ => uses_readsReport.bind fun report => ?_
  split
  · exact Prog.uses_ofExcept _
  · cases hkey : t.entryKey at_clause with
    | error e => trivial
    | ok key =>
      have hget : (getTableEntry key).Uses (t.OwnKey at_clause) := Prog.uses_perform hkey
      have hset : ∀ entry, (setTableEntry key entry).Uses (t.OwnKey at_clause) :=
        fun entry => Prog.uses_perform hkey
      refine hget.bind fun bound => ?_
      cases bound with
      | some bound => trivial
      | none =>
        refine uses_entryFromDeltaLog.bind fun entry => ?_
        cases entry with
        | some entry => exact hset entry
        | none =>
          dsimp only
          split
          · exact Prog.uses_ofExcept _
          · trivial

end TableInformation

/-! ## The lookups of one transaction -/

/-- The lookups of one transaction: each is of a table, with or without an AT clause. -/
structure Lookups where
  Lookup : Type
  decidableLookup : DecidableEq Lookup
  table : Lookup → TableInformation
  at_clause : Lookup → Option BoundAtClause

/-- The transaction's entries, each with the lookup that stored it. -/
structure EntryState (Lookup : Type) where
  entries : List (String × UCTableEntry × Lookup) := []
  /-- the lookups that were given an entry, each with the lookup that stored it -/
  served : List (Lookup × Lookup) := []

namespace Lookups

variable (L : Lookups)

instance : DecidableEq L.Lookup := L.decidableLookup

/-- What a lookup is about. -/
def subject (i : L.Lookup) : Except Exception Subject := (L.table i).subject (L.at_clause i)

/-- The key of a lookup. -/
def key (i : L.Lookup) : Except Exception String := (L.table i).entryKey (L.at_clause i)

/-- The operations of lookup `i`. UC, the Delta log and the rest of the session answer whatever they
like. -/
def entryAnswer (i : L.Lookup) (s : EntryState L.Lookup) (op : Op)
    (ch : (op : Op) → Except Exception op.Ans) : Except Exception op.Ans × EntryState L.Lookup :=
  match op with
  | .getTableEntry key =>
    match s.entries.find? fun x => x.1 == key with
    | some (_, entry, j) => (.ok (some entry), { s with served := (i, j) :: s.served })
    | none => (.ok none, s)
  | .setTableEntry key entry =>
    match s.entries.find? fun x => x.1 == key with
    | some (_, stored, j) => (.ok stored, { s with served := (i, j) :: s.served })
    | none => (.ok entry, ⟨(key, entry, i) :: s.entries, (i, i) :: s.served⟩)
  | op => (ch op, s)

/-- The threads of a transaction at their lookups. -/
def lookups : Pool Client Exception UCTableEntry where
  Ctx := ℕ × L.Lookup
  State := EntryState L.Lookup
  Choice := (op : Op) → Except Exception op.Ans
  answer c s op ch := some (L.entryAnswer c.2 s op ch)
  Call := Unit
  start s c _ := some ((L.table c.2).getVersion (L.at_clause c.2), s)
  finish s _ _ := s
  Env := Empty
  env s _ := some s
  init s := s = {}

instance : DecidableEq L.lookups.Ctx := inferInstanceAs (DecidableEq (ℕ × L.Lookup))

/-- Lookups about different subjects have different keys. -/
def KeysDiffer : Prop :=
  ∀ i j a b, L.subject i = .ok a → L.subject j = .ok b → a ≠ b → L.key i ≠ L.key j

/-- Every lookup was given an entry that was stored for what it is about. -/
def ServesOwn (s : EntryState L.Lookup) : Prop :=
  ∀ x ∈ s.served, L.subject x.1 = L.subject x.2

/-- No two of the lookups are confused. -/
def Unconfused : Prop :=
  ∀ i j a b, L.subject i = .ok a → L.subject j = .ok b → a ≠ b → ¬ a.Confused b

variable {L}

/-- A lookup that has a subject has that subject's key. -/
theorem key_of_subject {i : L.Lookup} {a : Subject} (h : L.subject i = .ok a) :
    L.key i = .ok (String.ofList a.key) := by
  have heq := (L.table i).entryKey_eq (L.at_clause i)
  rw [show (L.table i).subject (L.at_clause i) = .ok a from h] at heq
  exact heq

/-- A lookup that comes to a key has a subject; an AT clause that is refused comes to neither. -/
theorem subject_of_key {i : L.Lookup} {k : String} (h : L.key i = .ok k) :
    ∃ a, L.subject i = .ok a := by
  have heq := (L.table i).entryKey_eq (L.at_clause i)
  rw [show (L.table i).entryKey (L.at_clause i) = .ok k from h] at heq
  cases hs : L.subject i with
  | ok a => exact ⟨a, rfl⟩
  | error e =>
    rw [show (L.table i).subject (L.at_clause i) = .error e from hs] at heq
    cases heq

/-- Different subjects have different keys exactly if none of them is written as another with a
version. -/
theorem keysDiffer_iff (L : Lookups) : L.KeysDiffer ↔ L.Unconfused := by
  constructor
  · intro h i j a b ha hb hne hconf
    apply h i j a b ha hb hne
    rw [key_of_subject ha, key_of_subject hb, Subject.key_eq_iff.2 (.inr hconf)]
  · intro h i j a b ha hb hne heq
    rw [key_of_subject ha, key_of_subject hb] at heq
    have hkeys : a.key = b.key := String.ofList_inj.1 (Except.ok.inj heq)
    rcases Subject.key_eq_iff.1 hkeys with rfl | hconf
    · exact hne rfl
    · exact h i j a b ha hb hne hconf

/-- Under one key there is one subject. -/
theorem KeysDiffer.subject_eq (hL : L.KeysDiffer) {i j : L.Lookup} {k : String}
    (hi : L.key i = .ok k) (hj : L.key j = .ok k) : L.subject i = L.subject j := by
  obtain ⟨a, ha⟩ := subject_of_key hi
  obtain ⟨b, hb⟩ := subject_of_key hj
  by_contra hne
  rw [ha, hb] at hne
  exact hL i j a b ha hb (fun heq => hne (congrArg _ heq)) (hi.trans hj.symm)

/-! ## Every run -/

/-- What holds in every state where the keys differ: an entry is stored under the key of the lookup
that stored it. -/
structure EntryInv (s : EntryState L.Lookup) : Prop where
  stored : ∀ x ∈ s.entries, L.key x.2.2 = .ok x.1
  own : L.ServesOwn s

/-- No thread relies on anything of the others. -/
def serving (L : Lookups) : Outline L.lookups where
  guard := ⟨fun _ _ _ _ => True, fun _ _ => True⟩
  inv := EntryInv
  rely _ _ _ := True
  rely_refl _ _ := trivial
  rely_trans _ _ _ _ _ _ := trivial

/-- An entry found under a lookup's key was stored for its subject. -/
theorem EntryInv.serve (hL : L.KeysDiffer) {s : EntryState L.Lookup} (hs : EntryInv s)
    {i : L.Lookup} {k : String} (hi : L.key i = .ok k) {x : String × UCTableEntry × L.Lookup}
    (hx : s.entries.find? (fun x => x.1 == k) = some x) :
    EntryInv { s with served := (i, x.2.2) :: s.served } where
  stored := hs.stored
  own := by
    have hk : (x.1 == k) = true := by simpa using List.find?_some hx
    have hstored := hs.stored x (List.mem_of_find?_eq_some hx)
    rw [beq_iff_eq.1 hk] at hstored
    exact List.forall_mem_cons.2 ⟨hL.subject_eq hi hstored, hs.own⟩

/-- One operation of a lookup, under its own key. -/
theorem entryAnswer_inv (hL : L.KeysDiffer) {s : EntryState L.Lookup} (hs : EntryInv s)
    {i : L.Lookup} {op : Op} {ch : (op : Op) → Except Exception op.Ans}
    (hop : (L.table i).OwnKey (L.at_clause i) op) : EntryInv (L.entryAnswer i s op ch).2 := by
  cases op with
  | getTableEntry k =>
    simp only [entryAnswer]
    split
    · rename_i hx
      exact hs.serve hL hop hx
    · exact hs
  | setTableEntry k entry =>
    simp only [entryAnswer]
    split
    · rename_i hx
      exact hs.serve hL hop hx
    · exact ⟨List.forall_mem_cons.2 ⟨hop, hs.stored⟩, List.forall_mem_cons.2 ⟨rfl, hs.own⟩⟩
  | _ => exact hs

/-- Where the keys differ, every interleaving serves lookups their own entries. -/
theorem servesOwn_of_keysDiffer (hL : L.KeysDiffer) {cfg : L.lookups.Config}
    (h : L.lookups.system.Reachable cfg) : L.ServesOwn cfg.state := by
  refine (Outline.keeps_sound (O := L.serving) ⟨fun _ _ _ _ => trivial, fun _ _ => trivial⟩
    ?_ ?_ ?_ ?_ h).own
  · intro s hs
    rw [show s = {} from hs]
    exact ⟨fun _ hx => absurd hx List.not_mem_nil, fun _ hx => absurd hx List.not_mem_nil⟩
  · intro s c call p s' hs hst
    obtain ⟨rfl, rfl⟩ := Prod.mk.inj (Option.some.inj hst)
    refine ⟨hs, fun _ _ => trivial, ?_⟩
    apply Outline.keeps_of_each ((L.table c.2).uses_getVersion (L.at_clause c.2))
    intro s op ch x s' hs hop ha
    have hs' : s' = (L.entryAnswer c.2 s op ch).2 :=
      (congrArg Prod.snd (Option.some.inj ha)).symm
    rw [hs']
    exact ⟨entryAnswer_inv hL hs hop, fun _ _ => trivial⟩
  · exact fun s c r hs => ⟨hs, fun _ _ => trivial⟩
  · exact fun s e => nomatch e

/-- **A transaction's entries are never mixed up** exactly for the lookups of which no two are
confused: then different subjects have different keys, and in every interleaving a lookup is given
only an entry that was stored for what it is about. -/
theorem served_iff (L : Lookups) :
    (L.KeysDiffer ∧ ∀ cfg, L.lookups.system.Reachable cfg → L.ServesOwn cfg.state) ↔
      L.Unconfused := by
  constructor
  · exact fun h => L.keysDiffer_iff.1 h.1
  · intro h
    have hL : L.KeysDiffer := L.keysDiffer_iff.2 h
    exact ⟨hL, fun cfg hcfg => servesOwn_of_keysDiffer hL hcfg⟩

end Lookups

/-! ### A table named like a version

UC admits `@` in a table's name. -/

/-- Table `t` at version 1, and the latest version of table `t@1`. -/
def exampleLookups : Lookups where
  Lookup := Bool
  decidableLookup := inferInstance
  table i := AttachedTables.plainTable "s" (if i then "t" else "t@1")
  at_clause i := if i then some ⟨"version", .ok 1, .error (invalidInputException "no timestamp")⟩
    else none

/-- Every operation succeeds; the database is attached already. -/
def exampleEntryAnswer : (op : Op) → Except Exception op.Ans
  | .ensureHttpfs => .ok ()
  | .issue _ => .ok ()
  | .answer => .ok ⟨200, true, "", [], "\x7b\x7d"⟩
  | .createSecret _ => .ok ()
  | .lockAttach => .ok ()
  | .unlockAttach => .ok ()
  | .isDirty => .ok false
  | .attached => .ok (some 0)
  | .tryGetTransaction _ => .ok false
  | .lookupEntry _ _ => .ok (some ⟨[⟨"a", .integer⟩]⟩)
  | _ => .error (internalException "not there")

/-- A lookup, up to its `n`th operation. -/
def exampleLookup (i : Bool) (n : ℕ) : List exampleLookups.lookups.Label :=
  .start (0, i) () :: List.replicate n (.op (0, i) exampleEntryAnswer)

/-- No entry yet. -/
def exampleEntries : exampleLookups.lookups.Config := ⟨({} : EntryState Bool), fun _ => none⟩

/-- The latest version of `t@1` is given the entry that was stored for `t` at version 1. -/
theorem entries_mix_up : ¬ (exampleLookups.KeysDiffer ∧
    ∀ cfg, exampleLookups.lookups.system.Reachable cfg → exampleLookups.ServesOwn cfg.state) := by
  rintro ⟨-, hruns⟩
  have h : (exampleLookups.lookups.replay (fun _ _ => true)
      (exampleLookup true 14 ++ exampleLookup false 1) exampleEntries).map
        (fun cfg : exampleLookups.lookups.Config =>
          (EntryState.served cfg.state : List (Bool × Bool))) =
      some [(false, true), (true, true)] := by
    decide +kernel
  obtain ⟨cfg, hcfg, hst⟩ := Option.map_eq_some_iff.1 h
  have hown := hruns cfg
    ⟨exampleEntries, ⟨rfl, rfl⟩, Pool.run_of_replay (fun _ _ _ => trivial) hcfg⟩
  have hmem : ((false, true) : Bool × Bool) ∈ EntryState.served cfg.state := by
    rw [hst]
    exact List.mem_cons_self
  have heq : exampleLookups.subject false = exampleLookups.subject true := hown _ hmem
  have hname : (Except.ok ⟨"s", "t@1", .latest⟩ : Except Exception Subject) =
      .ok ⟨"s", "t", .version 1⟩ := heq
  simp at hname

end UnityCatalog
