import Mathlib.Data.List.TakeWhile
import UnityCatalog.Joined
import UnityCatalog.Yyjson

/-!
# URLs

A library module: how a URL is taken apart, by the generic rules. The fragment starts at the first
`#` and the query at the first `?`; what is before it is cut at slashes, and the query at `&`, each
pair at its first `=`. Only then an escape, `%` and two hexadecimal digits, is decoded, to an octet,
and in a query a `+` is a space. `address_render_iff` says for which parts a URL that is put
together from parts, without any escaping, is taken apart into these.
-/

namespace Url

open Yyjson (hexDigit)

/-! ## Octets -/

/-- The octets of a text. -/
def octets (text : List Char) : List UInt8 := text.flatMap String.utf8EncodeChar

@[simp] theorem octets_nil : octets [] = [] := rfl

@[simp] theorem octets_cons (c : Char) (text : List Char) :
    octets (c :: text) = String.utf8EncodeChar c ++ octets text := rfl

@[simp] theorem octets_append (a b : List Char) : octets (a ++ b) = octets a ++ octets b :=
  List.flatMap_append

/-- A character has at least one octet, so that a text is no longer than its octets. -/
theorem length_utf8_pos (c : Char) : 0 < (String.utf8EncodeChar c).length := by
  rw [String.length_utf8EncodeChar]
  exact Char.utf8Size_pos c

/-- A part of a text that has all of its octets is all of it. -/
theorem eq_nil_of_octets_length {text : List Char} (h : (octets text).length = 0) : text = [] := by
  cases text with
  | nil => rfl
  | cons c text =>
    have hpos := length_utf8_pos c
    rw [octets_cons, List.length_append] at h
    omega

/-! ## Escapes -/

/-- Three characters that are decoded to an octet. -/
def isEscape (c x y : Char) : Bool := c == '%' && (hexDigit x).isSome && (hexDigit y).isSome

/-- The octet. -/
def escaped (x y : Char) : UInt8 := UInt8.ofNat (16 * (hexDigit x).getD 0 + (hexDigit y).getD 0)

/-- The octets of a text whose escapes are decoded. -/
def percentDecode : List Char → List UInt8
  | c :: x :: y :: rest =>
    if isEscape c x y then escaped x y :: percentDecode rest
    else String.utf8EncodeChar c ++ percentDecode (x :: y :: rest)
  | c :: rest => String.utf8EncodeChar c ++ percentDecode rest
  | [] => []

/-- A text with an escape in it. -/
def HasEscape (text : List Char) : Prop := ∃ x y, isEscape '%' x y = true ∧ ['%', x, y] <:+: text

/-- An escape starts with a percent sign. -/
theorem eq_percent {c x y : Char} (h : isEscape c x y = true) : c = '%' := by
  rw [isEscape, Bool.and_eq_true, Bool.and_eq_true] at h
  exact eq_of_beq h.1.1

/-- No escape is read at the front. -/
theorem percentDecode_cons {c : Char} {rest : List Char}
    (h : ∀ x y behind, rest = x :: y :: behind → isEscape c x y = false) :
    percentDecode (c :: rest) = String.utf8EncodeChar c ++ percentDecode rest := by
  rcases rest with _ | ⟨x, _ | ⟨y, behind⟩⟩
  · rfl
  · rfl
  · rw [percentDecode, h x y behind rfl]
    rfl

/-- Decoding never lengthens: an escape's three characters are read as one octet. -/
theorem percentDecode_length_le (text : List Char) :
    (percentDecode text).length ≤ (octets text).length := by
  fun_induction percentDecode text with
  | case1 c x y rest _ ih =>
    have := length_utf8_pos c
    simp only [octets_cons, List.length_cons, List.length_append]
    omega
  | case2 c x y rest _ ih =>
    rw [octets_cons, List.length_append, List.length_append]
    omega
  | case3 c rest _ ih =>
    rw [octets_cons, List.length_append, List.length_append]
    omega
  | case4 => exact Nat.le_refl _

/-- A character that starts no escape may be left away in looking for one. -/
theorem hasEscape_cons {c : Char} {rest : List Char}
    (h : ∀ x y behind, rest = x :: y :: behind → isEscape c x y = false) :
    HasEscape (c :: rest) ↔ HasEscape rest := by
  constructor
  · rintro ⟨x, y, hescape, hwithin⟩
    rcases List.infix_cons_iff.1 hwithin with hpre | hwithin
    · obtain ⟨behind, heq⟩ := hpre
      obtain ⟨rfl, htail⟩ := List.cons.inj heq
      rw [h x y behind htail.symm] at hescape
      cases hescape
    · exact ⟨x, y, hescape, hwithin⟩
  · rintro ⟨x, y, hescape, hwithin⟩
    exact ⟨x, y, hescape, List.infix_cons hwithin⟩

/-- Decoding shortens a text with an escape, and leaves any other. -/
theorem percentDecode_cases (text : List Char) :
    (¬ HasEscape text ∧ percentDecode text = octets text) ∨
      (HasEscape text ∧ (percentDecode text).length < (octets text).length) := by
  fun_induction percentDecode text with
  | case1 c x y rest hescape ih =>
    obtain rfl := eq_percent hescape
    refine .inr ⟨⟨x, y, hescape, [], rest, rfl⟩, ?_⟩
    have hle := percentDecode_length_le rest
    have hx := length_utf8_pos x
    have hy := length_utf8_pos y
    have hc := length_utf8_pos '%'
    simp only [octets_cons, List.length_cons, List.length_append]
    omega
  | case2 c x y rest hescape ih =>
    have hcons : HasEscape (c :: x :: y :: rest) ↔ HasEscape (x :: y :: rest) := by
      refine hasEscape_cons ?_
      intro x' y' behind heq
      obtain ⟨hx, hrest⟩ := List.cons.inj heq
      rw [← hx, ← (List.cons.inj hrest).1]
      exact Bool.eq_false_iff.2 hescape
    rw [hcons, octets_cons, List.append_cancel_left_eq, List.length_append, List.length_append]
    exact ih.imp_right fun h => ⟨h.1, Nat.add_lt_add_left h.2 _⟩
  | case3 c rest hshort ih =>
    have hcons : HasEscape (c :: rest) ↔ HasEscape rest :=
      hasEscape_cons fun x y behind heq => (hshort x y behind heq).elim
    rw [hcons, octets_cons, List.append_cancel_left_eq, List.length_append, List.length_append]
    exact ih.imp_right fun h => ⟨h.1, Nat.add_lt_add_left h.2 _⟩
  | case4 =>
    refine .inl ⟨?_, rfl⟩
    rintro ⟨x, y, -, hwithin⟩
    cases List.infix_nil.1 hwithin

/-- A text without an escape is read as it is. -/
theorem percentDecode_of_not_hasEscape {text : List Char} (h : ¬ HasEscape text) :
    percentDecode text = octets text :=
  ((percentDecode_cases text).resolve_right fun hescape => h hescape.1).2

/-- A text that is read at full length has no escape in it, as each would have shortened it. -/
theorem not_hasEscape_of_length {text : List Char}
    (h : (octets text).length ≤ (percentDecode text).length) : ¬ HasEscape text :=
  ((percentDecode_cases text).resolve_right fun hescape => Nat.not_lt.2 h hescape.2).1

/-- A text is read as it is exactly if nothing in it looks like an escape. The lengths show one
direction. -/
theorem percentDecode_eq_iff (text : List Char) :
    percentDecode text = octets text ↔ ¬ HasEscape text :=
  ⟨fun h => not_hasEscape_of_length (congrArg List.length h).ge, percentDecode_of_not_hasEscape⟩

instance decidableHasEscape (text : List Char) : Decidable (HasEscape text) :=
  decidable_of_iff (percentDecode text ≠ octets text) (by rw [ne_eq, percentDecode_eq_iff, not_not])

/-- A character that is no part of an escape. -/
def Separates (sep : Char) : Prop := sep ≠ '%' ∧ hexDigit sep = none

/-- A separator is no part of an escape, neither its percent sign nor one of its digits. -/
theorem Separates.not_escape {sep : Char} (h : Separates sep) (c x : Char) :
    isEscape sep c x = false ∧ isEscape c sep x = false ∧ isEscape c x sep = false := by
  refine ⟨?_, ?_, ?_⟩
  · rw [isEscape, beq_false_of_ne h.1]
    rfl
  · rw [isEscape, h.2]
    simp
  · rw [isEscape, h.2]
    simp

/-- No escape goes over a separator. -/
theorem percentDecode_append_cons {sep : Char} (h : Separates sep) (a b : List Char) :
    percentDecode (a ++ sep :: b) =
      percentDecode a ++ String.utf8EncodeChar sep ++ percentDecode b := by
  fun_induction percentDecode a with
  | case1 c x y rest hescape ih =>
    rw [List.cons_append, List.cons_append, List.cons_append, percentDecode, if_pos hescape, ih]
    rfl
  | case2 c x y rest hescape ih =>
    rw [List.cons_append, List.cons_append, List.cons_append, percentDecode, if_neg hescape,
      ← List.cons_append, ← List.cons_append, ih, List.append_assoc, List.append_assoc,
      List.append_assoc]
  | case3 c rest hshort ih =>
    rw [List.cons_append, percentDecode_cons, ih, List.append_assoc, List.append_assoc,
      List.append_assoc]
    intro x y behind heq
    rcases rest with _ | ⟨d, _ | ⟨e, rest⟩⟩
    · rw [← (List.cons.inj heq).1]
      exact (h.not_escape c y).2.1
    · obtain ⟨-, heq⟩ := List.cons.inj heq
      rw [← (List.cons.inj heq).1]
      exact (h.not_escape c x).2.2
    · exact (hshort d e rest rfl).elim
  | case4 =>
    rw [List.nil_append, percentDecode_cons]
    · rfl
    · exact fun x y _ _ => (h.not_escape x y).1

/-- An escape in a part is one in the whole. -/
theorem HasEscape.mono {a b : List Char} (h : HasEscape a) (hwithin : a <:+: b) : HasEscape b := by
  obtain ⟨x, y, hescape, hmem⟩ := h
  exact ⟨x, y, hescape, hmem.trans hwithin⟩

/-! ## Queries -/

/-- In a query, a `+` is a space. -/
def plusToSpace (c : Char) : Char := if c = '+' then ' ' else c

/-- The octets of a part of a query. -/
def formDecode (text : List Char) : List UInt8 := percentDecode (text.map plusToSpace)

/-- A plus sign and the space it is read as have one octet each. -/
theorem octets_map_plusToSpace_length (text : List Char) :
    (octets (text.map plusToSpace)).length = (octets text).length := by
  induction text with
  | nil => rfl
  | cons c text ih =>
    have hc : (String.utf8EncodeChar (plusToSpace c)).length =
        (String.utf8EncodeChar c).length := by
      rw [plusToSpace]
      split
      · rename_i hplus
        rw [hplus]
        rfl
      · rfl
    rw [List.map_cons, octets_cons, octets_cons, List.length_append, List.length_append, hc, ih]

/-- A text without a plus sign is not changed by reading them as spaces. -/
theorem map_plusToSpace {text : List Char} (h : '+' ∉ text) : text.map plusToSpace = text := by
  refine (List.map_congr_left ?_).trans (List.map_id text)
  intro c hc
  rw [plusToSpace, if_neg]
  · rfl
  · rintro rfl
    exact h hc

/-- If reading plus signs as spaces changes no octet, there was none. -/
theorem notMem_plus {text : List Char} (h : octets (text.map plusToSpace) = octets text) :
    '+' ∉ text := by
  induction text with
  | nil => exact List.not_mem_nil
  | cons c text ih =>
    rw [List.map_cons, octets_cons, octets_cons] at h
    by_cases hplus : c = '+'
    · rw [hplus] at h
      have hoctet : (0x20 : UInt8) = 0x2B := (List.cons.inj h).1
      exact absurd hoctet (by decide)
    · rw [plusToSpace, if_neg hplus, List.append_cancel_left_eq] at h
      rw [List.mem_cons, not_or]
      exact ⟨Ne.symm hplus, ih h⟩

/-- A value of a query is read as it is exactly if it has neither a plus sign nor anything like an
escape. -/
theorem formDecode_eq_iff (text : List Char) :
    formDecode text = octets text ↔ '+' ∉ text ∧ ¬ HasEscape text := by
  constructor
  · intro h
    have hnone : ¬ HasEscape (text.map plusToSpace) := by
      refine not_hasEscape_of_length ?_
      rw [octets_map_plusToSpace_length, ← h, formDecode]
    rw [formDecode, percentDecode_of_not_hasEscape hnone] at h
    have hplus := notMem_plus h
    rw [map_plusToSpace hplus] at hnone
    exact ⟨hplus, hnone⟩
  · rintro ⟨hplus, hnone⟩
    rw [formDecode, map_plusToSpace hplus, percentDecode_of_not_hasEscape hnone]

/-- Decoding goes part by part where a separator stands between the parts: no escape reaches over
it. -/
theorem formDecode_append_cons {sep : Char} (h : Separates sep) (hsep : sep ≠ '+')
    (a b : List Char) :
    formDecode (a ++ sep :: b) = formDecode a ++ String.utf8EncodeChar sep ++ formDecode b := by
  rw [formDecode, List.map_append, List.map_cons, plusToSpace, if_neg hsep,
    percentDecode_append_cons h]
  rfl

/-! ## Cutting -/

/-- The text before the first separator, and the text behind it, if there is one. -/
def cut (sep : Char) (text : List Char) : List Char × Option (List Char) :=
  match text.dropWhile (· != sep) with
  | [] => (text, none)
  | _ :: rest => (text.takeWhile (· != sep), some rest)

/-- A text without the separator is not cut. -/
theorem cut_of_notMem {sep : Char} {text : List Char} (h : sep ∉ text) :
    cut sep text = (text, none) := by
  have hdrop : text.dropWhile (· != sep) = [] := by
    rw [List.dropWhile_eq_nil_iff]
    intro c hc
    rw [bne_iff_ne]
    rintro rfl
    exact h hc
  rw [cut, hdrop]

/-- A text is cut at the first separator, and what follows may have more of them. -/
theorem cut_append_cons {sep : Char} {a : List Char} (h : sep ∉ a) (b : List Char) :
    cut sep (a ++ sep :: b) = (a, some b) := by
  have hall : ∀ c ∈ a, (c != sep) = true := by
    intro c hc
    rw [bne_iff_ne]
    rintro rfl
    exact h hc
  rw [cut, List.dropWhile_append_of_pos hall, List.dropWhile_cons_of_neg (by simp),
    List.takeWhile_append_of_pos hall, List.takeWhile_cons_of_neg (by simp), List.append_nil]

/-- What maps separators to octets maps joined texts to joined octets. -/
theorem map_intercalate {f : List Char → List UInt8} {sep : Char} {o : UInt8}
    (hf : ∀ a b, f (a ++ sep :: b) = f a ++ o :: f b) {parts : List (List Char)}
    (hne : parts ≠ []) :
    f ([sep].intercalate parts) = [o].intercalate (parts.map f) := by
  induction parts with
  | nil => exact absurd rfl hne
  | cons part parts ih =>
    cases parts with
    | nil => simp
    | cons next parts =>
      rw [List.intercalate_cons_cons, List.append_assoc, List.singleton_append, hf, ih (by simp),
        List.map_cons, List.map_cons, List.map_cons, List.intercalate_cons_cons, List.append_assoc,
        List.singleton_append]

/-- A function that commutes with the separator commutes with splitting at it and joining again. -/
theorem intercalate_map_splitOn {f : List Char → List UInt8} {sep : Char} {o : UInt8}
    (hf : ∀ a b, f (a ++ sep :: b) = f a ++ o :: f b) (text : List Char) :
    [o].intercalate ((text.splitOn sep).map f) = f text := by
  rw [← map_intercalate hf (List.splitOn_ne_nil sep text), List.intercalate_splitOn]

/-- Joining puts the separator in front of each part but the first. -/
theorem intercalate_cons {α : Type} (o : α) (a : List α) (bs : List (List α)) :
    [o].intercalate (a :: bs) = a ++ bs.flatMap (o :: ·) := by
  induction bs generalizing a with
  | nil => rw [List.intercalate_singleton, List.flatMap_nil, List.append_nil]
  | cons b bs ih =>
    rw [List.intercalate_cons_cons, ih, List.flatMap_cons, List.append_assoc, List.singleton_append,
      List.cons_append]

/-- Two lists of parts are joined with a separator between them, if there are parts in front. -/
theorem intercalate_append {α : Type} (o : α) {as : List (List α)} (hne : as ≠ [])
    (bs : List (List α)) :
    [o].intercalate (as ++ bs) = [o].intercalate as ++ bs.flatMap (o :: ·) := by
  cases as with
  | nil => exact absurd rfl hne
  | cons a as =>
    rw [List.cons_append, intercalate_cons, intercalate_cons, List.flatMap_append,
      List.append_assoc]

/-- A text is cut into one piece where the separator does not stand in it. -/
theorem length_splitOn_eq_one {sep : Char} {text : List Char} :
    (text.splitOn sep).length = 1 ↔ sep ∉ text := by
  constructor
  · intro hlen hmem
    obtain ⟨a, b, rfl, -⟩ := List.eq_append_cons_of_mem hmem
    rw [List.splitOn_append_cons_self, List.length_append] at hlen
    have ha := List.length_pos_iff.2 (List.splitOn_ne_nil sep a)
    have hb := List.length_pos_iff.2 (List.splitOn_ne_nil sep b)
    omega
  · intro h
    rw [List.splitOn_eq_singleton h]
    rfl

/-- What is behind a text does not make it fewer pieces. -/
theorem length_splitOn_le (sep : Char) (a b : List Char) :
    (a.splitOn sep).length ≤ ((a ++ b).splitOn sep).length := by
  induction a with
  | nil => exact List.length_pos_iff.2 (List.splitOn_ne_nil sep b)
  | cons c a ih =>
    rw [List.cons_append, List.splitOn_cons_eq_if_modifyHead, List.splitOn_cons_eq_if_modifyHead]
    split
    · exact Nat.succ_le_succ ih
    · rw [List.length_modifyHead, List.length_modifyHead]
      exact ih

/-- Pieces of pieces: where there are no more of them, no piece was cut. -/
theorem notMem_of_flatMap_splitOn {sep : Char} (parts : List (List Char)) :
    parts.length ≤ (parts.flatMap (·.splitOn sep)).length ∧
      ((parts.flatMap (·.splitOn sep)).length = parts.length → ∀ part ∈ parts, sep ∉ part) := by
  induction parts with
  | nil => simp
  | cons part parts ih =>
    obtain ⟨hle, heq⟩ := ih
    have hpos := List.length_pos_iff.2 (List.splitOn_ne_nil sep part)
    rw [List.flatMap_cons, List.length_append, List.length_cons]
    refine ⟨by omega, fun hlen => List.forall_mem_cons.2 ⟨?_, heq (by omega)⟩⟩
    exact length_splitOn_eq_one.1 (by omega)

/-- Parts without the separator are not split further. -/
theorem flatMap_splitOn_of_notMem {sep : Char} {parts : List (List Char)}
    (h : ∀ part ∈ parts, sep ∉ part) :
    parts.flatMap (·.splitOn sep) = parts := by
  induction parts with
  | nil => rfl
  | cons part parts ih =>
    obtain ⟨hpart, hparts⟩ := List.forall_mem_cons.1 h
    rw [List.flatMap_cons, ih hparts, List.splitOn_eq_singleton hpart]
    rfl

/-! ## What a URL addresses -/

/-- What a URL says once it is taken apart and decoded. The path starts with the scheme and the
authority; a pair of the query may have no value. -/
structure Address where
  path : List (List UInt8)
  query : List (List UInt8 × Option (List UInt8))
  fragment : Option (List Char)
  deriving DecidableEq

/-- A pair of a query. -/
def decodePair (pair : List Char) : List UInt8 × Option (List UInt8) :=
  let (key, value) := cut '=' pair
  (formDecode key, value.map formDecode)

/-- The pieces of a path. -/
def decodePath (path : List Char) : List (List UInt8) := (path.splitOn '/').map percentDecode

/-- The pairs of a query, none if there is no query. -/
def decodeQuery : Option (List Char) → List (List UInt8 × Option (List UInt8))
  | none => []
  | some query => (query.splitOn '&').map decodePair

/-- What a URL addresses. -/
def address (url : List Char) : Address :=
  let (url, fragment) := cut '#' url
  let (path, query) := cut '?' url
  { path := decodePath path, query := decodeQuery query, fragment }

/-! ## URLs from parts -/

/-- The text of segments. -/
def segmentsText (segments : List (List Char)) : List Char := segments.flatMap ('/' :: ·)

/-- The text of a pair. -/
def pairText (pair : List Char × List Char) : List Char := pair.1 ++ '=' :: pair.2

/-- The text of pairs. -/
def pairsText : List (List Char × List Char) → List Char
  | [] => []
  | [pair] => pairText pair
  | pair :: next :: pairs => pairText pair ++ '&' :: pairsText (next :: pairs)

/-- The text of a query. -/
def queryText : List (List Char × List Char) → List Char
  | [] => []
  | pair :: pairs => '?' :: pairsText (pair :: pairs)

/-- A URL that is put together from a base, segments and pairs. -/
def render (base : List Char) (segments : List (List Char)) (query : List (List Char × List Char)) :
    List Char :=
  base ++ segmentsText segments ++ queryText query

/-- What it is to address. -/
def intended (base : List Char) (segments : List (List Char))
    (query : List (List Char × List Char)) :
    Address where
  path := decodePath base ++ segments.map octets
  query := query.map fun pair => (octets pair.1, some (octets pair.2))
  fragment := none

/-- A base that segments and a query can follow. -/
structure PlainBase (text : List Char) : Prop where
  question : '?' ∉ text
  hash : '#' ∉ text

/-- A text that stands for itself as a segment. -/
structure PlainSegment (text : List Char) : Prop where
  slash : '/' ∉ text
  question : '?' ∉ text
  hash : '#' ∉ text
  escape : ¬ HasEscape text

/-- A text that stands for itself as a value. -/
structure PlainValue (text : List Char) : Prop where
  ampersand : '&' ∉ text
  plus : '+' ∉ text
  hash : '#' ∉ text
  escape : ¬ HasEscape text

/-- A text that stands for itself as a key. -/
structure PlainKey (text : List Char) : Prop extends PlainValue text where
  equals : '=' ∉ text

instance decidablePlainBase (text : List Char) : Decidable (PlainBase text) :=
  decidable_of_iff ('?' ∉ text ∧ '#' ∉ text) ⟨fun h => ⟨h.1, h.2⟩, fun h => ⟨h.question, h.hash⟩⟩

instance decidablePlainSegment (text : List Char) : Decidable (PlainSegment text) :=
  decidable_of_iff ('/' ∉ text ∧ '?' ∉ text ∧ '#' ∉ text ∧ ¬ HasEscape text)
    ⟨fun h => ⟨h.1, h.2.1, h.2.2.1, h.2.2.2⟩, fun h => ⟨h.slash, h.question, h.hash, h.escape⟩⟩

instance decidablePlainValue (text : List Char) : Decidable (PlainValue text) :=
  decidable_of_iff ('&' ∉ text ∧ '+' ∉ text ∧ '#' ∉ text ∧ ¬ HasEscape text)
    ⟨fun h => ⟨h.1, h.2.1, h.2.2.1, h.2.2.2⟩, fun h => ⟨h.ampersand, h.plus, h.hash, h.escape⟩⟩

theorem separates_slash : Separates '/' := ⟨by decide, rfl⟩

theorem separates_ampersand : Separates '&' := ⟨by decide, rfl⟩

theorem separates_equals : Separates '=' := ⟨by decide, rfl⟩

/-- A plain value is read as it is. -/
theorem PlainValue.decode {text : List Char} (h : PlainValue text) :
    formDecode text = octets text := (formDecode_eq_iff text).2 ⟨h.plus, h.escape⟩

section

variable {base : List Char} {segments : List (List Char)} {query : List (List Char × List Char)}

/-- A query's text is its pairs with ampersands between them. -/
theorem pairsText_eq (query : List (List Char × List Char)) :
    pairsText query = ['&'].intercalate (query.map pairText) := by
  induction query with
  | nil => rfl
  | cons pair query ih =>
    cases query with
    | nil => simp [pairsText]
    | cons next query =>
      rw [pairsText, ih, List.map_cons, List.map_cons, List.map_cons, List.intercalate_cons_cons,
        List.append_assoc, List.singleton_append]

/-- A path with segments put behind it splits into what both split into: a slash in a segment makes
two of it. -/
theorem splitOn_path (base : List Char) (segments : List (List Char)) :
    (base ++ segmentsText segments).splitOn '/' =
      base.splitOn '/' ++ segments.flatMap (·.splitOn '/') := by
  induction segments generalizing base with
  | nil => simp [segmentsText]
  | cons segment segments ih =>
    have htext : base ++ segmentsText (segment :: segments) =
        base ++ '/' :: (segment ++ segmentsText segments) := rfl
    rw [htext, List.splitOn_append_cons_self, ih, List.flatMap_cons]

/-- A query splits into what its pairs split into: an ampersand in one makes two of it. -/
theorem splitOn_pairs (hne : query ≠ []) :
    (pairsText query).splitOn '&' = (query.map pairText).flatMap (·.splitOn '&') := by
  induction query with
  | nil => exact absurd rfl hne
  | cons pair query ih =>
    cases query with
    | nil => simp [pairsText]
    | cons next query =>
      rw [pairsText, List.splitOn_append_cons_self, ih (by simp),
      List.map_cons (l := next :: query), List.flatMap_cons]

/-- Each pair stands in the query, so an escape in it is one in the URL. -/
theorem infix_pairsText {pair : List Char × List Char} (h : pair ∈ query) :
    pairText pair <:+: pairsText query := by
  induction query with
  | nil => cases h
  | cons first query ih =>
    cases query with
    | nil =>
      obtain rfl := List.mem_singleton.1 h
      exact List.infix_rfl
    | cons next query =>
      rw [pairsText]
      rcases List.mem_cons.1 h with rfl | h
      · exact List.infix_append_left
      · exact (ih h).trans (List.infix_cons List.infix_rfl |>.trans List.infix_append_right)

/-- Each segment stands in the path, so an escape in it is one in the URL. -/
theorem infix_segmentsText {segment : List Char} (h : segment ∈ segments) :
    segment <:+: segmentsText segments := by
  obtain ⟨before, behind, rfl⟩ := List.append_of_mem h
  rw [segmentsText, List.flatMap_append, List.flatMap_cons]
  exact (List.infix_cons List.infix_append_left).trans List.infix_append_right

/-- A pair, put together again. -/
def joinPair : List UInt8 × Option (List UInt8) → List UInt8
  | (key, none) => key
  | (key, some value) => key ++ 0x3D :: value

/-- A pair that is decoded in two halves and joined is the pair decoded. -/
theorem joinPair_decodePair (pair : List Char) : joinPair (decodePair pair) = formDecode pair := by
  by_cases h : '=' ∈ pair
  · obtain ⟨key, value, rfl, hkey⟩ := List.eq_append_cons_of_mem h
    rw [decodePair, cut_append_cons hkey, formDecode_append_cons separates_equals (by decide),
      List.append_assoc]
    rfl
  · rw [decodePair, cut_of_notMem h]
    rfl

/-- A query that is read as the pairs that are meant is made of plain values. -/
theorem plain_of_decodeQuery (hne : query ≠ [])
    (h : decodeQuery (some (pairsText query)) =
      query.map fun pair => (octets pair.1, some (octets pair.2))) :
    ∀ pair ∈ query, '&' ∉ pair.2 ∧ '+' ∉ pair.2 ∧ ¬ HasEscape pair.2 := by
  have hoctets : ∀ a b : List Char, octets (a ++ '&' :: b) = octets a ++ 0x26 :: octets b :=
    fun a b => octets_append a ('&' :: b)
  have hform : ∀ a b : List Char, formDecode (a ++ '&' :: b) =
      formDecode a ++ 0x26 :: formDecode b := by
    intro a b
    rw [formDecode_append_cons separates_ampersand (by decide), List.append_assoc]
    rfl
  have hjoin : ∀ pair : List Char × List Char,
      joinPair (octets pair.1, some (octets pair.2)) = octets (pairText pair) :=
    fun pair => (octets_append pair.1 ('=' :: pair.2)).symm
  -- the pairs, joined again, are the query, decoded and as it is
  have hdecode : formDecode (pairsText query) = octets (pairsText query) := by
    have hjoined := congrArg (fun pairs => [0x26].intercalate (pairs.map joinPair)) h
    simp only [decodeQuery, List.map_map, Function.comp_def, joinPair_decodePair, hjoin] at hjoined
    rw [intercalate_map_splitOn hform] at hjoined
    rw [hjoined, pairsText_eq, map_intercalate hoctets (by simpa using hne), List.map_map]
    rfl
  obtain ⟨hplus, hescape⟩ := (formDecode_eq_iff _).1 hdecode
  have hcut : ∀ text ∈ query.map pairText, '&' ∉ text := by
    refine (notMem_of_flatMap_splitOn (query.map pairText)).2 ?_
    have hlen := congrArg List.length h
    rw [decodeQuery, List.length_map, List.length_map, splitOn_pairs hne] at hlen
    rw [hlen, List.length_map]
  intro pair hpair
  have hsuffix : pair.2 <:+ pairText pair :=
    (List.suffix_cons '=' pair.2).trans (List.suffix_append pair.1 ('=' :: pair.2))
  have hwithin : pair.2 <:+: pairsText query := hsuffix.isInfix.trans (infix_pairsText hpair)
  refine ⟨?_, fun hmem => hplus (hwithin.subset hmem), fun hmem => hescape (hmem.mono hwithin)⟩
  intro hmem
  exact hcut _ (List.mem_map_of_mem hpair) (List.mem_append_right _ (List.mem_cons_of_mem _ hmem))

/-- A part of the segments' text that is decoded to their octets is all of it. -/
theorem eq_of_decode_part {part text : List Char} (hpart : part <+: text)
    (h : percentDecode part = octets text) : part = text ∧ ¬ HasEscape text := by
  obtain ⟨rest, rfl⟩ := hpart
  have hle := percentDecode_length_le part
  rw [h, octets_append, List.length_append] at hle
  obtain rfl : rest = [] := eq_nil_of_octets_length (by omega)
  rw [List.append_nil] at h ⊢
  exact ⟨rfl, (percentDecode_eq_iff part).1 h⟩

/-- A path that is read as the segments that are meant, up to a question mark, is made of plain
segments. -/
theorem plain_of_decodePath {part : List Char} (hpart : part <+: segmentsText segments)
    (h : decodePath (base ++ part) = decodePath base ++ segments.map octets) :
    part = segmentsText segments ∧ ∀ segment ∈ segments, '/' ∉ segment ∧ ¬ HasEscape segment := by
  have hslash : ∀ a b : List Char,
      percentDecode (a ++ '/' :: b) = percentDecode a ++ 0x2F :: percentDecode b := by
    intro a b
    rw [percentDecode_append_cons separates_slash, List.append_assoc]
    rfl
  have hbase : percentDecode (base ++ part) = percentDecode base ++ percentDecode part := by
    rcases part with _ | ⟨c, part⟩
    · rw [List.append_nil]
      exact (List.append_nil _).symm
    · have hc : c = '/' := by
        cases segments with
        | nil => exact absurd (List.prefix_nil.1 hpart) (List.cons_ne_nil _ _)
        | cons segment segments => exact (List.cons_prefix_cons.1 hpart).1
      rw [hc, hslash, ← List.nil_append ('/' :: part), hslash]
      rfl
  have hsegments : (segments.map octets).flatMap (0x2F :: ·) = octets (segmentsText segments) := by
    rw [segmentsText, octets, List.flatMap_assoc, List.flatMap_map]
    rfl
  -- the pieces, joined again
  have hdecode : percentDecode part = octets (segmentsText segments) := by
    have hjoined := congrArg ([0x2F].intercalate ·) h
    simp only [decodePath] at hjoined
    rw [intercalate_append _ (by simp), intercalate_map_splitOn hslash,
      intercalate_map_splitOn hslash, hbase, hsegments] at hjoined
    exact List.append_cancel_left hjoined
  obtain ⟨rfl, hescape⟩ := eq_of_decode_part hpart hdecode
  have hcut : ∀ segment ∈ segments, '/' ∉ segment := by
    refine (notMem_of_flatMap_splitOn segments).2 ?_
    have hlen := congrArg List.length h
    rw [decodePath, splitOn_path, decodePath, List.length_map, List.length_append,
      List.length_append, List.length_map, List.length_map] at hlen
    exact Nat.add_left_cancel hlen
  exact ⟨rfl, fun segment hmem =>
    ⟨hcut segment hmem, fun hesc => hescape (hesc.mono (infix_segmentsText hmem))⟩⟩

/-- A character other than a slash comes into the path with a segment. -/
theorem mem_segmentsText {c : Char} (h : c ≠ '/') :
    c ∈ segmentsText segments ↔ ∃ segment ∈ segments, c ∈ segment := by
  simp [segmentsText, h]

/-- A character of a query is an ampersand or comes with a pair. -/
theorem mem_pairsText {c : Char} (h : c ∈ pairsText query) :
    c = '&' ∨ ∃ pair ∈ query, c ∈ pairText pair := by
  induction query with
  | nil => cases h
  | cons pair query ih =>
    cases query with
    | nil => exact .inr ⟨pair, List.mem_singleton_self pair, h⟩
    | cons next query =>
      rcases List.mem_append.1 h with h | h
      · exact .inr ⟨pair, List.mem_cons_self, h⟩
      · rcases List.mem_cons.1 h with h | h
        · exact .inl h
        · exact (ih h).imp_right fun hex => hex.imp fun pair hpair =>
            ⟨List.mem_cons_of_mem _ hpair.1, hpair.2⟩

/-- Plain keys and values have no number sign, so no fragment starts in a query of them. -/
theorem hash_notMem_queryText (hkeys : ∀ pair ∈ query, PlainKey pair.1)
    (hvalues : ∀ pair ∈ query, PlainValue pair.2) : '#' ∉ queryText query := by
  intro h
  cases query with
  | nil => cases h
  | cons pair query =>
    rcases List.mem_cons.1 h with h | h
    · exact absurd h (by decide)
    · rcases mem_pairsText h with h | ⟨pair, hpair, h⟩
      · exact absurd h (by decide)
      · rcases List.mem_append.1 h with h | h
        · exact (hkeys pair hpair).hash h
        · rcases List.mem_cons.1 h with h | h
          · exact absurd h (by decide)
          · exact (hvalues pair hpair).hash h

/-- Without a number sign there is no fragment, and the URL is cut at its question mark alone. -/
theorem address_of_notMem {url : List Char} (h : '#' ∉ url) : address url =
    { path := decodePath (cut '?' url).1, query := decodeQuery (cut '?' url).2,
      fragment := none } := by
  rw [address, cut_of_notMem h]

/-- Where no fragment is read, no number sign stands. -/
theorem hash_notMem_of_fragment {url : List Char} (h : (address url).fragment = none) :
    '#' ∉ url := by
  intro hmem
  obtain ⟨a, b, rfl, ha⟩ := List.eq_append_cons_of_mem hmem
  rw [address, cut_append_cons ha] at h
  cases h

/-- The query starts at the first question mark, where the base and the segments have none. -/
theorem cut_render (h : '?' ∉ base ++ segmentsText segments) :
    cut '?' (render base segments query) =
      (base ++ segmentsText segments, if query = [] then none else some (pairsText query)) := by
  cases query with
  | nil =>
    rw [render, queryText, List.append_nil, cut_of_notMem h]
    rfl
  | cons pair query =>
    rw [render, queryText, cut_append_cons h]
    rfl

/-- A question mark in the base would leave no segment. -/
theorem question_notMem_of_path (hsome : segments ≠ [])
    (h : decodePath (cut '?' (render base segments query)).1 =
      decodePath base ++ segments.map octets) :
    '?' ∉ base := by
  intro hmem
  obtain ⟨a, b, rfl, ha⟩ := List.eq_append_cons_of_mem hmem
  have hrender : render (a ++ '?' :: b) segments query =
      a ++ '?' :: (b ++ (segmentsText segments ++ queryText query)) := by
    simp [render]
  rw [hrender, cut_append_cons ha] at h
  have hlen := congrArg List.length h
  have hle := length_splitOn_le '/' a ('?' :: b)
  have hpos := List.length_pos_iff.2 hsome
  simp only [decodePath, List.length_map, List.length_append] at hlen
  omega

/-- A query of plain keys and values is read as the pairs it was made of. -/
theorem decodeQuery_of_plain (hne : query ≠ []) (hkeys : ∀ pair ∈ query, PlainKey pair.1)
    (hvalues : ∀ pair ∈ query, PlainValue pair.2) :
    decodeQuery (some (pairsText query)) =
      query.map fun pair => (octets pair.1, some (octets pair.2)) := by
  have hcut : ∀ text ∈ query.map pairText, '&' ∉ text := by
    intro text htext hmem
    obtain ⟨pair, hpair, rfl⟩ := List.mem_map.1 htext
    rcases List.mem_append.1 hmem with hmem | hmem
    · exact (hkeys pair hpair).ampersand hmem
    · exact (hvalues pair hpair).ampersand (List.mem_of_ne_of_mem (by decide) hmem)
  rw [decodeQuery, splitOn_pairs hne, flatMap_splitOn_of_notMem hcut, List.map_map]
  refine List.map_congr_left fun pair hpair => ?_
  rw [Function.comp_apply, pairText, decodePair, cut_append_cons (hkeys pair hpair).equals]
  exact Prod.ext (hkeys pair hpair).decode (congrArg some (hvalues pair hpair).decode)

/-- **A URL that is put together without escaping addresses what was meant if and only if its parts
are plain.** -/
theorem address_render_iff (hsome : segments ≠ []) (hkeys : ∀ pair ∈ query, PlainKey pair.1) :
    address (render base segments query) = intended base segments query ↔
      PlainBase base ∧ (∀ segment ∈ segments, PlainSegment segment) ∧ ∀ pair ∈ query,
        PlainValue pair.2 := by
  constructor
  · intro h
    have hnone : '#' ∉ render base segments query :=
      hash_notMem_of_fragment (congrArg Address.fragment h)
    have htexts : '#' ∉ base ∧ '#' ∉ segmentsText segments ∧ '#' ∉ queryText query := by
      rwa [render, List.mem_append, List.mem_append, not_or, not_or, and_assoc] at hnone
    rw [address_of_notMem hnone] at h
    have hpath : decodePath (cut '?' (render base segments query)).1 =
        decodePath base ++ segments.map octets := congrArg Address.path h
    have hquery : decodeQuery (cut '?' (render base segments query)).2 =
        query.map fun pair => (octets pair.1, some (octets pair.2)) := congrArg Address.query h
    have hquestion : '?' ∉ base := question_notMem_of_path hsome hpath
    -- a question mark among the segments would cut the path short
    have hsegments : '?' ∉ segmentsText segments := by
      intro hmem
      obtain ⟨a, b, htext, ha⟩ := List.eq_append_cons_of_mem hmem
      have hcut : cut '?' (render base segments query) =
          (base ++ a, some (b ++ queryText query)) := by
        have hrender : render base segments query =
            (base ++ a) ++ '?' :: (b ++ queryText query) := by
          rw [render, htext]
          simp
        rw [hrender, cut_append_cons]
        rw [List.mem_append, not_or]
        exact ⟨hquestion, ha⟩
      rw [hcut] at hpath
      obtain ⟨hall, -⟩ := plain_of_decodePath ⟨'?' :: b, htext.symm⟩ hpath
      rw [htext] at hall
      simp at hall
    have hnot : '?' ∉ base ++ segmentsText segments := by
      rw [List.mem_append, not_or]
      exact ⟨hquestion, hsegments⟩
    rw [cut_render hnot] at hpath hquery
    obtain ⟨-, hplain⟩ := plain_of_decodePath List.prefix_rfl hpath
    refine ⟨⟨hquestion, htexts.1⟩, ?_, ?_⟩
    · intro segment hmem
      obtain ⟨hslash, hescape⟩ := hplain segment hmem
      refine ⟨hslash, ?_, ?_, hescape⟩
      · exact fun hc => hsegments ((mem_segmentsText (by decide)).2 ⟨segment, hmem, hc⟩)
      · exact fun hc => htexts.2.1 ((mem_segmentsText (by decide)).2 ⟨segment, hmem, hc⟩)
    · intro pair hpair
      have hne : query ≠ [] := List.ne_nil_of_mem hpair
      rw [if_neg hne] at hquery
      obtain ⟨hampersand, hplus, hescape⟩ := plain_of_decodeQuery hne hquery pair hpair
      refine ⟨hampersand, hplus, ?_, hescape⟩
      intro hc
      refine htexts.2.2 ?_
      obtain ⟨first, rest, rfl⟩ := List.exists_cons_of_ne_nil hne
      refine List.mem_cons_of_mem _ ((infix_pairsText hpair).subset ?_)
      exact List.mem_append_right _ (List.mem_cons_of_mem _ hc)
  · rintro ⟨⟨hquestion, hhash⟩, hsegments, hvalues⟩
    have hnone : '#' ∉ render base segments query := by
      rw [render, List.mem_append, List.mem_append, not_or, not_or, mem_segmentsText (by decide)]
      refine ⟨⟨hhash, ?_⟩, hash_notMem_queryText hkeys hvalues⟩
      rintro ⟨segment, hmem, hc⟩
      exact (hsegments segment hmem).hash hc
    have hnot : '?' ∉ base ++ segmentsText segments := by
      rw [List.mem_append, not_or, mem_segmentsText (by decide)]
      refine ⟨hquestion, ?_⟩
      rintro ⟨segment, hmem, hc⟩
      exact (hsegments segment hmem).question hc
    rw [address_of_notMem hnone, cut_render hnot]
    have hpath : decodePath (base ++ segmentsText segments) =
        decodePath base ++ segments.map octets := by
      rw [decodePath, splitOn_path, flatMap_splitOn_of_notMem fun segment hmem =>
        (hsegments segment hmem).slash, List.map_append, decodePath]
      refine congrArg _ (List.map_congr_left fun segment hmem => ?_)
      exact percentDecode_of_not_hasEscape (hsegments segment hmem).escape
    have hquery : decodeQuery (if query = [] then none else some (pairsText query)) =
        query.map fun pair => (octets pair.1, some (octets pair.2)) := by
      split
      · rename_i hnil
        rw [hnil]
        rfl
      · rename_i hne
        exact decodeQuery_of_plain hne hkeys hvalues
    rw [intended]
    simp only [hpath, hquery]

end

end Url
