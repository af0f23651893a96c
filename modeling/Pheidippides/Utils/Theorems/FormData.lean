import Pheidippides.Utils.FormData

namespace Pheidippides.FormData

theorem map_eq_ok_iff {ε α β : Type} {x : Except ε α} {f : α → β} {b : β} :
    x.map f = .ok b ↔ ∃ a, x = .ok a ∧ f a = b := by
  cases x <;> simp [Except.map]

theorem bind_eq_ok_iff {ε α β : Type} {x : Except ε α} {f : α → Except ε β} {b : β} :
    x.bind f = .ok b ↔ ∃ a, x = .ok a ∧ f a = .ok b := by
  cases x <;> simp [Except.bind]

section

variable {str key value rest : String} {pairs parts : List (String × String)}

theorem splitOnce_pair (h : '=' ∉ key.toList) :
    Str.splitOnce '=' (key ++ "=" ++ value) = some (key, value) :=
  Str.splitOnce_eq_some_iff.mpr ⟨rfl, h⟩

theorem takeKey_append (h : '=' ∉ key.toList) :
    takeKey (key ++ "=" ++ value) = .ok (some (key, value)) := by
  rw [takeKey, if_neg (by simp), splitOnce_pair h]

theorem takeValue_append (h : '&' ∉ value.toList) :
    takeValue (value ++ "&" ++ rest) = .ok (value, rest) := by
  have split : Str.splitOnce '&' (value ++ "&" ++ rest) = some (value, rest) :=
    Str.splitOnce_eq_some_iff.mpr ⟨rfl, h⟩
  rw [takeValue, if_neg (by simp), split]

theorem takeValue_last (h : '&' ∉ value.toList) (hn : value ≠ "") :
    takeValue value = .ok (value, "") := by
  rw [takeValue, if_neg (by simpa using hn), Str.splitOnce_eq_none_iff.mpr h]

theorem scan_eq (str : String) : scan str = (takeKey str).bind fun
    | none             => .ok []
    | some (key, rest) =>
      (takeValue rest).bind fun (value, rest) => (scan rest).map ((key, value) :: ·) := by
  rw [scan]
  split
  case h_1 h => rw [h]; rfl
  case h_2 h => rw [h]; rfl
  case h_3 h =>
    rw [h]
    dsimp only [Except.bind]
    split
    case h_1 h => rw [h]
    case h_2 h => rw [h]

@[simp]
theorem scan_empty : scan "" = .ok [] := by
  rw [scan_eq]
  rfl

theorem scan_more (hk : '=' ∉ key.toList) (hv : '&' ∉ value.toList) :
    scan (key ++ "=" ++ value ++ "&" ++ rest) = (scan rest).map ((key, value) :: ·) := by
  have assoc : key ++ "=" ++ value ++ "&" ++ rest = key ++ "=" ++ (value ++ "&" ++ rest) := by
    simp [String.append_assoc]
  rw [scan_eq, assoc, takeKey_append hk]
  simp only [Except.bind, takeValue_append hv]

theorem scan_last (hk : '=' ∉ key.toList) (hv : '&' ∉ value.toList) (hn : value ≠ "") :
    scan (key ++ "=" ++ value) = .ok [(key, value)] := by
  rw [scan_eq, takeKey_append hk]
  simp only [Except.bind, takeValue_last hv hn, scan_empty]
  rfl

theorem scan_last_empty (hk : '=' ∉ key.toList) :
    scan (key ++ "=") = .error (.cantParseValue "") := by
  have h := @takeKey_append key "" hk
  rw [String.append_empty] at h
  rw [scan_eq, h]
  rfl

-- All strings that are scanned to their end.
inductive Scanned : String → List (String × String) → Prop
  | done : Scanned "" []
  | last {key value : String} : '=' ∉ key.toList → '&' ∉ value.toList → value ≠ "" →
    Scanned (key ++ "=" ++ value) [(key, value)]
  | more {key value rest : String} {pairs : List (String × String)} : '=' ∉ key.toList →
    '&' ∉ value.toList → Scanned rest pairs →
    Scanned (key ++ "=" ++ value ++ "&" ++ rest) ((key, value) :: pairs)

theorem takeKey_none (h : takeKey str = .ok none) : str = "" := by
  rw [takeKey] at h
  split at h
  case isTrue he => simpa using he
  case isFalse  => split at h <;> cases h

theorem takeKey_some (h : takeKey str = .ok (some (key, rest))) :
    str = key ++ "=" ++ rest ∧ '=' ∉ key.toList := by
  rw [takeKey] at h
  split at h
  case isTrue => cases h
  case isFalse =>
    split at h <;> cases h
    case h_1 h =>
      rw [Str.splitOnce_eq_some_iff] at h
      exact h

theorem takeValue_spec (h : takeValue str = .ok (value, rest)) : '&' ∉ value.toList ∧
    (str = value ++ "&" ++ rest ∨ (str = value ∧ value ≠ "" ∧ rest = "")) := by
  rw [takeValue] at h
  split at h
  case isTrue => cases h
  case isFalse hn =>
    split at h <;> cases h
    case h_1 h =>
      rw [Str.splitOnce_eq_some_iff] at h
      exact ⟨h.right, .inl h.left⟩
    case h_2 h => exact ⟨Str.splitOnce_eq_none_iff.mp h, .inr ⟨rfl, by simpa using hn, rfl⟩⟩

theorem scanned_of_scan (h : scan str = .ok pairs) : Scanned str pairs := by
  induction str using scan.induct generalizing pairs
  case case1 hk =>
    rw [scan_eq, hk] at h
    cases h
  case case2 hk =>
    rw [scan_eq, hk] at h
    cases h
    exact takeKey_none hk ▸ .done
  case case3 hk _ hv =>
    rw [scan_eq, hk] at h
    simp only [Except.bind, hv] at h
    cases h
  case case4 hk _ _ hv ih =>
    rw [scan_eq, hk] at h
    simp only [Except.bind, hv] at h
    obtain ⟨rfl, hk'⟩ := takeKey_some hk
    obtain ⟨tail, ht, rfl⟩ := map_eq_ok_iff.mp h
    obtain ⟨hv', rfl | ⟨rfl, hn, rfl⟩⟩ := takeValue_spec hv
    · have scanned := Scanned.more hk' hv' (ih ht)
      simpa only [String.append_assoc] using scanned
    · cases scan_empty ▸ ht
      exact .last hk' hv' hn

theorem scan_eq_ok_iff : scan str = .ok pairs ↔ Scanned str pairs := by
  refine ⟨scanned_of_scan, fun h => ?_⟩
  induction h
  case done               => exact scan_empty
  case last hk hv hn      => exact scan_last hk hv hn
  case more hk hv _ ih    => rw [scan_more hk hv, ih]; rfl

theorem toList_ampersand : "&".toList = ['&'] :=
  rfl

theorem regular_cons {piece : String} {pieces : List String} (h : pieces ≠ []) :
    Regular (piece :: pieces) ↔ '=' ∈ piece.toList ∧ Regular pieces := by
  cases pieces
  case nil  => contradiction
  case cons => rfl

theorem of_regular {pieces : List String} (h : Regular pieces) :
    ∀ piece ∈ pieces, piece ≠ "" → '=' ∈ piece.toList := by
  induction pieces
  case nil => simp
  case cons piece pieces ih =>
    cases pieces
    case nil  => simpa using h.resolve_left
    case cons => exact List.forall_mem_cons.mpr ⟨fun _ => h.left, ih h.right⟩

-- Where the pieces are regular, a key ends before its piece does.
theorem not_mem_of_regular (hk : '=' ∉ key.toList) (hr : Regular (Str.split "&" (key ++ rest))) :
    '&' ∉ key.toList := by
  intro h
  cases hs : Str.splitOnce '&' key
  case none => exact Str.splitOnce_eq_none_iff.mp hs h
  case some pair =>
    obtain ⟨rfl, hn⟩ := Str.splitOnce_eq_some_iff.mp hs
    rw [show String.singleton '&' = "&" from rfl] at hr hk
    rw [String.append_assoc, Str.split_append_of_not_mem toList_ampersand hn,
      regular_cons (Str.split_ne_nil toList_ampersand)] at hr
    simp only [String.toList_append, List.mem_append, not_or] at hk
    exact hk.left.left hr.left

theorem split_last (hk : '&' ∉ key.toList) (hv : '&' ∉ value.toList) :
    Str.split "&" (key ++ "=" ++ value) = [key ++ "=" ++ value] :=
  Str.split_of_not_mem toList_ampersand <| by simp [hk, hv]

theorem split_more (hk : '&' ∉ key.toList) (hv : '&' ∉ value.toList) :
    Str.split "&" (key ++ "=" ++ value ++ "&" ++ rest) =
      (key ++ "=" ++ value) :: Str.split "&" rest :=
  Str.split_append_of_not_mem toList_ampersand <| by simp [hk, hv]

-- What is scanned into pairs whose keys have no separator is read by its separators.
theorem reference_of_scanned (h : Scanned str pairs) (hk : ∀ pair ∈ pairs, '&' ∉ pair.1.toList) :
    reference str = some pairs ∧ Regular (Str.split "&" str) := by
  induction h
  case done => exact ⟨rfl, .inl rfl⟩
  case last key value he hv hn =>
    have hs := split_last (hk _ List.mem_cons_self) hv
    rw [reference, hs]
    exact ⟨by simp [splitOnce_pair he], .inr <| by simp⟩
  case more key value rest pairs he hv _ ih =>
    have hs := @split_more key value rest (hk _ List.mem_cons_self) hv
    have ⟨read, regular⟩ := ih fun pair hp => hk pair <| List.mem_cons_of_mem _ hp
    rw [reference] at read
    rw [reference, hs, regular_cons (Str.split_ne_nil toList_ampersand)]
    refine ⟨?_, by simp, regular⟩
    rw [List.filter_cons_of_pos (by simp), List.mapM_cons, splitOnce_pair he, read]
    rfl

theorem keys_of_regular (h : Scanned str pairs) (hr : Regular (Str.split "&" str)) :
    ∀ pair ∈ pairs, '&' ∉ pair.1.toList := by
  induction h
  case done => simp
  case last he hv hn =>
    rw [String.append_assoc] at hr
    simpa using not_mem_of_regular he hr
  case more key value rest pairs he hv _ ih =>
    have hk : '&' ∉ key.toList := by
      simp only [String.append_assoc] at hr
      exact not_mem_of_regular he hr
    rw [split_more hk hv, regular_cons (Str.split_ne_nil toList_ampersand)] at hr
    simpa [hk] using ih hr.right

theorem values_of_scanned (h : Scanned str pairs) : ∀ pair ∈ pairs, '&' ∉ pair.2.toList := by
  induction h
  case done               => simp
  case last hv _          => simpa using hv
  case more hv _ ih       => simpa [hv] using ih

-- The pairs of a string that is scanned to its end are those of its pieces if and only if each piece has
-- a `=`, apart from an empty last one.
theorem scan_eq_reference_iff (h : scan str = .ok pairs) :
    (reference str = some pairs ∧ (∀ piece ∈ Str.split "&" str, piece ≠ "" → '=' ∈ piece.toList) ∧
      ∀ pair ∈ pairs, '&' ∉ pair.1.toList ∧ '&' ∉ pair.2.toList) ↔ Regular (Str.split "&" str) := by
  have scanned := scan_eq_ok_iff.mp h
  constructor
  case mp =>
    rintro ⟨_, _, hp⟩
    exact (reference_of_scanned scanned fun pair hm => (hp pair hm).left).right
  case mpr =>
    intro regular
    have keys := keys_of_regular scanned regular
    have values := values_of_scanned scanned
    exact ⟨(reference_of_scanned scanned keys).left, of_regular regular,
      fun pair hm => ⟨keys pair hm, values pair hm⟩⟩

-- Two fields.
theorem scan_eq_reference_iff_example : reference "a=b&c=d" = some [("a", "b"), ("c", "d")] := by
  have scanned : scan "a=b&c=d" = .ok [("a", "b"), ("c", "d")] := by decide +kernel
  exact ((scan_eq_reference_iff scanned).mpr <| by decide +kernel).left

-- A piece without a `=` becomes part of the next key, and so does an empty one.
theorem scan_ne_reference :
    (scan "a&b=c" = .ok [("a&b", "c")] ∧ reference "a&b=c" = none) ∧
    scan "a=b&&c=d" = .ok [("a", "b"), ("&c", "d")] ∧
    reference "a=b&&c=d" = some [("a", "b"), ("c", "d")] := by
  decide +kernel

theorem scan_joinPairs (hs : ∀ part ∈ parts, '=' ∉ part.1.toList ∧ '&' ∉ part.2.toList) :
    scan (joinPairs parts) =
      if ∀ last ∈ parts.getLast?, last.2 ≠ "" then .ok parts else .error (.cantParseValue "") := by
  induction parts using joinPairs.induct
  case case1 => simp [joinPairs]
  case case2 key value =>
    have ⟨hk, hv⟩ := hs _ List.mem_cons_self
    by_cases hn : value = ""
    case pos => simpa [joinPairs, hn] using scan_last_empty hk
    case neg => simpa [joinPairs, hn] using scan_last hk hv hn
  case case3 key value parts hne ih =>
    have ⟨hk, hv⟩ := hs _ List.mem_cons_self
    rw [joinPairs, scan_more hk hv, ih fun part hp => hs part <| List.mem_cons_of_mem _ hp]
    case x_1 => exact hne
    cases parts
    case nil  => contradiction
    case cons =>
      rw [List.getLast?_cons_cons]
      split <;> rfl

end

section Encoding

theorem map_escapedBytes {bs : List UInt8} {esc : List Char} (h : PercentEncoding.EscapedBytes bs esc) :
    (esc.map fun c => if c = '+' then ' ' else c) = esc := by
  have digit {c : Char} {n : Nat} (h : PercentEncoding.hexValue c = some n) : c ≠ '+' := by
    rintro rfl
    exact absurd h <| by decide +revert
  induction h
  case nil              => rfl
  case cons hx hy _ ih => simp [digit hx, digit hy, ih]

theorem Encodes.spaces {text enc : List Char} (h : FormData.Encodes text enc) :
    PercentEncoding.Encodes text (enc.map fun c => if c = '+' then ' ' else c) := by
  induction h
  case nil               => exact .nil
  case literal hp hc _ ih => simpa [hc] using PercentEncoding.Encodes.literal hp ih
  case plus ih           => simpa using PercentEncoding.Encodes.literal (by decide) ih
  case escaped h _ ih    =>
    rw [List.map_append, map_escapedBytes h]
    exact .escaped h ih

theorem Encodes.append {text₁ text₂ enc₁ enc₂ : List Char} (h₁ : FormData.Encodes text₁ enc₁)
    (h₂ : FormData.Encodes text₂ enc₂) : FormData.Encodes (text₁ ++ text₂) (enc₁ ++ enc₂) := by
  induction h₁
  case nil                => exact h₂
  case literal hp hc _ ih => exact .literal hp hc ih
  case plus ih            => exact .plus ih
  case escaped h _ ih     =>
    rw [List.append_assoc]
    exact .escaped h ih

variable [UrlEscape]

instance [DecodesEscapes] : LawfulUrlEscape where
  decode_encodes h := DecodesEscapes.decode_of_bytes <| PercentEncoding.bytes_eq_encode h

theorem decode_encodes [LawfulUrlEscape] {text part : String}
    (h : Encodes text.toList part.toList) : decode part = some text := by
  rw [decode, LawfulUrlEscape.decode_encodes h.spaces, String.ofList_toList]

theorem string_eq_ok_iff {part text : String} : string part = .ok text ↔ decode part = some text := by
  rw [string]
  cases decode part <;> simp

theorem entries_step (str : String) : entries str = (nextKeySeed string str).bind fun
    | none             => .ok []
    | some (key, rest) =>
      (nextValueSeed string rest).bind fun (value, rest) =>
        (entries rest).map ((key, value) :: ·) := by
  rw [entries]
  split
  case h_1 h => rw [h]; rfl
  case h_2 h => rw [h]; rfl
  case h_3 h =>
    rw [h]
    dsimp only [Except.bind]
    split
    case h_1 h => rw [h]
    case h_2 h => rw [h]

-- The texts of a pair are those which its parts encode.
def Decodes (part pair : String × String) : Prop :=
  decode part.1 = some pair.1 ∧ decode part.2 = some pair.2

-- The access decodes what is scanned.
theorem entries_eq_ok_iff {str : String} {pairs : List (String × String)} :
    entries str = .ok pairs ↔ ∃ parts, scan str = .ok parts ∧ parts.Forall₂ Decodes pairs := by
  induction str using scan.induct generalizing pairs
  case case1 hk =>
    rw [entries_step, scan_eq, nextKeySeed_eq, hk]
    exact ⟨nofun, nofun⟩
  case case2 hk =>
    rw [entries_step, scan_eq, nextKeySeed_eq, hk]
    refine ⟨fun h => ⟨[], rfl, ?_⟩, ?_⟩
    · cases h
      exact .nil
    · rintro ⟨_, ⟨⟩, ⟨⟩⟩
      rfl
  case case3 key rest hk e hv =>
    have fails : nextValueSeed string rest = .error e := by rw [nextValueSeed_eq, hv]; rfl
    rw [entries_step, scan_eq, nextKeySeed_eq, hk]
    cases hs : string key <;> simp only [Except.bind, hs, Except.map, fails, hv]
    all_goals exact ⟨nofun, nofun⟩
  case case4 str key _ hk value rest hv ih =>
    have found : entries str = (string key).bind fun key => (string value).bind fun value =>
        (entries rest).map ((key, value) :: ·) := by
      rw [entries_step, nextKeySeed_eq, hk]
      cases hs : string key <;> simp only [Except.bind, hs, Except.map, nextValueSeed_eq, hv]
      cases hs : string value <;> rfl
    have scanned : scan str = (scan rest).map ((key, value) :: ·) := by
      rw [scan_eq, hk]
      simp only [Except.bind, hv]
    rw [found, scanned]
    simp only [bind_eq_ok_iff, map_eq_ok_iff, string_eq_ok_iff, ih]
    constructor
    case mp =>
      rintro ⟨k, dk, v, dv, pairs, ⟨parts, hs, decodes⟩, rfl⟩
      exact ⟨_, ⟨parts, hs, rfl⟩, .cons ⟨dk, dv⟩ decodes⟩
    case mpr =>
      rintro ⟨_, ⟨parts, hs, rfl⟩, decodes⟩
      obtain _ | ⟨⟨dk, dv⟩, decodes⟩ := decodes
      exact ⟨_, dk, _, dv, _, ⟨parts, hs, decodes⟩, rfl⟩

omit [UrlEscape] in
theorem Encodes.eq_nil_iff {text enc : List Char} (h : Encodes text enc) : text = [] ↔ enc = [] := by
  cases h
  case nil     => simp
  case literal => simp
  case plus    => simp
  case escaped c text esc enc h _ =>
    have ne : esc ≠ [] := by
      rintro rfl
      generalize hb : String.utf8EncodeChar c = bs at h
      cases h
      have := c.utf8Size_pos
      rw [← String.length_utf8EncodeChar, hb] at this
      cases this
    simp [ne]

omit [UrlEscape] in
theorem EncodesPart.eq_empty_iff {text part : String} (h : EncodesPart text part) :
    text = "" ↔ part = "" := by
  simpa using h.left.eq_nil_iff

theorem EncodesPart.decode [LawfulUrlEscape] {text part : String} (h : EncodesPart text part) :
    FormData.decode part = some text :=
  decode_encodes h.left

section

variable {pairs parts : List (String × String)} (h : pairs.Forall₂ (fun pair part =>
  EncodesPart pair.1 part.1 ∧ EncodesPart pair.2 part.2) parts)

include h

omit [UrlEscape] in
theorem separate_of_encodes : ∀ part ∈ parts, '=' ∉ part.1.toList ∧ '&' ∉ part.2.toList := by
  induction h
  case nil         => simp
  case cons h _ ih => exact List.forall_mem_cons.mpr ⟨⟨h.left.right.left, h.right.right.right⟩, ih⟩

omit [UrlEscape] in
theorem last_of_encodes :
    (∀ last ∈ parts.getLast?, last.2 ≠ "") ↔ ∀ last ∈ pairs.getLast?, last.2 ≠ "" := by
  induction h
  case nil => simp
  case cons h tail ih =>
    cases tail
    case nil  => simp [h.right.eq_empty_iff]
    case cons => simpa [List.getLast?_cons_cons] using ih

theorem decodes_of_encodes [LawfulUrlEscape] : parts.Forall₂ Decodes pairs := by
  induction h
  case nil         => exact .nil
  case cons h _ ih => exact .cons ⟨h.left.decode, h.right.decode⟩ ih

end

-- A list of pairs comes back from its encodings if and only if its last value is not empty.
theorem entries_eq_iff [LawfulUrlEscape] {pairs : List (String × String)} {str : String}
    (h : EncodesPairs pairs str) :
    entries str = .ok pairs ↔ ∀ last ∈ pairs.getLast?, last.2 ≠ "" := by
  obtain ⟨parts, rfl, h⟩ := h
  rw [entries_eq_ok_iff, scan_joinPairs (separate_of_encodes h), ← last_of_encodes h]
  split
  case isTrue hl  => exact iff_of_true ⟨parts, rfl, decodes_of_encodes h⟩ hl
  case isFalse hl => exact iff_of_false (by simp) hl

-- A text comes back from each of its encodings, however its characters are written. An escaped character
-- stands for itself wherever it occurs, even if it is a plus or a percent sign.
theorem decode_roundTrip [DecodesEscapes] :
    (∀ {text part : String}, Encodes text.toList part.toList → decode part = some text) ∧
    ∀ {c : Char} {esc : List Char} {text₁ text₂ part₁ part₂ : String},
      PercentEncoding.EscapedBytes (String.utf8EncodeChar c) esc →
      Encodes text₁.toList part₁.toList → Encodes text₂.toList part₂.toList →
      decode (part₁ ++ .ofList esc ++ part₂) = some (text₁ ++ .singleton c ++ text₂) := by
  refine ⟨decode_encodes, fun {c esc _ _ _ _} hc h₁ h₂ => decode_encodes ?_⟩
  have escaped : Encodes [c] esc := by simpa using Encodes.escaped hc .nil
  simpa using h₁.append <| escaped.append h₂

end Encoding

-- What the crate does with texts in UTF-8.
@[reducible]
def percentEncoding : UrlEscape where
  decode := PercentEncoding.decode

theorem lawful_percentEncoding : @LawfulUrlEscape percentEncoding :=
  let _ := percentEncoding
  ⟨PercentEncoding.decode_encodes⟩

theorem decodesEscapes_percentEncoding : @DecodesEscapes percentEncoding :=
  let _ := percentEncoding
  ⟨PercentEncoding.decode_of_bytes⟩

-- An escaped percent sign is not taken for the beginning of an escape.
theorem decode_roundTrip_example :
    let _ := percentEncoding
    decode "a+%2b%C3%a9" = some "a +\u00e9" ∧
      decode (" " ++ .ofList ['%', '2', '5'] ++ "41") = some (" " ++ .singleton '%' ++ "41") := by
  intro _
  let _ := decodesEscapes_percentEncoding
  have plus : PercentEncoding.EscapedBytes (String.utf8EncodeChar '+') ['%', '2', 'b'] :=
    .cons (by decide) (by decide) .nil
  have accented : PercentEncoding.EscapedBytes (String.utf8EncodeChar '\u00e9')
      ['%', 'C', '3', '%', 'a', '9'] :=
    .cons (by decide) (by decide) <| .cons (by decide) (by decide) .nil
  have percent : PercentEncoding.EscapedBytes (String.utf8EncodeChar '%') ['%', '2', '5'] :=
    .cons (by decide) (by decide) .nil
  have text : Encodes ['a', ' ', '+', '\u00e9']
      ['a', '+', '%', '2', 'b', '%', 'C', '3', '%', 'a', '9'] :=
    .literal (by decide) (by decide) <| .plus <| .escaped plus <| .escaped accented .nil
  have digits : Encodes "41".toList "41".toList :=
    .literal (by decide) (by decide) <| .literal (by decide) (by decide) .nil
  have space : Encodes " ".toList " ".toList := .literal (by decide) (by decide) .nil
  exact ⟨decode_roundTrip.left text, decode_roundTrip.right percent space digits⟩

-- The first value is empty, and the last one has a space and an escaped separator.
theorem entries_eq_iff_example :
    let _ := percentEncoding
    entries "q=&n=A+%26" = .ok [("q", ""), ("n", "A &")] := by
  intro _
  let _ := lawful_percentEncoding
  have query : EncodesPart "q" "q" :=
    ⟨.literal (by decide) (by decide) .nil, by decide, by decide⟩
  have empty : EncodesPart "" "" := ⟨.nil, by decide, by decide⟩
  have name : EncodesPart "n" "n" :=
    ⟨.literal (by decide) (by decide) .nil, by decide, by decide⟩
  have escaped : PercentEncoding.EscapedBytes (String.utf8EncodeChar '&') ['%', '2', '6'] :=
    .cons (by decide) (by decide) .nil
  have value : EncodesPart "A &" "A+%26" :=
    ⟨.literal (by decide) (by decide) <| .plus <| .escaped escaped .nil, by decide, by decide⟩
  have h : EncodesPairs [("q", ""), ("n", "A &")] "q=&n=A+%26" :=
    ⟨[("q", ""), ("n", "A+%26")], rfl, .cons ⟨query, empty⟩ <| .cons ⟨name, value⟩ .nil⟩
  exact (entries_eq_iff h).mpr <| by decide

-- An empty value at the end is taken for a missing one.
theorem entries_ne_pairs :
    let _ := percentEncoding
    EncodesPairs [("n", "")] "n=" ∧ entries "n=" = .error (.cantParseValue "") := by
  intro _
  have key : EncodesPart "n" "n" :=
    ⟨.literal (by decide) (by decide) .nil, by decide, by decide⟩
  have value : EncodesPart "" "" := ⟨.nil, by decide, by decide⟩
  refine ⟨⟨[("n", "")], rfl, .cons ⟨key, value⟩ .nil⟩, ?_⟩
  have name : nextKeySeed string "n=" = .ok (some ("n", "")) := by decide +kernel
  rw [entries_step, name]
  rfl

end Pheidippides.FormData
