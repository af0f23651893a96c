import Pheidippides.Primitives.Scan
import Mathlib.Algebra.Group.Nat.Defs
import Mathlib.Data.List.Basic
import Mathlib.Data.List.DropRight
import Mathlib.Data.List.Infix

-- The methods of `str` which the parsers use.
namespace Pheidippides.Str

-- Statements about the characters of a text are decided by the text, not by all characters there are.
instance (priority := high) decidableForallMem {p : Char → Prop} [DecidablePred p] (l : List Char) :
    Decidable (∀ c ∈ l, p c) :=
  List.decidableBAll p l

instance (priority := high) decidableForallMemOption {p : Char → Prop} [DecidablePred p]
    (o : Option Char) : Decidable (∀ c ∈ o, p c) :=
  Option.decidableForallMem o

def splitOnceAux (c : Char) : List Char → Option (List Char × List Char)
  | []     => none
  | x :: l => if x = c then some ([], l) else (splitOnceAux c l).map fun (fst, snd) => (x :: fst, snd)

-- `str::split_once` at a character.
def splitOnce (c : Char) (s : String) : Option (String × String) :=
  (splitOnceAux c s.toList).map fun (fst, snd) => (.ofList fst, .ofList snd)

-- What lies between the occurrences of a pattern. The number counts down the rest of an occurrence.
def splitAux (pat : List Char) : Nat → List Char → List (List Char)
  | _, []         => [[]]
  | n + 1, _ :: l => splitAux pat n l
  | 0, c :: l     =>
    if pat.isPrefixOf (c :: l) then
      [] :: splitAux pat (pat.length - 1) l
    else
      (splitAux pat 0 l).modifyHead (c :: ·)

-- `str::split` at a string which is not empty.
def split (pat s : String) : List String :=
  (splitAux pat.toList 0 s.toList).map .ofList

-- A pattern whose first character does not come again in it, so that its occurrences cannot overlap.
def IsSeparator (pat : String) : Prop :=
  ∃ c rest, pat.toList = c :: rest ∧ c ∉ rest

def splitOnceStrAux (pat : List Char) : List Char → Option (List Char × List Char)
  | []     => none
  | x :: l =>
    if pat.isPrefixOf (x :: l) then some ([], (x :: l).drop pat.length)
    else (splitOnceStrAux pat l).map fun (fst, snd) => (x :: fst, snd)

-- `str::split_once` at a string which is not empty.
def splitOnceStr (pat s : String) : Option (String × String) :=
  (splitOnceStrAux pat.toList s.toList).map fun (fst, snd) => (.ofList fst, .ofList snd)

-- `char::is_whitespace`, the characters with the property `White_Space`.
def isWhitespace (c : Char) : Bool :=
  (0x9 ≤ c.toNat && c.toNat ≤ 0xd) || (0x2000 ≤ c.toNat && c.toNat ≤ 0x200a) ||
    [0x20, 0x85, 0xa0, 0x1680, 0x2028, 0x2029, 0x202f, 0x205f, 0x3000].contains c.toNat

def splitWhitespace (s : String) : List String :=
  ((s.toList.splitOnP isWhitespace).filter (· ≠ [])).map .ofList

def linesAux : List Char → List (List Char)
  | []                => []
  | '\n' :: l         => [] :: linesAux l
  | '\r' :: '\n' :: l => [] :: linesAux l
  | c :: l            =>
    match linesAux l with
    | []          => [[c]]
    | line :: rest => (c :: line) :: rest

-- `str::lines`
def lines (s : String) : List String :=
  (linesAux s.toList).map .ofList

-- `str::replace` at a character.
def replace (c : Char) (new s : String) : String :=
  .ofList <| s.toList.flatMap fun x => if x = c then new.toList else [x]

def trimEnd (s : String) : String :=
  .ofList <| s.toList.rdropWhile isWhitespace

-- `str::to_ascii_lowercase`
def toAsciiLowercase (s : String) : String :=
  .ofList <| s.toList.map Char.toLower

-- `str::parse` for a number of 64 bits without a sign. A leading plus is accepted.
def parseUsize (s : String) : Option Nat :=
  let digits := if s.toList.head? = some '+' then s.toList.tail else s.toList
  if digits ≠ [] ∧ digits.all Char.isDigit ∧ Nat.ofDigitChars 10 digits 0 < 2 ^ 64 then
    some (Nat.ofDigitChars 10 digits 0)
  else
    none

theorem splitOnceAux_eq_some_iff {c : Char} {l fst snd : List Char} :
    splitOnceAux c l = some (fst, snd) ↔ l = fst ++ c :: snd ∧ c ∉ fst := by
  induction l generalizing fst
  case nil => simp [splitOnceAux]
  case cons x l ih =>
    rw [splitOnceAux]
    split
    case isTrue h  => cases fst <;> grind
    case isFalse h =>
      simp only [Option.map_eq_some_iff, Prod.mk.injEq, Prod.exists]
      cases fst <;> grind

theorem length_of_splitOnce {c : Char} {s fst snd : String} (h : splitOnce c s = some (fst, snd)) :
    snd.length < s.length := by
  obtain ⟨⟨_, l⟩, hs, he⟩ := Option.map_eq_some_iff.mp h
  cases he
  have hl := congrArg List.length (splitOnceAux_eq_some_iff.mp hs).left
  rw [List.length_append, List.length_cons, String.length_toList] at hl
  rw [String.length_ofList]
  omega

theorem splitOnceAux_eq_none_iff {c : Char} {l : List Char} : splitOnceAux c l = none ↔ c ∉ l := by
  induction l
  case nil => simp [splitOnceAux]
  case cons x l ih =>
    rw [splitOnceAux]
    split
    case isTrue h  => simp [h]
    case isFalse h => simp [ih, Ne.symm h]

theorem splitOnce_eq_some_iff {c : Char} {s fst snd : String} :
    splitOnce c s = some (fst, snd) ↔ s = fst ++ .singleton c ++ snd ∧ c ∉ fst.toList := by
  rw [splitOnce, Option.map_eq_some_iff, ← String.toList_inj]
  constructor
  case mp =>
    rintro ⟨⟨l, r⟩, h, he⟩
    cases he
    simpa using splitOnceAux_eq_some_iff.mp h
  case mpr =>
    rintro ⟨h, hc⟩
    exact ⟨(fst.toList, snd.toList), splitOnceAux_eq_some_iff.mpr ⟨by simpa using h, hc⟩, by simp⟩

theorem splitOnce_eq_none_iff {c : Char} {s : String} : splitOnce c s = none ↔ c ∉ s.toList := by
  rw [splitOnce, Option.map_eq_none_iff, splitOnceAux_eq_none_iff]

section Split

variable {pat s : String} {p l : List Char}

theorem splitAux_drop {n : Nat} : splitAux p n l = splitAux p 0 (l.drop n) := by
  induction l generalizing n
  case nil => cases n <;> rfl
  case cons x l ih =>
    cases n
    case zero => rfl
    case succ => exact ih

theorem splitAux_of_isPrefix (hp : p ≠ []) : splitAux p 0 (p ++ l) = [] :: splitAux p 0 l := by
  cases p
  case nil         => contradiction
  case cons c rest =>
    rw [List.cons_append, splitAux, if_pos (by simp), splitAux_drop]
    simp

-- The pieces, put together with the pattern between them, and without an occurrence of it.
theorem intercalate_splitAux (hp : p ≠ []) : splitAux p 0 l ≠ [] ∧ p.intercalate (splitAux p 0 l) = l ∧
    ∀ piece ∈ splitAux p 0 l, ¬p <:+: piece := by
  induction hl : l.length using Nat.strong_induction_on generalizing l
  subst hl
  rename_i ih
  cases l
  case nil => simp [splitAux, hp]
  case cons x l =>
    by_cases h : p <+: x :: l
    case pos =>
      obtain ⟨rest, h⟩ := h
      have shorter : rest.length < (x :: l).length := by
        rw [← h, List.length_append]
        exact Nat.lt_add_of_pos_left <| List.length_pos_iff.mpr hp
      have ⟨ne, joined, apart⟩ := ih _ shorter rfl
      rw [← h, splitAux_of_isPrefix hp]
      refine ⟨List.cons_ne_nil _ _, ?_, ?_⟩
      · rw [List.intercalate_cons_of_ne_nil ne, joined, List.nil_append]
      · simpa [hp] using apart
    case neg =>
      have ⟨ne, joined, apart⟩ := ih l.length (Nat.lt_succ_self _) rfl
      rw [splitAux, if_neg (by simpa using h)]
      cases hs : splitAux p 0 l
      case nil => contradiction
      case cons piece pieces =>
        rw [hs] at joined apart
        have joined' : p.intercalate ((x :: piece) :: pieces) = x :: l := by
          rw [List.intercalate_cons_cons_left, joined]
        refine ⟨List.cons_ne_nil _ _, joined', List.forall_mem_cons.mpr ⟨?_, ?_⟩⟩
        · rw [List.infix_cons_iff, not_or]
          refine ⟨fun hx => h <| hx.trans ?_, apart _ List.mem_cons_self⟩
          rw [← joined']
          cases pieces <;> simp [List.append_assoc]
        · exact fun piece hm => apart piece <| List.mem_cons_of_mem _ hm

theorem splitAux_single (h : ¬p <:+: l) : splitAux p 0 l = [l] := by
  induction l
  case nil => rfl
  case cons x l ih =>
    rw [List.infix_cons_iff, not_or] at h
    rw [splitAux, if_neg (by simpa using h.left), ih h.right]
    rfl

theorem splitAux_append {c : Char} {rest fst snd : List Char} (hc : c ∉ rest)
    (h : ¬c :: rest <:+: fst) :
    splitAux (c :: rest) 0 (fst ++ (c :: rest) ++ snd) = fst :: splitAux (c :: rest) 0 snd := by
  induction fst
  case nil => exact splitAux_of_isPrefix (List.cons_ne_nil _ _)
  case cons x fst ih =>
    rw [List.infix_cons_iff, not_or] at h
    have early : ¬c :: rest <+: x :: fst ++ (c :: rest) ++ snd := by
      rintro ⟨behind, he⟩
      rw [List.append_assoc] at he
      obtain ⟨tail, he, _⟩ | ⟨tail, he, ht⟩ := List.append_eq_append_iff.mp he
      · exact h.left ⟨tail, he.symm⟩
      -- The occurrence would go beyond `fst`, into the pattern that follows.
      · cases tail
        case nil        => exact h.left ⟨[], by simpa using he⟩
        case cons y tail =>
          have hy := (List.cons.inj ht).left
          have hr := (List.cons.inj he).right
          exact hc <| by simp [hr, hy]
    rw [List.cons_append, List.cons_append, splitAux, if_neg (by simpa using early), ih h.right]
    rfl

theorem split_spec (hp : pat ≠ "") : split pat s ≠ [] ∧ pat.intercalate (split pat s) = s ∧
    ∀ piece ∈ split pat s, ¬pat.toList <:+: piece.toList := by
  have ⟨ne, joined, apart⟩ := @intercalate_splitAux pat.toList s.toList (by simpa using hp)
  refine ⟨by simpa [split] using ne, ?_, ?_⟩
  · rw [← String.toList_inj, String.toList_intercalate, split, List.map_map]
    simpa [Function.comp_def] using joined
  · simpa [split] using apart

theorem IsSeparator.ne_empty (hp : IsSeparator pat) : pat ≠ "" := by
  rintro rfl
  obtain ⟨c, rest, h, _⟩ := hp
  cases h

theorem split_single (h : ¬pat.toList <:+: s.toList) : split pat s = [s] := by
  simp [split, splitAux_single h]

theorem split_append (hp : IsSeparator pat) {fst snd : String} (h : ¬pat.toList <:+: fst.toList) :
    split pat (fst ++ pat ++ snd) = fst :: split pat snd := by
  obtain ⟨c, rest, hp, hc⟩ := hp
  rw [hp] at h
  rw [split, split, String.toList_append, String.toList_append, hp, splitAux_append hc h, List.map_cons,
    String.ofList_toList]

-- A string is split into the only pieces without an occurrence of the pattern that it can be put
-- together from.
theorem split_eq_iff (hp : IsSeparator pat) {pieces : List String} : split pat s = pieces ↔
    pieces ≠ [] ∧ pat.intercalate pieces = s ∧ ∀ piece ∈ pieces, ¬pat.toList <:+: piece.toList := by
  constructor
  case mp => exact fun h => h ▸ split_spec hp.ne_empty
  case mpr =>
    rintro ⟨ne, rfl, apart⟩
    induction pieces
    case nil => contradiction
    case cons piece pieces ih =>
      have ⟨here, apart⟩ := List.forall_mem_cons.mp apart
      cases pieces
      case nil => rw [String.intercalate_singleton, split_single here]
      case cons =>
        rw [String.intercalate_cons_cons, split_append hp here, ih (List.cons_ne_nil _ _) apart]

-- At a single character.
theorem isSeparator_of_toList {c : Char} (hp : pat.toList = [c]) : IsSeparator pat :=
  ⟨c, [], hp, List.not_mem_nil⟩

theorem not_infix_iff {c : Char} (hp : pat.toList = [c]) : ¬pat.toList <:+: l ↔ c ∉ l := by
  rw [hp, List.singleton_infix_iff]

theorem split_of_not_mem {c : Char} (hp : pat.toList = [c]) (h : c ∉ s.toList) : split pat s = [s] :=
  split_single <| (not_infix_iff hp).mpr h

theorem split_append_of_not_mem {c : Char} {fst snd : String} (hp : pat.toList = [c])
    (h : c ∉ fst.toList) : split pat (fst ++ pat ++ snd) = fst :: split pat snd :=
  split_append (isSeparator_of_toList hp) <| (not_infix_iff hp).mpr h

theorem split_ne_nil {c : Char} (hp : pat.toList = [c]) : split pat s ≠ [] :=
  (split_spec (isSeparator_of_toList hp).ne_empty).left

end Split

-- The two methods by what lies in front of a character and between its occurrences.
theorem splitOnceAux_eq {c : Char} {l : List Char} :
    splitOnceAux c l =
      if c ∈ l then some (l.takeWhile (· ≠ c), (l.dropWhile (· ≠ c)).drop 1) else none := by
  induction l
  case nil => rfl
  case cons x l ih =>
    rw [splitOnceAux, ih]
    by_cases h : x = c
    case pos => simp [h]
    case neg => by_cases hl : c ∈ l <;> simp [h, hl, Ne.symm h]

theorem split_eq_splitOn {c : Char} {pat s : String} (hp : pat.toList = [c]) :
    split pat s = (s.toList.splitOn c).map .ofList := by
  have aux (l : List Char) : splitAux [c] 0 l = l.splitOn c := by
    induction l
    case nil => rfl
    case cons x l ih =>
      rw [splitAux, List.splitOn_cons_eq_if_modifyHead, List.length_singleton, Nat.sub_self, ih]
      by_cases h : x = c
      case pos => simp [h]
      case neg => simp [h, Ne.symm h]
  rw [split, hp, aux]

section Words

variable {s t : String}

theorem splitWhitespace_append {c : Char} (hc : isWhitespace c) (hs : s ≠ "")
    (hw : ∀ x ∈ s.toList, isWhitespace x = false) :
    splitWhitespace (s ++ .singleton c ++ t) = s :: splitWhitespace t := by
  have ne : s.toList ≠ [] := by simpa using hs
  rw [splitWhitespace, splitWhitespace, String.toList_append, String.toList_append,
    String.toList_singleton, List.append_assoc, List.singleton_append,
    List.splitOnP_append_cons_of_forall_mem hw c hc, List.filter_cons_of_pos (by simpa using ne),
    List.map_cons, String.ofList_toList]

theorem splitOnceStr_append {c : Char} {pat : String} (hp : pat.toList.head? = some c)
    (h : c ∉ s.toList) : splitOnceStr pat (s ++ pat ++ t) = some (s, t) := by
  have ⟨rest, hr⟩ : ∃ rest, pat.toList = c :: rest := by
    cases hl : pat.toList <;> simp_all
  have aux (l : List Char) (hl : c ∉ l) :
      splitOnceStrAux pat.toList (l ++ pat.toList ++ t.toList) = some (l, t.toList) := by
    induction l
    case nil =>
      rw [List.nil_append, hr, List.cons_append, splitOnceStrAux, if_pos]
      · simp
      · simp
    case cons x l ih =>
      have ⟨hx, hl⟩ := not_or.mp <| List.mem_cons.not.mp hl
      rw [List.cons_append, List.cons_append, splitOnceStrAux, if_neg, ih hl]
      · rfl
      · simp [hr, hx]
  rw [splitOnceStr, String.toList_append, String.toList_append, aux _ h]
  simp

theorem trimEnd_append (hs : ∀ c, s.toList.getLast? = some c → isWhitespace c = false)
    (ht : ∀ c ∈ t.toList, isWhitespace c) : trimEnd (s ++ t) = s := by
  have cut : (s ++ t).toList.rdropWhile isWhitespace = s.toList.rdropWhile isWhitespace := by
    rw [String.toList_append, List.rdropWhile, List.reverse_append,
      List.dropWhile_append_of_pos (by simpa using ht), List.rdropWhile]
  have keep : s.toList.rdropWhile isWhitespace = s.toList := by
    rw [List.rdropWhile_eq_self_iff]
    intro hl
    simp [hs _ <| List.getLast?_eq_some_getLast hl]
  rw [trimEnd, cut, keep, String.ofList_toList]

end Words

section Lines

variable {l : List Char}

-- What the last line lacks.
def lineEnd (l : List Char) : List Char :=
  if l = [] ∨ l.getLast? = some '\n' then [] else ['\n']

theorem flatMap_linesAux (h : '\r' ∉ l) : (linesAux l).flatMap (· ++ ['\n']) = l ++ lineEnd l := by
  fun_induction linesAux l
  case case1 => rfl
  case case2 l ih =>
    have ending : lineEnd ('\n' :: l) = lineEnd l := by cases l <;> simp [lineEnd]
    rw [List.flatMap_cons, ih (not_or.mp <| List.mem_cons.not.mp h).right, ending]
    rfl
  case case3 => simp at h
  case case4 c l lf _ he ih =>
    have nil : l = [] := by
      have := ih (not_or.mp <| List.mem_cons.not.mp h).right
      rw [he] at this
      exact (List.append_eq_nil_iff.mp this.symm).left
    simpa [nil, lineEnd] using lf
  case case5 c l lf _ line rest he ih =>
    have ne : l ≠ [] := by
      rintro rfl
      cases he
    have ending : lineEnd (c :: l) = lineEnd l := by simp [lineEnd, ne, List.getLast?_cons_of_ne_nil]
    have := ih (not_or.mp <| List.mem_cons.not.mp h).right
    rw [he, List.flatMap_cons] at this
    rw [List.flatMap_cons, List.cons_append, List.cons_append, this, ending]
    rfl

theorem mem_of_mem_linesAux {c : Char} {line : List Char} (h : line ∈ linesAux l) (hc : c ∈ line) :
    c ∈ l ∧ c ≠ '\n' := by
  fun_induction linesAux l generalizing line
  case case1 => cases h
  case case2 l ih =>
    obtain rfl | h := List.mem_cons.mp h
    · cases hc
    · exact (ih h hc).imp_left <| List.mem_cons_of_mem _
  case case3 l ih =>
    obtain rfl | h := List.mem_cons.mp h
    · cases hc
    · exact (ih h hc).imp_left fun hm => List.mem_cons_of_mem _ <| List.mem_cons_of_mem _ hm
  case case4 d l lf _ he ih =>
    obtain rfl := List.mem_singleton.mp h
    obtain rfl := List.mem_singleton.mp hc
    exact ⟨List.mem_cons_self, lf⟩
  case case5 d l lf _ first rest he ih =>
    obtain rfl | h := List.mem_cons.mp h
    · obtain rfl | hc := List.mem_cons.mp hc
      · exact ⟨List.mem_cons_self, lf⟩
      · exact (ih (he ▸ List.mem_cons_self) hc).imp_left <| List.mem_cons_of_mem _
    · exact (ih (he ▸ List.mem_cons_of_mem _ h) hc).imp_left <| List.mem_cons_of_mem _

end Lines

theorem toNat_toLower_lt {c : Char} : c.toLower.toNat < 128 ↔ c.toNat < 128 := by
  unfold Char.toLower
  split
  case isFalse => rfl
  case isTrue hu =>
    have upper : c.val.toNat ≤ 90 := UInt32.le_iff_toNat_le.mp hu.right
    have lower : (c.val + ('a'.val - 'A'.val)).toNat = (c.val.toNat + 32) % 2 ^ 32 := UInt32.toNat_add ..
    simp only [Char.toNat, lower]
    omega

theorem toLower_of_isWhitespace {c : Char} (h : isWhitespace c) : c.toLower = c := by
  unfold Char.toLower
  rw [dif_neg]
  rintro ⟨lower, upper⟩
  have lower : 65 ≤ c.toNat := UInt32.le_iff_toNat_le.mp lower
  have upper : c.toNat ≤ 90 := UInt32.le_iff_toNat_le.mp upper
  simp only [isWhitespace, Bool.or_eq_true, Bool.and_eq_true, decide_eq_true_eq, List.contains_iff_mem,
    List.mem_cons, List.not_mem_nil, or_false] at h
  omega

theorem toLower_eq_or_isLower {c : Char} : c.toLower = c ∨ c.toLower.isLower := by
  unfold Char.toLower
  split
  case isFalse => exact .inl rfl
  case isTrue hu =>
    have lower : 65 ≤ c.val.toNat := UInt32.le_iff_toNat_le.mp hu.left
    have upper : c.val.toNat ≤ 90 := UInt32.le_iff_toNat_le.mp hu.right
    have sum : (c.val + ('a'.val - 'A'.val)).toNat = (c.val.toNat + 32) % 2 ^ 32 := UInt32.toNat_add ..
    refine .inr ?_
    unfold Char.isLower
    simp only [Bool.and_eq_true, decide_eq_true_eq, ge_iff_le, UInt32.le_iff_toNat_le, sum]
    exact ⟨show 97 ≤ _ by omega, show _ ≤ 122 by omega⟩

theorem toLower_of_isLower {c : Char} (h : c.isLower) : c.toLower = c := by
  unfold Char.isLower at h
  simp only [Bool.and_eq_true, decide_eq_true_eq, ge_iff_le, UInt32.le_iff_toNat_le] at h
  have lower : 97 ≤ c.val.toNat := h.left
  unfold Char.toLower
  rw [dif_neg]
  rintro ⟨_, upper⟩
  have upper : c.val.toNat ≤ 90 := UInt32.le_iff_toNat_le.mp upper
  omega

theorem toAsciiLowercase_idem {s : String} :
    toAsciiLowercase (toAsciiLowercase s) = toAsciiLowercase s := by
  have twice (c : Char) : c.toLower.toLower = c.toLower := by
    obtain h | h := toLower_eq_or_isLower (c := c)
    · rw [h, h]
    · exact toLower_of_isLower h
  rw [toAsciiLowercase, toAsciiLowercase, String.toList_ofList, List.map_map]
  exact congrArg String.ofList <| List.map_congr_left fun c _ => twice c

-- Lowercase letters aside a lowercase text holds what the text does.
theorem mem_of_mem_toAsciiLowercase {s : String} {c : Char} (hc : c.isLower = false)
    (h : c ∈ (toAsciiLowercase s).toList) : c ∈ s.toList := by
  rw [toAsciiLowercase, String.toList_ofList] at h
  obtain ⟨d, hd, rfl⟩ := List.mem_map.mp h
  have same : d.toLower = d := toLower_eq_or_isLower.resolve_right (by simp [hc])
  rwa [same]

-- Case is a matter of ASCII text only.
theorem ascii_of_toAsciiLowercase_eq {s t : String} (h : toAsciiLowercase s = toAsciiLowercase t)
    (ht : ∀ c ∈ t.toList, c.toNat < 128) : ∀ c ∈ s.toList, c.toNat < 128 := by
  intro c hc
  have lower : c.toLower ∈ t.toList.map Char.toLower := by
    rw [toAsciiLowercase, toAsciiLowercase, String.ofList_inj] at h
    exact h ▸ List.mem_map_of_mem hc
  obtain ⟨d, hd, he⟩ := List.mem_map.mp lower
  exact toNat_toLower_lt.mp <| he ▸ toNat_toLower_lt.mpr (ht d hd)

theorem isDigit_of_mem_toString {n : Nat} {c : Char} (h : c ∈ (toString n).toList) : c.isDigit := by
  have digits : (toString n).toList = Nat.toDigits 10 n := Nat.toList_repr
  exact Nat.isDigit_of_mem_toDigits (by decide) (by decide) (digits ▸ h)

theorem isDigit_of_mem_toString_int {n : Int} {c : Char} (h : c ∈ (toString n).toList) :
    c.isDigit ∨ c = '-' := by
  rw [Int.toString_eq_repr, Int.repr_eq_if] at h
  split at h
  case isTrue => exact .inl <| isDigit_of_mem_toString h
  case isFalse =>
    obtain h | h := List.mem_append.mp <| String.toList_append ▸ h
    · exact .inr <| List.mem_singleton.mp h
    · exact .inl <| isDigit_of_mem_toString h

theorem parseUsize_toString (n : Nat) :
    parseUsize (toString n) = if n < 2 ^ 64 then some n else none := by
  have digits : (toString n).toList = Nat.toDigits 10 n := Nat.toList_repr
  have digit : ∀ c ∈ Nat.toDigits 10 n, c.isDigit := fun c hc => isDigit_of_mem_toString <| digits ▸ hc
  have plus : (toString n).toList.head? ≠ some '+' := by
    intro hp
    cases isDigit_of_mem_toString <| List.mem_of_mem_head? hp
  rw [parseUsize, if_neg plus, digits, Nat.ofDigitChars_ten_toDigits]
  simp only [Nat.toDigits_ne_nil, ne_eq, not_false_eq_true, List.all_eq_true.mpr digit, true_and]

end Pheidippides.Str
