import Pheidippides.Primitives.Assignments
import Pheidippides.Primitives.MapM
import Pheidippides.Primitives.Scan
import Pheidippides.Utils.Http

open Assignments

namespace Pheidippides

section Pieces

variable {cookies : List (String × String)} {cookie : String × String} {pieces : List String}

theorem isSeparator_semicolon : Str.IsSeparator "; " :=
  ⟨';', [' '], rfl, by decide⟩

-- No separator reaches from the name to the value, since there is a `=` between them.
theorem IsCookie.unbroken (h : IsCookie cookie) : ¬"; ".toList <:+: (cookiePair cookie).toList := by
  rw [cookiePair, String.toList_append, String.toList_append, List.append_assoc]
  intro hi
  obtain hi | hi := Scan.infix_or_infix (by decide) hi
  · exact h.nameEnds hi
  · exact h.valueEnds hi

theorem split_cookieHeader (ne : cookies ≠ []) (h : ∀ cookie ∈ cookies, IsCookie cookie) :
    Str.split "; " (cookieHeader cookies) = cookies.map cookiePair := by
  refine (Str.split_eq_iff isSeparator_semicolon).mpr ⟨by simpa using ne, rfl, ?_⟩
  exact List.forall_mem_map.mpr fun cookie hm => (h cookie hm).unbroken

theorem splitOnce_cookiePair (h : IsCookie cookie) :
    Str.splitOnce '=' (cookiePair cookie) = some cookie :=
  Str.splitOnce_eq_some_iff.mpr ⟨rfl, h.name⟩

theorem mapM_cookiePair (h : ∀ cookie ∈ cookies, IsCookie cookie) :
    (cookies.map cookiePair).mapM (Str.splitOnce '=') = some cookies := by
  have whole := MapM.mapM_eq_some fun cookie hm => splitOnce_cookiePair (h cookie hm)
  rw [List.map_id'] at whole
  exact List.mapM_map.trans whole

theorem mapM_splitOnce_eq_none_iff :
    pieces.mapM (Str.splitOnce '=') = none ↔ ∃ piece ∈ pieces, '=' ∉ piece.toList := by
  simp only [MapM.mapM_eq_none_iff, Str.splitOnce_eq_none_iff]

end Pieces

variable [Unicode] {headers : Headers} {cookieList : String}

-- The loop stops at the first piece without a `=`, and otherwise puts all pairs into the map.
theorem getCookiesHashmap_eq (h : headers (.ofString "Cookie") = some cookieList) :
    getCookiesHashmap headers = ((Str.split "; " cookieList).mapM (Str.splitOnce '=')).elim
      (.error .incorrectHeader) fun cookies => .ok <| cookies.foldl assign fun _ => none := by
  rw [getCookiesHashmap, h]
  dsimp only
  generalize Str.split "; " cookieList = pieces, (fun _ : String => none) = map
  induction pieces generalizing map
  case nil => rfl
  case cons piece pieces ih =>
    rw [List.foldlM_cons, List.mapM_cons]
    cases Str.splitOnce '=' piece
    case none => rfl
    case some =>
      refine (ih _).trans ?_
      cases pieces.mapM (Str.splitOnce '=') <;> rfl

theorem getCookiesHashmap_cookieHeader {cookies : List (String × String)} (ne : cookies ≠ [])
    (hc : ∀ cookie ∈ cookies, IsCookie cookie)
    (h : headers (.ofString "Cookie") = some (cookieHeader cookies)) :
    getCookiesHashmap headers = .ok (cookies.foldl assign fun _ => none) := by
  rw [getCookiesHashmap_eq h, split_cookieHeader ne hc, mapM_cookiePair hc]
  rfl

theorem getCookiesHashmap_eq_error_iff (h : headers (.ofString "Cookie") = some cookieList) :
    (∃ e, getCookiesHashmap headers = .error e) ↔
      ∃ piece ∈ Str.split "; " cookieList, '=' ∉ piece.toList := by
  rw [getCookiesHashmap_eq h, ← mapM_splitOnce_eq_none_iff]
  cases (Str.split "; " cookieList).mapM (Str.splitOnce '=')
  case none   => exact iff_of_true ⟨_, rfl⟩ rfl
  case some _ => exact iff_of_false nofun nofun

end Pheidippides
