import Mathlib.Data.List.Basic
import Mathlib.Logic.Function.Basic

-- Texts between two quotes, in which two quotes stand for one.
namespace Quoting

-- Behind a quote it is open whether this is the end of the text or the first of two.
inductive State
  | inside
  | quote

variable {α : Type*} [DecidableEq α] (q : α)

def double (text : List α) : List α :=
  text.flatMap fun a => if a = q then [q, q] else [a]

-- Reads a text from behind its opening quote, and leaves what comes after the closing one.
def read : State → List α → Option (List α × List α)
  | .inside, []     => none
  | .inside, a :: l =>
    if a = q then read .quote l else (read .inside l).map fun (text, rest) => (a :: text, rest)
  | .quote, []      => some ([], [])
  | .quote, a :: l  =>
    if a = q then (read .inside l).map fun (text, rest) => (a :: text, rest) else some ([], a :: l)

-- What has been read but not been taken for something.
def State.pending : State → List α
  | .inside => []
  | .quote  => [q]

variable {q} {a : α} {l text text' rest tail : List α} {state : State}

@[simp]
theorem double_nil : double q [] = [] :=
  rfl

theorem double_cons_self : double q (q :: text) = q :: q :: double q text := by
  simp [double]

theorem double_cons_of_ne (h : a ≠ q) : double q (a :: text) = a :: double q text := by
  simp [double, h]

-- A doubled text is read to its end, wherever the quoted one may end.
theorem read_double_append : read q .inside (double q text ++ l) =
    (read q .inside l).map fun (more, rest) => (text ++ more, rest) := by
  induction text
  case nil => simp
  case cons a text ih =>
    by_cases ha : a = q
    case pos =>
      subst ha
      rw [double_cons_self, List.cons_append, List.cons_append, read, if_pos rfl, read, if_pos rfl, ih,
        Option.map_map]
      rfl
    case neg =>
      rw [double_cons_of_ne ha, List.cons_append, read, if_neg ha, ih, Option.map_map]
      rfl

theorem read_quote (h : rest.head? ≠ some q) : read q .quote rest = some ([], rest) := by
  cases rest
  case nil    => rfl
  case cons a => rw [read, if_neg (by simpa using h)]

theorem read_double (h : rest.head? ≠ some q) :
    read q .inside (double q text ++ q :: rest) = some (text, rest) := by
  rw [read_double_append, read, if_pos rfl, read_quote h]
  simp

-- What is pending counts as a part of the input.
theorem of_read (h : read q state l = some (text, rest)) :
    state.pending q ++ l = double q text ++ q :: rest ∧ rest.head? ≠ some q := by
  induction l generalizing state text
  case nil =>
    cases state
    case inside => cases h
    case quote  => cases h; simp [State.pending]
  case cons a l ih =>
    cases state <;> rw [read] at h <;> split at h
    case inside.isTrue ha =>
      subst ha
      exact ih h
    case inside.isFalse ha =>
      obtain ⟨⟨text, _⟩, hr, he⟩ := Option.map_eq_some_iff.mp h
      cases he
      have ⟨split, ends⟩ := ih hr
      rw [double_cons_of_ne ha, List.cons_append, ← split]
      exact ⟨rfl, ends⟩
    case quote.isTrue ha =>
      subst ha
      obtain ⟨⟨text, _⟩, hr, he⟩ := Option.map_eq_some_iff.mp h
      cases he
      have ⟨split, ends⟩ := ih hr
      rw [double_cons_self, List.cons_append, List.cons_append, ← split]
      exact ⟨rfl, ends⟩
    case quote.isFalse ha =>
      cases h
      exact ⟨rfl, by simpa using ha⟩

theorem read_eq_some_iff : read q .inside l = some (text, rest) ↔
    l = double q text ++ q :: rest ∧ rest.head? ≠ some q :=
  ⟨of_read, fun ⟨hl, h⟩ => hl ▸ read_double h⟩

theorem double_injective : (double q).Injective := by
  intro text text' h
  have read := @read_double α _ q text [] (by simp)
  rw [h, read_double (by simp)] at read
  exact (Prod.mk.inj <| Option.some.inj read).left.symm

-- No quoted text ends before its closing quote, whatever comes after it.
theorem isPrefix_of_read (h : read q .inside (double q text ++ q :: tail) = some (text', rest)) :
    text <+: text' ∧ rest <:+ tail := by
  rw [read_double_append, read, if_pos rfl] at h
  obtain ⟨⟨more, rest⟩, hr, he⟩ := Option.map_eq_some_iff.mp h
  cases he
  have split : q :: tail = double q more ++ q :: rest := (of_read hr).left
  refine ⟨List.prefix_append _ _, ?_⟩
  cases hd : double q more
  case nil  => exact (List.cons.inj <| hd ▸ split).right ▸ List.suffix_rfl
  case cons =>
    rw [hd, List.cons_append] at split
    exact (List.cons.inj split).right ▸ (List.suffix_cons _ _).trans (List.suffix_append _ _)

end Quoting
