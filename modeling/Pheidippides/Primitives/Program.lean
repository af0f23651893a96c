import Mathlib.Tactic.SplitIfs

-- Programs of tasks which share a state. At each of its operations a task may have to wait, while others
-- go on.
inductive Program (ι : Type) (ρ : ι → Type) (α : Type)
  | done (value : α)
  | op (i : ι) (next : ρ i → Program ι ρ α)

namespace Program

variable {ι σ τ α β γ : Type} {ρ : ι → Type}

def bind : Program ι ρ α → (α → Program ι ρ β) → Program ι ρ β
  | done value, f => f value
  | op i next, f  => op i fun res => (next res).bind f

instance : Monad (Program ι ρ) where
  pure := done
  bind := bind

theorem bind_done (p : Program ι ρ α) : p.bind done = p := by
  induction p
  case done         => rfl
  case op i next ih => exact congrArg (op i) <| funext ih

theorem bind_assoc (p : Program ι ρ α) (f : α → Program ι ρ β) (g : β → Program ι ρ γ) :
    (p.bind f).bind g = p.bind fun a => (f a).bind g := by
  induction p
  case done         => rfl
  case op i next ih => exact congrArg (op i) <| funext ih

instance : LawfulMonad (Program ι ρ) :=
  .mk' _ bind_done (fun _ _ => rfl) bind_assoc

section Run

variable (waits : ι → Bool) (step : (i : ι) → σ → ρ i × σ)

-- The program with nothing in between.
def run : Program ι ρ α → σ → α × σ
  | done value, s => (value, s)
  | op i next, s  => (next (step i s).1).run (step i s).2

-- The program up to where it has to wait.
def advance : Program ι ρ α → σ → Program ι ρ α × σ
  | done value, s => (done value, s)
  | op i next, s  => if waits i then (op i next, s) else (next (step i s).1).advance (step i s).2

-- What it waits for is there.
def resume : Program ι ρ α → σ → Program ι ρ α × σ
  | done value, s => (done value, s)
  | op i next, s  => (next (step i s).1).advance waits step (step i s).2

-- What is left of the program when its pieces have been run in these states, with anything in between.
def pieces (p : Program ι ρ α) : List σ → Program ι ρ α
  | []      => p
  | s :: ss => ss.foldl (fun p s => (p.resume waits step s).1) (p.advance waits step s).1

end Run

section Runs

variable {waits : ι → Bool} {step : (i : ι) → σ → ρ i × σ} {P : σ → Prop} {s : σ}

theorem run_induction (p : Program ι ρ α) (init : P s) (keeps : ∀ i s, P s → P (step i s).2) :
    P (p.run step s).2 := by
  induction p generalizing s
  case done         => exact init
  case op i next ih => exact ih _ <| keeps i s init

theorem advance_induction (p : Program ι ρ α) (init : P s)
    (keeps : ∀ i s, waits i = false → P s → P (step i s).2) : P (p.advance waits step s).2 := by
  induction p generalizing s
  case done         => exact init
  case op i next ih =>
    rw [advance]
    split_ifs with hw
    · exact init
    · exact ih _ <| keeps i s (eq_false_of_ne_true hw) init

-- Where the program stops it has to wait.
theorem waits_of_advance {p : Program ι ρ α} {i : ι} {next : ρ i → Program ι ρ α}
    (h : (p.advance waits step s).1 = op i next) : waits i = true := by
  induction p generalizing s
  case done          => cases h
  case op j next' ih =>
    rw [advance] at h
    split_ifs at h with hw
    · cases h
      exact hw
    · exact ih _ h

theorem advance_congr {step' : (i : ι) → σ → ρ i × σ}
    (h : ∀ i s, waits i = false → step i s = step' i s) (p : Program ι ρ α) :
    p.advance waits step s = p.advance waits step' s := by
  induction p generalizing s
  case done         => rfl
  case op i next ih =>
    rw [advance, advance]
    split_ifs with hw
    · rfl
    · rw [h i s <| eq_false_of_ne_true hw, ih]

theorem pieces_concat {p : Program ι ρ α} {ss : List σ} (ne : ss ≠ []) :
    p.pieces waits step (ss ++ [s]) = ((p.pieces waits step ss).resume waits step s).1 := by
  cases ss
  case nil  => contradiction
  case cons => exact List.foldl_append ..

end Runs

-- What is demanded of a program, in terms of a state that goes along with it: what it may do, with which
-- results, and how it may end.
structure Contract (ι : Type) (ρ : ι → Type) (τ α : Type) where
  may  : τ → ι → Prop
  gets : τ → (i : ι) → ρ i → τ → Prop
  ends : τ → α → Prop

def Meets (k : Contract ι ρ τ α) : τ → Program ι ρ α → Prop
  | t, done value => k.ends t value
  | t, op i next  => k.may t i ∧ ∀ res t', k.gets t i res t' → Meets k t' (next res)

namespace Meets

variable {k : Contract ι ρ τ α} {waits : ι → Bool} {step : (i : ι) → σ → ρ i × σ} {s : σ} {t : τ}
  {p : Program ι ρ α}

-- A program keeps its contract up to where it waits, if the states go along with one another.
theorem advance {G : τ → σ → Prop} (h : p.Meets k t) (init : G t s)
    (keeps : ∀ i t s, waits i = false → k.may t i → G t s →
      ∃ t', k.gets t i (step i s).1 t' ∧ G t' (step i s).2) :
    ∃ t', (p.advance waits step s).1.Meets k t' ∧ G t' (p.advance waits step s).2 := by
  induction p generalizing s t
  case done         => exact ⟨t, h, init⟩
  case op i next ih =>
    rw [Program.advance]
    split_ifs with hw
    · exact ⟨t, h, init⟩
    · have ⟨t', gets, go⟩ := keeps i t s (eq_false_of_ne_true hw) h.left init
      exact ih _ (h.right _ t' gets) go

end Meets
end Program
