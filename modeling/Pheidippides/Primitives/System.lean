import Mathlib.Data.List.Induction
import Mathlib.Data.Nat.Init

-- A system that takes one step per event. Steps are total: an event which is not enabled in a state
-- leaves it unchanged, so every list of events is a run and "for every interleaving" is a quantifier
-- over lists.
structure System (σ ε : Type*) where
  init : σ
  step : σ → ε → σ

namespace System

variable {σ ε τ δ : Type*} (S : System σ ε)

def exec (s : σ) (es : List ε) : σ :=
  es.foldl S.step s

def run (es : List ε) : σ :=
  S.exec S.init es

@[simp]
theorem exec_nil (s : σ) : S.exec s [] = s :=
  rfl

@[simp]
theorem exec_cons (s : σ) (e : ε) (es : List ε) : S.exec s (e :: es) = S.exec (S.step s e) es :=
  rfl

theorem exec_append (s : σ) (es₁ es₂ : List ε) : S.exec s (es₁ ++ es₂) = S.exec (S.exec s es₁) es₂ :=
  List.foldl_append ..

@[simp]
theorem run_nil : S.run [] = S.init :=
  rfl

theorem run_append (es₁ es₂ : List ε) : S.run (es₁ ++ es₂) = S.exec (S.run es₁) es₂ :=
  S.exec_append ..

theorem run_concat (es : List ε) (e : ε) : S.run (es ++ [e]) = S.step (S.run es) e := by
  simp [run_append]

variable {S}

-- The induction principle for properties of a whole execution.
theorem exec_induction {P : σ → Prop} {s : σ} (es : List ε) (init : P s)
    (step : ∀ s e, P s → P (S.step s e)) : P (S.exec s es) := by
  induction es generalizing s
  case nil          => exact init
  case cons e es ih => exact ih <| step s e init

structure Invariant (S : System σ ε) (P : σ → Prop) : Prop where
  init : P S.init
  step : ∀ {s} e, P s → P (S.step s e)

namespace Invariant

variable {P : σ → Prop}

theorem exec (h : S.Invariant P) {s : σ} (hs : P s) (es : List ε) : P (S.exec s es) :=
  exec_induction es hs fun _ e => h.step e

theorem run (h : S.Invariant P) (es : List ε) : P (S.run es) :=
  h.exec h.init es

end Invariant

-- Every step of the execution satisfies `c`, a condition on the state before the step and the event.
def Along (S : System σ ε) (c : σ → ε → Prop) : σ → List ε → Prop
  | _, []      => True
  | s, e :: es => c s e ∧ Along S c (S.step s e) es

namespace Along

variable {c : σ → ε → Prop}

instance [∀ s e, Decidable (c s e)] : ∀ s es, Decidable (S.Along c s es)
  | _, []      => .isTrue trivial
  | s, e :: es =>
    have := instDecidable (S.step s e) es
    inferInstanceAs (Decidable (c s e ∧ S.Along c (S.step s e) es))

@[simp]
theorem nil {s : σ} : S.Along c s [] :=
  trivial

@[simp]
theorem cons {s : σ} {e : ε} {es : List ε} :
    S.Along c s (e :: es) ↔ c s e ∧ S.Along c (S.step s e) es :=
  .rfl

theorem append {s : σ} {es₁ es₂ : List ε} :
    S.Along c s (es₁ ++ es₂) ↔ S.Along c s es₁ ∧ S.Along c (S.exec s es₁) es₂ := by
  induction es₁ generalizing s
  case nil           => simp
  case cons e es₁ ih => simp [ih, and_assoc]

theorem induction {P : σ → Prop} {s : σ} {es : List ε} (h : S.Along c s es) (init : P s)
    (step : ∀ {s} e, c s e → P s → P (S.step s e)) : P (S.exec s es) := by
  induction es generalizing s
  case nil          => exact init
  case cons e es ih => exact ih h.right <| step e h.left init

theorem iff_forall_split {s : σ} {es : List ε} :
    S.Along c s es ↔ ∀ {a e b}, es = a ++ e :: b → c (S.exec s a) e := by
  constructor
  case mp =>
    rintro h a e b rfl
    exact (append.mp h).right.left
  case mpr =>
    induction es generalizing s
    case nil          => exact fun _ => trivial
    case cons e es ih =>
      exact fun h => ⟨h (a := []) rfl, ih fun {a _ _} he => h (a := e :: a) (by rw [he]; rfl)⟩

-- A property which a step keeps exactly under the condition, and never regains.
theorem exec_iff {r : σ → ε → Prop} {I P : σ → Prop}
    (step : ∀ {s} e, r s e → I s → I (S.step s e) ∧ (P (S.step s e) ↔ P s ∧ c s e)) {s : σ}
    {es : List ε} (h : S.Along r s es) (init : I s) : P (S.exec s es) ↔ P s ∧ S.Along c s es := by
  induction es generalizing s
  case nil          => simp
  case cons e es ih =>
    have ⟨inv, iff⟩ := step e h.left init
    rw [exec_cons, ih h.right inv, iff, and_assoc, cons]

end Along

-- The states along a schedule that never ends.
def states (S : System σ ε) (s : σ) (es : ℕ → ε) (n : ℕ) : σ :=
  S.exec s <| (List.range n).map es

theorem states_succ {s : σ} {es : ℕ → ε} {n : ℕ} :
    S.states s es (n + 1) = S.step (S.states s es n) (es n) := by
  simp [states, List.range_succ, exec_append]

theorem Along.states {c : σ → ε → Prop} {s : σ} {es : ℕ → ε}
    (h : ∀ n, c (S.states s es n) (es n)) (n : ℕ) : S.Along c s <| (List.range n).map es := by
  induction n
  case zero      => exact .nil
  case succ n ih =>
    rw [List.range_succ, List.map_append, append]
    exact ⟨ih, h n, trivial⟩

-- Each of these events comes again and again.
def Fair (p : ε → Prop) (es : ℕ → ε) : Prop :=
  ∀ e, p e → ∀ n, ∃ m ≥ n, es m = e

-- A goal is reached if, as long as it is not, some step that comes again and again helps towards it, and
-- continues to help until a step has brought the goal nearer.
theorem Fair.leadsTo {p q : ε → Prop} {I G : σ → Prop} {H : σ → ε → Prop} {μ : σ → ℕ} {s : σ}
    {es : ℕ → ε} (fair : Fair p es)
    (step : ∀ s e, I s → ¬G s → q e → G (S.step s e) ∨ I (S.step s e) ∧ μ (S.step s e) ≤ μ s)
    (progress : ∀ s, I s → ¬G s → ∃ e, p e ∧ H s e)
    (helps : ∀ s e, I s → ¬G s → H s e → G (S.step s e) ∨ μ (S.step s e) < μ s)
    (stays : ∀ s e e', I s → ¬G s → q e' → H s e →
      G (S.step s e') ∨ μ (S.step s e') < μ s ∨ H (S.step s e') e) {n : ℕ}
    (allowed : ∀ m ≥ n, q (es m)) (init : I (S.states s es n)) : ∃ m ≥ n, G (S.states s es m) := by
  by_contra never
  have never (m : ℕ) (hm : m ≥ n) : ¬G (S.states s es m) := fun hg => never ⟨m, hm, hg⟩
  have inv (m : ℕ) (hm : m ≥ n) :
      I (S.states s es m) ∧ μ (S.states s es (m + 1)) ≤ μ (S.states s es m) := by
    have next {m : ℕ} (hm : m ≥ n) (hi : I (S.states s es m)) :
        I (S.states s es (m + 1)) ∧ μ (S.states s es (m + 1)) ≤ μ (S.states s es m) := by
      rw [states_succ]
      exact (step _ _ hi (never m hm) (allowed m hm)).resolve_left <| states_succ ▸ never _ (by omega)
    induction m, hm using Nat.le_induction
    case base         => exact ⟨init, (next (Nat.le_refl n) init).right⟩
    case succ m hm ih => exact ⟨(next hm ih.left).left, (next (by omega) (next hm ih.left).left).right⟩
  -- What helps at `m` is done sooner or later, and has helped until then.
  have descends (m : ℕ) (hm : m ≥ n) : ∃ k ≥ n, μ (S.states s es k) < μ (S.states s es m) := by
    have ⟨e, he, help⟩ := progress _ (inv m hm).left (never m hm)
    obtain ⟨k, hk, rfl⟩ := fair e he m
    have keeps : ∀ j ≥ m, (∃ k ≥ n, μ (S.states s es k) < μ (S.states s es m)) ∨
        μ (S.states s es j) ≤ μ (S.states s es m) ∧ H (S.states s es j) (es k) := by
      intro j hj
      induction j, hj using Nat.le_induction
      case base         => exact .inr ⟨Nat.le_refl _, help⟩
      case succ j hj ih =>
        refine ih.elim .inl fun ⟨le, help⟩ => ?_
        have hn : j ≥ n := by omega
        have stays := stays _ _ (es j) (inv j hn).left (never j hn) (allowed j hn) help
        rw [← states_succ] at stays
        obtain lt | help := stays.resolve_left <| never _ (by omega)
        · exact .inl ⟨j + 1, by omega, by omega⟩
        · exact .inr ⟨Nat.le_trans (inv j hn).right le, help⟩
    refine (keeps k hk).elim id fun ⟨le, help⟩ => ?_
    have hn : k ≥ n := by omega
    have lt := helps _ _ (inv k hn).left (never k hn) help
    rw [← states_succ] at lt
    exact ⟨k + 1, by omega, Nat.lt_of_lt_of_le (lt.resolve_left <| never _ (by omega)) le⟩
  have none (bound : ℕ) : ∀ m ≥ n, bound ≤ μ (S.states s es m) := by
    induction bound
    case zero         => exact fun _ _ => Nat.zero_le _
    case succ bound ih =>
      intro m hm
      have ⟨k, hk, lt⟩ := descends m hm
      exact Nat.le_trans (Nat.succ_le_succ (ih k hk)) lt
  exact Nat.not_succ_le_self _ <| none _ n (Nat.le_refl n)

-- The same for steps which either change nothing or bring the goal nearer.
theorem Fair.reaches {p q : ε → Prop} {I G : σ → Prop} {μ : σ → ℕ} {s : σ} {es : ℕ → ε}
    (fair : Fair p es)
    (step : ∀ s e, I s → q e → I (S.step s e) ∧ (S.step s e = s ∨ μ (S.step s e) < μ s))
    (progress : ∀ s, I s → ¬G s → ∃ e, p e ∧ μ (S.step s e) < μ s) {n : ℕ}
    (allowed : ∀ m ≥ n, q (es m)) (init : I (S.states s es n)) : ∃ m ≥ n, G (S.states s es m) := by
  refine fair.leadsTo (H := fun s e => μ (S.step s e) < μ s) ?step progress
    (fun _ _ _ _ lt => .inr lt) ?stays allowed init
  case step =>
    intro s e hi _ he
    have ⟨next, same⟩ := step s e hi he
    exact .inr ⟨next, same.elim (fun same => Nat.le_of_eq <| congrArg μ same) Nat.le_of_lt⟩
  case stays =>
    intro s e e' hi _ he help
    obtain same | lt := (step s e' hi he).right
    · exact .inr <| .inr <| by rwa [same]
    · exact .inr <| .inl lt

-- A place in a trace which gets another entry.
theorem cons_of_concat {β : Type*} {before after trace : List β} {entry last : β}
    (h : trace ++ [last] = before ++ entry :: after) :
    (trace = before ∧ last = entry ∧ after = []) ∨ ∃ after', trace = before ++ entry :: after' := by
  obtain rfl | ⟨after, x, rfl⟩ := after.eq_nil_or_concat
  · have ⟨hb, he⟩ := List.append_inj' h rfl
    cases he
    exact .inl ⟨hb, rfl, rfl⟩
  · rw [List.concat_eq_append, ← List.cons_append, ← List.append_assoc] at h
    exact .inr ⟨after, (List.append_inj' h rfl).left⟩

-- Some event of a run has satisfied `p`, and all later ones `q`.
def Since (S : System σ ε) (p : σ → ε → Prop) (q : ε → Prop) (es : List ε) : Prop :=
  ∃ es₁ e es₂, es = es₁ ++ e :: es₂ ∧ p (S.run es₁) e ∧ ∀ e ∈ es₂, q e

namespace Since

variable {p : σ → ε → Prop} {q : ε → Prop} {es : List ε} {e : ε}

theorem not_nil : ¬S.Since p q [] :=
  fun ⟨_, _, _, h, _⟩ => by simp at h

theorem concat_iff : S.Since p q (es ++ [e]) ↔ p (S.run es) e ∨ (S.Since p q es ∧ q e) := by
  constructor
  case mp =>
    rintro ⟨es₁, e', es₂, he, hp, hq⟩
    induction es₂ using List.reverseRecOn
    case nil =>
      obtain ⟨rfl, last⟩ := List.append_inj' he rfl
      cases last
      exact .inl hp
    case append_singleton es₂ e'' _ =>
      rw [← List.cons_append, ← List.append_assoc] at he
      obtain ⟨rfl, last⟩ := List.append_inj' he rfl
      cases last
      refine .inr ⟨⟨es₁, e', es₂, rfl, hp, fun e he => hq e ?_⟩, hq e ?_⟩ <;> simp [*]
  case mpr =>
    rintro (hp | ⟨⟨es₁, e', es₂, rfl, hp, hq⟩, he⟩)
    · exact ⟨es, e, [], rfl, hp, by simp⟩
    · refine ⟨es₁, e', es₂ ++ [e], by simp, hp, fun e' h => ?_⟩
      obtain h | h := List.mem_append.mp h
      · exact hq e' h
      · exact List.mem_singleton.mp h ▸ he

end Since

-- `S` simulates itself in `T`: through `f` a step of `S` is some number of steps of `T`.
structure Simulation (S : System σ ε) (T : System τ δ) (f : σ → τ) : Prop where
  init : f S.init = T.init
  step : ∀ s e, ∃ ds, f (S.step s e) = T.exec (f s) ds

namespace Simulation

variable {T : System τ δ} {f : σ → τ}

theorem exec (h : Simulation S T f) (s : σ) (es : List ε) :
    ∃ ds, f (S.exec s es) = T.exec (f s) ds := by
  induction es generalizing s
  case nil => exact ⟨[], rfl⟩
  case cons e es ih =>
    have ⟨ds₁, h₁⟩ := h.step s e
    have ⟨ds₂, h₂⟩ := ih (S.step s e)
    exact ⟨ds₁ ++ ds₂, by rw [exec_cons, h₂, h₁, exec_append]⟩

theorem run (h : Simulation S T f) (es : List ε) : ∃ ds, f (S.run es) = T.run ds := by
  have ⟨ds, hd⟩ := h.exec S.init es
  exact ⟨ds, by rw [System.run, hd, h.init, System.run]⟩

end Simulation
end System
