import Pheidippides.Primitives.System
import Mathlib.Data.List.Nodup

-- Concurrent transactions on a table, each of which takes a lock before all else and keeps it to its end.
namespace Transactions

variable {σ ρ κ : Type*}

-- What is left of a transaction. A statement may change the table as the transaction sees it, and what
-- comes next depends on what the statement has found there.
inductive Body (σ ρ : Type*)
  | commit (answer : ρ)
  | rollback (answer : ρ)
  | statement (write : σ → σ) (next : σ → Body σ ρ)

namespace Body

-- What the rest of a transaction comes to, where `view` is what it sees of the table.
def run (table : σ) : Body σ ρ → σ → ρ × σ
  | commit answer, view        => (answer, view)
  | rollback answer, _         => (answer, table)
  | statement write next, view => run table (next view) (write view)

-- The transaction as a single operation.
def atomic (body : Body σ ρ) (table : σ) : ρ × σ :=
  body.run table table

end Body

-- How far a call has come. One that has failed has got no answer, whatever it has done.
inductive Task (σ ρ : Type*)
  | waiting
  | running (view : σ) (body : Body σ ρ)
  | done (answer : ρ)
  | failed

def Task.isRunning : Task σ ρ → Bool
  | running .. => true
  | _          => false

-- The calls in the order in which they have been made. `trace` is history: those whose transactions have
-- come to their end.
structure Db (κ σ ρ : Type*) where
  table : σ
  tasks : List (κ × Task σ ρ)
  trace : List (Nat × κ)

-- A call may fail at any time, and also after its transaction has been committed.
inductive Event (κ : Type*)
  | call (k : κ)
  | lock (i : Nat)
  | statement (i : Nat)
  | finish (i : Nat)
  | abort (i : Nat)
  | lose (i : Nat)

-- The call whose transaction may end here.
def Event.ends : Event κ → Option Nat
  | finish i => some i
  | lose i   => some i
  | _        => none

def Event.called : Event κ → Option κ
  | call k => some k
  | _      => none

namespace Db

def start (table : σ) : Db κ σ ρ where
  table := table
  tasks := []
  trace := []

variable (T : κ → Body σ ρ) (w : Db κ σ ρ)

def locked : Bool :=
  w.tasks.any (·.2.isRunning)

def set (i : Nat) (k : κ) (task : Task σ ρ) : Db κ σ ρ :=
  { w with tasks := w.tasks.set i (k, task) }

-- The transaction of the call ends.
def close (i : Nat) (k : κ) (table : σ) (task : Task σ ρ) : Db κ σ ρ :=
  { w.set i k task with table, trace := w.trace ++ [(i, k)] }

def step : Event κ → Db κ σ ρ
  | .call k => { w with tasks := w.tasks ++ [(k, .waiting)] }
  | .lock i =>
    match w.tasks[i]? with
    | some (k, .waiting) => if w.locked then w else w.set i k (.running w.table (T k))
    | _                  => w
  | .statement i =>
    match w.tasks[i]? with
    | some (k, .running view (.statement write next)) => w.set i k (.running (write view) (next view))
    | _                                               => w
  | .finish i =>
    match w.tasks[i]? with
    | some (k, .running view (.commit answer)) => w.close i k view (.done answer)
    | some (k, .running _ (.rollback answer))  => w.close i k w.table (.done answer)
    | _                                        => w
  | .abort i =>
    match w.tasks[i]? with
    | some (k, .waiting)    => w.set i k .failed
    | some (k, .running ..) => w.set i k .failed
    | _                     => w
  | .lose i =>
    match w.tasks[i]? with
    | some (k, .running view (.commit _)) => w.close i k view .failed
    | _                                   => w

def system (table : σ) : System (Db κ σ ρ) (Event κ) where
  init := start table
  step := step T

end Db

-- The calls as single operations, one after the other.
def replay (T : κ → Body σ ρ) (table : σ) (trace : List (Nat × κ)) : σ :=
  trace.foldl (fun table call => ((T call.2).atomic table).2) table

theorem replay_concat {T : κ → Body σ ρ} {table : σ} {trace : List (Nat × κ)} {call : Nat × κ} :
    replay T table (trace ++ [call]) = ((T call.2).atomic (replay T table trace)).2 := by
  simp [replay]

namespace Db

variable {T : κ → Body σ ρ} {table : σ} {w w' : Db κ σ ρ} {e : Event κ} {i j : Nat} {k : κ}
  {task : Task σ ρ}

-- What an event can change.
inductive Change (T : κ → Body σ ρ) (w : Db κ σ ρ) : Event κ → Db κ σ ρ → Prop
  | idle {e : Event κ} : e.called = none → Change T w e w
  | call {k : κ} : Change T w (.call k) { w with tasks := w.tasks ++ [(k, .waiting)] }
  | lock {i : Nat} {k : κ} : w.tasks[i]? = some (k, .waiting) → w.locked = false →
    Change T w (.lock i) (w.set i k (.running w.table (T k)))
  | statement {i : Nat} {k : κ} {view : σ} {write : σ → σ} {next : σ → Body σ ρ} :
    w.tasks[i]? = some (k, .running view (.statement write next)) →
    Change T w (.statement i) (w.set i k (.running (write view) (next view)))
  | close {e : Event κ} {i : Nat} {k : κ} {view table : σ} {body : Body σ ρ} {answer : ρ}
      {task : Task σ ρ} :
    w.tasks[i]? = some (k, .running view body) → body.run w.table view = (answer, table) →
    e.ends = some i → task = .done answer ∨ task = .failed → Change T w e (w.close i k table task)
  | abort {i : Nat} {k : κ} {task : Task σ ρ} : w.tasks[i]? = some (k, task) →
    (∀ answer, task ≠ .done answer) → task ≠ .failed → Change T w (.abort i) (w.set i k .failed)

theorem step_change (T : κ → Body σ ρ) (w : Db κ σ ρ) (e : Event κ) : Change T w e (w.step T e) := by
  cases e
  case call => exact .call
  case lock =>
    rw [step]
    split
    case h_1 hi =>
      split_ifs with locked
      · exact .idle rfl
      · exact .lock hi <| by simpa using locked
    case h_2 => exact .idle rfl
  case statement =>
    rw [step]
    split
    case h_1 hi => exact .statement hi
    case h_2    => exact .idle rfl
  case finish =>
    rw [step]
    split
    case h_1 hi => exact .close hi rfl rfl (.inl rfl)
    case h_2 hi => exact .close hi rfl rfl (.inl rfl)
    case h_3    => exact .idle rfl
  case abort =>
    rw [step]
    split
    case h_1 hi => exact .abort hi nofun nofun
    case h_2 hi => exact .abort hi nofun nofun
    case h_3    => exact .idle rfl
  case lose =>
    rw [step]
    split
    case h_1 hi => exact .close hi rfl rfl (.inr rfl)
    case h_2    => exact .idle rfl

-- The tasks after one of them has changed.
theorem getElem?_set_iff {tasks : List (κ × Task σ ρ)} {t t' t₁ : κ × Task σ ρ}
    (hi : tasks[i]? = some t) : (tasks.set i t')[j]? = some t₁ ↔
      (j = i ∧ t₁ = t') ∨ (j ≠ i ∧ tasks[j]? = some t₁) := by
  have lt : i < tasks.length := (List.getElem?_eq_some_iff.mp hi).1
  obtain rfl | hij := eq_or_ne j i
  · simp [List.getElem?_set_self lt, eq_comm]
  · simp [List.getElem?_set_ne hij.symm, hij]

theorem getElem?_concat {tasks : List (κ × Task σ ρ)} {t t' : κ × Task σ ρ}
    (hi : (tasks ++ [t'])[i]? = some t) : tasks[i]? = some t ∨ t = t' := by
  rw [List.getElem?_append] at hi
  split_ifs at hi
  · exact .inl hi
  · exact .inr <| List.mem_singleton.mp <| List.mem_of_getElem? hi

theorem not_running (h : w.locked = false) (hi : w.tasks[i]? = some (k, task)) : task.isRunning = false := by
  have := List.any_eq_false.mp h (k, task) (List.mem_of_getElem? hi)
  simpa using this

-- The calls which have come to their end are a run of single operations, and the ones that have got an
-- answer have got that of this run. At most one transaction is under way.
structure Serial (T : κ → Body σ ρ) (table : σ) (w : Db κ σ ρ) : Prop where
  state     : w.table = replay T table w.trace
  once      : (w.trace.map (·.1)).Nodup
  ended     : ∀ {before after i k}, w.trace = before ++ (i, k) :: after → ∃ task,
    w.tasks[i]? = some (k, task) ∧
      (task = .done ((T k).atomic (replay T table before)).1 ∨ task = .failed)
  done      : ∀ {i : Nat} {k answer}, w.tasks[i]? = some (k, .done answer) → (i, k) ∈ w.trace
  running   : ∀ {i : Nat} {k view body}, w.tasks[i]? = some (k, .running view body) →
    body.run w.table view = (T k).atomic w.table
  exclusive : ∀ {i j : Nat} {k l task task'}, w.tasks[i]? = some (k, task) →
    w.tasks[j]? = some (l, task') → task.isRunning = true → task'.isRunning = true → i = j

-- Calls that have ended are all before those which end later.
theorem Change.trace_grow (change : Change T w e w') : w.trace <+: w'.trace := by
  cases change
  case close => exact List.prefix_append ..
  all_goals exact List.prefix_rfl

theorem Change.calls (change : Change T w e w') :
    w'.tasks.map (·.1) = w.tasks.map (·.1) ++ e.called.toList := by
  have same {i : Nat} {k : κ} {task : Task σ ρ} (hi : w.tasks[i]? = some (k, task)) (task' : Task σ ρ) :
      (w.tasks.set i (k, task')).map (·.1) = w.tasks.map (·.1) := by
    have ⟨lt, he⟩ := List.getElem?_eq_some_iff.mp hi
    have key : (w.tasks.map (·.1)).get ⟨i, by simpa⟩ = k := by simp [he]
    rw [List.map_set, ← key, List.get_eq_getElem, List.set_getElem_self]
  cases change
  case idle h            => simp [h]
  case call              => simp [Event.called]
  case lock hi _         => exact (same hi _).trans (List.append_nil _).symm
  case statement hi      => exact (same hi _).trans (List.append_nil _).symm
  case abort hi _ _      => exact (same hi _).trans (List.append_nil _).symm
  case close hi _ _ ends =>
    have none : e.called = none := by
      cases e
      case call => cases ends
      all_goals rfl
    exact none ▸ (same hi _).trans (List.append_nil _).symm

namespace Serial

theorem start : Serial T table (.start table) where
  state         := rfl
  once          := .nil
  ended h       := by simp [Db.start] at h
  done h        := by simp [Db.start] at h
  running h     := by simp [Db.start] at h
  exclusive h _ := by simp [Db.start] at h

-- A call of which the transaction has not come to its end is not part of the trace.
theorem not_mem_trace (h : Serial T table w) (hi : w.tasks[i]? = some (k, task))
    (hd : ∀ answer, task ≠ .done answer) (hf : task ≠ .failed) {l : κ} : (i, l) ∉ w.trace := by
  intro hm
  have ⟨before, after, ht⟩ := List.append_of_mem hm
  have ⟨task', hi', ended⟩ := h.ended ht
  cases hi.symm.trans hi'
  obtain rfl | rfl := ended
  · exact hd _ rfl
  · exact hf rfl

-- A task goes on, or fails.
theorem set {task' : Task σ ρ} (h : Serial T table w) (hi : w.tasks[i]? = some (k, task))
    (hd : ∀ answer, task ≠ .done answer) (hf : task ≠ .failed) (hd' : ∀ answer, task' ≠ .done answer)
    (running : ∀ {view body}, task' = .running view body → body.run w.table view = (T k).atomic w.table)
    (free : task'.isRunning = true → task.isRunning = true ∨ w.locked = false) :
    Serial T table (w.set i k task') where
  state := h.state
  once  := h.once
  ended {before after j l} ht := by
    have ⟨task₁, hj, ended⟩ := h.ended ht
    refine ⟨task₁, (getElem?_set_iff hi).mpr <| .inr ⟨?_, hj⟩, ended⟩
    rintro rfl
    exact h.not_mem_trace hi hd hf <| ht ▸ List.mem_append_right before List.mem_cons_self
  done {j l answer} hj := by
    obtain ⟨rfl, he⟩ | ⟨_, hj⟩ := (getElem?_set_iff hi).mp hj
    · cases he
      exact absurd rfl <| hd' _
    · exact h.done hj
  running {j l view body} hj := by
    obtain ⟨rfl, he⟩ | ⟨_, hj⟩ := (getElem?_set_iff hi).mp hj
    · cases he
      exact running rfl
    · exact h.running hj
  exclusive {j j' l l' task₁ task₂} hj hj' hr hr' := by
    have alone {j : Nat} {l : κ} {task₁ : Task σ ρ} (hj : w.tasks[j]? = some (l, task₁))
        (hr : task₁.isRunning = true) (hr' : task'.isRunning = true) : j = i := by
      obtain same | free := free hr'
      · exact h.exclusive hj hi hr same
      · exact absurd hr <| by simp [not_running free hj]
    obtain ⟨rfl, he⟩ | ⟨_, old⟩ := (getElem?_set_iff hi).mp hj <;>
      obtain ⟨rfl, he'⟩ | ⟨_, old'⟩ := (getElem?_set_iff hi).mp hj'
    · rfl
    · cases he
      exact (alone old' hr' hr).symm
    · cases he'
      exact alone old hr hr'
    · exact h.exclusive old old' hr hr'

-- The transaction of a task comes to its end.
theorem close {view table' : σ} {body : Body σ ρ} {answer : ρ} (h : Serial T table w)
    (hi : w.tasks[i]? = some (k, .running view body)) (hb : body.run w.table view = (answer, table'))
    (ht : task = .done answer ∨ task = .failed) : Serial T table (w.close i k table' task) := by
  have atomic : (T k).atomic w.table = (answer, table') := (h.running hi).symm.trans hb
  have new {l : κ} : (i, l) ∉ w.trace := h.not_mem_trace hi nofun nofun
  have stopped : task.isRunning = false := by obtain rfl | rfl := ht <;> rfl
  refine ⟨?state, ?once, ?ended, ?done, ?running, ?exclusive⟩
  case state =>
    refine (congrArg Prod.snd atomic).symm.trans ?_
    rw [Db.close, replay_concat, ← h.state]
  case once =>
    refine List.map_append ▸ List.nodup_append.mpr ⟨h.once, List.nodup_singleton i, fun j hj l hl he => ?_⟩
    obtain rfl : j = i := he.trans <| List.mem_singleton.mp hl
    have ⟨⟨_, _⟩, hm, hj⟩ := List.mem_map.mp hj
    cases hj
    exact new hm
  case ended =>
    intro before after j l hc
    obtain ⟨rfl, he, _⟩ | ⟨after', hc⟩ := System.cons_of_concat hc
    · cases he
      refine ⟨task, (getElem?_set_iff hi).mpr <| .inl ⟨rfl, rfl⟩, ht.imp_left fun he => he.trans ?_⟩
      rw [← h.state, atomic]
    · have ⟨task₁, hj, ended⟩ := h.ended hc
      have old : (j, l) ∈ w.trace := hc ▸ List.mem_append_right before List.mem_cons_self
      refine ⟨task₁, (getElem?_set_iff hi).mpr <| .inr ⟨?_, hj⟩, ended⟩
      rintro rfl
      exact new old
  case done =>
    intro j l answer hj
    obtain ⟨rfl, he⟩ | ⟨_, hj⟩ := (getElem?_set_iff hi).mp hj
    · cases he
      exact List.mem_append_right _ List.mem_cons_self
    · exact List.mem_append_left _ <| h.done hj
  case running =>
    -- The task which has ended was the only one under way.
    intro j l view body hj
    obtain ⟨rfl, he⟩ | ⟨ne, hj⟩ := (getElem?_set_iff hi).mp hj
    · cases he
      cases stopped
    · exact absurd (h.exclusive hj hi rfl rfl) ne
  case exclusive =>
    intro j j' l l' task₁ task₂ hj hj' hr hr'
    obtain ⟨rfl, he⟩ | ⟨_, old⟩ := (getElem?_set_iff hi).mp hj
    · cases he
      simp [stopped] at hr
    obtain ⟨rfl, he⟩ | ⟨_, old'⟩ := (getElem?_set_iff hi).mp hj'
    · cases he
      simp [stopped] at hr'
    exact h.exclusive old old' hr hr'

theorem call (h : Serial T table w) (k : κ) :
    Serial T table { w with tasks := w.tasks ++ [(k, .waiting)] } where
  state := h.state
  once  := h.once
  ended ht :=
    have ⟨task, hi, ended⟩ := h.ended ht
    ⟨task, (List.getElem?_append_left (List.getElem?_eq_some_iff.mp hi).1).trans hi, ended⟩
  done hi := by
    obtain hi | he := getElem?_concat hi
    · exact h.done hi
    · cases he
  running hi := by
    obtain hi | he := getElem?_concat hi
    · exact h.running hi
    · cases he
  exclusive hi hj hr hr' := by
    obtain hi | he := getElem?_concat hi <;> obtain hj | he' := getElem?_concat hj
    · exact h.exclusive hi hj hr hr'
    · cases he'
      cases hr'
    · cases he
      cases hr
    · cases he
      cases hr

theorem change (h : Serial T table w) (change : Change T w e w') : Serial T table w' := by
  cases change
  case idle             => exact h
  case call             => exact h.call _
  case close hi hb ht _ => exact h.close hi hb ht
  case lock hi free   =>
    refine h.set hi nofun nofun nofun ?_ fun _ => .inr free
    rintro _ _ ⟨⟩
    rfl
  case statement hi   =>
    refine h.set hi nofun nofun nofun ?_ fun _ => .inl rfl
    have rest := h.running hi
    rintro _ _ ⟨⟩
    exact rest
  case abort hi hd hf => exact h.set hi hd hf nofun nofun nofun

-- A call has got the answer of its place in the trace.
theorem answer (h : Serial T table w) {answer : ρ} (hi : w.tasks[i]? = some (k, .done answer)) :
    ∃ before after, w.trace = before ++ (i, k) :: after ∧
      answer = ((T k).atomic (replay T table before)).1 := by
  have ⟨before, after, ht⟩ := List.append_of_mem <| h.done hi
  have ⟨task, hi', ended⟩ := h.ended ht
  cases hi.symm.trans hi'
  obtain ⟨⟨⟩⟩ | ⟨⟨⟩⟩ := ended
  exact ⟨before, after, ht, rfl⟩

end Serial

theorem serial_run (T : κ → Body σ ρ) (table : σ) (es : List (Event κ)) :
    Serial T table ((system T table).run es) :=
  System.exec_induction es .start fun w e h => h.change <| step_change T w e

theorem trace_grow (T : κ → Body σ ρ) (table : σ) (es es' : List (Event κ)) :
    ((system T table).run es).trace <+: ((system T table).run (es ++ es')).trace := by
  rw [System.run_append]
  generalize (system T table).run es = w
  refine System.exec_induction (P := fun w' : Db κ σ ρ => w.trace <+: w'.trace) es' List.prefix_rfl ?_
  intro w' e h
  exact h.trans (step_change T w' e).trace_grow

theorem calls_run (T : κ → Body σ ρ) (table : σ) (es : List (Event κ)) :
    ((system T table).run es).tasks.map (·.1) = es.filterMap Event.called := by
  induction es using List.reverseRecOn
  case nil => rfl
  case append_singleton es e ih =>
    rw [System.run_concat, List.filterMap_append, ← ih]
    refine (step_change T _ e).calls.trans ?_
    cases h : e.called <;> simp [h]

-- The state in which some calls leave the table as single operations.
def after (op : σ → κ → ρ × σ) (table : σ) (trace : List (Nat × κ)) : σ :=
  trace.foldl (fun table call => (op table call.2).2) table

-- The transactions come to single operations: those of the calls whose transactions have ended, one
-- after the other. Whoever has got an answer has got that of this run.
structure Serializes (op : σ → κ → ρ × σ) (table : σ) (calls : List κ) (w : Db κ σ ρ) : Prop where
  state   : w.table = after op table w.trace
  once    : (w.trace.map (·.1)).Nodup
  made    : ∀ call ∈ w.trace, calls[call.1]? = some call.2
  answers : ∀ {i : Nat} {k answer}, w.tasks[i]? = some (k, .done answer) → ∃ before rest,
    w.trace = before ++ (i, k) :: rest ∧ answer = (op (after op table before) k).1

theorem serializes {op : σ → κ → ρ × σ} (h : ∀ k table, (T k).atomic table = op table k) (table : σ)
    (es : List (Event κ)) : Serializes op table (es.filterMap Event.called) ((system T table).run es) := by
  have serial := serial_run T table es
  have replay_eq (trace : List (Nat × κ)) : replay T table trace = after op table trace := by
    simp only [replay, after, h]
  constructor
  case state => exact serial.state.trans <| replay_eq _
  case once  => exact serial.once
  case made  =>
    rintro ⟨i, k⟩ hm
    have ⟨before, rest, ht⟩ := List.append_of_mem hm
    have ⟨task, hi, _⟩ := serial.ended ht
    rw [← calls_run T table, List.getElem?_map, hi]
    rfl
  case answers =>
    intro i k answer hi
    have ⟨before, rest, ht, he⟩ := serial.answer hi
    exact ⟨before, rest, ht, by rw [he, h, replay_eq]⟩

end Db
end Transactions
