import Pheidippides.Messenger.Theorems.Accounts
import Pheidippides.Objects.Theorems.MockDb

open Pheidippides.Unicode

namespace Pheidippides

namespace MockDb

-- None of the locks which guard the accounts is poisoned.
def Open (db : MockDb) : Prop :=
  db.users.poisoned = false ∧ db.auth.poisoned = false

namespace Open

variable {db db₁ db₂ : MockDb}

theorem createUser [Unicode] (h : db.Open) (username : String) (id : UserId) :
    (db.createUser username id).2.Open :=
  match db.createUser username id, db.createUser_spec username id with
  | _, .poisoned _  => h
  | _, .taken ..    => h
  | _, .created ..  => h

theorem updateAuthentication (h : db.Open) (id : UserId) (info : AuthenticationInfo) :
    (db.updateAuthentication id info).2.Open :=
  match db.updateAuthentication id info, db.updateAuthentication_spec id info with
  | _, .poisoned _ => h
  | _, .updated .. => h

theorem verifyUser [Unicode] [Argon2] (h₁ : db₁.Open) (h₂ : db₂.Open) (name password : String) :
    ∃ res, Messenger.verifyUser db₁ db₂ name password = .ok res := by
  have find : DataAccess.findUserByUsername db₁ name =
      .ok (DataAccess.defaultFindUserByUsername db₁.users.value name) := by
    change db₁.fetchUsers.map _ = _
    rw [fetchUsers, Mutex.lock_eq_ok_iff.mpr ⟨h₁.left, rfl⟩]
    rfl
  have verify (id : UserId) : ∃ b, AuthServiceUsingArgon2.verifyUser db₂ id password = .ok b := by
    have fetch : AuthStorage.fetchAuthentication db₂ id = .ok (authOf db₂.auth.value id) := by
      change db₂.fetchAuthentication id = _
      rw [fetchAuthentication, Mutex.lock_eq_ok_iff.mpr ⟨h₂.right, rfl⟩]
      rfl
    rw [AuthServiceUsingArgon2.verifyUser, fetch]
    cases authOf db₂.auth.value id
    case none => exact ⟨false, rfl⟩
    case some => exact ⟨_, rfl⟩
  rw [Messenger.verifyUser, find]
  cases DataAccess.defaultFindUserByUsername db₁.users.value name
  case none    => exact ⟨none, rfl⟩
  case some id =>
    obtain ⟨b, hb⟩ := verify id
    dsimp only
    rw [hb]
    cases b
    case false => exact ⟨none, rfl⟩
    case true  => exact ⟨some id, rfl⟩

end Open
end MockDb

namespace Accounts

variable [Unicode] [Argon2]

-- The ids are fresh, and no thread dies in an operation of the store.
def Undisturbed (w : Accounts MockDb MockDb.Error MockDb.Error) (e : Event MockDb) : Prop :=
  w.Regular e ∧ ∀ {db}, e = .other db → db.Open

variable {es es₁ es₂ : List (Event MockDb)}

theorem run_open (h : (system MockDb.empty).Along Undisturbed (start .empty) es) :
    ((system MockDb.empty).run es).store.Open :=
  h.induction (P := fun w => w.store.Open) ⟨rfl, rfl⟩ fun _ h ho =>
    step_store (fun name id h => h.createUser name id) (fun id info h => h.updateAuthentication id info)
      h.right ho

theorem run_consistent (h : (system MockDb.empty).Along Undisturbed (start .empty) es) :
    ((system MockDb.empty).run es).Consistent :=
  h.induction (.start rfl fun _ => rfl) fun _ h c => c.step h.left

-- The lookup of `verify_user` happens after `es₁`, and its check of the password after `es₂`.
theorem credentials [LawfulArgon2]
    (h : (system MockDb.empty).Along Undisturbed (start .empty) (es₁ ++ es₂)) :
    let w₁ := (system MockDb.empty).run es₁
    let w₂ := (system MockDb.empty).run (es₁ ++ es₂)
    ((∀ name, (w₁.successes.filter (toLowercase ·.login = name)).length ≤ 1) ∧
      (w₁.store.users.value.map (toLowercase ·.2)).Nodup ∧ (w₁.store.users.value.map (·.1)).Nodup) ∧
    (∀ {name password id}, Messenger.verifyUser w₁.store w₂.store name password = .ok (some id) →
      (∃ s ∈ w₂.inserted, s.userId = id) ∧ ∀ s ∈ w₂.inserted, s.userId = id →
        toLowercase s.login = toLowercase name ∧ s.password = password) ∧
    ∀ {s id name password}, (s, .ok (some id)) ∈ w₁.returned →
      toLowercase name = toLowercase s.login →
      Messenger.verifyUser w₁.store w₂.store name password =
        .ok (if password = s.password then some id else none) := by
  intro w₁ w₂
  have h₁ := (System.Along.append.mp h).left
  have c₁ : w₁.Consistent := run_consistent h₁
  have c₂ : w₂.Consistent := run_consistent h
  have exec : w₂ = (system MockDb.empty).exec w₁ es₂ := System.run_append ..
  have ⟨inserted, returned⟩ := exec ▸ exec_history w₁ es₂
  have users : w₁.store.users.value = w₁.inserted.map fun s => (s.userId, s.login) := c₁.users
  refine ⟨⟨c₁.length_successes_le_one, ?names, ?ids⟩, ?sound, ?complete⟩
  case names => simpa [users, Function.comp_def] using c₁.names
  case ids   => simpa [users, Function.comp_def] using c₁.ids
  case sound =>
    intro name password id hv
    have ⟨s, hs, hid, login, password⟩ := c₁.verifyUser_sound c₂ inserted hv
    refine ⟨⟨s, hs, hid⟩, fun s' hs' hid' => ?_⟩
    cases List.inj_on_of_nodup_map c₂.ids hs' hs <| hid'.trans hid.symm
    exact ⟨login, password⟩
  case complete =>
    intro s id name password hr hl
    cases c₁.named hr
    have ⟨res, hv⟩ := (run_open h₁).verifyUser (run_open h) name password
    have hs : s ∈ w₁.successes := List.mem_filterMap.mpr ⟨_, hr, rfl⟩
    rw [hv, c₁.verifyUser_complete c₂ returned hs hl hv]

end Accounts

-- Passwords for the examples.
@[reducible]
def clearText : Argon2 where
  hashPassword password _      := some ⟨password⟩
  verifyPassword info password := info.phcString == password

theorem lawful_clearText : @LawfulArgon2 clearText :=
  let _ := clearText
  ⟨fun h p => by
    cases Option.some.inj h
    exact beq_iff_eq.trans eq_comm⟩

namespace Accounts

-- The second call wants the name of the first, which is checked after the second has been refused.
theorem credentials_example :
    let _ := asciiUnicode
    let _ := clearText
    let es₁ : List (Event MockDb) :=
      [.insert ⟨"Ada", "x", 1⟩, .insert ⟨"ADA", "y", 2⟩, .authorize ⟨"Ada", "x", 1⟩ (some "salt")]
    let es₂ : List (Event MockDb) := [.insert ⟨"ada", "y", 3⟩]
    Messenger.verifyUser ((system MockDb.empty).run es₁).store
      ((system MockDb.empty).run (es₁ ++ es₂)).store "aDa" "x" = .ok (some 1) := by
  intro _ _ es₁ es₂
  have _ := lawful_clearText
  have along : (system MockDb.empty).Along Undisturbed (start .empty) (es₁ ++ es₂) := by
    simp only [es₁, es₂, List.cons_append, List.nil_append, System.Along.cons, System.Along.nil,
      Undisturbed, regular_insert_iff, regular_authorize]
    refine ⟨⟨?_, by simp⟩, ⟨?_, by simp⟩, ⟨trivial, by simp⟩, ⟨?_, by simp⟩, trivial⟩
    all_goals decide +kernel
  have returned : (⟨"Ada", "x", 1⟩, .ok (some 1)) ∈ ((system MockDb.empty).run es₁).returned := by
    decide +kernel
  exact (credentials along).right.right returned (by decide +kernel)

end Accounts

end Pheidippides
