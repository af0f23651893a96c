import Pheidippides.Messenger.Accounts
import Pheidippides.Messenger.Theorems.Messenger
import Mathlib.Data.List.Nodup
import Mathlib.Data.List.Perm.Subperm

open Pheidippides.Unicode Pheidippides.Argon2

namespace Pheidippides

namespace Accounts

section

variable {σ ε δ : Type} {w : Accounts σ ε δ} {s : Signup} {store : σ} {waiting inserted : List Signup}

-- A result without an id is of no account.
theorem successes_refused {res : Except (MessengerError ε δ) (Option UserId)}
    (h : ∀ id, res ≠ .ok (some id)) :
    successes ⟨store, waiting, inserted, w.returned ++ [(s, res)]⟩ = w.successes := by
  rw [successes, List.filterMap_append, successes, List.append_right_eq_self]
  match res, h with
  | .error _, _      => rfl
  | .ok none, _      => rfl
  | .ok (some id), h => exact absurd rfl <| h id

theorem successes_done (w : Accounts σ ε δ) (s : Signup) (id : UserId) :
    successes ⟨store, waiting, inserted, w.returned ++ [(s, .ok (some id))]⟩ = w.successes ++ [s] := by
  rw [successes, List.filterMap_append]
  rfl

end

section

variable {σ ε δ : Type} [DataAccess σ ε] [AuthStorage σ δ] [LawfulStore σ] {w : Accounts σ ε δ}
  {s : Signup} {salt : Option String}

@[simp]
theorem regular_insert_iff : w.Regular (.insert s) ↔ s.userId ∉ (LawfulStore.users w.store).map (·.1) := by
  simp [Regular]

@[simp]
theorem regular_authorize : w.Regular (.authorize s salt) := by
  simp [Regular]

end

variable {σ ε δ : Type} [Unicode] [DataAccess σ ε] [AuthStorage σ δ] [Argon2] [AtomicStore σ]
  {w : Accounts σ ε δ} {s : Signup} {salt : Option String} {e : Event σ} {store : σ}

open LawfulStore AtomicStore

-- All that the first half of a call can come to.
inductive Inserted (w : Accounts σ ε δ) (s : Signup) : Accounts σ ε δ → Prop
  | refused {res : Except (MessengerError ε δ) (Option UserId)} : (∀ id, res ≠ .ok (some id)) →
    Inserted w s { w with returned := w.returned ++ [(s, res)] }
  | done {store : σ} : (∀ user ∈ users w.store, toLowercase user.2 ≠ toLowercase s.login) →
    users store = users w.store ++ [(s.userId, s.login)] → auth store = auth w.store →
    Inserted w s { w with store, waiting := w.waiting ++ [s], inserted := w.inserted ++ [s] }

omit [Argon2] in
theorem insert_spec (w : Accounts σ ε δ) (s : Signup) : Inserted w s (w.insert s) := by
  have spec := Messenger.insertUser_spec (δ := δ) w.store s.login s.userId
  rw [insert]
  generalize Messenger.insertUser w.store s.login s.userId = res at spec ⊢
  cases spec
  case refused res _ hr =>
    match res, hr with
    | .error _, hr      => exact .refused hr
    | .ok none, hr      => exact .refused hr
    | .ok (some id), hr => exact absurd rfl <| hr id
  case done _ fresh users auth => exact .done fresh users auth

-- All that the second half of a call can come to.
inductive Authorized (w : Accounts σ ε δ) (s : Signup) (salt : Option String) :
    Accounts σ ε δ → Prop
  | idle : s ∉ w.waiting → Authorized w s salt w
  | failed {e : MessengerError ε δ} : s ∈ w.waiting →
    ¬Messenger.Authorizes w.store s.password s.userId salt → Authorized w s salt
      { w with waiting := w.waiting.erase s, returned := w.returned ++ [(s, .error e)] }
  | done {store : σ} {salt' : String} {info : AuthenticationInfo} : s ∈ w.waiting →
    Messenger.Authorizes w.store s.password s.userId salt →
    hashPassword s.password salt' = some info → users store = users w.store →
    auth store = Function.update (auth w.store) s.userId (some info) → Authorized w s salt
      { w with
        store
        waiting  := w.waiting.erase s
        returned := w.returned ++ [(s, .ok <| some s.userId)] }

theorem authorize_spec (w : Accounts σ ε δ) (s : Signup) (salt : Option String) :
    Authorized w s salt (w.authorize s salt) := by
  have spec := Messenger.authorizeUser_spec (ε := ε) w.store s.login s.password s.userId salt
  rw [authorize]
  split
  case isFalse hs => exact .idle hs
  case isTrue hs =>
    generalize Messenger.authorizeUser w.store s.login s.password s.userId salt = res at spec ⊢
    cases spec
    case failed ha               => exact .failed hs ha
    case done ha hash users auth => exact .done hs ha hash users auth

-- What holds along every run with fresh ids. A call is at most one of waiting and successful, the user
-- table is what has been inserted, and the other table has hashes of the passwords that belong to it.
structure Consistent (w : Accounts σ ε δ) : Prop where
  users   : users w.store = w.inserted.map fun s => (s.userId, s.login)
  ids     : (w.inserted.map (·.userId)).Nodup
  names   : (w.inserted.map (toLowercase ·.login)).Nodup
  started : (w.waiting ++ w.successes).Subperm w.inserted
  hashed  : ∀ {id info}, auth w.store id = some info →
    ∃ s ∈ w.successes, s.userId = id ∧ ∃ salt, hashPassword s.password salt = some info
  stored  : ∀ s ∈ w.successes, ∃ info, auth w.store s.userId = some info
  named   : ∀ {s id}, (s, .ok (some id)) ∈ w.returned → id = s.userId

namespace Consistent

theorem start (hu : LawfulStore.users store = []) (ha : ∀ id, LawfulStore.auth store id = none) :
    (Accounts.start (ε := ε) (δ := δ) store).Consistent where
  users   := hu
  ids     := .nil
  names   := .nil
  started := .refl _
  hashed  := by simp [Accounts.start, ha]
  stored  := by simp [Accounts.start, successes]
  named   := by simp [Accounts.start]

theorem refuse (c : w.Consistent) {res : Except (MessengerError ε δ) (Option UserId)}
    (hr : ∀ id, res ≠ .ok (some id)) {waiting : List Signup} (hw : waiting.Sublist w.waiting) :
    { w with waiting, returned := w.returned ++ [(s, res)] }.Consistent := by
  have same : { w with waiting, returned := w.returned ++ [(s, res)] }.successes = w.successes :=
    successes_refused hr
  constructor
  case users   => exact c.users
  case ids     => exact c.ids
  case names   => exact c.names
  case started => exact same ▸ (hw.append_right _).subperm.trans c.started
  case hashed  => exact same ▸ c.hashed
  case stored  => exact same ▸ c.stored
  case named   =>
    intro s' id h
    obtain h | h := List.mem_append.mp h
    · exact c.named h
    · cases List.mem_singleton.mp h
      exact absurd rfl <| hr id

theorem insert (c : w.Consistent) (fresh : s.userId ∉ (LawfulStore.users w.store).map (·.1)) :
    (w.insert s).Consistent :=
  match w.insert s, w.insert_spec s with
  | _, .refused hr          => c.refuse hr <| .refl _
  | _, .done name users auth => {
    users   := by simp [users, c.users]
    ids     := by
      have hn : s.userId ∉ w.inserted.map (·.userId) := by simpa [c.users] using fresh
      rw [List.map_append, List.nodup_append_comm]
      exact List.nodup_cons.mpr ⟨hn, c.ids⟩
    names   := by
      have hn : toLowercase s.login ∉ w.inserted.map (toLowercase ·.login) := by
        intro h
        have ⟨s', hs, he⟩ := List.mem_map.mp h
        exact name (s'.userId, s'.login) (c.users ▸ List.mem_map_of_mem hs) he
      rw [List.map_append, List.nodup_append_comm]
      exact List.nodup_cons.mpr ⟨hn, c.names⟩
    started := by
      have perm : (w.waiting ++ w.successes ++ [s]).Perm (w.waiting ++ [s] ++ w.successes) := by
        rw [List.append_assoc, List.append_assoc]
        exact List.perm_append_comm.append_left _
      exact perm.subperm_right.mp <| (List.subperm_append_right [s]).mpr c.started
    hashed  := auth ▸ c.hashed
    stored  := auth ▸ c.stored
    named   := c.named }

-- The password of a call is hashed and the hash is stored.
theorem finish (c : w.Consistent) {salt' : String} {info : AuthenticationInfo} (hs : s ∈ w.waiting)
    (hash : hashPassword s.password salt' = some info)
    (users : LawfulStore.users store = LawfulStore.users w.store)
    (auth : LawfulStore.auth store =
      Function.update (LawfulStore.auth w.store) s.userId (some info)) :
    { w with
      store
      waiting  := w.waiting.erase s
      returned := w.returned ++ [(s, Except.ok (some s.userId))] }.Consistent := by
  have successes : { w with
      store
      waiting  := w.waiting.erase s
      returned := w.returned ++ [(s, Except.ok (some s.userId))] }.successes = w.successes ++ [s] :=
    w.successes_done s s.userId
  constructor
  case users   => exact users.trans c.users
  case ids     => exact c.ids
  case names   => exact c.names
  case started =>
    have perm : (w.waiting ++ w.successes).Perm (w.waiting.erase s ++ (w.successes ++ [s])) := by
      refine ((List.perm_cons_erase hs).append_right _).trans ?_
      rw [← List.append_assoc]
      exact (List.perm_append_singleton ..).symm
    exact successes ▸ perm.subperm_right.mp c.started
  case hashed  =>
    intro id info' h
    rw [auth, Function.update_apply] at h
    split at h
    case isTrue he =>
      cases h
      exact ⟨s, successes ▸ by simp, he.symm, salt', hash⟩
    case isFalse =>
      have ⟨s', hs', h⟩ := c.hashed h
      exact ⟨s', successes ▸ List.mem_append_left _ hs', h⟩
  case stored  =>
    intro s' hs'
    rw [successes] at hs'
    simp only [auth, Function.update_apply]
    split
    case isTrue => exact ⟨_, rfl⟩
    case isFalse hn =>
      obtain hs' | hs' := List.mem_append.mp hs'
      · exact c.stored s' hs'
      · exact absurd (congrArg Signup.userId <| List.mem_singleton.mp hs') hn
  case named   =>
    intro s' id h
    obtain h | h := List.mem_append.mp h
    · exact c.named h
    · cases List.mem_singleton.mp h
      rfl

theorem authorize (c : w.Consistent) (s : Signup) (salt : Option String) :
    (w.authorize s salt).Consistent :=
  match w.authorize s salt, w.authorize_spec s salt with
  | _, .idle _                    => c
  | _, .failed _ _                => c.refuse (by simp) List.erase_sublist
  | _, .done hs _ hash users auth => c.finish hs hash users auth

theorem step (c : w.Consistent) (h : w.Regular e) : (w.step e).Consistent :=
  match e with
  | .insert _         => c.insert <| h.left rfl
  | .authorize s salt => c.authorize s salt
  | .other _          =>
    have ⟨users, auth⟩ := h.right rfl
    { c with users := users.trans c.users, hashed := auth ▸ c.hashed, stored := auth ▸ c.stored }

end Consistent

omit [Unicode] [AtomicStore σ] in
-- What the operations of the store keep is kept by a step.
theorem step_store {P : σ → Prop}
    (create : ∀ {store} name id, P store → P (DataAccess.createUser store name id).2)
    (update : ∀ {store} id info, P store → P (AuthStorage.updateAuthentication store id info).2)
    (other : ∀ {store}, e = .other store → P store) (h : P w.store) : P (w.step e).store :=
  match e with
  | .other _  => other rfl
  | .insert s => by
    have store : (w.insert s).store =
        (Messenger.insertUser (ε := ε) (δ := δ) w.store s.login s.userId).2 := by
      rw [insert]
      split <;> simp [*]
    exact store ▸ Messenger.insertUser_store (δ := δ) w.store s.login s.userId ▸
      create s.login s.userId h
  | .authorize s salt => by
    rw [step, authorize]
    split
    case isFalse => exact h
    case isTrue  =>
      change P (Messenger.authorizeUser (ε := ε) w.store s.login s.password s.userId salt).2
      obtain he | ⟨info, he⟩ :=
        Messenger.authorizeUser_store (ε := ε) w.store s.login s.password s.userId salt
      · rwa [he]
      · exact he ▸ update s.userId info h

-- The histories only grow.
theorem step_history (w : Accounts σ ε δ) (e : Event σ) :
    w.inserted <+: (w.step e).inserted ∧ w.returned <+: (w.step e).returned := by
  cases e <;> rw [step]
  case other => exact ⟨List.prefix_rfl, List.prefix_rfl⟩
  case insert s =>
    have h := w.insert_spec s
    generalize w.insert s = w' at h ⊢
    cases h
    case refused => exact ⟨List.prefix_rfl, List.prefix_append ..⟩
    case done    => exact ⟨List.prefix_append .., List.prefix_rfl⟩
  case authorize s salt =>
    have h := w.authorize_spec s salt
    generalize w.authorize s salt = w' at h ⊢
    cases h
    case idle   => exact ⟨List.prefix_rfl, List.prefix_rfl⟩
    case failed => exact ⟨List.prefix_rfl, List.prefix_append ..⟩
    case done   => exact ⟨List.prefix_rfl, List.prefix_append ..⟩

theorem exec_history (w : Accounts σ ε δ) (es : List (Event σ)) :
    w.inserted <+: ((system store).exec w es).inserted ∧
      w.returned <+: ((system store).exec w es).returned :=
  System.exec_induction (S := system store)
    (P := fun w' => w.inserted <+: w'.inserted ∧ w.returned <+: w'.returned) es
    ⟨List.prefix_rfl, List.prefix_rfl⟩ fun w' e ⟨hi, hr⟩ =>
      have ⟨hi', hr'⟩ := w'.step_history e
      ⟨hi.trans hi', hr.trans hr'⟩

namespace Consistent

variable {w₁ w₂ : Accounts σ ε δ} {name password : String} {id : UserId}

theorem findUserByUsername_eq_some_iff (c : w.Consistent) :
    DataAccess.defaultFindUserByUsername (LawfulStore.users w.store) name = some id ↔
      ∃ s ∈ w.inserted, s.userId = id ∧ toLowercase s.login = toLowercase name := by
  let match? (s : Signup) := if toLowercase s.login = toLowercase name then some s.userId else none
  have he : DataAccess.defaultFindUserByUsername (LawfulStore.users w.store) name =
      (w.inserted.filterMap match?).head? := by
    rw [c.users, DataAccess.defaultFindUserByUsername, List.filterMap_map]
    rfl
  have mem {id : UserId} : id ∈ w.inserted.filterMap match? ↔
      ∃ s ∈ w.inserted, s.userId = id ∧ toLowercase s.login = toLowercase name := by
    simp [match?, and_comm]
  rw [he, ← mem]
  refine ⟨List.mem_of_head?, fun h => ?_⟩
  have ⟨id', hid⟩ := Option.isSome_iff_exists.mp <| List.isSome_head?.mpr <| List.ne_nil_of_mem h
  have ⟨s, hs, he, hl⟩ := mem.mp h
  have ⟨s', hs', he', hl'⟩ := mem.mp <| List.mem_of_head? hid
  cases List.inj_on_of_nodup_map c.names hs hs' <| hl.trans hl'.symm
  rw [hid, ← he', he]

-- What is stored for the user of a call verifies exactly its password.
theorem verify_iff [LawfulArgon2] (c : w.Consistent) (hs : s ∈ w.inserted) {info : AuthenticationInfo}
    (h : LawfulStore.auth w.store s.userId = some info) (password : String) :
    verifyPassword info password = true ↔ password = s.password := by
  obtain ⟨s', hs', he, salt, hash⟩ := c.hashed h
  have hs' := c.started.subset <| List.mem_append_right _ hs'
  cases List.inj_on_of_nodup_map c.ids hs' hs he
  exact LawfulArgon2.verifyPassword_iff hash password

-- Of the calls for one name at most one returns an id.
theorem length_successes_le_one (c : w.Consistent) (name : String) :
    (w.successes.filter (toLowercase ·.login = name)).length ≤ 1 := by
  have sub : w.successes.Subperm w.inserted :=
    (List.sublist_append_right ..).subperm.trans c.started
  have once := List.nodup_iff_count_le_one.mp c.names name
  rw [List.count, List.countP_map] at once
  rw [← List.countP_eq_length_filter]
  refine Nat.le_trans (sub.countP_le _) <| Nat.le_trans (Nat.le_of_eq ?_) once
  exact List.countP_congr <| by simp

theorem verifyUser_sound [LawfulArgon2] (c₁ : w₁.Consistent) (c₂ : w₂.Consistent)
    (sub : w₁.inserted <+: w₂.inserted)
    (h : Messenger.verifyUser w₁.store w₂.store name password = .ok (some id)) :
    ∃ s ∈ w₂.inserted, s.userId = id ∧ toLowercase s.login = toLowercase name ∧
      s.password = password := by
  rw [Messenger.verifyUser] at h
  split at h
  case h_1 => cases h
  case h_2 => cases h
  case h_3 userId hf =>
    have hf := (findUserByUsername_ok hf).symm
    obtain ⟨s, hs, rfl, hl⟩ := c₁.findUserByUsername_eq_some_iff.mp hf
    have hs := sub.subset hs
    rw [AuthServiceUsingArgon2.verifyUser] at h
    cases ha : AuthStorage.fetchAuthentication w₂.store s.userId
    case error => simp [ha] at h
    case ok found =>
      cases found
      case none => simp [ha] at h
      case some info =>
        have verified := c₂.verify_iff hs (fetchAuthentication_ok ha).symm password
        simp only [ha] at h
        split at h
        case h_1 => cases h
        case h_2 hv =>
          cases h
          exact ⟨s, hs, rfl, hl, (verified.mp <| by simpa using hv).symm⟩
        case h_3 => cases h

theorem verifyUser_complete [LawfulArgon2] (c₁ : w₁.Consistent) (c₂ : w₂.Consistent)
    (sub : w₁.returned <+: w₂.returned) (hs : s ∈ w₁.successes)
    (hl : toLowercase name = toLowercase s.login) {res : Option UserId}
    (h : Messenger.verifyUser w₁.store w₂.store name password = .ok res) :
    res = if password = s.password then some s.userId else none := by
  have hs₁ : s ∈ w₁.inserted := c₁.started.subset <| List.mem_append_right _ hs
  have hs₂ : s ∈ w₂.successes := (sub.filterMap success).subset hs
  have ⟨info, ha⟩ := c₂.stored s hs₂
  have verified := c₂.verify_iff (c₂.started.subset <| List.mem_append_right _ hs₂) ha password
  have found := c₁.findUserByUsername_eq_some_iff.mpr ⟨s, hs₁, rfl, hl.symm⟩
  cases hf : DataAccess.findUserByUsername w₁.store name
  case error => simp [Messenger.verifyUser, hf] at h
  case ok =>
    cases (findUserByUsername_ok hf).trans found
    cases hf' : AuthStorage.fetchAuthentication w₂.store s.userId
    case error => simp [Messenger.verifyUser, hf, AuthServiceUsingArgon2.verifyUser, hf'] at h
    case ok =>
      cases (fetchAuthentication_ok hf').trans ha
      simp only [Messenger.verifyUser, hf, AuthServiceUsingArgon2.verifyUser, hf'] at h
      split at h <;> cases h
      case h_2 hv => rw [if_pos <| verified.mp <| Except.ok.inj hv]
      case h_3 hv =>
        have hv := Except.ok.inj hv
        rw [if_neg fun he => by simp [verified.mpr he] at hv]

end Consistent
end Accounts
end Pheidippides
