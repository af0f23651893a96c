import Pheidippides.Messenger.Messenger

open Pheidippides.Unicode Pheidippides.Argon2

namespace Pheidippides.Messenger

variable {σ ε δ : Type}

theorem insertUser_store [DataAccess σ ε] (store : σ) (login : String) (userId : UserId) :
    (insertUser (ε := ε) (δ := δ) store login userId).2 =
      (DataAccess.createUser store login userId).2 := by
  rw [insertUser]
  split <;> simp [*]

section

variable [AuthStorage σ δ] [Argon2]

-- All that the second half of `create_user` can come to over any store.
inductive SecondHalf (store : σ) (password : String) (userId : UserId) (salt : Option String) :
    Except (MessengerError ε δ) (Option UserId) × σ → Prop
  | unhashed {e : MessengerError ε δ} :
    (∀ salt' info, salt = some salt' → hashPassword password salt' ≠ some info) →
    SecondHalf store password userId salt (.error e, store)
  | failed {salt' : String} {info : AuthenticationInfo} {store' : σ} {e : δ} {e' : MessengerError ε δ} :
    salt = some salt' → hashPassword password salt' = some info →
    AuthStorage.updateAuthentication store userId info = (.error e, store') →
    SecondHalf store password userId salt (.error e', store')
  | done {salt' : String} {info : AuthenticationInfo} {store' : σ} {old : Option AuthenticationInfo} :
    salt = some salt' → hashPassword password salt' = some info →
    AuthStorage.updateAuthentication store userId info = (.ok old, store') →
    SecondHalf store password userId salt (.ok (some userId), store')

theorem authorizeUser_secondHalf (store : σ) (login password : String) (userId : UserId)
    (salt : Option String) :
    SecondHalf (ε := ε) store password userId salt (authorizeUser store login password userId salt) := by
  unfold authorizeUser AuthServiceUsingArgon2.createUser
  cases salt
  case none      => exact .unhashed nofun
  case some salt =>
    dsimp only
    cases hh : hashPassword password salt
    case none      => exact .unhashed fun _ _ hs => by cases hs; simp [hh]
    case some info =>
      dsimp only
      rcases hu : AuthStorage.updateAuthentication store userId info with ⟨e | old, store'⟩
      case error => exact .failed rfl hh hu
      case ok    => exact .done rfl hh hu

theorem authorizes_iff {store : σ} {password salt' : String} {userId : UserId} {salt : Option String}
    {info : AuthenticationInfo} (hs : salt = some salt') (hh : hashPassword password salt' = some info) :
    Authorizes store password userId salt ↔
      ∃ old, (AuthStorage.updateAuthentication store userId info).1 = .ok old := by
  simp [Authorizes, hs, hh]

theorem authorizeUser_store (store : σ) (login password : String) (userId : UserId) (salt : Option String) :
    (authorizeUser (ε := ε) (δ := δ) store login password userId salt).2 = store ∨
      ∃ info, (authorizeUser (ε := ε) (δ := δ) store login password userId salt).2 =
        (AuthStorage.updateAuthentication store userId info).2 := by
  have half := authorizeUser_secondHalf (ε := ε) store login password userId salt
  generalize authorizeUser store login password userId salt = res at half ⊢
  cases half
  case unhashed                => exact .inl rfl
  case failed info _ _ _ _ _ hu => exact .inr ⟨info, by rw [hu]⟩
  case done info _ _ _ _ hu     => exact .inr ⟨info, by rw [hu]⟩

end

variable [Unicode] [DataAccess σ ε] [AuthStorage σ δ] [AtomicStore σ]

open LawfulStore AtomicStore

-- All that the first half of `create_user` can come to.
inductive InsertedUser (store : σ) (login : String) (userId : UserId) :
    Except (MessengerError ε δ) (Option UserId) × σ → Prop
  | refused {res} : (∀ id, (DataAccess.createUser store login userId).1 ≠ .ok (some id)) →
    (∀ id, res ≠ .ok (some id)) → InsertedUser store login userId (res, store)
  | done {store' : σ} : DataAccess.createUser store login userId = (.ok (some userId), store') →
    (∀ user ∈ users store, toLowercase user.2 ≠ toLowercase login) →
    users store' = users store ++ [(userId, login)] → auth store' = auth store →
    InsertedUser store login userId (.ok (some userId), store')

theorem insertUser_spec (store : σ) (login : String) (userId : UserId) :
    InsertedUser (δ := δ) store login userId (insertUser store login userId) := by
  have failed {e} := eq_of_createUser_error store login userId (e := e)
  have none       := eq_of_createUser_none store login userId
  have some {i}   := createUser_some store login userId (i := i)
  have added {i}  := users_of_createUser_some store login userId (i := i)
  have auth       := createUser_auth store login userId
  rw [insertUser]
  match hc : DataAccess.createUser store login userId with
  | (.error e, store') =>
    cases (hc ▸ failed (e := e)) rfl
    exact .refused (by simp [hc]) <| by simp
  | (.ok .none, store') =>
    cases (hc ▸ none) rfl
    exact .refused (by simp [hc]) <| by simp
  | (.ok (.some id), store') =>
    have ⟨fresh, users⟩ := (hc ▸ added (i := id)) rfl
    cases ((hc ▸ some (i := id)) rfl).left
    rw [hc] at auth
    exact .done hc fresh users auth

variable [Argon2]

-- All that the second half can come to.
inductive AuthorizedUser (store : σ) (password : String) (userId : UserId) (salt : Option String) :
    Except (MessengerError ε δ) (Option UserId) × σ → Prop
  | failed {e} : ¬Authorizes store password userId salt →
    AuthorizedUser store password userId salt (.error e, store)
  | done {store' : σ} {salt' info} : Authorizes store password userId salt →
    hashPassword password salt' = some info → users store' = users store →
    auth store' = Function.update (auth store) userId (some info) →
    AuthorizedUser store password userId salt (.ok (some userId), store')

theorem authorizeUser_spec (store : σ) (login password : String) (userId : UserId)
    (salt : Option String) :
    AuthorizedUser (ε := ε) store password userId salt
      (authorizeUser store login password userId salt) := by
  have half := authorizeUser_secondHalf (ε := ε) store login password userId salt
  generalize authorizeUser store login password userId salt = res at half ⊢
  cases half
  case unhashed hn => exact .failed fun ⟨salt', info, _, hs, hh, _⟩ => hn salt' info hs hh
  case failed salt' info store' e _ hs hh hu =>
    have same := eq_of_updateAuthentication_error store userId info (e := e) (by rw [hu])
    rw [hu] at same
    cases same
    exact .failed <| by simp [authorizes_iff hs hh, hu]
  case done salt' info store' old hs hh hu =>
    have auth  := auth_of_updateAuthentication_ok store userId info (o := old) (by rw [hu])
    have users := updateAuthentication_users store userId info
    rw [hu] at auth users
    exact .done ((authorizes_iff hs hh).mpr ⟨old, by rw [hu]⟩) hh users auth

end Pheidippides.Messenger
