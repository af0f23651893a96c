import Pheidippides.Objects.LawfulStore
import Pheidippides.Objects.MockDb

namespace Pheidippides.MockDb

variable {db : MockDb} {username : String} {id : UserId} {info : AuthenticationInfo}

-- What `fetch_authentication` finds in the table.
def authOf (table : List AuthRecord) (userId : UserId) : Option AuthenticationInfo :=
  (table.filterMap fun record =>
    if record.userId = userId then some ⟨record.phcString⟩ else none).head?

@[simp]
theorem authOf_nil : authOf [] id = none :=
  rfl

@[simp]
theorem authOf_cons {record : AuthRecord} {table : List AuthRecord} :
    authOf (record :: table) id =
      if record.userId = id then some ⟨record.phcString⟩ else authOf table id := by
  rw [authOf, List.filterMap_cons]
  split <;> simp_all [authOf]

theorem authOf_replaceAuth (table : List AuthRecord) (id : UserId) (info : AuthenticationInfo) :
    authOf (replaceAuth id info table).2 = Function.update (authOf table) id (some info) := by
  funext id'
  simp only [Function.update_apply]
  induction table
  case nil => simp [replaceAuth, eq_comm]
  case cons record table ih =>
    rw [replaceAuth]
    split
    case isTrue hr  => simp only [authOf_cons, hr, eq_comm (a := id')]; split <;> rfl
    case isFalse hr =>
      simp only [authOf_cons, ih]
      split
      case isTrue h  => rw [if_neg (h ▸ hr)]
      case isFalse h => rfl

-- All that `create_user` can come to.
inductive CreatedUser [Unicode] (db : MockDb) (username : String) (userId : UserId) :
    Except Error (Option UserId) × MockDb → Prop
  | poisoned : db.users.poisoned → CreatedUser db username userId (.error .threadPoisonError, db)
  | taken : db.users.poisoned = false → usernameTaken db.users.value username →
    CreatedUser db username userId (.ok none, db)
  | created : db.users.poisoned = false → usernameTaken db.users.value username = false →
    CreatedUser db username userId (.ok (some userId),
      { db with users := db.users.write (db.users.value ++ [(userId, username)]) })

theorem createUser_spec [Unicode] (db : MockDb) (username : String) (userId : UserId) :
    CreatedUser db username userId (db.createUser username userId) := by
  rw [createUser]
  split
  case h_1 e h =>
    cases e
    exact .poisoned <| Mutex.lock_eq_error_iff.mp h
  case h_2 h =>
    obtain ⟨hp, rfl⟩ := Mutex.lock_eq_ok_iff.mp h
    split
    case isTrue ht  => exact .taken hp ht
    case isFalse ht => exact .created hp <| by simpa using ht

-- All that `update_authentication` can come to.
inductive UpdatedAuthentication (db : MockDb) (userId : UserId) (info : AuthenticationInfo) :
    Except Error (Option AuthenticationInfo) × MockDb → Prop
  | poisoned : db.auth.poisoned →
    UpdatedAuthentication db userId info (.error .threadPoisonError, db)
  | updated {old table} : db.auth.poisoned = false →
    authOf table = Function.update (authOf db.auth.value) userId (some info) →
    UpdatedAuthentication db userId info (.ok old, { db with auth := db.auth.write table })

theorem updateAuthentication_spec (db : MockDb) (userId : UserId) (info : AuthenticationInfo) :
    UpdatedAuthentication db userId info (db.updateAuthentication userId info) := by
  rw [updateAuthentication]
  split
  case h_1 e h =>
    cases e
    exact .poisoned <| Mutex.lock_eq_error_iff.mp h
  case h_2 h =>
    obtain ⟨hp, rfl⟩ := Mutex.lock_eq_ok_iff.mp h
    exact .updated hp <| authOf_replaceAuth db.auth.value userId info

theorem usernameTaken_eq_false_iff [Unicode] {table : List (UserId × String)} :
    usernameTaken table username = false ↔
      ∀ user ∈ table, Unicode.toLowercase user.2 ≠ Unicode.toLowercase username := by
  simp [usernameTaken]

instance [Unicode] : LawfulStore MockDb where
  users db := db.users.value
  auth db  := authOf db.auth.value
  createUser_auth db username id := by
    have spec : CreatedUser db username id (DataAccess.createUser db username id) :=
      db.createUser_spec username id
    generalize DataAccess.createUser db username id = res at spec ⊢
    cases spec <;> rfl
  createUser_none db username id h := by
    have spec : CreatedUser db username id (DataAccess.createUser db username id) :=
      db.createUser_spec username id
    generalize DataAccess.createUser db username id = res at spec h ⊢
    cases spec <;> cases h
    rfl
  createUser_some db username id _ h := by
    have spec : CreatedUser db username id (DataAccess.createUser db username id) :=
      db.createUser_spec username id
    generalize DataAccess.createUser db username id = res at spec h ⊢
    cases spec <;> cases h
    exact ⟨rfl, username, rfl⟩
  createUser_error db username id _ h := by
    have spec : CreatedUser db username id (DataAccess.createUser db username id) :=
      db.createUser_spec username id
    generalize DataAccess.createUser db username id = res at spec h ⊢
    cases spec <;> cases h
    exact .inl rfl
  updateAuthentication_users db id info := by
    have spec : UpdatedAuthentication db id info (AuthStorage.updateAuthentication db id info) :=
      db.updateAuthentication_spec id info
    generalize AuthStorage.updateAuthentication db id info = res at spec ⊢
    cases spec <;> rfl
  updateAuthentication_ok db id info _ h := by
    have spec : UpdatedAuthentication db id info (AuthStorage.updateAuthentication db id info) :=
      db.updateAuthentication_spec id info
    generalize AuthStorage.updateAuthentication db id info = res at spec h ⊢
    cases spec
    case poisoned   => cases h
    case updated ha => exact ⟨info, ha⟩
  updateAuthentication_error db id info _ h := by
    have spec : UpdatedAuthentication db id info (AuthStorage.updateAuthentication db id info) :=
      db.updateAuthentication_spec id info
    generalize AuthStorage.updateAuthentication db id info = res at spec h ⊢
    cases spec <;> cases h
    exact .inl rfl

instance [Unicode] : AtomicStore MockDb where
  eq_of_createUser_error db username id _ h := by
    have spec : CreatedUser db username id (DataAccess.createUser db username id) :=
      db.createUser_spec username id
    generalize DataAccess.createUser db username id = res at spec h ⊢
    cases spec <;> trivial
  eq_of_createUser_none db username id h := by
    have spec : CreatedUser db username id (DataAccess.createUser db username id) :=
      db.createUser_spec username id
    generalize DataAccess.createUser db username id = res at spec h ⊢
    cases spec <;> cases h
    rfl
  users_of_createUser_some db username id _ h := by
    have spec : CreatedUser db username id (DataAccess.createUser db username id) :=
      db.createUser_spec username id
    generalize DataAccess.createUser db username id = res at spec h ⊢
    cases spec <;> cases h
    case created fresh => exact ⟨usernameTaken_eq_false_iff.mp fresh, rfl⟩
  eq_of_updateAuthentication_error db id info _ h := by
    have spec : UpdatedAuthentication db id info (AuthStorage.updateAuthentication db id info) :=
      db.updateAuthentication_spec id info
    generalize AuthStorage.updateAuthentication db id info = res at spec h ⊢
    cases spec <;> trivial
  auth_of_updateAuthentication_ok db id info _ h := by
    have spec : UpdatedAuthentication db id info (AuthStorage.updateAuthentication db id info) :=
      db.updateAuthentication_spec id info
    generalize AuthStorage.updateAuthentication db id info = res at spec h ⊢
    cases spec
    case poisoned   => cases h
    case updated ha => exact ha
  findUserByUsername_ok {db username found} h := by
    have h : db.fetchUsers.map (DataAccess.defaultFindUserByUsername · username) = .ok found := h
    cases hu : db.fetchUsers <;> rw [hu] at h <;> cases h
    exact congrArg (DataAccess.defaultFindUserByUsername · username)
      (Mutex.lock_eq_ok_iff.mp hu).right.symm
  fetchAuthentication_ok {db id found} h := by
    have h : db.fetchAuthentication id = .ok found := h
    rw [fetchAuthentication] at h
    cases ha : db.auth.lock <;> rw [ha] at h <;> cases h
    exact congrArg (authOf · id) (Mutex.lock_eq_ok_iff.mp ha).right.symm

end Pheidippides.MockDb
