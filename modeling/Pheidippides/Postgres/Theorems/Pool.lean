import Pheidippides.Messenger.Theorems.Credentials
import Pheidippides.Messenger.Theorems.Signups
import Pheidippides.Postgres.Pool
import Pheidippides.Postgres.Theorems.Search
import Pheidippides.Postgres.Theorems.Store

open Pheidippides.Postgres

namespace Pheidippides

namespace MockDb

variable {db : MockDb} {login password : String} {userId : UserId} {salt : Option String}

theorem reverts [Unicode] : Messenger.Reverts db login userId := by
  intro e h
  rw [AtomicStore.eq_of_createUser_error db login userId h]

theorem authorizes_iff [Argon2] : Messenger.Authorizes db password userId salt ↔
    (∃ salt' info, salt = some salt' ∧ Argon2.hashPassword password salt' = some info) ∧
      db.auth.poisoned = false := by
  have ok (info : AuthenticationInfo) :
      (∃ old, (AuthStorage.updateAuthentication db userId info).1 = .ok old) ↔
        db.auth.poisoned = false := by
    change (∃ old, (db.updateAuthentication userId info).1 = .ok old) ↔ _
    match db.updateAuthentication userId info, db.updateAuthentication_spec userId info with
    | _, .poisoned h  => simp [h]
    | _, .updated h _ => simp [h]
  simp only [Messenger.Authorizes, exists_and_left, ok]
  grind

-- When a call completes over the in-memory store.
theorem completes_iff [Unicode] [Argon2] : Messenger.Completes db login password userId salt ↔
    db.users.poisoned ∨ usernameTaken db.users.value login ∨
      (∃ salt' info, salt = some salt' ∧ Argon2.hashPassword password salt' = some info) ∧
        db.auth.poisoned = false := by
  have spec : CreatedUser db login userId (DataAccess.createUser db login userId) :=
    db.createUser_spec login userId
  rw [Messenger.Completes]
  generalize DataAccess.createUser db login userId = res at spec ⊢
  cases spec
  case poisoned hp       => simp [hp]
  case taken ht          => simp [ht]
  case created hp ht     => simp [hp, ht, authorizes_iff]

-- When a call which fails leaves no trace in the in-memory store.
theorem leavesNoTrace_iff [Unicode] [Argon2] : Messenger.LeavesNoTrace db login password userId salt ↔
    db.users.poisoned ∨ usernameTaken db.users.value login ∨
      (∃ salt' info, salt = some salt' ∧ Argon2.hashPassword password salt' = some info) ∧
        db.auth.poisoned = false :=
  Messenger.leavesNoTrace_iff.trans <| (and_iff_right reverts).trans completes_iff

end MockDb

namespace PostgresPool

variable {db : PostgresPool} {login password : String} {userId : UserId} {salt : Option String}

section

variable {α : Type} {commits : α → Bool} {res : Except Postgres.Error α} {store : PostgresStore}

-- All that can become of a call.
inductive Transacted (db : PostgresPool) (commits : α → Bool) (res : Except Postgres.Error α)
    (store : PostgresStore) : Except Postgres.Error α × PostgresPool → Prop
  | aborted : db.fault 0 = some .aborted →
    Transacted db commits res store (.error <| .pgError .connectionFailure, ⟨db.store, db.faults.tail⟩)
  | unacknowledged {a : α} : db.fault 0 = some .unacknowledged → res = .ok a → commits a →
    Transacted db commits res store (.error <| .pgError .connectionFailure, ⟨store, db.faults.tail⟩)
  | answered : db.fault 0 ≠ some .aborted → (∀ a, res = .ok a → commits a → db.fault 0 = none) →
    Transacted db commits res store (res, ⟨store, db.faults.tail⟩)

theorem transact_spec (db : PostgresPool) (commits : α → Bool) (res : Except Postgres.Error α)
    (store : PostgresStore) : Transacted db commits res store (db.transact commits res store) := by
  rw [transact]
  split
  case h_1 hf => exact .answered (by simp [hf]) fun _ _ _ => hf
  case h_2 hf => exact .aborted hf
  case h_3 hf =>
    match res with
    | .error e => exact .answered (by simp [hf]) nofun
    | .ok a    =>
      rw [Except.bind]
      split
      case isTrue hc  => exact .unacknowledged hf rfl hc
      case isFalse hc => exact .answered (by simp [hf]) fun _ ha hc' => absurd (by cases ha; exact hc') hc

end

section

variable [Unicode] [SqlLower]

-- All that `create_user` can come to.
inductive CreatedUser (db : PostgresPool) (username : String) (userId : UserId) :
    Except Postgres.Error (Option UserId) × PostgresPool → Prop
  | refused {res : Except Postgres.Error (Option UserId)} :
    db.fault 0 = some .aborted ∨ (∀ stored, ¬db.store.users.Admits username userId stored) →
    (∀ id, res ≠ .ok (some id)) → CreatedUser db username userId (res, ⟨db.store, db.faults.tail⟩)
  | lost {e : Postgres.Error} {stored : Varchar 150} {store : PostgresStore} :
    db.fault 0 = some .unacknowledged → db.store.users.Admits username userId stored →
    store.users.users = db.store.users.users ++ [⟨stored, userId⟩] → store.auth = db.store.auth →
    CreatedUser db username userId (.error e, ⟨store, db.faults.tail⟩)
  | created {stored : Varchar 150} {store : PostgresStore} :
    db.fault 0 = none → db.store.users.Admits username userId stored →
    store.users.users = db.store.users.users ++ [⟨stored, userId⟩] → store.auth = db.store.auth →
    CreatedUser db username userId (.ok (some userId), ⟨store, db.faults.tail⟩)

theorem createUser_spec (db : PostgresPool) (username : String) (userId : UserId) :
    CreatedUser db username userId (db.createUser username userId) := by
  have spec := db.store.createUser_spec username userId
  rw [createUser]
  generalize db.store.createUser username userId = res at spec ⊢
  cases spec
  case refused res admits failed =>
    have spec := db.transact_spec Option.isSome res db.store
    dsimp only
    generalize db.transact Option.isSome res db.store = res' at spec ⊢
    cases spec
    case aborted                => exact .refused (.inr admits) nofun
    case unacknowledged _ _ hr hc =>
      obtain ⟨id, rfl⟩ := Option.isSome_iff_exists.mp hc
      exact absurd hr <| failed id
    case answered               => exact .refused (.inr admits) failed
  case created stored store admits users auth _ =>
    have spec := db.transact_spec Option.isSome (.ok (some userId)) store
    dsimp only
    generalize db.transact Option.isSome (.ok (some userId)) store = res' at spec ⊢
    cases spec
    case aborted hf            => exact .refused (.inl hf) nofun
    case unacknowledged hf _ _ => exact .lost hf admits users auth
    case answered hf           => exact .created (hf _ rfl rfl) admits users auth

end

section

variable [PasswordHash]

-- What `update_authentication` asks of a store to store something.
def Storing (store : PostgresStore) (userId : UserId) (info : AuthenticationInfo) : Prop :=
  (∃ old, store.fetchAuthentication userId = .ok old) ∧
    (∃ phcString, varchar 250 info.phcString = .ok phcString) ∧ userId ∈ store.users.ids

-- All that `update_authentication` can come to.
inductive UpdatedAuthentication (db : PostgresPool) (userId : UserId) (info : AuthenticationInfo) :
    Except Postgres.Error (Option AuthenticationInfo) × PostgresPool → Prop
  | failed {e : Postgres.Error} : db.fault 0 = some .aborted ∨ ¬Storing db.store userId info →
    UpdatedAuthentication db userId info (.error e, ⟨db.store, db.faults.tail⟩)
  | lost {e : Postgres.Error} {phcString : Varchar 250} {store : PostgresStore} :
    db.fault 0 = some .unacknowledged → Storing db.store userId info →
    store.auth.phcStringOf = Function.update db.store.auth.phcStringOf userId (some phcString) →
    store.users = db.store.users → UpdatedAuthentication db userId info (.error e, ⟨store, db.faults.tail⟩)
  | updated {old : Option AuthenticationInfo} {phcString : Varchar 250} {store : PostgresStore} :
    db.fault 0 = none → Storing db.store userId info →
    store.auth.phcStringOf = Function.update db.store.auth.phcStringOf userId (some phcString) →
    store.users = db.store.users → UpdatedAuthentication db userId info (.ok old, ⟨store, db.faults.tail⟩)

theorem updateAuthentication_spec (db : PostgresPool) (userId : UserId) (info : AuthenticationInfo) :
    UpdatedAuthentication db userId info (db.updateAuthentication userId info) := by
  have spec := db.store.updateAuthentication_spec userId info
  rw [updateAuthentication]
  generalize db.store.updateAuthentication userId info = res at spec ⊢
  cases spec
  case failed e h =>
    have failed : ¬Storing db.store userId info := by
      rintro ⟨⟨old, ho⟩, ⟨phcString, hp⟩, known⟩
      obtain h | h | h := h
      · exact h old ho
      · exact h phcString hp
      · exact h known
    have spec := db.transact_spec (fun _ => true) (.error e) db.store (α := Option AuthenticationInfo)
    dsimp only
    generalize db.transact (fun _ => true) (.error e) db.store = res' at spec ⊢
    cases spec
    case aborted                => exact .failed <| .inr failed
    case unacknowledged _ _ h _ => cases h
    case answered               => exact .failed <| .inr failed
  case updated old phcString store fetched stored known auth users _ =>
    have storing : Storing db.store userId info := ⟨⟨old, fetched⟩, ⟨phcString, stored⟩, known⟩
    have spec := db.transact_spec (fun _ => true) (.ok old) store
    dsimp only
    generalize db.transact (fun _ => true) (.ok old) store = res' at spec ⊢
    cases spec
    case aborted hf            => exact .failed <| .inl hf
    case unacknowledged hf _ _ => exact .lost hf storing auth users
    case answered hf           => exact .updated (hf _ rfl rfl) storing auth users

end

-- What is stored as an authentication. It may be the beginning of a longer string.
def authOf (db : PostgresPool) : UserId → Option AuthenticationInfo :=
  Option.map (fun phcString : Varchar 250 => ⟨phcString.val⟩) ∘ db.store.auth.phcStringOf

theorem authOf_update {store : PostgresStore} {faults : List (Option Fault)} {phcString : Varchar 250}
    (h : store.auth.phcStringOf = Function.update db.store.auth.phcStringOf userId (some phcString)) :
    authOf ⟨store, faults⟩ = Function.update db.authOf userId (some ⟨phcString.val⟩) := by
  rw [authOf, authOf, h, Function.comp_update]
  rfl

theorem fetchUsers_of_append {store : PostgresStore} {stored : Varchar 150}
    (h : store.users.users = db.store.users.users ++ [⟨stored, userId⟩]) :
    store.users.fetchUsers = db.store.users.fetchUsers ++ [(userId, stored.val)] := by
  rw [PostgresUsers.fetchUsers, h, List.map_append]
  rfl

section

variable [Unicode] [SqlLower] [PasswordHash]

-- The id of a new row has no authentication yet, whose table refers to that of the users.
theorem storing_iff {store : PostgresStore} {stored : Varchar 150} {info : AuthenticationInfo}
    (admits : db.store.users.Admits login userId stored)
    (users : store.users.users = db.store.users.users ++ [⟨stored, userId⟩])
    (auth : store.auth = db.store.auth) :
    Storing store userId info ↔ ∃ phcString, varchar 250 info.phcString = .ok phcString := by
  have fetched : store.fetchAuthentication userId = .ok none := by
    have missing : db.store.auth.phcStringOf userId = none :=
      PostgresAuth.phcStringOf_eq_none_iff.mpr fun h => by
        obtain ⟨row, hr, he⟩ := List.mem_map.mp h
        exact admits.right.right.right.left <| he ▸ db.store.authUserIdFkey row hr
    rw [PostgresStore.fetchAuthentication, auth, PostgresAuth.fetchAuthentication, missing]
  have known : userId ∈ store.users.ids := by simp [PostgresUsers.ids, users]
  simp [Storing, fetched, known]

omit [Unicode] [SqlLower] in
theorem updateAuthentication_eq_ok_iff {info : AuthenticationInfo} :
    (∃ old, (db.updateAuthentication userId info).1 = .ok old) ↔
      db.fault 0 = none ∧ Storing db.store userId info := by
  have spec := db.updateAuthentication_spec userId info
  generalize db.updateAuthentication userId info = res at spec ⊢
  cases spec
  case failed h          => simpa using fun hf hs => h.elim (fun ha => by cases hf ▸ ha) (· hs)
  case lost hf _ _ _     => simp [hf]
  case updated hf hs _ _  => simp [hf, hs]

variable [Queries]

instance : LawfulStore PostgresPool where
  users db := db.store.users.fetchUsers
  auth     := authOf
  createUser_auth db username id := by
    have spec : CreatedUser db username id (DataAccess.createUser db username id) :=
      db.createUser_spec username id
    generalize DataAccess.createUser db username id = res at spec ⊢
    cases spec <;> simp_all [authOf]
  createUser_none db username id h := by
    have spec : CreatedUser db username id (DataAccess.createUser db username id) :=
      db.createUser_spec username id
    generalize DataAccess.createUser db username id = res at spec h ⊢
    cases spec <;> cases h
    rfl
  createUser_some db username id i h := by
    have spec : CreatedUser db username id (DataAccess.createUser db username id) :=
      db.createUser_spec username id
    generalize DataAccess.createUser db username id = res at spec h ⊢
    cases spec
    case refused failed => exact absurd h <| failed i
    case lost           => cases h
    case created stored _ _ _ users _ =>
      cases h
      exact ⟨rfl, stored, fetchUsers_of_append users⟩
  createUser_error db username id _ h := by
    have spec : CreatedUser db username id (DataAccess.createUser db username id) :=
      db.createUser_spec username id
    generalize DataAccess.createUser db username id = res at spec h ⊢
    cases spec
    case refused                   => exact .inl rfl
    case lost stored _ _ _ users _ => exact .inr ⟨stored, fetchUsers_of_append users⟩
    case created                   => cases h
  updateAuthentication_users db id info := by
    have spec : UpdatedAuthentication db id info (AuthStorage.updateAuthentication db id info) :=
      db.updateAuthentication_spec id info
    generalize AuthStorage.updateAuthentication db id info = res at spec ⊢
    cases spec <;> simp_all
  updateAuthentication_ok db id info _ h := by
    have spec : UpdatedAuthentication db id info (AuthStorage.updateAuthentication db id info) :=
      db.updateAuthentication_spec id info
    generalize AuthStorage.updateAuthentication db id info = res at spec h ⊢
    cases spec
    case failed         => cases h
    case lost           => cases h
    case updated auth _ => exact ⟨_, authOf_update auth⟩
  updateAuthentication_error db id info _ h := by
    have spec : UpdatedAuthentication db id info (AuthStorage.updateAuthentication db id info) :=
      db.updateAuthentication_spec id info
    generalize AuthStorage.updateAuthentication db id info = res at spec h ⊢
    cases spec
    case failed      => exact .inl rfl
    case lost auth _ => exact .inr ⟨_, authOf_update auth⟩
    case updated     => cases h

-- When a call which fails leaves no trace in Postgres.
theorem leavesNoTrace_iff [Argon2] : Messenger.LeavesNoTrace db login password userId salt ↔
    db.fault 0 = some .aborted ∨ (∀ stored, ¬db.store.users.Admits login userId stored) ∨
      db.fault 0 = none ∧ db.fault 1 = none ∧ ∃ salt' info, salt = some salt' ∧
        Argon2.hashPassword password salt' = some info ∧
          ∃ phcString, varchar 250 info.phcString = .ok phcString := by
  have spec : CreatedUser db login userId (DataAccess.createUser db login userId) :=
    db.createUser_spec login userId
  rw [Messenger.leavesNoTrace_iff, Messenger.Reverts, Messenger.Completes]
  generalize DataAccess.createUser db login userId = res at spec ⊢
  cases spec
  case refused h failed =>
    refine iff_of_true ⟨fun _ _ => rfl, fun h => absurd h <| failed _⟩ <| h.imp_right .inl
  case lost stored store hf admits users auth =>
    refine iff_of_false (fun h => ?_) ?_
    · simpa [LawfulStore.users, fetchUsers_of_append users] using h.left _ rfl
    · rintro (h | h | h)
      · cases hf ▸ h
      · exact h stored admits
      · cases hf ▸ h.left
  case created stored store hf admits users auth =>
    have ok (info : AuthenticationInfo) :
        (∃ old, (AuthStorage.updateAuthentication (⟨store, db.faults.tail⟩ : PostgresPool) userId info).1 =
          .ok old) ↔ db.fault 1 = none ∧ ∃ phcString, varchar 250 info.phcString = .ok phcString := by
      refine updateAuthentication_eq_ok_iff.trans ?_
      rw [storing_iff admits users auth]
      simp [fault]
    have admitted : ¬∀ stored, ¬db.store.users.Admits login userId stored := fun h => h stored admits
    simp only [Messenger.Authorizes, hf, admitted, exists_and_left, ok]
    grind

end

end PostgresPool

namespace Accounts

section

variable {σ ε δ : Type} [Unicode] [DataAccess σ ε] [AuthStorage σ δ] [Argon2] [LawfulStore σ]

open LawfulStore

-- A single call leaves no trace when it fails if and only if a failed insertion has not inserted anything
-- and nothing fails behind one. Calls which run concurrently leave no user without an authentication if
-- and only if the one holds for all first halves, and all second halves store an authentication. Then,
-- what the first condition is for each of the two stores.
theorem failedSignup_iff :
    (∀ {store : σ} {login password userId salt}, Messenger.LeavesNoTrace store login password userId salt ↔
      Messenger.Reverts store login userId ∧ Messenger.Completes store login password userId salt) ∧
    (∀ {store : σ} {es}, users store = [] → (∀ id, auth store id = none) →
      (system (ε := ε) (δ := δ) store).Along Regular (start store) es →
      ((system (ε := ε) (δ := δ) store).run es).waiting = [] →
      let w := (system (ε := ε) (δ := δ) store).run es
      (∀ user ∈ users w.store, ∃ info, auth w.store user.1 = some info) ↔
        (system (ε := ε) (δ := δ) store).Along Completing (start store) es) ∧
    (∀ {db : MockDb} {login password userId salt}, Messenger.LeavesNoTrace db login password userId salt ↔
      db.users.poisoned ∨ MockDb.usernameTaken db.users.value login ∨
        (∃ salt' info, salt = some salt' ∧ Argon2.hashPassword password salt' = some info) ∧
          db.auth.poisoned = false) ∧
    ∀ [SqlLower] [PasswordHash] [PostgresPool.Queries] {db : PostgresPool} {login password userId salt},
      Messenger.LeavesNoTrace db login password userId salt ↔
        db.fault 0 = some .aborted ∨ (∀ stored, ¬db.store.users.Admits login userId stored) ∨
          db.fault 0 = none ∧ db.fault 1 = none ∧ ∃ salt' info, salt = some salt' ∧
            Argon2.hashPassword password salt' = some info ∧
              ∃ phcString, varchar 250 info.phcString = .ok phcString := by
  refine ⟨Messenger.leavesNoTrace_iff, ?run, MockDb.leavesNoTrace_iff, PostgresPool.leavesNoTrace_iff⟩
  intro store es hu ha h hw w
  rw [← covered_iff hu ha h, Covered]
  simp only [w, hw, List.map_nil, List.not_mem_nil, imp_false, ← Option.ne_none_iff_exists', ne_eq]

end

-- One call for a name, which completes.
theorem failedSignup_iff_example :
    let _ := asciiUnicode
    let _ := clearText
    let es : List (Event MockDb) := [.insert ⟨"Ada", "x", 1⟩, .authorize ⟨"Ada", "x", 1⟩ (some "salt")]
    ∀ user ∈ LawfulStore.users ((system MockDb.empty).run es).store,
      ∃ info, LawfulStore.auth ((system MockDb.empty).run es).store user.1 = some info := by
  intro _ _ es
  have regular : (system MockDb.empty).Along Regular (start .empty) es := by
    simp only [es, System.Along.cons, System.Along.nil, regular_insert_iff, regular_authorize]
    exact ⟨by decide +kernel, trivial, trivial⟩
  refine (failedSignup_iff.right.left rfl (fun _ => rfl) regular (by decide +kernel)).mpr ?_
  refine ⟨MockDb.reverts, fun _ => ⟨"salt", _, rfl, rfl, ?_⟩, trivial⟩
  decide +kernel

-- The password is not hashed or its hash is not stored, and the user stays and keeps the name. Postgres
-- commits the user, and the call does not hear of it.
theorem not_leavesNoTrace :
    let _ := asciiUnicode
    let _ := clearText
    let broken : MockDb := { MockDb.empty with auth := ⟨[], true⟩ }
    let unhashed := Messenger.createUser MockDb.empty "ada" "x" 1 none
    let unstored := Messenger.createUser broken "ada" "x" 1 (some "salt")
    (unhashed = (.error <| .couldntCreateAuthorization "ada" .passwordHashGenerationThreadFailed,
        { MockDb.empty with users := .new [(1, "ada")] }) ∧
      unstored = (.error <| .couldntCreateAuthorization "ada" <|
          .couldntUpdateAuthentication 1 .threadPoisonError,
        { broken with users := .new [(1, "ada")] })) ∧
    (Messenger.createUser unhashed.2 "ada" "x" 2 (some "salt")).1 = .ok none ∧
    ¬Messenger.LeavesNoTrace MockDb.empty "ada" "x" 1 none ∧
    ¬Messenger.LeavesNoTrace broken "ada" "x" 1 (some "salt") ∧
    let _ := PostgresUsers.asciiSql
    let _ := dollarPhc
    ∀ [PostgresPool.Queries], ¬Messenger.LeavesNoTrace
      (⟨.empty, [some .unacknowledged]⟩ : PostgresPool) "ada" "x" 1 (some "salt") := by
  intro _ _ broken unhashed unstored
  refine ⟨⟨by decide +kernel, by decide +kernel⟩, by decide +kernel, fun h => ?_, fun h => ?_, ?_⟩
  case refine_1 =>
    obtain hp | ht | ⟨⟨_, _, ⟨⟩, _⟩, _⟩ := MockDb.leavesNoTrace_iff.mp h
    · cases hp
    · cases ht
  case refine_2 =>
    obtain hp | ht | ⟨_, ⟨⟩⟩ := MockDb.leavesNoTrace_iff.mp h
    · cases hp
    · cases ht
  case refine_3 =>
    intro _ _ _ h
    obtain hf | ha | ⟨hf, _⟩ := PostgresPool.leavesNoTrace_iff.mp h
    · cases hf
    · exact ha ⟨"ada", by decide +kernel⟩
        ⟨by decide +kernel, by decide +kernel, by decide +kernel, by decide +kernel, by decide +kernel⟩
    · cases hf

end Accounts
end Pheidippides
