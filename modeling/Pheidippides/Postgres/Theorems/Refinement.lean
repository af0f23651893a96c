import Pheidippides.Objects.Theorems.MockDb
import Pheidippides.Postgres.Refinement
import Pheidippides.Postgres.Theorems.Search
import Pheidippides.Postgres.Theorems.Store

open Pheidippides.Unicode Pheidippides.Postgres

namespace Pheidippides

-- The default implementations over a table.
theorem defaultFetchUser_map (users : List User) (userId : UserId) :
    DataAccess.defaultFetchUser (users.map fun user => (user.id, user.username)) userId =
      (users.find? (·.id == userId)).map fun row => ⟨row.username, userId⟩ := by
  rw [DataAccess.defaultFetchUser, List.head?_filterMap]
  induction users
  case nil => rfl
  case cons user users ih =>
    by_cases he : user.id = userId
    case pos => simp [he]
    case neg => simpa [he] using ih

theorem defaultFindUserByUsername_map [Unicode] [SqlLower] {users : List User}
    (folded : ∀ user ∈ users, PostgresUsers.SameFold user.username) (username : String) :
    DataAccess.defaultFindUserByUsername (users.map fun user => (user.id, user.username)) username =
      (users.find? (lower ·.username == toLowercase username)).map (·.id) := by
  rw [DataAccess.defaultFindUserByUsername, List.head?_filterMap]
  induction users
  case nil => rfl
  case cons user users ih =>
    have ⟨head, tail⟩ := List.forall_mem_cons.mp folded
    by_cases he : toLowercase user.username = toLowercase username
    case pos => simp [he, head.right]
    case neg => simpa [he, head.right] using ih tail

-- What is overwritten is what would have been found.
theorem MockDb.replaceAuth_fst (table : List AuthRecord) (userId : UserId) (info : AuthenticationInfo) :
    (replaceAuth userId info table).1 = authOf table userId := by
  induction table
  case nil => rfl
  case cons record table ih =>
    rw [replaceAuth, authOf_cons]
    split
    · rfl
    · exact ih

namespace PostgresStore

section

variable [PasswordHash] [Unicode] [SqlLower] {db : PostgresStore} {mock : MockDb} {e : Event}

-- The two stores hold the same tables, up to times below a microsecond, and what has been put into them
-- has been plain.
structure Agrees (db : PostgresStore) (mock : MockDb) : Prop where
  users    : mock.users = .new db.users.fetchUsers
  messages : mock.messages.poisoned = false
  rows     : db.messages.messages = mock.messages.value.map Message.row
  auth     : mock.auth.poisoned = false
  infos    : ∀ userId, MockDb.authOf mock.auth.value userId =
    (db.auth.phcStringOf userId).map fun phcString => ⟨phcString.val⟩
  folded   : ∀ user ∈ db.users.users, PostgresUsers.SameFold user.username
  names    : db.users.lowercaseNames.Nodup
  phc      : ∀ {userId phcString}, db.auth.phcStringOf userId = some phcString →
    AuthenticationInfo.IsPhc ⟨phcString.val⟩

namespace Agrees

theorem empty : Agrees .empty .empty where
  users     := rfl
  messages  := rfl
  rows      := rfl
  auth      := rfl
  infos _   := rfl
  folded _  := nofun
  names     := .nil
  phc       := nofun

-- A name is taken in one store if and only if it is in the other one.
theorem usernameTaken_iff (h : Agrees db mock) {username : String} :
    MockDb.usernameTaken mock.users.value username ↔ toLowercase username ∈ db.users.lowercaseNames := by
  have same : db.users.lowercaseNames = db.users.users.map (toLowercase ·.username) :=
    List.map_congr_left fun user hu => (h.folded user hu).right
  rw [h.users, same]
  simp [MockDb.usernameTaken, Mutex.new, PostgresUsers.fetchUsers]

-- A new row on both sides.
theorem addUser (h : Agrees db mock) {db' : PostgresStore} {username : String} {userId : UserId}
    (fold : PostgresUsers.SameFold username) (new : toLowercase username ∉ db.users.lowercaseNames)
    (users : db'.users.users = db.users.users ++ [⟨username, userId⟩]) (auth : db'.auth = db.auth)
    (messages : db'.messages = db.messages) :
    Agrees db' { mock with users := mock.users.write (mock.users.value ++ [(userId, username)]) } where
  users    := by simp [h.users, Mutex.write, Mutex.new, PostgresUsers.fetchUsers, users]
  messages := h.messages
  rows     := messages ▸ h.rows
  auth     := h.auth
  infos    := auth ▸ h.infos
  folded   := by
    rw [users]
    intro user hu
    obtain hu | hu := List.mem_append.mp hu
    · exact h.folded user hu
    · exact List.mem_singleton.mp hu ▸ fold
  names    := by
    rw [← fold.right] at new
    rw [PostgresUsers.lowercaseNames, users, List.map_append, List.nodup_append_comm]
    exact List.nodup_cons.mpr ⟨new, h.names⟩
  phc      := auth ▸ h.phc

theorem createUser (h : Agrees db mock) {username : String} {userId : UserId}
    (plain : db.Plain (.createUser username userId)) :
    db.outcome (.createUser username userId) = mock.outcome (.createUser username userId) ∧
      db.outcome (.createUser username userId) ≠ .failed ∧
      Agrees (db.step (.createUser username userId)) (mock.step (.createUser username userId)) := by
  obtain ⟨fold, text, short, fresh⟩ := plain
  have usable : mock.users.poisoned = false := by rw [h.users]; rfl
  have spec     := db.createUser_spec username userId
  have mockSpec := mock.createUser_spec username userId
  have refused (taken : toLowercase username ∈ db.users.lowercaseNames) :
      (db.createUser username userId).1 = .ok none := by
    change (db.users.createUser username userId).1.mapError _ = _
    unfold PostgresUsers.createUser
    rw [bind_of_isText fold.left]
    dsimp only
    rw [if_pos <| PostgresUsers.rowsNamed_ne_nil_iff.mpr taken]
    rfl
  have stored : varchar 150 username = .ok ⟨username, text, short⟩ := varchar_of_isText text short
  have admits (new : toLowercase username ∉ db.users.lowercaseNames) :
      db.users.Admits username userId ⟨username, text, short⟩ := by
    refine ⟨fold.left, new, stored, fresh, fun hm => new ?_⟩
    obtain ⟨user, hu, he⟩ := List.mem_map.mp hm
    exact List.mem_map.mpr ⟨user, hu, by rw [he]; exact fold.right⟩
  dsimp only [outcome, MockDb.outcome, step, MockDb.step]
  generalize db.createUser username userId = res at spec refused ⊢
  generalize mock.createUser username userId = mockRes at mockSpec ⊢
  cases spec <;> cases mockSpec
  case refused.poisoned hp | created.poisoned hp => simp [usable] at hp
  case refused.taken res _ _ _ ht =>
    obtain rfl : res = .ok none := refused <| h.usernameTaken_iff.mp ht
    exact ⟨rfl, nofun, h⟩
  case refused.created hn _ _ ht =>
    rw [← Bool.not_eq_true, h.usernameTaken_iff] at ht
    exact absurd (admits ht) <| hn _
  case created.taken admits' _ _ _ _ ht =>
    exact absurd (h.usernameTaken_iff.mp ht) admits'.right.left
  case created.created admits' users auth messages _ _ =>
    rw [val_of_varchar admits'.right.right.left short] at users
    exact ⟨rfl, nofun, h.addUser fold admits'.right.left users auth messages⟩

theorem createMessage (h : Agrees db mock) {m : Message} (plain : db.Plain (.createMessage m)) :
    db.outcome (.createMessage m) = mock.outcome (.createMessage m) ∧
      db.outcome (.createMessage m) ≠ .failed ∧
      Agrees (db.step (.createMessage m)) (mock.step (.createMessage m)) := by
  have spec := db.createMessage_spec m
  have created : mock.createMessage m =
      (.ok (), { mock with messages := mock.messages.write (mock.messages.value ++ [m]) }) := by
    have lock : mock.messages.lock = .ok mock.messages.value := Mutex.lock_eq_ok_iff.mpr ⟨h.messages, rfl⟩
    unfold MockDb.createMessage
    rw [lock]
  dsimp only [outcome, MockDb.outcome, step, MockDb.step]
  rw [created]
  generalize db.createMessage m = res at spec ⊢
  cases spec
  case failed hn                   => exact absurd plain hn
  case created messages users auth =>
    refine ⟨rfl, nofun, ?_⟩
    constructor
    case users    => exact users ▸ h.users
    case messages => exact h.messages
    case rows     => simp [messages, h.rows, Mutex.write]
    case auth     => exact h.auth
    case infos    => exact auth ▸ h.infos
    case folded   => exact users ▸ h.folded
    case names    => exact users ▸ h.names
    case phc      => exact auth ▸ h.phc

theorem fetchAuthentication (h : Agrees db mock) (userId : UserId) :
    mock.fetchAuthentication userId = .ok (MockDb.authOf mock.auth.value userId) ∧
      db.fetchAuthentication userId = .ok (MockDb.authOf mock.auth.value userId) := by
  constructor
  · rw [MockDb.fetchAuthentication, Mutex.lock, h.auth]
    rfl
  · rw [PostgresStore.fetchAuthentication, PostgresAuth.fetchAuthentication, h.infos]
    cases hs : db.auth.phcStringOf userId
    case none => rfl
    case some phcString =>
      have phc := AuthenticationInfo.fromStr_of_isPhc <| h.phc hs
      dsimp only
      rw [PostgresAuth.authInfo, phc]
      rfl

theorem updateAuthentication (h : Agrees db mock) {userId : UserId} {info : AuthenticationInfo}
    (plain : db.Plain (.updateAuthentication userId info)) :
    db.outcome (.updateAuthentication userId info) = mock.outcome (.updateAuthentication userId info) ∧
      db.outcome (.updateAuthentication userId info) ≠ .failed ∧
      Agrees (db.step (.updateAuthentication userId info))
        (mock.step (.updateAuthentication userId info)) := by
  obtain ⟨phc, text, short, known⟩ := plain
  have fetched := (h.fetchAuthentication userId).right
  have replaced : mock.updateAuthentication userId info = (.ok (MockDb.authOf mock.auth.value userId),
      { mock with auth := mock.auth.write (MockDb.replaceAuth userId info mock.auth.value).2 }) := by
    unfold MockDb.updateAuthentication Mutex.lock
    rw [h.auth, ← MockDb.replaceAuth_fst _ _ info]
    rfl
  have spec := db.updateAuthentication_spec userId info
  dsimp only [outcome, MockDb.outcome, step, MockDb.step]
  rw [replaced]
  generalize db.updateAuthentication userId info = res at spec ⊢
  cases spec
  case failed hn =>
    obtain hn | hn | hn := hn
    · exact absurd fetched <| hn _
    · exact absurd (varchar_of_isText text short) <| hn ⟨_, text, short⟩
    · exact absurd known hn
  case updated old phcString db' found stored _ written users messages =>
    have val : phcString.val = info.phcString := val_of_varchar stored short
    obtain rfl : old = MockDb.authOf mock.auth.value userId := Except.ok.inj <| found.symm.trans fetched
    refine ⟨rfl, nofun, ?_⟩
    constructor
    case users    => exact users ▸ h.users
    case messages => exact h.messages
    case rows     => exact messages ▸ h.rows
    case auth     => exact h.auth
    case folded   => exact users ▸ h.folded
    case names    => exact users ▸ h.names
    case infos    =>
      intro id
      change MockDb.authOf (MockDb.replaceAuth userId info mock.auth.value).2 id = _
      rw [MockDb.authOf_replaceAuth, written, Function.update_apply, Function.update_apply]
      split_ifs
      · rw [Option.map_some, val]
      · exact h.infos id
    case phc      =>
      intro id phcString' hs
      rw [written, Function.update_apply] at hs
      split_ifs at hs
      · cases hs
        exact val ▸ phc
      · exact h.phc hs

-- One call.
theorem step (h : Agrees db mock) (plain : db.Plain e) :
    db.outcome e = mock.outcome e ∧ db.outcome e ≠ .failed ∧ Agrees (db.step e) (mock.step e) := by
  cases e
  case createUser           => exact h.createUser plain
  case updateAuthentication => exact h.updateAuthentication plain
  case createMessage        => exact h.createMessage plain

theorem exec (h : Agrees db mock) {es : List Event} (plain : system.Along Plain db es) :
    Agrees (system.exec db es) (MockDb.system.exec mock es) := by
  induction es generalizing db mock
  case nil          => exact h
  case cons e es ih => exact ih (h.step plain.left).right.right plain.right

theorem fetchUser (h : Agrees db mock) (userId : UserId) :
    DataAccess.fetchUser mock userId = .ok (db.fetchUser userId) := by
  change mock.fetchUsers.map _ = _
  rw [MockDb.fetchUsers, h.users]
  exact congrArg Except.ok <| defaultFetchUser_map db.users.users userId

-- A user is found by his name in any letter case.
theorem findUserByUsername (h : Agrees db mock) {username : String} (text : IsText (toLowercase username))
    (found : Except PgError (Option UserId)) : db.users.FindUserByUsername username found ↔
      ∃ userId, DataAccess.findUserByUsername mock username = .ok userId ∧ found = .ok userId := by
  have answer : DataAccess.findUserByUsername mock username =
      .ok ((db.users.rowsNamed (toLowercase username)).head?.map (·.id)) := by
    change mock.fetchUsers.map _ = _
    unfold MockDb.fetchUsers PostgresUsers.rowsNamed
    rw [h.users, List.head?_filter]
    exact congrArg Except.ok <| defaultFindUserByUsername_map h.folded username
  unfold PostgresUsers.FindUserByUsername
  rw [bind_of_isText text, answer]
  dsimp only
  cases hr : db.users.rowsNamed (toLowercase username)
  case nil            => simp
  case cons user rest =>
    have ⟨mem, fold⟩ := List.mem_filter.mp <| hr ▸ List.mem_cons_self (a := user) (l := rest)
    have alone := filter_eq_singleton (f := fun user : User => lower user.username) h.names mem
    rw [eq_of_beq fold] at alone
    obtain rfl : rest = [] := (List.cons.inj <| hr.symm.trans alone).right
    simp

end Agrees

-- Runs of calls which fit into the tables are the same in both stores, and are not refused for other
-- reasons than a name that is taken.
theorem refines_mockDb {es : List Event} (plain : system.Along Plain empty es) :
    (∀ {es₁ e es₂}, es = es₁ ++ e :: es₂ →
      (system.run es₁).outcome e = (MockDb.system.run es₁).outcome e ∧
        (system.run es₁).outcome e ≠ .failed) ∧
    ((MockDb.system.run es).messages.poisoned = false ∧
      (system.run es).messages.messages = (MockDb.system.run es).messages.value.map Message.row) ∧
    (∀ userId, DataAccess.fetchUser (MockDb.system.run es) userId = .ok ((system.run es).fetchUser userId)) ∧
    (∀ userId, ∃ info, (MockDb.system.run es).fetchAuthentication userId = .ok info ∧
      (system.run es).fetchAuthentication userId = .ok info) ∧
    ∀ {username}, IsText (toLowercase username) → ∀ found,
      (system.run es).users.FindUserByUsername username found ↔
        ∃ userId, DataAccess.findUserByUsername (MockDb.system.run es) username = .ok userId ∧
          found = .ok userId := by
  have agrees := Agrees.empty.exec plain
  refine ⟨?_, ⟨agrees.messages, agrees.rows⟩, agrees.fetchUser,
    fun userId => ⟨_, agrees.fetchAuthentication userId⟩, agrees.findUserByUsername⟩
  rintro es₁ e es₂ rfl
  have ⟨plain₁, plain₂⟩ := System.Along.append.mp plain
  have step := (Agrees.empty.exec plain₁).step plain₂.left
  exact ⟨step.left, step.right.left⟩

end

-- A name that is taken, and a password which is changed.
theorem refines_mockDb_example :
    let _ := dollarPhc
    let _ := asciiUnicode
    let _ := PostgresUsers.asciiSql
    let es : List Event := [.createUser "Ann" 1, .createUser "ann" 2, .updateAuthentication 1 ⟨"$a"⟩,
      .updateAuthentication 1 ⟨"$b"⟩, .createMessage ⟨10, 1, 1, "note", 0⟩]
    (system.run es).fetchAuthentication 1 = .ok (some ⟨"$b"⟩) ∧
      ∀ found, (system.run es).users.FindUserByUsername "ANN" found ↔ found = .ok (some 1) := by
  intro _ _ _ es
  have plain : system.Along Plain empty es := of_decide_eq_true <| by decide +kernel
  have ⟨_, _, _, infos, found⟩ := refines_mockDb plain
  have info : (MockDb.system.run es).fetchAuthentication 1 = .ok (some ⟨"$b"⟩) := by decide +kernel
  have name : DataAccess.findUserByUsername (MockDb.system.run es) "ANN" = .ok (some 1) := by decide +kernel
  obtain ⟨_, hm, hp⟩ := infos 1
  cases hm.symm.trans info
  refine ⟨hp, fun res => (found (by decide +kernel) res).trans ?_⟩
  rw [name]
  simp

end PostgresStore
end Pheidippides
