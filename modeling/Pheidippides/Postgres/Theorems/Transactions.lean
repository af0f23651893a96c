import Pheidippides.Postgres.Theorems.Auth
import Pheidippides.Postgres.Theorems.Search
import Pheidippides.Postgres.Theorems.Users
import Pheidippides.Postgres.Transactions
import Pheidippides.Primitives.Scan

open Transactions Pheidippides.Unicode Pheidippides.Postgres

namespace Pheidippides

namespace PostgresUsers

section

variable [Unicode] [SqlLower] {db : PostgresUsers} {username username' : String} {userId userId' : UserId}

-- The statements make up the operation.
theorem atomic_createUserBody (db : PostgresUsers) (username : String) (userId : UserId) :
    (createUserBody (.createUser username userId)).atomic db = db.createUser username userId := by
  rw [Body.atomic, createUserBody, Body.run, createUser, id_eq]
  cases bind (toLowercase username)
  case error => rfl
  case ok lowercase =>
    dsimp only
    split_ifs
    · rfl
    · rw [insertBody, Body.run]
      dsimp only
      cases (varchar 150 username).bind (db.insert userId) <;> rfl

-- The calls as single operations.
def operate (db : PostgresUsers) : Event → Except PgError (Option UserId) × PostgresUsers
  | .createUser username userId => db.createUser username userId

theorem createUser_serializes (es : List (Transactions.Event Event)) :
    Db.Serializes operate empty (es.filterMap Transactions.Event.called)
      ((Db.system createUserBody empty).run es) :=
  Db.serializes (fun ⟨username, userId⟩ db => atomic_createUserBody db username userId) empty es

theorem after_operate (db : PostgresUsers) (trace : List (Nat × Event)) :
    Db.after operate db trace = system.exec db (trace.map (·.2)) := by
  rw [System.exec, List.foldl_map]
  rfl

-- Once a call has taken a name, no later one gets it in any letter case.
theorem createUser_ne_some {id id' : UserId} (created : (db.createUser username userId).1 = .ok (some id))
    (same : toLowercase username' = toLowercase username) (fold : SameFold username)
    (short : username.length ≤ 150) (es : List Event) :
    ((system.exec (db.createUser username userId).2 es).createUser username' userId').1 ≠
      .ok (some id') := by
  intro again
  have ⟨_, stored, admits⟩  := createUser_eq_some_iff.mp created
  have ⟨_, stored', _, new, _⟩ := createUser_eq_some_iff.mp again
  have mem : ⟨username, userId⟩ ∈ (db.createUser username userId).2.users := by
    rw [users_createUser admits, val_of_varchar admits.right.right.left short]
    exact List.mem_append_right _ List.mem_cons_self
  have kept := mem_exec mem es
  rw [same, ← fold.right] at new
  exact new <| List.mem_map.mpr ⟨_, kept, rfl⟩

-- Concurrent calls of `create_user` come to calls one after the other, whether or not they fail. Among
-- those which get an id there are no two with the same name.
theorem createUser_concurrent (es : List (Transactions.Event Event)) :
    let w := (Db.system createUserBody empty).run es
    Db.Serializes operate empty (es.filterMap Transactions.Event.called) w ∧
    (∀ {es₁ es₂}, es = es₁ ++ es₂ → ((Db.system createUserBody empty).run es₁).trace <+: w.trace) ∧
    ∀ {i j : Nat} {username username' userId userId' id id'},
      w.tasks[i]? = some (.createUser username userId, .done (.ok (some id))) →
      w.tasks[j]? = some (.createUser username' userId', .done (.ok (some id'))) →
      toLowercase username = toLowercase username' → SameFold username → SameFold username' →
      username.length ≤ 150 → username'.length ≤ 150 → i = j := by
  intro w
  have serial := createUser_serializes es
  refine ⟨serial, ?_, ?_⟩
  · rintro es₁ es₂ rfl
    exact Db.trace_grow createUserBody empty es₁ es₂
  intro i j username username' userId userId' id id' hi hj same fold fold' short short'
  obtain ⟨before, rest, trace, answer⟩ := serial.answers hi
  obtain ⟨before', rest', trace', answer'⟩ := serial.answers hj
  -- The one which comes later in the trace does not get the name.
  obtain ⟨_, he⟩ | ⟨mid, rfl⟩ | ⟨mid, rfl⟩ := Scan.places <| trace.symm.trans trace'
  · exact congrArg Prod.fst he
  · refine absurd answer'.symm ?_
    rw [after_operate, List.map_append, System.exec_append]
    exact createUser_ne_some (by rw [← after_operate]; exact answer.symm) same.symm fold short _
  · refine absurd answer.symm ?_
    rw [after_operate, List.map_append, System.exec_append]
    exact createUser_ne_some (by rw [← after_operate]; exact answer'.symm) same fold' short' _

end

-- Two calls for the same name. The first one has to wait.
example :
    let _ := asciiUnicode
    let _ := asciiSql
    let w := (Db.system createUserBody empty).run [.call (.createUser "ann" 1),
      .call (.createUser "Ann" 2), .lock 1, .lock 0, .statement 1, .statement 0, .statement 1,
      .finish 1, .lock 0, .statement 0, .finish 0]
    w.trace.map (·.1) = [1, 0] ∧ w.table.users = [⟨"Ann", 2⟩] := by
  decide +kernel

end PostgresUsers

namespace PostgresAuth

variable {db : PostgresAuth} {update : Update} {updates : List Update} {userId : UserId}

theorem lastInfo_concat : lastInfo (updates ++ [update]) =
    Function.update (lastInfo updates) update.userId (some update.info) := by
  funext userId
  rw [lastInfo, List.filter_append, Function.update_apply]
  by_cases he : update.userId = userId
  case pos => simp [he]
  case neg => simp [he, Ne.symm he, lastInfo]

section

variable [PasswordHash]

def operate (db : PostgresAuth) (update : Update) :
    Except Postgres.Error (Option AuthenticationInfo) × PostgresAuth :=
  db.updateAuthentication update.userId update.info

theorem atomic_updateBody (update : Update) (db : PostgresAuth) :
    (updateBody update).atomic db = operate db update := by
  rw [Body.atomic, updateBody, Body.run, operate, updateAuthentication, fetchAuthentication, id_eq]
  cases hf : db.phcStringOf update.userId <;> dsimp only
  case none =>
    rw [writeBody, Body.run]
    dsimp only
    cases (varchar 250 update.info.phcString).bind (db.insert update.userId) <;> rfl
  case some oldPhcString =>
    rcases authInfo oldPhcString with _ | oldAuth
    case error => rfl
    case ok =>
      dsimp only [Except.map]
      rw [writeBody, Body.run]
      rcases varchar 250 update.info.phcString with _ | phcString <;> rfl

-- An info that fits into its column is read as it has been written.
theorem fetchAuthentication_operate (storable : update.Storable)
    (fetched : ∀ userId, db.fetchAuthentication userId = .ok (lastInfo updates userId)) :
    (operate db update).1 = .ok (lastInfo updates update.userId) ∧
      ∀ userId, (operate db update).2.fetchAuthentication userId =
        .ok (lastInfo (updates ++ [update]) userId) := by
  have ⟨phc, text, short⟩ := storable
  have spec := db.updateAuthentication_spec update.userId update.info
  rw [operate]
  generalize db.updateAuthentication update.userId update.info = res at spec ⊢
  cases spec
  case failed h =>
    obtain h | h := h
    · exact absurd (fetched _) <| h _
    · exact absurd (varchar_of_isText text short) <| h ⟨_, text, short⟩
  case updated old phcString db' ho stored hu =>
    refine ⟨ho.symm.trans <| fetched _, fun userId => ?_⟩
    rw [fetchAuthentication, hu, lastInfo_concat, Function.update_apply, Function.update_apply]
    split_ifs with he
    · have val := val_of_varchar stored short
      dsimp only
      rw [authInfo, val, AuthenticationInfo.fromStr_of_isPhc phc]
      rfl
    · exact fetched userId

-- So is the last one of all that have been written.
theorem fetchAuthentication_after {trace : List (Nat × Update)}
    (storable : ∀ call ∈ trace, call.2.Storable) (userId : UserId) :
    (Db.after operate empty trace).fetchAuthentication userId = .ok (lastInfo (trace.map (·.2)) userId) := by
  induction trace using List.reverseRecOn generalizing userId
  case nil => rfl
  case append_singleton trace call ih =>
    rw [Db.after, List.foldl_append, List.map_append]
    refine (fetchAuthentication_operate ?_ ?_).right userId
    · exact storable call <| List.mem_append_right _ List.mem_cons_self
    · exact ih fun call hc => storable call <| List.mem_append_left _ hc

-- Concurrent calls of `update_authentication` come to calls one after the other. Each one that answers
-- gets what the one before it has written for the user, and what is found is what the last one has
-- written, so that no update is lost.
theorem updateAuthentication_concurrent {es : List (Transactions.Event Update)}
    (storable : ∀ update ∈ es.filterMap Transactions.Event.called, update.Storable) :
    let w := (Db.system updateBody empty).run es
    Db.Serializes operate empty (es.filterMap Transactions.Event.called) w ∧
    (∀ {es₁ es₂}, es = es₁ ++ es₂ → ((Db.system updateBody empty).run es₁).trace <+: w.trace) ∧
    (∀ {i : Nat} {update answer}, w.tasks[i]? = some (update, .done answer) → ∃ before rest,
      w.trace = before ++ (i, update) :: rest ∧
        answer = .ok (lastInfo (before.map (·.2)) update.userId)) ∧
    ∀ userId, w.table.fetchAuthentication userId = .ok (lastInfo (w.trace.map (·.2)) userId) := by
  intro w
  have serial : Db.Serializes operate empty (es.filterMap Transactions.Event.called) w :=
    Db.serializes atomic_updateBody empty es
  have storable : ∀ call ∈ w.trace, call.2.Storable := fun call hc =>
    storable call.2 <| List.mem_of_getElem? <| serial.made call hc
  refine ⟨serial, ?_, ?_, fun userId => serial.state ▸ fetchAuthentication_after storable userId⟩
  · rintro es₁ es₂ rfl
    exact Db.trace_grow updateBody empty es₁ es₂
  · intro i update answer hi
    have ⟨before, rest, trace, he⟩ := serial.answers hi
    rw [trace] at storable
    refine ⟨before, rest, trace, he.trans ?_⟩
    refine (fetchAuthentication_operate ?_ <| fetchAuthentication_after ?_).left
    · exact storable (i, update) <| List.mem_append_right _ List.mem_cons_self
    · exact fun call hc => storable call <| List.mem_append_left _ hc

end

-- The first call does not learn that its transaction has been committed.
theorem updateAuthentication_concurrent_example :
    let _ := dollarPhc
    let w := (Db.system updateBody empty).run [
      .call ⟨1, ⟨"$a"⟩⟩, .call ⟨1, ⟨"$b"⟩⟩, .lock 0, .lock 1, .statement 0, .statement 1,
      .statement 0, .lose 0, .lock 1, .statement 1, .statement 1, .finish 1]
    w.trace.map (·.1) = [0, 1] ∧ w.table.fetchAuthentication 1 = .ok (some ⟨"$b"⟩) := by
  intro _ w
  have ⟨_, _, _, found⟩ := @updateAuthentication_concurrent _ [
    .call ⟨1, ⟨"$a"⟩⟩, .call ⟨1, ⟨"$b"⟩⟩, .lock 0, .lock 1, .statement 0, .statement 1,
    .statement 0, .lose 0, .lock 1, .statement 1, .statement 1, .finish 1] fun update hu => by
      obtain rfl | rfl : update = ⟨1, ⟨"$a"⟩⟩ ∨ update = ⟨1, ⟨"$b"⟩⟩ := by
        simpa [Transactions.Event.called] using hu
      all_goals exact ⟨rfl, by decide, by decide⟩
  have last : lastInfo (w.trace.map (·.2)) 1 = some ⟨"$b"⟩ := by decide +kernel
  exact ⟨by decide +kernel, last ▸ found 1⟩

end PostgresAuth
end Pheidippides
