import Pheidippides.Postgres.Auth
import Mathlib.Logic.Function.Basic

open Pheidippides.Postgres

namespace Pheidippides.PostgresAuth

variable {db db' : PostgresAuth} {userId id : UserId} {phcString : Varchar 250} {row : AuthRow}
  {info : AuthenticationInfo}

theorem phcStringOf_eq_none_iff : db.phcStringOf userId = none ↔ userId ∉ db.rows.map (·.userId) := by
  simp [phcStringOf]

theorem mem_of_phcStringOf (h : db.phcStringOf userId = some phcString) :
    userId ∈ db.rows.map (·.userId) := by
  by_contra hn
  cases h.symm.trans <| phcStringOf_eq_none_iff.mpr hn

theorem phcStringOf_update (h : userId ∈ db.rows.map (·.userId)) :
    (db.update phcString userId).phcStringOf = Function.update db.phcStringOf userId (some phcString) := by
  funext id
  have found : (db.update phcString userId).phcStringOf id =
      (db.rows.find? (·.userId == id)).map fun row => (row.overwrite phcString userId).phcString := by
    rw [phcStringOf, update, List.find?_map, Option.map_map]
    simp [Function.comp_def]
  rw [found, Function.update_apply]
  cases hf : db.rows.find? fun row => row.userId == id
  case none =>
    have missing : db.phcStringOf id = none := by rw [phcStringOf, hf]; rfl
    rw [if_neg fun he : id = userId => phcStringOf_eq_none_iff.mp (he ▸ missing) h, missing]
    rfl
  case some row =>
    have hid : row.userId = id := by simpa using List.find?_some hf
    split_ifs with he
    · simp [AuthRow.overwrite, hid, he]
    · simp [AuthRow.overwrite, hid, he, phcStringOf, hf]

theorem phcStringOf_insert (h : db.insert userId phcString = .ok db') :
    db'.phcStringOf = Function.update db.phcStringOf userId (some phcString) := by
  rw [insert] at h
  split at h
  case isFalse => cases h
  case isTrue new =>
    cases h
    funext id
    rw [Function.update_apply, phcStringOf, List.find?_append]
    split_ifs with he
    · have none : db.rows.find? (·.userId == userId) = none := by simpa using new
      simp [he, none]
    · simp [phcStringOf, Ne.symm he]

variable [PasswordHash]

-- All that `update_authentication` can come to.
inductive UpdatedAuthentication (db : PostgresAuth) (userId : UserId) (info : AuthenticationInfo) :
    Except Postgres.Error (Option AuthenticationInfo) × PostgresAuth → Prop
  | failed {e : Postgres.Error} :
    (∀ old, db.fetchAuthentication userId ≠ .ok old) ∨
      (∀ phcString, varchar 250 info.phcString ≠ .ok phcString) →
    UpdatedAuthentication db userId info (.error e, db)
  | updated {old : Option AuthenticationInfo} {phcString : Varchar 250} {db' : PostgresAuth} :
    db.fetchAuthentication userId = .ok old → varchar 250 info.phcString = .ok phcString →
    db'.phcStringOf = Function.update db.phcStringOf userId (some phcString) →
    UpdatedAuthentication db userId info (.ok old, db')

theorem updateAuthentication_spec (db : PostgresAuth) (userId : UserId) (info : AuthenticationInfo) :
    UpdatedAuthentication db userId info (db.updateAuthentication userId info) := by
  rw [updateAuthentication]
  cases hf : db.phcStringOf userId <;> dsimp only
  case none =>
    have fetched : db.fetchAuthentication userId = .ok none := by rw [fetchAuthentication, hf]
    rcases hv : varchar 250 info.phcString with _ | phcString
    case error => exact .failed <| .inr fun _ h => by cases hv ▸ h
    case ok =>
      have new := phcStringOf_eq_none_iff.mp hf
      have hi : ∃ db', db.insert userId phcString = .ok db' := by rw [insert, dif_pos new]; exact ⟨_, rfl⟩
      obtain ⟨db', hi⟩ := hi
      rw [show (Except.ok phcString).bind (db.insert userId) = db.insert userId phcString from rfl, hi]
      exact .updated fetched hv <| phcStringOf_insert hi
  case some oldPhcString =>
    have fetched : db.fetchAuthentication userId = (authInfo oldPhcString).map some := by
      rw [fetchAuthentication, hf]
    rcases ho : authInfo oldPhcString with _ | oldAuth
    case error => exact .failed <| .inl fun _ h => by rw [fetched, ho] at h; cases h
    case ok =>
      rcases hv : varchar 250 info.phcString with _ | phcString
      case error => exact .failed <| .inr fun _ h => by cases hv ▸ h
      case ok =>
        exact .updated (fetched.trans <| by rw [ho]; rfl) hv <| phcStringOf_update <| mem_of_phcStringOf hf

-- Whoever has an authentication afterwards has had one before, or has got this one.
theorem userId_of_updateAuthentication {old : Option AuthenticationInfo}
    (h : db.updateAuthentication userId info = (.ok old, db')) (hr : row ∈ db'.rows) :
    row.userId = userId ∨ row.userId ∈ db.rows.map (·.userId) := by
  have spec := h ▸ db.updateAuthentication_spec userId info
  cases spec
  case updated phcStringOf =>
    rw [or_iff_not_imp_left]
    intro ne
    have mem : row.userId ∈ db'.rows.map (·.userId) := List.mem_map_of_mem hr
    rw [← not_not (a := _ ∈ _), ← phcStringOf_eq_none_iff] at mem ⊢
    rwa [phcStringOf, Function.update_of_ne ne] at mem

end Pheidippides.PostgresAuth
