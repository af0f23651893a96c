import Pheidippides.Postgres.Users

open Pheidippides.Unicode

namespace Pheidippides

namespace Postgres

theorem bind_of_isText {s : String} (h : IsText s) : bind s = .ok s :=
  if_pos h

theorem val_of_varchar {n : Nat} {s : String} {v : Varchar n} (h : varchar n s = .ok v)
    (hl : s.length ≤ n) : v.val = s := by
  rw [varchar] at h
  split at h
  case isTrue  => exact congrArg Subtype.val (Except.ok.inj h).symm
  case isFalse => cases h

theorem varchar_of_isText {n : Nat} {s : String} (text : IsText s) (short : s.length ≤ n) :
    varchar n s = .ok ⟨s, text, short⟩ := by
  rw [varchar, dif_pos text, dif_pos short]

end Postgres

theorem filter_eq_singleton {α κ : Type} [BEq κ] [LawfulBEq κ] {f : α → κ} {l : List α} {a : α}
    (nodup : (l.map f).Nodup) (h : a ∈ l) : l.filter (f · == f a) = [a] := by
  induction l
  case nil => cases h
  case cons b l ih =>
    have ⟨hb, nodup⟩ := List.nodup_cons.mp nodup
    cases h
    case head =>
      rw [List.filter_cons_of_pos <| by simp, List.cons_inj_right, List.filter_eq_nil_iff]
      exact fun c hc he => hb <| eq_of_beq he ▸ List.mem_map_of_mem hc
    case tail h =>
      have hn : f b ≠ f a := fun he => hb <| he ▸ List.mem_map_of_mem h
      rw [List.filter_cons_of_neg <| by simpa using hn, ih nodup h]

open Postgres

namespace PostgresUsers

section

variable {db : PostgresUsers} {userId : UserId} {stored : Varchar 150}

-- All that the insertion of a row can come to.
inductive Inserted (db : PostgresUsers) (userId : UserId) (stored : Varchar 150) :
    Except PgError PostgresUsers → Prop
  | taken {e : PgError} : ¬(userId ∉ db.users.map (·.id) ∧ stored.val ∉ db.users.map (·.username)) →
    Inserted db userId stored (.error e)
  | done {db' : PostgresUsers} : userId ∉ db.users.map (·.id) →
    stored.val ∉ db.users.map (·.username) → db'.users = db.users ++ [⟨stored, userId⟩] →
    Inserted db userId stored (.ok db')

theorem insert_spec (db : PostgresUsers) (userId : UserId) (stored : Varchar 150) :
    Inserted db userId stored (db.insert userId stored) := by
  rw [insert]
  split
  case isTrue h  => exact .done h.left h.right rfl
  case isFalse h => exact .taken h

variable [SqlLower]

theorem rowsNamed_ne_nil_iff {lowercase : String} :
    db.rowsNamed lowercase ≠ [] ↔ lowercase ∈ db.lowercaseNames := by
  simp [rowsNamed, lowercaseNames]

end

section

variable [Unicode] [SqlLower] {db : PostgresUsers} {username : String} {userId : UserId}

-- All that a call can come to.
inductive CreatedUser (db : PostgresUsers) (username : String) (userId : UserId) :
    Except PgError (Option UserId) × PostgresUsers → Prop
  | refused {res : Except PgError (Option UserId)} : (∀ stored, ¬db.Admits username userId stored) →
    (∀ id, res ≠ .ok (some id)) → CreatedUser db username userId (res, db)
  | created {stored : Varchar 150} {db' : PostgresUsers} : db.Admits username userId stored →
    db'.users = db.users ++ [⟨stored, userId⟩] →
    CreatedUser db username userId (.ok (some userId), db')

theorem createUser_spec (db : PostgresUsers) (username : String) (userId : UserId) :
    CreatedUser db username userId (db.createUser username userId) := by
  rw [createUser]
  by_cases ht : IsText (toLowercase username)
  case neg =>
    rw [Postgres.bind, if_neg ht]
    exact .refused (fun _ h => ht h.left) nofun
  case pos =>
    rw [bind_of_isText ht]
    dsimp only
    split
    case isTrue hr =>
      exact .refused (fun _ h => h.right.left <| rowsNamed_ne_nil_iff.mp hr) nofun
    case isFalse hr =>
      have hn := rowsNamed_ne_nil_iff.not.mp hr
      rcases hv : varchar 150 username with _ | stored
      case error => exact .refused (fun _ h => by cases hv ▸ h.right.right.left) nofun
      case ok =>
        have spec := db.insert_spec userId stored
        rw [show (Except.ok stored).bind (db.insert userId) = db.insert userId stored from rfl]
        generalize db.insert userId stored = res at spec ⊢
        cases spec
        case taken h =>
          exact .refused (fun _ ⟨_, _, hs, h'⟩ => h <| by cases hv ▸ hs; exact h') nofun
        case done id name users => exact .created ⟨ht, hn, hv, id, name⟩ users

theorem createUser_eq_some_iff {id : UserId} : (db.createUser username userId).1 = .ok (some id) ↔
    id = userId ∧ ∃ stored, db.Admits username userId stored :=
  match db.createUser username userId, db.createUser_spec username userId with
  | _, .refused h hr  => iff_of_false (hr id) fun ⟨_, stored, h'⟩ => h stored h'
  | _, .created h _   => ⟨fun he => by cases he; exact ⟨rfl, _, h⟩, fun he => by rw [he.left]⟩

theorem users_createUser {stored : Varchar 150} (h : db.Admits username userId stored) :
    (db.createUser username userId).2.users = db.users ++ [⟨stored, userId⟩] := by
  have spec := db.createUser_spec username userId
  generalize db.createUser username userId = res at spec ⊢
  cases spec
  case refused hn _ => exact absurd h <| hn _
  case created admits users =>
    cases admits.right.right.left ▸ h.right.right.left
    exact users

-- A row stays as it is.
theorem mem_exec {user : User} (h : user ∈ db.users) (es : List Event) :
    user ∈ (system.exec db es).users := by
  refine System.exec_induction (P := (user ∈ users ·)) es h fun db e h => ?_
  obtain ⟨username, userId⟩ := e
  have spec := db.createUser_spec username userId
  change user ∈ (db.createUser username userId).2.users
  generalize db.createUser username userId = res at spec ⊢
  cases spec
  case refused       => exact h
  case created users => exact users ▸ List.mem_append_left _ h

-- A user whose name both sides fold alike owns it if no other name is folded like that.
theorem owns_of_mem (nodup : db.lowercaseNames.Nodup) (mem : ⟨username, userId⟩ ∈ db.users)
    (fold : lower username = toLowercase username) (text : IsText (toLowercase username)) :
    db.Owns userId username := by
  intro username' h
  have rows : db.rowsNamed (toLowercase username) = [⟨username, userId⟩] := by
    have single := filter_eq_singleton (f := fun user : User => lower user.username) nodup mem
    rw [← fold]
    exact single
  have bound : bind (toLowercase username') = .ok (toLowercase username) := by
    rw [h, bind_of_isText text]
  refine ⟨fun found => ?_, fun id => ?_⟩
  · rw [FindUserByUsername, bound]
    simp [rows]
  · rw [createUser, bound]
    simp [rows]

-- Once it has been added, a name that the two sides do not fold alike is not found.
theorem fold_of_owns {stored : Varchar 150} (h : db.Admits username userId stored)
    (hl : username.length ≤ 150) (owns : (db.createUser username userId).2.Owns userId username) :
    lower username = toLowercase username := by
  have found := ((owns username rfl).left _).mpr rfl
  rw [FindUserByUsername, bind_of_isText h.left] at found
  obtain ⟨_, ⟨⟩⟩ | ⟨user, hu, _⟩ := found
  have ⟨mem, fold⟩ := List.mem_filter.mp hu
  rw [users_createUser h] at mem
  obtain mem | mem := List.mem_append.mp mem
  · exact absurd (eq_of_beq fold ▸ List.mem_map_of_mem mem) h.right.left
  · rw [← eq_of_beq fold, List.mem_singleton.mp mem, val_of_varchar h.right.right.left hl]

-- A call keeps the folded names apart under the two conditions.
theorem nodup_step {e : Event} (nodup : db.lowercaseNames.Nodup) (fold : db.FoldsAlike e)
    (cut : db.CutsApart e) : (db.step e).lowercaseNames.Nodup := by
  obtain ⟨username, userId⟩ := e
  have spec := db.createUser_spec username userId
  change (db.createUser username userId).2.lowercaseNames.Nodup
  generalize db.createUser username userId = res at spec ⊢
  cases spec
  case refused => exact nodup
  case created stored db' admits users =>
    have fresh : lower stored.val ∉ db.lowercaseNames := by
      by_cases hl : username.length ≤ 150
      case pos =>
        rw [val_of_varchar admits.right.right.left hl, fold admits hl]
        exact admits.right.left
      case neg => exact cut admits <| not_le.mp hl
    rw [lowercaseNames, users, List.map_append, List.nodup_append_comm]
    exact List.nodup_cons.mpr ⟨fresh, nodup⟩

theorem nodup_exec {es : List Event} (nodup : db.lowercaseNames.Nodup)
    (h : system.Along (fun db e => db.FoldsAlike e ∧ db.CutsApart e) db es) :
    (system.exec db es).lowercaseNames.Nodup :=
  h.induction nodup fun _ ⟨fold, cut⟩ nodup => nodup_step nodup fold cut

theorem oneNamespace_of_along {es : List Event}
    (h : system.Along (fun db e => db.FoldsAlike e ∧ db.CutsApart e) empty es) : OneNamespace es := by
  rintro es₁ es₂ es₃ username userId rfl hl hc
  have ⟨h, _⟩ := System.Along.append.mp h
  have ⟨_, h'⟩ := System.Along.append.mp h
  have ⟨_, stored, admits⟩ := createUser_eq_some_iff.mp hc
  have fold := h'.left.left admits hl
  refine owns_of_mem (nodup_exec (show empty.lowercaseNames.Nodup from .nil) h) ?_ fold admits.left
  rw [System.run_append, System.exec_cons]
  refine mem_exec ?_ es₂
  change _ ∈ ((system.run es₁).createUser username userId).2.users
  rw [users_createUser admits, val_of_varchar admits.right.right.left hl]
  exact List.mem_append_right _ List.mem_cons_self

-- The usernames are one namespace for as long as no call adds a name which the database and the server
-- fold differently. A name beyond the limit, which is cut, must not come to lie on another one.
theorem oneNamespace {es : List Event} :
    (system.Along (fun db e => db.FoldsAlike e ∧ db.CutsApart e) empty es → OneNamespace es) ∧
      (OneNamespace es → system.Along (fun db e => db.FoldsAlike e) empty es) := by
  refine ⟨oneNamespace_of_along, fun h => System.Along.iff_forall_split.mpr ?_⟩
  rintro es₁ ⟨username, userId⟩ es₃ rfl stored admits hl
  have owns := @h es₁ [] es₃ username userId (by simp) hl <|
    createUser_eq_some_iff.mpr ⟨rfl, stored, admits⟩
  rw [System.run_concat] at owns
  exact fold_of_owns admits hl owns

end

-- The lowercase of Latin letters and of two Greek ones. `to_lowercase` looks at the place of a sigma in
-- its word, while `lower` does not.
def greekLowerChar (c : Char) : Char :=
  if c = 'Α' then 'α' else if c = 'Σ' then 'σ' else c.toLower

def greekCased (c : Char) : Bool :=
  c.isAlpha || c ∈ ['Α', 'α', 'Σ', 'σ', 'ς']

def greekLowercase : Bool → List Char → List Char
  | _, []         => []
  | cased, c :: l =>
    let lowercase := if c = 'Σ' ∧ cased ∧ ¬l.head?.any greekCased then 'ς' else greekLowerChar c
    lowercase :: greekLowercase (greekCased c) l

@[reducible]
def greekUnicode : Unicode where
  toLowercase s := .ofList <| greekLowercase false s.toList

@[reducible]
def greekSql : SqlLower where
  lowerChar := greekLowerChar

-- A name that ends in a sigma is taken and not found, and somebody else gets it.
theorem not_oneNamespace :
    let _ := greekUnicode
    let _ := greekSql
    let db := system.run [.createUser "ΑΣ" 1]
    (empty.createUser "ΑΣ" 1).1 = .ok (some 1) ∧
    (∀ found, db.FindUserByUsername "ΑΣ" found → found = .ok none) ∧
    toLowercase "Ας" = toLowercase "ΑΣ" ∧ (db.createUser "Ας" 2).1 = .ok (some 2) ∧
    ¬OneNamespace [.createUser "ΑΣ" 1] := by
  intro _ _ db
  have created : (empty.createUser "ΑΣ" 1).1 = .ok (some 1) := by decide +kernel
  have rows : db.rowsNamed (toLowercase "ΑΣ") = [] := by decide +kernel
  have bound : bind (toLowercase "ΑΣ") = .ok (toLowercase "ΑΣ") := by decide +kernel
  refine ⟨created, fun found h => ?_, by decide +kernel, by decide +kernel, fun h => ?_⟩
  · rw [FindUserByUsername, bound] at h
    simpa [rows] using h
  · have owns := @h [] [] [] "ΑΣ" 1 rfl (by decide) created
    have found := ((owns "ΑΣ" rfl).left _).mpr rfl
    rw [FindUserByUsername, bound] at found
    simp [db, rows] at found

end PostgresUsers
end Pheidippides
