import Pheidippides.Messenger.Theorems.Accounts

namespace Pheidippides

namespace Messenger

variable {σ ε δ : Type} [DataAccess σ ε] [AuthStorage σ δ] [Argon2] [LawfulStore σ] {store : σ}
  {login password : String} {userId : UserId} {salt : Option String}

open LawfulStore Argon2

omit [DataAccess σ ε] [LawfulStore σ] in
theorem authorizeUser_eq_error_iff :
    (∃ e, (authorizeUser (ε := ε) store login password userId salt).1 = .error e) ↔
      ¬Authorizes store password userId salt := by
  have half := authorizeUser_secondHalf (ε := ε) store login password userId salt
  generalize authorizeUser store login password userId salt = res at half ⊢
  cases half
  case unhashed hn     => simpa using fun ⟨salt', info, _, hs, hh, _⟩ => hn salt' info hs hh
  case failed hs hh hu => simp [authorizes_iff hs hh, hu]
  case done hs hh hu   => simp [authorizes_iff hs hh, hu]

theorem users_authorizeUser (store : σ) (login password : String) (userId : UserId) (salt : Option String) :
    users (authorizeUser (ε := ε) store login password userId salt).2 = users store := by
  obtain he | ⟨info, he⟩ := authorizeUser_store (ε := ε) store login password userId salt
  · rw [he]
  · rw [he, updateAuthentication_users]

-- There is nothing that takes the inserted user back when the second half fails, or when the answer to
-- the insertion gets lost.
theorem leavesNoTrace_iff : LeavesNoTrace store login password userId salt ↔
    Reverts store login userId ∧ Completes store login password userId salt := by
  have some {i} := createUser_some store login userId (i := i)
  have auth     := createUser_auth store login userId
  unfold LeavesNoTrace createUser insertUser Reverts Completes
  match hc : DataAccess.createUser store login userId with
  | (.error e, store')         =>
    rw [hc] at auth
    simp [auth]
  | (.ok none, store')         => simp
  | (.ok (.some id), store') =>
    obtain ⟨rfl, stored, users⟩ := (hc ▸ some (i := id)) rfl
    have failed : (∃ e, (authorizeUser (ε := ε) store' login password id salt).1 = .error e) ↔
        ¬Authorizes store' password id salt :=
      authorizeUser_eq_error_iff
    dsimp only
    constructor
    case mp =>
      intro h
      refine ⟨nofun, fun _ => by_contra fun ha => ?_⟩
      have ⟨_, he⟩ := failed.mpr ha
      simpa [users_authorizeUser, users] using (h he).left
    case mpr =>
      rintro ⟨_, h⟩ _ he
      exact absurd (h rfl) <| failed.mp ⟨_, he⟩

theorem authenticates_iff {salt' : String} {info : AuthenticationInfo}
    (hs : salt = some salt') (hh : hashPassword password salt' = some info) :
    Authenticates store password userId salt ↔
      auth (AuthStorage.updateAuthentication store userId info).2 userId ≠ none := by
  simp [Authenticates, hs, hh]

-- What the second half does to somebody who has no authentication.
theorem auth_authorizeUser (login password : String) (salt : Option String) (h : auth store userId = none) :
    (¬Authenticates store password userId salt ∧
      auth (authorizeUser (ε := ε) store login password userId salt).2 = auth store) ∨
    (Authenticates store password userId salt ∧ ∃ info,
      auth (authorizeUser (ε := ε) store login password userId salt).2 =
        Function.update (auth store) userId (some info)) := by
  have half := authorizeUser_secondHalf (ε := ε) store login password userId salt
  generalize authorizeUser store login password userId salt = res at half ⊢
  cases half
  case unhashed hn => exact .inl ⟨fun ⟨salt', info, hs, hh, _⟩ => hn salt' info hs hh, rfl⟩
  case failed info store' e _ hs hh hu =>
    have written := updateAuthentication_error store userId info (e := e) (by rw [hu])
    rw [hu] at written
    obtain same | ⟨stored, auth⟩ := written
    · exact .inl ⟨by simp [authenticates_iff hs hh, hu, same, h], same⟩
    · exact .inr ⟨by simp [authenticates_iff hs hh, hu, auth], stored, auth⟩
  case done info store' old hs hh hu =>
    have written := updateAuthentication_ok store userId info (o := old) (by rw [hu])
    rw [hu] at written
    have ⟨stored, auth⟩ := written
    exact .inr ⟨by simp [authenticates_iff hs hh, hu, auth], stored, auth⟩

end Messenger

namespace Accounts

variable {σ ε δ : Type} [DataAccess σ ε] [AuthStorage σ δ] [LawfulStore σ] {w : Accounts σ ε δ}
  {s : Signup} {e : Event σ} {store : σ}

open LawfulStore

-- All that the first half of a call can come to, if it may lose its answer.
inductive FirstHalf (w : Accounts σ ε δ) (s : Signup) : Accounts σ ε δ → Prop
  | refused {w' : Accounts σ ε δ} : Messenger.Reverts w.store s.login s.userId → w'.waiting = w.waiting →
    users w'.store = users w.store → auth w'.store = auth w.store → FirstHalf w s w'
  | lost {w' : Accounts σ ε δ} {stored : String} : ¬Messenger.Reverts w.store s.login s.userId →
    w'.waiting = w.waiting → users w'.store = users w.store ++ [(s.userId, stored)] →
    auth w'.store = auth w.store → FirstHalf w s w'
  | done {w' : Accounts σ ε δ} {stored : String} : Messenger.Reverts w.store s.login s.userId →
    w'.waiting = w.waiting ++ [s] → users w'.store = users w.store ++ [(s.userId, stored)] →
    auth w'.store = auth w.store → FirstHalf w s w'

theorem insert_firstHalf (w : Accounts σ ε δ) (s : Signup) : FirstHalf w s (w.insert s) := by
  have failed {e} := createUser_error w.store s.login s.userId (e := e)
  have none       := createUser_none w.store s.login s.userId
  have some {i}   := createUser_some w.store s.login s.userId (i := i)
  have auth       := createUser_auth w.store s.login s.userId
  have reverts : Messenger.Reverts w.store s.login s.userId ↔ ∀ e, _ → _ := .rfl
  unfold insert Messenger.insertUser
  match hc : DataAccess.createUser w.store s.login s.userId with
  | (.error e, store')       =>
    rw [hc] at auth reverts
    obtain same | ⟨stored, users⟩ := (hc ▸ failed (e := e)) rfl
    · exact .refused (reverts.mpr fun _ _ => same) rfl same auth
    · refine .lost (fun h => ?_) rfl users auth
      simpa [users] using reverts.mp h e rfl
  | (.ok .none, store')      =>
    rw [hc] at auth reverts
    exact .refused (reverts.mpr nofun) rfl ((hc ▸ none) rfl) auth
  | (.ok (.some id), store') =>
    rw [hc] at auth reverts
    obtain ⟨rfl, stored, users⟩ := (hc ▸ some (i := id)) rfl
    exact .done (reverts.mpr nofun) rfl users auth

-- Whoever waits is a user without an authentication, and only users have one.
structure Pending (w : Accounts σ ε δ) : Prop where
  ids     : (w.waiting.map (·.userId)).Nodup
  waiting : ∀ s ∈ w.waiting, s.userId ∈ (users w.store).map (·.1) ∧ auth w.store s.userId = none
  unknown : ∀ {id}, id ∉ (users w.store).map (·.1) → auth w.store id = none

-- Each user has an authentication or will be given one.
def Covered (w : Accounts σ ε δ) : Prop :=
  ∀ user ∈ users w.store, auth w.store user.1 = none → user.1 ∈ w.waiting.map (·.userId)

namespace Pending

theorem start (ha : ∀ id, auth store id = none) : (start (ε := ε) (δ := δ) store).Pending where
  ids       := .nil
  waiting   := nofun
  unknown _ := ha _

theorem congr (w' : Accounts σ ε δ) (p : w.Pending) (waiting : w'.waiting = w.waiting)
    (users : LawfulStore.users w'.store = LawfulStore.users w.store)
    (auth : LawfulStore.auth w'.store = LawfulStore.auth w.store) :
    w'.Pending ∧ (w'.Covered ↔ w.Covered) := by
  refine ⟨⟨waiting ▸ p.ids, ?_, ?_⟩, ?_⟩
  · rw [waiting, users, auth]
    exact p.waiting
  · rw [users, auth]
    exact p.unknown
  · rw [Covered, Covered, waiting, users, auth]

theorem not_mem_ids (p : w.Pending) {id : UserId} (h : id ∉ (users w.store).map (·.1)) :
    id ∉ w.waiting.map (·.userId) := by
  intro hm
  obtain ⟨s, hs, rfl⟩ := List.mem_map.mp hm
  exact h (p.waiting s hs).left

theorem insert (p : w.Pending) (fresh : s.userId ∉ (users w.store).map (·.1)) :
    (w.insert s).Pending ∧
      ((w.insert s).Covered ↔ w.Covered ∧ Messenger.Reverts w.store s.login s.userId) := by
  have half := w.insert_firstHalf s
  generalize w.insert s = w' at half ⊢
  cases half
  case refused reverts waiting users auth =>
    simpa [reverts] using p.congr w' waiting users auth
  case lost stored reverts waiting users auth =>
    refine ⟨⟨waiting ▸ p.ids, ?_, ?_⟩, iff_of_false (fun c => ?_) fun h => reverts h.right⟩
    · intro s' hs
      rw [users, auth, List.map_append]
      exact (p.waiting s' <| waiting ▸ hs).imp_left <| List.mem_append_left _
    · intro id h
      rw [users, List.map_append, List.mem_append, not_or] at h
      exact auth ▸ p.unknown h.left
    · have mem := c (s.userId, stored) (by simp [users]) <| auth ▸ p.unknown fresh
      exact p.not_mem_ids fresh <| waiting ▸ mem
  case done stored reverts waiting users auth =>
    refine ⟨⟨?_, ?_, ?_⟩, ?_⟩
    · rw [waiting, List.map_append, List.nodup_append_comm]
      exact List.nodup_cons.mpr ⟨p.not_mem_ids fresh, p.ids⟩
    · intro s' hs
      rw [users, auth, List.map_append]
      obtain hs | hs := List.mem_append.mp <| waiting ▸ hs
      · exact (p.waiting s' hs).imp_left <| List.mem_append_left _
      · cases List.mem_singleton.mp hs
        exact ⟨by simp, p.unknown fresh⟩
    · intro id h
      rw [users, List.map_append, List.mem_append, not_or] at h
      exact auth ▸ p.unknown h.left
    · rw [and_iff_left reverts, Covered, Covered, users, auth, waiting, List.map_append]
      constructor
      case mp =>
        intro c user hu none
        obtain hm | hm := List.mem_append.mp <| c user (List.mem_append_left _ hu) none
        · exact hm
        · have he : user.1 = s.userId := List.mem_singleton.mp hm
          exact absurd (List.mem_map_of_mem hu) <| he ▸ fresh
      case mpr =>
        intro c user hu none
        obtain hu | hu := List.mem_append.mp hu
        · exact List.mem_append_left _ <| c user hu none
        · cases List.mem_singleton.mp hu
          simp

theorem erase (p : w.Pending) (w' : Accounts σ ε δ) (hs : s ∈ w.waiting)
    (waiting : w'.waiting = w.waiting.erase s)
    (users : LawfulStore.users w'.store = LawfulStore.users w.store)
    (auth : ∀ id ≠ s.userId, LawfulStore.auth w'.store id = LawfulStore.auth w.store id) :
    w'.Pending ∧ (w'.Covered ↔ w.Covered ∧ LawfulStore.auth w'.store s.userId ≠ none) := by
  have perm : (w.waiting.map (·.userId)).Perm (s.userId :: w'.waiting.map (·.userId)) :=
    waiting ▸ (List.perm_cons_erase hs).map _
  have ⟨gone, ids⟩ := List.nodup_cons.mp <| perm.nodup_iff.mp p.ids
  have sub : w'.waiting ⊆ w.waiting := waiting ▸ List.erase_subset
  have same {s'} (hs' : s' ∈ w'.waiting) := auth s'.userId fun he => gone <| he ▸ List.mem_map_of_mem hs'
  refine ⟨⟨ids, ?_, ?_⟩, ?_⟩
  · intro s' hs'
    rw [users, same hs']
    exact p.waiting s' <| sub hs'
  · intro id h
    rw [users] at h
    exact (auth id fun he => h <| he ▸ (p.waiting s hs).left).trans <| p.unknown h
  · rw [Covered, Covered, users]
    constructor
    case mp =>
      intro c
      refine ⟨fun user hu missing => ?_, fun missing => ?_⟩
      · by_cases he : user.1 = s.userId
        · exact he ▸ List.mem_map_of_mem hs
        · exact List.map_subset _ sub <| c user hu <| (auth _ he).trans missing
      · obtain ⟨user, hu, he⟩ := List.mem_map.mp (p.waiting s hs).left
        exact gone <| he ▸ c user hu (he ▸ missing)
    case mpr =>
      intro ⟨c, stored⟩ user hu missing
      have ne : user.1 ≠ s.userId := fun he => stored <| he ▸ missing
      exact List.mem_of_ne_of_mem ne <| perm.subset <| c user hu <| (auth _ ne) ▸ missing

variable [Argon2]

theorem authorize (p : w.Pending) (s : Signup) (salt : Option String) :
    (w.authorize s salt).Pending ∧ ((w.authorize s salt).Covered ↔ w.Covered ∧
      (s ∈ w.waiting → Messenger.Authenticates w.store s.password s.userId salt)) := by
  by_cases hs : s ∈ w.waiting
  case neg =>
    rw [Accounts.authorize, if_neg hs]
    simpa [hs] using p
  case pos =>
    have missing := (p.waiting s hs).right
    have users := Messenger.users_authorizeUser (ε := ε) w.store s.login s.password s.userId salt
    have erase := p.erase (w.authorize s salt) hs
    rw [Accounts.authorize, if_pos hs] at erase ⊢
    replace erase := erase rfl users
    obtain ⟨ha, auth⟩ | ⟨ha, info, auth⟩ :=
      Messenger.auth_authorizeUser (ε := ε) s.login s.password salt missing
    · have erased := erase fun id _ => by rw [auth]
      simpa [hs, ha, auth, missing] using erased
    · have erased := erase fun id hne => by rw [auth, Function.update_of_ne hne]
      simpa [hs, ha, auth] using erased

theorem step (p : w.Pending) (h : w.Regular e) :
    (w.step e).Pending ∧ ((w.step e).Covered ↔ w.Covered ∧ w.Completing e) :=
  match e with
  | .insert _         => p.insert <| h.left rfl
  | .authorize s salt => p.authorize s salt
  | .other store      =>
    have ⟨users, auth⟩ := h.right rfl
    have ⟨pending, covered⟩ := p.congr { w with store } rfl users auth
    ⟨pending, covered.trans (and_iff_left trivial).symm⟩

end Pending

theorem covered_iff [Argon2] {es : List (Event σ)} (hu : users store = []) (ha : ∀ id, auth store id = none)
    (h : (system (ε := ε) (δ := δ) store).Along Regular (.start store) es) :
    ((system (ε := ε) (δ := δ) store).run es).Covered ↔
      (system (ε := ε) (δ := δ) store).Along Completing (.start store) es := by
  have covered : (Accounts.start (ε := ε) (δ := δ) store).Covered := by simp [Covered, Accounts.start, hu]
  have iff := System.Along.exec_iff (S := system (ε := ε) (δ := δ) store) (c := Completing) (I := Pending)
    (P := Covered) (fun _ h p => p.step h) h (.start ha)
  exact iff.trans <| and_iff_right covered

end Accounts
end Pheidippides
