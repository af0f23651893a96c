import Pheidippides.Messenger.Theorems.SubscriptionsHandler

open Broadcast

namespace Pheidippides.SubscriptionsHandler

variable {h h₁ h₂ : SubscriptionsHandler} {m : Message} {u v : UserId} {r : ReceiverId}

theorem sendTo_newMessages (h : SubscriptionsHandler) (u : UserId) (m : Message) :
    (h.sendTo u m).2.newMessages = h.newMessages :=
  match h.sendTo u m, h.sendTo_spec u m with
  | _, .absent _ | _, .stale _ | _, .sent .. => rfl

theorem handleNewMessage_newMessages (h : SubscriptionsHandler) (m : Message) :
    (h.handleNewMessage m).2.newMessages = h.newMessages := by
  rw [handleNewMessage]
  have hs := h.sendTo_newMessages m.sender m
  split
  case h_1 e => exact e ▸ hs
  case h_2 e =>
    rw [e] at hs
    split
    · exact (sendTo_newMessages ..).trans hs
    · exact hs

theorem register_newMessages_ne_none_iff :
    (h.register u).2.newMessages v ≠ none ↔ v = u ∨ h.newMessages v ≠ none := by
  rw [register]
  simp only [entry]
  split
  case h_1 e => grind
  case h_2 e => by_cases hv : v = u <;> simp [Function.update_apply, hv]

theorem register_live_iff :
    (h.register u).2.hub.Live r ↔ r = h.hub.receivers.length ∨ h.hub.Live r := by
  have he := h.entry_receivers u
  have hl : (h.entry u).2.hub.receivers.length = h.hub.receivers.length := congrArg _ he
  exact Hub.live_subscribe.trans <| or_congr (Eq.congr_right hl) <| Hub.live_of_receivers_eq he

theorem recv_live_iff {hub : Hub Message} {r r' : ReceiverId} :
    (hub.recv r).2.Live r' ↔ hub.Live r' := by
  obtain he | ⟨_, _, _, _, _, he⟩ := hub.recv_snd r
  · rw [he]
  · rw [he, Hub.live_moveTo]

namespace Wired

-- A user has live receivers if and only if somebody listens to the channel of the user.
theorem receiverCount_pos_iff (w : h.Wired) {c : ChannelId} (e : h.newMessages u = some c) :
    0 < h.hub.receiverCount c ↔ ∃ r, h.Subscribed r u := by
  rw [Hub.receiverCount_pos_iff]
  constructor
  case mp =>
    rintro ⟨r, rx, hr, hl, rfl⟩
    exact ⟨r, ⟨rx, hr, hl⟩, w.owned e hr⟩
  case mpr =>
    rintro ⟨r, hs⟩
    have ⟨rx, hr, hl⟩ := hs.left
    exact ⟨r, rx, hr, hl, Option.some.inj <| (w.current hs hr).symm.trans e⟩

theorem stale_iff (w : h.Wired) : h.Stale u ↔ h.newMessages u ≠ none ∧ ¬∃ r, h.Subscribed r u := by
  constructor
  case mp =>
    rintro ⟨c, e, hc⟩
    exact ⟨by simp [e], fun hs => ((w.receiverCount_pos_iff e).mpr hs).ne' hc⟩
  case mpr =>
    rintro ⟨he, hs⟩
    obtain ⟨c, e⟩ := Option.ne_none_iff_exists'.mp he
    exact ⟨c, e, Nat.eq_zero_of_not_pos <| (w.receiverCount_pos_iff e).not.mpr hs⟩

theorem cleanup_newMessages_ne_none_iff (w : h.Wired) :
    h.cleanup.newMessages u ≠ none ↔ ∃ r, h.Subscribed r u := by
  rw [Option.ne_none_iff_exists']
  simp only [SubscriptionsHandler.cleanup, Option.filter_eq_some_iff, decide_eq_true_iff]
  constructor
  case mp =>
    rintro ⟨c, e, hc⟩
    exact (w.receiverCount_pos_iff e).mp hc
  case mpr =>
    rintro ⟨r, hs⟩
    obtain ⟨rx, hr, _⟩ := hs.left
    have e := w.current hs hr
    exact ⟨_, e, (w.receiverCount_pos_iff e).mpr ⟨r, hs⟩⟩

theorem gets_iff (w : h.Wired) : h.Gets m r v ↔ h.Subscribed r v ∧ h.Reaches m v := by
  classical
  refine and_congr_right fun hs => ?_
  rw [w.handleNewMessage_queue hs, List.append_right_inj]
  by_cases hr : h.Reaches m v <;> simp [hr]

end Wired

-- Two handlers with the same receivers, the second of which may lack entries nobody listens to.
structure Trails (h₁ h₂ : SubscriptionsHandler) : Prop where
  wired₁     : h₁.Wired
  wired₂     : h₂.Wired
  registered : h₁.registered = h₂.registered
  live       : ∀ {r}, h₁.hub.Live r ↔ h₂.hub.Live r
  entries    : ∀ {u}, h₂.newMessages u ≠ none → h₁.newMessages u ≠ none

namespace Trails

theorem subscribed (t : Trails h₁ h₂) : h₁.Subscribed r u ↔ h₂.Subscribed r u := by
  rw [Subscribed, Subscribed, t.live, t.registered]

theorem cleanup (w : h.Wired) : Trails h h.cleanup where
  wired₁     := w
  wired₂     := w.cleanup
  registered := rfl
  live       := .rfl
  entries he := by
    obtain ⟨r, hs⟩ := w.cleanup_newMessages_ne_none_iff.mp he
    have ⟨rx, hr, _⟩ := hs.left
    simp [w.current hs hr]

theorem step (t : Trails h₁ h₂) (e : Event) :
    Trails (SubscriptionsHandler.step h₁ e) (SubscriptionsHandler.step h₂ e) where
  wired₁     := wired_invariant.step e t.wired₁
  wired₂     := wired_invariant.step e t.wired₂
  registered := match e with
    | .subscribe u           => by simp [SubscriptionsHandler.step, register_registered, t.registered]
    | .drop _ | .recv _      => t.registered
    | .cleanup               => t.registered
    | .message m             => by
      simp only [SubscriptionsHandler.step, handleNewMessage_registered, t.registered]
  live {r}   := match e with
    | .subscribe u => by
      have hl : h₁.hub.receivers.length = h₂.hub.receivers.length :=
        t.wired₁.length.symm.trans <| t.registered ▸ t.wired₂.length
      simp only [SubscriptionsHandler.step, register_live_iff, hl, t.live]
    | .drop _      => Hub.live_drop.trans <| (and_congr_left' t.live).trans Hub.live_drop.symm
    | .recv _      => recv_live_iff.trans <| t.live.trans recv_live_iff.symm
    | .cleanup     => t.live
    | .message m   => (Hub.live_of_receivers_eq <| h₁.handleNewMessage_receivers m).trans <|
      t.live.trans (Hub.live_of_receivers_eq <| h₂.handleNewMessage_receivers m).symm
  entries {u} := match e with
    | .subscribe v      => by
      simp only [SubscriptionsHandler.step, register_newMessages_ne_none_iff]
      exact Or.imp_right t.entries
    | .drop _ | .recv _ => t.entries
    | .cleanup          => by
      simp only [SubscriptionsHandler.step, t.wired₁.cleanup_newMessages_ne_none_iff,
        t.wired₂.cleanup_newMessages_ne_none_iff, t.subscribed]
      exact id
    | .message m        => by
      simp only [SubscriptionsHandler.step, handleNewMessage_newMessages]
      exact t.entries

theorem exec (t : Trails h₁ h₂) (es : List Event) : Trails (system.exec h₁ es) (system.exec h₂ es) := by
  induction es generalizing h₁ h₂
  case nil          => exact t
  case cons e es ih => exact ih <| t.step e

-- The first handler has an entry for the user, and the second one has none.
def Differ (h₁ h₂ : SubscriptionsHandler) (u : UserId) : Prop :=
  h₁.newMessages u ≠ none ∧ h₂.newMessages u = none

theorem differ_cleanup_iff (w : h.Wired) : Differ h h.cleanup u ↔ h.Stale u := by
  rw [w.stale_iff, Differ, ← w.cleanup_newMessages_ne_none_iff, not_ne_iff]

-- A pass in both handlers leaves the same entries, and a subscription makes one in both.
theorem differ_step_iff (t : Trails h₁ h₂) (e : Event) :
    Differ (SubscriptionsHandler.step h₁ e) (SubscriptionsHandler.step h₂ e) u ↔
      Differ h₁ h₂ u ∧ e ≠ .cleanup ∧ e ≠ .subscribe u := by
  simp only [Differ, ← not_ne_iff (b := (none : Option ChannelId))]
  cases e
  case drop | recv => simp [SubscriptionsHandler.step]
  case message m   => simp [SubscriptionsHandler.step, handleNewMessage_newMessages]
  case cleanup     =>
    simp only [SubscriptionsHandler.step, t.wired₁.cleanup_newMessages_ne_none_iff,
      t.wired₂.cleanup_newMessages_ne_none_iff, t.subscribed]
    simp
  case subscribe v =>
    simp only [SubscriptionsHandler.step, register_newMessages_ne_none_iff]
    grind

theorem differ_exec_iff (t : Trails h₁ h₂) (es : List Event) :
    Differ (system.exec h₁ es) (system.exec h₂ es) u ↔
      Differ h₁ h₂ u ∧ .cleanup ∉ es ∧ .subscribe u ∉ es := by
  induction es generalizing h₁ h₂
  case nil          => simp
  case cons e es ih =>
    refine (ih <| t.step e).trans ?_
    rw [t.differ_step_iff]
    simp only [List.mem_cons, not_or, ne_comm (b := e)]
    tauto

-- A message reaches the same receivers unless an entry of the sender is in the way in the first handler
-- alone.
theorem gets_iff (t : Trails h₁ h₂) (m : Message) : (∀ {r u}, h₁.Gets m r u ↔ h₂.Gets m r u) ↔
    (m.sender ≠ m.receiver → (∃ r, h₁.Subscribed r m.receiver) → ¬Differ h₁ h₂ m.sender) := by
  simp only [t.wired₁.gets_iff, t.wired₂.gets_iff, t.subscribed, and_congr_right_iff]
  constructor
  case mp =>
    rintro same hne ⟨r, hs⟩ ⟨entry, absent⟩
    have alone : ¬∃ r, h₂.Subscribed r m.sender := by
      rintro ⟨r', hs'⟩
      have ⟨rx, hr, _⟩ := hs'.left
      simp [t.wired₂.current hs' hr] at absent
    have stale : h₁.Stale m.sender :=
      t.wired₁.stale_iff.mpr ⟨entry, by simpa only [t.subscribed] using alone⟩
    have fresh : ¬h₂.Stale m.sender := fun hs => (t.wired₂.stale_iff.mp hs).left absent
    obtain he | ⟨_, hn⟩ := (same hs).mpr <| .inr ⟨rfl, fresh⟩
    · exact hne he.symm
    · exact hn stale
  case mpr =>
    intro same r u hs
    refine or_congr_right' fun hne => and_congr_right fun hu => not_congr ?_
    subst hu
    rw [t.wired₁.stale_iff, t.wired₂.stale_iff]
    simp only [t.subscribed]
    refine and_congr_left fun _ => ⟨fun entry absent => ?_, t.entries⟩
    exact same (Ne.symm hne) ⟨r, hs⟩ ⟨entry, absent⟩

end Trails

-- A pass of the cleanup job leaves the receivers on their channels, and changes which of them a later
-- message gets to if and only if the entry of the sender is stale at the pass, the receiver has subscribed
-- when the message comes, and in between neither the sender subscribes nor there is another pass.
theorem undisturbed_iff (es₁ es₂ : List Event) (m : Message) : (system.run es₁).Undisturbed es₂ m ↔
    (m.sender ≠ m.receiver → (system.run es₁).Stale m.sender →
      (∃ r, (system.run (es₁ ++ es₂)).Subscribed r m.receiver) →
        .cleanup ∈ es₂ ∨ .subscribe m.sender ∈ es₂) := by
  have w := wired_invariant.run es₁
  have gets := ((Trails.cleanup w).exec es₂).gets_iff m
  rw [(Trails.cleanup w).differ_exec_iff es₂, Trails.differ_cleanup_iff w] at gets
  have condition : (m.sender ≠ m.receiver → (system.run es₁).Stale m.sender →
      (∃ r, (system.run (es₁ ++ es₂)).Subscribed r m.receiver) →
        .cleanup ∈ es₂ ∨ .subscribe m.sender ∈ es₂) ↔
      (m.sender ≠ m.receiver → (∃ r, (system.exec (system.run es₁) es₂).Subscribed r m.receiver) →
        ¬((system.run es₁).Stale m.sender ∧ .cleanup ∉ es₂ ∧ .subscribe m.sender ∉ es₂)) := by
    rw [System.run_append]
    tauto
  rw [condition, ← gets]
  refine ⟨(·.reached), fun reached => ⟨w.current, ?_, ?_, reached⟩⟩
  case refine_1 =>
    intro r u v rx hs hr hv
    exact w.injective hv <| w.current hs hr
  case refine_2 =>
    intro r r' u rx rx' hs hs' hr hr'
    exact Option.some.inj <| (w.current hs hr).symm.trans <| w.current hs' hr'

-- The message which is blocked by the entry of the first user reaches the second one after a pass.
theorem not_undisturbed :
    let h := system.run [.subscribe 1, .drop 0, .subscribe 2]
    let m : Message := ⟨7, 1, 2, "hello", 0⟩
    ¬h.Gets m 1 2 ∧ h.cleanup.Gets m 1 2 ∧ ¬h.Undisturbed [] m := by
  intro h m
  have subscribed : h.Subscribed 1 2 := ⟨⟨_, rfl, rfl⟩, rfl⟩
  have before : ¬h.Gets m 1 2 := fun hg => absurd hg.right <| by decide
  have after : h.cleanup.Gets m 1 2 := ⟨subscribed, by decide⟩
  exact ⟨before, after, fun hu => before <| hu.reached.mpr after⟩

end Pheidippides.SubscriptionsHandler
