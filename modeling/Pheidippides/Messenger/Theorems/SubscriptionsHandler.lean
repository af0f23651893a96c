import Pheidippides.Messenger.SubscriptionsHandler

open Broadcast

namespace Pheidippides.SubscriptionsHandler

variable {h : SubscriptionsHandler} {m : Message} {u v : UserId} {c : ChannelId} {r : ReceiverId}
  {rx : Receiver}

-- How the map and the receivers hang together in every reachable state. The fields `current` and
-- `owned` say that all live receivers of a user are on the channel in the map, and none other is.
structure Wired (h : SubscriptionsHandler) : Prop where
  hub       : h.hub.WellFormed
  length    : h.registered.length = h.hub.receivers.length
  opened    : ∀ {u c}, h.newMessages u = some c → c < h.hub.opened
  unclosed  : ∀ {u c}, h.newMessages u = some c → (h.hub.channel c).closed = false
  injective : ∀ {u v c}, h.newMessages u = some c → h.newMessages v = some c → u = v
  current   : ∀ {r : ReceiverId} {u : UserId} {rx : Receiver}, h.Subscribed r u →
    h.hub.receivers[r]? = some rx → h.newMessages u = some rx.channel
  owned     : ∀ {r : ReceiverId} {u : UserId} {rx : Receiver},
    h.newMessages u = some rx.channel → h.hub.receivers[r]? = some rx → h.registered[r]? = some u
  concerns  : ∀ {u c} {m : Message}, h.newMessages u = some c → m ∈ h.hub.sentOn c → m.Concerns u
  arrived   : ∀ {r : ReceiverId} {u : UserId} {rx : Receiver} {m : Message},
    h.registered[r]? = some u → h.hub.receivers[r]? = some rx → m ∈ h.hub.sentOn rx.channel →
      m.Concerns u

namespace Wired

theorem new : new.Wired where
  hub       := .empty
  length    := rfl
  opened    := by simp [SubscriptionsHandler.new]
  unclosed  := by simp [SubscriptionsHandler.new]
  injective := by simp [SubscriptionsHandler.new]
  current   := by simp [SubscriptionsHandler.new, Hub.empty]
  owned     := by simp [SubscriptionsHandler.new]
  concerns  := by simp [SubscriptionsHandler.new]
  arrived   := by simp [SubscriptionsHandler.new]

theorem receiver_of_registered (w : h.Wired) (hu : h.registered[r]? = some u) :
    ∃ rx, h.hub.receivers[r]? = some rx := by
  have hl := (List.getElem?_eq_some_iff.mp hu).choose
  exact ⟨_, List.getElem?_eq_getElem (w.length ▸ hl)⟩

-- A change which keeps the logs and only moves or drops receivers.
theorem update (w : h.Wired) {hub : Hub Message} (wf : hub.WellFormed)
    (ho : hub.opened = h.hub.opened) (hc : hub.channel = h.hub.channel)
    (hl : hub.receivers.length = h.hub.receivers.length)
    (hr : ∀ {r : ReceiverId} {rx : Receiver}, hub.receivers[r]? = some rx →
      ∃ rx', h.hub.receivers[r]? = some rx' ∧ rx'.channel = rx.channel ∧ (rx.live → rx'.live)) :
    { h with hub }.Wired where
  hub       := wf
  length    := w.length.trans hl.symm
  opened e  := ho ▸ w.opened e
  unclosed e := hc ▸ w.unclosed e
  injective := w.injective
  current   := by
    intro r u rx ⟨⟨rx₁, h₁, hl⟩, hu⟩ hrx
    cases h₁ ▸ hrx
    have ⟨rx', h', hc, hl'⟩ := hr hrx
    exact hc ▸ w.current ⟨⟨rx', h', hl' hl⟩, hu⟩ h'
  owned     := by
    intro r u rx hu hrx
    have ⟨rx', h', hc, _⟩ := hr hrx
    exact w.owned (hc ▸ hu) h'
  concerns  := by
    intro u c m e hm
    exact w.concerns e <| by rwa [Hub.sentOn, hc] at hm
  arrived   := by
    intro r u rx m hu hrx hm
    have ⟨rx', h', hc', _⟩ := hr hrx
    exact w.arrived hu h' <| by rwa [Hub.sentOn, hc, ← hc'] at hm

theorem drop (w : h.Wired) (r : ReceiverId) : { h with hub := h.hub.drop r }.Wired := by
  apply w.update (w.hub.drop r) rfl rfl (by simp [Hub.drop])
  intro r' rx hrx
  rw [Hub.drop_receivers, Option.map_eq_some_iff] at hrx
  obtain ⟨rx', h', rfl⟩ := hrx
  refine ⟨rx', h', ?_⟩
  split <;> simp

theorem recv (w : h.Wired) (r : ReceiverId) : { h with hub := (h.hub.recv r).2 }.Wired := by
  obtain he | ⟨rx, n, -, -, -, he⟩ := h.hub.recv_snd r
  · rwa [he]
  · refine w.update (w.hub.recv r) ?_ ?_ ?_ ?_ <;> rw [he]
    case refine_1 => rfl
    case refine_2 => rfl
    case refine_3 => simp [Hub.moveTo]
    case refine_4 =>
      intro r' rx' hrx
      rw [Hub.moveTo_receivers, Option.map_eq_some_iff] at hrx
      obtain ⟨rx'', h', rfl⟩ := hrx
      refine ⟨rx'', h', ?_⟩
      split <;> simp

theorem cleanup (w : h.Wired) : h.cleanup.Wired := by
  have entry {u c} : h.cleanup.newMessages u = some c ↔
      h.newMessages u = some c ∧ 0 < h.hub.receiverCount c := by
    simp [SubscriptionsHandler.cleanup, Option.filter_eq_some_iff]
  constructor
  case hub       => exact w.hub.close _
  case length    => exact w.length
  case opened    => exact fun e => w.opened (entry.mp e).left
  case injective => exact fun e₁ e₂ => w.injective (entry.mp e₁).left (entry.mp e₂).left
  case owned     => exact fun e => w.owned (entry.mp e).left
  case concerns  => exact fun e => w.concerns (entry.mp e).left
  case arrived   => exact w.arrived
  case unclosed =>
    intro u c e
    have ⟨e, hc⟩ := entry.mp e
    simp [SubscriptionsHandler.cleanup, w.unclosed e, hc.ne']
  case current =>
    intro r u rx hs hrx
    refine entry.mpr ⟨w.current hs hrx, Hub.receiverCount_pos_iff.mpr ⟨r, rx, hrx, ?_, rfl⟩⟩
    have ⟨rx', h', hl⟩ := hs.left
    cases h' ▸ hrx
    exact hl

theorem push (w : h.Wired) (e : h.newMessages u = some c) (hm : m.Concerns u) :
    { h with hub := h.hub.push c m }.Wired where
  hub        := w.hub.push c m
  length     := w.length
  opened     := w.opened
  unclosed e := (h.hub.push_closed ..).trans <| w.unclosed e
  injective  := w.injective
  current    := w.current
  owned      := w.owned
  concerns   := by
    intro v c' m' e' hm'
    obtain hm' | ⟨rfl, rfl⟩ := Hub.mem_sentOn_push.mp hm'
    · exact w.concerns e' hm'
    · exact w.injective e e' ▸ hm
  arrived    := by
    intro r v rx m' hv hrx hm'
    obtain hm' | ⟨hc, rfl⟩ := Hub.mem_sentOn_push.mp hm'
    · exact w.arrived hv hrx hm'
    · cases hv ▸ w.owned (hc.symm ▸ e) hrx
      exact hm

theorem entry (w : h.Wired) (u : UserId) :
    (h.entry u).2.Wired ∧ (h.entry u).2.newMessages u = some (h.entry u).1 := by
  rw [SubscriptionsHandler.entry]
  split
  case h_1 sender e => exact ⟨w, e⟩
  case h_2 e =>
    refine ⟨?_, by simp⟩
    have fresh {v} : h.newMessages v ≠ some h.hub.opened := fun e => (w.opened e).ne rfl
    have old {v c} (hc : c ≠ h.hub.opened)
        (hv : Function.update h.newMessages u (some h.hub.opened) v = some c) :
        h.newMessages v = some c := by
      rw [Function.update_apply] at hv
      split at hv
      · exact absurd (Option.some.inj hv).symm hc
      · exact hv
    have mine {v} (hv : Function.update h.newMessages u (some h.hub.opened) v = some h.hub.opened) :
        v = u := by
      by_contra hn
      rw [Function.update_of_ne hn] at hv
      exact fresh hv
    constructor
    case hub    => exact w.hub.create _
    case length => exact w.length
    case opened =>
      intro v c hv
      by_cases hc : c = h.hub.opened
      · exact hc ▸ Nat.lt_succ_self _
      · exact Nat.lt_succ_of_lt <| w.opened <| old hc hv
    case unclosed =>
      intro v c hv
      rw [Hub.create_closed]
      split
      case isTrue     => rfl
      case isFalse hc => exact w.unclosed <| old hc hv
    case injective =>
      intro v₁ v₂ c h₁ h₂
      by_cases hc : c = h.hub.opened
      · subst hc
        exact (mine h₁).trans (mine h₂).symm
      · exact w.injective (old hc h₁) (old hc h₂)
    case current =>
      intro r v rx hs hrx
      have hv := w.current hs hrx
      have hn : v ≠ u := fun hn => by simp [hn ▸ hv] at e
      exact (Function.update_of_ne hn ..).trans hv
    case owned =>
      intro r v rx hv hrx
      exact w.owned (old (w.hub.opened hrx).ne hv) hrx
    case concerns =>
      intro v c m hv hm
      rw [Hub.create_sentOn] at hm
      split at hm
      case isTrue     => simp at hm
      case isFalse hc => exact w.concerns (old hc hv) hm
    case arrived =>
      intro r v rx m hv hrx hm
      rw [Hub.create_sentOn, if_neg (w.hub.opened hrx).ne] at hm
      exact w.arrived hv hrx hm

theorem subscribe (w : h.Wired) (e : h.newMessages u = some c) :
    { h with hub := (h.hub.subscribe c).2, registered := h.registered ++ [u] }.Wired := by
  -- The new receiver comes with the new element of `registered`, all others are as before.
  have registered {r v} : (h.registered ++ [u])[r]? = some v ↔
      (r = h.hub.receivers.length ∧ v = u) ∨
        (r ≠ h.hub.receivers.length ∧ h.registered[r]? = some v) := by
    rw [← w.length]
    by_cases hr : r = h.registered.length
    · simp [hr, eq_comm]
    · rw [List.getElem?_append]
      split
      case isTrue => simp [hr]
      case isFalse hl =>
        have hl := lt_of_le_of_ne (not_lt.mp hl) (Ne.symm hr)
        simp [hr, List.getElem?_eq_none hl.le, Nat.sub_ne_zero_of_lt hl]
  constructor
  case hub       => exact w.hub.subscribe <| w.opened e
  case length    => simp [Hub.subscribe, w.length]
  case opened    => exact w.opened
  case unclosed  => exact w.unclosed
  case injective => exact w.injective
  case concerns  => exact w.concerns
  case current =>
    rintro r v rx ⟨hl, hv⟩ hrx
    rw [Hub.subscribe_receivers] at hrx
    obtain ⟨rfl, rfl⟩ | ⟨hr, hv⟩ := registered.mp hv
    · simp only [if_true] at hrx
      cases hrx
      exact e
    · rw [if_neg hr] at hrx
      exact w.current ⟨(Hub.live_subscribe.mp hl).resolve_left hr, hv⟩ hrx
  case owned =>
    intro r v rx hv hrx
    rw [Hub.subscribe_receivers] at hrx
    split at hrx
    case isTrue hr =>
      cases hrx
      exact registered.mpr <| .inl ⟨hr, w.injective hv e⟩
    case isFalse hr => exact registered.mpr <| .inr ⟨hr, w.owned hv hrx⟩
  case arrived =>
    intro r v rx m hv hrx hm
    rw [Hub.subscribe_receivers] at hrx
    obtain ⟨rfl, rfl⟩ | ⟨hr, hv⟩ := registered.mp hv
    · simp only [if_true] at hrx
      cases hrx
      exact w.concerns e hm
    · rw [if_neg hr] at hrx
      exact w.arrived hv hrx hm

theorem register (w : h.Wired) (u : UserId) : (h.register u).2.Wired :=
  (w.entry u).left.subscribe (w.entry u).right

end Wired

-- All that `send_event_to_subscribers` can come to for one of the users of a message.
inductive SentTo (h : SubscriptionsHandler) (u : UserId) (m : Message) :
    Except Error Unit × SubscriptionsHandler → Prop
  | absent : h.newMessages u = none → SentTo h u m (.ok (), h)
  | stale  : h.Stale u → SentTo h u m (.error <| .couldntSend u, h)
  | sent {c : ChannelId} : h.newMessages u = some c → 0 < h.hub.receiverCount c →
    SentTo h u m (.ok (), { h with hub := h.hub.push c m })

theorem sendTo_spec (h : SubscriptionsHandler) (u : UserId) (m : Message) :
    SentTo h u m (h.sendTo u m) := by
  rw [sendTo]
  split
  case h_1 e => exact .absent e
  case h_2 c e =>
    by_cases hc : h.hub.receiverCount c = 0
    · simpa [Hub.send, hc] using .stale ⟨c, e, hc⟩
    · simpa [Hub.send, hc] using .sent e (Nat.pos_of_ne_zero hc)

theorem sendTo_fst_eq_ok_iff : (h.sendTo u m).1 = .ok () ↔ ¬h.Stale u :=
  match h.sendTo u m, h.sendTo_spec u m with
  | _, .absent e   => by simp [Stale, e]
  | _, .stale hs   => by simp [hs]
  | _, .sent e hc  => by simp [Stale, e, hc.ne']

theorem sendTo_receivers (h : SubscriptionsHandler) (u : UserId) (m : Message) :
    (h.sendTo u m).2.hub.receivers = h.hub.receivers :=
  match h.sendTo u m, h.sendTo_spec u m with
  | _, .absent _ | _, .stale _ | _, .sent .. => rfl

theorem sendTo_registered (h : SubscriptionsHandler) (u : UserId) (m : Message) :
    (h.sendTo u m).2.registered = h.registered :=
  match h.sendTo u m, h.sendTo_spec u m with
  | _, .absent _ | _, .stale _ | _, .sent .. => rfl

theorem Wired.sendTo (w : h.Wired) (hm : m.Concerns u) : (h.sendTo u m).2.Wired :=
  match h.sendTo u m, h.sendTo_spec u m with
  | _, .absent _ | _, .stale _ => w
  | _, .sent e _               => w.push e hm

theorem Wired.handleNewMessage (w : h.Wired) (m : Message) : (h.handleNewMessage m).2.Wired := by
  rw [SubscriptionsHandler.handleNewMessage]
  have w₁ := w.sendTo (u := m.sender) (m := m) <| .inl rfl
  split
  case h_1 e => exact e ▸ w₁
  case h_2 e =>
    rw [e] at w₁
    split
    · exact w₁.sendTo <| .inr rfl
    · exact w₁

theorem wired_invariant : system.Invariant Wired where
  init := .new
  step e w := match e with
    | .subscribe u => w.register u
    | .drop r      => w.drop r
    | .recv r      => w.recv r
    | .cleanup     => w.cleanup
    | .message m   => w.handleNewMessage m

theorem handleNewMessage_receivers (h : SubscriptionsHandler) (m : Message) :
    (h.handleNewMessage m).2.hub.receivers = h.hub.receivers := by
  rw [handleNewMessage]
  have hs := h.sendTo_receivers m.sender m
  split
  case h_1 e => exact e ▸ hs
  case h_2 e =>
    rw [e] at hs
    split
    · exact (sendTo_receivers ..).trans hs
    · exact hs

theorem handleNewMessage_registered (h : SubscriptionsHandler) (m : Message) :
    (h.handleNewMessage m).2.registered = h.registered := by
  rw [handleNewMessage]
  have hs := h.sendTo_registered m.sender m
  split
  case h_1 e => exact e ▸ hs
  case h_2 e =>
    rw [e] at hs
    split
    · exact (sendTo_registered ..).trans hs
    · exact hs

namespace Wired

-- The log of the channel of a live receiver grows if and only if it is its user who is sent to.
theorem sendTo_sentOn (w : h.Wired) (hs : h.Subscribed r v) (hr : h.hub.receivers[r]? = some rx) :
    (h.sendTo u m).2.hub.sentOn rx.channel =
      h.hub.sentOn rx.channel ++ if v = u then [m] else [] := by
  have hv := w.current hs hr
  have hc : 0 < h.hub.receiverCount rx.channel := by
    obtain ⟨rx', h', hl⟩ := hs.left
    cases h' ▸ hr
    exact Hub.receiverCount_pos_iff.mpr ⟨r, _, hr, hl, rfl⟩
  refine match h.sendTo u m, h.sendTo_spec u m with
  | _, .absent e       => ?absent
  | _, .stale ⟨c, e, he⟩ => ?stale
  | _, .sent (c := c) e _ => ?sent
  case absent =>
    rw [if_neg, List.append_nil]
    rintro rfl
    simp [hv] at e
  case stale =>
    rw [if_neg, List.append_nil]
    rintro rfl
    cases hv ▸ e
    exact hc.ne' he
  case sent =>
    have hi : rx.channel = c ↔ v = u := by
      constructor
      · rintro rfl
        exact w.injective hv e
      · rintro rfl
        exact Option.some.inj (hv ▸ e)
    by_cases hu : v = u
    · simp [Hub.push_sentOn, hi.mpr hu, hu]
    · simp [Hub.push_sentOn, mt hi.mp hu, hu]

theorem handleNewMessage_sentOn (w : h.Wired) (hs : h.Subscribed r v)
    (hr : h.hub.receivers[r]? = some rx) (m : Message) [Decidable (h.Reaches m v)] :
    (h.handleNewMessage m).2.hub.sentOn rx.channel =
      h.hub.sentOn rx.channel ++ if h.Reaches m v then [m] else [] := by
  have first := w.sendTo_sentOn (u := m.sender) (m := m) hs hr
  rw [SubscriptionsHandler.handleNewMessage]
  split
  case h_1 h₁ e =>
    have stale : h.Stale m.sender := by
      by_contra hn
      have hok := sendTo_fst_eq_ok_iff (m := m) |>.mpr hn
      simp [e] at hok
    simpa [e, Reaches, stale] using first
  case h_2 h₁ e =>
    have fresh : ¬h.Stale m.sender := sendTo_fst_eq_ok_iff.mp <| by rw [e]
    rw [e] at first
    split
    case isTrue hne =>
      have w₁  : h₁.Wired := by simpa [e] using w.sendTo (u := m.sender) (m := m) <| .inl rfl
      have hr₁ : h₁.hub.receivers = h.hub.receivers := by simpa [e] using h.sendTo_receivers m.sender m
      have hg₁ : h₁.registered = h.registered := by simpa [e] using h.sendTo_registered m.sender m
      have hs₁ : h₁.Subscribed r v := ⟨(Hub.live_of_receivers_eq hr₁).mpr hs.left, hg₁ ▸ hs.right⟩
      rw [w₁.sendTo_sentOn hs₁ (hr₁ ▸ hr), first, List.append_assoc]
      by_cases hv : v = m.sender
      · simp [Reaches, hv, hne]
      · simp [Reaches, hv, fresh]
    case isFalse he =>
      simp only [ne_eq, not_not] at he
      simpa [Reaches, ← he, fresh] using first

variable [Decidable (h.Reaches m v)]

theorem handleNewMessage_queue (w : h.Wired) (hs : h.Subscribed r v) :
    (h.handleNewMessage m).2.hub.queue r =
      h.hub.queue r ++ if h.Reaches m v then [m] else [] := by
  have ⟨rx, hr, _⟩ := hs.left
  rw [Hub.queue_eq hr, Hub.queue_eq (h.handleNewMessage_receivers m ▸ hr),
    w.handleNewMessage_sentOn hs hr m, List.drop_append_of_le_length (w.hub.next_le hr)]

theorem handleNewMessage_arrived (w : h.Wired) (hs : h.Subscribed r v) :
    (h.handleNewMessage m).2.hub.arrived r =
      h.hub.arrived r ++ if h.Reaches m v then [m] else [] := by
  have ⟨rx, hr, _⟩ := hs.left
  have hl := (w.hub.start_le hr).trans (w.hub.next_le hr)
  rw [Hub.arrived_eq hr, Hub.arrived_eq (h.handleNewMessage_receivers m ▸ hr),
    w.handleNewMessage_sentOn hs hr m, List.drop_append_of_le_length hl]

end Wired

namespace Wired

theorem sendTo_grows (w : h.Wired) : Hub.Grows r h.hub (h.sendTo u m).2.hub :=
  match h.sendTo u m, h.sendTo_spec u m with
  | _, .absent _ | _, .stale _ => .refl
  | _, .sent _ _               => w.hub.push_grows _ _ _

theorem handleNewMessage_grows (w : h.Wired) (m : Message) :
    Hub.Grows r h.hub (h.handleNewMessage m).2.hub := by
  rw [SubscriptionsHandler.handleNewMessage]
  have w₁ := w.sendTo (u := m.sender) (m := m) <| .inl rfl
  have g₁ := w.sendTo_grows (r := r) (u := m.sender) (m := m)
  split
  case h_1 e => exact e ▸ g₁
  case h_2 e =>
    rw [e] at w₁ g₁
    split
    · exact g₁.trans w₁.sendTo_grows
    · exact g₁

-- A message reaches no channel twice, since the channels of two users differ.
theorem handleNewMessage_count_le (w : h.Wired) (m m' : Message) (c : ChannelId) :
    ((h.handleNewMessage m).2.hub.sentOn c).count m' ≤
      (h.hub.sentOn c).count m' + [m].count m' := by
  have pushed {h' : SubscriptionsHandler} {v : UserId} (hc : h'.newMessages v ≠ some c) :
      (h'.sendTo v m).2.hub.sentOn c = h'.hub.sentOn c :=
    match h'.sendTo v m, h'.sendTo_spec v m with
    | _, .absent _ | _, .stale _ => rfl
    | _, .sent e _               => by
      rw [Hub.push_sentOn, if_neg]
      rintro rfl
      exact hc e
  have pushed_le (h' : SubscriptionsHandler) (v : UserId) :
      ((h'.sendTo v m).2.hub.sentOn c).count m' ≤ (h'.hub.sentOn c).count m' + [m].count m' :=
    match h'.sendTo v m, h'.sendTo_spec v m with
    | _, .absent _ | _, .stale _ => Nat.le_add_right ..
    | _, .sent (c := c') e _     => by
      rw [Hub.push_sentOn]
      split
      case isTrue hc => rw [List.count_append, hc]
      case isFalse   => exact Nat.le_add_right ..
  have sameMap : (h.sendTo m.sender m).2.newMessages = h.newMessages :=
    match h.sendTo m.sender m, h.sendTo_spec m.sender m with
    | _, .absent _ | _, .stale _ | _, .sent .. => rfl
  have first := pushed_le h m.sender
  rw [SubscriptionsHandler.handleNewMessage]
  split
  case h_1 e => exact e ▸ first
  case h_2 e =>
    split
    case isFalse => exact e ▸ first
    case isTrue hne =>
      by_cases hc : h.newMessages m.receiver = some c
      · have hs : h.newMessages m.sender ≠ some c := fun hs => hne <| w.injective hs hc
        have same := pushed hs
        rw [e] at same
        exact same ▸ pushed_le ..
      · rw [e] at first sameMap
        rwa [pushed (sameMap ▸ hc)]

end Wired

section Register

variable (h : SubscriptionsHandler) (u : UserId)

theorem entry_receivers : (h.entry u).2.hub.receivers = h.hub.receivers := by
  rw [entry]
  split <;> rfl

theorem entry_registered : (h.entry u).2.registered = h.registered := by
  rw [entry]
  split <;> rfl

theorem register_fst : (h.register u).1 = h.hub.receivers.length := by
  simp [register, entry_receivers]

theorem register_registered : (h.register u).2.registered = h.registered ++ [u] := by
  simp [register, entry_registered]

variable {h}

theorem entry_sentOn {c : ChannelId} (hc : c < h.hub.opened) :
    (h.entry u).2.hub.sentOn c = h.hub.sentOn c := by
  rw [entry]
  split
  case h_1 => rfl
  case h_2 => simp [Hub.create_sentOn, hc.ne]

-- A registration is nothing to the other receivers.
theorem Wired.register_others (w : h.Wired) {r : ReceiverId} (hr : r < h.hub.receivers.length) :
    ((h.register u).2.hub.Live r ↔ h.hub.Live r) ∧
      (h.register u).2.hub.queue r = h.hub.queue r ∧
      (h.register u).2.hub.arrived r = h.hub.arrived r := by
  have he := h.entry_receivers u
  have hn : r ≠ (h.entry u).2.hub.receivers.length := he ▸ hr.ne
  have hs := entry_sentOn u <| w.hub.opened <| List.getElem?_eq_getElem hr
  refine ⟨?_, ?_, ?_⟩
  · exact Hub.live_subscribe.trans <| (or_iff_right hn).trans <| Hub.live_of_receivers_eq he
  · exact (Hub.queue_subscribe hn).trans <| by simp [Hub.queue, he, hr, hs]
  · exact (Hub.arrived_subscribe hn).trans <| by simp [Hub.arrived, he, hr, hs]

theorem register_self : (h.register u).2.hub.Live (h.register u).1 ∧
    (h.register u).2.hub.queue (h.register u).1 = [] ∧
    (h.register u).2.hub.arrived (h.register u).1 = [] :=
  ⟨Hub.live_subscribe.mpr <| .inl rfl, Hub.queue_subscribe_self, Hub.arrived_subscribe_self⟩

theorem register_count_le (h : SubscriptionsHandler) (u : UserId) (c : ChannelId) (m : Message) :
    ((h.register u).2.hub.sentOn c).count m ≤ (h.hub.sentOn c).count m := by
  have he : (h.register u).2.hub.sentOn = (h.entry u).2.hub.sentOn := rfl
  rw [he, entry]
  split
  case h_1 => exact le_rfl
  case h_2 =>
    rw [Hub.create_sentOn]
    split
    · exact Nat.zero_le _
    · exact le_rfl

end Register

-- In every reachable state the subscribers of a message get it, once each, unless the sender's entry
-- is stale and shields the subscribers of the other user.
theorem delivers_iff_not_blocked (es : List Event) (m : Message) :
    (system.run es).Delivers m ↔ ¬(system.run es).Blocked m := by
  classical
  have w := wired_invariant.run es
  generalize system.run es = h at w
  constructor
  case mp =>
    intro hd ⟨hne, stale, r, hs⟩
    have hq := hd hs (.inr rfl)
    rw [w.handleNewMessage_queue hs, if_neg (by simp [Reaches, hne.symm, stale])] at hq
    simp at hq
  case mpr =>
    intro hb r u hs hu
    rw [w.handleNewMessage_queue hs, if_pos]
    by_cases he : u = m.sender
    · exact .inl he
    · have hu := (hu.resolve_left <| Ne.symm he).symm
      exact .inr ⟨hu, fun stale => hb ⟨fun e => he <| hu.trans e.symm, stale, r, hu ▸ hs⟩⟩

theorem not_blocked_of_absent (hs : h.newMessages m.sender = none) : ¬h.Blocked m :=
  fun ⟨_, ⟨_, e, _⟩, _⟩ => by simp [hs] at e

-- The first user has subscribed and gone again, so their entry is stale, and their message to the
-- second user gets nowhere.
theorem not_delivers_behind_stale_entry :
    ¬∀ (es : List Event) (m : Message), (system.run es).Delivers m := by
  intro hd
  let h := system.run [.subscribe 1, .drop 0, .subscribe 2]
  have subscribed : h.Subscribed 1 2 := ⟨⟨_, rfl, rfl⟩, rfl⟩
  have hq := hd _ ⟨7, 1, 2, "hello", 0⟩ subscribed (.inr rfl)
  exact absurd hq (by decide)

end Pheidippides.SubscriptionsHandler
