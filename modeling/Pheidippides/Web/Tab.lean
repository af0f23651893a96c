import Pheidippides.Messenger.Client
import Pheidippides.Web.Page

namespace Pheidippides

-- A fetch which a page awaits, with its answer once the server has given it. `stored` is history: what
-- the store held then.
structure Awaited where
  fetch  : Page.Fetch
  answer : Option Page.Answer
  stored : List Message
  deriving DecidableEq, Repr

def Awaited.new (fetch : Page.Fetch) : Awaited where
  fetch  := fetch
  answer := none
  stored := []

namespace World

-- What has arrived in the channel of a stream, and has not been received.
def queuedOn (w : World) (i : Nat) : List Message :=
  match w.streams[i]? with
  | some st => (w.hub.arrived st.rx).drop st.received.length
  | none    => []

end World

-- A chat page in a browser, and the server. `stream` is the number of the page's subscription, once it
-- has been registered.
structure Tab where
  world   : World
  page    : Page
  stream  : Option Nat
  fetches : List Awaited

namespace Tab

-- The responses come in any order. `showChats` is a response to a search, with whatever it has found.
inductive Event
  | server (e : World.Event)
  | connect
  | chatWith (id : UserId)
  | popstate (location : Option UserId)
  | loadMoreOldMessages
  | chatSearchBox (text : String)
  | showChats (chats : List User)
  | answer (k : Nat)
  | arrive (k : Nat)

-- Lets a function of the page run as far as it gets without waiting.
def call (t : Tab) (f : Page → Page × Option Page.Fetch) : Tab :=
  let (page, fetch) := f t.page
  { t with page, fetches := t.fetches ++ fetch.toList.map .new }

def onMessage (t : Tab) (m : Message) : Tab :=
  t.call (·.onMessage m)

-- What a step of the server has brought to the event source.
def events (t : Tab) (w : World) : List Message :=
  match t.stream with
  | some i => (Client.receivedOn w i).drop (Client.receivedOn t.world i).length
  | none   => []

def onServer (t : Tab) (e : World.Event) : Tab :=
  let w := t.world.step e
  (t.events w).foldl onMessage { t with world := w }

-- The subscription of the event source is registered, without a starting point.
def connect (t : Tab) : Tab :=
  if t.page.listening ∧ t.stream = none then
    { t with
      world  := t.world.register t.page.userId none
      stream := some t.world.streams.length }
  else
    t

def loadMoreOldMessages (t : Tab) : Tab :=
  if t.page.listening ∨ t.page.drawn then
    t.call fun page => (page, page.loadMoreOldMessages)
  else
    t

def answer (t : Tab) (k : Nat) : Tab :=
  match t.fetches[k]? with
  | some ⟨fetch, none, _⟩ =>
    let answered := ⟨fetch, t.world.db.answer t.page.userId fetch, t.world.messages⟩
    { t with fetches := t.fetches.set k answered }
  | _ => t

def arrive (t : Tab) (k : Nat) : Tab :=
  match t.fetches[k]? with
  | some ⟨fetch, some answer, _⟩ =>
    { t with page := t.page.onAnswer fetch answer, fetches := t.fetches.eraseIdx k }
  | _ => t

def step (t : Tab) : Event → Tab
  | .server e            => t.onServer e
  | .connect             => t.connect
  | .chatWith id         => t.call (·.chatWith id)
  | .popstate location   => t.call (·.updateCurrentChat location)
  | .loadMoreOldMessages => t.loadMoreOldMessages
  | .chatSearchBox text  => { t with page := { t.page with chatSearchBox := text } }
  | .showChats chats     => { t with page := { t.page with chats } }
  | .answer k            => t.answer k
  | .arrive k            => t.arrive k

-- The page right after its load handler.
def load (w : World) (userId : UserId) (chats : List User) (location : Option UserId) : Tab :=
  Tab.mk w (.render userId chats) none [] |>.call (·.onLoad location)

-- No response with messages is to come any more.
def Idle (t : Tab) : Prop :=
  ∀ a ∈ t.fetches, a.fetch.query = none

-- No message of the chat was stored before this one.
def Oldest (t : Tab) (chatId : UserId) (m : Message) : Prop :=
  ∀ m' ∈ t.world.messages.takeWhile (· ≠ m), ¬m'.Between t.page.userId chatId

-- The messages on the page are those of the chat, and if it tells that there are no older ones, it is so.
structure ShowsChat (t : Tab) (chatId : UserId) : Prop where
  between : ∀ m ∈ t.page.messagesBuffer, m.Between t.page.userId chatId
  oldest  : t.page.noMoreOldMessages → ∀ m, t.page.messagesBuffer.head? = some m → t.Oldest chatId m

def ShowsSelectedChat (t : Tab) : Prop :=
  ∀ chatId, t.page.currentChatId = some chatId → t.Idle → t.ShowsChat chatId

-- The response to a `loadMessages` for the chat is still to come, and will replace what is on the page.
def Loading (t : Tab) (chatId : UserId) : Prop :=
  ∃ a ∈ t.fetches, a.fetch = .loadMessages chatId

-- The chat has a node, so that selecting it loads it. A chat without one may be selected as well if nothing
-- has to be loaded: when a response for it is still to come, when there are no messages on the page, or
-- when it is the chat on the page and a search has taken its node away.
def Selectable (t : Tab) (chatId : UserId) : Prop :=
  (t.page.chatNode chatId).isSome ∨ t.Loading chatId ∨ t.ShowsChat chatId

-- These messages may come in response to this fetch while the chat is selected.
def Fits (t : Tab) (chatId : UserId) : Page.Fetch → List Message → Prop
  | .loadMessages _, messages => messages = []
  | .loadMoreOldMessages chatId' startingPoint, [] => ∀ m, t.page.messagesBuffer.head? = some m →
    (chatId' = chatId ∧ startingPoint = some m.id) ∨ t.Oldest chatId m
  | .loadMoreOldMessages chatId' _, m :: _ =>
    chatId' = chatId ∧ (t.page.noMoreOldMessages = false ∨ t.Oldest chatId m)
  | .popOrFetchChatNode _, _ => True

-- Unless the page is about to load the selected chat, a response fits it, and the first message to come
-- into an empty chat without older messages is its oldest one.
def Orderly (t : Tab) : Event → Prop
  | .chatWith chatId        => t.Selectable chatId
  | .popstate (some chatId) => t.Selectable chatId
  | .server e => ∀ chatId, t.page.currentChatId = some chatId → ¬t.Loading chatId →
    t.page.messagesBuffer = [] → t.page.noMoreOldMessages →
    ∀ m ∈ t.events (t.world.step e), m.Between t.page.userId chatId → t.Oldest chatId m
  | .arrive k => ∀ chatId, t.page.currentChatId = some chatId → ¬t.Loading chatId →
    ∀ fetch messages stored, t.fetches[k]? = some ⟨fetch, some (.messages messages), stored⟩ →
    t.Fits chatId fetch messages
  | _ => True

-- The messages of the chat in the order of the store.
def history (t : Tab) (chatId : UserId) : List Message :=
  t.world.messages.filter (·.Between t.page.userId chatId)

-- What has been broadcast to the subscription of the page, and has not come to the page.
def queued (t : Tab) : List Message :=
  match t.stream with
  | some i => t.world.queuedOn i
  | none   => []

-- The messages of the chat which are on their way to the page, or will be.
def due (t : Tab) (chatId : UserId) : List Message :=
  (t.queued ++ t.world.pending).filter (·.Between t.page.userId chatId)

-- The messages of the chat which have been stored since the store held these.
def since (t : Tab) (chatId : UserId) (stored : List Message) : List Message :=
  (t.world.messages.drop stored.length).filter (·.Between t.page.userId chatId)

-- All that is under way has come to the page.
structure Settled (t : Tab) : Prop where
  idle    : t.Idle
  sent    : t.world.pending = []
  drained : ∀ i, t.stream = some i → ∃ st, t.world.streams[i]? = some st ∧ st.Undisturbed ∧
    st.Drained t.world.hub

-- The page has the chat from some message on.
structure Gapless (t : Tab) (chatId : UserId) : Prop where
  suffix : t.page.messagesBuffer <:+ t.history chatId
  once   : (t.page.messagesBuffer.map (·.id)).Nodup

-- The first messages of the chat on the page, or older ones right before those which are there.
def Joins (t : Tab) (chatId : UserId) (stored : List Message) : Option MessageId → Prop
  | none    => t.page.messagesBuffer = [] ∧ t.due chatId = t.since chatId stored
  | some id => t.page.messagesBuffer.head?.map (·.id) = some id

-- The chat stays selected. When the response to `loadMessages` comes, what is on its way are the messages
-- which have been stored since, and from then on the messages of the chat are broadcast in the order of
-- the store to the subscription of the page. Older messages come from where the page begins.
def Seamless (t : Tab) (chatId : UserId) : Event → Prop
  | .chatWith _           => False
  | .popstate _           => False
  | .server (.announce m) => t.page.listening → ¬t.Loading chatId → m ∈ t.world.pending →
    m.Between t.page.userId chatId → t.stream ≠ none ∧ t.world.Unblocked (.announce m) ∧
      (t.world.pending.filter (·.Between t.page.userId chatId)).head? = some m
  | .arrive k => ∀ fetch messages stored,
    t.fetches[k]? = some ⟨fetch, some (.messages messages), stored⟩ → match fetch with
    | .loadMessages _                      => t.due chatId = t.since chatId stored
    | .loadMoreOldMessages _ startingPoint => ¬t.Loading chatId → messages ≠ [] →
      t.Joins chatId stored startingPoint
    | .popOrFetchChatNode _                => True
  | _ => True

def system (w : World) (userId : UserId) (chats : List User) (location : Option UserId) :
    System Tab Event where
  init := load w userId chats location
  step := step

end Tab
end Pheidippides
