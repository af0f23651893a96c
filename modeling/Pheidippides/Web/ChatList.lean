import Pheidippides.Primitives.System
import Pheidippides.Web.Page

namespace Pheidippides

-- The chat list of a page outside of the search mode, and the store. `fetches` are the fetches of nodes
-- whose responses have not come yet, in their order.
structure ChatList where
  db      : MockDb
  page    : Page
  fetches : List Page.Fetch

namespace ChatList

-- The list as it is rendered.
def render (db : MockDb) (userId : UserId) (chats : List User) : ChatList where
  db      := db
  page    := .render userId chats
  fetches := []

inductive Event
  | live (m : Message)
  | arrive (k : Nat)

-- A message of the user is stored and comes to the page. Others are not sent to it.
def live (l : ChatList) (m : Message) : ChatList :=
  if m.Concerns l.page.userId then
    let (page, fetch) := l.page.onMessage m
    { db := (l.db.createMessage m).2, page, fetches := l.fetches ++ fetch.toList }
  else
    l

def arrive (l : ChatList) (k : Nat) : ChatList :=
  match l.fetches[k]? with
  | some fetch =>
    { l with
      page    := l.page.onAnswer fetch (l.db.answer l.page.userId fetch)
      fetches := l.fetches.eraseIdx k }
  | none => l

def step (l : ChatList) : Event → ChatList
  | .live m   => l.live m
  | .arrive k => l.arrive k

def system (db : MockDb) (userId : UserId) (chats : List User) : System ChatList Event where
  init := render db userId chats
  step := step

-- Once all responses have come, the list is the one which the server would render, with each chat once.
structure UpToDate (l : ChatList) : Prop where
  rendered : l.db.findUsersChats l.page.userId = .ok l.page.chats
  once     : (l.page.chats.map (·.id)).Nodup

def Tracks (l : ChatList) : Prop :=
  l.fetches = [] → l.UpToDate

-- The chat of a message, as the page sees it.
def chatId (l : ChatList) (m : Message) : UserId :=
  Page.messageChatId l.page.userId m

-- A node for the chat is to come, and it is the one which is in the rendered list.
def Fetchable (l : ChatList) (chatId : UserId) : Prop :=
  ∃ users name, l.db.fetchUsers = .ok users ∧ MockDb.usernames users chatId = some name ∧
    DataAccess.defaultFetchUser users chatId = some ⟨name, chatId⟩

-- A chat in the list moves while no node is awaited, a chat without a node is not awaited yet and is that
-- of a known user, and the nodes come in the order in which they were asked for.
def Orderly (l : ChatList) : Event → Prop
  | .live m => m.Concerns l.page.userId →
    if (l.page.chatNode (l.chatId m)).isSome then l.fetches = []
    else .popOrFetchChatNode (l.chatId m) ∉ l.fetches ∧ l.Fetchable (l.chatId m)
  | .arrive k => k < l.fetches.length → k = 0

end ChatList
end Pheidippides
