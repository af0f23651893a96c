import Pheidippides.Objects.MockDb

namespace Pheidippides

-- The chat page. `chats` are the nodes of its chat list in their order. `listening` tells whether the load
-- handler has got to its end, where it has set up the event source and the listeners, and `drawn` whether
-- there is the element by which one loads older messages.
structure Page where
  userId            : UserId
  currentChatId     : Option UserId
  messagesBuffer    : List Message
  noMoreOldMessages : Bool
  chats             : List User
  chatSearchBox     : String
  listening         : Bool
  drawn             : Bool
  deriving DecidableEq, Repr

namespace Page

-- What the functions of the page fetch, by what goes into the url.
inductive Fetch
  | loadMessages (chatId : UserId)
  | loadMoreOldMessages (chatId : UserId) (startingPoint : Option MessageId)
  | popOrFetchChatNode (chatId : UserId)
  deriving DecidableEq, Repr

-- The chat and the starting point in a url of messages.
def Fetch.query : Fetch → Option (UserId × Option MessageId)
  | loadMessages chatId                      => some (chatId, none)
  | loadMoreOldMessages chatId startingPoint => some (chatId, startingPoint)
  | popOrFetchChatNode _                     => none

-- A response which is no success leads to an error message, or to an exception.
inductive Answer
  | messages (messages : List Message)
  | chat (chat : Option User)
  | failure
  deriving DecidableEq, Repr

def render (userId : UserId) (chats : List User) : Page where
  userId            := userId
  currentChatId     := none
  messagesBuffer    := []
  noMoreOldMessages := false
  chats             := chats
  chatSearchBox     := ""
  listening         := false
  drawn             := false

-- `document.getElementById("chat_" + chatId)`
def chatNode (page : Page) (chatId : UserId) : Option User :=
  page.chats.find? (·.id = chatId)

def redrawMessages (page : Page) : Page :=
  { page with drawn := true }

-- `location` is the chat in the address. A chat without a node makes the function throw before it comes
-- to load the messages.
def updateCurrentChat (page : Page) (location : Option UserId) : Page × Option Fetch :=
  match location with
  | none => ({ page with currentChatId := none, drawn := false }, none)
  | some chatId =>
    let page := { page with currentChatId := some chatId }
    (page, (page.chatNode chatId).map fun _ => .loadMessages chatId)

-- Sets the address first, if it is not that of the chat already.
def chatWith (page : Page) (id : UserId) : Page × Option Fetch :=
  page.updateCurrentChat (some id)

def onLoad (page : Page) (location : Option UserId) : Page × Option Fetch :=
  let (page, fetch) := page.updateCurrentChat location
  ({ page with listening := location.all fun chatId => (page.chatNode chatId).isSome }, fetch)

-- The rest of `loadMessages` after its fetch.
def onMessagesLoaded (page : Page) (messages : List Message) : Page :=
  { page with messagesBuffer := messages, noMoreOldMessages := false }.redrawMessages

-- Called by scrolling, or by the element. Without a chat the url is none which the server knows.
def loadMoreOldMessages (page : Page) : Option Fetch :=
  match page.noMoreOldMessages, page.currentChatId with
  | false, some chatId => some <| .loadMoreOldMessages chatId (page.messagesBuffer.head?.map (·.id))
  | _, _               => none

-- The rest of `loadMoreOldMessages` after its fetch.
def onOldMessagesLoaded (page : Page) (fetchedMessages : List Message) : Page :=
  if fetchedMessages = [] then
    { page with noMoreOldMessages := true }.redrawMessages
  else
    { page with messagesBuffer := fetchedMessages ++ page.messagesBuffer }.redrawMessages

-- A node that is in the list is moved at once.
def moveChatToTop (page : Page) (messageChatId : UserId) : Page × Option Fetch :=
  match page.chatNode messageChatId with
  | some chat => ({ page with chats := chat :: page.chats.eraseP (·.id = messageChatId) }, none)
  | none      => (page, some <| .popOrFetchChatNode messageChatId)

-- The rest of `moveChatToTop` after the fetch of a node. An empty response makes it throw.
def onChatFetched (page : Page) (chat : Option User) : Page :=
  { page with chats := chat.toList ++ page.chats }

-- The message is one of the current chat.
def InCurrentChat (page : Page) (m : Message) : Prop :=
  ∃ chatId, page.currentChatId = some chatId ∧ m.Between page.userId chatId

instance (page : Page) (m : Message) : Decidable (page.InCurrentChat m) :=
  match h : page.currentChatId with
  | none        => isFalse fun ⟨_, hc, _⟩ => by simp [h] at hc
  | some chatId => decidable_of_iff (m.Between page.userId chatId) (by simp [InCurrentChat, h])

def push (page : Page) (m : Message) : Page :=
  if page.InCurrentChat m then
    { page with messagesBuffer := page.messagesBuffer ++ [m] }.redrawMessages
  else
    page

def messageChatId (thisUserId : UserId) (m : Message) : UserId :=
  if m.sender = thisUserId then m.receiver else m.sender

-- The handler of the event source. There are no moves as long as there is something in the search box.
def onMessage (page : Page) (m : Message) : Page × Option Fetch :=
  let page := page.push m
  if page.chatSearchBox = "" then
    page.moveChatToTop <| messageChatId page.userId m
  else
    (page, none)

-- A response comes in.
def onAnswer (page : Page) : Fetch → Answer → Page
  | .loadMessages _, .messages messages          => page.onMessagesLoaded messages
  | .loadMoreOldMessages _ _, .messages messages => page.onOldMessagesLoaded messages
  | .popOrFetchChatNode _, .chat chat            => page.onChatFetched chat
  | _, _                                         => page

end Page

namespace MockDb

-- What the page gets out of the responses to its fetches, for a user who is logged in.
def answer (db : MockDb) (userId : UserId) : Page.Fetch → Page.Answer
  | .loadMessages chatId => lastMessages chatId none
  | .loadMoreOldMessages chatId startingPoint => lastMessages chatId startingPoint
  | .popOrFetchChatNode chatId =>
    match db.fetchUsers with
    | .ok users => .chat <| DataAccess.defaultFetchUser users chatId
    | .error _  => .failure
where
  lastMessages (chatId : UserId) (startingPoint : Option MessageId) : Page.Answer :=
    match db.fetchLastMessagesInChat userId chatId startingPoint with
    | .ok messages => .messages messages.reverse
    | .error _     => .failure

end MockDb
end Pheidippides
