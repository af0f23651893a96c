import Pheidippides.Utils.Http

namespace Pheidippides

abbrev SessionId := String

def sessionIdCookie : String := "_pheidippides_sid"

structure SessionInfo where
  userId : UserId
  deriving DecidableEq, Repr

-- `SESSION_INFO`. Its lock is not modelled, since no operation panics while it holds it.
abbrev Sessions := SessionId → Option SessionInfo

namespace Sessions

def empty : Sessions :=
  fun _ => none

def updateSessionInfo (sessions : Sessions) (sessionId : SessionId) (info : SessionInfo) : Sessions :=
  Function.update sessions sessionId (some info)

def getSessionInfo (sessions : Sessions) (sessionId : SessionId) : Option SessionInfo :=
  sessions sessionId

def removeSessionInfo (sessions : Sessions) (sessionId : SessionId) : Sessions :=
  Function.update sessions sessionId none

end Sessions

def getAuthorization [Unicode] (sessions : Sessions) (headers : Headers) : Option UserId :=
  match getCookiesHashmap headers with
  | .error _ => none
  | .ok cookies =>
    match cookies sessionIdCookie with
    | none           => none
    | some sessionId => (sessions.getSessionInfo sessionId).map (·.userId)

end Pheidippides
