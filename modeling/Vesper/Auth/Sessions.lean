import Vesper.Server.Database
import Vesper.Lib.Machine

/-!
# Accounts and their sessions

The calls of `AuthService` that issue, rotate and revoke refresh tokens. A call suspends at every access
to the database. The database reads what is committed. `refresh` and `register` are transactions that
write last, so that their writes are done as they commit. The two statements with which a password is
changed are a transaction whose deletion takes effect as it commits, on the rows that it found before.
-/

namespace Vesper.Auth
open Vesper.Server (UserId Time Text)

/-! ## Tokens and passwords -/

/-- What `generateToken` makes, numbered in the order in which it is made. -/
abbrev Token := Nat

/-- SHA-256 is taken to be free of collisions. -/
structure TokenHash where
  token : Token
  deriving DecidableEq, Repr

def hashToken (token : Token) : TokenHash := ⟨token⟩

abbrev PasswordHash := Text

structure Bcrypt where
  hash : Text → PasswordHash
  compare : Text → PasswordHash → Bool

/-- Passwords that are stored as they are. -/
def Bcrypt.plain : Bcrypt := ⟨id, fun password hash => password = hash⟩

/-! ## The tables -/

inductive Role
  | USER | ADMIN
  deriving DecidableEq, Repr

structure User where
  id : UserId
  email : Text
  nickname : Text
  password : PasswordHash
  role : Role
  avatarUrl : Option Text
  isEmailVerified : Bool
  emailVerifyToken : Option TokenHash
  passwordResetToken : Option TokenHash
  passwordResetExpires : Option Time
  deriving DecidableEq, Repr

/-- `basis` counts the changes of the password before the one that was verified for this session. The
source has no such field, and nothing reads it. -/
structure Session where
  id : Nat
  userId : UserId
  refreshToken : TokenHash
  prevRefreshToken : Option TokenHash
  userAgent : Text
  createdAt : Time
  expiresAt : Time
  basis : Nat
  deriving DecidableEq, Repr

structure JWTPayload where
  sub : UserId
  email : Text
  nickname : Text
  role : Role
  avatarUrl : Option Text
  deriving DecidableEq, Repr

/-- The access token is what its payload says. -/
structure TokenPair where
  accessToken : JWTPayload
  refreshToken : Token
  deriving DecidableEq, Repr

/-! ## Calls -/

inductive AuthError
  | badRequest (message : String)
  | conflict (message : String)
  | unauthorized (message : String)
  /-- A query of Prisma found no row. -/
  | recordNotFound
  deriving DecidableEq, Repr

inductive Reply
  | tokens (pair : TokenPair)
  | done (message : Option String)
  | failed (error : AuthError)
  deriving DecidableEq, Repr

/-- For what a session is rotated: a password that was verified, as the one after so many changes, or a
refresh token, with the session that it was found in. -/
inductive Grounds
  | password (version : Nat)
  | session (token : Token) (found : Session)
  deriving DecidableEq, Repr

def Grounds.basis : Grounds → Nat
  | password version => version
  | session _ found => found.basis

/-- `changePassword`, or `resetPassword` where `reset` is set. -/
structure Change where
  userId : UserId
  password : PasswordHash
  reset : Bool
  deriving DecidableEq, Repr

structure RegisterDto where
  email : Text
  nickname : Text
  password : Text
  confirmPassword : Text
  tosAccepted : Bool
  deriving DecidableEq, Repr

/-- The rest of a call from one access to the database on. -/
inductive Call
  | register (dto : RegisterDto) (userAgent : Text)
  | verifyEmail (token : Token)
  | verifyUpdate (userId : UserId)
  | login (email password : Text) (userAgent : Text)
  | findExisting (userId : UserId) (userAgent : Text) (version : Nat)
  | countSessions (userId : UserId) (userAgent : Text) (version : Nat)
  | evict (userId : UserId) (userAgent : Text) (version : Nat) (sessionId : Nat)
  | createTokens (userId : UserId) (userAgent : Text) (version : Nat)
  | create (userId : UserId) (userAgent : Text) (version : Nat) (pair : TokenPair)
  | refresh (token : Token)
  | rotateTokens (grounds : Grounds) (sessionId : Nat) (userId : UserId)
  | rotateCurrent (grounds : Grounds) (sessionId : Nat) (pair : TokenPair)
  | rotateUpdate (grounds : Grounds) (sessionId : Nat) (pair : TokenPair) (current : Option TokenHash)
  | logout (token : Token)
  | logoutAll (userId : UserId)
  | forgotPassword (email : Text)
  | forgotUpdate (userId : UserId) (token : Token) (expires : Time)
  | changePassword (userId : UserId) (oldPass newPass : Text)
  | resetPassword (token : Token) (newPassword : Text)
  | revoke (change : Change)
  | commit (change : Change) (ids : List Nat)
  deriving DecidableEq, Repr

/-- What has become of refresh tokens. -/
inductive Entry
  /-- Returned by a login or a registration. -/
  | issued (token : Token) (expiresAt : Time)
  /-- `new` was returned by `refresh`, for `old`. -/
  | refreshed (old new : Token) (expiresAt : Time)
  /-- Its session was deleted, or taken over by a login. -/
  | ended (token : Token)
  deriving DecidableEq, Repr

/-- The source keeps neither `version` nor `journal`, and no step reads them. -/
structure AuthServer where
  users : List User
  sessions : List Session
  nextUserId : UserId
  nextSessionId : Nat
  tokens : Nat
  calls : List Call
  reply : Option Reply
  /-- How often the password has been changed. -/
  version : UserId → Nat
  journal : List Entry

namespace AuthServer

def MAX_SESSIONS : Nat := 5
def REFRESH_TOKEN_EXPIRY_MS : Int := 7 * 24 * 60 * 60 * 1000
def RESET_TOKEN_EXPIRY_MS : Int := 60 * 60 * 1000

variable (s : AuthServer) (bcrypt : Bcrypt) (now : Time)

def suspend (call : Call) : AuthServer := { s with calls := s.calls ++ [call] }
def answer (reply : Reply) : AuthServer := { s with reply := some reply }
def throw (error : AuthError) : AuthServer := s.answer (.failed error)
def note (entries : List Entry) : AuthServer := { s with journal := s.journal ++ entries }

def findUser (id : UserId) : Option User := s.users.find? (·.id = id)
def findSession (id : Nat) : Option Session := s.sessions.find? (·.id = id)

variable {s} in
theorem findSession_spec {id : Nat} {session : Session} (h : s.findSession id = some session) :
    session ∈ s.sessions ∧ session.id = id := by
  have hid := List.find?_some h
  exact ⟨List.mem_of_find?_eq_some h, of_decide_eq_true hid⟩

def updateUser (id : UserId) (data : User → User) : AuthServer :=
  { s with users := s.users.map fun user => if user.id = id then data user else user }

def updateSession (id : Nat) (data : Session → Session) : AuthServer :=
  { s with sessions := s.sessions.map fun session => if session.id = id then data session else session }

/-- Deletes the sessions that meet `q`. -/
def deleteSessions (q : Session → Bool) : AuthServer :=
  ({ s with sessions := s.sessions.filter (! q ·) } : AuthServer).note
    ((s.sessions.filter q).map (.ended ·.refreshToken.token))

def payload (user : User) : JWTPayload := ⟨user.id, user.email, user.nickname, user.role, user.avatarUrl⟩

/-- `generateTokens`, and what the call goes on with. -/
def generateTokens (userId : UserId) (rest : TokenPair → Call) : AuthServer :=
  match s.findUser userId with
  | none => s.throw .recordNotFound
  | some user => ({ s with tokens := s.tokens + 1 } : AuthServer).suspend (rest ⟨payload user, s.tokens⟩)

def createSession (userId : UserId) (userAgent : Text) (basis : Nat) (pair : TokenPair) : AuthServer :=
  (({ s with
    sessions := s.sessions ++ [⟨s.nextSessionId, userId, hashToken pair.refreshToken, none, userAgent, now,
      now + REFRESH_TOKEN_EXPIRY_MS, basis⟩]
    nextSessionId := s.nextSessionId + 1 } : AuthServer).note
      [.issued pair.refreshToken (now + REFRESH_TOKEN_EXPIRY_MS)]).answer (.tokens pair)

def registerUser (dto : RegisterDto) (userAgent : Text) : AuthServer :=
  if s.users.any fun user => user.email = dto.email ∨ user.nickname = dto.nickname then
    s.throw (.conflict "User with this email or nickname already exists")
  else
    let user : User := ⟨s.nextUserId, dto.email, dto.nickname, bcrypt.hash dto.password, .USER, none, false,
      some (hashToken s.tokens), none, none⟩
    ({ s with
      users := s.users ++ [user]
      nextUserId := s.nextUserId + 1
      tokens := s.tokens + 2 } : AuthServer).createSession now user.id userAgent (s.version user.id)
        ⟨payload user, s.tokens + 1⟩

def changeUser (change : Change) (user : User) : User :=
  if change.reset then
    { user with password := change.password, passwordResetToken := none, passwordResetExpires := none }
  else { user with password := change.password }

def run : Call → AuthServer
  | .register dto userAgent =>
    if ¬dto.tosAccepted then s.throw (.badRequest "You must accept the Terms of Service")
    else if dto.password ≠ dto.confirmPassword then s.throw (.badRequest "Passwords do not match")
    else s.registerUser bcrypt now dto userAgent
  | .verifyEmail token =>
    match s.users.find? (·.emailVerifyToken = some (hashToken token)) with
    | none => s.throw (.badRequest "Invalid token")
    | some user => s.suspend (.verifyUpdate user.id)
  | .verifyUpdate userId =>
    (s.updateUser userId ({ · with isEmailVerified := true, emailVerifyToken := none })).answer
      (.done (some "Email verified"))
  | .login email password userAgent =>
    match s.users.find? (·.email = email) with
    | none => s.throw (.unauthorized "Invalid credentials")
    | some user =>
      if ¬bcrypt.compare password user.password then s.throw (.unauthorized "Invalid credentials")
      else if ¬user.isEmailVerified then s.throw (.unauthorized "Please verify your email first")
      else s.suspend (.findExisting user.id userAgent (s.version user.id))
  | .findExisting userId userAgent version =>
    match s.sessions.find? fun session => session.userId = userId ∧ session.userAgent = userAgent with
    | some existing => s.suspend (.rotateTokens (.password version) existing.id userId)
    | none => s.suspend (.countSessions userId userAgent version)
  | .countSessions userId userAgent version =>
    let activeSessions := (s.sessions.filter (·.userId = userId)).insertionSort (·.createdAt ≤ ·.createdAt)
    if MAX_SESSIONS ≤ activeSessions.length then
      activeSessions.head?.elim s fun oldest => s.suspend (.evict userId userAgent version oldest.id)
    else s.suspend (.createTokens userId userAgent version)
  | .evict userId userAgent version sessionId =>
    if (s.findSession sessionId).isNone then s.throw .recordNotFound
    else (s.deleteSessions (·.id = sessionId)).suspend (.createTokens userId userAgent version)
  | .createTokens userId userAgent version => s.generateTokens userId (.create userId userAgent version)
  | .create userId userAgent version pair => s.createSession now userId userAgent version pair
  | .refresh token =>
    match s.sessions.find? (·.refreshToken = hashToken token) with
    | none => s.throw (.unauthorized "Invalid or expired refresh token")
    | some session =>
      -- the deletion of the expired session is rolled back by what is thrown after it
      if session.expiresAt < now then
        s.throw (.unauthorized "Refresh token expired, please log in again")
      else s.suspend (.rotateTokens (.session token session) session.id session.userId)
  | .rotateTokens grounds sessionId userId => s.generateTokens userId (.rotateCurrent grounds sessionId)
  | .rotateCurrent grounds sessionId pair =>
    s.suspend (.rotateUpdate grounds sessionId pair ((s.findSession sessionId).map (·.refreshToken)))
  | .rotateUpdate grounds sessionId pair current =>
    match s.findSession sessionId with
    | none => s.throw .recordNotFound
    | some session =>
      ((s.updateSession sessionId ({ · with
        refreshToken := hashToken pair.refreshToken
        prevRefreshToken := current
        expiresAt := now + REFRESH_TOKEN_EXPIRY_MS
        basis := grounds.basis })).note (match grounds with
          | .password _ => [.ended session.refreshToken.token,
              .issued pair.refreshToken (now + REFRESH_TOKEN_EXPIRY_MS)]
          | .session token _ =>
              [.refreshed token pair.refreshToken (now + REFRESH_TOKEN_EXPIRY_MS)])).answer (.tokens pair)
  | .logout token => (s.deleteSessions (·.refreshToken = hashToken token)).answer (.done none)
  | .logoutAll userId => (s.deleteSessions (·.userId = userId)).answer (.done none)
  | .forgotPassword email =>
    match s.users.find? (·.email = email) with
    | none => s.answer (.done none)
    | some user =>
      if ¬user.isEmailVerified then s.answer (.done none)
      else ({ s with tokens := s.tokens + 1 } : AuthServer).suspend
        (.forgotUpdate user.id s.tokens (now + RESET_TOKEN_EXPIRY_MS))
  | .forgotUpdate userId token expires =>
    (s.updateUser userId ({ · with
      passwordResetToken := some (hashToken token), passwordResetExpires := some expires })).answer (.done none)
  | .changePassword userId oldPass newPass =>
    match s.findUser userId with
    | none => s.throw .recordNotFound
    | some user =>
      if ¬bcrypt.compare oldPass user.password then s.throw (.unauthorized "Current password incorrect")
      else s.suspend (.revoke ⟨userId, bcrypt.hash newPass, false⟩)
  | .resetPassword token newPassword =>
    match s.users.find? fun user => user.passwordResetToken = some (hashToken token) ∧
        user.passwordResetExpires.any (now < ·) with
    | none => s.throw (.badRequest "Invalid or expired token")
    | some user => s.suspend (.revoke ⟨user.id, bcrypt.hash newPassword, true⟩)
  | .revoke change =>
    s.suspend (.commit change ((s.sessions.filter (·.userId = change.userId)).map (·.id)))
  | .commit change ids =>
    (({ (s.updateUser change.userId (changeUser change)) with
      version := fun userId => if userId = change.userId then s.version userId + 1 else s.version userId } :
      AuthServer).deleteSessions (·.id ∈ ids)).answer
        (.done (if change.reset then none else some "Password updated"))

end AuthServer

/-! ## The machine -/

inductive AuthInput
  | call (call : Call)
  | resume (call : Nat)
  deriving DecidableEq, Repr

/-- What a client may ask for. -/
def Call.request : Call → Bool
  | register .. | verifyEmail _ | login .. | refresh _ | logout _ | logoutAll _ | forgotPassword _
  | changePassword .. | resetPassword .. => true
  | _ => false

/-- The user whose row the call writes. -/
def Call.writes : Call → Option UserId
  | verifyUpdate userId | forgotUpdate userId .. => some userId
  | revoke change => some change.userId
  | _ => none

/-- The user whose row is locked until the call goes on. -/
def Call.locks : Call → Option UserId
  | commit change _ => some change.userId
  | _ => none

namespace AuthServer
variable (s : AuthServer) (bcrypt : Bcrypt)

def Enabled : AuthInput → Prop
  | .call call => call.request
  | .resume j => ∃ call ∈ s.calls[j]?, ∀ userId ∈ call.writes, ∀ other ∈ s.calls, other.locks ≠ some userId

instance : (input : AuthInput) → Decidable (s.Enabled input)
  | .call _ => inferInstanceAs (Decidable (_ = true))
  | .resume _ => inferInstanceAs (Decidable (∃ call ∈ _, _))

def step (now : Time) : AuthInput → AuthServer
  | .call call => s.suspend call
  | .resume j => (s.calls[j]?).elim s (({ s with calls := s.calls.eraseIdx j } : AuthServer).run bcrypt now)

def next (e : Time × AuthInput) : AuthServer := ({ s with reply := none } : AuthServer).step bcrypt e.1 e.2

def start : AuthServer := ⟨[], [], 1, 1, 0, [], none, fun _ => 0, []⟩

end AuthServer

/-- All runs of the calls, interleaved at their accesses to the database. -/
def authServer (bcrypt : Bcrypt) : Machine AuthServer (Time × AuthInput) where
  init := .start
  enabled s e := s.Enabled e.2
  next s e := s.next bcrypt e

instance {bcrypt : Bcrypt} (s : AuthServer) (e : Time × AuthInput) : Decidable ((authServer bcrypt).enabled s e) :=
  inferInstanceAs (Decidable (s.Enabled e.2))

/-- Alice registers and verifies her address. -/
def registered : List (Time × AuthInput) :=
  [.call (.register ⟨[97], [97], [1], [1], true⟩ [0]), .resume 0, .call (.verifyEmail 0), .resume 0,
    .resume 0].map (0, ·)

end Vesper.Auth
