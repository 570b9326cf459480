import Vesper.Server.Database
import Vesper.Auth.Sessions

/-!
# Two-factor protection

The calls of `AuthService` and `KeysService` that set up, lift or ask for the second factor. Each runs to
its end before the next one starts. An account is protected when the second factor is enabled.
-/

namespace Vesper.Auth
open Vesper.Server (UserId Time Text)

/-! ## The calls -/

abbrev Secret := Text

/-- `authenticator` of otplib: the codes that are valid for a secret change with time. -/
structure Authenticator where
  check : Text → Secret → Time → Bool

structure Account where
  id : UserId
  email : Text
  password : PasswordHash
  isEmailVerified : Bool
  twoFactorSecret : Option Secret
  twoFactorEnabled : Bool
  encryptedPrivateKey : Option Text
  privateKeySalt : Option Text
  encryptedPrivateKeyV2 : Option Text
  deriving DecidableEq, Repr

/-- `secret` is what `generateSecret` gives, which is never empty. -/
inductive AccountCall
  | setup2FA (userId : UserId) (secret : Secret)
  | enable2FA (userId : UserId) (token : Text)
  | disable2FA (userId : UserId) (token password : Text)
  | login (email password : Text)
  | deleteAccount (userId : UserId) (password : Text) (twoFactorCode : Option Text)
  | saveRecoveryKey (userId : UserId) (encryptedBlob salt : Text) (isReset : Bool) (twoFactorCode : Option Text)
  | saveRecoveryV2 (userId : UserId) (encryptedBlob : Text) (isReset : Bool) (twoFactorCode : Option Text)
  deriving DecidableEq, Repr

inductive AccountReply
  | secret (secret : Secret)
  /-- `issueTokens` for the user. -/
  | tokens (userId : UserId)
  | done
  | failed (error : AuthError)
  deriving DecidableEq, Repr

structure Accounts where
  users : List Account
  reply : Option AccountReply
  deriving DecidableEq

namespace Accounts
variable (s : Accounts) (bcrypt : Bcrypt) (authenticator : Authenticator) (now : Time)

def findUser (userId : UserId) : Option Account := s.users.find? (·.id = userId)

def answer (reply : AccountReply) : Accounts := { s with reply := some reply }

def throw (error : AuthError) : Accounts := s.answer (.failed error)

def update (userId : UserId) (data : Account → Account) (reply : AccountReply) : Accounts :=
  ({ s with users := s.users.map fun user => if user.id = userId then data user else user } : Accounts).answer reply

/-- A code that was given, and is not the empty text. -/
def given (twoFactorCode : Option Text) : Option Text := twoFactorCode.filter (· ≠ [])

/-- `verify2FAToken`, and the same check in `KeysService`: the error, if there is one. -/
def verify2FAToken (user : Account) (token : Option Text) : Option AuthError :=
  if user.twoFactorEnabled then
    match given token with
    | none => some (.unauthorized "Потрібен код 2FA")
    | some token =>
      if user.twoFactorSecret.any (authenticator.check token · now) then none
      else some (.unauthorized "Невірний код 2FA")
  else none

/-- What `saveRecoveryKey` and `saveRecoveryV2` share. -/
def saveRecovery (userId : UserId) (isReset : Bool) (twoFactorCode : Option Text) (data : Account → Account) :
    Accounts :=
  match s.findUser userId with
  | none => s.throw .recordNotFound
  | some user =>
    match if isReset then verify2FAToken authenticator now user twoFactorCode else none with
    | some error => s.throw error
    | none => s.update userId data .done

def run : AccountCall → Accounts
  | .setup2FA userId secret =>
    match s.findUser userId with
    | none => s.throw .recordNotFound
    | some _ => s.update userId ({ · with twoFactorSecret := some secret, twoFactorEnabled := false }) (.secret secret)
  | .enable2FA userId token =>
    match s.findUser userId with
    | none => s.throw .recordNotFound
    | some user =>
      match user.twoFactorSecret with
      | none => s.throw (.badRequest "2FA не налаштовано. Спочатку викличте /2fa/setup")
      | some secret =>
        if ¬authenticator.check token secret now then
          s.throw (.badRequest "Невірний код. Перевірте час на пристрої")
        else s.update userId ({ · with twoFactorEnabled := true }) .done
  | .disable2FA userId token password =>
    match s.findUser userId with
    | none => s.throw .recordNotFound
    | some user =>
      if ¬bcrypt.compare password user.password then s.throw (.unauthorized "Невірний пароль")
      else if user.twoFactorEnabled ∧ user.twoFactorSecret.any (¬authenticator.check token · now) then
        s.throw (.unauthorized "Невірний код 2FA")
      else s.update userId ({ · with twoFactorEnabled := false, twoFactorSecret := none }) .done
  | .login email password =>
    match s.users.find? (·.email = email) with
    | none => s.throw (.unauthorized "Invalid credentials")
    | some user =>
      if ¬bcrypt.compare password user.password then s.throw (.unauthorized "Invalid credentials")
      else if ¬user.isEmailVerified then s.throw (.unauthorized "Please verify your email first")
      else s.answer (.tokens user.id)
  | .deleteAccount userId password twoFactorCode =>
    match s.findUser userId with
    | none => s.throw .recordNotFound
    | some user =>
      if ¬bcrypt.compare password user.password then s.throw (.unauthorized "Password incorrect")
      else match verify2FAToken authenticator now user twoFactorCode with
        | some error => s.throw error
        | none => ({ s with users := s.users.filter (·.id ≠ userId) } : Accounts).answer .done
  | .saveRecoveryKey userId encryptedBlob salt isReset twoFactorCode =>
    s.saveRecovery authenticator now userId isReset twoFactorCode
      ({ · with encryptedPrivateKey := some encryptedBlob, privateKeySalt := some salt })
  | .saveRecoveryV2 userId encryptedBlob isReset twoFactorCode =>
    s.saveRecovery authenticator now userId isReset twoFactorCode ({ · with encryptedPrivateKeyV2 := some encryptedBlob })

end Accounts

/-- All sequences of calls, from any accounts. -/
def accountServer (bcrypt : Bcrypt) (authenticator : Authenticator) (users : List Account) :
    Machine Accounts (Time × AccountCall) where
  init := ⟨users, none⟩
  enabled _ _ := True
  next s e := s.run bcrypt authenticator e.1 e.2

/-! ## What protection means -/

/-- The code that the call presents. -/
def AccountCall.code : AccountCall → Option Text
  | setup2FA .. | login .. => none
  | enable2FA _ token | disable2FA _ token _ => some token
  | deleteAccount _ _ twoFactorCode | saveRecoveryKey _ _ _ _ twoFactorCode | saveRecoveryV2 _ _ _ twoFactorCode =>
    Accounts.given twoFactorCode

namespace Accounts

/-- The second factor of the user is enabled, with the secret. -/
def Protected (i : UserId × Secret) (s : Accounts) : Prop :=
  ∃ user, s.findUser i.1 = some user ∧ user.twoFactorEnabled ∧ user.twoFactorSecret = some i.2

section
variable (bcrypt : Bcrypt) (authenticator : Authenticator) (i : UserId × Secret) (s : Accounts) (e : Time × AccountCall)

/-- The call presents a code that is valid for the secret. -/
def Presents : Prop := e.2.code.any (authenticator.check · i.2 e.1)

/-- The user lifts the protection, or gives up the account: with the password, and a valid code. -/
def Lifts : Prop :=
  Presents authenticator i e ∧ ∃ user, s.findUser i.1 = some user ∧ ∃ password, bcrypt.compare password user.password ∧
    ((∃ token, e.2 = .disable2FA i.1 token password) ∨ ∃ code, e.2 = .deleteAccount i.1 password code)

/-- What a step may do to a protected account. -/
structure Upholds : Prop where
  kept : Protected i (s.run bcrypt authenticator e.1 e.2)
  login : (s.run bcrypt authenticator e.1 e.2).reply = some (.tokens i.1) → Presents authenticator i e
  recovery : ∀ before after, s.findUser i.1 = some before →
    (s.run bcrypt authenticator e.1 e.2).findUser i.1 = some after → before.encryptedPrivateKey.isSome →
    after.encryptedPrivateKey = before.encryptedPrivateKey ∧ after.privateKeySalt = before.privateKeySalt ∨
      Presents authenticator i e
  recoveryV2 : ∀ before after, s.findUser i.1 = some before →
    (s.run bcrypt authenticator e.1 e.2).findUser i.1 = some after → before.encryptedPrivateKeyV2.isSome →
    after.encryptedPrivateKeyV2 = before.encryptedPrivateKeyV2 ∨ Presents authenticator i e

end

end Accounts

/-! ## The exact condition -/

def Account.isProtected (user : Account) : Bool := user.twoFactorEnabled && user.twoFactorSecret.isSome

namespace Accounts

/-- Nobody sets the second factor up again, or logs in, while the account is protected, and a recovery
blob that is there is saved as a reset, with a valid code, or as it is. -/
def Spares (bcrypt : Bcrypt) (authenticator : Authenticator) (s : Accounts) (e : Time × AccountCall) : Prop :=
  match e.2 with
  | .setup2FA userId _ => ∀ user ∈ s.findUser userId, ¬user.isProtected
  | .login email password => ∀ user ∈ s.users.find? (·.email = email), bcrypt.compare password user.password →
      user.isEmailVerified → ∀ owner ∈ s.findUser user.id, ¬owner.isProtected
  | .saveRecoveryKey userId encryptedBlob salt isReset twoFactorCode => ∀ user ∈ s.findUser userId,
      user.isProtected → user.encryptedPrivateKey.isSome → isReset ∨
        (∃ code ∈ given twoFactorCode, ∃ secret ∈ user.twoFactorSecret, authenticator.check code secret e.1) ∨
        some encryptedBlob = user.encryptedPrivateKey ∧ some salt = user.privateKeySalt
  | .saveRecoveryV2 userId encryptedBlob isReset twoFactorCode => ∀ user ∈ s.findUser userId,
      user.isProtected → user.encryptedPrivateKeyV2.isSome → isReset ∨
        (∃ code ∈ given twoFactorCode, ∃ secret ∈ user.twoFactorSecret, authenticator.check code secret e.1) ∨
        some encryptedBlob = user.encryptedPrivateKeyV2
  | .enable2FA .. | .disable2FA .. | .deleteAccount .. => True

/-! ## The steps -/

section
variable {bcrypt : Bcrypt} {authenticator : Authenticator} {i : UserId × Secret} {s : Accounts} {now : Time}
  {call : AccountCall} {userId : UserId} {data : Account → Account} {reply : AccountReply}

theorem findUser_update (hid : ∀ user, (data user).id = user.id) (u : UserId) :
    (s.update userId data reply).findUser u = (s.findUser u).map fun user => if u = userId then data user else user := by
  unfold findUser
  change List.find? _ (s.users.map _) = _
  have hkeep : ∀ user : Account, (if user.id = userId then data user else user).id = user.id := by
    intro user
    split
    · exact hid user
    · rfl
  rw [List.find?_map]
  simp only [Function.comp_def, hkeep]
  cases hfind : s.users.find? (·.id = u) with
  | none => rfl
  | some user =>
    have hu := List.find?_some hfind
    replace hu : user.id = u := of_decide_eq_true hu
    rw [Option.map_some, Option.map_some, hu]

/-- A call that only replies. -/
theorem upholds_answer (hi : Protected i s) (hrun : s.run bcrypt authenticator now call = s.answer reply)
    (hreply : reply ≠ .tokens i.1) : Upholds bcrypt authenticator i s (now, call) := by
  have hfind : ∀ u, (s.run bcrypt authenticator now call).findUser u = s.findUser u := fun u => hrun ▸ rfl
  refine ⟨?_, fun h => ?_, fun before after hbefore hafter _ => ?_, fun before after hbefore hafter _ => ?_⟩
  · obtain ⟨user, hget, hprot⟩ := hi
    exact ⟨user, (hfind _).trans hget, hprot⟩
  · have htokens : (s.answer reply).reply = some (.tokens i.1) := hrun ▸ h
    exact absurd (Option.some.inj htokens) hreply
  · cases hbefore.symm.trans ((hfind _).symm.trans hafter)
    exact .inl ⟨rfl, rfl⟩
  · cases hbefore.symm.trans ((hfind _).symm.trans hafter)
    exact .inl rfl

theorem upholds_throw (hi : Protected i s) {error : AuthError}
    (hrun : s.run bcrypt authenticator now call = s.throw error) : Upholds bcrypt authenticator i s (now, call) :=
  upholds_answer hi hrun nofun

/-- A call that updates a row. -/
theorem upholds_update (hi : Protected i s)
    (hrun : s.run bcrypt authenticator now call = s.update userId data reply)
    (hid : ∀ user, (data user).id = user.id) (hreply : reply ≠ .tokens i.1)
    (hkept : i.1 = userId → ∀ user, user.twoFactorEnabled → user.twoFactorSecret = some i.2 →
      (data user).twoFactorEnabled ∧ (data user).twoFactorSecret = some i.2)
    (hrecovery : i.1 = userId → ∀ user ∈ s.findUser i.1, user.encryptedPrivateKey.isSome →
      (data user).encryptedPrivateKey = user.encryptedPrivateKey ∧ (data user).privateKeySalt = user.privateKeySalt ∨
        Presents authenticator i (now, call))
    (hrecoveryV2 : i.1 = userId → ∀ user ∈ s.findUser i.1, user.encryptedPrivateKeyV2.isSome →
      (data user).encryptedPrivateKeyV2 = user.encryptedPrivateKeyV2 ∨ Presents authenticator i (now, call)) :
    Upholds bcrypt authenticator i s (now, call) := by
  obtain ⟨user, hget, henabled, hsecret⟩ := hi
  have hafter : (s.run bcrypt authenticator now call).findUser i.1 =
      some (if i.1 = userId then data user else user) := by
    rw [hrun, findUser_update hid, hget, Option.map_some]
  refine ⟨⟨_, hafter, ?_⟩, fun h => ?_, fun before after hbefore hnext hblob => ?_,
    fun before after hbefore hnext hblob => ?_⟩
  · split
    · exact hkept ‹_› user henabled hsecret
    · exact ⟨henabled, hsecret⟩
  · have htokens : (s.update userId data reply).reply = some (.tokens i.1) := hrun ▸ h
    exact absurd (Option.some.inj htokens) hreply
  · cases hget.symm.trans hbefore
    cases hafter.symm.trans hnext
    split
    · exact hrecovery ‹_› user hget hblob
    · exact .inl ⟨rfl, rfl⟩
  · cases hget.symm.trans hbefore
    cases hafter.symm.trans hnext
    split
    · exact hrecoveryV2 ‹_› user hget hblob
    · exact .inl rfl

theorem protected_iff {u : UserId} : (∃ secret, Protected (u, secret) s) ↔ ∃ user ∈ s.findUser u, user.isProtected := by
  constructor
  · rintro ⟨secret, user, hget, henabled, hsecret⟩
    exact ⟨user, hget, by simp [Account.isProtected, henabled, hsecret]⟩
  · rintro ⟨user, hget, hprot⟩
    obtain ⟨henabled, hsome⟩ := (Bool.and_eq_true _ _).mp hprot
    obtain ⟨secret, hsecret⟩ := Option.isSome_iff_exists.mp hsome
    exact ⟨secret, user, hget, henabled, hsecret⟩

variable (bcrypt authenticator s now)

/-- Every call upholds the protection of every account, or lifts it. -/
abbrev Guards (call : AccountCall) : Prop :=
  ∀ i, Protected i s → Lifts bcrypt authenticator i s (now, call) ∨ Upholds bcrypt authenticator i s (now, call)

theorem setup_iff (userId : UserId) (secret : Secret) :
    Guards bcrypt authenticator s now (.setup2FA userId secret) ↔
      Spares bcrypt authenticator s (now, .setup2FA userId secret) := by
  cases hget : s.findUser userId with
  | none =>
    have hrun : s.run bcrypt authenticator now (.setup2FA userId secret) = s.throw .recordNotFound := by
      rw [run, hget]
    exact iff_of_true (fun i hi => .inr (upholds_throw hi hrun)) fun user huser => by cases hget.symm.trans huser
  | some user =>
    have hrun : s.run bcrypt authenticator now (.setup2FA userId secret) =
        s.update userId ({ · with twoFactorSecret := some secret, twoFactorEnabled := false }) (.secret secret) := by
      rw [run, hget]
    constructor
    · intro hguards owner howner hprot
      obtain ⟨secret', hi⟩ := protected_iff.mpr ⟨owner, howner, hprot⟩
      rcases hguards (userId, secret') hi with ⟨-, _, -, _, -, ⟨token, h⟩ | ⟨code, h⟩⟩ | hupholds
      · cases h
      · cases h
      · obtain ⟨after, hafter, henabled, -⟩ := hupholds.kept
        rw [hrun, findUser_update, hget, Option.map_some, if_pos rfl] at hafter
        · cases hafter
          cases henabled
        · exact fun _ => rfl
    · intro hspares i hi
      have hne : i.1 ≠ userId := by
        rintro rfl
        obtain ⟨owner, howner, hprot⟩ := protected_iff.mp ⟨i.2, hi⟩
        exact hspares owner howner hprot
      exact .inr (upholds_update hi hrun (fun _ => rfl) nofun (fun heq => absurd heq hne)
        (fun heq => absurd heq hne) fun heq => absurd heq hne)

theorem enable_guards (userId : UserId) (token : Text) : Guards bcrypt authenticator s now (.enable2FA userId token) := by
  intro i hi
  right
  cases hget : s.findUser userId with
  | none =>
    have hrun : s.run bcrypt authenticator now (.enable2FA userId token) = s.throw .recordNotFound := by
      rw [run, hget]
    exact upholds_throw hi hrun
  | some user =>
    cases hsecret : user.twoFactorSecret with
    | none =>
      have hrun : s.run bcrypt authenticator now (.enable2FA userId token) =
          s.throw (.badRequest "2FA не налаштовано. Спочатку викличте /2fa/setup") := by
        simp only [run, hget, hsecret]
      exact upholds_throw hi hrun
    | some secret =>
      by_cases hvalid : authenticator.check token secret now
      · have hrun : s.run bcrypt authenticator now (.enable2FA userId token) =
            s.update userId ({ · with twoFactorEnabled := true }) .done := by
          simp only [run, hget, hsecret, hvalid, not_true_eq_false, if_false]
        exact upholds_update hi hrun (fun _ => rfl) nofun (fun _ _ _ hsecret => ⟨rfl, hsecret⟩)
          (fun _ _ _ _ => .inl ⟨rfl, rfl⟩) fun _ _ _ _ => .inl rfl
      · have hrun : s.run bcrypt authenticator now (.enable2FA userId token) =
            s.throw (.badRequest "Невірний код. Перевірте час на пристрої") := by
          simp [run, hget, hsecret, hvalid]
        exact upholds_throw hi hrun

theorem disable_guards (userId : UserId) (token password : Text) :
    Guards bcrypt authenticator s now (.disable2FA userId token password) := by
  intro i hi
  cases hget : s.findUser userId with
  | none =>
    have hrun : s.run bcrypt authenticator now (.disable2FA userId token password) = s.throw .recordNotFound := by
      rw [run, hget]
    exact .inr (upholds_throw hi hrun)
  | some user =>
    by_cases hpassword : bcrypt.compare password user.password
    · by_cases hcode : user.twoFactorEnabled ∧ user.twoFactorSecret.any (¬authenticator.check token · now)
      · have hrun : s.run bcrypt authenticator now (.disable2FA userId token password) =
            s.throw (.unauthorized "Невірний код 2FA") := by
          simp only [run, hget, hpassword, not_true_eq_false, if_false, if_pos hcode]
        exact .inr (upholds_throw hi hrun)
      · by_cases heq : i.1 = userId
        · -- the code is valid for the secret
          obtain ⟨owner, howner, henabled, hsecret⟩ := hi
          cases (heq ▸ howner).symm.trans hget
          refine .inl ⟨?_, user, howner, password, hpassword, .inl ⟨token, by rw [heq]⟩⟩
          simp only [hsecret, henabled, true_and, Option.any_some, decide_eq_true_eq, not_not] at hcode
          exact hcode
        · have hrun : s.run bcrypt authenticator now (.disable2FA userId token password) =
              s.update userId ({ · with twoFactorEnabled := false, twoFactorSecret := none }) .done := by
            simp only [run, hget, hpassword, not_true_eq_false, if_false, if_neg hcode]
          exact .inr (upholds_update hi hrun (fun _ => rfl) nofun (fun h => absurd h heq)
            (fun h => absurd h heq) fun h => absurd h heq)
    · have hrun : s.run bcrypt authenticator now (.disable2FA userId token password) =
          s.throw (.unauthorized "Невірний пароль") := by
        simp [run, hget, hpassword]
      exact .inr (upholds_throw hi hrun)

theorem login_iff (email password : Text) :
    Guards bcrypt authenticator s now (.login email password) ↔
      Spares bcrypt authenticator s (now, .login email password) := by
  cases hget : s.users.find? (·.email = email) with
  | none =>
    have hrun : s.run bcrypt authenticator now (.login email password) =
        s.throw (.unauthorized "Invalid credentials") := by
      rw [run, hget]
    exact iff_of_true (fun i hi => .inr (upholds_throw hi hrun)) fun user huser => by cases hget.symm.trans huser
  | some user =>
    by_cases hpassword : bcrypt.compare password user.password
    · by_cases hverified : user.isEmailVerified
      · have hrun : s.run bcrypt authenticator now (.login email password) = s.answer (.tokens user.id) := by
          simp [run, hget, hpassword, hverified]
        constructor
        · intro hguards found hfound _ _ owner howner hprot
          cases hget.symm.trans hfound
          obtain ⟨secret, hi⟩ := protected_iff.mpr ⟨owner, howner, hprot⟩
          rcases hguards (user.id, secret) hi with ⟨hpresents, -⟩ | hupholds
          · cases hpresents
          · cases hupholds.login (hrun ▸ rfl)
        · intro hspares i hi
          have hne : i.1 ≠ user.id := by
            intro heq
            obtain ⟨owner, howner, hprot⟩ := protected_iff.mp ⟨i.2, hi⟩
            exact hspares user hget hpassword hverified owner (heq ▸ howner) hprot
          exact .inr (upholds_answer hi hrun fun h => hne (AccountReply.tokens.inj h).symm)
      · have hrun : s.run bcrypt authenticator now (.login email password) =
            s.throw (.unauthorized "Please verify your email first") := by
          simp [run, hget, hpassword, hverified]
        refine iff_of_true (fun i hi => .inr (upholds_throw hi hrun)) fun found hfound _ h => ?_
        cases hget.symm.trans hfound
        exact absurd h hverified
    · have hrun : s.run bcrypt authenticator now (.login email password) =
          s.throw (.unauthorized "Invalid credentials") := by
        simp [run, hget, hpassword]
      refine iff_of_true (fun i hi => .inr (upholds_throw hi hrun)) fun found hfound h => ?_
      cases hget.symm.trans hfound
      exact absurd h hpassword

variable {bcrypt authenticator s now}

theorem findUser_delete {u : UserId} (hne : u ≠ userId) :
    (({ s with users := s.users.filter (·.id ≠ userId) } : Accounts).answer .done).findUser u = s.findUser u := by
  change (s.users.filter _).find? _ = _
  rw [List.find?_filter]
  refine congrArg (s.users.find? ·) (funext fun user => ?_)
  by_cases hu : user.id = u
  · simp [hu, hne]
  · simp [hu]

theorem protected_get {user : Account} (hi : Protected i s) (hget : s.findUser i.1 = some user) :
    user.twoFactorEnabled ∧ user.twoFactorSecret = some i.2 := by
  obtain ⟨owner, howner, hprot⟩ := hi
  cases hget.symm.trans howner
  exact hprot

theorem isProtected_of {user : Account} (hi : Protected i s) (hget : s.findUser i.1 = some user) :
    user.isProtected := by
  obtain ⟨henabled, hsecret⟩ := protected_get hi hget
  simp [Account.isProtected, henabled, hsecret]

/-- A protected account passes the check only with a valid code. -/
theorem verify_eq_none {user : Account} {secret : Secret} {code : Option Text} (henabled : user.twoFactorEnabled)
    (hsecret : user.twoFactorSecret = some secret) (hnone : verify2FAToken authenticator now user code = none) :
    (given code).any (authenticator.check · secret now) := by
  rw [verify2FAToken, if_pos henabled] at hnone
  cases hgiven : given code with
  | none =>
    rw [hgiven] at hnone
    cases hnone
  | some token =>
    rw [hgiven] at hnone
    by_cases hvalid : authenticator.check token secret now
    · exact hvalid
    · simp [hsecret, hvalid] at hnone

variable (bcrypt authenticator s now)

theorem delete_guards (userId : UserId) (password : Text) (code : Option Text) :
    Guards bcrypt authenticator s now (.deleteAccount userId password code) := by
  intro i hi
  cases hget : s.findUser userId with
  | none =>
    have hrun : s.run bcrypt authenticator now (.deleteAccount userId password code) = s.throw .recordNotFound := by
      rw [run, hget]
    exact .inr (upholds_throw hi hrun)
  | some user =>
    by_cases hpassword : bcrypt.compare password user.password
    · cases hverify : verify2FAToken authenticator now user code with
      | some error =>
        have hrun : s.run bcrypt authenticator now (.deleteAccount userId password code) = s.throw error := by
          simp [run, hget, hpassword, hverify]
        exact .inr (upholds_throw hi hrun)
      | none =>
        have hrun : s.run bcrypt authenticator now (.deleteAccount userId password code) =
            ({ s with users := s.users.filter (·.id ≠ userId) } : Accounts).answer .done := by
          simp [run, hget, hpassword, hverify]
        by_cases heq : i.1 = userId
        · obtain ⟨owner, howner, henabled, hsecret⟩ := hi
          cases (heq ▸ howner).symm.trans hget
          exact .inl ⟨verify_eq_none henabled hsecret hverify, user, howner, password, hpassword,
            .inr ⟨code, by rw [heq]⟩⟩
        · -- the row of another user
          have hfind : (s.run bcrypt authenticator now (.deleteAccount userId password code)).findUser i.1 =
              s.findUser i.1 := by
            rw [hrun]
            exact findUser_delete heq
          obtain ⟨owner, howner, hprot⟩ := hi
          refine .inr ⟨⟨owner, hfind.trans howner, hprot⟩, fun h => ?_, fun before after hbefore hafter _ => ?_,
            fun before after hbefore hafter _ => ?_⟩
          · rw [hrun] at h
            cases h
          · cases hbefore.symm.trans (hfind.symm.trans hafter)
            exact .inl ⟨rfl, rfl⟩
          · cases hbefore.symm.trans (hfind.symm.trans hafter)
            exact .inl rfl
    · have hrun : s.run bcrypt authenticator now (.deleteAccount userId password code) =
          s.throw (.unauthorized "Password incorrect") := by
        simp [run, hget, hpassword]
      exact .inr (upholds_throw hi hrun)

variable {authenticator s now} in
/-- A save that is a reset, or comes with a valid code, presents one. -/
theorem any_given_of_save {user : Account} {isReset : Bool} {code : Option Text} (hi : Protected i s)
    (hget : s.findUser i.1 = some user) (hverify : isReset → verify2FAToken authenticator now user code = none)
    (h : isReset ∨ ∃ token ∈ given code, ∃ secret ∈ user.twoFactorSecret, authenticator.check token secret now) :
    (given code).any (authenticator.check · i.2 now) := by
  obtain ⟨henabled, hsecret⟩ := protected_get hi hget
  rcases h with hreset | ⟨token, htoken, secret, hmem, hvalid⟩
  · exact verify_eq_none henabled hsecret (hverify hreset)
  · cases hsecret.symm.trans hmem
    rw [show given code = some token from htoken]
    exact hvalid

theorem saveRecovery_cases (userId : UserId) (isReset : Bool) (code : Option Text) (data : Account → Account) :
    (∃ error, s.saveRecovery authenticator now userId isReset code data = s.throw error ∧
      (isReset ∨ s.findUser userId = none)) ∨
    ∃ user, s.findUser userId = some user ∧ (isReset → verify2FAToken authenticator now user code = none) ∧
      s.saveRecovery authenticator now userId isReset code data = s.update userId data .done := by
  unfold saveRecovery
  cases hget : s.findUser userId with
  | none => exact .inl ⟨_, rfl, .inr rfl⟩
  | some user =>
    cases isReset with
    | false => exact .inr ⟨user, rfl, nofun, rfl⟩
    | true =>
      dsimp only [if_true]
      cases hverify : verify2FAToken authenticator now user code with
      | some error => exact .inl ⟨error, rfl, .inl rfl⟩
      | none => exact .inr ⟨user, rfl, fun _ => hverify, rfl⟩

theorem saveRecoveryKey_iff (userId : UserId) (encryptedBlob salt : Text) (isReset : Bool) (code : Option Text) :
    Guards bcrypt authenticator s now (.saveRecoveryKey userId encryptedBlob salt isReset code) ↔
      Spares bcrypt authenticator s (now, .saveRecoveryKey userId encryptedBlob salt isReset code) := by
  rcases saveRecovery_cases authenticator s now userId isReset code
    ({ · with encryptedPrivateKey := some encryptedBlob, privateKeySalt := some salt }) with
    ⟨error, hrun, hwhy⟩ | ⟨user, hget, hverify, hrun⟩
  · refine iff_of_true (fun i hi => .inr (upholds_throw hi hrun)) fun user huser _ _ => ?_
    rcases hwhy with hreset | hnone
    · exact .inl hreset
    · cases hnone.symm.trans huser
  · constructor
    · intro hguards found hfound hprot hblob
      cases hget.symm.trans hfound
      obtain ⟨secret, hi⟩ := protected_iff.mpr ⟨user, hfound, hprot⟩
      obtain ⟨-, hsecret⟩ := protected_get hi hfound
      rcases hguards (userId, secret) hi with ⟨-, _, -, _, -, ⟨token, h⟩ | ⟨code, h⟩⟩ | hupholds
      · cases h
      · cases h
      · have hafter : (s.run bcrypt authenticator now (.saveRecoveryKey userId encryptedBlob salt isReset code)).findUser
            userId = some { user with encryptedPrivateKey := some encryptedBlob, privateKeySalt := some salt } := by
          rw [run, hrun, findUser_update, hget, Option.map_some, if_pos rfl]
          exact fun _ => rfl
        rcases hupholds.recovery user _ hget hafter hblob with hsame | hpresents
        · exact .inr (.inr hsame)
        · obtain ⟨token, htoken, hvalid⟩ := (Option.any_eq_true ..).mp hpresents
          exact .inr (.inl ⟨token, htoken, secret, hsecret, hvalid⟩)
    · intro hspares i hi
      refine .inr (upholds_update hi hrun (fun _ => rfl) nofun (fun _ _ henabled hsecret => ⟨henabled, hsecret⟩)
        (fun heq found hfound hblob => ?_) fun _ _ _ _ => .inl rfl)
      subst heq
      cases hget.symm.trans hfound
      rcases hspares user hget (isProtected_of hi hget) hblob with hreset | hvalid | hsame
      · exact .inr (any_given_of_save hi hget hverify (.inl hreset))
      · exact .inr (any_given_of_save hi hget hverify (.inr hvalid))
      · exact .inl hsame

theorem saveRecoveryV2_iff (userId : UserId) (encryptedBlob : Text) (isReset : Bool) (code : Option Text) :
    Guards bcrypt authenticator s now (.saveRecoveryV2 userId encryptedBlob isReset code) ↔
      Spares bcrypt authenticator s (now, .saveRecoveryV2 userId encryptedBlob isReset code) := by
  rcases saveRecovery_cases authenticator s now userId isReset code
    ({ · with encryptedPrivateKeyV2 := some encryptedBlob }) with
    ⟨error, hrun, hwhy⟩ | ⟨user, hget, hverify, hrun⟩
  · refine iff_of_true (fun i hi => .inr (upholds_throw hi hrun)) fun user huser _ _ => ?_
    rcases hwhy with hreset | hnone
    · exact .inl hreset
    · cases hnone.symm.trans huser
  · constructor
    · intro hguards found hfound hprot hblob
      cases hget.symm.trans hfound
      obtain ⟨secret, hi⟩ := protected_iff.mpr ⟨user, hfound, hprot⟩
      obtain ⟨-, hsecret⟩ := protected_get hi hfound
      rcases hguards (userId, secret) hi with ⟨-, _, -, _, -, ⟨token, h⟩ | ⟨code, h⟩⟩ | hupholds
      · cases h
      · cases h
      · have hafter : (s.run bcrypt authenticator now (.saveRecoveryV2 userId encryptedBlob isReset code)).findUser
            userId = some { user with encryptedPrivateKeyV2 := some encryptedBlob } := by
          rw [run, hrun, findUser_update, hget, Option.map_some, if_pos rfl]
          exact fun _ => rfl
        rcases hupholds.recoveryV2 user _ hget hafter hblob with hsame | hpresents
        · exact .inr (.inr hsame)
        · obtain ⟨token, htoken, hvalid⟩ := (Option.any_eq_true ..).mp hpresents
          exact .inr (.inl ⟨token, htoken, secret, hsecret, hvalid⟩)
    · intro hspares i hi
      refine .inr (upholds_update hi hrun (fun _ => rfl) nofun (fun _ _ henabled hsecret => ⟨henabled, hsecret⟩)
        (fun _ _ _ _ => .inl ⟨rfl, rfl⟩) fun heq found hfound hblob => ?_)
      subst heq
      cases hget.symm.trans hfound
      rcases hspares user hget (isProtected_of hi hget) hblob with hreset | hvalid | hsame
      · exact .inr (any_given_of_save hi hget hverify (.inl hreset))
      · exact .inr (any_given_of_save hi hget hverify (.inr hvalid))
      · exact .inl hsame

variable (e : Time × AccountCall)

/-- One step: the calls that spare every protected account are exactly those that guard it. -/
theorem guards_iff :
    (∀ i, Protected i s → Lifts bcrypt authenticator i s e ∨ Upholds bcrypt authenticator i s e) ↔
      Spares bcrypt authenticator s e := by
  obtain ⟨now, call⟩ := e
  cases call with
  | setup2FA userId secret => exact setup_iff bcrypt authenticator s now userId secret
  | enable2FA userId token => exact iff_of_true (enable_guards bcrypt authenticator s now userId token) trivial
  | disable2FA userId token password =>
    exact iff_of_true (disable_guards bcrypt authenticator s now userId token password) trivial
  | login email password => exact login_iff bcrypt authenticator s now email password
  | deleteAccount userId password code =>
    exact iff_of_true (delete_guards bcrypt authenticator s now userId password code) trivial
  | saveRecoveryKey userId encryptedBlob salt isReset code =>
    exact saveRecoveryKey_iff bcrypt authenticator s now userId encryptedBlob salt isReset code
  | saveRecoveryV2 userId encryptedBlob isReset code =>
    exact saveRecoveryV2_iff bcrypt authenticator s now userId encryptedBlob isReset code

end

end Accounts

open Accounts

/-! ## All runs -/

/-- In every run, from the moment the second factor of an account is enabled with a secret until its user
lifts it, every step upholds the protection: if and only if every call of the run spares the accounts
that are protected. -/
theorem second_factor_upheld (bcrypt : Bcrypt) (authenticator : Authenticator) (users : List Account)
    (es : List (Time × AccountCall)) :
    (∀ es₁ es₂, es₁ ++ es₂ = es → ∀ i,
      Protected i ((accountServer bcrypt authenticator users).exec ⟨users, none⟩ es₁) →
        (accountServer bcrypt authenticator users).Until (Lifts bcrypt authenticator i) (Upholds bcrypt authenticator i)
          ((accountServer bcrypt authenticator users).exec ⟨users, none⟩ es₁) es₂) ↔
    ((accountServer bcrypt authenticator users).restrict (Spares bcrypt authenticator)).Allowed ⟨users, none⟩ es :=
  Machine.until_iff (fun _ _ _ h => h.kept) (fun s e _ => guards_iff bcrypt authenticator s e)
    (Machine.allowed_of_enabled (fun _ _ => trivial) _ _)

/-- A code is valid if it is the secret. -/
def Authenticator.plain : Authenticator := ⟨fun token secret _ => token = secret⟩

def alice : Account where
  id := 1
  email := [97]
  password := [1]
  isEmailVerified := true
  twoFactorSecret := none
  twoFactorEnabled := false
  encryptedPrivateKey := none
  privateKeySalt := none
  encryptedPrivateKeyV2 := none

/-- Alice enables the second factor, and then logs in with her password alone. -/
def enabledFirst : List (Time × AccountCall) :=
  [(0, .setup2FA 1 [7]), (1, .enable2FA 1 [7]), (2, .login [97] [1])]

/-- Her login is answered with tokens. -/
theorem login_without_code :
    ¬∀ es₁ es₂, es₁ ++ es₂ = enabledFirst → ∀ i,
      Protected i ((accountServer .plain .plain [alice]).exec ⟨[alice], none⟩ es₁) →
        (accountServer .plain .plain [alice]).Until (Lifts .plain .plain i) (Upholds .plain .plain i)
          ((accountServer .plain .plain [alice]).exec ⟨[alice], none⟩ es₁) es₂ := by
  intro h
  rcases h [(0, .setup2FA 1 [7]), (1, .enable2FA 1 [7])] [(2, .login [97] [1])] rfl (1, [7])
    ⟨{ alice with twoFactorSecret := some [7], twoFactorEnabled := true }, by decide, rfl, rfl⟩ with
    ⟨hpresents, -⟩ | ⟨hupholds, -⟩
  · cases hpresents
  · cases hupholds.login (by decide)

end Vesper.Auth
