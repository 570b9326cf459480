import Vesper.Auth.Sessions
import Mathlib.Data.List.Flatten
import Mathlib.Data.List.Perm.Basic

/-!
# Refresh tokens are used once

`refresh` looks a session up by the hash of the token, and updates it by its id three accesses later. A
refresh token is used once, and what was returned for it is accepted, exactly as long as the session
still has that token when it is updated.
-/

namespace Vesper.Auth
open Vesper.Server (Time)

/-! ## What has become of a token -/

namespace Entry

def issues (token : Token) (expires : Time) : Entry → Prop
  | issued new expiresAt | refreshed _ new expiresAt => new = token ∧ expiresAt = expires
  | ended _ => False

/-- The token was refreshed, or its session was deleted or taken over. -/
def consumes (token : Token) : Entry → Prop
  | issued .. => False
  | refreshed old .. | ended old => old = token

def refreshes (token : Token) : Entry → Bool
  | refreshed old _ _ => decide (old = token)
  | issued .. | ended _ => false

theorem consumes_of_refreshes {token : Token} {e : Entry} (h : e.refreshes token) : e.consumes token := by
  cases e with
  | refreshed old new expiresAt =>
    have heq : old = token := of_decide_eq_true h
    exact heq
  | issued | ended => cases h

end Entry

namespace AuthServer

/-- `refresh` finds a session, and the token is not expired. -/
def accepts (s : AuthServer) (now : Time) (token : Token) : Bool :=
  (s.sessions.find? (·.refreshToken = hashToken token)).any (¬ ·.expiresAt < now)

/-- For one token at most one call returns tokens, and every token that was returned, and has not been
refreshed, logged out or evicted since, is accepted until it expires. -/
structure SingleUse (s : AuthServer) : Prop where
  once : ∀ token, s.journal.countP (·.refreshes token) ≤ 1
  accepted : ∀ token expiresAt, (∃ e ∈ s.journal, e.issues token expiresAt) →
    (∀ e ∈ s.journal, ¬e.consumes token) → ∀ now, ¬expiresAt < now → s.accepts now token

end AuthServer

/-- A session that is updated for a refresh token has that token. -/
def Call.InTime (s : AuthServer) : Call → Prop
  | rotateUpdate (.session token _) sessionId _ _ =>
    ∀ session ∈ s.findSession sessionId, session.refreshToken = hashToken token
  | _ => True

instance (s : AuthServer) : (call : Call) → Decidable (call.InTime s)
  | .rotateUpdate (.session ..) .. => inferInstanceAs (Decidable (∀ session ∈ _, _))
  | .rotateUpdate (.password _) .. | .create .. | .commit .. | .register .. | .verifyEmail _ | .verifyUpdate _
  | .login .. | .findExisting .. | .countSessions .. | .evict .. | .createTokens .. | .refresh _
  | .rotateTokens .. | .rotateCurrent .. | .logout _ | .logoutAll _ | .forgotPassword _ | .forgotUpdate ..
  | .changePassword .. | .resetPassword .. | .revoke _ => .isTrue trivial

/-- The refresh token that the call has generated and not stored yet. -/
def Call.pending : Call → List Token
  | create _ _ _ pair | rotateCurrent _ _ pair | rotateUpdate _ _ pair _ => [pair.refreshToken]
  | _ => []

namespace AuthServer

def InTime (s : AuthServer) (e : Time × AuthInput) : Prop :=
  match e.2 with
  | .call _ => True
  | .resume j => ∀ call ∈ s.calls[j]?, call.InTime s

instance (s : AuthServer) : (e : Time × AuthInput) → Decidable (s.InTime e)
  | (_, .call _) => .isTrue trivial
  | (_, .resume _) => inferInstanceAs (Decidable (∀ call ∈ _, _))

/-! ## The invariant -/

/-- Nothing is known of the token. -/
structure Unused (s : AuthServer) (token : Token) : Prop where
  journal : ∀ e ∈ s.journal, (∀ expiresAt, ¬e.issues token expiresAt) ∧ ¬e.consumes token
  sessions : ∀ session ∈ s.sessions, session.refreshToken ≠ hashToken token

structure Kept (s : AuthServer) : Prop where
  ids : ∀ session ∈ s.sessions, ∀ other ∈ s.sessions, session.id = other.id → session = other
  below : ∀ session ∈ s.sessions, session.id < s.nextSessionId
  same : ∀ session ∈ s.sessions, ∀ other ∈ s.sessions, session.refreshToken = other.refreshToken →
    session = other
  live : ∀ session ∈ s.sessions, (∃ e ∈ s.journal, e.issues session.refreshToken.token session.expiresAt) ∧
    ∀ e ∈ s.journal, ¬e.consumes session.refreshToken.token
  pending : ∀ call ∈ s.calls, ∀ token ∈ call.pending, token < s.tokens ∧ s.Unused token
  distinct : (s.calls.flatMap (·.pending)).Nodup
  beyond : ∀ token, s.tokens ≤ token → s.Unused token
  once : ∀ token, s.journal.countP (·.refreshes token) ≤ 1
  stored : ∀ token expiresAt, (∃ e ∈ s.journal, e.issues token expiresAt) →
    (∀ e ∈ s.journal, ¬e.consumes token) →
    ∃ session ∈ s.sessions, session.refreshToken = hashToken token ∧ expiresAt ≤ session.expiresAt

section
variable {s t : AuthServer} {bcrypt : Bcrypt} {now : Time} {call : Call}

theorem accepts_of_mem (h : s.Kept) {session : Session} (hmem : session ∈ s.sessions) {token : Token}
    (htoken : session.refreshToken = hashToken token) (hexp : ¬session.expiresAt < now) : s.accepts now token := by
  unfold accepts
  cases hfind : s.sessions.find? (·.refreshToken = hashToken token) with
  | none => exact absurd (decide_eq_true htoken) (List.find?_eq_none.mp hfind session hmem)
  | some other =>
    have hsome := List.find?_some hfind
    have hother : other.refreshToken = hashToken token := of_decide_eq_true hsome
    obtain rfl := h.same session hmem other (List.mem_of_find?_eq_some hfind) (htoken.trans hother.symm)
    exact decide_eq_true hexp

theorem Kept.singleUse (h : s.Kept) : s.SingleUse where
  once := h.once
  accepted token expiresAt hissued hkept now hlive := by
    obtain ⟨session, hmem, htoken, hle⟩ := h.stored token expiresAt hissued hkept
    exact accepts_of_mem h hmem htoken fun hlt => hlive (Int.lt_of_le_of_lt hle hlt)

/-! ## What an operation does -/

/-- Calls come to an end, and tokens are generated. -/
theorem Kept.of_le (h : s.Kept) (hsessions : t.sessions = s.sessions) (hjournal : t.journal = s.journal)
    (hnext : t.nextSessionId = s.nextSessionId) (hcalls : t.calls.Sublist s.calls) (htokens : s.tokens ≤ t.tokens) :
    t.Kept := by
  have hunused : ∀ {token}, s.Unused token → t.Unused token :=
    fun hu => ⟨hjournal ▸ hu.journal, hsessions ▸ hu.sessions⟩
  constructor
  · exact hsessions ▸ h.ids
  · exact hsessions ▸ hnext ▸ h.below
  · exact hsessions ▸ h.same
  · exact hsessions ▸ hjournal ▸ h.live
  · intro call hcall token htoken
    obtain ⟨hlt, hu⟩ := h.pending call (hcalls.subset hcall) token htoken
    exact ⟨Nat.lt_of_lt_of_le hlt htokens, hunused hu⟩
  · exact h.distinct.sublist (hcalls.flatMap _)
  · exact fun token hle => hunused (h.beyond token (Nat.le_trans htokens hle))
  · exact hjournal ▸ h.once
  · rw [hsessions, hjournal]
    exact h.stored

theorem Kept.answer (h : s.Kept) {reply : Reply} : (s.answer reply).Kept :=
  h.of_le rfl rfl rfl (List.Sublist.refl _) (Nat.le_refl _)

/-- A call with a token that is its own. -/
theorem Kept.suspend (h : s.Kept) (hnodup : call.pending.Nodup)
    (hpending : ∀ token ∈ call.pending, token < s.tokens ∧ s.Unused token ∧ ∀ other ∈ s.calls, token ∉ other.pending) :
    (s.suspend call).Kept := by
  have hunused : ∀ {token}, s.Unused token → (s.suspend call).Unused token := fun hu => ⟨hu.journal, hu.sessions⟩
  refine ⟨h.ids, h.below, h.same, h.live, fun other hother token htoken => ?_, ?_,
    fun token hle => hunused (h.beyond token hle), h.once, h.stored⟩
  · rcases List.mem_append.mp hother with hold | hnew
    · obtain ⟨hlt, hu⟩ := h.pending other hold token htoken
      exact ⟨hlt, hunused hu⟩
    · obtain ⟨hlt, hu, -⟩ := hpending token (List.mem_singleton.mp hnew ▸ htoken)
      exact ⟨hlt, hunused hu⟩
  · rw [AuthServer.suspend, List.flatMap_append, List.flatMap_singleton]
    refine List.nodup_append.mpr ⟨h.distinct, hnodup, fun token htoken token' htoken' heq => ?_⟩
    obtain ⟨other, hother, hmem⟩ := List.mem_flatMap.mp htoken
    exact (hpending token' htoken').2.2 other hother (heq ▸ hmem)

theorem Kept.suspend_other (h : s.Kept) (hcall : call.pending = []) : (s.suspend call).Kept :=
  h.suspend (hcall ▸ List.nodup_nil) fun _ htoken => absurd (hcall ▸ htoken) List.not_mem_nil

/-- Sessions are deleted, and one may be stored with a token of which nothing is known. -/
structure Exchange (s t : AuthServer) (gone : Session → Prop) (new : Option Session) (entries : List Entry) :
    Prop where
  sessions : ∀ session, session ∈ t.sessions ↔ (session ∈ s.sessions ∧ ¬gone session) ∨ new = some session
  journal : t.journal = s.journal ++ entries
  calls : t.calls = s.calls
  tokens : s.tokens ≤ t.tokens
  nextSessionId : s.nextSessionId ≤ t.nextSessionId
  id : ∀ session, new = some session →
    session.id < t.nextSessionId ∧ ∀ other ∈ s.sessions, ¬gone other → other.id ≠ session.id
  token : ∀ session, new = some session → session.refreshToken.token < t.tokens ∧
    s.Unused session.refreshToken.token ∧ ∀ call ∈ s.calls, session.refreshToken.token ∉ call.pending
  told : ∀ session, new = some session → ∃ e ∈ entries, e.issues session.refreshToken.token session.expiresAt
  issues : ∀ e ∈ entries, ∀ token expiresAt, e.issues token expiresAt →
    ∃ session, new = some session ∧ session.refreshToken = hashToken token ∧ session.expiresAt = expiresAt
  consumes : ∀ e ∈ entries, ∀ token, e.consumes token →
    ∃ session ∈ s.sessions, gone session ∧ session.refreshToken = hashToken token
  gone : ∀ session ∈ s.sessions, gone session → ∃ e ∈ entries, e.consumes session.refreshToken.token
  once : ∀ token, entries.countP (·.refreshes token) ≤ 1

theorem Kept.exchange (h : s.Kept) (gone : Session → Prop) (new : Option Session) (entries : List Entry)
    (hx : Exchange s t gone new entries) : t.Kept := by
  have hold : ∀ {token}, s.Unused token → (∀ session, new = some session → session.refreshToken ≠ hashToken token) →
      t.Unused token := by
    intro token hu hne
    constructor
    · intro e he
      rw [hx.journal] at he
      rcases List.mem_append.mp he with hmem | hmem
      · exact hu.journal e hmem
      · refine ⟨fun expiresAt hissues => ?_, fun hconsumes => ?_⟩
        · obtain ⟨session, hnew, htoken, -⟩ := hx.issues e hmem token expiresAt hissues
          exact hne session hnew htoken
        · obtain ⟨session, hsession, -, htoken⟩ := hx.consumes e hmem token hconsumes
          exact hu.sessions session hsession htoken
    · intro session hsession
      rcases (hx.sessions session).mp hsession with ⟨hmem, -⟩ | hnew
      · exact hu.sessions session hmem
      · exact hne session hnew
  have hfresh : ∀ {session other}, session ∈ s.sessions → new = some other →
      session.refreshToken ≠ other.refreshToken := fun hmem hnew => (hx.token _ hnew).2.1.sessions _ hmem
  constructor
  · intro session hsession other hother heq
    rcases (hx.sessions session).mp hsession with ⟨hmem, hkept⟩ | hnew <;>
      rcases (hx.sessions other).mp hother with ⟨hmem', hkept'⟩ | hnew'
    · exact h.ids session hmem other hmem' heq
    · exact absurd heq ((hx.id other hnew').2 session hmem hkept)
    · exact absurd heq.symm ((hx.id session hnew).2 other hmem' hkept')
    · exact Option.some.inj (hnew.symm.trans hnew')
  · intro session hsession
    rcases (hx.sessions session).mp hsession with ⟨hmem, -⟩ | hnew
    · exact Nat.lt_of_lt_of_le (h.below session hmem) hx.nextSessionId
    · exact (hx.id session hnew).1
  · intro session hsession other hother heq
    rcases (hx.sessions session).mp hsession with ⟨hmem, -⟩ | hnew <;>
      rcases (hx.sessions other).mp hother with ⟨hmem', -⟩ | hnew'
    · exact h.same session hmem other hmem' heq
    · exact absurd heq (hfresh hmem hnew')
    · exact absurd heq.symm (hfresh hmem' hnew)
    · exact Option.some.inj (hnew.symm.trans hnew')
  · intro session hsession
    rw [hx.journal]
    rcases (hx.sessions session).mp hsession with ⟨hmem, hkept⟩ | hnew
    · obtain ⟨⟨e, he, hissues⟩, hnot⟩ := h.live session hmem
      refine ⟨⟨e, List.mem_append_left _ he, hissues⟩, fun e he hconsumes => ?_⟩
      rcases List.mem_append.mp he with he | he
      · exact hnot e he hconsumes
      · obtain ⟨other, hother, hgone, htoken⟩ := hx.consumes e he _ hconsumes
        obtain rfl := h.same other hother session hmem htoken
        exact hkept hgone
    · obtain ⟨e, he, hissues⟩ := hx.told session hnew
      obtain ⟨-, hu, -⟩ := hx.token session hnew
      refine ⟨⟨e, List.mem_append_right _ he, hissues⟩, fun e he hconsumes => ?_⟩
      rcases List.mem_append.mp he with he | he
      · exact (hu.journal e he).2 hconsumes
      · obtain ⟨other, hother, -, htoken⟩ := hx.consumes e he _ hconsumes
        exact hu.sessions other hother htoken
  · intro call hcall token htoken
    rw [hx.calls] at hcall
    obtain ⟨hlt, hu⟩ := h.pending call hcall token htoken
    refine ⟨Nat.lt_of_lt_of_le hlt hx.tokens, hold hu fun session hnew heq => ?_⟩
    have hnot := (hx.token session hnew).2.2 call hcall
    rw [heq] at hnot
    exact hnot htoken
  · exact hx.calls ▸ h.distinct
  · intro token hle
    refine hold (h.beyond token (Nat.le_trans hx.tokens hle)) fun session hnew heq => ?_
    have hlt := (hx.token session hnew).1
    rw [heq] at hlt
    exact absurd hlt (Nat.not_lt.mpr hle)
  · intro token
    rw [hx.journal, List.countP_append]
    by_cases hzero : entries.countP (·.refreshes token) = 0
    · rw [hzero]
      exact h.once token
    · -- the token was in a session until now, so that it had not been refreshed before
      obtain ⟨e, he, hrefreshes⟩ := List.countP_pos_iff.mp (Nat.pos_of_ne_zero hzero)
      obtain ⟨session, hmem, -, htoken⟩ := hx.consumes e he token (Entry.consumes_of_refreshes hrefreshes)
      have hbefore : s.journal.countP (·.refreshes token) = 0 := by
        refine List.countP_eq_zero.mpr fun e he hrefreshes => ?_
        refine (h.live session hmem).2 e he ?_
        rw [htoken]
        exact Entry.consumes_of_refreshes hrefreshes
      rw [hbefore, Nat.zero_add]
      exact hx.once token
  · intro token expiresAt ⟨e, he, hissues⟩ hnot
    rw [hx.journal] at he hnot
    rcases List.mem_append.mp he with he | he
    · obtain ⟨session, hmem, htoken, hle⟩ := h.stored token expiresAt ⟨e, he, hissues⟩
        fun e he => hnot e (List.mem_append_left _ he)
      refine ⟨session, (hx.sessions session).mpr (.inl ⟨hmem, fun hgone => ?_⟩), htoken, hle⟩
      obtain ⟨e, he, hconsumes⟩ := hx.gone session hmem hgone
      rw [htoken] at hconsumes
      exact hnot e (List.mem_append_right _ he) hconsumes
    · obtain ⟨session, hnew, htoken, hexp⟩ := hx.issues e he token expiresAt hissues
      exact ⟨session, (hx.sessions session).mpr (.inr hnew), htoken, Int.le_of_eq hexp.symm⟩

theorem Kept.deleteSessions (h : s.Kept) {q : Session → Bool} : (s.deleteSessions q).Kept := by
  refine h.exchange (q ·) none ((s.sessions.filter q).map (.ended ·.refreshToken.token)) ⟨?_, rfl, rfl, Nat.le_refl _, Nat.le_refl _,
      nofun, nofun, nofun, ?_, ?_, ?_, ?_⟩
  · intro session
    simp [AuthServer.deleteSessions, note]
  · intro e he token expiresAt hissues
    obtain ⟨session, -, rfl⟩ := List.mem_map.mp he
    exact hissues.elim
  · intro e he token hconsumes
    obtain ⟨session, hmem, rfl⟩ := List.mem_map.mp he
    obtain ⟨hmem, hq⟩ := List.mem_filter.mp hmem
    exact ⟨session, hmem, hq, congrArg TokenHash.mk hconsumes⟩
  · exact fun session hmem hq => ⟨_, List.mem_map.mpr ⟨session, List.mem_filter.mpr ⟨hmem, hq⟩, rfl⟩, rfl⟩
  · intro token
    rw [List.countP_eq_zero.mpr]
    · exact Nat.zero_le _
    · intro e he
      obtain ⟨session, -, rfl⟩ := List.mem_map.mp he
      exact Bool.false_ne_true

/-- A session is created with a token that no call holds any more. -/
theorem Kept.createSession (h : s.Kept) {userId : Server.UserId} {userAgent : Server.Text} {basis : Nat}
    {pair : TokenPair} (hlt : pair.refreshToken < s.tokens) (hunused : s.Unused pair.refreshToken)
    (hfree : ∀ call ∈ s.calls, pair.refreshToken ∉ call.pending) :
    (s.createSession now userId userAgent basis pair).Kept := by
  refine h.exchange (fun _ => False) (some ⟨s.nextSessionId, userId, hashToken pair.refreshToken, none,
    userAgent, now, now + REFRESH_TOKEN_EXPIRY_MS, basis⟩)
    [.issued pair.refreshToken (now + REFRESH_TOKEN_EXPIRY_MS)] ⟨?_, rfl, rfl, Nat.le_refl _,
      Nat.le_succ _, ?_, ?_, ?_, ?_, ?_, nofun, fun _ => Nat.zero_le _⟩
  · intro session
    simp [AuthServer.createSession, note, AuthServer.answer, eq_comm]
  · rintro session ⟨⟩
    exact ⟨Nat.lt_succ_self _, fun other hother _ => Nat.ne_of_lt (h.below other hother)⟩
  · rintro session ⟨⟩
    exact ⟨hlt, hunused, hfree⟩
  · rintro session ⟨⟩
    exact ⟨_, .head _, rfl, rfl⟩
  · intro e he token expiresAt hissues
    cases List.mem_singleton.mp he
    obtain ⟨rfl, rfl⟩ := hissues
    exact ⟨_, rfl, rfl, rfl⟩
  · intro e he token hconsumes
    cases List.mem_singleton.mp he
    exact hconsumes.elim

theorem Kept.rotateUpdate (h : s.Kept) {grounds : Grounds} {sessionId : Nat} {pair : TokenPair}
    {current : Option TokenHash} (hlt : pair.refreshToken < s.tokens) (hunused : s.Unused pair.refreshToken)
    (hfree : ∀ call ∈ s.calls, pair.refreshToken ∉ call.pending)
    (htime : (Call.rotateUpdate grounds sessionId pair current).InTime s) :
    (s.run bcrypt now (.rotateUpdate grounds sessionId pair current)).Kept := by
  rw [run]
  split
  · exact h.answer
  · rename_i session hfind
    obtain ⟨hmem, hid⟩ := findSession_spec hfind
    have hthis : ∀ other ∈ s.sessions, other.id = sessionId → other = session :=
      fun other hother heq => h.ids other hother session hmem (heq.trans hid.symm)
    refine h.exchange (·.id = sessionId) (some { session with
      refreshToken := hashToken pair.refreshToken
      prevRefreshToken := current
      expiresAt := now + REFRESH_TOKEN_EXPIRY_MS
      basis := grounds.basis }) _ ⟨?_, rfl, rfl, Nat.le_refl _, Nat.le_refl _, ?_, ?_, ?_, ?_, ?_, ?_, ?_⟩
    · intro other
      constructor
      · intro hother
        obtain ⟨old, hold, rfl⟩ := List.mem_map.mp hother
        split
        · exact .inr (hthis old hold ‹_› ▸ rfl)
        · exact .inl ⟨hold, ‹_›⟩
      · rintro (⟨hother, hne⟩ | heq)
        · exact List.mem_map.mpr ⟨other, hother, if_neg hne⟩
        · cases heq
          exact List.mem_map.mpr ⟨session, hmem, if_pos hid⟩
    · rintro _ ⟨⟩
      exact ⟨h.below session hmem, fun other _ hne heq => hne (heq.trans hid)⟩
    · rintro _ ⟨⟩
      exact ⟨hlt, hunused, hfree⟩
    · rintro _ ⟨⟩
      cases grounds with
      | password => exact ⟨_, .tail _ (.head _), rfl, rfl⟩
      | session => exact ⟨_, .head _, rfl, rfl⟩
    · intro e he token expiresAt hissues
      cases grounds with
      | password =>
        rcases List.mem_pair.mp he with rfl | rfl
        · exact hissues.elim
        · obtain ⟨rfl, rfl⟩ := hissues
          exact ⟨_, rfl, rfl, rfl⟩
      | session =>
        cases List.mem_singleton.mp he
        obtain ⟨rfl, rfl⟩ := hissues
        exact ⟨_, rfl, rfl, rfl⟩
    · intro e he token hconsumes
      refine ⟨session, hmem, hid, ?_⟩
      cases grounds with
      | password =>
        rcases List.mem_pair.mp he with rfl | rfl
        · exact congrArg TokenHash.mk hconsumes
        · exact hconsumes.elim
      | session old found =>
        cases List.mem_singleton.mp he
        obtain rfl : old = token := hconsumes
        exact htime session hfind
    · intro other hother heq
      cases hthis other hother heq
      cases grounds with
      | password => exact ⟨_, .head _, rfl⟩
      | session old found => exact ⟨_, .head _, (congrArg TokenHash.token (htime session hfind)).symm⟩
    · intro token
      cases grounds with
      | password => exact Nat.zero_le _
      | session =>
        rw [List.countP_singleton]
        split <;> decide

theorem Kept.free (h : s.Kept) {token : Token} (hle : s.tokens ≤ token) :
    ∀ call ∈ s.calls, token ∉ call.pending :=
  fun call hcall htoken => Nat.not_lt.mpr hle (h.pending call hcall token htoken).1

theorem Kept.generateTokens (h : s.Kept) {userId : Server.UserId} {rest : TokenPair → Call}
    (hrest : ∀ pair, (rest pair).pending ⊆ [pair.refreshToken] ∧ (rest pair).pending.Nodup) :
    (s.generateTokens userId rest).Kept := by
  unfold AuthServer.generateTokens
  split
  · exact h.answer
  · have hafter : ({ s with tokens := s.tokens + 1 } : AuthServer).Kept :=
      h.of_le rfl rfl rfl (List.Sublist.refl _) (Nat.le_succ _)
    refine hafter.suspend (hrest _).2 fun token htoken => ?_
    obtain rfl := List.mem_singleton.mp ((hrest _).1 htoken)
    have hunused := h.beyond s.tokens (Nat.le_refl _)
    exact ⟨Nat.lt_succ_self _, ⟨hunused.journal, hunused.sessions⟩, h.free (Nat.le_refl _)⟩

/-- What is left when a call goes on: nobody else has its token. -/
theorem Kept.unlink (h : s.Kept) {j : Nat} (hget : s.calls[j]? = some call) :
    let s' : AuthServer := { s with reply := none, calls := s.calls.eraseIdx j }
    s'.Kept ∧ call.pending.Nodup ∧
      ∀ token ∈ call.pending, token < s'.tokens ∧ s'.Unused token ∧ ∀ other ∈ s'.calls, token ∉ other.pending := by
  intro s'
  obtain ⟨hj, rfl⟩ := List.getElem?_eq_some_iff.mp hget
  have hperm : (s.calls[j] :: s'.calls).Perm s.calls := List.getElem_cons_eraseIdx_perm hj
  have hdistinct := (hperm.flatMap_right (·.pending)).nodup_iff.mpr h.distinct
  rw [List.flatMap_cons] at hdistinct
  obtain ⟨hnodup, -, hapart⟩ := List.nodup_append.mp hdistinct
  refine ⟨h.of_le rfl rfl rfl (List.eraseIdx_sublist ..) (Nat.le_refl _), hnodup, fun token htoken => ?_⟩
  obtain ⟨hlt, hu⟩ := h.pending _ (List.getElem_mem hj) token htoken
  refine ⟨hlt, ⟨hu.journal, hu.sessions⟩, fun other hother hmem => ?_⟩
  exact hapart token htoken token (List.mem_flatMap.mpr ⟨other, hother, hmem⟩) rfl

/-- **The step lemma**: a call that meets the condition keeps the invariant. -/
theorem Kept.run (h : s.Kept) (hnodup : call.pending.Nodup)
    (hown : ∀ token ∈ call.pending, token < s.tokens ∧ s.Unused token ∧ ∀ other ∈ s.calls, token ∉ other.pending)
    (htime : call.InTime s) : (s.run bcrypt now call).Kept := by
  cases call with
  | register dto userAgent =>
    rw [AuthServer.run]
    split
    · exact h.answer
    split
    · exact h.answer
    unfold registerUser
    split
    · exact h.answer
    · have hadded : ∀ users nextUserId,
          ({ s with users, nextUserId, tokens := s.tokens + 2 } : AuthServer).Kept :=
        fun _ _ => h.of_le rfl rfl rfl (List.Sublist.refl _) (Nat.le_add_right _ 2)
      have hunused := h.beyond (s.tokens + 1) (Nat.le_succ _)
      exact (hadded _ _).createSession (Nat.lt_succ_self _) ⟨hunused.journal, hunused.sessions⟩ (h.free (Nat.le_succ _))
  | verifyEmail token =>
    rw [AuthServer.run]
    split
    · exact h.answer
    · exact h.suspend_other rfl
  | verifyUpdate userId => exact h.of_le rfl rfl rfl (List.Sublist.refl _) (Nat.le_refl _)
  | login email password userAgent =>
    rw [AuthServer.run]
    split
    · exact h.answer
    split
    · exact h.answer
    split
    · exact h.answer
    · exact h.suspend_other rfl
  | findExisting userId userAgent version =>
    rw [AuthServer.run]
    split
    · exact h.suspend_other rfl
    · exact h.suspend_other rfl
  | countSessions userId userAgent version =>
    rw [AuthServer.run]
    split_ifs
    · cases ((s.sessions.filter (·.userId = userId)).insertionSort (·.createdAt ≤ ·.createdAt)).head? with
      | none => exact h
      | some oldest => exact h.suspend_other rfl
    · exact h.suspend_other rfl
  | evict userId userAgent version sessionId =>
    rw [AuthServer.run]
    split_ifs
    · exact h.answer
    · exact h.deleteSessions.suspend_other rfl
  | createTokens userId userAgent version =>
    exact h.generateTokens fun pair => ⟨List.Subset.refl _, List.nodup_singleton _⟩
  | create userId userAgent version pair =>
    obtain ⟨hlt, hunused, hfree⟩ := hown pair.refreshToken (.head _)
    exact h.createSession hlt hunused hfree
  | refresh token =>
    rw [AuthServer.run]
    split
    · exact h.answer
    · split_ifs
      · exact h.answer
      · exact h.suspend_other rfl
  | rotateTokens grounds sessionId userId =>
    exact h.generateTokens fun pair => ⟨List.Subset.refl _, List.nodup_singleton _⟩
  | rotateCurrent grounds sessionId pair => exact h.suspend hnodup hown
  | rotateUpdate grounds sessionId pair current =>
    obtain ⟨hlt, hunused, hfree⟩ := hown pair.refreshToken (.head _)
    exact h.rotateUpdate hlt hunused hfree htime
  | logout token => exact h.deleteSessions.answer
  | logoutAll userId => exact h.deleteSessions.answer
  | forgotPassword email =>
    rw [AuthServer.run]
    split
    · exact h.answer
    · split
      · exact h.answer
      · exact (h.of_le (t := { s with tokens := s.tokens + 1 }) rfl rfl rfl (List.Sublist.refl _)
          (Nat.le_succ _)).suspend_other rfl
  | forgotUpdate userId token expires => exact h.of_le rfl rfl rfl (List.Sublist.refl _) (Nat.le_refl _)
  | changePassword userId oldPass newPass =>
    rw [AuthServer.run]
    split
    · exact h.answer
    · split_ifs
      · exact h.suspend_other rfl
      · exact h.answer
  | resetPassword token newPassword =>
    rw [AuthServer.run]
    split
    · exact h.answer
    · exact h.suspend_other rfl
  | revoke change => exact h.suspend_other rfl
  | commit change ids =>
    have hchanged : ∀ users version, ({ s with users, version } : AuthServer).Kept :=
      fun _ _ => h.of_le rfl rfl rfl (List.Sublist.refl _) (Nat.le_refl _)
    exact (hchanged _ _).deleteSessions.answer

/-- A session that is updated for a token it no longer has: what it has is lost. -/
theorem not_singleUse (h : s.Kept) (hown : ∀ token ∈ call.pending, s.Unused token) (htime : ¬call.InTime s) :
    ¬(s.run bcrypt now call).SingleUse := by
  intro hafter
  cases call with
  | rotateUpdate grounds sessionId pair current =>
    cases grounds with
    | password => exact htime trivial
    | session token found =>
      refine htime fun session hfind => ?_
      by_contra hne
      have hfind : s.findSession sessionId = some session := hfind
      obtain ⟨hmem, hid⟩ := findSession_spec hfind
      obtain ⟨⟨e, he, hissues⟩, hnot⟩ := h.live session hmem
      have hjournal : (s.run bcrypt now (.rotateUpdate (.session token found) sessionId pair current)).journal =
          s.journal ++ [.refreshed token pair.refreshToken (now + REFRESH_TOKEN_EXPIRY_MS)] := by
        rw [AuthServer.run, hfind]
        rfl
      have haccepts := hafter.accepted session.refreshToken.token session.expiresAt
        ⟨e, hjournal ▸ List.mem_append_left _ he, hissues⟩ (fun e he hconsumes => ?_) session.expiresAt
        (Int.lt_irrefl _)
      · obtain ⟨other, hother, -⟩ := (Option.any_eq_true _ _).mp haccepts
        have htoken := List.find?_some hother
        replace htoken : other.refreshToken = session.refreshToken := of_decide_eq_true htoken
        have hmem' := List.mem_of_find?_eq_some hother
        rw [AuthServer.run, hfind] at hmem'
        obtain ⟨old, hold, heq⟩ := List.mem_map.mp hmem'
        split at heq
        · rw [← heq] at htoken
          exact (hown pair.refreshToken (.head _)).sessions session hmem htoken.symm
        · rw [← heq] at htoken
          obtain rfl := h.same old hold session hmem htoken
          exact ‹¬old.id = sessionId› hid
      · rw [hjournal] at he
        rcases List.mem_append.mp he with he | he
        · exact hnot e he hconsumes
        · cases List.mem_singleton.mp he
          exact hne (congrArg TokenHash.mk hconsumes).symm
  | _ => exact htime trivial

theorem inTime_of_eq (hsessions : t.sessions = s.sessions) : call.InTime t ↔ call.InTime s := by
  unfold Call.InTime findSession
  rw [hsessions]

theorem Kept.step (h : s.Kept) {input : AuthInput} (hinput : s.Enabled input) :
    ((s.next bcrypt (now, input)).SingleUse ↔ s.InTime (now, input)) ∧
      (s.InTime (now, input) → (s.next bcrypt (now, input)).Kept) := by
  cases input with
  | call call =>
    have hnext : (s.next bcrypt (now, .call call)).Kept := by
      have hbefore : ({ s with reply := none } : AuthServer).Kept :=
        h.of_le rfl rfl rfl (List.Sublist.refl _) (Nat.le_refl _)
      refine hbefore.suspend_other ?_
      have hrequest : call.request := hinput
      cases call <;> first | rfl | cases hrequest
    exact ⟨iff_of_true hnext.singleUse trivial, fun _ => hnext⟩
  | resume j =>
    obtain ⟨call, hget, -⟩ := hinput
    have hget : s.calls[j]? = some call := hget
    have hnext : s.next bcrypt (now, .resume j) =
        ({ s with reply := none, calls := s.calls.eraseIdx j } : AuthServer).run bcrypt now call := by
      rw [next, AuthServer.step, hget]
      rfl
    obtain ⟨hbefore, hnodup, hown⟩ := h.unlink hget
    have htime : s.InTime (now, .resume j) ↔
        call.InTime { s with reply := none, calls := s.calls.eraseIdx j } := by
      refine Iff.trans ⟨fun htime => htime call hget, fun htime other hother => ?_⟩ (inTime_of_eq rfl).symm
      cases hget.symm.trans hother
      exact htime
    rw [hnext, htime]
    refine ⟨⟨fun hafter => ?_, fun htime => ?_⟩, fun htime => ?_⟩
    · exact by_contra fun hnot => not_singleUse hbefore (fun token htoken => (hown token htoken).2.1) hnot hafter
    · exact (hbefore.run hnodup hown htime).singleUse
    · exact hbefore.run hnodup hown htime

end

end AuthServer

/-! ## All runs -/

/-- Throughout a run of the calls, interleaved at their accesses to the database, refresh tokens are used
once if and only if every session that `refresh` updates still has the token that it was found by. -/
theorem refresh_once {bcrypt : Bcrypt} {es : List (Time × AuthInput)} (hes : (authServer bcrypt).Allowed .start es) :
    (authServer bcrypt).Throughout AuthServer.SingleUse .start es ↔
      ((authServer bcrypt).restrict AuthServer.InTime).Allowed .start es := by
  have hkept : AuthServer.start.Kept :=
    ⟨fun _ h => (by cases h), fun _ h => (by cases h), fun _ h => (by cases h), fun _ h => (by cases h),
      fun _ h => (by cases h), List.nodup_nil, fun _ _ => ⟨fun _ h => (by cases h), fun _ h => (by cases h)⟩,
      fun _ => Nat.zero_le _, fun _ _ ⟨_, h, _⟩ => (by cases h)⟩
  refine Machine.throughout_iff_of (I := AuthServer.Kept) (fun s e h _ he htime => ?_)
    (fun s e h _ he => ?_) hkept hkept.singleUse hes
  · exact (h.step he).2 htime
  · exact (h.step he).1

/-- Alice refreshes her token, and then the new one. -/
def refreshedTwice : List (Time × AuthInput) :=
  registered ++ [.call (.refresh 1), .resume 0, .resume 0, .resume 0, .resume 0, .call (.refresh 2), .resume 0,
    .resume 0, .resume 0, .resume 0].map (0, ·)

theorem refresh_once_twice : (authServer .plain).Throughout AuthServer.SingleUse .start refreshedTwice :=
  (refresh_once (by decide)).mpr (by decide)

/-- Two tabs refresh the same token, and both find its session before one of them updates it. -/
def refreshedTogether : List (Time × AuthInput) :=
  registered ++ [.call (.refresh 1), .call (.refresh 1), .resume 0, .resume 0, .resume 0, .resume 0, .resume 0,
    .resume 0, .resume 0, .resume 0].map (0, ·)

/-- Both get tokens for it. -/
theorem refreshed_together :
    (authServer .plain).Allowed .start refreshedTogether ∧
      ¬(authServer .plain).Throughout AuthServer.SingleUse .start refreshedTogether :=
  ⟨by decide, fun h => absurd (h.last.once 1) (by decide)⟩

end Vesper.Auth
