import Vesper.Auth.Sessions

/-!
# What a change of the password revokes

`changePassword` and `resetPassword` delete the sessions of the user. A session is current when it
rests on the password as it is now. All sessions stay current exactly as long as no login issues tokens
for a password that has been changed since it was verified, and no session is created between the
deletion and its commit.
-/

namespace Vesper.Auth

/-! ## The exact condition -/

/-- What the call rotates, and on what grounds. -/
def Call.rotation : Call → Option (Grounds × Nat)
  | rotateTokens grounds sessionId _ | rotateCurrent grounds sessionId _ | rotateUpdate grounds sessionId _ _ =>
    some (grounds, sessionId)
  | _ => none

/-- A login that issues tokens has verified the present password, and a commit deletes all sessions
that the user has. -/
def Call.UpToDate (s : AuthServer) : Call → Prop
  | create userId _ version _ => version = s.version userId
  | rotateUpdate (.password version) sessionId _ _ =>
    ∀ session ∈ s.findSession sessionId, version = s.version session.userId
  | commit change ids => ∀ session ∈ s.sessions, session.userId = change.userId → session.id ∈ ids
  | _ => True

instance (s : AuthServer) : (call : Call) → Decidable (call.UpToDate s)
  | .create .. => inferInstanceAs (Decidable (_ = _))
  | .rotateUpdate (.password _) .. => inferInstanceAs (Decidable (∀ session ∈ _, _))
  | .commit .. => inferInstanceAs (Decidable (∀ session ∈ _, _))
  | .rotateUpdate (.session ..) .. | .register .. | .verifyEmail _ | .verifyUpdate _ | .login .. | .findExisting ..
  | .countSessions .. | .evict .. | .createTokens .. | .refresh _ | .rotateTokens .. | .rotateCurrent ..
  | .logout _ | .logoutAll _ | .forgotPassword _ | .forgotUpdate .. | .changePassword .. | .resetPassword ..
  | .revoke _ => .isTrue trivial

namespace AuthServer

def UpToDate (s : AuthServer) (e : Server.Time × AuthInput) : Prop :=
  match e.2 with
  | .call _ => True
  | .resume j => ∀ call ∈ s.calls[j]?, call.UpToDate s

instance (s : AuthServer) : (e : Server.Time × AuthInput) → Decidable (s.UpToDate e)
  | (_, .call _) => .isTrue trivial
  | (_, .resume _) => inferInstanceAs (Decidable (∀ call ∈ _, _))

/-- Every session rests on the present password. -/
def Current (s : AuthServer) : Prop := ∀ session ∈ s.sessions, session.basis = s.version session.userId

instance (s : AuthServer) : Decidable s.Current := inferInstanceAs (Decidable (∀ session ∈ s.sessions, _))

/-! ## The invariant -/

/-- A session that is being refreshed rests on the present password, if it is still there. -/
def Refreshes (s : AuthServer) (call : Call) : Prop :=
  ∀ token found sessionId, call.rotation = some (.session token found, sessionId) →
    sessionId < s.nextSessionId ∧
      ∀ session ∈ s.sessions, session.id = sessionId → found.basis = s.version session.userId

structure Sound (s : AuthServer) : Prop where
  ids : ∀ session ∈ s.sessions, ∀ other ∈ s.sessions, session.id = other.id → session = other
  below : ∀ session ∈ s.sessions, session.id < s.nextSessionId
  refreshes : ∀ call ∈ s.calls, s.Refreshes call
  current : s.Current

section
variable {s t : AuthServer} {bcrypt : Bcrypt} {now : Server.Time} {call : Call}

/-- Sessions are deleted and calls come to an end. -/
theorem Sound.of_le (h : s.Sound) (hsessions : t.sessions ⊆ s.sessions) (hcalls : t.calls ⊆ s.calls)
    (hnext : t.nextSessionId = s.nextSessionId) (hversion : t.version = s.version) : t.Sound := by
  constructor
  · exact fun session hmem other hother => h.ids session (hsessions hmem) other (hsessions hother)
  · exact fun session hmem => hnext ▸ h.below session (hsessions hmem)
  · intro call hcall token found sessionId hrotation
    obtain ⟨hlt, hbasis⟩ := h.refreshes call (hcalls hcall) token found sessionId hrotation
    exact ⟨hnext ▸ hlt, fun session hmem heq => hversion ▸ hbasis session (hsessions hmem) heq⟩
  · exact fun session hmem => hversion ▸ h.current session (hsessions hmem)

theorem Sound.suspend (h : s.Sound) (hcall : s.Refreshes call) : (s.suspend call).Sound := by
  refine ⟨h.ids, h.below, fun other hother => ?_, h.current⟩
  rcases List.mem_append.mp hother with hold | hnew
  · exact h.refreshes other hold
  · exact List.mem_singleton.mp hnew ▸ hcall

/-- A call that rotates nothing. -/
theorem Sound.suspend_other (h : s.Sound) (hcall : call.rotation = none) : (s.suspend call).Sound :=
  h.suspend fun _ _ _ hrotation => absurd (hcall.symm.trans hrotation) nofun

theorem Sound.answer (h : s.Sound) {reply : Reply} : (s.answer reply).Sound :=
  h.of_le (List.Subset.refl _) (List.Subset.refl _) rfl rfl

theorem Sound.deleteSessions (h : s.Sound) {q : Session → Bool} : (s.deleteSessions q).Sound :=
  h.of_le List.filter_sublist.subset (List.Subset.refl _) rfl rfl

theorem Sound.generateTokens (h : s.Sound) {userId : Server.UserId} {rest : TokenPair → Call}
    (hrest : ∀ pair, s.Refreshes (rest pair)) : (s.generateTokens userId rest).Sound := by
  unfold AuthServer.generateTokens
  split
  · exact h.answer
  · exact (h.of_le (t := { s with tokens := s.tokens + 1 }) (List.Subset.refl _) (List.Subset.refl _) rfl
      rfl).suspend (hrest _)

theorem Sound.createSession (h : s.Sound) {userId : Server.UserId} {userAgent : Server.Text} {pair : TokenPair} :
    (s.createSession now userId userAgent (s.version userId) pair).Sound := by
  constructor
  · intro session hmem other hother heq
    rcases List.mem_append.mp hmem with hold | hnew <;> rcases List.mem_append.mp hother with hold' | hnew'
    · exact h.ids session hold other hold' heq
    · have hlt := h.below session hold
      rw [heq, List.mem_singleton.mp hnew'] at hlt
      exact absurd hlt (Nat.lt_irrefl _)
    · have hlt := h.below other hold'
      rw [← heq, List.mem_singleton.mp hnew] at hlt
      exact absurd hlt (Nat.lt_irrefl _)
    · exact (List.mem_singleton.mp hnew).trans (List.mem_singleton.mp hnew').symm
  · intro session hmem
    rcases List.mem_append.mp hmem with hold | hnew
    · exact Nat.lt_succ_of_lt (h.below session hold)
    · exact List.mem_singleton.mp hnew ▸ Nat.lt_succ_self _
  · intro call hcall token found sessionId hrotation
    obtain ⟨hlt, hbasis⟩ := h.refreshes call hcall token found sessionId hrotation
    refine ⟨Nat.lt_succ_of_lt hlt, fun session hmem heq => ?_⟩
    rcases List.mem_append.mp hmem with hold | hnew
    · exact hbasis session hold heq
    · rw [← heq, List.mem_singleton.mp hnew] at hlt
      exact absurd hlt (Nat.lt_irrefl _)
  · intro session hmem
    rcases List.mem_append.mp hmem with hold | hnew
    · exact h.current session hold
    · rw [List.mem_singleton.mp hnew]
      rfl

theorem Sound.updateSession (h : s.Sound) {id : Nat} {data : Session → Session}
    (hid : ∀ session, (data session).id = session.id) (huser : ∀ session, (data session).userId = session.userId)
    (hbasis : ∀ session ∈ s.sessions, session.id = id → (data session).basis = s.version session.userId) :
    (s.updateSession id data).Sound := by
  have hmem : ∀ {session}, session ∈ (s.updateSession id data).sessions → ∃ old ∈ s.sessions,
      session = (if old.id = id then data old else old) ∧ session.id = old.id ∧ session.userId = old.userId := by
    intro session hmem
    obtain ⟨old, hold, rfl⟩ := List.mem_map.mp hmem
    refine ⟨old, hold, rfl, ?_⟩
    split
    · exact ⟨hid old, huser old⟩
    · exact ⟨rfl, rfl⟩
  constructor
  · intro session hsession other hother heq
    obtain ⟨old, hold, rfl, hold_id, -⟩ := hmem hsession
    obtain ⟨old', hold', rfl, hold_id', -⟩ := hmem hother
    rw [h.ids old hold old' hold' (hold_id.symm.trans (heq.trans hold_id'))]
  · intro session hsession
    obtain ⟨old, hold, -, hold_id, -⟩ := hmem hsession
    exact hold_id ▸ h.below old hold
  · intro call hcall token found sessionId hrotation
    obtain ⟨hlt, hfound⟩ := h.refreshes call hcall token found sessionId hrotation
    refine ⟨hlt, fun session hsession heq => ?_⟩
    obtain ⟨old, hold, -, hold_id, hold_user⟩ := hmem hsession
    exact hold_user ▸ hfound old hold (hold_id ▸ heq)
  · intro session hsession
    obtain ⟨old, hold, hdata, -, hold_user⟩ := hmem hsession
    rw [hold_user, hdata]
    split
    · exact hbasis old hold ‹_›
    · exact h.current old hold

/-- A commit that deletes all sessions of the user. -/
theorem Sound.commit (h : s.Sound) {change : Change} {ids : List Nat}
    (hall : ∀ session ∈ s.sessions, session.userId = change.userId → session.id ∈ ids) :
    (s.run bcrypt now (.commit change ids)).Sound := by
  have hmem : ∀ {session}, session ∈ (s.run bcrypt now (.commit change ids)).sessions →
      session ∈ s.sessions ∧ session.userId ≠ change.userId := by
    intro session hmem
    obtain ⟨hold, hkept⟩ := List.mem_filter.mp hmem
    exact ⟨hold, fun huser => by simp [hall session hold huser] at hkept⟩
  have hversion : ∀ {userId}, userId ≠ change.userId →
      (s.run bcrypt now (.commit change ids)).version userId = s.version userId := fun hne => if_neg hne
  constructor
  · exact fun session hsession other hother => h.ids session (hmem hsession).1 other (hmem hother).1
  · exact fun session hsession => h.below session (hmem hsession).1
  · intro call hcall token found sessionId hrotation
    obtain ⟨hlt, hfound⟩ := h.refreshes call hcall token found sessionId hrotation
    refine ⟨hlt, fun session hsession heq => ?_⟩
    obtain ⟨hold, hne⟩ := hmem hsession
    exact hversion hne ▸ hfound session hold heq
  · intro session hsession
    obtain ⟨hold, hne⟩ := hmem hsession
    exact hversion hne ▸ h.current session hold

theorem Sound.rotateUpdate (h : s.Sound) {grounds : Grounds} {sessionId : Nat} {pair : TokenPair}
    {current : Option TokenHash} (hcall : s.Refreshes (.rotateUpdate grounds sessionId pair current))
    (hdate : (Call.rotateUpdate grounds sessionId pair current).UpToDate s) :
    (s.run bcrypt now (.rotateUpdate grounds sessionId pair current)).Sound := by
  rw [run]
  split
  · exact h.answer
  · rename_i session hfind
    obtain ⟨hmem, hid⟩ := findSession_spec hfind
    have hupdate : (s.updateSession sessionId ({ · with
        refreshToken := hashToken pair.refreshToken
        prevRefreshToken := current
        expiresAt := now + REFRESH_TOKEN_EXPIRY_MS
        basis := grounds.basis })).Sound := by
      refine h.updateSession (fun _ => rfl) (fun _ => rfl) fun other hother heq => ?_
      obtain rfl := h.ids session hmem other hother (hid.trans heq.symm)
      cases grounds with
      | password version => exact hdate session hfind
      | session token found => exact (hcall token found sessionId rfl).2 session hmem hid
    exact hupdate.of_le (List.Subset.refl _) (List.Subset.refl _) rfl rfl

/-- **The step lemma**: a call that meets the condition keeps all sessions current. -/
theorem Sound.run (h : s.Sound) (hcall : s.Refreshes call) (hdate : call.UpToDate s) :
    (s.run bcrypt now call).Sound := by
  cases call with
  | register dto userAgent =>
    rw [AuthServer.run]
    split
    · exact h.answer
    split
    · exact h.answer
    unfold registerUser
    split
    · exact h.answer
    · have hadded : ∀ users nextUserId tokens, ({ s with users, nextUserId, tokens } : AuthServer).Sound :=
        fun _ _ _ => h.of_le (List.Subset.refl _) (List.Subset.refl _) rfl rfl
      exact (hadded _ _ _).createSession
  | verifyEmail token =>
    rw [AuthServer.run]
    split
    · exact h.answer
    · exact h.suspend_other rfl
  | verifyUpdate userId => exact h.of_le (List.Subset.refl _) (List.Subset.refl _) rfl rfl
  | login email password userAgent =>
    rw [AuthServer.run]
    split
    · exact h.answer
    split
    · exact h.answer
    split
    · exact h.answer
    · exact h.suspend_other rfl
  | findExisting userId userAgent version =>
    rw [AuthServer.run]
    split
    · exact h.suspend fun _ _ _ hrotation => by cases hrotation
    · exact h.suspend_other rfl
  | countSessions userId userAgent version =>
    rw [AuthServer.run]
    split_ifs
    · cases ((s.sessions.filter (·.userId = userId)).insertionSort (·.createdAt ≤ ·.createdAt)).head? with
      | none => exact h
      | some oldest => exact h.suspend_other rfl
    · exact h.suspend_other rfl
  | evict userId userAgent version sessionId =>
    rw [AuthServer.run]
    split_ifs
    · exact h.answer
    · exact h.deleteSessions.suspend_other rfl
  | createTokens userId userAgent version =>
    exact h.generateTokens fun _ _ _ _ hrotation => by cases hrotation
  | create userId userAgent version pair =>
    have hversion : version = s.version userId := hdate
    rw [AuthServer.run, hversion]
    exact h.createSession
  | refresh token =>
    rw [AuthServer.run]
    split
    · exact h.answer
    · rename_i session hfind
      have hmem := List.mem_of_find?_eq_some hfind
      split_ifs
      · exact h.answer
      · refine h.suspend fun token' found sessionId hrotation => ?_
        cases hrotation
        refine ⟨h.below session hmem, fun other hother heq => ?_⟩
        obtain rfl := h.ids other hother session hmem heq
        exact h.current other hother
  | rotateTokens grounds sessionId userId => exact h.generateTokens fun _ => hcall
  | rotateCurrent grounds sessionId pair => exact h.suspend hcall
  | rotateUpdate grounds sessionId pair current => exact h.rotateUpdate hcall hdate
  | logout token => exact h.deleteSessions.answer
  | logoutAll userId => exact h.deleteSessions.answer
  | forgotPassword email =>
    rw [AuthServer.run]
    split
    · exact h.answer
    · split_ifs
      · exact (h.of_le (t := { s with tokens := s.tokens + 1 }) (List.Subset.refl _) (List.Subset.refl _) rfl
          rfl).suspend_other rfl
      · exact h.answer
  | forgotUpdate userId token expires => exact h.of_le (List.Subset.refl _) (List.Subset.refl _) rfl rfl
  | changePassword userId oldPass newPass =>
    rw [AuthServer.run]
    split
    · exact h.answer
    · split_ifs
      · exact h.suspend_other rfl
      · exact h.answer
  | resetPassword token newPassword =>
    rw [AuthServer.run]
    split
    · exact h.answer
    · exact h.suspend_other rfl
  | revoke change => exact h.suspend_other rfl
  | commit change ids => exact h.commit hdate

theorem upToDate_of_eq (hsessions : t.sessions = s.sessions) (hversion : t.version = s.version) :
    call.UpToDate t ↔ call.UpToDate s := by
  unfold Call.UpToDate findSession
  rw [hsessions, hversion]

/-! ## The steps -/

/-- A call that misses the condition leaves a session that is not current. -/
theorem not_current (h : s.Current) (hdate : ¬call.UpToDate s) : ¬(s.run bcrypt now call).Current := by
  intro hcurrent
  cases call with
  | create userId userAgent version pair =>
    have hnew := hcurrent _ (List.mem_append_right _ (.head _))
    exact hdate hnew
  | rotateUpdate grounds sessionId pair current =>
    cases grounds with
    | password version =>
      refine hdate fun session hfind => ?_
      obtain ⟨hmem, hid⟩ := findSession_spec hfind
      rw [AuthServer.run, hfind] at hcurrent
      have hrotated := hcurrent _ (List.mem_map.mpr ⟨session, hmem, if_pos hid⟩)
      exact hrotated
    | session token found => exact hdate trivial
  | commit change ids =>
    refine hdate fun session hmem huser => ?_
    by_contra hkept
    have hstays : session ∈ (s.run bcrypt now (.commit change ids)).sessions :=
      List.mem_filter.mpr ⟨hmem, by simp [hkept]⟩
    have hversion : (s.run bcrypt now (.commit change ids)).version session.userId =
        s.version session.userId + 1 := if_pos huser
    have hbasis := hcurrent session hstays
    rw [h session hmem, hversion] at hbasis
    exact absurd hbasis (Nat.ne_of_lt (Nat.lt_succ_self _))
  | _ => exact hdate trivial

theorem Sound.step (h : s.Sound) {input : AuthInput} (hinput : s.Enabled input) :
    ((s.next bcrypt (now, input)).Current ↔ s.UpToDate (now, input)) ∧
      (s.UpToDate (now, input) → (s.next bcrypt (now, input)).Sound) := by
  cases input with
  | call call =>
    have hnext : (s.next bcrypt (now, .call call)).Sound := by
      have hbefore : ({ s with reply := none } : AuthServer).Sound :=
        h.of_le (List.Subset.refl _) (List.Subset.refl _) rfl rfl
      refine hbefore.suspend_other ?_
      have hrequest : call.request := hinput
      cases call <;> first | rfl | cases hrequest
    exact ⟨iff_of_true hnext.current trivial, fun _ => hnext⟩
  | resume j =>
    obtain ⟨call, hget, -⟩ := hinput
    have hget : s.calls[j]? = some call := hget
    have hcall : call ∈ s.calls := List.mem_of_getElem? hget
    have hnext : s.next bcrypt (now, .resume j) =
        ({ s with reply := none, calls := s.calls.eraseIdx j } : AuthServer).run bcrypt now call := by
      rw [next, AuthServer.step, hget]
      rfl
    have hbefore : ({ s with reply := none, calls := s.calls.eraseIdx j } : AuthServer).Sound :=
      h.of_le (List.Subset.refl _) List.eraseIdx_subset rfl rfl
    have hdate : s.UpToDate (now, .resume j) ↔
        call.UpToDate { s with reply := none, calls := s.calls.eraseIdx j } := by
      refine Iff.trans ⟨fun hdate => hdate call hget, fun hdate other hother => ?_⟩ (upToDate_of_eq rfl rfl).symm
      cases hget.symm.trans hother
      exact hdate
    rw [hnext, hdate]
    refine ⟨⟨fun hcurrent => ?_, fun hdate => ?_⟩, fun hdate => ?_⟩
    · exact by_contra fun hnot => not_current hbefore.current hnot hcurrent
    · exact (hbefore.run (h.refreshes call hcall) hdate).current
    · exact hbefore.run (h.refreshes call hcall) hdate

end

end AuthServer

/-! ## All runs -/

/-- Throughout a run of the calls, interleaved at their accesses to the database, every session rests on
the present password if and only if no login issues tokens for a password that has been changed in the
meantime, and no session is created between the deletion of a change and its commit. -/
theorem password_revokes {bcrypt : Bcrypt} {es : List (Server.Time × AuthInput)}
    (hes : (authServer bcrypt).Allowed .start es) :
    (authServer bcrypt).Throughout AuthServer.Current .start es ↔
      ((authServer bcrypt).restrict AuthServer.UpToDate).Allowed .start es := by
  have hsound : AuthServer.start.Sound :=
    ⟨fun _ h => (by cases h), fun _ h => (by cases h), fun _ h => (by cases h), fun _ h => (by cases h)⟩
  refine Machine.throughout_iff_of (I := AuthServer.Sound) (fun s e h hcurrent he hdate => ?_)
    (fun s e h hcurrent he => ?_) hsound hsound.current hes
  · exact (h.step he).2 hdate
  · exact (h.step he).1

/-- She changes her password and logs in with the new one. -/
def changedFirst : List (Server.Time × AuthInput) :=
  registered ++ [.call (.changePassword 1 [1] [2]), .resume 0, .resume 0, .resume 0, .call (.login [97] [2] [0]),
    .resume 0, .resume 0, .resume 0, .resume 0, .resume 0].map (0, ·)

theorem password_revokes_first : (authServer .plain).Throughout AuthServer.Current .start changedFirst :=
  (password_revokes (by decide)).mpr (by decide)

/-- She changes her password while a login with the old one, which was verified before, is under way. -/
def changedMeanwhile : List (Server.Time × AuthInput) :=
  registered ++ [.call (.login [97] [1] [0]), .resume 0, .call (.changePassword 1 [1] [2]), .resume 1, .resume 1,
    .resume 1, .resume 0, .resume 0, .resume 0, .resume 0].map (0, ·)

/-- The session of the login stays. -/
theorem old_password_stays :
    (authServer .plain).Allowed .start changedMeanwhile ∧
      ¬(authServer .plain).Throughout AuthServer.Current .start changedMeanwhile :=
  ⟨by decide, fun h => absurd h.last (by decide)⟩

end Vesper.Auth
