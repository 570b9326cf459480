import Vesper.Client.TokenRefresh
import Vesper.Auth.SingleUse

/-!
# A browser that stays signed in

The refresh token of a browser is used once, and the next one comes with the answer. As long as no answer that
carries one is lost and no request is given up on its way, the tabs that take turns at the lock always have the
token of the session, and none of them is signed out.
-/

namespace Vesper.Client.TokenRefresh
open Vesper.Auth (AuthServer Bcrypt Token TokenPair Session hashToken)
open Vesper.Server (Time)

/-! ## A call with nothing in between -/

/-- How many stretches a call takes at most. -/
def stretches : Auth.Call → Nat
  | .login .. => 6
  | .findExisting .. => 5
  | .countSessions .. | .refresh _ => 4
  | .evict .. | .rotateTokens .. | .changePassword .. | .resetPassword .. => 3
  | .createTokens .. | .rotateCurrent .. | .verifyEmail _ | .forgotPassword _ | .revoke _ => 2
  | .create .. | .rotateUpdate .. | .register .. | .verifyUpdate _ | .logout _ | .logoutAll _ | .forgotUpdate ..
  | .commit .. => 1

/-- A session that is rotated for a refresh token has it still. -/
def Fits (s : AuthServer) : Auth.Call → Prop
  | .rotateTokens (.session token _) sessionId _ | .rotateCurrent (.session token _) sessionId _
  | .rotateUpdate (.session token _) sessionId _ _ =>
    ∀ session ∈ s.findSession sessionId, session.refreshToken = hashToken token
  | _ => True

/-- A session has the token. -/
def Holds (s : AuthServer) (cookie : Token) : Prop := ∃ session ∈ s.sessions, session.refreshToken = hashToken cookie

section
variable {s : AuthServer} {bcrypt : Bcrypt} {now : Time} {call : Auth.Call} {n : Nat} {cookie : Token}

theorem Fits.inTime (h : Fits s call) : call.InTime s := by
  cases call with
  | rotateUpdate grounds =>
    cases grounds with
    | password => trivial
    | session => exact h
  | _ => trivial

theorem stretches_le : stretches call ≤ 6 := by
  cases call <;> exact Nat.le_of_ble_eq_true rfl

theorem Fits.of_request (h : call.request) : Fits s call := by
  cases call <;> trivial

/-- What is left of a call that goes on alone. -/
def Left (s : AuthServer) (n : Nat) : Prop :=
  s.calls = [] ∨ ∃ call, s.calls = [call] ∧ stretches call ≤ n ∧ Fits s call

theorem left_idle (h : s.calls = []) : Left s n := .inl h

theorem left_suspend {t : AuthServer} (ht : t.calls = []) (hn : stretches call ≤ n) (hfits : Fits t call) :
    Left (t.suspend call) n := by
  refine .inr ⟨call, ?_, hn, ?_⟩
  · rw [AuthServer.suspend, ht]
    rfl
  · cases call <;> exact hfits

theorem left_generateTokens (hs : s.calls = []) {userId : Server.UserId} {rest : TokenPair → Auth.Call}
    (hn : ∀ pair, stretches (rest pair) ≤ n)
    (hfits : ∀ pair tokens, Fits { s with tokens } (rest pair)) : Left (s.generateTokens userId rest) n := by
  rw [AuthServer.generateTokens]
  split
  · exact left_idle hs
  · exact left_suspend hs (hn _) (hfits _ _)

theorem findSession_of_mem (h : s.Kept) {session : Session} (hmem : session ∈ s.sessions) :
    s.findSession session.id = some session := by
  cases hfind : s.findSession session.id with
  | none =>
    exact absurd (decide_eq_true rfl) (List.find?_eq_none.mp hfind session hmem)
  | some other =>
    obtain ⟨hother, hid⟩ := AuthServer.findSession_spec hfind
    rw [h.ids other hother session hmem hid]

/-- A stretch less is left. -/
theorem left_run (h : s.Kept) (hs : s.calls = []) (hn : stretches call ≤ n + 1) (hfits : Fits s call) :
    Left (s.run bcrypt now call) n := by
  cases call with
  | register dto userAgent =>
    rw [AuthServer.run]
    split
    · exact left_idle hs
    split
    · exact left_idle hs
    rw [AuthServer.registerUser]
    split <;> exact left_idle hs
  | verifyEmail token =>
    rw [AuthServer.run]
    split
    · exact left_idle hs
    · exact left_suspend hs (Nat.le_of_succ_le_succ hn) trivial
  | login email password userAgent =>
    rw [AuthServer.run]
    split
    · exact left_idle hs
    split
    · exact left_idle hs
    split
    · exact left_idle hs
    · exact left_suspend hs (Nat.le_of_succ_le_succ hn) trivial
  | findExisting userId userAgent version =>
    have hle : 4 ≤ n := Nat.le_of_succ_le_succ hn
    rw [AuthServer.run]
    split
    · exact left_suspend hs (Nat.le_of_succ_le hle) trivial
    · exact left_suspend hs hle trivial
  | countSessions userId userAgent version =>
    have hle : 3 ≤ n := Nat.le_of_succ_le_succ hn
    rw [AuthServer.run]
    split
    · cases ((s.sessions.filter (·.userId = userId)).insertionSort (·.createdAt ≤ ·.createdAt)).head? with
      | none => exact left_idle hs
      | some oldest => exact left_suspend hs hle trivial
    · exact left_suspend hs (Nat.le_of_succ_le hle) trivial
  | evict userId userAgent version sessionId =>
    rw [AuthServer.run]
    split
    · exact left_idle hs
    · exact left_suspend hs (Nat.le_of_succ_le_succ hn) trivial
  | createTokens userId userAgent version =>
    exact left_generateTokens hs (fun _ => Nat.le_of_succ_le_succ hn) fun _ _ => trivial
  | refresh token =>
    rw [AuthServer.run]
    split
    · exact left_idle hs
    · rename_i session hfind
      split
      · exact left_idle hs
      · refine left_suspend hs (Nat.le_of_succ_le_succ hn) fun other hother => ?_
        rw [findSession_of_mem h (List.mem_of_find?_eq_some hfind)] at hother
        obtain rfl := Option.some.inj hother
        exact of_decide_eq_true (List.find?_some hfind :)
  | rotateTokens grounds sessionId userId =>
    refine left_generateTokens hs (fun _ => Nat.le_of_succ_le_succ hn) fun _ _ => ?_
    cases grounds <;> exact hfits
  | rotateCurrent grounds sessionId pair =>
    refine left_suspend hs (Nat.le_of_succ_le_succ hn) ?_
    cases grounds <;> exact hfits
  | rotateUpdate grounds sessionId pair current =>
    rw [AuthServer.run]
    split <;> exact left_idle hs
  | forgotPassword email =>
    rw [AuthServer.run]
    split
    · exact left_idle hs
    · split
      · exact left_idle hs
      · exact left_suspend hs (Nat.le_of_succ_le_succ hn) trivial
  | changePassword userId oldPass newPass =>
    rw [AuthServer.run]
    split
    · exact left_idle hs
    · split
      · exact left_idle hs
      · exact left_suspend hs (Nat.le_of_succ_le_succ hn) trivial
  | resetPassword token newPassword =>
    rw [AuthServer.run]
    split
    · exact left_idle hs
    · exact left_suspend hs (Nat.le_of_succ_le_succ hn) trivial
  | revoke change => exact left_suspend hs (Nat.le_of_succ_le_succ hn) trivial
  | verifyUpdate | create | logout | logoutAll | forgotUpdate | commit => exact left_idle hs

theorem finish_idle (h : s.calls = []) : finish bcrypt now n s = s := by
  cases n with
  | zero => rfl
  | succ n => rw [finish, if_pos h]

theorem finish_alone (h : s.calls = [call]) :
    finish bcrypt now (n + 1) s = finish bcrypt now n (({ s with calls := [] } : AuthServer).run bcrypt now call) := by
  rw [finish, if_neg (by rw [h]; exact List.cons_ne_nil _ _), AuthServer.step, h]
  rfl

/-- A call that goes on alone comes to its end, and refresh tokens are used once. -/
theorem finish_spec (h : s.Kept) (hleft : Left s n) :
    (finish bcrypt now n s).Kept ∧ (finish bcrypt now n s).calls = [] := by
  induction n generalizing s with
  | zero =>
    refine ⟨h, hleft.resolve_right ?_⟩
    rintro ⟨call, -, hn, -⟩
    cases call <;> cases hn
  | succ n ih =>
    rcases hleft with hidle | ⟨call, hcalls, hn, hfits⟩
    · rw [finish_idle hidle]
      exact ⟨h, hidle⟩
    · rw [finish_alone hcalls]
      have hget : s.calls[0]? = some call := by rw [hcalls]; rfl
      obtain ⟨hbefore, hnodup, hown⟩ := h.unlink hget
      have hbare : ({ s with calls := [] } : AuthServer).Kept :=
        hbefore.of_le rfl rfl rfl (List.nil_sublist _) (Nat.le_refl _)
      have hfits' : Fits { s with calls := [] } call := by cases call <;> exact hfits
      refine ih (hbare.run hnodup (fun token htoken => ?_) hfits'.inTime) (left_run hbare rfl hn hfits')
      obtain ⟨hlt, hunused, -⟩ := hown token htoken
      exact ⟨hlt, ⟨hunused.journal, hunused.sessions⟩, fun _ hother => absurd hother List.not_mem_nil⟩

variable (bcrypt now) in
theorem serve_spec (h : s.Kept) (hidle : s.calls = []) (hrequest : call.request) :
    (serve bcrypt now s call).Kept ∧ (serve bcrypt now s call).calls = [] := by
  have hbefore : ({ s with reply := none } : AuthServer).Kept := h.of_le rfl rfl rfl (List.Sublist.refl _) (Nat.le_refl _)
  refine finish_spec (hbefore.suspend_other ?_) (left_suspend hidle stretches_le (.of_request hrequest))
  cases call <;> first | rfl | cases hrequest

variable (bcrypt) in
/-- A refresh with the token of a session that has not expired: the session has the new token, or nothing has
happened to it. -/
theorem serve_refresh (h : s.Kept) (hidle : s.calls = []) {session : Session} (hmem : session ∈ s.sessions)
    (htoken : session.refreshToken = hashToken cookie) (hlive : ¬session.expiresAt < now) :
    ((serve bcrypt now s (.refresh cookie)).reply = some (.failed .recordNotFound) ∧
        Holds (serve bcrypt now s (.refresh cookie)) cookie) ∨
      ∃ pair, (serve bcrypt now s (.refresh cookie)).reply = some (.tokens pair) ∧
        Holds (serve bcrypt now s (.refresh cookie)) pair.refreshToken := by
  have hfind : s.sessions.find? (·.refreshToken = hashToken cookie) = some session := by
    cases hfind : s.sessions.find? (·.refreshToken = hashToken cookie) with
    | none => exact absurd (decide_eq_true htoken) (List.find?_eq_none.mp hfind session hmem)
    | some other =>
      have hother : other.refreshToken = hashToken cookie := of_decide_eq_true (List.find?_some hfind :)
      rw [h.same other (List.mem_of_find?_eq_some hfind) session hmem (hother.trans htoken.symm)]
  have hid : s.sessions.find? (·.id = session.id) = some session := findSession_of_mem h hmem
  have hcalls : (({ s with reply := none } : AuthServer).suspend (.refresh cookie)).calls = [.refresh cookie] := by
    rw [AuthServer.suspend, hidle]
    rfl
  rw [serve, finish_alone hcalls]
  simp only [AuthServer.run, AuthServer.suspend, hfind, if_neg hlive]
  rw [finish_alone rfl]
  simp only [AuthServer.run, AuthServer.generateTokens, AuthServer.findUser]
  cases huser : s.users.find? (·.id = session.userId) with
  | none =>
    -- nobody has the session any more
    dsimp only
    rw [finish_idle rfl]
    exact .inl ⟨rfl, session, hmem, htoken⟩
  | some user =>
    dsimp only
    rw [finish_alone rfl]
    rw [AuthServer.run, finish_alone rfl]
    simp only [AuthServer.run, AuthServer.suspend, AuthServer.findSession, hid]
    rw [finish_idle rfl]
    exact .inr ⟨_, rfl, _, List.mem_map.mpr ⟨session, hmem, if_pos rfl⟩, rfl⟩

end

/-! ## The token of the browser -/

/-- The refresh token that comes with an answer. -/
def Task.fetched : Task → Option Token
  | answered _ (.ok _ cookie) => some cookie
  | _ => none

/-- The refresh token that the browser has last been given. -/
def Browser.Latest (b : Browser) (tasks : List Task) (cookie : Token) : Prop :=
  cookie ∈ tasks.filterMap Task.fetched ∨ tasks.filterMap Task.fetched = [] ∧ b.jar = some cookie

/-- No request for tokens is given up on its way or served when the session has expired, and no answer with
tokens is lost. -/
def Task.Undisturbed (b : Browser) (env : Env) : Task → Prop
  | posted _ cookie => env.fate ≠ .stalled ∧
    ∀ session ∈ b.server.sessions, cookie.map hashToken = some session.refreshToken → ¬session.expiresAt < env.now
  | answered _ (.ok ..) => env.fate = .through
  | _ => True

/-- Nobody else ends the session of the browser. -/
def Browser.Undisturbed (bcrypt : Bcrypt) (b : Browser) : Event → Prop
  | .resume i env => ∀ t ∈ b.tasks[i]?, t.Undisturbed b env
  | .outside now call => ∀ session ∈ b.server.sessions, b.Latest b.tasks session.refreshToken.token →
    Holds (serve bcrypt now b.server call) session.refreshToken.token
  | .request .. | .refresh _ | .storage _ | .arrive _ => True

instance (s : AuthServer) (cookie : Token) : Decidable (Holds s cookie) :=
  inferInstanceAs (Decidable (∃ session ∈ s.sessions, session.refreshToken = hashToken cookie))

instance (b : Browser) (tasks : List Task) (cookie : Token) : Decidable (b.Latest tasks cookie) :=
  inferInstanceAs (Decidable (_ ∨ _ ∧ _))

instance (b : Browser) (env : Env) : (t : Task) → Decidable (t.Undisturbed b env)
  | .posted .. => inferInstanceAs (Decidable (_ ≠ _ ∧ ∀ session ∈ b.server.sessions, _))
  | .answered _ (.ok ..) => inferInstanceAs (Decidable (_ = _))
  | .answered _ .unauthorized | .answered _ .failed | .prepare .. | .sent .. | .await .. | .lock _ | .post _ | .sleep _
  | .logout _ | .signOut _ | .settle .. => .isTrue trivial

instance (bcrypt : Bcrypt) (b : Browser) : (e : Event) → Decidable (b.Undisturbed bcrypt e)
  | .resume i env => inferInstanceAs (Decidable (∀ t ∈ b.tasks[i]?, t.Undisturbed b env))
  | .outside .. => inferInstanceAs (Decidable (∀ session ∈ b.server.sessions, _ → _))
  | .request .. | .refresh _ | .storage _ | .arrive _ => .isTrue trivial

/-- A task that nothing has been refused. -/
def Task.Calm (b : Browser) : Task → Prop
  | posted _ cookie => cookie = b.jar
  | answered _ .unauthorized | logout _ | signOut _ => False
  | _ => True

theorem Task.Calm.congr {b c : Browser} {t : Task} (h : t.Calm b) (hjar : c.jar = b.jar) : t.Calm c := by
  cases t with
  | posted run cookie => exact Eq.trans h hjar.symm
  | answered run answer => cases answer <;> exact h
  | _ => exact h

/-- Nothing was refused, and nobody is signed out. -/
def Entry.Calm : Entry → Prop
  | emitted .. | posted _ => True
  | unauthorized _ | signedOut _ => False

/-- The server has the session of the token that the browser has last been given. `signed` are the tabs that
have had an access token. -/
structure SignedIn (signed : TabId → Prop) (b : Browser) (tasks : List Task) : Prop where
  kept : b.server.Kept
  idle : b.server.calls = []
  late : b.late = []
  told : ∀ tab, b.told tab = false
  log : ∀ e ∈ b.log, e.Calm
  calm : ∀ t ∈ tasks, t.Calm b
  jar : ∃ cookie, b.jar = some cookie
  current : ∀ cookie, b.Latest tasks cookie → Holds b.server cookie
  tokens : ∀ tab, signed tab → (b.tab tab).accessToken ≠ none

namespace SignedIn
variable {signed : TabId → Prop} {b c : Browser} {tasks tasks' : List Task} {t u : Task} {tab : TabId} {run : Run}
  {cookie : Token}

theorem perm (h : SignedIn signed b tasks) (hperm : tasks.Perm tasks') : SignedIn signed b tasks' := by
  refine { h with calm := fun t ht => h.calm t (hperm.mem_iff.mpr ht), current := fun cookie hlatest => ?_ }
  have hfetched := hperm.filterMap Task.fetched
  refine h.current cookie (hlatest.imp hfetched.mem_iff.mpr fun hjar => ⟨?_, hjar.2⟩)
  exact List.Perm.eq_nil (hjar.1 ▸ hfetched)

/-- What the browser and the server know of the session does not change. -/
theorem congr (h : SignedIn signed b tasks) (hserver : c.server = b.server) (hjar : c.jar = b.jar)
    (hlate : c.late = b.late) (htold : c.told = b.told) (hlog : c.log = b.log)
    (htokens : ∀ tab, (c.tab tab).accessToken = (b.tab tab).accessToken) : SignedIn signed c tasks := by
  refine ⟨hserver ▸ h.kept, hserver ▸ h.idle, hlate.trans h.late, fun tab => htold ▸ h.told tab, hlog ▸ h.log,
    fun t ht => (h.calm t ht).congr hjar, hjar ▸ h.jar, fun cookie hlatest => ?_,
    fun tab hsigned => htokens tab ▸ h.tokens tab hsigned⟩
  rw [Browser.Latest, hjar] at hlatest
  rw [hserver]
  exact h.current cookie hlatest

theorem note (h : SignedIn signed b tasks) {e : Entry} (he : e.Calm) : SignedIn signed (b.note e) tasks := by
  refine { h with log := fun e' he' => ?_, calm := fun t ht => (h.calm t ht).congr rfl }
  rcases List.mem_append.mp he' with he' | he'
  · exact h.log e' he'
  · cases List.mem_singleton.mp he'
    exact he

theorem drop (h : SignedIn signed b (t :: tasks)) (hfetched : t.fetched = none) : SignedIn signed b tasks := by
  refine { h with calm := fun t ht => h.calm t (List.mem_cons_of_mem _ ht), current := fun cookie hlatest => ?_ }
  refine h.current cookie ?_
  rw [Browser.Latest, List.filterMap_cons_none hfetched]
  exact hlatest

theorem add (h : SignedIn signed b tasks) (hfetched : t.fetched = none) (hcalm : t.Calm b) :
    SignedIn signed b (t :: tasks) := by
  refine { h with calm := fun t₁ ht₁ => ?_, current := fun cookie hlatest => h.current cookie ?_ }
  · rcases List.mem_cons.mp ht₁ with rfl | ht₁
    · exact hcalm
    · exact h.calm t₁ ht₁
  · rw [Browser.Latest, List.filterMap_cons_none hfetched] at hlatest
    exact hlatest

/-- Only the promise of a tab changes. -/
theorem setPromise (h : SignedIn signed b tasks) (promise : Option RunId) :
    SignedIn signed (b.setTab tab ({ · with refreshPromise := promise })) tasks := by
  refine h.congr rfl rfl rfl rfl rfl fun tab' => ?_
  by_cases htab : tab' = tab
  · rw [htab, Browser.tab_setTab_self]
  · rw [Browser.tab_setTab_of_ne htab]

theorem refreshAccessToken (h : SignedIn signed b tasks) (tab : TabId) (awaiting : Awaiting) :
    SignedIn signed (b.refreshAccessToken tab awaiting).1 ((b.refreshAccessToken tab awaiting).2 :: tasks) := by
  cases hpromise : (b.tab tab).refreshPromise with
  | some id =>
    simp only [Browser.refreshAccessToken, hpromise]
    exact h.add rfl trivial
  | none =>
    have hrun : SignedIn signed { b with runs := b.runs + 1 } tasks := h.congr rfl rfl rfl rfl rfl fun _ => rfl
    simp only [Browser.refreshAccessToken, hpromise]
    exact (hrun.setPromise (some b.runs)).add rfl trivial

theorem emit (h : SignedIn signed b tasks) (tab : TabId) (r : ApiRequest) (token : Option AccessToken) :
    SignedIn signed (b.emit tab r token).1 ((b.emit tab r token).2 :: tasks) :=
  (h.note (e := .emitted r.id (token <|> r.authorization)) trivial).add rfl trivial

theorem proceed (h : SignedIn signed b tasks) (tab : TabId) (result : Option AccessToken) (awaiting : Awaiting) :
    SignedIn signed (b.proceed tab result awaiting).1 ((b.proceed tab result awaiting).2.toList ++ tasks) := by
  cases awaiting with
  | request r => exact h.emit tab r result
  | response r =>
    cases result with
    | none => exact h
    | some token => exact h.add rfl trivial
  | caller => exact h

theorem prepare (h : SignedIn signed b tasks) (now : Time) (tab : TabId) (r : ApiRequest) :
    SignedIn signed (b.prepare now tab r).1 ((b.prepare now tab r).2 :: tasks) := by
  rw [Browser.prepare]
  split
  · split
    · exact h.refreshAccessToken tab (.request r)
    · exact h.emit tab r _
  · exact h.emit tab r none

theorem release (h : SignedIn signed b tasks) (result : Option AccessToken) :
    SignedIn signed (b.release run result).1 ((b.release run result).2.toList ++ tasks) :=
  (h.congr (c := { b with lock := none }) rfl rfl rfl rfl rfl fun _ => rfl).add rfl trivial

/-- An attempt that has failed, and was not refused. -/
theorem retry (h : SignedIn signed b tasks) :
    SignedIn signed (b.retry run false).1 ((b.retry run false).2.toList ++ tasks) := by
  rw [Browser.retry, if_neg Bool.false_ne_true]
  split
  · exact h.add rfl trivial
  · exact h.release none

end SignedIn

/-- Whoever holds the lock is alone. -/
theorem Flight.alone {b : Browser} {tasks : List Task} {t : Task} {id : RunId} (h : Flight true b (t :: tasks))
    (hholds : t.holds = some id) : ∀ u ∈ tasks, u.holds = none := by
  have hlength := h.holds_length rfl
  rw [List.filterMap_cons_some hholds, List.length_cons] at hlength
  exact List.filterMap_eq_nil_iff.mp
    (List.eq_nil_of_length_eq_zero (Nat.le_zero.mp (Nat.le_of_succ_le_succ hlength)))

theorem Task.calm_of_free {b : Browser} {t : Task} (h : t.holds = none) : t.Calm b := by
  cases t with
  | posted | answered | logout | signOut => cases h
  | _ => trivial

theorem Task.fetched_of_free {t : Task} (h : t.holds = none) : t.fetched = none := by
  cases t with
  | answered => cases h
  | _ => rfl

namespace SignedIn
variable {signed : TabId → Prop} {b : Browser} {tasks : List Task} {run : Run} {cookie : Token}

/-- The server answers the only request for tokens. -/
theorem answered (h : SignedIn signed b tasks) (halone : ∀ t ∈ tasks, t.holds = none) {bcrypt : Bcrypt} {now : Time}
    (hlive : ∀ session ∈ b.server.sessions, b.jar.map hashToken = some session.refreshToken → ¬session.expiresAt < now) :
    SignedIn signed { b with server := (serveRefresh bcrypt now b.server b.jar).1 }
      (.answered run (serveRefresh bcrypt now b.server b.jar).2 :: tasks) := by
  obtain ⟨cookie, hjar⟩ := h.jar
  have hfetched : tasks.filterMap Task.fetched = [] :=
    List.filterMap_eq_nil_iff.mpr fun t ht => Task.fetched_of_free (halone t ht)
  obtain ⟨session, hmem, htoken⟩ := h.current cookie (.inr ⟨hfetched, hjar⟩)
  have hserved := serve_refresh bcrypt h.kept h.idle hmem htoken
    (hlive session hmem (by rw [hjar, htoken]; rfl))
  have hrequest : (Auth.Call.refresh cookie).request := rfl
  obtain ⟨hkept, hidle⟩ := serve_spec bcrypt now h.kept h.idle hrequest
  have hserver : (serveRefresh bcrypt now b.server b.jar).1 = serve bcrypt now b.server (.refresh cookie) := by
    rw [hjar]
    rfl
  have hrest : ∀ t ∈ tasks, t.Calm { b with server := (serveRefresh bcrypt now b.server b.jar).1 } :=
    fun t ht => Task.calm_of_free (halone t ht)
  rcases hserved with ⟨hreply, hholds⟩ | ⟨pair, hreply, hholds⟩
  · have hanswer : (serveRefresh bcrypt now b.server b.jar).2 = .failed := by
      rw [hjar]
      simp only [serveRefresh, hreply]
    rw [hanswer]
    have hsame : SignedIn signed { b with server := (serveRefresh bcrypt now b.server b.jar).1 } tasks := by
      refine { h with
        kept := hserver ▸ hkept, idle := hserver ▸ hidle, calm := hrest, current := fun cookie' hlatest => ?_ }
      obtain ⟨-, hjar'⟩ := hlatest.resolve_left fun hmem => by rw [hfetched] at hmem; cases hmem
      obtain rfl := Option.some.inj (hjar.symm.trans hjar')
      exact hserver ▸ hholds
    exact hsame.add rfl trivial
  · obtain ⟨token, hanswer⟩ : ∃ token, (serveRefresh bcrypt now b.server b.jar).2 = .ok token pair.refreshToken := by
      refine ⟨⟨pair.refreshToken, now / 1000 * 1000 + EXPIRES_IN_MS⟩, ?_⟩
      rw [hjar]
      simp only [serveRefresh, hreply]
    rw [hanswer]
    refine { h with
      kept := hserver ▸ hkept, idle := hserver ▸ hidle, calm := fun t ht => ?_, current := fun cookie' hlatest => ?_ }
    · rcases List.mem_cons.mp ht with rfl | ht
      · trivial
      · exact hrest t ht
    · have hnew : (Task.answered run (.ok token pair.refreshToken) :: tasks).filterMap Task.fetched =
          [pair.refreshToken] := by
        show pair.refreshToken :: tasks.filterMap Task.fetched = [pair.refreshToken]
        rw [hfetched]
      rw [Browser.Latest, hnew] at hlatest
      obtain hmem := hlatest.resolve_right fun hnone => by cases hnone.1
      obtain rfl := List.mem_singleton.mp hmem
      exact hserver ▸ hholds

/-- The tokens of an answer are stored. -/
theorem store {token : AccessToken} (h : SignedIn signed b (.answered run (.ok token cookie) :: tasks))
    (halone : ∀ t ∈ tasks, t.holds = none) :
    SignedIn signed (({ b with jar := some cookie } : Browser).setTab run.tab ({ · with accessToken := some token }))
      tasks := by
  have hfetched : tasks.filterMap Task.fetched = [] :=
    List.filterMap_eq_nil_iff.mpr fun t ht => Task.fetched_of_free (halone t ht)
  refine { h with
    calm := fun t ht => Task.calm_of_free (halone t ht), jar := ⟨cookie, rfl⟩, current := fun cookie' hlatest => ?_,
    tokens := fun tab hsigned => ?_ }
  · obtain ⟨-, hjar⟩ := hlatest.resolve_left fun hmem => by rw [hfetched] at hmem; cases hmem
    obtain rfl := Option.some.inj hjar
    exact h.current cookie (.inl List.mem_cons_self)
  · by_cases htab : tab = run.tab
    · rw [htab, Browser.tab_setTab_self]
      exact Option.some_ne_none token
    · rw [Browser.tab_setTab_of_ne htab]
      exact h.tokens tab hsigned

/-- **The step lemma**: one undisturbed stretch of a task. -/
theorem stretch {t : Task} (h : SignedIn signed b (t :: tasks)) (hflight : Flight true b (t :: tasks))
    (bcrypt : Bcrypt) {env : Env} (hcalm : t.Undisturbed b env) :
    SignedIn signed (b.run bcrypt true env t).1 ((b.run bcrypt true env t).2.toList ++ tasks) := by
  have hself := h.calm t List.mem_cons_self
  cases t with
  | prepare tab r => exact (h.drop rfl).prepare env.now tab r
  | sent tab r =>
    rw [Browser.run]
    split
    · exact (h.drop rfl).refreshAccessToken tab _
    · exact h.drop rfl
  | await tab id awaiting =>
    cases hsettled : b.settled id with
    | none =>
      simp only [Browser.run, hsettled]
      exact h
    | some result =>
      simp only [Browser.run, hsettled]
      exact (h.drop rfl).proceed tab result awaiting
  | lock run =>
    have hpost := (h.drop rfl).add (t := .post run) rfl trivial
    rw [Browser.run]
    split
    · exact hpost
    · split
      · exact hpost.congr rfl rfl rfl rfl rfl fun _ => rfl
      · exact h
  | post run => exact ((h.drop rfl).add (t := .posted run b.jar) rfl rfl).note (e := .posted run.id) trivial
  | posted run cookie =>
    obtain rfl : cookie = b.jar := hself
    obtain ⟨hfate, hlive⟩ := hcalm
    cases hthrough : env.fate with
    | through =>
      simp only [Browser.run, hthrough]
      exact (h.drop rfl).answered (hflight.alone rfl) hlive
    | lost =>
      simp only [Browser.run, hthrough]
      exact (h.drop rfl).retry
    | stalled => exact absurd hthrough hfate
  | answered run answer =>
    cases answer with
    | ok token cookie =>
      have hthrough : env.fate = .through := hcalm
      simp only [Browser.run, hthrough]
      exact (h.store (hflight.alone rfl)).release (some token)
    | unauthorized => exact hself.elim
    | failed =>
      cases hfate : env.fate <;> simp only [Browser.run, hfate] <;> exact (h.drop rfl).retry
  | sleep run => exact (h.drop rfl).add rfl trivial
  | logout run => exact hself.elim
  | signOut run => exact hself.elim
  | settle run result =>
    have hsettled : SignedIn signed { b with settled := Function.update b.settled run.id (some result) } tasks :=
      (h.drop rfl).congr rfl rfl rfl rfl rfl fun _ => rfl
    exact (hsettled.setPromise none).proceed run.tab result run.awaiting

theorem next {bcrypt : Bcrypt} (h : SignedIn signed b b.tasks) (hflight : Flight true b b.tasks) {e : Event}
    (he : b.Enabled true e) (hcalm : b.Undisturbed bcrypt e) :
    SignedIn signed (b.next bcrypt true e) (b.next bcrypt true e).tasks := by
  cases e with
  | request tab bypassUrl =>
    have hadd := h.add (t := .prepare tab ⟨b.requests, bypassUrl, false, none⟩) rfl trivial
    exact (hadd.perm (List.perm_append_singleton _ _).symm).congr rfl rfl rfl rfl rfl fun _ => rfl
  | refresh tab =>
    have hadd := h.refreshAccessToken tab .caller
    exact (hadd.perm (List.perm_append_singleton _ _).symm).congr rfl rfl rfl rfl rfl fun _ => rfl
  | resume i env =>
    obtain ⟨t, ht, hready⟩ := he
    obtain ⟨tasks, hperm, hnext⟩ := Browser.next_resume bcrypt true env ht
    have hsplit := (perm_resumed ht none).1
    rw [hnext]
    have hrun := (h.perm hsplit).stretch (hflight.perm hsplit) bcrypt (hcalm t ht)
    exact (hrun.perm hperm.symm).congr rfl rfl rfl rfl rfl fun _ => rfl
  | storage tab =>
    rw [Browser.Enabled, h.told tab] at he
    cases he
  | arrive now => exact absurd h.late he
  | outside now call =>
    obtain ⟨hkept, hidle⟩ := serve_spec bcrypt now h.kept h.idle he
    refine { h with
      kept := hkept, idle := hidle, calm := fun t ht => (h.calm t ht).congr rfl, current := fun cookie hlatest => ?_ }
    obtain ⟨session, hmem, htoken⟩ := h.current cookie hlatest
    obtain rfl : session.refreshToken.token = cookie := congrArg Auth.TokenHash.token htoken
    exact hcalm session hmem hlatest

end SignedIn

/-! ## All runs -/

section
variable {bcrypt : Bcrypt} {server : AuthServer} {cookie : Token} {tab : TabId → Option AccessToken} {b : Browser}

theorem kept_of_reachable (h : ((Auth.authServer bcrypt).restrict AuthServer.InTime).Reachable server) : server.Kept := by
  refine Machine.Reachable.invariant (M := (Auth.authServer bcrypt).restrict AuthServer.InTime) (I := AuthServer.Kept)
    ?_ (fun s e _ h he => (h.step he.1).2 he.2) h
  exact ⟨fun _ h => (by cases h), fun _ h => (by cases h), fun _ h => (by cases h), fun _ h => (by cases h),
    fun _ h => (by cases h), List.nodup_nil, fun _ _ => ⟨fun _ h => (by cases h), fun _ h => (by cases h)⟩,
    fun _ => Nat.zero_le _, fun _ _ ⟨_, h, _⟩ => (by cases h)⟩

/-- **The tabs stay signed in.** In every run of the tabs of a browser that has the session of its cookie, in
which no request for tokens is given up on its way or served late, no answer with tokens is lost, and nobody else
ends the session: no refresh is refused, no tab is signed out or loses its access token, and the server has the
session of the token that the browser has last been given. -/
theorem stays_signed_in (hserver : ((Auth.authServer bcrypt).restrict AuthServer.InTime).Reachable server)
    (hidle : server.calls = []) (hcookie : Holds server cookie)
    (hb : ((browser bcrypt true server cookie tab).restrict (Browser.Undisturbed bcrypt)).Reachable b) :
    (∀ id, .unauthorized id ∉ b.log ∧ .signedOut id ∉ b.log) ∧
      (∀ id, tab id ≠ none → (b.tab id).accessToken ≠ none) ∧
      (∃ cookie, b.Latest b.tasks cookie) ∧ ∀ cookie, b.Latest b.tasks cookie → Holds b.server cookie := by
  have hstart : Flight true (Browser.start server cookie tab) [] :=
    flight_of_reachable (Machine.Reachable.init (M := browser bcrypt true server cookie tab))
  have hinv : Flight true b b.tasks ∧ SignedIn (tab · ≠ none) b b.tasks := by
    refine Machine.Reachable.invariant (M := (browser bcrypt true server cookie tab).restrict (Browser.Undisturbed bcrypt))
      (I := fun b => Flight true b b.tasks ∧ SignedIn (tab · ≠ none) b b.tasks) ⟨hstart, ?_⟩
      (fun b e _ h he => ⟨h.1.next he.1, h.2.next h.1 he.1 he.2⟩) hb
    refine ⟨kept_of_reachable hserver, hidle, rfl, fun _ => rfl, fun _ he => absurd he List.not_mem_nil,
      fun _ ht => absurd ht List.not_mem_nil, ⟨cookie, rfl⟩, fun cookie' hlatest => ?_, fun _ hsigned => hsigned⟩
    obtain rfl := Option.some.inj (hlatest.resolve_left List.not_mem_nil).2
    exact hcookie
  obtain ⟨-, h⟩ := hinv
  refine ⟨fun id => ⟨fun hid => h.log _ hid, fun hid => h.log _ hid⟩, h.tokens, ?_, h.current⟩
  cases hfetched : b.tasks.filterMap Task.fetched with
  | nil =>
    obtain ⟨cookie, hjar⟩ := h.jar
    exact ⟨cookie, .inr ⟨hfetched, hjar⟩⟩
  | cons cookie rest => exact ⟨cookie, .inl (hfetched ▸ List.mem_cons_self)⟩

/-- Alice's browser, of which one tab has a token that is about to expire. -/
abbrev aliceSignedIn : Machine Browser Event :=
  browser .plain true ((Auth.authServer .plain).exec .start Auth.registered) 1 fun id =>
    if id = 0 then some ⟨1, 5000⟩ else none

/-- The tab sends a request while another one refreshes, and they take turns. -/
def inTurn : List Event :=
  .request 0 false :: .resume 0 ⟨0, .through, 200⟩ :: .refresh 1 ::
    [0, 0, 0, 0, 1, 1, 1, 1, 0, 1].map (.resume · ⟨0, .through, 200⟩)

theorem stays_signed_in_inTurn :
    (∀ id, .unauthorized id ∉ (aliceSignedIn.exec aliceSignedIn.init inTurn).log ∧
        .signedOut id ∉ (aliceSignedIn.exec aliceSignedIn.init inTurn).log) ∧
      (aliceSignedIn.exec aliceSignedIn.init inTurn).jar = some 3 ∧
      (aliceSignedIn.exec aliceSignedIn.init inTurn).tasks = [.sent 0 ⟨0, false, false, some ⟨2, 900000⟩⟩] := by
  have hserver : ((Auth.authServer .plain).restrict AuthServer.InTime).Allowed .start Auth.registered := by decide
  have hallowed : (aliceSignedIn.restrict (Browser.Undisturbed .plain)).Allowed aliceSignedIn.init inTurn := by decide
  have hall := stays_signed_in (Machine.Reachable.init.exec hserver) rfl ⟨_, List.mem_cons_self, rfl⟩
    (Machine.Reachable.init.exec hallowed)
  exact ⟨hall.1, by decide, by decide⟩

-- A browser that has lost an answer asks with a token that is used up, and is signed out.
example :
    .signedOut 0 ∈ (aliceSignedIn.exec aliceSignedIn.init (.refresh 0 ::
      [⟨0, .through, 0⟩, ⟨0, .through, 0⟩, ⟨0, .through, 0⟩, ⟨0, .lost, 0⟩, ⟨0, .through, 0⟩, ⟨0, .through, 0⟩,
        ⟨0, .through, 0⟩, ⟨0, .through, 0⟩, ⟨0, .through, 0⟩, ⟨0, .through, 0⟩, ⟨0, .through, 0⟩, ⟨0, .through, 0⟩,
        ⟨0, .through, 0⟩, ⟨0, .through, 0⟩].map (.resume 0))).log := by
  decide

end

end Vesper.Client.TokenRefresh
