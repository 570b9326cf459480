import Mathlib.Data.List.Perm.Basic
import Vesper.Auth.Sessions

/-!
# Access tokens of several tabs

The interceptors and `refreshAccessToken` of `axios.ts`, in the tabs of one browser, which share the cookie
of the session, the lock `refresh_token_lock` and the entry `auth-storage`. A tab refreshes once at a time,
and the tabs one after the other; a request is sent again at most once; and only answers that refuse the
refresh token end a session in the browser.
-/

namespace Vesper.Client.TokenRefresh
open Vesper.Auth (AuthServer Bcrypt Token)
open Vesper.Server (Time)

/-! ## The browser -/

abbrev TabId := Nat
abbrev RunId := Nat

/-- The access token that goes with a refresh token. `expires` is `exp * 1000`. -/
structure AccessToken where
  number : Token
  expires : Time
  deriving DecidableEq, Repr

/-- A request of `api`, with `_retry` and the header of its configuration. -/
structure ApiRequest where
  id : Nat
  bypassUrl : Bool
  retry : Bool
  authorization : Option AccessToken
  deriving DecidableEq, Repr

/-- Who awaits `refreshAccessToken`: an interceptor, or code that takes no notice of the token. -/
inductive Awaiting
  | request (r : ApiRequest)
  | response (r : ApiRequest)
  | caller
  deriving DecidableEq, Repr

/-- A run of `_doRefresh`, for the one who has started it. -/
structure Run where
  id : RunId
  tab : TabId
  attempt : Nat
  unauthorizedCount : Nat
  awaiting : Awaiting
  deriving DecidableEq, Repr

/-- The answer to `POST /auth/refresh`. -/
inductive Answer
  | ok (token : AccessToken) (cookie : Token)
  /-- 401 or 403 -/
  | unauthorized
  | failed
  deriving DecidableEq, Repr

/-- What goes on in a tab, from one suspension to the next. -/
inductive Task
  | prepare (tab : TabId) (r : ApiRequest)
  | sent (tab : TabId) (r : ApiRequest)
  | await (tab : TabId) (run : RunId) (awaiting : Awaiting)
  | lock (run : Run)
  | post (run : Run)
  | posted (run : Run) (cookie : Option Token)
  | answered (run : Run) (answer : Answer)
  | sleep (run : Run)
  | logout (run : Run)
  | signOut (run : Run)
  | settle (run : Run) (result : Option AccessToken)
  deriving DecidableEq, Repr

structure Tab where
  accessToken : Option AccessToken
  refreshPromise : Option RunId
  deriving DecidableEq, Repr

/-- What has happened; no step reads it. -/
inductive Entry
  | emitted (request : Nat) (authorization : Option AccessToken)
  | posted (run : RunId)
  | unauthorized (run : RunId)
  | signedOut (run : RunId)
  deriving DecidableEq, Repr

structure Browser where
  tab : TabId → Tab
  /-- What the promise of a run has resolved to. -/
  settled : RunId → Option (Option AccessToken)
  tasks : List Task
  runs : Nat
  requests : Nat
  /-- The holder of `refresh_token_lock`. -/
  lock : Option RunId
  /-- The cookie `refreshToken`. -/
  jar : Option Token
  /-- Tabs that another one has signed out, and that have not been told yet. -/
  told : TabId → Bool
  server : AuthServer
  /-- Cookies of requests that were given up, and may still get to the server. -/
  late : List (Option Token)
  log : List Entry

/-! ## The server -/

def EXPIRES_IN_MS : Int := 15 * 60 * 1000

/-- A call with nothing in between, of at most so many stretches. -/
def finish (bcrypt : Bcrypt) (now : Time) : Nat → AuthServer → AuthServer
  | 0, s => s
  | n + 1, s => if s.calls = [] then s else finish bcrypt now n (s.step bcrypt now (.resume 0))

def serve (bcrypt : Bcrypt) (now : Time) (s : AuthServer) (call : Auth.Call) : AuthServer :=
  finish bcrypt now 6 (({ s with reply := none } : AuthServer).suspend call)

/-- `POST /auth/refresh` with the cookie, if there is one. -/
def serveRefresh (bcrypt : Bcrypt) (now : Time) (s : AuthServer) : Option Token → AuthServer × Answer
  | none => (s, .unauthorized)
  | some cookie =>
    let s := serve bcrypt now s (.refresh cookie)
    (s, match s.reply with
      | some (.tokens pair) => .ok ⟨pair.refreshToken, now / 1000 * 1000 + EXPIRES_IN_MS⟩ pair.refreshToken
      | some (.failed (.unauthorized _)) => .unauthorized
      | _ => .failed)

/-! ## Steps -/

def RETRY_DELAYS_MS : List Nat := [2000, 5000, 8000]
def MAX_401_RETRIES : Nat := 1

/-- What becomes of a request on its way: `stalled` is one that the browser gives up while it is still
under way. -/
inductive Fate
  | through | lost | stalled
  deriving DecidableEq, Repr

/-- What a task meets: the time, the fate of a request for the session, and the answer to another one. -/
structure Env where
  now : Time
  fate : Fate
  status : Nat
  deriving DecidableEq, Repr

namespace Browser
variable (b : Browser) (bcrypt : Bcrypt) (hasLocks : Bool)

def note (e : Entry) : Browser := { b with log := b.log ++ [e] }

def setTab (tab : TabId) (f : Tab → Tab) : Browser := { b with tab := Function.update b.tab tab (f (b.tab tab)) }

variable {b} in
@[simp] theorem tab_setTab_self {tab : TabId} {f : Tab → Tab} : (b.setTab tab f).tab tab = f (b.tab tab) :=
  Function.update_self ..

variable {b} in
theorem tab_setTab_of_ne {tab tab' : TabId} {f : Tab → Tab} (h : tab' ≠ tab) :
    (b.setTab tab f).tab tab' = b.tab tab' :=
  Function.update_of_ne h ..

/-- Only the access token changes. -/
theorem promise_setTab {b : Browser} {tab : TabId} {token : Option AccessToken} (tab' : TabId) :
    ((b.setTab tab ({ · with accessToken := token })).tab tab').refreshPromise = (b.tab tab').refreshPromise := by
  by_cases h : tab' = tab
  · rw [h, tab_setTab_self]
  · rw [tab_setTab_of_ne h]

/-- `refreshAccessToken` -/
def refreshAccessToken (tab : TabId) (awaiting : Awaiting) : Browser × Task :=
  match (b.tab tab).refreshPromise with
  | some run => (b, .await tab run awaiting)
  | none =>
    (({ b with runs := b.runs + 1 } : Browser).setTab tab ({ · with refreshPromise := some b.runs }),
      .lock ⟨b.runs, tab, 0, 0, awaiting⟩)

/-- The request goes out with the token, or else with the header that it has. -/
def emit (tab : TabId) (r : ApiRequest) (token : Option AccessToken) : Browser × Task :=
  let r := { r with authorization := token <|> r.authorization }
  (b.note (.emitted r.id r.authorization), .sent tab r)

/-- The interceptor of requests. -/
def prepare (now : Time) (tab : TabId) (r : ApiRequest) : Browser × Task :=
  match (b.tab tab).accessToken with
  | some token =>
    if token.expires < now + 10000 then b.refreshAccessToken tab (.request r) else b.emit tab r (some token)
  | none => b.emit tab r none

/-- The awaiting code goes on with what the promise has resolved to. -/
def proceed (tab : TabId) (result : Option AccessToken) : Awaiting → Browser × Option Task
  | .request r => ((b.emit tab r result).1, some (b.emit tab r result).2)
  | .response r =>
    match result with
    | none => (b, none)
    | some token => (b, some (.prepare tab { r with authorization := some token }))
  | .caller => (b, none)

/-- The callback of `navigator.locks.request` is over. -/
def release (run : Run) (result : Option AccessToken) : Browser × Option Task :=
  ({ b with lock := none }, some (.settle run result))

/-- The `catch` of the loop in `_doRefresh`. -/
def retry (run : Run) (unauthorized : Bool) : Browser × Option Task :=
  if unauthorized then
    let run := { run with unauthorizedCount := run.unauthorizedCount + 1 }
    let b := b.note (.unauthorized run.id)
    if run.unauthorizedCount ≤ MAX_401_RETRIES ∧ run.attempt < RETRY_DELAYS_MS.length then (b, some (.sleep run))
    else (b, some (.logout run))
  else if run.attempt < RETRY_DELAYS_MS.length then (b, some (.sleep run))
  else b.release run none

/-- One stretch of a task, and what it goes on as. Without `navigator.locks` nothing is waited for. -/
def run (env : Env) : Task → Browser × Option Task
  | .prepare tab r => ((b.prepare env.now tab r).1, some (b.prepare env.now tab r).2)
  | .sent tab r =>
    if env.status = 401 ∧ ¬r.retry ∧ ¬r.bypassUrl then
      let started := b.refreshAccessToken tab (.response { r with retry := true })
      (started.1, some started.2)
    else (b, none)
  | .await tab run awaiting =>
    match b.settled run with
    | some result => b.proceed tab result awaiting
    | none => (b, some (.await tab run awaiting))
  | .lock run =>
    if ¬hasLocks then (b, some (.post run))
    else if b.lock = none then ({ b with lock := some run.id }, some (.post run))
    else (b, some (.lock run))
  | .post run => (b.note (.posted run.id), some (.posted run b.jar))
  | .posted run cookie =>
    match env.fate with
    | .through =>
      let (server, answer) := serveRefresh bcrypt env.now b.server cookie
      ({ b with server }, some (.answered run answer))
    | .lost => b.retry run false
    | .stalled => ({ b with late := b.late ++ [cookie] } : Browser).retry run false
  | .answered run answer =>
    match env.fate, answer with
    | .through, .ok token cookie =>
      (({ b with jar := some cookie } : Browser).setTab run.tab ({ · with accessToken := some token })).release run
        (some token)
    | .through, .unauthorized => b.retry run true
    | .through, .failed | .lost, _ | .stalled, _ => b.retry run false
  | .sleep run => (b, some (.post { run with attempt := run.attempt + 1 }))
  | .logout run =>
    match env.fate with
    | .through =>
      ({ b with
        server := b.jar.elim b.server fun cookie => serve bcrypt env.now b.server (.logout cookie)
        jar := none }, some (.signOut run))
    | .lost | .stalled => (b, some (.signOut run))
  | .signOut run =>
    (({ b with told := fun tab => b.told tab || tab != run.tab } : Browser).setTab run.tab
      ({ · with accessToken := none })).note (.signedOut run.id) |>.release run none
  | .settle run result =>
    (({ b with settled := Function.update b.settled run.id (some result) } : Browser).setTab run.tab
      ({ · with refreshPromise := none })).proceed run.tab result run.awaiting

end Browser

/-! ## Runs -/

inductive Event
  | request (tab : TabId) (bypassUrl : Bool)
  | refresh (tab : TabId)
  | resume (task : Nat) (env : Env)
  /-- `AuthSync` hears of the entry that was removed. -/
  | storage (tab : TabId)
  /-- A request that was given up gets to the server. -/
  | arrive (now : Time)
  /-- A call from elsewhere. -/
  | outside (now : Time) (call : Auth.Call)
  deriving DecidableEq, Repr

namespace Browser
variable (b : Browser) (bcrypt : Bcrypt) (hasLocks : Bool)

/-- A task goes on once it holds the lock, or once what it awaits has settled. -/
def Ready : Task → Prop
  | .lock _ => hasLocks → b.lock = none
  | .await _ run _ => b.settled run ≠ none
  | _ => True

def Enabled : Event → Prop
  | .request .. | .refresh _ => True
  | .resume i _ => ∃ t ∈ b.tasks[i]?, b.Ready hasLocks t
  | .storage tab => b.told tab
  | .arrive _ => b.late ≠ []
  | .outside _ call => call.request

instance : (t : Task) → Decidable (b.Ready hasLocks t)
  | .lock _ => inferInstanceAs (Decidable (_ → _))
  | .await _ run _ => inferInstanceAs (Decidable (b.settled run ≠ none))
  | .prepare .. | .sent .. | .post _ | .posted .. | .answered .. | .sleep _ | .logout _ | .signOut _ | .settle .. =>
    .isTrue trivial

instance : (e : Event) → Decidable (b.Enabled hasLocks e)
  | .request .. | .refresh _ => .isTrue trivial
  | .resume i _ => inferInstanceAs (Decidable (∃ t ∈ b.tasks[i]?, b.Ready hasLocks t))
  | .storage tab => inferInstanceAs (Decidable (b.told tab = true))
  | .arrive _ => inferInstanceAs (Decidable (b.late ≠ []))
  | .outside _ call => inferInstanceAs (Decidable (call.request = true))

def next : Event → Browser
  | .request tab bypassUrl =>
    { b with requests := b.requests + 1, tasks := b.tasks ++ [.prepare tab ⟨b.requests, bypassUrl, false, none⟩] }
  | .refresh tab =>
    let (c, task) := b.refreshAccessToken tab .caller
    { c with tasks := b.tasks ++ [task] }
  | .resume i env =>
    match b.tasks[i]? with
    | none => b
    | some t =>
      let (c, rest) := b.run bcrypt hasLocks env t
      { c with tasks := match rest with
        | some task => b.tasks.set i task
        | none => b.tasks.eraseIdx i }
  | .storage tab =>
    { b with told := Function.update b.told tab false }.setTab tab ({ · with accessToken := none })
  | .arrive now =>
    match b.late with
    | [] => b
    | cookie :: rest => { b with server := (serveRefresh bcrypt now b.server cookie).1, late := rest }
  | .outside now call => { b with server := serve bcrypt now b.server call }

/-- A browser that is signed in, with no refresh under way. -/
def start (server : AuthServer) (cookie : Token) (tab : TabId → Option AccessToken) : Browser where
  tab id := ⟨tab id, none⟩
  settled _ := none
  tasks := []
  runs := 0
  requests := 0
  lock := none
  jar := some cookie
  told _ := false
  server
  late := []
  log := []

end Browser

def browser (bcrypt : Bcrypt) (hasLocks : Bool) (server : AuthServer) (cookie : Token)
    (tab : TabId → Option AccessToken) : Machine Browser Event where
  init := .start server cookie tab
  enabled b e := b.Enabled hasLocks e
  next b e := b.next bcrypt hasLocks e

instance {bcrypt : Bcrypt} {hasLocks : Bool} {server : AuthServer} {cookie : Token} {tab : TabId → Option AccessToken}
    (b : Browser) (e : Event) : Decidable ((browser bcrypt hasLocks server cookie tab).enabled b e) :=
  inferInstanceAs (Decidable (b.Enabled hasLocks e))

/-! ## One refresh at a time -/

namespace Task

/-- The run of `_doRefresh` that the task is, and its tab. -/
def flight : Task → Option (RunId × TabId)
  | prepare .. | sent .. | await .. => none
  | lock run | post run | posted run _ | answered run _ | sleep run | logout run | signOut run | settle run _ =>
    some (run.id, run.tab)

/-- The run that is in the callback of `navigator.locks.request`. -/
def holds : Task → Option RunId
  | prepare .. | sent .. | await .. | lock _ | settle .. => none
  | post run | posted run _ | answered run _ | sleep run | logout run | signOut run => some run.id

/-- The run whose promise the task awaits. -/
def awaits : Task → Option RunId
  | await _ run _ => some run
  | _ => none

end Task

/-- The promises of the tabs are the runs under way; nothing awaits a run that is lost; and one run holds the
lock. -/
structure Flight (hasLocks : Bool) (b : Browser) (tasks : List Task) : Prop where
  distinct : ((tasks.filterMap Task.flight).map Prod.fst).Nodup
  promise : ∀ tab id, (b.tab tab).refreshPromise = some id ↔ (id, tab) ∈ tasks.filterMap Task.flight
  unsettled : ∀ f ∈ tasks.filterMap Task.flight, f.1 < b.runs ∧ b.settled f.1 = none
  settled : ∀ id, b.settled id ≠ none → id < b.runs
  awaited : ∀ id ∈ tasks.filterMap Task.awaits,
    b.settled id ≠ none ∨ ∃ tab, (id, tab) ∈ tasks.filterMap Task.flight
  held : hasLocks → ∀ id ∈ tasks.filterMap Task.holds, b.lock = some id
  holder : ∀ id, b.lock = some id → id ∈ tasks.filterMap Task.holds

namespace Flight
variable {hasLocks : Bool} {b c : Browser} {tasks tasks' : List Task} {t u : Task} {tab : TabId} {run : Run}

theorem perm (h : Flight hasLocks b tasks) (hperm : tasks.Perm tasks') : Flight hasLocks b tasks' := by
  have hflight := hperm.filterMap Task.flight
  have hholds := hperm.filterMap Task.holds
  have hawaits := hperm.filterMap Task.awaits
  refine ⟨(hflight.map _).nodup_iff.mp h.distinct, fun tab id => ?_, fun f hf => h.unsettled f (hflight.mem_iff.mpr hf),
    h.settled, fun id hid => ?_, fun hlocks id hid => h.held hlocks id (hholds.mem_iff.mpr hid),
    fun id hid => hholds.mem_iff.mp (h.holder id hid)⟩
  · rw [h.promise, hflight.mem_iff]
  · simp only [← hflight.mem_iff]
    exact h.awaited id (hawaits.mem_iff.mpr hid)

theorem congr (h : Flight hasLocks b tasks) (hpromise : ∀ tab, (c.tab tab).refreshPromise = (b.tab tab).refreshPromise)
    (hsettled : c.settled = b.settled) (hruns : c.runs = b.runs) (hlock : c.lock = b.lock) :
    Flight hasLocks c tasks := by
  refine ⟨h.distinct, fun tab id => ?_, ?_, ?_, ?_, ?_, ?_⟩
  · rw [hpromise, h.promise]
  · rw [hruns, hsettled]
    exact h.unsettled
  · rw [hruns, hsettled]
    exact h.settled
  · rw [hsettled]
    exact h.awaited
  · rw [hlock]
    exact h.held
  · rw [hlock]
    exact h.holder

/-- A task goes on, as the same run. -/
theorem same (h : Flight hasLocks b (t :: tasks)) (hflight : u.flight = t.flight) (hholds : u.holds = t.holds)
    (hawaits : u.awaits = t.awaits) : Flight hasLocks b (u :: tasks) := by
  have hflights : (u :: tasks).filterMap Task.flight = (t :: tasks).filterMap Task.flight := by
    rw [List.filterMap_cons, List.filterMap_cons, hflight]
  have hholders : (u :: tasks).filterMap Task.holds = (t :: tasks).filterMap Task.holds := by
    rw [List.filterMap_cons, List.filterMap_cons, hholds]
  have hawaiters : (u :: tasks).filterMap Task.awaits = (t :: tasks).filterMap Task.awaits := by
    rw [List.filterMap_cons, List.filterMap_cons, hawaits]
  obtain ⟨h1, h2, h3, h4, h5, h6, h7⟩ := h
  rw [← hflights] at h1 h2 h3 h5
  rw [← hawaiters] at h5
  rw [← hholders] at h6 h7
  exact ⟨h1, h2, h3, h4, h5, h6, h7⟩

/-- A task that is no run is over. -/
theorem drop (h : Flight hasLocks b (t :: tasks)) (hflight : t.flight = none) (hholds : t.holds = none) :
    Flight hasLocks b tasks := by
  obtain ⟨h1, h2, h3, h4, h5, h6, h7⟩ := h
  rw [List.filterMap_cons_none hflight] at h1 h2 h3 h5
  rw [List.filterMap_cons_none hholds] at h6 h7
  refine ⟨h1, h2, h3, h4, fun id hid => h5 id ?_, h6, h7⟩
  rw [List.filterMap_cons]
  split
  · exact hid
  · exact List.mem_cons_of_mem _ hid

/-- A task begins that is no run. -/
theorem add (h : Flight hasLocks b tasks) (hflight : t.flight = none) (hholds : t.holds = none)
    (hawaits : ∀ id ∈ t.awaits, ∃ tab, (b.tab tab).refreshPromise = some id) : Flight hasLocks b (t :: tasks) := by
  refine ⟨?_, ?_, ?_, h.settled, ?_, ?_, ?_⟩
  · rw [List.filterMap_cons_none hflight]
    exact h.distinct
  · rw [List.filterMap_cons_none hflight]
    exact h.promise
  · rw [List.filterMap_cons_none hflight]
    exact h.unsettled
  · rw [List.filterMap_cons_none hflight]
    intro id hid
    rw [List.filterMap_cons] at hid
    split at hid
    · exact h.awaited id hid
    · rename_i id' hid'
      rcases List.mem_cons.mp hid with rfl | hid
      · obtain ⟨tab, htab⟩ := hawaits id hid'
        exact .inr ⟨tab, (h.promise tab id).mp htab⟩
      · exact h.awaited id hid
  · rw [List.filterMap_cons_none hholds]
    exact h.held
  · rw [List.filterMap_cons_none hholds]
    exact h.holder

/-- A tab without a promise starts a run. -/
theorem started (h : Flight hasLocks b tasks) (hnone : (b.tab tab).refreshPromise = none) (awaiting : Awaiting) :
    Flight hasLocks (({ b with runs := b.runs + 1 } : Browser).setTab tab ({ · with refreshPromise := some b.runs }))
      (.lock ⟨b.runs, tab, 0, 0, awaiting⟩ :: tasks) := by
  have hflights : (Task.lock ⟨b.runs, tab, 0, 0, awaiting⟩ :: tasks).filterMap Task.flight =
      (b.runs, tab) :: tasks.filterMap Task.flight := rfl
  refine ⟨?_, fun tab' id => ?_, ?_, fun id hid => Nat.lt_succ_of_lt (h.settled id hid), ?_, h.held, h.holder⟩
  · rw [hflights, List.map_cons, List.nodup_cons]
    refine ⟨fun hmem => ?_, h.distinct⟩
    obtain ⟨f, hf, hid⟩ := List.mem_map.mp hmem
    exact absurd (h.unsettled f hf).1 (hid ▸ Nat.lt_irrefl _)
  · rw [hflights, List.mem_cons]
    by_cases htab : tab' = tab
    · subst htab
      have hempty : (id, tab') ∉ tasks.filterMap Task.flight := fun hmem => by
        cases hnone.symm.trans ((h.promise tab' id).mpr hmem)
      rw [or_iff_left hempty, Browser.tab_setTab_self, Prod.mk.injEq, and_iff_left rfl, Option.some.injEq]
      exact eq_comm
    · have hother : (id, tab') ≠ (b.runs, tab) := fun heq => htab (congrArg Prod.snd heq)
      rw [or_iff_right hother, Browser.tab_setTab_of_ne htab]
      exact h.promise tab' id
  · rw [hflights]
    intro f hf
    rcases List.mem_cons.mp hf with rfl | hf
    · exact ⟨Nat.lt_succ_self _, by_contra fun hsettled => absurd (h.settled _ hsettled) (Nat.lt_irrefl _)⟩
    · exact ⟨Nat.lt_succ_of_lt (h.unsettled f hf).1, (h.unsettled f hf).2⟩
  · rw [hflights]
    intro id hid
    refine (h.awaited id hid).imp_right fun hflight => ?_
    obtain ⟨tab', htab'⟩ := hflight
    exact ⟨tab', List.mem_cons_of_mem _ htab'⟩

theorem refreshAccessToken (h : Flight hasLocks b tasks) (tab : TabId) (awaiting : Awaiting) :
    Flight hasLocks (b.refreshAccessToken tab awaiting).1 ((b.refreshAccessToken tab awaiting).2 :: tasks) := by
  cases hpromise : (b.tab tab).refreshPromise with
  | some id =>
    simp only [Browser.refreshAccessToken, hpromise]
    apply h.add rfl rfl
    intro id' hid'
    obtain rfl := Option.some.inj hid'
    exact ⟨tab, hpromise⟩
  | none =>
    simp only [Browser.refreshAccessToken, hpromise]
    exact h.started hpromise awaiting

/-- The lock is free and given to a run that waits for it. -/
theorem acquire (h : Flight hasLocks b (.lock run :: tasks)) (hfree : b.lock = none) :
    Flight hasLocks { b with lock := some run.id } (.post run :: tasks) := by
  refine ⟨h.distinct, h.promise, h.unsettled, h.settled, h.awaited, fun hlocks id hid => ?_, fun id hid => ?_⟩
  · rcases List.mem_cons.mp hid with rfl | hid
    · rfl
    · cases hfree.symm.trans (h.held hlocks id hid)
  · obtain rfl := Option.some.inj hid
    exact List.mem_cons_self

/-- Without locks nothing is waited for. -/
theorem unlocked (h : Flight false b (.lock run :: tasks)) : Flight false b (.post run :: tasks) :=
  ⟨h.distinct, h.promise, h.unsettled, h.settled, h.awaited, fun hlocks => absurd hlocks Bool.false_ne_true,
    fun id hid => List.mem_cons_of_mem _ (h.holder id hid)⟩

theorem holds_flight {id : RunId} (hid : id ∈ tasks.filterMap Task.holds) :
    id ∈ (tasks.filterMap Task.flight).map Prod.fst := by
  obtain ⟨t, ht, hholds⟩ := List.mem_filterMap.mp hid
  have hflight : ∃ tab, t.flight = some (id, tab) := by
    cases t <;> cases hholds <;> exact ⟨_, rfl⟩
  obtain ⟨tab, hflight⟩ := hflight
  exact List.mem_map.mpr ⟨(id, tab), List.mem_filterMap.mpr ⟨t, ht, hflight⟩, rfl⟩

/-- The callback is over. -/
theorem release (h : Flight hasLocks b (t :: tasks)) (hflight : t.flight = some (run.id, run.tab))
    (hholds : t.holds = some run.id) (hawaits : t.awaits = none) (result : Option AccessToken) :
    Flight hasLocks { b with lock := none } (.settle run result :: tasks) := by
  have hflights : (Task.settle run result :: tasks).filterMap Task.flight = (t :: tasks).filterMap Task.flight := by
    rw [List.filterMap_cons, List.filterMap_cons, hflight]
    rfl
  have hawaiters : (Task.settle run result :: tasks).filterMap Task.awaits = (t :: tasks).filterMap Task.awaits := by
    rw [List.filterMap_cons, List.filterMap_cons, hawaits]
    rfl
  refine ⟨hflights ▸ h.distinct, hflights ▸ h.promise, hflights ▸ h.unsettled, h.settled, ?_, fun hlocks id hid => ?_,
    fun id hid => by cases hid⟩
  · rw [hflights, hawaiters]
    exact h.awaited
  · -- whoever else held the lock would be the same run
    have hmem : id ∈ tasks.filterMap Task.holds := hid
    have hheld := h.held hlocks
    rw [List.filterMap_cons_some hholds] at hheld
    have hself := hheld run.id List.mem_cons_self
    have hother := hheld id (List.mem_cons_of_mem _ hmem)
    obtain rfl := Option.some.inj (hself.symm.trans hother)
    have hdistinct := h.distinct
    rw [List.filterMap_cons_some hflight, List.map_cons, List.nodup_cons] at hdistinct
    exact absurd (holds_flight hmem) hdistinct.1

/-- `.finally` -/
theorem settle {result : Option AccessToken} (h : Flight hasLocks b (.settle run result :: tasks)) :
    Flight hasLocks (({ b with settled := Function.update b.settled run.id (some result) } : Browser).setTab run.tab
      ({ · with refreshPromise := none })) tasks := by
  obtain ⟨hdistinct, hpromise, hunsettled, hsettled, hawaited, hheld, hholder⟩ := h
  have hflights : (Task.settle run result :: tasks).filterMap Task.flight =
      (run.id, run.tab) :: tasks.filterMap Task.flight := rfl
  rw [hflights] at hdistinct hpromise hunsettled hawaited
  rw [List.map_cons, List.nodup_cons] at hdistinct
  have hne : ∀ f ∈ tasks.filterMap Task.flight, f.1 ≠ run.id := fun f hf heq =>
    hdistinct.1 (heq ▸ List.mem_map.mpr ⟨f, hf, rfl⟩)
  refine ⟨hdistinct.2, fun tab id => ?_, fun f hf => ?_, fun id hid => ?_, fun id hid => ?_, hheld, hholder⟩
  · by_cases htab : tab = run.tab
    · subst htab
      rw [Browser.tab_setTab_self]
      refine iff_of_false (fun heq => by cases heq) fun hmem => ?_
      have hself := (hpromise run.tab run.id).mpr List.mem_cons_self
      have hother := (hpromise run.tab id).mpr (List.mem_cons_of_mem _ hmem)
      exact hne _ hmem (Option.some.inj (hother.symm.trans hself))
    · rw [Browser.tab_setTab_of_ne htab]
      refine (hpromise tab id).trans ?_
      rw [List.mem_cons, or_iff_right fun heq => htab (congrArg Prod.snd heq)]
  · refine ⟨(hunsettled f (List.mem_cons_of_mem _ hf)).1, ?_⟩
    exact (Function.update_of_ne (hne f hf) _ _).trans (hunsettled f (List.mem_cons_of_mem _ hf)).2
  · by_cases heq : id = run.id
    · subst heq
      exact (hunsettled _ List.mem_cons_self).1
    · apply hsettled
      intro hnone
      exact hid ((Function.update_of_ne heq _ _).trans hnone)
  · by_cases heq : id = run.id
    · subst heq
      refine .inl fun hnone => ?_
      cases (Function.update_self ..).symm.trans hnone
    · refine (hawaited id hid).imp (fun hsome hnone => hsome ((Function.update_of_ne heq _ _).symm.trans hnone)) ?_
      rintro ⟨tab, htab⟩
      exact ⟨tab, (List.mem_cons.mp htab).resolve_left fun hhead => heq (congrArg Prod.fst hhead)⟩

theorem emit (h : Flight hasLocks b tasks) (tab : TabId) (r : ApiRequest) (token : Option AccessToken) :
    Flight hasLocks (b.emit tab r token).1 ((b.emit tab r token).2 :: tasks) :=
  (h.add (t := (b.emit tab r token).2) rfl rfl fun _ hid => by cases hid).congr (fun _ => rfl) rfl rfl rfl

theorem proceed (h : Flight hasLocks b tasks) (tab : TabId) (result : Option AccessToken) (awaiting : Awaiting) :
    Flight hasLocks (b.proceed tab result awaiting).1 ((b.proceed tab result awaiting).2.toList ++ tasks) := by
  cases awaiting with
  | request r => exact h.emit tab r result
  | response r =>
    cases result with
    | none => exact h
    | some token => exact h.add rfl rfl fun _ hid => by cases hid
  | caller => exact h

theorem prepare (h : Flight hasLocks b tasks) (now : Time) (tab : TabId) (r : ApiRequest) :
    Flight hasLocks (b.prepare now tab r).1 ((b.prepare now tab r).2 :: tasks) := by
  rw [Browser.prepare]
  split
  · split
    · exact h.refreshAccessToken tab (.request r)
    · exact h.emit tab r _
  · exact h.emit tab r none

/-- A run that holds the lock goes on to the next attempt, to the logout, or to its end. -/
theorem retry (h : Flight hasLocks b (t :: tasks)) (hflight : t.flight = some (run.id, run.tab))
    (hholds : t.holds = some run.id) (hawaits : t.awaits = none) (unauthorized : Bool) :
    Flight hasLocks (b.retry run unauthorized).1 ((b.retry run unauthorized).2.toList ++ tasks) := by
  rw [Browser.retry]
  dsimp only
  split
  · split
    · exact (h.same (u := .sleep { run with unauthorizedCount := run.unauthorizedCount + 1 }) hflight.symm hholds.symm
        hawaits.symm).congr (fun _ => rfl) rfl rfl rfl
    · exact (h.same (u := .logout { run with unauthorizedCount := run.unauthorizedCount + 1 }) hflight.symm
        hholds.symm hawaits.symm).congr (fun _ => rfl) rfl rfl rfl
  · split
    · exact h.same hflight.symm hholds.symm hawaits.symm
    · exact h.release hflight hholds hawaits none

/-- **The step lemma**: one stretch of a task. -/
theorem stretch (h : Flight hasLocks b (t :: tasks)) (hready : b.Ready hasLocks t) (bcrypt : Bcrypt) (env : Env) :
    Flight hasLocks (b.run bcrypt hasLocks env t).1 ((b.run bcrypt hasLocks env t).2.toList ++ tasks) := by
  cases t with
  | prepare tab r => exact (h.drop rfl rfl).prepare env.now tab r
  | sent tab r =>
    rw [Browser.run]
    split
    · exact (h.drop rfl rfl).refreshAccessToken tab _
    · exact h.drop rfl rfl
  | await tab id awaiting =>
    cases hsettled : b.settled id with
    | none => exact absurd hsettled hready
    | some result =>
      simp only [Browser.run, hsettled]
      exact (h.drop rfl rfl).proceed tab result awaiting
  | lock run =>
    cases hasLocks with
    | false => exact h.unlocked
    | true =>
      have hfree : b.lock = none := hready rfl
      simp only [Browser.run, hfree]
      exact h.acquire hfree
  | post run => exact (h.same (u := .posted run b.jar) rfl rfl rfl).congr (fun _ => rfl) rfl rfl rfl
  | posted run cookie =>
    rw [Browser.run]
    split
    · exact (h.same (u := .answered run _) rfl rfl rfl).congr (fun _ => rfl) rfl rfl rfl
    · exact h.retry rfl rfl rfl false
    · exact (h.congr (c := { b with late := b.late ++ [cookie] }) (fun _ => rfl) rfl rfl rfl).retry rfl rfl rfl false
  | answered run answer =>
    have hfail := h.retry rfl rfl rfl false
    cases hfate : env.fate with
    | lost =>
      simp only [Browser.run, hfate]
      exact hfail
    | stalled =>
      simp only [Browser.run, hfate]
      exact hfail
    | through =>
      cases answer with
      | ok token cookie =>
        have hstored : Flight hasLocks (({ b with jar := some cookie } : Browser).setTab run.tab
            ({ · with accessToken := some token })) (.answered run (.ok token cookie) :: tasks) :=
          h.congr Browser.promise_setTab rfl rfl rfl
        simp only [Browser.run, hfate]
        exact hstored.release rfl rfl rfl (some token)
      | unauthorized =>
        simp only [Browser.run, hfate]
        exact h.retry rfl rfl rfl true
      | failed =>
        simp only [Browser.run, hfate]
        exact hfail
  | sleep run => exact h.same rfl rfl rfl
  | logout run =>
    have hnext := h.same (u := .signOut run) rfl rfl rfl
    rw [Browser.run]
    split
    · exact hnext.congr (fun _ => rfl) rfl rfl rfl
    · exact hnext
    · exact hnext
  | signOut run =>
    have hout : Flight hasLocks ((({ b with told := fun tab => b.told tab || tab != run.tab } : Browser).setTab run.tab
        ({ · with accessToken := none })).note (.signedOut run.id)) (.signOut run :: tasks) :=
      h.congr Browser.promise_setTab rfl rfl rfl
    exact hout.release rfl rfl rfl none
  | settle run result => exact h.settle.proceed run.tab result run.awaiting

/-- Two runs under way are those of two tabs. -/
theorem tabs_nodup (h : Flight hasLocks b tasks) :
    ((tasks.filterMap Task.flight).map Prod.snd).Nodup := by
  refine List.Nodup.map_on ?_ h.distinct.of_map
  rintro ⟨id, tab⟩ hf ⟨id', tab'⟩ hf' htab
  obtain rfl : tab = tab' := htab
  have hid := (h.promise tab id).mpr hf
  have hid' := (h.promise tab id').mpr hf'
  rw [Option.some.inj (hid.symm.trans hid')]

theorem holds_sublist (tasks : List Task) :
    (tasks.filterMap Task.holds).Sublist ((tasks.filterMap Task.flight).map Prod.fst) := by
  induction tasks with
  | nil => exact .slnil
  | cons t tasks ih =>
    cases t with
    | prepare | sent | await => exact ih
    | lock | settle => exact ih.cons _
    | post | posted | answered | sleep | logout | signOut => exact ih.cons_cons _

/-- Where there are locks, at most one run is in the callback. -/
theorem holds_length (h : Flight hasLocks b tasks) (hlocks : hasLocks) :
    (tasks.filterMap Task.holds).length ≤ 1 := by
  have hdistinct := h.distinct.sublist (holds_sublist tasks)
  have hheld := h.held hlocks
  rcases hholds : tasks.filterMap Task.holds with _ | ⟨id, _ | ⟨id', rest⟩⟩
  · exact Nat.zero_le 1
  · exact Nat.le_refl 1
  · rw [hholds] at hdistinct hheld
    have hsame := (hheld id List.mem_cons_self).symm.trans (hheld id' (List.mem_cons_of_mem _ List.mem_cons_self))
    rw [Option.some.inj hsame] at hdistinct
    exact absurd List.mem_cons_self (List.nodup_cons.mp hdistinct).1

end Flight

section
variable {bcrypt : Bcrypt} {hasLocks : Bool} {server : AuthServer} {cookie : Token}
  {tab : TabId → Option AccessToken} {b : Browser}

/-- A task has gone on: it stands where it stood, or is over. -/
theorem perm_resumed {tasks : List Task} {i : Nat} {t : Task} (h : tasks[i]? = some t) (rest : Option Task) :
    tasks.Perm (t :: tasks.eraseIdx i) ∧ (match rest with
      | some task => tasks.set i task
      | none => tasks.eraseIdx i).Perm (rest.toList ++ tasks.eraseIdx i) := by
  obtain ⟨hlt, rfl⟩ := List.getElem?_eq_some_iff.mp h
  refine ⟨(List.getElem_cons_eraseIdx_perm hlt).symm, ?_⟩
  cases rest with
  | none => exact .refl _
  | some task => exact List.set_perm_cons_eraseIdx hlt task

variable (bcrypt hasLocks) in
theorem Browser.next_resume (env : Env) {i : Nat} {t : Task} (ht : b.tasks[i]? = some t) :
    ∃ tasks, tasks.Perm ((b.run bcrypt hasLocks env t).2.toList ++ b.tasks.eraseIdx i) ∧
      b.next bcrypt hasLocks (.resume i env) = { (b.run bcrypt hasLocks env t).1 with tasks } := by
  refine ⟨_, (perm_resumed ht _).2, ?_⟩
  simp only [Browser.next, ht]

theorem Flight.next (h : Flight hasLocks b b.tasks) {e : Event} (he : b.Enabled hasLocks e) :
    Flight hasLocks (b.next bcrypt hasLocks e) (b.next bcrypt hasLocks e).tasks := by
  cases e with
  | request tab bypassUrl =>
    have hadd := h.add (t := .prepare tab ⟨b.requests, bypassUrl, false, none⟩) rfl rfl fun _ hid => by cases hid
    exact (hadd.perm (List.perm_append_singleton _ _).symm).congr (fun _ => rfl) rfl rfl rfl
  | refresh tab =>
    have hrefresh := h.refreshAccessToken tab .caller
    exact (hrefresh.perm (List.perm_append_singleton _ _).symm).congr (fun _ => rfl) rfl rfl rfl
  | resume i env =>
    obtain ⟨t, ht, hready⟩ := he
    obtain ⟨tasks, hperm, hnext⟩ := Browser.next_resume bcrypt hasLocks env ht
    rw [hnext]
    have hrun := (h.perm (perm_resumed ht none).1).stretch hready bcrypt env
    exact (hrun.perm hperm.symm).congr (fun _ => rfl) rfl rfl rfl
  | storage tab =>
    exact h.congr Browser.promise_setTab rfl rfl rfl
  | arrive now =>
    rw [Browser.next]
    split
    · exact h
    · exact h.congr (fun _ => rfl) rfl rfl rfl
  | outside now call => exact h.congr (fun _ => rfl) rfl rfl rfl

theorem flight_of_reachable (hb : (browser bcrypt hasLocks server cookie tab).Reachable b) :
    Flight hasLocks b b.tasks := by
  refine Machine.Reachable.invariant (M := browser bcrypt hasLocks server cookie tab)
    (I := fun b => Flight hasLocks b b.tasks) ?_ (fun b e _ h he => h.next he) hb
  exact ⟨List.nodup_nil, fun _ _ => iff_of_false (fun heq => by cases heq) List.not_mem_nil,
    fun _ hf => absurd hf List.not_mem_nil, fun _ hid => absurd rfl hid, fun _ hid => absurd hid List.not_mem_nil,
    fun _ _ hid => absurd hid List.not_mem_nil, fun _ hid => by cases hid⟩

end

end Vesper.Client.TokenRefresh
