import Vesper.Client.TokenRefresh
import Vesper.Lib.Bookkeeping

/-!
# Requests and refreshes that are sent

How often a request of `api` goes out and how often a run of `_doRefresh` asks for a token, counted in what has
happened: every task has an account of its own, and a stretch changes no other one.
-/

namespace Vesper.Client.TokenRefresh
open Vesper.Auth (AuthServer Bcrypt Token)
open Vesper.Server (Time)

/-! ## Requests -/

def Entry.emits (id : Nat) : Entry → Bool
  | emitted request _ => request = id
  | posted _ | unauthorized _ | signedOut _ => false

/-- How often a request has gone out. -/
def emissions (log : List Entry) (id : Nat) : Nat := log.countP (·.emits id)

/-- The request that goes on with the token, and how often it has gone out. -/
def Awaiting.emitted : Awaiting → Option (Nat × Nat)
  | request r => some (r.id, if r.retry then 1 else 0)
  | response r => some (r.id, 1)
  | caller => none

def Task.awaiting : Task → Option Awaiting
  | prepare .. | sent .. => none
  | await _ _ awaiting => some awaiting
  | lock run | post run | posted run _ | answered run _ | sleep run | logout run | signOut run | settle run _ =>
    some run.awaiting

def Task.emitted : Task → Option (Nat × Nat)
  | prepare _ r => some (r.id, if r.retry then 1 else 0)
  | sent _ r => some (r.id, if r.retry then 2 else 1)
  | t => t.awaiting.bind Awaiting.emitted

/-- A request is with one task, which knows how often it has gone out. -/
structure Emits (b : Browser) (tasks : List Task) : Prop where
  accounts : Bookkeeping Task.emitted tasks (emissions b.log) b.requests
  bounded : ∀ id, emissions b.log id ≤ 2
  fresh : ∀ id, b.requests ≤ id → emissions b.log id = 0
  retried : ∀ t ∈ tasks, ∀ r, t.awaiting = some (.response r) → r.retry

theorem emissions_append {log : List Entry} {e : Entry} {id : Nat} :
    emissions (log ++ [e]) id = emissions log id + if e.emits id then 1 else 0 := by
  rw [emissions, List.countP_append, List.countP_singleton]
  rfl

namespace Emits
variable {b c : Browser} {tasks tasks' : List Task} {t u : Task} {tab : TabId} {r : ApiRequest} {awaiting : Awaiting}

theorem perm (h : Emits b tasks) (hperm : tasks.Perm tasks') : Emits b tasks' :=
  ⟨h.accounts.perm hperm, h.bounded, h.fresh, fun t ht => h.retried t (hperm.mem_iff.mpr ht)⟩

/-- Nothing goes out. -/
theorem congr (h : Emits b tasks) (hlog : ∀ id, emissions c.log id = emissions b.log id)
    (hrequests : c.requests = b.requests) : Emits c tasks := by
  refine ⟨?_, fun id => hlog id ▸ h.bounded id, fun id hid => hlog id ▸ h.fresh id (hrequests ▸ hid), h.retried⟩
  rw [hrequests]
  exact h.accounts.congr fun id _ => hlog id

theorem note (h : Emits b tasks) {e : Entry} (he : ∀ id, e.emits id = false) : Emits (b.note e) tasks := by
  refine h.congr (fun id => ?_) rfl
  rw [Browser.note, emissions_append, he, if_neg Bool.false_ne_true, Nat.add_zero]

theorem drop (h : Emits b (t :: tasks)) : Emits b tasks :=
  ⟨h.accounts.drop, h.bounded, h.fresh, fun t ht => h.retried t (List.mem_cons_of_mem _ ht)⟩

/-- A task goes on with the same request. -/
theorem keep (h : Emits b (t :: tasks)) (hemitted : u.emitted = t.emitted)
    (hretried : ∀ r, u.awaiting = some (.response r) → r.retry) : Emits b (u :: tasks) := by
  refine ⟨h.accounts.keep hemitted, h.bounded, h.fresh, fun t₁ ht₁ => ?_⟩
  rcases List.mem_cons.mp ht₁ with rfl | ht₁
  · exact hretried
  · exact h.retried t₁ (List.mem_cons_of_mem _ ht₁)

theorem add (h : Emits b tasks) (hemitted : t.emitted = none)
    (hretried : ∀ r, t.awaiting = some (.response r) → r.retry) : Emits b (t :: tasks) := by
  refine ⟨h.accounts.add hemitted, h.bounded, h.fresh, fun t₁ ht₁ => ?_⟩
  rcases List.mem_cons.mp ht₁ with rfl | ht₁
  · exact hretried
  · exact h.retried t₁ ht₁

/-- What `refreshAccessToken` begins with: it sends no request, and its task awaits. -/
theorem refreshAccessToken_spec (b : Browser) (tab : TabId) (awaiting : Awaiting) :
    (b.refreshAccessToken tab awaiting).1.log = b.log ∧
      (b.refreshAccessToken tab awaiting).1.requests = b.requests ∧
      (b.refreshAccessToken tab awaiting).2.emitted = awaiting.emitted ∧
      (b.refreshAccessToken tab awaiting).2.awaiting = some awaiting := by
  unfold Browser.refreshAccessToken
  split <;> exact ⟨rfl, rfl, rfl, rfl⟩

theorem refreshAccessToken (h : Emits b (t :: tasks)) (hemitted : awaiting.emitted = t.emitted)
    (hretried : ∀ r, awaiting = .response r → r.retry) :
    Emits (b.refreshAccessToken tab awaiting).1 ((b.refreshAccessToken tab awaiting).2 :: tasks) := by
  obtain ⟨hlog, hrequests, htask, hawaiting⟩ := refreshAccessToken_spec b tab awaiting
  refine (h.keep (htask.trans hemitted) fun r hr => ?_).congr (fun id => by rw [hlog]) hrequests
  rw [hawaiting] at hr
  exact hretried r (Option.some.inj hr)

/-- A request goes out. -/
theorem emit (h : Emits b (t :: tasks)) (ht : t.emitted = some (r.id, if r.retry then 1 else 0))
    (token : Option AccessToken) : Emits (b.emit tab r token).1 ((b.emit tab r token).2 :: tasks) := by
  obtain ⟨hlt, hbefore⟩ := h.accounts.mem List.mem_cons_self ht
  have hself : ∀ token, emissions (b.log ++ [.emitted r.id token]) r.id = if r.retry then 2 else 1 := by
    intro token
    rw [emissions_append, hbefore, Entry.emits, if_pos (decide_eq_true rfl)]
    cases r.retry <;> rfl
  have hother : ∀ token, ∀ id, id ≠ r.id →
      emissions (b.log ++ [.emitted r.id token]) id = emissions b.log id := by
    intro token id hid
    rw [emissions_append, Entry.emits, if_neg (by simpa using hid.symm), Nat.add_zero]
  refine ⟨h.accounts.change ht rfl (hself _) (hother _), fun id => ?_, fun id hid => ?_, fun t₁ ht₁ => ?_⟩
  · by_cases heq : id = r.id
    · subst heq
      refine Nat.le_trans (Nat.le_of_eq (hself _)) ?_
      cases r.retry <;> decide
    · exact Nat.le_trans (Nat.le_of_eq (hother _ id heq)) (h.bounded id)
  · refine (hother _ id fun heq => ?_).trans (h.fresh id hid)
    exact absurd hlt (Nat.not_lt.mpr (heq ▸ hid))
  · rcases List.mem_cons.mp ht₁ with rfl | ht₁
    · exact fun _ hr => by cases hr
    · exact h.drop.retried t₁ ht₁

theorem proceed (h : Emits b (t :: tasks)) (ht : t.awaiting = some awaiting) (hemitted : t.emitted = awaiting.emitted)
    (result : Option AccessToken) :
    Emits (b.proceed tab result awaiting).1 ((b.proceed tab result awaiting).2.toList ++ tasks) := by
  cases awaiting with
  | request r => exact h.emit hemitted result
  | response r =>
    cases result with
    | none => exact h.drop
    | some token =>
      have hretry := h.retried t List.mem_cons_self r ht
      refine h.keep (Eq.trans ?_ hemitted.symm) fun _ hr => by cases hr
      show some (r.id, if r.retry then 1 else 0) = some (r.id, 1)
      rw [if_pos hretry]
  | caller => exact h.drop

theorem prepare (h : Emits b (.prepare tab r :: tasks)) (now : Time) :
    Emits (b.prepare now tab r).1 ((b.prepare now tab r).2 :: tasks) := by
  rw [Browser.prepare]
  split
  · split
    · exact h.refreshAccessToken rfl fun _ hr => by cases hr
    · exact h.emit rfl _
  · exact h.emit rfl none

theorem retry {run : Run} (h : Emits b (t :: tasks)) (ht : t.awaiting = some run.awaiting)
    (hemitted : t.emitted = run.awaiting.emitted) (unauthorized : Bool) :
    Emits (b.retry run unauthorized).1 ((b.retry run unauthorized).2.toList ++ tasks) := by
  have hretried : ∀ r, some run.awaiting = some (.response r) → r.retry := fun r hr =>
    h.retried t List.mem_cons_self r (ht.trans hr)
  rw [Browser.retry]
  dsimp only
  split
  · split
    · exact (h.keep (u := .sleep { run with unauthorizedCount := run.unauthorizedCount + 1 }) hemitted.symm
        hretried).note fun _ => rfl
    · exact (h.keep (u := .logout { run with unauthorizedCount := run.unauthorizedCount + 1 }) hemitted.symm
        hretried).note fun _ => rfl
  · split
    · exact h.keep hemitted.symm hretried
    · exact (h.keep (u := .settle run none) hemitted.symm hretried).congr (fun _ => rfl) rfl

/-- **The step lemma**: one stretch of a task sends at most the request that is with it. -/
theorem stretch (h : Emits b (t :: tasks)) (bcrypt : Bcrypt) (hasLocks : Bool) (env : Env) :
    Emits (b.run bcrypt hasLocks env t).1 ((b.run bcrypt hasLocks env t).2.toList ++ tasks) := by
  have hretried := h.retried t List.mem_cons_self
  cases t with
  | prepare tab r => exact h.prepare env.now
  | sent tab r =>
    rw [Browser.run]
    split
    · rename_i hagain
      refine h.refreshAccessToken ?_ fun r' hr' => by cases hr'; rfl
      show some (r.id, 1) = some (r.id, if r.retry then 2 else 1)
      rw [if_neg hagain.2.1]
    · exact h.drop
  | await tab id awaiting =>
    cases hsettled : b.settled id with
    | none =>
      simp only [Browser.run, hsettled]
      exact h
    | some result =>
      simp only [Browser.run, hsettled]
      exact h.proceed rfl rfl result
  | lock run =>
    rw [Browser.run]
    split
    · exact h.keep rfl hretried
    · split
      · exact (h.keep (u := .post run) rfl hretried).congr (fun _ => rfl) rfl
      · exact h
  | post run => exact (h.keep (u := .posted run b.jar) rfl hretried).note fun _ => rfl
  | posted run cookie =>
    rw [Browser.run]
    split
    · exact (h.keep (u := .answered run _) rfl hretried).congr (fun _ => rfl) rfl
    · exact h.retry rfl rfl false
    · exact (h.congr (c := { b with late := b.late ++ [cookie] }) (fun _ => rfl) rfl).retry rfl rfl false
  | answered run answer =>
    have hfail := h.retry rfl rfl false
    cases hfate : env.fate with
    | lost =>
      simp only [Browser.run, hfate]
      exact hfail
    | stalled =>
      simp only [Browser.run, hfate]
      exact hfail
    | through =>
      cases answer with
      | ok token cookie =>
        simp only [Browser.run, hfate]
        exact (h.keep (u := .settle run (some token)) rfl hretried).congr (fun _ => rfl) rfl
      | unauthorized =>
        simp only [Browser.run, hfate]
        exact h.retry rfl rfl true
      | failed =>
        simp only [Browser.run, hfate]
        exact hfail
  | sleep run => exact h.keep rfl hretried
  | logout run =>
    have hnext := h.keep (u := .signOut run) rfl hretried
    rw [Browser.run]
    split
    · exact hnext.congr (fun _ => rfl) rfl
    · exact hnext
    · exact hnext
  | signOut run =>
    have hout : Emits (b.note (.signedOut run.id)) (.settle run none :: tasks) :=
      (h.keep (u := .settle run none) rfl hretried).note fun _ => rfl
    exact hout.congr (fun _ => rfl) rfl
  | settle run result =>
    have hsettled : Emits (({ b with settled := Function.update b.settled run.id (some result) } : Browser).setTab
        run.tab ({ · with refreshPromise := none })) (.settle run result :: tasks) :=
      h.congr (fun _ => rfl) rfl
    exact hsettled.proceed rfl rfl result

/-- A request of a page. -/
theorem request (h : Emits b tasks) (tab : TabId) (bypassUrl : Bool) :
    Emits { b with requests := b.requests + 1 } (.prepare tab ⟨b.requests, bypassUrl, false, none⟩ :: tasks) := by
  refine ⟨h.accounts.open rfl (h.fresh b.requests (Nat.le_refl _)), h.bounded,
    fun id hid => h.fresh id (Nat.le_of_succ_le hid), fun t ht => ?_⟩
  rcases List.mem_cons.mp ht with rfl | ht
  · exact fun _ hr => by cases hr
  · exact h.retried t ht

theorem next {bcrypt : Bcrypt} {hasLocks : Bool} (h : Emits b b.tasks) (e : Event) :
    Emits (b.next bcrypt hasLocks e) (b.next bcrypt hasLocks e).tasks := by
  cases e with
  | request tab bypassUrl =>
    have hadd := h.request tab bypassUrl
    exact (hadd.perm (List.perm_append_singleton _ _).symm).congr (fun _ => rfl) rfl
  | refresh tab =>
    obtain ⟨hlog, hrequests, htask, hawaiting⟩ := refreshAccessToken_spec b tab .caller
    have hadd := h.add htask fun r hr => by cases hawaiting.symm.trans hr
    exact (hadd.perm (List.perm_append_singleton _ _).symm).congr (fun id => congrArg (emissions · id) hlog) hrequests
  | resume i env =>
    cases ht : b.tasks[i]? with
    | none =>
      simp only [Browser.next, ht]
      exact h
    | some t =>
      obtain ⟨tasks, hperm, hnext⟩ := Browser.next_resume bcrypt hasLocks env ht
      rw [hnext]
      have hrun := (h.perm (perm_resumed ht none).1).stretch bcrypt hasLocks env
      exact (hrun.perm hperm.symm).congr (fun _ => rfl) rfl
  | storage tab => exact h.congr (fun _ => rfl) rfl
  | arrive now =>
    rw [Browser.next]
    split
    · exact h
    · exact h.congr (fun _ => rfl) rfl
  | outside now call => exact h.congr (fun _ => rfl) rfl

end Emits

/-! ## Refreshes -/

def Entry.posts (id : RunId) : Entry → Bool
  | posted run => run = id
  | emitted .. | unauthorized _ | signedOut _ => false

def Entry.refuses (id : RunId) : Entry → Bool
  | unauthorized run => run = id
  | emitted .. | posted _ | signedOut _ => false

/-- How often a run has asked for a token, and how often it was refused. -/
def tally (log : List Entry) (id : RunId) : Nat × Nat := (log.countP (·.posts id), log.countP (·.refuses id))

theorem tally_append {log : List Entry} {e : Entry} {id : RunId} :
    tally (log ++ [e]) id =
      ((tally log id).1 + if e.posts id then 1 else 0, (tally log id).2 + if e.refuses id then 1 else 0) := by
  rw [tally, List.countP_append, List.countP_append, List.countP_singleton, List.countP_singleton]
  rfl

namespace Task

/-- The run that may still ask, and what it has counted. -/
def tally : Task → Option (RunId × Nat × Nat)
  | prepare .. | sent .. | await .. | settle .. => none
  | lock run | post run => some (run.id, run.attempt, run.unauthorizedCount)
  | posted run _ | answered run _ | sleep run | logout run | signOut run =>
    some (run.id, run.attempt + 1, run.unauthorizedCount)

/-- How far the loop of `_doRefresh` has come. -/
def Within : Task → Prop
  | prepare .. | sent .. | await .. | settle .. => True
  | lock run => run.attempt = 0 ∧ run.unauthorizedCount = 0
  | post run | posted run _ | answered run _ => run.attempt ≤ 3 ∧ run.unauthorizedCount ≤ 1
  | sleep run => run.attempt < 3 ∧ run.unauthorizedCount ≤ 1
  | logout run | signOut run =>
    run.attempt ≤ 3 ∧ (run.unauthorizedCount = 2 ∨ run.unauthorizedCount = 1 ∧ run.attempt = 3)

end Task

/-- A run that has signed out was refused twice, or at its last attempt. -/
def Refused (counted : Nat × Nat) : Prop := counted.2 = 2 ∨ counted.2 = 1 ∧ counted.1 = 4

/-- A run knows what it has counted; one that has ended the session asks no more. -/
structure Tallies (b : Browser) (tasks : List Task) : Prop where
  accounts : Bookkeeping Task.tally tasks (tally b.log) b.runs
  within : ∀ t ∈ tasks, t.Within
  bounded : ∀ id, (tally b.log id).1 ≤ 4
  fresh : ∀ id, b.runs ≤ id → tally b.log id = (0, 0)
  ended : ∀ id, .signedOut id ∈ b.log →
    id < b.runs ∧ (∀ q ∈ tasks.filterMap Task.tally, q.1 ≠ id) ∧ Refused (tally b.log id)

namespace Tallies
variable {b c : Browser} {tasks tasks' : List Task} {t u : Task} {run : Run} {e : Entry} {counted counted' : Nat × Nat}

theorem perm (h : Tallies b tasks) (hperm : tasks.Perm tasks') : Tallies b tasks' := by
  refine ⟨h.accounts.perm hperm, fun t ht => h.within t (hperm.mem_iff.mpr ht), h.bounded, h.fresh, fun id hid => ?_⟩
  obtain ⟨hlt, hclosed, hrefused⟩ := h.ended id hid
  exact ⟨hlt, fun q hq => hclosed q ((hperm.filterMap _).mem_iff.mpr hq), hrefused⟩

/-- No run asks and none ends. -/
theorem congr (h : Tallies b tasks) (htally : ∀ id, tally c.log id = tally b.log id)
    (hsigned : ∀ id, .signedOut id ∈ c.log → .signedOut id ∈ b.log) (hruns : c.runs = b.runs) : Tallies c tasks := by
  refine ⟨?_, h.within, fun id => htally id ▸ h.bounded id, fun id hid => (htally id).trans (h.fresh id (hruns ▸ hid)),
    fun id hid => ?_⟩
  · rw [hruns]
    exact h.accounts.congr fun id _ => htally id
  · rw [hruns, htally]
    exact h.ended id (hsigned id hid)

/-- The log is as it was. -/
theorem same (h : Tallies b tasks) (hlog : c.log = b.log) (hruns : c.runs = b.runs) : Tallies c tasks :=
  h.congr (fun _ => hlog ▸ rfl) (fun _ hid => hlog ▸ hid) hruns

theorem drop (h : Tallies b (t :: tasks)) : Tallies b tasks := by
  refine ⟨h.accounts.drop, fun t ht => h.within t (List.mem_cons_of_mem _ ht), h.bounded, h.fresh, fun id hid => ?_⟩
  obtain ⟨hlt, hclosed, hrefused⟩ := h.ended id hid
  exact ⟨hlt, fun q hq => hclosed q (List.filterMap_subset _ (List.subset_cons_self _ _) hq), hrefused⟩

theorem mem_head {q : RunId × Nat × Nat} (hq : q ∈ (t :: tasks).filterMap Task.tally) :
    t.tally = some q ∨ q ∈ tasks.filterMap Task.tally := by
  obtain ⟨t₁, ht₁, htally⟩ := List.mem_filterMap.mp hq
  rcases List.mem_cons.mp ht₁ with rfl | ht₁
  · exact .inl htally
  · exact .inr (List.mem_filterMap.mpr ⟨t₁, ht₁, htally⟩)

theorem within_cons (h : Tallies b tasks) (hwithin : t.Within) : ∀ t₁ ∈ t :: tasks, t₁.Within := by
  intro t₁ ht₁
  rcases List.mem_cons.mp ht₁ with rfl | ht₁
  · exact hwithin
  · exact h.within t₁ ht₁

/-- A run goes on with what it has counted. -/
theorem keep (h : Tallies b (t :: tasks)) (htally : u.tally = t.tally) (hwithin : u.Within) :
    Tallies b (u :: tasks) := by
  refine ⟨h.accounts.keep htally, h.drop.within_cons hwithin, h.bounded, h.fresh, fun id hid => ?_⟩
  obtain ⟨hlt, hclosed, hrefused⟩ := h.ended id hid
  have hitems : (u :: tasks).filterMap Task.tally = (t :: tasks).filterMap Task.tally := by
    rw [List.filterMap_cons, List.filterMap_cons, htally]
  exact ⟨hlt, fun q hq => hclosed q (hitems ▸ hq), hrefused⟩

theorem add (h : Tallies b tasks) (htally : t.tally = none) (hwithin : t.Within) : Tallies b (t :: tasks) := by
  refine ⟨h.accounts.add htally, h.within_cons hwithin, h.bounded, h.fresh, fun id hid => ?_⟩
  obtain ⟨hlt, hclosed, hrefused⟩ := h.ended id hid
  refine ⟨hlt, fun q hq => ?_, hrefused⟩
  rw [List.filterMap_cons_none htally] at hq
  exact hclosed q hq

/-- A run counts what has happened to it. -/
theorem count (h : Tallies b (t :: tasks)) {id : RunId} (ht : t.tally = some (id, counted))
    (ht' : u.tally = some (id, counted')) (hself : tally (b.log ++ [e]) id = counted')
    (hother : ∀ id', id' ≠ id → tally (b.log ++ [e]) id' = tally b.log id')
    (hsigned : ∀ id', e ≠ .signedOut id') (hbound : counted'.1 ≤ 4) (hwithin : u.Within) :
    Tallies (b.note e) (u :: tasks) := by
  have hlt := (h.accounts.mem List.mem_cons_self ht).1
  refine ⟨h.accounts.change ht ht' hself hother, h.drop.within_cons hwithin, fun id' => ?_, fun id' hid' => ?_,
    fun id' hid' => ?_⟩
  · by_cases heq : id' = id
    · subst heq
      exact hself ▸ hbound
    · exact (hother id' heq) ▸ h.bounded id'
  · refine (hother id' fun heq => ?_).trans (h.fresh id' hid')
    exact absurd hlt (Nat.not_lt.mpr (heq ▸ hid'))
  · have hbefore : .signedOut id' ∈ b.log := by
      refine (List.mem_append.mp hid').resolve_right fun hmem => ?_
      exact hsigned id' (List.mem_singleton.mp hmem).symm
    obtain ⟨hlt', hclosed, hrefused⟩ := h.ended id' hbefore
    -- the run is another one, since it counts still
    have hne : id ≠ id' := hclosed (id, counted) (List.mem_filterMap.mpr ⟨t, List.mem_cons_self, ht⟩)
    refine ⟨hlt', fun q hq => ?_, (hother id' hne.symm) ▸ hrefused⟩
    rcases mem_head hq with hq | hq
    · cases ht'.symm.trans hq
      exact hne
    · exact hclosed q (List.filterMap_subset _ (List.subset_cons_self _ _) hq)

/-- A run ends the session of the browser. -/
theorem signOut (h : Tallies b (.signOut run :: tasks)) :
    Tallies (b.note (.signedOut run.id)) (.settle run none :: tasks) := by
  obtain ⟨hlt, hcounted⟩ := h.accounts.mem List.mem_cons_self rfl
  have hne := h.accounts.ne_of_mem (x := Task.signOut run) rfl
  have htally : ∀ id, tally (b.log ++ [.signedOut run.id]) id = tally b.log id := fun id => tally_append
  have hrest := h.drop.add (t := .settle run none) rfl trivial
  refine ⟨hrest.accounts.congr fun id _ => htally id, hrest.within, fun id => (htally id) ▸ h.bounded id,
    fun id hid => (htally id).trans (h.fresh id hid), fun id hid => ?_⟩
  show id < b.runs ∧ (∀ q ∈ tasks.filterMap Task.tally, q.1 ≠ id) ∧ Refused (tally (b.log ++ [.signedOut run.id]) id)
  rw [htally]
  rcases List.mem_append.mp hid with hid | hid
  · exact hrest.ended id hid
  · cases List.mem_singleton.mp hid
    refine ⟨hlt, hne, ?_⟩
    obtain ⟨-, hwithin⟩ := h.within _ List.mem_cons_self
    rw [Refused, hcounted]
    exact hwithin.imp_right fun hlast => ⟨hlast.1, congrArg (· + 1) hlast.2⟩

theorem refreshAccessToken (h : Tallies b tasks) (tab : TabId) (awaiting : Awaiting) :
    Tallies (b.refreshAccessToken tab awaiting).1 ((b.refreshAccessToken tab awaiting).2 :: tasks) := by
  cases hpromise : (b.tab tab).refreshPromise with
  | some id =>
    simp only [Browser.refreshAccessToken, hpromise]
    exact h.add rfl trivial
  | none =>
    simp only [Browser.refreshAccessToken, hpromise]
    refine ⟨h.accounts.open rfl (h.fresh b.runs (Nat.le_refl _)), h.within_cons ⟨rfl, rfl⟩, h.bounded,
      fun id hid => h.fresh id (Nat.le_of_succ_le hid), fun id hid => ?_⟩
    obtain ⟨hlt, hclosed, hrefused⟩ := h.ended id hid
    refine ⟨Nat.lt_succ_of_lt hlt, fun q hq => ?_, hrefused⟩
    rcases mem_head hq with hq | hq
    · cases hq
      exact (Nat.ne_of_lt hlt).symm
    · exact hclosed q hq

theorem emit {r : ApiRequest} (h : Tallies b tasks) (tab : TabId) (token : Option AccessToken) :
    Tallies (b.emit tab r token).1 ((b.emit tab r token).2 :: tasks) := by
  have hlog : ∀ token, ∀ id, tally (b.log ++ [.emitted r.id token]) id = tally b.log id := fun _ _ => tally_append
  refine (h.congr (c := (b.emit tab r token).1) (hlog _) (fun id hid => ?_) rfl).add rfl trivial
  exact (List.mem_append.mp hid).resolve_right fun hmem => by cases List.mem_singleton.mp hmem

theorem proceed (h : Tallies b tasks) (tab : TabId) (result : Option AccessToken) (awaiting : Awaiting) :
    Tallies (b.proceed tab result awaiting).1 ((b.proceed tab result awaiting).2.toList ++ tasks) := by
  cases awaiting with
  | request r => exact h.emit tab result
  | response r =>
    cases result with
    | none => exact h
    | some token => exact h.add rfl trivial
  | caller => exact h

theorem prepare {r : ApiRequest} (h : Tallies b tasks) (now : Time) (tab : TabId) :
    Tallies (b.prepare now tab r).1 ((b.prepare now tab r).2 :: tasks) := by
  rw [Browser.prepare]
  split
  · split
    · exact h.refreshAccessToken tab (.request r)
    · exact h.emit tab _
  · exact h.emit tab none

/-- An attempt that was refused, or has failed. -/
theorem retry (h : Tallies b (t :: tasks)) (ht : t.tally = some (run.id, run.attempt + 1, run.unauthorizedCount))
    (hwithin : run.attempt ≤ 3 ∧ run.unauthorizedCount ≤ 1) (unauthorized : Bool) :
    Tallies (b.retry run unauthorized).1 ((b.retry run unauthorized).2.toList ++ tasks) := by
  obtain ⟨hattempt, hcount⟩ := hwithin
  have hcounted := (h.accounts.mem List.mem_cons_self ht).2
  have hself : tally (b.log ++ [.unauthorized run.id]) run.id = (run.attempt + 1, run.unauthorizedCount + 1) := by
    rw [tally_append, hcounted, Entry.posts, Entry.refuses, if_pos (decide_eq_true rfl)]
    rfl
  have hother : ∀ id, id ≠ run.id → tally (b.log ++ [.unauthorized run.id]) id = tally b.log id := by
    intro id hid
    have hne : ¬decide (run.id = id) = true := by simpa using hid.symm
    rw [tally_append, Entry.posts, Entry.refuses, if_neg Bool.false_ne_true, if_neg hne]
    rfl
  have hbound : run.attempt + 1 ≤ 4 := Nat.succ_le_succ hattempt
  rw [Browser.retry]
  dsimp only
  split
  · split
    · rename_i hagain
      refine h.count (u := .sleep { run with unauthorizedCount := run.unauthorizedCount + 1 }) ht rfl hself hother
        (fun _ he => by cases he) hbound ⟨hagain.2, hagain.1⟩
    · rename_i hlast
      refine h.count (u := .logout { run with unauthorizedCount := run.unauthorizedCount + 1 }) ht rfl hself hother
        (fun _ he => by cases he) hbound ⟨hattempt, ?_⟩
      change ¬(run.unauthorizedCount + 1 ≤ 1 ∧ run.attempt < 3) at hlast
      show run.unauthorizedCount + 1 = 2 ∨ run.unauthorizedCount + 1 = 1 ∧ run.attempt = 3
      omega
  · split
    · rename_i hagain
      exact h.keep ht.symm ⟨hagain, hcount⟩
    · exact (h.drop.add (t := .settle run none) rfl trivial).same rfl rfl

/-- A run asks for a token. -/
theorem post (h : Tallies b (.post run :: tasks)) : Tallies (b.note (.posted run.id)) (.posted run b.jar :: tasks) := by
  have hcounted := (h.accounts.mem (x := Task.post run) List.mem_cons_self rfl).2
  have hwithin := h.within _ List.mem_cons_self
  refine h.count (t := .post run) (u := .posted run b.jar) rfl rfl ?_ (fun id hid => ?_) (fun _ he => by cases he)
    (Nat.succ_le_succ hwithin.1) hwithin
  · rw [tally_append, hcounted, Entry.posts, Entry.refuses, if_pos (decide_eq_true rfl)]
    rfl
  · have hne : ¬decide (run.id = id) = true := by simpa using hid.symm
    rw [tally_append, Entry.posts, Entry.refuses, if_neg Bool.false_ne_true, if_neg hne]
    rfl

/-- **The step lemma**: one stretch of a task counts for its own run. -/
theorem stretch (h : Tallies b (t :: tasks)) (bcrypt : Bcrypt) (hasLocks : Bool) (env : Env) :
    Tallies (b.run bcrypt hasLocks env t).1 ((b.run bcrypt hasLocks env t).2.toList ++ tasks) := by
  have hwithin := h.within t List.mem_cons_self
  cases t with
  | prepare tab r => exact h.drop.prepare env.now tab
  | sent tab r =>
    rw [Browser.run]
    split
    · exact h.drop.refreshAccessToken tab _
    · exact h.drop
  | await tab id awaiting =>
    cases hsettled : b.settled id with
    | none =>
      simp only [Browser.run, hsettled]
      exact h
    | some result =>
      simp only [Browser.run, hsettled]
      exact h.drop.proceed tab result awaiting
  | lock run =>
    have hpost : run.attempt ≤ 3 ∧ run.unauthorizedCount ≤ 1 := by
      obtain ⟨hattempt, hcount⟩ := hwithin
      rw [hattempt, hcount]
      exact ⟨Nat.zero_le _, Nat.zero_le _⟩
    rw [Browser.run]
    split
    · exact h.keep rfl hpost
    · split
      · exact (h.keep (u := .post run) rfl hpost).same rfl rfl
      · exact h
  | post run => exact h.post
  | posted run cookie =>
    rw [Browser.run]
    split
    · exact (h.keep (u := .answered run _) rfl hwithin).same rfl rfl
    · exact h.retry rfl hwithin false
    · exact (h.same (c := { b with late := b.late ++ [cookie] }) rfl rfl).retry rfl hwithin false
  | answered run answer =>
    have hfail := h.retry rfl hwithin false
    cases hfate : env.fate with
    | lost =>
      simp only [Browser.run, hfate]
      exact hfail
    | stalled =>
      simp only [Browser.run, hfate]
      exact hfail
    | through =>
      cases answer with
      | ok token cookie =>
        simp only [Browser.run, hfate]
        exact (h.drop.add (t := .settle run (some token)) rfl trivial).same rfl rfl
      | unauthorized =>
        simp only [Browser.run, hfate]
        exact h.retry rfl hwithin true
      | failed =>
        simp only [Browser.run, hfate]
        exact hfail
  | sleep run => exact h.keep rfl ⟨hwithin.1, hwithin.2⟩
  | logout run =>
    have hnext := h.keep (u := .signOut run) rfl hwithin
    rw [Browser.run]
    split
    · exact hnext.same rfl rfl
    · exact hnext
    · exact hnext
  | signOut run => exact h.signOut.same rfl rfl
  | settle run result =>
    have hsettled : Tallies (({ b with settled := Function.update b.settled run.id (some result) } : Browser).setTab
        run.tab ({ · with refreshPromise := none })) tasks :=
      h.drop.same rfl rfl
    exact hsettled.proceed run.tab result run.awaiting

theorem next {bcrypt : Bcrypt} {hasLocks : Bool} (h : Tallies b b.tasks) (e : Event) :
    Tallies (b.next bcrypt hasLocks e) (b.next bcrypt hasLocks e).tasks := by
  cases e with
  | request tab bypassUrl =>
    have hadd := h.add (t := .prepare tab ⟨b.requests, bypassUrl, false, none⟩) rfl trivial
    exact (hadd.perm (List.perm_append_singleton _ _).symm).same rfl rfl
  | refresh tab =>
    have hadd := h.refreshAccessToken tab .caller
    exact (hadd.perm (List.perm_append_singleton _ _).symm).same rfl rfl
  | resume i env =>
    cases ht : b.tasks[i]? with
    | none =>
      simp only [Browser.next, ht]
      exact h
    | some t =>
      obtain ⟨tasks, hperm, hnext⟩ := Browser.next_resume bcrypt hasLocks env ht
      rw [hnext]
      have hrun := (h.perm (perm_resumed ht none).1).stretch bcrypt hasLocks env
      exact (hrun.perm hperm.symm).same rfl rfl
  | storage tab => exact h.same rfl rfl
  | arrive now =>
    rw [Browser.next]
    split
    · exact h
    · exact h.same rfl rfl
  | outside now call => exact h.same rfl rfl

end Tallies

section
variable {bcrypt : Bcrypt} {hasLocks : Bool} {server : AuthServer} {cookie : Token}
  {tab : TabId → Option AccessToken} {b : Browser}

theorem emits_of_reachable (hb : (browser bcrypt hasLocks server cookie tab).Reachable b) : Emits b b.tasks := by
  refine Machine.Reachable.invariant (M := browser bcrypt hasLocks server cookie tab)
    (I := fun b => Emits b b.tasks) ?_ (fun b e _ h _ => h.next e) hb
  exact ⟨.nil, fun _ => Nat.zero_le _, fun _ _ => rfl, fun _ ht => absurd ht List.not_mem_nil⟩

theorem tallies_of_reachable (hb : (browser bcrypt hasLocks server cookie tab).Reachable b) : Tallies b b.tasks := by
  refine Machine.Reachable.invariant (M := browser bcrypt hasLocks server cookie tab)
    (I := fun b => Tallies b b.tasks) ?_ (fun b e _ h _ => h.next e) hb
  exact ⟨.nil, fun _ ht => absurd ht List.not_mem_nil, fun _ => Nat.zero_le _, fun _ _ => rfl,
    fun _ hid => absurd hid List.not_mem_nil⟩

/-- **One refresh at a time.** However the requests of the tabs, the answers and the losses follow each other:
no tab has two refreshes under way, and where there are locks no two tabs refresh at the same time; whoever
awaits a refresh awaits one that has settled or is still under way, and a lock that is held is held by one that
goes on; a request goes out twice at most; and a refresh asks four times at most, and ends the session only
once it was refused twice, or at the last of four attempts. -/
theorem refreshes_one_at_a_time (hb : (browser bcrypt hasLocks server cookie tab).Reachable b) :
    ((b.tasks.filterMap Task.flight).map Prod.snd).Nodup ∧
      (hasLocks → (b.tasks.filterMap Task.holds).length ≤ 1) ∧
      (∀ id ∈ b.tasks.filterMap Task.awaits,
        b.settled id ≠ none ∨ ∃ tab, (id, tab) ∈ b.tasks.filterMap Task.flight) ∧
      (∀ id, b.lock = some id → id ∈ b.tasks.filterMap Task.holds) ∧
      (∀ id, emissions b.log id ≤ 2) ∧
      ∀ id, (tally b.log id).1 ≤ 4 ∧ (.signedOut id ∈ b.log → Refused (tally b.log id)) := by
  have hflight := flight_of_reachable hb
  have hemits := emits_of_reachable hb
  have htallies := tallies_of_reachable hb
  exact ⟨hflight.tabs_nodup, hflight.holds_length, hflight.awaited, hflight.holder, hemits.bounded,
    fun id => ⟨htallies.bounded id, fun hid => (htallies.ended id hid).2.2⟩⟩

/-- Two tabs want a token, the first one twice; it gets the lock, and its answer is on the way. -/
def twoTabs : List Event :=
  [.refresh 0, .refresh 1, .request 0 false, .refresh 0, .resume 0 ⟨0, .through, 200⟩, .resume 0 ⟨0, .through, 200⟩,
    .resume 0 ⟨0, .through, 200⟩, .resume 2 ⟨0, .through, 200⟩]

abbrev signedIn : Machine Browser Event :=
  browser .plain true ((Auth.authServer .plain).exec .start Auth.registered) 1 fun _ => none

theorem refreshes_one_at_a_time_sample :
    (signedIn.exec signedIn.init twoTabs).tasks =
        [.answered ⟨0, 0, 0, 0, .caller⟩ (.ok ⟨2, 900000⟩ 2), .lock ⟨1, 1, 0, 0, .caller⟩,
          .sent 0 ⟨0, false, false, none⟩, .await 0 0 .caller] ∧
      (((signedIn.exec signedIn.init twoTabs).tasks.filterMap Task.flight).map Prod.snd).Nodup ∧
      ((signedIn.exec signedIn.init twoTabs).tasks.filterMap Task.holds).length ≤ 1 := by
  have hallowed : signedIn.Allowed signedIn.init twoTabs := by decide
  have hall := refreshes_one_at_a_time (Machine.Reachable.init.exec hallowed)
  exact ⟨by decide, hall.1, hall.2.1 rfl⟩

end

end Vesper.Client.TokenRefresh
