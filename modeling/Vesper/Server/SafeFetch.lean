import Vesper.Server.SsrfGuard

/-!
# Fetching pages for previews

`validateHostname` and `safeFetch` of `ssrf.guard.ts`. The runtime (URLs, `net.isIPv6`, `dns.lookup`, `fetch`)
is a parameter: a round of the redirect loop is given what the lookup and the request answer in it.
-/

namespace Vesper.Server.Ssrf

abbrev Bytes := List UInt8

/-! ## What the runtime provides -/

structure Runtime where
  URL : Type
  /-- `new URL(raw)` -/
  parse : List Char → Option URL
  /-- `new URL(location, base)` -/
  resolve : List Char → List Char → Option URL
  protocol : URL → List Char
  hostname : URL → List Char
  text : URL → List Char
  isIPv6 : List Char → Bool
  beyondAscii : Char → List Char

inductive FetchError
  | ssrf (message : List Char)
  /-- What a promise of the runtime rejects with. -/
  | rejected (message : List Char)
  deriving DecidableEq

structure Lookup where
  address : List Char
  family : Nat

/-- The chunks that `read` hands out, and what it rejects with after them, if it does. -/
structure Body where
  chunks : List Bytes
  failure : Option (List Char)

structure Response where
  status : Nat
  headers : List Char → Option (List Char)
  body : Option Body

/-- The answers of one round, whether they are asked for or not. -/
structure Round where
  lookup : Except (List Char) Lookup
  fetch : Except (List Char) Response

structure SafeFetchOptions where
  maxBytes : Nat := 2 * 1024 * 1024
  maxRedirects : Nat := 3

/-- What `safeFetch` resolves with. -/
structure Page where
  status : Nat
  headers : List Char → Option (List Char)
  body : Option Bytes

/-! ## Hostnames -/

def validateHostname (R : Runtime) (hostname : List Char) (lookup : Except (List Char) Lookup) :
    Except FetchError Unit :=
  if isIPv4 hostname then
    if isPrivateIPv4 hostname then
      .error (.ssrf ("Blocked: ".toList ++ hostname ++ " is a private IPv4 address".toList))
    else .ok ()
  else if R.isIPv6 hostname then
    if isPrivateIPv6 R.beyondAscii hostname then
      .error (.ssrf ("Blocked: ".toList ++ hostname ++ " is a private IPv6 address".toList))
    else .ok ()
  else
    match lookup with
    | .error message =>
      .error (.ssrf ("DNS resolution failed for \"".toList ++ hostname ++ "\": ".toList ++ message))
    | .ok { address, family } =>
      if family = 4 ∧ isPrivateIPv4 address then
        .error (.ssrf ("Blocked: \"".toList ++ hostname ++ "\" resolves to private IPv4 ".toList ++ address))
      else if family = 6 ∧ isPrivateIPv6 R.beyondAscii address then
        .error (.ssrf ("Blocked: \"".toList ++ hostname ++ "\" resolves to private IPv6 ".toList ++ address))
      else .ok ()

/-! ## The body -/

/-- The reading loop: the chunks that are kept, and the running total. -/
def readChunks (maxBytes : Nat) (failure : Option (List Char)) :
    List Bytes → Nat → Except FetchError (List Bytes × Nat)
  | [], totalBytes =>
    match failure with
    | none => .ok ([], totalBytes)
    | some message => .error (.rejected message)
  | value :: rest, totalBytes =>
    let totalBytes := totalBytes + value.length
    if maxBytes < totalBytes then .ok ([], totalBytes)  -- the reader is cancelled
    else do
      let (chunks, totalBytes) ← readChunks maxBytes failure rest totalBytes
      return (value :: chunks, totalBytes)

/-- `body.set(chunk, offset)` -/
def setBytes (body chunk : Bytes) (offset : Nat) : Except FetchError Bytes :=
  if offset + chunk.length ≤ body.length then
    .ok (body.take offset ++ chunk ++ body.drop (offset + chunk.length))
  else .error (.rejected "offset is out of bounds".toList)

/-- Sets the chunks one after the other. -/
def fillBody : List Bytes → Bytes → Nat → Except FetchError Bytes
  | [], body, _ => .ok body
  | chunk :: chunks, body, offset => do
    let body ← setBytes body chunk offset
    fillBody chunks body (offset + chunk.length)

/-- `new Response` with a body. -/
def newResponse (body : Bytes) (status : Nat) (headers : List Char → Option (List Char)) :
    Except FetchError Page :=
  if status < 200 ∨ 599 < status then .error (.rejected "init[\"status\"] must be in the range".toList)
  else if status = 204 ∨ status = 205 ∨ status = 304 then
    .error (.rejected "Response with null body status cannot have body".toList)
  else .ok { status, headers, body := some body }

/-- Whether the content type includes `text/html`. -/
def isHtml (response : Response) : Bool :=
  let contentType := (response.headers "content-type".toList).getD []
  contentType.tails.any fun rest => "text/html".toList.isPrefixOf rest

/-- What is done with a response that is no redirect. -/
def finish (maxBytes : Nat) (response : Response) : Except FetchError Page :=
  if !isHtml response then .ok { status := 204, headers := fun _ => none, body := none }
  else
    match response.body with
    | none => .ok { status := response.status, headers := response.headers, body := none }
    | some body => do
      let (chunks, totalBytes) ← readChunks maxBytes body.failure body.chunks 0
      let body ← fillBody chunks (List.replicate (min totalBytes maxBytes) 0) 0
      newResponse body response.status response.headers

/-! ## The loop -/

variable (R : Runtime)

/-- The checked URLs. -/
def isHttp (url : R.URL) : Bool :=
  R.protocol url == "http:".toList || R.protocol url == "https:".toList

/-- What a round does, in order. -/
inductive Action (URL : Type)
  | validated (hostname : List Char)
  | fetched (url : URL)

/-- The redirects left and the next URL. -/
abbrev Next := Nat × R.URL

def redirect (redirectsLeft : Nat) (currentUrl : R.URL) (response : Response) :
    Except FetchError (Next R) :=
  match response.headers "location".toList with
  | none | some [] => .error (.ssrf "Redirect without Location header".toList)
  | some location =>
    if redirectsLeft ≤ 0 then .error (.ssrf "Too many redirects".toList)
    else
      match R.resolve location (R.text currentUrl) with
      | none => .error (.ssrf ("Invalid redirect URL: ".toList ++ location))
      | some url =>
        if !isHttp R url then .error (.ssrf ("Redirect to blocked protocol: ".toList ++ R.protocol url))
        else .ok (redirectsLeft - 1, url)

/-- One round: what was done, and the result or how to go on. -/
def round (maxBytes redirectsLeft : Nat) (currentUrl : R.URL) (answers : Round) :
    List (Action R.URL) × (Except FetchError Page ⊕ Next R) :=
  match validateHostname R (R.hostname currentUrl) answers.lookup with
  | .error e => ([], .inl (.error e))
  | .ok () =>
    let done := [.validated (R.hostname currentUrl), .fetched currentUrl]
    match answers.fetch with
    | .error message => (done, .inl (.error (.rejected message)))
    | .ok response =>
      if 300 ≤ response.status ∧ response.status < 400 then
        match redirect R redirectsLeft currentUrl response with
        | .error e => (done, .inl (.error e))
        | .ok next => (done, .inr next)
      else (done, .inl (finish maxBytes response))

/-- At most so many rounds of `while (true)`: what each did, and the result if it was reached. -/
def fetchLoop (maxBytes : Nat) (rounds : Nat → Round) :
    Nat → Nat → Next R → List (List (Action R.URL)) × Option (Except FetchError Page)
  | 0, _, _ => ([], none)
  | fuel + 1, i, (redirectsLeft, currentUrl) =>
    match round R maxBytes redirectsLeft currentUrl (rounds i) with
    | (done, .inl result) => ([done], some result)
    | (done, .inr next) =>
      let (log, result) := fetchLoop maxBytes rounds fuel (i + 1) next
      (done :: log, result)

def safeFetch (rawUrl : List Char) (options : SafeFetchOptions) (rounds : Nat → Round) (fuel : Nat) :
    List (List (Action R.URL)) × Option (Except FetchError Page) :=
  match R.parse rawUrl with
  | none => ([], some (.error (.ssrf ("Invalid URL: ".toList ++ rawUrl))))
  | some url =>
    if !isHttp R url then ([], some (.error (.ssrf ("Blocked protocol: ".toList ++ R.protocol url))))
    else fetchLoop R options.maxBytes rounds fuel 0 (options.maxRedirects, url)

/-- The URLs that were fetched. -/
def fetches {URL : Type} (log : List (List (Action URL))) : List URL :=
  log.flatten.filterMap fun
    | .fetched url => some url
    | .validated _ => none

/-! ## One round -/

variable {R} {maxBytes redirectsLeft fuel i : Nat} {currentUrl : R.URL} {answers : Round} {rounds : Nat → Round}
  {next : Next R} {page : Page}

/-- A round validates and fetches the same URL, or neither. -/
theorem round_done : (round R maxBytes redirectsLeft currentUrl answers).1 = [] ∨
    validateHostname R (R.hostname currentUrl) answers.lookup = .ok () ∧
      (round R maxBytes redirectsLeft currentUrl answers).1 =
        [.validated (R.hostname currentUrl), .fetched currentUrl] := by
  unfold round
  cases hvalid : validateHostname R (R.hostname currentUrl) answers.lookup with
  | error e => exact .inl rfl
  | ok =>
    refine .inr ⟨rfl, ?_⟩
    cases answers.fetch with
    | error message => rfl
    | ok response =>
      dsimp only
      split
      · cases redirect R redirectsLeft currentUrl response <;> rfl
      · rfl

theorem redirect_ok {response : Response} (h : redirect R redirectsLeft currentUrl response = .ok next) :
    next.1 + 1 = redirectsLeft ∧ isHttp R next.2 = true := by
  unfold redirect at h
  split at h
  · cases h
  · cases h
  · split at h
    · cases h
    · rename_i hleft
      split at h
      · cases h
      · split at h
        · cases h
        · rename_i hhttp
          cases h
          exact ⟨Nat.succ_pred_eq_of_pos (Nat.lt_of_not_le hleft), by simpa using hhttp⟩

/-- A redirect that is followed uses one up, and goes to a URL of the two protocols. -/
theorem round_next (h : (round R maxBytes redirectsLeft currentUrl answers).2 = .inr next) :
    next.1 + 1 = redirectsLeft ∧ isHttp R next.2 = true := by
  unfold round at h
  split at h
  · cases h
  · dsimp only at h
    split at h
    · cases h
    · split at h
      · split at h
        · cases h
        · rename_i hredirect
          cases h
          exact redirect_ok hredirect
      · cases h

/-- A page comes from a response of the round. -/
theorem round_page (h : (round R maxBytes redirectsLeft currentUrl answers).2 = .inl (.ok page)) :
    ∃ response, answers.fetch = .ok response ∧ finish maxBytes response = .ok page := by
  unfold round at h
  split at h
  · cases h
  · dsimp only at h
    split at h
    · cases h
    · rename_i response hfetch
      refine ⟨response, hfetch, ?_⟩
      split at h
      · split at h <;> cases h
      · exact Sum.inl.inj h

/-! ## The loop -/

theorem fetchLoop_succ : fetchLoop R maxBytes rounds (fuel + 1) i (redirectsLeft, currentUrl) =
    match (round R maxBytes redirectsLeft currentUrl (rounds i)).2 with
    | .inl result => ([(round R maxBytes redirectsLeft currentUrl (rounds i)).1], some result)
    | .inr next => ((round R maxBytes redirectsLeft currentUrl (rounds i)).1 ::
        (fetchLoop R maxBytes rounds fuel (i + 1) next).1, (fetchLoop R maxBytes rounds fuel (i + 1) next).2) := by
  rw [fetchLoop]
  generalize round R maxBytes redirectsLeft currentUrl (rounds i) = outcome
  obtain ⟨done, result | next⟩ := outcome <;> rfl

/-- Every fetch of the loop is checked in its round. -/
theorem fetchLoop_checked (h : isHttp R next.2 = true) {k : Nat} {done : List (Action R.URL)}
    (hk : (fetchLoop R maxBytes rounds fuel i next).1[k]? = some done) {url : R.URL}
    (hurl : .fetched url ∈ done) : isHttp R url = true ∧
      validateHostname R (R.hostname url) (rounds (i + k)).lookup = .ok () ∧
        done = [.validated (R.hostname url), .fetched url] := by
  induction fuel generalizing i next k with
  | zero => simp [fetchLoop] at hk
  | succ fuel ih =>
    obtain ⟨redirectsLeft, currentUrl⟩ := next
    have hfirst : done = (round R maxBytes redirectsLeft currentUrl (rounds i)).1 → isHttp R url = true ∧
        validateHostname R (R.hostname url) (rounds i).lookup = .ok () ∧
          done = [.validated (R.hostname url), .fetched url] := by
      rintro rfl
      rcases round_done (R := R) with hnone | ⟨hvalid, hboth⟩
      · rw [hnone] at hurl
        cases hurl
      · rw [hboth] at hurl ⊢
        obtain rfl : url = currentUrl := by simpa using hurl
        exact ⟨h, hvalid, rfl⟩
    rw [fetchLoop_succ] at hk
    cases hround : (round R maxBytes redirectsLeft currentUrl (rounds i)).2 with
    | inl result =>
      simp only [hround] at hk
      cases k with
      | zero => exact hfirst (Option.some.inj hk).symm
      | succ k => cases hk
    | inr next =>
      simp only [hround] at hk
      cases k with
      | zero => exact hfirst (Option.some.inj hk).symm
      | succ k =>
        rw [Nat.add_comm k 1, ← Nat.add_assoc]
        exact ih (round_next hround).2 hk

theorem fetches_round_le : (fetches [(round R maxBytes redirectsLeft currentUrl answers).1]).length ≤ 1 := by
  rcases round_done (R := R) with hnone | ⟨-, hboth⟩
  · rw [hnone]
    exact Nat.zero_le 1
  · rw [hboth]
    exact Nat.le_refl 1

theorem fetches_cons {URL : Type} (done : List (Action URL)) (log : List (List (Action URL))) :
    fetches (done :: log) = fetches [done] ++ fetches log := by
  simp [fetches]

/-- There is one fetch more than redirects at most. -/
theorem fetches_fetchLoop_le : (fetches (fetchLoop R maxBytes rounds fuel i next).1).length ≤ next.1 + 1 := by
  induction fuel generalizing i next with
  | zero => exact Nat.zero_le _
  | succ fuel ih =>
    obtain ⟨redirectsLeft, currentUrl⟩ := next
    have hfirst : (fetches [(round R maxBytes redirectsLeft currentUrl (rounds i)).1]).length ≤ 1 :=
      fetches_round_le
    rw [fetchLoop_succ]
    cases hround : (round R maxBytes redirectsLeft currentUrl (rounds i)).2 with
    | inl result => exact Nat.le_trans hfirst (Nat.le_add_left ..)
    | inr next =>
      have hrest : (fetches (fetchLoop R maxBytes rounds fuel (i + 1) next).1).length ≤ next.1 + 1 := ih
      have hnext := (round_next hround).1
      dsimp only
      rw [fetches_cons, List.length_append]
      omega

/-- **Termination**: with more rounds than redirects there is a result. -/
theorem fetchLoop_isSome (h : next.1 < fuel) : (fetchLoop R maxBytes rounds fuel i next).2.isSome := by
  induction fuel generalizing i next with
  | zero => exact absurd h (Nat.not_lt_zero _)
  | succ fuel ih =>
    obtain ⟨redirectsLeft, currentUrl⟩ := next
    rw [fetchLoop_succ]
    cases hround : (round R maxBytes redirectsLeft currentUrl (rounds i)).2 with
    | inl result => rfl
    | inr next =>
      have hnext := (round_next hround).1
      exact ih (by omega)

theorem fetchLoop_log_pos {result : Except FetchError Page}
    (h : (fetchLoop R maxBytes rounds fuel i next).2 = some result) :
    0 < (fetchLoop R maxBytes rounds fuel i next).1.length := by
  cases fuel with
  | zero => cases h
  | succ fuel =>
    obtain ⟨redirectsLeft, currentUrl⟩ := next
    rw [fetchLoop_succ]
    cases (round R maxBytes redirectsLeft currentUrl (rounds i)).2 <;> exact Nat.zero_lt_succ _

/-- A page is made from the response of the last round. -/
theorem fetchLoop_page (h : (fetchLoop R maxBytes rounds fuel i next).2 = some (.ok page)) :
    ∃ response, (rounds (i + ((fetchLoop R maxBytes rounds fuel i next).1.length - 1))).fetch = .ok response ∧
      finish maxBytes response = .ok page := by
  induction fuel generalizing i next with
  | zero => cases h
  | succ fuel ih =>
    obtain ⟨redirectsLeft, currentUrl⟩ := next
    rw [fetchLoop_succ] at h ⊢
    cases hround : (round R maxBytes redirectsLeft currentUrl (rounds i)).2 with
    | inl result =>
      simp only [hround, Option.some.injEq] at h
      exact round_page (h ▸ hround)
    | inr next =>
      simp only [hround] at h
      obtain ⟨response, hfetch, hfinish⟩ := ih h
      refine ⟨response, ?_, hfinish⟩
      have hlog := fetchLoop_log_pos h
      have hround : i + ((fetchLoop R maxBytes rounds fuel (i + 1) next).1.length + 1 - 1) =
          i + 1 + ((fetchLoop R maxBytes rounds fuel (i + 1) next).1.length - 1) := by omega
      dsimp only
      rw [List.length_cons, hround]
      exact hfetch

theorem safeFetch_page {rawUrl : List Char} {options : SafeFetchOptions}
    (h : (safeFetch R rawUrl options rounds fuel).2 = some (.ok page)) :
    ∃ response, (rounds ((safeFetch R rawUrl options rounds fuel).1.length - 1)).fetch = .ok response ∧
      finish options.maxBytes response = .ok page := by
  unfold safeFetch at h ⊢
  cases hparse : R.parse rawUrl with
  | none =>
    rw [hparse] at h
    cases h
  | some url =>
    simp only [hparse] at h ⊢
    split at h
    · cases h
    · rename_i hhttp
      rw [if_neg hhttp]
      obtain ⟨response, hfetch, hfinish⟩ := fetchLoop_page h
      rw [Nat.zero_add] at hfetch
      exact ⟨response, hfetch, hfinish⟩

/-- **Nothing unchecked is requested**: every URL that is fetched has one of the two protocols and a hostname
that was validated right before, in the same round; there are at most `maxRedirects + 1` fetches; and the
loop ends with a page or an error. -/
theorem safeFetch_checked (R : Runtime) (rawUrl : List Char) (options : SafeFetchOptions)
    (rounds : Nat → Round) (fuel : Nat) :
    (∀ (k : Nat) (done : List (Action R.URL)) (url : R.URL),
      (safeFetch R rawUrl options rounds fuel).1[k]? = some done → .fetched url ∈ done →
        (R.protocol url = "http:".toList ∨ R.protocol url = "https:".toList) ∧
        validateHostname R (R.hostname url) (rounds k).lookup = .ok () ∧
        done = [.validated (R.hostname url), .fetched url]) ∧
    (fetches (safeFetch R rawUrl options rounds fuel).1).length ≤ options.maxRedirects + 1 ∧
    (options.maxRedirects < fuel → (safeFetch R rawUrl options rounds fuel).2.isSome) := by
  unfold safeFetch
  cases R.parse rawUrl with
  | none => exact ⟨fun k done url hk => by (simp at hk), Nat.zero_le _, fun _ => rfl⟩
  | some url =>
    dsimp only
    split
    · exact ⟨fun k done url hk => by (simp at hk), Nat.zero_le _, fun _ => rfl⟩
    · rename_i hhttp
      have hhttp : isHttp R url = true := by simpa using hhttp
      refine ⟨fun k done url' hk hurl => ?_, fetches_fetchLoop_le, fun hfuel => ?_⟩
      · have hnext : isHttp R ((options.maxRedirects, url) : Next R).2 = true := hhttp
        obtain ⟨hprotocol, hvalid, hdone⟩ := fetchLoop_checked hnext hk hurl
        rw [Nat.zero_add] at hvalid
        exact ⟨by simpa [isHttp] using hprotocol, hvalid, hdone⟩
      · have hnext : ((options.maxRedirects, url) : Next R).1 < fuel := hfuel
        exact fetchLoop_isSome hnext

/-- A runtime that knows two URLs of one host. -/
def sampleRuntime : Runtime where
  URL := List Char × List Char
  parse raw :=
    if raw = "http://example.org/".toList then some ("http:".toList, "example.org".toList)
    else if raw = "https://example.org/".toList then some ("https:".toList, "example.org".toList)
    else none
  resolve location _ :=
    if location = "https://example.org/".toList then some ("https:".toList, "example.org".toList) else none
  protocol := Prod.fst
  hostname := Prod.snd
  text url := url.1 ++ "//".toList ++ url.2 ++ "/".toList
  isIPv6 _ := false
  beyondAscii c := [c]

def sampleLookup : Lookup := { address := "93.184.216.34".toList, family := 4 }

/-- The chunks of an HTML page. -/
def sampleResponse (chunks : List Bytes) : Response where
  status := 200
  headers name := if name = "content-type".toList then some "text/html".toList else none
  body := some { chunks, failure := none }

/-- First a redirect to the other URL, then a page. -/
def sampleRounds : Nat → Round
  | 0 => {
      lookup := .ok sampleLookup
      fetch := .ok {
        status := 302
        headers := fun name => if name = "location".toList then some "https://example.org/".toList else none
        body := none } }
  | _ + 1 => { lookup := .ok sampleLookup, fetch := .ok (sampleResponse [[1, 2, 3]]) }

theorem safeFetch_checked_sample :
    (fetches (safeFetch sampleRuntime "http://example.org/".toList {} sampleRounds 4).1).length ≤ 4 ∧
    validateHostname sampleRuntime "example.org".toList (sampleRounds 1).lookup = .ok () ∧
    (safeFetch sampleRuntime "http://example.org/".toList {} sampleRounds 4).2.isSome := by
  obtain ⟨hchecked, hfetches, hends⟩ :=
    safeFetch_checked sampleRuntime "http://example.org/".toList {} sampleRounds 4
  refine ⟨hfetches, ?_, hends (by decide)⟩
  exact (hchecked 1 [.validated "example.org".toList, .fetched ("https:".toList, "example.org".toList)]
    ("https:".toList, "example.org".toList) (by rfl) (by simp)).2.1

end Vesper.Server.Ssrf
