import Vesper.Server.SafeFetch

/-!
# The body cap

The chunk that crosses the cap is left out, but the buffer has room for its beginning.
-/

namespace Vesper.Server.Ssrf

variable {maxBytes : Nat} {chunks kept : List Bytes} {failure : Option (List Char)} {totalBytes total : Nat}
  {page : Page}

/-- What the reading loop keeps: everything, or what comes before the chunk that crosses the cap. -/
inductive Kept (maxBytes totalBytes : Nat) (chunks : List Bytes) : List Bytes × Nat → Prop
  | all : totalBytes + chunks.flatten.length ≤ maxBytes →
      Kept maxBytes totalBytes chunks (chunks, totalBytes + chunks.flatten.length)
  | crossed (kept : List Bytes) (chunk : Bytes) (rest : List Bytes) : chunks = kept ++ chunk :: rest →
      totalBytes + kept.flatten.length ≤ maxBytes → maxBytes < totalBytes + kept.flatten.length + chunk.length →
      Kept maxBytes totalBytes chunks (kept, totalBytes + kept.flatten.length + chunk.length)

theorem Kept.cons {value : Bytes} {outcome : List Bytes × Nat}
    (h : Kept maxBytes (totalBytes + value.length) chunks outcome) :
    Kept maxBytes totalBytes (value :: chunks) (value :: outcome.1, outcome.2) := by
  cases h with
  | all hle =>
    have hall : _ → Kept maxBytes totalBytes (value :: chunks) _ := .all
    rw [List.flatten_cons, List.length_append, ← Nat.add_assoc] at hall
    exact hall hle
  | crossed kept chunk rest hchunks hle hlt =>
    have hcrossed : _ → _ → Kept maxBytes totalBytes (value :: chunks) _ :=
      .crossed (value :: kept) chunk rest (by rw [hchunks]; rfl)
    rw [List.flatten_cons, List.length_append, ← Nat.add_assoc] at hcrossed
    exact hcrossed hle hlt

theorem readChunks_ok (hle : totalBytes ≤ maxBytes)
    (h : readChunks maxBytes failure chunks totalBytes = .ok (kept, total)) :
    Kept maxBytes totalBytes chunks (kept, total) := by
  induction chunks generalizing totalBytes kept total with
  | nil =>
    cases failure with
    | none =>
      cases h
      exact .all hle
    | some message => cases h
  | cons value rest ih =>
    rw [readChunks] at h
    dsimp only at h
    split at h
    · rename_i hcross
      cases h
      exact .crossed [] value rest rfl hle hcross
    · rename_i hfits
      cases hrest : readChunks maxBytes failure rest (totalBytes + value.length) with
      | error e =>
        rw [hrest] at h
        cases h
      | ok outcome =>
        rw [hrest] at h
        cases h
        exact (ih (Nat.le_of_not_lt hfits) hrest).cons

theorem setBytes_append (pre chunk : Bytes) {n : Nat} (h : chunk.length ≤ n) :
    setBytes (pre ++ List.replicate n 0) chunk pre.length =
      .ok (pre ++ chunk ++ List.replicate (n - chunk.length) 0) := by
  have hlength : pre.length + chunk.length ≤ (pre ++ List.replicate n (0 : UInt8)).length := by
    rw [List.length_append, List.length_replicate]
    exact Nat.add_le_add_left h _
  rw [setBytes, if_pos hlength, List.take_left, List.drop_append, List.drop_eq_nil_of_le (Nat.le_add_right ..),
    Nat.add_sub_cancel_left, List.drop_replicate, List.nil_append]

/-- The chunks follow each other, and zeros are left after them. -/
theorem fillBody_append (pre : Bytes) {n : Nat} (h : kept.flatten.length ≤ n) :
    fillBody kept (pre ++ List.replicate n 0) pre.length =
      .ok (pre ++ kept.flatten ++ List.replicate (n - kept.flatten.length) 0) := by
  induction kept generalizing pre n with
  | nil => simp [fillBody]
  | cons chunk rest ih =>
    rw [List.flatten_cons, List.length_append] at h
    have hset := setBytes_append pre chunk (Nat.le_trans (Nat.le_add_right ..) h)
    have hrest := ih (pre ++ chunk) (n := n - chunk.length) (by omega)
    rw [List.length_append] at hrest
    rw [fillBody, hset]
    refine hrest.trans ?_
    rw [List.flatten_cons, List.length_append, ← List.append_assoc, Nat.sub_sub]

/-- What is received before the cap of a chunk that crosses it is all zeros. -/
def CapOnZeros (maxBytes : Nat) (chunks : List Bytes) : Prop :=
  ∀ (before : List Bytes) (chunk : Bytes) (rest : List Bytes), chunks = before ++ chunk :: rest →
    before.flatten.length ≤ maxBytes → maxBytes < before.flatten.length + chunk.length →
      ∀ byte ∈ chunk.take (maxBytes - before.flatten.length), byte = 0

theorem capOnZeros_of_le (h : chunks.flatten.length ≤ maxBytes) : CapOnZeros maxBytes chunks := by
  rintro before chunk rest rfl - hlt
  rw [List.flatten_append, List.flatten_cons, List.length_append, List.length_append] at h
  omega

/-- Only one chunk crosses the cap. -/
theorem before_unique {before : List Bytes} {chunk chunk' : Bytes} {rest rest' : List Bytes}
    (h : kept ++ chunk :: rest = before ++ chunk' :: rest') (hle : kept.flatten.length ≤ maxBytes)
    (hlt : maxBytes < kept.flatten.length + chunk.length) (hle' : before.flatten.length ≤ maxBytes)
    (hlt' : maxBytes < before.flatten.length + chunk'.length) : before = kept ∧ chunk' = chunk := by
  induction kept generalizing before maxBytes with
  | nil =>
    cases before with
    | nil => exact ⟨rfl, (List.cons.inj h).1.symm⟩
    | cons first before =>
      obtain ⟨rfl, -⟩ := List.cons.inj h
      rw [List.flatten_cons, List.length_append] at hle'
      simp only [List.flatten_nil, List.length_nil] at hlt
      omega
  | cons first kept ih =>
    rw [List.flatten_cons, List.length_append] at hle hlt
    cases before with
    | nil =>
      obtain ⟨rfl, -⟩ := List.cons.inj h
      simp only [List.flatten_nil, List.length_nil] at hlt'
      omega
    | cons first' before =>
      obtain ⟨rfl, hrest⟩ := List.cons.inj h
      rw [List.flatten_cons, List.length_append] at hle' hlt'
      have hkept : kept.flatten.length ≤ maxBytes - first.length := Nat.le_sub_of_add_le' hle
      obtain ⟨hbefore, hchunk⟩ := ih hrest hkept (by omega) (by omega) (by omega)
      exact ⟨by rw [hbefore], hchunk⟩

theorem capOnZeros_crossed {chunk : Bytes} {rest : List Bytes} (hchunks : chunks = kept ++ chunk :: rest)
    (hle : kept.flatten.length ≤ maxBytes) (hlt : maxBytes < kept.flatten.length + chunk.length) :
    CapOnZeros maxBytes chunks ↔ ∀ byte ∈ chunk.take (maxBytes - kept.flatten.length), byte = 0 := by
  refine ⟨fun h => h kept chunk rest hchunks hle hlt, fun h before chunk' rest' hchunks' hle' hlt' => ?_⟩
  obtain ⟨rfl, rfl⟩ := before_unique (hchunks.symm.trans hchunks') hle hlt hle' hlt'
  exact h

/-- The kept chunks with zeros up to the size are the beginning of the stream only if zeros were received. -/
theorem Kept.eq_take_iff (h : Kept maxBytes 0 chunks (kept, total)) :
    kept.flatten ++ List.replicate (min total maxBytes - kept.flatten.length) 0 =
      chunks.flatten.take (min chunks.flatten.length maxBytes) ↔ CapOnZeros maxBytes chunks := by
  cases h with
  | all hle =>
    rw [Nat.zero_add] at hle ⊢
    rw [Nat.min_eq_left hle, Nat.sub_self, List.replicate_zero, List.append_nil, List.take_length]
    exact iff_of_true rfl (capOnZeros_of_le hle)
  | crossed kept chunk rest hchunks hle hlt =>
    rw [Nat.zero_add] at hle hlt ⊢
    have hstream : chunks.flatten.take (min chunks.flatten.length maxBytes) =
        kept.flatten ++ chunk.take (maxBytes - kept.flatten.length) := by
      have hlength : maxBytes ≤ chunks.flatten.length := by
        rw [hchunks, List.flatten_append, List.flatten_cons, List.length_append, List.length_append]
        omega
      rw [Nat.min_eq_right hlength, hchunks, List.flatten_append, List.flatten_cons, List.take_append,
        List.take_of_length_le hle, List.take_append_of_le_length (by omega)]
    have htake : (chunk.take (maxBytes - kept.flatten.length)).length = maxBytes - kept.flatten.length :=
      List.length_take_of_le (by omega)
    rw [capOnZeros_crossed hchunks hle hlt, hstream, List.append_cancel_left_eq, Nat.min_eq_right (by omega),
      eq_comm, List.eq_replicate_iff, and_iff_right htake]

theorem newResponse_body {body : Bytes} {status : Nat} {headers : List Char → Option (List Char)}
    (h : newResponse body status headers = .ok page) : page.body = some body := by
  unfold newResponse at h
  split at h
  · cases h
  · split at h
    · cases h
    · cases h
      rfl

/-- What the page of an HTML response carries. -/
theorem finish_body {response : Response} {body : Body} (h : finish maxBytes response = .ok page)
    (hhtml : isHtml response = true) (hbody : response.body = some body) :
    page.body = some (body.chunks.flatten.take (min body.chunks.flatten.length maxBytes)) ↔
      CapOnZeros maxBytes body.chunks := by
  rw [finish, hhtml, hbody] at h
  cases hread : readChunks maxBytes body.failure body.chunks 0 with
  | error e =>
    simp only [hread] at h
    cases h
  | ok outcome =>
    obtain ⟨kept, total⟩ := outcome
    have hkept := readChunks_ok (Nat.zero_le _) hread
    have hroom : kept.flatten.length ≤ min total maxBytes := by
      cases hkept with
      | all hle => omega
      | crossed kept chunk rest hchunks hle hlt => omega
    have hfill : fillBody kept (List.replicate (min total maxBytes) 0) 0 = _ := fillBody_append [] hroom
    have hpage : newResponse (kept.flatten ++ List.replicate (min total maxBytes - kept.flatten.length) 0)
        response.status response.headers = .ok page := by
      simp only [hread] at h
      change (fillBody kept (List.replicate (min total maxBytes) 0) 0 >>= fun body =>
        newResponse body response.status response.headers) = .ok page at h
      rw [hfill] at h
      exact h
    rw [newResponse_body hpage, Option.some.injEq]
    exact hkept.eq_take_iff

/-- **The body cap**: when a page of an HTML response is returned, it carries the first `maxBytes` bytes that
were streamed, or all of them, if and only if every byte before the cap in a chunk that crosses it is zero. -/
theorem safeFetch_body (R : Runtime) (rawUrl : List Char) (options : SafeFetchOptions) (rounds : Nat → Round)
    (fuel : Nat) (page : Page) (h : (safeFetch R rawUrl options rounds fuel).2 = some (.ok page)) :
    ∃ response, (rounds ((safeFetch R rawUrl options rounds fuel).1.length - 1)).fetch = .ok response ∧
      finish options.maxBytes response = .ok page ∧
      ∀ body, isHtml response = true → response.body = some body →
        (page.body = some (body.chunks.flatten.take (min body.chunks.flatten.length options.maxBytes)) ↔
          CapOnZeros options.maxBytes body.chunks) := by
  obtain ⟨response, hfetch, hfinish⟩ := safeFetch_page h
  exact ⟨response, hfetch, hfinish, fun body hhtml hbody => finish_body hfinish hhtml hbody⟩

def samplePage (body : Bytes) : Page :=
  { status := 200, headers := (sampleResponse []).headers, body := some body }

def answering (chunks : List Bytes) : Nat → Round :=
  fun _ => { lookup := .ok sampleLookup, fetch := .ok (sampleResponse chunks) }

theorem safeFetch_body_sample : CapOnZeros 4 [[1, 2, 3], [4]] := by
  have hrun : (safeFetch sampleRuntime "http://example.org/".toList { maxBytes := 4 }
      (answering [[1, 2, 3], [4]]) 1).2 = some (.ok (samplePage [1, 2, 3, 4])) := by rfl
  obtain ⟨response, hfetch, -, hbody⟩ := safeFetch_body _ _ _ _ _ _ hrun
  obtain rfl : sampleResponse [[1, 2, 3], [4]] = response := Except.ok.inj hfetch
  exact (hbody _ (by rfl) rfl).1 rfl

/-- Where a chunk crosses the cap, the page ends in zeros that were never received. -/
theorem body_not_beginning : ¬ ∀ (R : Runtime) (rawUrl : List Char) (options : SafeFetchOptions)
    (rounds : Nat → Round) (fuel : Nat) (page : Page),
    (safeFetch R rawUrl options rounds fuel).2 = some (.ok page) →
    ∃ response, (rounds ((safeFetch R rawUrl options rounds fuel).1.length - 1)).fetch = .ok response ∧
      finish options.maxBytes response = .ok page ∧
      ∀ body, isHtml response = true → response.body = some body →
        page.body = some (body.chunks.flatten.take (min body.chunks.flatten.length options.maxBytes)) := by
  intro h
  have hrun : (safeFetch sampleRuntime "http://example.org/".toList { maxBytes := 4 }
      (answering [[1, 2, 3], [4, 5, 6]]) 1).2 = some (.ok (samplePage [1, 2, 3, 0])) := by rfl
  obtain ⟨response, hfetch, -, hbody⟩ := h _ _ _ _ _ _ hrun
  obtain rfl : sampleResponse [[1, 2, 3], [4, 5, 6]] = response := Except.ok.inj hfetch
  exact absurd (hbody _ (by rfl) rfl) (by decide)

end Vesper.Server.Ssrf
