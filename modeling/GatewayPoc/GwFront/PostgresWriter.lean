import GatewayPoc.GwFront.UniversalHandler
import Mathlib.Tactic.SplitIfs

/-!
# Writing payloads to PostgreSQL

`gwfront/src/handler/postgres_writer.cpp`: `PostgresWriter` keeps one connection for each thread
and inserts a payload in a transaction of its own; after `pqxx::broken_connection` it tries again,
`RECONNECT_RETRIES` times.

* `PostgresWriter.attempt` : one round of the loop.  A `Try` says how the steps of a round end.
* `PostgresWriter.writeLoop` : the loop.  `writeLoop_stored` : what it does, by induction on the
  retries that are left.
* `PostgresWriter.write_error_iff` : which ends of the rounds give which result.
* `PostgresWriter.stored_exactly_once` : the handler over this writer stores an accepted payload
  exactly once.
-/

namespace GatewayPoc

namespace PostgresWriter

/-- How a step ends: it is done, or throws `pqxx::broken_connection` or another exception. -/
inductive StepEnd where
  | done
  | broken (what : Bytes)
  | failed (what : Bytes)
  deriving DecidableEq, Repr

/-- How `COMMIT` ends.  `libpqxx` throws `broken_connection` only if the transaction was not
committed; after another exception (`in_doubt_error`) it may have been. -/
inductive CommitEnd where
  | done
  | broken (what : Bytes)
  | failed (what : Bytes) (committed : Bool)
  deriving DecidableEq, Repr

/-- How the steps of a round end. -/
structure Try where
  connect : StepEnd
  /-- The transaction is started. -/
  work : StepEnd
  insert : StepEnd
  commit : CommitEnd
  deriving DecidableEq, Repr

/-- The threads that have a connection, the data of the rows, and the rounds made so far. -/
structure State where
  connections : List ℕ
  rows : List Bytes
  tried : List StepEnd
  deriving DecidableEq, Repr

/-- `RECONNECT_RETRIES`. -/
def reconnectRetries : ℕ := 2

/-- `PostgresWriter::findConnection` of the thread `threadId`. -/
def findConnection (threadId : ℕ) (connect : StepEnd) (s : State) : State × StepEnd :=
  if threadId ∈ s.connections then (s, .done)
  else
    -- a connection that throws in its constructor is not put into `connections_`
    match connect with
    | .done => ({ s with connections := s.connections ++ [threadId] }, .done)
    | e => (s, e)

/-- The transaction of a round, on a connection that was found. -/
def transaction (t : Try) (data : Bytes) (s : State) : State × StepEnd :=
  match t.work with
  | .done =>
    match t.insert with
    | .done =>
      match t.commit with
      | .done => ({ s with rows := s.rows ++ [data] }, .done)
      | .broken what => (s, .broken what)
      | .failed what committed =>
        (if committed then { s with rows := s.rows ++ [data] } else s, .failed what)
    | e => (s, e)
  | e => (s, e)

/-- One round of the loop. -/
def attempt (threadId : ℕ) (t : Try) (data : Bytes) (s : State) : State × StepEnd :=
  let r := match findConnection threadId t.connect s with
    | (s, .done) => transaction t data s
    | (s, e) => (s, e)
  ({ r.1 with tried := r.1.tried ++ [r.2] }, r.2)

/-- The loop of `write`; `tries` are the rounds still to come. -/
def writeLoop (threadId : ℕ) (data : Bytes) :
    (retriesLeft : ℕ) → (tries : ℕ → Try) → State → State × WriteResult
  | retriesLeft, tries, s =>
    match attempt threadId (tries 0) data s with
    | (s, .done) => (s, ⟨.ok, []⟩)
    | (s, .failed what) => (s, ⟨.generic, what⟩)
    | (s, .broken what) =>
      match retriesLeft with
      | 0 => (s, ⟨.storageUnavailable, what⟩)
      | retriesLeft + 1 => writeLoop threadId data retriesLeft (fun i => tries (i + 1)) s

/-- `PostgresWriter::write`, called by the thread `threadId`. -/
def write (threadId : ℕ) (tries : ℕ → Try) (data : Bytes) (s : State) : State × WriteResult :=
  writeLoop threadId data reconnectRetries tries s

/-! ### What a round does -/

/-- The round broke. -/
def StepEnd.isBroken : StepEnd → Bool
  | .broken _ => true
  | _ => false

/-- What a round adds to the table: a row if it is done, none if the connection broke, at most one
otherwise. -/
def Adds (data : Bytes) (e : StepEnd) (rows : List Bytes) : Prop :=
  match e with
  | .done => rows = [data]
  | .broken _ => rows = []
  | .failed _ => rows = [] ∨ rows = [data]

variable {data : Bytes} {s : State}

theorem findConnection_rows (threadId : ℕ) (connect : StepEnd) (s : State) :
    (findConnection threadId connect s).1.rows = s.rows ∧
      (findConnection threadId connect s).1.tried = s.tried := by
  unfold findConnection
  split_ifs
  · exact ⟨rfl, rfl⟩
  · cases connect <;> exact ⟨rfl, rfl⟩

theorem transaction_adds (t : Try) (data : Bytes) (s : State) :
    ∃ rows, (transaction t data s).1.rows = s.rows ++ rows ∧
    Adds data (transaction t data s).2 rows ∧ (transaction t data s).1.tried = s.tried := by
  unfold transaction
  cases t.work with
  | broken what => exact ⟨[], by simp, rfl, rfl⟩
  | failed what => exact ⟨[], by simp, Or.inl rfl, rfl⟩
  | done =>
    cases t.insert with
    | broken what => exact ⟨[], by simp, rfl, rfl⟩
    | failed what => exact ⟨[], by simp, Or.inl rfl, rfl⟩
    | done =>
      cases t.commit with
      | done => exact ⟨[data], rfl, rfl, rfl⟩
      | broken what => exact ⟨[], by simp, rfl, rfl⟩
      | failed what committed =>
        cases committed with
        | true => exact ⟨[data], rfl, Or.inr rfl, rfl⟩
        | false => exact ⟨[], by simp, Or.inl rfl, rfl⟩

/-- A round adds what its end says. -/
theorem attempt_adds (threadId : ℕ) (t : Try) (data : Bytes) (s : State) :
    ∃ rows, (attempt threadId t data s).1.rows = s.rows ++ rows ∧
    Adds data (attempt threadId t data s).2 rows ∧
    (attempt threadId t data s).1.tried = s.tried ++ [(attempt threadId t data s).2] := by
  obtain ⟨hrows, htried⟩ := findConnection_rows threadId t.connect s
  unfold attempt
  generalize findConnection threadId t.connect s = found at hrows htried
  obtain ⟨s', e⟩ := found
  dsimp only at hrows htried
  cases e with
  | done =>
    obtain ⟨rows, h, hadds, ht⟩ := transaction_adds t data s'
    exact ⟨rows, by simp only [h, hrows], hadds, by simp only [ht, htried]⟩
  | broken what => exact ⟨[], by simpa using hrows, rfl, by simp only [htried]⟩
  | failed what => exact ⟨[], by simpa using hrows, Or.inl rfl, by simp only [htried]⟩

/-! ### The loop -/

/-- What a call does, with `retries` retries. -/
structure Stored (data : Bytes) (retries : ℕ) (s s' : State) (error : WriteError) : Prop where
  rows : ∃ rows, s'.rows = s.rows ++ rows ∧ rows.length ≤ 1 ∧ (∀ row ∈ rows, row = data) ∧
    (error = .ok → rows = [data]) ∧ (error = .storageUnavailable → rows = [])
  tried : ∃ tried, s'.tried = s.tried ++ tried ∧ tried.length ≤ retries + 1 ∧
    (error = .storageUnavailable → tried.length = retries + 1 ∧ ∀ e ∈ tried, e.isBroken = true)

section

variable {retries : ℕ} {s₁ s₂ : State} {e : StepEnd} {what : Bytes} {error : WriteError}

theorem Stored.of_done (hrows : s₁.rows = s.rows ++ [data]) (htried : s₁.tried = s.tried ++ [e]) :
    Stored data retries s s₁ .ok :=
  ⟨⟨[data], hrows, by simp⟩, ⟨[e], htried, by simp⟩⟩

theorem Stored.of_failed {rows : List Bytes} (hrows : s₁.rows = s.rows ++ rows)
    (hadds : rows = [] ∨ rows = [data]) (htried : s₁.tried = s.tried ++ [e]) :
    Stored data retries s s₁ .generic := by
  refine ⟨⟨rows, hrows, ?_⟩, ⟨[e], htried, by simp⟩⟩
  rcases hadds with rfl | rfl <;> simp

/-- A round that broke, with no retry left. -/
theorem Stored.of_last_broken (hrows : s₁.rows = s.rows)
    (htried : s₁.tried = s.tried ++ [.broken what]) : Stored data 0 s s₁ .storageUnavailable :=
  ⟨⟨[], by simpa using hrows, by simp⟩, ⟨[.broken what], htried, by simp [StepEnd.isBroken]⟩⟩

/-- A round that broke, followed by the rest of the loop. -/
theorem Stored.of_broken (hrows : s₁.rows = s.rows) (htried : s₁.tried = s.tried ++ [.broken what])
    (h : Stored data retries s₁ s₂ error) : Stored data (retries + 1) s s₂ error := by
  obtain ⟨tried, ht, hlen, hbroken⟩ := h.tried
  refine ⟨hrows ▸ h.rows, .broken what :: tried, ?_, ?_, ?_⟩
  · rw [ht, htried, List.append_assoc, List.singleton_append]
  · simpa using hlen
  · intro herror
    obtain ⟨hlen', hall⟩ := hbroken herror
    refine ⟨by simpa using hlen', fun e he => ?_⟩
    rcases List.mem_cons.1 he with rfl | he
    · rfl
    · exact hall e he

end

/-- Every round but a broken one ends the loop; a broken one is repeated while retries are left. -/
theorem writeLoop_stored (threadId : ℕ) (data : Bytes) (retries : ℕ) (tries : ℕ → Try) (s : State) :
    Stored data retries s (writeLoop threadId data retries tries s).1
      (writeLoop threadId data retries tries s).2.error := by
  induction retries generalizing tries s with
  | zero =>
    obtain ⟨rows, hrows, hadds, htried⟩ := attempt_adds threadId (tries 0) data s
    unfold writeLoop
    generalize attempt threadId (tries 0) data s = r at hrows hadds htried
    obtain ⟨s', e⟩ := r
    cases e with
    | done =>
      obtain rfl : rows = [data] := hadds
      exact .of_done hrows htried
    | failed what => exact .of_failed hrows hadds htried
    | broken what =>
      obtain rfl : rows = [] := hadds
      exact .of_last_broken (by simpa using hrows) htried
  | succ retries ih =>
    obtain ⟨rows, hrows, hadds, htried⟩ := attempt_adds threadId (tries 0) data s
    unfold writeLoop
    generalize attempt threadId (tries 0) data s = r at hrows hadds htried
    obtain ⟨s', e⟩ := r
    cases e with
    | done =>
      obtain rfl : rows = [data] := hadds
      exact .of_done hrows htried
    | failed what => exact .of_failed hrows hadds htried
    | broken what =>
      -- a broken round added nothing, so the rest of the loop starts from the same rows
      obtain rfl : rows = [] := hadds
      exact .of_broken (by simpa using hrows) htried (ih (fun i => tries (i + 1)) s')

/-! ### Which rounds give which result -/

/-- A step, and then the rest of the round if the step is done. -/
def StepEnd.andThen : StepEnd → StepEnd → StepEnd
  | .done, e => e
  | e, _ => e

/-- The end of a transaction whose other steps are done. -/
def CommitEnd.toStep : CommitEnd → StepEnd
  | .done => .done
  | .broken what => .broken what
  | .failed what _ => .failed what

/-- How a round ends; only a thread without a connection makes one. -/
def Try.toStep (t : Try) (connected : Prop) [Decidable connected] : StepEnd :=
  (if connected then .done else t.connect).andThen
    (t.work.andThen (t.insert.andThen t.commit.toStep))

/-- The thread has a connection before round `i`, or an earlier round made one. -/
def Connected (threadId : ℕ) (tries : ℕ → Try) (s : State) (i : ℕ) : Prop :=
  threadId ∈ s.connections ∨ ∃ j < i, (tries j).connect = .done

instance (threadId : ℕ) (tries : ℕ → Try) (s : State) (i : ℕ) :
    Decidable (Connected threadId tries s i) :=
  inferInstanceAs (Decidable (_ ∨ ∃ j < i, _))

/-- How round `i` of a call ends. -/
def roundEnd (threadId : ℕ) (tries : ℕ → Try) (s : State) (i : ℕ) : StepEnd :=
  (tries i).toStep (Connected threadId tries s i)

/-- The result of a call whose last round ends like this. -/
def StepEnd.result : StepEnd → WriteResult
  | .done => ⟨.ok, []⟩
  | .broken what => ⟨.storageUnavailable, what⟩
  | .failed what => ⟨.generic, what⟩

theorem transaction_end (t : Try) (data : Bytes) (s : State) :
    (transaction t data s).1.connections = s.connections ∧
      (transaction t data s).2 = t.work.andThen (t.insert.andThen t.commit.toStep) := by
  unfold transaction
  cases t.work with
  | broken what => exact ⟨rfl, rfl⟩
  | failed what => exact ⟨rfl, rfl⟩
  | done =>
    cases t.insert with
    | broken what => exact ⟨rfl, rfl⟩
    | failed what => exact ⟨rfl, rfl⟩
    | done =>
      cases t.commit with
      | done => exact ⟨rfl, rfl⟩
      | broken what => exact ⟨rfl, rfl⟩
      | failed what committed => cases committed <;> exact ⟨rfl, rfl⟩

/-- How a round ends, and whether the thread has a connection then. -/
theorem attempt_end (threadId : ℕ) (t : Try) (data : Bytes) (s : State) :
    (attempt threadId t data s).2 = t.toStep (threadId ∈ s.connections) ∧
      (threadId ∈ (attempt threadId t data s).1.connections ↔
        threadId ∈ s.connections ∨ t.connect = .done) := by
  unfold attempt findConnection Try.toStep
  by_cases hmem : threadId ∈ s.connections
  · obtain ⟨hconnections, hend⟩ := transaction_end t data s
    simp [hmem, hconnections, hend, StepEnd.andThen]
  · cases hconnect : t.connect with
    | done =>
      obtain ⟨hconnections, hend⟩ :=
        transaction_end t data { s with connections := s.connections ++ [threadId] }
      simp [hmem, hconnections, hend, StepEnd.andThen]
    | broken what => simp [hmem, StepEnd.andThen]
    | failed what => simp [hmem, StepEnd.andThen]

/-- The second round of a call is the first round of the rest of the loop. -/
theorem roundEnd_succ (threadId : ℕ) (tries : ℕ → Try) (data : Bytes) (s : State) (i : ℕ) :
    roundEnd threadId (fun j => tries (j + 1)) (attempt threadId (tries 0) data s).1 i =
      roundEnd threadId tries s (i + 1) := by
  have hconnected : Connected threadId (fun j => tries (j + 1))
      (attempt threadId (tries 0) data s).1 i ↔ Connected threadId tries s (i + 1) := by
    rw [Connected, Connected, (attempt_end threadId (tries 0) data s).2, or_assoc,
      Nat.exists_lt_succ_left]
  simp only [roundEnd, hconnected]

theorem roundEnd_zero (threadId : ℕ) (tries : ℕ → Try) (data : Bytes) (s : State) :
    roundEnd threadId tries s 0 = (attempt threadId (tries 0) data s).2 := by
  simp [(attempt_end threadId (tries 0) data s).1, roundEnd, Connected]

/-- The loop ends with the first round that does not break, or with the last one, and returns what
this round ends with. -/
theorem writeLoop_result (threadId : ℕ) (data : Bytes) (retries : ℕ) (tries : ℕ → Try) (s : State) :
    ∃ i ≤ retries, (∀ j < i, (roundEnd threadId tries s j).isBroken = true) ∧
      ((roundEnd threadId tries s i).isBroken = true → i = retries) ∧
      (writeLoop threadId data retries tries s).2 = (roundEnd threadId tries s i).result := by
  induction retries generalizing tries s with
  | zero =>
    refine ⟨0, le_rfl, by simp, fun _ => rfl, ?_⟩
    rw [roundEnd_zero threadId tries data s]
    unfold writeLoop
    generalize attempt threadId (tries 0) data s = r
    obtain ⟨s', e⟩ := r
    cases e <;> rfl
  | succ retries ih =>
    have hfirst := roundEnd_zero threadId tries data s
    have hrest := roundEnd_succ threadId tries data s
    unfold writeLoop
    generalize attempt threadId (tries 0) data s = r at hfirst hrest
    obtain ⟨s', e⟩ := r
    cases e with
    | done | failed what =>
      exact ⟨0, Nat.zero_le _, by simp, by simp [hfirst, StepEnd.isBroken], by rw [hfirst]; rfl⟩
    | broken what =>
      -- the round is repeated, and the rest of the loop decides
      obtain ⟨i, hi, hbefore, hlast, hresult⟩ := ih (fun j => tries (j + 1)) s'
      simp only [hrest] at hbefore hlast hresult
      refine ⟨i + 1, by omega, fun j hj => ?_, fun hbroken => by rw [hlast hbroken], hresult⟩
      cases j with
      | zero => rw [hfirst]; rfl
      | succ j => exact hbefore j (by omega)

/-- **Which rounds give which result.**  A call returns `OK` exactly if a round is done after none
or up to two that broke, `GENERIC` exactly if a round fails in another way after such rounds, and
`STORAGE_UNAVAILABLE` exactly if all three rounds break. -/
theorem write_error_iff (threadId : ℕ) (tries : ℕ → Try) (data : Bytes) (s : State) :
    let error := (write threadId tries data s).2.error
    let ends := roundEnd threadId tries s
    (error = .ok ↔ ∃ i ≤ 2, (∀ j < i, (ends j).isBroken = true) ∧ ends i = .done) ∧
    (error = .generic ↔
      ∃ i ≤ 2, (∀ j < i, (ends j).isBroken = true) ∧ ∃ what, ends i = .failed what) ∧
    (error = .storageUnavailable ↔ ∀ i ≤ 2, (ends i).isBroken = true) := by
  intro error ends
  obtain ⟨i, hi, hbefore, hlast, hresult⟩ :
    ∃ i ≤ 2, (∀ j < i, (ends j).isBroken = true) ∧ ((ends i).isBroken = true → i = 2) ∧
      (write threadId tries data s).2 = (ends i).result :=
    writeLoop_result threadId data reconnectRetries tries s
  have herror : error = (ends i).result.error := congrArg WriteResult.error hresult
  -- no other round can be the first that does not break
  have hdecides : ∀ P : StepEnd → Prop, (∀ e, P e → e.isBroken = false) →
      ((∃ k ≤ 2, (∀ j < k, (ends j).isBroken = true) ∧ P (ends k)) ↔ P (ends i)) := by
    refine fun P hP => ⟨?_, fun h => ⟨i, hi, hbefore, h⟩⟩
    rintro ⟨k, hk, hbroken, hend⟩
    rcases Nat.lt_trichotomy k i with hlt | rfl | hlt
    · exact absurd (hbefore k hlt) (by simp [hP _ hend])
    · exact hend
    · have := hlast (hbroken i hlt)
      omega
  have hall : (∀ k ≤ 2, (ends k).isBroken = true) ↔ (ends i).isBroken = true := by
    refine ⟨fun h => h i hi, fun h k hk => ?_⟩
    obtain hlt | rfl := Nat.lt_or_eq_of_le (hlast h ▸ hk)
    · exact hbefore k hlt
    · exact h
  rw [herror, hdecides (· = .done) (by simp [StepEnd.isBroken]),
    hdecides (fun e => ∃ what, e = .failed what) (by simp [StepEnd.isBroken]), hall]
  cases ends i <;> simp [StepEnd.result, StepEnd.isBroken]

/-- **Stored exactly once.**  Whatever the checker and the ends of the steps, a request makes at
most three rounds and adds at most one row, which is its payload: one row if the result is `OK`,
none and no round if it is `BAD_DATA`, none and three broken rounds if it is
`STORAGE_UNAVAILABLE`. -/
theorem stored_exactly_once (check : Bytes → CheckResult) (threadId : ℕ) (tries : ℕ → Try)
    (data : Bytes) (s : State) :
    let r := UniversalHandler.call check (write threadId tries) data s
    ∃ rows tried, r.1.rows = s.rows ++ rows ∧ r.1.tried = s.tried ++ tried ∧
      (rows = [] ∨ rows = [data]) ∧ tried.length ≤ 3 ∧
      (r.2.error = .ok → rows = [data]) ∧
      (r.2.error = .badData → rows = [] ∧ tried = []) ∧
      (r.2.error = .storageUnavailable →
        rows = [] ∧ tried.length = 3 ∧ ∀ e ∈ tried, e.isBroken = true) := by
  intro r
  cases hcheck : (check data).ok with
  | false =>
    have hr : r = (s, ⟨.badData, (check data).message⟩) := UniversalHandler.call_of_rejected hcheck
    exact ⟨[], [], by simp [hr]⟩
  | true =>
    have hr : r = ((write threadId tries data s).1,
        UniversalHandler.resultOf (write threadId tries data s).2) :=
      UniversalHandler.call_of_accepted hcheck
    obtain ⟨⟨rows, hrows, hle, hdata, hok, hnone⟩, ⟨tried, htried, hlen, hbroken⟩⟩ :=
      writeLoop_stored threadId data reconnectRetries tries s
    have hrow : rows = [] ∨ rows = [data] := by
      cases rows with
      | nil => exact Or.inl rfl
      | cons row rows =>
        obtain rfl : rows = [] := by simpa using hle
        exact Or.inr (by rw [hdata row List.mem_cons_self])
    have herror : r.2.error = .ofWrite (write threadId tries data s).2.error := by
      rw [hr]
      exact UniversalHandler.resultOf_error _
    change (write threadId tries data s).2.error = .ok → _ at hok
    change (write threadId tries data s).2.error = .storageUnavailable → _ at hnone hbroken
    refine ⟨rows, tried, by rw [hr]; exact hrows, by rw [hr]; exact htried, hrow, hlen, ?_⟩
    rw [herror]
    cases hwrite : (write threadId tries data s).2.error with
    | ok => simp [UniversalHandler.Error.ofWrite, hok hwrite]
    | generic => simp [UniversalHandler.Error.ofWrite]
    | storageUnavailable =>
      have hend : rows = [] ∧ tried.length = 3 ∧ ∀ e ∈ tried, e.isBroken = true :=
        ⟨hnone hwrite, hbroken hwrite⟩
      simpa [UniversalHandler.Error.ofWrite] using hend

end PostgresWriter

end GatewayPoc
