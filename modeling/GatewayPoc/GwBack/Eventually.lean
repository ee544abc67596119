import GatewayPoc.Core.Runs
import GatewayPoc.GwBack.Order
import GatewayPoc.GwBack.Progress

/-!
# Every row is moved in the end

The loop takes the rows with the smallest ids first, rows are committed all the time, calls throw,
and the process is stopped and started again.  As long as rounds of the loop are completed again and
again, no row is left behind: each round deletes a row with a smaller id, and of these there are
finitely many.

* `GwBack.Completes` : the event that completes a round.
* `GwBack.Due` : the batch of the loop contains the row, or rows with smaller ids only.
* `GwBack.eventually_handed` : in every infinite run in which rounds are completed again and again,
  every row is deleted in the end, and then it was handed over.
* `GwBack.completes_of_calls` : rounds are completed again and again if the thread of the loop makes
  calls again and again, and only finitely many acknowledgements throw.
* **`GwBack.rows_moved`** : then every row is moved.
-/

namespace GatewayPoc

namespace GwBack

variable {s s' : GwBack} {e : Event} {m : Message}

/-- A round of the loop is completed: its batch is acknowledged, or the table was empty. -/
def Completes (s : GwBack) : Event → Prop
  | .markConsumed => True
  | .getNext => PostgresProducer.getNext s.producer s.table = []
  | _ => False

/-- The batch of the loop contains `m`, or rows with smaller ids only. -/
structure Due (m : Message) (s : GwBack) : Prop where
  known : m ∈ s.table.log
  fetched : m ∈ s.table.rows → ∀ b, s.pc = .fetched b →
    b ≠ [] ∧ PassesOver m b.length (b.map Message.id)
  consumed : ∀ b, s.pc = .consumed b → ∃ batch : Messages, batch.Subperm s.table.rows ∧
    b.map Message.id = batch.map Message.id ∧
    (m ∈ s.table.rows → batch ≠ [] ∧ PassesOver m batch.length (batch.map Message.id))

/-- What a batch of the rows with the smallest ids says about a row. -/
theorem passesOver_getNext {messages : Messages}
    (hm : messages = PostgresProducer.getNext s.producer s.table) (hrow : m ∈ s.table.rows) :
    PassesOver m messages.length (messages.map Message.id) := by
  have hselect : PassesOver m s.producer.chunkSize.toNat (messages.map Message.id) :=
    hm ▸ passesOver_select hrow
  exact hselect.imp_right fun h => ⟨List.length_map _, h.2⟩

/-- A step that leaves the row in the table keeps it due, and gives back no row it deleted; an
acknowledgement deletes one more of those with smaller ids. -/
theorem Due.step (h : Due m s) (hinv : s.Inv) (hs : Step s e s') (hrow : m ∈ s'.table.rows) :
    Due m s' ∧ (passed m s).length ≤ (passed m s').length ∧
      (e = .markConsumed → (passed m s).length < (passed m s').length) := by
  cases hs with
  | @commit message table hc =>
    obtain ⟨hid, hlog, hrows⟩ := Table.commit_eq_some hc
    have hold : m ∈ s.table.rows := by
      change m ∈ table.rows at hrow
      rw [hrows] at hrow
      refine (List.mem_append.1 hrow).resolve_right fun hnew => hid ?_
      exact List.mem_singleton.1 hnew ▸ List.mem_map_of_mem h.known
    refine ⟨⟨hlog ▸ List.mem_append_left _ h.known, fun _ => h.fetched hold, fun b hb => ?_⟩,
      by rw [passed_commit hc], nofun⟩
    obtain ⟨batch, hsub, hids, hpass⟩ := h.consumed b hb
    have hsub' : batch.Subperm table.rows :=
      hsub.trans (hrows ▸ (List.sublist_append_left _ _).subperm)
    exact ⟨batch, hsub', hids, fun _ => hpass hold⟩
  | idle | getNextThrows => exact ⟨h, le_rfl, nofun⟩
  | @getNext messages hpc hm hne =>
    refine ⟨⟨h.known, fun _ b hb => ?_, nofun⟩, le_rfl, nofun⟩
    obtain rfl := Pc.fetched.inj hb
    exact ⟨hne, passesOver_getNext hm hrow⟩
  | @consume messages hpc =>
    refine ⟨⟨h.known, nofun, fun b hb => ?_⟩, le_rfl, nofun⟩
    obtain rfl := Pc.consumed.inj hb
    exact ⟨messages, hinv.fetched _ hpc, MessageConsumer.call_messages_ids _ _,
      fun hrow => h.fetched hrow _ hpc⟩
  | @markConsumed messages hpc =>
    obtain ⟨batch, hsub, hids, hpass⟩ := h.consumed messages hpc
    obtain ⟨hne, hpass⟩ := hpass (List.mem_filter.1 hrow).1
    have hmore : _ + batch.length ≤ (passed m { s with
        pc := .loop, table := PostgresProducer.markConsumed s.table messages }).length :=
      passed_markConsumed hsub hids hpass hrow
    have hpos := List.length_pos_iff.2 hne
    exact ⟨⟨h.known, nofun, nofun⟩, by omega, fun _ => by omega⟩
  | markConsumedThrows hpc | join hpc | destroy hpc | exit hpc | restart hpc =>
    exact ⟨⟨h.known, nofun, nofun⟩, le_rfl, nofun⟩
  | save | signal => exact ⟨⟨h.known, h.fetched, h.consumed⟩, le_rfl, nofun⟩

/-- When a round is completed, the loop is at its head. -/
theorem pc_of_completes (hc : s.Completes e) (h : machine.next s e = some s') : s'.pc = .loop := by
  cases step_of_next h with
  | markConsumed => rfl
  | idle hpc => exact hpc
  | getNext hpc hm hne => exact absurd (hm.trans hc) hne
  | commit | getNextThrows | consume | markConsumedThrows | save | signal | join | destroy | exit
  | restart => exact absurd hc id

/-- A batch of at least one row contains a row, if there is one. -/
theorem getNext_ne_nil (hchunk : 0 < s.producer.chunkSize.toNat) (hrow : m ∈ s.table.rows) :
    PostgresProducer.getNext s.producer s.table ≠ [] := by
  intro hnil
  have hsorted := (List.take_eq_nil_iff.1 hnil).resolve_left (by omega)
  have hmem : m ∈ sortedRows s.table := (sortedRows_perm s.table).mem_iff.2 hrow
  rw [sortedRows, hsorted] at hmem
  cases hmem

variable {r : machine.Run} {n : ℕ}

/-- While rounds are completed again and again, whatever is committed in between, however many calls
throw, and however often the process is started again, every row is deleted in the end, and was then
handed over. -/
theorem eventually_handed (hrec : r.Recurs Completes)
    (hchunk : ∀ k ≥ n, 0 < (r.state k).producer.chunkSize.toNat)
    (hm : m ∈ (r.state n).table.log) :
    ∃ k ≥ n, m ∈ (r.state k).table.deleted ∧ m ∈ (r.state k).handed := by
  -- after the round under way, the batches are fetched while the row is in the table
  obtain ⟨k₀, hk₀, e, he, hc⟩ := hrec n
  have hlog : ∀ k ≥ n, m ∈ (r.state k).table.log :=
    r.keeps (P := fun s => m ∈ s.table.log)
      (fun k _ _ he h => (log_le (step_of_next (r.next he))).subset h) hm
  have hpc := pc_of_completes hc (r.next he)
  have hstart : Due m (r.state (k₀ + 1)) :=
    ⟨hlog _ (by omega), fun _ b hb => by simp [hpc] at hb, fun b hb => by simp [hpc] at hb⟩
  have hreach : ∃ k ≥ k₀ + 1, m ∉ (r.state k).table.rows := by
    refine Machine.Run.eventually_of_rank (Due m) (fun s => m ∉ s.table.rows)
      (fun s => m.id.toNat - (passed m s).length) (fun k _ => hrec k)
      (fun k hk e he hdue hin hin' => ?_) hstart
    obtain ⟨hdue', hle, hlt⟩ := hdue.step (inv_of_reachable (r.reachable k))
      (step_of_next (r.next he)) (not_not.1 hin')
    have hbound := passed_length_le m (r.state (k + 1))
    refine ⟨hdue', by omega, fun hc => ?_⟩
    cases e with
    | markConsumed =>
      have := hlt rfl
      omega
    | getNext => exact absurd hc (getNext_ne_nil (hchunk k (by omega)) (not_not.1 hin))
    | _ => exact absurd hc id
  obtain ⟨k, hk, hgone⟩ := hreach
  have hdel := Table.mem_deleted.2 ⟨hlog k (by omega), hgone⟩
  refine ⟨k, by omega, hdel, ?_⟩
  exact (handed_of_reachable (r.reachable k)).settled m (hlog k (by omega)) (Or.inl hgone)

/-- All rows committed so far are handed over together at some time. -/
theorem log_eventually_handed (hrec : r.Recurs Completes)
    (hchunk : ∀ k ≥ n, 0 < (r.state k).producer.chunkSize.toNat) :
    ∃ k ≥ n, (r.state n).table.log.Subperm (r.state k).handed := by
  refine Machine.Run.eventually_subperm handed (fun k e he => ?_) (Table.log_nodup' _)
    fun m hm => ?_
  · have hinv := inv_of_reachable (r.reachable k)
    exact ((step_of_next (r.next he)).moves hinv).handed_le.subset
  · obtain ⟨k, hk, -, hhanded⟩ := eventually_handed hrec hchunk hm
    exact ⟨k, hk, hhanded⟩

/-! ### Rounds are completed -/

/-- A call of the loop returns. -/
def Calls (_ : GwBack) : Event → Prop
  | .getNext | .consume | .markConsumed => True
  | _ => False

/-- How many calls the round still has. -/
def callsLeft (s : GwBack) : ℕ :=
  match s.pc with
  | .fetched _ => 2
  | .consumed _ => 1
  | _ => 3

/-- Every call brings the round nearer to its end, if it is not an acknowledgement that throws. -/
theorem callsLeft_next (h : machine.next s e = some s') (hthrows : e ≠ .markConsumedThrows)
    (hc : ¬ s.Completes e) :
    callsLeft s' ≤ callsLeft s ∧ (s.Calls e → callsLeft s' < callsLeft s) := by
  cases step_of_next h with
  | idle hpc =>
    -- a `getNext` that changes nothing has found nothing
    refine absurd (?_ : PostgresProducer.getNext s.producer s.table = []) hc
    change s.next .getNext = some s at h
    simp only [next] at h
    split_ifs at h with hready hempty
    · exact List.isEmpty_iff.1 hempty
    · have hfetched := congrArg GwBack.pc (Option.some.inj h)
      simp [hpc] at hfetched
  | getNext hpc hm hne => simp [callsLeft, hpc]
  | consume hpc => simp [callsLeft, hpc]
  | markConsumed hpc => exact absurd trivial hc
  | markConsumedThrows => exact absurd rfl hthrows
  | commit | getNextThrows | save | signal => exact ⟨le_rfl, fun h => absurd h id⟩
  | join hpc | destroy hpc | exit hpc | restart hpc =>
    exact ⟨by simp [callsLeft, hpc], fun h => absurd h id⟩

/-- **Rounds are completed.**  If the thread of the loop makes calls again and again that return,
and only finitely many acknowledgements throw, rounds are completed again and again. -/
theorem completes_of_calls (hrec : r.Recurs Calls)
    (hthrows : ∀ k ≥ n, r.label k ≠ some .markConsumedThrows) : r.Recurs Completes :=
  Machine.Run.recurs_of_rank callsLeft hrec fun k hk _ he hc =>
    callsLeft_next (r.next he) (fun heq => hthrows k hk (heq ▸ he)) hc

/-- **Every row is moved in the end.**  In every infinite run in which the thread of the loop makes
calls again and again that return, only finitely many acknowledgements throw, and the chunk size is
not zero, whatever is committed in between, however many calls of `getNext` throw, and however often
the process is stopped and started again: every row that was ever committed is deleted at some later
time, and was then handed over. -/
theorem rows_moved {first : ℕ} (hrec : r.Recurs Calls)
    (hthrows : ∀ k ≥ first, r.label k ≠ some .markConsumedThrows)
    (hchunk : ∀ k ≥ n, 0 < (r.state k).producer.chunkSize.toNat)
    (hm : m ∈ (r.state n).table.log) :
    ∃ k ≥ n, m ∈ (r.state k).table.deleted ∧ m ∈ (r.state k).handed :=
  eventually_handed (completes_of_calls hrec hthrows) hchunk hm

/-- A late row is overtaken once, and two calls throw.  Then the table is empty. -/
def overtakenRun : List Event :=
  [.commit ⟨2, [97]⟩, .getNextThrows, .commit ⟨1, [98]⟩, .getNext, .consume, .markConsumedThrows,
    .getNext, .consume, .markConsumed, .getNext, .consume, .markConsumed]

/-- The table is empty, and the loop is at its head. -/
def Idle (s : GwBack) : Prop :=
  s.AtHead ∧ s.table.rows = [] ∧ 0 < s.producer.chunkSize.toNat

/-- An empty table is asked again and again. -/
theorem next_idle (h : s.Idle) : machine.next s .getNext = some s := by
  obtain ⟨⟨hpc, hrun⟩, hrows, -⟩ := h
  change s.next .getNext = some s
  simp [next, hpc, hrun, PostgresProducer.getNext, Table.select, hrows]

theorem rows_moved_sample : ∃ r : machine.Run,
    (⟨2, [97]⟩ : Message) ∈ (r.state 1).table.rows ∧ ∃ k ≥ 1,
      ⟨2, [97]⟩ ∈ (r.state k).table.deleted ∧ ⟨2, [97]⟩ ∈ (r.state k).handed := by
  let s₀ : GwBack := start { chunkSize := 1 } { outputFolder := [] }
  have hrun : (machine.runIf Machine.anyStep s₀ overtakenRun).any (fun s =>
      decide (s.pc = .loop ∧ s.run = true ∧ s.table.rows = [] ∧
        0 < s.producer.chunkSize.toNat)) = true := by decide +kernel
  obtain ⟨s, hs, hP⟩ := (Option.any_eq_true _ _).1 hrun
  obtain ⟨hpc, hgo, hrows, hchunk⟩ := of_decide_eq_true hP
  obtain ⟨r, hstates, -, htail⟩ := Machine.exists_run (M := machine) (J := Idle) ⟨_, _, rfl⟩ hs
    ⟨⟨hpc, hgo⟩, hrows, hchunk⟩ fun s h => ⟨s, next_idle h, h⟩
  have hfirst : ⟨2, [97]⟩ ∈ (r.state 1).table.rows :=
    Machine.of_runIf (P := fun s => ⟨2, [97]⟩ ∈ s.table.rows) (hstates 1 (by decide))
      (by decide +kernel)
  have hpos : ∀ k ≥ 1, 0 < (r.state k).producer.chunkSize.toNat := by
    intro k _
    rcases Nat.lt_or_ge k overtakenRun.length with hk | hk
    · have hall : ∀ k < overtakenRun.length,
          (machine.runIf Machine.anyStep s₀ (overtakenRun.take k)).any (fun s =>
            decide (0 < s.producer.chunkSize.toNat)) = true := by decide +kernel
      exact Machine.of_runIf (P := fun s => 0 < s.producer.chunkSize.toNat) (hstates k hk.le)
        (hall k hk)
    · exact (htail k hk).1.2.2
  have hrec : r.Recurs Calls := fun n =>
    ⟨_, le_max_left _ _, .getNext, (htail (max n overtakenRun.length) (le_max_right _ _)).2,
      trivial⟩
  have hthrows : ∀ k ≥ overtakenRun.length, r.label k ≠ some .markConsumedThrows := fun k hk => by
    simp [(htail k hk).2]
  exact ⟨r, hfirst, rows_moved hrec hthrows hpos (Table.rows_subset _ hfirst)⟩

end GwBack

end GatewayPoc
