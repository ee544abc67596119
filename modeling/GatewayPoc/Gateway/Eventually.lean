import GatewayPoc.Gateway.PostgresGateway
import GatewayPoc.Gateway.RedisGateway
import GatewayPoc.GwBack.Eventually
import GatewayPoc.GwBack.RedisEventually
import GatewayPoc.GwFront.Eventually

/-!
# Delivery in the end

A request that the front end has taken is answered in the end, and if it is answered with 202 its
payload is handed over in the end.  The first needs the thread of the request to go on, the second
the loop of the back end to complete rounds; neither needs anything of the other sessions, and both
hold whatever fails in between.

* `PostgresGateway.exists_back`, `RedisGateway.exists_back` : in a run of the gateway the back end
  has a run.
* `PostgresGateway.bounded`, `RedisGateway.bounded` : the writers try a bounded number of times.
* **`PostgresGateway.rows_delivered`**, **`RedisGateway.entries_delivered`** : the answer, and the
  delivery.
-/

namespace GatewayPoc

namespace PostgresGateway

open Frontend (sampleCheck sampleRequest)

variable {W : Type} {check : Bytes → CheckResult} {readInto : Request → W → Request}

/-- A round of the loop of the back end is completed. -/
def Completes (s : State W) : Event W → Prop
  | .other e => s.store.back.Completes e
  | _ => False

/-- In a run of the gateway the back end has a run. -/
theorem exists_back (r : (machine check readInto).Run) :
    ∃ r' : GwBack.machine.Run, (∀ n, r'.state n = (r.state n).store.back) ∧
      (r.Recurs Completes → r'.Recurs GwBack.Completes) := by
  obtain ⟨r', hstate, hlabel⟩ := r.exists_map (N := GwBack.machine)
    (R := fun _ l l' => ∀ e, l = .other e → l' = some e) (f := fun s => s.store.back)
    (fun s hs => by
      obtain ⟨⟨-, producer, consumer, hback⟩, -⟩ := hs
      exact ⟨producer, consumer, hback⟩)
    fun s l s' hn => by
      cases Frontend.step_of_next hn with
      | accept | request | reject | respond | session => exact ⟨none, rfl, by simp⟩
      | step hi hphase hstep =>
        rcases back_step hstep with heq | ⟨message, hnext⟩
        · exact ⟨none, congrArg some heq.symm, by simp⟩
        · exact ⟨some (.commit message), hnext, by simp⟩
      | @other e _ ho =>
        refine ⟨some e, (others_eq_some ho).2.1, fun e' he => ?_⟩
        rw [Frontend.Event.other.inj he]
  refine ⟨r', hstate, fun hrec n => ?_⟩
  obtain ⟨k, hk, l, hl, hc⟩ := hrec n
  cases l with
  | other e => exact ⟨k, hk, e, hlabel k _ hl e rfl, by rw [hstate]; exact hc⟩
  | _ => exact absurd hc id

/-- A write makes at most one more round for each retry. -/
theorem bounded : Frontend.Bounded (frontend check readInto) Writing.retriesLeft := by
  intro call x store store' call' hstep
  obtain ⟨e, -, -, hphase⟩ := step_eq_some hstep
  unfold after at hphase
  split at hphase
  · cases hphase
  · cases hphase
  · split at hphase
    · cases hphase
    · rename_i retriesLeft hleft
      rw [Sum.inl.inj hphase, hleft]
      exact Nat.lt_succ_self retriesLeft

variable {r : (machine check readInto).Run} {n j : ℕ}

/-- What was answered with 202 is handed over in the end. -/
theorem accepted_eventually_handed (hrounds : r.Recurs Completes)
    (hchunk : ∀ k, 0 < (r.state k).store.back.producer.chunkSize.toNat) (n : ℕ) :
    ∃ k ≥ n, (Frontend.accepted (r.state n).answered).Subperm
      ((r.state k).store.back.handed.map Message.data) := by
  obtain ⟨r', hstate, hrec⟩ := exists_back r
  obtain ⟨k, hk, hhanded⟩ := GwBack.log_eventually_handed (n := n) (hrec hrounds)
    fun k _ => by rw [hstate]; exact hchunk k
  rw [hstate, hstate] at hhanded
  refine ⟨k, hk, ?_⟩
  have haccepted :=
    (inv_of_reachable (r.reachable n)).accepted_le_stored fun result m hok hfits => by
      simp only [Fits, hok] at hfits
      omega
  exact haccepted.trans (subperm_map Message.data hhanded)

/-- **Delivery**, over PostgreSQL.  In every infinite run of the gateway in which the thread of
session `j` goes on while it handles a request, the back end completes rounds of its loop again and
again, and its chunk size is not zero, whatever fails in between on both sides: the request that the
thread handles is the next one its session answers, with 202, 500 or 503, and everything that was
answered with 202 by then is handed to the consumer at some later time. -/
theorem rows_delivered (hrounds : r.Recurs Completes)
    (hchunk : ∀ k, 0 < (r.state k).store.back.producer.chunkSize.toNat)
    (hserved : ∀ k, (∃ c ∈ (r.state k).calls, c.session = j) →
      ∃ k' ≥ k, ∃ e, r.label k' = some e ∧ Frontend.Serves j (r.state k') e)
    {c : Call Writing W} (hc : c ∈ (r.state n).calls) (hj : c.session = j) :
    ∃ k ≥ n, ∃ a, Frontend.answeredBy (r.state k) j = Frontend.answeredBy (r.state n) j ++ [a] ∧
      a.request = c.request ∧ (∃ error, a.status = Frontend.statusOf error) ∧
      ∃ k' ≥ k, (Frontend.accepted (r.state k).answered).Subperm
        ((r.state k').store.back.handed.map Message.data) := by
  obtain ⟨k, hk, a, hanswered, hrequest, hstatus⟩ := Frontend.eventually_answered accounts
    (fun _ => log_of_fresh) bounded hserved hc hj
  exact ⟨k, hk, a, hanswered, hrequest, hstatus, accepted_eventually_handed hrounds hchunk k⟩

/-- A connection breaks, a `getNext` throws, and the back end reads before the answer. -/
def deliveredRun : List (Event Request) :=
  [.accept, .request 0 1 (sampleRequest [97]), .step 0 ({ fine with work := .broken [] }, 0),
    .other .getNextThrows, .step 0 (fine, 7), .other .getNext, .respond 0, .other .consume,
    .other .markConsumed]

/-- No call is under way, and the back end finds nothing. -/
def Idle (s : State Request) : Prop := s.calls = [] ∧ s.store.back.Idle

theorem next_idle {s : State Request} (h : Idle s) :
    (machine sampleCheck fun _ (w : Request) => w).next s (.other .getNext) = some s := by
  have hback : s.store.back.next .getNext = some s.store.back := GwBack.next_idle h.2
  change (others s.store .getNext).map _ = some s
  simp only [others, hback, Option.map_some]

theorem rows_delivered_sample :
    ∃ (r : (machine sampleCheck fun _ (w : Request) => w).Run) (c : Call Writing Request),
      c ∈ (r.state 2).calls ∧ c.session = 0 ∧ ∃ k ≥ 2, ∃ a,
        Frontend.answeredBy (r.state k) 0 = Frontend.answeredBy (r.state 2) 0 ++ [a] ∧
        a.request = c.request ∧ (∃ error, a.status = Frontend.statusOf error) ∧
        ∃ k' ≥ k, (Frontend.accepted (r.state k).answered).Subperm
          ((r.state k').store.back.handed.map Message.data) := by
  let M := machine sampleCheck fun _ (w : Request) => w
  have hrun : (M.runIf Machine.anyStep sampleStart deliveredRun).any (fun s =>
      decide (s.calls = [] ∧ s.store.back.pc = .loop ∧ s.store.back.run = true ∧
        s.store.back.table.rows = [] ∧ 0 < s.store.back.producer.chunkSize.toNat)) = true := by
    decide +kernel
  obtain ⟨s, hs, hP⟩ := (Option.any_eq_true _ _).1 hrun
  obtain ⟨hcalls, hpc, hgo, hrows, hchunk⟩ := of_decide_eq_true hP
  obtain ⟨r, hstates, hlabel, htail⟩ := Machine.exists_run (M := M) (J := Idle) init_sampleStart hs
    ⟨hcalls, ⟨hpc, hgo⟩, hrows, hchunk⟩ fun s h => ⟨s, next_idle h, h⟩
  have hfirst : ∃ c ∈ (r.state 2).calls, c.session = 0 :=
    Machine.of_runIf (P := fun s => ∃ c ∈ s.calls, c.session = 0) (hstates 2 (by decide))
      (by decide +kernel)
  have hgood : ∀ k, 0 < (r.state k).store.back.producer.chunkSize.toNat ∧
      (6 < k → (r.state k).calls = []) := by
    intro k
    rcases Nat.lt_or_ge k deliveredRun.length with hk | hk
    · have hall : ∀ k < deliveredRun.length,
          (M.runIf Machine.anyStep sampleStart (deliveredRun.take k)).any (fun s =>
            decide (0 < s.store.back.producer.chunkSize.toNat ∧ (6 < k → s.calls = []))) =
          true := by decide +kernel
      exact Machine.of_runIf (P := fun s => 0 < s.store.back.producer.chunkSize.toNat ∧
        (6 < k → s.calls = [])) (hstates k hk.le) (hall k hk)
    · exact ⟨(htail k hk).1.2.2.2, fun _ => (htail k hk).1.1⟩
  have hrounds : r.Recurs Completes := fun n => by
    obtain ⟨⟨-, -, hrows, -⟩, hl⟩ := htail (max n deliveredRun.length) (le_max_right _ _)
    refine ⟨_, le_max_left _ _, _, hl, ?_⟩
    simp [Completes, GwBack.Completes, PostgresProducer.getNext, Table.select, hrows]
  -- the call is answered by the seventh event
  have hserves : Frontend.Serves 0 (r.state 6) (.respond 0 : Event Request) := by
    have hcall : ((r.state 6).calls[0]?.any fun c => c.session = 0) = true :=
      Machine.of_runIf (P := fun s : State Request =>
        (s.calls[0]?.any fun c => c.session = 0) = true) (hstates 6 (by decide)) (by decide +kernel)
    obtain ⟨c, hc, hj⟩ := (Option.any_eq_true _ _).1 hcall
    exact ⟨c, hc, of_decide_eq_true hj⟩
  obtain ⟨c, hc, hj⟩ := hfirst
  refine ⟨r, c, hc, hj,
    rows_delivered hrounds (fun k => (hgood k).1) (fun k hcall => ?_) hc hj⟩
  have hle : k ≤ 6 := by
    by_contra hlt
    obtain ⟨c, hc, -⟩ := hcall
    rw [(hgood k).2 (by omega)] at hc
    cases hc
  exact ⟨6, hle, .respond 0, hlabel 6 (by decide), hserves⟩

end PostgresGateway

namespace RedisGateway

open Frontend (sampleCheck sampleRequest)
open RedisProducer (messageOf)

variable {W : Type} {check : Bytes → CheckResult} {readInto : Request → W → Request}

/-- A round of the loop of the back end is completed. -/
def Completes (t : State W) : Event W → Prop
  | .other e => t.store.back.Completes e
  | _ => False

/-- In a run of the gateway the back end has a run. -/
theorem exists_back (r : (machine check readInto).Run) :
    ∃ r' : RedisBack.machine.Run, (∀ n, r'.state n = (r.state n).store.back) ∧
      (r.Recurs Completes → r'.Recurs RedisBack.Completes) := by
  obtain ⟨r', hstate, hlabel⟩ := r.exists_map (N := RedisBack.machine)
    (R := fun _ l l' => ∀ e, l = .other e → l' = some e) (f := fun t => t.store.back)
    (fun t ht => by
      obtain ⟨⟨-, config, producer, consumer, hback⟩, -⟩ := ht
      exact ⟨config, producer, consumer, hback⟩)
    fun t l t' hn => by
      cases Frontend.step_of_next hn with
      | accept | request | reject | respond | session => exact ⟨none, rfl, by simp⟩
      | step hi hphase hstep =>
        rcases back_step hstep with heq | ⟨now, data, hnext⟩
        · exact ⟨none, congrArg some heq.symm, by simp⟩
        · exact ⟨some (.xadd now data), hnext, by simp⟩
      | @other e _ ho =>
        refine ⟨some e, (others_eq_some ho).2, fun e' he => ?_⟩
        rw [Frontend.Event.other.inj he]
  refine ⟨r', hstate, fun hrec n => ?_⟩
  obtain ⟨k, hk, l, hl, hc⟩ := hrec n
  cases l with
  | other e => exact ⟨k, hk, e, hlabel k _ hl e rfl, by rw [hstate]; exact hc⟩
  | _ => exact absurd hc id

/-- The attempts a call still has after this one. -/
def attemptsLeft (call : Writing) : ℕ := if call.again = true then 0 else 1

/-- A write makes at most two attempts. -/
theorem bounded : Frontend.Bounded (frontend check readInto) attemptsLeft := by
  intro call o store store' call' hstep
  have hphase := (Prod.mk.inj (Option.some.inj hstep)).2
  cases hresult : (attempt call o store).result with
  | none =>
    rw [hresult] at hphase
    have hfirst : ¬ call.again = true := fun h => result_of_again h hresult
    rw [← Sum.inl.inj hphase, attemptsLeft, attemptsLeft, if_pos rfl, if_neg hfirst]
    exact Nat.one_pos
  | some result =>
    rw [hresult] at hphase
    cases hphase

variable {r : (machine check readInto).Run} {n j : ℕ}

/-- What was answered with 202 is handed over in the end. -/
theorem accepted_eventually_handed (hrounds : r.Recurs Completes)
    (hchunk : ∀ k, 0 < (r.state k).store.back.producer.chunkSize.toNat)
    (hpack : ∀ k, (r.state k).store.back.AllPackable) (n : ℕ) :
    ∃ k ≥ n, (Frontend.accepted (r.state n).answered).Subperm
      ((r.state k).store.back.handed.map Message.data) := by
  obtain ⟨r', hstate, hrec⟩ := exists_back r
  obtain ⟨k, hk, hhanded⟩ := RedisBack.log_eventually_handed (n := n) (hrec hrounds)
    (fun k _ => by rw [hstate]; exact hchunk k) fun k _ => by rw [hstate]; exact hpack k
  rw [hstate, hstate] at hhanded
  refine ⟨k, hk, ?_⟩
  have haccepted :=
    (inv_of_reachable (r.reachable n)).accepted_le_stored fun result m hok hfits => hfits.2 hok
  have hdata := subperm_map Message.data hhanded
  rw [List.map_map] at hdata
  exact haccepted.trans hdata

/-- **Delivery**, over Redis.  In every infinite run of the gateway in which the thread of session
`j` goes on while it handles a request, the back end completes rounds of its loop again and again,
its chunk size is not zero and packing loses nothing of the ids, whatever fails in between on both
sides: the request that the thread handles is the next one its session answers, with 202, 500 or
503, and everything that was answered with 202 by then is handed to the consumer at some later
time. -/
theorem entries_delivered (hrounds : r.Recurs Completes)
    (hchunk : ∀ k, 0 < (r.state k).store.back.producer.chunkSize.toNat)
    (hpack : ∀ k, (r.state k).store.back.AllPackable)
    (hserved : ∀ k, (∃ c ∈ (r.state k).calls, c.session = j) →
      ∃ k' ≥ k, ∃ e, r.label k' = some e ∧ Frontend.Serves j (r.state k') e)
    {c : Call Writing W} (hc : c ∈ (r.state n).calls) (hj : c.session = j) :
    ∃ k ≥ n, ∃ a, Frontend.answeredBy (r.state k) j = Frontend.answeredBy (r.state n) j ++ [a] ∧
      a.request = c.request ∧ (∃ error, a.status = Frontend.statusOf error) ∧
      ∃ k' ≥ k, (Frontend.accepted (r.state k).answered).Subperm
        ((r.state k').store.back.handed.map Message.data) := by
  obtain ⟨k, hk, a, hanswered, hrequest, hstatus⟩ := Frontend.eventually_answered accounts
    (fun _ => log_of_fresh) bounded hserved hc hj
  exact ⟨k, hk, a, hanswered, hrequest, hstatus, accepted_eventually_handed hrounds hchunk hpack k⟩

/-- The reply to an `XADD` is lost, and so is that to an `XDEL`. -/
def deliveredRun : List (Event Request) :=
  [.accept, .request 0 1 (sampleRequest [97]),
    .step 0 { Outcomes.fine with first := .lost (some 5) .eof [] }, .other (.getNext .fine),
    .other .consume, .step 0 .fine,
    .other (.markConsumed { Outcomes.fine with first := .lost (some 6) .io [] }), .respond 0,
    .other (.getNext .fine), .other (.getNextAgain .fine), .other .consume,
    .other (.markConsumed .fine)]

/-- No call is under way, and the back end finds nothing. -/
def Idle (t : State Request) : Prop := t.calls = [] ∧ t.store.back.Idle

theorem next_idle {t : State Request} (h : Idle t) :
    Completes t (.other (.getNext .fine)) ∧
      ∃ t', (machine sampleCheck fun _ (w : Request) => w).next t (.other (.getNext .fine)) =
        some t' ∧ Idle t' := by
  obtain ⟨hcompletes, back, hnext, hidle⟩ := RedisBack.next_idle h.2
  refine ⟨hcompletes, { t with store := { t.store with back := back } }, ?_, h.1, hidle⟩
  change (others t.store (.getNext .fine)).map _ = some _
  have hback : t.store.back.next (.getNext .fine) = some back := hnext
  simp only [others, hback, Option.map_some]

theorem entries_delivered_sample :
    ∃ (r : (machine sampleCheck fun _ (w : Request) => w).Run) (c : Call Writing Request),
      c ∈ (r.state 2).calls ∧ c.session = 0 ∧ ∃ k ≥ 2, ∃ a,
        Frontend.answeredBy (r.state k) 0 = Frontend.answeredBy (r.state 2) 0 ++ [a] ∧
        a.request = c.request ∧ (∃ error, a.status = Frontend.statusOf error) ∧
        ∃ k' ≥ k, (Frontend.accepted (r.state k).answered).Subperm
          ((r.state k').store.back.handed.map Message.data) := by
  let M := machine sampleCheck fun _ (w : Request) => w
  have hrun : (M.runIf Machine.anyStep sampleStart deliveredRun).any (fun t =>
      decide (t.calls = [] ∧ t.store.back.pc = .loop ∧ t.store.back.run = true ∧
        (t.store.back.producer.connection.all fun c => c.err.isNone) = true ∧
        t.store.back.entries = [] ∧ 0 < t.store.back.producer.chunkSize.toNat ∧
        t.store.back.AllPackable)) = true := by
    decide +kernel
  obtain ⟨t, ht, hP⟩ := (Option.any_eq_true _ _).1 hrun
  obtain ⟨hcalls, hpc, hgo, hconn, hentries, hchunk, hpack⟩ := of_decide_eq_true hP
  have hworking : t.store.back.producer.Working := fun c hc => by simpa [hc] using hconn
  obtain ⟨r, hstates, hlabel, htail⟩ := Machine.exists_run (M := M) (J := Idle) init_sampleStart ht
    ⟨hcalls, ⟨hpc, hgo, hworking⟩, hentries, hchunk, hpack⟩ fun t h => (next_idle h).2
  have hfirst : ∃ c ∈ (r.state 2).calls, c.session = 0 :=
    Machine.of_runIf (P := fun t => ∃ c ∈ t.calls, c.session = 0) (hstates 2 (by decide))
      (by decide +kernel)
  have hgood : ∀ k, 0 < (r.state k).store.back.producer.chunkSize.toNat ∧
      (r.state k).store.back.AllPackable ∧ (7 < k → (r.state k).calls = []) := by
    intro k
    rcases Nat.lt_or_ge k deliveredRun.length with hk | hk
    · have hall : ∀ k < deliveredRun.length,
          (M.runIf Machine.anyStep sampleStart (deliveredRun.take k)).any (fun t =>
            decide (0 < t.store.back.producer.chunkSize.toNat ∧ t.store.back.AllPackable ∧
              (7 < k → t.calls = []))) = true := by decide +kernel
      exact Machine.of_runIf (P := fun t => 0 < t.store.back.producer.chunkSize.toNat ∧
        t.store.back.AllPackable ∧ (7 < k → t.calls = [])) (hstates k hk.le) (hall k hk)
    · obtain ⟨⟨hcalls, -, -, hchunk, hpack⟩, -⟩ := htail k hk
      exact ⟨hchunk, hpack, fun _ => hcalls⟩
  have hrounds : r.Recurs Completes := fun n => by
    obtain ⟨hidle, hl⟩ := htail (max n deliveredRun.length) (le_max_right _ _)
    exact ⟨_, le_max_left _ _, _, hl, (next_idle hidle).1⟩
  -- the call is answered by the eighth event
  have hserves : Frontend.Serves 0 (r.state 7) (.respond 0 : Event Request) := by
    have hcall : ((r.state 7).calls[0]?.any fun c => c.session = 0) = true :=
      Machine.of_runIf (P := fun t : State Request =>
        (t.calls[0]?.any fun c => c.session = 0) = true) (hstates 7 (by decide)) (by decide +kernel)
    obtain ⟨c, hc, hj⟩ := (Option.any_eq_true _ _).1 hcall
    exact ⟨c, hc, of_decide_eq_true hj⟩
  obtain ⟨c, hc, hj⟩ := hfirst
  refine ⟨r, c, hc, hj, entries_delivered hrounds (fun k => (hgood k).1) (fun k => (hgood k).2.1)
    (fun k hcall => ?_) hc hj⟩
  have hle : k ≤ 7 := by
    by_contra hlt
    obtain ⟨c, hc, -⟩ := hcall
    rw [(hgood k).2.2 (by omega)] at hc
    cases hc
  exact ⟨7, hle, .respond 0, hlabel 7 (by decide), hserves⟩

end RedisGateway

end GatewayPoc
