import GatewayPoc.Gateway.PostgresGateway
import GatewayPoc.Gateway.RedisGateway
import GatewayPoc.GwBack.Order

/-!
# The order of a client

A client sends the next request on its connection after it has got the response to the last one, so
what its requests store is stored in their order.  If the back end keeps the order of the storage,
each client finds its payloads in the output folder in the order in which it has sent them, however
the requests of different clients are mixed.

* `Frontend.sentBy` : what the requests of a session have stored, in their order.
* `Frontend.sentBy_sublist` : it is a part of the log of the storage, for every writer.
* **`PostgresGateway.clients_rows`** : the order of a client in the output, if rows become visible
  in the order of their ids.
* **`RedisGateway.clients_entries`** : the order of a client in the output.
-/

namespace GatewayPoc

namespace Frontend

/-! ### What a session has stored -/

variable {σ ρ ω ε W : Type} {f : Frontend σ ρ ω ε W} {s s' : GwFront σ ρ W} {payload : ρ → Bytes}
  {Fits : ρ ⊕ WriteResult → ℕ → Prop} {k : ℕ}

/-- What the requests of session `k` have stored, in their order. -/
def sentBy (s : GwFront σ ρ W) (k : ℕ) : List Bytes :=
  (s.answered.filter fun a => a.session = k).flatMap copiesOf ++
    (s.calls.filter fun c => c.session = k).flatMap copies

/-- A step of a call stores after what its session has stored. -/
theorem sentBy_writerStep (hacc : f.Accounts payload Fits) (hinv : Inv f payload Fits s) {i : ℕ}
    {x : ω} {call : Call ρ W} {r : ρ} {store : σ} {phase : ρ ⊕ WriteResult}
    (hi : s.calls[i]? = some call) (hphase : call.phase = .inl r)
    (hstep : f.writer.step r x s.store = some (store, phase))
    (h : (sentBy s k).Sublist (f.log s.store)) :
    (sentBy { s with
      store := store
      calls := s.calls.set i { call with
        phase := phase
        stored := call.stored + ((f.log store).length - (f.log s.store).length) } } k).Sublist
      (f.log store) := by
  have hcall := hinv.calls call (List.mem_of_getElem? hi)
  obtain ⟨n, hlog, -, -⟩ := hacc.step r x s.store store phase call.stored hstep
    (hphase ▸ hcall.fits)
  rw [hcall.payload r hphase] at hlog
  have hn : (f.log store).length - (f.log s.store).length = n := by simp [hlog]
  rw [hn]
  let call' : Call ρ W := { call with phase := phase, stored := call.stored + n }
  by_cases hk : call.session = k
  · subst hk
    have hlt := (List.getElem?_eq_some_iff.1 hi).1
    have hset : (s.calls.set i call')[i]? = some call' := List.getElem?_set_self hlt
    have hnodup : ((s.calls.set i call').map Call.session).Nodup := by
      rw [map_set_same (g := Call.session) (b := call') hi rfl]
      exact hinv.sessions
    have hold := filter_eq_singleton Call.session hinv.sessions hi
    have hnew : ((s.calls.set i call').filter fun c => c.session = call.session) = [call'] :=
      filter_eq_singleton Call.session hnodup hset
    have hcopies : copies call' = copies call ++ List.replicate n call.request.body :=
      List.replicate_add ..
    simp only [sentBy, hold, List.flatMap_singleton] at h
    simp only [sentBy, call', hnew, List.flatMap_singleton] at hcopies ⊢
    rw [hcopies, hlog, ← List.append_assoc]
    exact h.append (List.Sublist.refl _)
  · have hsame := filter_set_of_ne Call.session (b := call') hi hk hk
    simp only [sentBy, call'] at h hsame ⊢
    rw [hsame, hlog]
    exact h.trans (List.sublist_append_left _ _)

/-- A call that returns has stored what its answered request has. -/
theorem sentBy_respond (hinv : Inv f payload Fits s) {i : ℕ} {call : Call ρ W} {r : WriteResult}
    {session session' : HttpSession} (hi : s.calls[i]? = some call)
    (hk : s.sessions[call.session]? = some session) :
    sentBy { s with
      sessions := s.sessions.set call.session session'
      calls := s.calls.eraseIdx i
      answered := s.answered ++ [⟨call.session, f.readInto session.request call.wire,
        UniversalHandler.resultOf r, call.stored⟩] } k = sentBy s k := by
  obtain ⟨session₁, hk₁, hrequest⟩ := (hinv.calls call (List.mem_of_getElem? hi)).reading
  obtain rfl : session = session₁ := Option.some.inj (hk.symm.trans hk₁)
  by_cases hsession : call.session = k
  · subst hsession
    have hone := filter_eq_singleton Call.session hinv.sessions hi
    have hnone : ((s.calls.eraseIdx i).filter fun c => c.session = call.session) = [] := by
      have hperm : s.calls.Perm (call :: s.calls.eraseIdx i) := perm_cons_eraseIdx hi
      have hfilter := hperm.filter fun c => c.session = call.session
      rw [hone, List.filter_cons_of_pos (by simp)] at hfilter
      simpa using hfilter.length_eq
    simp only [sentBy, hone, hnone, List.filter_append, List.flatMap_append]
    simp [copiesOf, copies, hrequest]
  · have hsame := filter_eraseIdx_of_ne Call.session hi hsession
    simp only [sentBy, hsame, List.filter_append]
    simp [hsession]

/-- **What a session has stored** is a part of the log of the storage, in the order of its
requests. -/
theorem sentBy_sublist {init : σ → Prop} {G : GwFront σ ρ W → Event ω ε W → Prop}
    (hacc : f.Accounts payload Fits) (hinit : ∀ s, init s → f.log s = [])
    (h : (f.machine init).Reachable G s) (k : ℕ) : (sentBy s k).Sublist (f.log s.store) := by
  refine h.invariant (I := fun s => (sentBy s k).Sublist (f.log s.store)) ?_ ?_
  · rintro s ⟨-, -, hcalls, hanswered⟩
    simp [sentBy, hcalls, hanswered]
  · intro s e s' hr ih _ hn
    have hinv := inv_of_reachable hacc hinit hr
    cases step_of_next hn with
    | accept | session => exact ih
    | request => simpa [sentBy, List.filter_append, List.filter_cons, copies, apply_ite] using ih
    | reject => simpa [sentBy, List.filter_append, List.filter_cons, copiesOf, apply_ite] using ih
    | step hi hphase hstep => exact sentBy_writerStep hacc hinv hi hphase hstep ih
    | respond hi hphase hk =>
      rw [sentBy_respond hinv hi hk]
      exact ih
    | other ho =>
      rw [hacc.others _ _ _ ho]
      exact ih

/-- What a session has stored contains the bodies of its requests that were answered with 202, in
their order. -/
theorem accepted_sentBy (hinv : Inv f payload Fits s)
    (hok : ∀ r n, r.error = .ok → Fits (.inr r) n → 1 ≤ n) (k : ℕ) :
    (accepted (s.answered.filter fun a => a.session = k)).Sublist (sentBy s k) :=
  (accepted_sublist (fun a ha => hinv.answered a (List.mem_of_mem_filter ha)) hok).trans
    (List.sublist_append_left _ _)

end Frontend

namespace PostgresGateway

open Frontend (sampleCheck sampleRequest)

variable {W : Type} {check : Bytes → CheckResult} {readInto : Request → W → Request} {s : State W}

/-- **The order of a client**, over PostgreSQL.  In every run of the gateway in which no
acknowledgement fails, every file can be opened, `main` waits for the threads, and rows with ids of
at most 19 digits become visible in the order of their ids: whenever no thread is at work, the
payloads of each session, those answered with 202 among them, are in the order of its requests in
the files as they are listed, then in the buffer, then in the table. -/
theorem clients_rows (h : (machine check readInto).Reachable (BackMeets GwBack.Opened) s)
    (hordered : s.store.back.Ordered)
    (hids : ∀ m ∈ s.store.back.table.log, m.id.toNat < 10 ^ 19)
    (hsaving : s.store.back.saving = []) (k : ℕ) :
    (Frontend.accepted (s.answered.filter fun a => a.session = k)).Sublist
      (Frontend.sentBy s k) ∧
    (Frontend.sentBy s k).Sublist (((listing s.store.back.files).flatMap OutputFile.messages ++
      s.store.back.consumer.buffer ++ s.store.back.waiting).map Message.data) := by
  have hback := back_of_opened h
  have hacks : GwBack.machine.Reachable GwBack.AcksSucceed s.store.back :=
    hback.mono fun _ _ _ hg => hg.1
  refine ⟨Frontend.accepted_sentBy (inv_of_reachable h) (fun r n hok hfits => ?_) k, ?_⟩
  · simp only [Fits, hok] at hfits
    omega
  · rw [GwBack.listing_flatMap hback hordered hids hsaving]
    have hlog := GwBack.handed_append_waiting hacks hordered
    rw [GwBack.handed] at hlog
    rw [hlog]
    exact Frontend.sentBy_sublist (f := frontend check readInto) accounts
      (fun _ => log_of_fresh) h k

/-- Two sessions of two requests each, mixed, with chunks of two. -/
def mixedRun : List (Event Request) :=
  [.accept, .accept, .request 0 1 (sampleRequest [97]), .request 1 2 (sampleRequest [98]),
    .step 1 (fine, 3), .step 0 (fine, 4), .respond 0, .other .getNext, .session 0 .written,
    .other .consume, .request 0 1 (sampleRequest [99]), .respond 0, .other .markConsumed,
    .session 1 .written, .step 0 (fine, 7), .request 1 2 (sampleRequest [100]), .respond 0,
    .step 0 (fine, 9), .respond 0, .other .getNext, .other .consume, .other .markConsumed,
    .other (.save 1 true), .other (.save 0 true)]

theorem clients_rows_sample : ∃ s : State Request,
    s.store.back.table.log.map Message.data = [[98], [97], [99], [100]] ∧
    (Frontend.accepted (s.answered.filter fun a => a.session = 0)) = [[97], [99]] ∧
    (Frontend.sentBy s 0).Sublist (((listing s.store.back.files).flatMap OutputFile.messages ++
      s.store.back.consumer.buffer ++ s.store.back.waiting).map Message.data) := by
  let start : State Request :=
    ⟨⟨⟨[], [], []⟩, .start {} { chunkSize := 2, outputFolder := [] }⟩, [], [], []⟩
  have hstart : (machine sampleCheck fun _ (w : Request) => w).init start :=
    ⟨⟨rfl, _, _, rfl⟩, rfl, rfl, rfl⟩
  obtain ⟨s, hr, hordered, hids, hsaving, hlog, haccepted⟩ :=
    Machine.exists_of_runIf (M := machine sampleCheck fun _ (w : Request) => w)
      (G := BackMeets GwBack.Opened)
      (P := fun s => s.store.back.Ordered ∧
        (∀ m ∈ s.store.back.table.log, m.id.toNat < 10 ^ 19) ∧ s.store.back.saving = [] ∧
        s.store.back.table.log.map Message.data = [[98], [97], [99], [100]] ∧
        Frontend.accepted (s.answered.filter fun a => a.session = 0) = [[97], [99]])
      hstart mixedRun (by decide +kernel)
  exact ⟨s, hlog, haccepted, (clients_rows hr hordered hids hsaving 0).2⟩

end PostgresGateway

namespace RedisGateway

open Frontend (sampleCheck sampleRequest)

variable {W : Type} {check : Bytes → CheckResult} {readInto : Request → W → Request} {t : State W}

/-- **The order of a client**, over Redis.  In every run of the gateway in which the server executes
the `XDEL` of every acknowledgement and packing loses nothing of the ids, however often connections
break on both sides: the payloads of each session, those answered with 202 among them, are handed to
the consumer, and wait in the stream, in the order of its requests. -/
theorem clients_entries
    (h : (machine check readInto).Reachable (BackMeets RedisBack.AcksExecuted) t)
    (hpack : t.store.back.AllPackable) (k : ℕ) :
    (Frontend.accepted (t.answered.filter fun a => a.session = k)).Sublist
      (Frontend.sentBy t k) ∧
    (Frontend.sentBy t k).Sublist
      ((t.store.back.handed ++ t.store.back.waiting).map Message.data) := by
  have hback := back_of_reachable (fun _ _ _ => trivial) h
  refine ⟨Frontend.accepted_sentBy (inv_of_reachable h) (fun r n hok hfits => hfits.2 hok) k, ?_⟩
  rw [RedisBack.handed_append_waiting hback hpack, List.map_map]
  exact Frontend.sentBy_sublist (f := frontend check readInto) accounts
    (fun _ => log_of_fresh) h k

/-- Two sessions of two requests each, mixed; a reply to an `XADD` is lost. -/
def mixedRun : List (Event Request) :=
  let lost : Outcomes := { Outcomes.fine with first := .lost (some 3) .eof [] }
  [.accept, .accept, .request 0 1 (sampleRequest [97]), .request 1 2 (sampleRequest [98]),
    .step 1 .fine, .step 0 lost, .respond 1, .other (.getNext .fine), .session 1 .written,
    .request 1 2 (sampleRequest [99]), .other .consume, .step 0 .fine,
    .other (.markConsumed .fine), .respond 0, .step 0 .fine, .respond 0,
    .other (.getNext .fine), .other .consume]

theorem clients_entries_sample : ∃ t : State Request,
    Frontend.accepted (t.answered.filter fun a => a.session = 1) = [[98], [99]] ∧
    (t.store.back.handed ++ t.store.back.waiting).map Message.data = [[98], [97], [97], [99]] ∧
    (Frontend.sentBy t 1).Sublist
      ((t.store.back.handed ++ t.store.back.waiting).map Message.data) := by
  obtain ⟨t, hr, hpack, haccepted, hdata⟩ :=
    Machine.exists_of_runIf (M := machine sampleCheck fun _ (w : Request) => w)
      (G := BackMeets RedisBack.AcksExecuted)
      (P := fun t => t.store.back.AllPackable ∧
        Frontend.accepted (t.answered.filter fun a => a.session = 1) = [[98], [99]] ∧
        (t.store.back.handed ++ t.store.back.waiting).map Message.data =
          [[98], [97], [97], [99]])
      init_sampleStart mixedRun (by decide +kernel)
  exact ⟨t, haccepted, hdata, (clients_entries hr hpack 1).2⟩

end RedisGateway

end GatewayPoc
