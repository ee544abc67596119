import GatewayPoc.Gateway.OutputFiles
import GatewayPoc.Gateway.PostgresGateway
import GatewayPoc.Gateway.RedisGateway

/-!
# From requests to the lines of the files

What the gateway is for: after an orderly stop with an empty storage, a reader of the output folders
who cuts the files at the newlines finds the bodies of the requests, as often as the statuses of the
answers say, and nothing else.

* `lines_perm` : the lines of some files are the lines of the payloads of their messages.
* **`PostgresGateway.lines_of_rows`**, **`RedisGateway.lines_of_entries`** : the lines of the files
  are those of the bodies of the requests.
-/

namespace GatewayPoc

/-- The lines of the bodies of the answered requests, each as often as it was stored. -/
def linesOf (answered : List Answered) : List Bytes :=
  (answered.flatMap Frontend.copiesOf).flatMap (List.splitOn newline)

/-- Bodies without newlines are their own lines. -/
theorem linesOf_of_not_mem {answered : List Answered}
    (h : ∀ a ∈ answered, newline ∉ a.request.body) :
    linesOf answered = answered.flatMap Frontend.copiesOf := by
  refine Framing.pieces_of_not_mem fun body hbody => ?_
  obtain ⟨a, ha, hcopy⟩ := List.mem_flatMap.1 hbody
  rw [List.eq_of_mem_replicate hcopy]
  exact h a ha

/-- The lines of some files are the lines of the payloads of their messages. -/
theorem lines_eq (files : List OutputFile) : files.flatMap OutputFile.lines =
    ((files.flatMap OutputFile.messages).map Message.data).flatMap (List.splitOn newline) := by
  induction files with
  | nil => rfl
  | cons file files ih =>
    rw [List.flatMap_cons, List.flatMap_cons, List.map_append, List.flatMap_append, ih]
    rfl

/-- Files that hold the payloads of the requests have their lines. -/
theorem lines_perm {files : List OutputFile} {messages : Messages} {answered : List Answered}
    (hfiles : messages.Perm (files.flatMap OutputFile.messages))
    (hstored : (messages.map Message.data).Perm (answered.flatMap Frontend.copiesOf)) :
    (files.flatMap OutputFile.lines).Perm (linesOf answered) := by
  rw [lines_eq]
  exact ((hfiles.symm.map Message.data).trans hstored).flatMap_right _

variable {W : Type} {check : Bytes → CheckResult} {readInto : Request → W → Request}

namespace PostgresGateway

open Frontend (sampleCheck sampleRequest)

variable {s : State W}

/-- **From requests to lines**, over PostgreSQL.  In every run of the gateway in which no
acknowledgement fails, every file can be opened and `main` waits for the threads: when the back end
has stopped with an empty table and no request is under way, cutting the files at their newlines
gives the lines of the bodies of the requests, once for an answer with 202, at most once for 500 and
not at all for the others; these are the bodies themselves if they have no newline. -/
theorem lines_of_rows (h : (machine check readInto).Reachable (BackMeets GwBack.Opened) s)
    (hcalls : s.calls = []) (hpc : s.store.back.pc = .exited)
    (hrows : s.store.back.table.rows = []) :
    (∀ file ∈ s.store.back.files, file.contents.splitOn newline = file.lines ++ [[]]) ∧
    (s.store.back.files.flatMap OutputFile.lines).Perm (linesOf s.answered) ∧
    ((∀ a ∈ s.answered, newline ∉ a.request.body) →
      (s.store.back.files.flatMap OutputFile.lines).Perm
        (s.answered.flatMap Frontend.copiesOf)) ∧
    ∀ a ∈ s.answered, Stores a.status a.stored := by
  have hinv := inv_of_reachable h
  have hback := back_of_opened h
  have hstored : (s.store.back.table.log.map Message.data).Perm
      (s.answered.flatMap Frontend.copiesOf) := hinv.stored_answered hcalls
  have hlines := lines_perm (GwBack.log_perm_files hback hpc hrows) hstored
  exact ⟨fun file _ => file.splitOn_contents, hlines,
    fun hplain => linesOf_of_not_mem hplain ▸ hlines,
    fun a ha => stores_of_settled (hinv.answered a ha)⟩

/-- Two requests, one of them rejected, and a stop that waits for the thread. -/
theorem lines_of_rows_sample : ∃ s : State Request,
    s.answered.map Answered.status = [.accepted, .badRequest] ∧
    (s.store.back.files.flatMap OutputFile.lines).Perm (linesOf s.answered) := by
  let run : List (Event Request) := [.accept, .request 0 1 (sampleRequest [97, 10, 98]),
    .step 0 (fine, 7), .respond 0, .session 0 .written, .request 0 2 (sampleRequest []),
    .other .getNext, .other .consume, .other .markConsumed, .other .signal, .other .join,
    .other (.save 0 true), .other (.destroy true), .other .exit]
  obtain ⟨s, hr, hcalls, hpc, hrows, hstatus⟩ :=
    Machine.exists_of_runIf (M := machine sampleCheck fun _ (w : Request) => w)
      (G := BackMeets GwBack.Opened)
      (P := fun s => s.calls.length = 0 ∧ s.store.back.pc = .exited ∧
        s.store.back.table.rows = [] ∧
        s.answered.map Answered.status = [.accepted, .badRequest])
      init_sampleStart run (by decide +kernel)
  exact ⟨s, hstatus, (lines_of_rows hr (List.length_eq_zero_iff.1 hcalls) hpc hrows).2.1⟩

end PostgresGateway

namespace RedisGateway

open Frontend (sampleCheck sampleRequest)

variable {t : State W}

/-- **From requests to lines**, over Redis.  In every run of the gateway in which the server
executes the `XDEL` of every acknowledgement, every file can be opened, `main` waits for the
threads, and packing loses nothing of the ids: when the back end has stopped with an empty stream
and no request is under way, cutting the files at their newlines gives the lines of the bodies of
the requests, once or twice for an answer with 202, at most twice for 500 and 503 and not at all for
the others; these are the bodies themselves if they have no newline. -/
theorem lines_of_entries (h : (machine check readInto).Reachable
      (BackMeets fun back e => back.AcksExecuted e ∧ back.Finishes e) t)
    (hpack : t.store.back.AllPackable) (hcalls : t.calls = [])
    (hpc : t.store.back.pc = .exited) (hentries : t.store.back.entries = []) :
    (∀ file ∈ t.store.back.files, file.contents.splitOn newline = file.lines ++ [[]]) ∧
    (t.store.back.files.flatMap OutputFile.lines).Perm (linesOf t.answered) ∧
    ((∀ a ∈ t.answered, newline ∉ a.request.body) →
      (t.store.back.files.flatMap OutputFile.lines).Perm
        (t.answered.flatMap Frontend.copiesOf)) ∧
    ∀ a ∈ t.answered, Stores a.status a.stored := by
  have hinv := inv_of_reachable h
  have hback := back_of_reachable (fun _ _ _ => ⟨trivial, trivial⟩) h
  have hstored : ((t.store.back.log.map RedisProducer.messageOf).map Message.data).Perm
      (t.answered.flatMap Frontend.copiesOf) := by
    rw [List.map_map]
    exact hinv.stored_answered hcalls
  have hlines := lines_perm (RedisBack.log_perm_files hback hpack hpc hentries) hstored
  exact ⟨fun file _ => file.splitOn_contents, hlines,
    fun hplain => linesOf_of_not_mem hplain ▸ hlines,
    fun a ha => stores_of_settled (hinv.answered a ha)⟩

/-- A request that is appended twice, and a stop that waits for the threads. -/
theorem lines_of_entries_sample : ∃ t : State Request,
    t.answered.map Answered.stored = [2] ∧
    (t.store.back.files.flatMap OutputFile.lines).Perm (linesOf t.answered) := by
  let run : List (Event Request) := [.accept, .request 0 1 (sampleRequest [97]),
    .step 0 { Outcomes.fine with first := .lost (some 5) .eof [] }, .step 0 .fine, .respond 0,
    .other (.getNext .fine), .other .consume, .other (.markConsumed .fine), .other .signal,
    .other .join, .other (.save 1 true), .other (.save 0 true), .other (.destroy true),
    .other .exit]
  obtain ⟨t, hr, hpack, hcalls, hpc, hentries, hstored⟩ :=
    Machine.exists_of_runIf (M := machine sampleCheck fun _ (w : Request) => w)
      (G := BackMeets fun back e => back.AcksExecuted e ∧ back.Finishes e)
      (P := fun t => t.store.back.AllPackable ∧ t.calls.length = 0 ∧
        t.store.back.pc = .exited ∧ t.store.back.entries = [] ∧
        t.answered.map Answered.stored = [2])
      init_sampleStart run (by decide +kernel)
  have hlines := lines_of_entries hr hpack (List.length_eq_zero_iff.1 hcalls) hpc hentries
  exact ⟨t, hstored, hlines.2.1⟩

end RedisGateway

end GatewayPoc
