import GatewayPoc.Core.ExclusivePool
import GatewayPoc.GwFront.PostgresWriter
import GatewayPoc.GwFront.RedisWriter

/-!
# The connections of the threads

`PostgresWriter::findConnection` and `RedisWriter::findConnection` with the threads that call
`write` interleaved.  A step is one critical section under `mutex_`, or what a thread does on its
own between two of them.  `PostgresWriter` connects inside its second critical section,
`RedisWriter` before it.

* `PostgresWriter.poolMachine`, `RedisWriter.poolMachine` : the threads of a writer.
* `PostgresWriter.pool_reachable`, `RedisWriter.pool_reachable` : both refine
  `ExclusivePool.machine`.
* `PostgresWriter.steps_findConnection`, `RedisWriter.steps_findConnection` : without interleaving
  they do what the sequential `findConnection` does.
* `one_connection_per_thread` : **each thread has one connection, and no other thread gets it**.
-/

namespace GatewayPoc

open ExclusivePool (Owned Exclusive Phase)

/-! ### PostgreSQL -/

namespace PostgresWriter

/-- Where a thread is in `write`. -/
inductive Pc where
  /-- It is not in `write`. -/
  | idle
  /-- Before the first critical section of `findConnection`. -/
  | lookup (retriesLeft : ℕ)
  /-- Before the second one. -/
  | create (retriesLeft : ℕ)
  /-- `findConnection` has returned. -/
  | transaction (retriesLeft : ℕ) (connection : ℕ)
  deriving DecidableEq, Repr

/-- The threads and `connections_`.  The logs of the connections made and of those returned by
`findConnection` are not in the source. -/
structure Workers where
  pc : ℕ → Pc
  connections : List (Owned ℕ)
  made : List ℕ
  returned : List (Owned ℕ)

/-- What a thread does. -/
inductive PoolEvent where
  | call (threadId : ℕ)
  | lookup (threadId : ℕ)
  /-- The second critical section; how the constructor of the connection ends. -/
  | create (threadId : ℕ) (connect : StepEnd)
  /-- The end of the transaction. -/
  | finish (threadId : ℕ) (work : StepEnd)
  deriving DecidableEq, Repr

/-- Where a round that did not end with a connection or a commit leads: the `catch` clauses. -/
def catchClauses (retriesLeft : ℕ) : StepEnd → Pc
  | .broken _ =>
    match retriesLeft with
    | 0 => .idle
    | retriesLeft + 1 => .lookup retriesLeft
  | _ => .idle

/-- The state an event leads to. -/
def poolNext (s : Workers) : PoolEvent → Option Workers
  | .call t =>
    match s.pc t with
    | .idle => some { s with pc := Function.update s.pc t (.lookup reconnectRetries) }
    | _ => none
  | .lookup t =>
    match s.pc t with
    | .lookup retriesLeft =>
      match ExclusivePool.find t s.connections with
      | some c => some { s with
          pc := Function.update s.pc t (.transaction retriesLeft c)
          returned := s.returned ++ [⟨t, c⟩] }
      | none => some { s with pc := Function.update s.pc t (.create retriesLeft) }
    | _ => none
  | .create t connect =>
    match s.pc t with
    | .create retriesLeft =>
      match connect with
      | .done =>
        let c := s.made.length
        some {
          pc := Function.update s.pc t (.transaction retriesLeft c)
          connections := s.connections ++ [⟨t, c⟩]
          made := s.made ++ [t]
          returned := s.returned ++ [⟨t, c⟩] }
      -- the argument of `push_back` is made before the vector is touched
      | e => some { s with pc := Function.update s.pc t (catchClauses retriesLeft e) }
    | _ => none
  | .finish t work =>
    match s.pc t with
    | .transaction retriesLeft _ =>
      some { s with pc := Function.update s.pc t (catchClauses retriesLeft work) }
    | _ => none

/-- The threads that use a writer, as a state machine. -/
def poolMachine : Machine Workers PoolEvent where
  init s := s = ⟨fun _ => .idle, [], [], []⟩
  next := poolNext

/-- Where a thread is, seen from the pool. -/
def Pc.phase : Pc → Phase
  | .create _ => .missed
  | _ => .outside

/-- The threads, seen from the pool. -/
def Workers.pool (s : Workers) : ExclusivePool.Pool ℕ :=
  ⟨fun t => (s.pc t).phase, s.connections, s.made, s.returned⟩

@[simp] theorem phase_catchClauses (retriesLeft : ℕ) (e : StepEnd) :
    (catchClauses retriesLeft e).phase = .outside := by
  cases e with
  | broken what => cases retriesLeft <;> rfl
  | done => rfl
  | failed what => rfl

theorem catchClauses_ne_transaction {c : ℕ} (retriesLeft : ℕ) (e : StepEnd) :
    catchClauses retriesLeft e ≠ .transaction retriesLeft c := by
  cases e with
  | broken what => cases retriesLeft <;> exact Pc.noConfusion
  | done => exact Pc.noConfusion
  | failed what => exact Pc.noConfusion

section

variable {s s' : Workers} {e : PoolEvent} {t : ℕ}

/-- A step of a thread is at most a few steps of the pool. -/
theorem pool_steps (hn : poolNext s e = some s') :
    ExclusivePool.machine.Steps s.pool s'.pool := by
  cases e with
  | call t =>
    simp only [poolNext] at hn
    split at hn
    · rename_i hpc
      obtain rfl := Option.some.inj hn
      refine Machine.Steps.of_eq ?_
      simp only [Workers.pool]
      rw [ExclusivePool.phase_update_eq Pc.phase (by rw [hpc]; rfl)]
    · cases hn
  | lookup t =>
    simp only [poolNext] at hn
    split at hn
    · rename_i retriesLeft hpc
      have hphase : s.pool.phase t = .outside := by simp only [Workers.pool, hpc, Pc.phase]
      split at hn
      · rename_i c hfind
        obtain rfl := Option.some.inj hn
        refine Machine.Steps.one (l := .lookup t) ?_
        simp only [ExclusivePool.machine]
        rw [ExclusivePool.next_lookup_some hphase hfind]
        simp only [Workers.pool]
        rw [ExclusivePool.phase_update_eq Pc.phase (by rw [hpc]; rfl)]
      · rename_i hfind
        obtain rfl := Option.some.inj hn
        refine Machine.Steps.one (l := .lookup t) ?_
        simp only [ExclusivePool.machine]
        rw [ExclusivePool.next_lookup_none hphase hfind]
        simp only [Workers.pool]
        rw [ExclusivePool.phase_update Pc.phase]
        rfl
    · cases hn
  | create t connect =>
    simp only [poolNext] at hn
    split at hn
    · rename_i retriesLeft hpc
      have hphase : s.pool.phase t = .missed := by simp only [Workers.pool, hpc, Pc.phase]
      split at hn
      · obtain rfl := Option.some.inj hn
        -- the connection is made and put into the pool in one critical section
        refine Machine.Steps.head (l := .make t) (ExclusivePool.next_make hphase) ?_
        refine Machine.Steps.one (l := .insert t) ?_
        simp only [ExclusivePool.machine]
        rw [ExclusivePool.next_insert (r := s.made.length) (Function.update_self ..)]
        simp only [Workers.pool, Function.update_idem]
        rw [ExclusivePool.phase_update Pc.phase]
        rfl
      · obtain rfl := Option.some.inj hn
        refine Machine.Steps.one (l := .fail t) ?_
        simp only [ExclusivePool.machine]
        rw [ExclusivePool.next_fail hphase]
        simp only [Workers.pool]
        rw [ExclusivePool.phase_update Pc.phase, phase_catchClauses]
    · cases hn
  | finish t work =>
    simp only [poolNext] at hn
    split at hn
    · rename_i retriesLeft c hpc
      obtain rfl := Option.some.inj hn
      refine Machine.Steps.of_eq ?_
      simp only [Workers.pool]
      rw [ExclusivePool.phase_update_eq Pc.phase (by rw [hpc, phase_catchClauses]; rfl)]
    · cases hn

theorem pool_reachable (h : poolMachine.Reachable Machine.anyStep s) :
    ExclusivePool.machine.Reachable Machine.anyStep s.pool := by
  refine h.map ?_ ?_
  · rintro _ rfl
    rfl
  · intro s e s' _ _ hn
    exact pool_steps hn

/-- A thread that is not interrupted finds or makes what the sequential `findConnection` does. -/
theorem steps_findConnection {q : State} {retriesLeft : ℕ} (connect : StepEnd)
    (hpc : s.pc t = .lookup retriesLeft) (hq : q.connections = s.connections.map Owned.owner) :
    ∃ s', poolMachine.Steps s s' ∧
      (findConnection t connect q).1.connections = s'.connections.map Owned.owner ∧
      ((findConnection t connect q).2 = .done ↔ ∃ c, s'.pc t = .transaction retriesLeft c) := by
  cases hfind : ExclusivePool.find t s.connections with
  | some c =>
    let s₁ : Workers := { s with
      pc := Function.update s.pc t (.transaction retriesLeft c)
      returned := s.returned ++ [⟨t, c⟩] }
    have hlookup : poolMachine.next s (.lookup t) = some s₁ := by
      simp only [poolMachine, poolNext, hpc, hfind, s₁]
    have hmem : t ∈ q.connections := hq ▸ List.mem_map_of_mem (ExclusivePool.mem_of_find hfind)
    have hseq : findConnection t connect q = (q, .done) := if_pos hmem
    rw [hseq]
    exact ⟨s₁, .one hlookup, hq, fun _ => ⟨c, Function.update_self ..⟩, fun _ => rfl⟩
  | none =>
    let s₁ : Workers := { s with pc := Function.update s.pc t (.create retriesLeft) }
    have hlookup : poolMachine.next s (.lookup t) = some s₁ := by
      simp only [poolMachine, poolNext, hpc, hfind, s₁]
    have hpc₁ : s₁.pc t = .create retriesLeft := Function.update_self ..
    have hmem : t ∉ q.connections := hq ▸ ExclusivePool.not_mem_of_find hfind
    by_cases hdone : connect = .done
    · subst hdone
      let s₂ : Workers := ⟨Function.update s₁.pc t (.transaction retriesLeft s.made.length),
        s.connections ++ [⟨t, s.made.length⟩], s.made ++ [t], s.returned ++ [⟨t, s.made.length⟩]⟩
      have hcreate : poolMachine.next s₁ (.create t .done) = some s₂ := by
        simp only [poolMachine, poolNext, hpc₁]
        rfl
      have hseq : findConnection t .done q =
          ({ q with connections := q.connections ++ [t] }, .done) := if_neg hmem
      rw [hseq]
      refine ⟨s₂, .head hlookup (.one hcreate), ?_,
        fun _ => ⟨_, Function.update_self ..⟩, fun _ => rfl⟩
      simp [s₂, hq]
    · let s₂ : Workers := { s₁ with
        pc := Function.update s₁.pc t (catchClauses retriesLeft connect) }
      have hcreate : poolMachine.next s₁ (.create t connect) = some s₂ := by
        cases connect with
        | done => exact absurd rfl hdone
        | broken what => simp only [poolMachine, poolNext, hpc₁, s₂]
        | failed what => simp only [poolMachine, poolNext, hpc₁, s₂]
      have hseq : findConnection t connect q = (q, connect) := by
        cases connect with
        | done => exact absurd rfl hdone
        | broken what => exact if_neg hmem
        | failed what => exact if_neg hmem
      rw [hseq]
      refine ⟨s₂, .head hlookup (.one hcreate), hq, fun h => absurd h hdone, ?_⟩
      rintro ⟨c, hc⟩
      have hpc₂ : s₂.pc t = catchClauses retriesLeft connect := Function.update_self ..
      exact absurd (hpc₂.symm.trans hc) (catchClauses_ne_transaction retriesLeft connect)

/-- A thread that has a connection is not about to make one. -/
theorem ne_create_of_returned {o : Owned ℕ} (h : poolMachine.Reachable Machine.anyStep s)
    (ho : o ∈ s.returned) (retriesLeft : ℕ) : s.pc o.owner ≠ .create retriesLeft := by
  intro hpc
  have hphase : (s.pc o.owner).phase = .outside :=
    ExclusivePool.outside_of_returned (pool_reachable h) ho
  rw [hpc] at hphase
  cases hphase

/-- A thread that has a connection is given it by its next lookup. -/
theorem lookup_of_returned {o : Owned ℕ} (h : poolMachine.Reachable Machine.anyStep s)
    (ho : o ∈ s.returned) (hn : poolNext s (.lookup o.owner) = some s') :
    s'.returned = s.returned ++ [o] := by
  have hfind : ExclusivePool.find o.owner s.connections = some o.resource :=
    (ExclusivePool.exclusive (pool_reachable h)).later o ho
  simp only [poolNext, hfind] at hn
  split at hn
  · obtain rfl := Option.some.inj hn
    rfl
  · cases hn

/-- A connection that throws in its constructor changes nothing but where its thread is. -/
theorem create_failed {connect : StepEnd} (hconnect : connect ≠ .done)
    (hn : poolNext s (.create t connect) = some s') :
    s'.connections = s.connections ∧ s'.made = s.made ∧ s'.returned = s.returned := by
  simp only [poolNext] at hn
  split at hn
  · obtain rfl := Option.some.inj hn
    exact ⟨rfl, rfl, rfl⟩
  · cases hn

end

end PostgresWriter

/-! ### Redis -/

namespace RedisWriter

/-- Where a thread is in `write`. -/
inductive Pc where
  /-- It is not in `write`. -/
  | idle
  /-- Before the first critical section of `findConnection`. -/
  | lookup
  /-- Before `createConnection`. -/
  | create
  /-- Before the second critical section, with a new connection. -/
  | insert (connection : ℕ)
  /-- `findConnection` has returned. -/
  | send (connection : ℕ)
  deriving DecidableEq, Repr

/-- The threads and `connections_`.  A connection is the `redisContext` that it points to: a
reconnect does not change it.  The logs are not in the source. -/
structure Workers where
  pc : ℕ → Pc
  connections : List (Owned ℕ)
  made : List ℕ
  returned : List (Owned ℕ)

/-- What a thread does. -/
inductive PoolEvent where
  | call (threadId : ℕ)
  | lookup (threadId : ℕ)
  /-- `createConnection`, which is outside of the critical sections. -/
  | create (threadId : ℕ) (o : Outcomes) (db : Streams)
  /-- The second critical section. -/
  | insert (threadId : ℕ)
  /-- The end of `write`. -/
  | finish (threadId : ℕ)

/-- The state an event leads to. -/
def poolNext (config : RedisConfig) (s : Workers) : PoolEvent → Option Workers
  | .call t =>
    match s.pc t with
    | .idle => some { s with pc := Function.update s.pc t .lookup }
    | _ => none
  | .lookup t =>
    match s.pc t with
    | .lookup =>
      match ExclusivePool.find t s.connections with
      | some c => some { s with
          pc := Function.update s.pc t (.send c)
          returned := s.returned ++ [⟨t, c⟩] }
      | none => some { s with pc := Function.update s.pc t .create }
    | _ => none
  | .create t o db =>
    match s.pc t with
    | .create =>
      match createConnection config o db with
      | .ok _ => some { s with
          pc := Function.update s.pc t (.insert s.made.length)
          made := s.made ++ [t] }
      -- `write` returns `STORAGE_UNAVAILABLE`
      | .error _ => some { s with pc := Function.update s.pc t .idle }
    | _ => none
  | .insert t =>
    match s.pc t with
    | .insert c => some { s with
        pc := Function.update s.pc t (.send c)
        connections := s.connections ++ [⟨t, c⟩]
        returned := s.returned ++ [⟨t, c⟩] }
    | _ => none
  | .finish t =>
    match s.pc t with
    | .send _ => some { s with pc := Function.update s.pc t .idle }
    | _ => none

/-- The threads that use a writer, as a state machine. -/
def poolMachine (config : RedisConfig) : Machine Workers PoolEvent where
  init s := s = ⟨fun _ => .idle, [], [], []⟩
  next := poolNext config

/-- Where a thread is, seen from the pool. -/
def Pc.phase : Pc → Phase
  | .create => .missed
  | .insert c => .holding c
  | _ => .outside

/-- The threads, seen from the pool. -/
def Workers.pool (s : Workers) : ExclusivePool.Pool ℕ :=
  ⟨fun t => (s.pc t).phase, s.connections, s.made, s.returned⟩

section

variable {config : RedisConfig} {s s' : Workers} {e : PoolEvent} {t : ℕ}

/-- A step of a thread is at most one step of the pool. -/
theorem pool_steps (hn : poolNext config s e = some s') :
    ExclusivePool.machine.Steps s.pool s'.pool := by
  cases e with
  | call t =>
    simp only [poolNext] at hn
    split at hn
    · rename_i hpc
      obtain rfl := Option.some.inj hn
      refine Machine.Steps.of_eq ?_
      simp only [Workers.pool]
      rw [ExclusivePool.phase_update_eq Pc.phase (by rw [hpc]; rfl)]
    · cases hn
  | lookup t =>
    simp only [poolNext] at hn
    split at hn
    · rename_i hpc
      have hphase : s.pool.phase t = .outside := by simp only [Workers.pool, hpc, Pc.phase]
      refine Machine.Steps.one (l := .lookup t) ?_
      simp only [ExclusivePool.machine]
      split at hn
      · rename_i c hfind
        obtain rfl := Option.some.inj hn
        rw [ExclusivePool.next_lookup_some hphase hfind]
        simp only [Workers.pool]
        rw [ExclusivePool.phase_update_eq Pc.phase (by rw [hpc]; rfl)]
      · rename_i hfind
        obtain rfl := Option.some.inj hn
        rw [ExclusivePool.next_lookup_none hphase hfind]
        simp only [Workers.pool]
        rw [ExclusivePool.phase_update Pc.phase]
        rfl
    · cases hn
  | create t o db =>
    simp only [poolNext] at hn
    split at hn
    · rename_i hpc
      have hphase : s.pool.phase t = .missed := by simp only [Workers.pool, hpc, Pc.phase]
      split at hn
      · obtain rfl := Option.some.inj hn
        refine Machine.Steps.one (l := .make t) ?_
        simp only [ExclusivePool.machine]
        rw [ExclusivePool.next_make hphase]
        simp only [Workers.pool]
        rw [ExclusivePool.phase_update Pc.phase]
        rfl
      · obtain rfl := Option.some.inj hn
        refine Machine.Steps.one (l := .fail t) ?_
        simp only [ExclusivePool.machine]
        rw [ExclusivePool.next_fail hphase]
        simp only [Workers.pool]
        rw [ExclusivePool.phase_update Pc.phase]
        rfl
    · cases hn
  | insert t =>
    simp only [poolNext] at hn
    split at hn
    · rename_i c hpc
      have hphase : s.pool.phase t = .holding c := by simp only [Workers.pool, hpc, Pc.phase]
      obtain rfl := Option.some.inj hn
      refine Machine.Steps.one (l := .insert t) ?_
      simp only [ExclusivePool.machine]
      rw [ExclusivePool.next_insert hphase]
      simp only [Workers.pool]
      rw [ExclusivePool.phase_update Pc.phase]
      rfl
    · cases hn
  | finish t =>
    simp only [poolNext] at hn
    split at hn
    · rename_i c hpc
      obtain rfl := Option.some.inj hn
      refine Machine.Steps.of_eq ?_
      simp only [Workers.pool]
      rw [ExclusivePool.phase_update_eq Pc.phase (by rw [hpc]; rfl)]
    · cases hn

theorem pool_reachable (h : (poolMachine config).Reachable Machine.anyStep s) :
    ExclusivePool.machine.Reachable Machine.anyStep s.pool := by
  refine h.map ?_ ?_
  · rintro _ rfl
    rfl
  · intro s e s' _ _ hn
    exact pool_steps hn

/-- A thread that is not interrupted finds or makes what the sequential `findConnection` does. -/
theorem steps_findConnection {w : RedisWriter} (o : Outcomes) (db : Streams)
    (hpc : s.pc t = .lookup)
    (hw : w.connections.map ExclusiveConnection.threadId = s.connections.map Owned.owner) :
    ∃ s', (poolMachine w.config).Steps s s' ∧
      (w.findConnection t o db).1.connections.map ExclusiveConnection.threadId =
        s'.connections.map Owned.owner ∧
      ((w.findConnection t o db).2.isOk = true ↔ ∃ c, s'.pc t = .send c) := by
  cases hfind : ExclusivePool.find t s.connections with
  | some c =>
    let s₁ : Workers := { s with
      pc := Function.update s.pc t (.send c)
      returned := s.returned ++ [⟨t, c⟩] }
    have hlookup : (poolMachine w.config).next s (.lookup t) = some s₁ := by
      simp only [poolMachine, poolNext, hpc, hfind, s₁]
    have hmem : t ∈ w.connections.map ExclusiveConnection.threadId :=
      hw ▸ List.mem_map_of_mem (ExclusivePool.mem_of_find hfind)
    obtain ⟨ec, hec, hid⟩ := List.mem_map.1 hmem
    have hsome : (w.connections.find? fun ec => ec.threadId = t).isSome = true :=
      List.find?_isSome.2 ⟨ec, hec, decide_eq_true hid⟩
    obtain ⟨ec', hseq⟩ := Option.isSome_iff_exists.1 hsome
    simp only [findConnection, hseq]
    exact ⟨s₁, .one hlookup, hw, fun _ => ⟨c, Function.update_self ..⟩, fun _ => rfl⟩
  | none =>
    let s₁ : Workers := { s with pc := Function.update s.pc t .create }
    have hlookup : (poolMachine w.config).next s (.lookup t) = some s₁ := by
      simp only [poolMachine, poolNext, hpc, hfind, s₁]
    have hpc₁ : s₁.pc t = .create := Function.update_self ..
    have hmem : t ∉ w.connections.map ExclusiveConnection.threadId :=
      hw ▸ ExclusivePool.not_mem_of_find hfind
    have hseq : (w.connections.find? fun ec => ec.threadId = t) = none :=
      List.find?_eq_none.2 fun ec hec heq =>
        hmem (List.mem_map.2 ⟨ec, hec, of_decide_eq_true heq⟩)
    simp only [findConnection, hseq]
    cases hcreated : createConnection w.config o db with
    | ok c =>
      let s₂ : Workers := { s₁ with
        pc := Function.update s₁.pc t (.insert s.made.length)
        made := s.made ++ [t] }
      let s₃ : Workers := { s₂ with
        pc := Function.update s₂.pc t (.send s.made.length)
        connections := s.connections ++ [⟨t, s.made.length⟩]
        returned := s.returned ++ [⟨t, s.made.length⟩] }
      have hcreate : (poolMachine w.config).next s₁ (.create t o db) = some s₂ := by
        simp only [poolMachine, poolNext, hpc₁, hcreated]
        rfl
      have hpc₂ : s₂.pc t = .insert s.made.length := Function.update_self ..
      have hinsert : (poolMachine w.config).next s₂ (.insert t) = some s₃ := by
        simp only [poolMachine, poolNext, hpc₂]
        rfl
      refine ⟨s₃, .head hlookup (.head hcreate (.one hinsert)), ?_,
        fun _ => ⟨_, Function.update_self ..⟩, fun _ => rfl⟩
      simp [s₃, hw]
    | error message =>
      let s₂ : Workers := { s₁ with pc := Function.update s₁.pc t .idle }
      have hcreate : (poolMachine w.config).next s₁ (.create t o db) = some s₂ := by
        simp only [poolMachine, poolNext, hpc₁, hcreated, s₂]
      refine ⟨s₂, .head hlookup (.one hcreate), hw, fun h => absurd h Bool.false_ne_true, ?_⟩
      rintro ⟨c, hc⟩
      have hpc₂ : s₂.pc t = .idle := Function.update_self ..
      exact absurd (hpc₂.symm.trans hc) Pc.noConfusion

/-- A thread that has a connection is not about to make one, nor to insert one. -/
theorem outside_of_returned {c : Owned ℕ} (h : (poolMachine config).Reachable Machine.anyStep s)
    (hc : c ∈ s.returned) :
    s.pc c.owner ≠ .create ∧ ∀ connection, s.pc c.owner ≠ .insert connection := by
  have hphase : (s.pc c.owner).phase = .outside :=
    ExclusivePool.outside_of_returned (pool_reachable h) hc
  constructor
  · intro hpc
    rw [hpc] at hphase
    cases hphase
  · intro connection hpc
    rw [hpc] at hphase
    cases hphase

/-- A thread that has a connection is given it by its next lookup. -/
theorem lookup_of_returned {c : Owned ℕ} (h : (poolMachine config).Reachable Machine.anyStep s)
    (hc : c ∈ s.returned) (hn : poolNext config s (.lookup c.owner) = some s') :
    s'.returned = s.returned ++ [c] := by
  have hfind : ExclusivePool.find c.owner s.connections = some c.resource :=
    (ExclusivePool.exclusive (pool_reachable h)).later c hc
  simp only [poolNext, hfind] at hn
  split at hn
  · obtain rfl := Option.some.inj hn
    rfl
  · cases hn

/-- A connection that is not made changes nothing but where its thread is. -/
theorem create_failed {o : Outcomes} {db : Streams} {message : Bytes}
    (hcreated : createConnection config o db = .error message)
    (hn : poolNext config s (.create t o db) = some s') :
    s'.connections = s.connections ∧ s'.made = s.made ∧ s'.returned = s.returned := by
  simp only [poolNext, hcreated] at hn
  split at hn
  · obtain rfl := Option.some.inj hn
    exact ⟨rfl, rfl, rfl⟩
  · cases hn

end

end RedisWriter

/-- **One connection for each thread.**  In every state that the threads of a writer reach, each
of them has one connection in the pool, made by itself, and is given no other; having one, it finds
it in every call and makes none; a failed attempt leaves the pool as it was. -/
theorem one_connection_per_thread (config : RedisConfig) :
    (∀ s, PostgresWriter.poolMachine.Reachable Machine.anyStep s →
      Exclusive s.connections s.made s.returned ∧
      (∀ c ∈ s.returned, (∀ retriesLeft, s.pc c.owner ≠ .create retriesLeft) ∧
        ∀ s', PostgresWriter.poolNext s (.lookup c.owner) = some s' →
          s'.returned = s.returned ++ [c]) ∧
      ∀ t connect s', connect ≠ .done → PostgresWriter.poolNext s (.create t connect) = some s' →
        s'.connections = s.connections ∧ s'.made = s.made ∧ s'.returned = s.returned) ∧
    (∀ s, (RedisWriter.poolMachine config).Reachable Machine.anyStep s →
      Exclusive s.connections s.made s.returned ∧
      (∀ c ∈ s.returned, (s.pc c.owner ≠ .create ∧ ∀ r, s.pc c.owner ≠ .insert r) ∧
        ∀ s', RedisWriter.poolNext config s (.lookup c.owner) = some s' →
          s'.returned = s.returned ++ [c]) ∧
      ∀ t o db message s', RedisWriter.createConnection config o db = .error message →
        RedisWriter.poolNext config s (.create t o db) = some s' →
        s'.connections = s.connections ∧ s'.made = s.made ∧ s'.returned = s.returned) := by
  constructor
  · intro s hs
    refine ⟨ExclusivePool.exclusive (PostgresWriter.pool_reachable hs), ?_, ?_⟩
    · intro c hc
      exact ⟨PostgresWriter.ne_create_of_returned hs hc,
        fun s' hn => PostgresWriter.lookup_of_returned hs hc hn⟩
    · intro t connect s' hconnect hn
      exact PostgresWriter.create_failed hconnect hn
  · intro s hs
    refine ⟨ExclusivePool.exclusive (RedisWriter.pool_reachable hs), ?_, ?_⟩
    · intro c hc
      exact ⟨RedisWriter.outside_of_returned hs hc,
        fun s' hn => RedisWriter.lookup_of_returned hs hc hn⟩
    · intro t o db message s' hcreated hn
      exact RedisWriter.create_failed hcreated hn

/-- Two threads connect at the same time, one of them after a failure, and one calls again. -/
theorem one_connection_per_thread_sample :
    ∃ (s : PostgresWriter.Workers) (s' : RedisWriter.Workers),
      s.returned = [⟨2, 0⟩, ⟨1, 1⟩, ⟨1, 1⟩] ∧ Exclusive s.connections s.made s.returned ∧
      s'.returned = [⟨1, 1⟩, ⟨2, 0⟩, ⟨1, 1⟩] ∧ Exclusive s'.connections s'.made s'.returned := by
  let writes : List PostgresWriter.PoolEvent :=
    [.call 1, .call 2, .lookup 1, .lookup 2, .create 1 (.broken []), .create 2 .done, .lookup 1,
      .create 1 .done, .finish 1 .done, .call 1, .lookup 1]
  let adds : List RedisWriter.PoolEvent :=
    [.call 1, .call 2, .lookup 1, .lookup 2, .create 2 .fine fun _ => .empty,
      .create 1 .fine fun _ => .empty, .insert 1, .insert 2, .finish 1, .call 1, .lookup 1]
  obtain ⟨s, hs, hreturned⟩ := Machine.exists_of_runIf (M := PostgresWriter.poolMachine)
    (G := Machine.anyStep) (P := fun s => s.returned = [⟨2, 0⟩, ⟨1, 1⟩, ⟨1, 1⟩]) rfl writes
    (by decide)
  obtain ⟨s', hs', hreturned'⟩ := Machine.exists_of_runIf
    (M := RedisWriter.poolMachine ⟨[], []⟩) (G := Machine.anyStep)
    (P := fun s => s.returned = [⟨1, 1⟩, ⟨2, 0⟩, ⟨1, 1⟩]) rfl adds (by decide)
  obtain ⟨hpostgres, hredis⟩ := one_connection_per_thread ⟨[], []⟩
  exact ⟨s, s', hreturned, (hpostgres s hs).1, hreturned', (hredis s' hs').1⟩

end GatewayPoc
