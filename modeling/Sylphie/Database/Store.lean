import Sylphie.Database.InitKvs

/-!
# Store — `BaseKvsStore` under concurrent calls

After `init_kvs_late` bound it to its table, a `BaseKvsStore<K, V, T>` serves `get`, `set` and
`remove`. Each call locks its key in `lock_set`, borrows a connection, and then either answers from
the cache (`get` on a cached key) or sends one statement to the table; the cache is written when the
statement's result comes back. A call suspends at exactly three points, the lock, the connection
and the statement, and its caller may drop it at any of them.

One store is modelled as a state machine. The state is the store's table, its cache and the calls
made so far, each at the point it stands at. An `Action` of the scheduler starts a call, moves one
call past one suspension point, drops one, or evicts a cache entry; `StoreEnv.step` is the
transition function and `StoreEnv.Steps` the interleavings it allows, restricted by a predicate on
the actions where a result needs one. The connection provider and the database may fail any
connection and any statement.

The collaborators that are not under `src/` are parameters modelled from the spec: the
`DbSerializable` formats, the interner, and `LruCache`, whose recency order is abstracted into
evictions that may happen at any time.
-/

namespace Sylphie
namespace Database

/-! ## Formats and errors -/

/-- A `DbSerializable` type, modelled from the spec (`crate::serializable` is not under `src/`):
its `Format`, its schema identity `ID` and `SCHEMA_VERSION`, and the migrations of a value type,
`can_migrate_from` and `do_migration`. -/
structure DbSerializable (α : Type) where
  id : String
  schemaVersion : Nat
  serialize : α → Except String Bytes
  deserialize : Bytes → Except String α
  canMigrateFrom : String → Nat → Bool
  doMigration : String → Nat → Bytes → Except String α

/-- `Format::deserialize` undoes `Format::serialize`: the spec's round-trip property. -/
def DbSerializable.RoundTrips (F : DbSerializable α) : Prop :=
  ∀ a bytes, F.serialize a = .ok bytes → F.deserialize bytes = .ok a

/-- Equal serializations come from equal values, so the table's `key` column tells the keys of the
cache and of `lock_set` apart. -/
def DbSerializable.Injective (F : DbSerializable α) : Prop :=
  ∀ a a' bytes, F.serialize a = .ok bytes → F.serialize a' = .ok bytes → a = a'

/-- Why a call failed. The source returns one `anyhow::Error`; the constructor records which
expression raised it. -/
inductive StoreError
  /-- `target.connect_db().await?` -/
  | connect (msg : String)
  /-- the statement itself -/
  | sql (msg : String)
  /-- `Format::serialize` or `Format::deserialize` -/
  | format (msg : String)
  /-- `V::do_migration` -/
  | migration (msg : String)
  /-- the `bail!` of `load_value` -/
  | bail (msg : String)
  /-- `lookup_id` of an id the interner never handed out -/
  | panic (msg : String)
  deriving DecidableEq, Repr

/-! ## Statements -/

/-- The three statements of `KvsStoreQueries`, with their bound parameters. -/
inductive Stmt
  /-- `store_query`: `REPLACE INTO {table} (key, value, value_schema_id, value_schema_ver)` -/
  | store (key : Bytes) (cell : Cell)
  /-- `delete_query`: `DELETE FROM {table} WHERE key = ?` -/
  | delete (key : Bytes)
  /-- `load_query`: `SELECT value, value_schema_id, value_schema_ver FROM {table} WHERE key = ?` -/
  | load (key : Bytes)
  deriving DecidableEq, Repr

/-- The table after the statement. -/
def Stmt.apply : Stmt → Table → Table
  | .store key cell, t => Function.update t key (some cell)
  | .delete key, t => Function.update t key none
  | .load _, t => t

/-- What the statement returns: the row `query_row` found, nothing for the other two. -/
def Stmt.result : Stmt → Table → Option Cell
  | .load key, t => t key
  | _, _ => none

/-- The row the statement addresses. -/
def Stmt.key : Stmt → Bytes
  | .store key _ | .delete key | .load key => key

/-- The table holds what the statement writes: running it again would change nothing. -/
def Stmt.Holds : Stmt → Table → Prop
  | .store key cell, t => t key = some cell
  | .delete key, t => t key = none
  | .load _, _ => True

theorem Stmt.apply_of_ne {stmt : Stmt} {t : Table} {key : Bytes} (h : key ≠ stmt.key) :
    stmt.apply t key = t key := by
  cases stmt <;> simp_all [Stmt.apply, Stmt.key, Function.update_noteq]

theorem Stmt.holds_apply (stmt : Stmt) (t : Table) : stmt.Holds (stmt.apply t) := by
  cases stmt <;> simp [Stmt.Holds, Stmt.apply]

theorem Stmt.result_apply (stmt : Stmt) (t : Table) : stmt.result (stmt.apply t) = stmt.result t := by
  cases stmt <;> rfl

/-- Result and `Holds` read the table at the statement's row only. -/
theorem Stmt.result_congr {stmt : Stmt} {t t' : Table} (h : t stmt.key = t' stmt.key) :
    stmt.result t = stmt.result t' := by
  cases stmt <;> simp_all [Stmt.result, Stmt.key]

theorem Stmt.holds_congr {stmt : Stmt} {t t' : Table} (h : t stmt.key = t' stmt.key) :
    stmt.Holds t ↔ stmt.Holds t' := by
  cases stmt <;> simp_all [Stmt.Holds, Stmt.key]

/-- `KvsStoreQueries::load_value` once its `SELECT` returned `result`. -/
def loadValue (F : DbSerializable α) (interner : StringInterner) (isMigrationMandatory : Bool) :
    Option Cell → Except StoreError (Option α)
  | none => .ok none
  | some ⟨bytes, schemaId, schemaVer⟩ =>
    match interner.lookupId schemaId with
    | none => .error (.panic "lookup_id: unknown interned string id")
    | some schemaName =>
      if F.id = schemaName ∧ F.schemaVersion = schemaVer then
        match F.deserialize bytes with
        | .ok v => .ok (some v)
        | .error e => .error (.format e)
      else if F.canMigrateFrom schemaName schemaVer then
        match F.doMigration schemaName schemaVer bytes with
        | .ok v => .ok (some v)
        | .error e => .error (.migration e)
      else if !isMigrationMandatory then .ok none
      else .error (.bail ("Could not migrate value to current schema version! (old: " ++
        schemaName ++ " v" ++ toString schemaId ++ ", new: " ++ F.id ++ " v" ++
        toString F.schemaVersion ++ ")"))

/-- A row with the value type's exact schema identity decodes through the first branch. -/
theorem loadValue_exact {F : DbSerializable α} {interner : StringInterner} {mandatory : Bool}
    {bytes : Bytes} {schemaId : Nat} {a : α} (hid : interner.lookupId schemaId = some F.id)
    (hdec : F.deserialize bytes = .ok a) :
    loadValue F interner mandatory (some ⟨bytes, schemaId, F.schemaVersion⟩) = .ok (some a) := by
  simp [loadValue, hid, hdec]

/-- A public operation of the store. -/
inductive Op (K V : Type)
  | get (k : K)
  | set (k : K) (v : V)
  | remove (k : K)
  deriving DecidableEq, Repr

/-- The key whose lock the call takes. -/
def Op.key : Op K V → K
  | .get k | .set k _ | .remove k => k

/-- `set` and `remove` write the table. -/
def Op.isWrite : Op K V → Bool
  | .get _ => false
  | .set _ _ | .remove _ => true

/-- Where a call stands: one of its three suspension points, between the statement and the next
poll, or finished. `set` and `remove` return `Ok(())`, written `.ok none`. -/
inductive Pc (V : Type)
  /-- awaiting `lock_set.lock(k)` -/
  | lock
  /-- holding the lock, awaiting `target.connect_db()` -/
  | connect
  /-- the statement is sent -/
  | query (stmt : Stmt)
  /-- the statement's result is in; the task has not been polled since -/
  | ran (result : Except StoreError (Option Cell))
  /-- returned -/
  | done (result : Except StoreError (Option V))
  /-- dropped by its caller -/
  | abandoned
  deriving Repr

/-- The `_guard` of `lock_set.lock(k)` is alive. -/
def Pc.holdsLock : Pc V → Bool
  | .connect | .query _ | .ran _ => true
  | _ => false

/-- The call can still be dropped. -/
def Pc.pending : Pc V → Bool
  | .done _ | .abandoned => false
  | _ => true

/-- One call of the store. -/
structure Call (K V : Type) where
  op : Op K V
  pc : Pc V

/-- The store: its table, its cache `LruCache<K, Option<V>>` (an entry `none` is a cached absence),
and every call made so far, by the order they were made in. -/
structure Store (K V : Type) where
  table : Table
  cache : K → Option (Option V)
  calls : List (Call K V)

/-- A store just bound, on a table holding `table`. -/
def Store.init (table : Table) : Store K V := ⟨table, fun _ => none, []⟩

/-- Call `i` moves to `c`. -/
def Store.setCall (s : Store K V) (i : Nat) (c : Call K V) : Store K V :=
  { s with calls := s.calls.set i c }

/-- The database executes call `i`'s statement: its effect on the table and its result, or the
error it fails with and no effect. -/
def Store.run (s : Store K V) (i : Nat) (op : Op K V) (stmt : Stmt) : Except String Unit → Store K V
  | .ok () => { s.setCall i ⟨op, .ran (.ok (stmt.result s.table))⟩ with table := stmt.apply s.table }
  | .error e => s.setCall i ⟨op, .ran (.error (.sql e))⟩

section Locks

variable [DecidableEq K]

/-- Some call holds the lock of `k`. -/
def Store.locked (s : Store K V) (k : K) : Bool :=
  s.calls.any fun c => decide (c.op.key = k) && c.pc.holdsLock

/-- `cache.insert(k, v)`, when the call inserts. -/
def Store.write (s : Store K V) (k : K) : Option (Option V) → Store K V
  | some v => { s with cache := Function.update s.cache k (some v) }
  | none => s

end Locks

/-! ## One store -/

/-- What a store runs with: its key and value types, the interner, and the `BaseKvsStoreInfo` that
`init_kvs_late` bound (`value_id`, and the queries, whose area is `T::IS_TRANSIENT`). -/
structure StoreEnv (K V : Type) where
  keyType : DbSerializable K
  valueType : DbSerializable V
  interner : StringInterner
  info : BaseKvsStoreInfo

/-- A scheduler's move. -/
inductive Action (K V : Type)
  /-- a caller starts an operation -/
  | call (op : Op K V)
  /-- call `i` gets its key's lock -/
  | acquire (i : Nat)
  /-- call `i`'s `connect_db` returns -/
  | connect (i : Nat) (result : Except String Unit)
  /-- call `i`'s statement executes, or fails -/
  | run (i : Nat) (result : Except String Unit)
  /-- call `i` is polled after its statement's result came in -/
  | resume (i : Nat)
  /-- call `i`'s caller drops it -/
  | abandon (i : Nat)
  /-- the cache drops the entry of `k` -/
  | evict (k : K)

namespace StoreEnv

variable (E : StoreEnv K V)

/-- `load_value` with `is_migration_mandatory = !T::IS_TRANSIENT`. -/
def load : Option Cell → Except StoreError (Option V) :=
  loadValue E.valueType E.interner !E.info.queries.isTransient

/-- What `load_value` would answer for `k` if its `SELECT` ran now. -/
def current (s : Store K V) (k : K) : Except StoreError (Option V) :=
  match E.keyType.serialize k with
  | .error e => .error (.format e)
  | .ok key => E.load (s.table key)

/-- The statement `load_value`, `store_value` or `delete_value` sends for `op`, with its bound
parameters, or the serialization error raised before it is sent. -/
def statement : Op K V → Except StoreError Stmt
  | .get k =>
    match E.keyType.serialize k with
    | .error e => .error (.format e)
    | .ok key => .ok (.load key)
  | .set k v =>
    match E.keyType.serialize k, E.valueType.serialize v with
    | .error e, _ => .error (.format e)
    | .ok _, .error e => .error (.format e)
    | .ok key, .ok value => .ok (.store key ⟨value, E.info.valueId, E.valueType.schemaVersion⟩)
  | .remove k =>
    match E.keyType.serialize k with
    | .error e => .error (.format e)
    | .ok key => .ok (.delete key)

/-- The synchronous run of a call from `connect_db` returning to its next suspension point. A
failed connection returns at once (`?`). With a connection, `get` asks the cache first
(`cached_async`) and returns a cached entry; on a miss, like `set` and `remove`, it sends its
statement. -/
def connected (cache : K → Option (Option V)) (op : Op K V) : Except String Unit → Pc V
  | .error e => .done (.error (.connect e))
  | .ok () =>
    match op, cache op.key with
    | .get _, some v => .done (.ok v)
    | _, _ =>
      match E.statement op with
      | .ok stmt => .query stmt
      | .error e => .done (.error e)

/-- The synchronous run of a call after its statement's result: how it returns, and the value it
inserts into the cache. `cached_async` caches what `load_value` returned `Ok`; `set` and `remove`
insert after their statement succeeded. -/
def resumed : Op K V → Except StoreError (Option Cell) → Pc V × Option (Option V)
  | _, .error e => (.done (.error e), none)
  | .get _, .ok row =>
    match E.load row with
    | .error e => (.done (.error e), none)
    | .ok v => (.done (.ok v), some v)
  | .set _ v, .ok _ => (.done (.ok none), some (some v))
  | .remove _, .ok _ => (.done (.ok none), some none)

variable [DecidableEq K]

/-- One move of the scheduler, `none` when it is not enabled. -/
def step (s : Store K V) : Action K V → Option (Store K V)
  | .call op => some { s with calls := s.calls ++ [⟨op, .lock⟩] }
  | .acquire i =>
    match s.calls[i]? with
    | some ⟨op, .lock⟩ => if s.locked op.key then none else some (s.setCall i ⟨op, .connect⟩)
    | _ => none
  | .connect i r =>
    match s.calls[i]? with
    | some ⟨op, .connect⟩ => some (s.setCall i ⟨op, E.connected s.cache op r⟩)
    | _ => none
  | .run i r =>
    match s.calls[i]? with
    | some ⟨op, .query stmt⟩ => some (s.run i op stmt r)
    | _ => none
  | .resume i =>
    match s.calls[i]? with
    | some ⟨op, .ran r⟩ => some ((s.setCall i ⟨op, (E.resumed op r).1⟩).write op.key (E.resumed op r).2)
    | _ => none
  | .abandon i =>
    match s.calls[i]? with
    | some ⟨op, pc⟩ => if pc.pending then some (s.setCall i ⟨op, .abandoned⟩) else none
    | none => none
  | .evict k => some { s with cache := Function.update s.cache k none }

/-- The interleavings from `s` to `s'` whose every action satisfies `ok` where it is taken. -/
inductive Steps (ok : Store K V → Action K V → Prop) : Store K V → Store K V → Prop
  | refl (s : Store K V) : Steps ok s s
  | tail {s s' s'' : Store K V} {a : Action K V} : Steps ok s s' → ok s' a →
      E.step s' a = some s'' → Steps ok s s''

/-- The states of some interleaving from a store just bound. -/
def Reachable (s : Store K V) : Prop := ∃ table, E.Steps (fun _ _ => True) (Store.init table) s

/-- Run the actions in order; `none` once one is not enabled. -/
def exec (s : Store K V) : List (Action K V) → Option (Store K V)
  | [] => some s
  | a :: as => (E.step s a).bind fun s' => exec s' as

end StoreEnv

/-! ## What one move does -/

section Moves

variable {s s' : Store K V} {i : Nat}

theorem Store.setCall_calls {c₀ c : Call K V} (h : s.calls[i]? = some c₀) (j : Nat) :
    (s.setCall i c).calls[j]? = if j = i then some c else s.calls[j]? := by
  have hi : i < s.calls.length := (List.getElem?_eq_some_iff.mp h).1
  by_cases hj : j = i
  · subst hj; simp [Store.setCall, hi]
  · simp [Store.setCall, List.getElem?_set_ne (Ne.symm hj), hj]

@[simp] theorem Store.setCall_table {c : Call K V} : (s.setCall i c).table = s.table := rfl
@[simp] theorem Store.setCall_cache {c : Call K V} : (s.setCall i c).cache = s.cache := rfl

variable {E : StoreEnv K V}

/-! ### The pieces of a move -/

section Pieces

variable {k : K} {v : V} {stmt : Stmt}

theorem StoreEnv.statement_get :
    E.statement (.get k) = .ok stmt ↔ ∃ key, E.keyType.serialize k = .ok key ∧ stmt = .load key := by
  cases hk : E.keyType.serialize k <;> simp [StoreEnv.statement, hk, eq_comm]

theorem StoreEnv.statement_set :
    E.statement (.set k v) = .ok stmt ↔ ∃ key value, E.keyType.serialize k = .ok key ∧
      E.valueType.serialize v = .ok value ∧
      stmt = .store key ⟨value, E.info.valueId, E.valueType.schemaVersion⟩ := by
  cases hk : E.keyType.serialize k <;> cases hv : E.valueType.serialize v <;>
    simp [StoreEnv.statement, hk, hv, eq_comm]

theorem StoreEnv.statement_remove :
    E.statement (.remove k) = .ok stmt ↔ ∃ key, E.keyType.serialize k = .ok key ∧ stmt = .delete key := by
  cases hk : E.keyType.serialize k <;> simp [StoreEnv.statement, hk, eq_comm]

/-- A statement addresses the row of its call's key. -/
theorem StoreEnv.statement_key {op : Op K V} (h : E.statement op = .ok stmt) :
    E.keyType.serialize op.key = .ok stmt.key := by
  cases op with
  | get k => obtain ⟨key, hk, rfl⟩ := StoreEnv.statement_get.mp h; exact hk
  | set k v => obtain ⟨key, value, hk, -, rfl⟩ := StoreEnv.statement_set.mp h; exact hk
  | remove k => obtain ⟨key, hk, rfl⟩ := StoreEnv.statement_remove.mp h; exact hk

/-- A call sends its statement after a connection, and a `get` only on a cache miss. -/
theorem StoreEnv.connected_eq_query {cache : K → Option (Option V)} {op : Op K V}
    {r : Except String Unit} (h : E.connected cache op r = .query stmt) :
    r = .ok () ∧ E.statement op = .ok stmt ∧ ∀ k, op = .get k → cache k = none := by
  cases r with
  | error e => simp [StoreEnv.connected] at h
  | ok u =>
    simp only [StoreEnv.connected] at h
    split at h
    · cases h
    · rename_i hmiss
      split at h
      · cases h
        refine ⟨rfl, ‹_›, fun k hk => ?_⟩
        subst hk
        cases hc : cache k
        · rfl
        · exact (hmiss _ _ rfl hc).elim
      · cases h

/-- After the connection a call has sent its statement or returned. -/
theorem StoreEnv.connected_cases (cache : K → Option (Option V)) (op : Op K V)
    (r : Except String Unit) :
    (∃ stmt, E.connected cache op r = .query stmt) ∨ ∃ res, E.connected cache op r = .done res := by
  cases r with
  | error e => exact .inr ⟨_, rfl⟩
  | ok u =>
    simp only [StoreEnv.connected]
    split
    · exact .inr ⟨_, rfl⟩
    · split
      · exact .inl ⟨_, rfl⟩
      · exact .inr ⟨_, rfl⟩

/-- After its statement's result a call returns. -/
theorem StoreEnv.resumed_done (op : Op K V) (r : Except StoreError (Option Cell)) :
    ∃ res, (E.resumed op r).1 = .done res := by
  unfold StoreEnv.resumed
  split
  · exact ⟨_, rfl⟩
  · split <;> exact ⟨_, rfl⟩
  · exact ⟨_, rfl⟩
  · exact ⟨_, rfl⟩

/-- A `set` or `remove` never returns `Ok` at its connection. -/
theorem StoreEnv.connected_write_ne_ok {cache : K → Option (Option V)} {op : Op K V}
    {r : Except String Unit} {v : Option V} (hw : op.isWrite = true) :
    E.connected cache op r ≠ .done (.ok v) := by
  cases r with
  | error e => simp [StoreEnv.connected]
  | ok u =>
    cases op with
    | get k => simp [Op.isWrite] at hw
    | set k w => simp only [StoreEnv.connected]; split <;> simp
    | remove k => simp only [StoreEnv.connected]; split <;> simp

/-- How a `get` returns at its connection: the provider's error, the cached entry, or the error
raised before its `SELECT`. -/
theorem StoreEnv.connected_get_done {cache : K → Option (Option V)} {r : Except String Unit}
    {res : Except StoreError (Option V)} (h : E.connected cache (.get k) r = .done res) :
    (∃ e, r = .error e ∧ res = .error (.connect e)) ∨ (∃ c, cache k = some c ∧ res = .ok c) ∨
      ∃ e, E.statement (.get k) = .error e ∧ res = .error e := by
  cases r with
  | error e => simp only [StoreEnv.connected, Pc.done.injEq] at h; exact .inl ⟨e, rfl, h.symm⟩
  | ok u =>
    cases hc : cache k with
    | some c =>
      simp only [StoreEnv.connected, Op.key, hc, Pc.done.injEq] at h
      exact .inr (.inl ⟨c, rfl, h.symm⟩)
    | none =>
      simp only [StoreEnv.connected, Op.key, hc] at h
      split at h
      · cases h
      · simp only [Pc.done.injEq] at h
        exact .inr (.inr ⟨_, ‹_›, h.symm⟩)

/-- How a `get` returns after its `SELECT`: the statement's error, or what `load_value` decoded. -/
theorem StoreEnv.resumed_get_done {r : Except StoreError (Option Cell)}
    {res : Except StoreError (Option V)} (h : (E.resumed (.get k) r).1 = .done res) :
    (∃ e, r = .error e ∧ res = .error e) ∨ ∃ row, r = .ok row ∧ res = E.load row := by
  cases r with
  | error e => simp only [StoreEnv.resumed, Pc.done.injEq] at h; exact .inl ⟨e, rfl, h.symm⟩
  | ok row =>
    refine .inr ⟨row, rfl, ?_⟩
    simp only [StoreEnv.resumed] at h
    split at h <;> simp_all

/-- What a `get` inserts after its `SELECT` is what `load_value` decoded. -/
theorem StoreEnv.resumed_get_insert {r : Except StoreError (Option Cell)} {c : Option V}
    (h : (E.resumed (.get k) r).2 = some c) : ∃ row, r = .ok row ∧ E.load row = .ok c := by
  cases r with
  | error e => simp [StoreEnv.resumed] at h
  | ok row =>
    refine ⟨row, rfl, ?_⟩
    simp only [StoreEnv.resumed] at h
    split at h <;> simp_all

/-- A `set` or `remove` inserts only after its statement succeeded. -/
theorem StoreEnv.resumed_write_insert {op : Op K V} {r : Except StoreError (Option Cell)}
    {c : Option V} (hw : op.isWrite = true) (h : (E.resumed op r).2 = some c) :
    ∃ row, r = .ok row ∧ ((∃ k v, op = .set k v ∧ c = some v) ∨ ∃ k, op = .remove k ∧ c = none) := by
  cases r with
  | error e => simp [StoreEnv.resumed] at h
  | ok row =>
    refine ⟨row, rfl, ?_⟩
    cases op with
    | get k => simp [Op.isWrite] at hw
    | set k v => simp only [StoreEnv.resumed, Option.some.injEq] at h; exact .inl ⟨k, v, rfl, h.symm⟩
    | remove k => simp only [StoreEnv.resumed, Option.some.injEq] at h; exact .inr ⟨k, rfl, h.symm⟩

end Pieces

variable [DecidableEq K]

theorem Store.locked_eq_true {k : K} : s.locked k = true ↔
    ∃ (j : Nat) (c : Call K V), s.calls[j]? = some c ∧ c.op.key = k ∧ c.pc.holdsLock = true := by
  simp only [Store.locked, List.any_eq_true, Bool.and_eq_true, decide_eq_true_eq,
    List.mem_iff_getElem?]
  constructor
  · rintro ⟨c, ⟨j, hj⟩, hk, hl⟩; exact ⟨j, c, hj, hk, hl⟩
  · rintro ⟨j, c, hj, hk, hl⟩; exact ⟨c, ⟨j, hj⟩, hk, hl⟩
@[simp] theorem Store.write_table {k : K} {v : Option (Option V)} : (s.write k v).table = s.table := by
  cases v <;> rfl
@[simp] theorem Store.write_calls {k : K} {v : Option (Option V)} : (s.write k v).calls = s.calls := by
  cases v <;> rfl

theorem Store.write_cache_of_ne {k k' : K} {v : Option (Option V)} (h : k' ≠ k) :
    (s.write k v).cache k' = s.cache k' := by
  cases v <;> simp [Store.write, Function.update_noteq h]

@[simp] theorem Store.write_cache_self {k : K} {v : Option V} :
    (s.write k (some v)).cache k = some v := by
  simp [Store.write]

theorem StoreEnv.step_acquire (h : E.step s (.acquire i) = some s') :
    ∃ op, s.calls[i]? = some ⟨op, .lock⟩ ∧ s.locked op.key = false ∧
      s' = s.setCall i ⟨op, .connect⟩ := by
  simp only [StoreEnv.step] at h
  split at h
  · rename_i op hc
    split_ifs at h with hl
    simp only [Option.some.injEq] at h
    exact ⟨op, hc, by simpa using hl, h.symm⟩
  · cases h

theorem StoreEnv.step_connect {r : Except String Unit} (h : E.step s (.connect i r) = some s') :
    ∃ op, s.calls[i]? = some ⟨op, .connect⟩ ∧ s' = s.setCall i ⟨op, E.connected s.cache op r⟩ := by
  simp only [StoreEnv.step] at h
  split at h
  · simp only [Option.some.injEq] at h
    exact ⟨_, ‹_›, h.symm⟩
  · cases h

theorem StoreEnv.step_run {r : Except String Unit} (h : E.step s (.run i r) = some s') :
    ∃ op stmt, s.calls[i]? = some ⟨op, .query stmt⟩ ∧ s' = s.run i op stmt r := by
  simp only [StoreEnv.step] at h
  split at h
  · simp only [Option.some.injEq] at h
    exact ⟨_, _, ‹_›, h.symm⟩
  · cases h

theorem StoreEnv.step_resume (h : E.step s (.resume i) = some s') :
    ∃ op r, s.calls[i]? = some ⟨op, .ran r⟩ ∧
      s' = (s.setCall i ⟨op, (E.resumed op r).1⟩).write op.key (E.resumed op r).2 := by
  simp only [StoreEnv.step] at h
  split at h
  · simp only [Option.some.injEq] at h
    exact ⟨_, _, ‹_›, h.symm⟩
  · cases h

theorem StoreEnv.step_abandon (h : E.step s (.abandon i) = some s') :
    ∃ c, s.calls[i]? = some c ∧ c.pc.pending = true ∧ s' = s.setCall i ⟨c.op, .abandoned⟩ := by
  simp only [StoreEnv.step] at h
  split at h
  · split_ifs at h with hp
    simp only [Option.some.injEq] at h
    exact ⟨_, ‹_›, hp, h.symm⟩
  · cases h


/-- An interleaving can be taken apart at its first move. -/
theorem StoreEnv.Steps.head {ok : Store K V → Action K V → Prop} {s₀ s₁ s₂ : Store K V}
    {a : Action K V} (hok : ok s₀ a) (h : E.step s₀ a = some s₁) (hs : E.Steps ok s₁ s₂) :
    E.Steps ok s₀ s₂ := by
  induction hs with
  | refl => exact .tail (.refl _) hok h
  | tail _ hok' h' ih => exact .tail ih hok' h'

/-- A run of actions that `ok` allows from every state is an interleaving under `ok`. -/
theorem StoreEnv.exec_steps_of {ok : Store K V → Action K V → Prop} :
    ∀ {s s' : Store K V} {as : List (Action K V)}, (∀ a ∈ as, ∀ t, ok t a) →
      E.exec s as = some s' → E.Steps ok s s'
  | s, s', [], _, h => by
    simp only [StoreEnv.exec, Option.some.injEq] at h
    exact h ▸ .refl s
  | s, s', a :: as, hok, h => by
    simp only [StoreEnv.exec, Option.bind_eq_some] at h
    obtain ⟨s₁, h₁, h₂⟩ := h
    exact StoreEnv.Steps.head (hok a (List.mem_cons_self _ _) s) h₁
      (StoreEnv.exec_steps_of (fun b hb => hok b (List.mem_cons_of_mem _ hb)) h₂)

/-- A run of the actions is an interleaving. -/
theorem StoreEnv.exec_steps {s s' : Store K V} {as : List (Action K V)}
    (h : E.exec s as = some s') : E.Steps (fun _ _ => True) s s' :=
  E.exec_steps_of (fun _ _ _ => trivial) h

end Moves

/-! ## A store of bytes -/

/-- Bytes stored as themselves: one byte serializes to a one-byte buffer. -/
def byteFormat (id : String) : DbSerializable UInt8 where
  id := id
  schemaVersion := 1
  serialize b := .ok [b]
  deserialize
    | [b] => .ok b
    | _ => .error "expected one byte"
  canMigrateFrom _ _ := false
  doMigration _ _ _ := .error "no migration"

theorem byteFormat_injective (id : String) : (byteFormat id).Injective := by
  intro a a' bytes h h'
  simp only [byteFormat, Except.ok.injEq] at h h'
  simpa using h.trans h'.symm

theorem byteFormat_roundTrips (id : String) : (byteFormat id).RoundTrips := by
  intro a bytes h
  simp only [byteFormat, Except.ok.injEq] at h
  subst h
  rfl

/-- A store of bytes keyed by bytes, bound to a table with value id 0, which the interner maps back
to the value type's name. -/
def byteStore (isTransient : Bool) : StoreEnv UInt8 UInt8 where
  keyType := byteFormat "k"
  valueType := byteFormat "v"
  interner := ⟨fun _ => 0, fun n => if n = 0 then some "v" else none⟩
  info := ⟨0, ⟨isTransient, "sylphie_db_kvsdata_0|m"⟩⟩

end Database
end Sylphie
