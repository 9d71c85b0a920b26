import Sylphie.Database.TableName

/-!
# InitKvs — the startup pass of the KVS subsystem

`init_kvs` runs once per process start: it brings both metadata tables to their schema version,
loads every row of both `sylphie_db_kvs_info` tables into `module_metadata`, dispatches
`InitKvsEvent` so that every store declares its namespace (`init_module`, which creates the table
of a namespace seen for the first time), drops the tables of transient namespaces nobody declared,
and hands the map to the stores in `InitKvsLate`, where `BaseKvsStoreInfo::new` binds each store to
its table.

The database survives an aborted start: a committed `CREATE TABLE` or an executed `DROP TABLE` stays.
So the pass returns the database beside its outcome, and an error of `init_module` comes back with
the event as the last successful handler left it. The interner and the digest are parameters of
the whole pass.
-/

namespace Sylphie
namespace Database

/-- Why a start of the KVS subsystem stopped. -/
inductive InitError
  /-- An `anyhow` error the pass raises with `bail!`. -/
  | bail (msg : String)
  /-- An error the database reports. -/
  | sql (msg : String)
  /-- A panic: `todo!`, `assert_eq!`, an unknown interned id, the nonce overflowing. -/
  | panic (msg : String)
  deriving DecidableEq, Repr

/-- What a `BaseKvsStore<K, V, T>` passes to the pass: its module's name, `K::ID`,
`K::SCHEMA_VERSION`, `V::ID` and `T::IS_TRANSIENT`. -/
structure KvsStoreDecl where
  module : String
  keyId : String
  keyVersion : Nat
  valueId : String
  isTransient : Bool
  deriving DecidableEq, Repr

/-- The namespace a store declares. -/
def KvsStoreDecl.target (d : KvsStoreDecl) : KvsTarget := ⟨d.module, d.isTransient⟩

/-- `InitKvsEvent`: the accumulator every `init_kvs` handler mutates. -/
structure InitKvsEvent where
  foundModules : Finset String
  usedTableNames : Finset String
  moduleMetadata : ModuleMetadata
  conn : Db

/-- The event `init_kvs` starts from. -/
def InitKvsEvent.start (db : Db) : InitKvsEvent := ⟨∅, ∅, ∅, db⟩

/-- The error `init_module` raises for a module name seen twice. -/
def duplicateModuleError (module : String) : InitError :=
  .bail ("Duplicate KVS module name found: " ++ module)

/-- The panic of `todo!("Conversions for mismatched kvs versions.")`. -/
def mismatchPanic : InitError :=
  .panic "not yet implemented: Conversions for mismatched kvs versions."

/-- The panic of `unique_id += 1` at `u32::MAX`. -/
def overflowPanic : InitError := .panic "attempt to add with overflow"

/-- An error only `create_kvs_table` or `create_table_name` raise. -/
def InitError.IsCreateFailure : InitError → Prop
  | .sql _ => True
  | e => e = overflowPanic

section Pass

variable (interner : StringInterner) (hexDigest : String → String)

/-! ## Loading the metadata -/

/-- The loop of `load_kvs_metadata` over the rows `SELECT` returned. -/
def InitKvsEvent.loadRows (isTransient : Bool) : InitKvsEvent → List KvsInfoRow →
    Except InitError InitKvsEvent
  | ev, [] => .ok ev
  | ev, row :: rows =>
    if row.kvsSchemaVersion ≠ 0 then
      .error (.panic "This database was created with a future version of Sylphie.")
    else
      loadRows isTransient
        { ev with
          usedTableNames := insert row.tableName ev.usedTableNames
          moduleMetadata := ev.moduleMetadata.insert ⟨row.modulePath, isTransient⟩
            ⟨row.tableName, row.keyId, row.keyVersion, false⟩ }
        rows

/-- `load_kvs_metadata`: every row of the area's `sylphie_db_kvs_info`, unused so far. The table
exists once the area's migration set has run. -/
def InitKvsEvent.loadKvsMetadata (ev : InitKvsEvent) (isTransient : Bool) :
    Except InitError InitKvsEvent :=
  if (ev.conn.area isTransient).schemaVersion = 0 then
    .error (.sql "no such table: sylphie_db_kvs_info")
  else ev.loadRows isTransient (ev.conn.area isTransient).kvsInfo

/-! ## Declaring a namespace -/

/-- `create_kvs_table`: in one exclusive transaction, `CREATE TABLE` and the row of
`sylphie_db_kvs_info`; after the commit the name is used and the namespace known. -/
def InitKvsEvent.createKvsTable (ev : InitKvsEvent) (modulePath tableName keyId : String)
    (keyVersion : Nat) (isTransient : Bool) : Except InitError InitKvsEvent :=
  match (ev.conn.area isTransient).createTable tableName with
  | .error e => .error (.sql e)
  | .ok a =>
    .ok { ev with
      conn := ev.conn.setArea isTransient
        (a.insertInfo ⟨modulePath, tableName, 0, interner.lookupName keyId, keyVersion⟩)
      usedTableNames := insert tableName ev.usedTableNames
      moduleMetadata := ev.moduleMetadata.insert ⟨modulePath, isTransient⟩
        ⟨tableName, interner.lookupName keyId, keyVersion, true⟩ }

/-- `InitKvsEvent::init_module`. -/
def InitKvsEvent.initModule (ev : InitKvsEvent) (keyId : String) (keyVersion : Nat)
    (module : String) (isTransient : Bool) : Except InitError InitKvsEvent :=
  if module ∈ ev.foundModules then .error (duplicateModuleError module)
  else
    let ev := { ev with foundModules := insert module ev.foundModules }
    match ev.moduleMetadata.lookup ⟨module, isTransient⟩ with
    | some existing =>
      let ev := { ev with
        moduleMetadata := ev.moduleMetadata.insert ⟨module, isTransient⟩
          { existing with isUsed := true } }
      match interner.lookupId existing.keyId with
      | none => .error (.panic "lookup_id: unknown interned string id")
      | some existName =>
        if keyId = existName ∧ keyVersion = existing.keyVersion then .ok ev
        else .error mismatchPanic
    | none =>
      match createTableName hexDigest ev.usedTableNames module with
      | none => .error overflowPanic
      | some tableName => ev.createKvsTable interner module tableName keyId keyVersion isTransient

/-- `target.dispatch_sync(event)`: the stores' `init_kvs` handlers call `init_module` in order and
the first error stops the pass. The event the last successful handler left comes back with it. -/
def InitKvsEvent.initModules : InitKvsEvent → List KvsStoreDecl → InitKvsEvent × Option InitError
  | ev, [] => (ev, none)
  | ev, d :: ds =>
    match ev.initModule interner hexDigest d.keyId d.keyVersion d.module d.isTransient with
    | .ok ev' => initModules ev' ds
    | .error e => (ev, some e)

/-! ## Cleaning up and finishing -/

/-- The loop `drop unused transient tables` of `init_kvs` over `&module_metadata`. -/
def dropUnusedTransient : Db → List (Σ _ : KvsTarget, KvsMetadata) → Db × Option InitError
  | db, [] => (db, none)
  | db, ⟨key, metadata⟩ :: rest =>
    if !metadata.isUsed && key.isTransient then
      match (db.area key.isTransient).dropTable metadata.tableName with
      | .ok a => dropUnusedTransient (db.setArea key.isTransient a) rest
      | .error e => (db, some (.sql e))
    else dropUnusedTransient db rest

/-- `InitKvsLate`: the finished metadata map. -/
structure InitKvsLate where
  moduleMetadata : ModuleMetadata

/-- Both KVS migration sets, persistent first. -/
def migrateKvs (db : Db) : Db :=
  transientKvsMigrations.executeSync (persistentKvsMigrations.executeSync db)

/-- `init_kvs`: the database afterwards, and the late event or the error that stopped the start. -/
def initKvs (db : Db) (stores : List KvsStoreDecl) : Db × Except InitError InitKvsLate :=
  match (InitKvsEvent.start (migrateKvs db)).loadKvsMetadata false >>= (·.loadKvsMetadata true) with
  | .error e => (migrateKvs db, .error e)
  | .ok ev =>
    match ev.initModules interner hexDigest stores with
    | (ev, some e) => (ev.conn, .error e)
    | (ev, none) =>
      match dropUnusedTransient ev.conn ev.moduleMetadata.entries with
      | (db, some e) => (db, .error e)
      | (db, none) => (db, .ok ⟨ev.moduleMetadata⟩)

/-! ## Binding the stores -/

/-- `KvsStoreQueries::new(table)`: the REPLACE, DELETE and SELECT statements of a store, all
addressing the table `{transient.}{table_name}`. -/
structure KvsStoreQueries where
  isTransient : Bool
  tableName : String
  deriving DecidableEq, Repr

/-- `BaseKvsStoreInfo`: what a store holds after `init_kvs_late`. -/
structure BaseKvsStoreInfo where
  valueId : Nat
  queries : KvsStoreQueries
  deriving DecidableEq, Repr

/-- `BaseKvsStoreInfo::new`; `none` where the source's `unwrap` panics. -/
def BaseKvsStoreInfo.new (late : InitKvsLate) (module : String) (isTransient : Bool)
    (valueId : String) : Option BaseKvsStoreInfo :=
  (late.moduleMetadata.lookup ⟨module, isTransient⟩).map fun metadata =>
    ⟨interner.lookupName valueId, ⟨isTransient, metadata.tableName⟩⟩

/-- The info a store declared by `d` is bound to. -/
def KvsStoreDecl.bind (late : InitKvsLate) (d : KvsStoreDecl) : Option BaseKvsStoreInfo :=
  BaseKvsStoreInfo.new interner late d.module d.isTransient d.valueId

end Pass

/-! ## What one handler can do -/

section Spec

variable {interner : StringInterner} {hexDigest : String → String}

/-- A committed `create_kvs_table`: the table and its row exist, the name is used and the
namespace is known and used. -/
theorem InitKvsEvent.createKvsTable_eq_ok {ev ev' : InitKvsEvent}
    {modulePath tableName keyId : String} {keyVersion : Nat} {isTransient : Bool}
    (h : ev.createKvsTable interner modulePath tableName keyId keyVersion isTransient = .ok ev') :
    ∃ a, (ev.conn.area isTransient).createTable tableName = .ok a ∧
      ev' = { foundModules := ev.foundModules
              usedTableNames := insert tableName ev.usedTableNames
              moduleMetadata := ev.moduleMetadata.insert ⟨modulePath, isTransient⟩
                ⟨tableName, interner.lookupName keyId, keyVersion, true⟩
              conn := ev.conn.setArea isTransient
                (a.insertInfo ⟨modulePath, tableName, 0, interner.lookupName keyId, keyVersion⟩) } := by
  unfold InitKvsEvent.createKvsTable at h
  split at h
  · cases h
  · cases h
    exact ⟨_, ‹_›, rfl⟩

/-- A failed `create_kvs_table` fails on `CREATE TABLE`. -/
theorem InitKvsEvent.createKvsTable_eq_error {ev : InitKvsEvent}
    {modulePath tableName keyId : String} {keyVersion : Nat} {isTransient : Bool} {e : InitError}
    (h : ev.createKvsTable interner modulePath tableName keyId keyVersion isTransient = .error e) :
    e.IsCreateFailure := by
  unfold InitKvsEvent.createKvsTable at h
  split at h
  · cases h; trivial
  · cases h

/-- A handler that returns: the module is new, and its namespace was either known with the
declared key schema, or new and given a table. -/
theorem InitKvsEvent.initModule_eq_ok {ev ev' : InitKvsEvent} {keyId module : String}
    {keyVersion : Nat} {isTransient : Bool}
    (h : ev.initModule interner hexDigest keyId keyVersion module isTransient = .ok ev') :
    module ∉ ev.foundModules ∧
    ((∃ existing, ev.moduleMetadata.lookup ⟨module, isTransient⟩ = some existing ∧
        interner.lookupId existing.keyId = some keyId ∧ keyVersion = existing.keyVersion ∧
        ev' = { ev with
          foundModules := insert module ev.foundModules
          moduleMetadata := ev.moduleMetadata.insert ⟨module, isTransient⟩
            { existing with isUsed := true } }) ∨
     (∃ tableName, ev.moduleMetadata.lookup ⟨module, isTransient⟩ = none ∧
        createTableName hexDigest ev.usedTableNames module = some tableName ∧
        { ev with foundModules := insert module ev.foundModules }.createKvsTable interner module
          tableName keyId keyVersion isTransient = .ok ev')) := by
  simp only [InitKvsEvent.initModule] at h
  split_ifs at h with hfound
  refine ⟨hfound, ?_⟩
  split at h
  · rename_i existing hlookup
    split at h
    · cases h
    · rename_i existName hid
      split_ifs at h with hmatch
      cases h
      exact .inl ⟨existing, hlookup, hmatch.1 ▸ hid, hmatch.2, rfl⟩
  · split at h
    · cases h
    · exact .inr ⟨_, ‹_›, ‹_›, h⟩

/-- A handler that fails: a module seen before, a known namespace whose key schema differs, or a
table that could not be created. -/
theorem InitKvsEvent.initModule_eq_error {ev : InitKvsEvent} {keyId module : String}
    {keyVersion : Nat} {isTransient : Bool} {e : InitError}
    (h : ev.initModule interner hexDigest keyId keyVersion module isTransient = .error e) :
    (module ∈ ev.foundModules ∧ e = duplicateModuleError module) ∨
    (module ∉ ev.foundModules ∧ ∃ existing, ev.moduleMetadata.lookup ⟨module, isTransient⟩ = some existing ∧
      ¬ (interner.lookupId existing.keyId = some keyId ∧ keyVersion = existing.keyVersion)) ∨
    (module ∉ ev.foundModules ∧ ev.moduleMetadata.lookup ⟨module, isTransient⟩ = none ∧
      e.IsCreateFailure) := by
  simp only [InitKvsEvent.initModule] at h
  split_ifs at h with hfound
  · cases h
    exact .inl ⟨hfound, rfl⟩
  split at h
  · rename_i existing hlookup
    refine .inr (.inl ⟨hfound, existing, hlookup, fun ⟨hid, hver⟩ => ?_⟩)
    simp only [hid, hver, and_self, if_true] at h
    cases h
  · split at h
    · cases h
      exact .inr (.inr ⟨hfound, ‹_›, rfl⟩)
    · exact .inr (.inr ⟨hfound, ‹_›, InitKvsEvent.createKvsTable_eq_error h⟩)

/-- A store whose namespace is in the late map is bound to that namespace's table. -/
theorem KvsStoreDecl.bind_of_lookup {late : InitKvsLate} {d : KvsStoreDecl} {m : KvsMetadata}
    (h : late.moduleMetadata.lookup d.target = some m) :
    d.bind interner late = some ⟨interner.lookupName d.valueId, ⟨d.isTransient, m.tableName⟩⟩ := by
  simp only [KvsStoreDecl.bind, BaseKvsStoreInfo.new]
  rw [show (⟨d.module, d.isTransient⟩ : KvsTarget) = d.target from rfl, h]
  rfl

/-- `init_module` panics with the overflow of its `u32` nonce exactly for a module not declared
before whose namespace was not loaded and all of whose `2 ^ 32` probe names are in use. -/
theorem initModule_eq_overflow_iff {ev : InitKvsEvent} {keyId module : String} {keyVersion : Nat}
    {isTransient : Bool} :
    ev.initModule interner hexDigest keyId keyVersion module isTransient = .error overflowPanic ↔
      module ∉ ev.foundModules ∧ ev.moduleMetadata.lookup ⟨module, isTransient⟩ = none ∧
        ∀ n < 2 ^ 32, tableNameProbe hexDigest module n ∈ ev.usedTableNames := by
  simp only [InitKvsEvent.initModule]
  split_ifs with hfound
  · simp [hfound, duplicateModuleError, overflowPanic]
  split
  · rename_i existing hlookup
    simp only [hlookup, reduceCtorEq, false_and, and_false, iff_false]
    split
    · simp [overflowPanic]
    · split_ifs <;> simp [mismatchPanic, overflowPanic]
  · rename_i hlookup
    simp only [hfound, hlookup, not_false_eq_true, true_and]
    split
    · rename_i hname
      simpa using createTableName_eq_none_iff.mp hname
    · rename_i name hname
      have hsome : ¬ ∀ n < 2 ^ 32, tableNameProbe hexDigest module n ∈ ev.usedTableNames :=
        fun hall => by simp [createTableName_eq_none_iff.mpr hall] at hname
      simp only [hsome, iff_false]
      simp only [InitKvsEvent.createKvsTable]
      split <;> simp [overflowPanic]

end Spec

end Database
end Sylphie
