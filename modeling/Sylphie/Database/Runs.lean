import Sylphie.Database.Invariant

/-!
# Runs — the KVS database across process starts

Every process start runs `init_kvs` once on whatever the previous starts left on disk. `Starts db db'`
says that some sequence of starts, each with its own stores and each successful or not, leads from
`db` to `db'`; by `initKvs_wellFormed`, every such database is well formed and keeps the rows and
the persistent tables of `db` (`Starts.wellFormed`).

Over such histories:

* the table names of the metadata rows of both areas stay pairwise distinct, and the stores of a
  successful start are bound to pairwise distinct tables (`table_names_distinct`);
* a persistent namespace keeps its row, its table and the table's rows across every later start,
  and every later successful start binds its stores to that same table (`persistent_namespace_durable`);
* the cleanup loop drops the table of a transient namespace nobody declared, but not its row
  (`initKvs_undeclared_transient`), so no later start that leaves the namespace out succeeds
  (`initKvs_missing_transient_table`): it finds no table to drop (`transient_row_outlives_table`);
* every table of either area is named by exactly one row of its area, and every persistent row
  names a table (`starts_metadata_shape`); no start loses a row or changes a persistent table
  (`starts_keep_persistent`);
* the key schema of a namespace is fixed by the first start that declares it: no later start
  succeeds that declares the namespace again with another key type or key version
  (`key_schema_fixed`), since `init_module` has no migration for keys;
* a restart with the stores of the last successful start changes nothing and binds every store to
  the same table, as long as every transient row belongs to one of those stores
  (`restart_unchanged`).

A start on a database that a later version wrote, one with a row of KVS schema version other than
0, never succeeds and creates or drops no table and no row (`future_schema_untouched`).

The start's SQL is modelled by its effect: `CREATE TABLE` fails on a taken name and `DROP TABLE` on
a missing one, and no other statement of a start (the connection, the migration scripts, the
metadata `SELECT`, the `INSERT` and the commit) fails. The results above that a start fails hold
whatever else fails; those that it succeeds assume that nothing else does.
-/

namespace Sylphie
namespace Database

section Runs

variable (interner : StringInterner) (hexDigest : String → String)

/-- `Starts db db'`: process starts, one after another and each with its own stores, lead from `db`
to `db'`, whether each of them succeeded or not. -/
inductive Starts : Db → Db → Prop
  | refl (db : Db) : Starts db db
  | tail {db db' : Db} (stores : List KvsStoreDecl) : Starts db db' →
      Starts db (initKvs interner hexDigest db' stores).1

/-- The steps of a successful start from `db`: the pass turns the loaded event `ev`, where every row
of `db` is known and unused, into `ev'`, and the cleanup turns `ev'.conn` into `db'`. -/
structure InitKvsOk (db : Db) (stores : List KvsStoreDecl) (ev ev' : InitKvsEvent) (db' : Db) :
    Prop where
  loaded : ∀ b, ∀ r ∈ (db.area b).kvsInfo, ev.moduleMetadata.lookup ⟨r.modulePath, b⟩ =
    some ⟨r.tableName, r.keyId, r.keyVersion, false⟩
  pass : PassInv interner ev stores ev'
  inv : EventInv ev'
  frame : db.Extends ev'.conn
  cleanup : dropUnusedTransient ev'.conn ev'.moduleMetadata.entries = (db', none)

variable {interner hexDigest}

theorem Starts.wellFormed {db db' : Db} (h : Starts interner hexDigest db db')
    (hwf : db.WellFormed) : db'.WellFormed ∧ db.Keeps db' := by
  induction h with
  | refl => exact ⟨hwf, Db.Keeps.refl _⟩
  | tail stores _ ih =>
    obtain ⟨hwf', hkeep⟩ := initKvs_wellFormed ih.1 stores
    exact ⟨hwf', ih.2.trans hkeep⟩

theorem InitKvsOk.drops {db db' : Db} {stores : List KvsStoreDecl} {ev ev' : InitKvsEvent}
    (h : InitKvsOk interner db stores ev ev' db') : ev'.conn.DropsTransient db' := by
  have := dropUnusedTransient_drops ev'.conn ev'.moduleMetadata.entries
  rwa [h.cleanup] at this

/-! ## Loading never fails on a well-formed database -/

/-- The migration sets leave both areas at a version where `sylphie_db_kvs_info` exists. -/
theorem migrateKvs_schemaVersion (db : Db) (b : Bool) :
    ((migrateKvs db).area b).schemaVersion ≠ 0 := by
  cases b <;> simp only [migrateKvs, MigrationData.executeSync, persistentKvsMigrations,
    transientKvsMigrations, runScripts] <;> split_ifs <;> simp_all <;> omega

/-- Rows of schema version 0 load. -/
theorem InitKvsEvent.loadRows_ok (b : Bool) : ∀ (ev : InitKvsEvent) {rows : List KvsInfoRow},
    (∀ r ∈ rows, r.kvsSchemaVersion = 0) → ∃ ev', ev.loadRows b rows = .ok ev'
  | ev, [], _ => ⟨ev, rfl⟩
  | ev, row :: rows, h => by
    rw [InitKvsEvent.loadRows, if_neg (not_not.mpr (h row (List.mem_cons_self _ _)))]
    exact InitKvsEvent.loadRows_ok b _ fun r hr => h r (List.mem_cons_of_mem _ hr)

/-- Both `load_kvs_metadata` calls of a start on a well-formed database succeed. -/
theorem loadBoth_ok {db : Db} (hwf : db.WellFormed) :
    ∃ ev, (InitKvsEvent.start (migrateKvs db)).loadKvsMetadata false >>=
      (·.loadKvsMetadata true) = .ok ev := by
  have hv := hwf.migrateKvs.version_zero
  obtain ⟨ev₁, h₁⟩ := InitKvsEvent.loadRows_ok false (InitKvsEvent.start (migrateKvs db)) (hv false)
  have hc₁ : ev₁.conn = migrateKvs db := (InitKvsEvent.loadRows_eq_ok h₁).1
  obtain ⟨ev₂, h₂⟩ := InitKvsEvent.loadRows_ok true ev₁ (hc₁ ▸ hv true)
  have hl₁ : (InitKvsEvent.start (migrateKvs db)).loadKvsMetadata false = .ok ev₁ :=
    (if_neg (migrateKvs_schemaVersion db false)).trans h₁
  have hl₂ : ev₁.loadKvsMetadata true = .ok ev₂ :=
    (if_neg (by rw [hc₁]; exact migrateKvs_schemaVersion db true)).trans h₂
  exact ⟨ev₂, by rw [hl₁]; exact hl₂⟩

/-- `load_kvs_metadata`'s loop fails exactly on a row of a future KVS schema version. -/
theorem InitKvsEvent.loadRows_eq_error_iff (b : Bool) {e : InitError} :
    ∀ (ev : InitKvsEvent) (rows : List KvsInfoRow), ev.loadRows b rows = .error e ↔
      (∃ r ∈ rows, r.kvsSchemaVersion ≠ 0) ∧
        e = .panic "This database was created with a future version of Sylphie."
  | ev, [] => by simp [InitKvsEvent.loadRows]
  | ev, row :: rows => by
    rw [InitKvsEvent.loadRows]
    split_ifs with h
    · constructor
      · intro he
        cases he
        exact ⟨⟨row, List.mem_cons_self _ _, h⟩, rfl⟩
      · rintro ⟨-, rfl⟩
        rfl
    · rw [InitKvsEvent.loadRows_eq_error_iff b _ rows]
      simp [not_not.mp h]

/-- Loading the metadata of a start, whose `SELECT`s the model never fails, fails exactly on a row
of either area with a KVS schema version other than 0, with the panic of `assert_eq!`. -/
theorem loadBoth_eq_error_iff (db : Db) (e : InitError) :
    (InitKvsEvent.start (migrateKvs db)).loadKvsMetadata false >>= (·.loadKvsMetadata true) =
        .error e ↔
      (∃ b, ∃ r ∈ (db.area b).kvsInfo, r.kvsSchemaVersion ≠ 0) ∧
        e = .panic "This database was created with a future version of Sylphie." := by
  have hload : ∀ (ev : InitKvsEvent) (b : Bool), ev.conn = migrateKvs db →
      ev.loadKvsMetadata b = ev.loadRows b (db.area b).kvsInfo := fun ev b hc => by
    rw [InitKvsEvent.loadKvsMetadata, if_neg (hc ▸ migrateKvs_schemaVersion db b), hc]
    simp [migrateKvs]
  rw [hload _ false rfl]
  cases h₁ : (InitKvsEvent.start (migrateKvs db)).loadRows false (db.area false).kvsInfo with
  | error e₁ =>
    obtain ⟨⟨r, hr, hv⟩, rfl⟩ := (InitKvsEvent.loadRows_eq_error_iff false _ _).mp h₁
    exact ⟨fun h => ⟨⟨false, r, hr, hv⟩, by cases h; rfl⟩, fun ⟨_, he⟩ => by rw [he]; rfl⟩
  | ok ev₁ =>
    have hzero : ∀ r ∈ (db.area false).kvsInfo, r.kvsSchemaVersion = 0 := fun r hr => by
      by_contra hv
      have := (InitKvsEvent.loadRows_eq_error_iff false (InitKvsEvent.start (migrateKvs db))
        _).mpr ⟨⟨r, hr, hv⟩, rfl⟩
      rw [h₁] at this
      cases this
    show ev₁.loadKvsMetadata true = .error e ↔ _
    rw [hload ev₁ true (InitKvsEvent.loadRows_eq_ok h₁).1, InitKvsEvent.loadRows_eq_error_iff]
    constructor
    · rintro ⟨⟨r, hr, hv⟩, he⟩
      exact ⟨⟨true, r, hr, hv⟩, he⟩
    · rintro ⟨⟨b, r, hr, hv⟩, he⟩
      cases b
      · exact absurd (hzero r hr) hv
      · exact ⟨⟨r, hr, hv⟩, he⟩

/-- A start on a database with a row of a future KVS schema version never succeeds, and leaves every
row and every table as it found them. -/
theorem future_schema_untouched (stores : List KvsStoreDecl) {db : Db} {b : Bool} {r : KvsInfoRow}
    (hr : r ∈ (db.area b).kvsInfo) (hv : r.kvsSchemaVersion ≠ 0) :
    (∀ c, ((initKvs interner hexDigest db stores).1.area c).kvsInfo = (db.area c).kvsInfo ∧
      ((initKvs interner hexDigest db stores).1.area c).tables = (db.area c).tables) ∧
    ∀ late, (initKvs interner hexDigest db stores).2 ≠ .ok late := by
  have hload := (loadBoth_eq_error_iff db _).mpr ⟨⟨b, r, hr, hv⟩, rfl⟩
  have h : initKvs interner hexDigest db stores = (migrateKvs db,
      .error (.panic "This database was created with a future version of Sylphie.")) := by
    simp only [initKvs, hload]
  rw [h]
  exact ⟨fun c => by simp [migrateKvs], fun _ => by simp⟩

/-- A persistent row written by KVS schema version 1. -/
theorem future_schema_untouched_version_one :
    let db : Db := ⟨⟨1, [⟨"m", "t", 1, 0, 1⟩], fun _ => none⟩, Area.empty⟩
    (∀ c, ((initKvs ⟨fun _ => 0, fun _ => none⟩ id db []).1.area c).kvsInfo = (db.area c).kvsInfo ∧
      ((initKvs ⟨fun _ => 0, fun _ => none⟩ id db []).1.area c).tables = (db.area c).tables) ∧
    ∀ late, (initKvs ⟨fun _ => 0, fun _ => none⟩ id db []).2 ≠ .ok late :=
  @future_schema_untouched ⟨fun _ => 0, fun _ => none⟩ id [] _ false _ (List.mem_singleton_self _)
    (by decide)

/-- A successful start from a well-formed database, taken apart. -/
theorem initKvs_ok {db db' : Db} {stores : List KvsStoreDecl} {late : InitKvsLate}
    (hwf : db.WellFormed) (h : initKvs interner hexDigest db stores = (db', .ok late)) :
    ∃ ev ev', InitKvsOk interner db stores ev ev' db' ∧ late = ⟨ev'.moduleMetadata⟩ := by
  obtain ⟨ev, ev', hload, hres, hd, rfl⟩ := initKvs_eq_ok h
  obtain ⟨hinv, hconn, hfound, hloaded⟩ := loadBoth_eventInv hwf.migrateKvs hload
  obtain ⟨hinv', hkeep⟩ : EventInv (ev.initModules interner hexDigest stores).1 ∧
      ev.conn.Extends (ev.initModules interner hexDigest stores).1.conn := EventInv.initModules hinv
  rw [hres] at hinv' hkeep
  have hpass : PassInv interner ev stores ev' := by
    simpa using (PassInv.start hfound).initModules hres
  refine ⟨ev, ev', ⟨fun b r hr => hloaded b r (by simpa [migrateKvs] using hr), hpass, hinv', ?_, hd⟩,
    rfl⟩
  rw [hconn] at hkeep
  exact (Db.extends_migrateKvs db).trans hkeep

/-- With an interner that recovers `d`'s key name, an entry declaring `d` has an id that
`lookup_id` maps back to it. -/
theorem Declares.lookupId {d : KvsStoreDecl} {m : KvsMetadata} (h : Declares interner d m)
    (hrt : interner.lookupId (interner.lookupName d.keyId) = some d.keyId) :
    interner.lookupId m.keyId = some d.keyId := by
  rcases h.2.2 with hkey | hkey
  · exact hkey
  · rw [hkey]; exact hrt

/-- A successful start leaves a row for every store's namespace, with the store's key schema and
the table the late map names. -/
theorem InitKvsOk.declared_row {db db' : Db} {stores : List KvsStoreDecl} {ev ev' : InitKvsEvent}
    (h : InitKvsOk interner db stores ev ev' db') {d : KvsStoreDecl} (hd : d ∈ stores)
    (hrt : interner.lookupId (interner.lookupName d.keyId) = some d.keyId) :
    ∃ r ∈ (db'.area d.isTransient).kvsInfo, ∃ m, ev'.moduleMetadata.lookup d.target = some m ∧
      r.modulePath = d.module ∧ r.tableName = m.tableName ∧
      interner.lookupId r.keyId = some d.keyId ∧ d.keyVersion = r.keyVersion := by
  obtain ⟨m, hm, hdecl⟩ := h.pass.declared d hd
  obtain ⟨r, hr, hpath, hname, hkid, hkver⟩ := h.inv.entries_rows _ _ hm
  refine ⟨r, by rw [h.drops.rows]; exact hr, m, hm, hpath, hname, ?_, (hkver.trans hdecl.2.1).symm⟩
  rw [hkid]
  exact hdecl.lookupId hrt

/-! ## Table names -/

/-- Over every history of starts from the empty database, the metadata rows of both areas name
pairwise distinct tables, and a successful start binds its stores to pairwise distinct tables. -/
theorem table_names_distinct {db : Db} (hdb : Starts interner hexDigest Db.empty db) :
    db.rowNames.Nodup ∧
      ∀ stores db' late, initKvs interner hexDigest db stores = (db', .ok late) →
        (stores.map fun d => (d.bind interner late).map (·.queries.tableName)).Nodup := by
  have hwf := (hdb.wellFormed .empty).1
  refine ⟨hwf.names_nodup, fun stores db' late h => ?_⟩
  obtain ⟨ev, ev', hok, rfl⟩ := initKvs_ok hwf h
  have hnd : stores.Pairwise (fun a b => a.module ≠ b.module) := List.pairwise_map.mp hok.pass.nodup
  refine List.pairwise_map.mpr (hnd.imp_of_mem fun ha hb hne heq => hne ?_)
  obtain ⟨ma, hma, -⟩ := hok.pass.declared _ ha
  obtain ⟨mb, hmb, -⟩ := hok.pass.declared _ hb
  rw [@KvsStoreDecl.bind_of_lookup _ ⟨ev'.moduleMetadata⟩ _ _ hma,
    @KvsStoreDecl.bind_of_lookup _ ⟨ev'.moduleMetadata⟩ _ _ hmb] at heq
  simp only [Option.map_some', Option.some.injEq] at heq
  exact congrArg KvsTarget.modulePath (hok.inv.names.inj _ _ _ _ hma hmb heq)

/-- After a first start with a persistent and a transient store. -/
theorem table_names_distinct_after_first_start :
    let interner : StringInterner := ⟨fun _ => 0, fun _ => none⟩
    let db := (initKvs interner id Db.empty [⟨"m", "k", 1, "v", false⟩, ⟨"n", "k", 1, "v", true⟩]).1
    db.rowNames.Nodup ∧
      ∀ stores db' late, initKvs interner id db stores = (db', .ok late) →
        (stores.map fun d => (d.bind interner late).map (·.queries.tableName)).Nodup :=
  table_names_distinct (Starts.tail _ (Starts.refl Db.empty))

/-! ## Persistent namespaces -/

/-- A persistent namespace declared by a successful start keeps its row and its table, with the
table's rows, across every later start, which loads it with its key schema and binds it to that
table. -/
theorem persistent_namespace_durable {db₀ dbᵢ db₁ : Db} {storesᵢ : List KvsStoreDecl}
    {lateᵢ : InitKvsLate} {d : KvsStoreDecl}
    (hrt : interner.lookupId (interner.lookupName d.keyId) = some d.keyId)
    (hpre : Starts interner hexDigest Db.empty db₀)
    (hi : initKvs interner hexDigest db₀ storesᵢ = (dbᵢ, .ok lateᵢ))
    (hd : d ∈ storesᵢ) (hpers : d.isTransient = false)
    (hmid : Starts interner hexDigest dbᵢ db₁) :
    ∃ name, d.bind interner lateᵢ = some ⟨interner.lookupName d.valueId, ⟨false, name⟩⟩ ∧
      ((db₁.area false).tables name).isSome ∧
      (db₁.area false).tables name = (dbᵢ.area false).tables name ∧
      (∀ r ∈ (db₁.area false).kvsInfo, r.modulePath = d.module → r.tableName = name) ∧
      (∃ ev m, (InitKvsEvent.start (migrateKvs db₁)).loadKvsMetadata false >>=
          (·.loadKvsMetadata true) = .ok ev ∧ ev.moduleMetadata.lookup d.target = some m ∧
        m.tableName = name ∧ interner.lookupId m.keyId = some d.keyId ∧
        d.keyVersion = m.keyVersion) ∧
      ∀ stores' db₂ late', initKvs interner hexDigest db₁ stores' = (db₂, .ok late') →
        ∀ d' : KvsStoreDecl, d'.target = d.target →
          d'.bind interner late' = some ⟨interner.lookupName d'.valueId, ⟨false, name⟩⟩ := by
  have htarget : d.target = ⟨d.module, false⟩ := by rw [← hpers]; rfl
  obtain ⟨ev, ev', hok, rfl⟩ := initKvs_ok (hpre.wellFormed .empty).1 hi
  -- run `i` leaves an entry for `d`, mirrored by a persistent row
  obtain ⟨m, hm, -, hver, hkey⟩ := hok.pass.declared d hd
  obtain ⟨r, hr, hpath, hname, hkid, hkver⟩ := hok.inv.entries_rows _ _ hm
  have hrᵢ : r ∈ (dbᵢ.area false).kvsInfo := by
    rw [hok.drops.rows]
    simpa [htarget] using hr
  have hwfᵢ : dbᵢ.WellFormed := hok.drops.wellFormed hok.inv.wf
  -- the later starts keep the row and its table
  obtain ⟨hwf₁, hkeep⟩ := hmid.wellFormed hwfᵢ
  have hr₁ := hkeep.rows false r hrᵢ
  have hrow : ⟨r.modulePath, false⟩ = d.target := by rw [hpath, htarget]
  obtain ⟨ev₁, hload⟩ := loadBoth_ok hwf₁
  have hlook := (loadBoth_eventInv hwf₁.migrateKvs hload).2.2.2 false r (by simpa [migrateKvs] using hr₁)
  refine ⟨r.tableName, ?_, ?_, hkeep.persistent_tables r hrᵢ, fun r' hr' hpath' => ?_,
    ⟨ev₁, _, hload, hrow ▸ hlook, rfl, ?_, (hkver.trans hver).symm⟩,
    fun stores' db₂ late' hj d' hd' => ?_⟩
  · rw [@KvsStoreDecl.bind_of_lookup _ ⟨ev'.moduleMetadata⟩ _ _ hm, hpers, hname]
  · rw [hkeep.persistent_tables r hrᵢ]
    exact hwfᵢ.persistent_tables r hrᵢ
  · rw [List.inj_on_of_nodup_map (hwf₁.paths_nodup false) hr' hr₁ (hpath'.trans hpath.symm)]
  · show interner.lookupId r.keyId = some d.keyId
    rcases hkey with hkey | hkey
    · rwa [hkid]
    · rw [hkid, hkey]; exact hrt
  -- a later successful start finds the loaded entry and keeps its table name
  obtain ⟨ev₂, ev₂', hok₂, rfl⟩ := initKvs_ok hwf₁ hj
  obtain ⟨m', hm', hname', -, -⟩ := hok₂.pass.loaded _ _ (hok₂.loaded false r hr₁)
  rw [hrow, ← hd'] at hm'
  rw [@KvsStoreDecl.bind_of_lookup _ ⟨ev₂'.moduleMetadata⟩ _ _ hm', hname',
    show d'.isTransient = false from (congrArg KvsTarget.isTransient hd').trans (by rw [htarget])]

/-- A persistent store declared at a first start, then a start that declares another module's
transient store instead. -/
theorem persistent_namespace_durable_other_start :
    let interner : StringInterner := ⟨fun _ => 0, fun _ => some "k"⟩
    let d : KvsStoreDecl := ⟨"m", "k", 1, "v", false⟩
    let late : InitKvsLate :=
      ⟨(∅ : ModuleMetadata).insert d.target ⟨"sylphie_db_kvsdata_0|m", 0, 1, true⟩⟩
    let dbᵢ := (initKvs interner id Db.empty [d]).1
    let db₁ := (initKvs interner id dbᵢ [⟨"n", "k", 1, "v", true⟩]).1
    interner.lookupId (interner.lookupName d.keyId) = some d.keyId ∧
    initKvs interner id Db.empty [d] = (dbᵢ, .ok late) ∧
    ∃ name, d.bind interner late = some ⟨interner.lookupName d.valueId, ⟨false, name⟩⟩ ∧
      ((db₁.area false).tables name).isSome ∧
      (db₁.area false).tables name = (dbᵢ.area false).tables name ∧
      (∀ r ∈ (db₁.area false).kvsInfo, r.modulePath = d.module → r.tableName = name) ∧
      (∃ ev m, (InitKvsEvent.start (migrateKvs db₁)).loadKvsMetadata false >>=
          (·.loadKvsMetadata true) = .ok ev ∧ ev.moduleMetadata.lookup d.target = some m ∧
        m.tableName = name ∧ interner.lookupId m.keyId = some d.keyId ∧
        d.keyVersion = m.keyVersion) ∧
      ∀ stores' db₂ late', initKvs interner id db₁ stores' = (db₂, .ok late') →
        ∀ d' : KvsStoreDecl, d'.target = d.target →
          d'.bind interner late' = some ⟨interner.lookupName d'.valueId, ⟨false, name⟩⟩ :=
  have hi : initKvs ⟨fun _ => 0, fun _ => some "k"⟩ id Db.empty [⟨"m", "k", 1, "v", false⟩] =
      ((initKvs ⟨fun _ => 0, fun _ => some "k"⟩ id Db.empty [⟨"m", "k", 1, "v", false⟩]).1,
        .ok ⟨(∅ : ModuleMetadata).insert ⟨"m", false⟩ ⟨"sylphie_db_kvsdata_0|m", 0, 1, true⟩⟩) :=
    Prod.ext rfl rfl
  ⟨rfl, hi, persistent_namespace_durable rfl (Starts.refl _) hi (List.mem_singleton_self _) rfl
    (Starts.tail _ (Starts.refl _))⟩

/-- A namespace's key schema is fixed by the start that declared it: no later start succeeds that
declares the namespace again with another key name or version. -/
theorem key_schema_fixed {db₀ dbᵢ db₁ db₂ : Db} {storesᵢ stores : List KvsStoreDecl}
    {lateᵢ late : InitKvsLate} {d d' : KvsStoreDecl}
    (hrt : interner.lookupId (interner.lookupName d.keyId) = some d.keyId)
    (hrt' : interner.lookupId (interner.lookupName d'.keyId) = some d'.keyId)
    (hpre : Starts interner hexDigest Db.empty db₀)
    (hi : initKvs interner hexDigest db₀ storesᵢ = (dbᵢ, .ok lateᵢ)) (hd : d ∈ storesᵢ)
    (hmid : Starts interner hexDigest dbᵢ db₁) (hd' : d' ∈ stores) (htarget : d'.target = d.target)
    (hchange : d'.keyId ≠ d.keyId ∨ d'.keyVersion ≠ d.keyVersion) :
    initKvs interner hexDigest db₁ stores ≠ (db₂, .ok late) := by
  intro h
  obtain ⟨ev, ev', hok, rfl⟩ := initKvs_ok (hpre.wellFormed .empty).1 hi
  -- run `i` leaves a row for the namespace with `d`'s key schema, which every later start loads
  obtain ⟨r, hrᵢ, -, -, hpath, -, hid, hver⟩ := hok.declared_row hd hrt
  obtain ⟨hwf₁, hkeep⟩ := hmid.wellFormed (hok.drops.wellFormed hok.inv.wf)
  obtain ⟨ev₂, ev₂', hok₂, -⟩ := initKvs_ok hwf₁ h
  obtain ⟨m', hm', -, hkey', hver'⟩ :=
    hok₂.pass.loaded _ _ (hok₂.loaded _ r (hkeep.rows _ r hrᵢ))
  change m'.keyId = r.keyId at hkey'
  change m'.keyVersion = r.keyVersion at hver'
  -- and `d'` is declared against the loaded entry
  obtain ⟨m'', hm'', hdecl'⟩ := hok₂.pass.declared d' hd'
  rw [show d'.target = ⟨r.modulePath, d.isTransient⟩ by rw [htarget, hpath]; rfl, hm'] at hm''
  cases hm''
  have hid' := hdecl'.lookupId hrt'
  rw [hkey'] at hid'
  rcases hchange with hne | hne
  · exact hne (Option.some.inj (hid'.symm.trans hid))
  · exact hne (hdecl'.2.1.symm.trans (hver'.trans hver.symm))

/-- A persistent store declared again with its key version raised. -/
theorem key_schema_fixed_version_raised :
    let interner : StringInterner := ⟨fun _ => 0, fun _ => some "k"⟩
    let d : KvsStoreDecl := ⟨"m", "k", 1, "v", false⟩
    let db₁ := (initKvs interner id Db.empty [d]).1
    initKvs interner id db₁ [⟨"m", "k", 2, "v", false⟩] ≠ (db₁, .ok ⟨∅⟩) := by
  intro interner d db₁
  obtain ⟨late, hlate⟩ : ∃ late, (initKvs interner id Db.empty [d]).2 = .ok late := ⟨_, rfl⟩
  exact @key_schema_fixed interner id Db.empty db₁ db₁ db₁ [d] [⟨"m", "k", 2, "v", false⟩] late
    ⟨∅⟩ d ⟨"m", "k", 2, "v", false⟩ rfl rfl (.refl _) (Prod.ext rfl hlate)
    (List.mem_singleton_self _) (.refl _) (List.mem_singleton_self _) rfl (.inr (by decide))

/-! ## Transient namespaces -/

/-- After a cleanup that did not fail, the table of every unused transient entry is gone. -/
theorem dropUnusedTransient_tables_none :
    ∀ {db db' : Db} {es : List (Σ _ : KvsTarget, KvsMetadata)}, dropUnusedTransient db es = (db', none) →
      ∀ e ∈ es, e.2.isUsed = false → e.1.isTransient = true → (db'.area true).tables e.2.tableName = none
  | _, _, [], _, e, he, _, _ => absurd he (List.not_mem_nil e)
  | db, db', ⟨key, md⟩ :: rest, h, e, he, hu, ht => by
    by_cases hdrop : md.isUsed = false ∧ key.isTransient = true
    · cases hd : (db.area true).dropTable md.tableName with
      | ok a =>
        rw [dropUnusedTransient_cons_drop hdrop hd] at h
        rcases List.mem_cons.mp he with rfl | he
        · have hdrops := dropUnusedTransient_drops (db.setArea true a) rest
          rw [h] at hdrops
          obtain ⟨-, rfl⟩ := Area.dropTable_eq_ok hd
          show (db'.area true).tables md.tableName = none
          cases hs : (db'.area true).tables md.tableName with
          | none => rfl
          | some _ => simpa using hdrops.tables md.tableName (by simp [hs])
        · exact dropUnusedTransient_tables_none h e he hu ht
      | error _ => rw [dropUnusedTransient_cons_fail hdrop hd] at h; cases h
    · rw [dropUnusedTransient_cons_skip hdrop] at h
      rcases List.mem_cons.mp he with rfl | he
      · exact absurd ⟨hu, ht⟩ hdrop
      · exact dropUnusedTransient_tables_none h e he hu ht

/-- A cleanup that did not fail found the table of every unused transient entry. -/
theorem dropUnusedTransient_tables_isSome :
    ∀ {db db' : Db} {es : List (Σ _ : KvsTarget, KvsMetadata)}, dropUnusedTransient db es = (db', none) →
      ∀ e ∈ es, e.2.isUsed = false → e.1.isTransient = true →
        ((db.area true).tables e.2.tableName).isSome
  | _, _, [], _, e, he, _, _ => absurd he (List.not_mem_nil e)
  | db, db', ⟨key, md⟩ :: rest, h, e, he, hu, ht => by
    by_cases hdrop : md.isUsed = false ∧ key.isTransient = true
    · cases hd : (db.area true).dropTable md.tableName with
      | ok a =>
        rw [dropUnusedTransient_cons_drop hdrop hd] at h
        rcases List.mem_cons.mp he with rfl | he
        · exact (Area.dropTable_eq_ok hd).1
        · exact (Db.dropsTransient_dropTable hd).tables _
            (dropUnusedTransient_tables_isSome h e he hu ht)
      | error _ => rw [dropUnusedTransient_cons_fail hdrop hd] at h; cases h
    · rw [dropUnusedTransient_cons_skip hdrop] at h
      rcases List.mem_cons.mp he with rfl | he
      · exact absurd ⟨hu, ht⟩ hdrop
      · exact dropUnusedTransient_tables_isSome h e he hu ht

/-- A row that none of the stores declares is still an unused entry when the cleanup loop runs. -/
theorem InitKvsOk.undeclared_entry {db db' : Db} {stores : List KvsStoreDecl}
    {ev ev' : InitKvsEvent} (h : InitKvsOk interner db stores ev ev' db') {b : Bool} {r : KvsInfoRow}
    (hr : r ∈ (db.area b).kvsInfo) (hundeclared : ∀ d ∈ stores, d.target ≠ ⟨r.modulePath, b⟩) :
    (⟨⟨r.modulePath, b⟩, ⟨r.tableName, r.keyId, r.keyVersion, false⟩⟩ : Σ _ : KvsTarget, KvsMetadata) ∈
      ev'.moduleMetadata.entries :=
  AList.mem_lookup_iff.mp ((h.pass.undeclared _ hundeclared).trans (h.loaded b r hr))

/-- A successful start drops the table of every transient namespace of the database that none of
its stores declares, and keeps the namespace's row in `sylphie_db_kvs_info`. -/
theorem initKvs_undeclared_transient {db db' : Db} {stores : List KvsStoreDecl}
    {late : InitKvsLate} {r : KvsInfoRow} (hwf : db.WellFormed) (hr : r ∈ (db.area true).kvsInfo)
    (hundeclared : ∀ d ∈ stores, d.target ≠ ⟨r.modulePath, true⟩)
    (h : initKvs interner hexDigest db stores = (db', .ok late)) :
    r ∈ (db'.area true).kvsInfo ∧ (db'.area true).tables r.tableName = none := by
  obtain ⟨ev, ev', hok, -⟩ := initKvs_ok hwf h
  refine ⟨by rw [hok.drops.rows]; exact hok.frame.rows true r hr, ?_⟩
  exact dropUnusedTransient_tables_none hok.cleanup _ (hok.undeclared_entry hr hundeclared) rfl rfl

/-- A second start without the transient store of the first. -/
theorem initKvs_undeclared_transient_second_start :
    let interner : StringInterner := ⟨fun _ => 0, fun _ => some "k"⟩
    let db₁ := (initKvs interner id Db.empty [⟨"m", "k", 1, "v", true⟩]).1
    ∃ db' late, initKvs interner id db₁ [] = (db', .ok late) ∧
      (⟨"m", "sylphie_db_kvsdata_0|m", 0, 0, 1⟩ : KvsInfoRow) ∈ (db'.area true).kvsInfo ∧
      (db'.area true).tables "sylphie_db_kvsdata_0|m" = none := by
  intro interner db₁
  obtain ⟨late, hlate⟩ : ∃ late, (initKvs interner id db₁ []).2 = .ok late := ⟨_, rfl⟩
  have h : initKvs interner id db₁ [] = ((initKvs interner id db₁ []).1, .ok late) :=
    Prod.ext rfl hlate
  exact ⟨_, late, h, @initKvs_undeclared_transient interner id db₁ _ [] late
    ⟨"m", "sylphie_db_kvsdata_0|m", 0, 0, 1⟩ ((Starts.tail _ (.refl _)).wellFormed .empty).1
    (by decide) (by simp) h⟩

/-- No start succeeds on a database where a transient row that none of its stores declares names
a missing table: the row's entry stays unused, and the cleanup loop issues `DROP TABLE` on it. -/
theorem initKvs_missing_transient_table {db db' : Db} {stores : List KvsStoreDecl}
    {late : InitKvsLate} {r : KvsInfoRow} (hwf : db.WellFormed) (hr : r ∈ (db.area true).kvsInfo)
    (hmissing : (db.area true).tables r.tableName = none)
    (hundeclared : ∀ d ∈ stores, d.target ≠ ⟨r.modulePath, true⟩) :
    initKvs interner hexDigest db stores ≠ (db', .ok late) := fun h => by
  obtain ⟨ev, ev', hok, -⟩ := initKvs_ok hwf h
  have hsome : ((ev'.conn.area true).tables r.tableName).isSome :=
    dropUnusedTransient_tables_isSome hok.cleanup _ (hok.undeclared_entry hr hundeclared) rfl rfl
  rw [hok.frame.tables true r hr, hmissing] at hsome
  exact absurd hsome (by simp)

/-- A third start without the transient store of the first, after a second one dropped its table. -/
theorem initKvs_missing_transient_table_third_start :
    let interner : StringInterner := ⟨fun _ => 0, fun _ => some "k"⟩
    let db₁ := (initKvs interner id Db.empty [⟨"m", "k", 1, "v", true⟩]).1
    let db₂ := (initKvs interner id db₁ []).1
    initKvs interner id db₂ [] ≠ (db₂, .ok ⟨∅⟩) := by
  intro interner db₁ db₂
  exact @initKvs_missing_transient_table interner id db₂ db₂ [] ⟨∅⟩
    ⟨"m", "sylphie_db_kvsdata_0|m", 0, 0, 1⟩
    ((Starts.tail _ (Starts.tail _ (.refl _))).wellFormed .empty).1 (by decide) rfl (by simp)

/-- A transient store left out of the second and third starts: the second drops its table and keeps
its row, so the third fails on `DROP TABLE`, and a third start that declares it binds it to the
dropped table. -/
theorem transient_row_outlives_table :
    let interner : StringInterner := ⟨fun _ => 0, fun _ => some "k"⟩
    let d : KvsStoreDecl := ⟨"m", "k", 1, "v", true⟩
    let name := "sylphie_db_kvsdata_0|m"
    let db₁ := (initKvs interner id Db.empty [d]).1
    let db₂ := (initKvs interner id db₁ []).1
    (∃ late, (initKvs interner id Db.empty [d]).2 = .ok late ∧
      d.bind interner late = some ⟨0, ⟨true, name⟩⟩) ∧
    (∃ late, (initKvs interner id db₁ []).2 = .ok late) ∧
    ((⟨"m", name, 0, 0, 1⟩ : KvsInfoRow) ∈ (db₂.area true).kvsInfo ∧
      (db₂.area true).tables name = none) ∧
    initKvs interner id db₂ [] = (db₂, .error (.sql ("no such table: " ++ name))) ∧
    ∃ late, initKvs interner id db₂ [d] = (db₂, .ok late) ∧
      d.bind interner late = some ⟨0, ⟨true, name⟩⟩ :=
  ⟨⟨_, rfl, rfl⟩, ⟨_, rfl⟩, ⟨by decide, rfl⟩, rfl, ⟨_, rfl, rfl⟩⟩

/-! ## What every history keeps -/

/-- Over every history of starts from the empty database, each table is named by exactly one row
of its area, the rows of an area name distinct modules with KVS schema version 0, and every
persistent row names a table. -/
theorem starts_metadata_shape {db : Db} (hdb : Starts interner hexDigest Db.empty db) :
    (∀ b name, ((db.area b).tables name).isSome →
      ∃! r, r ∈ (db.area b).kvsInfo ∧ r.tableName = name) ∧
    (∀ b, ((db.area b).kvsInfo.map (·.modulePath)).Nodup) ∧
    (∀ b, ∀ r ∈ (db.area b).kvsInfo, r.kvsSchemaVersion = 0) ∧
    ∀ r ∈ (db.area false).kvsInfo, ((db.area false).tables r.tableName).isSome := by
  have hwf := (hdb.wellFormed .empty).1
  refine ⟨fun b name hname => ?_, hwf.paths_nodup, hwf.version_zero, hwf.persistent_tables⟩
  obtain ⟨r, hr, rfl⟩ := hwf.tables_named b name hname
  have hnames : ((db.area b).kvsInfo.map (·.tableName)).Nodup := by
    have hnd := hwf.names_nodup
    cases b
    exacts [hnd.of_append_left, hnd.of_append_right]
  exact ⟨r, ⟨hr, rfl⟩, fun r' ⟨hr', hname'⟩ => List.inj_on_of_nodup_map hnames hr' hr hname'⟩

/-- The shape after a first start with a persistent and a transient store. -/
theorem starts_metadata_shape_first_start :
    let interner : StringInterner := ⟨fun _ => 0, fun _ => none⟩
    let db := (initKvs interner id Db.empty [⟨"m", "k", 1, "v", false⟩, ⟨"n", "k", 1, "v", true⟩]).1
    (∀ b name, ((db.area b).tables name).isSome →
      ∃! r, r ∈ (db.area b).kvsInfo ∧ r.tableName = name) ∧
    (∀ b, ((db.area b).kvsInfo.map (·.modulePath)).Nodup) ∧
    (∀ b, ∀ r ∈ (db.area b).kvsInfo, r.kvsSchemaVersion = 0) ∧
    ∀ r ∈ (db.area false).kvsInfo, ((db.area false).tables r.tableName).isSome :=
  starts_metadata_shape (Starts.tail _ (Starts.refl Db.empty))

/-- After any history of starts from the empty database, no later start, successful or not, loses a
row or changes a persistent table. -/
theorem starts_keep_persistent {db₀ db : Db} (h₀ : Starts interner hexDigest Db.empty db₀)
    (h : Starts interner hexDigest db₀ db) :
    (∀ b, ∀ r ∈ (db₀.area b).kvsInfo, r ∈ (db.area b).kvsInfo) ∧
    ∀ name, ((db₀.area false).tables name).isSome →
      (db.area false).tables name = (db₀.area false).tables name := by
  have hwf := (h₀.wellFormed .empty).1
  obtain ⟨-, hkeep⟩ := h.wellFormed hwf
  refine ⟨hkeep.rows, fun name hname => ?_⟩
  obtain ⟨r, hr, rfl⟩ := hwf.tables_named false name hname
  exact hkeep.persistent_tables r hr

/-- A first start with a persistent store, then a start with none. -/
theorem starts_keep_persistent_second_start :
    let interner : StringInterner := ⟨fun _ => 0, fun _ => none⟩
    let db₁ := (initKvs interner id Db.empty [⟨"m", "k", 1, "v", false⟩]).1
    let db₂ := (initKvs interner id db₁ []).1
    (∀ b, ∀ r ∈ (db₁.area b).kvsInfo, r ∈ (db₂.area b).kvsInfo) ∧
    ∀ name, ((db₁.area false).tables name).isSome →
      (db₂.area false).tables name = (db₁.area false).tables name :=
  starts_keep_persistent (Starts.tail _ (Starts.refl Db.empty)) (Starts.tail _ (Starts.refl _))

/-! ## Restarting with the same stores -/

/-- A handler leaves the schema versions of both areas as they are. -/
theorem initModule_schemaVersion {ev ev' : InitKvsEvent} {keyId module : String} {keyVersion : Nat}
    {isTransient : Bool} (h : ev.initModule interner hexDigest keyId keyVersion module isTransient = .ok ev')
    (b : Bool) : (ev'.conn.area b).schemaVersion = (ev.conn.area b).schemaVersion := by
  obtain ⟨-, ⟨existing, -, -, -, rfl⟩ | ⟨tableName, -, -, hcreate⟩⟩ := InitKvsEvent.initModule_eq_ok h
  · rfl
  obtain ⟨a, ha, rfl⟩ := InitKvsEvent.createKvsTable_eq_ok hcreate
  obtain ⟨-, rfl⟩ := Area.createTable_eq_ok ha
  by_cases hb : b = isTransient
  · subst hb; simp [Area.insertInfo]
  · simp [hb]

theorem initModules_schemaVersion (b : Bool) : ∀ {ev : InitKvsEvent} {stores : List KvsStoreDecl},
    ((ev.initModules interner hexDigest stores).1.conn.area b).schemaVersion =
      (ev.conn.area b).schemaVersion
  | ev, [] => rfl
  | ev, d :: ds => by
    simp only [InitKvsEvent.initModules]
    split
    · rename_i ev' h
      exact initModules_schemaVersion b |>.trans (initModule_schemaVersion h b)
    · rfl

theorem dropUnusedTransient_schemaVersion (b : Bool) : ∀ (db : Db) (es : List (Σ _ : KvsTarget, KvsMetadata)),
    ((dropUnusedTransient db es).1.area b).schemaVersion = (db.area b).schemaVersion
  | db, [] => rfl
  | db, ⟨key, md⟩ :: rest => by
    by_cases h : md.isUsed = false ∧ key.isTransient = true
    · cases hd : (db.area true).dropTable md.tableName with
      | ok a =>
        rw [dropUnusedTransient_cons_drop h hd, dropUnusedTransient_schemaVersion b]
        obtain ⟨-, rfl⟩ := Area.dropTable_eq_ok hd
        cases b <;> rfl
      | error e => rw [dropUnusedTransient_cons_fail h hd]
    · rw [dropUnusedTransient_cons_skip h]
      exact dropUnusedTransient_schemaVersion b db rest

/-- After a successful start both migration sets have run, so the next start's migrations change
nothing. -/
theorem initKvs_migrated {db db' : Db} {stores : List KvsStoreDecl} {late : InitKvsLate}
    (h : initKvs interner hexDigest db stores = (db', .ok late)) : migrateKvs db' = db' := by
  obtain ⟨ev, ev', hload, hres, hd, -⟩ := initKvs_eq_ok h
  have hconn : ev.conn = migrateKvs db := by
    obtain ⟨ev₁, h₁, h₂⟩ : ∃ ev₁, (InitKvsEvent.start (migrateKvs db)).loadKvsMetadata false = .ok ev₁ ∧
        ev₁.loadKvsMetadata true = .ok ev := by
      cases h₁ : (InitKvsEvent.start (migrateKvs db)).loadKvsMetadata false with
      | error e => simp [h₁, bind, Except.bind] at hload
      | ok ev₁ => exact ⟨ev₁, rfl, by simpa [h₁, bind, Except.bind] using hload⟩
    exact (InitKvsEvent.loadRows_eq_ok (InitKvsEvent.loadKvsMetadata_eq_ok h₂)).1.trans
      (InitKvsEvent.loadRows_eq_ok (InitKvsEvent.loadKvsMetadata_eq_ok h₁)).1
  have hver : ∀ b, 1 ≤ (db'.area b).schemaVersion := fun b => by
    have hdrop := dropUnusedTransient_schemaVersion b ev'.conn ev'.moduleMetadata.entries
    have hpass := @initModules_schemaVersion interner hexDigest b ev stores
    rw [hd] at hdrop
    rw [hres, hconn] at hpass
    have := migrateKvs_schemaVersion db b
    dsimp only at hdrop hpass
    omega
  simp only [migrateKvs, MigrationData.executeSync, persistentKvsMigrations, transientKvsMigrations,
    if_pos (hver false), if_pos (hver true)]

/-- A pass over stores of distinct modules, none seen before, whose namespaces are all known with
the declared key schemas, succeeds and leaves the database as it is. -/
theorem initModules_of_known : ∀ {ev : InitKvsEvent} {stores : List KvsStoreDecl},
    (modulesOf stores).Nodup → (∀ d ∈ stores, d.module ∉ ev.foundModules) →
    (∀ d ∈ stores, ∃ m, ev.moduleMetadata.lookup d.target = some m ∧
      interner.lookupId m.keyId = some d.keyId ∧ d.keyVersion = m.keyVersion) →
    ∃ ev', ev.initModules interner hexDigest stores = (ev', none) ∧ ev'.conn = ev.conn
  | ev, [], _, _, _ => ⟨ev, rfl, rfl⟩
  | ev, d :: ds, hnd, hfresh, hknown => by
    obtain ⟨m, hm, hid, hver⟩ := hknown d (List.mem_cons_self _ _)
    have hne : ∀ d' ∈ ds, d'.module ≠ d.module := fun d' hd' heq =>
      (List.nodup_cons.mp hnd).1 (List.mem_map.mpr ⟨d', hd', heq⟩)
    have hstep : ev.initModule interner hexDigest d.keyId d.keyVersion d.module d.isTransient =
        .ok { ev with
          foundModules := insert d.module ev.foundModules
          moduleMetadata := ev.moduleMetadata.insert d.target { m with isUsed := true } } := by
      simp only [InitKvsEvent.initModule, if_neg (hfresh d (List.mem_cons_self _ _))]
      rw [show (⟨d.module, d.isTransient⟩ : KvsTarget) = d.target from rfl, hm]
      simp only [hid, hver, and_self, if_true]
    rw [InitKvsEvent.initModules, hstep]
    refine initModules_of_known (List.nodup_cons.mp hnd).2
      (fun d' hd' => ?_) (fun d' hd' => ?_)
    · simpa [hne d' hd'] using hfresh d' (List.mem_cons_of_mem _ hd')
    · rw [lookup_insert_eq_ite, if_neg fun h => hne d' hd' (congrArg KvsTarget.modulePath h)]
      exact hknown d' (List.mem_cons_of_mem _ hd')

/-- The cleanup loop drops nothing when every transient entry is used. -/
theorem dropUnusedTransient_of_used (db : Db) : ∀ es : List (Σ _ : KvsTarget, KvsMetadata),
    (∀ e ∈ es, e.1.isTransient = true → e.2.isUsed = true) → dropUnusedTransient db es = (db, none)
  | [], _ => rfl
  | ⟨key, md⟩ :: rest, h => by
    rw [dropUnusedTransient_cons_skip fun ⟨hu, ht⟩ =>
      Bool.false_ne_true (hu.symm.trans (h _ (List.mem_cons_self _ _) ht))]
    exact dropUnusedTransient_of_used db rest fun e he => h e (List.mem_cons_of_mem _ he)

/-- A restart with the stores of the last successful start succeeds, returns the database as it
found it and binds every store to the same table, as long as every transient row is declared. -/
theorem restart_unchanged {db₀ db₁ : Db} {stores : List KvsStoreDecl} {late : InitKvsLate}
    (hrt : ∀ d ∈ stores, interner.lookupId (interner.lookupName d.keyId) = some d.keyId)
    (hpre : Starts interner hexDigest Db.empty db₀)
    (h : initKvs interner hexDigest db₀ stores = (db₁, .ok late))
    (hdecl : ∀ r ∈ (db₁.area true).kvsInfo, ∃ d ∈ stores, d.target = ⟨r.modulePath, true⟩) :
    ∃ late', initKvs interner hexDigest db₁ stores = (db₁, .ok late') ∧
      ∀ d ∈ stores, d.bind interner late' = d.bind interner late := by
  have hmig := initKvs_migrated h
  obtain ⟨ev, ev', hok, rfl⟩ := initKvs_ok (hpre.wellFormed .empty).1 h
  have hwf₁ : db₁.WellFormed := hok.drops.wellFormed hok.inv.wf
  -- the restart loads exactly `db₁`, with the row the last start left for every store
  obtain ⟨ev₁, hload⟩ := loadBoth_ok hwf₁
  obtain ⟨hinv₁, hconn₁, hfound₁, hloaded₁⟩ := loadBoth_eventInv hwf₁.migrateKvs hload
  rw [hmig] at hconn₁ hloaded₁
  have hlook : ∀ d ∈ stores, ∃ r : KvsInfoRow, ∃ m, ev'.moduleMetadata.lookup d.target = some m ∧
      r.tableName = m.tableName ∧
      ev₁.moduleMetadata.lookup d.target = some ⟨r.tableName, r.keyId, r.keyVersion, false⟩ ∧
      interner.lookupId r.keyId = some d.keyId ∧ d.keyVersion = r.keyVersion := fun d hd => by
    obtain ⟨r, hr, m, hm, hpath, hname, hid, hver⟩ := hok.declared_row hd (hrt d hd)
    have hl := hloaded₁ _ r hr
    rw [hpath] at hl
    exact ⟨r, m, hm, hname, hl, hid, hver⟩
  -- its pass finds every namespace and creates nothing
  obtain ⟨ev₂, hres, hconn₂⟩ := @initModules_of_known interner hexDigest ev₁ stores
    hok.pass.nodup (by simp [hfound₁]) fun d hd => by
      obtain ⟨r, -, -, -, hl, hid, hver⟩ := hlook d hd
      exact ⟨_, hl, hid, hver⟩
  have hpass : PassInv interner ev₁ stores ev₂ := by
    simpa using (PassInv.start hfound₁).initModules hres
  -- and its cleanup finds every transient namespace used
  have hclean : dropUnusedTransient ev₂.conn ev₂.moduleMetadata.entries = (db₁, none) := by
    rw [hconn₂, hconn₁]
    refine dropUnusedTransient_of_used db₁ _ fun ⟨t, m⟩ he ht => ?_
    have hm := AList.mem_lookup_iff.mpr he
    by_cases hd : ∃ d ∈ stores, d.target = t
    · obtain ⟨d, hd, rfl⟩ := hd
      obtain ⟨m', hm', hused, -⟩ := hpass.declared d hd
      rw [hm] at hm'
      cases hm'
      exact hused
    · push_neg at hd
      rw [hpass.undeclared t hd] at hm
      obtain ⟨r, hr, hpath, -⟩ := hinv₁.entries_rows t m hm
      rw [hconn₁, show t.isTransient = true from ht] at hr
      obtain ⟨d, hd', htd⟩ := hdecl r hr
      exact absurd (htd.trans (by rw [hpath, ← ht])) (hd d hd')
  refine ⟨⟨ev₂.moduleMetadata⟩, by simp only [initKvs, hload, hres, hclean], fun d hd => ?_⟩
  obtain ⟨r, m, hm, hname, hl, -⟩ := hlook d hd
  obtain ⟨m₂, hm₂, hname₂, -⟩ := hpass.loaded _ _ hl
  rw [@KvsStoreDecl.bind_of_lookup _ ⟨ev₂.moduleMetadata⟩ _ _ hm₂,
    @KvsStoreDecl.bind_of_lookup _ ⟨ev'.moduleMetadata⟩ _ _ hm]
  change _ = (r.tableName : String) at hname₂
  rw [hname₂, hname]

/-- A first start with a transient and a persistent store, and a restart with both. -/
theorem restart_unchanged_same_stores :
    let interner : StringInterner := ⟨fun _ => 0, fun _ => some "k"⟩
    let stores : List KvsStoreDecl := [⟨"m", "k", 1, "v", true⟩, ⟨"n", "k", 1, "v", false⟩]
    let db₁ := (initKvs interner id Db.empty stores).1
    ∃ late, initKvs interner id Db.empty stores = (db₁, .ok late) ∧
      ∃ late', initKvs interner id db₁ stores = (db₁, .ok late') ∧
        ∀ d ∈ stores, d.bind interner late' = d.bind interner late := by
  intro interner stores db₁
  obtain ⟨late, hlate⟩ : ∃ late, (initKvs interner id Db.empty stores).2 = .ok late := ⟨_, rfl⟩
  have h : initKvs interner id Db.empty stores = (db₁, .ok late) := Prod.ext rfl hlate
  exact ⟨late, h, restart_unchanged (by decide) (.refl _) h (by decide)⟩

end Runs

end Database
end Sylphie
