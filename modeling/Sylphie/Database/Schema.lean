import Mathlib.Data.List.AList
import Mathlib.Data.Finset.Card

/-!
# Schema — the persisted layout of the KVS subsystem

The stores of `sylphie_database::kvs` live in two **storage areas**: the main database and the
attached `transient` one. Each area holds one metadata table, `sylphie_db_kvs_info`, and one data
table per namespace. This module models an area as the rows of its metadata table, its data
tables by name and the version its migration set has reached, together with the in-memory
records that the startup pass builds from those rows (`KvsTarget`, `KvsMetadata`).

The SQL engine, the migration engine and the string interner are collaborators whose code is not
under `src/`. A data table is a map from serialized keys to cells; `CREATE TABLE` fails on a name
that is taken and `DROP TABLE` on one that is missing, as SQLite does. Both areas are files on
disk, so whatever a process start leaves in them is what the next start reads.
-/

namespace Sylphie
namespace Database

/-! ## Rows and tables -/

/-- Serialized bytes, as `ByteBuf` holds them. -/
abbrev Bytes := List UInt8

/-- The columns of a KVS data table beside `key`: `value`, `value_schema_id`, `value_schema_ver`. -/
structure Cell where
  value : Bytes
  valueSchemaId : Nat
  valueSchemaVer : Nat
  deriving DecidableEq, Repr

/-- A KVS data table: its rows by serialized key (`key BLOB PRIMARY KEY`). -/
abbrev Table := Bytes → Option Cell

/-- The table that `CREATE TABLE` makes: no rows. -/
def Table.empty : Table := fun _ => none

/-- A row of `sylphie_db_kvs_info`. -/
structure KvsInfoRow where
  modulePath : String
  tableName : String
  kvsSchemaVersion : Nat
  keyId : Nat
  keyVersion : Nat
  deriving DecidableEq, Repr

/-- One storage area. `schemaVersion` is the version its KVS migration set has reached
(0 before the first start, when `sylphie_db_kvs_info` does not exist yet). -/
structure Area where
  schemaVersion : Nat
  kvsInfo : List KvsInfoRow
  tables : String → Option Table

/-- A fresh area: no migration applied, no rows, no tables. -/
def Area.empty : Area := ⟨0, [], fun _ => none⟩

/-- `CREATE TABLE name (...)`: an empty table, or SQLite's error when the name is taken. -/
def Area.createTable (a : Area) (name : String) : Except String Area :=
  match a.tables name with
  | some _ => .error ("table " ++ name ++ " already exists")
  | none => .ok { a with tables := Function.update a.tables name (some Table.empty) }

/-- `DROP TABLE name`: SQLite's error when there is no such table. -/
def Area.dropTable (a : Area) (name : String) : Except String Area :=
  match a.tables name with
  | some _ => .ok { a with tables := Function.update a.tables name none }
  | none => .error ("no such table: " ++ name)

/-- `INSERT INTO sylphie_db_kvs_info ...`: the row is added after the others. -/
def Area.insertInfo (a : Area) (row : KvsInfoRow) : Area :=
  { a with kvsInfo := a.kvsInfo ++ [row] }

theorem Area.createTable_eq_ok {a a' : Area} {name : String} (h : a.createTable name = .ok a') :
    a.tables name = none ∧ a' = { a with tables := Function.update a.tables name (some Table.empty) } := by
  unfold Area.createTable at h
  split at h <;> simp_all

theorem Area.dropTable_eq_ok {a a' : Area} {name : String} (h : a.dropTable name = .ok a') :
    (a.tables name).isSome ∧ a' = { a with tables := Function.update a.tables name none } := by
  unfold Area.dropTable at h
  split at h <;> simp_all

/-! ## The two areas -/

/-- The database: the main area and the one attached as `transient`. -/
structure Db where
  persistent : Area
  transient : Area

/-- The area a query prefixed with `if is_transient { "transient." } else { "" }` addresses. -/
def Db.area (db : Db) : Bool → Area
  | false => db.persistent
  | true => db.transient

/-- Replace the area `isTransient` addresses. -/
def Db.setArea (db : Db) : Bool → Area → Db
  | false, a => { db with persistent := a }
  | true, a => { db with transient := a }

/-- A database no process has started on. -/
def Db.empty : Db := ⟨Area.empty, Area.empty⟩

@[simp] theorem Db.area_setArea_self (db : Db) (b : Bool) (a : Area) : (db.setArea b a).area b = a := by
  cases b <;> rfl

@[simp] theorem Db.area_setArea_of_ne (db : Db) {b c : Bool} (a : Area) (h : c ≠ b) :
    (db.setArea b a).area c = db.area c := by
  cases b <;> cases c <;> simp_all [Db.setArea, Db.area]

@[simp] theorem Db.area_mk (p t : Area) (b : Bool) : (Db.mk p t).area b = if b then t else p := by
  cases b <;> rfl

/-! ## Migrations -/

/-- One step `migration_script!(from, to, file)` of a migration set. The SQL files are not under
`src/`; modelled from the spec, the KVS scripts `0 → 1` create the empty `sylphie_db_kvs_info`,
whose rows an area of version 0 already models as `[]`. -/
structure MigrationScript where
  fromVersion : Nat
  toVersion : Nat
  deriving DecidableEq, Repr

/-- `MigrationData`: a migration set and the area it applies to. Its `migration_id` and
`migration_set_name` only name it in the migrations table, which is not modelled. -/
structure MigrationData where
  isTransient : Bool
  targetVersion : Nat
  scripts : List MigrationScript
  deriving DecidableEq, Repr

/-- The version reached by applying, in order, each script whose `from` is the running version. -/
def runScripts (version : Nat) : List MigrationScript → Nat
  | [] => version
  | s :: rest => runScripts (if s.fromVersion = version then s.toVersion else version) rest

/-- Modelled from the spec (`crate::migrations` is not under `src/`): `execute_sync` is a no-op on
an area already at its target version, and otherwise runs the scripts and records the version. -/
def MigrationData.executeSync (m : MigrationData) (db : Db) : Db :=
  if m.targetVersion ≤ (db.area m.isTransient).schemaVersion then db
  else db.setArea m.isTransient
    { db.area m.isTransient with
      schemaVersion := runScripts (db.area m.isTransient).schemaVersion m.scripts }

/-- `PERSISTENT_KVS_MIGRATIONS`. -/
def persistentKvsMigrations : MigrationData where
  isTransient := false
  targetVersion := 1
  scripts := [⟨0, 1⟩]

/-- `TRANSIENT_KVS_MIGRATIONS`. -/
def transientKvsMigrations : MigrationData where
  isTransient := true
  targetVersion := 1
  scripts := [⟨0, 1⟩]

/-- A migration set leaves the rows of `sylphie_db_kvs_info` as they are. -/
@[simp] theorem MigrationData.executeSync_kvsInfo (m : MigrationData) (db : Db) (b : Bool) :
    ((m.executeSync db).area b).kvsInfo = (db.area b).kvsInfo := by
  unfold MigrationData.executeSync
  split
  · rfl
  · by_cases hb : b = m.isTransient
    · subst hb; simp
    · simp [hb]

/-- A migration set leaves the data tables as they are. -/
@[simp] theorem MigrationData.executeSync_tables (m : MigrationData) (db : Db) (b : Bool) :
    ((m.executeSync db).area b).tables = (db.area b).tables := by
  unfold MigrationData.executeSync
  split
  · rfl
  · by_cases hb : b = m.isTransient
    · subst hb; simp
    · simp [hb]

/-! ## Interned strings -/

/-- The string interner service (`crate::interner`, not under `src/`), modelled from the spec:
ids are stable for the lifetime of the database, so `lookup_name` and `lookup_id` are functions;
`lookup_id` gives `none` for an id it never handed out, where the source fails fatally. -/
structure StringInterner where
  lookupName : String → Nat
  lookupId : Nat → Option String

/-- `lookup_id` recovers every name `lookup_name` interned. -/
def StringInterner.RoundTrips (i : StringInterner) : Prop :=
  ∀ s, i.lookupId (i.lookupName s) = some s

/-! ## In-memory metadata -/

/-- `KvsTarget`: one namespace, a module in one of the two areas. -/
structure KvsTarget where
  modulePath : String
  isTransient : Bool
  deriving DecidableEq, Repr

/-- `KvsMetadata`: what the startup pass knows of a namespace. -/
structure KvsMetadata where
  tableName : String
  keyId : Nat
  keyVersion : Nat
  isUsed : Bool
  deriving DecidableEq, Repr

/-- `HashMap<KvsTarget, KvsMetadata>`: inserting a target replaces its entry. -/
abbrev ModuleMetadata := AList (fun _ : KvsTarget => KvsMetadata)

/-- A lookup after inserting at `t`. -/
theorem lookup_insert_eq_ite {md : ModuleMetadata} {t t' : KvsTarget} {m : KvsMetadata} :
    (md.insert t m).lookup t' = if t' = t then some m else md.lookup t' := by
  split_ifs with h
  · subst h; exact AList.lookup_insert _
  · exact AList.lookup_insert_ne h

end Database
end Sylphie
