import Sylphie.Database.Pass

/-!
# Invariant — what every start keeps of the database

`Db.WellFormed` is the invariant of the persisted state across process starts: the table names of
the rows of both metadata tables are pairwise distinct, a module has at most one row per area, every
row has schema version 0, every data table is named by a row of its area, and every persistent row
names a table that exists. It holds of the empty database and every start keeps it, whether the
start succeeds or not.

Inside a start, the event carries `EventInv`: the rows of the database are known to the map and
their names are used, and the map's table names are used and belong to one target each. Loading
establishes it (`loadBoth_eventInv`), every handler keeps it (`EventInv.initModule`), and the cleanup
loop keeps the well-formedness of the database (`WellFormed.dropUnusedTransient`).
-/

namespace Sylphie
namespace Database

/-! ## The invariant of the database -/

/-- The table names of the rows of both metadata tables, persistent first. -/
def Db.rowNames (db : Db) : List String :=
  (db.area false).kvsInfo.map (·.tableName) ++ (db.area true).kvsInfo.map (·.tableName)

theorem Db.mem_rowNames {db : Db} {b : Bool} {r : KvsInfoRow} (h : r ∈ (db.area b).kvsInfo) :
    r.tableName ∈ db.rowNames := by
  cases b
  · exact List.mem_append_left _ (List.mem_map_of_mem _ h)
  · exact List.mem_append_right _ (List.mem_map_of_mem _ h)

/-- What every start keeps of the database. -/
structure Db.WellFormed (db : Db) : Prop where
  names_nodup : db.rowNames.Nodup
  paths_nodup : ∀ b, ((db.area b).kvsInfo.map (·.modulePath)).Nodup
  version_zero : ∀ b, ∀ r ∈ (db.area b).kvsInfo, r.kvsSchemaVersion = 0
  tables_named : ∀ b name, ((db.area b).tables name).isSome →
    ∃ r ∈ (db.area b).kvsInfo, r.tableName = name
  persistent_tables : ∀ r ∈ (db.area false).kvsInfo,
    ((db.area false).tables r.tableName).isSome

theorem Db.WellFormed.empty : Db.empty.WellFormed where
  names_nodup := by simp [Db.rowNames, Db.empty, Area.empty]
  paths_nodup := by simp [Db.empty, Area.empty]
  version_zero := by simp [Db.empty, Area.empty]
  tables_named := by simp [Db.empty, Area.empty]
  persistent_tables := by simp [Db.empty, Area.empty]

/-- Only the rows and the tables of the areas matter. -/
theorem Db.WellFormed.of_same {db db' : Db} (h : db.WellFormed)
    (hrows : ∀ b, (db'.area b).kvsInfo = (db.area b).kvsInfo)
    (htables : ∀ b, (db'.area b).tables = (db.area b).tables) : db'.WellFormed where
  names_nodup := by simpa [Db.rowNames, hrows] using h.names_nodup
  paths_nodup := by simpa [hrows] using h.paths_nodup
  version_zero := by simpa [hrows] using h.version_zero
  tables_named := by simpa [hrows, htables] using h.tables_named
  persistent_tables := by simpa [hrows, htables] using h.persistent_tables

theorem Db.WellFormed.migrateKvs {db : Db} (h : db.WellFormed) : (migrateKvs db).WellFormed :=
  h.of_same (by simp [Database.migrateKvs]) (by simp [Database.migrateKvs])

/-! ## Loading -/

section Load

variable {b : Bool}

/-- Loading keeps the connection and the found modules, and uses the rows' names. -/
theorem InitKvsEvent.loadRows_eq_ok : ∀ {ev ev' : InitKvsEvent} {rows : List KvsInfoRow},
    ev.loadRows b rows = .ok ev' → ev'.conn = ev.conn ∧ ev'.foundModules = ev.foundModules ∧
      ev'.usedTableNames = ev.usedTableNames ∪ (rows.map (·.tableName)).toFinset
  | ev, ev', [], h => by
    simp only [InitKvsEvent.loadRows, Except.ok.injEq] at h
    simp [h]
  | ev, ev', row :: rows, h => by
    simp only [InitKvsEvent.loadRows] at h
    split_ifs at h
    obtain ⟨h1, h2, h3⟩ := InitKvsEvent.loadRows_eq_ok h
    refine ⟨h1, h2, ?_⟩
    rw [h3]
    ext x
    simp [or_assoc, or_left_comm]

/-- Loading keeps every lookup of a target no row names. -/
theorem InitKvsEvent.loadRows_lookup_of_not_mem {t : KvsTarget} :
    ∀ {ev ev' : InitKvsEvent} {rows : List KvsInfoRow}, (∀ r ∈ rows, t ≠ ⟨r.modulePath, b⟩) →
      ev.loadRows b rows = .ok ev' → ev'.moduleMetadata.lookup t = ev.moduleMetadata.lookup t
  | ev, ev', [], _, h => by
    simp only [InitKvsEvent.loadRows, Except.ok.injEq] at h
    rw [h]
  | ev, ev', row :: rows, ht, h => by
    simp only [InitKvsEvent.loadRows] at h
    split_ifs at h
    rw [InitKvsEvent.loadRows_lookup_of_not_mem (fun r hr => ht r (List.mem_cons_of_mem _ hr)) h]
    exact AList.lookup_insert_ne (ht row (List.mem_cons_self _ _))

/-- A row's target, loaded from an area where its module has one row, maps to the row. -/
theorem InitKvsEvent.loadRows_lookup_of_mem :
    ∀ {ev ev' : InitKvsEvent} {rows : List KvsInfoRow} {r : KvsInfoRow},
      (rows.map (·.modulePath)).Nodup → r ∈ rows → ev.loadRows b rows = .ok ev' →
      ev'.moduleMetadata.lookup ⟨r.modulePath, b⟩ =
        some ⟨r.tableName, r.keyId, r.keyVersion, false⟩
  | _, _, [], _, _, hr, _ => absurd hr (List.not_mem_nil _)
  | ev, ev', row :: rows, r, hnd, hr, h => by
    simp only [InitKvsEvent.loadRows] at h
    split_ifs at h
    rw [List.map_cons, List.nodup_cons] at hnd
    rcases List.mem_cons.mp hr with rfl | hr
    · rw [InitKvsEvent.loadRows_lookup_of_not_mem _ h]
      · exact AList.lookup_insert _
      · intro r' hr' heq
        exact hnd.1 (List.mem_map.mpr ⟨r', hr', (congrArg KvsTarget.modulePath heq).symm⟩)
    · exact InitKvsEvent.loadRows_lookup_of_mem hnd.2 hr h

/-- Loading keeps the known targets and adds the rows'. -/
theorem InitKvsEvent.loadRows_mem :
    ∀ {ev ev' : InitKvsEvent} {rows : List KvsInfoRow}, ev.loadRows b rows = .ok ev' →
      ∀ t, t ∈ ev'.moduleMetadata ↔ t ∈ ev.moduleMetadata ∨ ∃ r ∈ rows, t = ⟨r.modulePath, b⟩
  | ev, ev', [], h, t => by
    simp only [InitKvsEvent.loadRows, Except.ok.injEq] at h
    simp [h]
  | ev, ev', row :: rows, h, t => by
    simp only [InitKvsEvent.loadRows] at h
    split_ifs at h
    rw [InitKvsEvent.loadRows_mem h t, AList.mem_insert]
    simp only [List.mem_cons, exists_eq_or_imp]
    rw [@or_comm (t = _), or_assoc]

/-- An entry after loading was there before or comes from a row. -/
theorem InitKvsEvent.loadRows_lookup_eq_some {t : KvsTarget} {m : KvsMetadata} :
    ∀ {ev ev' : InitKvsEvent} {rows : List KvsInfoRow}, ev.loadRows b rows = .ok ev' →
      ev'.moduleMetadata.lookup t = some m → ev.moduleMetadata.lookup t = some m ∨
        ∃ r ∈ rows, t = ⟨r.modulePath, b⟩ ∧ m = ⟨r.tableName, r.keyId, r.keyVersion, false⟩
  | ev, ev', [], h, hm => by
    simp only [InitKvsEvent.loadRows, Except.ok.injEq] at h
    exact .inl (h ▸ hm)
  | ev, ev', row :: rows, h, hm => by
    simp only [InitKvsEvent.loadRows] at h
    split_ifs at h
    rcases InitKvsEvent.loadRows_lookup_eq_some h hm with hm | ⟨r, hr, rfl, rfl⟩
    · rw [lookup_insert_eq_ite] at hm
      split_ifs at hm with ht
      · cases hm; exact .inr ⟨row, List.mem_cons_self _ _, ht, rfl⟩
      · exact .inl hm
    · exact .inr ⟨r, List.mem_cons_of_mem _ hr, rfl, rfl⟩

/-- The table names of a metadata map are used and each belongs to one target. -/
structure NamesInv (used : Finset String) (md : ModuleMetadata) : Prop where
  used : ∀ t m, md.lookup t = some m → m.tableName ∈ used
  inj : ∀ t₁ t₂ m₁ m₂, md.lookup t₁ = some m₁ → md.lookup t₂ = some m₂ →
    m₁.tableName = m₂.tableName → t₁ = t₂

theorem NamesInv.empty : NamesInv ∅ ∅ := ⟨by simp, by simp⟩

/-- Inserting an entry under a fresh name keeps `NamesInv`. -/
theorem NamesInv.insert_fresh {used : Finset String} {md : ModuleMetadata} (h : NamesInv used md)
    (t : KvsTarget) (m : KvsMetadata) (hfresh : m.tableName ∉ used) :
    NamesInv (insert m.tableName used) (md.insert t m) where
  used := by
    intro t' m' h'
    rw [lookup_insert_eq_ite] at h'
    split_ifs at h' with ht
    · cases h'; exact Finset.mem_insert_self _ _
    · exact Finset.mem_insert_of_mem (h.used t' m' h')
  inj := by
    intro t₁ t₂ m₁ m₂ h₁ h₂ heq
    rw [lookup_insert_eq_ite] at h₁ h₂
    split_ifs at h₁ h₂ with ht₁ ht₂ ht₂
    · rw [ht₁, ht₂]
    · cases h₁; exact absurd (heq ▸ h.used t₂ m₂ h₂) hfresh
    · cases h₂; exact absurd (heq.symm ▸ h.used t₁ m₁ h₁) hfresh
    · exact h.inj t₁ t₂ m₁ m₂ h₁ h₂ heq

/-- Replacing an entry by one with the same table name keeps `NamesInv`. -/
theorem NamesInv.insert_same {used : Finset String} {md : ModuleMetadata} (h : NamesInv used md)
    {t : KvsTarget} {m₀ : KvsMetadata} (h₀ : md.lookup t = some m₀) (m : KvsMetadata)
    (hname : m.tableName = m₀.tableName) : NamesInv used (md.insert t m) where
  used := by
    intro t' m' h'
    rw [lookup_insert_eq_ite] at h'
    split_ifs at h' with ht
    · cases h'; rw [hname]; exact h.used t m₀ h₀
    · exact h.used t' m' h'
  inj := by
    intro t₁ t₂ m₁ m₂ h₁ h₂ heq
    rw [lookup_insert_eq_ite] at h₁ h₂
    split_ifs at h₁ h₂ with ht₁ ht₂ ht₂
    · rw [ht₁, ht₂]
    · cases h₁; rw [ht₁]; exact h.inj t t₂ m₀ m₂ h₀ h₂ (hname ▸ heq)
    · cases h₂; rw [ht₂]; exact h.inj t₁ t m₁ m₀ h₁ h₀ (hname ▸ heq)
    · exact h.inj t₁ t₂ m₁ m₂ h₁ h₂ heq

/-- Loading rows with distinct names, none used yet, keeps `NamesInv`. -/
theorem NamesInv.loadRows : ∀ {ev ev' : InitKvsEvent} {rows : List KvsInfoRow},
    NamesInv ev.usedTableNames ev.moduleMetadata → (rows.map (·.tableName)).Nodup →
      (∀ r ∈ rows, r.tableName ∉ ev.usedTableNames) →
      ev.loadRows b rows = .ok ev' → NamesInv ev'.usedTableNames ev'.moduleMetadata
  | ev, ev', [], hinv, _, _, h => by
    simp only [InitKvsEvent.loadRows, Except.ok.injEq] at h
    exact h ▸ hinv
  | ev, ev', row :: rows, hinv, hnd, hfresh, h => by
    simp only [InitKvsEvent.loadRows] at h
    split_ifs at h
    rw [List.map_cons, List.nodup_cons] at hnd
    refine NamesInv.loadRows (hinv.insert_fresh ⟨row.modulePath, b⟩
      ⟨row.tableName, row.keyId, row.keyVersion, false⟩ (hfresh row (List.mem_cons_self _ _))) hnd.2
      (fun r hr hmem => ?_) h
    rcases Finset.mem_insert.mp hmem with heq | hmem
    · exact hnd.1 (List.mem_map.mpr ⟨r, hr, heq⟩)
    · exact hfresh r (List.mem_cons_of_mem _ hr) hmem

end Load

/-! ## Creating a table -/

/-- `db` after `create_kvs_table` committed `row` in area `b`: the table and the row. -/
def Db.withKvsTable (db : Db) (b : Bool) (row : KvsInfoRow) : Db :=
  db.setArea b { db.area b with
    tables := Function.update (db.area b).tables row.tableName (some Table.empty)
    kvsInfo := (db.area b).kvsInfo ++ [row] }

theorem Db.withKvsTable_area {db : Db} {b c : Bool} {row : KvsInfoRow} :
    (db.withKvsTable b row).area c = if c = b then { db.area b with
      tables := Function.update (db.area b).tables row.tableName (some Table.empty)
      kvsInfo := (db.area b).kvsInfo ++ [row] } else db.area c := by
  split_ifs with h
  · subst h; exact Db.area_setArea_self _ _ _
  · exact Db.area_setArea_of_ne _ _ h

theorem Db.mem_kvsInfo_withKvsTable {db : Db} {b c : Bool} {row r : KvsInfoRow} :
    r ∈ ((db.withKvsTable b row).area c).kvsInfo ↔ r ∈ (db.area c).kvsInfo ∨ (c = b ∧ r = row) := by
  rw [Db.withKvsTable_area]
  split_ifs with h
  · subst h; simp
  · simp [h]

/-- `db'` keeps the rows of `db`, and the tables its persistent rows name. -/
structure Db.Keeps (db db' : Db) : Prop where
  rows : ∀ b, ∀ r ∈ (db.area b).kvsInfo, r ∈ (db'.area b).kvsInfo
  persistent_tables : ∀ r ∈ (db.area false).kvsInfo,
    (db'.area false).tables r.tableName = (db.area false).tables r.tableName

theorem Db.Keeps.refl (db : Db) : db.Keeps db := ⟨fun _ _ h => h, fun _ _ => rfl⟩

theorem Db.Keeps.trans {db₁ db₂ db₃ : Db} (h₁ : db₁.Keeps db₂) (h₂ : db₂.Keeps db₃) :
    db₁.Keeps db₃ :=
  ⟨fun b r hr => h₂.rows b r (h₁.rows b r hr),
   fun r hr => (h₂.persistent_tables r (h₁.rows false r hr)).trans (h₁.persistent_tables r hr)⟩

/-- `db'` keeps the rows of `db` and, in both areas, the tables they name. -/
structure Db.Extends (db db' : Db) : Prop where
  rows : ∀ b, ∀ r ∈ (db.area b).kvsInfo, r ∈ (db'.area b).kvsInfo
  tables : ∀ b, ∀ r ∈ (db.area b).kvsInfo, (db'.area b).tables r.tableName = (db.area b).tables r.tableName

theorem Db.Extends.refl (db : Db) : db.Extends db := ⟨fun _ _ h => h, fun _ _ _ => rfl⟩

theorem Db.Extends.trans {db₁ db₂ db₃ : Db} (h₁ : db₁.Extends db₂) (h₂ : db₂.Extends db₃) :
    db₁.Extends db₃ :=
  ⟨fun b r hr => h₂.rows b r (h₁.rows b r hr),
   fun b r hr => (h₂.tables b r (h₁.rows b r hr)).trans (h₁.tables b r hr)⟩

theorem Db.Extends.keeps {db db' : Db} (h : db.Extends db') : db.Keeps db' :=
  ⟨h.rows, h.tables false⟩

/-- The migration sets touch neither rows nor tables. -/
theorem Db.extends_migrateKvs (db : Db) : db.Extends (migrateKvs db) :=
  ⟨by simp [migrateKvs], by simp [migrateKvs]⟩

/-- A table under a name no row has keeps the rows and the tables they name. -/
theorem Db.extends_withKvsTable {db : Db} (b : Bool) (row : KvsInfoRow)
    (hfresh : row.tableName ∉ db.rowNames) : db.Extends (db.withKvsTable b row) where
  rows _ _ hr := Db.mem_kvsInfo_withKvsTable.mpr (.inl hr)
  tables := by
    intro c r hr
    rw [Db.withKvsTable_area]
    split_ifs with h
    · subst h
      exact Function.update_noteq (fun heq => hfresh (by rw [← heq]; exact Db.mem_rowNames hr)) _ _
    · rfl

/-- A new namespace's row and table, under a name no row has, keep the database well formed. -/
theorem Db.WellFormed.withKvsTable {db : Db} {b : Bool} {row : KvsInfoRow} (h : db.WellFormed)
    (hfresh : row.tableName ∉ db.rowNames)
    (hpath : ∀ r ∈ (db.area b).kvsInfo, r.modulePath ≠ row.modulePath)
    (hversion : row.kvsSchemaVersion = 0) : (db.withKvsTable b row).WellFormed where
  names_nodup := by
    have hnd := h.names_nodup
    cases b <;> simp only [Db.rowNames, Db.withKvsTable_area, if_true, if_false, List.map_append,
      List.map_cons, List.map_nil, Bool.false_eq_true, Bool.true_eq_false] at hnd hfresh ⊢
    · rw [List.append_assoc, List.singleton_append, List.nodup_middle, List.nodup_cons]
      exact ⟨hfresh, hnd⟩
    · rw [← List.append_assoc, ← List.concat_eq_append]
      exact hnd.concat hfresh
  paths_nodup := by
    intro c
    rw [Db.withKvsTable_area]
    split_ifs with hc
    · subst hc
      rw [List.map_append, List.map_singleton, ← List.concat_eq_append]
      exact (h.paths_nodup c).concat fun hmem => by
        obtain ⟨r, hr, heq⟩ := List.mem_map.mp hmem
        exact hpath r hr heq
    · exact h.paths_nodup c
  version_zero := by
    intro c r hr
    rcases Db.mem_kvsInfo_withKvsTable.mp hr with hr | ⟨-, rfl⟩
    · exact h.version_zero c r hr
    · exact hversion
  tables_named := by
    intro c name hname
    rw [Db.withKvsTable_area] at hname ⊢
    split_ifs at hname ⊢ with hc
    · dsimp only at hname ⊢
      by_cases hn : name = row.tableName
      · exact ⟨row, List.mem_append_right _ (List.mem_singleton_self _), hn.symm⟩
      · rw [Function.update_noteq hn] at hname
        obtain ⟨r, hr, hrn⟩ := h.tables_named b name hname
        exact ⟨r, List.mem_append_left _ hr, hrn⟩
    · exact h.tables_named c name hname
  persistent_tables := by
    intro r hr
    rcases Db.mem_kvsInfo_withKvsTable.mp hr with hr | ⟨rfl, rfl⟩
    · rw [(Db.extends_withKvsTable b row hfresh).tables false r hr]
      exact h.persistent_tables r hr
    · simp [Db.withKvsTable_area]

/-! ## The event of a start -/

/-- What the event of a start keeps from the end of loading on. -/
structure EventInv (ev : InitKvsEvent) : Prop where
  wf : ev.conn.WellFormed
  names : NamesInv ev.usedTableNames ev.moduleMetadata
  rows_used : ∀ b, ∀ r ∈ (ev.conn.area b).kvsInfo, r.tableName ∈ ev.usedTableNames
  rows_known : ∀ b, ∀ r ∈ (ev.conn.area b).kvsInfo, ⟨r.modulePath, b⟩ ∈ ev.moduleMetadata
  entries_rows : ∀ t m, ev.moduleMetadata.lookup t = some m →
    ∃ r ∈ (ev.conn.area t.isTransient).kvsInfo, r.modulePath = t.modulePath ∧
      r.tableName = m.tableName ∧ r.keyId = m.keyId ∧ r.keyVersion = m.keyVersion

theorem InitKvsEvent.loadKvsMetadata_eq_ok {ev ev' : InitKvsEvent} {b : Bool}
    (h : ev.loadKvsMetadata b = .ok ev') : ev.loadRows b (ev.conn.area b).kvsInfo = .ok ev' := by
  unfold InitKvsEvent.loadKvsMetadata at h
  split_ifs at h
  exact h

/-- Loading both areas of a well-formed database: every row's namespace is known, mapped to its
row, and unused. -/
theorem loadBoth_eventInv {db : Db} {ev : InitKvsEvent} (hwf : db.WellFormed)
    (h : (InitKvsEvent.start db).loadKvsMetadata false >>= (·.loadKvsMetadata true) = .ok ev) :
    EventInv ev ∧ ev.conn = db ∧ ev.foundModules = ∅ ∧
      ∀ b, ∀ r ∈ (db.area b).kvsInfo, ev.moduleMetadata.lookup ⟨r.modulePath, b⟩ =
        some ⟨r.tableName, r.keyId, r.keyVersion, false⟩ := by
  obtain ⟨ev₁, h₁, h₂⟩ : ∃ ev₁, (InitKvsEvent.start db).loadKvsMetadata false = .ok ev₁ ∧
      ev₁.loadKvsMetadata true = .ok ev := by
    cases h₁ : (InitKvsEvent.start db).loadKvsMetadata false with
    | error e => simp [h₁, bind, Except.bind] at h
    | ok ev₁ => exact ⟨ev₁, rfl, by simpa [h₁, bind, Except.bind] using h⟩
  replace h₁ := InitKvsEvent.loadKvsMetadata_eq_ok h₁
  replace h₂ := InitKvsEvent.loadKvsMetadata_eq_ok h₂
  obtain ⟨hc₁, hf₁, hu₁⟩ := InitKvsEvent.loadRows_eq_ok h₁
  simp only [InitKvsEvent.start] at h₁ hc₁ hf₁ hu₁
  rw [hc₁] at h₂
  obtain ⟨hc₂, hf₂, hu₂⟩ := InitKvsEvent.loadRows_eq_ok h₂
  have hnd := hwf.names_nodup
  rw [Db.rowNames, List.nodup_append] at hnd
  have hn₁ := NamesInv.loadRows NamesInv.empty hnd.1 (by simp) h₁
  have hn₂ := NamesInv.loadRows hn₁ hnd.2.1 (fun r hr hmem => by
    rw [hu₁, Finset.empty_union, List.mem_toFinset] at hmem
    exact hnd.2.2 hmem (List.mem_map_of_mem _ hr)) h₂
  have hconn : ev.conn = db := hc₂.trans hc₁
  refine ⟨⟨hconn ▸ hwf, hn₂, fun b r hr => ?_, fun b r hr => ?_, fun t m hm => ?_⟩, hconn,
    hf₂.trans hf₁, ?_⟩
  · rw [hconn] at hr
    rw [hu₂, hu₁, Finset.empty_union, Finset.mem_union, List.mem_toFinset, List.mem_toFinset]
    cases b
    · exact .inl (List.mem_map_of_mem _ hr)
    · exact .inr (List.mem_map_of_mem _ hr)
  · rw [hconn] at hr
    rw [InitKvsEvent.loadRows_mem h₂]
    cases b
    · exact .inl ((InitKvsEvent.loadRows_mem h₁ _).mpr (.inr ⟨r, hr, rfl⟩))
    · exact .inr ⟨r, hr, rfl⟩
  · rw [hconn]
    rcases InitKvsEvent.loadRows_lookup_eq_some h₂ hm with hm | ⟨r, hr, rfl, rfl⟩
    · rcases InitKvsEvent.loadRows_lookup_eq_some h₁ hm with hm | ⟨r, hr, rfl, rfl⟩
      · simp at hm
      · exact ⟨r, hr, rfl, rfl, rfl, rfl⟩
    · exact ⟨r, hr, rfl, rfl, rfl, rfl⟩
  · intro b r hr
    cases b
    · rw [InitKvsEvent.loadRows_lookup_of_not_mem (by simp) h₂]
      exact InitKvsEvent.loadRows_lookup_of_mem (hwf.paths_nodup false) hr h₁
    · exact InitKvsEvent.loadRows_lookup_of_mem (hwf.paths_nodup true) hr h₂

section Handler

variable {interner : StringInterner} {hexDigest : String → String}

/-- A handler keeps `EventInv`, the rows and the tables they name. -/
theorem EventInv.initModule {ev ev' : InitKvsEvent} {keyId module : String} {keyVersion : Nat}
    {isTransient : Bool} (hinv : EventInv ev)
    (h : ev.initModule interner hexDigest keyId keyVersion module isTransient = .ok ev') :
    EventInv ev' ∧ ev.conn.Extends ev'.conn := by
  obtain ⟨-, ⟨existing, hlookup, -, -, rfl⟩ | ⟨tableName, hlookup, hname, hcreate⟩⟩ :=
    InitKvsEvent.initModule_eq_ok h
  · refine ⟨⟨hinv.wf, hinv.names.insert_same hlookup _ rfl, hinv.rows_used,
      fun b r hr => AList.mem_insert _ |>.mpr (.inr (hinv.rows_known b r hr)), fun t m hm => ?_⟩,
      Db.Extends.refl _⟩
    rw [lookup_insert_eq_ite] at hm
    split_ifs at hm with ht
    · cases hm
      subst ht
      exact hinv.entries_rows _ existing hlookup
    · exact hinv.entries_rows t m hm
  obtain ⟨a, ha, rfl⟩ := InitKvsEvent.createKvsTable_eq_ok hcreate
  obtain ⟨-, rfl⟩ := Area.createTable_eq_ok ha
  have hfresh := createTableName_not_mem hname
  have hrow : tableName ∉ ev.conn.rowNames := fun hmem => by
    rw [Db.rowNames, List.mem_append, List.mem_map, List.mem_map] at hmem
    rcases hmem with ⟨r, hr, rfl⟩ | ⟨r, hr, rfl⟩
    · exact hfresh (hinv.rows_used false r hr)
    · exact hfresh (hinv.rows_used true r hr)
  have hpath : ∀ r ∈ (ev.conn.area isTransient).kvsInfo, r.modulePath ≠ module := fun r hr heq => by
    have := hinv.rows_known isTransient r hr
    rw [heq, ← AList.lookup_isSome, hlookup] at this
    exact absurd this (by simp)
  change EventInv { ev with
      foundModules := _, usedTableNames := _, moduleMetadata := _,
      conn := ev.conn.withKvsTable isTransient ⟨module, tableName, 0, _, keyVersion⟩ } ∧
    ev.conn.Extends (ev.conn.withKvsTable isTransient ⟨module, tableName, 0, _, keyVersion⟩)
  have hkeep := Db.extends_withKvsTable isTransient
    ⟨module, tableName, 0, interner.lookupName keyId, keyVersion⟩ hrow
  refine ⟨⟨hinv.wf.withKvsTable hrow hpath rfl, hinv.names.insert_fresh ⟨module, isTransient⟩
    ⟨tableName, interner.lookupName keyId, keyVersion, true⟩ hfresh, ?_, ?_, ?_⟩, hkeep⟩
  · intro b r hr
    rcases Db.mem_kvsInfo_withKvsTable.mp hr with hr | ⟨-, rfl⟩
    · exact Finset.mem_insert_of_mem (hinv.rows_used b r hr)
    · exact Finset.mem_insert_self _ _
  · intro b r hr
    rw [AList.mem_insert]
    rcases Db.mem_kvsInfo_withKvsTable.mp hr with hr | ⟨rfl, rfl⟩
    · exact .inr (hinv.rows_known b r hr)
    · exact .inl rfl
  · intro t m hm
    rw [lookup_insert_eq_ite] at hm
    split_ifs at hm with ht
    · cases hm
      subst ht
      exact ⟨_, Db.mem_kvsInfo_withKvsTable.mpr (.inr ⟨rfl, rfl⟩), rfl, rfl, rfl, rfl⟩
    · obtain ⟨r, hr, h⟩ := hinv.entries_rows t m hm
      exact ⟨r, hkeep.rows _ r hr, h⟩

/-- The handlers keep `EventInv` up to the last one that returned, successful or not. -/
theorem EventInv.initModules : ∀ {ev : InitKvsEvent} {stores : List KvsStoreDecl}, EventInv ev →
    EventInv (ev.initModules interner hexDigest stores).1 ∧
      ev.conn.Extends (ev.initModules interner hexDigest stores).1.conn
  | ev, [], hinv => ⟨hinv, Db.Extends.refl _⟩
  | ev, d :: ds, hinv => by
    simp only [InitKvsEvent.initModules]
    split
    · rename_i ev' h
      obtain ⟨hinv', hkeep⟩ := hinv.initModule h
      obtain ⟨hinv'', hkeep'⟩ : EventInv (ev'.initModules interner hexDigest ds).1 ∧
        ev'.conn.Extends (ev'.initModules interner hexDigest ds).1.conn := EventInv.initModules hinv'
      exact ⟨hinv'', hkeep.trans hkeep'⟩
    · exact ⟨hinv, Db.Extends.refl _⟩

end Handler

/-! ## Cleaning up -/

/-- `db'` is `db` with some transient tables dropped. -/
structure Db.DropsTransient (db db' : Db) : Prop where
  rows : ∀ b, (db'.area b).kvsInfo = (db.area b).kvsInfo
  persistent : db'.area false = db.area false
  tables : ∀ name, ((db'.area true).tables name).isSome → ((db.area true).tables name).isSome

theorem Db.DropsTransient.refl (db : Db) : db.DropsTransient db :=
  ⟨fun _ => rfl, rfl, fun _ h => h⟩

theorem Db.DropsTransient.trans {db₁ db₂ db₃ : Db} (h₁ : db₁.DropsTransient db₂)
    (h₂ : db₂.DropsTransient db₃) : db₁.DropsTransient db₃ :=
  ⟨fun b => (h₂.rows b).trans (h₁.rows b), h₂.persistent.trans h₁.persistent,
    fun name h => h₁.tables name (h₂.tables name h)⟩

theorem Db.DropsTransient.keeps {db db' : Db} (h : db.DropsTransient db') : db.Keeps db' :=
  ⟨fun b r hr => (h.rows b).symm ▸ hr, fun _ _ => by rw [h.persistent]⟩

theorem Db.DropsTransient.wellFormed {db db' : Db} (h : db.DropsTransient db')
    (hwf : db.WellFormed) : db'.WellFormed where
  names_nodup := by simpa [Db.rowNames, h.rows] using hwf.names_nodup
  paths_nodup := by simpa [h.rows] using hwf.paths_nodup
  version_zero := by simpa [h.rows] using hwf.version_zero
  tables_named := by
    intro b name hname
    rw [h.rows]
    cases b
    · rw [h.persistent] at hname; exact hwf.tables_named false name hname
    · exact hwf.tables_named true name (h.tables name hname)
  persistent_tables := by simpa [h.persistent] using hwf.persistent_tables

/-- One `DROP TABLE` in the transient area. -/
theorem Db.dropsTransient_dropTable {db : Db} {name : String} {a : Area}
    (h : (db.area true).dropTable name = .ok a) : db.DropsTransient (db.setArea true a) := by
  obtain ⟨-, rfl⟩ := Area.dropTable_eq_ok h
  refine ⟨fun b => ?_, rfl, fun n hn => ?_⟩
  · cases b <;> rfl
  · rw [Db.area_setArea_self] at hn
    by_cases hnn : n = name
    · subst hnn; simp at hn
    · simpa [Function.update_apply, hnn] using hn

section Cleanup

variable {db : Db} {key : KvsTarget} {md : KvsMetadata} {rest : List (Σ _ : KvsTarget, KvsMetadata)}

/-- The cleanup loop drops the table of an unused transient entry and goes on. -/
theorem dropUnusedTransient_cons_drop {a : Area} (h : md.isUsed = false ∧ key.isTransient = true)
    (hd : (db.area true).dropTable md.tableName = .ok a) :
    dropUnusedTransient db (⟨key, md⟩ :: rest) = dropUnusedTransient (db.setArea true a) rest := by
  obtain ⟨h₁, h₂⟩ := h
  simp [dropUnusedTransient, h₁, h₂, hd]

/-- The cleanup loop stops at a `DROP TABLE` that fails. -/
theorem dropUnusedTransient_cons_fail {e : String} (h : md.isUsed = false ∧ key.isTransient = true)
    (hd : (db.area true).dropTable md.tableName = .error e) :
    dropUnusedTransient db (⟨key, md⟩ :: rest) = (db, some (.sql e)) := by
  obtain ⟨h₁, h₂⟩ := h
  simp [dropUnusedTransient, h₁, h₂, hd]

/-- The cleanup loop skips a used or persistent entry. -/
theorem dropUnusedTransient_cons_skip (h : ¬ (md.isUsed = false ∧ key.isTransient = true)) :
    dropUnusedTransient db (⟨key, md⟩ :: rest) = dropUnusedTransient db rest := by
  rw [dropUnusedTransient, if_neg (by cases hu : md.isUsed <;> simp_all)]

end Cleanup

/-- The cleanup loop only drops transient tables. -/
theorem dropUnusedTransient_drops : ∀ (db : Db) (es : List (Σ _ : KvsTarget, KvsMetadata)),
    db.DropsTransient (dropUnusedTransient db es).1
  | db, [] => Db.DropsTransient.refl db
  | db, ⟨key, md⟩ :: rest => by
    by_cases h : md.isUsed = false ∧ key.isTransient = true
    · cases hd : (db.area true).dropTable md.tableName with
      | ok a =>
        rw [dropUnusedTransient_cons_drop h hd]
        exact (Db.dropsTransient_dropTable hd).trans (dropUnusedTransient_drops _ rest)
      | error e =>
        rw [dropUnusedTransient_cons_fail h hd]
        exact Db.DropsTransient.refl db
    · rw [dropUnusedTransient_cons_skip h]
      exact dropUnusedTransient_drops db rest

/-! ## A whole start -/

section Start

variable {interner : StringInterner} {hexDigest : String → String}

/-- Every start, successful or not, keeps a well-formed database well formed, with its rows and its
persistent tables. -/
theorem initKvs_wellFormed {db : Db} (hwf : db.WellFormed) (stores : List KvsStoreDecl) :
    (initKvs interner hexDigest db stores).1.WellFormed ∧
      db.Keeps (initKvs interner hexDigest db stores).1 := by
  have hm := hwf.migrateKvs
  have hkm := (Db.extends_migrateKvs db).keeps
  unfold initKvs
  split
  · exact ⟨hm, hkm⟩
  rename_i ev hload
  obtain ⟨hinv, hconn, -⟩ := loadBoth_eventInv hm hload
  obtain ⟨hinv', hkeep⟩ : EventInv (ev.initModules interner hexDigest stores).1 ∧
      ev.conn.Extends (ev.initModules interner hexDigest stores).1.conn := EventInv.initModules hinv
  rw [hconn] at hkeep
  split
  · rename_i ev' e hres
    rw [hres] at hinv' hkeep
    exact ⟨hinv'.wf, hkm.trans hkeep.keeps⟩
  · rename_i ev' hres
    rw [hres] at hinv' hkeep
    have hdrop := dropUnusedTransient_drops ev'.conn ev'.moduleMetadata.entries
    split <;> rename_i db' _ hd <;> rw [hd] at hdrop <;>
      exact ⟨hdrop.wellFormed hinv'.wf, hkm.trans (hkeep.keeps.trans hdrop.keeps)⟩

/-- A successful start: loading, the pass and the cleanup all succeeded, and the late map is the
pass's. -/
theorem initKvs_eq_ok {db db' : Db} {stores : List KvsStoreDecl} {late : InitKvsLate}
    (h : initKvs interner hexDigest db stores = (db', .ok late)) :
    ∃ ev ev', (InitKvsEvent.start (migrateKvs db)).loadKvsMetadata false >>=
        (·.loadKvsMetadata true) = .ok ev ∧
      ev.initModules interner hexDigest stores = (ev', none) ∧
      dropUnusedTransient ev'.conn ev'.moduleMetadata.entries = (db', none) ∧
      late = ⟨ev'.moduleMetadata⟩ := by
  unfold initKvs at h
  split at h
  · simp at h
  rename_i ev hload
  split at h
  · simp at h
  rename_i ev' hres
  split at h
  · simp at h
  rename_i db'' hd
  simp only [Prod.mk.injEq, Except.ok.injEq] at h
  obtain ⟨rfl, rfl⟩ := h
  exact ⟨ev, ev', hload, hres, hd, rfl⟩

end Start

end Database
end Sylphie
