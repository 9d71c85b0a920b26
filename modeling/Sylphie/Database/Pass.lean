import Sylphie.Database.InitKvs

/-!
# Pass — what the reconciliation pass does with any list of stores

`InitKvsEvent` is dispatched to the stores in registration order, so the pass is a fold of
`init_module` over the list of declarations. `PassInv ev₀ done ev` records what the handlers of
`done` have established, relative to the event `ev₀` the pass started from; one handler keeps it
(`PassInv.step`), hence the whole fold does (`PassInv.initModules`). An error is traced back to the
handler that raised it (`PassInv.initModules_error`).

The main result, `initModules_outcome`, holds for every loaded map and every order of the stores:
the pass fails on a module name seen twice, at its second occurrence, unless a table creation
failed first; when it succeeds, every declared namespace is known and used, every loaded one keeps
its table and key schema, and exactly the new namespaces got tables whose names were not in use.
-/

namespace Sylphie
namespace Database

section Pass

variable {interner : StringInterner} {hexDigest : String → String}

/-- The module names of a list of declarations. -/
def modulesOf (stores : List KvsStoreDecl) : List String := stores.map (·.module)

/-- The entry a successful handler for `d` leaves: used, with `d`'s key version, and a key id that
`lookup_id` resolves to `d`'s key name or that `lookup_name` gave for it. -/
def Declares (interner : StringInterner) (d : KvsStoreDecl) (m : KvsMetadata) : Prop :=
  m.isUsed = true ∧ m.keyVersion = d.keyVersion ∧
    (interner.lookupId m.keyId = some d.keyId ∨ m.keyId = interner.lookupName d.keyId)

/-- What the handlers of `done` have established, relative to the start `ev₀`. -/
structure PassInv (interner : StringInterner) (ev₀ : InitKvsEvent) (done : List KvsStoreDecl)
    (ev : InitKvsEvent) : Prop where
  found : ev.foundModules = (modulesOf done).toFinset
  nodup : (modulesOf done).Nodup
  declared : ∀ d ∈ done, ∃ m, ev.moduleMetadata.lookup d.target = some m ∧ Declares interner d m
  undeclared : ∀ t, (∀ d ∈ done, d.target ≠ t) →
    ev.moduleMetadata.lookup t = ev₀.moduleMetadata.lookup t
  loaded : ∀ t m₀, ev₀.moduleMetadata.lookup t = some m₀ → ∃ m,
    ev.moduleMetadata.lookup t = some m ∧
      m.tableName = m₀.tableName ∧ m.keyId = m₀.keyId ∧ m.keyVersion = m₀.keyVersion
  created : ∀ d ∈ done, ev₀.moduleMetadata.lookup d.target = none → ∃ m,
    ev.moduleMetadata.lookup d.target = some m ∧ m.tableName ∉ ev₀.usedTableNames
  used : ev₀.usedTableNames ⊆ ev.usedTableNames

/-- Nothing is established before the first handler. -/
theorem PassInv.start {ev₀ : InitKvsEvent} (h : ev₀.foundModules = ∅) :
    PassInv interner ev₀ [] ev₀ where
  found := by simp [h, modulesOf]
  nodup := List.nodup_nil
  declared := by simp
  undeclared := fun _ _ => rfl
  loaded := fun _ m₀ h => ⟨m₀, h, rfl, rfl, rfl⟩
  created := by simp
  used := subset_rfl

/-- A target whose module was not declared yet is not one of `done`'s. -/
theorem target_ne_of_not_mem_modules {done : List KvsStoreDecl} {d : KvsStoreDecl}
    (h : d.module ∉ modulesOf done) : ∀ d' ∈ done, d'.target ≠ d.target := by
  intro d' hd' heq
  exact h (List.mem_map.mpr ⟨d', hd', congrArg KvsTarget.modulePath heq⟩)

/-- One handler keeps the invariant. -/
theorem PassInv.step {ev₀ ev ev' : InitKvsEvent} {done : List KvsStoreDecl} {d : KvsStoreDecl}
    (hinv : PassInv interner ev₀ done ev)
    (h : ev.initModule interner hexDigest d.keyId d.keyVersion d.module d.isTransient = .ok ev') :
    PassInv interner ev₀ (done ++ [d]) ev' := by
  obtain ⟨hfresh, hcase⟩ := InitKvsEvent.initModule_eq_ok h
  have hmod : d.module ∉ modulesOf done := by simpa [hinv.found] using hfresh
  have hne := target_ne_of_not_mem_modules hmod
  have hundecl : ev.moduleMetadata.lookup d.target = ev₀.moduleMetadata.lookup d.target :=
    hinv.undeclared _ hne
  -- The handler inserts at `d.target` a used entry `m`, and adds `d.module` to `found_modules`.
  obtain ⟨m, hm, hused, hfound, hmeta, hloaded, hcreated⟩ : ∃ m : KvsMetadata,
      ev'.moduleMetadata = ev.moduleMetadata.insert d.target m ∧ Declares interner d m ∧
      ev'.foundModules = insert d.module ev.foundModules ∧ ev.usedTableNames ⊆ ev'.usedTableNames ∧
      (∀ m₀, ev.moduleMetadata.lookup d.target = some m₀ → m.tableName = m₀.tableName ∧
        m.keyId = m₀.keyId ∧ m.keyVersion = m₀.keyVersion) ∧
      (ev.moduleMetadata.lookup d.target = none → m.tableName ∉ ev.usedTableNames) := by
    rcases hcase with ⟨existing, hlookup, hid, hver, rfl⟩ | ⟨tableName, hlookup, hname, hcreate⟩
    · refine ⟨{ existing with isUsed := true }, rfl, ⟨rfl, hver.symm, .inl hid⟩, rfl, subset_rfl,
        ?_, ?_⟩
      · intro m₀ h₀
        have : existing = m₀ := Option.some_injective _ (hlookup.symm.trans h₀)
        subst this
        exact ⟨rfl, rfl, rfl⟩
      · intro h₀
        exact absurd (hlookup.symm.trans h₀) (by simp)
    · obtain ⟨a, -, rfl⟩ := InitKvsEvent.createKvsTable_eq_ok hcreate
      refine ⟨_, rfl, ⟨rfl, rfl, .inr rfl⟩, rfl, Finset.subset_insert _ _, ?_,
        fun _ => createTableName_not_mem hname⟩
      intro m₀ h₀
      exact absurd (hlookup.symm.trans h₀) (by simp)
  refine ⟨?_, ?_, ?_, ?_, ?_, ?_, hinv.used.trans hmeta⟩
  · rw [hfound, hinv.found]
    ext x
    simp [modulesOf, or_comm]
  · have hdisj : ∀ x ∈ done, x.module ≠ d.module := fun x hx h =>
      hmod (List.mem_map.mpr ⟨x, hx, h⟩)
    simpa [modulesOf, List.nodup_append] using ⟨hinv.nodup, hdisj⟩
  · intro d' hd'
    rw [hm]
    rcases List.mem_append.mp hd' with hd' | hd'
    · simpa [lookup_insert_eq_ite, hne d' hd'] using hinv.declared d' hd'
    · simp [List.mem_singleton.mp hd', lookup_insert_eq_ite, hused]
  · intro t ht
    rw [hm, lookup_insert_eq_ite, if_neg (ht d (by simp)).symm]
    exact hinv.undeclared t fun d' hd' => ht d' (by simp [hd'])
  · intro t m₀ h₀
    obtain ⟨m₁, h₁, htab, hkey, hver⟩ := hinv.loaded t m₀ h₀
    rw [hm, lookup_insert_eq_ite]
    split_ifs with ht
    · subst ht
      obtain ⟨htab', hkey', hver'⟩ := hloaded m₁ h₁
      exact ⟨m, rfl, htab'.trans htab, hkey'.trans hkey, hver'.trans hver⟩
    · exact ⟨m₁, h₁, htab, hkey, hver⟩
  · intro d' hd' h₀
    rw [hm]
    rcases List.mem_append.mp hd' with hd' | hd'
    · simpa [lookup_insert_eq_ite, hne d' hd'] using hinv.created d' hd' h₀
    · obtain rfl := List.mem_singleton.mp hd'
      simp only [lookup_insert_eq_ite, if_true, Option.some.injEq, exists_eq_left']
      exact fun hmem => hcreated (hundecl.trans h₀) (hinv.used hmem)

/-- The invariant holds after every successful fold. -/
theorem PassInv.initModules {ev₀ : InitKvsEvent} :
    ∀ {done rest : List KvsStoreDecl} {ev ev' : InitKvsEvent}, PassInv interner ev₀ done ev →
      ev.initModules interner hexDigest rest = (ev', none) → PassInv interner ev₀ (done ++ rest) ev'
  | done, [], ev, ev', hinv, h => by
    simp only [InitKvsEvent.initModules, Prod.mk.injEq] at h
    simpa [← h.1] using hinv
  | done, d :: ds, ev, ev', hinv, h => by
    simp only [InitKvsEvent.initModules] at h
    split at h
    · simpa using PassInv.initModules (hinv.step ‹_›) h
    · simp at h

/-- The error a fold stops with: the duplicate error at the first repeated module name, or an
error of a table creation. Any other error would come from a key schema that disagrees with a
loaded entry. -/
theorem PassInv.initModules_error {ev₀ : InitKvsEvent} :
    ∀ {done rest : List KvsStoreDecl} {ev ev' : InitKvsEvent} {e : InitError},
      PassInv interner ev₀ done ev →
      (∀ d ∈ rest, ∀ m, ev₀.moduleMetadata.lookup d.target = some m →
        interner.lookupId m.keyId = some d.keyId ∧ m.keyVersion = d.keyVersion) →
      ev.initModules interner hexDigest rest = (ev', some e) →
      (∃ pre d post, done ++ rest = pre ++ d :: post ∧ (modulesOf pre).Nodup ∧
        d.module ∈ modulesOf pre ∧ e = duplicateModuleError d.module) ∨ e.IsCreateFailure
  | _, [], _, _, _, _, _, h => by simp [InitKvsEvent.initModules] at h
  | done, d :: ds, ev, ev', e, hinv, hrest, h => by
    simp only [InitKvsEvent.initModules] at h
    split at h
    · simpa using PassInv.initModules_error (hinv.step ‹_›)
        (fun d' hd' => hrest d' (List.mem_cons_of_mem _ hd')) h
    · rename_i e' herr
      simp only [Prod.mk.injEq, Option.some.injEq] at h
      obtain ⟨-, rfl⟩ := h
      rcases InitKvsEvent.initModule_eq_error herr with ⟨hmem, rfl⟩ |
        ⟨hfresh, existing, hlookup, hbad⟩ | ⟨-, -, hcreate⟩
      · exact .inl ⟨done, d, ds, rfl, hinv.nodup, by simpa [hinv.found] using hmem, rfl⟩
      · -- A loaded namespace keeps its entry until its module is declared, and its key schema
        -- agrees with the declaration by hypothesis.
        have hmod : d.module ∉ modulesOf done := by simpa [hinv.found] using hfresh
        have h₀ := (hinv.undeclared _ (target_ne_of_not_mem_modules hmod)).symm.trans hlookup
        obtain ⟨hid, hver⟩ := hrest d (List.mem_cons_self _ _) existing h₀
        exact absurd ⟨hid, hver.symm⟩ hbad
      · exact .inr hcreate

/-! ## The outcome of the pass -/

variable (interner)

/-- What a successful pass from `ev₀` over `stores` leaves in `ev`. -/
structure PassSucceeded (ev₀ : InitKvsEvent) (stores : List KvsStoreDecl) (ev : InitKvsEvent) :
    Prop where
  distinct : (modulesOf stores).Nodup
  declared : ∀ d ∈ stores, ∃ m, ev.moduleMetadata.lookup d.target = some m ∧ m.isUsed = true
  undeclared : ∀ t m₀, ev₀.moduleMetadata.lookup t = some m₀ → (∀ d ∈ stores, d.target ≠ t) →
    ev.moduleMetadata.lookup t = some m₀ ∧ m₀.isUsed = false
  loaded : ∀ t m₀, ev₀.moduleMetadata.lookup t = some m₀ → ∃ m,
    ev.moduleMetadata.lookup t = some m ∧
      m.tableName = m₀.tableName ∧ m.keyId = m₀.keyId ∧ m.keyVersion = m₀.keyVersion
  known : ∀ t, (ev.moduleMetadata.lookup t).isSome ↔
    (ev₀.moduleMetadata.lookup t).isSome ∨ ∃ d ∈ stores, d.target = t
  created : ∀ d ∈ stores, ev₀.moduleMetadata.lookup d.target = none → ∃ m,
    ev.moduleMetadata.lookup d.target = some m ∧ m.tableName ∉ ev₀.usedTableNames
  bound : ∀ d ∈ stores, (d.bind interner ⟨ev.moduleMetadata⟩).isSome

/-- How a failed pass over `stores` failed: at the second occurrence of a module name, or in a
table creation. -/
def PassFailed (stores : List KvsStoreDecl) (e : InitError) : Prop :=
  (∃ pre d post, stores = pre ++ d :: post ∧ (modulesOf pre).Nodup ∧
    d.module ∈ modulesOf pre ∧ e = duplicateModuleError d.module) ∨ e.IsCreateFailure

/-- The reconciliation pass, for any loaded map whose entries are unused and any list of stores
in any order, provided every store whose namespace was loaded declares that entry's key schema. -/
theorem initModules_outcome (ev₀ : InitKvsEvent) (stores : List KvsStoreDecl)
    (hfound : ev₀.foundModules = ∅)
    (hunused : ∀ t m, ev₀.moduleMetadata.lookup t = some m → m.isUsed = false)
    (hkeys : ∀ d ∈ stores, ∀ m, ev₀.moduleMetadata.lookup d.target = some m →
      interner.lookupId m.keyId = some d.keyId ∧ m.keyVersion = d.keyVersion) :
    (∀ ev, ev₀.initModules interner hexDigest stores = (ev, none) →
      PassSucceeded interner ev₀ stores ev) ∧
    (∀ ev e, ev₀.initModules interner hexDigest stores = (ev, some e) → PassFailed stores e) := by
  refine ⟨fun ev h => ?_, fun ev e h => by
    simpa [PassFailed] using (PassInv.start hfound).initModules_error hkeys h⟩
  have hinv : PassInv interner ev₀ stores ev := by simpa using (PassInv.start hfound).initModules h
  refine ⟨hinv.nodup, fun d hd => (hinv.declared d hd).imp fun _ h => ⟨h.1, h.2.1⟩,
    fun t m₀ h₀ ht => ⟨(hinv.undeclared t ht).trans h₀, hunused t m₀ h₀⟩, hinv.loaded,
    fun t => ⟨fun hs => ?_, ?_⟩, hinv.created, fun d hd => ?_⟩
  · by_cases ht : ∃ d ∈ stores, d.target = t
    · exact .inr ht
    · push_neg at ht
      exact .inl (by rwa [← hinv.undeclared t ht])
  · rintro (hs | ⟨d, hd, rfl⟩)
    · obtain ⟨m₀, h₀⟩ := Option.isSome_iff_exists.mp hs
      obtain ⟨m, hm, -⟩ := hinv.loaded t m₀ h₀
      simp [hm]
    · obtain ⟨m, hm, -⟩ := hinv.declared d hd
      simp [hm]
  · obtain ⟨m, hm, -⟩ := hinv.declared d hd
    have hbind : d.bind interner ⟨ev.moduleMetadata⟩ = some _ := KvsStoreDecl.bind_of_lookup hm
    rw [hbind]
    rfl

/-- The pass at a start that loaded the persistent namespace of `m`, over `m`'s store, declared again,
and a new transient store of `n`. -/
theorem initModules_outcome_loaded_and_new :
    let interner : StringInterner := ⟨fun _ => 0, fun _ => some "k"⟩
    let ev₀ : InitKvsEvent :=
      ⟨∅, {"t"}, (∅ : ModuleMetadata).insert ⟨"m", false⟩ ⟨"t", 0, 1, false⟩, Db.empty⟩
    let stores : List KvsStoreDecl := [⟨"m", "k", 1, "v", false⟩, ⟨"n", "k", 1, "v", true⟩]
    ev₀.foundModules = ∅ ∧
    (∀ t m, ev₀.moduleMetadata.lookup t = some m → m.isUsed = false) ∧
    (∀ d ∈ stores, ∀ m, ev₀.moduleMetadata.lookup d.target = some m →
      interner.lookupId m.keyId = some d.keyId ∧ m.keyVersion = d.keyVersion) ∧
    (∀ ev, ev₀.initModules interner id stores = (ev, none) → PassSucceeded interner ev₀ stores ev) ∧
    (∀ ev e, ev₀.initModules interner id stores = (ev, some e) → PassFailed stores e) := by
  intro interner ev₀ stores
  have hunused : ∀ t m, ev₀.moduleMetadata.lookup t = some m → m.isUsed = false := by
    intro t m h
    rw [lookup_insert_eq_ite] at h
    split_ifs at h
    · cases h; rfl
    · cases h
  have hkeys : ∀ d ∈ stores, ∀ m, ev₀.moduleMetadata.lookup d.target = some m →
      interner.lookupId m.keyId = some d.keyId ∧ m.keyVersion = d.keyVersion := by
    intro d hd m h
    rw [lookup_insert_eq_ite] at h
    simp only [stores, List.mem_cons, List.mem_singleton, List.not_mem_nil, or_false] at hd
    rcases hd with rfl | rfl <;> split_ifs at h with hc
    · cases h
      exact ⟨rfl, rfl⟩
    · exact absurd rfl hc
    · exact absurd hc (by decide)
    · simp at h
  exact ⟨rfl, hunused, hkeys, initModules_outcome _ _ _ rfl hunused hkeys⟩

end Pass

end Database
end Sylphie
