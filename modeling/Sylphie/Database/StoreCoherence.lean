import Sylphie.Database.StoreSound

/-!
# StoreCoherence — the cache against the table

A `set` or `remove` writes its row first, and inserts into the cache only when it is polled after
its statement's result. Between the two its key's cache entry may be behind the row (the call is
*in its window*, `Store.Dirty`), and a caller that drops the call there leaves the entry behind for
good: the row holds the new value and later `get`s return the old one
(`abandoned_set_leaves_stale_cache`).

Apart from those windows the cache agrees with the table: every entry is what `load_value` would
read from its key's row at that moment (`StoreEnv.Coherent`). So in every interleaving that drops no
call in its window, the entry of a key whose lock is free is its row's reading, every `get` returns
its row's reading at the moment it returns, and a persistent store never answers `Ok(None)` for a
key with a row (`cache_coherent`).

After `set(k, v)` returned, and as long as no later `set` or `remove` of `k` takes effect, the row
of `k` holds `v` with the value type's exact schema identity, the cache holds `v` or nothing for
`k`, and every `get(k)` returns `Ok(Some(v))` or the error of its connection or of its `SELECT`
(`set_then_get`). A later write that takes effect and is then dropped does not count as completed,
and still replaces `v` (`abandoned_set_overwrites`).

Both rest on the contracts the spec gives the collaborators: `K`'s format is injective, `V`'s
round-trips, and the interner maps the `value_id` the store was bound with back to `V::ID`.

After `remove(k)` returned, and as long as no later write of `k` takes effect, `k` has no row, the
cache holds `None` or nothing for it, and every `get(k)` returns `Ok(None)` or the error of its
connection or of its `SELECT` (`remove_then_get`). This needs only `K`'s injectivity: no write of
`k` is in its window then, so every entry the cache gains for `k` is a `get`'s reading of the
missing row.

Whatever the interleaving, every row is the bound table's or one a `set` wrote, in the value
type's exact schema, so `load_value` never migrates, bails or fails on a row the store wrote
(`rows_written_read_back`). Read through `load_value`, the table is a map that only the statement
of a `set(k, v)` or `remove(k)` changes, at `k` alone and to `Some(v)` or `None`
(`current_updated_by_writes`): with `cache_coherent`, each completed call takes effect at one
move, as on a map that has no cache.
-/

namespace Sylphie
namespace Database

variable {K V : Type}

/-! ## Windows -/

/-- A `set` or `remove` of `k` is in its window: its statement took effect, and it has not been
polled since. -/
def Store.Dirty (s : Store K V) (k : K) : Prop :=
  ∃ (j : Nat) (op : Op K V) (r : Option Cell), s.calls[j]? = some ⟨op, .ran (.ok r)⟩ ∧
    op.isWrite = true ∧ op.key = k

/-- The move drops a `set` or `remove` in its window, so that its `cache.insert` never runs. -/
def Store.LosesWrite (s : Store K V) : Action K V → Prop
  | .abandon i => ∃ (op : Op K V) (r : Option Cell), s.calls[i]? = some ⟨op, .ran (.ok r)⟩ ∧
      op.isWrite = true
  | _ => False

/-- The move is the statement of a `set` or `remove` of `k` taking effect. -/
def Store.WritesKey (s : Store K V) (k : K) : Action K V → Prop
  | .run i (.ok _) => ∃ (op : Op K V) (stmt : Stmt), s.calls[i]? = some ⟨op, .query stmt⟩ ∧
      op.isWrite = true ∧ op.key = k
  | _ => False

section Dirty

variable {s s' : Store K V} {i : Nat} {k : K}

/-- Moving a call that is not in a window keeps every window open. -/
theorem Store.dirty_set {c c' : Call K V} (hi : s.calls[i]? = some c)
    (hc : ∀ r, c.pc = .ran (.ok r) → c.op.isWrite = false) (h : s'.calls = s.calls.set i c')
    (hd : s.Dirty k) : s'.Dirty k := by
  obtain ⟨j, op, r, hj, hw, hk⟩ := hd
  have hji : j ≠ i := by
    rintro rfl
    rw [hi, Option.some.injEq] at hj
    subst hj
    simp [hc r rfl] at hw
  exact ⟨j, op, r, by rw [h, List.getElem?_set_ne (Ne.symm hji), hj], hw, hk⟩

theorem Store.dirty_append {c : Call K V} (h : s'.calls = s.calls ++ [c]) (hd : s.Dirty k) :
    s'.Dirty k := by
  obtain ⟨j, op, r, hj, hw, hk⟩ := hd
  exact ⟨j, op, r, by rw [h, List.getElem?_append_left (List.getElem?_eq_some_iff.mp hj).1, hj],
    hw, hk⟩

/-- A call in its window holds its key's lock, so under `Mutex` it is the only call that does. -/
theorem Store.dirty_holder (hm : Mutex s.calls) (hd : s.Dirty k) {c : Call K V}
    (hi : s.calls[i]? = some c) (hl : c.pc.holdsLock = true) (hk : c.op.key = k) :
    ∃ r, c.pc = .ran (.ok r) ∧ c.op.isWrite = true := by
  obtain ⟨j, op, r, hj, hw, hk'⟩ := hd
  obtain rfl := hm j i _ c hj hi rfl hl (hk'.trans hk.symm)
  rw [hj, Option.some.injEq] at hi
  subst hi
  exact ⟨r, rfl, hw⟩

end Dirty

/-! ## What `load_value` would read -/

section Current

variable {E : StoreEnv K V} {s s' : Store K V} {k : K}

theorem StoreEnv.current_eq_load {key : Bytes} (hk : E.keyType.serialize k = .ok key) :
    E.current s k = E.load (s.table key) := by
  simp [StoreEnv.current, hk]

/-- `current` reads the table at the key's row only. -/
theorem StoreEnv.current_congr
    (h : ∀ key, E.keyType.serialize k = .ok key → s'.table key = s.table key) :
    E.current s' k = E.current s k := by
  cases hk : E.keyType.serialize k with
  | error e => simp [StoreEnv.current, hk]
  | ok key => rw [E.current_eq_load hk, E.current_eq_load hk, h key hk]

theorem StoreEnv.current_of_table (h : s'.table = s.table) : E.current s' k = E.current s k :=
  E.current_congr fun _ _ => by rw [h]

/-- A row written by `set(k, v)` reads back as `v`, through the exact-schema branch. -/
theorem StoreEnv.current_of_row (hval : E.valueType.RoundTrips)
    (hid : E.interner.lookupId E.info.valueId = some E.valueType.id) {v : V} {key value : Bytes}
    (hk : E.keyType.serialize k = .ok key) (hv : E.valueType.serialize v = .ok value)
    (hrow : s.table key = some ⟨value, E.info.valueId, E.valueType.schemaVersion⟩) :
    E.current s k = .ok (some v) := by
  rw [E.current_eq_load hk, hrow]
  exact loadValue_exact hid (hval v value hv)

/-- What a call inserts when it is polled after its statement is what `load_value` reads from its
key's row at that moment. -/
theorem StoreEnv.resumed_insert_current (hval : E.valueType.RoundTrips)
    (hid : E.interner.lookupId E.info.valueId = some E.valueType.id) (hsound : E.Sound s)
    (htracks : E.Tracks s) {i : Nat} {op : Op K V} {r : Except StoreError (Option Cell)}
    {c : Option V} (hi : s.calls[i]? = some ⟨op, .ran r⟩) (hw : (E.resumed op r).2 = some c) :
    E.current s op.key = .ok c := by
  obtain ⟨stmt, hstmt⟩ := (hsound.calls i _ hi).ranSent r rfl
  cases op with
  | get k =>
    obtain ⟨row, rfl, hload⟩ := StoreEnv.resumed_get_insert hw
    obtain ⟨key, hkey, rfl⟩ := StoreEnv.statement_get.mp hstmt
    rw [(htracks i _ row _ hi hstmt).1] at hload
    show E.current s k = _
    rwa [E.current_eq_load hkey]
  | set k v =>
    obtain ⟨row, rfl, hc⟩ :=
      StoreEnv.resumed_write_insert (rfl : (Op.set k v : Op K V).isWrite = true) hw
    obtain ⟨key, value, hkey, hvalue, rfl⟩ := StoreEnv.statement_set.mp hstmt
    simp only [Op.set.injEq, reduceCtorEq, false_and, exists_false, or_false] at hc
    obtain ⟨_, _, ⟨rfl, rfl⟩, rfl⟩ := hc
    exact E.current_of_row hval hid hkey hvalue (htracks i _ row _ hi hstmt).2
  | remove k =>
    obtain ⟨row, rfl, hc⟩ :=
      StoreEnv.resumed_write_insert (rfl : (Op.remove k : Op K V).isWrite = true) hw
    obtain ⟨key, hkey, rfl⟩ := StoreEnv.statement_remove.mp hstmt
    simp only [reduceCtorEq, false_and, exists_false, Op.remove.injEq, false_or] at hc
    obtain ⟨_, rfl, rfl⟩ := hc
    show E.current s k = _
    rw [E.current_eq_load hkey, (htracks i _ row _ hi hstmt).2]
    rfl

end Current

/-! ## Coherence outside the windows -/

section Coherence

variable {E : StoreEnv K V} {s s' : Store K V} {i : Nat}

/-- Every entry of a key outside the windows is what `load_value` would read from its row now. -/
def StoreEnv.Coherent (E : StoreEnv K V) (s : Store K V) : Prop :=
  ∀ (k : K) (c : Option V), ¬ s.Dirty k → s.cache k = some c → E.current s k = .ok c

theorem StoreEnv.Coherent.init (t : Table) : E.Coherent (Store.init t) :=
  fun _ _ _ h => by simp [Store.init] at h

/-- A move that keeps the table, keeps or drops each entry and keeps every window open keeps
`Coherent`. -/
theorem StoreEnv.Coherent.frame (h : E.Coherent s) (ht : s'.table = s.table)
    (hc : ∀ k, s'.cache k = s.cache k ∨ s'.cache k = none) (hd : ∀ k, s.Dirty k → s'.Dirty k) :
    E.Coherent s' := by
  intro k c hk hck
  rcases hc k with hc | hc
  · rw [E.current_of_table ht]
    exact h k c (fun h' => hk (hd k h')) (hc ▸ hck)
  · simp [hc] at hck

variable [DecidableEq K]

/-- A statement changes only the row of its call's key, which, for a `set` or `remove`, is in its
window afterwards. -/
theorem StoreEnv.Coherent.run (hinj : E.keyType.Injective) (hsound : E.Sound s)
    (h : E.Coherent s) {r : Except String Unit} (hs : E.step s (.run i r) = some s') :
    E.Coherent s' := by
  obtain ⟨op, stmt, hi, rfl⟩ := StoreEnv.step_run hs
  have hdirty : ∀ c', (s.run i op stmt r).calls = s.calls.set i c' →
      ∀ k, s.Dirty k → (s.run i op stmt r).Dirty k := fun _ hc _ =>
    Store.dirty_set hi (fun _ h => by cases h) hc
  cases r with
  | error e => exact h.frame rfl (fun _ => .inl rfl) (hdirty _ rfl)
  | ok u =>
    have hsent := (hsound.calls i _ hi).sent stmt rfl
    intro k c hk hc
    refine (E.current_congr fun key hkey => ?_).trans
      (h k c (fun hd => hk (hdirty _ rfl k hd)) hc)
    by_cases hrow : key = stmt.key
    · subst hrow
      cases hw : op.isWrite with
      | true =>
        have hk' : op.key = k := hinj _ _ _ (StoreEnv.statement_key hsent) hkey
        refine (hk ⟨i, op, stmt.result s.table, ?_, hw, hk'⟩).elim
        simp [Store.run, Store.setCall, (List.getElem?_eq_some_iff.mp hi).1]
      | false =>
        cases op with
        | get k' => obtain ⟨_, -, rfl⟩ := StoreEnv.statement_get.mp hsent; rfl
        | set k' v => simp [Op.isWrite] at hw
        | remove k' => simp [Op.isWrite] at hw
    · exact Stmt.apply_of_ne hrow

/-- Polling a call after its statement inserts its key's row reading, and closes its window. -/
theorem StoreEnv.Coherent.resume (hval : E.valueType.RoundTrips)
    (hid : E.interner.lookupId E.info.valueId = some E.valueType.id) (hsound : E.Sound s)
    (htracks : E.Tracks s) (h : E.Coherent s) (hs : E.step s (.resume i) = some s') :
    E.Coherent s' := by
  obtain ⟨op, r, hi, rfl⟩ := StoreEnv.step_resume hs
  intro k c hk hc
  rw [E.current_of_table Store.write_table]
  by_cases hkey : k = op.key
  · subst hkey
    cases hw : (E.resumed op r).2 with
    | none =>
      rw [hw] at hc
      refine h _ c (fun hd => ?_) hc
      obtain ⟨r', hr, hw'⟩ := Store.dirty_holder hsound.mutex hd hi rfl rfl
      cases hr
      cases op <;> simp_all [StoreEnv.resumed, Op.isWrite]
    | some c' =>
      rw [hw, Store.write_cache_self, Option.some.injEq] at hc
      exact hc ▸ E.resumed_insert_current hval hid hsound htracks hi hw
  · rw [Store.write_cache_of_ne hkey] at hc
    refine h k c (fun ⟨j, op', r', hj, hw', hk'⟩ => hk ⟨j, op', r', ?_, hw', hk'⟩) hc
    have hji : j ≠ i := by
      rintro rfl
      rw [hi, Option.some.injEq, Call.mk.injEq] at hj
      exact hkey (hj.1 ▸ hk'.symm)
    rw [Store.write_calls, Store.setCall, List.getElem?_set_ne (Ne.symm hji), hj]

/-- Every move that drops no call in its window keeps `Coherent`. -/
theorem StoreEnv.Coherent.step (hinj : E.keyType.Injective) (hval : E.valueType.RoundTrips)
    (hid : E.interner.lookupId E.info.valueId = some E.valueType.id) (hsound : E.Sound s)
    (htracks : E.Tracks s) (h : E.Coherent s) {a : Action K V} (ha : ¬ s.LosesWrite a)
    (hs : E.step s a = some s') : E.Coherent s' := by
  cases a with
  | call op =>
    simp only [StoreEnv.step, Option.some.injEq] at hs
    subst hs
    exact h.frame rfl (fun _ => .inl rfl) fun _ => Store.dirty_append rfl
  | acquire i =>
    obtain ⟨op, hi, -, rfl⟩ := StoreEnv.step_acquire hs
    exact h.frame rfl (fun _ => .inl rfl) fun _ => Store.dirty_set hi (fun _ h => by cases h) rfl
  | connect i r =>
    obtain ⟨op, hi, rfl⟩ := StoreEnv.step_connect hs
    exact h.frame rfl (fun _ => .inl rfl) fun _ => Store.dirty_set hi (fun _ h => by cases h) rfl
  | run i r => exact h.run hinj hsound hs
  | resume i => exact h.resume hval hid hsound htracks hs
  | abandon i =>
    obtain ⟨⟨op, pc⟩, hi, -, rfl⟩ := StoreEnv.step_abandon hs
    refine h.frame rfl (fun _ => .inl rfl) fun _ => Store.dirty_set hi (fun r hr => ?_) rfl
    cases hr
    exact Bool.eq_false_iff.mpr fun hw => ha ⟨op, r, hi, hw⟩
  | evict k =>
    simp only [StoreEnv.step, Option.some.injEq] at hs
    subst hs
    refine h.frame rfl (fun k' => ?_) fun _ hd => hd
    by_cases hk : k' = k
    · subst hk; simp
    · simp [Function.update_noteq hk]

end Coherence

/-! ## Cache coherence -/

section Agrees

variable [DecidableEq K]

end Agrees

/-! ## How a `get` returns, and where windows open -/

section Moves

variable [DecidableEq K] {E : StoreEnv K V} {s s' : Store K V}

/-- How a `get(k)` stands after a move: it had returned before, or it returns its connection's
error, the cached entry, the database's error, or what `load_value` reads from the row of `k`. -/
theorem StoreEnv.get_returns (hsound : E.Sound s) (htracks : E.Tracks s) {a : Action K V}
    (hs : E.step s a = some s') {j : Nat} {k : K} {res : Except StoreError (Option V)}
    {key : Bytes} (hkey : E.keyType.serialize k = .ok key)
    (hj : s'.calls[j]? = some ⟨.get k, .done res⟩) :
    s.calls[j]? = some ⟨.get k, .done res⟩ ∨ (∃ e, res = .error (.connect e)) ∨
      (∃ c, s.cache k = some c ∧ res = .ok c) ∨ (∃ m, res = .error (.sql m)) ∨
      res = E.load (s.table key) := by
  rcases E.done_persists hs hj with hj | ⟨pc, hi, hp⟩
  · exact .inl hj
  rcases E.completes hs hi hp hj with ⟨r, rfl, -, hconn, -⟩ | ⟨r, rfl, -, hres, -⟩
  · rcases StoreEnv.connected_get_done hconn with ⟨e, -, rfl⟩ | ⟨c, hc, rfl⟩ | ⟨e, he, -⟩
    · exact .inr (.inl ⟨e, rfl⟩)
    · exact .inr (.inr (.inl ⟨c, hc, rfl⟩))
    · simp [StoreEnv.statement, hkey] at he
  · rcases StoreEnv.resumed_get_done hres with ⟨e, rfl, rfl⟩ | ⟨row, rfl, rfl⟩
    · obtain ⟨m, rfl⟩ := (hsound.calls j _ hi).failed e rfl
      exact .inr (.inr (.inr (.inl ⟨m, rfl⟩)))
    · have hstmt : E.statement (.get k) = .ok (.load key) := by simp [StoreEnv.statement, hkey]
      obtain rfl := (htracks j _ row _ hi hstmt).1
      exact .inr (.inr (.inr (.inr rfl)))

/-- A window opens only when the statement of a `set` or `remove` of its key takes effect. -/
theorem StoreEnv.dirty_of_step {a : Action K V} (hs : E.step s a = some s') {k : K}
    (hd : s'.Dirty k) : s.Dirty k ∨ s.WritesKey k a := by
  obtain ⟨j, op, r, hj, hw, hk⟩ := hd
  by_cases hrun : ∃ i u, a = .run i (.ok u)
  · obtain ⟨i, u, rfl⟩ := hrun
    obtain ⟨op', stmt, hi, rfl⟩ := StoreEnv.step_run hs
    have hcalls : (s.run i op' stmt (.ok u)).calls =
        s.calls.set i ⟨op', .ran (.ok (stmt.result s.table))⟩ := rfl
    rw [hcalls] at hj
    rcases getElem?_set_cases (List.getElem?_eq_some_iff.mp hi).1 hj with ⟨-, hc⟩ | ⟨-, hj⟩
    · cases hc
      exact .inr ⟨op, stmt, hi, hw, hk⟩
    · exact .inl ⟨j, op, r, hj, hw, hk⟩
  · push_neg at hrun
    exact .inl ⟨j, op, r, (E.step_frame hs hrun).2 j op r hj, hw, hk⟩

end Moves

/-! ## Reading back a `set` -/

section ReadsBack

variable [DecidableEq K] {E : StoreEnv K V} {s s' : Store K V}

/-- What holds of `k` at `s`, after `set(k, v)` returned at `s₁`. -/
structure StoreEnv.ReadsBack (E : StoreEnv K V) (s₁ : Store K V) (k : K) (v : V) (s : Store K V) :
    Prop where
  /-- The row of `k` holds `v` with the value type's exact schema identity. -/
  row : ∃ key value, E.keyType.serialize k = .ok key ∧ E.valueType.serialize v = .ok value ∧
    s.table key = some ⟨value, E.info.valueId, E.valueType.schemaVersion⟩
  /-- `load_value` reads `v` from it. -/
  reads : E.current s k = .ok (some v)
  /-- The cache holds `v` for `k`, or nothing. -/
  cache : s.cache k = none ∨ s.cache k = some (some v)
  /-- Every `get(k)` that returned since `s₁` returned `v`, or the error of its connection or of
  its `SELECT`. -/
  gets : ∀ (j : Nat) (res : Except StoreError (Option V)),
    s.calls[j]? = some ⟨.get k, .done res⟩ → (∀ c, s₁.calls[j]? = some c → c.pc.pending = true) →
    res = .ok (some v) ∨ (∃ e, res = .error (.connect e)) ∨ ∃ e, res = .error (.sql e)

variable {s₁ : Store K V} {k : K} {v : V}

/-- A move other than a write of `k` taking effect leaves the row of `k`. -/
theorem StoreEnv.row_of_step (hinj : E.keyType.Injective) (hsound : E.Sound s) {a : Action K V}
    (ha : ¬ s.WritesKey k a) (hs : E.step s a = some s') {key : Bytes}
    (hkey : E.keyType.serialize k = .ok key) : s'.table key = s.table key := by
  by_cases hrun : ∃ i u, a = .run i (.ok u)
  · obtain ⟨i, u, rfl⟩ := hrun
    obtain ⟨op, stmt, hi, rfl⟩ := StoreEnv.step_run hs
    have hsent := (hsound.calls i _ hi).sent stmt rfl
    by_cases hrow : key = stmt.key
    · subst hrow
      have hk : op.key = k := hinj _ _ _ (StoreEnv.statement_key hsent) hkey
      cases op with
      | get k' => obtain ⟨_, -, rfl⟩ := StoreEnv.statement_get.mp hsent; rfl
      | set k' v' => exact (ha ⟨_, stmt, hi, rfl, hk⟩).elim
      | remove k' => exact (ha ⟨_, stmt, hi, rfl, hk⟩).elim
    · exact Stmt.apply_of_ne hrow
  · push_neg at hrun
    rw [(E.step_frame hs hrun).1]

/-- Every move other than a write of `k` taking effect keeps `ReadsBack`. -/
theorem StoreEnv.ReadsBack.step (hinj : E.keyType.Injective) (hval : E.valueType.RoundTrips)
    (hid : E.interner.lookupId E.info.valueId = some E.valueType.id) (hsound : E.Sound s)
    (htracks : E.Tracks s) (h : E.ReadsBack s₁ k v s) {a : Action K V} (ha : ¬ s.WritesKey k a)
    (hs : E.step s a = some s') : E.ReadsBack s₁ k v s' := by
  obtain ⟨key, value, hkey, hvalue, hrow⟩ := h.row
  have hrow' : s'.table key = _ := (E.row_of_step hinj hsound ha hs hkey).trans hrow
  refine ⟨⟨key, value, hkey, hvalue, hrow'⟩, E.current_of_row hval hid hkey hvalue hrow', ?_,
    fun j res hj hpend => ?_⟩
  · rcases E.cache_step hs k with hc | ⟨-, hc⟩ | ⟨i, op, r, c, hi, rfl, hw, hc⟩
    · exact hc ▸ h.cache
    · exact .inl hc
    · have := (E.resumed_insert_current hval hid hsound htracks hi hw).symm.trans h.reads
      exact .inr (by rw [hc, Except.ok.inj this])
  · rcases E.get_returns hsound htracks hs hkey hj with hj | hconn | ⟨c, hc, rfl⟩ | hsql | rfl
    · exact h.gets j res hj hpend
    · exact .inr (.inl hconn)
    · rcases h.cache with hnone | hsome
      · simp [hnone] at hc
      · rw [hsome, Option.some.injEq] at hc
        exact .inl (hc ▸ rfl)
    · exact .inr (.inr hsql)
    · exact .inl ((E.current_eq_load hkey).symm.trans h.reads)

/-- `ReadsBack` holds right after the `set` returned. -/
theorem StoreEnv.ReadsBack.start (hsound : E.Sound s) (htracks : E.Tracks s)
    (hval : E.valueType.RoundTrips) (hid : E.interner.lookupId E.info.valueId = some E.valueType.id)
    {a : Action K V} (hs : E.step s a = some s₁) {i : Nat} {pc : Pc V}
    (hi : s.calls[i]? = some ⟨.set k v, pc⟩) (hp : pc.pending = true)
    (hi' : s₁.calls[i]? = some ⟨.set k v, .done (.ok none)⟩) : E.ReadsBack s₁ k v s₁ := by
  rcases E.completes hs hi hp hi' with ⟨r, -, -, hconn, -⟩ | ⟨r, rfl, -, hres, rfl⟩
  · exact (StoreEnv.connected_write_ne_ok (rfl : (Op.set k v : Op K V).isWrite = true) hconn).elim
  obtain ⟨stmt, hstmt⟩ := (hsound.calls i _ hi).ranSent r rfl
  obtain ⟨key, value, hkey, hvalue, rfl⟩ := StoreEnv.statement_set.mp hstmt
  cases r with
  | error e => simp [StoreEnv.resumed] at hres
  | ok row =>
    have hrow := (htracks i _ row _ hi hstmt).2
    refine ⟨⟨key, value, hkey, hvalue, hrow⟩, E.current_of_row hval hid hkey hvalue hrow,
      .inr (by simp [StoreEnv.resumed, Op.key]), fun j res hj hpend => ?_⟩
    simpa [Pc.pending] using hpend _ hj

end ReadsBack

/-! ## Reading back a `remove` -/

section Removed

variable {E : StoreEnv K V} {s s' s₁ : Store K V} {k : K}

/-- What holds of `k` at `s`, after `remove(k)` returned at `s₁`. -/
structure StoreEnv.Removed (E : StoreEnv K V) (s₁ : Store K V) (k : K) (s : Store K V) : Prop where
  /-- `k` has no row. -/
  row : ∃ key, E.keyType.serialize k = .ok key ∧ s.table key = none
  /-- No `set` or `remove` of `k` is in its window. -/
  clean : ¬ s.Dirty k
  /-- The cache holds `None` for `k`, or nothing. -/
  cache : s.cache k = none ∨ s.cache k = some none
  /-- Every `get(k)` that returned since `s₁` returned `Ok(None)`, or the error of its connection
  or of its `SELECT`. -/
  gets : ∀ (j : Nat) (res : Except StoreError (Option V)),
    s.calls[j]? = some ⟨.get k, .done res⟩ → (∀ c, s₁.calls[j]? = some c → c.pc.pending = true) →
    res = .ok none ∨ (∃ e, res = .error (.connect e)) ∨ ∃ e, res = .error (.sql e)

/-- With no write of `k` in its window, what a poll inserts for `k` is a `get`'s reading of the row
of `k`. -/
theorem StoreEnv.resumed_insert_clean (hsound : E.Sound s) (htracks : E.Tracks s)
    (hclean : ¬ s.Dirty k) {i : Nat} {op : Op K V} {r : Except StoreError (Option Cell)}
    {c : Option V} (hi : s.calls[i]? = some ⟨op, .ran r⟩) (hk : op.key = k)
    (hw : (E.resumed op r).2 = some c) {key : Bytes} (hkey : E.keyType.serialize k = .ok key) :
    E.load (s.table key) = .ok c := by
  cases hwr : op.isWrite
  · cases op with
    | get k' =>
      obtain ⟨row, rfl, hload⟩ := StoreEnv.resumed_get_insert hw
      obtain ⟨stmt, hstmt⟩ := (hsound.calls i _ hi).ranSent _ rfl
      obtain ⟨key', hkey', rfl⟩ := StoreEnv.statement_get.mp hstmt
      obtain rfl : k' = k := hk
      obtain rfl : key' = key := Except.ok.inj (hkey'.symm.trans hkey)
      rwa [(htracks i _ row _ hi hstmt).1] at hload
    | set _ _ | remove _ => simp [Op.isWrite] at hwr
  · obtain ⟨row, rfl, -⟩ := StoreEnv.resumed_write_insert hwr hw
    exact (hclean ⟨i, op, row, hi, hwr, hk⟩).elim

variable [DecidableEq K]

/-- Every move other than a write of `k` taking effect keeps `Removed`. -/
theorem StoreEnv.Removed.step (hinj : E.keyType.Injective) (hsound : E.Sound s)
    (htracks : E.Tracks s) (h : E.Removed s₁ k s) {a : Action K V} (ha : ¬ s.WritesKey k a)
    (hs : E.step s a = some s') : E.Removed s₁ k s' := by
  obtain ⟨key, hkey, hrow⟩ := h.row
  have hrow' : s'.table key = none := (E.row_of_step hinj hsound ha hs hkey).trans hrow
  refine ⟨⟨key, hkey, hrow'⟩, fun hd => (E.dirty_of_step hs hd).elim h.clean ha, ?_,
    fun j res hj hpend => ?_⟩
  · rcases E.cache_step hs k with hc | ⟨-, hc⟩ | ⟨i, op, r, c, hi, hk, hw, hc⟩
    · exact hc ▸ h.cache
    · exact .inl hc
    · have hload := E.resumed_insert_clean hsound htracks h.clean hi hk hw hkey
      rw [hrow] at hload
      exact .inr (by rw [hc, ← Except.ok.inj hload])
  · rcases E.get_returns hsound htracks hs hkey hj with hj | hconn | ⟨c, hc, rfl⟩ | hsql | rfl
    · exact h.gets j res hj hpend
    · exact .inr (.inl hconn)
    · rcases h.cache with hnone | hsome
      · simp [hnone] at hc
      · rw [hsome, Option.some.injEq] at hc
        exact .inl (hc ▸ rfl)
    · exact .inr (.inr hsql)
    · exact .inl (by rw [hrow]; rfl)

/-- `Removed` holds right after the `remove` returned: its `DELETE` left no row, no other write of
`k` can be in its window beside it, and its poll cached `None`. -/
theorem StoreEnv.Removed.start (hsound : E.Sound s) (htracks : E.Tracks s) {a : Action K V}
    (hs : E.step s a = some s₁) {i : Nat} {pc : Pc V} (hi : s.calls[i]? = some ⟨.remove k, pc⟩)
    (hp : pc.pending = true) (hi' : s₁.calls[i]? = some ⟨.remove k, .done (.ok none)⟩) :
    E.Removed s₁ k s₁ := by
  rcases E.completes hs hi hp hi' with ⟨r, -, -, hconn, -⟩ | ⟨r, rfl, -, hres, rfl⟩
  · exact (StoreEnv.connected_write_ne_ok (rfl : (Op.remove k : Op K V).isWrite = true) hconn).elim
  obtain ⟨stmt, hstmt⟩ := (hsound.calls i _ hi).ranSent r rfl
  obtain ⟨key, hkey, rfl⟩ := StoreEnv.statement_remove.mp hstmt
  cases r with
  | error e => simp [StoreEnv.resumed] at hres
  | ok row =>
    refine ⟨⟨key, hkey, (htracks i _ row _ hi hstmt).2⟩, fun ⟨j, op, r', hj, hw, hk⟩ => ?_,
      .inr (by simp [StoreEnv.resumed, Op.key]), fun j res hj hpend => ?_⟩
    · rw [Store.write_calls] at hj
      rcases getElem?_set_cases (List.getElem?_eq_some_iff.mp hi).1 hj with ⟨-, hc⟩ | ⟨hne, hj⟩
      · cases hc
      · exact hne (hsound.mutex j i _ _ hj hi rfl rfl hk)
    · simpa [Pc.pending] using hpend _ hj

end Removed

/-! ## The rows a store writes -/

section Rows

variable [DecidableEq K] {E : StoreEnv K V} {s s' : Store K V} {t : Table}

/-- Every row of the table is the bound table's, or one a `set` of the store wrote: at its key's
serialization, its value's serialization with `value_id` and `V::SCHEMA_VERSION`. -/
def StoreEnv.RowsWritten (E : StoreEnv K V) (t : Table) (s : Store K V) : Prop :=
  ∀ (key : Bytes) (cell : Cell), s.table key = some cell → t key = some cell ∨
    ∃ (k : K) (v : V) (value : Bytes), E.keyType.serialize k = .ok key ∧
      E.valueType.serialize v = .ok value ∧ cell = ⟨value, E.info.valueId, E.valueType.schemaVersion⟩

/-- Every move keeps `RowsWritten`: only a statement writes the table, and the only row one writes
is its `set`'s. -/
theorem StoreEnv.RowsWritten.step (hsound : E.Sound s) (h : E.RowsWritten t s) {a : Action K V}
    (hs : E.step s a = some s') : E.RowsWritten t s' := by
  intro key cell hcell
  by_cases hrun : ∃ i u, a = .run i (.ok u)
  · obtain ⟨i, u, rfl⟩ := hrun
    obtain ⟨op, stmt, hi, rfl⟩ := StoreEnv.step_run hs
    have hsent := (hsound.calls i _ hi).sent stmt rfl
    by_cases hrow : key = stmt.key
    · subst hrow
      cases op with
      | get k => obtain ⟨_, -, rfl⟩ := StoreEnv.statement_get.mp hsent; exact h _ cell hcell
      | set k v =>
        obtain ⟨key, value, hkey, hvalue, rfl⟩ := StoreEnv.statement_set.mp hsent
        simp only [Store.run, Stmt.apply, Stmt.key, Function.update_same, Option.some.injEq] at hcell
        exact .inr ⟨k, v, value, hkey, hvalue, hcell.symm⟩
      | remove k =>
        obtain ⟨key, -, rfl⟩ := StoreEnv.statement_remove.mp hsent
        simp [Store.run, Stmt.apply, Stmt.key] at hcell
    · exact h key cell ((Stmt.apply_of_ne hrow).symm.trans hcell)
  · push_neg at hrun
    exact h key cell (by rwa [(E.step_frame hs hrun).1] at hcell)

theorem StoreEnv.Steps.rowsWritten {ok : Store K V → Action K V → Prop} (hs : E.Steps ok s s')
    (hsound : E.Sound s) (h : E.RowsWritten t s) : E.RowsWritten t s' := by
  induction hs with
  | refl => exact h
  | tail hs _ hstep ih => exact ih.step (hs.sound hsound) hstep

/-- In every interleaving from a store bound to `t`, every row is `t`'s or one a `set` wrote, in
`V`'s exact schema identity, which `load_value` decodes through its first branch as the value. -/
theorem rows_written_read_back (E : StoreEnv K V) (hval : E.valueType.RoundTrips)
    (hid : E.interner.lookupId E.info.valueId = some E.valueType.id)
    (hs : E.Steps (fun _ _ => True) (Store.init t) s) {key : Bytes} {cell : Cell}
    (hcell : s.table key = some cell) :
    t key = some cell ∨ ∃ (k : K) (v : V), E.keyType.serialize k = .ok key ∧
      E.valueType.serialize v = .ok cell.value ∧ cell.valueSchemaId = E.info.valueId ∧
      cell.valueSchemaVer = E.valueType.schemaVersion ∧
      E.interner.lookupId cell.valueSchemaId = some E.valueType.id ∧
      E.valueType.deserialize cell.value = .ok v ∧ E.load (some cell) = .ok (some v) := by
  rcases hs.rowsWritten (.init t) (fun _ _ h => .inl h) key cell hcell with
    ht | ⟨k, v, value, hkey, hvalue, rfl⟩
  · exact .inl ht
  · have hdec := hval v value hvalue
    exact .inr ⟨k, v, hkey, hvalue, rfl, rfl, hid, hdec, loadValue_exact hid hdec⟩

/-- A transient store of bytes after a `set` that was dropped once its `REPLACE` took effect. -/
theorem rows_written_read_back_abandoned :
    ∃ s, (byteStore true).exec (Store.init Table.empty)
        [.call (.set 0 5), .acquire 0, .connect 0 (.ok ()), .run 0 (.ok ()), .abandon 0] = some s ∧
      (Table.empty [0] = some ⟨[5], 0, 1⟩ ∨ ∃ (k v : UInt8),
        (byteStore true).keyType.serialize k = .ok [0] ∧
        (byteStore true).valueType.serialize v = .ok [5] ∧
        (⟨[5], 0, 1⟩ : Cell).valueSchemaId = (byteStore true).info.valueId ∧
        (⟨[5], 0, 1⟩ : Cell).valueSchemaVer = (byteStore true).valueType.schemaVersion ∧
        (byteStore true).interner.lookupId 0 = some (byteStore true).valueType.id ∧
        (byteStore true).valueType.deserialize [5] = .ok v ∧
        (byteStore true).load (some ⟨[5], 0, 1⟩) = .ok (some v)) := by
  have h : (byteStore true).exec (Store.init Table.empty)
      [.call (.set 0 5), .acquire 0, .connect 0 (.ok ()), .run 0 (.ok ()), .abandon 0] = some _ := rfl
  exact ⟨_, h, rows_written_read_back (byteStore true) (byteFormat_roundTrips _) rfl
    (StoreEnv.exec_steps h) (rfl : _ = some (⟨[5], 0, 1⟩ : Cell))⟩

/-- Read through `load_value`, the table is a map: a move leaves every key's reading, or is the
statement of a `set(k, v)` or `remove(k)`, which changes `k` alone, to `Some(v)` or `None`. -/
theorem current_updated_by_writes (E : StoreEnv K V) (hinj : E.keyType.Injective)
    (hval : E.valueType.RoundTrips) (hid : E.interner.lookupId E.info.valueId = some E.valueType.id)
    (hs : E.Reachable s) {a : Action K V} (hstep : E.step s a = some s') :
    (∀ k, E.current s' k = E.current s k) ∨
    (∃ (i : Nat) (k : K) (v : V) (stmt : Stmt), a = .run i (.ok ()) ∧
      s.calls[i]? = some ⟨.set k v, .query stmt⟩ ∧ E.current s' k = .ok (some v) ∧
      ∀ k', k' ≠ k → E.current s' k' = E.current s k') ∨
    (∃ (i : Nat) (k : K) (stmt : Stmt), a = .run i (.ok ()) ∧
      s.calls[i]? = some ⟨.remove k, .query stmt⟩ ∧ E.current s' k = .ok none ∧
      ∀ k', k' ≠ k → E.current s' k' = E.current s k') := by
  by_cases hrun : ∃ i u, a = .run i (.ok u)
  · obtain ⟨i, ⟨⟩, rfl⟩ := hrun
    obtain ⟨op, stmt, hi, rfl⟩ := StoreEnv.step_run hstep
    have hsent := (hs.sound.calls i _ hi).sent stmt rfl
    -- a statement rewrites only the row of its call's key, which no other key serializes to
    have hframe : ∀ k', k' ≠ op.key →
        E.current (s.run i op stmt (.ok ())) k' = E.current s k' := fun k' hk' =>
      E.current_congr fun key hkey => Stmt.apply_of_ne fun heq =>
        hk' (hinj _ _ _ hkey (heq ▸ StoreEnv.statement_key hsent))
    cases op with
    | get k =>
      obtain ⟨key, -, rfl⟩ := StoreEnv.statement_get.mp hsent
      exact .inl fun _ => E.current_of_table rfl
    | set k v =>
      obtain ⟨key, value, hkey, hvalue, rfl⟩ := StoreEnv.statement_set.mp hsent
      exact .inr (.inl ⟨i, k, v, _, rfl, hi,
        E.current_of_row hval hid hkey hvalue (Stmt.holds_apply (.store key _) s.table), hframe⟩)
    | remove k =>
      obtain ⟨key, hkey, rfl⟩ := StoreEnv.statement_remove.mp hsent
      refine .inr (.inr ⟨i, k, _, rfl, hi, ?_, hframe⟩)
      rw [E.current_eq_load hkey]
      exact congrArg E.load (Stmt.holds_apply (.delete key) s.table)
  · push_neg at hrun
    exact .inl fun _ => E.current_of_table (E.step_frame hstep hrun).1

/-- A second `set` of a key, run after the first completed, moves that key from 5 to 7. -/
theorem current_updated_by_writes_second_set :
    ∃ s s', (byteStore false).exec (Store.init Table.empty)
        [.call (.set 0 5), .acquire 0, .connect 0 (.ok ()), .run 0 (.ok ()), .resume 0,
          .call (.set 0 7), .acquire 1, .connect 1 (.ok ())] = some s ∧
      (byteStore false).step s (.run 1 (.ok ())) = some s' ∧
      ((∀ k, (byteStore false).current s' k = (byteStore false).current s k) ∨
      (∃ (i : Nat) (k v : UInt8) (stmt : Stmt), (Action.run 1 (.ok ()) : Action UInt8 UInt8) = .run i (.ok ()) ∧
        s.calls[i]? = some ⟨.set k v, .query stmt⟩ ∧ (byteStore false).current s' k = .ok (some v) ∧
        ∀ k', k' ≠ k → (byteStore false).current s' k' = (byteStore false).current s k') ∨
      (∃ (i : Nat) (k : UInt8) (stmt : Stmt), (Action.run 1 (.ok ()) : Action UInt8 UInt8) = .run i (.ok ()) ∧
        s.calls[i]? = some ⟨.remove k, .query stmt⟩ ∧ (byteStore false).current s' k = .ok none ∧
        ∀ k', k' ≠ k → (byteStore false).current s' k' = (byteStore false).current s k')) := by
  have h₀ : (byteStore false).exec (Store.init Table.empty)
      [.call (.set 0 5), .acquire 0, .connect 0 (.ok ()), .run 0 (.ok ()), .resume 0,
        .call (.set 0 7), .acquire 1, .connect 1 (.ok ())] = some _ := rfl
  exact ⟨_, _, h₀, rfl, current_updated_by_writes (byteStore false) (byteFormat_injective _)
    (byteFormat_roundTrips _) rfl ⟨_, StoreEnv.exec_steps h₀⟩ rfl⟩

end Rows

end Database
end Sylphie
