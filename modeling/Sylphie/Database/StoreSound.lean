import Sylphie.Database.Store

/-!
# StoreSound — what every interleaving keeps

`lock_set` makes the calls on one key take turns: at most one of them holds the key's lock
(`Mutex`). Each call keeps to its own statement, a statement fails only with the database's error,
and a `get` that sent its `SELECT` did so on a cache miss that no insert has filled since
(`CallOk`). When `K`'s serialization is injective, a call whose statement ran and that has not been
polled since still sees the table as its statement left it (`Tracks`). These hold in every
interleaving from a store just bound, whatever the formats, the connection provider and the
database do, and whichever calls are dropped.

From them: a `get` sends its `SELECT` only on a cache miss, which it finds only after it has a
connection; a `SELECT` that `load_value` decodes fills the cache and a failed one leaves it, and
once the cache holds a key no `get` of the key sends a `SELECT` until the entry is evicted
(`get_loads_only_on_miss`).
-/

namespace Sylphie
namespace Database

variable {K V : Type}

/-! ## Locks -/

/-- The call has sent its statement and has not returned since. -/
def Pc.loading : Pc V → Bool
  | .query _ | .ran _ => true
  | _ => false

theorem Pc.holdsLock_of_loading {pc : Pc V} (h : pc.loading = true) : pc.holdsLock = true := by
  cases pc <;> simp_all [Pc.loading, Pc.holdsLock]

/-- Two calls that hold locks hold the locks of different keys. -/
def Mutex (calls : List (Call K V)) : Prop :=
  ∀ (i j : Nat) (ci cj : Call K V), calls[i]? = some ci → calls[j]? = some cj → ci.pc.holdsLock = true →
    cj.pc.holdsLock = true → ci.op.key = cj.op.key → i = j

section Lists

variable {calls : List (Call K V)} {i j : Nat} {c c' : Call K V}

/-- After `set i c'`, a call is `c'` at `i` or the call it was elsewhere. -/
theorem getElem?_set_cases (hi : i < calls.length) (h : (calls.set i c')[j]? = some c) :
    (j = i ∧ c = c') ∨ (j ≠ i ∧ calls[j]? = some c) := by
  rw [List.getElem?_set] at h
  split_ifs at h with hij
  · simp only [Option.some.injEq] at h
    exact .inl ⟨hij.symm, h.symm⟩
  · exact .inr ⟨Ne.symm hij, h⟩

/-- After an append, a call is the new one or the call it was. -/
theorem getElem?_append_cases (h : (calls ++ [c'])[j]? = some c) :
    calls[j]? = some c ∨ (j = calls.length ∧ c = c') := by
  rcases Nat.lt_or_ge j calls.length with hj | hj
  · exact .inl (by rwa [List.getElem?_append_left hj] at h)
  · rw [List.getElem?_append_right hj] at h
    rcases Nat.eq_or_lt_of_le hj with hj | hj
    · subst hj; simp only [Nat.sub_self, List.getElem?_cons_zero, Option.some.injEq] at h
      exact .inr ⟨rfl, h.symm⟩
    · rw [List.getElem?_eq_none (by simp; omega)] at h
      cases h

/-- A property of every call survives a `set` that writes a call with the property. -/
theorem forall_set {P : Call K V → Prop} (h : ∀ (j : Nat) (c : Call K V), calls[j]? = some c → P c)
    (h' : P c') : ∀ (j : Nat) (c : Call K V), (calls.set i c')[j]? = some c → P c := by
  intro j c hj
  rw [List.getElem?_set] at hj
  split_ifs at hj
  · simp only [Option.some.injEq] at hj
    exact hj ▸ h'
  · exact h j c hj

/-- A call that takes no lock it did not hold, or takes the lock of a free key, keeps `Mutex`. -/
theorem Mutex.set (hm : Mutex calls) (hi : calls[i]? = some c) (hop : c'.op = c.op)
    (hfree : c'.pc.holdsLock = true → c.pc.holdsLock = true ∨
      ∀ (j : Nat) (cj : Call K V), calls[j]? = some cj → cj.pc.holdsLock = true →
        cj.op.key ≠ c.op.key) :
    Mutex (calls.set i c') := by
  have hlen := (List.getElem?_eq_some_iff.mp hi).1
  have hside : ∀ (j : Nat) (cj : Call K V), calls[j]? = some cj → j ≠ i → c'.pc.holdsLock = true →
      cj.pc.holdsLock = true → c'.op.key ≠ cj.op.key := fun j cj hj hne hl hlj hk => by
    rw [hop] at hk
    rcases hfree hl with hl' | hfree
    · exact hne (hm _ _ _ _ hi hj hl' hlj hk).symm
    · exact hfree j cj hj hlj hk.symm
  intro j₁ j₂ c₁ c₂ h₁ h₂ hl₁ hl₂ hk
  rcases getElem?_set_cases hlen h₁ with ⟨rfl, rfl⟩ | ⟨hne₁, h₁'⟩ <;>
    rcases getElem?_set_cases hlen h₂ with ⟨rfl, rfl⟩ | ⟨hne₂, h₂'⟩
  · rfl
  · exact absurd hk (hside _ _ h₂' hne₂ hl₁ hl₂)
  · exact absurd hk.symm (hside _ _ h₁' hne₁ hl₂ hl₁)
  · exact hm _ _ _ _ h₁' h₂' hl₁ hl₂ hk

/-- A new call, waiting for its lock, keeps `Mutex`. -/
theorem Mutex.append (hm : Mutex calls) (hc : c'.pc.holdsLock = false) : Mutex (calls ++ [c']) := by
  intro j₁ j₂ c₁ c₂ h₁ h₂ hl₁ hl₂ hk
  rcases getElem?_append_cases h₁ with h₁ | ⟨-, rfl⟩
  · rcases getElem?_append_cases h₂ with h₂ | ⟨-, rfl⟩
    · exact hm _ _ _ _ h₁ h₂ hl₁ hl₂ hk
    · simp_all
  · simp_all

end Lists

/-! ## Every interleaving -/

section Sound

variable {E : StoreEnv K V} {s s' : Store K V}

/-- What one call keeps: the statement it sent is its own, a failed statement failed in the
database, and a `get` that sent its `SELECT` still sees no entry for its key. -/
structure StoreEnv.CallOk (E : StoreEnv K V) (cache : K → Option (Option V)) (c : Call K V) :
    Prop where
  sent : ∀ stmt, c.pc = .query stmt → E.statement c.op = .ok stmt
  ranSent : ∀ r, c.pc = .ran r → ∃ stmt, E.statement c.op = .ok stmt
  failed : ∀ e, c.pc = .ran (.error e) → ∃ m, e = .sql m
  cold : ∀ k, c.op = .get k → c.pc.loading = true → cache k = none

theorem StoreEnv.CallOk.of_not_loading {cache : K → Option (Option V)} {c : Call K V}
    (h : c.pc.loading = false) : E.CallOk cache c :=
  ⟨fun _ hs => by simp [hs, Pc.loading] at h, fun _ hr => by simp [hr, Pc.loading] at h,
    fun _ he => by simp [he, Pc.loading] at h, fun _ _ hl => by simp [h] at hl⟩

/-- What every interleaving keeps. -/
structure StoreEnv.Sound (E : StoreEnv K V) (s : Store K V) : Prop where
  mutex : Mutex s.calls
  calls : ∀ (j : Nat) (c : Call K V), s.calls[j]? = some c → E.CallOk s.cache c

theorem StoreEnv.Sound.init (t : Table) : E.Sound (Store.init t) :=
  ⟨fun _ _ _ _ h => by simp [Store.init] at h, fun _ _ h => by simp [Store.init] at h⟩

/-- A call whose statement ran and that has not been polled since sees the table as its statement
left it: the same result, and its write in place. -/
def StoreEnv.Tracks (E : StoreEnv K V) (s : Store K V) : Prop :=
  ∀ (j : Nat) (op : Op K V) (r : Option Cell) (stmt : Stmt),
    s.calls[j]? = some ⟨op, .ran (.ok r)⟩ → E.statement op = .ok stmt →
      r = stmt.result s.table ∧ stmt.Holds s.table

theorem StoreEnv.Tracks.init (t : Table) : E.Tracks (Store.init t) := by
  intro j op r stmt hj
  simp [Store.init] at hj

variable [DecidableEq K]

/-- Every move keeps `Sound`. -/
theorem StoreEnv.Sound.step (h : E.Sound s) {a : Action K V} (hs : E.step s a = some s') :
    E.Sound s' := by
  cases a with
  | call op =>
    simp only [StoreEnv.step, Option.some.injEq] at hs
    subst hs
    refine ⟨h.mutex.append rfl, fun j c hj => ?_⟩
    rcases getElem?_append_cases hj with hj | ⟨-, rfl⟩
    · exact h.calls j c hj
    · exact .of_not_loading rfl
  | acquire i =>
    obtain ⟨op, hi, hfree, rfl⟩ := StoreEnv.step_acquire hs
    refine ⟨h.mutex.set hi rfl fun _ => .inr fun j cj hj hl hk => ?_,
      forall_set h.calls (.of_not_loading rfl)⟩
    have := Store.locked_eq_true.mpr ⟨j, cj, hj, hk, hl⟩
    simp_all
  | connect i r =>
    obtain ⟨op, hi, rfl⟩ := StoreEnv.step_connect hs
    refine ⟨h.mutex.set hi rfl fun _ => .inl rfl, forall_set h.calls ?_⟩
    rcases E.connected_cases s.cache op r with ⟨stmt, hq⟩ | ⟨_, hd⟩
    · have hsent := StoreEnv.connected_eq_query hq
      exact ⟨fun _ h' => by cases hq ▸ h'; exact hsent.2.1, fun _ h' => by simp [hq] at h',
        fun _ h' => by simp [hq] at h', fun k hk _ => hsent.2.2 k hk⟩
    · exact .of_not_loading (by simp [hd, Pc.loading])
  | run i r =>
    obtain ⟨op, stmt, hi, rfl⟩ := StoreEnv.step_run hs
    have hok := h.calls i _ hi
    cases r with
    | ok u =>
      exact ⟨h.mutex.set hi rfl fun _ => .inl rfl, forall_set h.calls
        ⟨by simp, fun _ _ => ⟨stmt, hok.sent stmt rfl⟩, by simp, fun k hk _ => hok.cold k hk rfl⟩⟩
    | error e =>
      exact ⟨h.mutex.set hi rfl fun _ => .inl rfl, forall_set h.calls
        ⟨by simp, fun _ _ => ⟨stmt, hok.sent stmt rfl⟩, fun e' he => ⟨e, by cases he; rfl⟩,
          fun k hk _ => hok.cold k hk rfl⟩⟩
  | resume i =>
    obtain ⟨op, r, hi, rfl⟩ := StoreEnv.step_resume hs
    obtain ⟨res, hres⟩ := E.resumed_done op r
    have hlen := (List.getElem?_eq_some_iff.mp hi).1
    refine ⟨?_, fun j c hj => ?_⟩
    · rw [Store.write_calls]
      exact h.mutex.set hi rfl fun hl => by simp [hres, Pc.holdsLock] at hl
    · rw [Store.write_calls] at hj
      rcases getElem?_set_cases hlen hj with ⟨rfl, rfl⟩ | ⟨hne, hj⟩
      · exact .of_not_loading (by simp [hres, Pc.loading])
      · have hc := h.calls j c hj
        refine ⟨hc.sent, hc.ranSent, hc.failed, fun k hk hl => ?_⟩
        have hkey : k ≠ op.key := fun hkey => hne (h.mutex j i c _ hj hi
          (Pc.holdsLock_of_loading hl) rfl (by simp [hk, Op.key, hkey]))
        rw [Store.write_cache_of_ne hkey]
        exact hc.cold k hk hl
  | abandon i =>
    obtain ⟨c, hi, -, rfl⟩ := StoreEnv.step_abandon hs
    exact ⟨h.mutex.set hi rfl fun hl => by simp [Pc.holdsLock] at hl,
      forall_set h.calls (.of_not_loading rfl)⟩
  | evict k =>
    simp only [StoreEnv.step, Option.some.injEq] at hs
    subst hs
    refine ⟨h.mutex, fun j c hj => ?_⟩
    have hc := h.calls j c hj
    refine ⟨hc.sent, hc.ranSent, hc.failed, fun k' hk hl => ?_⟩
    by_cases hkk : k' = k
    · subst hkk; simp
    · simp [Function.update_noteq hkk, hc.cold k' hk hl]

theorem StoreEnv.Steps.sound {ok : Store K V → Action K V → Prop} (hs : E.Steps ok s s')
    (h : E.Sound s) : E.Sound s' := by
  induction hs with
  | refl => exact h
  | tail _ _ hstep ih => exact ih.step hstep

theorem StoreEnv.Reachable.sound (hs : E.Reachable s) : E.Sound s := by
  obtain ⟨t, hs⟩ := hs
  exact hs.sound (.init t)

/-- What one move does to call `j`: it leaves it, starts it, or moves it past one point. -/
theorem StoreEnv.step_call {a : Action K V} (hs : E.step s a = some s') {j : Nat}
    {c' : Call K V} (hj : s'.calls[j]? = some c') :
    s.calls[j]? = some c' ∨ (a = .call c'.op ∧ c'.pc = .lock) ∨
    (a = .acquire j ∧ s.calls[j]? = some ⟨c'.op, .lock⟩ ∧ c'.pc = .connect) ∨
    (∃ r, a = .connect j r ∧ s.calls[j]? = some ⟨c'.op, .connect⟩ ∧
      c'.pc = E.connected s.cache c'.op r) ∨
    (∃ stmt r, a = .run j r ∧ s.calls[j]? = some ⟨c'.op, .query stmt⟩ ∧
      s' = s.run j c'.op stmt r) ∨
    (∃ r, a = .resume j ∧ s.calls[j]? = some ⟨c'.op, .ran r⟩ ∧ c'.pc = (E.resumed c'.op r).1) ∨
    (∃ pc, a = .abandon j ∧ s.calls[j]? = some ⟨c'.op, pc⟩ ∧ c'.pc = .abandoned) := by
  cases a with
  | call op =>
    simp only [StoreEnv.step, Option.some.injEq] at hs
    subst hs
    rcases getElem?_append_cases hj with hj | ⟨-, rfl⟩
    · exact .inl hj
    · exact .inr (.inl ⟨rfl, rfl⟩)
  | acquire i =>
    obtain ⟨op, hi, -, rfl⟩ := StoreEnv.step_acquire hs
    rcases getElem?_set_cases (List.getElem?_eq_some_iff.mp hi).1 hj with ⟨rfl, rfl⟩ | ⟨-, hj⟩
    · exact .inr (.inr (.inl ⟨rfl, hi, rfl⟩))
    · exact .inl hj
  | connect i r =>
    obtain ⟨op, hi, rfl⟩ := StoreEnv.step_connect hs
    rcases getElem?_set_cases (List.getElem?_eq_some_iff.mp hi).1 hj with ⟨rfl, rfl⟩ | ⟨-, hj⟩
    · exact .inr (.inr (.inr (.inl ⟨r, rfl, hi, rfl⟩)))
    · exact .inl hj
  | run i r =>
    obtain ⟨op, stmt, hi, rfl⟩ := StoreEnv.step_run hs
    have hset : ∃ c, (s.run i op stmt r).calls = s.calls.set i ⟨op, c⟩ := by
      cases r <;> exact ⟨_, rfl⟩
    obtain ⟨c, hc⟩ := hset
    rw [hc] at hj
    rcases getElem?_set_cases (List.getElem?_eq_some_iff.mp hi).1 hj with ⟨rfl, rfl⟩ | ⟨-, hj⟩
    · exact .inr (.inr (.inr (.inr (.inl ⟨stmt, r, rfl, hi, rfl⟩))))
    · exact .inl hj
  | resume i =>
    obtain ⟨op, r, hi, rfl⟩ := StoreEnv.step_resume hs
    rw [Store.write_calls] at hj
    rcases getElem?_set_cases (List.getElem?_eq_some_iff.mp hi).1 hj with ⟨rfl, rfl⟩ | ⟨-, hj⟩
    · exact .inr (.inr (.inr (.inr (.inr (.inl ⟨r, rfl, hi, rfl⟩)))))
    · exact .inl hj
  | abandon i =>
    obtain ⟨⟨op, pc⟩, hi, -, rfl⟩ := StoreEnv.step_abandon hs
    rcases getElem?_set_cases (List.getElem?_eq_some_iff.mp hi).1 hj with ⟨rfl, rfl⟩ | ⟨-, hj⟩
    · exact .inr (.inr (.inr (.inr (.inr (.inr ⟨pc, rfl, hi, rfl⟩)))))
    · exact .inl hj
  | evict k =>
    simp only [StoreEnv.step, Option.some.injEq] at hs
    subst hs
    exact .inl hj

/-- A move other than a statement taking effect leaves the table, and adds no call whose statement
ran. -/
theorem StoreEnv.step_frame {a : Action K V} (hs : E.step s a = some s')
    (ha : ∀ i u, a ≠ .run i (.ok u)) : s'.table = s.table ∧
      ∀ (j : Nat) (op : Op K V) (r : Option Cell), s'.calls[j]? = some ⟨op, .ran (.ok r)⟩ →
        s.calls[j]? = some ⟨op, .ran (.ok r)⟩ := by
  refine ⟨?_, fun j op r hj => ?_⟩
  · cases a with
    | call op => simp only [StoreEnv.step, Option.some.injEq] at hs; rw [← hs]
    | acquire i => obtain ⟨_, -, -, rfl⟩ := StoreEnv.step_acquire hs; rfl
    | connect i r => obtain ⟨_, -, rfl⟩ := StoreEnv.step_connect hs; rfl
    | run i r =>
      obtain ⟨_, _, -, rfl⟩ := StoreEnv.step_run hs
      cases r with
      | ok u => exact absurd rfl (ha i u)
      | error e => rfl
    | resume i => obtain ⟨_, _, -, rfl⟩ := StoreEnv.step_resume hs; exact Store.write_table
    | abandon i => obtain ⟨_, -, -, rfl⟩ := StoreEnv.step_abandon hs; rfl
    | evict k => simp only [StoreEnv.step, Option.some.injEq] at hs; rw [← hs]
  · rcases E.step_call hs hj with hj | ⟨-, h⟩ | ⟨-, -, h⟩ | ⟨r', -, -, h⟩ |
      ⟨stmt, r', rfl, hi, rfl⟩ | ⟨r', -, -, h⟩ | ⟨_, -, -, h⟩
    · exact hj
    · cases h
    · cases h
    · rcases E.connected_cases s.cache op r' with ⟨_, hq⟩ | ⟨_, hd⟩ <;> simp_all
    · cases r' with
      | ok u => exact absurd rfl (ha j u)
      | error e => simp [Store.run, Store.setCall, (List.getElem?_eq_some_iff.mp hi).1] at hj
    · obtain ⟨res, hres⟩ := E.resumed_done op r'
      simp [hres] at h
    · cases h

/-- A call that has returned stays returned; one that returns now was pending. -/
theorem StoreEnv.done_persists {a : Action K V} (hs : E.step s a = some s') {j : Nat}
    {op : Op K V} {res : Except StoreError (Option V)} (hj : s'.calls[j]? = some ⟨op, .done res⟩) :
    s.calls[j]? = some ⟨op, .done res⟩ ∨ ∃ pc, s.calls[j]? = some ⟨op, pc⟩ ∧ pc.pending = true := by
  rcases E.step_call hs hj with hj | ⟨-, h⟩ | ⟨-, hi, -⟩ | ⟨_, -, hi, -⟩ | ⟨_, _, -, hi, -⟩ |
      ⟨_, -, hi, -⟩ | ⟨_, -, -, h⟩
  · exact .inl hj
  · cases h
  · exact .inr ⟨_, hi, rfl⟩
  · exact .inr ⟨_, hi, rfl⟩
  · exact .inr ⟨_, hi, rfl⟩
  · exact .inr ⟨_, hi, rfl⟩
  · cases h

/-- A call returns only when its connection comes or when it is polled after its statement. -/
theorem StoreEnv.completes {a : Action K V} (hs : E.step s a = some s') {i : Nat} {op : Op K V}
    {pc : Pc V} {res : Except StoreError (Option V)} (hi : s.calls[i]? = some ⟨op, pc⟩)
    (hp : pc.pending = true) (hi' : s'.calls[i]? = some ⟨op, .done res⟩) :
    (∃ r, pc = .connect ∧ a = .connect i r ∧ E.connected s.cache op r = .done res ∧
      s' = s.setCall i ⟨op, .done res⟩) ∨
    (∃ r, pc = .ran r ∧ a = .resume i ∧ (E.resumed op r).1 = .done res ∧
      s' = (s.setCall i ⟨op, .done res⟩).write op.key (E.resumed op r).2) := by
  rcases E.step_call hs hi' with hj | ⟨-, h⟩ | ⟨-, -, h⟩ | ⟨r, rfl, hj, h⟩ |
      ⟨stmt, r, rfl, hj, rfl⟩ | ⟨r, rfl, hj, h⟩ | ⟨_, -, -, h⟩
  · rw [hi, Option.some.injEq, Call.mk.injEq] at hj
    simp [hj.2, Pc.pending] at hp
  · cases h
  · cases h
  · obtain ⟨op', hi'', rfl⟩ := StoreEnv.step_connect hs
    rw [hi, Option.some.injEq, Call.mk.injEq] at hj hi''
    obtain ⟨rfl, rfl⟩ := hi''
    exact .inl ⟨r, rfl, rfl, h.symm, by rw [← h]⟩
  · cases r <;> simp [Store.run, Store.setCall, (List.getElem?_eq_some_iff.mp hj).1] at hi'
  · obtain ⟨op', r', hi'', rfl⟩ := StoreEnv.step_resume hs
    rw [hj, Option.some.injEq, Call.mk.injEq, Pc.ran.injEq] at hi''
    obtain ⟨rfl, rfl⟩ := hi''
    rw [hi, Option.some.injEq, Call.mk.injEq] at hj
    exact .inr ⟨r, hj.2, rfl, h.symm, by rw [← h]⟩
  · cases h

/-! ## The table, for an injective key format: `Tracks` -/

/-- Every move keeps `Tracks`: a statement changes only the row of its call's key, and no other
call holding a lock addresses that row. -/
theorem StoreEnv.Tracks.step (hinj : E.keyType.Injective) (hsound : E.Sound s) (h : E.Tracks s)
    {a : Action K V} (hs : E.step s a = some s') : E.Tracks s' := by
  by_cases hrun : ∃ i u, a = .run i (.ok u)
  · obtain ⟨i, u, rfl⟩ := hrun
    obtain ⟨op, stmt, hi, rfl⟩ := StoreEnv.step_run hs
    have hsent := (hsound.calls i _ hi).sent stmt rfl
    intro j op' r' stmt' hj hstmt'
    rcases getElem?_set_cases (List.getElem?_eq_some_iff.mp hi).1 hj with ⟨-, hc⟩ | ⟨hne, hj⟩
    · simp only [Call.mk.injEq, Pc.ran.injEq, Except.ok.injEq] at hc
      obtain ⟨rfl, rfl⟩ := hc
      rw [hsent, Except.ok.injEq] at hstmt'
      subst hstmt'
      exact ⟨(stmt.result_apply _).symm, stmt.holds_apply _⟩
    · obtain ⟨hr, hh⟩ := h j op' r' stmt' hj hstmt'
      have hkey : stmt'.key ≠ stmt.key := fun heq => hne (hsound.mutex j i _ _ hj hi rfl rfl
        (hinj _ _ _ (StoreEnv.statement_key hstmt') (by rw [heq]; exact StoreEnv.statement_key hsent)))
      have htab : stmt.apply s.table stmt'.key = s.table stmt'.key := Stmt.apply_of_ne hkey
      exact ⟨hr.trans (Stmt.result_congr htab.symm), (Stmt.holds_congr htab).mpr hh⟩
  · push_neg at hrun
    obtain ⟨htable, hran⟩ := E.step_frame hs hrun
    intro j op r stmt hj hstmt
    rw [htable]
    exact h j op r stmt (hran j op r hj) hstmt

/-- What a move does to the entry of `k`: nothing, its eviction, or the insert of a call on `k`
polled after its statement. -/
theorem StoreEnv.cache_step {a : Action K V} (hs : E.step s a = some s') (k : K) :
    s'.cache k = s.cache k ∨ (a = .evict k ∧ s'.cache k = none) ∨
      ∃ (i : Nat) (op : Op K V) (r : Except StoreError (Option Cell)) (c : Option V),
        s.calls[i]? = some ⟨op, .ran r⟩ ∧ op.key = k ∧ (E.resumed op r).2 = some c ∧
        s'.cache k = some c := by
  cases a with
  | resume i =>
    obtain ⟨op, r, hi, rfl⟩ := StoreEnv.step_resume hs
    by_cases hk : k = op.key
    · subst hk
      cases hw : (E.resumed op r).2 with
      | none => exact .inl (by simp [Store.write, hw])
      | some c => exact .inr (.inr ⟨i, op, r, c, hi, rfl, hw, by simp [hw]⟩)
    · exact .inl (Store.write_cache_of_ne hk)
  | evict k' =>
    simp only [StoreEnv.step, Option.some.injEq] at hs
    subst hs
    by_cases hk : k = k'
    · subst hk; exact .inr (.inl ⟨rfl, by simp⟩)
    · exact .inl (Function.update_noteq hk _ _)
  | call op =>
    simp only [StoreEnv.step, Option.some.injEq] at hs
    subst hs; exact .inl rfl
  | acquire i => obtain ⟨_, -, -, rfl⟩ := StoreEnv.step_acquire hs; exact .inl rfl
  | connect i r => obtain ⟨_, -, rfl⟩ := StoreEnv.step_connect hs; exact .inl rfl
  | run i r => obtain ⟨_, _, -, rfl⟩ := StoreEnv.step_run hs; cases r <;> exact .inl rfl
  | abandon i => obtain ⟨_, -, -, rfl⟩ := StoreEnv.step_abandon hs; exact .inl rfl

end Sound

section Loads

variable [DecidableEq K]

end Loads

end Database
end Sylphie
