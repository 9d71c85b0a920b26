import Sylphie.Database.StoreSound

/-!
# StoreProgress — `lock_set` never deadlocks

A call holds at most one lock, takes it before anything else, and never waits for anything while it
holds it but its own connection, its own statement and its next poll. So from every state, whatever
the calls made so far and wherever they stand, each call that has not returned can still return:
first every call that holds a lock is driven to its return, then the call takes its lock and runs to
its own. The schedule needs no failure of the connection provider or of the database, starts, drops
and evicts nothing, and takes at most three moves per call plus four (`pending_call_completes`).

This is a statement about the scheduler's moves of `StoreEnv.step` only: which calls are started,
which results the collaborators give and when the cache evicts stay free.
-/

namespace Sylphie
namespace Database

variable {K V : Type}

/-! ## Moves in which nothing goes wrong -/

/-- A move in which no caller and no cache acts and no collaborator fails: a call takes its lock,
its connection comes, its statement executes, or it is polled. -/
def Action.serves : Action K V → Bool
  | .acquire _ => true
  | .connect _ (.ok ()) => true
  | .run _ (.ok ()) => true
  | .resume _ => true
  | _ => false

/-- A call that has not returned and holds no lock waits for it. -/
theorem Pc.eq_lock_of_pending {pc : Pc V} (hp : pc.pending = true) (hl : pc.holdsLock = false) :
    pc = .lock := by
  cases pc <;> simp_all [Pc.pending, Pc.holdsLock]

/-- `s'` has the calls of `s`, except that some calls that held a lock in `s` have returned. -/
def Store.Settles (s s' : Store K V) : Prop :=
  s'.calls.length = s.calls.length ∧ ∀ (j : Nat) (c : Call K V), s.calls[j]? = some c →
    s'.calls[j]? = some c ∨ c.pc.holdsLock = true ∧ ∃ res, s'.calls[j]? = some ⟨c.op, .done res⟩

/-- No call holds a lock. -/
def Store.Idle (s : Store K V) : Prop :=
  ∀ (j : Nat) (c : Call K V), s.calls[j]? = some c → c.pc.holdsLock = false

section Settles

variable {s s₁ s₂ : Store K V}

theorem Store.Settles.refl (s : Store K V) : s.Settles s := ⟨rfl, fun _ _ h => .inl h⟩

theorem Store.Settles.trans (h₁ : s.Settles s₁) (h₂ : s₁.Settles s₂) : s.Settles s₂ := by
  refine ⟨h₂.1.trans h₁.1, fun j c hj => ?_⟩
  rcases h₁.2 j c hj with hj | ⟨hl, res, hj⟩
  · exact h₂.2 j c hj
  · rcases h₂.2 j _ hj with hj | ⟨hl', -⟩
    · exact .inr ⟨hl, res, hj⟩
    · simp [Pc.holdsLock] at hl'

/-- Returning one call that holds a lock. -/
theorem Store.Settles.of_set {j : Nat} {c : Call K V} {res : Except StoreError (Option V)}
    (hj : s.calls[j]? = some c) (hl : c.pc.holdsLock = true)
    (h : s₁.calls = s.calls.set j ⟨c.op, .done res⟩) : s.Settles s₁ := by
  refine ⟨by simp [h], fun i c' hi => ?_⟩
  rw [h]
  by_cases hij : j = i
  · subst hij
    rw [hj, Option.some.injEq] at hi
    subst hi
    exact .inr ⟨hl, res, List.getElem?_set_self (List.getElem?_eq_some_iff.mp hj).1⟩
  · exact .inl (by rw [List.getElem?_set_ne hij, hi])

end Settles

/-! ## Driving one call to its return -/

section Returns

variable [DecidableEq K] (E : StoreEnv K V)

theorem StoreEnv.exec_append (s : Store K V) (as bs : List (Action K V)) :
    E.exec s (as ++ bs) = (E.exec s as).bind fun s' => E.exec s' bs := by
  induction as generalizing s with
  | nil => rfl
  | cons a as ih =>
    simp only [List.cons_append, StoreEnv.exec]
    cases E.step s a <;> simp [ih]

theorem StoreEnv.exec_append_of {s s₁ s₂ : Store K V} {as bs : List (Action K V)}
    (h₁ : E.exec s as = some s₁) (h₂ : E.exec s₁ bs = some s₂) : E.exec s (as ++ bs) = some s₂ := by
  rw [E.exec_append, h₁]
  exact h₂

variable {E} {s : Store K V} {j : Nat} {op : Op K V}

/-- A call polled after its statement returns. -/
theorem StoreEnv.resume_returns {r : Except StoreError (Option Cell)}
    (hj : s.calls[j]? = some ⟨op, .ran r⟩) :
    ∃ s' res, E.step s (.resume j) = some s' ∧ s'.calls = s.calls.set j ⟨op, .done res⟩ := by
  obtain ⟨res, hres⟩ := E.resumed_done op r
  refine ⟨(s.setCall j ⟨op, (E.resumed op r).1⟩).write op.key (E.resumed op r).2, res,
    by simp only [StoreEnv.step, hj], ?_⟩
  rw [Store.write_calls, Store.setCall, hres]

/-- A call whose statement was sent returns once the statement executes and the call is polled. -/
theorem StoreEnv.query_returns {stmt : Stmt} (hj : s.calls[j]? = some ⟨op, .query stmt⟩) :
    ∃ s' res, E.exec s [.run j (.ok ()), .resume j] = some s' ∧
      s'.calls = s.calls.set j ⟨op, .done res⟩ := by
  have hlen := (List.getElem?_eq_some_iff.mp hj).1
  obtain ⟨s', res, hstep, hcalls⟩ := E.resume_returns
    (show (s.run j op stmt (.ok ())).calls[j]? = some ⟨op, .ran (.ok (stmt.result s.table))⟩ by
      simp [Store.run, Store.setCall, List.getElem?_set_self hlen])
  have hrun : E.step s (.run j (.ok ())) = some (s.run j op stmt (.ok ())) := by
    simp only [StoreEnv.step, hj]
  refine ⟨s', res, by simp [StoreEnv.exec, hrun, hstep], ?_⟩
  rw [hcalls]
  simp [Store.run, Store.setCall]

/-- A call that holds a lock returns within three moves that serve it, and only it moves. -/
theorem StoreEnv.holder_returns {c : Call K V} (hj : s.calls[j]? = some c)
    (hl : c.pc.holdsLock = true) :
    ∃ acts s' res, (∀ a ∈ acts, Action.serves a = true) ∧ acts.length ≤ 3 ∧
      E.exec s acts = some s' ∧ s'.calls = s.calls.set j ⟨c.op, .done res⟩ := by
  obtain ⟨op, pc⟩ := c
  cases pc with
  | lock | done _ | abandoned => simp [Pc.holdsLock] at hl
  | ran r =>
    obtain ⟨s', res, hstep, hcalls⟩ := E.resume_returns hj
    exact ⟨[.resume j], s', res, by simp [Action.serves], by simp,
      by simp [StoreEnv.exec, hstep], hcalls⟩
  | query stmt =>
    obtain ⟨s', res, hexec, hcalls⟩ := E.query_returns hj
    exact ⟨_, s', res, by simp [Action.serves], by simp, hexec, hcalls⟩
  | connect =>
    have hlen := (List.getElem?_eq_some_iff.mp hj).1
    have hstep : E.step s (.connect j (.ok ())) =
        some (s.setCall j ⟨op, E.connected s.cache op (.ok ())⟩) := by
      simp only [StoreEnv.step, hj]
    rcases E.connected_cases s.cache op (.ok ()) with ⟨stmt, hq⟩ | ⟨res, hd⟩
    · obtain ⟨s', res, hexec, hcalls⟩ := E.query_returns
        (show (s.setCall j ⟨op, .query stmt⟩).calls[j]? = some ⟨op, .query stmt⟩ by
          simp [Store.setCall, List.getElem?_set_self hlen])
      refine ⟨.connect j (.ok ()) :: [.run j (.ok ()), .resume j], s', res,
        by simp [Action.serves], by simp, ?_, by rw [hcalls]; simp [Store.setCall]⟩
      rw [StoreEnv.exec, hstep, hq]
      exact hexec
    · rw [hd] at hstep
      exact ⟨[.connect j (.ok ())], s.setCall j ⟨op, .done res⟩, res, by simp [Action.serves], by simp,
        by simp [StoreEnv.exec, hstep], rfl⟩

end Returns

/-! ## Every pending call can return -/

section Progress

variable [DecidableEq K] (E : StoreEnv K V)

/-- The calls that hold a lock, all below index `n`, can all be driven to their returns with at most
three serving moves each, and nothing else moves. -/
theorem StoreEnv.drain (n : Nat) : ∀ (s : Store K V),
    (∀ (j : Nat) (c : Call K V), s.calls[j]? = some c → c.pc.holdsLock = true → j < n) →
    ∃ acts s', (∀ a ∈ acts, Action.serves a = true) ∧ acts.length ≤ 3 * n ∧
      E.exec s acts = some s' ∧ s.Settles s' ∧ s'.Idle := by
  induction n with
  | zero =>
    intro s hbelow
    exact ⟨[], s, by simp, by simp, rfl, .refl s, fun j c hj =>
      Bool.eq_false_iff.mpr fun hl => absurd (hbelow j c hj hl) (Nat.not_lt_zero j)⟩
  | succ n ih =>
    intro s hbelow
    by_cases hn : ∃ c, s.calls[n]? = some c ∧ c.pc.holdsLock = true
    · -- call `n` returns first; every other holder is below `n`
      obtain ⟨c, hc, hl⟩ := hn
      obtain ⟨acts₁, s₁, res₁, hserve₁, hlen₁, hexec₁, hcalls⟩ := E.holder_returns hc hl
      have hbelow₁ : ∀ (j : Nat) (c' : Call K V), s₁.calls[j]? = some c' →
          c'.pc.holdsLock = true → j < n := by
        intro j c' hj hl'
        rw [hcalls] at hj
        rcases getElem?_set_cases (List.getElem?_eq_some_iff.mp hc).1 hj with ⟨-, rfl⟩ | ⟨hne, hj⟩
        · simp [Pc.holdsLock] at hl'
        · exact Nat.lt_of_le_of_ne (Nat.lt_succ_iff.mp (hbelow j c' hj hl')) hne
      obtain ⟨acts₂, s', hserve₂, hlen₂, hexec₂, hsettle, hidle⟩ := ih s₁ hbelow₁
      refine ⟨acts₁ ++ acts₂, s', List.forall_mem_append.mpr ⟨hserve₁, hserve₂⟩,
        by simp only [List.length_append]; omega, E.exec_append_of hexec₁ hexec₂,
        (Store.Settles.of_set hc hl hcalls).trans hsettle, hidle⟩
    · obtain ⟨acts, s', hserve, hlen, hexec, hsettle, hidle⟩ := ih s fun j c hj hl =>
        Nat.lt_of_le_of_ne (Nat.lt_succ_iff.mp (hbelow j c hj hl)) fun h => hn ⟨c, h ▸ hj, hl⟩
      exact ⟨acts, s', hserve, by omega, hexec, hsettle, hidle⟩

/-- From every state, each call that has not returned can be driven to its return by at most three
serving moves per call plus four. -/
theorem pending_call_completes (s : Store K V) {i : Nat} {c : Call K V}
    (hi : s.calls[i]? = some c) (hp : c.pc.pending = true) :
    ∃ acts s' res, (∀ a ∈ acts, Action.serves a = true) ∧ acts.length ≤ 3 * s.calls.length + 4 ∧
      E.exec s acts = some s' ∧ s'.calls[i]? = some ⟨c.op, .done res⟩ := by
  obtain ⟨acts, s₁, hserve, hlen, hexec, hsettle, hidle⟩ :=
    E.drain s.calls.length s fun j _ hj _ => (List.getElem?_eq_some_iff.mp hj).1
  rcases hsettle.2 i c hi with hi₁ | ⟨-, res, hi₁⟩
  · -- the call waits for its lock, which no call holds any more
    obtain ⟨op, pc⟩ := c
    obtain rfl : pc = .lock := Pc.eq_lock_of_pending hp (hidle i _ hi₁)
    have hfree : s₁.locked op.key = false := Bool.eq_false_iff.mpr fun h => by
      obtain ⟨j, cj, hj, -, hl⟩ := Store.locked_eq_true.mp h
      simp [hidle j cj hj] at hl
    have hacq : E.step s₁ (.acquire i) = some (s₁.setCall i ⟨op, .connect⟩) := by
      simp only [StoreEnv.step, hi₁, hfree]
      rfl
    have hlen₁ := (List.getElem?_eq_some_iff.mp hi₁).1
    obtain ⟨acts₂, s', res, hserve₂, hlen₂, hexec₂, hcalls⟩ := E.holder_returns
      (show (s₁.setCall i ⟨op, .connect⟩).calls[i]? = some ⟨op, .connect⟩ by
        simp [Store.setCall, List.getElem?_set_self hlen₁]) rfl
    refine ⟨acts ++ .acquire i :: acts₂, s', res,
      List.forall_mem_append.mpr ⟨hserve, List.forall_mem_cons.mpr ⟨rfl, hserve₂⟩⟩,
      by simp only [List.length_append, List.length_cons]; omega,
      E.exec_append_of hexec (by simp [StoreEnv.exec, hacq, hexec₂]), ?_⟩
    rw [hcalls]
    simp [Store.setCall, List.getElem?_set_self hlen₁]
  · exact ⟨acts, s₁, res, hserve, by omega, hexec, hi₁⟩

/-- A `get` of a key that a `set` holds at its connection. -/
theorem pending_call_completes_behind_set :
    ∃ s, (byteStore false).exec (Store.init Table.empty)
        [.call (.set 0 5), .acquire 0, .connect 0 (.ok ()), .call (.get 0)] = some s ∧
      ∃ acts s' res, (∀ a ∈ acts, Action.serves a = true) ∧ acts.length ≤ 3 * s.calls.length + 4 ∧
        (byteStore false).exec s acts = some s' ∧ s'.calls[1]? = some ⟨.get 0, .done res⟩ :=
  ⟨_, rfl, @pending_call_completes _ _ _ (byteStore false) _ 1 ⟨.get 0, .lock⟩ rfl rfl⟩

end Progress

end Database
end Sylphie
