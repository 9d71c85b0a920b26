import Mathlib.Data.Nat.Find
import Mathlib.Tactic.IntervalCases
import Sylphie.Database.Schema

/-!
# TableName — the probe loop of `create_table_name`

A new KVS data table is named by hashing `{nonce}|{module_name}` and keeping 16 hex digits; the
nonce, a `u32`, starts at 0 and is incremented until the name is not in `used_table_names`.
The hash is `blake3`, a library outside `src/`, so it is a parameter here.

The loop is `probeLoop`, with the number of nonce values left as fuel: running out of fuel is
`unique_id += 1` overflowing. We show that a returned name is the first fresh probe, and that
the loop terminates, within `|used| + 1` probes, whenever those first probes are distinct.
-/

namespace Sylphie
namespace Database

/-- `format!("sylphie_db_kvsdata_{}", &blake3::hash(format!("{}|{}", unique_id, module_name))
.to_hex()[0..16])`, with `hexDigest` for `blake3::hash(..).to_hex()`. -/
def tableNameProbe (hexDigest : String → String) (moduleName : String) (uniqueId : Nat) : String :=
  "sylphie_db_kvsdata_" ++ (hexDigest (toString uniqueId ++ "|" ++ moduleName)).take 16

/-- The `loop` of `create_table_name` at nonce `uniqueId`, with `fuel` values of the nonce left.
No fuel is the overflow of `unique_id += 1`: a panic in debug builds, an endless loop in release
builds, and no name either way. -/
def probeLoop (probe : Nat → String) (used : Finset String) : Nat → Nat → Option String
  | 0, _ => none
  | fuel + 1, uniqueId =>
    if probe uniqueId ∉ used then some (probe uniqueId)
    else probeLoop probe used fuel (uniqueId + 1)

/-- `InitKvsEvent::create_table_name`: the `u32` nonce starts at 0. -/
def createTableName (hexDigest : String → String) (used : Finset String) (moduleName : String) :
    Option String :=
  probeLoop (tableNameProbe hexDigest moduleName) used (2 ^ 32) 0

section ProbeLoop

variable {probe : Nat → String} {used : Finset String}

/-- A name the loop returns is the first probe from its start nonce that is not in use. -/
theorem probeLoop_eq_some {fuel i : Nat} {name : String} (h : probeLoop probe used fuel i = some name) :
    ∃ j, i ≤ j ∧ j < i + fuel ∧ name = probe j ∧ probe j ∉ used ∧
      ∀ i', i ≤ i' → i' < j → probe i' ∈ used := by
  induction fuel generalizing i with
  | zero => simp [probeLoop] at h
  | succ fuel ih =>
    unfold probeLoop at h
    split at h
    · cases h
      exact ⟨i, le_rfl, by omega, rfl, ‹_›, fun i' h1 h2 => absurd h2 (by omega)⟩
    · obtain ⟨j, hij, hjf, rfl, hj, hprev⟩ := ih h
      refine ⟨j, by omega, by omega, rfl, hj, fun i' h1 h2 => ?_⟩
      rcases Nat.eq_or_lt_of_le h1 with rfl | h1
      · simpa using ‹¬probe _ ∉ used›
      · exact hprev i' h1 h2

/-- The loop returns the first fresh probe when it has the fuel to reach it. -/
theorem probeLoop_of_first_fresh {fuel i j : Nat} (hij : i ≤ j) (hjf : j < i + fuel)
    (hprev : ∀ i', i ≤ i' → i' < j → probe i' ∈ used) (hj : probe j ∉ used) :
    probeLoop probe used fuel i = some (probe j) := by
  induction fuel generalizing i with
  | zero => omega
  | succ fuel ih =>
    unfold probeLoop
    rcases Nat.eq_or_lt_of_le hij with rfl | hlt
    · simp [hj]
    · rw [if_neg (by simpa using hprev i le_rfl hlt)]
      exact ih hlt (by omega) fun i' h1 h2 => hprev i' (by omega) h2

/-- The loop runs out of nonces exactly when every probe it tries is in use. -/
theorem probeLoop_eq_none_iff {fuel i : Nat} :
    probeLoop probe used fuel i = none ↔ ∀ j, i ≤ j → j < i + fuel → probe j ∈ used := by
  induction fuel generalizing i with
  | zero => simp only [probeLoop, true_iff]; intro j _ _; omega
  | succ fuel ih =>
    rw [probeLoop]
    split_ifs with h
    · rw [ih]
      refine ⟨fun hall j hij hj => ?_, fun hall j hij hj => hall j (by omega) (by omega)⟩
      rcases Nat.eq_or_lt_of_le hij with rfl | hlt
      · exact h
      · exact hall j hlt (by omega)
    · simp only [reduceCtorEq, false_iff]
      exact fun hall => h (hall i le_rfl (by omega))

/-- Pigeonhole: `|used| + 1` distinct probes cannot all be in use. -/
theorem exists_probe_not_mem
    (hdistinct : ∀ i j, i ≤ used.card → j ≤ used.card → probe i = probe j → i = j) :
    ∃ j ≤ used.card, probe j ∉ used := by
  by_contra hall
  push_neg at hall
  have hsub : (Finset.range (used.card + 1)).image probe ⊆ used := by
    intro n hn
    obtain ⟨j, hj, rfl⟩ := Finset.mem_image.mp hn
    exact hall j (Nat.lt_succ_iff.mp (Finset.mem_range.mp hj))
  have hcard : ((Finset.range (used.card + 1)).image probe).card = used.card + 1 := by
    rw [Finset.card_image_of_injOn, Finset.card_range]
    intro i hi j hj hij
    exact hdistinct i j (Nat.lt_succ_iff.mp (Finset.mem_range.mp hi))
      (Nat.lt_succ_iff.mp (Finset.mem_range.mp hj)) hij
  have hle := Finset.card_le_card hsub
  rw [hcard] at hle
  omega

end ProbeLoop

/-- A name `create_table_name` returns is not in `used_table_names`. -/
theorem createTableName_not_mem {hexDigest : String → String} {used : Finset String}
    {moduleName name : String} (h : createTableName hexDigest used moduleName = some name) :
    name ∉ used := by
  unfold createTableName at h
  obtain ⟨j, _, _, hname, hj, _⟩ := probeLoop_eq_some h
  rw [hname]
  exact hj

/-- `create_table_name` finds no name, its `u32` nonce overflowing, exactly when all `2 ^ 32`
probe names of the module are in use. -/
theorem createTableName_eq_none_iff {hexDigest : String → String} {used : Finset String}
    {moduleName : String} : createTableName hexDigest used moduleName = none ↔
      ∀ n < 2 ^ 32, tableNameProbe hexDigest moduleName n ∈ used := by
  rw [createTableName, probeLoop_eq_none_iff]
  simp

/-- When the first `|U| + 1` probe names are distinct, `create_table_name` stops at a nonce
`j ≤ |U|` with the first probe name not in `U`, so its `u32` nonce never overflows. -/
theorem createTableName_first_fresh (hexDigest : String → String) (U : Finset String)
    (m : String) (hU : U.card < 2 ^ 32)
    (hdistinct : ∀ i j, i ≤ U.card → j ≤ U.card →
      tableNameProbe hexDigest m i = tableNameProbe hexDigest m j → i = j) :
    ∃ j ≤ U.card,
      createTableName hexDigest U m = some (tableNameProbe hexDigest m j) ∧
      probeLoop (tableNameProbe hexDigest m) U (j + 1) 0 = some (tableNameProbe hexDigest m j) ∧
      tableNameProbe hexDigest m j ∉ U ∧ ∀ i < j, tableNameProbe hexDigest m i ∈ U := by
  classical
  have hex := exists_probe_not_mem hdistinct
  obtain ⟨hjU, hj⟩ := Nat.find_spec hex
  have hprev : ∀ i < Nat.find hex, tableNameProbe hexDigest m i ∈ U := fun i hi => by
    by_contra hni
    exact Nat.find_min hex hi ⟨by have := Nat.find_min' hex ⟨by omega, hni⟩; omega, hni⟩
  refine ⟨Nat.find hex, hjU, ?_, ?_, hj, hprev⟩
  · unfold createTableName
    exact probeLoop_of_first_fresh (Nat.zero_le _) (by omega) (fun i' _ h => hprev i' h) hj
  · exact probeLoop_of_first_fresh (Nat.zero_le _) (by omega) (fun i' _ h => hprev i' h) hj

/-- The bound at a used set holding the first probe of `"m"`, with the identity for the digest:
the loop takes the second probe. -/
theorem createTableName_first_fresh_second_probe :
    ({tableNameProbe id "m" 0} : Finset String).card < 2 ^ 32 ∧
    ∃ j ≤ ({tableNameProbe id "m" 0} : Finset String).card,
      createTableName id {tableNameProbe id "m" 0} "m" = some (tableNameProbe id "m" j) ∧
      probeLoop (tableNameProbe id "m") {tableNameProbe id "m" 0} (j + 1) 0 =
        some (tableNameProbe id "m" j) ∧
      tableNameProbe id "m" j ∉ ({tableNameProbe id "m" 0} : Finset String) ∧
      ∀ i < j, tableNameProbe id "m" i ∈ ({tableNameProbe id "m" 0} : Finset String) :=
  ⟨by decide, createTableName_first_fresh id _ "m" (by decide) (by
    simp only [Finset.card_singleton]
    intro i j hi hj h
    interval_cases i <;> interval_cases j <;> first | rfl | exact absurd h (by decide))⟩

end Database
end Sylphie
