import Mathlib.Data.List.Basic
import Mathlib.Logic.Function.Basic

/-!
# Disambiguate — `DisambiguatedSet::new` and `resolve`

`DisambiguatedSet::new` keeps the first value of each case-insensitive full name, groups the kept
values by lowercased name, and gives each one its allowed prefixes: its lowercased full name, the
part of its lowercased module name after each `.`, and the empty prefix. `resolve` splits a query
`group:name` at its `:` and looks it up by name, then by group, in a map where each entry was pushed
once per occurrence of each of its prefixes.

So `resolve` fails exactly on queries with two `:` or more (`resolve_error_iff`), and otherwise
answers the bucket of the group in the map of the name (`resolve_of_no_colon`,
`resolve_of_colon`), which holds each entry of that name once per occurrence of the group among its
allowed prefixes (`new_byName`, and together `resolve_eq_bucket`). `all_commands` holds the first value of each lowercased full name,
once, with the allowed prefixes above (`new_values_perm`, `new_allowedPrefixes`). A module name
that ends in `.` gives `""` twice, and `resolve` then yields the entry twice
(`resolve_yields_entry_twice`).

`FxHashMap` and `FxHashSet` are functions and lists here. The map's iteration order, which decides
the order of `all_commands`, is not specified by the source; the model visits the names in the
order they were first inserted, and what is proved of `all_commands` holds up to that order.
-/

namespace Sylphie
namespace Utils

/-! ## Lowercase -/

/-- `Char.toLower` in numbers: `A`–`Z` move up by 32, every other character stays. -/
theorem toNat_toLower (c : Char) :
    c.toLower.toNat = if 65 ≤ c.toNat ∧ c.toNat ≤ 90 then c.toNat + 32 else c.toNat := by
  simp only [Char.toLower, ge_iff_le]
  split
  · unfold Char.ofNat
    split
    · simp only [Char.ofNatAux, Char.toNat, UInt32.toNat, BitVec.toNat_ofNatLt]
    · rename_i h hv
      exact absurd (Or.inl (by omega)) hv
  · rfl

theorem char_eq_of_toNat {c d : Char} (h : c.toNat = d.toNat) : c = d :=
  Char.ext (UInt32.eq_of_toBitVec_eq (BitVec.eq_of_toNat_eq h))

/-- A character below `A`, such as `.` or `:`, is the lowercase of itself only. -/
theorem toLower_eq_iff_of_lt {c d : Char} (hd : d.toNat < 65) : c.toLower = d ↔ c = d := by
  constructor
  · intro h
    have h2 := toNat_toLower c
    rw [h] at h2
    split at h2
    · omega
    · exact char_eq_of_toNat (by omega)
  · rintro rfl
    exact char_eq_of_toNat (by rw [toNat_toLower]; split <;> omega)

theorem toLower_toLower (c : Char) : c.toLower.toLower = c.toLower := by
  apply char_eq_of_toNat
  have h1 := toNat_toLower c
  rw [toNat_toLower]
  split at h1 <;> split <;> omega

/-- `str::to_ascii_lowercase`. -/
def toAsciiLowercase (s : String) : String := ⟨s.data.map Char.toLower⟩

@[simp] theorem toAsciiLowercase_data (s : String) :
    (toAsciiLowercase s).data = s.data.map Char.toLower := rfl

theorem toAsciiLowercase_append (s t : String) :
    toAsciiLowercase (s ++ t) = toAsciiLowercase s ++ toAsciiLowercase t :=
  String.ext (by simp)

theorem toAsciiLowercase_toAsciiLowercase (s : String) :
    toAsciiLowercase (toAsciiLowercase s) = toAsciiLowercase s :=
  String.ext (by simp [toLower_toLower])

/-- Lowercasing keeps every character below `A` where it is. -/
theorem count_map_toLower {d : Char} (hd : d.toNat < 65) (cs : List Char) :
    (cs.map Char.toLower).count d = cs.count d := by
  induction cs with
  | nil => rfl
  | cons c cs ih => simp [List.count_cons, ih, toLower_eq_iff_of_lt hd]

/-! ## The model -/

/-- The part of `s` after each `.`, left to right: `s[i+1..]` for each `(i, '.')` of
`s.char_indices()`. -/
def dotSuffixes : List Char → List String
  | [] => []
  | c :: cs => if c = '.' then ⟨cs⟩ :: dotSuffixes cs else dotSuffixes cs

/-- A value of a `CanDisambiguate` type, through the three methods `new` reads. -/
structure Item where
  name : String
  fullName : String
  moduleName : String
  deriving DecidableEq, Repr

/-- `Disambiguated<T>`. -/
structure Disambiguated where
  value : Item
  disambiguatedPrefix : String
  allowedPrefixes : List String
  deriving DecidableEq, Repr

/-- `DisambiguatedSet<T>`: the list `all_commands` returns, and `by_name`, the map
{base name -> {prefix -> entries}}, where a key never inserted reads as no entries. -/
structure DisambiguatedSet where
  list : List Disambiguated
  byName : String → String → List Disambiguated

/-- `values_for_name.entry(key).or_insert(Vec::new()).push(value)`, the keys in the order they were
first inserted. -/
def pushGroup (key : String) (value : Item) :
    List (String × List Item) → List (String × List Item)
  | [] => [(key, [value])]
  | (k, vs) :: groups =>
    if k = key then (k, vs ++ [value]) :: groups else (k, vs) :: pushGroup key value groups

/-- The first loop of `new`: a value whose lowercased full name is in `duplicate_check` is dropped
(with a warning); any other one joins the variants of its lowercased name. -/
def groupValues (duplicateCheck : List String) (valuesForName : List (String × List Item)) :
    List Item → List (String × List Item)
  | [] => valuesForName
  | value :: values =>
    if toAsciiLowercase value.fullName ∈ duplicateCheck then
      groupValues duplicateCheck valuesForName values
    else
      groupValues (toAsciiLowercase value.fullName :: duplicateCheck)
        (pushGroup (toAsciiLowercase value.name) value valuesForName) values

/-- `prefixes` of a variant: its lowercased full name, the part of its lowercased module name after
each `.`, and `""`. -/
def prefixesOf (variant : Item) : List String :=
  toAsciiLowercase variant.fullName :: (dotSuffixes (toAsciiLowercase variant.moduleName).data ++ [""])

/-- `*prefix_count.entry(prefix.clone()).or_insert(0) += 1` for each prefix. -/
def countPrefixes (prefixCount : String → Nat) : List String → String → Nat
  | [] => prefixCount
  | p :: ps => countPrefixes (Function.update prefixCount p (prefixCount p + 1)) ps

/-- `prefix_count` once every variant of a name is counted. -/
def prefixCountOf (variants : List Item) : String → Nat :=
  variants.foldl (fun prefixCount v => countPrefixes prefixCount (prefixesOf v)) fun _ => 0

/-- The `longest_prefix` loop: the last prefix counted once, else `prefixes[0]` (`prefixes` is
never empty). -/
def longestPrefix (prefixCount : String → Nat) (prefixes : List String) : String :=
  prefixes.foldl (fun longest p => if prefixCount p = 1 then p else longest) (prefixes.headD "")

/-- The entry `new` builds for a variant. -/
def entryOf (prefixCount : String → Nat) (variant : Item) : Disambiguated :=
  ⟨variant, longestPrefix prefixCount (prefixesOf variant), prefixesOf variant⟩

/-- `map.entry(prefix).or_insert(Vec::new()).push(entry.clone())` for each prefix. -/
def pushEntry (entry : Disambiguated) (map : String → List Disambiguated) :
    List String → String → List Disambiguated
  | [] => map
  | p :: ps => pushEntry entry (Function.update map p (map p ++ [entry])) ps

/-- The second loop of the `by_name` closure: each variant's entry pushed to the bucket of each of
its prefixes and to `disambiguated_list`. -/
def pushEntries (prefixCount : String → Nat) :
    List Disambiguated × (String → List Disambiguated) → List Item →
      List Disambiguated × (String → List Disambiguated)
  | acc, [] => acc
  | acc, v :: vs =>
    pushEntries prefixCount
      (acc.1 ++ [entryOf prefixCount v], pushEntry (entryOf prefixCount v) acc.2 (prefixesOf v)) vs

/-- One turn of the `by_name` loop: the name's entries appended to `disambiguated_list`, and its
map stored under the name. -/
def DisambiguatedSet.addName (set : DisambiguatedSet) (group : String × List Item) :
    DisambiguatedSet :=
  let r := pushEntries (prefixCountOf group.2) (set.list, fun _ => []) group.2
  ⟨r.1, Function.update set.byName group.1 r.2⟩

/-- `DisambiguatedSet::new`. -/
def DisambiguatedSet.new (values : List Item) : DisambiguatedSet :=
  (groupValues [] [] values).foldl DisambiguatedSet.addName ⟨[], fun _ _ => []⟩

/-- `DisambiguatedSet::resolve`, for a type whose `CLASS_NAME` is `className`. -/
def DisambiguatedSet.resolve (set : DisambiguatedSet) (className rawName : String) :
    Except String (List Disambiguated) :=
  match (toAsciiLowercase rawName).data.splitOn ':' with
  | [name] => .ok (set.byName ⟨name⟩ "")
  | [group, name] => .ok (set.byName ⟨name⟩ ⟨group⟩)
  | _ => .error ("No more than one `:` can appear in a " ++ className ++ " name.")

/-! ## Buckets -/

/-- The entries of `es` whose allowed prefixes contain `p`, each once per occurrence of `p`. -/
def bucketOf (es : List Disambiguated) (p : String) : List Disambiguated :=
  es.flatMap fun e => List.replicate (e.allowedPrefixes.count p) e

@[simp] theorem bucketOf_append (es es' : List Disambiguated) (p : String) :
    bucketOf (es ++ es') p = bucketOf es p ++ bucketOf es' p := by
  simp [bucketOf]

theorem length_bucketOf (es : List Disambiguated) (p : String) :
    (bucketOf es p).length = (es.flatMap Disambiguated.allowedPrefixes).count p := by
  induction es with
  | nil => rfl
  | cons e es ih =>
    simp only [bucketOf, List.flatMap_cons, List.length_append, List.length_replicate,
      List.count_append] at ih ⊢
    rw [ih]

theorem countPrefixes_apply (prefixCount : String → Nat) (ps : List String) (p : String) :
    countPrefixes prefixCount ps p = prefixCount p + ps.count p := by
  induction ps generalizing prefixCount with
  | nil => rfl
  | cons q ps ih =>
    rw [countPrefixes, ih, List.count_cons]
    by_cases h : q = p
    · subst h; simp; omega
    · simp [Function.update_noteq (Ne.symm h), h]

theorem pushEntry_apply (entry : Disambiguated) (map : String → List Disambiguated)
    (ps : List String) (p : String) :
    pushEntry entry map ps p = map p ++ List.replicate (ps.count p) entry := by
  induction ps generalizing map with
  | nil => simp [pushEntry]
  | cons q ps ih =>
    rw [pushEntry, ih, List.count_cons]
    by_cases h : q = p
    · subst h; simp [List.replicate_succ]
    · simp [Function.update_noteq (Ne.symm h), h]

/-- `prefix_count` of a prefix is the size of its bucket: the occurrences of the prefix over the
prefix lists of all variants of the name. -/
theorem prefixCountOf_apply (variants : List Item) (p : String) :
    prefixCountOf variants p = (variants.flatMap prefixesOf).count p := by
  suffices h : ∀ c : String → Nat, (variants.foldl
      (fun prefixCount v => countPrefixes prefixCount (prefixesOf v)) c) p =
      c p + (variants.flatMap prefixesOf).count p from (h _).trans (Nat.zero_add _)
  induction variants with
  | nil => simp
  | cons v vs ih => intro c; simp [ih, countPrefixes_apply, List.count_append, Nat.add_assoc]

theorem pushEntries_eq (prefixCount : String → Nat) (list : List Disambiguated)
    (map : String → List Disambiguated) (variants : List Item) :
    pushEntries prefixCount (list, map) variants =
      (list ++ variants.map (entryOf prefixCount),
        fun p => map p ++ bucketOf (variants.map (entryOf prefixCount)) p) := by
  induction variants generalizing list map with
  | nil => simp [pushEntries, bucketOf]
  | cons v vs ih =>
    rw [pushEntries, ih]
    refine Prod.ext (by simp) (funext fun p => ?_)
    simp [pushEntry_apply, bucketOf, entryOf]

/-- The count `longest_prefix` reads is the size of the prefix's bucket. -/
theorem prefixCountOf_eq_length (variants : List Item) (p : String) :
    prefixCountOf variants p =
      (bucketOf (variants.map (entryOf (prefixCountOf variants))) p).length := by
  simp [prefixCountOf_apply, length_bucketOf, List.flatMap_map, entryOf]

/-! ## The groups of `values_for_name` -/

/-- One group per name, each holding values of that lowercased name. -/
structure GroupsOk (groups : List (String × List Item)) : Prop where
  nodup : (groups.map Prod.fst).Nodup
  named : ∀ g ∈ groups, ∀ v ∈ g.2, toAsciiLowercase v.name = g.1

theorem mem_keys_pushGroup {key x : String} {value : Item} {groups : List (String × List Item)} :
    x ∈ (pushGroup key value groups).map Prod.fst ↔ x = key ∨ x ∈ groups.map Prod.fst := by
  induction groups with
  | nil => simp [pushGroup]
  | cons g gs ih =>
    obtain ⟨k, vs⟩ := g
    by_cases h : k = key
    · subst h; simp [pushGroup]
    · simp only [pushGroup, h, if_false, List.map_cons, List.mem_cons, ih]
      exact or_left_comm

theorem nodup_keys_pushGroup {key : String} {value : Item} {groups : List (String × List Item)}
    (h : (groups.map Prod.fst).Nodup) : ((pushGroup key value groups).map Prod.fst).Nodup := by
  induction groups with
  | nil => simp [pushGroup]
  | cons g gs ih =>
    obtain ⟨k, vs⟩ := g
    have h' := List.nodup_cons.mp h
    by_cases hk : k = key
    · simpa [pushGroup, hk] using h
    · simp only [pushGroup, hk, if_false, List.map_cons]
      exact List.nodup_cons.mpr ⟨fun hm => (mem_keys_pushGroup.mp hm).elim hk h'.1, ih h'.2⟩

/-- A value of a group after the push was in the group of that key before, or is the pushed one. -/
theorem mem_pushGroup {key : String} {value w : Item} {groups : List (String × List Item)}
    {g : String × List Item} (hg : g ∈ pushGroup key value groups) (hw : w ∈ g.2) :
    (∃ g' ∈ groups, g'.1 = g.1 ∧ w ∈ g'.2) ∨ (g.1 = key ∧ w = value) := by
  induction groups with
  | nil => simp_all [pushGroup]
  | cons g' gs ih =>
    obtain ⟨k, vs⟩ := g'
    simp only [pushGroup] at hg
    split_ifs at hg with hk
    · rcases List.mem_cons.mp hg with rfl | hg
      · rcases List.mem_append.mp hw with hw | hw
        · exact .inl ⟨_, .head _, rfl, hw⟩
        · exact .inr ⟨hk, List.mem_singleton.mp hw⟩
      · exact .inl ⟨g, .tail _ hg, rfl, hw⟩
    · rcases List.mem_cons.mp hg with rfl | hg
      · exact .inl ⟨_, .head _, rfl, hw⟩
      · rcases ih hg with ⟨g', hg', h1, h2⟩ | h
        · exact .inl ⟨g', .tail _ hg', h1, h2⟩
        · exact .inr h

theorem GroupsOk.pushGroup {groups : List (String × List Item)} (h : GroupsOk groups)
    {value : Item} : GroupsOk (pushGroup (toAsciiLowercase value.name) value groups) where
  nodup := nodup_keys_pushGroup h.nodup
  named g hg w hw := by
    rcases mem_pushGroup hg hw with ⟨g', hg', hk, hw'⟩ | ⟨hk, rfl⟩
    · exact hk ▸ h.named g' hg' w hw'
    · exact hk.symm

theorem GroupsOk.groupValues {groups : List (String × List Item)} (h : GroupsOk groups)
    (seen : List String) (values : List Item) : GroupsOk (groupValues seen groups values) := by
  induction values generalizing seen groups with
  | nil => exact h
  | cons v vs ih =>
    rw [Utils.groupValues]
    split
    · exact ih h seen
    · exact ih h.pushGroup _

/-! ## `by_name` against `all_commands` -/

/-- Each bucket of the map of a name is what `bucketOf` gives on the entries of that name. -/
def DisambiguatedSet.Ok (set : DisambiguatedSet) : Prop :=
  ∀ n p, set.byName n p = bucketOf (set.list.filter fun e => toAsciiLowercase e.value.name = n) p

theorem DisambiguatedSet.addName_list (set : DisambiguatedSet) (group : String × List Item) :
    (set.addName group).list = set.list ++ group.2.map (entryOf (prefixCountOf group.2)) := by
  simp [DisambiguatedSet.addName, pushEntries_eq]

/-- A name not seen before keeps `Ok`. -/
theorem DisambiguatedSet.Ok.addName {set : DisambiguatedSet} (h : set.Ok)
    {group : String × List Item} (hnew : ∀ e ∈ set.list, toAsciiLowercase e.value.name ≠ group.1)
    (hnamed : ∀ v ∈ group.2, toAsciiLowercase v.name = group.1) : (set.addName group).Ok := by
  intro n p
  simp only [DisambiguatedSet.addName, pushEntries_eq, List.filter_append, bucketOf_append]
  by_cases hn : n = group.1
  · subst hn
    rw [Function.update_same, List.filter_eq_nil_iff.mpr (by simpa using hnew),
      List.filter_eq_self.mpr (by simpa [entryOf] using hnamed)]
    simp [bucketOf]
  · have hnone : (group.2.map (entryOf (prefixCountOf group.2))).filter
        (fun e => toAsciiLowercase e.value.name = n) = [] :=
      List.filter_eq_nil_iff.mpr fun e he => by
        obtain ⟨v, hv, rfl⟩ := List.mem_map.mp he
        simpa [entryOf] using fun h' => hn (h'.symm.trans (hnamed v hv))
    rw [Function.update_noteq hn, h n p, hnone]
    simp [bucketOf]

theorem DisambiguatedSet.Ok.foldl {groups : List (String × List Item)} (hg : GroupsOk groups) :
    ∀ {set : DisambiguatedSet}, set.Ok →
      (∀ e ∈ set.list, toAsciiLowercase e.value.name ∉ groups.map Prod.fst) →
      (groups.foldl DisambiguatedSet.addName set).Ok := by
  induction groups with
  | nil => exact fun h _ => h
  | cons g gs ih =>
    intro set h hnew
    have hgs : GroupsOk gs := ⟨(List.nodup_cons.mp hg.nodup).2, fun g' hg' => hg.named g' (.tail _ hg')⟩
    refine ih hgs (h.addName (fun e he heq => hnew e he (heq ▸ .head _)) (hg.named g (.head _)))
      fun e he hmem => ?_
    rw [set.addName_list, List.mem_append] at he
    rcases he with he | he
    · exact hnew e he (.tail _ hmem)
    · obtain ⟨v, hv, rfl⟩ := List.mem_map.mp he
      rw [entryOf, hg.named g (.head _) v hv] at hmem
      exact (List.nodup_cons.mp hg.nodup).1 hmem

/-- The bucket of prefix `p` in the map of name `n` holds each entry of `all_commands` named `n`,
in order, once per occurrence of `p` among its allowed prefixes. -/
theorem new_byName (values : List Item) (n p : String) :
    (DisambiguatedSet.new values).byName n p =
      bucketOf ((DisambiguatedSet.new values).list.filter
        fun e => toAsciiLowercase e.value.name = n) p :=
  DisambiguatedSet.Ok.foldl ((⟨List.nodup_nil, by simp⟩ : GroupsOk []).groupValues [] values)
    (fun _ _ => by simp [bucketOf]) (by simp) n p

/-! ## `all_commands` -/

/-- The values the first loop of `new` keeps: each one whose lowercased full name no earlier value
has. -/
def keptValues : List String → List Item → List Item
  | _, [] => []
  | seen, v :: vs =>
    if toAsciiLowercase v.fullName ∈ seen then keptValues seen vs
    else v :: keptValues (toAsciiLowercase v.fullName :: seen) vs

theorem flatMap_pushGroup (key : String) (value : Item) (groups : List (String × List Item)) :
    ((pushGroup key value groups).flatMap Prod.snd).Perm (groups.flatMap Prod.snd ++ [value]) := by
  induction groups with
  | nil => simp [pushGroup]
  | cons g gs ih =>
    obtain ⟨k, vs⟩ := g
    by_cases h : k = key
    · simpa [pushGroup, h] using (List.perm_append_singleton _ _).symm.append_left vs
    · simpa [pushGroup, h] using ih.append_left vs

theorem flatMap_groupValues (seen : List String) (groups : List (String × List Item))
    (values : List Item) :
    ((groupValues seen groups values).flatMap Prod.snd).Perm
      (groups.flatMap Prod.snd ++ keptValues seen values) := by
  induction values generalizing seen groups with
  | nil => simp [groupValues, keptValues]
  | cons v vs ih =>
    rw [groupValues, keptValues]
    split
    · exact ih seen groups
    · refine (ih _ _).trans ?_
      simpa using (flatMap_pushGroup _ v groups).append_right _

theorem new_list (values : List Item) :
    (DisambiguatedSet.new values).list =
      (groupValues [] [] values).flatMap fun g => g.2.map (entryOf (prefixCountOf g.2)) := by
  suffices h : ∀ (groups : List (String × List Item)) (set : DisambiguatedSet),
      (groups.foldl DisambiguatedSet.addName set).list =
        set.list ++ groups.flatMap fun g => g.2.map (entryOf (prefixCountOf g.2)) from h _ _
  intro groups
  induction groups with
  | nil => simp
  | cons g gs ih => intro set; simp [ih, DisambiguatedSet.addName_list]

/-- `all_commands` holds each value `new` keeps, once, up to the order of the map. -/
theorem new_values_perm (values : List Item) :
    ((DisambiguatedSet.new values).list.map Disambiguated.value).Perm (keptValues [] values) := by
  rw [new_list, List.map_flatMap]
  simpa [entryOf, Function.comp_def] using flatMap_groupValues [] [] values

/-- Every entry's allowed prefixes are its lowercased full name, the parts of its lowercased
module name after each `.`, and `""`. -/
theorem new_allowedPrefixes (values : List Item) :
    ∀ e ∈ (DisambiguatedSet.new values).list, e.allowedPrefixes = prefixesOf e.value := by
  rw [new_list]
  simp only [List.mem_flatMap, List.mem_map]
  rintro _ ⟨_, -, v, -, rfl⟩
  rfl

/-! ## What `new` keeps -/

theorem keptValues_not_mem {seen : List String} {values : List Item} {w : Item}
    (hw : w ∈ keptValues seen values) : toAsciiLowercase w.fullName ∉ seen := by
  induction values generalizing seen with
  | nil => simp [keptValues] at hw
  | cons v vs ih =>
    rw [keptValues] at hw
    split at hw
    · exact ih hw
    · rcases List.mem_cons.mp hw with rfl | hw
      · assumption
      · exact fun h => ih hw (.tail _ h)

theorem keptValues_nodup (seen : List String) (values : List Item) :
    ((keptValues seen values).map fun w => toAsciiLowercase w.fullName).Nodup := by
  induction values generalizing seen with
  | nil => simp [keptValues]
  | cons v vs ih =>
    rw [keptValues]
    split
    · exact ih seen
    · refine List.nodup_cons.mpr ⟨fun hm => ?_, ih _⟩
      obtain ⟨w, hw, heq⟩ := List.mem_map.mp hm
      exact keptValues_not_mem hw (heq ▸ .head _)

/-- Each kept value is the first of the input with its lowercased full name. -/
theorem keptValues_first {seen : List String} {values : List Item} {w : Item}
    (hw : w ∈ keptValues seen values) :
    values.find? (fun v => toAsciiLowercase v.fullName = toAsciiLowercase w.fullName) = some w := by
  induction values generalizing seen with
  | nil => simp [keptValues] at hw
  | cons v vs ih =>
    rw [keptValues] at hw
    split at hw
    · rename_i hv
      have hne : toAsciiLowercase v.fullName ≠ toAsciiLowercase w.fullName :=
        fun h => keptValues_not_mem hw (h ▸ hv)
      simp [List.find?_cons, hne, ih hw]
    · rcases List.mem_cons.mp hw with rfl | hw
      · simp
      · have hne : toAsciiLowercase v.fullName ≠ toAsciiLowercase w.fullName :=
          fun h => keptValues_not_mem hw (h ▸ .head _)
        simp [List.find?_cons, hne, ih hw]

/-- Every lowercased full name of the input is kept, from the value `seen` has not taken. -/
theorem keptValues_cover {seen : List String} {values : List Item} {v : Item} (hv : v ∈ values)
    (hseen : toAsciiLowercase v.fullName ∉ seen) :
    ∃ w ∈ keptValues seen values, toAsciiLowercase w.fullName = toAsciiLowercase v.fullName := by
  induction values generalizing seen with
  | nil => simp at hv
  | cons u us ih =>
    rw [keptValues]
    split
    · rcases List.mem_cons.mp hv with rfl | hv
      · contradiction
      · exact ih hv hseen
    · by_cases heq : toAsciiLowercase u.fullName = toAsciiLowercase v.fullName
      · exact ⟨u, .head _, heq⟩
      · rcases List.mem_cons.mp hv with rfl | hv
        · exact absurd rfl heq
        · have hseen' : toAsciiLowercase v.fullName ∉ toAsciiLowercase u.fullName :: seen := by
            simp [hseen, Ne.symm heq]
          obtain ⟨w, hw, h⟩ := ih hv hseen'
          exact ⟨w, .tail _ hw, h⟩

/-! ## `resolve` -/

theorem length_splitOnP {α : Type} (p : α → Bool) (xs : List α) :
    (xs.splitOnP p).length = (xs.filter p).length + 1 := by
  induction xs with
  | nil => rfl
  | cons x xs ih =>
    rw [List.splitOnP_cons, List.filter_cons]
    split <;> simp_all

theorem length_splitOn_colon (q : String) :
    ((toAsciiLowercase q).data.splitOn ':').length = q.data.count ':' + 1 := by
  rw [List.splitOn, length_splitOnP, ← List.countP_eq_length_filter]
  show List.count ':' (toAsciiLowercase q).data + 1 = _
  rw [toAsciiLowercase_data, count_map_toLower (by decide)]

/-- `resolve` fails exactly on a name with two `:` or more. -/
theorem resolve_error_iff (set : DisambiguatedSet) (className q : String) :
    (∃ msg, set.resolve className q = .error msg) ↔ 2 ≤ q.data.count ':' := by
  have hlen := length_splitOn_colon q
  unfold DisambiguatedSet.resolve
  generalize (toAsciiLowercase q).data.splitOn ':' = l at hlen ⊢
  rcases l with _ | ⟨a, _ | ⟨b, _ | ⟨c, l⟩⟩⟩ <;> simp at hlen ⊢ <;> omega

theorem not_colon_toAsciiLowercase {s : String} (hs : ':' ∉ s.data) :
    ∀ c ∈ (toAsciiLowercase s).data, ¬ (c == ':') = true := fun c hc h => by
  obtain ⟨c', hc', rfl⟩ := List.mem_map.mp (toAsciiLowercase_data _ ▸ hc)
  exact hs ((toLower_eq_iff_of_lt (by decide)).mp (beq_iff_eq.mp h) ▸ hc')

/-- Without `:`, `resolve` reads the bucket of `""` in the map of the lowercased name. -/
theorem resolve_of_no_colon (set : DisambiguatedSet) (className : String) {q : String}
    (hq : ':' ∉ q.data) : set.resolve className q = .ok (set.byName (toAsciiLowercase q) "") := by
  have hsplit : (toAsciiLowercase q).data.splitOn ':' = [(toAsciiLowercase q).data] :=
    List.splitOnP_eq_single _ _ (not_colon_toAsciiLowercase hq)
  rw [DisambiguatedSet.resolve, hsplit]

/-- With one `:`, `resolve` reads the bucket of the lowercased group in the map of the lowercased
name. -/
theorem resolve_of_colon (set : DisambiguatedSet) (className : String) {g n : String}
    (hg : ':' ∉ g.data) (hn : ':' ∉ n.data) :
    set.resolve className (g ++ ":" ++ n) =
      .ok (set.byName (toAsciiLowercase n) (toAsciiLowercase g)) := by
  have hsplit : (toAsciiLowercase (g ++ ":" ++ n)).data.splitOn ':' =
      [(toAsciiLowercase g).data, (toAsciiLowercase n).data] := by
    rw [toAsciiLowercase_append, toAsciiLowercase_append]
    simp only [String.data_append, List.append_assoc]
    rw [show (toAsciiLowercase ":").data = [':'] from rfl, List.singleton_append, List.splitOn,
      List.splitOnP_first _ _ (not_colon_toAsciiLowercase hg) _ (by decide),
      List.splitOnP_eq_single _ _ (not_colon_toAsciiLowercase hn)]
  rw [DisambiguatedSet.resolve, hsplit]

/-- On a query with at most one `:`, `resolve` yields the bucket of the query's group part (`""`
without a `:`) among the entries of the query's name, up to case. -/
theorem resolve_eq_bucket (className : String) (values : List Item) {g n : String}
    (hg : ':' ∉ g.data) (hn : ':' ∉ n.data) :
    (DisambiguatedSet.new values).resolve className n = .ok (bucketOf
      ((DisambiguatedSet.new values).list.filter
        fun e => toAsciiLowercase e.value.name = toAsciiLowercase n) "") ∧
    (DisambiguatedSet.new values).resolve className (g ++ ":" ++ n) = .ok (bucketOf
      ((DisambiguatedSet.new values).list.filter
        fun e => toAsciiLowercase e.value.name = toAsciiLowercase n) (toAsciiLowercase g)) := by
  rw [resolve_of_no_colon _ _ hn, resolve_of_colon _ _ hg hn, new_byName, new_byName]
  exact ⟨rfl, rfl⟩

/-- A query with a group, on two commands of one name. -/
theorem resolve_eq_bucket_group :
    ':' ∉ "A".data ∧ ':' ∉ "Cmd".data ∧
    (DisambiguatedSet.new [⟨"cmd", "a.cmd", "a"⟩, ⟨"cmd", "b.cmd", "b"⟩]).resolve "command" "Cmd" =
      .ok (bucketOf ((DisambiguatedSet.new [⟨"cmd", "a.cmd", "a"⟩, ⟨"cmd", "b.cmd", "b"⟩]).list.filter
        fun e => toAsciiLowercase e.value.name = toAsciiLowercase "Cmd") "") ∧
    (DisambiguatedSet.new [⟨"cmd", "a.cmd", "a"⟩, ⟨"cmd", "b.cmd", "b"⟩]).resolve "command"
        ("A" ++ ":" ++ "Cmd") =
      .ok (bucketOf ((DisambiguatedSet.new [⟨"cmd", "a.cmd", "a"⟩, ⟨"cmd", "b.cmd", "b"⟩]).list.filter
        fun e => toAsciiLowercase e.value.name = toAsciiLowercase "Cmd") (toAsciiLowercase "A")) :=
  ⟨by decide, by decide, resolve_eq_bucket "command" _ (by decide) (by decide)⟩

/-- A module name that ends in `.` gives its entry the prefix `""` twice, and `resolve` yields the
entry twice. -/
theorem resolve_yields_entry_twice :
    (DisambiguatedSet.new [⟨"cmd", "m.cmd", "m."⟩]).list =
        [⟨⟨"cmd", "m.cmd", "m."⟩, "m.cmd", ["m.cmd", "", ""]⟩] ∧
      (DisambiguatedSet.new [⟨"cmd", "m.cmd", "m."⟩]).resolve "command" "cmd" =
        .ok [⟨⟨"cmd", "m.cmd", "m."⟩, "m.cmd", ["m.cmd", "", ""]⟩,
          ⟨⟨"cmd", "m.cmd", "m."⟩, "m.cmd", ["m.cmd", "", ""]⟩] :=
  ⟨rfl, rfl⟩

end Utils
end Sylphie
