import Sylphie.Utils.Disambiguate
import Mathlib.Data.List.Nodup

/-!
# DisambiguatePrefix — `disambiguated_prefix` against `resolve`

The doc comments of `Disambiguated` give the allowed prefixes "in order from longest to shortest"
and the disambiguated prefix as "the shortest unambiguous prefix". `new` takes the last prefix that
occurs once over the prefix lists of all variants of the name; `resolve` answers the prefix's
bucket, where an entry appears once per occurrence of the prefix in its own list.

`all_commands` holds one entry for each case-insensitive full name of the input and never two,
that of the first value with the name (`allCommands_first_occurrences`).

When every value is plain (its module name does not end in `.`, its full name is longer than its
module name, and none of its names holds `:`), the allowed prefixes strictly shorten, and the
disambiguated prefix is the shortest allowed prefix under which `resolve` yields the entry alone,
or the lowercased full name when there is none (`new_disambiguatedPrefix_shortest`). A module name
that ends in `.` repeats `""`: the entry is counted twice under it, and its full name is chosen
although `""` resolves to it alone (`disambiguated_prefix_not_shortest`).
-/

namespace Sylphie
namespace Utils

/-! ## `longest_prefix` -/

/-- `longest_prefix` is the last prefix counted once, else `prefixes[0]`. -/
theorem longestPrefix_eq (prefixCount : String → Nat) (prefixes : List String) :
    longestPrefix prefixCount prefixes =
      ((prefixes.filter fun p => prefixCount p = 1).getLast?).getD (prefixes.headD "") := by
  suffices h : ∀ init, prefixes.foldl (fun longest p => if prefixCount p = 1 then p else longest)
      init = ((prefixes.filter fun p => prefixCount p = 1).getLast?).getD init from h _
  induction prefixes with
  | nil => intro; rfl
  | cons q qs ih =>
    intro init
    rw [List.foldl_cons, ih, List.filter_cons]
    split <;> simp_all [List.getLast?_cons]

/-- In a list that strictly shortens, the last element is the shortest. -/
theorem length_getLast_le {l : List String} (hl : l.Pairwise fun p q => q.length < p.length)
    (hne : l ≠ []) : ∀ x ∈ l, (l.getLast hne).length ≤ x.length := by
  induction l with
  | nil => exact absurd rfl hne
  | cons a t ih =>
    intro x hx
    rw [List.pairwise_cons] at hl
    by_cases ht : t = []
    · subst ht
      simp_all
    · rw [List.getLast_cons ht]
      rcases List.mem_cons.mp hx with rfl | hx
      · exact Nat.le_of_lt (hl.1 _ (List.getLast_mem ht))
      · exact ih hl.2 ht x hx

/-! ## The prefixes of one value -/

theorem length_lt_of_mem_dotSuffixes {cs : List Char} {s : String} (h : s ∈ dotSuffixes cs) :
    s.length < cs.length := by
  induction cs with
  | nil => simp [dotSuffixes] at h
  | cons c cs ih =>
    rw [dotSuffixes] at h
    split at h
    · rcases List.mem_cons.mp h with rfl | h
      · simp
      · exact Nat.lt_succ_of_lt (ih h)
    · exact Nat.lt_succ_of_lt (ih h)

/-- The parts after each `.` strictly shorten. -/
theorem dotSuffixes_pairwise (cs : List Char) :
    (dotSuffixes cs).Pairwise fun p q => q.length < p.length := by
  induction cs with
  | nil => exact List.Pairwise.nil
  | cons c cs ih =>
    rw [dotSuffixes]
    split
    · exact List.pairwise_cons.mpr ⟨fun _ h => length_lt_of_mem_dotSuffixes h, ih⟩
    · exact ih

theorem mem_of_mem_dotSuffixes {cs : List Char} {s : String} (h : s ∈ dotSuffixes cs) {c : Char}
    (hc : c ∈ s.data) : c ∈ cs := by
  induction cs with
  | nil => simp [dotSuffixes] at h
  | cons c' cs ih =>
    rw [dotSuffixes] at h
    split at h
    · rcases List.mem_cons.mp h with rfl | h
      · exact .tail _ hc
      · exact .tail _ (ih h)
    · exact .tail _ (ih h)

/-- Without a final `.`, no part after a `.` is empty. -/
theorem length_pos_of_mem_dotSuffixes {cs : List Char} (hlast : cs.getLast? ≠ some '.')
    {s : String} (h : s ∈ dotSuffixes cs) : 0 < s.length := by
  induction cs with
  | nil => simp [dotSuffixes] at h
  | cons c cs ih =>
    have hlast' : cs.getLast? ≠ some '.' := fun h' => hlast (by simp [List.getLast?_cons, h'])
    rw [dotSuffixes] at h
    split at h
    · rcases List.mem_cons.mp h with rfl | h
      · rename_i hc
        cases cs with
        | nil => simp [hc] at hlast
        | cons => simp
      · exact ih hlast' h
    · exact ih hlast' h

/-- What the prefixes of a value need for `resolve` to tell them apart: a module name that does not
end in `.`, a full name longer than it, and no `:` in any of the three names. -/
structure Item.Plain (v : Item) : Prop where
  moduleName_lt : v.moduleName.length < v.fullName.length
  not_dot : v.moduleName.data.getLast? ≠ some '.'
  name_colon : ':' ∉ v.name.data
  fullName_colon : ':' ∉ v.fullName.data
  moduleName_colon : ':' ∉ v.moduleName.data

theorem toAsciiLowercase_of_mem_prefixesOf {v : Item} {p : String} (hp : p ∈ prefixesOf v) :
    toAsciiLowercase p = p := by
  simp only [prefixesOf, List.mem_cons, List.mem_append, List.not_mem_nil, or_false] at hp
  rcases hp with rfl | hp | rfl
  · exact toAsciiLowercase_toAsciiLowercase _
  · refine String.ext ((List.map_congr_left fun c hc => ?_).trans (List.map_id _))
    obtain ⟨c', -, rfl⟩ := List.mem_map.mp (toAsciiLowercase_data _ ▸ mem_of_mem_dotSuffixes hp hc)
    exact toLower_toLower c'
  · rfl

theorem not_colon_of_mem_prefixesOf {v : Item} (hv : v.Plain) {p : String}
    (hp : p ∈ prefixesOf v) : ':' ∉ p.data := by
  simp only [prefixesOf, List.mem_cons, List.mem_append, List.not_mem_nil, or_false] at hp
  rcases hp with rfl | hp | rfl
  · exact fun h => not_colon_toAsciiLowercase hv.fullName_colon _ h (beq_self_eq_true _)
  · exact fun h => not_colon_toAsciiLowercase hv.moduleName_colon _
      (mem_of_mem_dotSuffixes hp h) (beq_self_eq_true _)
  · simp

/-- A plain value's prefixes strictly shorten. -/
theorem Item.Plain.prefixes_pairwise {v : Item} (hv : v.Plain) :
    (prefixesOf v).Pairwise fun p q => q.length < p.length := by
  have hmod : (toAsciiLowercase v.moduleName).data.getLast? ≠ some '.' := by
    simpa [toLower_eq_iff_of_lt (show '.'.toNat < 65 by decide)] using hv.not_dot
  have hl : ∀ s : String, s.length = s.data.length := fun _ => rfl
  have hfull := hv.moduleName_lt
  simp only [hl] at hfull
  have hlen : ∀ s ∈ dotSuffixes (toAsciiLowercase v.moduleName).data ++ [""],
      s.length < (toAsciiLowercase v.fullName).length := fun s hs => by
    simp only [hl, toAsciiLowercase_data, List.length_map]
    rcases List.mem_append.mp hs with hs | hs
    · have := length_lt_of_mem_dotSuffixes hs
      simp only [hl, toAsciiLowercase_data, List.length_map] at this
      omega
    · rw [List.mem_singleton.mp hs]
      exact Nat.lt_of_le_of_lt (Nat.zero_le _) hfull
  exact List.pairwise_cons.mpr ⟨hlen, List.pairwise_append.mpr ⟨dotSuffixes_pairwise _,
    List.pairwise_singleton _ _, fun s hs t ht => by
      rw [List.mem_singleton.mp ht]; exact length_pos_of_mem_dotSuffixes hmod hs⟩⟩

/-! ## Buckets of one entry -/

theorem mem_bucketOf {es : List Disambiguated} {p : String} {x : Disambiguated} :
    x ∈ bucketOf es p ↔ x ∈ es ∧ p ∈ x.allowedPrefixes := by
  simp [bucketOf, List.mem_flatMap, List.mem_replicate, List.count_eq_zero]

/-- A bucket holding only `e`, where `e` occurs once and carries the prefix once, is `[e]`. -/
theorem bucketOf_eq_singleton {es : List Disambiguated} {p : String} {e : Disambiguated}
    (hnd : es.Nodup) (he : e ∈ es) (hcount : e.allowedPrefixes.count p = 1)
    (honly : ∀ x ∈ bucketOf es p, x = e) : bucketOf es p = [e] := by
  induction es with
  | nil => simp at he
  | cons x xs ih =>
    have hx := List.nodup_cons.mp hnd
    simp only [bucketOf, List.flatMap_cons] at honly ⊢
    by_cases hxe : x = e
    · subst hxe
      have hnil : bucketOf xs p = [] := List.eq_nil_iff_forall_not_mem.mpr fun y hy =>
        hx.1 (honly y (List.mem_append_right _ hy) ▸ (mem_bucketOf.mp hy).1)
      simp only [bucketOf] at hnil
      simp [hcount, hnil]
    · have hzero : x.allowedPrefixes.count p = 0 := by
        by_contra h
        exact hxe (honly x (List.mem_append_left _ (List.mem_replicate.mpr ⟨h, rfl⟩)))
      rw [hzero, List.replicate_zero, List.nil_append]
      exact ih hx.2 ((List.mem_cons.mp he).resolve_left (Ne.symm hxe))
        fun y hy => honly y (List.mem_append_right _ hy)

/-! ## The entries of `new` -/

theorem foldl_addName_byName_of_not_mem {groups : List (String × List Item)}
    {set : DisambiguatedSet} {k : String} (hk : k ∉ groups.map Prod.fst) :
    (groups.foldl DisambiguatedSet.addName set).byName k = set.byName k := by
  induction groups generalizing set with
  | nil => rfl
  | cons g gs ih =>
    simp only [List.map_cons, List.mem_cons, not_or] at hk
    rw [List.foldl_cons, ih hk.2]
    exact Function.update_noteq hk.1 _ _

/-- The map stored under a name is the one its own turn built. -/
theorem foldl_addName_byName {groups : List (String × List Item)}
    (hnd : (groups.map Prod.fst).Nodup) {g : String × List Item} (hg : g ∈ groups)
    (set : DisambiguatedSet) :
    (groups.foldl DisambiguatedSet.addName set).byName g.1 =
      bucketOf (g.2.map (entryOf (prefixCountOf g.2))) := by
  induction groups generalizing set with
  | nil => simp at hg
  | cons g' gs ih =>
    have hnd' := List.nodup_cons.mp hnd
    rw [List.foldl_cons]
    rcases List.mem_cons.mp hg with rfl | hg
    · rw [foldl_addName_byName_of_not_mem hnd'.1]
      funext p
      simp [DisambiguatedSet.addName, pushEntries_eq]
    · exact ih hnd'.2 hg _

theorem new_nodup (values : List Item) : (DisambiguatedSet.new values).list.Nodup := by
  have hkept : (keptValues [] values).Nodup := (keptValues_nodup [] values).of_map _
  exact ((new_values_perm values).nodup_iff.mpr hkept).of_map _

theorem mem_of_mem_keptValues {seen : List String} {values : List Item} {w : Item}
    (hw : w ∈ keptValues seen values) : w ∈ values :=
  List.mem_of_find?_eq_some (keptValues_first hw)

/-- `all_commands` holds one entry per full name of the input up to case, that of the first value
with it, whose allowed prefixes are `prefixesOf` the value. -/
theorem allCommands_first_occurrences (values : List Item) :
    (∀ v ∈ values, ∃ e ∈ (DisambiguatedSet.new values).list,
      toAsciiLowercase e.value.fullName = toAsciiLowercase v.fullName) ∧
    ((DisambiguatedSet.new values).list.map fun e => toAsciiLowercase e.value.fullName).Nodup ∧
    ∀ e ∈ (DisambiguatedSet.new values).list,
      values.find? (fun v => toAsciiLowercase v.fullName = toAsciiLowercase e.value.fullName) =
        some e.value ∧ e.allowedPrefixes = prefixesOf e.value := by
  have hperm := new_values_perm values
  refine ⟨fun v hv => ?_, ?_, fun e he =>
    ⟨keptValues_first (hperm.subset (List.mem_map_of_mem _ he)), new_allowedPrefixes values e he⟩⟩
  · obtain ⟨w, hw, hname⟩ := keptValues_cover hv (List.not_mem_nil _)
    obtain ⟨e, he, rfl⟩ := List.mem_map.mp (hperm.symm.subset hw)
    exact ⟨e, he, hname⟩
  · have := (hperm.map fun w => toAsciiLowercase w.fullName).nodup_iff.mpr
      (keptValues_nodup [] values)
    simpa [Function.comp_def] using this

/-- Of two values with one full name up to case, the first is kept. -/
example : ((DisambiguatedSet.new [⟨"cmd", "a.cmd", "a"⟩, ⟨"CMD", "A.CMD", "A"⟩,
    ⟨"cmd", "b.cmd", "b"⟩]).list.map fun e => e.value.fullName) = ["a.cmd", "b.cmd"] := rfl

/-- An entry's disambiguated prefix is `longest_prefix` over its allowed prefixes, counted by the
sizes of their buckets in the map of its name. -/
theorem new_disambiguatedPrefix (values : List Item) {e : Disambiguated}
    (he : e ∈ (DisambiguatedSet.new values).list) :
    e.disambiguatedPrefix = longestPrefix
      (fun p => ((DisambiguatedSet.new values).byName (toAsciiLowercase e.value.name) p).length)
      e.allowedPrefixes := by
  have hok := (⟨List.nodup_nil, by simp⟩ : GroupsOk []).groupValues [] values
  rw [new_list] at he
  obtain ⟨g, hg, hge⟩ := List.mem_flatMap.mp he
  obtain ⟨v, hv, rfl⟩ := List.mem_map.mp hge
  have hname : toAsciiLowercase v.name = g.1 := hok.named g hg v hv
  simp only [entryOf]
  congr 1
  funext p
  rw [hname, DisambiguatedSet.new, foldl_addName_byName hok.nodup hg, prefixCountOf_eq_length]

/-! ## The shortest prefix that resolves to an entry alone -/

/-- `resolve(p ':' name(e))` yields `e` and no other entry. -/
def DisambiguatedSet.ResolvesTo (set : DisambiguatedSet) (className p : String)
    (e : Disambiguated) : Prop :=
  ∃ es, set.resolve className (p ++ ":" ++ e.value.name) = .ok es ∧ e ∈ es ∧ ∀ x ∈ es, x = e

/-- For a plain entry's own prefix, resolving to it alone is being counted once. -/
theorem resolvesTo_iff_count (className : String) {values : List Item}
    {e : Disambiguated} (he : e ∈ (DisambiguatedSet.new values).list) (hv : e.value.Plain)
    {p : String} (hp : p ∈ e.allowedPrefixes) :
    (DisambiguatedSet.new values).ResolvesTo className p e ↔
      ((DisambiguatedSet.new values).byName (toAsciiLowercase e.value.name) p).length = 1 := by
  have hpre := new_allowedPrefixes values e he
  rw [hpre] at hp
  have hresolve := resolve_of_colon (DisambiguatedSet.new values) className
    (not_colon_of_mem_prefixesOf hv hp) hv.name_colon
  rw [toAsciiLowercase_of_mem_prefixesOf hp, new_byName] at hresolve
  rw [new_byName]
  set es := (DisambiguatedSet.new values).list.filter
    fun x => toAsciiLowercase x.value.name = toAsciiLowercase e.value.name
  have hes : e ∈ es := List.mem_filter.mpr ⟨he, by simp⟩
  have hnd : e.allowedPrefixes.Nodup := hpre ▸ hv.prefixes_pairwise.imp fun h heq =>
    Nat.ne_of_gt h (congrArg String.length heq)
  have hcount : e.allowedPrefixes.count p = 1 := List.count_eq_one_of_mem hnd (hpre ▸ hp)
  have hin : e ∈ bucketOf es p := mem_bucketOf.mpr ⟨hes, hpre ▸ hp⟩
  constructor
  · rintro ⟨xs, hxs, -, honly⟩
    rw [hresolve, Except.ok.injEq] at hxs
    subst hxs
    rw [bucketOf_eq_singleton ((new_nodup values).sublist (List.filter_sublist _)) hes hcount
      honly]
    rfl
  · intro hlen
    obtain ⟨x, hx⟩ := List.length_eq_one.mp hlen
    refine ⟨_, hresolve, hin, fun y hy => ?_⟩
    rw [hx, List.mem_singleton] at hy hin
    exact hy.trans hin.symm

/-- For plain values, the allowed prefixes of every entry strictly shorten, and its disambiguated
prefix is the shortest allowed prefix under which `resolve` yields it alone, or its lowercased
full name when there is none. -/
theorem new_disambiguatedPrefix_shortest (className : String) {values : List Item}
    (hplain : ∀ v ∈ values, v.Plain) {e : Disambiguated}
    (he : e ∈ (DisambiguatedSet.new values).list) :
    e.allowedPrefixes.Pairwise (fun p q => q.length < p.length) ∧
      ((∃ p ∈ e.allowedPrefixes, (DisambiguatedSet.new values).ResolvesTo className p e) →
        e.disambiguatedPrefix ∈ e.allowedPrefixes ∧
          (DisambiguatedSet.new values).ResolvesTo className e.disambiguatedPrefix e ∧
          ∀ p ∈ e.allowedPrefixes, (DisambiguatedSet.new values).ResolvesTo className p e →
            e.disambiguatedPrefix.length ≤ p.length) ∧
      ((¬ ∃ p ∈ e.allowedPrefixes, (DisambiguatedSet.new values).ResolvesTo className p e) →
        e.disambiguatedPrefix = toAsciiLowercase e.value.fullName) := by
  have hval : e.value ∈ values := mem_of_mem_keptValues
    ((new_values_perm values).subset (List.mem_map_of_mem _ he))
  have hv := hplain _ hval
  have hpre := new_allowedPrefixes values e he
  have hpw : e.allowedPrefixes.Pairwise (fun p q => q.length < p.length) :=
    hpre ▸ hv.prefixes_pairwise
  have hiff := fun {p} (hp : p ∈ e.allowedPrefixes) => resolvesTo_iff_count className he hv hp
  obtain ⟨once, honce⟩ : ∃ once, once = e.allowedPrefixes.filter fun p =>
      ((DisambiguatedSet.new values).byName (toAsciiLowercase e.value.name) p).length = 1 :=
    ⟨_, rfl⟩
  have hdp : e.disambiguatedPrefix = (once.getLast?).getD (toAsciiLowercase e.value.fullName) := by
    rw [new_disambiguatedPrefix values he, longestPrefix_eq, honce, hpre]
    rfl
  have hmem : ∀ {p}, p ∈ once ↔ p ∈ e.allowedPrefixes ∧
      (DisambiguatedSet.new values).ResolvesTo className p e := by
    intro p
    rw [honce, List.mem_filter, decide_eq_true_eq]
    exact ⟨fun ⟨hp, h⟩ => ⟨hp, (hiff hp).mpr h⟩, fun ⟨hp, h⟩ => ⟨hp, (hiff hp).mp h⟩⟩
  refine ⟨hpw, fun ⟨p, hp, hres⟩ => ?_, fun hnone => ?_⟩
  · have hne : once ≠ [] := List.ne_nil_of_mem (hmem.mpr ⟨hp, hres⟩)
    rw [hdp, List.getLast?_eq_getLast once hne, Option.getD_some]
    obtain ⟨hlast, hlast'⟩ := hmem.mp (List.getLast_mem hne)
    have hpwo : once.Pairwise fun p q => q.length < p.length := by
      rw [honce]; exact hpw.sublist (List.filter_sublist _)
    exact ⟨hlast, hlast', fun q hq hqr => length_getLast_le hpwo hne q (hmem.mpr ⟨hq, hqr⟩)⟩
  · have hnil : once = [] := List.eq_nil_iff_forall_not_mem.mpr fun p hp =>
      hnone ⟨p, (hmem.mp hp).1, (hmem.mp hp).2⟩
    rw [hdp, hnil]
    rfl

/-- Two commands of one name, in the modules `a` and `b`. -/
theorem new_disambiguatedPrefix_shortest_two_modules :
    let values : List Item := [⟨"cmd", "a.cmd", "a"⟩, ⟨"cmd", "b.cmd", "b"⟩]
    let e : Disambiguated := ⟨⟨"cmd", "a.cmd", "a"⟩, "a.cmd", ["a.cmd", ""]⟩
    (∀ v ∈ values, v.Plain) ∧ e ∈ (DisambiguatedSet.new values).list ∧
    e.allowedPrefixes.Pairwise (fun p q => q.length < p.length) ∧
      ((∃ p ∈ e.allowedPrefixes, (DisambiguatedSet.new values).ResolvesTo "command" p e) →
        e.disambiguatedPrefix ∈ e.allowedPrefixes ∧
          (DisambiguatedSet.new values).ResolvesTo "command" e.disambiguatedPrefix e ∧
          ∀ p ∈ e.allowedPrefixes, (DisambiguatedSet.new values).ResolvesTo "command" p e →
            e.disambiguatedPrefix.length ≤ p.length) ∧
      ((¬ ∃ p ∈ e.allowedPrefixes, (DisambiguatedSet.new values).ResolvesTo "command" p e) →
        e.disambiguatedPrefix = toAsciiLowercase e.value.fullName) := by
  intro values e
  have hplain : ∀ v ∈ values, v.Plain := by
    intro v hv
    simp only [values, List.mem_cons, List.mem_singleton, List.not_mem_nil, or_false] at hv
    rcases hv with rfl | rfl <;> exact ⟨by decide, by decide, by decide, by decide, by decide⟩
  have he : e ∈ (DisambiguatedSet.new values).list := by decide
  exact ⟨hplain, he, new_disambiguatedPrefix_shortest "command" hplain he⟩

/-- A module name that ends in `.`: the allowed prefixes repeat `""`, and although `""` resolves to
the entry alone, its disambiguated prefix is its full name. -/
theorem disambiguated_prefix_not_shortest :
    ∃ e ∈ (DisambiguatedSet.new [⟨"cmd", "m.cmd", "m."⟩]).list,
      e.allowedPrefixes = ["m.cmd", "", ""] ∧
      ¬ e.allowedPrefixes.Pairwise (fun p q => q.length < p.length) ∧
      (DisambiguatedSet.new [⟨"cmd", "m.cmd", "m."⟩]).ResolvesTo "command" "" e ∧
      e.disambiguatedPrefix = "m.cmd" :=
  ⟨⟨⟨"cmd", "m.cmd", "m."⟩, "m.cmd", ["m.cmd", "", ""]⟩, by decide, rfl, by decide,
    ⟨_, rfl, by decide, by decide⟩, rfl⟩

end Utils
end Sylphie
