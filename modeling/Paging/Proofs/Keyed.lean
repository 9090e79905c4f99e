import Mathlib.Data.List.Induction
import Mathlib.Data.List.Nodup
import Mathlib.Data.List.Perm.Basic

/-!
# Lists whose items have keys

Three readings of a list whose items have keys, each defined by recursion and then described by
which items it holds.

* `lastsBy` keeps the last item under each key: what is left when later items replace earlier ones.
* `groupsBy` puts the items with one key together: keys in the order in which they are first met,
  items in the order of the list.
* `repeats` lists the keys that are met again.
-/

namespace Paging.Keyed

variable {α β κ ι : Type}

theorem map_fst_flatMap {key : α → κ} {entries : α → List (κ × β)} {items : List α}
    (hOne : ∀ item ∈ items, ∃ value, entries item = [(key item, value)]) :
    (items.flatMap entries).map Prod.fst = items.map key := by
  induction items with
  | nil => rfl
  | cons first rest ih =>
      obtain ⟨value, hValue⟩ := hOne first List.mem_cons_self
      rw [List.flatMap_cons, List.map_append, hValue,
        ih fun item hMem => hOne item (List.mem_cons_of_mem first hMem)]
      rfl

variable [DecidableEq κ] [DecidableEq ι]

/-! ## The last item under each key -/

/-- The items whose key no later item has, in order. -/
def lastsBy (key : α → κ) : List α → List α
  | [] => []
  | item :: rest =>
      if key item ∈ rest.map key then lastsBy key rest else item :: lastsBy key rest

theorem mem_of_mem_lastsBy {key : α → κ} {item : α} {items : List α}
    (hMem : item ∈ lastsBy key items) : item ∈ items := by
  induction items with
  | nil => simp [lastsBy] at hMem
  | cons first rest ih =>
      by_cases hAgain : key first ∈ rest.map key
      · rw [lastsBy, if_pos hAgain] at hMem
        exact List.mem_cons_of_mem first (ih hMem)
      · rw [lastsBy, if_neg hAgain] at hMem
        rcases List.mem_cons.1 hMem with rfl | hRest
        · exact List.mem_cons_self
        · exact List.mem_cons_of_mem first (ih hRest)

/-- Every key keeps an item. -/
theorem mem_keys_lastsBy {key : α → κ} {k : κ} {items : List α} :
    k ∈ (lastsBy key items).map key ↔ k ∈ items.map key := by
  induction items with
  | nil => rfl
  | cons first rest ih =>
      by_cases hAgain : key first ∈ rest.map key
      · rw [lastsBy, if_pos hAgain, ih, List.map_cons, List.mem_cons]
        exact (or_iff_right_of_imp fun hEq => hEq ▸ hAgain).symm
      · rw [lastsBy, if_neg hAgain, List.map_cons, List.mem_cons, ih, List.map_cons, List.mem_cons]

/-- No key keeps two items. -/
theorem nodup_keys_lastsBy (key : α → κ) (items : List α) :
    ((lastsBy key items).map key).Nodup := by
  induction items with
  | nil => exact List.nodup_nil
  | cons first rest ih =>
      by_cases hAgain : key first ∈ rest.map key
      · rw [lastsBy, if_pos hAgain]
        exact ih
      · rw [lastsBy, if_neg hAgain, List.map_cons, List.nodup_cons, mem_keys_lastsBy]
        exact ⟨hAgain, ih⟩

/-- Where keys do not repeat, nothing is replaced. -/
theorem lastsBy_eq_self {key : α → κ} {items : List α} (hNodup : (items.map key).Nodup) :
    lastsBy key items = items := by
  induction items with
  | nil => rfl
  | cons first rest ih =>
      obtain ⟨hFirst, hRest⟩ := List.nodup_cons.1 hNodup
      rw [lastsBy, if_neg hFirst, ih hRest]

/-- Where every item stands for one entry under its key, the last entries are those of the last
items. -/
theorem mem_lastsBy_flatMap_iff {key : α → κ} {entries : α → List (κ × β)} {items : List α}
    (hOne : ∀ item ∈ items, ∃ value, entries item = [(key item, value)]) {entry : κ × β} :
    entry ∈ lastsBy Prod.fst (items.flatMap entries) ↔
      ∃ item ∈ lastsBy key items, entry ∈ entries item := by
  induction items with
  | nil => simp [lastsBy]
  | cons first rest ih =>
      obtain ⟨value, hValue⟩ := hOne first List.mem_cons_self
      have hOneRest : ∀ item ∈ rest, ∃ value, entries item = [(key item, value)] :=
        fun item hMem => hOne item (List.mem_cons_of_mem first hMem)
      rw [List.flatMap_cons, hValue, List.singleton_append, lastsBy, lastsBy,
        map_fst_flatMap hOneRest]
      by_cases hAgain : key first ∈ rest.map key
      · rw [if_pos hAgain, if_pos hAgain, ih hOneRest]
      · rw [if_neg hAgain, if_neg hAgain, List.mem_cons, ih hOneRest]
        constructor
        · intro h
          rcases h with rfl | ⟨item, hItem, hEntry⟩
          · exact ⟨first, List.mem_cons_self, by simp [hValue]⟩
          · exact ⟨item, List.mem_cons_of_mem first hItem, hEntry⟩
        · intro h
          obtain ⟨item, hItem, hEntry⟩ := h
          rcases List.mem_cons.1 hItem with rfl | hItem
          · rw [hValue, List.mem_singleton] at hEntry
            exact .inl hEntry
          · exact .inr ⟨item, hItem, hEntry⟩

/-- The last items under pairs of keys are those that come last, by the second key, among the items
with one first key. -/
theorem mem_lastsBy_pair_iff {key : α → κ} {key' : α → ι} {item : α} {items : List α} :
    item ∈ lastsBy (fun item => (key item, key' item)) items ↔
      item ∈ lastsBy key' (items.filter fun other => key other = key item) := by
  induction items with
  | nil => rfl
  | cons first rest ih =>
      -- Items with another first key neither are this item nor come in its way.
      by_cases hKey : key first = key item
      · have hAgain : (key first, key' first) ∈ rest.map (fun other => (key other, key' other)) ↔
            key' first ∈ (rest.filter fun other => key other = key item).map key' := by
          simp only [List.mem_map, List.mem_filter, decide_eq_true_eq, Prod.mk.injEq, hKey]
          exact exists_congr fun other => by rw [and_assoc]
        rw [List.filter_cons_of_pos (by simpa using hKey)]
        by_cases hLater : key' first ∈ (rest.filter fun other => key other = key item).map key'
        · rw [lastsBy, if_pos (hAgain.2 hLater), lastsBy, if_pos hLater, ih]
        · rw [lastsBy, if_neg (fun h => hLater (hAgain.1 h)), lastsBy, if_neg hLater,
            List.mem_cons, List.mem_cons, ih]
      · have hNe : item ≠ first := fun h => hKey (h ▸ rfl)
        rw [List.filter_cons_of_neg (by simpa using hKey), lastsBy]
        split
        · exact ih
        · rw [List.mem_cons, ih, or_iff_right hNe]

/-! ## Groups -/

/-- The items grouped by their keys. -/
def groupsBy (key : α → κ) (items : List α) : List (κ × List α) :=
  (items.map key).eraseDups.map fun k => (k, items.filter fun item => key item = k)

theorem groupsBy_congr {key key' : α → κ} {items : List α}
    (hSame : ∀ item ∈ items, key item = key' item) : groupsBy key items = groupsBy key' items := by
  rw [groupsBy, groupsBy, List.map_congr_left hSame]
  refine List.map_congr_left fun k _ => ?_
  rw [List.filter_congr fun item hMem => by rw [hSame item hMem]]

theorem nodup_eraseDups (keys : List κ) : keys.eraseDups.Nodup := by
  match keys with
  | [] => simp
  | k :: rest =>
      rw [List.eraseDups_cons, List.nodup_cons]
      refine ⟨?_, nodup_eraseDups (rest.filter fun other => !other == k)⟩
      simp [List.mem_eraseDups]
termination_by keys.length
decreasing_by
  have hShorter := List.length_filter_le (fun other => !other == k) rest
  simp only [List.length_cons]
  omega

theorem eraseDups_append_singleton (keys : List κ) (k : κ) :
    (keys ++ [k]).eraseDups = if k ∈ keys then keys.eraseDups else keys.eraseDups ++ [k] := by
  rw [List.eraseDups_append, List.removeAll]
  by_cases hMem : k ∈ keys
  · rw [if_pos hMem, List.filter_cons_of_neg (by simpa using hMem), List.filter_nil,
      List.eraseDups_nil, List.append_nil]
  · rw [if_neg hMem, List.filter_cons_of_pos (by simpa using hMem), List.filter_nil]
    rfl

/-- A key that none before it is equal to keeps its place behind those. -/
theorem exists_eraseDups_eq {before : List κ} {k : κ} (hNot : k ∉ before) (after : List κ) :
    ∃ rest, (before ++ k :: after).eraseDups = before.eraseDups ++ k :: rest := by
  have hKept : (k :: after).removeAll before = k :: after.removeAll before := by
    simp [List.removeAll, hNot]
  rw [List.eraseDups_append, hKept, List.eraseDups_cons]
  exact ⟨_, rfl⟩

theorem mem_groupsBy_iff {key : α → κ} {items : List α} {group : κ × List α} :
    group ∈ groupsBy key items ↔
      group.1 ∈ items.map key ∧ group.2 = items.filter fun item => key item = group.1 := by
  obtain ⟨k, members⟩ := group
  simp only [groupsBy, List.mem_map, List.mem_eraseDups, Prod.mk.injEq]
  constructor
  · intro h
    obtain ⟨k', ⟨item, hItem, rfl⟩, rfl, rfl⟩ := h
    exact ⟨⟨item, hItem, rfl⟩, rfl⟩
  · intro h
    obtain ⟨⟨item, hItem, rfl⟩, hMembers⟩ := h
    exact ⟨key item, ⟨item, hItem, rfl⟩, rfl, hMembers.symm⟩

/-- No two groups have the same key. -/
theorem nodup_keys_groupsBy (key : α → κ) (items : List α) :
    ((groupsBy key items).map Prod.fst).Nodup := by
  have hKeys : (groupsBy key items).map Prod.fst = (items.map key).eraseDups := by
    simp [groupsBy, Function.comp_def]
  rw [hKeys]
  exact nodup_eraseDups _

theorem ne_nil_of_mem_groupsBy {key : α → κ} {items : List α} {group : κ × List α}
    (hMem : group ∈ groupsBy key items) : group.2 ≠ [] := by
  obtain ⟨hKey, hMembers⟩ := mem_groupsBy_iff.1 hMem
  obtain ⟨item, hItem, hEq⟩ := List.mem_map.1 hKey
  rw [hMembers]
  exact List.ne_nil_of_mem (List.mem_filter.2 ⟨hItem, by simpa using hEq⟩)

/-- Keys that do not repeat among those that pass a test are not dropped. -/
theorem filter_eraseDups {p : κ → Bool} {keys : List κ} (hNodup : (keys.filter p).Nodup) :
    keys.eraseDups.filter p = keys.filter p := by
  match keys with
  | [] => simp
  | k :: rest =>
      have hRest : (rest.filter fun other => !other == k).filter p = rest.filter p := by
        rw [List.filter_filter]
        refine List.filter_congr fun other hMem => ?_
        by_cases hEq : other = k
        · subst hEq
          have hFails : p other = false := by
            by_contra hPasses
            simp only [Bool.not_eq_false] at hPasses
            rw [List.filter_cons_of_pos hPasses, List.nodup_cons] at hNodup
            exact hNodup.1 (List.mem_filter.2 ⟨hMem, hPasses⟩)
          simp [hFails]
        · simp [hEq]
      have hTail : ((rest.filter fun other => !other == k).filter p).Nodup := by
        rw [hRest]
        exact hNodup.sublist ((List.sublist_cons_self k rest).filter p)
      rw [List.eraseDups_cons, List.filter_cons, List.filter_cons, filter_eraseDups hTail, hRest]
termination_by keys.length
decreasing_by
  have hShorter := List.length_filter_le (fun other => !other == k) rest
  simp only [List.length_cons]
  omega

/-- A group holds as many items as its key has places. -/
theorem length_filter_key (key : α → κ) (items : List α) (k : κ) :
    (items.filter fun item => key item = k).length = (items.map key).count k := by
  rw [List.count, List.countP_map, List.countP_eq_length_filter]
  rfl

/-- The groups of one are the items whose keys occur once, in the order of the list. -/
theorem filter_groupsBy_single (key : α → κ) (items : List α) :
    ((groupsBy key items).filter (·.2.length = 1)).map Prod.snd =
      (items.filter fun item => (items.map key).count (key item) = 1).map fun item => [item] := by
  let members := fun k => items.filter fun item => key item = k
  have hMembers : ∀ item ∈ items, (items.map key).count (key item) = 1 →
      members (key item) = [item] := by
    intro item hMem hOnce
    obtain ⟨only, hOnly⟩ := List.length_eq_one_iff.1 ((length_filter_key key items _).trans hOnce)
    have hSelf : item ∈ members (key item) := List.mem_filter.2 ⟨hMem, by simp⟩
    rw [show members (key item) = [only] from hOnly] at hSelf ⊢
    rw [List.mem_singleton.1 hSelf]
  have hOnce : ∀ k, decide ((members k).length = 1) = decide ((items.map key).count k = 1) :=
    fun k => decide_eq_decide.2 (by rw [length_filter_key])
  have hNodup : ((items.map key).filter fun k => (items.map key).count k = 1).Nodup := by
    rw [List.nodup_iff_count_le_one]
    intro k
    by_cases hCount : (items.map key).count k = 1
    · rw [List.count_filter (by simpa using hCount)]
      exact Nat.le_of_eq hCount
    · rw [List.count_eq_zero_of_not_mem (by simp [hCount])]
      exact Nat.zero_le 1
  calc ((groupsBy key items).filter (·.2.length = 1)).map Prod.snd
      = ((items.map key).eraseDups.filter fun k => (items.map key).count k = 1).map members := by
        rw [groupsBy, List.filter_map, List.map_map]
        exact congrArg (List.map members) (List.filter_congr fun k _ => hOnce k)
    _ = ((items.filter fun item => (items.map key).count (key item) = 1).map key).map members := by
        rw [filter_eraseDups hNodup, List.filter_map]
        rfl
    _ = (items.filter fun item => (items.map key).count (key item) = 1).map fun item => [item] := by
        rw [List.map_map]
        refine List.map_congr_left fun item hMem => ?_
        obtain ⟨hMem, hCount⟩ := List.mem_filter.1 hMem
        exact hMembers item hMem (by simpa using hCount)

/-- Among distinct items these are the ones that share their keys with no other. -/
theorem filter_groupsBy_alone [DecidableEq α] {key : α → κ} {items : List α}
    (hItems : items.Nodup) :
    ((groupsBy key items).filter (·.2.length = 1)).map Prod.snd =
      (items.filter fun item => ∀ other ∈ items, key other = key item → other = item).map
        fun item => [item] := by
  have hAlone : ∀ item ∈ items, ((items.map key).count (key item) = 1 ↔
      ∀ other ∈ items, key other = key item → other = item) := by
    intro item hMem
    rw [← length_filter_key]
    constructor
    · intro hLength other hOther hKey
      obtain ⟨only, hOnly⟩ := List.length_eq_one_iff.1 hLength
      have hOnlyOne : ∀ member ∈ items, key member = key item → member = only := by
        intro member hMember hSame
        have hFilter : member ∈ items.filter fun other => key other = key item :=
          List.mem_filter.2 ⟨hMember, by simpa using hSame⟩
        rw [hOnly] at hFilter
        exact List.mem_singleton.1 hFilter
      rw [hOnlyOne other hOther hKey, hOnlyOne item hMem rfl]
    · intro hOnly
      have hSame : (items.filter fun other => key other = key item) =
          items.filter fun other => other = item := by
        refine List.filter_congr fun other hOther => ?_
        simp only [decide_eq_decide]
        exact ⟨hOnly other hOther, fun hEq => hEq ▸ rfl⟩
      rw [hSame, ← List.countP_eq_length_filter]
      exact List.count_eq_one_of_mem hItems hMem
  rw [filter_groupsBy_single]
  refine congrArg (List.map fun item => [item]) (List.filter_congr fun item hMem => ?_)
  rw [decide_eq_decide]
  exact hAlone item hMem

/-- Every item is in the group of its key, and in no other one. -/
theorem flatMap_filter_perm {key : α → κ} {keys : List κ} (hNodup : keys.Nodup) {items : List α}
    (hKeys : ∀ item ∈ items, key item ∈ keys) :
    (keys.flatMap fun k => items.filter fun item => key item = k).Perm items := by
  induction keys generalizing items with
  | nil =>
      have hEmpty : items = [] := List.eq_nil_iff_forall_not_mem.2 fun item hMem => by
        cases hKeys item hMem
      rw [hEmpty, List.flatMap_nil]
  | cons k rest ih =>
      obtain ⟨hNew, hRest⟩ := List.nodup_cons.1 hNodup
      let others := items.filter fun item => !decide (key item = k)
      have hOthers : ∀ item ∈ others, key item ∈ rest := by
        intro item hMem
        obtain ⟨hItem, hNe⟩ := List.mem_filter.1 hMem
        exact (List.mem_cons.1 (hKeys item hItem)).resolve_left (by simpa using hNe)
      have hSame : (rest.flatMap fun other => items.filter fun item => key item = other) =
          rest.flatMap fun other => others.filter fun item => key item = other := by
        refine List.flatMap_congr fun other hOther => ?_
        rw [List.filter_filter]
        refine List.filter_congr fun item _ => ?_
        by_cases hEq : key item = other
        · have hNe : other ≠ k := fun h => hNew (h ▸ hOther)
          simp [hEq, hNe]
        · simp [hEq]
      rw [List.flatMap_cons, hSame]
      exact ((ih hRest hOthers).append_left _).trans (List.filter_append_perm _ items)

theorem flatMap_groupsBy_perm (key : α → κ) (items : List α) :
    ((groupsBy key items).flatMap (·.2)).Perm items := by
  rw [groupsBy, List.flatMap_map]
  exact flatMap_filter_perm (nodup_eraseDups _) fun item hMem =>
    List.mem_eraseDups.2 (List.mem_map_of_mem hMem)

/-- Distinct items come in the order of their first places. -/
theorem pairwise_idxOf_eraseDups (keys : List κ) :
    keys.eraseDups.Pairwise fun first second => keys.idxOf first < keys.idxOf second := by
  induction keys using List.reverseRecOn with
  | nil => exact List.Pairwise.nil
  | append_singleton earlier k ih =>
      have hEarlier : earlier.eraseDups.Pairwise fun first second =>
          (earlier ++ [k]).idxOf first < (earlier ++ [k]).idxOf second := by
        refine ih.imp_of_mem fun hFirst hSecond hLess => ?_
        rwa [List.idxOf_append_of_mem (List.mem_eraseDups.1 hFirst),
          List.idxOf_append_of_mem (List.mem_eraseDups.1 hSecond)]
      rw [eraseDups_append_singleton]
      by_cases hMem : k ∈ earlier
      · rw [if_pos hMem]
        exact hEarlier
      · rw [if_neg hMem, List.pairwise_append]
        refine ⟨hEarlier, List.pairwise_singleton _ _, ?_⟩
        intro first hFirst second hSecond
        have hFirst := List.mem_eraseDups.1 hFirst
        rw [List.mem_singleton.1 hSecond, List.idxOf_append_of_mem hFirst,
          List.idxOf_append_of_notMem hMem]
        have hLess := List.idxOf_lt_length_of_mem hFirst
        omega

/-- Groups come in the order in which their keys are first met. -/
theorem pairwise_idxOf_groupsBy (key : α → κ) (items : List α) :
    (groupsBy key items).Pairwise fun first second =>
      (items.map key).idxOf first.1 < (items.map key).idxOf second.1 := by
  rw [groupsBy, List.pairwise_map]
  exact pairwise_idxOf_eraseDups (items.map key)

/-! ## Keys that are met again -/

/-- The keys that are among those seen before, or that repeat an earlier one. -/
def repeats (seen : List κ) : List κ → List κ
  | [] => []
  | k :: rest => if k ∈ seen then k :: repeats seen rest else repeats (k :: seen) rest

/-- Which keys were seen matters, not how often or in which order. -/
theorem repeats_congr {seen seen' : List κ} (hSeen : ∀ k, k ∈ seen ↔ k ∈ seen') (keys : List κ) :
    repeats seen keys = repeats seen' keys := by
  induction keys generalizing seen seen' with
  | nil => rfl
  | cons k rest ih =>
      by_cases hMem : k ∈ seen
      · rw [repeats, if_pos hMem, repeats, if_pos ((hSeen k).1 hMem), ih hSeen]
      · rw [repeats, if_neg hMem, repeats, if_neg (fun h => hMem ((hSeen k).2 h))]
        exact ih fun other => by simp [hSeen other]

theorem repeats_eq_nil_iff {seen keys : List κ} :
    repeats seen keys = [] ↔ keys.Nodup ∧ ∀ k ∈ keys, k ∉ seen := by
  induction keys generalizing seen with
  | nil => simp [repeats]
  | cons k rest ih =>
      by_cases hMem : k ∈ seen
      · simp [repeats, hMem]
      · rw [repeats, if_neg hMem, ih, List.nodup_cons]
        constructor
        · intro h
          obtain ⟨hNodup, hSeen⟩ := h
          have hRest : ∀ other ∈ rest, other ≠ k ∧ other ∉ seen := by simpa using hSeen
          refine ⟨⟨fun h => (hRest k h).1 rfl, hNodup⟩, ?_⟩
          intro other hOther
          rcases List.mem_cons.1 hOther with rfl | hOther
          · exact hMem
          · exact (hRest other hOther).2
        · intro h
          obtain ⟨⟨hFirst, hNodup⟩, hSeen⟩ := h
          refine ⟨hNodup, ?_⟩
          intro other hOther hBad
          rcases List.mem_cons.1 hBad with rfl | hBad
          · exact hFirst hOther
          · exact hSeen other (List.mem_cons_of_mem k hOther) hBad

/-- An item repeats a key exactly if an earlier item has it. -/
theorem repeats_eq_filter (seen keys : List κ) :
    repeats seen keys =
      (keys.zipIdx.filter fun entry => entry.1 ∈ seen ++ keys.take entry.2).map Prod.fst := by
  induction keys generalizing seen with
  | nil => rfl
  | cons k rest ih =>
      have hRest : ∀ entry : κ × Nat, (entry.1 ∈ seen ++ (k :: rest).take (entry.2 + 1) ↔
          entry.1 ∈ (k :: seen) ++ rest.take entry.2) := by
        intro entry
        simp only [List.take_succ_cons, List.mem_append, List.mem_cons]
        tauto
      have hTail : (((rest.zipIdx.map (Prod.map id (· + 1))).filter
          fun entry => entry.1 ∈ seen ++ (k :: rest).take entry.2).map Prod.fst) =
            repeats (k :: seen) rest := by
        rw [ih, List.filter_map, List.map_map]
        refine congrArg (List.map Prod.fst) (List.filter_congr fun entry _ => ?_)
        exact decide_eq_decide.2 (hRest entry)
      rw [List.zipIdx_cons', List.filter_cons]
      by_cases hMem : k ∈ seen
      · have hSame : ∀ other, other ∈ k :: seen ↔ other ∈ seen := by
          intro other
          rw [List.mem_cons]
          exact or_iff_right_of_imp fun h => h ▸ hMem
        rw [repeats, if_pos hMem, if_pos (by simpa using hMem), List.map_cons, hTail,
          repeats_congr hSame]
      · rw [repeats, if_neg hMem, if_neg (by simpa using hMem), hTail]

/-- Each key of a list is met for the first time or met again. -/
theorem length_repeats_add {seen keys distinct : List κ} (hNodup : distinct.Nodup)
    (hDistinct : ∀ k, k ∈ distinct ↔ k ∈ keys ∧ k ∉ seen) :
    (repeats seen keys).length + distinct.length = keys.length := by
  induction keys generalizing seen distinct with
  | nil =>
      have hEmpty : distinct = [] := by
        rw [List.eq_nil_iff_forall_not_mem]
        simpa using hDistinct
      simp [hEmpty, repeats]
  | cons k rest ih =>
      by_cases hMem : k ∈ seen
      · have hRest : ∀ other, other ∈ distinct ↔ other ∈ rest ∧ other ∉ seen := by
          intro other
          rw [hDistinct, List.mem_cons]
          constructor
          · rintro ⟨rfl | hOther, hNot⟩
            · exact absurd hMem hNot
            · exact ⟨hOther, hNot⟩
          · exact fun h => ⟨.inr h.1, h.2⟩
        have := ih hNodup hRest
        rw [repeats, if_pos hMem, List.length_cons, List.length_cons]
        omega
      · have hFirst : k ∈ distinct := (hDistinct k).2 ⟨List.mem_cons_self, hMem⟩
        have hRest : ∀ other, other ∈ distinct.erase k ↔ other ∈ rest ∧ other ∉ k :: seen := by
          intro other
          rw [hNodup.mem_erase_iff, hDistinct, List.mem_cons, List.mem_cons]
          tauto
        have := ih (hNodup.erase k) hRest
        have hErase := List.length_erase_of_mem hFirst
        have hPos := List.length_pos_of_mem hFirst
        rw [repeats, if_neg hMem, List.length_cons]
        omega

end Paging.Keyed
