import Paging.Proofs.Malformed

/-!
# Groups partition the tokens

Sorting a list of tokens into groups loses none of them, repeats none, and keeps their order: each
group holds the tokens with one key as they stand in the list, groups come in the order in which
their keys are first met, and a token is alone if no other place of the list has its key
(`ofTokens_partitions`). Tokens may be repeated; what is counted is places of the list.
-/

namespace Paging.Filter

open Paging.Keyed

/-- Groups that sort tokens by a key: the tokens whose key no other place has, and for every other
key all tokens that have it. -/
structure Groups.Partitions {κ : Type} [DecidableEq κ] (key : String → κ) (level : String → Nat)
    (tokens : List String) (groups : Groups) : Prop where
  perm : (groups.simple ++ groups.combined.flatMap (·.tokens)).Perm tokens
  /-- The tokens that are alone, in the order of the list. -/
  simple_eq : groups.simple =
    tokens.filter fun token => tokens.countP (fun other => key other = key token) = 1
  two_le : ∀ group ∈ groups.combined, 2 ≤ group.tokens.length
  /-- A group holds the tokens with one key, in the order of the list. -/
  tokens_eq : ∀ group ∈ groups.combined, ∀ token ∈ group.tokens,
    group.tokens = tokens.filter fun other => key other = key token
  level_eq : ∀ group ∈ groups.combined, ∀ token ∈ group.tokens, group.level = level token
  /-- The key of an earlier group is met before that of a later one. -/
  ordered : groups.combined.Pairwise fun first second =>
    ∀ token ∈ first.tokens, ∀ other ∈ second.tokens,
      key token ≠ key other ∧
        tokens.findIdx (fun met => key met = key token) <
          tokens.findIdx (fun met => key met = key other)

namespace Groups

/-- Which tokens have the same key matters, and not what the keys are. -/
theorem Partitions.congr {κ ι : Type} [DecidableEq κ] [DecidableEq ι] {key : String → κ}
    {key' : String → ι} {level : String → Nat} {tokens : List String} {groups : Groups}
    (hPartitions : groups.Partitions key level tokens)
    (hSame : ∀ token other, key token = key other ↔ key' token = key' other) :
    groups.Partitions key' level tokens := by
  have hEq : ∀ token, (fun other => decide (key other = key token)) =
      fun other => decide (key' other = key' token) := by
    intro token
    funext other
    exact decide_eq_decide.2 (hSame other token)
  refine ⟨hPartitions.perm, ?_, hPartitions.two_le, ?_, hPartitions.level_eq, ?_⟩
  · rw [hPartitions.simple_eq]
    simp only [hEq]
  · intro group hGroup token hMem
    rw [← hEq]
    exact hPartitions.tokens_eq group hGroup token hMem
  · refine hPartitions.ordered.imp fun hOrdered token hToken other hOther => ?_
    rw [Ne, ← hSame, ← hEq, ← hEq]
    exact hOrdered token hToken other hOther

/-- The groups of a list by keys, sorted by their sizes. -/
theorem partitions_groupsBy {key : String → Key} {level : String → Nat} {tokens : List String}
    (hLevel : ∀ token ∈ tokens, (key token).level = level token) :
    Partitions key level tokens {
      simple := ((groupsBy key tokens).filter (·.2.length = 1)).flatMap (·.2)
      combined := ((groupsBy key tokens).filter (·.2.length ≠ 1)).map
        fun group => ⟨group.1.level, group.2⟩ } := by
  have hTokens : ∀ group ∈ groupsBy key tokens, ∀ token ∈ group.2,
      token ∈ tokens ∧ key token = group.1 := by
    intro group hGroup token hMem
    rw [(mem_groupsBy_iff.1 hGroup).2] at hMem
    obtain ⟨hToken, hKey⟩ := List.mem_filter.1 hMem
    exact ⟨hToken, by simpa using hKey⟩
  refine ⟨?_, ?_, ?_, ?_, ?_, ?_⟩
  · have hBoth := List.filter_append_perm (fun group : Key × List String => group.2.length = 1)
      (groupsBy key tokens)
    have hMembers : (((groupsBy key tokens).filter (·.2.length ≠ 1)).map fun group =>
        (⟨group.1.level, group.2⟩ : Combined)).flatMap (·.tokens) =
          ((groupsBy key tokens).filter fun group => !decide (group.2.length = 1)).flatMap (·.2) := by
      rw [List.flatMap_map]
      simp
    rw [hMembers, ← List.flatMap_append]
    exact (hBoth.flatMap_right _).trans (flatMap_groupsBy_perm key tokens)
  · have hAlone := congrArg List.flatten (filter_groupsBy_single key tokens)
    rw [← List.flatMap_def, ← List.flatMap_def, List.flatMap_singleton'] at hAlone
    rw [hAlone]
    refine List.filter_congr fun token _ => ?_
    rw [decide_eq_decide, List.count, List.countP_map]
    rfl
  · intro group hGroup
    obtain ⟨sorted, hSorted, rfl⟩ := List.mem_map.1 hGroup
    obtain ⟨hMem, hLength⟩ := List.mem_filter.1 hSorted
    have hPos := List.length_pos_iff.2 (ne_nil_of_mem_groupsBy hMem)
    have hNe : sorted.2.length ≠ 1 := by simpa using hLength
    show 2 ≤ sorted.2.length
    omega
  · intro group hGroup token hToken
    obtain ⟨sorted, hSorted, rfl⟩ := List.mem_map.1 hGroup
    have hMem := (List.mem_filter.1 hSorted).1
    rw [(hTokens sorted hMem token hToken).2]
    exact (mem_groupsBy_iff.1 hMem).2
  · intro group hGroup token hToken
    obtain ⟨sorted, hSorted, rfl⟩ := List.mem_map.1 hGroup
    obtain ⟨hMem, hKey⟩ := hTokens sorted (List.mem_filter.1 hSorted).1 token hToken
    rw [← hLevel token hMem, hKey]
  · rw [List.pairwise_map]
    have hOrder := (pairwise_idxOf_groupsBy key tokens).filter (·.2.length ≠ 1)
    refine hOrder.imp_of_mem fun {first second} hFirst hSecond hLess token hToken other hOther => ?_
    have hIndex : ∀ k, (tokens.map key).idxOf k = tokens.findIdx fun met => key met = k := by
      intro k
      rw [List.idxOf, List.findIdx_map]
      rfl
    rw [(hTokens first (List.mem_filter.1 hFirst).1 token hToken).2,
      (hTokens second (List.mem_filter.1 hSecond).1 other hOther).2, ← hIndex, ← hIndex]
    refine ⟨?_, hLess⟩
    rintro hEq
    rw [hEq] at hLess
    exact Nat.lt_irrefl _ hLess

end Groups

/-- **Grouping is a partition that keeps the order.** Tokens that can be read are sorted into groups
by the text and the number that their fields have as a key, and the level of a group is how many dots
its fields have. A list with a malformed token is refused for the first one. -/
theorem ofTokens_partitions (mode : Mode) (tokens : List String) :
    (∀ read : String → Filter, (∀ token ∈ tokens, parse token = .ok (read token)) →
      ∃ groups, Groups.ofTokens mode tokens = .ok groups ∧
        groups.Partitions (fun token => Key.label mode (read token).field)
          (fun token => dots (read token).field) tokens) ∧
    ∀ before token after, tokens = before ++ token :: after →
      (∀ earlier ∈ before, ∃ filter, parse earlier = .ok filter) → Malformed token →
      Groups.ofTokens mode tokens = .error (.invalidFilter token) := by
  constructor
  · intro read hRead
    refine ⟨_, ofTokens_eq hRead, ?_⟩
    have hLevel : ∀ token ∈ tokens, (keyOf mode read token).level = dots (read token).field :=
      fun token _ => Key.level_ofField mode (read token).field
    exact (Groups.partitions_groupsBy hLevel).congr fun token other => Key.label_eq_iff.symm
  · rintro before token after rfl hBefore hMalformed
    have hRead : ∀ earlier ∈ before, parse earlier = .ok (readD earlier) := by
      apply parse_eq_readD
      intro earlier hMem
      obtain ⟨filter, hFilter⟩ := hBefore earlier hMem
      rw [hFilter]
      rfl
    rw [Groups.ofTokens, byKey_of_malformed mode after hRead hMalformed]
    rfl

/-- A token that is repeated is not alone, and a field with more relations or none is not below `a`;
of two malformed tokens the first one is reported. -/
theorem ofTokens_partitions_below :
    (∃ groups,
      Groups.ofTokens .nested ["a.b==1", "x.a.b==2", "a.c==3", "a==4", "a.b==1"] = .ok groups ∧
      groups.simple = ["x.a.b==2", "a==4"] ∧
      ∀ group ∈ groups.combined, "a.c==3" ∈ group.tokens →
        group = ⟨1, ["a.b==1", "a.c==3", "a.b==1"]⟩) ∧
    Groups.ofTokens .nested ["a==1", "b", "c"] = .error (.invalidFilter "b") := by
  obtain ⟨hGroups, -⟩ :=
    ofTokens_partitions .nested ["a.b==1", "x.a.b==2", "a.c==3", "a==4", "a.b==1"]
  obtain ⟨-, hError⟩ := ofTokens_partitions .nested ["a==1", "b", "c"]
  obtain ⟨groups, hOk, hPartitions⟩ := hGroups readD (parse_eq_readD (by decide))
  refine ⟨⟨groups, hOk, ?_, ?_⟩, hError ["a==1"] "b" ["c"] rfl ?_ ?_⟩
  · rw [hPartitions.simple_eq]
    rfl
  · intro group hGroup hMem
    have hTokens := hPartitions.tokens_eq group hGroup "a.c==3" hMem
    have hLevel := hPartitions.level_eq group hGroup "a.c==3" hMem
    exact congrArg₂ Combined.mk hLevel hTokens
  · intro earlier hMem
    rw [List.mem_singleton.1 hMem]
    exact ⟨_, rfl⟩
  · intro filter hFilter
    have hError : parse "b" = .error (.invalidFilter "b") := rfl
    rw [hError] at hFilter
    cases hFilter

end Paging.Filter
