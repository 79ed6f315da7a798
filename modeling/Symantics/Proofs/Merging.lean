import Mathlib.Data.List.Forall2
import Mathlib.Data.List.Nodup
import Symantics.Proofs.Extension

/-
  Merged tables.

  A decoder looks tags up in its table and lists the tags, sorted, and does nothing else
  with it. So decoders of one depth whose tables have the same rule for every tag do the
  same, messages included (`alike_of_lookup`). When a decoder is extended again and again,
  the last table that has a tag gives its rule (`lookup_extendAll`): the decoder does what
  one with a single table does, in which all tables are merged. How the tables are grouped
  before that makes no difference, nor does their order if no two of them have a tag in
  common (`extensions_merge`).
-/
namespace Symantics

variable {σ : Type}

theorem nodup_eraseDups (words : List String) : words.eraseDups.Nodup := by
  cases words with
  | nil => exact List.nodup_nil
  | cons word words =>
    rw [List.eraseDups_cons, List.nodup_cons]
    refine ⟨?_, nodup_eraseDups _⟩
    simp [List.mem_eraseDups]
termination_by words.length
decreasing_by
  exact Nat.lt_succ_of_le (List.length_filter_le _ _)

namespace Rules

/-! ## Tags -/

theorem mem_tags {rules : Rules σ} {tag : String} :
    tag ∈ rules.tags ↔ tag ∈ rules.map Prod.fst := by
  simp [tags]

theorem nodup_tags (rules : Rules σ) : rules.tags.Nodup :=
  (List.mergeSort_perm _ _).nodup_iff.mpr (nodup_eraseDups _)

/-- Tables with the same rules list the same tags, in the same order. -/
theorem tags_of_lookup {rules rules' : Rules σ}
    (same : ∀ tag, rules.lookup tag = rules'.lookup tag) : rules.tags = rules'.tags := by
  apply mergeSort_eq_of_sorted
  · apply (List.perm_ext_iff_of_nodup (nodup_eraseDups _) rules'.nodup_tags).mpr
    intro tag
    have known : tag ∈ rules.tags ↔ tag ∈ rules'.tags := by
      rw [← not_iff_not, ← lookup_eq_none, ← lookup_eq_none, same]
    rw [← known, mem_tags, List.mem_eraseDups]
  · exact pairwise_mergeSort _

theorem mem_tags_flatten {tables : List (Rules σ)} {tag : String} :
    tag ∈ tags tables.flatten ↔ ∃ rules ∈ tables, tag ∈ rules.tags := by
  simp only [mem_tags, List.map_flatten, List.mem_flatten, List.mem_map (f := List.map _),
    exists_exists_and_eq_and]

/-! ## Several tables -/

/-- The rule for a tag in the last of some tables that has one. -/
def latest? (tag : String) : List (Rules σ) → Option (Rule σ)
  | [] => none
  | rules :: tables => (latest? tag tables).or (rules.lookup tag)

/-- A table in which each tag has the rule of the last of some tables that has the tag. -/
def Merges (rules : Rules σ) (tables : List (Rules σ)) : Prop :=
  ∀ tag, rules.lookup tag = latest? tag tables

/-- Some tables in one, with every tag once. -/
def merged (tables : List (Rules σ)) : Rules σ :=
  (tags tables.flatten).filterMap fun tag => (latest? tag tables).map (tag, ·)

section

variable {tag : String} {tables : List (Rules σ)}

theorem latest?_append (tag : String) (tables more : List (Rules σ)) :
    latest? tag (tables ++ more) = (latest? tag more).or (latest? tag tables) := by
  induction tables with
  | nil => simp [latest?]
  | cons rules tables ih => simp [latest?, ih, Option.or_assoc]

theorem latest?_eq_none :
    latest? tag tables = none ↔ ∀ rules ∈ tables, rules.lookup tag = none := by
  induction tables with
  | nil => simp [latest?]
  | cons rules tables ih =>
    rw [latest?, Option.or_eq_none_iff, ih, List.forall_mem_cons, and_comm]

/-- Where no two tables have a tag in common, any table that has a tag gives its rule. -/
theorem latest?_eq_some (apart : tables.Pairwise fun R S => R.tags.Disjoint S.tags)
    {rule : Rule σ} :
    latest? tag tables = some rule ↔ ∃ rules ∈ tables, rules.lookup tag = some rule := by
  induction apart with
  | nil => simp [latest?]
  | @cons rules tables others _ ih =>
    have alone : rules.lookup tag = some rule → latest? tag tables = none := by
      intro known
      have has : tag ∈ rules.tags := by
        by_contra unknown
        cases known.symm.trans (lookup_eq_none.mpr unknown)
      apply latest?_eq_none.mpr
      intro other table
      apply lookup_eq_none.mpr
      exact others other table has
    rw [latest?, Option.or_eq_some_iff, ih, and_iff_right_of_imp alone, or_comm]
    simp only [List.mem_cons, or_and_right, exists_or, exists_eq_left]

/-- The order of tables does not matter if no two of them have a tag in common. -/
theorem latest?_perm {others : List (Rules σ)} (perm : others.Perm tables)
    (apart : tables.Pairwise fun R S => R.tags.Disjoint S.tags) (tag : String) :
    latest? tag others = latest? tag tables := by
  have apart' : others.Pairwise fun R S => R.tags.Disjoint S.tags :=
    (perm.pairwise_iff List.disjoint_symm).mpr apart
  apply Option.ext
  intro rule
  rw [latest?_eq_some apart, latest?_eq_some apart']
  simp only [perm.mem_iff]

/-- Tables may be merged group by group. -/
theorem latest?_of_groups {tables : List (Rules σ)} {groups : List (List (Rules σ))}
    (merge : List.Forall₂ Merges tables groups) (tag : String) :
    latest? tag tables = latest? tag groups.flatten := by
  induction merge with
  | nil => rfl
  | cons merges _ ih => rw [latest?, ih, merges, List.flatten_cons, latest?_append]

theorem lookup_filterMap (f : String → Option (Rule σ)) (tags : List String) (tag : String) :
    (tags.filterMap fun tag => (f tag).map (tag, ·)).lookup tag =
      if tag ∈ tags then f tag else none := by
  induction tags with
  | nil => rfl
  | cons other tags ih =>
    rw [List.filterMap_cons]
    by_cases same : tag = other
    · subst same
      cases h : f tag with
      | none => simp [ih, h]
      | some rule => simp
    · cases h : f other with
      | none => simp [ih, same]
      | some rule => simp [List.lookup_cons, beq_false_of_ne same, ih, same]

theorem merges_merged (tables : List (Rules σ)) : (merged tables).Merges tables := by
  intro tag
  rw [merged, lookup_filterMap]
  split
  · rfl
  · next unknown =>
    symm
    apply latest?_eq_none.mpr
    intro rules table
    exact lookup_eq_none.mpr fun known => unknown (mem_tags_flatten.mpr ⟨rules, table, known⟩)

theorem nodup_merged (tables : List (Rules σ)) : ((merged tables).map Prod.fst).Nodup := by
  rw [merged, List.map_filterMap]
  apply (nodup_tags _).filterMap
  intro tag tag' found
  simp only [Option.map_map, Option.mem_def, Option.map_eq_some_iff, Function.comp_apply]
  rintro ⟨_, _, rfl⟩ ⟨_, _, same⟩
  exact same.symm

end

end Rules

namespace Decoder

/-! ## Decoders with the same rules -/

/-- No tree can tell the decoders apart, whatever it is decoded into: value, failure and state are
the same, and with the state of a watched interpretation the calls are. -/
def Alike (d d' : Decoder σ) : Prop :=
  ∀ (t : Value) (I : Interp σ) (s : σ), (d.decode t I).exec s = (d'.decode t I).exec s

section

variable {d d' : Decoder σ} (depth : d.maxDepth = d'.maxDepth)
  (same : ∀ tag, d.rules.lookup tag = d'.rules.lookup tag)

include depth same

/-- What a decoder finds at a position depends on its depth and on the rules for tags only. -/
theorem Finds.of_lookup {levels : Nat} {v : Value} {found : Except Flaw (Rule σ)}
    (h : d'.Finds levels v found) : d.Finds levels v found := by
  cases h with
  | tooDeep v =>
    rw [← depth]
    exact .tooDeep v
  | leaf shown => exact .leaf shown
  | unshown unshown => exact .unshown unshown
  | notTree hl hn => exact .notTree hl hn
  | tagNotText ht => exact .tagNotText ht
  | unknownTag unknown =>
    have tags : d'.tags = d.tags := (Rules.tags_of_lookup same).symm
    rw [tags]
    exact .unknownTag ((same _).trans unknown)
  | wrongArity known arity => exact .wrongArity ((same _).trans known) arity
  | rule known arity => exact .rule ((same _).trans known) arity

theorem alike_of_lookup : d.Alike d' := by
  intro t I s
  have decoded : d.outcomeAt I ((d'.start t s).raised 0) = d'.outcomeAt I (d'.start t s) := by
    apply outcomeAt_congr
    intro b _
    exact .inl (Finds.of_lookup depth same (d'.finds_ruleAt b.levels b.value)).ruleAt_eq
  rw [decode, depth]
  exact decoded

end

/-! ## Extending again and again -/

/-- A decoder extended by one table after the other. -/
def extendAll (d : Decoder σ) (tables : List (Rules σ)) : Decoder σ := tables.foldl extend d

theorem maxDepth_extendAll (d : Decoder σ) (tables : List (Rules σ)) :
    (d.extendAll tables).maxDepth = d.maxDepth := by
  induction tables generalizing d with
  | nil => rfl
  | cons rules tables ih => exact ih (d.extend rules)

theorem lookup_extendAll (d : Decoder σ) (tables : List (Rules σ)) (tag : String) :
    (d.extendAll tables).rules.lookup tag = Rules.latest? tag (d.rules :: tables) := by
  induction tables generalizing d with
  | nil => rfl
  | cons rules tables ih =>
    calc ((d.extend rules).extendAll tables).rules.lookup tag
        = (Rules.latest? tag tables).or ((d.extend rules).rules.lookup tag) := ih (d.extend rules)
      _ = (Rules.latest? tag (rules :: tables)).or (d.rules.lookup tag) := by
        rw [lookup_extend, ← Option.or_assoc, Rules.latest?]

theorem mem_tags_extendAll {d : Decoder σ} {tables : List (Rules σ)} {tag : String} :
    tag ∈ (d.extendAll tables).tags ↔ tag ∈ d.tags ∨ ∃ rules ∈ tables, tag ∈ rules.tags := by
  rw [tags, ← not_iff_not, ← Rules.lookup_eq_none, lookup_extendAll, Rules.latest?_eq_none,
    List.forall_mem_cons, tags]
  simp only [Rules.lookup_eq_none, not_or, not_exists, not_and]

/-- Decoders that are extended by different tables are alike if the tables agree on the last rule
for every tag. -/
theorem alike_extendAll (d : Decoder σ) {tables tables' : List (Rules σ)}
    (same : ∀ tag, Rules.latest? tag tables = Rules.latest? tag tables') :
    (d.extendAll tables).Alike (d.extendAll tables') := by
  apply alike_of_lookup
  · rw [maxDepth_extendAll, maxDepth_extendAll]
  · intro tag
    rw [lookup_extendAll, lookup_extendAll, Rules.latest?, Rules.latest?, same]

end Decoder

/-- Extending a decoder by one table after the other is merging the tables: it keeps the depth, has
the tags of all tables, and is like a decoder with any single table in which each tag has the rule
of the last table that has the tag, and there is such a table. So it is like the decoder itself
extended by the same tables in another order, if no two have a tag in common, or in groups. -/
theorem extensions_merge (d : Decoder σ) (tables : List (Rules σ)) :
    (d.extendAll tables).maxDepth = d.maxDepth ∧
    (∀ tag, tag ∈ (d.extendAll tables).tags ↔
      tag ∈ d.tags ∨ ∃ rules ∈ tables, tag ∈ rules.tags) ∧
    (∃ table : Rules σ, (table.map Prod.fst).Nodup ∧ table.Merges (d.rules :: tables)) ∧
    (∀ table : Rules σ, table.Merges (d.rules :: tables) →
      ∃ single, Decoder.ofRules table d.maxDepth = .ok single ∧
        (d.extendAll tables).Alike single) ∧
    (tables.Pairwise (fun R S => R.tags.Disjoint S.tags) →
      ∀ others, others.Perm tables → (d.extendAll others).Alike (d.extendAll tables)) ∧
    ∀ groups : List (List (Rules σ)), groups.flatten = tables →
      ∀ fewer, List.Forall₂ Rules.Merges fewer groups →
        (d.extendAll fewer).Alike (d.extendAll tables) := by
  refine ⟨d.maxDepth_extendAll tables, fun tag => Decoder.mem_tags_extendAll, ?_, ?_, ?_, ?_⟩
  · exact ⟨_, Rules.nodup_merged _, Rules.merges_merged _⟩
  · intro table merges
    have deep : (1 : Int) ≤ d.maxDepth := by
      have := d.one_le
      omega
    refine ⟨⟨table, d.maxDepth, d.one_le⟩, ?_, Decoder.alike_of_lookup ?_ ?_⟩
    · simp only [Decoder.ofRules, dif_pos deep, Int.toNat_natCast]
    · exact d.maxDepth_extendAll tables
    · intro tag
      exact (d.lookup_extendAll tables tag).trans (merges tag).symm
  · intro apart others perm
    exact d.alike_extendAll (Rules.latest?_perm perm apart)
  · intro groups flatten fewer merge
    subst flatten
    exact d.alike_extendAll (Rules.latest?_of_groups merge)

/-- One table has a new tag, and the other one overrides a rule of the decoder. -/
theorem extensions_merge_of_overriding :
    let d : Decoder Unit := .tiered .base 2 (by decide)
    let zero : Rule Unit := ⟨0, .operator fun I _ => I.litOf 0⟩
    let plus : Rule Unit := .unary fun _ v => pure v
    let tables : List (Rules Unit) := [[("Zero", zero)], [("Neg", plus)]]
    let others : List (Rules Unit) := [[("Neg", plus)], [("Zero", zero)]]
    let table : Rules Unit := [("Lit", .lit), ("Neg", plus), ("Add", .add), ("Zero", zero)]
    let t := (Tree.node "Neg" [.node "Zero" []]).toValue
    ((d.extendAll tables).decode t (.treeBuilder .base)).exec () =
      (.ok (Interp.tagged .lit [.leaf (.text "0")]), ()) ∧
    (tables.Pairwise (fun R S => R.tags.Disjoint S.tags) ∧ others.Perm tables ∧
      (d.extendAll others).Alike (d.extendAll tables)) ∧
    (table.Merges (d.rules :: tables) ∧
      ∃ single, Decoder.ofRules table 2 = .ok single ∧ (d.extendAll tables).Alike single) ∧
    (d.extendAll [[("Neg", plus), ("Zero", zero)]]).Alike (d.extendAll tables) := by
  intro d zero plus tables others table t
  obtain ⟨-, -, -, single, order, groups⟩ := extensions_merge d tables
  have apart : tables.Pairwise fun R S => R.tags.Disjoint S.tags := by
    simp [tables, Rules.mem_tags, List.Disjoint]
  have perm : others.Perm tables := .swap _ _ _
  have merges : table.Merges (d.rules :: tables) := by
    intro tag
    by_cases isNeg : tag = "Neg"
    · subst isNeg
      rfl
    · by_cases isZero : tag = "Zero"
      · subst isZero
        rfl
      · have other : (tag == "Neg") = false ∧ (tag == "Zero") = false :=
          ⟨beq_false_of_ne isNeg, beq_false_of_ne isZero⟩
        simp only [Rules.latest?, table, tables, d, Decoder.tiered, Tier.rules, Rules.base,
          Tag.word, List.lookup_cons, List.lookup_nil, other, Option.none_or]
  have group : Rules.Merges [("Neg", plus), ("Zero", zero)] tables := by
    intro tag
    cases isNeg : tag == "Neg" <;>
      simp only [Rules.latest?, tables, List.lookup_cons, List.lookup_nil, isNeg, Option.none_or,
        Option.some_or]
  exact ⟨rfl, ⟨apart, perm, order apart others perm⟩, ⟨merges, single table merges⟩,
    groups [tables] rfl _ (.cons group .nil)⟩

end Symantics
