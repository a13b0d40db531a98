import Mathlib
import SourceRepair.Rule.Literal

/-!
# Rules of one name

A catalog may hold several rules of one name. One of each name is kept, the first one in the order
of the catalog's listing: the universal rules, and then those of the codes in increasing order. A
scan takes the static ones among the rules kept, so it knows a name exactly if the first rule of
that name is static (`names_staticRules`). A static rule that comes behind a guarded one of the same
name is not seen (`names_staticRules_misses`).

What is kept of a list depends on its end only through the last step (`firstOfEachName_concat`), and
every fact about the rules kept goes by induction from there.
-/

namespace SourceRepair.Catalog

variable {catalog : Catalog} {rule : Rule} {name : String}

/-- All rules of a catalog, as often as they are registered. -/
def rules (catalog : Catalog) : List Rule :=
  catalog.universal ++ catalog.registered.map (·.2)

/-- The rules tried for a code are rules of the catalog. -/
theorem mem_rules_of_mem_rulesFor {code : String} (h : rule ∈ catalog.rulesFor code) :
    rule ∈ catalog.rules := by
  rw [rulesFor, List.mem_append] at h
  rw [Catalog.rules, List.mem_append]
  refine h.imp_right fun hspecific => ?_
  obtain ⟨entry, hentry, rfl⟩ := List.mem_map.mp hspecific
  exact List.mem_map_of_mem (List.mem_of_mem_filter hentry)

/-! ## The listing -/

/-- Leaving out repetitions keeps all elements. -/
theorem mem_eraseReps_iff {x : String} {l : List String} : x ∈ l.eraseReps ↔ x ∈ l := by
  have hloop : ∀ (rest : List String) (last : String) (kept : List String),
      x ∈ List.eraseRepsBy.loop (· == ·) last rest kept ↔ x ∈ kept ∨ x = last ∨ x ∈ rest := by
    intro rest
    induction rest with
    | nil =>
      intro last kept
      simp [List.eraseRepsBy.loop, or_comm]
    | cons y rest ih =>
      intro last kept
      rw [List.eraseRepsBy.loop]
      split
      · rename_i heq
        rw [ih, ← eq_of_beq heq, List.mem_cons]
        tauto
      · rw [ih, List.mem_cons, List.mem_cons]
        tauto
  cases l with
  | nil => exact Iff.rfl
  | cons y rest =>
    show x ∈ List.eraseRepsBy.loop (· == ·) y rest [] ↔ _
    rw [hloop, List.mem_cons]
    simp

/-- The rules of a catalog in the order of its listing. -/
def listed (catalog : Catalog) : List Rule :=
  catalog.listing.map (·.2)

theorem listed_eq (catalog : Catalog) :
    catalog.listed = catalog.universal ++ catalog.codes.flatMap catalog.specific := by
  rw [listed, listing, List.map_append, List.map_map, List.map_flatMap]
  simp [Function.comp_def]

/-- The listing has all rules of the catalog and no others. -/
theorem mem_listed_iff : rule ∈ catalog.listed ↔ rule ∈ catalog.rules := by
  rw [listed_eq, List.mem_append]
  constructor
  · rintro (huniversal | hspecific)
    · exact List.mem_append_left _ huniversal
    · obtain ⟨code, -, hspecific⟩ := List.mem_flatMap.mp hspecific
      exact mem_rules_of_mem_rulesFor (List.mem_append_right catalog.universal hspecific)
  · intro h
    refine (List.mem_append.mp h).imp_right fun hregistered => ?_
    obtain ⟨⟨code, _⟩, hentry, rfl⟩ := List.mem_map.mp hregistered
    have hcode : code ∈ catalog.codes :=
      mem_eraseReps_iff.mpr (List.mem_mergeSort.mpr (List.mem_map.mpr ⟨_, hentry, rfl⟩))
    have hspecific : _ ∈ catalog.specific code :=
      List.mem_map.mpr ⟨_, List.mem_filter.mpr ⟨hentry, beq_self_eq_true code⟩, rfl⟩
    exact List.mem_flatMap.mpr ⟨code, hcode, hspecific⟩

/-! ## One rule of each name -/

/-- One more rule is kept if none of its name has been. -/
theorem firstOfEachName_concat (rules : List Rule) (rule : Rule) :
    firstOfEachName (rules ++ [rule])
      = if (firstOfEachName rules).any (·.name == rule.name) then firstOfEachName rules
        else firstOfEachName rules ++ [rule] :=
  List.foldl_concat ..

/-- No name is kept twice. -/
theorem nodup_names_firstOfEachName (rules : List Rule) :
    ((firstOfEachName rules).map (·.name)).Nodup := by
  induction rules using List.reverseRecOn with
  | nil => exact List.nodup_nil
  | append_singleton rules rule ih =>
    rw [firstOfEachName_concat]
    split
    · exact ih
    · rename_i hnew
      rw [List.map_append, List.map_singleton, List.nodup_append]
      refine ⟨ih, List.nodup_singleton _, fun a ha b hb hab => hnew ?_⟩
      obtain ⟨kept, hkept, rfl⟩ := List.mem_map.mp ha
      rw [List.any_eq_true]
      exact ⟨kept, hkept, beq_of_eq (hab.trans (List.mem_singleton.mp hb))⟩

/-- Of each name the first rule is kept. -/
theorem find?_firstOfEachName (rules : List Rule) (name : String) :
    (firstOfEachName rules).find? (·.name == name) = rules.find? (·.name == name) := by
  induction rules using List.reverseRecOn with
  | nil => rfl
  | append_singleton rules rule ih =>
    rw [firstOfEachName_concat, List.find?_append, ← ih]
    split
    · rename_i hany
      by_cases hname : rule.name = name
      · -- a rule of the name has been kept before
        rw [hname, List.any_eq_true, ← List.find?_isSome] at hany
        rw [Option.or_of_isSome hany]
      · rw [List.find?_cons_of_neg (by simpa using hname), List.find?_nil, Option.or_none]
    · rw [List.find?_append]

/-- A name that some rule of a list has has a first rule. -/
theorem exists_first_of_mem {rules : List Rule} (h : rule ∈ rules) :
    ∃ first ∈ rules, rules.find? (·.name == rule.name) = some first ∧ first.name = rule.name := by
  have hsome : (rules.find? (·.name == rule.name)).isSome := by
    rw [List.find?_isSome]
    exact ⟨rule, h, beq_self_eq_true rule.name⟩
  obtain ⟨first, hfirst⟩ := Option.isSome_iff_exists.mp hsome
  exact ⟨first, List.mem_of_find?_eq_some hfirst, hfirst, by simpa using List.find?_some hfirst⟩

/-- Where no name occurs twice, a rule is the first one of its name. -/
theorem find?_eq_some_of_mem {rules : List Rule} (hnames : (rules.map (·.name)).Nodup)
    (h : rule ∈ rules) : rules.find? (·.name == rule.name) = some rule := by
  obtain ⟨first, hmem, hfirst, hname⟩ := exists_first_of_mem h
  rw [hfirst, List.inj_on_of_nodup_map hnames hmem h hname]

/-- The rules kept are those that come first of their names. -/
theorem mem_firstOfEachName_iff {rules : List Rule} :
    rule ∈ firstOfEachName rules ↔ rules.find? (·.name == rule.name) = some rule := by
  rw [← find?_firstOfEachName]
  exact ⟨find?_eq_some_of_mem (nodup_names_firstOfEachName rules), List.mem_of_find?_eq_some⟩

/-! ## The rules of a scan -/

/-- A scan goes through the static rules among those that come first of their names. -/
theorem mem_staticRules_iff : rule ∈ catalog.staticRules ↔
    catalog.listed.find? (·.name == rule.name) = some rule ∧ rule.isStatic = true := by
  rw [staticRules, allRules, ← listed_eq, List.mem_filter, mem_firstOfEachName_iff]

/-- A scan goes through rules of the catalog. -/
theorem mem_rules_of_mem_staticRules (h : rule ∈ catalog.staticRules) : rule ∈ catalog.rules :=
  mem_listed_iff.mp (List.mem_of_find?_eq_some (mem_staticRules_iff.mp h).1)

/-- No two rules of a scan have the same name. -/
theorem nodup_names_staticRules (catalog : Catalog) :
    (catalog.staticRules.map (·.name)).Nodup :=
  (nodup_names_firstOfEachName _).sublist (List.filter_sublist.map _)

theorem mem_names_staticRules_iff : name ∈ catalog.staticRules.map (·.name) ↔
    ∃ rule, catalog.listed.find? (·.name == name) = some rule ∧ rule.isStatic = true := by
  rw [List.mem_map]
  constructor
  · rintro ⟨rule, hrule, rfl⟩
    exact ⟨rule, mem_staticRules_iff.mp hrule⟩
  · rintro ⟨rule, hfirst, hstatic⟩
    have hname : rule.name = name := by simpa using List.find?_some hfirst
    exact ⟨rule, mem_staticRules_iff.mpr ⟨hname ▸ hfirst, hstatic⟩, hname⟩

/-- A scan knows no name twice, and it knows a name exactly if the first rule of that name in the
listing is static. So a name that it knows is that of a static rule of the catalog, and if the rules
of a name are all static or all not, it knows the names of static rules exactly. -/
theorem names_staticRules (catalog : Catalog) (name : String) :
    (catalog.staticRules.map (·.name)).Nodup ∧
    (name ∈ catalog.staticRules.map (·.name) ↔
      ∃ rule, catalog.listed.find? (·.name == name) = some rule ∧ rule.isStatic = true) ∧
    (name ∈ catalog.staticRules.map (·.name) →
      ∃ rule ∈ catalog.rules, rule.name = name ∧ rule.isStatic = true) ∧
    ((∀ rule ∈ catalog.rules, ∀ other ∈ catalog.rules, rule.name = name → other.name = name →
        rule.isStatic = other.isStatic) →
      (name ∈ catalog.staticRules.map (·.name) ↔
        ∃ rule ∈ catalog.rules, rule.name = name ∧ rule.isStatic = true)) := by
  have hregistered : name ∈ catalog.staticRules.map (·.name) →
      ∃ rule ∈ catalog.rules, rule.name = name ∧ rule.isStatic = true := by
    intro hname
    obtain ⟨rule, hrule, rfl⟩ := List.mem_map.mp hname
    exact ⟨rule, mem_rules_of_mem_staticRules hrule, rfl, (mem_staticRules_iff.mp hrule).2⟩
  refine ⟨nodup_names_staticRules catalog, mem_names_staticRules_iff, hregistered,
    fun hagree => ⟨hregistered, ?_⟩⟩
  rintro ⟨rule, hrule, rfl, hstatic⟩
  obtain ⟨first, hfirstMem, hfirst, hname⟩ := exists_first_of_mem (mem_listed_iff.mpr hrule)
  have hagreed := hagree first (mem_listed_iff.mp hfirstMem) rule hrule hname rfl
  exact mem_names_staticRules_iff.mpr ⟨first, hfirst, hagreed.trans hstatic⟩

/-- A rule that drops a doubled mark, under a guard or without one. -/
def dropDoubled (guard : Option PlainGuard) : Rule :=
  PlainRule.toRule { name := "doubled", text := ";;", guard, fixer := some .drop }

/-- A rule that one code has with a guard and another one without is static for the second code, and
a scan does not know it. -/
theorem names_staticRules_misses :
    let catalog := (empty.insert "E1" (dropDoubled (some .hasNext))).insert "E2" (dropDoubled none)
    ¬("doubled" ∈ catalog.staticRules.map (·.name) ↔
      ∃ rule ∈ catalog.rules, rule.name = "doubled" ∧ rule.isStatic = true) := by
  intro catalog hiff
  have hstatic : ∃ rule ∈ catalog.rules, rule.name = "doubled" ∧ rule.isStatic = true :=
    ⟨dropDoubled none, by simp [catalog, Catalog.rules, insert], rfl, rfl⟩
  have hcodes : catalog.codes = ["E1", "E2"] := by
    rw [codes, List.mergeSort_of_pairwise (by decide)]
    rfl
  -- the guarded rule of the first code comes first
  have hfirst : catalog.listed.find? (·.name == "doubled")
      = some (dropDoubled (some .hasNext)) := by
    rw [listed_eq, hcodes]
    rfl
  obtain ⟨rule, hrule, hnotStatic⟩ := mem_names_staticRules_iff.mp (hiff.mpr hstatic)
  rw [hfirst] at hrule
  obtain rfl := Option.some.inj hrule
  exact Bool.false_ne_true hnotStatic

end SourceRepair.Catalog
