import SourceRepair.Diagnostic.Basic
import SourceRepair.Proofs.Path.Order

/-!
# Groups by file

The groups of diagnostics stand in the strict order of their files' paths, and each goes by the path
of a diagnostic. They are a partition: a group holds the diagnostics of its file, in their order,
and every diagnostic is in the group of its file (`groupByFile_partition`).
-/

namespace SourceRepair.Diagnostic

variable {groups : List (Path × List Diagnostic)}

/-- The groups stand in the strict order of their paths. -/
def Increasing (groups : List (Path × List Diagnostic)) : Prop :=
  groups.Pairwise fun group later => group.1.order later.1 = .lt

/-- Adding a diagnostic brings in no other path than its file. -/
theorem path_of_mem_addToGroups {d : Diagnostic} {group : Path × List Diagnostic}
    (h : group ∈ addToGroups d groups) :
    group.1 = d.file ∨ ∃ old ∈ groups, old.1 = group.1 := by
  fun_induction addToGroups d groups with
  | case1 =>
    obtain rfl := List.mem_singleton.mp h
    exact .inl rfl
  | case2 path batch more hlt =>
    rcases List.mem_cons.mp h with rfl | h
    · exact .inl rfl
    · exact .inr ⟨group, h, rfl⟩
  | case3 path batch more heq =>
    rcases List.mem_cons.mp h with rfl | h
    · exact .inr ⟨(path, batch), List.mem_cons_self, rfl⟩
    · exact .inr ⟨group, List.mem_cons_of_mem _ h, rfl⟩
  | case4 path batch more hgt ih =>
    rcases List.mem_cons.mp h with rfl | h
    · exact .inr ⟨(path, batch), List.mem_cons_self, rfl⟩
    · rcases ih h with hfile | ⟨old, hold, heq⟩
      · exact .inl hfile
      · exact .inr ⟨old, List.mem_cons_of_mem _ hold, heq⟩

/-- Adding a diagnostic keeps the groups in order: its group comes where its path belongs. -/
theorem Increasing.addToGroups (h : Increasing groups) (d : Diagnostic) :
    Increasing (addToGroups d groups) := by
  fun_induction Diagnostic.addToGroups d groups with
  | case1 => exact List.pairwise_singleton _ _
  | case2 path batch more hlt =>
    refine List.pairwise_cons.mpr ⟨?_, h⟩
    intro later hlater
    rcases List.mem_cons.mp hlater with rfl | hlater
    · exact hlt
    · exact Std.TransCmp.lt_trans hlt ((List.pairwise_cons.mp h).1 later hlater)
  | case3 path batch more heq =>
    obtain ⟨hfirst, hmore⟩ := List.pairwise_cons.mp h
    exact List.pairwise_cons.mpr ⟨hfirst, hmore⟩
  | case4 path batch more hgt ih =>
    obtain ⟨hfirst, hmore⟩ := List.pairwise_cons.mp h
    refine List.pairwise_cons.mpr ⟨?_, ih hmore⟩
    intro later hlater
    rcases path_of_mem_addToGroups hlater with hfile | ⟨old, hold, heq⟩
    · rw [hfile]
      exact Std.OrientedCmp.lt_of_gt hgt
    · rw [← heq]
      exact hfirst old hold

/-- The groups of any diagnostics are in order, and their paths are files of the diagnostics. -/
theorem groupByFile_increasing (diagnostics : List Diagnostic) :
    Increasing (groupByFile diagnostics) ∧
      ∀ group ∈ groupByFile diagnostics, group.1 ∈ diagnostics.map (·.file) := by
  -- the diagnostics are added to the groups of those before them
  suffices h : ∀ groups, Increasing groups →
      Increasing (diagnostics.foldl (fun groups d => addToGroups d groups) groups) ∧
        ∀ group ∈ diagnostics.foldl (fun groups d => addToGroups d groups) groups,
          group.1 ∈ diagnostics.map (·.file) ∨ ∃ old ∈ groups, old.1 = group.1 by
    obtain ⟨hincreasing, hfile⟩ := h [] List.Pairwise.nil
    refine ⟨hincreasing, fun group hgroup => ?_⟩
    rcases hfile group hgroup with hfile | ⟨old, hold, -⟩
    · exact hfile
    · exact absurd hold List.not_mem_nil
  induction diagnostics with
  | nil => exact fun groups h => ⟨h, fun group hgroup => .inr ⟨group, hgroup, rfl⟩⟩
  | cons d more ih =>
    intro groups h
    obtain ⟨hincreasing, hfile⟩ := ih _ (h.addToGroups d)
    refine ⟨hincreasing, fun group hgroup => ?_⟩
    rcases hfile group hgroup with hfile | ⟨old, hold, heq⟩
    · exact .inl (List.mem_cons_of_mem _ hfile)
    · rcases path_of_mem_addToGroups hold with hfile | ⟨older, holder, heq'⟩
      · left
        rw [← heq, hfile]
        exact List.mem_cons_self
      · exact .inr ⟨older, holder, heq'.trans heq⟩

/-- The files of two groups are different paths. -/
theorem groupByFile_pairwise (diagnostics : List Diagnostic) :
    (groupByFile diagnostics).Pairwise fun group later =>
      group.1.components ≠ later.1.components := by
  refine (groupByFile_increasing diagnostics).1.imp fun hlt heq => ?_
  rw [Path.order_eq_eq.mpr heq] at hlt
  exact absurd hlt (by decide)

/-! ## What the groups hold -/

/-- The groups to which a diagnostic is added stay as they are, but for that of its file, which gets
it at its end, or which is opened with it. -/
theorem mem_addToGroups {d : Diagnostic} (hgroups : Increasing groups)
    {group : Path × List Diagnostic} (h : group ∈ addToGroups d groups) :
    (group ∈ groups ∧ group.1.components ≠ d.file.components) ∨
      (∃ batch, (group.1, batch) ∈ groups ∧ group.1.components = d.file.components ∧
        group.2 = batch ++ [d]) ∨
      group = (d.file, [d]) ∧ ∀ old ∈ groups, old.1.components ≠ d.file.components := by
  have hbehind : ∀ {path : Path} {group : Path × List Diagnostic}, path.order group.1 = .lt →
      (d.file.order path).isLE → group.1.components ≠ d.file.components := by
    intro path group hlt hle heq
    rw [← Path.order_eq_eq, Std.OrientedCmp.eq_comm] at heq
    have hcontra := Std.TransCmp.lt_of_isLE_of_lt hle hlt
    rw [heq] at hcontra
    exact absurd hcontra (by decide)
  fun_induction addToGroups d groups with
  | case1 => exact .inr (.inr ⟨List.mem_singleton.mp h, fun old hold => absurd hold (by simp)⟩)
  | case2 path batch more hlt =>
    have hfirst : path.components ≠ d.file.components := fun heq => by
      rw [← Path.order_eq_eq, Std.OrientedCmp.eq_comm, hlt] at heq
      exact absurd heq (by decide)
    have hmore : ∀ old ∈ more, old.1.components ≠ d.file.components := fun old hold =>
      hbehind ((List.pairwise_cons.mp hgroups).1 old hold) (by rw [hlt]; rfl)
    have hall : ∀ old ∈ (path, batch) :: more, old.1.components ≠ d.file.components :=
      List.forall_mem_cons.mpr ⟨hfirst, hmore⟩
    rcases List.mem_cons.mp h with rfl | h
    · exact .inr (.inr ⟨rfl, hall⟩)
    · exact .inl ⟨h, hall group h⟩
  | case3 path batch more heq =>
    rcases List.mem_cons.mp h with rfl | h
    · exact .inr (.inl ⟨batch, List.mem_cons_self, (Path.order_eq_eq.mp heq).symm, rfl⟩)
    · refine .inl ⟨List.mem_cons_of_mem _ h, ?_⟩
      exact hbehind ((List.pairwise_cons.mp hgroups).1 group h) (by rw [heq]; rfl)
  | case4 path batch more hgt ih =>
    have hfirst : path.components ≠ d.file.components := fun heq => by
      rw [← Path.order_eq_eq, Std.OrientedCmp.eq_comm, hgt] at heq
      exact absurd heq (by decide)
    rcases List.mem_cons.mp h with rfl | h
    · exact .inl ⟨List.mem_cons_self, hfirst⟩
    · rcases ih (List.pairwise_cons.mp hgroups).2 h with
        ⟨h, hne⟩ | ⟨batch, h, heq, hbatch⟩ | ⟨h, hne⟩
      · exact .inl ⟨List.mem_cons_of_mem _ h, hne⟩
      · exact .inr (.inl ⟨batch, List.mem_cons_of_mem _ h, heq, hbatch⟩)
      · exact .inr (.inr ⟨h, List.forall_mem_cons.mpr ⟨hfirst, hne⟩⟩)

/-- There is a group for a file if there was one or the diagnostic added is in that file. -/
theorem exists_mem_addToGroups_iff (d : Diagnostic) (groups : List (Path × List Diagnostic))
    (file : List Component) :
    (∃ group ∈ addToGroups d groups, group.1.components = file) ↔
      d.file.components = file ∨ ∃ group ∈ groups, group.1.components = file := by
  fun_induction addToGroups d groups with
  | case1 => simp
  | case2 path batch more hlt => simp
  | case3 path batch more heq =>
    rw [Path.order_eq_eq] at heq
    simp [heq]
  | case4 path batch more hgt ih =>
    simp only [List.mem_cons, exists_eq_or_imp, ih]
    exact or_left_comm

/-- One diagnostic more is in the groups. -/
theorem sum_length_addToGroups (d : Diagnostic) (groups : List (Path × List Diagnostic)) :
    ((addToGroups d groups).map (·.2.length)).sum = (groups.map (·.2.length)).sum + 1 := by
  fun_induction addToGroups d groups with
  | case1 => rfl
  | case2 path batch more hlt =>
    simp only [List.map_cons, List.sum_cons, List.length_singleton]
    omega
  | case3 path batch more heq =>
    simp only [List.map_cons, List.sum_cons, List.length_append, List.length_singleton]
    omega
  | case4 path batch more hgt ih =>
    simp only [List.map_cons, List.sum_cons] at ih ⊢
    omega

/-- The groups are those of the diagnostics: each holds the diagnostics of its file in their order,
there is one for every file of a diagnostic, and none holds anything else. -/
structure Partition (diagnostics : List Diagnostic) (groups : List (Path × List Diagnostic)) :
    Prop where
  increasing : Increasing groups
  batch_eq : ∀ group ∈ groups,
    group.2 = diagnostics.filter fun d => d.file.components = group.1.components
  exists_iff : ∀ file, (∃ group ∈ groups, group.1.components = file) ↔
    ∃ d ∈ diagnostics, d.file.components = file
  sum_length : (groups.map (·.2.length)).sum = diagnostics.length

/-- A diagnostic that is added to the groups comes last among those of its file. -/
theorem Partition.addToGroups {diagnostics : List Diagnostic} (h : Partition diagnostics groups)
    (d : Diagnostic) : Partition (diagnostics ++ [d]) (addToGroups d groups) where
  increasing := h.increasing.addToGroups d
  batch_eq group hgroup := by
    rw [List.filter_append]
    rcases mem_addToGroups h.increasing hgroup with
      ⟨hold, hne⟩ | ⟨batch, hold, heq, hbatch⟩ | ⟨rfl, hne⟩
    · rw [h.batch_eq group hold, List.filter_cons_of_neg (by simpa using hne.symm)]
      simp
    · have hbatch' : batch = diagnostics.filter _ := h.batch_eq (group.1, batch) hold
      rw [hbatch, hbatch', List.filter_cons_of_pos (by simpa using heq.symm)]
      rfl
    · -- no diagnostic before was in this file
      have hnone : diagnostics.filter (fun e => e.file.components = d.file.components) = [] := by
        rw [List.filter_eq_nil_iff]
        intro e he heq
        obtain ⟨old, hold, heq'⟩ := (h.exists_iff _).mpr ⟨e, he, rfl⟩
        exact hne old hold (heq'.trans (of_decide_eq_true heq))
      simp [hnone]
  exists_iff file := by
    rw [exists_mem_addToGroups_iff, h.exists_iff]
    simp [or_comm]
  sum_length := by
    rw [sum_length_addToGroups, h.sum_length, List.length_append, List.length_singleton]

/-- Grouping by file is a partition of the diagnostics. -/
theorem groupByFile_partition (diagnostics : List Diagnostic) :
    Partition diagnostics (groupByFile diagnostics) := by
  have hnil : Partition [] [] := ⟨List.Pairwise.nil, by simp, by simp, rfl⟩
  -- the diagnostics are added to the partition of those before them
  suffices h : ∀ front groups, Partition front groups → Partition (front ++ diagnostics)
      (diagnostics.foldl (fun groups d => Diagnostic.addToGroups d groups) groups) from h [] [] hnil
  induction diagnostics with
  | nil =>
    intro front groups h
    rwa [List.append_nil]
  | cons d more ih =>
    intro front groups h
    have hmore := ih (front ++ [d]) _ (h.addToGroups d)
    rwa [List.append_assoc] at hmore

/-- Two diagnostics are in one group when they are in the same file. -/
theorem Partition.exists_mem_iff {diagnostics : List Diagnostic} (h : Partition diagnostics groups)
    {d e : Diagnostic} (hd : d ∈ diagnostics) (he : e ∈ diagnostics) :
    (∃ group ∈ groups, d ∈ group.2 ∧ e ∈ group.2) ↔ d.file.components = e.file.components := by
  have hmem : ∀ group ∈ groups, ∀ f ∈ diagnostics,
      f ∈ group.2 ↔ f.file.components = group.1.components := fun group hgroup f hf => by
    rw [h.batch_eq group hgroup, List.mem_filter, decide_eq_true_iff, and_iff_right hf]
  constructor
  · rintro ⟨group, hgroup, hdgroup, hegroup⟩
    rw [(hmem group hgroup d hd).mp hdgroup, (hmem group hgroup e he).mp hegroup]
  · intro heq
    obtain ⟨group, hgroup, hfile⟩ := (h.exists_iff _).mpr ⟨d, hd, rfl⟩
    exact ⟨group, hgroup, (hmem group hgroup d hd).mpr hfile.symm,
      (hmem group hgroup e he).mpr (heq.symm.trans hfile.symm)⟩

/-! ## What the groups go by -/

/-- The groups go by the spelling that their first diagnostic came with. -/
def NamedByFirst (groups : List (Path × List Diagnostic)) : Prop :=
  ∀ group ∈ groups, group.2.head?.map (·.file) = some group.1

/-- A diagnostic that is added behind others does not give a group its name. -/
theorem NamedByFirst.addToGroups (h : NamedByFirst groups) (d : Diagnostic) :
    NamedByFirst (addToGroups d groups) := by
  intro group hgroup
  fun_induction Diagnostic.addToGroups d groups with
  | case1 =>
    obtain rfl := List.mem_singleton.mp hgroup
    rfl
  | case2 path batch more hlt =>
    rcases List.mem_cons.mp hgroup with rfl | hgroup
    · rfl
    · exact h group hgroup
  | case3 path batch more heq =>
    rcases List.mem_cons.mp hgroup with rfl | hgroup
    · have hfirst : batch.head?.map (·.file) = some path := h _ List.mem_cons_self
      cases batch with
      | nil => exact absurd hfirst (by simp)
      | cons first batch => exact hfirst
    · exact h group (List.mem_cons_of_mem _ hgroup)
  | case4 path batch more hgt ih =>
    rcases List.mem_cons.mp hgroup with rfl | hgroup
    · exact h _ List.mem_cons_self
    · exact ih (fun old hold => h old (List.mem_cons_of_mem _ hold)) hgroup

theorem groupByFile_namedByFirst (diagnostics : List Diagnostic) :
    NamedByFirst (groupByFile diagnostics) := by
  suffices h : ∀ groups, NamedByFirst groups → NamedByFirst
      (diagnostics.foldl (fun groups d => Diagnostic.addToGroups d groups) groups) from
    h [] fun group hgroup => absurd hgroup List.not_mem_nil
  induction diagnostics with
  | nil => exact fun groups h => h
  | cons d more ih => exact fun groups h => ih _ (h.addToGroups d)

end SourceRepair.Diagnostic
