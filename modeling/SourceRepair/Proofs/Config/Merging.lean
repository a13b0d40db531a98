import Mathlib.Data.List.Nodup
import SourceRepair.Config.Layers

/-!
# Settings laid over settings

A setting is looked up key by key (`at?`). Where the keys lead to a value in the new settings, that
value is the one in force after they have been set, whole; where they lead nowhere there, the old
one stays, whatever else is set beside it (`at?_merge`). The two ways in which settings are set are
both of this kind: the keys of a file one after another (`setMembers_eq_merge`), and one path of
keys, which is a file with nothing else in it (`setAt_eq_merge`).
-/

namespace SourceRepair.Setting

variable {old new base value : Setting} {key : String} {keys others : List String}
  {members : List (String × Setting)}

/-- What stands at the end of some keys. -/
def at? : List String → Setting → Option Setting
  | [], setting => some setting
  | key :: keys, setting => (setting.members.lookup key).bind (at? keys)

/-- The keys lead through tables without repeated keys, and what they lead to, if anything, is no
table. -/
def LeadsToValue : List String → Setting → Prop
  | [], setting => ∀ members, setting ≠ .table members
  | key :: keys, setting => ∃ members, setting = .table members ∧ (members.map Prod.fst).Nodup ∧
      ∀ value, members.lookup key = some value → LeadsToValue keys value

/-- The settings in which some keys lead to a value, and in which there is nothing else. -/
def nest (value : Setting) : List String → Setting
  | [] => value
  | key :: keys => .table [(key, nest value keys)]

/-! ## Keys of one table -/

theorem lookup_cons_ite (key : String) (member : String × Setting)
    (more : List (String × Setting)) :
    (member :: more).lookup key = if key = member.1 then some member.2 else more.lookup key := by
  rw [List.lookup_cons]
  by_cases h : key = member.1
  · rw [if_pos h, h, beq_self_eq_true]
  · rw [if_neg h, beq_false_of_ne h]

/-- A key has the value that it has been set to, and every other one the value it had. -/
theorem lookup_setKey (key : String) (value : Setting) (members : List (String × Setting))
    (other : String) : (setKey key value members).lookup other
      = if other = key then some value else members.lookup other := by
  induction members with
  | nil => exact lookup_cons_ite other (key, value) []
  | cons member more ih =>
    obtain ⟨k, stood⟩ := member
    rw [setKey]
    by_cases hkey : k = key
    · rw [if_pos hkey, lookup_cons_ite, lookup_cons_ite, hkey]
      by_cases h : other = key <;> simp [h]
    · rw [if_neg hkey, lookup_cons_ite, lookup_cons_ite, ih]
      by_cases h : other = key
      · simp [h, Ne.symm hkey]
      · simp [h]

/-- Each key of a table has its value in the new members laid over its value in the old ones. -/
theorem lookup_mergeMembers {old new : List (String × Setting)} (hnew : (new.map Prod.fst).Nodup)
    (key : String) : (mergeMembers old new).lookup key
      = match new.lookup key with
        | some value => some (((old.lookup key).getD .absent).merge value)
        | none => old.lookup key := by
  induction new generalizing old with
  | nil => rfl
  | cons member more ih =>
    obtain ⟨k, value⟩ := member
    obtain ⟨hk, hmore⟩ := List.nodup_cons.mp hnew
    rw [mergeMembers, ih hmore, lookup_setKey, lookup_cons_ite]
    by_cases hkey : key = k
    · -- the key does not come again
      have hnone : more.lookup key = none := by
        rw [List.lookup_eq_none_iff]
        intro member hmember
        have hkeys : member.1 ∈ more.map Prod.fst := List.mem_map_of_mem hmember
        exact bne_iff_ne.mpr fun hsame => hk (hkey ▸ hsame ▸ hkeys)
      rw [hnone, if_pos hkey, if_pos hkey, hkey]
    · rw [if_neg hkey, if_neg hkey]

/-! ## Paths of keys -/

/-- Laid over others, settings are in force where they set something, and the others elsewhere. -/
theorem at?_merge (h : LeadsToValue keys new) :
    at? keys (old.merge new) = (at? keys new).or (at? keys old) := by
  induction keys generalizing old new with
  | nil =>
    have hmerge : old.merge new = new := by
      cases new with
      | table members => exact absurd rfl (h members)
      | _ => rfl
    rw [hmerge]
    rfl
  | cons key keys ih =>
    obtain ⟨members, rfl, hkeys, hvalue⟩ := h
    rw [merge, at?, at?, at?, Setting.members, Setting.members, lookup_mergeMembers hkeys]
    cases hlookup : members.lookup key with
    | none => rfl
    | some value =>
      rw [Option.bind_some, Option.bind_some, ih (hvalue value hlookup)]
      cases old.members.lookup key with
      | some stood => rfl
      | none =>
        -- nothing is found in what is missing, and a value needs no more keys
        cases keys with
        | nil => rfl
        | cons next keys => rfl

/-! ## The ways to set something -/

/-- To set the value at the end of some keys is to lay the settings with nothing else over. -/
theorem setAt_eq_merge (value : Setting) (keys : List String) (base : Setting) :
    setAt value (keys.map .key) base = base.merge (nest value keys) := by
  induction keys generalizing base with
  | nil => rfl
  | cons key keys ih => rw [List.map_cons, setAt, ih, nest, merge, mergeMembers, mergeMembers]

/-- Of some keys and others neither is a proper beginning of the other. -/
def Apart (keys others : List String) : Prop :=
  (keys <+: others → keys = others) ∧ (others <+: keys → keys = others)

theorem Apart.tail {key : String} (h : Apart (key :: keys) (key :: others)) : Apart keys others :=
  ⟨fun hfront => (List.cons.inj (h.1 (List.cons_prefix_cons.mpr ⟨rfl, hfront⟩))).2,
    fun hfront => (List.cons.inj (h.2 (List.cons_prefix_cons.mpr ⟨rfl, hfront⟩))).2⟩

/-- Where nothing but the value at the end of some keys is set, that is found there, and nothing
anywhere else. -/
theorem at?_nest (h : Apart keys others) :
    at? keys (nest value others) = if keys = others then some value else none := by
  induction keys generalizing others with
  | nil =>
    rw [← h.1 List.nil_prefix, if_pos rfl]
    rfl
  | cons key keys ih =>
    cases others with
    | nil => exact absurd (h.2 List.nil_prefix) (by simp)
    | cons other others =>
      rw [nest, at?, Setting.members, lookup_cons_ite]
      by_cases hkey : key = other
      · subst hkey
        rw [if_pos rfl, Option.bind_some, ih h.tail]
        simp
      · rw [if_neg hkey, if_neg fun hsame => hkey (List.cons.inj hsame).1]
        rfl

theorem leadsToValue_nest (hvalue : ∀ members, value ≠ .table members) (h : Apart keys others) :
    LeadsToValue keys (nest value others) := by
  induction keys generalizing others with
  | nil =>
    rw [← h.1 List.nil_prefix]
    exact hvalue
  | cons key keys ih =>
    cases others with
    | nil => exact absurd (h.2 List.nil_prefix) (by simp)
    | cons other others =>
      refine ⟨_, rfl, List.nodup_singleton _, fun found hfound => ?_⟩
      have hone : (if key = other then some (nest value others) else none) = some found :=
        (lookup_cons_ite key (other, nest value others) []).symm.trans hfound
      obtain ⟨rfl, hsame⟩ := Option.ite_none_right_eq_some.mp hone
      exact Option.some.inj hsame ▸ ih h.tail

/-- To set the members of a file is to lay them over as one table, if none of the keys is read as a
path of several steps. -/
theorem setMembers_eq_merge {old members : List (String × Setting)}
    (hkeys : ∀ key ∈ members.map Prod.fst, readPath? key = some [.key key]) :
    Config.setMembers (.table old) members = (Setting.table old).merge (.table members) := by
  rw [Config.setMembers]
  induction members generalizing old with
  | nil => rfl
  | cons member more ih =>
    obtain ⟨key, value⟩ := member
    obtain ⟨hkey, hmore⟩ := List.forall_mem_cons.mp hkeys
    have hfirst : setAt value ((readPath? key).getD [.key key]) (.table old)
        = .table (setKey key (((old.lookup key).getD .absent).merge value) old) := by
      rw [hkey]
      rfl
    simp only [List.foldl_cons, hfirst]
    rw [ih hmore, merge, merge, mergeMembers]
    rfl

end SourceRepair.Setting
