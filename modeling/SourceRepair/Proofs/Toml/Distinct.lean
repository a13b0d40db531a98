import Mathlib.Data.List.Nodup
import SourceRepair.Toml.Document

/-!
# No key of a document comes twice

Whatever a line of a document adds to the tables read so far, it adds under a key that is not there
yet, or it goes into the table that is there. So the tables of a document that is read have no key
twice, and neither have those inside them (`distinct_of_ofText?`). The rules about tables are
followed on the tree that the reader builds: each way to change it keeps the keys distinct
(`distinct_insert`, `distinct_update`, `distinct_openTable`, `distinct_openNext`), and each line
changes it in one of these ways.
-/

namespace SourceRepair

/-- No table of the setting has a key twice, nor has one inside it. -/
inductive Setting.Distinct : Setting → Prop
  | absent : Distinct .absent
  | bool (value : Bool) : Distinct (.bool value)
  | int (value : Int) : Distinct (.int value)
  | fractional (value : Fractional) : Distinct (.fractional value)
  | string (value : String) : Distinct (.string value)
  | array {items : List Setting} : (∀ item ∈ items, Distinct item) → Distinct (.array items)
  | table {members : List (String × Setting)} : (members.map Prod.fst).Nodup →
      (∀ member ∈ members, Distinct member.2) → Distinct (.table members)

/-- What is found under a key stands there. -/
theorem mem_of_lookup {α β : Type} [BEq α] [LawfulBEq α] {pairs : List (α × β)} {key : α}
    {value : β} (h : pairs.lookup key = some value) : (key, value) ∈ pairs := by
  obtain ⟨front, back, rfl, -⟩ := List.lookup_eq_some_iff.mp h
  exact List.mem_append_right front List.mem_cons_self

namespace Toml

/-- No table that has been read so far has a key twice. -/
def Members.Distinct (members : Members) : Prop :=
  (Setting.table (Node.membersToSettings members)).Distinct

/-- No table at a node has a key twice. -/
def Node.Distinct (node : Node) : Prop :=
  node.toSetting.Distinct

namespace Members

variable {members inner changed : Members} {key last : String} {keys : List String} {node : Node}
  {value : Setting}

theorem membersToSettings_eq_map (members : Members) : Node.membersToSettings members
    = members.map fun member => (member.1, member.2.toSetting) := by
  induction members with
  | nil => rfl
  | cons member more ih =>
    obtain ⟨key, node⟩ := member
    rw [Node.membersToSettings, ih, List.map_cons]

theorem distinct_iff : members.Distinct ↔
    (members.map Prod.fst).Nodup ∧ ∀ member ∈ members, member.2.Distinct := by
  rw [Distinct, membersToSettings_eq_map]
  constructor
  · rintro (_ | _ | _ | _ | _ | _ | ⟨hkeys, hmembers⟩)
    refine ⟨by simpa [Function.comp_def] using hkeys, fun member hmember => ?_⟩
    exact hmembers _ (List.mem_map_of_mem hmember)
  · rintro ⟨hkeys, hmembers⟩
    refine .table (by simpa [Function.comp_def] using hkeys) fun member hmember => ?_
    obtain ⟨read, hread, rfl⟩ := List.mem_map.mp hmember
    exact hmembers read hread

theorem distinct_nil : Distinct [] :=
  distinct_iff.mpr ⟨List.nodup_nil, fun _ h => absurd h List.not_mem_nil⟩

/-- A node under a key has distinct keys if the table has. -/
theorem distinct_of_lookup (h : members.Distinct) (hnode : members.lookup key = some node) :
    node.Distinct :=
  (distinct_iff.mp h).2 _ (mem_of_lookup hnode)

/-- What stands in a table in which a node has been put: that node, and what stood there. -/
theorem mem_put {member : String × Node} (h : member ∈ put key node members) :
    member = (key, node) ∨ member ∈ members := by
  induction members with
  | nil => exact .inl (List.mem_singleton.mp h)
  | cons first more ih =>
    rw [put] at h
    split at h
    · rcases List.mem_cons.mp h with h | h
      · exact .inl h
      · exact .inr (List.mem_cons_of_mem _ h)
    · rcases List.mem_cons.mp h with h | h
      · exact .inr (h ▸ List.mem_cons_self)
      · exact (ih h).imp_right (List.mem_cons_of_mem _)

/-- Putting a node under a key leaves the keys distinct. -/
theorem distinct_put (h : members.Distinct) (hnode : node.Distinct) :
    (put key node members).Distinct := by
  obtain ⟨hkeys, hmembers⟩ := distinct_iff.mp h
  refine distinct_iff.mpr ⟨?_, fun member hmember => ?_⟩
  · clear h hmembers
    induction members with
    | nil => exact List.nodup_singleton key
    | cons first more ih =>
      obtain ⟨k, old⟩ := first
      obtain ⟨hfirst, hmore⟩ := List.nodup_cons.mp hkeys
      rw [put]
      split
      · rename_i hkey
        exact hkey ▸ hkeys
      · rename_i hkey
        refine List.nodup_cons.mpr ⟨fun hmem => ?_, ih hmore⟩
        obtain ⟨member, hmember, hsame⟩ := List.mem_map.mp hmem
        rcases mem_put hmember with rfl | hmember
        · exact hkey hsame.symm
        · exact hfirst (hsame ▸ List.mem_map_of_mem hmember)
  · rcases mem_put hmember with rfl | hmember
    · exact hnode
    · exact hmembers member hmember

/-- Adding a value under a dotted key leaves the keys distinct. -/
theorem distinct_insert (hvalue : value.Distinct) (h : members.Distinct)
    (hchanged : insert value last keys members = some changed) : changed.Distinct := by
  induction keys generalizing members changed with
  | nil =>
    rw [insert] at hchanged
    split at hchanged
    · obtain rfl := Option.some.inj hchanged
      exact distinct_put h hvalue
    · exact absurd hchanged (by simp)
  | cons key keys ih =>
    rw [insert] at hchanged
    split at hchanged
    · obtain ⟨inner, hinner, rfl⟩ := Option.map_eq_some_iff.mp hchanged
      exact distinct_put h (ih distinct_nil hinner)
    · rename_i hlookup
      obtain ⟨inner, hinner, rfl⟩ := Option.map_eq_some_iff.mp hchanged
      exact distinct_put h (ih (distinct_of_lookup h hlookup) hinner)
    · rename_i hlookup
      split at hchanged
      · exact absurd hchanged (by simp)
      · obtain ⟨inner, hinner, rfl⟩ := Option.map_eq_some_iff.mp hchanged
        exact distinct_put h (ih (distinct_of_lookup h hlookup) hinner)
    · exact absurd hchanged (by simp)

/-- A table at a node has distinct keys if its members have. -/
theorem distinct_table_iff {origin : Origin} :
    (Node.table origin inner).Distinct ↔ inner.Distinct :=
  Iff.rfl

theorem tablesToSettings_eq_map (tables : List Members) : Node.tablesToSettings tables
    = tables.map fun members => Setting.table (Node.membersToSettings members) := by
  induction tables with
  | nil => rfl
  | cons members more ih => rw [Node.tablesToSettings, ih, List.map_cons]

/-- The tables of an array have distinct keys if each of them has. -/
theorem distinct_tables_iff {earlier : List Members} {current : Members} :
    (Node.tables earlier current).Distinct ↔
      (∀ members ∈ earlier, Distinct members) ∧ Distinct current := by
  rw [Node.Distinct, Node.toSetting, tablesToSettings_eq_map]
  constructor
  · rintro (_ | _ | _ | _ | _ | hitems | _)
    refine ⟨fun members hmembers => hitems _ ?_, hitems _ (List.mem_append_right _ ?_)⟩
    · exact List.mem_append_left _ (List.mem_map_of_mem hmembers)
    · exact List.mem_cons_self
  · rintro ⟨hearlier, hcurrent⟩
    refine .array fun item hitem => ?_
    rcases List.mem_append.mp hitem with hitem | hitem
    · obtain ⟨members, hmembers, rfl⟩ := List.mem_map.mp hitem
      exact hearlier members hmembers
    · exact List.mem_singleton.mp hitem ▸ hcurrent

/-- Opening a table leaves the keys distinct. -/
theorem distinct_openTable (h : members.Distinct)
    (hchanged : openTable key members = some changed) : changed.Distinct := by
  rw [openTable] at hchanged
  split at hchanged
  · obtain rfl := Option.some.inj hchanged
    exact distinct_put h distinct_nil
  · rename_i hlookup
    obtain rfl := Option.some.inj hchanged
    exact distinct_put h (distinct_table_iff.mp (distinct_of_lookup h hlookup))
  · exact absurd hchanged (by simp)

/-- Opening the next table of an array leaves the keys distinct. -/
theorem distinct_openNext (h : members.Distinct)
    (hchanged : openNext key members = some changed) : changed.Distinct := by
  rw [openNext] at hchanged
  split at hchanged
  · obtain rfl := Option.some.inj hchanged
    exact distinct_put h (distinct_tables_iff.mpr ⟨by simp, distinct_nil⟩)
  · rename_i hlookup
    obtain rfl := Option.some.inj hchanged
    obtain ⟨hearlier, hlast⟩ := distinct_tables_iff.mp (distinct_of_lookup h hlookup)
    refine distinct_put h (distinct_tables_iff.mpr ⟨?_, distinct_nil⟩)
    simpa [or_imp, forall_and] using ⟨hearlier, hlast⟩
  · exact absurd hchanged (by simp)

/-- Changing the table that some keys lead to leaves the keys distinct if the change does. -/
theorem distinct_update {change : Members → Option Members}
    (hchange : ∀ {members changed}, Distinct members → change members = some changed →
      Distinct changed)
    (h : members.Distinct) (hchanged : update change keys members = some changed) :
    changed.Distinct := by
  induction keys generalizing members changed with
  | nil => exact hchange h hchanged
  | cons key keys ih =>
    rw [update] at hchanged
    split at hchanged
    · obtain ⟨inner, hinner, rfl⟩ := Option.map_eq_some_iff.mp hchanged
      exact distinct_put h (ih distinct_nil hinner)
    · rename_i hlookup
      obtain ⟨inner, hinner, rfl⟩ := Option.map_eq_some_iff.mp hchanged
      exact distinct_put h (ih (distinct_of_lookup h hlookup) hinner)
    · rename_i hlookup
      obtain ⟨last, hlast, rfl⟩ := Option.map_eq_some_iff.mp hchanged
      obtain ⟨hearlier, hopen⟩ := distinct_tables_iff.mp (distinct_of_lookup h hlookup)
      exact distinct_put h (distinct_tables_iff.mpr ⟨hearlier, ih hopen hlast⟩)
    · exact absurd hchanged (by simp)

end Members

/-! ## Values -/

/-- The value of a word is no table. -/
theorem distinct_word? {word : List Char} {value : Setting} (h : word? word = some value) :
    value.Distinct := by
  rw [word?] at h
  split at h
  · exact Option.some.inj h ▸ .bool true
  · split at h
    · exact Option.some.inj h ▸ .bool false
    · split at h
      · exact Option.some.inj h ▸ .int _
      · exact Option.some.inj h ▸ .fractional _
      · exact Option.some.inj h ▸ .string _
      · exact absurd h (by simp)

mutual

/-- A value that is read has no key twice. -/
theorem distinct_readValue {depth : Nat} {text rest : List Char} {value : Setting}
    (h : readValue depth text = some (value, rest)) : value.Distinct := by
  rw [readValue.eq_def] at h
  split at h
  · exact absurd h (by simp)
  · split at h
    · split at h
      · exact absurd h (by simp)
      · obtain ⟨⟨items, rest⟩, hitems, heq⟩ := Option.map_eq_some_iff.mp h
        obtain ⟨rfl, -⟩ := Prod.mk.inj heq
        exact .array (distinct_readItems hitems)
    · split at h
      · split at h
        · exact absurd h (by simp)
        · obtain ⟨⟨members, rest⟩, hmembers, heq⟩ := Option.map_eq_some_iff.mp h
          obtain ⟨rfl, -⟩ := Prod.mk.inj heq
          exact distinct_readInline Members.distinct_nil hmembers
      · split at h
        · obtain ⟨⟨text, rest⟩, -, heq⟩ := Option.map_eq_some_iff.mp h
          exact (Prod.mk.inj heq).1 ▸ .string _
        · obtain ⟨value, hword, heq⟩ := Option.map_eq_some_iff.mp h
          exact (Prod.mk.inj heq).1 ▸ distinct_word? hword
termination_by 3 * text.length

/-- The values of an array have no key twice. -/
theorem distinct_readItems {depth : Nat} {text rest : List Char} {items : List Setting}
    (h : readItems depth text = some (items, rest)) : ∀ item ∈ items, item.Distinct := by
  rw [readItems] at h
  split at h
  · exact absurd h (by simp)
  · obtain ⟨rfl, -⟩ := Prod.mk.inj (Option.some.inj h)
    exact fun _ hitem => absurd hitem List.not_mem_nil
  · split at h
    · split at h
      · exact absurd h (by simp)
      · rename_i hfirst
        obtain ⟨rfl, -⟩ := Prod.mk.inj (Option.some.inj h)
        exact List.forall_mem_singleton.mpr (distinct_readItem hfirst)
      · rename_i hfirst
        split at h
        · obtain ⟨⟨more, rest⟩, hmore, heq⟩ := Option.map_eq_some_iff.mp h
          obtain ⟨rfl, -⟩ := Prod.mk.inj heq
          exact List.forall_mem_cons.mpr ⟨distinct_readItem hfirst, distinct_readItems hmore⟩
        · exact absurd h (by simp)
    · exact absurd h (by simp)
termination_by 3 * text.length + 2

/-- A value of an array has no key twice. -/
theorem distinct_readItem {depth : Nat} {text rest : List Char} {item : Setting} {more : Bool}
    (h : readItem depth text = some (item, rest, more)) : item.Distinct := by
  rw [readItem] at h
  split at h
  · exact absurd h (by simp)
  · rename_i hvalue
    split at h
    · exact (Prod.mk.inj (Option.some.inj h)).1 ▸ distinct_readValue hvalue
    · exact (Prod.mk.inj (Option.some.inj h)).1 ▸ distinct_readValue hvalue
    · exact absurd h (by simp)
termination_by 3 * text.length + 1

/-- The members of a table inside a value have no key twice. -/
theorem distinct_readInline {depth : Nat} {text rest : List Char} {members all : Members}
    (hmembers : members.Distinct) (h : readInline depth members text = some (all, rest)) :
    all.Distinct := by
  rw [readInline] at h
  split at h
  · exact absurd h (by simp)
  · obtain ⟨rfl, -⟩ := Prod.mk.inj (Option.some.inj h)
    exact hmembers
  · split at h
    · split at h
      · split at h
        · exact absurd h (by simp)
        · rename_i hvalue
          split at h
          · rename_i hinsert _
            obtain ⟨rfl, -⟩ := Prod.mk.inj (Option.some.inj h)
            exact Members.distinct_insert (distinct_readValue hvalue) hmembers hinsert
          · rename_i hinsert _
            have hadded := Members.distinct_insert (distinct_readValue hvalue) hmembers hinsert
            split at h
            · exact distinct_readInline hadded h
            · exact absurd h (by simp)
          · exact absurd h (by simp)
      · exact absurd h (by simp)
    · exact absurd h (by simp)
termination_by 3 * text.length + 1

end

/-! ## Documents -/

/-- A line leaves the keys distinct. -/
theorem distinct_readLine {members changed : Members} {header next : List String}
    {text rest : List Char} (hmembers : members.Distinct)
    (h : readLine members header text = some (changed, next, rest)) : changed.Distinct := by
  rw [readLine.eq_def] at h
  split at h
  · obtain ⟨⟨⟨before, last⟩, after⟩, -, h⟩ := Option.bind_eq_some_iff.mp h
    obtain ⟨opened, hopened, heq⟩ := Option.bind_eq_some_iff.mp h
    obtain ⟨rfl, -⟩ := Prod.mk.inj (Option.some.inj heq)
    exact Members.distinct_update Members.distinct_openNext hmembers hopened
  · obtain ⟨⟨⟨before, last⟩, after⟩, -, h⟩ := Option.bind_eq_some_iff.mp h
    obtain ⟨opened, hopened, heq⟩ := Option.bind_eq_some_iff.mp h
    obtain ⟨rfl, -⟩ := Prod.mk.inj (Option.some.inj heq)
    exact Members.distinct_update Members.distinct_openTable hmembers hopened
  · split at h
    · obtain ⟨⟨value, after⟩, hvalue, h⟩ := Option.bind_eq_some_iff.mp h
      obtain ⟨added, hadded, heq⟩ := Option.bind_eq_some_iff.mp h
      obtain ⟨rfl, -⟩ := Prod.mk.inj (Option.some.inj heq)
      exact Members.distinct_update (Members.distinct_insert (distinct_readValue hvalue)) hmembers
        hadded
    · exact absurd h (by simp)

/-- The lines of a document leave the keys distinct. -/
theorem distinct_readTables {members all : Members} {header : List String} {text : List Char}
    (hmembers : members.Distinct) (h : readTables members header text = some all) :
    all.Distinct := by
  fun_induction readTables members header text
  case case1 => exact absurd h (by simp)
  case case2 => exact Option.some.inj h ▸ hmembers
  case case3 => exact absurd h (by simp)
  case case4 hline _ _ ih => exact ih (distinct_readLine hmembers hline) h
  case case5 => exact absurd h (by simp)
  case case6 => exact absurd h (by simp)

/-- No table of a document has a key twice, nor has one inside it. -/
theorem distinct_of_ofText? {text : String} {members : List (String × Setting)}
    (h : Document.ofText? text = some members) : (Setting.table members).Distinct := by
  obtain ⟨all, hall, rfl⟩ := Option.map_eq_some_iff.mp h
  exact distinct_readTables Members.distinct_nil hall

end Toml
end SourceRepair
