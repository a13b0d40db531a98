import SourceRepair.Proofs.Json.Pretty
import SourceRepair.Proofs.Json.Records

/-!
# Decoders on outlines of values

What a decoder gives on the outline that shows a value. A record whose members are its fields in
their order, each with a value of its form, is read with each field bound to its value
(`record_outline`), so that a decoder of records has to be looked at one field at a time.
-/

namespace SourceRepair.Json

/-! ## Single values -/

namespace Decoder

@[simp] theorem string_outline (value : String) :
    string (Value.string value).outline = .ok value := by
  show Except.ok (String.ofList value.toList) = .ok value
  rw [String.ofList_toList]

@[simp] theorem bool_outline (value : Bool) : bool (Value.bool value).outline = .ok value := rfl

/-- The numeral of a whole number writes it. -/
theorem int?_outline (n : Int) : Numeral.int? ⟨decide (n < 0), n.natAbs, 0, true⟩ = some n := by
  unfold Numeral.int?
  by_cases hneg : n < 0
  · have hne : n.natAbs ≠ 0 := by omega
    have hvalue : -(n.natAbs : Int) = n := by omega
    simp only [decide_eq_true hneg, if_true, if_neg hne, hvalue]
  · have hvalue : (n.natAbs : Int) = n := by omega
    simp [hneg, hvalue]

theorem int_outline {low high n : Int} (hlow : low ≤ n) (hhigh : n ≤ high) :
    int low high (Value.int n).outline = .ok n := by
  rw [Value.outline, int, int?_outline]
  exact if_pos ⟨hlow, hhigh⟩

theorem nat_outline {limit n : Nat} (h : n < limit) :
    nat limit (Value.nat n).outline = .ok n := by
  have hint : int 0 (limit - 1) (Value.int n).outline = .ok n :=
    int_outline (by omega) (by omega)
  rw [nat, Value.nat, hint]
  rfl

variable {α : Type} {decode : Decoder α} {encode : α → Value}

theorem parsed_outline {parse? : List Char → Option α} {text : List Char} {a : α}
    (h : parse? text = some a) :
    parsed parse? (Value.string (String.ofList text)).outline = .ok a := by
  rw [Value.outline, String.toList_ofList, parsed, h]

/-- An array is read if its elements are. -/
theorem list_outline {items : List α}
    (h : ∀ item ∈ items, decode (encode item).outline = .ok item) :
    list decode (Value.array (items.map encode)).outline = .ok items := by
  show (Value.outlineItems (items.map encode)).decode decode = .ok items
  induction items with
  | nil => rfl
  | cons item more ih =>
    obtain ⟨hitem, hmore⟩ := List.forall_mem_cons.mp h
    rw [List.map_cons, Value.outlineItems, Items.decode, hitem, ih hmore]
    rfl

@[simp] theorem list_string_outline (items : List String) :
    list string (Value.strings items).outline = .ok items :=
  list_outline fun item _ => string_outline item

/-- A value that may be missing is read if it is not shown as one that is. -/
theorem nullable_outline {value : Option α}
    (h : ∀ a ∈ value, (encode a).outline ≠ .null ∧ decode (encode a).outline = .ok a) :
    nullable decode (Value.ofOption encode value).outline = .ok value := by
  cases value with
  | none => rfl
  | some a =>
    obtain ⟨hne, hdecode⟩ := h a rfl
    rw [Value.ofOption]
    unfold nullable
    split
    · rename_i hnull
      exact absurd hnull hne
    · rw [hdecode]
      rfl

end Decoder

/-! ## Records -/

@[simp] theorem Field.of_name {α : Type} (name : String) (presence : Presence)
    (decode : Decoder α) : (Field.of name presence decode).name = name := rfl

/-- The members of an object are shown in their order. -/
theorem outlineMembers_eq_ofList (members : List (String × Value)) :
    Value.outlineMembers members
      = .ofList (members.map fun member => (member.1, member.2.outline)) := by
  induction members with
  | nil => rfl
  | cons member more ih =>
    rw [Value.outlineMembers, ih]
    rfl

/-- A record that is written with its fields in their order is read, and each field is found with
its value. -/
theorem record_outline (forms : List (Field × Value)) (hnodup : (forms.map (·.1.name)).Nodup)
    (hfaults : ∀ form ∈ forms, form.1.fault? form.2.outline = none) :
    ∃ found, (Value.object (forms.map fun form => (form.1.name, form.2))).outline.record
        (forms.map (·.1)) = .ok found ∧
      ∀ form ∈ forms, found.lookup form.1.name = some form.2.outline := by
  have hnames : ((forms.map (·.1)).map (·.name)).Nodup := by rwa [List.map_map]
  have hskip := (writes_prettyAt (.object (forms.map fun form => (form.1.name, form.2))) 0
    ).skipFault?_eq_none
  generalize hmembers : forms.map (fun form => (form.1.name, form.2.outline)) = members
  have hshape : (Value.object (forms.map fun form => (form.1.name, form.2))).outline
      = .object (.ofList members) := by
    rw [Value.outline, outlineMembers_eq_ofList, List.map_map, ← hmembers]
    rfl
  have hkeys : members.map (·.1) = forms.map (·.1.name) := by
    rw [← hmembers, List.map_map]
    rfl
  have hall : members.filter (·.1 ∈ (forms.map (·.1)).map (·.name)) = members := by
    refine List.filter_eq_self.mpr fun member hmember => decide_eq_true ?_
    rw [List.map_map]
    exact hkeys ▸ List.mem_map_of_mem hmember
  have hbinds : (Outline.object (.ofList members)).Binds ((forms.map (·.1)).map (·.name))
      members := by
    have hobject : (Outline.object (.ofList members)).Binds ((forms.map (·.1)).map (·.name)) _ :=
      .object (by rwa [hall, hkeys])
    rwa [hall] at hobject
  rw [hshape] at hskip ⊢
  obtain ⟨found, hfound, hlookup⟩ := Outline.exists_record_of_binds hnames hbinds hskip
    (fun field hfield value hvalue => by
      obtain ⟨form', hform', rfl⟩ := List.mem_map.mp hfield
      rw [← hmembers] at hvalue
      obtain ⟨form, hform, heq⟩ := List.mem_map.mp hvalue
      obtain ⟨hname, rfl⟩ := Prod.mk.inj heq
      rw [← List.inj_on_of_nodup_map hnodup hform hform' hname]
      exact hfaults form hform)
    (fun field hfield hmissing => by
      refine absurd ?_ hmissing
      rw [hkeys]
      obtain ⟨form, hform, rfl⟩ := List.mem_map.mp hfield
      exact List.mem_map_of_mem hform)
  refine ⟨found, hfound, fun form hform => (hlookup _ _).mpr ?_⟩
  rw [← hmembers]
  exact List.mem_map_of_mem (f := fun form : Field × Value => (form.1.name, form.2.outline)) hform

section Fields

variable {α : Type} {found : List (String × Outline)} {name : String} {value : Outline}
  {decode : Decoder α} {a : α}

theorem readField_eq (hfound : found.lookup name = some value) (h : decode value = .ok a) :
    readField found name decode = .ok a := by
  rw [readField, hfound]
  exact h

theorem readField?_eq (hfound : found.lookup name = some value) (h : decode value = .ok a) :
    readField? found name decode = .ok (some a) := by
  rw [readField?, hfound]
  simp only [h]
  rfl

end Fields

/-! ## Whole texts -/

/-- A text that writes a value is read as the value is. -/
theorem decodeText_of_writes {α : Type} {decode : Decoder α} {text : List Char} {value : Outline}
    (h : Writes text value) : decodeText decode text = decode value := by
  rw [decodeText, ofText_of_writes h]
  cases decode value <;> rfl

/-- A value that a decoder reads from its outline is read from its indented form. -/
theorem decodeText_pretty {α : Type} {decode : Decoder α} {value : Value} {a : α}
    (h : decode value.outline = .ok a) : decodeText decode value.pretty.toList = .ok a := by
  rw [decodeText_of_writes (writes_pretty value), h]

end SourceRepair.Json
