import Mathlib.Data.List.Forall2
import Mathlib.Data.List.Nodup
import SourceRepair.Json.Decode

/-!
# What decoders accept

A decoder gives a value on exactly the outlines that are of its form: strings, whole numbers in a
range, arrays of such values. A record is read from an outline that binds its fields
(`Outline.Binds`): an object whose members with the fields' names are all different, among any
others, or an array of the fields in their order. `binds_of_record` and `exists_record_of_binds` say
that nothing else is, and that each field is found with the value it is bound to.
-/

namespace SourceRepair.Json

/-! ## Elements and members -/

/-- Elements one after the other, up to the bracket. -/
def Items.ofList : List Outline → Items
  | [] => .close none
  | item :: more => .cons item (.ofList more)

/-- Members one after the other, up to the brace. -/
def Members.ofList : List (String × Outline) → Members
  | [] => .close none
  | (key, value) :: more => .cons (some key.toList) value (.ofList more)

theorem Items.ofList_inj {items items' : List Outline} (h : Items.ofList items = .ofList items') :
    items = items' := by
  induction items generalizing items' with
  | nil =>
    cases items' with
    | nil => rfl
    | cons _ _ => exact nomatch h
  | cons item more ih =>
    cases items' with
    | nil => exact nomatch h
    | cons _ _ =>
      obtain ⟨rfl, hmore⟩ := Items.cons.inj h
      rw [ih hmore]

theorem Members.ofList_inj {members members' : List (String × Outline)}
    (h : Members.ofList members = .ofList members') : members = members' := by
  induction members generalizing members' with
  | nil =>
    cases members' with
    | nil => rfl
    | cons _ _ => exact nomatch h
  | cons member more ih =>
    cases members' with
    | nil => exact nomatch h
    | cons member' _ =>
      obtain ⟨hkey, hvalue, hmore⟩ := Members.cons.inj h
      have hname := String.toList_inj.mp (Option.some.inj hkey)
      rw [ih hmore, Prod.ext hname hvalue]

/-! ## Single values -/

/-- The outline of a string. -/
def Outline.IsText (outline : Outline) (value : String) : Prop :=
  outline = .text (some value.toList)

/-- The outline of a whole number below the limit. -/
structure Outline.IsNat (limit : Nat) (outline : Outline) (n : Nat) : Prop where
  lt : n < limit
  number : ∃ numeral : Numeral, outline = .number numeral ∧ numeral.int? = some (n : Int)

section Results

variable {ε α β : Type}

theorem bind_eq_ok_iff {x : Except ε α} {f : α → Except ε β} {b : β} :
    x >>= f = .ok b ↔ ∃ a, x = .ok a ∧ f a = .ok b := by
  cases x with
  | error e => exact ⟨fun h => (nomatch h), fun ⟨_, h, _⟩ => (nomatch h)⟩
  | ok a =>
    refine ⟨fun h => ⟨a, rfl, h⟩, ?_⟩
    rintro ⟨_, ha, h⟩
    obtain rfl := Except.ok.inj ha
    exact h

theorem map_eq_ok_iff {x : Except ε α} {f : α → β} {b : β} :
    x.map f = .ok b ↔ ∃ a, x = .ok a ∧ f a = b := by
  cases x <;> simp [Except.map]

end Results

/-- The elements of an array are read one by one. -/
theorem Items.decode_eq_ok_iff {α : Type} {decode : Decoder α} {items : Items} {values : List α} :
    items.decode decode = .ok values ↔
      ∃ list, items = .ofList list ∧
        List.Forall₂ (fun value item => decode item = .ok value) values list := by
  constructor
  · intro h
    fun_induction Items.decode decode items generalizing values with
    | case1 =>
      obtain rfl := Except.ok.inj h
      exact ⟨[], rfl, .nil⟩
    | case2 stop => exact nomatch h
    | case3 item rest ih =>
      obtain ⟨value, hvalue, h⟩ := bind_eq_ok_iff.mp h
      obtain ⟨more, hmore, h⟩ := bind_eq_ok_iff.mp h
      obtain rfl := Except.ok.inj h
      obtain ⟨list, rfl, hlist⟩ := ih hmore
      exact ⟨item :: list, rfl, .cons hvalue hlist⟩
  · rintro ⟨list, rfl, hlist⟩
    induction hlist with
    | nil => rfl
    | cons hvalue _ ih =>
      rw [Items.ofList, Items.decode, hvalue, ih]
      rfl

section Pairing

variable {α β : Type} {R S : α → β → Prop} {l : List α} {l' : List β}

/-- What lists are paired by only matters on their elements. -/
theorem forall₂_congr (h : ∀ b ∈ l', ∀ a, R a b ↔ S a b) :
    List.Forall₂ R l l' ↔ List.Forall₂ S l l' := by
  rw [List.forall₂_iff_zip, List.forall₂_iff_zip]
  refine and_congr_right fun _ => ⟨fun hR a b hmem => ?_, fun hS a b hmem => ?_⟩
  · exact (h b (List.of_mem_zip hmem).2 a).mp (hR hmem)
  · exact (h b (List.of_mem_zip hmem).2 a).mpr (hS hmem)

/-- In paired lists, each element has its partner. -/
theorem exists_of_forall₂_of_mem (h : List.Forall₂ R l l') {b : β} (hmem : b ∈ l') :
    ∃ a, R a b := by
  induction h with
  | nil => exact absurd hmem List.not_mem_nil
  | cons hfirst _ ih =>
    rcases List.mem_cons.mp hmem with rfl | hmem
    · exact ⟨_, hfirst⟩
    · exact ih hmem

end Pairing

namespace Decoder

variable {outline : Outline}

theorem string_eq_ok_iff {value : String} :
    string outline = .ok value ↔ outline.IsText value := by
  unfold Outline.IsText
  constructor
  · intro h
    unfold string at h
    split at h
    · rw [← Except.ok.inj h, String.toList_ofList]
    · exact nomatch h
  · rintro rfl
    rw [string, String.ofList_toList]

theorem nat_eq_ok_iff {limit n : Nat} : nat limit outline = .ok n ↔ outline.IsNat limit n := by
  rw [nat, map_eq_ok_iff]
  constructor
  · rintro ⟨value, hint, rfl⟩
    unfold int at hint
    split at hint
    case h_2 => exact nomatch hint
    case h_1 numeral =>
    split at hint
    case h_2 => exact nomatch hint
    case h_1 hnumeral =>
    split at hint
    case isFalse => exact nomatch hint
    case isTrue hrange =>
    obtain rfl := Except.ok.inj hint
    have hvalue := Int.toNat_of_nonneg hrange.1
    exact ⟨by omega, numeral, rfl, by rw [hnumeral, hvalue]⟩
  · rintro ⟨hlt, numeral, rfl, hint⟩
    refine ⟨n, ?_, Int.toNat_natCast n⟩
    simp only [int, hint]
    exact if_pos ⟨by omega, by omega⟩

/-- What is `null` is no string, -/
theorem string_null_ne (value : String) : string .null ≠ .ok value :=
  fun h => (nomatch h)

/-- and no number. -/
theorem nat_null_ne (limit n : Nat) : nat limit .null ≠ .ok n :=
  fun h => (nomatch h)

theorem string_reads : (fun outline value => string outline = .ok value) = Outline.IsText :=
  funext₂ fun _ _ => propext string_eq_ok_iff

theorem nat_reads (limit : Nat) :
    (fun outline n => nat limit outline = .ok n) = Outline.IsNat limit :=
  funext₂ fun _ _ => propext nat_eq_ok_iff

variable {α : Type} {decode : Decoder α}

theorem nullable_eq_ok_iff {value : Option α} :
    nullable decode outline = .ok value ↔
      outline = .null ∧ value = none ∨
        outline ≠ .null ∧ ∃ a, decode outline = .ok a ∧ some a = value := by
  cases outline with
  | null => simp [nullable, eq_comm]
  | _ => simp [nullable, map_eq_ok_iff]

/-- A value that may be `null` is read if it is `null` or of the form. -/
theorem exists_nullable_eq_ok (h : outline = .null ∨ ∃ a, decode outline = .ok a) :
    ∃ a?, nullable decode outline = .ok a? := by
  by_cases hnull : outline = .null
  · exact ⟨none, nullable_eq_ok_iff.mpr (.inl ⟨hnull, rfl⟩)⟩
  · obtain ⟨a, ha⟩ := h.resolve_left hnull
    exact ⟨some a, nullable_eq_ok_iff.mpr (.inr ⟨hnull, a, ha, rfl⟩)⟩

/-- An array is read element by element. -/
theorem list_eq_ok_iff {values : List α} :
    list decode outline = .ok values ↔
      ∃ items, outline = .array (.ofList items) ∧
        List.Forall₂ (fun value item => decode item = .ok value) values items := by
  constructor
  · intro h
    unfold list at h
    split at h
    · obtain ⟨items, rfl, hitems⟩ := Items.decode_eq_ok_iff.mp h
      exact ⟨items, rfl, hitems⟩
    · exact nomatch h
  · rintro ⟨items, rfl, hitems⟩
    exact Items.decode_eq_ok_iff.mpr ⟨items, rfl, hitems⟩

end Decoder

/-! ## Records -/

/-- How an outline gives values to the fields of a record. In an object, the members with these
names do, of which there is one each at most, and all others are unknown; in an array, the elements
do in the order of the fields. -/
inductive Outline.Binds (names : List String) : Outline → List (String × Outline) → Prop where
  | object {members : List (String × Outline)}
      (hnodup : ((members.filter (·.1 ∈ names)).map (·.1)).Nodup) :
      Binds names (.object (.ofList members)) (members.filter (·.1 ∈ names))
  | array {items : List Outline} (hlength : items.length ≤ names.length) :
      Binds names (.array (.ofList items)) (names.zip items)

/-- The field has a value of the form. -/
def HasField {α : Type} (form : Outline → α → Prop) (bound : List (String × Outline))
    (name : String) (a : α) : Prop :=
  ∃ value, (name, value) ∈ bound ∧ form value a

/-- The field has a value of the form, or none: it is missing or `null`. -/
def HasOption {α : Type} (form : Outline → α → Prop) (bound : List (String × Outline))
    (name : String) : Option α → Prop
  | none => ∀ value, (name, value) ∈ bound → value = .null
  | some a => HasField form bound name a

section Binding

variable {names : List String} {outline : Outline} {bound bound' : List (String × Outline)}
  {fields : List Field}

theorem Outline.Binds.unique (h : outline.Binds names bound) (h' : outline.Binds names bound') :
    bound = bound' := by
  cases h with
  | object _ =>
    generalize hobject : Outline.object _ = outline at h'
    cases h' with
    | object _ => rw [Members.ofList_inj (Outline.object.inj hobject)]
    | array _ => exact nomatch hobject
  | array _ =>
    generalize harray : Outline.array _ = outline at h'
    cases h' with
    | object _ => exact nomatch harray
    | array _ => rw [Items.ofList_inj (Outline.array.inj harray)]

/-- Of two lists side by side, the first is seen as far as the second goes. -/
theorem map_fst_zip_eq_take {α β : Type} (l : List α) (l' : List β) :
    (l.zip l').map (·.1) = l.take l'.length := by
  rw [List.zip_eq_zip_take_min, List.map_fst_zip (by simp), Nat.min_comm, ← List.take_take,
    List.take_length]

/-- No field is bound twice. -/
theorem Outline.Binds.nodup (h : outline.Binds names bound) (hnames : names.Nodup) :
    (bound.map (·.1)).Nodup := by
  cases h with
  | object hnodup => exact hnodup
  | array _ =>
    rw [map_fst_zip_eq_take]
    exact hnames.sublist (List.take_sublist _ _)

/-- If the last field of an array is bound, all are. -/
theorem Outline.Binds.exists_object_or_forall_mem {front : List String} {last : String}
    (h : outline.Binds (front ++ [last]) bound) (hnames : (front ++ [last]).Nodup)
    (hlast : last ∈ bound.map (·.1)) :
    (∃ members, outline = .object members) ∨ ∀ name ∈ front ++ [last], name ∈ bound.map (·.1) := by
  cases h with
  | object _ => exact .inl ⟨_, rfl⟩
  | @array items _ =>
    right
    rw [map_fst_zip_eq_take] at hlast ⊢
    have hlong : front.length < items.length := by
      by_contra hshort
      rw [List.take_append_of_le_length (Nat.not_lt.mp hshort)] at hlast
      exact (List.nodup_append.mp hnames).2.2 last (List.mem_of_mem_take hlast) last (by simp) rfl
    rw [List.take_of_length_le (by rwa [List.length_append])]
    exact fun name hname => hname

/-- Each name is found with its value, if no name occurs twice. -/
theorem lookup_eq_some_iff_mem {α : Type} {pairs : List (String × α)}
    (hnodup : (pairs.map (·.1)).Nodup) {key : String} {a : α} :
    pairs.lookup key = some a ↔ (key, a) ∈ pairs := by
  constructor
  · intro h
    obtain ⟨front, back, rfl, -⟩ := List.lookup_eq_some_iff.mp h
    exact List.mem_append_right _ List.mem_cons_self
  · intro h
    induction pairs with
    | nil => exact absurd h List.not_mem_nil
    | cons pair more ih =>
      obtain ⟨hfirst, hmore⟩ := List.nodup_cons.mp hnodup
      rcases List.mem_cons.mp h with rfl | h
      · exact List.lookup_cons_self
      · have hne : (key == pair.1) = false := by
          rw [beq_eq_false_iff_ne]
          exact fun heq => hfirst (List.mem_map.mpr ⟨(key, a), h, heq⟩)
        rw [List.lookup_cons, hne]
        exact ih hmore h

end Binding

section Collecting

variable {fields : List Field} {found found' : List (String × Outline)}

theorem find?_field_eq_none_iff {name : String} :
    fields.find? (·.name == name) = none ↔ name ∉ fields.map (·.name) := by
  simp [List.find?_eq_none]

/-- Of fields with different names, each is found by its name. -/
theorem find?_field (hnames : (fields.map (·.name)).Nodup) {field : Field}
    (hmem : field ∈ fields) : fields.find? (·.name == field.name) = some field := by
  induction fields with
  | nil => exact absurd hmem List.not_mem_nil
  | cons first more ih =>
    obtain ⟨hfirst, hmore⟩ := List.nodup_cons.mp hnames
    rcases List.mem_cons.mp hmem with rfl | hmem
    · exact List.find?_cons_of_pos (by simp)
    · have hne : first.name ≠ field.name := fun heq =>
        hfirst (List.mem_map.mpr ⟨field, hmem, heq.symm⟩)
      rw [List.find?_cons_of_neg (by simpa using hne), ih hmore hmem]

/-- If the members of an object are collected, the known ones are found, and none of them is there
twice. -/
theorem Members.exists_of_collect {members : Members} (hfound : (found.map (·.1)).Nodup)
    (h : members.collect fields found = .ok found') :
    ∃ list, members = .ofList list ∧ (found'.map (·.1)).Nodup ∧
      found' = (list.filter (·.1 ∈ fields.map (·.name))).reverse ++ found := by
  fun_induction Members.collect fields found members with
  | case1 found hall =>
    obtain rfl := Except.ok.inj h
    exact ⟨[], rfl, hfound, rfl⟩
  | case2 => exact nomatch h
  | case3 => exact nomatch h
  | case4 => exact nomatch h
  | case5 => exact nomatch h
  | case6 found key value rest name hunknown hskip ih =>
    obtain ⟨list, rfl, hnodup, hlist⟩ := ih hfound h
    refine ⟨(name, value) :: list, ?_, hnodup, ?_⟩
    · rw [Members.ofList, String.toList_ofList]
    · rw [List.filter_cons_of_neg, hlist]
      simpa using find?_field_eq_none_iff.mp hunknown
  | case7 => exact nomatch h
  | case8 => exact nomatch h
  | case9 found key value rest name field hfield hnew hfault ih =>
    have hfresh : name ∉ found.map (·.1) := by simpa using hnew
    obtain ⟨list, rfl, hnodup, hlist⟩ := ih (List.nodup_cons.mpr ⟨hfresh, hfound⟩) h
    refine ⟨(name, value) :: list, ?_, hnodup, ?_⟩
    · rw [Members.ofList, String.toList_ofList]
    · have hknown : name ∈ fields.map (·.name) := by
        by_contra hunknown
        rw [find?_field_eq_none_iff.mpr hunknown] at hfield
        exact nomatch hfield
      rw [List.filter_cons_of_pos (by simpa using hknown), hlist]
      simp

/-- If the elements of an array are collected, they are found in the order of the fields. -/
theorem Items.exists_of_collect {items : Items} (h : items.collect fields = .ok found) :
    ∃ list, items = .ofList list ∧ list.length ≤ fields.length ∧
      found = (fields.map (·.name)).zip list := by
  fun_induction Items.collect fields items generalizing found with
  | case1 =>
    obtain rfl := Except.ok.inj h
    exact ⟨[], rfl, Nat.le_refl 0, rfl⟩
  | case2 => exact nomatch h
  | case3 => exact nomatch h
  | case4 =>
    obtain rfl := Except.ok.inj h
    exact ⟨[], rfl, Nat.zero_le _, by simp⟩
  | case5 => exact nomatch h
  | case6 => exact nomatch h
  | case7 => exact nomatch h
  | case8 field fields item rest hfault ih =>
    obtain ⟨more, hmore, h⟩ := bind_eq_ok_iff.mp h
    obtain rfl := Except.ok.inj h
    obtain ⟨list, rfl, hlength, rfl⟩ := ih hmore
    exact ⟨item :: list, rfl, Nat.succ_le_succ hlength, rfl⟩

/-- A record is read only from an outline that binds its fields, and each field is found with the
value that it is bound to. -/
theorem Outline.binds_of_record {outline : Outline} (hnames : (fields.map (·.name)).Nodup)
    (h : outline.record fields = .ok found) :
    ∃ bound, outline.Binds (fields.map (·.name)) bound ∧
      ∀ name value, found.lookup name = some value ↔ (name, value) ∈ bound := by
  cases outline with
  | object members =>
    have hempty : (([] : List (String × Outline)).map (·.1)).Nodup := List.nodup_nil
    obtain ⟨list, rfl, hnodup, rfl⟩ := Members.exists_of_collect hempty h
    refine ⟨_, .object ?_, fun name value => ?_⟩
    · rwa [List.append_nil, List.map_reverse, List.nodup_reverse] at hnodup
    · rw [lookup_eq_some_iff_mem hnodup, List.append_nil, List.mem_reverse]
  | array items =>
    obtain ⟨list, rfl, hlength, rfl⟩ := Items.exists_of_collect h
    have hbinds : (Outline.array (.ofList list)).Binds (fields.map (·.name)) _ :=
      .array (by simpa using hlength)
    exact ⟨_, hbinds, fun name value => lookup_eq_some_iff_mem (hbinds.nodup hnames)⟩
  | _ => exact nomatch h

/-- Members are collected if those with the name of a field are of its form, no two have the same
name, and no required field is missing. -/
theorem Members.collect_ofList (hnames : (fields.map (·.name)).Nodup)
    (members : List (String × Outline)) (found : List (String × Outline))
    (hskip : (Members.ofList members).skipFault? = none)
    (hfaults : ∀ field ∈ fields, ∀ value, (field.name, value) ∈ members →
      field.fault? value = none)
    (hnodup : ((members.filter (·.1 ∈ fields.map (·.name))).reverse.map (·.1)
      ++ found.map (·.1)).Nodup)
    (hrequired : ∀ field ∈ fields, field.presence = .required →
      field.name ∈ members.map (·.1) ∨ field.name ∈ found.map (·.1)) :
    (Members.ofList members).collect fields found
      = .ok ((members.filter (·.1 ∈ fields.map (·.name))).reverse ++ found) := by
  induction members generalizing found with
  | nil =>
    have hall : (fields.all fun field => field.presence != .required
        || found.any (·.1 == field.name)) = true := by
      refine List.all_eq_true.mpr fun field hfield => ?_
      by_cases hpresence : field.presence = .required
      · have hmem := (hrequired field hfield hpresence).resolve_left List.not_mem_nil
        simpa [hpresence] using hmem
      · simp [hpresence]
    rw [Members.ofList, Members.collect, if_pos hall]
    rfl
  | cons member more ih =>
    obtain ⟨key, value⟩ := member
    rw [Members.ofList, Members.skipFault?, Option.or_eq_none_iff] at hskip
    have hfaults' : ∀ field ∈ fields, ∀ value, (field.name, value) ∈ more →
        field.fault? value = none :=
      fun field hfield value hmem => hfaults field hfield value (List.mem_cons_of_mem _ hmem)
    rw [Members.ofList, Members.collect]
    simp only [String.ofList_toList]
    by_cases hknown : key ∈ fields.map (·.name)
    · obtain ⟨field, hfield, rfl⟩ := List.mem_map.mp hknown
      rw [List.filter_cons_of_pos (by simpa using hknown)] at hnodup ⊢
      have hfresh : (found.any (·.1 == field.name)) = false := by
        simp only [List.reverse_cons, List.map_append, List.map_cons, List.map_nil,
          List.append_assoc, List.singleton_append] at hnodup
        have hnew := (List.nodup_cons.mp (List.nodup_append.mp hnodup).2.1).1
        refine Bool.eq_false_iff.mpr fun hany => hnew ?_
        obtain ⟨pair, hpair, heq⟩ := List.any_eq_true.mp hany
        exact List.mem_map.mpr ⟨pair, hpair, beq_iff_eq.mp heq⟩
      rw [find?_field hnames hfield]
      simp only
      rw [if_neg (by simp [hfresh]), hfaults field hfield value List.mem_cons_self]
      simp only
      rw [ih _ hskip.2 hfaults']
      · simp
      · simpa using hnodup
      · intro field' hfield' hpresence
        rcases hrequired field' hfield' hpresence with h | h
        · rcases List.mem_cons.mp h with heq | h
          · right
            rw [heq]
            exact List.mem_cons_self
          · exact .inl h
        · exact .inr (List.mem_cons_of_mem _ h)
    · rw [List.filter_cons_of_neg (by simpa using hknown)] at hnodup ⊢
      rw [find?_field_eq_none_iff.mpr hknown]
      simp only [hskip.1]
      refine ih found hskip.2 hfaults' hnodup fun field hfield hpresence => ?_
      rcases hrequired field hfield hpresence with h | h
      · refine .inl ((List.mem_cons.mp h).resolve_left fun heq => hknown ?_)
        exact List.mem_map.mpr ⟨field, hfield, heq⟩
      · exact .inr h

/-- Elements are collected if each is of the form of its field, and only fields with a default are
left. -/
theorem Items.collect_ofList (items : List Outline) (hlength : items.length ≤ fields.length)
    (hfaults : ∀ pair ∈ fields.zip items, pair.1.fault? pair.2 = none)
    (hdefaulted : ∀ field ∈ fields.drop items.length, field.presence = .defaulted) :
    (Items.ofList items).collect fields = .ok ((fields.map (·.name)).zip items) := by
  induction items generalizing fields with
  | nil =>
    cases fields with
    | nil => rfl
    | cons field more =>
      have hall : ((field :: more).all (·.presence == .defaulted)) = true :=
        List.all_eq_true.mpr fun field hfield => beq_iff_eq.mpr (hdefaulted field hfield)
      rw [Items.ofList, Items.collect, if_pos hall, List.zip_nil_right]
  | cons item more ih =>
    cases fields with
    | nil => exact absurd hlength (Nat.not_succ_le_zero _)
    | cons field fields =>
      obtain ⟨hfault, hfaults⟩ := List.forall_mem_cons.mp hfaults
      rw [Items.ofList, Items.collect, hfault]
      simp only
      rw [ih (Nat.le_of_succ_le_succ hlength) hfaults hdefaulted]
      rfl

/-- Whether a field may be missing from an outline. -/
def Field.MayMiss (field : Field) (outline : Outline) : Prop :=
  field.presence = .defaulted ∨ field.presence = .optional ∧ ∃ members, outline = .object members

/-- A record is read from an outline that binds its fields to values of their forms, if no field is
missing that may not be. -/
theorem Outline.exists_record_of_binds {outline : Outline} {bound : List (String × Outline)}
    (hnames : (fields.map (·.name)).Nodup) (hbinds : outline.Binds (fields.map (·.name)) bound)
    (hskip : outline.skipFault? = none)
    (hfaults : ∀ field ∈ fields, ∀ value, (field.name, value) ∈ bound → field.fault? value = none)
    (hmissing : ∀ field ∈ fields, field.name ∉ bound.map (·.1) → field.MayMiss outline) :
    ∃ found, outline.record fields = .ok found ∧
      ∀ name value, found.lookup name = some value ↔ (name, value) ∈ bound := by
  cases hbinds with
  | @object members hnodup =>
    have hcollect := Members.collect_ofList hnames members [] hskip
      (fun field hfield value hmem => hfaults field hfield value
        (List.mem_filter.mpr ⟨hmem, by simpa using ⟨field, hfield, rfl⟩⟩))
      (by rwa [List.map_nil, List.append_nil, List.map_reverse, List.nodup_reverse])
      (fun field hfield hpresence => by
        left
        by_contra habsent
        have hnotbound : field.name ∉ (members.filter (·.1 ∈ fields.map (·.name))).map (·.1) :=
          fun hmem => habsent ((List.filter_sublist.map _).subset hmem)
        rcases hmissing field hfield hnotbound with h | ⟨h, -⟩
        · exact nomatch hpresence.symm.trans h
        · exact nomatch hpresence.symm.trans h)
    refine ⟨_, hcollect, fun name value => ?_⟩
    rw [lookup_eq_some_iff_mem, List.append_nil, List.mem_reverse]
    rwa [List.append_nil, List.map_reverse, List.nodup_reverse]
  | @array items hlength =>
    have hbound := map_fst_zip_eq_take (fields.map (·.name)) items
    rw [List.length_map] at hlength
    have hcollect := Items.collect_ofList items hlength
      (fun pair hpair => hfaults pair.1 (List.of_mem_zip hpair).1 pair.2 (by
        rw [List.zip_map_left]
        exact List.mem_map.mpr ⟨pair, hpair, rfl⟩))
      (fun field hfield => by
        have hnotbound : field.name ∉ ((fields.map (·.name)).zip items).map (·.1) := by
          rw [hbound]
          refine fun hmem => List.disjoint_take_drop hnames (Nat.le_refl items.length) hmem ?_
          rw [← List.map_drop]
          exact List.mem_map_of_mem hfield
        rcases hmissing field (List.mem_of_mem_drop hfield) hnotbound with h | ⟨-, _, hobject⟩
        · exact h
        · exact nomatch hobject)
    refine ⟨_, hcollect, fun name value => lookup_eq_some_iff_mem ?_⟩
    rw [hbound]
    exact hnames.sublist (List.take_sublist _ _)

end Collecting

/-! ## Fields -/

/-- Whoever skips a row of elements skips each of them. -/
theorem Items.skipFault?_ofList {items : List Outline}
    (h : (Items.ofList items).skipFault? = none) : ∀ item ∈ items, item.skipFault? = none := by
  induction items with
  | nil => exact fun item hitem => absurd hitem List.not_mem_nil
  | cons first more ih =>
    rw [Items.ofList, Items.skipFault?, Option.or_eq_none_iff] at h
    exact List.forall_mem_cons.mpr ⟨h.1, ih h.2⟩

/-- Whoever skips members skips the value of each of them. -/
theorem Members.skipFault?_ofList {members : List (String × Outline)}
    (h : (Members.ofList members).skipFault? = none) :
    ∀ member ∈ members, member.2.skipFault? = none := by
  induction members with
  | nil => exact fun member hmember => absurd hmember List.not_mem_nil
  | cons first more ih =>
    rw [Members.ofList, Members.skipFault?, Option.or_eq_none_iff] at h
    exact List.forall_mem_cons.mpr ⟨h.1, ih h.2⟩

section Reading

variable {α : Type} {names : List String} {outline : Outline}
  {bound found : List (String × Outline)} {decode : Decoder α} {name : String}

/-- Whoever skips a record skips the value of each field. -/
theorem Outline.Binds.skipFault?_eq_none (h : outline.Binds names bound)
    (hskip : outline.skipFault? = none) {value : Outline} (hmem : (name, value) ∈ bound) :
    value.skipFault? = none := by
  cases h with
  | object _ => exact Members.skipFault?_ofList hskip (name, value) (List.mem_filter.mp hmem).1
  | array _ => exact Items.skipFault?_ofList hskip value (List.of_mem_zip hmem).2

/-- The value that a field is bound to is of its form. -/
theorem HasField.form_of_mem {form : Outline → α → Prop} (hnodup : (bound.map (·.1)).Nodup) {a : α}
    (h : HasField form bound name a) {value : Outline} (hmem : (name, value) ∈ bound) :
    form value a := by
  obtain ⟨value', hmem', ha⟩ := h
  have heq := ((lookup_eq_some_iff_mem hnodup).mpr hmem).symm.trans
    ((lookup_eq_some_iff_mem hnodup).mpr hmem')
  rwa [Option.some.inj heq]

/-- The value that a field is bound to is of its form or `null`. -/
theorem HasOption.form_of_mem {form : Outline → α → Prop} (hnodup : (bound.map (·.1)).Nodup)
    {a? : Option α} (h : HasOption form bound name a?) {value : Outline}
    (hmem : (name, value) ∈ bound) : value = .null ∨ ∃ a, form value a := by
  cases a? with
  | none => exact .inl (h value hmem)
  | some a => exact .inr ⟨a, HasField.form_of_mem hnodup h hmem⟩

/-- A field has a value if it is there and of its form. -/
theorem exists_hasField {form : Outline → α → Prop} (hpresent : ∃ value, (name, value) ∈ bound)
    (h : ∀ value, (name, value) ∈ bound → ∃ a, form value a) : ∃ a, HasField form bound name a := by
  obtain ⟨value, hmem⟩ := hpresent
  obtain ⟨a, ha⟩ := h value hmem
  exact ⟨a, value, hmem, ha⟩

/-- A field that may be missing or `null` has a value or none if it is of its form. -/
theorem exists_hasOption {form : Outline → α → Prop}
    (h : ∀ value, (name, value) ∈ bound → value = .null ∨ ∃ a, form value a) :
    ∃ a?, HasOption form bound name a? := by
  by_cases hvalue : ∃ value a, (name, value) ∈ bound ∧ form value a
  · obtain ⟨value, a, hmem, ha⟩ := hvalue
    exact ⟨some a, value, hmem, ha⟩
  · refine ⟨none, fun value hmem => (h value hmem).resolve_right ?_⟩
    rintro ⟨a, ha⟩
    exact hvalue ⟨value, a, hmem, ha⟩

/-- A decoder finds no fault with the value of a field if it reads the value. -/
theorem Field.fault?_of_eq_none_iff {presence : Presence} :
    (Field.of name presence decode).fault? outline = none ↔ ∃ a, decode outline = .ok a := by
  rw [Field.of]
  simp only
  split
  · rename_i a ha
    exact ⟨fun _ => ⟨a, ha⟩, fun _ => rfl⟩
  · rename_i fault hfault
    refine ⟨fun h => (nomatch h), ?_⟩
    rintro ⟨a, ha⟩
    exact nomatch hfault.symm.trans ha

/-- A field is read from the value that it is bound to. -/
theorem readField_eq_ok_iff
    (hfound : ∀ name value, found.lookup name = some value ↔ (name, value) ∈ bound) {a : α} :
    readField found name decode = .ok a ↔
      HasField (fun value a => decode value = .ok a) bound name a := by
  unfold readField HasField
  split
  · rename_i hnone
    refine ⟨fun h => (nomatch h), ?_⟩
    rintro ⟨value, hmem, -⟩
    exact nomatch hnone.symm.trans ((hfound name value).mpr hmem)
  · rename_i value hsome
    refine ⟨fun h => ⟨value, (hfound name value).mp hsome, h⟩, ?_⟩
    rintro ⟨value', hmem, h⟩
    obtain rfl := Option.some.inj (hsome.symm.trans ((hfound name value').mpr hmem))
    exact h

/-- A field that may be missing is read from the value that it is bound to, if there is one. -/
theorem readField?_eq_ok_iff
    (hfound : ∀ name value, found.lookup name = some value ↔ (name, value) ∈ bound)
    {a? : Option α} :
    readField? found name decode = .ok a? ↔
      a? = none ∧ (∀ value, (name, value) ∉ bound) ∨
        ∃ a, a? = some a ∧ HasField (fun value a => decode value = .ok a) bound name a := by
  unfold readField? HasField
  split
  · rename_i hnone
    have habsent : ∀ value, (name, value) ∉ bound := fun value hmem =>
      nomatch hnone.symm.trans ((hfound name value).mpr hmem)
    refine ⟨fun h => .inl ⟨(Except.ok.inj h).symm, habsent⟩, ?_⟩
    rintro (⟨rfl, -⟩ | ⟨_, _, value, hmem, -⟩)
    · rfl
    · exact absurd hmem (habsent value)
  · rename_i value hsome
    have hmem := (hfound name value).mp hsome
    rw [map_eq_ok_iff]
    constructor
    · rintro ⟨a, ha, rfl⟩
      exact .inr ⟨a, rfl, value, hmem, ha⟩
    · rintro (⟨_, habsent⟩ | ⟨a, rfl, value', hmem', ha⟩)
      · exact absurd hmem (habsent value)
      · obtain rfl := Option.some.inj (hsome.symm.trans ((hfound name value').mpr hmem'))
        exact ⟨a, ha, rfl⟩

/-- A field that may be missing or `null` is read from the value that it is bound to, if that is
not `null`. -/
theorem readField?_nullable_eq_ok_iff
    (hfound : ∀ name value, found.lookup name = some value ↔ (name, value) ∈ bound)
    (hnull : ∀ a, decode .null ≠ .ok a) {a? : Option α} :
    (∃ r, readField? found name (.nullable decode) = .ok r ∧ r.join = a?) ↔
      HasOption (fun value a => decode value = .ok a) bound name a? := by
  have hunique : ∀ {value value'}, (name, value) ∈ bound → (name, value') ∈ bound →
      value = value' := fun hmem hmem' =>
    Option.some.inj (((hfound _ _).mpr hmem).symm.trans ((hfound _ _).mpr hmem'))
  constructor
  · rintro ⟨r, h, rfl⟩
    rcases (readField?_eq_ok_iff hfound).mp h with ⟨rfl, habsent⟩ | ⟨r, rfl, value, hmem, hvalue⟩
    · exact fun value hmem => absurd hmem (habsent value)
    · rcases Decoder.nullable_eq_ok_iff.mp hvalue with ⟨rfl, rfl⟩ | ⟨_, a, ha, rfl⟩
      · exact fun value' hmem' => hunique hmem' hmem
      · exact ⟨value, hmem, ha⟩
  · intro h
    by_cases hbound : ∃ value, (name, value) ∈ bound
    · obtain ⟨value, hmem⟩ := hbound
      have hread : ∃ r, Decoder.nullable decode value = .ok r ∧ r = a? := by
        cases a? with
        | none =>
          rw [h value hmem]
          exact ⟨none, rfl, rfl⟩
        | some a =>
          obtain ⟨value', hmem', ha⟩ := h
          obtain rfl := hunique hmem hmem'
          have hne : value ≠ .null := fun heq => hnull a (heq ▸ ha)
          exact ⟨_, Decoder.nullable_eq_ok_iff.mpr (.inr ⟨hne, a, ha, rfl⟩), rfl⟩
      obtain ⟨r, hr, rfl⟩ := hread
      exact ⟨some r, (readField?_eq_ok_iff hfound).mpr (.inr ⟨r, rfl, value, hmem, hr⟩), rfl⟩
    · have habsent : ∀ value, (name, value) ∉ bound := fun value hmem => hbound ⟨value, hmem⟩
      refine ⟨none, (readField?_eq_ok_iff hfound).mpr (.inl ⟨rfl, habsent⟩), ?_⟩
      cases a? with
      | none => rfl
      | some a =>
        obtain ⟨value, hmem, -⟩ := h
        exact absurd hmem (habsent value)

end Reading

end SourceRepair.Json
