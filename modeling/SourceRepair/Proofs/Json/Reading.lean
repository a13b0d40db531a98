import Mathlib
import SourceRepair.Json.Outline

/-!
# What the readers of JSON text give

Each reader of a value, of the elements of an array, or of the members of an object gives what it
has read and the text that follows (`Yields`). One lemma for each form of a token says what the
reader gives on it, in terms of the readers of its parts, so that nothing else has to look into the
readers, which carry along that they move on.
-/

namespace SourceRepair.Json

/-- The reader's answer is the value, and `rest` follows it. -/
def Yields {α : Type} {text : List Char} (answer : α × Option (Shorter text)) (value : α)
    (rest : List Char) : Prop :=
  answer.1 = value ∧ answer.2.map (·.val) = some rest

@[simp] theorem map_val_map_widen {short long : List Char} (h : short.length ≤ long.length)
    (rest : Option (Shorter short)) :
    (rest.map (Shorter.widen h)).map (·.val) = rest.map (·.val) := by
  cases rest <;> rfl

/-- An answer with a rest, as the pair that it is. -/
theorem Yields.eq_some {α : Type} {text : List Char} {answer : α × Option (Shorter text)}
    {value : α} {rest : List Char} (h : Yields answer value rest) :
    ∃ r : Shorter text, answer = (value, some r) ∧ r.val = rest := by
  obtain ⟨value', rest'⟩ := answer
  obtain ⟨rfl, hrest⟩ := h
  obtain ⟨r, rfl, hr⟩ := Option.map_eq_some_iff.mp hrest
  exact ⟨r, rfl, hr⟩

section Blanks

variable {text tail rest blanks : List Char} {c : Char}

/-- Blanks in front do not matter. -/
theorem skipBlanks_append (h : ∀ c ∈ blanks, isBlank c = true) (text : List Char) :
    skipBlanks (blanks ++ text) = skipBlanks text :=
  List.dropWhile_append_of_pos h

/-- A text that starts with a token stays as it is. -/
theorem skipBlanks_cons (h : isBlank c = false) (rest : List Char) :
    skipBlanks (c :: rest) = c :: rest :=
  List.dropWhile_cons_of_neg (by simp [h])

end Blanks

section Values

variable {text tail rest : List Char}

theorem yields_readValue_array {items : Items} (htext : skipBlanks text = '[' :: tail)
    (h : Yields (readItems true tail) items rest) :
    Yields (readValue text) (.array items) rest := by
  rw [readValue.eq_def]
  split
  · rename_i hnil
    rw [htext] at hnil
    exact absurd hnil (List.cons_ne_nil _ _)
  · rename_i c tail' hcons
    obtain ⟨rfl, rfl⟩ := List.cons.inj (htext.symm.trans hcons)
    rw [if_pos rfl]
    exact ⟨congrArg Outline.array h.1, by rw [map_val_map_widen, h.2]⟩

theorem yields_readValue_object {members : Members} (htext : skipBlanks text = '{' :: tail)
    (h : Yields (readMembers true tail) members rest) :
    Yields (readValue text) (.object members) rest := by
  rw [readValue.eq_def]
  split
  · rename_i hnil
    rw [htext] at hnil
    exact absurd hnil (List.cons_ne_nil _ _)
  · rename_i c tail' hcons
    obtain ⟨rfl, rfl⟩ := List.cons.inj (htext.symm.trans hcons)
    rw [if_neg (by decide), if_pos rfl]
    exact ⟨congrArg Outline.object h.1, by rw [map_val_map_widen, h.2]⟩

theorem yields_readValue_string {value : Option (List Char)}
    (htext : skipBlanks text = '"' :: tail) (h : readString tail = .ok (value, rest)) :
    Yields (readValue text) (.text value) rest := by
  rw [readValue.eq_def]
  split
  · rename_i hnil
    rw [htext] at hnil
    exact absurd hnil (List.cons_ne_nil _ _)
  · rename_i c tail' hcons
    obtain ⟨rfl, rfl⟩ := List.cons.inj (htext.symm.trans hcons)
    rw [if_neg (by decide), if_neg (by decide), if_pos rfl, stringOutline.eq_def]
    split
    · rename_i herror
      rw [h] at herror
      exact absurd herror (by simp)
    · rename_i hok
      obtain ⟨rfl, rfl⟩ := Prod.mk.inj (Except.ok.inj (h.symm.trans hok))
      exact ⟨rfl, rfl⟩

theorem yields_readValue_word {c : Char} {word : List Char} {value : Outline}
    (hword : (c, word, value) ∈ [('n', "ull".toList, Outline.null),
      ('t', "rue".toList, .bool true), ('f', "alse".toList, .bool false)])
    (htext : skipBlanks text = c :: tail) (h : readWord word tail = .ok rest) :
    Yields (readValue text) value rest := by
  have hyields : ∀ hlt, Yields (wordOutline value word tail text hlt) value rest := by
    intro hlt
    rw [wordOutline.eq_def]
    split
    · rename_i herror
      rw [h] at herror
      exact absurd herror (by simp)
    · rename_i hok
      obtain rfl := Except.ok.inj (h.symm.trans hok)
      exact ⟨rfl, rfl⟩
  rw [readValue.eq_def]
  split
  · rename_i hnil
    rw [htext] at hnil
    exact absurd hnil (List.cons_ne_nil _ _)
  · rename_i c' tail' hcons
    obtain ⟨rfl, rfl⟩ := List.cons.inj (htext.symm.trans hcons)
    simp only [List.mem_cons, Prod.mk.injEq, List.not_mem_nil, or_false] at hword
    rcases hword with ⟨rfl, rfl, rfl⟩ | ⟨rfl, rfl, rfl⟩ | ⟨rfl, rfl, rfl⟩
    · rw [if_neg (by decide), if_neg (by decide), if_neg (by decide), if_pos rfl]
      exact hyields _
    · rw [if_neg (by decide), if_neg (by decide), if_neg (by decide), if_neg (by decide),
        if_pos rfl]
      exact hyields _
    · rw [if_neg (by decide), if_neg (by decide), if_neg (by decide), if_neg (by decide),
        if_neg (by decide), if_pos rfl]
      exact hyields _

theorem yields_numberOutline {negative : Bool} {numeral : Numeral}
    (hle : tail.length ≤ text.length) (h : readNumber negative tail = .ok (numeral, rest)) :
    Yields (numberOutline negative tail text hle) (.number numeral) rest := by
  rw [numberOutline.eq_def]
  split
  · rename_i herror
    rw [h] at herror
    exact absurd herror (by simp)
  · rename_i hok
    obtain ⟨rfl, rfl⟩ := Prod.mk.inj (Except.ok.inj (h.symm.trans hok))
    exact ⟨rfl, rfl⟩

theorem yields_readValue_negative {numeral : Numeral} (htext : skipBlanks text = '-' :: tail)
    (h : readNumber true tail = .ok (numeral, rest)) :
    Yields (readValue text) (.number numeral) rest := by
  rw [readValue.eq_def]
  split
  · rename_i hnil
    rw [htext] at hnil
    exact absurd hnil (List.cons_ne_nil _ _)
  · rename_i c tail' hcons
    obtain ⟨rfl, rfl⟩ := List.cons.inj (htext.symm.trans hcons)
    rw [if_neg (by decide), if_neg (by decide), if_neg (by decide), if_neg (by decide),
      if_neg (by decide), if_neg (by decide), if_pos rfl]
    exact yields_numberOutline _ h

theorem yields_readValue_digits {c : Char} {numeral : Numeral} (hc : Text.isDecimal c = true)
    (htext : skipBlanks text = c :: tail) (h : readNumber false (c :: tail) = .ok (numeral, rest)) :
    Yields (readValue text) (.number numeral) rest := by
  have hne : ∀ d, Text.isDecimal d = false → c ≠ d := by
    rintro d hd rfl
    rw [hc] at hd
    exact absurd hd (by decide)
  rw [readValue.eq_def]
  split
  · rename_i hnil
    rw [htext] at hnil
    exact absurd hnil (List.cons_ne_nil _ _)
  · rename_i c' tail' hcons
    obtain ⟨rfl, rfl⟩ := List.cons.inj (htext.symm.trans hcons)
    rw [if_neg (hne '[' (by decide)), if_neg (hne '{' (by decide)), if_neg (hne '"' (by decide)),
      if_neg (hne 'n' (by decide)), if_neg (hne 't' (by decide)), if_neg (hne 'f' (by decide)),
      if_neg (hne '-' (by decide)), if_pos hc]
    exact yields_numberOutline _ h

end Values

section Elements

variable {text tail rest : List Char} {first : Bool}

theorem yields_readItems_close (htext : skipBlanks text = ']' :: rest) :
    Yields (readItems first text) (.close none) rest := by
  rw [readItems.eq_def]
  split
  · rename_i hnil
    rw [htext] at hnil
    exact absurd hnil (List.cons_ne_nil _ _)
  · rename_i c tail' hcons
    obtain ⟨rfl, rfl⟩ := List.cons.inj (htext.symm.trans hcons)
    rw [if_pos rfl]
    exact ⟨rfl, rfl⟩

/-- An element and those after it. -/
theorem yields_readItem {item : Outline} {items : Items} {afterItem : List Char}
    (hle : tail.length ≤ text.length) (hitem : Yields (readValue tail) item afterItem)
    (hitems : Yields (readItems false afterItem) items rest) :
    Yields (readItem tail text hle) (.cons item items) rest := by
  obtain ⟨r, hvalue, rfl⟩ := hitem.eq_some
  rw [readItem.eq_def]
  split
  · rename_i hnone
    rw [hvalue] at hnone
    exact absurd hnone (by simp)
  · rename_i hsome
    obtain ⟨rfl, hr⟩ := Prod.mk.inj (hvalue.symm.trans hsome)
    obtain rfl := Option.some.inj hr
    exact ⟨congrArg (Items.cons item) hitems.1, by rw [map_val_map_widen, hitems.2]⟩

theorem yields_readItems_first {c : Char} {item : Outline} {items : Items} {afterItem : List Char}
    (htext : skipBlanks text = c :: tail) (hc : c ≠ ']')
    (hitem : Yields (readValue text) item afterItem)
    (hitems : Yields (readItems false afterItem) items rest) :
    Yields (readItems true text) (.cons item items) rest := by
  rw [readItems.eq_def]
  split
  · rename_i hnil
    rw [htext] at hnil
    exact absurd hnil (List.cons_ne_nil _ _)
  · rename_i c' tail' hcons
    obtain ⟨rfl, rfl⟩ := List.cons.inj (htext.symm.trans hcons)
    rw [if_neg hc, if_pos rfl]
    exact yields_readItem _ hitem hitems

theorem yields_readItems_next {c : Char} {item : Outline} {items : Items}
    {afterComma afterItem : List Char} (htext : skipBlanks text = ',' :: tail)
    (htail : skipBlanks tail = c :: afterComma) (hc : c ≠ ']')
    (hitem : Yields (readValue tail) item afterItem)
    (hitems : Yields (readItems false afterItem) items rest) :
    Yields (readItems false text) (.cons item items) rest := by
  rw [readItems.eq_def]
  split
  · rename_i hnil
    rw [htext] at hnil
    exact absurd hnil (List.cons_ne_nil _ _)
  · rename_i c' tail' hcons
    obtain ⟨rfl, rfl⟩ := List.cons.inj (htext.symm.trans hcons)
    rw [if_neg (by decide), if_neg (by decide), if_pos rfl, htail]
    simp only
    rw [if_neg hc]
    exact yields_readItem _ hitem hitems

theorem yields_readMembers_close (htext : skipBlanks text = '}' :: rest) :
    Yields (readMembers first text) (.close none) rest := by
  rw [readMembers.eq_def]
  split
  · rename_i hnil
    rw [htext] at hnil
    exact absurd hnil (List.cons_ne_nil _ _)
  · rename_i c tail' hcons
    obtain ⟨rfl, rfl⟩ := List.cons.inj (htext.symm.trans hcons)
    rw [if_pos rfl]
    exact ⟨rfl, rfl⟩

/-- A member and those after it. -/
theorem yields_readMember {key : Option (List Char)} {value : Outline} {members : Members}
    {afterKey afterColon afterValue : List Char} (hlt : tail.length < text.length)
    (hkey : readString tail = .ok (key, afterKey))
    (hcolon : skipBlanks afterKey = ':' :: afterColon)
    (hvalue : Yields (readValue afterColon) value afterValue)
    (hmembers : Yields (readMembers false afterValue) members rest) :
    Yields (readMember tail text hlt) (.cons key value members) rest := by
  obtain ⟨r, hread, rfl⟩ := hvalue.eq_some
  rw [readMember.eq_def]
  split
  · rename_i herror
    rw [hkey] at herror
    exact absurd herror (by simp)
  · rename_i key' afterKey' hok
    obtain ⟨rfl, rfl⟩ := Prod.mk.inj (Except.ok.inj (hkey.symm.trans hok))
    split
    · rename_i hnil
      rw [hcolon] at hnil
      exact absurd hnil (List.cons_ne_nil _ _)
    · rename_i c tail' hcons
      obtain ⟨rfl, rfl⟩ := List.cons.inj (hcolon.symm.trans hcons)
      rw [if_pos rfl]
      split
      · rename_i hnone
        rw [hread] at hnone
        exact absurd hnone (by simp)
      · rename_i hsome
        obtain ⟨rfl, hr⟩ := Prod.mk.inj (hread.symm.trans hsome)
        obtain rfl := Option.some.inj hr
        exact ⟨congrArg (Members.cons key value) hmembers.1,
          by rw [map_val_map_widen, hmembers.2]⟩

theorem yields_readMembers_first {members : Members}
    (htext : skipBlanks text = '"' :: tail)
    (h : ∀ hlt, Yields (readMember tail text hlt) members rest) :
    Yields (readMembers true text) members rest := by
  rw [readMembers.eq_def]
  split
  · rename_i hnil
    rw [htext] at hnil
    exact absurd hnil (List.cons_ne_nil _ _)
  · rename_i c' tail' hcons
    obtain ⟨rfl, rfl⟩ := List.cons.inj (htext.symm.trans hcons)
    rw [if_neg (by decide), if_pos rfl, if_pos rfl]
    exact h _

theorem yields_readMembers_next {members : Members} {afterQuote : List Char}
    (htext : skipBlanks text = ',' :: tail) (htail : skipBlanks tail = '"' :: afterQuote)
    (h : ∀ hlt, Yields (readMember afterQuote text hlt) members rest) :
    Yields (readMembers false text) members rest := by
  rw [readMembers.eq_def]
  split
  · rename_i hnil
    rw [htext] at hnil
    exact absurd hnil (List.cons_ne_nil _ _)
  · rename_i c' tail' hcons
    obtain ⟨rfl, rfl⟩ := List.cons.inj (htext.symm.trans hcons)
    rw [if_neg (by decide), if_neg (by decide), if_pos rfl]
    split
    · rename_i hnil
      rw [htail] at hnil
      exact absurd hnil (List.cons_ne_nil _ _)
    · rename_i d tail'' hcons'
      obtain ⟨rfl, rfl⟩ := List.cons.inj (htail.symm.trans hcons')
      rw [if_pos rfl]
      exact h _

end Elements

end SourceRepair.Json
