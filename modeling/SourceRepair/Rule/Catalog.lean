import SourceRepair.Rule.Basic

/-!
# Rule catalogs

A catalog holds the rules to try for each diagnostic code: first the universal ones, then those
registered for the code, each in the order of registration.
-/

namespace SourceRepair

/-- Universal rules, and rules registered for one code each, in the order of registration. -/
structure Catalog where
  universal : List Rule
  registered : List (String × Rule)

namespace Catalog

/-- The catalog without rules. -/
def empty : Catalog :=
  ⟨[], []⟩

/-- Registers a rule for one code. -/
def insert (catalog : Catalog) (code : String) (rule : Rule) : Catalog :=
  { catalog with registered := catalog.registered ++ [(code, rule)] }

/-- Registers a rule for every code. -/
def insertUniversal (catalog : Catalog) (rule : Rule) : Catalog :=
  { catalog with universal := catalog.universal ++ [rule] }

/-- The rules registered for `code` alone. -/
def specific (catalog : Catalog) (code : String) : List Rule :=
  (catalog.registered.filter (·.1 == code)).map (·.2)

/-- The rules to try for `code`, in order. -/
def rulesFor (catalog : Catalog) (code : String) : List Rule :=
  catalog.universal ++ catalog.specific code

/-- The codes that have rules of their own, in increasing order. -/
def codes (catalog : Catalog) : List String :=
  ((catalog.registered.map (·.1)).mergeSort (· ≤ ·)).eraseReps

/-- The first rule of each name. -/
def firstOfEachName (rules : List Rule) : List Rule :=
  rules.foldl (fun kept rule =>
    if kept.any (·.name == rule.name) then kept else kept ++ [rule]) []

/-- Every rule once by name, the universal ones first and then code by code. -/
def allRules (catalog : Catalog) : List Rule :=
  firstOfEachName (catalog.universal ++ catalog.codes.flatMap catalog.specific)

/-- The rules that a scan without a compiler uses. -/
def staticRules (catalog : Catalog) : List Rule :=
  catalog.allRules.filter (·.isStatic)

/-- The first of all rules that has the given name. -/
def find? (catalog : Catalog) (name : String) : Option Rule :=
  catalog.allRules.find? (·.name == name)

/-- Every rule with the code it is listed under: `*` for a universal one. -/
def listing (catalog : Catalog) : List (String × Rule) :=
  catalog.universal.map ("*", ·)
    ++ catalog.codes.flatMap fun code => (catalog.specific code).map (code, ·)

end Catalog

end SourceRepair
