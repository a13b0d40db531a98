import Mathlib
import SourceRepair.Report.Validation

/-!
# The judgement on counts

Counts are cast to signed words and subtracted as such; the casts wrap around, and the subtraction
wraps around once more (`wordDifference_toNat`). Together they do nothing where the difference fits
in a signed word, however large the counts are, and only there (`wordDifference_eq_iff`). So the
judgement on such counts is what it says (`ValidationReport.ofCounts_eq`): the run is a success
exactly when neither count has risen, and there is a complaint for each one that has.
-/

namespace SourceRepair

/-- The number of counts that a signed word holds. -/
def signedLimit : Nat := Nat.pow 2 63

theorem wordLimit_eq : (Diagnostic.wordLimit : Int) = 2 * signedLimit := rfl

/-- The difference of two words is that of the signed words that they are cast to. -/
theorem wordDifference_toNat (a b : UInt64) :
    wordDifference a.toNat b.toNat = (a.toInt64 - b.toInt64).toInt := by
  have hcast : ∀ c : UInt64, c.toInt64.toInt = Int.bmod c.toNat Diagnostic.wordLimit :=
    fun c => c.toBitVec.toInt_eq_toNat_bmod
  rw [Int64.toInt_sub, hcast, hcast]
  exact Int.sub_bmod _ _ _

/-- The difference of two counts wraps around unless a signed word holds it. -/
theorem wordDifference_eq_iff {a b : Nat} : wordDifference a b = (a : Int) - b ↔
    -(signedLimit : Int) ≤ (a : Int) - b ∧ (a : Int) - b < signedLimit := by
  have hlimit := wordLimit_eq
  constructor
  · intro h
    have hlow := @Int.le_bmod ((a : Int) - b) Diagnostic.wordLimit (by decide)
    have hhigh := @Int.bmod_lt ((a : Int) - b) Diagnostic.wordLimit (by decide)
    rw [wordDifference] at h
    omega
  · rintro ⟨hlow, hhigh⟩
    exact Int.bmod_eq_of_le (by omega) (by omega)

/-- Counts that are near each other are subtracted without wrapping around. -/
theorem wordDifference_eq_of_near {a b : Nat} (h : |(a : Int) - b| < signedLimit) :
    wordDifference a b = (a : Int) - b := by
  obtain ⟨hlow, hhigh⟩ := abs_lt.mp h
  exact wordDifference_eq_iff.mpr ⟨hlow.le, hhigh⟩

/-- Counts that fit in signed words are near each other. -/
theorem near_of_lt {a b : Nat} (ha : a < signedLimit) (hb : b < signedLimit) :
    |(a : Int) - b| < signedLimit := by
  rw [abs_lt]
  omega

namespace ValidationReport

/-- The report on counts whose differences fit in a signed word. -/
theorem ofCounts_eq (code : String) {beforeTarget afterTarget beforeTotal afterTotal : Nat}
    (htarget : |(beforeTarget : Int) - afterTarget| < signedLimit)
    (htotal : |(beforeTotal : Int) - afterTotal| < signedLimit) :
    ofCounts code beforeTarget afterTarget beforeTotal afterTotal =
      { targetCode := code, beforeTarget, afterTarget, beforeTotal, afterTotal
        netImprovement := (beforeTarget : Int) - afterTarget
        success := decide (afterTarget ≤ beforeTarget ∧ afterTotal ≤ beforeTotal)
        failures :=
          (if beforeTarget < afterTarget then [rise code beforeTarget afterTarget] else [])
          ++ if beforeTotal < afterTotal then [rise "total" beforeTotal afterTotal] else [] } := by
  have hreduction := wordDifference_eq_of_near htarget
  have hgrowth := wordDifference_eq_of_near (abs_sub_comm (beforeTotal : Int) _ ▸ htotal)
  have hfewer : (beforeTarget : Int) - afterTarget < 0 ↔ beforeTarget < afterTarget := by omega
  have hmore : 0 < (afterTotal : Int) - beforeTotal ↔ beforeTotal < afterTotal := by omega
  simp only [ofCounts, hreduction, hgrowth, hfewer, hmore]
  congr 1
  rw [Bool.eq_iff_iff, decide_eq_true_iff, List.isEmpty_iff, List.append_eq_nil_iff]
  simp only [ite_eq_right_iff, List.cons_ne_nil, imp_false, Nat.not_lt]

/-- The judgement on counts that fit in a signed word. -/
theorem ofCounts_success (code : String) {beforeTarget afterTarget beforeTotal afterTotal : Nat}
    (hbeforeTarget : beforeTarget < signedLimit) (hafterTarget : afterTarget < signedLimit)
    (hbeforeTotal : beforeTotal < signedLimit) (hafterTotal : afterTotal < signedLimit) :
    (ofCounts code beforeTarget afterTarget beforeTotal afterTotal).success = true ↔
      afterTarget ≤ beforeTarget ∧ afterTotal ≤ beforeTotal := by
  rw [ofCounts_eq code (near_of_lt hbeforeTarget hafterTarget)
    (near_of_lt hbeforeTotal hafterTotal), decide_eq_true_iff]

/-- The report on counts of 64 bits that are near each other, also where the casts of one or both of
them are negative: the signed words' difference is the difference of the counts, the run is a
success if neither count has risen, and each that has is complained of, the target code first. -/
theorem ofCounts_toNat_of_near (code : String)
    (beforeTarget afterTarget beforeTotal afterTotal : UInt64)
    (htarget : |(beforeTarget.toNat : Int) - afterTarget.toNat| < 2 ^ 63)
    (htotal : |(beforeTotal.toNat : Int) - afterTotal.toNat| < 2 ^ 63) :
    let report := ofCounts code beforeTarget.toNat afterTarget.toNat beforeTotal.toNat
      afterTotal.toNat
    report.netImprovement = (beforeTarget.toInt64 - afterTarget.toInt64).toInt ∧
      report.netImprovement = (beforeTarget.toNat : Int) - afterTarget.toNat ∧
      (report.success = true ↔ afterTarget ≤ beforeTarget ∧ afterTotal ≤ beforeTotal) ∧
      report.failures =
        (if beforeTarget < afterTarget then [rise code beforeTarget.toNat afterTarget.toNat]
          else [])
        ++ if beforeTotal < afterTotal then [rise "total" beforeTotal.toNat afterTotal.toNat]
          else [] := by
  intro report
  have hreport : report = _ := ofCounts_eq code htarget htotal
  refine ⟨wordDifference_toNat beforeTarget afterTarget, ?_, ?_, ?_⟩
  · rw [hreport]
  · rw [hreport, decide_eq_true_iff, UInt64.le_iff_toNat_le, UInt64.le_iff_toNat_le]
  · simp only [hreport, UInt64.lt_iff_toNat_lt]

/-- The target count goes down across the border of the signed words, from a count whose cast is
negative to one whose cast is positive, and the total goes up among counts whose casts are all
negative: the improvement is still the difference, and the total alone is complained of. -/
theorem ofCounts_toNat_of_near_border :
    let beforeTarget : UInt64 := 9223372036854775810
    let afterTarget : UInt64 := 9223372036854775805
    let beforeTotal : UInt64 := 18446744073709551606
    let afterTotal : UInt64 := 18446744073709551613
    |(beforeTarget.toNat : Int) - afterTarget.toNat| < 2 ^ 63 ∧
      |(beforeTotal.toNat : Int) - afterTotal.toNat| < 2 ^ 63 ∧
      beforeTarget.toInt64.toInt = -9223372036854775806 ∧
      afterTarget.toInt64.toInt = 9223372036854775805 ∧
      let report := ofCounts "TS1005" beforeTarget.toNat afterTarget.toNat beforeTotal.toNat
        afterTotal.toNat
      report.netImprovement = 5 ∧ report.success = false ∧
        report.failures = [rise "total" 18446744073709551606 18446744073709551613] := by
  intro beforeTarget afterTarget beforeTotal afterTotal
  have htarget : |(beforeTarget.toNat : Int) - afterTarget.toNat| < 2 ^ 63 := by decide
  have htotal : |(beforeTotal.toNat : Int) - afterTotal.toNat| < 2 ^ 63 := by decide
  obtain ⟨-, hnet, hsuccess, hfailures⟩ :=
    ofCounts_toNat_of_near "TS1005" beforeTarget afterTarget beforeTotal afterTotal htarget htotal
  refine ⟨htarget, htotal, by decide, by decide, hnet.trans (by decide), ?_,
    hfailures.trans (by decide)⟩
  rw [← Bool.not_eq_true, hsuccess]
  decide

end ValidationReport

end SourceRepair
