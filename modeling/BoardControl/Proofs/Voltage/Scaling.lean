import BoardControl.Voltage.Sampling
import Mathlib

namespace BoardControl.Voltage

-- Samples are added up in a word that has room for their sum.
theorem toNat_foldl_add (samples : List UInt16) (total : UInt32)
    (hfits : total.toNat + (samples.map UInt16.toNat).sum < UInt32.size) :
    (samples.foldl (fun total sample => total + sample.toUInt32) total).toNat =
      total.toNat + (samples.map UInt16.toNat).sum := by
  induction samples generalizing total with
  | nil => simp
  | cons sample rest ih =>
      rw [List.map_cons, List.sum_cons, ← Nat.add_assoc] at hfits ⊢
      have hnext : (total + sample.toUInt32).toNat = total.toNat + sample.toNat := by
        rw [UInt32.toNat_add, UInt16.toNat_toUInt32]
        exact Nat.mod_eq_of_lt (Nat.lt_of_le_of_lt (Nat.le_add_right _ _) hfits)
      rw [List.foldl_cons, ih _ (by rwa [hnext]), hnext]

namespace Divider

variable {divider : Divider} {pin : UInt32}

-- The rail voltage in exact arithmetic, rounded down once.
def railVoltage (divider : Divider) (pin : Nat) : Nat :=
  pin * (divider.top.toNat + divider.bottom.toNat) / divider.bottom.toNat

theorem add_resistors (hsum : divider.top.toNat + divider.bottom.toNat < UInt32.size) :
    Word.add divider.top divider.bottom = .ok (divider.top + divider.bottom) ∧
      (divider.top + divider.bottom).toNat = divider.top.toNat + divider.bottom.toNat :=
  have hadd := Word.add_eq_ok hsum
  ⟨hadd, Word.add_eq_ok_iff.mp hadd⟩

theorem railMillivolts_of_product_lt (hbottom : 0 < divider.bottom.toNat)
    (hsum : divider.top.toNat + divider.bottom.toNat < UInt32.size)
    (hproduct : pin.toNat * (divider.top.toNat + divider.bottom.toNat) < UInt32.size) :
    ∃ rail, divider.railMillivolts pin = .ok rail ∧ rail.toNat = divider.railVoltage pin.toNat := by
  obtain ⟨hadd, hboth⟩ := add_resistors hsum
  rw [← hboth] at hproduct
  have hmul := Word.mul_eq_ok hproduct
  have hnonzero : divider.bottom ≠ 0 := fun hzero => by
    rw [hzero] at hbottom
    exact absurd hbottom (by decide)
  refine ⟨pin * (divider.top + divider.bottom) / divider.bottom, ?_, ?_⟩
  · simp only [railMillivolts, hadd, hmul, bind, Except.bind, Word.div, if_neg hnonzero]
  · rw [UInt32.toNat_div, Word.mul_eq_ok_iff.mp hmul, hboth, railVoltage]

theorem railMillivolts_of_le_product
    (hsum : divider.top.toNat + divider.bottom.toNat < UInt32.size)
    (hproduct : UInt32.size ≤ pin.toNat * (divider.top.toNat + divider.bottom.toNat)) :
    divider.railMillivolts pin = .error .MulOverflow := by
  obtain ⟨hadd, hboth⟩ := add_resistors hsum
  rw [← hboth] at hproduct
  simp only [railMillivolts, hadd, Word.mul_eq_error hproduct, bind, Except.bind]

end Divider

namespace Sampling

variable (samples : Vector UInt16 oversampling)

-- The voltage at the pin in exact arithmetic: the mean of the samples, rounded
-- down, on the scale of the reference, rounded down again.
def pinVoltage : Nat := (samples.toList.map UInt16.toNat).sum / 8 * 3300 / 4095

theorem sum_le : (samples.toList.map UInt16.toNat).sum ≤ 8 * 65535 := by
  have hbound : ∀ number ∈ samples.toList.map UInt16.toNat, number ≤ 65535 := by
    intro number hnumber
    obtain ⟨sample, _, rfl⟩ := List.mem_map.mp hnumber
    exact Nat.le_of_lt_succ sample.toNat_lt_size
  have hlength : samples.toList.length = 8 := samples.length_toList
  have hsum := List.sum_le_card_nsmul _ _ hbound
  rwa [List.length_map, hlength, smul_eq_mul] at hsum

theorem toNat_sum : (sum samples).toNat = (samples.toList.map UInt16.toNat).sum := by
  have hle := sum_le samples
  have hzero : (0 : UInt32).toNat = 0 := rfl
  have hsize : UInt32.size = 4294967296 := rfl
  rw [sum, ← Vector.foldl_toList, toNat_foldl_add _ _ (by omega), hzero, Nat.zero_add]

theorem toNat_average :
    (average samples).toNat = (samples.toList.map UInt16.toNat).sum / 8 := by
  have hle := sum_le samples
  have hcount : oversampling.toUInt32.toNat = 8 := rfl
  rw [average, UInt32.toNat_toUInt16, UInt32.toNat_div, toNat_sum, hcount]
  exact Nat.mod_eq_of_lt (by omega)

-- Up to the voltage at the pin every step fits, also for samples of 16 bits.
theorem millivolts_eq (divider : Divider) :
    ∃ pin, millivolts divider samples = divider.railMillivolts pin ∧
      pin.toNat = pinVoltage samples := by
  have hle := sum_le samples
  have hsize : UInt32.size = 4294967296 := rfl
  have hreference : reference.toNat = 3300 := rfl
  have hfull : fullScale.toNat = 4095 := rfl
  have haverage : (average samples).toUInt32.toNat =
      (samples.toList.map UInt16.toNat).sum / 8 := by
    rw [UInt16.toNat_toUInt32, toNat_average]
  have hmul := Word.mul_eq_ok (a := (average samples).toUInt32) (b := reference)
    (by rw [haverage, hreference]; omega)
  refine ⟨(average samples).toUInt32 * reference / fullScale, ?_, ?_⟩
  · simp only [millivolts, hmul, bind, Except.bind]
  · rw [UInt32.toNat_div, Word.mul_eq_ok_iff.mp hmul, haverage, hreference, hfull, pinVoltage]

-- A measurement gives the rail voltage exactly if the product before the last
-- division fits a word. If it does not fit, the measurement stops there, however
-- small the quotient is.
theorem measured_iff_product_fits (divider : Divider) (hbottom : 0 < divider.bottom.toNat)
    (hsum : divider.top.toNat + divider.bottom.toNat < UInt32.size) :
    ((∃ rail, millivolts divider samples = .ok rail ∧
        rail.toNat = divider.railVoltage (pinVoltage samples)) ↔
      pinVoltage samples * (divider.top.toNat + divider.bottom.toNat) < UInt32.size) ∧
    (millivolts divider samples = .error .MulOverflow ↔
      UInt32.size ≤ pinVoltage samples * (divider.top.toNat + divider.bottom.toNat)) := by
  obtain ⟨pin, hmillivolts, hpin⟩ := millivolts_eq samples divider
  rw [hmillivolts, ← hpin]
  by_cases hfits : pin.toNat * (divider.top.toNat + divider.bottom.toNat) < UInt32.size
  · obtain ⟨rail, hrail, hexact⟩ := Divider.railMillivolts_of_product_lt hbottom hsum hfits
    have hmeasured : divider.railMillivolts pin ≠ .error .MulOverflow := by
      rw [hrail]
      intro hfault
      cases hfault
    exact ⟨iff_of_true ⟨rail, hrail, hexact⟩ hfits,
      iff_of_false hmeasured (Nat.not_le.mpr hfits)⟩
  · have hover := Nat.le_of_not_lt hfits
    have hstops := Divider.railMillivolts_of_le_product hsum hover
    refine ⟨iff_of_false ?_ hfits, iff_of_true hstops hover⟩
    intro hmeasured
    obtain ⟨rail, hrail, _⟩ := hmeasured
    cases hstops.symm.trans hrail

-- The largest sum of resistors over which a full-scale reading still fits.
theorem measured_iff_product_fits_largest :
    let divider : Divider := ⟨1300505, 1000⟩
    let samples : Vector UInt16 oversampling := Vector.replicate oversampling 4095
    0 < divider.bottom.toNat ∧ divider.top.toNat + divider.bottom.toNat < UInt32.size ∧
      pinVoltage samples * (divider.top.toNat + divider.bottom.toNat) < UInt32.size ∧
      ∃ rail, millivolts divider samples = .ok rail ∧ rail.toNat = 4294966 := by
  have hfits := measured_iff_product_fits (Vector.replicate oversampling 4095) ⟨1300505, 1000⟩
    (by decide) (by decide)
  exact ⟨by decide, by decide, by decide, hfits.1.mpr (by decide)⟩

-- A rail of ten volts behind one megohm is not measured at all.
theorem rail_in_range_not_measured :
    let divider : Divider := ⟨1000000, 470000⟩
    let samples : Vector UInt16 oversampling := Vector.replicate oversampling 4095
    0 < divider.bottom.toNat ∧ divider.top.toNat + divider.bottom.toNat < UInt32.size ∧
      (∀ sample ∈ samples.toList, sample.toNat < 4096) ∧
      divider.railVoltage (pinVoltage samples) = 10321 ∧
      millivolts divider samples = .error .MulOverflow := by
  refine ⟨by decide, by decide, fun sample hsample => ?_, by decide, by decide⟩
  rw [Vector.toList_replicate] at hsample
  rw [List.eq_of_mem_replicate hsample]
  decide

end Sampling

end BoardControl.Voltage
