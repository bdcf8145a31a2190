import BoardControl.Voltage

namespace BoardControl.VoltageWindow

variable {nominal percent : UInt32}

-- How far the window reaches to each side of the nominal voltage, rounded down.
def reach (nominal percent : UInt32) : Nat := nominal.toNat * percent.toNat / 100

-- Distances are whole millivolts, so rounding the reach down loses none of them.
theorem le_reach_iff {distance : Nat} :
    distance ≤ reach nominal percent ↔ 100 * distance ≤ nominal.toNat * percent.toNat := by
  rw [reach, Nat.le_div_iff_mul_le (by decide), Nat.mul_comm]

theorem toNat_delta (hproduct : nominal.toNat * percent.toNat < UInt32.size) :
    (nominal * percent / 100).toNat = reach nominal percent := by
  rw [UInt32.toNat_div, Word.mul_eq_ok_iff.mp (Word.mul_eq_ok hproduct)]
  rfl

-- A window around a voltage holds what is no further from it than its ends.
theorem contains_iff_distance_le {window : VoltageWindow} {middle side : Nat}
    (hlow : side ≤ middle ∧ window.low.toNat = middle - side)
    (hhigh : window.high.toNat = middle + side) (millivolts : UInt32) :
    window.contains millivolts = true ↔ ((millivolts.toNat : Int) - middle).natAbs ≤ side := by
  simp only [contains, Bool.and_eq_true, decide_eq_true_eq, UInt32.le_iff_toNat_le]
  omega

theorem around_of_product_lt (hproduct : nominal.toNat * percent.toNat < UInt32.size) :
    around nominal percent = (do
      let low ← Word.sub nominal (nominal * percent / 100)
      let high ← Word.add nominal (nominal * percent / 100)
      pure ⟨low, high⟩) := by
  simp only [around, Word.mul_eq_ok hproduct, bind, Except.bind]

-- A window is the band of so many percent in exact arithmetic, and it is built
-- unless one of its three steps leaves the word. The first that does stops it.
theorem around_percentage_band (nominal percent : UInt32) :
    (nominal.toNat * percent.toNat < UInt32.size → reach nominal percent ≤ nominal.toNat →
      nominal.toNat + reach nominal percent < UInt32.size →
      ∃ window, around nominal percent = .ok window ∧
        ∀ millivolts, window.contains millivolts = true ↔
          100 * ((millivolts.toNat : Int) - nominal.toNat).natAbs ≤
            nominal.toNat * percent.toNat) ∧
    (UInt32.size ≤ nominal.toNat * percent.toNat →
      around nominal percent = .error .MulOverflow) ∧
    (nominal.toNat * percent.toNat < UInt32.size → nominal.toNat < reach nominal percent →
      around nominal percent = .error .SubOverflow) ∧
    (nominal.toNat * percent.toNat < UInt32.size → reach nominal percent ≤ nominal.toNat →
      UInt32.size ≤ nominal.toNat + reach nominal percent →
      around nominal percent = .error .AddOverflow) := by
  refine ⟨?band, ?product, ?low, ?high⟩
  case band =>
    intro hproduct hbelow habove
    have hdelta := toNat_delta hproduct
    rw [← hdelta] at hbelow habove
    have hlow := Word.sub_eq_ok hbelow
    have hhigh := Word.add_eq_ok habove
    refine ⟨⟨_, _⟩, by rw [around_of_product_lt hproduct, hlow, hhigh]; rfl, fun millivolts => ?_⟩
    rw [← le_reach_iff, ← hdelta]
    exact contains_iff_distance_le (Word.sub_eq_ok_iff.mp hlow) (Word.add_eq_ok_iff.mp hhigh) _
  case product =>
    intro hproduct
    simp only [around, Word.mul_eq_error hproduct, bind, Except.bind]
  case low =>
    intro hproduct hbelow
    rw [← toNat_delta hproduct] at hbelow
    rw [around_of_product_lt hproduct, Word.sub_eq_error hbelow]
    rfl
  case high =>
    intro hproduct hbelow habove
    rw [← toNat_delta hproduct] at hbelow habove
    rw [around_of_product_lt hproduct, Word.sub_eq_ok hbelow, Word.add_eq_error habove]
    rfl

-- Seven percent of 3333 mV are 233.31 mV, and each of the steps can leave the word.
theorem around_percentage_band_rounded :
    (∃ window, around 3333 7 = .ok window ∧ window.contains 3100 = true ∧
      window.contains 3099 = false ∧ window.contains 3566 = true ∧
      window.contains 3567 = false) ∧
    around 65536 65536 = .error .MulOverflow ∧ around 100 101 = .error .SubOverflow ∧
    around 4294967295 1 = .error .AddOverflow := by
  refine ⟨?_, (around_percentage_band 65536 65536).2.1 (by decide),
    (around_percentage_band 100 101).2.2.1 (by decide) (by decide),
    (around_percentage_band 4294967295 1).2.2.2 (by decide) (by decide) (by decide)⟩
  obtain ⟨window, hwindow, hcontains⟩ :=
    (around_percentage_band 3333 7).1 (by decide) (by decide) (by decide)
  refine ⟨window, hwindow, (hcontains _).mpr (by decide), ?_, (hcontains _).mpr (by decide), ?_⟩
  · exact Bool.eq_false_iff.mpr fun hinside => absurd ((hcontains _).mp hinside) (by decide)
  · exact Bool.eq_false_iff.mpr fun hinside => absurd ((hcontains _).mp hinside) (by decide)

end BoardControl.VoltageWindow
