import BoardControl.Ticks.Clock
import Mathlib

namespace BoardControl.Ticks.Clock

inductive Call where
  | Count
  | Restart
deriving DecidableEq, Repr

-- The tick counter while the microsecond clock under it stands at an instant.
def seenAt (instant : UInt64) (clock : Clock) : Clock := { clock with micros := instant }

section

variable {clock : Clock} {instant : UInt64}

@[simp] theorem micros_seenAt : (clock.seenAt instant).micros = instant := rfl

@[simp] theorem origin_seenAt : (clock.seenAt instant).origin = clock.origin := rfl

theorem ticks_seenAt (h : clock.origin ≤ instant) :
    ∃ since, (clock.seenAt instant).ticks = .ok since ∧
      since.toNat = (instant.toNat - clock.origin.toNat) / 100 := by
  obtain ⟨passed, hsub, hpassed⟩ := Word.exists_subLong h
  refine ⟨passed / microsPerTick, ?_, ?_⟩
  · simp only [ticks, micros_seenAt, origin_seenAt, hsub, bind, Except.bind, pure, Except.pure]
  · rw [UInt64.toNat_div, hpassed]
    rfl

theorem count_of_ticks {since : UInt64} (h : clock.ticks = .ok since) :
    ∃ count, clock.count = .ok count ∧ count.toNat = since.toNat % UInt32.size := by
  refine ⟨since.toUInt32, ?_, UInt64.toNat_toUInt32 since⟩
  simp only [count, h, bind, Except.bind, pure, Except.pure]

-- The origin goes to the last instant at which a tick was complete.
theorem restart_seenAt (h : clock.origin ≤ instant) :
    ∃ restarted, (clock.seenAt instant).restart = .ok restarted ∧
      restarted.origin.toNat =
        clock.origin.toNat + (instant.toNat - clock.origin.toNat) / 100 * 100 := by
  obtain ⟨since, hticks, hsince⟩ := ticks_seenAt h
  have hpast := UInt64.le_iff_toNat_le.mp h
  have hbound := instant.toNat_lt_size
  have hmicros : microsPerTick.toNat = 100 := rfl
  have hmulfits : since.toNat * microsPerTick.toNat < UInt64.size := by
    rw [hsince, hmicros]
    omega
  obtain ⟨whole, hmul, hwhole⟩ := Word.exists_mulLong hmulfits
  rw [hsince, hmicros] at hwhole
  have haddfits : clock.origin.toNat + whole.toNat < UInt64.size := by
    rw [hwhole]
    omega
  obtain ⟨origin, hadd, horigin⟩ := Word.exists_addLong haddfits
  refine ⟨⟨instant, origin⟩, ?_, by rw [horigin, hwhole]⟩
  simp only [restart, hticks, hmul, micros_seenAt, origin_seenAt, hadd, bind, Except.bind, pure,
    Except.pure]

end

-- A tick counter, and by how many microseconds each of its restarts so far has
-- moved the origin.
structure Tally where
  clock : Clock
  moves : List Nat := []
deriving DecidableEq, Repr

namespace Tally

-- One call at its instant. Only a count has an answer.
def serve (tally : Tally) : UInt64 × Call → Except Fault (Option UInt32 × Tally)
  | (instant, .Count) => do
      let clock := tally.clock.seenAt instant
      pure (some (← clock.count), { tally with clock })
  | (instant, .Restart) => do
      let clock ← (tally.clock.seenAt instant).restart
      pure (none, ⟨clock, tally.moves ++ [clock.origin.toNat - tally.clock.origin.toNat]⟩)

def follow (calls : List (UInt64 × Call)) (tally : Tally) : Except Fault Tally :=
  calls.foldlM (fun tally call => Prod.snd <$> tally.serve call) tally

-- The whole ticks by which the restarts so far have moved the origin.
def moved (tally : Tally) : Nat := (tally.moves.map (· / 100)).sum

-- The restarts have moved the origin from the instant of the creation, each by whole
-- ticks, and not past the present instant.
structure Kept (created instant : UInt64) (tally : Tally) : Prop where
  origin : tally.clock.origin.toNat = created.toNat + tally.moves.sum
  whole : ∀ move ∈ tally.moves, 100 ∣ move
  reached : tally.clock.origin ≤ instant

namespace Kept

variable {created instant next : UInt64} {tally : Tally}

theorem at_start (created : UInt64) : Kept created created ⟨start created, []⟩ where
  origin := rfl
  whole := List.forall_mem_nil _
  reached := UInt64.le_refl _

theorem later (h : tally.Kept created instant) (hnext : instant ≤ next) :
    tally.Kept created next :=
  ⟨h.origin, h.whole, UInt64.le_trans h.reached hnext⟩

theorem serve_count (h : tally.Kept created instant) :
    ∃ count counted, tally.serve (instant, .Count) = .ok (some count, counted) ∧
      counted.Kept created instant ∧
      count.toNat = (instant.toNat - tally.clock.origin.toNat) / 100 % UInt32.size := by
  obtain ⟨since, hticks, hsince⟩ := ticks_seenAt h.reached
  obtain ⟨count, hcount, hshown⟩ := count_of_ticks hticks
  refine ⟨count, { tally with clock := tally.clock.seenAt instant }, ?_,
    ⟨h.origin, h.whole, h.reached⟩, by rw [hshown, hsince]⟩
  simp only [serve, hcount, bind, Except.bind, pure, Except.pure]

-- A restart leaves less than one tick between the origin and its instant.
theorem serve_restart (h : tally.Kept created instant) :
    ∃ restarted, tally.serve (instant, .Restart) = .ok (none, restarted) ∧
      restarted.Kept created instant ∧
      (instant.toNat - restarted.clock.origin.toNat) / 100 = 0 := by
  obtain ⟨clock, hrestart, horigin⟩ := restart_seenAt h.reached
  have hreached := UInt64.le_iff_toNat_le.mp h.reached
  have hmove : clock.origin.toNat - tally.clock.origin.toNat =
      (instant.toNat - tally.clock.origin.toNat) / 100 * 100 := by omega
  refine ⟨⟨clock, tally.moves ++ [clock.origin.toNat - tally.clock.origin.toNat]⟩, ?_,
    ⟨?_, ?_, ?_⟩, ?_⟩
  · simp only [serve, hrestart, bind, Except.bind, pure, Except.pure]
  · rw [List.sum_append, List.sum_singleton, hmove, horigin, h.origin, Nat.add_assoc]
  · intro move hmem
    rcases List.mem_append.mp hmem with hmem | hmem
    · exact h.whole move hmem
    · rw [List.mem_singleton.mp hmem, hmove]
      exact Nat.dvd_mul_left _ _
  · rw [UInt64.le_iff_toNat_le, horigin]
    omega
  · rw [horigin]
    omega

theorem serve (h : tally.Kept created instant) (call : Call) :
    ∃ answer after, tally.serve (instant, call) = .ok (answer, after) ∧
      after.Kept created instant := by
  cases call with
  | Count =>
      obtain ⟨count, counted, hserve, hkept, -⟩ := h.serve_count
      exact ⟨_, _, hserve, hkept⟩
  | Restart =>
      obtain ⟨restarted, hserve, hkept, -⟩ := h.serve_restart
      exact ⟨_, _, hserve, hkept⟩

-- The tally is kept at the instant of the call before, and no call is earlier.
theorem follow (h : tally.Kept created instant) {calls : List (UInt64 × Call)}
    (hordered : (instant :: calls.map Prod.fst ++ [next]).Pairwise (· ≤ ·)) :
    ∃ after, tally.follow calls = .ok after ∧ after.Kept created next := by
  induction calls generalizing tally instant with
  | nil => exact ⟨tally, rfl, h.later (List.rel_of_pairwise_cons hordered (by simp))⟩
  | cons call rest ih =>
      obtain ⟨hfirst, hrest⟩ := List.pairwise_cons.mp hordered
      obtain ⟨_, middle, hserve, hmiddle⟩ := (h.later (hfirst call.1 (by simp))).serve call.2
      obtain ⟨after, hfollow, hafter⟩ := ih hmiddle hrest
      refine ⟨after, ?_, hafter⟩
      rw [Tally.follow, List.foldlM_cons, hserve]
      exact hfollow

theorem moved_mul (h : tally.Kept created instant) : tally.moved * 100 = tally.moves.sum := by
  have hwhole : tally.moves.map (fun move => move / 100 * 100) = tally.moves := by
    rw [List.map_congr_left fun move hmove => Nat.div_mul_cancel (h.whole move hmove), List.map_id']
  rw [moved, ← List.sum_map_mul_right, hwhole]

-- The origin has moved by whole ticks, so the two quotients lose the same remainder.
theorem moved_add (h : tally.Kept created instant) :
    tally.moved + (instant.toNat - tally.clock.origin.toNat) / 100 =
      (instant.toNat - created.toNat) / 100 := by
  have horigin := h.origin
  have hreached := UInt64.le_iff_toNat_le.mp h.reached
  have hpassed : instant.toNat - created.toNat =
      100 * tally.moved + (instant.toNat - tally.clock.origin.toNat) := by
    rw [Nat.mul_comm, h.moved_mul]
    omega
  rw [hpassed, Nat.mul_add_div (by decide)]

end Kept

end Tally

-- Restarts lose no part of a tick: at every instant after any calls, the ticks that
-- the origin was moved by and the ticks since the origin are together the whole
-- ticks since the creation. A count shows the second summand, which is zero after a
-- restart.
theorem ticks_kept_across_restarts (created now : UInt64) (calls : List (UInt64 × Call))
    (hordered : (created :: calls.map Prod.fst ++ [now]).Pairwise (· ≤ ·)) :
    ∃ tally since, Tally.follow calls ⟨start created, []⟩ = .ok tally ∧
      (tally.clock.seenAt now).ticks = .ok since ∧
      (∀ move ∈ tally.moves, 100 ∣ move) ∧
      tally.clock.origin.toNat = created.toNat + tally.moves.sum ∧
      tally.moved + since.toNat = (now.toNat - created.toNat) / 100 ∧
      (∃ count counted, tally.serve (now, .Count) = .ok (some count, counted) ∧
        count.toNat = since.toNat % UInt32.size) ∧
      ∃ restarted counted, tally.serve (now, .Restart) = .ok (none, restarted) ∧
        restarted.serve (now, .Count) = .ok (some 0, counted) := by
  obtain ⟨tally, hfollow, hkept⟩ := (Tally.Kept.at_start created).follow hordered
  obtain ⟨since, hticks, hsince⟩ := ticks_seenAt hkept.reached
  obtain ⟨count, counted, hcount, -, hshown⟩ := hkept.serve_count
  obtain ⟨restarted, hrestart, hagain, hpart⟩ := hkept.serve_restart
  obtain ⟨zero, recounted, hrecount, -, hzero⟩ := hagain.serve_count
  have hnone : zero = 0 := by
    rw [hpart] at hzero
    exact UInt32.toNat_inj.mp hzero
  rw [hnone] at hrecount
  refine ⟨tally, since, hfollow, hticks, hkept.whole, hkept.origin, ?_,
    ⟨count, counted, hcount, ?_⟩, restarted, recounted, hrestart, hrecount⟩
  · rw [hsince, hkept.moved_add]
  · rw [hshown, hsince]

-- Both restarts come in the middle of a tick, 99 and 98 microseconds after it began.
def restartsMidTick : List (UInt64 × Call) :=
  [(1149, .Count), (1349, .Restart), (1748, .Restart), (1748, .Count)]

theorem ticks_kept_across_restarts_mid_tick :
    (1050 :: restartsMidTick.map Prod.fst ++ [2049]).Pairwise (· ≤ ·) ∧
    ∃ tally since, Tally.follow restartsMidTick ⟨start 1050, []⟩ = .ok tally ∧
      tally.moves = [200, 400] ∧ (tally.clock.seenAt 2049).ticks = .ok since ∧
      since.toNat = 3 ∧ tally.moved + since.toNat = 9 := by
  have hrun : Tally.follow restartsMidTick ⟨start 1050, []⟩ =
      .ok ⟨⟨1748, 1650⟩, [200, 400]⟩ := rfl
  obtain ⟨tally, since, hfollow, hticks, -, -, htotal, -⟩ :=
    ticks_kept_across_restarts 1050 2049 restartsMidTick (by decide)
  obtain rfl : tally = ⟨⟨1748, 1650⟩, [200, 400]⟩ := Except.ok.inj (hfollow.symm.trans hrun)
  have hmoved : Tally.moved ⟨⟨1748, 1650⟩, [200, 400]⟩ = 6 := rfl
  refine ⟨by decide, _, since, hfollow, rfl, hticks, ?_, htotal⟩
  rw [hmoved] at htotal
  exact Nat.add_left_cancel htotal

end BoardControl.Ticks.Clock
