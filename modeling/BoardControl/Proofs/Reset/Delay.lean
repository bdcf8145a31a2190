import BoardControl.Bench.Board
import BoardControl.Reset.Line

namespace BoardControl.ResetLine

inductive LineCall where
  | Hold
  | Release
  | Ask
deriving DecidableEq, Repr

-- Any board with a free-running counter that shows the low 32 bits of the tick.
structure Dial (σ : Type) where
  board : σ
  tick : Nat

namespace Dial

variable {σ π δ : Type}

def lift {α : Type} (act : Action σ α) : Action (Dial σ) α := fun dial =>
  let (value, board) := act dial.board
  (value, { dial with board })

instance : TickCounter (Dial σ) where
  count dial := (dial.tick.toUInt32, dial)
  sleep ticks dial := ((), { dial with tick := dial.tick + ticks.toNat })
  restart dial := ((), { dial with tick := 0 })

instance [Logger σ] : Logger (Dial σ) where
  enabled severity dial := Logger.enabled severity dial.board
  record severity text dial := { dial with board := Logger.record severity text dial.board }

instance [OutputPin σ π] : OutputPin (Dial σ) π where
  write pin level := lift (OutputPin.write pin level)

instance [InputPin σ δ] : InputPin (Dial σ) δ where
  read pin := lift (InputPin.read pin)

@[simp] theorem count_value (dial : Dial σ) :
    (TickCounter.count dial).1 = dial.tick.toUInt32 := rfl

@[simp] theorem tick_log [Logger σ] (severity : Severity) (text : String) (dial : Dial σ) :
    (log severity text dial).2.tick = dial.tick := by
  simp only [log, Logger.record]
  split <;> rfl

@[simp] theorem tick_drive [OutputPin σ π] (polarity : Polarity) (pin : π) (asserted : Bool)
    (dial : Dial σ) : (polarity.drive pin asserted dial).2.tick = dial.tick := rfl

end Dial

section

variable {σ π δ : Type} [Logger σ] [OutputPin σ π] [InputPin σ δ]

def serve (line : ResetLine π δ) : LineCall → Action (Dial σ) (ResetLine π δ)
  | .Hold => line.hold
  | .Release => line.release
  | .Ask => do pure (← line.isReady).2

-- A line after the calls that were made on it, each at its own tick.
def follow (calls : List (Nat × LineCall)) (line : ResetLine π δ) : Action σ (ResetLine π δ) :=
  calls.foldlM (fun line call board =>
    let (line, dial) := line.serve call.2 ⟨board, call.1⟩
    (line, dial.board)) line

-- Whether the line calls itself ready at a tick, after these calls.
def answersAfter (line : ResetLine π δ) (board : σ) (calls : List (Nat × LineCall))
    (tick : Nat) : Bool :=
  let (line, board) := line.follow calls board
  (line.isReady (⟨board, tick⟩ : Dial σ)).1.1

end

-- The latest command came at that tick, and nothing but questions came after it.
def LatestCommand (command : LineCall) (tick : Nat) (calls : List (Nat × LineCall)) : Prop :=
  command ≠ .Ask ∧ ∃ earlier later, calls = earlier ++ (tick, command) :: later ∧
    ∀ call ∈ later, call.2 = .Ask

-- What the answers to the question for readiness at a tick, after some calls, have
-- to be like. Only `ready_iff` asks for ticks that never go back, and for a question
-- less than one turn of the counter after the release.
structure KeepsDelay (delay : UInt16) (answers : List (Nat × LineCall) → Nat → Bool) : Prop where
  ready_iff : ∀ calls tick, (calls.map Prod.fst ++ [tick]).Pairwise (· ≤ ·) →
    (∀ released, LatestCommand .Release released calls → tick < released + UInt32.size) →
    (answers calls tick = true ↔
      ∃ released, LatestCommand .Release released calls ∧ released + delay.toNat < tick)
  latched : ∀ calls tick asks later, answers calls tick = true →
    (∀ call ∈ asks, call.2 = .Ask) → answers (calls ++ (tick, .Ask) :: asks) later = true
  afresh : ∀ earlier released rest tick, answers (earlier ++ (released, .Release) :: rest) tick =
    answers ((released, .Release) :: rest) tick
  held_once : ∀ earlier holds held rest tick, holds ≠ [] → (∀ call ∈ holds, call.2 = .Hold) →
    answers (earlier ++ holds ++ rest) tick = answers (earlier ++ (held, .Hold) :: rest) tick

-- What a delayed line remembers: the counter at its release, and whether a question
-- has found the delay over.
structure Countdown where
  start : Option UInt32 := none
  done : Bool := false
deriving DecidableEq, Repr

namespace Countdown

def passed (delay : UInt16) (tick : Nat) (countdown : Countdown) : Bool :=
  countdown.start.any fun start => delay.toUInt32 < Ticks.elapsed start tick.toUInt32

def ready (delay : UInt16) (tick : Nat) (countdown : Countdown) : Bool :=
  countdown.done || countdown.passed delay tick

def next (delay : UInt16) (countdown : Countdown) : Nat × LineCall → Countdown
  | (_, .Hold) => {}
  | (tick, .Release) => { start := some tick.toUInt32 }
  | (tick, .Ask) => { countdown with done := countdown.ready delay tick }

def readiness {δ : Type} (delay : UInt16) (countdown : Countdown) : Readiness δ :=
  .Delay delay countdown.start countdown.done

variable {delay : UInt16} {countdown : Countdown}

-- Questions do not move the release, and one that finds the delay over is enough.
theorem foldl_asks {asks : List (Nat × LineCall)} (hasks : ∀ call ∈ asks, call.2 = .Ask) :
    asks.foldl (next delay) countdown = { countdown with
      done := countdown.done || asks.any fun call => countdown.passed delay call.1 } := by
  induction asks generalizing countdown with
  | nil => simp
  | cons call rest ih =>
      obtain ⟨tick, command⟩ := call
      obtain rfl : command = .Ask := hasks _ List.mem_cons_self
      rw [List.foldl_cons, ih fun call hcall => hasks call (List.mem_cons_of_mem _ hcall)]
      simp only [next, ready, passed, List.any_cons, Bool.or_assoc]

theorem foldl_asks_unstarted {asks : List (Nat × LineCall)} (hasks : ∀ call ∈ asks, call.2 = .Ask) :
    asks.foldl (next delay) {} = {} := by
  rw [foldl_asks hasks]
  simp [passed]

theorem foldl_holds {holds : List (Nat × LineCall)} (hne : holds ≠ [])
    (hholds : ∀ call ∈ holds, call.2 = .Hold) : holds.foldl (next delay) countdown = {} := by
  induction holds generalizing countdown with
  | nil => exact absurd rfl hne
  | cons call rest ih =>
      obtain ⟨tick, command⟩ := call
      obtain rfl : command = .Hold := hholds _ List.mem_cons_self
      cases rest with
      | nil => rfl
      | cons next rest =>
          refine ih (List.cons_ne_nil _ _) fun call hcall => ?_
          exact hholds call (List.mem_cons_of_mem _ hcall)

end Countdown

section

variable {σ π δ : Type} [Logger σ] [OutputPin σ π] [InputPin σ δ] {line : ResetLine π δ}
  {delay : UInt16} {countdown : Countdown}

omit [Logger σ] [OutputPin σ π] in
theorem isReady_delayed (hline : line.readiness = countdown.readiness delay) (dial : Dial σ) :
    (line.isReady dial).1.1 = countdown.ready delay dial.tick ∧
      (line.isReady dial).1.2.readiness =
        (countdown.next delay (dial.tick, .Ask)).readiness delay := by
  obtain ⟨start, done⟩ := countdown
  rw [isReady, hline]
  cases start with
  | none =>
      simp only [Countdown.readiness, Countdown.next, Countdown.ready, Countdown.passed,
        Option.any_none, Bool.or_false, Action.pure_apply, hline, and_self]
  | some start => exact ⟨rfl, rfl⟩

-- One call on the line is one step of its countdown.
theorem serve_delayed (hline : line.readiness = countdown.readiness delay)
    (call : Nat × LineCall) (board : σ) :
    (line.serve call.2 (⟨board, call.1⟩ : Dial σ)).1.readiness =
      (countdown.next delay call).readiness delay := by
  obtain ⟨tick, command⟩ := call
  cases command with
  | Hold =>
      rw [serve, hold_value, held, hline]
      rfl
  | Release =>
      simp only [serve, release, Action.bind_apply, hline]
      -- The counter shows the same tick after a complaint about the pin.
      split <;> simp only [Countdown.readiness, Countdown.next, Action.bind_apply,
        Action.pure_apply, startDelay, Dial.count_value, Dial.tick_log, Dial.tick_drive]
  | Ask => exact (isReady_delayed hline _).2

theorem follow_delayed (hline : line.readiness = countdown.readiness delay)
    (calls : List (Nat × LineCall)) (board : σ) :
    (line.follow calls board).1.readiness =
      (calls.foldl (Countdown.next delay) countdown).readiness delay := by
  induction calls generalizing line countdown board with
  | nil => exact hline
  | cons call rest ih => exact ih (serve_delayed hline call board) _

theorem answersAfter_delayed (hline : line.readiness = countdown.readiness delay) (board : σ)
    (calls : List (Nat × LineCall)) (tick : Nat) : line.answersAfter board calls tick =
      (calls.foldl (Countdown.next delay) countdown).ready delay tick :=
  (isReady_delayed (follow_delayed hline calls board) _).1

end

-- The latest command among some calls, if there is one.
theorem asked_or_commanded (calls : List (Nat × LineCall)) :
    (∀ call ∈ calls, call.2 = .Ask) ∨ ∃ command tick, LatestCommand command tick calls := by
  induction calls with
  | nil => exact .inl fun call hcall => absurd hcall List.not_mem_nil
  | cons call rest ih =>
      rcases ih with hasks | ⟨command, tick, hcommand, earlier, later, rfl, hlater⟩
      · by_cases hask : call.2 = .Ask
        · exact .inl (List.forall_mem_cons.mpr ⟨hask, hasks⟩)
        · exact .inr ⟨call.2, call.1, hask, [], rest, rfl, hasks⟩
      · exact .inr ⟨command, tick, hcommand, call :: earlier, later, rfl, hlater⟩

namespace Countdown

variable {delay : UInt16} {calls : List (Nat × LineCall)}

-- A command leaves nothing of what was before it.
theorem foldl_command {command : LineCall} (hcommand : command ≠ .Ask) (tick : Nat)
    (earlier later : List (Nat × LineCall)) (countdown : Countdown) :
    (earlier ++ (tick, command) :: later).foldl (next delay) countdown =
      later.foldl (next delay) (next delay {} (tick, command)) := by
  rw [List.foldl_append, List.foldl_cons]
  cases command with
  | Hold => rfl
  | Release => rfl
  | Ask => exact absurd rfl hcommand

-- The counter has not come round to the release again.
theorem passed_iff {released tick : Nat} {done : Bool} (hafter : released ≤ tick)
    (hrecent : tick < released + UInt32.size) :
    passed delay tick ⟨some released.toUInt32, done⟩ = true ↔ released + delay.toNat < tick := by
  have hturn : tick - released < UInt32.size := by omega
  simp only [passed, Option.any_some, decide_eq_true_eq, UInt32.lt_iff_toNat_lt,
    UInt16.toNat_toUInt32, Ticks.elapsed_toUInt32 hafter, Nat.mod_eq_of_lt hturn]
  omega

-- The ticks of what comes after a call, when they never go back.
theorem ordered_after {earlier later : List (Nat × LineCall)} {call : Nat × LineCall} {tick : Nat}
    (h : ((earlier ++ call :: later).map Prod.fst ++ [tick]).Pairwise (· ≤ ·)) :
    call.1 ≤ tick ∧ ∀ asked ∈ later, call.1 ≤ asked.1 ∧ asked.1 ≤ tick := by
  rw [List.map_append, List.append_assoc, List.pairwise_append] at h
  obtain ⟨hcall, hlater⟩ := List.pairwise_cons.mp h.2.1
  refine ⟨hcall tick (by simp), fun asked hasked => ?_⟩
  have hmem : asked.1 ∈ later.map Prod.fst := List.mem_map_of_mem hasked
  refine ⟨hcall _ (List.mem_append_left _ hmem), ?_⟩
  exact (List.pairwise_append.mp hlater).2.2 _ hmem _ (List.mem_singleton.mpr rfl)

theorem ready_iff {tick : Nat} (hordered : (calls.map Prod.fst ++ [tick]).Pairwise (· ≤ ·))
    (hrecent : ∀ released, LatestCommand .Release released calls →
      tick < released + UInt32.size) :
    (calls.foldl (next delay) {}).ready delay tick = true ↔
      ∃ released, LatestCommand .Release released calls ∧ released + delay.toNat < tick := by
  constructor
  · intro hready
    rcases asked_or_commanded calls with
      hasks | ⟨command, released, hcommand, earlier, later, rfl, hlater⟩
    · rw [foldl_asks_unstarted hasks] at hready
      exact absurd hready Bool.false_ne_true
    · rw [foldl_command hcommand] at hready
      cases command with
      | Ask => exact absurd rfl hcommand
      | Hold =>
          rw [next, foldl_asks_unstarted hlater] at hready
          exact absurd hready Bool.false_ne_true
      | Release =>
          have hlatest : LatestCommand .Release released _ :=
            ⟨hcommand, earlier, later, rfl, hlater⟩
          obtain ⟨hafter, hbetween⟩ := ordered_after hordered
          have hsoon := hrecent released hlatest
          refine ⟨released, hlatest, ?_⟩
          rw [next, foldl_asks hlater, ready, Bool.or_eq_true, Bool.false_or,
            List.any_eq_true] at hready
          rcases hready with ⟨asked, hasked, hpassed⟩ | hpassed
          · obtain ⟨hbegun, hended⟩ := hbetween asked hasked
            have hearlier := (passed_iff hbegun (Nat.lt_of_le_of_lt hended hsoon)).mp hpassed
            exact Nat.lt_of_lt_of_le hearlier hended
          · exact (passed_iff hafter hsoon).mp hpassed
  · rintro ⟨released, hlatest, hpast⟩
    have hsoon := hrecent released hlatest
    obtain ⟨hcommand, earlier, later, rfl, hlater⟩ := hlatest
    have hafter := (ordered_after hordered).1
    rw [foldl_command hcommand, next, foldl_asks hlater, ready, Bool.or_eq_true]
    exact .inr ((passed_iff hafter hsoon).mpr hpast)

end Countdown

section

variable {σ π δ : Type} [Logger σ] [OutputPin σ π] [InputPin σ δ]

-- A delayed reset keeps its delay on a counter that wraps.
theorem delayed_keeps_delay (name : String) (pin : π) (polarity : Polarity) (delay : UInt16)
    (board : σ) :
    KeepsDelay delay ((delayed name pin polarity delay : ResetLine π δ).answersAfter board) := by
  have hstart : (delayed name pin polarity delay : ResetLine π δ).readiness =
      Countdown.readiness delay {} := rfl
  have hanswers := answersAfter_delayed hstart board
  refine ⟨?_, ?_, ?_, ?_⟩
  · intro calls tick hordered hrecent
    rw [hanswers]
    exact Countdown.ready_iff hordered hrecent
  · intro calls tick asks later hready hasks
    rw [hanswers] at hready ⊢
    rw [List.foldl_append, List.foldl_cons, Countdown.foldl_asks hasks]
    have hdone : (Countdown.next delay (calls.foldl (Countdown.next delay) {})
        (tick, .Ask)).done = true := hready
    simp only [Countdown.ready, hdone, Bool.true_or]
  · intro earlier released rest tick
    have hrelease : LineCall.Release ≠ .Ask := by decide
    rw [hanswers, hanswers, Countdown.foldl_command hrelease]
    rfl
  · intro earlier holds held rest tick hne hholds
    rw [hanswers, hanswers, List.foldl_append, List.foldl_append, List.foldl_append,
      List.foldl_cons, Countdown.foldl_holds hne hholds]
    rfl

end

-- The counter wraps while the delay runs, and the line is asked once in the meantime.
def callsAcrossWrap : List (Nat × LineCall) :=
  [(0, .Hold), (0xFFFFFFCE, .Release), (0x100000031, .Ask)]

theorem delayed_keeps_delay_across_wrap :
    (delayed "FPGA" "reset" .ActiveLow 100 : ResetLine String String).answersAfter
      ({} : Bench.Board) callsAcrossWrap 0x100000032 = false ∧
    (delayed "FPGA" "reset" .ActiveLow 100 : ResetLine String String).answersAfter
      ({} : Bench.Board) callsAcrossWrap 0x100000033 = true := by
  have hready := (delayed_keeps_delay (δ := String) "FPGA" "reset" .ActiveLow 100
    ({} : Bench.Board)).ready_iff callsAcrossWrap
  have hlatest (released : Nat) :
      LatestCommand .Release released callsAcrossWrap ↔ released = 0xFFFFFFCE := by
    constructor
    · rintro ⟨_, earlier, later, hsplit, _⟩
      have hmem : (released, .Release) ∈ callsAcrossWrap := by
        rw [hsplit]
        exact List.mem_append_right _ List.mem_cons_self
      simpa [callsAcrossWrap] using hmem
    · rintro rfl
      exact ⟨by decide, [(0, .Hold)], [(0x100000031, .Ask)], rfl, by decide⟩
  refine ⟨?_, ?_⟩
  · rw [Bool.eq_false_iff, ne_eq, hready _ (by decide) (by simp [hlatest, UInt32.size])]
    simp [hlatest]
  · rw [hready _ (by decide) (by simp [hlatest, UInt32.size])]
    simp [hlatest]

end BoardControl.ResetLine
