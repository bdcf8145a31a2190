import BoardControl.Bench.Board
import BoardControl.Boot.Decision
import BoardControl.Proofs.Recorded

namespace BoardControl.Boot

open Recorded

-- Whether a value is stored when it is handed over.
def isKept {σ : Type} [ValueStore σ] (key : String) (value : List UInt8) (board : σ) : Bool :=
  (ValueStore.store key value board).1.toBool

-- A store that hands back what was stored last under a name. A value that could
-- not be stored changes nothing, and neither do the log and the clock.
class FaithfulStore (σ : Type) [Logger σ] [TickCounter σ] [ValueStore σ] : Prop where
  find?_store (key name : String) (value : List UInt8) (board : σ) :
    ValueStore.find? name (ValueStore.store key value board).2 =
      if isKept key value board ∧ name = key then some value else ValueStore.find? name board
  find?_record (name : String) (severity : Severity) (text : String) (board : σ) :
    ValueStore.find? name (Logger.record severity text board) = ValueStore.find? name board
  find?_count (name : String) (board : σ) :
    ValueStore.find? name (TickCounter.count board).2 = ValueStore.find? name board

-- A store that neither the log nor the clock changes, whatever comes of storing.
class StillStore (σ : Type) [Logger σ] [TickCounter σ] [ValueStore σ] : Prop where
  find?_record (name : String) (severity : Severity) (text : String) (board : σ) :
    ValueStore.find? name (Logger.record severity text board) = ValueStore.find? name board
  find?_count (name : String) (board : σ) :
    ValueStore.find? name (TickCounter.count board).2 = ValueStore.find? name board

instance {σ : Type} [Logger σ] [TickCounter σ] [ValueStore σ] [FaithfulStore σ] : StillStore σ where
  find?_record := FaithfulStore.find?_record
  find?_count := FaithfulStore.find?_count

-- A faithful store that takes every value.
class ReliableStore (σ : Type) [Logger σ] [TickCounter σ] [ValueStore σ] : Prop
    extends FaithfulStore σ where
  isKept_eq (key : String) (value : List UInt8) (board : σ) : isKept key value board = true

-- The board went on with nothing but log records and looks at the clock.
inductive Quiet {σ : Type} [Logger σ] [TickCounter σ] (board : σ) : σ → Prop where
  | refl : Quiet board board
  | logged {after : σ} (severity : Severity) (text : String) (earlier : Quiet board after) :
      Quiet board (log severity text after).2
  | counted {after : σ} (earlier : Quiet board after) : Quiet board (TickCounter.count after).2

-- A value that was handed to the store, and whether it was kept.
structure Attempt where
  key : String
  value : List UInt8
  kept : Bool
deriving DecidableEq, Repr

-- A board whose attempts to store are written down.
abbrev Audited (σ : Type) := Recorded σ Attempt

instance : TickEvents Attempt where

section

variable {σ : Type}

instance [ValueStore σ] : ValueStore (Audited σ) where
  find? key audited := ValueStore.find? key audited.board
  store key value :=
    noting (fun answer => [⟨key, value, answer.toBool⟩]) (ValueStore.store key value)

instance [Checksum σ] : Checksum (Audited σ) where
  ofImage := Checksum.ofImage σ

instance [Logger σ] [TickCounter σ] [ValueStore σ] [FaithfulStore σ] :
    FaithfulStore (Audited σ) where
  find?_store key name value audited := FaithfulStore.find?_store key name value audited.board
  find?_record name severity text audited :=
    FaithfulStore.find?_record name severity text audited.board
  find?_count name audited := FaithfulStore.find?_count name audited.board

instance [Logger σ] [TickCounter σ] [ValueStore σ] [StillStore σ] : StillStore (Audited σ) where
  find?_record name severity text audited :=
    StillStore.find?_record name severity text audited.board
  find?_count name audited := StillStore.find?_count name audited.board

-- What an action tried to store.
def Audited.attempted {α : Type} (act : Action (Audited σ) α) (audited : Audited σ) :
    List Attempt :=
  (act audited).2.events.drop audited.events.length

end

section

variable {σ : Type} [Logger σ] [TickCounter σ] {board after : σ}

theorem Quiet.trans {last : σ} (h : Quiet board after) (hlast : Quiet after last) :
    Quiet board last := by
  induction hlast with
  | refl => exact h
  | logged severity text _ ih => exact ih.logged severity text
  | counted _ ih => exact ih.counted

theorem Quiet.events_eq {audited last : Audited σ} (h : Quiet audited last) :
    last.events = audited.events := by
  induction h with
  | refl => rfl
  | logged severity text _ ih => rw [events_log, ih]
  | counted _ ih => exact (List.append_nil _).trans ih

variable [ValueStore σ]

theorem Quiet.find?_eq [StillStore σ] (h : Quiet board after) (name : String) :
    ValueStore.find? name after = ValueStore.find? name board := by
  induction h with
  | refl => rfl
  | logged severity text _ ih =>
      rw [← ih]
      simp only [log]
      split
      · exact StillStore.find?_record ..
      · rfl
  | counted _ ih => rw [StillStore.find?_count, ih]

-- After a value was handed over there is at most a complaint in the log.
theorem storeOrLog_quiet (what key : String) (value : List UInt8) (board : σ) :
    Quiet (ValueStore.store key value board).2 (storeOrLog what key value board).2 := by
  rw [storeOrLog, Action.bind_apply]
  cases (ValueStore.store key value board).1 with
  | ok _ => exact .refl
  | error _ => exact .logged _ _ .refl

theorem find?_storeOrLog [FaithfulStore σ] (what key name : String) (value : List UInt8)
    (board : σ) :
    ValueStore.find? name (storeOrLog what key value board).2 =
      if isKept key value board ∧ name = key then some value else ValueStore.find? name board := by
  rw [(storeOrLog_quiet what key value board).find?_eq, FaithfulStore.find?_store]

theorem events_storeOrLog (what key : String) (value : List UInt8) (audited : Audited σ) :
    (storeOrLog what key value audited).2.events =
      audited.events ++ [⟨key, value, isKept key value audited⟩] := by
  rw [(storeOrLog_quiet what key value audited).events_eq]
  rfl

end

open Bench (Board)

theorem store_of_refused {key : String} {board : Board} (hrefused : key ∈ board.refusedKeys)
    (value : List UInt8) : ValueStore.store key value board =
      (.error .WriteFailed, (Board.emit (.Stored key value false) board).2) := by
  simp only [ValueStore.store, Action.bind_apply, get, getThe, MonadStateOf.get, StateT.get, pure]
  simp only [List.contains_iff_mem.mpr hrefused, Bool.not_true, Bool.false_eq_true, ↓reduceIte]
  rfl

theorem store_of_taken {key : String} {board : Board} (htaken : key ∉ board.refusedKeys)
    (value : List UInt8) : ValueStore.store key value board =
      (.ok (), (Board.emit (.Stored key value true)
        { board with objects := board.objects.insert key value }).2) := by
  have htaken : board.refusedKeys.contains key = false := by simpa using htaken
  simp only [ValueStore.store, Action.bind_apply, get, getThe, MonadStateOf.get, StateT.get, pure]
  simp only [htaken, Bool.not_false, ↓reduceIte]
  rfl

instance : FaithfulStore Board where
  find?_store key name value board := by
    by_cases hrefused : key ∈ board.refusedKeys
    · rw [isKept, store_of_refused hrefused]
      rfl
    · rw [isKept, store_of_taken hrefused]
      by_cases hname : name = key
      · simp only [hname, Except.toBool, and_self, ↓reduceIte]
        exact Bench.Table.find?_insert ..
      · simp only [hname, and_false, ↓reduceIte]
        exact Bench.Table.find?_insert_of_ne _ _ hname
  find?_record _ _ _ _ := rfl
  find?_count _ _ := rfl

end BoardControl.Boot
