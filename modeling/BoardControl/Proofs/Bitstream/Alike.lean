import BoardControl.Bitstream.PageWriter
import BoardControl.Proofs.Bitstream.Watched
import BoardControl.Proofs.Parallel
import BoardControl.Ring.Content

namespace BoardControl

-- Two queues that hold the same bytes, wherever these lie and whatever the other
-- cells hold.
def Ring.Alike {capacity : Nat} (one other : Ring capacity) : Prop := one.toList = other.toList

namespace Ring.Alike

variable {capacity size : Nat} {one other : Ring capacity} {target target' : Ring size}

theorem length (h : one.Alike other) : one.length = other.length := by
  rw [← length_toList, h, length_toList]

theorem free (h : one.Alike other) : one.free = other.free := by
  rw [Ring.free, h.length, Ring.free]

theorem front (h : one.Alike other) (count : Nat) : one.front count = other.front count := by
  rw [front_eq_take, h, front_eq_take]

theorem popFront (h : one.Alike other) (count : Nat) :
    (one.popFront count).Alike (other.popFront count) := by
  rw [Alike, toList_popFront, h, toList_popFront]

theorem pushBytes (h : one.Alike other) {data : List UInt8} (hfits : data.length ≤ other.free) :
    (one.pushBytes data).Alike (other.pushBytes data) := by
  rw [Alike, toList_pushBytes _ _ (by rwa [h.free]), h, toList_pushBytes _ _ hfits]

theorem push (h : one.Alike other) (data : List UInt8) :
    Likewise (fun result result' => result.1 = result'.1 ∧ result.2.Alike result'.2)
      (one.push data) (other.push data) := by
  rw [Ring.push, Ring.push, h.free]
  split
  · exact .ok ⟨rfl, h⟩
  · rename_i hfits
    split
    · exact .error _
    · exact .ok ⟨rfl, h.pushBytes (Nat.le_of_not_lt hfits)⟩

theorem transfer (h : one.Alike other) (htarget : target.Alike target') (count : Nat) :
    Likewise
      (fun result result' => result.1 = result'.1 ∧ result.2.1.Alike result'.2.1 ∧
        result.2.2.Alike result'.2.2)
      (one.transfer target count) (other.transfer target' count) := by
  rw [Ring.transfer, Ring.transfer, h.length, htarget.free, h.front]
  split
  · exact .ok ⟨rfl, h, htarget⟩
  · have hpush := htarget.push (other.front count)
    generalize target.push (other.front count) = result at hpush ⊢
    generalize target'.push (other.front count) = result' at hpush ⊢
    cases hpush with
    | error fault => exact .error fault
    | ok hpushed => exact .ok ⟨hpushed.1, h.popFront count, hpushed.2⟩

end Ring.Alike

theorem Ring.reset_alike {capacity : Nat} (one other : Ring capacity) :
    one.reset.Alike other.reset := by
  rw [Alike, toList_reset, toList_reset]

namespace Bitstream

-- A flash whose calls are written down, beside a clock and a log. Neither side
-- sees the other one.
structure Rig (φ τ : Type) where
  flash : Watched φ
  aside : τ

namespace Rig

variable {φ τ : Type}

def onFlash {α : Type} (act : Action (Watched φ) α) : Action (Rig φ τ) α := fun rig =>
  let (value, flash) := act rig.flash
  (value, { rig with flash })

def onAside {α : Type} (act : Action τ α) : Action (Rig φ τ) α := fun rig =>
  let (value, aside) := act rig.aside
  (value, { rig with aside })

instance [Flash φ] : Flash (Rig φ τ) where
  sectorSize rig := Flash.sectorSize rig.flash
  pageSize rig := Flash.pageSize rig.flash
  erase addr := onFlash (Flash.erase addr)
  write addr data := onFlash (Flash.write addr data)
  read addr count := onFlash (Flash.read addr count)

instance [TickCounter τ] : TickCounter (Rig φ τ) where
  count := onAside TickCounter.count
  sleep ticks := onAside (TickCounter.sleep ticks)
  restart := onAside TickCounter.restart

instance [Logger τ] : Logger (Rig φ τ) where
  enabled severity rig := Logger.enabled severity rig.aside
  record severity text rig := { rig with aside := Logger.record severity text rig.aside }

-- Since two moments, one of each rig, both flashes were called in the same way and
-- gave the same answers, and they are in the same state.
structure Twins (here there left right : Rig φ τ) : Prop where
  device : left.flash.device = right.flash.device
  calls : ∃ calls, left.flash.calls = here.flash.calls ++ calls ∧
    right.flash.calls = there.flash.calls ++ calls

theorem flash_log [Logger τ] (severity : Severity) (text : String) (rig : Rig φ τ) :
    (log severity text rig).2.flash = rig.flash := by
  simp only [log, Logger.record]
  split <;> rfl

namespace Twins

variable {here there : Rig φ τ}

theorem refl (h : here.flash.device = there.flash.device) : Twins here there here there :=
  ⟨h, [], (List.append_nil _).symm, (List.append_nil _).symm⟩

-- A call is written down with what the device answers to it.
theorem onFlash {α : Type} {act : Action (Watched φ) α} {device : φ → α × φ}
    (call : α → FlashCall) (hact : ∀ flash, act flash = ((device flash.device).1,
      ⟨(device flash.device).2, flash.calls ++ [call (device flash.device).1]⟩)) :
    Run.Parallel (Twins here there) Eq (perform (Rig.onFlash act)) (perform (Rig.onFlash act)) := by
  apply Run.Parallel.perform
  rintro left right ⟨hdevice, calls, hleft, hright⟩
  simp only [Rig.onFlash, hact, hdevice, hleft, hright, List.append_assoc, true_and]
  exact ⟨rfl, _, rfl, rfl⟩

-- Only the flash counts.
theorem of_flash {left right left' right' : Rig φ τ} (h : Twins here there left right)
    (hleft : left'.flash = left.flash) (hright : right'.flash = right.flash) :
    Twins here there left' right' := by
  constructor
  · rw [hleft, hright, h.device]
  · rw [hleft, hright]
    exact h.calls

theorem count [TickCounter τ] : Run.Parallel (Twins here there) (fun _ _ => True)
    (perform (TickCounter.count (σ := Rig φ τ))) (perform TickCounter.count) :=
  .perform fun _ _ htwins => ⟨trivial, htwins.of_flash rfl rfl⟩

section

variable [Flash φ]

theorem sectorSize {left right : Rig φ τ} (h : Twins here there left right) :
    Flash.sectorSize left = Flash.sectorSize right :=
  congrArg (fun device : φ => Flash.sectorSize device) h.device

theorem pageSize {left right : Rig φ τ} (h : Twins here there left right) :
    Flash.pageSize left = Flash.pageSize right :=
  congrArg (fun device : φ => Flash.pageSize device) h.device

theorem erase (addr : UInt32) : Run.Parallel (Twins here there) Eq
    (perform (Flash.erase addr)) (perform (Flash.erase addr)) :=
  onFlash (.Erase addr) fun _ => rfl

theorem write (addr : UInt32) (data : List UInt8) : Run.Parallel (Twins here there) Eq
    (perform (Flash.write addr data)) (perform (Flash.write addr data)) :=
  onFlash (.Write addr data) fun _ => rfl

theorem read (addr : UInt32) (count : Nat) : Run.Parallel (Twins here there) Eq
    (perform (Flash.read addr count)) (perform (Flash.read addr count)) :=
  onFlash (fun data => .Read addr data.toList) fun _ => rfl

end

theorem after_log [Logger τ] {α β : Type} {same : α → β → Prop} {severity : Severity}
    {text text' : String} {rest : Run (Rig φ τ) α} {rest' : Run (Rig φ τ) β}
    (h : Run.Parallel (Twins here there) same rest rest') :
    Run.Parallel (Twins here there) same
      (do perform (log severity text); rest) (do perform (log severity text'); rest') :=
  Run.Parallel.bind
    (.perform fun _ _ htwins => ⟨rfl, htwins.of_flash (flash_log ..) (flash_log ..)⟩)
    fun _ _ (_ : () = ()) => h

theorem refused [Logger τ] {ε α β : Type} {same : α → β → Prop} {severity : Severity}
    {text text' : String} {failure : ε} :
    Run.Parallel (Twins here there) (Likewise same)
      (do perform (log severity text); pure (.error failure))
      (do perform (log severity text'); pure (.error failure)) :=
  after_log (.pure (.error failure))

-- Whether a record is made at all makes no difference.
theorem sometimes_log [Logger τ] {α β : Type} {same : α → β → Prop} {condition : Prop}
    [Decidable condition] {severity : Severity} {text text' : String} {rest : Run (Rig φ τ) α}
    {rest' : Run (Rig φ τ) β} (h : Run.Parallel (Twins here there) same rest rest') :
    Run.Parallel (Twins here there) same
      (if condition then do perform (log severity text); rest else rest)
      (if condition then do perform (log severity text'); rest' else rest') := by
  split
  · exact after_log h
  · exact h

end Twins

end Rig

section

open Rig

variable {φ τ : Type} [Flash φ] [Logger τ] {here there : Rig φ τ}

namespace Partition

variable (partition : Partition)

theorem eraseSectors_parallel (sector : UInt32) (index count : Nat) :
    Run.Parallel (Twins here there) Eq (partition.eraseSectors sector index count)
      (partition.eraseSectors sector index count) := by
  induction count generalizing index with
  | zero => exact .pure rfl
  | succ count ih =>
      rw [eraseSectors]
      refine .bind (.lift (.of_eq rfl)) ?_
      rintro product _ rfl
      refine .bind (.lift (.of_eq rfl)) ?_
      rintro addr _ rfl
      refine Twins.sometimes_log (.bind (Twins.erase addr) ?_)
      rintro ok _ rfl
      cases ok with
      | true => exact ih (index + 1)
      | false => exact Twins.after_log (.pure rfl)

theorem checkBlank_parallel (addr : UInt32) (count : Nat) :
    Run.Parallel (Twins here there) Eq (partition.checkBlank addr count)
      (partition.checkBlank addr count) := by
  induction count generalizing addr with
  | zero => exact .pure rfl
  | succ count ih =>
      rw [checkBlank]
      refine Twins.sometimes_log (.bind (Twins.read _ _) ?_)
      rintro block _ rfl
      cases firstUsed block.toList with
      | some used =>
          refine .bind (.lift (.of_eq rfl)) ?_
          rintro bad _ rfl
          exact Twins.after_log (.pure rfl)
      | none =>
          refine .bind (.lift (.of_eq rfl)) ?_
          rintro next _ rfl
          exact ih next

theorem erase_parallel [TickCounter τ] :
    Run.Parallel (Twins here there) Eq partition.erase partition.erase := by
  refine .bind .get ?_
  intro left right htwins
  simp only [htwins.sectorSize]
  split
  · exact Twins.after_log (.pure rfl)
  · refine .bind Twins.count fun _ _ _ => Twins.after_log ?_
    refine .bind (partition.eraseSectors_parallel _ _ _) ?_
    rintro erased _ rfl
    cases erased with
    | error failure => exact .pure rfl
    | ok _ =>
        refine .bind (partition.checkBlank_parallel _ _) ?_
        rintro checked _ rfl
        cases checked with
        | error failure => exact .pure rfl
        | ok _ => exact .bind Twins.count fun _ _ _ => Twins.after_log (.pure rfl)

end Partition

-- The same partition, the same place to write to and the same bytes waiting.
structure PageWriter.Alike (one other : PageWriter) : Prop where
  partition : one.partition = other.partition
  cursor : one.cursor = other.cursor
  pending : one.pending.Alike other.pending

namespace PageWriter

theorem flash_pageSize (rig : Rig φ τ) : (pageSize rig).2.flash = rig.flash := by
  simp only [pageSize, Action.bind_apply]
  split
  · exact flash_log ..
  · rfl

theorem pageSize_parallel :
    Run.Parallel (Twins here there) Eq (perform pageSize) (perform pageSize) := by
  refine .perform fun left right htwins =>
    ⟨?_, htwins.of_flash (flash_pageSize left) (flash_pageSize right)⟩
  simp only [pageSize, Action.bind_apply, get, getThe, MonadStateOf.get, StateT.get, pure,
    htwins.pageSize]
  by_cases hbad : (Flash.pageSize right).toNat = 0 ∨ Settings.maxPage < (Flash.pageSize right).toNat
  · simp only [hbad, ↓reduceIte]
    rfl
  · simp only [hbad, ↓reduceIte]
    rfl

namespace Alike

variable {one other : PageWriter}

theorem programBlock (h : one.Alike other) (length : Nat) :
    Run.Parallel (Twins here there) (Likewise PageWriter.Alike) (one.programBlock length)
      (other.programBlock length) := by
  rw [PageWriter.programBlock, PageWriter.programBlock, h.partition, h.cursor, h.pending.front]
  split
  · exact Twins.refused
  · refine Twins.sometimes_log (.bind (Twins.write _ _) ?_)
    rintro ok _ rfl
    cases ok with
    | false => exact Twins.refused
    | true =>
        refine .bind (Twins.read _ _) ?_
        rintro readback _ rfl
        cases firstDifference (other.pending.front length) readback.toList with
        | some difference =>
            refine .bind (.lift (.of_eq rfl)) ?_
            rintro bad _ rfl
            exact Twins.refused
        | none =>
            refine .bind (.lift (.of_eq rfl)) ?_
            rintro cursor _ rfl
            exact .pure (.ok ⟨rfl, rfl, h.pending.popFront length⟩)

-- What is left of a writer, and why it stopped.
def Flushed (result result' : PageWriter × Option UpdateError) : Prop :=
  result.1.Alike result'.1 ∧ result.2 = result'.2

theorem programPages (page count : Nat) (h : one.Alike other) :
    Run.Parallel (Twins here there) Flushed (PageWriter.programPages page count one)
      (PageWriter.programPages page count other) := by
  induction count generalizing one other with
  | zero => exact .pure ⟨h, rfl⟩
  | succ count ih =>
      refine .bind (h.programBlock page) ?_
      intro result result' hresult
      cases hresult with
      | error failure => exact .pure ⟨h, rfl⟩
      | ok hnext => exact ih hnext

theorem flushPages (h : one.Alike other) :
    Run.Parallel (Twins here there) Flushed one.flushPages other.flushPages := by
  refine .bind pageSize_parallel ?_
  rintro size _ rfl
  cases size with
  | error failure => exact .pure ⟨h, rfl⟩
  | ok page =>
      simp only [h.pending.length]
      exact h.programPages page _

theorem flushAll (h : one.Alike other) :
    Run.Parallel (Twins here there) Flushed one.flushAll other.flushAll := by
  refine .bind h.flushPages ?_
  rintro ⟨writer, failure⟩ ⟨writer', _⟩ ⟨hwriter, rfl⟩
  cases failure with
  | some failure => exact .pure ⟨hwriter, rfl⟩
  | none =>
      dsimp only
      rw [hwriter.pending.length]
      split
      · refine .bind (hwriter.programBlock _) ?_
        intro result result' hresult
        cases hresult with
        | error failure => exact .pure ⟨hwriter, rfl⟩
        | ok hlast => exact .pure ⟨hlast, rfl⟩
      · exact .pure ⟨hwriter, rfl⟩

theorem restart (h : one.partition = other.partition) : one.restart.Alike other.restart :=
  ⟨h, congrArg Partition.offset h, Ring.reset_alike _ _⟩

end Alike

end PageWriter

end

end Bitstream

end BoardControl
