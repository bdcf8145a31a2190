import BoardControl.Proofs.Bitstream.Delivery
import BoardControl.Proofs.Bitstream.Faithful
import BoardControl.Proofs.Bitstream.Reading

namespace BoardControl.Bitstream

open Session

section

variable {σ : Type} [Flash σ] [TickCounter σ] {target : Target} (flash : Faithful σ target)

-- A session at the end of a file, with its body still to be programmed.
def File.read (file : File target) (bulkLeft : UInt32) (more : List UInt8) : Session :=
  { phase := .Done, lastError := none, bulkLeft, received := more, pending := file.body,
    cursor := target.partition.offset }

theorem flushed_isTerminal {session : Session} (h : session.phase.isTerminal = true)
    (result : Except UpdateError (List UInt8) × UInt32) :
    (session.flushed result).phase.isTerminal = true := by
  rcases result with ⟨failure | rest, cursor⟩
  · rfl
  · exact h

-- A session with a whole file settles at its end if the partition can be made ready.
theorem settled_of_prepared (file : File target) {more : List UInt8} {board ready left : σ}
    {last : Session} (hready : target.partition.prepare board = (none, ready))
    (hsettles : Settles target ((start target).append (file.bytes ++ more), board) (last, left)) :
    ∃ bulkLeft : UInt32, (file.read bulkLeft more).flush target ready = (last, left) := by
  obtain ⟨bulkLeft, hreach⟩ := reaches_file file more hready
  refine ⟨bulkLeft, Settles.unique ⟨hreach, ?_⟩ hsettles⟩
  exact advance?_of_terminal (flushed_isTerminal rfl _) _

-- On a faithful flash the partition can always be made ready.
theorem settled_of_file (file : File target) {more : List UInt8} {board left : σ} {last : Session}
    (hsettles : Settles target ((start target).append (file.bytes ++ more), board) (last, left)) :
    ∃ (bulkLeft : UInt32) (ready : σ),
      (file.read bulkLeft more).flush target ready = (last, left) ∧
        Stores flash.capacity (flash.cell board) (flash.cell ready) target.partition.offset.toNat
          (List.replicate flash.erased 0xff) := by
  obtain ⟨ready, hready, hstores⟩ := flash.prepare board
  obtain ⟨bulkLeft, hread⟩ := settled_of_prepared file hready hsettles
  exact ⟨bulkLeft, ready, hread, hstores⟩

-- The body was programmed if it has room in the partition.
theorem closed_of_file (file : File target) (bulkLeft : UInt32) (more : List UInt8)
    {board ready : σ} (hready : Stores flash.capacity (flash.cell board) (flash.cell ready)
      target.partition.offset.toNat (List.replicate flash.erased 0xff))
    (hfits : target.partition.offset.toNat + file.body.length ≤ target.partition.stop.toNat) :
    let flushed := (file.read bulkLeft more).flush target ready
    let ended := flushed.1.close target flushed.2
    ended.1.phase = .Done ∧ ended.1.lastError = none ∧
      ended.1.cursor.toNat = target.partition.offset.toNat + file.body.length ∧
        Stores flash.capacity (flash.cell board) (flash.cell ended.2)
          target.partition.offset.toNat
          (file.body ++ List.replicate (flash.erased - file.body.length) 0xff) := by
  obtain ⟨written, rest, next, after, hbody, hflush, hnext, hwritten⟩ :=
    flash.flush file.body target.partition.offset ready hfits
  have hlength : file.body.length = written.length + rest.length := by
    rw [hbody, List.length_append]
  obtain ⟨last, left, hfinish, hlast, hrest⟩ := flash.finish rest next after (by omega)
  have herased := flash.size_le_erased
  have hsize := target.partition.stop_le
  have hcount : last.toNat = target.partition.offset.toNat + file.body.length := by omega
  have hread : (file.read bulkLeft more).flush target ready =
      ((file.read bulkLeft more).flushed (.ok rest, next), after) := by
    simp only [Session.flush, File.read, hflush]
  simp only [hread]
  have hclose : ((file.read bulkLeft more).flushed (.ok rest, next)).close target after =
      ((file.read bulkLeft more).flushed (.ok [], last), left) := by
    simp [Session.close, flushed, File.read, hfinish]
  rw [hclose]
  rw [hnext] at hrest
  have hstored := hwritten.append hrest
  rw [← hbody] at hstored
  exact ⟨rfl, rfl, hcount, hready.overwrite hstored (by omega)⟩

end

section

variable {φ μ : Type} [Flash φ] [TickCounter φ] [Logger μ] {target : Target}

-- How a closed session ended: the error that it failed with, if it failed, and the
-- bytes that it programmed at the front of the erased part.
structure Faithful.Ended (flash : Faithful φ target) (board after : φ) (closed : Updater)
    (failure : Option UpdateError) (stored : List UInt8) : Prop where
  phase_eq : closed.phase = if failure.isSome then .Failed else .Done
  error_eq : closed.lastError = failure
  written_eq : ∃ count, closed.bytesWritten = .ok count ∧ count.toNat = stored.length
  stores : Stores flash.capacity (flash.cell board) (flash.cell after)
    target.partition.offset.toNat
    (stored ++ List.replicate (flash.erased - stored.length) 0xff)

-- A file that has room in the partition is programmed, however it is cut and
-- whatever follows it.
theorem session_of_fitting_file (flash : Faithful φ target) (hsuits : target.Suits φ)
    {updater : Updater} (hpartition : updater.writer.partition = target.partition)
    (hdevice : updater.device = target.device) {chunks : List (List UInt8)} (file : File target)
    (hfile : file.bytes <+: chunks.flatten)
    (hfits : target.partition.offset.toNat + file.body.length ≤ target.partition.stop.toNat)
    (logged : Logged (Watched φ) μ) :
    Run.Ends (updater.session chunks true) logged fun closed after =>
      flash.Ended logged.board.device after.board.device closed none file.body := by
  have hwatched : target.Suits (Watched φ) := fun board => hsuits board.device
  refine (session_ends hwatched hpartition hdevice chunks true logged).mono ?_
  intro closed after hends
  obtain ⟨last, left, hsettles, hfollows, hboard, hwritten⟩ := hends
  rw [if_pos rfl] at hfollows hboard hwritten
  obtain ⟨more, hmore⟩ := hfile
  rw [← hmore] at hsettles
  obtain ⟨bulkLeft, ready, hread, hready⟩ := settled_of_file flash.watched file hsettles
  have hclosed := closed_of_file flash.watched file bulkLeft more hready hfits
  simp only [hread] at hclosed
  obtain ⟨hphase, herror, hcursor, hstores⟩ := hclosed
  refine ⟨hfollows.phase.trans hphase, hfollows.lastError.trans herror,
    ⟨_, hwritten, toNat_sub_offset hcursor⟩, ?_⟩
  rw [hboard]
  exact hstores

end

-- The shortest file: no records, no preamble, and only the packet at the end.
def Chip.shortest : File Chip.target :=
  { announcement :=
      { heading := { records := [], suits := nofun }, a := 0, b := 0, c := 0, d := 12,
        length_le := by decide }
    front := { preamble := [], packets := [], first_sync := nofun, goes_on := nofun }
    last :=
      { header := .Type1 .Write commandRegister 1
        bytes := [0x30, 0x00, 0x80, 0x01, 0x00, 0x00, 0x00, 0x0d]
        header_eq := by decide
        spans := ⟨by decide, by decide⟩ }
    last_ends := ⟨rfl, by decide⟩ }

-- The same file in two pieces.
def Chip.halves : List (List UInt8) := [shortest.bytes.take 20, shortest.bytes.drop 20]

theorem Chip.flatten_halves : halves.flatten = shortest.bytes := by decide

-- Its body makes one page, and the page is programmed.
theorem Chip.session_shortest {chunks : List (List UInt8)}
    (hchunks : chunks.flatten = shortest.bytes) :
    ∃ (closed : Updater) (after : Logged (Watched (Chip 0x1000 256)) Unit),
      updater.session chunks true board = .ok closed after ∧ closed.phase = .Done ∧
        closed.bytesWritten = .ok 12 := by
  have hfile : shortest.bytes <+: chunks.flatten := ⟨[], by rw [List.append_nil, hchunks]⟩
  obtain ⟨closed, after, hrun, hended⟩ :=
    session_of_fitting_file (Chip.faithful (by decide) target) (suits 0x1000)
      (show updater.writer.partition = target.partition from rfl) rfl shortest hfile (by decide)
      board
  obtain ⟨count, hwritten, hcount⟩ := hended.written_eq
  have htwelve : count = 12 := UInt32.toNat_inj.mp hcount
  rw [htwelve] at hwritten
  exact ⟨closed, after, hrun, hended.phase_eq, hwritten⟩

-- Without its last packet the sync word waits to be programmed.
theorem Chip.receive_front :
    ∃ (next : Updater) (after : Logged (Watched (Chip 0x1000 256)) Unit),
      (updater.opened board).1.receive (shortest.announcement.bytes ++ shortest.front.bytes) board =
        .ok next after ∧ next.phase = .Packets ∧ next.writer.pending.toList = syncWord := by
  obtain ⟨ready, hready, _⟩ := (Chip.faithful (by decide) target).watched.prepare board.board
  obtain ⟨left, hfront⟩ := settles_front shortest hready (by decide)
  have hwatched : target.Suits (Watched (Chip 0x1000 256)) := fun _ => rfl
  have hopened : Follows target (updater.opened board).1 (start target) :=
    (opened_follows rfl rfl board).1
  obtain ⟨next, after, hrun, last, hfollows, hsettles⟩ :=
    receive_ends hwatched (shortest.announcement.bytes ++ shortest.front.bytes) hopened Sound.start
      board rfl
  obtain ⟨rfl, _⟩ := Prod.mk.inj (hsettles.unique hfront)
  have hlive : Phase.Packets ≠ .Failed := by decide
  exact ⟨next, after, hrun, hfollows.phase, hfollows.pending hlive⟩

end BoardControl.Bitstream
