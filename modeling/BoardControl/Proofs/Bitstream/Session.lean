import BoardControl.Proofs.Bitstream.Preparation
import Mathlib.Logic.Relation

namespace BoardControl.Bitstream

-- A session as the bytes of the file make it: the bytes that were received and
-- not yet dealt with, the bytes that wait to be programmed, and the address at
-- which the next page goes.
structure Session where
  phase : Phase
  lastError : Option UpdateError
  bulkLeft : UInt32
  received : List UInt8
  pending : List UInt8
  cursor : UInt32

namespace Session

def start (target : Target) : Session :=
  { phase := .Magic, lastError := none, bulkLeft := 0, received := [], pending := [],
    cursor := target.partition.offset }

-- Of a failed session only the reason and the cursor count.
def failed (failure : UpdateError) (cursor : UInt32) : Session :=
  { phase := .Failed, lastError := some failure, bulkLeft := 0, received := [], pending := [],
    cursor }

-- More bytes arrive. A failed session drops them.
def append (session : Session) (bytes : List UInt8) : Session :=
  if session.phase = .Failed then session
  else { session with received := session.received ++ bytes }

-- Bytes of the header are dropped and lead to some phase.
def skipped (session : Session) (count : Nat) (next : Phase) : Session :=
  { session with phase := next, received := session.received.drop count }

-- Bytes of the body join those that wait to be programmed.

def copied (session : Session) (count : Nat) (next : Phase) (bulkLeft : UInt32) : Session :=
  { session with
    phase := next, bulkLeft, received := session.received.drop count,
    pending := session.pending ++ session.received.take count }

-- The session after its partition was made ready, or was not.
def prepared (session : Session) : Option UpdateError → Session
  | some failure => failed failure session.cursor
  | none => session.skipped 5 .SyncWait

-- The session after pages were programmed, with what still waits.
def flushed (session : Session) : Except UpdateError (List UInt8) × UInt32 → Session
  | (.error failure, cursor) => failed failure cursor
  | (.ok rest, cursor) => { session with pending := rest, cursor }

@[simp] theorem cursor_flushed (session : Session)
    (result : Except UpdateError (List UInt8) × UInt32) :
    (session.flushed result).cursor = result.2 := by
  rcases result with ⟨_ | _, _⟩ <;> rfl

section

variable {σ : Type} [Flash σ]

-- Programs every full page that waits.
def flush (target : Target) (session : Session) (board : σ) : Session × σ :=
  let result := target.flush session.pending session.cursor board
  (session.flushed result.1, result.2)

variable [TickCounter σ]

-- Deals with one token.
def take (target : Target) (session : Session) (token : Token) (board : σ) : Session × σ :=
  match token with
  | .Skip count => (session.skipped count .Records, board)
  | .Prepare =>
      let result := target.partition.prepare board
      (session.prepared result.1, result.2)
  | .Copy count next bulkLeft => (session.copied count next bulkLeft).flush target board
  | .Refuse failure => (failed failure session.cursor, board)

def advance? (target : Target) (now : Session × σ) : Option (Session × σ) :=
  (target.token? now.1.phase now.1.bulkLeft now.1.received).map
    fun token => now.1.take target token now.2

-- Where a session gets by dealing with tokens, and where it gets with all the
-- tokens that it has.

def Reaches (target : Target) : Session × σ → Session × σ → Prop :=
  Relation.ReflTransGen fun now next => advance? target now = some next

def Settles (target : Target) (now last : Session × σ) : Prop :=
  Reaches target now last ∧ advance? target last = none

-- The bytes that still wait are programmed as one short page.
def close (target : Target) (session : Session) (board : σ) : Session × σ :=
  if session.phase = .Failed then (session, board)
  else
    let result := target.finish session.pending session.cursor board
    (session.flushed result.1, result.2)

end

section

variable {σ : Type} [Flash σ] [TickCounter σ] {target : Target}

-- A session without a token gets nowhere.
theorem Reaches.eq_of_none {now last : Session × σ} (hreach : Reaches target now last)
    (hnone : advance? target now = none) : now = last := by
  rcases Relation.ReflTransGen.cases_head hreach with heq | ⟨next, hnext, _⟩
  · exact heq
  · rw [hnone] at hnext
    cases hnext

-- There is only one way to go, so a session settles in only one place.
theorem Settles.unique {now one other : Session × σ} (hone : Settles target now one)
    (hother : Settles target now other) : one = other := by
  have huniq : Relator.RightUnique fun now next : Session × σ => advance? target now = some next :=
    fun _ _ _ hb hc => Option.some.inj (hb.symm.trans hc)
  rcases Relation.ReflTransGen.total_of_right_unique huniq hone.1 hother.1 with h | h
  · exact Reaches.eq_of_none h hone.2
  · exact (Reaches.eq_of_none h hother.2).symm

theorem append_nil (session : Session) : session.append [] = session := by
  unfold append
  split
  · rfl
  · simp

theorem append_append (session : Session) (one other : List UInt8) :
    (session.append one).append other = session.append (one ++ other) := by
  unfold append
  by_cases hfailed : session.phase = .Failed
  · simp [hfailed]
  · simp [hfailed]

theorem append_eq {session : Session} (hphase : session.phase ≠ .Failed) (bytes : List UInt8) :
    session.append bytes = { session with received := session.received ++ bytes } := by
  rw [append, if_neg hphase]

theorem failed_append (failure : UpdateError) (cursor : UInt32) (more : List UInt8) :
    (failed failure cursor).append more = failed failure cursor := rfl

omit [TickCounter σ] in
theorem flush_append {session : Session} (hphase : session.phase ≠ .Failed) (more : List UInt8)
    (board : σ) :
    (session.append more).flush target board =
      ((session.flush target board).1.append more, (session.flush target board).2) := by
  rw [append_eq hphase]
  simp only [flush]
  cases target.flush session.pending session.cursor board with
  | mk result after =>
      rcases result with ⟨failure | rest, cursor⟩
      · rfl
      · simp [flushed, append, hphase]

-- What a token does is not changed by bytes that come after it.
theorem take_append {session : Session} {token : Token}
    (htoken : target.token? session.phase session.bulkLeft session.received = some token)
    (more : List UInt8) (board : σ) :
    (session.append more).take target token board =
      ((session.take target token board).1.append more, (session.take target token board).2) := by
  have hlength := Target.token?_length_le htoken
  have hdrop : (session.received ++ more).drop token.length =
      session.received.drop token.length ++ more := List.drop_append_of_le_length hlength
  have htake : (session.received ++ more).take token.length =
      session.received.take token.length := List.take_append_of_le_length hlength
  have hphase : session.phase ≠ .Failed := by
    intro hfailed
    rw [hfailed] at htoken
    cases htoken
  cases token with
  | Skip count =>
      simp only [Token.length] at hdrop
      simp [take, append, skipped, hphase, hdrop]
  | Prepare =>
      simp only [Token.length] at hdrop
      simp only [take, append_eq hphase]
      cases (target.partition.prepare board).1 with
      | some failure => simp [prepared, failed_append]
      | none => simp [prepared, skipped, append, hdrop]
  | Copy count next left =>
      have hnext := (Target.copy_of_token? htoken).2.1
      simp only [Token.length] at hdrop htake
      have hcopied : (session.append more).copied count next left =
          (session.copied count next left).append more := by
        simp [append, copied, hphase, hnext, hdrop, htake]
      simp only [take, hcopied]
      exact flush_append hnext more board
  | Refuse failure => simp only [take, append_eq hphase, failed_append]

-- Bytes that come later leave the steps of a session as they are.
theorem advance?_append {session next : Session} {board after : σ} (more : List UInt8)
    (h : advance? target (session, board) = some (next, after)) :
    advance? target (session.append more, board) = some (next.append more, after) := by
  obtain ⟨token, htoken, htake⟩ := Option.map_eq_some_iff.mp h
  have hphase : session.phase ≠ .Failed := by
    intro hfailed
    rw [hfailed] at htoken
    cases htoken
  have hmore := take_append htoken more board
  simp only at htake
  rw [htake] at hmore
  simp only [advance?, append_eq hphase] at hmore ⊢
  rw [Target.token?_append more htoken, Option.map_some, hmore]

theorem Reaches.append {now last : Session × σ} (more : List UInt8)
    (h : Reaches target now last) :
    Reaches target (now.1.append more, now.2) (last.1.append more, last.2) := by
  induction h with
  | refl => exact Relation.ReflTransGen.refl
  | tail _ hstep ih => exact ih.tail (advance?_append more hstep)

omit [TickCounter σ] in
-- Bytes can be copied in two parts with the full pages programmed in between.
theorem flush_copied_add (session : Session) (one other : Nat) {middle next : Phase}
    (left leftMiddle : UInt32) (hmiddle : middle ≠ .Failed) (board : σ) :
    (session.copied (one + other) next left).flush target board =
      let first := (session.copied one middle leftMiddle).flush target board
      if first.1.phase = .Failed then first
      else (first.1.copied other next left).flush target first.2 := by
  have happend := target.flush_append (session.pending ++ session.received.take one)
    ((session.received.drop one).take other) session.cursor board
  cases hfirst : target.flush (session.pending ++ session.received.take one) session.cursor board
    with
  | mk result after =>
      rw [hfirst] at happend
      simp only [flush, copied, List.take_add, ← List.append_assoc, happend, hfirst]
      rcases result with ⟨failure | rest, cursor⟩
      · simp [flushed, failed]
      · simp [flushed, hmiddle]

-- What holds of a session between two tokens: the cursor is in the partition,
-- less than a page waits, and a bulk payload has words to come.
structure Sound (target : Target) (session : Session) : Prop where
  offset_le : target.partition.offset.toNat ≤ session.cursor.toNat
  pending_lt : session.pending.length < target.page
  bulk : session.phase = .Bulk → session.bulkLeft ≠ 0

theorem Sound.start : Sound target (start target) :=
  ⟨Nat.le_refl _, target.page_pos, fun h => by cases h⟩

theorem Sound.failed {failure : UpdateError} {cursor : UInt32}
    (h : target.partition.offset.toNat ≤ cursor.toNat) : Sound target (failed failure cursor) :=
  ⟨h, target.page_pos, fun h => by cases h⟩

theorem Sound.append {session : Session} (h : Sound target session) (more : List UInt8) :
    Sound target (session.append more) := by
  unfold Session.append
  split
  · exact h
  · exact ⟨h.offset_le, h.pending_lt, h.bulk⟩

omit [TickCounter σ] in
theorem Sound.flush {session : Session} {board : σ}
    (hoffset : target.partition.offset.toNat ≤ session.cursor.toNat)
    (hbulk : session.phase = .Bulk → session.bulkLeft ≠ 0) :
    Sound target (session.flush target board).1 := by
  simp only [Session.flush]
  rcases hresult : target.flush session.pending session.cursor board with
    ⟨⟨failure | rest, cursor⟩, after⟩
  · have hcursor := (target.cursor_of_flush hresult).1
    exact Sound.failed (by omega)
  · have hcursor := (target.cursor_of_flush hresult).1
    exact ⟨by simp only [flushed]; omega, target.length_lt_of_flush hresult, hbulk⟩

theorem Sound.advance {now next : Session × σ} (h : Sound target now.1)
    (hstep : advance? target now = some next) : Sound target next.1 := by
  obtain ⟨token, htoken, rfl⟩ := Option.map_eq_some_iff.mp hstep
  cases token with
  | Skip count => exact ⟨h.offset_le, h.pending_lt, fun hbulk => by cases hbulk⟩
  | Prepare =>
      simp only [take]
      cases (target.partition.prepare now.2).1 with
      | some failure => exact Sound.failed h.offset_le
      | none => exact ⟨h.offset_le, h.pending_lt, fun hbulk => by cases hbulk⟩
  | Copy count next left =>
      exact Sound.flush h.offset_le (Target.copy_of_token? htoken).2.2
  | Refuse failure => exact Sound.failed h.offset_le

theorem Sound.reaches {now last : Session × σ} (h : Sound target now.1)
    (hreach : Reaches target now last) : Sound target last.1 := by
  induction hreach with
  | refl => exact h
  | tail _ hstep ih => exact ih.advance hstep

end

end Session

end BoardControl.Bitstream
