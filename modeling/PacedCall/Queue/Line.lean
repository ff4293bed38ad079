import PacedCall.Queue

/-!
What each operation of a queue does to its line, the one list of all values it holds: sending
appends to it, receiving takes its head, closing leaves it alone and cancelling empties it.
-/
namespace PacedCall
namespace Queue
variable {α : Type}

theorem length_line (q : Queue α) : q.line.length = q.length := by
  simp [line, length]

theorem isEmpty_iff (q : Queue α) : q.isEmpty = true ↔ q.line = [] := by
  simp [isEmpty, ← length_line]

theorem waiting_eq_nil_of_hasRoom {q : Queue α} (h : q.hasRoom = true) : q.waiting = [] := by
  simp_all [hasRoom]

theorem line_buffered {q : Queue α} (v : α) (h : q.hasRoom = true) :
    line { q with buffer := q.buffer ++ [v] } = q.line ++ [v] := by
  simp [line, waiting_eq_nil_of_hasRoom h]

/-- A value that would not wait is at the end of the line, or was not taken at all. -/
theorem line_trySend (q : Queue α) (v : α) :
    (q.trySend v).1.line = if !q.closedForSend && q.hasRoom then q.line ++ [v] else q.line := by
  unfold trySend
  split
  · simp_all
  · split <;> simp_all [line_buffered]

/-- A value sent on an open queue is at the end of the line, whether or not it has to wait. -/
theorem line_send (q : Queue α) (v : α) :
    (q.send v).1.line = if q.closedForSend then q.line else q.line ++ [v] := by
  unfold send closedForSend
  split
  · simp_all
  · split
    · simp_all [line, waiting_eq_nil_of_hasRoom]
    · simp_all [line]

theorem line_promote (q : Queue α) : q.promote.line = q.line := by
  unfold promote
  split <;> simp_all [line]

/-- Receiving takes the head of the buffer, which is the head of the line. -/
theorem line_of_tryRecv_item {q r : Queue α} {v : α} (h : q.tryRecv = (r, .item v)) :
    q.line = v :: r.line := by
  unfold tryRecv at h
  split at h
  · next w rest hb =>
    cases h
    rw [line_promote]
    simp [line, hb]
  · split at h <;> simp_all

theorem length_of_tryRecv_item {q r : Queue α} {v : α} (h : q.tryRecv = (r, .item v)) :
    r.length + 1 = q.length := by
  rw [← length_line, ← length_line, line_of_tryRecv_item h, List.length_cons]

theorem line_close (q : Queue α) (t : Termination) : (q.close t).1.line = q.line := by
  unfold close
  split <;> rfl

theorem line_cancel (q : Queue α) (st : Status) : (q.cancel st).1.line = [] := rfl

theorem line_release (q : Queue α) : q.release.line = [] := rfl

end Queue
end PacedCall
