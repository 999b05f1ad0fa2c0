import Mathlib.Data.List.DropRight
import Mathlib.Logic.Relation
import Orqalis.Lib.System
import Orqalis.Persistence.Log

/-!
# The live view of a run

A client shows the events of a run: it asks for the state of the run and for the history up to
it, then follows a socket on which the server sends what was committed after it, each batch
before the state that covers it. Commits, the queue that wakes the server, the two requests, the
frames on the socket and its closing are steps of their own, in any order.

What the socket still carries is a chain of segments of the log, each from the cursor of the one
before (`Stream`); so what the client shows is the end of the log up to its own cursor, as long
as the cursor is an integer that the client's numbers are exact for (`live_view`).
-/

namespace Orqalis

open Lib

namespace LiveView

/-! ## The client's buffer -/

/-- How many events are shown. -/
@[irreducible] def bound : Nat := 200

/-- `Number.MAX_SAFE_INTEGER` -/
@[irreducible] def maxSafeInteger : Nat := 9007199254740991

/-- The events of both lists, one for each sequence, in order; the last of them. Of the incoming
ones, those up to the cursor. -/
def mergeEvents (current incoming : List Event) (cursor : Nat) : List Event :=
  let unique : Table Event.sequence :=
    (incoming.filter fun e => e.sequence ≤ cursor).foldl Table.put (Table.ofList current)
  (unique.entries.mergeSort fun a b => a.sequence ≤ b.sequence).rtake bound

/-- The events of the buffer, with a batch added. -/
def EventBuffer.add (pending batch : List Event) : List Event :=
  mergeEvents pending batch maxSafeInteger

/-- The events the buffer gives up to a cursor, and what it keeps. -/
def EventBuffer.take (pending : List Event) (cursor : Nat) : List Event × List Event :=
  (pending.filter fun e => e.sequence ≤ cursor, pending.filter fun e => cursor < e.sequence)

/-- The events of a log after a sequence, a number of them or all. -/
def listEvents (r : Records) (after : Nat) (limit : Option Nat) : List Event :=
  let events := r.events.filter fun e => after < e.sequence
  match limit with
  | none => events
  | some n => events.take n

/-- The events a view is to show: the last of those up to a sequence. -/
def tail (r : Records) (cursor : Nat) : List Event :=
  (r.events.filter fun e => e.sequence ≤ cursor).rtake bound

/-- The events between two sequences. -/
def segment (r : Records) (start stop : Nat) : List Event :=
  (listEvents r start none).filter fun e => e.sequence ≤ stop

/-! ### Merging what follows -/

theorem rtake_append_rtake (n : Nat) (l m : List Event) :
    (l.rtake n ++ m.rtake n).rtake n = (l ++ m).rtake n := by
  simp only [List.rtake_eq_reverse_take_reverse, List.reverse_append, List.reverse_reverse]
  rw [List.take_append, List.take_append, List.take_take, Nat.min_self, List.take_take,
    List.length_take]
  congr 3
  omega

/-- What follows the current events is put after them. -/
theorem mergeEvents_append {current incoming : List Event} {cursor : Nat}
    (horder : (current ++ incoming).Pairwise fun a b => a.sequence < b.sequence)
    (hcursor : ∀ e ∈ incoming, e.sequence ≤ cursor) :
    mergeEvents current incoming cursor = (current ++ incoming).rtake bound := by
  have hfilter : (incoming.filter fun e => e.sequence ≤ cursor) = incoming :=
    List.filter_eq_self.mpr fun e he => decide_eq_true (hcursor e he)
  have hnodup : ((current ++ incoming).map Event.sequence).Nodup :=
    List.pairwise_map.mpr (horder.imp fun h => Nat.ne_of_lt h)
  have hentries : (incoming.foldl Table.put
      (Table.ofList current : Table Event.sequence)).entries = current ++ incoming := by
    have hfold : incoming.foldl Table.put (Table.ofList current : Table Event.sequence) =
        Table.ofList (current ++ incoming) := List.foldl_append.symm
    rw [hfold]
    exact Table.entries_ofList hnodup
  unfold mergeEvents
  dsimp only
  rw [hfilter, hentries, List.mergeSort_of_pairwise]
  exact horder.imp fun h => decide_eq_true (Nat.le_of_lt h)

/-- What is merged was there or is up to the cursor. -/
theorem mem_mergeEvents {current incoming : List Event} {cursor : Nat} {e : Event}
    (h : e ∈ mergeEvents current incoming cursor) :
    e ∈ current ∨ e ∈ incoming ∧ e.sequence ≤ cursor := by
  unfold mergeEvents at h
  have hmem := List.mem_mergeSort.mp (List.mem_of_mem_drop h)
  have hput : ∀ (l : List Event) (t : Table Event.sequence), e ∈ (l.foldl Table.put t).entries →
      e ∈ t.entries ∨ e ∈ l := by
    intro l
    induction l with
    | nil => exact fun t ht => Or.inl ht
    | cons x l ih =>
      intro t ht
      rcases ih (t.put x) ht with hold | hnew
      · rcases Table.mem_put.mp hold with rfl | ⟨hold, _⟩
        · exact Or.inr List.mem_cons_self
        · exact Or.inl hold
      · exact Or.inr (List.mem_cons_of_mem x hnew)
  rcases hput _ _ hmem with hcurrent | hincoming
  · rcases hput current Table.empty hcurrent with hnone | hcurrent
    · cases hnone
    · exact Or.inl hcurrent
  · obtain ⟨hmem, hle⟩ := List.mem_filter.mp hincoming
    exact Or.inr ⟨hmem, of_decide_eq_true hle⟩

/-! ### Segments of a log -/

section Segments

variable {l : List Event} {s : Nat}

theorem filter_after (h : l.map Event.sequence = List.range' s l.length) (k : Nat) :
    (l.filter fun e => k < e.sequence) = l.drop (k + 1 - s) := by
  induction l generalizing s with
  | nil => simp
  | cons e l ih =>
    rw [List.map_cons, List.length_cons, List.range'_succ, List.cons.injEq] at h
    obtain ⟨hs, hrest⟩ := h
    have htail := ih hrest
    by_cases hk : k < e.sequence
    · rw [List.filter_cons_of_pos (by simpa using hk), htail,
        show k + 1 - (s + 1) = 0 by omega, show k + 1 - s = 0 by omega]
      rfl
    · rw [List.filter_cons_of_neg (by simpa using hk), htail,
        show k + 1 - s = k + 1 - (s + 1) + 1 by omega, List.drop_succ_cons]

theorem filter_upto (h : l.map Event.sequence = List.range' s l.length) (m : Nat) :
    (l.filter fun e => e.sequence ≤ m) = l.take (m + 1 - s) := by
  induction l generalizing s with
  | nil => simp
  | cons e l ih =>
    rw [List.map_cons, List.length_cons, List.range'_succ, List.cons.injEq] at h
    obtain ⟨hs, hrest⟩ := h
    have htail := ih hrest
    by_cases hm : e.sequence ≤ m
    · rw [List.filter_cons_of_pos (by simpa using hm), htail,
        show m + 1 - s = m + 1 - (s + 1) + 1 by omega, List.take_succ_cons]
    · rw [List.filter_cons_of_neg (by simpa using hm), htail,
        show m + 1 - (s + 1) = 0 by omega, show m + 1 - s = 0 by omega]
      rfl

theorem pairwise_of_numbered (h : l.map Event.sequence = List.range' s l.length) :
    l.Pairwise fun a b => a.sequence < b.sequence := by
  have hrange : (l.map Event.sequence).Pairwise (· < ·) := by
    rw [h]
    exact List.pairwise_lt_range'
  exact List.pairwise_map.mp hrange

theorem numbered_drop (h : l.map Event.sequence = List.range' s l.length) (k : Nat) :
    (l.drop k).map Event.sequence = List.range' (s + k) (l.drop k).length := by
  rw [List.map_drop, h, List.drop_range', List.length_drop, Nat.mul_one]

theorem numbered_take (h : l.map Event.sequence = List.range' s l.length) (k : Nat) :
    (l.take k).map Event.sequence = List.range' s (l.take k).length := by
  rw [List.map_take, h, List.length_take]
  rcases Nat.le_total k l.length with hle | hle
  · rw [List.take_range'_of_length_ge hle, Nat.min_eq_left hle]
  · rw [List.take_range'_of_length_le hle, Nat.min_eq_right hle]

end Segments

variable {r r' : Records}

theorem tail_eq (h : r.Sequenced) (cursor : Nat) :
    tail r cursor = (r.events.take cursor).rtake bound := by
  unfold tail
  rw [filter_upto h.numbered]
  rfl

theorem segment_eq (h : r.Sequenced) (start stop : Nat) :
    segment r start stop = (r.events.drop start).take (stop - start) := by
  unfold segment listEvents
  dsimp only
  have hafter := filter_after h.numbered start
  rw [hafter, Nat.add_sub_cancel, filter_upto (numbered_drop h.numbered start)]
  congr 1
  omega

/-- The events up to a sequence, and those up to a later one. -/
theorem take_append_segment (h : r.Sequenced) {start stop : Nat} (hle : start ≤ stop) :
    r.events.take start ++ segment r start stop = r.events.take stop := by
  rw [segment_eq h, ← List.take_add, Nat.add_sub_cancel' hle]

theorem le_of_mem_segment {start stop : Nat} {e : Event} (h : e ∈ segment r start stop) :
    e.sequence ≤ stop := of_decide_eq_true (List.mem_filter.mp h).2

/-- A log that goes on has the segments it had. -/
theorem segment_extends (h : r.Sequenced) (h' : r'.Sequenced) (hext : r.events <+: r'.events)
    {start stop : Nat} (hstop : stop ≤ r.events.length) :
    segment r' start stop = segment r start stop := by
  obtain ⟨new, hnew⟩ := hext
  rw [segment_eq h, segment_eq h', ← hnew, ← List.drop_take, ← List.drop_take,
    List.take_append_of_le_length hstop]

theorem tail_extends (h : r.Sequenced) (h' : r'.Sequenced) (hext : r.events <+: r'.events)
    {cursor : Nat} (hcursor : cursor ≤ r.events.length) : tail r' cursor = tail r cursor := by
  obtain ⟨new, hnew⟩ := hext
  rw [tail_eq h, tail_eq h', ← hnew, List.take_append_of_le_length hcursor]

theorem pairwise_events (h : r.Sequenced) :
    r.events.Pairwise fun a b => a.sequence < b.sequence := pairwise_of_numbered h.numbered

/-- A buffer that was empty has the end of the segment that is added. -/
theorem add_segment (h : r.Sequenced) {start stop : Nat} (hsafe : stop ≤ maxSafeInteger) :
    EventBuffer.add [] (segment r start stop) = (segment r start stop).rtake bound := by
  unfold EventBuffer.add
  rw [mergeEvents_append]
  · rfl
  · rw [List.nil_append, segment_eq h]
    exact (pairwise_events h).sublist ((List.take_sublist _ _).trans (List.drop_sublist _ _))
  · exact fun e he => (le_of_mem_segment he).trans hsafe

/-- The buffer holds nothing after the end of the segment. -/
theorem le_of_mem_add {start stop : Nat} {e : Event}
    (h : e ∈ EventBuffer.add [] (segment r start stop)) : e.sequence ≤ stop := by
  rcases mem_mergeEvents h with hnone | ⟨hmem, _⟩
  · cases hnone
  · exact le_of_mem_segment hmem

/-- The end of the log up to a sequence, with the end of the segment after it, is the end of the
log up to the end of the segment. -/
theorem mergeEvents_tail (h : r.Sequenced) {start stop : Nat} (hle : start ≤ stop) :
    mergeEvents (tail r start) ((segment r start stop).rtake bound) stop = tail r stop := by
  have hsublist : ((r.events.take start).rtake bound ++
      (segment r start stop).rtake bound).Sublist r.events := by
    have hboth := List.Sublist.append (List.drop_sublist ((r.events.take start).length - bound)
      (r.events.take start)) (List.drop_sublist ((segment r start stop).length - bound)
      (segment r start stop))
    rw [take_append_segment h hle] at hboth
    exact hboth.trans (List.take_sublist _ _)
  rw [tail_eq h, tail_eq h, mergeEvents_append ((pairwise_events h).sublist hsublist),
    rtake_append_rtake, take_append_segment h hle]
  exact fun e he => le_of_mem_segment (List.mem_of_mem_drop he)

/-- The history up to a state is the end of the log up to it. -/
theorem mergeEvents_history (h : r.Sequenced) {last : Nat} (hlast : last ≤ r.events.length) :
    mergeEvents [] (listEvents r (last - bound) (some bound)) last = tail r last := by
  have hlist : listEvents r (last - bound) (some bound) =
      (r.events.drop (last - bound)).take bound := by
    unfold listEvents
    dsimp only
    rw [filter_after h.numbered, Nat.add_sub_cancel]
  have hupto : ((listEvents r (last - bound) (some bound)).filter fun e => e.sequence ≤ last) =
      segment r (last - bound) last := by
    have hmin : min (last + 1 - (1 + (last - bound))) bound = last - (last - bound) := by omega
    rw [hlist, filter_upto (numbered_take (numbered_drop h.numbered (last - bound)) bound),
      segment_eq h, List.take_take, hmin]
  have hidem : mergeEvents [] (listEvents r (last - bound) (some bound)) last =
      mergeEvents [] (segment r (last - bound) last) last := by
    unfold mergeEvents
    rw [← hupto, List.filter_filter]
    simp only [Bool.and_self]
  have hshown : (r.events.take last).rtake bound =
      (segment r (last - bound) last).rtake bound := by
    rw [← take_append_segment h (Nat.sub_le last bound)]
    by_cases hlong : bound ≤ last
    · have hlength : (segment r (last - bound) last).length = bound := by
        rw [segment_eq h, List.length_take, List.length_drop]
        omega
      unfold List.rtake
      rw [List.length_append, hlength, Nat.add_sub_cancel, List.drop_left, Nat.sub_self,
        List.drop_zero]
    · rw [Nat.sub_eq_zero_of_le (Nat.le_of_not_le hlong), List.take_zero, List.nil_append]
  rw [hidem, mergeEvents_append, tail_eq h, List.nil_append, hshown]
  · rw [List.nil_append, segment_eq h]
    exact (pairwise_events h).sublist ((List.take_sublist _ _).trans (List.drop_sublist _ _))
  · exact fun e he => le_of_mem_segment he

/-! ## The server, the socket and the client -/

/-- A full queue drops its oldest notifications and takes the new one. -/
def offerLatest (size : Nat) : List Nat → Nat → List Nat
  | [], sequence => [sequence]
  | oldest :: queue, sequence =>
    if size ≤ queue.length + 1 then offerLatest size queue sequence
    else oldest :: queue ++ [sequence]

/-- What the server sends: events, or the state of the run, with the sequence of its last
event. -/
inductive Frame where
  | events (batch : List Event)
  | snapshot (last : Nat)

/-- Where the server's handler of the socket is. -/
inductive Handler where
  | accepted (cursor : Nat)
  | reads (cursor : Nat)
  | loads (cursor last : Nat)
  | sends (batch : List Event) (last : Nat)
  | covers (last : Nat)
  | listens (cursor : Nat)
  | ended

/-- Where the client is. Once it follows the socket it has a cursor, a buffer, and whether the
history was loaded. -/
inductive Connection where
  | waits
  | asksState
  | asksHistory (last : Nat)
  | has (last : Nat) (history : Option (List Event))
  | follows (cursor : Nat) (pending : List Event) (complete : Bool)
  | stopped

/-- The records of the run, what the client is at and what it shows, the server's handler of the
socket, the frames on the socket and the queue of the handler. -/
structure World where
  records : Records
  connection : Connection
  shown : List Event
  handler : Handler
  frames : List Frame
  queue : List Nat

/-- The client accepts the state of the run that is next on the socket. -/
inductive Accepts : World → World → Nat → Bool → Prop
  | intro {w : World} {cursor last : Nat} {pending : List Event} {complete : Bool}
    {frames : List Frame} (h : w.connection = .follows cursor pending complete)
    (hframe : w.frames = .snapshot last :: frames) (hnew : cursor ≤ last) :
    Accepts w
      { w with
        connection := .follows last (EventBuffer.take pending last).2 complete
        shown := mergeEvents w.shown (EventBuffer.take pending last).1 last
        frames } last complete

/-- What happens: in the store, at the bus, in the server's handler, at the client, on the
socket. -/
inductive Step (safe : String → Bool) (size : Nat) : World → World → Prop
  | commits {w : World} {records : Records}
    (h : Relation.ReflTransGen (Staging safe) w.records records) :
    Step safe size w { w with records }
  /-- `publish`, of any notification -/
  | publishes {w : World} (sequence : Nat) :
    Step safe size w { w with queue := offerLatest size w.queue sequence }
  | loses {w : World} (i : Nat) : Step safe size w { w with queue := w.queue.eraseIdx i }
  /-- `send_updates` -/
  | subscribes {w : World} {cursor : Nat} (h : w.handler = .accepted cursor) :
    Step safe size w { w with handler := .reads cursor, queue := [] }
  | readsState {w : World} {cursor : Nat} (h : w.handler = .reads cursor)
    (hcursor : cursor ≤ w.records.run.lastEventSequence) :
    Step safe size w { w with handler := .loads cursor w.records.run.lastEventSequence }
  | rejectsCursor {w : World} {cursor : Nat} (h : w.handler = .reads cursor)
    (hcursor : w.records.run.lastEventSequence < cursor) :
    Step safe size w { w with handler := .ended }
  | loadsEvents {w : World} {cursor last : Nat} (h : w.handler = .loads cursor last) :
    Step safe size w { w with
      handler := .sends ((listEvents w.records cursor none).filter fun e => e.sequence ≤ last)
        last }
  | sendsEvents {w : World} {batch : List Event} {last : Nat} (h : w.handler = .sends batch last)
    (hbatch : batch ≠ []) :
    Step safe size w { w with
      handler := .covers last, frames := w.frames ++ [.events batch] }
  | sendsNothing {w : World} {last : Nat} (h : w.handler = .sends [] last) :
    Step safe size w { w with handler := .covers last }
  | sendsState {w : World} {last : Nat} (h : w.handler = .covers last) :
    Step safe size w { w with
      handler := .listens last, frames := w.frames ++ [.snapshot last] }
  | receives {w : World} {cursor sequence : Nat} {queue : List Nat}
    (h : w.handler = .listens cursor) (hqueue : w.queue = sequence :: queue) :
    Step safe size w { w with handler := .reads cursor, queue }
  | timesOut {w : World} {cursor : Nat} (h : w.handler = .listens cursor) :
    Step safe size w { w with handler := .reads cursor }
  | ends {w : World} : Step safe size w { w with handler := .ended }
  /-- `connect` -/
  | connects {w : World} (h : w.connection = .waits) :
    Step safe size w { w with connection := .asksState }
  | hasState {w : World} (h : w.connection = .asksState) :
    Step safe size w { w with connection := .asksHistory w.records.run.lastEventSequence }
  | fails {w : World} (h : w.connection = .asksState) :
    Step safe size w { w with connection := .waits }
  | hasHistory {w : World} {last : Nat} (h : w.connection = .asksHistory last) :
    Step safe size w { w with
      connection := .has last (some (listEvents w.records (last - bound) (some bound))) }
  | failsHistory {w : World} {last : Nat} (h : w.connection = .asksHistory last) :
    Step safe size w { w with connection := .has last none }
  | opens {w : World} {last : Nat} {history : Option (List Event)}
    (h : w.connection = .has last history) :
    Step safe size w { w with
      connection := .follows last [] history.isSome
      shown := mergeEvents [] (history.getD []) last
      handler := .accepted last
      frames := [] }
  | receivesEvents {w : World} {cursor : Nat} {pending batch : List Event} {complete : Bool}
    {frames : List Frame} (h : w.connection = .follows cursor pending complete)
    (hframe : w.frames = .events batch :: frames) :
    Step safe size w { w with
      connection := .follows cursor (EventBuffer.add pending batch) complete, frames }
  | accepts {w w' : World} {last : Nat} {complete : Bool} (h : Accepts w w' last complete) :
    Step safe size w w'
  | ignores {w : World} {cursor last : Nat} {pending : List Event} {complete : Bool}
    {frames : List Frame} (h : w.connection = .follows cursor pending complete)
    (hframe : w.frames = .snapshot last :: frames) (hold : last < cursor) :
    Step safe size w { w with frames }
  | closes {w : World} {cursor : Nat} {pending : List Event} {complete : Bool}
    (h : w.connection = .follows cursor pending complete) :
    Step safe size w { w with connection := .waits, handler := .ended, frames := [] }
  | stops {w : World} : Step safe size w { w with
      connection := .stopped, handler := .ended, frames := [] }

/-! ## What the socket carries -/

/-- Frames that continue a cursor and a buffer: segments of the log, each with the state that
covers it. -/
inductive Stream (r : Records) : Nat → List Event → List Frame → Nat → Prop
  | done (cursor : Nat) : Stream r cursor [] [] cursor
  | batch {cursor last final : Nat} {frames : List Frame} (hle : cursor ≤ last)
    (hlast : last ≤ r.events.length)
    (h : Stream r cursor (EventBuffer.add [] (segment r cursor last)) frames final) :
    Stream r cursor [] (.events (segment r cursor last) :: frames) final
  | state {cursor last final : Nat} {pending : List Event} {frames : List Frame}
    (hpending : pending = EventBuffer.add [] (segment r cursor last)) (hle : cursor ≤ last)
    (hlast : last ≤ r.events.length) (h : Stream r last [] frames final) :
    Stream r cursor pending (.snapshot last :: frames) final

/-- Frames go on after frames. -/
theorem Stream.append {cursor middle final : Nat} {pending : List Event} {frames more : List Frame}
    (h : Stream r cursor pending frames middle) (hmore : Stream r middle [] more final) :
    Stream r cursor pending (frames ++ more) final := by
  induction h with
  | done cursor => exact hmore
  | batch hle hlast _ ih => exact .batch hle hlast (ih hmore)
  | state hpending hle hlast _ ih => exact .state hpending hle hlast (ih hmore)

/-- A log that goes on has the streams it had. -/
theorem Stream.extends {cursor final : Nat} {pending : List Event} {frames : List Frame}
    (h : Stream r cursor pending frames final) (hr : r.Sequenced) (hr' : r'.Sequenced)
    (hext : r.events <+: r'.events) : Stream r' cursor pending frames final := by
  induction h with
  | done cursor => exact .done cursor
  | @batch cursor last final frames hle hlast _ ih =>
    have hsegment : segment r' cursor last = segment r cursor last :=
      segment_extends hr hr' hext hlast
    rw [← hsegment]
    rw [← hsegment] at ih
    exact .batch hle (hlast.trans hext.length_le) ih
  | state hpending hle hlast _ ih =>
    rw [← segment_extends hr hr' hext hlast] at hpending
    exact .state hpending hle (hlast.trans hext.length_le) ih

/-- What a handler has still to send of what it read, and the cursor it is then at. -/
def Handler.Owes (r : Records) (rest : List Frame) (final : Nat) : Handler → Prop
  | .accepted cursor => rest = [] ∧ final = cursor
  | .reads cursor => rest = [] ∧ final = cursor
  | .listens cursor => rest = [] ∧ final = cursor
  | .loads cursor last => rest = [] ∧ final = cursor ∧ cursor ≤ last ∧ last ≤ r.events.length
  | .sends batch last =>
    rest = (if batch = [] then [] else [.events batch]) ++ [.snapshot last] ∧ final = last
  | .covers last => rest = [.snapshot last] ∧ final = last
  | .ended => True

theorem Handler.Owes.extends {rest : List Frame} {final : Nat} {handler : Handler}
    (h : handler.Owes r rest final) (hext : r.events <+: r'.events) :
    handler.Owes r' rest final := by
  cases handler with
  | loads cursor last => exact ⟨h.1, h.2.1, h.2.2.1, h.2.2.2.trans hext.length_le⟩
  | _ => exact h

/-- What a batch and its state continue. -/
theorem stream_batch {cursor last : Nat} (hle : cursor ≤ last) (hlast : last ≤ r.events.length) :
    Stream r cursor []
      ((if segment r cursor last = [] then [] else [.events (segment r cursor last)]) ++
        [.snapshot last]) last := by
  by_cases hnone : segment r cursor last = []
  · rw [if_pos hnone, List.nil_append]
    refine .state ?_ hle hlast (.done last)
    rw [hnone]
    unfold EventBuffer.add
    rw [mergeEvents_append]
    · rw [List.append_nil, List.rtake_nil]
    · exact .nil
    · exact fun e he => by cases he
  · rw [if_neg hnone]
    exact .batch hle hlast (.state rfl hle hlast (.done last))

/-! ## The invariant -/

/-- What the client has is right. -/
def Connection.Right (r : Records) (shown : List Event) (handler : Handler)
    (frames : List Frame) : Connection → Prop
  | .asksHistory last => last ≤ r.events.length
  | .has last history =>
    last ≤ r.events.length ∧ ∀ events, history = some events →
      mergeEvents [] events last = tail r last
  | .follows cursor pending complete =>
    cursor ≤ r.events.length ∧
    (complete = true → cursor ≤ maxSafeInteger → shown = tail r cursor) ∧
    ∃ rest final, Stream r cursor pending (frames ++ rest) final ∧ handler.Owes r rest final
  | _ => True

/-- What holds in every run. -/
structure Sound (w : World) : Prop where
  sequenced : w.records.Sequenced
  right : w.connection.Right w.records w.shown w.handler w.frames

/-- What the client has stays right when the log goes on. -/
theorem Connection.Right.extends {shown : List Event} {handler : Handler} {frames : List Frame}
    {connection : Connection} (h : connection.Right r shown handler frames) (hr : r.Sequenced)
    (hr' : r'.Sequenced) (hext : r.events <+: r'.events) :
    connection.Right r' shown handler frames := by
  cases connection with
  | asksHistory last => exact h.trans hext.length_le
  | has last history =>
    obtain ⟨hlast, hhistory⟩ := h
    refine ⟨hlast.trans hext.length_le, fun events hevents => ?_⟩
    rw [tail_extends hr hr' hext hlast]
    exact hhistory events hevents
  | follows cursor pending complete =>
    obtain ⟨hcursor, hshown, rest, final, hstream, howes⟩ := h
    refine ⟨hcursor.trans hext.length_le, fun hcomplete hsafe => ?_, rest, final,
      hstream.extends hr hr' hext, howes.extends hext⟩
    rw [tail_extends hr hr' hext hcursor]
    exact hshown hcomplete hsafe
  | _ => exact True.intro

/-- A handler goes on: what it owes with what it was owed, on the same frames or on more. -/
theorem Connection.Right.handler {shown : List Event} {handler handler' : Handler}
    {frames frames' : List Frame} {connection : Connection}
    (h : connection.Right r shown handler frames)
    (howes : ∀ rest final, handler.Owes r rest final → ∀ cursor pending,
      Stream r cursor pending (frames ++ rest) final →
      ∃ rest' final', Stream r cursor pending (frames' ++ rest') final' ∧
        handler'.Owes r rest' final') :
    connection.Right r shown handler' frames' := by
  cases connection with
  | follows cursor pending complete =>
    obtain ⟨hcursor, hshown, rest, final, hstream, howed⟩ := h
    exact ⟨hcursor, hshown, howes rest final howed cursor pending hstream⟩
  | _ => exact h

/-- A handler that owes what it owed leaves the client right. -/
theorem Connection.Right.goes {shown : List Event} {handler handler' : Handler}
    {frames : List Frame} {connection : Connection}
    (h : connection.Right r shown handler frames)
    (howes : ∀ rest final, handler.Owes r rest final → handler'.Owes r rest final) :
    connection.Right r shown handler' frames :=
  h.handler fun rest final hrest _ _ hstream => ⟨rest, final, hstream, howes rest final hrest⟩

/-- An accepted state leaves what the client shows right. -/
theorem Sound.accepts {w w' : World} {last : Nat} {complete : Bool} (hs : Sound w)
    (h : Accepts w w' last complete) : Sound w' ∧ w'.records = w.records ∧
      last ≤ w.records.events.length ∧
      (complete = true → last ≤ maxSafeInteger → w'.shown = tail w.records last) := by
  obtain ⟨hsequenced, hright⟩ := hs
  cases h with
  | intro hconnection hframe hnew =>
    rename_i cursor pending frames
    rw [hconnection, hframe] at hright
    obtain ⟨hcursor, hshown, rest, final, hstream, howes⟩ := hright
    cases hstream with
    | state hpending hle hlast hrest =>
      have hupto : ∀ e ∈ pending, e.sequence ≤ last := by
        rw [hpending]
        exact fun e he => le_of_mem_add he
      have htaken : (EventBuffer.take pending last).1 = pending :=
        List.filter_eq_self.mpr fun e he => decide_eq_true (hupto e he)
      have hkept : (EventBuffer.take pending last).2 = [] :=
        List.filter_eq_nil_iff.mpr fun e he => by
          rw [decide_eq_true_iff]
          exact Nat.not_lt.mpr (hupto e he)
      have hview : complete = true → last ≤ maxSafeInteger →
          mergeEvents w.shown (EventBuffer.take pending last).1 last = tail w.records last := by
        intro hcomplete hsafe
        rw [htaken, hpending, hshown hcomplete (hle.trans hsafe),
          add_segment hsequenced hsafe, mergeEvents_tail hsequenced hle]
      refine ⟨⟨hsequenced, hlast, hview, rest, final, ?_, howes⟩, rfl, hlast, hview⟩
      rw [hkept]
      exact hrest

/-- One step keeps the invariant. -/
theorem Sound.step {safe : String → Bool} {size : Nat} {w w' : World} (hs : Sound w)
    (hstep : Step safe size w w') : Sound w' := by
  obtain ⟨hsequenced, hright⟩ := hs
  have hcursor := hsequenced.cursor
  cases hstep with
  | commits h =>
    have hext := Extends.of_calls h
    have hsequenced' := hext.sequenced hsequenced
    exact ⟨hsequenced', hright.extends hsequenced hsequenced' hext.events⟩
  | publishes sequence => exact ⟨hsequenced, hright⟩
  | loses i => exact ⟨hsequenced, hright⟩
  | subscribes h =>
    refine ⟨hsequenced, hright.goes fun rest final howes => ?_⟩
    rw [h] at howes
    exact howes
  | readsState h hle =>
    refine ⟨hsequenced, hright.goes fun rest final howes => ?_⟩
    rw [h] at howes
    exact ⟨howes.1, howes.2, hle, hcursor.le⟩
  | rejectsCursor h hlt =>
    exact ⟨hsequenced, hright.goes fun _ _ _ => True.intro⟩
  | loadsEvents h =>
    refine ⟨hsequenced, hright.handler fun rest final howes _ _ hstream => ?_⟩
    rw [h] at howes
    obtain ⟨rfl, rfl, hle, hlast⟩ := howes
    rw [List.append_nil] at hstream
    exact ⟨_, _, hstream.append (stream_batch hle hlast), rfl, rfl⟩
  | sendsEvents h hbatch =>
    refine ⟨hsequenced, hright.handler fun rest final howes _ _ hstream => ?_⟩
    rw [h] at howes
    obtain ⟨rfl, rfl⟩ := howes
    rw [if_neg hbatch, ← List.append_assoc] at hstream
    exact ⟨_, _, hstream, rfl, rfl⟩
  | sendsNothing h =>
    refine ⟨hsequenced, hright.goes fun rest final howes => ?_⟩
    rw [h] at howes
    exact howes
  | sendsState h =>
    refine ⟨hsequenced, hright.handler fun rest final howes _ _ hstream => ?_⟩
    rw [h] at howes
    obtain ⟨rfl, rfl⟩ := howes
    exact ⟨[], _, by rwa [List.append_nil], rfl, rfl⟩
  | receives h hqueue =>
    refine ⟨hsequenced, hright.goes fun rest final howes => ?_⟩
    rw [h] at howes
    exact howes
  | timesOut h =>
    refine ⟨hsequenced, hright.goes fun rest final howes => ?_⟩
    rw [h] at howes
    exact howes
  | ends =>
    exact ⟨hsequenced, hright.goes fun _ _ _ => True.intro⟩
  | connects h => exact ⟨hsequenced, True.intro⟩
  | hasState h => exact ⟨hsequenced, hcursor.le⟩
  | fails h => exact ⟨hsequenced, True.intro⟩
  | hasHistory h =>
    rw [h] at hright
    refine ⟨hsequenced, hright, fun events hevents => ?_⟩
    obtain rfl := Option.some.inj hevents
    exact mergeEvents_history hsequenced hright
  | failsHistory h =>
    rw [h] at hright
    exact ⟨hsequenced, hright, fun events hevents => by cases hevents⟩
  | @opens last history h =>
    rw [h] at hright
    obtain ⟨hlast, hhistory⟩ := hright
    refine ⟨hsequenced, hlast, fun hcomplete _ => ?_, [], last, .done last, rfl, rfl⟩
    obtain ⟨events, rfl⟩ := Option.isSome_iff_exists.mp hcomplete
    exact hhistory events rfl
  | receivesEvents h hframe =>
    rw [h, hframe] at hright
    obtain ⟨hle, hshown, rest, final, hstream, howes⟩ := hright
    cases hstream with
    | batch _ _ hrest => exact ⟨hsequenced, hle, hshown, rest, final, hrest, howes⟩
  | accepts h => exact (Sound.accepts ⟨hsequenced, hright⟩ h).1
  | ignores h hframe hold =>
    -- a state on the socket is never behind the client
    rw [h, hframe] at hright
    obtain ⟨_, _, rest, final, hstream, _⟩ := hright
    cases hstream with
    | state _ hle _ _ => exact absurd hold (Nat.not_lt.mpr hle)
  | closes h => exact ⟨hsequenced, True.intro⟩
  | stops => exact ⟨hsequenced, True.intro⟩

open Relation

/-- Whatever the store, the bus, the server, the socket and the client do, in any order: after
each state that the client accepts, on a connection whose history was loaded and up to the
integers its numbers are exact for, it shows the last events of the log up to that state, in
order and without a gap. -/
theorem live_view {safe : String → Bool} {size : Nat} {w₀ w w' : World} {last : Nat}
    (hlog : w₀.records.Sequenced) (hwaits : w₀.connection = .waits)
    (hrun : ReflTransGen (Step safe size) w₀ w) (haccepts : Accepts w w' last true)
    (hsafe : last ≤ maxSafeInteger) :
    w'.shown = tail w'.records last ∧
      w'.shown.map Event.sequence =
        List.range' (last - bound + 1) (min bound last) := by
  have hsound : Sound w :=
    System.Preserved.run (fun _ _ hs hstep => hs.step hstep) hrun ⟨hlog, by
      rw [hwaits]
      exact True.intro⟩
  obtain ⟨hsound', hrecords, hlast, hview⟩ := hsound.accepts haccepts
  have hshown := hview rfl hsafe
  rw [hrecords, hshown]
  refine ⟨rfl, ?_⟩
  have hfirst := numbered_drop (numbered_take hsound.sequenced.numbered last)
    ((w.records.events.take last).length - bound)
  rw [tail_eq hsound.sequenced]
  unfold List.rtake
  rw [hfirst, List.length_drop, List.length_take, Nat.min_eq_left hlast, Nat.add_comm 1]
  congr 1
  omega

/-- A client about to connect, with nothing shown. -/
def start (r : Records) : World where
  records := r
  connection := .waits
  shown := []
  handler := .ended
  frames := []
  queue := []

/-- The client connects, the store commits more events, and the client accepts their state. -/
theorem follows_commit {safe : String → Bool} {size : Nat} {r r' : Records}
    (hcalls : ReflTransGen (Staging safe) r r')
    (hle : r.run.lastEventSequence ≤ r'.run.lastEventSequence)
    (hnews : segment r' r.run.lastEventSequence r'.run.lastEventSequence ≠ []) :
    ∃ w w', ReflTransGen (Step safe size) (start r) w ∧
      Accepts w w' r'.run.lastEventSequence true ∧ w'.records = r' ∧
      w'.shown = mergeEvents
        (mergeEvents [] (listEvents r (r.run.lastEventSequence - bound) (some bound))
          r.run.lastEventSequence)
        (EventBuffer.take (EventBuffer.add [] (segment r' r.run.lastEventSequence
          r'.run.lastEventSequence)) r'.run.lastEventSequence).1 r'.run.lastEventSequence := by
  refine ⟨_, _, (((((((((((ReflTransGen.refl (a := start r)).tail (.connects rfl)).tail
    (.hasState rfl)).tail (.hasHistory rfl)).tail (.opens rfl)).tail (.commits hcalls)).tail
    (.subscribes rfl)).tail (.readsState rfl hle)).tail (.loadsEvents rfl)).tail
    (.sendsEvents rfl hnews)).tail (.sendsState rfl)).tail (.receivesEvents rfl rfl),
    .intro rfl rfl hle, rfl, rfl⟩

/-- A run with a log of some length. -/
def sampleLong (n : Nat) : Records where
  run := { sampleRun with lastEventSequence := n }
  events := (List.range' 1 n).map fun sequence => { sampleEvent with sequence }

/-- The event that is committed next. -/
def sampleNext : EventDraft where
  eventType := .runStateChanged
  occurredAt := 11
  idempotencyKey := "run:next"

theorem sampleLong_sequenced (n : Nat) : (sampleLong n).Sequenced where
  own := by
    intro e he
    obtain ⟨_, _, rfl⟩ := List.mem_map.mp he
    rfl
  numbered := by
    unfold sampleLong
    rw [List.map_map, List.length_map, List.length_range']
    exact List.map_id _
  cursor := by
    unfold sampleLong
    rw [List.length_map, List.length_range']

/-- The log of some length goes on. -/
theorem sampleLong_next (n : Nat) : ∃ r', ReflTransGen (Staging fun _ => true) (sampleLong n) r' ∧
    r'.run.lastEventSequence = n + 1 ∧
    r'.events = (sampleLong n).events ++ [(sampleLong n).eventOf sampleNext] ∧
    (sampleLong n).eventOf sampleNext ∈ segment r' n (n + 1) := by
  have hkey : (sampleLong n).byKey sampleNext.idempotencyKey = none := by
    refine List.find?_eq_none.mpr fun e he => ?_
    obtain ⟨_, _, rfl⟩ := List.mem_map.mp he
    exact decide_eq_true_iff.not.mpr (by decide : ¬ sampleEvent.idempotencyKey = "run:next")
  have happend : (sampleLong n).append (fun _ => true) sampleNext =
      .ok ((sampleLong n).eventOf sampleNext, { sampleLong n with
        events := (sampleLong n).events ++ [(sampleLong n).eventOf sampleNext]
        run := { (sampleLong n).run with lastEventSequence := n + 1 } }) := by
    unfold Records.append
    rw [hkey]
    rfl
  refine ⟨_, .single (.append happend), rfl, rfl, ?_⟩
  refine List.mem_filter.mpr ⟨List.mem_filter.mpr ⟨?_, ?_⟩, ?_⟩
  · exact List.mem_append_right _ (List.mem_singleton.mpr rfl)
  · exact decide_eq_true (Nat.lt_succ_self n)
  · exact decide_eq_true (Nat.le_refl (n + 1))

/-- A client that follows a log of three events shows the fourth. -/
theorem sample_live_view : ∃ w w',
    ReflTransGen (Step (fun _ => true) 256) (start (sampleLong 3)) w ∧ Accepts w w' 4 true ∧
      w'.shown.map Event.sequence = [1, 2, 3, 4] := by
  obtain ⟨r', hcalls, hlast, _, hmem⟩ := sampleLong_next 3
  have hnews : segment r' (sampleLong 3).run.lastEventSequence r'.run.lastEventSequence ≠ [] := by
    rw [hlast]
    exact List.ne_nil_of_mem hmem
  obtain ⟨w, w', hrun, haccepts, _, _⟩ := follows_commit hcalls (by rw [hlast]; decide) hnews
  rw [hlast] at haccepts
  refine ⟨w, w', hrun, haccepts, ?_⟩
  have hview := live_view (sampleLong_sequenced 3) rfl hrun haccepts
    (by unfold maxSafeInteger; decide)
  rw [hview.2]
  unfold bound
  decide

/-- A client drops an event whose sequence its numbers are not exact for: it does not show the
last event of a log of so many events. -/
theorem beyond_safe_integers : ¬ ∀ (w₀ w w' : World) (last : Nat), w₀.records.Sequenced →
    w₀.connection = .waits → ReflTransGen (Step (fun _ => true) 256) w₀ w →
    Accepts w w' last true → w'.shown = tail w'.records last := by
  intro hall
  obtain ⟨r', hcalls, hlast, hevents, hmem⟩ := sampleLong_next maxSafeInteger
  have hcursor : (sampleLong maxSafeInteger).run.lastEventSequence = maxSafeInteger := rfl
  have hnews : segment r' (sampleLong maxSafeInteger).run.lastEventSequence
      r'.run.lastEventSequence ≠ [] := by
    rw [hlast, hcursor]
    exact List.ne_nil_of_mem hmem
  obtain ⟨w, w', hrun, haccepts, hrecords, hshown⟩ :=
    follows_commit hcalls (by rw [hlast, hcursor]; exact Nat.le_succ _) hnews
  have hsafe : ∀ e ∈ w'.shown, e.sequence ≤ maxSafeInteger := by
    intro e he
    rw [hshown] at he
    rcases mem_mergeEvents he with hhistory | ⟨hpending, _⟩
    · rcases mem_mergeEvents hhistory with hnone | ⟨_, hle⟩
      · cases hnone
      · exact hle
    · rcases mem_mergeEvents (List.mem_of_mem_filter hpending) with hnone | ⟨_, hle⟩
      · cases hnone
      · exact hle
  have hequal := hall _ w w' _ (sampleLong_sequenced maxSafeInteger) rfl hrun haccepts
  -- the tail ends with the event that is dropped
  have htail : (sampleLong maxSafeInteger).eventOf sampleNext ∈ w'.shown := by
    rw [hequal, hrecords, hlast]
    unfold tail bound
    have hupto : ([(sampleLong maxSafeInteger).eventOf sampleNext].filter fun e =>
        e.sequence ≤ maxSafeInteger + 1) = [(sampleLong maxSafeInteger).eventOf sampleNext] :=
      List.filter_eq_self.mpr fun e he => by
        rw [List.mem_singleton.mp he]
        exact decide_eq_true (Nat.le_refl (maxSafeInteger + 1))
    rw [hevents, List.filter_append, hupto, List.rtake_concat_succ]
    exact List.mem_append_right _ (List.mem_singleton.mpr rfl)
  exact Nat.not_succ_le_self maxSafeInteger (hsafe _ htail)

end LiveView

end Orqalis
