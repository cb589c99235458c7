import Mathlib.Data.List.Forall2

/-!
# The event client of `frisbee`

`event.c` reports a frisbee client's progress to the testbed's event system.  Its state is three
statics: `eserver`, the `elvin://` URL `EventInit` saves; `ehandle`, the handle `event_register`
returns; and `tuple`, the address tuple of the reports.  `EventSendClientReport` connects again
(`EventReinit`) when there is no handle, and disconnects (`EventDeinit`) when `event_notify`
fails, so that the next report tries again.

The event library is modelled by what it holds: the handles registered and not unregistered,
the tuples and notifications allocated and not freed, the strings `strdup` returned, and the
events `event_notify` sent.  Every library call may fail, so each call of the client takes the
outcomes of the library calls it makes; a put that fails adds no attribute.  Dereferencing a
NULL `tuple` or `ehandle`, and freeing what is not allocated, is undefined behaviour: the model
returns `none`.  C strings are their bytes.

* `run_safe`: from program start, on every sequence of calls and every outcome of the library
  calls, no call dereferences NULL or frees what is not allocated, and after each run the
  library holds the client's handle and tuple, both or neither, and no notification;
* `run_sends_reports`: over every such run, the events sent are, one for one and in order, the
  reports that returned 0, each with its tuple fields and the attributes whose puts succeeded.
-/

namespace Imagezip.Frisbee

/-- The constants of a build: `BUFSIZ` of `<stdio.h>` and the configured `BOSSNODE`. -/
structure Build where
  bufsiz : Nat
  bossnode : List UInt8

/-- The bytes of `elvin://`, which `EventInit` puts before the server. -/
def elvinScheme : List UInt8 := [101, 108, 118, 105, 110, 58, 47, 47]

/-- The bytes of `FRISBEESTATUS`, the `objtype` of a report. -/
def frisbeeStatus : List UInt8 := [70, 82, 73, 83, 66, 69, 69, 83, 84, 65, 84, 85, 83]

/-- A handle `event_register` returned: a number and the server it was registered with. -/
structure Handle where
  id : Nat
  server : List UInt8
deriving DecidableEq, Repr

/-- An attribute a report puts, with the value passed: `TSTAMP`, `SEQUENCE`, `CHUNKS_RECV` and
`CHUNKS_DECOMP` by `event_notification_put_int32`, `BYTES_WRITTEN` by
`event_notification_put_int64`. -/
inductive Attr where
  | tstamp (v : Nat)
  | sequence (v : Nat)
  | chunksRecv (v : Nat)
  | chunksDecomp (v : Nat)
  | bytesWritten (v : Nat)
deriving DecidableEq, Repr

/-- The fields of `ClientSummary_t` a report reads. -/
structure ClientSummary where
  chunksIn : Nat
  chunksOut : Nat
  bytesOut : Nat
deriving DecidableEq, Repr

/-- An event `event_notify` sent: the handle, the tuple's `host`, `objtype`, `objname` and
`eventtype`, and the attributes in the order they were put. -/
structure Event where
  handle : Handle
  host : List UInt8
  objtype : List UInt8
  objname : List UInt8
  eventtype : List UInt8
  attrs : List Attr
deriving DecidableEq, Repr

/-- The client's statics, and what the event library and `strdup` hold: the live handles,
tuples and notifications, the strings, and the events sent.  `next` numbers what is allocated. -/
structure Sys where
  ehandle : Option Handle
  tuple : Option Nat
  eserver : Option (List UInt8)
  next : Nat
  handles : List Handle
  tuples : List Nat
  notes : List Nat
  strings : List (List UInt8)
  sent : List Event
deriving DecidableEq, Repr

/-- The statics at program start, with nothing allocated. -/
def Sys.init : Sys := ⟨none, none, none, 0, [], [], [], [], []⟩

/-- Whether each library call a client call makes succeeds: `strdup`, `event_register`,
`address_tuple_alloc` and `event_notification_alloc` return NULL when not, `event_notify` returns
0, and the `event_notification_put_*` calls, in turn, return 0 (a put past `puts` succeeds). -/
structure Outcomes where
  strdup : Bool
  register : Bool
  tupleAlloc : Bool
  noteAlloc : Bool
  notify : Bool
  puts : List Bool
deriving DecidableEq, Repr

/-- Freeing `x` from the live objects `l` (`address_tuple_free`, `event_unregister`,
`event_notification_free`): undefined unless `x` is live. -/
def release {α : Type} [DecidableEq α] (x : α) (l : List α) : Option (List α) :=
  if x ∈ l then some (l.erase x) else none

/-- `EventDeinit()`: with a handle, free the tuple if there is one, then unregister. -/
def eventDeinit (s : Sys) : Option Sys :=
  match s.ehandle with
  | none => some s
  | some h => do
    let s ← match s.tuple with
      | none => some s
      | some t => do
        let tuples ← release t s.tuples
        pure { s with tuples := tuples, tuple := none }
    let handles ← release h s.handles
    pure { s with handles := handles, ehandle := none }

/-- `EventReinit()`: with no handle, register with `eserver` (1 if there is none or it fails)
and allocate the tuple; when that fails, `EventDeinit` unregisters again. -/
def eventReinit (o : Outcomes) (s : Sys) : Option (Nat × Sys) :=
  match s.ehandle with
  | some _ => some (0, s)
  | none =>
    match s.eserver with
    | none => some (1, s)
    | some srv =>
      if o.register then
        let h : Handle := ⟨s.next, srv⟩
        let s := { s with ehandle := some h, handles := h :: s.handles, next := s.next + 1 }
        if o.tupleAlloc then
          some (0, { s with tuple := some s.next, tuples := s.next :: s.tuples, next := s.next + 1 })
        else do
          let s ← eventDeinit { s with tuple := none }
          pure (1, s)
      else some (1, s)

/-- `EventInit(server)`: 1 with no server; else `eserver` becomes a `strdup` of
`elvin://server`, which `snprintf` cuts to `BUFSIZ - 1` bytes (NULL when `strdup` fails; the
earlier string is not freed), and `EventReinit` connects. -/
def eventInit (b : Build) (server : Option (List UInt8)) (o : Outcomes) (s : Sys) :
    Option (Nat × Sys) :=
  match server with
  | none => some (1, s)
  | some srv =>
    let url := (elvinScheme ++ srv).take (b.bufsiz - 1)
    eventReinit o (if o.strdup then { s with eserver := some url, strings := url :: s.strings }
      else { s with eserver := none })

/-- The attributes of a report, in the order `EventSendClientReport` puts them. -/
def reportAttrs (tstamp seq : Nat) (summary : Option ClientSummary) : List Attr :=
  [.tstamp tstamp, .sequence seq] ++
    match summary with
    | none => []
    | some sm => [.chunksRecv sm.chunksIn, .chunksDecomp sm.chunksOut, .bytesWritten sm.bytesOut]

/-- The attributes the puts leave in a notification, their results discarded with `(void)`: one
whose put failed is missing. -/
def putAll : List Bool → List Attr → List Attr
  | _, [] => []
  | [], as => as
  | ok :: oks, a :: as => if ok then a :: putAll oks as else putAll oks as

/-- The event a report sends over handle `h`, with the outcomes `puts` of its puts. -/
def reportEvent (b : Build) (h : Handle) (node image : List UInt8) (tstamp seq : Nat)
    (summary : Option ClientSummary) (puts : List Bool) : Event :=
  ⟨h, b.bossnode, frisbeeStatus, node, image, putAll puts (reportAttrs tstamp seq summary)⟩

/-- `EventSendClientReport` once it has a handle: fill the tuple, allocate a notification, put
the attributes and send it.  When `event_notify` fails the notification is freed and the client
disconnects. -/
def sendNotification (b : Build) (node image : List UInt8) (tstamp seq : Nat)
    (summary : Option ClientSummary) (o : Outcomes) (s : Sys) : Option (Nat × Sys) := do
  let some _ := s.tuple | none
  let some h := s.ehandle | none
  if !o.noteAlloc then return (1, s)
  let n := s.next
  let s := { s with notes := n :: s.notes, next := n + 1 }
  if o.notify then
    let s := { s with sent := s.sent ++ [reportEvent b h node image tstamp seq summary o.puts] }
    let notes ← release n s.notes
    return (0, { s with notes := notes })
  else
    let notes ← release n s.notes
    let s ← eventDeinit { s with notes := notes }
    return (1, s)

/-- `EventSendClientReport(node, image, tstamp, seq, summary, stats)`: connect again if there is
no handle (1 if that fails), then send.  `stats` is not read. -/
def eventSendClientReport (b : Build) (node image : List UInt8) (tstamp seq : Nat)
    (summary : Option ClientSummary) (o : Outcomes) (s : Sys) : Option (Nat × Sys) := do
  let (r, s) ← match s.ehandle with
    | none => eventReinit o s
    | some _ => some (0, s)
  if r ≠ 0 then return (1, s)
  sendNotification b node image tstamp seq summary o s

/-- A call of the client's interface. -/
inductive Call where
  | init (server : Option (List UInt8))
  | deinit
  | report (node image : List UInt8) (tstamp seq : Nat) (summary : Option ClientSummary)

/-- One call with the outcomes of its library calls: what it returns (0 for `EventDeinit`,
which returns nothing) and the state after, or `none` on undefined behaviour. -/
def call (b : Build) (o : Outcomes) : Call → Sys → Option (Nat × Sys)
  | .init server, s => eventInit b server o s
  | .deinit, s => (eventDeinit s).map fun s => (0, s)
  | .report node image tstamp seq summary, s =>
    eventSendClientReport b node image tstamp seq summary o s

/-- A run of calls from `s`: what each returns, and the state at the end. -/
def run (b : Build) : List (Call × Outcomes) → Sys → Option (List Nat × Sys)
  | [], s => some ([], s)
  | (c, o) :: cs, s => do
    let (r, s) ← call b o c s
    let (rs, s) ← run b cs s
    pure (r :: rs, s)

/-! ## What a run is to send -/

/-- The event a call that returned `r` is to have sent, still to be given the handle it went
over: a report that returned 0 sent its own, and no other call sends. -/
def Call.event (b : Build) (o : Outcomes) (r : Nat) : Call → Option (Handle → Event)
  | .report node image tstamp seq summary =>
    if r = 0 then some fun h => reportEvent b h node image tstamp seq summary o.puts else none
  | _ => none

/-- The events a run that returned `rs` is to have sent: one per report that returned 0. -/
def toSend (b : Build) : List (Call × Outcomes) → List Nat → List (Handle → Event)
  | (c, o) :: cs, r :: rs => (c.event b o r).toList ++ toSend b cs rs
  | _, _ => []

/-- An event is the one `f` describes, over the handle it went over. -/
def SentAs (e : Event) (f : Handle → Event) : Prop := e = f e.handle

/-! ## The invariant -/

/-- What holds between calls: the client has a handle exactly when it has a tuple, the library
holds exactly these two, and no notification is left allocated. -/
structure Inv (s : Sys) : Prop where
  paired : s.ehandle.isSome = s.tuple.isSome
  handles : s.handles = s.ehandle.toList
  tuples : s.tuples = s.tuple.toList
  notes : s.notes = []

/-- The client with no handle and no tuple, and neither allocated. -/
def Sys.disconnect (s : Sys) : Sys :=
  { s with ehandle := none, tuple := none, handles := [], tuples := [] }

/-- The client registered with `srv` under a fresh handle, with a fresh tuple. -/
def Sys.connect (s : Sys) (srv : List UInt8) : Sys :=
  { s with
    ehandle := some ⟨s.next, srv⟩, tuple := some (s.next + 1)
    handles := [⟨s.next, srv⟩], tuples := [s.next + 1], next := s.next + 2 }

lemma Inv.init : Inv Sys.init := ⟨rfl, rfl, rfl, rfl⟩

section Calls

variable {s : Sys}

namespace Inv

lemma disconnect (hs : Inv s) : Inv s.disconnect := ⟨rfl, rfl, rfl, hs.notes⟩

lemma connect (hs : Inv s) (srv : List UInt8) : Inv (s.connect srv) := ⟨rfl, rfl, rfl, hs.notes⟩

/-- `eserver` and the strings play no part in the invariant. -/
lemma setServer (hs : Inv s) (e : Option (List UInt8)) (l : List (List UInt8)) :
    Inv { s with eserver := e, strings := l } := ⟨hs.1, hs.2, hs.3, hs.4⟩

lemma tuple_eq_none (hs : Inv s) (h : s.ehandle = none) : s.tuple = none := by
  simpa [h] using hs.paired.symm

/-- **`EventDeinit`**: from a state where the invariant holds, it frees the tuple and
unregisters the handle if there is one, and never frees what is not allocated. -/
lemma eventDeinit (hs : Inv s) : Frisbee.eventDeinit s = some s.disconnect := by
  obtain ⟨e, t, srv, next, handles, tuples, notes, strings, sent⟩ := s
  obtain ⟨hp, hh, ht, -⟩ := hs
  dsimp only at hp hh ht
  subst hh ht
  cases e <;> cases t <;> simp_all [Frisbee.eventDeinit, Sys.disconnect, release]

/-- `EventReinit` on a client with no handle registers with `eserver` and allocates the tuple
when both succeed. -/
lemma eventReinit_connect (hs : Inv s) (hE : s.ehandle = none) {srv : List UInt8}
    (hS : s.eserver = some srv) {o : Outcomes} (hr : o.register = true) (ht : o.tupleAlloc = true) :
    Frisbee.eventReinit o s = some (0, s.connect srv) := by
  simp [Frisbee.eventReinit, Sys.connect, hs.handles, hs.tuples, hE, hS, hr, ht, hs.tuple_eq_none hE]

/-- **`EventReinit`**: a connected client stays as it is and gets 0; otherwise it connects to
`eserver` with a fresh handle and tuple and gets 0, or stays disconnected (a handle number may be
used up) and gets 1. -/
lemma eventReinit_cases (hs : Inv s) (o : Outcomes) :
    (s.ehandle.isSome ∧ Frisbee.eventReinit o s = some (0, s)) ∨
    (∃ srv, s.ehandle = none ∧ s.eserver = some srv ∧
      Frisbee.eventReinit o s = some (0, s.connect srv)) ∨
    (s.ehandle = none ∧ ∃ n, Frisbee.eventReinit o s = some (1, { s with next := n })) := by
  rcases Option.eq_none_or_eq_some s.ehandle with hE | ⟨h, hE⟩
  · have ht := hs.tuple_eq_none hE
    rcases Option.eq_none_or_eq_some s.eserver with hS | ⟨srv, hS⟩
    · have h1 : Frisbee.eventReinit o s = some (1, s) := by simp [Frisbee.eventReinit, hE, hS]
      exact .inr (.inr ⟨hE, s.next, h1⟩)
    · cases hr : o.register
      · have h1 : Frisbee.eventReinit o s = some (1, s) := by simp [Frisbee.eventReinit, hE, hS, hr]
        exact .inr (.inr ⟨hE, s.next, h1⟩)
      · cases hta : o.tupleAlloc
        · refine .inr (.inr ⟨hE, s.next + 1, ?_⟩)
          simp [Frisbee.eventReinit, Frisbee.eventDeinit, hE, hS, hr, hta, ht, release]
        · exact .inr (.inl ⟨srv, hE, hS, hs.eventReinit_connect hE hS hr hta⟩)
  · exact .inl ⟨by simp [hE], by simp [Frisbee.eventReinit, hE]⟩

/-- **Sending**: with a handle, `sendNotification` returns 1 and changes nothing when no
notification can be allocated; otherwise it uses up a number, frees the notification, and
either sends the report (0) or disconnects (1). -/
lemma sendNotification_eq (hs : Inv s) {h : Handle} (hh : s.ehandle = some h) (b : Build)
    (node image : List UInt8) (tstamp seq : Nat) (summary : Option ClientSummary) (o : Outcomes) :
    sendNotification b node image tstamp seq summary o s =
      some (if !o.noteAlloc then (1, s)
        else if o.notify then
          (0, { s with
            next := s.next + 1, sent := s.sent ++ [reportEvent b h node image tstamp seq summary o.puts] })
        else (1, { s with next := s.next + 1 }.disconnect)) := by
  obtain ⟨t, ht⟩ : ∃ t, s.tuple = some t := Option.isSome_iff_exists.1 (hs.paired ▸ by simp [hh])
  have hn := hs.notes
  have htu : s.tuples = [t] := by rw [hs.tuples, ht]; rfl
  have hha : s.handles = [h] := by rw [hs.handles, hh]; rfl
  obtain ⟨-, -, -, noteAlloc, notify, -⟩ := o
  cases noteAlloc <;> cases notify <;>
    simp [sendNotification, Frisbee.eventDeinit, Sys.disconnect, release, ht, hh, hn, htu, hha]

/-- A report over handle `h` from a state where the invariant holds: it keeps the invariant, and
returns 0 having sent the report with `h` still held, or 1 having sent nothing. -/
lemma sendNotification_spec (hs : Inv s) {h : Handle} (hh : s.ehandle = some h) (b : Build)
    (node image : List UInt8) (tstamp seq : Nat) (summary : Option ClientSummary) (o : Outcomes) :
    ∃ r s', sendNotification b node image tstamp seq summary o s = some (r, s') ∧ Inv s' ∧
      (r = 0 ∧ s'.ehandle = some h ∧
          s'.sent = s.sent ++ [reportEvent b h node image tstamp seq summary o.puts] ∨
        r = 1 ∧ s'.sent = s.sent) := by
  rw [hs.sendNotification_eq hh]
  have hnext : Inv { s with next := s.next + 1 } := ⟨hs.1, hs.2, hs.3, hs.4⟩
  obtain ⟨-, -, -, noteAlloc, notify, -⟩ := o
  cases noteAlloc
  · exact ⟨_, _, rfl, hs, .inr ⟨rfl, rfl⟩⟩
  · cases notify
    · exact ⟨_, _, rfl, hnext.disconnect, .inr ⟨rfl, rfl⟩⟩
    · exact ⟨_, _, rfl, ⟨hs.1, hs.2, hs.3, hs.4⟩, .inl ⟨rfl, hh, rfl⟩⟩

/-- **`EventSendClientReport`** from a state where the invariant holds: it is defined, keeps the
invariant, and returns 0 having sent the report over the handle the client then holds, or 1
having sent nothing. -/
lemma report (hs : Inv s) (b : Build) (node image : List UInt8) (tstamp seq : Nat)
    (summary : Option ClientSummary) (o : Outcomes) :
    ∃ r s', eventSendClientReport b node image tstamp seq summary o s = some (r, s') ∧ Inv s' ∧
      ((r = 0 ∧ ∃ h, s'.ehandle = some h ∧
          s'.sent = s.sent ++ [reportEvent b h node image tstamp seq summary o.puts]) ∨
        r = 1 ∧ s'.sent = s.sent) := by
  rcases hs.eventReinit_cases o with ⟨hc, hre⟩ | ⟨srv, hE, -, hre⟩ | ⟨hE, n, hre⟩
  · obtain ⟨h, hh⟩ := Option.isSome_iff_exists.1 hc
    obtain ⟨r, s', hsend, hinv, hout⟩ := hs.sendNotification_spec hh b node image tstamp seq summary o
    refine ⟨r, s', ?_, hinv, hout.imp (fun h0 => ⟨h0.1, h, h0.2⟩) id⟩
    simp [eventSendClientReport, hh, hsend]
  · obtain ⟨r, s', hsend, hinv, hout⟩ :=
      (hs.connect srv).sendNotification_spec rfl b node image tstamp seq summary o
    refine ⟨r, s', ?_, hinv, hout.imp (fun h0 => ⟨h0.1, _, h0.2⟩) id⟩
    simp [eventSendClientReport, hE, hre, hsend]
  · exact ⟨1, { s with next := n }, by simp [eventSendClientReport, hE, hre], ⟨hs.1, hs.2, hs.3, hs.4⟩,
      .inr ⟨rfl, rfl⟩⟩

/-- `EventReinit` from a state where the invariant holds is defined, keeps it and sends nothing. -/
lemma eventReinit (hs : Inv s) (o : Outcomes) :
    ∃ r s', Frisbee.eventReinit o s = some (r, s') ∧ Inv s' ∧ s'.sent = s.sent := by
  rcases hs.eventReinit_cases o with ⟨-, hre⟩ | ⟨srv, -, -, hre⟩ | ⟨-, n, hre⟩
  · exact ⟨_, _, hre, hs, rfl⟩
  · exact ⟨_, _, hre, hs.connect srv, rfl⟩
  · exact ⟨_, _, hre, ⟨hs.1, hs.2, hs.3, hs.4⟩, rfl⟩

/-- `EventInit` from a state where the invariant holds is defined, keeps it and sends nothing. -/
lemma eventInit (hs : Inv s) (b : Build) (server : Option (List UInt8)) (o : Outcomes) :
    ∃ r s', Frisbee.eventInit b server o s = some (r, s') ∧ Inv s' ∧ s'.sent = s.sent := by
  rcases server with _ | srv
  · exact ⟨1, s, rfl, hs, rfl⟩
  · dsimp only [Frisbee.eventInit]
    split <;> exact (hs.setServer _ _).eventReinit o

/-- **Step lemma**: every call from a state where the invariant holds is defined, keeps it, and
sends what it is to send. -/
lemma call (hs : Inv s) (b : Build) (o : Outcomes) (c : Call) :
    ∃ r s', Frisbee.call b o c s = some (r, s') ∧ Inv s' ∧
      ∃ new, s'.sent = s.sent ++ new ∧ List.Forall₂ SentAs new (c.event b o r).toList := by
  cases c with
  | init server =>
    obtain ⟨r, s', h, hinv, hsent⟩ := hs.eventInit b server o
    exact ⟨r, s', h, hinv, [], by rw [hsent, List.append_nil], .nil⟩
  | deinit =>
    exact ⟨0, _, by simp [Frisbee.call, hs.eventDeinit], hs.disconnect, [], (List.append_nil _).symm, .nil⟩
  | report node image tstamp seq summary =>
    obtain ⟨r, s', h, hinv, hout⟩ := hs.report b node image tstamp seq summary o
    refine ⟨r, s', h, hinv, ?_⟩
    rcases hout with ⟨rfl, hd, -, hsent⟩ | ⟨rfl, hsent⟩
    · exact ⟨_, hsent, .cons rfl .nil⟩
    · exact ⟨[], by rw [hsent, List.append_nil], .nil⟩

/-- **Run lemma**: every run from a state where the invariant holds is defined, ends in a state
where it holds, and sends what its calls are to send. -/
lemma run (hs : Inv s) (b : Build) (cs : List (Call × Outcomes)) :
    ∃ rs s', Frisbee.run b cs s = some (rs, s') ∧ Inv s' ∧
      ∃ new, s'.sent = s.sent ++ new ∧ List.Forall₂ SentAs new (toSend b cs rs) := by
  induction cs generalizing s with
  | nil => exact ⟨[], s, rfl, hs, [], (List.append_nil _).symm, .nil⟩
  | cons co cs ih =>
    obtain ⟨c, o⟩ := co
    obtain ⟨r, s1, h1, hs1, new1, hsent1, hnew1⟩ := hs.call b o c
    obtain ⟨rs, s2, h2, hs2, new2, hsent2, hnew2⟩ := ih hs1
    exact ⟨r :: rs, s2, by simp [Frisbee.run, h1, h2], hs2, new1 ++ new2,
      by rw [hsent2, hsent1, List.append_assoc], List.rel_append hnew1 hnew2⟩

end Inv

/-- **The event client never dereferences NULL and never frees twice**, whatever the calls and
whatever the library returns. -/
theorem run_safe (b : Build) (cs : List (Call × Outcomes)) :
    ∃ rs s', run b cs Sys.init = some (rs, s') ∧ Inv s' :=
  let ⟨rs, s', h, hinv, _⟩ := Inv.init.run b cs
  ⟨rs, s', h, hinv⟩

/-- **The events sent are the reports that returned 0**, one for one and in order, whatever the
library returns. -/
theorem run_sends_reports (b : Build) (cs : List (Call × Outcomes)) :
    ∃ rs s', run b cs Sys.init = some (rs, s') ∧ List.Forall₂ SentAs s'.sent (toSend b cs rs) :=
  let ⟨rs, s', h, _, _, hsent, hnew⟩ := Inv.init.run b cs
  ⟨rs, s', h, hsent ▸ hnew⟩

end Calls

end Imagezip.Frisbee
