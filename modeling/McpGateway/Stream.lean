import McpGateway.Proxy

/-!
# The streamed body

`body_iter` as a machine. The framework resumes the generator for each chunk,
closes it where it is suspended when the client has gone, or cancels it while
it waits for the upstream.
-/

namespace McpGateway

open Unicode Json

inductive StreamResult
  | completed
  | truncatedResponseTooLarge
  | upstreamReadError
  | clientDisconnected
  deriving DecidableEq

structure StreamEvent where
  record : AuditRecord
  streamResult : StreamResult
  bytesStreamed : Nat
  deriving DecidableEq

inductive Phase
  | created
  | suspended
  | finished
  deriving DecidableEq

inductive Pull
  | next
  | close
  | cancel
  deriving DecidableEq

/-- The generator: what the upstream has left for it, and what it has done. -/
structure BodyIter where
  phase : Phase
  chunks : List Bytes
  ending : Option Exc
  sent : Nat
  record : AuditRecord
  delivered : List Bytes
  closed : Nat
  events : List StreamEvent
  raised : Option Exc
  deriving DecidableEq

namespace BodyIter

def start (record : AuditRecord) (chunks : List Bytes) (ending : Option Exc) : BodyIter where
  phase := .created
  chunks := chunks
  ending := ending
  sent := 0
  record := record
  delivered := []
  closed := 0
  events := []
  raised := none

/-- The `finally` block. -/
def finish (s : BodyIter) (result : StreamResult) : BodyIter :=
  { s with phase := .finished, closed := s.closed + 1, events := s.events ++ [⟨s.record, result, s.sent⟩] }

/-- `except (httpx.HTTPError, httpx.StreamError) as exc`, with the class's name. -/
def httpxError : Exc → Option Text
  | .requestError cls => some cls
  | .streamError cls => some cls
  | _ => none

def fail (s : BodyIter) (e : Exc) : BodyIter :=
  match httpxError e with
  | some cls =>
    { s with record := s.record.because (txt "upstream stream error: " ++ cls) }.finish .upstreamReadError
  | none => { s with raised := some e }.finish .clientDisconnected

def cancelledError : Exc := .other (txt "CancelledError")

section
variable (cap : Int)

def count (s : BodyIter) (chunk : Bytes) : Nat := if cap > 0 then s.sent + chunk.length else s.sent

/-- From the top of the loop to the next `yield`, or to the end. -/
def resume (s : BodyIter) : BodyIter :=
  match s.chunks with
  | [] =>
    match s.ending with
    | none => s.finish .completed
    | some e => s.fail e
  | chunk :: chunks =>
    let s' := { s with chunks := chunks, sent := s.count cap chunk }
    if cap > 0 ∧ s'.sent > cap then s'.finish .truncatedResponseTooLarge
    else { s' with phase := .suspended, delivered := s.delivered ++ [chunk] }

def step (s : BodyIter) (pull : Pull) : BodyIter :=
  match s.phase, pull with
  | .finished, _ => s
  | .created, .close => { s with phase := .finished }
  | .suspended, .close => s.finish .clientDisconnected
  | _, .next => s.resume cap
  | _, .cancel => s.fail cancelledError

def run (s : BodyIter) (pulls : List Pull) : BodyIter := pulls.foldl (step cap) s

def Ends (s : BodyIter) (pull : Pull) : Prop :=
  s.phase ≠ .finished ∧ (s.step cap pull).phase = .finished ∧ ¬ (s.phase = .created ∧ pull = .close)

end

/-! ## One step -/

inductive Turn (cap : Int) (s : BodyIter) : Pull → BodyIter → Prop
  | delivered {chunk : Bytes} {chunks : List Bytes} : s.chunks = chunk :: chunks →
      ¬ (cap > 0 ∧ (s.count cap chunk : Int) > cap) →
      Turn cap s .next { s with
        phase := .suspended, chunks := chunks, sent := s.count cap chunk, delivered := s.delivered ++ [chunk] }
  | overflow {chunk : Bytes} {chunks : List Bytes} : s.chunks = chunk :: chunks →
      cap > 0 ∧ (s.count cap chunk : Int) > cap →
      Turn cap s .next ({ s with chunks := chunks, sent := s.count cap chunk }.finish .truncatedResponseTooLarge)
  | ended : s.chunks = [] → s.ending = none → Turn cap s .next (s.finish .completed)
  | failed {e : Exc} : s.chunks = [] → s.ending = some e → Turn cap s .next (s.fail e)
  | gone : s.phase = .suspended → Turn cap s .close (s.finish .clientDisconnected)
  | cancelled : Turn cap s .cancel (s.fail cancelledError)
  | discarded : s.phase = .created → Turn cap s .close { s with phase := .finished }

section
variable {cap : Int} {s s' : BodyIter} {pull : Pull}

@[simp] theorem finish_phase {result : StreamResult} : (s.finish result).phase = .finished := rfl

@[simp] theorem finish_delivered {result : StreamResult} : (s.finish result).delivered = s.delivered := rfl

@[simp] theorem finish_closed {result : StreamResult} : (s.finish result).closed = s.closed + 1 := rfl

@[simp] theorem finish_events {result : StreamResult} :
    (s.finish result).events = s.events ++ [⟨s.record, result, s.sent⟩] := rfl

@[simp] theorem fail_phase {e : Exc} : (s.fail e).phase = .finished := by
  rw [fail]
  split <;> rfl

@[simp] theorem fail_delivered {e : Exc} : (s.fail e).delivered = s.delivered := by
  rw [fail]
  split <;> rfl

@[simp] theorem fail_closed {e : Exc} : (s.fail e).closed = s.closed + 1 := by
  rw [fail]
  split <;> rfl

theorem resume_turn : Turn cap s .next (s.resume cap) := by
  unfold resume
  cases hchunks : s.chunks with
  | nil =>
    cases hending : s.ending with
    | none => exact .ended hchunks hending
    | some e => exact .failed hchunks hending
  | cons chunk chunks =>
    dsimp only
    by_cases hcap : cap > 0 ∧ (s.count cap chunk : Int) > cap
    · rw [if_pos hcap]
      exact .overflow hchunks hcap
    · rw [if_neg hcap]
      exact .delivered hchunks hcap

theorem step_turn (h : s.phase ≠ .finished) : Turn cap s pull (s.step cap pull) := by
  unfold step
  cases hphase : s.phase with
  | finished => exact absurd hphase h
  | created =>
    cases pull with
    | next => exact resume_turn
    | close => exact .discarded hphase
    | cancel => exact .cancelled
  | suspended =>
    cases pull with
    | next => exact resume_turn
    | close => exact .gone hphase
    | cancel => exact .cancelled

theorem step_finished (h : s.phase = .finished) : s.step cap pull = s := by
  unfold step
  rw [h]

theorem run_finished (h : s.phase = .finished) (pulls : List Pull) : s.run cap pulls = s := by
  induction pulls with
  | nil => rfl
  | cons pull pulls ih =>
    rw [run, List.foldl_cons, step_finished h]
    exact ih

end

/-! ## A stream that goes on -/

def total (chunks : List Bytes) : Nat := (chunks.map List.length).sum

@[simp] theorem total_nil : total [] = 0 := rfl

@[simp] theorem total_append (l l' : List Bytes) : total (l ++ l') = total l + total l' := by
  simp [total]

@[simp] theorem total_singleton (chunk : Bytes) : total [chunk] = chunk.length := by
  simp [total]

structure Open (cap : Int) (record : AuditRecord) (chunks : List Bytes) (ending : Option Exc) (pulls : List Pull)
    (s : BodyIter) : Prop where
  split : s.delivered ++ s.chunks = chunks
  pulled : s.delivered.length = pulls.length
  ending : s.ending = ending
  record : s.record = record
  sent : s.sent = if 0 < cap then total s.delivered else 0
  within : 0 < cap → (total s.delivered : Int) ≤ cap
  closed : s.closed = 0
  events : s.events = []

section
variable {cap : Int} {record : AuditRecord} {chunks : List Bytes} {ending : Option Exc} {pulls : List Pull}
  {s s' : BodyIter} {pull : Pull}

theorem open_start : (start record chunks ending).Open cap record chunks ending [] where
  split := rfl
  pulled := rfl
  ending := rfl
  record := rfl
  sent := by simp [start]
  within := by
    intro h
    exact h.le
  closed := rfl
  events := rfl

theorem Open.count (h : s.Open cap record chunks ending pulls) {chunk : Bytes} (hcap : 0 < cap) :
    s.count cap chunk = total (s.delivered ++ [chunk]) := by
  rw [BodyIter.count, if_pos hcap, h.sent, if_pos hcap]
  simp

theorem Open.turn (h : s.Open cap record chunks ending pulls) (ht : Turn cap s pull s')
    (hphase : s'.phase ≠ .finished) :
    s'.Open cap record chunks ending (pulls ++ [pull]) := by
  cases ht with
  | delivered hchunks hcap =>
    rename_i chunk rest
    refine ⟨?_, ?_, h.ending, h.record, ?_, ?_, h.closed, h.events⟩
    · rw [← h.split, hchunks]
      simp
    · simp [h.pulled]
    · by_cases hc : 0 < cap
      · rw [if_pos hc]
        exact h.count hc
      · rw [if_neg hc]
        dsimp only
        rw [BodyIter.count, if_neg hc, h.sent, if_neg hc]
    · intro hc
      dsimp only
      rw [← h.count hc]
      exact Int.not_lt.mp fun hlt => hcap ⟨hc, hlt⟩
  | overflow => exact absurd finish_phase hphase
  | ended => exact absurd finish_phase hphase
  | failed => exact absurd fail_phase hphase
  | gone => exact absurd finish_phase hphase
  | cancelled => exact absurd fail_phase hphase
  | discarded => exact absurd rfl hphase

theorem run_snoc (s : BodyIter) (pulls : List Pull) (pull : Pull) :
    s.run cap (pulls ++ [pull]) = (s.run cap pulls).step cap pull := by
  simp [run]

theorem run_open (h : ((start record chunks ending).run cap pulls).phase ≠ .finished) :
    ((start record chunks ending).run cap pulls).Open cap record chunks ending pulls := by
  induction pulls using List.reverseRecOn with
  | nil => exact open_start
  | append_singleton pulls pull ih =>
    rw [run_snoc] at h ⊢
    have hopen : ((start record chunks ending).run cap pulls).phase ≠ .finished := by
      intro hfinished
      rw [step_finished hfinished] at h
      exact h hfinished
    exact (ih hopen).turn (step_turn hopen) h

/-! ## How a stream ends -/

/-- The ends of a started stream, with the label and the count of its event. -/
inductive Ending (cap : Int) (chunks : List Bytes) (ending : Option Exc) (delivered : List Bytes) :
    Pull → StreamResult → Nat → Prop
  | completed {bytes : Nat} : delivered = chunks → ending = none →
      Ending cap chunks ending delivered .next .completed bytes
  | truncated {chunk : Bytes} : 0 < cap → delivered ++ [chunk] <+: chunks → cap < total (delivered ++ [chunk]) →
      Ending cap chunks ending delivered .next .truncatedResponseTooLarge (total (delivered ++ [chunk]))
  | readError {e : Exc} {cls : Text} {bytes : Nat} : delivered = chunks → ending = some e →
      httpxError e = some cls →
      Ending cap chunks ending delivered .next .upstreamReadError bytes
  | raised {e : Exc} {bytes : Nat} : delivered = chunks → ending = some e → httpxError e = none →
      Ending cap chunks ending delivered .next .clientDisconnected bytes
  | gone {bytes : Nat} : Ending cap chunks ending delivered .close .clientDisconnected bytes
  | cancelled {bytes : Nat} : Ending cap chunks ending delivered .cancel .clientDisconnected bytes

theorem fail_events {e : Exc} (h : s.events = []) :
    ∃ event, (s.fail e).events = [event] ∧ event.bytesStreamed = s.sent ∧
      ((∃ cls, httpxError e = some cls ∧ event.streamResult = .upstreamReadError) ∨
        (httpxError e = none ∧ event.streamResult = .clientDisconnected)) := by
  rw [fail]
  cases hcls : httpxError e with
  | some cls => exact ⟨_, by rw [finish_events, h]; rfl, rfl, Or.inl ⟨cls, rfl, rfl⟩⟩
  | none => exact ⟨_, by rw [finish_events, h]; rfl, rfl, Or.inr ⟨rfl, rfl⟩⟩

theorem finish_event {result : StreamResult} (h : s.events = []) :
    (s.finish result).events = [⟨s.record, result, s.sent⟩] := by
  rw [finish_events, h, List.nil_append]

/-- One pull ends the stream with one event, and delivers nothing. -/
theorem Open.ends (h : s.Open cap record chunks ending pulls) (he : s.Ends cap pull) :
    (s.step cap pull).delivered = s.delivered ∧ (s.step cap pull).closed = 1 ∧
      ∃ event, (s.step cap pull).events = [event] ∧
        Ending cap chunks ending s.delivered pull event.streamResult event.bytesStreamed ∧
        (event.streamResult ≠ .truncatedResponseTooLarge → event.bytesStreamed = s.sent) := by
  obtain ⟨hphase, hfinished, hstarted⟩ := he
  have hall : s.chunks = [] → s.delivered = chunks := by
    intro hnil
    rw [← h.split, hnil, List.append_nil]
  have ht : Turn cap s pull (s.step cap pull) := step_turn hphase
  generalize s.step cap pull = s' at hfinished ht
  cases ht with
  | delivered => cases hfinished
  | overflow hchunks hcap =>
    rename_i chunk rest
    have hcount : s.count cap chunk = total (s.delivered ++ [chunk]) := h.count hcap.1
    refine ⟨rfl, by simp [h.closed], _, finish_event h.events, ?_, fun hne => absurd rfl hne⟩
    dsimp only
    rw [hcount] at hcap ⊢
    refine .truncated hcap.1 ⟨rest, ?_⟩ hcap.2
    rw [← h.split, hchunks]
    simp
  | ended hnil hnone =>
    exact ⟨rfl, by simp [h.closed], _, finish_event h.events, .completed (hall hnil) (h.ending ▸ hnone), fun _ =>
      rfl⟩
  | failed hnil hsome =>
    obtain ⟨event, hevents, hbytes, hlabel⟩ := fail_events h.events
    refine ⟨fail_delivered, by simp [h.closed], event, hevents, ?_, fun _ => hbytes⟩
    cases hlabel with
    | inl herror =>
      obtain ⟨cls, hcls, hresult⟩ := herror
      rw [hresult]
      exact .readError (hall hnil) (h.ending ▸ hsome) hcls
    | inr hother =>
      rw [hother.2]
      exact .raised (hall hnil) (h.ending ▸ hsome) hother.1
  | gone => exact ⟨rfl, by simp [h.closed], _, finish_event h.events, .gone, fun _ => rfl⟩
  | cancelled =>
    obtain ⟨event, hevents, hbytes, hlabel⟩ := fail_events h.events
    refine ⟨fail_delivered, by simp [h.closed], event, hevents, ?_, fun _ => hbytes⟩
    cases hlabel with
    | inl herror =>
      obtain ⟨cls, hcls, _⟩ := herror
      cases hcls
    | inr hother =>
      rw [hother.2]
      exact .cancelled
  | discarded hcreated => exact absurd ⟨hcreated, rfl⟩ hstarted

theorem not_all {delivered chunks : List Bytes} {chunk : Bytes} (h : delivered ++ [chunk] <+: chunks) :
    delivered ≠ chunks := by
  intro he
  have hle := h.length_le
  rw [he, List.length_append, List.length_singleton] at hle
  omega

section
variable {delivered : List Bytes} {result : StreamResult} {bytes : Nat}

theorem Ending.completed_iff (h : Ending cap chunks ending delivered pull result bytes) :
    result = .completed ↔ pull = .next ∧ delivered = chunks ∧ ending = none := by
  constructor
  · intro hresult
    cases h with
    | completed hall hnone => exact ⟨rfl, hall, hnone⟩
    | _ => cases hresult
  · intro ⟨hpull, hall, hnone⟩
    cases h with
    | completed => rfl
    | truncated _ hchunk _ => exact absurd hall (not_all hchunk)
    | readError _ hsome _ => cases hnone.symm.trans hsome
    | raised _ hsome _ => cases hnone.symm.trans hsome
    | _ => cases hpull

theorem Ending.truncated_iff (h : Ending cap chunks ending delivered pull result bytes) :
    result = .truncatedResponseTooLarge ↔ pull = .next ∧ 0 < cap ∧
      ∃ chunk, delivered ++ [chunk] <+: chunks ∧ cap < total (delivered ++ [chunk]) := by
  constructor
  · intro hresult
    cases h with
    | truncated hcap hchunk htotal => exact ⟨rfl, hcap, _, hchunk, htotal⟩
    | _ => cases hresult
  · intro ⟨hpull, _, chunk, hchunk, _⟩
    cases h with
    | truncated => rfl
    | completed hall _ => exact absurd hall (not_all hchunk)
    | readError hall _ _ => exact absurd hall (not_all hchunk)
    | raised hall _ _ => exact absurd hall (not_all hchunk)
    | _ => cases hpull

theorem Ending.readError_iff (h : Ending cap chunks ending delivered pull result bytes) :
    result = .upstreamReadError ↔ pull = .next ∧ delivered = chunks ∧
      ∃ e cls, ending = some e ∧ httpxError e = some cls := by
  constructor
  · intro hresult
    cases h with
    | readError hall hsome hcls => exact ⟨rfl, hall, _, _, hsome, hcls⟩
    | _ => cases hresult
  · intro ⟨hpull, hall, e, cls, hsome, hcls⟩
    cases h with
    | readError => rfl
    | completed _ hnone => cases hnone.symm.trans hsome
    | truncated _ hchunk _ => exact absurd hall (not_all hchunk)
    | raised _ hsome' hnot =>
      cases hsome'.symm.trans hsome
      cases hnot.symm.trans hcls
    | _ => cases hpull

theorem Ending.disconnected_iff (h : Ending cap chunks ending delivered pull result bytes) :
    result = .clientDisconnected ↔ pull = .close ∨ pull = .cancel ∨
      (pull = .next ∧ delivered = chunks ∧ ∃ e, ending = some e ∧ httpxError e = none) := by
  constructor
  · intro hresult
    cases h with
    | raised hall hsome hnot => exact Or.inr (Or.inr ⟨rfl, hall, _, hsome, hnot⟩)
    | gone => exact Or.inl rfl
    | cancelled => exact Or.inr (Or.inl rfl)
    | _ => cases hresult
  · intro hor
    cases h with
    | raised => rfl
    | gone => rfl
    | cancelled => rfl
    | completed _ hnone =>
      obtain hpull | hpull | ⟨_, _, e, hsome, _⟩ := hor
      · cases hpull
      · cases hpull
      · cases hnone.symm.trans hsome
    | truncated _ hchunk _ =>
      obtain hpull | hpull | ⟨_, hall, _⟩ := hor
      · cases hpull
      · cases hpull
      · exact absurd hall (not_all hchunk)
    | readError _ hsome hcls =>
      obtain hpull | hpull | ⟨_, _, e, hsome', hnot⟩ := hor
      · cases hpull
      · cases hpull
      · cases hsome.symm.trans hsome'
        cases hnot.symm.trans hcls

end

/-- What was delivered stays the beginning of the upstream's chunks, within the cap. -/
theorem delivered_within (hs : (start record chunks ending).run cap pulls = s) :
    s.delivered <+: chunks ∧ (0 < cap → (total s.delivered : Int) ≤ cap) := by
  subst hs
  induction pulls using List.reverseRecOn with
  | nil => exact ⟨List.nil_prefix, fun hcap => hcap.le⟩
  | append_singleton pulls pull ih =>
    by_cases hopen : ((start record chunks ending).run cap (pulls ++ [pull])).phase = .finished
    · rw [run_snoc] at hopen ⊢
      by_cases hbefore : ((start record chunks ending).run cap pulls).phase = .finished
      · rw [step_finished hbefore]
        exact ih
      by_cases hstarted : ((start record chunks ending).run cap pulls).phase = .created ∧ pull = .close
      · unfold step
        rw [hstarted.1, hstarted.2]
        exact ih
      · rw [((run_open hbefore).ends ⟨hbefore, hopen, hstarted⟩).1]
        exact ih
    · have h := run_open hopen
      exact ⟨⟨_, h.split⟩, h.within⟩

end

/-- The stream delivers the chunks in order within the cap, and one event says how it ended. -/
theorem stream_labels (cap : Int) (record : AuditRecord) (chunks : List Bytes) (ending : Option Exc)
    (pulls : List Pull) (s : BodyIter) (hs : (start record chunks ending).run cap pulls = s) :
    s.delivered <+: chunks ∧ (0 < cap → (total s.delivered : Int) ≤ cap) ∧
    (s.phase ≠ .finished → pulls.length ≤ chunks.length ∧ s.delivered = chunks.take pulls.length ∧ s.events = []) ∧
    ∀ pull, s.Ends cap pull → ∃ s', s.step cap pull = s' ∧ (∀ later, s'.run cap later = s') ∧
    s'.delivered = s.delivered ∧
      ∃ event, s'.events = [event] ∧
        (event.streamResult = .completed ↔ pull = .next ∧ s'.delivered = chunks ∧ ending = none) ∧
        (event.streamResult = .truncatedResponseTooLarge ↔ pull = .next ∧ 0 < cap ∧
          ∃ chunk, s'.delivered ++ [chunk] <+: chunks ∧ cap < total (s'.delivered ++ [chunk])) ∧
        (event.streamResult = .upstreamReadError ↔ pull = .next ∧ s'.delivered = chunks ∧
          ∃ e cls, ending = some e ∧ httpxError e = some cls) ∧
        (event.streamResult = .clientDisconnected ↔ pull = .close ∨ pull = .cancel ∨
          (pull = .next ∧ s'.delivered = chunks ∧ ∃ e, ending = some e ∧ httpxError e = none)) := by
  obtain ⟨hbegins, hwithin⟩ := delivered_within hs
  refine ⟨hbegins, hwithin, ?_, ?_⟩
  · intro hphase
    rw [← hs] at hphase
    have h := run_open hphase
    rw [hs] at h
    rw [← h.pulled, ← h.split]
    simp [h.events]
  · intro pull he
    have h := run_open (hs ▸ he.1)
    rw [hs] at h
    obtain ⟨hdelivered, _, event, hevents, hending, _⟩ := h.ends he
    refine ⟨_, rfl, run_finished he.2.1, hdelivered, event, hevents, ?_⟩
    rw [hdelivered]
    exact ⟨hending.completed_iff, hending.truncated_iff, hending.readError_iff, hending.disconnected_iff⟩

def allowedRecord : AuditRecord := { requestId := txt "r1", decision := .allowed }

def hello : BodyIter := start allowedRecord [ascii "hello", ascii "world"] none

theorem stream_labels_truncated :
    ∃ s', (hello.run 8 [.next]).step 8 .next = s' ∧ s'.delivered = [ascii "hello"] ∧
      ∃ event, s'.events = [event] ∧ event.streamResult = .truncatedResponseTooLarge := by
  have hends : (hello.run 8 [.next]).Ends 8 .next := ⟨by decide, by decide, by decide⟩
  obtain ⟨_, _, _, hall⟩ := stream_labels 8 allowedRecord [ascii "hello", ascii "world"] none [.next] _ rfl
  obtain ⟨s', hs', _, hdelivered, event, hevents, _, htruncated, _⟩ := hall .next hends
  have hfirst : s'.delivered = [ascii "hello"] := hdelivered
  refine ⟨s', hs', hfirst, event, hevents, htruncated.mpr ⟨rfl, by decide, ascii "world", ?_, ?_⟩⟩
  · rw [hfirst]
    decide
  · rw [hfirst]
    decide

/-! ## The count of bytes -/

/-- The count is what the client was handed, and with the chunk that did not fit when the stream was truncated. -/
def Counted (cap : Int) (chunks : List Bytes) (s : BodyIter) (event : StreamEvent) : Prop :=
  (event.streamResult ≠ .truncatedResponseTooLarge → event.bytesStreamed = total s.delivered) ∧
    (event.streamResult = .truncatedResponseTooLarge → cap < event.bytesStreamed ∧
      ∃ chunk, s.delivered ++ [chunk] <+: chunks ∧ event.bytesStreamed = total (s.delivered ++ [chunk]))

theorem total_eq_zero {l : List Bytes} : total l = 0 ↔ ∀ chunk ∈ l, chunk = [] := by
  induction l with
  | nil => simp
  | cons chunk l ih =>
    rw [← List.singleton_append, total_append, Nat.add_eq_zero_iff, ih]
    simp

/-- The count is right under a cap, and without one only where every chunk delivered is empty. -/
theorem stream_counted_iff (cap : Int) (record : AuditRecord) (chunks : List Bytes) (ending : Option Exc)
    (pulls : List Pull) (pull : Pull) (s : BodyIter) (hs : (start record chunks ending).run cap pulls = s)
    (he : s.Ends cap pull) :
    ∃ event, (s.step cap pull).events = [event] ∧
      (Counted cap chunks (s.step cap pull) event ↔ 0 < cap ∨ ∀ chunk ∈ chunks.take pulls.length, chunk = []) := by
  have h := run_open (hs ▸ he.1)
  rw [hs] at h
  obtain ⟨hdelivered, _, event, hevents, hending, hsent⟩ := h.ends he
  refine ⟨event, hevents, ?_⟩
  have htake : chunks.take pulls.length = s.delivered := by
    rw [← h.pulled, ← h.split, List.take_left']
    rfl
  rw [Counted, hdelivered, htake, ← total_eq_zero]
  generalize event.streamResult = result at hending hsent
  generalize event.bytesStreamed = bytes at hending hsent
  by_cases htruncated : result = .truncatedResponseTooLarge
  · obtain ⟨_, hcap, _⟩ := hending.truncated_iff.mp htruncated
    refine iff_of_true ⟨fun hne => absurd htruncated hne, fun _ => ?_⟩ (Or.inl hcap)
    cases hending with
    | truncated _ hchunk htotal => exact ⟨htotal, _, hchunk, rfl⟩
    | _ => cases htruncated
  · have hbytes := hsent htruncated
    rw [h.sent] at hbytes
    simp only [ne_eq, htruncated, not_false_eq_true, true_imp_iff, false_imp_iff, and_true]
    by_cases hcap : 0 < cap
    · rw [if_pos hcap] at hbytes
      exact iff_of_true hbytes (Or.inl hcap)
    · rw [if_neg hcap] at hbytes
      rw [hbytes, or_iff_right hcap]
      exact eq_comm

theorem stream_counted_iff_hello :
    ∃ event, ((hello.run 0 [.next]).step 0 .close).events = [event] ∧
      ¬ Counted 0 [ascii "hello", ascii "world"] ((hello.run 0 [.next]).step 0 .close) event := by
  obtain ⟨event, hevents, hiff⟩ := stream_counted_iff 0 allowedRecord [ascii "hello", ascii "world"] none
    [.next] .close
    (hello.run 0 [.next]) rfl ⟨by decide, by decide, by decide⟩
  refine ⟨event, hevents, fun h => ?_⟩
  have hcases := hiff.mp h
  revert hcases
  decide

/-- Without a cap a completed stream of ten bytes is counted as none. -/
theorem stream_not_counted :
    ¬ ∀ (cap : Int) (record : AuditRecord) (chunks : List Bytes) (ending : Option Exc)
    (pulls : List Pull) (pull : Pull),
      0 ≤ cap → ((start record chunks ending).run cap pulls).Ends cap pull →
      ∀ event ∈ (((start record chunks ending).run cap pulls).step cap pull).events,
        Counted cap chunks (((start record chunks ending).run cap pulls).step cap pull) event := by
  intro h
  have hcounted := h 0 allowedRecord [ascii "hello", ascii "world"] none [.next, .next] .next (by decide)
    ⟨by decide, by decide, by decide⟩ ⟨allowedRecord, .completed, 0⟩ (by decide)
  have hbytes := hcounted.1 (by decide)
  revert hbytes
  decide

end BodyIter

end McpGateway
