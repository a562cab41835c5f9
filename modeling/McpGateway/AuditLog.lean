import McpGateway.AuditLine
import McpGateway.PyLogging
import McpGateway.RoundTrip
import McpGateway.Stream

/-!
# The audit log

What `emit` and `emit_stream_event` write, and where it goes once the
entrypoint has configured the logger of the audit events.
-/

namespace McpGateway

open Unicode Binary64 Json PyLogging

/-! ## Events -/

def StreamResult.text : StreamResult → Text
  | .completed => txt "completed"
  | .truncatedResponseTooLarge => txt "truncated_response_too_large"
  | .upstreamReadError => txt "upstream_read_error"
  | .clientDisconnected => txt "client_disconnected"

/-- What is emitted: a decision, or with `stream` the end of a body; the latency is in milliseconds. -/
structure AuditEvent where
  record : AuditRecord
  latency : Float64
  stream : Option (StreamResult × Nat)

def AuditEvent.members (event : AuditEvent) : List (Text × Option Value) :=
  event.record.members ++
    [(txt "latency_ms", some (.float event.latency)),
      (txt "stream_result", event.stream.map fun s => .str s.1.text),
      (txt "bytes_streamed", event.stream.map fun s => natValue s.2)]

/-- `to_dict(include_scope_values)`. -/
def AuditEvent.payload (event : AuditEvent) (includeScopeValues : Bool) : List (Text × Value) :=
  presentMembers (event.members ++
    if includeScopeValues then [(txt "held_scopes", some (.arr (event.record.scopeValues.map .str)))] else [])

def AuditEvent.level (event : AuditEvent) : Nat :=
  match event.stream with
  | none => if event.record.decision ∈ [.denied, .rejected, .error] then warning else info
  | some (result, _) => if result = .truncatedResponseTooLarge then warning else info

def sortMembers (ms : List (Text × Value)) : List (Text × Value) := ms.insertionSort fun a b => a.1 ≤ b.1

/-- `json.dumps(payload, separators=(",", ":"), sort_keys=True)` prints with the defaults else. -/
def Interp.auditEncoder (py : Interp) : Encoder := ⟨true, true, py.maxStrDigits⟩

def AuditEvent.line (py : Interp) (event : AuditEvent) (debugOn : Bool) : Except DumpError Text :=
  py.auditEncoder.dumps py.dumpsDepth (.obj (sortMembers (event.payload debugOn)))

/-! ## The logger -/

section
variable {Sink : Type}

def configureAuditLogging (stdout : Sink) (c : Lineage Sink) : Lineage Sink :=
  { c with logger :=
    { c.logger with
      handlers := if c.logger.handlers.isEmpty then [⟨stdout, notset⟩] else c.logger.handlers
      level := if c.logger.level = notset then info else c.logger.level
      propagate := false } }

variable (py : Interp) (disable : Nat) (lastResort : Handler Sink) (c : Lineage Sink)

/-- What `emit` and `emit_stream_event` hand to the sinks. -/
def emit (event : AuditEvent) : Except DumpError (List (Sink × Text)) :=
  match event.line py (isEnabledFor disable c debug) with
  | .error e => .error e
  | .ok line => .ok ((deliver disable lastResort c event.level).map fun sink => (sink, line))

def emitAll : List AuditEvent → Except DumpError (List (Sink × Text))
  | [] => .ok []
  | event :: events =>
    match emit py disable lastResort c event with
    | .error e => .error e
    | .ok written =>
      match emitAll events with
      | .error e => .error e
      | .ok rest => .ok (written ++ rest)

def streamText (lines : List Text) : Text := lines.flatMap fun line => line ++ [ch '\n']

end

/-! ## Configuring -/

section
variable {Sink : Type} {stdout : Sink} {disable : Nat} {lastResort : Handler Sink} {c : Lineage Sink}
  {event : AuditEvent}

theorem event_level : info ≤ event.level := by
  unfold AuditEvent.level
  split <;> split <;> decide

theorem configure_self (hhandlers : c.logger.handlers ≠ []) (hlevel : c.logger.level ≠ notset)
    (hstops : c.logger.propagate = false) :
    configureAuditLogging stdout c = c := by
  obtain ⟨⟨level, handlers, propagate, disabled⟩, parents⟩ := c
  simp only [ne_eq] at hhandlers hlevel hstops
  simp [configureAuditLogging, hhandlers, hlevel, hstops]

/-- Configuring twice is configuring once, and a handler or a level that was set stays. -/
theorem configure_defers (stdout stdout' : Sink) (c : Lineage Sink) :
    configureAuditLogging stdout' (configureAuditLogging stdout c) = configureAuditLogging stdout c ∧
      (configureAuditLogging stdout c).parents = c.parents ∧
      (c.logger.handlers ≠ [] → (configureAuditLogging stdout c).logger.handlers = c.logger.handlers) ∧
      (c.logger.level ≠ notset → (configureAuditLogging stdout c).logger.level = c.logger.level) := by
  refine ⟨configure_self ?_ ?_ rfl, rfl, fun h => if_neg (by simpa using h), fun h => if_neg h⟩
  · change (if c.logger.handlers.isEmpty then [⟨stdout, notset⟩] else c.logger.handlers) ≠ []
    split
    · exact List.cons_ne_nil _ _
    · rename_i h
      simpa using h
  · change (if c.logger.level = notset then info else c.logger.level) ≠ notset
    split
    · decide
    · assumption

structure Untouched (disable : Nat) (c : Lineage Sink) : Prop where
  handlers : c.logger.handlers = []
  level : c.logger.level = notset
  on : c.logger.disabled = false
  disable : disable < info

theorem configured_level (h : Untouched disable c) : effectiveLevel
    ((configureAuditLogging stdout c).logger :: (configureAuditLogging stdout c).parents) = info := by
  have hlevel : (configureAuditLogging stdout c).logger.level = info := if_pos h.level
  rw [effectiveLevel_set, hlevel]
  rw [hlevel]
  decide

theorem configured_enabled (h : Untouched disable c) :
    isEnabledFor disable (configureAuditLogging stdout c) event.level = true := by
  have hevent : info ≤ event.level := event_level
  exact isEnabledFor_iff.mpr ⟨h.on, lt_of_lt_of_le h.disable hevent, configured_level h ▸ hevent⟩

/-- Each event goes to standard output, once and nowhere else. -/
theorem configured_deliver (h : Untouched disable c) :
    deliver disable lastResort (configureAuditLogging stdout c) event.level = [stdout] := by
  have hhandlers : (configureAuditLogging stdout c).logger.handlers = [⟨stdout, notset⟩] := by
    simp [configureAuditLogging, h.handlers]
  exact deliver_once (configured_enabled h) rfl hhandlers (Nat.zero_le _)

theorem configured_debug (h : Untouched disable c) :
    isEnabledFor disable (configureAuditLogging stdout c) debug = false := by
  rw [← Bool.not_eq_true, isEnabledFor_iff]
  rintro ⟨_, _, hlevel⟩
  rw [configured_level h] at hlevel
  revert hlevel
  decide

end

/-! ## Reading the log -/

def payloadKeys : List Text :=
  txt "request_id" :: lineKeys ++ [txt "latency_ms", txt "stream_result", txt "bytes_streamed", txt "held_scopes"]

theorem payloadKeys_nodup : payloadKeys.Nodup := by
  decide

theorem presentMembers_names (d : List (Text × Option Value)) :
    ((presentMembers d).map Prod.fst).Sublist (d.map Prod.fst) := by
  induction d with
  | nil => exact List.Sublist.slnil
  | cons m d ih =>
    obtain ⟨k, v⟩ := m
    cases v with
    | none => exact ih.cons _
    | some v => exact ih.cons_cons _

theorem payload_keys (event : AuditEvent) (debugOn : Bool) :
    ((event.payload debugOn).map Prod.fst).Sublist payloadKeys := by
  refine (presentMembers_names _).trans ?_
  have hkeys : payloadKeys = event.members.map Prod.fst ++ [txt "held_scopes"] := rfl
  rw [hkeys, List.map_append]
  cases debugOn with
  | true => exact List.Sublist.refl _
  | false => exact List.Sublist.append (List.Sublist.refl _) (List.nil_sublist _)

theorem sortMembers_perm (ms : List (Text × Value)) : (sortMembers ms).Perm ms := List.perm_insertionSort _ ms

def Flat : Value → Prop
  | .obj _ => False
  | .arr vs => ∃ texts : List Text, vs = texts.map .str
  | _ => True

theorem flat_str (o : Option Text) : ∀ v ∈ o.map Value.str, Flat v := by
  intro v hv
  obtain ⟨s, _, rfl⟩ := Option.map_eq_some_iff.mp hv
  trivial

theorem flat_count (o : Option Nat) : ∀ v ∈ o.map natValue, Flat v := by
  intro v hv
  obtain ⟨n, _, rfl⟩ := Option.map_eq_some_iff.mp hv
  trivial

theorem flat_some {v : Value} (h : Flat v) : ∀ w ∈ some v, Flat w := by
  intro w hw
  cases hw
  exact h

theorem record_flat (record : AuditRecord) : ∀ m ∈ record.members, ∀ v ∈ m.2, Flat v := by
  simp only [AuditRecord.members, List.forall_mem_cons]
  exact ⟨flat_some trivial, flat_str _, flat_str _, flat_str _, flat_str _, flat_str _, flat_str _,
    flat_str _, flat_str _,
    flat_count _, flat_count _, flat_some trivial, flat_str _, flat_str _, flat_some ⟨_, rfl⟩,
      flat_some trivial, flat_count _,
    fun _ h => by cases h⟩

theorem event_flat (event : AuditEvent) : ∀ m ∈ event.members, ∀ v ∈ m.2, Flat v := by
  simp only [AuditEvent.members, List.forall_mem_append, List.forall_mem_cons]
  refine ⟨record_flat event.record, flat_some trivial, ?_, ?_, fun _ h => by cases h⟩
  · intro v hv
    obtain ⟨s, _, rfl⟩ := Option.map_eq_some_iff.mp hv
    trivial
  · intro v hv
    obtain ⟨s, _, rfl⟩ := Option.map_eq_some_iff.mp hv
    trivial

theorem payload_flat {event : AuditEvent} {debugOn : Bool} {m : Text × Value} (h : m ∈ event.payload debugOn) :
    Flat m.2 := by
  obtain ⟨n, hn, hm⟩ := List.mem_filterMap.mp h
  obtain ⟨v, hv, rfl⟩ := Option.map_eq_some_iff.mp hm
  rcases List.mem_append.mp hn with hn | hn
  · exact event_flat event n hn v hv
  · cases debugOn with
    | false => cases hn
    | true =>
      cases List.mem_singleton.mp hn
      cases hv
      exact ⟨_, rfl⟩

theorem flat_reads {v : Value} (h : Flat v) : v.depth ≤ 1 ∧ (v.mapTexts joinPairs).Distinct := by
  cases v with
  | obj ms => cases h
  | arr vs =>
    obtain ⟨texts, rfl⟩ := h
    constructor
    · have helems : depthElems (texts.map .str) ≤ 0 := by
        rw [depthElems_le]
        intro v hv
        obtain ⟨s, _, rfl⟩ := List.mem_map.mp hv
        exact Nat.le_refl 0
      rw [Value.depth]
      omega
    · rw [Value.mapTexts, mapTextsElems_eq, distinct_arr, List.forall_mem_map, List.forall_mem_map]
      intro s _
      exact distinct_leaf rfl
  | null => exact ⟨Nat.zero_le 1, distinct_leaf rfl⟩
  | bool b => exact ⟨Nat.zero_le 1, distinct_leaf rfl⟩
  | int z => exact ⟨Nat.zero_le 1, distinct_leaf rfl⟩
  | float x => exact ⟨Nat.zero_le 1, distinct_leaf rfl⟩
  | str s => exact ⟨Nat.zero_le 1, distinct_leaf rfl⟩

/-- What a reader of the log gets of an event: its members by name, with surrogates joined. -/
def AuditEvent.readAs (event : AuditEvent) (debugOn : Bool) : Value :=
  (Value.obj (sortMembers (event.payload debugOn))).mapTexts joinPairs

theorem line_reads {py : Interp} {event : AuditEvent} {debugOn : Bool} {line : Text}
    (h : event.line py debugOn = .ok line) (d : Nat) :
    scanDocument py.plainDecoder (d + 2) line = .ok (event.readAs debugOn) := by
  refine (reads_back (fun _ => rfl) (fun c => by cases c <;> rfl) rfl rfl h).mpr ⟨?_, ?_⟩
  · rw [Value.depth, Nat.add_le_add_iff_right, depthPairs_le]
    intro m hm
    have := (flat_reads (payload_flat ((sortMembers_perm _).mem_iff.mp hm))).1
    omega
  · rw [Value.mapTexts, mapTextsMembers_eq, distinct_obj, List.forall_mem_map]
    refine ⟨?_, fun m hm => (flat_reads (payload_flat ((sortMembers_perm _).mem_iff.mp hm))).2⟩
    have hself : ∀ k ∈ payloadKeys, joinPairs k = k := by decide
    have hnames : ((sortMembers (event.payload debugOn)).map fun m => joinPairs m.1) =
        (sortMembers (event.payload debugOn)).map Prod.fst := by
      refine List.map_congr_left fun m hm => hself m.1 ?_
      exact (payload_keys event debugOn).subset (List.mem_map_of_mem ((sortMembers_perm _).mem_iff.mp hm))
    rw [List.map_map]
    change ((sortMembers (event.payload debugOn)).map fun m => joinPairs m.1).Nodup
    rw [hnames, ((sortMembers_perm _).map Prod.fst).nodup_iff]
    exact (payload_keys event debugOn).nodup payloadKeys_nodup

theorem streamText_split {lines : List Text} (h : ∀ line ∈ lines, Line line) :
    (streamText lines).splitOn (ch '\n') = lines ++ [[]] := by
  induction lines with
  | nil => rfl
  | cons line lines ih =>
    obtain ⟨hline, hlines⟩ := List.forall_mem_cons.mp h
    have hno : ch '\n' ∉ line := fun hmem => absurd (hline _ hmem).1 (by decide)
    rw [streamText, List.flatMap_cons, List.append_assoc, List.singleton_append, List.splitOn_append_cons_self,
      List.splitOn_eq_singleton hno]
    exact congrArg (line :: ·) (ih hlines)

section
variable {Sink : Type} {py : Interp} {stdout : Sink} {disable : Nat} {lastResort : Handler Sink} {c : Lineage Sink}

theorem emitAll_configured (h : Untouched disable c) {events : List AuditEvent} {written : List (Sink × Text)}
    (hw : emitAll py disable lastResort (configureAuditLogging stdout c) events = .ok written) :
    ∃ lines, written = lines.map (fun line => (stdout, line)) ∧
      List.Forall₂ (fun event line => event.line py false = .ok line) events lines := by
  induction events generalizing written with
  | nil =>
    cases hw
    exact ⟨[], rfl, .nil⟩
  | cons event events ih =>
    rw [emitAll] at hw
    split at hw
    · cases hw
    rename_i now hnow
    split at hw
    · cases hw
    rename_i rest hrest
    cases hw
    obtain ⟨lines, rfl, hlines⟩ := ih hrest
    rw [emit, configured_debug h, configured_deliver h] at hnow
    split at hnow
    · cases hnow
    rename_i line hline
    cases hnow
    exact ⟨line :: lines, rfl, .cons hline hlines⟩

/-- Once the entrypoint has configured a fresh logger, standard output has one line for each event and nothing
else of the log; cut at the line breaks and read as JSON, it gives the events back in order, without scope values.
-/
theorem audit_log_reads (py : Interp) (stdout : Sink) (disable : Nat) (lastResort : Handler Sink) (c : Lineage Sink)
    (h : Untouched disable c) (events : List AuditEvent) (written : List (Sink × Text))
    (hw : emitAll py disable lastResort (configureAuditLogging stdout c) events = .ok written) :
    (∀ w ∈ written, w.1 = stdout) ∧ ∃ lines, (streamText (written.map Prod.snd)).splitOn (ch '\n') = lines ++ [[]] ∧
      List.Forall₂ (fun event line => ∀ d, scanDocument py.plainDecoder (d + 2) line = .ok (event.readAs false))
      events lines := by
  obtain ⟨lines, rfl, hlines⟩ := emitAll_configured h hw
  refine ⟨?_, lines, ?_, ?_⟩
  · intro w hmem
    obtain ⟨line, _, rfl⟩ := List.mem_map.mp hmem
    rfl
  · have hsnd : (lines.map fun line => (stdout, line)).map Prod.snd = lines := by simp
    have hplain : (∀ line ∈ lines, Line line) ↔ ∀ event ∈ events, True :=
      forall₂_forall hlines fun event _ line hline => iff_of_true (dumps_line rfl hline) trivial
    rw [hsnd]
    exact streamText_split (hplain.mpr fun _ _ => trivial)
  · exact hlines.imp fun event line hline d => line_reads hline d

/-- Under Python's defaults the warnings alone are heard, on standard error; configuring lets all events be heard.
-/
theorem configuring_heard (stdout stderr : Sink) (disable : Nat) (c : Lineage Sink) (h : Untouched disable c)
    (hhandlers : ∀ p ∈ c.parents, p.handlers = []) (hlevel : effectiveLevel c.parents = warning)
    (event : AuditEvent) :
    deliver disable ⟨stderr, warning⟩ c event.level = (if warning ≤ event.level then [stderr] else []) ∧
      deliver disable ⟨stderr, warning⟩ (configureAuditLogging stdout c) event.level = [stdout] := by
  refine ⟨?_, configured_deliver h⟩
  have heffective : effectiveLevel (c.logger :: c.parents) = warning := by
    rw [effectiveLevel, if_pos h.level, hlevel]
  have hreached : ∀ ls : List (Logger Sink), (∀ l ∈ ls, l.handlers = []) → reached ls = [] := by
    intro ls
    induction ls with
    | nil => intro _; rfl
    | cons l ls ih =>
      intro hls
      obtain ⟨hl, hls⟩ := List.forall_mem_cons.mp hls
      rw [reached, hl, ih hls]
      split <;> rfl
  have hnone : reached (c.logger :: c.parents) = [] := hreached _ (List.forall_mem_cons.mpr ⟨h.handlers, hhandlers⟩)
  by_cases hwarning : warning ≤ event.level
  · have hon : isEnabledFor disable c event.level = true := by
      refine isEnabledFor_iff.mpr ⟨h.on, lt_of_lt_of_le h.disable event_level, ?_⟩
      rw [heffective]
      exact hwarning
    exact deliver_nobody hon hnone
  · have hoff : isEnabledFor disable c event.level = false := by
      rw [← Bool.not_eq_true, isEnabledFor_iff, heffective]
      exact fun hon => hwarning hon.2.2
    rw [deliver_disabled hoff, if_neg hwarning]

end

/-! ## The events of a relayed ping -/

inductive Std
  | out
  | err
  deriving DecidableEq

def defaultLineage : Lineage Std := ⟨⟨notset, [], true, false⟩, [⟨warning, [], true, false⟩]⟩

theorem defaultLineage_untouched : Untouched 0 defaultLineage := ⟨rfl, rfl, rfl, by decide⟩

def pingRecord : AuditRecord := { requestId := txt "id", method := some (txt "ping"), decision := .allowed }

def pingLatency : Float64 := (intNumeral 2).toFloat

def pingEvents : List AuditEvent := [⟨pingRecord, pingLatency, none⟩,
    ⟨pingRecord, pingLatency, some (.completed, 4)⟩]

theorem audit_log_reads_ping : ∃ written lines,
    emitAll .ascii 0 ⟨.err, warning⟩ (configureAuditLogging .out defaultLineage) pingEvents = .ok written ∧
    written.length = 2 ∧
      (streamText (written.map Prod.snd)).splitOn (ch '\n') = lines ++ [[]] ∧
      List.Forall₂ (fun event line => ∀ d, scanDocument Interp.ascii.plainDecoder (d + 2) line =
      .ok (event.readAs false))
        pingEvents lines := by
  have hwrites : ((emitAll .ascii 0 ⟨.err, warning⟩ (configureAuditLogging Std.out defaultLineage)
      pingEvents).toOption.any
      fun written => written.length = 2) = true := by decide +kernel
  obtain ⟨written, hwritten, hlength⟩ := (Option.any_eq_true _ _).mp hwrites
  have hw : emitAll .ascii 0 ⟨.err, warning⟩ (configureAuditLogging Std.out defaultLineage) pingEvents =
      .ok written := by
    revert hwritten
    generalize emitAll .ascii 0 ⟨.err, warning⟩ (configureAuditLogging Std.out defaultLineage) pingEvents = result
    cases result <;> simp [Except.toOption]
  obtain ⟨_, lines, hsplit, hreads⟩ := audit_log_reads .ascii Std.out 0
    ⟨.err, warning⟩ defaultLineage defaultLineage_untouched
    pingEvents written hw
  exact ⟨written, lines, hw, by simpa using hlength, hsplit, hreads⟩

theorem configuring_heard_default :
    deliver 0 ⟨.err, warning⟩ defaultLineage info = [] ∧
      deliver 0 ⟨.err, warning⟩ (configureAuditLogging Std.out defaultLineage) info = [Std.out] :=
  configuring_heard .out .err 0 defaultLineage defaultLineage_untouched (by decide) rfl
    ⟨pingRecord, pingLatency, none⟩

end McpGateway
