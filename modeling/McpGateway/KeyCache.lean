import McpGateway.Transition
import McpGateway.Unicode

/-!
# The key cache of the verifier

Calls of `_resolve_key` and `ready` run on any number of threads. Each section
that holds the lock is one step, the fetch between two sections takes two. A
history records when fetches start and complete and what calls answer.
-/

namespace McpGateway

open Unicode Transition

variable {Tid Kid Key Raw : Type}

/-- An exception by class; `caught` when `except Exception` catches it. -/
structure Thrown where
  cls : Text
  caught : Bool
  deriving DecidableEq

/-- The arguments of `JwksVerifier` that time the cache. Times are rationals, and exact where the code subtracts
doubles. -/
structure CacheConfig where
  ttl : Int
  minRefreshInterval : WithTop ℚ

abbrev Keys (Kid Key : Type) := List (Kid × Key)

/-- The fields under the lock; a time of `none` is `-inf`. -/
structure Cache (Kid Key : Type) where
  refreshing : Bool
  keys : Keys Kid Key
  lastFetch : Option ℚ
  lastSuccess : Option ℚ

def Cache.init : Cache Kid Key := ⟨false, [], none, none⟩

inductive Op (Kid : Type)
  | resolve (kid : Kid)
  | ready
  deriving DecidableEq

inductive Answer (Key : Type)
  | key (key : Key)
  | tokenError (message : Text)
  | thrown (e : Thrown)
  | ready (b : Bool)
  deriving DecidableEq

def noMatch : Text := txt "no matching signing key"

/-! ## The sections of a call -/

inductive Decision (Key : Type)
  | answer (a : Answer Key)
  | wait
  | claim
  deriving DecidableEq

section
variable (cfg : CacheConfig) (c : Cache Kid Key) (now : ℚ)

def withinTtl (t : Option ℚ) : Bool :=
  match t with
  | none => false
  | some t => now - t ≤ cfg.ttl

def fresh : Bool := 0 < cfg.ttl && withinTtl cfg now c.lastFetch

def cold : Bool := c.lastFetch.isNone

def ttlExpired : Bool := !cold c && (cfg.ttl = 0 || !withinTtl cfg now c.lastFetch)

def cooldownElapsed : Bool :=
  match c.lastFetch with
  | none => true
  | some t => cfg.minRefreshInterval ≤ ((now - t : ℚ) : WithTop ℚ)

/-- Whether a refresh may start, asked with none in flight. -/
def admission (key : Option Key) : Decision Key :=
  if cold c || ttlExpired cfg c now || cooldownElapsed cfg c now then .claim
  else
    match key with
    | some key => .answer (.key key)
    | none => .answer (.tokenError noMatch)

variable [DecidableEq Kid]

/-- `_resolve_key` up to its first wait. -/
def enterResolve (now' : ℚ) (kid : Kid) : Decision Key :=
  match c.keys.lookup kid with
  | some key =>
    if fresh cfg c now then .answer (.key key)
    else if c.refreshing then .answer (.key key)
    else admission cfg c now' (some key)
  | none => if c.refreshing then .wait else admission cfg c now' none

/-- From a notification on: the key, the loop's test, the admission. -/
def wakeResolve (kid : Kid) : Decision Key :=
  match c.keys.lookup kid with
  | some key => .answer (.key key)
  | none => if c.refreshing then .wait else admission cfg c now none

omit [DecidableEq Kid] in
/-- `ready` up to its fetch. -/
def enterReady : Decision Key :=
  if !c.keys.isEmpty && (0 < cfg.ttl && withinTtl cfg now c.lastSuccess) then .answer (.ready true)
  else if c.refreshing then .answer (.ready false)
  else if !cooldownElapsed cfg c now then .answer (.ready false)
  else .claim

end

/-! ## The fetch -/

inductive Fetched (Raw : Type)
  | body (raw : Raw)
  | tokenError (message : Text)
  | thrown (e : Thrown)
  deriving DecidableEq

section
variable (parse : Raw → Except Thrown (Keys Kid Key))

def newKeys : Fetched Raw → Option (Keys Kid Key)
  | .body raw => (parse raw).toOption
  | _ => none

def retrievalFailed (e : Thrown) : Answer Key :=
  if e.caught then .tokenError (txt "JWKS retrieval failed: " ++ e.cls) else .thrown e

/-- What `_resolve_key` raises after its completing section, if anything. -/
def resolveError : Fetched Raw → Option (Answer Key)
  | .tokenError message => some (.tokenError message)
  | .thrown e => some (retrievalFailed e)
  | .body raw =>
    match parse raw with
    | .error e => some (retrievalFailed e)
    | .ok [] => some (.tokenError (txt "JWKS contained no usable signing keys"))
    | .ok (_ :: _) => none

def readyResult : Fetched Raw → Answer Key
  | .tokenError _ => .ready false
  | .thrown e => if e.caught then .ready false else .thrown e
  | .body raw =>
    match parse raw with
    | .error e => if e.caught then .ready false else .thrown e
    | .ok keys => .ready !keys.isEmpty

end

/-- The completing section of both calls. -/
def Cache.complete (c : Cache Kid Key) (now : ℚ) (new : Option (Keys Kid Key)) : Cache Kid Key where
  refreshing := false
  lastFetch := some now
  keys := new.getD c.keys
  lastSuccess :=
    match new with
    | some (_ :: _) => some now
    | _ => c.lastSuccess

/-! ## Threads -/

inductive Pc (Kid Key Raw : Type)
  | called (op : Op Kid)
  | parked (op : Op Kid)
  | notified (op : Op Kid)
  | timedOut (op : Op Kid)
  | claimed (op : Op Kid)
  | fetching (op : Op Kid) (since : ℚ)
  | fetched (op : Op Kid) (since : ℚ) (outcome : Fetched Raw)
  | reread (kid : Kid) (since : ℚ)
  | done (a : Answer Key)
  deriving DecidableEq

/-- What a call's answer rests on: a section at a time, its own fetch, or the wait's timeout. -/
inductive Ground
  | held (now : ℚ)
  | fetch (since : ℚ)
  | timeout
  deriving DecidableEq

inductive Entry (Tid Kid Key Raw : Type)
  | started (t : Tid) (now : ℚ)
  | completed (t : Tid) (since now : ℚ) (outcome : Fetched Raw)
  | answered (t : Tid) (op : Op Kid) (a : Answer Key) (ground : Ground)
  deriving DecidableEq

structure Sys (Tid Kid Key Raw : Type) where
  clock : ℚ
  cache : Cache Kid Key
  threads : Tid → Option (Pc Kid Key Raw)
  log : List (Entry Tid Kid Key Raw)

inductive Event (Tid Kid Raw : Type)
  | call (t : Tid) (op : Op Kid)
  | enter (t : Tid) (now now' : ℚ)
  | probe (t : Tid) (now : ℚ)
  | timeout (t : Tid)
  | expire (t : Tid)
  | wake (t : Tid) (now : ℚ)
  | fetchStart (t : Tid) (now : ℚ)
  | fetchEnd (t : Tid) (now : ℚ) (outcome : Fetched Raw)
  | complete (t : Tid) (now : ℚ)
  | reread (t : Tid)

def notifyAll (threads : Tid → Option (Pc Kid Key Raw)) : Tid → Option (Pc Kid Key Raw) := fun t =>
  match threads t with
  | some (.parked op) => some (.notified op)
  | pc => pc

section
variable [DecidableEq Tid]

def Sys.goto (s : Sys Tid Kid Key Raw) (t : Tid) (pc : Pc Kid Key Raw) : Sys Tid Kid Key Raw :=
  { s with threads := Function.update s.threads t (some pc) }

def Sys.answer (s : Sys Tid Kid Key Raw) (t : Tid) (op : Op Kid) (a : Answer Key) (ground : Ground) :
    Sys Tid Kid Key Raw :=
  { s.goto t (.done a) with log := s.log ++ [.answered t op a ground] }

def Sys.settle (s : Sys Tid Kid Key Raw) (t : Tid) (op : Op Kid) (now : ℚ) : Decision Key → Sys Tid Kid Key Raw
  | .answer a => { s with clock := now }.answer t op a (.held now)
  | .wait => { s with clock := now }.goto t (.parked op)
  | .claim => { s with clock := now, cache := { s.cache with refreshing := true } }.goto t (.claimed op)

variable (cfg : CacheConfig) (parse : Raw → Except Thrown (Keys Kid Key)) [DecidableEq Kid]

omit [DecidableEq Tid] [DecidableEq Kid] in
def Sys.land (s : Sys Tid Kid Key Raw) (t : Tid) (since now : ℚ) (outcome : Fetched Raw) : Sys Tid Kid Key Raw where
  clock := now
  cache := s.cache.complete now (newKeys parse outcome)
  threads := notifyAll s.threads
  log := s.log ++ [.completed t since now outcome]

omit [DecidableEq Kid] in
def Sys.finish (s : Sys Tid Kid Key Raw) (t : Tid) (op : Op Kid) (since : ℚ) (outcome : Fetched Raw) :
    Sys Tid Kid Key Raw :=
  match op with
  | .ready => s.answer t op (readyResult parse outcome) (.fetch since)
  | .resolve kid =>
    match resolveError parse outcome with
    | some a => s.answer t op a (.fetch since)
    | none => s.goto t (.reread kid since)

def Sys.step (s : Sys Tid Kid Key Raw) : Event Tid Kid Raw → Option (Sys Tid Kid Key Raw)
  | .call t op =>
    match s.threads t with
    | none => some (s.goto t (.called op))
    | some _ => none
  | .enter t now now' =>
    match s.threads t with
    | some (.called (.resolve kid)) =>
      if s.clock ≤ now ∧ now ≤ now' then
        some (s.settle t (.resolve kid) now' (enterResolve cfg s.cache now now' kid))
      else none
    | _ => none
  | .probe t now =>
    match s.threads t with
    | some (.called .ready) =>
      if s.clock ≤ now then some (s.settle t .ready now (enterReady cfg s.cache now)) else none
    | _ => none
  | .timeout t =>
    match s.threads t with
    | some (.parked op) => some (s.goto t (.timedOut op))
    | _ => none
  | .expire t =>
    match s.threads t with
    | some (.timedOut op) => some (s.answer t op (.tokenError (txt "signing key refresh timed out")) .timeout)
    | _ => none
  | .wake t now =>
    match s.threads t with
    | some (.notified (.resolve kid)) =>
      if s.clock ≤ now then some (s.settle t (.resolve kid) now (wakeResolve cfg s.cache now kid)) else none
    | _ => none
  | .fetchStart t now =>
    match s.threads t with
    | some (.claimed op) =>
      if s.clock ≤ now then
        some { s.goto t (.fetching op now) with clock := now, log := s.log ++ [.started t now] }
      else none
    | _ => none
  | .fetchEnd t now outcome =>
    match s.threads t with
    | some (.fetching op since) =>
      if s.clock ≤ now then some { s.goto t (.fetched op since outcome) with clock := now } else none
    | _ => none
  | .complete t now =>
    match s.threads t with
    | some (.fetched op since outcome) =>
      if s.clock ≤ now then
        some ((s.land parse t since now outcome).finish parse t op since outcome)
      else none
    | _ => none
  | .reread t =>
    match s.threads t with
    | some (.reread kid since) =>
      match s.cache.keys.lookup kid with
      | some key => some (s.answer t (.resolve kid) (.key key) (.fetch since))
      | none => some (s.answer t (.resolve kid) (.tokenError noMatch) (.fetch since))
    | _ => none

def verifier (start : ℚ) : Machine (Sys Tid Kid Key Raw) (Event Tid Kid Raw) where
  init := ⟨start, Cache.init, fun _ => none, []⟩
  step := Sys.step cfg parse

end

abbrev numbered (cfg : CacheConfig) : Machine (Sys Nat Nat Nat (Keys Nat Nat)) (Event Nat Nat (Keys Nat Nat)) :=
  verifier cfg .ok 0

end McpGateway
