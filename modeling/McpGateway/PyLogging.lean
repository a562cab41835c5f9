import Mathlib

/-!
# Loggers and their handlers

Who gets a record that is logged: levels are inherited from the parents, and
handlers are called up to the first logger that does not propagate.
-/

namespace PyLogging

def notset : Nat := 0

def debug : Nat := 10

def info : Nat := 20

def warning : Nat := 30

structure Handler (Sink : Type) where
  sink : Sink
  level : Nat

structure Logger (Sink : Type) where
  level : Nat
  handlers : List (Handler Sink)
  propagate : Bool
  disabled : Bool

structure Lineage (Sink : Type) where
  logger : Logger Sink
  parents : List (Logger Sink)

variable {Sink : Type}

def effectiveLevel : List (Logger Sink) → Nat
  | [] => notset
  | l :: ls => if l.level = notset then effectiveLevel ls else l.level

/-- The handlers that `callHandlers` comes to. -/
def reached : List (Logger Sink) → List (Handler Sink)
  | [] => []
  | l :: ls => l.handlers ++ if l.propagate then reached ls else []

section
variable (disable : Nat) (lastResort : Handler Sink) (c : Lineage Sink)

/-- `disable` is the level up to which logging is disabled for all loggers. -/
def isEnabledFor (level : Nat) : Bool :=
  !c.logger.disabled && decide (disable < level) && decide (effectiveLevel (c.logger :: c.parents) ≤ level)

def deliver (level : Nat) : List Sink :=
  if isEnabledFor disable c level then
    match reached (c.logger :: c.parents) with
    | [] => if lastResort.level ≤ level then [lastResort.sink] else []
    | hs => (hs.filter fun h => h.level ≤ level).map Handler.sink
  else []

variable {disable lastResort c}

theorem effectiveLevel_set {l : Logger Sink} {ls : List (Logger Sink)} (h : l.level ≠ notset) :
    effectiveLevel (l :: ls) = l.level := if_neg h

theorem reached_stops {l : Logger Sink} {ls : List (Logger Sink)} (h : l.propagate = false) :
    reached (l :: ls) = l.handlers := by
  rw [reached, h]
  exact List.append_nil _

theorem isEnabledFor_iff {level : Nat} : isEnabledFor disable c level = true ↔
    c.logger.disabled = false ∧ disable < level ∧ effectiveLevel (c.logger :: c.parents) ≤ level := by
  simp [isEnabledFor, and_assoc]

/-- A logger with one handler that does not propagate is heard once. -/
theorem deliver_once {level : Nat} {h : Handler Sink} (hon : isEnabledFor disable c level = true)
    (hstops : c.logger.propagate = false) (hhandlers : c.logger.handlers = [h]) (hlevel : h.level ≤ level) :
    deliver disable lastResort c level = [h.sink] := by
  rw [deliver, if_pos hon, reached_stops hstops, hhandlers]
  simp [hlevel]

theorem deliver_disabled {level : Nat} (h : isEnabledFor disable c level = false) :
    deliver disable lastResort c level = [] := by
  rw [deliver, h]
  rfl

theorem deliver_nobody {level : Nat} (hon : isEnabledFor disable c level = true)
    (hnone : reached (c.logger :: c.parents) = []) :
    deliver disable lastResort c level = if lastResort.level ≤ level then [lastResort.sink] else [] := by
  rw [deliver, if_pos hon, hnone]

end

end PyLogging
