import Reckoner.Failure
import Reckoner.Log.Record

/-!
# Actions

An action ends in a value or a failure and emits texts and log records on the way, in order. What
was emitted before a failure stays emitted.
-/
namespace Reckoner

/-- What an action emits: text for the output, text for the error stream, or a log record. -/
inductive Emission where
  | output (text : String)
  | complaint (text : String)
  | record (r : Log.Record)

structure Act (α : Type) where
  emitted : List Emission
  outcome : Except Failure α

namespace Act

instance : Monad Act where
  pure a := ⟨[], .ok a⟩
  bind m f := match m.outcome with
    | .error e => ⟨m.emitted, .error e⟩
    | .ok a => ⟨m.emitted ++ (f a).emitted, (f a).outcome⟩

def emit (es : List Emission) : Act Unit := ⟨es, .ok ()⟩

def write (text : String) : Act Unit := emit [.output text]

def complain (text : String) : Act Unit := emit [.complaint text]

def log (r : Log.Record) : Act Unit := emit [.record r]

/-- A calculation without emissions. -/
def ofExcept {α : Type} (r : Except Failure α) : Act α := ⟨[], r⟩

def fail {α : Type} (e : Failure) : Act α := ofExcept (.error e)

/-- Goes on with a failure as a value. -/
def attempt {α : Type} (m : Act α) : Act (Except Failure α) := ⟨m.emitted, .ok m.outcome⟩

end Act

namespace Emission

def output? : Emission → Option String
  | output s => some s
  | _ => none

def complaint? : Emission → Option String
  | complaint s => some s
  | _ => none

def record? : Emission → Option Log.Record
  | record r => some r
  | _ => none

/-- All texts for the output. -/
def outputs (es : List Emission) : String := String.join (es.filterMap output?)

/-- All texts for the error stream. -/
def complaints (es : List Emission) : String := String.join (es.filterMap complaint?)

def records (es : List Emission) : List Log.Record := es.filterMap record?

end Emission
end Reckoner
