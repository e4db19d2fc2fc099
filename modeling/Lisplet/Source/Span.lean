import Lisplet.Source.Basic

/-!
Spans: stretches of a source text, given by the offsets of their first character and of the
character after their last one.
-/

namespace Lisplet

structure Span where
  start : Nat
  stop : Nat
  source : Source
deriving DecidableEq

/-- Why two spans have no common span. -/
inductive SpanFault where
  | joinAcrossSources
  | extendAcrossSources
deriving DecidableEq

namespace SpanFault

def message : SpanFault → String
  | joinAcrossSources => "cannot join spans of different sources"
  | extendAcrossSources => "cannot extend a span with another source"

end SpanFault

namespace Span

def emptyAt (source : Source) (offset : Nat) : Span := ⟨offset, offset, source⟩

/-- The covered text; offsets past the end are cut off, and a span that stops before it starts
covers nothing. -/
def text (span : Span) : String := span.source.slice span.start span.stop

def location (span : Span) : Location := span.source.location span.start

def endLocation (span : Span) : Location := span.source.location span.stop

def sameSource (a b : Span) : Bool := a.source.serial == b.source.serial

/-- Spans are the same stretch of the same source. -/
def same (a b : Span) : Bool := a.sameSource b && a.start == b.start && a.stop == b.stop

/-- From the start of one span to the end of a later one in the same source. -/
def through (a b : Span) : Span := { a with stop := b.stop }

def join (a b : Span) : Except SpanFault Span :=
  if a.sameSource b then .ok (a.through b) else .error .joinAcrossSources

def extend (a b : Span) : Except SpanFault Span :=
  if a.sameSource b then .ok (a.through b) else .error .extendAcrossSources

end Span
end Lisplet
