import ArticleAudit.Pattern.Engine
import ArticleAudit.Pattern.Program
import ArticleAudit.Pattern.Reader
import ArticleAudit.Text.Slice

/-!
# Searching with patterns

A search runs the threads of a program over a text, one character after the other. Threads are
ordered by preference: earlier starts before later ones, preferred choices before others. A thread
that succeeds ends all threads behind it, so the match is the leftmost one, and of those the one
that the pattern prefers. This is one engine of patterns (`Engine.threaded`); it refuses a pattern
that would take too large a program, or that names a class which is no property, category or script
of its tables.
-/

set_option autoImplicit false

namespace ArticleAudit.Pattern

open ArticleAudit.Text

/-- A thread: the step it is at and the offset where it started. -/
structure Thread where
  step : Nat
  start : Nat
  deriving DecidableEq, Repr, Inhabited

/-- A place in a text: its offset, the character before it and the rest of the text. -/
structure Cut where
  offset : Nat
  before : Option Char
  rest : List Char
  deriving DecidableEq, Repr, Inhabited

/-- The start of a text. -/
def Cut.ofText (cs : List Char) : Cut :=
  ⟨0, none, cs⟩

/-- The place after the next character. -/
def Cut.advance (p : Cut) : Option Cut :=
  match p.rest with
  | [] => none
  | c :: rest => some ⟨p.offset + c.utf8Size, some c, rest⟩

/-- A match: where it starts and the place where it stops. -/
structure Hit where
  start : Nat
  stop : Cut
  deriving DecidableEq, Repr, Inhabited

/-- The span of a match. -/
def Hit.span (h : Hit) : Span :=
  ⟨h.start, h.stop.offset⟩

namespace Program

/-- Follows the steps that take no character, each at most once. Answers the threads that wait for a
character, in order, up to the first thread that succeeds, and that thread's start. -/
def settle (p : Program) (before after : Option Char) :
    Nat → List Thread → Array Bool → List Thread × Option Nat
  | 0, _, _ => ([], none)
  | _, [], _ => ([], none)
  | fuel + 1, t :: rest, seen =>
    if seen.getD t.step true then settle p before after fuel rest seen
    else
      let seen := seen.setIfInBounds t.step true
      match p.steps[t.step]? with
      | none => settle p before after fuel rest seen
      | some .success => ([], some t.start)
      | some (.chars ..) =>
        let (waiting, success) := settle p before after fuel rest seen
        (t :: waiting, success)
      | some (.look place next) =>
        if place.holds before after then
          settle p before after fuel (⟨next, t.start⟩ :: rest) seen
        else settle p before after fuel rest seen
      | some (.split preferred other) =>
        settle p before after fuel (⟨preferred, t.start⟩ :: ⟨other, t.start⟩ :: rest) seen

/-- A waiting thread takes a character, if it is the right one. -/
def take? (p : Program) (c : Char) (t : Thread) : Option Thread :=
  match p.steps[t.step]? with
  | some (.chars set next) => if set.contains c then some ⟨next, t.start⟩ else none
  | _ => none

/-- Runs threads over the rest of a text; as long as there is no match, a new one starts at every
place. -/
def run (p : Program) (offset : Nat) (before : Option Char) (threads : List Thread)
    (best : Option Hit) (rest : List Char) : Option Hit :=
  let threads := if best.isNone then threads ++ [⟨p.entry, offset⟩] else threads
  let fuel := threads.length + 2 * p.steps.size + 1
  let (waiting, success) :=
    p.settle before rest.head? fuel threads (Array.replicate p.steps.size false)
  let best := match success with
    | some start => some ⟨start, offset, before, rest⟩
    | none => best
  match rest with
  | [] => best
  | c :: rest =>
    let threads := waiting.filterMap (p.take? c)
    if threads.isEmpty && best.isSome then best
    else run p (offset + c.utf8Size) (some c) threads best rest

/-- The first match at or after a place. -/
def search (p : Program) (place : Cut) : Option Hit :=
  p.run place.offset place.before [] none place.rest

/-- The matches from a place on, each after the one before it. `adjacent` says that a match ends
here, and then an empty one here does not count. -/
def searchAll (p : Program) : Nat → Bool → Cut → List Span
  | 0, _, _ => []
  | fuel + 1, adjacent, place =>
    match p.search place with
    | none => []
    | some hit =>
      if adjacent && hit.start == hit.stop.offset && hit.start == place.offset then
        match place.advance with
        | some next => searchAll p fuel false next
        | none => []
      else hit.span :: searchAll p fuel true hit.stop

end Program

/-! ## Patterns -/

/-- Compiles a pattern text; `ignoreCase` sets that flag at its start. -/
def compile? (ignoreCase : Bool) (text : String) : Option Program := do
  let s ← Syntax.ofChars? text.toList
  let (e, _) ← (Flags.initial ignoreCase).expr? s
  Program.ofExpr? e

namespace Program

/-- The pattern fits somewhere in a text. -/
def isIn (p : Program) (cs : List Char) : Bool :=
  (p.search (.ofText cs)).isSome

/-- All matches in a text, in order and disjoint. -/
def findAll (p : Program) (cs : List Char) : List Span :=
  p.searchAll (2 * cs.length + 2) false (.ofText cs)

/-- What a program finds. -/
def finder (p : Program) : Finder :=
  ⟨p.isIn, p.findAll⟩

end Program

/-- The engine that runs the threads of programs side by side. -/
def Engine.threaded : Engine where
  compile? ignoreCase text := (Pattern.compile? ignoreCase text).map Program.finder

end ArticleAudit.Pattern
