/-!
# Annotations

What a decoder says about a stretch of its input: a kind, the row it is shown in, the half-open
range of sample numbers it covers, and its texts from the longest to the shortest.
-/

set_option autoImplicit false

namespace BusDecode

/-- What an annotation is about, from finest to coarsest. -/
inductive AnnotationKind where
  /-- a single bit on a line -/
  | bit
  /-- an assembled byte -/
  | byte
  /-- a field of a command: opcode, address, data, register value -/
  | field
  /-- a whole decoded command -/
  | command
  /-- traffic that breaks the protocol or is not understood -/
  | warning
  deriving DecidableEq, Repr, Inhabited

/-- One decoded element, covering the sample numbers from `start` up to but not including `stop`. -/
structure Annotation where
  kind : AnnotationKind
  row : String
  start : Nat
  stop : Nat
  texts : List String
  deriving DecidableEq, Repr, Inhabited

namespace Annotation

/-- The row that the warnings of every decoder share. -/
def warningRow : String := "warnings"

def warning (start stop : Nat) (text : String) : Annotation :=
  ⟨.warning, warningRow, start, stop, [text]⟩

def field (row : String) (start stop : Nat) (text : String) : Annotation :=
  ⟨.field, row, start, stop, [text]⟩

def text (a : Annotation) : String :=
  a.texts.head?.getD ""

def shortText (a : Annotation) : String :=
  a.texts.getLast?.getD ""

def isWarning (a : Annotation) : Bool :=
  a.kind = .warning

/-- Spaces in front up to a width in characters; a longer text stays as it is. -/
def alignRight (width : Nat) (s : String) : String :=
  String.ofList (s.toList.leftpad width ' ')

/-- Spaces behind up to a width in characters; a longer text stays as it is. -/
def alignLeft (width : Nat) (s : String) : String :=
  String.ofList (s.toList.rightpad width ' ')

/-- One-line listing entry: range, row and longest text in columns. -/
def describe (a : Annotation) : String :=
  s!"{alignRight 10 (toString a.start)}-{alignLeft 10 (toString a.stop)} " ++
    s!"{alignLeft 12 a.row} {a.text}"

end Annotation

end BusDecode
