import HdlSim.Text.Blank

/-!
# Writing indented text

A sink takes text up to an optional limit of bytes.  What does not fit is refused, and the leading
whole characters that do fit are kept.  A writer puts indented lines into a sink and keeps the
level of indentation: a line that opens a block raises it, the line that closes the block lowers it
again.
-/

namespace HdlSim

/-- The text written so far, and the number of UTF-8 bytes that it may grow to. -/
structure Sink where
  text : String
  limit : Option Nat

namespace Sink

/-- Whether one more character fits. -/
def fits (s : Sink) (c : Char) : Bool :=
  match s.limit with
  | none => true
  | some limit => s.text.utf8ByteSize + c.utf8Size ≤ limit

/-- Puts characters into the sink up to the first one that does not fit; says whether all did. -/
def put (s : Sink) : List Char → Sink × Bool
  | [] => (s, true)
  | c :: rest => if s.fits c then put { s with text := s.text.push c } rest else (s, false)

/-- It makes no difference whether a text is put into a sink at once or piece by piece. -/
theorem put_append (s : Sink) (as bs : List Char) :
    s.put (as ++ bs) =
      match s.put as with
      | (t, true) => t.put bs
      | (t, false) => (t, false) := by
  induction as generalizing s with
  | nil => rfl
  | cons c rest ih =>
    simp only [List.cons_append, put]
    split
    · exact ih _
    · rfl

end Sink

/-- A sink together with the level of indentation. -/
structure Writer where
  sink : Sink
  level : Nat

/-- What a writer can be told to write. -/
inductive Command (τ : Type) where
  | line (text : τ)
  | blank
  /-- A line after which a block begins. -/
  | enter (text : τ)
  /-- The line that ends a block. -/
  | leave (text : τ)
  /-- A line that ends a block and begins the next. -/
  | turn (text : τ)

/-- The command with another text. -/
def Command.map {σ τ : Type} (f : σ → τ) : Command σ → Command τ
  | .line t => .line (f t)
  | .blank => .blank
  | .enter t => .enter (f t)
  | .leave t => .leave (f t)
  | .turn t => .turn (f t)

/-- The characters of a line at a level of indentation; an empty line is not indented. -/
def indented (level : Nat) (text : String) : List Char :=
  if text.isEmpty then ['\n']
  else List.replicate (4 * level) ' ' ++ text.toList ++ ['\n']

namespace Writer

/-- A writer over an empty sink. -/
def start (limit : Option Nat) : Writer := ⟨⟨"", limit⟩, 0⟩

/-- The writer with another limit on its sink. -/
def withLimit (w : Writer) (limit : Option Nat) : Writer :=
  { w with sink := { w.sink with limit := limit } }

/-- Writes a line at the current level. -/
def line (w : Writer) (text : String) : Writer × Bool :=
  let (sink, ok) := w.sink.put (indented w.level text)
  ({ w with sink := sink }, ok)

/-- The writer one level further in. -/
def deeper (w : Writer) : Writer := { w with level := w.level + 1 }

/-- The writer one level further out, though not beyond the outermost. -/
def shallower (w : Writer) : Writer := { w with level := w.level - 1 }

/-- Raises the level after a write that was not refused. -/
def deeperIf : Writer × Bool → Writer × Bool
  | (w, true) => (w.deeper, true)
  | (w, false) => (w, false)

/-- Carries out a command; says whether the sink took all of it.  A block that could not be opened
leaves the level as it is, whereas one that could not be closed is left all the same. -/
def exec (w : Writer) : Command String → Writer × Bool
  | .line text => w.line text
  | .blank => w.line ""
  | .enter text => deeperIf (w.line text)
  | .leave text => w.shallower.line text
  | .turn text => deeperIf (w.shallower.line text)

/-- Carries out commands up to the first one that is refused. -/
def execAll (w : Writer) : List (Command String) → Writer × Bool
  | [] => (w, true)
  | c :: rest =>
    match w.exec c with
    | (w, true) => w.execAll rest
    | (w, false) => (w, false)

end Writer

/-- The texts of the lines of a documentation.  White space at the ends of lines is dropped, and
with it the carriage return of a line that ends in one. -/
def docTexts (doc : String) : List String :=
  (Text.lines doc.toList).map fun line => String.ofList (Text.trimEnd line)

/-- A line of a comment: the marker, followed by a space and the text where there is any. -/
def commented (marker text : String) : String :=
  if text.isEmpty then marker else marker ++ " " ++ text

end HdlSim
