/-! Places in a source text: lines and columns counted from one, and the rule by
which reading a character moves them. A line ends at a line feed, and at a
carriage return that no line feed follows. -/

namespace LuaSyntax

structure Position where
  line : UInt32
  column : UInt32
  file : String
deriving DecidableEq

/-- From the first character of a piece of text to just after its last one. -/
structure Span where
  start : Position
  stop : Position
deriving DecidableEq

namespace Position

def origin (file : String) : Position := ⟨1, 1, file⟩

/-- Whether reading `c` completes a line when `next` is the character after it. -/
def breaksLine (c : Char) (next : Option Char) : Bool :=
  c == '\n' || (c == '\r' && next != some '\n')

def step (p : Position) (c : Char) (next : Option Char) : Position :=
  if breaksLine c next then { p with line := p.line + 1, column := 1 }
  else { p with column := p.column + 1 }

def after (p : Position) (text : List Char) (next : Option Char) : Position :=
  match text with
  | [] => p
  | c :: cs => (p.step c (cs.head?.or next)).after cs next

@[simp] theorem after_nil (p : Position) (next : Option Char) : p.after [] next = p := rfl

@[simp] theorem step_file (p : Position) (c : Char) (next : Option Char) :
    (p.step c next).file = p.file := by
  unfold step
  split <;> rfl

@[simp] theorem after_file (p : Position) (text : List Char) (next : Option Char) :
    (p.after text next).file = p.file := by
  induction text generalizing p with
  | nil => rfl
  | cons c cs ih => simp [after, ih]

theorem after_append (p : Position) (front back : List Char) (next : Option Char) :
    p.after (front ++ back) next = (p.after front (back.head?.or next)).after back next := by
  induction front generalizing p with
  | nil => rfl
  | cons c cs ih =>
    have hnext : (cs ++ back).head?.or next = cs.head?.or (back.head?.or next) := by
      simp [List.head?_append, Option.or_assoc]
    simp only [List.cons_append, after, hnext, ih]

end Position

end LuaSyntax
