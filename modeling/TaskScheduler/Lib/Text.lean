import Mathlib.Data.List.Basic

/-! Texts as Python reads them: the lines of `str.splitlines`, and `str.format` with keyword
fields, which parses the template once and puts the values in as they are. -/

namespace TaskScheduler.Lib

/-! ### Lines -/

/-- The line breaks of `str.splitlines`. -/
def lineBreak (c : Char) : Bool :=
  decide (c.toNat ∈ [0x0A, 0x0B, 0x0C, 0x0D, 0x1C, 0x1D, 0x1E, 0x85, 0x2028, 0x2029])

/-- The lines of a text, `line` being what has been read of the first one. -/
def lines : List Char → List Char → List (List Char)
  | [], [] => []
  | line, [] => [line]
  | line, '\r' :: '\n' :: cs => line :: lines [] cs
  | line, c :: cs => if lineBreak c then line :: lines [] cs else lines (line ++ [c]) cs

/-- `str.splitlines()`. -/
def splitlines (s : String) : List String := (lines [] s.toList).map String.ofList

/-- The text has no line break. -/
def OneLine (cs : List Char) : Prop := ∀ c ∈ cs, lineBreak c = false

instance (cs : List Char) : Decidable (OneLine cs) := List.decidableBAll ..

theorem OneLine.append {cs cs' : List Char} (h : OneLine cs) (h' : OneLine cs') :
    OneLine (cs ++ cs') := by
  intro c hc
  rcases List.mem_append.mp hc with hc | hc
  · exact h c hc
  · exact h' c hc

theorem lines_append {cs : List Char} (h : OneLine cs) (line rest : List Char) :
    lines line (cs ++ rest) = lines (line ++ cs) rest := by
  induction cs generalizing line with
  | nil => simp
  | cons c cs ih =>
    have hc := h c List.mem_cons_self
    have hr : c ≠ '\r' := by
      rintro rfl
      exact absurd hc (by decide)
    rw [List.cons_append, lines, if_neg (by simp [hc]), ih fun c' hc' => h c' (by simp [hc'])]
    · simp
    · intro cs' hcr
      exact absurd hcr hr

/-- A text without line breaks is one line. -/
theorem lines_last {cs : List Char} (h : OneLine cs) (hne : cs ≠ []) : lines [] cs = [cs] := by
  have := lines_append h [] []
  rw [List.append_nil, List.nil_append] at this
  rw [this]
  cases cs with
  | nil => exact absurd rfl hne
  | cons c cs => rfl

/-- And before a newline it is the first one. -/
theorem lines_newline {cs : List Char} (h : OneLine cs) (rest : List Char) :
    lines [] (cs ++ '\n' :: rest) = cs :: lines [] rest := by
  rw [lines_append h, List.nil_append, lines, if_pos (by decide)]
  exact fun cs' hcr => absurd hcr (by decide)

/-! ### Templates -/

/-- What `string.Formatter.parse` yields: a literal text, or a field. -/
inductive Piece
  | text (cs : List Char)
  | field (name : List Char)
  deriving DecidableEq, Repr

/-- Where a template is being read: in a literal text, behind a single brace, or in a field. -/
inductive FormatState
  | text
  | opened
  | closed
  | field (name : List Char)

/-- The pieces of a template, of which `lit` has been read, backwards.  A double brace stands for
itself, and a single one that is not part of a field is an error. -/
def parseFormat : FormatState → List Char → List Char → Option (List Piece)
  | .text, lit, [] => some [.text lit.reverse]
  | _, _, [] => none
  | .text, lit, c :: cs =>
    if c = '{' then parseFormat .opened lit cs
    else if c = '}' then parseFormat .closed lit cs
    else parseFormat .text (c :: lit) cs
  | .opened, lit, c :: cs =>
    if c = '{' then parseFormat .text ('{' :: lit) cs
    else if c = '}' then
      (parseFormat .text [] cs).map fun ps => .text lit.reverse :: .field [] :: ps
    else parseFormat (.field [c]) lit cs
  | .closed, lit, c :: cs => if c = '}' then parseFormat .text ('}' :: lit) cs else none
  | .field name, lit, c :: cs =>
    if c = '}' then
      (parseFormat .text [] cs).map fun ps => .text lit.reverse :: .field name.reverse :: ps
    else if c = '{' then none
    else parseFormat (.field (c :: name)) lit cs

/-- A piece, with the value of its field; a field without a value is an error. -/
def Piece.render (args : List (List Char × List Char)) : Piece → Option (List Char)
  | .text cs => some cs
  | .field name => (args.find? fun kv => kv.1 == name).map (·.2)

/-- `str.format` with keyword arguments. -/
def strFormat (template : String) (args : List (String × String)) : Option String :=
  (parseFormat .text [] template.toList).bind fun ps =>
    (ps.mapM (Piece.render (args.map fun kv => (kv.1.toList, kv.2.toList)))).map fun texts =>
      String.ofList texts.flatten

end TaskScheduler.Lib
