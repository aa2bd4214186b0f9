import TaskScheduler.Secrets.Resolver

/-! The heuristic of `app/secrets/literal_detection.py` for credentials that a value spells out. -/

namespace TaskScheduler.Secrets

/-- A pattern of `_SECRET_PATTERNS`: a prefix, and at least so many characters of a class behind
it. -/
structure SecretPattern where
  pre : List Char
  tail : Char → Bool
  least : Nat

/-- `[A-Za-z0-9]`. -/
def asciiAlnum (c : Char) : Bool := c.isAlpha || c.isDigit

/-- `[A-Za-z0-9_\-]`. -/
def keyChar (c : Char) : Bool := asciiAlnum c || c == '_' || c == '-'

/-- `_SECRET_PATTERNS`. -/
def secretPatterns : List SecretPattern :=
  [⟨['s', 'k', '-', 'a', 'n', 't', '-'], keyChar, 8⟩,
    ⟨['s', 'k', '-'], keyChar, 8⟩,
    ⟨['x', 'o', 'x', 'b', '-'], fun c => asciiAlnum c || c == '-', 8⟩,
    ⟨['g', 'h', 'p', '_'], asciiAlnum, 8⟩,
    ⟨['g', 'l', 'p', 'a', 't', '-'], keyChar, 8⟩,
    ⟨['A', 'I', 'z', 'a'], keyChar, 15⟩]

section Detect

variable (isalnum : Char → Bool)

/-- `\w`, of `str.isalnum`. -/
def wordChar (c : Char) : Bool := isalnum c || c == '_'

/-- Whether the pattern matches here, behind the character `before`. -/
def SecretPattern.matchesAt (p : SecretPattern) (before : Option Char) (cs : List Char) : Bool :=
  !(before.any fun c => c == '/' || wordChar isalnum c) && p.pre.isPrefixOf cs &&
    decide (p.least ≤ ((cs.drop p.pre.length).takeWhile p.tail).length)

/-- `pattern.search`. -/
def SecretPattern.search (p : SecretPattern) : Option Char → List Char → Bool
  | before, [] => p.matchesAt isalnum before []
  | before, c :: cs => p.matchesAt isalnum before (c :: cs) || p.search (some c) cs

/-- `_check_string`. -/
def checkString (s : String) : Option String :=
  (secretPatterns.find? fun p => p.search isalnum none s.toList).map fun p => String.ofList p.pre

mutual

/-- `detect_literal_secret`. -/
def detectLiteralSecret : Json → Option String
  | .str s => checkString isalnum s
  | .obj fields => detectFields fields
  | .arr items => detectItems items
  | .null => none
  | .bool _ => none
  | .int _ => none
  | .float _ => none

/-- `detect_literal_secret` of the items of a list. -/
def detectItems : List Json → Option String
  | [] => none
  | v :: vs => (detectLiteralSecret v).or (detectItems vs)

/-- `detect_literal_secret` of the values of a dict. -/
def detectFields : List (String × Json) → Option String
  | [] => none
  | (_, v) :: kvs => (detectLiteralSecret v).or (detectFields kvs)

end

mutual

/-- The prefix is that of the first text, at any depth, in which a pattern matches. -/
theorem detectLiteralSecret_eq (value : Json) :
    detectLiteralSecret isalnum value = (strings value).findSome? (checkString isalnum) := by
  cases value with
  | str s =>
    rw [detectLiteralSecret, strings, List.findSome?_singleton]
  | arr items => rw [detectLiteralSecret, strings, detectItems_eq items]
  | obj fields => rw [detectLiteralSecret, strings, detectFields_eq fields]
  | _ => simp [detectLiteralSecret, strings]

theorem detectItems_eq (items : List Json) :
    detectItems isalnum items = (stringsOfItems items).findSome? (checkString isalnum) := by
  cases items with
  | nil => rw [detectItems, stringsOfItems, List.findSome?_nil]
  | cons v vs =>
    rw [detectItems, stringsOfItems, List.findSome?_append, detectLiteralSecret_eq v,
      detectItems_eq vs]

theorem detectFields_eq (fields : List (String × Json)) :
    detectFields isalnum fields = (stringsOfFields fields).findSome? (checkString isalnum) := by
  cases fields with
  | nil => rw [detectFields, stringsOfFields, List.findSome?_nil]
  | cons kv kvs =>
    obtain ⟨k, v⟩ := kv
    rw [detectFields, stringsOfFields, List.findSome?_append, detectLiteralSecret_eq v,
      detectFields_eq kvs]

end

end Detect

end TaskScheduler.Secrets
