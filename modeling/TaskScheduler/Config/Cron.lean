import TaskScheduler.Db.Models

/-! Cron expressions (`app/config/cron.py`), timezones (`app/config/timezone_resolver.py`), and the
action registry (`app/actions/registry.py`): what the domain reads of its configuration. -/

namespace TaskScheduler

/-- The calls into croniter, zoneinfo and `datetime`: whether `ZoneInfo(key)` loads,
`croniter.is_valid`, `get_next` from a start time in a zone (`none` where it raises), and
`fromisoformat` with a naive value read in a zone. -/
structure Libs where
  zoneInfo : String → Bool
  isValid : String → Bool
  getNext : String → String → Int → Option Int
  fromIsoFormat : String → String → Option Int

/-- What the code relies on of `get_next`: it returns the least occurrence strictly after its
start. -/
def Libs.NextIsLeast (libs : Libs) (occurs : String → String → Int → Prop) : Prop :=
  ∀ expr tz start next, libs.getNext expr tz start = some next →
    occurs expr tz next ∧ start < next ∧ ∀ t, start < t → t < next → ¬occurs expr tz t

/-- One microsecond. -/
def microsecond : Int := 1

/-- `next_after`: the earliest fire time that is not before `ref`. -/
def nextAfter (libs : Libs) (cronExpr tz : String) (ref : Int) : Option Int :=
  libs.getNext cronExpr tz (ref - microsecond)

theorem nextAfter_least {libs : Libs} {occurs : String → String → Int → Prop}
    (hlibs : libs.NextIsLeast occurs) {expr tz : String} {ref next : Int}
    (h : nextAfter libs expr tz ref = some next) :
    occurs expr tz next ∧ ref ≤ next ∧ ∀ t, ref ≤ t → t < next → ¬occurs expr tz t := by
  obtain ⟨hocc, hlt, hleast⟩ := hlibs expr tz (ref - microsecond) next h
  simp only [microsecond] at hlt hleast
  exact ⟨hocc, by omega, fun t ht htn => hleast t (by omega) htn⟩

/-- `str.isspace` of one character. -/
def isSpace (c : Char) : Bool :=
  let n := c.toNat
  (9 ≤ n && n ≤ 13) || (28 ≤ n && n ≤ 32) || n == 0x85 || n == 0xA0 || n == 0x1680 ||
    (0x2000 ≤ n && n ≤ 0x200A) || n == 0x2028 || n == 0x2029 || n == 0x202F || n == 0x205F ||
    n == 0x3000

def strip (cs : List Char) : List Char :=
  ((cs.dropWhile isSpace).reverse.dropWhile isSpace).reverse

/-- `str.lower` as far as a comparison with an ASCII text can tell: besides the ASCII capitals,
only the Kelvin sign and the dotted capital I have an ASCII letter in their lower case. -/
def lowerChar (c : Char) : List Char :=
  if c.toNat == 0x212A then ['k']
  else if c.toNat == 0x130 then ['i', Char.ofNat 0x307]
  else [c.toLower]

/-- `str.split()`: the maximal runs of characters that are not white space. -/
def splitWords : List Char → List Char → List (List Char)
  | [], [] => []
  | word, [] => [word]
  | word, c :: cs =>
    if isSpace c then
      if word.isEmpty then splitWords [] cs else word :: splitWords [] cs
    else splitWords (word ++ [c]) cs

def acceptedShortcuts : List String := ["@daily", "@hourly", "@weekly", "@monthly", "@yearly"]

def rejectedPrefixes : List String := ["@reboot", "@every"]

def fiveFieldHint : String :=
  "use a 5-field POSIX expression (minute hour dom month dow), " ++
    "e.g. '0 8 * * *', or one of: @daily @hourly @weekly @monthly @yearly"

/-- `validate_cron_expr`: the hint on a rejected expression. -/
def validateCronExpr (libs : Libs) (cronExpr : String) : Except String Unit :=
  let expr := strip cronExpr.toList
  let lower := expr.flatMap lowerChar
  match rejectedPrefixes.find? fun p => p.toList.isPrefixOf lower with
  | some p => .error ("'" ++ p ++ "' is not supported; " ++ fiveFieldHint)
  | none =>
    if acceptedShortcuts.any fun s => s.toList == lower then .ok ()
    else if (splitWords [] expr).length == 6 then
      .error ("6-field cron (with seconds field) is not supported; " ++ fiveFieldHint)
    else if !libs.isValid (String.ofList expr) then
      .error ("invalid cron expression '" ++ String.ofList expr ++ "'; " ++ fiveFieldHint)
    else .ok ()

/-- `_is_valid_iana`. -/
def isValidIana (libs : Libs) (value : Option String) : Bool :=
  match value with
  | none => false
  | some v => !(strip v.toList).isEmpty && libs.zoneInfo v

/-- `resolve_timezone`: the first of the call, header and environment values that is a timezone. -/
def resolveTimezone (libs : Libs) (callValue headerValue envValue : Option String) : String :=
  if isValidIana libs callValue then callValue.getD "UTC"
  else if isValidIana libs headerValue then headerValue.getD "UTC"
  else if isValidIana libs envValue then envValue.getD "UTC"
  else "UTC"

/-- What the domain and the reconciler read of an `ActionHandler`. -/
structure ActionHandler where
  requiresOperator : Bool
  idempotent : Bool
  deriving DecidableEq, Repr

/-- `ACTION_REGISTRY`. -/
def actionRegistry (action : String) : Option ActionHandler :=
  if action = "echo" then some ⟨false, true⟩
  else if action = "http_call" then some ⟨true, false⟩
  else if action = "calendar_digest_ics" then some ⟨true, true⟩
  else if action = "slack_post" then some ⟨false, false⟩
  else if action = "github_digest" then some ⟨false, false⟩
  else if action = "email_send" then some ⟨false, false⟩
  else if action = "llm_summarize" then some ⟨false, true⟩
  else if action = "llm_polish" then some ⟨false, true⟩
  else none

end TaskScheduler
