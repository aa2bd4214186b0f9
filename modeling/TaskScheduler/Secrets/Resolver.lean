import TaskScheduler.Actions.Encoding
import TaskScheduler.Actions.Params

/-! The secret references of `app/secrets/resolver.py`: where the pattern of a reference matches in
a text, what `resolve` puts in its place at any depth of a value, and that nothing of the
environment outside the whitelist has a say in it. -/

namespace TaskScheduler.Secrets

/-! ### References in a text -/

/-- A text as `re.sub` goes through it: a character that begins no match, or the group of a
match. -/
inductive Token
  | char (c : Char)
  | var (name : List Char)
  deriving DecidableEq, Repr

/-- `_VAR_PATTERN`, matched at the beginning of a text. -/
def matchVar : List Char → Option (List Char)
  | '$' :: '{' :: cs =>
    let name := cs.takeWhile (· != '}')
    if name.isEmpty || name.length == cs.length then none else some name
  | _ => none

/-- The leftmost matches of a text that do not overlap, and the characters between them; `skip`
characters are those of a match. -/
def tokens : Nat → List Char → List Token
  | _, [] => []
  | skip + 1, _ :: cs => tokens skip cs
  | 0, c :: cs =>
    match matchVar (c :: cs) with
    | some name => .var name :: tokens (name.length + 2) cs
    | none => .char c :: tokens 0 cs

/-! ### Resolution -/

inductive SecretResolutionError
  | notWhitelisted (name : String)
  | notSet (name : String)
  deriving DecidableEq, Repr

namespace SecretResolutionError

/-- `str` of the exception. -/
def text (lib : Printable) : SecretResolutionError → PyStr
  | notWhitelisted name =>
    PyStr.ofString ("Template variable '$\x7b" ++ name ++ "\x7d' is not in the allowed whitelist. " ++
      "Add it to ALLOWED_TEMPLATE_VARS or use a whitelisted variable.")
  | notSet name =>
    PyStr.ofString ("Template variable '$\x7b" ++ name ++
      "\x7d' is whitelisted but the environment variable ") ++
      (PyStr.ofString name).repr lib ++ PyStr.ofString " is not set."

def retryable (_ : SecretResolutionError) : Bool := false

end SecretResolutionError

def defaultWhitelist : List String :=
  ["ANTHROPIC_API_KEY", "OPENAI_API_KEY", "GOOGLE_API_KEY", "SLACK_WEBHOOK_URL", "GITHUB_TOKEN",
    "GCAL_ICS_URL"]

/-- `build_effective_whitelist`, of the environment. -/
def buildEffectiveWhitelist (env : String → Option String) : List String :=
  let extraRaw := (env "ALLOWED_TEMPLATE_VARS").getD ""
  let extras := (extraRaw.toList.splitOn ',').map strip
  defaultWhitelist ++ (extras.filter fun v => !v.isEmpty).map String.ofList

section Resolve

variable (env : String → Option String) (whitelist : List String)

/-- `_replace`. -/
def replace (name : List Char) : Except SecretResolutionError (List Char) :=
  if name.isEmpty then .ok ['$', '{', '}']
  else if String.ofList name ∉ whitelist then .error (.notWhitelisted (String.ofList name))
  else
    match env (String.ofList name) with
    | none => .error (.notSet (String.ofList name))
    | some value => .ok value.toList

/-- What `re.sub` puts in the place of the tokens. -/
def substitute : List Token → Except SecretResolutionError (List Char)
  | [] => .ok []
  | .char c :: ts => do
    let rest ← substitute ts
    return c :: rest
  | .var name :: ts => do
    let value ← replace env whitelist name
    let rest ← substitute ts
    return value ++ rest

/-- `_resolve_string`. -/
def resolveString (s : String) : Except SecretResolutionError String :=
  (substitute env whitelist (tokens 0 s.toList)).map String.ofList

mutual

/-- `resolve`. -/
def resolve : Json → Except SecretResolutionError Json
  | .str s => (resolveString env whitelist s).map .str
  | .obj fields => (resolveFields fields).map .obj
  | .arr items => (resolveItems items).map .arr
  | .null => .ok .null
  | .bool b => .ok (.bool b)
  | .int n => .ok (.int n)
  | .float literal => .ok (.float literal)

/-- `resolve` of the items of a list. -/
def resolveItems : List Json → Except SecretResolutionError (List Json)
  | [] => .ok []
  | v :: vs => do
    let v ← resolve v
    let vs ← resolveItems vs
    return v :: vs

/-- `resolve` of the values of a dict. -/
def resolveFields : List (String × Json) → Except SecretResolutionError (List (String × Json))
  | [] => .ok []
  | (k, v) :: kvs => do
    let v ← resolve v
    let kvs ← resolveFields kvs
    return (k, v) :: kvs

end

end Resolve

/-! ### What a scan is -/

/-- A token at the beginning of a text: a variable that is not empty and has no closing brace. -/
def Begins (cs name rest : List Char) : Prop :=
  name ≠ [] ∧ '}' ∉ name ∧ cs = '$' :: '{' :: (name ++ '}' :: rest)

/-- The tokens of a text from left to right: where one begins it is taken, and elsewhere the
character is. -/
inductive Scan : List Char → List Token → Prop
  | nil : Scan [] []
  | var {cs name rest : List Char} {ts : List Token} : Begins cs name rest → Scan rest ts →
    Scan cs (.var name :: ts)
  | char {c : Char} {cs : List Char} {ts : List Token} : (∀ name rest, ¬Begins (c :: cs) name rest) →
    Scan cs ts → Scan (c :: cs) (.char c :: ts)

/-- A text up to its first closing brace. -/
theorem takeWhile_brace (cs : List Char) :
    (cs.takeWhile (· != '}')).length = cs.length ∨
      ∃ rest, cs = cs.takeWhile (· != '}') ++ '}' :: rest := by
  induction cs with
  | nil => exact .inl rfl
  | cons c cs ih =>
    by_cases hc : c = '}'
    · subst hc
      exact .inr ⟨cs, by simp⟩
    · rw [List.takeWhile_cons_of_pos (by simpa using hc)]
      rcases ih with h | ⟨rest, h⟩
      · exact .inl (congrArg (· + 1) h)
      · exact .inr ⟨rest, congrArg (c :: ·) h⟩

theorem not_mem_takeWhile_brace (cs : List Char) : '}' ∉ cs.takeWhile (· != '}') := by
  intro h
  have := List.all_eq_true.mp (List.all_takeWhile (p := (· != '}')) (l := cs)) _ h
  exact absurd this (by decide)

theorem matchVar_eq_some {cs name : List Char} :
    matchVar cs = some name ↔ ∃ rest, Begins cs name rest := by
  constructor
  · intro h
    unfold matchVar at h
    split at h
    · next cs =>
      simp only [Option.ite_none_left_eq_some, Bool.or_eq_true, List.isEmpty_iff, beq_iff_eq,
        not_or, Option.some.injEq] at h
      obtain ⟨⟨hne, hlen⟩, rfl⟩ := h
      obtain ⟨rest, hrest⟩ := (takeWhile_brace cs).resolve_left hlen
      exact ⟨rest, hne, not_mem_takeWhile_brace cs, congrArg ('$' :: '{' :: ·) hrest⟩
    · cases h
  · rintro ⟨rest, hne, hfree, rfl⟩
    have hname : (name ++ '}' :: rest).takeWhile (· != '}') = name := by
      rw [List.takeWhile_append_of_pos]
      · simp
      · intro c hc
        rw [bne_iff_ne]
        rintro rfl
        exact hfree hc
    have hlen : (name.length == (name ++ '}' :: rest).length) = false := by simp
    have hempty : name.isEmpty = false := by simpa using hne
    simp only [matchVar, hname, hlen, hempty, Bool.or_self, Bool.false_eq_true, if_false]

/-- What a match passes over. -/
theorem tokens_skip (n : Nat) (cs : List Char) : tokens n cs = tokens 0 (cs.drop n) := by
  induction n generalizing cs with
  | zero => rfl
  | succ n ih =>
    cases cs with
    | nil => rfl
    | cons c cs => exact ih cs

theorem tokens_var {cs name rest : List Char} (h : Begins cs name rest) :
    tokens 0 cs = .var name :: tokens 0 rest := by
  have hmatch := matchVar_eq_some.mpr ⟨rest, h⟩
  obtain ⟨-, -, rfl⟩ := h
  have hdrop : (name ++ '}' :: rest).drop (name.length + 1) = rest := by
    rw [List.drop_append]
    simp
  simp only [tokens, hmatch]
  rw [tokens_skip, hdrop]

theorem tokens_char {c : Char} {cs : List Char} (h : ∀ name rest, ¬Begins (c :: cs) name rest) :
    tokens 0 (c :: cs) = .char c :: tokens 0 cs := by
  have hmatch : matchVar (c :: cs) = none := by
    rw [Option.eq_none_iff_forall_ne_some]
    intro name hname
    obtain ⟨rest, hrest⟩ := matchVar_eq_some.mp hname
    exact h name rest hrest
  simp only [tokens, hmatch]

/-- A text has one scan, and its tokens are those of the code. -/
theorem scan_iff {cs : List Char} {ts : List Token} : Scan cs ts ↔ ts = tokens 0 cs := by
  constructor
  · intro h
    induction h with
    | nil => rfl
    | var hbegins _ ih => rw [tokens_var hbegins, ih]
    | char hno _ ih => rw [tokens_char hno, ih]
  · rintro rfl
    -- by the length of the text, since a variable is taken at once
    induction hn : cs.length using Nat.strongRecOn generalizing cs with
    | ind n ih =>
      cases cs with
      | nil => exact .nil
      | cons c cs =>
        by_cases hbegins : ∃ name rest, Begins (c :: cs) name rest
        · obtain ⟨name, rest, hbegins⟩ := hbegins
          rw [tokens_var hbegins]
          refine .var hbegins (ih rest.length ?_ rfl)
          rw [← hn, hbegins.2.2]
          simp only [List.length_cons, List.length_append]
          omega
        · have hno : ∀ name rest, ¬Begins (c :: cs) name rest :=
            fun name rest h => hbegins ⟨name, rest, h⟩
          rw [tokens_char hno]
          refine .char hno (ih cs.length ?_ rfl)
          rw [← hn]
          exact Nat.lt_succ_self _

/-! ### What is resolved -/

/-- The variable may not be substituted, or is not set. -/
def Bad (env : String → Option String) (whitelist : List String) (name : String) : Prop :=
  name ∉ whitelist ∨ env name = none

/-- A token of the text is bad. -/
def BadText (env : String → Option String) (whitelist : List String) (s : String) : Prop :=
  ∃ ts name, Scan s.toList ts ∧ .var name ∈ ts ∧ Bad env whitelist (String.ofList name)

/-- A token with the value of its variable. -/
def Token.value (env : String → Option String) : Token → List Char
  | .char c => [c]
  | .var name => ((env (String.ofList name)).getD "").toList

/-- The text with the values of its variables. -/
def Substituted (env : String → Option String) (s s' : String) : Prop :=
  ∃ ts, Scan s.toList ts ∧ s'.toList = ts.flatMap (Token.value env)

mutual

/-- The string values at any depth. -/
def strings : Json → List String
  | .str s => [s]
  | .arr items => stringsOfItems items
  | .obj fields => stringsOfFields fields
  | _ => []

def stringsOfItems : List Json → List String
  | [] => []
  | v :: vs => strings v ++ stringsOfItems vs

def stringsOfFields : List (String × Json) → List String
  | [] => []
  | (_, v) :: kvs => strings v ++ stringsOfFields kvs

end

section Resolved

variable (env : String → Option String)

mutual

/-- The value with the same shape and keys, and its texts substituted. -/
def Resolved : Json → Json → Prop
  | .str s, .str s' => Substituted env s s'
  | .arr items, .arr items' => ResolvedItems items items'
  | .obj fields, .obj fields' => ResolvedFields fields fields'
  | .null, .null => True
  | .bool b, .bool b' => b = b'
  | .int n, .int n' => n = n'
  | .float literal, .float literal' => literal = literal'
  | _, _ => False

def ResolvedItems : List Json → List Json → Prop
  | [], [] => True
  | v :: vs, v' :: vs' => Resolved v v' ∧ ResolvedItems vs vs'
  | _, _ => False

def ResolvedFields : List (String × Json) → List (String × Json) → Prop
  | [], [] => True
  | (k, v) :: kvs, (k', v') :: kvs' => k = k' ∧ Resolved v v' ∧ ResolvedFields kvs kvs'
  | _, _ => False

end

end Resolved

/-- What comes of a part of a value: it is resolved and none of its texts is bad, or one is. -/
def Outcome {α : Type} (env : String → Option String) (whitelist texts : List String)
    (res : Except SecretResolutionError α) (P : α → Prop) : Prop :=
  (∃ r, res = .ok r ∧ P r ∧ ∀ s ∈ texts, ¬BadText env whitelist s) ∨
    ((∃ e, res = .error e) ∧ ∃ s ∈ texts, BadText env whitelist s)

section Outcome

variable {α β γ : Type} {env : String → Option String} {whitelist texts texts' : List String}

theorem Outcome.map {res : Except SecretResolutionError α} {P : α → Prop} {Q : β → Prop}
    {f : α → β} (h : Outcome env whitelist texts res P) (hf : ∀ r, P r → Q (f r)) :
    Outcome env whitelist texts (res.map f) Q := by
  rcases h with ⟨r, rfl, hr, hgood⟩ | ⟨⟨e, rfl⟩, hbad⟩
  · exact .inl ⟨f r, rfl, hf r hr, hgood⟩
  · exact .inr ⟨⟨e, rfl⟩, hbad⟩

/-- Two parts, the second one after the first. -/
theorem Outcome.both {res : Except SecretResolutionError α} {res' : Except SecretResolutionError β}
    {P : α → Prop} {P' : β → Prop} {Q : γ → Prop} {f : α → β → γ}
    (h : Outcome env whitelist texts res P) (h' : Outcome env whitelist texts' res' P')
    (hf : ∀ r r', P r → P' r' → Q (f r r')) :
    Outcome env whitelist (texts ++ texts') (res.bind fun r => res'.map (f r)) Q := by
  rcases h with ⟨r, rfl, hr, hgood⟩ | ⟨⟨e, rfl⟩, s, hs, hbad⟩
  · rcases h' with ⟨r', rfl, hr', hgood'⟩ | ⟨⟨e, rfl⟩, s, hs, hbad⟩
    · refine .inl ⟨f r r', rfl, hf r r' hr hr', fun s hs => ?_⟩
      rcases List.mem_append.mp hs with hs | hs
      · exact hgood s hs
      · exact hgood' s hs
    · exact .inr ⟨⟨e, rfl⟩, s, List.mem_append_right _ hs, hbad⟩
  · exact .inr ⟨⟨e, rfl⟩, s, List.mem_append_left _ hs, hbad⟩

end Outcome

section Specification

variable (env : String → Option String) (whitelist : List String)

/-- One variable. -/
theorem replace_cases {name : List Char} (hne : name ≠ []) :
    (replace env whitelist name = .ok (Token.value env (.var name)) ∧
      ¬Bad env whitelist (String.ofList name)) ∨
    ((∃ e, replace env whitelist name = .error e) ∧ Bad env whitelist (String.ofList name)) := by
  have hempty : ¬name.isEmpty = true := by simpa using hne
  unfold replace Bad Token.value
  rw [if_neg hempty]
  by_cases hmem : String.ofList name ∈ whitelist
  · rw [if_neg (not_not_intro hmem)]
    cases henv : env (String.ofList name) with
    | none => exact .inr ⟨⟨_, rfl⟩, .inr rfl⟩
    | some value =>
      refine .inl ⟨by simp [henv], ?_⟩
      rintro (h | h)
      · exact h hmem
      · cases h
  · rw [if_pos hmem]
    exact .inr ⟨⟨_, rfl⟩, .inl hmem⟩

/-- The tokens in their order: the first bad one is the error. -/
theorem substitute_cases {ts : List Token} (hne : ∀ name, .var name ∈ ts → name ≠ []) :
    (substitute env whitelist ts = .ok (ts.flatMap (Token.value env)) ∧
      ∀ name, .var name ∈ ts → ¬Bad env whitelist (String.ofList name)) ∨
    ((∃ e, substitute env whitelist ts = .error e) ∧
      ∃ name, .var name ∈ ts ∧ Bad env whitelist (String.ofList name)) := by
  induction ts with
  | nil => exact .inl ⟨rfl, by simp⟩
  | cons t ts ih =>
    have hrest := ih fun name h => hne name (List.mem_cons_of_mem _ h)
    cases t with
    | char c =>
      unfold substitute
      rcases hrest with ⟨hok, hgood⟩ | ⟨⟨e, he⟩, name, hname, hbad⟩
      · rw [hok]
        exact .inl ⟨rfl, by simpa using hgood⟩
      · rw [he]
        exact .inr ⟨⟨e, rfl⟩, name, List.mem_cons_of_mem _ hname, hbad⟩
    | var name =>
      unfold substitute
      rcases replace_cases env whitelist (hne name List.mem_cons_self) with
        ⟨hvalue, hgood⟩ | ⟨⟨e, he⟩, hbad⟩
      · rw [hvalue]
        rcases hrest with ⟨hok, hgoods⟩ | ⟨⟨e, he⟩, name', hname', hbad⟩
        · rw [hok]
          refine .inl ⟨rfl, fun name' hname' => ?_⟩
          rcases List.mem_cons.mp hname' with h | h
          · cases h
            exact hgood
          · exact hgoods name' h
        · rw [he]
          exact .inr ⟨⟨e, rfl⟩, name', List.mem_cons_of_mem _ hname', hbad⟩
      · rw [he]
        exact .inr ⟨⟨e, rfl⟩, name, List.mem_cons_self, hbad⟩

theorem Scan.ne_nil {cs : List Char} {ts : List Token} (h : Scan cs ts) {name : List Char}
    (hmem : .var name ∈ ts) : name ≠ [] := by
  induction h with
  | nil => cases hmem
  | var hbegins _ ih =>
    rcases List.mem_cons.mp hmem with h | h
    · cases h
      exact hbegins.1
    · exact ih h
  | char _ _ ih => exact ih ((List.mem_cons.mp hmem).resolve_left (by simp))

theorem resolveString_outcome (s : String) :
    Outcome env whitelist [s] (resolveString env whitelist s) (Substituted env s) := by
  have hscan : Scan s.toList (tokens 0 s.toList) := scan_iff.mpr rfl
  unfold resolveString
  rcases substitute_cases env whitelist fun name h => hscan.ne_nil h with
    ⟨hok, hgood⟩ | ⟨⟨e, he⟩, name, hname, hbad⟩
  · rw [hok]
    refine .inl ⟨_, rfl, ⟨_, hscan, String.toList_ofList⟩, fun s' hs' => ?_⟩
    rw [List.mem_singleton.mp hs']
    rintro ⟨ts, name, hts, hname, hbad⟩
    rw [scan_iff.mp hts] at hname
    exact hgood name hname hbad
  · rw [he]
    exact .inr ⟨⟨e, rfl⟩, s, List.mem_singleton_self s, _, name, hscan, hname, hbad⟩

mutual

theorem resolve_outcome (value : Json) :
    Outcome env whitelist (strings value) (resolve env whitelist value) (Resolved env value) := by
  cases value with
  | str s =>
    rw [resolve, strings]
    exact (resolveString_outcome env whitelist s).map fun s' h => by rwa [Resolved]
  | arr items =>
    rw [resolve, strings]
    exact (resolveItems_outcome items).map fun items' h => by rwa [Resolved]
  | obj fields =>
    rw [resolve, strings]
    exact (resolveFields_outcome fields).map fun fields' h => by rwa [Resolved]
  | null => exact .inl ⟨.null, by rw [resolve], by rw [Resolved]; trivial, by simp [strings]⟩
  | bool b => exact .inl ⟨.bool b, by rw [resolve], by rw [Resolved], by simp [strings]⟩
  | int n => exact .inl ⟨.int n, by rw [resolve], by rw [Resolved], by simp [strings]⟩
  | float x => exact .inl ⟨.float x, by rw [resolve], by rw [Resolved], by simp [strings]⟩

theorem resolveItems_outcome (items : List Json) :
    Outcome env whitelist (stringsOfItems items) (resolveItems env whitelist items)
      (ResolvedItems env items) := by
  cases items with
  | nil => exact .inl ⟨[], by rw [resolveItems], by rw [ResolvedItems]; trivial, by
      simp [stringsOfItems]⟩
  | cons v vs =>
    rw [resolveItems, stringsOfItems]
    exact (resolve_outcome v).both (resolveItems_outcome vs) fun v' vs' h h' => by
      rw [ResolvedItems]
      exact ⟨h, h'⟩

theorem resolveFields_outcome (fields : List (String × Json)) :
    Outcome env whitelist (stringsOfFields fields) (resolveFields env whitelist fields)
      (ResolvedFields env fields) := by
  cases fields with
  | nil => exact .inl ⟨[], by rw [resolveFields], by rw [ResolvedFields]; trivial, by
      simp [stringsOfFields]⟩
  | cons kv kvs =>
    obtain ⟨k, v⟩ := kv
    rw [resolveFields, stringsOfFields]
    exact (resolve_outcome v).both (resolveFields_outcome kvs) fun v' kvs' h h' => by
      rw [ResolvedFields]
      exact ⟨rfl, h, h'⟩

end

end Specification

/-! ### Two environments -/

section Agree

variable {env env' : String → Option String} {whitelist : List String}

theorem replace_congr (h : ∀ name ∈ whitelist, env name = env' name) (name : List Char) :
    replace env whitelist name = replace env' whitelist name := by
  unfold replace
  by_cases hmem : String.ofList name ∈ whitelist
  · rw [h _ hmem]
  · rw [if_pos hmem, if_pos hmem]

theorem substitute_congr (h : ∀ name ∈ whitelist, env name = env' name) (ts : List Token) :
    substitute env whitelist ts = substitute env' whitelist ts := by
  induction ts with
  | nil => rfl
  | cons t ts ih =>
    cases t with
    | char c => simp only [substitute, ih]
    | var name => simp only [substitute, ih, replace_congr h name]

mutual

theorem resolve_congr (h : ∀ name ∈ whitelist, env name = env' name) (value : Json) :
    resolve env whitelist value = resolve env' whitelist value := by
  cases value with
  | str s => rw [resolve, resolve, resolveString, resolveString, substitute_congr h]
  | arr items => rw [resolve, resolve, resolveItems_congr h items]
  | obj fields => rw [resolve, resolve, resolveFields_congr h fields]
  | _ => rw [resolve, resolve]

theorem resolveItems_congr (h : ∀ name ∈ whitelist, env name = env' name) (items : List Json) :
    resolveItems env whitelist items = resolveItems env' whitelist items := by
  cases items with
  | nil => rw [resolveItems, resolveItems]
  | cons v vs => rw [resolveItems, resolveItems, resolve_congr h v, resolveItems_congr h vs]

theorem resolveFields_congr (h : ∀ name ∈ whitelist, env name = env' name)
    (fields : List (String × Json)) :
    resolveFields env whitelist fields = resolveFields env' whitelist fields := by
  cases fields with
  | nil => rw [resolveFields, resolveFields]
  | cons kv kvs =>
    obtain ⟨k, v⟩ := kv
    rw [resolveFields, resolveFields, resolve_congr h v, resolveFields_congr h kvs]

end

end Agree

/-- A value is rejected just when a text in it has a reference that is not whitelisted or not set;
otherwise each reference of its texts is replaced by the value of its variable as that is, and
nothing else changes.  The environment counts on the whitelist only. -/
theorem resolution_exact (env env' : String → Option String) (whitelist : List String)
    (value : Json) :
    ((∃ e, resolve env whitelist value = .error e) ↔
      ∃ s ∈ strings value, BadText env whitelist s) ∧
    (∀ resolved, resolve env whitelist value = .ok resolved → Resolved env value resolved) ∧
    ((∀ name ∈ whitelist, env name = env' name) →
      resolve env whitelist value = resolve env' whitelist value) := by
  refine ⟨⟨fun ⟨e, he⟩ => ?_, fun ⟨s, hs, hbad⟩ => ?_⟩, fun resolved h => ?_, fun h =>
    resolve_congr h value⟩
  · rcases resolve_outcome env whitelist value with ⟨r, hr, -⟩ | ⟨-, hbad⟩
    · rw [he] at hr
      cases hr
    · exact hbad
  · rcases resolve_outcome env whitelist value with ⟨r, -, -, hgood⟩ | ⟨herror, -⟩
    · exact absurd hbad (hgood s hs)
    · exact herror
  · rcases resolve_outcome env whitelist value with ⟨r, hr, hresolved, -⟩ | ⟨⟨e, he⟩, -⟩
    · rw [h] at hr
      cases hr
      exact hresolved
    · rw [h] at he
      cases he

/-- A token whose value looks like one, in a header, beside a brace that closes nothing. -/
theorem header_resolved :
    let env : String → Option String := fun name =>
      if name = "GITHUB_TOKEN" then some "$\x7bOPENAI_API_KEY\x7d" else none
    let env' : String → Option String := fun name =>
      if name = "HOME" then some "/root" else env name
    let header : Json := .obj [("Authorization", .arr [.str "token $\x7bGITHUB_TOKEN\x7d\x7d"])]
    resolve env (buildEffectiveWhitelist env) header =
        .ok (.obj [("Authorization", .arr [.str "token $\x7bOPENAI_API_KEY\x7d\x7d"])]) ∧
      Resolved env header
        (.obj [("Authorization", .arr [.str "token $\x7bOPENAI_API_KEY\x7d\x7d"])]) ∧
      resolve env (buildEffectiveWhitelist env) header =
        resolve env' (buildEffectiveWhitelist env) header := by
  intro env env' header
  have hexact := resolution_exact env env' (buildEffectiveWhitelist env) header
  have hresolved : resolve env (buildEffectiveWhitelist env) header =
      .ok (.obj [("Authorization", .arr [.str "token $\x7bOPENAI_API_KEY\x7d\x7d"])]) := by
    rfl
  refine ⟨hresolved, hexact.2.1 _ hresolved, hexact.2.2 fun name hname => ?_⟩
  have hhome : "HOME" ∉ buildEffectiveWhitelist env := by decide +kernel
  have hne : name ≠ "HOME" := by
    rintro rfl
    exact hhome hname
  exact (if_neg hne).symm

end TaskScheduler.Secrets
