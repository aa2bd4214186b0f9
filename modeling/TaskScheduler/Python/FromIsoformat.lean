import TaskScheduler.Python.Values

/-! `datetime.fromisoformat`, as the interpreter implements it: where the date ends is told from its
first characters, and the offset begins at the first sign or `Z` after it. -/

namespace TaskScheduler

open Lib

/-! ### Digits -/

/-- `parse_digits`: so many digits, and the rest. -/
def readDigits : Nat → Nat → PyStr → Option (Nat × PyStr)
  | 0, n, cs => some (n, cs)
  | _ + 1, _, [] => none
  | k + 1, n, c :: cs => if digit c then readDigits k (n * 10 + (c.val - 0x30)) cs else none

/-! ### The date -/

/-- `_sanitize_isoformat_str`: a surrogate may be the separator. -/
def sanitize (s : PyStr) : PyStr :=
  match [7, 8, 10].find? fun i => s[i]?.any fun c => surrogate c.val with
  | some i => s.set i (codePoint 'T')
  | none => s

/-- `_find_isoformat_datetime_separator`. -/
def findSeparator (s : PyStr) : Option Nat :=
  if s.length = 7 then some 7
  else if s[4]? = some (codePoint '-') then
    if s[5]? = some (codePoint 'W') then
      if s[8]? = some (codePoint '-') then
        if s.length = 9 then none
        else if s[10]?.any digit then some 8
        else some 10
      else some 8
    else some 10
  else if s[4]? = some (codePoint 'W') then
    let pos := 7 + ((s.drop 7).takeWhile digit).length
    if pos < 9 then some pos else if pos % 2 = 0 then some 7 else some 8
  else some 8

/-- `iso_week1_monday`, as an ordinal. -/
def isoWeek1Monday (year : Nat) : Nat :=
  let firstDay := Ymd.ordinal ⟨year, 1, 1⟩
  let firstWeekday := (firstDay + 6) % 7
  firstDay + (if 3 < firstWeekday then 7 else 0) - firstWeekday

/-- `iso_to_ymd`: a year that begins on a Thursday has 53 weeks, or on a Wednesday in a leap year. -/
def isoToYmd (year week day : Nat) : Option Ymd :=
  let firstWeekday := (Ymd.ordinal ⟨year, 1, 1⟩ + 6) % 7
  let weeks := if firstWeekday = 3 ∨ firstWeekday = 2 ∧ leapYear year = true then 53 else 52
  if 1 ≤ year ∧ 1 ≤ week ∧ week ≤ weeks ∧ 1 ≤ day ∧ day ≤ 7 then
    some (Ymd.ofOrdinal (isoWeek1Monday year + (week - 1) * 7 + (day - 1)))
  else none

/-- A dash, if the date has them. -/
def skipDash (dashes : Bool) (cs : PyStr) : Option PyStr :=
  if !dashes then some cs
  else if cs.head? = some (codePoint '-') then some (cs.drop 1)
  else none

/-- `parse_isoformat_date`; the date runs up to the separator. -/
def parseIsoformatDate (separator : Nat) (s : PyStr) : Option Ymd := do
  let (year, cs) ← readDigits 4 0 s
  let dashes := cs.head? == some (codePoint '-')
  let cs := if dashes then cs.drop 1 else cs
  if cs.head? = some (codePoint 'W') then
    let (week, cs) ← readDigits 2 0 (cs.drop 1)
    if s.length - cs.length < separator then
      let cs ← skipDash dashes cs
      let (day, _) ← readDigits 1 0 cs
      isoToYmd year week day
    else isoToYmd year week 1
  else
    let (month, cs) ← readDigits 2 0 cs
    let cs ← skipDash dashes cs
    let (day, _) ← readDigits 2 0 cs
    return ⟨year, month, day⟩

/-! ### The time -/

/-- The fields of a time or an offset: as many of the hours, minutes and seconds as there are, the
microseconds, and whether something follows. -/
structure Clock where
  fields : List Nat
  micros : Nat
  more : Bool

def Clock.seconds (clock : Clock) : Nat :=
  (clock.fields.getD 0 0 * 60 + clock.fields.getD 1 0) * 60 + clock.fields.getD 2 0

/-- The fraction of a second: six digits count, and further ones are skipped. -/
def readMicros (follows : Bool) (cs : PyStr) : Option (Nat × Bool) := do
  let k := min 6 cs.length
  let (n, cs) ← readDigits k 0 cs
  return (n * 10 ^ (6 - k), ((cs.dropWhile digit).head?.map fun c => c.val != 0).getD follows)

/-- What comes after a field, from a character on: nothing if it is the last one, which is looked at
and not read, the next field, with or without a colon, or the fraction. -/
def afterField (follows : Bool) (next : PyStr → Option Clock) (colons : Bool) (c : Fin 0x110000)
    (cs : PyStr) : Option Clock :=
  if cs = [] ∧ c.val < 0x80 then some ⟨[], 0, c.val != 0⟩
  else if colons && c == codePoint ':' then next cs
  else if c = codePoint '.' ∨ c = codePoint ',' then
    (readMicros follows cs).map fun r => ⟨[], r.1, r.2⟩
  else if !colons then next (c :: cs)
  else none

/-- `parse_hh_mm_ss_ff`, with `left` fields to come: the first separator tells whether there are
colons.  `follows` says whether the text goes on after these characters. -/
def readClock (follows : Bool) : Nat → Option Bool → PyStr → Option Clock
  | 0, _, cs => (readMicros follows cs).map fun r => ⟨[], r.1, r.2⟩
  | left + 1, colons, cs => do
    let (n, cs) ← readDigits 2 0 cs
    match cs with
    | [] => return ⟨[n], 0, follows⟩
    | c :: cs =>
      let colons := colons.getD (c == codePoint ':')
      let clock ← afterField follows (fun cs => readClock follows left (some colons) cs) colons c cs
      return { clock with fields := n :: clock.fields }

/-- What an offset begins with. -/
def offsetHead (c : Fin 0x110000) : Bool :=
  c == codePoint '+' || c == codePoint '-' || c == codePoint 'Z'

/-- `tzinfo_from_isoformat_results`: an offset below a second is that of UTC. -/
def offsetMicros (negative : Bool) (clock : Clock) :
    Option { offset : Int // |offset| < dayMicros } :=
  let micros := if clock.seconds = 0 then 0 else clock.seconds * 1000000 + clock.micros
  let offset : Int := if negative then -micros else micros
  if h : |offset| < dayMicros then some ⟨offset, h⟩ else none

/-- `parse_isoformat_time`: the time of day, and the offset if there is one. -/
def parseIsoformatTime (cs : PyStr) :
    Option (Clock × Option { offset : Int // |offset| < dayMicros }) :=
  match cs.dropWhile fun c => !offsetHead c with
  | [] => do
    let clock ← readClock false 3 none cs
    if clock.more then none else return (clock, none)
  | c :: rest => do
    let clock ← readClock true 3 none (cs.takeWhile fun c => !offsetHead c)
    if c = codePoint 'Z' then
      if rest.head?.any fun c => c.val != 0 then none else return (clock, some utcOffset)
    else
      let offset ← readClock false 3 none rest
      if offset.more then none
      else return (clock, some (← offsetMicros (c == codePoint '-') offset))

/-! ### The datetime -/

/-- `check_date_args`. -/
def checkDateArgs (d : Ymd) : Bool :=
  1 ≤ d.year && d.year ≤ 9999 && 1 ≤ d.month && d.month ≤ 12 && 1 ≤ d.day &&
    d.day ≤ monthDays (leapYear d.year) d.month

/-- `check_time_args`. -/
def checkTimeArgs (clock : Clock) : Bool :=
  clock.fields.getD 0 0 < 24 && clock.fields.getD 1 0 < 60 && clock.fields.getD 2 0 < 60

/-- The datetime with these fields, unless there is none. -/
def Wall.ofFields (d : Ymd) (clock : Clock) : Option Wall :=
  if checkDateArgs d && checkTimeArgs clock then
    Wall.ofMicros ((d.ordinal - epochOrdinal) * dayMicros +
      (clock.seconds * 1000000 + clock.micros))
  else none

/-- `datetime.fromisoformat`. -/
def fromisoformat (s : PyStr) : Option Datetime :=
  let s := sanitize s
  if s.length < 7 ∨ s.any (fun c => surrogate c.val) then none
  else do
    let separator ← findSeparator s
    let d ← parseIsoformatDate separator s
    let (clock, utcoffset) ←
      if separator < s.length then parseIsoformatTime (s.drop (separator + 1))
      else some (⟨[], 0, false⟩, none)
    let wall ← Wall.ofFields d clock
    return ⟨wall, utcoffset⟩

/-! ### What `isoformat` writes -/

def utcoffsetText : Option { offset : Int // |offset| < dayMicros } → List Char
  | none => []
  | some offset => offsetText offset.val

/-- `datetime.isoformat`. -/
def Datetime.isoformat (dt : Datetime) : List Char :=
  dateText dt.wall.date ++ 'T' :: (timeText dt.wall.sinceMidnight ++ utcoffsetText dt.utcoffset)

theorem digit_digitChar : ∀ d < 10, digit (codePoint d.digitChar) = true ∧
    (codePoint d.digitChar).val - 0x30 = d := by
  decide +kernel

theorem readDigits_add (j k n : Nat) (cs : PyStr) : readDigits (j + k) n cs =
    (readDigits j n cs).bind fun r => readDigits k r.1 r.2 := by
  induction j generalizing n cs with
  | zero => rw [Nat.zero_add]; rfl
  | succ j ih =>
    rw [Nat.succ_add_eq_add_succ]
    cases cs with
    | nil => rfl
    | cons c cs =>
      show (if digit c then readDigits (j + k) _ cs else none) =
        (if digit c then readDigits j _ cs else none).bind _
      split
      · exact ih _ _
      · rfl

/-- A number with so many digits is read back. -/
theorem readDigits_pad {k n : Nat} (hn : n < 10 ^ k) (rest : PyStr) :
    readDigits k 0 ((pad k n).map codePoint ++ rest) = some (n, rest) := by
  induction k generalizing n rest with
  | zero =>
    rw [Nat.pow_zero, Nat.lt_one_iff] at hn
    rw [hn]
    rfl
  | succ k ih =>
    rw [Nat.pow_succ] at hn
    obtain ⟨hdigit, hvalue⟩ := digit_digitChar (n % 10) (Nat.mod_lt n (by decide))
    rw [pad, List.map_append, List.append_assoc, readDigits_add, ih (by omega)]
    show (if digit (codePoint (n % 10).digitChar) then
      some (n / 10 * 10 + ((codePoint (n % 10).digitChar).val - 0x30), rest) else none) = _
    rw [if_pos hdigit, hvalue]
    congr 2
    omega

theorem digit_pad {k n : Nat} {c : Fin 0x110000} (h : c ∈ (pad k n).map codePoint) :
    digit c = true := by
  induction k generalizing n with
  | zero => cases h
  | succ k ih =>
    rw [pad, List.map_append, List.mem_append] at h
    rcases h with h | h
    · exact ih h
    · rw [List.map_singleton, List.mem_singleton] at h
      rw [h]
      exact (digit_digitChar (n % 10) (Nat.mod_lt n (by decide))).1

/-! #### The time of day -/

/-- Seconds, and microseconds where there are some. -/
def secondsText (seconds micros : Nat) : List Char :=
  pad 2 seconds ++ if micros = 0 then [] else '.' :: pad 6 micros

section Clock

variable {follows : Bool} {n left : Nat}

/-- A field with a colon and more after it. -/
theorem readClock_colon (hn : n < 10 ^ 2) {colons : Option Bool} (hcolons : colons.getD true = true)
    {cs : PyStr} (hcs : cs ≠ []) :
    readClock follows (left + 1) colons ((pad 2 n).map codePoint ++ codePoint ':' :: cs) =
      (readClock follows left (some true) cs).map fun r => { r with fields := n :: r.fields } := by
  have hcolon : colons.getD (codePoint ':' == codePoint ':') = true := by simpa using hcolons
  rw [readClock, readDigits_pad hn]
  show (afterField follows (fun cs => readClock follows left
    (some (colons.getD (codePoint ':' == codePoint ':'))) cs)
    (colons.getD (codePoint ':' == codePoint ':')) (codePoint ':') cs).bind _ = _
  rw [hcolon, afterField, if_neg fun h => hcs h.1, if_pos (by decide)]
  cases readClock follows left (some true) cs <;> rfl

/-- The last field. -/
theorem readClock_last (hn : n < 10 ^ 2) (colons : Option Bool) :
    readClock follows (left + 1) colons ((pad 2 n).map codePoint) = some ⟨[n], 0, follows⟩ := by
  have hread := readDigits_pad hn []
  rw [List.append_nil] at hread
  rw [readClock, hread]
  rfl

theorem readMicros_pad {micros : Nat} (hmicros : micros < 10 ^ 6) :
    readMicros follows ((pad 6 micros).map codePoint) = some (micros, follows) := by
  have hread := readDigits_pad hmicros []
  have hlength : ((pad 6 micros).map codePoint).length = 6 := by simp
  rw [List.append_nil] at hread
  rw [readMicros, hlength]
  show (readDigits 6 0 _).bind _ = _
  rw [hread]
  show some (micros * 10 ^ 0, follows) = _
  rw [Nat.pow_zero, Nat.mul_one]

/-- The last field, with its fraction. -/
theorem readClock_seconds {seconds micros : Nat} (hseconds : seconds < 10 ^ 2)
    (hmicros : micros < 10 ^ 6) :
    readClock follows (left + 1) (some true) ((secondsText seconds micros).map codePoint) =
      some ⟨[seconds], micros, follows⟩ := by
  unfold secondsText
  by_cases hzero : micros = 0
  · rw [if_pos hzero, List.append_nil, hzero]
    exact readClock_last hseconds (some true)
  · have hcs : (pad 6 micros).map codePoint ≠ [] := by
      rw [← List.length_pos_iff]
      simp
    rw [if_neg hzero, List.map_append, List.map_cons, readClock, readDigits_pad hseconds]
    show (afterField follows _ true (codePoint '.') ((pad 6 micros).map codePoint)).bind _ = _
    rw [afterField, if_neg fun h => hcs h.1, if_neg (by decide), if_pos (.inl rfl),
      readMicros_pad hmicros]
    rfl

theorem secondsText_ne (seconds micros : Nat) :
    (secondsText seconds micros).map codePoint ≠ [] := by
  rw [← List.length_pos_iff]
  simp [secondsText]

theorem timeText_eq (n : Nat) : timeText n = pad 2 (n / 1000000 / 3600) ++
    ':' :: (pad 2 (n / 1000000 / 60 % 60) ++
      ':' :: secondsText (n / 1000000 % 60) (n % 1000000)) := rfl

/-- A time of day is read back. -/
theorem readClock_timeText {n : Nat} (hn : (n : Int) < dayMicros) :
    readClock follows 3 none ((timeText n).map codePoint) =
      some ⟨[n / 1000000 / 3600, n / 1000000 / 60 % 60, n / 1000000 % 60], n % 1000000,
        follows⟩ := by
  unfold dayMicros hourMicros at hn
  rw [timeText_eq]
  simp only [List.map_append, List.map_cons]
  rw [readClock_colon (by omega) rfl (by simp), readClock_colon (by omega) rfl
    (secondsText_ne _ _), readClock_seconds (by omega) (by omega)]
  rfl

end Clock

/-! #### The offset -/

theorem offsetText_eq (offset : Int) : offsetText offset =
    (if offset < 0 then '-' else '+') :: (pad 2 (offset.natAbs / 1000000 / 3600) ++
      ':' :: (pad 2 (offset.natAbs / 1000000 / 60 % 60) ++
        if offset.natAbs % 60000000 = 0 then []
        else ':' :: secondsText (offset.natAbs / 1000000 % 60) (offset.natAbs % 1000000))) := rfl

/-- The clock of an offset, from its text without the sign. -/
theorem readClock_offsetText {n : Nat} (hn : (n : Int) < dayMicros) :
    ∃ clock, readClock false 3 none ((pad 2 (n / 1000000 / 3600) ++
      ':' :: (pad 2 (n / 1000000 / 60 % 60) ++ if n % 60000000 = 0 then []
        else ':' :: secondsText (n / 1000000 % 60) (n % 1000000))).map codePoint) = some clock ∧
      clock.seconds = n / 1000000 ∧ clock.micros = n % 1000000 ∧ clock.more = false := by
  unfold dayMicros hourMicros at hn
  have hpad : ∀ m, (pad 2 m).map codePoint ≠ [] := fun m => by
    rw [← List.length_pos_iff]
    simp
  by_cases hminutes : n % 60000000 = 0
  · refine ⟨⟨[n / 1000000 / 3600, n / 1000000 / 60 % 60], 0, false⟩, ?_, ?_, ?_, rfl⟩
    · rw [if_pos hminutes, List.append_nil, List.map_append, List.map_cons,
        readClock_colon (by omega) rfl (hpad _), readClock_last (by omega)]
      rfl
    · show (n / 1000000 / 3600 * 60 + n / 1000000 / 60 % 60) * 60 + 0 = _
      omega
    · show 0 = _
      omega
  · refine ⟨⟨[n / 1000000 / 3600, n / 1000000 / 60 % 60, n / 1000000 % 60], n % 1000000, false⟩,
      ?_, ?_, rfl, rfl⟩
    · rw [if_neg hminutes]
      simp only [List.map_append, List.map_cons]
      rw [readClock_colon (by omega) rfl (by simp), readClock_colon (by omega) rfl
        (secondsText_ne _ _), readClock_seconds (by omega) (by omega)]
      rfl
    · show (n / 1000000 / 3600 * 60 + n / 1000000 / 60 % 60) * 60 + n / 1000000 % 60 = _
      omega

/-- An offset that is read back: the interpreter takes one below a second for UTC. -/
def WholeOffset (offset : Int) : Prop := offset = 0 ∨ 1000000 ≤ offset.natAbs

theorem offsetMicros_eq {offset : { offset : Int // |offset| < dayMicros }} {clock : Clock}
    (hwhole : WholeOffset offset.val) (hseconds : clock.seconds = offset.val.natAbs / 1000000)
    (hmicros : clock.micros = offset.val.natAbs % 1000000) :
    offsetMicros (decide (offset.val < 0)) clock = some offset := by
  have hvalue : (if decide (offset.val < 0) = true then
      -((if clock.seconds = 0 then 0 else clock.seconds * 1000000 + clock.micros : Nat) : Int)
      else (if clock.seconds = 0 then 0 else clock.seconds * 1000000 + clock.micros : Nat)) =
      offset.val := by
    unfold WholeOffset at hwhole
    simp only [hseconds, hmicros, decide_eq_true_eq]
    split <;> split <;> omega
  unfold offsetMicros
  simp only [hvalue]
  rw [dif_pos offset.property]

/-! #### The parts of the text -/

theorem not_offsetHead_digit {c : Fin 0x110000} (h : digit c = true) : offsetHead c = false := by
  simp only [digit, Bool.and_eq_true, decide_eq_true_eq] at h
  have hne : ∀ d : Char, (codePoint d).val < 0x30 ∨ 0x39 < (codePoint d).val →
      (c == codePoint d) = false := by
    intro d hd
    rw [beq_eq_false_iff_ne]
    rintro rfl
    omega
  rw [offsetHead, hne '+' (by decide), hne '-' (by decide), hne 'Z' (by decide)]
  rfl

/-- The characters of a time of day. -/
theorem timeText_chars (n : Nat) : ∀ c ∈ (timeText n).map codePoint,
    digit c = true ∨ c = codePoint ':' ∨ c = codePoint '.' := by
  intro c hc
  have hseconds : ∀ c ∈ (secondsText (n / 1000000 % 60) (n % 1000000)).map codePoint,
      digit c = true ∨ c = codePoint '.' := by
    intro c hc
    rw [secondsText, List.map_append, List.mem_append] at hc
    rcases hc with hc | hc
    · exact .inl (digit_pad hc)
    · split at hc
      · cases hc
      · rw [List.map_cons, List.mem_cons] at hc
        exact hc.symm.imp digit_pad id
  rw [timeText_eq] at hc
  simp only [List.map_append, List.map_cons, List.mem_append, List.mem_cons] at hc
  rcases hc with hc | hc | hc | hc | hc
  · exact .inl (digit_pad hc)
  · exact .inr (.inl hc)
  · exact .inl (digit_pad hc)
  · exact .inr (.inl hc)
  · exact (hseconds c hc).imp_right .inr

theorem not_offsetHead_timeText (n : Nat) : ∀ c ∈ (timeText n).map codePoint,
    (!offsetHead c) = true := by
  intro c hc
  rcases timeText_chars n c hc with h | rfl | rfl
  · rw [not_offsetHead_digit h]
    rfl
  · rfl
  · rfl

/-- The time of day and the offset are read back. -/
theorem parseIsoformatTime_isoformat {n : Nat} (hn : (n : Int) < dayMicros)
    (utcoffset : Option { offset : Int // |offset| < dayMicros })
    (hwhole : ∀ offset, utcoffset = some offset → WholeOffset offset.val) :
    parseIsoformatTime ((timeText n ++ utcoffsetText utcoffset).map codePoint) =
      some (⟨[n / 1000000 / 3600, n / 1000000 / 60 % 60, n / 1000000 % 60], n % 1000000,
        utcoffset.isSome⟩, utcoffset) := by
  have hbefore := not_offsetHead_timeText n
  cases utcoffset with
  | none =>
    have hdrop : ((timeText n).map codePoint).dropWhile (fun c => !offsetHead c) = [] := by
      rw [← List.append_nil ((timeText n).map codePoint), List.dropWhile_append_of_pos hbefore]
      rfl
    rw [utcoffsetText, List.append_nil]
    unfold parseIsoformatTime
    rw [hdrop]
    dsimp only
    rw [readClock_timeText hn]
    rfl
  | some offset =>
    obtain ⟨clock, hclock, hseconds, hmicros, hmore⟩ := readClock_offsetText
      (n := offset.val.natAbs) (by rw [Int.natCast_natAbs]; exact offset.property)
    have hoffset := offsetMicros_eq (hwhole offset rfl) hseconds hmicros
    obtain ⟨sign, hsign, hhead, hzulu, hminus⟩ : ∃ sign : Fin 0x110000,
        codePoint (if offset.val < 0 then '-' else '+') = sign ∧ offsetHead sign = true ∧
          sign ≠ codePoint 'Z' ∧ (sign == codePoint '-') = decide (offset.val < 0) := by
      by_cases hneg : offset.val < 0
      · exact ⟨_, rfl, by rw [if_pos hneg]; rfl, by rw [if_pos hneg]; decide,
          by rw [if_pos hneg, decide_eq_true hneg]; rfl⟩
      · exact ⟨_, rfl, by rw [if_neg hneg]; rfl, by rw [if_neg hneg]; decide,
          by rw [if_neg hneg, decide_eq_false hneg]; rfl⟩
    have hstop : (!offsetHead sign) = false := by rw [hhead]; rfl
    rw [utcoffsetText, offsetText_eq, List.map_append, List.map_cons, hsign]
    unfold parseIsoformatTime
    rw [List.dropWhile_append_of_pos hbefore, List.takeWhile_append_of_pos hbefore,
      List.dropWhile_cons, List.takeWhile_cons, hstop]
    simp only [Bool.false_eq_true, if_false, List.append_nil]
    rw [readClock_timeText hn, hclock, hminus]
    simp only [Option.bind_eq_bind, Option.bind_some, hzulu, if_false, hmore, hoffset,
      Bool.false_eq_true]
    rfl

theorem head_pad {k n : Nat} {c : Char} (hc : c.isDigit = false) (hk : 0 < k) (rest : PyStr) :
    ((pad k n).map codePoint ++ rest).head? ≠ some (codePoint c) := by
  intro h
  cases hpad : (pad k n).map codePoint with
  | nil =>
    have hlength := congrArg List.length hpad
    rw [List.length_map, length_pad, List.length_nil] at hlength
    omega
  | cons d ds =>
    rw [hpad] at h
    obtain rfl := Option.some.inj h
    have hdigit : digit (codePoint c) = true :=
      digit_pad (k := k) (n := n) (by rw [hpad]; exact List.mem_cons_self)
    rw [digit_codePoint, hc] at hdigit
    cases hdigit

theorem dateText_append (d : Ymd) (rest : PyStr) : (dateText d).map codePoint ++ rest =
    (pad 4 d.year).map codePoint ++ codePoint '-' :: ((pad 2 d.month).map codePoint ++
      codePoint '-' :: ((pad 2 d.day).map codePoint ++ rest)) := by
  simp [dateText]

/-- A date is read back, whatever follows. -/
theorem parseIsoformatDate_dateText {d : Ymd} (hyear : d.year < 10 ^ 4) (hmonth : d.month < 10 ^ 2)
    (hday : d.day < 10 ^ 2) (rest : PyStr) :
    parseIsoformatDate 10 ((dateText d).map codePoint ++ rest) = some d := by
  have hweek := head_pad (k := 2) (n := d.month) (c := 'W') rfl (by decide)
    (codePoint '-' :: ((pad 2 d.day).map codePoint ++ rest))
  rw [dateText_append]
  unfold parseIsoformatDate
  rw [readDigits_pad hyear]
  show (if ((pad 2 d.month).map codePoint ++ codePoint '-' ::
    ((pad 2 d.day).map codePoint ++ rest)).head? = some (codePoint 'W') then _ else _) = _
  rw [if_neg hweek]
  show (readDigits 2 0 ((pad 2 d.month).map codePoint ++ codePoint '-' ::
    ((pad 2 d.day).map codePoint ++ rest))).bind _ = _
  rw [readDigits_pad hmonth]
  show (readDigits 2 0 ((pad 2 d.day).map codePoint ++ rest)).bind _ = _
  rw [readDigits_pad hday]
  rfl

theorem getElem_pad {k n : Nat} (rest : PyStr) :
    ((pad k n).map codePoint ++ rest)[k]? = rest[0]? := by
  rw [List.getElem?_append_right (by simp)]
  simp

theorem findSeparator_dateText (d : Ymd) {c : Fin 0x110000} (rest : PyStr) :
    findSeparator ((dateText d).map codePoint ++ c :: rest) = some 10 := by
  have hlength : ((dateText d).map codePoint ++ c :: rest).length ≠ 7 := by
    simp only [dateText, List.length_append, List.length_map, List.length_cons, length_pad]
    omega
  have hdash : ((dateText d).map codePoint ++ c :: rest)[4]? = some (codePoint '-') := by
    rw [dateText_append]
    exact getElem_pad _
  have hweek : ((dateText d).map codePoint ++ c :: rest)[5]? ≠ some (codePoint 'W') := by
    rw [dateText_append, List.getElem?_append_right (by simp), List.length_map, length_pad,
      List.getElem?_cons_succ, ← List.head?_eq_getElem?]
    exact head_pad rfl (by decide) _
  rw [findSeparator, if_neg hlength, if_pos hdash, if_neg hweek]

theorem sanitize_eq {s : PyStr} (h : ∀ c ∈ s, surrogate c.val = false) : sanitize s = s := by
  have hfind : ([7, 8, 10].find? fun i => s[i]?.any fun c => surrogate c.val) = none := by
    rw [List.find?_eq_none]
    intro i _
    cases hc : s[i]? with
    | none => exact Bool.false_ne_true
    | some c =>
      rw [Option.any_some, h c (List.mem_of_getElem? hc)]
      exact Bool.false_ne_true
  rw [sanitize, hfind]

/-- The text has no surrogates. -/
def Unsurrogated (cs : List Char) : Prop := ∀ c ∈ cs, surrogate c.toNat = false

theorem Unsurrogated.append {cs ds : List Char} (h : Unsurrogated cs) (h' : Unsurrogated ds) :
    Unsurrogated (cs ++ ds) :=
  List.forall_mem_append.mpr ⟨h, h'⟩

theorem Unsurrogated.cons {c : Char} {cs : List Char} (hc : surrogate c.toNat = false)
    (h : Unsurrogated cs) : Unsurrogated (c :: cs) :=
  List.forall_mem_cons.mpr ⟨hc, h⟩

theorem unsurrogated_nil : Unsurrogated [] := nofun

theorem unsurrogated_pad (k n : Nat) : Unsurrogated (pad k n) := by
  intro c hc
  have hdigit : digit (codePoint c) = true := digit_pad (List.mem_map_of_mem hc)
  have hval : (codePoint c).val = c.toNat := rfl
  simp only [digit, Bool.and_eq_true, decide_eq_true_eq] at hdigit
  simp only [surrogate, Bool.and_eq_false_iff, decide_eq_false_iff_not]
  omega

theorem unsurrogated_secondsText (seconds micros : Nat) :
    Unsurrogated (secondsText seconds micros) := by
  refine (unsurrogated_pad _ _).append ?_
  split
  · exact unsurrogated_nil
  · exact (unsurrogated_pad _ _).cons rfl

theorem unsurrogated_offsetText (offset : Int) : Unsurrogated (offsetText offset) := by
  rw [offsetText_eq]
  refine .cons (by split <;> rfl) ((unsurrogated_pad _ _).append (.cons rfl
    ((unsurrogated_pad _ _).append ?_)))
  split
  · exact unsurrogated_nil
  · exact (unsurrogated_secondsText _ _).cons rfl

theorem unsurrogated_isoformat (dt : Datetime) : Unsurrogated dt.isoformat := by
  have htime : Unsurrogated (timeText dt.wall.sinceMidnight) :=
    (unsurrogated_pad _ _).append (.cons rfl ((unsurrogated_pad _ _).append
      (.cons rfl (unsurrogated_secondsText _ _))))
  have hoffset : Unsurrogated (utcoffsetText dt.utcoffset) := by
    cases dt.utcoffset with
    | none => exact unsurrogated_nil
    | some offset => exact unsurrogated_offsetText offset.val
  exact ((unsurrogated_pad _ _).append (.cons rfl ((unsurrogated_pad _ _).append
    (.cons rfl (unsurrogated_pad _ _))))).append (.cons rfl (htime.append hoffset))

/-! #### The whole -/

theorem Wall.sinceMidnight_lt (wall : Wall) : (wall.sinceMidnight : Int) < dayMicros := by
  unfold Wall.sinceMidnight dayMicros hourMicros
  omega

theorem Wall.ofFields_eq (wall : Wall) (more : Bool) :
    Wall.ofFields wall.date ⟨[wall.sinceMidnight / 1000000 / 3600,
      wall.sinceMidnight / 1000000 / 60 % 60, wall.sinceMidnight / 1000000 % 60],
      wall.sinceMidnight % 1000000, more⟩ = some wall := by
  obtain ⟨hvalid, hordinal⟩ := wall.date_spec
  have hyear := wall.year_le
  have hlt := wall.sinceMidnight_lt
  have hdate : checkDateArgs wall.date = true := by
    have := hvalid.year
    have := hvalid.month_low
    have := hvalid.month_high
    have := hvalid.day_low
    have := hvalid.day_high
    simp only [checkDateArgs, Bool.and_eq_true, decide_eq_true_eq]
    omega
  have htime : checkTimeArgs ⟨[wall.sinceMidnight / 1000000 / 3600,
      wall.sinceMidnight / 1000000 / 60 % 60, wall.sinceMidnight / 1000000 % 60],
      wall.sinceMidnight % 1000000, more⟩ = true := by
    unfold dayMicros hourMicros at hlt
    simp only [checkTimeArgs, List.getD_cons_zero, List.getD_cons_succ, Bool.and_eq_true,
      decide_eq_true_eq]
    omega
  rw [Wall.ofFields, hdate, htime, Bool.and_self, if_pos rfl, Wall.ofMicros_eq_some, hordinal]
  have := wall.ordinal_eq
  have hsince : (wall.sinceMidnight : Int) = wall.micros % dayMicros := by
    unfold Wall.sinceMidnight dayMicros hourMicros
    omega
  show _ = _ * dayMicros + ((((wall.sinceMidnight / 1000000 / 3600 * 60 +
    wall.sinceMidnight / 1000000 / 60 % 60) * 60 + wall.sinceMidnight / 1000000 % 60 : Nat) : Int) *
      1000000 + (wall.sinceMidnight % 1000000 : Nat))
  unfold dayMicros hourMicros at *
  omega

/-- What `isoformat` writes is read back. -/
theorem fromisoformat_isoformat (dt : Datetime)
    (hwhole : ∀ offset, dt.utcoffset = some offset → WholeOffset offset.val) :
    fromisoformat (dt.isoformat.map codePoint) = some dt := by
  obtain ⟨hyear, hmonth, hday⟩ := dt.wall.date_lt
  have hplain : ∀ c ∈ dt.isoformat.map codePoint, surrogate c.val = false := by
    intro c hc
    obtain ⟨d, hd, rfl⟩ := List.mem_map.mp hc
    exact unsurrogated_isoformat dt d hd
  have htext : dt.isoformat.map codePoint = (dateText dt.wall.date).map codePoint ++
      codePoint 'T' :: (timeText dt.wall.sinceMidnight ++
        utcoffsetText dt.utcoffset).map codePoint := by
    rw [Datetime.isoformat, List.map_append, List.map_cons]
  have hlength : ((dateText dt.wall.date).map codePoint).length = 10 := by
    simp [dateText]
  have hdrop : (dt.isoformat.map codePoint).drop (10 + 1) =
      (timeText dt.wall.sinceMidnight ++ utcoffsetText dt.utcoffset).map codePoint := by
    rw [htext, ← List.drop_drop, List.drop_left' hlength]
    rfl
  have hlong : 10 < (dt.isoformat.map codePoint).length := by
    rw [htext, List.length_append, hlength, List.length_cons]
    omega
  have hany : (dt.isoformat.map codePoint).any (fun c => surrogate c.val) = false := by
    rw [List.any_eq_false]
    intro c hc
    rw [hplain c hc]
    exact Bool.false_ne_true
  have hseparator : findSeparator (dt.isoformat.map codePoint) = some 10 := by
    rw [htext]
    exact findSeparator_dateText _ _
  have hdate : parseIsoformatDate 10 (dt.isoformat.map codePoint) = some dt.wall.date := by
    rw [htext]
    exact parseIsoformatDate_dateText hyear hmonth hday _
  unfold fromisoformat
  rw [sanitize_eq hplain]
  dsimp only
  rw [hany, if_neg (by simp only [Bool.false_eq_true, or_false]; omega), hseparator]
  simp only [Option.bind_eq_bind, Option.bind_some, hdate, hlong, if_true, hdrop,
    parseIsoformatTime_isoformat dt.wall.sinceMidnight_lt dt.utcoffset hwhole, Wall.ofFields_eq]
  rfl

end TaskScheduler
