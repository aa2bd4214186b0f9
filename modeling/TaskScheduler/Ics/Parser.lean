import Mathlib.Data.List.Sort
import TaskScheduler.Lib.Parts

/-! The calendar parser, `app/ics/parser.py`.  Days are counted from 1 January 1970, and times are
in whole seconds, as iCalendar has them. -/

namespace TaskScheduler.Ics

/-! ### Values of properties -/

def daySeconds : Int := 86400

/-- A timezone: the offset from UTC at a reading of its wall clock. -/
structure Zone where
  utcoffset : Int → Int

def Zone.utc : Zone := ⟨fun _ => 0⟩

/-- `astimezone(UTC)` of a reading. -/
def Zone.instant (zone : Zone) (wall : Int) : Int := wall - zone.utcoffset wall

/-- The `dt` of a date property. -/
inductive DateValue
  | date (day : Int)
  | naive (wall : Int)
  | aware (zone : Zone) (wall : Int)

/-- `_to_aware_datetime`. -/
def toAwareDatetime : DateValue → Int
  | .date day => day * daySeconds
  | .naive wall => wall
  | .aware zone wall => zone.instant wall

/-- `isinstance(original, datetime.datetime)`. -/
def DateValue.timed : DateValue → Bool
  | .date _ => false
  | _ => true

/-- A component of a calendar, with the properties that the parser reads; the RRULE is its text, and
the EXDATE properties are one list. -/
structure Component where
  name : String
  summary : Option String
  location : Option String
  description : Option String
  url : Option String
  dtstart : Option DateValue
  dtend : Option DateValue
  duration : Option Int
  rrule : Option String
  exdates : List DateValue

/-- A rule of dateutil: the readings of the wall clock that it has, and `between` with `inc=True`,
which lists those between two bounds. -/
structure Rule where
  occurs : Int → Bool
  between : Int → Int → List Int
  mem_between : ∀ lo hi w, w ∈ between lo hi ↔ lo ≤ w ∧ w ≤ hi ∧ occurs w = true
  sorted : ∀ lo hi, (between lo hi).Pairwise (· < ·)

/-- The calls into icalendar and dateutil, and `str.lower`: the components that `walk` returns, and
`rrulestr` with a DTSTART that has this timezone or is naive, unless they raise. -/
structure Libs where
  fromIcal : String → Except String (List Component)
  rrulestr : String → Option Zone → Int → Option Rule
  lower : String → String

/-! ### `parse_events` -/

structure CalendarEvent where
  summary : String
  start : Int
  end_ : Int
  location : Option String
  description : Option String
  url : Option String
  deriving DecidableEq, Repr

/-- `_derive_end`. -/
def deriveEnd (c : Component) (dtstart : DateValue) (startDt : Int) : Int :=
  match c.dtend with
  | some dtend => toAwareDatetime dtend
  | none =>
    match c.duration with
    | some duration => startDt + duration
    | none => if dtstart.timed then startDt + 3600 else startDt + daySeconds

/-- `_expand_rrule`. -/
def expandRrule (libs : Libs) (c : Component) (rruleText : String)
    (dtstart rangeStart rangeEnd : Int) : List Int :=
  match libs.rrulestr rruleText (some .utc) dtstart with
  | none => [dtstart]
  | some rule =>
    (rule.between rangeStart rangeEnd).filter fun occ =>
      decide (occ ∉ c.exdates.map toAwareDatetime)

/-- The event of an occurrence; all occurrences have the duration of the first one. -/
def Component.event (c : Component) (dtstart : DateValue) (occStart : Int) : CalendarEvent :=
  let startDt := toAwareDatetime dtstart
  let duration := deriveEnd c dtstart startDt - startDt
  ⟨c.summary.getD "", occStart, occStart + duration, c.location, c.description, c.url⟩

/-- The events of a component before the filters. -/
def Component.events (libs : Libs) (rangeStart rangeEnd : Int) (c : Component) :
    List CalendarEvent :=
  if c.name ≠ "VEVENT" then []
  else
    match c.dtstart with
    | none => []
    | some dtstart =>
      let startDt := toAwareDatetime dtstart
      match c.rrule with
      | some rruleText =>
        (expandRrule libs c rruleText startDt rangeStart rangeEnd).map (c.event dtstart)
      | none => [c.event dtstart startDt]

/-- `needle in text`. -/
def contains (text needle : String) : Bool :=
  text.toList.tails.any fun tail => needle.toList.isPrefixOf tail

/-- The filter by `title_contains`. -/
def titleMatches (libs : Libs) (titleContains : Option String) (summary : String) : Bool :=
  titleContains.all fun title => contains (libs.lower summary) (libs.lower title)

/-- The first second of the day. -/
def rangeStartDt (rangeStart : Int) : Int := rangeStart * daySeconds

/-- 23:59:59 of the day. -/
def rangeEndDt (rangeEnd : Int) : Int := rangeEnd * daySeconds + 86399

/-- The filters of `parse_events`. -/
def kept (libs : Libs) (rangeStart rangeEnd : Int) (titleContains : Option String)
    (e : CalendarEvent) : Bool :=
  decide (e.start ≤ rangeEndDt rangeEnd ∧ rangeStartDt rangeStart ≤ e.end_) &&
    titleMatches libs titleContains e.summary

/-- `parse_events`, or the text of `InvalidICSError`. -/
def parseEvents (libs : Libs) (icsText : String) (rangeStart rangeEnd : Int)
    (titleContains : Option String) : Except String (List CalendarEvent) :=
  match libs.fromIcal icsText with
  | .error exc => .error ("Failed to parse ICS data: " ++ exc)
  | .ok components =>
    let events := components.flatMap
      (Component.events libs (rangeStartDt rangeStart) (rangeEndDt rangeEnd))
    .ok ((events.filter (kept libs rangeStart rangeEnd titleContains)).insertionSort
      fun a b => a.start ≤ b.start)

/-! ### Occurrences -/

/-- The rule of a component, if it has one that dateutil reads. -/
def Component.rule (libs : Libs) (c : Component) (dtstart : DateValue) : Option Rule :=
  c.rrule.bind fun text => libs.rrulestr text (some .utc) (toAwareDatetime dtstart)

/-- The starts of a component's occurrences: what its rule expands to, without those that are
excluded; DTSTART, where there is no rule that dateutil reads. -/
def Component.Occurs (libs : Libs) (c : Component) (dtstart : DateValue) (s : Int) : Prop :=
  match c.rule libs dtstart with
  | none => s = toAwareDatetime dtstart
  | some rule => rule.occurs s = true ∧ s ∉ c.exdates.map toAwareDatetime

/-- The events that the occurrences of a component are, those that start at `s` with `p`. -/
def Component.Reports (libs : Libs) (titleContains : Option String) (p : DateValue → Int → Prop)
    (c : Component) (e : CalendarEvent) : Prop :=
  c.name = "VEVENT" ∧ titleMatches libs titleContains e.summary = true ∧
    ∃ dtstart, c.dtstart = some dtstart ∧ c.Occurs libs dtstart e.start ∧ p dtstart e.start ∧
      e = c.event dtstart e.start

variable {libs : Libs} {c : Component} {dtstart : DateValue} {lo hi : Int}

theorem Component.event_inj {s s' : Int} (h : c.event dtstart s = c.event dtstart s') : s = s' :=
  congrArg CalendarEvent.start h

theorem expandRrule_nodup (text : String) (start : Int) :
    (expandRrule libs c text start lo hi).Nodup := by
  unfold expandRrule
  split
  · exact List.nodup_singleton _
  · next rule _ => exact ((rule.sorted lo hi).imp fun h => Int.ne_of_lt h).filter _

/-- A component has one event at a time. -/
theorem Component.events_nodup (libs : Libs) (lo hi : Int) (c : Component) :
    (c.events libs lo hi).Nodup := by
  unfold Component.events
  split
  · exact List.nodup_nil
  · split
    · exact List.nodup_nil
    · split
      · exact (expandRrule_nodup _ _).map fun _ _ => Component.event_inj
      · exact List.nodup_singleton _

/-- The events at some starts are those that start at one of them. -/
theorem Component.mem_map_event {starts : List Int} {e : CalendarEvent} :
    e ∈ starts.map (c.event dtstart) ↔ e.start ∈ starts ∧ e = c.event dtstart e.start := by
  rw [List.mem_map]
  constructor
  · rintro ⟨s, hs, rfl⟩
    exact ⟨hs, rfl⟩
  · rintro ⟨hs, he⟩
    exact ⟨e.start, hs, he.symm⟩

theorem mem_expandRrule {text : String} {start s : Int} :
    s ∈ expandRrule libs c text start lo hi ↔
      match libs.rrulestr text (some .utc) start with
      | none => s = start
      | some rule =>
        (rule.occurs s = true ∧ s ∉ c.exdates.map toAwareDatetime) ∧ lo ≤ s ∧ s ≤ hi := by
  unfold expandRrule
  split
  · exact List.mem_singleton
  · next rule _ =>
    rw [List.mem_filter, rule.mem_between, decide_eq_true_eq]
    exact ⟨fun ⟨⟨hlo, hhi, hocc⟩, hex⟩ => ⟨⟨hocc, hex⟩, hlo, hhi⟩,
      fun ⟨⟨hocc, hex⟩, hlo, hhi⟩ => ⟨⟨hlo, hhi, hocc⟩, hex⟩⟩

/-- The events before the filters: a rule is expanded between the bounds only. -/
theorem Component.mem_events {e : CalendarEvent} :
    e ∈ c.events libs lo hi ↔ c.name = "VEVENT" ∧ ∃ dtstart, c.dtstart = some dtstart ∧
      c.Occurs libs dtstart e.start ∧
      ((c.rule libs dtstart).isSome = true → lo ≤ e.start ∧ e.start ≤ hi) ∧
      e = c.event dtstart e.start := by
  unfold Component.events
  by_cases hname : c.name = "VEVENT"
  · rw [if_neg (not_not.mpr hname)]
    cases hstart : c.dtstart with
    | none => simp
    | some dtstart =>
      simp only [hname, true_and, Option.some.injEq, exists_eq_left']
      unfold Component.Occurs Component.rule
      cases hrule : c.rrule with
      | none =>
        dsimp only [Option.bind_none]
        rw [List.mem_singleton]
        constructor
        · rintro rfl
          exact ⟨rfl, nofun, rfl⟩
        · rintro ⟨hs, -, he⟩
          rw [he, hs]
      | some text =>
        dsimp only [Option.bind_some]
        rw [Component.mem_map_event, mem_expandRrule]
        cases libs.rrulestr text (some .utc) (toAwareDatetime dtstart) with
        | none => simp
        | some rule =>
          simp only [Option.isSome_some, true_implies]
          rw [and_assoc]
  · rw [if_pos hname]
    simp [hname]

/-! ### The window -/

/-- The occurrence from `s` to `e` overlaps the days. -/
def Overlaps (rangeStart rangeEnd s e : Int) : Prop :=
  s < (rangeEnd + 1) * daySeconds ∧
    (rangeStart * daySeconds < e ∨ rangeStart * daySeconds ≤ s)

/-- The events in the window are sorted, and they are those of the occurrences that overlap it, as
often as components have them. -/
structure WindowExact (libs : Libs) (titleContains : Option String) (rangeStart rangeEnd : Int)
    (components : List Component) (events : List CalendarEvent) : Prop where
  sorted : events.Pairwise fun a b => a.start ≤ b.start
  exact : ∃ part : Component → List CalendarEvent, events.Perm (components.flatMap part) ∧
    ∀ c ∈ components, (part c).Nodup ∧ ∀ e, e ∈ part c ↔
      c.Reports libs titleContains
        (fun dtstart s => Overlaps rangeStart rangeEnd s (c.event dtstart s).end_) e

/-- The occurrences that the filters get wrong: one that ends before the window and starts in it,
one of a rule that is running when the window begins, and one without a rule that ends there. -/
def Misplaced (libs : Libs) (rangeStart rangeEnd : Int) (c : Component) (dtstart : DateValue)
    (s : Int) : Prop :=
  let first := rangeStart * daySeconds
  let e := (c.event dtstart s).end_
  s < (rangeEnd + 1) * daySeconds ∧
    (first ≤ s ∧ e < first ∨
      s < first ∧ if (c.rule libs dtstart).isSome then first < e else e = first)

/-- The occurrences that the filters let through. -/
def Returned (libs : Libs) (rangeStart rangeEnd : Int) (c : Component) (dtstart : DateValue)
    (s : Int) : Prop :=
  let first := rangeStart * daySeconds
  s < (rangeEnd + 1) * daySeconds ∧ first ≤ (c.event dtstart s).end_ ∧
    ((c.rule libs dtstart).isSome = true → first ≤ s)

variable {rangeStart rangeEnd : Int} {titleContains : Option String}

theorem overlaps_of_returned {s : Int} (hmis : ¬Misplaced libs rangeStart rangeEnd c dtstart s)
    (h : Returned libs rangeStart rangeEnd c dtstart s) :
    Overlaps rangeStart rangeEnd s (c.event dtstart s).end_ := by
  unfold Misplaced at hmis
  unfold Returned at h
  unfold Overlaps
  dsimp only at *
  generalize (c.event dtstart s).end_ = e at *
  cases hrule : (c.rule libs dtstart).isSome with
  | true =>
    simp only [hrule, true_implies] at h
    omega
  | false =>
    simp only [hrule, Bool.false_eq_true, if_false] at hmis
    omega

theorem returned_of_overlaps {s : Int} (hmis : ¬Misplaced libs rangeStart rangeEnd c dtstart s)
    (h : Overlaps rangeStart rangeEnd s (c.event dtstart s).end_) :
    Returned libs rangeStart rangeEnd c dtstart s := by
  unfold Misplaced at hmis
  unfold Overlaps at h
  unfold Returned
  dsimp only at *
  generalize (c.event dtstart s).end_ = e at *
  cases hrule : (c.rule libs dtstart).isSome with
  | true =>
    simp only [hrule, if_true] at hmis
    simp only [true_implies]
    omega
  | false =>
    simp only [Bool.false_eq_true, false_implies, and_true]
    omega

/-- The events of a component after the filters. -/
def Component.kept (libs : Libs) (rangeStart rangeEnd : Int) (titleContains : Option String)
    (c : Component) : List CalendarEvent :=
  (c.events libs (rangeStartDt rangeStart) (rangeEndDt rangeEnd)).filter
    (Ics.kept libs rangeStart rangeEnd titleContains)

theorem Component.kept_nodup (libs : Libs) (rangeStart rangeEnd : Int)
    (titleContains : Option String) (c : Component) :
    (c.kept libs rangeStart rangeEnd titleContains).Nodup :=
  (c.events_nodup libs _ _).filter _

/-- The comparison with 23:59:59 is one with the next midnight. -/
theorem kept_iff {e : CalendarEvent} :
    kept libs rangeStart rangeEnd titleContains e = true ↔
      e.start < (rangeEnd + 1) * daySeconds ∧ rangeStart * daySeconds ≤ e.end_ ∧
        titleMatches libs titleContains e.summary = true := by
  unfold kept rangeStartDt rangeEndDt daySeconds
  rw [Bool.and_eq_true, decide_eq_true_eq, and_assoc]
  refine and_congr_left fun _ => ?_
  omega

theorem Component.mem_kept {e : CalendarEvent} :
    e ∈ c.kept libs rangeStart rangeEnd titleContains ↔
      c.Reports libs titleContains (Returned libs rangeStart rangeEnd c) e := by
  unfold Component.kept Component.Reports
  rw [List.mem_filter, Component.mem_events, kept_iff]
  constructor
  · rintro ⟨⟨hname, dtstart, hstart, hocc, hbounds, he⟩, hlast, hfirst, htitle⟩
    refine ⟨hname, htitle, dtstart, hstart, hocc, ⟨hlast, ?_, fun hrule => (hbounds hrule).1⟩, he⟩
    rw [← he]
    exact hfirst
  · rintro ⟨hname, htitle, dtstart, hstart, hocc, ⟨hlast, hfirst, hrule⟩, he⟩
    rw [← he] at hfirst
    refine ⟨⟨hname, dtstart, hstart, hocc, fun h => ⟨hrule h, ?_⟩, he⟩, hlast, hfirst, htitle⟩
    unfold rangeEndDt
    unfold daySeconds at *
    omega

/-- The parser sorts what the components keep. -/
theorem parseEvents_eq {icsText : String} {components : List Component}
    (h : libs.fromIcal icsText = .ok components) :
    parseEvents libs icsText rangeStart rangeEnd titleContains =
      .ok ((components.flatMap
        (Component.kept libs rangeStart rangeEnd titleContains)).insertionSort
          fun a b => a.start ≤ b.start) := by
  unfold parseEvents
  rw [h]
  dsimp only
  rw [List.filter_flatMap]
  rfl

/-- No occurrence that the title lets through is misplaced. -/
def WellPlaced (libs : Libs) (titleContains : Option String) (rangeStart rangeEnd : Int)
    (components : List Component) : Prop :=
  ∀ c ∈ components, ∀ e,
    ¬c.Reports libs titleContains (Misplaced libs rangeStart rangeEnd c) e

/-- What is reported with one property is reported with another that the occurrence has. -/
theorem Component.Reports.imp {p q : DateValue → Int → Prop} {e : CalendarEvent}
    (h : c.Reports libs titleContains p e)
    (himp : ∀ dtstart, e = c.event dtstart e.start → p dtstart e.start → q dtstart e.start) :
    c.Reports libs titleContains q e := by
  obtain ⟨hname, htitle, dtstart, hstart, hocc, hp, he⟩ := h
  exact ⟨hname, htitle, dtstart, hstart, hocc, himp dtstart he hp, he⟩

/-- What is reported with one property and not with another does not have the other. -/
theorem Component.Reports.and_not {p q : DateValue → Int → Prop} {e : CalendarEvent}
    (h : c.Reports libs titleContains p e) (hnot : ¬c.Reports libs titleContains q e) :
    c.Reports libs titleContains (fun dtstart s => p dtstart s ∧ ¬q dtstart s) e := by
  obtain ⟨hname, htitle, dtstart, hstart, hocc, hp, he⟩ := h
  refine ⟨hname, htitle, dtstart, hstart, hocc, ⟨hp, fun hq => hnot ?_⟩, he⟩
  exact ⟨hname, htitle, dtstart, hstart, hocc, hq, he⟩

/-- A component has one DTSTART. -/
theorem Component.Reports.dtstart_eq {p : DateValue → Int → Prop} {e : CalendarEvent}
    (h : c.Reports libs titleContains p e) (hstart : c.dtstart = some dtstart) :
    p dtstart e.start := by
  obtain ⟨-, -, dtstart', hstart', -, hp, -⟩ := h
  rw [hstart] at hstart'
  cases hstart'
  exact hp

theorem perm_sorted (components : List Component) :
    ((components.flatMap (Component.kept libs rangeStart rangeEnd titleContains)).insertionSort
      fun a b => a.start ≤ b.start).Perm
      (components.flatMap (Component.kept libs rangeStart rangeEnd titleContains)) :=
  List.perm_insertionSort _ _

theorem pairwise_sorted (events : List CalendarEvent) :
    (events.insertionSort fun a b => a.start ≤ b.start).Pairwise fun a b => a.start ≤ b.start :=
  haveI : Std.Total fun a b : CalendarEvent => a.start ≤ b.start :=
    ⟨fun a b => le_total a.start b.start⟩
  haveI : IsTrans CalendarEvent fun a b => a.start ≤ b.start := ⟨fun _ _ _ => le_trans⟩
  List.pairwise_insertionSort _ _

/-- Where no occurrence is misplaced, a component keeps what overlaps. -/
theorem kept_of_wellPlaced {components : List Component}
    (h : WellPlaced libs titleContains rangeStart rangeEnd components) (hc : c ∈ components)
    (e : CalendarEvent) : e ∈ c.kept libs rangeStart rangeEnd titleContains ↔
      c.Reports libs titleContains
        (fun dtstart s => Overlaps rangeStart rangeEnd s (c.event dtstart s).end_) e := by
  rw [Component.mem_kept]
  constructor
  · intro hret
    exact (hret.and_not (h c hc e)).imp fun _ _ hp => overlaps_of_returned hp.2 hp.1
  · intro hover
    exact (hover.and_not (h c hc e)).imp fun _ _ hp => returned_of_overlaps hp.2 hp.1

/-- Where the window is exact, no occurrence is misplaced: an event that is returned too often, or
not often enough, is so for every component that has it. -/
theorem wellPlaced_of_parts {components : List Component} {part : Component → List CalendarEvent}
    (hperm : (components.flatMap (Component.kept libs rangeStart rangeEnd titleContains)).Perm
      (components.flatMap part))
    (hpart : ∀ c ∈ components, (part c).Nodup ∧ ∀ e, e ∈ part c ↔ c.Reports libs titleContains
      (fun dtstart s => Overlaps rangeStart rangeEnd s (c.event dtstart s).end_) e) :
    WellPlaced libs titleContains rangeStart rangeEnd components := by
  have hkept : ∀ c ∈ components, (Component.kept libs rangeStart rangeEnd titleContains c).Nodup :=
    fun c _ => c.kept_nodup libs _ _ _
  have hnodup : ∀ c ∈ components, (part c).Nodup := fun c hc => (hpart c hc).1
  rintro c hc e ⟨hname, htitle, dtstart, hstart, hocc, ⟨hlast, hmis⟩, he⟩
  rw [← he] at hmis
  rcases hmis with ⟨hfirst, hend⟩ | ⟨hbefore, hmis⟩
  · -- it ends before the window, and no component keeps it
    have hin : e ∈ part c := ((hpart c hc).2 e).mpr
      ⟨hname, htitle, dtstart, hstart, hocc, ⟨hlast, .inr hfirst⟩, he⟩
    have hnone : ∀ c ∈ components, e ∉ c.kept libs rangeStart rangeEnd titleContains := by
      intro c' _ hk
      obtain ⟨-, -, _, -, -, ⟨-, hret, -⟩, he'⟩ := Component.mem_kept.mp hk
      rw [← he'] at hret
      omega
    exact hnone c hc (Lib.parts_agree hkept hnodup hperm
      (fun c' hc' hk => absurd hk (hnone c' hc')) hc hin)
  · cases hrule : (c.rule libs dtstart).isSome with
    | true =>
      -- it is running when the window begins: whoever keeps it is right, and this rule does not
      rw [hrule, if_pos rfl] at hmis
      have hin : e ∈ part c := ((hpart c hc).2 e).mpr
        ⟨hname, htitle, dtstart, hstart, hocc, ⟨hlast, .inl (he ▸ hmis)⟩, he⟩
      have hk := Lib.parts_agree hkept hnodup hperm (fun c' hc' hk => ?_) hc hin
      · have hfirst := ((Component.mem_kept.mp hk).dtstart_eq hstart).2.2 hrule
        omega
      · refine ((hpart c' hc').2 e).mpr ((Component.mem_kept.mp hk).imp ?_)
        rintro dtstart' he' ⟨hlast', -, -⟩
        exact ⟨hlast', .inl (he' ▸ hmis)⟩
    | false =>
      -- it ends when the window begins, and overlaps it for no component
      rw [hrule, if_neg Bool.false_ne_true] at hmis
      have hk : e ∈ c.kept libs rangeStart rangeEnd titleContains := Component.mem_kept.mpr
        ⟨hname, htitle, dtstart, hstart, hocc, ⟨hlast, by rw [← he]; omega, by simp [hrule]⟩, he⟩
      have hnone : ∀ c ∈ components, e ∉ part c := by
        intro c' hc' hin
        obtain ⟨-, -, _, -, -, ⟨-, hover⟩, he'⟩ := ((hpart c' hc').2 e).mp hin
        rw [← he'] at hover
        omega
      exact hnone c hc (Lib.parts_agree hnodup hkept hperm.symm
        (fun c' hc' hin => absurd hin (hnone c' hc')) hc hk)

/-- The parser is exact on a window where and only where no occurrence is misplaced in it. -/
theorem windowExact_iff {icsText : String} {components : List Component}
    (h : libs.fromIcal icsText = .ok components) :
    ∃ events, parseEvents libs icsText rangeStart rangeEnd titleContains = .ok events ∧
      (WindowExact libs titleContains rangeStart rangeEnd components events ↔
        WellPlaced libs titleContains rangeStart rangeEnd components) := by
  refine ⟨_, parseEvents_eq h, fun hexact => ?_, fun hwell => ?_⟩
  · obtain ⟨-, part, hperm, hpart⟩ := hexact
    exact wellPlaced_of_parts ((perm_sorted components).symm.trans hperm) hpart
  · exact ⟨pairwise_sorted _, Component.kept libs rangeStart rangeEnd titleContains,
      perm_sorted components,
      fun c hc => ⟨c.kept_nodup libs _ _ _, kept_of_wellPlaced hwell hc⟩⟩

/-! ### Two events at midnight -/

/-- `FREQ=WEEKLY`, whatever the timezone. -/
def Rule.weekly (start : Int) : Rule where
  occurs w := decide (start ≤ w) && (w - start) % 604800 == 0
  between lo hi :=
    ((List.range ((hi - start) / 604800 + 1).toNat).map fun k : Nat =>
      start + k * 604800).filter fun w => decide (lo ≤ w)
  mem_between lo hi w := by
    rw [List.mem_filter, List.mem_map, decide_eq_true_eq, Bool.and_eq_true, decide_eq_true_eq,
      beq_iff_eq]
    constructor
    · rintro ⟨⟨k, hk, rfl⟩, hlo⟩
      rw [List.mem_range] at hk
      omega
    · rintro ⟨hlo, hhi, hstart, hmod⟩
      refine ⟨⟨((w - start) / 604800).toNat, List.mem_range.mpr ?_, ?_⟩, hlo⟩ <;> omega
  sorted lo hi := by
    refine List.Pairwise.filter _ (List.pairwise_map.mpr (List.pairwise_lt_range.imp ?_))
    intro a b hab
    omega

/-- A calendar of these components, whose rules are weekly. -/
def calendarOf (components : List Component) : Libs where
  fromIcal _ := .ok components
  rrulestr _ _ dtstart := some (.weekly dtstart)
  lower s := s

/-- An all-day event on day 0. -/
def holiday : Component where
  name := "VEVENT"
  summary := some "Company Holiday"
  location := none
  description := none
  url := none
  dtstart := some (.date 0)
  dtend := some (.date 1)
  duration := none
  rrule := none
  exdates := []

/-- A weekly event from 23:00 of day 0 to 01:00. -/
def nightShift : Component :=
  { holiday with
    summary := some "Night Shift", dtstart := some (.naive 82800), dtend := some (.naive 90000),
    rrule := some "RRULE:FREQ=WEEKLY" }

theorem holiday_exact : ∃ events, parseEvents (calendarOf [holiday]) "" 0 0 none = .ok events ∧
    WindowExact (calendarOf [holiday]) none 0 0 [holiday] events := by
  obtain ⟨events, hparse, hiff⟩ := @windowExact_iff (calendarOf [holiday]) 0 0 none "" [holiday] rfl
  refine ⟨events, hparse, hiff.mpr ?_⟩
  rintro c hc e ⟨-, -, dtstart, hstart, hocc, ⟨-, hmis⟩, -⟩
  obtain rfl := List.mem_singleton.mp hc
  cases hstart
  have hend : (holiday.event (.date 0) e.start).end_ = e.start + 86400 := rfl
  rw [hend] at hmis
  rcases hmis with ⟨hfirst, hover⟩ | ⟨hbefore, hends⟩
  · omega
  · change e.start + 86400 = 0 at hends
    rw [hocc] at hends
    exact absurd hends (by decide)

/-- On the next day the holiday is over and is returned, and the night shift is not. -/
theorem midnight_not_exact :
    parseEvents (calendarOf [holiday]) "" 1 1 none = .ok [holiday.event (.date 0) 0] ∧
    ¬WindowExact (calendarOf [holiday]) none 1 1 [holiday] [holiday.event (.date 0) 0] ∧
    parseEvents (calendarOf [nightShift]) "" 1 1 none = .ok [] ∧
    ¬WindowExact (calendarOf [nightShift]) none 1 1 [nightShift] [] := by
  refine ⟨by rfl, ?_, by rfl, ?_⟩
  · rintro ⟨-, part, hperm, hpart⟩
    have hin : holiday.event (.date 0) 0 ∈ [holiday].flatMap part :=
      hperm.mem_iff.mp List.mem_cons_self
    rw [List.flatMap_singleton, (hpart holiday List.mem_cons_self).2] at hin
    obtain ⟨-, -, dtstart, hstart, -, ⟨-, hover⟩, -⟩ := hin
    cases hstart
    revert hover
    decide
  · rintro ⟨-, part, hperm, hpart⟩
    have hin : nightShift.event (.naive 82800) 82800 ∈ [nightShift].flatMap part := by
      rw [List.flatMap_singleton, (hpart nightShift List.mem_cons_self).2]
      exact ⟨rfl, rfl, _, rfl, ⟨rfl, by decide⟩, ⟨by decide, by decide⟩, rfl⟩
    rw [← hperm.mem_iff] at hin
    cases hin

end TaskScheduler.Ics
