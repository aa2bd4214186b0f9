import TaskScheduler.Ics.Parser
import TaskScheduler.Lib.Offsets

/-! Recurring events in their own timezone.  The parser converts DTSTART to UTC and expands the rule
on that clock; the event means its rule on its own clock, and each reading converted. -/

namespace TaskScheduler.Ics

open Lib

/-! ### The expansion on the clock of the event -/

/-- The `tzinfo` of a DTSTART; dates and naive values have none. -/
def DateValue.tzinfo : DateValue → Option Zone
  | .aware zone _ => some zone
  | _ => none

/-- The reading of the clock. -/
def DateValue.wall : DateValue → Int
  | .date day => day * daySeconds
  | .naive wall => wall
  | .aware _ wall => wall

/-- The offset from UTC on the clock of a value; a naive one is taken as UTC. -/
def DateValue.utcoffset (v : DateValue) (wall : Int) : Int :=
  v.tzinfo.elim 0 fun zone => zone.utcoffset wall

/-- The rule on the clock of the event, if dateutil reads it. -/
def Component.localRule (libs : Libs) (c : Component) (dtstart : DateValue) : Option Rule :=
  c.rrule.bind fun text => libs.rrulestr text dtstart.tzinfo dtstart.wall

/-- The starts in the range that the filters let through. -/
def Component.Admits (libs : Libs) (titleContains : Option String) (rangeStart rangeEnd : Int)
    (c : Component) (dtstart : DateValue) (s : Int) : Prop :=
  rangeStart * daySeconds ≤ s ∧
    Ics.kept libs rangeStart rangeEnd titleContains (c.event dtstart s) = true

/-- The instants at which the rule decides: admitted and not excluded. -/
def Component.Decides (libs : Libs) (titleContains : Option String) (rangeStart rangeEnd : Int)
    (c : Component) (dtstart : DateValue) (s : Int) : Prop :=
  c.Admits libs titleContains rangeStart rangeEnd dtstart s ∧
    s ∉ c.exdates.map toAwareDatetime

/-- The readings that a rule has. -/
def Rule.Has (rule : Rule) (w : Int) : Prop := rule.occurs w = true

/-- The rule of a component from a start on a clock, if dateutil reads it. -/
def Component.ruleFrom (libs : Libs) (c : Component) (tz : Option Zone) (start : Int) :
    Option Rule :=
  c.rrule.bind fun text => libs.rrulestr text tz start

/-- A start between DTSTART's own reading and the one that UTC has then, on either clock. -/
structure DateValue.Between (v : DateValue) (tz : Option Zone) (start : Int) : Prop where
  clock : tz = v.tzinfo ∨ tz = some .utc
  low : min v.wall (toAwareDatetime v) ≤ start
  high : start ≤ max v.wall (toAwareDatetime v)

/-- The rule moves along with its start: from every start between DTSTART's two readings, on either
clock, it has occurrences the same times later, as far as they decide. -/
def Component.MovesAlong (libs : Libs) (titleContains : Option String) (rangeStart rangeEnd : Int)
    (c : Component) (dtstart : DateValue) : Prop :=
  ∀ tz₁ start₁ tz₂ start₂, dtstart.Between tz₁ start₁ → dtstart.Between tz₂ start₂ →
    (c.ruleFrom libs tz₁ start₁).isSome = (c.ruleFrom libs tz₂ start₂).isSome ∧
    ∀ rule₁ rule₂, c.ruleFrom libs tz₁ start₁ = some rule₁ →
      c.ruleFrom libs tz₂ start₂ = some rule₂ →
      ∀ s, c.Decides libs titleContains rangeStart rangeEnd dtstart s →
        (rule₁.Has (start₁ + (s - toAwareDatetime dtstart)) ↔
          rule₂.Has (start₂ + (s - toAwareDatetime dtstart)))

/-- The occurrences on the clock of the event name the same instants with the offset of DTSTART as
each with its own, as far as they decide. -/
def Component.OneOffset (libs : Libs) (titleContains : Option String) (rangeStart rangeEnd : Int)
    (c : Component) (dtstart : DateValue) : Prop :=
  ∀ rule, c.localRule libs dtstart = some rule →
    Agrees dtstart.utcoffset rule.Has (fun s => rule.Has (s + dtstart.utcoffset dtstart.wall))
      (c.Decides libs titleContains rangeStart rangeEnd dtstart)

/-- The condition on the rule and on the zone of an event. -/
structure Component.Settled (libs : Libs) (titleContains : Option String)
    (rangeStart rangeEnd : Int) (c : Component) (dtstart : DateValue) : Prop where
  moves : c.MovesAlong libs titleContains rangeStart rangeEnd dtstart
  offset : c.OneOffset libs titleContains rangeStart rangeEnd dtstart

variable {libs : Libs} {titleContains : Option String} {rangeStart rangeEnd : Int} {c : Component}
  {dtstart : DateValue}

variable {utcRule localRule : Rule}

/-- An event without a rule is where it is. -/
theorem settled_single (h : c.rrule = none) :
    c.Settled libs titleContains rangeStart rangeEnd dtstart := by
  have hnone : ∀ tz start, c.ruleFrom libs tz start = none := by
    intro tz start
    rw [Component.ruleFrom, h]
    rfl
  refine ⟨fun tz₁ start₁ tz₂ start₂ _ _ => ⟨by rw [hnone, hnone], fun rule₁ _ hrule => ?_⟩,
    fun rule hrule => ?_⟩
  · rw [hnone] at hrule
    cases hrule
  · rw [Component.localRule, h] at hrule
    cases hrule

/-- In UTC, the two readings of DTSTART are one, and so are all offsets. -/
theorem settled_utc (wall : Int) :
    c.Settled libs titleContains rangeStart rangeEnd (.aware .utc wall) := by
  have hstart : toAwareDatetime (.aware .utc wall) = wall := Int.sub_zero wall
  constructor
  · have hone : ∀ {tz start}, (DateValue.aware .utc wall).Between tz start →
        tz = some .utc ∧ start = wall := by
      intro tz start h
      obtain ⟨hclock, hlow, hhigh⟩ := h
      rw [hstart] at hlow hhigh
      have hwall : (DateValue.aware .utc wall).wall = wall := rfl
      rw [hwall] at hlow hhigh
      exact ⟨hclock.elim id id, by omega⟩
    intro tz₁ start₁ tz₂ start₂ h₁ h₂
    obtain ⟨rfl, rfl⟩ := hone h₁
    obtain ⟨rfl, rfl⟩ := hone h₂
    refine ⟨rfl, fun rule₁ rule₂ hrule₁ hrule₂ s _ => ?_⟩
    rw [hrule₁] at hrule₂
    cases hrule₂
    exact Iff.rfl
  · intro rule _ s _
    simp [Named, DateValue.utcoffset, DateValue.tzinfo, Zone.utc]

end TaskScheduler.Ics
