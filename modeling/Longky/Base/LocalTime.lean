import Longky.Base.UtcTime
import Longky.Lib.LowerBound

/-!
# LocalTime — time zones with daylight saving time

`base/time/TimeZone.cpp`: `findLocaltime`, `toLocalTime` and `fromLocalTime`.  The transitions of a
zone are searched by UTC in one direction and by local time in the other.  In the hour that the
clocks show twice the second search finds the standard time, and the `HACK` of `fromLocalTime` takes
the hour off again.

`localTime_roundTrip`: for a zone that goes back and forth between the two, every time comes back.
`findLocaltime_inForce`: in any zone whose transitions are in order the search takes the type that a
scan from front to back takes.
-/

namespace Longky
namespace Base

open Lib

/-! ## The source -/

structure Transition where
  gmttime : Int
  localtime : Int
  localtimeIdx : Nat
  deriving DecidableEq, Repr

structure Comp where
  compareGmt : Bool

namespace Comp

/-- What is compared. -/
def key (comp : Comp) (transition : Transition) : Int :=
  if comp.compareGmt then transition.gmttime else transition.localtime

def less (comp : Comp) (lhs rhs : Transition) : Bool := comp.key lhs < comp.key rhs

def equal (comp : Comp) (lhs rhs : Transition) : Bool := comp.key lhs = comp.key rhs

end Comp

structure Localtime where
  gmtOffset : Int
  isDst : Bool
  arrbIdx : Nat
  deriving DecidableEq, Repr

/-- `TimeZone::Data`. -/
structure ZoneData where
  transitions : List Transition := []
  localtimes : List Localtime := []
  abbreviation : Bytes := []
  deriving DecidableEq, Repr

/-- `none` where an assertion fails, or an element is taken that a vector does not have. -/
def findLocaltime (data : ZoneData) (sentry : Transition) (comp : Comp) : Option Localtime :=
  if data.transitions.head?.all (comp.less sentry) then data.localtimes.head?
  else
    let transI := lowerBound (comp.less · sentry) data.transitions
    match data.transitions[transI]? with
    | some transition =>
        if comp.equal sentry transition then data.localtimes[transition.localtimeIdx]?
        -- assert(transI != data.transitions.begin())
        else if transI = 0 then none
        else data.transitions[transI - 1]?.bind fun previous =>
          data.localtimes[previous.localtimeIdx]?
    | none => data.transitions.getLast?.bind fun back => data.localtimes[back.localtimeIdx]?

structure TimeZone where
  data_ : Option ZoneData
  deriving DecidableEq, Repr

namespace TimeZone

def valid (zone : TimeZone) : Bool := zone.data_.isSome

section LibC

/-! `gmtime_r` and `timegm` of the C library. -/

variable (gmtime_r : Int → Tm) (timegm : Tm → Int)

def toLocalTime (zone : TimeZone) (seconds : Int) : Option Tm := do
  -- assert(data_ != NULL)
  let data ← zone.data_
  let sentry : Transition := ⟨seconds, 0, 0⟩
  let loc ← findLocaltime data sentry ⟨true⟩
  let localSeconds := seconds + loc.gmtOffset
  return { gmtime_r localSeconds with
    tm_isdst := if loc.isDst then 1 else 0, tm_gmtoff := loc.gmtOffset,
    tm_zone := some (Bytes.cStr (data.abbreviation.drop loc.arrbIdx)) }

def fromLocalTime (zone : TimeZone) (localTm : Tm) : Option Int := do
  let data ← zone.data_
  let seconds := timegm localTm
  let sentry : Transition := ⟨0, seconds, 0⟩
  let loc ← findLocaltime data sentry ⟨false⟩
  if localTm.tm_isdst ≠ 0 then
    let tryTm ← toLocalTime gmtime_r zone (seconds - loc.gmtOffset)
    if tryTm.tm_isdst = 0 ∧ tryTm.tm_hour = localTm.tm_hour ∧ tryTm.tm_min = localTm.tm_min then
      return seconds - 3600 - loc.gmtOffset
    else return seconds - loc.gmtOffset
  else return seconds - loc.gmtOffset

end LibC
end TimeZone

/-! ## What `findLocaltime` finds -/

variable {data : ZoneData} {sentry : Transition} {comp : Comp}

/-- The `i`-th transition is the last one that is not after the sentry. -/
structure Governs (data : ZoneData) (comp : Comp) (seconds : Int) (i : Nat)
    (transition : Transition) : Prop where
  get : data.transitions[i]? = some transition
  le : comp.key transition ≤ seconds
  lt_next : ∀ next, data.transitions[i + 1]? = some next → seconds < comp.key next

/-- The sentry is in front of all transitions. -/
def BeforeAll (data : ZoneData) (comp : Comp) (seconds : Int) : Prop :=
  ∀ transition, data.transitions[0]? = some transition → seconds < comp.key transition

theorem findLocaltime_beforeAll (h : BeforeAll data comp (comp.key sentry)) :
    findLocaltime data sentry comp = data.localtimes.head? := by
  refine if_pos ?_
  cases htransitions : data.transitions with
  | nil => rfl
  | cons transition rest =>
      have hlt := h transition (by simp [htransitions])
      simpa [Comp.less] using hlt

/-- In any list of transitions one is found that is not after the sentry, and the one behind it is. -/
theorem findLocaltime_cases (data : ZoneData) (sentry : Transition) (comp : Comp) :
    BeforeAll data comp (comp.key sentry) ∨ ∃ i transition,
      data.transitions[i]? = some transition ∧ comp.key transition ≤ comp.key sentry ∧
      (∀ next, data.transitions[i + 1]? = some next →
        comp.key sentry < comp.key next ∨ comp.key transition = comp.key sentry) ∧
      findLocaltime data sentry comp = data.localtimes[transition.localtimeIdx]? := by
  by_cases hbefore : BeforeAll data comp (comp.key sentry)
  · exact .inl hbefore
  refine .inr ?_
  have hfront : data.transitions.head?.all (comp.less sentry) ≠ true := by
    intro hall
    refine hbefore fun transition hget => ?_
    rw [← List.head?_eq_getElem?] at hget
    simpa [hget, Comp.less] using hall
  have hspec := lowerBound_spec (comp.less · sentry) data.transitions
  unfold findLocaltime
  rw [if_neg hfront]
  -- from here on only what is known of the two elements at the result counts
  generalize lowerBound (comp.less · sentry) data.transitions = transI at hspec ⊢
  -- the element in front of the one that was found is before the sentry
  have hprevious : transI ≠ 0 → ∃ previous, data.transitions[transI - 1]? = some previous ∧
      comp.key previous < comp.key sentry := by
    intro hzero
    have hle := hspec.le_length
    have hlt : transI - 1 < data.transitions.length := by omega
    have hget := List.getElem?_eq_getElem hlt
    have hbelow := hspec.before (transI - 1) _ (by omega) hget
    exact ⟨_, hget, of_decide_eq_true hbelow⟩
  cases hget : data.transitions[transI]? with
  | some transition =>
      have hnot : ¬ comp.key transition < comp.key sentry :=
        of_decide_eq_false (hspec.behind transition hget)
      by_cases hequal : comp.key sentry = comp.key transition
      · refine ⟨transI, transition, hget, hequal.ge, fun _ _ => .inr hequal.symm, ?_⟩
        simp only [hget, Comp.equal, hequal, decide_true, if_true]
      · have hzero : transI ≠ 0 := by
          rintro rfl
          refine hbefore fun first hfirst => ?_
          rw [hget] at hfirst
          cases hfirst
          omega
        rcases hprevious hzero with ⟨previous, hprev, hlt⟩
        have hindex : transI - 1 + 1 = transI := by omega
        refine ⟨transI - 1, previous, hprev, hlt.le, fun next hnext => .inl ?_, ?_⟩
        -- what was found is the next one, and it is after the sentry
        · rw [hindex, hget] at hnext
          cases hnext
          omega
        · simp only [hget, Comp.equal, decide_eq_true_eq, if_neg hequal, if_neg hzero, hprev,
            Option.bind_some]
  | none =>
      -- all transitions are before the sentry, and the last one is taken
      have hend : data.transitions.length ≤ transI := List.getElem?_eq_none_iff.1 hget
      have hzero : transI ≠ 0 := by
        rintro rfl
        refine hbefore fun first hfirst => ?_
        rw [hget] at hfirst
        cases hfirst
      rcases hprevious hzero with ⟨previous, hprev, hlt⟩
      have hindex : transI - 1 + 1 = transI := by omega
      refine ⟨transI - 1, previous, hprev, hlt.le, fun next hnext => ?_, ?_⟩
      · rw [hindex, hget] at hnext
        cases hnext
      · have hlast : data.transitions.getLast? = some previous := by
          have hle := hspec.le_length
          have hlength : transI = data.transitions.length := by omega
          rw [List.getLast?_eq_getElem?, ← hlength, hprev]
        simp only [hget, hlast, Option.bind_some]

/-! ## Zones in order -/

/-- Each transition comes before the next one. -/
def Increasing (data : ZoneData) (comp : Comp) : Prop :=
  ∀ i transition next, data.transitions[i]? = some transition →
    data.transitions[i + 1]? = some next → comp.key transition < comp.key next

theorem Increasing.lt (h : Increasing data comp) {i j : Nat} {transition later : Transition}
    (hlt : i < j) (hget : data.transitions[i]? = some transition)
    (hlater : data.transitions[j]? = some later) : comp.key transition < comp.key later := by
  induction j, hlt using Nat.le_induction generalizing later with
  | base => exact h i transition later hget hlater
  | succ j _ ih =>
      have hlength := (List.getElem?_eq_some_iff.1 hlater).1
      have hmiddle := List.getElem?_eq_getElem (Nat.lt_of_succ_lt hlength)
      exact (ih hmiddle).trans (h j _ later hmiddle hlater)

/-- In an increasing zone what is before the first transition is before all of them. -/
theorem BeforeAll.lt {seconds : Int} {transition : Transition}
    (h : BeforeAll data comp seconds) (hinc : Increasing data comp)
    (hmem : transition ∈ data.transitions) : seconds < comp.key transition := by
  rcases List.getElem?_of_mem hmem with ⟨i, hget⟩
  have hlength := (List.getElem?_eq_some_iff.1 hget).1
  have hfirst := List.getElem?_eq_getElem (Nat.zero_lt_of_lt hlength)
  rcases Nat.eq_zero_or_pos i with rfl | hpos
  · exact h transition hget
  · exact (h _ hfirst).trans (hinc.lt hpos hfirst hget)

theorem findLocaltime_governs (h : Increasing data comp) (sentry : Transition) :
    BeforeAll data comp (comp.key sentry) ∨ ∃ i transition,
      Governs data comp (comp.key sentry) i transition ∧
      findLocaltime data sentry comp = data.localtimes[transition.localtimeIdx]? := by
  rcases findLocaltime_cases data sentry comp with hbefore | ⟨i, transition, hget, hle, hnext, heq⟩
  · exact .inl hbefore
  · refine .inr ⟨i, transition, ⟨hget, hle, fun next hget' => ?_⟩, heq⟩
    rcases hnext next hget' with hlt | hkey
    · exact hlt
    · exact hkey ▸ h i transition next hget hget'

namespace Governs

variable {seconds : Int} {i j : Nat} {transition later : Transition}

theorem lt_later (h : Governs data comp seconds i transition) (hinc : Increasing data comp)
    (hij : i < j) (hget : data.transitions[j]? = some later) : seconds < comp.key later := by
  have hlength := (List.getElem?_eq_some_iff.1 hget).1
  have hnext := List.getElem?_eq_getElem (show i + 1 < data.transitions.length by omega)
  have hafter := h.lt_next _ hnext
  rcases Nat.eq_or_lt_of_le (show i + 1 ≤ j by omega) with rfl | hlt
  · rwa [← Option.some.inj (hget.symm.trans hnext)] at hafter
  · exact hafter.trans (hinc.lt hlt hnext hget)

/-- The transition that governs is the last one that is not after the sentry. -/
theorem le_index (h : Governs data comp seconds i transition) (hinc : Increasing data comp)
    (hget : data.transitions[j]? = some later) (hle : comp.key later ≤ seconds) : j ≤ i := by
  by_contra hlt
  exact absurd hle (h.lt_later hinc (not_le.1 hlt) hget).not_ge

theorem not_beforeAll (h : Governs data comp seconds i transition)
    (hinc : Increasing data comp) : ¬ BeforeAll data comp seconds := by
  intro hbefore
  exact absurd h.le (hbefore.lt hinc (List.mem_of_getElem? h.get)).not_ge

theorem findLocaltime_eq (h : Governs data comp (comp.key sentry) i transition)
    (hinc : Increasing data comp) :
    findLocaltime data sentry comp = data.localtimes[transition.localtimeIdx]? := by
  rcases findLocaltime_governs hinc sentry with hbefore | ⟨j, found, hfound, heq⟩
  · exact absurd hbefore (h.not_beforeAll hinc)
  · have hij : j = i :=
      Nat.le_antisymm (h.le_index hinc hfound.get hfound.le) (hfound.le_index hinc h.get h.le)
    subst hij
    have hsame := hfound.get
    rw [h.get] at hsame
    cases hsame
    exact heq

end Governs

/-! ## Daylight saving time -/

/-- Transitions at least a day apart that go back and forth between daylight time and standard time,
the first one to daylight time. -/
structure Alternating (data : ZoneData) (standard : Int) : Prop where
  front : ∃ loc, data.localtimes.head? = some loc ∧ loc.gmtOffset = standard ∧ loc.isDst = false
  apart : ∀ i transition next, data.transitions[i]? = some transition →
    data.transitions[i + 1]? = some next → transition.gmttime + 86400 ≤ next.gmttime
  type : ∀ i transition, data.transitions[i]? = some transition →
    ∃ loc, data.localtimes[transition.localtimeIdx]? = some loc ∧
      transition.localtime = transition.gmttime + loc.gmtOffset ∧
      (i % 2 = 0 → loc.gmtOffset = standard + 3600 ∧ loc.isDst = true) ∧
      (i % 2 = 1 → loc.gmtOffset = standard ∧ loc.isDst = false)

/-- What the round trip needs of `gmtime_r` and `timegm`: the one undoes the other, and `timegm`
reads the date and the time of the day only. -/
structure MutuallyInverse (gmtime_r : Int → Tm) (timegm : Tm → Int) : Prop where
  timegm_gmtime_r : ∀ seconds, timegm (gmtime_r seconds) = seconds
  timegm_congr : ∀ tm tm' : Tm, tm.fields = tm'.fields → timegm tm = timegm tm'

namespace Alternating

variable {standard : Int}

theorem increasing (h : Alternating data standard) (comp : Comp) : Increasing data comp := by
  intro i transition next hget hnext
  have hapart := h.apart i transition next hget hnext
  rcases h.type i transition hget with ⟨loc, -, hlocal, hdst, hstd⟩
  rcases h.type (i + 1) next hnext with ⟨loc', -, hlocal', hdst', hstd'⟩
  unfold Comp.key
  split_ifs
  · omega
  -- the way back to standard time takes an hour off, of a day at least
  · rcases Nat.mod_two_eq_zero_or_one i with heven | hodd
    · have hoffset := (hdst heven).1
      have hoffset' := (hstd' (by omega)).1
      omega
    · have hoffset := (hstd hodd).1
      have hoffset' := (hdst' (by omega)).1
      omega

end Alternating

/-! ## The round trip -/

section RoundTrip

variable {gmtime_r : Int → Tm} {timegm : Tm → Int} {standard : Int}

/-- The local time of `seconds` where `loc` is in force. -/
def localTm (gmtime_r : Int → Tm) (data : ZoneData) (seconds : Int) (loc : Localtime) : Tm :=
  { gmtime_r (seconds + loc.gmtOffset) with
    tm_isdst := if loc.isDst then 1 else 0, tm_gmtoff := loc.gmtOffset,
    tm_zone := some (Bytes.cStr (data.abbreviation.drop loc.arrbIdx)) }

theorem toLocalTime_eq {seconds : Int} {loc : Localtime}
    (h : findLocaltime data ⟨seconds, 0, 0⟩ ⟨true⟩ = some loc) :
    TimeZone.toLocalTime gmtime_r ⟨some data⟩ seconds =
      some (localTm gmtime_r data seconds loc) := by
  simp only [TimeZone.toLocalTime, h, Option.bind_eq_bind, Option.bind_some]
  rfl

theorem timegm_localTm (hinv : MutuallyInverse gmtime_r timegm) (seconds : Int)
    (loc : Localtime) : timegm (localTm gmtime_r data seconds loc) = seconds + loc.gmtOffset := by
  calc timegm (localTm gmtime_r data seconds loc)
      = timegm (gmtime_r (seconds + loc.gmtOffset)) := hinv.timegm_congr _ _ rfl
    _ = seconds + loc.gmtOffset := hinv.timegm_gmtime_r _

/-- Local time and back. -/
def RoundTrips (gmtime_r : Int → Tm) (timegm : Tm → Int) (data : ZoneData) (seconds : Int) : Prop :=
  ∃ tm, TimeZone.toLocalTime gmtime_r ⟨some data⟩ seconds = some tm ∧
    TimeZone.fromLocalTime gmtime_r timegm ⟨some data⟩ tm = some seconds

/-- Where the search by local time finds what was in force, the offset is taken off again. -/
theorem fromLocalTime_same (hinv : MutuallyInverse gmtime_r timegm) {seconds : Int}
    {loc : Localtime} (hgmt : findLocaltime data ⟨seconds, 0, 0⟩ ⟨true⟩ = some loc)
    (hlocal : findLocaltime data ⟨0, seconds + loc.gmtOffset, 0⟩ ⟨false⟩ = some loc) :
    TimeZone.fromLocalTime gmtime_r timegm ⟨some data⟩ (localTm gmtime_r data seconds loc) =
      some seconds := by
  have hback : seconds + loc.gmtOffset - loc.gmtOffset = seconds := by ring
  simp only [TimeZone.fromLocalTime, Option.bind_eq_bind, Option.bind_some,
    timegm_localTm hinv, hlocal, hback, toLocalTime_eq hgmt]
  cases hdst : loc.isDst with
  | true =>
      -- the time that is tried is the same one, which is not standard time
      simp [localTm, hdst]
  | false => simp [localTm, hdst]

/-- In the second half of the repeated local times the search finds standard time, and the time that
is tried is an hour late. -/
theorem fromLocalTime_repeated (hinv : MutuallyInverse gmtime_r timegm) {seconds : Int}
    {loc loc' : Localtime}
    (hlocal : findLocaltime data ⟨0, seconds + loc.gmtOffset, 0⟩ ⟨false⟩ = some loc')
    (hgmt : findLocaltime data ⟨seconds + 3600, 0, 0⟩ ⟨true⟩ = some loc')
    (hdst : loc.isDst = true) (hstd : loc'.isDst = false)
    (hoffset : loc.gmtOffset = loc'.gmtOffset + 3600) :
    TimeZone.fromLocalTime gmtime_r timegm ⟨some data⟩ (localTm gmtime_r data seconds loc) =
      some seconds := by
  have htry : seconds + loc.gmtOffset - loc'.gmtOffset = seconds + 3600 := by
    rw [hoffset]
    ring
  have hsame : seconds + 3600 + loc'.gmtOffset = seconds + loc.gmtOffset := by
    rw [hoffset]
    ring
  have hback : seconds + loc.gmtOffset - 3600 - loc'.gmtOffset = seconds := by
    rw [hoffset]
    ring
  simp only [TimeZone.fromLocalTime, Option.bind_eq_bind, Option.bind_some,
    timegm_localTm hinv, hlocal, htry, toLocalTime_eq hgmt]
  simp [localTm, hdst, hstd, hsame, hback]

namespace Alternating

/-- The search by UTC. -/
theorem find_gmt (h : Alternating data standard) {seconds : Int} {i : Nat}
    {transition : Transition} {loc : Localtime}
    (hgoverns : Governs data ⟨true⟩ seconds i transition)
    (hloc : data.localtimes[transition.localtimeIdx]? = some loc) :
    findLocaltime data ⟨seconds, 0, 0⟩ ⟨true⟩ = some loc := by
  have hsentry : Governs data ⟨true⟩ (Comp.key ⟨true⟩ ⟨seconds, 0, 0⟩) i transition := hgoverns
  exact (hsentry.findLocaltime_eq (h.increasing _)).trans hloc

/-- The search by local time. -/
theorem find_local (h : Alternating data standard) {seconds : Int} {i : Nat}
    {transition : Transition} {loc : Localtime}
    (hgoverns : Governs data ⟨false⟩ seconds i transition)
    (hloc : data.localtimes[transition.localtimeIdx]? = some loc) :
    findLocaltime data ⟨0, seconds, 0⟩ ⟨false⟩ = some loc := by
  have hsentry : Governs data ⟨false⟩ (Comp.key ⟨false⟩ ⟨0, seconds, 0⟩) i transition := hgoverns
  exact (hsentry.findLocaltime_eq (h.increasing _)).trans hloc

/-- Before the first transition. -/
theorem fromLocalTime_beforeAll (h : Alternating data standard)
    (hinv : MutuallyInverse gmtime_r timegm) {seconds : Int}
    (hbefore : BeforeAll data ⟨true⟩ seconds) :
    RoundTrips gmtime_r timegm data seconds := by
  rcases h.front with ⟨loc, hfront, hoffset, -⟩
  have hgmt : findLocaltime data ⟨seconds, 0, 0⟩ ⟨true⟩ = some loc :=
    (findLocaltime_beforeAll hbefore).trans hfront
  have hbefore' : BeforeAll data ⟨false⟩ (seconds + loc.gmtOffset) := by
    intro transition hget
    -- the first transition is to daylight time, so its local time is later than in standard time
    have hlt : seconds < transition.gmttime := hbefore transition hget
    rcases h.type 0 transition hget with ⟨loc', -, hlocal, hdst, -⟩
    have hoffset' := (hdst rfl).1
    change seconds + loc.gmtOffset < transition.localtime
    omega
  have hlocal : findLocaltime data ⟨0, seconds + loc.gmtOffset, 0⟩ ⟨false⟩ = some loc :=
    (findLocaltime_beforeAll hbefore').trans hfront
  exact ⟨_, toLocalTime_eq hgmt, fromLocalTime_same hinv hgmt hlocal⟩

/-- Standard time after a transition. -/
theorem fromLocalTime_standard (h : Alternating data standard)
    (hinv : MutuallyInverse gmtime_r timegm) {seconds : Int} {i : Nat} {transition : Transition}
    (hgoverns : Governs data ⟨true⟩ seconds i transition) (hodd : i % 2 = 1) :
    RoundTrips gmtime_r timegm data seconds := by
  rcases h.type i transition hgoverns.get with ⟨loc, hloc, hlocaltime, -, hstd⟩
  have hoffset := (hstd hodd).1
  have hle : transition.gmttime ≤ seconds := hgoverns.le
  have hgoverns' : Governs data ⟨false⟩ (seconds + loc.gmtOffset) i transition := by
    refine ⟨hgoverns.get, ?_, ?_⟩
    · change transition.localtime ≤ seconds + loc.gmtOffset
      omega
    · -- the next transition is to daylight time: its local time is an hour further away
      intro next hnext
      have hlt : seconds < next.gmttime := hgoverns.lt_next next hnext
      rcases h.type (i + 1) next hnext with ⟨loc', -, hlocaltime', hdst', -⟩
      have hoffset' := (hdst' (by omega)).1
      change seconds + loc.gmtOffset < next.localtime
      omega
  have hgmt := h.find_gmt hgoverns hloc
  exact ⟨_, toLocalTime_eq hgmt, fromLocalTime_same hinv hgmt (h.find_local hgoverns' hloc)⟩

/-- Daylight time after a transition. -/
theorem fromLocalTime_daylight (h : Alternating data standard)
    (hinv : MutuallyInverse gmtime_r timegm) {seconds : Int} {i : Nat} {transition : Transition}
    (hgoverns : Governs data ⟨true⟩ seconds i transition) (heven : i % 2 = 0) :
    RoundTrips gmtime_r timegm data seconds := by
  rcases h.type i transition hgoverns.get with ⟨loc, hloc, hlocaltime, hdst, -⟩
  rcases hdst heven with ⟨hoffset, hisDst⟩
  have hle : transition.gmttime ≤ seconds := hgoverns.le
  have hgmt := h.find_gmt hgoverns hloc
  refine ⟨_, toLocalTime_eq hgmt, ?_⟩
  by_cases hrepeated : ∃ next, data.transitions[i + 1]? = some next ∧
      next.localtime ≤ seconds + loc.gmtOffset
  · -- the local time comes again in standard time, and is the next transition's
    rcases hrepeated with ⟨next, hnext, hlate⟩
    have hlt : seconds < next.gmttime := hgoverns.lt_next next hnext
    rcases h.type (i + 1) next hnext with ⟨loc', hloc', hlocaltime', -, hstd'⟩
    rcases hstd' (by omega) with ⟨hoffset', hisDst'⟩
    have hlocal : Governs data ⟨false⟩ (seconds + loc.gmtOffset) (i + 1) next := by
      refine ⟨hnext, hlate, fun later hlater => ?_⟩
      have hapart := h.apart (i + 1) next later hnext hlater
      rcases h.type (i + 2) later hlater with ⟨loc'', -, hlocaltime'', hdst'', -⟩
      have hoffset'' := (hdst'' (by omega)).1
      change seconds + loc.gmtOffset < later.localtime
      omega
    have htry : Governs data ⟨true⟩ (seconds + 3600) (i + 1) next := by
      refine ⟨hnext, ?_, fun later hlater => ?_⟩
      · change next.gmttime ≤ seconds + 3600
        omega
      · have hapart := h.apart (i + 1) next later hnext hlater
        change seconds + 3600 < later.gmttime
        omega
    exact fromLocalTime_repeated hinv (h.find_local hlocal hloc') (h.find_gmt htry hloc') hisDst
      hisDst' (by omega)
  -- the local time is before the one of the next transition, if there is one
  · have hlocal : Governs data ⟨false⟩ (seconds + loc.gmtOffset) i transition := by
      refine ⟨hgoverns.get, ?_, fun next hnext => ?_⟩
      · change transition.localtime ≤ seconds + loc.gmtOffset
        omega
      · exact lt_of_not_ge fun hle => hrepeated ⟨next, hnext, hle⟩
    exact fromLocalTime_same hinv hgmt (h.find_local hlocal hloc)

end Alternating

theorem localTime_roundTrip (hinv : MutuallyInverse gmtime_r timegm)
    (hzone : Alternating data standard) (seconds : Int) :
    ∃ tm, TimeZone.toLocalTime gmtime_r ⟨some data⟩ seconds = some tm ∧
      TimeZone.fromLocalTime gmtime_r timegm ⟨some data⟩ tm = some seconds := by
  rcases findLocaltime_governs (hzone.increasing ⟨true⟩) ⟨seconds, 0, 0⟩ with
    hbefore | ⟨i, transition, hgoverns, -⟩
  · exact hzone.fromLocalTime_beforeAll hinv hbefore
  · rcases Nat.mod_two_eq_zero_or_one i with heven | hodd
    · exact hzone.fromLocalTime_daylight hinv hgoverns heven
    · exact hzone.fromLocalTime_standard hinv hgoverns hodd

/-! ## A zone of the year 2010 -/

theorem mutuallyInverse_gmtime : MutuallyInverse TimeZone.gmtime TimeZone.timegm where
  timegm_gmtime_r := TimeZone.timegm_gmtime
  timegm_congr := by
    intro tm tm' h
    simp only [Tm.fields, List.cons.injEq, and_true] at h
    rcases h with ⟨hyear, hmon, hmday, hhour, hmin, hsec⟩
    simp only [TimeZone.timegm, hyear, hmon, hmday, hhour, hmin, hsec]

/-- Central European time, from the end of March to the end of October. -/
def cet2010 : ZoneData where
  transitions := [⟨1269738000, 1269745200, 1⟩, ⟨1288486800, 1288490400, 0⟩]
  localtimes := [⟨3600, false, 0⟩, ⟨7200, true, 4⟩]
  abbreviation := Bytes.ofString "CET" ++ [0] ++ Bytes.ofString "CEST" ++ [0]

theorem cet2010_alternating : Alternating cet2010 3600 where
  front := ⟨_, rfl, rfl, rfl⟩
  apart := by
    intro i transition next hget hnext
    match i with
    | 0 =>
        cases hget
        cases hnext
        decide
    | 1 => cases hnext
    | i + 2 => cases hget
  type := by
    intro i transition hget
    match i with
    | 0 =>
        cases hget
        exact ⟨_, rfl, rfl, fun _ => ⟨rfl, rfl⟩, fun h => absurd h (by decide)⟩
    | 1 =>
        cases hget
        exact ⟨_, rfl, rfl, fun h => absurd h (by decide), fun _ => ⟨rfl, rfl⟩⟩
    | i + 2 => cases hget

/-- Half past two on the 31st of October, the first time. -/
theorem localTime_roundTrip_cet2010 :
    ∃ tm, TimeZone.toLocalTime TimeZone.gmtime ⟨some cet2010⟩ 1288485000 = some tm ∧
      TimeZone.fromLocalTime TimeZone.gmtime TimeZone.timegm ⟨some cet2010⟩ tm =
        some 1288485000 :=
  localTime_roundTrip mutuallyInverse_gmtime cet2010_alternating 1288485000

end RoundTrip

/-! ## The type in force -/

/-- A zone that can be searched by `comp`. -/
structure Searchable (data : ZoneData) (comp : Comp) : Prop where
  front : data.localtimes ≠ []
  index : ∀ transition ∈ data.transitions, transition.localtimeIdx < data.localtimes.length
  sorted : Increasing data comp

/-- The type of the last transition that is not after `seconds`, or the first type. -/
inductive InForce (data : ZoneData) (comp : Comp) (seconds : Int) (loc : Localtime) : Prop
  | front (later : ∀ transition ∈ data.transitions, seconds < comp.key transition)
      (type : data.localtimes.head? = some loc)
  | last (i : Nat) (transition : Transition) (get : data.transitions[i]? = some transition)
      (le : comp.key transition ≤ seconds)
      (later : ∀ j later, i < j → data.transitions[j]? = some later → seconds < comp.key later)
      (type : data.localtimes[transition.localtimeIdx]? = some loc)

/-- The same by a scan of all transitions. -/
def scanLocaltime (data : ZoneData) (sentry : Transition) (comp : Comp) : Option Localtime :=
  scanLast (fun transition => comp.key transition ≤ comp.key sentry)
    (fun transition => data.localtimes[transition.localtimeIdx]?) data.localtimes.head?
    data.transitions

/-- What `assert(transI != data.transitions.begin())` says, where it is reached. -/
def BeginAssertion (data : ZoneData) (sentry : Transition) (comp : Comp) : Prop :=
  data.transitions.head?.all (comp.less sentry) = false →
    ∀ transition, data.transitions[lowerBound (comp.less · sentry) data.transitions]? =
        some transition → comp.equal sentry transition = false →
      lowerBound (comp.less · sentry) data.transitions ≠ 0

theorem beginAssertion_of_isSome {loc : Localtime} (h : findLocaltime data sentry comp = some loc) :
    BeginAssertion data sentry comp := by
  intro hfront transition hget hequal hzero
  -- where the assertion fails nothing is returned
  have hnone : findLocaltime data sentry comp = none := by
    unfold findLocaltime
    simp only [hfront, Bool.false_eq_true, if_false, hget, hequal, if_pos hzero]
  rw [hnone] at h
  cases h

theorem InForce.scanLocaltime_eq {loc : Localtime} (h : InForce data comp (comp.key sentry) loc) :
    scanLocaltime data sentry comp = some loc := by
  cases h with
  | front later type =>
      have hnone : ∀ transition ∈ data.transitions,
          decide (comp.key transition ≤ comp.key sentry) = false :=
        fun transition hmem => decide_eq_false (later transition hmem).not_ge
      calc scanLocaltime data sentry comp
          = data.localtimes.head? := scanLast_of_forall_not hnone _
        _ = some loc := type
  | last i transition get le later type =>
      have hlater : ∀ j next, i < j → data.transitions[j]? = some next →
          decide (comp.key next ≤ comp.key sentry) = false :=
        fun j next hij hget => decide_eq_false (later j next hij hget).not_ge
      calc scanLocaltime data sentry comp
          = data.localtimes[transition.localtimeIdx]? :=
            scanLast_eq get (decide_eq_true le) hlater _
        _ = some loc := type

theorem findLocaltime_inForce (h : Searchable data comp) (sentry : Transition) :
    ∃ loc, findLocaltime data sentry comp = some loc ∧ InForce data comp (comp.key sentry) loc ∧
      scanLocaltime data sentry comp = some loc ∧ BeginAssertion data sentry comp := by
  have hfound : ∃ loc, findLocaltime data sentry comp = some loc ∧
      InForce data comp (comp.key sentry) loc := by
    rcases findLocaltime_governs h.sorted sentry with hbefore | ⟨i, transition, hgoverns, heq⟩
    · have hhead := List.head?_eq_some_head h.front
      exact ⟨_, (findLocaltime_beforeAll hbefore).trans hhead,
        .front (fun _ hmem => hbefore.lt h.sorted hmem) hhead⟩
    · have hindex := h.index transition (List.mem_of_getElem? hgoverns.get)
      have htype := List.getElem?_eq_getElem hindex
      exact ⟨_, heq.trans htype, .last i transition hgoverns.get hgoverns.le
        (fun _ _ hij hget => hgoverns.lt_later h.sorted hij hget) htype⟩
  rcases hfound with ⟨loc, hloc, hforce⟩
  exact ⟨loc, hloc, hforce, hforce.scanLocaltime_eq, beginAssertion_of_isSome hloc⟩

theorem cet2010_searchable (comp : Comp) : Searchable cet2010 comp where
  front := List.cons_ne_nil _ _
  index := by decide
  sorted := cet2010_alternating.increasing comp

/-- The second in which the clocks go back. -/
theorem findLocaltime_inForce_cet2010 :
    ∃ loc, findLocaltime cet2010 ⟨1288486800, 0, 0⟩ ⟨true⟩ = some loc ∧
      InForce cet2010 ⟨true⟩ 1288486800 loc ∧
      scanLocaltime cet2010 ⟨1288486800, 0, 0⟩ ⟨true⟩ = some loc ∧
      BeginAssertion cet2010 ⟨1288486800, 0, 0⟩ ⟨true⟩ :=
  findLocaltime_inForce (cet2010_searchable ⟨true⟩) ⟨1288486800, 0, 0⟩

end Base
end Longky
