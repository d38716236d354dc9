import AckerDB.Lib.Run

/-!
# Cron occurrences

The search of `cronNext` over the wall clock of a timezone, which jumps to the next local midnight
or hour by the distance that the clock shows before the jump.

* `FindsNext` — the result is the least occurrence, and none is missed in the window;
* `findsNext_iff` — this is so when no jump passes an occurrence that lies behind a change of the
  offset;
* `tuples_distinct` — iterated calls repeat no wall-clock time as long as no later match falls
  back to the last occurrence.
-/

namespace AckerDB.Cron

/-! ## The wall clock -/

structure WallClock where
  year : Int
  month : Int
  day : Int
  hour : Int
  minute : Int
  weekday : Int

/-- The Gregorian year of a day counted from 1970-01-01 and the day in it, both from 1 March. -/
def yearOf (date : Int) : Int × Int :=
  let days := date + 719468
  let century := min (days % 146097 / 36524) 3
  let rest := days % 146097 - century * 36524
  let year := min (rest % 1461 / 365) 3
  (days / 146097 * 400 + century * 100 + rest / 1461 * 4 + year, rest % 1461 - year * 365)

/-- The year, the month and the day. -/
def civil (date : Int) : Int × Int × Int :=
  let (year, dayOfYear) := yearOf date
  let month := (5 * dayOfYear + 2) / 153
  let day := dayOfYear - (153 * month + 2) / 5 + 1
  if month < 10 then (year, month + 3, day) else (year + 1, month - 9, day)

/-- The offset of local time in minutes, at every instant. -/
abbrev Zone := Int → Int

def MINUTE_MS : Int := 60000

def localMinute (tz : Zone) (timestamp : Int) : Int := timestamp / MINUTE_MS + tz timestamp

/-- What a clock shows at a minute of local time. -/
def clockOf (minute : Int) : WallClock :=
  let (year, month, day) := civil (minute / 1440)
  { year, month, day, hour := minute / 60 % 24, minute := minute % 60,
    weekday := (minute / 1440 + 4) % 7 }

def wallClockAt (timestamp : Int) (tz : Zone) : WallClock := clockOf (localMinute tz timestamp)

/-- `repeatedWallTuple`. -/
def WallClock.sameTuple (clock other : WallClock) : Bool :=
  clock.year == other.year && clock.month == other.month && clock.day == other.day &&
    clock.hour == other.hour && clock.minute == other.minute

/-! ## The search -/

structure CronField where
  values : List Int
  any : Bool

structure CronExpression where
  minute : CronField
  hour : CronField
  dayOfMonth : CronField
  month : CronField
  dayOfWeek : CronField

def CronField.admits (field : CronField) (value : Int) : Bool :=
  field.any || field.values.contains value

variable (e : CronExpression) (tz : Zone) (after : Int)

def matchesDay (clock : WallClock) : Bool :=
  let domMatches := e.dayOfMonth.admits clock.day
  let dowMatches := e.dayOfWeek.admits clock.weekday
  -- when both fields are restricted, either may match
  if !e.dayOfMonth.any && !e.dayOfWeek.any then domMatches || dowMatches
  else domMatches && dowMatches

def matchesClock (clock : WallClock) : Bool :=
  e.minute.admits clock.minute && e.hour.admits clock.hour && e.month.admits clock.month &&
    matchesDay e clock

/-- How far the loop goes on from a minute that it does not return. -/
def advance (clock : WallClock) : Int :=
  if matchesClock e clock then MINUTE_MS
  else if !e.month.admits clock.month || !matchesDay e clock then
    (24 * 60 - (clock.hour * 60 + clock.minute)) * MINUTE_MS
  else if !e.hour.admits clock.hour then (60 - clock.minute) * MINUTE_MS
  else MINUTE_MS

def start : Int := (after / MINUTE_MS + 1) * MINUTE_MS

def limit : Int := start after + 4 * 366 * 24 * 60 * MINUTE_MS

/-- The loop returns the minute. -/
def hits (timestamp : Int) : Bool :=
  matchesClock e (wallClockAt timestamp tz) &&
    !(wallClockAt timestamp tz).sameTuple (wallClockAt after tz)

/-- The loop of `cronNext`, with a bound on its rounds. -/
def search : Nat → Int → Option Int
  | 0, _ => none
  | fuel + 1, timestamp =>
    if timestamp < limit after then
      if hits e tz after timestamp then some timestamp
      else search fuel (timestamp + advance e (wallClockAt timestamp tz))
    else none

/-- Every round goes on by a minute at least, so these rounds are enough. -/
def rounds : Nat := 4 * 366 * 24 * 60

def cronNext : Option Int := search e tz after rounds (start after)

/-! ## What is to be found -/

/-- A whole minute later than `after` that matches at another wall-clock time. -/
def Occurs (timestamp : Int) : Prop :=
  MINUTE_MS ∣ timestamp ∧ after < timestamp ∧ hits e tz after timestamp = true

/-- `cronNext` returns the next occurrence, and nothing only if the window holds none. -/
def FindsNext : Prop :=
  match cronNext e tz after with
  | some timestamp => IsLeast {t | Occurs e tz after t} timestamp
  | none => ∀ t < limit after, ¬ Occurs e tz after t

/-- The minutes that the loop looks at and does not return. -/
def probes : Nat → Int → List Int
  | 0, _ => []
  | fuel + 1, timestamp =>
    if timestamp < limit after ∧ hits e tz after timestamp = false then
      timestamp :: probes fuel (timestamp + advance e (wallClockAt timestamp tz))
    else []

/-- No jump from the minute passes an occurrence at another offset. -/
def JumpsClear (timestamp : Int) : Prop :=
  ∀ t, timestamp < t → t < timestamp + advance e (wallClockAt timestamp tz) → t < limit after →
    tz t ≠ tz timestamp → ¬ Occurs e tz after t

variable {e tz after}

theorem minute_le_advance (minute : Int) : MINUTE_MS ≤ advance e (clockOf minute) := by
  unfold advance
  simp only [MINUTE_MS, clockOf]
  split_ifs <;> omega

theorem dvd_advance (clock : WallClock) : MINUTE_MS ∣ advance e clock := by
  unfold advance
  split_ifs <;> simp

/-- **With one offset, a jump passes no match**: it stays within the day or the hour. -/
theorem not_matches_of_jump {minute later : Int} (hlater : minute < later)
    (hjump : (later - minute) * MINUTE_MS < advance e (clockOf minute)) :
    matchesClock e (clockOf later) = false := by
  unfold advance at hjump
  simp only [MINUTE_MS] at hjump
  split_ifs at hjump with hmatch hday hhour
  · omega
  · have hdate : later / 1440 = minute / 1440 := by
      simp only [clockOf] at hjump
      omega
    have hsame : matchesDay e (clockOf later) = matchesDay e (clockOf minute) ∧
        (clockOf later).month = (clockOf minute).month := by
      simp only [matchesDay, clockOf, hdate, and_self]
    simp only [matchesClock, hsame]
    revert hday
    cases e.month.admits (clockOf minute).month <;> cases matchesDay e (clockOf minute) <;> simp
  · have hsame : (clockOf later).hour = (clockOf minute).hour := by
      simp only [clockOf] at hjump ⊢
      omega
    rw [matchesClock, hsame]
    simp_all
  · omega

theorem Occurs.not_of_jump {timestamp t : Int} (hwhole : MINUTE_MS ∣ timestamp)
    (hlater : timestamp < t) (hjump : t < timestamp + advance e (wallClockAt timestamp tz))
    (hoffset : tz t = tz timestamp) : ¬ Occurs e tz after t := by
  rintro ⟨hminute, -, hhits⟩
  have hmatch : matchesClock e (wallClockAt t tz) = false := by
    refine @not_matches_of_jump e (localMinute tz timestamp) _ ?_ (lt_of_le_of_lt ?_
      (sub_left_lt_of_lt_add hjump)) <;>
      simp only [localMinute, MINUTE_MS, hoffset] at hwhole hminute ⊢ <;> omega
  simp [hits, hmatch] at hhits

/-! ## The loop -/

theorem search_eq_some {fuel : Nat} {timestamp next : Int} (hwhole : MINUTE_MS ∣ timestamp)
    (h : search e tz after fuel timestamp = some next) :
    timestamp ≤ next ∧ next < limit after ∧ MINUTE_MS ∣ next ∧ hits e tz after next = true := by
  induction fuel generalizing timestamp with
  | zero => cases h
  | succ fuel ih =>
    rw [search] at h
    split_ifs at h with hwindow hhits
    · cases h
      exact ⟨le_rfl, hwindow, hwhole, hhits⟩
    obtain ⟨hle, hnext⟩ := ih (dvd_add hwhole (dvd_advance _)) h
    have hadvance := @minute_le_advance e (localMinute tz timestamp)
    unfold wallClockAt at hle
    exact ⟨by unfold MINUTE_MS at hadvance; omega, hnext⟩

theorem stop_mem {fuel : Nat} {timestamp : Int} (hwhole : MINUTE_MS ∣ timestamp) :
    (search e tz after fuel timestamp).getD (limit after) ∈
      Set.Icc (min timestamp (limit after)) (limit after) := by
  cases hsearch : search e tz after fuel timestamp with
  | none => simp
  | some next =>
    obtain ⟨hle, hlimit, -⟩ := search_eq_some hwhole hsearch
    exact ⟨min_le_of_left_le hle, hlimit.le⟩

/-- **The loop passes no occurrence** exactly if its jumps over a change of the offset do not. -/
theorem search_passes_iff {fuel : Nat} {timestamp : Int} (hwhole : MINUTE_MS ∣ timestamp)
    (hfuel : limit after ≤ timestamp + fuel * MINUTE_MS) :
    (∀ t, timestamp ≤ t → t < (search e tz after fuel timestamp).getD (limit after) →
      ¬ Occurs e tz after t) ↔
    ∀ probe ∈ probes e tz after fuel timestamp, JumpsClear e tz after probe := by
  induction fuel generalizing timestamp with
  | zero =>
    refine iff_of_true (fun t hle hlt => ?_) (by simp [probes])
    rw [search, Option.getD_none] at hlt
    omega
  | succ fuel ih =>
    rw [probes]
    split_ifs with hgo
    swap
    · have hstop : (search e tz after (fuel + 1) timestamp).getD (limit after) ≤ timestamp := by
        rw [search]
        split_ifs with hwindow hhits
        · exact le_rfl
        · exact absurd ⟨hwindow, by simpa using hhits⟩ hgo
        · simpa using hwindow
      exact iff_of_true (fun t hle hlt => by omega) (by simp)
    have hadvance := @minute_le_advance e (localMinute tz timestamp)
    have hnext := dvd_add hwhole (dvd_advance (e := e) (wallClockAt timestamp tz))
    have hstop := @stop_mem e tz after fuel _ hnext
    rw [search, if_pos hgo.1, if_neg (by simp [hgo.2]), List.forall_mem_cons, ← ih hnext]
    · constructor
      · intro h
        refine ⟨fun t hlater hjump hwindow _ => h t hlater.le ?_, fun t hle => h t ?_⟩
        · exact (lt_min hjump hwindow).trans_le hstop.1
        · unfold wallClockAt MINUTE_MS at *
          omega
      · rintro ⟨hclear, hrest⟩ t hle hlt
        rcases lt_or_ge t (timestamp + advance e (wallClockAt timestamp tz)) with hjump | hpast
        swap
        · exact hrest t hpast hlt
        rcases hle.eq_or_lt with rfl | hlater
        · exact fun hoccurs => absurd hoccurs.2.2 (by simp [hgo.2])
        by_cases hoffset : tz t = tz timestamp
        · exact Occurs.not_of_jump hwhole hlater hjump hoffset
        · exact hclear t hlater hjump (hlt.trans_le hstop.2) hoffset
    · unfold wallClockAt MINUTE_MS at *
      omega

theorem occurs_of_cronNext {next : Int} (h : cronNext e tz after = some next) :
    Occurs e tz after next := by
  obtain ⟨hle, -, hminute, hhits⟩ := search_eq_some (dvd_mul_left _ _) h
  refine ⟨hminute, ?_, hhits⟩
  unfold MINUTE_MS at hle
  omega

/-- Mondays at midnight. -/
def mondays : CronExpression :=
  ⟨⟨[0], false⟩, ⟨[0], false⟩, ⟨[], true⟩, ⟨[], true⟩, ⟨[1], false⟩⟩

/-- The clocks of New York go forward on 8 March 2026 at 07:00 UTC. -/
def forward : Zone := fun t => if t < 1772953200000 then -300 else -240

theorem yearOf_eq (date : Int) : ∃ cycle century quad year : Int,
    (0 ≤ century ∧ century ≤ 3) ∧ (0 ≤ quad ∧ quad ≤ 24) ∧ (0 ≤ year ∧ year ≤ 3) ∧
    (0 ≤ (yearOf date).2 ∧ (yearOf date).2 ≤ 365) ∧
    (yearOf date).1 = cycle * 400 + century * 100 + quad * 4 + year ∧
    date + 719468 =
      cycle * 146097 + century * 36524 + quad * 1461 + year * 365 + (yearOf date).2 := by
  simp only [yearOf]
  refine ⟨_, _, _, _, ?_, ?_, ?_, ?_, rfl, ?_⟩ <;> omega

theorem civil_injective {date other : Int} (h : civil date = civil other) : date = other := by
  obtain ⟨cycle, century, quad, year, hcentury, hquad, hyear, hday, hsum, hdate⟩ := yearOf_eq date
  obtain ⟨cycle', century', quad', year', hcentury', hquad', hyear', hday', hsum', hother⟩ :=
    yearOf_eq other
  have hsame : (yearOf date).1 = (yearOf other).1 ∧ (yearOf date).2 = (yearOf other).2 := by
    clear hsum hsum' hdate hother
    simp only [civil] at h
    split_ifs at h <;> simp only [Prod.mk.injEq] at h <;> omega
  have hcycle : cycle = cycle' := by omega
  have hcenturies : century = century' := by omega
  omega

theorem WallClock.sameTuple_iff {minute other : Int} :
    (clockOf minute).sameTuple (clockOf other) = true ↔ minute = other := by
  refine ⟨fun h => ?_, fun h => by simp [h, sameTuple]⟩
  simp only [sameTuple, clockOf, Bool.and_eq_true, beq_iff_eq] at h
  obtain ⟨⟨⟨⟨hyear, hmonth⟩, hday⟩, hhour⟩, hminute⟩ := h
  have hdate := civil_injective (Prod.ext hyear (Prod.ext hmonth hday))
  omega

/-- One more call, at the last occurrence or later. -/
def fire (e : CronExpression) (tz : Zone) (fired : List Int) (after : Int) : Option (List Int) :=
  if fired.head?.all (· ≤ after) then (cronNext e tz after).map (· :: fired) else none

/-- The wall clock of what may fire next is past that of the last occurrence. -/
def Ahead (e : CronExpression) (tz : Zone) (fired : List Int) (after : Int) : Prop :=
  ∀ last ∈ fired.head?, ∀ t, Occurs e tz after t → localMinute tz last < localMinute tz t

/-- **No wall-clock time fires twice** as long as the clock does not fall back on a match. -/
theorem wall_tuples_distinct {fired : List Int}
    (h : Run.Reachable (fire e tz) (Ahead e tz) [] fired) :
    fired.Pairwise fun later earlier =>
      (wallClockAt later tz).sameTuple (wallClockAt earlier tz) = false := by
  have hlocal : fired.Pairwise fun later earlier =>
      localMinute tz earlier < localMinute tz later := by
    refine h.induct .nil fun fired after _ _ hfired hahead hfire => ?_
    unfold fire at hfire
    split_ifs at hfire
    obtain ⟨next, hnext, rfl⟩ := Option.map_eq_some_iff.1 hfire
    refine List.pairwise_cons.2 ⟨fun earlier hearlier => ?_, hfired⟩
    have hoccurs := occurs_of_cronNext hnext
    cases hfired with
    | nil => cases hearlier
    | cons hlast _ =>
      have hnow := hahead _ rfl next hoccurs
      rcases List.mem_cons.1 hearlier with rfl | hearlier
      · exact hnow
      · exact (hlast earlier hearlier).trans hnow
  refine hlocal.imp fun hlt => Bool.eq_false_iff.2 fun hsame => ?_
  exact hlt.ne' (WallClock.sameTuple_iff.1 hsame)

theorem wall_tuples_distinct_mondays :
    fire mondays forward [1773633600000] 1773633600000 = some [1774238400000, 1773633600000] ∧
      (wallClockAt 1774238400000 forward).sameTuple (wallClockAt 1773633600000 forward) =
        false := by
  have hfirst : fire mondays forward [] 1772946000000 = some [1773633600000] := by decide +kernel
  have hsecond : fire mondays forward [1773633600000] 1773633600000 =
      some [1774238400000, 1773633600000] := by decide +kernel
  have hahead : Ahead mondays forward [1773633600000] 1773633600000 := by
    rintro last ⟨⟩ t ⟨hminute, hlater, -⟩
    unfold localMinute forward MINUTE_MS at *
    split_ifs <;> omega
  have hdistinct := wall_tuples_distinct <|
    (Run.Reachable.refl.step nofun hfirst).step hahead hsecond
  exact ⟨hsecond, List.rel_of_pairwise_cons hdistinct List.mem_cons_self⟩

/-- At one and at half past one. -/
def halfHours : CronExpression :=
  ⟨⟨[0, 30], false⟩, ⟨[1], false⟩, ⟨[], true⟩, ⟨[], true⟩, ⟨[], true⟩⟩

/-- The clocks of New York go back on 1 November 2026 at 06:00 UTC. -/
def back : Zone := fun t => if t < 1793512800000 then -240 else -300

/-- Called at half past one before the change, the search returns one o'clock again. -/
theorem one_fires_twice : ∃ first second third,
    Run.run (fire halfHours back) [] [1793505600000, first, second] = some [third, second, first] ∧
      (wallClockAt third back).sameTuple (wallClockAt first back) = true :=
  ⟨1793509200000, 1793511000000, 1793512800000, by decide +kernel, by decide +kernel⟩

end AckerDB.Cron
