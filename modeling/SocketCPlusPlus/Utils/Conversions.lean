import SocketCPlusPlus.Foundation.Decimal

/-! Dates as text, and the dates that are read back from it. -/
namespace SocketCPlusPlus.Utils
open Foundation Decimal

/-- The broken-down time. -/
structure Tm where
  tmSec : Int
  tmMin : Int
  tmHour : Int
  tmMday : Int
  tmMon : Int
  tmYear : Int
  tmWday : Int
  tmYday : Int
  tmIsdst : Int
  deriving DecidableEq, Repr

def get0PrefixedValue (value : Int) : List UInt8 :=
  if value = 0 then [48, 48]
  else if value < 10 then [48] ++ printInt value
  else printInt value

def printPadded (width : Nat) : Int → List UInt8
  | .ofNat n => padded width n
  | .negSucc n => 45 :: padded (width - 1) (n + 1)

/-- The text of a date. One platform has its own conversion. -/
def dateText (mac : Bool) (now : Tm) : List UInt8 :=
  let (strYear, prefixed) :=
    if !mac then (printInt (now.tmYear + 1900), get0PrefixedValue)
    else (printPadded 4 (now.tmYear + 1900), printPadded 2)
  strYear ++ 45 :: (prefixed (now.tmMon + 1) ++ 45 :: (prefixed now.tmMday ++ 32 ::
    (prefixed now.tmHour ++ 58 :: (prefixed now.tmMin ++ 58 :: prefixed now.tmSec))))

def dateFormat : List Directive :=
  [.int, .char 45, .int, .char 45, .int, .space, .int, .char 58, .int, .char 58, .int]

section Clock
variable (gmtime : Int → Tm) (mktime : Tm → Int)

def getDateInUTC (mac : Bool) (t : Int) : List UInt8 := dateText mac (gmtime t)

/-- The text of a date so far from now. -/
def getDateInUTCFromNow (mac : Bool) (rawtime diffDays diffHours diffMinutes : Int) : List UInt8 :=
  let now := gmtime rawtime
  if diffDays ≠ 0 ∨ diffHours ≠ 0 ∨ diffMinutes ≠ 0 then
    let temp := { now with
      tmMday := now.tmMday + diffDays
      tmHour := now.tmHour + diffHours
      tmMin := now.tmMin + diffMinutes }
    dateText mac (gmtime (mktime temp))
  else dateText mac now

/-- Fields that are not read keep their values of now. -/
def getDateFromString (now : Int) (UTCFormatted : List UInt8) : UInt64 :=
  let nowtm := gmtime now
  let fields := sscanf dateFormat UTCFormatted
  let nowtm := { nowtm with
    tmYear := fields[0]?.getD nowtm.tmYear
    tmMon := fields[1]?.getD nowtm.tmMon
    tmMday := fields[2]?.getD nowtm.tmMday
    tmHour := fields[3]?.getD nowtm.tmHour
    tmMin := fields[4]?.getD nowtm.tmMin
    tmSec := fields[5]?.getD nowtm.tmSec }
  .ofInt (mktime { nowtm with tmYear := nowtm.tmYear - 1900, tmMon := nowtm.tmMon - 1 })

end Clock

/-! What is read from the text of a date. -/

theorem numeral_get0PrefixedValue (n : Nat) : Numeral n (get0PrefixedValue n) := by
  unfold get0PrefixedValue
  split
  · next h =>
    obtain rfl := Int.natCast_eq_zero.mp h
    exact ⟨1, rfl⟩
  · split
    · exact ⟨1, rfl⟩
    · exact .print n

/-- The fields of a date are numbers without a sign. -/
structure Tm.Unsigned (tm : Tm) : Prop where
  year : 0 ≤ tm.tmYear + 1900
  mon : 0 ≤ tm.tmMon + 1
  mday : 0 ≤ tm.tmMday
  hour : 0 ≤ tm.tmHour
  min : 0 ≤ tm.tmMin
  sec : 0 ≤ tm.tmSec

theorem sscanf_numerals {year mon mday hour min sec : Nat}
    {strYear strMon strMday strHour strMin strSec : List UInt8} (hyear : Numeral year strYear)
    (hmon : Numeral mon strMon) (hmday : Numeral mday strMday) (hhour : Numeral hour strHour)
    (hmin : Numeral min strMin) (hsec : Numeral sec strSec) :
    sscanf dateFormat (strYear ++ 45 :: (strMon ++ 45 :: (strMday ++ 32 ::
      (strHour ++ 58 :: (strMin ++ 58 :: strSec))))) =
        [(year : Int), mon, mday, hour, min, sec] := by
  rw [dateFormat, hyear.sscanf_char rfl, hmon.sscanf_char rfl, hmday.sscanf_space hhour,
    hhour.sscanf_char rfl, hmin.sscanf_char rfl, hsec.sscanf_last]

/-- The text of a date, on either platform, is read as its six fields. -/
theorem sscanf_dateText (mac : Bool) {tm : Tm} (h : tm.Unsigned) :
    sscanf dateFormat (dateText mac tm) =
      [tm.tmYear + 1900, tm.tmMon + 1, tm.tmMday, tm.tmHour, tm.tmMin, tm.tmSec] := by
  obtain ⟨year, hyear⟩ := Int.eq_ofNat_of_zero_le h.year
  obtain ⟨mon, hmon⟩ := Int.eq_ofNat_of_zero_le h.mon
  obtain ⟨mday, hmday⟩ := Int.eq_ofNat_of_zero_le h.mday
  obtain ⟨hour, hhour⟩ := Int.eq_ofNat_of_zero_le h.hour
  obtain ⟨min, hmin⟩ := Int.eq_ofNat_of_zero_le h.min
  obtain ⟨sec, hsec⟩ := Int.eq_ofNat_of_zero_le h.sec
  rw [dateText, hyear, hmon, hmday, hhour, hmin, hsec]
  cases mac with
  | false =>
    exact sscanf_numerals (.print year) (numeral_get0PrefixedValue mon)
      (numeral_get0PrefixedValue mday) (numeral_get0PrefixedValue hour)
      (numeral_get0PrefixedValue min) (numeral_get0PrefixedValue sec)
  | true =>
    exact sscanf_numerals (.padded 4 year) (.padded 2 mon) (.padded 2 mday) (.padded 2 hour)
      (.padded 2 min) (.padded 2 sec)

/-- What the C library promises of its two conversions: no field of a date since the epoch is
negative, universal time knows no daylight saving, and the day of the week and of the year do not
count when a date is converted back. -/
structure ClockLaws (gmtime : Int → Tm) (mktime : Tm → Int) : Prop where
  unsigned : ∀ t, 0 ≤ t → (gmtime t).Unsigned
  standard : ∀ t, (gmtime t).tmIsdst = 0
  weekday : ∀ tm tmWday tmYday, mktime { tm with tmWday := tmWday, tmYday := tmYday } = mktime tm

section Laws
variable {gmtime : Int → Tm} {mktime : Tm → Int}

theorem ClockLaws.mktime_of_text (h : ClockLaws gmtime mktime) (mac : Bool) {tm tm' : Tm}
    (htm : tm.Unsigned) (htm' : tm'.Unsigned) (hdst : tm.tmIsdst = tm'.tmIsdst)
    (htext : dateText mac tm = dateText mac tm') : mktime tm = mktime tm' := by
  have hfields := congrArg (sscanf dateFormat) htext
  rw [sscanf_dateText mac htm, sscanf_dateText mac htm'] at hfields
  simp only [List.cons.injEq, and_true] at hfields
  obtain ⟨hyear, hmon, hmday, hhour, hmin, hsec⟩ := hfields
  have hsame : { tm with tmWday := tm'.tmWday, tmYday := tm'.tmYday } = tm' := by
    cases tm
    cases tm'
    simp_all
  rw [← h.weekday tm tm'.tmWday tm'.tmYday, hsame]

/-- The text of a date since the epoch, printed on either platform, is read at any time as that date,
and no other date has it. -/
theorem date_round_trip (h : ClockLaws gmtime mktime) (mac : Bool) {t : Int} (ht : 0 ≤ t)
    (now : Int) :
    getDateFromString gmtime mktime now (getDateInUTC gmtime mac t) = .ofInt (mktime (gmtime t)) ∧
      ∀ t', 0 ≤ t' → getDateInUTC gmtime mac t' = getDateInUTC gmtime mac t →
        mktime (gmtime t') = mktime (gmtime t) := by
  constructor
  · have hread := sscanf_dateText mac (h.unsigned t ht)
    have hsame : ({ gmtime now with
        tmSec := (gmtime t).tmSec, tmMin := (gmtime t).tmMin, tmHour := (gmtime t).tmHour
        tmMday := (gmtime t).tmMday, tmMon := (gmtime t).tmMon
        tmYear := (gmtime t).tmYear } : Tm) =
        { gmtime t with tmWday := (gmtime now).tmWday, tmYday := (gmtime now).tmYday } := by
      dsimp only
      rw [h.standard now, ← h.standard t]
    rw [getDateFromString, getDateInUTC, hread, ← h.weekday (gmtime t) (gmtime now).tmWday
      (gmtime now).tmYday, ← hsame]
    simp
  · intro t' ht' htext
    exact h.mktime_of_text mac (h.unsigned t' ht') (h.unsigned t ht)
      ((h.standard t').trans (h.standard t).symm) htext

end Laws

/-- The first day of the epoch. -/
theorem sample_date_round_trip :
    let gmtime : Int → Tm := fun t => ⟨t % 60, t / 60 % 60, t / 3600, 1, 0, 70, 4, 0, 0⟩
    let mktime : Tm → Int := fun tm =>
      tm.tmSec + 60 * tm.tmMin + 3600 * tm.tmHour + 86400 * (tm.tmMday - 1)
    getDateFromString gmtime mktime 0 (getDateInUTC gmtime false 3661) =
        .ofInt (mktime (gmtime 3661)) ∧
      ∀ t', 0 ≤ t' → getDateInUTC gmtime false t' = getDateInUTC gmtime false 3661 →
        mktime (gmtime t') = mktime (gmtime 3661) := by
  intro gmtime mktime
  have hlaws : ClockLaws gmtime mktime := by
    refine ⟨fun t ht => ⟨?_, ?_, ?_, ?_, ?_, ?_⟩, fun _ => rfl, fun _ _ _ => rfl⟩
    · change (0 : Int) ≤ 70 + 1900
      decide
    · change (0 : Int) ≤ 0 + 1
      decide
    · change (0 : Int) ≤ 1
      decide
    · exact Int.ediv_nonneg ht (by decide)
    · exact Int.emod_nonneg _ (by decide)
    · exact Int.emod_nonneg _ (by decide)
  exact date_round_trip hlaws false (by decide) 0

end SocketCPlusPlus.Utils
