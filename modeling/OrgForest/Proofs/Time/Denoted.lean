import OrgForest.Proofs.Except
import OrgForest.Proofs.Text.Digits
import OrgForest.Proofs.Time.Calendar
import OrgForest.Time.Strict

/-!
# The instant that a text is for

A timestamp in the strict form is a local time and its distance from UTC. The instant it is for is
put together from these parts: the seconds of the local time less the distance, and the nanoseconds
of the fraction, a billion more in a leap second. The strict reader finds this instant and no other.

* `Time.FractionOf`, `Time.OffsetOf` — the fraction and the distance in writing, with their values;
* `Time.Denotes` — a text and the instant it is for;
* `Time.readStrict_eq_ok_iff` — what the strict reader finds.
-/

namespace OrgForest.Time

open Text (padded Run NoDigit digitValue?)

/-! ## Parts with their values -/

/-- A fraction of a second in writing and its nanoseconds: nothing, or a point and digits, of which
those behind the ninth are cut off. -/
inductive FractionOf : List Char → Nat → Prop
  | none : FractionOf [] 0
  | digits {cs : List Char} {ds : List Nat} : ds ≠ [] → Run cs ds →
      FractionOf ('.' :: cs) (Text.natOfDigits 0 ds * billion / 10 ^ ds.length)

/-- A distance from UTC in writing and its seconds, west of it with one of some characters for a
minus. -/
inductive OffsetOf (minus : List Char) : List Char → Int → Prop
  | utc (c : Char) : c = 'Z' ∨ c = 'z' → OffsetOf minus [c] 0
  | east (hour minute : Nat) : hour < 24 → minute < 60 →
      OffsetOf minus ('+' :: (padded 2 hour ++ ':' :: padded 2 minute))
        (hour * 3600 + minute * 60 : Nat)
  | west (sign : Char) (hour minute : Nat) : sign ∈ minus → hour < 24 → minute < 60 →
      OffsetOf minus (sign :: (padded 2 hour ++ ':' :: padded 2 minute))
        (-(hour * 3600 + minute * 60 : Nat))

/-- What may stand between date and time. -/
def IsSeparator (c : Char) : Prop := c = 'T' ∨ c = 't' ∨ c = ' '

/-- A timestamp in writing and the instant it is for. Second 60 belongs to the second before it. -/
inductive Denotes (minus : List Char) : List Char → Timestamp → Prop
  | mk (year month day hour minute second : Nat) (separator : Char) (fraction offset : List Char)
      (nanos : Nat) (shift : Int) (t : Timestamp) :
      year < 10000 → (⟨year, month, day⟩ : Date).isValid = true →
      IsSeparator separator → hour < 24 → minute < 60 → second ≤ 60 →
      FractionOf fraction nanos → OffsetOf minus offset shift →
      t.seconds = (⟨year, month, day⟩ : Date).toDays * 86400 +
        (hour * 3600 + minute * 60 + min second 59 : Nat) - shift →
      t.nanos = nanos + (if second = 60 then billion else 0) →
      Denotes minus (padded 4 year ++ '-' :: (padded 2 month ++ '-' :: (padded 2 day ++ separator ::
        (padded 2 hour ++ ':' :: (padded 2 minute ++ ':' :: (padded 2 second ++
          (fraction ++ offset))))))) t

/-- The characters for a minus that are read. -/
def minusSigns : List Char := ['-', '\u2212']

theorem mem_minusSigns {c : Char} : c ∈ minusSigns ↔ c = '-' ∨ c = '\u2212' := by
  simp only [minusSigns, List.mem_cons, List.not_mem_nil, or_false]

variable {cs rest : List Char}

/-! ## Numbers -/

theorem takeDigit_eq_ok {d : Nat} :
    takeDigit cs = .ok (d, rest) ↔ ∃ c, cs = c :: rest ∧ digitValue? c = some d := by
  cases cs with
  | nil => simp [takeDigit]
  | cons c cs =>
    rw [takeDigit]
    cases hc : digitValue? c with
    | none => simp [hc]
    | some d' => simp [hc, and_comm, eq_comm]

/-- A number at a fixed place, continued from another one. -/
theorem takeFixed_eq_ok {n value v : Nat} : takeFixed n value cs = .ok (v, rest) ↔
    ∃ front ds, cs = front ++ rest ∧ front.length = n ∧ Run front ds ∧
      Text.natOfDigits value ds = v := by
  -- on the number of places, whatever has been read in front of them
  induction n generalizing value cs with
  | zero =>
    rw [takeFixed]
    constructor
    · rintro ⟨⟩
      exact ⟨[], [], rfl, rfl, .nil, rfl⟩
    · rintro ⟨front, ds, rfl, hlen, hrun, rfl⟩
      obtain rfl := List.length_eq_zero_iff.1 hlen
      obtain rfl := List.length_eq_zero_iff.1 hrun.length_eq.symm
      rfl
  | succ n ih =>
    rw [takeFixed, bind_eq_ok]
    constructor
    · rintro ⟨⟨d, cs'⟩, hdigit, hnext⟩
      obtain ⟨c, rfl, hc⟩ := takeDigit_eq_ok.1 hdigit
      obtain ⟨front, ds, rfl, hlen, hrun, rfl⟩ := ih.1 hnext
      refine ⟨c :: front, d :: ds, rfl, congrArg (· + 1) hlen, ?_, rfl⟩
      exact List.cons_eq_cons.2 ⟨hc, hrun⟩
    · rintro ⟨front, ds, rfl, hlen, hrun, rfl⟩
      cases front with
      | nil => cases hlen
      | cons c front =>
        cases ds with
        | nil => cases hrun
        | cons d ds =>
          obtain ⟨hc, hrun⟩ := List.cons.inj hrun
          exact ⟨(d, front ++ rest), takeDigit_eq_ok.2 ⟨c, rfl, hc⟩,
            ih.2 ⟨front, ds, rfl, Nat.succ.inj hlen, hrun, rfl⟩⟩

/-- A number at a fixed place is what is written there. -/
theorem takeFixed_zero_eq_ok {n v : Nat} (hn : n ≠ 0) :
    takeFixed n 0 cs = .ok (v, rest) ↔ v < 10 ^ n ∧ cs = padded n v ++ rest := by
  rw [takeFixed_eq_ok]
  constructor
  · rintro ⟨front, ds, rfl, rfl, hrun, rfl⟩
    exact ⟨hrun.value_lt, congrArg (· ++ rest) (hrun.eq_padded (mt List.length_eq_zero_iff.2 hn))⟩
  · rintro ⟨hv, rfl⟩
    obtain ⟨ds, hrun, hvalue, -⟩ := Text.run_padded n v
    exact ⟨padded n v, ds, rfl, Text.length_padded hn hv, hrun, hvalue⟩

theorem takeChar_eq_ok {c : Char} : takeChar c cs = .ok rest ↔ cs = c :: rest := by
  cases cs with
  | nil => simp [takeChar]
  | cons d cs =>
    rw [takeChar]
    split
    · next h => simp [h]
    · next h => simp [h]

theorem takeSeparator_eq_ok :
    takeSeparator cs = .ok rest ↔ ∃ c, IsSeparator c ∧ cs = c :: rest := by
  cases cs with
  | nil => simp [takeSeparator]
  | cons d cs =>
    have hiff : (d = 'T' || d = 't' || d = ' ') = true ↔ IsSeparator d := by
      simp [IsSeparator, or_assoc]
    rw [takeSeparator]
    by_cases hd : IsSeparator d
    · rw [if_pos (hiff.2 hd), Except.ok.injEq]
      constructor
      · rintro rfl
        exact ⟨d, hd, rfl⟩
      · rintro ⟨c, -, hcons⟩
        exact (List.cons.inj hcons).2
    · rw [if_neg (mt hiff.1 hd)]
      constructor
      · rintro ⟨⟩
      · rintro ⟨c, hc, hcons⟩
        exact absurd ((List.cons.inj hcons).1 ▸ hc) hd

/-! ## The fraction -/

/-- Cutting off the places behind the ninth is to round down. -/
theorem nanosOfDigits_eq {front : List Char} {ds : List Nat} (h : Run front ds) :
    nanosOfDigits ds = Text.natOfDigits 0 ds * billion / 10 ^ ds.length := by
  unfold nanosOfDigits
  dsimp only
  by_cases hlen : ds.length ≤ 9
  · -- too few places for anything to be cut off
    have hbillion : billion = 10 ^ (9 - ds.length) * 10 ^ ds.length := by
      rw [← Nat.pow_add, Nat.sub_add_cancel hlen]
      rfl
    rw [List.take_of_length_le hlen, hbillion, ← Nat.mul_assoc,
      Nat.mul_div_cancel _ (Nat.pow_pos (by decide))]
    rfl
  · -- what the further places denote is less than one of the ninth
    have hsplit := Text.natOfDigits_eq_add (ds.take 9) (ds.drop 9)
    have hdropped : Run (front.drop 9) (ds.drop 9) := by
      unfold Run
      rw [List.map_drop, h, List.map_drop]
    have hlt := hdropped.value_lt
    have htaken : (ds.take 9).length = 9 := by rw [List.length_take]; omega
    rw [hdropped.length_eq] at hlt
    rw [List.take_append_drop] at hsplit
    have hpow : 10 ^ ds.length = 10 ^ (ds.drop 9).length * billion := by
      have hsum : ds.length = (ds.drop 9).length + 9 := by rw [List.length_drop]; omega
      rw [hsum, Nat.pow_add]
      rfl
    have hpositive : 0 < 10 ^ (ds.drop 9).length := Nat.pow_pos (by decide)
    rw [hpow, Nat.mul_div_mul_right _ _ (by decide), hsplit, htaken, Nat.add_comm,
      Nat.add_mul_div_right _ _ hpositive, Nat.div_eq_of_lt hlt, Nat.zero_add]
    exact Nat.mul_one _

theorem FractionOf.lt {fraction : List Char} {n : Nat} (h : FractionOf fraction n) :
    n < billion := by
  cases h with
  | none => decide
  | @digits front ds hne hrun =>
    have hvalue := hrun.value_lt
    rw [hrun.length_eq] at hvalue
    refine Nat.div_lt_of_lt_mul ?_
    exact Nat.mul_lt_mul_of_pos_right hvalue (by decide)

theorem exists_fraction {n : Nat} (h : takeFraction cs = .ok (n, rest)) :
    ∃ fraction, FractionOf fraction n ∧ cs = fraction ++ rest := by
  unfold takeFraction at h
  split at h
  · next cs =>
    split at h
    · cases h
    · cases h
    · next ds rest' hne hds htake =>
      obtain ⟨rfl, rfl⟩ := Prod.mk.inj (Except.ok.inj h)
      obtain ⟨front, rfl, hrun⟩ := Text.exists_run_of_takeDigits htake
      refine ⟨'.' :: front, ?_, rfl⟩
      rw [nanosOfDigits_eq hrun]
      exact .digits (fun hnil => hds hnil) hrun
  · cases h
    exact ⟨[], .none, rfl⟩

/-- A fraction is taken, up to an offset. -/
theorem takeFraction_append {fraction : List Char} {n : Nat} (h : FractionOf fraction n)
    (hdigit : NoDigit rest) (hpoint : rest.head? ≠ some '.') :
    takeFraction (fraction ++ rest) = .ok (n, rest) := by
  cases h with
  | none =>
    rw [List.nil_append]
    unfold takeFraction
    split
    · exact absurd rfl hpoint
    · rfl
  | @digits front ds hne hrun =>
    -- the digits end where the offset begins, since that is no digit
    rw [List.cons_append, takeFraction, Text.takeDigits_run hrun hdigit, ← nanosOfDigits_eq hrun]
    split
    · next h =>
      cases h
      exact absurd rfl hne
    · next h =>
      cases h
      exact absurd rfl hne
    · next h =>
      cases h
      rfl

/-! ## The offset -/

theorem padded_pair {a b : Nat} (ha : a < 10) (hb : b < 10) :
    padded 2 (10 * a + b) = [a.digitChar, b.digitChar] := by
  have hrun : Run [a.digitChar, b.digitChar] [a, b] := (Run.singleton ha).append (.singleton hb)
  have heq : [a.digitChar, b.digitChar] = padded 2 (10 * (10 * 0 + a) + b) :=
    hrun.eq_padded (by simp)
  rw [heq, Nat.mul_zero, Nat.zero_add]

/-- Two digits at once are a number of two digits. -/
theorem takePair_eq_ok {a b : Nat} : takePair cs = .ok ((a, b), rest) ↔
    a < 10 ∧ b < 10 ∧ cs = padded 2 (10 * a + b) ++ rest := by
  constructor
  · intro h
    match cs with
    | [] => cases h
    | [_] => cases h
    | c :: d :: cs =>
      rw [takePair] at h
      split at h
      · next a' b' hc hd =>
        cases h
        obtain ⟨ha, rfl⟩ := Text.eq_digitChar hc
        obtain ⟨hb, rfl⟩ := Text.eq_digitChar hd
        exact ⟨ha, hb, by rw [padded_pair ha hb]; rfl⟩
      · cases h
  · rintro ⟨ha, hb, rfl⟩
    rw [padded_pair ha hb, List.cons_append, List.cons_append, List.nil_append, takePair,
      Text.digitValue?_digitChar ha, Text.digitValue?_digitChar hb]

theorem takeSign_eq_ok {negative : Bool} : takeSign cs = .ok (negative, rest) ↔
    ∃ c, cs = c :: rest ∧ (c = '+' ∧ negative = false ∨ c ∈ minusSigns ∧ negative = true) := by
  constructor
  · intro h
    cases cs with
    | nil => cases h
    | cons c cs =>
      rw [takeSign] at h
      split at h
      · next hplus =>
        cases h
        exact ⟨c, rfl, .inl ⟨hplus, rfl⟩⟩
      · split at h
        · next hminus =>
          cases h
          exact ⟨c, rfl, .inr ⟨mem_minusSigns.2 (by simpa using hminus), rfl⟩⟩
        · cases h
  · rintro ⟨c, rfl, ⟨rfl, rfl⟩ | ⟨hc, rfl⟩⟩
    · rfl
    · rcases mem_minusSigns.1 hc with rfl | rfl <;> rfl

/-- An offset is below a day. -/
theorem OffsetOf.bounds {minus offset : List Char} {o : Int} (h : OffsetOf minus offset o) :
    -86400 < o ∧ o < 86400 := by
  cases h with
  | utc c hc => decide
  | east hour minute hh hm => omega
  | west sign hour minute hsign hh hm => omega

/-- An offset below a day is taken from what is written. -/
theorem exists_offset {o : Int} (h : takeOffset (takeChar ':') cs = .ok (o, rest))
    (hday : -86400 < o ∧ o < 86400) : ∃ offset, OffsetOf minusSigns offset o ∧
      cs = offset ++ rest := by
  unfold takeOffset at h
  split at h
  · cases h
    exact ⟨_, .utc 'Z' (.inl rfl), rfl⟩
  · cases h
    exact ⟨_, .utc 'z' (.inr rfl), rfl⟩
  · simp only [bind_eq_ok] at h
    obtain ⟨⟨negative, cs₁⟩, hsign, ⟨⟨a, b⟩, cs₂⟩, hhour, cs₃, hcolon, ⟨⟨m, m'⟩, cs₄⟩, hminute,
      hrest⟩ := h
    obtain ⟨sign, rfl, hchar⟩ := takeSign_eq_ok.1 hsign
    obtain ⟨ha, hb, rfl⟩ := takePair_eq_ok.1 hhour
    obtain rfl := takeChar_eq_ok.1 hcolon
    obtain ⟨hm, hm', rfl⟩ := takePair_eq_ok.1 hminute
    dsimp only at hrest
    split at hrest
    · cases hrest
    · next hsix =>
      obtain ⟨rfl, rfl⟩ := Prod.mk.inj (pure_eq_ok.1 hrest)
      -- two digits may be more than an hour has, but not in an offset below a day
      have hlt : 10 * a + b < 24 := by
        split at hday <;> omega
      have hsame : ((10 * (a : Int) + b) * 3600 + (10 * m + m') * 60) =
          ((10 * a + b) * 3600 + (10 * m + m') * 60 : Nat) := by
        push_cast
        rfl
      rw [hsame]
      rcases hchar with ⟨rfl, rfl⟩ | ⟨hminus, rfl⟩
      · refine ⟨_, .east (10 * a + b) (10 * m + m') hlt (by omega), ?_⟩
        rw [List.cons_append, List.append_assoc, List.cons_append]
      · refine ⟨_, .west sign (10 * a + b) (10 * m + m') hminus hlt (by omega), ?_⟩
        rw [List.cons_append, List.append_assoc, List.cons_append]

/-- Hours and minutes behind a sign are taken as an offset. -/
theorem takeOffset_hours {sign : Char} {negative : Bool} {hour minute : Nat}
    (hsign : takeSign (sign :: (padded 2 hour ++ ':' :: (padded 2 minute ++ rest))) =
      .ok (negative, padded 2 hour ++ ':' :: (padded 2 minute ++ rest)))
    (hletter : sign ≠ 'Z' ∧ sign ≠ 'z') (hhour : hour < 24) (hminute : minute < 60) :
    takeOffset (takeChar ':') (sign :: (padded 2 hour ++ ':' :: (padded 2 minute ++ rest))) =
      .ok (if negative then -(hour * 3600 + minute * 60 : Nat)
        else (hour * 3600 + minute * 60 : Nat), rest) := by
  have hpair {n : Nat} (hn : n < 100) (rest : List Char) :
      takePair (padded 2 n ++ rest) = .ok ((n / 10, n % 10), rest) :=
    takePair_eq_ok.2 ⟨by omega, by omega, by rw [Nat.div_add_mod]⟩
  have hseconds : ((10 * ((hour / 10 : Nat) : Int) + (hour % 10 : Nat)) * 3600 +
      (10 * ((minute / 10 : Nat) : Int) + (minute % 10 : Nat)) * 60) =
      (hour * 3600 + minute * 60 : Nat) := by
    omega
  unfold takeOffset
  split
  · next heq => exact absurd (List.cons.inj heq).1 hletter.1
  · next heq => exact absurd (List.cons.inj heq).1 hletter.2
  · simp only [bind_eq_ok]
    refine ⟨_, hsign, _, hpair (by omega) _, _, takeChar_eq_ok.2 rfl, _, hpair (by omega) _, ?_⟩
    dsimp only
    rw [if_neg (by omega), hseconds]
    rfl

/-- An offset is taken. -/
theorem takeOffset_append {offset : List Char} {o : Int} (h : OffsetOf minusSigns offset o)
    (rest : List Char) : takeOffset (takeChar ':') (offset ++ rest) = .ok (o, rest) := by
  cases h with
  | utc c hc =>
    rcases hc with rfl | rfl <;> rfl
  | east hour minute hh hm =>
    rw [List.cons_append, List.append_assoc, List.cons_append]
    exact takeOffset_hours (takeSign_eq_ok.2 ⟨'+', rfl, .inl ⟨rfl, rfl⟩⟩) (by decide) hh hm
  | west sign hour minute hsign hh hm =>
    -- no sign is the letter for UTC
    have hletter : sign ≠ 'Z' ∧ sign ≠ 'z' := by
      rcases mem_minusSigns.1 hsign with rfl | rfl <;> decide
    rw [List.cons_append, List.append_assoc, List.cons_append]
    exact takeOffset_hours (takeSign_eq_ok.2 ⟨sign, rfl, .inr ⟨hsign, rfl⟩⟩) hletter hh hm

/-- An offset begins with no digit and no point. -/
theorem OffsetOf.head {offset : List Char} {o : Int} (h : OffsetOf minusSigns offset o) :
    NoDigit offset ∧ offset.head? ≠ some '.' := by
  have hother : ∃ c cs, offset = c :: cs ∧ digitValue? c = none ∧ c ≠ '.' := by
    cases h with
    | utc c hc => exact ⟨c, [], rfl, by rcases hc with rfl | rfl <;> decide⟩
    | east hour minute _ _ => exact ⟨'+', _, rfl, by decide⟩
    | west sign hour minute hsign _ _ =>
      exact ⟨sign, _, rfl, by rcases mem_minusSigns.1 hsign with rfl | rfl <;> decide⟩
  obtain ⟨c, cs, rfl, hdigit, hpoint⟩ := hother
  exact ⟨by rintro c ⟨⟩; exact hdigit, fun h => hpoint (Option.some.inj h)⟩

/-! ## Date and time of day -/

/-- A date at fixed places is one of the calendar. -/
theorem takeDate_eq_ok {date : Date} : takeDate cs = .ok (date, rest) ↔
    ∃ year month day : Nat, year < 10000 ∧ date = ⟨year, month, day⟩ ∧ date.isValid = true ∧
      cs = padded 4 year ++ '-' :: (padded 2 month ++ '-' :: (padded 2 day ++ rest)) := by
  constructor
  · intro h
    simp only [takeDate, bind_eq_ok] at h
    obtain ⟨⟨year, cs₁⟩, hyear, cs₂, hdash, ⟨month, cs₃⟩, hmonth, cs₄, hdash', ⟨day, cs₅⟩, hday,
      hdate⟩ := h
    dsimp only at hdash hdash' hdate
    obtain ⟨hlt, rfl⟩ := (takeFixed_zero_eq_ok (by decide)).1 hyear
    obtain rfl := takeChar_eq_ok.1 hdash
    obtain ⟨-, rfl⟩ := (takeFixed_zero_eq_ok (by decide)).1 hmonth
    obtain rfl := takeChar_eq_ok.1 hdash'
    obtain ⟨-, rfl⟩ := (takeFixed_zero_eq_ok (by decide)).1 hday
    split at hdate
    · next hvalid =>
      obtain ⟨rfl, rfl⟩ := Prod.mk.inj (pure_eq_ok.1 hdate)
      exact ⟨year, month, day, hlt, rfl, hvalid, rfl⟩
    · exact absurd hdate throw_eq_ok
  · rintro ⟨year, month, day, hyear, rfl, hvalid, rfl⟩
    -- a month and a day of the calendar have two digits
    obtain ⟨hmonth, hday⟩ := Date.le_of_isValid hvalid
    dsimp only at hmonth hday
    simp only [takeDate, bind_eq_ok]
    refine ⟨_, (takeFixed_zero_eq_ok (by decide)).2 ⟨hyear, rfl⟩, _, takeChar_eq_ok.2 rfl,
      _, (takeFixed_zero_eq_ok (by decide)).2 ⟨by omega, rfl⟩, _, takeChar_eq_ok.2 rfl,
      _, (takeFixed_zero_eq_ok (by decide)).2 ⟨by omega, rfl⟩, ?_⟩
    rw [if_pos hvalid]
    rfl

theorem Clock.isValid_iff {c : Clock} :
    c.isValid = true ↔ c.hour < 24 ∧ c.minute < 60 ∧ c.second ≤ 60 := by
  simp [Clock.isValid, and_assoc]

theorem exists_clock {clock : Clock} (h : takeClock cs = .ok (clock, rest)) :
    ∃ fraction, (clock.hour < 24 ∧ clock.minute < 60 ∧ clock.second ≤ 60) ∧
      FractionOf fraction clock.nanos ∧
      cs = padded 2 clock.hour ++ ':' :: (padded 2 clock.minute ++ ':' ::
        (padded 2 clock.second ++ (fraction ++ rest))) := by
  simp only [takeClock, bind_eq_ok] at h
  obtain ⟨⟨hour, cs₁⟩, hhour, cs₂, hcolon, ⟨minute, cs₃⟩, hminute, cs₄, hcolon', ⟨second, cs₅⟩,
    hsecond, ⟨nanos, cs₆⟩, hfraction, hclock⟩ := h
  dsimp only at hcolon hcolon' hfraction hclock
  obtain ⟨-, rfl⟩ := (takeFixed_zero_eq_ok (by decide)).1 hhour
  obtain rfl := takeChar_eq_ok.1 hcolon
  obtain ⟨-, rfl⟩ := (takeFixed_zero_eq_ok (by decide)).1 hminute
  obtain rfl := takeChar_eq_ok.1 hcolon'
  obtain ⟨-, rfl⟩ := (takeFixed_zero_eq_ok (by decide)).1 hsecond
  obtain ⟨fraction, hvalue, rfl⟩ := exists_fraction hfraction
  split at hclock
  · next hvalid =>
    obtain ⟨rfl, rfl⟩ := Prod.mk.inj (pure_eq_ok.1 hclock)
    exact ⟨fraction, Clock.isValid_iff.1 hvalid, hvalue, rfl⟩
  · exact absurd hclock throw_eq_ok

theorem takeClock_append {hour minute second nanos : Nat} {fraction : List Char} (hhour : hour < 24)
    (hminute : minute < 60) (hsecond : second ≤ 60) (hfraction : FractionOf fraction nanos)
    (hdigit : NoDigit rest) (hpoint : rest.head? ≠ some '.') :
    takeClock (padded 2 hour ++ ':' :: (padded 2 minute ++ ':' ::
      (padded 2 second ++ (fraction ++ rest)))) = .ok (⟨hour, minute, second, nanos⟩, rest) := by
  have hvalid : (⟨hour, minute, second, nanos⟩ : Clock).isValid = true :=
    Clock.isValid_iff.2 ⟨hhour, hminute, hsecond⟩
  simp only [takeClock, bind_eq_ok]
  refine ⟨_, (takeFixed_zero_eq_ok (by decide)).2 ⟨by omega, rfl⟩, _, takeChar_eq_ok.2 rfl,
    _, (takeFixed_zero_eq_ok (by decide)).2 ⟨by omega, rfl⟩, _, takeChar_eq_ok.2 rfl,
    _, (takeFixed_zero_eq_ok (by decide)).2 ⟨by omega, rfl⟩, _,
    takeFraction_append hfraction hdigit hpoint, ?_⟩
  rw [if_pos hvalid]
  rfl

/-! ## The instant -/

theorem make?_eq_some {seconds : Int} {nanos : Nat} {t : Timestamp} :
    Timestamp.make? seconds nanos = some t ↔ t.seconds = seconds ∧ t.nanos = nanos := by
  unfold Timestamp.make?
  constructor
  · intro h
    split at h
    · split at h
      · cases h
        exact ⟨rfl, rfl⟩
      · cases h
    · cases h
  · rintro ⟨rfl, rfl⟩
    rw [dif_pos t.inRange, dif_pos t.nanos_lt]

theorem offset_of_instant {date : Date} {clock : Clock} {offset : Int} {t : Timestamp}
    (h : instant date clock offset = .ok t) : -86400 < offset ∧ offset < 86400 := by
  unfold instant at h
  split at h
  · cases h
  · split at h
    · cases h
    · split at h
      · cases h
      · next hoffset =>
        simp only [Bool.or_eq_true, decide_eq_true_eq, not_or, Int.not_le] at hoffset
        exact hoffset

/-- The instant of a date of four digits and a time of day. -/
theorem instant_eq_ok_iff {date : Date} {clock : Clock} {offset : Int} {t : Timestamp}
    (hdate : date.isValid = true) (hyear : 0 ≤ date.year ∧ date.year < 10000)
    (hclock : clock.isValid = true) (hoffset : -86400 < offset ∧ offset < 86400) :
    instant date clock offset = .ok t ↔
      t.seconds = date.toDays * 86400 +
        (clock.hour * 3600 + clock.minute * 60 + min clock.second 59 : Nat) - offset ∧
      t.nanos = clock.nanos + (if clock.second = 60 then billion else 0) := by
  have hshown := Clock.isValid_iff.1 hclock
  have hmade : Timestamp.make? (date.toDays * 86400 + (clock.hour * 3600 + clock.minute * 60 +
      (if clock.second = 60 then 59 else clock.second) : Nat) - offset)
        (if clock.second = 60 then clock.nanos + billion else clock.nanos) = some t ↔
      t.seconds = date.toDays * 86400 +
        (clock.hour * 3600 + clock.minute * 60 + min clock.second 59 : Nat) - offset ∧
      t.nanos = clock.nanos + (if clock.second = 60 then billion else 0) := by
    rw [make?_eq_some]
    by_cases hleap : clock.second = 60
    · simp only [if_pos hleap]
      omega
    · simp only [if_neg hleap]
      omega
  unfold instant
  rw [if_neg, if_neg, if_neg]
  · dsimp only
    rw [← hmade]
    split
    · next hmake => rw [pure_eq_ok, hmake, Option.some_inj]
    · next hmake =>
      rw [hmake]
      exact iff_of_false throw_eq_ok nofun
  · simp only [Bool.or_eq_true, decide_eq_true_eq]
    omega
  · rw [hclock]
    decide
  · rw [hdate]
    simp only [Bool.not_true, Bool.false_or, Bool.or_eq_true, decide_eq_true_eq]
    omega

/-! ## The whole -/

/-- A text has no fewer bytes than characters. -/
theorem length_le_bytes (cs : List Char) : cs.length ≤ (String.ofList cs).utf8ByteSize := by
  induction cs with
  | nil => exact Nat.zero_le _
  | cons c cs ih =>
    have hsplit : String.ofList (c :: cs) = String.singleton c ++ String.ofList cs := by
      rw [String.singleton_eq_ofList, ← String.ofList_append]
      rfl
    have hone := c.utf8Size_pos
    rw [hsplit, String.utf8ByteSize_append, String.utf8ByteSize_singleton, List.length_cons]
    omega

/-- A text with all the parts of a timestamp is not too short to be looked at. -/
theorem Denotes.strictLength_le {minus : List Char} {t : Timestamp} (h : Denotes minus cs t) :
    strictLength ≤ (String.ofList cs).utf8ByteSize := by
  obtain ⟨year, month, day, hour, minute, second, separator, fraction, offset, nanos, shift, t,
    hyear, hvalid, -, hhour, hminute, hsecond, -, -, -, -⟩ := h
  obtain ⟨hmonth, hday⟩ := Date.le_of_isValid hvalid
  dsimp only at hmonth hday
  refine Nat.le_trans ?_ (length_le_bytes _)
  have htwo {n : Nat} (hn : n < 100) : (padded 2 n).length = 2 :=
    Text.length_padded (by decide) hn
  have hyears : (padded 4 year).length = 4 := Text.length_padded (by decide) hyear
  simp only [List.length_append, List.length_cons, hyears, htwo (show month < 100 by omega),
    htwo (show day < 100 by omega), htwo (show hour < 100 by omega),
    htwo (show minute < 100 by omega), htwo (show second < 100 by omega)]
  unfold strictLength
  omega

theorem denotes_of_readStrict {t : Timestamp} (h : readStrict cs = .ok t) :
    Denotes minusSigns cs t := by
  unfold readStrict at h
  dsimp only at h
  split at h
  · cases h
  · simp only [bind_eq_ok] at h
    obtain ⟨⟨date, cs₁⟩, hdate, cs₂, hseparator, ⟨clock, cs₃⟩, hclock, ⟨shift, cs₄⟩, hoffset,
      hwhole⟩ := h
    dsimp only at hseparator hoffset hwhole
    split at hwhole
    · next hend =>
      obtain rfl := List.isEmpty_iff.1 hend
      -- the offset is read before its size is looked at
      have hday := offset_of_instant hwhole
      obtain ⟨offset, hshift, rfl⟩ := exists_offset hoffset hday
      obtain ⟨year, month, day, hyear, rfl, hvalid, rfl⟩ := takeDate_eq_ok.1 hdate
      obtain ⟨c, hc, rfl⟩ := takeSeparator_eq_ok.1 hseparator
      obtain ⟨fraction, ⟨hh, hm, hs⟩, hfraction, rfl⟩ := exists_clock hclock
      have hshown := Clock.isValid_iff.2 ⟨hh, hm, hs⟩
      have hfour : (0 : Int) ≤ year ∧ (year : Int) < 10000 := by omega
      obtain ⟨hseconds, hnanos⟩ := (instant_eq_ok_iff hvalid hfour hshown hday).1 hwhole
      rw [List.append_nil]
      exact .mk _ _ _ _ _ _ _ _ _ _ _ _ hyear hvalid hc hh hm hs hfraction hshift hseconds hnanos
    · exact absurd hwhole throw_eq_ok

theorem readStrict_of_denotes {t : Timestamp} (h : Denotes minusSigns cs t) :
    readStrict cs = .ok t := by
  have hlong := h.strictLength_le
  obtain ⟨year, month, day, hour, minute, second, separator, fraction, offset, nanos, shift, t,
    hyear, hvalid, hseparator, hhour, hminute, hsecond, hfraction, hoffset, hseconds, hnanos⟩ := h
  obtain ⟨hdigit, hpoint⟩ := hoffset.head
  have htake := takeOffset_append hoffset []
  rw [List.append_nil] at htake
  have htime := takeClock_append hhour hminute hsecond hfraction hdigit hpoint
  have hshown := (Clock.isValid_iff (c := ⟨hour, minute, second, nanos⟩)).2
    ⟨hhour, hminute, hsecond⟩
  have hfour : (0 : Int) ≤ year ∧ (year : Int) < 10000 := by omega
  have hwhole := (instant_eq_ok_iff (t := t) hvalid hfour hshown hoffset.bounds).2
    ⟨hseconds, hnanos⟩
  unfold readStrict
  dsimp only
  rw [if_neg (Nat.not_lt.2 hlong)]
  simp only [bind_eq_ok]
  exact ⟨_, takeDate_eq_ok.2 ⟨year, month, day, hyear, rfl, hvalid, rfl⟩,
    _, takeSeparator_eq_ok.2 ⟨separator, hseparator, rfl⟩, _, htime, _, htake, hwhole⟩

/-- **What a timestamp is for.** A text is read in the strict form exactly as the instant it is
for; a text that is for none is not read. -/
theorem readStrict_eq_ok_iff {t : Timestamp} :
    readStrict cs = .ok t ↔ Denotes minusSigns cs t :=
  ⟨denotes_of_readStrict, readStrict_of_denotes⟩

end OrgForest.Time
