import AgenticKibana.Library.Calendar

/-!
# Time zones

An instant is a number of microseconds since the beginning of year one, in UTC; a reading is what
a clock on the wall shows at it.  A zone gives the offset of the clock at each instant, and tells
which instant a reading stands for: of two instants with one reading the earlier, and of a reading
that the clock skips an instant behind the gap.  A reading that is known to be the repeated one
stands for the later instant.
-/

namespace AgenticKibana.Library.Zones

open AgenticKibana.Library.Calendar

def second : Int := 1000000
def hour : Int := 3600000000
def day : Int := 86400000000

/-- The instants and readings that a `datetime` can name: the years one to 9999. -/
def InRange (t : Int) : Prop := 0 ≤ t ∧ t < (daysBeforeYear 10000 : Int) * day

instance (t : Int) : Decidable (InRange t) := inferInstanceAs (Decidable (_ ∧ _))

def DayInRange (d : Nat) : Prop := d < daysBeforeYear 10000

instance (d : Nat) : Decidable (DayInRange d) := inferInstanceAs (Decidable (_ < _))

/-- A time zone: `offset` at an instant, `wall` for a reading and `wallLate` for a repeated one, and
what is known of the first two. -/
structure Zone where
  offset : Int → Int
  wall : Int → Int
  wallLate : Int → Int
  /-- a reading has one of the zone's offsets -/
  wall_eq : ∀ w, ∃ u, wall w = offset u
  /-- the offsets of a zone differ by 26 hours at most -/
  spread : ∀ u v, offset u - offset v ≤ 26 * hour
  /-- no reading is taken for an instant at which the clock shows less -/
  reading_le : ∀ w, w ≤ (w - wall w) + offset (w - wall w)
  /-- a reading stands for the first instant that shows it -/
  shows : ∀ u, (u + offset u - wall (u + offset u)) +
      offset (u + offset u - wall (u + offset u)) = u + offset u ∧
    u + offset u - wall (u + offset u) ≤ u
  /-- the clock is set back by a day at most -/
  repeated : ∀ u v, u + offset u = v + offset v → v - u ≤ day
  /-- the midnights come in order -/
  midnights : ∀ d e : Int, d ≤ e → d * day - wall (d * day) ≤ e * day - wall (e * day)

namespace Zone

variable (z : Zone)

def read (u : Int) : Int := u + z.offset u

def resolve (w : Int) : Int := w - z.wall w

def resolveLate (w : Int) : Int := w - z.wallLate w

def midnight (d : Int) : Int := z.resolve (d * day)

def dayOf (u : Int) : Int := z.read u / day

theorem le_read_resolve (w : Int) : w ≤ z.read (z.resolve w) := z.reading_le w

theorem read_resolve_read (u : Int) : z.read (z.resolve (z.read u)) = z.read u := (z.shows u).1

theorem resolve_read_le (u : Int) : z.resolve (z.read u) ≤ u := (z.shows u).2

theorem midnight_mono {d e : Int} (h : d ≤ e) : z.midnight d ≤ z.midnight e := z.midnights d e h

theorem dayOf_le {u : Int} {d : Int} : d ≤ z.dayOf u ↔ d * day ≤ z.read u :=
  Int.le_ediv_iff_mul_le (by decide)

theorem dayOf_lt {u : Int} {d : Int} : z.dayOf u < d ↔ z.read u < d * day :=
  Int.ediv_lt_iff_lt_mul (by decide)

theorem le_dayOf_midnight (d : Int) : d ≤ z.dayOf (z.midnight d) :=
  z.dayOf_le.mpr (z.le_read_resolve _)

theorem resolve_sub_le (w : Int) (u : Int) : z.resolve w - u ≤ w - z.read u + 26 * hour := by
  obtain ⟨v, hv⟩ := z.wall_eq w
  have := z.spread u v
  unfold resolve read
  omega

theorem dayOf_midnight_le (d : Int) : z.dayOf (z.midnight d) ≤ d + 1 := by
  obtain ⟨v, hv⟩ := z.wall_eq (d * day)
  have hspread := z.spread (z.midnight d) v
  have hlt : z.dayOf (z.midnight d) < d + 2 := by
    rw [dayOf_lt]
    unfold read
    unfold midnight resolve at hspread ⊢
    unfold day hour at *
    omega
  omega

theorem lt_midnight_succ {d e : Int} (h : z.dayOf (z.midnight d) < e) :
    z.midnight d < z.midnight e := by
  have hle := z.le_dayOf_midnight d
  apply lt_of_le_of_ne (z.midnight_mono (by omega))
  intro heq
  have := z.le_dayOf_midnight e
  rw [← heq] at this
  omega

theorem midnight_lt {d e : Int} (h : d + 2 ≤ e) : z.midnight d < z.midnight e :=
  z.lt_midnight_succ (by have := z.dayOf_midnight_le d; omega)

theorem midnight_of_shown {u : Int} {d : Int} (h : z.read u = d * day) :
    z.read (z.midnight d) = d * day ∧ z.midnight d ≤ u := by
  unfold midnight
  rw [← h]
  exact ⟨z.read_resolve_read u, z.resolve_read_le u⟩

def fixed (c : Int) : Zone where
  offset _ := c
  wall _ := c
  wallLate _ := c
  wall_eq _ := ⟨0, rfl⟩
  spread _ _ := by
    rw [sub_self]
    decide
  reading_le _ := by omega
  shows _ := by omega
  repeated _ _ h := by
    have : (0 : Int) ≤ day := by decide
    omega
  midnights d e h := by
    unfold day
    omega

/-- The zone whose clock is set back once, from the offset `a` to `b`. -/
def setBack (change a b : Int) (hback : b ≤ a) (hday : a ≤ b + day) : Zone where
  offset u := if u < change then a else b
  wall w := if w < change + a then a else b
  wallLate w := if w < change + b then a else b
  wall_eq w := by
    by_cases hw : w < change + a
    · exact ⟨change - 1, by simp [hw]⟩
    · exact ⟨change, by simp [hw]⟩
  spread u v := by
    unfold day at hday
    unfold hour
    split_ifs <;> omega
  reading_le w := by split_ifs <;> omega
  shows u := by split_ifs <;> omega
  repeated u v h := by split_ifs at h <;> omega
  midnights d e h := by
    unfold day
    split_ifs <;> omega

end Zone

end AgenticKibana.Library.Zones
