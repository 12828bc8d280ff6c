import AgenticKibana.Library.Doubles
import AgenticKibana.Cases.ForwardScan

/-!
# The cases of a window

A listing asks for the cases that were created between two bounds.  The table compares the
spelling in the column, the search index the instant, and the rule that both are to agree with
whole milliseconds: they agree unless a bound lies between the instant of a case and the
timestamp, rounded twice, that its millisecond is cut from.
-/

namespace AgenticKibana.Cases

open AgenticKibana.Library
open AgenticKibana.Library.Calendar
open AgenticKibana.Library.Doubles (toDouble abs_toDouble_sub_le)

def epoch : Instant := daysBeforeYear 1970 * day

/-- `to_millis`: `int(dt.timestamp() * 1000)`, with the roundings of the division and of the
product. -/
def toMillis (t : Instant) : Int :=
  let millis := toDouble (toDouble ((t - epoch : ℚ) / 1000000) * 1000)
  Int.tdiv millis.num millis.den

/-- What a listing takes from the runtime: the readers of timestamps, and the milliseconds that a
text beginning with `now` stands for. -/
structure Clock extends Runtime where
  relative : Text → Option Int

structure WindowQuery where
  createdFrom : Option Text := none
  createdTo : Option Text := none
  status : Option Text := none
  sourceSurface : Option Text := none
  entityValue : Option Text := none
  statusGroup : Option Text := none
  limit : Nat := 50
  offset : Nat := 0

def relativeToMillisStrict (clock : Clock) (expr : Text) : Option Int :=
  let raw := TextLines.strip expr
  if raw = [] then none
  else if ['n', 'o', 'w'].isPrefixOf (raw.map Char.toLower) then clock.relative raw
  else (parseEsTimestamp clock.toRuntime raw).map toMillis

def boundMillis (clock : Clock) (bound : Option Text) : Option Int :=
  (bound.filter fun expr => !expr.isEmpty).bind (relativeToMillisStrict clock)

def boundInstant (millis : Int) : Instant := millis * 1000 + epoch

/-- `millis_to_iso_utc`; nothing where it raises an overflow. -/
def millisToIsoUtc (millis : Int) : Option Text :=
  if InRange (boundInstant millis) then some (isoUtc (boundInstant millis).toNat) else none

def isoBound : Option Int → Option (Option Text)
  | none => some none
  | some millis => (millisToIsoUtc millis).map some

/-! ### The rule -/

def caseStatusGroups : Dict Text (List Text) :=
  Dict.ofList [
    ("active".toList, ["new".toList, "open".toList, "needs_human".toList, "investigating".toList,
      "escalated".toList, "on_hold".toList]),
    ("terminal".toList, ["resolved".toList, "closed".toList])]

def statusGroupStatuses (group : Option Text) : Option (List Text) :=
  (group.filter fun name => !name.isEmpty).bind caseStatusGroups.get?

def caseInCreatedWindow (rt : Runtime) (c : Case) (lo hi : Option Int) : Bool :=
  if c.createdAt = [] then true
  else match (parseEsTimestamp rt c.createdAt).map toMillis with
    | none => true
    | some millis => lo.all (fun lo => decide (lo ≤ millis)) && hi.all fun hi =>
        decide (millis ≤ hi)

def caseInStatusGroup (c : Case) (statuses : Option (List Text)) : Bool :=
  statuses.all fun statuses => statuses.contains c.status

def isWanted (wanted : Option Text) (value : Text) : Bool :=
  wanted.all fun wanted => wanted.isEmpty || value == wanted

def WindowQuery.keepsCase (q : WindowQuery) (c : Case) : Bool :=
  isWanted q.status c.status && isWanted q.sourceSurface c.sourceSurface &&
    isWanted q.entityValue c.entityValue &&
      caseInStatusGroup c (statusGroupStatuses q.statusGroup)

def WindowQuery.inWindow (clock : Clock) (q : WindowQuery) (c : Case) : Bool :=
  q.keepsCase c && caseInCreatedWindow clock.toRuntime c (boundMillis clock q.createdFrom)
    (boundMillis clock q.createdTo)

/-- The window clause of `SqlCaseRepository.list_window`. -/
def columnInWindow (sameLetter : Char → Char → Bool) (lo hi : Option Text) (created : Text) :
    Bool :=
  created == [] || !looksCanonical sameLetter created ||
    (lo.all (fun lo => decide (lo ≤ created)) && hi.all fun hi => decide (created ≤ hi))

def WindowQuery.keepsRow (q : WindowQuery) (row : CaseRow) : Bool :=
  isWanted q.status row.status && isWanted q.sourceSurface row.surface &&
    isWanted q.entityValue row.entity &&
      (statusGroupStatuses q.statusGroup).all fun statuses => statuses.contains row.status

section Tables

variable (clock : Clock) (sameLetter : Char → Char → Bool) (order : CaseRow → CaseRow → Bool)

/-- The rows that `SqlCaseRepository.list_window` selects; nothing where a bound is out of range. -/
def selectedRows (q : WindowQuery) (rows : Rows) : Option (List CaseRow) :=
  (isoBound (boundMillis clock q.createdFrom)).bind fun lo =>
    (isoBound (boundMillis clock q.createdTo)).map fun hi =>
      rows.values.filter fun row =>
        q.keepsRow row && ((lo.isNone && hi.isNone) || columnInWindow sameLetter lo hi row.created)

def WindowQuery.page (q : WindowQuery) (rows : List CaseRow) : List Case :=
  (((rows.mergeSort order).drop q.offset).take q.limit).map CaseRow.doc

/-- `SqlCaseRepository.list_window`: the cases, the total, and whether every bound was read. -/
def listWindow (q : WindowQuery) (rows : Rows) : Option (List Case × Nat × Bool) :=
  (selectedRows clock sameLetter q rows).map fun selected =>
    (q.page order selected, selected.length,
      ((q.createdFrom.filter fun expr => !expr.isEmpty).isNone ||
          (boundMillis clock q.createdFrom).isSome) &&
        ((q.createdTo.filter fun expr => !expr.isEmpty).isNone ||
          (boundMillis clock q.createdTo).isSome))

/-- The cases that the query of the search index selects: those that are not outside.  A range
matches the cases whose instant lies in it. -/
def selectedCases (q : WindowQuery) (cases : List Case) : Option (List Case) :=
  let before (millis : Int) (t : Instant) : Bool := decide (t < boundInstant millis)
  let after (millis : Int) (t : Instant) : Bool := decide (boundInstant millis < t)
  let lo := boundMillis clock q.createdFrom
  let hi := boundMillis clock q.createdTo
  (isoBound lo).bind fun _ => (isoBound hi).map fun _ =>
    cases.filter fun c =>
      let instant := parseEsTimestamp clock.toRuntime c.createdAt
      q.keepsCase c && !(lo.any fun lo => instant.any (before lo)) &&
        !(hi.any fun hi => instant.any (after hi))

end Tables

/-! ### Where the listings agree -/

open Option

def InstantBetween (lo hi : Option Int) (t : Instant) : Prop :=
  (∀ millis, lo = some millis → boundInstant millis ≤ t) ∧
    ∀ millis, hi = some millis → t ≤ boundInstant millis

def MillisBetween (lo hi : Option Int) (t : Instant) : Prop :=
  (∀ millis, lo = some millis → millis ≤ toMillis t) ∧
    ∀ millis, hi = some millis → toMillis t ≤ millis

/-- `dt.timestamp() * 1000`. -/
def stamp (t : Instant) : ℚ := toDouble (toDouble ((t - epoch : ℚ) / 1000000) * 1000)

/-- A number reaches a lower bound once it is cut towards zero. -/
def Reaches (lo : Int) (x : ℚ) : Prop := (lo : ℚ) ≤ x ∨ lo ≤ 0 ∧ (lo : ℚ) < x + 1

def StaysWithin (hi : Int) (x : ℚ) : Prop := x ≤ (hi : ℚ) ∨ 0 ≤ hi ∧ x < (hi : ℚ) + 1

/-- No bound lies between an instant and its timestamp.  An instant behind the upper bound has not
less than a millisecond to it, up to the roundings, unless its timestamp misses the lower bound; one
before the lower bound likewise.  The roundings do not take an instant of the window over a bound.
-/
structure Placed (lo hi : Option Int) (t : Instant) : Prop where
  late : ∀ h, hi = some h → boundInstant h < t → (∀ l, lo = some l → Reaches l (stamp t)) →
    ¬StaysWithin h (stamp t)
  early : ∀ l, lo = some l → t < boundInstant l → (∀ h, hi = some h → StaysWithin h (stamp t)) →
    ¬Reaches l (stamp t)
  roundedDown : ∀ l, lo = some l → 0 < l → boundInstant l ≤ t →
    (∀ h, hi = some h → t ≤ boundInstant h) → (l : ℚ) ≤ stamp t
  roundedUp : ∀ h, hi = some h → h < 0 → t ≤ boundInstant h →
    (∀ l, lo = some l → boundInstant l ≤ t) → stamp t ≤ (h : ℚ)

def IsPlaced (clock : Clock) (q : WindowQuery) (c : Case) : Prop :=
  ∀ t, parseEsTimestamp clock.toRuntime c.createdAt = some t →
    Placed (boundMillis clock q.createdFrom) (boundMillis clock q.createdTo) t

/-- A bound is an instant that a `datetime` can name. -/
def IsNamed (clock : Clock) (bound : Option Text) : Prop :=
  ∀ millis, boundMillis clock bound = some millis → InRange (boundInstant millis)

def RowsSaved (rt : Runtime) (rows : Rows) : Prop :=
  ∀ row ∈ rows.values, canonicalCreatedAt rt row.doc.createdAt = some row.created ∧
    row.status = row.doc.status ∧ row.surface = row.doc.sourceSurface ∧
      row.entity = row.doc.entityValue

section Saving

variable {rt : Runtime} {rows rows' : Rows}

theorem rowsSaved_empty (rt : Runtime) : RowsSaved rt Dict.empty := by
  intro row hrow
  cases hrow

theorem RowsSaved.save (h : RowsSaved rt rows) {c : Case} (hsave : save rt rows c = some rows') :
    RowsSaved rt rows' := by
  obtain ⟨created, hcreated, rfl⟩ := map_eq_some_iff.mp hsave
  intro row hrow
  obtain ⟨id, hid⟩ := Dict.mem_values_iff.mp hrow
  rw [Dict.get?_set] at hid
  split at hid
  · cases hid
    exact ⟨hcreated, rfl, rfl, rfl⟩
  · exact h row (Dict.mem_values_iff.mpr ⟨id, hid⟩)

/-- **Every table that was saved.** -/
theorem rowsSaved_of_saves {cases : List Case} (h : cases.foldlM (save rt) Dict.empty = some rows) :
    RowsSaved rt rows := by
  have hfold : ∀ (cases : List Case) {before rows : Rows}, RowsSaved rt before →
      cases.foldlM (save rt) before = some rows → RowsSaved rt rows := by
    intro cases
    induction cases with
    | nil =>
      intro before rows hbefore h
      cases h
      exact hbefore
    | cons c cases ih =>
      intro before rows hbefore h
      rw [List.foldlM_cons] at h
      obtain ⟨next, hnext, hrest⟩ := bind_eq_some_iff.mp h
      exact ih (hbefore.save hnext) hrest
  exact hfold cases (rowsSaved_empty rt) h

end Saving

/-! ### The millisecond of an instant -/

section Millis

variable {t : Instant} {lo hi : Option Int}

theorem tdiv_num_den (x : ℚ) : Int.tdiv x.num x.den = if 0 ≤ x then ⌊x⌋ else ⌈x⌉ := by
  split
  · rename_i hx
    exact (Int.tdiv_eq_ediv_of_nonneg (Rat.num_nonneg.mpr hx)).trans (Rat.floor_def x).symm
  · rename_i hx
    have hneg : 0 ≤ (-x).num := Rat.num_nonneg.mpr (by linarith)
    have hfloor : ⌊-x⌋ = Int.tdiv (-x).num (-x).den :=
      (Rat.floor_def _).trans (Int.tdiv_eq_ediv_of_nonneg hneg).symm
    rw [Rat.num_neg_eq_neg_num, Rat.den_neg_eq_den, Int.neg_tdiv, Int.floor_neg] at hfloor
    exact (neg_inj.mp hfloor).symm

theorem le_toMillis_iff (l : Int) : l ≤ toMillis t ↔ Reaches l (stamp t) := by
  change l ≤ Int.tdiv (stamp t).num (stamp t).den ↔ _
  rw [tdiv_num_den]
  unfold Reaches
  split
  · rename_i hx
    rw [Int.le_floor]
    refine ⟨.inl, fun h => h.elim id fun h => ?_⟩
    have hl : (l : ℚ) ≤ 0 := by exact_mod_cast h.1
    linarith
  · rename_i hx
    rw [Int.le_ceil_iff]
    constructor
    · intro h
      have hl : (l : ℚ) < (1 : Int) := by
        push_cast
        linarith
      exact .inr ⟨Int.lt_add_one_iff.mp (by exact_mod_cast hl), by linarith⟩
    · rintro (h | ⟨-, h⟩)
      · linarith
      · linarith

theorem toMillis_le_iff (h : Int) : toMillis t ≤ h ↔ StaysWithin h (stamp t) := by
  change Int.tdiv (stamp t).num (stamp t).den ≤ h ↔ _
  rw [tdiv_num_den]
  unfold StaysWithin
  split
  · rename_i hx
    rw [Int.floor_le_iff]
    constructor
    · intro hlt
      have hh : ((-1 : Int) : ℚ) < h := by
        push_cast
        linarith
      have hh' : -1 < h := by exact_mod_cast hh
      exact .inr ⟨by omega, hlt⟩
    · rintro (hle | ⟨-, hlt⟩)
      · linarith
      · exact hlt
  · rename_i hx
    rw [Int.ceil_le]
    refine ⟨.inl, fun hor => hor.elim id fun hor => ?_⟩
    have hh : (0 : ℚ) ≤ h := by exact_mod_cast hor.1
    linarith

/-- **The two roundings** move the timestamp of a date by less than a millisecond. -/
theorem abs_stamp_sub_lt (ht : InRange t) : |stamp t - (t - epoch : ℚ) / 1000| < 1 := by
  obtain ⟨hfrom, hto⟩ := ht
  have hepoch : epoch = 62135596800000000 := by decide
  have hlast : (daysBeforeYear 10000 : Int) * day = 315537897600000000 := by decide
  have hfrom' : (0 : ℚ) ≤ t := by exact_mod_cast hfrom
  have hto' : (t : ℚ) < 315537897600000000 := by exact_mod_cast hlast ▸ hto
  have hepoch' : (epoch : ℚ) = 62135596800000000 := by exact_mod_cast hepoch
  have hsize : |(t - epoch : ℚ) / 1000000| ≤ 253402300800 := by
    rw [abs_le, hepoch']
    constructor <;> linarith
  have hmillis : (t - epoch : ℚ) / 1000 = (t - epoch : ℚ) / 1000000 * 1000 := by ring
  unfold stamp
  rw [hmillis]
  generalize (t - epoch : ℚ) / 1000000 = x at hsize ⊢
  have hseconds := abs_le.mp ((abs_toDouble_sub_le x).trans
    (div_le_div_of_nonneg_right hsize (by norm_num)))
  have hwhole : |toDouble x * 1000| ≤ 300000000000000 := by
    obtain ⟨hfrom, hto⟩ := abs_le.mp hsize
    rw [abs_le]
    constructor <;> linarith [hseconds.1, hseconds.2]
  have hstamp := abs_le.mp ((abs_toDouble_sub_le (toDouble x * 1000)).trans
    (div_le_div_of_nonneg_right hwhole (by norm_num)))
  rw [abs_lt]
  constructor <;> linarith [hseconds.1, hseconds.2, hstamp.1, hstamp.2]

theorem stamp_close (ht : InRange t) (l : Int) :
    (boundInstant l ≤ t → (l : ℚ) < stamp t + 1) ∧
      (t ≤ boundInstant l → stamp t < (l : ℚ) + 1) := by
  have hclose := abs_lt.mp (abs_stamp_sub_lt ht)
  have hbound : (boundInstant l : ℚ) = l * 1000 + epoch := by
    unfold boundInstant
    push_cast
    rfl
  refine ⟨fun h => ?_, fun h => ?_⟩
  · have h' : (boundInstant l : ℚ) ≤ t := by exact_mod_cast h
    linarith [hclose.1]
  · have h' : (t : ℚ) ≤ boundInstant l := by exact_mod_cast h
    linarith [hclose.2]

/-- **The instant and the millisecond** are in the same windows where no bound lies between them. -/
theorem between_iff_placed (ht : InRange t) :
    (InstantBetween lo hi t ↔ MillisBetween lo hi t) ↔ Placed lo hi t := by
  unfold InstantBetween MillisBetween
  simp only [le_toMillis_iff, toMillis_le_iff]
  constructor
  · intro h
    refine ⟨fun b hb hafter hlo hwithin => ?_, fun b hb hbefore hhi hreaches => ?_,
      fun b hb hpos hle hhi => ?_, fun b hb hneg hle hlo => ?_⟩
    · have hhi : ∀ b', hi = some b' → StaysWithin b' (stamp t) := fun b' hb' =>
        Option.some.inj (hb.symm.trans hb') ▸ hwithin
      exact ((h.mpr ⟨hlo, hhi⟩).2 b hb).not_gt hafter
    · have hlo : ∀ b', lo = some b' → Reaches b' (stamp t) := fun b' hb' =>
        Option.some.inj (hb.symm.trans hb') ▸ hreaches
      exact ((h.mpr ⟨hlo, hhi⟩).1 b hb).not_gt hbefore
    · have hlo : ∀ b', lo = some b' → boundInstant b' ≤ t := fun b' hb' =>
        Option.some.inj (hb.symm.trans hb') ▸ hle
      exact ((h.mp ⟨hlo, hhi⟩).1 b hb).resolve_right (by omega)
    · have hhi : ∀ b', hi = some b' → t ≤ boundInstant b' := fun b' hb' =>
        Option.some.inj (hb.symm.trans hb') ▸ hle
      exact ((h.mp ⟨hlo, hhi⟩).2 b hb).resolve_right (by omega)
  · intro h
    constructor
    · rintro ⟨hlo, hhi⟩
      refine ⟨fun b hb => ?_, fun b hb => ?_⟩
      · rcases le_or_gt b 0 with hb' | hpos
        · exact .inr ⟨hb', (stamp_close ht b).1 (hlo b hb)⟩
        · exact .inl (h.roundedDown b hb hpos (hlo b hb) hhi)
      · rcases le_or_gt 0 b with hb' | hneg
        · exact .inr ⟨hb', (stamp_close ht b).2 (hhi b hb)⟩
        · exact .inl (h.roundedUp b hb hneg (hhi b hb) hlo)
    · rintro ⟨hlo, hhi⟩
      refine ⟨fun b hb => ?_, fun b hb => ?_⟩
      · by_contra hbefore
        exact h.early b hb (lt_of_not_ge hbefore) hhi (hlo b hb)
      · by_contra hafter
        exact h.late b hb (lt_of_not_ge hafter) hlo (hhi b hb)

theorem inRange_of_canonical {rt : Runtime} {value : Text}
    (h : (canonicalCreatedAt rt value).isSome = true) (ht : parseEsTimestamp rt value = some t) :
    InRange t := by
  unfold canonicalCreatedAt at h
  rw [ht] at h
  dsimp only at h
  split at h
  · assumption
  · cases h

theorem isPlaced_iff {clock : Clock} {q : WindowQuery} {c : Case}
    (h : (canonicalCreatedAt clock.toRuntime c.createdAt).isSome = true) :
    IsPlaced clock q c ↔ ∀ t, parseEsTimestamp clock.toRuntime c.createdAt = some t →
      (InstantBetween (boundMillis clock q.createdFrom) (boundMillis clock q.createdTo) t ↔
        MillisBetween (boundMillis clock q.createdFrom) (boundMillis clock q.createdTo) t) :=
  forall₂_congr fun _ ht => (between_iff_placed (inRange_of_canonical h ht)).symm

end Millis

/-! ### One case -/

section Cases

variable {clock : Clock} {sameLetter : Char → Char → Bool} {q : WindowQuery} {lo hi : Option Int}
  {lo' hi' : Option Text} {c : Case} {t : Instant} {row : CaseRow}

theorem keepsRow_eq (hstatus : row.status = row.doc.status)
    (hsurface : row.surface = row.doc.sourceSurface) (hentity : row.entity = row.doc.entityValue) :
    q.keepsRow row = q.keepsCase row.doc := by
  unfold WindowQuery.keepsRow WindowQuery.keepsCase caseInStatusGroup
  rw [hstatus, hsurface, hentity]

theorem caseInCreatedWindow_of_some (ht : parseEsTimestamp clock.toRuntime c.createdAt = some t) :
    caseInCreatedWindow clock.toRuntime c lo hi = true ↔ MillisBetween lo hi t := by
  have hne : c.createdAt ≠ [] := by
    intro hnil
    rw [hnil] at ht
    cases ht
  unfold caseInCreatedWindow MillisBetween
  rw [if_neg hne, ht, map_some]
  dsimp only
  rw [Bool.and_eq_true, Option.all_eq_true, Option.all_eq_true]
  simp only [decide_eq_true_eq]

theorem caseInCreatedWindow_of_none (ht : parseEsTimestamp clock.toRuntime c.createdAt = none) :
    caseInCreatedWindow clock.toRuntime c lo hi = true := by
  unfold caseInCreatedWindow
  rw [ht]
  split <;> rfl

theorem toNat_le_toNat_iff {a b : Int} (ha : 0 ≤ a) (hb : 0 ≤ b) : a.toNat ≤ b.toNat ↔ a ≤ b := by
  omega

theorem toNat_lt_of_inRange (ht : InRange t) : t.toNat < daysBeforeYear 10000 * day := by
  rw [Int.toNat_lt ht.1]
  push_cast
  exact ht.2

theorem isoBound_le {millis : Int} {text : Text} (hbound : millisToIsoUtc millis = some text)
    (ht : InRange t) :
    (text ≤ isoUtc t.toNat ↔ boundInstant millis ≤ t) ∧
      (isoUtc t.toNat ≤ text ↔ t ≤ boundInstant millis) := by
  unfold millisToIsoUtc at hbound
  split at hbound
  · rename_i hrange
    cases hbound
    have hb := toNat_lt_of_inRange hrange
    have ht' := toNat_lt_of_inRange ht
    exact ⟨(isoUtc_le_iff hb ht').trans (toNat_le_toNat_iff hrange.1 ht.1),
      (isoUtc_le_iff ht' hb).trans (toNat_le_toNat_iff ht.1 hrange.1)⟩
  · cases hbound

/-- **The column of a case that can be read** is in the window with its instant. -/
theorem columnInWindow_iff (hsame : ∀ ch, sameLetter ch ch = true)
    (hlo : isoBound lo = some lo') (hhi : isoBound hi = some hi') (ht : InRange t) :
    ((lo'.isNone && hi'.isNone) || columnInWindow sameLetter lo' hi' (isoUtc t.toNat)) = true ↔
      InstantBetween lo hi t := by
  have ht' := toNat_lt_of_inRange ht
  have hne : (isoUtc t.toNat == []) = false := beq_false_of_ne (isoUtc_ne_nil _)
  unfold columnInWindow
  rw [hne, looksCanonical_isoUtc hsame ht', Bool.not_true, Bool.false_or, Bool.false_or]
  have hlower : (lo'.all fun lo => decide (lo ≤ isoUtc t.toNat)) = true ↔
      ∀ millis, lo = some millis → boundInstant millis ≤ t := by
    cases lo with
    | none =>
      cases hlo
      simp
    | some millis =>
      obtain ⟨text, htext, rfl⟩ := map_eq_some_iff.mp hlo
      rw [all_some, decide_eq_true_eq, (isoBound_le htext ht).1]
      simp
  have hupper : (hi'.all fun hi => decide (isoUtc t.toNat ≤ hi)) = true ↔
      ∀ millis, hi = some millis → t ≤ boundInstant millis := by
    cases hi with
    | none =>
      cases hhi
      simp
    | some millis =>
      obtain ⟨text, htext, rfl⟩ := map_eq_some_iff.mp hhi
      rw [all_some, decide_eq_true_eq, (isoBound_le htext ht).2]
      simp
  unfold InstantBetween
  rw [← hlower, ← hupper, Bool.or_eq_true, Bool.and_eq_true, Bool.and_eq_true]
  constructor
  · rintro (⟨hnone, hnone'⟩ | h)
    · rw [isNone_iff_eq_none] at hnone hnone'
      rw [hnone, hnone']
      exact ⟨rfl, rfl⟩
    · exact h
  · exact .inr

theorem columnInWindow_nil : columnInWindow sameLetter lo' hi' [] = true := by
  unfold columnInWindow
  rfl

theorem notOutside_iff (lo hi : Option Int) (t : Instant) :
    (!(lo.any fun lo => decide (t < boundInstant lo)) &&
      !(hi.any fun hi => decide (boundInstant hi < t))) = true ↔ InstantBetween lo hi t := by
  unfold InstantBetween
  rw [Bool.and_eq_true, Bool.not_eq_true', Bool.not_eq_true']
  refine and_congr ?_ ?_
  · cases lo <;> simp
  · cases hi <;> simp

theorem isoBound_isSome {bound : Option Text} :
    (∃ text, isoBound (boundMillis clock bound) = some text) ↔ IsNamed clock bound := by
  unfold IsNamed
  cases boundMillis clock bound with
  | none => simp [isoBound]
  | some millis =>
    unfold isoBound millisToIsoUtc
    by_cases hrange : InRange (boundInstant millis)
    · simp [hrange]
    · simp [hrange]

theorem inWindow_iff : q.inWindow clock c = true ↔ q.keepsCase c = true ∧
    ∀ t, parseEsTimestamp clock.toRuntime c.createdAt = some t →
      MillisBetween (boundMillis clock q.createdFrom) (boundMillis clock q.createdTo) t := by
  unfold WindowQuery.inWindow
  rw [Bool.and_eq_true]
  refine and_congr_right fun _ => ?_
  cases ht : parseEsTimestamp clock.toRuntime c.createdAt with
  | none =>
    rw [caseInCreatedWindow_of_none ht]
    simp
  | some t =>
    rw [caseInCreatedWindow_of_some ht]
    simp

theorem rowInWindow_iff (hsame : ∀ ch, sameLetter ch ch = true) (hlo : isoBound lo = some lo')
    (hhi : isoBound hi = some hi')
    (hcreated : canonicalCreatedAt clock.toRuntime row.doc.createdAt = some row.created) :
    ((lo'.isNone && hi'.isNone) || columnInWindow sameLetter lo' hi' row.created) = true ↔
      ∀ t, parseEsTimestamp clock.toRuntime row.doc.createdAt = some t →
        InstantBetween lo hi t := by
  unfold canonicalCreatedAt at hcreated
  cases ht : parseEsTimestamp clock.toRuntime row.doc.createdAt with
  | none =>
    rw [ht] at hcreated
    rw [← Option.some.inj hcreated, columnInWindow_nil]
    simp
  | some t =>
    rw [ht] at hcreated
    dsimp only at hcreated
    split at hcreated
    · rename_i hrange
      rw [← Option.some.inj hcreated, columnInWindow_iff hsame hlo hhi hrange]
      simp
    · cases hcreated

theorem notOutside_case_iff :
    (!(lo.any fun lo => (parseEsTimestamp clock.toRuntime c.createdAt).any fun t =>
        decide (t < boundInstant lo)) &&
      !(hi.any fun hi => (parseEsTimestamp clock.toRuntime c.createdAt).any fun t =>
        decide (boundInstant hi < t))) = true ↔
      ∀ t, parseEsTimestamp clock.toRuntime c.createdAt = some t → InstantBetween lo hi t := by
  cases ht : parseEsTimestamp clock.toRuntime c.createdAt with
  | none => simp
  | some t =>
    have hiff := notOutside_iff lo hi t
    simp only [any_some]
    rw [hiff]
    simp

end Cases

section Listings

variable {clock : Clock} {sameLetter : Char → Char → Bool} {order : CaseRow → CaseRow → Bool}
  {rows : Rows} {row : CaseRow} {α : Type*}

theorem filter_eq_filter_iff {xs : List α} {p r : α → Bool} :
    xs.filter p = xs.filter r ↔ ∀ x ∈ xs, (p x = true ↔ r x = true) := by
  constructor
  · intro heq x hx
    have hmem : x ∈ xs.filter p ↔ x ∈ xs.filter r := by rw [heq]
    rw [List.mem_filter, List.mem_filter] at hmem
    simpa only [hx, true_and] using hmem
  · intro h
    exact List.filter_congr fun x hx => Bool.eq_iff_iff.mpr (h x hx)

theorem keeps_iff {kept : Prop} {instant : Option Instant} {I M : Instant → Prop} :
    ((kept ∧ ∀ t, instant = some t → I t) ↔ (kept ∧ ∀ t, instant = some t → M t)) ↔
      (kept → ∀ t, instant = some t → (I t ↔ M t)) := by
  cases instant with
  | none => simp
  | some t =>
    simp only [Option.some.injEq, forall_eq']
    tauto

theorem selectedRows_of_named (q : WindowQuery) (hfrom : IsNamed clock q.createdFrom)
    (hto : IsNamed clock q.createdTo) :
    ∃ lo hi, isoBound (boundMillis clock q.createdFrom) = some lo ∧
      isoBound (boundMillis clock q.createdTo) = some hi ∧
        selectedRows clock sameLetter q rows = some (rows.values.filter fun row =>
          q.keepsRow row &&
            ((lo.isNone && hi.isNone) || columnInWindow sameLetter lo hi row.created)) := by
  obtain ⟨lo, hlo⟩ := isoBound_isSome.mpr hfrom
  obtain ⟨hi, hhi⟩ := isoBound_isSome.mpr hto
  refine ⟨lo, hi, hlo, hhi, ?_⟩
  unfold selectedRows
  rw [hlo, hhi]
  rfl

variable {q : WindowQuery}

theorem named_of_isoBounds {f : Option Text → Option Text → α} {found : α}
    (h : ((isoBound (boundMillis clock q.createdFrom)).bind fun lo =>
      (isoBound (boundMillis clock q.createdTo)).map fun hi => f lo hi) = some found) :
    IsNamed clock q.createdFrom ∧ IsNamed clock q.createdTo := by
  obtain ⟨lo, hlo, hrest⟩ := bind_eq_some_iff.mp h
  obtain ⟨hi, hhi, -⟩ := map_eq_some_iff.mp hrest
  exact ⟨isoBound_isSome.mp ⟨lo, hlo⟩, isoBound_isSome.mp ⟨hi, hhi⟩⟩

/-- **The table selects the cases of the rule** exactly if it can name the bounds and none of them
lies between the instant of a case and its millisecond. -/
theorem selectedRows_iff (hsame : ∀ ch, sameLetter ch ch = true)
    (hrows : RowsSaved clock.toRuntime rows) (q : WindowQuery) :
    selectedRows clock sameLetter q rows =
        some (rows.values.filter fun row => q.inWindow clock row.doc) ↔
      (IsNamed clock q.createdFrom ∧ IsNamed clock q.createdTo) ∧
        ∀ row ∈ rows.values, q.keepsCase row.doc = true → IsPlaced clock q row.doc := by
  by_cases hnamed : IsNamed clock q.createdFrom ∧ IsNamed clock q.createdTo
  · obtain ⟨lo, hi, hlo, hhi, hselected⟩ :=
      @selectedRows_of_named clock sameLetter rows q hnamed.1 hnamed.2
    rw [hselected, Option.some.injEq, filter_eq_filter_iff, and_iff_right hnamed]
    refine forall₂_congr fun row hrow => ?_
    obtain ⟨hcreated, hstatus, hsurface, hentity⟩ := hrows row hrow
    rw [Bool.and_eq_true, keepsRow_eq hstatus hsurface hentity,
      rowInWindow_iff hsame hlo hhi hcreated, inWindow_iff, isPlaced_iff (by rw [hcreated]; rfl)]
    exact keeps_iff
  · constructor
    · intro h
      exact absurd (named_of_isoBounds h) hnamed
    · rintro ⟨h, -⟩
      exact absurd h hnamed

/-- **The search index** selects them under the same condition. -/
theorem selectedCases_iff {cases : List Case} (q : WindowQuery)
    (hcases : ∀ c ∈ cases, (canonicalCreatedAt clock.toRuntime c.createdAt).isSome = true) :
    selectedCases clock q cases = some (cases.filter (q.inWindow clock)) ↔
      (IsNamed clock q.createdFrom ∧ IsNamed clock q.createdTo) ∧
        ∀ c ∈ cases, q.keepsCase c = true → IsPlaced clock q c := by
  by_cases hnamed : IsNamed clock q.createdFrom ∧ IsNamed clock q.createdTo
  · obtain ⟨lo, hlo⟩ := isoBound_isSome.mpr hnamed.1
    obtain ⟨hi, hhi⟩ := isoBound_isSome.mpr hnamed.2
    unfold selectedCases
    dsimp only
    rw [hlo, hhi, bind_some, map_some, Option.some.injEq, filter_eq_filter_iff,
      and_iff_right hnamed]
    refine forall₂_congr fun c hc => ?_
    rw [Bool.and_assoc, Bool.and_eq_true, notOutside_case_iff, inWindow_iff,
      isPlaced_iff (hcases c hc)]
    exact keeps_iff
  · constructor
    · intro h
      exact absurd (named_of_isoBounds h) hnamed
    · rintro ⟨h, -⟩
      exact absurd h hnamed

theorem unreadable_selected (hsame : ∀ ch, sameLetter ch ch = true)
    (hrows : RowsSaved clock.toRuntime rows) {selected : List CaseRow}
    (h : selectedRows clock sameLetter q rows = some selected) (hrow : row ∈ rows.values)
    (hkept : q.keepsCase row.doc = true)
    (hnone : parseEsTimestamp clock.toRuntime row.doc.createdAt = none) : row ∈ selected := by
  have hnamed := named_of_isoBounds h
  obtain ⟨lo, hi, hlo, hhi, hselected⟩ :=
    @selectedRows_of_named clock sameLetter rows q hnamed.1 hnamed.2
  obtain ⟨hcreated, hstatus, hsurface, hentity⟩ := hrows row hrow
  rw [hselected] at h
  rw [← Option.some.inj h, List.mem_filter, Bool.and_eq_true, keepsRow_eq hstatus hsurface hentity,
    rowInWindow_iff hsame hlo hhi hcreated]
  refine ⟨hrow, hkept, ?_⟩
  intro t ht
  rw [hnone] at ht
  cases ht

end Listings

/-- `datetime.fromisoformat` of such a text, or one with six digits of a second in it. -/
def fractionIso (text : Text) : Option (Int × Option Int) :=
  if text[19]? = some '.' then
    (plainIso (text.take 19 ++ text.drop 26)).map fun m =>
      (m.1 + digits ((text.drop 20).take 6), m.2)
  else plainIso text

def plainClock : Clock where
  fromIso := fractionIso
  fromEpoch _ := none
  digit := Char.isDigit
  relative _ := none

def earlyCase (micros : Text) : Case :=
  caseAt ['a'] ("1970-01-01T00:00:01".toList ++ '.' :: micros ++ "+00:00".toList)

def upToSecond : WindowQuery where
  createdTo := some "1970-01-01T00:00:01+00:00".toList

def savedCases (cases : List Case) : Option Rows :=
  cases.foldlM (save plainClock.toRuntime) Dict.empty

end AgenticKibana.Cases
