import AgenticKibana.Library.Calendar
import AgenticKibana.Library.Dict
import AgenticKibana.Library.Keyset
import AgenticKibana.Library.TextLines
import AgenticKibana.Library.Machine

/-!
# The table of the cases, and scanning it forward

A case keeps the creation time it was given as a text.  The column beside it holds the same
instant in one spelling, or nothing when the text cannot be read.  Instants in it are ordered as
texts as they are in time.  A scan reads the table page by page behind the last row it has seen; a
save writes the column in its canonical spelling, so a row with another spelling changes its
place: one that crosses the cursor is missed, or read twice.
-/

namespace AgenticKibana.Cases

open AgenticKibana.Library
open AgenticKibana.Library.Calendar

abbrev Text := List Char

/-! ### Instants -/

/-- Microseconds since the beginning of year one, in UTC. -/
abbrev Instant := Int

def second : Nat := 1000000
def minute : Nat := 60 * second
def hour : Nat := 60 * minute
def day : Nat := 24 * hour

/-- The instants that a `datetime` can name: the years one to 9999. -/
def InRange (t : Instant) : Prop := 0 ≤ t ∧ t < (daysBeforeYear 10000 : Int) * day

instance (t : Instant) : Decidable (InRange t) := inferInstanceAs (Decidable (_ ∧ _))

def pad (width n : Nat) : Text :=
  let digits := Nat.toDigits 10 n
  List.replicate (width - digits.length) '0' ++ digits

theorem one_le_dayNumber (t : Nat) : 1 ≤ t / day + 1 := Nat.le_add_left 1 _

/-- `datetime.isoformat()` of an instant in UTC. -/
def isoUtc (t : Nat) : Text :=
  let date := ofOrdinal (t / day + 1) (one_le_dayNumber t)
  let clock := t % day
  let micros := clock % second
  pad 4 date.year ++ '-' :: pad 2 date.month ++ '-' :: pad 2 date.day ++ 'T' ::
    pad 2 (clock / hour) ++ ':' :: pad 2 (clock % hour / minute) ++ ':' ::
    pad 2 (clock % minute / second) ++
    (if micros = 0 then [] else '.' :: pad 6 micros) ++ ['+', '0', '0', ':', '0', '0']

/-- What the code takes from the runtime: `datetime.fromisoformat` (the wall time, and the offset if
there is one), the instant of a number of seconds, and the digits of a pattern. -/
structure Runtime where
  fromIso : Text → Option (Int × Option Int)
  fromEpoch : Text → Option Instant
  digit : Char → Bool

section Reading

variable (rt : Runtime)

/-- `-?\d+(\.\d+)?` as a whole. -/
def isEpoch (text : Text) : Bool :=
  let body := if text.head? = some '-' then text.tail else text
  let rest := body.dropWhile rt.digit
  !(body.takeWhile rt.digit).isEmpty &&
    (rest.isEmpty ||
      (rest.head? == some '.' && !rest.tail.isEmpty && rest.tail.all rt.digit))

/-- `re.sub(r"[zZ]$", "+00:00", s)`. -/
def spellZulu (text : Text) : Text :=
  match text.getLast? with
  | some 'z' => text.dropLast ++ ['+', '0', '0', ':', '0', '0']
  | some 'Z' => text.dropLast ++ ['+', '0', '0', ':', '0', '0']
  | _ => text

/-- `parse_es_timestamp` of a text: the instant, which may lie beyond the years of a `datetime`. -/
def parseEsTimestamp (value : Text) : Option Instant :=
  let s := TextLines.strip value
  if s = [] then none
  else if isEpoch rt s then rt.fromEpoch s
  else (rt.fromIso (spellZulu s)).map fun m => m.1 - m.2.getD 0

/-- `_canonical_created_at`; nothing where `astimezone` raises an overflow. -/
def canonicalCreatedAt (value : Text) : Option Text :=
  match parseEsTimestamp rt value with
  | none => some []
  | some t => if InRange t then some (isoUtc t.toNat) else none

end Reading

/-- `text LIKE pattern`; whether letters match regardless of their case depends on the database. -/
def like (sameLetter : Char → Char → Bool) : Text → Text → Bool
  | [], text => text.isEmpty
  | c :: pattern, text =>
    if c = '%' then text.tails.any fun rest => like sameLetter pattern rest
    else match text with
      | [] => false
      | d :: rest => (c == '_' || sameLetter c d) && like sameLetter pattern rest

/-- `_ISO_CREATED_AT_SHAPE` and `_ISO_CREATED_AT_UTC_TAIL`. -/
def looksCanonical (sameLetter : Char → Char → Bool) (column : Text) : Bool :=
  like sameLetter "____-__-__T__:__:__%".toList column &&
    like sameLetter "%+00:00".toList column

/-! ### The table -/

structure Case where
  caseId : Text
  createdAt : Text
  updatedAt : Text
  status : Text
  sourceSurface : Text
  entityValue : Text
  deriving DecidableEq

structure CaseRow where
  created : Text
  updated : Text
  status : Text
  surface : Text
  entity : Text
  doc : Case
  deriving DecidableEq

abbrev Rows := Dict Text CaseRow

/-- `SqlCaseRepository.save`; nothing where the creation time cannot be brought to UTC. -/
def save (rt : Runtime) (rows : Rows) (c : Case) : Option Rows :=
  (canonicalCreatedAt rt c.createdAt).map fun created =>
    rows.set c.caseId ⟨created, c.updatedAt, c.status, c.sourceSurface, c.entityValue, c⟩

/-- What `_created_keep` asks of a column: a spelling that cannot be placed is kept. -/
def createdKeep (sameLetter : Char → Char → Bool) (lo hi : Option Text) (created : Text) : Bool :=
  (lo.isNone && hi.isNone) || created == [] || !looksCanonical sameLetter created ||
    (lo.all (fun b => decide (b ≤ created)) && hi.all fun b => decide (created < b))

structure ScanFilter where
  sameLetter : Char → Char → Bool
  lo : Option Text := none
  hi : Option Text := none
  statuses : Option (List Text) := none

def ScanFilter.keep (f : ScanFilter) (row : CaseRow) : Bool :=
  createdKeep f.sameLetter f.lo f.hi row.created &&
    f.statuses.all fun wanted => wanted.contains row.status

/-- `max(1, min(int(limit or 1000), 5000))`. -/
def pageCap (limit : Int) : Nat :=
  (max 1 (min (if limit = 0 then 1000 else limit) 5000)).toNat

theorem pageCap_pos (limit : Int) : 0 < pageCap limit := by
  unfold pageCap
  omega

variable {rt : Runtime}

theorem get?_save {rows rows' : Rows} {c : Case} (h : save rt rows c = some rows') (id : Text)
    (hne : id ≠ c.caseId) : rows'.get? id = rows.get? id := by
  unfold save at h
  obtain ⟨created, -, rfl⟩ := Option.map_eq_some_iff.mp h
  exact Dict.get?_set_of_ne _ _ hne

/-! ### The order of the canonical spelling -/

open List

theorem append_lt_append_of_lt {xs ys : Text} (hlength : xs.length = ys.length) (h : xs < ys)
    (rest rest' : Text) : xs ++ rest < ys ++ rest' := by
  induction xs generalizing ys with
  | nil =>
    rw [eq_nil_of_length_eq_zero hlength.symm] at h
    exact absurd h (not_lt_nil _)
  | cons x xs ih =>
    cases ys with
    | nil => cases hlength
    | cons y ys =>
      rw [cons_lt_cons_iff] at h
      rw [cons_append, cons_append, cons_lt_cons_iff]
      refine h.imp_right ?_
      rintro ⟨hxy, hrest⟩
      exact ⟨hxy, ih (Nat.succ.inj hlength) hrest⟩

theorem append_lt_append_left (xs : Text) {rest rest' : Text} (h : rest < rest') :
    xs ++ rest < xs ++ rest' := by
  induction xs with
  | nil => exact h
  | cons x xs ih =>
    rw [cons_append, cons_append, cons_lt_cons_iff]
    exact .inr ⟨rfl, ih⟩

variable {width n : Nat}

theorem length_toDigits_le (h : n < 10 ^ (width + 1)) : (Nat.toDigits 10 n).length ≤ width + 1 :=
  (Nat.length_toDigits_le_iff (by decide) (Nat.succ_pos width)).mpr h

theorem length_pad (h : n < 10 ^ (width + 1)) : (pad (width + 1) n).length = width + 1 := by
  have hle := length_toDigits_le h
  unfold pad
  dsimp only
  rw [length_append, length_replicate]
  omega

theorem pad_succ (width n : Nat) :
    pad (width + 2) n = pad (width + 1) (n / 10) ++ [Nat.digitChar (n % 10)] := by
  unfold pad
  dsimp only
  by_cases hn : n < 10
  · rw [Nat.toDigits_of_lt_base hn, Nat.div_eq_of_lt hn, Nat.toDigits_zero, Nat.mod_eq_of_lt hn]
    change List.replicate (width + 1) '0' ++ _ = List.replicate width '0' ++ ['0'] ++ _
    rw [← replicate_succ']
  · have hwidth : width + 2 - ((Nat.toDigits 10 (n / 10)).length + 1) =
        width + 1 - (Nat.toDigits 10 (n / 10)).length := by
      omega
    rw [Nat.toDigits_of_base_le (by decide) (by omega), length_append, length_singleton,
      hwidth, append_assoc]

theorem digitChar_lt {a b : Nat} (h : a < b) (hb : b < 10) : Nat.digitChar a < Nat.digitChar b := by
  have ha : a < 10 := by omega
  interval_cases b <;> interval_cases a <;> first | omega | decide

variable {m : Nat}

theorem pad_lt (h : n < m) (hm : m < 10 ^ (width + 1)) :
    pad (width + 1) n < pad (width + 1) m := by
  induction width generalizing n m with
  | zero =>
    have hm' : m < 10 := by omega
    unfold pad
    rw [Nat.toDigits_of_lt_base hm', Nat.toDigits_of_lt_base (h.trans hm')]
    exact cons_lt_cons_iff.mpr (.inl (digitChar_lt h hm'))
  | succ width ih =>
    have hpow : 10 ^ (width + 2) = 10 ^ (width + 1) * 10 := pow_succ 10 (width + 1)
    rw [pad_succ, pad_succ]
    by_cases hdiv : n / 10 = m / 10
    · rw [hdiv]
      refine append_lt_append_left _ (cons_lt_cons_iff.mpr (.inl (digitChar_lt ?_ ?_)))
      · omega
      · omega
    · refine append_lt_append_of_lt ?_ (ih ?_ ?_) _ _
      · rw [length_pad, length_pad]
        · omega
        · omega
      · omega
      · omega

theorem pad_append_lt (hn : n < 10 ^ (width + 1)) (hm : m < 10 ^ (width + 1)) {rest rest' : Text}
    (h : n < m ∨ n = m ∧ rest < rest') :
    pad (width + 1) n ++ rest < pad (width + 1) m ++ rest' := by
  rcases h with hlt | ⟨rfl, hrest⟩
  · exact append_lt_append_of_lt ((length_pad hn).trans (length_pad hm).symm) (pad_lt hlt hm) _ _
  · exact append_lt_append_left _ hrest

/-! ### The spelling -/

def isoTail (micros : Nat) : Text :=
  (if micros = 0 then [] else '.' :: pad 6 micros) ++ ['+', '0', '0', ':', '0', '0']

def dateOf (t : Nat) : Date := ofOrdinal (t / day + 1) (one_le_dayNumber t)

theorem isoUtc_eq (t : Nat) : isoUtc t =
    pad 4 (dateOf t).year ++ ('-' :: (pad 2 (dateOf t).month ++ ('-' :: (pad 2 (dateOf t).day ++
      ('T' :: (pad 2 (t % day / hour) ++ (':' :: (pad 2 (t % day % hour / minute) ++
        (':' :: (pad 2 (t % day % minute / second) ++ isoTail (t % day % second)))))))))))  := by
  unfold isoUtc isoTail dateOf
  simp only [append_assoc, cons_append]

theorem isoTail_lt (h : n < m) (hm : m < second) : isoTail n < isoTail m := by
  unfold isoTail
  rw [if_neg (by omega : m ≠ 0)]
  by_cases hn : n = 0
  · rw [if_pos hn, nil_append, cons_append]
    exact cons_lt_cons_iff.mpr (.inl (by decide))
  · rw [if_neg hn, cons_append, cons_append, cons_lt_cons_iff]
    refine .inr ⟨rfl, pad_append_lt ?_ ?_ (.inl h)⟩
    · exact (h.trans hm).trans_le (by decide)
    · exact hm.trans_le (by decide)

theorem monthDays_le (year month : Nat) : monthDays year month ≤ 31 := by
  unfold monthDays
  split
  · split <;> decide
  · split <;> decide

variable {t : Nat}

theorem dateOf_year (h : t < daysBeforeYear 10000 * day) : (dateOf t).year < 10 ^ 4 := by
  have hordinal := ordinal_ofOrdinal (Nat.le_add_left 1 (t / day))
  have hday : t / day < daysBeforeYear 10000 :=
    (Nat.div_lt_iff_lt_mul (by decide)).mpr h
  by_contra hyear
  have hmono := @daysBeforeYear_mono 10000 (dateOf t).year (by decide) (by omega)
  have hpos : 1 ≤ (dateOf t).dayOfYear := Date.dayOfYear_pos _
  unfold Date.ordinal at hordinal
  unfold dateOf at hmono hpos
  omega

theorem clock_lt {a b : Nat} (h : a < b) :
    a / hour < b / hour ∨ a / hour = b / hour ∧ (a % hour / minute < b % hour / minute ∨
      a % hour / minute = b % hour / minute ∧ (a % minute / second < b % minute / second ∨
        a % minute / second = b % minute / second ∧ a % second < b % second)) := by
  have hhour : hour = 3600000000 := rfl
  have hminute : minute = 60000000 := rfl
  have hsecond : second = 1000000 := rfl
  rw [hhour, hminute, hsecond]
  omega

variable {u : Nat}

/-- **Later instants have later spellings.** -/
theorem isoUtc_lt (h : t < u) (hu : u < daysBeforeYear 10000 * day) : isoUtc t < isoUtc u := by
  have hclock : ∀ t : Nat, t % day / hour < 10 ^ 2 ∧ t % day % hour / minute < 10 ^ 2 ∧
      t % day % minute / second < 10 ^ 2 ∧ t % day % second < second := by
    intro t
    unfold day hour minute second
    omega
  obtain ⟨hth, htm, hts, -⟩ := hclock t
  obtain ⟨huh, hum, hus, hut⟩ := hclock u
  have hty := dateOf_year (h.trans hu)
  have huy := dateOf_year hu
  have hmonth : ∀ d : Date, d.month < 10 ^ 2 := fun d => d.month_le.trans_lt (by decide)
  have hdayOf : ∀ d : Date, d.day < 10 ^ 2 := fun d =>
    (d.day_le.trans (monthDays_le _ _)).trans_lt (by decide)
  rw [isoUtc_eq, isoUtc_eq]
  have hcons : ∀ {c : Char} {rest rest' : Text}, rest < rest' → c :: rest < c :: rest' :=
    fun hrest => cons_lt_cons_iff.mpr (.inr ⟨rfl, hrest⟩)
  by_cases hdate : dateOf t = dateOf u
  · -- on the same day the clocks differ
    have hday : t / day = u / day := by
      have hordinal := congrArg Date.ordinal hdate
      unfold dateOf at hordinal
      rw [ordinal_ofOrdinal, ordinal_ofOrdinal] at hordinal
      exact Nat.succ.inj hordinal
    have hlt : t % day < u % day := by
      have ht := Nat.div_add_mod t day
      have hu := Nat.div_add_mod u day
      rw [hday] at ht
      omega
    rw [hdate]
    refine append_lt_append_left _ (hcons (append_lt_append_left _ (hcons
      (append_lt_append_left _ (hcons (pad_append_lt hth huh ?_))))))
    rcases clock_lt hlt with hh | ⟨hh, hm | ⟨hm, hs | ⟨hs, hmicros⟩⟩⟩
    · exact .inl hh
    · exact .inr ⟨hh, hcons (pad_append_lt htm hum (.inl hm))⟩
    · exact .inr ⟨hh, hcons (pad_append_lt htm hum (.inr ⟨hm, hcons
        (pad_append_lt hts hus (.inl hs))⟩))⟩
    · exact .inr ⟨hh, hcons (pad_append_lt htm hum (.inr ⟨hm, hcons
        (pad_append_lt hts hus (.inr ⟨hs, isoTail_lt hmicros hut⟩))⟩))⟩
  · -- the date decides
    have hordinal : (dateOf t).ordinal < (dateOf u).ordinal := by
      have hle : t / day ≤ u / day := Nat.div_le_div_right h.le
      have hne : (dateOf t).ordinal ≠ (dateOf u).ordinal := fun heq => hdate (Date.ordinal_inj heq)
      unfold dateOf at hne ⊢
      rw [ordinal_ofOrdinal, ordinal_ofOrdinal] at hne ⊢
      omega
    rcases Date.ordinal_lt_iff.mp hordinal with hy | ⟨hy, hm | ⟨hm, hd⟩⟩
    · exact pad_append_lt hty huy (.inl hy)
    · exact pad_append_lt hty huy (.inr ⟨hy, hcons
        (pad_append_lt (hmonth _) (hmonth _) (.inl hm))⟩)
    · exact pad_append_lt hty huy (.inr ⟨hy, hcons
        (pad_append_lt (hmonth _) (hmonth _) (.inr ⟨hm, hcons
          (pad_append_lt (hdayOf _) (hdayOf _) (.inl hd))⟩))⟩)

/-- **The canonical spelling keeps the order.** -/
theorem isoUtc_le_iff (ht : t < daysBeforeYear 10000 * day) (hu : u < daysBeforeYear 10000 * day) :
    isoUtc t ≤ isoUtc u ↔ t ≤ u := by
  constructor
  · intro hle
    by_contra hlt
    exact absurd (isoUtc_lt (Nat.lt_of_not_le hlt) ht) (not_lt_of_ge hle)
  · intro hle
    rcases Nat.eq_or_lt_of_le hle with rfl | hlt
    · exact le_refl (isoUtc t)
    · exact le_of_lt (isoUtc_lt hlt hu)

section Patterns

variable {sameLetter : Char → Char → Bool}

theorem like_char (hsame : ∀ c, sameLetter c c = true) {c : Char} (hc : c ≠ '%')
    {pattern rest : Text} :
    like sameLetter (c :: pattern) (c :: rest) = like sameLetter pattern rest := by
  rw [like.eq_def]
  dsimp only
  rw [if_neg hc, hsame, Bool.or_true, Bool.true_and]

theorem like_self (hsame : ∀ c, sameLetter c c = true) {text : Text} (h : '%' ∉ text) :
    like sameLetter text text = true := by
  induction text with
  | nil => rfl
  | cons c text ih =>
    rw [mem_cons, not_or] at h
    rw [like_char hsame fun heq => h.1 heq.symm]
    exact ih h.2

theorem like_field (pattern : Text) {field rest : Text} (h : field.length = width) :
    like sameLetter (List.replicate width '_' ++ pattern) (field ++ rest) =
      like sameLetter pattern rest := by
  induction field generalizing width with
  | nil =>
    subst h
    rfl
  | cons c field ih =>
    subst h
    rw [length_cons, replicate_succ, cons_append, cons_append, like.eq_def]
    dsimp only
    rw [if_neg (by decide), ih rfl]
    rfl

theorem like_wild (pattern before text : Text) (h : like sameLetter pattern text = true) :
    like sameLetter ('%' :: pattern) (before ++ text) = true := by
  unfold like
  rw [if_pos rfl, any_eq_true]
  exact ⟨text, (mem_tails _ _).mpr (suffix_append _ _), h⟩

/-- **A canonical spelling passes both patterns.** -/
theorem looksCanonical_isoUtc (hsame : ∀ c, sameLetter c c = true)
    (ht : t < daysBeforeYear 10000 * day) : looksCanonical sameLetter (isoUtc t) = true := by
  unfold looksCanonical
  rw [Bool.and_eq_true]
  constructor
  · -- every field has its width
    have hclock : t % day / hour < 10 ^ 2 ∧ t % day % hour / minute < 10 ^ 2 ∧
        t % day % minute / second < 10 ^ 2 := by
      unfold day hour minute second
      omega
    have hwidth : ∀ {n : Nat}, n < 10 ^ 2 → (pad 2 n).length = 2 := fun hn =>
      @length_pad 1 _ hn
    have hmonth : (dateOf t).month < 10 ^ 2 := (dateOf t).month_le.trans_lt (by decide)
    have hday : (dateOf t).day < 10 ^ 2 :=
      ((dateOf t).day_le.trans (monthDays_le _ _)).trans_lt (by decide)
    have hshape : "____-__-__T__:__:__%".toList = List.replicate 4 '_' ++ ('-' ::
        (List.replicate 2 '_' ++ ('-' :: (List.replicate 2 '_' ++ ('T' :: (List.replicate 2 '_' ++
          (':' :: (List.replicate 2 '_' ++ (':' :: (List.replicate 2 '_' ++ ['%'])))))))))) := by
      decide
    rw [hshape, isoUtc_eq, like_field _ (@length_pad 3 _ (dateOf_year ht)),
      like_char hsame (by decide), like_field _ (hwidth hmonth), like_char hsame (by decide),
      like_field _ (hwidth hday), like_char hsame (by decide), like_field _ (hwidth hclock.1),
      like_char hsame (by decide), like_field _ (hwidth hclock.2.1), like_char hsame (by decide),
      like_field _ (hwidth hclock.2.2)]
    have hend := @like_wild sameLetter [] (isoTail (t % day % second)) [] rfl
    rw [append_nil] at hend
    exact hend
  · have htail : ∃ before, isoUtc t = before ++ ['+', '0', '0', ':', '0', '0'] := ⟨_, rfl⟩
    obtain ⟨before, hbefore⟩ := htail
    rw [hbefore]
    exact like_wild _ before _ (like_self hsame (by decide))

theorem isoUtc_ne_nil (t : Nat) : isoUtc t ≠ [] := by
  unfold isoUtc
  exact append_ne_nil_of_right_ne_nil _ (cons_ne_nil _ _)

end Patterns

/-! ### Scanning forward -/

abbrev Entry := Text × CaseRow

/-- `(created_at, case_id)`. -/
def scanKey (e : Entry) : Text ×ₗ Text := toLex (e.2.created, e.1)

structure ScanCursor where
  after : Text ×ₗ Text
  total : Nat

structure ScanPage where
  cases : List Entry
  cursor : Option ScanCursor
  total : Nat

/-- `SqlCaseRepository.scan_page`, oldest first. -/
def scanPage (f : ScanFilter) (limit : Int) (cursor : Option ScanCursor) (rows : Rows) :
    ScanPage :=
  let cap := pageCap limit
  let matching := rows.entries.filter fun e => f.keep e.2
  let found := Keyset.page scanKey (cursor.map ScanCursor.after) cap matching
  let total := (cursor.map ScanCursor.total).getD matching.length
  { cases := found
    cursor := if found.length < cap then none else found.getLast?.map fun e => ⟨scanKey e, total⟩
    total := total }

/-! ### The scan and the saves -/

inductive ScanAt where
  | fresh
  | under (cursor : ScanCursor)
  | done

/-- The table and a scan of it: the ids of the pages that were read, and the cases that were there
before the first page, matched whenever a page was read and were not deleted. -/
structure ForwardScan where
  rows : Rows
  position : ScanAt := .fresh
  pages : List (List Text) := []
  steady : List Text := []

inductive ScanMove where
  | save (c : Case)
  | delete (id : Text)
  | page (limit : Int)

def ScanPage.position (p : ScanPage) : ScanAt :=
  match p.cursor with
  | some cursor => .under cursor
  | none => .done

def ScanPage.ids (p : ScanPage) : List Text := p.cases.map Prod.fst

section Steps

variable (rt : Runtime) (f : ScanFilter)

def matchingIds (rows : Rows) : List Text :=
  (rows.entries.filter fun e => f.keep e.2).map Prod.fst

def keepsCreation (rows : Rows) (c : Case) : Bool :=
  (rows.get? c.caseId).all fun row => row.doc.createdAt = c.createdAt

def forwardStep (s : ForwardScan) : ScanMove → Option ForwardScan
  | .save c =>
    if keepsCreation s.rows c then (save rt s.rows c).map fun rows => { s with rows := rows }
    else none
  | .delete id =>
    some { s with rows := s.rows.erase id, steady := s.steady.filter fun x => x ≠ id }
  | .page limit =>
    match s.position with
    | .fresh =>
      let p := scanPage f limit none s.rows
      some ⟨s.rows, p.position, [p.ids], matchingIds f s.rows⟩
    | .under cursor =>
      let p := scanPage f limit (some cursor) s.rows
      some ⟨s.rows, p.position, s.pages ++ [p.ids],
        s.steady.filter fun x => (matchingIds f s.rows).contains x⟩
    | .done => none

def forwardMachine : Machine ForwardScan ScanMove where
  start s := s.position = .fresh ∧ s.pages = [] ∧ s.steady = []
  step := forwardStep rt f

/-- **The condition on a run**: no save takes a row across the cursor of the scan. -/
def SavesStay (s : ForwardScan) : ScanMove → Prop
  | .save c => ∀ cursor row created, s.position = .under cursor →
      s.rows.get? c.caseId = some row → canonicalCreatedAt rt c.createdAt = some created →
        (scanKey (c.caseId, row) ≤ cursor.after ↔ toLex (created, c.caseId) ≤ cursor.after)
  | _ => True

end Steps

theorem scanKey_nodup (rows : Rows) (p : Entry → Bool) :
    ((rows.entries.filter p).map scanKey).Nodup := by
  have hids : ((rows.entries.filter p).map Prod.fst).Nodup :=
    rows.nodup.sublist (filter_sublist.map Prod.fst)
  rw [nodup_iff_pairwise_ne, pairwise_map] at hids ⊢
  refine hids.imp ?_
  intro a b hne heq
  exact hne (congrArg Prod.snd (congrArg ofLex heq))

section Pages

variable {f : ScanFilter} {rows : Rows} {limit : Int} {cursor : Option ScanCursor} {id : Text}
  {row : CaseRow}

theorem mem_matchingIds :
    id ∈ matchingIds f rows ↔ ∃ row, rows.get? id = some row ∧ f.keep row = true := by
  unfold matchingIds
  constructor
  · intro h
    obtain ⟨⟨id', row⟩, hmem, rfl⟩ := List.mem_map.mp h
    obtain ⟨hentry, hkeep⟩ := mem_filter.mp hmem
    exact ⟨row, Dict.get?_eq_some_iff.mpr hentry, hkeep⟩
  · rintro ⟨row, hrow, hkeep⟩
    exact List.mem_map.mpr
      ⟨(id, row), mem_filter.mpr ⟨Dict.get?_eq_some_iff.mp hrow, hkeep⟩, rfl⟩

theorem mem_scanPage_ids (limit : Int) (cursor : Option ScanCursor)
    (hrow : rows.get? id = some row) (hkeep : f.keep row = true) :
    id ∈ (scanPage f limit cursor rows).ids ↔
      Keyset.Behind (cursor.map ScanCursor.after) (scanKey (id, row)) ∧
        ∀ next, (scanPage f limit cursor rows).cursor = some next →
          scanKey (id, row) ≤ next.after := by
  have hmatch : (id, row) ∈ rows.entries.filter fun e => f.keep e.2 :=
    mem_filter.mpr ⟨Dict.get?_eq_some_iff.mp hrow, hkeep⟩
  have hids : id ∈ (scanPage f limit cursor rows).ids ↔
      (id, row) ∈ (scanPage f limit cursor rows).cases := by
    unfold ScanPage.ids
    constructor
    · intro h
      obtain ⟨⟨id', row'⟩, hmem, rfl⟩ := List.mem_map.mp h
      have hentry := (mem_filter.mp (Keyset.mem_rows_of_mem_page hmem).1).1
      have hrow' := Dict.get?_eq_some_iff.mpr hentry
      rw [hrow] at hrow'
      cases hrow'
      exact hmem
    · intro h
      exact List.mem_map.mpr ⟨(id, row), h, rfl⟩
  rw [hids]
  by_cases hshort : (scanPage f limit cursor rows).cases.length < pageCap limit
  · have hnone : (scanPage f limit cursor rows).cursor = none := if_pos hshort
    have hpage := @Keyset.mem_page_of_short _ _ _ scanKey (cursor.map ScanCursor.after)
      (rows.entries.filter fun e => f.keep e.2) (pageCap limit) (id, row) hshort
    rw [hnone]
    refine hpage.trans ⟨fun h => ⟨h.2, ?_⟩, fun h => ⟨hmatch, h.1⟩⟩
    intro next hnext
    cases hnext
  · have hne : (scanPage f limit cursor rows).cases ≠ [] := by
      intro hnil
      rw [hnil] at hshort
      exact hshort (pageCap_pos limit)
    have hlast := getLast?_eq_some_getLast hne
    have hsome : (scanPage f limit cursor rows).cursor = some ⟨scanKey
        ((scanPage f limit cursor rows).cases.getLast hne),
        (scanPage f limit cursor rows).total⟩ := by
      refine (if_neg hshort).trans ?_
      exact (congrArg (Option.map _) hlast)
    have hpage := @Keyset.mem_page_of_last _ _ _ scanKey (cursor.map ScanCursor.after)
      (rows.entries.filter fun e => f.keep e.2) (pageCap limit) (id, row)
      (scanKey_nodup rows _) _ hlast
    rw [hsome]
    refine hpage.trans ⟨fun h => ⟨h.2.1, ?_⟩, fun h => ⟨hmatch, h.1, h.2 _ rfl⟩⟩
    intro next hnext
    cases hnext
    exact h.2.2

end Pages

def ForwardScan.readings (s : ForwardScan) (id : Text) : Nat :=
  s.pages.countP fun page => page.contains id

/-- What holds of a case that stays and matches: it was read once if it is not behind the cursor,
and not at all if it is. -/
def ReadOnce (s : ForwardScan) (id : Text) (row : CaseRow) : Prop :=
  match s.position with
  | .fresh => False
  | .under cursor =>
    s.readings id = if scanKey (id, row) ≤ cursor.after then 1 else 0
  | .done => s.readings id = 1

def ScanSound (s : ForwardScan) : Prop :=
  ∀ id ∈ s.steady, ∃ row, s.rows.get? id = some row ∧ ReadOnce s id row

section Runs

variable {rt : Runtime} {f : ScanFilter} {s s' : ForwardScan}

theorem ScanSound.first (limit : Int) :
    ScanSound ⟨s.rows, (scanPage f limit none s.rows).position,
      [(scanPage f limit none s.rows).ids], matchingIds f s.rows⟩ := by
  intro id hid
  obtain ⟨row, hrow, hkeep⟩ := mem_matchingIds.mp hid
  refine ⟨row, hrow, ?_⟩
  have hpage := mem_scanPage_ids limit none hrow hkeep
  have hbehind : Keyset.Behind (Option.map ScanCursor.after none) (scanKey (id, row)) := by
    intro a ha
    cases ha
  have hread := contains_iff_mem.trans hpage
  unfold ReadOnce ForwardScan.readings ScanPage.position
  dsimp only
  rw [countP_singleton]
  cases hnext : (scanPage f limit none s.rows).cursor with
  | none =>
    apply if_pos
    refine hread.mpr ⟨hbehind, ?_⟩
    intro next h
    rw [hnext] at h
    cases h
  | some next =>
    dsimp only
    by_cases hle : scanKey (id, row) ≤ next.after
    · rw [if_pos hle]
      apply if_pos
      refine hread.mpr ⟨hbehind, ?_⟩
      intro next' h
      rw [hnext] at h
      cases h
      exact hle
    · rw [if_neg hle]
      apply if_neg
      intro h
      exact hle ((hread.mp h).2 next hnext)

theorem ScanSound.next (h : ScanSound s) {cursor : ScanCursor}
    (hposition : s.position = .under cursor) (limit : Int) :
    ScanSound ⟨s.rows, (scanPage f limit (some cursor) s.rows).position,
      s.pages ++ [(scanPage f limit (some cursor) s.rows).ids],
      s.steady.filter fun x => (matchingIds f s.rows).contains x⟩ := by
  intro id hid
  obtain ⟨hsteady, hmatch⟩ := mem_filter.mp hid
  obtain ⟨row, hrow, honce⟩ := h id hsteady
  obtain ⟨row', hrow', hkeep⟩ := mem_matchingIds.mp (contains_iff_mem.mp hmatch)
  rw [hrow] at hrow'
  cases hrow'
  refine ⟨row, hrow, ?_⟩
  have hpage := mem_scanPage_ids limit (some cursor) hrow hkeep
  have hbehind : Keyset.Behind (Option.map ScanCursor.after (some cursor)) (scanKey (id, row)) ↔
      ¬ scanKey (id, row) ≤ cursor.after := by
    rw [not_le]
    constructor
    · intro hall
      exact hall _ rfl
    · rintro hlt _ ⟨⟩
      exact hlt
  have hreach : ∀ next, (scanPage f limit (some cursor) s.rows).cursor = some next →
      cursor.after < next.after := by
    intro next hnext
    unfold scanPage at hnext
    dsimp only at hnext
    split at hnext
    · cases hnext
    · obtain ⟨last, hlast, rfl⟩ := Option.map_eq_some_iff.mp hnext
      exact (Keyset.mem_rows_of_mem_page (mem_of_getLast? hlast)).2 _ rfl
  have hread := contains_iff_mem.trans (hpage.trans (and_congr_left' hbehind))
  unfold ReadOnce at honce ⊢
  rw [hposition] at honce
  unfold ForwardScan.readings ScanPage.position at *
  dsimp only at honce ⊢
  rw [countP_append, countP_singleton, honce]
  cases hnext : (scanPage f limit (some cursor) s.rows).cursor with
  | none =>
    dsimp only
    by_cases hle : scanKey (id, row) ≤ cursor.after
    · rw [if_pos hle, if_neg fun h => (hread.mp h).1 hle]
    · rw [if_neg hle, if_pos]
      refine hread.mpr ⟨hle, ?_⟩
      intro next h
      rw [hnext] at h
      cases h
  | some next =>
    dsimp only
    by_cases hle : scanKey (id, row) ≤ cursor.after
    · rw [if_pos hle, if_neg (fun h => (hread.mp h).1 hle),
        if_pos (hle.trans (hreach next hnext).le)]
    · by_cases hle' : scanKey (id, row) ≤ next.after
      · rw [if_neg hle, if_pos hle', if_pos]
        refine hread.mpr ⟨hle, ?_⟩
        intro next' h
        rw [hnext] at h
        cases h
        exact hle'
      · rw [if_neg hle, if_neg hle', if_neg]
        intro h
        exact hle' ((hread.mp h).2 next hnext)

theorem ScanSound.save (h : ScanSound s) {c : Case} (hstay : SavesStay rt s (.save c))
    {rows : Rows} (hsave : save rt s.rows c = some rows) :
    ScanSound { s with rows := rows } := by
  intro id hid
  obtain ⟨row, hrow, honce⟩ := h id hid
  by_cases hc : id = c.caseId
  · subst hc
    unfold Cases.save at hsave
    obtain ⟨created, hcreated, rfl⟩ := Option.map_eq_some_iff.mp hsave
    refine ⟨_, Dict.get?_set_self _ _ _, ?_⟩
    unfold ReadOnce ForwardScan.readings at *
    dsimp only
    cases hposition : s.position with
    | fresh | done =>
      rw [hposition] at honce
      exact honce
    | under cursor =>
      rw [hposition] at honce
      dsimp only at honce ⊢
      rw [honce]
      have hsame := hstay cursor row created hposition hrow hcreated
      simp only [hsame]
      rfl
  · exact ⟨row, (get?_save hsave id hc).trans hrow, honce⟩

/-- **One step** that takes no row across the cursor keeps the scan sound. -/
theorem ScanSound.step (h : ScanSound s) {move : ScanMove} (hstay : SavesStay rt s move)
    (hstep : forwardStep rt f s move = some s') : ScanSound s' := by
  cases move with
  | save c =>
    dsimp only [forwardStep] at hstep
    split at hstep
    · obtain ⟨rows, hrows, rfl⟩ := Option.map_eq_some_iff.mp hstep
      exact h.save hstay hrows
    · cases hstep
  | delete id =>
    cases hstep
    intro x hx
    obtain ⟨hsteady, hne⟩ := mem_filter.mp hx
    obtain ⟨row, hrow, honce⟩ := h x hsteady
    refine ⟨row, ?_, honce⟩
    rw [Dict.get?_erase, if_neg (of_decide_eq_true hne)]
    exact hrow
  | page limit =>
    dsimp only [forwardStep] at hstep
    split at hstep
    · cases hstep
      exact ScanSound.first limit
    · rename_i cursor hposition
      cases hstep
      exact h.next hposition limit
    · cases hstep

/-- **Every case once**: in a run where no save takes a row across the cursor, a case that was there
before the first page, matched at every page and was not deleted is on exactly one page. -/
theorem read_by_one_page (h : (forwardMachine rt f).Reaches (SavesStay rt) s)
    (hdone : s.position = .done) : ∀ id ∈ s.steady, s.readings id = 1 := by
  have hsound : ScanSound s := by
    refine Machine.invariant (I := ScanSound) ?_ (fun _ _ _ hI hP ht => hI.step hP ht) h
    rintro s ⟨-, -, hsteady⟩ id hid
    rw [hsteady] at hid
    cases hid
  intro id hid
  obtain ⟨row, -, honce⟩ := hsound id hid
  unfold ReadOnce at honce
  rw [hdone] at honce
  exact honce

end Runs

/-! ### Two scans -/

def digits (text : Text) : Nat := text.foldl (fun n c => n * 10 + (c.toNat - 48)) 0

/-- `datetime.fromisoformat` of `YYYY-MM-DDTHH:MM:SS` and an offset in whole minutes. -/
def plainIso (text : Text) : Option (Int × Option Int) :=
  match text with
  | [y1, y2, y3, y4, '-', m1, m2, '-', d1, d2, 'T', h1, h2, ':', n1, n2, ':', s1, s2, sign, o1, o2,
      ':', p1, p2] =>
      let days := Calendar.daysBeforeYear (digits [y1, y2, y3, y4]) +
        Calendar.daysBeforeMonth (digits [y1, y2, y3, y4]) (digits [m1, m2]) + digits [d1, d2] - 1
      let wall := days * day + digits [h1, h2] * hour + digits [n1, n2] * minute +
        digits [s1, s2] * second
      let offset := digits [o1, o2] * hour + digits [p1, p2] * minute
      some (wall, some (if sign = '-' then -(offset : Int) else offset))
  | _ => none

def plainRuntime : Runtime where
  fromIso := plainIso
  fromEpoch _ := none
  digit := Char.isDigit

def sameChar (a b : Char) : Bool := a == b

def caseAt (id created : Text) : Case := ⟨id, created, [], [], [], []⟩

def rowAt (id column created : Text) : CaseRow := ⟨column, [], [], [], [], caseAt id created⟩

/-- Before the scan: a row in UTC, and one in the time of India that was saved before the column was
normalised. -/
def mixedScan : ForwardScan where
  rows := (Dict.empty.set ['a'] (rowAt ['a'] "2026-02-28T23:00:00+00:00".toList
    "2026-02-28T23:00:00+00:00".toList)).set ['b'] (rowAt ['b']
    "2026-03-01T04:00:00+05:30".toList "2026-03-01T04:00:00+05:30".toList)

theorem mixedScan_start :
    (forwardMachine plainRuntime ⟨sameChar, none, none, none⟩).start mixedScan :=
  ⟨rfl, rfl, rfl⟩

def savesStay (rt : Runtime) (s : ForwardScan) : ScanMove → Bool
  | .save c =>
    match s.position, s.rows.get? c.caseId, canonicalCreatedAt rt c.createdAt with
    | .under cursor, some row, some created =>
      decide (scanKey (c.caseId, row) ≤ cursor.after ↔ toLex (created, c.caseId) ≤ cursor.after)
    | _, _, _ => true
  | _ => true

theorem savesStay_sound {s : ForwardScan} {move : ScanMove} (h : savesStay rt s move = true) :
    SavesStay rt s move := by
  cases move with
  | save c =>
    intro cursor row created hposition hrow hcreated
    dsimp only [savesStay] at h
    rw [hposition, hrow, hcreated] at h
    exact of_decide_eq_true h
  | delete id | page limit => trivial

set_option maxRecDepth 10000 in
/-- A row that is saved ahead of the cursor is read all the same. -/
theorem read_by_one_page_of_two : ∃ s : ForwardScan,
    s.steady = [['a'], ['b']] ∧ ∀ id ∈ s.steady, s.readings id = 1 := by
  have hrun : ((forwardMachine plainRuntime ⟨sameChar, none, none, none⟩).runChecked
      (savesStay plainRuntime) mixedScan
      [.page 1, .save (caseAt ['a'] "2026-02-28T23:00:00+00:00".toList), .page 1, .page 1]).any
        (fun s => (match s.position with | .done => true | _ => false) &&
          s.steady == [['a'], ['b']]) = true := by
    decide
  obtain ⟨s, hs, hend⟩ :=
    Machine.reaches_of_runChecked (fun _ _ => savesStay_sound) mixedScan_start hrun
  rw [Bool.and_eq_true, beq_iff_eq] at hend
  refine ⟨s, hend.2, read_by_one_page hs ?_⟩
  cases hposition : s.position with
  | done => rfl
  | fresh | under cursor =>
    rw [hposition] at hend
    cases hend.1

set_option maxRecDepth 10000 in
/-- A row that a save takes back over the cursor is on no page. -/
theorem saved_row_missed : ∃ s : ForwardScan,
    (forwardMachine plainRuntime ⟨sameChar, none, none, none⟩).Reaches Machine.anyStep s ∧
      s.position = .done ∧ ['b'] ∈ s.steady ∧ s.readings ['b'] = 0 := by
  have hrun : ((forwardMachine plainRuntime ⟨sameChar, none, none, none⟩).run mixedScan
      [.page 1, .save (caseAt ['b'] "2026-03-01T04:00:00+05:30".toList), .page 1]).any
        (fun s => (match s.position with | .done => true | _ => false) &&
          (s.steady.contains ['b'] && s.readings ['b'] == 0)) = true := by
    decide
  obtain ⟨s, -, hs, hend⟩ := Machine.reaches_of_run _ _ _ _ mixedScan_start hrun
  rw [Bool.and_eq_true, Bool.and_eq_true, beq_iff_eq, List.contains_iff_mem] at hend
  refine ⟨s, hs, ?_, hend.2.1, hend.2.2⟩
  cases hposition : s.position with
  | done => rfl
  | fresh | under cursor =>
    rw [hposition] at hend
    cases hend.1

end AgenticKibana.Cases
