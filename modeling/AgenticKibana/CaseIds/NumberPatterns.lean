import AgenticKibana.Library.Spacing

/-!
# Case-number templates

An operator's template is validated, rendered to the number of a case, and turned into a pattern
for the numbers it renders.  All three read the `{…}` tokens of the template anew.  Where a run of
whitespace goes on from one part of the number into another, or stands at an end, the pattern asks
for a space that the rendered text has lost, and where a number is padded with blanks the text has
one that the pattern does not know.  Counting the spaces of both sides shows that there is no
other way to go wrong.
-/

namespace AgenticKibana.CaseIds

open AgenticKibana.Library.Spacing
open AgenticKibana.Library.TextLines

abbrev Text := List Char

def lowerCase : Text := "abcdefghijklmnopqrstuvwxyz".toList
def upperCase : Text := "ABCDEFGHIJKLMNOPQRSTUVWXYZ".toList
def digits : Text := "0123456789".toList

/-- `[a-zA-Z_]`. -/
def isNameChar (c : Char) : Bool := (lowerCase ++ upperCase ++ ['_']).elem c

/-- `_TOKEN_RE` at the beginning of a text: the name and the format spec. -/
def tokenAt : Text → Option (Text × Option Text)
  | '\x7b' :: rest =>
    let name := rest.takeWhile isNameChar
    if name = [] then none
    else
      match rest.dropWhile isNameChar with
      | '\x7d' :: _ => some (name, none)
      | ':' :: more =>
        if more.elem '\x7d' then some (name, some (':' :: more.takeWhile (· != '\x7d'))) else none
      | _ => none
  | _ => none

inductive Piece where
  | text (s : Text)
  | token (name : Text) (spec : Option Text)

/-- `_TOKEN_RE.finditer`, with the text before, between and behind what it finds; `skip` characters
of a token are still to pass, and `before` is the text since the last one, backwards. -/
def piecesFrom : Nat → Text → Text → List Piece
  | _, before, [] => [.text before.reverse]
  | skip + 1, before, _ :: rest => piecesFrom skip before rest
  | 0, before, c :: rest =>
    match tokenAt (c :: rest) with
    | some (name, spec) =>
      .text before.reverse :: .token name spec ::
        piecesFrom (name.length + (spec.getD []).length + 1) [] rest
    | none => piecesFrom 0 (c :: before) rest

def pieces (template : Text) : List Piece := piecesFrom 0 [] template

/-! ### Placeholders and format specs -/

/-- `_ALLOWED_BARE`. -/
inductive Placeholder where
  | prefixText
  | sep
  | seq
  | year
  | yy
  | mm
  | dd
  | source
  | verdict
  deriving DecidableEq

def Placeholder.all : List Placeholder :=
  [.prefixText, .sep, .seq, .year, .yy, .mm, .dd, .source, .verdict]

def Placeholder.name : Placeholder → Text
  | .prefixText => "prefix".toList
  | .sep => "sep".toList
  | .seq => "seq".toList
  | .year => "year".toList
  | .yy => "yy".toList
  | .mm => "mm".toList
  | .dd => "dd".toList
  | .source => "source".toList
  | .verdict => "verdict".toList

def placeholder (name : Text) : Option Placeholder := Placeholder.all.find? fun p => p.name == name

def Piece.placeholder : Piece → Option Placeholder
  | .text _ => none
  | .token name _ => CaseIds.placeholder name

section Specs

-- `digit` is the value of a decimal digit of any script: `\d`, and what `format` reads.

variable (digit : Char → Option Nat)

def specFill : Text → Char × Text
  | '0' :: rest => ('0', rest)
  | spec => (' ', spec)

def specWidth (spec : Text) : Nat :=
  ((specFill spec).2.takeWhile fun c => (digit c).isSome).foldl
    (fun width c => 10 * width + (digit c).getD 0) 0

def specTail (spec : Text) : Text := (specFill spec).2.dropWhile fun c => (digit c).isSome

/-- `_SEQ_SPEC_RE`: its `$` also matches before a line feed at the end. -/
def isSeqSpec (spec : Text) : Bool :=
  match spec with
  | ':' :: rest => specTail digit rest == ['d'] || specTail digit rest == ['d', '\n']
  | _ => false

def maxWidth : Nat := 9223372036854775807

/-- `format(seq, spec)`, of a spec that `_SEQ_SPEC_RE` accepts and a number whose digits Python will
write; nothing where it raises a `ValueError`. -/
def formatInt (seq : Nat) (spec : Text) : Option Text :=
  if maxWidth < specWidth digit spec then none
  else if specTail digit spec = ['d'] then
    some ((Nat.toDigits 10 seq).leftpad (specWidth digit spec) (specFill spec).1)
  else none

inductive TemplateError where
  | empty
  | tooLong
  | malformed
  | unknown (name : Text)
  | noSpec (name : Text)
  | badSpec (spec : Text)
  deriving DecidableEq

def TemplateError.message : TemplateError → String
  | .empty => "template must be a non-empty string"
  | .tooLong => "template too long (max 200 characters)"
  | .malformed => "unbalanced or malformed \x7b \x7d in template"
  | .unknown name => "unknown placeholder: \x7b" ++ String.ofList name ++ "\x7d"
  | .noSpec name =>
    "placeholder \x7b" ++ String.ofList name ++ "\x7d does not take a format spec"
  | .badSpec spec =>
    "invalid seq format spec '" ++ String.ofList spec ++ "' (use e.g. \x7bseq:06d\x7d)"

def pieceError : Piece → Option TemplateError
  | .text _ => none
  | .token name spec =>
    match placeholder name, spec with
    | none, _ => some (.unknown name)
    | some _, none => none
    | some p, some spec =>
      if p ≠ .seq then some (.noSpec name)
      else if isSeqSpec digit spec then none else some (.badSpec spec)

def Piece.hasBrace : Piece → Bool
  | .text s => s.elem '\x7b' || s.elem '\x7d'
  | .token _ _ => false

/-- `validate_template`: the error, or nothing. -/
def validateTemplate (template : Text) : Option TemplateError :=
  if strip template = [] then some .empty
  else if 200 < template.length then some .tooLong
  else if (pieces template).any Piece.hasBrace then some .malformed
  else (pieces template).findSome? (pieceError digit)

/-! ### Rendering -/

inductive Verdict where
  | falsePositive
  | truePositive
  | needsHuman

def verdictText : Option Verdict → Text
  | none => []
  | some .falsePositive => "false_positive".toList
  | some .truePositive => "true_positive".toList
  | some .needsHuman => "needs_human".toList

structure Created where
  year : Nat
  month : Nat
  day : Nat
  year_ge : 1000 ≤ year
  year_le : year ≤ 9999
  month_le : month ≤ 12
  day_le : day ≤ 31

/-- What a number is rendered from, but for the prefix and the sequence number; no caller gives a
separator of its own. -/
structure Context where
  source : Text
  verdict : Option Verdict
  created : Created

def isAlnum (c : Char) : Bool := (lowerCase ++ upperCase ++ digits).elem c

/-- `re.sub(r"[^a-zA-Z0-9]+", "-", text)`; `run` when a run has begun. -/
def dashes : Bool → Text → Text
  | _, [] => []
  | run, c :: rest =>
    if isAlnum c then c :: dashes false rest
    else if run then dashes true rest else '-' :: dashes true rest

/-- `text.strip("-")`. -/
def stripDashes (text : Text) : Text :=
  ((text.dropWhile (· == '-')).reverse.dropWhile (· == '-')).reverse

def slug (value : Text) : Text :=
  ((stripDashes (dashes false (strip value))).map Char.toLower).take 40

def twoDigits (n : Nat) : Text := (Nat.toDigits 10 n).leftpad 2 '0'

/-- The values of `render`; that of `seq` depends on the format spec. -/
def value (numberPrefix : Text) (ctx : Context) : Placeholder → Text
  | .prefixText => numberPrefix
  | .sep => ['-']
  | .seq => []
  | .year => Nat.toDigits 10 ctx.created.year
  | .yy => twoDigits (ctx.created.year % 100)
  | .mm => twoDigits ctx.created.month
  | .dd => twoDigits ctx.created.day
  | .source => slug ctx.source
  | .verdict => verdictText ctx.verdict

def renderPiece (numberPrefix : Text) (ctx : Context) (seq : Nat) : Piece → Option Text
  | .text s => some s
  | .token name spec =>
    match placeholder name, spec with
    | some .seq, none => some (Nat.toDigits 10 seq)
    | some .seq, some spec => formatInt digit seq spec.tail
    | some p, _ => some (value numberPrefix ctx p)
    | none, _ => some []

def renderPieces (numberPrefix : Text) (ctx : Context) (seq : Nat) : List Piece → Option Text
  | [] => some []
  | p :: rest =>
    (renderPiece digit numberPrefix ctx seq p).bind fun s =>
      (renderPieces numberPrefix ctx seq rest).map (s ++ ·)

/-- `render`; nothing where it raises a `ValueError`. -/
def render (template numberPrefix : Text) (ctx : Context) (seq : Nat) : Option Text :=
  match validateTemplate digit template with
  | some _ => none
  | none => renderPieces digit numberPrefix ctx seq (pieces template)

inductive Item where
  | literal (c : Char)
  | run (chars : Text) (least : Nat) (most : Option Nat)

/-- `_PLACEHOLDER_PATTERNS`; the prefix and the separator are literals. -/
def Placeholder.item : Placeholder → Option Item
  | .prefixText => none
  | .sep => none
  | .seq => some (.run digits 1 none)
  | .year => some (.run digits 4 (some 4))
  | .yy => some (.run digits 2 (some 2))
  | .mm => some (.run digits 2 (some 2))
  | .dd => some (.run digits 2 (some 2))
  | .source => some (.run (lowerCase ++ digits ++ ['-']) 0 (some 40))
  | .verdict => some (.run (lowerCase ++ ['_']) 0 (some 32))

/-- `literal` of `number_pattern`. -/
def literal (s : Text) : List Item := (collapse s).map Item.literal

def pieceItems (numberPrefix : Text) : Piece → List Item
  | .text s => literal s
  | .token name _ =>
    match placeholder name with
    | none => []
    | some .prefixText => literal numberPrefix
    | some .sep => literal ['-']
    | some p => p.item.toList

def digitPlaceholders : List Placeholder := [.seq, .year, .yy, .mm, .dd]

def Piece.rendersDigits : Piece → Bool
  | .text _ => false
  | .token name _ => digitPlaceholders.any fun p => p.name == name

def numberPattern (template numberPrefix : Text) : Option (List Item) :=
  match validateTemplate digit template with
  | some _ => none
  | none =>
    if (pieces template).any Piece.rendersDigits then
      some ((pieces template).flatMap (pieceItems numberPrefix))
    else none

end Specs

/-- A pattern matches a whole text, when characters with one `fold` are equal. -/
def Matches (fold : Char → Char) : List Item → Text → Prop
  | [], text => text = []
  | .literal c :: rest, text => ∃ d more, text = d :: more ∧ fold d = fold c ∧
      Matches fold rest more
  | .run chars least most :: rest, text =>
    ∃ a b, text = a ++ b ∧ (∀ d ∈ a, ∃ c ∈ chars, fold d = fold c) ∧ least ≤ a.length ∧
      (∀ m ∈ most, a.length ≤ m) ∧ Matches fold rest b

open List

/-! ### What a piece looks like -/

/-- A piece renders as a fixed text, as characters without whitespace, as such or nothing, or as
digits that may be padded with blanks. -/
inductive Shape where
  | fixed (s : Text)
  | solid
  | optional
  | padded

section Shapes

variable (digit : Char → Option Nat) (numberPrefix : Text)

def Piece.width : Piece → Nat
  | .token _ (some spec) => specWidth digit spec.tail
  | _ => 0

def seqShape : Option Text → Shape
  | none => .solid
  | some spec =>
    if (specFill spec.tail).1 = ' ' ∧ 2 ≤ specWidth digit spec.tail then .padded else .solid

def shape : Piece → Shape
  | .text s => .fixed s
  | .token name spec =>
    match placeholder name with
    | none => .fixed []
    | some .prefixText => .fixed numberPrefix
    | some .sep => .fixed ['-']
    | some .seq => seqShape digit spec
    | some .source => .optional
    | some .verdict => .optional
    | some _ => .solid

/-- With no source and no verdict, no literal whitespace meets other whitespace or an end; `opened`
is whether whitespace, or nothing at all, comes before. -/
def Apart : Bool → List Shape → Prop
  | opened, [] => opened = false
  | opened, .fixed s :: rest => (opened && spaceFirst s) = false ∧ Apart (openAfter opened s) rest
  | _, .solid :: rest => Apart false rest
  | opened, .optional :: rest => Apart opened rest
  | _, .padded :: rest => Apart false rest

def Absorbed : Bool → List Shape → Prop
  | _, [] => True
  | opened, .fixed s :: rest => Absorbed (openAfter opened s) rest
  | _, .solid :: rest => Absorbed false rest
  | _, .optional :: rest => Absorbed false rest
  | opened, .padded :: rest => opened = true ∧ Absorbed false rest

/-- The format spec of a number is one that `format` knows. -/
def Piece.Formattable : Piece → Prop
  | .token _ (some spec) =>
    specTail digit spec.tail = ['d'] ∧ specWidth digit spec.tail ≤ maxWidth
  | _ => True

def HasSeq (template : Text) : Prop :=
  ∃ name spec, .token name spec ∈ pieces template ∧ placeholder name = some .seq

/-- Every number of a template is rendered, is matched by the pattern of the template, and is not
the number of another place in the sequence. -/
def Consistent (fold : Char → Char) (template : Text) : Prop :=
  ∀ (ctx : Context) (seq : Nat), ∃ text, render digit template numberPrefix ctx seq = some text ∧
    (∀ items, numberPattern digit template numberPrefix = some items →
      Matches fold items (normalise text)) ∧
    (HasSeq template → ∀ other, other ≠ seq →
      render digit template numberPrefix ctx other ≠ some text)

end Shapes

/-! ### The characters of a value -/

def Fits : Item → Text → Prop
  | .literal _, _ => False
  | .run chars least most, s =>
    (∀ c ∈ s, c ∈ chars) ∧ least ≤ s.length ∧ ∀ m ∈ most, s.length ≤ m

variable {s : Text}

theorem isSpace_of_elem {chars : Text} (hchars : chars.all (fun c => !isSpace c) = true)
    (h : ∀ c ∈ s, c ∈ chars) : ∀ c ∈ s, isSpace c = false := by
  intro c hc
  simpa using List.all_eq_true.mp hchars c (h c hc)

variable {p : Placeholder} {i : Item}

theorem solid_of_fits (hp : p.item = some i) (h : Fits i s) : ∀ c ∈ s, isSpace c = false := by
  cases p with
  | prefixText | sep => exact absurd hp (by simp [Placeholder.item])
  | seq | year | yy | mm | dd | source | verdict =>
    cases hp
    exact isSpace_of_elem (by decide) h.1

theorem mem_digits_of_isDigit {c : Char} (h : c.isDigit = true) : c ∈ digits := by
  simp only [Char.isDigit, Bool.and_eq_true, decide_eq_true_eq, ge_iff_le] at h
  have hval : c = Char.ofNat c.toNat := (Char.ofNat_toNat c).symm
  have hlow : 48 ≤ c.toNat := h.1
  have hhigh : c.toNat ≤ 57 := h.2
  rw [hval]
  generalize c.toNat = n at hlow hhigh
  obtain rfl | rfl | rfl | rfl | rfl | rfl | rfl | rfl | rfl | rfl : n = 48 ∨ n = 49 ∨ n = 50 ∨
      n = 51 ∨ n = 52 ∨ n = 53 ∨ n = 54 ∨ n = 55 ∨ n = 56 ∨ n = 57 := by omega
  all_goals decide

variable {n : Nat}

theorem mem_digits : ∀ c ∈ Nat.toDigits 10 n, c ∈ digits := fun _ hc =>
  mem_digits_of_isDigit (Nat.isDigit_of_mem_toDigits (by decide) (by decide) hc)

theorem mem_digits_leftpad {width : Nat} :
    ∀ c ∈ (Nat.toDigits 10 n).leftpad width '0', c ∈ digits := by
  intro c hc
  rcases mem_append.mp hc with hpad | hdigit
  · rw [eq_of_mem_replicate hpad]
    decide
  · exact mem_digits c hdigit

theorem twoDigits_fits (h : n < 100) : Fits (.run digits 2 (some 2)) (twoDigits n) := by
  have hlength : (Nat.toDigits 10 n).length ≤ 2 :=
    (Nat.length_toDigits_le_iff (by decide) (by decide)).mpr h
  have hpad : (twoDigits n).length = 2 := by
    rw [twoDigits, length_leftpad]
    omega
  refine ⟨mem_digits_leftpad, hpad.ge, ?_⟩
  intro m hm
  cases hm
  exact hpad.le

theorem year_fits (d : Created) : Fits (.run digits 4 (some 4)) (Nat.toDigits 10 d.year) := by
  have hle : (Nat.toDigits 10 d.year).length ≤ 4 :=
    (Nat.length_toDigits_le_iff (by decide) (by decide)).mpr (by have := d.year_le; omega)
  have hge : ¬ (Nat.toDigits 10 d.year).length ≤ 3 := by
    rw [Nat.length_toDigits_le_iff (by decide) (by decide)]
    have := d.year_ge
    omega
  refine ⟨mem_digits, by omega, ?_⟩
  intro m hm
  cases hm
  exact hle

theorem mem_dashes {run : Bool} : ∀ c ∈ dashes run s, isAlnum c = true ∨ c = '-' := by
  induction s generalizing run with
  | nil => simp [dashes]
  | cons c s ih =>
    intro d hd
    rw [dashes] at hd
    split at hd
    · next halnum =>
        rcases mem_cons.mp hd with rfl | hmem
        · exact .inl halnum
        · exact ih d hmem
    split at hd
    · exact ih d hd
    · rcases mem_cons.mp hd with rfl | hmem
      · exact .inr rfl
      · exact ih d hmem

theorem slug_fits (value : Text) :
    Fits (.run (lowerCase ++ digits ++ ['-']) 0 (some 40)) (slug value) := by
  refine ⟨?_, Nat.zero_le _, ?_⟩
  · intro c hc
    obtain ⟨d, hd, rfl⟩ := List.mem_map.mp (mem_of_mem_take hc)
    have hmem : d ∈ dashes false (strip value) :=
      (dropWhile_sublist _).mem (mem_reverse.mp
        ((dropWhile_sublist _).mem (mem_reverse.mp hd)))
    have hall : (lowerCase ++ upperCase ++ digits).all
        (fun c => (lowerCase ++ digits ++ ['-']).elem c.toLower) = true := by decide
    rcases mem_dashes d hmem with halnum | rfl
    · exact elem_iff.mp (List.all_eq_true.mp hall d (elem_iff.mp halnum))
    · decide
  · intro m hm
    cases hm
    exact length_take_le _ _

theorem verdict_fits (v : Option Verdict) :
    Fits (.run (lowerCase ++ ['_']) 0 (some 32)) (verdictText v) := by
  have hall : ∀ v : Option Verdict, (verdictText v).all (lowerCase ++ ['_']).elem = true ∧
      (verdictText v).length ≤ 32 := by
    rintro (_ | v)
    · decide
    · cases v <;> decide
  refine ⟨fun c hc => elem_iff.mp (List.all_eq_true.mp (hall v).1 c hc), Nat.zero_le _, ?_⟩
  intro m hm
  cases hm
  exact (hall v).2

/-- **The values of `render` fit the patterns of `number_pattern`.** -/
theorem value_fits (numberPrefix : Text) (ctx : Context) (hseq : p ≠ .seq)
    (hp : p.item = some i) : Fits i (value numberPrefix ctx p) := by
  have hmonth := ctx.created.month_le
  have hday := ctx.created.day_le
  cases p with
  | prefixText | sep => exact absurd hp (by simp [Placeholder.item])
  | seq => exact absurd rfl hseq
  | year =>
    cases hp
    exact year_fits _
  | yy | mm | dd =>
    cases hp
    exact twoDigits_fits (by omega)
  | source =>
    cases hp
    exact slug_fits _
  | verdict =>
    cases hp
    exact verdict_fits _

section Format

variable {digit : Char → Option Nat} {spec s : Text} {n m : Nat}

theorem formatInt_eq_some : formatInt digit n spec = some s ↔
    specWidth digit spec ≤ maxWidth ∧ specTail digit spec = ['d'] ∧
      s = (Nat.toDigits 10 n).leftpad (specWidth digit spec) (specFill spec).1 := by
  unfold formatInt
  by_cases hwidth : maxWidth < specWidth digit spec
  · simp only [if_pos hwidth, reduceCtorEq, false_iff, not_and]
    exact fun hle => absurd hwidth (not_lt.mpr hle)
  · by_cases htail : specTail digit spec = ['d'] <;> simp [hwidth, htail, not_lt.mp hwidth, eq_comm]

theorem specFill_cases (spec : Text) : (specFill spec).1 = '0' ∨ (specFill spec).1 = ' ' := by
  unfold specFill
  split <;> simp

theorem blanks_of_leftpad (fill : Char) (hfill : fill = '0' ∨ fill = ' ') (width : Nat) :
    ∃ k ds, (Nat.toDigits 10 n).leftpad width fill = List.replicate k ' ' ++ ds ∧
      Fits (.run digits 1 none) ds ∧
      (k = if fill = ' ' then width - (Nat.toDigits 10 n).length else 0) := by
  have hpos : 0 < (Nat.toDigits 10 n).length := Nat.length_toDigits_pos
  rcases hfill with rfl | rfl
  · refine ⟨0, (Nat.toDigits 10 n).leftpad width '0', rfl, ⟨mem_digits_leftpad, ?_, by simp⟩, rfl⟩
    simp
    omega
  · exact ⟨_, Nat.toDigits 10 n, rfl, ⟨mem_digits, hpos, by simp⟩, rfl⟩

theorem ofDigitChars_leftpad (fill : Char) (hfill : fill = '0' ∨ fill = ' ') (width n : Nat) :
    Nat.ofDigitChars 10 ((Nat.toDigits 10 n).leftpad width fill) 0 = n := by
  have hzero : ∀ k, Nat.ofDigitChars 10 (List.replicate k fill) 0 = 0 := by
    intro k
    induction k with
    | zero => rfl
    | succ k ih =>
      rcases hfill with rfl | rfl <;> simpa [Nat.ofDigitChars, replicate_succ] using ih
  rw [List.leftpad, Nat.ofDigitChars_append, hzero, Nat.ofDigitChars_ten_toDigits]

theorem leftpad_injective (fill : Char) (hfill : fill = '0' ∨ fill = ' ') {width : Nat}
    (h : (Nat.toDigits 10 n).leftpad width fill = (Nat.toDigits 10 m).leftpad width fill) :
    n = m := by
  rw [← ofDigitChars_leftpad fill hfill width n, h, ofDigitChars_leftpad fill hfill]

theorem length_toDigits_mono (h : n ≤ m) :
    (Nat.toDigits 10 n).length ≤ (Nat.toDigits 10 m).length := by
  rw [Nat.length_toDigits_le_iff (by decide) Nat.length_toDigits_pos]
  exact lt_of_le_of_lt h ((Nat.length_toDigits_le_iff
    (by decide) Nat.length_toDigits_pos).mp le_rfl)

end Format

inductive Rendered (numberPrefix : Text) (ctx : Context) (missing : Nat) :
    Shape → List Item → Text → Prop where
  | fixed (t : Text) : Rendered numberPrefix ctx missing (.fixed t) (literal t) t
  | solid {i : Item} {s : Text} : Fits i s → (∀ c ∈ s, isSpace c = false) → s ≠ [] →
      Rendered numberPrefix ctx missing .solid [i] s
  | optional {p : Placeholder} {i : Item} : p = .source ∨ p = .verdict → p.item = some i →
      Rendered numberPrefix ctx missing .optional [i] (value numberPrefix ctx p)
  | padded {i : Item} {s : Text} : Fits i s → (∀ c ∈ s, isSpace c = false) → s ≠ [] →
      Rendered numberPrefix ctx missing .padded [i] (List.replicate missing ' ' ++ s)

section Pieces

variable {digit : Char → Option Nat} {numberPrefix : Text} {ctx : Context} {n : Nat} {p : Piece}
  {s t chars : Text} {least : Nat} {most : Option Nat}

theorem ne_nil_of_fits (h : Fits (.run chars (least + 1) most) s) : s ≠ [] := by
  rintro rfl
  exact absurd h.2.1 (by simp)

theorem digits_solid (h : Fits (.run digits 1 none) s) : ∀ c ∈ s, isSpace c = false :=
  solid_of_fits (p := .seq) rfl h

theorem rendered_date (missing : Nat) {q : Placeholder} (hseq : q ≠ .seq)
    (hq : q.item = some (.run chars (least + 1) most)) :
    Rendered numberPrefix ctx missing .solid [.run chars (least + 1) most]
      (value numberPrefix ctx q) := by
  have hfits := value_fits numberPrefix ctx hseq hq
  exact .solid hfits (solid_of_fits hq hfits) (ne_nil_of_fits hfits)

theorem rendered_formatInt {spec : Text} (h : formatInt digit n spec.tail = some s) :
    Rendered numberPrefix ctx (specWidth digit spec.tail - (Nat.toDigits 10 n).length)
      (seqShape digit (some spec)) [.run digits 1 none] s := by
  obtain ⟨-, -, rfl⟩ := formatInt_eq_some.mp h
  obtain ⟨k, ds, hds, hfits, hk⟩ := @blanks_of_leftpad n _ (specFill_cases spec.tail)
    (specWidth digit spec.tail)
  have hpos : 0 < (Nat.toDigits 10 n).length := Nat.length_toDigits_pos
  rw [hds, seqShape]
  by_cases hpadded : (specFill spec.tail).1 = ' ' ∧ 2 ≤ specWidth digit spec.tail
  · rw [if_pos hpadded.1] at hk
    rw [if_pos hpadded, hk]
    exact .padded hfits (digits_solid hfits) (ne_nil_of_fits hfits)
  · have hzero : k = 0 := by
      by_cases hfill : (specFill spec.tail).1 = ' '
      · rw [if_pos hfill] at hk
        have : ¬ 2 ≤ specWidth digit spec.tail := fun h => hpadded ⟨hfill, h⟩
        omega
      · rwa [if_neg hfill] at hk
    rw [if_neg hpadded, hzero]
    exact .solid hfits (digits_solid hfits) (ne_nil_of_fits hfits)

/-- **What a piece of an accepted template renders as.** -/
theorem rendered_of_renderPiece (hok : pieceError digit p = none)
    (h : renderPiece digit numberPrefix ctx n p = some s) :
    Rendered numberPrefix ctx (p.width digit - (Nat.toDigits 10 n).length)
      (shape digit numberPrefix p) (pieceItems numberPrefix p) s := by
  cases p with
  | text t =>
    cases h
    exact .fixed s
  | token name spec =>
    cases hp : placeholder name with
    | none => simp [pieceError, hp] at hok
    | some q =>
      simp only [shape, pieceItems, hp]
      simp only [renderPiece, hp] at h
      cases q with
      | prefixText | sep =>
        cases h
        exact .fixed _
      | year | yy | mm | dd =>
        cases h
        exact rendered_date _ (by decide) rfl
      | source =>
        cases h
        exact .optional (.inl rfl) rfl
      | verdict =>
        cases h
        exact .optional (.inr rfl) rfl
      | seq =>
        cases spec with
        | none =>
          cases h
          have hfits : Fits (.run digits 1 none) (Nat.toDigits 10 n) :=
            ⟨mem_digits, Nat.length_toDigits_pos, by simp⟩
          exact .solid hfits (digits_solid hfits) (ne_nil_of_fits hfits)
        | some spec => exact rendered_formatInt h

theorem renderPieces_cons {rest : List Piece} :
    renderPieces digit numberPrefix ctx n (p :: rest) = some s ↔
      ∃ a b, renderPiece digit numberPrefix ctx n p = some a ∧
        renderPieces digit numberPrefix ctx n rest = some b ∧ s = a ++ b := by
  simp only [renderPieces, Option.bind_eq_some_iff, Option.map_eq_some_iff]
  constructor
  · rintro ⟨a, ha, b, hb, rfl⟩
    exact ⟨a, b, ha, hb, rfl⟩
  · rintro ⟨a, b, ha, hb, rfl⟩
    exact ⟨a, ha, b, hb, rfl⟩

/-! ### Matching -/

section Match

variable {fold : Char → Char}

theorem matches_literals (s : Text) : Matches fold (s.map Item.literal) s := by
  induction s with
  | nil => rfl
  | cons c s ih => exact ⟨c, s, rfl, rfl, ih⟩

theorem matches_fits (h : Fits i s) : Matches fold [i] s := by
  cases i with
  | literal c => exact absurd h id
  | run chars least most =>
    exact ⟨s, [], (append_nil s).symm, fun c hc => ⟨c, h.1 c hc, rfl⟩, h.2.1, h.2.2, rfl⟩

theorem matches_append {is js : List Item} (hs : Matches fold is s) (ht : Matches fold js t) :
    Matches fold (is ++ js) (s ++ t) := by
  induction is generalizing s with
  | nil =>
    cases hs
    exact ht
  | cons i is ih =>
    cases i with
    | literal c =>
      obtain ⟨d, more, rfl, hfold, hmore⟩ := hs
      exact ⟨d, more ++ t, rfl, hfold, ih hmore⟩
    | run chars least most =>
      obtain ⟨a, b, rfl, hchars, hleast, hmost, hb⟩ := hs
      exact ⟨a, b ++ t, append_assoc a b t, hchars, hleast, hmost, ih hb⟩

def Item.isBlank : Item → Bool
  | .literal c => c == ' '
  | .run _ _ _ => false

def blanks (items : List Item) : Nat := items.countP Item.isBlank

def Item.Spaceless : Item → Prop
  | .literal _ => True
  | .run chars _ _ => ' ' ∉ chars

@[simp] theorem blanks_append (is js : List Item) : blanks (is ++ js) = blanks is + blanks js :=
  countP_append

theorem blanks_literal (s : Text) : blanks (literal s) = spaces (collapse s) := by
  rw [blanks, literal, countP_map, spaces, List.count]
  rfl

/-- **A matched text has the spaces that the pattern asks for.** -/
theorem spaces_of_matches (hfold : ∀ c, fold c = fold ' ' → c = ' ') {items : List Item}
    (hitems : ∀ i ∈ items, i.Spaceless) (h : Matches fold items s) : spaces s = blanks items := by
  induction items generalizing s with
  | nil =>
    cases h
    rfl
  | cons i items ih =>
    rw [forall_mem_cons] at hitems
    cases i with
    | literal c =>
      obtain ⟨d, more, rfl, hcd, hmore⟩ := h
      have hiff : d = ' ' ↔ c = ' ' := by
        constructor
        · rintro rfl
          exact hfold c hcd.symm
        · rintro rfl
          exact hfold d hcd
      have hrest := ih hitems.2 hmore
      unfold spaces blanks at *
      by_cases hc : c = ' '
      · simp [Item.isBlank, hc, hiff.mpr hc, hrest]
      · have hd : d ≠ ' ' := fun h => hc (hiff.mp h)
        simp [Item.isBlank, hc, hd, hrest]
    | run chars least most =>
      obtain ⟨a, b, rfl, hchars, -, -, hb⟩ := h
      have hnone : spaces a = 0 := by
        apply count_eq_zero_of_not_mem
        intro hmem
        obtain ⟨c, hc, hcd⟩ := hchars ' ' hmem
        exact hitems.1 (hfold c hcd.symm ▸ hc)
      rw [spaces_append, hnone, ih hitems.2 hb]
      simp [blanks, Item.isBlank]

theorem spaceless_pieceItems : ∀ i ∈ pieceItems numberPrefix p, i.Spaceless := by
  have hliteral : ∀ t, ∀ i ∈ literal t, i.Spaceless := by
    intro t i hi
    obtain ⟨c, -, rfl⟩ := List.mem_map.mp hi
    trivial
  cases p with
  | text t => exact hliteral t
  | token name spec =>
    simp only [pieceItems]
    cases placeholder name with
    | none => simp
    | some q =>
      cases q with
      | prefixText | sep => exact hliteral _
      | seq | year | yy | mm | dd | source | verdict =>
        intro i hi
        cases mem_singleton.mp hi
        change ¬ ' ' ∈ _
        decide

end Match

end Pieces

end AgenticKibana.CaseIds
