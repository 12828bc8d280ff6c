import AgenticKibana.Chat.Replies
import AgenticKibana.Library.Machine
import AgenticKibana.Receivers.SyslogRecords

/-!
# The summary of folded exchanges

Exchanges that are replayed no more are folded into a summary.  Where no model writes it, each
fold reads the entries of the summary before, adds one for every new exchange, and renders them:
the lookups go first, then the answers and questions are shortened, then exchanges in the middle
are left out, and last the text itself is cut.
-/

namespace AgenticKibana.Chat

open AgenticKibana.Library List
open AgenticKibana.Library.TextLines (isSpace strip)
open AgenticKibana.Library.Newlines (normalise)

def invisibleTextRanges : List (Nat × Nat) :=
  [(0x0000, 0x0008), (0x000B, 0x000C), (0x000E, 0x001F), (0x007F, 0x009F), (0x00AD, 0x00AD),
    (0x034F, 0x034F), (0x061C, 0x061C), (0x115F, 0x1160), (0x17B4, 0x17B5), (0x180B, 0x180F),
    (0x200B, 0x200F), (0x2028, 0x202E), (0x2060, 0x206F), (0x3164, 0x3164), (0xFE00, 0xFE0F),
    (0xFEFF, 0xFEFF), (0xFFA0, 0xFFA0), (0xFFF0, 0xFFFB), (0x1BCA0, 0x1BCA3), (0x1D173, 0x1D17A),
    (0xE0000, 0xE0FFF)]

def isVisible (c : Char) : Bool :=
  !invisibleTextRanges.any fun range => range.1 ≤ c.toNat && c.toNat ≤ range.2

/-- `[\t\r\n]`. -/
def isLineBreak (c : Char) : Bool := c == '\t' || c == '\r' || c == '\n'

/-- `_LINE_BREAKS_RE.sub(" ", text)`; `within` a run of line breaks the space is written
already. -/
def foldBreaks : Bool → Text → Text
  | _, [] => []
  | within, c :: cs =>
    if isLineBreak c then
      if within then foldBreaks true cs else ' ' :: foldBreaks true cs
    else c :: foldBreaks false cs

/-- The last step of `display_text`. -/
def clamp (limit : Nat) (text : Text) : Text :=
  if 0 < limit ∧ limit < text.length then rstrip (text.take (limit - 1)) ++ ['…'] else text

/-- `display_text(text, limit)` of a string. -/
def displayString (limit : Nat) (text : Text) : Text :=
  clamp limit (strip (foldBreaks false (text.filter isVisible)))

/-- `display_text(text, 0, multiline=True)` of a string. -/
def displayLines (text : Text) : Text := normalise (text.filter isVisible)

/-- `_js_number_text` of a float. -/
def jsNumberText (d : Decimal) : Text :=
  let digits := Nat.toDigits 10 d.digits
  let k : Int := digits.length
  let n : Int := d.exp + k
  let body :=
    if d.digits = 0 then ['0']
    else if k ≤ n ∧ n ≤ 21 then digits ++ List.replicate (n - k).toNat '0'
    else if 0 < n ∧ n ≤ 21 then digits.take n.toNat ++ '.' :: digits.drop n.toNat
    else if -6 < n ∧ n ≤ 0 then '0' :: '.' :: List.replicate (-n).toNat '0' ++ digits
    else
      let mantissa := if k = 1 then digits else digits.take 1 ++ '.' :: digits.drop 1
      mantissa ++ 'e' :: (if 0 ≤ n - 1 then '+' else '-') :: Nat.toDigits 10 (n - 1).natAbs
  if d.neg ∧ d.digits ≠ 0 then '-' :: body else body

def doubleLimit : Nat := 2 ^ 1024 - 2 ^ 970

/-- `display_text(value, limit)`; `none` where `math.isfinite` raises. -/
def displayText (limit : Nat) : Json → Option Text
  | .str s => some (displayString limit s.toList)
  | .bool b => some (displayString limit (if b then ['t', 'r', 'u', 'e'] else
      ['f', 'a', 'l', 's', 'e']))
  | .int n => if n.natAbs < doubleLimit then some (displayString limit (Json.intText n)) else none
  | .float d => some (displayString limit (jsNumberText d))
  | .null | .arr _ | .obj _ => some []

def Finite (value : Json) : Prop := ∀ n, value = .int n → n.natAbs < doubleLimit

theorem displayText_isSome_iff {limit : Nat} {value : Json} :
    (displayText limit value).isSome = true ↔ Finite value := by
  cases value with
  | int n =>
    by_cases hn : n.natAbs < doubleLimit <;> simp [displayText, Finite, hn]
  | _ => simp [displayText, Finite]

def Plain (c : Char) : Prop := isVisible c = true ∧ isLineBreak c = false

variable {text : Text}

theorem plain_of_mem_foldBreaks (htext : ∀ c ∈ text, isVisible c = true) (within : Bool) :
    ∀ c ∈ foldBreaks within text, Plain c := by
  induction text generalizing within with
  | nil =>
    intro c hc
    cases hc
  | cons d text ih =>
    have hrest := ih fun c hc => htext c (mem_cons_of_mem d hc)
    intro c hc
    rw [foldBreaks] at hc
    by_cases hd : isLineBreak d = true
    · rw [if_pos hd] at hc
      cases within with
      | true => exact hrest true c hc
      | false =>
        rw [if_neg Bool.false_ne_true] at hc
        rcases mem_cons.mp hc with rfl | hc
        · exact ⟨by decide, by decide⟩
        · exact hrest true c hc
    · rw [if_neg hd] at hc
      rcases mem_cons.mp hc with rfl | hc
      · exact ⟨htext c mem_cons_self, by simpa using hd⟩
      · exact hrest false c hc

theorem foldBreaks_of_plain (htext : ∀ c ∈ text, Plain c) : foldBreaks false text = text := by
  induction text with
  | nil => rfl
  | cons c text ih =>
    have hc := htext c mem_cons_self
    rw [foldBreaks, if_neg (by simp [hc.2]), ih fun d hd => htext d (mem_cons_of_mem c hd)]

def shown (text : Text) : Text := strip (foldBreaks false (text.filter isVisible))

theorem displayString_eq (limit : Nat) (text : Text) :
    displayString limit text = clamp limit (shown text) := rfl

theorem clamp_zero (text : Text) : clamp 0 text = text := rfl

open AgenticKibana.Receivers (Digits isDecimal decimalValue)

/-! ### The lookups of an exchange -/

structure PriorExchange where
  user : Text := []
  answer : Text := []
  steps : List Obj := []

def digestValue : Json → Option Text
  | .bool b => some (if b then ['t', 'r', 'u', 'e'] else ['f', 'a', 'l', 's', 'e'])
  | value => displayText 60 value

/-- `params` and `untrusted_params` of a step, in one dictionary. -/
def stepParams (step : Obj) : Obj :=
  ["params", "untrusted_params"].foldl (fun params source =>
    match get? step source with
    | some (.obj ms) => ms.foldl (fun params m => Dict.assign m.1 m.2 params) params
    | _ => params) []

/-- `v not in (None, "")` -/
def isGiven (value : Json) : Bool := value ≠ .null ∧ value ≠ .str ""

def toolOf (step : Obj) : Option Text :=
  if (get? step "kind").getD (.str "tool") = .str "tool" then
    match get? step "tool" with
    | some (.str tool) => some tool.toList
    | _ => none
  else none

/-- `step N ` -/
def stepNumber (step : Obj) : Text :=
  match get? step "index" with
  | some (.int n) => if 1 ≤ n then ['s', 't', 'e', 'p', ' '] ++ Json.intText n ++ [' '] else []
  | _ => []

/-- `key=value` -/
def digestParam (m : String × Json) : Option Text :=
  (digestValue m.2).map fun value => displayString 40 m.1.toList ++ '=' :: value

def stepArgs (step : Obj) : Option Text :=
  (((stepParams step).filter fun m => isGiven m.2).mapM digestParam).map
    ([',', ' '].intercalate ·)

def stepOutcome (step : Obj) : Option Text :=
  let status := match get? step "status" with
    | some (.str status) => status.toList
    | _ => ['o', 'k']
  (displayText 160 ((get? step "summary").getD .null)).map fun summary =>
    if status = ['o', 'k'] then summary
    else status ++ (if summary = [] then [] else ':' :: ' ' :: summary)

def digestPart (step : Obj) (tool : Text) : Option Text :=
  (stepArgs step).bind fun args => (stepOutcome step).map fun outcome =>
    strip (stepNumber step ++ tool ++ '(' :: args ++ [')', ' ', '→', ' '] ++ outcome)

def lookupsWord : Text := ['L', 'o', 'o', 'k', 'u', 'p', 's', ' ']

/-- `lookup_digest(key, steps, limit)`; `none` where it raises. -/
def lookupDigest (key : Text) (steps : List Obj) (limit : Nat) : Option Text :=
  let lookups := steps.filterMap fun step => (toolOf step).map fun tool => (step, tool)
  (lookups.mapM fun lookup => digestPart lookup.1 lookup.2).map fun parts =>
    if parts = [] then []
    else
      let text := lookupsWord ++ key ++ ':' :: ' ' :: [';', ' '].intercalate parts
      let bound := limit + (lookups.map fun lookup => (stepNumber lookup.1).length).sum
      if limit = 0 ∨ text.length ≤ bound then text else rstrip (text.take (bound - 1)) ++ ['…']

def historyDigestMaxChars : Nat := 600

/-! ### Entries -/

def askedWord : Text := ['-', ' ', 'A', 's', 'k', 'e', 'd', ':', ' ']

def answeredWord : Text := ['A', 'n', 's', 'w', 'e', 'r', 'e', 'd', ':', ' ']

def noText : Text := ['(', 'n', 'o', ' ', 't', 'e', 'x', 't', ')']

/-- `_SummaryEntry`: a folded exchange, or a number of exchanges that were left out. -/
structure SummaryEntry where
  question : Text := []
  answer : Text := []
  digest : Text := []
  omitted : Nat := 0

/-- The end of a marker, behind `exchange` or `exchanges`. -/
def markerEnd : Text := " in between left out to fit)".toList

def exchangeWord : Text := [' ', 'e', 'x', 'c', 'h', 'a', 'n', 'g', 'e']

section Reading

variable (digits : Digits)

/-- `_OMITTED_RE.match(line)`: the number. -/
def omittedCount : Text → Option Nat
  | '-' :: ' ' :: '(' :: rest =>
    let number := rest.takeWhile (isDecimal digits)
    let rest := rest.dropWhile (isDecimal digits)
    if number ≠ [] ∧ (rest = exchangeWord ++ markerEnd ∨ rest = exchangeWord ++ 's' :: markerEnd)
    then some (decimalValue digits number) else none
  | _ => none

def SummaryEntry.addLine (entry : SummaryEntry) (body : Text) : SummaryEntry :=
  if startsWith body answeredWord = true ∧ entry.answer = [] then
    { entry with answer := strip (body.drop answeredWord.length) }
  else if body ≠ [] then { entry with digest := strip (entry.digest ++ ' ' :: body) }
  else entry

/-- One line of `_parse_extractive`. -/
def readLine (read : List Text × List SummaryEntry) (line : Text) :
    List Text × List SummaryEntry :=
  if startsWith line askedWord then
    (read.1, read.2 ++ [{ question := strip (line.drop askedWord.length) }])
  else match omittedCount digits (strip line) with
    | some n => (read.1, read.2 ++ [{ omitted := n }])
    | none =>
      match read.2.getLast? with
      | some entry =>
        if entry.omitted = 0 then (read.1, read.2.dropLast ++ [entry.addLine (strip line)])
        else (read.1 ++ [line], read.2)
      | none => (read.1 ++ [line], read.2)

def parseExtractive (text : Text) : Text × List SummaryEntry :=
  let read := (text.splitOn '\n').foldl (readLine digits) ([], [])
  (strip (['\n'].intercalate read.1), read.2)

end Reading

/-- `text.rfind(piece)` -/
def rfind (piece : Text) : Text → Option Nat
  | [] => none
  | c :: cs => match rfind piece cs with
    | some i => some (i + 1)
    | none => if startsWith (c :: cs) piece then some 0 else none

def firstSentences (text : Text) (limit : Nat) : Text :=
  let flat := displayString 0 text
  if flat.length ≤ limit then flat
  else
    let cut := flat.take limit
    let stop := [rfind ['.', ' '] cut, rfind ['!', ' '] cut, rfind ['?', ' '] cut].reduceOption.max?
    (match stop with
      | some i => if limit / 3 ≤ i then cut.take (i + 1) else rstrip cut
      | none => rstrip cut) ++ [' ', '…']

def asked (bound : Nat) (question : Text) : Text :=
  let text := displayString bound question
  if text = [] then noText else text

/-- What `_render_entries` writes for an entry. -/
def SummaryEntry.render (question answer : Nat) (digest : Bool) (entry : SummaryEntry) : Text :=
  if entry.omitted ≠ 0 then
    ['-', ' ', '('] ++ Nat.toDigits 10 entry.omitted ++
      (exchangeWord ++ (if entry.omitted = 1 then markerEnd else 's' :: markerEnd))
  else
    let said := if 0 < answer then firstSentences entry.answer answer else []
    ['\n'].intercalate ([askedWord ++ asked question entry.question] ++
      (if said = [] then [] else [' ' :: ' ' :: answeredWord ++ said]) ++
      (if digest = true ∧ entry.digest ≠ [] then [' ' :: ' ' :: entry.digest] else []))

def renderEntries (head : Text) (entries : List SummaryEntry) (question answer : Nat)
    (digest : Bool) : Text :=
  ['\n'].intercalate ((if head = [] then [] else [head]) ++
    entries.map (SummaryEntry.render question answer digest))

def realEntries (entries : List SummaryEntry) : List SummaryEntry :=
  entries.filter fun entry => entry.omitted = 0

/-- `_keep_ends`, which is asked to keep two or more. -/
def keepEnds (entries : List SummaryEntry) (keep : Nat) : List SummaryEntry :=
  let real := realEntries entries
  if real.length ≤ keep then entries
  else
    let keep := max 2 keep
    let first := max 1 (keep / 3)
    let last := keep - first
    let leftOut := (entries.map SummaryEntry.omitted).sum + real.length - first - last
    real.take first ++ { omitted := leftOut } :: real.drop (real.length - last)

/-! ### Folding -/

def sanitiseSummary (text : Text) : Text := strip (displayLines text)

def summaryOmitted : Text := "\n(… the middle of this summary was left out to fit …)\n".toList

def cleanSummary (text : Text) (limit : Nat) : Text :=
  let value := sanitiseSummary text
  if value.length ≤ limit then value
  else
    let room := limit - summaryOmitted.length
    let head := value.take (room * 2 / 5)
    let tail := value.drop (value.length - (room - head.length))
    let head := match rfind ['\n'] head with
      | some newline => if head.length / 2 ≤ newline then head.take newline else head
      | none => head
    let tail := match tail.findIdx? (· = '\n') with
      | some newline => if newline < tail.length / 2 then tail.drop (newline + 1) else tail
      | none => tail
    rstrip head ++ summaryOmitted ++ tail.dropWhile isSpace

def fullText (head : Text) (entries : List SummaryEntry) (digest : Bool) : Text :=
  renderEntries head entries 300 600 digest

/-- One short line for each question and each answer. -/
def compactText (head : Text) (entries : List SummaryEntry) : Text :=
  renderEntries head entries 120 80 false

def shortenAnswers (head : Text) (entries : List SummaryEntry) (limit each : Nat) : Option Text :=
  if h : 80 ≤ each then
    let text := renderEntries head entries 120 each false
    if text.length ≤ limit then some text
    else shortenAnswers head entries limit (each * 9 / 10)
  else none
termination_by each
decreasing_by omega

def firstLength (head : Text) (entries : List SummaryEntry) (limit : Nat) : Nat :=
  let real : Int := max (realEntries entries).length 1
  let questions : Int := (renderEntries head entries 120 0 false).length
  (min 600 (((limit : Int) - questions) / real - answeredWord.length - 6)).toNat

def endEntries (head : Text) (entries : List SummaryEntry) (limit : Nat) : List SummaryEntry :=
  let compact := compactText head entries
  let perEntry := max 1 ((compact.length - head.length) / max (realEntries entries).length 1)
  keepEnds entries (max 2 ((limit - head.length - 80) / perEntry))

/-- What `extractive_summary` passes to `clean_summary`. -/
def extractiveText (head : Text) (entries : List SummaryEntry) (limit : Nat) : Text :=
  if (fullText head entries true).length ≤ limit then fullText head entries true
  else if (fullText head entries false).length ≤ limit then fullText head entries false
  else match shortenAnswers head entries limit (firstLength head entries limit) with
    | some text => text
    | none =>
      if limit < (compactText head entries).length then
        compactText head (endEntries head entries limit)
      else compactText head entries

def entryOf (exchange : PriorExchange) : Option SummaryEntry :=
  (lookupDigest ['m'] exchange.steps historyDigestMaxChars).map fun digest =>
    { question := exchange.user, answer := exchange.answer, digest := digest }

def summaryHead (digits : Digits) (previous : Text) (limit : Nat) : Text :=
  let head := (parseExtractive digits (sanitiseSummary previous)).1
  if head ≠ [] ∧ limit / 2 < head.length then cleanSummary head (limit / 2) else head

def summaryEntries (digits : Digits) (previous : Text) : List SummaryEntry :=
  (parseExtractive digits (sanitiseSummary previous)).2

/-- `extractive_summary`; `none` where it raises. -/
def extractiveSummary (digits : Digits) (previous : Text) (exchanges : List PriorExchange)
    (limit : Nat) : Option Text :=
  (exchanges.mapM entryOf).map fun added =>
    cleanSummary (extractiveText (summaryHead digits previous limit)
      (summaryEntries digits previous ++ added) limit) limit

def summaryMaxChars : Nat := 12000

structure Fold where
  exchanges : List PriorExchange
  limit : Nat
  bounded : summaryMaxChars ≤ limit

structure Folded where
  summary : Text
  exchanges : List PriorExchange
  limit : Nat

def folding (digits : Digits) : Machine Folded Fold where
  start s := s.summary = [] ∧ s.exchanges = []
  step s fold := (extractiveSummary digits s.summary fold.exchanges fold.limit).map fun summary =>
    ⟨summary, s.exchanges ++ fold.exchanges, fold.limit⟩

end AgenticKibana.Chat
