import AgenticKibana.Chat.JsonDecoder

/-!
# Live answer text

The streamer waits for the first separator line that has ended, looks at the header before it, and
passes on what follows if the header promises an answer.  However the reply is cut, that is the
body behind the first separator, and the answer that is parsed from the reply, unless the reply
begins with the separator and ends with an object that the parser takes for its header.
-/

namespace AgenticKibana.Chat

open AgenticKibana.Library List
open AgenticKibana.Library.TextLines (isSpace strip)
open AgenticKibana.Library.Newlines (normalise push flush Passed)

/-! ### The streamer -/

inductive StreamState where
  | header
  | body
  | silent
  deriving DecidableEq

structure AnswerStreamer where
  buffer : Text := []
  crPending : Bool := false
  state : StreamState := .header
  bodyStart : Nat := 0
  emitted : Nat := 0
  scanFrom : Nat := 0

/-- `text.rfind("\n") + 1` -/
def lastLineStart (text : Text) : Nat :=
  text.length - (text.reverse.takeWhile fun c => c != '\n').length

/-- `ANSWER_SEPARATOR_RE.search(text, start)`: where the match starts and ends. -/
def searchFrom (text : Text) (start : Nat) : Option (Nat × Nat) :=
  let atLine := start == 0 || text[start - 1]? == some '\n'
  (Newlines.search isSeparator atLine (text.drop start)).map fun r =>
    (start + r.1.length, text.length - r.2.length)

def opensBody (d : Decoder) (headerText : Text) : Bool :=
  strip headerText == [] ||
    match loadObject d headerText with
    | some header => !header.isEmpty && lower (strip (textOf header "action")) == final
    | none => false

namespace AnswerStreamer

variable (d : Decoder)

def append (s : AnswerStreamer) (delta : Text) : AnswerStreamer :=
  { s with
    buffer := s.buffer ++ (push s.crPending delta).1
    crPending := (push s.crPending delta).2 }

def decide (s : AnswerStreamer) (last : Bool) : AnswerStreamer :=
  match searchFrom s.buffer s.scanFrom with
  | none => { s with scanFrom := lastLineStart s.buffer }
  | some (start, stop) =>
    let lineComplete := stop < s.buffer.length
    if ¬ lineComplete ∧ ¬ last then s
    else if opensBody d (s.buffer.take start) then
      { s with
        state := .body
        bodyStart := min s.buffer.length (stop + if lineComplete then 1 else 0) }
    else { s with state := .silent }

def pending (s : AnswerStreamer) : Text × AnswerStreamer :=
  let out := s.buffer.drop (s.bodyStart + s.emitted)
  (out, { s with emitted := s.emitted + out.length })

def output (s : AnswerStreamer) : Text × AnswerStreamer :=
  if s.state = .body then s.pending else ([], s)

def feed (s : AnswerStreamer) (delta : Text) : Text × AnswerStreamer :=
  if delta = [] then ([], s)
  else
    let s := s.append delta
    let s := if s.state = .header then s.decide d false else s
    s.output

def finish (s : AnswerStreamer) : Text × AnswerStreamer :=
  let s := { s with buffer := s.buffer ++ flush s.crPending, crPending := false }
  let s := if s.state = .header then s.decide d true else s
  s.output

def run (s : AnswerStreamer) : List Text → Text
  | [] => (s.finish d).1
  | delta :: deltas => (s.feed d delta).1 ++ run (s.feed d delta).2 deltas

end AnswerStreamer

def liveText (d : Decoder) (deltas : List Text) : Text := AnswerStreamer.run d {} deltas

def bodyOf (d : Decoder) (text : Text) : Text :=
  match searchSeparator text with
  | some (headerText, rest) => if opensBody d headerText then dropNewline rest else []
  | none => []

structure Ruled (ended : Text) : Prop where
  line : ended = [] ∨ ∃ front, ended = front ++ ['\n']
  skip : ∀ x, searchSeparator (ended ++ x) =
    (searchSeparator x).map fun r => (ended ++ r.1, r.2)

theorem Ruled.nil : Ruled [] where
  line := .inl rfl
  skip x := by
    rw [nil_append]
    exact Option.map_id'.symm

theorem Ruled.searchFrom {ended : Text} (h : Ruled ended) (x : Text) :
    searchFrom (ended ++ x) ended.length =
      (searchSeparator (ended ++ x)).map fun r =>
        (r.1.length, (ended ++ x).length - r.2.length) := by
  have hline : (ended.length == 0 || (ended ++ x)[ended.length - 1]? == some '\n') = true := by
    rcases h.line with rfl | ⟨front, rfl⟩
    · rfl
    · simp
  unfold Chat.searchFrom
  dsimp only
  rw [hline, drop_left, h.skip, Option.map_map]
  unfold searchSeparator
  refine Option.map_congr ?_
  intro r _
  simp only [Function.comp_apply, length_append]

theorem lastLineStart_split (text : Text) : ∃ ended last, text = ended ++ last ∧
    lastLineStart text = ended.length ∧ (ended = [] ∨ ∃ front, ended = front ++ ['\n']) := by
  have hsplit := takeWhile_append_dropWhile (p := fun c => c != '\n') (l := text.reverse)
  refine ⟨(text.reverse.dropWhile fun c => c != '\n').reverse,
    (text.reverse.takeWhile fun c => c != '\n').reverse, ?_, ?_, ?_⟩
  · rw [← reverse_append, hsplit, reverse_reverse]
  · have hlength := congrArg List.length hsplit
    rw [length_append, length_reverse] at hlength
    unfold lastLineStart
    rw [length_reverse]
    omega
  · rcases Newlines.behind_cases text.reverse with hnil | ⟨more, hmore⟩
    · unfold Newlines.behind at hnil
      left
      rw [hnil]
      rfl
    · unfold Newlines.behind at hmore
      right
      exact ⟨more.reverse, by rw [hmore, reverse_cons]⟩

theorem Ruled.of_none {text : Text} (h : searchSeparator text = none) : ∃ ended last,
    text = ended ++ last ∧ lastLineStart text = ended.length ∧ Ruled ended := by
  obtain ⟨ended, last, rfl, hstart, hline⟩ := lastLineStart_split text
  refine ⟨ended, last, rfl, hstart, hline, ?_⟩
  intro x
  rcases hline with rfl | ⟨front, rfl⟩
  · exact Ruled.nil.skip x
  · unfold searchSeparator at h ⊢
    rw [append_assoc, singleton_append, Newlines.search_append isSeparator_nil] at h ⊢
    cases hended : Newlines.search isSeparator true (front ++ ['\n']) with
    | some r =>
      rw [hended] at h
      cases h
    | none =>
      dsimp only
      refine Option.map_congr ?_
      intro r _
      rw [append_assoc]
      rfl

/-- What holds of a streamer that has read `raw` and passed on `out`. -/
structure Streaming (d : Decoder) (raw out : Text) (s : AnswerStreamer) : Prop where
  passed : Passed raw s.buffer s.crPending
  state : match s.state with
    | .header => out = [] ∧ s.emitted = 0 ∧
        ∃ ended last, s.buffer = ended ++ last ∧ s.scanFrom = ended.length ∧ Ruled ended
    | .body => ∃ headerText rest, searchSeparator s.buffer = some (headerText, '\n' :: rest) ∧
        opensBody d headerText = true ∧ out = rest ∧ s.buffer.length = s.bodyStart + s.emitted
    | .silent => ∃ headerText rest, searchSeparator s.buffer = some (headerText, '\n' :: rest) ∧
        opensBody d headerText = false ∧ out = []

variable {d : Decoder} {raw out : Text} {s : AnswerStreamer}

theorem Streaming.start : Streaming d [] [] {} where
  passed := .nil
  state := ⟨rfl, rfl, [], [], rfl, rfl, .nil⟩

variable {headerText rest : Text}

theorem decide_of_found (d : Decoder) (last : Bool)
    (hfrom : searchFrom s.buffer s.scanFrom = (searchSeparator s.buffer).map fun r =>
      (r.1.length, s.buffer.length - r.2.length))
    (hfound : searchSeparator s.buffer = some (headerText, rest))
    (hlast : rest = [] → last = true) (hemitted : s.emitted = 0) :
    ((s.decide d last).state = if opensBody d headerText then .body else .silent) ∧
      (s.decide d last).buffer = s.buffer ∧ (s.decide d last).crPending = s.crPending ∧
      (s.decide d last).emitted = 0 ∧
      (opensBody d headerText = true → (s.decide d last).bodyStart ≤ s.buffer.length ∧
        s.buffer.drop (s.decide d last).bodyStart = dropNewline rest) := by
  obtain ⟨found, hbuffer, -, hrest⟩ := Newlines.search_eq_some hfound
  have htake : s.buffer.take headerText.length = headerText := by
    rw [hbuffer, take_left]
  have hstop : s.buffer.drop (s.buffer.length - rest.length) = rest := by
    have hlength : s.buffer.length - rest.length = (headerText ++ found).length := by
      rw [hbuffer]
      simp only [length_append]
      omega
    rw [hlength, hbuffer, ← append_assoc, drop_left]
  have hlength : rest.length ≤ s.buffer.length := by
    rw [hbuffer]
    simp only [length_append]
    omega
  unfold AnswerStreamer.decide
  rw [hfrom, hfound, Option.map_some]
  dsimp only
  rw [htake]
  have hgo : ¬ (¬ s.buffer.length - rest.length < s.buffer.length ∧ ¬ last = true) := by
    rintro ⟨hcomplete, hnot⟩
    rcases hrest with rfl | ⟨more, rfl⟩
    · exact hnot (hlast rfl)
    · rw [length_cons] at hcomplete hlength
      omega
  rw [if_neg (by simpa using hgo)]
  by_cases hopens : opensBody d headerText = true
  · rw [if_pos hopens, if_pos hopens]
    refine ⟨rfl, rfl, rfl, hemitted, fun _ => ⟨min_le_left _ _, ?_⟩⟩
    dsimp only
    rcases hrest with rfl | ⟨more, rfl⟩
    · rw [drop_eq_nil_of_le]
      · rfl
      · rw [length_nil]
        split <;> omega
    · rw [length_cons] at hlength hstop ⊢
      have hmin : min s.buffer.length (s.buffer.length - (more.length + 1) +
          if s.buffer.length - (more.length + 1) < s.buffer.length then 1 else 0) =
          s.buffer.length - (more.length + 1) + 1 := by
        rw [if_pos (by omega)]
        omega
      rw [hmin, ← drop_drop, hstop]
      rfl
  · rw [if_neg hopens, if_neg hopens]
    exact ⟨rfl, rfl, rfl, hemitted, fun h => absurd h hopens⟩

theorem Streaming.grow_body {more : Text} {s' : AnswerStreamer}
    (hpassed : Passed raw s'.buffer s'.crPending)
    (hfound : searchSeparator s.buffer = some (headerText, '\n' :: rest))
    (hopens : opensBody d headerText = true)
    (hlength : s.buffer.length = s'.bodyStart + s'.emitted)
    (hbuffer : s'.buffer = s.buffer ++ more) (hstate : s'.state = .body) :
    s'.output.1 = more ∧ Streaming d raw (rest ++ more) s'.output.2 := by
  have hout : s'.output.1 = more := by
    unfold AnswerStreamer.output
    rw [if_pos hstate]
    unfold AnswerStreamer.pending
    rw [hbuffer, ← hlength, drop_left]
  refine ⟨hout, ?_⟩
  have hgrown : searchSeparator s'.buffer = some (headerText, '\n' :: (rest ++ more)) := by
    rw [hbuffer]
    exact Newlines.search_extend isSeparator_nil hfound more
  unfold AnswerStreamer.output at hout ⊢
  rw [if_pos hstate] at hout ⊢
  unfold AnswerStreamer.pending at hout ⊢
  dsimp only at hout ⊢
  refine ⟨hpassed, ?_⟩
  dsimp only
  rw [hstate]
  refine ⟨headerText, rest ++ more, hgrown, hopens, rfl, ?_⟩
  rw [hout, hbuffer, length_append, hlength, Nat.add_assoc]

/-- **One piece** of the reply. -/
theorem Streaming.feed (h : Streaming d raw out s) (delta : Text) :
    Streaming d (raw ++ delta) (out ++ (s.feed d delta).1) (s.feed d delta).2 := by
  unfold AnswerStreamer.feed
  by_cases hdelta : delta = []
  · rw [if_pos hdelta, hdelta, append_nil, append_nil]
    exact h
  rw [if_neg hdelta]
  dsimp only
  have hpassed : Passed (raw ++ delta) (s.append delta).buffer (s.append delta).crPending :=
    h.passed.push hdelta
  have hbuffer : (s.append delta).buffer = s.buffer ++ (push s.crPending delta).1 := rfl
  have hsame : (s.append delta).state = s.state := rfl
  have hstate := h.state
  cases hs : s.state with
  | body =>
    rw [hs] at hstate hsame
    obtain ⟨headerText, rest, hfound, hopens, rfl, hlength⟩ := hstate
    rw [hsame, if_neg (by decide)]
    obtain ⟨hout, hstreaming⟩ :=
      Streaming.grow_body hpassed hfound hopens hlength hbuffer hsame
    rw [hout]
    exact hstreaming
  | silent =>
    rw [hs] at hstate hsame
    obtain ⟨headerText, rest, hfound, hopens, rfl⟩ := hstate
    rw [hsame, if_neg (by decide)]
    unfold AnswerStreamer.output
    rw [hsame, if_neg (by decide)]
    refine ⟨hpassed, ?_⟩
    rw [hsame]
    exact ⟨headerText, _, Newlines.search_extend isSeparator_nil hfound _, hopens, rfl⟩
  | header =>
    rw [hs] at hstate hsame
    obtain ⟨rfl, hemitted, ended, last, hsplit, hscan, hruled⟩ := hstate
    rw [hsame, if_pos rfl, nil_append]
    rw [hsplit, append_assoc] at hbuffer
    generalize last ++ (push s.crPending delta).1 = x at hbuffer
    have hscan' : (s.append delta).scanFrom = ended.length := hscan
    have hemitted' : (s.append delta).emitted = 0 := hemitted
    generalize s.append delta = t at hpassed hbuffer hsame hscan' hemitted' ⊢
    have hfrom := hruled.searchFrom x
    rw [← hbuffer, ← hscan'] at hfrom
    cases hfound : searchSeparator t.buffer with
    | none =>
      -- nothing found: the lines that have ended are ruled out
      have hdecide : t.decide d false = { t with scanFrom := lastLineStart t.buffer } := by
        unfold AnswerStreamer.decide
        rw [hfrom, hfound]
        rfl
      obtain ⟨ended', last', hsplit', hstart', hruled'⟩ := Ruled.of_none hfound
      rw [hdecide]
      unfold AnswerStreamer.output
      dsimp only
      rw [hsame, if_neg (by decide)]
      refine ⟨hpassed, ?_⟩
      dsimp only
      exact ⟨rfl, hemitted', ended', last', hsplit', hstart', hruled'⟩
    | some r =>
      obtain ⟨headerText, rest⟩ := r
      obtain ⟨found, htext, -, hrest⟩ := Newlines.search_eq_some hfound
      rcases hrest with rfl | ⟨more, rfl⟩
      · -- the line has not ended
        have hdecide : t.decide d false = t := by
          unfold AnswerStreamer.decide
          rw [hfrom, hfound]
          simp
        rw [hdecide]
        unfold AnswerStreamer.output
        rw [hsame, if_neg (by decide)]
        refine ⟨hpassed, ?_⟩
        dsimp only
        rw [hsame]
        exact ⟨rfl, hemitted', ended, x, hbuffer, hscan', hruled⟩
      · obtain ⟨hnext, hkeep, hcr, hzero, hbody⟩ :=
          decide_of_found d false hfrom hfound (fun h => nomatch h) hemitted'
        rw [← hkeep, ← hcr] at hpassed
        rw [← hkeep] at hfound
        unfold AnswerStreamer.output
        by_cases hopens : opensBody d headerText = true
        · rw [if_pos hopens] at hnext
          obtain ⟨hle, hdrop⟩ := hbody hopens
          have hlength := congrArg List.length hdrop
          rw [length_drop] at hlength
          rw [if_pos hnext]
          unfold AnswerStreamer.pending
          simp only [hzero, Nat.add_zero, Nat.zero_add, hkeep, hdrop]
          rw [hkeep] at hpassed hfound
          refine ⟨hpassed, ?_⟩
          simp only [hnext]
          refine ⟨headerText, more, hfound, hopens, rfl, ?_⟩
          change t.buffer.length = _ + more.length
          have hmore : (dropNewline ('\n' :: more)).length = more.length := rfl
          omega
        · rw [if_neg hopens] at hnext
          rw [if_neg (by rw [hnext]; decide)]
          refine ⟨hpassed, ?_⟩
          rw [hnext]
          exact ⟨headerText, more, hfound, Bool.not_eq_true _ ▸ hopens, rfl⟩

/-- **The end** of the reply: what was passed on in all. -/
theorem Streaming.finish (h : Streaming d raw out s) :
    out ++ (s.finish d).1 = bodyOf d (normalise raw) := by
  unfold AnswerStreamer.finish bodyOf
  dsimp only
  rw [← h.passed.flush]
  have hstate := h.state
  cases hs : s.state with
  | body =>
    rw [hs] at hstate
    obtain ⟨headerText, rest, hfound, hopens, rfl, hlength⟩ := hstate
    have hgrown := Newlines.search_extend isSeparator_nil hfound (flush s.crPending)
    unfold searchSeparator at hgrown ⊢
    rw [if_neg (by decide), hgrown]
    unfold AnswerStreamer.output AnswerStreamer.pending
    dsimp only
    rw [if_pos hopens, if_pos rfl, ← hlength, drop_left]
    rfl
  | silent =>
    rw [hs] at hstate
    obtain ⟨headerText, rest, hfound, hopens, rfl⟩ := hstate
    have hgrown := Newlines.search_extend isSeparator_nil hfound (flush s.crPending)
    unfold searchSeparator at hgrown ⊢
    rw [if_neg (by decide), hgrown]
    unfold AnswerStreamer.output
    dsimp only
    rw [if_neg (by decide), if_neg (by rw [hopens]; exact Bool.false_ne_true)]
    rfl
  | header =>
    rw [hs] at hstate
    obtain ⟨rfl, hemitted, ended, last, hsplit, hscan, hruled⟩ := hstate
    rw [if_pos rfl, nil_append]
    have hfrom := hruled.searchFrom (last ++ flush s.crPending)
    rw [← append_assoc, ← hsplit, ← hscan] at hfrom
    generalize ht : AnswerStreamer.mk (s.buffer ++ flush s.crPending) false .header s.bodyStart
      s.emitted s.scanFrom = t
    have hbuffer : s.buffer ++ flush s.crPending = t.buffer := by rw [← ht]
    have hscan' : s.scanFrom = t.scanFrom := by rw [← ht]
    have hemitted' : t.emitted = 0 := by rw [← ht]; exact hemitted
    have hstart : t.state = .header := by rw [← ht]
    rw [hbuffer, hscan'] at hfrom
    rw [hbuffer]
    unfold AnswerStreamer.output
    cases hfound : searchSeparator t.buffer with
    | none =>
      have hdecide : t.decide d true = { t with scanFrom := lastLineStart t.buffer } := by
        unfold AnswerStreamer.decide
        rw [hfrom, hfound]
        rfl
      rw [hdecide]
      dsimp only
      rw [hstart, if_neg (by decide)]
    | some r =>
      obtain ⟨hnext, hkeep, -, hzero, hbody⟩ :=
        decide_of_found d true hfrom hfound (fun _ => rfl) hemitted'
      dsimp only
      by_cases hopens : opensBody d r.1 = true
      · rw [if_pos hopens] at hnext
        rw [if_pos hopens, if_pos hnext]
        unfold AnswerStreamer.pending
        dsimp only
        rw [hkeep, hzero, Nat.add_zero]
        exact (hbody hopens).2
      · rw [if_neg hopens] at hnext
        rw [if_neg hopens, if_neg (by rw [hnext]; decide)]

/-- **However a reply is cut**, the body behind its first separator is passed on. -/
theorem liveText_eq (d : Decoder) (deltas : List Text) :
    liveText d deltas = bodyOf d (normalise deltas.flatten) := by
  have hrun : ∀ (deltas : List Text) (raw out : Text) (s : AnswerStreamer),
      Streaming d raw out s →
        out ++ s.run d deltas = bodyOf d (normalise (raw ++ deltas.flatten)) := by
    intro deltas
    induction deltas with
    | nil =>
      intro raw out s h
      rw [flatten_nil, append_nil]
      exact h.finish
    | cons delta deltas ih =>
      intro raw out s h
      rw [flatten_cons, ← append_assoc, ← ih _ _ _ (h.feed delta), AnswerStreamer.run,
        append_assoc]
  exact hrun deltas [] [] {} Streaming.start

/-! ### The action of a header -/

variable {text : Text} {c : Char}

theorem mem_dropWhile_or {p : Char → Bool} (h : c ∈ text) : p c = true ∨ c ∈ text.dropWhile p := by
  rw [← takeWhile_append_dropWhile (p := p) (l := text)] at h
  rcases mem_append.mp h with htake | hdrop
  · exact .inl (mem_takeWhile_imp htake)
  · exact .inr hdrop

theorem mem_strip_or (h : c ∈ text) : isSpace c = true ∨ c ∈ strip text := by
  unfold strip
  rw [mem_reverse]
  rcases mem_dropWhile_or (p := isSpace) h with hspace | hdrop
  · exact .inl hspace
  · exact mem_dropWhile_or (mem_reverse.mpr hdrop)

theorem lower_strip_ne_final (h : c ∈ text) (hspace : isSpace c = false) (hc : c.toLower ∉ final) :
    lower (strip text) ≠ final := by
  intro heq
  rcases mem_strip_or h with hs | hmem
  · rw [hs] at hspace
    cases hspace
  · rw [← heq] at hc
    exact hc (List.mem_map_of_mem hmem)

theorem digit_not_final (hdigit : c.isDigit = true) : isSpace c = false ∧ c.toLower ∉ final := by
  have hrange : 48 ≤ c.toNat ∧ c.toNat ≤ 57 := by
    simp only [Char.isDigit, Bool.and_eq_true, decide_eq_true_eq, ge_iff_le,
      UInt32.le_iff_toNat_le] at hdigit
    exact hdigit
  have hlower : c.toLower = c := by
    unfold Char.toLower
    rw [dif_neg]
    rintro ⟨hle, -⟩
    rw [ge_iff_le, UInt32.le_iff_toNat_le] at hle
    exact absurd (hle.trans hrange.2) (by decide)
  constructor
  · unfold isSpace
    simp
    omega
  · rw [hlower]
    intro hmem
    unfold final at hmem
    simp only [mem_cons, not_mem_nil, or_false] at hmem
    rcases hmem with rfl | rfl | rfl | rfl | rfl <;> exact absurd hrange.2 (by decide)

theorem digit_mem_intText (n : Int) : ∃ c ∈ Json.intText n, c.isDigit = true := by
  obtain ⟨c, cs, hcons⟩ := exists_cons_of_ne_nil (Nat.toDigits_ne_nil (n := n.natAbs) (b := 10))
  have hmem : c ∈ Nat.toDigits 10 n.natAbs := by
    rw [hcons]
    exact mem_cons_self
  refine ⟨c, ?_, Json.digits_toDigits _ c hmem⟩
  unfold Json.intText
  split
  · exact mem_cons_of_mem _ hmem
  · exact hmem

theorem digit_mem_floatText (x : Decimal) : ∃ c ∈ x.text, c.isDigit = true := by
  obtain ⟨c, cs, hcons⟩ := exists_cons_of_ne_nil (Nat.toDigits_ne_nil (n := x.digits) (b := 10))
  have hdigit : c.isDigit = true := by
    apply Json.digits_toDigits x.digits
    rw [hcons]
    exact mem_cons_self
  unfold Decimal.text
  dsimp only
  rw [hcons]
  generalize (if x.neg = true then ['-'] else []) = sign
  by_cases hzero : x.digits = 0
  · rw [if_pos hzero]
    exact ⟨'0', mem_append_right _ (by simp), rfl⟩
  rw [if_neg hzero]
  split
  · exact ⟨c, mem_append_right _ (by simp), hdigit⟩
  split
  · exact ⟨c, mem_append_right _ (by simp), hdigit⟩
  split
  · rename_i hpoint
    obtain ⟨n, hn⟩ : ∃ n, ((c :: cs).length + x.exp : Int).toNat = n + 1 :=
      ⟨((c :: cs).length + x.exp : Int).toNat - 1, by omega⟩
    rw [hn]
    exact ⟨c, mem_append_right _ (by simp), hdigit⟩
  · exact ⟨'0', mem_append_right _ (by simp), rfl⟩

theorem verb_of_final {obj : Obj} (h : lower (strip (textOf obj "action")) = final) :
    ∃ action : String, get? obj "action" = some (.str action) ∧
      lower (strip action.toList) = final := by
  unfold textOf at h
  have hempty : lower (strip (Json.pyStr (.str "")).toList) ≠ final := by decide
  cases hget : get? obj "action" with
  | none =>
    rw [hget] at h
    exact absurd h hempty
  | some value =>
    rw [hget, Option.getD_some] at h
    unfold Json.orElse at h
    by_cases htruthy : value.truthy = true
    · rw [if_pos htruthy] at h
      have hother : ∀ {c : Char}, c ∈ value.pyRepr → isSpace c = false → c.toLower ∉ final →
          Json.pyStr value = String.ofList value.pyRepr → False := by
        intro c hc hspace hlower heq
        rw [heq, String.toList_ofList] at h
        exact lower_strip_ne_final hc hspace hlower h
      cases value with
      | str action => exact ⟨action, rfl, h⟩
      | null => cases htruthy
      | bool b =>
        cases b with
        | false => cases htruthy
        | true =>
          refine (hother (c := 'T') ?_ (by decide) (by decide) rfl).elim
          decide
      | int n =>
        obtain ⟨c, hc, hdigit⟩ := digit_mem_intText n
        obtain ⟨hspace, hlower⟩ := digit_not_final hdigit
        exact (hother hc hspace hlower rfl).elim
      | float x =>
        obtain ⟨c, hc, hdigit⟩ := digit_mem_floatText x
        obtain ⟨hspace, hlower⟩ := digit_not_final hdigit
        exact (hother hc hspace hlower rfl).elim
      | arr xs =>
        refine (hother (c := '[') ?_ (by decide) (by decide) rfl).elim
        cases xs <;> simp [Json.pyRepr]
      | obj ms =>
        refine (hother (c := '\x7b') ?_ (by decide) (by decide) rfl).elim
        cases ms <;> simp [Json.pyRepr]
    · rw [if_neg htruthy] at h
      exact absurd h hempty

section Parse

variable {d : Decoder} {header : Obj} {headerText body : Text}

theorem fromObject_of_final (shape : Shape) (body : Text)
    (h : lower (strip (textOf header "action")) = final) :
    (fromObject header shape (some body)).kind = .final ∧
      (fromObject header shape (some body)).answer = body ∧
      (fromObject header shape (some body)).shape = shape := by
  obtain ⟨action, hget, hverb⟩ := verb_of_final h
  unfold fromObject
  rw [hget]
  dsimp only
  rw [hverb, if_neg (by decide), if_pos rfl]
  exact ⟨rfl, rfl, rfl⟩

theorem opensBody_iff : opensBody d headerText = true ↔
    strip headerText = [] ∨ ∃ header, headerOf d headerText = some header ∧
      lower (strip (textOf header "action")) = final := by
  unfold opensBody headerOf
  by_cases hblank : strip headerText = []
  · rw [hblank]
    exact ⟨fun _ => .inl rfl, fun _ => rfl⟩
  · rw [if_neg hblank, Bool.or_eq_true, beq_iff_eq]
    refine or_congr_right ?_
    cases hload : loadObject d headerText with
    | none => exact ⟨fun h => (nomatch h), fun h => (nomatch h)⟩
    | some header =>
      dsimp only
      rw [Bool.and_eq_true, beq_iff_eq]
      constructor
      · rintro ⟨-, hverb⟩
        exact ⟨header, rfl, hverb⟩
      · rintro ⟨_, ⟨⟩, hverb⟩
        refine ⟨?_, hverb⟩
        cases header with
        | nil => exact absurd hverb (by decide)
        | cons m ms => rfl

def HeaderBehind (d : Decoder) (body : Text) : Prop :=
  ∃ before obj, trailingObject d body = some (before, obj) ∧
    (fromObject obj .trailing (some before)).kind = .final

/-- **A reply with a separator**: what is passed on is the answer, unless the text before the
separator is blank and the header stands behind the body. -/
theorem parseSeparated_of_opens (hopens : opensBody d headerText = true)
    (hbehind : ¬ (strip headerText = [] ∧ HeaderBehind d body)) :
    (parseSeparated d headerText body).kind = .final ∧
      (parseSeparated d headerText body).answer = body := by
  unfold parseSeparated
  rcases opensBody_iff.mp hopens with hblank | ⟨header, hheader, hverb⟩
  · have hnone : headerOf d headerText = none := if_pos hblank
    rw [hnone]
    dsimp only
    cases htrailing : trailingObject d body with
    | none => exact ⟨rfl, rfl⟩
    | some r =>
      obtain ⟨before, obj⟩ := r
      have hkind : ¬ (fromObject obj .trailing (some before)).kind = .final := fun hfinal =>
        hbehind ⟨hblank, before, obj, htrailing, hfinal⟩
      dsimp only
      rw [if_neg hkind]
      exact ⟨rfl, rfl⟩
  · rw [hheader]
    dsimp only
    obtain ⟨hkind, hanswer, hshape⟩ :=
      fromObject_of_final .separator body hverb
    rw [if_neg (by rw [hkind]; rintro ⟨⟨⟩, -⟩), if_pos ⟨hkind, hshape⟩]
    exact ⟨hkind, hanswer⟩

theorem parseSeparated_kind (h : (parseSeparated d headerText body).kind ≠ .final) :
    opensBody d headerText = false := by
  by_contra hopens
  rw [Bool.not_eq_false] at hopens
  unfold parseSeparated at h
  rcases opensBody_iff.mp hopens with hblank | ⟨header, hheader, hverb⟩
  · have hnone : headerOf d headerText = none := if_pos hblank
    rw [hnone] at h
    dsimp only at h
    split at h
    · split at h
      · rename_i hfinal
        exact h hfinal
      · exact h rfl
    · exact h rfl
  · rw [hheader] at h
    dsimp only at h
    obtain ⟨hkind, -, hshape⟩ := fromObject_of_final .separator body hverb
    rw [if_neg (by rw [hkind]; rintro ⟨⟨⟩, -⟩), if_pos ⟨hkind, hshape⟩] at h
    exact h hkind

end Parse

/-! ### A header behind the body -/

section Trailing

variable {d : Decoder} {text body before : Text} {obj : Obj}

theorem length_rstrip_le (text : Text) : (rstrip text).length ≤ text.length := by
  unfold rstrip
  rw [length_reverse]
  exact (dropWhile_sublist _).length_le.trans (length_reverse).le

theorem length_cutAt_le (matchesHere : Text → Bool) (text : Text) :
    (cutAt matchesHere text).length ≤ text.length := by
  induction text with
  | nil => exact le_rfl
  | cons c cs ih =>
    unfold cutAt
    split
    · exact Nat.zero_le _
    · exact Nat.succ_le_succ ih

theorem rfindBrace_lt {n p : Nat} (h : rfindBrace body n = some p) : p < body.length := by
  induction n with
  | zero => cases h
  | succ n ih =>
    unfold rfindBrace at h
    split at h
    · rename_i hbrace
      cases h
      exact (List.getElem?_eq_some_iff.mp hbrace).1
    · exact ih h

theorem trailingBefore_eq_some {attempts position : Nat}
    (h : trailingBefore d body attempts position = some (before, obj)) : ∃ p rest,
    p < body.length ∧ before.length ≤ p ∧ d.rawDecode (body.drop p) = some (.obj obj, rest) := by
  induction attempts generalizing position with
  | zero => cases h
  | succ attempts ih =>
    unfold trailingBefore at h
    split at h
    · cases h
    · rename_i p hp
      split at h
      · exact ih h
      · rename_i value rest hdecode
        split at h
        · split at h
          · rename_i found hfound
            split at h
            · cases h
              refine ⟨p, rest, rfindBrace_lt hp, ?_, ?_⟩
              · calc (rstrip (cutAt opensFence (rstrip (body.take p)))).length
                    ≤ (cutAt opensFence (rstrip (body.take p))).length := length_rstrip_le _
                  _ ≤ (rstrip (body.take p)).length := length_cutAt_le _ _
                  _ ≤ (body.take p).length := length_rstrip_le _
                  _ ≤ p := length_take_le _ _
              · cases value with
                | obj ms =>
                  cases hfound
                  exact hdecode
                | _ => cases hfound
            · cases h
          · cases h
        · exact ih h

theorem mem_of_get? {key : String} {value : Json} (h : get? obj key = some value) :
    (key, value) ∈ obj := by
  unfold get? at h
  induction obj with
  | nil => cases h
  | cons m ms ih =>
    obtain ⟨k, v⟩ := m
    unfold Dict.lookup at h
    split at h
    · rename_i hkey
      cases h
      rw [hkey]
      exact mem_cons_self
    · exact mem_cons_of_mem _ (ih h)

theorem trailingObject_shorter (h : trailingObject d text = some (before, obj)) :
    before.length < text.length ∧ ∀ {key : String} {answer : String},
      get? obj key = some (.str answer) → answer.toList.length < text.length := by
  unfold trailingObject at h
  dsimp only at h
  generalize hbody : (if endsWith (rstrip text) fence = true then
    rstrip ((rstrip text).take ((rstrip text).length - fence.length)) else rstrip text) = body at h
  have hle : body.length ≤ text.length := by
    rw [← hbody]
    split
    · calc (rstrip ((rstrip text).take ((rstrip text).length - fence.length))).length
          ≤ ((rstrip text).take ((rstrip text).length - fence.length)).length := length_rstrip_le _
        _ ≤ (rstrip text).length := length_take_le' _ _
        _ ≤ text.length := length_rstrip_le _
    · exact length_rstrip_le _
  split at h
  · obtain ⟨p, rest, hp, hbefore, hdecode⟩ := trailingBefore_eq_some h
    refine ⟨(hbefore.trans_lt hp).trans_le hle, ?_⟩
    intro key answer hget
    have hshort := d.shorter hdecode (mem_of_get? hget)
    rw [length_drop] at hshort
    omega
  · cases h

theorem HeaderBehind.shorter {headerText : Text} (h : HeaderBehind d body)
    (hblank : strip headerText = []) :
    (parseSeparated d headerText body).answer.length < body.length := by
  obtain ⟨before, obj, htrailing, hfinal⟩ := h
  obtain ⟨hbefore, hanswer⟩ := trailingObject_shorter htrailing
  unfold parseSeparated
  have hnone : headerOf d headerText = none := if_pos hblank
  rw [hnone, htrailing]
  dsimp only
  rw [if_pos hfinal]
  unfold fromObject at hfinal ⊢
  dsimp only at hfinal ⊢
  have hlegacy : ∀ answer : String, get? obj "answer" = some (.str answer) →
      (legacyReply obj answer.toList).answer.length < body.length := by
    intro answer hget
    unfold legacyReply
    split
    · split <;> exact hanswer hget
    · exact hanswer hget
  split at hfinal
  · rename_i action hget
    split at hfinal
    · split at hfinal <;> cases hfinal
    · rename_i htools
      split at hfinal
      · rename_i hverb
        rw [if_neg htools, if_pos hverb]
        exact hbefore
      · cases hfinal
  · rename_i hget
    split at hfinal
    · rename_i answer hget'
      exact hlegacy answer hget'
    · split at hfinal
      · rename_i hkey
        rw [if_pos hkey]
        exact hbefore
      · cases hfinal

end Trailing

structure LiveFaithful (d : Decoder) (reply : Text) : Prop where
  cutting : ∀ deltas deltas' : List Text, deltas.flatten = reply → deltas'.flatten = reply →
    liveText d deltas = liveText d deltas'
  answer : ∀ deltas : List Text, deltas.flatten = reply → liveText d deltas ≠ [] →
    (parseReply d reply).answer = liveText d deltas
  silent : ∀ deltas : List Text, deltas.flatten = reply → (parseReply d reply).kind ≠ .final →
    liveText d deltas = []

/-- **The condition**: only blanks stand before the separator, and the parser finds the header
behind the body. -/
def HeaderTrails (d : Decoder) (reply : Text) : Prop :=
  ∃ headerText rest, searchSeparator (normalise reply) = some (headerText, rest) ∧
    strip headerText = [] ∧ HeaderBehind d (dropNewline rest)

theorem bodyOf_eq (h : searchSeparator text = some (headerText, rest)) :
    bodyOf d text = if opensBody d headerText then dropNewline rest else [] := by
  unfold bodyOf
  rw [h]

/-- **The live text is the answer** exactly if the header does not stand behind the body. -/
theorem live_answer_iff (d : Decoder) (reply : Text) :
    LiveFaithful d reply ↔ ¬ HeaderTrails d reply := by
  constructor
  · rintro hfaithful ⟨headerText, rest, hsearch, hblank, hbehind⟩
    have hlive : liveText d [reply] = dropNewline rest := by
      rw [liveText_eq, List.flatten_singleton, bodyOf_eq hsearch,
        if_pos (opensBody_iff.mpr (.inl hblank))]
    have hparse : parseReply d reply = parseSeparated d headerText (dropNewline rest) := by
      unfold parseReply
      dsimp only
      rw [hsearch]
    have hshort := hbehind.shorter hblank
    have hne : liveText d [reply] ≠ [] := by
      rw [hlive]
      intro hnil
      rw [hnil] at hshort
      cases hshort
    have hanswer := hfaithful.answer [reply] (List.flatten_singleton) hne
    rw [hparse, hlive] at hanswer
    rw [hanswer] at hshort
    exact lt_irrefl _ hshort
  · intro htrails
    refine ⟨?_, ?_, ?_⟩
    · intro deltas deltas' h h'
      rw [liveText_eq, liveText_eq, h, h']
    · intro deltas h hne
      rw [liveText_eq, h] at hne ⊢
      unfold parseReply
      dsimp only
      cases hsearch : searchSeparator (normalise reply) with
      | none =>
        unfold bodyOf at hne
        rw [hsearch] at hne
        exact absurd rfl hne
      | some r =>
        obtain ⟨headerText, rest⟩ := r
        rw [bodyOf_eq hsearch] at hne ⊢
        by_cases hopens : opensBody d headerText = true
        · rw [if_pos hopens]
          refine (parseSeparated_of_opens hopens ?_).2
          rintro ⟨hblank, hbehind⟩
          exact htrails ⟨headerText, rest, hsearch, hblank, hbehind⟩
        · rw [if_neg hopens] at hne
          exact absurd rfl hne
    · intro deltas h hkind
      rw [liveText_eq, h]
      unfold parseReply at hkind
      dsimp only at hkind
      cases hsearch : searchSeparator (normalise reply) with
      | none =>
        unfold bodyOf
        rw [hsearch]
      | some r =>
        rw [hsearch] at hkind
        rw [bodyOf_eq hsearch, if_neg]
        rw [parseSeparated_kind hkind]
        exact Bool.false_ne_true

def trailingReply : Text :=
  dashes ++ separatorWord ++ dashes ++ ['\n', 'o', 'k', '\n'] ++
    ['\x7b', '"', 'b', 'l', 'o', 'c', 'k', 's', '"', ':', '[', ']', '\x7d']

set_option maxRecDepth 10000 in
/-- The header behind the body is passed on, and is no part of the answer. -/
theorem trailing_header_shown : ¬ LiveFaithful jsonDecoder trailingReply := by
  intro h
  have hlive : liveText jsonDecoder [trailingReply] ≠ [] := by decide
  have hanswer : (parseReply jsonDecoder trailingReply).answer ≠
      liveText jsonDecoder [trailingReply] := by decide
  exact hanswer (h.answer [trailingReply] List.flatten_singleton hlive)

end AgenticKibana.Chat
