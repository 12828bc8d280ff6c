import AgenticKibana.Library.JsonPrefix
import AgenticKibana.Receivers.LeefRoundTrip

/-!
# Lines of JSON objects, and records of pushed payloads

An encoder that leaves the characters beyond ASCII as they are writes an object on one line, but
the splitting into lines knows three boundaries beyond ASCII: a list of objects is read back if
and only if none of their strings contains one.

A hint or the look of a payload selects one of nine formats.  The formats of lines give a record
for every payload that is not blank; of JSON, an empty array holds no record, and a text beyond
the limits of the interpreter raises.
-/

namespace AgenticKibana.Receivers

open AgenticKibana.Library List
open AgenticKibana.Library.TextLines
open AgenticKibana.Library.Json (loads text valid)

/-! ### Encoders -/

mutual
def occurs (c : Char) : Json → Bool
  | .str s => s.toList.contains c
  | .arr xs => occursItems c xs
  | .obj ms => occursMembers c ms
  | _ => false
termination_by structural j => j

def occursItems (c : Char) : List Json → Bool
  | [] => false
  | x :: xs => occurs c x || occursItems c xs
termination_by structural j => j

def occursMembers (c : Char) : List (String × Json) → Bool
  | [] => false
  | m :: ms => occursMember c m || occursMembers c ms
termination_by structural j => j

def occursMember (c : Char) : String × Json → Bool
  | (k, v) => k.toList.contains c || occurs c v
termination_by structural j => j
end

abbrev JsonObject := {members : Obj // valid (.obj members) = true}

structure LineEncoder where
  encode : JsonObject → Text
  opens : ∀ o, (encode o).head? = some '\x7b'
  closes : ∀ o, (encode o).getLast? = some '\x7d'
  decodes : ∀ o, loads (encode o) = some (.obj o.1)
  oneLine : ∀ o, ∀ c ∈ encode o, isBreak c = true → 128 ≤ c.toNat
  asIs : ∀ o c, 128 ≤ c.toNat → (c ∈ encode o ↔ occurs c (.obj o.1) = true)

def separators : Text := ['\u0085', '\u2028', '\u2029']

def Unbroken (o : Obj) : Prop := ∀ c ∈ separators, occurs c (.obj o) = false

def LineEncoder.lines (encoder : LineEncoder) (objects : List JsonObject) : Text :=
  ['\n'].intercalate (objects.map encoder.encode)

variable {c : Char}

theorem mem_separators (hbreak : isBreak c = true) (hc : 128 ≤ c.toNat) : c ∈ separators := by
  have hmem := contains_iff_mem.mp hbreak
  simp only [mem_cons, not_mem_nil, or_false] at hmem
  rcases hmem with rfl | rfl | rfl | rfl | rfl | rfl | rfl | rfl | rfl | rfl
  all_goals revert hc; decide

theorem isBreak_of_mem_separators (h : c ∈ separators) :
    isBreak c = true ∧ 128 ≤ c.toNat ∧ Json.isSpace c = false := by
  simp only [separators, mem_cons, not_mem_nil, or_false] at h
  rcases h with rfl | rfl | rfl
  all_goals decide

theorem unbroken_iff (encoder : LineEncoder) (o : JsonObject) :
    Unbroken o.1 ↔ ∀ c ∈ encoder.encode o, isBreak c = false := by
  constructor
  · intro h c hc
    by_contra hbreak
    have hbreak : isBreak c = true := Bool.not_eq_false _ ▸ hbreak
    have hfar := encoder.oneLine o c hc hbreak
    have hoccurs := (encoder.asIs o c hfar).mp hc
    rw [h c (mem_separators hbreak hfar)] at hoccurs
    cases hoccurs
  · intro h c hc
    obtain ⟨hbreak, hfar, -⟩ := isBreak_of_mem_separators hc
    by_contra hoccurs
    have hmem := (encoder.asIs o c hfar).mpr (Bool.not_eq_false _ ▸ hoccurs)
    rw [h c hmem] at hbreak
    cases hbreak

theorem LineEncoder.encode_ne_nil (encoder : LineEncoder) (o : JsonObject) :
    encoder.encode o ≠ [] := by
  intro hnil
  have hopens := encoder.opens o
  rw [hnil] at hopens
  cases hopens

theorem LineEncoder.strip_encode (encoder : LineEncoder) (o : JsonObject) :
    strip (encoder.encode o) = encoder.encode o := by
  refine strip_of_trimmed ⟨fun c hc => ?_, fun c hc => ?_⟩
  · obtain rfl := Option.some.inj ((encoder.opens o).symm.trans hc)
    decide
  · obtain rfl := Option.some.inj ((encoder.closes o).symm.trans hc)
    decide

/-! ### The compact encoder -/

def Foreign (c : Char) : Prop := c.toNat < 32 ∨ 128 ≤ c.toNat

instance : DecidablePred Foreign := fun c =>
  inferInstanceAs (Decidable (c.toNat < 32 ∨ 128 ≤ c.toNat))

def Shows (t : Text) (found : Char → Bool) : Prop :=
  ∀ c, Foreign c → (c ∈ t ↔ 128 ≤ c.toNat ∧ found c = true)

variable {t : Text}

theorem shows_of_printable (h : ∀ c ∈ t, ¬ Foreign c) : Shows t fun _ => false := by
  intro c hc
  exact ⟨fun hmem => absurd hc (h c hmem), fun hfound => nomatch hfound.2⟩

theorem shows_of_all (h : (t.all fun c => !decide (Foreign c)) = true) : Shows t fun _ => false :=
  shows_of_printable fun c hc => by simpa using all_eq_true.mp h c hc

variable {f : Char → Bool}

theorem Shows.append {u : Text} {g : Char → Bool} (ht : Shows t f) (hu : Shows u g) :
    Shows (t ++ u) fun c => f c || g c := by
  intro c hc
  rw [mem_append, ht c hc, hu c hc, Bool.or_eq_true, ← and_or_left]

theorem Shows.cons (ht : Shows t f) {d : Char} (hd : ¬ Foreign d) : Shows (d :: t) f := by
  intro c hc
  rw [mem_cons, ht c hc, or_iff_right]
  rintro rfl
  exact hd hc

theorem escapeChar_printable :
    ∀ n < 128, (Json.escapeChar (Char.ofNat n)).all
      (fun c => 32 ≤ c.toNat && c.toNat < 128) = true := by
  decide

theorem shows_escapeChar (d : Char) : Shows (Json.escapeChar d) fun c => d == c := by
  by_cases hd : d.toNat < 128
  · have hall := escapeChar_printable d.toNat hd
    rw [Char.ofNat_toNat, all_eq_true] at hall
    intro c hc
    constructor
    · intro hmem
      have := hall c hmem
      simp only [Bool.and_eq_true, decide_eq_true_eq] at this
      unfold Foreign at hc
      omega
    · rintro ⟨hfar, heq⟩
      rw [beq_iff_eq] at heq
      subst heq
      omega
  · have hself : Json.escapeChar d = [d] := by
      have hne : ∀ c : Char, c.toNat < 128 → d ≠ c := by
        rintro c hc rfl
        exact hd hc
      unfold Json.escapeChar
      rw [if_neg (hne _ (by decide)), if_neg (hne _ (by decide)), if_neg (hne _ (by decide)),
        if_neg (hne _ (by decide)), if_neg (hne _ (by decide)), if_neg (hne _ (by decide)),
        if_neg (hne _ (by decide)), if_neg (by omega)]
    intro c hc
    rw [hself, mem_singleton, beq_iff_eq]
    constructor
    · rintro rfl
      exact ⟨by omega, rfl⟩
    · rintro ⟨-, rfl⟩
      rfl

theorem shows_quote (s : String) : Shows (Json.quote s) s.toList.contains := by
  have hchars : ∀ cs : Text, Shows (cs.flatMap Json.escapeChar) cs.contains := by
    intro cs
    induction cs with
    | nil => exact shows_of_printable fun c hc => nomatch hc
    | cons d ds ih =>
      rw [flatMap_cons]
      intro c hc
      rw [(shows_escapeChar d).append ih c hc, contains_cons, Bool.beq_comm]
  have hend : Shows ['"'] fun _ => false := shows_of_all (by decide)
  have hquoted := ((hchars s.toList).append hend).cons (d := '"') (by decide)
  simp only [Bool.or_false] at hquoted
  exact hquoted

theorem printable_of_digit (h : c.isDigit = true) : ¬ Foreign c := by
  have hrange : 48 ≤ c.toNat ∧ c.toNat ≤ 57 := Char.isDigit_iff_toNat.mp h
  unfold Foreign
  omega

theorem shows_intText (n : Int) : Shows (Json.intText n) fun _ => false := by
  have hdigits : Shows (Nat.toDigits 10 n.natAbs) fun _ => false :=
    shows_of_printable fun c hc => printable_of_digit (Json.digits_toDigits _ c hc)
  unfold Json.intText
  split
  · exact hdigits.cons (by decide)
  · exact hdigits

theorem shows_decimal (d : Decimal) : Shows d.text fun _ => false := by
  obtain ⟨ip, fp, ep, htext, hparts, -⟩ := Json.decimal_parts d
  have hrun : ∀ ds : Text, (∀ c ∈ ds, c.isDigit = true) → Shows ds fun _ => false :=
    fun ds hds => shows_of_printable fun c hc => printable_of_digit (hds c hc)
  have hnone : Shows [] fun _ => false := shows_of_printable fun c hc => nomatch hc
  have hsign : Shows (if d.neg then ['-'] else []) fun _ => false := by
    split
    · exact hnone.cons (by decide)
    · exact hnone
  have hfraction : Shows (Json.fractionText fp) fun _ => false := by
    cases fp with
    | none => exact hnone
    | some ds => exact (hrun ds (hparts.fraction ds rfl).2).cons (by decide)
  have hexponent : Shows (Json.exponentText ep) fun _ => false := by
    cases ep with
    | none => exact hnone
    | some e =>
      refine ((hrun e.2 (hparts.exponent e rfl).2).cons ?_).cons (by decide)
      split <;> decide
  rw [htext]
  exact hsign.append ((hrun ip hparts.digits).append (hfraction.append hexponent))

mutual
/-- **The text of a value shows the characters of its strings.** -/
theorem shows_text : (j : Json) → Shows (text j) fun c => occurs c j
  | .null => shows_of_all (by decide)
  | .bool true => shows_of_all (by decide)
  | .bool false => shows_of_all (by decide)
  | .int n => shows_intText n
  | .float d => shows_decimal d
  | .str s => shows_quote s
  | .arr [] => shows_of_all (t := ['[', ']']) (by decide)
  | .arr (x :: xs) => by
    rw [text]
    exact ((shows_text x).cons (by decide)).append (shows_itemsText xs)
  | .obj [] => shows_of_all (t := ['\x7b', '\x7d']) (by decide)
  | .obj (m :: ms) => by
    rw [text]
    exact ((shows_memberText m).cons (by decide)).append (shows_membersText ms)
termination_by structural j => j

theorem shows_itemsText : (xs : List Json) → Shows (Json.itemsText xs) fun c => occursItems c xs
  | [] => shows_of_all (t := [']']) (by decide)
  | x :: xs => by
    rw [Json.itemsText]
    exact ((shows_text x).cons (by decide)).append (shows_itemsText xs)
termination_by structural j => j

theorem shows_membersText : (ms : List (String × Json)) →
    Shows (Json.membersText ms) fun c => occursMembers c ms
  | [] => shows_of_all (t := ['\x7d']) (by decide)
  | m :: ms => by
    rw [Json.membersText]
    exact ((shows_memberText m).cons (by decide)).append (shows_membersText ms)
termination_by structural j => j

theorem shows_memberText : (m : String × Json) →
    Shows (Json.memberText m) fun c => occursMember c m
  | (k, v) => by
    rw [Json.memberText]
    exact (shows_quote k).append ((shows_text v).cons (by decide))
termination_by structural j => j
end

theorem getLast?_membersText (ms : List (String × Json)) :
    (Json.membersText ms).getLast? = some '\x7d' := by
  induction ms with
  | nil => rfl
  | cons m ms ih => rw [Json.membersText, getLast?_append, ih, Option.some_or]

/-- `json.dumps(o, ensure_ascii=False, separators=(",", ":"))`. -/
def compact : LineEncoder where
  encode o := text (.obj o.1)
  opens := by
    rintro ⟨ms, hms⟩
    cases ms <;> rfl
  closes := by
    rintro ⟨ms, hms⟩
    cases ms with
    | nil => rfl
    | cons m ms =>
      change (text (.obj (m :: ms))).getLast? = _
      rw [text, getLast?_append, getLast?_membersText, Option.some_or]
  decodes o := Json.loads_text o.2
  oneLine := by
    intro o c hc hbreak
    by_contra hnear
    have hcontrol : c.toNat < 32 := by
      have hmem := contains_iff_mem.mp hbreak
      simp only [mem_cons, not_mem_nil, or_false] at hmem
      rcases hmem with rfl | rfl | rfl | rfl | rfl | rfl | rfl | rfl | rfl | rfl
      all_goals first
        | decide
        | exact absurd (by decide) hnear
    exact hnear ((shows_text _ c (.inl hcontrol)).mp hc).1
  asIs := by
    intro o c hc
    rw [shows_text _ c (.inr hc)]
    exact and_iff_right hc

variable {line : Text}

theorem splitLines_break (h : ∀ c ∈ line, isBreak c = false) (hc : isBreak c = true)
    (hcr : c ≠ '\r') (rest : Text) : splitLines (line ++ c :: rest) = line :: splitLines rest := by
  have hfeed : Splitter.feed ⟨[], line, false⟩ c = ⟨[line] ++ [], [], false⟩ := by
    simp [Splitter.feed, hc, hcr]
  have hfold : splitter (line ++ c :: rest) =
      ⟨[line] ++ (splitter rest).done, (splitter rest).current, (splitter rest).cr⟩ := by
    unfold splitter
    rw [foldl_append, show ({} : Splitter) = ⟨[], [], false⟩ from rfl,
      foldl_splitFeed_unbroken h [], foldl_cons, nil_append, hfeed]
    exact foldl_splitFeed_append [line] {} rest
  unfold splitLines
  rw [hfold]
  dsimp only
  split <;> simp

/-! ### Reading the lines -/

theorem obj_of_loads {cs : Text} {j : Json} (h : loads ('\x7b' :: cs) = some j) :
    ∃ ms, j = .obj ms := by
  have hskip : Json.skipSpace ('\x7b' :: cs) = '\x7b' :: cs := Json.skipSpace_cons cs (by decide)
  unfold loads at h
  rw [Json.readValue_brace _ hskip] at h
  split at h
  · next v rest hread =>
      split at h
      · obtain rfl := Option.some.inj h
        split at hread
        · obtain ⟨rfl, -⟩ := Prod.mk.inj (Option.some.inj hread)
          exact ⟨_, rfl⟩
        · obtain ⟨r, -, hr⟩ := Option.map_eq_some_iff.mp hread
          obtain ⟨rfl, -⟩ := Prod.mk.inj hr
          exact ⟨_, rfl⟩
      · cases h
  · cases h

theorem strip_cons (hc : isSpace c = false) (cs : Text) :
    ∃ ds after, strip (c :: cs) = c :: ds ∧ cs = ds ++ after := by
  refine ⟨(cs.reverse.dropWhile isSpace).reverse, (cs.reverse.takeWhile isSpace).reverse, ?_, ?_⟩
  · have hdrop : (c :: cs).dropWhile isSpace = c :: cs :=
      dropWhile_cons_of_neg (by rw [hc]; exact Bool.false_ne_true)
    unfold strip
    rw [hdrop, reverse_cons, dropWhile_append]
    split
    · next hnil =>
        rw [List.isEmpty_iff] at hnil
        rw [hnil, dropWhile_cons_of_neg (by rw [hc]; exact Bool.false_ne_true)]
        rfl
    · rw [reverse_append]
      rfl
  · rw [← reverse_append, takeWhile_append_dropWhile, reverse_reverse]

theorem first_break (h : ¬ ∀ c ∈ line, isBreak c = false) :
    ∃ before c after, line = before ++ c :: after ∧ (∀ d ∈ before, isBreak d = false) ∧
      isBreak c = true := by
  have hdrop : line.dropWhile (fun c => !isBreak c) ≠ [] := by
    intro hnil
    exact h fun c hc => by simpa using dropWhile_eq_nil_iff.mp hnil c hc
  obtain ⟨c, after, hcons⟩ := exists_cons_of_ne_nil hdrop
  refine ⟨line.takeWhile fun c => !isBreak c, c, after, ?_, ?_, ?_⟩
  · rw [← hcons, takeWhile_append_dropWhile]
  · intro d hd
    simpa using mem_takeWhile_imp hd
  · simpa using head?_dropWhile (p := fun c => !isBreak c) (by rw [hcons]; rfl)

section Reading

variable (encoder : LineEncoder) (json : JsonModule)

def IsError (record : Obj) : Prop :=
  ∃ line reason : Text, record = errorMembers line reason ∧
    (∀ c ∈ line, isBreak c = false) ∧ ∀ c ∈ reason, isBreak c = false

variable {o : JsonObject}

/-- **A broken object is lost**: its first line gives an error record, or is not read at all. -/
theorem parse_broken (ho : ¬ ∀ c ∈ encoder.encode o, isBreak c = false) (rest : Text) :
    ∀ out, parseJsonLines json (splitLines (encoder.encode o ++ rest)) = some out →
      ∃ record tail, out = record :: tail ∧ IsError record := by
  obtain ⟨before, c, after, hline, hbefore, hc⟩ := first_break ho
  have hfar : 128 ≤ c.toNat :=
    encoder.oneLine o c (by rw [hline]; exact mem_append_right _ mem_cons_self) hc
  obtain ⟨-, -, hspace⟩ := isBreak_of_mem_separators (mem_separators hc hfar)
  obtain ⟨cs, hopen⟩ := head?_eq_some_iff.mp (encoder.opens o)
  obtain ⟨ds, rfl⟩ : ∃ ds, before = '\x7b' :: ds := by
    rw [hline] at hopen
    cases before with
    | nil =>
      obtain ⟨rfl, -⟩ := List.cons.inj hopen
      exact absurd hc (by decide)
    | cons d ds => exact ⟨ds, by rw [(List.cons.inj hopen).1]⟩
  obtain ⟨es, cut, hstrip, hcut⟩ := strip_cons (c := '\x7b') (by decide) ds
  have hnone : loads (strip ('\x7b' :: ds)) = none := by
    rw [hstrip]
    cases hloads : loads ('\x7b' :: es) with
    | none => rfl
    | some j =>
      obtain ⟨ms, rfl⟩ := obj_of_loads hloads
      have hwhole := encoder.decodes o
      rw [hline, hcut, cons_append, append_assoc, ← cons_append] at hwhole
      have hspaces := Json.space_of_loads_append hloads hwhole
      have hall := dropWhile_eq_nil_iff.mp hspaces c (by simp)
      rw [hspace] at hall
      cases hall
  have hcr : c ≠ '\r' := by
    rintro rfl
    revert hfar
    decide
  have htext : encoder.encode o ++ rest = ('\x7b' :: ds) ++ c :: (after ++ rest) := by
    rw [hline, append_assoc]
    rfl
  intro out hout
  rw [htext, splitLines_break hbefore hc hcr, parseJsonLines,
    if_neg (by rw [hstrip]; exact cons_ne_nil _ _)] at hout
  obtain ⟨records, hrecords, hmore⟩ := Option.bind_eq_some_iff.mp hout
  obtain ⟨tail, -, rfl⟩ := Option.map_eq_some_iff.mp hmore
  unfold JsonModule.records JsonModule.loads at hrecords
  rw [hnone] at hrecords
  by_cases hexceeds : json.exceeds (strip ('\x7b' :: ds)) = true
  · rw [if_pos hexceeds] at hrecords
    cases hrecords
  · rw [if_neg hexceeds] at hrecords
    obtain rfl := Option.some.inj hrecords
    refine ⟨_, tail, rfl, _, _, rfl, ?_, ?_⟩
    · intro d hd
      apply hbefore d
      rw [hstrip] at hd
      rw [hcut, ← cons_append]
      exact mem_append_left _ hd
    · intro d hd
      rcases mem_append.mp hd with hd | hd
      · have hall : ("ndjson: ".toList.all fun c => !isBreak c) = true := by decide
        simpa using all_eq_true.mp hall d hd
      · exact json.oneLine _ d hd

theorem unbroken_of_isError (h : IsError o.1) : Unbroken o.1 := by
  obtain ⟨line, reason, heq, hline, hreason⟩ := h
  intro c hc
  obtain ⟨hbreak, -, -⟩ := isBreak_of_mem_separators hc
  have hnot : ∀ t : Text, (∀ d ∈ t, isBreak d = false) → t.contains c = false := by
    intro t ht
    rw [Bool.eq_false_iff, Ne, contains_iff_mem]
    intro hmem
    rw [ht c hmem] at hbreak
    cases hbreak
  have hkey : ∀ key : String, (key.toList.all fun c => !isBreak c) = true →
      key.toList.contains c = false :=
    fun key hkey => hnot _ fun d hd => by simpa using all_eq_true.mp hkey d hd
  rw [heq]
  simp only [errorMembers, occurs, occursMembers, occursMember, String.toList_ofList,
    hnot line hline, hnot reason hreason, hkey "message" (by decide),
    hkey "_parse_error" (by decide), Bool.or_self]

theorem parse_line (o : JsonObject) (lines : List Text) :
    parseJsonLines json (encoder.encode o :: lines) =
      if json.exceeds (encoder.encode o) then none
      else (parseJsonLines json lines).map (o.1 :: ·) := by
  rw [parseJsonLines, encoder.strip_encode, if_neg (encoder.encode_ne_nil o)]
  unfold JsonModule.records JsonModule.loads
  rw [encoder.decodes]
  cases json.exceeds (encoder.encode o) with
  | true => rfl
  | false => rfl

theorem parse_lines (objects : List JsonObject) :
    parseJsonLines json (splitLines (encoder.lines objects)) = some (objects.map Subtype.val) ↔
      ∀ o ∈ objects, Unbroken o.1 ∧ json.exceeds (encoder.encode o) = false := by
  induction objects with
  | nil => simp [LineEncoder.lines, splitLines, splitter, parseJsonLines]
  | cons o objects ih =>
    obtain ⟨rest, htext, hsplit⟩ : ∃ rest, encoder.lines (o :: objects) =
        encoder.encode o ++ rest ∧ ((∀ c ∈ encoder.encode o, isBreak c = false) →
          splitLines (encoder.encode o ++ rest) =
            encoder.encode o :: splitLines (encoder.lines objects)) := by
      cases objects with
      | nil =>
        refine ⟨[], by simp [LineEncoder.lines], fun ho => ?_⟩
        rw [append_nil, splitLines_unbroken (encoder.encode_ne_nil o) ho]
        rfl
      | cons next more =>
        refine ⟨'\n' :: encoder.lines (next :: more), ?_, fun ho => ?_⟩
        · simp [LineEncoder.lines, List.intercalate]
        · exact splitLines_break ho (by decide) (by decide) _
    rw [htext, forall_mem_cons, map_cons]
    by_cases hbroken : ∀ c ∈ encoder.encode o, isBreak c = false
    · have hunbroken := (unbroken_iff encoder o).mpr hbroken
      rw [hsplit hbroken, parse_line encoder json]
      cases hexceeds : json.exceeds (encoder.encode o) with
      | true =>
        refine iff_of_false (fun hout => ?_) fun h => nomatch h.1.2
        exact nomatch hout
      | false =>
        rw [if_neg Bool.false_ne_true, ← ih, Option.map_eq_some_iff]
        constructor
        · rintro ⟨tail, htail, heq⟩
          exact ⟨⟨hunbroken, rfl⟩, htail.trans (congrArg some (List.cons.inj heq).2)⟩
        · exact fun h => ⟨_, h.2, rfl⟩
    · have hnot : ¬ Unbroken o.1 := fun h => hbroken ((unbroken_iff encoder o).mp h)
      refine iff_of_false (fun hout => ?_) fun h => hnot h.1.1
      obtain ⟨record, tail, heq, herror⟩ := parse_broken encoder json hbroken rest _ hout
      obtain ⟨rfl, -⟩ := List.cons.inj heq
      exact hnot (unbroken_of_isError herror)

/-- **Lines of objects are read back if and only if no string of them contains a line
boundary** (and none is beyond the limits of the interpreter). -/
theorem parseNdjson_lines_iff (objects : List JsonObject) {payload : Payload}
    (hpayload : payload.toText = encoder.lines objects) :
    parseNdjson json payload = some (objects.map Subtype.val) ↔
      ∀ o ∈ objects, Unbroken o.1 ∧ json.exceeds (encoder.encode o) = false := by
  rw [parseNdjson, hpayload]
  exact parse_lines encoder json objects

end Reading

def sampleJson : JsonModule where
  reason text :=
    if text.head? = some '\x7b' then
      "Unterminated string starting at: line 1 column 6 (char 5)".toList
    else "Expecting value: line 1 column 1 (char 0)".toList
  exceeds _ := false
  oneLine := by
    intro text c hc
    have hall : ∀ reason : Text, (reason.all fun c => !isBreak c) = true → c ∈ reason →
        isBreak c = false :=
      fun reason hreason hmem => by simpa using all_eq_true.mp hreason c hmem
    split at hc
    · exact hall _ (by decide) hc
    · exact hall _ (by decide) hc

theorem sampleJson_lines :
    parseNdjson sampleJson (.text (compact.lines [⟨[("a", .str "x y")], by decide⟩])) =
      some [[("a", .str "x y")]] := by
  refine (parseNdjson_lines_iff compact sampleJson [⟨[("a", .str "x y")], by decide⟩] rfl).mpr ?_
  intro o ho
  obtain rfl := mem_singleton.mp ho
  refine ⟨fun c hc => ?_, rfl⟩
  simp only [separators, mem_cons, not_mem_nil, or_false] at hc
  rcases hc with rfl | rfl | rfl
  all_goals rfl

/-- A line separator in a string makes two error records of one object. -/
theorem sampleJson_broken :
    parseNdjson sampleJson (.text (compact.lines [⟨[("a", .str "x\u2028y")], by decide⟩])) =
        some [errorMembers "\x7b\"a\":\"x".toList
            "ndjson: Unterminated string starting at: line 1 column 6 (char 5)".toList,
          errorMembers "y\"\x7d".toList
            "ndjson: Expecting value: line 1 column 1 (char 0)".toList] ∧
      parseNdjson sampleJson (.text (compact.lines [⟨[("a", .str "x\u2028y")], by decide⟩])) ≠
        some [[("a", .str "x\u2028y")]] := by
  have hout : parseNdjson sampleJson
      (.text (compact.lines [⟨[("a", .str "x\u2028y")], by decide⟩])) =
        some [errorMembers "\x7b\"a\":\"x".toList
            "ndjson: Unterminated string starting at: line 1 column 6 (char 5)".toList,
          errorMembers "y\"\x7d".toList
            "ndjson: Expecting value: line 1 column 1 (char 0)".toList] := by
    decide
  refine ⟨hout, ?_⟩
  rw [hout]
  exact nofun

/-! ### Records of pushed payloads -/

/-- The formats that are known: the keys of `_PARSERS`, and `raw`. -/
inductive Format where
  | json
  | ndjson
  | cef
  | leef
  | syslog5424
  | syslog3164
  | gelf
  | kv
  | raw
deriving DecidableEq

/-- `_HINT_ALIASES`; `auto` stands for no format.  Every key of `_PARSERS` is among them. -/
def hintAliases : List (String × Option Format) :=
  [("auto", none), ("application/json", some .json), ("text/json", some .json),
    ("application/x-ndjson", some .ndjson), ("application/ndjson", some .ndjson),
    ("ndjson", some .ndjson), ("json", some .json), ("cef", some .cef), ("leef", some .leef),
    ("gelf", some .gelf), ("syslog", some .syslog3164), ("syslog5424", some .syslog5424),
    ("rfc5424", some .syslog5424), ("syslog3164", some .syslog3164),
    ("rfc3164", some .syslog3164), ("kv", some .kv), ("logfmt", some .kv), ("raw", some .raw)]

section Payloads

variable (json : JsonModule) (digits : Digits) (word : WordClass) (tables : CharTables)

def resolveHint (hint : Option Text) : Option Format :=
  match hint with
  | none => none
  | some hint =>
    let h := strip ((tables.lower (strip hint)).takeWhile (· ≠ ';'))
    ((hintAliases.find? fun a => a.1.toList == h).map Prod.snd).join

/-! ### Detection -/

def looksGelf : Json → Bool
  | .obj record =>
    (Dict.lookup "short_message" record).isSome &&
      ((Dict.lookup "version" record).isSome || (Dict.lookup "host" record).isSome)
  | _ => false

/-- `marker\d` anywhere in the text. -/
def searchMarker (marker : Text) : Text → Bool
  | [] => false
  | c :: cs =>
    (marker.isPrefixOf (c :: cs) &&
      (((c :: cs).drop marker.length).head?.any (isDecimal digits))) || searchMarker marker cs

/-- `\b[\w.\-]+=` anywhere in the text, behind a character of a word or not. -/
def searchKv (afterWord : Bool) : Text → Bool
  | [] => false
  | c :: cs =>
    (afterWord != word.holds c && (matchKvKey word (c :: cs)).isSome) ||
      searchKv (word.holds c) cs

/-- `<\d{1,3}>\d ` at the beginning of the text. -/
def looksSyslog5424 (text : Text) : Bool :=
  match matchPri digits text with
  | some (_, d :: ' ' :: _) => isDecimal digits d
  | _ => false

def fullLines (text : Text) : List Text := (splitLines text).filter (strip · ≠ [])

/-- The format of a text that begins like JSON; `none` where the failure is not caught. -/
def detectJson (text : Text) : Option Format :=
  let lines := fullLines text
  if 1 < lines.length ∧ ∀ line ∈ lines, (line.dropWhile isSpace).head? = some '\x7b' then
    match json.loads text with
    | .raised => none
    | .malformed _ => some .ndjson
    | .value obj => some (if looksGelf obj then .gelf else .json)
  else
    match json.loads text with
    | .raised => none
    | .malformed _ => some (if 1 < lines.length then .ndjson else .raw)
    | .value obj => some (if looksGelf obj then .gelf else .json)

def detectFormat (payload : Payload) : Option Format :=
  let text := strip payload.toText
  match text with
  | [] => some .raw
  | first :: _ =>
    if first = '\x7b' ∨ first = '[' then detectJson json text
    else if searchMarker digits leefMarker text then some .leef
    else if searchMarker digits cefMarker text then some .cef
    else if looksSyslog5424 digits text then some .syslog5424
    else if (matchPri digits text).isSome then some .syslog3164
    else if searchKv word false text then some .kv
    else some .raw

/-- A record of `parse_gelf`. -/
def gelfRecord (record : Obj) : Obj :=
  let flat :=
    match Dict.lookup "short_message" record with
    | some message => setDefaultMember record "message" message
    | none => record
  record.foldl
    (fun flat m =>
      match m.1.toList with
      | '_' :: c :: cs => setDefaultMember flat (String.ofList (c :: cs)) m.2
      | _ => flat)
    flat

def parseGelf (payload : Payload) : Option (List Obj) :=
  let text := strip payload.toText
  if text = [] then some []
  else
    match json.loads text with
    | .raised => none
    | .malformed reason => some [errorMembers text ("gelf: ".toList ++ reason)]
    | .value obj => some ((coerceJson obj).map gelfRecord)

def Record.members (record : Record) : Obj :=
  record.entries.map fun m => (String.ofList m.1, textValue m.2)

/-- `records_from_payload`, once the format is known. -/
def parsePayload (payload : Payload) : Format → Option (List Obj)
  | .json => parseJson json payload
  | .ndjson => parseNdjson json payload
  | .cef => some ((parseCef word payload).map Record.members)
  | .leef => some ((parseLeef word tables payload).map Record.members)
  | .syslog5424 => some (parseSyslogRfc5424 digits word payload)
  | .syslog3164 => some (parseSyslogRfc3164 digits word payload)
  | .gelf => parseGelf json payload
  | .kv => some ((parseKv word payload.toText).map Record.members)
  | .raw =>
    let text := strip payload.toText
    some (if text = [] then [] else [[("message", textValue text)]])

/-- `records_from_payload`; `none` where it raises. -/
def recordsFromPayload (payload : Payload) (hint : Option Text) : Option (List Obj) :=
  match resolveHint tables hint with
  | some format => parsePayload json digits word tables payload format
  | none =>
    (detectFormat json digits word payload).bind
      (parsePayload json digits word tables payload)

end Payloads

variable {text : Text}

theorem exists_not_space (h : strip text ≠ []) : ∃ c ∈ text, isSpace c = false := by
  by_contra hnone
  push Not at hnone
  apply h
  have hall : text.dropWhile isSpace = [] :=
    dropWhile_eq_nil_iff.mpr fun c hc => by simpa using hnone c hc
  unfold strip
  rw [hall]
  rfl

theorem exists_full_line (h : strip text ≠ []) : ∃ line ∈ splitLines text, strip line ≠ [] := by
  obtain ⟨c, hmem, hspace⟩ := exists_not_space h
  have hbreak : TextLines.isBreak c = false := by
    by_contra hbreak
    rw [Bool.not_eq_false] at hbreak
    rw [TextLines.isSpace_of_isBreak hbreak] at hspace
    cases hspace
  obtain ⟨line, hline, hc⟩ := mem_foldl_splitFeed hbreak text {} (.inl hmem)
  refine ⟨line, ?_, ne_nil_of_mem (mem_strip hspace hc)⟩
  unfold splitLines TextLines.splitter
  dsimp only
  split
  · next hnil =>
      rcases mem_append.mp hline with hdone | hlast
      · exact hdone
      · rw [mem_singleton.mp hlast, hnil] at hc
        cases hc
  · exact hline

theorem nonblankLines_ne_nil (h : strip text ≠ []) : nonblankLines text ≠ [] := by
  obtain ⟨line, hline, hfull⟩ := exists_full_line h
  exact ne_nil_of_mem
    (mem_filter.mpr ⟨List.mem_map_of_mem hline, decide_eq_true hfull⟩)

/-! ### What is kept -/

section Kept

variable (json : JsonModule)

theorem coerceJson_eq_nil {j : Json} : coerceJson j = [] ↔ j = .arr [] := by
  cases j with
  | arr items => cases items <;> simp [coerceJson]
  | _ => simp [coerceJson]

def Yields (text : Text) : Prop :=
  json.exceeds text = false ∧ Json.loads text ≠ some (.arr [])

theorem records_cases (format text : Text) :
    (json.exceeds text = true ∧ json.records format text = none) ∨
      (json.exceeds text = false ∧ ∃ out, json.records format text = some out ∧
        (out = [] ↔ Json.loads text = some (.arr []))) := by
  unfold JsonModule.records JsonModule.loads
  cases hexceeds : json.exceeds text with
  | true => exact .inl ⟨rfl, rfl⟩
  | false =>
    refine .inr ⟨rfl, ?_⟩
    cases hloads : Json.loads text with
    | none => exact ⟨_, rfl, by simp⟩
    | some j => exact ⟨_, rfl, by rw [coerceJson_eq_nil, Option.some.injEq]⟩

variable {payload : Payload}

theorem parseJson_iff (h : strip payload.toText ≠ []) :
    (∃ out, parseJson json payload = some out ∧ out ≠ []) ↔ Yields json (strip payload.toText) := by
  unfold parseJson Yields
  dsimp only
  rw [if_neg h]
  generalize "json: ".toList = format
  rcases records_cases json format (strip payload.toText) with
    ⟨hexceeds, hout⟩ | ⟨hexceeds, out, hout, hnil⟩
  · simp [hexceeds, hout]
  · simp [hexceeds, hout, hnil]

theorem parseGelf_iff (h : strip payload.toText ≠ []) :
    (∃ out, parseGelf json payload = some out ∧ out ≠ []) ↔ Yields json (strip payload.toText) := by
  unfold parseGelf Yields JsonModule.loads
  dsimp only
  rw [if_neg h]
  cases json.exceeds (strip payload.toText) with
  | true => simp
  | false =>
    cases Json.loads (strip payload.toText) with
    | none => simp
    | some j => simp [coerceJson_eq_nil]

theorem parseJsonLines_iff (lines : List Text) :
    (parseJsonLines json lines = none ↔
        ∃ line ∈ lines, strip line ≠ [] ∧ json.exceeds (strip line) = true) ∧
      ∀ out, parseJsonLines json lines = some out →
        (out = [] ↔ ∀ line ∈ lines, strip line ≠ [] →
          Json.loads (strip line) = some (.arr [])) := by
  induction lines with
  | nil => simp [parseJsonLines]
  | cons line lines ih =>
    obtain ⟨hnone, hsome⟩ := ih
    rw [exists_mem_cons_iff]
    by_cases hblank : strip line = []
    · have hstep : parseJsonLines json (line :: lines) = parseJsonLines json lines := by
        rw [parseJsonLines, if_pos hblank]
      refine ⟨?_, fun out hout => ?_⟩
      · rw [hstep, hnone]
        exact (or_iff_right fun h => h.1 hblank).symm
      · rw [hstep] at hout
        rw [hsome out hout, forall_mem_cons]
        exact (and_iff_right fun hfull => absurd hblank hfull).symm
    · have hstep : ∃ format, parseJsonLines json (line :: lines) =
          (json.records format (strip line)).bind fun out =>
            (parseJsonLines json lines).map (out ++ ·) :=
        ⟨_, by rw [parseJsonLines, if_neg hblank]⟩
      obtain ⟨format, hstep⟩ := hstep
      rw [hstep]
      rcases records_cases json format (strip line) with
        ⟨hexceeds, hout⟩ | ⟨hexceeds, first, hout, hnil⟩
      · rw [hout]
        exact ⟨iff_of_true rfl (.inl ⟨hblank, hexceeds⟩), fun out hraised => by cases hraised⟩
      · rw [hout, Option.bind_some]
        refine ⟨?_, fun out hmap => ?_⟩
        · rw [Option.map_eq_none_iff, hnone, hexceeds]
          exact (or_iff_right fun h => Bool.false_ne_true h.2).symm
        · obtain ⟨tail, htail, rfl⟩ := Option.map_eq_some_iff.mp hmap
          rw [append_eq_nil_iff, hnil, hsome tail htail, forall_mem_cons]
          exact and_congr_left fun _ => ⟨fun hloads _ => hloads, fun hloads => hloads hblank⟩

theorem parseNdjson_iff : (∃ out, parseNdjson json payload = some out ∧ out ≠ []) ↔
      (∀ line ∈ nonblankLines payload.toText, json.exceeds line = false) ∧
        ∃ line ∈ nonblankLines payload.toText, Json.loads line ≠ some (.arr []) := by
  obtain ⟨hnone, hsome⟩ := parseJsonLines_iff json (splitLines payload.toText)
  have hlines : ∀ p : Text → Prop, (∀ line ∈ nonblankLines payload.toText, p line) ↔
      ∀ line ∈ splitLines payload.toText, strip line ≠ [] → p (strip line) := by
    intro p
    simp [nonblankLines]
  unfold parseNdjson
  cases hout : parseJsonLines json (splitLines payload.toText) with
  | none =>
    obtain ⟨line, hline, hfull, hexceeds⟩ := hnone.mp hout
    refine iff_of_false (fun h => by cases h.choose_spec.1) fun h => ?_
    rw [(hlines _).mp h.1 line hline hfull] at hexceeds
    cases hexceeds
  | some out =>
    have hread : ∀ line ∈ nonblankLines payload.toText, json.exceeds line = false := by
      rw [hlines]
      intro line hline hfull
      by_contra hexceeds
      have hraised := hnone.mpr ⟨line, hline, hfull, Bool.not_eq_false _ ▸ hexceeds⟩
      rw [hout] at hraised
      cases hraised
    have hempty := hsome out hout
    rw [← hlines fun line => Json.loads line = some (.arr [])] at hempty
    rw [and_iff_right hread]
    constructor
    · rintro ⟨out', heq, hne⟩
      obtain rfl := Option.some.inj heq
      rw [Ne, hempty] at hne
      push Not at hne
      exact hne
    · rintro ⟨line, hline, hne⟩
      exact ⟨out, rfl, fun hnil => hne (hempty.mp hnil line hline)⟩

def Kept (payload : Payload) : Format → Prop
  | .json | .gelf => Yields json (strip payload.toText)
  | .ndjson =>
    (∀ line ∈ nonblankLines payload.toText, json.exceeds line = false) ∧
      ∃ line ∈ nonblankLines payload.toText, Json.loads line ≠ some (.arr [])
  | _ => True

variable (digits : Digits) (word : WordClass) (tables : CharTables)

theorem parsePayload_iff (h : strip payload.toText ≠ []) (format : Format) :
    (∃ out, parsePayload json digits word tables payload format = some out ∧ out ≠ []) ↔
      Kept json payload format := by
  have hlines : nonblankLines payload.toText ≠ [] := nonblankLines_ne_nil h
  have hempty : ∀ parse empty, lineRecords parse empty payload ≠ [] := by
    intro parse empty
    unfold lineRecords
    dsimp only
    split
    · exact cons_ne_nil _ _
    · next hne => exact hne
  cases format with
  | json => exact parseJson_iff json h
  | gelf => exact parseGelf_iff json h
  | ndjson => exact parseNdjson_iff json
  | cef =>
    refine iff_of_true ⟨_, rfl, ?_⟩ trivial
    unfold parseCef
    dsimp only
    split <;> simp_all
  | leef =>
    refine iff_of_true ⟨_, rfl, ?_⟩ trivial
    unfold parseLeef
    dsimp only
    split <;> simp_all
  | syslog5424 | syslog3164 => exact iff_of_true ⟨_, rfl, hempty _ _⟩ trivial
  | kv =>
    refine iff_of_true ⟨_, rfl, ?_⟩ trivial
    rw [Ne, map_eq_nil_iff, parseKv, map_eq_nil_iff]
    exact hlines
  | raw =>
    refine iff_of_true ⟨_, rfl, ?_⟩ trivial
    rw [if_neg h]
    exact cons_ne_nil _ _

theorem detectFormat_eq_none {payload : Payload} :
    detectFormat json digits word payload = none ↔
      ((strip payload.toText).head? = some '\x7b' ∨ (strip payload.toText).head? = some '[') ∧
        json.exceeds (strip payload.toText) = true := by
  unfold detectFormat
  dsimp only
  split
  · next hnil => simp [hnil]
  · next first rest hcons =>
      rw [hcons, head?_cons, Option.some.injEq, Option.some.injEq]
      split
      · next hfirst =>
          rw [and_iff_right hfirst]
          unfold detectJson JsonModule.loads
          cases json.exceeds (first :: rest) with
          | true => simp
          | false =>
            cases Json.loads (first :: rest) with
            | none => simp; split <;> simp
            | some j => simp
      · next hfirst =>
          refine iff_of_false ?_ fun h => hfirst h.1
          split
          · exact nofun
          split
          · exact nofun
          split
          · exact nofun
          split
          · exact nofun
          split
          · exact nofun
          · exact nofun

/-- **A payload that is not blank gives records** if and only if its format is found out and its
text, where that is JSON, is read and is no empty array. -/
theorem recordsFromPayload_iff {payload : Payload} (h : strip payload.toText ≠ [])
    (hint : Option Text) :
    (∃ out, recordsFromPayload json digits word tables payload hint = some out ∧ out ≠ []) ↔
      match resolveHint tables hint with
      | some format => Kept json payload format
      | none =>
        (((strip payload.toText).head? = some '\x7b' ∨
            (strip payload.toText).head? = some '[') →
          json.exceeds (strip payload.toText) = false) ∧
        ∀ format, detectFormat json digits word payload = some format →
          Kept json payload format := by
  unfold recordsFromPayload
  cases resolveHint tables hint with
  | some format => exact parsePayload_iff json digits word tables h format
  | none =>
    dsimp only
    have hnone := @detectFormat_eq_none json digits word payload
    cases hformat : detectFormat json digits word payload with
    | none =>
      obtain ⟨hlike, hexceeds⟩ := hnone.mp hformat
      refine iff_of_false (fun hout => nomatch hout.choose_spec.1) fun hread => ?_
      rw [hread.1 hlike] at hexceeds
      cases hexceeds
    | some format =>
      rw [Option.bind_some, parsePayload_iff json digits word tables h]
      constructor
      · intro hkept
        refine ⟨fun hlike => ?_, fun format' heq => ?_⟩
        · by_contra hexceeds
          have hraised := hnone.mpr ⟨hlike, Bool.not_eq_false _ ▸ hexceeds⟩
          rw [hformat] at hraised
          cases hraised
        · obtain rfl := Option.some.inj heq
          exact hkept
      · exact fun hread => hread.2 format rfl

end Kept

theorem recordsFromPayload_pair :
    ∃ out, recordsFromPayload sampleJson asciiDigits asciiWord asciiTables
      (.bytes [97, 61, 98]) none = some out ∧ out ≠ [] :=
  (recordsFromPayload_iff sampleJson asciiDigits asciiWord asciiTables (by decide) none).mpr
    ⟨by decide, fun format hformat => by
      have hkv : detectFormat sampleJson asciiDigits asciiWord (.bytes [97, 61, 98]) =
        some .kv := by
        decide
      rw [hkv] at hformat
      obtain rfl := Option.some.inj hformat
      trivial⟩

/-- The empty array gives no record. -/
theorem recordsFromPayload_empty :
    ¬ ∃ out, recordsFromPayload sampleJson asciiDigits asciiWord asciiTables
      (.bytes [91, 93]) none = some out ∧ out ≠ [] := by
  have hout : recordsFromPayload sampleJson asciiDigits asciiWord asciiTables
      (.bytes [91, 93]) none = some [] := by
    decide
  rw [hout]
  rintro ⟨out, heq, hne⟩
  exact hne (Option.some.inj heq).symm

end AgenticKibana.Receivers
