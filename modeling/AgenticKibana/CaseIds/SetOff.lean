import AgenticKibana.CaseIds.Consistency

/-!
# Templates that tell their numbers apart

The numbers of one period share the prefix and the widths of their dates, and differ in the source.
Where that is one source, or where the template does not show it, the longer number has the larger
sequence number.  Otherwise the sequence number has to be readable from one end: it stands at a
fixed distance, and no digit of another part touches it.
-/

namespace AgenticKibana.CaseIds

open List

/-- The text of a piece that all numbers without a verdict share. -/
def Piece.fixedText (numberPrefix : Text) : Piece → Option Text
  | .text s => some s
  | .token name _ =>
    match CaseIds.placeholder name with
    | none | some .verdict => some []
    | some .prefixText => some numberPrefix
    | some .sep => some ['-']
    | some _ => none

/-- Some pieces put no digit next to what stands before them; `look` reads a text from there. -/
def guarded (numberPrefix : Text) (look : Text → Text) : List Piece → Bool
  | [] => true
  | p :: rest =>
    match (p.fixedText numberPrefix).map look with
    | none => false
    | some [] => guarded numberPrefix look rest
    | some (c :: _) => !c.isDigit

def Piece.Varies (p : Piece) : Prop := p.placeholder = some .seq ∨ p.placeholder = some .source

/-- The first sequence number, or the last, is at a fixed distance from its end, and nothing that
may begin or end with a digit comes next to it on the other side. -/
def SetOff (numberPrefix : Text) (ps : List Piece) : Prop :=
  ∃ before name spec after, ps = before ++ .token name spec :: after ∧
    placeholder name = some .seq ∧
    ((∀ p ∈ before, ¬ p.Varies) ∧ guarded numberPrefix id after = true ∨
      (∀ p ∈ after, ¬ p.Varies) ∧ guarded numberPrefix List.reverse before.reverse = true)

/-- A template tells the sequence numbers of cases of two sources apart. -/
def TellsApart (template numberPrefix source source' : Text) : Prop :=
  HasSeq template ∧ (slug source = slug source' ∨
    (∀ p ∈ pieces template, p.placeholder ≠ some .source) ∨
    SetOff numberPrefix (pieces template))

section Reading

variable {ds rest s : Text} {n m : Nat}

theorem takeWhile_digits (hds : ∀ c ∈ ds, c.isDigit = true)
    (hrest : ∀ c ∈ rest.head?, c.isDigit = false) : (ds ++ rest).takeWhile Char.isDigit = ds := by
  rw [takeWhile_append_of_pos hds]
  cases rest with
  | nil => simp
  | cons c rest => simp [hrest c rfl]

/-- The text of a sequence number: blanks, and digits with its value. -/
structure Numeral (n : Nat) (s : Text) : Prop where
  value : Nat.ofDigitChars 10 s 0 = n
  shape : ∃ k ds, s = List.replicate k ' ' ++ ds ∧ ds ≠ [] ∧ ∀ c ∈ ds, c.isDigit = true

theorem numeral_leftpad (fill : Char) (hfill : fill = '0' ∨ fill = ' ') (width n : Nat) :
    Numeral n ((Nat.toDigits 10 n).leftpad width fill) := by
  refine ⟨ofDigitChars_leftpad fill hfill width n, ?_⟩
  have hdigits : ∀ c ∈ Nat.toDigits 10 n, c.isDigit = true := fun c hc =>
    Nat.isDigit_of_mem_toDigits (by decide) (by decide) hc
  have hpos : 0 < (Nat.toDigits 10 n).length := Nat.length_toDigits_pos
  rcases hfill with rfl | rfl
  · refine ⟨0, (Nat.toDigits 10 n).leftpad width '0', rfl, ?_, fun c hc => ?_⟩
    · rw [← length_pos_iff, length_leftpad]
      omega
    · rcases mem_append.mp hc with hpad | hdigit
      · rw [eq_of_mem_replicate hpad]
        rfl
      · exact hdigits c hdigit
  · exact ⟨_, _, rfl, length_pos_iff.mp hpos, hdigits⟩

theorem ofDigitChars_blanks (k : Nat) (ds : Text) :
    Nat.ofDigitChars 10 (List.replicate k ' ' ++ ds) 0 = Nat.ofDigitChars 10 ds 0 := by
  induction k with
  | zero => rfl
  | succ k ih => simpa [Nat.ofDigitChars, replicate_succ] using ih

theorem Numeral.digits (h : Numeral n s) : ∃ k ds, s = List.replicate k ' ' ++ ds ∧ ds ≠ [] ∧
    (∀ c ∈ ds, c.isDigit = true) ∧ Nat.ofDigitChars 10 ds 0 = n := by
  obtain ⟨hvalue, k, ds, rfl, hne, hds⟩ := h
  exact ⟨k, ds, rfl, hne, hds, by rw [← hvalue, ofDigitChars_blanks]⟩

/-- A number is read from the left, where no digit comes behind it. -/
theorem Numeral.read_left (h : Numeral n s) (hrest : ∀ c ∈ rest.head?, c.isDigit = false) :
    Nat.ofDigitChars 10 (((s ++ rest).dropWhile (· == ' ')).takeWhile Char.isDigit) 0 = n := by
  obtain ⟨k, ds, rfl, hne, hds, hvalue⟩ := h.digits
  have hdrop : (ds ++ rest).dropWhile (· == ' ') = ds ++ rest := by
    cases ds with
    | nil => exact absurd rfl hne
    | cons d ds =>
      have hd : (d == ' ') = false := by
        apply beq_false_of_ne
        rintro rfl
        exact absurd (hds ' ' (mem_cons_self ..)) (by decide)
      rw [cons_append, dropWhile_cons_of_neg (by simp [hd])]
  rw [append_assoc, dropWhile_append_of_pos (by simp), hdrop, takeWhile_digits hds hrest, hvalue]

/-- It is read from the right, where no digit comes before it. -/
theorem Numeral.read_right (h : Numeral n s) (hrest : ∀ c ∈ rest.reverse.head?, c.isDigit = false) :
    Nat.ofDigitChars 10 ((rest ++ s).reverse.takeWhile Char.isDigit).reverse 0 = n := by
  obtain ⟨k, ds, rfl, -, hds, hvalue⟩ := h.digits
  have hhead : ∀ c ∈ (List.replicate k ' ' ++ rest.reverse).head?, c.isDigit = false := by
    cases k with
    | zero => exact hrest
    | succ k =>
      intro c hc
      cases hc
      rfl
  have hreverse : (rest ++ (List.replicate k ' ' ++ ds)).reverse =
      ds.reverse ++ (List.replicate k ' ' ++ rest.reverse) := by
    simp
  rw [hreverse, takeWhile_digits (by simpa using hds) hhead, reverse_reverse, hvalue]

end Reading

section Rendering

variable {digit : Char → Option Nat} {numberPrefix s t : Text} {ctx ctx' : Context} {n m : Nat}
  {p : Piece} {ps qs : List Piece}

theorem renderPieces_append : renderPieces digit numberPrefix ctx n (ps ++ qs) = some s ↔
    ∃ a b, renderPieces digit numberPrefix ctx n ps = some a ∧
      renderPieces digit numberPrefix ctx n qs = some b ∧ s = a ++ b := by
  induction ps generalizing s with
  | nil => simp [renderPieces]
  | cons p ps ih =>
    simp only [cons_append, renderPieces_cons, ih]
    constructor
    · rintro ⟨a, _, ha, ⟨b, c, hb, hc, rfl⟩, rfl⟩
      exact ⟨a ++ b, c, ⟨a, b, ha, hb, rfl⟩, hc, (append_assoc a b c).symm⟩
    · rintro ⟨_, c, ⟨a, b, ha, hb, rfl⟩, hc, rfl⟩
      exact ⟨a, b ++ c, ha, ⟨b, c, hb, hc, rfl⟩, append_assoc a b c⟩

theorem renderPiece_fixed (hverdict : ctx.verdict = none) (h : p.fixedText numberPrefix = some t) :
    renderPiece digit numberPrefix ctx n p = some t := by
  cases p with
  | text s => exact h
  | token name spec =>
    simp only [Piece.fixedText] at h
    simp only [renderPiece]
    cases hp : placeholder name with
    | none => simpa [hp] using h
    | some q =>
      simp only [hp] at h ⊢
      cases q with
      | prefixText | sep => simpa [value] using h
      | verdict =>
        have hnone : value numberPrefix ctx .verdict = [] := congrArg verdictText hverdict
        change some (value numberPrefix ctx .verdict) = _
        rw [hnone]
        exact h
      | seq | year | yy | mm | dd | source => simp at h

/-- Guarding pieces begin, or read backwards end, with no digit. -/
theorem head_of_guarded (hverdict : ctx.verdict = none) (h : guarded numberPrefix id ps = true)
    (hs : renderPieces digit numberPrefix ctx n ps = some s) :
    ∀ c ∈ s.head?, c.isDigit = false := by
  induction ps generalizing s with
  | nil =>
    cases hs
    simp
  | cons p ps ih =>
    obtain ⟨a, b, ha, hb, rfl⟩ := renderPieces_cons.mp hs
    cases hfixed : p.fixedText numberPrefix with
    | none => simp [guarded, hfixed] at h
    | some t =>
      obtain rfl : t = a := Option.some.inj ((renderPiece_fixed hverdict hfixed).symm.trans ha)
      cases t with
      | nil => exact ih (by simpa [guarded, hfixed] using h) hb
      | cons c t => simpa [guarded, hfixed] using h

theorem last_of_guarded (hverdict : ctx.verdict = none)
    (h : guarded numberPrefix List.reverse ps = true)
    (hs : renderPieces digit numberPrefix ctx n ps.reverse = some s) :
    ∀ c ∈ s.reverse.head?, c.isDigit = false := by
  induction ps generalizing s with
  | nil =>
    cases hs
    simp
  | cons p ps ih =>
    rw [reverse_cons] at hs
    obtain ⟨b, _, hb, hlast, rfl⟩ := renderPieces_append.mp hs
    obtain ⟨a, _, ha, hnil, rfl⟩ := renderPieces_cons.mp hlast
    cases hnil
    rw [append_nil, reverse_append]
    cases hfixed : p.fixedText numberPrefix with
    | none => simp [guarded, hfixed] at h
    | some t =>
      obtain rfl : t = a := Option.some.inj ((renderPiece_fixed hverdict hfixed).symm.trans ha)
      cases hlook : t.reverse with
      | nil => exact ih (by simpa [guarded, hfixed, hlook] using h) hb
      | cons c rest => simpa [guarded, hfixed, hlook] using h

theorem numeral_of_renderPiece {name : Text} {spec : Option Text}
    (hseq : placeholder name = some .seq)
    (h : renderPiece digit numberPrefix ctx n (.token name spec) = some s) : Numeral n s := by
  simp only [renderPiece, hseq] at h
  cases spec with
  | none =>
    cases h
    simpa using numeral_leftpad '0' (.inl rfl) 0 n
  | some spec =>
    obtain ⟨-, -, rfl⟩ := formatInt_eq_some.mp h
    exact numeral_leftpad _ (specFill_cases _) _ n

theorem length_value (hverdict : ctx.verdict = none) (hverdict' : ctx'.verdict = none)
    {q : Placeholder} (hsource : q = .source → slug ctx.source = slug ctx'.source) :
    (value numberPrefix ctx q).length = (value numberPrefix ctx' q).length := by
  have hrun : ∀ k, ∀ c : Context, q ≠ .seq → q.item = some (.run digits k (some k)) →
      (value numberPrefix c q).length = k := by
    intro k c hseq hitem
    obtain ⟨-, hleast, hmost⟩ := value_fits numberPrefix c hseq hitem
    exact le_antisymm (hmost k rfl) hleast
  cases q with
  | prefixText | sep | seq => rfl
  | year => rw [hrun 4 ctx (by decide) rfl, hrun 4 ctx' (by decide) rfl]
  | yy | mm | dd => rw [hrun 2 ctx (by decide) rfl, hrun 2 ctx' (by decide) rfl]
  | source => rw [value, value, hsource rfl]
  | verdict => rw [value, value, hverdict, hverdict']

theorem length_of_fixed (hverdict : ctx.verdict = none) (hverdict' : ctx'.verdict = none)
    (h : ∀ p ∈ ps, ¬ p.Varies) (hs : renderPieces digit numberPrefix ctx n ps = some s)
    (ht : renderPieces digit numberPrefix ctx' m ps = some t) : s.length = t.length := by
  have hroom : ∀ p ∈ ps, ∀ q ∈ p.placeholder, q ≠ .seq ∧
      (value numberPrefix ctx q).length = (value numberPrefix ctx' q).length := by
    intro p hp q hq
    refine ⟨?_, length_value hverdict hverdict' ?_⟩
    · rintro rfl
      exact h p hp (.inl hq)
    · rintro rfl
      exact absurd (.inr hq) (h p hp)
  apply le_antisymm
  · refine length_renderPieces_le (fun p hp q hq => ?_) hs ht
    rw [NoWider, if_neg (hroom p hp q hq).1]
    exact (hroom p hp q hq).2.le
  · refine length_renderPieces_le (fun p hp q hq => ?_) ht hs
    rw [NoWider, if_neg (hroom p hp q hq).1]
    exact (hroom p hp q hq).2.ge

theorem eq_of_setOff (hverdict : ctx.verdict = none) (hverdict' : ctx'.verdict = none)
    (h : SetOff numberPrefix ps) (hn : renderPieces digit numberPrefix ctx n ps = some s)
    (hm : renderPieces digit numberPrefix ctx' m ps = some s) : n = m := by
  obtain ⟨before, name, spec, after, rfl, hseq, hside⟩ := h
  obtain ⟨a, _, ha, hxb, rfl⟩ := renderPieces_append.mp hn
  obtain ⟨x, b, hx, hb, rfl⟩ := renderPieces_cons.mp hxb
  obtain ⟨a', _, ha', hxb', heq⟩ := renderPieces_append.mp hm
  obtain ⟨x', b', hx', hb', rfl⟩ := renderPieces_cons.mp hxb'
  have hnumeral := numeral_of_renderPiece hseq hx
  have hnumeral' := numeral_of_renderPiece hseq hx'
  rcases hside with ⟨hfixed, hguarded⟩ | ⟨hfixed, hguarded⟩
  · have hlength := length_of_fixed hverdict hverdict' hfixed ha ha'
    have htail : x ++ b = x' ++ b' := (append_inj heq hlength).2
    rw [← hnumeral.read_left (head_of_guarded hverdict hguarded hb), htail,
      hnumeral'.read_left (head_of_guarded hverdict' hguarded hb')]
  · have hlength := length_of_fixed hverdict hverdict' hfixed hb hb'
    rw [← append_assoc, ← append_assoc] at heq
    have hhead : a ++ x = a' ++ x' := (append_inj' heq hlength).1
    rw [← reverse_reverse before] at ha ha'
    rw [← hnumeral.read_right (last_of_guarded hverdict hguarded ha), hhead,
      hnumeral'.read_right (last_of_guarded hverdict' hguarded ha')]

variable {template : Text}

/-- **Where a template tells the numbers of two cases apart, their sequence numbers can be read off
the rendered text.** -/
theorem eq_of_render (hverdict : ctx.verdict = none) (hverdict' : ctx'.verdict = none)
    (h : TellsApart template numberPrefix ctx.source ctx'.source)
    (hn : render digit template numberPrefix ctx n = some s)
    (hm : render digit template numberPrefix ctx' m = some s) : n = m := by
  have hvalid : validateTemplate digit template = none := by
    unfold render at hn
    split at hn
    · cases hn
    · assumption
  rw [render_of_valid hvalid] at hn hm
  obtain ⟨⟨name, spec, hmem, hseq⟩, hsource⟩ := h
  rcases hsource with hslug | hnone | hoff
  · refine eq_of_renderPieces (fun p _ q _ _ => ?_) hn hm hmem hseq
    exact length_value hverdict hverdict' fun _ => hslug
  · refine eq_of_renderPieces (fun p hp q hq _ => ?_) hn hm hmem hseq
    refine length_value hverdict hverdict' ?_
    rintro rfl
    exact absurd hq (hnone p hp)
  · exact eq_of_setOff hverdict hverdict' hoff hn hm

end Rendering

end AgenticKibana.CaseIds
